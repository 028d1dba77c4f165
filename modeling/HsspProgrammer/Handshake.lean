import HsspProgrammer.BusDiscipline

/-! The wait for the handshake, sample by sample: how long each of the two loops waits,
and how long they wait together. -/
namespace HsspProgrammer.Handshake
open Pins Issp Clocking
open BusDiscipline (samples)

inductive Place where
  | polling (level : Bool) (timer : UInt32)
  | returned (failed : Bool) (timer : UInt32)
  deriving DecidableEq, Repr

/- One turn of a loop. `timer--` is 0 - 1 in the turn that gives up. -/
def Place.poll (sample : Bool) : Place → Place
  | .polling level timer =>
    if sample = level then
      if level then .polling false TRANSITION_TIMEOUT else .returned false timer
    else if timer = 0 then .returned true (timer - 1)
    else .polling level (timer - 1)
  | place => place

def run (level : Nat → Bool) : Nat → Place
  | 0 => .polling true TRANSITION_TIMEOUT
  | n + 1 => (run level n).poll (level n)

/- From sample `n` on there are `k` unsuccessful polls and then a successful one. -/
def Waits (level : Nat → Bool) (target : Bool) (n k : Nat) : Prop :=
  (∀ j < k, level (n + j) ≠ target) ∧ level (n + k) = target

/- `i` unsuccessful polls up to the first high sample, then `k` up to a low one. -/
def Edge (level : Nat → Bool) (i k : Nat) : Prop := Waits level true 0 i ∧ Waits level false (i + 1) k

theorem waitsUnique {level : Nat → Bool} {target : Bool} {n k k' : Nat} (first : Waits level target n k)
    (second : Waits level target n k') : k = k' := by
  rcases Nat.lt_trichotomy k k' with less | same | more
  · exact absurd first.2 (second.1 k less)
  · exact same
  · exact absurd second.2 (first.1 k' more)

theorem edgeUnique {level : Nat → Bool} {i k i' k' : Nat} (first : Edge level i k) (second : Edge level i' k') :
    i = i' ∧ k = k' := by
  obtain rfl := waitsUnique first.1 second.1
  exact ⟨rfl,waitsUnique first.2 second.2⟩

section Loops
variable {level : Nat → Bool} {target : Bool}

theorem waitsNext {n k : Nat} (other : level n ≠ target) :
    Waits level target n (k + 1) ↔ Waits level target (n + 1) k := by
  have shift (j : Nat) : n + 1 + j = n + (j + 1) := by omega
  simp only [Waits,shift]
  refine and_congr_left (fun _ => ⟨fun before j less => before (j + 1) (by omega),fun before j less => ?_⟩)
  cases j with
  | zero => exact other
  | succ j => exact before j (by omega)

/-- One loop succeeds when its level comes within its own timeout. -/
theorem polledWaits {n timer : Nat} : (polled (samples level) target timer n).1 = false ↔
    ∃ k ≤ timer, Waits level target n k := by
  induction timer generalizing n with
  | zero =>
    have sample : (polled (samples level) target 0 n).1 = decide (level n ≠ target) := rfl
    simp [sample,Waits]
  | succ timer ih =>
    by_cases now : level n = target
    · have stops : (polled (samples level) target (timer + 1) n).1 = false := by simp [polled,samples,now]
      exact ⟨fun _ => ⟨0,Nat.zero_le _,by simp,now⟩,fun _ => stops⟩
    · have waits : polled (samples level) target (timer + 1) n = polled (samples level) target timer (n + 1) :=
        if_neg now
      rw [waits,ih]
      constructor
      · rintro ⟨k,soon,later⟩
        exact ⟨k + 1,by omega,(waitsNext now).mpr later⟩
      · rintro ⟨k,soon,later⟩
        cases k with
        | zero => exact absurd later.2 now
        | succ k => exact ⟨k,by omega,(waitsNext now).mp later⟩

theorem polledNext {n k timer : Nat} (soon : k ≤ timer) (waits : Waits level target n k) :
    (polled (samples level) target timer n).2 = n + k + 1 := by
  induction k generalizing n timer with
  | zero =>
    have now : level n = target := waits.2
    cases timer <;> simp [polled,samples,now]
  | succ k ih =>
    have other : level n ≠ target := waits.1 0 (by omega)
    obtain ⟨less,rfl⟩ : ∃ less, timer = less + 1 := ⟨timer - 1,by omega⟩
    have goesOn : polled (samples level) target (less + 1) n = polled (samples level) target less (n + 1) := if_neg other
    rw [goesOn,ih (by omega) ((waitsNext other).mp waits)]
    omega

/-- The turns of one loop, from any turn on: it ends with the sample at which it finds
its level or gives up. -/
theorem loopEnds {n : Nat} {timer : UInt32} (turn : run level n = .polling target timer) :
    ∃ left, run level (polled (samples level) target timer.toNat n).2 =
      if (polled (samples level) target timer.toNat n).1 then .returned true left
      else if target then .polling false TRANSITION_TIMEOUT else .returned false left := by
  have next : run level (n + 1) = (Place.polling target timer).poll (level n) := by rw [run,turn]
  induction timer using waitLevel.induct generalizing n with
  | case1 timer ih =>
    by_cases now : level n = target
    · have stops : polled (samples level) target timer.toNat n = (false,n + 1) := by
        cases timer.toNat <;> simp [polled,samples,now]
      refine ⟨timer,?_⟩
      rw [stops,next,Place.poll,if_pos now]
      rfl
    · rw [Place.poll,if_neg now] at next
      by_cases last : timer = 0
      · have stops : polled (samples level) target timer.toNat n = (true,n + 1) := by simp [last,polled,samples,now]
        refine ⟨timer - 1,?_⟩
        rw [stops,next,if_pos last]
        rfl
      · have positive : timer.toNat ≠ 0 := fun zero => last (UInt32.toNat.inj zero)
        have left : timer.toNat = (timer - 1).toNat + 1 := by
          rw [timerLess last]
          omega
        have waits : polled (samples level) target ((timer - 1).toNat + 1) n =
            polled (samples level) target (timer - 1).toNat (n + 1) := if_neg now
        rw [if_neg last] at next
        rw [left,waits]
        exact ih last next (by rw [run,next])

/-- No turn is made with a timer that has wrapped. -/
theorem timerFits {n : Nat} {timer : UInt32} (turn : run level n = .polling target timer) :
    timer.toNat ≤ TRANSITION_TIMEOUT.toNat := by
  induction n generalizing target timer with
  | zero =>
    obtain ⟨_,rfl⟩ := Place.polling.inj turn
    exact Nat.le_refl _
  | succ n ih =>
    rw [run] at turn
    cases before : run level n with
    | returned failed left =>
      rw [before] at turn
      contradiction
    | polling target' timer' =>
      have fits := ih before
      rw [before,Place.poll] at turn
      split at turn
      · split at turn
        · obtain ⟨_,rfl⟩ := Place.polling.inj turn
          exact Nat.le_refl _
        · contradiction
      · split at turn
        · contradiction
        · rename_i running
          obtain ⟨_,rfl⟩ := Place.polling.inj turn
          rw [timerLess running]
          omega

end Loops

/- SDATA is released, and the next sample is the first one of the sequence. -/
def listening (sdata sclk xres : Bool) (log : List Event) : Bus Nat := ⟨⟨.input,sdata,sclk,xres⟩,0,log⟩

section Detect
variable (level : Nat → Bool) (sdata sclk xres : Bool) (log : List Event)

theorem detectSamples : (transitionHiLoDetect (samples level) (listening sdata sclk xres log)).1 =
    (detected (samples level) 0).1 :=
  (detectSince (samples level) 0 _ (sinceHere (listening sdata sclk xres log))).1

/-- The two loops come to an end together with the function. -/
theorem detectEnds : ∃ n left, run level n =
    .returned (transitionHiLoDetect (samples level) (listening sdata sclk xres log)).1 left := by
  rw [detectSamples]
  have starts : run level 0 = .polling true TRANSITION_TIMEOUT := rfl
  obtain ⟨left,ends⟩ := loopEnds starts
  cases high : (polled (samples level) true TRANSITION_TIMEOUT.toNat 0).1 with
  | true =>
    rw [high,if_pos rfl] at ends
    have gone : (detected (samples level) 0).1 = true := by simp [detected,high]
    exact ⟨_,left,gone ▸ ends⟩
  | false =>
    rw [high,if_neg (by simp),if_pos rfl] at ends
    obtain ⟨left',ends'⟩ := loopEnds ends
    have second : (detected (samples level) 0).1 = (polled (samples level) false TRANSITION_TIMEOUT.toNat
        (polled (samples level) true TRANSITION_TIMEOUT.toNat 0).2).1 := by simp [detected,high]
    refine ⟨_,left',ends'.trans ?_⟩
    rw [second]
    split <;> simp_all

/-- Each loop has the whole timeout for itself. -/
theorem detectEdge : (transitionHiLoDetect (samples level) (listening sdata sclk xres log)).1 = false ↔
    ∃ i k, Edge level i k ∧ i ≤ TRANSITION_TIMEOUT.toNat ∧ k ≤ TRANSITION_TIMEOUT.toNat := by
  rw [detectSamples]
  have both : (detected (samples level) 0).1 = false ↔
      (polled (samples level) true TRANSITION_TIMEOUT.toNat 0).1 = false ∧
      (polled (samples level) false TRANSITION_TIMEOUT.toNat
        (polled (samples level) true TRANSITION_TIMEOUT.toNat 0).2).1 = false := by
    cases high : (polled (samples level) true TRANSITION_TIMEOUT.toNat 0).1 <;> simp [detected,high]
  rw [both,polledWaits,polledWaits]
  constructor
  · rintro ⟨⟨i,soon,first⟩,⟨k,short,second⟩⟩
    rw [polledNext soon first,Nat.zero_add] at second
    exact ⟨i,k,⟨first,second⟩,soon,short⟩
  · rintro ⟨i,k,⟨first,second⟩,soon,short⟩
    refine ⟨⟨i,soon,first⟩,⟨k,short,?_⟩⟩
    rwa [polledNext soon first,Nat.zero_add]

/-- What is promised: an end, success when both waits together are within one timeout
and only then, and no turn with a wrapped timer. -/
structure Promise : Prop where
  ends : ∃ n left, run level n =
    .returned (transitionHiLoDetect (samples level) (listening sdata sclk xres log)).1 left
  succeeds : (transitionHiLoDetect (samples level) (listening sdata sclk xres log)).1 = false ↔
    ∃ i k, Edge level i k ∧ i + k ≤ TRANSITION_TIMEOUT.toNat
  unwrapped : ∀ n target timer, run level n = .polling target timer → timer.toNat ≤ TRANSITION_TIMEOUT.toNat

theorem promiseFits (promise : Promise level sdata sclk xres log) {i k : Nat} (edge : Edge level i k)
    (soon : i ≤ TRANSITION_TIMEOUT.toNat) (short : k ≤ TRANSITION_TIMEOUT.toNat) :
    i + k ≤ TRANSITION_TIMEOUT.toNat := by
  have success := (detectEdge level sdata sclk xres log).mpr ⟨i,k,edge,soon,short⟩
  obtain ⟨i',k',edge',fits⟩ := promise.succeeds.mp success
  obtain ⟨rfl,rfl⟩ := edgeUnique edge edge'
  exact fits

/-- The promise is kept unless two waits, each of them in time, together are not: the
timer is loaded again between the loops. -/
theorem promiseKept : Promise level sdata sclk xres log ↔
    ∀ i k, Edge level i k → i ≤ TRANSITION_TIMEOUT.toNat → k ≤ TRANSITION_TIMEOUT.toNat →
      i + k ≤ TRANSITION_TIMEOUT.toNat := by
  refine ⟨fun promise i k => promiseFits level sdata sclk xres log promise,fun together => ?_⟩
  refine ⟨detectEnds level sdata sclk xres log,?_,fun _ _ _ turn => timerFits turn⟩
  refine (detectEdge level sdata sclk xres log).trans ⟨?_,?_⟩
  · rintro ⟨i,k,edge,soon,short⟩
    exact ⟨i,k,edge,together i k edge soon short⟩
  · rintro ⟨i,k,edge,fits⟩
    exact ⟨i,k,edge,by omega,by omega⟩

end Detect

/- High at the last sample the first loop takes, and once more. -/
theorem reloaded : ¬ Promise (fun n => decide (n = TRANSITION_TIMEOUT.toNat ∨ n = TRANSITION_TIMEOUT.toNat + 1))
    true false false [] := by
  intro promise
  have edge : Edge (fun n => decide (n = TRANSITION_TIMEOUT.toNat ∨ n = TRANSITION_TIMEOUT.toNat + 1))
      TRANSITION_TIMEOUT.toNat 1 := by
    generalize TRANSITION_TIMEOUT.toNat = timeout
    refine ⟨⟨fun j less => ?_,?_⟩,⟨fun j less => ?_,?_⟩⟩
    · simp only [ne_eq,decide_eq_true_eq]
      omega
    · simp
    · simp only [ne_eq,decide_eq_false_iff_not,not_not]
      omega
    · simp only [decide_eq_false_iff_not]
      omega
  have fits := promiseFits _ _ _ _ _ promise edge (Nat.le_refl _) (by decide)
  omega

end HsspProgrammer.Handshake
