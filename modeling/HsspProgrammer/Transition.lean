import Mathlib.Tactic.Common

/-! Labelled systems whose actions are partial functions, and their runs under a
guard on the actions. Invariants and run lengths are obtained from one step only. -/
namespace HsspProgrammer.Transition

variable {σ α : Type}

/- A guard restricts the actions a property speaks about; it sees the state before
the action, so an assumption on the environment is a guard and not a new system. -/
inductive Run (step : σ → α → Option σ) (guard : σ → α → Prop) : σ → List α → σ → Prop where
  | nil (s) : Run step guard s [] s
  | cons {s a t rest u} (allowed : guard s a) (now : step s a = some t)
      (later : Run step guard t rest u) : Run step guard s (a :: rest) u

/-- Where a list of actions leads, to be evaluated. -/
def runAll (step : σ → α → Option σ) : σ → List α → Option σ
  | s,[] => some s
  | s,a :: rest => (step s a).bind (fun t => runAll step t rest)

section
variable {step : σ → α → Option σ} {guard : σ → α → Prop}

theorem runAppend {s t u as bs} (left : Run step guard s as t) (right : Run step guard t bs u) :
    Run step guard s (as ++ bs) u := by
  induction left with
  | nil => exact right
  | cons allowed now later ih => exact .cons allowed now (ih right)

theorem runSingle {s a t} (allowed : guard s a) (now : step s a = some t) :
    Run step guard s [a] t := .cons allowed now (.nil t)

theorem runWeaken {weaker : σ → α → Prop} (imp : ∀ s a, guard s a → weaker s a)
    {s as t} (run : Run step guard s as t) : Run step weaker s as t := by
  induction run with
  | nil s => exact .nil s
  | cons allowed now later ih => exact .cons (imp _ _ allowed) now ih

theorem runInvariant (inv : σ → Prop)
    (preserved : ∀ s a t, inv s → guard s a → step s a = some t → inv t)
    {s as t} (run : Run step guard s as t) (initial : inv s) : inv t := by
  induction run with
  | nil => exact initial
  | cons allowed now later ih => exact ih (preserved _ _ _ initial allowed now)

theorem runEvaluated [∀ s a, Decidable (guard s a)] {s t as}
    (ends : runAll (fun s a => if guard s a then step s a else none) s as = some t) : Run step guard s as t := by
  induction as generalizing s with
  | nil => cases ends; exact .nil _
  | cons a rest ih =>
    obtain ⟨u,now,later⟩ := Option.bind_eq_some_iff.mp ends
    obtain ⟨allowed,now⟩ := Option.ite_none_right_eq_some.mp now
    exact .cons allowed now (ih later)

theorem runFollows {s t as} (run : Run step guard s as t) : runAll step s as = some t := by
  induction run with
  | nil => rfl
  | cons allowed now later ih => rw [runAll,now]; exact ih

/-- Where each step is matched by steps of another system, so is a run. -/
theorem runSimulated {σ' α' : Type} {step' : σ' → α' → Option σ'} {guard' : σ' → α' → Prop} (rel : σ → σ' → Prop)
    (one : ∀ s a t u, rel s u → guard s a → step s a = some t → ∃ bs v, Run step' guard' u bs v ∧ rel t v)
    {s as t} (run : Run step guard s as t) {u} (start : rel s u) : ∃ bs v, Run step' guard' u bs v ∧ rel t v := by
  induction run generalizing u with
  | nil => exact ⟨[],u,.nil u,start⟩
  | cons allowed now later ih =>
    obtain ⟨front,v,first,related⟩ := one _ _ _ _ start allowed now
    obtain ⟨back,w,second,related⟩ := ih related
    exact ⟨front ++ back,w,runAppend first second,related⟩

/-- A measure that every step of the run decreases bounds its length. The measure may
be known with the invariant only, as a second argument of it. -/
theorem runBound (inv : σ → Nat → Prop)
    (decreases : ∀ s n a t, inv s n → guard s a → step s a = some t → ∃ m < n, inv t m)
    {s as t n} (run : Run step guard s as t) (initial : inv s n) : ∃ m, inv t m ∧ as.length + m ≤ n := by
  induction run generalizing n with
  | nil => exact ⟨n,initial,by simp⟩
  | cons allowed now later ih =>
    obtain ⟨m,less,next⟩ := decreases _ _ _ _ initial allowed now
    obtain ⟨last,holds,bound⟩ := ih next
    refine ⟨last,holds,?_⟩
    simp only [List.length_cons]
    omega

/-- With such a measure there is a run to a state where nothing allowed is possible. -/
theorem runToEnd (inv : σ → Nat → Prop)
    (decreases : ∀ s n a t, inv s n → guard s a → step s a = some t → ∃ m < n, inv t m)
    {n s} (start : inv s n) :
    ∃ as t m, Run step guard s as t ∧ inv t m ∧ ∀ a, guard t a → step t a = none := by
  induction n using Nat.strongRecOn generalizing s with
  | ind n ih =>
    by_cases more : ∃ a t, guard s a ∧ step s a = some t
    · obtain ⟨a,t,allowed,now⟩ := more
      obtain ⟨m,less,next⟩ := decreases s n a t start allowed now
      obtain ⟨as,last,rest,run,holds,ended⟩ := ih m less next
      exact ⟨a :: as,last,rest,.cons allowed now run,holds,ended⟩
    · refine ⟨[],s,n,.nil s,start,fun a allowed => ?_⟩
      cases now : step s a with
      | none => rfl
      | some t => exact absurd ⟨a,t,allowed,now⟩ more

end

section Logs
/- What a log says at each place where `x` stands in it, of what is before that place. -/
variable {x : α} {log more : List α} {p : List α → Prop}

theorem occursAppend (old : ∀ front back, log = front ++ x :: back → p front)
    (now : ∀ front back, more = front ++ x :: back → p (log ++ front)) :
    ∀ front back, log ++ more = front ++ x :: back → p front := by
  intro front back split
  rcases List.append_eq_append_iff.mp split with ⟨middle,rfl,tail⟩ | ⟨middle,rfl,tail⟩
  · exact now middle back tail
  · cases middle with
    | nil => exact (by simpa using now [] back tail.symm)
    | cons event middle =>
      obtain ⟨rfl,rfl⟩ := List.cons.inj tail
      exact old front middle rfl

theorem occursOther (old : ∀ front back, log = front ++ x :: back → p front) (other : x ∉ more) :
    ∀ front back, log ++ more = front ++ x :: back → p front :=
  occursAppend old (fun front back split => absurd (by rw [split]; simp) other)

end Logs
end HsspProgrammer.Transition
