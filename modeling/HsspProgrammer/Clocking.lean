import HsspProgrammer.Issp

/-! What the pin helpers and the bit-serial functions do, for anything on the other end
of the wires: how they leave the pins, what has been on the wires since, the bits the
other end has seen, and that the bus has been used in order. -/
namespace HsspProgrammer.Clocking
open Ascii (Bytes)
open Pins Issp Triples

/- SDATA is read in input mode only, and its mode and driven level are changed while
the clock is low. -/
def Disciplined : Event → Prop
  | .written before after => (after.sdataMode = before.sdataMode ∧ after.driven = before.driven) ∨
      (before.sclk = false ∧ after.sclk = false)
  | .read port => port.sdataMode = .input

variable {δ : Type}

/- The level on SDATA, `none` for Hi-Z, and the clock. -/
structure At (drive : Option Bool) (sclk : Bool) (d : δ) (s : Bus δ) : Prop where
  drive : s.port.driven = drive
  clock : s.port.sclk = sclk
  reset : s.port.xres = false
  device : s.device = d
  clean : ∀ e ∈ s.log, Disciplined e

def Driving (d : δ) (s : Bus δ) : Prop := ∃ level, At (some level) false d s

theorem drivenInput {p : Port} : p.driven = none ↔ p.sdataMode = .input := by
  unfold Port.driven
  cases p.sdataMode <;> simp

theorem cleanAppend {log : List Event} {e : Event} (clean : ∀ e ∈ log, Disciplined e) (orderly : Disciplined e) :
    ∀ e' ∈ log ++ [e], Disciplined e' := by
  intro e' inside
  rcases List.mem_append.mp inside with old | now
  · exact clean e' old
  · rwa [List.mem_singleton.mp now]

/- The level on SDATA at a falling edge of SCLK, and its rising edges. -/
def fallOf : Event → Option (Option Bool)
  | .written before after => if before.sclk = true ∧ after.sclk = false then some after.driven else none
  | .read _ => none

def risen : Event → Bool
  | .written before after => !before.sclk && after.sclk
  | .read _ => false

def falls (log : List Event) : List (Option Bool) := log.filterMap fallOf
def rises (log : List Event) : Nat := log.countP risen

/- `log` has gone on from `start`: what SDATA was at its falling edges, as many rising
ones but for a clock that was high then or is now, and the order of the bus. -/
def Adds (start : Bus δ) (sclk : Bool) (levels : List (Option Bool)) (log : List Event) : Prop :=
  ∃ made, log = start.log ++ made ∧ falls made = levels ∧
    rises made + start.port.sclk.toNat = levels.length + sclk.toNat ∧ ∀ e ∈ made, Disciplined e

/- The bus since it was in the state `start`. -/
structure Since (start : Bus δ) (drive : Option Bool) (sclk : Bool) (levels : List (Option Bool)) (d : δ) (s : Bus δ) :
    Prop where
  drive : s.port.driven = drive
  clock : s.port.sclk = sclk
  reset : s.port.xres = start.port.xres
  device : s.device = d
  made : Adds start sclk levels s.log

/- What the wires have shown from one state to the other: SDATA at every falling edge,
with as many rising ones. -/
def Shown (start s : Bus δ) (levels : List (Option Bool)) : Prop :=
  ∃ made, s.log = start.log ++ made ∧ falls made = levels ∧ rises made = levels.length

def Sending (start : Bus δ) (levels : List (Option Bool)) (d : δ) (s : Bus δ) : Prop :=
  ∃ level, Since start (some level) false levels d s

section Since
variable {start : Bus δ} {drive : Option Bool} {sclk : Bool} {levels : List (Option Bool)} {d : δ}

theorem sinceHere (s : Bus δ) : Since s s.port.driven s.port.sclk [] s.device s :=
  ⟨rfl,rfl,rfl,rfl,[],(List.append_nil _).symm,rfl,by simp [rises],by simp⟩

theorem sinceLow {s : Bus δ} (low : s.port.sclk = false) : Since s s.port.driven false [] s.device s :=
  low ▸ sinceHere s

theorem sinceStart {s : Bus δ} (holds : At drive sclk d s) : Since s drive sclk [] d s := by
  obtain ⟨rfl,rfl,_,rfl,_⟩ := holds
  exact sinceHere s

theorem sinceShown {s : Bus δ} (low : start.port.sclk = false) (since : Since start drive false levels d s) :
    Shown start s levels := by
  obtain ⟨made,log,levels',count,_⟩ := since.made
  rw [low] at count
  exact ⟨made,log,levels',count⟩

theorem sinceAt {s : Bus δ} {drive' : Option Bool} {sclk' : Bool} {d' : δ} (before : At drive' sclk' d' start)
    (since : Since start drive sclk levels d s) : At drive sclk d s := by
  obtain ⟨driven,clock,reset,device,made,log,_,_,orderly⟩ := since
  refine ⟨driven,clock,reset.trans before.reset,device,fun e inside => ?_⟩
  rw [log,List.mem_append] at inside
  exact inside.elim (before.clean e) (orderly e)

/-- What is shown from any point on is shown from this one on. -/
theorem fromHere {α : Type} {prog : Driver δ α} {post : α → Bus δ → Prop}
    (triple : ∀ start, At drive sclk d start → Triple (Since start drive sclk [] d) prog post) :
    Triple (At drive sclk d) prog post :=
  fun s holds => triple s holds s (sinceStart holds)

/- One more event, by what it shows. -/
theorem eventAppend {log : List Event} {e : Event} {sclk' : Bool} {shown : List (Option Bool)}
    (adds : Adds start sclk levels log) (fall : (fallOf e).toList = shown)
    (edge : (risen e).toNat + sclk.toNat = shown.length + sclk'.toNat) (orderly : Disciplined e) :
    Adds start sclk' (levels ++ shown) (log ++ [e]) := by
  obtain ⟨made,rfl,rfl,count,clean⟩ := adds
  refine ⟨made ++ [e],List.append_assoc ..,?_,?_,cleanAppend clean orderly⟩
  · rw [falls,falls,List.filterMap_append,← fall]
    cases shown' : fallOf e <;> simp [shown']
  · rw [rises] at count ⊢
    rw [List.countP_append,List.countP_singleton,List.length_append]
    cases up : risen e <;> simp [up] at edge ⊢ <;> omega

/- One more event that is no falling edge. -/
theorem eventRaised {log : List Event} {e : Event} {sclk' : Bool} (adds : Adds start sclk levels log)
    (still : fallOf e = none) (edge : (risen e).toNat + sclk.toNat = sclk'.toNat) (orderly : Disciplined e) :
    Adds start sclk' levels (log ++ [e]) := by
  have more := eventAppend adds (congrArg Option.toList still) (edge.trans (Nat.zero_add _).symm) orderly
  rwa [Option.toList_none,List.append_nil] at more

/-- A change of SDATA while the clock is low, which stays low. -/
theorem changeSince {W : Wire δ} {change : Port → Port} {drive' : Option Bool} {s : Bus δ}
    (holds : Since start drive false levels d s) (becomes : (change s.port).driven = drive')
    (clock : (change s.port).sclk = s.port.sclk) (reset : (change s.port).xres = s.port.xres) :
    Since start drive' false levels d (write W change s).2 := by
  obtain ⟨_,low,same,rfl,made⟩ := holds
  have stays := clock.trans low
  have still : ¬ (s.port.sclk = true ∧ (change s.port).sclk = false) := by simp [low]
  exact ⟨becomes,stays,reset.trans same,if_neg still,
    eventRaised made (by simp [fallOf,low]) (by simp [risen,stays]) (.inr ⟨low,stays⟩)⟩

section Helpers
variable (W : Wire δ)

theorem hiZSince : Triple (Since start drive false levels d) (sdataHiZ W) (fun _ => Since start none false levels d) :=
  fun _ holds => changeSince holds rfl rfl rfl

theorem ppSince : Triple (Since start drive false levels d) (sdataPP W) (fun _ => Sending start levels d) :=
  fun s holds => ⟨s.port.sdata,changeSince holds rfl rfl rfl⟩

/- The latch is set while the pin is driven. -/
theorem levelSince {level : Bool} {s : Bus δ} (holds : Since start (some level) false levels d s) (bit : Bool) :
    Since start (some bit) false levels d (write W (fun p => {p with sdata := bit}) s).2 := by
  refine changeSince holds ?_ rfl rfl
  have driven : s.port.sdataMode ≠ .input := by
    intro input
    have open' := holds.drive
    rw [drivenInput.mpr input] at open'
    contradiction
  cases mode : s.port.sdataMode with
  | input => exact absurd mode driven
  | pushPull => simp [Port.driven]

theorem highSince : Triple (Since start drive false levels d) (sclkHigh W) (fun _ => Since start drive true levels d) := by
  rintro s ⟨driven,low,reset,rfl,made⟩
  exact ⟨driven,rfl,reset,if_neg (by simp [low]),
    eventRaised made (by simp [fallOf]) (by simp [risen,low]) (.inl ⟨rfl,rfl⟩)⟩

theorem lowSince : Triple (Since start drive true levels d) (sclkLow W)
    (fun _ => Since start drive false (levels ++ [drive]) (W.fall drive d)) := by
  rintro s ⟨rfl,high,reset,rfl,made⟩
  exact ⟨rfl,rfl,reset,if_pos ⟨high,rfl⟩,
    eventAppend made (by simp [fallOf,high,Port.driven]) (by simp [risen]) (.inl ⟨rfl,rfl⟩)⟩

theorem clockSince : Triple (Since start drive false levels d) (clock W)
    (fun _ => Since start drive false (levels ++ [drive]) (W.fall drive d)) :=
  andThen (highSince W) (fun _ => lowSince W)

theorem sendSince (byte : UInt8) : Triple (Sending start levels d)
    (if byte &&& 0x80 ≠ 0 then sdataHigh W else sdataLow W)
    (fun _ => Since start (some (byte &&& 0x80 ≠ 0)) false levels d) := by
  refine existing (fun level => branch (fun one => ?_) (fun zero => ?_))
  · rw [decide_eq_true one]
    exact fun _ holds => levelSince W holds true
  · rw [decide_eq_false zero]
    exact fun _ holds => levelSince W holds false

end Helpers
end Since

section Helpers
variable (W : Wire δ) {drive : Option Bool} {d : δ}

theorem hiZAt : Triple (At drive false d) (sdataHiZ W) (fun _ => At none false d) :=
  fromHere (fun _ before => weakenPost (hiZSince W) (fun _ _ => sinceAt before))

theorem ppAt : Triple (At drive false d) (sdataPP W) (fun _ => Driving d) :=
  fromHere (fun _ before => weakenPost (ppSince W) (fun _ _ ⟨level,since⟩ => ⟨level,sinceAt before since⟩))

theorem clockAt : Triple (At drive false d) (clock W) (fun _ => At drive false (W.fall drive d)) :=
  fromHere (fun _ before => weakenPost (clockSince W) (fun _ _ => sinceAt before))

end Helpers

/- The bits `byteSend` sends, and those of a vector. -/
def topBits (byte : UInt8) : Nat → List Bool
  | 0 => []
  | numBits + 1 => (byte &&& 0x80 ≠ 0) :: topBits (byte <<< 1) numBits

def bitsOf (vect : Bytes) (numBits : Nat) : List Bool :=
  if 8 ≤ numBits then topBits (vect.headD 0x00) 8 ++ bitsOf vect.tail (numBits - 8)
  else topBits (vect.headD 0x00) numBits
termination_by numBits

/- The bits of a number, the highest one first. -/
def binary : Nat → Nat → List Bool
  | 0, _ => []
  | width + 1, n => n.testBit width :: binary width n

theorem binaryLength (width n : Nat) : (binary width n).length = width := by
  induction width with
  | zero => rfl
  | succ width ih => rw [binary,List.length_cons,ih]

theorem byteBinary (byte : UInt8) : topBits byte 8 = binary 8 byte.toNat :=
  Ascii.forallByte (p := fun byte => topBits byte 8 = binary 8 byte.toNat) (by decide +kernel) byte

theorem topBitsLength (byte : UInt8) (numBits : Nat) : (topBits byte numBits).length = numBits := by
  induction numBits generalizing byte with
  | zero => rfl
  | succ numBits ih => rw [topBits,List.length_cons,ih]

theorem topBitsTake (byte : UInt8) {m n : Nat} (few : n ≤ m) : (topBits byte m).take n = topBits byte n := by
  induction n generalizing byte m with
  | zero => rfl
  | succ n ih =>
    cases m with
    | zero => omega
    | succ m => rw [topBits,topBits,List.take_succ_cons,ih _ (by omega)]

/-- A vector is sent from the first bit of its first byte on. -/
theorem bitsOfTake (vect : Bytes) {numBits : Nat} (fits : numBits ≤ 8 * vect.length) :
    bitsOf vect numBits = (vect.flatMap (fun byte => topBits byte 8)).take numBits := by
  induction vect, numBits using bitsOf.induct with
  | case1 vect numBits many ih =>
    cases vect with
    | nil => simp at fits; omega
    | cons byte rest =>
      have whole := topBitsLength byte 8
      have left : numBits - 8 ≤ 8 * rest.length := by
        rw [List.length_cons] at fits
        omega
      have later : bitsOf rest (numBits - 8) = _ := ih left
      have front : (topBits byte 8).take numBits = topBits byte 8 := List.take_of_length_le (by omega)
      rw [bitsOf,if_pos many,List.headD_cons,List.tail_cons,later,List.flatMap_cons,List.take_append,whole,front]
      rfl
  | case2 vect numBits few =>
    rw [bitsOf,if_neg few]
    cases vect with
    | nil =>
      have none : numBits = 0 := by simpa using fits
      rw [none]
      rfl
    | cons byte rest =>
      rw [List.headD_cons,List.flatMap_cons,List.take_append_of_le_length (by rw [topBitsLength]; omega),
        topBitsTake _ (by omega)]

/- The first bits of a list of bytes. -/
def firstBits (vect : Bytes) (numBits : Nat) : List Bool := (vect.flatMap (fun byte => binary 8 byte.toNat)).take numBits

theorem bitsOfFirst (vect : Bytes) {numBits : Nat} (fits : numBits ≤ 8 * vect.length) :
    bitsOf vect numBits = firstBits vect numBits := by
  rw [bitsOfTake vect fits]
  simp only [byteBinary,firstBits]

theorem bytesLength (vect : Bytes) : (vect.flatMap (fun byte => binary 8 byte.toNat)).length = 8 * vect.length := by
  simp only [List.length_flatMap,binaryLength,List.map_const',List.sum_replicate_nat,Nat.mul_comm]

theorem firstBitsLength (vect : Bytes) {numBits : Nat} (fits : numBits ≤ 8 * vect.length) :
    (firstBits vect numBits).length = numBits := by
  rw [firstBits,List.length_take,bytesLength]
  omega

/- The other end sees bits one after the other, each at a falling edge. -/
def seen (W : Wire δ) (d : δ) (bits : List Bool) : δ := bits.foldl (fun d bit => W.fall (some bit) d) d

theorem seenAppend (W : Wire δ) (d : δ) (front back : List Bool) :
    seen W d (front ++ back) = seen W (seen W d front) back := List.foldl_append

section Sending
variable (W : Wire δ) {start : Bus δ} {drive : Option Bool} {levels : List (Option Bool)}

theorem byteSendSince (byte : UInt8) (numBits : Nat) (d : δ) :
    Triple (Sending start levels d) (byteSend W byte numBits)
      (fun _ => Sending start (levels ++ (topBits byte numBits).map some) (seen W d (topBits byte numBits))) := by
  induction numBits generalizing byte levels d with
  | zero => exact done (fun _ holds => (List.append_nil levels).symm ▸ holds)
  | succ numBits ih =>
    rw [topBits,List.map_cons,List.append_cons]
    refine andThen (sendSince W byte) (fun _ => andThen (clockSince W) (fun _ => ?_))
    exact weaken (ih (byte <<< 1) _) (fun _ holds => ⟨_,holds⟩) (fun _ _ holds => holds)

/- The pin stays at the last bit. -/
theorem byteSendLast (byte : UInt8) (numBits : Nat) (d : δ) :
    Triple (Sending start levels d) (byteSend W byte (numBits + 1))
      (fun _ => Since start (topBits byte (numBits + 1)).getLast? false
        (levels ++ (topBits byte (numBits + 1)).map some) (seen W d (topBits byte (numBits + 1)))) := by
  induction numBits generalizing byte levels d with
  | zero => exact following (sendSince W byte) (following (clockSince W) (done (fun _ holds => holds)))
  | succ numBits ih =>
    have last : (topBits byte (numBits + 1 + 1)).getLast? = (topBits (byte <<< 1) (numBits + 1)).getLast? :=
      List.getLast?_cons_cons
    have all : topBits byte (numBits + 1 + 1) = decide (byte &&& 0x80 ≠ 0) :: topBits (byte <<< 1) (numBits + 1) := rfl
    rw [last,all,List.map_cons,List.append_cons]
    refine andThen (sendSince W byte) (fun _ => andThen (clockSince W) (fun _ => ?_))
    exact weaken (ih (byte <<< 1) _) (fun _ holds => ⟨_,holds⟩) (fun _ _ holds => holds)

theorem vectorBitsSince (vect : Bytes) (numBits : Nat) (d : δ) :
    Triple (Sending start levels d) (vectorBits W vect numBits)
      (fun _ => Sending start (levels ++ (bitsOf vect numBits).map some) (seen W d (bitsOf vect numBits))) := by
  induction vect, numBits using bitsOf.induct generalizing levels d with
  | case1 vect numBits many ih =>
    rw [vectorBits,bitsOf,if_pos many,if_pos many,seenAppend,List.map_append,← List.append_assoc]
    exact andThen (byteSendSince W _ 8 d) (fun _ => ih _)
  | case2 vect numBits few =>
    rw [vectorBits,bitsOf,if_neg few,if_neg few]
    by_cases some : 0 < numBits
    · rw [if_pos some]
      exact byteSendSince W _ numBits d
    · have none : numBits = 0 := by omega
      rw [if_neg some,none]
      exact done (fun _ holds => (List.append_nil levels).symm ▸ holds)

theorem vectorSendSince (vect : Bytes) (numBits : Nat) (d : δ) :
    Triple (Since start drive false levels d) (vectorSend W vect numBits)
      (fun _ => Since start none false (levels ++ (bitsOf vect numBits).map some) (seen W d (bitsOf vect numBits))) :=
  andThen (ppSince W) (fun _ => andThen (vectorBitsSince W vect numBits d) (fun _ => existing (fun _ => hiZSince W)))

/- The same from any point on, where it does not matter what has been seen before. -/
theorem sendingAt {α : Type} {prog : Driver δ α} {d d' : δ} {levels : List (Option Bool)}
    (triple : ∀ start, Triple (Sending start [] d) prog (fun _ => Sending start levels d')) :
    Triple (Driving d) prog (fun _ => Driving d') :=
  fun s ⟨level,holds⟩ =>
    have ⟨after,since⟩ := triple s s ⟨level,sinceStart holds⟩
    ⟨after,sinceAt holds since⟩

theorem byteSendAt (byte : UInt8) (numBits : Nat) (d : δ) :
    Triple (Driving d) (byteSend W byte numBits) (fun _ => Driving (seen W d (topBits byte numBits))) :=
  sendingAt (fun _ => byteSendSince W byte numBits d)

theorem vectorSendAt (vect : Bytes) (numBits : Nat) (d : δ) :
    Triple (At drive false d) (vectorSend W vect numBits) (fun _ => At none false (seen W d (bitsOf vect numBits))) :=
  fromHere (fun _ before => weakenPost (vectorSendSince W vect numBits d) (fun _ _ => sinceAt before))

end Sending

section Receiving
variable (W : Wire δ) {start : Bus δ} {levels : List (Option Bool)}

theorem readSince {sclk : Bool} (d : δ) : Triple (Since start none sclk levels d) (readSdata W)
    (fun bit s => bit = (W.sense d).1 ∧ Since start none sclk levels (W.sense d).2 s) := by
  rintro s ⟨open',clock,reset,rfl,made⟩
  have level : (readSdata W s).1 = s.port.driven.getD (W.sense s.device).1 := rfl
  rw [open'] at level
  exact ⟨level,open',clock,reset,rfl,eventRaised made rfl (by simp [risen]) (drivenInput.mp open')⟩

/- The samples of one loop, of the two loops, of one bit and of the bits of a byte, as
the other end gives them. -/
def polled (W : Wire δ) (level : Bool) : Nat → δ → Bool × δ
  | 0, d => ((W.sense d).1 ≠ level,(W.sense d).2)
  | timer + 1, d => if (W.sense d).1 = level then (false,(W.sense d).2) else polled W level timer (W.sense d).2

def detected (W : Wire δ) (d : δ) : Bool × δ :=
  let high := polled W true TRANSITION_TIMEOUT.toNat d
  if high.1 then high else polled W false TRANSITION_TIMEOUT.toNat high.2

def sampled (W : Wire δ) (sclk : Bool) (d : δ) : Bool × δ := W.sense (if sclk then W.fall none d else d)

def received (W : Wire δ) : Nat → Bool → UInt8 → δ → UInt8 × δ
  | 0, _, currByte, d => (currByte,d)
  | b + 1, sclk, currByte, d =>
    let bit := sampled W sclk d
    received W b true ((currByte <<< 1) + if bit.1 then 0x01 else 0x00) bit.2

/- The samples themselves. -/
def heard (W : Wire δ) : Nat → Bool → δ → List Bool
  | 0, _, _ => []
  | b + 1, sclk, d => (sampled W sclk d).1 :: heard W b true (sampled W sclk d).2

theorem waitLevelSince {sclk : Bool} (level : Bool) (timer : UInt32) (d : δ) :
    Triple (Since start none sclk levels d) (waitLevel W level timer)
      (fun failed s => failed = (polled W level timer.toNat d).1 ∧
        Since start none sclk levels (polled W level timer.toNat d).2 s) := by
  induction timer using waitLevel.induct generalizing d with
  | case1 timer ih =>
    rw [waitLevel]
    refine andThen (readSince W d) (fun bit => supposing (fun is => branch (fun now => ?_) (fun other => ?_)))
    · rw [is] at now
      have stops : polled W level timer.toNat d = (false,(W.sense d).2) := by
        cases timer.toNat <;> simp [polled,now]
      rw [stops]
      exact done (fun _ holds => ⟨rfl,holds⟩)
    · rw [is] at other
      refine branch (fun last => ?_) (fun running => ?_)
      · have stops : polled W level timer.toNat d = (true,(W.sense d).2) := by simp [last,polled,other]
        rw [stops]
        exact done (fun _ holds => ⟨rfl,holds⟩)
      · have left : timer.toNat = (timer - 1).toNat + 1 := by
          have positive : timer.toNat ≠ 0 := fun zero => running (UInt32.toNat.inj zero)
          rw [timerLess running]
          omega
        rw [left,polled,if_neg other]
        exact ih running _

theorem detectSince {sclk : Bool} (d : δ) : Triple (Since start none sclk levels d) (transitionHiLoDetect W)
    (fun failed s => failed = (detected W d).1 ∧ Since start none sclk levels (detected W d).2 s) := by
  refine andThen (waitLevelSince W true _ d)
    (fun failed => supposing (fun is => branch (fun gone => ?_) (fun fine => ?_)))
  · have high : (polled W true TRANSITION_TIMEOUT.toNat d).1 = true := is.symm.trans gone
    rw [detected,if_pos high]
    exact done (fun _ holds => ⟨high.symm,holds⟩)
  · have high : ¬ (polled W true TRANSITION_TIMEOUT.toNat d).1 = true := by rwa [← is]
    rw [detected,if_neg high]
    exact waitLevelSince W false _ _

/- The clock may be high when the first bit is received, and is so ever after. -/
theorem fallSince {sclk : Bool} (d : δ) : Triple (Since start none sclk levels d) (sclkLow W)
    (fun _ => Since start none false (levels ++ if sclk then [none] else []) (if sclk then W.fall none d else d)) := by
  cases sclk with
  | true => exact lowSince W
  | false =>
    intro s holds
    rw [if_neg (by simp),List.append_nil]
    refine changeSince holds ?_ holds.clock.symm rfl
    rw [← holds.drive]
    rfl

theorem bitReceiveSince {sclk : Bool} (d : δ) : Triple (Since start none sclk levels d) (bitReceive W)
    (fun bit s => bit = (if (sampled W sclk d).1 then 0x01 else 0x00) ∧
      Since start none true (levels ++ if sclk then [none] else []) (sampled W sclk d).2 s) := by
  refine andThen (fallSince W d)
    (fun _ => andThen (highSince W) (fun _ => andThen (readSince W _) (fun bit => supposing ?_)))
  rintro rfl
  refine branch (fun one => done (fun _ holds => ⟨?_,holds⟩)) (fun zero => done (fun _ holds => ⟨?_,holds⟩))
  · rw [sampled,if_pos one]
  · rw [sampled,if_neg zero]

/- The first bit needs no falling edge when the clock is low. -/
theorem receiveBitsSince {sclk : Bool} (b : Nat) (currByte : UInt8) (d : δ) :
    Triple (Since start none sclk levels d) (receiveBits W b currByte)
      (fun byte s => byte = (received W b sclk currByte d).1 ∧
        Since start none (sclk || b ≠ 0) (levels ++ List.replicate (if sclk then b else b - 1) none)
          (received W b sclk currByte d).2 s) := by
  induction b generalizing sclk levels currByte d with
  | zero => exact done (fun _ holds => ⟨rfl,by simpa [received] using holds⟩)
  | succ b ih =>
    refine andThen (bitReceiveSince W d) (fun bit => supposing ?_)
    rintro rfl
    refine weakenPost (ih _ _) (fun byte s holds => ⟨holds.1,?_⟩)
    have high : (sclk || decide (b + 1 ≠ 0)) = true := by simp
    have edges : (levels ++ if sclk then [none] else []) ++ List.replicate b none =
        levels ++ List.replicate (if sclk then b + 1 else b + 1 - 1) none := by
      cases sclk <;> simp [List.replicate_succ]
    rw [high,← edges]
    exact holds.2

theorem byteReceiveSince (d : δ) : Triple (Since start none false levels d) (byteReceive W)
    (fun byte s => byte = (received W 8 false 0x00 d).1 ∧
      Since start none true (levels ++ List.replicate 7 none) (received W 8 false 0x00 d).2 s) :=
  receiveBitsSince W 8 0x00 d

/- The clock that ends a byte only lowers SCLK. -/
theorem lastClockSince (d : δ) : Triple (Since start none true levels d) (clock W)
    (fun _ => Since start none false (levels ++ [none]) (W.fall none d)) := by
  have stays : Triple (Since start none true levels d) (sclkHigh W) (fun _ => Since start none true levels d) := by
    rintro s ⟨drive,high,reset,rfl,made⟩
    exact ⟨drive,rfl,reset,if_neg (by simp),
      eventRaised made (by simp [fallOf]) (by simp [risen,high]) (.inl ⟨rfl,rfl⟩)⟩
  exact andThen stays (fun _ => lowSince W)

/- A vector, the start clock, the handshake and, when it has succeeded, the zeros after
it; true where the operation is given up. -/
def shake (W : Wire δ) (vect : Bytes) (numBits : Nat) : Driver δ Bool := do
  vectorSend W vect numBits
  clock W
  if ← transitionHiLoDetect W then return true
  else
    vectorSend W wait_and_poll_end num_bits_wait_and_poll_end
    return false

theorem shakeRun {α : Type} (vect : Bytes) (numBits : Nat) (failed : α) (next : Driver δ α) :
    (do
      vectorSend W vect numBits
      clock W
      if ← transitionHiLoDetect W then return failed
      else
        vectorSend W wait_and_poll_end num_bits_wait_and_poll_end
        next) = (do if ← shake W vect numBits then return failed else next) := by
  simp only [shake,bind_assoc,branchBind,pure_bind,if_true,Bool.false_eq_true,if_false]

theorem shakeSince (vect : Bytes) (numBits : Nat) {drive : Option Bool} (d : δ) :
    Triple (Since start drive false levels d) (shake W vect numBits) (fun failed s => ∃ d',
      Since start none false (levels ++ ((bitsOf vect numBits).map some ++ none ::
        if failed then [] else (bitsOf wait_and_poll_end num_bits_wait_and_poll_end).map some)) d' s) := by
  refine following (vectorSendSince W vect numBits d) (following (clockSince W) (andThen (detectSince W _) ?_))
  refine fun failed => supposing (fun _ => branch (fun gone => done (fun s holds => ⟨s.device,?_⟩)) (fun fine => ?_))
  · rw [if_pos rfl,← List.append_assoc,holds.device]
    exact holds
  · refine following (vectorSendSince W _ _ _) (done (fun s holds => ⟨s.device,?_⟩))
    rw [if_neg (by simp),List.append_cons,← List.append_assoc,← List.append_assoc,holds.device]
    exact holds

/- The same from any point on. -/
theorem resultAt {α : Type} {prog : Driver δ α} {sclk sclk' : Bool} {d d' : δ} {a : α}
    {levels : List (Option Bool)}
    (triple : ∀ start, Triple (Since start none sclk [] d) prog
      (fun b s => b = a ∧ Since start none sclk' levels d' s)) :
    Triple (At none sclk d) prog (fun b s => b = a ∧ At none sclk' d' s) :=
  fromHere (fun start before => weakenPost (triple start) (fun _ _ holds => ⟨holds.1,sinceAt before holds.2⟩))

theorem readAt {sclk : Bool} (d : δ) : Triple (At none sclk d) (readSdata W)
    (fun bit s => bit = (W.sense d).1 ∧ At none sclk (W.sense d).2 s) :=
  resultAt (fun _ => readSince W d)

theorem detectAt (d : δ) : Triple (At none false d) (transitionHiLoDetect W)
    (fun failed s => failed = (detected W d).1 ∧ At none false (detected W d).2 s) :=
  resultAt (fun _ => detectSince W d)

theorem fallAt {sclk : Bool} (d : δ) : Triple (At none sclk d) (sclkLow W)
    (fun _ => At none false (if sclk then W.fall none d else d)) :=
  fromHere (fun _ before => weakenPost (fallSince W d) (fun _ _ => sinceAt before))

theorem byteReceiveAt (d : δ) : Triple (At none false d) (byteReceive W)
    (fun byte s => byte = (received W 8 false 0x00 d).1 ∧ At none true (received W 8 false 0x00 d).2 s) :=
  resultAt (fun _ => byteReceiveSince W d)

theorem lastClockAt (d : δ) : Triple (At none true d) (clock W) (fun _ => At none false (W.fall none d)) :=
  fromHere (fun _ before => weakenPost (lastClockSince W d) (fun _ _ => sinceAt before))

end Receiving
end HsspProgrammer.Clocking
