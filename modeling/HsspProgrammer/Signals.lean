import HsspProgrammer.Verification

/-! The dialogue on the wires in one sequence: what SDATA is at the falling edges of the
clock, and the samples that the other end gives between them. -/
namespace HsspProgrammer.Signals
open Ascii (Bytes)
open Pins Issp Triples Clocking
open ChipOperations (shifted receivedHeard)
open Verification (question readLevels asked afterRead heardLength shiftedBits)
open WriteRecords (writeRecord writeRecords addressBinary)

inductive Signal where
  | fell (level : Option Bool)
  | gave (level : Bool)
  deriving DecidableEq, Repr

variable {δ : Type}

/- What a dialogue makes of the other end, which gives every sample in it. -/
inductive Follows (W : Wire δ) : δ → List Signal → δ → Prop where
  | nil (d) : Follows W d [] d
  | fell {d level rest e} (later : Follows W (W.fall level d) rest e) : Follows W d (.fell level :: rest) e
  | gave {d rest e} (later : Follows W (W.sense d).2 rest e) : Follows W d (.gave (W.sense d).1 :: rest) e

theorem followsAppend {W : Wire δ} {d e f : δ} {front back : List Signal} (first : Follows W d front e)
    (second : Follows W e back f) : Follows W d (front ++ back) f := by
  induction first with
  | nil => exact second
  | fell _ ih => exact .fell (ih second)
  | gave _ ih => exact .gave (ih second)

/- The falling edges in a dialogue. -/
def edges (signals : List Signal) : List (Option Bool) := signals.filterMap (fun signal => match signal with
  | .fell level => some level
  | .gave _ => none)

theorem edgesAppend (front back : List Signal) : edges (front ++ back) = edges front ++ edges back := List.filterMap_append

def sent (bits : List Bool) : List Signal := bits.map (fun bit => .fell (some bit))

theorem edgesSent (bits : List Bool) : edges (sent bits) = bits.map some := by
  rw [edges,sent,List.filterMap_map,← List.filterMap_eq_map]
  rfl

theorem sentAppend (front back : List Bool) : sent (front ++ back) = sent front ++ sent back := List.map_append

theorem followsSent (W : Wire δ) (d : δ) (bits : List Bool) : Follows W d (sent bits) (seen W d bits) := by
  induction bits generalizing d with
  | nil => exact .nil d
  | cons bit rest ih => exact .fell (ih _)

/- What the two loops of the handshake hear: at most `timer` samples of the other level
and then one that is right, or one more of the other level. -/
inductive Awaited (level : Bool) (timer : Nat) : Bool → List Bool → Prop where
  | comes {n} (soon : n ≤ timer) : Awaited level timer false (List.replicate n (!level) ++ [level])
  | missing : Awaited level timer true (List.replicate (timer + 1) (!level))

inductive Shaken : Bool → List Bool → Prop where
  | silent {first} (high : Awaited true TRANSITION_TIMEOUT.toNat true first) : Shaken true first
  | raised {first second failed} (high : Awaited true TRANSITION_TIMEOUT.toNat false first)
      (low : Awaited false TRANSITION_TIMEOUT.toNat failed second) : Shaken failed (first ++ second)

theorem edgesGave (samples : List Bool) : edges (samples.map .gave) = [] := by
  rw [edges,List.filterMap_map]
  exact List.filterMap_eq_nil_iff.mpr (fun _ _ => rfl)

theorem awaitedNext {level failed : Bool} {timer : Nat} {samples : List Bool} (later : Awaited level timer failed samples) :
    Awaited level (timer + 1) failed ((!level) :: samples) := by
  cases later with
  | comes soon => exact .comes (n := _ + 1) (Nat.succ_le_succ soon)
  | missing => exact .missing

theorem polledFollows (W : Wire δ) (level : Bool) (timer : Nat) (d : δ) : ∃ samples,
    Awaited level timer (polled W level timer d).1 samples ∧
    Follows W d (samples.map .gave) (polled W level timer d).2 := by
  have one : Follows W d ([(W.sense d).1].map .gave) (W.sense d).2 := .gave (.nil _)
  by_cases now : (W.sense d).1 = level
  · have stops : polled W level timer d = (false,(W.sense d).2) := by cases timer <;> simp [polled,now]
    rw [now] at one
    rw [stops]
    exact ⟨_,.comes (Nat.zero_le _),one⟩
  · have other : (!level) = (W.sense d).1 := (Bool.eq_not.mpr now).symm
    cases timer with
    | zero =>
      have stops : polled W level 0 d = (true,(W.sense d).2) := by simp [polled,now]
      rw [← other] at one
      rw [stops]
      exact ⟨_,.missing,one⟩
    | succ timer =>
      obtain ⟨samples,awaited,follows⟩ := polledFollows W level timer (W.sense d).2
      rw [polled,if_neg now]
      refine ⟨_,awaitedNext awaited,?_⟩
      rw [List.map_cons,other]
      exact .gave follows

theorem detectedFollows (W : Wire δ) (d : δ) : ∃ samples, Shaken (detected W d).1 samples ∧
    Follows W d (samples.map .gave) (detected W d).2 := by
  obtain ⟨first,high,follows⟩ := polledFollows W true TRANSITION_TIMEOUT.toNat d
  by_cases gone : (polled W true TRANSITION_TIMEOUT.toNat d).1 = true
  · rw [detected,if_pos gone]
    rw [gone] at high
    refine ⟨first,?_,follows⟩
    rw [gone]
    exact .silent high
  · obtain ⟨second,low,follows'⟩ :=
      polledFollows W false TRANSITION_TIMEOUT.toNat (polled W true TRANSITION_TIMEOUT.toNat d).2
    rw [Bool.eq_false_iff.mpr gone] at high
    rw [detected,if_neg gone]
    refine ⟨first ++ second,.raised high low,?_⟩
    rw [List.map_append]
    exact followsAppend follows follows'

/- A byte that is read, with the clock that follows it. -/
def answered (byte : UInt8) : List Signal := (binary 8 byte.toNat).flatMap (fun bit => [.gave bit,.fell none])

theorem receivedFollows (W : Wire δ) (b : Nat) (currByte : UInt8) (d : δ) :
    Follows W d ((heard W b true d).flatMap (fun bit => [.fell none,.gave bit])) (received W b true currByte d).2 := by
  induction b generalizing currByte d with
  | zero => exact .nil d
  | succ b ih => exact .fell (.gave (ih _ _))

theorem shiftedClock (bits : List Bool) : bits.flatMap (fun bit => [Signal.fell none,.gave bit]) ++ [.fell none] =
    .fell none :: bits.flatMap (fun bit => [.gave bit,.fell none]) := by
  induction bits with
  | nil => rfl
  | cons bit rest ih => rw [List.flatMap_cons,List.flatMap_cons,List.append_assoc,ih]; rfl

theorem answeredFollows (W : Wire δ) (d : δ) :
    Follows W d (answered (received W 8 false 0x00 d).1) (W.fall none (received W 8 false 0x00 d).2) := by
  have bits : binary 8 (received W 8 false 0x00 d).1.toNat = heard W 8 false d := by
    rw [receivedHeard,← byteBinary,shiftedBits (heardLength W 8 false d)]
  have rest := receivedFollows W 7 (((0x00 : UInt8) <<< 1) + if (W.sense d).1 then 0x01 else 0x00) (W.sense d).2
  have clock : Follows W (received W 8 false 0x00 d).2 [.fell none] (W.fall none (received W 8 false 0x00 d).2) := .fell (.nil _)
  have last := followsAppend rest clock
  rw [shiftedClock] at last
  rw [answered,bits]
  exact .gave last

theorem edgesAnswered (byte : UInt8) : edges (answered byte) = List.replicate 8 none := rfl

/- One turn of the read loops. -/
def read (address : Nat) (byte : UInt8) : List Signal := sent (question address) ++ answered byte ++ sent [true]

theorem edgesRead (address : Nat) (byte : UInt8) : edges (read address byte) = readLevels address := by
  rw [read,edgesAppend,edgesAppend,edgesSent,edgesAnswered,edgesSent,readLevels]
  rfl

/- The bus since `start`, and the dialogue since then. -/
structure Told (W : Wire δ) (start : Bus δ) (drive : Option Bool) (sclk : Bool) (told : List Signal) (s : Bus δ) : Prop where
  since : Since start drive sclk (edges told) s.device s
  follows : Follows W start.device told s.device

def Low (W : Wire δ) (start : Bus δ) (told : List Signal) (s : Bus δ) : Prop := ∃ drive, Told W start drive false told s
def Open (W : Wire δ) (start : Bus δ) (told : List Signal) (s : Bus δ) : Prop := Told W start none false told s
def Driven (W : Wire δ) (start : Bus δ) (told : List Signal) (s : Bus δ) : Prop :=
  ∃ level, Told W start (some level) false told s

section Telling
variable {W : Wire δ} {start : Bus δ} {told : List Signal}

theorem openLow {s : Bus δ} (holds : Open W start told s) : Low W start told s := ⟨none,holds⟩

theorem drivenLow {s : Bus δ} (holds : Driven W start told s) : Low W start told s := holds.elim fun _ holds => ⟨_,holds⟩

theorem toldMore {drive drive' : Option Bool} {sclk sclk' : Bool} {more : List Signal} {d : δ} {s s' : Bus δ}
    (holds : Told W start drive sclk told s) (since : Since start drive' sclk' (edges told ++ edges more) d s')
    (follows : Follows W s.device more d) : Told W start drive' sclk' (told ++ more) s' := by
  obtain rfl := since.device
  exact ⟨by rw [edgesAppend]; exact since,followsAppend holds.follows follows⟩

theorem ppTold : Triple (Low W start told) (sdataPP W) (fun _ => Driven W start told) := by
  rintro s ⟨drive,holds⟩
  obtain ⟨level,since⟩ := ppSince W s holds.since
  obtain same := since.device
  exact ⟨level,by rw [same]; exact since,by rw [same]; exact holds.follows⟩

theorem hiZTold : Triple (Low W start told) (sdataHiZ W) (fun _ => Open W start told) := by
  rintro s ⟨drive,holds⟩
  have since := hiZSince W s holds.since
  have same := since.device
  exact ⟨by rw [same]; exact since,by rw [same]; exact holds.follows⟩

theorem clockTold : Triple (Open W start told) (clock W) (fun _ => Open W start (told ++ [.fell none])) := by
  intro s holds
  exact toldMore holds (clockSince W s holds.since) (.fell (.nil _))

theorem vectorTold {vect : Bytes} {numBits : Nat} (fits : numBits ≤ 8 * vect.length) :
    Triple (Low W start told) (vectorSend W vect numBits) (fun _ => Open W start (told ++ sent (firstBits vect numBits))) := by
  rintro s ⟨drive,holds⟩
  have since := vectorSendSince W vect numBits s.device s holds.since
  rw [bitsOfFirst vect fits] at since
  exact toldMore holds (by rw [edgesSent]; exact since) (followsSent W _ _)

theorem byteTold (byte : UInt8) (numBits : Nat) :
    Triple (Driven W start told) (byteSend W byte numBits) (fun _ => Driven W start (told ++ sent (topBits byte numBits))) := by
  rintro s ⟨level,holds⟩
  obtain ⟨level',since⟩ := byteSendSince W byte numBits s.device s ⟨level,holds.since⟩
  exact ⟨level',toldMore holds (by rw [edgesSent]; exact since) (followsSent W _ _)⟩

theorem detectTold : Triple (Open W start told) (transitionHiLoDetect W)
    (fun failed s => ∃ samples, Shaken failed samples ∧ Open W start (told ++ samples.map .gave) s) := by
  intro s holds
  obtain ⟨is,since⟩ := detectSince W s.device s holds.since
  obtain ⟨samples,shaken,follows⟩ := detectedFollows W s.device
  rw [← is] at shaken
  exact ⟨samples,shaken,toldMore holds (by rw [edgesGave,List.append_nil]; exact since) follows⟩

theorem receiveTold {α : Type} {next : UInt8 → Driver δ α} {post : α → Bus δ → Prop}
    (later : ∀ byte, Triple (Open W start (told ++ answered byte)) (next byte) post) :
    Triple (Open W start told) (byteReceive W >>= fun byte => clock W >>= fun _ => next byte) post := by
  intro s holds
  obtain ⟨is,since⟩ := byteReceiveSince W s.device s holds.since
  have after := lastClockSince W _ _ since
  rw [bindRun,bindRun]
  refine later _ _ ?_
  rw [is]
  have eight : List.replicate 8 (none : Option Bool) = List.replicate 7 none ++ [none] := rfl
  exact toldMore holds (by rw [edgesAnswered,eight,← List.append_assoc]; exact after) (answeredFollows W _)

theorem readTold {i : Nat} (inside : i < 64) : Triple (Open W start told) (readByte W (UInt8.ofNat (4 * i)))
    (fun byte => Open W start (told ++ read i byte)) := by
  intro s holds
  obtain ⟨is,since⟩ := Verification.readByteSince W inside s.device s holds.since
  rw [is]
  refine toldMore holds (by rw [edgesRead]; exact since) ?_
  exact followsAppend (followsAppend (followsSent W _ _) (answeredFollows W _)) (followsSent W _ [true])

theorem writeTold {i : Nat} (inside : i < 64) (temp : UInt8) :
    Triple (Driven W start told) (writeByte W (UInt8.ofNat (4 * i)) temp)
      (fun _ => Driven W start (told ++ sent (writeRecord i temp))) := by
  have begins : topBits write_byte_start num_bits_write_byte_start = TargetChip.writeStart := by decide
  have ends : topBits write_byte_end num_bits_write_byte_end = TargetChip.frameEnd := by decide
  refine following (byteTold _ _) (following (byteTold _ _) (following (byteTold _ _) ?_))
  rw [begins,addressBinary inside,show num_bits_data_length = 8 from rfl,byteBinary]
  refine weakenPost (byteTold _ _) (fun _ s holds => ?_)
  rw [ends] at holds
  simpa only [writeRecord,sentAppend,List.append_assoc] using holds

/- All the records of a buffer, from its place `i` on. -/
theorem loadTold {data : Bytes} {i : Nat} (fits : i + data.length ≤ 64) (checksum : UInt16) :
    Triple (Driven W start told) (loadBytes W data (UInt8.ofNat (4 * i)) checksum)
      (fun _ => Driven W start (told ++ sent (data.mapIdx (fun j => writeRecord (i + j))).flatten)) := by
  induction data generalizing i told checksum with
  | nil => exact done (fun _ holds => by simpa [sent] using holds)
  | cons temp rest ih =>
    rw [List.length_cons] at fits
    have later : (rest.mapIdx fun j => writeRecord (i + (j + 1))) = rest.mapIdx fun j => writeRecord (i + 1 + j) := by
      simp only [Nat.add_assoc,Nat.add_comm 1]
    refine following (writeTold (by omega) temp) ?_
    rw [addressNext,List.mapIdx_cons,List.flatten_cons,sentAppend,← List.append_assoc,later]
    exact ih (by omega) _

theorem recordsTold {data : Bytes} (fits : data.length ≤ 64) (checksum : UInt16) :
    Triple (Low W start told) (sdataPP W >>= fun _ => loadBytes W data 0x00 checksum)
      (fun _ => Driven W start (told ++ sent (writeRecords data).flatten)) := by
  have whole : Triple (Driven W start told) (loadBytes W data (UInt8.ofNat (4 * 0)) checksum) _ :=
    loadTold (by omega) checksum
  simp only [Nat.zero_add] at whole
  exact following ppTold whole

end Telling
end HsspProgrammer.Signals
