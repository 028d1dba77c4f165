import HsspProgrammer.BusDiscipline
import HsspProgrammer.Signals
import HsspProgrammer.Tracing

/-! How each operation is spelled on the wires, with the result that its samples give it,
and that the whole dialogue with the target is the operations in the log, spelled one
after the other. -/
namespace HsspProgrammer.Spelling
open Ascii (Bytes)
open MainLoop (opsOf)
open CommandLoop (Op SECURITY_BYTES_PER_BANK TARGET_DATABUFF_LEN)
open Pins Issp Triples Clocking
open Performing
open Signals
open Tracing (reachedTraced)
open WriteRecords (writeRecords)

/- A vector, the start clock, the handshake and, when it has succeeded, the zeros. -/
def Shook (vector : List Bool) (failed : Bool) (signals : List Signal) : Prop :=
  ∃ samples, Shaken failed samples ∧ signals = sent vector ++ [.fell none] ++ samples.map .gave ++
    if failed then [] else sent (firstBits wait_and_poll_end num_bits_wait_and_poll_end)

/- The selection of a block. -/
def selected (blockNumber : Nat) : List Signal :=
  sent (firstBits set_block_number num_bits_set_block_number) ++ sent (binary 8 blockNumber) ++ sent TargetChip.frameEnd

/- Two bytes that are read between three vectors, for the ID and for the checksum. -/
def twoBytes (bits bits' bits'' : List Bool) (first second : UInt8) : List Signal :=
  sent bits ++ [.fell none] ++ [.fell none] ++ answered first ++ sent bits' ++ [.fell none] ++ [.fell none] ++
  answered second ++ sent bits''

/- Reads from address `i` on, up to the first byte that differs. -/
inductive Compared : Nat → Bytes → Bool → List Signal → Prop where
  | done (i) : Compared i [] false []
  | same {i expected rest failed signals} (later : Compared (i + 1) rest failed signals) :
      Compared i (expected :: rest) failed (read i expected ++ signals)
  | differs {i expected rest got} (other : got ≠ expected) : Compared i (expected :: rest) true (read i got)

inductive Spells : Op → List Signal → Prop where
  | initializeLost {s} (first : Shook (firstBits init1_v num_bits_init1) true s) : Spells (.targetInitialize true) s
  | initializeHalf {s t} (first : Shook (firstBits init1_v num_bits_init1) false s)
      (second : Shook (firstBits init2_v num_bits_init2) true t) : Spells (.targetInitialize true) (s ++ t)
  | initialized {s t} (first : Shook (firstBits init1_v num_bits_init1) false s)
      (second : Shook (firstBits init2_v num_bits_init2) false t) :
      Spells (.targetInitialize false) (s ++ t ++ sent (firstBits init3_3v num_bits_init3_3v) ++ [.fell none] ++
        sent (firstBits wait_and_poll_end num_bits_wait_and_poll_end))
  | siliconLost {s} (setup : Shook (firstBits id_setup_v num_bits_id_setup) true s) : Spells (.targetSiliconIDVerify true) s
  | silicon {s failed first second} (setup : Shook (firstBits id_setup_v num_bits_id_setup) false s)
      (right : failed = false ↔ [first,second] = target_id_v) :
      Spells (.targetSiliconIDVerify failed) (s ++ twoBytes (firstBits read_id_v 11) (firstBits (read_id_v.drop 2) 12)
        (firstBits (read_id_v.drop 4) 1) first second)
  | erase {s failed} (vector : Shook (firstBits erase_all_v num_bits_erase_all) failed s) : Spells (.targetErase failed) s
  | load (data) : Spells (.targetLoad data) (sent (writeRecords data).flatten)
  | program {s failed} (k data) (vector : Shook (firstBits program_block num_bits_program_block) failed s) :
      Spells (.targetBlockProgram k data failed) (selected k ++ s)
  | verifyLost {s} (k data) (setup : Shook (firstBits verify_setup_v num_bits_verify_setup) true s) :
      Spells (.targetBlockVerify k data true) (selected k ++ s)
  | verify {s t data failed} (k) (setup : Shook (firstBits verify_setup_v num_bits_verify_setup) false s)
      (compared : Compared 0 data failed t) : Spells (.targetBlockVerify k data failed) (selected k ++ s ++ t)
  | securityFlash {s failed} (data) (vector : Shook (firstBits security_v num_bits_security) failed s) :
      Spells (.targetSecurityFlash data failed) (sent (writeRecords data).flatten ++ s)
  | securityLost {s} (data) (setup : Shook (firstBits securityVerification_v num_bits_securityVerification) true s) :
      Spells (.targetSecurityVerify data true) s
  | securityVerify {s t data failed} (setup : Shook (firstBits securityVerification_v num_bits_securityVerification) false s)
      (compared : Compared 0 data failed t) : Spells (.targetSecurityVerify data failed) (s ++ t)
  | checksumLost {s} (vector : Shook (firstBits checksum_v num_bits_checksum) true s) : Spells (.targetBankChecksumGet none) s
  | checksum {s} {high low : UInt8} (vector : Shook (firstBits checksum_v num_bits_checksum) false s) :
      Spells (.targetBankChecksumGet (some ((high.toUInt16 <<< 8) + low.toUInt16))) (s ++
        twoBytes (firstBits read_checksum_v 11) (firstBits (read_checksum_v.drop 2) 12)
          (firstBits (read_checksum_v.drop 3) 1) high low)
  | reStart : Spells .targetReStart []

theorem blockBinary (k : Nat) : topBits (UInt8.ofNat k) 8 = binary 8 k := by
  have low (i : Nat) (inside : i < 8) : (UInt8.ofNat k).toNat.testBit i = k.testBit i := by
    rw [UInt8.toNat_ofNat',Nat.testBit_mod_two_pow,decide_eq_true inside,Bool.true_and]
  rw [byteBinary]
  simp only [binary,low 7 (by decide),low 6 (by decide),low 5 (by decide),low 4 (by decide),low 3 (by decide),
    low 2 (by decide),low 1 (by decide),low 0 (by decide)]

/- What SDATA is at the falling edges of the operations that succeed. -/
def zeros : List (Option Bool) := (firstBits wait_and_poll_end num_bits_wait_and_poll_end).map some

section Operations
variable {δ : Type} {W : Wire δ} {start : Bus δ} {told : List Signal}

theorem shakeTold {vect : Bytes} {numBits : Nat} (fits : numBits ≤ 8 * vect.length) {α : Type} {failed : α}
    {next : Driver δ α} {post : α → Bus δ → Prop}
    (gone : ∀ signals, Shook (firstBits vect numBits) true signals → ∀ s, Open W start (told ++ signals) s → post failed s)
    (later : ∀ signals, Shook (firstBits vect numBits) false signals → Triple (Open W start (told ++ signals)) next post) :
    Triple (Low W start told) (do
      vectorSend W vect numBits
      clock W
      if ← transitionHiLoDetect W then return failed
      else
        vectorSend W wait_and_poll_end num_bits_wait_and_poll_end
        next) post := by
  refine following (vectorTold fits) (following clockTold (andThen detectTold (fun gives => existing (fun samples => ?_))))
  refine supposing (fun shaken => branch (fun lost => done (fun s holds => ?_)) (fun fine => ?_))
  · rw [lost] at shaken
    refine gone _ ⟨samples,shaken,rfl⟩ s ?_
    simpa only [if_true,List.append_nil,List.append_assoc] using holds
  · rw [Bool.eq_false_iff.mpr fine] at shaken
    refine following (weaken (vectorTold (by decide)) (fun _ => openLow) (fun _ _ => id)) ?_
    refine weaken (later _ ⟨samples,shaken,rfl⟩) (fun s holds => ?_) (fun _ _ => id)
    simpa only [Bool.false_eq_true,if_false,List.append_assoc] using holds

/- An operation that is a vector and its handshake. -/
theorem shakeSpelled {vect : Bytes} {numBits : Nat} (fits : numBits ≤ 8 * vect.length) {before : List Signal} {op : Bool → Op}
    (spells : ∀ failed signals, Shook (firstBits vect numBits) failed signals → Spells (op failed) (before ++ signals)) :
    Triple (Low W start (told ++ before)) (do
      vectorSend W vect numBits
      clock W
      if ← transitionHiLoDetect W then return true
      else
        vectorSend W wait_and_poll_end num_bits_wait_and_poll_end
        return false) (fun failed s => ∃ signals, Spells (op failed) signals ∧ Low W start (told ++ signals) s) := by
  refine shakeTold fits (fun signals shook s holds => ?_) (fun signals shook => done (fun s holds => ?_))
  · exact ⟨_,spells true signals shook,by rw [← List.append_assoc]; exact openLow holds⟩
  · exact ⟨_,spells false signals shook,by rw [← List.append_assoc]; exact openLow holds⟩

theorem reStartTold {drive : Option Bool} (unset : start.port.xres = false) :
    Triple (Told W start drive false told) (targetReStart W) (fun _ => Told W start drive false told) := by
  have once (level : Bool) (s : Bus δ) (drive' : s.port.driven = drive) (low : s.port.sclk = false)
      (made : Adds start false (edges told) s.log) (follows : Follows W start.device told s.device) :
      let s' := (write W (fun p => {p with xres := level}) s).2
      s'.port.driven = drive ∧ s'.port.sclk = false ∧ s'.port.xres = level ∧ Adds start false (edges told) s'.log ∧
      Follows W start.device told s'.device := by
    have still : ¬ (s.port.sclk = true ∧ s.port.sclk = false) := by simp [low]
    refine ⟨drive',low,rfl,eventRaised made ?_ ?_ (.inl ⟨rfl,rfl⟩),?_⟩
    · simp [fallOf,low]
    · simp [risen,low]
    · have same : (write W (fun p => {p with xres := level}) s).2.device = s.device := if_neg still
      rw [same]
      exact follows
  rintro s ⟨⟨drive',low,_,_,made⟩,follows⟩
  obtain ⟨drive₁,low₁,_,made₁,follows₁⟩ := once true s drive' low made follows
  obtain ⟨drive₂,low₂,reset₂,made₂,follows₂⟩ := once false _ drive₁ low₁ made₁ follows₁
  exact ⟨⟨drive₂,low₂,reset₂.trans unset.symm,rfl,made₂⟩,follows₂⟩

theorem lowTold : Triple (Open W start told) (sclkLow W) (fun _ => Open W start told) := by
  intro s holds
  have since := fallSince W s.device s holds.since
  simp only [Bool.false_eq_true,if_false,List.append_nil] at since
  have same := since.device
  exact ⟨by rw [same]; exact since,by rw [same]; exact holds.follows⟩

theorem initializeSpelled (unset : start.port.xres = false) : Triple (Low W start told) (targetInitialize W)
    (fun failed s => ∃ signals, Spells (.targetInitialize failed) signals ∧ Low W start (told ++ signals) s) := by
  refine following hiZTold (following lowTold (following (reStartTold unset) ?_))
  refine weaken (shakeTold (by decide) (fun s₁ first s holds => ⟨s₁,.initializeLost first,openLow holds⟩)
    (fun s₁ first => ?_)) (fun _ => openLow) (fun _ _ => id)
  refine weaken (shakeTold (by decide) (fun s₂ second s holds => ?_) (fun s₂ second => ?_)) (fun _ => openLow) (fun _ _ => id)
  · exact ⟨_,.initializeHalf first second,by rw [← List.append_assoc]; exact openLow holds⟩
  · refine following (weaken (vectorTold (by decide)) (fun _ => openLow) (fun _ _ => id)) (following clockTold ?_)
    refine following (weaken (vectorTold (by decide)) (fun _ => openLow) (fun _ _ => id)) (done (fun s holds => ?_))
    refine ⟨_,.initialized first second,?_⟩
    simpa only [List.append_assoc] using openLow holds

theorem twoBytesTold {v v' v'' : Bytes} {n n' n'' : Nat} (fits : n ≤ 8 * v.length) (fits' : n' ≤ 8 * v'.length)
    (fits'' : n'' ≤ 8 * v''.length) {α : Type} {next : UInt8 → UInt8 → Driver δ α} {post : α → Bus δ → Prop}
    (later : ∀ first second, Triple (Open W start
      (told ++ twoBytes (firstBits v n) (firstBits v' n') (firstBits v'' n'') first second)) (next first second) post) :
    Triple (Open W start told) (do
      vectorSend W v n
      clock W
      clock W
      let first ← byteReceive W
      clock W
      vectorSend W v' n'
      clock W
      clock W
      let second ← byteReceive W
      clock W
      vectorSend W v'' n''
      next first second) post := by
  have again {told : List Signal} {v : Bytes} {n : Nat} (fits : n ≤ 8 * v.length) :
      Triple (Open W start told) (vectorSend W v n) (fun _ => Open W start (told ++ sent (firstBits v n))) :=
    weaken (vectorTold fits) (fun _ => openLow) (fun _ _ => id)
  refine following (again fits) (following clockTold (following clockTold (receiveTold (fun first => ?_))))
  refine following (again fits') (following clockTold (following clockTold (receiveTold (fun second => ?_))))
  refine following (again fits'') (weaken (later first second) (fun s holds => ?_) (fun _ _ => id))
  simpa only [twoBytes,List.append_assoc] using holds

theorem siliconSpelled : Triple (Low W start told) (targetSiliconIDVerify W)
    (fun failed s => ∃ signals, Spells (.targetSiliconIDVerify failed) signals ∧ Low W start (told ++ signals) s) := by
  refine shakeTold (by decide) (fun s₁ setup s holds => ⟨s₁,.siliconLost setup,openLow holds⟩) (fun s₁ setup => ?_)
  refine twoBytesTold (by decide) (by decide) (by decide) (fun first second => ?_)
  refine branch (fun wrong => done (fun s holds => ?_)) (fun right => done (fun s holds => ?_))
  · have right : true = false ↔ [first,second] = target_id_v := by
      refine ⟨fun now => by contradiction,fun same => ?_⟩
      obtain ⟨rfl,rfl⟩ : first = 0x00 ∧ second = 0x38 := by simpa [target_id_v] using same
      exact absurd wrong (by decide)
    exact ⟨_,.silicon setup right,by rw [← List.append_assoc]; exact openLow holds⟩
  · rw [not_or,not_not,not_not] at right
    have same : false = false ↔ [first,second] = target_id_v := ⟨fun _ => by rw [right.1,right.2]; rfl,fun _ => rfl⟩
    exact ⟨_,.silicon setup same,by rw [← List.append_assoc]; exact openLow holds⟩

theorem checksumSpelled : Triple (Low W start told) (targetBankChecksumGet W 0x0000)
    (fun value s => ∃ signals, Spells (.targetBankChecksumGet value) signals ∧ Low W start (told ++ signals) s) := by
  refine shakeTold (by decide) (fun s₁ lost s holds => ⟨s₁,.checksumLost lost,openLow holds⟩) (fun s₁ vector => ?_)
  refine twoBytesTold (by decide) (by decide) (by decide) (fun high low => done (fun s holds => ?_))
  rw [UInt16.zero_add]
  refine ⟨_,.checksum vector,?_⟩
  rw [← List.append_assoc]
  exact openLow holds

theorem eraseSpelled : Triple (Low W start told) (targetErase W)
    (fun failed s => ∃ signals, Spells (.targetErase failed) signals ∧ Low W start (told ++ signals) s) := by
  have spelled : Triple (Low W start (told ++ [])) (targetErase W)
      (fun failed s => ∃ signals, Spells (.targetErase failed) signals ∧ Low W start (told ++ signals) s) :=
    shakeSpelled (by decide) (fun _ _ vector => .erase vector)
  rwa [List.append_nil] at spelled

theorem selectTold (k : Nat) : Triple (Low W start told) (selectBlock W (UInt8.ofNat k))
    (fun _ => Low W start (told ++ selected k)) := by
  have ends : topBits set_block_number_end num_bits_set_block_number_end = TargetChip.frameEnd := by decide
  refine following (vectorTold (by decide)) (following (weaken ppTold (fun _ => openLow) (fun _ _ => id))
    (following (byteTold _ _) (weakenPost (byteTold _ _) (fun _ s holds => drivenLow ?_))))
  rw [ends,show num_bits_block_number_length = 8 from rfl,blockBinary] at holds
  simpa only [selected,List.append_assoc] using holds

theorem programSpelled (k : Nat) (data : Bytes) : Triple (Low W start told) (targetBlockProgram W (UInt8.ofNat k))
    (fun failed s => ∃ signals, Spells (.targetBlockProgram k data failed) signals ∧ Low W start (told ++ signals) s) :=
  following (selectTold k) (shakeSpelled (by decide) (fun _ _ vector => .program k data vector))

theorem compareTold {data : Bytes} {i : Nat} (fits : i + data.length ≤ 64) :
    Triple (Open W start told) (verifyBytes W data (UInt8.ofNat (4 * i)))
      (fun failed s => ∃ signals, Compared i data failed signals ∧ Open W start (told ++ signals) s) := by
  induction data generalizing i told with
  | nil => exact done (fun s holds => ⟨[],.done i,by rwa [List.append_nil]⟩)
  | cons expected rest ih =>
    rw [List.length_cons] at fits
    refine andThen (readTold (by omega)) (fun got => branch (fun other => done (fun s holds => ?_)) (fun same => ?_))
    · exact ⟨_,.differs other,holds⟩
    · rw [Decidable.not_not.mp same,addressNext]
      refine weakenPost (ih (i := i + 1) (by omega)) (fun failed s ⟨signals,compared,holds⟩ => ?_)
      exact ⟨_,.same compared,by rwa [← List.append_assoc]⟩

theorem blockVerifySpelled (k : Nat) {data : Bytes} (size : data.length = TARGET_DATABUFF_LEN) :
    Triple (Low W start told) (targetBlockVerify W (UInt8.ofNat k) data)
      (fun failed s => ∃ signals, Spells (.targetBlockVerify k data failed) signals ∧ Low W start (told ++ signals) s) := by
  have fits : 0 + data.length ≤ 64 := by rw [Nat.zero_add,size]; rfl
  refine following (selectTold k) (shakeTold (by decide) (fun s₁ lost s holds => ?_) (fun s₁ setup => ?_))
  · exact ⟨_,.verifyLost k data lost,by rw [← List.append_assoc]; exact openLow holds⟩
  · refine weakenPost (compareTold (i := 0) fits) (fun failed s ⟨signals,compared,holds⟩ => ?_)
    refine ⟨_,.verify k setup compared,?_⟩
    simpa only [List.append_assoc] using openLow holds

theorem securityFits (data : Bytes) : (data.take SECURITY_BYTES_PER_BANK).length ≤ 64 := by
  rw [List.length_take,SECURITY_BYTES_PER_BANK]
  omega

theorem securityFlashSpelled (data : Bytes) : Triple (Low W start told) (targetSecurityFlash W data)
    (fun failed s => ∃ signals, Spells (.targetSecurityFlash (data.take SECURITY_BYTES_PER_BANK) failed) signals ∧
      Low W start (told ++ signals) s) := by
  intro s holds
  have wrote := drivenLow (recordsTold (securityFits data) 0x0000 s holds)
  rw [WriteRecords.flashRun]
  exact shakeSpelled (by decide) (fun _ _ vector => .securityFlash _ vector) _ wrote

theorem securityVerifySpelled (data : Bytes) : Triple (Low W start told) (targetSecurityVerify W data)
    (fun failed s => ∃ signals, Spells (.targetSecurityVerify (data.take SECURITY_BYTES_PER_BANK) failed) signals ∧
      Low W start (told ++ signals) s) := by
  refine shakeTold (by decide) (fun s₁ lost s holds => ⟨_,.securityLost _ lost,openLow holds⟩) (fun s₁ setup => ?_)
  refine weakenPost (compareTold (i := 0) (by rw [Nat.zero_add]; exact securityFits data))
    (fun failed s ⟨signals,compared,holds⟩ => ?_)
  exact ⟨_,.securityVerify setup compared,by rw [← List.append_assoc]; exact openLow holds⟩

/-- One operation on the target is spelled on the wires. -/
theorem performsSpelled (unset : start.port.xres = false) {s s' : Bus δ} {op : Op} (now : Performs (isspTarget W) s op s')
    (holds : Low W start told s) : ∃ signals, Spells op signals ∧ Low W start (told ++ signals) s' := by
  cases now with
  | targetInitialize => exact initializeSpelled unset s holds
  | targetSiliconIDVerify => exact siliconSpelled s holds
  | targetErase => exact eraseSpelled s holds
  | @targetLoad data size =>
    exact ⟨_,.load data,drivenLow (recordsTold (Nat.le_of_eq size) 0x0000 s holds)⟩
  | targetBlockProgram k data => exact programSpelled k data s holds
  | targetBlockVerify k size => exact blockVerifySpelled k size s holds
  | targetSecurityFlash => exact securityFlashSpelled _ s holds
  | targetSecurityVerify => exact securityVerifySpelled _ s holds
  | targetBankChecksumGet => exact checksumSpelled s holds
  | targetReStart =>
    obtain ⟨drive,told'⟩ := holds
    exact ⟨[],.reStart,drive,by rw [List.append_nil]; exact reStartTold unset s told'⟩

theorem performedSpelled (unset : start.port.xres = false) {s s' : Bus δ} {ops : List Op}
    (performed : Performed (isspTarget W) s ops s') (holds : Low W start told s) :
    ∃ segments, List.Forall₂ Spells ops segments ∧ Low W start (told ++ segments.flatten) s' := by
  induction performed generalizing told with
  | nil s => exact ⟨[],.nil,by simpa using holds⟩
  | cons now _ ih =>
    obtain ⟨signals,spells,next⟩ := performsSpelled unset now holds
    obtain ⟨segments,all,ends⟩ := ih next
    exact ⟨signals :: segments,.cons spells all,by rwa [List.flatten_cons,← List.append_assoc]⟩

end Operations

/- The dialogue with a target that was `d` at power-up, cut into one segment for each
operation. -/
structure Spelled {δ : Type} (W : Wire δ) (d : δ) (ops : List Op) (s : Bus δ) (segments : List (List Signal)) : Prop where
  spells : List.Forall₂ Spells ops segments
  follows : Follows W d segments.flatten s.device
  edges : falls s.log = edges segments.flatten
  rises : rises s.log = (falls s.log).length

theorem spelledDone {δ : Type} {W : Wire δ} {d : δ} {ops : List Op} {s : Bus δ}
    (performed : Performed (isspTarget W) (boardInit d) ops s) : ∃ segments, Spelled W d ops s segments := by
  have begins : Low W (boardInit d) [] (boardInit d) := ⟨none,sinceHere _,.nil _⟩
  obtain ⟨segments,spells,_,told⟩ := performedSpelled rfl performed begins
  rw [List.nil_append] at told
  obtain ⟨made,log,levels,count,_⟩ := told.since.made
  rw [show (boardInit d).log = [] from rfl,List.nil_append] at log
  refine ⟨segments,spells,told.follows,log ▸ levels,?_⟩
  rw [log,levels]
  exact count

/-- Whatever comes in, in any order of the interrupts and the turns of the main thread,
and whatever the other end of the wires is: all it has seen and given is the operations in
the log, spelled one after the other with the results that its samples give them. -/
theorem spelledInOrder {δ : Type} {W : Wire δ} {d : δ} {checksum : UInt16} {device : Interrupts.Device (Bus δ)}
    (reached : Servicing.Reached (isspTarget W) checksum (boardInit d) device) :
    ∃ segments, Spelled W d (opsOf device.log) device.firmware.target segments :=
  spelledDone (reachedTraced reached).performed

/- The erase command arrives, and the handshake of the target comes at once. -/
def erasing : List Interrupts.Action :=
  [.main,.interrupt (Servicing.shows true false) [(Ascii.b,Servicing.shows true false),(Ascii.newline,Servicing.shows false false)]] ++
  List.replicate 8 .main

def erasedDevice : Option (Interrupts.Device (Bus Nat)) :=
  Transition.runAll (Interrupts.step (isspTarget (BusDiscipline.samples (fun n => n % 2 == 0))))
    (Interrupts.start Servicing.blank.val Servicing.blank.val 0 (boardInit 0)) erasing

theorem erasedDeviceOps : erasedDevice.map (fun device => opsOf device.log) = some [.targetErase false] := by decide +kernel

theorem spelledInOrderErase : ∃ device segments, erasedDevice = some device ∧
    Spelled (BusDiscipline.samples (fun n => n % 2 == 0)) 0 [.targetErase false] device.firmware.target segments := by
  obtain ⟨device,now,ops⟩ := Option.map_eq_some_iff.mp erasedDeviceOps
  obtain ⟨segments,spelled⟩ := spelledInOrder ⟨Servicing.blank,Servicing.blank,_,Interrupts.runAny now⟩
  rw [ops] at spelled
  exact ⟨device,segments,now,spelled⟩

end HsspProgrammer.Spelling
