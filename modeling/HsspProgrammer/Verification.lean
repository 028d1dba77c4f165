import HsspProgrammer.WriteRecords

/-! Verifying against a target of which nothing is known but what it answers to a read:
the firmware compares exactly what it reads, address by address. -/
namespace HsspProgrammer.Verification
open Ascii (Bytes)
open CommandLoop (TARGET_DATABUFF_LEN SECURITY_BYTES_PER_BANK Firmware onReady)
open Pins Issp Triples Clocking TargetChip
open ChipOperations (shifted shiftedByte receivedHeard readBits oneBit)
open WriteRecords (addressBinary)

/- The bits of a read up to the answer; SDATA keeps the last address bit for two clocks. -/
def question (address : Nat) : List Bool :=
  readStart ++ binary 6 address ++ [address.testBit 0,address.testBit 0]

/- What one read shows at its falling edges: the question, the eight at which SDATA is
not driven, and the end. -/
def readLevels (address : Nat) : List (Option Bool) :=
  (question address).map some ++ List.replicate 8 none ++ [some true]

def Transaction (address : Nat) (made : List Event) : Prop :=
  falls made = readLevels address ∧ (falls made).length = FRAME_BITS ∧ rises made = FRAME_BITS

variable {δ : Type}

/- The target at the first sample of a read, and after the read. -/
def asked (W : Wire δ) (address : Nat) (d : δ) : δ := seen W d (question address)

def afterRead (W : Wire δ) (d : δ) (address : Nat) : δ :=
  seen W (W.fall none (received W 8 false 0x00 (asked W address d)).2) [true]

/-- In every read, whatever was read before, the eight samples are the byte at the
address that was sent. -/
def Presents (W : Wire δ) (memory : Nat → UInt8) (d : δ) : Prop :=
  ∀ past : List Nat, (∀ a ∈ past, a < 64) → ∀ a < 64,
    heard W 8 false (asked W a (past.foldl (afterRead W) d)) = binary 8 (memory a).toNat

theorem presentsNext {W : Wire δ} {memory : Nat → UInt8} {d : δ} (presents : Presents W memory d) {a : Nat}
    (inside : a < 64) : Presents W memory (afterRead W d a) := by
  intro past addresses
  refine presents (a :: past) (fun a' among => ?_)
  rcases List.mem_cons.mp among with rfl | later
  · exact inside
  · exact addresses a' later

theorem presented {W : Wire δ} {memory : Nat → UInt8} {d : δ} (presents : Presents W memory d) {a : Nat}
    (inside : a < 64) : (received W 8 false 0x00 (asked W a d)).1 = memory a := by
  have bits : heard W 8 false (asked W a d) = binary 8 (memory a).toNat := presents [] (by simp) a inside
  rw [receivedHeard,bits,← byteBinary,shiftedByte]

section Read
variable (W : Wire δ) {start : Bus δ} {levels : List (Option Bool)}

theorem readByteSince {i : Nat} (inside : i < 64) (d : δ) :
    Triple (Since start none false levels d) (readByte W (UInt8.ofNat (4 * i)))
      (fun byte s => byte = (received W 8 false 0x00 (asked W i d)).1 ∧
        Since start none false (levels ++ readLevels i) (afterRead W d i) s) := by
  have last : (binary 6 i).getLast? = some (i.testBit 0) := rfl
  refine following (vectorSendSince W _ _ d) (following (ppSince W) (following (byteSendLast W _ 5 _) ?_))
  rw [readBits,show 5 + 1 = num_bits_address_length from rfl,addressBinary inside,last]
  refine following (clockSince W) (following (clockSince W) (following (hiZSince W)
    (andThen (byteReceiveSince W _) (fun byte => supposing ?_))))
  rintro rfl
  refine following (lastClockSince W _) (following (vectorSendSince W _ _ _) (done (fun s holds => ?_)))
  have reached : W.fall (some (i.testBit 0)) (W.fall (some (i.testBit 0)) (seen W (seen W d readStart) (binary 6 i))) =
      asked W i d := by
    rw [asked,question,seenAppend,seenAppend]
    rfl
  rw [reached,oneBit] at holds
  refine ⟨congrArg _ (congrArg _ reached),?_⟩
  rw [readLevels,question]
  simp only [List.map_append,List.append_assoc] at holds ⊢
  exact holds

/- SDATA is released and the clock is low. -/
def Open (s : Bus δ) : Prop := s.port.driven = none ∧ s.port.sclk = false

theorem openSince {d : δ} {s : Bus δ} (since : Since start none false levels d s) : Open s := ⟨since.drive,since.clock⟩

/-- One read from such a state: the byte, the pins and the target after it, and what it
has shown. -/
theorem readByteFrom {i : Nat} (inside : i < 64) {memory : Nat → UInt8} {s : Bus δ} (open' : Open s)
    (presents : Presents W memory s.device) : ∃ made,
    (readByte W (UInt8.ofNat (4 * i)) s).2.log = s.log ++ made ∧ Transaction i made ∧
    (readByte W (UInt8.ofNat (4 * i)) s).1 = memory i ∧ Open (readByte W (UInt8.ofNat (4 * i)) s).2 ∧
    Presents W memory (readByte W (UInt8.ofNat (4 * i)) s).2.device := by
  obtain ⟨released,low⟩ := open'
  have here : Since s none false [] s.device s := released ▸ sinceLow low
  obtain ⟨byte,since⟩ := readByteSince W inside s.device s here
  obtain ⟨made,log,levels,count⟩ := sinceShown low since
  have many : (readLevels i).length = FRAME_BITS := by
    simp only [readLevels,question,List.length_append,List.length_map,binaryLength,List.length_replicate]
    rfl
  rw [List.nil_append] at levels count
  rw [since.device]
  exact ⟨made,log,⟨levels,levels ▸ many,count.trans many⟩,byte.trans (presented presents inside),openSince since,
    presentsNext presents inside⟩

/- What the loop has done when it has come from address `i` to its end or to the first
difference. -/
structure Loop (memory : Nat → UInt8) (i : Nat) (data : Bytes) (s : Bus δ) (run : Bool × Bus δ) : Prop where
  agrees : run.1 = false ↔ ∀ j < data.length, data[j]? = some (memory (i + j))
  transactions : ∃ reads : List (List Event), run.2.log = s.log ++ reads.flatten ∧
    (∀ j (inside : j < reads.length), Transaction (i + j) reads[j]) ∧
    (run.1 = false → reads.length = data.length) ∧
    ∀ j < data.length, data[j]? ≠ some (memory (i + j)) → (∀ k < j, data[k]? = some (memory (i + k))) →
      reads.length = j + 1

theorem loopStops {memory : Nat → UInt8} {i : Nat} {expected : UInt8} {rest : Bytes} {s s' : Bus δ}
    {made : List Event} (log : s'.log = s.log ++ made) (read : Transaction i made) (differs : memory i ≠ expected) :
    Loop memory i (expected :: rest) s (true,s') := by
  have other : expected ≠ memory i := differs.symm
  refine ⟨by simpa using ⟨0,by simp,by simpa using other⟩,[made],by simpa using log,fun j inside => ?_,by simp,?_⟩
  · have first : j = 0 := by simpa using inside
    subst first
    exact read
  · intro j _ _ before
    rcases Nat.eq_zero_or_pos j with rfl | later
    · rfl
    · exact absurd (by simpa using before 0 later) other

theorem loopGoesOn {memory : Nat → UInt8} {i : Nat} {expected : UInt8} {rest : Bytes} {s s' : Bus δ}
    {run : Bool × Bus δ} {made : List Event} (log : s'.log = s.log ++ made) (read : Transaction i made)
    (same : memory i = expected) (later : Loop memory (i + 1) rest s' run) :
    Loop memory i (expected :: rest) s run := by
  have shift (j : Nat) : i + 1 + j = i + (j + 1) := by omega
  obtain ⟨agrees,reads,log',transactions,all,first⟩ := later
  simp only [shift] at agrees transactions first
  refine ⟨agrees.trans ⟨fun every j inside => ?_,fun every j inside => ?_⟩,made :: reads,?_,fun j inside => ?_,?_,?_⟩
  · cases j with
    | zero => simp [same]
    | succ j => simpa using every j (by simpa using inside)
  · simpa using every (j + 1) (by simpa using inside)
  · rw [log',log,List.flatten_cons,List.append_assoc]
  · cases j with
    | zero => exact read
    | succ j => exact transactions j (by simpa using inside)
  · intro fine
    rw [List.length_cons,List.length_cons,all fine]
  · intro j inside differs before
    cases j with
    | zero => simp [same] at differs
    | succ j =>
      rw [List.length_cons,first j (by simpa using inside) (by simpa using differs)
        (fun k earlier => by simpa using before (k + 1) (by omega))]

theorem verifyLoop {i : Nat} {data : Bytes} (fits : i + data.length ≤ 64) {memory : Nat → UInt8} {s : Bus δ}
    (open' : Open s) (presents : Presents W memory s.device) :
    Loop memory i data s (verifyBytes W data (UInt8.ofNat (4 * i)) s) := by
  induction data generalizing i s with
  | nil => exact ⟨⟨fun _ _ inside => absurd inside (Nat.not_lt_zero _),fun _ => rfl⟩,[],(List.append_nil _).symm,
      by simp,by simp,by simp⟩
  | cons expected rest ih =>
    rw [List.length_cons] at fits
    obtain ⟨made,log,read,byte,after,presents'⟩ := readByteFrom W (i := i) (by omega) open' presents
    rw [verifyBytes,bindRun,byte]
    by_cases differs : memory i ≠ expected
    · rw [if_pos differs]
      exact loopStops log read differs
    · rw [if_neg differs,addressNext]
      exact loopGoesOn log read (Decidable.not_not.mp differs) (ih (by omega) after presents')

end Read
section Handshake
variable (W : Wire δ)

/- What the two operations do before they read; true where the handshake fails. -/
def verifySetup (blockNumber : UInt8) : Driver δ Bool := do
  selectBlock W blockNumber
  shake W verify_setup_v num_bits_verify_setup

def securitySetup : Driver δ Bool := shake W securityVerification_v num_bits_securityVerification

theorem blockVerifySetup (blockNumber : UInt8) (targetDataOUT : Bytes) :
    targetBlockVerify W blockNumber targetDataOUT =
      (do if ← verifySetup W blockNumber then return true else verifyBytes W targetDataOUT 0x00) := by
  rw [targetBlockVerify,shakeRun,verifySetup,bind_assoc]

theorem securityVerifySetup (targetDataOUT : Bytes) : targetSecurityVerify W targetDataOUT =
    (do if ← securitySetup W then return true
        else verifyBytes W (targetDataOUT.take SECURITY_BYTES_PER_BANK) 0x00) := by
  rw [targetSecurityVerify,shakeRun,securitySetup]

theorem shakeOpen {start : Bus δ} {drive : Option Bool} {levels : List (Option Bool)} (vect : Bytes) (numBits : Nat)
    (d : δ) : Triple (Since start drive false levels d) (shake W vect numBits) (fun _ => Open) :=
  weakenPost (shakeSince W vect numBits d) (fun _ _ ⟨_,since⟩ => openSince since)

theorem selectSince {start : Bus δ} {drive : Option Bool} (blockNumber : UInt8) (d : δ) :
    Triple (Since start drive false [] d) (selectBlock W blockNumber)
      (fun _ s => ∃ levels d', Sending start levels d' s) := by
  refine weakenPost (following (vectorSendSince W _ _ d) (following (ppSince W) (following (byteSendSince W _ _ _)
    (byteSendSince W _ _ _)))) (fun _ _ sent => ?_)
  exact ⟨_,_,sent⟩

theorem verifyOpen (blockNumber : UInt8) {s : Bus δ} (low : s.port.sclk = false) :
    Open (verifySetup W blockNumber s).2 := by
  obtain ⟨levels,d,level,since⟩ := selectSince W blockNumber s.device s (sinceLow low)
  rw [verifySetup,bindRun]
  exact shakeOpen W _ _ d _ since

theorem securityOpen {s : Bus δ} (low : s.port.sclk = false) : Open (securitySetup W s).2 :=
  shakeOpen W _ _ s.device s (sinceLow low)

end Handshake

/- The first `limit` bytes have been compared, or the handshake has failed. -/
structure Compared (memory : Nat → UInt8) (targetDataOUT : Row) (limit : Nat) (shaken run : Bool × Bus δ) : Prop where
  agrees : run.1 = false ↔
    shaken.1 = false ∧ ∀ i : Fin TARGET_DATABUFF_LEN, i < limit → memory i = targetDataOUT[i]
  transactions : ∃ reads : List (List Event), run.2.log = shaken.2.log ++ reads.flatten ∧
    (∀ i (inside : i < reads.length), Transaction i reads[i]) ∧
    (shaken.1 = true → reads = []) ∧ (run.1 = false → reads.length = limit) ∧
    ∀ i : Fin TARGET_DATABUFF_LEN, i < limit → shaken.1 = false → memory i ≠ targetDataOUT[i] →
      (∀ j : Fin TARGET_DATABUFF_LEN, j < i → memory j = targetDataOUT[j]) → run.1 = true ∧ reads.length = i + 1

theorem comparedLoop {memory : Nat → UInt8} {targetDataOUT : Row} {limit : Nat} (most : limit ≤ TARGET_DATABUFF_LEN)
    {shaken run : Bool × Bus δ} (shook : shaken.1 = false)
    (loop : Loop memory 0 (targetDataOUT.toList.take limit) shaken.2 run) :
    Compared memory targetDataOUT limit shaken run := by
  have size : (targetDataOUT.toList.take limit).length = limit := by
    rw [List.length_take,Vector.length_toList]
    omega
  have byte (i : Fin TARGET_DATABUFF_LEN) (before : i < limit) :
      (targetDataOUT.toList.take limit)[i.val]? = some targetDataOUT[i] := by
    rw [List.getElem?_take_of_lt before,Vector.getElem?_toList,Fin.getElem_fin]
    exact Vector.getElem?_eq_getElem i.isLt
  obtain ⟨agrees,reads,log,transactions,all,first⟩ := loop
  simp only [size,Nat.zero_add] at agrees transactions all first
  have every : run.1 = false ↔ ∀ i : Fin TARGET_DATABUFF_LEN, i < limit → memory i = targetDataOUT[i] := by
    refine agrees.trans ⟨fun equal i before => ?_,fun equal j before => ?_⟩
    · exact Option.some.inj ((equal i before).symm.trans (byte i before))
    · rw [byte ⟨j,by omega⟩ before,equal ⟨j,by omega⟩ before]
  refine ⟨by simp only [shook,true_and,every],reads,log,transactions,by simp [shook],all,?_⟩
  intro i before _ differs same
  refine ⟨?_,first i before ?_ (fun k earlier => ?_)⟩
  · have differ : ¬ run.1 = false := fun fine => differs (every.mp fine i before)
    simpa using differ
  · rw [byte i before]
    exact fun equal => differs (Option.some.inj equal).symm
  · rw [byte ⟨k,by omega⟩ (show k < limit by omega),same ⟨k,by omega⟩ earlier]

theorem comparedRun (W : Wire δ) {memory : Nat → UInt8} (targetDataOUT : Row) {limit : Nat}
    (most : limit ≤ TARGET_DATABUFF_LEN) (setup : Driver δ Bool) {s : Bus δ} (after : Open (setup s).2)
    (presents : (setup s).1 = false → Presents W memory (setup s).2.device) :
    Compared memory targetDataOUT limit (setup s)
      ((do if ← setup then return true else verifyBytes W (targetDataOUT.toList.take limit) 0x00) s) := by
  rw [bindRun]
  cases shook : (setup s).1 with
  | true =>
    show Compared memory targetDataOUT limit (setup s) (true,(setup s).2)
    exact ⟨by simp [shook],[],(List.append_nil _).symm,by simp,by simp,by simp,by simp [shook]⟩
  | false =>
    have size : 0 + (targetDataOUT.toList.take limit).length ≤ 64 := by
      rw [List.length_take,Vector.length_toList]
      simp only [TARGET_DATABUFF_LEN]
      omega
    exact comparedLoop most shook (verifyLoop W size after (presents shook))

section Chip
variable (lows highs : Nat → Nat) {c : Chip}

theorem heardLength (W : Wire δ) (b : Nat) (sclk : Bool) (d : δ) : (heard W b sclk d).length = b := by
  induction b generalizing sclk d with
  | zero => rfl
  | succ b ih => rw [heard,List.length_cons,ih]

theorem shiftedBits {bits : List Bool} (size : bits.length = 8) : topBits (shifted 0x00 bits) 8 = bits := by
  match bits, size with
  | [a,b,c,d,e,f,g,h], _ => revert a b c d e f g h; decide +kernel

theorem chipRead (aligned : Aligned c) {i : Nat} (inside : i < TARGET_DATABUFF_LEN) :
    heard (chipWire lows highs) 8 false (asked (chipWire lows highs) i c) = binary 8 c.ram[i].toNat ∧
    Aligned (afterRead (chipWire lows highs) c i) ∧ (afterRead (chipWire lows highs) c i).ram = c.ram := by
  have begins : At none false c (boardInit c) := ⟨rfl,rfl,rfl,rfl,by simp [boardInit]⟩
  obtain ⟨c',⟨byte,aligned',kept⟩,ends⟩ := ChipOperations.readAt lows highs aligned inside rfl _ begins
  obtain ⟨byte',since⟩ := readByteSince (chipWire lows highs) inside c _ (sinceStart begins)
  have same : c' = afterRead (chipWire lows highs) c i := ends.device.symm.trans since.device
  subst same
  refine ⟨?_,aligned',kept.ram⟩
  rw [byte,receivedHeard] at byte'
  rw [byte',← byteBinary,shiftedBits (heardLength _ _ _ _)]

/-- The target that is described elsewhere presents its RAM. -/
theorem chipPresents (aligned : Aligned c) : Presents (chipWire lows highs) (fun a => (c.ram[a]?).getD 0x00) c := by
  intro past addresses a inside
  induction past generalizing c with
  | nil =>
    have room : a < TARGET_DATABUFF_LEN := inside
    have byte : (c.ram[a]?).getD 0x00 = c.ram[a] := by rw [Vector.getElem?_eq_getElem room,Option.getD_some]
    show heard (chipWire lows highs) 8 false (asked (chipWire lows highs) a c) = binary 8 ((c.ram[a]?).getD 0x00).toNat
    rw [byte]
    exact (chipRead lows highs aligned room).1
  | cons first past ih =>
    obtain ⟨_,aligned',ram⟩ := chipRead lows highs aligned (addresses first List.mem_cons_self)
    rw [List.foldl_cons,ih aligned' (fun a among => addresses a (List.mem_cons_of_mem _ among)),ram]

/-- Its handshake in time gives the firmware the row that has been selected. -/
theorem chipShaken (inTime : ChipOperations.InTime lows highs) (aligned : Aligned c) {drive : Option Bool}
    (blockNumber : UInt8) :
    Triple (At drive false c) (verifySetup (chipWire lows highs) blockNumber)
      (fun failed s => failed = false ∧ ∃ c', Aligned c' ∧
        c'.ram = (c.flash[blockNumber.toNat]?).getD c.ram ∧ s.device = c') := by
  refine following (ChipOperations.selectAt lows highs aligned blockNumber) (existing (fun selected => supposing ?_))
  rintro ⟨alignedSelected,ram,flash,block⟩
  refine existing (fun _ => ChipOperations.shakeAt lows highs inTime alignedSelected .verify (fun c' after =>
    done (fun s holds => ⟨rfl,c',after.aligned,?_,holds.device⟩)))
  rw [after.ram,Chip.perform,block,ram,flash]

end Chip

/- The buffer is only compared. -/
theorem bufferKept {τ : Type} (T : CommandLoop.Target τ) (fw : Firmware τ) (k : Nat) :
    (onReady T fw (.verify k)).firmware.targetDataOUT = fw.targetDataOUT ∧
    (onReady T fw .securityVerify).firmware.targetDataOUT = fw.targetDataOUT := ⟨rfl,rfl⟩

/-- A target that presents its memory is verified against the buffer, byte by byte up to
the first difference, each in a read of its own. The clock is low whenever the command
loop calls the two operations. -/
theorem verification (W : Wire δ) (memory : Nat → UInt8) (targetDataOUT : Row) (blockNumber : UInt8) (s : Bus δ)
    (low : s.port.sclk = false) :
    (((verifySetup W blockNumber s).1 = false → Presents W memory (verifySetup W blockNumber s).2.device) →
      Compared memory targetDataOUT TARGET_DATABUFF_LEN (verifySetup W blockNumber s)
        (targetBlockVerify W blockNumber targetDataOUT.toList s)) ∧
    (((securitySetup W s).1 = false → Presents W memory (securitySetup W s).2.device) →
      Compared memory targetDataOUT SECURITY_BYTES_PER_BANK (securitySetup W s)
        (targetSecurityVerify W targetDataOUT.toList s)) ∧
    ∀ (fw : Firmware (Bus δ)) (k : Nat),
      (onReady (isspTarget W) fw (.verify k)).firmware.targetDataOUT = fw.targetDataOUT ∧
      (onReady (isspTarget W) fw .securityVerify).firmware.targetDataOUT = fw.targetDataOUT := by
  refine ⟨fun presents => ?_,fun presents => ?_,bufferKept (isspTarget W)⟩
  · have whole : targetDataOUT.toList.take TARGET_DATABUFF_LEN = targetDataOUT.toList :=
      List.take_of_length_le (Nat.le_of_eq targetDataOUT.length_toList)
    have compared := comparedRun W targetDataOUT (Nat.le_refl _) (verifySetup W blockNumber)
      (verifyOpen W blockNumber low) presents
    rwa [whole,← blockVerifySetup] at compared
  · rw [securityVerifySetup]
    exact comparedRun W targetDataOUT (by decide) (securitySetup W) (securityOpen W low) presents

def storedChip : Chip :=
  ⟨Vector.replicate _ 0x00,Vector.replicate _ (Vector.replicate _ 0x5a),0x00,0x0000,[],[],.frames,0⟩

theorem verificationStored :
    (targetBlockVerify (chipWire (fun _ => 0) (fun _ => 3)) 0x07 (Vector.replicate _ 0x5a : Row).toList
      (boardInit storedChip)).1 = false := by
  have inTime : ChipOperations.InTime (fun _ => 0) (fun _ => 3) := ⟨fun _ => Nat.zero_le _,fun _ => by decide⟩
  have begins : At none false storedChip (boardInit storedChip) := ⟨rfl,rfl,rfl,rfl,by simp [boardInit]⟩
  obtain ⟨shook,c',aligned,ram,device⟩ := chipShaken _ _ inTime ⟨rfl,rfl⟩ 0x07 _ begins
  have row : c'.ram = Vector.replicate _ 0x5a := by
    have seventh : storedChip.flash[(0x07 : UInt8).toNat]? = some (Vector.replicate _ 0x5a) :=
      Vector.getElem?_replicate.trans (if_pos (by decide))
    rw [ram,seventh,Option.getD_some]
  have presents : Presents (chipWire (fun _ => 0) (fun _ => 3)) (fun a => (c'.ram[a]?).getD 0x00)
      (verifySetup (chipWire (fun _ => 0) (fun _ => 3)) 0x07 (boardInit storedChip)).2.device := by
    rw [device]
    exact chipPresents _ _ aligned
  have compared := (verification (chipWire (fun _ => 0) (fun _ => 3)) (fun a => (c'.ram[a]?).getD 0x00)
    (Vector.replicate _ 0x5a) 0x07 (boardInit storedChip) rfl).1 (fun _ => presents)
  refine compared.agrees.mpr ⟨shook,fun i _ => ?_⟩
  have byte : (Vector.replicate TARGET_DATABUFF_LEN (0x5a : UInt8))[i.val]? = some 0x5a :=
    Vector.getElem?_replicate.trans (if_pos i.isLt)
  rw [row,byte,Option.getD_some,Fin.getElem_fin,Vector.getElem_replicate]

end HsspProgrammer.Verification
