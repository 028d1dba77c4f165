import HsspProgrammer.TargetChip

/-! What the operations do to the chip when every handshake comes in time. -/
namespace HsspProgrammer.ChipOperations
open Ascii (Bytes)
open CommandLoop (TARGET_DATABUFF_LEN)
open Pins Issp Triples Clocking TargetChip

/- In no handshake either level lets the firmware wait longer than it does. -/
structure InTime (lows highs : Nat → Nat) : Prop where
  lows : ∀ i, lows i ≤ TRANSITION_TIMEOUT.toNat
  highs : ∀ i, highs i ≤ TRANSITION_TIMEOUT.toNat

/- A vector and its handshake are over. -/
structure After (job : Job) (c c' : Chip) : Prop where
  aligned : Aligned c'
  ram : c'.ram = (c.perform job).ram
  flash : c'.flash = (c.perform job).flash
  checksum : c'.checksum = (c.perform job).checksum

section Handshake
variable (lows highs : Nat → Nat) {c : Chip}

theorem polledHigh {n : Nat} {low high : Nat} (phase : c.phase = .handshake low (high + 1)) (fits : low ≤ n) :
    polled (chipWire lows highs) true n c = (false,{c with phase := .handshake 0 high}) := by
  induction low generalizing c n with
  | zero =>
    have sees : (chipWire lows highs).sense c = (true,{c with phase := .handshake 0 high}) := by
      cases c; cases phase; rfl
    cases n <;> simp [polled,sees]
  | succ low ih =>
    have waits : (chipWire lows highs).sense c = (false,{c with phase := .handshake low (high + 1)}) := by
      cases c; cases phase; rfl
    cases n with
    | zero => omega
    | succ n =>
      have later := ih (c := {c with phase := .handshake low (high + 1)}) rfl (Nat.le_of_succ_le_succ fits)
      simp only [polled,waits,Bool.false_eq_true,if_false,later]

theorem polledLow {n : Nat} {high : Nat} (phase : c.phase = .handshake 0 high) (fits : high ≤ n) :
    polled (chipWire lows highs) false n c = (false,{c with phase := .handshake 0 0}) := by
  induction high generalizing c n with
  | zero =>
    have sees : (chipWire lows highs).sense c = (false,{c with phase := .handshake 0 0}) := by
      cases c; cases phase; rfl
    cases n <;> simp [polled,sees]
  | succ high ih =>
    have waits : (chipWire lows highs).sense c = (true,{c with phase := .handshake 0 high}) := by
      cases c; cases phase; rfl
    cases n with
    | zero => omega
    | succ n =>
      have later := ih (c := {c with phase := .handshake 0 high}) rfl (Nat.le_of_succ_le_succ fits)
      simp only [polled,waits,Bool.true_eq_false,if_false,later]

theorem detectedInTime {low high : Nat} (phase : c.phase = .handshake low (high + 1))
    (soon : low ≤ TRANSITION_TIMEOUT.toNat) (short : high ≤ TRANSITION_TIMEOUT.toNat) :
    detected (chipWire lows highs) c = (false,{c with phase := .handshake 0 0}) := by
  have first := polledHigh lows highs phase soon
  have second := polledLow lows highs (c := {c with phase := .handshake 0 high}) rfl short
  simp only [detected,first,second,Bool.false_eq_true,if_false]

theorem zerosSeen {left : Nat} (phase : c.phase = .zeros (left + 1)) :
    seen (chipWire lows highs) c (List.replicate (left + 1) false) = {c with phase := .frames} := by
  induction left generalizing c with
  | zero => cases c; cases phase; rfl
  | succ left ih =>
    have one : (chipWire lows highs).fall (some false) c = {c with phase := .zeros (left + 1)} := by
      cases c; cases phase; rfl
    have later := ih (c := {c with phase := .zeros (left + 1)}) rfl
    rw [List.replicate_succ,seen,List.foldl_cons,one,← seen,later]

theorem pollEnd : bitsOf wait_and_poll_end num_bits_wait_and_poll_end = List.replicate (39 + 1) false := by
  rw [bitsOfTake _ (by decide)]
  decide

theorem handshakeSeen {low high : Nat} (phase : c.phase = .handshake low high) :
    seen (chipWire lows highs) c (bitsOf wait_and_poll_end num_bits_wait_and_poll_end) = {c with phase := .frames} := by
  have one : (chipWire lows highs).fall (some false) c = {c with phase := .zeros 39} := by
    cases c; cases phase; rfl
  have later := zerosSeen lows highs (c := {c with phase := .zeros 39}) rfl
  rw [pollEnd,List.replicate_succ,seen,List.foldl_cons,one,← seen,later]

/- A job reads only what a vector keeps. -/
theorem performSame {c' : Chip} (kept : Kept c c') {job : Job} (block : job ≠ .checksum → c'.block = c.block) :
    (c'.perform job).ram = (c.perform job).ram ∧ (c'.perform job).flash = (c.perform job).flash ∧
    (c'.perform job).checksum = (c.perform job).checksum ∧ (c'.perform job).bits = c'.bits := by
  obtain ⟨ram,flash,checksum,_⟩ := kept
  cases job with
  | program =>
    have same := block (by decide)
    simp only [Chip.perform,ram,flash,checksum,same,and_self]
  | verify =>
    have same := block (by decide)
    simp only [Chip.perform,ram,flash,checksum,same,and_self]
  | checksum => simp only [Chip.perform,ram,flash,and_self]

/-- A vector, the start clock, the handshake and the forty zeros do one job. -/
theorem shakeAt (inTime : InTime lows highs) (aligned : Aligned c) (job : Job) {drive : Option Bool} {α : Type}
    {failed : α} {next : Driver Chip α} {post : α → Bus Chip → Prop}
    (later : ∀ c', After job c c' → Triple (At none false c') next post) :
    Triple (At drive false c) (do
      vectorSend (chipWire lows highs) job.vector.1 job.vector.2
      clock (chipWire lows highs)
      if ← transitionHiLoDetect (chipWire lows highs) then return failed
      else
        vectorSend (chipWire lows highs) wait_and_poll_end num_bits_wait_and_poll_end
        next) post := by
  obtain ⟨armed,seen',phase,bits,kept,block⟩ := jobSeen lows highs aligned job
  have started : (chipWire lows highs).fall none armed = { armed.perform job with
      recent := [], phase := .handshake (lows armed.shakes) (highs armed.shakes + 1), shakes := armed.shakes + 1 } := by
    cases armed; cases phase; rfl
  refine following (vectorSendAt _ _ _ c) (following (clockAt _) (andThen (detectAt _ _) (fun failed => ?_)))
  rw [seen',started]
  have fine := detectedInTime lows highs (c := { armed.perform job with
      recent := [], phase := .handshake (lows armed.shakes) (highs armed.shakes + 1), shakes := armed.shakes + 1 })
    rfl (inTime.lows _) (inTime.highs _)
  rw [fine]
  refine supposing ?_
  rintro rfl
  refine following (vectorSendAt _ _ _ _) ?_
  have ended := handshakeSeen lows highs (c := { armed.perform job with
      recent := [], phase := .handshake 0 0, shakes := armed.shakes + 1 }) rfl
  rw [ended]
  obtain ⟨ram,flash,checksum,same⟩ := performSame kept block
  exact later _ ⟨⟨rfl,same.trans bits⟩,ram,flash,checksum⟩

end Handshake

section Frames
/- The frames that carry an address or a byte. -/
theorem addressValue (targetAddress : UInt8) : value (topBits targetAddress 6) = targetAddress.toNat / 4 :=
  Ascii.forallByte (p := fun v => value (topBits v 6) = v.toNat / 4) (by decide +kernel) targetAddress

theorem byteValue (v : UInt8) : UInt8.ofNat (value (topBits v 8)) = v :=
  Ascii.forallByte (p := fun v => UInt8.ofNat (value (topBits v 8)) = v) (by decide +kernel) v

/- A frame of eleven bits, eight data bits and the three that end it. -/
theorem dataFrame (front : List Bool) (size : front.length = 11) (v : UInt8) (last : List Bool) :
    (front ++ (topBits v 8 ++ last)).take 11 = front ∧ dataOf (front ++ (topBits v 8 ++ last)) = v ∧
    (front ++ (topBits v 8 ++ last)).drop 19 = last := by
  have bits := topBitsLength v 8
  refine ⟨List.take_left' size,?_,?_⟩
  · rw [dataOf,List.drop_left' size,List.take_left' bits,byteValue]
  · rw [← List.append_assoc]
    exact List.drop_left' (by rw [List.length_append,size,bits])

theorem writeFrame (c : Chip) (targetAddress temp : UInt8) :
    c.execute (topBits write_byte_start num_bits_write_byte_start ++ topBits targetAddress num_bits_address_length ++
      (topBits temp num_bits_data_length ++ topBits write_byte_end num_bits_write_byte_end)) =
      {c with ram := c.ram.setIfInBounds (targetAddress.toNat / 4) temp} := by
  have start : topBits write_byte_start num_bits_write_byte_start = writeStart := by decide
  have stop : topBits write_byte_end num_bits_write_byte_end = frameEnd := by decide
  have address : (topBits targetAddress num_bits_address_length).length = 6 := topBitsLength _ _
  have front : (writeStart ++ topBits targetAddress num_bits_address_length).length = 11 := by
    rw [List.length_append,address]
    rfl
  rw [start,stop]
  obtain ⟨_,data,last⟩ := dataFrame _ front temp frameEnd
  have five : (writeStart ++ topBits targetAddress num_bits_address_length ++
      (topBits temp num_bits_data_length ++ frameEnd)).take 5 = writeStart := by
    rw [List.append_assoc]
    exact List.take_left' rfl
  have six : addressOf (writeStart ++ topBits targetAddress num_bits_address_length ++
      (topBits temp num_bits_data_length ++ frameEnd)) = targetAddress.toNat / 4 := by
    rw [addressOf,List.append_assoc,List.drop_left' (by rfl),List.take_left' address]
    exact addressValue targetAddress
  rw [Chip.execute,if_pos ⟨five,last⟩,six]
  exact congrArg (fun v => ({c with ram := c.ram.setIfInBounds _ v} : Chip)) data

theorem selectBits : bitsOf set_block_number num_bits_set_block_number = blockSelect := by
  rw [bitsOfTake _ (by decide)]
  decide

theorem selectFrame (c : Chip) (blockNumber : UInt8) :
    c.execute (blockSelect ++ (topBits blockNumber 8 ++ frameEnd)) = {c with block := blockNumber} := by
  obtain ⟨front,data,last⟩ := dataFrame blockSelect rfl blockNumber frameEnd
  have five : (blockSelect ++ (topBits blockNumber 8 ++ frameEnd)).take 5 ≠ writeStart := by
    have whole : (blockSelect ++ (topBits blockNumber 8 ++ frameEnd)).take 5 = blockSelect.take 5 := rfl
    rw [whole]
    decide
  rw [Chip.execute,if_neg (fun both => five both.1),if_pos ⟨front,last⟩,data]

end Frames

section Load
variable (lows highs : Nat → Nat) {c : Chip}

/-- A frame that is not one a vector ends with. -/
theorem frameSent (aligned : Aligned c) (front : List Bool) (size : front.length = 11)
    (other : front ≠ closing.take 11) (v : UInt8) {last : List Bool} (three : last.length = 3) :
    seen (chipWire lows highs) c (front ++ (topBits v 8 ++ last)) = c.frameDone (front ++ (topBits v 8 ++ last)) ∧
    Aligned (c.frameDone (front ++ (topBits v 8 ++ last))) := by
  have whole : (front ++ (topBits v 8 ++ last)).length = FRAME_BITS := by
    rw [List.length_append,List.length_append,size,topBitsLength,three]
    rfl
  have some : front ++ (topBits v 8 ++ last) ≠ [] := by
    intro none
    rw [none] at whole
    contradiction
  have sent := frameSeen lows highs aligned.phase _ some (by rw [aligned.bits]; exact whole)
  rw [aligned.bits,List.nil_append] at sent
  refine ⟨sent,frameDoneAligned (fun same => other ?_)⟩
  rw [← same,List.take_left' size]

theorem writeAt (aligned : Aligned c) (targetAddress temp : UInt8) :
    Triple (Driving c) (writeByte (chipWire lows highs) targetAddress temp)
      (fun _ s => ∃ c', (Aligned c' ∧ c'.ram = c.ram.setIfInBounds (targetAddress.toNat / 4) temp ∧
        c'.flash = c.flash ∧ c'.block = c.block) ∧ Driving c' s) := by
  have size : (topBits write_byte_start num_bits_write_byte_start ++
      topBits targetAddress num_bits_address_length).length = 11 := by
    rw [List.length_append,topBitsLength,topBitsLength]
    rfl
  have other : topBits write_byte_start num_bits_write_byte_start ++ topBits targetAddress num_bits_address_length ≠
      closing.take 11 := by
    intro same
    have five := congrArg (List.take 5) same
    rw [List.take_left' (show (topBits write_byte_start num_bits_write_byte_start).length = 5 from rfl)] at five
    exact absurd five (by decide)
  obtain ⟨sent,aligned'⟩ := frameSent lows highs aligned _ size other temp
    (topBitsLength write_byte_end num_bits_write_byte_end)
  refine weakenPost (following (byteSendAt _ _ _ _) (following (byteSendAt _ _ _ _) (following (byteSendAt _ _ _ _)
    (byteSendAt _ _ _ _)))) (fun _ s driving => ⟨_,⟨aligned',?_⟩,?_⟩)
  · have wrote := writeFrame c targetAddress temp
    exact ⟨congrArg Chip.ram wrote,(congrArg Chip.flash wrote :),(congrArg Chip.block wrote :)⟩
  · rw [← sent,seenAppend,seenAppend,seenAppend]
    exact driving

theorem takeSet {α : Type} {l : List α} {i : Nat} (inside : i < l.length) (v : α) :
    (l.set i v).take (i + 1) = l.take i ++ [v] := by
  rw [List.take_succ_eq_append_getElem (by rwa [List.length_set]),List.getElem_set_self,List.take_set_of_le (Nat.le_refl i)]

/-- After the loop the RAM holds the data from the first address on. -/
theorem loadAt (aligned : Aligned c) {i : Nat} {data : Bytes} (fits : i + data.length = TARGET_DATABUFF_LEN)
    {targetAddress : UInt8} (place : targetAddress = UInt8.ofNat (4 * i)) (checksum : UInt16) :
    Triple (Driving c) (loadBytes (chipWire lows highs) data targetAddress checksum)
      (fun _ s => ∃ c', (Aligned c' ∧ c'.ram.toList = c.ram.toList.take i ++ data ∧ c'.flash = c.flash) ∧
        Driving c' s) := by
  induction data generalizing c i targetAddress checksum with
  | nil =>
    have all : c.ram.toList.take i = c.ram.toList := List.take_of_length_le (by simp at fits ⊢; omega)
    exact done (fun _ holds => ⟨c,⟨aligned,by rw [all,List.append_nil],rfl⟩,holds⟩)
  | cons temp rest ih =>
    have room : i < TARGET_DATABUFF_LEN := by
      rw [List.length_cons] at fits
      omega
    have at_i : targetAddress.toNat / 4 = i := by
      simp only [TARGET_DATABUFF_LEN] at room
      rw [place,UInt8.toNat_ofNat']
      omega
    refine andThen (writeAt lows highs aligned targetAddress temp) (fun _ => existing (fun c' => supposing ?_))
    rintro ⟨aligned',ram,flash,_⟩
    have next : targetAddress + 4 = UInt8.ofNat (4 * (i + 1)) := by rw [place,addressNext]
    refine weakenPost (ih aligned' (by rw [List.length_cons] at fits; omega) next _) ?_
    rintro _ s ⟨c'',⟨aligned'',ram',flash'⟩,driving⟩
    refine ⟨c'',⟨aligned'',?_,flash'.trans flash⟩,driving⟩
    rw [ram',ram,at_i,Vector.toList_setIfInBounds,takeSet (by simpa using room),List.append_assoc]
    rfl

theorem selectAt (aligned : Aligned c) {drive : Option Bool} (blockNumber : UInt8) :
    Triple (At drive false c) (selectBlock (chipWire lows highs) blockNumber)
      (fun _ s => ∃ c', (Aligned c' ∧ c'.ram = c.ram ∧ c'.flash = c.flash ∧ c'.block = blockNumber) ∧
        Driving c' s) := by
  obtain ⟨sent,aligned'⟩ := frameSent lows highs aligned blockSelect rfl (by decide) blockNumber
    (show frameEnd.length = 3 from rfl)
  have last : topBits set_block_number_end num_bits_set_block_number_end = frameEnd := by decide
  refine weakenPost (following (vectorSendAt _ _ _ _) (following (ppAt _) (following (byteSendAt _ _ _ _)
    (byteSendAt _ _ _ _)))) (fun _ s driving => ⟨_,⟨aligned',?_⟩,?_⟩)
  · have wrote := selectFrame c blockNumber
    exact ⟨(congrArg Chip.ram wrote :),(congrArg Chip.flash wrote :),(congrArg Chip.block wrote :)⟩
  · rw [← sent,seenAppend,seenAppend,← selectBits,← last]
    exact driving

end Load
section Read
variable (lows highs : Nat → Nat) {c : Chip}

theorem fallBit (phase : c.phase = .frames) (few : c.bits.length + 1 < FRAME_BITS) (level : Option Bool) :
    (chipWire lows highs).fall level c = {c with bits := c.bits ++ [level.getD false]} := by
  have more : ¬ (c.bits ++ [level.getD false]).length = FRAME_BITS := by
    rw [List.length_append,List.length_singleton]
    omega
  rw [fallFrames lows highs phase,if_neg more]

/- What is asked for is settled by the first eleven bits. -/
theorem askedMore {bits : List Bool} (many : 11 ≤ bits.length) (more : List Bool) :
    ({c with bits := bits ++ more} : Chip).asked = ({c with bits := bits} : Chip).asked := by
  have five : (bits ++ more).take 5 = bits.take 5 := List.take_append_of_le_length (by omega)
  have eleven : (bits ++ more).take 11 = bits.take 11 := List.take_append_of_le_length many
  have address : addressOf (bits ++ more) = addressOf bits := by
    rw [addressOf,addressOf,List.drop_append_of_le_length (by omega),
      List.take_append_of_le_length (by rw [List.length_drop]; omega)]
  simp only [Chip.asked,five,eleven,address]

/- The value of the samples taken so far. -/
def shifted (currByte : UInt8) (bits : List Bool) : UInt8 :=
  bits.foldl (fun currByte bit => (currByte <<< 1) + if bit then 0x01 else 0x00) currByte

theorem shiftedByte (v : UInt8) : shifted 0x00 (topBits v 8) = v :=
  Ascii.forallByte (p := fun v => shifted 0x00 (topBits v 8) = v) (by decide +kernel) v

theorem receivedHeard {δ : Type} (W : Wire δ) (b : Nat) (sclk : Bool) (currByte : UInt8) (d : δ) :
    (received W b sclk currByte d).1 = shifted currByte (heard W b sclk d) := by
  induction b generalizing sclk currByte d with
  | zero => rfl
  | succ b ih => rw [received,heard,ih,shifted,shifted,List.foldl_cons]

theorem sampledAt (phase : c.phase = .frames) {bits : List Bool} (size : bits.length = 13) {v : UInt8}
    (asked : ({c with bits := bits} : Chip).asked = some v) (k : Nat) :
    (chipWire lows highs).sense {c with bits := bits ++ List.replicate k false} =
      ((topBits v 8).getD k false,{c with bits := bits ++ List.replicate k false}) := by
  have length : (bits ++ List.replicate k false).length = 13 + k := by
    rw [List.length_append,List.length_replicate,size]
  have same := (askedMore (c := c) (by omega) (List.replicate k false)).trans asked
  have answer : ({c with bits := bits ++ List.replicate k false} : Chip).answer = (topBits v 8).getD k false := by
    rw [Chip.answer,same]
    simp only [length,Nat.le_add_right,if_true,Option.getD_some,Nat.add_sub_cancel_left]
  rw [← answer]
  cases c; cases phase; rfl

theorem receivedRest (phase : c.phase = .frames) {bits : List Bool} (size : bits.length = 13) {v : UInt8}
    (asked : ({c with bits := bits} : Chip).asked = some v) {n k : Nat} (left : k + n = 7) (currByte : UInt8) :
    received (chipWire lows highs) n true currByte {c with bits := bits ++ List.replicate k false} =
      (shifted currByte ((topBits v 8).drop (k + 1)),{c with bits := bits ++ List.replicate 7 false}) := by
  induction n generalizing k currByte with
  | zero =>
    have none : (topBits v 8).drop (k + 1) = [] := List.drop_of_length_le (by rw [topBitsLength]; omega)
    rw [received,none,show k = 7 by omega]
    rfl
  | succ n ih =>
    have fell := fallBit lows highs (c := {c with bits := bits ++ List.replicate k false}) phase (by
      simp only [List.length_append,List.length_replicate,size,FRAME_BITS]
      omega) none
    have grown : bits ++ List.replicate k false ++ [false] = bits ++ List.replicate (k + 1) false := by
      rw [List.append_assoc,List.replicate_succ']
    rw [Option.getD_none,grown] at fell
    have sample := sampledAt lows highs phase size asked (k + 1)
    have inside : k + 1 < (topBits v 8).length := by
      rw [topBitsLength]
      omega
    have bit : (topBits v 8).getD (k + 1) false = (topBits v 8)[k + 1] := by
      rw [List.getD_eq_getElem?_getD,List.getElem?_eq_getElem inside,Option.getD_some]
    rw [received,sampled,if_pos rfl,fell,sample,ih (by omega),List.drop_eq_getElem_cons inside,bit]
    rfl

/-- Eight samples and the seven falling edges between them. -/
theorem receivedByte (phase : c.phase = .frames) (size : c.bits.length = 13) {v : UInt8} (asked : c.asked = some v) :
    received (chipWire lows highs) 8 false 0x00 c = (v,{c with bits := c.bits ++ List.replicate 7 false}) := by
  have rest := receivedRest lows highs phase size asked (n := 7) (k := 0) rfl
  have first : (chipWire lows highs).sense c = ((topBits v 8).getD 0 false,c) := by
    have sample := sampledAt lows highs phase size asked 0
    rwa [List.replicate_zero,List.append_nil] at sample
  rw [List.replicate_zero,List.append_nil] at rest
  have inside : 0 < (topBits v 8).length := by rw [topBitsLength]; decide
  have bit : (topBits v 8).getD 0 false = (topBits v 8)[0] := by
    rw [List.getD_eq_getElem?_getD,List.getElem?_eq_getElem inside,Option.getD_some]
  have whole := shiftedByte v
  rw [← List.drop_zero (l := topBits v 8),List.drop_eq_getElem_cons inside,← bit,shifted,List.foldl_cons,
    ← shifted] at whole
  have one : sampled (chipWire lows highs) false c = ((topBits v 8).getD 0 false,c) := first
  rw [received,one,rest,whole]

/- A frame that asks for a byte writes nothing and is the last of no vector. -/
theorem askedQuiet {v : UInt8} (asked : c.asked = some v) :
    c.bits.take 5 ≠ writeStart ∧ c.bits.take 11 ≠ blockSelect ∧ c.bits.take 11 ≠ closing.take 11 := by
  have five : ∀ front : List Bool, c.bits.take 11 = front → c.bits.take 5 = front.take 5 := by
    rintro _ rfl
    rw [List.take_take]
    rfl
  rw [Chip.asked] at asked
  split at asked
  · rename_i reads
    refine ⟨by rw [reads]; decide,fun same => ?_,fun same => ?_⟩
    · exact absurd (reads.symm.trans (five _ same)) (by decide)
    · exact absurd (reads.symm.trans (five _ same)) (by decide)
  · split at asked
    · rename_i high
      exact ⟨by rw [five _ high]; decide,by rw [high]; decide,by rw [high]; decide⟩
    · split at asked
      · rename_i low
        exact ⟨by rw [five _ low]; decide,by rw [low]; decide,by rw [low]; decide⟩
      · contradiction

/-- The two clocks between the question and the answer. -/
theorem clocksAt (phase : c.phase = .frames) (size : c.bits.length = 11) {drive : Option Bool} {α : Type}
    {next : Driver Chip α} {post : α → Bus Chip → Prop}
    (later : ∀ between, between.length = 2 → Triple (At drive false {c with bits := c.bits ++ between}) next post) :
    Triple (At drive false c) (do
      clock (chipWire lows highs)
      clock (chipWire lows highs)
      next) post := by
  refine following (clockAt _) (following (clockAt _) ?_)
  have first := fallBit lows highs phase (by rw [size]; decide) drive
  have second := fallBit lows highs (c := {c with bits := c.bits ++ [drive.getD false]}) phase (by
    rw [List.length_append,size,List.length_singleton]
    decide) drive
  rw [first,second,List.append_assoc]
  exact later _ rfl

/-- The answer and the clock after it. -/
theorem answerAt (phase : c.phase = .frames) (size : c.bits.length = 13) {v : UInt8} (asked : c.asked = some v)
    {α : Type} {next : UInt8 → Driver Chip α} {post : α → Bus Chip → Prop}
    (later : Triple (At none false {c with bits := c.bits ++ List.replicate 8 false}) (next v) post) :
    Triple (At none false c) (do
      let byte ← byteReceive (chipWire lows highs)
      clock (chipWire lows highs)
      next byte) post := by
  refine andThen (byteReceiveAt _ _) (fun byte => supposing ?_)
  rw [receivedByte lows highs phase size asked]
  rintro rfl
  refine following (lastClockAt _ _) ?_
  have fell := fallBit lows highs (c := {c with bits := c.bits ++ List.replicate 7 false}) phase (by
    rw [List.length_append,size]
    decide) none
  rw [fell,Option.getD_none,List.append_assoc]
  exact later

/- One more bit ends such a frame. -/
theorem readDone (phase : c.phase = .frames) (size : c.bits.length = 21) {v : UInt8} (asked : c.asked = some v)
    (bit : Bool) : ∃ c', seen (chipWire lows highs) c [bit] = c' ∧ Aligned c' ∧ Kept c c' := by
  obtain ⟨write,_,other⟩ := askedQuiet asked
  have whole : (c.bits ++ [bit]).length = FRAME_BITS := by
    rw [List.length_append,size]
    rfl
  have five : (c.bits ++ [bit]).take 5 = c.bits.take 5 := List.take_append_of_le_length (by omega)
  have eleven : (c.bits ++ [bit]).take 11 = c.bits.take 11 := List.take_append_of_le_length (by omega)
  refine ⟨_,frameSeen lows highs phase [bit] (List.cons_ne_nil _ _) whole,frameDoneAligned (fun same => other ?_),
    quietDone (by rwa [five])⟩
  rw [← eleven,same]

theorem readBits : bitsOf read_byte_v num_bits_read_byte_start = readStart := by
  rw [bitsOfTake _ (by decide)]
  decide

theorem oneBit : bitsOf (read_byte_v.drop 1) num_bits_read_byte_end = [true] := by
  rw [bitsOfTake _ (by decide)]
  decide

theorem readAt (aligned : Aligned c) {i : Nat} (inside : i < TARGET_DATABUFF_LEN) {targetAddress : UInt8}
    (place : targetAddress = UInt8.ofNat (4 * i)) :
    Triple (At none false c) (readByte (chipWire lows highs) targetAddress)
      (fun byte s => ∃ c', (byte = c.ram[i] ∧ Aligned c' ∧ Kept c c') ∧ At none false c' s) := by
  have length : (readStart ++ topBits targetAddress num_bits_address_length).length = 11 := by
    rw [List.length_append,topBitsLength]
    rfl
  have address : (topBits targetAddress num_bits_address_length).length = 6 := topBitsLength _ _
  have index : addressOf (readStart ++ topBits targetAddress num_bits_address_length) = i := by
    have six : value (topBits targetAddress num_bits_address_length) = targetAddress.toNat / 4 := addressValue targetAddress
    rw [addressOf,List.drop_left' (by rfl),List.take_of_length_le (by omega),six,place,UInt8.toNat_ofNat']
    simp only [TARGET_DATABUFF_LEN] at inside
    omega
  have asked : ({c with bits := readStart ++ topBits targetAddress num_bits_address_length} : Chip).asked =
      some c.ram[i] := by
    have five : (readStart ++ topBits targetAddress num_bits_address_length).take 5 = readStart := List.take_left' rfl
    rw [Chip.asked,if_pos five,index,Vector.getElem?_eq_getElem inside]
    rfl
  have question := bitsSeen lows highs aligned.phase (readStart ++ topBits targetAddress num_bits_address_length) (by
    rw [aligned.bits,List.nil_append,length]
    decide)
  rw [aligned.bits,List.nil_append,seenAppend] at question
  refine following (vectorSendAt _ _ _ _) (following (ppAt _) (following (byteSendAt _ _ _ _) (existing (fun _ => ?_))))
  rw [readBits,question]
  refine clocksAt lows highs (c := {c with bits := readStart ++ topBits targetAddress num_bits_address_length})
    aligned.phase length (fun between two => following (hiZAt _) ?_)
  have asked' := (askedMore (c := c) (by omega) between).trans asked
  refine answerAt lows highs (c := {c with bits := readStart ++ topBits targetAddress num_bits_address_length ++ between})
    aligned.phase (by rw [List.length_append,length,two]) asked' ?_
  refine following (vectorSendAt _ _ _ _) (done (fun s holds => ?_))
  rw [oneBit] at holds
  have asked'' := (askedMore (c := c) (by rw [List.length_append]; omega) (List.replicate 8 false)).trans asked'
  obtain ⟨c',done,aligned',kept⟩ := readDone lows highs (c := {c with
      bits := readStart ++ topBits targetAddress num_bits_address_length ++ between ++ List.replicate 8 false})
    aligned.phase (by simp only [List.length_append] at length ⊢; simp [length,two]) asked'' true
  rw [done] at holds
  exact ⟨c',⟨rfl,aligned',⟨kept.ram,kept.flash,kept.checksum,kept.shakes⟩⟩,holds⟩

/-- After the loop the RAM is as it was and has been compared with the data. -/
theorem compareAt (aligned : Aligned c) {i : Nat} {data : Bytes} (fits : i + data.length = TARGET_DATABUFF_LEN)
    {targetAddress : UInt8} (place : targetAddress = UInt8.ofNat (4 * i)) :
    Triple (At none false c) (verifyBytes (chipWire lows highs) data targetAddress)
      (fun failed s => ∃ c', (failed = decide (c.ram.toList.drop i ≠ data) ∧ Aligned c' ∧ Kept c c') ∧
        At none false c' s) := by
  induction data generalizing c i targetAddress with
  | nil =>
    have none : c.ram.toList.drop i = [] := List.drop_of_length_le (by simp at fits ⊢; omega)
    exact done (fun _ holds => ⟨c,⟨by simp [none],aligned,⟨rfl,rfl,rfl,rfl⟩⟩,holds⟩)
  | cons expected rest ih =>
    have inside : i < TARGET_DATABUFF_LEN := by
      rw [List.length_cons] at fits
      omega
    have here : c.ram.toList.drop i = c.ram[i] :: c.ram.toList.drop (i + 1) := by
      rw [List.drop_eq_getElem_cons (by simpa using inside),Vector.getElem_toList]
    have next : targetAddress + 4 = UInt8.ofNat (4 * (i + 1)) := by rw [place,addressNext]
    refine andThen (readAt lows highs aligned inside place) (fun byte => existing (fun c' => supposing ?_))
    rintro ⟨rfl,aligned',kept⟩
    refine branch (fun differs => done (fun _ holds => ⟨c',⟨?_,aligned',kept⟩,holds⟩)) (fun same => ?_)
    · simp [here,differs]
    · refine weakenPost (ih aligned' (by rw [List.length_cons] at fits; omega) next) ?_
      rintro _ s ⟨c'',⟨rfl,aligned'',kept'⟩,holds⟩
      refine ⟨c'',⟨?_,aligned'',keptTrans kept kept'⟩,holds⟩
      simp [here,Decidable.not_not.mp same,kept.ram]

/-- The clocks, the answer and the clock after it; the frame lacks one bit then. -/
theorem checksumByteAt (phase : c.phase = .frames) {v : UInt8} {bits : List Bool} (size : bits.length = 11)
    (asked : ({c with bits := bits} : Chip).asked = some v) {α : Type} {next : UInt8 → Driver Chip α}
    {post : α → Bus Chip → Prop}
    (later : ∀ bits, bits.length = 21 → ({c with bits := bits} : Chip).asked = some v →
      Triple (At none false {c with bits := bits}) (next v) post) :
    Triple (At none false {c with bits := bits}) (do
      clock (chipWire lows highs)
      clock (chipWire lows highs)
      let byte ← byteReceive (chipWire lows highs)
      clock (chipWire lows highs)
      next byte) post := by
  refine clocksAt lows highs (c := {c with bits := bits}) phase size (fun between two => ?_)
  have asked' := (askedMore (c := c) (by omega) between).trans asked
  refine answerAt lows highs (c := {c with bits := bits ++ between}) phase
    (by rw [List.length_append,size,two]) asked' ?_
  refine later _ ?_ ((askedMore (c := c) (by rw [List.length_append]; omega) (List.replicate 8 false)).trans asked')
  rw [List.length_append,List.length_append,size,two,List.length_replicate]

theorem halves (v : UInt16) : (0x0000 : UInt16) + ((v >>> 8).toUInt8.toUInt16 <<< 8) + v.toUInt8.toUInt16 = v := by
  apply UInt16.toNat.inj
  have small := v.toNat_lt
  simp only [UInt16.toNat_add,UInt16.toNat_shiftLeft,UInt8.toNat_toUInt16,UInt16.toNat_toUInt8,UInt16.toNat_shiftRight]
  simp [Nat.shiftRight_eq_div_pow,Nat.shiftLeft_eq]
  omega

theorem highBits : bitsOf read_checksum_v 11 = checksumHigh := by
  rw [bitsOfTake _ (by decide)]
  decide

theorem lowBits : bitsOf (read_checksum_v.drop 2) 12 = [true] ++ checksumLow := by
  rw [bitsOfTake _ (by decide)]
  decide

theorem endBits : bitsOf (read_checksum_v.drop 3) 1 = [true] := by
  rw [bitsOfTake _ (by decide)]
  decide

/- The bits that are sent once the checksum is there: the end of the first frame is sent
with the start of the second one. -/
theorem checksumReadAt (aligned : Aligned c) : Triple (At none false c) (do
      vectorSend (chipWire lows highs) read_checksum_v 11
      clock (chipWire lows highs)
      clock (chipWire lows highs)
      let high ← byteReceive (chipWire lows highs)
      clock (chipWire lows highs)
      vectorSend (chipWire lows highs) (read_checksum_v.drop 2) 12
      clock (chipWire lows highs)
      clock (chipWire lows highs)
      let low ← byteReceive (chipWire lows highs)
      clock (chipWire lows highs)
      vectorSend (chipWire lows highs) (read_checksum_v.drop 3) 1
      return some ((0x0000 : UInt16) + (high.toUInt16 <<< 8) + low.toUInt16))
    (fun sum s => ∃ c', (sum = some c.checksum ∧ Aligned c' ∧ Kept c c') ∧ At none false c' s) := by
  have start := bitsSeen lows highs aligned.phase checksumHigh (by rw [aligned.bits]; decide)
  rw [aligned.bits,List.nil_append] at start
  refine following (vectorSendAt _ _ _ _) ?_
  rw [highBits,start]
  refine checksumByteAt lows highs aligned.phase rfl rfl (fun bits size asked => ?_)
  obtain ⟨c',done,aligned',kept⟩ := readDone lows highs (c := {c with bits := bits}) aligned.phase size asked true
  have second := bitsSeen lows highs aligned'.phase checksumLow (by rw [aligned'.bits]; decide)
  rw [aligned'.bits,List.nil_append] at second
  refine following (vectorSendAt _ _ _ _) ?_
  rw [lowBits,seenAppend,done,second]
  refine checksumByteAt lows highs aligned'.phase rfl rfl (fun bits' size' asked' => ?_)
  obtain ⟨c'',done',aligned'',kept'⟩ := readDone lows highs (c := {c' with bits := bits'}) aligned'.phase size' asked' true
  refine following (vectorSendAt _ _ _ _) (Triples.done (fun s holds => ?_))
  rw [endBits,done'] at holds
  have whole := halves c.checksum
  have same : c'.checksum = c.checksum := kept.checksum
  refine ⟨c'',⟨?_,aligned'',?_⟩,holds⟩
  · rw [same,whole]
  · exact keptTrans (show Kept c c' from ⟨kept.ram,kept.flash,kept.checksum,kept.shakes⟩)
      ⟨kept'.ram,kept'.flash,kept'.checksum,kept'.shakes⟩

end Read
section Flash
/- The flash as rows of bytes, and a target between two operations. -/
def rows (c : Chip) : List Bytes := c.flash.toList.map (fun row => row.toList)

def Holding (flash : List Bytes) (s : Bus Chip) : Prop := ∃ c, (Aligned c ∧ rows c = flash) ∧ At none false c s

variable {lows highs : Nat → Nat}

theorem rowsProgram (c : Chip) : rows (c.perform .program) = (rows c).set c.block.toNat c.ram.toList := by
  rw [rows,rows,Chip.perform,Vector.toList_setIfInBounds,List.map_set]

theorem rowsChecksum (c : Chip) : sumOf c.flash = CommandLoop.sum (rows c).flatten := by
  rw [sumOf,rows,List.flatMap_def]

theorem rowAt (c : Chip) (k : Nat) : (rows c)[k]? = (c.flash[k]?).map (fun row => row.toList) := by
  rw [rows,List.getElem?_map,Vector.getElem?_toList]

/-- Loading and programming a block writes its row. -/
theorem programmed (inTime : InTime lows highs) (flash : List Bytes) {data : Bytes}
    (size : data.length = TARGET_DATABUFF_LEN) (k : UInt8) :
    Triple (Holding flash) (targetLoad (chipWire lows highs) data >>= fun _ => targetBlockProgram (chipWire lows highs) k)
      (fun failed s => failed = false ∧ Holding (flash.set k.toNat data) s) := by
  refine existing (fun c => supposing ?_)
  rintro ⟨aligned,rfl⟩
  have fits : 0 + data.length = TARGET_DATABUFF_LEN := by rw [Nat.zero_add,size]
  refine andThen (following (ppAt _) (loadAt lows highs aligned fits rfl 0x0000))
    (fun _ => existing (fun loaded => supposing ?_))
  rintro ⟨alignedLoaded,ram,same⟩
  refine following (existing (fun _ => selectAt lows highs alignedLoaded k)) (existing (fun selected => supposing ?_))
  rintro ⟨alignedSelected,kept,kept',block⟩
  refine existing (fun _ => shakeAt lows highs inTime alignedSelected .program (fun c' after => done (fun s holds => ?_)))
  refine ⟨rfl,c',⟨after.aligned,?_⟩,holds⟩
  have row : selected.ram.toList = data := by rw [kept,ram,List.take_zero,List.nil_append]
  have written := rowsProgram selected
  rw [block,row] at written
  rw [rows,after.flash,← rows,written,rows,kept',same,← rows]

/-- Verifying a block compares it with its row. -/
theorem verified (inTime : InTime lows highs) (flash : List Bytes) {data row : Bytes}
    (size : data.length = TARGET_DATABUFF_LEN) {k : UInt8} (there : flash[k.toNat]? = some row) :
    Triple (Holding flash) (targetBlockVerify (chipWire lows highs) k data)
      (fun failed s => failed = decide (row ≠ data) ∧ Holding flash s) := by
  refine existing (fun c => supposing ?_)
  rintro ⟨aligned,rfl⟩
  refine following (selectAt lows highs aligned k) (existing (fun selected => supposing ?_))
  rintro ⟨alignedSelected,_,kept,block⟩
  refine existing (fun _ => shakeAt lows highs inTime alignedSelected .verify (fun c' after => ?_))
  rw [rowAt,Option.map_eq_some_iff] at there
  obtain ⟨stored,there,rfl⟩ := there
  have ram : c'.ram = stored := by
    rw [after.ram,Chip.perform,block,kept,there]
    rfl
  have same : rows c' = rows c := by
    rw [rows,after.flash,rows,← kept]
    rfl
  have fits : 0 + data.length = TARGET_DATABUFF_LEN := by rw [Nat.zero_add,size]
  refine weakenPost (compareAt lows highs after.aligned fits rfl) ?_
  rintro _ s ⟨c'',⟨rfl,aligned'',kept''⟩,holds⟩
  refine ⟨?_,c'',⟨aligned'',?_⟩,holds⟩
  · rw [List.drop_zero,ram]
  · rw [rows,kept''.flash,← rows,same]

/-- The checksum that is read is the sum of the flash. -/
theorem summed (inTime : InTime lows highs) (flash : List Bytes) :
    Triple (Holding flash) (targetBankChecksumGet (chipWire lows highs) 0x0000)
      (fun sum s => sum = some (CommandLoop.sum flash.flatten) ∧ Holding flash s) := by
  refine existing (fun c => supposing ?_)
  rintro ⟨aligned,rfl⟩
  refine shakeAt lows highs inTime aligned .checksum (fun c' after => ?_)
  refine weakenPost (checksumReadAt lows highs after.aligned) ?_
  rintro _ s ⟨c'',⟨rfl,aligned'',kept⟩,holds⟩
  refine ⟨?_,c'',⟨aligned'',?_⟩,holds⟩
  · rw [after.checksum,← rowsChecksum]
    rfl
  · rw [rows,kept.flash,after.flash]
    rfl

end Flash
end HsspProgrammer.ChipOperations
