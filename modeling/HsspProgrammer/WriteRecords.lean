import HsspProgrammer.ChipOperations
import Mathlib.Algebra.Ring.Nat

/-! The records that put the block buffer into the RAM of the target, bit by bit, and
what a receiver of them gets. -/
namespace HsspProgrammer.WriteRecords
open Ascii (Bytes)
open CommandLoop (TARGET_DATABUFF_LEN SECURITY_BYTES_PER_BANK)
open Pins Issp Triples Clocking Frames TargetChip
open ChipOperations (pollEnd)

def writeRecord (address : Nat) (byte : UInt8) : List Bool :=
  writeStart ++ binary 6 address ++ (binary 8 byte.toNat ++ frameEnd)

def writeRecords (data : Bytes) : List (List Bool) := data.mapIdx writeRecord

/- What a receiver of one frame takes it for. -/
def decode (frame : List Bool) : Option (Nat × UInt8) :=
  if frame.take 5 = writeStart ∧ frame.drop 19 = frameEnd then some (addressOf frame,dataOf frame) else none

theorem foldBinary (width n m : Nat) :
    (binary width n).foldl (fun n bit => 2 * n + bit.toNat) m = m * 2 ^ width + n % 2 ^ width := by
  induction width generalizing m with
  | zero => simp [binary,Nat.mod_one]
  | succ width ih =>
    have high : n % 2 ^ (width + 1) = n % 2 ^ width + 2 ^ width * (n.testBit width).toNat := by
      rw [Nat.toNat_testBit,Nat.mod_pow_succ]
    rw [binary,List.foldl_cons,ih,high,Nat.add_mul,Nat.pow_succ,Nat.mul_comm 2 m,Nat.mul_assoc,Nat.mul_comm 2,
      Nat.mul_comm (n.testBit width).toNat]
    omega

theorem valueBinary {width n : Nat} (fits : n < 2 ^ width) : value (binary width n) = n := by
  rw [value,foldBinary,Nat.zero_mul,Nat.zero_add,Nat.mod_eq_of_lt fits]

/- The six highest bits of an address that is kept four times as large. -/
theorem addressBinary {i : Nat} (fits : i < 64) : topBits (UInt8.ofNat (4 * i)) num_bits_address_length = binary 6 i := by
  have all : ∀ i : Fin 64, topBits (UInt8.ofNat (4 * i.val)) num_bits_address_length = binary 6 i.val := by
    decide +kernel
  exact all ⟨i,fits⟩

theorem recordLength (address : Nat) (byte : UInt8) : (writeRecord address byte).length = FRAME_BITS := by
  rw [writeRecord,List.length_append,List.length_append,List.length_append,binaryLength,binaryLength]
  rfl

theorem recordDecoded {address : Nat} (fits : address < 64) (byte : UInt8) :
    decode (writeRecord address byte) = some (address,byte) := by
  have six : (binary 6 address).length = 6 := binaryLength 6 address
  have front : (writeStart ++ binary 6 address).length = 11 := by
    rw [List.length_append,six]
    rfl
  obtain ⟨_,data,last⟩ := ChipOperations.dataFrame _ front byte frameEnd
  rw [byteBinary,← writeRecord] at data last
  have five : (writeRecord address byte).take 5 = writeStart := by
    rw [writeRecord,List.append_assoc]
    exact List.take_left' rfl
  have place : addressOf (writeRecord address byte) = address := by
    have rest : (writeRecord address byte).drop 5 = binary 6 address ++ (binary 8 byte.toNat ++ frameEnd) := by
      rw [writeRecord,List.append_assoc]
      exact List.drop_left' rfl
    rw [addressOf,rest,List.take_left' six,valueBinary fits]
  rw [decode,if_pos ⟨five,last⟩,place,data]

/-- A receiver that cuts the bits into frames gets every byte once, in its place. -/
theorem recordsDecoded {data : Bytes} (fits : data.length ≤ 64) :
    (frames FRAME_BITS (writeRecords data).flatten).map decode = data.mapIdx (fun i byte => some (i,byte)) := by
  have sizes : ∀ record ∈ writeRecords data, record.length = FRAME_BITS := by
    intro record inside
    obtain ⟨i,_,rfl⟩ := List.mem_mapIdx.mp inside
    exact recordLength i _
  have cut : frames FRAME_BITS (writeRecords data).flatten = writeRecords data := by
    have whole := framesFlatten (by decide) sizes []
    rwa [List.append_nil,framesShort (l := []) (by decide),List.append_nil] at whole
  rw [cut,writeRecords]
  refine List.ext_getElem (by simp) (fun i inside _ => ?_)
  have room : i < 64 := by
    simp only [List.length_map,List.length_mapIdx] at inside
    omega
  simp only [List.getElem_map,List.getElem_mapIdx,recordDecoded room]

section Sending
variable {δ : Type} (W : Wire δ) {start : Bus δ} {levels : List (Option Bool)}

theorem writeSince {i : Nat} (fits : i < 64) (temp : UInt8) (d : δ) :
    Triple (Sending start levels d) (writeByte W (UInt8.ofNat (4 * i)) temp)
      (fun _ s => ∃ d', Sending start (levels ++ (writeRecord i temp).map some) d' s) := by
  have begins : topBits write_byte_start num_bits_write_byte_start = writeStart := by decide
  have ends : topBits write_byte_end num_bits_write_byte_end = frameEnd := by decide
  refine weakenPost (following (byteSendSince W _ _ d) (following (byteSendSince W _ _ _)
    (following (byteSendSince W _ _ _) (byteSendSince W _ _ _)))) (fun _ s holds => ⟨s.device,?_⟩)
  obtain ⟨level,since⟩ := holds
  rw [begins,addressBinary fits,ends,show num_bits_data_length = 8 from rfl,byteBinary] at since
  rw [since.device,writeRecord,List.map_append,List.map_append,List.map_append]
  simp only [← List.append_assoc]
  exact ⟨level,since⟩

/- The address steps by four and is at its place whenever a byte is sent; it is 0 again
behind the last one. -/
theorem loadSince {data : Bytes} {i : Nat} (fits : i + data.length ≤ 64) (checksum : UInt16) (d : δ) :
    Triple (Sending start levels d) (loadBytes W data (UInt8.ofNat (4 * i)) checksum) (fun _ s => ∃ d',
      Sending start (levels ++ (data.mapIdx (fun j => writeRecord (i + j))).flatten.map some) d' s) := by
  induction data generalizing i levels checksum d with
  | nil => exact done (fun s holds => ⟨d,(List.append_nil levels).symm ▸ holds⟩)
  | cons temp rest ih =>
    rw [List.length_cons] at fits
    have later : (rest.mapIdx fun j => writeRecord (i + (j + 1))) = rest.mapIdx fun j => writeRecord (i + 1 + j) := by
      simp only [Nat.add_assoc,Nat.add_comm 1]
    refine andThen (writeSince W (by omega) temp d) (fun _ => existing (fun d' => ?_))
    rw [addressNext,List.mapIdx_cons,List.flatten_cons,List.map_append,← List.append_assoc,later]
    exact ih (by omega) _ d'

theorem securityLoad (data : Bytes) (targetAddress : UInt8) (checksum : UInt16) (s : Bus δ) :
    (securityBytes W data targetAddress s).2 = (loadBytes W data targetAddress checksum s).2 := by
  induction data generalizing targetAddress checksum s with
  | nil => rfl
  | cons temp rest ih => rw [securityBytes,loadBytes,bindRun,bindRun,ih]

theorem recordsSince (data : Bytes) (fits : data.length ≤ 64) {drive : Option Bool} (checksum : UInt16) (d : δ) :
    Triple (Since start drive false [] d) (sdataPP W >>= fun _ => loadBytes W data 0x00 checksum)
      (fun _ s => ∃ d', Sending start ((writeRecords data).flatten.map some) d' s) := by
  have sent : Triple (Sending start [] d) (loadBytes W data (UInt8.ofNat (4 * 0)) checksum) _ :=
    loadSince W (by omega) checksum d
  simp only [Nat.zero_add,List.nil_append] at sent
  exact following (ppSince W) sent

end Sending

theorem sumExact (data : Bytes) : (CommandLoop.sum data).toNat = (data.map UInt8.toNat).sum % 2 ^ 16 := by
  induction data with
  | nil => rfl
  | cons temp rest ih =>
    have first : CommandLoop.sum (temp :: rest) = temp.toUInt16 + CommandLoop.sum rest := by
      rw [CommandLoop.sum,List.foldl_cons,CommandLoop.sumFrom,UInt16.zero_add]
    rw [first,UInt16.toNat_add,ih,List.map_cons,List.sum_cons,UInt8.toNat_toUInt16]
    omega

theorem sumBound (data : Bytes) : (data.map UInt8.toNat).sum ≤ 255 * data.length := by
  induction data with
  | nil => exact Nat.le_refl 0
  | cons temp rest ih =>
    have small := temp.toNat_lt
    rw [List.map_cons,List.sum_cons,List.length_cons]
    omega

section Encoding
variable {δ : Type} (W : Wire δ)

/- The bits of one buffer, and what a receiver gets from them. -/
structure Encodes (data : Bytes) (bits : List Bool) : Prop where
  records : bits = (data.mapIdx writeRecord).flatten
  many : bits.length = FRAME_BITS * data.length
  decoded : (frames FRAME_BITS bits).map decode = data.mapIdx (fun i byte => some (i,byte))

theorem recordsEncode {data : Bytes} (fits : data.length ≤ 64) : Encodes data (writeRecords data).flatten := by
  refine ⟨rfl,?_,recordsDecoded fits⟩
  have sizes : (writeRecords data).map List.length = List.replicate data.length FRAME_BITS := by
    refine List.eq_replicate_iff.mpr ⟨by simp [writeRecords],fun size inside => ?_⟩
    obtain ⟨record,among,rfl⟩ := List.mem_map.mp inside
    obtain ⟨i,_,rfl⟩ := List.mem_mapIdx.mp among
    exact recordLength i _
  rw [List.length_flatten,sizes,List.sum_replicate_nat,Nat.mul_comm]

theorem loadShown {data : Bytes} (fits : data.length ≤ 64) {s : Bus δ} (low : s.port.sclk = false) :
    Shown s (targetLoad W data s).2 ((writeRecords data).flatten.map some) := by
  obtain ⟨_,_,since⟩ := recordsSince W data fits 0x0000 _ s (sinceLow low)
  exact sinceShown low since

theorem loadExact {data : Bytes} (fits : data.length ≤ 64) (s : Bus δ) :
    (targetLoad W data s).1.toNat = (data.map UInt8.toNat).sum := by
  have small := sumBound data
  have wrapped := sumExact data
  have total : (targetLoad W data s).1 = CommandLoop.sum data := loadSum W data 0x00 0x0000 _
  rw [total,wrapped]
  omega

/- The writes of the security bytes are those of `targetLoad`. -/
theorem flashRun (targetDataOUT : Bytes) (s : Bus δ) : targetSecurityFlash W targetDataOUT s =
    shake W security_v num_bits_security
      ((sdataPP W >>= fun _ => loadBytes W (targetDataOUT.take SECURITY_BYTES_PER_BANK) 0x00 0x0000) s).2 := by
  rw [targetSecurityFlash,bindRun,bindRun,securityLoad W _ _ 0x0000,shake]
  rfl

theorem flashShown (targetDataOUT : Bytes) {s : Bus δ} (low : s.port.sclk = false) :
    Shown s (targetSecurityFlash W targetDataOUT s).2
      (((writeRecords (targetDataOUT.take SECURITY_BYTES_PER_BANK)).flatten ++ firstBits security_v 308).map some ++
        none :: if (targetSecurityFlash W targetDataOUT s).1 then [] else List.replicate 40 (some false)) := by
  have few : (targetDataOUT.take SECURITY_BYTES_PER_BANK).length ≤ 64 := by
    rw [List.length_take,SECURITY_BYTES_PER_BANK]
    omega
  obtain ⟨d,level,sent⟩ := recordsSince W _ few 0x0000 _ s (sinceLow low)
  obtain ⟨_,since⟩ := shakeSince W security_v num_bits_security d _ sent
  rw [pollEnd,List.map_replicate,bitsOfFirst _ (by decide)] at since
  rw [flashRun,List.map_append,List.append_assoc]
  exact sinceShown low since

/-- The whole buffer in 64 records, and its sum; for the security bytes 32 records, the
vector behind them, the start clock, and the zeros when the handshake has succeeded. The
clock is low whenever the command loop calls them. -/
theorem bufferEncoded (targetDataOUT : Vector UInt8 TARGET_DATABUFF_LEN) (s : Bus δ) (low : s.port.sclk = false) :
    (∃ bits, Encodes targetDataOUT.toList bits ∧
      Shown s (targetLoad W targetDataOUT.toList s).2 (bits.map some) ∧
      (targetLoad W targetDataOUT.toList s).1.toNat = (targetDataOUT.toList.map UInt8.toNat).sum) ∧
    (∃ bits vector, Encodes (targetDataOUT.toList.take SECURITY_BYTES_PER_BANK) bits ∧
      vector = firstBits security_v 308 ∧ vector.length = 308 ∧
      Shown s (targetSecurityFlash W targetDataOUT.toList s).2 ((bits ++ vector).map some ++ none ::
        if (targetSecurityFlash W targetDataOUT.toList s).1 then [] else List.replicate 40 (some false))) := by
  have whole : targetDataOUT.toList.length ≤ 64 := Nat.le_of_eq targetDataOUT.length_toList
  have few : (targetDataOUT.toList.take SECURITY_BYTES_PER_BANK).length ≤ 64 := by
    rw [List.length_take]
    omega
  constructor
  · exact ⟨_,recordsEncode whole,loadShown W whole low,loadExact W whole s⟩
  · exact ⟨_,_,recordsEncode few,rfl,firstBitsLength _ (by decide),flashShown W _ low⟩

theorem bufferEncodedBoard : ∃ bits : List Bool, bits.length = 22 * 64 ∧
    Shown (boardInit ()) (targetLoad ⟨fun _ _ => (),fun _ => (false,())⟩ (Vector.replicate 64 0xa5).toList
      (boardInit ())).2 (bits.map some) := by
  obtain ⟨⟨bits,encodes,shown,_⟩,_⟩ :=
    bufferEncoded ⟨fun _ _ => (),fun _ => (false,())⟩ (Vector.replicate 64 0xa5) (boardInit ()) rfl
  exact ⟨bits,encodes.many,shown⟩

end Encoding
end HsspProgrammer.WriteRecords
