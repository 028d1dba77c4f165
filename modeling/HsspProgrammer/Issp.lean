import HsspProgrammer.CommandLoop
import HsspProgrammer.Pins

/-! The in-system programming of the target over three wires, function by function. -/
namespace HsspProgrammer.Issp
open Ascii (Bytes)
open CommandLoop (SECURITY_BYTES_PER_BANK Target)
open Pins

def TRANSITION_TIMEOUT : UInt32 := 0x00020000

def target_id_v : Bytes :=
  [0x00,0x38]

def num_bits_checksum : Nat := 286
def checksum_v : Bytes :=
  [0xde,0xe0,0x1f,0x7b,0x00,0x79,0xf0,0x75,0xe7,0xc8,0x1f,0xde,0xa0,0x1f,0x7a,0x01,
   0xf9,0xf7,0x01,0xf7,0xc9,0x87,0xdf,0x48,0x1e,0x7d,0x00,0x7d,0xe0,0x0f,0xf7,0xc0,
   0x07,0xdf,0xe2,0x5c]

def num_bits_program_block : Nat := 308
def program_block : Bytes :=
  [0x9f,0x8a,0x9e,0x7f,0x2b,0x7d,0xee,0x01,0xf7,0xb0,0x07,0x9f,0x07,0x5e,0x7c,0x81,
   0xfd,0xea,0x01,0xf7,0xa0,0x1f,0x9f,0x70,0x1f,0x7c,0x98,0x7d,0xf4,0x81,0xf7,0x80,
   0x17,0xdf,0x00,0x1f,0x7f,0x89,0x70]

def num_bits_init1 : Nat := 396
def init1_v : Bytes :=
  [0xca,0x00,0x00,0x00,0x00,0x00,0x00,0x00,0x00,0x00,0x00,0x00,0x00,0x00,0x00,0x00,
   0x0d,0xee,0x01,0xf7,0xb0,0x07,0x9f,0x07,0x5e,0x7c,0x81,0xfd,0xea,0x01,0xf7,0xa0,
   0x1f,0x9f,0x70,0x1f,0x7c,0x98,0x7d,0xf4,0x81,0xf7,0x80,0x4f,0xdf,0x00,0x1f,0x7f,
   0x89,0x70]

def num_bits_init2 : Nat := 286
def init2_v : Bytes :=
  [0xde,0xe0,0x1f,0x7b,0x00,0x79,0xf0,0x75,0xe7,0xc8,0x1f,0xde,0xa0,0x1f,0x7a,0x01,
   0xf9,0xf7,0x01,0xf7,0xc9,0x87,0xdf,0x48,0x1e,0x7d,0x00,0xfd,0xe0,0x0d,0xf7,0xc0,
   0x07,0xdf,0xe2,0x5c]

def num_bits_init3_3v : Nat := 836
def init3_3v : Bytes :=
  [0xde,0xe0,0x1f,0x7a,0x01,0xfd,0xea,0x01,0xf7,0xb0,0x47,0xdf,0x0a,0x3f,0x7c,0xfc,
   0x7d,0xf4,0x61,0xf7,0xf8,0x97,0x00,0x00,0x03,0x7b,0x80,0x7d,0xe8,0x07,0xf7,0xa8,
   0x07,0xde,0xc1,0x1f,0x7c,0x30,0x7d,0xf3,0xd5,0xf7,0xd1,0x87,0xde,0xe2,0x1f,0x7f,
   0x89,0x70,0x00,0x00,0x37,0xb8,0x07,0xde,0x80,0x7f,0x7a,0x80,0x7d,0xec,0x11,0xf7,
   0xc2,0x8f,0xdf,0x3f,0x3f,0x7d,0x18,0x7d,0xfe,0x25,0xc0,0x00,0x00,0xde,0xe0,0x1f,
   0x7a,0x01,0xfd,0xea,0x01,0xf7,0xb0,0x47,0xdf,0x0c,0x1f,0x7c,0xf4,0x7d,0xf4,0x61,
   0xf7,0xb8,0x87,0xdf,0xe2,0x5c,0x00,0x00,0x00]

def num_bits_id_setup : Nat := 330
def id_setup_v : Bytes :=
  [0xde,0xe2,0x1f,0x70,0x01,0x7d,0xee,0x01,0xf7,0xb0,0x07,0x9f,0x07,0x5e,0x7c,0x81,
   0xfd,0xea,0x01,0xf7,0xa0,0x1f,0x9f,0x70,0x1f,0x7c,0x98,0x7d,0xf4,0x81,0xe7,0xd0,
   0x07,0xde,0x00,0xdf,0x7c,0x00,0x7d,0xfe,0x25,0xc0]

def num_bits_erase_all : Nat := 308
def erase_all_v : Bytes :=
  [0x9f,0x82,0xbe,0x7f,0x2b,0x7d,0xee,0x01,0xf7,0xb0,0x07,0x9f,0x07,0x5e,0x7c,0x81,
   0xfd,0xea,0x01,0xf7,0xa0,0x1f,0x9f,0x70,0x1f,0x7c,0x98,0x7d,0xf4,0x81,0xf7,0x80,
   0x2f,0xdf,0x00,0x1f,0x7f,0x89,0x70]

def read_id_v : Bytes :=
  [0xbf,0x00,0xdf,0x90,0x00]

def num_bits_address_length : Nat := 6
def num_bits_data_length : Nat := 8

def num_bits_write_byte_start : Nat := 5
def write_byte_start : UInt8 := 0x90

def num_bits_write_byte_end : Nat := 3
def write_byte_end : UInt8 := 0xe0

def num_bits_block_number_length : Nat := 8
def num_bits_set_block_number : Nat := 11
def set_block_number : Bytes :=
  [0x9f,0x40,0xe0]

def num_bits_set_block_number_end : Nat := 3
def set_block_number_end : UInt8 := 0xe0

def num_bits_wait_and_poll_end : Nat := 40
def wait_and_poll_end : Bytes :=
  [0x00,0x00,0x00,0x00,0x00]

def read_checksum_v : Bytes :=
  [0xbf,0x20,0xdf,0x80,0x80]

def num_bits_read_byte_start : Nat := 5
def num_bits_read_byte_end : Nat := 1
def read_byte_v : Bytes :=
  [0xb0,0x80]

def num_bits_verify_setup : Nat := 264
def verify_setup_v : Bytes :=
  [0xde,0xe0,0x1f,0x7b,0x00,0x79,0xf0,0x75,0xe7,0xc8,0x1f,0xde,0xa0,0x1f,0x7a,0x01,
   0xf9,0xf7,0x01,0xf7,0xc9,0x87,0xdf,0x48,0x1f,0x78,0x00,0xfd,0xf0,0x01,0xf7,0xf8,
   0x97]

def num_bits_security : Nat := 308
def security_v : Bytes :=
  [0x9f,0x8a,0x9e,0x7f,0x2b,0x7d,0xee,0x01,0xf7,0xb0,0x07,0x9f,0x07,0x5e,0x7c,0x81,
   0xfd,0xea,0x01,0xf7,0xa0,0x1f,0x9f,0x70,0x1f,0x7c,0x98,0x7d,0xf4,0x81,0xf7,0x80,
   0x27,0xdf,0x00,0x1f,0x7f,0x89,0x70]

def num_bits_securityVerification : Nat := 308
def securityVerification_v : Bytes :=
  [0xde,0xe0,0x1f,0x7b,0x00,0x79,0xf0,0x75,0xe7,0xc8,0x1f,0x9f,0xa0,0x1e,0x7f,0x80,
   0x7d,0xea,0x01,0xf7,0xa0,0x1f,0x9f,0x70,0x1f,0x7c,0x98,0x7d,0xf4,0x81,0xf7,0x80,
   0x87,0xdf,0x00,0x1f,0x7f,0x89,0x70]

theorem timerLess {timer : UInt32} (running : timer ≠ 0) : (timer - 1).toNat = timer.toNat - 1 := by
  rw [UInt32.toNat_sub_of_le]
  · rfl
  · have positive : timer.toNat ≠ 0 := fun zero => running (UInt32.toNat.inj zero)
    exact UInt32.le_iff_toNat_le.mpr (Nat.one_le_iff_ne_zero.mpr positive)

variable {δ : Type}

/- One of the two polling loops, true when it gives up: `timer--` is tested before it
is decremented. -/
def waitLevel (W : Wire δ) (level : Bool) (timer : UInt32) : Driver δ Bool := do
  if (← readSdata W) = level then return false
  else if timer = 0 then return true
  else waitLevel W level (timer - 1)
termination_by timer.toNat
decreasing_by
  rename_i running
  have positive : timer.toNat ≠ 0 := fun zero => running (UInt32.toNat.inj zero)
  rw [timerLess running]
  omega

/- True where the source returns 0x01, here and in all that follow. -/
def transitionHiLoDetect (W : Wire δ) : Driver δ Bool := do
  if ← waitLevel W true TRANSITION_TIMEOUT then return true
  else waitLevel W false TRANSITION_TIMEOUT

def bitReceive (W : Wire δ) : Driver δ UInt8 := do
  sclkLow W
  sclkHigh W
  if ← readSdata W then return 0x01
  else return 0x00

/- The turns of the `for` loop that are left. -/
def receiveBits (W : Wire δ) : Nat → UInt8 → Driver δ UInt8
  | 0, currByte => return currByte
  | b + 1, currByte => do
    let bit ← bitReceive W
    receiveBits W b ((currByte <<< 1) + bit)

def byteReceive (W : Wire δ) : Driver δ UInt8 := receiveBits W 8 0x00

/- One clock, as the source writes it out at each place. -/
def clock (W : Wire δ) : Driver δ Unit := do
  sclkHigh W
  sclkLow W

def byteSend (W : Wire δ) (byte : UInt8) : Nat → Driver δ Unit
  | 0 => return ()
  | numBits + 1 => do
    (if byte &&& 0x80 ≠ 0 then sdataHigh W else sdataLow W)
    clock W
    byteSend W (byte <<< 1) numBits

/- `*(vect)` behind the end of the array is 0 here; no vector of the source is that
short. -/
def vectorBits (W : Wire δ) (vect : Bytes) (numBits : Nat) : Driver δ Unit :=
  if 8 ≤ numBits then do
    byteSend W (vect.headD 0x00) 8
    vectorBits W vect.tail (numBits - 8)
  else if 0 < numBits then byteSend W (vect.headD 0x00) numBits
  else return ()
termination_by numBits

def vectorSend (W : Wire δ) (vect : Bytes) (numBits : Nat) : Driver δ Unit := do
  sdataPP W
  vectorBits W vect numBits
  sdataHiZ W

def targetReStart (W : Wire δ) : Driver δ Unit := do
  xresAssert W
  xresDeassert W

def targetInitialize (W : Wire δ) : Driver δ Bool := do
  sdataHiZ W
  sclkLow W
  targetReStart W
  vectorSend W init1_v num_bits_init1
  clock W
  if ← transitionHiLoDetect W then return true
  else
    vectorSend W wait_and_poll_end num_bits_wait_and_poll_end
    vectorSend W init2_v num_bits_init2
    clock W
    if ← transitionHiLoDetect W then return true
    else
      vectorSend W wait_and_poll_end num_bits_wait_and_poll_end
      vectorSend W init3_3v num_bits_init3_3v
      clock W
      vectorSend W wait_and_poll_end num_bits_wait_and_poll_end
      return false

def targetSiliconIDVerify (W : Wire δ) : Driver δ Bool := do
  vectorSend W id_setup_v num_bits_id_setup
  clock W
  if ← transitionHiLoDetect W then return true
  else
    vectorSend W wait_and_poll_end num_bits_wait_and_poll_end
    vectorSend W read_id_v 11
    clock W
    clock W
    let first ← byteReceive W
    clock W
    vectorSend W (read_id_v.drop 2) 12
    clock W
    clock W
    let second ← byteReceive W
    clock W
    vectorSend W (read_id_v.drop 4) 1
    if first ≠ target_id_v.getD 0 0 ∨ second ≠ target_id_v.getD 1 0 then return true
    else return false

def targetErase (W : Wire δ) : Driver δ Bool := do
  vectorSend W erase_all_v num_bits_erase_all
  clock W
  if ← transitionHiLoDetect W then return true
  else
    vectorSend W wait_and_poll_end num_bits_wait_and_poll_end
    return false

/- The four calls that write one byte, in `targetLoad` and in `targetSecurityFlash`. -/
def writeByte (W : Wire δ) (targetAddress temp : UInt8) : Driver δ Unit := do
  byteSend W write_byte_start num_bits_write_byte_start
  byteSend W targetAddress num_bits_address_length
  byteSend W temp num_bits_data_length
  byteSend W write_byte_end num_bits_write_byte_end

/- The loops go through the bytes of `targetDataOUT` from `targetDataPtr` on. -/
def loadBytes (W : Wire δ) : Bytes → UInt8 → UInt16 → Driver δ UInt16
  | [], _, checksum => return checksum
  | temp :: rest, targetAddress, checksum => do
    writeByte W targetAddress temp
    loadBytes W rest (targetAddress + 4) (checksum + temp.toUInt16)

def targetLoad (W : Wire δ) (targetDataOUT : Bytes) : Driver δ UInt16 := do
  sdataPP W
  loadBytes W targetDataOUT 0x00 0x0000

def selectBlock (W : Wire δ) (blockNumber : UInt8) : Driver δ Unit := do
  vectorSend W set_block_number num_bits_set_block_number
  sdataPP W
  byteSend W blockNumber num_bits_block_number_length
  byteSend W set_block_number_end num_bits_set_block_number_end

def targetBlockProgram (W : Wire δ) (blockNumber : UInt8) : Driver δ Bool := do
  selectBlock W blockNumber
  vectorSend W program_block num_bits_program_block
  clock W
  if ← transitionHiLoDetect W then return true
  else
    vectorSend W wait_and_poll_end num_bits_wait_and_poll_end
    return false

/- One turn of the read loops. -/
def readByte (W : Wire δ) (targetAddress : UInt8) : Driver δ UInt8 := do
  vectorSend W read_byte_v num_bits_read_byte_start
  sdataPP W
  byteSend W targetAddress num_bits_address_length
  clock W
  clock W
  sdataHiZ W
  let targetDataIN ← byteReceive W
  clock W
  vectorSend W (read_byte_v.drop 1) num_bits_read_byte_end
  return targetDataIN

def verifyBytes (W : Wire δ) : Bytes → UInt8 → Driver δ Bool
  | [], _ => return false
  | expected :: rest, targetAddress => do
    let targetDataIN ← readByte W targetAddress
    if targetDataIN ≠ expected then return true
    else verifyBytes W rest (targetAddress + 4)

def targetBlockVerify (W : Wire δ) (blockNumber : UInt8) (targetDataOUT : Bytes) : Driver δ Bool := do
  selectBlock W blockNumber
  vectorSend W verify_setup_v num_bits_verify_setup
  clock W
  if ← transitionHiLoDetect W then return true
  else
    vectorSend W wait_and_poll_end num_bits_wait_and_poll_end
    verifyBytes W targetDataOUT 0x00

/- `none` where the source returns 0x01, else the accumulator. -/
def targetBankChecksumGet (W : Wire δ) (pAcc : UInt16) : Driver δ (Option UInt16) := do
  vectorSend W checksum_v num_bits_checksum
  clock W
  if ← transitionHiLoDetect W then return none
  else
    vectorSend W wait_and_poll_end num_bits_wait_and_poll_end
    vectorSend W read_checksum_v 11
    clock W
    clock W
    let high ← byteReceive W
    clock W
    vectorSend W (read_checksum_v.drop 2) 12
    clock W
    clock W
    let low ← byteReceive W
    clock W
    vectorSend W (read_checksum_v.drop 3) 1
    return some (pAcc + (high.toUInt16 <<< 8) + low.toUInt16)

def securityBytes (W : Wire δ) : Bytes → UInt8 → Driver δ Unit
  | [], _ => return ()
  | temp :: rest, targetAddress => do
    writeByte W targetAddress temp
    securityBytes W rest (targetAddress + 4)

def targetSecurityFlash (W : Wire δ) (targetDataOUT : Bytes) : Driver δ Bool := do
  sdataPP W
  securityBytes W (targetDataOUT.take SECURITY_BYTES_PER_BANK) 0x00
  vectorSend W security_v num_bits_security
  clock W
  if ← transitionHiLoDetect W then return true
  else
    vectorSend W wait_and_poll_end num_bits_wait_and_poll_end
    return false

def targetSecurityVerify (W : Wire δ) (targetDataOUT : Bytes) : Driver δ Bool := do
  vectorSend W securityVerification_v num_bits_securityVerification
  clock W
  if ← transitionHiLoDetect W then return true
  else
    vectorSend W wait_and_poll_end num_bits_wait_and_poll_end
    verifyBytes W (targetDataOUT.take SECURITY_BYTES_PER_BANK) 0x00

/- The address of byte `i` is kept four times as large; it is 0 again after the last one. -/
theorem addressNext (i : Nat) : UInt8.ofNat (4 * i) + 4 = UInt8.ofNat (4 * (i + 1)) := by
  rw [Nat.mul_add,UInt8.ofNat_add]
  rfl

theorem loadSum (W : Wire δ) (data : Bytes) (targetAddress : UInt8) (checksum : UInt16) (s : Bus δ) :
    (loadBytes W data targetAddress checksum s).1 = data.foldl (fun checksum temp => checksum + temp.toUInt16) checksum := by
  induction data generalizing targetAddress checksum s with
  | nil => rfl
  | cons temp rest ih => rw [loadBytes,Triples.bindRun,ih,List.foldl_cons]

/- The target of the command loop: whatever is on the other end of the wires. -/
def isspTarget (W : Wire δ) : Target (Bus δ) where
  targetInitialize := targetInitialize W
  targetSiliconIDVerify := targetSiliconIDVerify W
  targetErase := targetErase W
  targetLoad := targetLoad W
  targetBlockProgram := targetBlockProgram W
  targetBlockVerify := targetBlockVerify W
  targetSecurityFlash := targetSecurityFlash W
  targetSecurityVerify := targetSecurityVerify W
  targetBankChecksumGet := targetBankChecksumGet W 0x0000
  targetReStart s := (targetReStart W s).2
  loadSum data _ := loadSum W data 0x00 0x0000 _

end HsspProgrammer.Issp
