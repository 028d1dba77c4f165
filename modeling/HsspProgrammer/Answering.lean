import HsspProgrammer.Spelling
import Mathlib.Data.Stream.Init

/-! A target that gives what the operations of a session are to read, one sample after the
other: with it all of them succeed on the wires. -/
namespace HsspProgrammer.Answering
open Ascii (Bytes)
open CommandLoop (Op SECURITY_BYTES_PER_BANK TARGET_DATABUFF_LEN)
open Pins Issp Clocking
open Performing
open Signals
open Spelling

/- What a target gives to an operation that succeeds. -/
def shake : List Bool := [true,false]

def reads (data : Bytes) : List Bool := data.flatMap (fun byte => binary 8 byte.toNat)

def answers : Op → List Bool
  | .targetInitialize _ => shake ++ shake
  | .targetSiliconIDVerify _ => shake ++ reads target_id_v
  | .targetErase _ | .targetBlockProgram _ _ _ | .targetSecurityFlash _ _ => shake
  | .targetBlockVerify _ data _ | .targetSecurityVerify data _ => shake ++ reads data
  | .targetBankChecksumGet value => shake ++ reads [(value.getD 0 >>> 8).toUInt8,(value.getD 0).toUInt8]
  | .targetLoad _ | .targetReStart => []

section Samples
variable {d e : Stream' Bool} {signals : List Signal}

end Samples

section Performing
variable {d e : Stream' Bool} {s s' : Bus (Stream' Bool)} {op : Op}

end Performing
end HsspProgrammer.Answering
