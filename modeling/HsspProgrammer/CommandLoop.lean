import HsspProgrammer.Ascii

/-! The command loop of the firmware over an arbitrary target. One step either reads
a byte or, when the bytes of a command or of a block are there, does what the source
does up to the next `chnRead`. -/
namespace HsspProgrammer.CommandLoop
open Ascii (Bytes)

def TARGET_DATABUFF_LEN : Nat := 64
def BLOCKS_PER_BANK : Nat := 128
def SECURITY_BYTES_PER_BANK : Nat := 32

def sum (data : Bytes) : UInt16 := data.foldl (fun checksum temp => checksum + temp.toUInt16) 0x0000

theorem sumFrom (checksum : UInt16) (data : Bytes) :
    data.foldl (fun checksum temp => checksum + temp.toUInt16) checksum = checksum + sum data := by
  induction data generalizing checksum with
  | nil => simp [sum]
  | cons temp rest ih =>
    have whole : sum (temp :: rest) = 0x0000 + temp.toUInt16 + sum rest := ih (0x0000 + temp.toUInt16)
    rw [List.foldl_cons,ih,whole,UInt16.zero_add,UInt16.add_assoc]

theorem sumAppend (l m : Bytes) : sum (l ++ m) = sum l + sum m := by
  rw [sum,List.foldl_append,sumFrom,← sum]

/- The operations of `issp.h` on a target in some state. `true` is the nonzero return
of the source, that is, failure; the checksum is stored only on success. What
`targetLoad` returns is computed from the data and not by the target. -/
structure Target (τ : Type) where
  targetInitialize : τ → Bool × τ
  targetSiliconIDVerify : τ → Bool × τ
  targetErase : τ → Bool × τ
  targetLoad : Bytes → τ → UInt16 × τ
  targetBlockProgram : UInt8 → τ → Bool × τ
  targetBlockVerify : UInt8 → Bytes → τ → Bool × τ
  targetSecurityFlash : Bytes → τ → Bool × τ
  targetSecurityVerify : Bytes → τ → Bool × τ
  targetBankChecksumGet : τ → Option UInt16 × τ
  targetReStart : τ → τ
  loadSum : ∀ data t, (targetLoad data t).1 = sum data

/- A target on which everything succeeds; `value` is what its bank checksum reads. -/
def obliging (value : UInt16) : Target Unit where
  targetInitialize _ := (false,())
  targetSiliconIDVerify _ := (false,())
  targetErase _ := (false,())
  targetLoad data _ := (sum data,())
  targetBlockProgram _ _ := (false,())
  targetBlockVerify _ _ _ := (false,())
  targetSecurityFlash _ _ := (false,())
  targetSecurityVerify _ _ := (false,())
  targetBankChecksumGet _ := (some value,())
  targetReStart _ := ()
  loadSum _ _ := rfl

/- The performed operations, with their data and whether they failed. -/
inductive Op where
  | targetInitialize (failed : Bool)
  | targetSiliconIDVerify (failed : Bool)
  | targetErase (failed : Bool)
  | targetLoad (data : Bytes)
  | targetBlockProgram (blockNumber : Nat) (data : Bytes) (failed : Bool)
  | targetBlockVerify (blockNumber : Nat) (data : Bytes) (failed : Bool)
  | targetSecurityFlash (data : Bytes) (failed : Bool)
  | targetSecurityVerify (data : Bytes) (failed : Bool)
  | targetBankChecksumGet (value : Option UInt16)
  | targetReStart
  deriving DecidableEq, Repr

def Op.failed : Op → Bool
  | .targetInitialize failed | .targetSiliconIDVerify failed | .targetErase failed
  | .targetBlockProgram _ _ failed | .targetBlockVerify _ _ failed | .targetSecurityFlash _ failed
  | .targetSecurityVerify _ failed => failed
  | .targetBankChecksumGet value => value.isNone
  | .targetLoad _ | .targetReStart => false

inductive Use where
  | program (blockNum : Nat)
  | verify (blockNum : Nat)
  | securityFlash
  | securityVerify
  deriving DecidableEq, Repr

inductive Pc where
  | cmdID
  | cmdTrm (cmdID : UInt8)
  | command (cmdID cmdTrm : UInt8)
  | data (use : Use) (got : Bytes)
  | ready (use : Use)
  | halted
  deriving DecidableEq, Repr

/- `checksum` is a local that is not initialised, so it starts with any value. -/
structure Firmware (τ : Type) where
  pc : Pc
  targetDataOUT : Bytes
  checksum : UInt16
  target : τ

structure Outcome (τ : Type) where
  firmware : Firmware τ
  reply : Bytes
  ops : List Op

variable {τ : Type}

/- `chnRead` of one byte, `none` while the firmware is not reading. -/
def consume (fw : Firmware τ) (byte : UInt8) : Option (Firmware τ) :=
  match fw.pc with
  | .cmdID => some {fw with pc := .cmdTrm byte}
  | .cmdTrm cmdID => some {fw with pc := .command cmdID byte}
  | .data use got =>
    if got.length + 1 = TARGET_DATABUFF_LEN then
      some {fw with pc := .ready use, targetDataOUT := got ++ [byte]}
    else some {fw with pc := .data use (got ++ [byte])}
  | _ => none

def reply (cmdID argID : UInt8) : Bytes := [cmdID,Ascii.newline,argID,Ascii.newline]

/- The answer to a block and the next turn of the `for` loop, alike for 'c' and 'd'. -/
def blockArg (blockNum : Nat) (failed : Bool) : UInt8 :=
  if failed then Ascii.one
  else if blockNum < BLOCKS_PER_BANK - 1 then Ascii.plus
  else Ascii.zero

def nextBlock (use : Nat → Use) (blockNum : Nat) (failed : Bool) : Pc :=
  if failed then .cmdID
  else if blockNum + 1 < BLOCKS_PER_BANK then .data (use (blockNum + 1)) []
  else .cmdID

def onReady (T : Target τ) (fw : Firmware τ) : Use → Outcome τ
  | .program blockNum =>
    let loaded := T.targetLoad fw.targetDataOUT fw.target
    let r := T.targetBlockProgram (UInt8.ofNat blockNum) loaded.2
    ⟨{ fw with
        pc := nextBlock .program blockNum r.1
        checksum := fw.checksum + loaded.1
        target := r.2 },
      reply Ascii.c (blockArg blockNum r.1),
      [.targetLoad fw.targetDataOUT,.targetBlockProgram blockNum fw.targetDataOUT r.1]⟩
  | .verify blockNum =>
    let r := T.targetBlockVerify (UInt8.ofNat blockNum) fw.targetDataOUT fw.target
    ⟨{fw with pc := nextBlock .verify blockNum r.1, target := r.2},
      reply Ascii.d (blockArg blockNum r.1),
      [.targetBlockVerify blockNum fw.targetDataOUT r.1]⟩
  | .securityFlash =>
    let r := T.targetSecurityFlash fw.targetDataOUT fw.target
    ⟨{fw with pc := .cmdID, target := r.2},
      reply Ascii.e (if r.1 then Ascii.one else Ascii.zero),
      [.targetSecurityFlash (fw.targetDataOUT.take SECURITY_BYTES_PER_BANK) r.1]⟩
  | .securityVerify =>
    let r := T.targetSecurityVerify fw.targetDataOUT fw.target
    ⟨{fw with pc := .cmdID, target := r.2},
      reply Ascii.f (if r.1 then Ascii.one else Ascii.zero),
      [.targetSecurityVerify (fw.targetDataOUT.take SECURITY_BYTES_PER_BANK) r.1]⟩

def onCommand (T : Target τ) (fw : Firmware τ) (cmdID : UInt8) : Outcome τ :=
  if cmdID = Ascii.a then
    let started := T.targetInitialize fw.target
    if started.1 then
      ⟨{fw with pc := .cmdID, target := started.2},reply Ascii.a Ascii.one,[.targetInitialize true]⟩
    else
      let r := T.targetSiliconIDVerify started.2
      ⟨{fw with pc := .cmdID, target := r.2},
        reply Ascii.a (if r.1 then Ascii.two else Ascii.zero),
        [.targetInitialize false,.targetSiliconIDVerify r.1]⟩
  else if cmdID = Ascii.b then
    let r := T.targetErase fw.target
    ⟨{fw with pc := .cmdID, target := r.2},
      reply Ascii.b (if r.1 then Ascii.one else Ascii.zero),[.targetErase r.1]⟩
  else if cmdID = Ascii.c then
    ⟨{fw with pc := .data (.program 0) [], checksum := 0x0000},[],[]⟩
  else if cmdID = Ascii.d then ⟨{fw with pc := .data (.verify 0) []},[],[]⟩
  else if cmdID = Ascii.e then ⟨{fw with pc := .data .securityFlash []},[],[]⟩
  else if cmdID = Ascii.f then ⟨{fw with pc := .data .securityVerify []},[],[]⟩
  else if cmdID = Ascii.g then
    let r := T.targetBankChecksumGet fw.target
    ⟨{fw with pc := .cmdID, target := r.2},
      reply Ascii.g (match r.1 with
        | none => Ascii.one
        | some targetChecksum => if targetChecksum ≠ fw.checksum then Ascii.two else Ascii.zero),
      [.targetBankChecksumGet r.1]⟩
  else if cmdID = Ascii.x then
    ⟨{fw with pc := .cmdID, target := T.targetReStart fw.target},reply Ascii.x Ascii.zero,[.targetReStart]⟩
  else if cmdID = Ascii.z then ⟨{fw with pc := .halted},[],[]⟩
  else ⟨{fw with pc := .cmdID},[],[]⟩

/- What follows a completed read, `none` while the firmware is reading. -/
def execute (T : Target τ) (fw : Firmware τ) : Option (Outcome τ) :=
  match fw.pc with
  | .command cmdID cmdTrm =>
    if Ascii.a ≤ cmdID ∧ cmdID ≤ Ascii.z ∧ cmdTrm = Ascii.newline then some (onCommand T fw cmdID)
    else some ⟨{fw with pc := .cmdID},[],[]⟩
  | .ready use => some (onReady T fw use)
  | _ => none

end HsspProgrammer.CommandLoop
