import HsspProgrammer.Loader

/-! The slots of the main window: the reply handler `serialData` with its static
block counter, `targetFlash`, `fileOpen` and the connection slots. A slot is its
reaction: the new window, the text it shows and the `write` calls it makes in order. -/
namespace HsspProgrammer.MainWindow
open Ascii (Bytes)
open Loader (Globals File Block NUM_BLOCKS BLOCK_SIZE)

inductive Report where
  | unrecognizedResponce
  | initialized
  | initializeFailed
  | eraseCompleted
  | eraseFailed
  | dot
  | complete
  | verifying
  | blockFailed
  | verified
  | securityStored
  | securityFailed
  | securityVerified
  | securityIncorrect
  | checksumVerified
  | checksumFailed
  | reStarted
  | unrecognizedCommand
  deriving DecidableEq, Repr

def Report.text : Report → String
  | .unrecognizedResponce => "Unrecognized responce received!"
  | .initialized => "Target Reset Initialization Completed. Silicon ID verified!"
  | .initializeFailed => "Target Reset Initialization failed! Silicon ID Verification Failed!"
  | .eraseCompleted => "Target Bulk Erase Completed!\r\nProgramming"
  | .eraseFailed => "Target Bulk Erase Failed!"
  | .dot => "."
  | .complete => "Complete!"
  | .verifying => "Verifying"
  | .blockFailed => "Failed!"
  | .verified => "Verified!"
  | .securityStored => "Program Security Settings Stored!"
  | .securityFailed => "Programming Security Data Failed!"
  | .securityVerified => "Program Security Settings Verified!"
  | .securityIncorrect => "Program Security Data Incorrect!"
  | .checksumVerified => "Checksum Verified!"
  | .checksumFailed => "Checksum Failed!"
  | .reStarted => "Target ReStarted!"
  | .unrecognizedCommand => "Unrecognized command received!\r\n"

theorem reStartedText (r : Report) : r.text = "Target ReStarted!" ↔ r = .reStarted := by
  cases r <;> decide

/- The outcomes of a session: the restart and one failure text for each command. -/
def Report.final : Report → Bool
  | .initializeFailed | .eraseFailed | .blockFailed | .securityFailed | .securityIncorrect
  | .checksumFailed | .reStarted => true
  | _ => false

structure Window where
  globals : Globals
  blockCntr : UInt8
  m_fConnected : Bool
  m_fDataLoaded : Bool

structure Reaction where
  window : Window
  reports : List Report
  writes : List Bytes

def command (cmdID : UInt8) : Bytes := [cmdID,Ascii.newline]

def programBlock (w : Window) (k : Nat) (inside : k < NUM_BLOCKS) : Bytes :=
  (w.globals.programData.get ⟨k,inside⟩).toList

def securityBlock (w : Window) : Bytes := w.globals.securityData.toList

/- `blockCntr = 0x00` and the first `programData[blockCntr++]` after a command. -/
def firstBlock (w : Window) (reports : List Report) (cmdID : UInt8) : Reaction :=
  ⟨{w with blockCntr := 0x00 + 1},reports,[command cmdID,programBlock w 0 (by decide)]⟩

/- Cases 'c' and 'd' differ only in what follows the last block. -/
def blockReply (w : Window) (argID argTrm : UInt8) (last : Reaction) : Reaction :=
  if next : argID = Ascii.plus ∧ argTrm = Ascii.newline ∧ w.blockCntr.toNat < NUM_BLOCKS then
    ⟨{w with blockCntr := w.blockCntr + 1},if w.blockCntr.toNat % 2 = 0 then [.dot] else [],
      [programBlock w w.blockCntr.toNat next.2.2]⟩
  else if argID = Ascii.zero ∧ argTrm = Ascii.newline then last
  else ⟨w,[.blockFailed],[]⟩

def answered (argID argTrm : UInt8) (good bad : Reaction) : Reaction :=
  if argID = Ascii.zero ∧ argTrm = Ascii.newline then good else bad

/- `ba.at(i)`; the serial thread emits messages of four bytes or more only. -/
def serialData (w : Window) (ba : Bytes) : Reaction :=
  let cmdID := ba.getD 0 0
  let cmdTrm := ba.getD 1 0
  let argID := ba.getD 2 0
  let argTrm := ba.getD 3 0
  if cmdID < Ascii.a ∨ cmdID > Ascii.z ∨ cmdTrm ≠ Ascii.newline then
    ⟨w,[.unrecognizedResponce],[]⟩
  else if cmdID = Ascii.a then
    answered argID argTrm ⟨w,[.initialized],[command Ascii.b]⟩ ⟨w,[.initializeFailed],[]⟩
  else if cmdID = Ascii.b then
    answered argID argTrm (firstBlock w [.eraseCompleted] Ascii.c) ⟨w,[.eraseFailed],[]⟩
  else if cmdID = Ascii.c then
    blockReply w argID argTrm (firstBlock w [.complete,.verifying] Ascii.d)
  else if cmdID = Ascii.d then
    blockReply w argID argTrm ⟨w,[.verified],[command Ascii.e,securityBlock w]⟩
  else if cmdID = Ascii.e then
    answered argID argTrm ⟨w,[.securityStored],[command Ascii.f,securityBlock w]⟩
      ⟨w,[.securityFailed],[]⟩
  else if cmdID = Ascii.f then
    answered argID argTrm ⟨w,[.securityVerified],[command Ascii.g]⟩ ⟨w,[.securityIncorrect],[]⟩
  else if cmdID = Ascii.g then
    answered argID argTrm ⟨w,[.checksumVerified],[command Ascii.x]⟩ ⟨w,[.checksumFailed],[]⟩
  else if cmdID = Ascii.x then
    answered argID argTrm ⟨w,[.reStarted],[]⟩ ⟨w,[],[]⟩
  else ⟨w,[.unrecognizedCommand],[]⟩

def targetFlash (w : Window) : Reaction := ⟨w,[],[command Ascii.a]⟩

/- `actionFlash` is enabled by `serialConnect` and `fileOpen` exactly in these states. -/
def flashEnabled (w : Window) : Bool := w.m_fConnected && w.m_fDataLoaded

/-- `none` is a cancelled dialog, `some none` a file that cannot be opened. -/
def fileOpen (w : Window) : Option (Option File) → Window
  | none => w
  | some file =>
    let loaded := Loader.load w.globals file
    {w with globals := loaded.2, m_fDataLoaded := loaded.1}

/- Both error slots do the same. -/
def connectionLost (w : Window) : Window := {w with m_fConnected := false}

/-- The handler looks at the first four bytes of a message only. -/
theorem serialDataHead (w : Window) (ba : Bytes) : serialData w (ba.take 4) = serialData w ba := by
  simp [serialData,List.getD_eq_getElem?_getD]

section Kept
variable {w : Window}

/- Whatever a reply is asked, it has one of two consequences. -/
theorem keptIf {p : Prop} [Decidable p] {yes no : Reaction}
    (holds : yes.window = {w with blockCntr := yes.window.blockCntr})
    (fails : no.window = {w with blockCntr := no.window.blockCntr}) :
    (if p then yes else no).window = {w with blockCntr := (if p then yes else no).window.blockCntr} := by
  split
  · exact holds
  · exact fails

theorem keptBlock (argID argTrm : UInt8) {last : Reaction} (ends : last.window = {w with blockCntr := last.window.blockCntr}) :
    (blockReply w argID argTrm last).window =
      {w with blockCntr := (blockReply w argID argTrm last).window.blockCntr} := by
  unfold blockReply
  split
  · rfl
  · exact keptIf ends rfl

/-- A reply changes nothing in the window but the block counter. -/
theorem serialDataWindow (w : Window) (ba : Bytes) :
    (serialData w ba).window = {w with blockCntr := (serialData w ba).window.blockCntr} := by
  unfold serialData
  refine keptIf rfl (keptIf (keptIf rfl rfl) (keptIf (keptIf rfl rfl) ?_))
  refine keptIf (keptBlock _ _ rfl) (keptIf (keptBlock _ _ rfl) ?_)
  exact keptIf (keptIf rfl rfl) (keptIf (keptIf rfl rfl) (keptIf (keptIf rfl rfl) (keptIf (keptIf rfl rfl) rfl)))

end Kept
end HsspProgrammer.MainWindow
