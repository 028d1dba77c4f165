import HsspProgrammer.BusDiscipline
import HsspProgrammer.Pads

/-! The registers of port B while commands are executed. The target's functions reach the
port through the pin helpers and `readSdata` only, so what each of these keeps is kept
by every command, and the registers show the three wires all the time. -/
namespace HsspProgrammer.Registers
open Ascii (Bytes)
open BusDiscipline (erasedBus erasedBusLog)
open CommandLoop (SECURITY_BYTES_PER_BANK)
open Pins Issp Pads Triples MainLoop

variable {δ : Type}

structure PinsKeep (W : Wire δ) (inv : Bus δ → Prop) : Prop where
  writes : ∀ helper : Helper, Triple inv (write W helper.change) (fun _ => inv)
  reads : Triple inv (readSdata W) (fun _ => inv)

section Functions
variable {W : Wire δ} {inv : Bus δ → Prop} (pins : PinsKeep W inv)
include pins

theorem clockKept : Triple inv (clock W) (fun _ => inv) :=
  following (pins.writes .sclkHigh) (pins.writes .sclkLow)

theorem waitLevelKept (level : Bool) (timer : UInt32) : Triple inv (waitLevel W level timer) (fun _ => inv) := by
  induction timer using waitLevel.induct with
  | case1 timer ih =>
    rw [waitLevel]
    refine andThen pins.reads (fun _ => branch (fun _ => done (fun _ => id)) (fun _ => ?_))
    exact branch (fun _ => done (fun _ => id)) (fun running => ih running)

theorem transitionHiLoDetectKept : Triple inv (transitionHiLoDetect W) (fun _ => inv) :=
  andThen (waitLevelKept pins _ _) (fun _ => branch (fun _ => done (fun _ => id)) (fun _ => waitLevelKept pins _ _))

theorem bitReceiveKept : Triple inv (bitReceive W) (fun _ => inv) :=
  following (pins.writes .sclkLow) (following (pins.writes .sclkHigh) (andThen pins.reads (fun _ =>
    branch (fun _ => done (fun _ => id)) (fun _ => done (fun _ => id)))))

theorem receiveBitsKept (b : Nat) (currByte : UInt8) : Triple inv (receiveBits W b currByte) (fun _ => inv) := by
  induction b generalizing currByte with
  | zero => exact done (fun _ => id)
  | succ b ih => exact andThen (bitReceiveKept pins) (fun _ => ih _)

theorem byteReceiveKept : Triple inv (byteReceive W) (fun _ => inv) := receiveBitsKept pins 8 0x00

theorem byteSendKept (byte : UInt8) (numBits : Nat) : Triple inv (byteSend W byte numBits) (fun _ => inv) := by
  induction numBits generalizing byte with
  | zero => exact done (fun _ => id)
  | succ numBits ih =>
    refine following (branch (fun _ => pins.writes .sdataHigh) (fun _ => pins.writes .sdataLow)) ?_
    exact following (clockKept pins) (ih _)

theorem vectorBitsKept (vect : Bytes) (numBits : Nat) : Triple inv (vectorBits W vect numBits) (fun _ => inv) := by
  induction numBits using Nat.strongRecOn generalizing vect with
  | ind numBits ih =>
    rw [vectorBits]
    refine branch (fun many => following (byteSendKept pins _ 8) (ih (numBits - 8) (by omega) _)) (fun _ => ?_)
    exact branch (fun _ => byteSendKept pins _ numBits) (fun _ => done (fun _ => id))

theorem vectorSendKept (vect : Bytes) (numBits : Nat) : Triple inv (vectorSend W vect numBits) (fun _ => inv) :=
  following (pins.writes .sdataPP) (following (vectorBitsKept pins vect numBits) (pins.writes .sdataHiZ))

/- The start of an operation, up to the forty zeros. -/
theorem shakeKept (vect : Bytes) (numBits : Nat) {α : Type} {failed : α} {next : Driver δ α}
    (later : Triple inv next (fun _ => inv)) : Triple inv (do
      vectorSend W vect numBits
      clock W
      if ← transitionHiLoDetect W then return failed
      else
        vectorSend W wait_and_poll_end num_bits_wait_and_poll_end
        next) (fun _ => inv) := by
  refine following (vectorSendKept pins _ _) (following (clockKept pins) (andThen (transitionHiLoDetectKept pins) ?_))
  exact fun _ => branch (fun _ => done (fun _ => id)) (fun _ => following (vectorSendKept pins _ _) later)

theorem receiveKept {α : Type} {next : UInt8 → Driver δ α} (later : ∀ byte, Triple inv (next byte) (fun _ => inv)) :
    Triple inv (do
      clock W
      clock W
      let byte ← byteReceive W
      clock W
      next byte) (fun _ => inv) :=
  following (clockKept pins) (following (clockKept pins) (andThen (byteReceiveKept pins) (fun byte =>
    following (clockKept pins) (later byte))))

theorem reStartKept : Triple inv (targetReStart W) (fun _ => inv) :=
  following (pins.writes .xresAssert) (pins.writes .xresDeassert)

theorem initializeKept : Triple inv (targetInitialize W) (fun _ => inv) := by
  refine following (pins.writes .sdataHiZ) (following (pins.writes .sclkLow) (following (reStartKept pins) ?_))
  refine shakeKept pins _ _ (shakeKept pins _ _ (following (vectorSendKept pins _ _) ?_))
  exact following (clockKept pins) (following (vectorSendKept pins _ _) (done (fun _ => id)))

theorem siliconKept : Triple inv (targetSiliconIDVerify W) (fun _ => inv) := by
  refine shakeKept pins _ _ (following (vectorSendKept pins _ _) (receiveKept pins (fun first => ?_)))
  refine following (vectorSendKept pins _ _) (receiveKept pins (fun second => following (vectorSendKept pins _ _) ?_))
  exact branch (fun _ => done (fun _ => id)) (fun _ => done (fun _ => id))

theorem eraseKept : Triple inv (targetErase W) (fun _ => inv) := shakeKept pins _ _ (done (fun _ => id))

theorem writeByteKept (targetAddress temp : UInt8) : Triple inv (writeByte W targetAddress temp) (fun _ => inv) :=
  following (byteSendKept pins _ _) (following (byteSendKept pins _ _)
    (following (byteSendKept pins _ _) (byteSendKept pins _ _)))

theorem loadBytesKept (data : Bytes) (targetAddress : UInt8) (checksum : UInt16) :
    Triple inv (loadBytes W data targetAddress checksum) (fun _ => inv) := by
  induction data generalizing targetAddress checksum with
  | nil => exact done (fun _ => id)
  | cons temp rest ih => exact following (writeByteKept pins _ _) (ih _ _)

theorem loadKept (data : Bytes) : Triple inv (targetLoad W data) (fun _ => inv) :=
  following (pins.writes .sdataPP) (loadBytesKept pins _ _ _)

theorem selectKept (blockNumber : UInt8) : Triple inv (selectBlock W blockNumber) (fun _ => inv) :=
  following (vectorSendKept pins _ _) (following (pins.writes .sdataPP)
    (following (byteSendKept pins _ _) (byteSendKept pins _ _)))

theorem programKept (blockNumber : UInt8) : Triple inv (targetBlockProgram W blockNumber) (fun _ => inv) :=
  following (selectKept pins blockNumber) (shakeKept pins _ _ (done (fun _ => id)))

theorem readByteKept (targetAddress : UInt8) : Triple inv (readByte W targetAddress) (fun _ => inv) := by
  refine following (vectorSendKept pins _ _) (following (pins.writes .sdataPP) (following (byteSendKept pins _ _) ?_))
  refine following (clockKept pins) (following (clockKept pins) (following (pins.writes .sdataHiZ) ?_))
  refine andThen (byteReceiveKept pins) (fun _ => following (clockKept pins) ?_)
  exact following (vectorSendKept pins _ _) (done (fun _ => id))

theorem verifyBytesKept (data : Bytes) (targetAddress : UInt8) :
    Triple inv (verifyBytes W data targetAddress) (fun _ => inv) := by
  induction data generalizing targetAddress with
  | nil => exact done (fun _ => id)
  | cons expected rest ih =>
    exact andThen (readByteKept pins _) (fun _ => branch (fun _ => done (fun _ => id)) (fun _ => ih _))

theorem blockVerifyKept (blockNumber : UInt8) (data : Bytes) :
    Triple inv (targetBlockVerify W blockNumber data) (fun _ => inv) :=
  following (selectKept pins blockNumber) (shakeKept pins _ _ (verifyBytesKept pins _ _))

theorem checksumKept (pAcc : UInt16) : Triple inv (targetBankChecksumGet W pAcc) (fun _ => inv) := by
  refine shakeKept pins _ _ (following (vectorSendKept pins _ _) (receiveKept pins (fun high => ?_)))
  refine following (vectorSendKept pins _ _) (receiveKept pins (fun low => ?_))
  exact following (vectorSendKept pins _ _) (done (fun _ => id))

theorem securityBytesKept (data : Bytes) (targetAddress : UInt8) :
    Triple inv (securityBytes W data targetAddress) (fun _ => inv) := by
  induction data generalizing targetAddress with
  | nil => exact done (fun _ => id)
  | cons temp rest ih => exact following (writeByteKept pins _ _) (ih _)

theorem securityFlashKept (data : Bytes) : Triple inv (targetSecurityFlash W data) (fun _ => inv) :=
  following (pins.writes .sdataPP) (following (securityBytesKept pins _ _) (shakeKept pins _ _ (done (fun _ => id))))

theorem securityVerifyKept (data : Bytes) : Triple inv (targetSecurityVerify W data) (fun _ => inv) :=
  shakeKept pins _ _ (verifyBytesKept pins _ _)

/-- What the pin helpers and `readSdata` keep is kept by every operation of the target. -/
theorem isspKeeps : Keeps (isspTarget W) inv where
  targetInitialize := initializeKept pins
  targetSiliconIDVerify := siliconKept pins
  targetErase := eraseKept pins
  targetBlockProgram k data s holds := programKept pins k _ (loadKept pins data s holds)
  targetBlockVerify k data := blockVerifyKept pins k data
  targetSecurityFlash := securityFlashKept pins
  targetSecurityVerify := securityVerifyKept pins
  targetBankChecksumGet := checksumKept pins 0x0000
  targetReStart := reStartKept pins

end Functions

/- The calls of pin helpers a log tells of, from one state of the wires to the other. -/
inductive Calls (start : Port) : List Event → List Helper → Port → Prop where
  | nil : Calls start [] [] start
  | written {log calls now} (helper : Helper) (before : Calls start log calls now) :
      Calls start (log ++ [.written now (helper.change now)]) (calls ++ [helper]) (helper.change now)
  | read {log calls now} (before : Calls start log calls now) : Calls start (log ++ [.read now]) calls now

theorem callsKept (W : Wire δ) (start : Port) : PinsKeep W (fun s => ∃ calls, Calls start s.log calls s.port) where
  writes helper := by
    rintro s ⟨calls,before⟩
    exact ⟨calls ++ [helper],.written helper before⟩
  reads := by
    rintro s ⟨calls,before⟩
    exact ⟨calls,.read before⟩

theorem callsLead {start now : Port} {log : List Event} {calls : List Helper} (told : Calls start log calls now) :
    now = calls.foldl Helper.change start := by
  induction told with
  | nil => rfl
  | written helper before ih => rw [List.foldl_append,← ih]; rfl
  | read before ih => exact ih

theorem callsShow {port : Gpio} {p : Port} (shows' : Shows port p) (calls : List Helper) :
    Shows (calls.foldl Helper.registers port) (calls.foldl Helper.change p) := by
  induction calls generalizing port p with
  | nil => exact shows'
  | cons helper rest ih => exact ih (helperShows shows' helper)

/-- From power-up on, for any bytes and any other end of the wires: what is done to port B
is a sequence of pin helpers, and after each of them the registers show the wires, with
the clock and the reset still outputs and no other pad touched. -/
theorem registersFollow (W : Wire δ) (d : δ) (checksum : UInt16) (bytes : Bytes) (b : Board (Bus δ))
    (fed : feed (isspTarget W) (powerUp checksum (boardInit d)) bytes = some b) :
    ∃ calls, Calls (boardInit d).port b.firmware.target.log calls b.firmware.target.port ∧
      (∀ front back, calls = front ++ back →
        Shows (front.foldl Helper.registers boardPort) (front.foldl Helper.change (boardInit d).port)) ∧
      Shows (calls.foldl Helper.registers boardPort) b.firmware.target.port := by
  obtain ⟨calls,told⟩ := feedKeeps (isspKeeps (callsKept W (boardInit d).port)) ⟨[],.nil⟩ fed
  refine ⟨calls,told,fun front _ _ => callsShow (boardShows d) front,?_⟩
  rw [callsLead told]
  exact callsShow (boardShows d) calls

theorem registersFollowErase : ∃ b, erasedBus = some b ∧ .performed (.targetErase false) ∈ b.log ∧ ∃ calls,
    Calls (boardInit 0).port b.firmware.target.log calls b.firmware.target.port ∧
    (∀ front back, calls = front ++ back →
      Shows (front.foldl Helper.registers boardPort) (front.foldl Helper.change (boardInit 0).port)) ∧
    Shows (calls.foldl Helper.registers boardPort) b.firmware.target.port := by
  obtain ⟨b,fed,log⟩ := Option.map_eq_some_iff.mp erasedBusLog
  have erased : Entry.performed (.targetErase false) ∈ b.log := by rw [(Prod.mk.inj log).2]; simp
  exact ⟨b,fed,erased,registersFollow _ 0 0 _ b fed⟩

end HsspProgrammer.Registers
