import HsspProgrammer.Clocking
import HsspProgrammer.MainLoop

/-! The bus between and during commands: every operation that finds SDATA released,
the clock and the reset low leaves them so, on every way out. -/
namespace HsspProgrammer.BusDiscipline
open Ascii (Bytes)
open Pins Issp Triples Clocking

variable {δ : Type}

def Resting (s : Bus δ) : Prop := ∃ d, At none false d s

/- SDATA may be driven or not. -/
def Low (s : Bus δ) : Prop := ∃ drive d, At drive false d s

def Driven (s : Bus δ) : Prop := ∃ d, Driving d s

theorem restingLow {s : Bus δ} (resting : Resting s) : Low s := by
  obtain ⟨d,holds⟩ := resting
  exact ⟨none,d,holds⟩

theorem drivenLow {s : Bus δ} (driven : Driven s) : Low s := by
  obtain ⟨d,level,holds⟩ := driven
  exact ⟨some level,d,holds⟩

section Parts
variable (W : Wire δ)

theorem ppDriven : Triple (Low (δ := δ)) (sdataPP W) (fun _ => Driven) :=
  existing (fun _ => existing (fun d => weakenPost (ppAt W) (fun _ _ holds => ⟨d,holds⟩)))

theorem hiZResting : Triple (Low (δ := δ)) (sdataHiZ W) (fun _ => Resting) :=
  existing (fun _ => existing (fun d => weakenPost (hiZAt W) (fun _ _ holds => ⟨d,holds⟩)))

theorem sendDriven (byte : UInt8) (numBits : Nat) : Triple (Driven (δ := δ)) (byteSend W byte numBits) (fun _ => Driven) :=
  existing (fun d => weakenPost (byteSendAt W byte numBits d) (fun _ _ holds => ⟨_,holds⟩))

theorem vectorResting (vect : Bytes) (numBits : Nat) : Triple (Low (δ := δ)) (vectorSend W vect numBits) (fun _ => Resting) :=
  existing (fun _ => existing (fun d => weakenPost (vectorSendAt W vect numBits d) (fun _ _ holds => ⟨_,holds⟩)))

theorem clockResting : Triple (Resting (δ := δ)) (clock W) (fun _ => Resting) :=
  existing (fun _ => weakenPost (clockAt W) (fun _ _ holds => ⟨_,holds⟩))

theorem clockDriven : Triple (Driven (δ := δ)) (clock W) (fun _ => Driven) :=
  existing (fun _ => existing (fun _ => weakenPost (clockAt W) (fun _ _ holds => ⟨_,_,holds⟩)))

/- A byte leaves the clock high, the clock after it lowers it again. -/
theorem receiveResting {α : Type} {next : UInt8 → Driver δ α} {post : α → Bus δ → Prop}
    (later : ∀ byte, Triple Resting (next byte) post) :
    Triple Resting (byteReceive W >>= fun byte => clock W >>= fun _ => next byte) post :=
  existing (fun d => andThen (byteReceiveAt W d) (fun byte => supposing (fun _ =>
    following (weakenPost (lastClockAt W _) (fun _ _ holds => ⟨_,holds⟩)) (later byte))))

theorem shakeLow (vect : Bytes) (numBits : Nat) : Triple (Low (δ := δ)) (shake W vect numBits) (fun _ => Resting) :=
  existing (fun _ => existing (fun d => fromHere (fun _ before =>
    weakenPost (shakeSince W vect numBits d) (fun _ _ ⟨d',since⟩ => ⟨d',sinceAt before since⟩))))

/- A vector, the start clock, the handshake and the forty zeros: the one place where an
operation is given up. -/
theorem shakeResting (vect : Bytes) (numBits : Nat) {α : Type} {failed : α} {next : Driver δ α}
    {post : α → Bus δ → Prop}
    (gone : ∀ s, Resting s → post failed s) (later : Triple Resting next post) :
    Triple Low (do
      vectorSend W vect numBits
      clock W
      if ← transitionHiLoDetect W then return failed
      else
        vectorSend W wait_and_poll_end num_bits_wait_and_poll_end
        next) post := by
  rw [shakeRun]
  exact andThen (shakeLow W vect numBits) (fun _ => branch (fun _ => done gone) (fun _ => later))

end Parts

section Operations
variable (W : Wire δ)

theorem vectorAgain (vect : Bytes) (numBits : Nat) :
    Triple (Resting (δ := δ)) (vectorSend W vect numBits) (fun _ => Resting) :=
  weaken (vectorResting W vect numBits) (fun _ => restingLow) (fun _ _ => id)

theorem shakeAgain (vect : Bytes) (numBits : Nat) {α : Type} {failed : α} {next : Driver δ α}
    (later : Triple Resting next (fun _ => Resting)) :
    Triple Resting (do
      vectorSend W vect numBits
      clock W
      if ← transitionHiLoDetect W then return failed
      else
        vectorSend W wait_and_poll_end num_bits_wait_and_poll_end
        next) (fun _ => Resting) :=
  weaken (shakeResting W vect numBits (fun _ => id) later) (fun _ => restingLow) (fun _ _ => id)

theorem reStartResting : Triple (Resting (δ := δ)) (targetReStart W) (fun _ => Resting) := by
  rintro s ⟨d,drive,low,_,device,clean⟩
  have still : ∀ p q : Port, p.sclk = false → ¬ (p.sclk = true ∧ q.sclk = false) := fun p _ low high => by
    rw [low] at high
    exact absurd high.1 (by simp)
  have asserted := cleanAppend clean (e := .written s.port {s.port with xres := true}) (.inl ⟨rfl,rfl⟩)
  refine ⟨d,drive,low,rfl,?_,cleanAppend asserted (.inl ⟨rfl,rfl⟩)⟩
  exact (if_neg (still _ _ low)).trans ((if_neg (still _ _ low)).trans device)

theorem initializeResting : Triple (Resting (δ := δ)) (targetInitialize W) (fun _ => Resting) := by
  have lowered : Triple (Resting (δ := δ)) (sclkLow W) (fun _ => Resting) :=
    existing (fun d => weakenPost (fallAt W d) (fun _ _ holds => ⟨_,holds⟩))
  have released := weaken (hiZResting (δ := δ) W) (fun _ => restingLow) (fun _ _ => id)
  refine following released (following lowered (following (reStartResting W) ?_))
  refine shakeAgain W init1_v num_bits_init1 (shakeAgain W init2_v num_bits_init2 ?_)
  refine following (vectorAgain W _ _) (following (clockResting W) (following (vectorAgain W _ _) ?_))
  exact done (fun _ => id)

theorem siliconResting : Triple (Resting (δ := δ)) (targetSiliconIDVerify W) (fun _ => Resting) := by
  refine shakeAgain W id_setup_v num_bits_id_setup ?_
  refine following (vectorAgain W _ _) (following (clockResting W) (following (clockResting W) ?_))
  refine receiveResting W (fun first => following (vectorAgain W _ _) ?_)
  refine following (clockResting W) (following (clockResting W) (receiveResting W (fun second => ?_)))
  exact following (vectorAgain W _ _) (branch (fun _ => done (fun _ => id)) (fun _ => done (fun _ => id)))

theorem eraseResting : Triple (Resting (δ := δ)) (targetErase W) (fun _ => Resting) :=
  shakeAgain W erase_all_v num_bits_erase_all (done (fun _ => id))

theorem writeDriven (targetAddress temp : UInt8) :
    Triple (Driven (δ := δ)) (writeByte W targetAddress temp) (fun _ => Driven) :=
  following (sendDriven W _ _) (following (sendDriven W _ _) (following (sendDriven W _ _) (sendDriven W _ _)))

/- `targetLoad` alone leaves SDATA driven. -/
theorem loadDriven (data : Bytes) (targetAddress : UInt8) (checksum : UInt16) :
    Triple (Driven (δ := δ)) (loadBytes W data targetAddress checksum) (fun _ => Driven) := by
  induction data generalizing targetAddress checksum with
  | nil => exact done (fun _ => id)
  | cons temp rest ih => exact following (writeDriven W _ _) (ih _ _)

theorem selectDriven (blockNumber : UInt8) : Triple (Low (δ := δ)) (selectBlock W blockNumber) (fun _ => Driven) :=
  following (vectorResting W _ _) (following (weaken (ppDriven W) (fun _ => restingLow) (fun _ _ => id))
    (following (sendDriven W _ _) (sendDriven W _ _)))

theorem programResting (data : Bytes) (blockNumber : UInt8) :
    Triple (Resting (δ := δ)) (targetLoad W data >>= fun _ => targetBlockProgram W blockNumber) (fun _ => Resting) := by
  have load : Triple (Resting (δ := δ)) (targetLoad W data) (fun _ => Driven) :=
    following (weaken (ppDriven W) (fun _ => restingLow) (fun _ _ => id)) (loadDriven W data _ _)
  refine following load (following (weaken (selectDriven W blockNumber) (fun _ => drivenLow) (fun _ _ => id)) ?_)
  exact weaken (shakeResting W program_block num_bits_program_block (fun _ => id) (done (fun _ => id)))
    (fun _ => drivenLow) (fun _ _ => id)

theorem readResting (targetAddress : UInt8) : Triple (Resting (δ := δ)) (readByte W targetAddress) (fun _ => Resting) := by
  refine following (vectorAgain W _ _) (following (weaken (ppDriven W) (fun _ => restingLow) (fun _ _ => id)) ?_)
  refine following (sendDriven W _ _) (following (clockDriven W) (following (clockDriven W) ?_))
  refine following (weaken (hiZResting W) (fun _ => drivenLow) (fun _ _ => id)) (receiveResting W (fun byte => ?_))
  exact following (vectorAgain W _ _) (done (fun _ => id))

theorem verifyResting (data : Bytes) (targetAddress : UInt8) :
    Triple (Resting (δ := δ)) (verifyBytes W data targetAddress) (fun _ => Resting) := by
  induction data generalizing targetAddress with
  | nil => exact done (fun _ => id)
  | cons expected rest ih =>
    exact andThen (readResting W targetAddress) (fun _ => branch (fun _ => done (fun _ => id)) (fun _ => ih _))

theorem blockVerifyResting (blockNumber : UInt8) (data : Bytes) :
    Triple (Resting (δ := δ)) (targetBlockVerify W blockNumber data) (fun _ => Resting) := by
  refine following (weaken (selectDriven W blockNumber) (fun _ => restingLow) (fun _ _ => id)) ?_
  exact weaken (shakeResting W verify_setup_v num_bits_verify_setup (fun _ => id) (verifyResting W data _))
    (fun _ => drivenLow) (fun _ _ => id)

theorem checksumResting (pAcc : UInt16) : Triple (Resting (δ := δ)) (targetBankChecksumGet W pAcc) (fun _ => Resting) := by
  refine shakeAgain W checksum_v num_bits_checksum ?_
  refine following (vectorAgain W _ _) (following (clockResting W) (following (clockResting W) ?_))
  refine receiveResting W (fun high => following (vectorAgain W _ _) ?_)
  refine following (clockResting W) (following (clockResting W) (receiveResting W (fun low => ?_)))
  exact following (vectorAgain W _ _) (done (fun _ => id))

theorem securityDriven (data : Bytes) (targetAddress : UInt8) :
    Triple (Driven (δ := δ)) (securityBytes W data targetAddress) (fun _ => Driven) := by
  induction data generalizing targetAddress with
  | nil => exact done (fun _ => id)
  | cons temp rest ih => exact following (writeDriven W _ _) (ih _)

theorem securityFlashResting (data : Bytes) :
    Triple (Resting (δ := δ)) (targetSecurityFlash W data) (fun _ => Resting) := by
  refine following (weaken (ppDriven W) (fun _ => restingLow) (fun _ _ => id)) (following (securityDriven W _ _) ?_)
  exact weaken (shakeResting W security_v num_bits_security (fun _ => id) (done (fun _ => id)))
    (fun _ => drivenLow) (fun _ _ => id)

theorem securityVerifyResting (data : Bytes) :
    Triple (Resting (δ := δ)) (targetSecurityVerify W data) (fun _ => Resting) :=
  shakeAgain W securityVerification_v num_bits_securityVerification (verifyResting W _ _)

end Operations
section MainLoop
open CommandLoop MainLoop

theorem keepsResting (W : Wire δ) : Keeps (isspTarget W) Resting where
  targetInitialize := initializeResting W
  targetSiliconIDVerify := siliconResting W
  targetErase := eraseResting W
  targetBlockProgram k data s holds := by
    have programmed := programResting W data k s holds
    rwa [bindRun] at programmed
  targetBlockVerify k data := blockVerifyResting W k data
  targetSecurityFlash := securityFlashResting W
  targetSecurityVerify := securityVerifyResting W
  targetBankChecksumGet := checksumResting W 0x0000
  targetReStart := reStartResting W

theorem initResting (d : δ) : Resting (boardInit d) := ⟨d,rfl,rfl,rfl,rfl,by simp [boardInit]⟩

/-- From power-up on, whatever bytes arrive and whatever the other end answers, the bus
is used in order and is released at the end of every command, successful or not. -/
theorem disciplined (W : Wire δ) (d : δ) (checksum : UInt16) (bytes : Bytes) (b : Board (Bus δ))
    (fed : feed (isspTarget W) (powerUp checksum (boardInit d)) bytes = some b) :
    (∀ e ∈ b.firmware.target.log, Disciplined e) ∧
    b.firmware.target.port.sdataMode = .input ∧ b.firmware.target.port.sclk = false ∧
    b.firmware.target.port.xres = false := by
  obtain ⟨_,drive,low,reset,_,clean⟩ := feedKeeps (keepsResting W) (initResting d) fed
  exact ⟨clean,drivenInput.mp drive,low,reset⟩

/- A wire that gives the samples of a sequence, whatever is done with the clock. -/
def samples (level : Nat → Bool) : Wire Nat := ⟨fun _ n => n,fun n => (level n,n + 1)⟩

/- The chip is erased and its handshake comes at once. -/
def erasedBus : Option (Board (Bus Nat)) :=
  feed (isspTarget (samples (fun n => n % 2 == 0))) (powerUp 0 (boardInit 0)) [Ascii.b,Ascii.newline]

theorem erasedBusLog : erasedBus.map (fun b => (b.firmware.target.device,b.log)) =
    some (2,[.command Ascii.b Ascii.newline,.performed (.targetErase false),.replied (reply Ascii.b Ascii.zero)]) := by
  decide +kernel

theorem disciplinedErase : ∃ b, erasedBus = some b ∧ .performed (.targetErase false) ∈ b.log ∧
    (∀ e ∈ b.firmware.target.log, Disciplined e) ∧ b.firmware.target.port.sdataMode = .input ∧
    b.firmware.target.port.sclk = false ∧ b.firmware.target.port.xres = false := by
  obtain ⟨b,fed,log⟩ := Option.map_eq_some_iff.mp erasedBusLog
  have erased : Entry.performed (.targetErase false) ∈ b.log := by rw [(Prod.mk.inj log).2]; simp
  exact ⟨b,fed,erased,disciplined _ _ _ _ b fed⟩

end MainLoop
end HsspProgrammer.BusDiscipline
