import HsspProgrammer.Threads

/-! The transmit buffer between the two threads: what `write` is given leaves through
the port once and in order, for every interleaving and every accepted prefix. -/
namespace HsspProgrammer.TransmitBuffer
open Ascii (Bytes)
open Threads

def holdsGui : Gui → Bool
  | .connectLocked | .connectUnlock | .disconnectLocked | .disconnectUnlock | .appending _ _ | .appended _ => true
  | _ => false

def holdsSerial : Serial → Bool
  | .transmit | .waitWritten _ | .unlock | .unlockTimeout => true
  | _ => false

/- The `write` calls the running slot still makes. -/
def pendingWrites : Gui → List Bytes
  | .writing pending | .appended pending => pending
  | .appending ba pending => ba :: pending
  | _ => []

/- The bytes that have not been handed to the port: between `serial.write` and the
removal the buffer still begins with those that have. -/
def unsent (m_txBuf : Bytes) : Serial → Bytes
  | .waitWritten bytesWritten => m_txBuf.drop (bytesWritten.getD 0)
  | _ => m_txBuf

structure Buffered (s : State) : Prop where
  gui : holdsGui s.gui = true → s.m_mutex = some .gui
  serial : holdsSerial s.serial = true → s.m_mutex = some .serial
  balance : s.timedOut = false → s.handed ++ unsent s.m_txBuf s.serial = s.calls.flatten
  pending : s.calls ++ pendingWrites s.gui = s.slots.flatten

section Steps
variable {s t : State}

theorem guiAlone (buffered : Buffered s) (holds : holdsGui s.gui = true) : holdsSerial s.serial = false := by
  rw [← Bool.not_eq_true]
  intro also
  have mine := buffered.gui holds
  rw [buffered.serial also] at mine
  contradiction

theorem unsentOutside {serial : Serial} (outside : holdsSerial serial = false) (m_txBuf : Bytes) :
    unsent m_txBuf serial = m_txBuf := by
  cases serial with
  | waitWritten => contradiction
  | _ => rfl

/- Taking and leaving the lock move no bytes. -/
theorem lockGui (buffered : Buffered s) (free : s.m_mutex = none) {g : Gui}
    (same : pendingWrites g = pendingWrites s.gui) : Buffered {s with m_mutex := some .gui, gui := g} := by
  obtain ⟨gui,serial,balance,pending⟩ := buffered
  refine ⟨fun _ => rfl,fun holds => ?_,balance,same ▸ pending⟩
  have other := serial holds
  rw [free] at other
  contradiction

theorem unlockGui (buffered : Buffered s) (held : holdsGui s.gui = true) {g : Gui} (out : holdsGui g = false)
    (same : pendingWrites g = pendingWrites s.gui) : Buffered {s with m_mutex := none, gui := g} := by
  have alone := guiAlone buffered held
  obtain ⟨gui,serial,balance,pending⟩ := buffered
  refine ⟨fun holds => ?_,fun holds => ?_,balance,same ▸ pending⟩
  · rw [out] at holds
    contradiction
  · rw [alone] at holds
    contradiction

theorem guiBuffered (buffered : Buffered s) (now : s.guiStep = some t) : Buffered t := by
  have alone := guiAlone buffered
  unfold State.guiStep at now
  split at now <;> rename_i pc <;> rw [pc] at alone
  case h_1 => contradiction
  case h_2 | h_7 | h_12 =>
    split at now <;> try contradiction
    cases Option.some.inj now
    exact lockGui buffered (by assumption) (by rw [pc]; rfl)
  case h_4 | h_9 | h_14 =>
    cases Option.some.inj now
    exact unlockGui buffered (by rw [pc]; rfl) rfl (by rw [pc]; rfl)
  all_goals
    obtain ⟨gui,serial,balance,pending⟩ := buffered
    rw [pc] at gui pending
  case h_3 =>
    -- `connect` empties the buffer and the account begins anew
    cases Option.some.inj now
    exact ⟨fun _ => gui rfl,serial,fun _ => unsentOutside (alone rfl) [],rfl⟩
  case h_5 =>
    split at now
    · cases Option.some.inj now
      exact ⟨nofun,serial,balance,pending⟩
    · rename_i gone
      have ended : s.serial = .finished := by simpa [State.isRunning] using gone
      rw [ended] at balance
      cases Option.some.inj now
      exact ⟨nofun,nofun,balance,pending⟩
  case h_6 | h_11 =>
    cases Option.some.inj now
    exact ⟨nofun,serial,balance,pending⟩
  case h_8 =>
    cases Option.some.inj now
    exact ⟨fun _ => gui rfl,serial,balance,pending⟩
  case h_10 =>
    split at now <;> try contradiction
    cases Option.some.inj now
    exact ⟨nofun,serial,balance,pending⟩
  case h_13 ba rest =>
    cases Option.some.inj now
    have outside := unsentOutside (alone rfl)
    refine ⟨fun _ => gui rfl,serial,fun fine => ?_,?_⟩
    · have before := balance fine
      rw [outside] at before ⊢
      rw [← List.append_assoc,before,List.flatten_append,List.flatten_singleton]
    · rw [← pending]
      exact List.append_assoc ..

/-- A slot adds its calls to those that are due. -/
theorem slotBuffered (buffered : Buffered s) (idle : s.gui = .events) (r : MainWindow.Reaction) :
    Buffered (s.slot r) := by
  obtain ⟨gui,serial,balance,pending⟩ := buffered
  rw [idle] at pending
  refine ⟨nofun,serial,balance,?_⟩
  have before : s.calls = s.slots.flatten := by simpa [pendingWrites] using pending
  simp [State.slot,pendingWrites,before]

/- Steps of the other thread that leave the buffer alone. -/
theorem moveSerial (buffered : Buffered s) {u : Serial} (held : holdsSerial u = true → holdsSerial s.serial = true)
    (same : unsent s.m_txBuf u = unsent s.m_txBuf s.serial) : Buffered {s with serial := u} :=
  ⟨buffered.gui,fun holds => buffered.serial (held holds),same ▸ buffered.balance,buffered.pending⟩

theorem unlockSerial (buffered : Buffered s) (held : holdsSerial s.serial = true) {u : Serial}
    (out : holdsSerial u = false) (same : unsent s.m_txBuf u = unsent s.m_txBuf s.serial) :
    Buffered {s with m_mutex := none, serial := u} := by
  refine ⟨fun holds => ?_,fun holds => ?_,same ▸ buffered.balance,buffered.pending⟩
  · rw [guiAlone buffered holds] at held
    contradiction
  · rw [out] at holds
    contradiction

theorem serialBuffered (buffered : Buffered s) (now : s.serialStep = some t) : Buffered t := by
  unfold State.serialStep at now
  split at now <;> rename_i pc <;> try contradiction
  case h_2 =>
    split at now <;> cases Option.some.inj now <;> exact moveSerial buffered nofun (by rw [pc]; rfl)
  case h_3 =>
    split at now <;> try contradiction
    rename_i free
    cases Option.some.inj now
    obtain ⟨gui,serial,balance,pending⟩ := buffered
    rw [pc] at balance
    refine ⟨fun holds => ?_,fun _ => rfl,balance,pending⟩
    rw [gui holds] at free
    contradiction
  case h_4 =>
    split at now <;> try contradiction
    cases Option.some.inj now
    exact moveSerial buffered (fun _ => by rw [pc]; rfl) (by rw [pc]; rfl)
  case h_5 | h_7 =>
    cases Option.some.inj now
    exact unlockSerial buffered (by rw [pc]; rfl) rfl (by rw [pc]; rfl)
  case h_6 | h_9 =>
    cases Option.some.inj now
    exact moveSerial buffered nofun (by rw [pc]; rfl)
  case h_1 | h_8 =>
    cases Option.some.inj now
    have moved := moveSerial buffered (u := .opening) nofun (by rw [pc]; rfl)
    exact ⟨moved.gui,nofun,moved.balance,moved.pending⟩

/-- The prefix that the port accepts is what is removed when the wait succeeds. -/
theorem acceptedBuffered (buffered : Buffered s) (pc : s.serial = .transmit) (bytesWritten : Option Nat) :
    Buffered {s with
      handed := s.handed ++ s.m_txBuf.take (bytesWritten.getD 0), serial := .waitWritten bytesWritten} := by
  obtain ⟨gui,serial,balance,pending⟩ := buffered
  rw [pc] at serial balance
  refine ⟨gui,fun _ => serial rfl,fun fine => ?_,pending⟩
  rw [← balance fine]
  simp [unsent]

theorem writtenBuffered (buffered : Buffered s) {bytesWritten : Option Nat}
    (pc : s.serial = .waitWritten bytesWritten) :
    Buffered {s with m_txBuf := s.m_txBuf.drop (bytesWritten.getD 0), serial := .unlock} ∧
    Buffered {s with timedOut := true, serial := .unlockTimeout} := by
  obtain ⟨gui,serial,balance,pending⟩ := buffered
  rw [pc] at serial balance
  exact ⟨⟨gui,fun _ => serial rfl,balance,pending⟩,⟨gui,fun _ => serial rfl,nofun,pending⟩⟩

theorem stepBuffered {a : Action} (buffered : Buffered s) (now : step s a = some t) : Buffered t := by
  cases a with
  | gui => exact guiBuffered buffered now
  | serial => exact serialBuffered buffered now
  | choosePort portName =>
    obtain ⟨_,now⟩ := Option.ite_none_right_eq_some.mp now
    cases Option.some.inj now
    exact ⟨buffered.gui,buffered.serial,buffered.balance,buffered.pending⟩
  | openFile file =>
    obtain ⟨_,now⟩ := Option.ite_none_right_eq_some.mp now
    cases Option.some.inj now
    exact ⟨buffered.gui,buffered.serial,buffered.balance,buffered.pending⟩
  | clickFlash =>
    obtain ⟨⟨idle,_⟩,now⟩ := Option.ite_none_right_eq_some.mp now
    cases Option.some.inj now
    exact slotBuffered buffered idle _
  | received msg =>
    obtain ⟨_,now⟩ := Option.ite_none_right_eq_some.mp now
    cases Option.some.inj now
    exact ⟨buffered.gui,buffered.serial,buffered.balance,buffered.pending⟩
  | accepted bytesWritten =>
    obtain ⟨⟨pc,_⟩,now⟩ := Option.ite_none_right_eq_some.mp now
    cases Option.some.inj now
    exact acceptedBuffered buffered pc bytesWritten
  | written ok =>
    simp only [step] at now
    split at now <;> try contradiction
    rename_i pc
    split at now <;> cases Option.some.inj now
    · exact (writtenBuffered buffered pc).1
    · exact (writtenBuffered buffered pc).2
  | opened ok =>
    obtain ⟨pc,now⟩ := Option.ite_none_right_eq_some.mp now
    split at now <;> cases Option.some.inj now
    · exact moveSerial buffered nofun (by rw [pc]; rfl)
    · have moved := moveSerial buffered (u := .leaving) nofun (by rw [pc]; rfl)
      exact ⟨moved.gui,moved.serial,moved.balance,moved.pending⟩
  | waitTimeout =>
    obtain ⟨pc,now⟩ := Option.ite_none_right_eq_some.mp now
    cases Option.some.inj now
    have before := buffered.pending
    rw [pc] at before
    exact ⟨nofun,buffered.serial,buffered.balance,before⟩
  | clickConnect =>
    obtain ⟨idle,now⟩ := Option.ite_none_right_eq_some.mp now
    have before := buffered.pending
    rw [idle] at before
    split at now <;> cases Option.some.inj now <;> exact ⟨nofun,buffered.serial,buffered.balance,before⟩
  | deliver =>
    obtain ⟨idle,now⟩ := Option.ite_none_right_eq_some.mp now
    unfold State.deliver at now
    split at now <;> try contradiction
    · cases Option.some.inj now
      exact ⟨buffered.gui,buffered.serial,buffered.balance,buffered.pending⟩
    · cases Option.some.inj now
      exact ⟨buffered.gui,buffered.serial,buffered.balance,buffered.pending⟩
    · rename_i ba queue head
      cases Option.some.inj now
      have taken : Buffered {s with queue := queue} :=
        ⟨buffered.gui,buffered.serial,buffered.balance,buffered.pending⟩
      exact slotBuffered taken idle _

end Steps
section Runs
open Transition

theorem startBuffered (w : MainWindow.Window) (portName : String) : Buffered (atStart w portName) :=
  ⟨nofun,nofun,fun _ => rfl,rfl⟩

/-- Since the last `connect` and as long as no write has timed out, the port has been
given what `write` was given, in order and once, up to what is still in the buffer; and
what one slot has written follows what the slots before it have written in one piece. -/
theorem transmitted {w : MainWindow.Window} {portName : String} {as : List Action} {s : State}
    (run : Run step (fun _ _ => True) (atStart w portName) as s) (fine : s.timedOut = false) :
    (s.m_mutex ≠ some .serial → s.handed ++ s.m_txBuf = s.calls.flatten) ∧
    s.handed ++ unsent s.m_txBuf s.serial = s.calls.flatten ∧
    ∀ before slot after, s.slots = before ++ slot :: after →
      s.handed ++ (unsent s.m_txBuf s.serial ++ (pendingWrites s.gui).flatten) =
        before.flatten.flatten ++ (slot.flatten ++ after.flatten.flatten) := by
  have buffered := runInvariant Buffered (fun _ _ _ inv _ now => stepBuffered inv now) run (startBuffered w portName)
  have balance := buffered.balance fine
  refine ⟨fun free => ?_,balance,fun before slot after split => ?_⟩
  · have outside : holdsSerial s.serial = false := by
      rw [← Bool.not_eq_true]
      exact fun holds => free (buffered.serial holds)
    rwa [unsentOutside outside] at balance
  · calc s.handed ++ (unsent s.m_txBuf s.serial ++ (pendingWrites s.gui).flatten)
        = (s.calls ++ pendingWrites s.gui).flatten := by rw [← List.append_assoc,balance,List.flatten_append]
      _ = s.slots.flatten.flatten := by rw [buffered.pending]
      _ = before.flatten.flatten ++ (slot.flatten ++ after.flatten.flatten) := by simp [split]

/- The reply to the erasure comes in and the port takes ten bytes of what its slot writes. -/
def blockActions : List Action :=
  [.clickConnect,.gui,.gui,.gui,.gui,.gui,.serial,.opened true,.serial,.serial,.serial,.serial,
   .received [Ascii.b,Ascii.newline,Ascii.zero,Ascii.newline],.deliver,.gui,.gui,.gui,.gui,.gui,.gui,.gui,
   .serial,.serial,.serial,.accepted (some 10),.written true,.serial]

def fileLoaded : MainWindow.Window := ⟨Loader.noGlobals,0,false,true⟩

theorem transmittedBlock : ∃ s, Run step (fun _ _ => True) (atStart fileLoaded "ttyACM0") blockActions s ∧
    s.handed = [Ascii.c,Ascii.newline] ++ List.replicate 8 0 ∧
    s.handed ++ (unsent s.m_txBuf s.serial ++ (pendingWrites s.gui).flatten) =
      [] ++ ([Ascii.c,Ascii.newline] ++ List.replicate 64 0 ++ []) := by
  obtain ⟨s,run,port,slots,fine⟩ : ∃ s, Run step (fun _ _ => True) (atStart fileLoaded "ttyACM0") blockActions s ∧
      s.handed = [Ascii.c,Ascii.newline] ++ List.replicate 8 0 ∧
      s.slots = [] ++ [[Ascii.c,Ascii.newline],List.replicate 64 0] :: [] ∧ s.timedOut = false :=
    ⟨_,runEvaluated rfl,rfl,rfl,rfl⟩
  exact ⟨s,run,port,(transmitted run fine).2.2 _ _ _ slots⟩

end Runs
end HsspProgrammer.TransmitBuffer
