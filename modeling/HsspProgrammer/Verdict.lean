import HsspProgrammer.Completion
import HsspProgrammer.HexImage
import HsspProgrammer.Performing

/-! What the report of the restart is worth. Between sessions the user may load and
click at will; within a session a File/Open decides what is flashed. -/
namespace HsspProgrammer.Verdict
open Ascii (Bytes)
open Loader (Globals File noGlobals)
open CommandLoop hiding execute consume
open Programmer Exchange Conversation Sessions Progress Completion
open Performing (Performed performedRun)

variable {τ : Type} {T : Target τ}

/-- The restart is reported only after everything has been done for this session, and what
the log says has been done to the target. -/
theorem undisturbedSound {s t : Sys τ} {as : List Action} (idle : Idle s) (fresh : s.log = [])
    (run : Transition.Run (step T) Undisturbed s as t) :
    Sound t.log ∧ Performed T s.firmware.target (operations t.log) t.firmware.target :=
  ⟨(faithfulRun idle fresh (Transition.runWeaken undisturbedKept run)).sound,performedRun fresh idle.top run⟩

theorem protocolUndisturbed (s : Sys τ) (a : Action) (protocol : Protocol a) : Undisturbed s a := by
  cases a <;> trivial

/- A session of a blank image does report it. -/
theorem undisturbedSoundBlank : ∃ as t,
    Transition.Run (step (obliging (total noGlobals BLOCKS_PER_BANK))) Undisturbed (connected noGlobals ()) as t ∧
    .reported .reStarted ∈ t.log ∧ Sound t.log ∧
    Performed (obliging (total noGlobals BLOCKS_PER_BANK)) () (operations t.log) t.firmware.target := by
  obtain ⟨s,as,t,clicked,run,reported⟩ := clickRestarts noGlobals
  have allowed : Undisturbed (connected noGlobals ()) .flash := rfl
  have whole := Transition.Run.cons allowed clicked (Transition.runWeaken protocolUndisturbed run)
  exact ⟨_,t,whole,reported,undisturbedSound (connectedIdle _ _) rfl whole⟩

/-- Up to the first answer of the target, what is loaded is what the session is about. -/
theorem openedEarly {image : Globals} {s t : Sys τ} {checksum : UInt16}
    (good : Flashing image s ⟨[],.asked .initial checksum⟩) (live : Live true t ⟨[],.asked .initial checksum⟩)
    (online : t.online = true) (written : t.written = s.written) (log : t.log = s.log) :
    Flashing t.window.globals t ⟨[],.asked .initial checksum⟩ := by
  refine ⟨live,online,?_,fun _ _ _ => ⟨fun _ _ _ => rfl,fun _ => rfl⟩⟩
  have stage := good.stage
  rw [log,written]
  generalize latest s.log = session at stage
  cases stage with
  | asked running place ops right summed => exact .asked running place ops trivial trivial

/- A session of a blank image, with one File/Open right after the click. -/
theorem openedSession {image : Globals} (choice : Option (Option File))
    (other : (MainWindow.fileOpen (connected noGlobals ()).window choice).globals = image) : ∃ s₁ s₂ s₃ as t,
    step (obliging (total image BLOCKS_PER_BANK)) (connected noGlobals ()) .flash = some s₁ ∧
    step (obliging (total image BLOCKS_PER_BANK)) s₁ .slotWrite = some s₂ ∧
    step (obliging (total image BLOCKS_PER_BANK)) s₂ (.fileOpen choice) = some s₃ ∧
    s₂.window = (connected noGlobals ()).window ∧
    Transition.Run (step (obliging (total image BLOCKS_PER_BANK))) (fun _ a => Protocol a) s₃ as t ∧
    .reported .reStarted ∈ t.log ∧ SoundFor (fun _ => image) t.log ∧
    ∃ events, t.log = .click noGlobals 0 :: events ∧ ∀ event ∈ events, Plain event := by
  have start : ∃ s₁ s₂, step (obliging (total image BLOCKS_PER_BANK)) (connected noGlobals ()) .flash = some s₁ ∧
      step (obliging (total image BLOCKS_PER_BANK)) s₁ .slotWrite = some s₂ ∧ s₂.slot = [] ∧
      s₂.window = (connected noGlobals ()).window ∧ s₂.online = true ∧ s₂.written = s₁.written ∧ s₂.log = s₁.log :=
    ⟨_,_,rfl,rfl,rfl,rfl,rfl,rfl,rfl⟩
  obtain ⟨s₁,s₂,clicked,wrote,slot,window,online,written,log⟩ := start
  have loaded : step (obliging (total image BLOCKS_PER_BANK)) s₂ (.fileOpen choice) =
      some {s₂ with window := MainWindow.fileOpen s₂.window choice} := if_pos slot
  obtain ⟨good,_,click⟩ := flashingClick (flashingIdle (connectedIdle _ _) rfl) rfl clicked
  have late := openedEarly good (liveFileOpen (liveSlotWrite good.live wrote) loaded) online written log
  rw [window,other] at late
  have before : s₂.log = [.click noGlobals 0] := log.trans click
  have sound : SoundFor (fun _ => image) s₂.log := by
    rw [before]
    exact soundOther (soundNothing _) (by simp)
  obtain ⟨as,t,events,run,after,reported,_,plain,sound,_⟩ := restarts late (by simp) sound
  refine ⟨s₁,s₂,_,as,t,clicked,wrote,loaded,window,window ▸ run,?_,sound,events,?_,plain⟩
  · rw [after]
    exact List.mem_append_right _ reported
  · rw [after,before]
    rfl

/-- What has not been sent yet must stay as it was. -/
theorem unsentKeptSound {s t : Sys τ} {as : List Action} (idle : Idle s) (fresh : s.log = [])
    (run : Transition.Run (step T) UnsentKept s as t) :
    Sound t.log ∧ Performed T s.firmware.target (operations t.log) t.firmware.target :=
  ⟨(faithfulRun idle fresh run).sound,performedRun fresh idle.top run⟩

/- One data record with the bytes of another block 0. -/
def otherBlock : File := ⟨HexImage.record .block 0 (List.replicate 64 0xFF),fun _ _ => 0⟩

/-- With the last request everything has been sent, so any file may be opened. -/
theorem lastOpened {image : Globals} {s t : Sys τ} {checksum : UInt16} {choice : Option (Option File)}
    (good : Flashing image s ⟨[],.asked .reStart checksum⟩) (ran : step T s (.fileOpen choice) = some t) :
    UnsentKept s (.fileOpen choice) ∧ Flashing image t ⟨[],.asked .reStart checksum⟩ ∧ t.log = s.log := by
  have kept : UnsentKept s (.fileOpen choice) := by
    intro session now _
    have stage := good.stage
    rw [now] at stage
    cases stage with
    | asked _ place =>
      simp only [count] at place
      exact ⟨fun k inside soon => by simp only [BLOCKS_PER_BANK] at inside; omega,fun soon => by omega⟩
  have live := liveFileOpen good.live ran
  have first := good.inPlace
  have stage := good.stage
  obtain ⟨_,ran⟩ := Option.ite_none_right_eq_some.mp ran
  cases ran
  exact ⟨kept,⟨live,good.online,stage,fun session now running => inPlaceTrans (first session now running)
    (kept session now running)⟩,rfl⟩

/- A session of a blank image, and a file with another block 0 once all is sent. -/
theorem unsentKeptSoundBlank : ∃ as bs t,
    Transition.Run (step (obliging (total noGlobals BLOCKS_PER_BANK))) UnsentKept (connected noGlobals ())
      (.flash :: as ++ .fileOpen (some (some otherBlock)) :: bs) t ∧ .reported .reStarted ∈ t.log ∧ Sound t.log ∧
    Performed (obliging (total noGlobals BLOCKS_PER_BANK)) () (operations t.log) t.firmware.target := by
  have clicked : ∃ s, step (obliging (total noGlobals BLOCKS_PER_BANK)) (connected noGlobals ()) .flash = some s := ⟨_,rfl⟩
  obtain ⟨s,clicked⟩ := clicked
  obtain ⟨good,_,log⟩ := flashingClick (flashingIdle (connectedIdle _ _) rfl) rfl clicked
  have sound : SoundFor (fun _ => noGlobals) s.log := log ▸ soundOther (soundNothing _) (by simp)
  obtain ⟨as₁,s₁,checksum,asks,good₁,sound₁⟩ := lastRequest good (by simp) rfl sound
  obtain ⟨as₂,s₂,writes,good₂,slot,log₂⟩ := slotEmptied (T := obliging (total noGlobals BLOCKS_PER_BANK)) good₁
  obtain ⟨s₃,opens⟩ : ∃ s₃, step (obliging (total noGlobals BLOCKS_PER_BANK)) s₂ (.fileOpen (some (some otherBlock))) = some s₃ :=
    ⟨_,if_pos slot⟩
  obtain ⟨kept,good₃,log₃⟩ := lastOpened good₂ opens
  obtain ⟨bs,t,past,run,restarted⟩ := restarts good₃ (by simp) (by rw [log₃,log₂]; exact sound₁)
  have reported : .reported .reStarted ∈ t.log := by
    rw [restarted.log]
    exact List.mem_append_right _ restarted.reported
  have protocol : ∀ (s : Sys Unit) a, Protocol a → UnsentKept s a := by
    intro s a protocol
    cases a <;> trivial
  have clicks : UnsentKept (connected noGlobals ()) .flash := rfl
  have whole := Transition.runAppend
    (.cons clicks clicked (Transition.runWeaken protocol (Transition.runAppend asks writes)))
    (.cons kept opens (Transition.runWeaken protocol run))
  exact ⟨as₁ ++ as₂,bs,t,whole,reported,unsentKeptSound (connectedIdle _ _) rfl whole⟩

/- File/Open at any moment, as the window allows it. -/
def Loading (s : Sys τ) : Action → Prop
  | .flash => sessionOpen s.log = false
  | a => Connected a

theorem openedGlobals (w : MainWindow.Window) (file : File) :
    (MainWindow.fileOpen w (some (some file))).globals = (Loader.load w.globals (some file)).2 := rfl

theorem otherRow : row (Loader.load noGlobals (some otherBlock)).2 0 ≠ row noGlobals 0 := by
  decide +kernel

/- The restart is reported for a session whose blocks are not those of its image. -/
theorem loadingUnsound : ¬ ∀ (T : Target Unit) (s t : Sys Unit) (as : List Action), Idle s → s.log = [] →
    Transition.Run (step T) Loading s as t → Sound t.log := by
  intro claim
  obtain ⟨s₁,s₂,s₃,as,t,clicked,wrote,loaded,_,run,reported,sound,events,log,plain⟩ :=
    openedSession (some (some otherBlock)) (openedGlobals _ otherBlock)
  have clicks : Loading (connected noGlobals ()) .flash := rfl
  have writes : Loading s₁ .slotWrite := trivial
  have opens : Loading s₂ (.fileOpen (some (some otherBlock))) := trivial
  have protocol : ∀ (s : Sys Unit) a, Protocol a → Loading s a := by
    intro s a protocol
    cases a <;> trivial
  have whole := Transition.Run.cons clicks clicked (.cons writes wrote (.cons opens loaded
    (Transition.runWeaken protocol run)))
  obtain ⟨front,back,split⟩ := List.append_of_mem reported
  obtain ⟨session,now,ops⟩ := claim _ _ _ _ (connectedIdle _ _) rfl whole front back split
  obtain ⟨session',now',ops'⟩ := sound front back split
  cases Option.some.inj (now.symm.trans now')
  have own : session.image = noGlobals := by
    cases front with
    | nil => cases now
    | cons event front =>
      rw [log] at split
      obtain ⟨rfl,rest⟩ := List.cons.inj split
      have quiet : ∀ event ∈ front, Plain event := fun event inside => plain event (by rw [rest]; simp [inside])
      have first := latestAppend [.click noGlobals 0] quiet
      rw [List.singleton_append,now] at first
      cases Option.some.inj first
      rfl
  rw [own] at ops
  have same : expected noGlobals = expected (Loader.load noGlobals (some otherBlock)).2 := ops.symm.trans ops'
  have loads := congrArg (fun ops : List Op => ops[3]?) same
  exact otherRow (Op.targetLoad.inj (Option.some.inj loads)).symm

end HsspProgrammer.Verdict
