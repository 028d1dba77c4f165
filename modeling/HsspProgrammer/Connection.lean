import HsspProgrammer.Threads

/-! What a connected window says about the serial thread, for every interleaving of the
two threads with clicks, port choices and deliveries. -/
namespace HsspProgrammer.Connection
open Threads Transition

/- `run` has not left its loop, or is about to enter it. -/
def inLoop : Serial → Bool
  | .finished | .leaving => false
  | _ => true

/- The port of the last `run`, read by it at its start. -/
def servedPort (s : State) : String := if s.serial = .started then s.m_portName else s.portName

/- A signal that the window will take as the end of the last `run`. -/
def endQueued (s : State) : Prop := .serialError s.runs ∈ s.queue ∨ .serialTimeout s.runs ∈ s.queue

def Live (s : State) : Prop := servedPort s = s.chosen ∧ (inLoop s.serial = true ∨ endQueued s)

/- The slot of a Disconnect click is still at work. -/
def disconnecting : Gui → Bool
  | .disconnect | .disconnectLocked | .disconnectUnlock | .disconnectWait => true
  | _ => false

/- The slot of a Connect click. -/
def connecting : Gui → Bool
  | .connect | .connectLocked | .connectUnlock | .connectStart | .connectDone => true
  | _ => false

/- That slot has assigned `m_portName` and `m_quit`. -/
def assigned : Gui → Bool
  | .connectUnlock | .connectStart | .connectDone => true
  | _ => false

/- The window says connected, and is not taking it back just now. -/
def Connected (s : State) : Prop := s.window.m_fConnected = true ∧ disconnecting s.gui = false

/- Where `connect` finds a `run` that has not returned, it is one that serves the chosen
port. -/
def CleanConnect (s : State) : Action → Prop
  | .gui => s.gui = .connectStart → s.isRunning = true → Live s
  | _ => True

structure Serving (s : State) : Prop where
  unconnected : connecting s.gui = true → s.window.m_fConnected = false
  named : assigned s.gui = true ∨ s.window.m_fConnected = true → s.m_portName = s.chosen
  unquit : assigned s.gui = true ∨ Connected s → s.m_quit = false
  live : s.gui = .connectDone ∨ Connected s → Live s

section Steps
variable {s t : State}

/-- A step of the serial thread leaves what the window decides alone. -/
theorem serialFrame (now : s.serialStep = some t) : t.window = s.window ∧ t.gui = s.gui ∧
    t.m_portName = s.m_portName ∧ t.chosen = s.chosen ∧ t.m_quit = s.m_quit ∧ t.runs = s.runs := by
  unfold State.serialStep at now
  split at now
  all_goals first
    | contradiction
    | (cases Option.some.inj now; exact ⟨rfl,rfl,rfl,rfl,rfl,rfl⟩)
    | (split at now <;> first | contradiction | (cases Option.some.inj now; exact ⟨rfl,rfl,rfl,rfl,rfl,rfl⟩))

/-- The thread leaves its loop with a signal, or because it has been told to quit. -/
theorem serialLive (unquit : s.m_quit = false) (live : Live s) (now : s.serialStep = some t) : Live t := by
  obtain ⟨served,running⟩ := live
  unfold State.serialStep at now
  split at now <;> rename_i pc <;> try contradiction
  all_goals rw [servedPort,pc] at served; rw [pc] at running
  case h_1 =>
    cases Option.some.inj now
    exact ⟨served,.inl rfl⟩
  case h_2 =>
    rw [unquit] at now
    cases Option.some.inj now
    exact ⟨served,.inl rfl⟩
  case h_3 | h_4 =>
    split at now <;> try contradiction
    cases Option.some.inj now
    exact ⟨served,.inl rfl⟩
  case h_5 | h_6 | h_7 =>
    cases Option.some.inj now
    exact ⟨served,.inl rfl⟩
  case h_8 =>
    cases Option.some.inj now
    exact ⟨served,.inr (.inr (by simp))⟩
  case h_9 =>
    cases Option.some.inj now
    refine ⟨served,.inr ?_⟩
    rcases running with inside | queued
    · contradiction
    · exact queued

/-- Steps of the other thread keep the invariant if they keep the connection alive. -/
theorem otherThread (serving : Serving s) (window : t.window = s.window) (gui : t.gui = s.gui)
    (portName : t.m_portName = s.m_portName) (chosen : t.chosen = s.chosen) (quit : t.m_quit = s.m_quit)
    (keeps : s.m_quit = false → Live s → Live t) : Serving t := by
  obtain ⟨unconnected,named,unquit,live⟩ := serving
  have same : Connected t ↔ Connected s := by rw [Connected,Connected,window,gui]
  refine ⟨by rwa [gui,window],by rwa [gui,window,portName,chosen],by rwa [gui,same,quit],?_⟩
  rw [gui,same]
  intro connected
  refine keeps (unquit ?_) (live connected)
  rcases connected with done | connected
  · rw [done]
    exact .inl rfl
  · exact .inr connected

/- A window that does not say connected has nothing to keep, one that disconnects only
the name of the port. -/
theorem servingOff (off : t.window.m_fConnected = false) (early : assigned t.gui = false) : Serving t := by
  have none : ¬ Connected t := fun connected => by rw [connected.1] at off; contradiction
  refine ⟨fun _ => off,?_,?_,?_⟩
  · simp [early,off]
  · simp [early,none]
  · rintro (done | connected)
    · rw [done] at early
      contradiction
    · exact absurd connected none

theorem endsApart {g : Gui} (ends : disconnecting g = true) : connecting g = false ∧ assigned g = false := by
  cases g <;> first | contradiction | exact ⟨rfl,rfl⟩

theorem servingEnds (ends : disconnecting t.gui = true)
    (named : t.window.m_fConnected = true → t.m_portName = t.chosen) : Serving t := by
  obtain ⟨apart,early⟩ := endsApart ends
  have none : ¬ Connected t := fun connected => by rw [connected.2] at ends; contradiction
  refine ⟨?_,?_,?_,?_⟩
  · simp [apart]
  · simpa [early] using named
  · simp [early,none]
  · rintro (done | connected)
    · rw [done] at early
      contradiction
    · exact absurd connected none

/- The slots that have nothing to do with the connection. -/
def plain : Gui → Bool
  | .events | .writing _ | .appending _ _ | .appended _ => true
  | _ => false

theorem plainApart {g : Gui} (now : plain g = true) :
    connecting g = false ∧ assigned g = false ∧ disconnecting g = false := by
  cases g <;> first | contradiction | exact ⟨rfl,rfl,rfl⟩

theorem servingPlain (serving : Serving s) (now : plain s.gui = true) (next : plain t.gui = true)
    (connected : t.window.m_fConnected = s.window.m_fConnected) (portName : t.m_portName = s.m_portName)
    (chosen : t.chosen = s.chosen) (quit : t.m_quit = s.m_quit) (keeps : Live s → Live t) : Serving t := by
  obtain ⟨_,named,unquit,live⟩ := serving
  obtain ⟨apart,early,stays⟩ := plainApart next
  have same : Connected t ↔ Connected s := by rw [Connected,Connected,connected,stays,(plainApart now).2.2]
  refine ⟨?_,?_,?_,?_⟩
  · simp [apart]
  · rw [early,connected,portName,chosen]
    exact fun on => named (.inr (by simpa using on))
  · rw [early,same,quit]
    exact fun on => unquit (.inr (by simpa using on))
  · rintro (done | on)
    · rw [done] at early
      contradiction
    · exact keeps (live (.inr (same.mp on)))

theorem guiServing (serving : Serving s) (clean : CleanConnect s .gui) (now : s.guiStep = some t) : Serving t := by
  have ⟨unconnected,named,unquit,live⟩ := serving
  unfold State.guiStep at now
  split at now <;> rename_i pc <;> rw [pc] at unconnected named unquit live
  case h_1 => contradiction
  case h_2 =>
    split at now <;> try contradiction
    cases Option.some.inj now
    exact servingOff (unconnected rfl) rfl
  case h_3 =>
    cases Option.some.inj now
    have off := unconnected rfl
    refine ⟨fun _ => off,fun _ => rfl,fun _ => rfl,?_⟩
    rintro (done | ⟨on,_⟩)
    · contradiction
    · rw [off] at on
      contradiction
  case h_4 =>
    cases Option.some.inj now
    have off := unconnected rfl
    refine ⟨fun _ => off,fun _ => named (.inl rfl),fun _ => unquit (.inl rfl),?_⟩
    rintro (done | ⟨on,_⟩)
    · contradiction
    · rw [off] at on
      contradiction
  case h_5 =>
    split at now <;> rename_i running <;> cases Option.some.inj now
    · exact ⟨fun _ => unconnected rfl,fun _ => named (.inl rfl),fun _ => unquit (.inl rfl),fun _ => clean pc running⟩
    · exact ⟨fun _ => unconnected rfl,fun _ => named (.inl rfl),fun _ => unquit (.inl rfl),
        fun _ => ⟨named (.inl rfl),.inl rfl⟩⟩
  case h_6 =>
    cases Option.some.inj now
    exact ⟨nofun,fun _ => named (.inl rfl),fun _ => unquit (.inl rfl),fun _ => live (.inl rfl)⟩
  case h_7 =>
    split at now <;> try contradiction
    cases Option.some.inj now
    exact servingEnds rfl (fun on => named (.inr on))
  case h_8 | h_9 =>
    cases Option.some.inj now
    exact servingEnds rfl (fun on => named (.inr on))
  case h_10 =>
    split at now <;> try contradiction
    cases Option.some.inj now
    exact servingOff rfl rfl
  case h_12 =>
    split at now <;> try contradiction
    cases Option.some.inj now
    exact servingPlain serving (by rw [pc]; rfl) rfl rfl rfl rfl rfl id
  case h_11 | h_13 | h_14 =>
    cases Option.some.inj now
    exact servingPlain serving (by rw [pc]; rfl) rfl rfl rfl rfl rfl id

theorem serialDataConnected (w : MainWindow.Window) (ba : Ascii.Bytes) :
    (MainWindow.serialData w ba).window.m_fConnected = w.m_fConnected := by
  rw [MainWindow.serialDataWindow]

theorem openConnected (w : MainWindow.Window) (file : Option (Option Loader.File)) :
    (MainWindow.fileOpen w file).m_fConnected = w.m_fConnected := by
  cases file <;> rfl

theorem deliverServing (serving : Serving s) (idle : s.gui = .events) (now : s.deliver = some t) : Serving t := by
  unfold State.deliver at now
  split at now <;> try contradiction
  · cases Option.some.inj now
    exact servingOff rfl (by rw [idle]; rfl)
  · cases Option.some.inj now
    exact servingOff rfl (by rw [idle]; rfl)
  · rename_i ba queue head
    cases Option.some.inj now
    refine servingPlain serving (by rw [idle]; rfl) rfl (serialDataConnected s.window ba) rfl rfl rfl ?_
    rintro ⟨served,inside | queued⟩
    · exact ⟨served,.inl inside⟩
    · rw [endQueued,head] at queued
      exact ⟨served,.inr (by simpa [State.slot,endQueued] using queued)⟩

/-- The invariant is kept by every step but a Connect that finds a run which does not serve. -/
theorem stepServing {a : Action} (serving : Serving s) (clean : CleanConnect s a) (now : step s a = some t) :
    Serving t := by
  cases a with
  | gui => exact guiServing serving clean now
  | serial =>
    obtain ⟨window,gui,portName,chosen,quit,_⟩ := serialFrame now
    exact otherThread serving window gui portName chosen quit (fun unquit live => serialLive unquit live now)
  | choosePort portName =>
    obtain ⟨_,now⟩ := Option.ite_none_right_eq_some.mp now
    cases Option.some.inj now
    exact otherThread serving rfl rfl rfl rfl rfl (fun _ live => live)
  | openFile file =>
    obtain ⟨idle,now⟩ := Option.ite_none_right_eq_some.mp now
    cases Option.some.inj now
    exact servingPlain serving (by rw [idle]; rfl) (by rw [idle]; rfl) (openConnected s.window file) rfl rfl rfl id
  | clickFlash =>
    obtain ⟨⟨idle,_⟩,now⟩ := Option.ite_none_right_eq_some.mp now
    cases Option.some.inj now
    exact servingPlain serving (by rw [idle]; rfl) rfl rfl rfl rfl rfl id
  | deliver =>
    obtain ⟨idle,now⟩ := Option.ite_none_right_eq_some.mp now
    exact deliverServing serving idle now
  | clickConnect =>
    obtain ⟨idle,now⟩ := Option.ite_none_right_eq_some.mp now
    split at now <;> rename_i on <;> cases Option.some.inj now
    · exact servingEnds rfl (fun on => serving.named (.inr on))
    · exact servingOff (by simpa using on) rfl
  | waitTimeout =>
    obtain ⟨_,now⟩ := Option.ite_none_right_eq_some.mp now
    cases Option.some.inj now
    exact servingOff rfl rfl
  | opened ok =>
    obtain ⟨pc,now⟩ := Option.ite_none_right_eq_some.mp now
    split at now <;> cases Option.some.inj now
    all_goals
      refine otherThread serving rfl rfl rfl rfl rfl (fun _ live => ?_)
      have served := live.1
      rw [servedPort,pc] at served
    · exact ⟨served,.inl rfl⟩
    · exact ⟨served,.inr (.inl (by simp))⟩
  | accepted bytesWritten =>
    obtain ⟨⟨pc,_⟩,now⟩ := Option.ite_none_right_eq_some.mp now
    cases Option.some.inj now
    refine otherThread serving rfl rfl rfl rfl rfl (fun _ live => ?_)
    have served := live.1
    rw [servedPort,pc] at served
    exact ⟨served,.inl rfl⟩
  | written ok =>
    simp only [step] at now
    split at now <;> try contradiction
    rename_i pc
    split at now <;> cases Option.some.inj now
    all_goals
      refine otherThread serving rfl rfl rfl rfl rfl (fun _ live => ?_)
      have served := live.1
      rw [servedPort,pc] at served
      exact ⟨served,.inl rfl⟩
  | received msg =>
    obtain ⟨⟨pc,_⟩,now⟩ := Option.ite_none_right_eq_some.mp now
    cases Option.some.inj now
    refine otherThread serving rfl rfl rfl rfl rfl (fun _ live => ?_)
    exact ⟨live.1,.inl (by rw [pc]; rfl)⟩

end Steps
section Runs
variable {w : MainWindow.Window} {portName : String}

theorem startServing : Serving (atStart w portName) := servingOff rfl rfl

/-- As long as no Connect finds a run that does not serve the chosen port, a connected
window has a thread on that port in its loop, or the signal that ends the connection
is on its way. -/
theorem connectedLive {as : List Action} {s : State} (run : Run step CleanConnect (atStart w portName) as s)
    (connected : Connected s) : Live s :=
  (runInvariant Serving (fun _ _ _ inv clean now => stepServing inv clean now) run startServing).live (.inr connected)

instance (s : State) : Decidable (endQueued s) := inferInstanceAs (Decidable (_ ∨ _))

instance (s : State) : Decidable (Live s) := inferInstanceAs (Decidable (_ ∧ _))

instance (s : State) : Decidable (Connected s) := inferInstanceAs (Decidable (_ ∧ _))

instance (s : State) : (a : Action) → Decidable (CleanConnect s a)
  | .gui => inferInstanceAs (Decidable (s.gui = .connectStart → s.isRunning = true → Live s))
  | .choosePort _ | .clickConnect | .clickFlash | .openFile _ | .deliver | .waitTimeout | .serial | .opened _
  | .accepted _ | .written _ | .received _ => isTrue trivial

/- The window's slot of a Connect click, from the click to its end. -/
def connectClick : List Action := [.clickConnect,.gui,.gui,.gui,.gui,.gui]

def noFile : MainWindow.Window := ⟨Loader.noGlobals,0,false,false⟩

/- The port is opened; the wait of a Disconnect click is given up before `run` has seen
`m_quit`, and the next Connect click finds it still in its loop. -/
def connectAgain : List Action :=
  connectClick ++ [.serial,.opened true,.serial] ++ [.clickConnect,.gui,.gui,.gui,.waitTimeout] ++ connectClick

theorem connectedLiveAgain : ∃ s, Run step CleanConnect (atStart noFile "ttyACM0") connectAgain s ∧
    s.isRunning = true ∧ s.runs = 1 ∧ Connected s ∧ Live s := by
  obtain ⟨s,run,running,once,connected⟩ : ∃ s, Run step CleanConnect (atStart noFile "ttyACM0") connectAgain s ∧
      s.isRunning = true ∧ s.runs = 1 ∧ Connected s := ⟨_,runEvaluated rfl,rfl,rfl,by decide⟩
  exact ⟨s,run,running,once,connected,connectedLive run connected⟩

/-- A Connect that does find one ends in a window that is connected to nothing. -/
theorem staleConnect {s : State} (pc : s.gui = .connectStart) (running : s.isRunning = true) (stale : ¬ Live s) :
    ∃ t, runAll step s [.gui,.gui] = some t ∧ Connected t ∧ ¬ Live t := by
  have skipped : s.guiStep = some {s with gui := .connectDone} := by
    rw [State.guiStep,pc]
    exact if_pos running
  refine ⟨{s with window := {s.window with m_fConnected := true}, gui := .events},?_,⟨rfl,rfl⟩,stale⟩
  simp only [runAll,step,skipped]
  rfl

/-- The port cannot be opened, the window shows it, and Connect is clicked again before
`run` has returned. -/
theorem connectedDead : ¬ ∀ w portName as s, Run step (fun _ _ => True) (atStart w portName) as s →
    Connected s → Live s := by
  intro claim
  obtain ⟨s,run,connected,dead⟩ : ∃ s, Run step (fun _ _ => True) (atStart noFile "ttyACM0")
      (connectClick ++ [.serial,.opened false,.deliver] ++ connectClick) s ∧ Connected s ∧ ¬ Live s :=
    ⟨_,runEvaluated rfl,by decide,by decide⟩
  exact dead (claim _ _ _ s run connected)

end Runs
end HsspProgrammer.Connection
