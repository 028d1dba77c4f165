import HsspProgrammer.Connection

/-! The widgets of the main window. The slots enable and disable actions one by one, and
what the user may click is decided by the widgets; the two threads of the host go the
same way when it is decided by the flags of the window. -/
namespace HsspProgrammer.Widgets
open Connection (plain)
open MainWindow (Window)
open Threads (State Action Gui)
open Transition

/- A port as `availablePorts` describes it. -/
structure PortInfo where
  description : String
  portName : String

/- `deviceList` has the texts and the data of its items. -/
structure Ui where
  connectText : String
  connectEnabled : Bool
  flashEnabled : Bool
  deviceList : List (String × String)
  deviceListEnabled : Bool

/- The window after `setupUi` and `FillPortsInfo`. -/
def fillPortsInfo (ports : List PortInfo) : Ui :=
  if ports.length = 0 then ⟨"Connect",false,false,[("Serial port not detected","None")],false⟩
  else ⟨"Connect",true,false,ports.map (fun info => (info.description ++ " (" ++ info.portName ++ ")",info.portName)),true⟩

/- What `serialConnect` and the two error slots assign when the connection is closed, -/
def closed (ui : Ui) : Ui := {ui with connectText := "Connect", flashEnabled := false, deviceListEnabled := true}

/- what `serialConnect` assigns when it is opened, -/
def opened (ui : Ui) (m_fDataLoaded : Bool) : Ui :=
  { ui with
    connectText := "Disconnect"
    flashEnabled := if m_fDataLoaded then true else ui.flashEnabled
    deviceListEnabled := false }

/- and `fileOpen` at its end. -/
def fileOpened (ui : Ui) (w : Window) : Ui :=
  if w.m_fDataLoaded then if w.m_fConnected then {ui with flashEnabled := true} else ui
  else {ui with flashEnabled := false}

structure Shell where
  ui : Ui
  state : State

def uiAfter (u : Shell) (t : State) : Action → Ui
  | .openFile _ => fileOpened u.ui t.window
  | .waitTimeout => closed u.ui
  | .deliver =>
    match u.state.queue with
    | .serialError _ :: _ | .serialTimeout _ :: _ => if u.state.window.m_fConnected then closed u.ui else u.ui
    | _ => u.ui
  | .gui =>
    match u.state.gui with
    | .connectDone => opened u.ui u.state.window.m_fDataLoaded
    | .disconnectWait => closed u.ui
    | _ => u.ui
  | _ => u.ui

def step (u : Shell) (a : Action) : Option Shell :=
  match a with
  | .choosePort portName =>
    if u.state.gui = .events ∧ u.ui.deviceListEnabled = true ∧ portName ∈ u.ui.deviceList.map Prod.snd then
      some {u with state := {u.state with currentData := portName}}
    else none
  | .clickFlash =>
    if u.state.gui = .events ∧ u.ui.flashEnabled = true then
      some {u with state := u.state.slot (MainWindow.targetFlash u.state.window)}
    else none
  | .clickConnect =>
    if u.ui.connectEnabled = true then (Threads.step u.state .clickConnect).map (fun t => {u with state := t}) else none
  | a => (Threads.step u.state a).map (fun t => ⟨uiAfter u t a,t⟩)

/- The list shows its first item. -/
def begin (ports : List PortInfo) (w : Window) : Shell :=
  ⟨fillPortsInfo ports,Threads.atStart w (((fillPortsInfo ports).deviceList.map Prod.snd).headD "")⟩

structure Agrees (ports : List PortInfo) (u : Shell) : Prop where
  text : u.ui.connectText = if u.state.window.m_fConnected then "Disconnect" else "Connect"
  connect : u.ui.connectEnabled = !ports.isEmpty
  flash : u.ui.flashEnabled = MainWindow.flashEnabled u.state.window
  list : u.ui.deviceListEnabled = (!ports.isEmpty && !u.state.window.m_fConnected)
  items : u.ui.deviceList = (fillPortsInfo ports).deviceList
  unused : ports = [] → plain u.state.gui = true ∧ u.state.window.m_fConnected = false

section Steps
variable {ports : List PortInfo} {u v : Shell} {t : State}

theorem beginAgrees (ports : List PortInfo) (w : Window) : Agrees ports (begin ports w) := by
  cases ports with
  | nil => exact ⟨rfl,rfl,rfl,rfl,rfl,fun _ => ⟨rfl,rfl⟩⟩
  | cons info rest => exact ⟨rfl,rfl,rfl,rfl,rfl,fun none => by contradiction⟩

/- A step that assigns nothing to the widgets. -/
theorem agreesSame (agrees : Agrees ports u) (window : t.window.m_fConnected = u.state.window.m_fConnected)
    (loaded : t.window.m_fDataLoaded = u.state.window.m_fDataLoaded)
    (gui : ports = [] → plain t.gui = true) : Agrees ports ⟨u.ui,t⟩ := by
  obtain ⟨text,connect,flash,list,items,unused⟩ := agrees
  refine ⟨by rw [window]; exact text,connect,?_,by rw [window]; exact list,items,fun none => ?_⟩
  · rw [MainWindow.flashEnabled,window,loaded]
    exact flash
  · exact ⟨gui none,window.trans (unused none).2⟩

theorem agreesClosed (agrees : Agrees ports u) (some : ports ≠ []) (lost : t.window = MainWindow.connectionLost u.state.window) :
    Agrees ports ⟨closed u.ui,t⟩ := by
  obtain ⟨_,connect,_,_,items,_⟩ := agrees
  refine ⟨by rw [lost]; rfl,connect,by rw [lost]; rfl,?_,items,fun none => absurd none some⟩
  rw [lost]
  cases ports with
  | nil => contradiction
  | cons info rest => rfl

/- The window's thread is not between slots, so a connection is being made or ended. -/
theorem portsBusy (agrees : Agrees ports u) (busy : plain u.state.gui = false ∨ u.state.window.m_fConnected = true) :
    ports ≠ [] := by
  intro none
  obtain ⟨rest,off⟩ := agrees.unused none
  rcases busy with busy | on
  · rw [rest] at busy
    contradiction
  · rw [off] at on
    contradiction

theorem guiAgrees (agrees : Agrees ports u) (now : u.state.guiStep = some t) : Agrees ports ⟨uiAfter u t .gui,t⟩ := by
  have busy := portsBusy agrees
  unfold State.guiStep at now
  unfold uiAfter
  split at now <;> rename_i pc <;> rw [pc] at busy ⊢ <;> dsimp only
  case h_1 => contradiction
  case h_2 | h_7 | h_12 =>
    obtain ⟨_,now⟩ := Option.ite_none_right_eq_some.mp now
    cases now
    exact agreesSame agrees rfl rfl (fun none => by first | rfl | exact absurd none (busy (.inl rfl)))
  case h_5 =>
    split at now <;> cases now <;> exact agreesSame agrees rfl rfl (fun none => absurd none (busy (.inl rfl)))
  case h_6 =>
    cases now
    have some := busy (.inl rfl)
    obtain ⟨_,connect,flash,_,items,_⟩ := agrees
    refine ⟨rfl,connect,?_,by simp [opened],items,fun none => absurd none some⟩
    cases loaded : u.state.window.m_fDataLoaded <;> simp [opened,MainWindow.flashEnabled,loaded,flash]
  case h_10 =>
    obtain ⟨_,now⟩ := Option.ite_none_left_eq_some.mp now
    cases now
    exact agreesClosed agrees (busy (.inl rfl)) rfl
  case h_3 | h_4 | h_8 | h_9 | h_11 | h_13 | h_14 =>
    cases now
    exact agreesSame agrees rfl rfl (fun none => by first | rfl | exact absurd none (busy (.inl rfl)))

theorem deliverAgrees (agrees : Agrees ports u) (idle : u.state.gui = .events) (now : u.state.deliver = some t) :
    Agrees ports ⟨uiAfter u t .deliver,t⟩ := by
  have busy := portsBusy agrees
  unfold State.deliver at now
  unfold uiAfter
  split at now <;> rename_i head <;> try contradiction
  all_goals rw [head]; dsimp only
  case h_2 | h_3 =>
    cases now
    split
    · rename_i on
      exact agreesClosed agrees (busy (.inr on)) rfl
    · rename_i off
      exact agreesSame agrees (Bool.eq_false_iff.mpr off).symm rfl (fun _ => by rw [idle]; rfl)
  case h_4 =>
    rename_i ba queue
    cases now
    have loaded : (MainWindow.serialData u.state.window ba).window.m_fDataLoaded = u.state.window.m_fDataLoaded := by
      rw [MainWindow.serialDataWindow]
    exact agreesSame agrees (Connection.serialDataConnected u.state.window ba) loaded (fun _ => rfl)

theorem fileAgrees (agrees : Agrees ports u) (idle : u.state.gui = .events) (file : Option (Option Loader.File)) :
    Agrees ports ⟨fileOpened u.ui (MainWindow.fileOpen u.state.window file),
      {u.state with window := MainWindow.fileOpen u.state.window file}⟩ := by
  obtain ⟨text,connect,flash,list,items,unused⟩ := agrees
  have on := Connection.openConnected u.state.window file
  generalize MainWindow.fileOpen u.state.window file = w at *
  unfold fileOpened
  cases loaded : w.m_fDataLoaded with
  | false =>
    exact ⟨by rw [on]; exact text,connect,by simp [MainWindow.flashEnabled,loaded],by rw [on]; exact list,items,
      fun none => ⟨by rw [idle]; rfl,on.trans (unused none).2⟩⟩
  | true =>
    cases connected : w.m_fConnected with
    | true =>
      rw [connected] at on
      rw [← on] at text list
      exact ⟨by rw [connected]; exact text,connect,by simp [MainWindow.flashEnabled,loaded,connected],
        by rw [connected]; exact list,items,fun none => absurd on.symm (by simp [(unused none).2])⟩
    | false =>
      rw [connected] at on
      rw [← on] at text list
      refine ⟨by rw [connected]; exact text,connect,?_,by rw [connected]; exact list,items,
        fun none => ⟨by rw [idle]; rfl,connected⟩⟩
      rw [MainWindow.flashEnabled,connected]
      exact flash.trans (by rw [MainWindow.flashEnabled,← on]; rfl)

/-- One step of the widgets is the same step of the threads. -/
theorem agreesStep {a : Action} (agrees : Agrees ports u) (now : step u a = some v) :
    Agrees ports v ∧ Threads.step u.state a = some v.state := by
  have same : ∀ t : State, t.window = u.state.window → t.gui = u.state.gui → Agrees ports ⟨u.ui,t⟩ := fun t window gui =>
    agreesSame agrees (by rw [window]) (by rw [window]) (fun none => by rw [gui]; exact (agrees.unused none).1)
  cases a with
  | choosePort portName =>
    obtain ⟨⟨idle,enabled,_⟩,now⟩ := Option.ite_none_right_eq_some.mp now
    cases now
    rw [agrees.list] at enabled
    exact ⟨same _ rfl rfl,if_pos ⟨idle,by simpa using (Bool.and_eq_true_iff.mp enabled).2⟩⟩
  | clickFlash =>
    obtain ⟨⟨idle,enabled⟩,now⟩ := Option.ite_none_right_eq_some.mp now
    cases now
    exact ⟨agreesSame agrees rfl rfl (fun _ => rfl),if_pos ⟨idle,agrees.flash ▸ enabled⟩⟩
  | clickConnect =>
    obtain ⟨enabled,now⟩ := Option.ite_none_right_eq_some.mp now
    obtain ⟨t,ran,rfl⟩ := Option.map_eq_some_iff.mp now
    refine ⟨?_,ran⟩
    obtain ⟨_,ran⟩ := Option.ite_none_right_eq_some.mp ran
    have some : ports ≠ [] := by
      rintro rfl
      rw [agrees.connect] at enabled
      contradiction
    split at ran <;> cases ran <;> exact agreesSame agrees rfl rfl (fun none => absurd none some)
  | openFile file =>
    obtain ⟨t,ran,rfl⟩ := Option.map_eq_some_iff.mp now
    refine ⟨?_,ran⟩
    obtain ⟨idle,ran⟩ := Option.ite_none_right_eq_some.mp ran
    cases ran
    exact fileAgrees agrees idle file
  | deliver =>
    obtain ⟨t,ran,rfl⟩ := Option.map_eq_some_iff.mp now
    obtain ⟨idle,delivered⟩ := Option.ite_none_right_eq_some.mp ran
    exact ⟨deliverAgrees agrees idle delivered,ran⟩
  | gui =>
    obtain ⟨t,ran,rfl⟩ := Option.map_eq_some_iff.mp now
    exact ⟨guiAgrees agrees ran,ran⟩
  | waitTimeout =>
    obtain ⟨t,ran,rfl⟩ := Option.map_eq_some_iff.mp now
    refine ⟨?_,ran⟩
    obtain ⟨waiting,ran⟩ := Option.ite_none_right_eq_some.mp ran
    cases ran
    exact agreesClosed agrees (portsBusy agrees (.inl (by rw [waiting]; rfl))) rfl
  | serial =>
    obtain ⟨t,ran,rfl⟩ := Option.map_eq_some_iff.mp now
    obtain ⟨window,gui,_⟩ := Connection.serialFrame ran
    exact ⟨same t window gui,ran⟩
  | opened ok =>
    obtain ⟨t,ran,rfl⟩ := Option.map_eq_some_iff.mp now
    refine ⟨?_,ran⟩
    obtain ⟨_,ran⟩ := Option.ite_none_right_eq_some.mp ran
    split at ran <;> cases ran <;> exact same _ rfl rfl
  | written ok =>
    obtain ⟨t,ran,rfl⟩ := Option.map_eq_some_iff.mp now
    refine ⟨?_,ran⟩
    simp only [Threads.step] at ran
    split at ran <;> try contradiction
    split at ran <;> cases ran <;> exact same _ rfl rfl
  | accepted _ | received _ =>
    obtain ⟨t,ran,rfl⟩ := Option.map_eq_some_iff.mp now
    refine ⟨?_,ran⟩
    obtain ⟨_,ran⟩ := Option.ite_none_right_eq_some.mp ran
    cases ran
    exact same _ rfl rfl

/- The ports that can be chosen, and whether there is one to connect to. -/
def Offered (ports : List PortInfo) : Action → Prop
  | .clickConnect => ports ≠ []
  | .choosePort portName => portName ∈ ports.map PortInfo.portName
  | _ => True

instance (ports : List PortInfo) : (a : Action) → Decidable (Offered ports a)
  | .clickConnect => decidable_of_iff (ports.isEmpty = false) (by cases ports <;> simp [Offered])
  | .choosePort portName => inferInstanceAs (Decidable (portName ∈ ports.map PortInfo.portName))
  | .clickFlash | .openFile _ | .deliver | .gui | .waitTimeout | .serial | .opened _ | .accepted _ | .written _
  | .received _ => .isTrue trivial

/-- What the widgets let the user do is what the flags of the window do. -/
theorem offeredStep (agrees : Agrees ports u) (a : Action) :
    (step u a).map Shell.state = if Offered ports a then Threads.step u.state a else none := by
  have through : ∀ f : State → Shell, (∀ t, (f t).state = t) →
      ((Threads.step u.state a).map f).map Shell.state = Threads.step u.state a := by
    intro f keeps
    rw [Option.map_map,show Shell.state ∘ f = id from funext keeps,Option.map_id]
    rfl
  cases a with
  | choosePort portName =>
    cases ports with
    | nil => simp [step,Offered,agrees.list]
    | cons info rest =>
      have names : u.ui.deviceList.map Prod.snd = (info :: rest).map PortInfo.portName := by
        rw [agrees.items]
        exact List.map_map
      have shown : u.ui.deviceListEnabled = !u.state.window.m_fConnected := agrees.list
      simp only [step,Threads.step,names,shown,Offered,Bool.not_eq_true']
      by_cases listed : portName ∈ (info :: rest).map PortInfo.portName
      · simp only [listed,and_true,if_true]
        split <;> rfl
      · simp only [listed,and_false,if_false]
        rfl
  | clickFlash =>
    simp only [step,Threads.step,Offered,agrees.flash]
    split <;> rfl
  | clickConnect =>
    rw [step,agrees.connect]
    cases ports with
    | nil => rfl
    | cons info rest => exact through _ (fun _ => rfl)
  | _ => exact through _ (fun _ => rfl)

theorem agreesRun {as : List Action} {guard : Shell → Action → Prop} (agrees : Agrees ports u) (run : Run step guard u as v) :
    Agrees ports v ∧ Run Threads.step (fun _ a => Offered ports a) u.state as v.state := by
  induction run with
  | nil => exact ⟨agrees,.nil _⟩
  | @cons u a next rest v _ now later ih =>
    obtain ⟨agrees',stepped⟩ := agreesStep agrees now
    obtain ⟨ends,run⟩ := ih agrees'
    have offered : Offered ports a := by
      by_contra hidden
      have both := offeredStep agrees a
      rw [now,if_neg hidden] at both
      contradiction
    exact ⟨ends,.cons offered stepped run⟩

end Steps

/-- In every order of clicks, signals and steps of the two threads: Flash is enabled when,
and only when, a connected window has an image, the other widgets show the connection,
and what they let the user do is what the flags of the window let him do. -/
theorem widgetsFollow {ports : List PortInfo} {w : Window} {u : Shell} {as : List Action}
    (run : Run step (fun _ _ => True) (begin ports w) as u) :
    Agrees ports u ∧ Run Threads.step (fun _ a => Offered ports a) (begin ports w).state as u.state ∧
    ∀ a, (step u a).map Shell.state = if Offered ports a then Threads.step u.state a else none := by
  obtain ⟨agrees,run'⟩ := agreesRun (beginAgrees ports w) run
  exact ⟨agrees,run',offeredStep agrees⟩

/- A click on Connect, seen to its end. -/
def onePort : List PortInfo := [⟨"ST-Link","ttyACM0"⟩]

theorem widgetsFollowConnect : ∃ u, runAll step (begin onePort Connection.noFile) Connection.connectClick = some u ∧
    u.ui.connectText = "Disconnect" ∧ Agrees onePort u := by
  obtain ⟨u,now,text⟩ : ∃ u, runAll step (begin onePort Connection.noFile) Connection.connectClick = some u ∧
      u.ui.connectText = "Disconnect" := ⟨_,rfl,rfl⟩
  exact ⟨u,now,text,(widgetsFollow (runEvaluated (by simpa using now))).1⟩

end HsspProgrammer.Widgets
