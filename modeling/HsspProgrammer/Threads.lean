import HsspProgrammer.MainWindow
import HsspProgrammer.Transition

/-! The two threads of the host step by step: the event loop of the main window with
its slots, and `SerialThread::run` from `start` to its return. They share `m_mutex`,
`m_quit`, `m_portName`, `m_txBuf` and the queue of signals; a step of either thread is
what it does between two points where the other one may come in. -/
namespace HsspProgrammer.Threads
open Ascii (Bytes)
open Loader (File)
open MainWindow (Window)

inductive Owner where
  | gui
  | serial
  deriving DecidableEq, Repr

/- `run` is the number of the `run()` that emits. -/
inductive Signal where
  | serialError (run : Nat)
  | serialTimeout (run : Nat)
  | serialData (ba : Bytes)
  deriving DecidableEq

/- Where the window's thread stands; `writing` has the `write` calls its slot still makes. -/
inductive Gui where
  | events
  | connect
  | connectLocked
  | connectUnlock
  | connectStart
  | connectDone
  | disconnect
  | disconnectLocked
  | disconnectUnlock
  | disconnectWait
  | writing (pending : List Bytes)
  | appending (ba : Bytes) (pending : List Bytes)
  | appended (pending : List Bytes)
  deriving DecidableEq

/- Where `run` stands, `finished` when it is not running. `bytesWritten` is `none`
for -1. -/
inductive Serial where
  | finished
  | started
  | opening
  | loop
  | lock
  | transmit
  | waitWritten (bytesWritten : Option Nat)
  | unlock
  | receive
  | unlockTimeout
  | emitTimeout
  | leaving
  deriving DecidableEq

/- The last four fields are no data of the program: what has been handed to the port,
the arguments of `write`, the `write` calls of each slot and whether a write has timed
out, all since the last `connect`. `chosen` is the argument of that call, `runs` the
number of `start` calls. -/
structure State where
  window : Window
  currentData : String
  gui : Gui
  queue : List Signal
  m_mutex : Option Owner
  m_portName : String
  m_quit : Bool
  m_txBuf : Bytes
  serial : Serial
  portName : String
  chosen : String
  runs : Nat
  handed : Bytes
  calls : List Bytes
  slots : List (List Bytes)
  timedOut : Bool

inductive Action where
  | choosePort (portName : String)
  | clickConnect
  | clickFlash
  | openFile (file : Option (Option File))
  | deliver
  | gui
  | waitTimeout
  | serial
  | opened (ok : Bool)
  | accepted (bytesWritten : Option Nat)
  | written (ok : Bool)
  | received (msg : Bytes)

def State.isRunning (s : State) : Bool := s.serial ≠ .finished

/- A slot begins: its `write` calls are made one after the other. -/
def State.slot (s : State) (r : MainWindow.Reaction) : State :=
  {s with window := r.window, gui := .writing r.writes, slots := s.slots ++ [r.writes]}

/- The window's thread takes a signal from the queue. -/
def State.deliver (s : State) : Option State :=
  match s.queue with
  | [] => none
  | .serialError _ :: queue | .serialTimeout _ :: queue =>
    some {s with window := MainWindow.connectionLost s.window, queue := queue}
  | .serialData ba :: queue => some ({s with queue := queue}.slot (MainWindow.serialData s.window ba))

/- The next step of the slot that is running. -/
def State.guiStep (s : State) : Option State :=
  match s.gui with
  | .events => none
  | .connect => if s.m_mutex = none then some {s with m_mutex := some .gui, gui := .connectLocked} else none
  | .connectLocked =>
    some { s with
      m_portName := s.chosen, m_quit := false, m_txBuf := [], gui := .connectUnlock
      handed := [], calls := [], slots := [], timedOut := false }
  | .connectUnlock => some {s with m_mutex := none, gui := .connectStart}
  | .connectStart =>
    if s.isRunning then some {s with gui := .connectDone}
    else some {s with serial := .started, runs := s.runs + 1, gui := .connectDone}
  | .connectDone => some {s with window := {s.window with m_fConnected := true}, gui := .events}
  | .disconnect => if s.m_mutex = none then some {s with m_mutex := some .gui, gui := .disconnectLocked} else none
  | .disconnectLocked => some {s with m_quit := true, gui := .disconnectUnlock}
  | .disconnectUnlock => some {s with m_mutex := none, gui := .disconnectWait}
  | .disconnectWait => if s.isRunning then none else some {s with window := MainWindow.connectionLost s.window, gui := .events}
  | .writing [] => some {s with gui := .events}
  | .writing (ba :: pending) =>
    if s.m_mutex = none then some {s with m_mutex := some .gui, gui := .appending ba pending} else none
  | .appending ba pending => some {s with m_txBuf := s.m_txBuf ++ ba, calls := s.calls ++ [ba], gui := .appended pending}
  | .appended pending => some {s with m_mutex := none, gui := .writing pending}

/- The steps of `run` that depend on nothing from outside the program. -/
def State.serialStep (s : State) : Option State :=
  match s.serial with
  | .started => some {s with portName := s.m_portName, serial := .opening}
  | .loop => if s.m_quit then some {s with serial := .leaving} else some {s with serial := .lock}
  | .lock => if s.m_mutex = none then some {s with m_mutex := some .serial, serial := .transmit} else none
  | .transmit => if s.m_txBuf.length > 0 then none else some {s with serial := .unlock}
  | .unlock => some {s with m_mutex := none, serial := .receive}
  | .receive => some {s with serial := .loop}
  | .unlockTimeout => some {s with m_mutex := none, serial := .emitTimeout}
  | .emitTimeout => some {s with queue := s.queue ++ [.serialTimeout s.runs], serial := .leaving}
  | .leaving => some {s with serial := .finished}
  | .finished | .opening | .waitWritten _ => none

def step (s : State) : Action → Option State
  | .choosePort portName =>
    if s.gui = .events ∧ s.window.m_fConnected = false then some {s with currentData := portName} else none
  | .clickConnect =>
    if s.gui = .events then
      if s.window.m_fConnected then some {s with gui := .disconnect}
      else some {s with chosen := s.currentData, gui := .connect}
    else none
  | .clickFlash =>
    if s.gui = .events ∧ MainWindow.flashEnabled s.window then some (s.slot (MainWindow.targetFlash s.window)) else none
  | .openFile file =>
    if s.gui = .events then some {s with window := MainWindow.fileOpen s.window file} else none
  | .deliver => if s.gui = .events then s.deliver else none
  | .gui => s.guiStep
  | .waitTimeout =>
    if s.gui = .disconnectWait then some {s with window := MainWindow.connectionLost s.window, gui := .events} else none
  | .serial => s.serialStep
  | .opened ok =>
    if s.serial = .opening then
      if ok then some {s with serial := .loop}
      else some {s with queue := s.queue ++ [.serialError s.runs], serial := .leaving}
    else none
  | .accepted bytesWritten =>
    if s.serial = .transmit ∧ 0 < s.m_txBuf.length ∧ bytesWritten.getD 0 ≤ s.m_txBuf.length then
      some {s with handed := s.handed ++ s.m_txBuf.take (bytesWritten.getD 0), serial := .waitWritten bytesWritten}
    else none
  | .written ok =>
    match s.serial with
    | .waitWritten bytesWritten =>
      if ok then some {s with m_txBuf := s.m_txBuf.drop (bytesWritten.getD 0), serial := .unlock}
      else some {s with timedOut := true, serial := .unlockTimeout}
    | _ => none
  | .received msg =>
    if s.serial = .receive ∧ 4 ≤ msg.length then some {s with queue := s.queue ++ [.serialData msg]} else none

/- The program has just been started. -/
def atStart (w : Window) (currentData : String) : State where
  window := {w with m_fConnected := false}
  currentData := currentData
  gui := .events
  queue := []
  m_mutex := none
  m_portName := ""
  m_quit := false
  m_txBuf := []
  serial := .finished
  portName := ""
  chosen := ""
  runs := 0
  handed := []
  calls := []
  slots := []
  timedOut := false

end HsspProgrammer.Threads
