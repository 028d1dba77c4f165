import HsspProgrammer.CommandLoop
import HsspProgrammer.MainWindow
import HsspProgrammer.SerialThread
import HsspProgrammer.Usart

/-! The whole system: the GUI thread with its queued signals, the serial thread, the
link in both directions, the input queue of the firmware and the firmware. Every
written byte carries the `write` call it comes from and every answer the command it
answers; `log` records what happened. These are for statements only, no step reads
them. -/
namespace HsspProgrammer.Programmer
open Ascii (Bytes)
open Loader (Globals File)
open MainWindow (Window Reaction Report)
open CommandLoop (Target Firmware Op)
open Usart (SERIAL_BUFFERS_SIZE)

structure Sent where
  byte : UInt8
  write : Nat
  offset : Nat
  deriving DecidableEq, Repr

structure Answer where
  byte : UInt8
  cause : Nat
  deriving DecidableEq, Repr

def stamp (i : Nat) (bytes : Bytes) : List Sent := bytes.mapIdx (fun j byte => ⟨byte,i,j⟩)

def stampAll (i : Nat) : List Bytes → List (List Sent)
  | [] => []
  | bytes :: rest => stamp i bytes :: stampAll (i + 1) rest

inductive Signal where
  | message (ba : List Answer)
  | timeout

inductive Event where
  | click (image : Globals) (write : Nat)
  | commandRead (pair : List Sent)
  | blockRead (bytes : List Sent)
  | performed (op : Op)
  | acted (ba : List Answer)
  | reported (report : Report)

structure Sys (τ : Type) where
  window : Window
  /-- The `write` calls the running slot has still to make. -/
  slot : List (List Sent)
  written : List Bytes
  m_txBuf : List Sent
  port : List Sent
  queue : List Sent
  /-- The bytes of the command or block the firmware is reading. -/
  part : List Sent
  firmware : Firmware τ
  cause : Nat
  replies : List Answer
  m_rxBuf : List Answer
  signals : List Signal
  /-- The serial thread is in its loop and the port is open. -/
  online : Bool
  log : List Event

inductive Action where
  | flash
  | fileOpen (choice : Option (Option File))
  | deliver
  | slotWrite
  | transmit (n : Nat)
  | arrive
  | consume
  | execute
  | burst (n : Nat)
  | connect
  | disconnect (kept : Nat)
  | writeTimeout (n kept : Nat)
  | lose

variable {τ : Type}

def react (s : Sys τ) (entry : Event) (r : Reaction) : Sys τ :=
  { s with
    window := r.window
    slot := stampAll s.written.length r.writes
    written := s.written ++ r.writes
    log := s.log ++ entry :: r.reports.map .reported }

def flash (s : Sys τ) : Option (Sys τ) :=
  if s.slot = [] ∧ MainWindow.flashEnabled s.window = true then
    some (react s (.click s.window.globals s.written.length) (MainWindow.targetFlash s.window))
  else none

def fileOpen (s : Sys τ) (choice : Option (Option File)) : Option (Sys τ) :=
  if s.slot = [] then some {s with window := MainWindow.fileOpen s.window choice} else none

/- One queued signal is delivered to its slot of the window. -/
def deliver (s : Sys τ) : Option (Sys τ) :=
  match s.slot,s.signals with
  | [],.message ba :: signals =>
    some (react {s with signals := signals} (.acted ba) (MainWindow.serialData s.window (ba.map Answer.byte)))
  | [],.timeout :: signals =>
    some {s with signals := signals, window := MainWindow.connectionLost s.window}
  | _,_ => none

def slotWrite (s : Sys τ) : Option (Sys τ) :=
  match s.slot with
  | [] => none
  | ba :: slot => some {s with slot := slot, m_txBuf := s.m_txBuf ++ ba}

/- `bytesWritten` may be any part of the buffer; it is removed once written. -/
def transmit (s : Sys τ) (n : Nat) : Option (Sys τ) :=
  if s.online = true ∧ 0 < n ∧ n ≤ s.m_txBuf.length then
    some {s with port := s.port ++ s.m_txBuf.take n, m_txBuf := s.m_txBuf.drop n}
  else none

def arrive (s : Sys τ) : Option (Sys τ) :=
  match s.port with
  | [] => none
  | b :: port =>
    some { s with
      port := port
      queue := if s.queue.length < SERIAL_BUFFERS_SIZE then s.queue ++ [b] else s.queue }

/- A command that is read becomes the cause of the answers that follow. -/
def consume (s : Sys τ) : Option (Sys τ) :=
  match s.queue with
  | [] => none
  | b :: queue =>
    match CommandLoop.consume s.firmware b.byte with
    | none => none
    | some firmware =>
      let read : List Sent := s.part ++ [b]
      match firmware.pc with
      | .command _ _ =>
        some { s with
          queue := queue
          part := []
          firmware := firmware
          cause := (read.headD b).write
          log := s.log ++ [.commandRead read] }
      | .ready _ =>
        some {s with queue := queue, part := [], firmware := firmware, log := s.log ++ [.blockRead read]}
      | _ => some {s with queue := queue, part := read, firmware := firmware}

def execute (T : Target τ) (s : Sys τ) : Option (Sys τ) :=
  (CommandLoop.execute T s.firmware).map (fun outcome =>
    { s with
      firmware := outcome.firmware
      replies := s.replies ++ outcome.reply.map (fun byte => ⟨byte,s.cause⟩)
      log := s.log ++ outcome.ops.map .performed })

/- A burst of any number of bytes; into which chunks `readAll` cuts it makes no
difference (`SerialThread.receiveChunks`). -/
def burst (s : Sys τ) (n : Nat) : Option (Sys τ) :=
  if s.online = true ∧ 0 < n ∧ n ≤ s.replies.length then
    let received := SerialThread.receive s.m_rxBuf [s.replies.take n]
    some { s with
      replies := s.replies.drop n
      m_rxBuf := received.2
      signals := s.signals ++ received.1.map .message }
  else none

def connect (s : Sys τ) : Option (Sys τ) :=
  if s.slot = [] ∧ s.window.m_fConnected = false then
    some { s with
      window := {s.window with m_fConnected := true}
      m_txBuf := []
      m_rxBuf := []
      online := true }
  else none

/- Closing the port keeps only what is already on the wire. -/
def disconnect (s : Sys τ) (kept : Nat) : Option (Sys τ) :=
  if s.slot = [] ∧ s.window.m_fConnected = true then
    some { s with
      window := MainWindow.connectionLost s.window
      port := s.port.take kept
      online := false }
  else none

/- The other exit of the loop: the port has taken some bytes, which stay in the
buffer too, and is closed. -/
def writeTimeout (s : Sys τ) (n kept : Nat) : Option (Sys τ) :=
  if s.online = true ∧ s.m_txBuf ≠ [] then
    some { s with
      port := (s.port ++ s.m_txBuf.take n).take kept
      signals := s.signals ++ [.timeout]
      online := false }
  else none

/- An answer that arrives while the port is closed. -/
def lose (s : Sys τ) : Option (Sys τ) :=
  if s.online = false ∧ s.replies ≠ [] then some {s with replies := s.replies.drop 1} else none

def step (T : Target τ) (s : Sys τ) : Action → Option (Sys τ)
  | .flash => flash s
  | .fileOpen choice => fileOpen s choice
  | .deliver => deliver s
  | .slotWrite => slotWrite s
  | .transmit n => transmit s n
  | .arrive => arrive s
  | .consume => consume s
  | .execute => execute T s
  | .burst n => burst s n
  | .connect => connect s
  | .disconnect kept => disconnect s kept
  | .writeTimeout n kept => writeTimeout s n kept
  | .lose => lose s

/- `n` bytes, each of which is read as it arrives. -/
def reading (n : Nat) : List Action := (List.replicate n [.arrive,.consume]).flatten

/- Nothing is in flight and both sides wait for the other. -/
structure Idle (s : Sys τ) : Prop where
  slot : s.slot = []
  txBuf : s.m_txBuf = []
  port : s.port = []
  queue : s.queue = []
  part : s.part = []
  replies : s.replies = []
  rxBuf : s.m_rxBuf = []
  signals : s.signals = []
  online : s.online = true
  top : s.firmware.pc = .cmdID

/- The system once an image is loaded and the port is open. -/
def connected (image : Globals) (target : τ) : Sys τ where
  window := ⟨image,0,true,true⟩
  slot := []
  written := []
  m_txBuf := []
  port := []
  queue := []
  part := []
  firmware := ⟨.cmdID,[],0,target⟩
  cause := 0
  replies := []
  m_rxBuf := []
  signals := []
  online := true
  log := []

theorem connectedIdle (image : Globals) (target : τ) : Idle (connected image target) :=
  ⟨rfl,rfl,rfl,rfl,rfl,rfl,rfl,rfl,rfl,rfl⟩

/- The bytes the firmware has read with an event. -/
def Event.bytes : Event → List Sent
  | .commandRead pair => pair
  | .blockRead bytes => bytes
  | _ => []

def Event.isFinal : Event → Bool
  | .reported report => report.final
  | _ => false

def finals (events : List Event) : Nat := events.countP Event.isFinal

/- A session is what happens after a click, with the image loaded then. -/
structure Session where
  image : Globals
  write : Nat
  events : List Event

def latestFrom (session : Option Session) : Event → Option Session
  | .click image write => some ⟨image,write,[]⟩
  | event => session.map (fun session => {session with events := session.events ++ [event]})

def latest (log : List Event) : Option Session := log.foldl latestFrom none

/- It is running until its first final report. -/
def sessionOpen (log : List Event) : Bool := (latest log).any (fun session => finals session.events == 0)

/-- The operations in a stretch of the log, in order. -/
def operations (log : List Event) : List Op :=
  log.filterMap (fun event => match event with
    | .performed op => some op
    | _ => none)

theorem operationsAppend (front back : List Event) : operations (front ++ back) = operations front ++ operations back :=
  List.filterMap_append

theorem operationsPerformed (ops : List Op) : operations (ops.map .performed) = ops := by
  rw [operations,List.filterMap_map]
  exact List.filterMap_some

end HsspProgrammer.Programmer
