import HsspProgrammer.IoQueues
import HsspProgrammer.Transition

/-! The serial driver of the firmware: what its interrupt does with the registers of the
USART and the two queues, and one turn of a read and of a write of a thread. What the
status and data registers show is given with each interrupt; `log` is no data of the
program but records what went through. -/
namespace HsspProgrammer.Usart
open Ascii (Bytes)
open IoQueues

def SERIAL_BUFFERS_SIZE : Nat := 128

structure Cr1 where
  UE : Bool
  M : Bool
  PCE : Bool
  PEIE : Bool
  TXEIE : Bool
  TCIE : Bool
  RXNEIE : Bool
  TE : Bool
  RE : Bool
  deriving DecidableEq, Repr

def Cr1.zero : Cr1 := ⟨false,false,false,false,false,false,false,false,false⟩

structure Sr where
  LBD : Bool
  TXE : Bool
  TC : Bool
  RXNE : Bool
  ORE : Bool
  NE : Bool
  FE : Bool
  PE : Bool
  deriving DecidableEq, Repr

inductive Flag where
  | CHN_INPUT_AVAILABLE
  | CHN_OUTPUT_EMPTY
  | CHN_TRANSMISSION_END
  | SD_PARITY_ERROR
  | SD_FRAMING_ERROR
  | SD_OVERRUN_ERROR
  | SD_NOISE_ERROR
  | SD_BREAK_DETECTED
  deriving DecidableEq, Repr

inductive SdState where
  | SD_STOP
  | SD_READY
  deriving DecidableEq, Repr

/- `taken` and `put` are what a thread did, the others are of the interrupt. -/
inductive Entry where
  | received (b : UInt8) (status : Msg)
  | transmitted (b : UInt8)
  | flags (raised : List Flag)
  | taken (b : UInt8)
  | put (b : UInt8)
  deriving DecidableEq, Repr

structure SerialDriver (θ : Type) where
  state : SdState
  iqueue : IoQueue θ
  oqueue : IoQueue θ
  rxmask : UInt8
  CR1 : Cr1
  log : List Entry

variable {θ : Type}

/- The threads an operation has resumed, each with its message. -/
abbrev Resumed (θ : Type) := List (θ × Msg)

/- `sdObjectInit` with the two buffers of the object, before the driver is started. -/
def sdObjectInit (ib ob : Bytes) : SerialDriver θ := ⟨.SD_STOP,iqObjectInit ib,oqObjectInit ob,0,.zero,[]⟩

/- Of the configuration only `cr1` decides anything here. -/
def default_config : Cr1 := .zero

def usart_init (sdp : SerialDriver θ) (config : Cr1) : SerialDriver θ :=
  { sdp with
    CR1 := {config with UE := true, PEIE := true, RXNEIE := true, TE := true, RE := true}
    rxmask := if config.PCE = true ∧ config.M = false then 0x7F else 0xFF }

def sdStart (sdp : SerialDriver θ) (config : Cr1) : SerialDriver θ := {usart_init sdp config with state := .SD_READY}

def sd_lld_stop (sdp : SerialDriver θ) : SerialDriver θ := if sdp.state = .SD_READY then {sdp with CR1 := .zero} else sdp

def sdStop (sdp : SerialDriver θ) : SerialDriver θ × Resumed θ :=
  let output := oqResetI sdp.oqueue
  let input := iqResetI sdp.iqueue
  ({sd_lld_stop sdp with state := .SD_STOP, oqueue := output.queue, iqueue := input.queue},
    output.resumed ++ input.resumed)

def chnAddFlagsI (sdp : SerialDriver θ) (raised : List Flag) : SerialDriver θ :=
  {sdp with log := sdp.log ++ [.flags raised]}

def errorFlags (sr : Sr) : List Flag :=
  (if sr.ORE then [.SD_OVERRUN_ERROR] else []) ++ (if sr.PE then [.SD_PARITY_ERROR] else []) ++
  (if sr.FE then [.SD_FRAMING_ERROR] else []) ++ (if sr.NE then [.SD_NOISE_ERROR] else [])

def set_error (sdp : SerialDriver θ) (sr : Sr) : SerialDriver θ := chnAddFlagsI sdp (errorFlags sr)

def sdIncomingDataI (sdp : SerialDriver θ) (b : UInt8) : SerialDriver θ × Resumed θ :=
  let sdp := if iqIsEmptyI sdp.iqueue then chnAddFlagsI sdp [.CHN_INPUT_AVAILABLE] else sdp
  let stored := iqPutI sdp.iqueue b
  let sdp := {sdp with iqueue := stored.queue, log := sdp.log ++ [.received b stored.ret]}
  (if stored.ret = .MSG_OK then sdp else chnAddFlagsI sdp [.SD_OVERRUN_ERROR],stored.resumed)

def Sr.error (sr : Sr) : Bool := sr.ORE || sr.NE || sr.FE || sr.PE

/- The condition of the receive loop. -/
def Sr.pending (sr : Sr) : Bool := sr.RXNE || sr.error

/- One turn of the loop with what the data register reads. -/
def receive (sdp : SerialDriver θ) (sr : Sr) (dr : UInt8) : SerialDriver θ × Resumed θ :=
  let sdp := if sr.error then set_error sdp sr else sdp
  let b := dr &&& sdp.rxmask
  if sr.RXNE then sdIncomingDataI sdp b else (sdp,[])

structure Loop (θ : Type) where
  sdp : SerialDriver θ
  resumed : Resumed θ
  /-- What the status register shows last. -/
  sr : Sr

/- Each turn reads the data register and then the status register again. Turns that do
not fit what the status register shows are no run of the loop. -/
def receiveLoop (sdp : SerialDriver θ) (sr : Sr) : List (UInt8 × Sr) → Option (Loop θ)
  | [] => if sr.pending then none else some ⟨sdp,[],sr⟩
  | turn :: rest =>
    if sr.pending then
      let first := receive sdp sr turn.1
      (receiveLoop first.1 turn.2 rest).map (fun last => {last with resumed := first.2 ++ last.resumed})
    else none

/- "Transmission buffer empty." -/
def transmit (cr1 : Cr1) (sr : Sr) (sdp : SerialDriver θ) : SerialDriver θ × Resumed θ :=
  if cr1.TXEIE && sr.TXE then
    let fetched := oqGetI sdp.oqueue
    match fetched.ret with
    | none => ({chnAddFlagsI sdp [.CHN_OUTPUT_EMPTY] with CR1 := {cr1 with TXEIE := false, TCIE := true}},[])
    | some b => ({sdp with oqueue := fetched.queue, log := sdp.log ++ [.transmitted b]},fetched.resumed)
  else (sdp,[])

/- "Physical transmission end.": it writes back what the register was at the start. -/
def transmissionEnd (cr1 : Cr1) (sr : Sr) (sdp : SerialDriver θ) : SerialDriver θ :=
  if sr.TC then
    let sdp := if oqIsEmptyI sdp.oqueue then chnAddFlagsI sdp [.CHN_TRANSMISSION_END] else sdp
    {sdp with CR1 := {cr1 with TCIE := false}}
  else sdp

def serve_interrupt (sdp : SerialDriver θ) (sr : Sr) (turns : List (UInt8 × Sr)) :
    Option (SerialDriver θ × Resumed θ) :=
  let cr1 := sdp.CR1
  let sdp := if sr.LBD then chnAddFlagsI sdp [.SD_BREAK_DETECTED] else sdp
  (receiveLoop sdp sr turns).map (fun last =>
    let sent := transmit cr1 last.sr last.sdp
    (transmissionEnd cr1 last.sr sent.1,last.resumed ++ sent.2))

def notify1 (sdp : SerialDriver θ) : SerialDriver θ := {sdp with CR1 := {sdp.CR1 with TXEIE := true}}

/- One turn of `chnRead`, `none` when the thread goes to sleep; the input queue has no
`q_notify`. -/
def readTurn (sdp : SerialDriver θ) (self : θ) : Option UInt8 × SerialDriver θ :=
  let turn := iqReadTurn sdp.iqueue self
  (turn.1,{sdp with iqueue := turn.2, log := sdp.log ++ (turn.1.map Entry.taken).toList})

/- One turn of `chnWrite`, false when the thread goes to sleep. -/
def writeTurn (sdp : SerialDriver θ) (self : θ) (b : UInt8) : Bool × SerialDriver θ :=
  let turn := oqWriteTurn sdp.oqueue self b
  (turn.1,
    if turn.1 then notify1 {sdp with oqueue := turn.2, log := sdp.log ++ [.put b]} else {sdp with oqueue := turn.2})

/- The bytes of a log: accepted from the line, lost, taken by a thread, put by it, sent. -/
def arrivals (log : List Entry) : Bytes := log.filterMap (fun entry => match entry with
  | .received b .MSG_OK => some b
  | _ => none)

def takings (log : List Entry) : Bytes := log.filterMap (fun entry => match entry with
  | .taken b => some b
  | _ => none)

def puts (log : List Entry) : Bytes := log.filterMap (fun entry => match entry with
  | .put b => some b
  | _ => none)

def transmissions (log : List Entry) : Bytes := log.filterMap (fun entry => match entry with
  | .transmitted b => some b
  | _ => none)

/- What the line has seen, in order: also a byte that is lost has come in. -/
inductive Line where
  | came (b : UInt8)
  | left (b : UInt8)
  deriving DecidableEq, Repr

def lines (log : List Entry) : List Line := log.filterMap (fun entry => match entry with
  | .received b _ => some (.came b)
  | .transmitted b => some (.left b)
  | _ => none)

/- The bytes an interrupt brings. -/
def incoming (rxmask : UInt8) (sr : Sr) : List (UInt8 × Sr) → Bytes
  | [] => []
  | turn :: rest => (if sr.RXNE then [turn.1 &&& rxmask] else []) ++ incoming rxmask turn.2 rest

/- What the status register shows when the loop is left. -/
def lastSr (sr : Sr) : List (UInt8 × Sr) → Sr
  | [] => sr
  | turn :: rest => lastSr turn.2 rest

/- A log that leaves the bytes `i` in the input queue and `o` in the output queue. A
byte is refused exactly when the input queue is full. -/
structure Logged (log : List Entry) (i o : Bytes) : Prop where
  arrived : arrivals log = takings log ++ i
  sent : puts log = transmissions log ++ o
  refused : ∀ b status front back, log = front ++ .received b status :: back → status =
    if (arrivals front).length < (takings front).length + SERIAL_BUFFERS_SIZE then .MSG_OK else .MSG_TIMEOUT

section Logs
variable {log : List Entry} {i o : Bytes}

theorem loggedNone : Logged [] [] [] := ⟨rfl,rfl,fun _ _ _ _ split => absurd split (by simp)⟩

theorem waitingCount (logged : Logged log i o) : (arrivals log).length = (takings log).length + i.length := by
  rw [logged.arrived,List.length_append]

theorem loggedFlags (logged : Logged log i o) (raised : List Flag) : Logged (log ++ [.flags raised]) i o := by
  refine ⟨?_,?_,fun b status => Transition.occursOther (logged.refused b status) (by simp)⟩
  · simpa [arrivals,takings] using logged.arrived
  · simpa [puts,transmissions] using logged.sent

theorem loggedReceived (logged : Logged log i o) (b : UInt8) (status : Msg)
    (right : status = if i.length < SERIAL_BUFFERS_SIZE then .MSG_OK else .MSG_TIMEOUT) :
    Logged (log ++ [.received b status]) (if i.length < SERIAL_BUFFERS_SIZE then i ++ [b] else i) o := by
  have count := waitingCount logged
  refine ⟨?_,by simpa [puts,transmissions] using logged.sent,?_⟩
  · have arrived := logged.arrived
    rw [right]
    split <;> simp_all [arrivals,takings]
  · intro b' status'
    refine Transition.occursAppend (logged.refused b' status') (fun front back split => ?_)
    obtain ⟨rfl,same⟩ : front = [] ∧ Entry.received b status = .received b' status' := by
      cases front with
      | nil => exact ⟨rfl,(List.cons.inj split).1⟩
      | cons _ front => simp at split
    cases same
    rw [List.append_nil,count,right]
    simp

theorem loggedTransmitted {b : UInt8} (logged : Logged log i (b :: o)) : Logged (log ++ [.transmitted b]) i o := by
  refine ⟨?_,?_,fun b status => Transition.occursOther (logged.refused b status) (by simp)⟩
  · simpa [arrivals,takings] using logged.arrived
  · simpa [puts,transmissions] using logged.sent

theorem loggedTaken {b : UInt8} (logged : Logged log (b :: i) o) : Logged (log ++ [.taken b]) i o := by
  refine ⟨?_,?_,fun b status => Transition.occursOther (logged.refused b status) (by simp)⟩
  · simpa [arrivals,takings] using logged.arrived
  · simpa [puts,transmissions] using logged.sent

theorem loggedPut (logged : Logged log i o) (b : UInt8) : Logged (log ++ [.put b]) i (o ++ [b]) := by
  have sent := logged.sent
  refine ⟨?_,by simp_all [puts,transmissions],fun b status => Transition.occursOther (logged.refused b status) (by simp)⟩
  simpa [arrivals,takings] using logged.arrived

end Logs

/- A driver with the bytes `i` in the input queue and `o` in the output queue; while there
is something to send, the transmit interrupt is enabled. -/
structure Holds (sdp : SerialDriver θ) (i o : Bytes) : Prop where
  input : Input sdp.iqueue i
  output : Output sdp.oqueue o
  depths : qSizeX sdp.iqueue = SERIAL_BUFFERS_SIZE ∧ qSizeX sdp.oqueue = SERIAL_BUFFERS_SIZE
  enabled : o ≠ [] → sdp.CR1.TXEIE = true
  logged : Logged sdp.log i o

/- The part of what comes in that finds room behind `i`. -/
def kept (i bytes : Bytes) : Bytes := bytes.take (SERIAL_BUFFERS_SIZE - i.length)

theorem keptAppend (i first second : Bytes) :
    kept i (first ++ second) = kept i first ++ kept (i ++ kept i first) second := by
  unfold kept
  rw [List.take_append,List.length_append,List.length_take]
  congr 2
  omega

/- What an interrupt does to the receive side: nothing of the other one, and one thread
is resumed for each byte that is kept. -/
structure Receives (sdp sdp' : SerialDriver θ) (resumed : Resumed θ) (came : Bytes) (n : Nat) : Prop where
  state : sdp'.state = sdp.state
  rxmask : sdp'.rxmask = sdp.rxmask
  CR1 : sdp'.CR1 = sdp.CR1
  oqueue : sdp'.oqueue = sdp.oqueue
  waiting : sdp'.iqueue.q_waiting = sdp.iqueue.q_waiting.drop n
  resumed : resumed = (sdp.iqueue.q_waiting.take n).map (fun thread => (thread,.MSG_OK))
  line : lines sdp'.log = lines sdp.log ++ came.map .came
  quiet : takings sdp'.log = takings sdp.log ∧ puts sdp'.log = puts sdp.log ∧
    transmissions sdp'.log = transmissions sdp.log

section Interrupt
variable {sdp : SerialDriver θ} {i o : Bytes}

theorem holdsFlags (holds : Holds sdp i o) (raised : List Flag) : Holds (chnAddFlagsI sdp raised) i o :=
  ⟨holds.input,holds.output,holds.depths,holds.enabled,loggedFlags holds.logged raised⟩

theorem receivesFlags (sdp : SerialDriver θ) (raised : List Flag) : Receives sdp (chnAddFlagsI sdp raised) [] [] 0 := by
  refine ⟨rfl,rfl,rfl,rfl,rfl,rfl,by simp [chnAddFlagsI,lines],?_⟩
  simp [chnAddFlagsI,takings,puts,transmissions]

theorem receivesTrans {sdp' sdp'' : SerialDriver θ} {first second : Resumed θ} {came came' : Bytes} {m n : Nat}
    (left : Receives sdp sdp' first came m) (right : Receives sdp' sdp'' second came' n) :
    Receives sdp sdp'' (first ++ second) (came ++ came') (m + n) := by
  refine ⟨right.state.trans left.state,right.rxmask.trans left.rxmask,right.CR1.trans left.CR1,
    right.oqueue.trans left.oqueue,?_,?_,?_,?_⟩
  · rw [right.waiting,left.waiting,List.drop_drop]
  · rw [right.resumed,left.resumed,left.waiting,List.take_add,List.map_append]
  · rw [right.line,left.line,List.map_append,List.append_assoc]
  · rw [right.quiet.1,right.quiet.2.1,right.quiet.2.2]
    exact left.quiet

theorem receivesNone (sdp : SerialDriver θ) : Receives sdp sdp [] [] 0 :=
  ⟨rfl,rfl,rfl,rfl,rfl,rfl,(List.append_nil _).symm,rfl,rfl,rfl⟩

theorem keptFree (b : UInt8) (free : i.length < SERIAL_BUFFERS_SIZE) : kept i [b] = [b] := by
  rw [kept,List.take_of_length_le (by rw [List.length_singleton]; omega)]

theorem keptFull (bytes : Bytes) (full : ¬ i.length < SERIAL_BUFFERS_SIZE) : kept i bytes = [] := by
  rw [kept,show SERIAL_BUFFERS_SIZE - i.length = 0 from by omega,List.take_zero]

theorem storedHolds (holds : Holds sdp i o) (b : UInt8) {stored : Served θ Msg} (put : stored = iqPutI sdp.iqueue b) :
    Holds {sdp with iqueue := stored.queue, log := sdp.log ++ [.received b stored.ret]} (i ++ kept i [b]) o ∧
    Receives sdp {sdp with iqueue := stored.queue, log := sdp.log ++ [.received b stored.ret]} stored.resumed [b]
      (kept i [b]).length := by
  have size := putSize sdp.iqueue b
  rw [← put,holds.depths.1] at size
  have quiet : takings (sdp.log ++ [.received b stored.ret]) = takings sdp.log ∧
      puts (sdp.log ++ [.received b stored.ret]) = puts sdp.log ∧
      transmissions (sdp.log ++ [.received b stored.ret]) = transmissions sdp.log := by
    simp [takings,puts,transmissions]
  have line : lines (sdp.log ++ [.received b stored.ret]) = lines sdp.log ++ [b].map .came := by simp [lines]
  by_cases free : i.length < SERIAL_BUFFERS_SIZE
  · have room : i.length < qSizeX sdp.iqueue := by rw [holds.depths.1]; exact free
    have notFull : ¬ iqIsFullI sdp.iqueue = true := fun full => by have := (inputFull holds.input).mp full; omega
    obtain ⟨ret,input⟩ := inputPut holds.input b room
    obtain ⟨waiting,resumed⟩ := putResumes sdp.iqueue b notFull
    have logged := loggedReceived holds.logged b stored.ret (by rw [put,ret,if_pos free])
    rw [← put] at input waiting resumed
    rw [if_pos free] at logged
    rw [keptFree b free]
    exact ⟨⟨input,holds.output,⟨size,holds.depths.2⟩,holds.enabled,logged⟩,rfl,rfl,rfl,rfl,waiting,resumed,line,quiet⟩
  · have room := inputRoom holds.input
    rw [holds.depths.1] at room
    have refused := inputRefuses holds.input b (by rw [holds.depths.1]; omega)
    have logged := loggedReceived holds.logged b stored.ret (by rw [put,refused,if_neg free])
    rw [if_neg free] at logged
    rw [keptFull [b] free,List.append_nil]
    have same : stored.queue = sdp.iqueue ∧ stored.resumed = [] := by rw [put,refused]; exact ⟨rfl,rfl⟩
    refine ⟨⟨?_,holds.output,⟨size,holds.depths.2⟩,holds.enabled,logged⟩,rfl,rfl,rfl,rfl,?_,same.2,line,quiet⟩
    · rw [same.1]
      exact holds.input
    · simp only [same.1]
      rfl

theorem flagsIf (holds : Holds sdp i o) (test : Bool) (raised : List Flag) :
    Holds (if test then chnAddFlagsI sdp raised else sdp) i o ∧
    Receives sdp (if test then chnAddFlagsI sdp raised else sdp) [] [] 0 := by
  split
  · exact ⟨holdsFlags holds raised,receivesFlags sdp raised⟩
  · exact ⟨holds,receivesNone sdp⟩

theorem incomingHolds (holds : Holds sdp i o) (b : UInt8) :
    Holds (sdIncomingDataI sdp b).1 (i ++ kept i [b]) o ∧
    Receives sdp (sdIncomingDataI sdp b).1 (sdIncomingDataI sdp b).2 [b] (kept i [b]).length := by
  obtain ⟨held,noted⟩ := flagsIf holds (iqIsEmptyI sdp.iqueue) [.CHN_INPUT_AVAILABLE]
  unfold sdIncomingDataI
  generalize (if iqIsEmptyI sdp.iqueue then chnAddFlagsI sdp [.CHN_INPUT_AVAILABLE] else sdp) = flagged at *
  obtain ⟨held,stored⟩ := storedHolds held b rfl
  have whole := receivesTrans noted stored
  rw [List.nil_append,List.nil_append,Nat.zero_add] at whole
  dsimp only
  split
  · exact ⟨held,whole⟩
  · refine ⟨holdsFlags held _,?_⟩
    have last := receivesTrans whole (receivesFlags _ [.SD_OVERRUN_ERROR])
    rwa [List.append_nil,List.append_nil] at last

theorem receiveHolds (holds : Holds sdp i o) (sr : Sr) (dr : UInt8) :
    Holds (receive sdp sr dr).1 (i ++ kept i (if sr.RXNE then [dr &&& sdp.rxmask] else [])) o ∧
    Receives sdp (receive sdp sr dr).1 (receive sdp sr dr).2 (if sr.RXNE then [dr &&& sdp.rxmask] else [])
      (kept i (if sr.RXNE then [dr &&& sdp.rxmask] else [])).length := by
  obtain ⟨held,noted⟩ := flagsIf holds sr.error (errorFlags sr)
  have mask := noted.rxmask
  unfold receive
  rw [show set_error sdp sr = chnAddFlagsI sdp (errorFlags sr) from rfl]
  generalize (if sr.error then chnAddFlagsI sdp (errorFlags sr) else sdp) = flagged at *
  dsimp only
  rw [mask]
  split
  · obtain ⟨held,stored⟩ := incomingHolds held (dr &&& sdp.rxmask)
    have whole := receivesTrans noted stored
    rw [List.nil_append,List.nil_append,Nat.zero_add] at whole
    exact ⟨held,whole⟩
  · have none : kept i [] = [] := List.take_nil
    rw [none,List.append_nil]
    exact ⟨held,noted⟩

/-- The receive loop keeps the bytes for which there is room, in order. -/
theorem loopHolds (holds : Holds sdp i o) {sr : Sr} {turns : List (UInt8 × Sr)} {last : Loop θ}
    (ran : receiveLoop sdp sr turns = some last) :
    Holds last.sdp (i ++ kept i (incoming sdp.rxmask sr turns)) o ∧ last.sr = lastSr sr turns ∧
    Receives sdp last.sdp last.resumed (incoming sdp.rxmask sr turns) (kept i (incoming sdp.rxmask sr turns)).length := by
  induction turns generalizing sdp sr i last with
  | nil =>
    obtain ⟨_,ran⟩ := Option.ite_none_left_eq_some.mp ran
    cases ran
    have none : kept i (incoming sdp.rxmask sr []) = [] := List.take_nil
    rw [none,List.append_nil]
    exact ⟨holds,rfl,receivesNone sdp⟩
  | cons turn rest ih =>
    obtain ⟨_,ran⟩ := Option.ite_none_right_eq_some.mp ran
    obtain ⟨later,rest',rfl⟩ := Option.map_eq_some_iff.mp ran
    obtain ⟨held,first⟩ := receiveHolds holds sr turn.1
    obtain ⟨held,shown,more⟩ := ih held rest'
    have whole := receivesTrans first more
    rw [first.rxmask] at held whole
    rw [incoming,keptAppend,← List.append_assoc,List.length_append]
    exact ⟨held,shown,whole⟩

/- What the transmit side of an interrupt does: it sends at most one byte. -/
def sendable (cr1 : Cr1) (sr : Sr) (o : Bytes) : Bytes := if cr1.TXEIE && sr.TXE then o.take 1 else []

theorem sendableFront (cr1 : Cr1) (sr : Sr) (o : Bytes) : o = sendable cr1 sr o ++ o.drop (sendable cr1 sr o).length := by
  unfold sendable
  split
  · cases o <;> rfl
  · rfl

structure Sends (sdp sdp' : SerialDriver θ) (resumed : Resumed θ) (sent : Bytes) : Prop where
  state : sdp'.state = sdp.state
  rxmask : sdp'.rxmask = sdp.rxmask
  iqueue : sdp'.iqueue = sdp.iqueue
  waiting : sdp'.oqueue.q_waiting = sdp.oqueue.q_waiting.drop sent.length
  resumed : resumed = (sdp.oqueue.q_waiting.take sent.length).map (fun thread => (thread,.MSG_OK))
  transmitted : transmissions sdp'.log = transmissions sdp.log ++ sent
  line : lines sdp'.log = lines sdp.log ++ sent.map .left
  quiet : takings sdp'.log = takings sdp.log ∧ puts sdp'.log = puts sdp.log

theorem transmitHolds (holds : Holds sdp i o) (sr : Sr) :
    Holds (transmit sdp.CR1 sr sdp).1 i (o.drop (sendable sdp.CR1 sr o).length) ∧
    Sends sdp (transmit sdp.CR1 sr sdp).1 (transmit sdp.CR1 sr sdp).2 (sendable sdp.CR1 sr o) := by
  unfold transmit sendable
  split
  · cases o with
    | nil =>
      have empty : oqGetI sdp.oqueue = ⟨none,sdp.oqueue,[]⟩ := by
        rw [oqGetI,if_pos ((outputEmpty holds.output).mpr rfl)]
      simp only [empty]
      refine ⟨⟨holds.input,holds.output,holds.depths,fun some => absurd rfl some,loggedFlags holds.logged _⟩,
        rfl,rfl,rfl,rfl,rfl,?_,?_,?_⟩
      · simp [chnAddFlagsI,transmissions]
      · simp [chnAddFlagsI,lines]
      · simp [chnAddFlagsI,takings,puts]
    | cons b o =>
      obtain ⟨ret,output⟩ := outputGet holds.output
      have size := getSize sdp.oqueue
      have some : ¬ oqIsEmptyI sdp.oqueue = true := fun empty => List.cons_ne_nil _ _ ((outputEmpty holds.output).mp empty)
      obtain ⟨waiting,resumed⟩ := getResumes sdp.oqueue some
      rw [holds.depths.2] at size
      simp only [ret]
      refine ⟨⟨holds.input,output,⟨holds.depths.1,size⟩,fun _ => holds.enabled (by simp),loggedTransmitted holds.logged⟩,
        rfl,rfl,rfl,waiting,resumed,?_,?_,?_⟩
      · simp [transmissions]
      · simp [lines]
      · simp [takings,puts]
  · exact ⟨holds,rfl,rfl,rfl,rfl,rfl,(List.append_nil _).symm,(List.append_nil _).symm,rfl,rfl⟩

theorem endHolds (holds : Holds sdp i o) {cr1 : Cr1} (enabled : o ≠ [] → cr1.TXEIE = true) (sr : Sr) :
    Holds (transmissionEnd cr1 sr sdp) i o ∧ Sends sdp (transmissionEnd cr1 sr sdp) [] [] := by
  unfold transmissionEnd
  split
  · dsimp only
    split
    · refine ⟨⟨holds.input,holds.output,holds.depths,enabled,loggedFlags holds.logged _⟩,rfl,rfl,rfl,rfl,rfl,?_,?_,?_⟩
      · simp [chnAddFlagsI,transmissions]
      · simp [chnAddFlagsI,lines]
      · simp [chnAddFlagsI,takings,puts]
    · exact ⟨⟨holds.input,holds.output,holds.depths,enabled,holds.logged⟩,rfl,rfl,rfl,rfl,rfl,
        (List.append_nil _).symm,(List.append_nil _).symm,rfl,rfl⟩
  · exact ⟨holds,rfl,rfl,rfl,rfl,rfl,(List.append_nil _).symm,(List.append_nil _).symm,rfl,rfl⟩

structure Serves (sdp sdp' : SerialDriver θ) (resumed : Resumed θ) (came got sent : Bytes) : Prop where
  state : sdp'.state = sdp.state
  rxmask : sdp'.rxmask = sdp.rxmask
  reader : sdp'.iqueue.q_waiting = sdp.iqueue.q_waiting.drop got.length
  writer : sdp'.oqueue.q_waiting = sdp.oqueue.q_waiting.drop sent.length
  resumed : resumed = (sdp.iqueue.q_waiting.take got.length).map (fun thread => (thread,.MSG_OK)) ++
    (sdp.oqueue.q_waiting.take sent.length).map (fun thread => (thread,.MSG_OK))
  transmitted : transmissions sdp'.log = transmissions sdp.log ++ sent
  line : lines sdp'.log = lines sdp.log ++ came.map .came ++ sent.map .left
  quiet : takings sdp'.log = takings sdp.log ∧ puts sdp'.log = puts sdp.log

/-- A whole interrupt: the bytes that come in go behind those in the input queue as far as
there is room, and at most one byte leaves the output queue. -/
theorem serveHolds (holds : Holds sdp i o) {sr : Sr} {turns : List (UInt8 × Sr)} {r : SerialDriver θ × Resumed θ}
    (ran : serve_interrupt sdp sr turns = some r) :
    Holds r.1 (i ++ kept i (incoming sdp.rxmask sr turns)) (o.drop (sendable sdp.CR1 (lastSr sr turns) o).length) ∧
    Serves sdp r.1 r.2 (incoming sdp.rxmask sr turns) (kept i (incoming sdp.rxmask sr turns)) (sendable sdp.CR1 (lastSr sr turns) o) := by
  obtain ⟨flagged,noted⟩ := flagsIf holds sr.LBD [.SD_BREAK_DETECTED]
  unfold serve_interrupt at ran
  generalize (if sr.LBD then chnAddFlagsI sdp [.SD_BREAK_DETECTED] else sdp) = first at *
  obtain ⟨last,looped,rfl⟩ := Option.map_eq_some_iff.mp ran
  obtain ⟨held,shown,received⟩ := loopHolds flagged looped
  have whole := receivesTrans noted received
  rw [List.nil_append,List.nil_append,Nat.zero_add,noted.rxmask] at whole
  rw [noted.rxmask] at held
  have register : last.sdp.CR1 = sdp.CR1 := received.CR1.trans noted.CR1
  obtain ⟨held,sent⟩ := transmitHolds held last.sr
  rw [register,shown] at held sent
  have enabled : o.drop (sendable sdp.CR1 (lastSr sr turns) o).length ≠ [] → sdp.CR1.TXEIE = true :=
    fun some => holds.enabled (fun none => some (by rw [none,List.drop_nil]))
  obtain ⟨held,ended⟩ := endHolds held enabled (lastSr sr turns)
  rw [shown]
  dsimp only
  refine ⟨held,ended.state.trans (sent.state.trans whole.state),ended.rxmask.trans (sent.rxmask.trans whole.rxmask),?_,?_,?_,?_,?_,?_⟩
  · rw [ended.iqueue,sent.iqueue]
    exact whole.waiting
  · rw [ended.waiting,sent.waiting,whole.oqueue]
    rfl
  · rw [whole.resumed,sent.resumed,whole.oqueue]
  · rw [ended.transmitted,sent.transmitted,whole.quiet.2.2,List.append_nil]
  · rw [ended.line,sent.line,whole.line]
    exact List.append_nil _
  · rw [ended.quiet.1,ended.quiet.2,sent.quiet.1,sent.quiet.2]
    exact ⟨whole.quiet.1,whole.quiet.2.1⟩

end Interrupt

section Turns
variable {sdp : SerialDriver θ} {i o : Bytes}

theorem readHolds {b : UInt8} (holds : Holds sdp (b :: i) o) (self : θ) :
    (readTurn sdp self).1 = some b ∧ Holds (readTurn sdp self).2 i o ∧
    (readTurn sdp self).2.iqueue.q_waiting = sdp.iqueue.q_waiting := by
  obtain ⟨taken,input,waiting⟩ := inputRead holds.input self
  have size := readSize sdp.iqueue self
  rw [holds.depths.1] at size
  refine ⟨taken,⟨input,holds.output,⟨size,holds.depths.2⟩,holds.enabled,?_⟩,waiting⟩
  simp only [readTurn,taken,Option.map_some,Option.toList_some]
  exact loggedTaken holds.logged

theorem readLog {b : UInt8} {self : θ} (taken : (readTurn sdp self).1 = some b) :
    (readTurn sdp self).2.log = sdp.log ++ [.taken b] ∧ (readTurn sdp self).2.oqueue = sdp.oqueue ∧
    (readTurn sdp self).2.state = sdp.state := by
  have from' : (iqReadTurn sdp.iqueue self).1 = some b := taken
  exact ⟨by simp [readTurn,from'],rfl,rfl⟩

theorem writeLog {b : UInt8} {self : θ} (put : (writeTurn sdp self b).1 = true) :
    (writeTurn sdp self b).2.log = sdp.log ++ [.put b] ∧ (writeTurn sdp self b).2.iqueue = sdp.iqueue ∧
    (writeTurn sdp self b).2.state = sdp.state := by
  have from' : (oqWriteTurn sdp.oqueue self b).1 = true := put
  simp only [writeTurn,from',if_true]
  exact ⟨rfl,rfl,rfl⟩

theorem readSleeps (holds : Holds sdp [] o) (self : θ) :
    readTurn sdp self = (none,{sdp with iqueue := enqueue sdp.iqueue self}) := by
  simp only [readTurn,inputSleeps holds.input self,Option.map_none,Option.toList_none,List.append_nil]

theorem writeHolds (holds : Holds sdp i o) (self : θ) (b : UInt8) (free : o.length < SERIAL_BUFFERS_SIZE) :
    (writeTurn sdp self b).1 = true ∧ Holds (writeTurn sdp self b).2 i (o ++ [b]) ∧
    (writeTurn sdp self b).2.oqueue.q_waiting = sdp.oqueue.q_waiting := by
  obtain ⟨put,output,waiting⟩ := outputWrite holds.output self b (by rw [holds.depths.2]; exact free)
  have size := writeSize sdp.oqueue self b
  rw [holds.depths.2] at size
  simp only [writeTurn,put,if_true]
  exact ⟨trivial,⟨holds.input,output,⟨holds.depths.1,size⟩,fun _ => rfl,loggedPut holds.logged b⟩,waiting⟩

theorem writeSleeps (holds : Holds sdp i o) (self : θ) (b : UInt8) (full : o.length = SERIAL_BUFFERS_SIZE) :
    writeTurn sdp self b = (false,{sdp with oqueue := enqueue sdp.oqueue self}) := by
  simp only [writeTurn,outputSleeps holds.output self b (by rw [holds.depths.2]; exact full)]
  rfl

theorem stopLog (sdp : SerialDriver θ) : (sdStop sdp).1.log = sdp.log := by
  simp only [sdStop,sd_lld_stop]
  split <;> rfl

/- A thread that goes to sleep changes no byte. -/
theorem enqueueHolds (holds : Holds sdp i o) (self : θ) : Holds {sdp with iqueue := enqueue sdp.iqueue self} i o ∧
    Holds {sdp with oqueue := enqueue sdp.oqueue self} i o := by
  obtain ⟨⟨r,shown,counter,contents⟩,⟨r',shown',counter',contents'⟩,depths,enabled,logged⟩ := holds
  exact ⟨⟨⟨r,⟨shown.buffer,shown.rdptr,shown.wrptr⟩,counter,contents⟩,⟨r',shown',counter',contents'⟩,depths,enabled,logged⟩,
    ⟨r,shown,counter,contents⟩,⟨r',⟨shown'.buffer,shown'.rdptr,shown'.wrptr⟩,counter',contents'⟩,depths,enabled,logged⟩

theorem startHolds (ib ob : Bytes) (input : ib.length = SERIAL_BUFFERS_SIZE) (output : ob.length = SERIAL_BUFFERS_SIZE)
    (config : Cr1) : Holds (sdStart (sdObjectInit ib ob : SerialDriver θ) config) [] [] :=
  ⟨inputInit ib (by rw [input]; decide),outputInit ob (by rw [output]; decide),⟨input,output⟩,
    fun some => absurd rfl some,loggedNone⟩

end Turns
end HsspProgrammer.Usart
