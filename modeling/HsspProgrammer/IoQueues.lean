import HsspProgrammer.Ascii
import HsspProgrammer.RingBuffer

/-! The I/O queues of the serial driver. A thread is on the one side, the interrupt on the
other: of an input queue the thread reads and the counter is of bytes, of an output queue
it writes and the counter is of free bytes. -/
namespace HsspProgrammer.IoQueues
open Ascii (Bytes)
open RingBuffer (Buffer advance)

inductive Msg where
  | MSG_OK
  | MSG_TIMEOUT
  | MSG_RESET
  deriving DecidableEq, Repr

/- The memory from `q_buffer` up to `q_top`, and the two pointers into it by their distance
from `q_buffer`; `θ` are the threads. -/
structure IoQueue (θ : Type) where
  q_waiting : List θ
  q_counter : Nat
  q_buffer : Bytes
  q_wrptr : Nat
  q_rdptr : Nat

variable {θ : Type}

def qSizeX (qp : IoQueue θ) : Nat := qp.q_buffer.length
def qSpaceI (qp : IoQueue θ) : Nat := qp.q_counter

def iqIsEmptyI (iqp : IoQueue θ) : Bool := qSpaceI iqp == 0
def iqIsFullI (iqp : IoQueue θ) : Bool := iqp.q_wrptr == iqp.q_rdptr && iqp.q_counter != 0
def oqIsEmptyI (oqp : IoQueue θ) : Bool := oqp.q_wrptr == oqp.q_rdptr && oqp.q_counter != 0
def oqIsFullI (oqp : IoQueue θ) : Bool := qSpaceI oqp == 0

def iqObjectInit (bp : Bytes) : IoQueue θ := ⟨[],0,bp,0,0⟩
def oqObjectInit (bp : Bytes) : IoQueue θ := ⟨[],bp.length,bp,0,0⟩

/- What an operation of the interrupt side returns; the resumed threads with the message
each is resumed with. -/
structure Served (θ ρ : Type) where
  ret : ρ
  queue : IoQueue θ
  resumed : List (θ × Msg)

/- `osalThreadDequeueNextI` and `osalThreadDequeueAllI`. -/
def dequeueNext (qp : IoQueue θ) (msg : Msg) : List (θ × Msg) × IoQueue θ :=
  ((qp.q_waiting.take 1).map (fun thread => (thread,msg)),{qp with q_waiting := qp.q_waiting.drop 1})

def dequeueAll (qp : IoQueue θ) (msg : Msg) : List (θ × Msg) × IoQueue θ :=
  (qp.q_waiting.map (fun thread => (thread,msg)),{qp with q_waiting := []})

/- `osalThreadEnqueueTimeoutS` up to where the thread sleeps. -/
def enqueue (qp : IoQueue θ) (self : θ) : IoQueue θ := {qp with q_waiting := qp.q_waiting ++ [self]}

/- `*q_wrptr++ = b` and the wrap after it. -/
def store (qp : IoQueue θ) (b : UInt8) : IoQueue θ :=
  {qp with q_buffer := qp.q_buffer.set qp.q_wrptr b, q_wrptr := advance (qSizeX qp) qp.q_wrptr}

/- `b = *q_rdptr++` and the wrap after it. -/
def fetch (qp : IoQueue θ) : UInt8 × IoQueue θ :=
  (qp.q_buffer.getD qp.q_rdptr 0,{qp with q_rdptr := advance (qSizeX qp) qp.q_rdptr})

def iqResetI (iqp : IoQueue θ) : Served θ Unit :=
  let woken := dequeueAll {iqp with q_rdptr := 0, q_wrptr := 0, q_counter := 0} .MSG_RESET
  ⟨(),woken.2,woken.1⟩

def oqResetI (oqp : IoQueue θ) : Served θ Unit :=
  let woken := dequeueAll {oqp with q_rdptr := 0, q_wrptr := 0, q_counter := qSizeX oqp} .MSG_RESET
  ⟨(),woken.2,woken.1⟩

def iqPutI (iqp : IoQueue θ) (b : UInt8) : Served θ Msg :=
  if iqIsFullI iqp then ⟨.MSG_TIMEOUT,iqp,[]⟩
  else
    let woken := dequeueNext (store {iqp with q_counter := iqp.q_counter + 1} b) .MSG_OK
    ⟨.MSG_OK,woken.2,woken.1⟩

/- `none` is the `MSG_TIMEOUT` of the source. -/
def oqGetI (oqp : IoQueue θ) : Served θ (Option UInt8) :=
  if oqIsEmptyI oqp then ⟨none,oqp,[]⟩
  else
    let read := fetch {oqp with q_counter := oqp.q_counter + 1}
    let woken := dequeueNext read.2 .MSG_OK
    ⟨some read.1,woken.2,woken.1⟩

/- One turn of the loop of `iqReadTimeout` under the lock, with `TIME_INFINITE`: the thread
takes a byte or goes to sleep, `none`. `iqGetTimeout` is a read of one byte. -/
def iqReadTurn (iqp : IoQueue θ) (self : θ) : Option UInt8 × IoQueue θ :=
  if iqIsEmptyI iqp then (none,enqueue iqp self)
  else
    let read := fetch {iqp with q_counter := iqp.q_counter - 1}
    (some read.1,read.2)

/- The same of `oqWriteTimeout`: true when the byte is in the queue. -/
def oqWriteTurn (oqp : IoQueue θ) (self : θ) (b : UInt8) : Bool × IoQueue θ :=
  if oqIsFullI oqp then (false,enqueue oqp self)
  else (true,store {oqp with q_counter := oqp.q_counter - 1} b)

/- The cells and the two pointers are those of a ring. -/
structure Shows (qp : IoQueue θ) (r : Buffer UInt8) : Prop where
  buffer : qp.q_buffer = r.cells
  rdptr : qp.q_rdptr = r.front
  wrptr : qp.q_wrptr = r.back

/- An input queue that holds `bytes`, the oldest first. -/
def Input (iqp : IoQueue θ) (bytes : Bytes) : Prop :=
  ∃ r, Shows iqp r ∧ iqp.q_counter = r.used ∧ r.contents = bytes

def Output (oqp : IoQueue θ) (bytes : Bytes) : Prop :=
  ∃ r, Shows oqp r ∧ oqp.q_counter = r.cells.length - r.used ∧ r.contents = bytes

section Pointers
variable {qp : IoQueue θ} {r : Buffer UInt8}

theorem showsSize (shows' : Shows qp r) : qSizeX qp = r.cells.length := by rw [qSizeX,shows'.buffer]

theorem showsInit (bp : Bytes) (some : 0 < bp.length) (waiting : List θ) (counter : Nat) :
    Shows ⟨waiting,counter,bp,0,0⟩ (Buffer.empty bp some) :=
  ⟨rfl,rfl,by simp [Buffer.empty,Buffer.back]⟩

theorem showsCounter (shows' : Shows qp r) (counter : Nat) : Shows {qp with q_counter := counter} r :=
  ⟨shows'.buffer,shows'.rdptr,shows'.wrptr⟩

theorem showsStore (shows' : Shows qp r) (b : UInt8) (free : r.used < r.cells.length) :
    Shows (store qp b) (r.push b free) := by
  obtain ⟨buffer,rdptr,wrptr⟩ := shows'
  refine ⟨?_,rdptr,?_⟩
  · simp only [store,Buffer.push,buffer,wrptr]
  · rw [r.backPush b free]
    simp only [store,qSizeX,buffer,wrptr]

theorem showsFetch (shows' : Shows qp r) (some : 0 < r.used) : Shows (fetch qp).2 (r.pop some) := by
  obtain ⟨buffer,rdptr,wrptr⟩ := shows'
  refine ⟨buffer,?_,?_⟩
  · simp only [fetch,Buffer.pop,qSizeX,buffer,rdptr]
  · rw [r.backPop some]
    exact wrptr

theorem fetchOldest (shows' : Shows qp r) (some : 0 < r.used) : r.contents = (fetch qp).1 :: (r.pop some).contents := by
  have oldest : (fetch qp).1 = r.cells.get ⟨r.front,r.inside⟩ := by
    simp [fetch,shows'.buffer,shows'.rdptr,List.getD_eq_getElem?_getD,List.getElem?_eq_getElem r.inside]
  rw [oldest]
  exact r.contentsPop some

/- What both tests of the two pointers ask. -/
theorem pointersMeet (shows' : Shows qp r) : qp.q_wrptr = qp.q_rdptr ↔ r.used = 0 ∨ r.used = qSizeX qp := by
  rw [shows'.wrptr,shows'.rdptr,showsSize shows']
  exact r.backFront

end Pointers

/- No operation changes the size, and each byte through the interrupt side resumes the
thread that waits longest. -/
section Waiting
variable (qp : IoQueue θ) (self : θ) (b : UInt8)

theorem putSize : qSizeX (iqPutI qp b).queue = qSizeX qp := by
  unfold iqPutI
  split
  · rfl
  · exact List.length_set

theorem getSize : qSizeX (oqGetI qp).queue = qSizeX qp := by
  unfold oqGetI
  split <;> rfl

theorem readSize : qSizeX (iqReadTurn qp self).2 = qSizeX qp := by
  unfold iqReadTurn
  split <;> rfl

theorem writeSize : qSizeX (oqWriteTurn qp self b).2 = qSizeX qp := by
  unfold oqWriteTurn
  split
  · rfl
  · exact List.length_set

theorem putResumes (free : ¬ iqIsFullI qp = true) : (iqPutI qp b).queue.q_waiting = qp.q_waiting.drop 1 ∧
    (iqPutI qp b).resumed = (qp.q_waiting.take 1).map (fun thread => (thread,.MSG_OK)) := by
  rw [iqPutI,if_neg free]
  exact ⟨rfl,rfl⟩

theorem getResumes (some : ¬ oqIsEmptyI qp = true) : (oqGetI qp).queue.q_waiting = qp.q_waiting.drop 1 ∧
    (oqGetI qp).resumed = (qp.q_waiting.take 1).map (fun thread => (thread,.MSG_OK)) := by
  rw [oqGetI,if_neg some]
  exact ⟨rfl,rfl⟩

end Waiting

section InputSide
variable {iqp : IoQueue θ} {bytes : Bytes}

theorem inputCounter (holds : Input iqp bytes) : iqp.q_counter = bytes.length := by
  obtain ⟨r,_,counter,rfl⟩ := holds
  rw [counter,r.lengthContents]

theorem inputRoom (holds : Input iqp bytes) : bytes.length ≤ qSizeX iqp := by
  obtain ⟨r,shows',_,rfl⟩ := holds
  rw [r.lengthContents,showsSize shows']
  exact r.room

theorem inputPositive (holds : Input iqp bytes) : 0 < qSizeX iqp := by
  obtain ⟨r,shows',_,_⟩ := holds
  rw [showsSize shows']
  exact r.positive

theorem inputInit (bp : Bytes) (some : 0 < bp.length) : Input (iqObjectInit bp : IoQueue θ) [] :=
  ⟨Buffer.empty bp some,showsInit bp some [] 0,rfl,Buffer.contentsEmpty bp some⟩

theorem inputEmpty (holds : Input iqp bytes) : iqIsEmptyI iqp = true ↔ bytes = [] := by
  rw [iqIsEmptyI,qSpaceI,inputCounter holds,beq_iff_eq]
  exact List.length_eq_zero_iff

theorem inputFull (holds : Input iqp bytes) : iqIsFullI iqp = true ↔ bytes.length = qSizeX iqp := by
  have counter := inputCounter holds
  have positive := inputPositive holds
  obtain ⟨r,shows',used,rfl⟩ := holds
  rw [iqIsFullI,Bool.and_eq_true,beq_iff_eq,bne_iff_ne,pointersMeet shows',← used,counter]
  omega

theorem inputReset (holds : Input iqp bytes) : Input (iqResetI iqp).queue [] := by
  have positive := inputPositive holds
  exact ⟨Buffer.empty iqp.q_buffer positive,showsInit iqp.q_buffer positive [] 0,rfl,Buffer.contentsEmpty _ _⟩

theorem inputPut (holds : Input iqp bytes) (b : UInt8) (free : bytes.length < qSizeX iqp) :
    (iqPutI iqp b).ret = .MSG_OK ∧ Input (iqPutI iqp b).queue (bytes ++ [b]) := by
  have notFull : ¬ iqIsFullI iqp = true := fun full => by have := (inputFull holds).mp full; omega
  obtain ⟨r,shows',used,rfl⟩ := holds
  rw [r.lengthContents,showsSize shows'] at free
  rw [iqPutI,if_neg notFull]
  have stored := showsStore (showsCounter shows' (iqp.q_counter + 1)) b free
  exact ⟨rfl,r.push b free,⟨stored.buffer,stored.rdptr,stored.wrptr⟩,congrArg (· + 1) used,r.contentsPush b free⟩

theorem inputRefuses (holds : Input iqp bytes) (b : UInt8) (full : bytes.length = qSizeX iqp) :
    iqPutI iqp b = ⟨.MSG_TIMEOUT,iqp,[]⟩ := by
  rw [iqPutI,if_pos ((inputFull holds).mpr full)]

theorem inputSleeps (holds : Input iqp []) (self : θ) : iqReadTurn iqp self = (none,enqueue iqp self) := by
  rw [iqReadTurn,if_pos ((inputEmpty holds).mpr rfl)]

theorem inputRead {b : UInt8} (holds : Input iqp (b :: bytes)) (self : θ) :
    (iqReadTurn iqp self).1 = some b ∧ Input (iqReadTurn iqp self).2 bytes ∧
    (iqReadTurn iqp self).2.q_waiting = iqp.q_waiting := by
  have notEmpty : ¬ iqIsEmptyI iqp = true := fun empty => List.cons_ne_nil _ _ ((inputEmpty holds).mp empty)
  have counter := inputCounter holds
  obtain ⟨r,shows',used,all⟩ := holds
  have some : 0 < r.used := by rw [← r.lengthContents,all,List.length_cons]; omega
  have shown := showsCounter shows' (iqp.q_counter - 1)
  obtain ⟨oldest,rest⟩ := List.cons.inj (all.symm.trans (fetchOldest shown some))
  rw [iqReadTurn,if_neg notEmpty]
  exact ⟨congrArg Option.some oldest.symm,⟨r.pop some,showsFetch shown some,congrArg (· - 1) used,rest.symm⟩,rfl⟩

end InputSide

section OutputSide
variable {oqp : IoQueue θ} {bytes : Bytes}

theorem outputRoom (holds : Output oqp bytes) : bytes.length ≤ qSizeX oqp := by
  obtain ⟨r,shows',_,rfl⟩ := holds
  rw [r.lengthContents,showsSize shows']
  exact r.room

theorem outputCounter (holds : Output oqp bytes) : oqp.q_counter = qSizeX oqp - bytes.length := by
  obtain ⟨r,shows',counter,rfl⟩ := holds
  rw [counter,r.lengthContents,showsSize shows']

theorem outputPositive (holds : Output oqp bytes) : 0 < qSizeX oqp := by
  obtain ⟨r,shows',_,_⟩ := holds
  rw [showsSize shows']
  exact r.positive

theorem outputInit (bp : Bytes) (some : 0 < bp.length) : Output (oqObjectInit bp : IoQueue θ) [] :=
  ⟨Buffer.empty bp some,showsInit bp some [] _,rfl,Buffer.contentsEmpty bp some⟩

theorem outputFull (holds : Output oqp bytes) : oqIsFullI oqp = true ↔ bytes.length = qSizeX oqp := by
  have room := outputRoom holds
  rw [oqIsFullI,qSpaceI,outputCounter holds,beq_iff_eq]
  omega

theorem outputEmpty (holds : Output oqp bytes) : oqIsEmptyI oqp = true ↔ bytes = [] := by
  have counter := outputCounter holds
  have positive := outputPositive holds
  have room := outputRoom holds
  obtain ⟨r,shows',_,rfl⟩ := holds
  rw [oqIsEmptyI,Bool.and_eq_true,beq_iff_eq,bne_iff_ne,pointersMeet shows',counter,
    ← List.length_eq_zero_iff (l := r.contents)]
  rw [r.lengthContents] at *
  omega

theorem outputReset (holds : Output oqp bytes) : Output (oqResetI oqp).queue [] := by
  have positive := outputPositive holds
  exact ⟨Buffer.empty oqp.q_buffer positive,showsInit oqp.q_buffer positive [] _,rfl,Buffer.contentsEmpty _ _⟩

theorem outputSleeps (holds : Output oqp bytes) (self : θ) (b : UInt8) (full : bytes.length = qSizeX oqp) :
    oqWriteTurn oqp self b = (false,enqueue oqp self) := by
  rw [oqWriteTurn,if_pos ((outputFull holds).mpr full)]

theorem outputWrite (holds : Output oqp bytes) (self : θ) (b : UInt8) (free : bytes.length < qSizeX oqp) :
    (oqWriteTurn oqp self b).1 = true ∧ Output (oqWriteTurn oqp self b).2 (bytes ++ [b]) ∧
    (oqWriteTurn oqp self b).2.q_waiting = oqp.q_waiting := by
  have notFull : ¬ oqIsFullI oqp = true := fun full => by have := (outputFull holds).mp full; omega
  obtain ⟨r,shows',counter,rfl⟩ := holds
  rw [r.lengthContents,showsSize shows'] at free
  rw [oqWriteTurn,if_neg notFull]
  refine ⟨rfl,⟨r.push b free,showsStore (showsCounter shows' (oqp.q_counter - 1)) b free,?_,r.contentsPush b free⟩,rfl⟩
  simp only [store,Buffer.push,List.length_set,counter]
  omega

theorem outputGet {b : UInt8} (holds : Output oqp (b :: bytes)) :
    (oqGetI oqp).ret = some b ∧ Output (oqGetI oqp).queue bytes := by
  have notEmpty : ¬ oqIsEmptyI oqp = true := fun empty => List.cons_ne_nil _ _ ((outputEmpty holds).mp empty)
  obtain ⟨r,shows',counter,all⟩ := holds
  have some : 0 < r.used := by rw [← r.lengthContents,all,List.length_cons]; omega
  have shown := showsCounter shows' (oqp.q_counter + 1)
  have fetched := showsFetch shown some
  obtain ⟨oldest,rest⟩ := List.cons.inj (all.symm.trans (fetchOldest shown some))
  have room := r.room
  rw [oqGetI,if_neg notEmpty]
  refine ⟨congrArg Option.some oldest.symm,r.pop some,⟨fetched.buffer,fetched.rdptr,fetched.wrptr⟩,?_,rest.symm⟩
  simp only [dequeueNext,fetch,Buffer.pop,counter]
  omega

end OutputSide
end HsspProgrammer.IoQueues
