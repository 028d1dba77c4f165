import HsspProgrammer.Programmer
import HsspProgrammer.Servicing

/-! Two levels of the firmware. The composed system has a bounded queue, a command loop
that reads from it and answers at once; the device has an interrupt, two ring queues and
a thread that sleeps. What the line can see of the device is seen of the firmware of the
composed system too. -/
namespace HsspProgrammer.Refinement
open Ascii (Bytes)
open CommandLoop (Firmware Target)
open Interrupts
open Programmer (Answer Sent Sys)
open Servicing
open Transition
open Usart (Holds Line SERIAL_BUFFERS_SIZE lines)

/- The firmware side of the composed system, without its stamps. -/
structure Half (τ : Type) where
  queue : Bytes
  firmware : Firmware τ
  replies : Bytes

inductive Label where
  | arrive (b : UInt8)
  | consume
  | execute
  | leave (b : UInt8)

variable {τ : Type} {T : Target τ} {checksum : UInt16} {target : τ}

def Half.step (T : Target τ) (h : Half τ) : Label → Option (Half τ)
  | .arrive b => some {h with queue := if h.queue.length < SERIAL_BUFFERS_SIZE then h.queue ++ [b] else h.queue}
  | .consume =>
    match h.queue with
    | [] => none
    | b :: queue => (CommandLoop.consume h.firmware b).map (fun fw => {h with queue := queue, firmware := fw})
  | .execute =>
    (CommandLoop.execute T h.firmware).map (fun outcome =>
      {h with firmware := outcome.firmware, replies := h.replies ++ outcome.reply})
  | .leave b => if h.replies.head? = some b then some {h with replies := h.replies.drop 1} else none

def Free (_ : Half τ) (_ : Label) : Prop := True

/- What the line sees of a run. -/
def seen (ls : List Label) : List Line := ls.filterMap (fun l => match l with
  | .arrive b => some (.came b)
  | .leave b => some (.left b)
  | _ => none)

theorem seenAppend (front back : List Label) : seen (front ++ back) = seen front ++ seen back := List.filterMap_append

/- Bytes that arrive one after the other. -/
theorem arriveRun (h : Half τ) (bytes : Bytes) :
    Run (Half.step T) Free h (bytes.map .arrive) {h with queue := h.queue ++ Usart.kept h.queue bytes} := by
  induction bytes generalizing h with
  | nil =>
    rw [show Usart.kept h.queue [] = [] from List.take_nil,List.append_nil]
    exact .nil h
  | cons b rest ih =>
    have stored : (if h.queue.length < SERIAL_BUFFERS_SIZE then h.queue ++ [b] else h.queue) =
        h.queue ++ Usart.kept h.queue [b] := by
      split
      · rename_i free
        rw [Usart.keptFree b free]
      · rename_i full
        rw [Usart.keptFull [b] full,List.append_nil]
    have later := ih {h with queue := h.queue ++ Usart.kept h.queue [b]}
    rw [List.append_assoc,← Usart.keptAppend,List.singleton_append] at later
    exact .cons trivial (by rw [Half.step,stored]) later

theorem leaveRun (h : Half τ) {sent rest : Bytes} (replies : h.replies = sent ++ rest) :
    Run (Half.step T) Free h (sent.map .leave) {h with replies := rest} := by
  induction sent generalizing h with
  | nil =>
    rw [List.nil_append] at replies
    subst replies
    exact .nil h
  | cons b sent ih =>
    have now : Half.step T h (.leave b) = some {h with replies := sent ++ rest} := by
      simp [Half.step,replies]
    exact .cons trivial now (ih {h with replies := sent ++ rest} rfl)

theorem seenArrivals (bytes : Bytes) : seen (bytes.map .arrive) = bytes.map .came := by
  simp [seen,List.filterMap_map]

theorem seenLeavings (bytes : Bytes) : seen (bytes.map .leave) = bytes.map .left := by
  simp [seen,List.filterMap_map]

section Composed
/- The composed system moves its firmware side in this way. -/

def project (s : Sys τ) : Half τ := ⟨s.queue.map Sent.byte,s.firmware,s.replies.map Answer.byte⟩

/- What a step of the composed system shows of it: what comes from the port, and what is
read from the line or lost on it. -/
def traffic (s : Sys τ) : Programmer.Action → List Line
  | .arrive => (s.port.take 1).map (fun b => .came b.byte)
  | .burst n => (s.replies.take n).map (fun b => .left b.byte)
  | .lose => (s.replies.take 1).map (fun b => .left b.byte)
  | _ => []

theorem quietRun {s t : Sys τ} (queue : t.queue = s.queue) (firmware : t.firmware = s.firmware)
    (replies : t.replies = s.replies) : ∃ ls, Run (Half.step T) Free (project s) ls (project t) ∧ seen ls = [] := by
  have same : project t = project s := by rw [project,queue,firmware,replies]; rfl
  rw [same]
  exact ⟨[],.nil _,rfl⟩

theorem leavingRun {s t : Sys τ} (n : Nat) (queue : t.queue = s.queue) (firmware : t.firmware = s.firmware)
    (replies : t.replies = s.replies.drop n) :
    ∃ ls, Run (Half.step T) Free (project s) ls (project t) ∧
      seen ls = (s.replies.take n).map (fun b => .left b.byte) := by
  have parts : (project s).replies = (s.replies.take n).map Answer.byte ++ (s.replies.drop n).map Answer.byte := by
    rw [← List.map_append,List.take_append_drop]
    rfl
  have run := leaveRun (T := T) (project s) parts
  have ends : project t = {project s with replies := (s.replies.drop n).map Answer.byte} := by
    rw [project,queue,firmware,replies]
    rfl
  rw [ends]
  exact ⟨_,run,by rw [seenLeavings,List.map_map]; rfl⟩

theorem composedStep {s t : Sys τ} {a : Programmer.Action} (now : Programmer.step T s a = some t) :
    ∃ ls, Run (Half.step T) Free (project s) ls (project t) ∧ seen ls = traffic s a := by
  cases a with
  | arrive =>
    cases port : s.port with
    | nil => simp [Programmer.step,Programmer.arrive,port] at now
    | cons b rest =>
      simp only [Programmer.step,Programmer.arrive,port] at now
      cases Option.some.inj now
      refine ⟨[.arrive b.byte],runSingle trivial ?_,by simp [traffic,seen,port]⟩
      simp only [Half.step,project,List.length_map]
      split <;> simp
  | consume =>
    obtain ⟨b,queue,fw,_,_,found,read,next⟩ := Conversation.consumeCases now
    have after : project t = ⟨queue.map Sent.byte,fw,s.replies.map Answer.byte⟩ := by
      rcases next with ⟨_,_,rfl⟩ | ⟨_,rfl⟩ <;> rfl
    refine ⟨[.consume],runSingle trivial ?_,rfl⟩
    rw [after]
    simp [Half.step,project,found,read]
  | execute =>
    obtain ⟨outcome,ran,rfl⟩ := Option.map_eq_some_iff.mp now
    refine ⟨[.execute],runSingle trivial ?_,rfl⟩
    simp [Half.step,project,ran,Function.comp_def]
  | burst n =>
    obtain ⟨_,now⟩ := Option.ite_none_right_eq_some.mp now
    cases now
    exact leavingRun n rfl rfl rfl
  | lose =>
    obtain ⟨_,now⟩ := Option.ite_none_right_eq_some.mp now
    cases now
    exact leavingRun 1 rfl rfl rfl
  | deliver =>
    simp only [Programmer.step,Programmer.deliver] at now
    split at now <;> cases now <;> exact quietRun rfl rfl rfl
  | slotWrite =>
    simp only [Programmer.step,Programmer.slotWrite] at now
    split at now <;> cases now
    exact quietRun rfl rfl rfl
  | flash | fileOpen _ | transmit _ | connect | disconnect _ | writeTimeout _ _ =>
    obtain ⟨_,now⟩ := Option.ite_none_right_eq_some.mp now
    cases now
    exact quietRun rfl rfl rfl

def trafficAll (T : Target τ) (s : Sys τ) : List Programmer.Action → List Line
  | [] => []
  | a :: rest => traffic s a ++ ((Programmer.step T s a).map (fun t => trafficAll T t rest)).getD []

/-- Every run of the composed system is one of the firmware side, with the same bytes on
the line. -/
theorem composedRun {guard : Sys τ → Programmer.Action → Prop} {s t : Sys τ} {as : List Programmer.Action}
    (run : Run (Programmer.step T) guard s as t) :
    ∃ ls, Run (Half.step T) Free (project s) ls (project t) ∧ seen ls = trafficAll T s as := by
  induction run with
  | nil s => exact ⟨[],.nil _,rfl⟩
  | cons _ now _ ih =>
    obtain ⟨first,run,shown⟩ := composedStep now
    obtain ⟨rest,later,shown'⟩ := ih
    refine ⟨first ++ rest,runAppend run later,?_⟩
    rw [seenAppend,shown,shown',trafficAll,now]
    rfl

end Composed

/- The bytes in the queues of a device in service, and what it has still to put. -/
def Matches (d : Device τ) (h : Half τ) : Prop :=
  ∃ i o, Holds d.sdp i o ∧ h = ⟨i,d.firmware,o ++ d.bp⟩

theorem matchesScheduled {d : Device τ} {h : Half τ} {i o : Bytes} (related : Matches d h) (scheduled : Scheduled T d i o) :
    h = ⟨i,d.firmware,o ++ d.bp⟩ := by
  obtain ⟨i',o',holds,rfl⟩ := related
  have input : i' = i := List.append_cancel_left (holds.logged.arrived.symm.trans scheduled.holds.logged.arrived)
  have output : o' = o := List.append_cancel_left (holds.logged.sent.symm.trans scheduled.holds.logged.sent)
  rw [input,output]

theorem interruptMatches {d d' : Device τ} {h : Half τ} (sound : Sound T checksum target d) (related : Matches d h)
    {sr : Usart.Sr} {turns : List (UInt8 × Usart.Sr)} (now : interrupt d sr turns = some d') :
    ∃ ls h', Run (Half.step T) Free h ls h' ∧ lines d'.sdp.log = lines d.sdp.log ++ seen ls ∧ Matches d' h' := by
  obtain ⟨i,o,_,scheduled⟩ := stepService sound (a := .interrupt sr turns) now
  cases matchesScheduled related scheduled
  obtain ⟨after,⟨_,serves⟩,firmware,bp,_⟩ := interruptScheduled scheduled now
  have line := serves.line
  have front := Usart.sendableFront d.sdp.CR1 (Usart.lastSr sr turns) o
  generalize Usart.sendable d.sdp.CR1 (Usart.lastSr sr turns) o = sent at *
  have arrived := arriveRun (T := T) ⟨i,d.firmware,o ++ d.bp⟩ (Usart.incoming d.sdp.rxmask sr turns)
  have left := leaveRun (T := T) ⟨i ++ Usart.kept i (Usart.incoming d.sdp.rxmask sr turns),d.firmware,o ++ d.bp⟩
    (show o ++ d.bp = sent ++ (o.drop sent.length ++ d.bp) by rw [← List.append_assoc,← front])
  refine ⟨_,_,runAppend arrived left,?_,_,_,after.holds,?_⟩
  · rw [line,seenAppend,seenArrivals,seenLeavings,List.append_assoc]
  · rw [firmware,bp]

/- A turn of the main thread is not on the line: it moves at most one byte of a queue. -/
theorem turnLog {d d' : Device τ} {i o : Bytes} (scheduled : Scheduled T d i o) (turn : Turn T d d' i o) :
    d'.sdp.log = d.sdp.log ∨ ∃ b, d'.sdp.log = d.sdp.log ++ [.put b] ∨ d'.sdp.log = d.sdp.log ++ [.taken b] := by
  have holds := scheduled.holds
  cases turn with
  | puts b bp more room next =>
    obtain ⟨log,_,_⟩ := Usart.writeLog (Usart.writeHolds holds Thread.main b room).1
    subst next
    exact .inr ⟨b,.inl log⟩
  | takes b rest fw done reads front taken next =>
    subst front
    obtain ⟨log,_,_⟩ := Usart.readLog (Usart.readHolds holds Thread.main).1
    subst next
    exact .inr ⟨b,.inr log⟩
  | stops done halted next =>
    subst next
    exact .inl (Usart.stopLog d.sdp)
  | full more full next => subst next; exact .inl rfl
  | executes outcome done ran next => subst next; exact .inl rfl
  | empty done reads runs nothing next => subst next; exact .inl rfl

theorem turnLines {d d' : Device τ} {i o : Bytes} (scheduled : Scheduled T d i o) (turn : Turn T d d' i o) :
    lines d'.sdp.log = lines d.sdp.log ∧ Usart.arrivals d'.sdp.log = Usart.arrivals d.sdp.log := by
  rcases turnLog scheduled turn with log | ⟨b,log | log⟩ <;> rw [log] <;> simp [lines,Usart.arrivals]

/- Putting a byte and going to sleep are not seen at all, the other turns are steps. -/
theorem mainMatches {d d' : Device τ} {h : Half τ} (sound : Sound T checksum target d) (related : Matches d h)
    (now : mainTurn T d = some d') (service : d'.sdp.state = .SD_READY) :
    ∃ ls h', Run (Half.step T) Free h ls h' ∧ lines d'.sdp.log = lines d.sdp.log ++ seen ls ∧ Matches d' h' := by
  obtain ⟨i,o,_,scheduled⟩ := stepService sound (a := .main) now
  cases matchesScheduled related scheduled
  have holds := scheduled.holds
  obtain ⟨_,turn⟩ := mainTurns scheduled now
  have line := (turnLines scheduled turn).1
  cases turn with
  | puts b bp more room next =>
    obtain ⟨_,holds',_⟩ := Usart.writeHolds holds Thread.main b room
    subst next
    refine ⟨[],_,.nil _,line.trans (List.append_nil _).symm,i,o ++ [b],holds',?_⟩
    rw [more,List.append_assoc]
    rfl
  | full more full next =>
    subst next
    exact ⟨[],_,.nil _,(List.append_nil _).symm,i,o,(Usart.enqueueHolds holds Thread.main).2,rfl⟩
  | executes outcome done ran next =>
    subst next
    refine ⟨[.execute],⟨i,outcome.firmware,o ++ outcome.reply⟩,runSingle trivial ?_,(List.append_nil _).symm,i,o,holds,rfl⟩
    simp [Half.step,ran,done]
  | stops done halted next => subst next; contradiction
  | empty done reads runs nothing next =>
    subst next
    exact ⟨[],_,.nil _,(List.append_nil _).symm,i,o,(Usart.enqueueHolds holds Thread.main).1,rfl⟩
  | takes b rest fw done reads front taken next =>
    subst front
    obtain ⟨_,holds',_⟩ := Usart.readHolds holds Thread.main
    subst next
    refine ⟨[.consume],⟨rest,fw,o ++ d.bp⟩,runSingle trivial ?_,line.trans (List.append_nil _).symm,rest,o,holds',rfl⟩
    simp [Half.step,taken]

/- What is fresh from power-up on both sides. -/
def powerUp (checksum : UInt16) (target : τ) : Half τ := ⟨[],(MainLoop.powerUp checksum target).firmware,[]⟩

/- Where a device is by a run of the other side that looks the same. -/
def Followed (T : Target τ) (checksum : UInt16) (target : τ) (d : Device τ) : Prop :=
  ∃ ls h, Run (Half.step T) Free (powerUp checksum target) ls h ∧ seen ls = lines d.sdp.log ∧
    (d.sdp.state = .SD_READY → Matches d h)

theorem stepFollowed {d d' : Device τ} (sound : Sound T checksum target d) (followed : Followed T checksum target d)
    {a : Interrupts.Action} (now : Interrupts.step T d a = some d') : Followed T checksum target d' := by
  obtain ⟨ls,h,run,shown,related⟩ := followed
  obtain ⟨_,_,ready,_⟩ := stepService sound now
  suffices more : d'.sdp.state = .SD_STOP ∧ lines d'.sdp.log = lines d.sdp.log ∨
      ∃ ls' h', Run (Half.step T) Free h ls' h' ∧ lines d'.sdp.log = lines d.sdp.log ++ seen ls' ∧ Matches d' h' by
    rcases more with ⟨stopped,same⟩ | ⟨ls',h',later,line,related'⟩
    · refine ⟨ls,h,run,shown.trans same.symm,fun ready => ?_⟩
      rw [stopped] at ready
      contradiction
    · exact ⟨ls ++ ls',h',runAppend run later,by rw [seenAppend,shown,line],fun _ => related'⟩
  cases a with
  | interrupt sr turns => exact .inr (interruptMatches sound (related ready) now)
  | main =>
    by_cases stopped : d'.sdp.state = .SD_STOP
    · obtain ⟨i,o,_,scheduled⟩ := stepService sound (a := .main) now
      exact .inl ⟨stopped,(turnLines scheduled (mainTurns scheduled now).2).1⟩
    · have service : d'.sdp.state = .SD_READY := by
        cases state : d'.sdp.state with
        | SD_STOP => exact absurd state stopped
        | SD_READY => rfl
      exact .inr (mainMatches sound (related ready) now service)

/-- Whatever the line sees of a device, in any order of its interrupts and turns, it may
see of the firmware of the composed system. -/
theorem deviceRefines {d : Device τ} (reached : Reached T checksum target d) : Followed T checksum target d := by
  obtain ⟨ib,ob,as,run⟩ := reached
  have start : Followed T checksum target (start ib.val ob.val checksum target) :=
    ⟨[],_,.nil _,rfl,fun _ => ⟨[],[],Usart.startHolds ib.val ob.val ib.property ob.property _,rfl⟩⟩
  have both := runInvariant (fun s => Sound T checksum target s ∧ Followed T checksum target s)
    (fun _ _ _ inv _ now => ⟨stepSound inv.1 now,stepFollowed inv.1 inv.2 now⟩) run
    ⟨startSound ib.val ob.val ib.property ob.property,start⟩
  exact both.2

theorem restartedRefined : ∃ d, restarted = some d ∧ Followed (CommandLoop.obliging 0) 0 () d := by
  obtain ⟨d,now,_⟩ := Option.map_eq_some_iff.mp restartedSome
  exact ⟨d,now,deviceRefines (restartedReached now)⟩

end HsspProgrammer.Refinement
