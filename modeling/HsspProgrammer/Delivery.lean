import HsspProgrammer.Assembly

/-! What the assembled programmer delivers while sessions are not disturbed: the verdict of
a session, and every byte from the slots of the window to the command loop. -/
namespace HsspProgrammer.Delivery
open Ascii (Bytes)
open Assembly
open CommandLoop (Target)
open Conversation (Live Connected pipe)
open Interrupts (Device interruptScheduled mainTurns)
open Loader (Globals)
open Programmer (Sent Sys stampAll)
open Servicing (Memory stepService)
open Sessions
open Transition
open Usart (Line SERIAL_BUFFERS_SIZE arrivals incoming kept lines takings)

variable {τ : Type} {T : Target τ} {checksum : UInt16} {target : τ}

section Verdict
variable {ib ob : Memory} {image : Globals} {c : Assembled τ} {as : List Action}

theorem composedIdle (checksum : UInt16) (image : Globals) (target : τ) : Programmer.Idle (composed checksum image target) :=
  ⟨rfl,rfl,rfl,rfl,rfl,rfl,rfl,rfl,rfl,rfl⟩

theorem relatedSound {bs : List Programmer.Action} {s : Sys τ}
    (run : Run (Programmer.step T) Undisturbed (composed checksum image target) bs s) (related : Related c s) :
    Sound c.host.log := by
  have faithful := faithfulRun (composedIdle checksum image target) rfl (runWeaken undisturbedKept run)
  exact Marks.soundMarks related.marks faithful.sound

end Verdict

section Bytes
variable {c c' : Assembled τ} {s t : Sys τ}

/- What is on its way to the device. -/
def onWay (s : Sys τ) : Bytes := (s.port ++ s.m_txBuf ++ s.slot.flatten).map Sent.byte

theorem stampBytes (n : Nat) (writes : List Bytes) : (stampAll n writes).flatten.map Sent.byte = writes.flatten := by
  induction writes generalizing n with
  | nil => rfl
  | cons ba rest ih =>
    have one : (Programmer.stamp n ba).map Sent.byte = ba := by
      refine List.ext_getElem? (fun k => ?_)
      rw [List.getElem?_map,Conversation.stampGet]
      cases ba[k]? <;> rfl
    rw [Conversation.stampAllCons,List.map_append,one,ih,List.flatten_cons]

theorem hostOrdered {a : Programmer.Action} (own : ofHost a = true) (connected : Connected a)
    (now : Programmer.step T s a = some t) :
    ∃ more : Bytes, t.written.flatten = s.written.flatten ++ more ∧ onWay t = onWay s ++ more := by
  have reacts : ∀ (s : Sys τ) (entry : Programmer.Event) (r : MainWindow.Reaction), s.slot = [] →
      (Programmer.react s entry r).written.flatten = s.written.flatten ++ r.writes.flatten ∧
      onWay (Programmer.react s entry r) = onWay s ++ r.writes.flatten := by
    intro s entry r idle
    refine ⟨List.flatten_append,?_⟩
    simp [onWay,Programmer.react,idle,← stampBytes s.written.length r.writes]
  have stays : t.written = s.written → onWay t = onWay s →
      ∃ more : Bytes, t.written.flatten = s.written.flatten ++ more ∧ onWay t = onWay s ++ more :=
    fun written way => ⟨[],by rw [written,List.append_nil],by rw [way,List.append_nil]⟩
  cases a with
  | arrive | consume | execute => contradiction
  | connect | disconnect _ | writeTimeout _ _ | lose => exact connected.elim
  | flash =>
    obtain ⟨able,now⟩ := Option.ite_none_right_eq_some.mp now
    cases now
    exact ⟨_,reacts s _ _ able.1⟩
  | fileOpen choice =>
    obtain ⟨_,now⟩ := Option.ite_none_right_eq_some.mp now
    cases now
    exact stays rfl rfl
  | deliver =>
    simp only [Programmer.step,Programmer.deliver] at now
    split at now <;> cases now
    · rename_i ba signals idle _
      exact ⟨_,reacts {s with signals := signals} _ _ idle⟩
    · exact stays rfl rfl
  | slotWrite =>
    simp only [Programmer.step,Programmer.slotWrite] at now
    split at now <;> cases now
    rename_i ba more pending
    exact stays rfl (by simp [onWay,pending])
  | transmit n =>
    obtain ⟨_,now⟩ := Option.ite_none_right_eq_some.mp now
    cases now
    refine stays rfl ?_
    simp only [onWay]
    rw [List.append_assoc s.port,List.take_append_drop]
  | burst n =>
    obtain ⟨_,now⟩ := Option.ite_none_right_eq_some.mp now
    cases now
    exact stays rfl rfl

theorem afterRuns (r : Exchange.Req) : r.after ≠ .halted := by
  cases r with
  | program k data | verify k data =>
    simp only [Exchange.Req.after,CommandLoop.nextBlock,Bool.false_eq_true,if_false]
    split <;> simp
  | _ => simp [Exchange.Req.after]

/- The firmware is not told to stop. -/
theorem liveRuns {talk : Conversation.Talk} (live : Live true s talk) : s.firmware.pc ≠ .halted := by
  have holds := live.holds
  have few := live.few
  have serves : ∀ {r : Exchange.Req} {checksum : UInt16} {n : Nat} {P : List Bytes},
      Exchange.Serving r checksum s.firmware n P → s.firmware.pc ≠ .halted := by
    intro r checksum n P serving
    cases serving with
    | command _ pc | terminator _ pc | pair _ pc => simp [pc]
    | data _ _ _ _ _ pc => simp [pc]
    | ready _ _ _ pc => simp [pc]
  cases turn : talk.turn with
  | rest => rw [turn] at holds; simp [holds.2]
  | asked r checksum =>
    rw [turn] at holds
    obtain ⟨⟨⟨_,_,serving,_⟩,_⟩,_⟩ := holds
    exact serves serving
  | queued checksum =>
    rw [turn] at holds
    obtain ⟨⟨_,_,serving,_⟩,_⟩ := holds
    exact serves serving
  | answered r checksum f =>
    rw [turn] at holds
    rw [holds.2.1]
    exact afterRuns r
  | stalled => exact absurd (few turn).2 (by decide)

/- The bytes that have come in on the line, kept or not. -/
def came (ls : List Line) : Bytes := ls.filterMap (fun l => match l with
  | .came b => some b
  | .left _ => none)

theorem cameAppend (front back : List Line) : came (front ++ back) = came front ++ came back := List.filterMap_append

/- Every byte that the slots of the window have written is accepted by the device or on
its way to it, in order. -/
structure Ordered (c : Assembled τ) : Prop where
  service : c.device.sdp.state = .SD_READY
  accepted : arrivals c.device.sdp.log = came (lines c.device.sdp.log)
  ordered : c.host.written.flatten = arrivals c.device.sdp.log ++ onWay c.host

/- Where the device is as far as the firmware of the composed system, and no session
is disturbed. -/
structure Quiet (T : Target τ) (checksum : UInt16) (target : τ) (c : Assembled τ) (s : Sys τ) : Prop where
  sound : Interrupts.Sound T checksum target c.device
  related : Related c s
  faithful : Faithful s
  ordered : Ordered c

/-- The input queue and the bytes on their way are one request at most. -/
theorem quietFew (quiet : Quiet T checksum target c s) {i o : Bytes} (scheduled : Interrupts.Scheduled T c.device i o) :
    c.device.firmware.pc ≠ .halted ∧ i.length + (onWay c.host).length ≤ 66 := by
  obtain ⟨_,related,⟨⟨_,_,good,_⟩,_⟩,⟨service,_,_⟩⟩ := quiet
  obtain ⟨rest,_,inside⟩ := related.replies
  obtain ⟨queue,fw,_⟩ := Refinement.Half.mk.inj (Refinement.matchesScheduled (inside service) scheduled)
  have bound := Conversation.pipeBound good.live
  rw [pipe,good.online,if_pos rfl] at bound
  have queued := congrArg List.length queue
  simp only [List.length_append,List.length_map] at bound queued
  constructor
  · rw [← fw]
    exact liveRuns good.live
  · simp only [onWay,← related.port,← related.txBuf,← related.slot,List.length_map,List.length_append]
    omega

theorem undisturbedConnected {a : Programmer.Action} (allowed : Undisturbed s a) : Connected a := by
  cases a <;> trivial

/-- With so few bytes there is room for all that come in. -/
theorem interruptOrdered (quiet : Quiet T checksum target c s) {sr : Usart.Sr} {turns : List (UInt8 × Usart.Sr)}
    (now : step T c (.interrupt sr turns) = some c') : Ordered c' := by
  obtain ⟨line,now⟩ := Option.ite_none_right_eq_some.mp now
  obtain ⟨d,ran,rfl⟩ := Option.map_eq_some_iff.mp now
  obtain ⟨i,o,_,scheduled⟩ := stepService quiet.sound (a := .interrupt sr turns) ran
  obtain ⟨_,few⟩ := quietFew quiet scheduled
  obtain ⟨after,⟨_,serves⟩,_⟩ := interruptScheduled scheduled ran
  obtain ⟨service,accepted,ordered⟩ := quiet.ordered
  generalize incoming c.device.sdp.rxmask sr turns = bytes at *
  have front := congrArg List.length line
  rw [List.length_map,List.length_take] at front
  have room : kept i bytes = bytes := by
    refine List.take_of_length_le ?_
    simp only [onWay,List.length_map,List.length_append] at few
    simp only [show SERIAL_BUFFERS_SIZE = 128 from rfl]
    omega
  have arrived : arrivals d.sdp.log = arrivals c.device.sdp.log ++ bytes := by
    rw [after.holds.logged.arrived,serves.quiet.1,scheduled.holds.logged.arrived,room,List.append_assoc]
  refine ⟨serves.state.trans service,?_,?_⟩
  · have shown : came (bytes.map .came) = bytes ∧ ∀ sent : Bytes, came (sent.map .left) = [] :=
      ⟨by simp [came,List.filterMap_map],fun sent => by simp [came,List.filterMap_map]⟩
    rw [arrived,accepted,serves.line,cameAppend,cameAppend,shown.1,shown.2,List.append_nil]
  · change c.host.written.flatten = _
    have cut : onWay c.host = bytes ++ onWay {c.host with port := c.host.port.drop bytes.length} := by
      rw [onWay,onWay,← List.take_append_drop bytes.length c.host.port,List.append_assoc,List.append_assoc,List.map_append,
        line,← List.append_assoc]
      simp
    rw [ordered,cut,arrived,List.append_assoc]
    rfl

theorem mainOrdered (quiet : Quiet T checksum target c s) (now : step T c .main = some c') : Ordered c' := by
  obtain ⟨d,ran,rfl⟩ := Option.map_eq_some_iff.mp now
  obtain ⟨i,o,_,scheduled⟩ := stepService quiet.sound (a := .main) ran
  obtain ⟨runs,_⟩ := quietFew quiet scheduled
  obtain ⟨_,turn⟩ := mainTurns scheduled ran
  obtain ⟨line,arrived⟩ := Refinement.turnLines scheduled turn
  obtain ⟨service,accepted,ordered⟩ := quiet.ordered
  refine ⟨?_,by rw [arrived,accepted,line],by rw [arrived]; exact ordered⟩
  cases turn with
  | stops _ halted => exact absurd halted runs
  | puts b _ _ room next => rw [next]; exact (Usart.writeLog (Usart.writeHolds scheduled.holds .main b room).1).2.2.trans service
  | takes b rest _ _ _ front _ next =>
    subst front
    rw [next]
    exact (Usart.readLog (Usart.readHolds scheduled.holds .main).1).2.2.trans service
  | full _ _ next | executes _ _ _ next | empty _ _ _ _ next => rw [next]; exact service

theorem quietStep (quiet : Quiet T checksum target c s) {a : Action} (allowed : Allowed Undisturbed c a)
    (now : step T c a = some c') : ∃ s', Quiet T checksum target c' s' := by
  obtain ⟨sound,bs,s',run,related⟩ := stepRelated undisturbedOnHost quiet.sound quiet.related allowed now
  have faithful := runInvariant Faithful (fun _ _ _ faithful allowed now =>
    faithfulStep faithful (undisturbedKept _ _ allowed) now) run quiet.faithful
  refine ⟨s',sound,related,faithful,?_⟩
  cases a with
  | host a =>
    obtain ⟨own,now⟩ := Option.ite_none_right_eq_some.mp now
    obtain ⟨host,ran,rfl⟩ := Option.map_eq_some_iff.mp now
    obtain ⟨service,accepted,ordered⟩ := quiet.ordered
    obtain ⟨more,written,way⟩ := hostOrdered own (undisturbedConnected allowed) ran
    exact ⟨service,accepted,by rw [written,way,ordered,List.append_assoc]⟩
  | interrupt sr turns => exact interruptOrdered quiet now
  | main => exact mainOrdered quiet now

end Bytes

/- Every byte that the slots of the window have written has been accepted by the device
or is on its way, in order; none has been refused, and 66 at most are not read yet. -/
structure Delivered (c : Assembled τ) : Prop extends Ordered c where
  few : c.host.written.flatten.length ≤ (takings c.device.sdp.log).length + 66

theorem quietDelivered {c : Assembled τ} {s : Sys τ} (quiet : Quiet T checksum target c s) : Delivered c := by
  obtain ⟨phase,_,_⟩ := quiet.sound
  refine ⟨quiet.ordered,?_⟩
  cases phase with
  | stopped state => rw [quiet.ordered.service] at state; contradiction
  | ready _ i o scheduled =>
    obtain ⟨_,few⟩ := quietFew quiet scheduled
    rw [quiet.ordered.ordered,scheduled.holds.logged.arrived]
    simp only [List.length_append]
    omega

theorem startQuiet (ib ob : Memory) (checksum : UInt16) (image : Globals) (target : τ) :
    Quiet T checksum target (start ib ob checksum image target) (composed checksum image target) where
  sound := Interrupts.startSound ib.val ob.val ib.property ob.property
  related := startRelated ib ob checksum image target
  faithful := faithfulRun (T := T) (composedIdle checksum image target) rfl (.nil _)
  ordered := ⟨rfl,rfl,rfl⟩

/-- Through both threads of the host, the line, the interrupt and the queue, no byte is
lost, repeated, reordered or refused on its way to the command loop. -/
theorem assembledDelivers {ib ob : Memory} {image : Globals} {c : Assembled τ} {as : List Action}
    (run : Run (step T) (Allowed Undisturbed) (start ib ob checksum image target) as c) : Delivered c := by
  obtain ⟨s,quiet⟩ := runInvariant (fun c => ∃ s, Quiet T checksum target c s)
    (fun _ _ _ quiet allowed now => quiet.elim fun _ quiet => quietStep quiet allowed now) run
    ⟨_,startQuiet ib ob checksum image target⟩
  exact quietDelivered quiet

theorem flashedDelivers : ∃ c, flashed = some c ∧ Delivered c := by
  obtain ⟨c,now,_⟩ := Option.map_eq_some_iff.mp flashedSome
  exact ⟨c,now,assembledDelivers (flashedRun now)⟩

end HsspProgrammer.Delivery
