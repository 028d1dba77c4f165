import HsspProgrammer.Delivery
import HsspProgrammer.Tracing
import HsspProgrammer.Verdict

/-! The other direction of the refinement. Before each step of the composed system the
device sends all that it has to say; then the same step is made with its interrupt, its
main thread and its queues. So nothing that the composed system may do is lost in the
driver, and a session that can be completed there is completed here. -/
namespace HsspProgrammer.Realizing
open Ascii (Bytes)
open Assembly
open CommandLoop (Target)
open Conversation (bytesOf)
open Interrupts (Device Scheduled Turn interruptScheduled mainTurn mainTurns)
open Loader (Globals)
open Marks
open Programmer (Sent Sys)
open Refinement (matchesScheduled)
open Servicing (Memory awakeTurns sendableShown shows)
open Transition
open Usart (Holds incoming)

variable {τ : Type} {T : Target τ} {checksum : UInt16} {target : τ}

section Turns
variable {d d' : Device τ} {i o : Bytes}

theorem holdsSame {i' o' : Bytes} (scheduled : Scheduled T d i' o') (holds : Holds d.sdp i o) : i' = i ∧ o' = o :=
  ⟨List.append_cancel_left (scheduled.holds.logged.arrived.symm.trans holds.logged.arrived),
    List.append_cancel_left (scheduled.holds.logged.sent.symm.trans holds.logged.sent)⟩

/- A thread with room to write in, or with nothing to write and a byte or a command. -/
theorem turnsOn (scheduled : Scheduled T d i o) (ready : d.sdp.state = .SD_READY) (room : o.length < Usart.SERIAL_BUFFERS_SIZE)
    (work : d.bp ≠ [] ∨ i ≠ [] ∨ CommandLoop.execute T d.firmware ≠ none) : ∃ d', mainTurn T d = some d' := by
  refine awakeTurns scheduled ready (Bool.eq_false_iff.mpr (fun asleep => ?_))
  cases scheduled.sleeps asleep with
  | reading reads _ done empty => exact work.elim (· done) (fun more => more.elim (· empty) (· reads))
  | writing _ full => omega

/- Only `sdStop` takes the driver out of service. -/
theorem turnService (scheduled : Scheduled T d i o) (turn : Turn T d d' i o) (runs : d.bp ≠ [] ∨ d.firmware.pc ≠ .halted) :
    d'.sdp.state = d.sdp.state ∧ d'.sdp.rxmask = d.sdp.rxmask := by
  cases turn with
  | puts b _ _ room next =>
    subst next
    simp [Usart.writeTurn,Usart.notify1,(IoQueues.outputWrite scheduled.holds.output Interrupts.Thread.main b
      (by rw [scheduled.holds.depths.2]; exact room)).1]
  | stops done halted => exact absurd halted (runs.resolve_left (· done))
  | full _ _ next | executes _ _ _ next | empty _ _ _ _ next | takes _ _ _ _ _ _ _ next =>
    subst next
    exact ⟨rfl,rfl⟩

end Turns

/- The device is where the composed system is, and in service. -/
structure Synced (T : Target τ) (checksum : UInt16) (target : τ) (c : Assembled τ) (s : Sys τ) : Prop where
  sound : Interrupts.Sound T checksum target c.device
  related : Related c s
  service : c.device.sdp.state = .SD_READY
  mask : c.device.sdp.rxmask = 0xFF

section Steps
variable {c c' : Assembled τ} {s s' : Sys τ} {i o : Bytes} {g : Sys τ → Programmer.Action → Prop}

theorem anyDevice : ∀ (s : Sys τ) (a : Programmer.Action), ofHost a = false → (fun _ _ => True : Sys τ → Programmer.Action → Prop) s a :=
  fun _ _ _ => trivial

theorem syncedScheduled (synced : Synced T checksum target c s) : ∃ i o, Scheduled T c.device i o := by
  obtain ⟨⟨phase,_,_⟩,_,service,_⟩ := synced
  cases phase with
  | ready _ i o scheduled => exact ⟨i,o,scheduled⟩
  | stopped state => rw [service] at state; contradiction

/- An interrupt, and what it is to the composed system. -/
theorem interruptSynced (synced : Synced T checksum target c s) {sr : Usart.Sr} {turns : List (UInt8 × Usart.Sr)}
    (now : step T c (.interrupt sr turns) = some c') : ∃ s',
    Run (Programmer.step T) (fun _ _ => True) s (List.replicate (incoming 0xFF sr turns).length .arrive) s' ∧
    Synced T checksum target c' s' := by
  obtain ⟨sound,related,service,mask⟩ := synced
  obtain ⟨s',run,related'⟩ := interruptRelated anyDevice sound related now
  rw [mask] at run
  obtain ⟨_,now⟩ := Option.ite_none_right_eq_some.mp now
  obtain ⟨d,ran,rfl⟩ := Option.map_eq_some_iff.mp now
  obtain ⟨i,o,_,scheduled⟩ := Servicing.stepService sound (a := .interrupt sr turns) ran
  obtain ⟨_,⟨_,serves⟩,_⟩ := interruptScheduled scheduled ran
  exact ⟨s',run,Interrupts.interruptSound sound ran,related',serves.state.trans service,serves.rxmask.trans mask⟩

theorem mainSynced (synced : Synced T checksum target c s) (now : step T c .main = some c')
    (runs : c.device.bp ≠ [] ∨ c.device.firmware.pc ≠ .halted) : ∃ s',
    Run (Programmer.step T) (fun _ _ => True) s (turnActions T c.device) s' ∧ Synced T checksum target c' s' := by
  obtain ⟨sound,related,service,mask⟩ := synced
  obtain ⟨s',run,related'⟩ := mainRelated anyDevice sound related now
  obtain ⟨d,ran,rfl⟩ := Option.map_eq_some_iff.mp now
  obtain ⟨i,o,_,scheduled⟩ := Servicing.stepService sound (a := .main) ran
  obtain ⟨_,turn⟩ := mainTurns scheduled ran
  obtain ⟨state,rxmask⟩ := turnService scheduled turn runs
  exact ⟨s',run,Interrupts.mainSound sound ran,related',state.trans service,rxmask.trans mask⟩

theorem runNothing {s s' : Sys τ} {guard : Sys τ → Programmer.Action → Prop}
    (run : Run (Programmer.step T) guard s [] s') : s' = s := by
  cases run
  rfl

theorem runOne {s s' t : Sys τ} {guard : Sys τ → Programmer.Action → Prop} {a : Programmer.Action}
    (run : Run (Programmer.step T) guard s [a] s') (now : Programmer.step T s a = some t) : s' = t := by
  have ends := runFollows run
  simp only [runAll,now,Option.bind_some] at ends
  exact (Option.some.inj ends).symm

/- The transmit register is empty and the first byte of the output queue leaves. -/
theorem sendSynced (synced : Synced T checksum target c s) (scheduled : Scheduled T c.device i o) (some : o ≠ []) : ∃ c',
    step T c (.interrupt (shows false true) []) = .some c' ∧ Synced T checksum target c' s ∧
    Scheduled T c'.device i (o.drop 1) ∧ c'.device.bp = c.device.bp := by
  obtain ⟨d,ran⟩ : ∃ d, Interrupts.interrupt c.device (shows false true) [] = .some d := by
    simp [Interrupts.interrupt,synced.service,Usart.serve_interrupt,Usart.receiveLoop,Usart.Sr.pending,Usart.Sr.error,shows]
  have now : step T c (.interrupt (shows false true) []) = .some
      { host := { c.host with
          port := c.host.port.drop 0
          replies := c.host.replies ++ (leaves c.device d).map (fun b => ⟨b,0⟩) }
        device := d } := by
    rw [step]
    simp [incoming,ran]
  obtain ⟨s',run,synced'⟩ := interruptSynced synced now
  obtain ⟨after,_,_,bp,_⟩ := interruptScheduled scheduled ran
  have nothing : incoming c.device.sdp.rxmask (shows false true) [] = [] := rfl
  have kept : Usart.kept i [] = [] := List.take_nil
  rw [nothing,kept,List.append_nil,sendableShown scheduled.holds.enabled] at after
  have one : (if (Usart.lastSr (shows false true) []).TXE = true then o.take 1 else []).length = 1 := by
    cases o with
    | nil => exact absurd rfl some
    | cons b rest => rfl
  rw [one] at after
  rw [runNothing run] at synced'
  exact ⟨_,now,synced',after,bp⟩

/- The next byte of an answer is put into the empty output queue. -/
theorem putSynced (synced : Synced T checksum target c s) (scheduled : Scheduled T c.device i []) {b : UInt8} {bp : Bytes}
    (more : c.device.bp = b :: bp) : ∃ c', step T c .main = some c' ∧ Synced T checksum target c' s ∧
    Scheduled T c'.device i [b] ∧ c'.device.bp = bp := by
  have busy : c.device.bp ≠ [] := by simp [more]
  obtain ⟨d,ran⟩ := turnsOn scheduled synced.service (by decide) (.inl busy)
  have now : step T c .main =
      some {host := {c.host with log := c.host.log ++ (performs c.device d).map .performed}, device := d} := by
    rw [step,ran]
    rfl
  obtain ⟨s',run,synced'⟩ := mainSynced synced now (.inl busy)
  rw [turnNothing busy] at run
  rw [runNothing run] at synced'
  obtain ⟨_,turn⟩ := mainTurns scheduled ran
  refine ⟨_,now,synced',?_⟩
  cases turn with
  | puts b' bp' more' room next =>
    obtain ⟨rfl,rfl⟩ := List.cons.inj (more.symm.trans more')
    obtain ⟨_,holds,_⟩ := Usart.writeHolds scheduled.holds Interrupts.Thread.main b room
    obtain ⟨i',o',scheduled'⟩ := syncedScheduled synced'
    subst next
    obtain ⟨rfl,rfl⟩ := holdsSame scheduled' holds
    exact ⟨scheduled',rfl⟩
  | full _ full => contradiction
  | executes _ done | stops done | empty done | takes _ _ _ done => exact absurd done busy

/-- The device sends all that it has to say. -/
theorem flushed {n : Nat} (synced : Synced T checksum target c s) (scheduled : Scheduled T c.device i o)
    (size : 2 * c.device.bp.length + o.length = n) : ∃ as c', Run (step T) (Allowed g) c as c' ∧
    Synced T checksum target c' s ∧ Scheduled T c'.device i [] ∧ c'.device.bp = [] := by
  induction n using Nat.strongRecOn generalizing c o with
  | ind n ih =>
    cases waiting : o with
    | cons b rest =>
      obtain ⟨c₁,now,synced₁,scheduled₁,bp⟩ := sendSynced synced scheduled (by simp [waiting])
      rw [waiting,List.length_cons] at size
      rw [waiting,List.drop_succ_cons,List.drop_zero] at scheduled₁
      obtain ⟨as,c₂,run,rests⟩ := ih (2 * c₁.device.bp.length + rest.length) (by rw [bp]; omega) synced₁ scheduled₁ rfl
      have allowed : Allowed g c (.interrupt (shows false true) []) := trivial
      exact ⟨_,c₂,.cons allowed now run,rests⟩
    | nil =>
      subst waiting
      cases more : c.device.bp with
      | nil => exact ⟨[],c,.nil c,synced,scheduled,more⟩
      | cons b bp =>
        obtain ⟨c₁,now,synced₁,scheduled₁,bp'⟩ := putSynced synced scheduled more
        rw [more] at size
        simp only [List.length_cons,List.length_nil] at size
        obtain ⟨as,c₂,run,rests⟩ := ih (2 * c₁.device.bp.length + 1) (by rw [bp']; omega) synced₁ scheduled₁ rfl
        have allowed : Allowed g c .main := trivial
        exact ⟨_,c₂,.cons allowed now run,rests⟩

/- The device has nothing to say. -/
structure Flushed (T : Target τ) (c : Assembled τ) (s : Sys τ) : Prop where
  done : c.device.bp = []
  scheduled : Scheduled T c.device (s.queue.map Sent.byte) []
  firmware : s.firmware = c.device.firmware
  replies : bytesOf s.replies = bytesOf c.host.replies

theorem flushedState (synced : Synced T checksum target c s) (scheduled : Scheduled T c.device i []) (done : c.device.bp = []) :
    Flushed T c s := by
  obtain ⟨rest,replies,inside⟩ := synced.related.replies
  obtain ⟨queue,fw,waiting⟩ := Refinement.Half.mk.inj (matchesScheduled (inside synced.service) scheduled)
  rw [done,List.append_nil] at waiting
  rw [waiting,List.append_nil] at replies
  exact ⟨done,queue ▸ scheduled,fw,replies⟩

/- A byte comes in. -/
theorem arriveSynced (synced : Synced T checksum target c s) (now : Programmer.step T s .arrive = some s') : ∃ a c',
    Allowed g c a ∧ step T c a = some c' ∧ Synced T checksum target c' s' := by
  cases port : s.port with
  | nil => simp [Programmer.step,Programmer.arrive,port] at now
  | cons b rest =>
    let turns : List (UInt8 × Usart.Sr) := [(b.byte,shows false false)]
    have one : incoming 0xFF (shows true false) turns = [b.byte] := by
      simp only [incoming,shows,if_true,List.append_nil,turns]
      rw [show (0xFF : UInt8) = -1 from rfl,UInt8.and_neg_one]
    obtain ⟨d,ran⟩ : ∃ d, Interrupts.interrupt c.device (shows true false) turns = some d := by
      simp [Interrupts.interrupt,synced.service,Usart.serve_interrupt,Usart.receiveLoop,Usart.Sr.pending,Usart.Sr.error,shows,
        turns]
    have line : (c.host.port.take [b.byte].length).map Sent.byte = [b.byte] := by
      rw [← synced.related.port,port]
      rfl
    obtain ⟨c',stepped⟩ : ∃ c', step T c (.interrupt (shows true false) turns) = some c' := by
      simp only [step,synced.mask,one,line,if_true,ran,Option.map_some]
      exact ⟨_,rfl⟩
    obtain ⟨s'',run,synced'⟩ := interruptSynced synced stepped
    rw [one] at run
    exact ⟨.interrupt (shows true false) turns,c',trivial,stepped,runOne run now ▸ synced'⟩

theorem consumeReads {fw fw' : CommandLoop.Firmware τ} {b : UInt8} (taken : CommandLoop.consume fw b = some fw') :
    CommandLoop.execute T fw = none ∧ fw.pc ≠ .halted := by
  unfold CommandLoop.consume at taken
  split at taken <;> rename_i pc
  · exact ⟨by rw [CommandLoop.execute,pc],by rw [pc]; simp⟩
  · exact ⟨by rw [CommandLoop.execute,pc],by rw [pc]; simp⟩
  · exact ⟨by rw [CommandLoop.execute,pc],by rw [pc]; simp⟩
  · contradiction

/- The main thread takes a byte, or does what follows a read. -/
theorem turnSynced (synced : Synced T checksum target c s) (flushed : Flushed T c s) {a : Programmer.Action}
    (is : turnActions T c.device = [a]) (runs : c.device.firmware.pc ≠ .halted)
    (work : s.queue.map Sent.byte ≠ [] ∨ CommandLoop.execute T c.device.firmware ≠ none)
    (now : Programmer.step T s a = some s') : ∃ a c', Allowed g c a ∧ step T c a = some c' ∧ Synced T checksum target c' s' := by
  obtain ⟨d,ran⟩ := turnsOn flushed.scheduled synced.service (by decide) (.inr work)
  obtain ⟨c',stepped⟩ : ∃ c', step T c .main = some c' := by
    rw [step,ran]
    exact ⟨_,rfl⟩
  obtain ⟨s'',run,synced'⟩ := mainSynced synced stepped (.inr runs)
  rw [is] at run
  exact ⟨.main,c',trivial,stepped,runOne run now ▸ synced'⟩

theorem consumeSynced (synced : Synced T checksum target c s) (flushed : Flushed T c s)
    (now : Programmer.step T s .consume = some s') : ∃ a c', Allowed g c a ∧ step T c a = some c' ∧ Synced T checksum target c' s' := by
  obtain ⟨b,queue,fw,_,_,found,taken,_⟩ := Conversation.consumeCases now
  rw [flushed.firmware] at taken
  obtain ⟨reads,runs⟩ := consumeReads (T := T) taken
  have scheduled := flushed.scheduled
  rw [found,List.map_cons] at scheduled
  have took := (Usart.readHolds scheduled.holds Interrupts.Thread.main).1
  exact turnSynced synced flushed (turnTakes flushed.done reads taken took) runs (.inl (by simp [found])) now

theorem executeSynced (synced : Synced T checksum target c s) (flushed : Flushed T c s)
    (now : Programmer.step T s .execute = some s') : ∃ a c', Allowed g c a ∧ step T c a = some c' ∧ Synced T checksum target c' s' := by
  obtain ⟨outcome,ran,_⟩ := Option.map_eq_some_iff.mp now
  rw [flushed.firmware] at ran
  have runs : c.device.firmware.pc ≠ .halted := by
    intro halted
    rw [CommandLoop.execute,halted] at ran
    contradiction
  exact turnSynced synced flushed (turnExecutes flushed.done ran) runs (.inr (by simp [ran])) now

/- What the host can do there it can do here. -/
theorem hostEnabled (related : Related c s) (flushed : Flushed T c s) {a : Programmer.Action} (own : ofHost a = true)
    (now : Programmer.step T s a = some s') : ∃ host, Programmer.step T c.host a = some host := by
  obtain ⟨window,slot,_,txBuf,_,online,_,signals,_,_⟩ := related
  have many : c.host.replies.length = s.replies.length := by
    have size := congrArg List.length flushed.replies
    rw [bytesOf,bytesOf,List.length_map,List.length_map] at size
    exact size.symm
  cases a with
  | arrive | consume | execute => contradiction
  | flash | connect | disconnect _ =>
    obtain ⟨able,_⟩ := Option.ite_none_right_eq_some.mp now
    rw [slot,window] at able
    exact ⟨_,if_pos able⟩
  | fileOpen choice =>
    obtain ⟨able,_⟩ := Option.ite_none_right_eq_some.mp now
    rw [slot] at able
    exact ⟨_,if_pos able⟩
  | transmit n | writeTimeout n m =>
    obtain ⟨able,_⟩ := Option.ite_none_right_eq_some.mp now
    rw [online,txBuf] at able
    exact ⟨_,if_pos able⟩
  | burst n =>
    obtain ⟨able,_⟩ := Option.ite_none_right_eq_some.mp now
    rw [online,← many] at able
    exact ⟨_,if_pos able⟩
  | lose =>
    obtain ⟨⟨off,some⟩,_⟩ := Option.ite_none_right_eq_some.mp now
    rw [online] at off
    refine ⟨_,if_pos ⟨off,List.ne_nil_of_length_pos ?_⟩⟩
    rw [many]
    exact List.length_pos_of_ne_nil some
  | slotWrite =>
    cases pending : s.slot with
    | nil => simp [Programmer.step,Programmer.slotWrite,pending] at now
    | cons ba more =>
      rw [slot] at pending
      exact ⟨_,by rw [Programmer.step,Programmer.slotWrite,pending]⟩
  | deliver =>
    cases pending : s.slot with
    | cons ba more => simp [Programmer.step,Programmer.deliver,pending] at now
    | nil =>
      rw [slot] at pending
      cases queued : c.host.signals with
      | nil =>
        rw [queued,List.map_nil,List.map_eq_nil_iff] at signals
        simp [Programmer.step,Programmer.deliver,slot,pending,signals] at now
      | cons signal more =>
        simp only [Programmer.step,Programmer.deliver,pending,queued]
        cases signal <;> exact ⟨_,rfl⟩

theorem hostSynced (synced : Synced T checksum target c s) (flushed : Flushed T c s) {a : Programmer.Action}
    (own : ofHost a = true) (allowed : g c.host a) (now : Programmer.step T s a = some s') : ∃ a c',
    Allowed g c a ∧ step T c a = some c' ∧ Synced T checksum target c' s' := by
  obtain ⟨sound,related,service,mask⟩ := synced
  obtain ⟨host,ran⟩ := hostEnabled related flushed own now
  obtain ⟨s'',now',related'⟩ := hostRelated related own ran
  cases Option.some.inj (now.symm.trans now')
  have stepped : step T c (.host a) = some {c with host := host} := by
    rw [step,if_pos own,ran]
    rfl
  exact ⟨.host a,_,allowed,stepped,sound,related',service,mask⟩

/-- A step of the composed system, after the device has sent all that it has to say. -/
theorem stepRealized (back : ∀ c s a, Related c s → g s a → g c.host a) (synced : Synced T checksum target c s)
    {a : Programmer.Action} (allowed : g s a) (now : Programmer.step T s a = some s') : ∃ as c',
    Run (step T) (Allowed g) c as c' ∧ Synced T checksum target c' s' := by
  obtain ⟨i,o,scheduled⟩ := syncedScheduled synced
  obtain ⟨as,c₁,run,synced₁,scheduled₁,done⟩ := flushed (g := g) synced scheduled rfl
  have flushed := flushedState synced₁ scheduled₁ done
  suffices one : ∃ a c', Allowed g c₁ a ∧ step T c₁ a = some c' ∧ Synced T checksum target c' s' by
    obtain ⟨a,c',may,stepped,synced'⟩ := one
    exact ⟨as ++ [a],c',runAppend run (runSingle may stepped),synced'⟩
  cases a with
  | arrive => exact arriveSynced synced₁ now
  | consume => exact consumeSynced synced₁ flushed now
  | execute => exact executeSynced synced₁ flushed now
  | _ => exact hostSynced synced₁ flushed rfl (back _ _ _ synced₁.related allowed) now

end Steps

section Runs
variable {ib ob : Memory} {image : Globals} {g : Sys τ → Programmer.Action → Prop}

theorem startSynced (ib ob : Memory) (checksum : UInt16) (image : Globals) (target : τ) :
    Synced T checksum target (start ib ob checksum image target) (composed checksum image target) :=
  ⟨Interrupts.startSound ib.val ob.val ib.property ob.property,startRelated ib ob checksum image target,rfl,rfl⟩

theorem runSynced (back : ∀ c s a, Related c s → g s a → g c.host a) {bs : List Programmer.Action} {s : Sys τ}
    (run : Run (Programmer.step T) g (composed checksum image target) bs s) (ib ob : Memory) : ∃ as c,
    Run (step T) (Allowed g) (start ib ob checksum image target) as c ∧ Synced T checksum target c s :=
  runSimulated (fun s c => Synced T checksum target c s)
    (fun _ _ _ _ synced allowed now => stepRealized back synced allowed now) run
    (startSynced ib ob checksum image target)

/-- Whatever the composed system does, the programmer with its driver may do, and so that
everything the device has to say is on the line at the end. -/
theorem composedRealized (back : ∀ c s a, Related c s → g s a → g c.host a) {bs : List Programmer.Action} {s : Sys τ}
    (run : Run (Programmer.step T) g (composed checksum image target) bs s) (ib ob : Memory) : ∃ as c,
    Run (step T) (Allowed g) (start ib ob checksum image target) as c ∧ Related c s ∧
    bytesOf s.replies = bytesOf c.host.replies ∧ c.device.firmware = s.firmware := by
  obtain ⟨as,c,run',synced⟩ := runSynced back run ib ob
  obtain ⟨i,o,scheduled⟩ := syncedScheduled synced
  obtain ⟨more,c',later,synced',scheduled',done⟩ := flushed (g := g) synced scheduled rfl
  have said := flushedState synced' scheduled' done
  exact ⟨as ++ more,c',runAppend run' later,synced'.related,said.replies,said.firmware.symm⟩

end Runs

theorem undisturbedBack (c : Assembled τ) (s : Sys τ) (a : Programmer.Action) (related : Related c s)
    (allowed : Sessions.Undisturbed s a) : Sessions.Undisturbed c.host a := by
  cases a with
  | flash | fileOpen _ => exact (sessionOpenMarks related.marks).symm.trans allowed
  | _ => exact allowed

theorem markReported {log : List Programmer.Event} {report : MainWindow.Report} :
    .reported report ∈ log ↔ Mark.reported report ∈ marks log := by
  rw [marks,List.mem_filterMap]
  constructor
  · exact fun inside => ⟨_,inside,rfl⟩
  · rintro ⟨event,inside,is⟩
    cases event <;> simp [mark] at is
    rw [← is]
    exact inside

section Completing
open CommandLoop (obliging BLOCKS_PER_BANK)
open Programmer (operations)
open Sessions (Undisturbed expected total)

/- A session of the composed system, whatever the checksum is at power-up. -/
theorem composedRestarts (checksum : UInt16) (image : Globals) : ∃ bs s,
    Run (Programmer.step (obliging (total image BLOCKS_PER_BANK))) Undisturbed (composed checksum image ()) bs s ∧
    .reported .reStarted ∈ s.log ∧ operations s.log = expected image := by
  have idle := Delivery.composedIdle checksum image ()
  obtain ⟨s,clicked⟩ : ∃ s, Programmer.step (obliging (total image BLOCKS_PER_BANK)) (composed checksum image ()) .flash =
      some s := ⟨_,rfl⟩
  obtain ⟨good,_,log⟩ := Sessions.flashingClick (Sessions.flashingIdle idle rfl) rfl clicked
  obtain ⟨bs,t,past,run,restarted⟩ :=
    Completion.restarts good (by simp) (log ▸ Sessions.soundOther (Sessions.soundNothing _) (by simp))
  have allowed : Undisturbed (composed checksum image ()) .flash := rfl
  refine ⟨_,t,.cons allowed clicked (runWeaken Verdict.protocolUndisturbed run),?_,?_⟩
  · rw [restarted.log]
    exact List.mem_append_right _ restarted.reported
  · -- the only session is all of the log
    obtain ⟨session,now,ops⟩ := restarted.done
    rw [restarted.log,log] at now ⊢
    rw [Sessions.latestAppend _ restarted.plain] at now
    cases now
    exact ops

theorem composedRealizedBlank : ∃ s as c,
    Run (step (obliging (total Loader.noGlobals BLOCKS_PER_BANK))) (Allowed Undisturbed)
      (start Servicing.blank Servicing.blank 0 Loader.noGlobals ()) as c ∧ Related c s ∧ .reported .reStarted ∈ s.log := by
  obtain ⟨bs,s,run,reported,_⟩ := composedRestarts 0 Loader.noGlobals
  obtain ⟨as,c,run',related,_⟩ := composedRealized undisturbedBack run Servicing.blank Servicing.blank
  exact ⟨s,as,c,run',related,reported⟩

/- A session of the programmer with a target on which everything succeeds. -/
theorem assembledRestarts (ib ob : Memory) (checksum : UInt16) (image : Globals) : ∃ as c,
    Run (step (obliging (total image BLOCKS_PER_BANK))) (Allowed Undisturbed) (start ib ob checksum image ()) as c ∧
    .reported .reStarted ∈ c.host.log := by
  obtain ⟨bs,s,run,reported,_⟩ := composedRestarts checksum image
  obtain ⟨as,c,run',synced⟩ := runSynced undisturbedBack run ib ob
  rw [markReported,synced.related.marks,← markReported] at reported
  exact ⟨as,c,run',reported⟩

/-- Any image can be flashed to the end, with any memory in the queues and any checksum at
power-up. -/
theorem assembledCompletes (ib ob : Memory) (checksum : UInt16) (image : Globals) : ∃ as c,
    Run (step (obliging (total image BLOCKS_PER_BANK))) (Allowed Undisturbed) (start ib ob checksum image ()) as c ∧
    .reported .reStarted ∈ c.host.log :=
  assembledRestarts ib ob checksum image

end Completing

section Verdict
open CommandLoop (obliging BLOCKS_PER_BANK)
open Performing (Performed)
open Programmer (operations)
open Sessions (Undisturbed Sound total)
variable {ib ob : Memory} {image : Globals} {c : Assembled τ} {as : List Action}

/-- The restart is reported only after the device has done everything for the session, in
any order of its interrupts and turns, and what the log says has been done to the target. -/
theorem assembledSound (run : Run (step T) (Allowed Undisturbed) (start ib ob checksum image target) as c) :
    Sound c.host.log ∧ Performed T target (operations c.host.log) c.device.firmware.target := by
  obtain ⟨bs,s,run',_,related⟩ := runRelated undisturbedOnHost run
  have logged := Tracing.loggedRun run
  rw [logged.same]
  exact ⟨Delivery.relatedSound run' related,logged.traced.performed⟩

/- A session of a blank image does report it. -/
theorem assembledSoundBlank : ∃ c : Assembled Unit, .reported .reStarted ∈ c.host.log ∧ Sound c.host.log ∧
    Performed (obliging (total Loader.noGlobals BLOCKS_PER_BANK)) () (operations c.host.log) c.device.firmware.target := by
  obtain ⟨as,c,run,reported⟩ := assembledRestarts Servicing.blank Servicing.blank 0 Loader.noGlobals
  exact ⟨c,reported,assembledSound run⟩

end Verdict
end HsspProgrammer.Realizing
