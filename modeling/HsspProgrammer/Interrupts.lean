import HsspProgrammer.MainLoop
import HsspProgrammer.Usart

/-! The firmware with its serial driver: the main thread, which runs the command loop and
sleeps in `chnRead` and `chnWrite`, and the interrupt of the USART, in any order. -/
namespace HsspProgrammer.Interrupts
open Ascii (Bytes)
open CommandLoop
open IoQueues
open MainLoop (settle feed feedByte powerUp readEntries doneEntries)
open Usart

inductive Thread where
  | main
  | blinker
  | idle
  deriving DecidableEq, Repr

/- `bp` is what `chnWrite` has still to put of an answer. The bytes `chnRead` has taken are
in the program counter of the command loop. -/
structure Device (τ : Type) where
  firmware : Firmware τ
  sdp : SerialDriver Thread
  bp : Bytes
  asleep : Bool
  log : List MainLoop.Entry

inductive Action where
  | interrupt (sr : Sr) (turns : List (UInt8 × Sr))
  | main

variable {τ : Type}

/- `sdStart(&SD1, NULL)`, with anything in the memory of the two queues. -/
def start (ib ob : Bytes) (checksum : UInt16) (target : τ) : Device τ :=
  ⟨(powerUp checksum target).firmware,sdStart (sdObjectInit ib ob) default_config,[],false,[]⟩

/- The threads of the driver's queues are resumed with `MSG_OK` only, so that the loops
they sleep in go on (`resumedWell`). -/
def wakes (resumed : Resumed Thread) : Bool := resumed.any (fun woken => woken.1 == .main)

def interrupt (d : Device τ) (sr : Sr) (turns : List (UInt8 × Sr)) : Option (Device τ) :=
  if d.sdp.state = .SD_READY then
    (serve_interrupt d.sdp sr turns).map (fun r => {d with sdp := r.1, asleep := d.asleep && !wakes r.2})
  else none

/- The main thread up to the end of one turn of `chnRead` or `chnWrite`, of the code between
two of them, or of `sdStop`. -/
def mainTurn (T : Target τ) (d : Device τ) : Option (Device τ) :=
  if d.asleep then none
  else
    match d.bp with
    | b :: bp =>
      let turn := writeTurn d.sdp .main b
      if turn.1 then some {d with sdp := turn.2, bp := bp} else some {d with sdp := turn.2, asleep := true}
    | [] =>
      match execute T d.firmware with
      | some outcome =>
        some {d with firmware := outcome.firmware, bp := outcome.reply, log := d.log ++ doneEntries outcome}
      | none =>
        if d.firmware.pc = .halted then
          if d.sdp.state = .SD_READY then some {d with sdp := (sdStop d.sdp).1} else none
        else
          let turn := readTurn d.sdp .main
          match turn.1 with
          | none => some {d with sdp := turn.2, asleep := true}
          | some b =>
            (consume d.firmware b).map (fun fw => {d with firmware := fw, sdp := turn.2, log := d.log ++ readEntries fw})

def step (T : Target τ) (d : Device τ) : Action → Option (Device τ)
  | .interrupt sr turns => interrupt d sr turns
  | .main => mainTurn T d

def Any (_ : Device τ) (_ : Action) : Prop := True

instance (d : Device τ) (a : Action) : Decidable (Any d a) := .isTrue trivial

theorem runAny {T : Target τ} {d d' : Device τ} {as : List Action} (ends : Transition.runAll (step T) d as = some d') :
    Transition.Run (step T) Any d as d' := Transition.runEvaluated (by simpa [Any] using ends)

/- What has been answered. -/
def answers (log : List MainLoop.Entry) : Bytes := (log.filterMap (fun entry => match entry with
  | .replied answer => some answer
  | _ => none)).flatten

theorem answersDone (outcome : Outcome τ) : answers (doneEntries outcome) = outcome.reply := by
  have ops : (outcome.ops.map MainLoop.Entry.performed).filterMap (fun entry => match entry with
      | .replied answer => some answer
      | _ => none) = [] := by
    rw [List.filterMap_map]
    simp
  unfold answers doneEntries
  rw [List.filterMap_append,ops]
  split <;> simp_all

theorem answersAppend (front back : List MainLoop.Entry) : answers (front ++ back) = answers front ++ answers back := by
  simp [answers]

theorem answersRead (fw : Firmware τ) : answers (readEntries fw) = [] := by
  unfold readEntries
  split <;> rfl

theorem nextReads (T : Target τ) {use : Nat → Use} {k : Nat} {failed : Bool} {fw : Firmware τ}
    (pc : fw.pc = nextBlock use k failed) : execute T fw = none := by
  unfold nextBlock at pc
  split at pc
  · rw [execute,pc]
  · split at pc <;> rw [execute,pc]

/-- After what follows a read, the command loop is at its next one or at its end. -/
theorem executedReads {T : Target τ} {fw : Firmware τ} {outcome : Outcome τ} (ran : execute T fw = some outcome) :
    execute T outcome.firmware = none := by
  cases pc : fw.pc with
  | command cmdID cmdTrm =>
    rcases MainLoop.executePair pc ran with ⟨_,effect⟩ | ⟨_,rfl⟩
    · cases effect with
      | program _ opens => rw [opens]; rfl
      | block _ _ _ opens => rw [opens]; rfl
      | answer _ _ _ _ done => rw [done]; rfl
      | silent pc' ended _ done =>
        rw [done]
        rcases ended with rfl | rfl <;> rfl
    · rfl
  | ready use =>
    simp only [execute,pc] at ran
    cases Option.some.inj ran
    cases use with
    | program k => exact nextReads T rfl
    | verify k => exact nextReads T rfl
    | securityFlash => rfl
    | securityVerify => rfl
  | cmdID | cmdTrm _ | data _ _ | halted => simp [execute,pc] at ran

/- A command loop that does neither takes the next byte. -/
theorem readingTakes (T : Target τ) {fw : Firmware τ} (reads : execute T fw = none) (runs : fw.pc ≠ .halted) (b : UInt8) :
    ∃ fw', consume fw b = some fw' := by
  cases pc : fw.pc with
  | cmdID | cmdTrm _ => exact ⟨_,by rw [consume,pc]⟩
  | data use got =>
    rw [consume,pc]
    dsimp only
    split <;> exact ⟨_,rfl⟩
  | command cmdID cmdTrm =>
    obtain ⟨outcome,ran⟩ := MainLoop.executeSome T fw (.inl ⟨_,_,pc⟩)
    rw [ran] at reads
    contradiction
  | ready use =>
    obtain ⟨outcome,ran⟩ := MainLoop.executeSome T fw (.inr ⟨_,pc⟩)
    rw [ran] at reads
    contradiction
  | halted => exact absurd pc runs

/- Where the main thread sleeps: a reader finds no byte and a writer no room. -/
inductive Sleeps (T : Target τ) (d : Device τ) (i o : Bytes) : Prop where
  | reading (reads : execute T d.firmware = none) (runs : d.firmware.pc ≠ .halted) (done : d.bp = []) (empty : i = [])
      (here : d.sdp.iqueue.q_waiting = [.main]) (there : d.sdp.oqueue.q_waiting = [])
  | writing (more : d.bp ≠ []) (full : o.length = SERIAL_BUFFERS_SIZE)
      (here : d.sdp.oqueue.q_waiting = [.main]) (there : d.sdp.iqueue.q_waiting = [])

structure Scheduled (T : Target τ) (d : Device τ) (i o : Bytes) : Prop where
  holds : Holds d.sdp i o
  awake : d.asleep = false → d.sdp.iqueue.q_waiting = [] ∧ d.sdp.oqueue.q_waiting = []
  sleeps : d.asleep = true → Sleeps T d i o

section Steps
variable {T : Target τ} {d d' : Device τ} {i o : Bytes}

theorem resumedWell (scheduled : Scheduled T d i o) {sr : Sr} {turns : List (UInt8 × Sr)}
    {r : SerialDriver Thread × Resumed Thread} (ran : serve_interrupt d.sdp sr turns = some r) :
    ∀ woken ∈ r.2, woken.2 = .MSG_OK := by
  obtain ⟨_,serves⟩ := serveHolds scheduled.holds ran
  rw [serves.resumed]
  intro woken inside
  rcases List.mem_append.mp inside with inside | inside
  all_goals
    obtain ⟨_,_,rfl⟩ := List.mem_map.mp inside
    rfl

/-- An interrupt wakes the main thread when, and only when, what it sleeps for is there. -/
theorem interruptScheduled (scheduled : Scheduled T d i o) {sr : Sr} {turns : List (UInt8 × Sr)}
    (now : interrupt d sr turns = some d') :
    Scheduled T d' (i ++ kept i (incoming d.sdp.rxmask sr turns)) (o.drop (sendable d.sdp.CR1 (lastSr sr turns) o).length) ∧
    (∃ r, Usart.Serves d.sdp d'.sdp r (incoming d.sdp.rxmask sr turns) (kept i (incoming d.sdp.rxmask sr turns))
      (sendable d.sdp.CR1 (lastSr sr turns) o)) ∧
    d'.firmware = d.firmware ∧ d'.bp = d.bp ∧ d'.log = d.log := by
  obtain ⟨_,now⟩ := Option.ite_none_right_eq_some.mp now
  obtain ⟨r,ran,rfl⟩ := Option.map_eq_some_iff.mp now
  obtain ⟨holds,serves⟩ := serveHolds scheduled.holds ran
  have reader := serves.reader
  have writer := serves.writer
  have resumed := serves.resumed
  generalize kept i (incoming d.sdp.rxmask sr turns) = got at *
  generalize sendable d.sdp.CR1 (lastSr sr turns) o = sent at *
  suffices here : (d.asleep && !wakes r.2) = false ∧ r.1.iqueue.q_waiting = [] ∧ r.1.oqueue.q_waiting = [] ∨
      (d.asleep && !wakes r.2) = true ∧
      Sleeps T {d with sdp := r.1, asleep := d.asleep && !wakes r.2} (i ++ got) (o.drop sent.length) by
    rcases here with ⟨awake,none⟩ | ⟨asleep,sleeps⟩
    · exact ⟨⟨holds,fun _ => none,fun asleep => absurd (awake.symm.trans asleep) (by decide)⟩,⟨r.2,serves⟩,rfl,rfl,rfl⟩
    · exact ⟨⟨holds,fun awake => absurd (awake.symm.trans asleep) (by decide),fun _ => sleeps⟩,⟨r.2,serves⟩,rfl,rfl,rfl⟩
  cases before : d.asleep with
  | false =>
    obtain ⟨first,second⟩ := scheduled.awake before
    rw [reader,writer,first,second,List.drop_nil,List.drop_nil]
    exact .inl ⟨rfl,rfl,rfl⟩
  | true =>
    rw [resumed]
    cases scheduled.sleeps before with
    | reading reads runs done empty here there =>
      rw [reader,writer]
      cases got with
      | nil =>
        refine .inr ⟨?_,.reading reads runs done (by rw [empty]; rfl) ?_ ?_⟩
        · simp [here,there,wakes]
        · rw [reader,here]
          rfl
        · rw [writer,there,List.drop_nil]
      | cons b got =>
        left
        simp [here,there,wakes]
    | writing more full here there =>
      rw [reader,writer]
      cases sent with
      | nil =>
        refine .inr ⟨?_,.writing more full ?_ ?_⟩
        · simp [here,there,wakes]
        · rw [writer,here]
          rfl
        · rw [reader,there,List.drop_nil]
      | cons b sent =>
        left
        simp [here,there,wakes]

/- What one turn of the main thread does. -/
inductive Turn (T : Target τ) (d d' : Device τ) (i o : Bytes) : Prop where
  | puts (b : UInt8) (bp : Bytes) (more : d.bp = b :: bp) (room : o.length < SERIAL_BUFFERS_SIZE)
      (next : d' = {d with sdp := (writeTurn d.sdp .main b).2, bp := bp})
  | full (more : d.bp ≠ []) (full : o.length = SERIAL_BUFFERS_SIZE)
      (next : d' = {d with sdp := {d.sdp with oqueue := enqueue d.sdp.oqueue .main}, asleep := true})
  | executes (outcome : Outcome τ) (done : d.bp = []) (ran : execute T d.firmware = some outcome)
      (next : d' = {d with firmware := outcome.firmware, bp := outcome.reply, log := d.log ++ doneEntries outcome})
  | stops (done : d.bp = []) (halted : d.firmware.pc = .halted) (next : d' = {d with sdp := (sdStop d.sdp).1})
  | empty (done : d.bp = []) (reads : execute T d.firmware = none) (runs : d.firmware.pc ≠ .halted) (nothing : i = [])
      (next : d' = {d with sdp := {d.sdp with iqueue := enqueue d.sdp.iqueue .main}, asleep := true})
  | takes (b : UInt8) (rest : Bytes) (fw : Firmware τ) (done : d.bp = []) (reads : execute T d.firmware = none)
      (front : i = b :: rest) (taken : consume d.firmware b = some fw)
      (next : d' = {d with firmware := fw, sdp := (readTurn d.sdp .main).2, log := d.log ++ readEntries fw})

theorem mainTurns (scheduled : Scheduled T d i o) (now : mainTurn T d = some d') :
    d.asleep = false ∧ Turn T d d' i o := by
  have holds := scheduled.holds
  have room := outputRoom holds.output
  rw [holds.depths.2] at room
  unfold mainTurn at now
  split at now
  · contradiction
  rename_i awake
  refine ⟨Bool.eq_false_iff.mpr awake,?_⟩
  split at now
  · rename_i b bp more
    by_cases free : o.length < SERIAL_BUFFERS_SIZE
    · have put := (writeHolds holds .main b free).1
      simp only [put,if_true] at now
      exact .puts b bp more free (Option.some.inj now).symm
    · have full : o.length = SERIAL_BUFFERS_SIZE := by omega
      rw [writeSleeps holds .main b full] at now
      exact .full (by rw [more]; simp) full (Option.some.inj now).symm
  · rename_i done
    split at now
    · rename_i outcome ran
      exact .executes outcome done ran (Option.some.inj now).symm
    · rename_i reads
      split at now
      · rename_i halted
        obtain ⟨_,now⟩ := Option.ite_none_right_eq_some.mp now
        exact .stops done halted (Option.some.inj now).symm
      · rename_i runs
        cases i with
        | nil =>
          rw [readSleeps holds .main] at now
          exact .empty done reads runs rfl (Option.some.inj now).symm
        | cons b rest =>
          have taken := (readHolds holds .main).1
          simp only [taken] at now
          obtain ⟨fw,consumed,next⟩ := Option.map_eq_some_iff.mp now
          exact .takes b rest fw done reads rfl consumed next.symm

end Steps

/- A device in service, or stopped for good, as it is reached from power-up. -/
inductive Phase (T : Target τ) (d : Device τ) : Prop where
  | ready (state : d.sdp.state = .SD_READY) (i o : Bytes) (scheduled : Scheduled T d i o)
  | stopped (state : d.sdp.state = .SD_STOP) (awake : d.asleep = false) (done : d.bp = []) (halted : d.firmware.pc = .halted)
      (i o : Bytes) (logged : Logged d.sdp.log i o) (erased : i.length ≤ SERIAL_BUFFERS_SIZE ∧ o.length ≤ SERIAL_BUFFERS_SIZE)

structure Sound (T : Target τ) (checksum : UInt16) (target : τ) (d : Device τ) : Prop where
  phase : Phase T d
  fed : feed T (powerUp checksum target) (takings d.sdp.log) = some (settle T ⟨d.firmware,d.log⟩)
  answered : answers d.log = puts d.sdp.log ++ d.bp

section Reachable
variable {T : Target τ} {checksum : UInt16} {target : τ} {d d' : Device τ}

theorem startSound (ib ob : Bytes) (input : ib.length = SERIAL_BUFFERS_SIZE) (output : ob.length = SERIAL_BUFFERS_SIZE) :
    Sound T checksum target (start ib ob checksum target) :=
  ⟨.ready rfl [] [] ⟨startHolds ib ob input output default_config,fun _ => ⟨rfl,rfl⟩,fun asleep => by contradiction⟩,
    rfl,rfl⟩

theorem interruptSound (sound : Sound T checksum target d) {sr : Sr} {turns : List (UInt8 × Sr)}
    (now : interrupt d sr turns = some d') : Sound T checksum target d' := by
  obtain ⟨phase,fed,answered⟩ := sound
  cases phase with
  | stopped state =>
    obtain ⟨ready,_⟩ := Option.ite_none_right_eq_some.mp now
    rw [state] at ready
    contradiction
  | ready state i o scheduled =>
    obtain ⟨scheduled,⟨_,serves⟩,firmware,bp,log⟩ := interruptScheduled scheduled now
    refine ⟨.ready (serves.state.trans state) _ _ scheduled,?_,?_⟩
    · rw [serves.quiet.1,firmware,log]
      exact fed
    · rw [serves.quiet.2,bp,log]
      exact answered

theorem feedOne {bytes : Bytes} {b : MainLoop.Board τ} (fed : feed T (powerUp checksum target) bytes = some b) (byte : UInt8) :
    feed T (powerUp checksum target) (bytes ++ [byte]) = feedByte T b byte := by
  rw [MainLoop.feedAppend,fed,Option.bind_some]
  simp only [feed,Transition.runAll]
  cases feedByte T b byte <;> rfl

theorem mainSound (sound : Sound T checksum target d) (now : mainTurn T d = some d') : Sound T checksum target d' := by
  obtain ⟨phase,fed,answered⟩ := sound
  cases phase with
  | stopped state awake done halted =>
    have ended : mainTurn T d = none := by
      have idle : execute T d.firmware = none := by rw [execute,halted]
      simp [mainTurn,awake,done,idle,halted,state]
    rw [ended] at now
    contradiction
  | ready state i o scheduled =>
    have holds := scheduled.holds
    obtain ⟨awake,turn⟩ := mainTurns scheduled now
    obtain ⟨first,second⟩ := scheduled.awake awake
    cases turn with
    | puts b bp more room next =>
      obtain ⟨put,holds',waiting⟩ := writeHolds holds .main b room
      obtain ⟨log,iqueue,state'⟩ := writeLog put
      subst next
      refine ⟨.ready (state'.trans state) i (o ++ [b]) ⟨holds',fun _ => ⟨?_,waiting.trans second⟩,?_⟩,?_,?_⟩
      · rw [iqueue]
        exact first
      · exact fun asleep => absurd (awake.symm.trans asleep) (by decide)
      · rw [log]
        simpa [takings] using fed
      · rw [log,answered,more]
        simp [puts]
    | full more full next =>
      subst next
      refine ⟨.ready state i o ⟨(enqueueHolds holds .main).2,fun asleep => by contradiction,fun _ => ?_⟩,fed,answered⟩
      exact .writing more full (by simp [enqueue,second]) first
    | executes outcome done ran next =>
      subst next
      refine ⟨.ready state i o ⟨holds,fun _ => ⟨first,second⟩,?_⟩,?_,?_⟩
      · exact fun asleep => absurd (awake.symm.trans asleep) (by decide)
      · rw [MainLoop.settleSome ran] at fed
        rw [MainLoop.settleNone (executedReads ran)]
        exact fed
      · rw [answersAppend,answersDone,answered,done,List.append_nil]
    | stops done halted next =>
      have log := stopLog d.sdp
      subst next
      refine ⟨.stopped rfl awake done halted i o ?_ ?_,?_,?_⟩
      · rw [log]
        exact holds.logged
      · exact ⟨holds.depths.1 ▸ inputRoom holds.input,holds.depths.2 ▸ outputRoom holds.output⟩
      · rw [log]
        exact fed
      · rw [log]
        exact answered
    | empty done reads runs nothing next =>
      subst next
      refine ⟨.ready state i o ⟨(enqueueHolds holds .main).1,fun asleep => by contradiction,fun _ => ?_⟩,fed,answered⟩
      exact .reading reads runs done nothing (by simp [enqueue,first]) second
    | takes b rest fw done reads front taken next =>
      subst front
      obtain ⟨took,holds',waiting⟩ := readHolds holds .main
      obtain ⟨log,oqueue,state'⟩ := readLog took
      subst next
      refine ⟨.ready (state'.trans state) rest o ⟨holds',fun _ => ⟨waiting.trans first,?_⟩,?_⟩,?_,?_⟩
      · rw [oqueue]
        exact second
      · exact fun asleep => absurd (awake.symm.trans asleep) (by decide)
      · rw [MainLoop.settleNone reads] at fed
        have more := feedOne fed b
        rw [feedByte,taken] at more
        rw [log]
        simpa [takings] using more
      · rw [log,answersAppend,answersRead,answered]
        simp [puts]

theorem stepSound (sound : Sound T checksum target d) {a : Action} (now : step T d a = some d') :
    Sound T checksum target d' := by
  cases a with
  | interrupt sr turns => exact interruptSound sound now
  | main => exact mainSound sound now

/-- Every state that is reached from power-up, in any order of interrupts and turns. -/
theorem runSound {ib ob : Bytes} {as : List Action} (input : ib.length = SERIAL_BUFFERS_SIZE)
    (output : ob.length = SERIAL_BUFFERS_SIZE) (run : Transition.Run (step T) Any (start ib ob checksum target) as d) :
    Sound T checksum target d :=
  Transition.runInvariant (Sound T checksum target) (fun _ _ _ sound _ now => stepSound sound now) run
    (startSound ib ob input output)

end Reachable
end HsspProgrammer.Interrupts
