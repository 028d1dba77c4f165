import HsspProgrammer.Interrupts
import HsspProgrammer.Progress

/-! What the interrupt and the main thread achieve together, in any order of their steps:
every byte goes through once and in order, none of the two waits for nothing, and what
is accepted is answered. -/
namespace HsspProgrammer.Servicing
open Ascii (Bytes)
open CommandLoop
open Interrupts
open IoQueues
open MainLoop (settle feed powerUp)
open Transition
open Usart

variable {τ : Type} {T : Target τ} {checksum : UInt16} {target : τ} {d d' : Device τ}

/- The two arrays of the driver object. -/
abbrev Memory := {bp : Bytes // bp.length = SERIAL_BUFFERS_SIZE}

/- A state that is reached from power-up by interrupts and turns of the main thread. -/
def Reached (T : Target τ) (checksum : UInt16) (target : τ) (d : Device τ) : Prop :=
  ∃ ib ob : Memory, ∃ as, Run (step T) Any (start ib.val ob.val checksum target) as d

theorem reachedSound (reached : Reached T checksum target d) : Sound T checksum target d := by
  obtain ⟨ib,ob,as,run⟩ := reached
  exact runSound ib.property ob.property run

theorem reachedRun (reached : Reached T checksum target d) {as : List Action} {guard : Device τ → Action → Prop}
    (run : Run (step T) guard d as d') : Reached T checksum target d' := by
  obtain ⟨ib,ob,bs,before⟩ := reached
  exact ⟨ib,ob,bs ++ as,runAppend before (runWeaken (fun _ _ _ => trivial) run)⟩

/- What the status register shows when a byte has come in and when one may go out. -/
def shows (rxne txe : Bool) : Sr := ⟨false,txe,false,rxne,false,false,false,false⟩

/- A restart command arrives and its answer is put; then two bytes of it leave. -/
def restarting : List Action :=
  [.main,.interrupt (shows true false) [(Ascii.x,shows true false),(Ascii.newline,shows false false)]] ++
  List.replicate 8 .main

def leaving : List Action := List.replicate 2 (.interrupt (shows false true) [])

def blank : Memory := ⟨List.replicate SERIAL_BUFFERS_SIZE 0,List.length_replicate⟩

def restarted : Option (Device Unit) := runAll (step (obliging 0)) (start blank.val blank.val 0 ()) restarting

/- The driver then, and how far it is when the two bytes have left. -/
def restartedPort (d : Device Unit) : SdState × Bytes × Bytes × Option SdState :=
  (d.sdp.state,transmissions d.sdp.log,puts d.sdp.log,
    (runAll (step (obliging 0)) d leaving).map (fun d => d.sdp.state))

theorem restartedSome : restarted.map restartedPort =
    some (.SD_READY,[],CommandLoop.reply Ascii.x Ascii.zero,some .SD_READY) := by decide +kernel

theorem restartedReached {d : Device Unit} (now : restarted = some d) : Reached (obliging 0) 0 () d :=
  ⟨blank,blank,restarting,runAny now⟩

/- The queues of a driver in service hold what has come and not been taken, and what has
been put and not been sent, and its transmit interrupt is enabled while there is any of this. -/
structure Conserved (d : Device τ) (i o : Bytes) : Prop where
  arrived : arrivals d.sdp.log = takings d.sdp.log ++ i
  sent : puts d.sdp.log = transmissions d.sdp.log ++ o
  bounded : i.length ≤ SERIAL_BUFFERS_SIZE ∧ o.length ≤ SERIAL_BUFFERS_SIZE
  waiting : d.sdp.state = .SD_READY → Input d.sdp.iqueue i ∧ Output d.sdp.oqueue o
  enabled : d.sdp.state = .SD_READY → o ≠ [] → d.sdp.CR1.TXEIE = true
  refused : ∀ b status front back, d.sdp.log = front ++ .received b status :: back → status =
    if (arrivals front).length < (takings front).length + SERIAL_BUFFERS_SIZE then .MSG_OK else .MSG_TIMEOUT

/-- No byte is lost, repeated or reordered on its way through a queue, but for those that
come while 128 others wait. -/
theorem bytesConserved (reached : Reached T checksum target d) : ∃ i o, Conserved d i o := by
  obtain ⟨phase,_,_⟩ := reachedSound reached
  cases phase with
  | ready state i o scheduled =>
    obtain ⟨⟨input,output,depths,enabled,logged⟩,_,_⟩ := scheduled
    exact ⟨i,o,logged.arrived,logged.sent,⟨depths.1 ▸ inputRoom input,depths.2 ▸ outputRoom output⟩,
      fun _ => ⟨input,output⟩,fun _ => enabled,logged.refused⟩
  | stopped state _ _ _ i o logged erased =>
    have off : d.sdp.state ≠ .SD_READY := by simp [state]
    exact ⟨i,o,logged.arrived,logged.sent,erased,fun ready => absurd ready off,fun ready => absurd ready off,logged.refused⟩

theorem restartedConserved : ∃ d, restarted = some d ∧ ∃ i o, Conserved d i o := by
  obtain ⟨d,now,_⟩ := Option.map_eq_some_iff.mp restartedSome
  exact ⟨d,now,bytesConserved (restartedReached now)⟩

section Waking
variable {i o : Bytes}

theorem keptNone (bytes : Bytes) : kept [] bytes = [] ↔ bytes = [] := by
  unfold kept
  constructor
  · intro nothing
    rcases List.take_eq_nil_iff.mp nothing with none | none
    · contradiction
    · exact none
  · rintro rfl
    exact List.take_nil

theorem readerWoken (scheduled : Scheduled T d i o) (done : d.bp = []) (empty : i = [])
    (here : d.sdp.iqueue.q_waiting = [.main]) {sr : Sr} {turns : List (UInt8 × Sr)} (now : interrupt d sr turns = some d') :
    d'.asleep = false ↔ incoming d.sdp.rxmask sr turns ≠ [] := by
  obtain ⟨after,⟨_,serves⟩,_,bp,_⟩ := interruptScheduled scheduled now
  subst empty
  rw [List.nil_append] at after
  rw [ne_eq,← keptNone]
  constructor
  · intro awake nothing
    have still := serves.reader
    rw [nothing,here,(after.awake awake).1] at still
    contradiction
  · intro some
    by_contra asleep
    cases after.sleeps (Bool.not_eq_false _ ▸ asleep) with
    | reading _ _ _ empty _ _ => exact some empty
    | writing more _ _ _ => exact more (bp.trans done)

theorem writerWoken (scheduled : Scheduled T d i o) (more : d.bp ≠ []) (full : o.length = SERIAL_BUFFERS_SIZE)
    (here : d.sdp.oqueue.q_waiting = [.main]) {sr : Sr} {turns : List (UInt8 × Sr)} (now : interrupt d sr turns = some d') :
    d'.asleep = false ↔ (lastSr sr turns).TXE = true := by
  obtain ⟨after,⟨_,serves⟩,_,bp,_⟩ := interruptScheduled scheduled now
  have some : o ≠ [] := by
    rintro rfl
    contradiction
  have enabled := scheduled.holds.enabled some
  constructor
  · intro awake
    by_contra silent
    have nothing : sendable d.sdp.CR1 (lastSr sr turns) o = [] := by
      rw [sendable,if_neg (by simp [silent])]
    have still := serves.writer
    rw [nothing,here,(after.awake awake).2] at still
    contradiction
  · intro shown
    by_contra asleep
    have one : (sendable d.sdp.CR1 (lastSr sr turns) o).length = 1 := by
      rw [sendable,if_pos (by simp [enabled,shown]),List.length_take,full]
      rfl
    cases after.sleeps (Bool.not_eq_false _ ▸ asleep) with
    | reading _ _ done _ _ _ => exact more (bp.symm.trans done)
    | writing _ full' _ _ =>
      rw [List.length_drop,one,full] at full'
      contradiction

/- A turn of an awake thread is always possible. -/
theorem awakeTurns (scheduled : Scheduled T d i o) (ready : d.sdp.state = .SD_READY) (awake : d.asleep = false) :
    ∃ d', mainTurn T d = some d' := by
  have holds := scheduled.holds
  rw [mainTurn,awake,if_neg (by decide)]
  split
  · dsimp only
    split <;> exact ⟨_,rfl⟩
  · split
    · exact ⟨_,rfl⟩
    · rename_i reads
      split
      · exact ⟨_,rfl⟩
      · rename_i runs
        cases i with
        | nil =>
          rw [readSleeps holds .main]
          exact ⟨_,rfl⟩
        | cons b rest =>
          obtain ⟨fw,taken⟩ := readingTakes T reads runs b
          simp only [(readHolds holds Thread.main).1,taken,Option.map_some]
          exact ⟨_,rfl⟩

end Waking

/-- The main thread of a device in service can go on, or sleeps in `chnRead` and has taken
every byte there is and any further one wakes it, or sleeps in `chnWrite` with no room for
its answer and is woken by the next byte that leaves. -/
theorem neverStuck (reached : Reached T checksum target d) (ready : d.sdp.state = .SD_READY) :
    (∃ d', mainTurn T d = some d') ∨
    (d.asleep = true ∧ d.bp = [] ∧ arrivals d.sdp.log = takings d.sdp.log ∧ ∀ sr turns d', interrupt d sr turns = some d' →
      (d'.asleep = false ↔ incoming d.sdp.rxmask sr turns ≠ [])) ∨
    (d.asleep = true ∧ d.bp ≠ [] ∧ d.sdp.CR1.TXEIE = true ∧ ∀ sr turns d', interrupt d sr turns = some d' →
      (d'.asleep = false ↔ (lastSr sr turns).TXE = true)) := by
  obtain ⟨phase,_,_⟩ := reachedSound reached
  cases phase with
  | stopped state => rw [state] at ready; contradiction
  | ready state i o scheduled =>
    cases asleep : d.asleep with
    | false =>
      exact .inl (awakeTurns scheduled state asleep)
    | true =>
      right
      cases scheduled.sleeps asleep with
      | reading reads runs done empty here there =>
        have arrived := scheduled.holds.logged.arrived
        rw [empty,List.append_nil] at arrived
        exact .inl ⟨rfl,done,arrived,fun _ _ _ now => readerWoken scheduled done empty here now⟩
      | writing more full here there =>
        have some : o ≠ [] := by
          rintro rfl
          contradiction
        exact .inr ⟨rfl,more,scheduled.holds.enabled some,fun _ _ _ now => writerWoken scheduled more full here now⟩

theorem restartedStuck : ∃ d, restarted = some d ∧ ((∃ d', mainTurn (obliging 0) d = some d') ∨
    (d.asleep = true ∧ d.bp = [] ∧ arrivals d.sdp.log = takings d.sdp.log ∧ ∀ sr turns d', interrupt d sr turns = some d' →
      (d'.asleep = false ↔ incoming d.sdp.rxmask sr turns ≠ [])) ∨
    (d.asleep = true ∧ d.bp ≠ [] ∧ d.sdp.CR1.TXEIE = true ∧ ∀ sr turns d', interrupt d sr turns = some d' →
      (d'.asleep = false ↔ (lastSr sr turns).TXE = true))) := by
  obtain ⟨d,now,port⟩ := Option.map_eq_some_iff.mp restartedSome
  exact ⟨d,now,neverStuck (restartedReached now) (congrArg Prod.fst port)⟩

/- The interrupts that find the transmit register empty. -/
def clears : Action → Bool
  | .interrupt sr turns => (lastSr sr turns).TXE
  | .main => false

section Sending
variable {o : Bytes}

theorem sendableShown {cr1 : Cr1} (enabled : o ≠ [] → cr1.TXEIE = true) (sr : Sr) :
    sendable cr1 sr o = if sr.TXE then o.take 1 else [] := by
  unfold sendable
  cases o with
  | nil => simp
  | cons b o => simp [enabled (List.cons_ne_nil b o)]

/- A device that is stopped does nothing more. -/
theorem stepService (sound : Sound T checksum target d) {a : Action} (now : step T d a = some d') :
    ∃ i o, d.sdp.state = .SD_READY ∧ Scheduled T d i o := by
  obtain ⟨phase,_,_⟩ := sound
  cases phase with
  | ready state i o scheduled => exact ⟨i,o,state,scheduled⟩
  | stopped state awake done halted =>
    cases a with
    | interrupt sr turns =>
      obtain ⟨ready,_⟩ := Option.ite_none_right_eq_some.mp now
      rw [state] at ready
      contradiction
    | main =>
      have idle : execute T d.firmware = none := by rw [execute,halted]
      simp [step,mainTurn,awake,done,idle,halted,state] at now

/- A step sends the first byte that waits or none, and may put more behind the others. -/
theorem stepSends (sound : Sound T checksum target d) {a : Action} (now : step T d a = some d')
    (service : d'.sdp.state = .SD_READY) (pending : puts d.sdp.log = transmissions d.sdp.log ++ o) :
    ∃ more, transmissions d'.sdp.log = transmissions d.sdp.log ++ (if clears a then o.take 1 else []) ∧
      puts d'.sdp.log = transmissions d'.sdp.log ++ ((if clears a then o.drop 1 else o) ++ more) := by
  obtain ⟨i,o',_,scheduled⟩ := stepService sound now
  have same : o' = o := List.append_cancel_left (scheduled.holds.logged.sent.symm.trans pending)
  subst same
  have quiet : transmissions d'.sdp.log = transmissions d.sdp.log ∧ (∃ more, puts d'.sdp.log = puts d.sdp.log ++ more) →
      ∃ more, transmissions d'.sdp.log = transmissions d.sdp.log ++ [] ∧
        puts d'.sdp.log = transmissions d'.sdp.log ++ (o' ++ more) := by
    rintro ⟨sent,more,put⟩
    exact ⟨more,by rw [sent,List.append_nil],by rw [put,pending,sent,List.append_assoc]⟩
  cases a with
  | interrupt sr turns =>
    obtain ⟨_,⟨_,serves⟩,_,_,_⟩ := interruptScheduled scheduled now
    have sent := serves.transmitted
    rw [sendableShown scheduled.holds.enabled] at sent
    by_cases shown : (lastSr sr turns).TXE = true
    · simp only [clears,shown,if_true] at sent ⊢
      refine ⟨[],sent,?_⟩
      rw [serves.quiet.2,pending,sent,List.append_nil,List.append_assoc,List.take_append_drop]
    · simp only [clears,shown,if_false,Bool.false_eq_true] at sent ⊢
      rw [List.append_nil] at sent
      exact quiet ⟨sent,[],by rw [serves.quiet.2,List.append_nil]⟩
  | main =>
    obtain ⟨_,turn⟩ := mainTurns scheduled now
    refine quiet ?_
    cases turn with
    | puts b bp more room next =>
      obtain ⟨log,_,_⟩ := writeLog (writeHolds scheduled.holds .main b room).1
      subst next
      rw [log]
      exact ⟨by simp [transmissions],[b],by simp [puts]⟩
    | takes b rest fw done reads front taken next =>
      subst front
      obtain ⟨log,_,_⟩ := readLog (readHolds scheduled.holds .main).1
      subst next
      rw [log]
      exact ⟨by simp [transmissions],[],by simp [puts]⟩
    | stops done halted next =>
      subst next
      contradiction
    | full more full next => subst next; exact ⟨rfl,[],(List.append_nil _).symm⟩
    | executes outcome done ran next => subst next; exact ⟨rfl,[],(List.append_nil _).symm⟩
    | empty done reads runs nothing next => subst next; exact ⟨rfl,[],(List.append_nil _).symm⟩

/- A device that is in service has been so all the time. -/
theorem serviceKept {as : List Action} (run : Run (step T) Any d as d') (sound : Sound T checksum target d)
    (service : d'.sdp.state = .SD_READY) : d.sdp.state = .SD_READY := by
  cases run with
  | nil => exact service
  | cons _ now _ =>
    obtain ⟨_,_,ready,_⟩ := stepService sound now
    exact ready

theorem takeMore (k : Nat) (front back : Bytes) : front.take k <+: (front ++ back).take k := by
  rw [List.take_append]
  exact List.prefix_append _ _

/-- A byte that waits to be sent is sent by the time that the transmit register has been
found empty once for it and once for each one before it. -/
theorem sentInTime {as : List Action} (reached : Reached T checksum target d) (run : Run (step T) Any d as d')
    (service : d'.sdp.state = .SD_READY) (pending : puts d.sdp.log = transmissions d.sdp.log ++ o) :
    transmissions d.sdp.log ++ o.take (as.countP clears) <+: transmissions d'.sdp.log := by
  induction run generalizing o with
  | nil d => rw [List.countP_nil,List.take_zero,List.append_nil]
  | @cons d a next rest d' _ now later ih =>
    have sound := reachedSound reached
    have one : Run (step T) Any d [a] next := .cons trivial now (.nil next)
    have after := reachedRun reached one
    have service' := serviceKept later (reachedSound after) service
    obtain ⟨more,sent,put⟩ := stepSends sound now service' pending
    have shown := ih after service put
    rw [sent,List.append_assoc] at shown
    refine List.IsPrefix.trans ?_ shown
    rw [List.prefix_append_right_inj,List.countP_cons]
    cases clears a with
    | true =>
      simp only [if_true]
      rw [Nat.add_comm,List.take_add]
      exact (List.prefix_append_right_inj _).mpr (takeMore _ _ _)
    | false => exact takeMore _ _ _

theorem restartedSent : ∃ d d', restarted = some d ∧ runAll (step (obliging 0)) d leaving = some d' ∧
    transmissions d.sdp.log ++ [Ascii.x,Ascii.newline] <+: transmissions d'.sdp.log := by
  obtain ⟨d,now,port⟩ := Option.map_eq_some_iff.mp restartedSome
  simp only [restartedPort,Prod.mk.injEq] at port
  obtain ⟨_,sent,put,later⟩ := port
  obtain ⟨d',left,service⟩ := Option.map_eq_some_iff.mp later
  refine ⟨d,d',now,left,?_⟩
  exact sentInTime (o := CommandLoop.reply Ascii.x Ascii.zero) (restartedReached now) (runAny left) service (by
    rw [sent,put]
    rfl)

end Sending

/- The steps that do something while nothing comes in: turns of the main thread, and
interrupts that find the transmit register empty and a byte to send. -/
def Useful (d : Device τ) : Action → Prop
  | .main => True
  | .interrupt sr turns =>
    incoming d.sdp.rxmask sr turns = [] ∧ (lastSr sr turns).TXE = true ∧ transmissions d.sdp.log ≠ puts d.sdp.log

def inputLeft (d : Device τ) : Nat := (arrivals d.sdp.log).length - (takings d.sdp.log).length

def outputLeft (d : Device τ) : Nat := (puts d.sdp.log).length - (transmissions d.sdp.log).length

def ready (T : Target τ) (fw : Firmware τ) : Nat := if (execute T fw).isSome then 13 else 0

/- A byte that is taken may complete a read, what follows it may answer with four bytes,
each of them is put and sent, and that may wake the thread. -/
def weight (T : Target τ) (d : Device τ) : Nat :=
  if d.sdp.state = .SD_STOP then 0
  else 14 * inputLeft d + ready T d.firmware + 3 * d.bp.length + 2 * outputLeft d + if d.asleep then 0 else 1

theorem weightReady (service : d.sdp.state = .SD_READY) : weight T d =
    14 * inputLeft d + ready T d.firmware + 3 * d.bp.length + 2 * outputLeft d + if d.asleep then 0 else 1 := by
  rw [weight,if_neg (by rw [service]; decide)]

theorem weightMost (T : Target τ) (d : Device τ) : weight T d ≤
    14 * inputLeft d + ready T d.firmware + 3 * d.bp.length + 2 * outputLeft d + if d.asleep then 0 else 1 := by
  unfold weight
  split
  · exact Nat.zero_le _
  · exact Nat.le_refl _

theorem readyMost (T : Target τ) (fw : Firmware τ) : ready T fw ≤ 13 := by
  unfold ready
  split <;> omega

theorem leftHolds {i o : Bytes} (holds : Holds d.sdp i o) : inputLeft d = i.length ∧ outputLeft d = o.length := by
  rw [inputLeft,outputLeft,holds.logged.arrived,holds.logged.sent,List.length_append,List.length_append]
  omega

theorem interruptLess (sound : Sound T checksum target d) {sr : Sr} {turns : List (UInt8 × Sr)}
    (useful : Useful d (.interrupt sr turns)) (now : interrupt d sr turns = some d') : weight T d' < weight T d := by
  obtain ⟨i,o,service,scheduled⟩ := stepService sound (a := .interrupt sr turns) now
  obtain ⟨nothing,shown,more⟩ := useful
  obtain ⟨after,_,firmware,bp,_⟩ := interruptScheduled scheduled now
  have some : 0 < o.length := by
    refine List.length_pos_of_ne_nil (fun none => more ?_)
    rw [scheduled.holds.logged.sent,none,List.append_nil]
  obtain ⟨input,output⟩ := leftHolds scheduled.holds
  obtain ⟨input',output'⟩ := leftHolds after.holds
  rw [nothing,show kept i [] = [] from List.take_nil,List.append_nil] at input'
  rw [sendableShown scheduled.holds.enabled,if_pos shown,List.length_drop,List.length_take] at output'
  refine Nat.lt_of_le_of_lt (weightMost T d') ?_
  rw [weightReady service,input,output,input',output',firmware,bp]
  split <;> split <;> omega

theorem mainLess (sound : Sound T checksum target d) (now : mainTurn T d = some d') : weight T d' < weight T d := by
  obtain ⟨i,o,service,scheduled⟩ := stepService sound (a := .main) now
  obtain ⟨awake,turn⟩ := mainTurns scheduled now
  obtain ⟨input,output⟩ := leftHolds scheduled.holds
  rw [weightReady service,awake]
  by_cases stopped : d'.sdp.state = .SD_STOP
  · rw [weight,if_pos stopped]
    exact Nat.lt_of_lt_of_le Nat.zero_lt_one (Nat.le_add_left _ _)
  refine Nat.lt_of_le_of_lt (weightMost T d') ?_
  cases turn with
  | puts b bp more room next =>
    subst next
    obtain ⟨_,holds,_⟩ := writeHolds scheduled.holds .main b room
    obtain ⟨input',output'⟩ := leftHolds (d := {d with sdp := (writeTurn d.sdp .main b).2, bp := bp}) holds
    rw [input',output',input,output,more]
    simp only [awake,List.length_append,List.length_cons,List.length_nil]
    omega
  | full more full next =>
    subst next
    simp [inputLeft,outputLeft]
  | executes outcome done ran next =>
    subst next
    have small := Progress.replySize ran
    have before : ready T d.firmware = 13 := by rw [ready,ran]; rfl
    have after : ready T outcome.firmware = 0 := by rw [ready,executedReads ran]; rfl
    rw [before,after,done]
    simp only [inputLeft,outputLeft,awake,List.length_nil]
    rcases small with none | four
    · rw [none,List.length_nil]
      omega
    · omega
  | stops done halted next =>
    subst next
    exact absurd rfl stopped
  | empty done reads runs nothing next =>
    subst next
    simp [inputLeft,outputLeft]
  | takes b rest fw done reads front taken next =>
    subst front
    subst next
    have most := readyMost T fw
    obtain ⟨_,holds,_⟩ := readHolds scheduled.holds .main
    obtain ⟨input',output'⟩ := leftHolds
      (d := {d with firmware := fw, sdp := (readTurn d.sdp .main).2, log := d.log ++ MainLoop.readEntries fw}) holds
    rw [input',output',input,output,done,List.length_cons]
    simp only [awake]
    omega

theorem usefulLess (sound : Sound T checksum target d) {a : Action} (useful : Useful d a) (now : step T d a = some d') :
    weight T d' < weight T d := by
  cases a with
  | interrupt sr turns => exact interruptLess sound useful now
  | main => exact mainLess sound now

/- All that was accepted has been taken and answered, and the answers have been sent. -/
structure Answered (T : Target τ) (checksum : UInt16) (target : τ) (d : Device τ) : Prop where
  fed : feed T (powerUp checksum target) (arrivals d.sdp.log) = some ⟨d.firmware,d.log⟩
  sent : transmissions d.sdp.log = answers d.log

theorem restsAnswered (sound : Sound T checksum target d) (rests : ∀ a, Useful d a → step T d a = none) :
    d.sdp.state = .SD_STOP ∨ d.asleep = true ∧ Answered T checksum target d := by
  obtain ⟨phase,fed,answered⟩ := sound
  cases phase with
  | stopped state => exact .inl state
  | ready state i o scheduled =>
    right
    have sent := scheduled.holds.logged.sent
    have none : o = [] := by
      by_contra some
      -- an interrupt that shows an empty transmit register and nothing else
      have now := rests (.interrupt ⟨false,true,false,false,false,false,false,false⟩ []) ⟨rfl,rfl,fun all => by
        rw [sent] at all
        exact some (List.self_eq_append_right.mp all)⟩
      simp [step,interrupt,state,serve_interrupt,receiveLoop,Sr.pending,Sr.error] at now
    cases asleep : d.asleep with
    | false =>
      obtain ⟨d',now⟩ := awakeTurns scheduled state asleep
      have ends := rests .main trivial
      rw [step,now] at ends
      contradiction
    | true =>
      cases scheduled.sleeps asleep with
      | writing more full here there => rw [none] at full; contradiction
      | reading reads runs done empty here there =>
        have arrived := scheduled.holds.logged.arrived
        rw [empty,List.append_nil] at arrived
        rw [MainLoop.settleNone reads,← arrived] at fed
        rw [done,List.append_nil,sent,none,List.append_nil] at answered
        exact ⟨rfl,fed,answered.symm⟩

/-- When no more comes in, a device has at most so many useful steps left, and once it has
made all it can, in any order, everything it has accepted is answered. -/
theorem servedCompletely (reached : Reached T checksum target d) :
    (∃ as d', Run (step T) Useful d as d' ∧ ∀ a, Useful d' a → step T d' a = none) ∧
    ∀ as d', Run (step T) Useful d as d' → as.length ≤ weight T d ∧
      ((∀ a, Useful d' a → step T d' a = none) → d'.sdp.state = .SD_STOP ∨ d'.asleep = true ∧ Answered T checksum target d') := by
  have less : ∀ (s : Device τ) (n : Nat) (a : Action) (t : Device τ), (Sound T checksum target s ∧ n = weight T s) →
      Useful s a → step T s a = some t → ∃ m < n, Sound T checksum target t ∧ m = weight T t := by
    rintro s n a t ⟨sound,rfl⟩ useful now
    exact ⟨weight T t,usefulLess sound useful now,stepSound sound now,rfl⟩
  have start : Sound T checksum target d ∧ weight T d = weight T d := ⟨reachedSound reached,rfl⟩
  constructor
  · obtain ⟨as,d',_,run,_,ends⟩ := runToEnd (fun s n => Sound T checksum target s ∧ n = weight T s) less start
    exact ⟨as,d',run,ends⟩
  · intro as d' run
    obtain ⟨_,⟨sound,_⟩,bound⟩ := runBound (fun s n => Sound T checksum target s ∧ n = weight T s) less run start
    exact ⟨by omega,restsAnswered sound⟩

theorem restartedServed : ∃ d, restarted = some d ∧
    (∃ as d', Run (step (obliging 0)) Useful d as d' ∧ ∀ a, Useful d' a → step (obliging 0) d' a = none) ∧
    ∀ as d', Run (step (obliging 0)) Useful d as d' → as.length ≤ weight (obliging 0) d ∧
      ((∀ a, Useful d' a → step (obliging 0) d' a = none) →
        d'.sdp.state = .SD_STOP ∨ d'.asleep = true ∧ Answered (obliging 0) 0 () d') := by
  obtain ⟨d,now,_⟩ := Option.map_eq_some_iff.mp restartedSome
  exact ⟨d,now,servedCompletely (restartedReached now)⟩

end HsspProgrammer.Servicing
