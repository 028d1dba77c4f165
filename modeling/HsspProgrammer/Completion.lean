import HsspProgrammer.Progress
import HsspProgrammer.Provenance

/-! With a target that does everything it is asked to, the protocol goes on from any
point of a session that has not failed to the report of the restart. -/
namespace HsspProgrammer.Completion
open Ascii (Bytes)
open Loader (Globals)
open CommandLoop hiding execute consume
open Programmer Exchange Conversation Provenance Sessions Progress

def Obliged (value : UInt16) (op : Op) : Prop :=
  op.failed = false ∧ ∀ other, op = .targetBankChecksumGet (some other) → other = value

theorem obligedIf {value : UInt16} {p : Prop} [Decidable p] {yes no : Outcome Unit}
    (holds : ∀ op ∈ yes.ops, Obliged value op) (fails : ∀ op ∈ no.ops, Obliged value op) :
    ∀ op ∈ (if p then yes else no).ops, Obliged value op := by
  split
  · exact holds
  · exact fails

theorem obligingCommand (value : UInt16) (fw : Firmware Unit) (cmdID : UInt8) :
    ∀ op ∈ (onCommand (obliging value) fw cmdID).ops, Obliged value op := by
  have none : ∀ op ∈ ([] : List Op), Obliged value op := fun op inside => absurd inside List.not_mem_nil
  unfold onCommand
  refine obligedIf (by simp [obliging,Obliged,Op.failed]) (obligedIf (by simp [obliging,Obliged,Op.failed]) ?_)
  -- the commands that are followed by a block perform nothing
  refine obligedIf none (obligedIf none (obligedIf none (obligedIf none ?_)))
  refine obligedIf (by simp [obliging,Obliged,Op.failed]) (obligedIf (by simp [Obliged,Op.failed]) ?_)
  exact obligedIf none none

theorem obligingExecute {value : UInt16} {fw : Firmware Unit} {outcome : Outcome Unit}
    (ran : CommandLoop.execute (obliging value) fw = some outcome) : ∀ op ∈ outcome.ops, Obliged value op := by
  unfold CommandLoop.execute at ran
  split at ran
  · split at ran
    · cases Option.some.inj ran
      exact obligingCommand value fw _
    · cases Option.some.inj ran
      exact fun op inside => absurd inside List.not_mem_nil
  · rename_i use _
    cases Option.some.inj ran
    cases use <;> simp [onReady,Obliged,Op.failed,obliging]
  · contradiction

/-- The log says so of every operation. -/
theorem obligingStep {value : UInt16} {s t : Sys Unit} {a : Action} {events : List Event}
    (ran : step (obliging value) s a = some t) (log : t.log = s.log ++ events) :
    ∀ op, .performed op ∈ events → Obliged value op := by
  intro op inside
  obtain ⟨events',log',adds⟩ := stepLog ran
  cases addsSame log log' adds with
  | performed now =>
    obtain ⟨op',member,same⟩ := List.mem_map.mp inside
    cases same
    exact obligingExecute now op member
  | _ => simp at inside

/- The last session has done what `image` asks for. -/
def Accomplished (image : Globals) (log : List Event) : Prop :=
  ∃ session, latest log = some session ∧ operations session.events = expected image

/- The session, with the events `past` behind it, has not failed: it is going on, or the
restart is about to be reported, or it is reported. -/
def Hopeful (image : Globals) (s : Sys Unit) (past : List Event) (talk : Talk) : Prop :=
  talk.turn ≠ .rest ∨ (∃ f, talk.spent = [f] ∧ bytesOf f = reply Ascii.x Ascii.zero) ∨
  (talk.turn = .rest ∧ .reported .reStarted ∈ past ∧ Accomplished image s.log)

theorem accomplishedLater {image : Globals} {log events : List Event} (done : Accomplished image log)
    (plain : ∀ event ∈ events, Plain event) (silent : operations events = []) : Accomplished image (log ++ events) := by
  obtain ⟨session,now,ops⟩ := done
  refine ⟨_,by rw [latestAppend _ plain,now]; rfl,?_⟩
  change operations (session.events ++ events) = _
  rw [operationsAppend,silent,List.append_nil,ops]

/-- A session that is going on goes on, up to the answer to its last request. -/
theorem goingStep {image : Globals} {s : Sys Unit} {talk talk' : Talk} {events : List Event} {writes : List Bytes}
    (good : Flashing image s talk) (going : talk.turn ≠ .rest) (plain : ∀ event ∈ events, Plain event)
    (obliged : ∀ op, .performed op ∈ events → Obliged (total image BLOCKS_PER_BANK) op)
    (move : Move s.window.globals s.written.length talk events writes talk') : talk'.turn ≠ .rest ∨
      ((∃ checksum, talk = ⟨[],.asked .reStart checksum⟩) ∧ ∃ f, talk'.spent = [f] ∧ bytesOf f = reply Ascii.x Ascii.zero) := by
  have few := stageAnswers good.stage
  have stage := good.stage
  have clicked : ¬ ∀ event ∈ [Event.click s.window.globals s.written.length], Plain event :=
    fun plain => plain _ (List.mem_singleton_self _) s.window.globals s.written.length rfl
  cases move with
  | stay => exact .inl going
  | garble many => exact absurd many (by omega)
  | click => exact absurd plain clicked
  | clickBehind => exact absurd plain clicked
  | report => exact .inl going
  | next => exact .inl (by simp)
  | succeed => exact .inl (by simp)
  | @finish spent checksum f bytes =>
    generalize latest s.log = session at stage
    cases stage
    exact .inr ⟨⟨_,rfl⟩,f,rfl,bytes⟩
  | finishBehind =>
    generalize latest s.log = session at stage
    cases stage
  | @fail spent r checksum f ops other bytes wrong _ =>
    have right : ∀ op ∈ ops, Obliged (total image BLOCKS_PER_BANK) op :=
      fun op inside => obliged op (List.mem_map_of_mem inside)
    rcases wrong with ⟨op,inside,failed⟩ | ⟨rfl,value,inside,differs⟩
    · rw [(right op inside).1] at failed
      contradiction
    · have read := (right _ inside).2 value rfl
      generalize latest s.log = session at stage
      cases stage with
      | asked running place done matching summed =>
        have same : checksum = total image BLOCKS_PER_BANK := summed
        exact absurd (read.trans same.symm) differs

theorem hopefulStep {image : Globals} {s t : Sys Unit} {talk talk' : Talk} {past events : List Event} {writes : List Bytes}
    (good : Flashing image s talk) (hopeful : Hopeful image s past talk) (log : t.log = s.log ++ events)
    (plain : ∀ event ∈ events, Plain event)
    (obliged : ∀ op, .performed op ∈ events → Obliged (total image BLOCKS_PER_BANK) op)
    (move : Move s.window.globals s.written.length talk events writes talk') : Hopeful image t (past ++ events) talk' := by
  by_cases going : talk.turn ≠ .rest
  · exact (goingStep good going plain obliged move).imp id (fun ends => .inl ends.2)
  have few := stageAnswers good.stage
  have stage := good.stage
  have clicked : ¬ ∀ event ∈ [Event.click s.window.globals s.written.length], Plain event :=
    fun plain => plain _ (List.mem_singleton_self _) s.window.globals s.written.length rfl
  cases move with
  | stay _ _ reads =>
    refine hopeful.imp id (Or.imp id (fun ⟨rest,old,done⟩ => ⟨rest,List.mem_append_left _ old,?_⟩))
    rw [log]
    exact accomplishedLater done plain (operationsReads reads).1
  | garble many => exact absurd many (by omega)
  | click => exact absurd plain clicked
  | clickBehind => exact absurd plain clicked
  | @report f spent turn ba reports same handled =>
    have silent := (operationsActed ba reports).1
    right; right
    rcases hopeful with going | ⟨f',one,bytes⟩ | ⟨rest,old,done⟩
    · generalize latest s.log = session at stage
      cases stage <;> exact absurd rfl going
    · cases one
      have only : reports = [.reStarted] := handledOnce image handled (fun w => by rw [bytes]; exact lastReply w)
      refine ⟨not_not.mp going,by rw [only]; simp,?_⟩
      rw [log]
      refine accomplishedLater ?_ plain silent
      generalize now : latest s.log = session at stage
      cases stage with
      | failed running final other once =>
        have said := only.symm.trans (handledOnce image handled once)
        exact absurd (List.cons.inj said).1.symm other
      | restarted running bytes ops => exact ⟨_,now,ops⟩
    · exact ⟨rest,List.mem_append_left _ old,by rw [log]; exact accomplishedLater done plain silent⟩
  | next => exact .inl (by simp)
  | succeed => exact .inl (by simp)
  | finish | finishBehind | fail => exact absurd (by simp) going

/- What the run to the restart keeps, with the work that is left. -/
structure Underway (log : List Event) (image : Globals) (s : Sys Unit) (n : Nat) : Prop where
  flashing : ∃ talk past, Flashing image s talk ∧ load s + owed talk = n ∧ s.log = log ++ past ∧ Hopeful image s past talk ∧
    ∀ event ∈ past, Plain event
  sound : SoundFor (fun _ => image) s.log

theorem underwayStep {log : List Event} {image : Globals} {s t : Sys Unit} {n : Nat} {a : Action}
    (underway : Underway log image s n) (protocol : Protocol a)
    (ran : step (obliging (total image BLOCKS_PER_BANK)) s a = some t) : ∃ m < n, Underway log image t m := by
  obtain ⟨⟨talk,past,good,size,before,hopeful,quiet⟩,sound⟩ := underway
  obtain ⟨talk',more,writes,advance⟩ := protocolAdvance good protocol ran
  have less := flashingPays good protocol ran advance
  obtain ⟨good',move,_,after,plain,restarts⟩ := advance
  have hopeful' := hopefulStep good hopeful after plain (obligingStep ran after) move
  refine ⟨_,size ▸ less,⟨talk',past ++ more,good',rfl,?_,hopeful',?_⟩,?_⟩
  · rw [after,before,List.append_assoc]
  · intro event inside
    exact (List.mem_append.mp inside).elim (quiet event) (plain event)
  · rw [after]
    exact restartsSound sound plain restarts (fun _ _ _ _ => rfl)

/- A session of `image` has been completed since `s`, and nothing is under way. -/
structure Restarted (image : Globals) (s t : Sys Unit) (past : List Event) : Prop where
  log : t.log = s.log ++ past
  reported : .reported .reStarted ∈ past
  done : Accomplished image t.log
  plain : ∀ event ∈ past, Plain event
  sound : SoundFor (fun _ => image) t.log
  flashing : Flashing image t ⟨[],.rest⟩
  slot : t.slot = []

/-- A session that is under way is completed, and the restart is reported for `image`. -/
theorem restarts {image : Globals} {s : Sys Unit} {talk : Talk} (good : Flashing image s talk)
    (going : talk.turn ≠ .rest) (sound : SoundFor (fun _ => image) s.log) : ∃ as t past,
    Transition.Run (step (obliging (total image BLOCKS_PER_BANK))) (fun _ a => Protocol a) s as t ∧ Restarted image s t past := by
  obtain ⟨as,t,_,run,⟨⟨talk',past,good',_,log,hopeful,plain⟩,sound'⟩,stuck⟩ := Transition.runToEnd (Underway s.log image)
    (fun _ _ _ _ => underwayStep) ⟨⟨talk,[],good,rfl,(List.append_nil _).symm,.inl going,by simp⟩,sound⟩
  obtain ⟨slot,_⟩ := stuckLink good'.online stuck
  cases stuckRest good' stuck
  rcases hopeful with waits | ⟨f,one,_⟩ | ⟨_,reported,done⟩
  · exact absurd rfl waits
  · contradiction
  · exact ⟨as,t,past,run,log,reported,done,plain,sound',good',slot⟩

theorem clickRestarts (image : Globals) : ∃ s as t,
    step (obliging (total image BLOCKS_PER_BANK)) (connected image ()) .flash = some s ∧
    Transition.Run (step (obliging (total image BLOCKS_PER_BANK))) (fun _ a => Protocol a) s as t ∧
    .reported .reStarted ∈ t.log := by
  obtain ⟨s,clicked⟩ : ∃ s, step (obliging (total image BLOCKS_PER_BANK)) (connected image ()) .flash = some s := ⟨_,rfl⟩
  obtain ⟨good,_,log⟩ := flashingClick (flashingIdle (connectedIdle _ _) rfl) rfl clicked
  obtain ⟨as,t,past,run,restarted⟩ := restarts good (by simp) (log ▸ soundOther (soundNothing _) (by simp))
  exact ⟨s,as,t,clicked,run,by rw [restarted.log]; exact List.mem_append_right _ restarted.reported⟩

section Again
variable {T : Target τ} {s t : Sys τ}

/- The protocol changes nothing in the window but the block counter. -/
theorem protocolWindow {a : Action} (quiet : .timeout ∉ s.signals) (protocol : Protocol a) (ran : step T s a = some t) :
    .timeout ∉ t.signals ∧ t.window = {s.window with blockCntr := t.window.blockCntr} := by
  cases a with
  | deliver =>
    simp only [step,deliver] at ran
    split at ran <;> cases ran
    · rename_i signals _ found
      rw [found] at quiet
      exact ⟨fun inside => quiet (List.mem_cons_of_mem _ inside),MainWindow.serialDataWindow _ _⟩
    · rename_i found
      rw [found] at quiet
      exact absurd List.mem_cons_self quiet
  | burst n =>
    obtain ⟨_,ran⟩ := Option.ite_none_right_eq_some.mp ran
    cases ran
    exact ⟨by simpa using quiet,rfl⟩
  | slotWrite =>
    simp only [step,slotWrite] at ran
    split at ran <;> cases ran
    exact ⟨quiet,rfl⟩
  | transmit n =>
    obtain ⟨_,ran⟩ := Option.ite_none_right_eq_some.mp ran
    cases ran
    exact ⟨quiet,rfl⟩
  | arrive =>
    simp only [step,arrive] at ran
    split at ran <;> cases ran
    exact ⟨quiet,rfl⟩
  | consume =>
    obtain ⟨_,_,_,_,_,_,_,⟨_,_,rfl⟩ | ⟨_,rfl⟩⟩ := consumeCases ran <;> exact ⟨quiet,rfl⟩
  | execute =>
    obtain ⟨_,_,rfl⟩ := Option.map_eq_some_iff.mp ran
    exact ⟨quiet,rfl⟩
  | flash | fileOpen _ | connect | disconnect _ | writeTimeout _ _ | lose => exact protocol.elim

theorem protocolWindows {as : List Action} (quiet : .timeout ∉ s.signals)
    (run : Transition.Run (step T) (fun _ a => Protocol a) s as t) :
    .timeout ∉ t.signals ∧ t.window = {s.window with blockCntr := t.window.blockCntr} := by
  refine Transition.runInvariant (fun t => .timeout ∉ t.signals ∧ t.window = {s.window with blockCntr := t.window.blockCntr})
    (fun u a v before protocol now => ?_) run ⟨quiet,rfl⟩
  obtain ⟨quiet',same⟩ := protocolWindow before.1 protocol now
  refine ⟨quiet',?_⟩
  rw [before.2] at same
  exact same

/- Between sessions none is open. -/
theorem restClosed {image : Globals} (good : Flashing image s ⟨[],.rest⟩) : sessionOpen s.log = false := by
  have stage := good.stage
  cases now : latest s.log with
  | none =>
    rw [sessionOpen,now]
    rfl
  | some session =>
    rw [now] at stage
    cases stage with
    | closed ended =>
      refine Bool.eq_false_iff.mpr (fun opens => ?_)
      have running := (openSome now).mp opens
      have once := ended session rfl
      omega

end Again

/-- A session that is under way comes to its last request. -/
theorem lastRequest {image : Globals} {s : Sys Unit} {talk : Talk} {n : Nat} (good : Flashing image s talk)
    (going : talk.turn ≠ .rest) (size : load s + owed talk = n) (sound : SoundFor (fun _ => image) s.log) :
    ∃ as t checksum, Transition.Run (step (obliging (total image BLOCKS_PER_BANK))) (fun _ a => Protocol a) s as t ∧
      Flashing image t ⟨[],.asked .reStart checksum⟩ ∧ SoundFor (fun _ => image) t.log := by
  induction n using Nat.strongRecOn generalizing s talk with
  | ind n ih =>
    by_cases last : ∃ checksum, talk = ⟨[],.asked .reStart checksum⟩
    · obtain ⟨checksum,rfl⟩ := last
      exact ⟨[],s,checksum,.nil s,good,sound⟩
    by_cases more : ∃ a t, Protocol a ∧ step (obliging (total image BLOCKS_PER_BANK)) s a = some t
    · obtain ⟨a,t,protocol,now⟩ := more
      obtain ⟨talk',events,writes,advance⟩ := protocolAdvance good protocol now
      have less := flashingPays good protocol now advance
      obtain ⟨good',move,_,after,plain,restarts⟩ := advance
      have goes := (goingStep good going plain (obligingStep now after) move).resolve_right (fun ends => last ends.1)
      have sound' := restartsSound sound plain restarts (fun _ _ _ _ => rfl)
      rw [← after] at sound'
      obtain ⟨as,u,checksum,run,reached⟩ := ih _ (size ▸ less) good' goes rfl sound'
      exact ⟨a :: as,u,checksum,.cons protocol now run,reached⟩
    · have stuck : ∀ a, Protocol a → step (obliging (total image BLOCKS_PER_BANK)) s a = none := by
        intro a protocol
        cases now : step (obliging (total image BLOCKS_PER_BANK)) s a with
        | none => rfl
        | some t => exact absurd ⟨a,t,protocol,now⟩ more
      exact absurd (congrArg Talk.turn (stuckRest good stuck)) going

/- The slot writes all that it still has to write. -/
theorem slotEmptied {image : Globals} {T : Target Unit} {s : Sys Unit} {talk : Talk} (good : Flashing image s talk) :
    ∃ as t, Transition.Run (step T) (fun _ a => Protocol a) s as t ∧ Flashing image t talk ∧ t.slot = [] ∧ t.log = s.log := by
  generalize waiting : s.slot = slot
  induction slot generalizing s with
  | nil => exact ⟨[],s,.nil s,good,waiting,rfl⟩
  | cons ba slot ih =>
    have now : step T s .slotWrite = some {s with slot := slot, m_txBuf := s.m_txBuf ++ ba} := by
      simp only [step,slotWrite,waiting]
    have good' : Flashing image {s with slot := slot, m_txBuf := s.m_txBuf ++ ba} talk :=
      ⟨liveSlotWrite good.live now,good.online,good.stage,good.inPlace⟩
    obtain ⟨as,t,run,reached⟩ := ih good' rfl
    have protocol : Protocol .slotWrite := trivial
    exact ⟨.slotWrite :: as,t,.cons protocol now run,reached⟩

end HsspProgrammer.Completion
