import HsspProgrammer.Completion
import HsspProgrammer.Performing

/-! What the window tells the user of a session: for every order of the steps it is the
beginning of one fixed transcript, possibly ended by the failure that belongs to its
place, and nothing is told before the target has done it. -/
namespace HsspProgrammer.Transcript
open Ascii (Bytes)
open CommandLoop
open Conversation
open Exchange
open Loader (Globals NUM_BLOCKS)
open MainWindow (Report Window serialData)
open Programmer
open Sessions

def reportsOf (events : List Event) : List Report := events.filterMap (fun event => match event with
  | .reported report => some report
  | _ => none)

theorem reportsAppend (front back : List Event) : reportsOf (front ++ back) = reportsOf front ++ reportsOf back :=
  List.filterMap_append

theorem reportsPerformed (ops : List Op) : reportsOf (ops.map .performed) = [] := by
  rw [reportsOf,List.filterMap_map]
  exact List.filterMap_eq_nil_iff.mpr (fun _ _ => rfl)

theorem reportsActed (ba : List Answer) (reports : List Report) :
    reportsOf (.acted ba :: reports.map .reported) = reports := by
  rw [reportsOf,List.filterMap_cons,List.filterMap_map]
  exact List.filterMap_some

theorem reportsReads {events : List Event} (reads : ∀ event ∈ events, Event.Read event) : reportsOf events = [] := by
  refine List.filterMap_eq_nil_iff.mpr (fun event inside => ?_)
  have read := reads event inside
  cases event with
  | reported report => exact read.elim
  | _ => rfl

/- A dot for every second block after the first one. -/
def dots (k : Nat) : List Report := List.replicate (k / 2) .dot

def programming : List Report := [.initialized,.eraseCompleted]
def verifying : List Report := programming ++ dots (NUM_BLOCKS - 1) ++ [.complete,.verifying]

/- What has been told when a request is written, -/
def told : Req → List Report
  | .initial => []
  | .erase => [.initialized]
  | .program k _ => programming ++ dots k
  | .verify k _ => verifying ++ dots k
  | .secure _ => verifying ++ dots (NUM_BLOCKS - 1) ++ [.verified]
  | .secureVerify _ => verifying ++ dots (NUM_BLOCKS - 1) ++ [.verified,.securityStored]
  | .checksum => verifying ++ dots (NUM_BLOCKS - 1) ++ [.verified,.securityStored,.securityVerified]
  | .reStart => verifying ++ dots (NUM_BLOCKS - 1) ++ [.verified,.securityStored,.securityVerified,.checksumVerified]

/- and what is told when it fails. -/
def failure : Req → Report
  | .initial => .initializeFailed
  | .erase => .eraseFailed
  | .program _ _ | .verify _ _ => .blockFailed
  | .secure _ => .securityFailed
  | .secureVerify _ => .securityIncorrect
  | .checksum | .reStart => .checksumFailed

theorem badTold {r : Req} {argID : UInt8} (failed : argID = Ascii.one ∨ argID = Ascii.two) (other : r ≠ .reStart) (w : Window) :
    serialData w (reply r.cmdID argID) = ⟨w,[failure r],[]⟩ := by
  cases r with
  | reStart => exact absurd rfl other
  | _ => rcases failed with rfl | rfl <;> rfl

theorem dotsNext {w : Window} {k : Nat} (counted : w.blockCntr.toNat = k + 1) (more : k + 1 < NUM_BLOCKS)
    (last : MainWindow.Reaction) :
    dots (k + 1) = dots k ++ (MainWindow.blockReply w Ascii.plus Ascii.newline last).reports := by
  rw [MainWindow.blockReply,dif_pos ⟨rfl,rfl,by omega⟩]
  simp only [dots,counted]
  split
  · rename_i even
    rw [show (k + 1) / 2 = k / 2 + 1 by omega,List.replicate_succ']
  · rename_i odd
    rw [show (k + 1) / 2 = k / 2 by omega,List.append_nil]

/-- A good reply takes the transcript to the next request. -/
theorem goodTold {w : Window} {g : Globals} {r r' : Req} (fits : r.Fits) (counted : Counted w r) (next : r.next g = some r') :
    told r' = told r ++ (serialData w (reply r.cmdID r.good)).reports := by
  cases r with
  | reStart => contradiction
  | program k data =>
    cases Option.some.inj next
    change _ = programming ++ dots k ++ (serialData w (reply Ascii.c (blockArg k false))).reports
    by_cases more : k + 1 < NUM_BLOCKS
    · rw [goodBlock,if_pos more,if_pos more,List.append_assoc]
      exact congrArg (programming ++ ·) (dotsNext counted more _)
    · have last : k = NUM_BLOCKS - 1 := by
        have small := fits.1
        simp only [NUM_BLOCKS,BLOCKS_PER_BANK] at *
        omega
      rw [goodBlock,if_neg more,if_neg more,last]
      exact List.append_nil _
  | verify k data =>
    cases Option.some.inj next
    change _ = verifying ++ dots k ++ (serialData w (reply Ascii.d (blockArg k false))).reports
    by_cases more : k + 1 < NUM_BLOCKS
    · rw [goodBlock,if_pos more,if_pos more,List.append_assoc]
      exact congrArg (verifying ++ ·) (dotsNext counted more _)
    · have last : k = NUM_BLOCKS - 1 := by
        have small := fits.1
        simp only [NUM_BLOCKS,BLOCKS_PER_BANK] at *
        omega
      rw [goodBlock,if_neg more,if_neg more,last]
      rfl
  | initial | erase => cases Option.some.inj next; rfl
  | secure _ | secureVerify _ | checksum =>
    cases Option.some.inj next
    simp only [told,List.append_assoc]
    rfl

/- What a session has been told, and what the target has done for it by then. -/
inductive Told (session : Session) : Prop where
  | running (r : Req) (shown : reportsOf session.events = told r) (done : before session.image r <+: operations session.events)
  | failed (r : Req) (ops : List Op) (shown : reportsOf session.events = told r ++ [failure r])
      (done : operations session.events = before session.image r ++ ops)
      (wrong : Wrong r (total session.image BLOCKS_PER_BANK) ops)
  | restarted (shown : reportsOf session.events = told .reStart ++ [.reStarted])
      (done : operations session.events = expected session.image)

/- The same with what is under way. -/
inductive Shown : Option Session → Talk → Prop where
  | fresh : Shown none ⟨[],.rest⟩
  | asked {session r checksum} (shown : reportsOf session.events = told r) : Shown (some session) ⟨[],.asked r checksum⟩
  | answered {session r checksum f} (shown : reportsOf session.events = told r) :
      Shown (some session) ⟨[],.answered r checksum f⟩
  | failed {session f} (r : Req) (ops : List Op) (shown : reportsOf session.events = told r)
      (done : operations session.events = before session.image r ++ ops)
      (wrong : Wrong r (total session.image BLOCKS_PER_BANK) ops)
      (handled : ∀ w, serialData w (bytesOf f) = ⟨w,[failure r],[]⟩) : Shown (some session) ⟨[f],.rest⟩
  | restarted {session f} (shown : reportsOf session.events = told .reStart)
      (done : operations session.events = expected session.image) (bytes : bytesOf f = reply Ascii.x Ascii.zero) :
      Shown (some session) ⟨[f],.rest⟩
  | ended {session} (ends : Told session) : Shown (some session) ⟨[],.rest⟩

/- More of a session. -/
def extend (session : Session) (events : List Event) : Session := {session with events := session.events ++ events}

theorem extendReports (session : Session) (events : List Event) :
    reportsOf (extend session events).events = reportsOf session.events ++ reportsOf events := reportsAppend _ _

theorem extendOperations (session : Session) (events : List Event) :
    operations (extend session events).events = operations session.events ++ operations events := List.filterMap_append

theorem extendQuiet (session : Session) {events : List Event} (quiet : reportsOf events = [] ∧ operations events = []) :
    reportsOf (extend session events).events = reportsOf session.events ∧
    operations (extend session events).events = operations session.events := by
  rw [extendReports,extendOperations,quiet.1,quiet.2,List.append_nil,List.append_nil]
  exact ⟨rfl,rfl⟩

theorem toldQuiet {session : Session} {events : List Event} (quiet : reportsOf events = [] ∧ operations events = [])
    (told : Told session) : Told (extend session events) := by
  have same := extendQuiet session quiet
  cases told with
  | running r shown done => exact .running r (same.1.trans shown) (same.2 ▸ done)
  | failed r ops shown done wrong => exact .failed r ops (same.1.trans shown) (same.2.trans done) wrong
  | restarted shown done => exact .restarted (same.1.trans shown) (same.2.trans done)

theorem shownQuiet {session : Option Session} {talk : Talk} {events : List Event}
    (quiet : reportsOf events = [] ∧ operations events = []) (shown : Shown session talk) :
    Shown (session.map (extend · events)) talk := by
  have same := fun session => extendQuiet session quiet
  cases shown with
  | fresh => exact .fresh
  | asked shown => exact .asked ((same _).1.trans shown)
  | answered shown => exact .answered ((same _).1.trans shown)
  | failed r ops shown done wrong handled => exact .failed r ops ((same _).1.trans shown) ((same _).2.trans done) wrong handled
  | restarted shown done bytes => exact .restarted ((same _).1.trans shown) ((same _).2.trans done) bytes
  | ended ends => exact .ended (toldQuiet quiet ends)

section Steps
variable {τ : Type} {T : Target τ} {s t : Sys τ}

/- What the window tells is its reaction to the answer it acts on. -/
theorem actedReports {a : Action} {ba : List Answer} {reports : List Report} (ran : step T s a = some t)
    (log : t.log = s.log ++ .acted ba :: reports.map .reported) : reports = (serialData s.window (bytesOf ba)).reports := by
  have other : ∀ {events : List Event}, t.log = s.log ++ events → Event.acted ba ∉ events → False := fun log' none =>
    none (List.append_cancel_left (log'.symm.trans log) ▸ List.mem_cons_self)
  have nothing : t.log = s.log → False := fun same => other (same.trans (List.append_nil _).symm) List.not_mem_nil
  cases a with
  | deliver =>
    simp only [step,deliver] at ran
    split at ran <;> cases ran
    · rename_i ba' signals _ _
      obtain ⟨same,told⟩ := List.cons.inj (List.append_cancel_left log)
      cases same
      exact ((List.map_inj_right (fun _ _ same => Event.reported.inj same)).mp told).symm
    · exact (nothing rfl).elim
  | flash =>
    obtain ⟨_,ran⟩ := Option.ite_none_right_eq_some.mp ran
    cases ran
    exact (other rfl (by simp [MainWindow.targetFlash])).elim
  | consume =>
    obtain ⟨b,queue,fw,cause,events,_,_,next⟩ := consumeCases ran
    rcases next with ⟨_,_,rfl⟩ | ⟨kind,rfl⟩
    · exact (nothing rfl).elim
    · refine (other rfl ?_).elim
      rcases kind with ⟨_,_,_,rfl,_⟩ | ⟨_,rfl,_⟩ <;> simp
  | execute =>
    obtain ⟨outcome,_,rfl⟩ := executeCases ran
    exact (other rfl (by simp)).elim
  | slotWrite | arrive =>
    simp only [step,slotWrite,arrive] at ran
    split at ran <;> cases ran
    exact (nothing rfl).elim
  | fileOpen _ | transmit _ | burst _ | connect | disconnect _ | writeTimeout _ _ | lose =>
    obtain ⟨_,ran⟩ := Option.ite_none_right_eq_some.mp ran
    cases ran
    exact (nothing rfl).elim

theorem shownReport {f : List Answer} {spent : List (List Answer)} {turn : Turn} {ba : List Answer} {reports : List Report}
    {session : Option Session} (shown : Shown session ⟨f :: spent,turn⟩)
    (handled : ∀ w, serialData w (bytesOf f) = ⟨w,reports,[]⟩) :
    Shown (session.map (extend · (.acted ba :: reports.map .reported))) ⟨spent,turn⟩ := by
  have silent := (operationsActed ba reports).1
  have shows' := reportsActed ba reports
  cases shown with
  | failed r ops shown done wrong once =>
    cases handledOnce Loader.noGlobals handled once
    refine .ended (.failed r ops ?_ ?_ wrong)
    · rw [extendReports,shown,shows']
    · rw [extendOperations,silent,List.append_nil]
      exact done
  | restarted shown done bytes =>
    have once : reports = [.reStarted] := handledOnce Loader.noGlobals handled (fun w => by rw [bytes]; exact lastReply w)
    refine .ended (.restarted ?_ ?_)
    · rw [extendReports,shown,shows',once]
    · rw [extendOperations,silent,List.append_nil]
      exact done

/-- One step takes the transcript on, or leaves it alone. -/
theorem shownStep {image : Globals} {a : Action} {talk talk' : Talk} {events : List Event} {writes : List Bytes}
    (good : Flashing image s talk) (own : ∀ session, latest s.log = some session → finals session.events = 0 → session.image = image)
    (shown : Shown (latest s.log) talk) (ran : step T s a = some t) (advance : Advance image s t talk talk' events writes) :
    Shown (latest t.log) talk' := by
  have stage := good.stage
  have few := stageAnswers stage
  have log := advance.log
  have live := good.live
  have whole := latestAppend s.log advance.plain
  change latest (s.log ++ events) = (latest s.log).map (extend · events) at whole
  rw [← log] at whole
  rw [whole]
  have plain := advance.plain
  have move := advance.move
  generalize now : latest s.log = session at *
  cases move with
  | stay _ _ reads => exact shownQuiet ⟨reportsReads reads,(operationsReads reads).1⟩ shown
  | garble many => exact absurd many (by omega)
  | click | clickBehind => exact absurd rfl (plain _ (List.mem_singleton_self _) _ _)
  | report same handled => exact shownReport shown handled
  | @next r r' checksum f ba reports next same running =>
    cases shown with
    | answered shown =>
      obtain ⟨_,_,_,fits,counted,_,bytes,_⟩ := live.holds
      have told' := goodTold fits counted next
      have reaction := actedReports ran log
      rw [← MainWindow.serialDataHead,bytesOf,← List.map_take,same,← bytesOf,bytes] at reaction
      refine .asked ?_
      rw [extendReports,shown,reportsActed,told',reaction]
  | succeed other bytes =>
    cases shown with
    | asked shown =>
      refine .answered ?_
      rw [extendReports,shown,reportsPerformed,List.append_nil]
  | finish bytes =>
    cases shown with
    | @asked session _ _ shown =>
      cases stage with
      | asked running place ops right summed =>
        refine .restarted ?_ ?_ bytes
        · rw [extendReports,shown]
          exact List.append_nil _
        · change _ = expected session.image
          rw [extendOperations,ops,own session rfl running]
          simp only [before,expected,List.append_assoc]
          rfl
  | finishBehind => cases shown
  | @fail spent r checksum f ops other bytes wrong _ =>
    cases shown with
    | @asked session _ _ shown =>
      cases stage with
      | asked running place done right summed =>
        refine .failed r ops ?_ ?_ ?_ (fun w => ?_)
        · rw [extendReports,shown,reportsPerformed,List.append_nil]
        · change _ = before session.image r ++ ops
          rw [extendOperations,done,operationsPerformed,own session rfl running]
        · change Wrong r (total session.image BLOCKS_PER_BANK) ops
          rw [own session rfl running]
          refine wrong.imp id (fun mismatch => ?_)
          obtain ⟨rfl,value,read,differs⟩ := mismatch
          exact ⟨rfl,value,read,by rwa [← show checksum = total image BLOCKS_PER_BANK from summed]⟩
        · rcases bytes with bytes | bytes <;> rw [bytes]
          · exact badTold (.inl rfl) other w
          · exact badTold (.inr rfl) other w

/- What a run keeps. -/
def Tells (s : Sys τ) : Prop := ∃ image talk, Flashing image s talk ∧ Shown (latest s.log) talk ∧
  ∀ session, latest s.log = some session → finals session.events = 0 → session.image = image

theorem tellsStep {a : Action} (tells : Tells s) (kept : UnsentKept s a) (ran : step T s a = some t) : Tells t := by
  obtain ⟨image,talk,good,shown,own⟩ := tells
  by_cases click : a = .flash
  · subst click
    obtain ⟨good',_,log⟩ := flashingClick good kept ran
    refine ⟨_,_,good',?_,fun session now _ => ?_⟩
    · rw [log,latestClick]
      exact .asked rfl
    · rw [log,latestClick] at now
      cases Option.some.inj now
      rfl
  · obtain ⟨talk',events,writes,advance⟩ := flashingStep good kept click ran
    refine ⟨image,talk',advance.flashing,shownStep good own shown ran advance,fun session now running => ?_⟩
    rw [advance.log] at now
    obtain ⟨old,known,quiet,same,_⟩ := runningBefore advance.plain now running
    rw [← same]
    exact own old known quiet

theorem shownTold {session : Session} {talk : Talk} {image : Globals} {n : Nat} (shown : Shown (some session) talk)
    (stage : Stage image n (some session) talk) (own : finals session.events = 0 → session.image = image) : Told session := by
  cases shown with
  | asked shown =>
    cases stage with
    | asked running _ ops =>
      rw [← own running] at ops
      exact .running _ shown (ops ▸ List.prefix_refl _)
  | answered shown =>
    cases stage with
    | answered _ running _ ops =>
      rw [← own running] at ops
      exact .running _ shown (ops ▸ List.prefix_append _ _)
  | failed r ops shown done => exact .running r shown (done ▸ List.prefix_append _ _)
  | restarted shown done => exact .running .reStart shown (done ▸ ⟨[.targetReStart],by simp [before,expected]⟩)
  | ended ends => exact ends

/-- At every moment of every session, whatever the target does: the window has told the
beginning of the transcript up to some request, all of which has been done, or it has
ended it with the failure of that request, which did fail. -/
theorem reportsTrue {as : List Action} (idle : Idle s) (fresh : s.log = []) (run : Transition.Run (step T) UnsentKept s as t) :
    (∀ session, latest t.log = some session → Told session) ∧
    Performing.Performed T s.firmware.target (operations t.log) t.firmware.target := by
  have start : Tells s := by
    refine ⟨_,_,flashingIdle idle fresh,?_,by simp [fresh,latest]⟩
    rw [fresh]
    exact .fresh
  obtain ⟨image,talk,good,shown,own⟩ := Transition.runInvariant Tells (fun _ _ _ tells kept ran => tellsStep tells kept ran) run start
  refine ⟨fun session now => ?_,Performing.performedRun fresh idle.top run⟩
  have stage := good.stage
  rw [now] at shown stage
  exact shownTold shown stage (own session now)

/- A whole session of a blank image. -/
theorem reportsTrueBlank : ∃ as t,
    Transition.Run (step (obliging (total Loader.noGlobals BLOCKS_PER_BANK))) UnsentKept (connected Loader.noGlobals ()) as t ∧
    .reported .reStarted ∈ t.log ∧ (∀ session, latest t.log = some session → Told session) ∧
    Performing.Performed (obliging (total Loader.noGlobals BLOCKS_PER_BANK)) () (operations t.log) t.firmware.target := by
  obtain ⟨s,as,t,clicked,run,reported⟩ := Completion.clickRestarts Loader.noGlobals
  have allowed : UnsentKept (connected Loader.noGlobals ()) .flash := rfl
  have whole := Transition.Run.cons allowed clicked
    (Transition.runWeaken (fun s a protocol => undisturbedKept s a (by cases a <;> trivial)) run)
  exact ⟨_,t,whole,reported,reportsTrue (connectedIdle _ _) rfl whole⟩

end Steps
end HsspProgrammer.Transcript
