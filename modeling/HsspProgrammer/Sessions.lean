import HsspProgrammer.Conversation

/-! Flashing sessions. A session goes through its requests in one fixed order, so the
request under way tells which operations the target has performed for it; the data of
each request are read from the loaded image when it is written. -/
namespace HsspProgrammer.Sessions
open Ascii (Bytes)
open Loader (Globals)
open MainWindow (Report)
open CommandLoop
open Programmer Exchange Conversation

variable {τ : Type}

section Order

def start : List Op := [.targetInitialize false,.targetSiliconIDVerify false,.targetErase false]

def programmed (image : Globals) (n : Nat) : List Op :=
  (List.range n).flatMap (fun k => [.targetLoad (row image k),.targetBlockProgram k (row image k) false])

def verified (image : Globals) (n : Nat) : List Op :=
  (List.range n).map (fun k => .targetBlockVerify k (row image k) false)

def security (image : Globals) : Bytes := (securityRow image).take SECURITY_BYTES_PER_BANK

/- The sum of the first `n` blocks of an image. -/
def total (image : Globals) (n : Nat) : UInt16 := sum ((List.range n).flatMap (row image))

def passes (image : Globals) : List Op :=
  start ++ programmed image BLOCKS_PER_BANK ++ verified image BLOCKS_PER_BANK

/-- The operations of a session that ends with the restart. -/
def expected (image : Globals) : List Op :=
  passes image ++
  [.targetSecurityFlash (security image) false,
   .targetSecurityVerify (security image) false,
   .targetBankChecksumGet (some (total image BLOCKS_PER_BANK)),
   .targetReStart]

/- The operations performed before a request is served. -/
def before (image : Globals) : Req → List Op
  | .initial => []
  | .erase => [.targetInitialize false,.targetSiliconIDVerify false]
  | .program k _ => start ++ programmed image k
  | .verify k _ => start ++ programmed image BLOCKS_PER_BANK ++ verified image k
  | .secure _ => passes image
  | .secureVerify _ => passes image ++ [.targetSecurityFlash (security image) false]
  | .checksum => passes image ++
    [.targetSecurityFlash (security image) false,.targetSecurityVerify (security image) false]
  | .reStart => passes image ++
    [.targetSecurityFlash (security image) false,.targetSecurityVerify (security image) false,
     .targetBankChecksumGet (some (total image BLOCKS_PER_BANK))]

/- The running checksum of the firmware when a request is served. -/
def Summed (image : Globals) (checksum : UInt16) : Req → Prop
  | .initial | .erase | .program 0 _ => True
  | .program k _ => checksum = total image k
  | _ => checksum = total image BLOCKS_PER_BANK

/- The data of a request are those of the image; only 32 security bytes are used. -/
def Matches (image : Globals) : Req → Prop
  | .program k data | .verify k data => data = row image k
  | .secure data | .secureVerify data => data.take SECURITY_BYTES_PER_BANK = security image
  | _ => True

/- How many writes a session has made when a request is the last one. -/
def count : Req → Nat
  | .initial => 1
  | .erase => 2
  | .program k _ => 4 + k
  | .verify k _ => 133 + k
  | .secure _ => 262
  | .secureVerify _ => 264
  | .checksum => 265
  | .reStart => 266

theorem totalNext (image : Globals) (k : Nat) : total image (k + 1) = total image k + sum (row image k) := by
  rw [total,List.range_succ,List.flatMap_append,sumAppend,List.flatMap_singleton,← total]

theorem programmedNext (image : Globals) (k : Nat) : programmed image (k + 1) =
    programmed image k ++ [.targetLoad (row image k),.targetBlockProgram k (row image k) false] := by
  rw [programmed,List.range_succ,List.flatMap_append,List.flatMap_singleton,← programmed]

theorem verifiedNext (image : Globals) (k : Nat) : verified image (k + 1) =
    verified image k ++ [.targetBlockVerify k (row image k) false] := by
  rw [verified,List.range_succ,List.map_append,List.map_singleton,← verified]

/-- A request that succeeds leaves what its successor finds. -/
theorem beforeNext {image g : Globals} {r r' : Req} {checksum : UInt16} (fits : r.Fits) (right : Matches image r)
    (summed : Summed image checksum r) (next : r.next g = some r') :
    before image r' = before image r ++ r.performed checksum ∧ Summed image (r.exit checksum) r' := by
  cases r with
  | initial => cases Option.some.inj next; exact ⟨rfl,trivial⟩
  | erase => cases Option.some.inj next; exact ⟨rfl,trivial⟩
  | program k data =>
    cases Option.some.inj next
    cases right
    have exit : (Req.program k (row image k)).exit checksum = total image (k + 1) := by
      rw [totalNext]
      cases k with
      | zero => rfl
      | succ k => rw [← (show checksum = total image (k + 1) from summed)]; rfl
    have ops : start ++ programmed image (k + 1) =
        before image (.program k (row image k)) ++ (Req.program k (row image k)).performed checksum := by
      rw [programmedNext,before,List.append_assoc]
      rfl
    by_cases more : k + 1 < Loader.NUM_BLOCKS
    · rw [if_pos more,exit,← ops]
      exact ⟨rfl,rfl⟩
    · have last : k + 1 = BLOCKS_PER_BANK := by
        have small := fits.1
        simp only [Loader.NUM_BLOCKS,BLOCKS_PER_BANK] at *
        omega
      rw [if_neg more,exit,← ops,last]
      exact ⟨List.append_nil _,rfl⟩
  | verify k data =>
    cases Option.some.inj next
    cases right
    have ops : start ++ programmed image BLOCKS_PER_BANK ++ verified image (k + 1) =
        before image (.verify k (row image k)) ++ (Req.verify k (row image k)).performed checksum := by
      rw [verifiedNext,before]
      simp only [List.append_assoc]
      rfl
    by_cases more : k + 1 < Loader.NUM_BLOCKS
    · rw [if_pos more,← ops]
      exact ⟨rfl,summed⟩
    · have last : k + 1 = BLOCKS_PER_BANK := by
        have small := fits.1
        simp only [Loader.NUM_BLOCKS,BLOCKS_PER_BANK] at *
        omega
      rw [if_neg more,← ops,last]
      exact ⟨rfl,summed⟩
  | secure data =>
    cases Option.some.inj next
    have same : data.take SECURITY_BYTES_PER_BANK = security image := right
    exact ⟨by rw [before,before,Req.performed,same],summed⟩
  | secureVerify data =>
    cases Option.some.inj next
    have same : data.take SECURITY_BYTES_PER_BANK = security image := right
    exact ⟨by rw [before,before,Req.performed,same,List.append_assoc]; rfl,summed⟩
  | checksum =>
    cases Option.some.inj next
    have same : checksum = total image BLOCKS_PER_BANK := summed
    exact ⟨by rw [before,before,Req.performed,same,List.append_assoc]; rfl,summed⟩
  | reStart => contradiction

theorem countNext {g : Globals} {r r' : Req} (fits : r.Fits) (next : r.next g = some r') :
    count r' = count r + r'.pieces.length := by
  cases r with
  | program k data =>
    cases Option.some.inj next
    split
    · simp [count,Req.pieces,Req.commanded,Req.payload]
      omega
    · have small := fits.1
      simp [count,Req.pieces,Req.commanded,Req.payload]
      simp only [Loader.NUM_BLOCKS,BLOCKS_PER_BANK] at *
      omega
  | verify k data =>
    cases Option.some.inj next
    split
    · simp [count,Req.pieces,Req.commanded,Req.payload]
      omega
    · have small := fits.1
      simp [count,Req.pieces,Req.commanded,Req.payload]
      simp only [Loader.NUM_BLOCKS,BLOCKS_PER_BANK] at *
      omega
  | reStart => contradiction
  | _ => cases Option.some.inj next; rfl

end Order

section Log

theorem latestAppend (log : List Event) {events : List Event} (plain : ∀ event ∈ events, Plain event) :
    latest (log ++ events) =
      (latest log).map (fun session => {session with events := session.events ++ events}) := by
  induction events generalizing log with
  | nil =>
    rw [List.append_nil]
    cases latest log <;> simp
  | cons event rest ih =>
    have other := plain event List.mem_cons_self
    have now : latest (log ++ [event]) =
        (latest log).map (fun session => {session with events := session.events ++ [event]}) := by
      rw [latest,List.foldl_append,← latest]
      cases event with
      | click image write => exact absurd rfl (other image write)
      | _ => rfl
    have split : log ++ event :: rest = log ++ [event] ++ rest := by simp
    rw [split,ih _ (fun event inside => plain event (List.mem_cons_of_mem _ inside)),now]
    cases latest log <;> simp

theorem latestClick (log : List Event) (image : Globals) (write : Nat) :
    latest (log ++ [.click image write]) = some ⟨image,write,[]⟩ := by
  rw [latest,List.foldl_append]
  rfl

theorem openSome {log : List Event} {session : Session} (now : latest log = some session) :
    sessionOpen log = true ↔ finals session.events = 0 := by
  rw [sessionOpen,now]
  simp

theorem finalsPerformed (ops : List Op) : finals (ops.map .performed) = 0 := by
  rw [finals,List.countP_map]
  exact List.countP_eq_zero.mpr (fun op _ h => by cases h)

theorem operationsReads {events : List Event} (reads : ∀ event ∈ events, Event.Read event) :
    operations events = [] ∧ finals events = 0 := by
  constructor
  · refine List.filterMap_eq_nil_iff.mpr (fun event inside => ?_)
    have read := reads event inside
    cases event with
    | performed op => exact read.elim
    | _ => rfl
  · refine List.countP_eq_zero.mpr (fun event inside h => ?_)
    have read := reads event inside
    cases event with
    | reported report => exact read.elim
    | _ => cases h

theorem operationsActed (ba : List Answer) (reports : List Report) :
    operations (.acted ba :: reports.map .reported) = [] ∧
    finals (.acted ba :: reports.map .reported) = reports.countP Report.final := by
  constructor
  · refine List.filterMap_eq_nil_iff.mpr (fun event inside => ?_)
    rcases List.mem_cons.mp inside with rfl | inside
    · rfl
    · obtain ⟨_,_,rfl⟩ := List.mem_map.mp inside
      rfl
  · rw [finals,List.countP_cons_of_neg (by simp [Event.isFinal]),List.countP_map]
    rfl

end Log

section Verdict

/-- Whenever the restart is reported, the target has done for the session exactly what
`image` asks for. -/
def SoundFor (image : Session → Globals) (log : List Event) : Prop :=
  ∀ front back, log = front ++ .reported .reStarted :: back →
    ∃ session, latest front = some session ∧ operations session.events = expected (image session)

/-- The image of a session is the one that was loaded when Flash was clicked. -/
def Sound (log : List Event) : Prop := SoundFor Session.image log

theorem soundNothing (image : Session → Globals) : SoundFor image [] := by
  intro front back split
  simp at split

theorem soundAppend {image : Session → Globals} {log events : List Event} (sound : SoundFor image log)
    (now : ∀ front back, events = front ++ .reported .reStarted :: back →
      ∃ session, latest (log ++ front) = some session ∧ operations session.events = expected (image session)) :
    SoundFor image (log ++ events) :=
  Transition.occursAppend sound now

/-- Events without that report say nothing new. -/
theorem soundOther {image : Session → Globals} {log events : List Event} (sound : SoundFor image log)
    (other : Event.reported .reStarted ∉ events) : SoundFor image (log ++ events) :=
  Transition.occursOther sound other

/- Where the session of the log stands when `n` writes have been made and its data
are those of `image`. -/
inductive Stage (image : Globals) (n : Nat) : Option Session → Talk → Prop where
  | closed {session} (ended : ∀ last, session = some last → finals last.events = 1) :
      Stage image n session ⟨[],.rest⟩
  | asked {session : Session} {r checksum} (running : finals session.events = 0)
      (place : n = session.write + count r) (ops : operations session.events = before image r)
      (right : Matches image r) (summed : Summed image checksum r) :
      Stage image n (some session) ⟨[],.asked r checksum⟩
  | answered {session : Session} {r f} (checksum : UInt16) (running : finals session.events = 0)
      (place : n = session.write + count r)
      (ops : operations session.events = before image r ++ r.performed checksum)
      (right : Matches image r) (summed : Summed image checksum r) :
      Stage image n (some session) ⟨[],.answered r (r.exit checksum) f⟩
  | failed {session : Session} {f report} (running : finals session.events = 0)
      (final : report.final = true) (other : report ≠ .reStarted)
      (handled : ∀ w, MainWindow.serialData w (bytesOf f) = ⟨w,[report],[]⟩) :
      Stage image n (some session) ⟨[f],.rest⟩
  | restarted {session : Session} {f} (running : finals session.events = 0)
      (bytes : bytesOf f = reply Ascii.x Ascii.zero) (ops : operations session.events = expected image) :
      Stage image n (some session) ⟨[f],.rest⟩

/- What is still to be sent is what `image` has. A block is read for the last time in
the verify pass, where block `k` is written with write `133 + k` of the session; the
security bytes are read for the last time with write 264. -/
structure InPlace (image : Globals) (n : Nat) (write : Nat) (g : Globals) : Prop where
  blocks : ∀ k < BLOCKS_PER_BANK, n < write + 133 + k → row g k = row image k
  bits : n < write + 264 → security g = security image

def Talk.Fits (talk : Talk) : Prop :=
  match talk.turn with
  | .asked r _ | .answered r _ _ => r.Fits
  | _ => True

theorem liveFits {whole : Bool} {s : Sys τ} {talk : Talk} (live : Live whole s talk) : Talk.Fits talk := by
  have holds := live.holds
  unfold Talk.Fits
  split
  · rename_i turn
    rw [turn] at holds
    exact holds.1.fits
  · rename_i turn
    rw [turn] at holds
    exact holds.2.2.2.1
  · trivial

theorem nextMatches {image g : Globals} {r r' : Req} {n write : Nat} (fits : r.Fits)
    (place : n = write + count r) (inPlace : InPlace image n write g) (next : r.next g = some r') :
    Matches image r' := by
  obtain ⟨blocks,bits⟩ := inPlace
  cases r with
  | erase =>
    cases Option.some.inj next
    exact blocks 0 (by decide) (by simp only [count] at place; omega)
  | program k data =>
    cases Option.some.inj next
    have small := fits.1
    simp only [BLOCKS_PER_BANK,count] at small place
    split
    · rename_i more
      exact blocks (k + 1) more (by omega)
    · exact blocks 0 (by decide) (by omega)
  | verify k data =>
    cases Option.some.inj next
    have small := fits.1
    simp only [BLOCKS_PER_BANK,count] at small place
    split
    · rename_i more
      exact blocks (k + 1) more (by omega)
    · exact bits (by omega)
  | secure data =>
    cases Option.some.inj next
    exact bits (by simp only [count] at place; omega)
  | reStart => contradiction
  | _ => cases Option.some.inj next; trivial

theorem stageQuiet {image : Globals} {n : Nat} {session : Option Session} {talk : Talk} {events : List Event}
    (stage : Stage image n session talk) (silent : operations events = [] ∧ finals events = 0) :
    Stage image n (session.map (fun session => {session with events := session.events ++ events})) talk := by
  have ops : ∀ old, operations (old ++ events) = operations old := by
    intro old
    rw [operations,List.filterMap_append,← operations,← operations,silent.1,List.append_nil]
  have same : ∀ old, finals (old ++ events) = finals old := by
    intro old
    rw [finals,List.countP_append,← finals,← finals,silent.2,Nat.add_zero]
  cases stage with
  | closed ended =>
    refine .closed (fun last now => ?_)
    obtain ⟨old,known,rfl⟩ := Option.map_eq_some_iff.mp now
    rw [same]
    exact ended old known
  | asked running place done right summed =>
    exact .asked (by rw [same]; exact running) place (by rw [ops]; exact done) right summed
  | answered checksum running place done right summed =>
    exact .answered checksum (by rw [same]; exact running) place (by rw [ops]; exact done) right summed
  | failed running final other handled => exact .failed (by rw [same]; exact running) final other handled
  | restarted running bytes done => exact .restarted (by rw [same]; exact running) bytes (by rw [ops]; exact done)

theorem stageAnswers {image : Globals} {n : Nat} {session : Option Session} {talk : Talk}
    (stage : Stage image n session talk) :
    talk.answers.length ≤ 1 := by
  cases stage <;> simp [Talk.answers,Turn.answer]

theorem handledOnce {f : List Answer} {reports reports' : List Report} (g : Globals)
    (one : ∀ w, MainWindow.serialData w (bytesOf f) = ⟨w,reports,[]⟩)
    (other : ∀ w, MainWindow.serialData w (bytesOf f) = ⟨w,reports',[]⟩) : reports = reports' := by
  have same := (one ⟨g,0,false,false⟩).symm.trans (other ⟨g,0,false,false⟩)
  exact (MainWindow.Reaction.mk.inj same).2.1

/- The restart is reported once everything has been done as `image` says. -/
def Restarts (image : Globals) (log events : List Event) : Prop :=
  ∀ front back, events = front ++ .reported .reStarted :: back →
    ∃ session, latest log = some session ∧ finals session.events = 0 ∧
      operations (session.events ++ front) = expected image

theorem restartsOther {image : Globals} {log events : List Event} (other : Event.reported .reStarted ∉ events) :
    Restarts image log events :=
  fun front back split => absurd (by rw [split]; simp) other

/-- A move of the conversation other than a click takes the session one stage further. -/
theorem stageMove {image g : Globals} {n : Nat} {log events : List Event} {writes : List Bytes} {talk talk' : Talk}
    (stage : Stage image n (latest log) talk) (fits : Talk.Fits talk)
    (inPlace : ∀ session, latest log = some session → finals session.events = 0 → InPlace image n session.write g)
    (plain : ∀ event ∈ events, Plain event) (move : Move g n talk events writes talk') :
    Stage image (n + writes.length) (latest (log ++ events)) talk' ∧ Restarts image log events := by
  have few := stageAnswers stage
  generalize now : latest log = session at stage
  have clicked : ¬ ∀ event ∈ [Event.click g n], Plain event :=
    fun plain => plain _ (List.mem_singleton_self _) g n rfl
  cases move with
  | stay _ _ reads =>
    rw [latestAppend log (readsPlain reads),now]
    refine ⟨stageQuiet stage (operationsReads reads),restartsOther (fun inside => ?_)⟩
    exact reads _ inside
  | garble many => exact absurd many (by omega)
  | click spent checksum => exact absurd plain clicked
  | clickBehind spent checksum => exact absurd plain clicked
  | @report f spent turn ba reports same handled =>
    obtain ⟨silent,counted⟩ := operationsActed ba reports
    rw [latestAppend log (actedPlain ba reports),now]
    cases stage with
    | @failed session _ report running final other once =>
      cases handledOnce g handled once
      refine ⟨.closed (fun last known => ?_),restartsOther (by simp [other.symm])⟩
      cases Option.some.inj known
      rw [finals,List.countP_append,← finals,← finals,running,counted]
      simp [final]
    | @restarted session _ running bytes done =>
      have once : reports = [.reStarted] := handledOnce g handled (fun w => by rw [bytes]; exact lastReply w)
      subst once
      refine ⟨.closed (fun last known => ?_),fun front back split => ?_⟩
      · cases Option.some.inj known
        rw [finals,List.countP_append,← finals,← finals,running,counted]
        rfl
      · have first : front = [.acted ba] := by
          cases front with
          | nil => cases split
          | cons event front =>
            obtain ⟨rfl,split⟩ := List.cons.inj split
            cases front with
            | nil => rfl
            | cons event front => simp at split
        subst first
        exact ⟨session,now,running,(List.filterMap_append).trans ((List.append_nil _).trans done)⟩
  | @next r r' checksum f ba reports next same running =>
    obtain ⟨silent,counted⟩ := operationsActed ba reports
    rw [latestAppend log (actedPlain ba reports),now]
    have none : reports.countP Report.final = 0 :=
      List.countP_eq_zero.mpr (fun report inside => by rw [running report inside]; simp)
    have other : Event.reported .reStarted ∉ .acted ba :: reports.map Event.reported := by
      intro inside
      rcases List.mem_cons.mp inside with inside | inside
      · cases inside
      · obtain ⟨report,member,same⟩ := List.mem_map.mp inside
        cases same
        exact absurd (running _ member) (by decide)
    cases stage with
    | @answered session _ _ summed_before quiet place ops right summed =>
      obtain ⟨reached,summed'⟩ := beforeNext fits right summed next
      have right' := nextMatches fits place (inPlace session now quiet) next
      refine ⟨.asked ?_ ?_ ?_ right' summed',restartsOther other⟩
      · rw [finals,List.countP_append,← finals,← finals,quiet,counted,none]
      · rw [countNext fits next,place,Nat.add_assoc]
      · change operations (session.events ++ _) = _
        rw [operations,List.filterMap_append,← operations,← operations,silent,List.append_nil,ops,reached]
  | @succeed spent r checksum f other bytes =>
    rw [latestAppend log (performedPlain _),now]
    cases stage with
    | @asked session _ _ running place ops right summed =>
      refine ⟨.answered checksum ?_ place ?_ right summed,restartsOther (by simp)⟩
      · rw [finals,List.countP_append,← finals,← finals,running,finalsPerformed]
      · change operations (session.events ++ _) = _
        rw [operations,List.filterMap_append,← operations,← operations,operationsPerformed,ops]
  | @finish spent checksum f bytes =>
    rw [latestAppend log plain,now]
    cases stage with
    | @asked session _ _ running place ops right summed =>
      refine ⟨.restarted ?_ bytes ?_,restartsOther (by simp)⟩
      · rw [finals,List.countP_append,← finals,running]
        rfl
      · change operations (session.events ++ _) = _
        rw [operations,List.filterMap_append,← operations,ops,before,List.append_assoc,expected]
        rfl
  | finishBehind bytes => cases stage
  | @fail spent r checksum f ops other bytes wrong _ =>
    rw [latestAppend log (performedPlain _),now]
    cases stage with
    | @asked session _ _ running place done right summed =>
      have quiet : finals (session.events ++ ops.map .performed) = 0 := by
        rw [finals,List.countP_append,← finals,← finals,running,finalsPerformed]
      refine ⟨?_,restartsOther (by simp)⟩
      rcases bytes with bytes | bytes
      · obtain ⟨report,final,different,handled⟩ := badReply (.inl rfl) other
        exact .failed quiet final different (fun w => by rw [bytes]; exact handled w)
      · obtain ⟨report,final,different,handled⟩ := badReply (.inr rfl) other
        exact .failed quiet final different (fun w => by rw [bytes]; exact handled w)

end Verdict

section Runs
variable {T : Target τ}

/- What holds of every state of a run in which sessions do not overlap. -/
structure Flashing (image : Globals) (s : Sys τ) (talk : Talk) : Prop where
  live : Live true s talk
  online : s.online = true
  stage : Stage image s.written.length (latest s.log) talk
  inPlace : ∀ session, latest s.log = some session → finals session.events = 0 →
    InPlace image s.written.length session.write s.window.globals

/- Flash is clicked between sessions only, and File/Open in a session leaves alone
what the session has still to send. -/
def UnsentKept (s : Sys τ) : Action → Prop
  | .flash => sessionOpen s.log = false
  | .fileOpen choice => ∀ session, latest s.log = some session → finals session.events = 0 →
    InPlace s.window.globals s.written.length session.write (MainWindow.fileOpen s.window choice).globals
  | a => Connected a

theorem inPlaceLater {image g : Globals} {n m write : Nat} (later : n ≤ m) (kept : InPlace image n write g) :
    InPlace image m write g :=
  ⟨fun k inside soon => kept.blocks k inside (by omega),fun soon => kept.bits (by omega)⟩

theorem inPlaceTrans {image g g' : Globals} {n write : Nat} (kept : InPlace image n write g)
    (still : InPlace g n write g') : InPlace image n write g' :=
  ⟨fun k inside soon => (still.blocks k inside soon).trans (kept.blocks k inside soon),
   fun soon => (still.bits soon).trans (kept.bits soon)⟩

theorem clickBetween {image : Globals} {s : Sys τ} {talk : Talk} (good : Flashing image s talk)
    (shut : sessionOpen s.log = false) : talk = ⟨[],.rest⟩ := by
  have stage := good.stage
  generalize now : latest s.log = session at stage
  have ended : ∀ {session : Session}, latest s.log = some session → finals session.events = 0 → False := by
    intro session now running
    rw [(openSome now).mpr running] at shut
    contradiction
  cases stage with
  | closed => rfl
  | asked running => exact (ended now running).elim
  | answered checksum running => exact (ended now running).elim
  | failed running => exact (ended now running).elim
  | restarted running => exact (ended now running).elim

/-- A session that is running after plain events was running before them. -/
theorem runningBefore {log events : List Event} {session : Session} (plain : ∀ event ∈ events, Plain event)
    (now : latest (log ++ events) = some session) (running : finals session.events = 0) :
    ∃ old, latest log = some old ∧ finals old.events = 0 ∧ old.image = session.image ∧ old.write = session.write := by
  rw [latestAppend _ plain] at now
  obtain ⟨old,known,rfl⟩ := Option.map_eq_some_iff.mp now
  refine ⟨old,known,?_,rfl,rfl⟩
  change finals (old.events ++ events) = 0 at running
  rw [finals,List.countP_append] at running
  rw [finals]
  omega

/-- What a step leaves in place; a File/Open is judged by what it changes. -/
theorem inPlaceStep {image : Globals} {s t : Sys τ} {a : Action} {talk : Talk} {events : List Event}
    {writes : List Bytes} (good : Flashing image s talk) (kept : UnsentKept s a) (ran : step T s a = some t)
    (written : t.written = s.written ++ writes)
    (globals : (∀ choice, a ≠ .fileOpen choice) → t.window.globals = s.window.globals)
    (logged : Logged s t events) (session : Session) (now : latest t.log = some session)
    (running : finals session.events = 0) :
    InPlace image t.written.length session.write t.window.globals := by
  rw [logged.log] at now
  obtain ⟨old,known,quiet,_,same⟩ := runningBefore logged.plain now running
  rw [← same]
  have held := good.inPlace old known quiet
  have later : s.written.length ≤ t.written.length := by
    rw [written,List.length_append]
    exact Nat.le_add_right _ _
  refine inPlaceLater later ?_
  by_cases opened : ∃ choice, a = .fileOpen choice
  · obtain ⟨choice,rfl⟩ := opened
    have loaded : t.window = MainWindow.fileOpen s.window choice := by
      simp only [step,fileOpen,Option.ite_none_right_eq_some,Option.some.injEq] at ran
      obtain ⟨_,rfl⟩ := ran
      rfl
    rw [loaded]
    exact inPlaceTrans held (kept old known quiet)
  · rw [globals (fun choice same => opened ⟨choice,same⟩)]
    exact held

theorem unsentKeptConnected {s : Sys τ} {a : Action} (kept : UnsentKept s a) : Connected a := by
  cases a <;> trivial

/- A step other than a click, seen from the conversation and from the session. -/
structure Advance (image : Globals) (s t : Sys τ) (talk talk' : Talk) (events : List Event) (writes : List Bytes) :
    Prop where
  flashing : Flashing image t talk'
  move : Move s.window.globals s.written.length talk events writes talk'
  written : t.written = s.written ++ writes
  log : t.log = s.log ++ events
  plain : ∀ event ∈ events, Plain event
  restarts : Restarts image s.log events

theorem flashingStep {image : Globals} {s t : Sys τ} {a : Action} {talk : Talk} (good : Flashing image s talk)
    (kept : UnsentKept s a) (other : a ≠ .flash) (ran : step T s a = some t) :
    ∃ talk' events writes, Advance image s t talk talk' events writes := by
  have connected := unsentKeptConnected kept
  obtain ⟨talk',events,writes,move,live,written,globals,logged⟩ :=
    liveStep good.live (fun _ => good.online) connected (fun same => absurd same other) ran
  have logged : Logged s t events := logged.resolve_right (fun click => other click.1)
  obtain ⟨stage,restarts⟩ := stageMove good.stage (liveFits good.live) good.inPlace logged.plain move
  rw [← logged.log,← List.length_append,← written] at stage
  refine ⟨talk',events,writes,⟨live,(connectedOnline connected ran).trans good.online,stage,?_⟩,move,written,
    logged.log,logged.plain,restarts⟩
  exact fun session => inPlaceStep good kept ran written globals logged session

/-- A click between sessions starts a session with the image that is loaded. -/
theorem flashingClick {image : Globals} {s t : Sys τ} {talk : Talk} (good : Flashing image s talk)
    (shut : sessionOpen s.log = false) (ran : step T s .flash = some t) :
    Flashing s.window.globals t ⟨[],.asked .initial s.firmware.checksum⟩ ∧
    t.written = s.written ++ Req.initial.pieces ∧
    t.log = s.log ++ [.click s.window.globals s.written.length] := by
  cases clickBetween good shut
  obtain ⟨live,log,written,window⟩ := liveClick good.live (fun _ => good.online) ran
  have online := (connectedOnline (a := .flash) trivial ran).trans good.online
  refine ⟨⟨live,online,?_,?_⟩,written,log⟩
  · rw [log,latestClick,written,List.length_append]
    exact .asked rfl rfl rfl trivial trivial
  · intro session now _
    rw [window]
    exact ⟨fun _ _ _ => rfl,fun _ => rfl⟩

theorem flashingIdle {s : Sys τ} (idle : Idle s) (fresh : s.log = []) :
    Flashing s.window.globals s ⟨[],.rest⟩ := by
  refine ⟨liveIdle idle,idle.online,?_,?_⟩
  · rw [fresh]
    exact .closed (by simp [latest])
  · simp [fresh,latest]

theorem restartsSound {own : Session → Globals} {image : Globals} {log events : List Event}
    (sound : SoundFor own log) (plain : ∀ event ∈ events, Plain event) (restarts : Restarts image log events)
    (same : ∀ session, latest log = some session → finals session.events = 0 →
      ∀ more, own {session with events := session.events ++ more} = image) : SoundFor own (log ++ events) := by
  refine soundAppend sound (fun front back split => ?_)
  obtain ⟨session,now,running,ops⟩ := restarts front back split
  have quiet : ∀ event ∈ front, Plain event := fun event inside => plain event (by rw [split]; simp [inside])
  rw [latestAppend _ quiet,now]
  refine ⟨_,rfl,?_⟩
  rw [same session now running]
  exact ops

/- The image of the conversation is the one loaded at the click of the session. -/
structure Faithful (s : Sys τ) : Prop where
  flashing : ∃ image talk, Flashing image s talk ∧
    ∀ session, latest s.log = some session → finals session.events = 0 → session.image = image
  sound : Sound s.log

theorem faithfulStep {s t : Sys τ} {a : Action} (faithful : Faithful s) (kept : UnsentKept s a)
    (ran : step T s a = some t) : Faithful t := by
  obtain ⟨⟨image,talk,good,own⟩,sound⟩ := faithful
  by_cases click : a = .flash
  · subst click
    obtain ⟨good',_,log⟩ := flashingClick good kept ran
    refine ⟨⟨_,_,good',?_⟩,?_⟩
    · intro session now _
      rw [log,latestClick] at now
      cases Option.some.inj now
      rfl
    · rw [log]
      exact soundOther sound (by simp)
  · obtain ⟨talk',events,_,good',_,_,log,plain,restarts⟩ := flashingStep good kept click ran
    refine ⟨⟨image,talk',good',?_⟩,?_⟩
    · intro session now running
      rw [log] at now
      obtain ⟨old,known,quiet,same,_⟩ := runningBefore plain now running
      rw [← same]
      exact own old known quiet
    · rw [log]
      exact restartsSound sound plain restarts (fun session now running _ => own session now running)

theorem faithfulRun {s t : Sys τ} {as : List Action} (idle : Idle s) (fresh : s.log = [])
    (run : Transition.Run (step T) UnsentKept s as t) : Faithful t := by
  refine Transition.runInvariant Faithful (fun s a t => faithfulStep) run ?_
  refine ⟨⟨_,_,flashingIdle idle fresh,by simp [fresh,latest]⟩,?_⟩
  rw [fresh]
  exact soundNothing _

/- The environment of an undisturbed session: clicks and loading come between sessions. -/
def Undisturbed (s : Sys τ) : Action → Prop
  | .flash | .fileOpen _ => sessionOpen s.log = false
  | a => Connected a

theorem undisturbedKept (s : Sys τ) (a : Action) (quiet : Undisturbed s a) : UnsentKept s a := by
  cases a with
  | fileOpen choice =>
    intro session now running
    have shut : sessionOpen s.log = false := quiet
    rw [(openSome now).mpr running] at shut
    contradiction
  | _ => exact quiet

end Runs
end HsspProgrammer.Sessions
