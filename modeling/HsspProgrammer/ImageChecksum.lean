import HsspProgrammer.Placement
import HsspProgrammer.Completion
import HsspProgrammer.Provenance
import Mathlib.Data.List.Forall2

/-! The checksum that a file records for its image is stored and not used: neither a
load nor a session compares it. What a session compares is the sum of the image. -/
namespace HsspProgrammer.ImageChecksum
open Ascii (Bytes)
open Loader Records CompleteFiles HexImage
open MainWindow (Report serialData)
open CommandLoop hiding execute consume
open Programmer Exchange Conversation Provenance Sessions

/- Two lines that may differ in the value of a checksum record only. -/
structure SameButChecksum (line line' : Line) : Prop where
  kind : recordKind line' = recordKind line
  block : recordKind line = some .block → blockOf line' = blockOf line
  address : recordKind line = some .extended → wordOf line' = wordOf line

def ButChecksum (g g' : Globals) : Prop := g' = {g with programChecksum := g'.programChecksum}

theorem placedSame {g g' : Globals} {line line' : Line} {k : Kind} (same : SameButChecksum line line')
    (kind : recordKind line = some k) (but : ButChecksum g g') : ButChecksum (placed g line k) (placed g' line' k) := by
  rw [ButChecksum] at but
  generalize g'.programChecksum = value at but
  subst but
  cases k with
  | block =>
    simp only [ButChecksum,placed,same.block kind]
    split <;> rfl
  | extended =>
    simp only [ButChecksum,placed,same.address kind]
    split <;> rfl
  | word => rfl
  | endOfFile => rfl

theorem processedSame {lines lines' : List Line} (same : List.Forall₂ SameButChecksum lines lines') {g g' : Globals}
    (but : ButChecksum g g') : (processLines g' lines').1 = (processLines g lines).1 ∧
    ((processLines g lines).1 = true → ButChecksum (processLines g lines).2 (processLines g' lines').2) := by
  induction same generalizing g g' with
  | nil => exact ⟨rfl,fun _ => but⟩
  | @cons line line' lines lines' now later ih =>
    have state : progress g' = progress g := by rw [but]; rfl
    have accepts : (hexDataProcess g' line').1 = (hexDataProcess g line).1 := by
      rw [processedAccepts,processedAccepts,now.kind,state]
    simp only [processLines,accepts]
    split
    · rename_i accepted
      obtain ⟨k,kind,_⟩ := acceptedKind.mp accepted
      have placed := placedSame now kind but
      rw [← processedPlaces kind accepted,← processedPlaces (now.kind.trans kind) (accepts.trans accepted)] at placed
      exact ih placed
    · exact ⟨rfl,fun none => absurd none (by simp)⟩

/- The target has been asked for its checksum last, and it is the sum of the image. -/
def Compared (image : Globals) (ops : List Op) : Prop :=
  ops.getLast? = some (.targetBankChecksumGet (some (total image BLOCKS_PER_BANK)))

/-- Whenever the checksum is reported as verified, the target's own checksum has been
compared with the sum of the image that was loaded at the click. -/
def Verified (log : List Event) : Prop :=
  ∀ front back, log = front ++ .reported .checksumVerified :: back →
    ∃ session, latest front = some session ∧ Compared session.image (operations session.events)

theorem unverifiedIf {p : Prop} [Decidable p] {yes no : MainWindow.Reaction} (first : .checksumVerified ∉ yes.reports)
    (second : .checksumVerified ∉ no.reports) : .checksumVerified ∉ (if p then yes else no).reports := by
  split
  · exact first
  · exact second

theorem unverifiedBlock {w : MainWindow.Window} (argID argTrm : UInt8) {last : MainWindow.Reaction}
    (ends : .checksumVerified ∉ last.reports) :
    .checksumVerified ∉ (MainWindow.blockReply w argID argTrm last).reports := by
  unfold MainWindow.blockReply
  split
  · dsimp only
    split <;> simp
  · exact unverifiedIf ends (by simp)

theorem verifiedCommand {w : MainWindow.Window} {ba : Bytes}
    (reported : .checksumVerified ∈ (serialData w ba).reports) : ba.getD 0 0 = Ascii.g := by
  by_contra other
  refine absurd reported ?_
  unfold serialData
  dsimp only
  rw [if_neg (c := ba.getD 0 0 = Ascii.g) other]
  refine unverifiedIf (by simp) (unverifiedIf (unverifiedIf (by simp) (by simp)) ?_)
  refine unverifiedIf (unverifiedIf (by simp [MainWindow.firstBlock]) (by simp)) ?_
  refine unverifiedIf (unverifiedBlock _ _ (by simp [MainWindow.firstBlock])) ?_
  refine unverifiedIf (unverifiedBlock _ _ (by simp)) (unverifiedIf (unverifiedIf (by simp) (by simp)) ?_)
  exact unverifiedIf (unverifiedIf (by simp) (by simp)) (unverifiedIf (unverifiedIf (by simp) (by simp)) (by simp))

theorem verifiedRequest {w : MainWindow.Window} {r : Req}
    (reported : .checksumVerified ∈ (serialData w (reply r.cmdID r.good)).reports) : r = .checksum := by
  have command : r.cmdID = Ascii.g := verifiedCommand reported
  cases r with
  | checksum => rfl
  | program k data => exact absurd (show Ascii.c = Ascii.g from command) (by decide)
  | verify k data => exact absurd (show Ascii.d = Ascii.g from command) (by decide)
  | _ => contradiction

variable {τ : Type} {T : Target τ}

/- The report comes from the answer to the checksum request and from nothing else. -/
theorem verifiedTurn {image : Globals} {s : Sys τ} {talk : Talk} {ba : List Answer} {signals : List Signal}
    (good : Flashing image s talk) (found : s.signals = .message ba :: signals)
    (reported : .checksumVerified ∈ (serialData s.window (ba.map Answer.byte)).reports) :
    ∃ session, latest s.log = some session ∧ finals session.events = 0 ∧ Compared image (operations session.events) := by
  have head : ∃ rest, talk.answers = ba.take 4 :: rest := by
    rw [← good.live.answers,inbound,found]
    exact ⟨_,rfl⟩
  rw [handledHead] at reported
  obtain ⟨rest,head⟩ := head
  have stage := good.stage
  generalize now : latest s.log = session at stage
  cases stage with
  | closed => simp [Talk.answers,Turn.answer] at head
  | asked => simp [Talk.answers,Turn.answer] at head
  | @answered session r f checksum running place ops right summed =>
    have same : f = ba.take 4 := (List.cons.inj head).1
    obtain ⟨_,_,_,_,_,_,bytes,_⟩ := good.live.holds
    rw [← same,bytes] at reported
    cases verifiedRequest reported
    refine ⟨session,rfl,running,?_⟩
    have sum : checksum = total image BLOCKS_PER_BANK := summed
    rw [Compared,ops,sum]
    exact List.getLast?_concat
  | @failed session f report running final other handled =>
    have same : f = ba.take 4 := (List.cons.inj head).1
    rw [← same,handled] at reported
    rw [← List.mem_singleton.mp reported] at final
    contradiction
  | @restarted session f running bytes ops =>
    have same : f = ba.take 4 := (List.cons.inj head).1
    rw [← same,bytes,lastReply] at reported
    simp at reported

/-- What a step adds to the log says nothing of the checksum but in that case. -/
theorem verifiedStep {image : Globals} {s t : Sys τ} {a : Action} {talk : Talk} {events : List Event}
    (good : Flashing image s talk) (ran : step T s a = some t) (log : t.log = s.log ++ events) {front back : List Event}
    (split : events = front ++ .reported .checksumVerified :: back) :
    ∃ session, latest s.log = some session ∧ finals session.events = 0 ∧ Compared image (operations session.events) ∧
      operations front = [] := by
  obtain ⟨events',log',adds⟩ := stepLog ran
  have adds := addsSame log log' adds
  have reported : .reported .checksumVerified ∈ events := by rw [split]; simp
  cases adds with
  | @acted ba signals reports found =>
    have whole : Event.acted ba :: reports.map .reported =
        .acted ba :: (serialData s.window (ba.map Answer.byte)).reports.map .reported := by
      simp only [step,deliver,found] at ran
      split at ran <;> try contradiction
      · rename_i same
        cases same
        cases Option.some.inj ran
        exact (List.append_cancel_left log).symm
      · rename_i same
        cases same
    rw [whole] at reported
    obtain ⟨session,now,running,compared⟩ := verifiedTurn good found (by simpa using reported)
    refine ⟨session,now,running,compared,?_⟩
    have silent := (operationsActed ba reports).1
    rw [split,operations,List.filterMap_append] at silent
    exact (List.append_eq_nil_iff.mp silent).1
  | performed ran => simp at reported
  | _ => simp at reported

/- Every session so far has been compared with its own image. -/
structure Watched (s : Sys τ) : Prop where
  faithful : Faithful s
  verified : Verified s.log

theorem watchedStep {s t : Sys τ} {a : Action} (watched : Watched s) (kept : UnsentKept s a)
    (ran : step T s a = some t) : Watched t := by
  obtain ⟨faithful,verified⟩ := watched
  refine ⟨faithfulStep faithful kept ran,?_⟩
  obtain ⟨⟨image,talk,good,own⟩,_⟩ := faithful
  by_cases click : a = .flash
  · subst click
    obtain ⟨_,_,log⟩ := flashingClick good kept ran
    rw [log]
    exact Transition.occursOther verified (by simp)
  · obtain ⟨_,events,_,_,_,_,log,plain,_⟩ := flashingStep good kept click ran
    rw [log]
    refine Transition.occursAppend verified (fun front back split => ?_)
    obtain ⟨session,now,running,compared,silent⟩ := verifiedStep good ran log split
    have quiet : ∀ event ∈ front, Plain event := fun event inside => plain event (by rw [split]; simp [inside])
    refine ⟨{session with events := session.events ++ front},?_,?_⟩
    · rw [latestAppend _ quiet,now]
      rfl
    · change Compared session.image (operations (session.events ++ front))
      rw [own session now running,operations,List.filterMap_append,← operations,← operations,silent,List.append_nil]
      exact compared

/-- The value of the checksum record decides nothing; a session that reports the
checksum as verified has compared the target with the sum of its image. -/
theorem checksumUnread :
    (∀ g file file', List.Forall₂ SameButChecksum file.lines file'.lines →
      (load g (some file')).1 = (load g (some file)).1 ∧
      ((load g (some file)).1 = true → ButChecksum (load g (some file)).2 (load g (some file')).2)) ∧
    ∀ (T : Target τ) (s t : Sys τ) (as : List Action), Idle s → s.log = [] →
      Transition.Run (step T) Undisturbed s as t → Verified t.log := by
  refine ⟨fun g file file' same => processedSame same rfl,fun T s t as idle fresh run => ?_⟩
  have start : Watched s := by
    refine ⟨⟨⟨_,_,flashingIdle idle fresh,by simp [fresh,latest]⟩,?_⟩,?_⟩
    · rw [fresh]
      exact soundNothing _
    · rw [fresh]
      intro front back split
      simp at split
  exact (Transition.runInvariant Watched (fun _ _ _ => watchedStep) (Transition.runWeaken undisturbedKept run) start).verified

/- Two files of images that differ in the checksum at most. -/
theorem writtenSame {image image' : Image} {lines lines' : List Line} (holds : image.Written lines)
    (holds' : image'.Written lines') (program : image'.program = image.program) (security : image'.security = image.security)
    (addresses : image'.securityAddr = image.securityAddr ∧ image'.checksumAddr = image.checksumAddr) :
    List.Forall₂ SameButChecksum lines lines' := by
  have blocks : ∀ {line line' : Line} {block block' : Block}, recordKind line = some .block ∧ blockOf line = block →
      recordKind line' = some .block ∧ blockOf line' = block' → block' = block → SameButChecksum line line' := by
    rintro line line' block block' ⟨kind,data⟩ ⟨kind',data'⟩ same
    exact ⟨kind'.trans kind.symm,fun _ => data'.trans (same.trans data.symm),
      fun other => absurd (kind.symm.trans other) (by simp)⟩
  have words : ∀ {line line' : Line} {word word' : UInt16}, recordKind line = some .extended ∧ wordOf line = word →
      recordKind line' = some .extended ∧ wordOf line' = word' → word' = word → SameButChecksum line line' := by
    rintro line line' word word' ⟨kind,data⟩ ⟨kind',data'⟩ same
    exact ⟨kind'.trans kind.symm,fun other => absurd (kind.symm.trans other) (by simp),
      fun _ => data'.trans (same.trans data.symm)⟩
  have others : ∀ {line line' : Line} {k : Kind}, k = .word ∨ k = .endOfFile → recordKind line = some k →
      recordKind line' = some k → SameButChecksum line line' := by
    intro line line' k late kind kind'
    refine ⟨kind'.trans kind.symm,fun other => ?_,fun other => ?_⟩ <;>
    · rw [kind] at other
      rcases late with rfl | rfl <;> cases other
  have each : ∀ i < NUM_BLOCKS + 5, SameButChecksum (lineAt lines i) (lineAt lines' i) := by
    intro i inside
    by_cases row : i < NUM_BLOCKS
    · exact blocks (holds.program i row) (holds'.program i row) (by rw [program])
    · have late : i = NUM_BLOCKS ∨ i = NUM_BLOCKS + 1 ∨ i = NUM_BLOCKS + 2 ∨ i = NUM_BLOCKS + 3 ∨ i = NUM_BLOCKS + 4 := by
        omega
      rcases late with rfl | rfl | rfl | rfl | rfl
      · exact words holds.extended holds'.extended addresses.1
      · exact blocks holds.security holds'.security security
      · exact words holds.address holds'.address addresses.2
      · exact others (.inl rfl) holds.word.1 holds'.word.1
      · exact others (.inr rfl) holds.last holds'.last
  refine List.forall₂_iff_get.mpr ⟨holds.size.trans holds'.size.symm,fun i inside inside' => ?_⟩
  have row := each i (holds.size ▸ inside)
  simpa [lineAt,List.getD_eq_getElem?_getD,inside,inside'] using row

section Examples

/- The same image with another checksum. -/
def recorded (programChecksum : UInt16) : Image := {Placement.marked with programChecksum := programChecksum}

def recordedFile (programChecksum : UInt16) : File := (recorded programChecksum).file (fun _ => false) (fun _ _ => 0)

theorem recordedWritten (programChecksum : UInt16) :
    (recorded programChecksum).Written (recordedFile programChecksum).lines := linesRead _ _ _

theorem recordedSame (old new : UInt16) :
    List.Forall₂ SameButChecksum (recordedFile old).lines (recordedFile new).lines :=
  writtenSame (recordedWritten old) (recordedWritten new) rfl rfl ⟨rfl,rfl⟩

/- A blank session, and a file loaded with a checksum that is not the sum of its bytes. -/
theorem checksumUnreadBlank : ∃ as t,
    Transition.Run (step (obliging (total noGlobals BLOCKS_PER_BANK))) Undisturbed (connected noGlobals ()) as t ∧
    .reported .reStarted ∈ t.log ∧ Verified t.log ∧
    ButChecksum (load noGlobals (some (recordedFile 0))).2 (load noGlobals (some (recordedFile 64))).2 := by
  obtain ⟨s,as,t,clicked,run,reported⟩ := Completion.clickRestarts noGlobals
  have allowed : Undisturbed (connected noGlobals ()) .flash := rfl
  have protocol : ∀ (s : Sys Unit) a, Progress.Protocol a → Undisturbed s a := by
    intro s a protocol
    cases a <;> trivial
  have whole := Transition.Run.cons allowed clicked (Transition.runWeaken protocol run)
  have loaded : (load noGlobals (some (recordedFile 0))).1 = true := by
    rw [writtenLoads (recordedWritten 0) noGlobals]
  exact ⟨_,t,whole,reported,checksumUnread.2 _ _ _ _ (connectedIdle _ _) rfl whole,
    (checksumUnread (τ := Unit).1 noGlobals _ _ (recordedSame 0 64)).2 loaded⟩

/-- A file whose recorded checksum is not the sum of its program data is loaded. -/
theorem wrongChecksumLoads : ¬ ∀ g file, (load g (some file)).1 = true →
    (load g (some file)).2.programChecksum = total (load g (some file)).2 BLOCKS_PER_BANK := by
  intro claim
  have loaded : load noGlobals (some (recordedFile 0)) = (true,(recorded 0).globals) :=
    writtenLoads (recordedWritten 0) noGlobals
  have equal := claim noGlobals (recordedFile 0) (by rw [loaded])
  rw [loaded] at equal
  exact absurd equal (by decide +kernel)

end Examples

end HsspProgrammer.ImageChecksum
