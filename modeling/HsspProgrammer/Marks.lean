import HsspProgrammer.Sessions

/-! What a log says when the stamps of its bytes and the reads of the firmware are left
out. Its sessions, and what the restart is worth in them, can be told from that alone. -/
namespace HsspProgrammer.Marks
open Ascii (Bytes)
open CommandLoop (Op)
open Conversation (bytesOf)
open Loader (Globals)
open MainWindow (Report)
open Programmer
open Sessions

inductive Mark where
  | click (image : Globals) (write : Nat)
  | performed (op : Op)
  | acted (ba : Bytes)
  | reported (report : Report)

def mark : Event → Option Mark
  | .click image write => some (.click image write)
  | .performed op => some (.performed op)
  | .acted ba => some (.acted (bytesOf ba))
  | .reported report => some (.reported report)
  | .commandRead _ | .blockRead _ => none

def marks (log : List Event) : List Mark := log.filterMap mark

theorem marksAppend (front back : List Event) : marks (front ++ back) = marks front ++ marks back := List.filterMap_append

def Mark.operation : Mark → Option Op
  | .performed op => some op
  | _ => none

def Mark.isFinal : Mark → Bool
  | .reported report => report.final
  | _ => false

theorem operationsMarks (log : List Event) : operations log = (marks log).filterMap Mark.operation := by
  rw [operations,marks,List.filterMap_filterMap]
  congr 1
  funext event
  cases event <;> rfl

theorem finalsMarks (log : List Event) : finals log = (marks log).countP Mark.isFinal := by
  rw [finals,marks,List.countP_filterMap]
  refine List.countP_congr (fun event _ => ?_)
  cases event <;> simp [Event.isFinal,mark,Mark.isFinal]

/- A session as its marks tell it. -/
structure Outline where
  image : Globals
  write : Nat
  marks : List Mark

def outline (session : Session) : Outline := ⟨session.image,session.write,marks session.events⟩

def outlineFrom (last : Option Outline) : Mark → Option Outline
  | .click image write => some ⟨image,write,[]⟩
  | m => last.map (fun last => {last with marks := last.marks ++ [m]})

theorem marksCons (event : Event) (rest : List Event) : marks (event :: rest) = (mark event).toList ++ marks rest := by
  cases event <;> rfl

theorem outlineOne (session : Option Session) (event : Event) :
    (latestFrom session event).map outline = (mark event).toList.foldl outlineFrom (session.map outline) := by
  cases event with
  | click image write => rfl
  | commandRead _ | blockRead _ =>
    cases session with
    | none => rfl
    | some session => simp [latestFrom,outline,marksAppend,marksCons,mark,show marks [] = [] from rfl]
  | performed _ | acted _ | reported _ =>
    cases session with
    | none => rfl
    | some session => simp [latestFrom,outline,outlineFrom,marksAppend,marksCons,mark,show marks [] = [] from rfl]

theorem latestOutline (log : List Event) : (latest log).map outline = (marks log).foldl outlineFrom none := by
  suffices all : ∀ session : Option Session,
      (log.foldl latestFrom session).map outline = (marks log).foldl outlineFrom (session.map outline) from all none
  induction log with
  | nil => exact fun _ => rfl
  | cons event rest ih =>
    intro session
    rw [List.foldl_cons,ih,outlineOne,marksCons,List.foldl_append]

theorem sessionOpenMarks {log log' : List Event} (same : marks log = marks log') : sessionOpen log = sessionOpen log' := by
  have both : (latest log).map outline = (latest log').map outline := by rw [latestOutline,latestOutline,same]
  have byOutline : ∀ log : List Event, sessionOpen log =
      ((latest log).map outline).any (fun last => last.marks.countP Mark.isFinal == 0) := by
    intro log
    rw [sessionOpen]
    cases latest log with
    | none => rfl
    | some session => simp [outline,finalsMarks]
  rw [byOutline,byOutline,both]

/-- Two logs with the same marks are sound together. -/
theorem soundMarks {log log' : List Event} (same : marks log = marks log') (sound : Sound log) : Sound log' := by
  intro front' back' split
  have shown : marks log = marks front' ++ .reported .reStarted :: marks back' := by
    rw [same,split,marksAppend]
    rfl
  obtain ⟨front,rest,rfl,first,second⟩ := List.filterMap_eq_append_iff.mp shown
  obtain ⟨reads,event,back,rfl,none,is,_⟩ := List.filterMap_eq_cons_iff.mp second
  have report : event = .reported .reStarted := by
    cases event <;> simp [mark] at is
    rw [is]
  subst report
  have quiet : marks reads = [] := List.filterMap_eq_nil_iff.mpr none
  obtain ⟨session,now,ops⟩ := sound (front ++ reads) back (List.append_assoc ..).symm
  have outlines : (latest (front ++ reads)).map outline = (latest front').map outline := by
    rw [latestOutline,latestOutline,marksAppend,quiet,List.append_nil,← first]
    rfl
  rw [now] at outlines
  obtain ⟨session',now',told⟩ := Option.map_eq_some_iff.mp outlines.symm
  simp only [outline,Outline.mk.injEq] at told
  refine ⟨session',now',?_⟩
  rw [operationsMarks] at ops ⊢
  rw [told.2.2,told.1,ops]

end HsspProgrammer.Marks
