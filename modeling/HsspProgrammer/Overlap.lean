import HsspProgrammer.Completion

/-! Flash clicked while a session is running. The two sessions then share one stream of
bytes and one block counter. Framing holds as long as the older session has nothing
more to send. -/
namespace HsspProgrammer.Overlap
open Ascii (Bytes)
open Loader (Globals noGlobals)
open MainWindow (command)
open CommandLoop hiding execute consume
open Programmer Exchange Conversation Provenance Sessions Progress Completion

variable {τ : Type} {T : Target τ}

/- The last write was the restart command, or the firmware waits for a command, nothing
is on its way to it and the window will write nothing on what it still receives. -/
def Settled (s : Sys τ) : Prop :=
  s.written.getLast? = some (command Ascii.x) ∨
  (pipe s = [] ∧ s.firmware.pc = .cmdID ∧ ∀ f ∈ inbound s, Spent f)

/- Clicks at any moment, no File/Open and no change of the connection. -/
def Clicking : Action → Prop
  | .fileOpen _ => False
  | a => Connected a

instance : DecidablePred Clicking
  | .fileOpen _ | .connect | .disconnect _ | .writeTimeout _ _ | .lose => isFalse id
  | .flash | .deliver | .slotWrite | .transmit _ | .arrive | .consume | .execute | .burst _ => isTrue trivial

def SettledClicks (s : Sys τ) : Action → Prop
  | .flash => Settled s
  | a => Clicking a

/-- What the firmware has read are whole writes, and what it has programmed is the image. -/
structure Framed (image : Globals) (s : Sys τ) : Prop where
  whole : ∀ event ∈ s.log, Event.Whole s.written event
  blocks : ∀ k data failed, .performed (.targetBlockProgram k data failed) ∈ s.log → data = row image k

section Clicks
variable {s : Sys τ} {talk : Talk}

/- The last write of a request is its command or its block. -/
theorem lastPiece (r : Req) : ∃ piece, r.pieces.getLast? = some piece ∧
    (piece = command r.cmdID ∨ ∃ use, r.payload = some (use,piece)) := by
  rw [Req.pieces,List.getLast?_append]
  cases pays : r.payload with
  | some p => exact ⟨p.2,rfl,.inr ⟨p.1,rfl⟩⟩
  | none =>
    have starts : r.commanded = true := by cases r <;> first | rfl | contradiction
    exact ⟨_,by rw [starts]; rfl,.inl rfl⟩

theorem lastRestart {r : Req} {written : List Bytes} (fits : r.Fits) (pieces : r.pieces <:+ written)
    (last : written.getLast? = some (command Ascii.x)) : r = .reStart := by
  obtain ⟨front,rfl⟩ := pieces
  obtain ⟨piece,found,kind⟩ := lastPiece r
  rw [List.getLast?_append,found] at last
  cases Option.some.inj last
  rcases kind with same | ⟨use,pays⟩
  · cases r <;> first | rfl | (simp only [Req.cmdID] at same; exact absurd same (by decide))
  · have size := payloadLength fits pays
    contradiction

/-- A good reply of a request other than the last one makes the window write. -/
theorem goodUnspent {r : Req} {f : List Answer} (fits : r.Fits) (counted : Counted s.window r) (other : r ≠ .reStart)
    (bytes : bytesOf f = reply r.cmdID r.good) : ¬ Spent f := by
  rintro ⟨reports,handled⟩
  obtain ⟨r',next⟩ := nextExists s.window.globals other
  have writes := (goodReply fits counted next).writes
  rw [← bytes,handled] at writes
  obtain ⟨piece,found,_⟩ := lastPiece r'
  rw [← writes] at found
  contradiction

/-- The condition on a click, in terms of the conversation. -/
theorem settledClickable (live : Live true s talk) (settled : Settled s) : Clickable true talk := by
  have holds := live.holds
  have answers := live.answers
  obtain ⟨spent,turn⟩ := talk
  cases turn with
  | rest => exact .inl rfl
  | stalled => exact absurd (live.few rfl).2 (by simp)
  | asked r checksum =>
    obtain ⟨⟨⟨i,P,serving,out,_⟩,fits,pieces⟩,_⟩ := holds
    rw [List.append_nil] at pieces
    rcases settled with last | ⟨empty,pc,_⟩
    · cases lastRestart fits pieces last
      exact .inr ⟨rfl,checksum,rfl⟩
    · have all := out.all rfl
      rw [empty,List.append_nil] at all
      generalize s.part.length = n at serving
      cases serving with
      | command starts =>
        have shape : r.pieces = command r.cmdID :: (r.payload.map Prod.snd).toList := by
          rw [Req.pieces,if_pos starts,List.singleton_append]
        rw [shape,stampAllCons] at all
        contradiction
      | terminator starts waits => rw [pc] at waits; contradiction
      | pair starts waits => rw [pc] at waits; contradiction
      | data use data n pays few waits => rw [pc] at waits; contradiction
      | ready use data pays waits => rw [pc] at waits; contradiction
  | queued checksum =>
    obtain ⟨⟨i,P,serving,out,_⟩,_,pieces⟩ := holds
    rcases settled with last | ⟨empty,_⟩
    · obtain ⟨front,same⟩ := pieces
      rw [← same,← List.append_assoc,List.getLast?_append] at last
      cases last
    · have all := out.all rfl
      rw [empty,stampAllAppend] at all
      have more := List.append_eq_nil_iff.mp all.symm
      exact absurd more.2 (by simp [Req.pieces,Req.commanded,Req.payload,stampAll,stamp,command])
  | answered r checksum f =>
    obtain ⟨_,_,_,fits,counted,other,bytes,pieces⟩ := holds
    rcases settled with last | ⟨_,_,quiet⟩
    · exact absurd (lastRestart fits pieces last) other
    · refine absurd (quiet f ?_) (goodUnspent fits counted other bytes)
      rw [answers]
      exact List.mem_append_right _ (List.mem_singleton_self f)

end Clicks

section Blocks

/- A block asked to be programmed is the one of the image. -/
def Genuine (g : Globals) : Turn → Prop
  | .asked (.program k data) _ => data = row g k
  | _ => True

theorem nextGenuine {g : Globals} {r r' : Req} (next : r.next g = some r') (checksum : UInt16) :
    Genuine g (.asked r' checksum) := by
  cases r with
  | program k data =>
    cases Option.some.inj next
    split <;> exact (by first | rfl | trivial)
  | verify k data =>
    cases Option.some.inj next
    split <;> trivial
  | reStart => contradiction
  | _ => cases Option.some.inj next; first | rfl | trivial

theorem aimedGenuine {g : Globals} {r : Req} {checksum : UInt16} {ops : List Op} (aimed : Aimed r ops)
    (genuine : Genuine g (.asked r checksum)) {k : Nat} {data : Bytes} {failed : Bool}
    (inside : .performed (.targetBlockProgram k data failed) ∈ ops.map Event.performed) : data = row g k := by
  obtain ⟨op,member,same⟩ := List.mem_map.mp inside
  cases same
  cases aimed k data failed member
  exact genuine

theorem genuineMove {g : Globals} {n : Nat} {talk talk' : Talk} {events : List Event} {writes : List Bytes}
    (genuine : Genuine g talk.turn) (move : Move g n talk events writes talk') :
    Genuine g talk'.turn ∧
    ∀ k data failed, .performed (.targetBlockProgram k data failed) ∈ events → data = row g k := by
  cases move with
  | stay _ _ reads => exact ⟨genuine,fun k data failed inside => (reads _ inside).elim⟩
  | garble many fewer =>
    refine ⟨?_,by simp⟩
    rcases fewer with same | rest
    · rw [same]; exact genuine
    · rw [rest]; trivial
  | click => exact ⟨trivial,by simp⟩
  | clickBehind => exact ⟨trivial,by simp⟩
  | report => exact ⟨genuine,by simp⟩
  | next next => exact ⟨nextGenuine next _,by simp⟩
  | succeed => exact ⟨trivial,fun _ _ _ => aimedGenuine (performedAimed _ _) genuine⟩
  | finish => exact ⟨trivial,by simp⟩
  | finishBehind => exact ⟨trivial,by simp⟩
  | fail _ _ _ aimed => exact ⟨trivial,fun _ _ _ => aimedGenuine aimed genuine⟩

end Blocks

section Runs

structure Sharing (image : Globals) (s : Sys τ) : Prop where
  live : ∃ talk, Live true s talk ∧ Genuine image talk.turn
  online : s.online = true
  globals : s.window.globals = image
  framed : Framed image s

theorem sharingStep {image : Globals} {s t : Sys τ} {a : Action} (sharing : Sharing image s)
    (settled : SettledClicks s a) (ran : step T s a = some t) : Sharing image t := by
  obtain ⟨⟨talk,live,genuine⟩,online,globals,framed⟩ := sharing
  have connected : Connected a := by
    cases a <;> trivial
  have click : a = .flash → Clickable true talk := by
    rintro rfl
    exact settledClickable live settled
  obtain ⟨talk',events,writes,move,live',written,kept,logged⟩ :=
    liveStep live (fun _ => online) connected click ran
  rw [globals] at move
  obtain ⟨genuine',blocks⟩ := genuineMove genuine move
  have log : t.log = s.log ++ events := logged.elim (fun logged => logged.log) (fun click => click.2.2)
  have whole : ∀ event ∈ events, Event.Whole t.written event := by
    rcases logged with logged | ⟨_,clicked,_⟩
    · exact logged.whole
    · rw [clicked]
      simp [Event.Whole]
  refine ⟨⟨talk',live',genuine'⟩,(connectedOnline connected ran).trans online,?_,?_,?_⟩
  · rw [kept (fun choice same => by rw [same] at settled; exact settled),globals]
  · intro event inside
    rw [log] at inside
    rcases List.mem_append.mp inside with old | new
    · rw [written]
      exact wholeLater (framed.whole event old)
    · exact whole event new
  · intro k data failed inside
    rw [log] at inside
    rcases List.mem_append.mp inside with old | new
    · exact framed.blocks k data failed old
    · exact blocks k data failed new

/-- Clicks on a settled system keep all reads whole. -/
theorem settledFramed {s t : Sys τ} {as : List Action} (idle : Idle s) (fresh : s.log = [])
    (run : Transition.Run (step T) SettledClicks s as t) : Framed s.window.globals t := by
  have start : Sharing s.window.globals s :=
    ⟨⟨_,liveIdle idle,trivial⟩,idle.online,rfl,by simp [fresh],by simp [fresh]⟩
  exact (Transition.runInvariant (Sharing s.window.globals) (fun _ _ _ => sharingStep) run start).framed

/- Between sessions everything is settled. -/
theorem restSettled {image : Globals} {s : Sys τ} (good : Flashing image s ⟨[],.rest⟩) : Settled s := by
  obtain ⟨empty,top⟩ := good.live.holds
  have none : inbound s = [] := good.live.answers
  exact .inr ⟨empty,top,by simp [none]⟩

/- A session, a click right after its restart and a second session. -/
theorem settledFramedBlank : ∃ as bs t front back,
    Transition.Run (step (obliging (total noGlobals BLOCKS_PER_BANK))) SettledClicks (connected noGlobals ())
      (.flash :: as ++ .flash :: bs) t ∧
    t.log = front ++ back ∧ .reported .reStarted ∈ front ∧ .reported .reStarted ∈ back ∧ Framed noGlobals t := by
  obtain ⟨s,clicked,window,signals⟩ : ∃ s, step (obliging (total noGlobals BLOCKS_PER_BANK)) (connected noGlobals ()) .flash =
      some s ∧ s.window = (connected noGlobals ()).window ∧ s.signals = [] := ⟨_,rfl,rfl,rfl⟩
  have idle := connectedIdle noGlobals ()
  obtain ⟨good,_,log⟩ := flashingClick (flashingIdle idle rfl) rfl clicked
  obtain ⟨as,u,past,run,first⟩ := restarts good (by simp) (log ▸ soundOther (soundNothing _) (by simp))
  -- the window is as before but for its counter, so Flash can be clicked again
  have same := (protocolWindows (by simp [signals]) run).2
  rw [window] at same
  obtain ⟨v,again⟩ : ∃ v, step (obliging (total noGlobals BLOCKS_PER_BANK)) u .flash = some v :=
    ⟨_,if_pos ⟨first.slot,by rw [same]; rfl⟩⟩
  obtain ⟨good',_,log'⟩ := flashingClick first.flashing (restClosed first.flashing) again
  rw [show u.window.globals = noGlobals by rw [same]; rfl] at good'
  obtain ⟨bs,t,later,run',second⟩ := restarts good' (by simp) (log' ▸ soundOther first.sound (by simp))
  have protocol : ∀ (s : Sys Unit) a, Protocol a → SettledClicks s a := by
    intro s a protocol
    cases a <;> trivial
  have settled : SettledClicks (connected noGlobals ()) .flash := restSettled (flashingIdle idle rfl)
  have settled' : SettledClicks u .flash := restSettled first.flashing
  have whole := Transition.runAppend (.cons settled clicked (Transition.runWeaken protocol run))
    (.cons settled' again (Transition.runWeaken protocol run'))
  refine ⟨as,bs,t,v.log,later,whole,second.log,?_,second.reported,settledFramed idle rfl whole⟩
  rw [log',first.log]
  simp [first.reported]

end Runs

section Torn
/- Two clicks before the first reply: both sessions get to their first block. -/

def twoClicks : List Action :=
  [.flash,.slotWrite,.flash,.slotWrite,.transmit 4] ++
  reading 2 ++ [.execute] ++ reading 2 ++
  [.execute,.burst 4,.deliver,.slotWrite,.burst 4,.deliver,.slotWrite,.transmit 4] ++
  reading 2 ++ [.execute] ++ reading 2 ++
  [.execute,.burst 4,.deliver,.slotWrite,.slotWrite,.burst 4,.deliver,.slotWrite,.slotWrite,.transmit 132] ++
  reading 2 ++ [.execute] ++ reading 64 ++ [.execute] ++ reading 64

/- Bytes of more than one write. -/
def torn : Event → Bool
  | .blockRead bytes => bytes.any (fun b => b.write != (bytes.headD b).write)
  | _ => false

theorem wholeUntorn {written : List Bytes} {event : Event} (whole : Event.Whole written event) : torn event = false := by
  cases event with
  | blockRead bytes =>
    obtain ⟨i,data,_,_,same⟩ := whole
    cases bytes with
    | nil => rfl
    | cons first rest =>
      have alike : ∀ b ∈ first :: rest, b.write = i := by
        rw [same]
        exact fun b => stampWrite
      refine List.any_eq_false.mpr (fun b inside => ?_)
      rw [List.headD_cons,alike b inside,alike first List.mem_cons_self]
      simp
  | _ => rfl

/- The system while it is only clicked. -/
def clicked (s : Sys Unit) (a : Action) : Option (Sys Unit) := if Clicking a then step (obliging 0) s a else none

theorem twoClicksTorn :
    (Transition.runAll clicked (connected noGlobals ()) twoClicks).any (fun t => t.log.any torn) = true := by
  decide +kernel

/- The first of them takes the command of the second, and the bytes after it, for its block 1. -/
theorem clicksTear : ¬ ∀ (T : Target Unit) (s t : Sys Unit) (as : List Action), Idle s → s.log = [] →
    Transition.Run (step T) (fun _ a => Clicking a) s as t → Framed s.window.globals t := by
  intro claim
  obtain ⟨t,ends,found⟩ := (Option.any_eq_true _ _).mp twoClicksTorn
  obtain ⟨event,inside,parts⟩ := List.any_eq_true.mp found
  have run : Transition.Run (step (obliging 0)) (fun _ a => Clicking a) (connected noGlobals ()) twoClicks t :=
    Transition.runEvaluated ends
  have framed := claim _ _ _ _ (connectedIdle _ _) rfl run
  exact absurd parts (by rw [wholeUntorn (framed.whole event inside)]; simp)

end Torn
end HsspProgrammer.Overlap
