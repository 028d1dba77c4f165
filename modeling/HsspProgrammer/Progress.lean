import HsspProgrammer.MainLoop
import HsspProgrammer.Sessions

/-! A session comes to an end. Every step of the protocol uses up some of what is under
way or of the requests still to come, no byte is lost on the way, and where nothing can
move the session has had its outcome. -/
namespace HsspProgrammer.Progress
open Ascii (Bytes)
open Loader (Globals)
open CommandLoop hiding execute consume
open Programmer Exchange Conversation Sessions
open Usart (SERIAL_BUFFERS_SIZE)

variable {τ : Type} {T : Target τ}

/- The steps that write or read a byte or act on a reply. -/
def Protocol : Action → Prop
  | .slotWrite | .transmit _ | .arrive | .consume | .execute | .burst _ | .deliver => True
  | _ => False

section Measure

def remaining : Req → Nat
  | .initial => 261
  | .erase => 260
  | .program k _ => 259 - k
  | .verify k _ => 131 - k
  | .secure _ => 3
  | .secureVerify _ => 2
  | .checksum => 1
  | .reStart => 0

/- The work the conversation still owes. -/
def owed (talk : Talk) : Nat :=
  match talk.turn with
  | .asked r _ => 400 * remaining r + 20
  | .answered r _ _ => 400 * remaining r
  | _ => 0

def busy : Pc → Nat
  | .command _ _ | .ready _ => 1
  | _ => 0

/- The work in the buffers: each byte counts the places it has still to pass. -/
def load (s : Sys τ) : Nat :=
  5 * s.slot.flatten.length + s.slot.length + 4 * s.m_txBuf.length + 3 * s.port.length + 2 * s.queue.length +
  busy s.firmware.pc + 2 * s.replies.length + s.signals.length

def cost (writes : List Bytes) : Nat := 5 * writes.flatten.length + writes.length

theorem remainingNext {g : Globals} {r r' : Req} (fits : r.Fits) (next : r.next g = some r') :
    remaining r = remaining r' + 1 := by
  cases r with
  | program k data =>
    have small := fits.1
    cases Option.some.inj next
    split
    · simp only [remaining,BLOCKS_PER_BANK] at *
      omega
    · simp only [remaining,BLOCKS_PER_BANK,Loader.NUM_BLOCKS] at *
      omega
  | verify k data =>
    have small := fits.1
    cases Option.some.inj next
    split
    · simp only [remaining,BLOCKS_PER_BANK] at *
      omega
    · simp only [remaining,BLOCKS_PER_BANK,Loader.NUM_BLOCKS] at *
      omega
  | reStart => contradiction
  | _ => cases Option.some.inj next; rfl

theorem piecesCost {r : Req} (fits : r.Fits) : cost r.pieces ≤ 332 := by
  have bytes := piecesBound fits
  have front : (if r.commanded then [MainWindow.command r.cmdID] else []).length ≤ 1 := by
    cases r.commanded <;> simp
  have back : (r.payload.map Prod.snd).toList.length ≤ 1 := by cases r.payload <;> simp
  have count : r.pieces.length ≤ 2 := by
    rw [Req.pieces,List.length_append]
    omega
  rw [cost]
  omega

theorem owedMove {g : Globals} {n : Nat} {talk talk' : Talk} {events : List Event} {writes : List Bytes}
    (single : ∀ checksum, talk.turn ≠ .queued checksum) (fits : Talk.Fits talk) (fits' : Talk.Fits talk')
    (plain : ∀ event ∈ events, Plain event) (move : Move g n talk events writes talk') :
    owed talk' + cost writes ≤ owed talk := by
  have clicked : ¬ ∀ event ∈ [Event.click g n], Plain event :=
    fun plain => plain _ (List.mem_singleton_self _) g n rfl
  cases move with
  | stay => exact Nat.le_refl _
  | garble many fewer =>
    rcases fewer with same | rest
    · rw [owed,same,← owed]
      exact Nat.le_refl _
    · rw [owed,rest]
      exact Nat.zero_le _
  | click => exact absurd plain clicked
  | clickBehind => exact absurd plain clicked
  | report => exact Nat.le_refl _
  | next next =>
    have less := remainingNext fits next
    have small := piecesCost fits'
    simp only [owed]
    omega
  | succeed => exact Nat.le_add_right _ _
  | finish => exact Nat.zero_le _
  | finishBehind => exact absurd rfl (single _)
  | fail => exact Nat.zero_le _

/-- An answer pays for itself. -/
theorem owedAnswered {g : Globals} {n : Nat} {talk talk' : Talk} {events : List Event} {writes : List Bytes}
    (single : ∀ checksum, talk.turn ≠ .queued checksum) (plain : ∀ event ∈ events, Plain event)
    (move : Move g n talk events writes talk') (none : talk.answers = []) (some : talk'.answers ≠ []) :
    owed talk' + 20 ≤ owed talk := by
  have clicked : ¬ ∀ event ∈ [Event.click g n], Plain event :=
    fun plain => plain _ (List.mem_singleton_self _) g n rfl
  cases move with
  | stay => exact absurd none some
  | garble many => rw [none] at many; contradiction
  | click => exact absurd plain clicked
  | clickBehind => exact absurd plain clicked
  | report => simp [Talk.answers] at none
  | next => simp [Talk.answers,Turn.answer] at none
  | succeed => exact Nat.le_refl _
  | finish => exact Nat.le_add_left _ _
  | finishBehind => exact absurd rfl (single _)
  | fail => exact Nat.le_add_left _ _

theorem replySize {fw : Firmware τ} {outcome : Outcome τ} (ran : CommandLoop.execute T fw = some outcome) :
    outcome.reply = [] ∨ outcome.reply.length = 4 := by
  unfold CommandLoop.execute at ran
  split at ran
  · split at ran
    · cases Option.some.inj ran
      cases MainLoop.onCommandEffect T fw _ with
      | program _ opens => exact .inl (by rw [opens])
      | block _ _ _ opens => exact .inl (by rw [opens])
      | answer _ _ _ _ done => exact .inr (by rw [done]; rfl)
      | silent _ _ _ done => exact .inl (by rw [done])
    · cases Option.some.inj ran
      exact .inl rfl
  · rename_i use _
    cases Option.some.inj ran
    cases use <;> exact .inr rfl
  · contradiction

theorem busyConsume {fw fw' : Firmware τ} {byte : UInt8} (read : CommandLoop.consume fw byte = some fw') :
    busy fw.pc = 0 ∧ busy fw'.pc ≤ 1 := by
  have small : ∀ pc, busy pc ≤ 1 := by
    intro pc
    cases pc <;> simp [busy]
  refine ⟨?_,small _⟩
  cases pc : fw.pc <;> simp_all [CommandLoop.consume,busy]

theorem busyExecute {fw : Firmware τ} {outcome : Outcome τ} (ran : CommandLoop.execute T fw = some outcome) :
    busy fw.pc = 1 ∧ busy outcome.firmware.pc = 0 := by
  have waits : ∀ use blockNum failed, busy (nextBlock use blockNum failed) = 0 := by
    intro use blockNum failed
    unfold nextBlock
    repeat' split
    all_goals rfl
  unfold CommandLoop.execute at ran
  split at ran
  · rename_i pc
    refine ⟨by rw [pc]; rfl,?_⟩
    split at ran
    · cases Option.some.inj ran
      cases MainLoop.onCommandEffect T fw _ with
      | program _ opens => rw [opens]; rfl
      | block _ _ _ opens => rw [opens]; rfl
      | answer _ _ _ _ done => rw [done]; rfl
      | silent pc ended _ done =>
        rw [done]
        rcases ended with rfl | rfl <;> rfl
    · cases Option.some.inj ran
      rfl
  · rename_i use pc
    refine ⟨by rw [pc]; rfl,?_⟩
    cases Option.some.inj ran
    cases use with
    | program blockNum => exact waits _ _ _
    | verify blockNum => exact waits _ _ _
    | _ => rfl
  · contradiction

theorem stampSlot (n : Nat) (writes : List Bytes) :
    (stampAll n writes).flatten.length = writes.flatten.length ∧ (stampAll n writes).length = writes.length := by
  refine ⟨stampAllLength n writes,?_⟩
  induction writes generalizing n with
  | nil => rfl
  | cons bytes rest ih => rw [stampAll,List.length_cons,ih,List.length_cons]

/- What a step costs: the firmware may answer, the window may write, all else is paid. -/
theorem loadStep {s t : Sys τ} {a : Action} {writes : List Bytes} (protocol : Protocol a) (ran : step T s a = some t)
    (written : t.written = s.written ++ writes) (short : s.m_rxBuf.length < 4) :
    load t < load s + cost writes + 8 ∧
    ((∀ outcome, a = .execute → CommandLoop.execute T s.firmware = some outcome → outcome.reply = []) →
      load t < load s + cost writes) := by
  have unwritten : t.written = s.written → writes = [] := by
    intro same
    rw [same] at written
    simpa using written
  suffices paid : load t < load s + cost writes ∨ (load t < load s + cost writes + 8 ∧
      ∃ outcome, a = .execute ∧ CommandLoop.execute T s.firmware = some outcome ∧ outcome.reply ≠ []) by
    rcases paid with paid | ⟨paid,outcome,same,now,some⟩
    · exact ⟨by omega,fun _ => paid⟩
    · exact ⟨paid,fun none => absurd (none outcome same now) some⟩
  cases a with
  | slotWrite =>
    left
    simp only [step,slotWrite] at ran
    split at ran <;> try contradiction
    rename_i ba slot found
    cases Option.some.inj ran
    simp only [load,found,List.flatten_cons,List.length_append,List.length_cons]
    omega
  | transmit n =>
    left
    simp only [step,transmit,Option.ite_none_right_eq_some,Option.some.injEq] at ran
    obtain ⟨⟨_,some,inside⟩,rfl⟩ := ran
    simp only [load,List.length_append,List.length_take,List.length_drop]
    omega
  | arrive =>
    left
    simp only [step,arrive] at ran
    split at ran <;> try contradiction
    rename_i b port found
    cases Option.some.inj ran
    have room : (if s.queue.length < SERIAL_BUFFERS_SIZE then s.queue ++ [b] else s.queue).length ≤
        s.queue.length + 1 := by
      split <;> simp
    simp only [load,found,List.length_cons]
    omega
  | consume =>
    left
    obtain ⟨b,queue,firmware,cause,events,found,read,after⟩ := consumeCases ran
    obtain ⟨idle,small⟩ := busyConsume read
    rcases after with ⟨_,_,rfl⟩ | ⟨_,rfl⟩ <;> simp only [load,found,List.length_cons,idle] <;> omega
  | execute =>
    obtain ⟨outcome,now,rfl⟩ := executeCases ran
    obtain ⟨full,idle⟩ := busyExecute now
    rcases replySize now with none | four
    · left
      simp only [load,none,List.map_nil,List.append_nil,full,idle]
      omega
    · right
      refine ⟨?_,outcome,rfl,now,fun none => by rw [none] at four; contradiction⟩
      simp only [load,List.length_append,List.length_map,four,full,idle]
      omega
  | burst n =>
    left
    simp only [step,burst,Option.ite_none_right_eq_some,Option.some.injEq] at ran
    obtain ⟨⟨_,some,inside⟩,rfl⟩ := ran
    have frames : (SerialThread.receive s.m_rxBuf [s.replies.take n]).1.length ≤ (s.m_rxBuf.length + n) / 4 := by
      have heads := congrArg List.length (SerialThread.emitLoopHeads (s.m_rxBuf ++ s.replies.take n))
      rw [List.length_map,List.length_map,Frames.frames,List.length_map,List.length_range,List.length_append,
        List.length_take,Nat.min_eq_left inside] at heads
      rw [SerialThread.receiveFlat,List.flatten_cons,List.flatten_nil,List.append_nil]
      exact Nat.le_of_eq heads
    simp only [load,List.length_append,List.length_map,List.length_drop]
    omega
  | deliver =>
    left
    simp only [step,deliver] at ran
    split at ran <;> try contradiction
    · rename_i ba signals idle found
      cases Option.some.inj ran
      have same : (MainWindow.serialData s.window (ba.map Answer.byte)).writes = writes := by
        simpa [react] using written
      obtain ⟨bytes,pieces⟩ := stampSlot s.written.length writes
      simp only [load,react,idle,found,same,bytes,pieces,cost,List.length_cons,List.flatten_nil,List.length_nil]
      omega
    · rename_i signals idle found
      cases Option.some.inj ran
      simp only [load,found,List.length_cons]
      omega
  | _ => exact protocol.elim

end Measure

section Steps
variable {image : Globals} {s t : Sys τ} {talk : Talk} {a : Action}

theorem protocolAdvance (good : Flashing image s talk) (protocol : Protocol a) (ran : step T s a = some t) :
    ∃ talk' events writes, Advance image s t talk talk' events writes :=
  flashingStep good (by cases a <;> trivial) (by rintro rfl; exact protocol) ran

theorem stageSingle {n : Nat} {session : Option Session} (stage : Stage image n session talk) :
    (∀ checksum, talk.turn ≠ .queued checksum) ∧ talk.turn ≠ .stalled := by
  cases stage <;> simp

/-- Every step of the protocol pays. -/
theorem flashingPays {talk' : Talk} {events : List Event} {writes : List Bytes} (good : Flashing image s talk)
    (protocol : Protocol a) (ran : step T s a = some t) (advance : Advance image s t talk talk' events writes) :
    load t + owed talk' < load s + owed talk := by
  obtain ⟨good',move,written,log,plain,_⟩ := advance
  obtain ⟨single,running⟩ := stageSingle good.stage
  obtain ⟨most,quiet⟩ := loadStep protocol ran written good.live.short
  have less := owedMove single (liveFits good.live) (liveFits good'.live) plain move
  by_cases none : ∀ outcome, a = .execute → CommandLoop.execute T s.firmware = some outcome → outcome.reply = []
  · have paid := quiet none
    omega
  · push Not at none
    obtain ⟨outcome,rfl,now,some⟩ := none
    obtain ⟨outcome',now',after⟩ := executeCases ran
    cases Option.some.inj (now.symm.trans now')
    have size := (replySize now).resolve_left some
    obtain ⟨added,_⟩ := answerIn (f := outcome.reply.map (fun byte => ⟨byte,s.cause⟩)) (good.live.cut running)
      (by rw [List.length_map,size]) (t := t) (by rw [after]) (by rw [after]) (by rw [after])
    rw [good.live.answers,good'.live.answers] at added
    have few := stageAnswers good'.stage
    have first : talk.answers = [] := by
      rw [added,List.length_append,List.length_singleton] at few
      exact List.eq_nil_of_length_eq_zero (by omega)
    have paid := owedAnswered single plain move first (by rw [added]; simp)
    have silent : writes = [] := by
      rw [after] at written
      simpa using written
    subst silent
    have free : cost [] = 0 := rfl
    omega

theorem completeRuns {fw : Firmware τ} (complete : Complete fw) : ∃ outcome, CommandLoop.execute T fw = some outcome := by
  rcases complete with ⟨cmdID,cmdTrm,pc⟩ | ⟨use,pc⟩
  · unfold CommandLoop.execute
    rw [pc]
    dsimp only
    split <;> exact ⟨_,rfl⟩
  · exact ⟨_,by rw [CommandLoop.execute,pc]⟩

theorem servingReads {r : Req} {checksum : UInt16} {fw : Firmware τ} {n : Nat} {P : List Bytes} (byte : UInt8)
    (serving : Serving r checksum fw n P) (waiting : ¬ Complete fw) :
    P ≠ [] ∧ ∃ fw', CommandLoop.consume fw byte = some fw' := by
  cases serving with
  | command starts pc =>
    exact ⟨by simp [Req.pieces,starts],_,by rw [CommandLoop.consume,pc]⟩
  | terminator starts pc =>
    exact ⟨by simp [Req.pieces,starts],_,by rw [CommandLoop.consume,pc]⟩
  | pair starts pc => exact absurd (.inl ⟨_,_,pc⟩) waiting
  | data use data n pays few pc =>
    refine ⟨by simp,?_⟩
    rw [CommandLoop.consume,pc]
    dsimp only
    split <;> exact ⟨_,rfl⟩
  | ready use data pays pc => exact absurd (.inr ⟨_,pc⟩) waiting

/-- The link is empty where nothing can move. -/
theorem stuckLink (online : s.online = true) (stuck : ∀ a, Protocol a → step T s a = none) :
    s.slot = [] ∧ s.m_txBuf = [] ∧ s.port = [] ∧ s.replies = [] ∧ s.signals = [] := by
  have slot : s.slot = [] := by
    have now := stuck .slotWrite trivial
    simp only [step,slotWrite] at now
    split at now
    · assumption
    · contradiction
  have txBuf : s.m_txBuf = [] := by
    by_contra some
    have now := stuck (.transmit 1) trivial
    have one : 1 ≤ s.m_txBuf.length := List.length_pos_iff.mpr some
    rw [step,transmit,if_pos ⟨online,by decide,one⟩] at now
    contradiction
  have port : s.port = [] := by
    have now := stuck .arrive trivial
    simp only [step,arrive] at now
    split at now
    · assumption
    · contradiction
  have replies : s.replies = [] := by
    by_contra some
    have now := stuck (.burst 1) trivial
    have one : 1 ≤ s.replies.length := List.length_pos_iff.mpr some
    rw [step,burst,if_pos ⟨online,by decide,one⟩] at now
    contradiction
  refine ⟨slot,txBuf,port,replies,?_⟩
  have now := stuck .deliver trivial
  simp only [step,deliver] at now
  cases found : s.signals with
  | nil => rfl
  | cons signal signals => cases signal <;> simp [slot,found] at now

/-- Where nothing can move, nothing is under way. -/
theorem stuckRest (good : Flashing image s talk) (stuck : ∀ a, Protocol a → step T s a = none) : talk = ⟨[],.rest⟩ := by
  obtain ⟨slot,txBuf,port,replies,signals⟩ := stuckLink good.online stuck
  have none : talk.answers = [] := by
    rw [← good.live.answers,inbound,signals,replies,List.append_nil]
    exact Frames.framesShort good.live.short
  have holds := good.live.holds
  have stage := good.stage
  generalize latest s.log = session at stage
  cases stage with
  | closed => rfl
  | @asked session r checksum =>
    obtain ⟨⟨⟨i,P,serving,out,_⟩,fits,_⟩,_⟩ := holds
    have all := out.all rfl
    simp only [pipe,port,txBuf,slot,good.online,if_true,List.flatten_nil,List.append_nil] at all
    have waiting : ¬ Complete s.firmware := by
      intro complete
      obtain ⟨outcome,runs⟩ := completeRuns (T := T) complete
      have now := stuck .execute trivial
      simp [step,execute,runs] at now
    obtain ⟨some,_⟩ := servingReads 0 serving waiting
    cases P with
    | nil => exact absurd rfl some
    | cons piece rest =>
      have few := servingFew fits serving
      have size := congrArg List.length all
      rw [stampAllCons,List.length_append,List.length_append,stampLength] at size
      cases found : s.queue with
      | nil =>
        rw [found,List.length_nil] at size
        omega
      | cons b queue =>
        obtain ⟨_,fw',read⟩ := servingReads b.byte serving waiting
        have now := stuck .consume trivial
        simp only [step,consume,found,read] at now
        split at now <;> contradiction
  | answered => simp [Talk.answers,Turn.answer] at none
  | failed => simp [Talk.answers] at none
  | restarted => simp [Talk.answers] at none

end Steps

section Account

/- The bytes the firmware has read, in order. -/
def taken (log : List Event) : List Sent := log.flatMap Event.bytes

theorem takenAppend (l m : List Event) : taken (l ++ m) = taken l ++ taken m := List.flatMap_append

/-- No byte is lost, doubled or overtaken between a write and the firmware. -/
theorem orderStep {s t : Sys τ} {a : Action} {writes : List Bytes} (few : (pipe s).length ≤ 66)
    (online : s.online = true) (protocol : Protocol a) (ran : step T s a = some t)
    (written : t.written = s.written ++ writes) :
    taken t.log ++ pipe t = taken s.log ++ pipe s ++ (stampAll s.written.length writes).flatten := by
  have unwritten : t.written = s.written → writes = [] := by
    intro same
    rw [same] at written
    simpa using written
  have moved : pipe t = pipe s → t.log = s.log → t.written = s.written →
      taken t.log ++ pipe t = taken s.log ++ pipe s ++ (stampAll s.written.length writes).flatten := by
    intro pipes log same
    rw [pipes,log,unwritten same]
    simp [stampAll]
  cases a with
  | slotWrite =>
    have pipes := slotWritePipe ran
    simp only [step,slotWrite] at ran
    split at ran <;> try contradiction
    cases Option.some.inj ran
    exact moved pipes rfl rfl
  | transmit n =>
    have pipes := transmitPipe ran
    simp only [step,transmit,Option.ite_none_right_eq_some,Option.some.injEq] at ran
    obtain ⟨_,rfl⟩ := ran
    exact moved pipes rfl rfl
  | arrive =>
    have pipes := arrivePipe few ran
    simp only [step,arrive] at ran
    split at ran <;> try contradiction
    cases Option.some.inj ran
    exact moved pipes rfl rfl
  | consume =>
    obtain ⟨b,queue,firmware,cause,events,found,read,after⟩ := consumeCases ran
    rcases after with ⟨_,_,after⟩ | ⟨kind,after⟩
    · refine moved ?_ (by rw [after]) (by rw [after])
      rw [after]
      simp [pipe,found]
    · have unit : taken events = s.part ++ [b] := by
        rcases kind with ⟨_,_,_,rfl,_⟩ | ⟨_,rfl,_⟩ <;> simp [taken,Event.bytes]
      rw [unwritten (by rw [after]),after]
      simp only [takenAppend,unit,pipe,found,stampAll]
      simp
  | execute =>
    obtain ⟨outcome,_,after⟩ := executeCases ran
    have silent : taken (outcome.ops.map .performed) = [] := by
      rw [taken,List.flatMap_map]
      exact List.flatMap_eq_nil_iff.mpr (fun _ _ => rfl)
    rw [unwritten (by rw [after]),after]
    simp only [takenAppend,silent,pipe,stampAll]
    simp
  | burst n =>
    simp only [step,burst,Option.ite_none_right_eq_some,Option.some.injEq] at ran
    obtain ⟨_,rfl⟩ := ran
    exact moved rfl rfl rfl
  | deliver =>
    simp only [step,deliver] at ran
    split at ran <;> try contradiction
    · rename_i ba signals idle found
      cases Option.some.inj ran
      have same : (MainWindow.serialData s.window (ba.map Answer.byte)).writes = writes := by
        simpa [react] using written
      have silent : ∀ reports : List MainWindow.Report, taken (.acted ba :: reports.map .reported) = [] := by
        intro reports
        refine List.flatMap_eq_nil_iff.mpr (fun event inside => ?_)
        rcases List.mem_cons.mp inside with rfl | inside
        · rfl
        · obtain ⟨_,_,rfl⟩ := List.mem_map.mp inside
          rfl
      simp only [react,takenAppend,silent,pipe,same,idle,online,if_true]
      simp
    · rename_i signals idle found
      cases Option.some.inj ran
      exact moved rfl rfl rfl
  | _ => exact protocol.elim

/- The state of the books of a session whose first write is write `n`. -/
structure Booked (g : Globals) (n : Nat) (t : Sys τ) : Prop where
  inside : n ≤ t.written.length
  order : taken t.log ++ pipe t = (stampAll n (t.written.drop n)).flatten
  log : ∃ events, t.log = .click g n :: events ∧ ∀ event ∈ events, Plain event

theorem bookedStep {image g : Globals} {n : Nat} {s t : Sys τ} {talk : Talk} {a : Action} (booked : Booked g n s)
    (good : Flashing image s talk) (protocol : Protocol a) (ran : step T s a = some t) : Booked g n t := by
  obtain ⟨_,more,writes,_,_,written,log,plain,_⟩ := protocolAdvance good protocol ran
  have order := orderStep (pipeBound good.live) good.online protocol ran written
  have inside := booked.inside
  obtain ⟨events,before,quiet⟩ := booked.log
  refine ⟨by rw [written,List.length_append]; omega,?_,events ++ more,by rw [log,before]; rfl,?_⟩
  · have count : s.written.length = n + (s.written.drop n).length := by
      rw [List.length_drop]
      omega
    rw [order,booked.order,written,List.drop_append_of_le_length inside,stampAllAppend,← count]
  · intro event member
    rcases List.mem_append.mp member with old | new
    · exact quiet event old
    · exact plain event new

/-- What is under way never exceeds one command with its block, or one reply. -/
structure Account (s t : Sys τ) : Prop where
  unread : (t.queue ++ t.port ++ t.m_txBuf ++ t.slot.flatten).length ≤ 66
  replies : 4 * (heads t.signals).length + (t.m_rxBuf ++ t.replies).length ≤ 4
  order : taken t.log ++ t.part ++ t.queue ++ t.port ++ t.m_txBuf ++ t.slot.flatten =
    (stampAll s.written.length (t.written.drop s.written.length)).flatten

/- The end of a session: all that was written is read, and one outcome is reported. -/
structure Finished (s t : Sys τ) : Prop where
  top : t.firmware.pc = .cmdID
  queue : t.queue = []
  read : taken t.log = (stampAll s.written.length (t.written.drop s.written.length)).flatten
  outcome : finals t.log = 1

theorem accountBooked {image g : Globals} {s t : Sys τ} {talk : Talk} (good : Flashing image t talk)
    (booked : Booked g s.written.length t) : Account s t := by
  have bound := pipeBound good.live
  have order := booked.order
  rw [pipe,good.online,if_pos rfl] at bound order
  refine ⟨?_,?_,by rw [← order]; simp⟩
  · simp only [List.length_append] at bound ⊢
    omega
  · obtain ⟨_,running⟩ := stageSingle good.stage
    have few := stageAnswers good.stage
    rw [← good.live.answers,inbound,List.length_append,Frames.frames,List.length_map,List.length_range] at few
    have cut := good.live.cut running
    omega

theorem finishedBooked {image g : Globals} {s t : Sys τ} {talk : Talk} (good : Flashing image t talk)
    (booked : Booked g s.written.length t) (stuck : ∀ a, Protocol a → step T t a = none) : Finished s t := by
  cases stuckRest good stuck
  obtain ⟨empty,top⟩ := good.live.holds
  have order := booked.order
  rw [empty,List.append_nil] at order
  obtain ⟨events,log,plain⟩ := booked.log
  have stage := good.stage
  have now : latest t.log = some ⟨g,s.written.length,events⟩ := by
    have split : t.log = [] ++ [.click g s.written.length] ++ events := log
    rw [split,latestAppend _ plain,latestClick]
    rfl
  refine ⟨top,?_,order,?_⟩
  · simp only [pipe,List.append_eq_nil_iff] at empty
    exact empty.1.1.2
  · rw [now] at stage
    have one : finals events = 1 := by
      cases stage with
      | closed ended => exact ended _ rfl
    rw [log,finals,List.countP_cons_of_neg (by simp [Event.isFinal]),← finals,one]

/-- A click on an idle system opens a session with everything still to be done. -/
theorem flashingFlash {s t : Sys τ} (idle : Idle s) (fresh : s.log = []) (ran : step T s .flash = some t) :
    (∃ talk, Flashing s.window.globals t talk ∧ load t + owed talk = 104431) ∧
    Booked s.window.globals s.written.length t := by
  have shut : sessionOpen s.log = false := by
    rw [fresh]
    rfl
  obtain ⟨good,_,_⟩ := flashingClick (flashingIdle idle fresh) shut ran
  simp only [step,flash,Option.ite_none_right_eq_some,Option.some.injEq] at ran
  obtain ⟨_,after⟩ := ran
  constructor
  · refine ⟨_,good,?_⟩
    rw [← after]
    simp [load,owed,react,MainWindow.targetFlash,MainWindow.command,stampAll,stamp,idle.txBuf,idle.port,
      idle.queue,idle.replies,idle.signals,idle.top,busy,remaining]
  · refine ⟨by rw [← after]; simp [react],?_,[],by rw [← after]; simp [react,fresh,MainWindow.targetFlash],by simp⟩
    rw [← after]
    simp [react,fresh,taken,Event.bytes,pipe,MainWindow.targetFlash,idle.part,idle.queue,idle.port,idle.txBuf,idle.online]

/- A session that owes `m` steps at most. -/
def Owing (image : Globals) (n : Nat) (t : Sys τ) (m : Nat) : Prop :=
  ∃ talk, Flashing image t talk ∧ load t + owed talk = m ∧ Booked image n t

theorem owingStep {image : Globals} {n m : Nat} {s t : Sys τ} {a : Action} (owing : Owing image n s m)
    (protocol : Protocol a) (ran : step T s a = some t) : ∃ less < m, Owing image n t less := by
  obtain ⟨talk,good,size,booked⟩ := owing
  obtain ⟨talk',_,_,advance⟩ := protocolAdvance good protocol ran
  exact ⟨_,size ▸ flashingPays good protocol ran advance,talk',advance.flashing,rfl,
    bookedStep booked good protocol ran⟩

/-- A session with one click ends after finitely many steps, and until then every byte
is accounted for. -/
theorem singleClick {s s' t : Sys τ} {as : List Action} (idle : Idle s) (fresh : s.log = [])
    (clicked : step T s .flash = some s') (run : Transition.Run (step T) (fun _ a => Protocol a) s' as t) :
    as.length ≤ 104431 ∧ Account s t ∧ ((∀ a, Protocol a → step T t a = none) → Finished s t) := by
  obtain ⟨⟨talk,good,start⟩,booked⟩ := flashingFlash idle fresh clicked
  obtain ⟨m,⟨talk',good',_,booked'⟩,bound⟩ := Transition.runBound (Owing s.window.globals s.written.length)
    (fun _ _ _ _ => owingStep) run ⟨talk,good,start,booked⟩
  exact ⟨by omega,accountBooked good' booked',finishedBooked good' booked'⟩

/- A session of a blank image, to its end. -/
theorem singleClickBlank : ∃ s' as t,
    step (obliging 0) (connected Loader.noGlobals ()) .flash = some s' ∧
    Transition.Run (step (obliging 0)) (fun _ a => Protocol a) s' as t ∧ as.length ≤ 104431 ∧
    Finished (connected Loader.noGlobals ()) t := by
  have idle : Idle (connected Loader.noGlobals ()) := connectedIdle _ _
  have clicked : ∃ s', step (obliging 0) (connected Loader.noGlobals ()) .flash = some s' := ⟨_,rfl⟩
  obtain ⟨s',clicked⟩ := clicked
  obtain ⟨⟨talk,good,start⟩,booked⟩ := flashingFlash idle rfl clicked
  obtain ⟨as,t,_,run,_,stuck⟩ := Transition.runToEnd (Owing _ _) (fun _ _ _ _ => owingStep (T := obliging 0))
    ⟨talk,good,start,booked⟩
  obtain ⟨few,_,finished⟩ := singleClick idle rfl clicked run
  exact ⟨s',as,t,clicked,run,few,finished stuck⟩

end Account
end HsspProgrammer.Progress
