import HsspProgrammer.Provenance

/-! A connection that is lost and opened again. The firmware keeps its state, and only
the buffers of the host are cleared, so a new session is undisturbed exactly when
nothing of the old one is left when Flash is clicked. -/
namespace HsspProgrammer.Recovery
open Ascii (Bytes)
open Loader (Globals noGlobals)
open MainWindow (command)
open CommandLoop hiding execute consume
open Programmer Exchange Conversation Provenance Frames

variable {τ : Type} {T : Target τ}

/- The firmware waits for a command, nothing is on its way to it and no answer is left. -/
structure Quiet (s : Sys τ) : Prop where
  pipe : pipe s = []
  top : s.firmware.pc = .cmdID
  replies : s.m_rxBuf ++ s.replies = []
  signals : heads s.signals = []

instance (s : Sys τ) : Decidable (Quiet s) :=
  decidable_of_iff (pipe s = [] ∧ s.firmware.pc = .cmdID ∧ s.m_rxBuf ++ s.replies = [] ∧ heads s.signals = [])
    ⟨fun ⟨pipe,top,replies,signals⟩ => ⟨pipe,top,replies,signals⟩,
     fun quiet => ⟨quiet.pipe,quiet.top,quiet.replies,quiet.signals⟩⟩

def Action.isFlash : Action → Bool
  | .flash => true
  | _ => false

def QuietClicks (s : Sys τ) (a : Action) : Prop := Action.isFlash a = true → Quiet s

/- The window is connected to a port that is open. -/
def OnlineClicks (s : Sys τ) (a : Action) : Prop := Action.isFlash a = true → s.online = true

instance (s : Sys τ) (a : Action) : Decidable (QuietClicks s a) := inferInstanceAs (Decidable (_ → _))

instance (s : Sys τ) (a : Action) : Decidable (OnlineClicks s a) := inferInstanceAs (Decidable (_ → _))

/- There is a block command among the writes from `i` on, before write `n`. -/
def Opened (written : List Bytes) (i n : Nat) : Prop :=
  ∃ j, i ≤ j ∧ j < n ∧ written[j]? = some (command Ascii.c)

/-- What becomes of a session whose first write is write `i`: its `a` is read as a
command, no byte of it is read as part of a block before its first block command, and
no answer to an older command is acted on. -/
structure Recovered (s : Sys τ) : Prop where
  pair : ∀ image i, .click image i ∈ s.log → ∀ event ∈ s.log, ∀ b ∈ Event.bytes event, b.write = i →
    event = .commandRead (stamp i (command Ascii.a))
  reading : ∀ image i, .click image i ∈ s.log → ∀ b ∈ s.part, b.write = i → ∃ cmdID, s.firmware.pc = .cmdTrm cmdID
  blocks : ∀ image i, .click image i ∈ s.log → ∀ bytes, .blockRead bytes ∈ s.log → ∀ b ∈ bytes, i ≤ b.write →
    Opened s.written i b.write
  part : ∀ image i, .click image i ∈ s.log → ∀ use got, s.firmware.pc = .data use got → ∀ b ∈ s.part,
    i ≤ b.write → Opened s.written i b.write
  acted : ∀ front image i back ba, s.log = front ++ .click image i :: back → .acted ba ∈ back →
    ∀ x ∈ ba, i ≤ x.cause

section Dropping
/- What the loss of bytes and of the connection does to the conversation. -/
variable {s t : Sys τ} {talk : Talk}

/- At most one answer is on its way, and only when nothing is asked. -/
structure Single (talk : Talk) : Prop where
  one : talk.answers.length ≤ 1
  asked : ∀ r checksum, talk.turn = .asked r checksum → talk.spent = []
  queued : ∀ checksum, talk.turn ≠ .queued checksum

theorem liveQuiet {whole : Bool} (quiet : Quiet s) : Live whole s ⟨[],.rest⟩ := by
  have answers : inbound s = [] := by
    rw [inbound,quiet.signals,quiet.replies]
    exact framesShort (by decide)
  have short : s.m_rxBuf = [] := (List.append_eq_nil_iff.mp quiet.replies).1
  refine ⟨answers,by rw [short]; decide,fun _ => ?_,by simp,by simp,by simp,quiet.pipe,quiet.top⟩
  rw [quiet.replies]
  exact Nat.dvd_zero 4

theorem holdsPrefix {turn : Turn} (shorter : pipe t <+: pipe s) (part : t.part = s.part)
    (firmware : t.firmware = s.firmware) (written : t.written = s.written)
    (counter : t.window.blockCntr = s.window.blockCntr) (holds : Holds false s turn) : Holds false t turn := by
  have nothing : pipe s = [] → pipe t = [] := by
    intro empty
    rw [empty] at shorter
    exact List.prefix_nil.mp shorter
  have asked : ∀ {r checksum later}, Asked false s r checksum later → Asked false t r checksum later := by
    rintro r checksum later ⟨⟨i,P,serving,out,inside⟩,fits,pieces⟩
    refine ⟨⟨i,P,?_,⟨shorter.trans out.order,by simp,written ▸ out.written⟩,written ▸ inside⟩,fits,written ▸ pieces⟩
    rw [part,firmware]
    exact serving
  have counted : ∀ r, Counted s.window r → Counted t.window r := by
    intro r
    cases r <;> simp only [Counted,counter] <;> exact id
  cases turn with
  | rest => exact ⟨nothing holds.1,firmware ▸ holds.2⟩
  | asked r checksum => exact ⟨asked holds.1,counted r holds.2⟩
  | queued checksum => exact asked holds
  | answered r checksum f =>
    obtain ⟨empty,pc,running,fits,count,rest⟩ := holds
    exact ⟨nothing empty,firmware ▸ pc,firmware ▸ running,fits,counted r count,rest.1,rest.2.1,
      written ▸ rest.2.2⟩
  | stalled => exact ⟨nothing holds.1,firmware ▸ holds.2⟩

/-- Bytes on the way to the firmware are cut off. -/
theorem liveCut (live : Live false s talk) (signals : heads t.signals = heads s.signals)
    (rxBuf : t.m_rxBuf = s.m_rxBuf) (replies : t.replies = s.replies) (shorter : pipe t <+: pipe s)
    (part : t.part = s.part) (firmware : t.firmware = s.firmware) (written : t.written = s.written)
    (counter : t.window.blockCntr = s.window.blockCntr) : Live false t talk where
  answers := by rw [inbound,signals,rxBuf,replies]; exact live.answers
  short := rxBuf ▸ live.short
  cut := by rw [rxBuf,replies]; exact live.cut
  few := by rw [rxBuf,replies]; exact live.few
  spent := live.spent
  early := live.early
  holds := holdsPrefix shorter part firmware written counter live.holds

/-- Bytes of the one answer are lost; what is left of it will never be a whole one. -/
theorem liveTorn (live : Live false s talk) (single : Single talk) (signals : heads t.signals = heads s.signals)
    (fewer : (t.m_rxBuf ++ t.replies).length < (s.m_rxBuf ++ s.replies).length) (short : t.m_rxBuf.length < 4)
    (shorter : pipe t <+: pipe s) (firmware : t.firmware = s.firmware) :
    ∃ talk', Live false t talk' ∧ Single talk' ∧ talk'.turn = .stalled := by
  have one := single.one
  have answers := live.answers
  have holds := live.holds
  by_cases ended : talk.turn = .stalled
  · have few := (live.few ended).1
    rw [ended] at holds
    refine ⟨talk,⟨?_,short,fun running => absurd ended running,fun _ => ⟨by omega,rfl⟩,live.spent,live.early,?_⟩,
      single,ended⟩
    · rw [inbound,signals,framesShort (by omega),← answers,inbound,framesShort few]
    · rw [ended]
      exact ⟨List.prefix_nil.mp (holds.1 ▸ shorter),firmware ▸ holds.2⟩
  · have cut := live.cut ended
    rw [← answers,inbound,List.length_append,frames,List.length_map,List.length_range] at one
    have none : heads s.signals = [] := List.eq_nil_of_length_eq_zero (by omega)
    have idle : pipe s = [] ∧ ¬ Complete s.firmware := by
      cases turn : talk.turn with
      | rest =>
        rw [turn] at holds
        exact ⟨holds.1,by rintro (⟨_,_,pc⟩ | ⟨_,pc⟩) <;> rw [holds.2] at pc <;> contradiction⟩
      | asked r checksum =>
        have nothing : talk.answers = [] := by
          rw [Talk.answers,single.asked r checksum turn,turn]
          rfl
        have size := congrArg List.length answers
        rw [nothing,inbound,List.length_append,frames,List.length_map,List.length_range,List.length_nil] at size
        omega
      | queued checksum => exact absurd turn (single.queued checksum)
      | answered r checksum f =>
        rw [turn] at holds
        exact ⟨holds.1,afterWaits holds.2.1⟩
      | stalled => exact absurd turn ended
    refine ⟨⟨[],.stalled⟩,⟨?_,short,fun running => absurd rfl running,fun _ => ⟨by omega,rfl⟩,by simp,by simp,?_⟩,
      ⟨by simp [Talk.answers,Turn.answer],by simp,by simp⟩,rfl⟩
    · rw [inbound,signals,none,framesShort (by omega)]
      rfl
    · exact ⟨List.prefix_nil.mp (idle.1 ▸ shorter),firmware ▸ idle.2⟩

/-- A step that opens or closes the port, or loses an answer. -/
theorem liveDrop {a : Action} (live : Live false s talk) (single : Single talk) (drop : ¬ Connected a)
    (ran : step T s a = some t) :
    t.written = s.written ∧ t.log = s.log ∧
    ∃ talk', Live false t talk' ∧ Single talk' ∧ (talk' = talk ∨ talk'.turn = .stalled) := by
  cases a with
  | disconnect kept =>
    simp only [step,disconnect,Option.ite_none_right_eq_some,Option.some.injEq] at ran
    obtain ⟨_,rfl⟩ := ran
    refine ⟨rfl,rfl,talk,liveCut live rfl rfl rfl ?_ rfl rfl rfl rfl,single,.inl rfl⟩
    simp only [pipe,Bool.false_eq_true,if_false,List.append_nil]
    exact ((List.prefix_append_right_inj _).mpr (List.take_prefix _ _)).trans (List.prefix_append _ _)
  | writeTimeout n kept =>
    simp only [step,writeTimeout,Option.ite_none_right_eq_some,Option.some.injEq] at ran
    obtain ⟨⟨online,_⟩,rfl⟩ := ran
    refine ⟨rfl,rfl,talk,liveCut live ?_ rfl rfl ?_ rfl rfl rfl rfl,single,.inl rfl⟩
    · rw [headsAppend]
      exact List.append_nil _
    · simp only [pipe,online,if_true,Bool.false_eq_true,if_false,List.append_nil,List.append_assoc]
      refine (List.prefix_append_right_inj _).mpr ((List.prefix_append_right_inj _).mpr ?_)
      refine (List.take_prefix _ _).trans ((List.prefix_append_right_inj _).mpr ?_)
      exact (List.take_prefix _ _).trans (List.prefix_append _ _)
  | connect =>
    simp only [step,connect,Option.ite_none_right_eq_some,Option.some.injEq] at ran
    obtain ⟨⟨idle,_⟩,after⟩ := ran
    have shorter : pipe t <+: pipe s := by
      rw [← after]
      simp only [pipe,idle,if_true,List.flatten_nil,List.append_nil]
      exact List.prefix_append _ _
    have kept : t.written = s.written ∧ t.log = s.log ∧ t.signals = s.signals ∧ t.m_rxBuf = [] ∧
        t.replies = s.replies ∧ t.part = s.part ∧ t.firmware = s.firmware ∧
        t.window.blockCntr = s.window.blockCntr := by
      rw [← after]
      exact ⟨rfl,rfl,rfl,rfl,rfl,rfl,rfl,rfl⟩
    obtain ⟨written,log,signals,rxBuf,replies,part,firmware,counter⟩ := kept
    refine ⟨written,log,?_⟩
    cases found : s.m_rxBuf with
    | nil =>
      exact ⟨talk,liveCut live (by rw [signals]) (rxBuf.trans found.symm) replies shorter part firmware written counter,
        single,.inl rfl⟩
    | cons x rest =>
      obtain ⟨talk',live',single',ended⟩ := liveTorn live single (by rw [signals])
        (by rw [rxBuf,replies,found]; simp only [List.nil_append,List.length_append,List.length_cons]; omega)
        (by rw [rxBuf]; decide) shorter firmware
      exact ⟨talk',live',single',.inr ended⟩
  | lose =>
    simp only [step,lose,Option.ite_none_right_eq_some,Option.some.injEq] at ran
    obtain ⟨⟨_,some⟩,rfl⟩ := ran
    have size := List.length_pos_iff.mpr some
    obtain ⟨talk',live',single',ended⟩ := liveTorn (t := {s with replies := s.replies.drop 1}) live single rfl
      (by simp only [List.length_append,List.length_drop]; omega) live.short (List.prefix_refl _) rfl
    exact ⟨rfl,rfl,talk',live',single',.inr ended⟩
  | _ => exact absurd trivial drop

end Dropping

section Blocks
/- The block passes of a session come after its first block command. -/
variable {s : Sys τ} {talk : Talk}

def Begun (base : Nat) (written : List Bytes) : Turn → Prop
  | .asked r _ | .answered r _ _ =>
    r = .initial ∨ r = .erase ∨ ∃ j, base ≤ j ∧ written[j]? = some (command Ascii.c)
  | _ => True

theorem singleMove {g : Globals} {n : Nat} {talk talk' : Talk} {events : List Event} {writes : List Bytes}
    (single : Single talk) (plain : ∀ event ∈ events, Plain event) (move : Move g n talk events writes talk') :
    Single talk' := by
  have one := single.one
  have clicked : ¬ ∀ event ∈ [Event.click g n], Plain event :=
    fun plain => plain _ (List.mem_singleton_self _) g n rfl
  cases move with
  | stay => exact single
  | garble many => exact absurd many (by omega)
  | click => exact absurd plain clicked
  | clickBehind => exact absurd plain clicked
  | @report f spent turn ba reports =>
    refine ⟨?_,fun r checksum now => ?_,single.queued⟩
    · simp only [Talk.answers,List.cons_append,List.length_cons] at one ⊢
      omega
    · have none := single.asked r checksum now
      contradiction
  | next => exact ⟨by simp [Talk.answers,Turn.answer],by simp,by simp⟩
  | @succeed spent r checksum f =>
    cases single.asked r checksum rfl
    exact ⟨by simp [Talk.answers,Turn.answer],by simp,by simp⟩
  | @finish spent checksum f =>
    cases single.asked .reStart checksum rfl
    exact ⟨by simp [Talk.answers,Turn.answer],by simp,by simp⟩
  | @finishBehind spent checksum f => exact absurd rfl (single.queued checksum)
  | @fail spent r checksum f =>
    cases single.asked r checksum rfl
    exact ⟨by simp [Talk.answers,Turn.answer],by simp,by simp⟩

theorem begunLater {base : Nat} {written writes : List Bytes} {turn : Turn} (begun : Begun base written turn) :
    Begun base (written ++ writes) turn := by
  cases turn with
  | asked r checksum | answered r checksum f =>
    rcases begun with first | second | ⟨j,late,found⟩
    · exact .inl first
    · exact .inr (.inl second)
    · exact .inr (.inr ⟨j,late,(List.getElem?_append_left (List.getElem?_eq_some_iff.mp found).1).trans found⟩)
  | _ => trivial

theorem begunMove {g : Globals} {n base : Nat} {written : List Bytes} {talk talk' : Talk} {events : List Event}
    {writes : List Bytes} (begun : Begun base written talk.turn) (single : Single talk) (inside : base ≤ written.length)
    (plain : ∀ event ∈ events, Plain event) (move : Move g n talk events writes talk') :
    Begun base (written ++ writes) talk'.turn := by
  have one := single.one
  have clicked : ¬ ∀ event ∈ [Event.click g n], Plain event :=
    fun plain => plain _ (List.mem_singleton_self _) g n rfl
  have later : Begun base (written ++ writes) talk.turn := begunLater begun
  cases move with
  | stay => exact later
  | garble many => exact absurd many (by omega)
  | click => exact absurd plain clicked
  | clickBehind => exact absurd plain clicked
  | report => exact later
  | @next r r' checksum f ba reports next =>
    rcases later with rfl | rfl | opened
    · cases Option.some.inj next
      exact .inr (.inl rfl)
    · cases Option.some.inj next
      refine .inr (.inr ⟨written.length,inside,?_⟩)
      rw [List.getElem?_append_right (Nat.le_refl _),Nat.sub_self]
      rfl
    · exact .inr (.inr opened)
  | succeed => exact later
  | finish => trivial
  | finishBehind => exact absurd rfl (single.queued _)
  | fail => trivial

/-- While the firmware reads a block, the bytes on their way are of the last write. -/
theorem blockLast (live : Live false s talk) (single : Single talk) {use : Use} {got : Bytes}
    (pc : s.firmware.pc = .data use got) {b : Sent} (inside : b ∈ pipe s) :
    ∃ r checksum data, talk.turn = .asked r checksum ∧ r.payload = some (use,data) ∧
      s.written[b.write]? = some data ∧ b.write + 1 = s.written.length ∧ data.length = 64 := by
  have holds := live.holds
  cases turn : talk.turn with
  | rest => rw [turn] at holds; rw [holds.1] at inside; cases inside
  | answered r checksum f => rw [turn] at holds; rw [holds.1] at inside; cases inside
  | stalled => rw [turn] at holds; rw [holds.1] at inside; cases inside
  | queued checksum => exact absurd turn (single.queued checksum)
  | asked r checksum =>
    rw [turn] at holds
    obtain ⟨⟨⟨i,P,serving,out,_⟩,fits,pieces⟩,_⟩ := holds
    generalize s.part.length = n at serving
    cases serving with
    | command starts waits => rw [pc] at waits; contradiction
    | terminator starts waits => rw [pc] at waits; contradiction
    | pair starts waits => rw [pc] at waits; contradiction
    | ready use data pays waits => rw [pc] at waits; contradiction
    | data use' data n pays few waits =>
      rw [pc] at waits
      cases waits
      have member := out.order.subset inside
      have size := congrArg List.length out.written
      have last := congrArg (fun writes => writes[0]?) out.written
      rw [List.append_nil,stampAllCons] at member
      have write : b.write = i := by
        rcases List.mem_append.mp member with now | none
        · exact stampWrite now
        · cases none
      simp only [List.getElem?_drop,Nat.add_zero,List.append_nil,List.getElem?_cons_zero,List.length_drop,
        List.length_singleton] at last size
      exact ⟨r,checksum,data,rfl,pays,by rw [write]; exact last,by omega,payloadLength fits pays⟩

theorem blockOpened {base : Nat} (live : Live false s talk) (single : Single talk)
    (begun : Begun base s.written talk.turn) {use : Use} {got : Bytes} (pc : s.firmware.pc = .data use got) {b : Sent}
    (inside : b ∈ pipe s) : Opened s.written base b.write := by
  obtain ⟨r,checksum,data,turn,pays,last,count,size⟩ := blockLast live single pc inside
  rw [turn] at begun
  rcases begun with rfl | rfl | ⟨j,late,found⟩
  · contradiction
  · contradiction
  · refine ⟨j,late,?_,found⟩
    have before := (List.getElem?_eq_some_iff.mp found).1
    have other : j ≠ b.write := by
      rintro rfl
      rw [last] at found
      cases Option.some.inj found
      contradiction
    omega

/-- A byte that is being read is of a command or of a block. -/
theorem partRead (live : Live false s talk) (single : Single talk) {b : Sent} (inside : b ∈ s.part) :
    (∃ cmdID, s.firmware.pc = .cmdTrm cmdID) ∨ ∃ use got, s.firmware.pc = .data use got := by
  have holds := live.holds
  have flows : b ∈ pipe s := by simp [pipe,inside]
  cases turn : talk.turn with
  | rest => rw [turn] at holds; rw [holds.1] at flows; cases flows
  | answered r checksum f => rw [turn] at holds; rw [holds.1] at flows; cases flows
  | stalled => rw [turn] at holds; rw [holds.1] at flows; cases flows
  | queued checksum => exact absurd turn (single.queued checksum)
  | asked r checksum =>
    rw [turn] at holds
    obtain ⟨⟨⟨i,P,serving,_,_⟩,_,_⟩,_⟩ := holds
    have some : s.part.length ≠ 0 := Nat.ne_of_gt (List.length_pos_of_mem inside)
    generalize s.part.length = n at serving some
    cases serving with
    | command => exact absurd rfl some
    | terminator starts waits => exact .inl ⟨_,waits⟩
    | pair => exact absurd rfl some
    | ready => exact absurd rfl some
    | data use data n pays few waits => exact .inr ⟨_,_,waits⟩

end Blocks

section Runs

/- The log so far. -/
structure Told (s : Sys τ) : Prop where
  whole : ∀ event ∈ s.log, Event.Whole s.written event
  clicks : ∀ image i, .click image i ∈ s.log → s.written[i]? = some (command Ascii.a)
  blocks : ∀ image i, .click image i ∈ s.log → ∀ bytes, .blockRead bytes ∈ s.log → ∀ b ∈ bytes, i ≤ b.write →
    Opened s.written i b.write
  acted : ∀ front image i back ba, s.log = front ++ .click image i :: back → .acted ba ∈ back →
    ∀ x ∈ ba, i ≤ x.cause

/- Everything in the buffers is of the session whose first write is write `base`. -/
structure Recovering (base : Nat) (s : Sys τ) (talk : Talk) : Prop where
  live : Live false s talk
  single : Single talk
  begun : Begun base s.written talk.turn
  inside : base ≤ s.written.length
  latest : ∀ image i, .click image i ∈ s.log → i ≤ base
  stamps : ∀ b ∈ pipe s, base ≤ b.write
  causes : ∀ x ∈ received s, base ≤ x.cause
  cause : Engaged s.firmware.pc → base ≤ s.cause
  told : Told s

theorem openedLater {written writes : List Bytes} {base i n : Nat} (older : i ≤ base) (opened : Opened written base n) :
    Opened (written ++ writes) i n := by
  obtain ⟨j,late,early,found⟩ := opened
  exact ⟨j,by omega,early,(List.getElem?_append_left (List.getElem?_eq_some_iff.mp found).1).trans found⟩

theorem wholeWritten {written : List Bytes} {event : Event} (whole : Event.Whole written event) {b : Sent}
    (inside : b ∈ event.bytes) : b.write < written.length := by
  cases event with
  | commandRead pair =>
    obtain ⟨i,cmdID,found,rfl⟩ := whole
    rw [stampWrite inside]
    exact (List.getElem?_eq_some_iff.mp found).1
  | blockRead bytes =>
    obtain ⟨i,data,found,_,rfl⟩ := whole
    rw [stampWrite inside]
    exact (List.getElem?_eq_some_iff.mp found).1
  | _ => cases inside

theorem recoveringRecovered {base : Nat} {s : Sys τ} {talk : Talk} (recovering : Recovering base s talk) :
    Recovered s := by
  obtain ⟨live,single,begun,_,latest,_,_,_,told⟩ := recovering
  refine ⟨?_,?_,told.blocks,?_,told.acted⟩
  · rintro image i clicked event inside b member rfl
    have first := told.clicks image b.write clicked
    have whole := told.whole event inside
    cases event with
    | commandRead pair =>
      obtain ⟨i,cmdID,found,rfl⟩ := whole
      rw [stampWrite member] at first ⊢
      rw [first] at found
      rw [← Option.some.inj found]
    | blockRead bytes =>
      obtain ⟨i,data,found,size,rfl⟩ := whole
      rw [stampWrite member] at first
      rw [first] at found
      cases Option.some.inj found
      contradiction
    | _ => cases member
  · rintro image i clicked b inside rfl
    rcases partRead live single inside with terminator | ⟨use,got,pc⟩
    · exact terminator
    · obtain ⟨_,_,data,_,_,last,_,size⟩ := blockLast live single pc (by simp [pipe,inside] : b ∈ pipe s)
      rw [told.clicks image b.write clicked] at last
      cases Option.some.inj last
      contradiction
  · intro image i clicked use got pc b inside late
    have opened := blockOpened live single begun pc (by simp [pipe,inside] : b ∈ pipe s)
    obtain ⟨j,late',early,found⟩ := opened
    exact ⟨j,Nat.le_trans (latest image i clicked) late',early,found⟩

/-- A step without a click adds to the log of the session. -/
theorem toldStep {base : Nat} {s t : Sys τ} {talk : Talk} {a : Action} {events : List Event} {writes : List Bytes}
    (recovering : Recovering base s talk) (written : t.written = s.written ++ writes)
    (log : t.log = s.log ++ events) (adds : Adds T s a events) (whole : ∀ event ∈ events, Event.Whole t.written event)
    (plain : ∀ event ∈ events, Plain event) : Told t := by
  obtain ⟨live,single,begun,_,latest,_,causes,_,told⟩ := recovering
  have old : ∀ image i, .click image i ∈ t.log → .click image i ∈ s.log := by
    intro image i clicked
    rw [log] at clicked
    exact (List.mem_append.mp clicked).resolve_right (fun now => plain _ now image i rfl)
  constructor
  · intro event inside
    rw [log] at inside
    rcases List.mem_append.mp inside with before | now
    · rw [written]
      exact wholeLater (told.whole event before)
    · exact whole event now
  · intro image i clicked
    have found := told.clicks image i (old image i clicked)
    rw [written]
    exact (List.getElem?_append_left (List.getElem?_eq_some_iff.mp found).1).trans found
  · intro image i clicked bytes inside b member late
    have clicked := old image i clicked
    rw [log] at inside
    rw [written]
    rcases List.mem_append.mp inside with before | now
    · exact openedLater (Nat.le_refl i) (told.blocks image i clicked bytes before b member late)
    · cases adds with
      | block found pc =>
        cases List.mem_singleton.mp now
        have flows : b ∈ pipe s := by
          rcases List.mem_append.mp member with part | last
          · simp [pipe,part]
          · cases List.mem_singleton.mp last
            simp [pipe,found]
        exact openedLater (latest image i clicked) (blockOpened live single begun pc flows)
      | _ => simp at now
  · intro front image i back ba split inside x member
    rw [log] at split
    rcases List.append_eq_append_iff.mp split with ⟨middle,rfl,tail⟩ | ⟨middle,before,tail⟩
    · exact absurd rfl (plain (.click image i) (by rw [tail]; simp) image i)
    · cases middle with
      | nil => exact absurd rfl (plain (.click image i) (by rw [← List.nil_append events,← tail]; simp) image i)
      | cons event middle =>
        obtain ⟨rfl,rfl⟩ := List.cons.inj tail
        rcases List.mem_append.mp inside with earlier | now
        · exact told.acted front image i middle ba before earlier x member
        · have clicked : .click image i ∈ s.log := by rw [before]; simp
          refine Nat.le_trans (latest image i clicked) (causes x ?_)
          cases adds with
          | acted reports found =>
            rcases List.mem_cons.mp now with same | other
            · cases same
              simp [received,found,answersOf,member]
            · simp at other
          | _ => simp at now

theorem quietReceived {s : Sys τ} (quiet : Quiet s) : received s = [] := by
  have signals := quiet.signals
  rw [heads,List.filterMap_eq_nil_iff] at signals
  have none : s.signals.flatMap answersOf = [] := by
    refine List.flatMap_eq_nil_iff.mpr (fun signal inside => ?_)
    have now := signals signal inside
    cases signal with
    | message ba => contradiction
    | timeout => rfl
  rw [received,List.append_assoc,none,quiet.replies]
  rfl

theorem recoveringClick {base : Nat} {s t : Sys τ} {talk : Talk} (recovering : Recovering base s talk) (quiet : Quiet s)
    (ran : step T s .flash = some t) :
    Recovering s.written.length t ⟨[],.asked .initial s.firmware.checksum⟩ := by
  have told := recovering.told
  obtain ⟨live,log,written,_⟩ := liveClick (liveQuiet quiet : Live false s _) (by simp) ran
  have older : ∀ image i, .click image i ∈ s.log → i < s.written.length :=
    fun image i clicked => (List.getElem?_eq_some_iff.mp (told.clicks image i clicked)).1
  have here : (s.written ++ Req.initial.pieces)[s.written.length]? = some (command Ascii.a) := by
    rw [List.getElem?_append_right (Nat.le_refl _),Nat.sub_self]
    rfl
  refine ⟨live,⟨by simp [Talk.answers,Turn.answer],by simp,by simp⟩,.inl rfl,?_,?_,?_,?_,?_,?_,?_,?_,?_⟩
  · rw [written,List.length_append]
    exact Nat.le_add_right _ _
  · intro image i clicked
    rw [log] at clicked
    rcases List.mem_append.mp clicked with before | now
    · exact Nat.le_of_lt (older image i before)
    · cases List.mem_singleton.mp now
      exact Nat.le_refl _
  · intro b inside
    rcases pipeStep ran b inside with old | new
    · rw [quiet.pipe] at old
      cases old
    · exact new
  · intro x inside
    rcases receivedStep ran x inside with old | ⟨_,⟨_,_,pc⟩ | ⟨_,pc⟩⟩
    · rw [quietReceived quiet] at old
      cases old
    · rw [quiet.top] at pc; contradiction
    · rw [quiet.top] at pc; contradiction
  · intro engaged
    rcases causeStep ran engaged with ⟨_,before⟩ | ⟨b,inside,_⟩
    · exact absurd quiet.top before.1
    · rw [quiet.pipe] at inside
      cases inside
  · intro event inside
    rw [log] at inside
    rw [written]
    rcases List.mem_append.mp inside with before | now
    · exact wholeLater (told.whole event before)
    · cases List.mem_singleton.mp now
      trivial
  · intro image i clicked
    rw [log] at clicked
    rw [written]
    rcases List.mem_append.mp clicked with before | now
    · exact (List.getElem?_append_left (older image i before)).trans (told.clicks image i before)
    · cases List.mem_singleton.mp now
      exact here
  · intro image i clicked bytes inside b member late
    rw [log] at clicked inside
    rw [written]
    have read : .blockRead bytes ∈ s.log := (List.mem_append.mp inside).resolve_right (by simp)
    rcases List.mem_append.mp clicked with before | now
    · exact openedLater (Nat.le_refl i) (told.blocks image i before bytes read b member late)
    · cases List.mem_singleton.mp now
      have early := wholeWritten (told.whole _ read) member
      omega
  · intro front image i back ba split inside x member
    rw [log] at split
    rcases List.append_eq_append_iff.mp split with ⟨middle,rfl,tail⟩ | ⟨middle,before,tail⟩
    · cases middle with
      | nil =>
        cases List.cons.inj tail |>.2
        cases inside
      | cons event middle => simp at tail
    · cases middle with
      | nil =>
        rw [List.nil_append] at tail
        cases (List.cons.inj tail).2
        cases inside
      | cons event middle =>
        obtain ⟨rfl,rfl⟩ := List.cons.inj tail
        have earlier : .acted ba ∈ middle := (List.mem_append.mp inside).resolve_right (by simp)
        exact told.acted front image i middle ba before earlier x member

theorem recoveringStep {s t : Sys τ} {a : Action} (recovering : ∃ base talk, Recovering base s talk)
    (quiet : QuietClicks s a) (ran : step T s a = some t) : ∃ base talk, Recovering base t talk := by
  obtain ⟨base,talk,good⟩ := recovering
  by_cases click : a = .flash
  · subst click
    exact ⟨_,_,recoveringClick good (quiet rfl) ran⟩
  obtain ⟨events,log,adds⟩ := stepLog ran
  have stamps : base ≤ s.written.length → ∀ b ∈ pipe t, base ≤ b.write := by
    intro inside b member
    exact (pipeStep ran b member).elim (good.stamps b) (Nat.le_trans inside)
  have causes : ∀ x ∈ received t, base ≤ x.cause := by
    intro x member
    rcases receivedStep ran x member with old | ⟨same,⟨_,_,pc⟩ | ⟨_,pc⟩⟩
    · exact good.causes x old
    · exact same ▸ good.cause (by rw [pc]; simp [Engaged])
    · exact same ▸ good.cause (by rw [pc]; simp [Engaged])
  have cause : Engaged t.firmware.pc → base ≤ t.cause := by
    intro engaged
    rcases causeStep ran engaged with ⟨same,before⟩ | ⟨b,inside,same⟩
    · exact same ▸ good.cause before
    · exact same ▸ good.stamps b inside
  have kept : ∀ talk' events' writes, Live false t talk' → Single talk' → Begun base t.written talk'.turn →
      t.written = s.written ++ writes → t.log = s.log ++ events' → (∀ event ∈ events', Plain event) →
      (∀ event ∈ events', Event.Whole t.written event) → Recovering base t talk' := by
    intro talk' events' writes live single begun written log' plain whole
    have later : base ≤ t.written.length := by
      rw [written,List.length_append]
      exact Nat.le_trans good.inside (Nat.le_add_right _ _)
    refine ⟨live,single,begun,later,?_,stamps good.inside,causes,cause,
      toldStep good written log' (addsSame log' log adds) whole plain⟩
    intro image i clicked
    rw [log'] at clicked
    exact good.latest image i ((List.mem_append.mp clicked).resolve_right (fun now => plain _ now image i rfl))
  by_cases connected : Connected a
  · obtain ⟨talk',events',writes,move,live,written,_,logged⟩ :=
      liveStep good.live (by simp) connected (fun same => absurd same click) ran
    have logged : Logged s t events' := logged.resolve_right (fun click' => click click'.1)
    have begun := begunMove good.begun good.single good.inside logged.plain move
    rw [← written] at begun
    exact ⟨base,talk',kept _ _ _ live (singleMove good.single logged.plain move) begun written logged.log logged.plain
      logged.whole⟩
  · obtain ⟨written,log',talk',live,single,ended⟩ := liveDrop good.live good.single connected ran
    have begun : Begun base t.written talk'.turn := by
      rcases ended with rfl | ended
      · rw [written]
        exact good.begun
      · rw [ended]
        trivial
    exact ⟨base,talk',kept talk' [] [] live single begun (by rw [written,List.append_nil])
      (by rw [log',List.append_nil]) (by simp) (by simp)⟩

theorem recoveringIdle {s : Sys τ} (idle : Idle s) (fresh : s.log = []) : Recovering 0 s ⟨[],.rest⟩ := by
  refine ⟨liveIdle idle,⟨by simp [Talk.answers,Turn.answer],by simp,by simp⟩,trivial,Nat.zero_le _,?_,?_,?_,?_,?_⟩
  · simp [fresh]
  · exact fun _ _ => Nat.zero_le _
  · exact fun _ _ => Nat.zero_le _
  · exact fun _ => Nat.zero_le _
  · exact ⟨by simp [fresh],by simp [fresh],by simp [fresh],by simp [fresh]⟩

/-- After any losses of the connection, a session that is clicked when nothing of an
older one is left is not touched by it. -/
theorem quietRecovered {s t : Sys τ} {as : List Action} (idle : Idle s) (fresh : s.log = [])
    (run : Transition.Run (step T) QuietClicks s as t) : Recovered t := by
  obtain ⟨_,_,recovering⟩ := Transition.runInvariant (fun s => ∃ base talk, Recovering base s talk)
    (fun _ _ _ => recoveringStep) run ⟨_,_,recoveringIdle idle fresh⟩
  exact recoveringRecovered recovering

/- The first connection is lost before the command is on the wire. -/
def lostCommand : List Action :=
  [.flash,.slotWrite,.disconnect 0,.connect,.flash,.slotWrite,.transmit 2] ++ reading 2 ++ [.execute,.burst 4,.deliver]

theorem quietRecoveredLost : ∃ t,
    Transition.Run (step (obliging 0)) QuietClicks (connected noGlobals ()) lostCommand t ∧ Recovered t := by
  have ends : (Transition.runAll (fun s a => if QuietClicks s a then step (obliging 0) s a else none)
      (connected noGlobals ()) lostCommand).isSome = true := by decide +kernel
  obtain ⟨t,ends⟩ := Option.isSome_iff_exists.mp ends
  have run := Transition.runEvaluated ends
  exact ⟨t,run,quietRecovered (connectedIdle _ _) rfl run⟩

end Runs

section Swallowed
/- A connection that is lost between a block command and its block. -/

/- Flash is clicked once for each connection. -/
def onceEach : Bool → List Action → Bool
  | _,[] => true
  | unused,.flash :: rest => unused && onceEach false rest
  | _,.connect :: rest => onceEach true rest
  | unused,_ :: rest => onceEach unused rest

def lostBlock : List Action :=
  [.flash,.slotWrite,.transmit 2] ++ reading 2 ++ [.execute,.burst 4,.deliver,.slotWrite,.transmit 2] ++
  reading 2 ++ [.execute,.burst 4,.deliver,.slotWrite,.slotWrite,.transmit 2] ++
  reading 2 ++ [.execute,.disconnect 0,.connect,.flash,.slotWrite,.transmit 2] ++ reading 2

/- The bytes of the last click are being read as part of a block. -/
def swallowed (s : Sys Unit) : Bool :=
  (match s.firmware.pc with
    | .data _ _ => true
    | _ => false) &&
  s.log.any (fun event => match event with
    | .click _ i => s.part.any (fun b => b.write == i)
    | _ => false)

theorem lostBlockSwallows :
    (Transition.runAll (fun s a => if OnlineClicks s a then step (obliging 0) s a else none) (connected noGlobals ())
      lostBlock).any swallowed = true := by
  decide +kernel

theorem recoveredReads {s : Sys Unit} (recovered : Recovered s) : swallowed s = false := by
  refine Bool.eq_false_iff.mpr (fun now => ?_)
  obtain ⟨reads,clicked⟩ := Bool.and_eq_true_iff.mp now
  obtain ⟨event,inside,same⟩ := List.any_eq_true.mp clicked
  cases event with
  | click image i =>
    obtain ⟨b,part,write⟩ := List.any_eq_true.mp same
    obtain ⟨cmdID,pc⟩ := recovered.reading image i inside b part (eq_of_beq write)
    rw [pc] at reads
    contradiction
  | _ => contradiction

/- The firmware still waits for the block and takes the command of the new session for it. -/
theorem dropSwallows : ¬ ∀ (T : Target Unit) (s t : Sys Unit) (as : List Action), Idle s → s.log = [] →
    onceEach true as = true → Transition.Run (step T) OnlineClicks s as t → Recovered t := by
  intro claim
  obtain ⟨t,ends,found⟩ := (Option.any_eq_true _ _).mp lostBlockSwallows
  have run := Transition.runEvaluated ends
  have recovered := claim _ _ _ _ (connectedIdle _ _) rfl (by decide +kernel) run
  exact absurd found (by rw [recoveredReads recovered]; simp)

end Swallowed
end HsspProgrammer.Recovery
