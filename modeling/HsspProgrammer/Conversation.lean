import HsspProgrammer.Exchange

/-! The conversation of the two programs. Behind replies that end a session there is
at most one request or one other answer under way; `Live` ties that to the bytes in
all the buffers, and `Move` is what a step does to it. -/
namespace HsspProgrammer.Conversation
open Ascii (Bytes)
open Loader (Globals)
open MainWindow (Report command serialData)
open CommandLoop (reply Pc Op Outcome)
open Programmer Exchange Frames
open Usart (SERIAL_BUFFERS_SIZE)

variable {τ : Type}

def bytesOf (ba : List Answer) : Bytes := ba.map Answer.byte

/- The four bytes the window reads of each queued message. -/
def heads (signals : List Signal) : List (List Answer) :=
  signals.filterMap (fun signal => match signal with
    | .message ba => some (ba.take 4)
    | .timeout => none)

def inbound (s : Sys τ) : List (List Answer) := heads s.signals ++ frames 4 (s.m_rxBuf ++ s.replies)

/- What is on its way to the firmware; offline, the host's own buffer is not. -/
def pipe (s : Sys τ) : List Sent :=
  s.part ++ s.queue ++ s.port ++ (if s.online then s.m_txBuf ++ s.slot.flatten else [])

/- A reply on which the window writes nothing, whatever its state. -/
def Spent (f : List Answer) : Prop := ∃ reports, ∀ w, serialData w (bytesOf f) = ⟨w,reports,[]⟩

inductive Turn where
  | rest
  | asked (r : Req) (checksum : UInt16)
  | queued (checksum : UInt16)
  | answered (r : Req) (checksum : UInt16) (f : List Answer)
  | stalled

def Turn.answer : Turn → List (List Answer)
  | .answered _ _ f => [f]
  | _ => []

structure Talk where
  spent : List (List Answer)
  turn : Turn

def Talk.answers (talk : Talk) : List (List Answer) := talk.spent ++ talk.turn.answer

/- The pieces from write `i` on are under way. What a closed port has cut off is
missing at the end; `whole` says that nothing is. -/
structure Outbound (whole : Bool) (s : Sys τ) (i : Nat) (P : List Bytes) : Prop where
  order : pipe s <+: (stampAll i P).flatten
  all : whole = true → pipe s = (stampAll i P).flatten
  written : s.written.drop i = P

structure Asked (whole : Bool) (s : Sys τ) (r : Req) (checksum : UInt16) (later : List Bytes) : Prop where
  serving : ∃ i P, Serving r checksum s.firmware s.part.length P ∧ Outbound whole s i (P ++ later) ∧
    i ≤ s.written.length
  fits : r.Fits
  pieces : r.pieces ++ later <:+ s.written

/- The four ways a conversation goes on, and `stalled` for one that a closed port has
ended: the firmware waits and nothing comes any more. -/
def Holds (whole : Bool) (s : Sys τ) : Turn → Prop
  | .rest => pipe s = [] ∧ s.firmware.pc = .cmdID
  | .asked r checksum => Asked whole s r checksum [] ∧ Counted s.window r
  | .queued checksum => Asked whole s .reStart checksum Req.initial.pieces
  | .answered r checksum f =>
    pipe s = [] ∧ s.firmware.pc = r.after ∧ s.firmware.checksum = checksum ∧ r.Fits ∧ Counted s.window r ∧
    r ≠ .reStart ∧ bytesOf f = reply r.cmdID r.good ∧ r.pieces <:+ s.written
  | .stalled => pipe s = [] ∧ ¬ Complete s.firmware

/- Only a session that has just begun can have an older reply before it. -/
def Turn.Early : Turn → Prop
  | .asked r _ | .answered r _ _ => r = .initial
  | .queued _ | .stalled => False
  | .rest => True

structure Live (whole : Bool) (s : Sys τ) (talk : Talk) : Prop where
  answers : inbound s = talk.answers
  short : s.m_rxBuf.length < 4
  cut : talk.turn ≠ .stalled → 4 ∣ (s.m_rxBuf ++ s.replies).length
  few : talk.turn = .stalled → (s.m_rxBuf ++ s.replies).length < 4 ∧ whole = false
  spent : ∀ f ∈ talk.spent, Spent f
  early : talk.spent ≠ [] → talk.turn.Early
  holds : Holds whole s talk.turn

/- The firmware has read one whole write of the host. -/
def Event.Whole (written : List Bytes) : Event → Prop
  | .commandRead pair => ∃ i cmdID, written[i]? = some (command cmdID) ∧ pair = stamp i (command cmdID)
  | .blockRead bytes => ∃ i data, written[i]? = some data ∧ data.length = 64 ∧ bytes = stamp i data
  | _ => True

theorem wholeLater {written writes : List Bytes} {event : Event} (whole : Event.Whole written event) :
    Event.Whole (written ++ writes) event := by
  cases event with
  | commandRead pair =>
    obtain ⟨i,cmdID,found,same⟩ := whole
    exact ⟨i,cmdID,(List.getElem?_append_left (List.getElem?_eq_some_iff.mp found).1).trans found,same⟩
  | blockRead bytes =>
    obtain ⟨i,data,found,size,same⟩ := whole
    exact ⟨i,data,(List.getElem?_append_left (List.getElem?_eq_some_iff.mp found).1).trans found,size,same⟩
  | _ => trivial

def Plain (event : Event) : Prop := ∀ image write, event ≠ .click image write

/- What a step other than a click adds to the log. -/
structure Logged (s t : Sys τ) (events : List Event) : Prop where
  log : t.log = s.log ++ events
  whole : ∀ event ∈ events, Event.Whole t.written event
  plain : ∀ event ∈ events, Plain event

def Event.Read : Event → Prop
  | .commandRead _ | .blockRead _ => True
  | _ => False

theorem performedPlain (ops : List Op) : ∀ event ∈ ops.map Event.performed, Plain event := by
  intro event inside image write same
  obtain ⟨_,_,rfl⟩ := List.mem_map.mp inside
  cases same

theorem actedPlain (ba : List Answer) (reports : List Report) :
    ∀ event ∈ .acted ba :: reports.map Event.reported, Plain event := by
  intro event inside image write same
  subst same
  simp at inside

theorem readsPlain {events : List Event} (reads : ∀ event ∈ events, Event.Read event) :
    ∀ event ∈ events, Plain event := by
  intro event inside image write same
  subst same
  exact reads _ inside

theorem loggedNothing {s t : Sys τ} (same : t.log = s.log) : Logged s t [] :=
  ⟨by rw [same,List.append_nil],by simp,by simp⟩

theorem loggedPerformed {s t : Sys τ} {ops : List Op} (log : t.log = s.log ++ ops.map .performed) :
    Logged s t (ops.map .performed) := by
  refine ⟨log,fun event inside => ?_,performedPlain ops⟩
  obtain ⟨_,_,rfl⟩ := List.mem_map.mp inside
  trivial

theorem loggedActed {s t : Sys τ} {ba : List Answer} {reports : List Report}
    (log : t.log = s.log ++ .acted ba :: reports.map .reported) :
    Logged s t (.acted ba :: reports.map .reported) := by
  refine ⟨log,fun event inside => ?_,actedPlain ba reports⟩
  rcases List.mem_cons.mp inside with rfl | inside
  · trivial
  · obtain ⟨_,_,rfl⟩ := List.mem_map.mp inside
    trivial

/- What a step does to the conversation: the events it logs and what it writes, when
the image `g` is loaded and `n` writes have been made. -/
inductive Move (g : Globals) (n : Nat) : Talk → List Event → List Bytes → Talk → Prop where
  | stay (talk events) (reads : ∀ event ∈ events, Event.Read event) : Move g n talk events [] talk
  | garble {talk talk'} (many : 2 ≤ talk.answers.length) (fewer : talk'.turn = talk.turn ∨ talk'.turn = .rest) :
      Move g n talk [] [] talk'
  | click (spent checksum) :
      Move g n ⟨spent,.rest⟩ [.click g n] Req.initial.pieces ⟨spent,.asked .initial checksum⟩
  | clickBehind (spent checksum) :
      Move g n ⟨spent,.asked .reStart checksum⟩ [.click g n] Req.initial.pieces ⟨spent,.queued checksum⟩
  | report {f spent turn ba} {reports : List Report} (same : ba.take 4 = f)
      (handled : ∀ w, serialData w (bytesOf f) = ⟨w,reports,[]⟩) :
      Move g n ⟨f :: spent,turn⟩ (.acted ba :: reports.map .reported) [] ⟨spent,turn⟩
  | next {r r' checksum f ba} {reports : List Report} (next : r.next g = some r') (same : ba.take 4 = f)
      (running : ∀ report ∈ reports, Report.final report = false) :
      Move g n ⟨[],.answered r checksum f⟩ (.acted ba :: reports.map .reported) r'.pieces
        ⟨[],.asked r' checksum⟩
  | succeed {spent r checksum f} (other : r ≠ .reStart) (bytes : bytesOf f = reply r.cmdID r.good) :
      Move g n ⟨spent,.asked r checksum⟩ ((r.performed checksum).map .performed) []
        ⟨spent,.answered r (r.exit checksum) f⟩
  | finish {spent checksum f} (bytes : bytesOf f = reply Ascii.x Ascii.zero) :
      Move g n ⟨spent,.asked .reStart checksum⟩ [.performed .targetReStart] [] ⟨spent ++ [f],.rest⟩
  | finishBehind {spent checksum f} (bytes : bytesOf f = reply Ascii.x Ascii.zero) :
      Move g n ⟨spent,.queued checksum⟩ [.performed .targetReStart] []
        ⟨spent ++ [f],.asked .initial checksum⟩
  | fail {spent r checksum f} {ops : List Op} (other : r ≠ .reStart)
      (bytes : bytesOf f = reply r.cmdID Ascii.one ∨ bytesOf f = reply r.cmdID Ascii.two)
      (wrong : Wrong r checksum ops) (aimed : Aimed r ops) :
      Move g n ⟨spent,.asked r checksum⟩ (ops.map .performed) [] ⟨spent ++ [f],.rest⟩

section Stamps

theorem stampLength (i : Nat) (bytes : Bytes) : (stamp i bytes).length = bytes.length := List.length_mapIdx

theorem stampAllCons (i : Nat) (bytes : Bytes) (rest : List Bytes) :
    (stampAll i (bytes :: rest)).flatten = stamp i bytes ++ (stampAll (i + 1) rest).flatten := by
  rw [stampAll,List.flatten_cons]

theorem stampAllAppend (i : Nat) (P Q : List Bytes) :
    (stampAll i (P ++ Q)).flatten = (stampAll i P).flatten ++ (stampAll (i + P.length) Q).flatten := by
  induction P generalizing i with
  | nil => rfl
  | cons bytes rest ih =>
    rw [List.cons_append,stampAllCons,stampAllCons,ih,List.append_assoc,List.length_cons,Nat.add_right_comm i 1,
      Nat.add_assoc]

theorem stampAllLength (i : Nat) (P : List Bytes) : (stampAll i P).flatten.length = P.flatten.length := by
  induction P generalizing i with
  | nil => rfl
  | cons bytes rest ih =>
    rw [stampAllCons,List.length_append,stampLength,ih,List.flatten_cons,List.length_append]

theorem stampGet (i : Nat) (bytes : Bytes) (n : Nat) : (stamp i bytes)[n]? = bytes[n]?.map (fun byte => ⟨byte,i,n⟩) := by
  rw [stamp,List.getElem?_mapIdx]

end Stamps

section Link
/- The bytes move along the pipe; nothing else changes. -/
variable {whole : Bool} {s t : Sys τ} {talk : Talk}

theorem outboundSame {i : Nat} {P : List Bytes} (pipes : pipe t = pipe s) (written : t.written = s.written)
    (out : Outbound whole s i P) : Outbound whole t i P :=
  ⟨pipes ▸ out.order,fun h => pipes ▸ out.all h,written ▸ out.written⟩

theorem askedSame {r : Req} {checksum : UInt16} {later : List Bytes} (pipes : pipe t = pipe s)
    (part : t.part = s.part) (firmware : t.firmware = s.firmware) (written : t.written = s.written)
    (asked : Asked whole s r checksum later) : Asked whole t r checksum later := by
  obtain ⟨⟨i,P,serving,out,inside⟩,fits,pieces⟩ := asked
  refine ⟨⟨i,P,?_,outboundSame pipes written out,written ▸ inside⟩,fits,written ▸ pieces⟩
  rw [part,firmware]
  exact serving

theorem holdsSame {turn : Turn} (pipes : pipe t = pipe s) (part : t.part = s.part)
    (firmware : t.firmware = s.firmware) (written : t.written = s.written)
    (counter : t.window.blockCntr = s.window.blockCntr) (holds : Holds whole s turn) : Holds whole t turn := by
  have counted : ∀ r, Counted s.window r → Counted t.window r := by
    intro r
    cases r <;> simp only [Counted,counter] <;> exact id
  cases turn with
  | rest => exact ⟨pipes ▸ holds.1,firmware ▸ holds.2⟩
  | asked r checksum => exact ⟨askedSame pipes part firmware written holds.1,counted r holds.2⟩
  | queued checksum => exact askedSame pipes part firmware written holds
  | answered r checksum f =>
    obtain ⟨empty,pc,running,fits,count,rest⟩ := holds
    exact ⟨pipes ▸ empty,firmware ▸ pc,firmware ▸ running,fits,counted r count,rest.1,rest.2.1,
      written ▸ rest.2.2⟩
  | stalled => exact ⟨pipes ▸ holds.1,firmware ▸ holds.2⟩

theorem servingSuffix {r : Req} {checksum : UInt16} {fw : CommandLoop.Firmware τ} {n : Nat} {P : List Bytes}
    (serving : Serving r checksum fw n P) : P <:+ r.pieces := by
  cases serving with
  | command => exact List.suffix_refl _
  | terminator => exact List.suffix_refl _
  | pair => exact List.suffix_append _ _
  | data use data n pays =>
    rw [Req.pieces,pays]
    exact List.suffix_append _ _
  | ready => exact List.nil_suffix

theorem piecesBound {r : Req} (fits : r.Fits) : r.pieces.flatten.length ≤ 66 := by
  have front : (if r.commanded then [command r.cmdID] else []).flatten.length ≤ 2 := by
    cases r.commanded <;> simp [command]
  have back : (r.payload.map Prod.snd).toList.flatten.length ≤ 64 := by
    cases pays : r.payload with
    | none => simp
    | some p =>
      have size : p.2.length = 64 := payloadLength fits pays
      simp [size]
  rw [Req.pieces,List.flatten_append,List.length_append]
  omega

theorem suffixFlatten {P Q : List Bytes} (suffix : P <:+ Q) : P.flatten.length ≤ Q.flatten.length := by
  obtain ⟨front,rfl⟩ := suffix
  simp

/-- At most one request is under way, so the queue of the firmware never fills. -/
theorem pipeBound (live : Live whole s talk) : (pipe s).length ≤ 66 := by
  have holds := live.holds
  cases turn : talk.turn with
  | rest => rw [turn] at holds; simp [holds.1]
  | asked r checksum =>
    rw [turn] at holds
    obtain ⟨⟨⟨i,P,serving,out,_⟩,fits,_⟩,_⟩ := holds
    have size := out.order.length_le
    have all := suffixFlatten (servingSuffix serving)
    have few := piecesBound fits
    rw [stampAllLength,List.append_nil] at size
    omega
  | queued checksum =>
    rw [turn] at holds
    obtain ⟨⟨i,P,serving,out,_⟩,_,_⟩ := holds
    have size := out.order.length_le
    have all := suffixFlatten (servingSuffix serving)
    rw [stampAllLength,List.flatten_append,List.length_append] at size
    have two : Req.reStart.pieces.flatten.length = 2 := rfl
    have more : Req.initial.pieces.flatten.length = 2 := rfl
    omega
  | answered r checksum f => rw [turn] at holds; simp [holds.1]
  | stalled => rw [turn] at holds; simp [holds.1]

/- A step that leaves the answers and the pipe alone leaves the conversation alone. -/
theorem liveSame (live : Live whole s talk) (signals : heads t.signals = heads s.signals)
    (rxBuf : t.m_rxBuf = s.m_rxBuf) (replies : t.replies = s.replies) (pipes : pipe t = pipe s)
    (part : t.part = s.part) (firmware : t.firmware = s.firmware) (written : t.written = s.written)
    (counter : t.window.blockCntr = s.window.blockCntr) : Live whole t talk where
  answers := by rw [inbound,signals,rxBuf,replies]; exact live.answers
  short := rxBuf ▸ live.short
  cut := by rw [rxBuf,replies]; exact live.cut
  few := by rw [rxBuf,replies]; exact live.few
  spent := live.spent
  early := live.early
  holds := holdsSame pipes part firmware written counter live.holds

theorem slotWritePipe (ran : slotWrite s = some t) : pipe t = pipe s := by
  unfold slotWrite at ran
  split at ran <;> try contradiction
  rename_i ba slot found
  cases Option.some.inj ran
  cases online : s.online <;> simp [pipe,online,found,List.append_assoc]

theorem liveSlotWrite (live : Live whole s talk) (ran : slotWrite s = some t) : Live whole t talk := by
  have pipes := slotWritePipe ran
  unfold slotWrite at ran
  split at ran <;> try contradiction
  cases Option.some.inj ran
  exact liveSame live rfl rfl rfl pipes rfl rfl rfl rfl

theorem transmitPipe {n : Nat} (ran : transmit s n = some t) : pipe t = pipe s := by
  unfold transmit at ran
  split at ran <;> try contradiction
  rename_i may
  cases Option.some.inj ran
  have whole_buf : ∀ slot, s.m_txBuf.take n ++ (s.m_txBuf.drop n ++ slot) = s.m_txBuf ++ slot := by
    intro slot
    rw [← List.append_assoc,List.take_append_drop]
  simp [pipe,may.1,List.append_assoc,whole_buf]

theorem liveTransmit {n : Nat} (live : Live whole s talk) (ran : transmit s n = some t) : Live whole t talk := by
  have pipes := transmitPipe ran
  unfold transmit at ran
  split at ran <;> try contradiction
  cases Option.some.inj ran
  exact liveSame live rfl rfl rfl pipes rfl rfl rfl rfl

theorem arrivePipe (few : (pipe s).length ≤ 66) (ran : arrive s = some t) : pipe t = pipe s := by
  unfold arrive at ran
  split at ran <;> try contradiction
  rename_i b port found
  have room : s.queue.length < SERIAL_BUFFERS_SIZE := by
    simp only [pipe,found,List.length_append,List.length_cons] at few
    simp only [SERIAL_BUFFERS_SIZE]
    omega
  cases Option.some.inj ran
  simp [pipe,found,room,List.append_assoc]

theorem liveArrive (live : Live whole s talk) (ran : arrive s = some t) : Live whole t talk := by
  have pipes := arrivePipe (pipeBound live) ran
  unfold arrive at ran
  split at ran <;> try contradiction
  cases Option.some.inj ran
  exact liveSame live rfl rfl rfl pipes rfl rfl rfl rfl

theorem liveFileOpen {choice : Option (Option Loader.File)} (live : Live whole s talk)
    (ran : fileOpen s choice = some t) : Live whole t talk := by
  unfold fileOpen at ran
  split at ran <;> try contradiction
  cases Option.some.inj ran
  refine liveSame live rfl rfl rfl rfl rfl rfl rfl ?_
  unfold MainWindow.fileOpen
  split <;> rfl

end Link

section Reading
/- The firmware takes a byte of the request that is under way. -/
variable {whole : Bool} {s t : Sys τ}

/-- What reading one byte does to the system. -/
theorem consumeCases (ran : consume s = some t) : ∃ b queue firmware cause events,
    s.queue = b :: queue ∧ CommandLoop.consume s.firmware b.byte = some firmware ∧
    ((¬ Complete firmware ∧ events = [] ∧
      t = {s with queue := queue, part := s.part ++ [b], firmware := firmware}) ∨
     (((∃ cmdID cmdTrm, firmware.pc = .command cmdID cmdTrm ∧ events = [.commandRead (s.part ++ [b])] ∧
        cause = ((s.part ++ [b]).headD b).write) ∨
       ((∃ use, firmware.pc = .ready use) ∧ events = [.blockRead (s.part ++ [b])] ∧ cause = s.cause)) ∧
      t = { s with
        queue := queue
        part := []
        firmware := firmware
        cause := cause
        log := s.log ++ events })) := by
  unfold consume at ran
  split at ran <;> try contradiction
  rename_i b queue found
  cases read : CommandLoop.consume s.firmware b.byte with
  | none => simp [read] at ran
  | some firmware =>
    simp only [read] at ran
    refine ⟨b,queue,firmware,?_⟩
    split at ran
    · rename_i cmdID cmdTrm pc
      exact ⟨_,_,found,read,.inr ⟨.inl ⟨_,_,pc,rfl,rfl⟩,(Option.some.inj ran).symm⟩⟩
    · rename_i use pc
      exact ⟨_,_,found,read,.inr ⟨.inr ⟨⟨_,pc⟩,rfl,rfl⟩,(Option.some.inj ran).symm⟩⟩
    · rename_i noCommand noReady
      refine ⟨0,[],found,read,.inl ⟨?_,rfl,(Option.some.inj ran).symm⟩⟩
      rintro (⟨cmdID,cmdTrm,pc⟩ | ⟨use,pc⟩)
      · exact noCommand cmdID cmdTrm pc
      · exact noReady use pc

/-- The byte after those already read is the one the piece has there. -/
theorem nextByte {i : Nat} {piece : Bytes} {part tail rest : List Sent} {b : Sent}
    (order : part ++ b :: tail <+: stamp i piece ++ rest) (few : part.length < piece.length) :
    piece[part.length]? = some b.byte ∧
    (part.length + 1 = piece.length → part ++ [b] = stamp i piece ∧ tail <+: rest) := by
  obtain ⟨missing,same⟩ := order
  have size := stampLength i piece
  have row : (stamp i piece)[part.length]? = some b := by
    have inside : (stamp i piece ++ rest)[part.length]? = (stamp i piece)[part.length]? :=
      List.getElem?_append_left (by omega)
    rw [← inside,← same]
    simp
  constructor
  · rw [stampGet] at row
    cases at_byte : piece[part.length]? with
    | none => simp [at_byte] at row
    | some byte =>
      rw [at_byte] at row
      cases Option.some.inj row
      rfl
  · intro last
    have cut : (part ++ [b]) ++ (tail ++ missing) = stamp i piece ++ rest := by rw [← same]; simp
    obtain ⟨front,back⟩ := List.append_inj cut (by simp; omega)
    exact ⟨front,missing,back⟩

theorem servingFew {r : Req} {checksum : UInt16} {fw : CommandLoop.Firmware τ} {n : Nat} {piece : Bytes}
    {rest : List Bytes} (fits : r.Fits) (serving : Serving r checksum fw n (piece :: rest))
    : n < piece.length := by
  generalize shape : piece :: rest = P at serving
  have some_bytes := piecesLength fits
  cases serving with
  | command =>
    have inside := some_bytes piece (by rw [← shape]; exact List.mem_cons_self)
    omega
  | terminator =>
    have inside := some_bytes piece (by rw [← shape]; exact List.mem_cons_self)
    omega
  | pair =>
    have inside := some_bytes piece (by rw [Req.pieces,← shape]; simp)
    omega
  | data use data n pays few =>
    cases shape
    exact few
  | ready => cases shape

theorem servingNil {r : Req} {checksum : UInt16} {fw : CommandLoop.Firmware τ} {n : Nat} {P : List Bytes}
    (serving : Serving r checksum fw n P) (empty : P = []) : Complete fw ∧ n = 0 := by
  cases serving with
  | command starts => simp [Req.pieces,starts] at empty
  | terminator starts => simp [Req.pieces,starts] at empty
  | pair starts pc => exact ⟨.inl ⟨_,_,pc⟩,rfl⟩
  | data => simp at empty
  | ready use data pays pc => exact ⟨.inr ⟨_,pc⟩,rfl⟩

theorem completeRead {fw : CommandLoop.Firmware τ} {byte : UInt8} (complete : Complete fw) :
    CommandLoop.consume fw byte = none := by
  rcases complete with ⟨cmdID,cmdTrm,pc⟩ | ⟨use,pc⟩ <;> rw [CommandLoop.consume,pc]

/-- Reading keeps the request; a write that is read to its end is logged as one. -/
theorem askedConsume {r : Req} {checksum : UInt16} {later : List Bytes}
    (asked : Asked whole s r checksum later) (ran : consume s = some t) :
    Asked whole t r checksum later ∧ ∃ events, t.log = s.log ++ events ∧
      ∀ event ∈ events, Event.Whole t.written event ∧ Event.Read event := by
  obtain ⟨⟨i,P,serving,out,inside⟩,fits,pieces⟩ := asked
  obtain ⟨b,queue,firmware,cause,events,found,read,after⟩ := consumeCases ran
  have order := out.order
  simp only [pipe,found,List.append_assoc,List.cons_append] at order
  cases P with
  | nil =>
    rw [completeRead (servingNil serving rfl).1] at read
    contradiction
  | cons piece rest =>
    have few := servingFew fits serving
    rw [List.cons_append,stampAllCons] at order
    obtain ⟨same,full⟩ := nextByte order few
    obtain ⟨_,_,shape,step⟩ := servingConsume fits serving read same
    cases shape
    have row : s.written[i]? = some piece := by
      have written := out.written
      rw [List.cons_append] at written
      have first := congrArg (fun l => l[0]?) written
      simpa using first
    have next : s.written.drop (i + 1) = rest ++ later := by
      have written := out.written
      rw [List.cons_append] at written
      rw [← List.drop_drop,written]
      rfl
    rcases step with ⟨more,waiting,going⟩ | ⟨last,going,kind⟩
    · rcases after with ⟨_,_,after⟩ | ⟨complete,_⟩
      · have pipes : pipe t = pipe s := by rw [after]; simp [pipe,found]
        have written : t.written = s.written := by rw [after]
        refine ⟨⟨⟨i,piece :: rest,?_,outboundSame pipes written out,written ▸ inside⟩,fits,written ▸ pieces⟩,
          [],by rw [after]; simp,by simp⟩
        rw [after]
        simpa using going
      · refine absurd ?_ waiting
        rcases complete with ⟨cmdID,cmdTrm,pc,_⟩ | ⟨⟨use,pc⟩,_⟩
        · exact .inl ⟨_,_,pc⟩
        · exact .inr ⟨_,pc⟩
    · obtain ⟨unit,tail⟩ := full last
      have done : Complete firmware := by
        rcases kind with ⟨cmdTrm,pc,_⟩ | ⟨use,pc,_⟩
        · exact .inl ⟨_,_,pc⟩
        · exact .inr ⟨_,pc⟩
      rcases after with ⟨waiting,_⟩ | ⟨complete,after⟩
      · exact absurd done waiting
      · have written : t.written = s.written := by rw [after]
        have split : pipe s = stamp i piece ++ pipe t := by rw [after,← unit]; simp [pipe,found]
        have inside' : i + 1 ≤ s.written.length := (List.getElem?_eq_some_iff.mp row).1
        refine ⟨⟨⟨i + 1,rest,?_,⟨?_,?_,by rw [written,next]⟩,written ▸ inside'⟩,fits,written ▸ pieces⟩,
          events,by rw [after],?_⟩
        · rw [after]
          exact going
        · rw [after]
          simpa [pipe] using tail
        · intro h
          have all := out.all h
          rw [split,List.cons_append,stampAllCons] at all
          exact List.append_cancel_left all
        · rw [written]
          rcases complete with ⟨cmdID,cmdTrm,pc,rfl,_⟩ | ⟨⟨use,pc⟩,rfl,_⟩
          · rcases kind with ⟨cmdTrm',_,rfl,_⟩ | ⟨use,pc',_⟩
            · simp only [List.mem_singleton,forall_eq]
              exact ⟨⟨i,r.cmdID,row,unit⟩,trivial⟩
            · rw [pc] at pc'
              cases pc'
          · rcases kind with ⟨cmdTrm',pc',_⟩ | ⟨use',_,size⟩
            · rw [pc] at pc'
              cases pc'
            · simp only [List.mem_singleton,forall_eq]
              exact ⟨⟨i,piece,row,size,unit⟩,trivial⟩

theorem liveConsume {talk : Talk} (live : Live whole s talk) (ran : consume s = some t) :
    Live whole t talk ∧ t.written = s.written ∧ t.window = s.window ∧ ∃ events, Logged s t events ∧
      ∀ event ∈ events, Event.Read event := by
  have holds := live.holds
  obtain ⟨b,queue,firmware,cause,events,found,read,after⟩ := consumeCases ran
  have filled : pipe s ≠ [] := by simp [pipe,found]
  have rest : t.signals = s.signals ∧ t.m_rxBuf = s.m_rxBuf ∧ t.replies = s.replies ∧
      t.written = s.written ∧ t.window = s.window := by
    rcases after with ⟨_,_,after⟩ | ⟨_,after⟩ <;> rw [after] <;> exact ⟨rfl,rfl,rfl,rfl,rfl⟩
  obtain ⟨signals,rxBuf,replies,written,window⟩ := rest
  have same : Holds whole t talk.turn → Live whole t talk := by
    intro holds
    exact ⟨by rw [inbound,signals,rxBuf,replies]; exact live.answers,rxBuf ▸ live.short,
      by rw [rxBuf,replies]; exact live.cut,by rw [rxBuf,replies]; exact live.few,live.spent,live.early,holds⟩
  cases turn : talk.turn with
  | rest => rw [turn] at holds; exact absurd holds.1 filled
  | asked r checksum =>
    rw [turn] at holds
    obtain ⟨asked,events,log,reads⟩ := askedConsume holds.1 ran
    refine ⟨same ?_,written,window,events,
      ⟨log,fun e h => (reads e h).1,readsPlain (fun e h => (reads e h).2)⟩,fun e h => (reads e h).2⟩
    rw [turn]
    refine ⟨asked,?_⟩
    rw [window]
    exact holds.2
  | queued checksum =>
    rw [turn] at holds
    obtain ⟨asked,events,log,reads⟩ := askedConsume holds ran
    refine ⟨same ?_,written,window,events,
      ⟨log,fun e h => (reads e h).1,readsPlain (fun e h => (reads e h).2)⟩,fun e h => (reads e h).2⟩
    rw [turn]
    exact asked
  | answered r checksum f => rw [turn] at holds; exact absurd holds.1 filled
  | stalled => rw [turn] at holds; exact absurd holds.1 filled

end Reading

section Answering
/- The firmware ends a request, or begins to wait for the block that belongs to it. -/
variable {T : CommandLoop.Target τ} {whole : Bool} {s t : Sys τ}

theorem executeCases (ran : execute T s = some t) : ∃ outcome,
    CommandLoop.execute T s.firmware = some outcome ∧ t = { s with
      firmware := outcome.firmware
      replies := s.replies ++ outcome.reply.map (fun byte => ⟨byte,s.cause⟩)
      log := s.log ++ outcome.ops.map .performed } := by
  obtain ⟨outcome,now,after⟩ := Option.map_eq_some_iff.mp ran
  exact ⟨outcome,now,after.symm⟩

theorem executeComplete {fw : CommandLoop.Firmware τ} {outcome : Outcome τ}
    (ran : CommandLoop.execute T fw = some outcome) : Complete fw := by
  unfold CommandLoop.execute at ran
  split at ran <;> try contradiction
  · rename_i cmdID cmdTrm pc
    exact .inl ⟨_,_,pc⟩
  · rename_i use pc
    exact .inr ⟨_,pc⟩

theorem afterWaits {r : Req} {fw : CommandLoop.Firmware τ} (pc : fw.pc = r.after) : ¬ Complete fw := by
  rintro (⟨cmdID,cmdTrm,done⟩ | ⟨use,done⟩) <;> rw [done] at pc <;> cases r <;>
    simp only [Req.after,CommandLoop.nextBlock,Bool.false_eq_true,if_false,reduceCtorEq] at pc <;>
    split at pc <;> contradiction

theorem framesWhole {l f : List Answer} (cut : 4 ∣ l.length) (size : f.length = 4) :
    frames 4 (l ++ f) = frames 4 l ++ [f] := by
  have none : leftover 4 l = [] := by
    rw [leftover,Nat.mul_div_cancel' cut,List.drop_length]
  have one : frames 4 f = [f] := by
    have cons := framesCons (by decide : 0 < 4) size []
    have last : frames 4 ([] : List Answer) = [] := framesShort (by decide)
    rwa [List.append_nil,last] at cons
  rw [framesAppend (by decide),none,List.nil_append,one]

/-- An answer of four bytes comes in behind the others. -/
theorem answerIn {f : List Answer} (cut : 4 ∣ (s.m_rxBuf ++ s.replies).length) (size : f.length = 4)
    (signals : t.signals = s.signals) (rxBuf : t.m_rxBuf = s.m_rxBuf) (replies : t.replies = s.replies ++ f) :
    inbound t = inbound s ++ [f] ∧ 4 ∣ (t.m_rxBuf ++ t.replies).length := by
  rw [inbound,inbound,signals,rxBuf,replies,← List.append_assoc s.m_rxBuf]
  constructor
  · rw [framesWhole cut size,List.append_assoc]
  · rw [List.length_append,size]
    exact Nat.dvd_add cut (Nat.dvd_refl 4)

theorem repliedBytes (bytes : Bytes) (cause : Nat) :
    bytesOf (bytes.map (fun byte => (⟨byte,cause⟩ : Answer))) = bytes := by
  rw [bytesOf,List.map_map]
  exact List.map_id _

theorem spentLast {f : List Answer} (bytes : bytesOf f = reply Ascii.x Ascii.zero) : Spent f :=
  ⟨_,fun w => by rw [bytes]; exact lastReply w⟩

theorem spentBad {f : List Answer} {r : Req} (other : r ≠ .reStart)
    (bytes : bytesOf f = reply r.cmdID Ascii.one ∨ bytesOf f = reply r.cmdID Ascii.two) : Spent f := by
  rcases bytes with bytes | bytes
  · obtain ⟨report,_,_,handled⟩ := badReply (.inl rfl) other
    exact ⟨_,fun w => by rw [bytes]; exact handled w⟩
  · obtain ⟨report,_,_,handled⟩ := badReply (.inr rfl) other
    exact ⟨_,fun w => by rw [bytes]; exact handled w⟩

/- The request behind which nothing is left to read: what its end does to the talk. -/
structure Ended (whole : Bool) (s t : Sys τ) (r : Req) (checksum : UInt16) (later : List Bytes)
    (f : List Answer) (ops : List Op) : Prop where
  inbound : inbound t = inbound s ++ [f]
  cut : 4 ∣ (t.m_rxBuf ++ t.replies).length
  pipe : pipe t = pipe s
  log : t.log = s.log ++ ops.map .performed
  out : ∃ i, Outbound whole t i later ∧ i ≤ t.written.length
  outcome : (bytesOf f = reply r.cmdID r.good ∧ t.firmware.pc = r.after ∧
      t.firmware.checksum = r.exit checksum ∧ ops = r.performed checksum) ∨
    (r ≠ .reStart ∧ t.firmware.pc = .cmdID ∧
      (bytesOf f = reply r.cmdID Ascii.one ∨ bytesOf f = reply r.cmdID Ascii.two) ∧ Wrong r checksum ops ∧
      Aimed r ops)

theorem askedExecute {r : Req} {checksum : UInt16} {later : List Bytes} (asked : Asked whole s r checksum later)
    (cut : 4 ∣ (s.m_rxBuf ++ s.replies).length) (ran : execute T s = some t) :
    t.window = s.window ∧ t.written = s.written ∧ t.signals = s.signals ∧ t.m_rxBuf = s.m_rxBuf ∧ t.part = s.part ∧
    s.part.length = 0 ∧
    ((Asked whole t r checksum later ∧ t.log = s.log ∧ t.replies = s.replies) ∨
     ∃ f ops, Ended whole s t r checksum later f ops) := by
  obtain ⟨⟨i,P,serving,out,inside⟩,fits,pieces⟩ := asked
  obtain ⟨outcome,now,after⟩ := executeCases ran
  obtain ⟨start,step⟩ := servingExecute fits serving now
  have pipes : pipe t = pipe s := by rw [after]; rfl
  refine ⟨by rw [after],by rw [after],by rw [after],by rw [after],by rw [after],start,?_⟩
  rcases step with ⟨_,silent,idle,going⟩ | ⟨empty,done⟩
  · refine .inl ⟨⟨⟨i,P,?_,outboundSame pipes (by rw [after]) out,by rw [after]; exact inside⟩,fits,
      by rw [after]; exact pieces⟩,by rw [after,idle]; simp,by rw [after,silent]; simp⟩
    rw [after]
    simpa [start] using going
  · right
    subst empty
    have size : outcome.reply.length = 4 := by
      rcases done with done | done
      · rw [done.reply]; rfl
      · rcases done.reply with same | same <;> rw [same] <;> rfl
    obtain ⟨added,cut'⟩ := answerIn (t := t) (f := outcome.reply.map (fun byte => ⟨byte,s.cause⟩)) cut
      (by rw [List.length_map,size]) (by rw [after]) (by rw [after]) (by rw [after])
    refine ⟨_,outcome.ops,added,cut',pipes,by rw [after],
      ⟨i,outboundSame pipes (by rw [after]) out,by rw [after]; exact inside⟩,?_⟩
    rw [repliedBytes,after]
    rcases done with done | done
    · exact .inl ⟨done.reply,done.pc,done.running,done.ops⟩
    · exact .inr ⟨done.other,done.pc,done.reply,done.wrong,done.aimed⟩

theorem liveExecute {talk : Talk} (g : Globals) (n : Nat) (live : Live whole s talk) (ran : execute T s = some t) :
    ∃ talk' events, Move g n talk events [] talk' ∧ Live whole t talk' ∧ Logged s t events ∧
      t.written = s.written ∧ t.window = s.window := by
  obtain ⟨spent,turn⟩ := talk
  obtain ⟨outcome,now,_⟩ := executeCases ran
  have complete := executeComplete now
  have holds := live.holds
  cases turn with
  | rest =>
    rcases complete with ⟨cmdID,cmdTrm,pc⟩ | ⟨use,pc⟩ <;> rw [holds.2] at pc <;> contradiction
  | answered r checksum f => exact absurd complete (afterWaits holds.2.1)
  | stalled => exact absurd complete holds.2
  | asked r checksum =>
    have cut := live.cut (by simp)
    obtain ⟨window,written,signals,rxBuf,part,start,step⟩ := askedExecute holds.1 cut ran
    have counted : Counted t.window r := by rw [window]; exact holds.2
    rcases step with ⟨asked,log,replies⟩ | ⟨f,ops,ended⟩
    · refine ⟨_,[],.stay _ [] (by simp),?_,loggedNothing log,written,window⟩
      exact ⟨by rw [inbound,signals,rxBuf,replies]; exact live.answers,rxBuf ▸ live.short,
        by rw [rxBuf,replies]; exact live.cut,by simp,live.spent,live.early,asked,counted⟩
    · obtain ⟨i,out,_⟩ := ended.out
      have empty : pipe t = [] := by simpa [stampAll] using out.order
      have answers : inbound t = spent ++ [f] := by
        rw [ended.inbound,live.answers]
        simp [Talk.answers,Turn.answer]
      have alone : ∀ f' ∈ spent ++ [f], Spent f → Spent f' := by
        intro f' inside good
        rcases List.mem_append.mp inside with old | new
        · exact live.spent f' old
        · cases List.mem_singleton.mp new
          exact good
      rcases ended.outcome with ⟨bytes,pc,running,performed⟩ | ⟨other,pc,bytes,wrong,aimed⟩
      · by_cases last : r = .reStart
        · subst last performed
          have log : Logged s t [.performed .targetReStart] := loggedPerformed ended.log
          refine ⟨⟨spent ++ [f],.rest⟩,_,.finish bytes,?_,log,written,window⟩
          exact ⟨by rw [answers]; simp [Talk.answers,Turn.answer],rxBuf ▸ live.short,fun _ => ended.cut,by simp,
            fun f' inside => alone f' inside (spentLast bytes),fun _ => trivial,empty,pc⟩
        · refine ⟨⟨spent,.answered r (r.exit checksum) f⟩,_,.succeed last bytes,?_,
            loggedPerformed (by rw [ended.log,performed]),written,window⟩
          refine ⟨answers,rxBuf ▸ live.short,fun _ => ended.cut,by simp,live.spent,live.early,empty,pc,running,
            holds.1.fits,counted,last,bytes,?_⟩
          rw [written]
          simpa using holds.1.pieces
      · refine ⟨⟨spent ++ [f],.rest⟩,_,.fail other bytes wrong aimed,?_,loggedPerformed ended.log,written,window⟩
        exact ⟨by rw [answers]; simp [Talk.answers,Turn.answer],rxBuf ▸ live.short,fun _ => ended.cut,by simp,
          fun f' inside => alone f' inside (spentBad other bytes),fun _ => trivial,empty,pc⟩
  | queued checksum =>
    have cut := live.cut (by simp)
    obtain ⟨window,written,signals,rxBuf,part,start,step⟩ := askedExecute holds cut ran
    rcases step with ⟨asked,log,replies⟩ | ⟨f,ops,ended⟩
    · refine ⟨_,[],.stay _ [] (by simp),?_,loggedNothing log,written,window⟩
      exact ⟨by rw [inbound,signals,rxBuf,replies]; exact live.answers,rxBuf ▸ live.short,
        by rw [rxBuf,replies]; exact live.cut,by simp,live.spent,live.early,asked⟩
    · obtain ⟨i,out,inside⟩ := ended.out
      have answers : inbound t = spent ++ [f] := by
        rw [ended.inbound,live.answers]
        simp [Talk.answers,Turn.answer]
      rcases ended.outcome with ⟨bytes,pc,running,performed⟩ | ⟨other,_⟩
      · subst performed
        have log : Logged s t [.performed .targetReStart] := loggedPerformed ended.log
        refine ⟨⟨spent ++ [f],.asked .initial checksum⟩,_,.finishBehind bytes,?_,log,written,window⟩
        have serving : Serving .initial checksum t.firmware t.part.length Req.initial.pieces := by
          rw [part,start]
          exact .command rfl pc running
        refine ⟨by rw [answers]; simp [Talk.answers,Turn.answer],rxBuf ▸ live.short,fun _ => ended.cut,by simp,?_,
          fun _ => rfl,⟨⟨i,_,serving,by simpa using out,inside⟩,trivial,?_⟩,trivial⟩
        · intro f' inside
          rcases List.mem_append.mp inside with old | new
          · exact live.spent f' old
          · cases List.mem_singleton.mp new
            exact spentLast bytes
        · rw [written,List.append_nil]
          exact (List.suffix_append _ _).trans holds.pieces
      · exact absurd rfl other

end Answering

section Receiving
/- The serial thread takes in answers. Two of them in one burst come out as two copies
of the first, which is why `garble` is needed. -/
variable {whole : Bool} {s t : Sys τ}

theorem headsMessages (out : List (List Answer)) : heads (out.map .message) = out.map (List.take 4) := by
  induction out with
  | nil => rfl
  | cons ba rest ih => simp only [List.map_cons,heads,List.filterMap_cons] at *; rw [ih]

theorem headsAppend (l m : List Signal) : heads (l ++ m) = heads l ++ heads m := List.filterMap_append

/-- A burst takes frames `F` off what is to be received; the signals repeat the first. -/
theorem burstCases {n : Nat} (ran : burst s n = some t) : ∃ F G x, (∀ f fs, F = f :: fs → f = x) ∧
    inbound s = heads s.signals ++ (F ++ G) ∧ inbound t = heads s.signals ++ (F.map (fun _ => x) ++ G) ∧
    (t.m_rxBuf ++ t.replies).length + 4 * F.length = (s.m_rxBuf ++ s.replies).length ∧ t.m_rxBuf.length < 4 ∧
    pipe t = pipe s ∧ t.part = s.part ∧ t.firmware = s.firmware ∧ t.written = s.written ∧ t.window = s.window ∧
    t.log = s.log := by
  unfold burst at ran
  split at ran <;> try contradiction
  cases Option.some.inj ran
  have received : SerialThread.receive s.m_rxBuf [s.replies.take n] =
      SerialThread.emitLoop [] (s.m_rxBuf ++ s.replies.take n) := by
    rw [SerialThread.receiveFlat,List.flatten_cons,List.flatten_nil,List.append_nil]
  have kept : (SerialThread.receive s.m_rxBuf [s.replies.take n]).2 =
      leftover 4 (s.m_rxBuf ++ s.replies.take n) := by rw [received,SerialThread.emitLoopFrames]
  have emitted := SerialThread.emitLoopHeads (s.m_rxBuf ++ s.replies.take n)
  rw [← received] at emitted
  have split : s.m_rxBuf ++ s.replies = s.m_rxBuf ++ s.replies.take n ++ s.replies.drop n := by
    rw [List.append_assoc,List.take_append_drop]
  refine ⟨frames 4 (s.m_rxBuf ++ s.replies.take n),
    frames 4 (leftover 4 (s.m_rxBuf ++ s.replies.take n) ++ s.replies.drop n),
    (s.m_rxBuf ++ s.replies.take n).take 4,fun f fs cut => (framesHead (by decide) cut).symm,?_,?_,?_,?_,
    rfl,rfl,rfl,rfl,rfl,rfl⟩
  · rw [inbound,split,framesAppend (by decide)]
  · rw [inbound,headsAppend,headsMessages,emitted,kept,List.append_assoc]
  · have quotient := Nat.mul_div_le (s.m_rxBuf ++ s.replies.take n).length 4
    change ((SerialThread.receive s.m_rxBuf [s.replies.take n]).2 ++ s.replies.drop n).length + _ = _
    rw [split,kept]
    simp only [List.length_append,leftover,List.length_drop,frames,List.length_map,List.length_range] at quotient ⊢
    omega
  · rw [kept]
    exact leftoverLength (by decide) _

theorem answerCases (turn : Turn) : turn.answer = [] ∨ ∃ r checksum f, turn = .answered r checksum f := by
  cases turn with
  | answered r checksum f => exact .inr ⟨_,_,_,rfl⟩
  | _ => exact .inl rfl

/-- Behind copies of its first frame, what was the last answer may be gone. -/
theorem copiesSpent {H F G spent answer : List (List Answer)} {x : List Answer} (two : 2 ≤ F.length)
    (first : ∀ f fs, F = f :: fs → f = x) (all : H ++ (F ++ G) = spent ++ answer) (few : answer.length ≤ 1) :
    x ∈ spent ∧ ∃ spent', (H ++ (F.map (fun _ => x) ++ G) = spent' ++ answer ∨
      H ++ (F.map (fun _ => x) ++ G) = spent') ∧ ∀ f ∈ spent', f ∈ spent := by
  have copies : ∀ f ∈ F.map (fun _ => x), f = x := by
    intro f inside
    obtain ⟨_,_,rfl⟩ := List.mem_map.mp inside
    rfl
  obtain ⟨y,z,F',rfl⟩ : ∃ y z F', F = y :: z :: F' := by
    match F, two with
    | y :: z :: F', _ => exact ⟨y,z,F',rfl⟩
  cases first y _ rfl
  match answer, few with
  | [], _ =>
    rw [List.append_nil] at all
    subst all
    refine ⟨by simp,_,.inr rfl,fun f inside => ?_⟩
    rcases List.mem_append.mp inside with old | inside
    · simp [old]
    · rcases List.mem_append.mp inside with copy | later
      · simp [copies f copy]
      · simp [later]
  | [f], _ =>
    rcases List.eq_nil_or_concat G with rfl | ⟨G',g,rfl⟩
    · obtain ⟨F'',w,split⟩ : ∃ F'' w, z :: F' = F'' ++ [w] :=
        (List.eq_nil_or_concat (z :: F')).resolve_left (by simp) |>.imp fun _ ⟨w,h⟩ => ⟨w,by simpa using h⟩
      rw [split,List.append_nil,← List.cons_append,← List.append_assoc] at all
      obtain ⟨rfl,_⟩ := List.append_inj' all rfl
      refine ⟨by simp,_,.inr rfl,fun f inside => ?_⟩
      rcases List.mem_append.mp inside with old | inside
      · simp [old]
      · rw [List.append_nil] at inside
        simp [copies f inside]
    · rw [List.concat_eq_append,← List.append_assoc (x :: z :: F'),← List.append_assoc H] at all
      obtain ⟨rfl,last⟩ := List.append_inj' all rfl
      refine ⟨by simp,H ++ ((x :: z :: F').map (fun _ => x) ++ G'),.inl ?_,fun f inside => ?_⟩
      · rw [List.concat_eq_append,last,List.append_assoc,List.append_assoc]
      · rcases List.mem_append.mp inside with old | inside
        · simp [old]
        · rcases List.mem_append.mp inside with copy | later
          · simp [copies f copy]
          · simp [later]

theorem liveBurst {talk : Talk} {size : Nat} (g : Globals) (n : Nat) (live : Live whole s talk) (ran : burst s size = some t) :
    ∃ talk', Move g n talk [] [] talk' ∧ Live whole t talk' ∧ t.log = s.log ∧ t.written = s.written ∧
      t.window = s.window := by
  obtain ⟨F,G,x,first,before,after,count,short,pipes,part,firmware,written,window,log⟩ := burstCases ran
  have holds := holdsSame pipes part firmware written (by rw [window]) live.holds
  have cut : talk.turn ≠ .stalled → 4 ∣ (t.m_rxBuf ++ t.replies).length := by
    intro other
    have cut := live.cut other
    omega
  have all := live.answers
  rw [before] at all
  by_cases single : F.length ≤ 1
  · have plain : F.map (fun _ => x) = F := by
      match F, single with
      | [], _ => rfl
      | [f], _ => rw [first f [] rfl]; rfl
    refine ⟨talk,.stay talk [] (by simp),⟨?_,short,cut,?_,live.spent,live.early,holds⟩,log,written,window⟩
    · rw [after,plain,all]
    · intro same
      have few := live.few same
      exact ⟨by omega,few.2⟩
  · have two : 2 ≤ F.length := by omega
    have many : 2 ≤ talk.answers.length := by
      rw [← all,List.length_append,List.length_append]
      omega
    have alone : talk.turn.answer.length ≤ 1 := by
      rcases answerCases talk.turn with none | ⟨r,checksum,f,turn⟩
      · rw [none]; simp
      · rw [turn]; simp [Turn.answer]
    obtain ⟨member,spent',answers,inside⟩ := copiesSpent two first all alone
    have early := live.early (List.ne_nil_of_mem member)
    have spent : ∀ f ∈ spent', Spent f := fun f h => live.spent f (inside f h)
    have running : talk.turn ≠ .stalled := fun stalled => by rw [stalled] at early; exact early
    rcases answers with answers | answers
    · exact ⟨⟨spent',talk.turn⟩,.garble many (.inl rfl),⟨by rw [after,answers]; rfl,short,cut,
        fun stalled => absurd stalled running,spent,fun _ => early,holds⟩,log,written,window⟩
    · rcases answerCases talk.turn with none | ⟨r,checksum,f,turn⟩
      · refine ⟨⟨spent',talk.turn⟩,.garble many (.inl rfl),⟨?_,short,cut,
          fun stalled => absurd stalled running,spent,fun _ => early,holds⟩,log,written,window⟩
        rw [after,answers,Talk.answers,none,List.append_nil]
      · rw [turn] at holds early
        refine ⟨⟨spent',.rest⟩,.garble many (.inr rfl),⟨?_,short,fun _ => cut running,by simp,spent,
          fun _ => trivial,holds.1,?_⟩,log,written,window⟩
        · rw [after,answers]
          exact (List.append_nil _).symm
        · have pc := holds.2.1
          cases early
          exact pc

end Receiving

section Acting
/- The window acts on an answer or starts a session. -/
variable {whole : Bool} {s t : Sys τ}

/-- After a good reply the firmware waits where the next request goes on. -/
theorem nextServing {r r' : Req} {g : Globals} {fw : CommandLoop.Firmware τ} (next : r.next g = some r')
    (pc : fw.pc = r.after) (fits : r'.Fits) : Serving r' fw.checksum fw 0 r'.pieces := by
  cases r with
  | program k data =>
    cases Option.some.inj next
    by_cases more : k + 1 < Loader.NUM_BLOCKS
    · rw [if_pos more] at fits ⊢
      have waits : fw.pc = .data (.program (k + 1)) [] := by
        rw [pc]
        exact if_pos more
      exact .data _ _ 0 rfl (by rw [fits.2]; decide) waits rfl
    · rw [if_neg more]
      exact .command rfl (by rw [pc]; exact if_neg more) rfl
  | verify k data =>
    cases Option.some.inj next
    by_cases more : k + 1 < Loader.NUM_BLOCKS
    · rw [if_pos more] at fits ⊢
      have waits : fw.pc = .data (.verify (k + 1)) [] := by
        rw [pc]
        exact if_pos more
      exact .data _ _ 0 rfl (by rw [fits.2]; decide) waits rfl
    · rw [if_neg more]
      exact .command rfl (by rw [pc]; exact if_neg more) rfl
  | reStart => contradiction
  | _ =>
    cases Option.some.inj next
    exact .command rfl pc rfl

theorem nextExists {r : Req} (g : Globals) (other : r ≠ .reStart) : ∃ r', r.next g = some r' := by
  cases r with
  | reStart => exact absurd rfl other
  | _ => exact ⟨_,rfl⟩

/-- A request that is written into an empty pipe. -/
theorem askedWritten {r : Req} {checksum : UInt16} (online : whole = true → s.online = true) (empty : pipe s = [])
    (slot : t.slot = stampAll s.written.length r.pieces) (written : t.written = s.written ++ r.pieces)
    (txBuf : t.m_txBuf = s.m_txBuf) (port : t.port = s.port) (queue : t.queue = s.queue) (part : t.part = s.part)
    (same : t.online = s.online) (serving : Serving r checksum t.firmware 0 r.pieces) (fits : r.Fits) :
    Asked whole t r checksum [] := by
  simp only [pipe,List.append_eq_nil_iff] at empty
  obtain ⟨⟨⟨noPart,noQueue⟩,noPort⟩,noBuf⟩ := empty
  have pipes : pipe t = if s.online then (stampAll s.written.length r.pieces).flatten else [] := by
    rw [pipe,part,queue,port,txBuf,slot,same,noPart,noQueue,noPort]
    cases online' : s.online with
    | false => simp
    | true =>
      rw [online'] at noBuf
      simp only [if_true,List.append_eq_nil_iff] at noBuf
      simp [noBuf.1]
  refine ⟨⟨s.written.length,r.pieces,?_,⟨?_,?_,?_⟩,?_⟩,fits,?_⟩
  · rw [part,noPart]
    exact serving
  · rw [pipes,List.append_nil]
    split
    · exact List.prefix_refl _
    · exact List.nil_prefix
  · intro h
    rw [pipes,if_pos (online h),List.append_nil]
  · rw [written,List.drop_left,List.append_nil]
  · rw [written,List.length_append]
    exact Nat.le_add_right _ _
  · rw [written,List.append_nil]
    exact List.suffix_append _ _

theorem reactQuiet (w : MainWindow.Window) (reports : List Report) (entry : Event) (idle : s.slot = [])
    (same : w = s.window) :
    react s entry ⟨w,reports,[]⟩ = {s with log := s.log ++ entry :: reports.map .reported} := by
  subst same
  simp only [react,stampAll,List.append_nil]
  rw [← idle]

theorem handledHead (w : MainWindow.Window) (ba : List Answer) :
    serialData w (ba.map Answer.byte) = serialData w (bytesOf (ba.take 4)) := by
  rw [← MainWindow.serialDataHead w (ba.map Answer.byte),bytesOf,List.map_take]

theorem liveDeliver {talk : Talk} (live : Live whole s talk) (online : whole = true → s.online = true)
    (ran : deliver s = some t) :
    ∃ talk' events writes, Move s.window.globals s.written.length talk events writes talk' ∧ Live whole t talk' ∧
      Logged s t events ∧ t.written = s.written ++ writes ∧ t.window.globals = s.window.globals := by
  unfold deliver at ran
  split at ran <;> try contradiction
  · rename_i ba signals idle found
    cases Option.some.inj ran
    have answers := live.answers
    have front : inbound s = ba.take 4 :: inbound {s with signals := signals} := by
      rw [inbound,found]
      rfl
    rw [front] at answers
    obtain ⟨spent,turn⟩ := talk
    rw [handledHead]
    cases spent with
    | cons f spent =>
      obtain ⟨same,answers⟩ := List.cons.inj answers
      obtain ⟨reports,handled⟩ := live.spent f List.mem_cons_self
      rw [same,handled,reactQuiet (s := {s with signals := signals}) _ _ _ idle rfl]
      refine ⟨⟨spent,turn⟩,_,[],.report same handled,?_,loggedActed rfl,(List.append_nil _).symm,rfl⟩
      exact ⟨answers,live.short,live.cut,live.few,fun f' inside => live.spent f' (List.mem_cons_of_mem _ inside),
        fun _ => live.early (by simp),holdsSame (s := s) rfl rfl rfl rfl rfl live.holds⟩
    | nil =>
      cases turn with
      | answered r checksum f =>
        obtain ⟨same,answers⟩ := List.cons.inj answers
        obtain ⟨empty,pc,running,fits,counted,other,bytes,_⟩ := live.holds
        obtain ⟨r',next⟩ := nextExists s.window.globals other
        have continued := goodReply fits counted next
        rw [← bytes,← same] at continued
        refine ⟨⟨[],.asked r' checksum⟩,_,_,.next next same continued.running,?_,loggedActed rfl,?_,?_⟩
        · refine ⟨answers,live.short,fun _ => live.cut (by simp),by simp,by simp,by simp,?_,continued.counted⟩
          have serving := nextServing next pc continued.fits
          rw [running] at serving
          exact askedWritten (s := s) online empty (by rw [react,continued.writes]) (by rw [react,continued.writes]) rfl rfl
            rfl rfl rfl serving continued.fits
        · rw [react,continued.writes]
        · rw [react,MainWindow.serialDataWindow]
      | _ => contradiction
  · rename_i signals idle found
    cases Option.some.inj ran
    refine ⟨talk,[],[],.stay talk [] (by simp),?_,loggedNothing rfl,(List.append_nil _).symm,rfl⟩
    refine liveSame live ?_ rfl rfl rfl rfl rfl rfl rfl
    rw [found]
    rfl

/-- A click while the firmware waits for a command. -/
theorem liveClick {spent : List (List Answer)} (live : Live whole s ⟨spent,.rest⟩)
    (online : whole = true → s.online = true) (ran : flash s = some t) :
    Live whole t ⟨spent,.asked .initial s.firmware.checksum⟩ ∧
    t.log = s.log ++ [.click s.window.globals s.written.length] ∧ t.written = s.written ++ Req.initial.pieces ∧
    t.window = s.window := by
  unfold flash at ran
  split at ran <;> try contradiction
  cases Option.some.inj ran
  obtain ⟨empty,pc⟩ := live.holds
  refine ⟨?_,rfl,rfl,rfl⟩
  refine ⟨live.answers,live.short,fun _ => live.cut (by simp),by simp,live.spent,fun _ => rfl,?_,trivial⟩
  exact askedWritten (s := s) online empty rfl rfl rfl rfl rfl rfl rfl (.command rfl pc rfl) trivial

theorem liveFlash {talk : Talk} (live : Live whole s talk) (online : whole = true → s.online = true)
    (safe : talk.turn = .rest ∨ whole = true ∧ ∃ checksum, talk.turn = .asked .reStart checksum)
    (ran : flash s = some t) :
    ∃ talk', Move s.window.globals s.written.length talk [.click s.window.globals s.written.length]
        Req.initial.pieces talk' ∧ Live whole t talk' ∧
      t.log = s.log ++ [.click s.window.globals s.written.length] ∧ t.written = s.written ++ Req.initial.pieces ∧
      t.window.globals = s.window.globals := by
  obtain ⟨spent,turn⟩ := talk
  rcases safe with rest | ⟨complete,checksum,restarting⟩
  · simp only at rest
    subst rest
    obtain ⟨live',log,written,window⟩ := liveClick live online ran
    exact ⟨_,.click spent _,live',log,written,by rw [window]⟩
  unfold flash at ran
  split at ran <;> try contradiction
  rename_i may
  obtain ⟨idle,_⟩ := may
  cases Option.some.inj ran
  simp only at restarting
  subst restarting
  obtain ⟨⟨⟨i,P,serving,out,inside⟩,fits,pieces⟩,_⟩ := live.holds
  rw [List.append_nil] at out pieces
  refine ⟨⟨spent,.queued checksum⟩,.clickBehind spent _,?_,rfl,rfl,rfl⟩
  have late : spent = [] := by
    by_contra some
    have early : Req.reStart = .initial := live.early some
    contradiction
  subst late
  have size : s.written.length = i + P.length := by
    have count := congrArg List.length out.written
    rw [List.length_drop] at count
    omega
  have pipes : ∀ w log, pipe { s with
      window := w
      slot := stampAll s.written.length Req.initial.pieces
      written := s.written ++ Req.initial.pieces
      log := log } = (stampAll i (P ++ Req.initial.pieces)).flatten := by
    intro w log
    have all := out.all complete
    rw [stampAllAppend,← all,← size]
    simp [pipe,online complete,idle]
  refine ⟨live.answers,live.short,fun _ => live.cut (by simp),by simp,by simp,by simp,?_⟩
  refine ⟨⟨i,P,serving,⟨?_,fun _ => pipes _ _,?_⟩,?_⟩,trivial,?_⟩
  · exact (pipes _ _) ▸ List.prefix_refl _
  · change (s.written ++ Req.initial.pieces).drop i = _
    rw [List.drop_append_of_le_length inside,out.written]
  · change i ≤ (s.written ++ Req.initial.pieces).length
    rw [List.length_append]
    omega
  · obtain ⟨before,same⟩ := pieces
    exact ⟨before,by rw [← List.append_assoc,same]; rfl⟩

end Acting

section Step
variable {T : CommandLoop.Target τ} {whole : Bool} {s t : Sys τ} {talk : Talk}

theorem liveIdle (idle : Idle s) : Live whole s ⟨[],.rest⟩ := by
  have empty : pipe s = [] := by
    simp [pipe,idle.part,idle.queue,idle.port,idle.txBuf,idle.slot]
  have answers : inbound s = [] := by
    rw [inbound,idle.signals,idle.rxBuf,idle.replies]
    exact framesShort (by decide)
  refine ⟨answers,by rw [idle.rxBuf]; decide,fun _ => ?_,by simp,by simp,by simp,empty,idle.top⟩
  rw [idle.rxBuf,idle.replies]
  exact Nat.dvd_zero 4

/-- The port is neither opened nor closed. -/
def Connected : Action → Prop
  | .connect | .disconnect _ | .writeTimeout _ _ | .lose => False
  | _ => True

/- Flash starts a session when none is running, or behind a restart under way. -/
def Clickable (whole : Bool) (talk : Talk) : Prop :=
  talk.turn = .rest ∨ whole = true ∧ ∃ checksum, talk.turn = .asked .reStart checksum

/-- One step of the system is a move of the conversation. -/
theorem liveStep {a : Action} (live : Live whole s talk) (online : whole = true → s.online = true)
    (connected : Connected a) (click : a = .flash → Clickable whole talk) (ran : step T s a = some t) :
    ∃ talk' events writes, Move s.window.globals s.written.length talk events writes talk' ∧ Live whole t talk' ∧
      t.written = s.written ++ writes ∧
      ((∀ choice, a ≠ .fileOpen choice) → t.window.globals = s.window.globals) ∧
      (Logged s t events ∨ a = .flash ∧ events = [.click s.window.globals s.written.length] ∧
        t.log = s.log ++ events) := by
  cases a with
  | flash =>
    obtain ⟨talk',move,live',log,written,globals⟩ := liveFlash live online (click rfl) ran
    exact ⟨talk',_,_,move,live',written,fun _ => globals,.inr ⟨rfl,rfl,log⟩⟩
  | deliver =>
    obtain ⟨talk',events,writes,move,live',log,written,globals⟩ := liveDeliver live online ran
    exact ⟨talk',events,writes,move,live',written,fun _ => globals,.inl log⟩
  | consume =>
    obtain ⟨live',written,window,events,log,reads⟩ := liveConsume live ran
    exact ⟨talk,events,[],.stay talk events reads,live',by rw [written,List.append_nil],fun _ => by rw [window],.inl log⟩
  | execute =>
    obtain ⟨talk',events,move,live',log,written,window⟩ :=
      liveExecute s.window.globals s.written.length live ran
    exact ⟨talk',events,[],move,live',by rw [written,List.append_nil],fun _ => by rw [window],.inl log⟩
  | burst n =>
    obtain ⟨talk',move,live',log,written,window⟩ := liveBurst s.window.globals s.written.length live ran
    exact ⟨talk',[],[],move,live',by rw [written,List.append_nil],fun _ => by rw [window],
      .inl (loggedNothing log)⟩
  | fileOpen choice =>
    have live' := liveFileOpen live ran
    simp only [step,fileOpen,Option.ite_none_right_eq_some,Option.some.injEq] at ran
    obtain ⟨_,rfl⟩ := ran
    exact ⟨talk,[],[],.stay talk [] (by simp),live',(List.append_nil _).symm,
      fun other => absurd rfl (other choice),.inl (loggedNothing rfl)⟩
  | slotWrite =>
    have live' := liveSlotWrite live ran
    simp only [step,slotWrite] at ran
    split at ran <;> try contradiction
    cases Option.some.inj ran
    exact ⟨talk,[],[],.stay talk [] (by simp),live',(List.append_nil _).symm,fun _ => rfl,.inl (loggedNothing rfl)⟩
  | transmit n =>
    have live' := liveTransmit live ran
    simp only [step,transmit,Option.ite_none_right_eq_some,Option.some.injEq] at ran
    obtain ⟨_,rfl⟩ := ran
    exact ⟨talk,[],[],.stay talk [] (by simp),live',(List.append_nil _).symm,fun _ => rfl,.inl (loggedNothing rfl)⟩
  | arrive =>
    have live' := liveArrive live ran
    simp only [step,arrive] at ran
    split at ran <;> try contradiction
    cases Option.some.inj ran
    exact ⟨talk,[],[],.stay talk [] (by simp),live',(List.append_nil _).symm,fun _ => rfl,.inl (loggedNothing rfl)⟩
  | _ => exact connected.elim

theorem connectedOnline {a : Action} (connected : Connected a) (ran : step T s a = some t) : t.online = s.online := by
  cases a with
  | consume =>
    obtain ⟨b,queue,firmware,cause,events,_,_,⟨_,_,after⟩ | ⟨_,after⟩⟩ := consumeCases ran <;> rw [after]
  | execute =>
    obtain ⟨outcome,_,after⟩ := executeCases ran
    rw [after]
  | deliver =>
    simp only [step,deliver] at ran
    split at ran <;> try contradiction
    all_goals cases Option.some.inj ran; rfl
  | slotWrite | arrive =>
    simp only [step,slotWrite,arrive] at ran
    split at ran <;> try contradiction
    cases Option.some.inj ran
    rfl
  | flash | fileOpen choice | transmit n | burst n =>
    simp only [step,flash,fileOpen,transmit,burst,Option.ite_none_right_eq_some,Option.some.injEq] at ran
    obtain ⟨_,rfl⟩ := ran
    rfl
  | _ => exact connected.elim

end Step
end HsspProgrammer.Conversation
