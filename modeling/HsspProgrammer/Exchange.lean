import HsspProgrammer.Programmer

/-! One exchange of the flashing protocol, seen from both sides: how the firmware takes
in the bytes of a request and what it answers, and what the window does with the
answer. Each side gets one lemma for each thing it can do. -/
namespace HsspProgrammer.Exchange
open Ascii (Bytes)
open Loader (Globals NUM_BLOCKS)
open MainWindow (Window Report command serialData)
open CommandLoop

/- A request is what one slot of the window writes. Only the first block of a pass
comes with a command, for the others the firmware is still in its loop. -/
inductive Req where
  | initial
  | erase
  | program (k : Nat) (data : Bytes)
  | verify (k : Nat) (data : Bytes)
  | secure (data : Bytes)
  | secureVerify (data : Bytes)
  | checksum
  | reStart
  deriving DecidableEq, Repr

def Req.cmdID : Req → UInt8
  | .initial => Ascii.a
  | .erase => Ascii.b
  | .program _ _ => Ascii.c
  | .verify _ _ => Ascii.d
  | .secure _ => Ascii.e
  | .secureVerify _ => Ascii.f
  | .checksum => Ascii.g
  | .reStart => Ascii.x

def Req.commanded : Req → Bool
  | .program k _ | .verify k _ => k == 0
  | _ => true

def Req.payload : Req → Option (Use × Bytes)
  | .program k data => some (.program k,data)
  | .verify k data => some (.verify k,data)
  | .secure data => some (.securityFlash,data)
  | .secureVerify data => some (.securityVerify,data)
  | _ => none

def Req.pieces (r : Req) : List Bytes :=
  (if r.commanded then [command r.cmdID] else []) ++ (r.payload.map Prod.snd).toList

def Req.Fits : Req → Prop
  | .program k data | .verify k data => k < BLOCKS_PER_BANK ∧ data.length = TARGET_DATABUFF_LEN
  | .secure data | .secureVerify data => data.length = TARGET_DATABUFF_LEN
  | _ => True

def Req.good : Req → UInt8
  | .program k _ | .verify k _ => blockArg k false
  | _ => Ascii.zero

def Req.after : Req → Pc
  | .program k _ => nextBlock .program k false
  | .verify k _ => nextBlock .verify k false
  | _ => .cmdID

/- The running checksum while a request is served and after it. -/
def Req.entry (checksum : UInt16) : Req → UInt16
  | .program 0 _ => 0x0000
  | _ => checksum

def Req.exit (checksum : UInt16) : Req → UInt16
  | .program 0 data => 0x0000 + sum data
  | .program _ data => checksum + sum data
  | _ => checksum

/- The operations of a request that succeeds. -/
def Req.performed (checksum : UInt16) : Req → List Op
  | .initial => [.targetInitialize false,.targetSiliconIDVerify false]
  | .erase => [.targetErase false]
  | .program k data => [.targetLoad data,.targetBlockProgram k data false]
  | .verify k data => [.targetBlockVerify k data false]
  | .secure data => [.targetSecurityFlash (data.take SECURITY_BYTES_PER_BANK) false]
  | .secureVerify data => [.targetSecurityVerify (data.take SECURITY_BYTES_PER_BANK) false]
  | .checksum => [.targetBankChecksumGet (some checksum)]
  | .reStart => [.targetReStart]

theorem piecesLength {r : Req} (fits : r.Fits) : ∀ piece ∈ r.pieces, piece.length = 2 ∨ piece.length = 64 := by
  intro piece inside
  rcases List.mem_append.mp inside with first | second
  · split at first
    · cases List.mem_singleton.mp first
      exact .inl rfl
    · cases first
  · cases r <;> simp [Req.payload] at second <;> subst second
    · exact .inr fits.2
    · exact .inr fits.2
    · exact .inr fits
    · exact .inr fits

theorem payloadLength {r : Req} (fits : r.Fits) {use : Use} {data : Bytes} (pays : r.payload = some (use,data)) :
    data.length = TARGET_DATABUFF_LEN := by
  cases r <;> simp [Req.payload] at pays <;> obtain ⟨_,rfl⟩ := pays
  · exact fits.2
  · exact fits.2
  · exact fits
  · exact fits

section Firmware
variable {τ : Type} {T : Target τ}

/- How far the firmware is with a request: `n` bytes of the first remaining piece are read. -/
inductive Serving (r : Req) (checksum : UInt16) (fw : Firmware τ) : Nat → List Bytes → Prop where
  | command (starts : r.commanded = true) (pc : fw.pc = .cmdID) (running : fw.checksum = checksum) :
      Serving r checksum fw 0 r.pieces
  | terminator (starts : r.commanded = true) (pc : fw.pc = .cmdTrm r.cmdID) (running : fw.checksum = checksum) :
      Serving r checksum fw 1 r.pieces
  | pair (starts : r.commanded = true) (pc : fw.pc = .command r.cmdID Ascii.newline)
      (running : fw.checksum = checksum) : Serving r checksum fw 0 (r.payload.map Prod.snd).toList
  | data (use : Use) (data : Bytes) (n : Nat) (pays : r.payload = some (use,data)) (few : n < data.length)
      (pc : fw.pc = .data use (data.take n)) (running : fw.checksum = r.entry checksum) :
      Serving r checksum fw n [data]
  | ready (use : Use) (data : Bytes) (pays : r.payload = some (use,data)) (pc : fw.pc = .ready use)
      (full : fw.targetDataOUT = data) (running : fw.checksum = r.entry checksum) : Serving r checksum fw 0 []

/- What has been read is complete: the firmware is about to execute. -/
def Complete (fw : Firmware τ) : Prop :=
  (∃ cmdID cmdTrm, fw.pc = .command cmdID cmdTrm) ∨ ∃ use, fw.pc = .ready use

/-- One byte of a request is read. -/
theorem servingConsume {r : Req} {checksum : UInt16} {fw fw' : Firmware τ} {n : Nat} {P : List Bytes} {byte : UInt8}
    (fits : r.Fits) (serving : Serving r checksum fw n P) (read : consume fw byte = some fw')
    (same : (P.headD [])[n]? = some byte) :
    ∃ piece rest, P = piece :: rest ∧
      ((n + 1 < piece.length ∧ ¬ Complete fw' ∧ Serving r checksum fw' (n + 1) P) ∨
       (n + 1 = piece.length ∧ Serving r checksum fw' 0 rest ∧
        ((∃ cmdTrm, fw'.pc = .command r.cmdID cmdTrm ∧ piece = command r.cmdID ∧ r.commanded = true) ∨
         ∃ use, fw'.pc = .ready use ∧ piece.length = 64))) := by
  cases serving with
  | command starts pc running =>
    have shape : r.pieces = command r.cmdID :: (r.payload.map Prod.snd).toList := by
      rw [Req.pieces,if_pos starts,List.singleton_append]
    rw [shape] at same ⊢
    cases Option.some.inj same
    simp only [consume,pc] at read
    cases Option.some.inj read
    refine ⟨_,_,rfl,.inl ⟨by simp [command],by simp [Complete],?_⟩⟩
    rw [← shape]
    exact .terminator starts rfl running
  | terminator starts pc running =>
    have shape : r.pieces = command r.cmdID :: (r.payload.map Prod.snd).toList := by
      rw [Req.pieces,if_pos starts,List.singleton_append]
    rw [shape] at same ⊢
    cases Option.some.inj same
    simp only [consume,pc] at read
    cases Option.some.inj read
    exact ⟨_,_,rfl,.inr ⟨rfl,.pair starts rfl running,.inl ⟨_,rfl,rfl,starts⟩⟩⟩
  | pair starts pc running => simp [consume,pc] at read
  | data use data n pays few pc running =>
    have size := payloadLength fits pays
    simp only [List.headD_cons] at same
    obtain ⟨_,same⟩ := List.getElem?_eq_some_iff.mp same
    have grown : data.take n ++ [byte] = data.take (n + 1) := by
      rw [← same,List.take_append_getElem]
    have count : (data.take n).length = n := by rw [List.length_take]; omega
    simp only [consume,pc,count,grown] at read
    refine ⟨_,_,rfl,?_⟩
    split at read
    · rename_i last
      cases Option.some.inj read
      have whole : data.take (n + 1) = data := List.take_of_length_le (by omega)
      exact .inr ⟨by omega,.ready use data pays rfl whole running,.inr ⟨use,rfl,size⟩⟩
    · rename_i more
      cases Option.some.inj read
      exact .inl ⟨by omega,by simp [Complete],.data use data (n + 1) pays (by omega) rfl running⟩
  | ready use data pays pc full running => simp [consume,pc] at read

/- Why a request does not succeed: the target has failed, or its checksum is another. -/
def Wrong (r : Req) (checksum : UInt16) (ops : List Op) : Prop :=
  (∃ op ∈ ops, op.failed = true) ∨
  (r = .checksum ∧ ∃ value, .targetBankChecksumGet (some value) ∈ ops ∧ value ≠ checksum)

/- Only the block of the request is programmed. -/
def Aimed (r : Req) (ops : List Op) : Prop :=
  ∀ k data failed, .targetBlockProgram k data failed ∈ ops → r = .program k data

/- The end of a request: either it succeeded, or the firmware has left its loops. -/
structure Succeeded (r : Req) (checksum : UInt16) (outcome : Outcome τ) : Prop where
  reply : outcome.reply = reply r.cmdID r.good
  pc : outcome.firmware.pc = r.after
  running : outcome.firmware.checksum = r.exit checksum
  ops : outcome.ops = r.performed checksum

structure Failed (r : Req) (checksum : UInt16) (outcome : Outcome τ) : Prop where
  reply : outcome.reply = reply r.cmdID Ascii.one ∨ outcome.reply = reply r.cmdID Ascii.two
  pc : outcome.firmware.pc = .cmdID
  other : r ≠ .reStart
  wrong : Wrong r checksum outcome.ops
  aimed : Aimed r outcome.ops

theorem performedAimed (r : Req) (checksum : UInt16) : Aimed r (r.performed checksum) := by
  intro k data failed inside
  cases r <;> simp_all [Req.performed]

/-- A command without a block is a whole request; with a block only the wait begins. -/
theorem pairExecute {r : Req} {checksum : UInt16} {fw : Firmware τ} {outcome : Outcome τ}
    (fits : r.Fits) (starts : r.commanded = true) (pc : fw.pc = .command r.cmdID Ascii.newline)
    (running : fw.checksum = checksum) (ran : execute T fw = some outcome) :
    (∃ use data, r.payload = some (use,data) ∧ outcome.reply = [] ∧ outcome.ops = [] ∧
      outcome.firmware.pc = .data use [] ∧ outcome.firmware.checksum = r.entry checksum) ∨
    (r.payload = none ∧ (Succeeded r checksum outcome ∨ Failed r checksum outcome)) := by
  have known : Ascii.a ≤ r.cmdID ∧ r.cmdID ≤ Ascii.z ∧ Ascii.newline = Ascii.newline := by
    cases r <;> simp only [Req.cmdID] <;> decide
  have now : execute T fw = some (onCommand T fw r.cmdID) := by
    unfold execute
    rw [pc]
    exact if_pos known
  cases Option.some.inj (now.symm.trans ran)
  cases r with
  | initial =>
    refine .inr ⟨rfl,?_⟩
    cases started : (T.targetInitialize fw.target).1 with
    | true =>
      refine .inr ⟨.inl ?_,?_,by simp,.inl ?_,?_⟩ <;> simp [Aimed,onCommand,Req.cmdID,started,Op.failed]
    | false =>
      cases found : (T.targetSiliconIDVerify (T.targetInitialize fw.target).2).1 with
      | true => refine .inr ⟨.inr ?_,?_,by simp,.inl ?_,?_⟩ <;> simp [Aimed,onCommand,Req.cmdID,started,found,Op.failed]
      | false =>
        refine .inl ⟨?_,?_,?_,?_⟩ <;>
          simp [onCommand,Req.cmdID,Req.good,Req.after,Req.exit,Req.performed,started,found,running]
  | erase =>
    refine .inr ⟨rfl,?_⟩
    cases erased : (T.targetErase fw.target).1 with
    | true => refine .inr ⟨.inl ?_,?_,by simp,.inl ?_,?_⟩ <;> simp [Aimed,onCommand,Req.cmdID,erased,Op.failed]
    | false =>
      refine .inl ⟨?_,?_,?_,?_⟩ <;>
        simp [onCommand,Req.cmdID,Req.good,Req.after,Req.exit,Req.performed,erased,running]
  | program k data =>
    have first : k = 0 := by simpa [Req.commanded] using starts
    subst first
    exact .inl ⟨_,_,rfl,rfl,rfl,rfl,rfl⟩
  | verify k data =>
    have first : k = 0 := by simpa [Req.commanded] using starts
    subst first
    exact .inl ⟨_,_,rfl,rfl,rfl,rfl,running⟩
  | secure data => exact .inl ⟨_,_,rfl,rfl,rfl,rfl,running⟩
  | secureVerify data => exact .inl ⟨_,_,rfl,rfl,rfl,rfl,running⟩
  | checksum =>
    refine .inr ⟨rfl,?_⟩
    cases got : (T.targetBankChecksumGet fw.target).1 with
    | none => refine .inr ⟨.inl ?_,?_,by simp,.inl ?_,?_⟩ <;> simp [Aimed,onCommand,Req.cmdID,got,Op.failed]
    | some targetChecksum =>
      by_cases same : targetChecksum = fw.checksum
      · refine .inl ⟨?_,?_,?_,?_⟩ <;>
          simp [onCommand,Req.cmdID,Req.good,Req.after,Req.exit,Req.performed,got,same,running]
      · refine .inr ⟨.inr ?_,?_,by simp,.inr ⟨rfl,targetChecksum,?_,running ▸ same⟩,?_⟩ <;>
          simp [Aimed,onCommand,Req.cmdID,got,same]
  | reStart =>
    refine .inr ⟨rfl,.inl ⟨?_,?_,?_,?_⟩⟩ <;>
      simp [onCommand,Req.cmdID,Req.good,Req.after,Req.exit,Req.performed,running]

/-- A block that is there is used, and the firmware answers. -/
theorem readyExecute {r : Req} {checksum : UInt16} {fw : Firmware τ} {outcome : Outcome τ} {use : Use}
    {data : Bytes} (pays : r.payload = some (use,data)) (pc : fw.pc = .ready use)
    (full : fw.targetDataOUT = data) (running : fw.checksum = r.entry checksum)
    (ran : execute T fw = some outcome) : Succeeded r checksum outcome ∨ Failed r checksum outcome := by
  rw [execute,pc] at ran
  simp only [Option.some.injEq] at ran
  subst ran
  cases r with
  | program k data =>
    cases Option.some.inj pays
    cases failed : (T.targetBlockProgram (UInt8.ofNat k) (T.targetLoad fw.targetDataOUT fw.target).2).1 with
    | true =>
      rw [full] at failed
      refine .inr ⟨.inl ?_,?_,by simp,.inl ?_,?_⟩ <;>
        simp [Aimed,onReady,Req.cmdID,blockArg,nextBlock,failed,Op.failed,full]
    | false =>
      rw [full] at failed
      have exact_sum : fw.checksum + sum data = (Req.program k data).exit checksum := by
        rw [running]
        cases k <;> rfl
      refine .inl ⟨?_,?_,?_,?_⟩ <;>
        simp [onReady,Req.cmdID,Req.good,Req.after,Req.performed,failed,full,T.loadSum,exact_sum]
  | verify k data =>
    cases Option.some.inj pays
    cases failed : (T.targetBlockVerify (UInt8.ofNat k) fw.targetDataOUT fw.target).1 with
    | true =>
      refine .inr ⟨.inl ?_,?_,by simp,.inl ?_,?_⟩ <;> simp [Aimed,onReady,Req.cmdID,blockArg,nextBlock,failed,Op.failed]
    | false =>
      rw [full] at failed
      refine .inl ⟨?_,?_,?_,?_⟩ <;>
        simp [onReady,Req.cmdID,Req.good,Req.after,Req.performed,Req.exit,full,failed,running,Req.entry]
  | secure data =>
    cases Option.some.inj pays
    cases failed : (T.targetSecurityFlash fw.targetDataOUT fw.target).1 with
    | true => refine .inr ⟨.inl ?_,?_,by simp,.inl ?_,?_⟩ <;> simp [Aimed,onReady,Req.cmdID,failed,Op.failed]
    | false =>
      rw [full] at failed
      refine .inl ⟨?_,?_,?_,?_⟩ <;>
        simp [onReady,Req.cmdID,Req.good,Req.after,Req.performed,Req.exit,full,failed,running,Req.entry]
  | secureVerify data =>
    cases Option.some.inj pays
    cases failed : (T.targetSecurityVerify fw.targetDataOUT fw.target).1 with
    | true => refine .inr ⟨.inl ?_,?_,by simp,.inl ?_,?_⟩ <;> simp [Aimed,onReady,Req.cmdID,failed,Op.failed]
    | false =>
      rw [full] at failed
      refine .inl ⟨?_,?_,?_,?_⟩ <;>
        simp [onReady,Req.cmdID,Req.good,Req.after,Req.performed,Req.exit,full,failed,running,Req.entry]
  | _ => simp [Req.payload] at pays

/-- Executing either goes on to wait for the block of the request or ends the request. -/
theorem servingExecute {r : Req} {checksum : UInt16} {fw : Firmware τ} {n : Nat} {P : List Bytes}
    {outcome : Outcome τ} (fits : r.Fits) (serving : Serving r checksum fw n P)
    (ran : execute T fw = some outcome) :
    n = 0 ∧
    ((P ≠ [] ∧ outcome.reply = [] ∧ outcome.ops = [] ∧ Serving r checksum outcome.firmware 0 P) ∨
     (P = [] ∧ (Succeeded r checksum outcome ∨ Failed r checksum outcome))) := by
  cases serving with
  | command starts pc running => simp [execute,pc] at ran
  | terminator starts pc running => simp [execute,pc] at ran
  | pair starts pc running =>
    refine ⟨rfl,?_⟩
    obtain ⟨use,data,pays,quiet,silent,waits,entered⟩ | ⟨none,done⟩ := pairExecute fits starts pc running ran
    · have size := payloadLength fits pays
      rw [pays]
      exact .inl ⟨by simp,quiet,silent,.data use data 0 pays (by rw [size]; decide) waits entered⟩
    · rw [none]
      exact .inr ⟨rfl,done⟩
  | data use data n pays few pc running => simp [execute,pc] at ran
  | ready use data pays pc full running => exact ⟨rfl,.inr ⟨rfl,readyExecute pays pc full running ran⟩⟩

end Firmware

section Window

def row (g : Globals) (k : Nat) : Bytes :=
  if inside : k < NUM_BLOCKS then (g.programData.get ⟨k,inside⟩).toList else []

def securityRow (g : Globals) : Bytes := g.securityData.toList

/- What the window asks for after a request has succeeded. -/
def Req.next (g : Globals) : Req → Option Req
  | .initial => some .erase
  | .erase => some (.program 0 (row g 0))
  | .program k _ =>
    some (if k + 1 < NUM_BLOCKS then .program (k + 1) (row g (k + 1)) else .verify 0 (row g 0))
  | .verify k _ =>
    some (if k + 1 < NUM_BLOCKS then .verify (k + 1) (row g (k + 1)) else .secure (securityRow g))
  | .secure _ => some (.secureVerify (securityRow g))
  | .secureVerify _ => some .checksum
  | .checksum => some .reStart
  | .reStart => none

/- `blockCntr` counts the blocks written in a pass, one more than the block asked for. -/
def Counted (w : Window) : Req → Prop
  | .program k _ | .verify k _ => w.blockCntr.toNat = k + 1
  | _ => True

theorem rowLength (g : Globals) {k : Nat} (inside : k < NUM_BLOCKS) : (row g k).length = TARGET_DATABUFF_LEN := by
  rw [row,dif_pos inside]
  exact Vector.length_toList

theorem securityLength (g : Globals) : (securityRow g).length = TARGET_DATABUFF_LEN :=
  Vector.length_toList

theorem goodBlock (k : Nat) : blockArg k false = if k + 1 < NUM_BLOCKS then Ascii.plus else Ascii.zero := by
  have same : k < BLOCKS_PER_BANK - 1 ↔ k + 1 < NUM_BLOCKS := by
    simp only [BLOCKS_PER_BANK,NUM_BLOCKS]
    omega
  simp only [blockArg,Bool.false_eq_true,if_false,same]

theorem rowBlock (w : Window) (k : Nat) (inside : k < NUM_BLOCKS) :
    MainWindow.programBlock w k inside = row w.globals k := by
  rw [row,dif_pos inside,MainWindow.programBlock]

/-- The next request is written, and the counter follows it. -/
structure Continued (w : Window) (r' : Req) (reaction : MainWindow.Reaction) : Prop where
  writes : reaction.writes = r'.pieces
  counted : Counted reaction.window r'
  fits : r'.Fits
  running : ∀ report ∈ reaction.reports, report.final = false

theorem firstBlockContinued (w : Window) (r' : Req) (reports : List Report)
    (first : r' = .program 0 (row w.globals 0) ∨ r' = .verify 0 (row w.globals 0))
    (running : ∀ report ∈ reports, report.final = false) :
    Continued w r' (MainWindow.firstBlock w reports r'.cmdID) := by
  have size := rowLength w.globals (k := 0) (by decide)
  rcases first with rfl | rfl
  · exact ⟨by rw [MainWindow.firstBlock,rowBlock]; rfl,rfl,⟨by decide,size⟩,running⟩
  · exact ⟨by rw [MainWindow.firstBlock,rowBlock]; rfl,rfl,⟨by decide,size⟩,running⟩

theorem nextBlockContinued (w : Window) (r' : Req) (k : Nat) (last : MainWindow.Reaction)
    (counted : w.blockCntr.toNat = k + 1) (more : k + 1 < NUM_BLOCKS)
    (later : r' = .program (k + 1) (row w.globals (k + 1)) ∨ r' = .verify (k + 1) (row w.globals (k + 1))) :
    Continued w r' (MainWindow.blockReply w Ascii.plus Ascii.newline last) := by
  have size := rowLength w.globals more
  have room : w.blockCntr.toNat < NUM_BLOCKS := by omega
  have next : (w.blockCntr + 1).toNat = k + 1 + 1 := by
    simp only [NUM_BLOCKS] at more
    simp only [UInt8.toNat_add,UInt8.reduceToNat,counted]
    omega
  have block : row w.globals w.blockCntr.toNat = row w.globals (k + 1) := by rw [counted]
  have silent : ∀ report ∈ (if w.blockCntr.toNat % 2 = 0 then [Report.dot] else []), report.final = false := by
    intro report inside
    split at inside
    · cases List.mem_singleton.mp inside
      rfl
    · cases inside
  rw [MainWindow.blockReply,dif_pos ⟨rfl,rfl,room⟩]
  rcases later with rfl | rfl
  · exact ⟨by rw [rowBlock,block]; rfl,next,⟨more,size⟩,silent⟩
  · exact ⟨by rw [rowBlock,block]; rfl,next,⟨more,size⟩,silent⟩

theorem goodReply {w : Window} {r r' : Req} (fits : r.Fits) (counted : Counted w r)
    (next : r.next w.globals = some r') : Continued w r' (serialData w (reply r.cmdID r.good)) := by
  cases r with
  | initial =>
    cases Option.some.inj next
    exact ⟨rfl,trivial,trivial,List.forall_mem_singleton.mpr rfl⟩
  | erase =>
    cases Option.some.inj next
    exact firstBlockContinued w _ _ (.inl rfl) (by simp [Report.final])
  | program k data =>
    cases Option.some.inj next
    change Continued w _ (serialData w (reply Ascii.c (blockArg k false)))
    by_cases more : k + 1 < NUM_BLOCKS
    · rw [goodBlock,if_pos more,if_pos more]
      exact nextBlockContinued w _ k _ counted more (.inl rfl)
    · rw [goodBlock,if_neg more,if_neg more]
      exact firstBlockContinued w _ _ (.inr rfl) (by simp [Report.final])
  | verify k data =>
    cases Option.some.inj next
    change Continued w _ (serialData w (reply Ascii.d (blockArg k false)))
    by_cases more : k + 1 < NUM_BLOCKS
    · rw [goodBlock,if_pos more,if_pos more]
      exact nextBlockContinued w _ k _ counted more (.inr rfl)
    · rw [goodBlock,if_neg more,if_neg more]
      exact ⟨rfl,trivial,securityLength w.globals,List.forall_mem_singleton.mpr rfl⟩
  | secure data =>
    cases Option.some.inj next
    exact ⟨rfl,trivial,securityLength w.globals,List.forall_mem_singleton.mpr rfl⟩
  | secureVerify data =>
    cases Option.some.inj next
    exact ⟨rfl,trivial,trivial,List.forall_mem_singleton.mpr rfl⟩
  | checksum =>
    cases Option.some.inj next
    exact ⟨rfl,trivial,trivial,List.forall_mem_singleton.mpr rfl⟩
  | reStart => contradiction

theorem lastReply (w : Window) : serialData w (reply Ascii.x Ascii.zero) = ⟨w,[.reStarted],[]⟩ := rfl

/-- A failure is reported once, and the session goes no further. -/
theorem badReply {r : Req} {argID : UInt8} (failed : argID = Ascii.one ∨ argID = Ascii.two) (other : r ≠ .reStart) :
    ∃ report : Report, report.final = true ∧ report ≠ .reStarted ∧
      ∀ w, serialData w (reply r.cmdID argID) = ⟨w,[report],[]⟩ := by
  cases r with
  | initial => exact ⟨.initializeFailed,rfl,by simp,by rcases failed with rfl | rfl <;> exact fun _ => rfl⟩
  | erase => exact ⟨.eraseFailed,rfl,by simp,by rcases failed with rfl | rfl <;> exact fun _ => rfl⟩
  | program k data => exact ⟨.blockFailed,rfl,by simp,by rcases failed with rfl | rfl <;> exact fun _ => rfl⟩
  | verify k data => exact ⟨.blockFailed,rfl,by simp,by rcases failed with rfl | rfl <;> exact fun _ => rfl⟩
  | secure data => exact ⟨.securityFailed,rfl,by simp,by rcases failed with rfl | rfl <;> exact fun _ => rfl⟩
  | secureVerify data =>
    exact ⟨.securityIncorrect,rfl,by simp,by rcases failed with rfl | rfl <;> exact fun _ => rfl⟩
  | checksum => exact ⟨.checksumFailed,rfl,by simp,by rcases failed with rfl | rfl <;> exact fun _ => rfl⟩
  | reStart => exact absurd rfl other

end Window
end HsspProgrammer.Exchange
