import HsspProgrammer.CommandLoop
import HsspProgrammer.Transition

/-! The firmware on its own: from power-up it is fed with bytes, one at a time, and
does with each what the command loop does up to the next `chnRead`. The log says what
it has read, performed and answered. -/
namespace HsspProgrammer.MainLoop
open Ascii (Bytes)
open CommandLoop

inductive Entry where
  | command (cmdID cmdTrm : UInt8)
  | block (data : Bytes)
  | performed (op : Op)
  | replied (answer : Bytes)
  deriving DecidableEq, Repr

structure Board (τ : Type) where
  firmware : Firmware τ
  log : List Entry

variable {τ : Type}

/- `checksum` is whatever the stack holds when `main` starts. -/
def powerUp (checksum : UInt16) (target : τ) : Board τ :=
  ⟨⟨.cmdID,List.replicate TARGET_DATABUFF_LEN 0,checksum,target⟩,[]⟩

/- What a completed read has read. -/
def readEntries (fw : Firmware τ) : List Entry :=
  match fw.pc with
  | .command cmdID cmdTrm => [.command cmdID cmdTrm]
  | .ready _ => [.block fw.targetDataOUT]
  | _ => []

def doneEntries (outcome : Outcome τ) : List Entry :=
  outcome.ops.map .performed ++ if outcome.reply = [] then [] else [.replied outcome.reply]

theorem doneAnswered {outcome : Outcome τ} {cmdID argID : UInt8} (answer : outcome.reply = reply cmdID argID) :
    doneEntries outcome = outcome.ops.map .performed ++ [.replied (reply cmdID argID)] := by
  rw [doneEntries,answer,if_neg (by simp [reply])]

/- The operations in a log. -/
def opsOf (log : List Entry) : List Op := log.filterMap (fun entry => match entry with
  | .performed op => some op
  | _ => none)

theorem opsAppend (front back : List Entry) : opsOf (front ++ back) = opsOf front ++ opsOf back := List.filterMap_append

theorem opsPerformed (ops : List Op) : opsOf (ops.map .performed) = ops := by
  rw [opsOf,List.filterMap_map]
  exact List.filterMap_some

theorem opsDone (outcome : Outcome τ) : opsOf (doneEntries outcome) = outcome.ops := by
  rw [doneEntries,opsAppend,opsPerformed]
  split <;> exact List.append_nil _

theorem opsRead (fw : Firmware τ) : opsOf (readEntries fw) = [] := by
  unfold readEntries
  split <;> rfl

/- The firmware runs on after each byte, unless it needs more of them. -/
def settle (T : Target τ) (b : Board τ) : Board τ :=
  match execute T b.firmware with
  | none => b
  | some outcome => ⟨outcome.firmware,b.log ++ doneEntries outcome⟩

theorem settleNone {T : Target τ} {b : Board τ} (reads : execute T b.firmware = none) : settle T b = b := by
  rw [settle,reads]

theorem settleSome {T : Target τ} {b : Board τ} {outcome : Outcome τ} (ran : execute T b.firmware = some outcome) :
    settle T b = ⟨outcome.firmware,b.log ++ doneEntries outcome⟩ := by
  rw [settle,ran]

/- A pair and a block that are there are never left alone. -/
theorem executeSome (T : Target τ) (fw : Firmware τ)
    (there : (∃ cmdID cmdTrm, fw.pc = .command cmdID cmdTrm) ∨ ∃ use, fw.pc = .ready use) :
    ∃ outcome, execute T fw = some outcome := by
  rcases there with ⟨cmdID,cmdTrm,pc⟩ | ⟨use,pc⟩
  · simp only [execute,pc]
    split
    · exact ⟨_,rfl⟩
    · exact ⟨_,rfl⟩
  · simp only [execute,pc]
    exact ⟨_,rfl⟩

def feedByte (T : Target τ) (b : Board τ) (byte : UInt8) : Option (Board τ) :=
  (consume b.firmware byte).map (fun fw => settle T ⟨fw,b.log ++ readEntries fw⟩)

def feed (T : Target τ) : Board τ → Bytes → Option (Board τ) := Transition.runAll (feedByte T)

/- Where the firmware is between two bytes. -/
def Waiting (fw : Firmware τ) : Prop :=
  match fw.pc with
  | .cmdID | .cmdTrm _ | .halted => True
  | .data _ got => got.length < TARGET_DATABUFF_LEN
  | _ => False

def plainCommands : Bytes := [Ascii.a,Ascii.b,Ascii.g,Ascii.x]

def blockCommands : Bytes := [Ascii.d,Ascii.e,Ascii.f]

/- What one command does: it asks for a block, is answered at once, or is passed over. -/
inductive Effect (fw : Firmware τ) (cmdID : UInt8) (outcome : Outcome τ) : Prop where
  | program (is : cmdID = Ascii.c)
      (opens : outcome = ⟨{fw with pc := .data (.program 0) [], checksum := 0x0000},[],[]⟩)
  | block (use : Use) (known : cmdID ∈ blockCommands) (other : ∀ k, use ≠ .program k)
      (opens : outcome = ⟨{fw with pc := .data use []},[],[]⟩)
  | answer (argID : UInt8) (ops : List Op) (target : τ) (known : cmdID ∈ plainCommands)
      (done : outcome = ⟨{fw with pc := .cmdID, target := target},reply cmdID argID,ops⟩) (busy : ops ≠ [])
      (checked : cmdID = Ascii.g → argID = Ascii.zero → ops = [.targetBankChecksumGet (some fw.checksum)])
  | silent (pc : Pc) (ended : pc = .cmdID ∨ pc = .halted) (other : cmdID ∉ Ascii.c :: plainCommands)
      (done : outcome = ⟨{fw with pc := pc},[],[]⟩)

theorem onCommandEffect (T : Target τ) (fw : Firmware τ) (cmdID : UInt8) : Effect fw cmdID (onCommand T fw cmdID) := by
  unfold onCommand
  by_cases a : cmdID = Ascii.a
  · subst a
    rw [if_pos rfl]
    dsimp only
    split <;> exact .answer _ _ _ (by decide) rfl (by simp) (fun is => absurd is (by decide))
  rw [if_neg a]
  by_cases b : cmdID = Ascii.b
  · subst b
    rw [if_pos rfl]
    exact .answer _ _ _ (by decide) rfl (by simp) (fun is => absurd is (by decide))
  rw [if_neg b]
  by_cases c : cmdID = Ascii.c
  · rw [if_pos c]
    exact .program c rfl
  rw [if_neg c]
  by_cases d : cmdID = Ascii.d
  · subst d
    rw [if_pos rfl]
    exact .block _ (by decide) (by simp) rfl
  rw [if_neg d]
  by_cases e : cmdID = Ascii.e
  · subst e
    rw [if_pos rfl]
    exact .block _ (by decide) (by simp) rfl
  rw [if_neg e]
  by_cases f : cmdID = Ascii.f
  · subst f
    rw [if_pos rfl]
    exact .block _ (by decide) (by simp) rfl
  rw [if_neg f]
  by_cases g : cmdID = Ascii.g
  · subst g
    rw [if_pos rfl]
    refine .answer _ _ _ (by decide) rfl (by simp) (fun _ good => ?_)
    cases read : (T.targetBankChecksumGet fw.target).1 with
    | none => rw [read] at good; exact absurd (show Ascii.one = Ascii.zero from good) (by decide)
    | some targetChecksum =>
      rw [read] at good
      dsimp only at good
      split at good
      · exact absurd good (by decide)
      · rename_i same
        rw [Decidable.not_not.mp same]
  rw [if_neg g]
  by_cases x : cmdID = Ascii.x
  · subst x
    rw [if_pos rfl]
    exact .answer _ _ _ (by decide) rfl (by simp) (fun is => absurd is (by decide))
  rw [if_neg x]
  have other : cmdID ∉ Ascii.c :: plainCommands := by simp [plainCommands] at *; exact ⟨c,a,b,g,x⟩
  split
  · exact .silent _ (.inr rfl) other rfl
  · exact .silent _ (.inl rfl) other rfl

/- A pair that is no command is passed over. -/
theorem executePair {T : Target τ} {fw : Firmware τ} {outcome : Outcome τ} {cmdID cmdTrm : UInt8}
    (pc : fw.pc = .command cmdID cmdTrm) (ran : execute T fw = some outcome) :
    (cmdTrm = Ascii.newline ∧ Effect fw cmdID outcome) ∨
    (¬ (Ascii.a ≤ cmdID ∧ cmdID ≤ Ascii.z ∧ cmdTrm = Ascii.newline) ∧
      outcome = ⟨{fw with pc := .cmdID},[],[]⟩) := by
  simp only [execute,pc] at ran
  split at ran
  · rename_i known
    cases Option.some.inj ran
    exact .inl ⟨known.2.2,onCommandEffect T fw cmdID⟩
  · rename_i unknown
    exact .inr ⟨unknown,(Option.some.inj ran).symm⟩

section Runs
/- Whole reads. A guard has only to allow the bytes of the read. -/
variable {guard : Board τ → UInt8 → Prop}

theorem dataRun (T : Target τ) {use : Use} (free : ∀ b byte got, b.firmware.pc = .data use got → guard b byte)
    {b : Board τ} {got rest : Bytes} (pc : b.firmware.pc = .data use got) (some : rest ≠ [])
    (size : got.length + rest.length = TARGET_DATABUFF_LEN) :
    Transition.Run (feedByte T) guard b rest
      (settle T ⟨{b.firmware with pc := .ready use, targetDataOUT := got ++ rest},b.log ++ [.block (got ++ rest)]⟩) := by
  induction rest generalizing b got with
  | nil => exact absurd rfl some
  | cons byte rest ih =>
    cases rest with
    | nil =>
      have full : got.length + 1 = TARGET_DATABUFF_LEN := size
      refine Transition.runSingle (free b byte got pc) ?_
      simp only [feedByte,CommandLoop.consume,pc,if_pos full]
      rfl
    | cons next rest =>
      have few : ¬ got.length + 1 = TARGET_DATABUFF_LEN := by
        simp only [List.length_cons] at size
        omega
      have now : feedByte T b byte = Option.some ⟨{b.firmware with pc := .data use (got ++ [byte])},b.log⟩ := by
        simp only [feedByte,CommandLoop.consume,pc,if_neg few,Option.map_some]
        rw [settleNone rfl]
        simp [readEntries]
      have later := ih (b := ⟨{b.firmware with pc := .data use (got ++ [byte])},b.log⟩) rfl (by simp) (by
        simp only [List.length_append,List.length_cons,List.length_nil] at size ⊢
        omega)
      simp only [List.append_assoc,List.singleton_append] at later
      exact .cons (free b byte got pc) now later

theorem pairRun (T : Target τ) (b : Board τ) (cmdID cmdTrm : UInt8) (pc : b.firmware.pc = .cmdID)
    (first : guard b cmdID) (second : guard ⟨{b.firmware with pc := .cmdTrm cmdID},b.log⟩ cmdTrm) :
    Transition.Run (feedByte T) guard b [cmdID,cmdTrm]
      (settle T ⟨{b.firmware with pc := .command cmdID cmdTrm},b.log ++ [.command cmdID cmdTrm]⟩) := by
  have read : feedByte T b cmdID = some ⟨{b.firmware with pc := .cmdTrm cmdID},b.log⟩ := by
    simp only [feedByte,CommandLoop.consume,pc,Option.map_some]
    rw [settleNone rfl]
    simp [readEntries]
  exact .cons first read (Transition.runSingle second rfl)

/- What a pass leaves in the log when every block is programmed. -/
def passEntries : Nat → List Bytes → List Entry
  | _,[] => []
  | k,data :: rest =>
    [.block data,.performed (.targetLoad data),.performed (.targetBlockProgram k data false),
      .replied (reply Ascii.c (blockArg k false))] ++ passEntries (k + 1) rest

theorem programOutcome {T : Target τ} (fw : Firmware τ) {k : Nat}
    (good : (T.targetBlockProgram (UInt8.ofNat k) (T.targetLoad fw.targetDataOUT fw.target).2).1 = false) :
    (onReady T fw (.program k)).firmware.pc =
      (if k + 1 < BLOCKS_PER_BANK then .data (.program (k + 1)) [] else .cmdID) ∧
    (onReady T fw (.program k)).firmware.checksum = fw.checksum + sum fw.targetDataOUT ∧
    (onReady T fw (.program k)).firmware.target =
      (T.targetBlockProgram (UInt8.ofNat k) (T.targetLoad fw.targetDataOUT fw.target).2).2 ∧
    .block fw.targetDataOUT :: doneEntries (onReady T fw (.program k)) = passEntries k [fw.targetDataOUT] := by
  simp [onReady,nextBlock,doneEntries,passEntries,good,T.loadSum,reply]

/-- A pass over blocks that are all programmed; `inv` is what the target keeps of them. -/
theorem programRun {T : Target τ} (free : ∀ b byte use got, b.firmware.pc = .data use got → guard b byte)
    (inv : List Bytes → τ → Prop)
    (keeps : ∀ done data t, inv done t → data.length = TARGET_DATABUFF_LEN → done.length < BLOCKS_PER_BANK →
      (T.targetBlockProgram (UInt8.ofNat done.length) (T.targetLoad data t).2).1 = false ∧
      inv (done ++ [data]) (T.targetBlockProgram (UInt8.ofNat done.length) (T.targetLoad data t).2).2)
    {b : Board τ} (done : List Bytes) {blocks : List Bytes} (pc : b.firmware.pc = .data (.program done.length) [])
    (holds : inv done b.firmware.target) (some : blocks ≠ []) (many : done.length + blocks.length = BLOCKS_PER_BANK)
    (whole : ∀ data ∈ blocks, data.length = TARGET_DATABUFF_LEN) : ∃ b',
    Transition.Run (feedByte T) guard b blocks.flatten b' ∧ b'.firmware.pc = .cmdID ∧
    inv (done ++ blocks) b'.firmware.target ∧ b'.firmware.checksum = b.firmware.checksum + sum blocks.flatten ∧
    b'.log = b.log ++ passEntries done.length blocks := by
  induction blocks generalizing b done with
  | nil => exact absurd rfl some
  | cons data rest ih =>
    have size : data.length = TARGET_DATABUFF_LEN := whole data List.mem_cons_self
    have bytes : data ≠ [] := by
      intro empty
      rw [empty] at size
      contradiction
    have early : done.length < BLOCKS_PER_BANK := by
      rw [List.length_cons] at many
      omega
    have read := dataRun T (fun b byte got => free b byte _ got) pc bytes (by simpa using size)
    obtain ⟨good,next⟩ := keeps done data _ holds size early
    have ready : execute T {b.firmware with pc := .ready (.program done.length), targetDataOUT := data} =
        Option.some (onReady T {b.firmware with pc := .ready (.program done.length), targetDataOUT := data}
          (.program done.length)) := rfl
    rw [List.nil_append,settleSome ready] at read
    obtain ⟨later,sums,target,entries⟩ := programOutcome
      {b.firmware with pc := .ready (.program done.length), targetDataOUT := data} good
    generalize onReady T {b.firmware with pc := .ready (.program done.length), targetDataOUT := data}
      (.program done.length) = outcome at *
    have log : b.log ++ [.block data] ++ doneEntries outcome = b.log ++ passEntries done.length [data] := by
      rw [← entries,List.append_assoc]
      rfl
    rw [← target] at next
    cases rest with
    | nil =>
      have last : ¬ done.length + 1 < BLOCKS_PER_BANK := by
        rw [List.length_cons,List.length_nil] at many
        omega
      rw [if_neg last] at later
      rw [List.flatten_cons,List.flatten_nil,List.append_nil]
      exact ⟨_,read,later,next,sums,log⟩
    | cons data' rest =>
      have more : done.length + 1 < BLOCKS_PER_BANK := by
        simp only [List.length_cons] at many
        omega
      have place : (done ++ [data]).length = done.length + 1 := by simp
      rw [if_pos more,← place] at later
      obtain ⟨b',run,ended,target',sums',log'⟩ := ih
        (b := ⟨outcome.firmware,b.log ++ [.block data] ++ doneEntries outcome⟩)
        (done ++ [data]) later next (by simp) (by rw [place]; simp only [List.length_cons] at many ⊢; omega)
        (fun other inside => whole other (List.mem_cons_of_mem _ inside))
      refine ⟨b',Transition.runAppend read run,ended,by simpa using target',?_,?_⟩
      · rw [sums',sums,List.flatten_cons (l := data),sumAppend,UInt16.add_assoc]
      · rw [log',log,place,List.append_assoc]
        rfl

end Runs

theorem feedAppend (T : Target τ) (b : Board τ) (front back : Bytes) :
    feed T b (front ++ back) = (feed T b front).bind (fun b => feed T b back) := by
  induction front generalizing b with
  | nil => rfl
  | cons byte rest ih =>
    simp only [feed,List.cons_append,Transition.runAll] at *
    cases feedByte T b byte with
    | none => rfl
    | some b => exact ih b

/- Bytes fed without a guard. -/
def Any (_ : Board τ) (_ : UInt8) : Prop := True

theorem anyData (b : Board τ) (byte : UInt8) (use : Use) (got : Bytes) (_ : b.firmware.pc = .data use got) : Any b byte :=
  trivial

theorem feedPair (T : Target τ) {b : Board τ} (top : b.firmware.pc = .cmdID) (cmdID cmdTrm : UInt8) (rest : Bytes) :
    feed T b (cmdID :: cmdTrm :: rest) =
      feed T (settle T ⟨{b.firmware with pc := .command cmdID cmdTrm},b.log ++ [.command cmdID cmdTrm]⟩) rest := by
  have unguarded : ∀ b byte, Any (τ := τ) b byte := fun _ _ => trivial
  have pair := pairRun T b cmdID cmdTrm top (unguarded _ _) (unguarded _ _)
  have split := feedAppend T b [cmdID,cmdTrm] rest
  rw [show feed T b [cmdID,cmdTrm] = _ from Transition.runFollows pair] at split
  exact split

/- What every operation keeps of the target; a block is loaded and programmed in one. -/
structure Keeps (T : Target τ) (inv : τ → Prop) : Prop where
  targetInitialize : ∀ t, inv t → inv (T.targetInitialize t).2
  targetSiliconIDVerify : ∀ t, inv t → inv (T.targetSiliconIDVerify t).2
  targetErase : ∀ t, inv t → inv (T.targetErase t).2
  targetBlockProgram : ∀ k data t, inv t → inv (T.targetBlockProgram k (T.targetLoad data t).2).2
  targetBlockVerify : ∀ k data t, inv t → inv (T.targetBlockVerify k data t).2
  targetSecurityFlash : ∀ data t, inv t → inv (T.targetSecurityFlash data t).2
  targetSecurityVerify : ∀ data t, inv t → inv (T.targetSecurityVerify data t).2
  targetBankChecksumGet : ∀ t, inv t → inv (T.targetBankChecksumGet t).2
  targetReStart : ∀ t, inv t → inv (T.targetReStart t)

section Keeping
variable {T : Target τ} {inv : τ → Prop}

theorem keepsIf {p : Prop} [Decidable p] {yes no : Outcome τ} (holds : inv yes.firmware.target)
    (fails : inv no.firmware.target) : inv (if p then yes else no).firmware.target := by
  split
  · exact holds
  · exact fails

theorem commandKeeps (keeps : Keeps T inv) {fw : Firmware τ} (holds : inv fw.target) (cmdID : UInt8) :
    inv (onCommand T fw cmdID).firmware.target := by
  have started := keeps.targetInitialize _ holds
  unfold onCommand
  refine keepsIf (keepsIf started (keeps.targetSiliconIDVerify _ started)) ?_
  refine keepsIf (keeps.targetErase _ holds) ?_
  -- the commands that are followed by a block
  refine keepsIf holds (keepsIf holds (keepsIf holds (keepsIf holds ?_)))
  refine keepsIf (keeps.targetBankChecksumGet _ holds) ?_
  exact keepsIf (keeps.targetReStart _ holds) (keepsIf holds holds)

theorem executeKeeps (keeps : Keeps T inv) {fw : Firmware τ} {outcome : Outcome τ} (holds : inv fw.target)
    (ran : execute T fw = some outcome) : inv outcome.firmware.target := by
  unfold execute at ran
  split at ran
  · split at ran <;> cases Option.some.inj ran
    · exact commandKeeps keeps holds _
    · exact holds
  · rename_i use _
    cases Option.some.inj ran
    cases use with
    | program k => exact keeps.targetBlockProgram _ _ _ holds
    | verify k => exact keeps.targetBlockVerify _ _ _ holds
    | securityFlash => exact keeps.targetSecurityFlash _ _ holds
    | securityVerify => exact keeps.targetSecurityVerify _ _ holds
  · contradiction

theorem consumeTarget {fw fw' : Firmware τ} {byte : UInt8} (read : consume fw byte = some fw') :
    fw'.target = fw.target := by
  unfold consume at read
  split at read <;> try contradiction
  · cases Option.some.inj read
    rfl
  · cases Option.some.inj read
    rfl
  · split at read <;> cases Option.some.inj read <;> rfl

/-- It holds between any two bytes of any stream. -/
theorem feedKeeps (keeps : Keeps T inv) {b b' : Board τ} {bytes : Bytes} (holds : inv b.firmware.target)
    (fed : feed T b bytes = some b') : inv b'.firmware.target := by
  induction bytes generalizing b with
  | nil => cases Option.some.inj fed; exact holds
  | cons byte rest ih =>
    obtain ⟨next,now,later⟩ := Option.bind_eq_some_iff.mp fed
    obtain ⟨fw,read,rfl⟩ := Option.map_eq_some_iff.mp now
    refine ih ?_ later
    rw [← consumeTarget read] at holds
    unfold settle
    split
    · exact holds
    · rename_i ran
      exact executeKeeps keeps holds ran

end Keeping
end HsspProgrammer.MainLoop
