import HsspProgrammer.MainLoop

/-! What the answer `g\n0\n` is worth. The running checksum of the firmware belongs to
the last programming pass only when that pass has come to its end. -/
namespace HsspProgrammer.ChecksumReply
open Ascii (Bytes)
open CommandLoop
open MainLoop

variable {τ : Type}

/- The last programming pass the firmware was told to make, with its blocks. -/
inductive Pass where
  | none
  | running (blocks : List Bytes)
  | completed (blocks : List Bytes)
  | failed
  deriving DecidableEq, Repr

def Pass.next (pass : Pass) : Entry → Pass
  | .command cmdID cmdTrm => if cmdID = Ascii.c ∧ cmdTrm = Ascii.newline then .running [] else pass
  | .block data =>
    match pass with
    | .running blocks => .running (blocks ++ [data])
    | _ => pass
  | .replied answer =>
    match pass with
    | .running blocks =>
      if answer = reply Ascii.c Ascii.zero then .completed blocks
      else if answer = reply Ascii.c Ascii.one then .failed
      else pass
    | _ => pass
  | .performed _ => pass

def lastPass (log : List Entry) : Pass := log.foldl Pass.next .none

structure Blocks (n : Nat) (blocks : List Bytes) : Prop where
  many : blocks.length = n
  whole : ∀ data ∈ blocks, data.length = TARGET_DATABUFF_LEN

/-- Every `g\n0\n` is about the last pass, that pass is complete, and the value read
from the target is the sum of its bytes. -/
def Checked (log : List Entry) : Prop :=
  ∀ front back, log = front ++ .replied (reply Ascii.g Ascii.zero) :: back →
    ∃ blocks value, lastPass front = .completed blocks ∧ Blocks BLOCKS_PER_BANK blocks ∧
      front.getLast? = some (.performed (.targetBankChecksumGet (some value))) ∧ value = sum blocks.flatten

/- 'g' is only sent when the last 'c' has run to its end. -/
def AfterPass (b : Board τ) (byte : UInt8) : Prop :=
  b.firmware.pc = .cmdTrm Ascii.g → byte = Ascii.newline → ∃ blocks, lastPass b.log = .completed blocks

/- When a pass is complete the running checksum is the sum of its blocks. -/
def Owned (checksum : UInt16) (pass : Pass) : Prop :=
  ∀ blocks, pass = .completed blocks → Blocks BLOCKS_PER_BANK blocks ∧ checksum = sum blocks.flatten

/- In a pass it is the sum of the blocks that have been programmed. -/
def Summed (fw : Firmware τ) (pass : Pass) : Prop :=
  match fw.pc with
  | .data (.program k) _ => k < BLOCKS_PER_BANK ∧
      ∃ blocks, pass = .running blocks ∧ Blocks k blocks ∧ fw.checksum = sum blocks.flatten
  | .ready (.program k) => k < BLOCKS_PER_BANK ∧ fw.targetDataOUT.length = TARGET_DATABUFF_LEN ∧
      ∃ blocks, pass = .running (blocks ++ [fw.targetDataOUT]) ∧ Blocks k blocks ∧ fw.checksum = sum blocks.flatten
  | _ => Owned fw.checksum pass

def programs : Pc → Bool
  | .data (.program _) _ | .ready (.program _) => true
  | _ => false

theorem summedOwned {fw : Firmware τ} (pass : Pass) (other : programs fw.pc = false) :
    Summed fw pass ↔ Owned fw.checksum pass := by
  unfold Summed
  split <;> simp_all [programs]

theorem lastPassNext (log : List Entry) (entry : Entry) :
    lastPass (log ++ [entry]) = (lastPass log).next entry := by
  rw [lastPass,List.foldl_append]
  rfl

theorem passAnswered (pass : Pass) {cmdID : UInt8} (argID : UInt8) (other : cmdID ≠ Ascii.c) :
    pass.next (.replied (reply cmdID argID)) = pass := by
  cases pass with
  | running blocks => simp [Pass.next,reply,other]
  | _ => rfl

theorem lastPassPerformed (log : List Entry) (ops : List Op) :
    lastPass (log ++ ops.map .performed) = lastPass log := by
  induction ops generalizing log with
  | nil => simp
  | cons op rest ih =>
    have split : log ++ (op :: rest).map .performed = log ++ [.performed op] ++ rest.map .performed := by simp
    rw [split,ih,lastPassNext]
    rfl

theorem checkedOther {log entries : List Entry} (checked : Checked log)
    (other : .replied (reply Ascii.g Ascii.zero) ∉ entries) : Checked (log ++ entries) :=
  Transition.occursOther checked other

theorem checkedReplied {log : List Entry} {answer : Bytes} (checked : Checked log)
    (now : answer = reply Ascii.g Ascii.zero → ∃ blocks value, lastPass log = .completed blocks ∧
      Blocks BLOCKS_PER_BANK blocks ∧ log.getLast? = some (.performed (.targetBankChecksumGet (some value))) ∧
      value = sum blocks.flatten) : Checked (log ++ [.replied answer]) := by
  refine Transition.occursAppend checked (fun front back split => ?_)
  cases front with
  | nil =>
    obtain ⟨same,_⟩ := List.cons.inj split
    simpa using now (Entry.replied.inj same)
  | cons entry front => simp at split

theorem answered {log : List Entry} (checked : Checked log) (outcome : Outcome τ) {cmdID argID : UInt8}
    (answer : outcome.reply = reply cmdID argID) (other : cmdID ≠ Ascii.g) :
    Checked (log ++ doneEntries outcome) ∧
    lastPass (log ++ doneEntries outcome) = (lastPass log).next (.replied (reply cmdID argID)) := by
  rw [doneAnswered answer,← List.append_assoc,lastPassNext,lastPassPerformed]
  refine ⟨checkedReplied (checkedOther checked (by simp)) (fun good => ?_),rfl⟩
  simp only [reply,List.cons.injEq] at good
  exact absurd good.1 other

theorem blocksNext {k : Nat} {blocks : List Bytes} {data : Bytes} (before : Blocks k blocks)
    (whole : data.length = TARGET_DATABUFF_LEN) : Blocks (k + 1) (blocks ++ [data]) := by
  refine ⟨by simp [before.many],fun other inside => ?_⟩
  cases List.mem_append.mp inside with
  | inl old => exact before.whole other old
  | inr new => rw [List.mem_singleton.mp new]; exact whole

/- Between two bytes: everything answered so far is right, and the sum is in step. -/
structure Tracked (b : Board τ) : Prop where
  waiting : Waiting b.firmware
  checked : Checked b.log
  summed : Summed b.firmware (lastPass b.log)

variable {T : Target τ}

theorem commandTracked {fw : Firmware τ} {log : List Entry} {cmdID cmdTrm : UInt8} {outcome : Outcome τ}
    (checked : Checked log) (pc : fw.pc = .command cmdID cmdTrm) (owned : Owned fw.checksum (lastPass log))
    (after : cmdID = Ascii.g → cmdTrm = Ascii.newline → ∃ blocks, lastPass log = .completed blocks)
    (ran : execute T fw = some outcome) :
    Tracked ⟨outcome.firmware,log ++ [.command cmdID cmdTrm] ++ doneEntries outcome⟩ := by
  have logged := lastPassNext log (.command cmdID cmdTrm)
  have quiet : Checked (log ++ [.command cmdID cmdTrm]) := checkedOther checked (by simp)
  rcases executePair pc ran with ⟨rfl,effect⟩ | ⟨unknown,rfl⟩
  · cases effect with
    | program is opens =>
      subst is opens
      refine ⟨show 0 < TARGET_DATABUFF_LEN by decide,?_,show 0 < BLOCKS_PER_BANK by decide,[],?_,⟨rfl,by simp⟩,rfl⟩
      · simpa [doneEntries] using quiet
      · simpa [doneEntries,Pass.next] using logged
    | block use known other opens =>
      subst opens
      have same : lastPass (log ++ [.command cmdID Ascii.newline]) = lastPass log := by
        rw [logged,Pass.next,if_neg]
        rintro ⟨rfl,_⟩
        exact absurd known (by decide)
      have aside : programs (.data use []) = false := by
        cases use with
        | program k => exact absurd rfl (other k)
        | _ => rfl
      refine ⟨show 0 < TARGET_DATABUFF_LEN by decide,?_,(summedOwned _ aside).mpr ?_⟩
      · simpa [doneEntries] using quiet
      · simpa [doneEntries,same] using owned
    | answer argID ops target known done busy checks =>
      subst done
      have other : cmdID ≠ Ascii.c := by
        rintro rfl
        exact absurd known (by decide)
      have same : lastPass (log ++ [.command cmdID Ascii.newline] ++ ops.map .performed) = lastPass log := by
        rw [lastPassPerformed,logged,Pass.next,if_neg (fun h => other h.1)]
      have split : log ++ [.command cmdID Ascii.newline] ++
          doneEntries ⟨{fw with pc := .cmdID, target := target},reply cmdID argID,ops⟩ =
          log ++ [.command cmdID Ascii.newline] ++ ops.map .performed ++ [.replied (reply cmdID argID)] := by
        simp [doneEntries,reply]
      rw [split]
      refine ⟨trivial,checkedReplied (checkedOther quiet (by simp)) (fun good => ?_),?_⟩
      · simp only [reply,List.cons.injEq,and_true,true_and] at good
        obtain ⟨rfl,rfl⟩ := good
        obtain ⟨blocks,completed⟩ := after rfl rfl
        obtain ⟨whole,running⟩ := owned blocks completed
        exact ⟨blocks,fw.checksum,same.trans completed,whole,by simp [checks rfl rfl],running⟩
      · show Owned _ _
        rw [lastPassNext,passAnswered _ _ other,same]
        exact owned
    | silent pc' ended other done =>
      subst done
      have same : lastPass (log ++ [.command cmdID Ascii.newline]) = lastPass log := by
        rw [logged,Pass.next,if_neg]
        rintro ⟨rfl,_⟩
        exact other (by simp)
      have aside : programs pc' = false := by rcases ended with rfl | rfl <;> rfl
      refine ⟨?_,by simpa [doneEntries] using quiet,(summedOwned _ aside).mpr (by simpa [doneEntries,same] using owned)⟩
      rcases ended with rfl | rfl <;> trivial
  · have same : lastPass (log ++ [.command cmdID cmdTrm]) = lastPass log := by
      rw [logged,Pass.next,if_neg]
      rintro ⟨rfl,rfl⟩
      exact unknown (by decide)
    exact ⟨trivial,by simpa [doneEntries] using quiet,by simpa [doneEntries,same,Summed] using owned⟩

/- A block of a pass is added to the sum before it is known to be programmed; if it is
not, the pass has failed. -/
theorem programTracked {fw : Firmware τ} {log : List Entry} {k : Nat} (checked : Checked log)
    (pc : fw.pc = .ready (.program k)) (summed : Summed fw (lastPass log)) :
    Tracked ⟨(onReady T fw (.program k)).firmware,log ++ doneEntries (onReady T fw (.program k))⟩ := by
  simp only [Summed,pc] at summed
  obtain ⟨small,whole,blocks,running,before,sums⟩ := summed
  have next := blocksNext before whole
  have sums : fw.checksum + (T.targetLoad fw.targetDataOUT fw.target).1 = sum (blocks ++ [fw.targetDataOUT]).flatten := by
    rw [T.loadSum,List.flatten_append,sumAppend,← sums]
    simp
  generalize ended : onReady T fw (.program k) = outcome
  have answer : outcome.reply = reply Ascii.c (blockArg k (T.targetBlockProgram (UInt8.ofNat k)
    (T.targetLoad fw.targetDataOUT fw.target).2).1) := by rw [← ended]; rfl
  have later : outcome.firmware.pc = nextBlock .program k (T.targetBlockProgram (UInt8.ofNat k)
    (T.targetLoad fw.targetDataOUT fw.target).2).1 := by rw [← ended]; rfl
  have running_sum : outcome.firmware.checksum = fw.checksum + (T.targetLoad fw.targetDataOUT fw.target).1 := by
    rw [← ended]
    rfl
  generalize (T.targetBlockProgram (UInt8.ofNat k) (T.targetLoad fw.targetDataOUT fw.target).2).1 = failed at answer later
  obtain ⟨good,pass⟩ := answered checked outcome answer (by decide)
  rw [running] at pass
  simp only [BLOCKS_PER_BANK] at small
  cases failed with
  | true =>
    have idle : outcome.firmware.pc = .cmdID := later
    have fails : lastPass (log ++ doneEntries outcome) = .failed := pass
    refine ⟨by simp [Waiting,idle],good,(summedOwned _ (by rw [idle]; rfl)).mpr (fun blocks' completed => ?_)⟩
    rw [fails] at completed
    contradiction
  | false =>
    by_cases more : k + 1 < 128
    · have again : outcome.firmware.pc = .data (.program (k + 1)) [] := by
        rw [later]
        simp [nextBlock,BLOCKS_PER_BANK,more]
      have runs : lastPass (log ++ doneEntries outcome) = .running (blocks ++ [fw.targetDataOUT]) := by
        have plus : k < 127 := by omega
        rw [pass]
        simp [blockArg,BLOCKS_PER_BANK,plus,Pass.next,reply]
      refine ⟨by simp [Waiting,again,TARGET_DATABUFF_LEN],good,?_⟩
      simp only [Summed,again]
      exact ⟨more,_,runs,next,by rw [running_sum,sums]⟩
    · have last : k = 127 := by omega
      subst last
      have idle : outcome.firmware.pc = .cmdID := by
        rw [later]
        rfl
      have completes : lastPass (log ++ doneEntries outcome) = .completed (blocks ++ [fw.targetDataOUT]) := pass
      refine ⟨by simp [Waiting,idle],good,(summedOwned _ (by rw [idle]; rfl)).mpr (fun blocks' completed => ?_)⟩
      cases Pass.completed.inj (completes.symm.trans completed)
      exact ⟨next,by rw [running_sum,sums]⟩

theorem readyTracked {fw : Firmware τ} {log : List Entry} {use : Use} {outcome : Outcome τ}
    (checked : Checked log) (pc : fw.pc = .ready use) (summed : Summed fw (lastPass log))
    (ran : execute T fw = some outcome) : Tracked ⟨outcome.firmware,log ++ doneEntries outcome⟩ := by
  simp only [execute,pc,Option.some.injEq] at ran
  subst ran
  cases use with
  | program k => exact programTracked checked pc summed
  | verify k =>
    obtain ⟨good,pass⟩ := answered checked (onReady T fw (.verify k)) rfl (by decide)
    rw [passAnswered _ _ (by decide)] at pass
    simp only [Summed,pc] at summed
    have aside : programs (onReady T fw (.verify k)).firmware.pc = false ∧ Waiting (onReady T fw (.verify k)).firmware := by
      have later : (onReady T fw (.verify k)).firmware.pc =
          nextBlock .verify k (T.targetBlockVerify (UInt8.ofNat k) fw.targetDataOUT fw.target).1 := rfl
      rw [Waiting,later,nextBlock]
      split
      · exact ⟨rfl,trivial⟩
      · split
        · exact ⟨rfl,show 0 < TARGET_DATABUFF_LEN by decide⟩
        · exact ⟨rfl,trivial⟩
    exact ⟨aside.2,good,(summedOwned _ aside.1).mpr (by rw [pass]; exact summed)⟩
  | securityFlash =>
    obtain ⟨good,pass⟩ := answered checked (onReady T fw .securityFlash) rfl (by decide)
    rw [passAnswered _ _ (by decide)] at pass
    simp only [Summed,pc] at summed
    exact ⟨trivial,good,by rw [pass]; exact summed⟩
  | securityVerify =>
    obtain ⟨good,pass⟩ := answered checked (onReady T fw .securityVerify) rfl (by decide)
    rw [passAnswered _ _ (by decide)] at pass
    simp only [Summed,pc] at summed
    exact ⟨trivial,good,by rw [pass]; exact summed⟩

/- Blocks that are read outside a pass do not belong to one. -/
theorem ownedBlock {log : List Entry} {data : Bytes} {checksum : UInt16}
    (logged : lastPass (log ++ [.block data]) = (lastPass log).next (.block data))
    (owned : Owned checksum (lastPass log)) : Owned checksum (lastPass (log ++ [.block data])) := by
  intro blocks completed
  rw [logged] at completed
  cases pass : lastPass log with
  | completed before =>
    rw [pass] at completed
    cases Pass.completed.inj completed
    exact owned blocks pass
  | _ =>
    rw [pass] at completed
    contradiction

theorem feedTracked {b b' : Board τ} {byte : UInt8} (tracked : Tracked b) (after : AfterPass b byte)
    (fed : feedByte T b byte = some b') : Tracked b' := by
  obtain ⟨waiting,checked,summed⟩ := tracked
  obtain ⟨fw,read,rfl⟩ := Option.map_eq_some_iff.mp fed
  cases pc : b.firmware.pc with
  | cmdID =>
    simp only [CommandLoop.consume,pc,Option.some.injEq] at read
    subst read
    simp only [Summed,pc] at summed
    refine ⟨trivial,?_,?_⟩ 
    · simpa [settle,execute,readEntries] using checked
    · simpa [settle,execute,readEntries,Summed] using summed
  | cmdTrm cmdID =>
    simp only [CommandLoop.consume,pc,Option.some.injEq] at read
    subst read
    simp only [Summed,pc] at summed
    obtain ⟨outcome,ran⟩ := executeSome T {b.firmware with pc := .command cmdID byte} (.inl ⟨cmdID,byte,rfl⟩)
    rw [settleSome ran]
    refine commandTracked checked ?_ ?_ ?_ ran
    · rfl
    · exact summed
    · exact fun is newline => after (by rw [pc,is]) newline
  | command cmdID cmdTrm => simp [CommandLoop.consume,pc] at read
  | data use got =>
    simp only [CommandLoop.consume,pc] at read
    split at read
    · rename_i full
      cases Option.some.inj read
      obtain ⟨outcome,ran⟩ := executeSome T {b.firmware with pc := .ready use, targetDataOUT := got ++ [byte]} (.inr ⟨use,rfl⟩)
      rw [settleSome ran]
      refine readyTracked (checkedOther checked (by simp [readEntries])) rfl ?_ ran
      have logged := lastPassNext b.log (.block (got ++ [byte]))
      have whole : (got ++ [byte]).length = TARGET_DATABUFF_LEN := by
        rw [List.length_append]
        exact full
      cases use with
      | program k =>
        simp only [Summed,pc] at summed
        obtain ⟨small,blocks,running,before,sums⟩ := summed
        rw [running] at logged
        exact ⟨small,whole,blocks,logged,before,sums⟩
      | verify k =>
        have owned : Owned b.firmware.checksum (lastPass b.log) := (summedOwned _ (by rw [pc]; rfl)).mp summed
        exact ownedBlock logged owned
      | securityFlash =>
        have owned : Owned b.firmware.checksum (lastPass b.log) := (summedOwned _ (by rw [pc]; rfl)).mp summed
        exact ownedBlock logged owned
      | securityVerify =>
        have owned : Owned b.firmware.checksum (lastPass b.log) := (summedOwned _ (by rw [pc]; rfl)).mp summed
        exact ownedBlock logged owned
    · rename_i few
      cases Option.some.inj read
      have grown : (got ++ [byte]).length < TARGET_DATABUFF_LEN := by
        simp only [Waiting,pc] at waiting
        rw [List.length_append,List.length_singleton]
        omega
      rw [settleNone rfl]
      refine ⟨grown,by simpa [readEntries] using checked,?_⟩
      cases use with
      | program k => simpa [readEntries,Summed,pc] using summed
      | verify k => simpa [readEntries,Summed,pc] using summed
      | securityFlash => simpa [readEntries,Summed,pc] using summed
      | securityVerify => simpa [readEntries,Summed,pc] using summed
  | ready use => simp [CommandLoop.consume,pc] at read
  | halted => simp [CommandLoop.consume,pc] at read

/-- Whatever the firmware is fed with, as long as 'g' is kept for a complete pass. -/
theorem afterPassChecked {checksum : UInt16} {target : τ} {bytes : Bytes} {b : Board τ}
    (run : Transition.Run (feedByte T) AfterPass (powerUp checksum target) bytes b) : Checked b.log := by
  have start : Tracked (powerUp checksum target) :=
    ⟨trivial,fun front back split => absurd split (by simp [powerUp]),
      fun blocks completed => absurd completed (by simp [powerUp,lastPass])⟩
  exact (Transition.runInvariant Tracked (fun _ _ _ tracked after fed => feedTracked tracked after fed) run start).checked

theorem passCompleted {log : List Entry} {before blocks : List Bytes} {k : Nat}
    (running : lastPass log = .running before) (some : blocks ≠ []) (many : k + blocks.length = BLOCKS_PER_BANK) :
    lastPass (log ++ passEntries k blocks) = .completed (before ++ blocks) := by
  induction blocks generalizing log before k with
  | nil => exact absurd rfl some
  | cons data rest ih =>
    have first : lastPass (log ++ passEntries k [data]) =
        (Pass.running (before ++ [data])).next (.replied (reply Ascii.c (blockArg k false))) := by
      rw [lastPass,List.foldl_append,← lastPass,running]
      rfl
    simp only [BLOCKS_PER_BANK,List.length_cons] at many
    cases rest with
    | nil =>
      have last : k = 127 := by simpa using many
      rw [first,last]
      rfl
    | cons data' rest =>
      have more : k < 127 := by simp only [List.length_cons] at many; omega
      have again : lastPass (log ++ passEntries k [data]) = .running (before ++ [data]) := by
        rw [first]
        simp [blockArg,BLOCKS_PER_BANK,more,Pass.next,reply]
      have rest := ih (k := k + 1) again (by simp) (by simp only [BLOCKS_PER_BANK,List.length_cons] at many ⊢; omega)
      rw [List.append_assoc] at rest
      exact rest.trans (by simp)

def blank : List Bytes := List.replicate BLOCKS_PER_BANK (List.replicate TARGET_DATABUFF_LEN 0)

/- A blank pass and 'g' after it. -/
theorem afterPassCheckedBlank : ∃ bytes b,
    Transition.Run (feedByte (obliging (sum blank.flatten))) AfterPass (powerUp 7 ()) bytes b ∧
    .replied (reply Ascii.g Ascii.zero) ∈ b.log ∧ Checked b.log := by
  have quiet : ∀ (b : Board Unit) byte, b.firmware.pc ≠ .cmdTrm Ascii.g → AfterPass b byte :=
    fun b byte other is => absurd is other
  have free : ∀ (b : Board Unit) byte use got, b.firmware.pc = .data use got → AfterPass b byte :=
    fun b byte use got pc => quiet b byte (by rw [pc]; simp)
  have opens := pairRun (obliging (sum blank.flatten)) (powerUp 7 ()) Ascii.c Ascii.newline rfl
    (quiet _ _ (by decide)) (quiet _ _ (by simp))
  have whole : ∀ data ∈ blank, data.length = TARGET_DATABUFF_LEN := by
    intro data inside
    rw [(List.mem_replicate.mp inside).2]
    rfl
  have begun : (settle (obliging (sum blank.flatten)) ⟨{(powerUp 7 ()).firmware with pc := .command Ascii.c Ascii.newline},
      (powerUp 7 ()).log ++ [.command Ascii.c Ascii.newline]⟩).firmware.pc = .data (.program ([] : List Bytes).length) [] := rfl
  obtain ⟨b,run,pc,_,sums,log⟩ := programRun (T := obliging (sum blank.flatten)) free (fun _ _ => True)
    (fun done data t _ _ _ => ⟨rfl,trivial⟩) [] begun
    trivial (by simp [blank,BLOCKS_PER_BANK]) (by simp [blank]) whole
  have completed : lastPass b.log = .completed ([] ++ blank) := by
    rw [log]
    exact passCompleted rfl (by simp [blank,BLOCKS_PER_BANK]) (by simp [blank])
  have checks := pairRun (obliging (sum blank.flatten)) b Ascii.g Ascii.newline pc (quiet _ _ (by rw [pc]; simp))
    (fun _ _ => ⟨_,completed⟩)
  have whole := Transition.runAppend opens (Transition.runAppend run checks)
  refine ⟨_,_,whole,?_,afterPassChecked whole⟩
  have same : b.firmware.checksum = sum blank.flatten := sums.trans (UInt16.zero_add _)
  have ran : execute (obliging (sum blank.flatten)) {b.firmware with pc := .command Ascii.g Ascii.newline} =
      some (onCommand (obliging (sum blank.flatten)) {b.firmware with pc := .command Ascii.g Ascii.newline} Ascii.g) := rfl
  rw [settleSome ran]
  simp [onCommand,obliging,same,doneEntries,reply]

/-- At power-up any value may be in the running checksum, and 'g' compares it. -/
theorem powerUpUnchecked (checksum : UInt16) : ∃ b,
    feed (obliging checksum) (powerUp checksum ()) [Ascii.g,Ascii.newline] = some b ∧ ¬ Checked b.log := by
  have log : ∃ b, feed (obliging checksum) (powerUp checksum ()) [Ascii.g,Ascii.newline] = some b ∧
      b.log = [.command Ascii.g Ascii.newline,.performed (.targetBankChecksumGet (some checksum))] ++
        .replied (reply Ascii.g Ascii.zero) :: [] := by
    refine ⟨_,rfl,?_⟩
    simp [settle,execute,onCommand,obliging,doneEntries,readEntries,powerUp,reply]
  obtain ⟨b,fed,log⟩ := log
  refine ⟨b,fed,fun checked => ?_⟩
  obtain ⟨blocks,_,completed,_⟩ := checked _ _ log
  contradiction

theorem unsetChecksum : ∃ b, feed (obliging 0x1234) (powerUp 0x1234 ()) [Ascii.g,Ascii.newline] = some b ∧ ¬ Checked b.log :=
  powerUpUnchecked 0x1234

end HsspProgrammer.ChecksumReply
