import HsspProgrammer.MainLoop
import HsspProgrammer.Performing
import Mathlib.Data.List.Induction

/-! What stray bytes do to the command loop. It reads in pairs and looks for the newline
at the second place only, so nothing but the number of stray bytes matters. -/
namespace HsspProgrammer.Alignment
open Ascii (Bytes)
open CommandLoop
open MainLoop
open Performing (Performed commandPerformed performedAppend)

variable {τ : Type}

/- What a command without data does, and the argument of its answer. -/
inductive Own : UInt8 → List Op → UInt8 → Prop where
  | unstarted : Own Ascii.a [.targetInitialize true] Ascii.one
  | identified (failed) :
      Own Ascii.a [.targetInitialize false,.targetSiliconIDVerify failed] (if failed then Ascii.two else Ascii.zero)
  | erased (failed) : Own Ascii.b [.targetErase failed] (if failed then Ascii.one else Ascii.zero)
  | unsummed : Own Ascii.g [.targetBankChecksumGet none] Ascii.one
  | summed (targetChecksum checksum : UInt16) :
      Own Ascii.g [.targetBankChecksumGet (some targetChecksum)] (if targetChecksum ≠ checksum then Ascii.two else Ascii.zero)
  | reStarted : Own Ascii.x [.targetReStart] Ascii.zero

/- The entries of one command that is executed and answered. -/
def Answers (cmdID : UInt8) (piece : List Entry) : Prop :=
  ∃ argID ops, Own cmdID ops argID ∧ piece = .command cmdID Ascii.newline :: ops.map .performed ++ [.replied (reply cmdID argID)]

/- Pairs that were read and passed over. -/
def Skipped (entries : List Entry) : Prop := ∀ entry ∈ entries, ∃ cmdID cmdTrm, entry = .command cmdID cmdTrm

def commandBytes (commands : Bytes) : Bytes := commands.flatMap (fun cmdID => [cmdID,Ascii.newline])

structure Junk (junk : Bytes) : Prop where
  letters : ∀ ch ∈ junk, ¬ (Ascii.a ≤ ch ∧ ch ≤ Ascii.z)
  newlines : Ascii.newline ∉ junk

theorem skippedCons (cmdID cmdTrm : UInt8) {entries : List Entry} (rest : Skipped entries) :
    Skipped (.command cmdID cmdTrm :: entries) := by
  intro entry inside
  cases inside with
  | head => exact ⟨cmdID,cmdTrm,rfl⟩
  | tail _ inside => exact rest entry inside

theorem skippedAppend {front back : List Entry} (first : Skipped front) (second : Skipped back) :
    Skipped (front ++ back) := by
  intro entry inside
  cases List.mem_append.mp inside with
  | inl inside => exact first entry inside
  | inr inside => exact second entry inside

theorem settleSkips (T : Target τ) {b : Board τ} {cmdID cmdTrm : UInt8} (pc : b.firmware.pc = .command cmdID cmdTrm)
    (other : cmdTrm ≠ Ascii.newline) : settle T b = ⟨{b.firmware with pc := .cmdID},b.log⟩ := by
  have ran : execute T b.firmware = some ⟨{b.firmware with pc := .cmdID},[],[]⟩ := by
    simp only [execute,pc]
    exact if_neg (fun known => other known.2.2)
  rw [settleSome ran]
  simp [doneEntries]

/- A pair without a newline at its second place. -/
theorem feedSkips (T : Target τ) {b : Board τ} {cmdID cmdTrm : UInt8} (top : b.firmware.pc = .cmdID)
    (other : cmdTrm ≠ Ascii.newline) (rest : Bytes) :
    feed T b (cmdID :: cmdTrm :: rest) = feed T ⟨b.firmware,b.log ++ [.command cmdID cmdTrm]⟩ rest := by
  rw [feedPair T top,settleSkips T rfl other,← top]

theorem feedPairs (T : Target τ) {b : Board τ} {junk : Bytes} (top : b.firmware.pc = .cmdID)
    (newlines : Ascii.newline ∉ junk) (even : junk.length % 2 = 0) (rest : Bytes) : ∃ skipped, Skipped skipped ∧
    feed T b (junk ++ rest) = feed T ⟨b.firmware,b.log ++ skipped⟩ rest := by
  induction junk using List.twoStepInduction generalizing b with
  | nil => exact ⟨[],by simp [Skipped],by simp⟩
  | singleton x => contradiction
  | cons_cons x y junk ih =>
    simp only [List.mem_cons,not_or] at newlines
    simp only [List.length_cons] at even
    obtain ⟨skipped,only,fed⟩ := ih (b := ⟨b.firmware,b.log ++ [.command x y]⟩) top newlines.2.2 (by omega)
    refine ⟨.command x y :: skipped,skippedCons x y only,?_⟩
    rw [List.cons_append,List.cons_append,feedSkips T top (Ne.symm newlines.2.1),fed]
    simp

theorem knownNotNewline {cmdID : UInt8} (known : cmdID ∈ plainCommands) : cmdID ≠ Ascii.newline := by
  rintro rfl
  exact absurd known (by decide)

/- Once the reader is one byte behind it stays so: it takes the letter of every command
for a terminator and its newline for the next letter. -/
theorem feedBehind (T : Target τ) {b : Board τ} {commands : Bytes} {ch : UInt8} (pc : b.firmware.pc = .cmdTrm ch)
    (known : ∀ cmdID ∈ commands, cmdID ∈ plainCommands) : ∃ b' skipped, Skipped skipped ∧
    feed T b (commandBytes commands) = some b' ∧ b'.log = b.log ++ skipped ∧ b'.firmware.target = b.firmware.target := by
  induction commands generalizing b ch with
  | nil => exact ⟨b,[],by simp [Skipped],rfl,by simp,rfl⟩
  | cons cmdID rest ih =>
    have other := knownNotNewline (known cmdID List.mem_cons_self)
    have first : feedByte T b cmdID = some ⟨{b.firmware with pc := .cmdID},b.log ++ [.command ch cmdID]⟩ := by
      simp only [feedByte,CommandLoop.consume,pc,Option.map_some,readEntries]
      rw [settleSkips T rfl other]
    have second : feedByte T ⟨{b.firmware with pc := .cmdID},b.log ++ [.command ch cmdID]⟩ Ascii.newline =
        some ⟨{b.firmware with pc := .cmdTrm Ascii.newline},b.log ++ [.command ch cmdID]⟩ := by
      simp only [feedByte,CommandLoop.consume,Option.map_some,readEntries,List.append_nil]
      rw [settleNone rfl]
    obtain ⟨b',skipped,only,fed,log,target⟩ := ih
      (b := ⟨{b.firmware with pc := .cmdTrm Ascii.newline},b.log ++ [.command ch cmdID]⟩) rfl
      (fun id inside => known id (List.mem_cons_of_mem _ inside))
    refine ⟨b',.command ch cmdID :: skipped,skippedCons ch cmdID only,?_,?_,target⟩
    · have whole : commandBytes (cmdID :: rest) = cmdID :: Ascii.newline :: commandBytes rest := rfl
      simp only [feed,whole,Transition.runAll,first,second,Option.bind_some] at fed ⊢
      exact fed
    · simpa using log

theorem ownCommand (T : Target τ) (fw : Firmware τ) {cmdID : UInt8} (known : cmdID ∈ plainCommands) : ∃ argID,
    Own cmdID (onCommand T fw cmdID).ops argID ∧ (onCommand T fw cmdID).reply = reply cmdID argID ∧
    (onCommand T fw cmdID).firmware.pc = .cmdID := by
  simp only [plainCommands,List.mem_cons,List.not_mem_nil,or_false] at known
  rcases known with rfl | rfl | rfl | rfl
  · cases started : (T.targetInitialize fw.target).1 with
    | true => exact ⟨_,by simpa [onCommand,started] using Own.unstarted,by simp [onCommand,started],by simp [onCommand,started]⟩
    | false =>
      exact ⟨_,by simpa [onCommand,started] using Own.identified _,by simp [onCommand,started],by simp [onCommand,started]⟩
  · exact ⟨_,.erased _,rfl,rfl⟩
  · cases read : (T.targetBankChecksumGet fw.target).1 with
    | none => exact ⟨_,by simpa [onCommand,read] using Own.unsummed,by simp [onCommand,read],rfl⟩
    | some value => exact ⟨_,by simpa [onCommand,read] using Own.summed value fw.checksum,by simp [onCommand,read],rfl⟩
  · exact ⟨_,.reStarted,rfl,rfl⟩

theorem plainLetters {cmdID : UInt8} (known : cmdID ∈ plainCommands) : Ascii.a ≤ cmdID ∧ cmdID ≤ Ascii.z := by
  simp only [plainCommands,List.mem_cons,List.not_mem_nil,or_false] at known
  rcases known with rfl | rfl | rfl | rfl <;> decide

theorem settleAnswers (T : Target τ) {b : Board τ} {cmdID : UInt8} (known : cmdID ∈ plainCommands)
    (pc : b.firmware.pc = .command cmdID Ascii.newline) : ∃ b' ops argID, Own cmdID ops argID ∧ settle T b = b' ∧
    b'.firmware.pc = .cmdID ∧ b'.log = b.log ++ (ops.map .performed ++ [.replied (reply cmdID argID)]) ∧
    Performed T b.firmware.target ops b'.firmware.target := by
  obtain ⟨argID,own,answer,top⟩ := ownCommand T b.firmware known
  obtain ⟨low,high⟩ := plainLetters known
  have ran : execute T b.firmware = some (onCommand T b.firmware cmdID) := by
    simp only [execute,pc]
    exact if_pos ⟨low,high,trivial⟩
  exact ⟨_,_,argID,own,settleSome ran,top,by rw [doneAnswered answer],commandPerformed T _ _⟩

theorem answersOps (cmdID argID : UInt8) (ops : List Op) :
    opsOf (.command cmdID Ascii.newline :: ops.map .performed ++ [.replied (reply cmdID argID)]) = ops := by
  have performed : opsOf (.command cmdID Ascii.newline :: ops.map .performed) = opsOf (ops.map .performed) := rfl
  rw [opsAppend,performed,opsPerformed]
  exact List.append_nil ops

theorem feedAnswered (T : Target τ) {b : Board τ} {commands : Bytes} (top : b.firmware.pc = .cmdID)
    (known : ∀ cmdID ∈ commands, cmdID ∈ plainCommands) : ∃ b' pieces, List.Forall₂ Answers commands pieces ∧
    feed T b (commandBytes commands) = some b' ∧ b'.log = b.log ++ pieces.flatten ∧
    Performed T b.firmware.target (opsOf pieces.flatten) b'.firmware.target := by
  induction commands generalizing b with
  | nil => exact ⟨b,[],.nil,rfl,by simp,.nil _⟩
  | cons cmdID rest ih =>
    obtain ⟨b₁,ops,argID,own,settled,pc,log,performed⟩ := settleAnswers T (known cmdID List.mem_cons_self)
      (b := ⟨{b.firmware with pc := .command cmdID Ascii.newline},b.log ++ [.command cmdID Ascii.newline]⟩) rfl
    obtain ⟨b',pieces,answers,fed,log',performed'⟩ := ih pc (fun id inside => known id (List.mem_cons_of_mem _ inside))
    refine ⟨b',(.command cmdID Ascii.newline :: ops.map .performed ++ [.replied (reply cmdID argID)]) :: pieces,
      .cons ⟨argID,ops,own,rfl⟩ answers,?_,?_,?_⟩
    · have whole : commandBytes (cmdID :: rest) = cmdID :: Ascii.newline :: commandBytes rest := rfl
      rw [whole,feedPair T top,settled,fed]
    · rw [log',log]
      simp
    · rw [List.flatten_cons,opsAppend,answersOps]
      exact performedAppend performed performed'

/-- Stray bytes of an even number are absorbed and every command after them is executed
on the target and answered; after an odd number no command is. -/
theorem junkAbsorbed (T : Target τ) {b : Board τ} {junk commands : Bytes} (top : b.firmware.pc = .cmdID)
    (clean : Junk junk) (known : ∀ cmdID ∈ commands, cmdID ∈ plainCommands) :
    ∃ b' skipped pieces, feed T b (junk ++ commandBytes commands) = some b' ∧
      b'.log = b.log ++ skipped ++ pieces.flatten ∧ Skipped skipped ∧
      (junk.length % 2 = 0 → List.Forall₂ Answers commands pieces ∧
        Performed T b.firmware.target (opsOf pieces.flatten) b'.firmware.target) ∧
      (junk.length % 2 = 1 → pieces = [] ∧ b'.firmware.target = b.firmware.target) := by
  by_cases even : junk.length % 2 = 0
  · obtain ⟨skipped,only,absorbed⟩ := feedPairs T top clean.newlines even (commandBytes commands)
    obtain ⟨b',pieces,answers,fed,log,performed⟩ := feedAnswered T (b := ⟨b.firmware,b.log ++ skipped⟩) top known
    exact ⟨b',skipped,pieces,absorbed.trans fed,log,only,fun _ => ⟨answers,performed⟩,fun odd => absurd even (by omega)⟩
  · obtain ⟨front,last,split⟩ : ∃ front last, junk = front ++ [last] :=
      ⟨junk.dropLast,_,(List.dropLast_concat_getLast (by rintro rfl; exact even rfl)).symm⟩
    subst split
    simp only [List.length_append,List.length_singleton] at even
    have newlines : Ascii.newline ∉ front := fun inside => clean.newlines (List.mem_append_left _ inside)
    obtain ⟨skipped,only,absorbed⟩ := feedPairs T top newlines (by omega) (last :: commandBytes commands)
    have first : feedByte T ⟨b.firmware,b.log ++ skipped⟩ last =
        some ⟨{b.firmware with pc := .cmdTrm last},b.log ++ skipped⟩ := by
      simp only [feedByte,CommandLoop.consume,top,Option.map_some,readEntries,List.append_nil]
      rw [settleNone rfl]
    obtain ⟨b',behind,only',fed,log,target⟩ := feedBehind T
      (b := ⟨{b.firmware with pc := .cmdTrm last},b.log ++ skipped⟩) rfl known
    refine ⟨b',skipped ++ behind,[],?_,?_,skippedAppend only only',fun now => ?_,fun _ => ⟨rfl,target⟩⟩
    · rw [List.append_assoc,List.singleton_append,absorbed]
      simp only [feed,Transition.runAll,first,Option.bind_some] at fed ⊢
      exact fed
    · simpa using log
    · simp only [List.length_append,List.length_singleton] at now
      omega

/- Two stray bytes before 'a' and 'b'. -/
theorem junkAbsorbedTwo : ∃ b' skipped pieces,
    feed (obliging 0) (powerUp 0 ()) ([0x00,0xff] ++ commandBytes [Ascii.a,Ascii.b]) = some b' ∧
    b'.log = [] ++ skipped ++ pieces.flatten ∧ Skipped skipped ∧
    (2 % 2 = 0 → List.Forall₂ Answers [Ascii.a,Ascii.b] pieces ∧
      Performed (obliging 0) () (opsOf pieces.flatten) b'.firmware.target) ∧
    (2 % 2 = 1 → pieces = [] ∧ b'.firmware.target = ()) :=
  junkAbsorbed (obliging 0) rfl ⟨by decide +kernel,by decide⟩ (by decide +kernel)

/-- One stray byte and neither of two commands is answered. -/
theorem strayByteShifts : ∃ b', feed (obliging 0) (powerUp 0 ()) ([0x00] ++ commandBytes [Ascii.a,Ascii.b]) = some b' ∧
    Junk [0x00] ∧ Skipped b'.log :=
  ⟨_,rfl,⟨by decide +kernel,by decide⟩,
    skippedCons 0x00 Ascii.a (skippedCons Ascii.newline Ascii.b (fun _ none => absurd none List.not_mem_nil))⟩

end HsspProgrammer.Alignment
