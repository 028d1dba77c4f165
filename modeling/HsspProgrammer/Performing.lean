import HsspProgrammer.Programmer

/-! The operations in the log of a run, one after the other on the target: each is called
where the one before it has left the target, and with a whole buffer. -/
namespace HsspProgrammer.Performing
open CommandLoop hiding execute consume
open Programmer

variable {τ : Type} {T : Target τ}

inductive Performs (T : Target τ) (t : τ) : Op → τ → Prop where
  | targetInitialize : Performs T t (.targetInitialize (T.targetInitialize t).1) (T.targetInitialize t).2
  | targetSiliconIDVerify : Performs T t (.targetSiliconIDVerify (T.targetSiliconIDVerify t).1) (T.targetSiliconIDVerify t).2
  | targetErase : Performs T t (.targetErase (T.targetErase t).1) (T.targetErase t).2
  | targetLoad {data} (size : data.length = TARGET_DATABUFF_LEN) : Performs T t (.targetLoad data) (T.targetLoad data t).2
  | targetBlockProgram (k data) :
      Performs T t (.targetBlockProgram k data (T.targetBlockProgram (UInt8.ofNat k) t).1)
        (T.targetBlockProgram (UInt8.ofNat k) t).2
  | targetBlockVerify (k) {data} (size : data.length = TARGET_DATABUFF_LEN) :
      Performs T t (.targetBlockVerify k data (T.targetBlockVerify (UInt8.ofNat k) data t).1)
        (T.targetBlockVerify (UInt8.ofNat k) data t).2
  | targetSecurityFlash {data} (size : data.length = TARGET_DATABUFF_LEN) :
      Performs T t (.targetSecurityFlash (data.take SECURITY_BYTES_PER_BANK) (T.targetSecurityFlash data t).1)
        (T.targetSecurityFlash data t).2
  | targetSecurityVerify {data} (size : data.length = TARGET_DATABUFF_LEN) :
      Performs T t (.targetSecurityVerify (data.take SECURITY_BYTES_PER_BANK) (T.targetSecurityVerify data t).1)
        (T.targetSecurityVerify data t).2
  | targetBankChecksumGet : Performs T t (.targetBankChecksumGet (T.targetBankChecksumGet t).1) (T.targetBankChecksumGet t).2
  | targetReStart : Performs T t .targetReStart (T.targetReStart t)

inductive Performed (T : Target τ) : τ → List Op → τ → Prop where
  | nil (t) : Performed T t [] t
  | cons {t op t' ops t''} (now : Performs T t op t') (later : Performed T t' ops t'') : Performed T t (op :: ops) t''

theorem performedOne {t t' : τ} {op : Op} (now : Performs T t op t') : Performed T t [op] t' := .cons now (.nil t')

theorem performedAppend {t t' t'' : τ} {front back : List Op} (first : Performed T t front t')
    (second : Performed T t' back t'') : Performed T t (front ++ back) t'' := by
  induction first with
  | nil => exact second
  | cons now _ ih => exact .cons now (ih second)

theorem commandPerformed (T : Target τ) (fw : Firmware τ) (cmdID : UInt8) :
    Performed T fw.target (onCommand T fw cmdID).ops (onCommand T fw cmdID).firmware.target := by
  unfold onCommand
  split
  · dsimp only
    split
    · rename_i failed
      exact failed ▸ performedOne .targetInitialize
    · rename_i fine
      have began : Performs T fw.target (.targetInitialize false) (T.targetInitialize fw.target).2 :=
        Bool.eq_false_iff.mpr fine ▸ .targetInitialize
      exact .cons began (performedOne .targetSiliconIDVerify)
  split
  · exact performedOne .targetErase
  iterate 4 split; · exact .nil _
  split
  · exact performedOne .targetBankChecksumGet
  split
  · exact performedOne .targetReStart
  split <;> exact .nil _

theorem readyPerformed (T : Target τ) {fw : Firmware τ} (size : fw.targetDataOUT.length = TARGET_DATABUFF_LEN) (use : Use) :
    Performed T fw.target (onReady T fw use).ops (onReady T fw use).firmware.target := by
  cases use with
  | program k => exact .cons (.targetLoad size) (performedOne (.targetBlockProgram k _))
  | verify k => exact performedOne (.targetBlockVerify k size)
  | securityFlash => exact performedOne (.targetSecurityFlash size)
  | securityVerify => exact performedOne (.targetSecurityVerify size)

/- What is done to a block is done to a whole one. -/
def Whole (fw : Firmware τ) : Prop := ∀ use, fw.pc = .ready use → fw.targetDataOUT.length = TARGET_DATABUFF_LEN

theorem wholeReading {fw : Firmware τ} (reads : ∀ use, fw.pc ≠ .ready use) : Whole fw := fun use now => absurd now (reads use)

section Steps
variable {fw fw' : Firmware τ}

theorem commandReads (T : Target τ) (fw : Firmware τ) (cmdID : UInt8) (use : Use) :
    (onCommand T fw cmdID).firmware.pc ≠ .ready use := by
  unfold onCommand
  dsimp only
  repeat' split
  all_goals simp

theorem readyReads (T : Target τ) (fw : Firmware τ) (now use : Use) : (onReady T fw now).firmware.pc ≠ .ready use := by
  cases now with
  | program k | verify k =>
    unfold onReady nextBlock
    dsimp only
    split
    · simp
    · split <;> simp
  | securityFlash | securityVerify => simp [onReady]

/- A read changes nothing but the buffer. -/
theorem consumeWhole {byte : UInt8} (taken : CommandLoop.consume fw byte = some fw') : fw'.target = fw.target ∧ Whole fw' := by
  unfold CommandLoop.consume at taken
  split at taken
  · cases taken
    exact ⟨rfl,wholeReading (by simp)⟩
  · cases taken
    exact ⟨rfl,wholeReading (by simp)⟩
  · rename_i use got _
    split at taken <;> cases taken
    · rename_i full
      exact ⟨rfl,fun _ _ => (List.length_append).trans full⟩
    · exact ⟨rfl,wholeReading (by simp)⟩
  · contradiction

/-- What follows a read does to the target the operations it is logged with. -/
theorem executePerformed (whole : Whole fw) {outcome : Outcome τ} (ran : CommandLoop.execute T fw = some outcome) :
    Performed T fw.target outcome.ops outcome.firmware.target ∧ Whole outcome.firmware := by
  unfold CommandLoop.execute at ran
  split at ran
  · split at ran <;> cases ran
    · exact ⟨commandPerformed T fw _,wholeReading (commandReads T fw _)⟩
    · exact ⟨.nil _,wholeReading (by simp)⟩
  · rename_i use pc
    cases ran
    exact ⟨readyPerformed T (whole use pc) use,wholeReading (readyReads T fw use)⟩
  · contradiction

end Steps

section Systems
variable {target : τ} {s t : Sys τ}

theorem reactOperations (s : Sys τ) {entry : Event} (plain : operations [entry] = []) (r : MainWindow.Reaction) :
    operations (react s entry r).log = operations s.log := by
  have reports : operations (r.reports.map Event.reported) = [] := by
    rw [operations,List.filterMap_map]
    exact List.filterMap_eq_nil_iff.mpr (fun _ _ => rfl)
  change operations (s.log ++ ([entry] ++ r.reports.map .reported)) = _
  rw [operationsAppend,operationsAppend,plain,reports,List.append_nil,List.append_nil]

/- Only the firmware performs operations. -/
theorem othersPerform {a : Action} (other : a ≠ .consume ∧ a ≠ .execute) (now : step T s a = some t) :
    operations t.log = operations s.log ∧ t.firmware = s.firmware := by
  cases a with
  | consume => exact absurd rfl other.1
  | execute => exact absurd rfl other.2
  | flash =>
    obtain ⟨_,now⟩ := Option.ite_none_right_eq_some.mp now
    cases now
    exact ⟨reactOperations s rfl _,rfl⟩
  | deliver =>
    simp only [step,deliver] at now
    split at now <;> cases now
    · exact ⟨reactOperations _ rfl _,rfl⟩
    · exact ⟨rfl,rfl⟩
  | slotWrite =>
    simp only [step,slotWrite] at now
    split at now <;> cases now
    exact ⟨rfl,rfl⟩
  | arrive =>
    simp only [step,arrive] at now
    split at now <;> cases now
    exact ⟨rfl,rfl⟩
  | fileOpen _ | transmit _ | burst _ | connect | disconnect _ | writeTimeout _ _ | lose =>
    obtain ⟨_,now⟩ := Option.ite_none_right_eq_some.mp now
    cases now
    exact ⟨rfl,rfl⟩

/- How far the target has come with the operations of the log. -/
structure Done (T : Target τ) (target : τ) (s : Sys τ) : Prop where
  performed : Performed T target (operations s.log) s.firmware.target
  whole : Whole s.firmware

theorem doneConsume (done : Done T target s) (now : consume s = some t) : Done T target t := by
  unfold consume at now
  split at now
  · contradiction
  split at now
  · contradiction
  rename_i taken
  obtain ⟨same,whole⟩ := consumeWhole taken
  have performed := done.performed
  rw [← same] at performed
  split at now <;> cases now
  · refine ⟨?_,whole⟩
    rw [operationsAppend]
    simpa [operations] using performed
  · refine ⟨?_,whole⟩
    rw [operationsAppend]
    simpa [operations] using performed
  · exact ⟨performed,whole⟩

theorem doneStep (done : Done T target s) {a : Action} (now : step T s a = some t) : Done T target t := by
  by_cases own : a = .consume ∨ a = .execute
  · rcases own with rfl | rfl
    · exact doneConsume done now
    · obtain ⟨outcome,ran,rfl⟩ := Option.map_eq_some_iff.mp now
      obtain ⟨performed,whole⟩ := executePerformed done.whole ran
      refine ⟨?_,whole⟩
      rw [operationsAppend,operationsPerformed]
      exact performedAppend done.performed performed
  · obtain ⟨ops,fw⟩ := othersPerform (not_or.mp own) now
    exact ⟨by rw [ops,fw]; exact done.performed,fw ▸ done.whole⟩

/-- Whatever happens, what is in the log has been done to the target. -/
theorem performedRun {guard : Sys τ → Action → Prop} {as : List Action} (fresh : s.log = []) (top : s.firmware.pc = .cmdID)
    (run : Transition.Run (step T) guard s as t) : Performed T s.firmware.target (operations t.log) t.firmware.target := by
  have start : Done T s.firmware.target s := ⟨by rw [fresh]; exact .nil _,wholeReading (by simp [top])⟩
  exact (Transition.runInvariant (Done T s.firmware.target) (fun _ _ _ done _ now => doneStep done now) run start).performed

end Systems
end HsspProgrammer.Performing
