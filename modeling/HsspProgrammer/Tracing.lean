import HsspProgrammer.Assembly
import HsspProgrammer.Performing

/-! The operations in the log of the interrupt-driven firmware have been done to its target. -/
namespace HsspProgrammer.Tracing
open CommandLoop
open MainLoop (Entry readEntries doneEntries opsOf opsAppend opsDone opsRead powerUp)
open Performing

variable {τ : Type} {T : Target τ}

/- How far the firmware and its log have come. -/
structure Traced (T : Target τ) (target : τ) (fw : Firmware τ) (log : List Entry) : Prop where
  performed : Performed T target (opsOf log) fw.target
  whole : Whole fw

section Steps
variable {target : τ} {fw fw' : Firmware τ} {log : List Entry}

theorem startTraced (T : Target τ) (checksum : UInt16) (target : τ) :
    Traced T target (powerUp checksum target).firmware [] := ⟨.nil _,wholeReading (by simp [powerUp])⟩

theorem consumeTraced (traced : Traced T target fw log) {byte : UInt8} (taken : consume fw byte = some fw') :
    Traced T target fw' (log ++ readEntries fw') := by
  obtain ⟨same,whole⟩ := consumeWhole taken
  refine ⟨?_,whole⟩
  rw [opsAppend,opsRead,List.append_nil,same]
  exact traced.performed

theorem executeTraced (traced : Traced T target fw log) {outcome : Outcome τ}
    (ran : execute T fw = some outcome) : Traced T target outcome.firmware (log ++ doneEntries outcome) := by
  obtain ⟨performed,whole⟩ := executePerformed traced.whole ran
  refine ⟨?_,whole⟩
  rw [opsAppend,opsDone]
  exact performedAppend traced.performed performed

end Steps

section Devices
variable {checksum : UInt16} {target : τ} {d d' : Interrupts.Device τ}

theorem stepTraced {a : Interrupts.Action} (sound : Interrupts.Sound T checksum target d)
    (traced : Traced T target d.firmware d.log) (now : Interrupts.step T d a = some d') :
    Traced T target d'.firmware d'.log := by
  obtain ⟨i,o,_,scheduled⟩ := Servicing.stepService sound now
  cases a with
  | interrupt sr turns =>
    obtain ⟨_,_,firmware,_,log⟩ := Interrupts.interruptScheduled scheduled now
    rw [firmware,log]
    exact traced
  | main =>
    obtain ⟨_,turn⟩ := Interrupts.mainTurns scheduled now
    cases turn with
    | puts _ _ _ _ next | full _ _ next | stops _ _ next | empty _ _ _ _ next =>
      rw [next]
      exact traced
    | executes outcome _ ran next =>
      rw [next]
      exact executeTraced traced ran
    | takes b rest fw _ _ _ taken next =>
      rw [next]
      exact consumeTraced traced taken

/-- What is in the log of a device has been done to its target, in any order of its
interrupts and turns. -/
theorem reachedTraced (reached : Servicing.Reached T checksum target d) : Traced T target d.firmware d.log := by
  obtain ⟨ib,ob,as,run⟩ := reached
  have both := Transition.runInvariant
    (fun d => Interrupts.Sound T checksum target d ∧ Traced T target d.firmware d.log)
    (fun _ _ _ both _ now => ⟨Interrupts.stepSound both.1 now,stepTraced both.1 both.2 now⟩) run
    ⟨Interrupts.startSound ib.val ob.val ib.property ob.property,startTraced T checksum target⟩
  exact both.2

end Devices

section Assembled
open Assembly (Assembled Action ofHost performs start step)
open Programmer (operations operationsAppend operationsPerformed)
variable {checksum : UInt16} {target : τ}

theorem turnLogged {d d' : Interrupts.Device τ} (now : Interrupts.mainTurn T d = some d') : ∃ more, d'.log = d.log ++ more := by
  unfold Interrupts.mainTurn at now
  split at now
  · contradiction
  split at now
  · dsimp only at now
    split at now <;> cases now <;> exact ⟨[],(List.append_nil _).symm⟩
  split at now
  · cases now
    exact ⟨_,rfl⟩
  split at now
  · obtain ⟨_,now⟩ := Option.ite_none_right_eq_some.mp now
    cases now
    exact ⟨[],(List.append_nil _).symm⟩
  dsimp only at now
  split at now
  · cases now
    exact ⟨[],(List.append_nil _).symm⟩
  · obtain ⟨_,_,rfl⟩ := Option.map_eq_some_iff.mp now
    exact ⟨_,rfl⟩

/- The log of the host has the operations that the log of the device has, which have been
done to the target. -/
structure Logged (T : Target τ) (checksum : UInt16) (target : τ) (c : Assembled τ) : Prop where
  sound : Interrupts.Sound T checksum target c.device
  traced : Traced T target c.device.firmware c.device.log
  same : operations c.host.log = opsOf c.device.log

theorem loggedStep {c c' : Assembled τ} (logged : Logged T checksum target c) {a : Action} (now : step T c a = some c') :
    Logged T checksum target c' := by
  obtain ⟨sound,traced,same⟩ := logged
  cases a with
  | host a =>
    obtain ⟨own,now⟩ := Option.ite_none_right_eq_some.mp now
    obtain ⟨host,ran,rfl⟩ := Option.map_eq_some_iff.mp now
    have other : a ≠ .consume ∧ a ≠ .execute := by
      cases a <;> simp [ofHost] at own ⊢
    exact ⟨sound,traced,(othersPerform other ran).1.trans same⟩
  | interrupt sr turns =>
    obtain ⟨_,now⟩ := Option.ite_none_right_eq_some.mp now
    obtain ⟨d,ran,rfl⟩ := Option.map_eq_some_iff.mp now
    obtain ⟨_,_,_,scheduled⟩ := Servicing.stepService sound (a := .interrupt sr turns) ran
    obtain ⟨_,_,_,_,log⟩ := Interrupts.interruptScheduled scheduled ran
    refine ⟨Interrupts.interruptSound sound ran,stepTraced sound traced (a := .interrupt sr turns) ran,same.trans ?_⟩
    rw [log]
  | main =>
    obtain ⟨d,ran,rfl⟩ := Option.map_eq_some_iff.mp now
    refine ⟨Interrupts.mainSound sound ran,stepTraced sound traced (a := .main) ran,?_⟩
    obtain ⟨more,log⟩ := turnLogged ran
    rw [operationsAppend,operationsPerformed,same,performs,log,List.drop_left,opsAppend]

theorem loggedRun {ib ob : Servicing.Memory} {image : Loader.Globals} {guard : Assembled τ → Action → Prop} {as : List Action}
    {c : Assembled τ} (run : Transition.Run (step T) guard (start ib ob checksum image target) as c) :
    Logged T checksum target c :=
  Transition.runInvariant (Logged T checksum target) (fun _ _ _ logged _ now => loggedStep logged now) run
    ⟨Interrupts.startSound ib.val ob.val ib.property ob.property,startTraced T checksum target,rfl⟩

end Assembled
end HsspProgrammer.Tracing
