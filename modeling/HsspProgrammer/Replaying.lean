import HsspProgrammer.Performing

/-! Two targets that do the same. All that the rest of the system sees of a target are the
results of its operations, so a run can be made again with any other target on which
the operations in its log can be performed with the same results. -/
namespace HsspProgrammer.Replaying
open CommandLoop hiding execute consume
open Performing
open Programmer

variable {σ τ : Type} {S : Target σ} {T : Target τ}

section Firmware
variable {fw : Firmware σ} {t t' : τ}

end Firmware

section Systems
variable {s u : Sys σ}

end Systems
end HsspProgrammer.Replaying
