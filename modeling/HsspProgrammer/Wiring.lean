import HsspProgrammer.Answering
import HsspProgrammer.Realizing
import HsspProgrammer.Replaying

/-! From the window to the wires: what the target has been shown, and has answered, when
the restart of a session is reported. -/
namespace HsspProgrammer.Wiring
open Assembly
open CommandLoop (Op Target)
open Loader (Globals)
open Pins Issp Clocking
open Performing
open Programmer (Session Sys latest latestFrom operations operationsAppend operationsPerformed)
open Servicing (Memory)
open Sessions (Undisturbed expected)
open Signals
open Spelling
open Tracing (Logged loggedRun)
open Transition

section Logs
variable {τ : Type} {T : Target τ} {checksum : UInt16} {target : τ}

end Logs

section Wires
variable {δ : Type} {W : Wire δ} {d : δ} {c : Assembled (Bus δ)} {image : Globals}

end Wires

section Completing
open Answering
open Replaying

end Completing
end HsspProgrammer.Wiring
