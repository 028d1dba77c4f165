import HsspProgrammer.SerialThread
import HsspProgrammer.MainWindow

/-! Which replies the main window acts on. The four bytes it reads of a message are
those of the first frame of the burst, so a burst is handled right exactly when all
the frames it completes are equal. -/
namespace HsspProgrammer.ReplyFraming
open Ascii (Bytes)
open Frames SerialThread

/-- The four bytes `serialData` reads of each emitted message, in signal order. -/
def actedOn (m_rxBuf : Bytes) (bursts : List (List Bytes)) : List Bytes :=
  (receiveAll m_rxBuf bursts).1.map (List.take 4)

def stream (bursts : List (List Bytes)) : Bytes := (bursts.map List.flatten).flatten

def FramedExactly (bursts : List (List Bytes)) : Prop :=
  actedOn [] bursts = frames 4 (stream bursts) ∧
  (receiveAll [] bursts).2 = leftover 4 (stream bursts)

def Uniform : Bytes → List (List Bytes) → Prop
  | _, [] => True
  | kept, burst :: rest =>
    (∀ f ∈ frames 4 (kept ++ burst.flatten), f = (kept ++ burst.flatten).take 4) ∧
    Uniform (leftover 4 (kept ++ burst.flatten)) rest

theorem receiveAllKept (m_rxBuf : Bytes) (few : m_rxBuf.length < 4) (bursts : List (List Bytes)) :
    (receiveAll m_rxBuf bursts).2 = leftover 4 (m_rxBuf ++ stream bursts) := by
  induction bursts generalizing m_rxBuf with
  | nil => simp [receiveAll,stream,leftoverShort few]
  | cons burst rest ih =>
    have now : (receive m_rxBuf burst).2 = leftover 4 (m_rxBuf ++ burst.flatten) := by
      rw [receiveFlat,emitLoopFrames]
    have small : (leftover 4 (m_rxBuf ++ burst.flatten)).length < 4 := leftoverLength (by decide) _
    simp only [receiveAll,now,ih _ small,stream,List.map_cons,List.flatten_cons,
      ← List.append_assoc]
    exact (leftoverAppend (by decide) _ _).symm

theorem constantFrames {fs : List Bytes} {head : Bytes} :
    fs.map (fun _ => head) = fs ↔ ∀ f ∈ fs, f = head := by
  induction fs with
  | nil => simp
  | cons f fs ih =>
    rw [List.map_cons,List.cons.injEq,ih,List.forall_mem_cons,eq_comm]

theorem actedOnStep (m_rxBuf : Bytes) (burst : List Bytes) (rest : List (List Bytes)) :
    actedOn m_rxBuf (burst :: rest) =
      (frames 4 (m_rxBuf ++ burst.flatten)).map (fun _ => (m_rxBuf ++ burst.flatten).take 4) ++
      actedOn (leftover 4 (m_rxBuf ++ burst.flatten)) rest := by
  have kept : (receive m_rxBuf burst).2 = leftover 4 (m_rxBuf ++ burst.flatten) := by
    rw [receiveFlat,emitLoopFrames]
  simp only [actedOn,receiveAll,List.map_append,kept]
  rw [receiveFlat,emitLoopHeads]

theorem actedOnUniform (m_rxBuf : Bytes) (bursts : List (List Bytes)) (few : m_rxBuf.length < 4) :
    actedOn m_rxBuf bursts = frames 4 (m_rxBuf ++ stream bursts) ↔ Uniform m_rxBuf bursts := by
  induction bursts generalizing m_rxBuf with
  | nil => simp [actedOn,receiveAll,stream,Uniform,framesShort few]
  | cons burst rest ih =>
    have small : (leftover 4 (m_rxBuf ++ burst.flatten)).length < 4 := leftoverLength (by decide) _
    have cut : frames 4 (m_rxBuf ++ stream (burst :: rest)) =
        frames 4 (m_rxBuf ++ burst.flatten) ++
        frames 4 (leftover 4 (m_rxBuf ++ burst.flatten) ++ stream rest) := by
      rw [← framesAppend (by decide)]
      simp [stream,List.append_assoc]
    have sizes : ((frames 4 (m_rxBuf ++ burst.flatten)).map
        (fun _ => (m_rxBuf ++ burst.flatten).take 4)).length =
        (frames 4 (m_rxBuf ++ burst.flatten)).length := List.length_map _
    rw [actedOnStep,cut,Uniform,← ih _ small,← constantFrames]
    exact ⟨fun h => List.append_inj h sizes,fun h => by rw [h.1,h.2]⟩

theorem framedExactlyIff (bursts : List (List Bytes)) : FramedExactly bursts ↔ Uniform [] bursts := by
  have kept := receiveAllKept [] (by decide) bursts
  have acted := actedOnUniform [] bursts (by decide)
  simp only [List.nil_append] at kept acted
  exact ⟨fun h => acted.mp h.1,fun h => ⟨acted.mpr h,kept⟩⟩

/- Two replies in one burst: the first is acted on twice, the second never. -/
def twoReplies : List (List Bytes) :=
  [[[Ascii.a,Ascii.newline,Ascii.zero,Ascii.newline],[Ascii.b,Ascii.newline,Ascii.one,Ascii.newline]]]

theorem secondReplyLost : ¬ FramedExactly twoReplies := by
  intro h
  exact absurd h.1 (by decide)

end HsspProgrammer.ReplyFraming
