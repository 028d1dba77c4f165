import HsspProgrammer.Frames

/-! The receive part of the serial thread: a burst of `readAll` chunks is added to
`m_rxBuf`, then four bytes at a time are moved to `msg` and `msg` is emitted. -/
namespace HsspProgrammer.SerialThread
open Frames

variable {α : Type}

/- `msg` is declared before the loop and never cleared in it, so each signal
carries the frames of the earlier ones in front of its own. -/
def emitLoop (msg : List α) : List α → List (List α) × List α
  | b0 :: b1 :: b2 :: b3 :: m_rxBuf =>
    let grown := msg ++ [b0,b1,b2,b3]
    let later := emitLoop grown m_rxBuf
    (grown :: later.1,later.2)
  | m_rxBuf => ([],m_rxBuf)

def receive (m_rxBuf : List α) (burst : List (List α)) : List (List α) × List α :=
  emitLoop [] (burst.foldl (· ++ ·) m_rxBuf)

def receiveAll (m_rxBuf : List α) : List (List (List α)) → List (List α) × List α
  | [] => ([],m_rxBuf)
  | burst :: rest =>
    let now := receive m_rxBuf burst
    let later := receiveAll now.2 rest
    (now.1 ++ later.1,later.2)

def running (msg : List α) : List (List α) → List (List α)
  | [] => []
  | f :: fs => (msg ++ f) :: running (msg ++ f) fs

theorem emitLoopFrames (msg l : List α) :
    emitLoop msg l = (running msg (frames 4 l),leftover 4 l) := by
  induction msg, l using emitLoop.induct with
  | case1 msg b0 b1 b2 b3 rest grown ih =>
    have cut : b0 :: b1 :: b2 :: b3 :: rest = [b0,b1,b2,b3] ++ rest := rfl
    have size : [b0,b1,b2,b3].length = 4 := rfl
    rw [emitLoop,ih,cut,framesCons (by decide) size,leftoverCons (by decide) size]
    rfl
  | case2 msg l few =>
    have short : l.length < 4 := by
      match l, few with
      | [], _ | [_], _ | [_,_], _ | [_,_,_], _ => simp
      | b0 :: b1 :: b2 :: b3 :: rest, few => exact absurd rfl (few b0 b1 b2 b3 rest)
    rw [framesShort short,leftoverShort short]
    unfold emitLoop
    split
    · exact absurd rfl (few _ _ _ _ _)
    · rfl

theorem runningHeads {msg : List α} (size : 4 ≤ msg.length) (fs : List (List α)) :
    (running msg fs).map (List.take 4) = fs.map (fun _ => msg.take 4) := by
  induction fs generalizing msg with
  | nil => rfl
  | cons f fs ih =>
    have grown : 4 ≤ (msg ++ f).length := by simp; omega
    simp only [running,List.map_cons,ih grown,List.take_append_of_le_length size]

/-- Every message emitted in one burst starts with the first frame of the burst. -/
theorem emitLoopHeads (l : List α) :
    (emitLoop [] l).1.map (List.take 4) = (frames 4 l).map (fun _ => l.take 4) := by
  rw [emitLoopFrames]
  cases h : frames 4 l with
  | nil => rfl
  | cons f fs =>
    have size : f.length = 4 := frameLength (by rw [h]; exact List.mem_cons_self)
    have first : l.take 4 = f := framesHead (by decide) h
    have whole : f.take 4 = f := List.take_of_length_le (by omega)
    simp only [running,List.nil_append,List.map_cons,first,whole,
      runningHeads (show 4 ≤ f.length by omega) fs]

theorem receiveFlat (m_rxBuf : List α) (burst : List (List α)) :
    receive m_rxBuf burst = emitLoop [] (m_rxBuf ++ burst.flatten) := by
  have joined : burst.foldl (· ++ ·) m_rxBuf = m_rxBuf ++ burst.flatten := by
    induction burst generalizing m_rxBuf with
    | nil => simp
    | cons chunk rest ih => simp [ih]
  rw [receive,joined]

/-- How `readAll` cut a burst into chunks does not matter. -/
theorem receiveChunks (m_rxBuf : List α) (burst : List (List α)) :
    receive m_rxBuf burst = receive m_rxBuf [burst.flatten] := by
  simp only [receiveFlat,List.flatten_cons,List.flatten_nil,List.append_nil]

end HsspProgrammer.SerialThread
