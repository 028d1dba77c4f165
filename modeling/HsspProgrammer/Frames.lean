import Mathlib.Tactic.Common

/-! Cutting a sequence into consecutive frames of one fixed length. The cut is
characterised by its decomposition, so it can be taken piecewise as input arrives. -/
namespace HsspProgrammer.Frames

variable {α : Type}

def frames (n : Nat) (l : List α) : List (List α) :=
  (List.range (l.length / n)).map (fun i => (l.drop (n * i)).take n)

def leftover (n : Nat) (l : List α) : List α := l.drop (n * (l.length / n))

theorem framesShort {n : Nat} {l : List α} (short : l.length < n) : frames n l = [] := by
  simp [frames, Nat.div_eq_of_lt short]

theorem leftoverShort {n : Nat} {l : List α} (short : l.length < n) : leftover n l = l := by
  simp [leftover, Nat.div_eq_of_lt short]

theorem framesCons {n : Nat} (pos : 0 < n) {f : List α} (size : f.length = n) (l : List α) :
    frames n (f ++ l) = f :: frames n l := by
  have count : (f ++ l).length / n = l.length / n + 1 := by
    rw [List.length_append, size, Nat.add_comm, Nat.add_div_right _ pos]
  unfold frames
  rw [count, List.range_succ_eq_map, List.map_cons, List.map_map]
  congr 1
  · simp [← size]
  · apply List.map_congr_left
    intro i _
    have far : n * (i + 1) = f.length + n * i := by rw [size, Nat.mul_add, Nat.mul_one, Nat.add_comm]
    simp only [Function.comp_apply, Nat.succ_eq_add_one, far]
    rw [List.drop_length_add_append]

theorem leftoverCons {n : Nat} (pos : 0 < n) {f : List α} (size : f.length = n) (l : List α) :
    leftover n (f ++ l) = leftover n l := by
  have count : (f ++ l).length / n = l.length / n + 1 := by
    rw [List.length_append, size, Nat.add_comm, Nat.add_div_right _ pos]
  have far : n * (l.length / n + 1) = f.length + n * (l.length / n) := by rw [size, Nat.mul_add, Nat.mul_one, Nat.add_comm]
  unfold leftover
  rw [count, far, List.drop_length_add_append]

theorem framesFlatten {n : Nat} (pos : 0 < n) {fs : List (List α)} (sizes : ∀ f ∈ fs, f.length = n)
    (l : List α) : frames n (fs.flatten ++ l) = fs ++ frames n l := by
  induction fs with
  | nil => simp
  | cons f fs ih =>
    simp only [List.mem_cons, forall_eq_or_imp] at sizes
    rw [List.flatten_cons, List.append_assoc, framesCons pos sizes.1, ih sizes.2, List.cons_append]

theorem leftoverFlatten {n : Nat} (pos : 0 < n) {fs : List (List α)}
    (sizes : ∀ f ∈ fs, f.length = n) (l : List α) :
    leftover n (fs.flatten ++ l) = leftover n l := by
  induction fs with
  | nil => simp
  | cons f fs ih =>
    simp only [List.mem_cons, forall_eq_or_imp] at sizes
    rw [List.flatten_cons, List.append_assoc, leftoverCons pos sizes.1, ih sizes.2]

theorem leftoverLength {n : Nat} (pos : 0 < n) (l : List α) : (leftover n l).length < n := by
  have split := Nat.div_add_mod l.length n
  have small := Nat.mod_lt l.length pos
  simp only [leftover, List.length_drop]
  omega

theorem frameLength {n : Nat} {l f : List α} (inside : f ∈ frames n l) : f.length = n := by
  obtain ⟨i,before,rfl⟩ := List.mem_map.mp inside
  have enough : n * (i + 1) ≤ n * (l.length / n) := Nat.mul_le_mul_left n (List.mem_range.mp before)
  have total := Nat.mul_div_le l.length n
  simp only [List.length_take, List.length_drop, Nat.mul_add] at *
  omega

theorem framesJoin {n : Nat} (pos : 0 < n) (l : List α) :
    (frames n l).flatten ++ leftover n l = l := by
  induction len : l.length using Nat.strongRecOn generalizing l with
  | ind k ih =>
    by_cases short : l.length < n
    · simp [framesShort short, leftoverShort short]
    · have size : (l.take n).length = n := by simp; omega
      have cut : l = l.take n ++ l.drop n := (List.take_append_drop n l).symm
      have rest := ih (l.drop n).length (by simp; omega) (l.drop n) rfl
      calc (frames n l).flatten ++ leftover n l
          = (frames n (l.take n ++ l.drop n)).flatten ++ leftover n (l.take n ++ l.drop n) := by
            rw [← cut]
        _ = l.take n ++ ((frames n (l.drop n)).flatten ++ leftover n (l.drop n)) := by
            rw [framesCons pos size, leftoverCons pos size, List.flatten_cons, List.append_assoc]
        _ = l := by rw [rest, List.take_append_drop]

theorem framesHead {n : Nat} (pos : 0 < n) {l f : List α} {fs : List (List α)} (cut : frames n l = f :: fs) :
    l.take n = f := by
  have size : f.length = n := frameLength (by rw [cut]; exact List.mem_cons_self)
  have join := framesJoin pos l
  rw [cut, List.flatten_cons, List.append_assoc] at join
  rw [← join, ← size, List.take_left]

/-- Input may arrive in any pieces: only the unfinished frame has to be kept. -/
theorem framesAppend {n : Nat} (pos : 0 < n) (l m : List α) :
    frames n (l ++ m) = frames n l ++ frames n (leftover n l ++ m) := by
  calc frames n (l ++ m) = frames n ((frames n l).flatten ++ (leftover n l ++ m)) := by
        rw [← List.append_assoc, framesJoin pos l]
    _ = frames n l ++ frames n (leftover n l ++ m) := framesFlatten pos (fun _ => frameLength) _

theorem leftoverAppend {n : Nat} (pos : 0 < n) (l m : List α) :
    leftover n (l ++ m) = leftover n (leftover n l ++ m) := by
  calc leftover n (l ++ m) = leftover n ((frames n l).flatten ++ (leftover n l ++ m)) := by
        rw [← List.append_assoc, framesJoin pos l]
    _ = leftover n (leftover n l ++ m) := leftoverFlatten pos (fun _ => frameLength) _

end HsspProgrammer.Frames
