import Mathlib.Data.List.Rotate
import Mathlib.Data.Nat.ModEq

/-! A bounded queue in a fixed array: the place where the next element goes and the place
of the oldest one both wrap at the end. Cells outside the queue may hold anything. -/
namespace HsspProgrammer.RingBuffer

variable {α : Type}

structure Buffer (α : Type) where
  cells : List α
  front : Nat
  used : Nat
  inside : front < cells.length
  room : used ≤ cells.length

namespace Buffer

/- The cell the next element goes to. -/
def back (r : Buffer α) : Nat := (r.front + r.used) % r.cells.length

def contents (r : Buffer α) : List α := (r.cells.rotate r.front).take r.used

end Buffer

/- One place on, from the last one to the first. -/
def advance (size place : Nat) : Nat := if size ≤ place + 1 then 0 else place + 1

theorem advanceMod {size place : Nat} (inside : place < size) : advance size place = (place + 1) % size := by
  unfold advance
  split
  · have last : place + 1 = size := by omega
    rw [last,Nat.mod_self]
  · exact (Nat.mod_eq_of_lt (by omega)).symm

/- Different distances from one place lead to different places. -/
theorem placeInjective {size front i j : Nat} (first : i < size) (second : j < size)
    (same : (front + i) % size = (front + j) % size) : i = j :=
  (Nat.ModEq.add_left_cancel' front same).eq_of_lt_of_lt first second

theorem advanceInside {size place : Nat} (inside : place < size) : advance size place < size := by
  unfold advance
  split <;> omega

namespace Buffer
variable (r : Buffer α)

theorem positive : 0 < r.cells.length := Nat.zero_lt_of_lt r.inside

theorem backInside : r.back < r.cells.length := Nat.mod_lt _ r.positive

theorem lengthContents : r.contents.length = r.used := by
  rw [contents,List.length_take,List.length_rotate]
  exact Nat.min_eq_left r.room

/- An empty and a full queue look alike from the two places alone. -/
theorem backFront : r.back = r.front ↔ r.used = 0 ∨ r.used = r.cells.length := by
  have inside := r.inside
  have room := r.room
  unfold back
  by_cases wraps : r.front + r.used < r.cells.length
  · rw [Nat.mod_eq_of_lt wraps]
    omega
  · rw [Nat.mod_eq_sub_mod (by omega),Nat.mod_eq_of_lt (by omega)]
    omega

/- Element `i` of the queue. -/
theorem cell (i : Nat) (within : i < r.used) : r.contents[i]? = r.cells[(i + r.front) % r.cells.length]? := by
  rw [contents,List.getElem?_take_of_lt within]
  exact List.getElem?_rotate (Nat.lt_of_lt_of_le within r.room)

def empty (cells : List α) (some : 0 < cells.length) : Buffer α := ⟨cells,0,0,some,Nat.zero_le _⟩

theorem contentsEmpty (cells : List α) (some : 0 < cells.length) : (empty cells some).contents = [] := List.take_zero

def push (a : α) (free : r.used < r.cells.length) : Buffer α where
  cells := r.cells.set r.back a
  front := r.front
  used := r.used + 1
  inside := by rw [List.length_set]; exact r.inside
  room := by rw [List.length_set]; exact free

theorem contentsPush (a : α) (free : r.used < r.cells.length) : (r.push a free).contents = r.contents ++ [a] := by
  have inside := r.inside
  apply List.ext_getElem?
  intro i
  by_cases within : i < r.used + 1
  · rw [cell (r.push a free) i within]
    simp only [push,List.length_set]
    by_cases last : i = r.used
    · subst last
      rw [show (r.used + r.front) % r.cells.length = r.back from by rw [back,Nat.add_comm],
        List.getElem?_set_self r.backInside,List.getElem?_append_right (by rw [lengthContents])]
      simp [lengthContents]
    · have old : i < r.used := by omega
      have apart : r.back ≠ (i + r.front) % r.cells.length := by
        rw [back,Nat.add_comm i]
        intro same
        exact last (placeInjective (by omega) (by omega) same).symm
      rw [List.getElem?_set_ne apart,List.getElem?_append_left (by rw [lengthContents]; exact old),cell r i old]
  · rw [List.getElem?_eq_none (by rw [lengthContents]; simp only [push]; omega),
      List.getElem?_eq_none (by rw [List.length_append,lengthContents,List.length_singleton]; omega)]

theorem backPush (a : α) (free : r.used < r.cells.length) :
    (r.push a free).back = advance r.cells.length r.back := by
  rw [advanceMod r.backInside]
  simp only [back,push,List.length_set]
  rw [Nat.mod_add_mod,Nat.add_assoc]

/- The oldest element is left where it is. -/
def pop (_ : 0 < r.used) : Buffer α where
  cells := r.cells
  front := advance r.cells.length r.front
  used := r.used - 1
  inside := advanceInside r.inside
  room := by have := r.room; omega

theorem contentsPop (some : 0 < r.used) : r.contents = r.cells.get ⟨r.front,r.inside⟩ :: (r.pop some).contents := by
  apply List.ext_getElem?
  intro i
  by_cases within : i < r.used
  · rw [cell r i within]
    cases i with
    | zero => simp [Nat.mod_eq_of_lt r.inside,List.getElem?_eq_getElem r.inside]
    | succ i =>
      rw [List.getElem?_cons_succ,cell (r.pop some) i (by simp only [pop]; omega)]
      simp only [pop,advanceMod r.inside]
      rw [Nat.add_mod_mod,Nat.add_assoc,Nat.add_comm 1]
  · rw [List.getElem?_eq_none (by rw [lengthContents]; omega),
      List.getElem?_eq_none (by rw [List.length_cons,lengthContents]; simp only [pop]; omega)]

theorem backPop (some : 0 < r.used) : (r.pop some).back = r.back := by
  simp only [back,pop,advanceMod r.inside]
  rw [Nat.mod_add_mod,show r.front + 1 + (r.used - 1) = r.front + r.used from by omega]

end Buffer
end HsspProgrammer.RingBuffer
