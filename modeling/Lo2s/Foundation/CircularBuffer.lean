import Mathlib.Tactic.Common

/-!
# Circular memory

A memory of `size` cells is addressed by positions modulo its size, so that a
window may run over its end and continue at its beginning.  A write changes a
window and nothing else within one lap around the memory.
-/

namespace Foundation

/-- A circular memory: the cell at each position below the size. -/
abbrev Circular (β : Type u) := Nat → β

namespace Circular

variable {β : Type u}

/-- The cells of a window. -/
def window (memory : Circular β) (size pos len : Nat) : List β :=
  (List.range len).map fun i => memory ((pos + i) % size)

/-- How far a cell lies behind a position. -/
def behind (size pos cell : Nat) : Nat := (cell + size - pos % size) % size

/-- The memory with the cells of a window replaced. -/
def write (memory : Circular β) (size pos : Nat) (cells : List β) :
    Circular β :=
  fun cell => cells[behind size pos cell]?.getD (memory cell)

@[simp] theorem length_window (memory : Circular β) (size pos len : Nat) :
    (window memory size pos len).length = len := by
  simp [window]

theorem getElem?_window (memory : Circular β) (size pos len : Nat) {i : Nat}
    (inside : i < len) :
    (window memory size pos len)[i]? = some (memory ((pos + i) % size)) := by
  simp [window, inside]

theorem window_mod (memory : Circular β) (size pos len : Nat) :
    window memory size (pos % size) len = window memory size pos len := by
  simp [window]

theorem write_mod (memory : Circular β) (size pos : Nat) (cells : List β) :
    write memory size (pos % size) cells = write memory size pos cells := by
  funext cell
  rw [write, write, behind, behind, Nat.mod_mod]

theorem window_congr (memory : Circular β) {size left right : Nat}
    (same : left % size = right % size) (len : Nat) :
    window memory size left len = window memory size right len := by
  rw [← window_mod, same, window_mod]

theorem write_congr (memory : Circular β) {size left right : Nat}
    (same : left % size = right % size) (cells : List β) :
    write memory size left cells = write memory size right cells := by
  rw [← write_mod, same, write_mod]

theorem take_window (memory : Circular β) (size pos : Nat) {len count : Nat}
    (within : count ≤ len) :
    (window memory size pos len).take count = window memory size pos count := by
  rw [window, ← List.map_take, List.take_range, Nat.min_eq_left within]
  rfl

theorem window_add (memory : Circular β) (size pos first second : Nat) :
    window memory size pos (first + second) =
      window memory size pos first ++
        window memory size (pos + first) second := by
  simp [window, List.range_add, Nat.add_assoc]

theorem drop_window (memory : Circular β) (size pos : Nat) {len count : Nat}
    (within : count ≤ len) :
    (window memory size pos len).drop count =
      window memory size (pos + count) (len - count) := by
  have split : len = count + (len - count) := by omega
  rw [split, window_add, List.drop_left' (by simp)]
  simp

/-- The distance of a cell that is addressed relative to a position. -/
theorem behind_add {size : Nat} (positive : 0 < size) (pos i : Nat) :
    behind size pos ((pos + i) % size) = i % size := by
  have small := Nat.mod_lt pos positive
  have index := Nat.mod_lt (pos + i) positive
  rw [behind]
  have split : (pos + i) % size + size - pos % size =
      ((pos + i) % size + (size - pos % size)) := by omega
  rw [split, Nat.mod_add_mod]
  have total : pos + i + (size - pos % size) =
      i + size * (pos / size + 1) := by
    have decomposed := Nat.div_add_mod pos size
    rw [Nat.mul_add, Nat.mul_one]
    omega
  rw [total, Nat.add_mul_mod_self_left]

theorem window_write_self (memory : Circular β) {size : Nat} (pos : Nat)
    {cells : List β} (fits : cells.length ≤ size) :
    window (write memory size pos cells) size pos cells.length = cells := by
  apply List.ext_getElem?
  intro i
  by_cases inside : i < cells.length
  · have positive : 0 < size := by omega
    have index : i % size = i := Nat.mod_eq_of_lt (by omega)
    rw [getElem?_window _ _ _ _ inside, write, behind_add positive, index,
      List.getElem?_eq_getElem inside, Option.getD_some]
  · rw [List.getElem?_eq_none (by simpa using inside),
      List.getElem?_eq_none (by simpa using inside)]

/-- A write leaves the windows in front of it alone, up to one lap back. -/
theorem window_write_of_disjoint (memory : Circular β) {size pos : Nat}
    {cells : List β} {start len : Nat} (front : start + len ≤ pos)
    (lap : pos + cells.length ≤ start + size) :
    window (write memory size pos cells) size start len =
      window memory size start len := by
  apply List.map_congr_left
  intro i member
  have inside : i < len := List.mem_range.mp member
  -- Seen from the write, the cell lies behind its last one.
  by_cases positive : 0 < size
  · have gap : behind size pos ((start + i) % size) =
        (start + i + size - pos) := by
      have shifted : (start + i) % size =
          (pos + (start + i + size - pos)) % size := by
        rw [Nat.add_sub_cancel' (by omega), Nat.add_mod_right]
      rw [shifted, behind_add positive]
      exact Nat.mod_eq_of_lt (by omega)
    rw [write, gap, List.getElem?_eq_none (by omega), Option.getD_none]
  · omega

theorem window_write_inside (memory : Circular β) {size pos len : Nat}
    {front old cells back : List β} (fits : len ≤ size)
    (content : window memory size pos len = front ++ old ++ back)
    (same : cells.length = old.length) :
    window (write memory size (pos + front.length) cells) size pos len =
      front ++ cells ++ back := by
  have length := congrArg List.length content
  rw [length_window, List.length_append, List.length_append] at length
  have split : len = front.length + cells.length + back.length := by omega
  rw [split, window_add, window_add] at content ⊢
  obtain ⟨start, rear⟩ := List.append_inj content (by simp [same])
  have before := (List.append_inj start (by simp)).1
  rw [window_write_of_disjoint _ (Nat.le_refl _) (by omega),
    window_write_self _ _ (by omega), before]
  -- The part behind is in front of the write when seen one lap later.
  have lap : (pos + front.length) % size = (pos + front.length + size) % size :=
    (Nat.add_mod_right _ _).symm
  rw [write_congr _ lap, window_write_of_disjoint _ (by omega) (by omega), rear]

end Circular

end Foundation
