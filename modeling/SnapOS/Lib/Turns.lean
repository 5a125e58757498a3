/- Whose turn comes first in a queue that is rotated. -/
import Mathlib.Data.List.Rotate

namespace SnapOS.Lib

variable {α : Type*} {u x a : α} {q : List α}

/-- `u` is in the queue and `x` is not before it. -/
def Ahead (u x : α) (q : List α) : Prop := ∃ front back, q = front ++ u :: back ∧ x ∉ front

namespace Ahead

theorem of_not_mem (inside : u ∈ q) (outside : x ∉ q) : Ahead u x q := by
  obtain ⟨front, back, rfl⟩ := List.append_of_mem inside
  exact ⟨front, back, rfl, fun before => outside (List.mem_append_left _ before)⟩

theorem mem (h : Ahead u x q) : u ∈ q := by
  obtain ⟨front, back, rfl, _⟩ := h
  exact List.mem_append_right front List.mem_cons_self

theorem append (h : Ahead u x q) (tail : List α) : Ahead u x (q ++ tail) := by
  obtain ⟨front, back, rfl, before⟩ := h
  exact ⟨front, back ++ tail, by simp, before⟩

theorem tail (h : Ahead u x (a :: q)) (other : a ≠ u) : a ≠ x ∧ Ahead u x q := by
  obtain ⟨front, back, split, before⟩ := h
  cases front with
  | nil => exact absurd (List.cons.inj split).1 other
  | cons b front =>
      obtain ⟨rfl, rfl⟩ := List.cons.inj split
      rw [List.mem_cons, not_or] at before
      exact ⟨fun same => before.1 same.symm, front, back, rfl, before.2⟩

theorem head?_ne (h : Ahead u x q) (apart : u ≠ x) : q.head? ≠ some x := by
  obtain ⟨front, back, rfl, before⟩ := h
  cases front with
  | nil => simpa using apart
  | cons b front =>
      rw [List.mem_cons, not_or] at before
      simpa using fun same : b = x => before.1 same.symm

/-- A rotation keeps the order unless it passes over `u` itself. -/
theorem rotate (h : Ahead u x q) (passed : q.head? = some u → x ∉ q) : Ahead u x (q.rotate 1) := by
  cases q with
  | nil => cases h.mem
  | cons b rest =>
      by_cases first : b = u
      · subst first
        have outside : x ∉ (b :: rest).rotate 1 := by
          rw [List.mem_rotate]
          exact passed rfl
        exact of_not_mem (List.mem_rotate.mpr h.mem) outside
      · rw [List.rotate_cons_succ, List.rotate_zero]
        exact (h.tail first).2.append [b]

theorem rotate_self {rest : List α} (distinct : (x :: rest).Nodup) (inside : u ∈ rest) :
    Ahead u x ((x :: rest).rotate 1) := by
  rw [List.rotate_cons_succ, List.rotate_zero]
  exact (of_not_mem inside (List.nodup_cons.mp distinct).1).append [x]

end Ahead
end SnapOS.Lib
