/- Spans of addresses, and a span cut into pieces of at most a given length. -/
import Mathlib.Algebra.Order.Group.Nat
import Mathlib.Data.List.Basic
import Mathlib.Data.Nat.Init

namespace SnapOS.Lib

structure Span where
  start : Nat
  length : Nat
deriving DecidableEq, Repr

namespace Span

def addresses (s : Span) : List Nat := List.range' s.start s.length

def pieces (limit length : Nat) : Nat := (length + (limit - 1)) / limit

def cut (limit : Nat) (s : Span) : List Span :=
  (List.range (pieces limit s.length)).map fun i => ⟨s.start + i * limit, min limit (s.length - i * limit)⟩

variable {limit : Nat}

theorem length_cut (limit : Nat) (s : Span) : (s.cut limit).length = pieces limit s.length := by
  rw [cut, List.length_map, List.length_range]

section Recursion

variable (positive : 0 < limit)
include positive

theorem pieces_zero : pieces limit 0 = 0 := Nat.div_eq_of_lt (by omega)

theorem pieces_pos {length : Nat} (some : 0 < length) :
    pieces limit length = pieces limit (length - min limit length) + 1 := by
  rw [pieces, pieces]
  rcases Nat.le_total limit length with long | short
  · rw [Nat.min_eq_left long, ← Nat.add_div_right _ positive]
    congr 1
    omega
  · rw [Nat.min_eq_right short, Nat.sub_self, Nat.zero_add, Nat.div_eq_of_lt (show limit - 1 < limit by omega),
      Nat.zero_add]
    exact Nat.div_eq_of_lt_le (by omega) (by omega)

theorem cut_empty (start : Nat) : cut limit ⟨start, 0⟩ = [] := by
  rw [cut, pieces_zero positive, List.range_zero, List.map_nil]

theorem cut_cons {start length : Nat} (some : 0 < length) : cut limit ⟨start, length⟩ =
    ⟨start, min limit length⟩ :: cut limit ⟨start + min limit length, length - min limit length⟩ := by
  simp only [cut, pieces_pos positive some, List.range_succ_eq_map, List.map_cons, Nat.zero_mul, Nat.add_zero,
    Nat.sub_zero, List.map_map]
  refine congrArg _ (List.map_congr_left fun i inside => ?_)
  have counted := List.mem_range.mp inside
  rcases Nat.le_total limit length with long | short
  · simp only [Function.comp_apply, Nat.succ_mul, Nat.min_eq_left long, mk.injEq]
    exact ⟨by omega, congrArg _ (by omega)⟩
  · rw [Nat.min_eq_right short, Nat.sub_self, pieces_zero positive] at counted
    exact absurd counted (Nat.not_lt_zero i)

/-- A rule for all cuts: nothing is left, or a piece is cut off and the rest is cut. -/
theorem cut_induction {motive : Nat → Nat → Prop} (empty : ∀ start, motive start 0)
    (piece : ∀ start length, 0 < length →
      motive (start + min limit length) (length - min limit length) → motive start length)
    (start length : Nat) : motive start length := by
  induction length using Nat.strongRecOn generalizing start with
  | ind length ih =>
      rcases Nat.eq_zero_or_pos length with rfl | some
      · exact empty start
      · exact piece start length some (ih _ (by omega) _)

theorem addresses_cut (s : Span) : (s.cut limit).flatMap addresses = s.addresses := by
  obtain ⟨start, length⟩ := s
  induction start, length using cut_induction positive with
  | empty start => rw [cut_empty positive]; rfl
  | piece start length some ih =>
      rw [cut_cons positive some, List.flatMap_cons, ih]
      rw [addresses, addresses, List.range'_append_1, Nat.add_sub_cancel' (Nat.min_le_right _ _), addresses]

/-- No piece is empty or too long, or reaches out of the span. -/
theorem mem_cut {s p : Span} (member : p ∈ s.cut limit) :
    1 ≤ p.length ∧ p.length ≤ limit ∧ s.start ≤ p.start ∧ p.start + p.length ≤ s.start + s.length := by
  obtain ⟨start, length⟩ := s
  induction start, length using cut_induction positive with
  | empty start =>
      rw [cut_empty positive] at member
      cases member
  | piece start length some ih =>
      rw [cut_cons positive some, List.mem_cons] at member
      rcases member with rfl | later
      · exact ⟨Nat.le_min.mpr ⟨positive, some⟩, Nat.min_le_left _ _, le_rfl,
          Nat.add_le_add_left (Nat.min_le_right _ _) _⟩
      · obtain ⟨nonempty, atMost, after, inside⟩ := ih later
        have := Nat.min_le_right limit length
        simp only at after inside ⊢
        omega

end Recursion

end Span

end SnapOS.Lib
