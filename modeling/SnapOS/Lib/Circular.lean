/- The window of a circular buffer: `len` cells from `head` on, taken modulo the capacity. -/
import Mathlib.Data.List.Basic
import Mathlib.Data.Nat.ModEq

namespace SnapOS.Lib

variable {α : Type*}

/-- The cells of the window in order. The buffer is a total function; only the indices below
the capacity are ever addressed. -/
def window (cap : Nat) (buffer : Nat → α) (head len : Nat) : List α :=
  (List.range len).map fun i => buffer ((head + i) % cap)

@[simp] theorem length_window (cap : Nat) (buffer : Nat → α) (head len : Nat) :
    (window cap buffer head len).length = len := by
  simp [window]

@[simp] theorem window_zero (cap : Nat) (buffer : Nat → α) (head : Nat) :
    window cap buffer head 0 = [] := rfl

theorem window_succ_last (cap : Nat) (buffer : Nat → α) (head len : Nat) :
    window cap buffer head (len + 1) =
      window cap buffer head len ++ [buffer ((head + len) % cap)] := by
  simp [window, List.range_succ]

theorem window_succ_first (cap : Nat) (buffer : Nat → α) (head len : Nat) :
    window cap buffer head (len + 1) =
      buffer (head % cap) :: window cap buffer (head + 1) len := by
  simp only [window, List.range_succ_eq_map, List.map_cons, List.map_map, Nat.add_zero]
  congr 1
  apply List.map_congr_left
  intro i _
  simp only [Function.comp_apply, Nat.succ_eq_add_one, Nat.add_assoc, Nat.add_comm 1]

theorem window_take (cap : Nat) (buffer : Nat → α) (head len n : Nat) :
    (window cap buffer head len).take n = window cap buffer head (min n len) := by
  simp only [window, ← List.map_take, List.take_range]

theorem window_congr {cap : Nat} {buffer other : Nat → α} {head len : Nat}
    (same : ∀ i < len, buffer ((head + i) % cap) = other ((head + i) % cap)) :
    window cap buffer head len = window cap other head len := by
  apply List.map_congr_left
  intro i hi
  exact same i (List.mem_range.mp hi)

/-- Splitting the window at an offset; the second part starts at the advanced head. -/
theorem window_add (cap : Nat) (buffer : Nat → α) (head m n : Nat) :
    window cap buffer head (m + n) =
      window cap buffer head m ++ window cap buffer ((head + m) % cap) n := by
  simp only [window, List.range_add, List.map_append, List.map_map]
  congr 1
  apply List.map_congr_left
  intro i _
  simp only [Function.comp_apply, Nat.mod_add_mod, Nat.add_assoc]

theorem window_update_behind {cap : Nat} (buffer : Nat → α) {head len : Nat}
    (room : len < cap) (v : α) :
    window cap (Function.update buffer ((head + len) % cap) v) head len =
      window cap buffer head len := by
  apply window_congr
  intro i hi
  apply Function.update_of_ne
  intro same
  have hmod : (i : Nat) ≡ len [MOD cap] := Nat.ModEq.add_left_cancel' head same
  have : i = len := Nat.ModEq.eq_of_lt_of_lt hmod (by omega) room
  omega

theorem window_push {cap : Nat} (buffer : Nat → α) (head : Nat) {len : Nat} (room : len < cap) (v : α) :
    window cap (Function.update buffer ((head + len) % cap) v) head (len + 1) =
      window cap buffer head len ++ [v] := by
  rw [window_succ_last, window_update_behind buffer room, Function.update_self]

end SnapOS.Lib
