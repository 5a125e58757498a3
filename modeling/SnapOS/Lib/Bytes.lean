/- Byte memory with little-endian words of any width. -/
import Mathlib.Algebra.Group.Nat.Defs
import Mathlib.Data.Nat.Basic

namespace SnapOS.Lib

abbrev Memory := Nat → UInt8

namespace Memory

def load (m : Memory) (a : Nat) : Nat → Nat
  | 0 => 0
  | n + 1 => (m a).toNat + 256 * load m (a + 1) n

def store (m : Memory) (a n v : Nat) : Memory := fun b =>
  if a ≤ b ∧ b < a + n then UInt8.ofNat (v / 256 ^ (b - a)) else m b

def overwrite (m : Memory) (a n : Nat) (src : Memory) : Memory := fun b =>
  if a ≤ b ∧ b < a + n then src (b - a) else m b

theorem overwrite_inside {m src : Memory} {a n b : Nat} (low : a ≤ b) (high : b < a + n) :
    m.overwrite a n src b = src (b - a) := if_pos ⟨low, high⟩

theorem overwrite_outside {m src : Memory} {a n b : Nat} (outside : b < a ∨ a + n ≤ b) :
    m.overwrite a n src b = m b := if_neg (by omega)

theorem load_congr {m m' : Memory} {a n : Nat} (same : ∀ b, a ≤ b → b < a + n → m b = m' b) :
    m.load a n = m'.load a n := by
  induction n generalizing a with
  | zero => rfl
  | succ n ih =>
      rw [load, load, same a le_rfl (by omega), ih fun b low high => same b (by omega) (by omega)]

theorem store_outside {m : Memory} {a n v b : Nat} (outside : b < a ∨ a + n ≤ b) :
    m.store a n v b = m b :=
  if_neg (by omega)

theorem load_store_apart {m : Memory} {a n v b k : Nat} (apart : b + k ≤ a ∨ a + n ≤ b) :
    (m.store a n v).load b k = m.load b k :=
  load_congr fun _ low high => store_outside (by omega)

theorem load_store (m : Memory) (a n v : Nat) : (m.store a n v).load a n = v % 256 ^ n := by
  suffices tail : ∀ k i, i + k = n → (m.store a n v).load (a + i) k = v / 256 ^ i % 256 ^ k by
    simpa using tail n 0 (Nat.zero_add n)
  intro k
  induction k with
  | zero =>
      intro i _
      rw [load, Nat.pow_zero, Nat.mod_one]
  | succ k ih =>
      intro i total
      have byte : m.store a n v (a + i) = UInt8.ofNat (v / 256 ^ i) := by
        rw [store, if_pos ⟨Nat.le_add_right a i, by omega⟩, Nat.add_sub_cancel_left]
      have next : v / 256 ^ (i + 1) = v / 256 ^ i / 256 := by
        rw [Nat.pow_succ, Nat.div_div_eq_div_mul]
      rw [load, byte, Nat.add_assoc, ih (i + 1) (by omega), UInt8.toNat_ofNat', next,
        Nat.pow_succ 256 k, Nat.mul_comm (256 ^ k) 256, Nat.mod_mul]

theorem load_lt (m : Memory) (a n : Nat) : m.load a n < 256 ^ n := by
  induction n generalizing a with
  | zero => exact Nat.one_pos
  | succ n ih =>
      have byte := (m a).toNat_lt
      have rest := ih (a + 1)
      rw [load, Nat.pow_succ]
      omega

theorem load_shift (m : Memory) (base a n : Nat) : load (fun i => m (base + i)) a n = m.load (base + a) n := by
  induction n generalizing a with
  | zero => rfl
  | succ n ih => rw [load, load, ih, Nat.add_assoc]

theorem load_one (m : Memory) (a : Nat) : m.load a 1 = (m a).toNat := by
  simp [load]

end Memory
end SnapOS.Lib
