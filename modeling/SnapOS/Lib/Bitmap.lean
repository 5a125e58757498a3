/- Bitmaps stored in bytes: one bit addressed by its index, and runs of bits. -/
import Mathlib.Logic.Function.Basic
import Mathlib.Tactic.IntervalCases

namespace SnapOS.Lib

abbrev Bitmap := Nat → BitVec 8

namespace Bitmap

def bit (m : Bitmap) (i : Nat) : Bool := (m (i / 8)).getLsbD (i % 8)

/-- `m[i / 8] |= 1 << (i % 8)` -/
def setBit (m : Bitmap) (i : Nat) : Bitmap :=
  Function.update m (i / 8) (m (i / 8) ||| (1#8 <<< (i % 8)))

/-- `m[i / 8] &= ~(1 << (i % 8))` -/
def clearBit (m : Bitmap) (i : Nat) : Bitmap :=
  Function.update m (i / 8) (m (i / 8) &&& ~~~(1#8 <<< (i % 8)))

/-- Test of one bit by masking, as the byte expression `m[i] & (1 << b)` is used in conditions. -/
def masked (byte : BitVec 8) (b : Nat) : Bool := byte &&& (1#8 <<< b) != 0#8

theorem getLsbD_one_shiftLeft {b c : Nat} (hc : c < 8) :
    (1#8 <<< b).getLsbD c = decide (b = c) := by
  rw [BitVec.getLsbD_shiftLeft, BitVec.getLsbD_one]
  by_cases same : b = c
  · subst same
    simp [hc]
  · by_cases below : c < b
    · simp [below, same]
    · have : c - b ≠ 0 := by omega
      simp [same, this]

theorem masked_eq (byte : BitVec 8) {b : Nat} (hb : b < 8) : masked byte b = byte.getLsbD b := by
  rw [Bool.eq_iff_iff, masked, bne_iff_ne]
  constructor
  · intro nonzero
    by_contra clear
    apply nonzero
    apply BitVec.eq_of_getLsbD_eq
    intro c hc
    rw [BitVec.getLsbD_and, getLsbD_one_shiftLeft hc, BitVec.getLsbD_zero]
    by_cases same : b = c
    · subst same
      simpa using clear
    · simp [same]
  · intro set zero
    have hbit := congrArg (BitVec.getLsbD · b) zero
    simp only [BitVec.getLsbD_and, getLsbD_one_shiftLeft hb, BitVec.getLsbD_zero] at hbit
    simp [set] at hbit

theorem masked_bit (m : Bitmap) (i : Nat) : masked (m (i / 8)) (i % 8) = m.bit i :=
  masked_eq _ (Nat.mod_lt _ (by decide))

theorem bit_setBit (m : Bitmap) (i j : Nat) : (m.setBit i).bit j = (m.bit j || decide (i = j)) := by
  have hj : j % 8 < 8 := Nat.mod_lt _ (by decide)
  unfold bit setBit
  by_cases sameByte : j / 8 = i / 8
  · rw [sameByte, Function.update_self, BitVec.getLsbD_or, getLsbD_one_shiftLeft hj]
    have : i % 8 = j % 8 ↔ i = j := by omega
    simp only [this]
  · have : i ≠ j := fun h => sameByte (by rw [h])
    rw [Function.update_of_ne sameByte]
    simp [this]

theorem bit_clearBit (m : Bitmap) (i j : Nat) :
    (m.clearBit i).bit j = (m.bit j && decide (i ≠ j)) := by
  have hj : j % 8 < 8 := Nat.mod_lt _ (by decide)
  unfold bit clearBit
  by_cases sameByte : j / 8 = i / 8
  · rw [sameByte, Function.update_self, BitVec.getLsbD_and, BitVec.getLsbD_not,
      getLsbD_one_shiftLeft hj]
    have : i % 8 = j % 8 ↔ i = j := by omega
    simp [this, hj]
  · have : i ≠ j := fun h => sameByte (by rw [h])
    rw [Function.update_of_ne sameByte]
    simp [this]

theorem eq_full_iff (byte : BitVec 8) : byte = 0xff#8 ↔ ∀ b < 8, byte.getLsbD b = true := by
  constructor
  · rintro rfl b hb
    interval_cases b <;> rfl
  · intro all
    apply BitVec.eq_of_getLsbD_eq
    intro b hb
    rw [all b hb]
    interval_cases b <;> rfl

theorem ext {m n : Bitmap} (same : ∀ i, m.bit i = n.bit i) : m = n := by
  funext k
  apply BitVec.eq_of_getLsbD_eq
  intro b hb
  have := same (8 * k + b)
  unfold bit at this
  rwa [show (8 * k + b) / 8 = k by omega, show (8 * k + b) % 8 = b by omega] at this

/-- The loop `for (i = start; i < start + count; i++)` over the bits of a run. -/
def setBits (m : Bitmap) (start : Nat) : Nat → Bitmap
  | 0 => m
  | count + 1 => setBits (m.setBit start) (start + 1) count

def clearBits (m : Bitmap) (start : Nat) : Nat → Bitmap
  | 0 => m
  | count + 1 => clearBits (m.clearBit start) (start + 1) count

theorem bit_setBits (m : Bitmap) (start count j : Nat) :
    (m.setBits start count).bit j = (m.bit j || decide (start ≤ j ∧ j < start + count)) := by
  induction count generalizing m start with
  | zero =>
      have : ¬ (start ≤ j ∧ j < start + 0) := by omega
      simp only [setBits, this, decide_false, Bool.or_false]
  | succ count ih =>
      rw [setBits, ih, bit_setBit, Bool.or_assoc, ← Bool.decide_or]
      congr 2
      apply propext
      omega

theorem bit_clearBits (m : Bitmap) (start count j : Nat) :
    (m.clearBits start count).bit j = (m.bit j && decide (¬ (start ≤ j ∧ j < start + count))) := by
  induction count generalizing m start with
  | zero =>
      have : ¬ (start ≤ j ∧ j < start + 0) := by omega
      simp only [clearBits, this, not_false_eq_true, decide_true, Bool.and_true]
  | succ count ih =>
      rw [clearBits, ih, bit_clearBit, Bool.and_assoc, ← Bool.decide_and]
      congr 2
      apply propext
      omega

/-- Bytes `start` to `start + count - 1` are overwritten with zero. -/
def zeroBytes (m : Bitmap) (start : Nat) : Nat → Bitmap
  | 0 => m
  | count + 1 => zeroBytes (Function.update m start 0x00#8) (start + 1) count

/-- `memset(m, 0xFF, size)` -/
def fillBytes (m : Bitmap) (size : Nat) : Bitmap := fun k => if k < size then 0xff#8 else m k

theorem bit_zeroBytes (m : Bitmap) (start count j : Nat) :
    (m.zeroBytes start count).bit j =
      (m.bit j && decide (¬ (8 * start ≤ j ∧ j < 8 * (start + count)))) := by
  induction count generalizing m start with
  | zero =>
      have : ¬ (8 * start ≤ j ∧ j < 8 * (start + 0)) := by omega
      simp only [zeroBytes, this, not_false_eq_true, decide_true, Bool.and_true]
  | succ count ih =>
      rw [zeroBytes, ih]
      by_cases here : j / 8 = start
      · have cleared : bit (Function.update m start 0x00#8) j = false := by
          rw [bit, here, Function.update_self, BitVec.getLsbD_zero]
        have inside : 8 * start ≤ j ∧ j < 8 * (start + (count + 1)) := by omega
        simp [cleared, inside]
      · have kept : bit (Function.update m start 0x00#8) j = m.bit j := by
          rw [bit, bit, Function.update_of_ne here]
        rw [kept]
        congr 2
        apply propext
        omega

theorem bit_fillBytes {m : Bitmap} {size j : Nat} (inside : j < 8 * size) :
    (m.fillBytes size).bit j = true := by
  have : j / 8 < size := by omega
  have full := (eq_full_iff 0xff#8).mp rfl (j % 8) (Nat.mod_lt _ (by decide))
  simpa only [bit, fillBytes, this, if_true] using full

end Bitmap
end SnapOS.Lib
