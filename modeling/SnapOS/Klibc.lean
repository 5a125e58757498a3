/- What the kernel and the boot loader use of their C libraries. -/
import SnapOS.Lib.Buffer
import SnapOS.Platform

namespace SnapOS
open SnapOS.Lib

/-- A byte of a string. Behind its last byte stands the terminator. -/
def charAt (s : List UInt8) (i : Nat) : UInt8 := s.getD i 0

/-- `memcmp` from byte `i` on, for `n` more bytes. -/
def memcmp (s1 s2 : Nat → Exec UInt8) : Nat → Nat → Exec Int
  | _, 0 => .ok 0
  | i, n + 1 => do
      let a ← s1 i
      let b ← s2 i
      if a ≠ b then .ok (a.toNat - b.toNat) else memcmp s1 s2 (i + 1) n

/-- `memcmp` reads up to the first bytes that differ. Where these can be read, it is zero exactly for equal bytes. -/
theorem memcmp_reads {s1 s2 : Nat → Exec UInt8} {f g : Nat → UInt8} {i n : Nat}
    (reads : ∀ j, i ≤ j → j < i + n → (∀ l, i ≤ l → l < j → f l = g l) → s1 j = .ok (f j) ∧ s2 j = .ok (g j)) :
    ∃ r, memcmp s1 s2 i n = .ok r ∧ (r = 0 ↔ ∀ j, i ≤ j → j < i + n → f j = g j) := by
  induction n generalizing i with
  | zero => exact ⟨0, rfl, ⟨fun _ j low high => absurd low (by omega), fun _ => rfl⟩⟩
  | succ n ih =>
      obtain ⟨first, second⟩ := reads i le_rfl (by omega) fun l low high => absurd low (by omega)
      rw [memcmp, first, second, Exec.ok_bind, Exec.ok_bind]
      by_cases same : f i = g i
      · have upTo {j : Nat} (later : ∀ l, i + 1 ≤ l → l < j → f l = g l) (l : Nat) (low : i ≤ l) (high : l < j) :
            f l = g l := by
          rcases Nat.eq_or_lt_of_le low with rfl | behind
          · exact same
          · exact later l behind high
        obtain ⟨r, result, zero⟩ := @ih (i + 1) fun j low high later => reads j (by omega) (by omega) (upTo later)
        rw [if_neg (not_not.mpr same)]
        refine ⟨r, result, zero.trans ⟨fun all j low high => ?_, fun all j low high => all j (by omega) (by omega)⟩⟩
        exact upTo (fun l low high => all l low (by omega)) j low high
      · rw [if_pos same]
        refine ⟨_, rfl, ⟨fun zero => absurd ?_ same, fun all => absurd (all i le_rfl (by omega)) same⟩⟩
        exact UInt8.toNat_inj.mp (by omega)

theorem memcmp_ok {s1 s2 : Nat → Exec UInt8} {f g : Nat → UInt8} {i n : Nat}
    (first : ∀ j, i ≤ j → j < i + n → s1 j = .ok (f j)) (second : ∀ j, i ≤ j → j < i + n → s2 j = .ok (g j)) :
    ∃ r, memcmp s1 s2 i n = .ok r ∧ (r = 0 ↔ ∀ j, i ≤ j → j < i + n → f j = g j) :=
  memcmp_reads fun j low high _ => ⟨first j low high, second j low high⟩

theorem memcmp_ne_error {s1 s2 : Nat → Exec UInt8} {e : Fault} (first : ∀ i, s1 i ≠ .error e)
    (second : ∀ i, s2 i ≠ .error e) (i n : Nat) : memcmp s1 s2 i n ≠ .error e := by
  induction n generalizing i with
  | zero => rintro ⟨⟩
  | succ n ih =>
      refine Exec.bind_ne_error (first i) fun a _ => Exec.bind_ne_error (second i) fun b _ => ?_
      split_ifs
      · rintro ⟨⟩
      · exact ih (i + 1)

theorem memcmp_ends {s1 s2 : Nat → Exec UInt8} (first : ∀ i, (s1 i).Ends) (second : ∀ i, (s2 i).Ends) (i n : Nat) :
    (memcmp s1 s2 i n).Ends := memcmp_ne_error first second i n

end SnapOS
