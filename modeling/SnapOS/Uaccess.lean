/- The copies between kernel buffers and user addresses of uaccess.asm. -/
import Mathlib.Logic.Function.Basic
import SnapOS.Lib.Bytes
import SnapOS.Platform

namespace SnapOS.Uaccess
open SnapOS.Lib

/-- Bit 47. -/
def KernelHalf (a : Nat) : Prop := a / 2 ^ 47 % 2 = 1

instance (a : Nat) : Decidable (KernelHalf a) := inferInstanceAs (Decidable (_ = _))

/-- What the current page tables map, of both halves. They cannot map an address that is not canonical. -/
structure PageTables where
  mapped : Nat → Bool
  canonical : ∀ a, mapped a = true → a < 2 ^ 47 ∨ word64 - 2 ^ 47 ≤ a ∧ a < word64

def nextByte (a : Nat) : Nat := (a + 1) % word64

/-- `copy_to_user` stops at the first address that is not mapped. The result counts the bytes that are left. -/
def copyToUser (tables : PageTables) (mem : Memory) (dest : Nat) : List UInt8 → Memory × Nat
  | [] => (mem, 0)
  | b :: rest =>
      if tables.mapped dest then copyToUser tables (Function.update mem dest b) (nextByte dest) rest
      else (mem, rest.length + 1)

/-- `copy_from_user` fills what it could not copy with zeros. -/
def copyFromUser (tables : PageTables) (mem : Memory) (src : Nat) : Nat → List UInt8 × Nat
  | 0 => ([], 0)
  | n + 1 =>
      if tables.mapped src then
        let (bytes, uncopied) := copyFromUser tables mem (nextByte src) n
        (mem src :: bytes, uncopied)
      else (List.replicate (n + 1) 0, n + 1)

def PageTables.KernelTarget (tables : PageTables) (a : Nat) : Prop :=
  tables.mapped a = true ∧ KernelHalf a

instance (tables : PageTables) (a : Nat) : Decidable (tables.KernelTarget a) :=
  inferInstanceAs (Decidable (_ ∧ _))

def UserEq (mem mem' : Memory) : Prop := ∀ a, ¬ KernelHalf a → mem a = mem' a

variable {tables : PageTables}

theorem not_kernelHalf {a : Nat} (outside : ¬ tables.KernelTarget a) (mapped : tables.mapped a = true) :
    ¬ KernelHalf a :=
  fun half => outside ⟨mapped, half⟩

theorem not_kernelHalf_lt {a : Nat} (mapped : tables.mapped a = true) (low : ¬ KernelHalf a) : a < 2 ^ 47 := by
  rcases tables.canonical a mapped with user | ⟨bottom, top⟩
  · exact user
  · simp only [KernelHalf, word64] at low bottom top
    omega

/-- Above the user half come addresses that no table maps: a copy cannot run on into the kernel. -/
theorem nextByte_user {a : Nat} (outside : ¬ tables.KernelTarget a) (mapped : tables.mapped a = true) :
    nextByte a = a + 1 ∧ ¬ tables.KernelTarget (nextByte a) := by
  have user := not_kernelHalf_lt mapped (not_kernelHalf outside mapped)
  have next : nextByte a = a + 1 := Nat.mod_eq_of_lt (by simp only [word64]; omega)
  refine ⟨next, ?_⟩
  rw [next]
  rintro ⟨mapped', half⟩
  have := tables.canonical (a + 1) mapped'
  simp only [KernelHalf, word64] at half this
  omega

theorem copyToUser_kernel {dest : Nat} (outside : ¬ tables.KernelTarget dest) (mem : Memory)
    (bytes : List UInt8) {a : Nat} (half : KernelHalf a) : (copyToUser tables mem dest bytes).1 a = mem a := by
  induction bytes generalizing dest mem with
  | nil => rfl
  | cons b rest ih =>
      rw [copyToUser]
      split
      · next mapped =>
          rw [ih (nextByte_user outside mapped).2, Function.update_of_ne]
          rintro rfl
          exact not_kernelHalf outside mapped half
      · rfl

theorem nextByte_lt (a : Nat) : nextByte a < word64 := Nat.mod_lt _ (by decide)

theorem nextByte_add (a i : Nat) : (nextByte a + i) % word64 = (a + (i + 1)) % word64 := by
  rw [nextByte, Nat.mod_add_mod, Nat.add_assoc, Nat.add_comm 1 i]

theorem copyToUser_append {dest : Nat} (pointer : dest < word64) (mem : Memory) {front : List UInt8}
    (complete : (copyToUser tables mem dest front).2 = 0) (back : List UInt8) :
    copyToUser tables mem dest (front ++ back) =
      copyToUser tables (copyToUser tables mem dest front).1 ((dest + front.length) % word64) back := by
  induction front generalizing dest mem with
  | nil => rw [List.nil_append, List.length_nil, Nat.add_zero, Nat.mod_eq_of_lt pointer, copyToUser]
  | cons b rest ih =>
      rw [List.cons_append, copyToUser, copyToUser] at *
      split at complete
      · next mapped =>
          rw [if_pos mapped, if_pos mapped, ih (nextByte_lt _) _ complete, nextByte_add, List.length_cons]
      · cases complete

def userBytes (mem : Memory) (src n : Nat) : List UInt8 := (List.range n).map fun i => mem ((src + i) % word64)

theorem userBytes_succ {src : Nat} (pointer : src < word64) (mem : Memory) (n : Nat) :
    userBytes mem src (n + 1) = mem src :: userBytes mem (nextByte src) n := by
  rw [userBytes, List.range_succ_eq_map, List.map_cons, Nat.add_zero, Nat.mod_eq_of_lt pointer, List.map_map]
  exact congrArg _ (List.map_congr_left fun i _ => congrArg mem (nextByte_add src i).symm)

theorem copyToUser_apart {dest a : Nat} (pointer : dest < word64) (mem : Memory) (bytes : List UInt8)
    (apart : ∀ i < bytes.length, a ≠ (dest + i) % word64) : (copyToUser tables mem dest bytes).1 a = mem a := by
  induction bytes generalizing dest mem with
  | nil => rfl
  | cons b rest ih =>
      rw [copyToUser]
      split
      · rw [ih (nextByte_lt _), Function.update_of_ne]
        · have first := apart 0 (Nat.succ_pos _)
          rwa [Nat.add_zero, Nat.mod_eq_of_lt pointer] at first
        · intro i inside
          rw [nextByte_add]
          exact apart (i + 1) (Nat.succ_lt_succ inside)
      · rfl

theorem copyToUser_mapped {dest : Nat} (pointer : dest < word64) (mem : Memory) {bytes : List UInt8}
    (mapped : ∀ i < bytes.length, tables.mapped ((dest + i) % word64) = true) (short : bytes.length < word64) :
    (copyToUser tables mem dest bytes).2 = 0 ∧
      userBytes (copyToUser tables mem dest bytes).1 dest bytes.length = bytes := by
  induction bytes generalizing dest mem with
  | nil => exact ⟨rfl, rfl⟩
  | cons b rest ih =>
      have here := mapped 0 (Nat.succ_pos _)
      rw [Nat.add_zero, Nat.mod_eq_of_lt pointer] at here
      have later : ∀ i < rest.length, tables.mapped ((nextByte dest + i) % word64) = true := by
        intro i inside
        rw [nextByte_add]
        exact mapped (i + 1) (Nat.succ_lt_succ inside)
      obtain ⟨complete, stored⟩ := ih (nextByte_lt dest) (Function.update mem dest b) later (Nat.lt_of_succ_lt short)
      rw [copyToUser, if_pos here, List.length_cons, userBytes_succ pointer]
      refine ⟨complete, ?_⟩
      rw [stored, copyToUser_apart (nextByte_lt _), Function.update_self]
      -- the string is too short to come round to its first byte
      intro i inside
      rw [nextByte_add]
      simp only [word64, List.length_cons] at pointer short ⊢
      omega

theorem copyToUser_end {dest : Nat} (outside : ¬ tables.KernelTarget dest) {mem : Memory}
    {bytes : List UInt8} (complete : (copyToUser tables mem dest bytes).2 = 0) (some : bytes ≠ []) :
    ¬ tables.KernelTarget ((dest + bytes.length) % word64) := by
  induction bytes generalizing dest mem with
  | nil => exact absurd rfl some
  | cons b rest ih =>
      rw [copyToUser] at complete
      split at complete
      · next mapped =>
          obtain ⟨next, outside'⟩ := nextByte_user outside mapped
          cases rest with
          | nil => exact outside'
          | cons c rest =>
              have later := ih outside' complete (List.cons_ne_nil c rest)
              rwa [next, Nat.add_right_comm, Nat.add_assoc] at later
      · cases complete

theorem copyFromUser_congr {src : Nat} (outside : ¬ tables.KernelTarget src) {mem mem' : Memory}
    (same : UserEq mem mem') (n : Nat) : copyFromUser tables mem src n = copyFromUser tables mem' src n := by
  induction n generalizing src with
  | zero => rfl
  | succ n ih =>
      rw [copyFromUser, copyFromUser]
      split
      · next mapped =>
          rw [ih (nextByte_user outside mapped).2, same src (not_kernelHalf outside mapped)]
      · rfl

theorem copyFromUser_end {src : Nat} (outside : ¬ tables.KernelTarget src) {mem : Memory} {n : Nat}
    (complete : (copyFromUser tables mem src n).2 = 0) (some : 0 < n) :
    ¬ tables.KernelTarget ((src + n) % word64) := by
  induction n generalizing src with
  | zero => cases some
  | succ n ih =>
      rw [copyFromUser] at complete
      split at complete
      · next mapped =>
          obtain ⟨next, outside'⟩ := nextByte_user outside mapped
          cases n with
          | zero => exact outside'
          | succ n =>
              have later := ih outside' complete (Nat.succ_pos n)
              rwa [next, Nat.add_right_comm, Nat.add_assoc] at later
      · cases complete

theorem copyFromUser_le (tables : PageTables) (mem : Memory) (src n : Nat) : (copyFromUser tables mem src n).2 ≤ n := by
  induction n generalizing src with
  | zero => exact le_rfl
  | succ n ih =>
      rw [copyFromUser]
      split
      · exact Nat.le_succ_of_le (ih _)
      · exact le_rfl

theorem copyFromUser_first {src : Nat} (mapped : tables.mapped src = true) (mem : Memory) {n : Nat}
    (positive : 0 < n) :
    ((copyFromUser tables mem src n).1.take (n - (copyFromUser tables mem src n).2)).head? = some (mem src) := by
  obtain ⟨m, rfl⟩ := Nat.exists_eq_add_of_lt positive
  rw [Nat.zero_add, copyFromUser, if_pos mapped]
  have left := copyFromUser_le tables mem (nextByte src) m
  obtain ⟨k, hk⟩ : ∃ k, m + 1 - (copyFromUser tables mem (nextByte src) m).2 = k + 1 :=
    ⟨m - (copyFromUser tables mem (nextByte src) m).2, by omega⟩
  dsimp only
  rw [hk, List.take_succ_cons, List.head?_cons]

/-- What was written to a user address is read back from it: the bytes before the first address that is not mapped,
and zeros for the others, which both copies count. -/
theorem copyFromUser_copyToUser {dest : Nat} (pointer : dest < word64) (mem : Memory) {bytes : List UInt8}
    (short : bytes.length ≤ word64) :
    ∃ front back, bytes = front ++ back ∧ (∀ i < front.length, tables.mapped ((dest + i) % word64) = true) ∧
      (back ≠ [] → tables.mapped ((dest + front.length) % word64) = false) ∧
      (copyToUser tables mem dest bytes).2 = back.length ∧
      copyFromUser tables (copyToUser tables mem dest bytes).1 dest bytes.length =
        (front ++ List.replicate back.length 0, back.length) := by
  induction bytes generalizing dest mem with
  | nil => exact ⟨[], [], rfl, fun i below => absurd below (Nat.not_lt_zero i), fun some => absurd rfl some, rfl, rfl⟩
  | cons b rest ih =>
      rw [copyToUser, List.length_cons, copyFromUser]
      by_cases mapped : tables.mapped dest = true
      · obtain ⟨front, back, split, all, next, left, read⟩ :=
          ih (nextByte_lt dest) (Function.update mem dest b) (Nat.le_of_succ_le short)
        have kept : (copyToUser tables (Function.update mem dest b) (nextByte dest) rest).1 dest = b := by
          rw [copyToUser_apart (nextByte_lt _), Function.update_self]
          intro i inside
          rw [nextByte_add]
          simp only [word64, List.length_cons] at pointer short ⊢
          omega
        refine ⟨b :: front, back, congrArg _ split, fun i below => ?_, fun some => ?_, ?_⟩
        · cases i with
          | zero => exact (Nat.mod_eq_of_lt pointer).symm ▸ mapped
          | succ i => exact nextByte_add dest i ▸ all i (Nat.lt_of_succ_lt_succ below)
        · exact nextByte_add dest front.length ▸ next some
        · rw [if_pos mapped, if_pos mapped, read, kept]
          exact ⟨left, rfl⟩
      · refine ⟨[], b :: rest, rfl, fun i below => absurd below (Nat.not_lt_zero i), fun _ => ?_, ?_⟩
        · exact (Nat.mod_eq_of_lt pointer).symm ▸ Bool.eq_false_iff.mpr mapped
        · rw [if_neg mapped, if_neg mapped]
          exact ⟨rfl, rfl⟩

def onePage : PageTables :=
  ⟨fun a => decide (a < 4096), fun _ mapped =>
    Or.inl (Nat.lt_of_lt_of_le (of_decide_eq_true mapped) (Nat.le_of_ble_eq_true rfl))⟩

theorem copyFromUser_copyToUser_onePage :
    copyFromUser onePage (copyToUser onePage (fun _ => 0) 4094 [1, 2, 3]).1 4094 3 = ([1, 2, 0], 1) := by
  obtain ⟨front, back, split, all, next, -, read⟩ :=
    @copyFromUser_copyToUser onePage 4094 (by decide) (fun _ => 0) [1, 2, 3] (by decide)
  have few : front.length ≤ 2 := by
    by_contra more
    exact absurd (all 2 (Nat.not_le.mp more)) (by decide)
  have total : 3 = front.length + back.length := by rw [← List.length_append, ← split]; rfl
  have two : front.length = 2 := by
    have unmapped := next fun none => by rw [none, List.length_nil] at total; omega
    obtain zero | one | two : front.length = 0 ∨ front.length = 1 ∨ front.length = 2 := by omega
    · exact absurd (zero ▸ unmapped) (by decide)
    · exact absurd (one ▸ unmapped) (by decide)
    · exact two
  obtain ⟨rfl, rfl⟩ := List.append_inj (show [1, 2] ++ [3] = front ++ back from split) two.symm
  exact read

end SnapOS.Uaccess
