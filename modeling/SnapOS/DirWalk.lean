/- search_dir_block on a block with any contents. -/
import SnapOS.DirSearch
import SnapOS.Resolve

namespace SnapOS.Fs
open SnapOS.Lib

/-! The chain of entries in a block -/

def NameAgrees (bytes : Memory) (name : List UInt8) (a n : Nat) : Prop := ∀ i < n, bytes (a + 8 + i) = charAt name i

/-- What the kernel takes for an entry with the name. -/
structure Matches (bytes : Memory) (name : List UInt8) (nameLen a : Nat) : Prop where
  live : entryInode bytes a ≠ 0
  length : entryNameLen bytes a = nameLen
  agrees : NameAgrees bytes name a nameLen

inductive Reaches (block : Buffer) (name : List UInt8) (nameLen : Nat) : Nat → Nat → Prop
  | here (a : Nat) : Reaches block name nameLen a a
  | next {a p : Nat} (inside : a < block.size) (size : entrySize block.bytes a ≠ 0)
      (other : ¬ Matches block.bytes name nameLen a)
      (later : Reaches block name nameLen (a + entrySize block.bytes a) p) : Reaches block name nameLen a p

/-- The entry at `a` ends late enough: the size of every entry is in the block, the length of the name if the entry is
live, and of a name with the right length all bytes up to the first one that differs. -/
structure EntryFits (block : Buffer) (name : List UInt8) (nameLen a : Nat) : Prop where
  size : a + 6 ≤ block.size
  length : entrySize block.bytes a ≠ 0 → entryInode block.bytes a ≠ 0 → a + 7 ≤ block.size
  compared : entrySize block.bytes a ≠ 0 → entryInode block.bytes a ≠ 0 → entryNameLen block.bytes a = nameLen →
    ∀ i < nameLen, NameAgrees block.bytes name a i → a + 8 + i < block.size

structure Answers (block : Buffer) (name : List UInt8) (nameLen a : Nat) (r : Except Int (Option Nat)) : Prop where
  left : ∀ p, Reaches block name nameLen a p → block.size ≤ p → r = .ok none
  stuck : ∀ p, Reaches block name nameLen a p → p < block.size → entrySize block.bytes p = 0 → r = .error (-eUClean)
  found : ∀ e, r = .ok (some e) → Reaches block name nameLen a e ∧ Matches block.bytes name nameLen e

section Compare

variable {block : Buffer} {name : List UInt8} {a i n : Nat}

theorem memcmp_inside (inside : ∀ j, i ≤ j → j < i + n →
    (∀ l, i ≤ l → l < j → block.bytes (a + 8 + l) = charAt name l) → a + 8 + j < block.size) :
    ∃ r, memcmp (fun j => block.byte (a + 8 + j)) (fun j => .ok (charAt name j)) i n = .ok r ∧
      (r = 0 ↔ ∀ j, i ≤ j → j < i + n → block.bytes (a + 8 + j) = charAt name j) :=
  memcmp_reads fun j low high agrees => ⟨Buffer.byte_ok (inside j low high agrees), rfl⟩

theorem memcmp_outside {j : Nat} (low : i ≤ j) (high : j < i + n)
    (agrees : ∀ l, i ≤ l → l < j → block.bytes (a + 8 + l) = charAt name l) (outside : block.size ≤ a + 8 + j) :
    memcmp (fun j => block.byte (a + 8 + j)) (fun j => .ok (charAt name j)) i n = .error .outOfBounds := by
  induction n generalizing i with
  | zero => omega
  | succ n ih =>
      rw [memcmp]
      by_cases inside : a + 8 + i < block.size
      · have later : i + 1 ≤ j := by
          rcases Nat.eq_or_lt_of_le low with rfl | later
          · omega
          · exact later
        have same := agrees i le_rfl (by omega)
        rw [Buffer.byte_ok inside, Exec.ok_bind, Exec.ok_bind, if_neg (not_not.mpr same)]
        exact ih later (by omega) fun l low high => agrees l (by omega) high
      · rw [Buffer.byte, if_neg inside]
        rfl

end Compare

section Search

variable {block : Buffer} {name : List UInt8} {nameLen a fuel : Nat}

theorem searchDirBlockFrom_fits (inside : a < block.size) (fits : EntryFits block name nameLen a) (fuel : Nat) :
    (entrySize block.bytes a = 0 ∧
      searchDirBlockFrom block block.size name nameLen (fuel + 1) a = .ok (.error (-eUClean))) ∨
    (entrySize block.bytes a ≠ 0 ∧ Matches block.bytes name nameLen a ∧
      searchDirBlockFrom block block.size name nameLen (fuel + 1) a = .ok (.ok (some a))) ∨
    (entrySize block.bytes a ≠ 0 ∧ ¬ Matches block.bytes name nameLen a ∧
      searchDirBlockFrom block block.size name nameLen (fuel + 1) a =
        searchDirBlockFrom block block.size name nameLen fuel (a + entrySize block.bytes a)) := by
  have header := fits.size
  have size : block.load (a + 4) 2 = .ok (entrySize block.bytes a) := Buffer.load_ok (by omega)
  have inode : block.load a 4 = .ok (entryInode block.bytes a) := Buffer.load_ok (by omega)
  rw [searchDirBlockFrom, if_pos inside, size, Exec.ok_bind]
  by_cases zero : entrySize block.bytes a = 0
  · exact Or.inl ⟨zero, if_pos zero⟩
  refine Or.inr ?_
  rw [if_neg zero, inode, Exec.ok_bind]
  by_cases deleted : entryInode block.bytes a = 0
  · exact Or.inr ⟨zero, fun matched => matched.live deleted, if_pos deleted⟩
  have length : block.load (a + 6) 1 = .ok (entryNameLen block.bytes a) := Buffer.load_ok (fits.length zero deleted)
  rw [if_neg deleted, length, Exec.ok_bind]
  by_cases sameLen : entryNameLen block.bytes a = nameLen
  · obtain ⟨r, compared, equal⟩ := memcmp_inside (a := a) (i := 0) (n := nameLen) fun j _ high agrees =>
      fits.compared zero deleted sameLen j (by omega) fun l before => agrees l (Nat.zero_le l) before
    rw [if_neg (not_not.mpr sameLen), compared, Exec.ok_bind]
    by_cases same : r = 0
    · refine Or.inl ⟨zero, ⟨deleted, sameLen, fun i before => ?_⟩, if_neg (not_not.mpr same)⟩
      exact equal.mp same i (Nat.zero_le i) (by omega)
    · refine Or.inr ⟨zero, fun matched => same (equal.mpr fun j _ high => ?_), if_pos same⟩
      exact matched.agrees j (by omega)
  · exact Or.inr ⟨zero, fun matched => sameLen matched.length, if_pos sameLen⟩

theorem searchDirBlockFrom_unfit (inside : a < block.size) (unfit : ¬ EntryFits block name nameLen a) (fuel : Nat) :
    searchDirBlockFrom block block.size name nameLen (fuel + 1) a = .error .outOfBounds := by
  have outside {b n : Nat} (behind : ¬ b + n ≤ block.size) : block.load b n = .error .outOfBounds := if_neg behind
  rw [searchDirBlockFrom, if_pos inside]
  by_cases header : a + 6 ≤ block.size
  · have size : block.load (a + 4) 2 = .ok (entrySize block.bytes a) := Buffer.load_ok (by omega)
    have inode : block.load a 4 = .ok (entryInode block.bytes a) := Buffer.load_ok (by omega)
    have zero : entrySize block.bytes a ≠ 0 := fun zero =>
      unfit ⟨header, fun some => absurd zero some, fun some => absurd zero some⟩
    have live : entryInode block.bytes a ≠ 0 := fun deleted =>
      unfit ⟨header, fun _ some => absurd deleted some, fun _ some => absurd deleted some⟩
    rw [size, Exec.ok_bind, if_neg zero, inode, Exec.ok_bind, if_neg live]
    by_cases lengthInside : a + 7 ≤ block.size
    · have length : block.load (a + 6) 1 = .ok (entryNameLen block.bytes a) := Buffer.load_ok lengthInside
      have leaves : ∃ j < nameLen, entryNameLen block.bytes a = nameLen ∧ NameAgrees block.bytes name a j ∧
          block.size ≤ a + 8 + j := by
        by_contra stays
        refine unfit ⟨header, fun _ _ => lengthInside, fun _ _ sameLen i before agrees => ?_⟩
        by_contra outside
        exact stays ⟨i, before, sameLen, agrees, Nat.not_lt.mp outside⟩
      obtain ⟨j, before, sameLen, agrees, behind⟩ := leaves
      rw [length, Exec.ok_bind, if_neg (not_not.mpr sameLen), memcmp_outside (Nat.zero_le j) (by omega)
        (fun l _ high => agrees l high) behind]
      rfl
    · rw [outside (by omega)]
      rfl
  · rw [outside (by omega)]
    rfl

theorem Reaches.cases {p : Nat} (reaches : Reaches block name nameLen a p) :
    p = a ∨ (a < block.size ∧ entrySize block.bytes a ≠ 0 ∧ ¬ Matches block.bytes name nameLen a ∧
      Reaches block name nameLen (a + entrySize block.bytes a) p) := by
  cases reaches with
  | here => exact Or.inl rfl
  | next inside size other later => exact Or.inr ⟨inside, size, other, later⟩

theorem answers_end (behind : block.size ≤ a) : Answers block name nameLen a (.ok none) := by
  refine ⟨fun _ _ _ => rfl, fun p reaches inside => ?_, fun e found => by cases found⟩
  rcases reaches.cases with rfl | ⟨before, -⟩
  · omega
  · omega

theorem answers_stuck (inside : a < block.size) (zero : entrySize block.bytes a = 0) :
    Answers block name nameLen a (.error (-eUClean)) := by
  refine ⟨fun p reaches behind => ?_, fun _ _ _ _ => rfl, fun e found => by cases found⟩
  rcases reaches.cases with rfl | ⟨-, size, -⟩
  · omega
  · exact absurd zero size

theorem answers_found (inside : a < block.size) (size : entrySize block.bytes a ≠ 0)
    (matched : Matches block.bytes name nameLen a) : Answers block name nameLen a (.ok (some a)) := by
  have only {p : Nat} (reaches : Reaches block name nameLen a p) : p = a :=
    reaches.cases.resolve_right fun next => next.2.2.1 matched
  refine ⟨fun p reaches behind => ?_, fun p reaches _ zero => ?_, fun e found => ?_⟩
  · rw [only reaches] at behind
    omega
  · rw [only reaches] at zero
    exact absurd zero size
  · cases found
    exact ⟨.here a, matched⟩

theorem answers_next {r : Except Int (Option Nat)} (inside : a < block.size) (size : entrySize block.bytes a ≠ 0)
    (other : ¬ Matches block.bytes name nameLen a)
    (later : Answers block name nameLen (a + entrySize block.bytes a) r) : Answers block name nameLen a r := by
  refine ⟨fun p reaches behind => ?_, fun p reaches before zero => ?_, fun e found => ?_⟩
  · rcases reaches.cases with rfl | ⟨-, -, -, next⟩
    · omega
    · exact later.left p next behind
  · rcases reaches.cases with rfl | ⟨-, -, -, next⟩
    · exact absurd zero size
    · exact later.stuck p next before zero
  · obtain ⟨reaches, matched⟩ := later.found e found
    exact ⟨.next inside size other reaches, matched⟩

theorem searchDirBlockFrom_answers (enough : block.size ≤ a + fuel)
    (fits : ∀ p, Reaches block name nameLen a p → p < block.size → EntryFits block name nameLen p) :
    ∃ r, searchDirBlockFrom block block.size name nameLen (fuel + 1) a = .ok r ∧ Answers block name nameLen a r := by
  induction fuel generalizing a with
  | zero =>
      rw [searchDirBlockFrom, if_neg (by omega)]
      exact ⟨_, rfl, answers_end enough⟩
  | succ fuel ih =>
      by_cases inside : a < block.size
      · rcases searchDirBlockFrom_fits inside (fits a (.here a) inside) (fuel + 1) with
          ⟨zero, stuck⟩ | ⟨size, matched, found⟩ | ⟨size, other, next⟩
        · exact ⟨_, stuck, answers_stuck inside zero⟩
        · exact ⟨_, found, answers_found inside size matched⟩
        · obtain ⟨r, result, later⟩ := @ih (a + entrySize block.bytes a) (by omega) fun p reaches =>
            fits p (.next inside size other reaches)
          exact ⟨r, next.trans result, answers_next inside size other later⟩
      · rw [searchDirBlockFrom, if_neg inside]
        exact ⟨_, rfl, answers_end (Nat.not_lt.mp inside)⟩

/-- One entry that does not fit is enough for the search to leave the block. -/
theorem searchDirBlockFrom_leaves {p : Nat} (reaches : Reaches block name nameLen a p) (inside : p < block.size)
    (unfit : ¬ EntryFits block name nameLen p) (enough : block.size ≤ a + fuel) :
    searchDirBlockFrom block block.size name nameLen (fuel + 1) a = .error .outOfBounds := by
  induction reaches generalizing fuel with
  | here => exact searchDirBlockFrom_unfit inside unfit fuel
  | @next a p before size other later ih =>
      obtain ⟨fuel, rfl⟩ : ∃ n, fuel = n + 1 := Nat.exists_eq_add_one_of_ne_zero (by omega)
      by_cases fits : EntryFits block name nameLen a
      · rcases searchDirBlockFrom_fits before fits (fuel + 1) with ⟨zero, -⟩ | ⟨-, matched, -⟩ | ⟨-, -, next⟩
        · exact absurd zero size
        · exact absurd matched other
        · rw [next]
          exact ih inside unfit (by omega)
      · exact searchDirBlockFrom_unfit before fits _

/-- The search of a block ends. It stays inside the block, and answers, if and only if each entry of the chain before a
match fits. -/
theorem searchDirBlock_inside_iff (block : Buffer) (name : List UInt8) :
    (searchDirBlock block block.size name (name.length % 256)).Ends ∧
      ((∃ r, searchDirBlock block block.size name (name.length % 256) = .ok r ∧
          Answers block name (name.length % 256) 0 r) ↔
        ∀ p, Reaches block name (name.length % 256) 0 p → p < block.size →
          EntryFits block name (name.length % 256) p) := by
  refine ⟨searchDirBlockFrom_ends (by omega), ?_, searchDirBlockFrom_answers (by omega)⟩
  rintro ⟨r, answered, -⟩ p reaches inside
  by_contra unfit
  rw [searchDirBlock, searchDirBlockFrom_leaves reaches inside unfit (by omega)] at answered
  cases answered

/-- A deleted entry of 1020 bytes leaves four bytes for the next one, whose size is behind the block. -/
theorem last_entry_leaves_block :
    searchDirBlock ⟨fun i => if i = 4 then 0xFC else if i = 5 then 3 else 0, 1024⟩ 1024 [0x61] 1 =
      .error .outOfBounds := by
  rfl

end Search

end SnapOS.Fs
