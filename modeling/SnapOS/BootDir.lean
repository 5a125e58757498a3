/- search_dir_block of the boot loader on a block with any contents. -/
import SnapOS.DirWalk

namespace SnapOS.Boot
open SnapOS.Lib SnapOS.Fs

/-- What the boot loader takes for the entry with the name; it may be deleted. -/
structure Matches (bytes : Memory) (filename : List UInt8) (a : Nat) : Prop where
  length : entryNameLen bytes a = strlen filename
  agrees : NameAgrees bytes filename a (strlen filename)

/-- The loop looks at the name of the entry at `a`. -/
structure Visits (block : Buffer) (a : Nat) : Prop where
  header : a + 6 < block.size
  ends : a + entrySize block.bytes a ≤ block.size

/-- The loop goes from `a` to `p`. -/
inductive Reaches (block : Buffer) (filename : List UInt8) : Nat → Nat → Prop
  | here (a : Nat) : Reaches block filename a a
  | next {a p : Nat} (visits : Visits block a) (other : ¬ Matches block.bytes filename a)
      (later : Reaches block filename (a + entrySize block.bytes a) p) : Reaches block filename a p

/-- Of a name with the right length all bytes up to the first one that differs are in the block. -/
def ComparedInside (block : Buffer) (filename : List UInt8) (a : Nat) : Prop :=
  entryNameLen block.bytes a = strlen filename →
    ∀ i < strlen filename, NameAgrees block.bytes filename a i → a + 8 + i < block.size

/-- The comparison stays in the block, and an entry that does not match has a size. -/
structure EntryFits (block : Buffer) (filename : List UInt8) (a : Nat) : Prop where
  compared : ComparedInside block filename a
  moves : ¬ Matches block.bytes filename a → entrySize block.bytes a ≠ 0

section Compare

variable {block : Buffer} {filename : List UInt8} {a i left : Nat}

theorem strncmpFrom_inside (total : i + left = strlen filename)
    (inside : ∀ j, i ≤ j → j < strlen filename →
      (∀ l, i ≤ l → l < j → block.bytes (a + 8 + l) = charAt filename l) → a + 8 + j < block.size) :
    ∃ r, strncmpFrom filename (fun j => block.byte (a + 8 + j)) left i = .ok r ∧
      (r = strlen filename ↔ ∀ j, i ≤ j → j < strlen filename → block.bytes (a + 8 + j) = charAt filename j) :=
  strncmpFrom_reads total fun j low high agrees => Buffer.byte_ok (inside j low high agrees)

theorem strncmpFrom_outside {j : Nat} (total : i + left = strlen filename) (low : i ≤ j) (high : j < strlen filename)
    (agrees : ∀ l, i ≤ l → l < j → block.bytes (a + 8 + l) = charAt filename l) (outside : block.size ≤ a + 8 + j) :
    strncmpFrom filename (fun j => block.byte (a + 8 + j)) left i = .error .outOfBounds := by
  induction left generalizing i with
  | zero => omega
  | succ left ih =>
      rw [strncmpFrom, if_neg (charAt_of_lt_strlen (show i < strlen filename by omega))]
      by_cases inside : a + 8 + i < block.size
      · have later : i + 1 ≤ j := by
          rcases Nat.eq_or_lt_of_le low with rfl | later
          · omega
          · exact later
        have same := agrees i le_rfl (by omega)
        have nonzero := charAt_of_lt_strlen (show i < strlen filename by omega)
        rw [Buffer.byte_ok inside, Exec.ok_bind, if_pos ⟨same.symm ▸ nonzero, same.symm⟩]
        exact ih (by omega) later fun l low high => agrees l (by omega) high
      · rw [Buffer.byte, if_neg inside]
        rfl

end Compare

section Search

variable {block : Buffer} {filename : List UInt8} {a fuel : Nat}

theorem searchDirBlockFrom_ends (done : ¬ Visits block a) :
    searchDirBlockFrom block block.size filename (fuel + 1) a = .ok 0 := by
  rw [searchDirBlockFrom]
  by_cases header : a + 6 < block.size
  · have size : block.load (a + 4) 2 = .ok (entrySize block.bytes a) := Buffer.load_ok (by omega)
    have behind : a + entrySize block.bytes a > block.size := Nat.lt_of_not_le fun ends => done ⟨header, ends⟩
    rw [if_pos header, size, Exec.ok_bind, if_pos behind]
  · rw [if_neg header]

theorem searchDirBlockFrom_visits (visits : Visits block a) :
    searchDirBlockFrom block block.size filename (fuel + 1) a =
      if entryNameLen block.bytes a ≠ strlen filename then
        searchDirBlockFrom block block.size filename fuel (a + entrySize block.bytes a)
      else strncmp filename (fun i => block.byte (a + 8 + i)) (strlen filename) >>= fun equal =>
        if equal then .ok (entryInode block.bytes a)
        else searchDirBlockFrom block block.size filename fuel (a + entrySize block.bytes a) := by
  have header := visits.header
  have size : block.load (a + 4) 2 = .ok (entrySize block.bytes a) := Buffer.load_ok (by omega)
  have length : block.load (a + 6) 1 = .ok (entryNameLen block.bytes a) := Buffer.load_ok (by omega)
  have inode : block.load a 4 = .ok (entryInode block.bytes a) := Buffer.load_ok (by omega)
  rw [searchDirBlockFrom, if_pos header, size, Exec.ok_bind, if_neg (Nat.not_lt.mpr visits.ends), length, Exec.ok_bind,
    inode]

theorem searchDirBlockFrom_fits (visits : Visits block a) (compared : ComparedInside block filename a) (fuel : Nat) :
    (Matches block.bytes filename a ∧
      searchDirBlockFrom block block.size filename (fuel + 1) a = .ok (entryInode block.bytes a)) ∨
    (¬ Matches block.bytes filename a ∧ searchDirBlockFrom block block.size filename (fuel + 1) a =
      searchDirBlockFrom block block.size filename fuel (a + entrySize block.bytes a)) := by
  rw [searchDirBlockFrom_visits visits]
  by_cases sameLen : entryNameLen block.bytes a = strlen filename
  · obtain ⟨r, result, whole⟩ := strncmpFrom_inside (Nat.zero_add (strlen filename)) fun j _ high agrees =>
      compared sameLen j high fun l before => agrees l (Nat.zero_le l) before
    rw [if_neg (not_not.mpr sameLen), strncmp, result, Exec.ok_bind, Exec.ok_bind]
    by_cases all : r = strlen filename
    · refine Or.inl ⟨⟨sameLen, fun i before => whole.mp all i (Nat.zero_le i) before⟩, ?_⟩
      rw [if_pos (beq_iff_eq.mpr all)]
    · refine Or.inr ⟨fun matched => all (whole.mpr fun j _ before => matched.agrees j before), ?_⟩
      rw [if_neg (mt beq_iff_eq.mp all)]
  · exact Or.inr ⟨fun matched => sameLen matched.length, if_pos sameLen⟩

theorem searchDirBlockFrom_leaves (visits : Visits block a) (leaves : ¬ ComparedInside block filename a) :
    searchDirBlockFrom block block.size filename (fuel + 1) a = .error .outOfBounds := by
  simp only [ComparedInside, Classical.not_forall, Nat.not_lt] at leaves
  obtain ⟨sameLen, j, before, agrees, behind⟩ := leaves
  rw [searchDirBlockFrom_visits visits, if_neg (not_not.mpr sameLen), strncmp,
    strncmpFrom_outside (Nat.zero_add _) (Nat.zero_le j) before (fun l _ high => agrees l high) behind]
  rfl

/-- An entry without a size that does not match is looked at again and again. -/
theorem searchDirBlockFrom_stuck (visits : Visits block a) (compared : ComparedInside block filename a)
    (other : ¬ Matches block.bytes filename a) (zero : entrySize block.bytes a = 0) (fuel : Nat) :
    searchDirBlockFrom block block.size filename fuel a = .error .outOfFuel := by
  induction fuel with
  | zero => rfl
  | succ fuel ih =>
      rcases searchDirBlockFrom_fits visits compared fuel with ⟨matched, _⟩ | ⟨_, next⟩
      · exact absurd matched other
      · rw [next, zero, Nat.add_zero, ih]

theorem entryFits_of_found {found p : Nat} (reaches : Reaches block filename a p)
    (answered : searchDirBlockFrom block block.size filename fuel a = .ok found) (visits : Visits block p) :
    EntryFits block filename p := by
  induction reaches generalizing fuel with
  | here a =>
      cases fuel with
      | zero => cases answered
      | succ fuel =>
          have compared : ComparedInside block filename a := by
            by_contra leaves
            cases (searchDirBlockFrom_leaves visits leaves).symm.trans answered
          refine ⟨compared, fun other zero => ?_⟩
          cases (searchDirBlockFrom_stuck visits compared other zero _).symm.trans answered
  | @next a p here other later ih =>
      cases fuel with
      | zero => cases answered
      | succ fuel =>
          have compared : ComparedInside block filename a := by
            by_contra leaves
            cases (searchDirBlockFrom_leaves here leaves).symm.trans answered
          rcases searchDirBlockFrom_fits here compared fuel with ⟨matched, _⟩ | ⟨_, next⟩
          · exact absurd matched other
          · exact ih (next.symm.trans answered) visits

theorem searchDirBlockFrom_found
    (fits : ∀ p, Reaches block filename a p → Visits block p → EntryFits block filename p) :
    ∃ fuel found, searchDirBlockFrom block block.size filename fuel a = .ok found := by
  induction left : block.size - a using Nat.strongRecOn generalizing a with
  | ind left ih =>
      by_cases visits : Visits block a
      · have here := fits a (.here a) visits
        by_cases matched : Matches block.bytes filename a
        · rcases searchDirBlockFrom_fits visits here.compared 0 with ⟨_, found⟩ | ⟨other, _⟩
          · exact ⟨1, _, found⟩
          · exact absurd matched other
        · have size := here.moves matched
          have header := visits.header
          obtain ⟨fuel, found, answered⟩ := ih (block.size - (a + entrySize block.bytes a)) (by omega)
            (fun p reaches => fits p (.next visits matched reaches)) rfl
          rcases searchDirBlockFrom_fits visits here.compared fuel with ⟨same, _⟩ | ⟨_, next⟩
          · exact absurd same matched
          · exact ⟨fuel + 1, found, next.trans answered⟩
      · exact ⟨1, 0, searchDirBlockFrom_ends visits⟩

end Search

/-- The search of a block returns without an access outside the block exactly if every entry that it visits before a
match fits. -/
theorem searchDirBlock_returns_iff (block : Buffer) (filename : List UInt8) :
    (∃ fuel found, searchDirBlock fuel block block.size filename = .ok found) ↔
      ∀ p, Reaches block filename 0 p → Visits block p → EntryFits block filename p := by
  refine ⟨?_, searchDirBlockFrom_found⟩
  rintro ⟨fuel, found, answered⟩ p reaches visits
  exact entryFits_of_found reaches answered visits

/-- A block of zeros: the loop never leaves its first entry. -/
theorem zero_block_hangs :
    ¬ ∃ fuel found, searchDirBlock fuel ⟨fun _ => 0, 1024⟩ 1024 kernelFilename = .ok found := by
  rintro ⟨fuel, found, answered⟩
  have visits : Visits ⟨fun _ => 0, 1024⟩ 0 := ⟨by decide, by decide⟩
  have other : ¬ Matches (fun _ => 0) kernelFilename 0 := fun matched => absurd matched.length (by decide)
  exact (entryFits_of_found (.here 0) answered visits).moves other (by decide)

end SnapOS.Boot
