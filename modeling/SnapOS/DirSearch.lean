/- The searches of one directory block by the boot loader and by the kernel. -/
import Mathlib.Data.List.GetD
import Mathlib.Data.List.TakeWhile
import SnapOS.Ext2
import SnapOS.LoadKernel

namespace SnapOS.Fs
open SnapOS.Lib

variable {bytes : Memory} {block : Buffer} {name : List UInt8}

def entryInode (bytes : Memory) (a : Nat) : Nat := bytes.load a 4
def entrySize (bytes : Memory) (a : Nat) : Nat := bytes.load (a + 4) 2
def entryNameLen (bytes : Memory) (a : Nat) : Nat := bytes.load (a + 6) 1

/-- The entries of a well-formed directory block from `a` on: each has room for its name and a size that
is a multiple of four, and they fill the block. -/
inductive Tiles (bytes : Memory) (blockSize : Nat) : Nat → List Nat → Prop
  | done : Tiles bytes blockSize blockSize []
  | entry {a : Nat} {rest : List Nat} (room : 8 + entryNameLen bytes a ≤ entrySize bytes a)
      (aligned : 4 ∣ entrySize bytes a) (later : Tiles bytes blockSize (a + entrySize bytes a) rest) :
      Tiles bytes blockSize a (a :: rest)

theorem Tiles.le {blockSize a : Nat} {entries : List Nat} (tiles : Tiles bytes blockSize a entries) :
    a + entries.length ≤ blockSize := by
  induction tiles with
  | done => simp
  | entry room aligned later ih =>
      rw [List.length_cons]
      omega

def EntryNamed (bytes : Memory) (name : List UInt8) (a : Nat) : Prop :=
  entryNameLen bytes a = name.length ∧ ∀ i < name.length, bytes (a + 8 + i) = charAt name i

instance (bytes : Memory) (name : List UInt8) (a : Nat) : Decidable (EntryNamed bytes name a) :=
  inferInstanceAs (Decidable (_ ∧ _))

/-! The kernel -/

theorem memcmp_name (block : Buffer) (name : List UInt8) {a : Nat} (inside : a + 8 + name.length ≤ block.size) :
    ∃ r, memcmp (fun i => block.byte (a + 8 + i)) (fun i => .ok (charAt name i)) 0 name.length = .ok r ∧
      (r = 0 ↔ ∀ i < name.length, block.bytes (a + 8 + i) = charAt name i) := by
  have stored : ∀ j, 0 ≤ j → j < 0 + name.length → block.byte (a + 8 + j) = .ok (block.bytes (a + 8 + j)) :=
    fun j _ before => Buffer.byte_ok (by omega)
  have wanted : ∀ j, 0 ≤ j → j < 0 + name.length → (.ok (charAt name j) : Exec UInt8) = .ok (charAt name j) :=
    fun _ _ _ => rfl
  obtain ⟨r, result, zero⟩ := memcmp_ok stored wanted
  refine ⟨r, result, zero.trans ⟨fun all i before => all i (Nat.zero_le i) (by omega), fun all i _ before => ?_⟩⟩
  exact all i (by omega)

theorem load_header {a : Nat} (inside : a + 8 ≤ block.size) : block.load a 4 = .ok (entryInode block.bytes a) ∧
    block.load (a + 4) 2 = .ok (entrySize block.bytes a) ∧ block.load (a + 6) 1 = .ok (entryNameLen block.bytes a) :=
  ⟨Buffer.load_ok (by omega), Buffer.load_ok (by omega), Buffer.load_ok (by omega)⟩

/-- The kernel finds the first live entry with the name. -/
theorem searchDirBlockFrom_tiles {a : Nat} {entries : List Nat} (tiles : Tiles block.bytes block.size a entries)
    {fuel : Nat} (enough : entries.length < fuel) :
    searchDirBlockFrom block block.size name name.length fuel a =
      .ok (.ok (entries.find? fun e => entryInode block.bytes e ≠ 0 ∧ EntryNamed block.bytes name e)) := by
  induction tiles generalizing fuel with
  | done =>
      obtain ⟨fuel, rfl⟩ := Nat.exists_eq_add_one_of_ne_zero (Nat.ne_of_gt enough)
      rw [searchDirBlockFrom, if_neg (lt_irrefl _), List.find?_nil]
  | @entry a rest room aligned later ih =>
      obtain ⟨fuel, rfl⟩ := Nat.exists_eq_add_one_of_ne_zero (Nat.ne_zero_of_lt enough)
      have fits := later.le
      have next := @ih fuel (by rw [List.length_cons] at enough; omega)
      obtain ⟨inode, size, length⟩ := load_header (show a + 8 ≤ block.size by omega)
      rw [searchDirBlockFrom, if_pos (by omega), size, Exec.ok_bind, if_neg (by omega), inode, Exec.ok_bind]
      by_cases deleted : entryInode block.bytes a = 0
      · rw [if_pos deleted, next, List.find?_cons_of_neg (by simp [deleted])]
      · rw [if_neg deleted, length, Exec.ok_bind]
        by_cases sameLen : entryNameLen block.bytes a = name.length
        · obtain ⟨r, compared, equal⟩ := memcmp_name block name (show a + 8 + name.length ≤ block.size by omega)
          rw [if_neg (not_not.mpr sameLen), compared, Exec.ok_bind]
          by_cases same : r = 0
          · have named : EntryNamed block.bytes name a := ⟨sameLen, equal.mp same⟩
            rw [if_neg (not_not.mpr same), List.find?_cons_of_pos (by simp [deleted, named])]
          · have unnamed : ¬ EntryNamed block.bytes name a := fun named => same (equal.mpr named.2)
            rw [if_pos same, next, List.find?_cons_of_neg (by simp [unnamed])]
        · have unnamed : ¬ EntryNamed block.bytes name a := fun named => sameLen named.1
          rw [if_pos sameLen, next, List.find?_cons_of_neg (by simp [unnamed])]

/-! The boot loader -/

theorem strlen_of_noNul (noNul : 0 ∉ name) : Boot.strlen name = name.length := by
  have all : ∀ c ∈ name, decide (c ≠ 0) = true := fun c member => by
    simpa using fun zero : c = 0 => noNul (zero ▸ member)
  rw [Boot.strlen, List.takeWhile_eq_self_iff.mpr all]

theorem strncmp_name (block : Buffer) (noNul : 0 ∉ name) {a : Nat} (inside : a + 8 + name.length ≤ block.size) :
    ∃ equal, Boot.strncmp name (fun i => block.byte (a + 8 + i)) name.length = .ok equal ∧
      (equal = true ↔ ∀ i < name.length, block.bytes (a + 8 + i) = charAt name i) := by
  have whole := strlen_of_noNul noNul
  have stored : ∀ j, 0 ≤ j → j < Boot.strlen name → (∀ l, 0 ≤ l → l < j → block.bytes (a + 8 + l) = charAt name l) →
      block.byte (a + 8 + j) = .ok (block.bytes (a + 8 + j)) :=
    fun j _ before _ => Buffer.byte_ok (by omega)
  obtain ⟨r, result, equal⟩ := Boot.strncmpFrom_reads (Nat.zero_add (Boot.strlen name)) stored
  rw [whole] at result equal
  refine ⟨r == name.length, by rw [Boot.strncmp, result, Exec.ok_bind], ?_⟩
  rw [beq_iff_eq, equal]
  exact ⟨fun all i => all i (Nat.zero_le i), fun all i _ => all i⟩

/-- The boot loader takes the first entry with the name, deleted or not. -/
theorem bootSearchDirBlockFrom_tiles {a : Nat} {entries : List Nat}
    (tiles : Tiles block.bytes block.size a entries) (noNul : 0 ∉ name) {fuel : Nat}
    (enough : entries.length < fuel) :
    Boot.searchDirBlockFrom block block.size name fuel a =
      .ok ((entries.find? fun e => EntryNamed block.bytes name e).elim 0 (entryInode block.bytes)) := by
  induction tiles generalizing fuel with
  | done =>
      obtain ⟨fuel, rfl⟩ := Nat.exists_eq_add_one_of_ne_zero (Nat.ne_of_gt enough)
      rw [Boot.searchDirBlockFrom, if_neg (by omega), List.find?_nil, Option.elim_none]
  | @entry a rest room aligned later ih =>
      obtain ⟨fuel, rfl⟩ := Nat.exists_eq_add_one_of_ne_zero (Nat.ne_zero_of_lt enough)
      have fits := later.le
      have next := @ih fuel (by rw [List.length_cons] at enough; omega)
      obtain ⟨inode, size, length⟩ := load_header (show a + 8 ≤ block.size by omega)
      rw [Boot.searchDirBlockFrom, if_pos (by omega), size, Exec.ok_bind, if_neg (by omega), length,
        Exec.ok_bind, strlen_of_noNul noNul]
      by_cases sameLen : entryNameLen block.bytes a = name.length
      · obtain ⟨equal, compared, same⟩ := strncmp_name block noNul (show a + 8 + name.length ≤ block.size by omega)
        rw [if_neg (not_not.mpr sameLen), compared, Exec.ok_bind]
        cases equal with
        | true =>
            have named : EntryNamed block.bytes name a := ⟨sameLen, same.mp rfl⟩
            rw [if_pos rfl, inode, List.find?_cons_of_pos (by simp [named]), Option.elim_some]
        | false =>
            have unnamed : ¬ EntryNamed block.bytes name a := fun named => Bool.false_ne_true (same.mpr named.2)
            rw [if_neg Bool.false_ne_true, next, List.find?_cons_of_neg (by simp [unnamed])]
      · have unnamed : ¬ EntryNamed block.bytes name a := fun named => sameLen named.1
        rw [if_pos sameLen, next, List.find?_cons_of_neg (by simp [unnamed])]

/-! Agreement -/

/-- The boot loader returns the inode of the kernel's entry, and zero where the kernel has none. -/
def SearchesAgree (bytes : Memory) (found : Nat) (entry : Except Int (Option Nat)) : Prop :=
  (∀ i, i ≠ 0 → (found = i ↔ ∃ e, entry = .ok (some e) ∧ entryInode bytes e = i)) ∧
    (found = 0 ↔ entry = .ok none)

/-- The first entry with the name is a deleted one, and there is a live one. -/
def HiddenByDeleted (bytes : Memory) (name : List UInt8) (entries : List Nat) : Prop :=
  ∃ d e, (entries.find? fun e => EntryNamed bytes name e) = some d ∧ entryInode bytes d = 0 ∧
    e ∈ entries ∧ entryInode bytes e ≠ 0 ∧ EntryNamed bytes name e

theorem searchesAgree_none (bytes : Memory) : SearchesAgree bytes 0 (.ok none) :=
  ⟨fun i nonzero => by simpa using nonzero.symm, by simp⟩

theorem searchesAgree_some {e : Nat} (live : entryInode bytes e ≠ 0) :
    SearchesAgree bytes (entryInode bytes e) (.ok (some e)) :=
  ⟨fun i _ => by simp, by simp [live]⟩

theorem searchesAgree_iff (bytes : Memory) (name : List UInt8) (entries : List Nat) :
    SearchesAgree bytes ((entries.find? fun e => EntryNamed bytes name e).elim 0 (entryInode bytes))
      (.ok (entries.find? fun e => entryInode bytes e ≠ 0 ∧ EntryNamed bytes name e)) ↔
      ¬ HiddenByDeleted bytes name entries := by
  have noneLive : ((entries.find? fun e => entryInode bytes e ≠ 0 ∧ EntryNamed bytes name e) = none) ↔
      ∀ e ∈ entries, entryInode bytes e ≠ 0 → ¬ EntryNamed bytes name e := by simp
  cases first : entries.find? fun e => decide (EntryNamed bytes name e) with
  | none =>
      have unnamed : ∀ e ∈ entries, ¬ EntryNamed bytes name e := by simpa using first
      rw [noneLive.mpr fun e member _ => unnamed e member]
      refine ⟨?_, fun _ => searchesAgree_none bytes⟩
      rintro _ ⟨d, e, isFirst, _⟩
      cases first.symm.trans isFirst
  | some d =>
      obtain ⟨named, front, back, split, before⟩ := List.find?_eq_some_iff_append.mp first
      rw [Option.elim_some]
      by_cases deleted : entryInode bytes d = 0
      · rw [deleted]
        constructor
        · rintro agree ⟨_, e, _, _, member, live, namedE⟩
          exact noneLive.mp (Except.ok.inj (agree.2.mp rfl)) e member live namedE
        · intro visible
          rw [noneLive.mpr fun e member live namedE => visible ⟨d, e, first, deleted, member, live, namedE⟩]
          exact searchesAgree_none bytes
      · have found : (entries.find? fun e => decide (entryInode bytes e ≠ 0 ∧ EntryNamed bytes name e)) = some d := by
          refine List.find?_eq_some_iff_append.mpr ⟨?_, front, back, split, fun a member => ?_⟩
          · simpa [deleted] using named
          · have unnamed : ¬ EntryNamed bytes name a := by simpa using before a member
            simp [unnamed]
        rw [found]
        refine ⟨?_, fun _ => searchesAgree_some deleted⟩
        rintro _ ⟨d', _, isFirst, deleted', _⟩
        cases first.symm.trans isFirst
        exact deleted deleted'

/-- On a well-formed block both searches return, and they agree exactly if no deleted entry hides a
live one of the same name. -/
theorem searchDirBlock_agree_iff (block : Buffer) (name : List UInt8) (fuel : Nat) {entries : List Nat}
    (tiles : Tiles block.bytes block.size 0 entries) (noNul : 0 ∉ name) (short : name.length ≤ 255)
    (enough : block.size < fuel) :
    ∃ found entry, Boot.searchDirBlock fuel block block.size name = .ok found ∧
      searchDirBlock block block.size name (name.length % 256) = .ok entry ∧
      (SearchesAgree block.bytes found entry ↔ ¬ HiddenByDeleted block.bytes name entries) := by
  have few := tiles.le
  have byte : name.length % 256 = name.length := Nat.mod_eq_of_lt (by omega)
  refine ⟨_, _, bootSearchDirBlockFrom_tiles tiles noNul (by omega), ?_, searchesAgree_iff _ name entries⟩
  rw [byte]
  exact searchDirBlockFrom_tiles tiles (by omega)

def kernelFilename : List UInt8 := [0x6B, 0x65, 0x72, 0x6E, 0x65, 0x6C, 0x2E, 0x62, 0x69, 0x6E]

def twoEntries (inode : UInt8) (name : List UInt8) : Buffer where
  bytes i := ([inode, 0, 0, 0, 20, 0, 10, 1] ++ name ++ [0, 0] ++ [12, 0, 0, 0, 0xEC, 3, 10, 1] ++
    kernelFilename).getD i 0
  size := 1024

def oldFilename : List UInt8 := [0x6B, 0x65, 0x72, 0x6E, 0x65, 0x6C, 0x2E, 0x6F, 0x6C, 0x64]

theorem twoEntries_tiles {inode : UInt8} {name : List UInt8}
    (first : entryNameLen (twoEntries inode name).bytes 0 = 10 ∧ entrySize (twoEntries inode name).bytes 0 = 20)
    (second : entryNameLen (twoEntries inode name).bytes 20 = 10 ∧
      entrySize (twoEntries inode name).bytes 20 = 1004) :
    Tiles (twoEntries inode name).bytes 1024 0 [0, 20] := by
  refine .entry (by omega) (by omega) ?_
  rw [first.2, Nat.zero_add]
  refine .entry (by omega) (by omega) ?_
  rw [second.2]
  exact .done

theorem searchDirBlock_agree_iff_otherName :
    ∃ found entry, Boot.searchDirBlock 1025 (twoEntries 0 oldFilename) 1024 kernelFilename = .ok found ∧
      searchDirBlock (twoEntries 0 oldFilename) 1024 kernelFilename 10 = .ok entry ∧
      SearchesAgree (twoEntries 0 oldFilename).bytes found entry := by
  have tiles : Tiles (twoEntries 0 oldFilename).bytes 1024 0 [0, 20] :=
    twoEntries_tiles (by decide +kernel) (by decide +kernel)
  obtain ⟨found, entry, boot, kernel, agree⟩ := searchDirBlock_agree_iff (twoEntries 0 oldFilename)
    kernelFilename 1025 tiles (by decide) (by decide) (by decide)
  refine ⟨found, entry, boot, kernel, agree.mpr ?_⟩
  have first : ([0, 20].find? fun e => EntryNamed (twoEntries 0 oldFilename).bytes kernelFilename e) = some 20 := by
    decide +kernel
  rintro ⟨d, e, isFirst, deleted, _⟩
  cases first.symm.trans isFirst
  exact absurd deleted (by decide +kernel)

/-- A deleted `kernel.bin` comes before the live one. The boot loader returns its inode number, zero, and
so reports that there is no such file; the kernel finds the live entry. -/
theorem deleted_entry_hides_live :
    Tiles (twoEntries 0 kernelFilename).bytes (twoEntries 0 kernelFilename).size 0 [0, 20] ∧
      kernelFilename ≠ [] ∧ 0 ∉ kernelFilename ∧ kernelFilename.length ≤ 255 ∧
      Boot.searchDirBlock 1025 (twoEntries 0 kernelFilename) 1024 kernelFilename = .ok 0 ∧
      searchDirBlock (twoEntries 0 kernelFilename) 1024 kernelFilename 10 = .ok (.ok (some 20)) ∧
      entryInode (twoEntries 0 kernelFilename).bytes 20 = 12 := by
  refine ⟨twoEntries_tiles (by decide +kernel) (by decide +kernel), by decide, by decide, by decide, ?_, ?_, ?_⟩
  · rfl
  · rfl
  · decide +kernel

end SnapOS.Fs
