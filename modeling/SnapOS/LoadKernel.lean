/- The ext2 reader of the boot loader. -/
import Mathlib.Data.List.GetD
import Mathlib.Data.List.TakeWhile
import SnapOS.Klibc

namespace SnapOS.Boot
open SnapOS.Lib

def sectorSize : Nat := 512
def blockGroupDescriptorSize : Nat := 32

/-- The globals of loadkernel.c. A `size_t` has 32 bits here. -/
structure Globals where
  pstart : Nat
  blocksize : Nat
  inodeSize : Nat
  sectorsPerBlock : Nat
  blocksPerBg : Nat
  inodesPerBg : Nat
  bgdtLba : Nat
  deriving DecidableEq, Repr

/-- `read_and_parse_superblock`, for the bytes that it reads. -/
def readAndParseSuperblock (pstart : Nat) (superblock : Memory) : Globals where
  pstart := pstart
  blocksize := shl32 1024 (superblock.load 24 4)
  inodeSize := superblock.load 88 2
  sectorsPerBlock := shl32 1024 (superblock.load 24 4) / sectorSize
  blocksPerBg := superblock.load 32 4
  inodesPerBg := superblock.load 40 4
  bgdtLba := 0

/-- The sector that a returned inode pointer points into, and the offset in its buffer. -/
structure InodePlace where
  lba : Nat
  offset : Nat
  deriving DecidableEq, Repr

def loadFromSector (disk : Memory) (lba offset : Nat) : Nat := disk.load (lba * sectorSize + offset) 4

/-- `rootdir_inode` finds the descriptor table as well. -/
def rootdirInode (disk : Memory) (g : Globals) : Globals × InodePlace :=
  let bgdtFirstBlock := (4 - 1) / g.sectorsPerBlock + 1
  let bgdtLba := (g.pstart + bgdtFirstBlock * g.sectorsPerBlock % word32) % word32
  let inodeTableStartingBlock := loadFromSector disk bgdtLba 8
  ({ g with bgdtLba := bgdtLba },
    ⟨(g.pstart + inodeTableStartingBlock * g.sectorsPerBlock % word32) % word32, g.inodeSize⟩)

def getInode (disk : Memory) (g : Globals) (inodeNum : Nat) : InodePlace :=
  let bgNum := (inodeNum + (word32 - 1)) % word32 / g.inodesPerBg
  let bgDescOffset := bgNum * blockGroupDescriptorSize % word32
  let bgDescLba := (g.bgdtLba + bgDescOffset / sectorSize) % word32
  let inodeTableBlock := loadFromSector disk bgDescLba (bgDescOffset % sectorSize + 8)
  let index := (inodeNum + (word32 - 1)) % word32 % g.inodesPerBg
  let inodeOffset := index * g.inodeSize % word32
  ⟨(g.pstart + inodeTableBlock * g.sectorsPerBlock % word32 + inodeOffset / sectorSize) % word32,
    inodeOffset % sectorSize⟩

def strlen (s : List UInt8) : Nat := (s.takeWhile (· ≠ 0)).length

/-- The loop of `strncmp` from `i` on, for `left` more bytes. -/
def strncmpFrom (s1 : List UInt8) (s2 : Nat → Exec UInt8) : Nat → Nat → Exec Nat
  | 0, i => .ok i
  | left + 1, i =>
      if charAt s1 i = 0 then .ok i
      else do
        let c ← s2 i
        if c ≠ 0 ∧ charAt s1 i = c then strncmpFrom s1 s2 left (i + 1) else .ok i

theorem charAt_of_lt_strlen {s : List UInt8} {i : Nat} (inside : i < strlen s) : charAt s i ≠ 0 := by
  have front := List.takeWhile_prefix (l := s) (fun c => decide (c ≠ 0))
  have whole : i < s.length := lt_of_lt_of_le inside front.length_le
  have kept := List.mem_takeWhile_imp (p := fun c => decide (c ≠ 0)) (List.getElem_mem inside)
  rw [charAt, List.getD_eq_getElem _ _ whole, ← front.getElem inside]
  exact of_decide_eq_true kept

theorem strncmpFrom_reads {s1 : List UInt8} {s2 : Nat → Exec UInt8} {g : Nat → UInt8} {i left : Nat}
    (total : i + left = strlen s1)
    (reads : ∀ j, i ≤ j → j < strlen s1 → (∀ l, i ≤ l → l < j → g l = charAt s1 l) → s2 j = .ok (g j)) :
    ∃ r, strncmpFrom s1 s2 left i = .ok r ∧
      (r = strlen s1 ↔ ∀ j, i ≤ j → j < strlen s1 → g j = charAt s1 j) := by
  induction left generalizing i with
  | zero => exact ⟨i, rfl, ⟨fun _ j low high => absurd low (by omega), fun _ => total⟩⟩
  | succ left ih =>
      have before : i < strlen s1 := by omega
      have first := reads i le_rfl before fun l low high => absurd low (by omega)
      rw [strncmpFrom, if_neg (charAt_of_lt_strlen before), first, Exec.ok_bind]
      by_cases same : charAt s1 i = g i
      · have upTo {j : Nat} (later : ∀ l, i + 1 ≤ l → l < j → g l = charAt s1 l) (l : Nat) (low : i ≤ l)
            (high : l < j) : g l = charAt s1 l := by
          rcases Nat.eq_or_lt_of_le low with rfl | behind
          · exact same.symm
          · exact later l behind high
        obtain ⟨r, result, whole⟩ := @ih (i + 1) (by omega) fun j low high later =>
          reads j (by omega) high (upTo later)
        rw [if_pos ⟨same ▸ charAt_of_lt_strlen before, same⟩]
        refine ⟨r, result, whole.trans ⟨fun all j low high => ?_, fun all j low high => all j (by omega) high⟩⟩
        exact upTo (fun l low late => all l low (by omega)) j low (Nat.lt_succ_self j)
      · rw [if_neg fun both => same both.2]
        exact ⟨i, rfl, ⟨fun whole => absurd whole (by omega), fun all => absurd (all i le_rfl before).symm same⟩⟩

/-- True for equal strings. -/
def strncmp (s1 : List UInt8) (s2 : Nat → Exec UInt8) (n : Nat) : Exec Bool := do
  let i ← strncmpFrom s1 s2 n 0
  .ok (i == n)

def searchDirBlockFrom (block : Buffer) (blocksize : Nat) (filename : List UInt8) : Nat → Nat → Exec Nat
  | 0, _ => .error .outOfFuel
  | fuel + 1, entry =>
      if entry + 6 < blocksize then do
        let entrySize ← block.load (entry + 4) 2
        if entry + entrySize > blocksize then .ok 0
        else do
          let nameLen ← block.load (entry + 6) 1
          if nameLen ≠ strlen filename then searchDirBlockFrom block blocksize filename fuel (entry + entrySize)
          else do
            let equal ← strncmp filename (fun i => block.byte (entry + 8 + i)) (strlen filename)
            if equal then block.load entry 4
            else searchDirBlockFrom block blocksize filename fuel (entry + entrySize)
      else .ok 0

/-- An entry of size zero keeps the loop where it is, so the rounds are bounded by `fuel`. -/
def searchDirBlock (fuel : Nat) (block : Buffer) (blocksize : Nat) (filename : List UInt8) : Exec Nat :=
  searchDirBlockFrom block blocksize filename fuel 0

end SnapOS.Boot
