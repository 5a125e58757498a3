/- The boot loader's shortcut to the root directory against its general way to an inode. -/
import SnapOS.LoadKernel
import Mathlib.Algebra.Order.Group.Nat

namespace SnapOS.Boot
open SnapOS.Lib

def rootdirIno : Nat := 2

/-- The part of an inode that the boot loader uses. -/
def sizeofInode : Nat := 128

/-- The geometries that the boot loader is made for. -/
structure Geometry (g : Globals) : Prop where
  blocksize : g.blocksize = 1024 ∨ g.blocksize = 2048 ∨ g.blocksize = 4096
  inodeSize : ∃ k, g.inodeSize = 2 ^ k
  wholeInode : sizeofInode ≤ g.inodeSize
  inBlock : g.inodeSize ≤ g.blocksize
  groups : 2 ≤ g.inodesPerBg

/-- The inode behind a returned pointer, as long as it does not leave the buffer of the sector. -/
def InodePlace.inode (disk : Memory) (p : InodePlace) : List UInt8 :=
  (List.range sizeofInode).map fun i => disk (p.lba * sectorSize + p.offset + i)

def InodePlace.Inside (p : InodePlace) : Prop := p.offset + sizeofInode ≤ sectorSize

/-- Both ways lead to the same inode, which is in the sectors that they have read. -/
structure RootAgrees (disk : Memory) (g : Globals) : Prop where
  shortcut : (rootdirInode disk g).2.Inside
  general : (getInode disk (rootdirInode disk g).1 rootdirIno).Inside
  same : (rootdirInode disk g).2.inode disk = (getInode disk (rootdirInode disk g).1 rootdirIno).inode disk

theorem getInode_root (disk : Memory) {g : Globals} (geometry : Geometry g) :
    getInode disk (rootdirInode disk g).1 rootdirIno =
      ⟨((rootdirInode disk g).2.lba + g.inodeSize / sectorSize) % word32, g.inodeSize % sectorSize⟩ := by
  have group : 1 / g.inodesPerBg = 0 := Nat.div_eq_of_lt geometry.groups
  have index : 1 % g.inodesPerBg = 1 := Nat.mod_eq_of_lt geometry.groups
  have small : g.inodeSize % word32 = g.inodeSize := by
    have inBlock := geometry.inBlock
    rcases geometry.blocksize with size | size | size <;>
      exact Nat.mod_eq_of_lt (by simp only [word32]; omega)
  have one : (rootdirIno + (word32 - 1)) % word32 = 1 := by decide
  have first : (g.pstart + ((4 - 1) / g.sectorsPerBlock + 1) * g.sectorsPerBlock % word32) % word32 % word32 =
      (g.pstart + ((4 - 1) / g.sectorsPerBlock + 1) * g.sectorsPerBlock % word32) % word32 := Nat.mod_mod _ _
  simp only [getInode, rootdirInode, one, group, index, Nat.zero_mul, Nat.zero_mod, Nat.zero_div, Nat.add_zero,
    Nat.zero_add, Nat.one_mul, small, first, Nat.mod_add_mod]

/-- The shortcut reads one sector, so it agrees with the general way exactly for inodes of at most 256 bytes. -/
theorem rootdirInode_agrees_iff (disk superblock : Memory) (pstart : Nat)
    (geometry : Geometry (readAndParseSuperblock pstart superblock)) :
    RootAgrees disk (readAndParseSuperblock pstart superblock) ↔
      (readAndParseSuperblock pstart superblock).inodeSize ≤ 256 := by
  have general := getInode_root disk geometry
  generalize readAndParseSuperblock pstart superblock = g at *
  constructor
  · intro agrees
    have inside : g.inodeSize + 128 ≤ 512 := agrees.shortcut
    obtain ⟨k, power⟩ := geometry.inodeSize
    -- the next power of two after 256 is a whole sector
    have exponent : k < 9 := (Nat.pow_lt_pow_iff_right (show 1 < 2 by decide)).mp (by omega)
    rw [power]
    exact Nat.pow_le_pow_right (by decide) (Nat.le_of_lt_succ exponent)
  · intro small
    have sector : g.inodeSize / sectorSize = 0 := Nat.div_eq_of_lt (by simp only [sectorSize]; omega)
    have offset : g.inodeSize % sectorSize = g.inodeSize := Nat.mod_eq_of_lt (by simp only [sectorSize]; omega)
    have place : getInode disk (rootdirInode disk g).1 rootdirIno = (rootdirInode disk g).2 := by
      rw [general, sector, offset, Nat.add_zero]
      simp only [rootdirInode, Nat.mod_mod]
    have inside : (rootdirInode disk g).2.Inside := by
      change g.inodeSize + 128 ≤ 512
      omega
    exact ⟨inside, place ▸ inside, by rw [place]⟩

/-- A superblock for blocks of 1024 bytes and groups of 8 inodes; the inode size in its two bytes. -/
def smallSuperblock (low high : UInt8) : Memory := fun i =>
  if i = 88 then low else if i = 89 then high else if i = 40 then 8 else 0

theorem rootdirInode_agrees_iff_small :
    RootAgrees (fun _ => 0) (readAndParseSuperblock 2048 (smallSuperblock 0 1)) :=
  (rootdirInode_agrees_iff (fun _ => 0) (smallSuperblock 0 1) 2048
    ⟨by decide, ⟨8, by decide⟩, by decide, by decide, by decide⟩).mpr (by decide)

/-- Inodes of 512 bytes: the root inode is in the second sector of the table, and the shortcut points behind the
first. -/
theorem wide_inode_behind_sector :
    Geometry (readAndParseSuperblock 2048 (smallSuperblock 0 2)) ∧
      ¬ RootAgrees (fun _ => 0) (readAndParseSuperblock 2048 (smallSuperblock 0 2)) := by
  refine ⟨⟨by decide, ⟨9, by decide⟩, by decide, by decide, by decide⟩, fun agrees => ?_⟩
  have inside : 512 + 128 ≤ 512 := agrees.shortcut
  omega

end SnapOS.Boot
