/- Where the boot loader and the kernel take an inode from. -/
import Mathlib.Tactic.Ring
import SnapOS.Ext2
import SnapOS.LoadKernel

namespace SnapOS.Fs
open SnapOS.Lib

namespace Ext2Superblock

/-- The geometries that both readers are made for. -/
structure Geometry (super : Ext2Superblock) : Prop where
  logBlockSize : super.logBlockSize ≤ 2
  inodeSize : ∃ k, super.inodeStructSize = 2 ^ k
  wholeInode : sizeofExt2Inode ≤ super.inodeStructSize
  inBlock : super.inodeStructSize ≤ 1024 <<< super.logBlockSize
  firstDataBlock : super.firstDataBlock = if super.logBlockSize = 0 then 1 else 0
  groups : 0 < super.inodesPerBlockgroup

variable (super : Ext2Superblock)

def blockSize : Nat := 1024 * 2 ^ super.logBlockSize

def sectorsPerBlock : Nat := 2 * 2 ^ super.logBlockSize

def bgdtBlock : Nat := if super.logBlockSize = 0 then 2 else 1

def groupCount : Nat := (super.inodeCount + super.inodesPerBlockgroup - 1) / super.inodesPerBlockgroup

def groupOf (ino : Nat) : Nat := (ino - 1) / super.inodesPerBlockgroup

def indexOf (ino : Nat) : Nat := (ino - 1) % super.inodesPerBlockgroup

def blockOffset (ino : Nat) : Nat := super.indexOf ino / (super.blockSize / super.inodeStructSize)

def tableOffset (ino : Nat) : Nat := super.indexOf ino * super.inodeStructSize

variable {super}

/-- The three block sizes, with the numbers that depend on them. -/
theorem Geometry.sizes (geometry : super.Geometry) :
    (super.logBlockSize = 0 ∧ super.blockSize = 1024 ∧ super.sectorsPerBlock = 2 ∧ super.bgdtBlock = 2) ∨
    (super.logBlockSize = 1 ∧ super.blockSize = 2048 ∧ super.sectorsPerBlock = 4 ∧ super.bgdtBlock = 1) ∨
    (super.logBlockSize = 2 ∧ super.blockSize = 4096 ∧ super.sectorsPerBlock = 8 ∧ super.bgdtBlock = 1) := by
  have small := geometry.logBlockSize
  obtain zero | one | two : super.logBlockSize = 0 ∨ super.logBlockSize = 1 ∨ super.logBlockSize = 2 := by omega
  · simp [blockSize, sectorsPerBlock, bgdtBlock, zero]
  · simp [blockSize, sectorsPerBlock, bgdtBlock, one]
  · simp [blockSize, sectorsPerBlock, bgdtBlock, two]

theorem Geometry.shift (geometry : super.Geometry) :
    shl32 1024 super.logBlockSize = super.blockSize ∧
      1024 <<< super.logBlockSize = super.blockSize := by
  obtain ⟨log, size, _⟩ | ⟨log, size, _⟩ | ⟨log, size, _⟩ := geometry.sizes
  all_goals
    rw [log, size]
    decide

theorem Geometry.sectors (geometry : super.Geometry) : super.sectorsPerBlock * 512 = super.blockSize := by
  obtain ⟨_, size, sectors, _⟩ | ⟨_, size, sectors, _⟩ | ⟨_, size, sectors, _⟩ := geometry.sizes
  all_goals rw [sectors, size]

theorem Geometry.blockSize_bounds (geometry : super.Geometry) : 0 < super.blockSize ∧ super.blockSize ≤ 4096 := by
  obtain ⟨_, size, _⟩ | ⟨_, size, _⟩ | ⟨_, size, _⟩ := geometry.sizes
  all_goals
    rw [size]
    decide

theorem Geometry.bgdtBlock_eq (geometry : super.Geometry) :
    super.firstDataBlock + 1 = super.bgdtBlock ∧ (4 - 1) / super.sectorsPerBlock + 1 = super.bgdtBlock := by
  rw [geometry.firstDataBlock]
  obtain ⟨log, _, sectors, block⟩ | ⟨log, _, sectors, block⟩ | ⟨log, _, sectors, block⟩ := geometry.sizes
  all_goals
    rw [log, sectors, block]
    decide

theorem Geometry.inodes (geometry : super.Geometry) :
    super.blockSize / super.inodeStructSize * super.inodeStructSize = super.blockSize := by
  obtain ⟨k, power⟩ := geometry.inodeSize
  have inBlock := geometry.inBlock
  rw [geometry.shift.2] at inBlock
  refine Nat.div_mul_cancel ?_
  have whole : super.blockSize = 2 ^ (10 + super.logBlockSize) := by
    rw [blockSize, Nat.pow_add]
  rw [power, whole] at inBlock ⊢
  exact Nat.pow_dvd_pow 2 ((Nat.pow_le_pow_iff_right (by omega)).mp inBlock)

theorem Geometry.inodeSize_dvd (geometry : super.Geometry) : 128 ∣ super.inodeStructSize := by
  obtain ⟨k, power⟩ := geometry.inodeSize
  have whole : 2 ^ 7 ≤ super.inodeStructSize := geometry.wholeInode
  rw [power] at whole ⊢
  exact Nat.pow_dvd_pow 2 ((Nat.pow_le_pow_iff_right (by omega)).mp whole)

end Ext2Superblock

theorem Ext2Superblock.Geometry.inSector {super : Ext2Superblock} (geometry : super.Geometry) (ino : Nat) :
    super.tableOffset ino % 512 + 128 ≤ 512 := by
  have aligned : 128 ∣ super.tableOffset ino := Dvd.dvd.mul_left geometry.inodeSize_dvd _
  omega

/-- The block of an inode and its offset there, in terms of the table as a whole. -/
theorem Ext2Superblock.Geometry.slot {super : Ext2Superblock} (geometry : super.Geometry) (ino : Nat) :
    super.blockOffset ino * super.blockSize + super.inodeStructSize *
        (super.indexOf ino % (super.blockSize / super.inodeStructSize)) = super.tableOffset ino ∧
      super.inodeStructSize * (super.indexOf ino % (super.blockSize / super.inodeStructSize)) + 128 ≤
        super.blockSize := by
  have inodes := geometry.inodes
  have some : 0 < super.blockSize / super.inodeStructSize := by
    refine Nat.div_pos ?_ (by have := geometry.wholeInode; simp only [sizeofExt2Inode] at this; omega)
    have := geometry.inBlock
    rwa [geometry.shift.2] at this
  have last := Nat.mod_lt (super.indexOf ino) some
  rw [blockOffset, tableOffset]
  generalize super.blockSize / super.inodeStructSize = perBlock at *
  constructor
  · rw [← inodes]
    calc super.indexOf ino / perBlock * (perBlock * super.inodeStructSize) +
          super.inodeStructSize * (super.indexOf ino % perBlock)
        = (perBlock * (super.indexOf ino / perBlock) + super.indexOf ino % perBlock) * super.inodeStructSize := by
          ring
      _ = super.indexOf ino * super.inodeStructSize := by rw [Nat.div_add_mod]
  · have whole : sizeofExt2Inode ≤ super.inodeStructSize := geometry.wholeInode
    calc super.inodeStructSize * (super.indexOf ino % perBlock) + 128
        ≤ super.inodeStructSize * (super.indexOf ino % perBlock) + super.inodeStructSize :=
          Nat.add_le_add_left whole _
      _ = super.inodeStructSize * (super.indexOf ino % perBlock + 1) := by rw [Nat.mul_add, Nat.mul_one]
      _ ≤ super.inodeStructSize * perBlock := Nat.mul_le_mul_left _ last
      _ = super.blockSize := by rw [Nat.mul_comm, inodes]

/-! The two readers -/

section Readers

variable (disk : Memory) (super : Ext2Superblock) (pstart ino : Nat)

def bootGlobals (superblock : Memory) : Boot.Globals :=
  (Boot.rootdirInode disk (Boot.readAndParseSuperblock pstart superblock)).1

/-- The kernel, once it has mounted the partition of a disk with sectors of 512 bytes. -/
def kernelSuperblock : Superblock := ext2Mount ⟨disk, pstart, 512⟩ super

def tableAddr : Nat :=
  disk.load ((pstart + super.bgdtBlock * super.sectorsPerBlock) * 512 + (32 * super.groupOf ino + 8)) 4

/-- The address of the table in the sector that the boot loader reads, whose number has 32 bits. -/
def bootTableAddr : Nat :=
  let lba := (pstart + super.bgdtBlock * super.sectorsPerBlock + 32 * super.groupOf ino / 512) % word32
  disk.load (lba * 512 + (32 * super.groupOf ino % 512 + 8)) 4

/-- No product of the two computations exceeds 32 bits. -/
structure ProductsFit : Prop where
  descOffset : 32 * super.groupOf ino < word32
  tableBytes : 32 * (kernelSuperblock disk super pstart).info.blockGroupCount < word32
  inodeOffset : super.tableOffset ino < word32
  table : tableAddr disk super pstart ino * super.sectorsPerBlock < word32
  bootTable : bootTableAddr disk super pstart ino * super.sectorsPerBlock < word32
  block : (tableAddr disk super pstart ino + super.blockOffset ino) % word32 * super.sectorsPerBlock < word32

/-- No sum of them does either, except that the descriptor's sector may wrap around to one that has the
same address in the same place. -/
structure SumsFit : Prop where
  groups : super.inodeCount + super.inodesPerBlockgroup - 1 < word32
  tableBytes : 32 * super.groupCount + super.blockSize - 1 < word32
  inodeSector : pstart + tableAddr disk super pstart ino * super.sectorsPerBlock + super.tableOffset ino / 512 <
    word32
  descSector : pstart + super.bgdtBlock * super.sectorsPerBlock + 32 * super.groupOf ino / 512 < word32 ∨
    bootTableAddr disk super pstart ino = tableAddr disk super pstart ino

/-- Both take the inode from the same bytes of the disk, and have all of it in their buffers. -/
def SameInode (superblock : Memory) : Prop :=
  let place := Boot.getInode disk (bootGlobals disk pstart superblock) ino
  let sb := kernelSuperblock disk (.ofBytes superblock) pstart
  ∃ slot, ext2InodeSlot sb ino = .ok (.ok slot) ∧
    place.lba * 512 + place.offset = (pstart + slot.lba) * 512 + slot.offset ∧
    place.offset + sizeofExt2Inode ≤ 512 ∧ slot.offset + sizeofExt2Inode ≤ sb.blockSize

variable {disk super pstart ino} {superblock : Memory}

theorem pred_word32 (first : 1 ≤ ino) (fits : ino < word32) : (ino + (word32 - 1)) % word32 = ino - 1 := by
  simp only [word32] at *
  omega

theorem bootGlobals_sectorsPerBlock (geometry : (Ext2Superblock.ofBytes superblock).Geometry) :
    (bootGlobals disk pstart superblock).sectorsPerBlock = (Ext2Superblock.ofBytes superblock).sectorsPerBlock := by
  have shift : shl32 1024 (superblock.load 24 4) = (Ext2Superblock.ofBytes superblock).blockSize :=
    geometry.shift.1
  change shl32 1024 (superblock.load 24 4) / 512 = _
  rw [shift, ← geometry.sectors]
  exact Nat.mul_div_cancel _ (by decide)

theorem bootGlobals_bgdtLba (geometry : (Ext2Superblock.ofBytes superblock).Geometry) :
    (bootGlobals disk pstart superblock).bgdtLba = (pstart + (Ext2Superblock.ofBytes superblock).bgdtBlock *
      (Ext2Superblock.ofBytes superblock).sectorsPerBlock) % word32 := by
  change (pstart + ((4 - 1) / (bootGlobals disk pstart superblock).sectorsPerBlock + 1) *
    (bootGlobals disk pstart superblock).sectorsPerBlock % word32) % word32 = _
  rw [bootGlobals_sectorsPerBlock geometry, geometry.bgdtBlock_eq.2, Nat.add_mod_mod]

theorem getInode_eq (same : Ext2Superblock.ofBytes superblock = super) (geometry : super.Geometry)
    (first : 1 ≤ ino) (inoFits : ino < word32) (products : ProductsFit disk super pstart ino) :
    Boot.getInode disk (bootGlobals disk pstart superblock) ino =
      ⟨(pstart + bootTableAddr disk super pstart ino * super.sectorsPerBlock + super.tableOffset ino / 512) %
          word32, super.tableOffset ino % 512⟩ := by
  subst same
  have group : (ino - 1) / (bootGlobals disk pstart superblock).inodesPerBg *
      Boot.blockGroupDescriptorSize % word32 = 32 * (Ext2Superblock.ofBytes superblock).groupOf ino := by
    rw [Nat.mul_comm]
    exact Nat.mod_eq_of_lt products.descOffset
  have offset : (ino - 1) % (bootGlobals disk pstart superblock).inodesPerBg *
      (bootGlobals disk pstart superblock).inodeSize % word32 =
      (Ext2Superblock.ofBytes superblock).tableOffset ino := Nat.mod_eq_of_lt products.inodeOffset
  have table : Boot.loadFromSector disk
      (((bootGlobals disk pstart superblock).bgdtLba +
        32 * (Ext2Superblock.ofBytes superblock).groupOf ino / Boot.sectorSize) % word32)
      (32 * (Ext2Superblock.ofBytes superblock).groupOf ino % Boot.sectorSize + 8) =
      bootTableAddr disk (.ofBytes superblock) pstart ino := by
    rw [bootGlobals_bgdtLba geometry, Nat.mod_add_mod]
    rfl
  simp only [Boot.getInode, pred_word32 first inoFits, group, offset, table, bootGlobals_sectorsPerBlock geometry,
    Nat.mod_eq_of_lt products.bootTable]
  rfl

/-! The kernel's table of group descriptors -/

theorem blockGroupCount_eq (bdev : BlockDev) (groups : 0 < super.inodesPerBlockgroup)
    (countFits : super.inodeCount < word32) (groupFits : super.inodesPerBlockgroup < word32) :
    (ext2Mount bdev super).info.blockGroupCount =
      if super.inodeCount + super.inodesPerBlockgroup - 1 < word32 then super.groupCount else 0 := by
  change (super.inodeCount + super.inodesPerBlockgroup + (word32 - 1)) % word32 / super.inodesPerBlockgroup = _
  split_ifs with fits
  · have sum : (super.inodeCount + super.inodesPerBlockgroup + (word32 - 1)) % word32 =
        super.inodeCount + super.inodesPerBlockgroup - 1 := by
      simp only [word32] at *
      omega
    rw [sum, Ext2Superblock.groupCount]
  · refine Nat.div_eq_of_lt ?_
    simp only [word32] at *
    omega

theorem groupOf_lt (groups : 0 < super.inodesPerBlockgroup) (first : 1 ≤ ino) (last : ino ≤ super.inodeCount) :
    super.groupOf ino < super.groupCount := by
  have split : super.inodeCount + super.inodesPerBlockgroup - 1 =
      super.inodeCount - 1 + super.inodesPerBlockgroup := by omega
  rw [Ext2Superblock.groupOf, Ext2Superblock.groupCount, split, Nat.add_div_right _ groups]
  exact Nat.lt_succ_of_le (Nat.div_le_div_right (by omega))

/-- The table is loaded in whole blocks, of which the device fills the whole sectors, or not at all if its size in
blocks has wrapped around to zero. -/
theorem mountTable_size (bdev : BlockDev) {count blockSize : Nat}
    (isCount : (ext2Mount bdev super).info.blockGroupCount = count)
    (isSize : (ext2Mount bdev super).blockSize = blockSize) (nonzero : 0 < blockSize) :
    (ext2Mount bdev super).info.bgdTable.size =
      if 32 * count % word32 + blockSize ≤ word32 then
        (32 * count % word32 + blockSize - 1) / blockSize * (blockSize - blockSize % bdev.sectorSize)
      else 0 := by
  have small : blockSize < word32 := isSize ▸ Nat.mod_lt _ (by decide)
  have bytes : 32 * count % word32 < word32 := Nat.mod_lt _ (by decide)
  have shape : (ext2Mount bdev super).info.bgdTable.size =
      min ((32 * count % word32 + blockSize + (word32 - 1)) % word32 / blockSize *
          (blockSize / bdev.sectorSize) % word32 * bdev.sectorSize)
        ((32 * count % word32 + blockSize + (word32 - 1)) % word32 / blockSize * blockSize % word32) := by
    subst isCount isSize
    rfl
  rw [shape]
  generalize 32 * count % word32 = table at *
  split_ifs with fits
  · have total : (table + blockSize + (word32 - 1)) % word32 = table + blockSize - 1 := by
      simp only [word32] at *
      omega
    rw [total]
    have upper : (table + blockSize - 1) / blockSize * blockSize ≤ table + blockSize - 1 := Nat.div_mul_le_self _ _
    generalize (table + blockSize - 1) / blockSize = blocks at *
    have sectors : blocks * (blockSize / bdev.sectorSize) ≤ blocks * blockSize :=
      Nat.mul_le_mul_left _ (Nat.div_le_self _ _)
    rw [Nat.mod_eq_of_lt (show blocks * (blockSize / bdev.sectorSize) < word32 by omega),
      Nat.mod_eq_of_lt (show blocks * blockSize < word32 by omega), Nat.mul_assoc, Nat.div_mul_self_eq_mod_sub_self]
    exact min_eq_left (Nat.mul_le_mul_left _ (Nat.sub_le _ _))
  · have none : (table + blockSize + (word32 - 1)) % word32 / blockSize = 0 := by
      refine Nat.div_eq_of_lt ?_
      simp only [word32] at *
      omega
    simp [none]

theorem kernelSuperblock_sizes (disk : Memory) (pstart : Nat) (geometry : super.Geometry) :
    (kernelSuperblock disk super pstart).blockSize = super.blockSize ∧
      (kernelSuperblock disk super pstart).sectorsPerBlock = super.sectorsPerBlock := by
  have sectors : shl32 1024 super.logBlockSize / 512 = super.sectorsPerBlock := by
    rw [geometry.shift.1, ← geometry.sectors]
    exact Nat.mul_div_cancel _ (by decide)
  exact ⟨geometry.shift.1, sectors⟩

def tableBlocks (super : Ext2Superblock) (count : Nat) : Nat :=
  (32 * count % word32 + super.blockSize + (word32 - 1)) % word32 / super.blockSize

theorem bgdTable_eq (geometry : super.Geometry) {count : Nat}
    (isCount : (kernelSuperblock disk super pstart).info.blockGroupCount = count) :
    (kernelSuperblock disk super pstart).info.bgdTable =
      BlockDev.read ⟨disk, pstart, 512⟩ (super.bgdtBlock * super.sectorsPerBlock % word32)
        (tableBlocks super count * super.sectorsPerBlock % word32)
          (tableBlocks super count * super.blockSize % word32) := by
  have start : (super.firstDataBlock + 1) % word32 = super.bgdtBlock := by
    rw [geometry.bgdtBlock_eq.1]
    obtain ⟨_, _, _, block⟩ | ⟨_, _, _, block⟩ | ⟨_, _, _, block⟩ := geometry.sizes
    all_goals
      rw [block]
      decide
  subst isCount
  have sectors : super.blockSize / 512 = super.sectorsPerBlock := by
    rw [← geometry.sectors]
    exact Nat.mul_div_cancel _ (by decide)
  simp only [kernelSuperblock, ext2Mount, ext2FillBgdTableInfo, geometry.shift.1, start, sectors]
  rfl

theorem bgdTable_size (geometry : super.Geometry) {count : Nat}
    (isCount : (kernelSuperblock disk super pstart).info.blockGroupCount = count) (fits : 32 * count < word32) :
    (32 * count + super.blockSize - 1 < word32 →
      32 * count ≤ (kernelSuperblock disk super pstart).info.bgdTable.size) ∧
    (¬ 32 * count + super.blockSize - 1 < word32 → (kernelSuperblock disk super pstart).info.bgdTable.size = 0) := by
  have nonzero := geometry.blockSize_bounds.1
  have sectors : super.blockSize % 512 = 0 := by
    rw [← geometry.sectors]
    exact Nat.mul_mod_left _ _
  have size := mountTable_size ⟨disk, pstart, 512⟩ isCount geometry.shift.1 nonzero
  rw [← kernelSuperblock, Nat.mod_eq_of_lt fits] at size
  refine ⟨fun sum => ?_, fun sum => ?_⟩
  · rw [size, if_pos (by omega), sectors, Nat.sub_zero]
    have := Nat.lt_div_mul_add nonzero (a := 32 * count + super.blockSize - 1)
    omega
  · rw [size, if_neg (by omega)]

theorem bgdTable_load (geometry : super.Geometry) (startFits : pstart < word32) {count : Nat}
    (isCount : (kernelSuperblock disk super pstart).info.blockGroupCount = count) :
    (kernelSuperblock disk super pstart).info.bgdTable.bytes.load (32 * super.groupOf ino + 8) 4 =
      tableAddr disk super pstart ino := by
  have small : super.bgdtBlock * super.sectorsPerBlock ≤ 8 := by
    obtain ⟨_, _, sectors, block⟩ | ⟨_, _, sectors, block⟩ | ⟨_, _, sectors, block⟩ := geometry.sizes
    all_goals simp [sectors, block]
  have lba : (pstart + super.bgdtBlock * super.sectorsPerBlock % word32) % word64 =
      pstart + super.bgdtBlock * super.sectorsPerBlock := by
    simp only [word32, word64] at *
    omega
  rw [bgdTable_eq geometry isCount, BlockDev.read, Memory.load_shift]
  simp only [lba]
  rfl

/-- The block of the inode is computed without wrapping around. -/
theorem targetBlock_eq (geometry : super.Geometry) (products : ProductsFit disk super pstart ino) :
    (tableAddr disk super pstart ino + super.blockOffset ino) % word32 * super.sectorsPerBlock % word32 =
      (tableAddr disk super pstart ino + super.blockOffset ino) * super.sectorsPerBlock := by
  have offset : super.blockOffset ino * super.blockSize ≤ super.tableOffset ino := by
    have := (geometry.slot ino).1
    omega
  have small := products.inodeOffset
  have table := products.table
  have block := products.block
  have sum : tableAddr disk super pstart ino + super.blockOffset ino < word32 := by
    obtain ⟨_, size, sectors, _⟩ | ⟨_, size, sectors, _⟩ | ⟨_, size, sectors, _⟩ := geometry.sizes
    all_goals
      rw [size] at offset
      rw [sectors] at table
      simp only [word32] at *
      omega
  rw [Nat.mod_eq_of_lt sum] at block ⊢
  exact Nat.mod_eq_of_lt block

theorem ext2InodeSlot_eq (geometry : super.Geometry) (first : 1 ≤ ino) (last : ino ≤ super.inodeCount)
    (countFits : super.inodeCount < word32) (groupFits : super.inodesPerBlockgroup < word32)
    (startFits : pstart < word32) (products : ProductsFit disk super pstart ino) :
    ext2InodeSlot (kernelSuperblock disk super pstart) ino =
      if super.inodeCount + super.inodesPerBlockgroup - 1 < word32 then
        if 32 * super.groupCount + super.blockSize - 1 < word32 then
          .ok (.ok ⟨(tableAddr disk super pstart ino + super.blockOffset ino) * super.sectorsPerBlock,
            super.inodeStructSize * (super.indexOf ino % (super.blockSize / super.inodeStructSize))⟩)
        else .error .outOfBounds
      else .ok (.error (-eInval)) := by
  have count := blockGroupCount_eq ⟨disk, pstart, 512⟩ geometry.groups countFits groupFits
  obtain ⟨blockSize, sectors⟩ := kernelSuperblock_sizes disk pstart geometry
  have pred := pred_word32 first (show ino < word32 by omega)
  have inGroup := groupOf_lt geometry.groups first last
  have group : (ino - 1) / (kernelSuperblock disk super pstart).info.inodesPerGroup = super.groupOf ino := rfl
  have index : (ino - 1) % (kernelSuperblock disk super pstart).info.inodesPerGroup = super.indexOf ino := rfl
  have size : (kernelSuperblock disk super pstart).info.superblock.inodeStructSize = super.inodeStructSize := rfl
  rw [← kernelSuperblock] at count
  simp only [ext2InodeSlot, pred, group, index, size, blockSize, sectors]
  by_cases sum : super.inodeCount + super.inodesPerBlockgroup - 1 < word32
  · rw [if_pos sum] at count ⊢
    have bytes := products.tableBytes
    rw [count] at bytes ⊢
    rw [if_neg (not_le.mpr inGroup)]
    obtain ⟨whole, empty⟩ := bgdTable_size geometry count bytes
    by_cases fits : 32 * super.groupCount + super.blockSize - 1 < word32
    · have inside : sizeofBlockgroupDesc * super.groupOf ino + 8 + 4 ≤
          (kernelSuperblock disk super pstart).info.bgdTable.size := by
        have := whole fits
        simp only [sizeofBlockgroupDesc]
        omega
      have offset : super.inodeStructSize * (super.indexOf ino % (super.blockSize / super.inodeStructSize)) %
          word32 = super.inodeStructSize * (super.indexOf ino % (super.blockSize / super.inodeStructSize)) := by
        have inBlock := (geometry.slot ino).2
        have small := geometry.blockSize_bounds.2
        refine Nat.mod_eq_of_lt ?_
        simp only [word32]
        omega
      have table : (kernelSuperblock disk super pstart).info.bgdTable.bytes.load
          (sizeofBlockgroupDesc * super.groupOf ino + 8) 4 = tableAddr disk super pstart ino :=
        bgdTable_load geometry startFits count
      have target := targetBlock_eq geometry products
      rw [Ext2Superblock.blockOffset] at target
      rw [if_pos fits, Buffer.load_ok inside, Exec.ok_bind, table, offset, target, Ext2Superblock.blockOffset]
    · have outside : ¬ sizeofBlockgroupDesc * super.groupOf ino + 8 + 4 ≤
          (kernelSuperblock disk super pstart).info.bgdTable.size := by
        rw [empty fits]
        omega
      rw [if_neg fits, Buffer.load, if_neg outside, Exec.error_bind]
  · rw [if_neg sum] at count ⊢
    rw [count, if_pos (Nat.zero_le _)]

theorem slot_address (geometry : super.Geometry) (pstart ino table : Nat) :
    (pstart + (table + super.blockOffset ino) * super.sectorsPerBlock) * 512 +
        super.inodeStructSize * (super.indexOf ino % (super.blockSize / super.inodeStructSize)) =
      (pstart + table * super.sectorsPerBlock + super.tableOffset ino / 512) * 512 +
        super.tableOffset ino % 512 := by
  have sectors := geometry.sectors
  calc (pstart + (table + super.blockOffset ino) * super.sectorsPerBlock) * 512 +
        super.inodeStructSize * (super.indexOf ino % (super.blockSize / super.inodeStructSize))
      = (pstart + table * super.sectorsPerBlock) * 512 + (super.blockOffset ino * (super.sectorsPerBlock * 512) +
          super.inodeStructSize * (super.indexOf ino % (super.blockSize / super.inodeStructSize))) := by ring
    _ = (pstart + table * super.sectorsPerBlock) * 512 +
          (512 * (super.tableOffset ino / 512) + super.tableOffset ino % 512) := by
        rw [sectors, (geometry.slot ino).1, Nat.div_add_mod]
    _ = _ := by ring

/-- The sector numbers agree exactly if the boot loader has the right table and its sum does not wrap. -/
theorem sector_eq_iff {table bootTable sectors offset : Nat} (nonzero : 0 < sectors)
    (tableFits : table * sectors < word32) (bootFits : bootTable * sectors < word32) :
    (pstart + bootTable * sectors + offset) % word32 = pstart + table * sectors + offset ↔
      pstart + table * sectors + offset < word32 ∧ bootTable = table := by
  constructor
  · intro same
    have equal : bootTable * sectors = table * sectors := by
      simp only [word32] at *
      omega
    refine ⟨same ▸ Nat.mod_lt _ (by decide), Nat.eq_of_mul_eq_mul_right nonzero equal⟩
  · rintro ⟨fits, rfl⟩
    exact Nat.mod_eq_of_lt fits

theorem bootTableAddr_eq
    (fits : pstart + super.bgdtBlock * super.sectorsPerBlock + 32 * super.groupOf ino / 512 < word32) :
    bootTableAddr disk super pstart ino = tableAddr disk super pstart ino := by
  rw [bootTableAddr, tableAddr]
  simp only [Nat.mod_eq_of_lt fits]
  generalize super.bgdtBlock * super.sectorsPerBlock = start
  generalize 32 * super.groupOf ino = desc
  have whole : (pstart + start + desc / 512) * 512 + (desc % 512 + 8) = (pstart + start) * 512 + (desc + 8) := by
    omega
  rw [whole]

/-- For every geometry that no product exceeds, the boot loader and the kernel take an inode from the same
place exactly if no sum exceeds 32 bits. -/
theorem sameInode_iff (disk superblock : Memory) (pstart ino : Nat)
    (geometry : (Ext2Superblock.ofBytes superblock).Geometry) (startFits : pstart < word32) (first : 1 ≤ ino)
    (last : ino ≤ (Ext2Superblock.ofBytes superblock).inodeCount)
    (products : ProductsFit disk (.ofBytes superblock) pstart ino) :
    SameInode disk pstart ino superblock ↔ SumsFit disk (.ofBytes superblock) pstart ino := by
  have countFits : (Ext2Superblock.ofBytes superblock).inodeCount < word32 := Memory.load_lt superblock 0 4
  have groupFits : (Ext2Superblock.ofBytes superblock).inodesPerBlockgroup < word32 :=
    Memory.load_lt superblock 40 4
  have sectors : 0 < (Ext2Superblock.ofBytes superblock).sectorsPerBlock := by
    have := geometry.sectors
    have := geometry.blockSize_bounds.1
    omega
  have boot := getInode_eq rfl geometry first (lt_of_le_of_lt last countFits) products
  have kernel := ext2InodeSlot_eq geometry first last countFits groupFits startFits products
  have size := (kernelSuperblock_sizes disk pstart geometry).1
  have inSector := geometry.inSector ino
  have inBlock := (geometry.slot ino).2
  have sameSector := slot_address geometry pstart ino (tableAddr disk (.ofBytes superblock) pstart ino)
  simp only [SameInode, boot, kernel, size]
  constructor
  · rintro ⟨slot, taken, equal, _⟩
    split_ifs at taken with sum fits
    · obtain rfl := Except.ok.inj (Except.ok.inj taken)
      rw [sameSector] at equal
      have sector := Nat.eq_of_mul_eq_mul_right (by decide) (Nat.add_right_cancel equal)
      obtain ⟨inodeSector, table⟩ := (sector_eq_iff sectors products.table products.bootTable).mp sector
      exact ⟨sum, fits, inodeSector, Or.inr table⟩
    · cases Except.ok.inj taken
  · rintro ⟨sum, fits, inodeSector, descSector⟩
    have table := descSector.elim bootTableAddr_eq id
    have sector := (sector_eq_iff sectors products.table products.bootTable).mpr ⟨inodeSector, table⟩
    rw [if_pos sum, if_pos fits]
    refine ⟨_, rfl, ?_, inSector, inBlock⟩
    rw [sector, sameSector]

end Readers

def smallSuperblock : Memory := fun i =>
  if i = 0 then 16 else if i = 20 then 1 else if i = 40 then 8 else if i = 88 then 128 else 0

theorem smallSuperblock_geometry : (Ext2Superblock.ofBytes smallSuperblock).Geometry :=
  ⟨by decide +kernel, ⟨7, by decide +kernel⟩, by decide +kernel, by decide +kernel, by decide +kernel,
    by decide +kernel⟩

/-- A disk whose only descriptor that is not zero lies at byte `desc`, for a table in block 2048. -/
def oneTable (desc : Nat) : Memory := fun a => if a = desc + 9 then 8 else 0

theorem sameInode_iff_secondGroup : SameInode (oneTable (67 * 512 + 32)) 63 10 smallSuperblock :=
  (sameInode_iff (oneTable (67 * 512 + 32)) smallSuperblock 63 10 smallSuperblock_geometry (by decide) (by decide)
    (by decide +kernel) ⟨by decide +kernel, by decide +kernel, by decide +kernel, by decide +kernel,
      by decide +kernel, by decide +kernel⟩).mpr
    ⟨by decide +kernel, by decide +kernel, by decide +kernel, Or.inl (by decide +kernel)⟩

/-- A partition that starts 2 MiB below 2 TiB. The sector of its inode table has the number 2 ^ 32, which
the boot loader takes for zero. -/
theorem partition_across_2TiB :
    (Ext2Superblock.ofBytes smallSuperblock).Geometry ∧
      ProductsFit (oneTable (0xFFFFF004 * 512)) (.ofBytes smallSuperblock) 0xFFFFF000 1 ∧
      Boot.getInode (oneTable (0xFFFFF004 * 512))
        (bootGlobals (oneTable (0xFFFFF004 * 512)) 0xFFFFF000 smallSuperblock) 1 = ⟨0, 0⟩ ∧
      ext2InodeSlot (kernelSuperblock (oneTable (0xFFFFF004 * 512)) (.ofBytes smallSuperblock) 0xFFFFF000) 1 =
        .ok (.ok ⟨4096, 0⟩) ∧
      ¬ SameInode (oneTable (0xFFFFF004 * 512)) 0xFFFFF000 1 smallSuperblock := by
  have boot : Boot.getInode (oneTable (0xFFFFF004 * 512))
      (bootGlobals (oneTable (0xFFFFF004 * 512)) 0xFFFFF000 smallSuperblock) 1 = ⟨0, 0⟩ := by decide +kernel
  have kernel : ext2InodeSlot (kernelSuperblock (oneTable (0xFFFFF004 * 512)) (.ofBytes smallSuperblock)
      0xFFFFF000) 1 = .ok (.ok ⟨4096, 0⟩) := by rfl
  refine ⟨smallSuperblock_geometry, ⟨by decide +kernel, by decide +kernel, by decide +kernel, by decide +kernel,
    by decide +kernel, by decide +kernel⟩, boot, kernel, ?_⟩
  rintro ⟨slot, taken, equal, _⟩
  rw [kernel] at taken
  obtain rfl := Except.ok.inj (Except.ok.inj taken)
  rw [boot] at equal
  cases equal

end SnapOS.Fs
