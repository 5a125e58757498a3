/- Where ext2_read_inode takes an inode from, for every superblock that ext2_probe accepts. -/
import SnapOS.Ext2Io
import SnapOS.SameInode

namespace SnapOS.Ext2Io
open SnapOS.Lib SnapOS.Fs

section Slot

variable (sb : Superblock) (ino : Nat)

def inodeGroup : Nat := (ino - 1) / sb.info.inodesPerGroup

def inodeIndex : Nat := (ino - 1) % sb.info.inodesPerGroup

def inodesPerBlock : Nat := sb.blockSize / sb.info.superblock.inodeStructSize

def tableBlock : Nat := sb.info.bgdTable.bytes.load (32 * inodeGroup sb ino + 8) 4

/-- The driver takes a block for so many inodes. -/
def blockOffset : Nat := inodeIndex sb ino / inodesPerBlock sb

def slotOf : InodeSlot :=
  ⟨(tableBlock sb ino + blockOffset sb ino) % word32 * sb.sectorsPerBlock % word32,
    sb.info.superblock.inodeStructSize * (inodeIndex sb ino % inodesPerBlock sb) % word32⟩

structure SlotComputed : Prop where
  groups : sb.info.inodesPerGroup ≠ 0
  inside : inodeGroup sb ino < sb.info.blockGroupCount
  some : sb.info.superblock.inodeStructSize ≠ 0
  fits : sb.info.superblock.inodeStructSize ≤ sb.blockSize
  loaded : 32 * inodeGroup sb ino + 12 ≤ sb.info.bgdTable.size

variable {sb ino}

theorem SlotComputed.perBlock (computed : SlotComputed sb ino) : inodesPerBlock sb ≠ 0 :=
  Nat.ne_of_gt (Nat.div_pos computed.fits (Nat.pos_of_ne_zero computed.some))

theorem ext2InodeSlot_computed (computed : SlotComputed sb ino) (first : 1 ≤ ino) (small : ino < word32) (io : Io) :
    ext2InodeSlot sb ino io = .ok (.ok (slotOf sb ino)) io := by
  have pred := pred_word32 first small
  have perBlock : sb.blockSize / sb.info.superblock.inodeStructSize ≠ 0 := computed.perBlock
  have table : sb.info.bgdTable.load (sizeofBlockgroupDesc * inodeGroup sb ino + 8) 4 = .ok (tableBlock sb ino) :=
    Buffer.load_ok computed.loaded
  have group : ¬ inodeGroup sb ino ≥ sb.info.blockGroupCount := Nat.not_le.mpr computed.inside
  rw [inodeGroup] at table group
  rw [ext2InodeSlot, pred, divide, if_neg computed.groups, remainder, if_neg computed.groups, pure_bind, if_neg group,
    pure_bind, divide, if_neg computed.some, pure_bind, divide, if_neg perBlock, pure_bind, remainder, if_neg perBlock,
    pure_bind, table]
  rfl

theorem ext2InodeSlot_only (first : 1 ≤ ino) (small : ino < word32) {slot : InodeSlot} {io io' : Io}
    (done : ext2InodeSlot sb ino io = .ok (.ok slot) io') : SlotComputed sb ino ∧ slot = slotOf sb ino := by
  have computed : SlotComputed sb ino := by
    have pred := pred_word32 first small
    rw [ext2InodeSlot, pred] at done
    obtain ⟨group, io₁, divided, done⟩ := Steps.bind_eq_ok.mp done
    rw [divide] at divided
    split at divided
    · cases divided
    · next groups =>
        cases divided
        split at done
        · cases done
        · next inside =>
            obtain ⟨index, io₁, -, done⟩ := Steps.bind_eq_ok.mp done
            obtain ⟨perBlock, io₂, divided, done⟩ := Steps.bind_eq_ok.mp done
            rw [divide] at divided
            split at divided
            · cases divided
            · next some =>
                cases divided
                obtain ⟨offset, io₃, divided, done⟩ := Steps.bind_eq_ok.mp done
                rw [divide] at divided
                split at divided
                · cases divided
                · next each =>
                    obtain ⟨within, io₄, -, done⟩ := Steps.bind_eq_ok.mp done
                    obtain ⟨table, io₅, loaded, done⟩ := Steps.bind_eq_ok.mp done
                    refine ⟨groups, Nat.not_le.mp inside, some, ?_, ?_⟩
                    · exact Nat.not_lt.mp fun large => each (Nat.div_eq_of_lt large)
                    · by_contra outside
                      have fault : sb.info.bgdTable.load
                          (sizeofBlockgroupDesc * ((ino - 1) / sb.info.inodesPerGroup) + 8) 4 = .error .outOfBounds :=
                        if_neg outside
                      rw [fault] at loaded
                      cases loaded
  refine ⟨computed, ?_⟩
  rw [ext2InodeSlot_computed computed first small] at done
  cases done
  rfl

theorem slotOf_offset (some : 1 ≤ sb.info.superblock.inodeStructSize)
    (fits : sb.info.superblock.inodeStructSize ≤ sb.blockSize) (small : sb.blockSize < word32) :
    (slotOf sb ino).offset = sb.info.superblock.inodeStructSize * (inodeIndex sb ino % inodesPerBlock sb) := by
  refine Nat.mod_eq_of_lt ?_
  have within := Nat.mod_lt (inodeIndex sb ino) (Nat.div_pos fits some)
  calc sb.info.superblock.inodeStructSize * (inodeIndex sb ino % inodesPerBlock sb)
      ≤ sb.info.superblock.inodeStructSize * (sb.blockSize / sb.info.superblock.inodeStructSize) :=
        Nat.mul_le_mul_left _ (Nat.le_of_lt within)
    _ ≤ sb.blockSize := Nat.mul_div_le _ _
    _ < word32 := small

end Slot

/-! The slot of an inode on disk -/

section Table

variable (bdev : BlockDev) (super : Ext2Superblock) (ino : Nat)

/-- The descriptors that are there lead to a slot in the part of the block buffer that was read, and it holds the bytes
of the inode table from the inode's place on. -/
def HitsSlot (sb : Superblock) (ino : Nat) : Prop :=
  ∃ slot, (∀ io, ext2InodeSlot sb ino io = .ok (.ok slot) io) ∧
    slot.offset + sizeofExt2Inode ≤ (sb.readBlock slot.lba).size ∧
    slot.lba * sb.bdev.sectorSize + slot.offset =
      tableBlock sb ino * sb.blockSize + inodeIndex sb ino * sb.info.superblock.inodeStructSize

def tableBytes : Nat := 32 * super.groupCount % word32

def targetBlock : Nat := tableBlock (Fs.ext2Mount bdev super) ino + blockOffset (Fs.ext2Mount bdev super) ino

/-- The numbers for which the computation is right. The last one compares what `targetBlock` blocks have behind their
last whole sector, and what the product loses, with what the blocks of the table have behind their last inode. -/
structure SlotFits : Prop where
  groups : super.inodeCount + super.inodesPerBlockgroup ≤ word32
  table : tableBytes super + (Fs.ext2Mount bdev super).blockSize ≤ word32
  loaded : 32 * super.groupOf ino + 12 ≤
    (tableBytes super + (Fs.ext2Mount bdev super).blockSize - 1) / (Fs.ext2Mount bdev super).blockSize *
      ((Fs.ext2Mount bdev super).blockSize - (Fs.ext2Mount bdev super).blockSize % bdev.sectorSize)
  inside : super.inodeStructSize * (super.indexOf ino % inodesPerBlock (Fs.ext2Mount bdev super)) + sizeofExt2Inode ≤
    (Fs.ext2Mount bdev super).blockSize - (Fs.ext2Mount bdev super).blockSize % bdev.sectorSize
  address : targetBlock bdev super ino * ((Fs.ext2Mount bdev super).blockSize % bdev.sectorSize) +
      word32 * bdev.sectorSize * (targetBlock bdev super ino * (Fs.ext2Mount bdev super).sectorsPerBlock / word32) =
    blockOffset (Fs.ext2Mount bdev super) ino * ((Fs.ext2Mount bdev super).blockSize % super.inodeStructSize)

end Table

section Hits

variable {bdev : BlockDev} {super : Ext2Superblock} {ino : Nat}

/-- The computed address and that of the table, in terms of what both of them leave out. -/
theorem address_iff (base blockSize sectorSize inodeSize index : Nat) :
    (base + index / (blockSize / inodeSize)) % word32 * (blockSize / sectorSize) % word32 * sectorSize +
          inodeSize * (index % (blockSize / inodeSize)) = base * blockSize + index * inodeSize ↔
      (base + index / (blockSize / inodeSize)) * (blockSize % sectorSize) + word32 * sectorSize *
          ((base + index / (blockSize / inodeSize)) * (blockSize / sectorSize) / word32) =
        index / (blockSize / inodeSize) * (blockSize % inodeSize) := by
  have indexSplit := Nat.div_add_mod' index (blockSize / inodeSize)
  have sectorSplit := Nat.div_add_mod' blockSize sectorSize
  have inodeSplit := Nat.div_add_mod' blockSize inodeSize
  rw [Nat.mod_mul_mod]
  generalize blockSize / inodeSize = perBlock at *
  generalize blockSize / sectorSize = sectors at *
  generalize blockSize % sectorSize = restOfSectors at *
  generalize blockSize % inodeSize = restOfInodes at *
  generalize index / perBlock = offset at *
  generalize index % perBlock = within at *
  have productSplit := Nat.div_add_mod' ((base + offset) * sectors) word32
  generalize (base + offset) * sectors / word32 = lost at *
  generalize (base + offset) * sectors % word32 = lba at *
  -- Both sides of the first equation fall short of the whole blocks by the two sides of the second.
  have left : lba * sectorSize + word32 * sectorSize * lost + (base + offset) * restOfSectors =
      (base + offset) * blockSize := by
    calc lba * sectorSize + word32 * sectorSize * lost + (base + offset) * restOfSectors
        = (lost * word32 + lba) * sectorSize + (base + offset) * restOfSectors := by ring
      _ = (base + offset) * (sectors * sectorSize + restOfSectors) := by
          rw [productSplit]
          ring
      _ = (base + offset) * blockSize := by rw [sectorSplit]
  have right : index * inodeSize + offset * restOfInodes = offset * blockSize + inodeSize * within := by
    calc index * inodeSize + offset * restOfInodes
        = (offset * perBlock + within) * inodeSize + offset * restOfInodes := by rw [indexSplit]
      _ = offset * (perBlock * inodeSize + restOfInodes) + inodeSize * within := by ring
      _ = offset * blockSize + inodeSize * within := by rw [inodeSplit]
  have sum : (base + offset) * blockSize = base * blockSize + offset * blockSize := Nat.add_mul _ _ _
  omega

theorem slotComputed_iff (bdev : BlockDev) {bytes : Memory}
    (groups : (Ext2Superblock.ofBytes bytes).inodesPerBlockgroup ≠ 0)
    (some : 1 ≤ (Ext2Superblock.ofBytes bytes).inodeStructSize)
    (inBlock : (Ext2Superblock.ofBytes bytes).inodeStructSize ≤ blockSizeOf bytes)
    (first : 1 ≤ ino) (last : ino ≤ (Ext2Superblock.ofBytes bytes).inodeCount) :
    SlotComputed (Fs.ext2Mount bdev (.ofBytes bytes)) ino ↔
      (Ext2Superblock.ofBytes bytes).inodeCount + (Ext2Superblock.ofBytes bytes).inodesPerBlockgroup ≤ word32 ∧
      tableBytes (.ofBytes bytes) + blockSizeOf bytes ≤ word32 ∧
      32 * (Ext2Superblock.ofBytes bytes).groupOf ino + 12 ≤
        (tableBytes (.ofBytes bytes) + blockSizeOf bytes - 1) / blockSizeOf bytes *
          (blockSizeOf bytes - blockSizeOf bytes % bdev.sectorSize) := by
  have positive := Nat.pos_of_ne_zero groups
  have count := blockGroupCount_eq bdev positive (Memory.load_lt bytes 0 4) (Memory.load_lt bytes 40 4)
  have inGroup := groupOf_lt positive first last
  by_cases sum : (Ext2Superblock.ofBytes bytes).inodeCount + (Ext2Superblock.ofBytes bytes).inodesPerBlockgroup ≤ word32
  · rw [if_pos (by omega)] at count
    have size := mountTable_size bdev count rfl (some.trans inBlock)
    constructor
    · intro computed
      have loaded := computed.loaded
      rw [size] at loaded
      split_ifs at loaded with fits
      · exact ⟨sum, fits, loaded⟩
      · omega
    · rintro ⟨-, fits, loaded⟩
      refine ⟨groups, count ▸ inGroup, Nat.ne_of_gt some, inBlock, ?_⟩
      rw [size]
      exact (if_pos fits).symm ▸ loaded
  · rw [if_neg (by omega)] at count
    refine ⟨fun computed => ?_, fun fits => absurd fits.1 sum⟩
    exact absurd (count ▸ computed.inside) (Nat.not_lt_zero _)

/-- For every superblock that is accepted, with inodes that fit into a block, and every inode of the file system: it is
taken from its place exactly if no sum of the group's descriptor wraps around, the slot has room for an inode, and the
blocks of the table are full. -/
theorem ext2InodeSlot_hits_iff (bdev : BlockDev) {bytes : Memory} (accepted : ext2Accepts bytes = true)
    (groups : (Ext2Superblock.ofBytes bytes).inodesPerBlockgroup ≠ 0)
    (some : 1 ≤ (Ext2Superblock.ofBytes bytes).inodeStructSize)
    (inBlock : (Ext2Superblock.ofBytes bytes).inodeStructSize ≤ blockSizeOf bytes)
    {ino : Nat} (first : 1 ≤ ino) (last : ino ≤ (Ext2Superblock.ofBytes bytes).inodeCount) :
    HitsSlot (Fs.ext2Mount bdev (.ofBytes bytes)) ino ↔ SlotFits bdev (.ofBytes bytes) ino := by
  have small : ino < word32 := lt_of_le_of_lt last (Memory.load_lt bytes 0 4)
  have computed := slotComputed_iff bdev groups some inBlock first last
  have page : blockSizeOf bytes ≤ pageSize := by
    simp only [ext2Accepts, Bool.and_eq_true, decide_eq_true_eq] at accepted
    exact accepted.2
  have slotOffset : (slotOf (Fs.ext2Mount bdev (.ofBytes bytes)) ino).offset =
      (Ext2Superblock.ofBytes bytes).inodeStructSize *
        ((Ext2Superblock.ofBytes bytes).indexOf ino % inodesPerBlock (Fs.ext2Mount bdev (.ofBytes bytes))) :=
    slotOf_offset some inBlock (lt_of_le_of_lt page (by decide))
  have readSize : ∀ lba, ((Fs.ext2Mount bdev (.ofBytes bytes)).readBlock lba).size =
      blockSizeOf bytes - blockSizeOf bytes % bdev.sectorSize := by
    intro lba
    rw [← Nat.div_mul_self_eq_mod_sub_self]
    exact min_eq_left (Nat.div_mul_le_self _ _)
  have address := address_iff (tableBlock (Fs.ext2Mount bdev (.ofBytes bytes)) ino) (blockSizeOf bytes)
    bdev.sectorSize (Ext2Superblock.ofBytes bytes).inodeStructSize ((Ext2Superblock.ofBytes bytes).indexOf ino)
  constructor
  · rintro ⟨slot, done, inside, same⟩
    obtain ⟨reached, rfl⟩ := ext2InodeSlot_only first small (done ⟨[], 0, []⟩)
    obtain ⟨sum, table, loaded⟩ := computed.mp reached
    rw [readSize, slotOffset] at inside
    rw [slotOffset] at same
    exact ⟨sum, table, loaded, inside, address.mp same⟩
  · rintro ⟨sum, table, loaded, inside, same⟩
    refine ⟨_, ext2InodeSlot_computed (computed.mpr ⟨sum, table, loaded⟩) first small, ?_, ?_⟩
    · rw [readSize, slotOffset]
      exact inside
    · rw [slotOffset]
      exact address.mpr same

end Hits

def acceptedBytes (inodes perGroup inodeSize : UInt8) : Memory := fun i =>
  if i = 0 then inodes else if i = 20 then 1 else if i = 40 then perGroup else if i = 56 then 0x53
  else if i = 57 then 0xEF else if i = 76 then 1 else if i = 88 then inodeSize else 0

def tableInFive : BlockDev := ⟨fun a => if a = 2048 + 8 then 5 else 0, 0, 512⟩

theorem ext2InodeSlot_hits_iff_nextBlock :
    HitsSlot (Fs.ext2Mount tableInFive (.ofBytes (acceptedBytes 16 16 128))) 10 :=
  (ext2InodeSlot_hits_iff tableInFive (by decide +kernel) (by decide +kernel) (by decide +kernel) (by decide +kernel)
    (by decide) (by decide +kernel)).mpr
    ⟨by decide +kernel, by decide +kernel, by decide +kernel, by decide +kernel, by decide +kernel⟩

/-- Inodes of 64 bytes: the last one of a block has no room for the 128 bytes that are copied. -/
theorem small_inode_leaves_block :
    ext2Accepts (acceptedBytes 16 16 64) = true ∧
      (∀ io, ext2InodeSlot (Fs.ext2Mount tableInFive (.ofBytes (acceptedBytes 16 16 64))) 16 io =
        .ok (.ok ⟨10, 960⟩) io) ∧
      (Fs.ext2Mount tableInFive (.ofBytes (acceptedBytes 16 16 64))).blockSize < 960 + sizeofExt2Inode ∧
      ¬ HitsSlot (Fs.ext2Mount tableInFive (.ofBytes (acceptedBytes 16 16 64))) 16 := by
  have slot : slotOf (Fs.ext2Mount tableInFive (.ofBytes (acceptedBytes 16 16 64))) 16 = ⟨10, 960⟩ := by decide +kernel
  have computed : SlotComputed (Fs.ext2Mount tableInFive (.ofBytes (acceptedBytes 16 16 64))) 16 :=
    ⟨by decide +kernel, by decide +kernel, by decide +kernel, by decide +kernel, by decide +kernel⟩
  have outside : (Fs.ext2Mount tableInFive (.ofBytes (acceptedBytes 16 16 64))).blockSize < 960 + sizeofExt2Inode := by
    decide +kernel
  refine ⟨by decide +kernel, fun io => slot ▸ ext2InodeSlot_computed computed (by decide) (by decide) io, outside, ?_⟩
  rintro ⟨taken, done, inside, -⟩
  obtain ⟨-, rfl⟩ := ext2InodeSlot_only (by decide) (by decide) (done ⟨[], 0, []⟩)
  rw [slot] at inside
  exact absurd (inside.trans (min_le_right _ _)) (Nat.not_le.mpr outside)

end SnapOS.Ext2Io
