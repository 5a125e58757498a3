/- Reads of a partition: where they end up on the disk. -/
import SnapOS.Ext2Io
import SnapOS.Partition

namespace SnapOS.Block
open SnapOS.Lib SnapOS.Ahci

def BlockDev.lbaStart : BlockDev → Nat
  | partition _ _ _ _ lbaStart => lbaStart
  | _ => 0

/-- The request to the parent and what it answers. Only a partition has this function as its `read`. -/
def partitionRead (answer : Request → Int) (bdev : BlockDev) (lba count : Nat) (iovec : List PhysIovec) :
    Option (Request × Int) :=
  match bdev with
  | .partition _ _ _ parent lbaStart =>
      let asked := ⟨parent, (lbaStart + lba) % word64, count, iovec⟩
      some (asked, answer asked)
  | _ => none

/-- A read fails, or all sectors that the parent is asked for belong to the partition. -/
def StaysInside (bdev : BlockDev) (read : Option (Request × Int)) : Prop :=
  ∃ asked ret, read = some (asked, ret) ∧
    (ret < 0 ∨ ∀ sector, asked.lba ≤ sector → sector < asked.lba + asked.count →
      bdev.lbaStart ≤ sector ∧ sector < bdev.lbaStart + bdev.sectorCount)

theorem mbrEntry_lt (buf : Memory) (i : Nat) :
    (mbrEntry buf i).lbaStart < word32 ∧ (mbrEntry buf i).sectorCount < word32 :=
  ⟨Memory.load_lt buf _ 4, Memory.load_lt buf _ 4⟩

theorem mem_partitionsOf {env : Env} {disk bdev : BlockDev} (created : bdev ∈ partitionsOf env disk) :
    ∃ name size count lbaStart, bdev = .partition name size count disk lbaStart ∧ lbaStart < word32 ∧
      count < word32 := by
  obtain ⟨i, -, rfl⟩ := List.mem_map.mp created
  obtain ⟨start, count⟩ := mbrEntry_lt (env.firstSector disk) i
  exact ⟨_, _, _, _, rfl, start, count⟩

/-- Some sectors are inside exactly if the last one is, as long as the sum does not wrap around; if it does, the first
sector is in front of the partition. -/
theorem sectors_inside_iff {start size lba : Nat} (small : start < word32) (sizeSmall : size < word32)
    (machine : lba < word64) (count : Nat) :
    (∀ sector, (start + lba) % word64 ≤ sector → sector < (start + lba) % word64 + count →
      start ≤ sector ∧ sector < start + size) ↔ count = 0 ∨ lba + count ≤ size := by
  simp only [word32, word64] at *
  constructor
  · intro inside
    rcases Nat.eq_zero_or_pos count with none | some
    · exact Or.inl none
    · have first := inside ((start + lba) % 2 ^ 64) (Nat.le_refl _) (by omega)
      have last := inside ((start + lba) % 2 ^ 64 + (count - 1)) (by omega) (by omega)
      omega
  · rintro (none | fits) sector low high
    · omega
    · omega

/-- `partition_read` checks nothing, so it stays inside its partition only for requests that do. -/
theorem partitionRead_inside_iff {env : Env} {disk bdev : BlockDev} (created : bdev ∈ partitionsOf env disk)
    (answer : Request → Int) {lba : Nat} (machine : lba < word64) (count : Nat) (iovec : List PhysIovec) :
    StaysInside bdev (partitionRead answer bdev lba count iovec) ↔
      answer ⟨disk, (bdev.lbaStart + lba) % word64, count, iovec⟩ < 0 ∨ count = 0 ∨
        lba + count ≤ bdev.sectorCount := by
  obtain ⟨name, size, sectors, start, rfl, small, sizeSmall⟩ := mem_partitionsOf created
  have sectors := sectors_inside_iff small sizeSmall machine count
  constructor
  · rintro ⟨asked, ret, done, inside⟩
    cases done
    exact inside.imp_right sectors.mp
  · intro allowed
    exact ⟨_, _, rfl, allowed.imp_right sectors.mpr⟩

def oneSectorDisk : BlockDev := .disk ['s', 'a', 't', 'a', '0'] 512 1000000 0

def oneSectorEnv : Env where
  status _ := 0
  firstSector _ i := if i = 450 then 0x83 else if i = 455 then 8 else if i = 458 then 1 else 0
  available _ := true
  address _ := 0x100000

def oneSectorPartition : BlockDev := .partition ['s', 'a', 't', 'a', '0', 'p', '0'] 512 1 oneSectorDisk 2048

theorem partitionRead_inside_iff_first :
    StaysInside oneSectorPartition (partitionRead (fun _ => 0) oneSectorPartition 0 1 [⟨0x100000, 512⟩]) :=
  (partitionRead_inside_iff (show oneSectorPartition ∈ partitionsOf oneSectorEnv oneSectorDisk by decide) (fun _ => 0)
    (by decide) 1 [⟨0x100000, 512⟩]).mpr (by decide)

/-- What the ext2 driver finds there when it probes for its superblock. -/
def quietDevice : Ext2Io.Env where
  status _ := 0
  errno _ := by decide
  leftover _ _ := 0
  available _ := true
  fresh _ _ := 0
  takes _ := false

/-- The probe for an ext2 superblock asks for the third and the fourth sector of the partition, and gets sectors behind
its end. -/
theorem superblock_outside_partition :
    oneSectorPartition ∈ partitionsOf oneSectorEnv oneSectorDisk ∧
      ((Ext2Io.ext2Probe quietDevice ⟨fun _ => 0, 2048, 512⟩).final ⟨[], 0, []⟩).requests = [⟨2, 2, 1024⟩] ∧
      ¬ StaysInside oneSectorPartition
        (partitionRead (fun _ => 0) oneSectorPartition 2 2 [⟨0x100000, 1024⟩]) := by
  refine ⟨by decide, by decide, ?_⟩
  rintro ⟨asked, ret, done, inside⟩
  cases done
  have first := (inside.resolve_left (by decide)) 2050 (by decide) (by decide)
  exact absurd first.2 (by decide)

end SnapOS.Block
