/- Whether a superblock that ext2_probe accepts is safe to use: the divisions and the requests of the ext2 driver. -/
import SnapOS.FileBytes
import SnapOS.InodeSlot
import SnapOS.Ext2Requests

namespace SnapOS.Ext2Io
open SnapOS.Lib SnapOS.Fs

/-! ahci.c -/

def ahciDefaultSectorSize : Nat := 512

/-- `__id_get_sector_size` of the words of an IDENTIFY block. -/
def idGetSectorSize (id : Nat → UInt16) : Nat :=
  if (id 106).toNat &&& 0xC000 = 0x4000 then
    if (id 106).toNat &&& (1 <<< 12) ≠ 0 then
      let wordsPerSector := (id 117).toNat ||| (id 118).toNat <<< 16
      if wordsPerSector > 0 then wordsPerSector * 2 % word32 else ahciDefaultSectorSize
    else ahciDefaultSectorSize
  else ahciDefaultSectorSize

theorem idGetSectorSize_lt (id : Nat → UInt16) : idGetSectorSize id < word32 := by
  simp only [idGetSectorSize]
  split_ifs
  · exact Nat.mod_lt _ (by decide)
  all_goals decide

/-! Runs of the driver -/

/-- A request for at least one sector, and for as many as fill the iovec. -/
def Sound (sectorSize : Nat) (r : Request) : Prop := 1 ≤ r.count ∧ r.count * sectorSize = r.length

/-- No run divides by zero, and its requests are sound. -/
def Harmless {α : Type} (sectorSize : Nat) (x : Steps Io α) : Prop :=
  Steps.Leads (Asks (Sound sectorSize)) (fun e => e ≠ divideByZero) (fun _ => True) x

/-- The driver on one device: the mount, and what is done with any superblock that a mount returned. -/
structure Safe (bdev : BlockDev) : Prop where
  super : ∀ env, Harmless bdev.sectorSize (ext2ReadSuperblock env bdev)
  mount : ∀ env, Harmless bdev.sectorSize (ext2Mount env bdev)
  inode : ∀ env env' io io' sb root ino, ext2Mount env bdev io = .ok (.ok (sb, root)) io' →
    Harmless bdev.sectorSize (ext2ReadInode env' sb ino)
  lookup : ∀ env env' io io' sb root dir name, ext2Mount env bdev io = .ok (.ok (sb, root)) io' →
    Harmless bdev.sectorSize (ext2Lookup env' sb dir name)
  file : ∀ env env' io io' sb root inode buf count offset, ext2Mount env bdev io = .ok (.ok (sb, root)) io' →
    Harmless bdev.sectorSize (ext2ReadFile env' sb inode buf count offset)

def blockSizeIn (super : Ext2Superblock) : Nat := shl32 1024 super.logBlockSize

/-- The superblocks that can be used on a device. -/
structure Usable (sectorSize : Nat) (super : Ext2Superblock) : Prop where
  blocks : blockSizeIn super ≠ 0
  sectors : sectorSize ∣ blockSizeIn super
  groups : super.inodesPerBlockgroup ≠ 0
  inodeSize : super.inodeStructSize ≠ 0
  inBlock : super.inodeStructSize ≤ blockSizeIn super
  sum : super.inodeCount + super.inodesPerBlockgroup ≤ word32
  some : tableBytes super ≠ 0
  table : tableBytes super + blockSizeIn super ≤ word32

structure MountedFrom (bdev : BlockDev) (super : Ext2Superblock) (sb : Superblock) : Prop where
  device : sb.bdev = bdev
  blockSize : sb.blockSize = blockSizeIn super
  sectors : sb.sectorsPerBlock = blockSizeIn super / bdev.sectorSize
  superblock : sb.info.superblock = super
  groups : sb.info.inodesPerGroup = super.inodesPerBlockgroup

section Mount

variable {G : Request → Prop} {F : Fault → Prop} {env : Env} {bdev : BlockDev}

theorem ofBytes_congr {bytes bytes' : Memory} (same : ∀ i < sizeofExt2Superblock, bytes i = bytes' i) :
    Ext2Superblock.ofBytes bytes = Ext2Superblock.ofBytes bytes' := by
  have load (a n : Nat) (inside : a + n ≤ sizeofExt2Superblock) : bytes.load a n = bytes'.load a n :=
    Memory.load_congr fun i _ before => same i (by omega)
  rw [Ext2Superblock.ofBytes, Ext2Superblock.ofBytes, load 0 4 (by decide), load 20 4 (by decide),
    load 24 4 (by decide),
    load 32 4 (by decide), load 40 4 (by decide), load 88 2 (by decide)]

def superOf (bdev : BlockDev) : Ext2Superblock := .ofBytes (superblockBytes bdev)

theorem ext2Mount_leads (fault : F .outOfBounds) (zero : bdev.sectorSize = 0 → F divideByZero)
    (reads : G ⟨ext2SuperblockOffset / bdev.sectorSize, superblockSectors bdev.sectorSize,
      superblockSectors bdev.sectorSize * bdev.sectorSize % word32⟩)
    (divisors : F divideByZero ∨ ((superOf bdev).inodesPerBlockgroup ≠ 0 ∧ blockSizeIn (superOf bdev) ≠ 0 ∧
      bdev.sectorSize ≠ 0))
    (table : G (descriptorRequest (superOf bdev) bdev))
    (permits : ∀ sb, MountedFrom bdev (superOf bdev) sb → Permits G F sb) :
    Steps.Leads (Asks G) F (fun r => ∀ sb root, r = .ok (sb, root) → MountedFrom bdev (superOf bdev) sb)
      (ext2Mount env bdev) := by
  have fails (block info : Option Block) (err : Int) :
      Steps.Leads (Asks G) F (fun r => ∀ sb root, r = .ok (sb, root) → MountedFrom bdev (superOf bdev) sb)
        (do exitErr block info; pure (.error err) : Steps Io (Except Int (Superblock × Except Int Inode))) := by
    refine leads_bind (exitErr_leads fault block info) fun _ _ => leads_pure ?_
    rintro _ _ ⟨⟩
  refine leads_bind (kmalloc_leads _) fun sbBlock _ => ?_
  cases sbBlock with
  | none =>
      refine leads_pure ?_
      rintro _ _ ⟨⟩
  | some sbBlock =>
      refine leads_bind (kmalloc_leads _) fun infoBlock _ => ?_
      cases infoBlock with
      | none => exact fails (some sbBlock) none _
      | some infoBlock =>
          refine leads_bind (ext2ReadSuperblock_leads fault zero reads) fun read same => ?_
          cases read with
          | error status => exact fails (some sbBlock) (some infoBlock) status
          | ok bytes =>
              have isSuper : Ext2Superblock.ofBytes bytes = superOf bdev := ofBytes_congr (same bytes rfl)
              dsimp only
              rw [isSuper]
              refine leads_bind (ext2FillBgdTableInfo_leads divisors table) fun filled info => ?_
              cases filled with
              | error status => exact fails (some sbBlock) (some infoBlock) status
              | ok fsInfo =>
                  obtain ⟨isInfo, isGroups⟩ := info fsInfo rfl
                  refine leads_bind (divide_leads zero) fun sectors isSectors => ?_
                  have from' : MountedFrom bdev (superOf bdev) ⟨bdev, blockSizeIn (superOf bdev), sectors, fsInfo⟩ :=
                    ⟨rfl, rfl, isSectors, isInfo, isGroups⟩
                  refine leads_bind ((permits _ from').readInode ext2RootDirIno) fun root _ => leads_pure ?_
                  rintro _ _ ⟨⟩
                  exact from'

end Mount

/-! The requests of a mount -/

section Requests

variable {sectorSize : Nat} {super : Ext2Superblock} {bdev : BlockDev}

theorem superblockSectors_eq (some : sectorSize ≠ 0) (fits : sectorSize + 2047 < word32) :
    superblockSectors sectorSize = (2047 + sectorSize) / sectorSize - ext2SuperblockOffset / sectorSize ∧
      ext2SuperblockOffset / sectorSize < (2047 + sectorSize) / sectorSize := by
  have positive := Nat.pos_of_ne_zero some
  have total : (ext2SuperblockOffset + sizeofExt2Superblock + sectorSize + (word32 - 1)) % word32 = 2047 +
    sectorSize := by
    simp only [ext2SuperblockOffset, sizeofExt2Superblock, word32] at *
    omega
  have next : ext2SuperblockOffset / sectorSize + 1 ≤ (2047 + sectorSize) / sectorSize := by
    rw [Nat.add_div_right _ positive]
    exact Nat.succ_le_succ (Nat.div_le_div_right (by decide))
  have few : (2047 + sectorSize) / sectorSize ≤ 2047 + sectorSize := Nat.div_le_self _ _
  refine ⟨?_, next⟩
  rw [superblockSectors, total]
  generalize (2047 + sectorSize) / sectorSize = last at *
  generalize ext2SuperblockOffset / sectorSize = first at *
  simp only [word32] at *
  omega

/-- The request for the superblock is sound unless the sum for its last sector wraps around. -/
theorem superblockRequest_sound_iff (lba : Nat) (some : sectorSize ≠ 0) (small : sectorSize < word32) :
    Sound sectorSize ⟨lba, superblockSectors sectorSize, superblockSectors sectorSize * sectorSize % word32⟩ ↔
      sectorSize + 2047 < word32 := by
  constructor
  · rintro ⟨one, -⟩
    by_contra wraps
    have none : superblockSectors sectorSize = 0 := by
      have first : ext2SuperblockOffset / sectorSize = 0 := by
        refine Nat.div_eq_of_lt ?_
        simp only [ext2SuperblockOffset, word32] at *
        omega
      have last : (ext2SuperblockOffset + sizeofExt2Superblock + sectorSize + (word32 - 1)) % word32
        / sectorSize = 0 := by
        refine Nat.div_eq_of_lt ?_
        simp only [ext2SuperblockOffset, sizeofExt2Superblock, word32] at *
        omega
      rw [superblockSectors, first, last]
      rfl
    change 1 ≤ superblockSectors sectorSize at one
    omega
  · intro fits
    obtain ⟨count, next⟩ := superblockSectors_eq some fits
    have upper : (2047 + sectorSize) / sectorSize * sectorSize ≤ 2047 + sectorSize := Nat.div_mul_le_self _ _
    have bytes : superblockSectors sectorSize * sectorSize ≤ (2047 + sectorSize) / sectorSize * sectorSize := by
      rw [count]
      exact Nat.mul_le_mul_right _ (Nat.sub_le _ _)
    refine ⟨?_, (Nat.mod_eq_of_lt (show superblockSectors sectorSize * sectorSize < word32 by omega)).symm⟩
    change 1 ≤ superblockSectors sectorSize
    omega

theorem descriptorBlocks_mul_lt (super : Ext2Superblock) : descriptorBlocks super * blockSizeIn super < word32 :=
  lt_of_le_of_lt (Nat.div_mul_le_self _ _) (Nat.mod_lt _ (by decide))

theorem descriptorRequest_sound_iff (bdev : BlockDev) (blocks : blockSizeIn super ≠ 0) (some : bdev.sectorSize ≠ 0) :
    Sound bdev.sectorSize (descriptorRequest super bdev) ↔
      bdev.sectorSize ∣ blockSizeIn super ∧ descriptorBlocks super ≠ 0 := by
  have bytes := descriptorBlocks_mul_lt super
  have sectors : descriptorBlocks super * (blockSizeIn super / bdev.sectorSize) < word32 :=
    lt_of_le_of_lt (Nat.mul_le_mul_left _ (Nat.div_le_self _ _)) bytes
  change 1 ≤ descriptorBlocks super * (blockSizeIn super / bdev.sectorSize) % word32 ∧
    descriptorBlocks super * (blockSizeIn super / bdev.sectorSize) % word32 * bdev.sectorSize =
      descriptorBlocks super * blockSizeIn super % word32 ↔ _
  rw [Nat.mod_eq_of_lt bytes, Nat.mod_eq_of_lt sectors, Nat.mul_assoc]
  constructor
  · rintro ⟨one, same⟩
    have blocks : 0 < descriptorBlocks super := Nat.pos_of_mul_pos_right one
    exact ⟨Dvd.intro_left _ (Nat.eq_of_mul_eq_mul_left blocks same), blocks.ne'⟩
  · rintro ⟨divides, many⟩
    rw [Nat.div_mul_cancel divides]
    refine ⟨Nat.mul_pos (Nat.pos_of_ne_zero many) ?_, rfl⟩
    exact Nat.div_pos (Nat.le_of_dvd (Nat.pos_of_ne_zero blocks) divides) (Nat.pos_of_ne_zero some)

theorem descriptorBlocks_ne_zero_iff (groups : super.inodesPerBlockgroup ≠ 0) (countFits : super.inodeCount < word32)
    (groupFits : super.inodesPerBlockgroup < word32) (blocks : blockSizeIn super ≠ 0) :
    descriptorBlocks super ≠ 0 ↔ super.inodeCount + super.inodesPerBlockgroup ≤ word32 ∧ tableBytes super ≠ 0 ∧
      tableBytes super + blockSizeIn super ≤ word32 := by
  have count : groupsOf super = _ := blockGroupCount_eq ⟨fun _ => 0, 0, 0⟩
    (Nat.pos_of_ne_zero groups) countFits groupFits
  have small : blockSizeIn super < word32 := Nat.mod_lt _ (by decide)
  have positive := Nat.pos_of_ne_zero blocks
  have rounded : descriptorBlocks super =
      (32 * groupsOf super % word32 + blockSizeIn super + (word32 - 1)) % word32 / blockSizeIn super := rfl
  rw [rounded]
  by_cases sum : super.inodeCount + super.inodesPerBlockgroup ≤ word32
  · rw [count, if_pos (by omega), ← tableBytes]
    have bytes : tableBytes super < word32 := Nat.mod_lt _ (by decide)
    generalize tableBytes super = table at *
    rw [Nat.div_ne_zero_iff]
    simp only [word32] at *
    omega
  · rw [count, if_neg (by omega)]
    refine iff_of_false (not_not.mpr (Nat.div_eq_of_lt ?_)) fun fits => sum fits.1
    simp only [word32] at *
    omega

end Requests

/-! Usable superblocks are safe -/

section Safe

variable {bdev : BlockDev}

theorem permits_of_usable {sb : Superblock} (usable : Usable bdev.sectorSize (superOf bdev))
    (from' : MountedFrom bdev (superOf bdev) sb) : Permits (Sound bdev.sectorSize) (fun e => e ≠ divideByZero) sb := by
  refine ⟨⟨fun _ other => other, Or.inr ?_⟩, fun lba => ?_⟩
  · rw [from'.blockSize, from'.groups, from'.superblock]
    exact ⟨usable.blocks, usable.groups, usable.inodeSize, usable.inBlock⟩
  · have positive := Nat.pos_of_ne_zero usable.blocks
    rw [from'.blockSize, from'.sectors]
    refine ⟨?_, Nat.div_mul_cancel usable.sectors⟩
    exact Nat.div_pos (Nat.le_of_dvd positive usable.sectors) (Nat.pos_of_dvd_of_pos usable.sectors positive)

theorem safe_of_usable (page : blockSizeIn (superOf bdev) ≤ pageSize) (usable : Usable bdev.sectorSize (superOf bdev)) :
    Safe bdev := by
  have positive := Nat.pos_of_ne_zero usable.blocks
  have some : bdev.sectorSize ≠ 0 := (Nat.pos_of_dvd_of_pos usable.sectors positive).ne'
  have small : bdev.sectorSize ≤ 4096 := (Nat.le_of_dvd positive usable.sectors).trans page
  have reads (lba : Nat) := (superblockRequest_sound_iff lba some (by simp only [word32]; omega)).mpr
    (by simp only [word32]; omega)
  have table := (descriptorRequest_sound_iff bdev usable.blocks some).mpr ⟨usable.sectors,
    (descriptorBlocks_ne_zero_iff usable.groups (Memory.load_lt _ 0 4) (Memory.load_lt _ 40 4) usable.blocks).mpr
      ⟨usable.sum, usable.some, usable.table⟩⟩
  have mount (env : Env) : Steps.Leads (Asks (Sound bdev.sectorSize)) (fun e => e ≠ divideByZero)
      (fun r => ∀ sb root, r = .ok (sb, root) → MountedFrom bdev (superOf bdev) sb) (ext2Mount env bdev) :=
    ext2Mount_leads (by decide) (fun none => absurd none some) (reads _) (Or.inr ⟨usable.groups, usable.blocks, some⟩)
      table fun _ from' => permits_of_usable usable from'
  have permits {env : Env} {io io' : Io} {sb : Superblock} {root : Except Int Inode}
      (done : ext2Mount env bdev io = .ok (.ok (sb, root)) io') :
      Permits (Sound bdev.sectorSize) (fun e => e ≠ divideByZero) sb :=
    permits_of_usable usable (((mount env io).1 _ _ done).2 sb root rfl)
  refine ⟨?_, ?_, ?_, ?_, ?_⟩
  · intro env
    exact (ext2ReadSuperblock_leads (by decide) (fun none => absurd none some) (reads _)).imp fun _ _ => trivial
  · intro env
    exact (mount env).imp fun _ _ => trivial
  · intro env env' io io' sb root ino done
    exact (permits done).readInode ino
  · intro env env' io io' sb root dir name done
    exact ext2Lookup_leads (permits done) dir name
  · intro env env' io io' sb root inode buf count offset done
    exact ext2ReadFile_leads (permits done) inode buf count offset

end Safe

/-! Safe superblocks are usable -/

section Runs

variable {env : Env} {io : Io} {bdev : BlockDev} {sb : Superblock} {ino : Nat}

/-- `ext2_mount` from the point where it has the superblock. -/
def mountFrom (env : Env) (bdev : BlockDev) (sbBlock infoBlock : Block) (superblock : Ext2Superblock) :
    Steps Io (Except Int (Superblock × Except Int Inode)) := do
  match ← ext2FillBgdTableInfo env bdev superblock with
  | .error status => do
      exitErr (some sbBlock) (some infoBlock)
      pure (.error status)
  | .ok info => do
      let sectorsPerBlock ← divide (blockSizeIn superblock) bdev.sectorSize
      let sb : Superblock := ⟨bdev, blockSizeIn superblock, sectorsPerBlock, info⟩
      let root ← ext2ReadInode env sb ext2RootDirIno
      pure (.ok (sb, root))

theorem divide_ok {a b : Nat} (some : b ≠ 0) (io : Io) : divide a b io = .ok (a / b) io := by
  rw [divide, if_neg some]
  rfl

theorem divide_zero (a : Nat) (io : Io) : divide a 0 io = .error divideByZero io := rfl

theorem superblock_inside {sectorSize : Nat} (some : sectorSize ≠ 0) (fits : sectorSize + 2047 < word32) :
    ext2SuperblockOffset % sectorSize + sizeofExt2Superblock ≤ superblockSectors sectorSize * sectorSize % word32 := by
  have positive := Nat.pos_of_ne_zero some
  have sound := ((superblockRequest_sound_iff 0 some (by omega)).mpr fits).2
  change superblockSectors sectorSize * sectorSize = superblockSectors sectorSize * sectorSize % word32 at sound
  obtain ⟨count, -⟩ := superblockSectors_eq some fits
  have first := Nat.div_add_mod' ext2SuperblockOffset sectorSize
  have last := Nat.lt_div_mul_add positive (a := 2047 + sectorSize)
  rw [← sound, count, Nat.sub_mul]
  simp only [ext2SuperblockOffset, sizeofExt2Superblock] at *
  omega

/-- So many allocations and requests later, with these blocks in addition. -/
structure After (io io' : Io) (allocations requests : Nat) (blocks : List Nat) : Prop where
  allocations : io'.allocations = io.allocations + allocations
  requests : io'.requests.length = io.requests.length + requests
  live : io'.live = blocks ++ io.live

def filledBuffer (bdev : BlockDev) (lba count : Nat) (buf : Buffer) : Buffer :=
  let data := bdev.read lba count buf.size
  { buf with bytes := fun i => if data.size ≤ i ∧ i < buf.size then buf.bytes i else data.bytes i }

theorem filledBuffer_size (bdev : BlockDev) (lba count : Nat) (buf : Buffer) :
    (filledBuffer bdev lba count buf).size = buf.size := rfl

theorem bdevRead_answers {lba count : Nat} {buf : Buffer} (answers : ¬ env.status io.requests.length < 0) :
    bdevRead env bdev lba count buf io =
      .ok (env.status io.requests.length, filledBuffer bdev lba count buf) (io.asked ⟨lba, count, buf.size⟩) := by
  rw [bdevRead, Steps.get_bind, Steps.set_bind]
  dsimp only
  rw [if_neg answers]
  rfl

/-- An allocation or the request behind it fails. -/
def Fails (env : Env) (allocation request : Nat) : Prop := env.available allocation = false ∨ env.status request < 0

/-- The sectors that are read hold the whole superblock. -/
def SuperInside (bdev : BlockDev) : Prop :=
  ext2SuperblockOffset % bdev.sectorSize + sizeofExt2Superblock ≤
    superblockSectors bdev.sectorSize * bdev.sectorSize % word32

theorem freed_granted (io : Io) (r : Request) : ((io.granted.asked r).freed io.allocations).live = io.live :=
  List.erase_cons_head io.allocations io.live

theorem not_fails {allocation request : Nat} (works : ¬ Fails env allocation request) :
    env.available allocation = true ∧ ¬ env.status request < 0 := by
  refine ⟨?_, fun failed => works (Or.inr failed)⟩
  cases memory : env.available allocation with
  | false => exact absurd (Or.inl memory) works
  | true => rfl

theorem reliable_works (reliable : env.Reliable) (allocation request : Nat) : ¬ Fails env allocation request := by
  rintro (refused | failed)
  · rw [reliable.memory] at refused
    cases refused
  · exact absurd (reliable.answers _) (Int.not_le.mpr failed)

/-- The part of `ext2_read_superblock` behind its request. -/
def takeSuper (bdev : BlockDev) (buf : Block) (status : Int) (data : Buffer) : Steps Io (Except Int Memory) :=
  if status < 0 then do
    kfree buf
    pure (.error status)
  else do
    let bytes ← copyFrom data (ext2SuperblockOffset % bdev.sectorSize) sizeofExt2Superblock
    kfree buf
    pure (.ok bytes)

theorem ext2ReadSuperblock_asks (some : bdev.sectorSize ≠ 0) (memory : env.available io.allocations = true) :
    ∃ buf : Block, buf.id = io.allocations ∧
      buf.data.size = superblockSectors bdev.sectorSize * bdev.sectorSize % word32 ∧
      ext2ReadSuperblock env bdev io = (do
        let (status, data) ← bdevRead env bdev (ext2SuperblockOffset / bdev.sectorSize)
          (superblockSectors bdev.sectorSize) buf.data
        takeSuper bdev buf status data) io.granted := by
  rw [ext2ReadSuperblock, Steps.bind_ok (divide_ok some io), Steps.bind_ok (divide_ok some io),
    Steps.bind_ok (kmalloc_granted memory _)]
  dsimp only
  rw [superblockOffset_eq]
  exact ⟨⟨_, ⟨_, superblockSectors bdev.sectorSize * bdev.sectorSize % word32⟩⟩, rfl, rfl, rfl⟩

theorem ext2ReadSuperblock_answers (some : bdev.sectorSize ≠ 0)
    (works : ¬ Fails env io.allocations io.requests.length) :
    (¬ SuperInside bdev ∧ ∃ e io', ext2ReadSuperblock env bdev io = .error e io') ∨
      (SuperInside bdev ∧ ∃ bytes io', ext2ReadSuperblock env bdev io = .ok (.ok bytes) io' ∧
        Ext2Superblock.ofBytes bytes = superOf bdev ∧ After io io' 1 1 []) := by
  obtain ⟨memory, answers⟩ := not_fails works
  obtain ⟨buf, id, size, asks⟩ := ext2ReadSuperblock_asks some memory
  have answers : ¬ env.status io.granted.requests.length < 0 := answers
  have taken := asks.trans (Steps.bind_ok (bdevRead_answers answers))
  dsimp only at taken
  rw [takeSuper, if_neg answers, copyFrom, filledBuffer_size, size] at taken
  rw [SuperInside]
  split at taken
  · next inside =>
      refine Or.inr ⟨inside, ?_⟩
      have leads : Steps.Leads (Asks fun _ => True) (fun _ => True) _ (ext2ReadSuperblock env bdev) :=
        ext2ReadSuperblock_leads trivial (fun _ => trivial) trivial
      refine ⟨_, _, taken, ofBytes_congr (((leads io).1 _ _ taken).2 _ rfl), rfl, List.length_append, ?_⟩
      rw [id]
      exact freed_granted io _
  · next outside => exact Or.inl ⟨outside, _, _, taken⟩

theorem ext2ReadSuperblock_inside (some : bdev.sectorSize ≠ 0) (works : ¬ Fails env io.allocations io.requests.length)
    (inside : SuperInside bdev) : ∃ bytes io', ext2ReadSuperblock env bdev io = .ok (.ok bytes) io' ∧
      Ext2Superblock.ofBytes bytes = superOf bdev ∧ After io io' 1 1 [] := by
  rcases ext2ReadSuperblock_answers some works with ⟨outside, -⟩ | ⟨-, read⟩
  · exact absurd inside outside
  · exact read

/-- The descriptors in memory that allocation `k` returned. -/
def tableData (env : Env) (bdev : BlockDev) (super : Ext2Superblock) (k : Nat) : Buffer :=
  filledBuffer bdev (descriptorRequest super bdev).lba (descriptorRequest super bdev).count
    ⟨env.fresh k, (descriptorRequest super bdev).length⟩

def Divisible (super : Ext2Superblock) : Prop := super.inodesPerBlockgroup ≠ 0 ∧ blockSizeIn super ≠ 0

theorem ext2FillBgdTableInfo_fills {super : Ext2Superblock} (divisible : Divisible super) (some : bdev.sectorSize ≠ 0)
    (works : ¬ Fails env io.allocations io.requests.length) : ext2FillBgdTableInfo env bdev super io =
      .ok (.ok ⟨super, super.inodesPerBlockgroup, super.blocksPerBlockgroup, groupsOf super,
        tableData env bdev super io.allocations⟩) (io.granted.asked (descriptorRequest super bdev)) := by
  obtain ⟨memory, answers⟩ := not_fails works
  have answers : ¬ env.status io.granted.requests.length < 0 := answers
  obtain ⟨groups, blocks⟩ := divisible
  rw [blockSizeIn] at blocks
  rw [ext2FillBgdTableInfo]
  dsimp only
  rw [Steps.bind_ok (divide_ok groups io), Steps.bind_ok (divide_ok blocks io),
    Steps.bind_ok (kmalloc_granted memory _)]
  dsimp only
  rw [Steps.bind_ok (divide_ok some _), Steps.bind_ok (bdevRead_answers answers)]
  dsimp only
  rw [if_neg answers]
  rfl

theorem ext2ReadSuperblock_requests (bdev : BlockDev) (reliable : env.Reliable) (some : bdev.sectorSize ≠ 0) (io : Io) :
    io.requests ++ [⟨ext2SuperblockOffset / bdev.sectorSize, superblockSectors bdev.sectorSize,
        superblockSectors bdev.sectorSize * bdev.sectorSize % word32⟩] <+:
      (Steps.final (ext2ReadSuperblock env bdev) io).requests := by
  obtain ⟨buf, -, size, asks⟩ := ext2ReadSuperblock_asks some (reliable.memory io.allocations)
  obtain ⟨data, asked, -⟩ := bdevRead_asks env bdev (ext2SuperblockOffset / bdev.sectorSize)
    (superblockSectors bdev.sectorSize) buf.data io.granted
  rw [Steps.final_of_eq asks, Steps.final_bind asked, ← size]
  refine request_stays (.ite (fun _ => ?_) fun _ => ?_) io.granted _
  · exact leads_bind (kfree_leads _) fun _ _ => leads_pure trivial
  · refine leads_bind (copyFrom_leads trivial _ _ _) fun _ _ => ?_
    exact leads_bind (kfree_leads _) fun _ _ => leads_pure trivial

theorem ext2Mount_run (reliable : env.Reliable) (some : bdev.sectorSize ≠ 0) (fits : bdev.sectorSize + 2047 < word32)
    (io : Io) : ∃ sbBlock infoBlock io₁,
      ext2Mount env bdev io = mountFrom env bdev sbBlock infoBlock (superOf bdev) io₁ := by
  obtain ⟨bytes, io₁, read, isSuper, -⟩ :=
    ext2ReadSuperblock_inside some (reliable_works reliable _ io.granted.granted.requests.length)
      (superblock_inside some fits)
  rw [ext2Mount, Steps.bind_ok (kmalloc_granted (reliable.memory _) _)]
  dsimp only
  rw [Steps.bind_ok (kmalloc_granted (reliable.memory _) _)]
  dsimp only
  rw [Steps.bind_ok read]
  dsimp only
  rw [isSuper]
  exact ⟨_, _, io₁, rfl⟩

theorem ext2FillBgdTableInfo_zero {super : Ext2Superblock} (none : super.inodesPerBlockgroup = 0) (io : Io) :
    ext2FillBgdTableInfo env bdev super io = .error divideByZero io := by
  rw [ext2FillBgdTableInfo, none]
  exact Steps.bind_error (divide_zero _ _)

def mountedSb (bdev : BlockDev) (data : Buffer) : Superblock :=
  ⟨bdev, blockSizeIn (superOf bdev), blockSizeIn (superOf bdev) / bdev.sectorSize,
    ⟨superOf bdev, (superOf bdev).inodesPerBlockgroup, (superOf bdev).blocksPerBlockgroup, groupsOf (superOf bdev),
      data⟩⟩

/-- A mount gets as far as the root directory. -/
theorem ext2Mount_filled (reliable : env.Reliable) (some : bdev.sectorSize ≠ 0)
    (fits : bdev.sectorSize + 2047 < word32) (groups : (superOf bdev).inodesPerBlockgroup ≠ 0)
    (blocks : blockSizeIn (superOf bdev) ≠ 0) (io : Io) : ∃ (data : Buffer) (io₁ : Io),
      ext2Mount env bdev io = (do
        let root ← ext2ReadInode env (mountedSb bdev data) ext2RootDirIno
        pure (.ok (mountedSb bdev data, root)) : Steps Io (Except Int (Superblock × Except Int Inode)))
          (io₁.asked (descriptorRequest (superOf bdev) bdev)) := by
  obtain ⟨sbBlock, infoBlock, io₁, mount⟩ := ext2Mount_run reliable some fits io
  have filled := ext2FillBgdTableInfo_fills ⟨groups, blocks⟩ some
    (reliable_works reliable io₁.allocations io₁.requests.length)
  rw [mount, mountFrom, Steps.bind_ok filled]
  dsimp only
  rw [Steps.bind_ok (divide_ok some _)]
  exact ⟨_, io₁.granted, rfl⟩

theorem ext2ReadInode_zero (first : 1 ≤ ino) (small : ino < word32) (groups : sb.info.inodesPerGroup ≠ 0)
    (inside : inodeGroup sb ino < sb.info.blockGroupCount)
    (none : sb.info.superblock.inodeStructSize = 0 ∨ sb.blockSize < sb.info.superblock.inodeStructSize) (io : Io) :
    ext2ReadInode env sb ino io = .error divideByZero io := by
  have group : ¬ (ino - 1) / sb.info.inodesPerGroup ≥ sb.info.blockGroupCount := Nat.not_le.mpr inside
  rw [ext2ReadInode]
  refine Steps.bind_error ?_
  rw [ext2InodeSlot, pred_word32 first small]
  dsimp only
  rw [Steps.bind_ok (divide_ok groups io), if_neg group, remainder, if_neg groups, pure_bind]
  rcases none with none | large
  · rw [none]
    exact Steps.bind_error (divide_zero _ io)
  · have some : sb.info.superblock.inodeStructSize ≠ 0 := by omega
    rw [Steps.bind_ok (divide_ok some io), Nat.div_eq_of_lt large]
    exact Steps.bind_error (divide_zero _ io)

theorem ext2ReadInode_outside (first : 1 ≤ ino) (small : ino < word32) (groups : sb.info.inodesPerGroup ≠ 0)
    (outside : ¬ inodeGroup sb ino < sb.info.blockGroupCount) (io : Io) :
    ext2ReadInode env sb ino io = .ok (.error (-eInval)) io := by
  have group : (ino - 1) / sb.info.inodesPerGroup ≥ sb.info.blockGroupCount := Nat.not_lt.mp outside
  have slot : ext2InodeSlot sb ino io = .ok (.error (-eInval)) io := by
    rw [ext2InodeSlot, pred_word32 first small]
    dsimp only
    rw [Steps.bind_ok (divide_ok groups io), if_pos group]
    rfl
  rw [ext2ReadInode, Steps.bind_ok slot]
  rfl

theorem asked_of_mem {G : Request → Prop} {F : Fault → Prop} {α : Type} {Q : α → Prop} {x : Steps Io α} {r : Request}
    (leads : Steps.Leads (Asks G) F Q x) (member : r ∈ (x.final ⟨[], 0, []⟩).requests) : G r := by
  obtain ⟨new, same, good⟩ := leads.final ⟨[], 0, []⟩
  rw [same, List.nil_append] at member
  exact good r member

theorem usable_of_safe (small : bdev.sectorSize < word32) (safe : Safe bdev) :
    Usable bdev.sectorSize (superOf bdev) := by
  have reliable := workingEnv_reliable
  have some : bdev.sectorSize ≠ 0 := by
    intro none
    have stops : ext2ReadSuperblock workingEnv bdev ⟨[], 0, []⟩ = .error divideByZero ⟨[], 0, []⟩ := by
      rw [ext2ReadSuperblock, none]
      exact Steps.bind_error (divide_zero _ _)
    exact ((safe.super workingEnv _).2 _ _ stops).2 rfl
  have fits : bdev.sectorSize + 2047 < word32 := by
    have asked := (ext2ReadSuperblock_requests bdev reliable some ⟨[], 0, []⟩).subset (List.mem_singleton_self _)
    exact (superblockRequest_sound_iff _ some small).mp (asked_of_mem (safe.super workingEnv) asked)
  obtain ⟨sbBlock, infoBlock, io₁, mount⟩ := ext2Mount_run reliable some fits ⟨[], 0, []⟩
  have groups : (superOf bdev).inodesPerBlockgroup ≠ 0 := by
    intro none
    rw [mountFrom, Steps.bind_error (ext2FillBgdTableInfo_zero none io₁)] at mount
    exact ((safe.mount workingEnv _).2 _ _ mount).2 rfl
  have blocks : blockSizeIn (superOf bdev) ≠ 0 := by
    intro none
    have stops : ext2FillBgdTableInfo workingEnv bdev (superOf bdev) io₁ = .error divideByZero io₁ := by
      rw [ext2FillBgdTableInfo, Steps.bind_ok (divide_ok groups io₁)]
      dsimp only
      rw [← blockSizeIn, none]
      exact Steps.bind_error (divide_zero _ _)
    rw [mountFrom, Steps.bind_error stops] at mount
    exact ((safe.mount workingEnv _).2 _ _ mount).2 rfl
  obtain ⟨data, io₂, filled⟩ := ext2Mount_filled reliable some fits groups blocks ⟨[], 0, []⟩
  have request : Sound bdev.sectorSize (descriptorRequest (superOf bdev) bdev) := by
    refine asked_of_mem (safe.mount workingEnv) ?_
    rw [Steps.final_of_eq filled]
    refine (request_stays (leads_bind ((permits_all _).readInode _) fun _ _ => leads_pure trivial) io₂ _).subset ?_
    exact List.mem_append_right _ (List.mem_singleton_self _)
  obtain ⟨sectors, many⟩ := (descriptorRequest_sound_iff bdev blocks some).mp request
  have countFits : (superOf bdev).inodeCount < word32 := Memory.load_lt _ 0 4
  have groupFits : (superOf bdev).inodesPerBlockgroup < word32 := Memory.load_lt _ 40 4
  obtain ⟨sum, bytes, table⟩ := (descriptorBlocks_ne_zero_iff groups countFits groupFits blocks).mp many
  have count : groupsOf (superOf bdev) ≠ 0 := by
    have same : groupsOf (superOf bdev) = _ := blockGroupCount_eq bdev (Nat.pos_of_ne_zero groups) countFits groupFits
    rw [same, if_pos (by omega)]
    intro none
    rw [tableBytes, none] at bytes
    exact bytes rfl
  have inodes : ¬ ((superOf bdev).inodeStructSize = 0 ∨
    blockSizeIn (superOf bdev) < (superOf bdev).inodeStructSize) := by
    intro bad
    by_cases inside : inodeGroup (mountedSb bdev data) ext2RootDirIno < groupsOf (superOf bdev)
    · rw [Steps.bind_error (ext2ReadInode_zero (by decide) (by decide) groups inside bad _)] at filled
      exact ((safe.mount workingEnv _).2 _ _ filled).2 rfl
    · -- The root is an error pointer, which the mount takes for an inode.
      rw [Steps.bind_ok (ext2ReadInode_outside (by decide) (by decide) groups inside _)] at filled
      have zero : inodeGroup (mountedSb bdev data) 1 = 0 := Nat.zero_div _
      have stops : ext2ReadInode workingEnv (mountedSb bdev data) 1 ⟨[], 0, []⟩ = .error divideByZero ⟨[], 0, []⟩ :=
        ext2ReadInode_zero (by decide) (by decide) groups (zero ▸ Nat.pos_of_ne_zero count) bad _
      exact ((safe.inode workingEnv workingEnv _ _ _ _ 1 filled ⟨[], 0, []⟩).2 _ _ stops).2 rfl
  exact ⟨blocks, sectors, groups, fun none => inodes (Or.inl none), Nat.not_lt.mp fun large =>
    inodes (Or.inr large), sum,
    bytes, table⟩

end Runs

/-- For every sector size that a disk reports and every superblock that is accepted: the driver is safe if and only if
the superblock is usable. -/
theorem safe_iff_usable (id : Nat → UInt16) (bdev : BlockDev) (sector : bdev.sectorSize = idGetSectorSize id)
    (accepted : ext2Accepts (superblockBytes bdev) = true) : Safe bdev ↔ Usable bdev.sectorSize (superOf bdev) := by
  have page : blockSizeIn (superOf bdev) ≤ pageSize := by
    simp only [ext2Accepts, Bool.and_eq_true, decide_eq_true_eq] at accepted
    exact accepted.2
  exact ⟨usable_of_safe (sector ▸ idGetSectorSize_lt id), safe_of_usable page⟩

def diskWith (bytes : Memory) : BlockDev := ⟨fun a => bytes (a - ext2SuperblockOffset), 0, 512⟩

theorem safe_iff_usable_oneGroup : Safe (diskWith (acceptedBytes 16 16 128)) :=
  (safe_iff_usable (fun _ => 0) (diskWith (acceptedBytes 16 16 128)) (by decide) (by decide +kernel)).mpr
    ⟨by decide +kernel, by decide +kernel, by decide +kernel, by decide +kernel, by decide +kernel, by decide +kernel,
      by decide +kernel, by decide +kernel⟩

/-- An accepted superblock without inodes in its groups stops the mount. -/
theorem no_inodes_per_group_divides_by_zero :
    (diskWith (acceptedBytes 16 0 128)).sectorSize = idGetSectorSize (fun _ => 0) ∧
      ext2Accepts (superblockBytes (diskWith (acceptedBytes 16 0 128))) = true ∧
      ∃ io, ext2Mount workingEnv (diskWith (acceptedBytes 16 0 128)) ⟨[], 0, []⟩ = .error divideByZero io := by
  refine ⟨by decide, by decide +kernel, ?_⟩
  obtain ⟨sbBlock, infoBlock, io, mount⟩ := ext2Mount_run workingEnv_reliable
    (by decide : (diskWith (acceptedBytes 16 0 128)).sectorSize ≠ 0) (by decide) ⟨[], 0, []⟩
  refine ⟨io, ?_⟩
  rw [mount, mountFrom]
  exact Steps.bind_error (ext2FillBgdTableInfo_zero (by decide +kernel) io)

end SnapOS.Ext2Io
