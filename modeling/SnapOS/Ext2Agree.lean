/- The embeddings of the ext2 driver agree where the device answers and there is memory: SnapOS.Ext2 gives what
SnapOS.Ext2Io and SnapOS.Mount return. -/
import SnapOS.Mount

namespace SnapOS.Ext2Io
open SnapOS.Lib SnapOS.Fs Steps

/-- The divisors of `ext2_read_inode`. -/
structure Divides (sb : Superblock) : Prop where
  groups : sb.info.inodesPerGroup ≠ 0
  some : sb.info.superblock.inodeStructSize ≠ 0
  fits : sb.info.superblock.inodeStructSize ≤ sb.blockSize

section Calls

variable {env : Env} {sb : Superblock}

theorem divide_gives {b : Nat} (some : b ≠ 0) (a : Nat) : Gives (divide a b) (.ok (a / b)) := by
  rw [divide, if_neg some]
  exact .pure _

theorem remainder_gives {b : Nat} (some : b ≠ 0) (a : Nat) : Gives (remainder a b) (.ok (a % b)) := by
  rw [remainder, if_neg some]
  exact .pure _

theorem access_gives {α : Type} (x : Exec α) : Gives (access x) x := by
  cases x with
  | ok a => exact .pure a
  | error e => exact .throw e

theorem kfree_gives (block : Block) : Gives (kfree block) (.ok ()) := fun _ => rfl

theorem kmalloc_some (reliable : env.Reliable) (size : Nat) (io : Io) :
    ∃ block io', kmalloc env size io = .ok block io' ∧ ∃ b : Block, block = some b ∧ b.data.size = size :=
  ⟨_, _, kmalloc_granted (reliable.memory _) size, _, rfl, rfl⟩

theorem ext2AllocBlock_some (reliable : env.Reliable) (size : Nat) (io : Io) :
    ∃ block io', ext2AllocBlock env size io = .ok block io' ∧ ∃ b : Block, block = some b ∧ b.data.size = size := by
  rw [ext2AllocBlock_eq]
  exact kmalloc_some reliable size io

theorem Mounted.bdevRead_block (mounted : Mounted sb) (reliable : env.Reliable) (lba : Nat) {buf : Buffer}
    (size : buf.size = sb.blockSize) (io : Io) :
    ∃ r io', Ext2Io.bdevRead env sb.bdev lba sb.sectorsPerBlock buf io = .ok r io' ∧ ¬ r.1 < 0 ∧
      r.2 = sb.readBlock lba :=
  ⟨_, _, mounted.bdevRead size (reliable.answers _), Int.not_lt.mpr (reliable.answers _), rfl⟩

end Calls

section Agree

variable {env : Env} {sb : Superblock}

theorem ext2InodeSlot_gives (divides : Divides sb) (ino : Nat) :
    Gives (ext2InodeSlot sb ino) (Fs.ext2InodeSlot sb ino) := by
  have perBlock : sb.blockSize / sb.info.superblock.inodeStructSize ≠ 0 :=
    Nat.ne_of_gt (Nat.div_pos divides.fits (Nat.pos_of_ne_zero divides.some))
  refine (divide_gives divides.groups _).ok_bind (.ite (fun _ => .pure _) fun _ => ?_)
  refine (remainder_gives divides.groups _).ok_bind ((divide_gives divides.some _).ok_bind ?_)
  refine (divide_gives perBlock _).ok_bind ((remainder_gives perBlock _).ok_bind ?_)
  exact (access_gives _).bind fun _ => .pure _

variable (reliable : env.Reliable) (mounted : Mounted sb)

include reliable mounted

/-- The two readers of inodes. -/
theorem ext2ReadInode_gives (divides : Divides sb) (ino : Nat) :
    Gives (ext2ReadInode env sb ino) (Fs.ext2ReadInode sb ino) := by
  refine (ext2InodeSlot_gives divides ino).bind fun r => ?_
  cases r with
  | error err => exact .pure _
  | ok slot =>
      refine .after _ (ext2AllocBlock_some reliable _) ?_
      rintro _ ⟨block, rfl, size⟩
      refine .after _ (kmalloc_some reliable _) ?_
      rintro _ ⟨_, rfl, -⟩
      refine .after _ (kmalloc_some reliable _) ?_
      rintro _ ⟨_, rfl, -⟩
      refine .after _ (kmalloc_some reliable _) ?_
      rintro _ ⟨_, rfl, -⟩
      refine .after _ (mounted.bdevRead_block reliable slot.lba size) ?_
      rintro ⟨status, _⟩ ⟨answers, rfl⟩
      dsimp only
      rw [if_neg answers]
      refine (access_gives _).bind fun e => .ite (fun _ => ?_) fun _ => .ite (fun _ => ?_) fun _ => .throw _
      · exact (kfree_gives block).ok_bind (.pure _)
      · exact (kfree_gives block).ok_bind (.pure _)

theorem ext2InitSingly_some (dir : Inode) (io : Io) :
    ∃ r io', ext2InitSingly env sb dir io = .ok r io' ∧ ¬ r.1 < 0 ∧
      r.2 = { dir with singly := some (Fs.ext2InitSingly sb dir) } := by
  cases table : dir.singly with
  | some data =>
      refine ⟨(0, dir), io, ?_, Int.lt_irrefl 0, ?_⟩
      · rw [ext2InitSingly, table]
        rfl
      · rw [Fs.ext2InitSingly, table, Option.getD_some, ← table]
  | none =>
      refine ⟨_, _, ext2InitSingly_loads mounted table (reliable.memory _) (reliable.answers _), Int.lt_irrefl 0, ?_⟩
      rw [Fs.ext2InitSingly, table]
      rfl

theorem dirBlockAddr_gives (dir : Inode) (i : Nat) :
    Gives (dirBlockAddr env sb dir i) ((Fs.dirBlockAddr sb dir i).map fun r => (r.1, .ok r.2)) := by
  rw [dirBlockAddr, Fs.dirBlockAddr]
  split
  · exact .pure _
  · refine .after _ (ext2InitSingly_some reliable mounted dir) ?_
    rintro ⟨status, _⟩ ⟨fine, rfl⟩
    dsimp only
    rw [if_neg fine, Exec.bind_map]
    exact (access_gives _).bind fun _ => .pure _

def entryIno (r : Inode × Except Int (Option (Buffer × Nat))) : Exec (Inode × Except Int (Option Nat)) :=
  match r.2 with
  | .error err => .ok (r.1, .error err)
  | .ok none => .ok (r.1, .ok none)
  | .ok (some (buf, entry)) => do
      let ino ← buf.load entry 4
      .ok (r.1, .ok (some ino))

theorem ext2LookupFrom_gives (name : List UInt8) (left i : Nat) (dir : Inode) {buf : Buffer}
    (size : buf.size = sb.blockSize) : Gives (do
      let r ← ext2LookupFrom env sb name left i dir buf
      access (entryIno r)) (Fs.ext2LookupFrom sb name left i dir) := by
  induction left generalizing i dir buf with
  | zero => exact (Gives.pure _).ok_bind (access_gives _)
  | succ left ih =>
      rw [ext2LookupFrom, Fs.ext2LookupFrom, bind_assoc]
      refine (dirBlockAddr_gives reliable mounted dir i).map_bind fun r => ?_
      obtain ⟨dir', addr⟩ := r
      dsimp only
      split
      · exact (Gives.pure _).ok_bind (access_gives _)
      · rw [bind_assoc]
        refine .after _ (mounted.bdevRead_block reliable _ size) ?_
        rintro ⟨status, _⟩ ⟨fine, rfl⟩
        dsimp only
        rw [if_neg fine, bind_assoc]
        refine (access_gives _).bind fun found => ?_
        rcases found with err | _ | entry
        · exact (Gives.pure _).ok_bind (access_gives _)
        · exact ih (i + 1) dir' (mounted.readBlock_size _)
        · exact (Gives.pure _).ok_bind (access_gives _)

/-- The two lookups in a directory. -/
theorem ext2Lookup_gives (divides : Divides sb) (dir : Inode) (name : List UInt8) :
    Gives (ext2Lookup env sb dir name) (ext2Find sb dir name) := by
  refine .after _ (ext2AllocBlock_some reliable _) ?_
  rintro _ ⟨block, rfl, size⟩
  refine .through (ext2LookupFrom_gives reliable mounted name _ 0 dir size) (fun r => access_gives _) fun r => ?_
  obtain ⟨dir', found⟩ := r
  rcases found with err | _ | ⟨buf, entry⟩
  · exact (kfree_gives block).ok_bind (.pure _)
  · exact (kfree_gives block).ok_bind (.pure _)
  · dsimp only [entryIno]
    rw [bind_assoc]
    refine (access_gives _).bind fun ino => ?_
    refine (ext2ReadInode_gives reliable mounted divides ino).bind fun inode => ?_
    exact (kfree_gives block).ok_bind (.pure _)

/-- The two lookups with their dentries. -/
theorem ext2LookupChild_gives (divides : Divides sb) (dir : Inode) (parent child : Nat) (s : Vfs) :
    Gives (ext2LookupChild env sb parent dir child s) (s.ext2Lookup sb parent dir child) := by
  refine (ext2Lookup_gives reliable mounted divides dir _).bind fun r => ?_
  obtain ⟨dir', err | inode⟩ := r
  · exact .pure _
  · exact .pure _

end Agree

end SnapOS.Ext2Io

namespace SnapOS.Ext2Io.Mount
open SnapOS.Lib SnapOS.Fs Steps

section Mount

variable {env : Env} {bdev : BlockDev}

theorem superOf_eq (bdev : BlockDev) : superOf bdev = Fs.ext2ReadSuperblock bdev := by
  have offset : ext2SuperblockOffset - ext2SuperblockOffset / bdev.sectorSize * bdev.sectorSize =
      ext2SuperblockOffset % bdev.sectorSize := by
    have := Nat.div_add_mod' ext2SuperblockOffset bdev.sectorSize
    omega
  rw [Fs.ext2ReadSuperblock, offset]
  rfl

/-- A sound request leaves nothing of the memory that the table was read into. -/
theorem tableData_eq {super : Ext2Superblock} (sound : Sound bdev.sectorSize (descriptorRequest super bdev)) (k : Nat) :
    tableData env bdev super k = (Fs.ext2FillBgdTableInfo bdev super).bgdTable := by
  have size : (bdev.read (descriptorRequest super bdev).lba (descriptorRequest super bdev).count
      (descriptorRequest super bdev).length).size = (descriptorRequest super bdev).length := by
    rw [BlockDev.read, sound.2, Nat.min_self]
  have none (i : Nat) : ¬ ((descriptorRequest super bdev).length ≤ i ∧ i < (descriptorRequest super bdev).length) := by
    omega
  change _ = bdev.read (descriptorRequest super bdev).lba (descriptorRequest super bdev).count
    (descriptorRequest super bdev).length
  rw [tableData, filledBuffer]
  dsimp only
  simp only [size, none, if_false]
  nth_rewrite 2 [← size]
  rfl

theorem blockSize_of_page {super : Ext2Superblock} (blocks : blockSizeIn super ≠ 0)
    (page : blockSizeIn super ≤ pageSize) :
    blockSizeIn super = 1024 ∨ blockSizeIn super = 2048 ∨ blockSizeIn super = 4096 := by
  have all : ∀ n < 32, 1024 <<< n % word32 ≠ 0 → 1024 <<< n % word32 ≤ pageSize →
      1024 <<< n % word32 = 1024 ∨ 1024 <<< n % word32 = 2048 ∨ 1024 <<< n % word32 = 4096 := by
    decide
  exact all _ (Nat.mod_lt _ (by decide)) blocks page

theorem mounted_of_usable {super : Ext2Superblock} (page : blockSizeIn super ≤ pageSize)
    (usable : Usable bdev.sectorSize super) :
    Mounted (Fs.ext2Mount bdev super) ∧ Divides (Fs.ext2Mount bdev super) :=
  ⟨⟨blockSize_of_page usable.blocks page, Nat.div_mul_cancel usable.sectors⟩, usable.groups, usable.inodeSize,
    usable.inBlock⟩

variable (bdev) in
/-- What `ext2_mount` returns by the embedding without failures. -/
def mountedRoot : Exec (Except Int (Superblock × Except Int Inode)) := do
  let root ← Fs.ext2ReadInode (Fs.ext2Mount bdev (Fs.ext2ReadSuperblock bdev)) ext2RootDirIno
  .ok (.ok (Fs.ext2Mount bdev (Fs.ext2ReadSuperblock bdev), root))

section Usable

variable (reliable : env.Reliable) (page : blockSizeIn (superOf bdev) ≤ pageSize)
  (usable : Usable bdev.sectorSize (superOf bdev))

include page usable

theorem sectors_of_usable : bdev.sectorSize ≠ 0 ∧ bdev.sectorSize + 2047 < word32 := by
  have positive := Nat.pos_of_ne_zero usable.blocks
  have small : bdev.sectorSize ≤ 4096 := (Nat.le_of_dvd positive usable.sectors).trans page
  exact ⟨(Nat.pos_of_dvd_of_pos usable.sectors positive).ne', by simp only [word32]; omega⟩

theorem mountedSb_eq (k : Nat) : mountedSb bdev (tableData env bdev (superOf bdev) k) =
    Fs.ext2Mount bdev (Fs.ext2ReadSuperblock bdev) := by
  have table := (descriptorRequest_sound_iff bdev usable.blocks (sectors_of_usable page usable).1).mpr
    ⟨usable.sectors,
      (descriptorBlocks_ne_zero_iff usable.groups (Memory.load_lt _ 0 4) (Memory.load_lt _ 40 4) usable.blocks).mpr
        ⟨usable.sum, usable.some, usable.table⟩⟩
  rw [tableData_eq table, ← superOf_eq]
  rfl

include reliable

theorem ready_of_usable (a q : Nat) : Ready env bdev a q := by
  obtain ⟨some, small⟩ := sectors_of_usable page usable
  exact ⟨⟨reliable.memory _, reliable.memory _⟩, some, reliable_works reliable _ _, superblock_inside some small,
    ⟨usable.groups, usable.blocks⟩, reliable_works reliable _ _⟩

theorem root_gives : Gives (ext2ReadInode env (Fs.ext2Mount bdev (Fs.ext2ReadSuperblock bdev)) ext2RootDirIno)
    (Fs.ext2ReadInode (Fs.ext2Mount bdev (Fs.ext2ReadSuperblock bdev)) ext2RootDirIno) := by
  rw [superOf_eq] at page usable
  obtain ⟨mounted, divides⟩ := mounted_of_usable page usable
  exact ext2ReadInode_gives reliable mounted divides _

/-- The mount without the ledger of `exit_err`. -/
theorem ioMount_gives : Gives (Ext2Io.ext2Mount env bdev) (mountedRoot bdev) := by
  intro io
  obtain ⟨some, small⟩ := sectors_of_usable page usable
  obtain ⟨sbBlock, infoBlock, io₁, mount⟩ := ext2Mount_run reliable some small io
  have filled := ext2FillBgdTableInfo_fills ⟨usable.groups, usable.blocks⟩ some
    (reliable_works reliable io₁.allocations io₁.requests.length)
  have sb : mountedSb bdev (tableData env bdev (superOf bdev) io₁.allocations) = _ := mountedSb_eq page usable _
  rw [mountedSb] at sb
  rw [mountFrom, Steps.bind_ok filled] at mount
  dsimp only at mount
  rw [Steps.bind_ok (divide_ok some _), sb] at mount
  have rest : Gives (do
      let root ← ext2ReadInode env (Fs.ext2Mount bdev (Fs.ext2ReadSuperblock bdev)) ext2RootDirIno
      pure (.ok (Fs.ext2Mount bdev (Fs.ext2ReadSuperblock bdev), root))) (mountedRoot bdev) :=
    (root_gives reliable page usable).bind fun _ => .pure _
  rw [← rest, Steps.erase, Steps.erase, mount]

/-- The mount with all its exits. -/
theorem mount_gives : Gives (ext2Mount env bdev) (mountedRoot bdev) := by
  intro s
  obtain ⟨sbBlock, infoBlock, table, io₁, -, -, -, -, mount⟩ :=
    ext2Mount_ready (s := s) (ready_of_usable reliable page usable _ _)
  rw [mountSb, mountedSb_eq page usable] at mount
  have root := root_gives reliable page usable
  rw [Steps.erase, mount, mountedRoot]
  cases read : ext2ReadInode env (Fs.ext2Mount bdev (Fs.ext2ReadSuperblock bdev)) ext2RootDirIno io₁ with
  | ok r io₂ =>
      obtain ⟨s', done, -⟩ := finishMount_some sbBlock infoBlock table s.strays read
        ⟨reliable.memory _, reliable.memory _⟩
      rw [root.of_ok read]
      rw [done]
      rfl
  | error e io₂ =>
      obtain ⟨s', stopped, -⟩ := finishMount_stops sbBlock infoBlock table s.strays read
      rw [root.of_error read]
      rw [stopped]
      rfl

end Usable

end Mount

end SnapOS.Ext2Io.Mount
