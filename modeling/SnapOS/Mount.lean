/- ext2_mount to its end: the root's dentry, and what a mount that fails leaves behind. -/
import SnapOS.AllocList
import SnapOS.DirComplete
import SnapOS.SafeSuperblock

namespace SnapOS.Ext2Io
open SnapOS.Lib SnapOS.Fs
open SnapOS.Paging (errPtr)

/-- The driver, and the pointers that `kfree` got and that no allocation of the driver had returned. -/
structure Ledger where
  io : Io
  strays : List Nat

namespace Mount

/-- A call of the driver that frees its own blocks only. -/
def driver {α : Type} (x : Steps Io α) : Steps Ledger α := fun s =>
  match x s.io with
  | .ok a io => .ok a { s with io := io }
  | .error e io => .error e { s with io := io }

variable (env : Env)

/-- `kfree` of a pointer that the driver did not allocate. It reads the header of the page, and no table maps the page
of the error pointers. -/
def kfreeStray (address : Nat) : Steps Ledger Unit := do
  let s ← get
  set { s with strays := s.strays ++ [address] }
  if isErr address || !env.takes address then throw .outOfBounds else pure ()

def sizeofDentry : Nat := 56

/-- `d_alloc` for a name of this length: the dentry and the copy of the name. -/
def dAlloc (len : Nat) : Steps Io (Option (Block × Block)) := do
  match ← kmalloc env sizeofDentry with
  | none => pure none
  | some d => do
      match ← kmalloc env (len + 1) with
      | none => do
          kfree d
          pure none
      | some name => pure (some (d, name))

/-- The inode is the third of the four allocations of `ext2_read_inode`. -/
def rootBlock (io : Io) : Block := ⟨io.allocations + 2, ⟨fun _ => 0, sizeofInode⟩⟩

def kfreeRoot (block : Block) : Except Int Inode → Steps Ledger Unit
  | .ok _ => driver (kfree block)
  | .error err => kfreeStray env (errPtr err)

-- The inode is tested for null only, and an error pointer is not null.
def ext2GetRoot (sb : Superblock) : Steps Ledger (Except Int (Except Int Inode)) := do
  let s ← get
  let inode ← driver (ext2ReadInode env sb ext2RootDirIno)
  match ← driver (dAlloc env 1) with
  | none => do
      kfreeRoot env (rootBlock s.io) inode
      pure (.error (-eNoMem))
  | some _ => pure (.ok inode)

/-- What `info->bgd_table` has been since `kmalloc` returned `info`. -/
def stalePointer (info : Block) : Nat := info.data.bytes.load 1040 8

/-- The label `exit_err`, with the descriptor table if it was assigned. -/
def exitErr (sb : Block) (info table : Option Block) : Steps Ledger Unit := do
  driver (kfree sb)
  match info with
  | none => pure ()
  | some info => do
      match table with
      | some table => driver (kfree table)
      | none => if stalePointer info ≠ 0 then kfreeStray env (stalePointer info) else pure ()
      driver (kfree info)

/-- The descriptor table is the only allocation of `ext2_fill_bgd_table_info`. -/
def tableBlock (io : Io) : Block := ⟨io.allocations, ⟨fun _ => 0, 0⟩⟩

/-- `ext2_mount` from `ext2_read_superblock` to `ext2_get_root`: the superblock, and the three blocks that are allocated
then. -/
def readMount (bdev : BlockDev) (sbBlock infoBlock : Block) :
    Steps Ledger (Except Int (Superblock × Block × Block × Block)) := do
  match ← driver (ext2ReadSuperblock env bdev) with
  | .error status => do
      exitErr env sbBlock (some infoBlock) none
      pure (.error status)
  | .ok bytes => do
      let superblock := Ext2Superblock.ofBytes bytes
      let s ← get
      match ← driver (ext2FillBgdTableInfo env bdev superblock) with
      | .error status => do
          exitErr env sbBlock (some infoBlock) none
          pure (.error status)
      | .ok info => do
          let blockSize := shl32 1024 superblock.logBlockSize
          let sectorsPerBlock ← driver (divide blockSize bdev.sectorSize)
          pure (.ok (⟨bdev, blockSize, sectorsPerBlock, info⟩, sbBlock, infoBlock, tableBlock s.io))

/-- `ext2_mount` up to `ext2_get_root`. -/
def beforeRoot (bdev : BlockDev) : Steps Ledger (Except Int (Superblock × Block × Block × Block)) := do
  match ← driver (kmalloc env sizeofSuperblock) with
  | none => pure (.error (-eNoMem))
  | some sbBlock => do
      match ← driver (kmalloc env sizeofExt2FsInfo) with
      | none => do
          exitErr env sbBlock none none
          pure (.error (-eNoMem))
      | some infoBlock => readMount env bdev sbBlock infoBlock

/-- `ext2_mount` from `ext2_get_root` on. -/
def finishMount (sb : Superblock) (sbBlock infoBlock table : Block) :
    Steps Ledger (Except Int (Superblock × Except Int Inode)) := do
  match ← ext2GetRoot env sb with
  | .error err => do
      exitErr env sbBlock (some infoBlock) (some table)
      pure (.error err)
  | .ok root => pure (.ok (sb, root))

/-- `ext2_mount`. The inode of the root's dentry may be an error pointer. -/
def ext2Mount (bdev : BlockDev) : Steps Ledger (Except Int (Superblock × Except Int Inode)) := do
  match ← beforeRoot env bdev with
  | .error err => pure (.error err)
  | .ok (sb, sbBlock, infoBlock, table) => finishMount env sb sbBlock infoBlock table

/-! Steps of a mount -/

section Steps

variable {env} {bdev : BlockDev} {sb : Superblock} {io io' : Io}

/-- What `IS_ERR` recognises. -/
def Errno (err : Int) : Prop := -4095 ≤ err ∧ err < 0

theorem driver_ok {α : Type} {x : Steps Io α} {s : Ledger} {a : α} (done : x s.io = .ok a io') :
    driver x s = .ok a { s with io := io' } := by
  rw [driver, done]

theorem driver_error {α : Type} {x : Steps Io α} {s : Ledger} {e : Fault} (stopped : x s.io = .error e io') :
    driver x s = .error e { s with io := io' } := by
  rw [driver, stopped]

theorem errno_noMem : Errno (-eNoMem) := ⟨by decide, by decide⟩

theorem ext2ReadSuperblock_fails (some : bdev.sectorSize ≠ 0) (fails : Fails env io.allocations io.requests.length) :
    ∃ err io', ext2ReadSuperblock env bdev io = .ok (.error err) io' ∧ Errno err ∧ io'.live = io.live := by
  cases memory : env.available io.allocations with
  | false =>
      rw [ext2ReadSuperblock, Steps.bind_ok (divide_ok some io), Steps.bind_ok (divide_ok some io),
        Steps.bind_ok (kmalloc_refused memory _)]
      exact ⟨_, _, rfl, errno_noMem, rfl⟩
  | true =>
      have failed : env.status io.granted.requests.length < 0 := fails.resolve_left (by rw [memory]; decide)
      obtain ⟨buf, id, -, asks⟩ := ext2ReadSuperblock_asks some memory
      rw [asks, Steps.bind_ok (bdevRead_failed failed)]
      dsimp only
      rw [takeSuper, if_pos failed]
      exact ⟨_, _, rfl, ⟨env.errno _, failed⟩, by rw [id]; exact freed_granted io _⟩

theorem ext2FillBgdTableInfo_stops {super : Ext2Superblock} (zero : ¬ Divisible super) :
    ∃ e io', ext2FillBgdTableInfo env bdev super io = .error e io' := by
  by_cases groups : super.inodesPerBlockgroup = 0
  · exact ⟨_, _, ext2FillBgdTableInfo_zero groups io⟩
  · have blocks : shl32 1024 super.logBlockSize = 0 := by
      by_contra some
      exact zero ⟨groups, some⟩
    rw [ext2FillBgdTableInfo, Steps.bind_ok (divide_ok groups io)]
    dsimp only
    rw [blocks]
    exact ⟨_, _, Steps.bind_error (divide_zero _ _)⟩

theorem ext2FillBgdTableInfo_fails {super : Ext2Superblock} (divisible : Divisible super) (some : bdev.sectorSize ≠ 0)
    (fails : Fails env io.allocations io.requests.length) :
    ∃ err io', ext2FillBgdTableInfo env bdev super io = .ok (.error err) io' ∧ Errno err ∧ io'.live = io.live := by
  obtain ⟨groups, blocks⟩ := divisible
  rw [blockSizeIn] at blocks
  rw [ext2FillBgdTableInfo]
  dsimp only
  rw [Steps.bind_ok (divide_ok groups io), Steps.bind_ok (divide_ok blocks io)]
  cases memory : env.available io.allocations with
  | false =>
      rw [Steps.bind_ok (kmalloc_refused memory _)]
      exact ⟨_, _, rfl, errno_noMem, rfl⟩
  | true =>
      have failed : env.status io.granted.requests.length < 0 := fails.resolve_left (by rw [memory]; decide)
      rw [Steps.bind_ok (kmalloc_granted memory _)]
      dsimp only
      rw [Steps.bind_ok (divide_ok some _), Steps.bind_ok (bdevRead_failed failed)]
      dsimp only
      rw [if_pos failed]
      exact ⟨_, _, rfl, ⟨env.errno _, failed⟩, freed_granted io _⟩

/-! The root -/

theorem copy_filled {lba count offset : Nat} {buf : Buffer}
    (inside : offset + sizeofExt2Inode ≤ count * bdev.sectorSize)
    (fits : offset + sizeofExt2Inode ≤ buf.size) :
    Ext2Inode.copy (filledBuffer bdev lba count buf) offset = Ext2Inode.copy (bdev.read lba count buf.size) offset := by
  have size : (bdev.read lba count buf.size).size = min (count * bdev.sectorSize) buf.size := rfl
  have filled : offset + sizeofExt2Inode ≤ (bdev.read lba count buf.size).size := size ▸ Nat.le_min.mpr ⟨inside, fits⟩
  have same (a n : Nat) (within : a + n ≤ offset + sizeofExt2Inode) :
      (filledBuffer bdev lba count buf).bytes.load a n = (bdev.read lba count buf.size).bytes.load a n :=
    Memory.load_congr fun i _ before => if_neg fun outside => absurd outside.1 (by omega)
  have table : ((List.range 12).map fun i => (filledBuffer bdev lba count buf).bytes.load (offset + 40 + 4 * i) 4) =
      (List.range 12).map fun i => (bdev.read lba count buf.size).bytes.load (offset + 40 + 4 * i) 4 :=
    List.map_congr_left fun i inRange => same _ _ (by have := List.mem_range.mp inRange; rw [sizeofExt2Inode]; omega)
  rw [Ext2Inode.copy, Ext2Inode.copy, filledBuffer_size, if_pos fits, if_pos filled, table,
    same _ _ (by rw [sizeofExt2Inode]; omega),
    same _ _ (by rw [sizeofExt2Inode]; omega), same _ _ (by rw [sizeofExt2Inode]; omega),
    same _ _ (by rw [sizeofExt2Inode]; omega)]

/-- The block of the root's inode, in memory that allocation `k` returned. -/
def rootData (env : Env) (sb : Superblock) (k : Nat) : Buffer :=
  filledBuffer sb.bdev (slotOf sb ext2RootDirIno).lba sb.sectorsPerBlock ⟨env.fresh k, sb.blockSize⟩

/-- The root's inode is not read, from allocation `a` and request `q` on, and `n` allocations are made. -/
inductive RootFails (env : Env) (sb : Superblock) (a q : Nat) : Nat → Prop
  | group (groups : sb.info.inodesPerGroup ≠ 0) (outside : ¬ inodeGroup sb ext2RootDirIno < sb.info.blockGroupCount) :
      RootFails env sb a q 0
  | memory (computed : SlotComputed sb ext2RootDirIno) (none : ∃ k < 4, env.available (a + k) = false) :
      RootFails env sb a q 4
  | device (computed : SlotComputed sb ext2RootDirIno) (memory : ∀ k < 4, env.available (a + k) = true)
      (failed : env.status q < 0) : RootFails env sb a q 4

/-- There is an inode in the buffer. -/
structure RootTaken (env : Env) (sb : Superblock) (a q : Nat) : Prop where
  computed : SlotComputed sb ext2RootDirIno
  memory : ∀ k < 4, env.available (a + k) = true
  answers : ¬ env.status q < 0
  inside : (slotOf sb ext2RootDirIno).offset + sizeofExt2Inode ≤ sb.blockSize
  kind : isDir ((rootData env sb a).bytes.load (slotOf sb ext2RootDirIno).offset 2) = true ∨
    isReg ((rootData env sb a).bytes.load (slotOf sb ext2RootDirIno).offset 2) = true

def allocated (env : Env) (io : Io) : Io := if env.available io.allocations then io.granted else io.refused

def given (env : Env) (io : Io) (size : Nat) : Option Block :=
  if env.available io.allocations then some ⟨io.allocations, ⟨env.fresh io.allocations, size⟩⟩ else none

theorem kmalloc_eq (env : Env) (io : Io) (size : Nat) :
    kmalloc env size io = .ok (given env io size) (allocated env io) := by
  rw [given, allocated]
  cases memory : env.available io.allocations with
  | false => exact kmalloc_refused memory size
  | true => exact kmalloc_granted memory size

@[simp] theorem allocated_allocations (env : Env) (io : Io) : (allocated env io).allocations = io.allocations + 1 := by
  rw [allocated]
  split <;> rfl

@[simp] theorem allocated_requests (env : Env) (io : Io) : (allocated env io).requests = io.requests := by
  rw [allocated]
  split <;> rfl

theorem given_isSome (env : Env) (io : Io) (size : Nat) :
    (given env io size).isSome = env.available io.allocations := by
  rw [given]
  cases env.available io.allocations <;> rfl

theorem allocated_live (env : Env) (io : Io) (size : Nat) :
    (allocated env io).live = ((given env io size).map Block.id).toList ++ io.live := by
  rw [allocated, given]
  cases env.available io.allocations <;> rfl

theorem freeAll_ok (blocks : List (Option Block)) (io : Io) : freeAll blocks io =
    .ok () { io with live := io.live.diff (blocks.flatMap fun b => (b.map Block.id).toList) } := by
  induction blocks generalizing io with
  | nil => rfl
  | cons b rest ih =>
      cases b with
      | none => exact ih io
      | some block =>
          rw [freeAll]
          refine (Steps.bind_ok (show kfree block io = .ok () (io.freed block.id) from rfl)).trans ?_
          rw [ih, List.flatMap_cons, Option.map_some, Option.toList_some, List.singleton_append, List.diff_cons]
          rfl

theorem freeAll_allocated (env : Env) (io : Io) (a b c d : Nat) :
    (allocated env (allocated env (allocated env (allocated env io)))).live.diff
      ([given env io a, given env (allocated env io) b, given env (allocated env (allocated env io)) c,
        given env (allocated env (allocated env (allocated env io))) d].flatMap fun b => (b.map Block.id).toList) =
      io.live := by
  rw [allocated_live _ _ d, allocated_live _ _ c, allocated_live _ _ b, allocated_live _ _ a]
  simp only [given, allocated_allocations]
  cases env.available io.allocations <;> cases env.available (io.allocations + 1) <;>
    cases env.available (io.allocations + 1 + 1) <;> cases env.available (io.allocations + 1 + 1 + 1) <;>
    simp [Nat.add_assoc, List.diff_cons]

theorem root_first : 1 ≤ ext2RootDirIno := by decide

theorem root_small : ext2RootDirIno < word32 := by decide

theorem ext2ReadInode_starved (computed : SlotComputed sb ext2RootDirIno)
    (missing : ∃ k < 4, env.available (io.allocations + k) = false) :
    ∃ io', ext2ReadInode env sb ext2RootDirIno io = .ok (.error (-eNoMem)) io' ∧
      io'.allocations = io.allocations + 4 ∧ io'.live = io.live := by
  have undone := freeAll_allocated env io sb.blockSize sizeofExt2Inode sizeofInode sizeofExt2InodeInfo
  rw [ext2ReadInode, Steps.bind_ok (ext2InodeSlot_computed computed root_first root_small io)]
  dsimp only
  rw [ext2AllocBlock_eq, Steps.bind_ok (kmalloc_eq env io _), Steps.bind_ok (kmalloc_eq env _ _),
    Steps.bind_ok (kmalloc_eq env _ _), Steps.bind_ok (kmalloc_eq env _ _)]
  cases first : given env io sb.blockSize with
  | none =>
      rw [first] at undone
      exact ⟨_, Steps.bind_ok (freeAll_ok _ _), by simp only [allocated_allocations], undone⟩
  | some block =>
      rw [first] at undone
      have here := congrArg Option.isSome first
      generalize others : (_ && _ && _) = all
      cases all with
      | false => exact ⟨_, Steps.bind_ok (freeAll_ok _ _), by simp only [allocated_allocations], undone⟩
      | true =>
          simp only [given_isSome, Option.isSome_some, Bool.and_eq_true, allocated_allocations] at here others
          obtain ⟨k, less, gone⟩ := missing
          obtain rfl | rfl | rfl | rfl : k = 0 ∨ k = 1 ∨ k = 2 ∨ k = 3 := by omega
          · cases here.symm.trans gone
          · cases others.1.1.symm.trans gone
          · cases others.1.2.symm.trans gone
          · cases others.2.symm.trans gone

def answerInode (sb : Superblock) (block : Block) (blocks : List (Option Block)) (status : Int) (data : Buffer) :
    Steps Io (Except Int Inode) :=
  if status < 0 then do
    freeAll blocks
    pure (.error status)
  else takeInode block ext2RootDirIno data (slotOf sb ext2RootDirIno).offset

theorem four_available (memory : ∀ k < 4, env.available (io.allocations + k) = true) :
    env.available io.allocations = true ∧ env.available io.granted.allocations = true ∧
      env.available io.granted.granted.allocations = true ∧
      env.available io.granted.granted.granted.allocations = true :=
  ⟨memory 0 (by decide), memory 1 (by decide), memory 2 (by decide), memory 3 (by decide)⟩

theorem ext2ReadInode_asks (computed : SlotComputed sb ext2RootDirIno)
    (memory : ∀ k < 4, env.available (io.allocations + k) = true) :
    ext2ReadInode env sb ext2RootDirIno io = (do
      let (status, data) ← bdevRead env sb.bdev (slotOf sb ext2RootDirIno).lba sb.sectorsPerBlock
        ⟨env.fresh io.allocations, sb.blockSize⟩
      answerInode sb ⟨io.allocations, ⟨env.fresh io.allocations, sb.blockSize⟩⟩
        [given env io sb.blockSize, given env io.granted sizeofExt2Inode, given env io.granted.granted sizeofInode,
          given env io.granted.granted.granted sizeofExt2InodeInfo] status data)
            io.granted.granted.granted.granted := by
  obtain ⟨first, second, third, fourth⟩ := four_available memory
  rw [ext2ReadInode, Steps.bind_ok (ext2InodeSlot_computed computed root_first root_small io)]
  dsimp only
  rw [ext2AllocBlock_eq, Steps.bind_ok (kmalloc_granted first _), Steps.bind_ok (kmalloc_granted second _),
    Steps.bind_ok (kmalloc_granted third _), Steps.bind_ok (kmalloc_granted fourth _), given, given, given, given,
    if_pos first, if_pos second, if_pos third, if_pos fourth]
  rfl

theorem allocated_granted (memory : env.available io.allocations = true) : allocated env io = io.granted :=
  if_pos memory

theorem ext2ReadInode_fails {n : Nat} (fails : RootFails env sb io.allocations io.requests.length n) :
    ∃ err io', ext2ReadInode env sb ext2RootDirIno io = .ok (.error err) io' ∧ Errno err ∧
      io'.allocations = io.allocations + n ∧ io'.live = io.live := by
  cases fails with
  | group groups outside =>
      exact ⟨_, io, ext2ReadInode_outside root_first root_small groups outside io, ⟨by decide, by decide⟩, rfl, rfl⟩
  | memory computed missing =>
      obtain ⟨io', done, count, live⟩ := ext2ReadInode_starved computed missing
      exact ⟨_, io', done, errno_noMem, count, live⟩
  | device computed memory failed =>
      have undone := freeAll_allocated env io sb.blockSize sizeofExt2Inode sizeofInode sizeofExt2InodeInfo
      have failed : env.status io.granted.granted.granted.granted.requests.length < 0 := failed
      rw [ext2ReadInode_asks computed memory, Steps.bind_ok (bdevRead_failed failed)]
      dsimp only
      rw [answerInode, if_pos failed]
      refine ⟨_, _, Steps.bind_ok (freeAll_ok _ _), ⟨env.errno _, failed⟩, rfl, ?_⟩
      obtain ⟨first, second, third, fourth⟩ := four_available memory
      rw [allocated_granted first, allocated_granted second, allocated_granted third,
        allocated_granted fourth] at undone
      exact undone

/-- The block buffer is freed, and the other three blocks belong to the inode. -/
theorem ext2ReadInode_takes (taken : RootTaken env sb io.allocations io.requests.length) :
    ∃ inode io', ext2ReadInode env sb ext2RootDirIno io = .ok (.ok inode) io' ∧ inode.ino = ext2RootDirIno ∧
      Ext2Inode.copy (rootData env sb io.allocations) (slotOf sb ext2RootDirIno).offset = .ok inode.ext2Inode ∧
      inode.size = ext2InodeDataSize inode.ext2Inode ∧
      io'.requests = io.requests ++ [blockRequest sb (slotOf sb ext2RootDirIno).lba] ∧
      io'.allocations = io.allocations + 4 ∧
      io'.live = [io.allocations + 3, io.allocations + 2, io.allocations + 1] ++ io.live := by
  have answers : ¬ env.status io.granted.granted.granted.granted.requests.length < 0 := taken.answers
  have live : ([io.allocations + 3, io.allocations + 2, io.allocations + 1, io.allocations] ++ io.live).erase
      io.allocations = [io.allocations + 3, io.allocations + 2, io.allocations + 1] ++ io.live := by
    simp
  rw [ext2ReadInode_asks taken.computed taken.memory, Steps.bind_ok (bdevRead_answers answers)]
  dsimp only
  rw [answerInode, if_neg answers, ← rootData]
  obtain ⟨inode, done, isRoot, copied, size⟩ := takeInode_ok
    (show _ ≤ (rootData env sb io.allocations).size from taken.inside) taken.kind
    ⟨io.allocations, ⟨env.fresh io.allocations, sb.blockSize⟩⟩ ext2RootDirIno _
  exact ⟨inode, _, done, isRoot, copied, size, rfl, rfl, live⟩

/-- An address computation that is not finished faults, unless the group is not there. -/
theorem ext2InodeSlot_stops (groups : sb.info.inodesPerGroup ≠ 0)
    (inside : inodeGroup sb ext2RootDirIno < sb.info.blockGroupCount) (computed : ¬ SlotComputed sb ext2RootDirIno)
    (io : Io) : ∃ e io', ext2InodeSlot sb ext2RootDirIno io = .error e io' := by
  cases run : ext2InodeSlot sb ext2RootDirIno io with
  | error e io' => exact ⟨e, io', rfl⟩
  | ok r io' =>
      cases r with
      | ok slot => exact absurd (ext2InodeSlot_only root_first root_small run).1 computed
      | error err =>
          have group : ¬ (ext2RootDirIno - 1) / sb.info.inodesPerGroup ≥ sb.info.blockGroupCount :=
            Nat.not_le.mpr inside
          rw [ext2InodeSlot, pred_word32 root_first root_small] at run
          dsimp only at run
          rw [Steps.bind_ok (divide_ok groups io), if_neg group] at run
          obtain ⟨index, io₁, -, run⟩ := Steps.bind_eq_ok.mp run
          obtain ⟨perBlock, io₂, -, run⟩ := Steps.bind_eq_ok.mp run
          obtain ⟨offset, io₃, -, run⟩ := Steps.bind_eq_ok.mp run
          obtain ⟨within, io₄, -, run⟩ := Steps.bind_eq_ok.mp run
          obtain ⟨table, io₅, -, run⟩ := Steps.bind_eq_ok.mp run
          cases run

theorem ext2ReadInode_stops (reads : ∀ n, ¬ RootFails env sb io.allocations io.requests.length n)
    (untaken : ¬ RootTaken env sb io.allocations io.requests.length) :
    ∃ e io', ext2ReadInode env sb ext2RootDirIno io = .error e io' := by
  by_cases groups : sb.info.inodesPerGroup = 0
  · have stopped : ext2InodeSlot sb ext2RootDirIno io = .error divideByZero io := by
      rw [ext2InodeSlot, groups]
      exact Steps.bind_error (divide_zero _ _)
    exact ⟨_, _, Steps.bind_error stopped⟩
  have inside : inodeGroup sb ext2RootDirIno < sb.info.blockGroupCount := by
    by_contra outside
    exact reads 0 (.group groups outside)
  by_cases computed : SlotComputed sb ext2RootDirIno
  · have memory : ∀ k < 4, env.available (io.allocations + k) = true := by
      intro k less
      by_contra missing
      exact reads 4 (.memory computed ⟨k, less, Bool.eq_false_iff.mpr missing⟩)
    have answers : ¬ env.status io.granted.granted.granted.granted.requests.length < 0 :=
      fun failed => reads 4 (.device computed memory failed)
    rw [ext2ReadInode_asks computed memory, Steps.bind_ok (bdevRead_answers answers)]
    dsimp only
    rw [answerInode, if_neg answers, ← rootData]
    cases run : takeInode _ ext2RootDirIno (rootData env sb io.allocations) (slotOf sb ext2RootDirIno).offset _ with
    | error e io' => exact ⟨e, io', rfl⟩
    | ok r io' =>
        obtain ⟨within, kind, -⟩ := takeInode_only run
        exact absurd ⟨computed, memory, answers, within, kind⟩ untaken
  · obtain ⟨e, io', stopped⟩ := ext2InodeSlot_stops groups inside computed io
    exact ⟨e, io', Steps.bind_error stopped⟩

/-! The dentry -/

/-- There is memory for the dentry and its name. -/
def DentryMemory (env : Env) (k : Nat) : Prop := env.available k = true ∧ env.available (k + 1) = true

theorem dAlloc_ok (memory : DentryMemory env io.allocations) : ∃ blocks io', dAlloc env 1 io = .ok (some blocks) io' ∧
    io'.requests = io.requests := by
  have second : env.available io.granted.allocations = true := memory.2
  rw [dAlloc, Steps.bind_ok (kmalloc_granted memory.1 _)]
  dsimp only
  rw [Steps.bind_ok (kmalloc_granted second _)]
  exact ⟨_, _, rfl, rfl⟩

theorem dAlloc_none (short : ¬ DentryMemory env io.allocations) : ∃ io', dAlloc env 1 io = .ok none io' ∧
    io'.live = io.live := by
  cases first : env.available io.allocations with
  | false =>
      rw [dAlloc, Steps.bind_ok (kmalloc_refused first _)]
      exact ⟨_, rfl, rfl⟩
  | true =>
      have second : env.available io.granted.allocations = false :=
        Bool.eq_false_iff.mpr fun second => short ⟨first, second⟩
      rw [dAlloc, Steps.bind_ok (kmalloc_granted first _)]
      dsimp only
      rw [Steps.bind_ok (kmalloc_refused second _)]
      exact ⟨_, rfl, List.erase_cons_head _ _⟩

end Steps

/-! The end of a mount, from the root on -/

section Root

variable {env} {sb : Superblock}

theorem exitErr_table (sbBlock infoBlock table : Block) (s : Ledger) :
    exitErr env sbBlock (some infoBlock) (some table) s =
      .ok () { s with io := ((s.io.freed sbBlock.id).freed table.id).freed infoBlock.id } := rfl

/-- The pointers for which `kfree` does not return. -/
def Lost (env : Env) (address : Nat) : Prop := isErr address = true ∨ env.takes address = false

theorem kfreeStray_lost {address : Nat} (lost : Lost env address) (s : Ledger) :
    kfreeStray env address s = .error .outOfBounds { s with strays := s.strays ++ [address] } := by
  have stops : (isErr address || !env.takes address) = true := by
    rcases lost with error | other
    · rw [error, Bool.true_or]
    · rw [other, Bool.not_false, Bool.or_true]
  rw [kfreeStray, Steps.get_bind, Steps.set_bind, if_pos stops]
  rfl

theorem kfreeStray_taken {address : Nat} (taken : ¬ Lost env address) (s : Ledger) :
    kfreeStray env address s = .ok () { s with strays := s.strays ++ [address] } := by
  have goesOn : ¬ (isErr address || !env.takes address) = true := by
    rw [Bool.or_eq_true, Bool.not_eq_true']
    exact taken
  rw [kfreeStray, Steps.get_bind, Steps.set_bind, if_neg goesOn]
  rfl

variable {io : Io} (sbBlock infoBlock table : Block) (strays : List Nat)

theorem finishMount_some {root : Except Int Inode} {io₁ : Io}
    (read : ext2ReadInode env sb ext2RootDirIno io = .ok root io₁)
    (memory : DentryMemory env io₁.allocations) :
    ∃ s', finishMount env sb sbBlock infoBlock table ⟨io, strays⟩ = .ok (.ok (sb, root)) s' ∧
      s'.io.requests = io₁.requests ∧ s'.strays = strays := by
  obtain ⟨blocks, io₂, allocated, requests⟩ := dAlloc_ok memory
  have root : ext2GetRoot env sb ⟨io, strays⟩ = .ok (.ok root) ⟨io₂, strays⟩ := by
    rw [ext2GetRoot, Steps.get_bind, Steps.bind_ok (driver_ok read), Steps.bind_ok (driver_ok allocated)]
    rfl
  rw [finishMount, Steps.bind_ok root]
  exact ⟨_, rfl, requests, rfl⟩

theorem isErr_errno {err : Int} (errno : Errno err) : isErr (errPtr err) = true := by
  obtain ⟨least, negative⟩ := errno
  rw [isErr, decide_eq_true_eq, errPtr, word64, maxErrno]
  omega

/-- `kfree` gets the error pointer, and reads where no page is. -/
theorem finishMount_stray {err : Int} {io₁ : Io} (read : ext2ReadInode env sb ext2RootDirIno io = .ok (.error err) io₁)
    (errno : Errno err) (short : ¬ DentryMemory env io₁.allocations) :
    ∃ s', finishMount env sb sbBlock infoBlock table ⟨io, strays⟩ = .error .outOfBounds s' ∧
      s'.strays = strays ++ [errPtr err] := by
  obtain ⟨io₂, none, -⟩ := dAlloc_none short
  have root : ext2GetRoot env sb ⟨io, strays⟩ = .error .outOfBounds ⟨io₂, strays ++ [errPtr err]⟩ := by
    rw [ext2GetRoot, Steps.get_bind, Steps.bind_ok (driver_ok read), Steps.bind_ok (driver_ok none)]
    dsimp only
    rw [kfreeRoot, Steps.bind_error (kfreeStray_lost (Or.inl (isErr_errno errno)) _)]
  exact ⟨_, Steps.bind_error root, rfl⟩

/-- `kfree` gets the inode, and not the two blocks that it refers to. -/
theorem finishMount_leaks {inode : Inode} {io₁ : Io}
    (read : ext2ReadInode env sb ext2RootDirIno io = .ok (.ok inode) io₁)
    (short : ¬ DentryMemory env io₁.allocations) :
    ∃ s', finishMount env sb sbBlock infoBlock table ⟨io, strays⟩ = .ok (.error (-eNoMem)) s' ∧
      s'.io.live = (((io₁.live.erase (io.allocations + 2)).erase sbBlock.id).erase table.id).erase infoBlock.id := by
  obtain ⟨io₂, none, live⟩ := dAlloc_none short
  have root : ext2GetRoot env sb ⟨io, strays⟩ = .ok (.error (-eNoMem)) ⟨io₂.freed (io.allocations + 2), strays⟩ := by
    rw [ext2GetRoot, Steps.get_bind, Steps.bind_ok (driver_ok read), Steps.bind_ok (driver_ok none)]
    rfl
  rw [finishMount, Steps.bind_ok root]
  dsimp only
  rw [Steps.bind_ok (exitErr_table _ _ _ _), ← live]
  exact ⟨_, rfl, rfl⟩

theorem finishMount_stops {e : Fault} {io₁ : Io} (stopped : ext2ReadInode env sb ext2RootDirIno io = .error e io₁) :
    ∃ s', finishMount env sb sbBlock infoBlock table ⟨io, strays⟩ = .error e s' ∧ s'.strays = strays := by
  have root : ext2GetRoot env sb ⟨io, strays⟩ = .error e ⟨io₁, strays⟩ := by
    rw [ext2GetRoot, Steps.get_bind, Steps.bind_error (driver_error stopped)]
  exact ⟨_, Steps.bind_error root, rfl⟩

end Root

/-! The start of a mount -/

section Start

variable {env} {bdev : BlockDev} {s : Ledger}

def Started (env : Env) (a : Nat) : Prop := env.available a = true ∧ env.available (a + 1) = true

/-- An error before the root: the superblock cannot be read, or the descriptors cannot. -/
structure FailsEarly (env : Env) (bdev : BlockDev) (a q : Nat) : Prop where
  started : Started env a
  sectors : bdev.sectorSize ≠ 0
  fails : Fails env (a + 2) q ∨ (SuperInside bdev ∧ Divisible (superOf bdev) ∧ Fails env (a + 3) (q + 1))

/-- The mount comes to the root. -/
structure Ready (env : Env) (bdev : BlockDev) (a q : Nat) : Prop where
  started : Started env a
  sectors : bdev.sectorSize ≠ 0
  super : ¬ Fails env (a + 2) q
  inside : SuperInside bdev
  divisible : Divisible (superOf bdev)
  table : ¬ Fails env (a + 3) (q + 1)

def mountSb (env : Env) (bdev : BlockDev) (a : Nat) : Superblock :=
  mountedSb bdev (tableData env bdev (superOf bdev) (a + 3))

/-- The pointer in `info` before it is assigned. -/
def stale (env : Env) (a : Nat) : Nat := (env.fresh (a + 1)).load 1040 8

theorem ext2Mount_of_error {err : Int} {s' : Ledger} (done : beforeRoot env bdev s = .ok (.error err) s') :
    ext2Mount env bdev s = .ok (.error err) s' := by
  rw [ext2Mount, Steps.bind_ok done]
  rfl

theorem ext2Mount_of_stop {e : Fault} {s' : Ledger} (stopped : beforeRoot env bdev s = .error e s') :
    ext2Mount env bdev s = .error e s' := Steps.bind_error stopped

theorem beforeRoot_unstarted (bdev : BlockDev) (short : ¬ Started env s.io.allocations) :
    ∃ s', beforeRoot env bdev s = .ok (.error (-eNoMem)) s' ∧ s'.io.live = s.io.live ∧ s'.strays = s.strays := by
  cases first : env.available s.io.allocations with
  | false =>
      rw [beforeRoot, Steps.bind_ok (driver_ok (kmalloc_refused first _))]
      exact ⟨_, rfl, rfl, rfl⟩
  | true =>
      have second : env.available s.io.granted.allocations = false :=
        Bool.eq_false_iff.mpr fun second => short ⟨first, second⟩
      rw [beforeRoot, Steps.bind_ok (driver_ok (kmalloc_granted first _))]
      dsimp only
      rw [Steps.bind_ok (driver_ok (kmalloc_refused second _))]
      exact ⟨_, rfl, List.erase_cons_head _ _, rfl⟩

theorem beforeRoot_started (bdev : BlockDev) (started : Started env s.io.allocations) :
    ∃ sbBlock infoBlock : Block, sbBlock.id = s.io.allocations ∧ infoBlock.id = s.io.allocations + 1 ∧
      stalePointer infoBlock = stale env s.io.allocations ∧
      beforeRoot env bdev s = readMount env bdev sbBlock infoBlock { s with io := s.io.granted.granted } := by
  have second : env.available s.io.granted.allocations = true := started.2
  rw [beforeRoot, Steps.bind_ok (driver_ok (kmalloc_granted started.1 _))]
  dsimp only
  rw [Steps.bind_ok (driver_ok (kmalloc_granted second _))]
  refine ⟨⟨s.io.allocations, env.fresh s.io.allocations, sizeofSuperblock⟩,
    ⟨s.io.granted.allocations, env.fresh s.io.granted.allocations, sizeofExt2FsInfo⟩, rfl, rfl, rfl, ?_⟩
  rfl

/-- What `kfree` gets of a pointer that is tested for null. -/
def strayOf (address : Nat) : List Nat := if address = 0 then [] else [address]

theorem strayOf_some {address : Nat} (some : address ≠ 0) : strayOf address = [address] := if_neg some

/-- `exit_err` before the table is assigned returns if `kfree` takes what is there instead. -/
theorem exitErr_stale (sbBlock infoBlock : Block) (s : Ledger) :
    exitErr env sbBlock (some infoBlock) none s =
        .ok () ⟨(s.io.freed sbBlock.id).freed infoBlock.id, s.strays ++ strayOf (stalePointer infoBlock)⟩ ∨
      (stalePointer infoBlock ≠ 0 ∧ Lost env (stalePointer infoBlock) ∧
        exitErr env sbBlock (some infoBlock) none s =
          .error .outOfBounds ⟨s.io.freed sbBlock.id, s.strays ++ strayOf (stalePointer infoBlock)⟩) := by
  have isFreed : kfree sbBlock s.io = .ok () (s.io.freed sbBlock.id) := rfl
  rw [exitErr, Steps.bind_ok (driver_ok isFreed)]
  dsimp only
  by_cases null : stalePointer infoBlock = 0
  · rw [if_neg (not_not.mpr null), null, strayOf, if_pos rfl, List.append_nil]
    exact Or.inl rfl
  rw [if_pos null, strayOf_some null]
  by_cases lost : Lost env (stalePointer infoBlock)
  · rw [Steps.bind_error (kfreeStray_lost lost _)]
    exact Or.inr ⟨null, lost, rfl⟩
  · rw [Steps.bind_ok (kfreeStray_taken lost _)]
    exact Or.inl rfl

theorem exit_live {live : List Nat} {a : Nat} : (((a + 1) :: a :: live).erase a).erase (a + 1) = live := by
  simp

/-- The error is returned, or `kfree` stops at the pointer that was in `info`. -/
def EndsEarly (env : Env) (bdev : BlockDev) (s s' : Ledger) : Prop :=
  (∃ err, beforeRoot env bdev s = .ok (.error err) s' ∧ Errno err ∧ s'.io.live = s.io.live) ∨
    (stale env s.io.allocations ≠ 0 ∧ Lost env (stale env s.io.allocations) ∧
      beforeRoot env bdev s = .error .outOfBounds s')

theorem beforeRoot_early (early : FailsEarly env bdev s.io.allocations s.io.requests.length) :
    ∃ s', s'.strays = s.strays ++ strayOf (stale env s.io.allocations) ∧ EndsEarly env bdev s s' := by
  obtain ⟨sbBlock, infoBlock, isSb, isInfo, isStale, mount⟩ := beforeRoot_started bdev early.started
  have ended {err : Int} {io : Io} (errno : Errno err) (live : io.live = s.io.granted.granted.live)
      (exits : beforeRoot env bdev s = (do
        exitErr env sbBlock (some infoBlock) none
        pure (.error err) : Steps Ledger (Except Int (Superblock × Block × Block × Block))) ⟨io, s.strays⟩) :
      ∃ s', s'.strays = s.strays ++ strayOf (stale env s.io.allocations) ∧ EndsEarly env bdev s s' := by
    simp only [EndsEarly]
    rw [exits, ← isStale]
    rcases exitErr_stale sbBlock infoBlock ⟨io, s.strays⟩ with done | ⟨some, lost, stopped⟩
    · rw [Steps.bind_ok done]
      refine ⟨_, rfl, Or.inl ⟨err, rfl, errno, ?_⟩⟩
      change (io.live.erase sbBlock.id).erase infoBlock.id = s.io.live
      rw [live, isSb, isInfo]
      exact exit_live
    · exact ⟨_, rfl, Or.inr ⟨some, lost, Steps.bind_error stopped⟩⟩
  by_cases super : Fails env s.io.granted.granted.allocations s.io.granted.granted.requests.length
  · obtain ⟨err, io₁, read, errno, live⟩ := ext2ReadSuperblock_fails early.sectors super
    refine ended errno live ?_
    rw [mount, readMount, Steps.bind_ok (driver_ok read)]
  · obtain ⟨inside, divisible, table⟩ := early.fails.resolve_left super
    obtain ⟨bytes, io₁, read, isSuper, after⟩ := ext2ReadSuperblock_inside early.sectors super inside
    have table : Fails env io₁.allocations io₁.requests.length := by
      rw [after.allocations, after.requests]
      exact table
    obtain ⟨err, io₂, filled, errno, live⟩ := ext2FillBgdTableInfo_fails divisible early.sectors table
    refine ended errno (live.trans after.live) ?_
    rw [mount, readMount, Steps.bind_ok (driver_ok read)]
    dsimp only
    rw [isSuper, Steps.get_bind, Steps.bind_ok (driver_ok filled)]

/-- A mount that is not refused and comes neither to an error nor to the root has faulted. -/
theorem beforeRoot_stops (started : Started env s.io.allocations)
    (late : ¬ FailsEarly env bdev s.io.allocations s.io.requests.length)
    (unready : ¬ Ready env bdev s.io.allocations s.io.requests.length) :
    ∃ e s', beforeRoot env bdev s = .error e s' ∧ s'.strays = s.strays := by
  obtain ⟨sbBlock, infoBlock, -, -, -, mount⟩ := beforeRoot_started bdev started
  by_cases sectors : bdev.sectorSize = 0
  · have stopped : ext2ReadSuperblock env bdev s.io.granted.granted = .error divideByZero s.io.granted.granted := by
      rw [ext2ReadSuperblock, sectors]
      exact Steps.bind_error (divide_zero _ _)
    rw [mount, readMount, Steps.bind_error (driver_error stopped)]
    exact ⟨_, _, rfl, rfl⟩
  have super : ¬ Fails env s.io.granted.granted.allocations s.io.granted.granted.requests.length :=
    fun fails => late ⟨started, sectors, Or.inl fails⟩
  rcases ext2ReadSuperblock_answers sectors super with ⟨-, e, io₁, stopped⟩ | ⟨inside, bytes, io₁, read, isSuper, -⟩
  · rw [mount, readMount, Steps.bind_error (driver_error stopped)]
    exact ⟨_, _, rfl, rfl⟩
  have zero : ¬ Divisible (superOf bdev) := fun divisible =>
    unready ⟨started, sectors, super, inside, divisible, fun fails =>
      late ⟨started, sectors, Or.inr ⟨inside, divisible, fails⟩⟩⟩
  obtain ⟨e, io₂, stopped⟩ := ext2FillBgdTableInfo_stops zero
  rw [mount, readMount, Steps.bind_ok (driver_ok read)]
  dsimp only
  rw [isSuper, Steps.get_bind, Steps.bind_error (driver_error stopped)]
  exact ⟨_, _, rfl, rfl⟩

theorem beforeRoot_unready (unready : ¬ Ready env bdev s.io.allocations s.io.requests.length) :
    (∃ err s', beforeRoot env bdev s = .ok (.error err) s' ∧ Errno err) ∨
      ∃ e s', beforeRoot env bdev s = .error e s' := by
  by_cases started : Started env s.io.allocations
  swap
  · obtain ⟨s', done, -⟩ := beforeRoot_unstarted bdev started
    exact Or.inl ⟨_, s', done, errno_noMem⟩
  by_cases early : FailsEarly env bdev s.io.allocations s.io.requests.length
  · obtain ⟨s', -, ⟨err, done, errno, -⟩ | ⟨-, -, stopped⟩⟩ := beforeRoot_early early
    · exact Or.inl ⟨err, s', done, errno⟩
    · exact Or.inr ⟨_, s', stopped⟩
  · obtain ⟨e, s', stopped, -⟩ := beforeRoot_stops started early unready
    exact Or.inr ⟨e, s', stopped⟩

section Ready

variable (ready : Ready env bdev s.io.allocations s.io.requests.length)

include ready

/-- The mount comes to the root with three blocks of its own. -/
theorem beforeRoot_ready : ∃ (sbBlock infoBlock table : Block) (io₁ : Io), sbBlock.id = s.io.allocations ∧
      infoBlock.id = s.io.allocations + 1 ∧ table.id = s.io.allocations + 3 ∧
      After s.io io₁ 4 2 [s.io.allocations + 3, s.io.allocations + 1, s.io.allocations] ∧
      beforeRoot env bdev s =
        .ok (.ok (mountSb env bdev s.io.allocations, sbBlock, infoBlock, table)) { s with io := io₁ } := by
  obtain ⟨sbBlock, infoBlock, isSb, isInfo, -, mount⟩ := beforeRoot_started bdev ready.started
  have super : ¬ Fails env s.io.granted.granted.allocations s.io.granted.granted.requests.length := ready.super
  obtain ⟨bytes, io₁, read, isSuper, first⟩ := ext2ReadSuperblock_inside ready.sectors super ready.inside
  have counted : io₁.allocations = s.io.allocations + 3 := first.allocations
  have table : ¬ Fails env io₁.allocations io₁.requests.length := by
    rw [first.allocations, first.requests]
    exact ready.table
  have filled := ext2FillBgdTableInfo_fills ready.divisible ready.sectors table
  refine ⟨sbBlock, infoBlock, tableBlock io₁, io₁.granted.asked (descriptorRequest (superOf bdev) bdev), isSb, isInfo,
    counted, ⟨congrArg (· + 1) counted, ?_, ?_⟩, ?_⟩
  · rw [Io.asked_requests, List.length_append]
    exact congrArg (· + 1) first.requests
  · rw [Io.asked_live, Io.granted_live, counted, first.live]
    rfl
  · rw [mount, readMount, Steps.bind_ok (driver_ok read)]
    dsimp only
    rw [isSuper, Steps.get_bind, Steps.bind_ok (driver_ok filled)]
    dsimp only
    rw [Steps.bind_ok (driver_ok (divide_ok ready.sectors _)), counted]
    rfl

theorem ext2Mount_ready : ∃ (sbBlock infoBlock table : Block) (io₁ : Io), sbBlock.id = s.io.allocations ∧
      infoBlock.id = s.io.allocations + 1 ∧ table.id = s.io.allocations + 3 ∧
      After s.io io₁ 4 2 [s.io.allocations + 3, s.io.allocations + 1, s.io.allocations] ∧
      ext2Mount env bdev s =
        finishMount env (mountSb env bdev s.io.allocations) sbBlock infoBlock table { s with io := io₁ } := by
  obtain ⟨sbBlock, infoBlock, table, io₁, isSb, isInfo, isTable, after, before⟩ := beforeRoot_ready ready
  exact ⟨sbBlock, infoBlock, table, io₁, isSb, isInfo, isTable, after, Steps.bind_ok before⟩

/-- The error pointer for the root goes into the dentry, or to `kfree`, which does not return. -/
theorem ext2Mount_fails {n : Nat}
    (fails : RootFails env (mountSb env bdev s.io.allocations) (s.io.allocations + 4) (s.io.requests.length + 2) n) :
    ∃ err s', (DentryMemory env (s.io.allocations + 4 + n) ∧
        ext2Mount env bdev s = .ok (.ok (mountSb env bdev s.io.allocations, .error err)) s' ∧ s'.strays = s.strays) ∨
      (¬ DentryMemory env (s.io.allocations + 4 + n) ∧
        ext2Mount env bdev s = .error .outOfBounds s' ∧ s'.strays = s.strays ++ [errPtr err]) := by
  obtain ⟨sbBlock, infoBlock, table, io₁, -, -, -, after, mount⟩ := ext2Mount_ready ready
  rw [← after.allocations, ← after.requests] at fails
  obtain ⟨err, io₂, read, errno, counted, -⟩ := ext2ReadInode_fails fails
  rw [mount, ← after.allocations, ← counted]
  refine ⟨err, ?_⟩
  by_cases memory : DentryMemory env io₂.allocations
  · obtain ⟨s', done, -, same⟩ := finishMount_some sbBlock infoBlock table s.strays read memory
    exact ⟨s', Or.inl ⟨memory, done, same⟩⟩
  · obtain ⟨s', stopped, stray⟩ := finishMount_stray sbBlock infoBlock table s.strays read errno memory
    exact ⟨s', Or.inr ⟨memory, stopped, stray⟩⟩

/-- Without a dentry for the inode, two of its blocks stay. -/
theorem ext2Mount_taken
    (taken : RootTaken env (mountSb env bdev s.io.allocations) (s.io.allocations + 4) (s.io.requests.length + 2)) :
    (DentryMemory env (s.io.allocations + 8) ∧
      ∃ inode s', ext2Mount env bdev s = .ok (.ok (mountSb env bdev s.io.allocations, .ok inode)) s' ∧
        s'.strays = s.strays ∧ inode.ino = ext2RootDirIno ∧
        Ext2Inode.copy (rootData env (mountSb env bdev s.io.allocations) (s.io.allocations + 4))
          (slotOf (mountSb env bdev s.io.allocations) ext2RootDirIno).offset = .ok inode.ext2Inode ∧
        inode.size = ext2InodeDataSize inode.ext2Inode ∧
        blockRequest (mountSb env bdev s.io.allocations)
          (slotOf (mountSb env bdev s.io.allocations) ext2RootDirIno).lba ∈ s'.io.requests) ∨
      (¬ DentryMemory env (s.io.allocations + 8) ∧ ∃ s', ext2Mount env bdev s = .ok (.error (-eNoMem)) s' ∧
        s'.io.live = [s.io.allocations + 7, s.io.allocations + 5] ++ s.io.live) := by
  obtain ⟨sbBlock, infoBlock, table, io₁, isSb, isInfo, isTable, after, mount⟩ := ext2Mount_ready ready
  rw [← after.allocations, ← after.requests] at taken
  obtain ⟨inode, io₂, read, isRoot, copied, size, requests, counted, live⟩ := ext2ReadInode_takes taken
  rw [after.allocations] at counted copied live
  have counted : io₂.allocations = s.io.allocations + 8 := counted
  by_cases memory : DentryMemory env io₂.allocations
  · obtain ⟨s', done, same, kept⟩ := finishMount_some sbBlock infoBlock table s.strays read memory
    rw [counted] at memory
    refine Or.inl ⟨memory, inode, s', mount.trans done, kept, isRoot, copied, size, ?_⟩
    rw [same, requests]
    exact List.mem_append_right _ (List.mem_singleton_self _)
  · obtain ⟨s', done, freed⟩ := finishMount_leaks sbBlock infoBlock table s.strays read memory
    rw [counted] at memory
    refine Or.inr ⟨memory, s', mount.trans done, ?_⟩
    rw [freed, live, after.live, after.allocations, isSb, isInfo, isTable]
    simp [Nat.add_assoc]

theorem ext2Mount_unread
    (reads : ∀ n, ¬ RootFails env (mountSb env bdev s.io.allocations) (s.io.allocations + 4)
      (s.io.requests.length + 2) n)
    (untaken : ¬ RootTaken env (mountSb env bdev s.io.allocations) (s.io.allocations + 4) (s.io.requests.length + 2)) :
    ∃ e s', ext2Mount env bdev s = .error e s' ∧ s'.strays = s.strays := by
  obtain ⟨sbBlock, infoBlock, table, io₁, -, -, -, after, mount⟩ := ext2Mount_ready ready
  rw [← after.allocations, ← after.requests] at reads untaken
  obtain ⟨e, io₂, stopped⟩ := ext2ReadInode_stops reads untaken
  obtain ⟨s', stopped, kept⟩ := finishMount_stops sbBlock infoBlock table s.strays stopped
  exact ⟨e, s', mount.trans stopped, kept⟩

end Ready

end Start

/-! The root of a mounted file system -/

section Rooted

variable {env} {bdev : BlockDev} {s : Ledger}

/-- The inode is number 2 and is what the device has in its place. -/
structure RootRead (sb : Superblock) (inode : Inode) (requests : List Request) : Prop where
  ino : inode.ino = ext2RootDirIno
  copied : Ext2Inode.copy (sb.readBlock (slotOf sb ext2RootDirIno).lba) (slotOf sb ext2RootDirIno).offset =
    .ok inode.ext2Inode
  size : inode.size = ext2InodeDataSize inode.ext2Inode
  requested : blockRequest sb (slotOf sb ext2RootDirIno).lba ∈ requests

/-- The mount comes to the root, and `ext2_read_inode` returns an error pointer for it. -/
def RootUnread (env : Env) (bdev : BlockDev) (s : Ledger) : Prop :=
  ∃ sb blocks s' err io', beforeRoot env bdev s = .ok (.ok (sb, blocks)) s' ∧
    ext2ReadInode env sb ext2RootDirIno s'.io = .ok (.error err) io'

/-- A mount returns an error pointer, or a superblock whose root is an inode and not an error pointer. If the inode
cannot be read it does return an error pointer. -/
structure MountsRoot (env : Env) (bdev : BlockDev) (s : Ledger) : Prop where
  error : ∀ err s', ext2Mount env bdev s = .ok (.error err) s' → isErr (errPtr err) = true
  root : ∀ sb root s', ext2Mount env bdev s = .ok (.ok (sb, root)) s' →
    ∃ inode, root = .ok inode ∧ RootRead sb inode s'.io.requests
  reported : RootUnread env bdev s → ∃ err s', ext2Mount env bdev s = .ok (.error err) s'

theorem rootUnread_iff : RootUnread env bdev s ↔ Ready env bdev s.io.allocations s.io.requests.length ∧
    ∃ n, RootFails env (mountSb env bdev s.io.allocations) (s.io.allocations + 4) (s.io.requests.length + 2) n := by
  constructor
  · rintro ⟨sb, blocks, s', err, io', before, read⟩
    by_cases ready : Ready env bdev s.io.allocations s.io.requests.length
    · refine ⟨ready, ?_⟩
      obtain ⟨sbBlock, infoBlock, table, io₁, -, -, -, after, come⟩ := beforeRoot_ready ready
      obtain ⟨same, rfl⟩ := EStateM.Result.ok.inj (come.symm.trans before)
      obtain ⟨rfl, -⟩ := Prod.mk.inj (Except.ok.inj same)
      rw [← after.allocations, ← after.requests]
      by_contra reads
      by_cases taken : RootTaken env (mountSb env bdev s.io.allocations) io₁.allocations io₁.requests.length
      · obtain ⟨inode, io₂, done, -⟩ := ext2ReadInode_takes taken
        cases done.symm.trans read
      · obtain ⟨e, io₂, stopped⟩ := ext2ReadInode_stops (not_exists.mp reads) taken
        cases stopped.symm.trans read
    · obtain ⟨err', t, done, -⟩ | ⟨e, t, stopped⟩ := beforeRoot_unready ready
      · cases done.symm.trans before
      · cases stopped.symm.trans before
  · rintro ⟨ready, n, fails⟩
    obtain ⟨sbBlock, infoBlock, table, io₁, -, -, -, after, come⟩ := beforeRoot_ready ready
    rw [← after.allocations, ← after.requests] at fails
    obtain ⟨err, io₂, read, -⟩ := ext2ReadInode_fails fails
    exact ⟨_, _, _, err, io₂, come, read⟩

theorem mountsRoot_error {err : Int} {s' : Ledger} (done : ext2Mount env bdev s = .ok (.error err) s')
    (errno : Errno err) : MountsRoot env bdev s := by
  refine ⟨fun err' t run => ?_, fun sb root t run => ?_, fun _ => ⟨err, s', done⟩⟩
  · obtain ⟨same, -⟩ := EStateM.Result.ok.inj (done.symm.trans run)
    obtain rfl := Except.error.inj same
    exact isErr_errno errno
  · cases done.symm.trans run

theorem mountsRoot_stops {e : Fault} {s' : Ledger} (stopped : ext2Mount env bdev s = .error e s')
    (read : ¬ RootUnread env bdev s) : MountsRoot env bdev s := by
  refine ⟨fun err t run => ?_, fun sb root t run => ?_, fun unread => absurd unread read⟩
  · cases stopped.symm.trans run
  · cases stopped.symm.trans run

theorem not_mountsRoot {n : Nat} (ready : Ready env bdev s.io.allocations s.io.requests.length)
    (fails : RootFails env (mountSb env bdev s.io.allocations) (s.io.allocations + 4) (s.io.requests.length + 2) n) :
    ¬ MountsRoot env bdev s := by
  intro mounts
  obtain ⟨err, s', done⟩ := mounts.reported (rootUnread_iff.mpr ⟨ready, n, fails⟩)
  obtain ⟨err', t, ⟨-, mounted, -⟩ | ⟨-, stopped, -⟩⟩ := ext2Mount_fails ready fails
  · cases mounted.symm.trans done
  · cases stopped.symm.trans done

/-- The inode of the root comes from the device if the request has filled the buffer so far. -/
theorem rootRead_iff {sb : Superblock} {inode : Inode} {a q : Nat} {requests : List Request}
    (taken : RootTaken env sb a q)
    (isRoot : inode.ino = ext2RootDirIno)
    (copied : Ext2Inode.copy (rootData env sb a) (slotOf sb ext2RootDirIno).offset = .ok inode.ext2Inode)
    (size : inode.size = ext2InodeDataSize inode.ext2Inode)
    (requested : blockRequest sb (slotOf sb ext2RootDirIno).lba ∈ requests) :
    RootRead sb inode requests ↔
      (slotOf sb ext2RootDirIno).offset + sizeofExt2Inode ≤ sb.sectorsPerBlock * sb.bdev.sectorSize := by
  refine ⟨fun read => ?_, fun inside => ⟨isRoot, ?_, size, requested⟩⟩
  · by_contra outside
    have short : ¬ (slotOf sb ext2RootDirIno).offset + sizeofExt2Inode ≤
      (sb.readBlock (slotOf sb ext2RootDirIno).lba).size :=
      fun within => outside (Nat.le_trans within (Nat.min_le_left _ _))
    have copied := read.copied
    rw [Ext2Inode.copy, if_neg short] at copied
    cases copied
  · have fits : (slotOf sb ext2RootDirIno).offset + sizeofExt2Inode ≤ (⟨env.fresh a, sb.blockSize⟩ : Buffer).size :=
      taken.inside
    rw [rootData, copy_filled inside fits] at copied
    exact copied

theorem mountsRoot_taken (ready : Ready env bdev s.io.allocations s.io.requests.length)
    (taken : RootTaken env (mountSb env bdev s.io.allocations) (s.io.allocations + 4) (s.io.requests.length + 2))
    (read : ¬ RootUnread env bdev s) :
    MountsRoot env bdev s ↔ (DentryMemory env (s.io.allocations + 8) →
      (slotOf (mountSb env bdev s.io.allocations) ext2RootDirIno).offset + sizeofExt2Inode ≤
        (mountSb env bdev s.io.allocations).sectorsPerBlock * bdev.sectorSize) := by
  obtain ⟨memory, inode, s', done, -, isRoot, copied, size, requested⟩ | ⟨short, s', done, -⟩ :=
    ext2Mount_taken ready taken
  · have inside_iff := rootRead_iff taken isRoot copied size requested
    constructor
    · intro mounts _
      obtain ⟨inode', isInode, rootRead⟩ := mounts.root _ _ _ done
      obtain rfl := Except.ok.inj isInode
      exact inside_iff.mp rootRead
    · intro inside
      refine ⟨fun err t run => ?_, fun sb root t run => ?_, fun unread => absurd unread read⟩
      · cases done.symm.trans run
      · obtain ⟨same, rfl⟩ := EStateM.Result.ok.inj (done.symm.trans run)
        obtain ⟨rfl, rfl⟩ := Prod.mk.inj (Except.ok.inj same)
        exact ⟨inode, rfl, inside_iff.mpr (inside memory)⟩
  · exact iff_of_true (mountsRoot_error done errno_noMem) fun enough => absurd enough short

/-- For every disk and every failure of the device and of the allocations: a mount has the inode 2 of the device for
its root or returns an error, if and only if, whenever it comes to the root, the inode can be read, and the bytes of
an inode that is mounted lie in the sectors of their block. -/
theorem mountsRoot_iff (env : Env) (bdev : BlockDev) (s : Ledger) : MountsRoot env bdev s ↔
    (Ready env bdev s.io.allocations s.io.requests.length →
      (∀ n, ¬ RootFails env (mountSb env bdev s.io.allocations) (s.io.allocations + 4) (s.io.requests.length + 2) n) ∧
      (RootTaken env (mountSb env bdev s.io.allocations) (s.io.allocations + 4) (s.io.requests.length + 2) →
        DentryMemory env (s.io.allocations + 8) →
        (slotOf (mountSb env bdev s.io.allocations) ext2RootDirIno).offset + sizeofExt2Inode ≤
          (mountSb env bdev s.io.allocations).sectorsPerBlock * bdev.sectorSize)) := by
  by_cases ready : Ready env bdev s.io.allocations s.io.requests.length
  swap
  · refine iff_of_true ?_ fun come => absurd come ready
    obtain ⟨err, s', done, errno⟩ | ⟨e, s', stopped⟩ := beforeRoot_unready ready
    · exact mountsRoot_error (ext2Mount_of_error done) errno
    · exact mountsRoot_stops (ext2Mount_of_stop stopped) fun unread => ready (rootUnread_iff.mp unread).1
  by_cases fails : ∃ n,
      RootFails env (mountSb env bdev s.io.allocations) (s.io.allocations + 4) (s.io.requests.length + 2) n
  · obtain ⟨n, fails⟩ := fails
    exact iff_of_false (not_mountsRoot ready fails) fun rooted => (rooted ready).1 n fails
  have read : ¬ RootUnread env bdev s := fun unread => fails (rootUnread_iff.mp unread).2
  by_cases taken : RootTaken env (mountSb env bdev s.io.allocations) (s.io.allocations + 4) (s.io.requests.length + 2)
  · rw [mountsRoot_taken ready taken read]
    exact ⟨fun inside _ => ⟨not_exists.mp fails, fun _ => inside⟩, fun rooted => (rooted ready).2 taken⟩
  · obtain ⟨e, s', stopped, -⟩ := ext2Mount_unread ready (not_exists.mp fails) taken
    refine iff_of_true (mountsRoot_stops stopped read) fun _ => ⟨not_exists.mp fails, fun isTaken => ?_⟩
    exact absurd isTaken taken

/-- The device fails at request `k` only, there is memory, new memory is full of this pointer, and `kfree` takes it. -/
def failingEnv (k pointer : Nat) : Env :=
  ⟨fun i => if i = k then -eInval else 0, fun i => by split <;> decide, fun _ _ => 0, fun _ => true,
    fun _ i => UInt8.ofNat (pointer >>> (8 * (i % 8))), fun p => p == pointer⟩

def oneGroup : BlockDev := diskWith (acceptedBytes 16 16 128)

/-- The block of the root cannot be read, and the file system is mounted with an error pointer for its root. -/
theorem unread_root_is_mounted : ∃ sb err s',
    ext2Mount (failingEnv 2 0) oneGroup ⟨⟨[], 0, []⟩, []⟩ = .ok (.ok (sb, .error err)) s' := by
  have ready : Ready (failingEnv 2 0) oneGroup 0 0 := by
    refine ⟨⟨rfl, rfl⟩, by decide, ?_, ?_, ⟨?_, ?_⟩, ?_⟩
    · rintro (none | failed)
      · cases none
      · exact absurd failed (by decide)
    · rw [SuperInside]
      decide +kernel
    · decide +kernel
    · decide +kernel
    · rintro (none | failed)
      · cases none
      · exact absurd failed (by decide)
  have fails : RootFails (failingEnv 2 0) (mountSb (failingEnv 2 0) oneGroup 0) 4 2 4 := by
    refine .device ⟨?_, ?_, ?_, ?_, ?_⟩ (fun _ _ => rfl) (by decide)
    all_goals decide +kernel
  obtain ⟨err, s', ⟨-, done, -⟩ | ⟨short, -⟩⟩ := ext2Mount_fails (s := ⟨⟨[], 0, []⟩, []⟩) ready fails
  · exact ⟨_, err, s', done⟩
  · exact absurd ⟨rfl, rfl⟩ short

end Rooted

/-! What a mount that fails leaves behind -/

section Cleanup

variable {env} {bdev : BlockDev} {requests : List Request} {allocations : Nat}

/-- `kfree` gets blocks of the mount only, also where it does not return, and a mount that fails has freed all of them.
The live blocks before it are any list, also one in which the numbers of its own blocks occur: in such a list a second
`kfree` of a block would be seen. -/
def CleansUp (env : Env) (bdev : BlockDev) (requests : List Request) (allocations : Nat) : Prop :=
  ∀ live strays, ((ext2Mount env bdev).final ⟨⟨requests, allocations, live⟩, strays⟩).strays = strays ∧
    ∀ err s', ext2Mount env bdev ⟨⟨requests, allocations, live⟩, strays⟩ = .ok (.error err) s' → s'.io.live = live

theorem append_ne_self {strays : List Nat} {address : Nat} : strays ++ [address] ≠ strays := by
  intro same
  have length := congrArg List.length same
  rw [List.length_append, List.length_singleton] at length
  omega

theorem cleansUp_ok {live strays : List Nat} {r : Except Int (Superblock × Except Int Inode)} {s' : Ledger}
    (done : ext2Mount env bdev ⟨⟨requests, allocations, live⟩, strays⟩ = .ok r s') (kept : s'.strays = strays)
    (freed : ∀ err, r = .error err → s'.io.live = live) :
    ((ext2Mount env bdev).final ⟨⟨requests, allocations, live⟩, strays⟩).strays = strays ∧
      ∀ err t, ext2Mount env bdev ⟨⟨requests, allocations, live⟩, strays⟩ = .ok (.error err) t → t.io.live = live := by
  refine ⟨(Steps.final_ok done).symm ▸ kept, fun err t run => ?_⟩
  obtain ⟨isError, rfl⟩ := EStateM.Result.ok.inj (done.symm.trans run)
  exact freed err isError

theorem cleansUp_stops {live strays : List Nat} {e : Fault} {s' : Ledger}
    (stopped : ext2Mount env bdev ⟨⟨requests, allocations, live⟩, strays⟩ = .error e s') (kept : s'.strays = strays) :
    ((ext2Mount env bdev).final ⟨⟨requests, allocations, live⟩, strays⟩).strays = strays ∧
      ∀ err t, ext2Mount env bdev ⟨⟨requests, allocations, live⟩, strays⟩ = .ok (.error err) t → t.io.live = live := by
  refine ⟨(Steps.final_error stopped).symm ▸ kept, fun err t run => ?_⟩
  cases stopped.symm.trans run

/-- `info->bgd_table` is freed before it is assigned, unless the memory of `info` happens to have a null pointer
there. -/
theorem cleansUp_early (early : FailsEarly env bdev allocations requests.length) :
    CleansUp env bdev requests allocations ↔ stale env allocations = 0 := by
  constructor
  · intro cleans
    by_contra some
    obtain ⟨s', strays, ended⟩ := beforeRoot_early (s := ⟨⟨requests, allocations, []⟩, []⟩) early
    have final : (ext2Mount env bdev).final ⟨⟨requests, allocations, []⟩, []⟩ = s' := by
      rcases ended with ⟨err, done, -⟩ | ⟨-, -, stopped⟩
      · exact Steps.final_ok (ext2Mount_of_error done)
      · exact Steps.final_error (ext2Mount_of_stop stopped)
    have kept := (cleans [] []).1
    rw [final, strays, strayOf_some some] at kept
    exact append_ne_self kept
  · intro null live strays
    obtain ⟨s', passed, ⟨err, done, -, freed⟩ | ⟨some, -⟩⟩ :=
      beforeRoot_early (s := ⟨⟨requests, allocations, live⟩, strays⟩) early
    · rw [show stale env _ = 0 from null, strayOf, if_pos rfl, List.append_nil] at passed
      exact cleansUp_ok (ext2Mount_of_error done) passed fun _ _ => freed
    · exact absurd null some

theorem cleansUp_fails {n : Nat} (ready : Ready env bdev allocations requests.length)
    (fails : RootFails env (mountSb env bdev allocations) (allocations + 4) (requests.length + 2) n) :
    CleansUp env bdev requests allocations ↔ DentryMemory env (allocations + 4 + n) := by
  refine ⟨fun cleans => ?_, fun memory live strays => ?_⟩
  · obtain ⟨err, s', ⟨memory, -⟩ | ⟨-, stopped, passed⟩⟩ :=
      ext2Mount_fails (s := ⟨⟨requests, allocations, []⟩, []⟩) ready fails
    · exact memory
    · have kept := (cleans [] []).1
      rw [Steps.final_error stopped] at kept
      exact absurd (passed.symm.trans kept) append_ne_self
  · obtain ⟨err', t, ⟨-, done, kept⟩ | ⟨short, -⟩⟩ :=
      ext2Mount_fails (s := ⟨⟨requests, allocations, live⟩, strays⟩) ready fails
    · exact cleansUp_ok done kept fun err isError => by cases isError
    · exact absurd memory short

/-- The two blocks to which the inode refers are not freed with it. -/
theorem cleansUp_taken (ready : Ready env bdev allocations requests.length)
    (taken : RootTaken env (mountSb env bdev allocations) (allocations + 4) (requests.length + 2)) :
    CleansUp env bdev requests allocations ↔ DentryMemory env (allocations + 8) := by
  refine ⟨fun cleans => ?_, fun memory live strays => ?_⟩
  · obtain ⟨memory, -⟩ | ⟨-, s', done, leaked⟩ := ext2Mount_taken (s := ⟨⟨requests, allocations, []⟩, []⟩) ready taken
    · exact memory
    · cases leaked.symm.trans ((cleans [] []).2 _ s' done)
  · obtain ⟨-, inode, t, done, kept, -⟩ | ⟨short, -⟩ :=
      ext2Mount_taken (s := ⟨⟨requests, allocations, live⟩, strays⟩) ready taken
    · exact cleansUp_ok done kept fun err isError => by cases isError
    · exact absurd memory short

/-- For every failure of the device and of the allocations and all contents of new memory: a mount that fails
has freed what it allocated, each block once, and nothing else, if and only if it does not fail while
`info->bgd_table` is a pointer that was there before, and has memory for a dentry whenever it comes to the root. -/
theorem cleansUp_iff (env : Env) (bdev : BlockDev) (requests : List Request) (allocations : Nat) :
    CleansUp env bdev requests allocations ↔
      (FailsEarly env bdev allocations requests.length → stale env allocations = 0) ∧
      (Ready env bdev allocations requests.length →
        (∀ n, RootFails env (mountSb env bdev allocations) (allocations + 4) (requests.length + 2) n →
          DentryMemory env (allocations + 4 + n)) ∧
        (RootTaken env (mountSb env bdev allocations) (allocations + 4) (requests.length + 2) →
          DentryMemory env (allocations + 8))) := by
  refine ⟨fun cleans => ⟨fun early => (cleansUp_early early).mp cleans, fun ready =>
    ⟨fun n fails => (cleansUp_fails ready fails).mp cleans, fun taken => (cleansUp_taken ready taken).mp cleans⟩⟩, ?_⟩
  rintro ⟨stale, rooted⟩
  by_cases early : FailsEarly env bdev allocations requests.length
  · exact (cleansUp_early early).mpr (stale early)
  by_cases ready : Ready env bdev allocations requests.length
  · obtain ⟨fails, taken⟩ := rooted ready
    by_cases isTaken : RootTaken env (mountSb env bdev allocations) (allocations + 4) (requests.length + 2)
    · exact (cleansUp_taken ready isTaken).mpr (taken isTaken)
    by_cases failing : ∃ n, RootFails env (mountSb env bdev allocations) (allocations + 4) (requests.length + 2) n
    · obtain ⟨n, failing⟩ := failing
      exact (cleansUp_fails ready failing).mpr (fails n failing)
    · intro live strays
      obtain ⟨e, t, stopped, kept⟩ :=
        ext2Mount_unread (s := ⟨⟨requests, allocations, live⟩, strays⟩) ready (not_exists.mp failing) isTaken
      exact cleansUp_stops stopped kept
  intro live strays
  by_cases started : Started env allocations
  · obtain ⟨e, t, stopped, kept⟩ := beforeRoot_stops (s := ⟨⟨requests, allocations, live⟩, strays⟩) started early ready
    exact cleansUp_stops (ext2Mount_of_stop stopped) kept
  · obtain ⟨t, done, freed, kept⟩ := beforeRoot_unstarted (s := ⟨⟨requests, allocations, live⟩, strays⟩) bdev started
    exact cleansUp_ok (ext2Mount_of_error done) kept fun _ _ => freed

/-- The superblock cannot be read, and `kfree` gets and takes the pointer that was in the memory of `info`, which is one
to a slot of another block. -/
theorem unread_superblock_frees_stale : ∃ err s',
    ext2Mount (failingEnv 0 0xffff888000101020) oneGroup ⟨⟨[], 0, []⟩, []⟩ = .ok (.error err) s' ∧
      s'.strays = [0xffff888000101020] := by
  have early : FailsEarly (failingEnv 0 0xffff888000101020) oneGroup 0 0 :=
    ⟨⟨rfl, rfl⟩, by decide, Or.inl (Or.inr (by decide))⟩
  have pointer : stale (failingEnv 0 0xffff888000101020) 0 = 0xffff888000101020 := by decide +kernel
  obtain ⟨s', strays, ⟨err, done, -⟩ | ⟨-, lost, -⟩⟩ := beforeRoot_early (s := ⟨⟨[], 0, []⟩, []⟩) early
  · exact ⟨err, s', ext2Mount_of_error done, by rw [strays, show stale _ _ = _ from pointer]; rfl⟩
  · rw [show stale _ _ = _ from pointer] at lost
    rcases lost with error | other
    · cases error
    · cases other

end Cleanup

end Mount
end SnapOS.Ext2Io
