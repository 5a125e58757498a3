/- The ext2 driver once more, on a device that may fail and with memory that may run out: its requests, its buffers and
its divisions. -/
import SnapOS.Ext2
import SnapOS.Lib.Steps

namespace SnapOS.Ext2Io
open SnapOS.Lib SnapOS.Fs

/-- A call of `bdev->read` for an iovec of `length` bytes. -/
structure Request where
  lba : Nat
  count : Nat
  length : Nat
  deriving DecidableEq, Repr

/-- What the driver has no say in. Request `k` returns `status k`, an errno if it fails, and then has left the bytes
`leftover k` in the buffer. Allocation `k` succeeds if `available k` holds, and the memory has the bytes `fresh k`. Of
the pointers of others, `kfree` takes those with `takes p`: it finds the magic number in the page, or a big block. -/
structure Env where
  status : Nat → Int
  errno : ∀ k, -4095 ≤ status k
  leftover : Nat → Memory
  available : Nat → Bool
  fresh : Nat → Memory
  takes : Nat → Bool

/-- The device answers and there is memory. -/
structure Env.Reliable (env : Env) : Prop where
  answers : ∀ k, 0 ≤ env.status k
  memory : ∀ k, env.available k = true

/-- The requests so far, and the allocations that have not been freed. -/
structure Io where
  requests : List Request
  allocations : Nat
  live : List Nat
  deriving DecidableEq, Repr

namespace Io

def asked (io : Io) (r : Request) : Io := { io with requests := io.requests ++ [r] }

def granted (io : Io) : Io := { io with allocations := io.allocations + 1, live := io.allocations :: io.live }

def refused (io : Io) : Io := { io with allocations := io.allocations + 1 }

def freed (io : Io) (id : Nat) : Io := { io with live := io.live.erase id }

variable (io : Io) (r : Request) (id : Nat)

@[simp] theorem asked_requests : (io.asked r).requests = io.requests ++ [r] := rfl
@[simp] theorem asked_allocations : (io.asked r).allocations = io.allocations := rfl
@[simp] theorem asked_live : (io.asked r).live = io.live := rfl
@[simp] theorem granted_requests : io.granted.requests = io.requests := rfl
@[simp] theorem granted_allocations : io.granted.allocations = io.allocations + 1 := rfl
@[simp] theorem granted_live : io.granted.live = io.allocations :: io.live := rfl
@[simp] theorem refused_requests : io.refused.requests = io.requests := rfl
@[simp] theorem refused_live : io.refused.live = io.live := rfl
@[simp] theorem freed_requests : (io.freed id).requests = io.requests := rfl
@[simp] theorem freed_live : (io.freed id).live = io.live.erase id := rfl

end Io

structure Block where
  id : Nat
  data : Buffer

variable (env : Env)

def kmalloc (size : Nat) : Steps Io (Option Block) := do
  let io ← get
  if env.available io.allocations then do
    set io.granted
    pure (some ⟨io.allocations, ⟨env.fresh io.allocations, size⟩⟩)
  else do
    set io.refused
    pure none

def kfree (block : Block) : Steps Io Unit := do
  let io ← get
  set (io.freed block.id)

/-- Sectors that fill a part of the iovec leave the rest of it as it was. What a buffer has behind its end is never
read. -/
def bdevRead (bdev : BlockDev) (lba count : Nat) (buf : Buffer) : Steps Io (Int × Buffer) := do
  let io ← get
  set (io.asked ⟨lba, count, buf.size⟩)
  let status := env.status io.requests.length
  if status < 0 then pure (status, { buf with bytes := env.leftover io.requests.length })
  else
    let data := bdev.read lba count buf.size
    pure (status, { buf with bytes := fun i => if data.size ≤ i ∧ i < buf.size then buf.bytes i else data.bytes i })

def divideByZero : Fault := .panic "Exception: divide by zero.\n"

def divide (a b : Nat) : Steps Io Nat := if b = 0 then throw divideByZero else pure (a / b)

def remainder (a b : Nat) : Steps Io Nat := if b = 0 then throw divideByZero else pure (a % b)

def copyFrom (buf : Buffer) (offset n : Nat) : Steps Io Memory :=
  if offset + n ≤ buf.size then pure fun i => buf.bytes (offset + i) else throw .outOfBounds

/-- An access that is a fault outside the buffer. -/
def access {α : Type} (x : Exec α) : Steps Io α :=
  match x with
  | .ok a => pure a
  | .error e => throw e

/-! ext2.c -/

def ext2AllocBlock (blockSize : Nat) : Steps Io (Option Block) :=
  if blockSize = pageSize then kmalloc env pageSize else kmalloc env blockSize

-- `kfree` or `free_page`, which undo the two allocations above.
def ext2FreeBlock (block : Block) : Steps Io Unit := kfree block

def tableLba (sb : Superblock) (e : Ext2Inode) : Nat := e.singly * sb.sectorsPerBlock % word32

def ext2InitSingly (sb : Superblock) (inode : Inode) : Steps Io (Int × Inode) :=
  if inode.singly.isSome then pure (0, inode)
  else do
    match ← ext2AllocBlock env sb.blockSize with
    | none => pure (-eNoMem, inode)
    | some buf => do
        let (status, data) ← bdevRead env sb.bdev (tableLba sb inode.ext2Inode) sb.sectorsPerBlock buf.data
        if status < 0 then do
          ext2FreeBlock buf
          pure (status, inode)
        else pure (0, { inode with singly := some data })

/-- `i_info->singly[index]`, which follows a null pointer while the table is not there. -/
def singlyEntry (inode : Inode) (index : Nat) : Steps Io Nat :=
  match inode.singly with
  | none => throw .outOfBounds
  | some table => access (table.load (4 * index) 4)

/-! super.c -/

def sizeofExt2Superblock : Nat := 1024

def ext2ReadSuperblock (bdev : BlockDev) : Steps Io (Except Int Memory) := do
  let startSector ← divide ext2SuperblockOffset bdev.sectorSize
  let endByte := ext2SuperblockOffset + sizeofExt2Superblock
  let endSector ← divide ((endByte + bdev.sectorSize + (word32 - 1)) % word32) bdev.sectorSize
  let sectorCount := (endSector + (word32 - startSector)) % word32
  let totalBytes := sectorCount * bdev.sectorSize % word32
  match ← kmalloc env totalBytes with
  | none => pure (.error (-eNoMem))
  | some buf => do
      let (status, data) ← bdevRead env bdev startSector sectorCount buf.data
      if status < 0 then do
        kfree buf
        pure (.error status)
      else do
        let offset := (ext2SuperblockOffset + (word32 - startSector * bdev.sectorSize % word32)) % word32
        let bytes ← copyFrom data offset sizeofExt2Superblock
        kfree buf
        pure (.ok bytes)

def ext2Signature : Nat := 0xEF53
def ext2FeatureRequiredSupported : Nat := 0x0002

def blockSizeOf (bytes : Memory) : Nat := shl32 1024 (Ext2Superblock.ofBytes bytes).logBlockSize

/-- The checks of `ext2_probe`. -/
def ext2Accepts (bytes : Memory) : Bool :=
  bytes.load 56 2 == ext2Signature && bytes.load 76 4 == 1 &&
    bytes.load 96 4 &&& (word32 - 1 - ext2FeatureRequiredSupported) == 0 && blockSizeOf bytes ≤ pageSize

def probeLabel (bytes : Memory) : List UInt8 :=
  let name := ((List.range 32).map fun i => bytes (120 + i)).takeWhile (· ≠ 0)
  (name ++ List.replicate (32 - name.length) 0).set 31 0

def ext2Probe (bdev : BlockDev) : Steps Io (Int × List UInt8) := do
  match ← kmalloc env sizeofExt2Superblock with
  | none => pure (-eNoMem, [])
  | some super => do
      match ← ext2ReadSuperblock env bdev with
      | .error status => do
          kfree super
          pure (status, [])
      | .ok bytes => do
          kfree super
          if ext2Accepts bytes then pure (0, probeLabel bytes) else pure (-eInval, [])

def ext2FillBgdTableInfo (bdev : BlockDev) (superblock : Ext2Superblock) : Steps Io (Except Int Ext2FsInfo) := do
  let inodesPerGroup := superblock.inodesPerBlockgroup
  let blockGroupCount ← divide ((superblock.inodeCount + inodesPerGroup + (word32 - 1)) % word32) inodesPerGroup
  let blockSize := shl32 1024 superblock.logBlockSize
  let bgdTableStartBlock := (superblock.firstDataBlock + 1) % word32
  let bgdTableBytes := sizeofBlockgroupDesc * blockGroupCount % word32
  let blockCount ← divide ((bgdTableBytes + blockSize + (word32 - 1)) % word32) blockSize
  match ← kmalloc env (blockCount * blockSize % word32) with
  | none => pure (.error (-eNoMem))
  | some bgdTable => do
      let sectorsPerBlock ← divide blockSize bdev.sectorSize
      let lba := bgdTableStartBlock * sectorsPerBlock % word32
      let lbaCount := blockCount * sectorsPerBlock % word32
      let (status, data) ← bdevRead env bdev lba lbaCount bgdTable.data
      if status < 0 then do
        kfree bgdTable
        pure (.error status)
      else pure (.ok ⟨superblock, inodesPerGroup, superblock.blocksPerBlockgroup, blockGroupCount, data⟩)

/-! inode.c -/

def sizeofInode : Nat := 56
def sizeofExt2InodeInfo : Nat := 48

/-- The label `out_err`, for the allocations that succeeded. -/
def freeAll (blocks : List (Option Block)) : Steps Io Unit :=
  match blocks with
  | [] => pure ()
  | none :: rest => freeAll rest
  | some block :: rest => do
      kfree block
      freeAll rest

def ext2InodeSlot (sb : Superblock) (ino : Nat) : Steps Io (Except Int InodeSlot) := do
  let info := sb.info
  let blockGroup ← divide ((ino + (word32 - 1)) % word32) info.inodesPerGroup
  if blockGroup ≥ info.blockGroupCount then pure (.error (-eInval))
  else do
    let inodeSize := info.superblock.inodeStructSize
    let index ← remainder ((ino + (word32 - 1)) % word32) info.inodesPerGroup
    let inodesPerBlock ← divide sb.blockSize inodeSize
    let blockOffset ← divide index inodesPerBlock
    let indexInBlock ← remainder index inodesPerBlock
    let inodeTableBase ← access (info.bgdTable.load (sizeofBlockgroupDesc * blockGroup + 8) 4)
    let targetBlock := (inodeTableBase + blockOffset) % word32
    pure (.ok ⟨targetBlock * sb.sectorsPerBlock % word32, inodeSize * indexInBlock % word32⟩)

def ext2ReadInode (sb : Superblock) (ino : Nat) : Steps Io (Except Int Inode) := do
  match ← ext2InodeSlot sb ino with
  | .error err => pure (.error err)
  | .ok slot => do
      let blockBuf ← ext2AllocBlock env sb.blockSize
      let ext2Inode ← kmalloc env sizeofExt2Inode
      let inode ← kmalloc env sizeofInode
      let info ← kmalloc env sizeofExt2InodeInfo
      match blockBuf, ext2Inode.isSome && inode.isSome && info.isSome with
      | some block, true => do
          let (status, data) ← bdevRead env sb.bdev slot.lba sb.sectorsPerBlock block.data
          if status < 0 then do
            freeAll [blockBuf, ext2Inode, inode, info]
            pure (.error status)
          else do
            let ext2Inode ← access (Ext2Inode.copy data slot.offset)
            let size := ext2InodeDataSize ext2Inode
            if isDir ext2Inode.mode then do
              ext2FreeBlock block
              pure (.ok ⟨ino, size, sIfdir, .ext2Dir, ext2Inode, none⟩)
            else if isReg ext2Inode.mode then do
              ext2FreeBlock block
              pure (.ok ⟨ino, size, sIfreg, .ext2File, ext2Inode, none⟩)
            else Steps.panic "ext2_lookup: unsupported type.\n"
      | _, _ => do
          freeAll [blockBuf, ext2Inode, inode, info]
          pure (.error (-eNoMem))

/-! ext2_mount -/

def sizeofSuperblock : Nat := 32
def sizeofExt2FsInfo : Nat := 1048

/-- The label `exit_err`. The structure `info` is not cleared, and its descriptor table is freed if the pointer that
happens to be there is not null. -/
def exitErr (sb info : Option Block) : Steps Io Unit := do
  freeAll [sb]
  match info with
  | none => pure ()
  | some info => if info.data.bytes.load 1040 8 ≠ 0 then throw .outOfBounds else kfree info

/-- `ext2_mount` up to the root's dentry. An inode that could not be read is an error pointer, and `ext2_get_root` tests
it for null only. -/
def ext2Mount (bdev : BlockDev) : Steps Io (Except Int (Superblock × Except Int Inode)) := do
  match ← kmalloc env sizeofSuperblock with
  | none => pure (.error (-eNoMem))
  | some sbBlock => do
      match ← kmalloc env sizeofExt2FsInfo with
      | none => do
          exitErr (some sbBlock) none
          pure (.error (-eNoMem))
      | some infoBlock => do
          match ← ext2ReadSuperblock env bdev with
          | .error status => do
              exitErr (some sbBlock) (some infoBlock)
              pure (.error status)
          | .ok bytes => do
              let superblock := Ext2Superblock.ofBytes bytes
              match ← ext2FillBgdTableInfo env bdev superblock with
              | .error status => do
                  exitErr (some sbBlock) (some infoBlock)
                  pure (.error status)
              | .ok info => do
                  let blockSize := shl32 1024 superblock.logBlockSize
                  let sectorsPerBlock ← divide blockSize bdev.sectorSize
                  let sb : Superblock := ⟨bdev, blockSize, sectorsPerBlock, info⟩
                  let root ← ext2ReadInode env sb ext2RootDirIno
                  pure (.ok (sb, root))

/-! dir.c -/

def dirBlockAddr (sb : Superblock) (dir : Inode) (i : Nat) : Steps Io (Inode × Except Int Nat) :=
  if i < 12 then pure (dir, .ok (dir.ext2Inode.directPtrs.getD i 0))
  else do
    let (res, dir) ← ext2InitSingly env sb dir
    if res < 0 then pure (dir, .error res)
    else do
      let addr ← singlyEntry dir (i - 12)
      pure (dir, .ok addr)

/-- The loop of `ext2_lookup` over `left` more blocks: the entry that was found, in the buffer. -/
def ext2LookupFrom (sb : Superblock) (name : List UInt8) :
    Nat → Nat → Inode → Buffer → Steps Io (Inode × Except Int (Option (Buffer × Nat)))
  | 0, _, dir, _ => pure (dir, .ok none)
  | left + 1, i, dir, buf => do
      let (dir, addr) ← dirBlockAddr env sb dir i
      match addr with
      | .error err => pure (dir, .error err)
      | .ok addr =>
          if addr = 0 then pure (dir, .ok none)
          else do
            let (res, buf) ← bdevRead env sb.bdev (addr * sb.sectorsPerBlock % word32) sb.sectorsPerBlock buf
            if res < 0 then pure (dir, .error res)
            else do
              match ← access (searchDirBlock buf sb.blockSize name (name.length % 256)) with
              | .error err => pure (dir, .error err)
              | .ok (some entry) => pure (dir, .ok (some (buf, entry)))
              | .ok none => ext2LookupFrom sb name left (i + 1) dir buf

def ext2Lookup (sb : Superblock) (dir : Inode) (name : List UInt8) : Steps Io (Inode × Except Int Inode) := do
  match ← ext2AllocBlock env sb.blockSize with
  | none => pure (dir, .error (-eNoMem))
  | some block => do
      let (dir, entry) ← ext2LookupFrom env sb name (12 + sb.blockSize / 4) 0 dir block.data
      match entry with
      | .error err => do
          ext2FreeBlock block
          pure (dir, .error err)
      | .ok none => do
          ext2FreeBlock block
          pure (dir, .error (-eNoEnt))
      | .ok (some (buf, entry)) => do
          let ino ← access (buf.load entry 4)
          let inode ← ext2ReadInode env sb ino
          ext2FreeBlock block
          pure (dir, inode)

/-! file.c -/

def u32Min (a b : Nat) : Nat := min (a % word32) (b % word32)

/-- The locals of the loop of `ext2_read_file`: `buf` is filled up to `pos`. -/
structure Transfer where
  inode : Inode
  block : Buffer
  buf : Memory
  pos : Nat
  remaining : Nat

/-- The address of a block of the file. The result of `ext2_init_singly` is not looked at. -/
def fileBlockLba (sb : Superblock) (inode : Inode) (block : Nat) : Steps Io (Inode × Nat) :=
  if block < 12 then pure (inode, inode.ext2Inode.directPtrs.getD block 0 * sb.sectorsPerBlock % word32)
  else if block < 12 + sb.blockSize / 4 then do
    let (_, inode) ← ext2InitSingly env sb inode
    let entry ← singlyEntry inode (block - 12)
    pure (inode, entry * sb.sectorsPerBlock % word32)
  else pure (inode, 0)

/-- A block that is read, at the second attempt if need be. A hole is not read. -/
def fetchBlock (sb : Superblock) (lba : Nat) (buf : Buffer) : Steps Io (Int × Buffer) :=
  if lba = 0 then pure (0, buf)
  else do
    let (status, buf) ← bdevRead env sb.bdev lba sb.sectorsPerBlock buf
    if status < 0 then bdevRead env sb.bdev lba sb.sectorsPerBlock buf else pure (status, buf)

/-- Only the first block has an offset. -/
def firstOffset (sb : Superblock) (offset startBlock block : Nat) : Steps Io Nat :=
  if block = startBlock then remainder offset sb.blockSize else pure 0

/-- The source of `memcpy`, or zeros for `memset`. -/
def copySource (data : Buffer) (lba offset tocopy : Nat) : Steps Io Memory :=
  if lba = 0 then pure fun _ => 0 else copyFrom data offset tocopy

def copyBlock (sb : Superblock) (offset startBlock block lba : Nat) (t : Transfer) : Steps Io Transfer := do
  let first ← firstOffset sb offset startBlock block
  let tocopy := u32Min t.remaining (sb.blockSize - first)
  let src ← copySource t.block lba first tocopy
  pure { t with
    buf := t.buf.overwrite t.pos tocopy src, pos := t.pos + tocopy, remaining := t.remaining - tocopy }

/-- The loop of `ext2_read_file` over `left` more blocks, up to the first block that cannot be read. -/
def readFileLoop (sb : Superblock) (offset startBlock : Nat) : Nat → Nat → Transfer → Steps Io (Int × Transfer)
  | 0, _, t => pure (0, t)
  | left + 1, i, t => do
      let block := (startBlock + i) % word32
      let (inode, lba) ← fileBlockLba env sb t.inode block
      let (status, data) ← fetchBlock env sb lba t.block
      if status < 0 then pure (status, { t with inode := inode, block := data })
      else do
        let t ← copyBlock sb offset startBlock block lba { t with inode := inode, block := data }
        readFileLoop sb offset startBlock left (i + 1) t

def toSsize (n : Nat) : Int := if n ≤ ssizeMax then n else n - word64

/-- The return value of a read, with the buffer, the position and the inode after it. -/
structure ReadResult where
  ret : Int
  buf : Memory
  offset : Nat
  inode : Inode

def ext2ReadFile (sb : Superblock) (inode : Inode) (buf : Memory) (count offset : Nat) : Steps Io ReadResult :=
  if count = 0 then pure ⟨0, buf, offset, inode⟩
  else if offset ≥ inode.size then pure ⟨0, buf, offset, inode⟩
  else do
    let count := if (offset + count) % word64 > inode.size then inode.size - offset else count
    let first ← divide offset sb.blockSize
    let last ← divide ((offset + count + sb.blockSize + (word64 - 1)) % word64) sb.blockSize
    let startBlock := first % word32
    let endBlock := last % word32
    let blockCount := (endBlock + (word32 - startBlock)) % word32
    match ← ext2AllocBlock env sb.blockSize with
    | none => pure ⟨-eNoMem, buf, offset, inode⟩
    | some block => do
        let (status, t) ← readFileLoop env sb offset startBlock blockCount 0 ⟨inode, block.data, buf, 0, count⟩
        ext2FreeBlock block
        if status < 0 then pure ⟨status, t.buf, offset, t.inode⟩
        else pure ⟨toSsize count, t.buf, (offset + count) % word64, t.inode⟩

/-! vfs.c -/

structure File where
  inode : Inode
  pos : Nat
  refCount : Nat

def vfsRead (sb : Superblock) (f : File) (buf : Memory) (count : Nat) : Steps Io (Int × Memory × File) :=
  if !isReg f.inode.mode then pure (-eInval, buf, f)
  else if f.refCount = 0 then pure (-eInval, buf, f)
  else do
    let count := if count > ssizeMax then ssizeMax else count
    let r ← ext2ReadFile env sb f.inode buf count f.pos
    pure (r.ret, r.buf, { f with pos := r.offset, inode := r.inode })

end SnapOS.Ext2Io
