/- The ext2 driver on a device that does not fail, with memory that does not run out. -/
import SnapOS.Klibc

namespace SnapOS.Fs
open SnapOS.Lib

/-- A partition of a disk, whose bytes are given by their address on the whole disk. -/
structure BlockDev where
  disk : Memory
  lbaStart : Nat
  sectorSize : Nat

/-- What a read of `count` sectors fills of a new buffer of `length` bytes. -/
def BlockDev.read (dev : BlockDev) (lba count length : Nat) : Buffer where
  bytes i := dev.disk ((dev.lbaStart + lba) % word64 * dev.sectorSize + i)
  size := min (count * dev.sectorSize) length

/-! super.c -/

structure Ext2Superblock where
  inodeCount : Nat
  firstDataBlock : Nat
  logBlockSize : Nat
  blocksPerBlockgroup : Nat
  inodesPerBlockgroup : Nat
  inodeStructSize : Nat
  deriving DecidableEq, Repr

def Ext2Superblock.ofBytes (bytes : Memory) : Ext2Superblock where
  inodeCount := bytes.load 0 4
  firstDataBlock := bytes.load 20 4
  logBlockSize := bytes.load 24 4
  blocksPerBlockgroup := bytes.load 32 4
  inodesPerBlockgroup := bytes.load 40 4
  inodeStructSize := bytes.load 88 2

def ext2SuperblockOffset : Nat := 1024

def ext2ReadSuperblock (bdev : BlockDev) : Ext2Superblock :=
  let startSector := ext2SuperblockOffset / bdev.sectorSize
  let endByte := ext2SuperblockOffset + 1024
  let endSector := (endByte + bdev.sectorSize - 1) / bdev.sectorSize
  let sectorCount := endSector - startSector
  let totalBytes := sectorCount * bdev.sectorSize
  let buf := bdev.read startSector sectorCount totalBytes
  let offset := ext2SuperblockOffset - startSector * bdev.sectorSize
  .ofBytes fun i => buf.bytes (offset + i)

structure Ext2FsInfo where
  superblock : Ext2Superblock
  inodesPerGroup : Nat
  blockPerGroup : Nat
  blockGroupCount : Nat
  bgdTable : Buffer

def sizeofBlockgroupDesc : Nat := 32

-- All of this is 32-bit arithmetic, and `x + y - 1` wraps around as a whole.
def ext2FillBgdTableInfo (bdev : BlockDev) (superblock : Ext2Superblock) : Ext2FsInfo :=
  let inodesPerGroup := superblock.inodesPerBlockgroup
  let blockGroupCount := (superblock.inodeCount + inodesPerGroup + (word32 - 1)) % word32 / inodesPerGroup
  let blockSize := shl32 1024 superblock.logBlockSize
  let bgdTableStartBlock := (superblock.firstDataBlock + 1) % word32
  let bgdTableBytes := sizeofBlockgroupDesc * blockGroupCount % word32
  let blockCount := (bgdTableBytes + blockSize + (word32 - 1)) % word32 / blockSize
  let sectorsPerBlock := blockSize / bdev.sectorSize
  let lba := bgdTableStartBlock * sectorsPerBlock % word32
  let lbaCount := blockCount * sectorsPerBlock % word32
  { superblock := superblock
    inodesPerGroup := inodesPerGroup
    blockPerGroup := superblock.blocksPerBlockgroup
    blockGroupCount := blockGroupCount
    bgdTable := bdev.read lba lbaCount (blockCount * blockSize % word32) }

structure Superblock where
  bdev : BlockDev
  blockSize : Nat
  sectorsPerBlock : Nat
  info : Ext2FsInfo

def ext2RootDirIno : Nat := 2

/-- `ext2_mount` up to the root directory. -/
def ext2Mount (bdev : BlockDev) (superblock : Ext2Superblock) : Superblock where
  bdev := bdev
  blockSize := shl32 1024 superblock.logBlockSize
  sectorsPerBlock := shl32 1024 superblock.logBlockSize / bdev.sectorSize
  info := ext2FillBgdTableInfo bdev superblock

def Superblock.readBlock (sb : Superblock) (lba : Nat) : Buffer :=
  sb.bdev.read lba sb.sectorsPerBlock sb.blockSize

/-! inode.c -/

structure Ext2Inode where
  mode : Nat
  sizel : Nat
  directPtrs : List Nat
  singly : Nat
  sizeu : Nat
  deriving DecidableEq, Repr

def sizeofExt2Inode : Nat := 128

def Ext2Inode.copy (block : Buffer) (offset : Nat) : Exec Ext2Inode :=
  if offset + sizeofExt2Inode ≤ block.size then
    .ok {
      mode := block.bytes.load offset 2
      sizel := block.bytes.load (offset + 4) 4
      directPtrs := (List.range 12).map fun i => block.bytes.load (offset + 40 + 4 * i) 4
      singly := block.bytes.load (offset + 88) 4
      sizeu := block.bytes.load (offset + 108) 4 }
  else .error .outOfBounds

def sIfmt : Nat := 0xF000
def sIfreg : Nat := 0x8000
def sIfdir : Nat := 0x4000

-- The two headers give the file types the same values.
def isDir (mode : Nat) : Bool := mode &&& sIfmt == sIfdir
def isReg (mode : Nat) : Bool := mode &&& sIfmt == sIfreg

inductive InodeOps where
  | ext2File
  | ext2Dir
  deriving DecidableEq, Repr

/-- A `struct inode` with its `ext2_inode_info`. The singly indirect block is kept once it is read. -/
structure Inode where
  ino : Nat
  size : Nat
  mode : Nat
  iops : InodeOps
  ext2Inode : Ext2Inode
  singly : Option Buffer

def ext2InodeDataSize (inode : Ext2Inode) : Nat := inode.sizel ||| inode.sizeu <<< 32

/-- Where `ext2_read_inode` takes an inode from: a block of the partition and an offset in its buffer. -/
structure InodeSlot where
  lba : Nat
  offset : Nat
  deriving DecidableEq, Repr

def ext2InodeSlot (sb : Superblock) (ino : Nat) : Exec (Except Int InodeSlot) :=
  let info := sb.info
  let blockGroup := (ino + (word32 - 1)) % word32 / info.inodesPerGroup
  if blockGroup ≥ info.blockGroupCount then .ok (.error (-eInval))
  else do
    let inodeSize := info.superblock.inodeStructSize
    let index := (ino + (word32 - 1)) % word32 % info.inodesPerGroup
    let inodesPerBlock := sb.blockSize / inodeSize
    let blockOffset := index / inodesPerBlock
    let indexInBlock := index % inodesPerBlock
    let inodeTableBase ← info.bgdTable.load (sizeofBlockgroupDesc * blockGroup + 8) 4
    let targetBlock := (inodeTableBase + blockOffset) % word32
    .ok (.ok ⟨targetBlock * sb.sectorsPerBlock % word32, inodeSize * indexInBlock % word32⟩)

def ext2ReadInode (sb : Superblock) (ino : Nat) : Exec (Except Int Inode) := do
  match ← ext2InodeSlot sb ino with
  | .error err => .ok (.error err)
  | .ok slot =>
      let ext2Inode ← Ext2Inode.copy (sb.readBlock slot.lba) slot.offset
      let size := ext2InodeDataSize ext2Inode
      if isDir ext2Inode.mode then .ok (.ok ⟨ino, size, sIfdir, .ext2Dir, ext2Inode, none⟩)
      else if isReg ext2Inode.mode then .ok (.ok ⟨ino, size, sIfreg, .ext2File, ext2Inode, none⟩)
      else Exec.panic "ext2_lookup: unsupported type.\n"

/-- `ext2_init_singly`, which finds the block already there or reads it. -/
def ext2InitSingly (sb : Superblock) (inode : Inode) : Buffer :=
  inode.singly.getD (sb.readBlock (inode.ext2Inode.singly * sb.sectorsPerBlock % word32))

/-! dir.c -/

/-- The loop of `search_dir_block` from `ptr` on: an entry, no entry, or an error. -/
def searchDirBlockFrom (buf : Buffer) (blockSize : Nat) (name : List UInt8) (nameLen : Nat) :
    Nat → Nat → Exec (Except Int (Option Nat))
  | 0, _ => .error .outOfFuel
  | fuel + 1, ptr =>
      if ptr < blockSize then do
        let entrySize ← buf.load (ptr + 4) 2
        if entrySize = 0 then .ok (.error (-eUClean))
        else do
          let inode ← buf.load ptr 4
          if inode = 0 then searchDirBlockFrom buf blockSize name nameLen fuel (ptr + entrySize)
          else do
            let nameLenLower ← buf.load (ptr + 6) 1
            if nameLenLower ≠ nameLen then
              searchDirBlockFrom buf blockSize name nameLen fuel (ptr + entrySize)
            else do
              let differs ← memcmp (fun i => buf.byte (ptr + 8 + i)) (fun i => .ok (charAt name i)) 0 nameLen
              if differs ≠ 0 then searchDirBlockFrom buf blockSize name nameLen fuel (ptr + entrySize)
              else .ok (.ok (some ptr))
      else .ok (.ok none)

-- Every round moves on by at least one byte.
def searchDirBlock (buf : Buffer) (blockSize : Nat) (name : List UInt8) (nameLen : Nat) :
    Exec (Except Int (Option Nat)) :=
  searchDirBlockFrom buf blockSize name nameLen (blockSize + 1) 0

def dirBlockAddr (sb : Superblock) (dir : Inode) (i : Nat) : Exec (Inode × Nat) :=
  if i < 12 then .ok (dir, dir.ext2Inode.directPtrs.getD i 0)
  else do
    let singly := ext2InitSingly sb dir
    let addr ← singly.load (4 * (i - 12)) 4
    .ok ({ dir with singly := some singly }, addr)

/-- The loop of `ext2_lookup` over `left` more blocks: the inode number of the entry, if there is one.
The length of the name is passed as one byte. -/
def ext2LookupFrom (sb : Superblock) (name : List UInt8) : Nat → Nat → Inode → Exec (Inode × Except Int (Option Nat))
  | 0, _, dir => .ok (dir, .ok none)
  | left + 1, i, dir => do
      let (dir, addr) ← dirBlockAddr sb dir i
      if addr = 0 then .ok (dir, .ok none)
      else do
        let buf := sb.readBlock (addr * sb.sectorsPerBlock % word32)
        match ← searchDirBlock buf sb.blockSize name (name.length % 256) with
        | .error err => .ok (dir, .error err)
        | .ok (some entry) => do
            let ino ← buf.load entry 4
            .ok (dir, .ok (some ino))
        | .ok none => ext2LookupFrom sb name left (i + 1) dir

/-- `ext2_lookup` without the dentry: the inode of the name, and the directory with the blocks it keeps. -/
def ext2Find (sb : Superblock) (dir : Inode) (name : List UInt8) : Exec (Inode × Except Int Inode) := do
  let (dir, entry) ← ext2LookupFrom sb name (12 + sb.blockSize / 4) 0 dir
  match entry with
  | .error err => .ok (dir, .error err)
  | .ok none => .ok (dir, .error (-eNoEnt))
  | .ok (some ino) => do
      let inode ← ext2ReadInode sb ino
      .ok (dir, inode)

end SnapOS.Fs
