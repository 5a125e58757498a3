/- The boot loader's copy of the kernel file into memory, and what the file is. -/
import SnapOS.LoadKernel

namespace SnapOS.Boot
open SnapOS.Lib

def tempBufSize : Nat := 4096
def directBlockPointersCount : Nat := 12
def kernelLoadDest : Nat := 0x1000000

/-- The memory that the kernel is loaded to, with no byte where nothing has been stored; the three buffers, and
what is left of the heap. -/
structure Loader where
  memory : Nat → Option UInt8
  buf : Memory
  singlyIndirectPtr : Memory
  doublyIndirectPtr : Memory
  remaining : Nat

/-- `memcpy` and `memset`; a pointer has 32 bits. -/
def Loader.put (s : Loader) (dest n : Nat) (src : Memory) : Loader :=
  { s with
    memory := fun a =>
      if a < word32 ∧ (a + (word32 - dest % word32)) % word32 < n then
        some (src ((a + (word32 - dest % word32)) % word32))
      else s.memory a }

def malloc (size : Nat) (s : Loader) : Option Loader :=
  if size ≤ s.remaining then some { s with remaining := s.remaining - size } else none

def free (size : Nat) (s : Loader) : Loader := { s with remaining := s.remaining + size }

section Load

variable (disk : Memory) (g : Globals)

def issueReadToDisk (lba : Nat) : Memory := fun j => disk (lba * sectorSize + j)

def readFrom (lba sectors done : Nat) (buf : Memory) : Memory :=
  if sectors = 0 then buf
  else
    let toread := min (tempBufSize / sectorSize) sectors
    readFrom ((lba + toread) % word32) (sectors - toread) (done + toread * sectorSize)
      (buf.overwrite done (toread * sectorSize) (issueReadToDisk disk lba))
termination_by sectors
decreasing_by
  simp only [tempBufSize, sectorSize]
  omega

def read (lba sectors : Nat) (buf : Memory) : Memory := readFrom disk lba sectors 0 buf

def blockLba (b : Nat) : Nat := (g.pstart + b * g.sectorsPerBlock % word32) % word32

def loadDataFrom (dest max : Nat) (ptr : Nat → Nat) : Nat → Nat → Nat → Loader → Nat × Loader
  | 0, _, offset, s => (offset, s)
  | left + 1, i, offset, s =>
      if max ≤ offset then (offset, s)
      else if ptr i = 0 then
        loadDataFrom dest max ptr left (i + 1) ((offset + g.blocksize) % word32)
          (s.put (dest + offset) g.blocksize fun _ => 0)
      else
        let s := { s with buf := read disk (blockLba g (ptr i)) g.sectorsPerBlock s.buf }
        let tocopy := min g.blocksize (max - offset)
        loadDataFrom dest max ptr left (i + 1) ((offset + tocopy) % word32) (s.put (dest + offset) tocopy s.buf)

def loadData (dest : Nat) (ptr : Nat → Nat) (n max : Nat) (s : Loader) : Nat × Loader :=
  loadDataFrom disk g dest max ptr n 0 0 s

def pointers (buf : Memory) (j : Nat) : Nat := buf.load (4 * j) 4

def doublyLoop (filesize : Nat) : Nat → Nat → Nat → Loader → Int × Loader
  | 0, _, _, s => (0, free (3 * g.blocksize) s)
  | left + 1, m, offset, s =>
      if filesize ≤ offset then (0, free (3 * g.blocksize) s)
      else if pointers s.doublyIndirectPtr m = 0 then
        let tocopy := min (g.blocksize / 4 * g.blocksize) (filesize - offset)
        doublyLoop filesize left (m + 1) ((offset + tocopy) % word32)
          (s.put (kernelLoadDest + offset) tocopy fun _ => 0)
      else
        let s :=
          { s with
            singlyIndirectPtr :=
              read disk (blockLba g (pointers s.doublyIndirectPtr m)) g.sectorsPerBlock s.singlyIndirectPtr }
        let loaded := loadData disk g (kernelLoadDest + offset) (pointers s.singlyIndirectPtr) (g.blocksize / 4)
          (filesize - offset) s
        doublyLoop filesize left (m + 1) ((offset + loaded.1) % word32) loaded.2

variable (inode : Memory)

def fileSize : Nat := inode.load 4 4
def directPtr (i : Nat) : Nat := inode.load (40 + 4 * i) 4
def singlyPtr : Nat := inode.load 88 4
def doublyPtr : Nat := inode.load 92 4

def loadDoubly (offset : Nat) (s : Loader) : Int × Loader :=
  match malloc g.blocksize s with
  | none => (-1, free (2 * g.blocksize) s)
  | some s =>
      let s :=
        { s with
          doublyIndirectPtr := read disk (blockLba g (doublyPtr inode)) g.sectorsPerBlock s.doublyIndirectPtr }
      doublyLoop disk g (fileSize inode) (g.blocksize / 4) 0 offset s

def loadSingly (offset : Nat) (s : Loader) : Int × Loader :=
  match malloc g.blocksize s with
  | none => (-1, free g.blocksize s)
  | some s =>
      let s :=
        { s with
          singlyIndirectPtr := read disk (blockLba g (singlyPtr inode)) g.sectorsPerBlock s.singlyIndirectPtr }
      let loaded := loadData disk g (kernelLoadDest + offset) (pointers s.singlyIndirectPtr) (g.blocksize / 4)
        (fileSize inode - offset) s
      let offset := (offset + loaded.1) % word32
      if fileSize inode ≤ offset then (0, free (2 * g.blocksize) loaded.2)
      else loadDoubly disk g inode offset loaded.2

/-- The parts for the singly and the doubly indirect block have functions of their own. -/
def loadKernelBinary (s : Loader) : Int × Loader :=
  match malloc g.blocksize s with
  | none => (-1, s)
  | some s =>
      let loaded := loadData disk g kernelLoadDest (directPtr inode) directBlockPointersCount (fileSize inode) s
      if fileSize inode ≤ loaded.1 then (0, free g.blocksize loaded.2)
      else loadSingly disk g inode loaded.1 loaded.2

/-! The file. A pointer of zero is a hole, at every level. -/

def perBlock : Nat := g.blocksize / 4

def blockByte (b : Nat) : Memory := fun r => disk ((g.pstart + b * g.sectorsPerBlock) * sectorSize + r)

def tablePtr (b j : Nat) : Nat := if b = 0 then 0 else pointers (blockByte disk g b) j

def filePtr (i : Nat) : Nat :=
  if i < directBlockPointersCount then directPtr inode i
  else if i < directBlockPointersCount + perBlock g then
    tablePtr disk g (singlyPtr inode) (i - directBlockPointersCount)
  else
    let rest := i - (directBlockPointersCount + perBlock g)
    tablePtr disk g (tablePtr disk g (doublyPtr inode) (rest / perBlock g)) (rest % perBlock g)

def fileByte (k : Nat) : UInt8 :=
  let b := filePtr disk g inode (k / g.blocksize)
  if b = 0 then 0 else blockByte disk g b (k % g.blocksize)

/-! What the loader takes for it: it reads the block 0 for a table that is a hole, and its sector numbers have
32 bits. -/

def foundByte (b : Nat) : Memory := fun r => disk (blockLba g b * sectorSize + r)

def foundTable (b j : Nat) : Nat := pointers (foundByte disk g b) j

def foundInner (i : Nat) : Nat :=
  foundTable disk g (doublyPtr inode) ((i - (directBlockPointersCount + perBlock g)) / perBlock g)

def foundPtr (i : Nat) : Nat :=
  if i < directBlockPointersCount then directPtr inode i
  else if i < directBlockPointersCount + perBlock g then
    foundTable disk g (singlyPtr inode) (i - directBlockPointersCount)
  else if foundInner disk g inode i = 0 then 0
  else foundTable disk g (foundInner disk g inode i) ((i - (directBlockPointersCount + perBlock g)) % perBlock g)

def loadedByte (k : Nat) : UInt8 :=
  let b := foundPtr disk g inode (k / g.blocksize)
  if b = 0 then 0 else foundByte disk g b (k % g.blocksize)

/-- A hole that `load_data` clears, always by a whole block. -/
def Clears (i : Nat) : Prop :=
  foundPtr disk g inode i = 0 ∧
    (i < directBlockPointersCount + perBlock g ∨ foundInner disk g inode i ≠ 0)

/-- The file ends in such a hole, and not with the block. -/
def Overruns : Prop := fileSize inode % g.blocksize ≠ 0 ∧ Clears disk g inode (fileSize inode / g.blocksize)

/-- The sectors of a block have numbers of 32 bits, or it is a hole. -/
def InReach (b : Nat) : Prop := b = 0 ∨ g.pstart + b * g.sectorsPerBlock < word32

/-- No table on the way to a block is a hole but an inner one, and all blocks on the way are in reach. -/
def Found (i : Nat) : Prop :=
  if i < directBlockPointersCount then InReach g (directPtr inode i)
  else if i < directBlockPointersCount + perBlock g then
    singlyPtr inode ≠ 0 ∧ InReach g (singlyPtr inode) ∧ InReach g (filePtr disk g inode i)
  else
    doublyPtr inode ≠ 0 ∧ InReach g (doublyPtr inode) ∧
      InReach g (tablePtr disk g (doublyPtr inode)
        ((i - (directBlockPointersCount + perBlock g)) / perBlock g)) ∧
      InReach g (filePtr disk g inode i)

/-- The kernel file is in memory, and nothing is stored behind it. -/
structure Boots (s : Loader) : Prop where
  ret : (loadKernelBinary disk g inode s).1 = 0
  image : ∀ k < fileSize inode,
    (loadKernelBinary disk g inode s).2.memory (kernelLoadDest + k) = some (fileByte disk g inode k)
  behind : ∀ a, kernelLoadDest + fileSize inode ≤ a → (loadKernelBinary disk g inode s).2.memory a = none

end Load

end SnapOS.Boot
