/- fs/elf.c, with vfs_open, vfs_read and vfs_close of fs/vfs.c for any file system below them. -/
import SnapOS.AllocList
import SnapOS.AllocRange
import SnapOS.FilePosition

namespace SnapOS.Elf
open SnapOS.Lib SnapOS.Fs SnapOS.Ext2Io SnapOS.Paging

/-! include/elf.h -/

def elfMagic : List Nat := [0x7F, 0x45, 0x4C, 0x46]
def elfClass64 : Nat := 2
def elfTargetClass : Nat := elfClass64
def elfTargetData : Nat := 1
def elfVersionCurrent : Nat := 1
def elfTargetMachine : Nat := 0x3E
def elfTypeExec : Nat := 2
def elfPhdrLoad : Nat := 1
def elfPhdrFlagExec : Nat := 1
def elfPhdrFlagWrite : Nat := 2

structure ElfIdent where
  magic : List Nat
  elfClass : Nat
  data : Nat
  version : Nat
  deriving DecidableEq, Repr

/-- The fields of `struct elf_header_64` that `elf_load` looks at. -/
structure ElfHeader where
  ident : ElfIdent
  type : Nat
  machine : Nat
  entry : Nat
  phoff : Nat
  phnum : Nat
  deriving DecidableEq, Repr

structure ProgramHeader where
  type : Nat
  flags : Nat
  offset : Nat
  vaddr : Nat
  paddr : Nat
  fileSize : Nat
  memSize : Nat
  align : Nat
  deriving DecidableEq, Repr

def sizeofElfHeader : Nat := 64
def sizeofProgramHeader : Nat := 56

def ElfHeader.decode (m : Memory) : ElfHeader where
  ident := ⟨(List.range 4).map fun i => m.load i 1, m.load 4 1, m.load 5 1, m.load 6 1⟩
  type := m.load 16 2
  machine := m.load 18 2
  entry := m.load 24 8
  phoff := m.load 32 8
  phnum := m.load 56 2

def ProgramHeader.decode (m : Memory) (base : Nat) : ProgramHeader where
  type := m.load base 4
  flags := m.load (base + 4) 4
  offset := m.load (base + 8) 8
  vaddr := m.load (base + 16) 8
  paddr := m.load (base + 24) 8
  fileSize := m.load (base + 32) 8
  memSize := m.load (base + 40) 8
  align := m.load (base + 48) 8

def programHeaders (m : Memory) (base count : Nat) : List ProgramHeader :=
  (List.range count).map fun i => .decode m (base + sizeofProgramHeader * i)

def validateIdent (ident : ElfIdent) : Bool :=
  if ident.magic ≠ elfMagic then false
  else if ident.elfClass ≠ elfClass64 then false
  else ident.elfClass == elfTargetClass && ident.data == elfTargetData && ident.version == elfVersionCurrent

def ElfHeader.valid (eh : ElfHeader) : Bool :=
  validateIdent eh.ident && eh.machine == elfTargetMachine && eh.type == elfTypeExec

/-! The file system and the memory below -/

/-- What `read` of a file system returns: the bytes that it has stored at the start of the buffer, and the file with
its new position. -/
structure ReadAnswer where
  ret : Int
  stored : Nat
  bytes : Memory
  file : File

/-- `struct file_operations` of a file system with its own state. -/
structure FileOps (σ : Type) where
  read : File → Nat → Steps σ ReadAnswer

/-- A negative error number. -/
structure Errno where
  value : Int
  negative : value < 0
  inRange : -(maxErrno : Int) ≤ value

/-- What the rest of the kernel answers: `vfs_lookup` of the path, and the heap with the address of each allocation
(0 if there is no memory) and the frames that it takes out of the pool. -/
structure LoadEnv where
  lookup : Except Errno Inode
  heap : Nat → Nat
  taken : Nat → Nat

inductive Held where
  | file
  | headers
  deriving DecidableEq, Repr

/-- A call of `vmm_alloc_range` with the page tables before it, or stores to consecutive addresses. -/
inductive LoadEvent where
  | map (before : Mmu) (vaddr size : Nat) (prot : Pgprot)
  | store (vaddr length : Nat) (bytes : Memory)

structure LoadState (σ : Type) where
  disk : σ
  mmu : Mmu
  allocs : AllocMem
  calls : Nat
  held : List Held
  log : List LoadEvent

variable {σ : Type}

def InPages (vaddr size a : Nat) : Prop :=
  ∃ k < pageAlignUp size / pageSize, pageAlignDown a = (vaddr + k * pageSize) % word64

instance (vaddr size a : Nat) : Decidable (InPages vaddr size a) := Nat.decidableExistsLT _

instance (vaddr : Nat) : Decidable (Canonical vaddr) := inferInstanceAs (Decidable (_ ∨ _))

def LoadEvent.Asks : LoadEvent → Nat → Prop
  | .map _ vaddr size _, a => InPages vaddr size a
  | .store _ _ _, _ => False

instance : (e : LoadEvent) → (a : Nat) → Decidable (e.Asks a)
  | .map _ vaddr size _, a => inferInstanceAs (Decidable (InPages vaddr size a))
  | .store _ _ _, _ => inferInstanceAs (Decidable False)

/-- A page of the lower half, or of the upper half if it has been mapped for the program: the memory of the kernel
is not for `elf_load` to write. -/
def Accessible (s : LoadState σ) (pgd a : Nat) : Prop :=
  Canonical a ∧ (translate s.mmu.tables pgd a).isSome ∧ (a < userEnd ∨ ∃ e ∈ s.log, e.Asks a)

instance (s : LoadState σ) (pgd a : Nat) : Decidable (Accessible s pgd a) := inferInstanceAs (Decidable (_ ∧ _ ∧ _))

namespace LoadState

def takeFrames (env : LoadEnv) (s : LoadState σ) : LoadState σ :=
  { s with mmu := { s.mmu with pool := s.mmu.pool.drop (env.taken s.calls) }, calls := s.calls + 1 }

def withDisk (s : LoadState σ) (d : σ) : LoadState σ := { s with disk := d }

def withAllocs (s : LoadState σ) (allocs : AllocMem) : LoadState σ := { s with allocs := allocs }

def holding (s : LoadState σ) (what : Held) : LoadState σ := { s with held := what :: s.held }

def freed (s : LoadState σ) (what : Held) : LoadState σ := { s with held := s.held.erase what }

def logged (s : LoadState σ) (e : LoadEvent) : LoadState σ := { s with log := s.log ++ [e] }

end LoadState

def kmalloc (env : LoadEnv) : Steps (LoadState σ) Nat := fun s => .ok (env.heap s.calls) (s.takeFrames env)

def hold (what : Held) : Steps (LoadState σ) Unit := fun s => .ok () (s.holding what)

def kfree (what : Held) : Steps (LoadState σ) Unit := fun s => .ok () (s.freed what)

def store (pgd vaddr length : Nat) (bytes : Memory) : Steps (LoadState σ) Unit := fun s =>
  if ∀ i < length, Accessible s pgd ((vaddr + i) % word64) then .ok () (s.logged (.store vaddr length bytes))
  else .error .outOfBounds (s.logged (.store vaddr length bytes))

def vmmAllocRange (pgd vaddr size : Nat) (prot : Pgprot) : Steps (LoadState σ) Int := fun s =>
  match s.mmu.vmmAllocRange pgd vaddr size prot with
  | .ok (count, m) => .ok count { s.logged (.map s.mmu vaddr size prot) with mmu := m }
  | .error fault => .error fault (s.logged (.map s.mmu vaddr size prot))

def onAllocs (change : AllocMem → Exec (Int × AllocMem)) : Steps (LoadState σ) Int := fun s =>
  match change s.allocs with
  | .ok (res, allocs) => .ok res (s.withAllocs allocs)
  | .error fault => .error fault s

def mmAddAlloc (env : LoadEnv) (addr pageCount : Nat) : Steps (LoadState σ) Int := do
  let ptr ← kmalloc env
  onAllocs fun allocs => allocs.mmAddAlloc ptr addr pageCount

/-- A call of the file system, whose buffers are from the heap too. -/
def fromDisk {α : Type} (env : LoadEnv) (x : Steps σ α) : Steps (LoadState σ) α := fun s =>
  match x s.disk with
  | .ok a d => .ok a ((s.takeFrames env).withDisk d)
  | .error fault d => .error fault ((s.takeFrames env).withDisk d)

/-! fs/vfs.c -/

def vfsOpen (env : LoadEnv) : Steps (LoadState σ) (Except Errno File) :=
  match env.lookup with
  | .error err => pure (.error err)
  | .ok inode =>
      if !isReg inode.mode then pure (.error ⟨-eNotDir, by decide, by decide⟩)
      else do
        let ptr ← kmalloc env
        if ptr = 0 then pure (.error ⟨-eNoMem, by decide, by decide⟩)
        else do
          hold .file
          pure (.ok (openedFile inode))

def vfsRead (env : LoadEnv) (fops : FileOps σ) (f : File) (count : Nat) : Steps (LoadState σ) ReadAnswer :=
  if !isReg f.inode.mode then pure ⟨-eInval, 0, fun _ => 0, f⟩
  else if f.refCount = 0 then pure ⟨-eInval, 0, fun _ => 0, f⟩
  else fromDisk env (fops.read f (if count > ssizeMax then ssizeMax else count))

def vfsClose (f : File) : Steps (LoadState σ) Unit := if f.refCount - 1 = 0 then kfree .file else pure ()

/-! fs/elf.c -/

namespace ProgramHeader

/-- `align - 1` in 64 bits: all ones for an alignment of 0. -/
def alignMask (phdr : ProgramHeader) : Nat := (phdr.align + (word64 - 1)) % word64

def loadable (phdr : ProgramHeader) : Bool :=
  phdr.type == elfPhdrLoad && phdr.vaddr &&& phdr.alignMask == 0 && phdr.paddr &&& phdr.alignMask == 0

def prot (phdr : ProgramHeader) : Pgprot :=
  let flags := pageUser ||| pageRw
  let flags := if phdr.flags &&& elfPhdrFlagExec = 0 then flags ||| pageNoExecute else flags
  let flags := if phdr.flags &&& elfPhdrFlagWrite ≠ 0 then flags ||| pageRw else flags
  ⟨flags, false⟩

/-- The local `mem_size`: the offset in the first page is added. -/
def mappedSize (phdr : ProgramHeader) : Nat := (phdr.memSize + phdr.vaddr % pageSize) % word64

end ProgramHeader

def toInt (n : Int) : Int := n.bmod (2 ^ 32)

def zeroFill (pgd : Nat) (phdr : ProgramHeader) : Steps (LoadState σ) Unit :=
  if phdr.memSize > phdr.fileSize then
    store pgd ((phdr.vaddr + phdr.fileSize) % word64) (phdr.memSize - phdr.fileSize) fun _ => 0
  else pure ()

/-- `load_program_header` behind its `vfs_seek`. -/
def copySegment (env : LoadEnv) (fops : FileOps σ) (pgd : Nat) (f : File) (phdr : ProgramHeader) (pageCount : Int) :
    Steps (LoadState σ) (Int × File) := do
  let a ← vfsRead env fops f phdr.fileSize
  store pgd phdr.vaddr a.stored a.bytes
  if a.ret < 0 then pure (toInt a.ret, a.file)
  else do
    zeroFill pgd phdr
    -- The result is not looked at.
    let _ ← mmAddAlloc env (pageAlignDown phdr.vaddr) pageCount.toNat
    pure (0, a.file)

def loadProgramHeader (env : LoadEnv) (fops : FileOps σ) (pgd : Nat) (f : File) (phdr : ProgramHeader) :
    Steps (LoadState σ) (Int × File) :=
  if phdr.type ≠ elfPhdrLoad then pure (0, f)
  else if phdr.vaddr &&& phdr.alignMask ≠ 0 ∨ phdr.paddr &&& phdr.alignMask ≠ 0 then pure (0, f)
  else do
    let pageCount ← vmmAllocRange pgd (pageAlignDown phdr.vaddr) phdr.mappedSize phdr.prot
    if pageCount < 0 then pure (toInt pageCount, f)
    else
      let (pos, f) := vfsSeek f (toSsize phdr.offset) seekSet
      if toSize pos ≠ phdr.offset then pure (-eInval, f)
      else copySegment env fops pgd f phdr pageCount

def loadHeaders (env : LoadEnv) (fops : FileOps σ) (pgd : Nat) : List ProgramHeader → File →
    Steps (LoadState σ) (Int × File)
  | [], f => pure (0, f)
  | phdr :: rest, f => do
      let (res, f) ← loadProgramHeader env fops pgd f phdr
      if res < 0 then pure (res, f) else loadHeaders env fops pgd rest f

/-- `elf_load` from the first `vfs_seek` up to the loop: the open file with the headers, or the pointer that is
returned. -/
def elfTable (env : LoadEnv) (fops : FileOps σ) (f : File) (eh : ElfHeader) :
    Steps (LoadState σ) (Except Nat (File × ElfHeader × List ProgramHeader)) := do
  let (res, f) := vfsSeek f (toSsize eh.phoff) seekSet
  if res < 0 then do
    vfsClose f
    pure (.error (errPtr res))
  else do
    let base ← kmalloc env
    if base = 0 then do
      vfsClose f
      pure (.error (errPtr (-eNoMem)))
    else do
      hold .headers
      let a ← vfsRead env fops f (sizeofProgramHeader * eh.phnum)
      if toSize a.ret ≠ sizeofProgramHeader * eh.phnum then do
        vfsClose a.file
        kfree .headers
        pure (.error (errPtr a.ret))
      else pure (.ok (a.file, eh, programHeaders a.bytes 0 eh.phnum))

def elfOpen (env : LoadEnv) (fops : FileOps σ) :
    Steps (LoadState σ) (Except Nat (File × ElfHeader × List ProgramHeader)) := do
  match ← vfsOpen env with
  | .error err => pure (.error (errPtr err.value))
  | .ok f => do
      let a ← vfsRead env fops f sizeofElfHeader
      let eh := ElfHeader.decode a.bytes
      if a.ret ≠ sizeofElfHeader then do
        vfsClose a.file
        pure (.error (errPtr (-eInval)))
      else if !eh.valid then do
        vfsClose a.file
        pure (.error (errPtr (-eInval)))
      else elfTable env fops a.file eh

/-- The exit of `elf_load` and the pointer that is returned there. -/
inductive Outcome where
  | failed (ptr : Nat)
  | loaded (entry : Nat)
  deriving DecidableEq, Repr

def Outcome.ptr : Outcome → Nat
  | .failed ptr => ptr
  | .loaded entry => entry

def elfLoad (env : LoadEnv) (fops : FileOps σ) (pgd : Nat) : Steps (LoadState σ) Outcome := do
  match ← elfOpen env fops with
  | .error ptr => pure (.failed ptr)
  | .ok (f, eh, phdrs) => do
      let (res, f) ← loadHeaders env fops pgd phdrs f
      if res < 0 then do
        vfsClose f
        kfree .headers
        pure (.failed (errPtr res))
      else do
        kfree .headers
        vfsClose f
        pure (.loaded eh.entry)

end SnapOS.Elf
