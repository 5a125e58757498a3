/- elf_load up to its loop, over a file system that serves the file. -/
import SnapOS.Elf

namespace SnapOS.Elf
open SnapOS.Lib SnapOS.Fs SnapOS.Ext2Io SnapOS.Paging

variable {σ : Type}

/-! What a file system promises -/

/-- A read of `count` bytes at `offset`. One that fails may have stored some of the bytes. -/
structure Answered (size : Nat) (content : Memory) (count offset : Nat) (a : ReadAnswer) : Prop where
  failed : a.ret < 0 → -(maxErrno : Int) ≤ a.ret ∧ a.stored ≤ bytesLeft size count offset ∧ a.file.pos = offset
  done : 0 ≤ a.ret → a.ret = bytesLeft size count offset ∧ a.stored = bytesLeft size count offset ∧
    a.file.pos = offset + bytesLeft size count offset ∧
    ∀ k < bytesLeft size count offset, a.bytes k = content (offset + k)

/-- The file system serves a regular file of these bytes, as long as it is in a state that is `good` for the inode. -/
structure Serves (fops : FileOps σ) (size : Nat) (content : Memory) (good : Inode → σ → Prop) : Prop where
  word : size < word64
  regular : ∀ {inode d}, good inode d → isReg inode.mode = true
  sized : ∀ {inode d}, good inode d → inode.size = size
  read : ∀ {f : File} {d : σ} {count : Nat}, good f.inode d → f.pos ≤ size → count ≤ ssizeMax →
    ∃ a d', fops.read f count d = .ok a d' ∧ good a.file.inode d' ∧ a.file.refCount = f.refCount ∧
      Answered size content count f.pos a

/-- `ext2_file_fops`. Of the bytes in the buffer of a read that fails none is counted as stored. -/
def ext2FileFops (env : Env) (sb : Superblock) : FileOps Io where
  read f count := do
    let r ← ext2ReadFile env sb f.inode (fun _ => 0) count f.pos
    pure ⟨r.ret, r.ret.toNat, r.buf, { f with pos := r.offset, inode := r.inode }⟩

/-- A regular file of this size and these pointers, with or without its table in memory. -/
structure IsFile (sb : Superblock) (size : Nat) (e : Ext2Inode) (inode : Inode) : Prop where
  regular : isReg inode.mode = true
  sized : inode.size = size
  pointers : inode.ext2Inode = e
  opened : Opened sb inode

section Ext2

variable {env : Env} {sb : Superblock} {size : Nat} {e : Ext2Inode} {f : File} {count : Nat}

theorem ext2FileFops_read (reliable : env.Reliable) (mounted : Mounted sb) (small : size < word32)
    (isFile : IsFile sb size e f.inode) (short : count ≤ ssizeMax) (io : Io) :
    ∃ a io', (ext2FileFops env sb).read f count io = .ok a io' ∧ IsFile sb size e a.file.inode ∧
      a.file.refCount = f.refCount ∧ 0 ≤ a.ret ∧ Answered size (takenByte sb e) count f.pos a := by
  obtain ⟨regular, rfl, rfl, opened⟩ := isFile
  by_cases nothing : count = 0 ∨ f.inode.size ≤ f.pos
  · have none := bytesLeft_eq_zero.mpr nothing
    refine ⟨_, io, Steps.bind_ok (ext2ReadFile_nothing nothing), ⟨regular, rfl, rfl, opened⟩, rfl, Int.le_refl 0,
      fun negative => absurd negative (Int.lt_irrefl 0), fun _ => ⟨congrArg Int.ofNat none.symm, none.symm, ?_, ?_⟩⟩
    · rw [none]
      rfl
    · intro k before
      rw [none] at before
      cases before
  · obtain ⟨some, within⟩ := not_or.mp nothing
    have within := Nat.not_le.mp within
    obtain ⟨r, io', call, delivered⟩ :=
      ext2ReadFile_delivers io (fun _ => 0) reliable.answers mounted opened some within
      (reliable.memory _) fun _ => Or.inr (reliable.memory _)
    obtain ⟨ret, advanced, bytes, _⟩ := delivered.small mounted within short small
    have kept : IsFile sb f.inode.size f.inode.ext2Inode r.inode := by
      rcases delivered.same with same | loaded
      · rw [same]
        exact ⟨regular, rfl, rfl, opened⟩
      · rw [loaded]
        exact ⟨regular, rfl, rfl, opened_withTable sb f.inode⟩
    have nonneg : 0 ≤ r.ret := by omega
    refine ⟨_, io', Steps.bind_ok call, kept, rfl, nonneg, fun negative => absurd nonneg (Int.not_le.mpr negative),
      fun _ => ⟨ret, ?_, advanced, bytes⟩⟩
    change r.ret.toNat = _
    rw [ret, Int.toNat_natCast]

/-- On a device that answers ext2 serves its files below 4 GiB. What is left to copy is taken with 32 bits, so a read of
4 GiB stores nothing. -/
theorem ext2FileFops_serves (reliable : env.Reliable) (mounted : Mounted sb) (small : size < word32) (e : Ext2Inode) :
    Serves (ext2FileFops env sb) size (takenByte sb e) fun inode _ => IsFile sb size e inode := by
  refine ⟨Nat.lt_trans small (by decide), IsFile.regular, IsFile.sized, fun {f io count} isFile _ short => ?_⟩
  obtain ⟨a, io', call, kept, same, _, answered⟩ := ext2FileFops_read reliable mounted small isFile short io
  exact ⟨a, io', call, kept, same, answered⟩

end Ext2

/-- If the path is one of a regular file, then of this one. -/
def Finds (env : LoadEnv) (good : Inode → σ → Prop) (s : LoadState σ) : Prop :=
  ∀ inode, env.lookup = .ok inode → isReg inode.mode = true → good inode s.disk

/-- Nothing fails: there is a regular file, there is memory, and no read that `vfs_read` asks for returns an error. -/
structure Working (env : LoadEnv) (fops : FileOps σ) (good : Inode → σ → Prop) : Prop where
  found : ∃ inode, env.lookup = .ok inode ∧ isReg inode.mode = true
  memory : ∀ k, env.heap k ≠ 0
  reads : ∀ {f : File} {count : Nat} {d d' : σ} {a : ReadAnswer}, good f.inode d → count ≤ ssizeMax →
    fops.read f count d = .ok a d' → 0 ≤ a.ret

theorem ext2FileFops_working {env : LoadEnv} {ext2 : Env} {sb : Superblock} {size : Nat} {e : Ext2Inode}
    (reliable : ext2.Reliable) (mounted : Mounted sb) (small : size < word32)
    (found : ∃ inode, env.lookup = .ok inode ∧ isReg inode.mode = true) (memory : ∀ k, env.heap k ≠ 0) :
    Working env (ext2FileFops ext2 sb) fun inode _ => IsFile sb size e inode := by
  refine ⟨found, memory, fun {f count d d' a} isFile short call => ?_⟩
  obtain ⟨a', io', call', _, _, nonneg, _⟩ := ext2FileFops_read reliable mounted small isFile short d
  obtain ⟨rfl, rfl⟩ := EStateM.Result.ok.inj (call.symm.trans call')
  exact nonneg

structure IsOpen (good : Inode → σ → Prop) (size : Nat) (f : File) (s : LoadState σ) : Prop where
  good : good f.inode s.disk
  inside : f.pos ≤ size
  referenced : f.refCount = 1

theorem IsOpen.seek {good : Inode → σ → Prop} {size pos : Nat} {f : File} {s : LoadState σ}
    (isOpen : IsOpen good size f s) (inside : pos ≤ size) : IsOpen good size { f with pos := pos } s :=
  ⟨isOpen.good, inside, isOpen.referenced⟩

/-- Of the mapped memory only free frames have changed hands. -/
structure Quiet (s s' : LoadState σ) : Prop where
  frames : ∃ n, s'.mmu = { s.mmu with pool := s.mmu.pool.drop n }
  allocs : s'.allocs = s.allocs
  log : s'.log = s.log

namespace Quiet

theorem refl (s : LoadState σ) : Quiet s s := ⟨⟨0, rfl⟩, rfl, rfl⟩

theorem trans {s t u : LoadState σ} (first : Quiet s t) (second : Quiet t u) : Quiet s u := by
  obtain ⟨n, frames⟩ := first.frames
  obtain ⟨n', frames'⟩ := second.frames
  refine ⟨⟨n + n', ?_⟩, second.allocs.trans first.allocs, second.log.trans first.log⟩
  rw [frames', frames, List.drop_drop]

theorem takeFrames (env : LoadEnv) (s : LoadState σ) : Quiet s (s.takeFrames env) := ⟨⟨_, rfl⟩, rfl, rfl⟩

theorem tables {s s' : LoadState σ} (quiet : Quiet s s') : s'.mmu.tables = s.mmu.tables := by
  obtain ⟨n, frames⟩ := quiet.frames
  rw [frames]

end Quiet

section Calls

variable {fops : FileOps σ} {size : Nat} {content : Memory} {good : Inode → σ → Prop} {env : LoadEnv} {f : File}
  {s : LoadState σ}

theorem Serves.vfsRead (serves : Serves fops size content good) (env : LoadEnv) (opened : IsOpen good size f s)
    (count : Nat) : ∃ a s', vfsRead env fops f count s = .ok a s' ∧ IsOpen good size a.file s' ∧ Quiet s s' ∧
      s'.held = s.held ∧ Answered size content (min count ssizeMax) f.pos a ∧
      (Working env fops good → 0 ≤ a.ret) := by
  have cut : (if count > ssizeMax then ssizeMax else count) = min count ssizeMax := by
    split_ifs <;> omega
  have regular : ¬ (!isReg f.inode.mode) = true := by simp [serves.regular opened.good]
  have referenced : f.refCount ≠ 0 := by simp [opened.referenced]
  obtain ⟨a, d, read, good', kept, answered⟩ := serves.read opened.good opened.inside (Nat.min_le_right count ssizeMax)
  have inside : a.file.pos ≤ size := by
    have bound : f.pos + bytesLeft size (min count ssizeMax) f.pos ≤ size := by
      have := opened.inside
      rw [bytesLeft]
      omega
    rcases lt_or_ge a.ret 0 with failed | done
    · rw [(answered.failed failed).2.2]
      exact opened.inside
    · rw [(answered.done done).2.2.1]
      exact bound
  refine ⟨a, (s.takeFrames env).withDisk d, ?_, ⟨good', inside, kept.trans opened.referenced⟩, ⟨⟨_, rfl⟩, rfl, rfl⟩,
    rfl, answered, fun working => working.reads opened.good (Nat.min_le_right count ssizeMax) read⟩
  rw [Elf.vfsRead, if_neg regular, if_neg referenced, cut, fromDisk, read]

def seekPos (size offset : Nat) : Nat := if ssizeMax < size then size else min offset size

theorem seekPos_le (size offset : Nat) : seekPos size offset ≤ size := by
  rw [seekPos]
  split_ifs <;> omega

theorem toSize_toSsize {n : Nat} (word : n < word64) : toSize (toSsize n) = n := by
  simp only [toSize, toSsize, ssizeMax, word64] at *
  split_ifs <;> omega

theorem vfsSeek_start (regular : isReg f.inode.mode = true) (word : f.inode.size < word64) {offset : Nat}
    (fits : offset < word64) : vfsSeek f (toSsize offset) seekSet =
      if offset ≤ ssizeMax then
        (toSsize (seekPos f.inode.size offset), { f with pos := seekPos f.inode.size offset })
      else (-eInval, f) := by
  rw [vfsSeek, regular]
  by_cases small : offset ≤ ssizeMax
  · have signed : toSsize offset = offset := if_pos small
    have target : (if toSsize offset > toSsize f.inode.size then toSsize f.inode.size else toSsize offset) =
        toSsize (seekPos f.inode.size offset) := by
      rw [signed, seekPos]
      by_cases big : ssizeMax < f.inode.size
      · have negative : toSsize f.inode.size < 0 := by
          rw [toSsize, if_neg (Nat.not_le.mpr big)]
          omega
        rw [if_pos big, if_pos (by omega)]
      · have least : min offset f.inode.size ≤ ssizeMax := by omega
        rw [if_neg big, toSsize, toSsize, if_pos (Nat.not_lt.mp big), if_pos least]
        split_ifs <;> omega
    have stored := toSize_toSsize (Nat.lt_of_le_of_lt (seekPos_le f.inode.size offset) word)
    simp only [Bool.not_true, Bool.false_eq_true, if_false, seekTarget, if_true, if_pos small, target, stored,
      if_neg (show ¬ toSsize offset < 0 by omega)]
  · have negative : toSsize offset < 0 := by
      rw [toSsize, if_neg small]
      omega
    simp only [Bool.not_true, Bool.false_eq_true, if_false, seekTarget, if_true, if_neg small, if_pos negative]

theorem vfsClose_last (last : f.refCount = 1) (s : LoadState σ) : vfsClose f s = .ok () (s.freed .file) := by
  rw [vfsClose, last, if_pos rfl, kfree]

theorem Quiet.freed (s : LoadState σ) (what : Held) : Quiet s (s.freed what) := ⟨⟨0, rfl⟩, rfl, rfl⟩

theorem Quiet.holding (s : LoadState σ) (what : Held) : Quiet s (s.holding what) := ⟨⟨0, rfl⟩, rfl, rfl⟩

inductive VfsOpenEnds (env : LoadEnv) (fops : FileOps σ) (good : Inode → σ → Prop) (size : Nat) (s : LoadState σ) :
    Except Errno File → LoadState σ → Prop where
  | failed {err : Errno} {s' : LoadState σ} (quiet : Quiet s s') (held : s'.held = s.held)
      (cause : ¬ Working env fops good) : VfsOpenEnds env fops good size s (.error err) s'
  | opened {f : File} {s' : LoadState σ} (isOpen : IsOpen good size f s') (start : f.pos = 0) (quiet : Quiet s s')
      (held : s'.held = .file :: s.held) : VfsOpenEnds env fops good size s (.ok f) s'

theorem vfsOpen_ends (fops : FileOps σ) (size : Nat) (finds : Finds env good s) :
    ∃ out s', vfsOpen env s = .ok out s' ∧ VfsOpenEnds env fops good size s out s' := by
  rw [vfsOpen]
  cases found : env.lookup with
  | error err =>
      refine ⟨_, _, rfl, .failed (.refl s) rfl fun working => ?_⟩
      obtain ⟨inode, there, _⟩ := working.found
      cases found.symm.trans there
  | ok inode =>
      dsimp only
      by_cases other : (!isReg inode.mode) = true
      · rw [if_pos other]
        refine ⟨_, _, rfl, .failed (.refl s) rfl fun working => ?_⟩
        obtain ⟨inode', there, regular⟩ := working.found
        cases found.symm.trans there
        simp [regular] at other
      have regular : isReg inode.mode = true := by simpa using other
      rw [if_neg other, Steps.bind_ok (x := kmalloc env) rfl]
      by_cases none : env.heap s.calls = 0
      · rw [if_pos none]
        exact ⟨_, _, rfl, .failed (.takeFrames env s) rfl fun working => working.memory _ none⟩
      · rw [if_neg none]
        exact ⟨_, _, rfl, .opened ⟨finds inode found regular, Nat.zero_le _, rfl⟩ rfl
          ((Quiet.takeFrames env s).trans (.holding _ _)) rfl⟩

end Calls

/-! The headers -/

theorem ElfHeader.decode_congr {m m' : Memory} (same : ∀ k < sizeofElfHeader, m k = m' k) :
    ElfHeader.decode m = ElfHeader.decode m' := by
  have loads : ∀ a n, a + n ≤ sizeofElfHeader → m.load a n = m'.load a n := fun a n fits =>
    Memory.load_congr fun b _ high => same b (Nat.lt_of_lt_of_le high fits)
  simp only [sizeofElfHeader] at loads
  have magic : (List.range 4).map (fun i => m.load i 1) = (List.range 4).map fun i => m'.load i 1 := by
    refine List.map_congr_left fun i member => loads i 1 ?_
    have := List.mem_range.mp member
    omega
  simp only [decode, magic]
  rw [loads 4 1 (by decide), loads 5 1 (by decide), loads 6 1 (by decide), loads 16 2 (by decide),
    loads 18 2 (by decide), loads 24 8 (by decide), loads 32 8 (by decide), loads 56 2 (by decide)]

theorem ProgramHeader.decode_congr {m m' : Memory} {base base' : Nat}
    (loads : ∀ a n, a + n ≤ sizeofProgramHeader → m.load (base + a) n = m'.load (base' + a) n) :
    ProgramHeader.decode m base = ProgramHeader.decode m' base' := by
  have first : m.load base 4 = m'.load base' 4 := loads 0 4 (by decide)
  simp only [decode]
  rw [first, loads 4 4 (by decide), loads 8 8 (by decide), loads 16 8 (by decide), loads 24 8 (by decide),
    loads 32 8 (by decide), loads 40 8 (by decide), loads 48 8 (by decide)]

theorem programHeaders_read {m : Memory} (content : Memory) (offset : Nat) {count : Nat}
    (same : ∀ k < sizeofProgramHeader * count, m k = content (offset + k)) :
    programHeaders m 0 count = programHeaders content offset count := by
  have loads : ∀ a n, a + n ≤ sizeofProgramHeader * count → m.load a n = content.load (offset + a) n := by
    intro a n fits
    rw [← Memory.load_shift content offset a n]
    exact Memory.load_congr fun b _ high => same b (Nat.lt_of_lt_of_le high fits)
  refine List.map_congr_left fun i member => ?_
  have inside : sizeofProgramHeader * i + sizeofProgramHeader ≤ sizeofProgramHeader * count := by
    rw [← Nat.mul_succ]
    exact Nat.mul_le_mul_left _ (List.mem_range.mp member)
  refine ProgramHeader.decode_congr fun a n fits => ?_
  rw [Nat.zero_add, loads _ n (by omega), Nat.add_assoc]

/-- The file starts with a header that `elf_load` accepts. -/
structure HasHeader (size : Nat) (content : Memory) : Prop where
  complete : sizeofElfHeader ≤ size
  valid : (ElfHeader.decode content).valid = true

/-- The file has the whole table of program headers, and its size is positive as an `ssize_t`. -/
structure HasTable (size : Nat) (content : Memory) : Prop where
  header : HasHeader size content
  near : (ElfHeader.decode content).phoff ≤ ssizeMax
  small : size ≤ ssizeMax
  complete : sizeofProgramHeader * (ElfHeader.decode content).phnum ≤ size - (ElfHeader.decode content).phoff

/-- The exits that return something other than an error number: the size of a file from 2⁶³ bytes on, and the number
of bytes of a table that is cut off. -/
inductive OddExit (size : Nat) (content : Memory) : Nat → Prop where
  | large (header : HasHeader size content) (near : (ElfHeader.decode content).phoff ≤ ssizeMax)
      (large : ssizeMax < size) : OddExit size content size
  | short (header : HasHeader size content) (near : (ElfHeader.decode content).phoff ≤ ssizeMax)
      (small : size ≤ ssizeMax)
      (short : size - (ElfHeader.decode content).phoff < sizeofProgramHeader * (ElfHeader.decode content).phnum) :
      OddExit size content (size - (ElfHeader.decode content).phoff)

inductive ElfOpenEnds (env : LoadEnv) (fops : FileOps σ) (good : Inode → σ → Prop) (size : Nat) (content : Memory)
    (s : LoadState σ) : Except Nat (File × ElfHeader × List ProgramHeader) → LoadState σ → Prop where
  | refused {ptr : Nat} {s' : LoadState σ} (error : isErr ptr = true) (quiet : Quiet s s') (held : s'.held = s.held)
      (cause : Working env fops good → HasHeader size content → ssizeMax < (ElfHeader.decode content).phoff) :
      ElfOpenEnds env fops good size content s (.error ptr) s'
  | odd {ptr : Nat} {s' : LoadState σ} (odd : OddExit size content ptr) (quiet : Quiet s s') (held : s'.held = s.held) :
      ElfOpenEnds env fops good size content s (.error ptr) s'
  | ready {f : File} {s' : LoadState σ} (table : HasTable size content) (isOpen : IsOpen good size f s')
      (quiet : Quiet s s') (held : s'.held = .headers :: .file :: s.held) :
      ElfOpenEnds env fops good size content s (.ok (f, ElfHeader.decode content, programHeaders content
        (ElfHeader.decode content).phoff (ElfHeader.decode content).phnum)) s'

theorem isErr_errPtr {err : Int} (negative : err < 0) (inRange : -(maxErrno : Int) ≤ err) :
    isErr (errPtr err) = true := by
  rw [isErr, decide_eq_true_eq]
  simp only [errPtr, word64, maxErrno] at *
  omega

theorem errPtr_natCast {n : Nat} (word : n < word64) : errPtr (n : Int) = n := by
  simp only [errPtr, word64] at *
  omega

theorem errPtr_toSsize {n : Nat} (word : n < word64) : errPtr (toSsize n) = n := toSize_toSsize word

section Open

variable {fops : FileOps σ} {size : Nat} {content : Memory} {good : Inode → σ → Prop} {env : LoadEnv}
  {s : LoadState σ}

theorem Answered.whole {count offset : Nat} {a : ReadAnswer} (answered : Answered size content count offset a)
    (whole : a.ret = count) : count ≤ size - offset ∧ ∀ k < count, a.bytes k = content (offset + k) := by
  obtain ⟨ret, _, _, bytes⟩ := answered.done (by omega)
  have left : bytesLeft size count offset = count := by omega
  rw [left] at bytes
  refine ⟨?_, bytes⟩
  rw [← left, bytesLeft]
  exact Nat.min_le_right _ _

/-- The test for a whole answer, where the count is far below the error numbers. -/
theorem Answered.toSize_iff {count offset : Nat} {a : ReadAnswer} (answered : Answered size content count offset a)
    (fits : count < 2 ^ 22) : toSize a.ret = count ↔ a.ret = count := by
  rcases lt_or_ge a.ret 0 with failed | done
  · have errno := (answered.failed failed).1
    simp only [toSize, word64, maxErrno] at *
    omega
  · have ret := (answered.done done).1
    simp only [toSize, word64, bytesLeft] at *
    omega

theorem Answered.short {count offset : Nat} {a : ReadAnswer} (answered : Answered size content count offset a)
    (done : 0 ≤ a.ret) (short : a.ret ≠ count) : size - offset < count ∧ a.ret = (size - offset : Nat) := by
  have ret := (answered.done done).1
  rw [bytesLeft] at ret
  omega

theorem ElfHeader.phoff_lt (m : Memory) : (ElfHeader.decode m).phoff < word64 := Memory.load_lt m 32 8

theorem ElfHeader.phnum_lt (m : Memory) : (ElfHeader.decode m).phnum < 2 ^ 16 := Memory.load_lt m 56 2

theorem elfTable_ends (serves : Serves fops size content good) (header : HasHeader size content) {f : File}
    {s₁ : LoadState σ} (isOpen : IsOpen good size f s₁) (quiet : Quiet s s₁) (held : s₁.held = .file :: s.held) :
    ∃ out s', elfTable env fops f (.decode content) s₁ = .ok out s' ∧
      ElfOpenEnds env fops good size content s out s' := by
  have sized := serves.sized isOpen.good
  have sought := vfsSeek_start (serves.regular isOpen.good) (sized ▸ serves.word) (ElfHeader.phoff_lt content)
  have closed : (s₁.freed .file).held = s.held := by
    simp only [LoadState.freed, held, List.erase_cons_head]
  rw [sized] at sought
  by_cases near : (ElfHeader.decode content).phoff ≤ ssizeMax
  swap
  · rw [if_neg near] at sought
    rw [elfTable, sought]
    dsimp only
    rw [if_pos (by decide), Steps.bind_ok (vfsClose_last isOpen.referenced s₁)]
    exact ⟨_, _, rfl, .refused (by decide) (quiet.trans (.freed _ _)) closed fun _ _ => Nat.not_le.mp near⟩
  rw [if_pos near] at sought
  rw [elfTable, sought]
  dsimp only
  by_cases large : ssizeMax < size
  · have negative : toSsize size < 0 := by
      have word := serves.word
      rw [toSsize, if_neg (Nat.not_le.mpr large)]
      omega
    rw [seekPos, if_pos large, if_pos negative,
      Steps.bind_ok (vfsClose_last (f := { f with pos := size }) isOpen.referenced s₁), errPtr_toSsize serves.word]
    exact ⟨_, _, rfl, .odd (.large header near large) (quiet.trans (.freed _ _)) closed⟩
  have small : size ≤ ssizeMax := Nat.not_lt.mp large
  rw [seekPos, if_neg large]
  have signed : toSsize (min (ElfHeader.decode content).phoff size) =
      (min (ElfHeader.decode content).phoff size : Nat) :=
    if_pos (by omega)
  rw [signed, if_neg (by omega), Steps.bind_ok (x := kmalloc env) rfl]
  have sought := isOpen.seek (Nat.min_le_right (ElfHeader.decode content).phoff size)
  have quiet₂ := quiet.trans (.takeFrames env s₁)
  by_cases none : env.heap s₁.calls = 0
  · rw [if_pos none, Steps.bind_ok (vfsClose_last sought.referenced _)]
    exact ⟨_, _, rfl, .refused (by decide) (quiet₂.trans (.freed _ _)) closed fun working =>
      absurd none (working.memory _)⟩
  rw [if_neg none, Steps.bind_ok (x := hold .headers) rfl]
  have quiet₃ := quiet₂.trans (.holding (s₁.takeFrames env) .headers)
  obtain ⟨a, s₄, read, isOpen₄, quiet₄, held₄, answered, fine⟩ :=
    serves.vfsRead (s := (s₁.takeFrames env).holding .headers) env ⟨sought.good, sought.inside, sought.referenced⟩
      (sizeofProgramHeader * (ElfHeader.decode content).phnum)
  have fits : sizeofProgramHeader * (ElfHeader.decode content).phnum < 2 ^ 22 := by
    have := ElfHeader.phnum_lt content
    simp only [sizeofProgramHeader]
    omega
  have cut : min (sizeofProgramHeader * (ElfHeader.decode content).phnum) ssizeMax =
      sizeofProgramHeader * (ElfHeader.decode content).phnum := Nat.min_eq_left (by simp only [ssizeMax]; omega)
  rw [cut] at answered
  rw [Steps.bind_ok read]
  by_cases whole : a.ret = (sizeofProgramHeader * (ElfHeader.decode content).phnum : Nat)
  · obtain ⟨complete, bytes⟩ := answered.whole whole
    dsimp only at complete bytes
    rw [if_neg (not_not.mpr ((answered.toSize_iff fits).mpr whole)),
      programHeaders_read content (ElfHeader.decode content).phoff fun k before => ?_]
    · refine ⟨_, _, rfl, .ready ⟨header, near, small, by omega⟩ isOpen₄ (quiet₃.trans quiet₄) (held₄.trans ?_)⟩
      simp only [LoadState.holding, LoadState.takeFrames, held]
    · rw [bytes k before, Nat.min_eq_left (by omega)]
  · rw [if_pos ((answered.toSize_iff fits).not.mpr whole), Steps.bind_ok (vfsClose_last isOpen₄.referenced s₄),
      Steps.bind_ok (x := kfree .headers) rfl]
    have quiet₅ := (quiet₃.trans quiet₄).trans ((Quiet.freed _ .file).trans (.freed _ .headers))
    have closed₅ : ((s₄.freed .file).freed .headers).held = s.held := by
      simp only [LoadState.freed, held₄, LoadState.holding, LoadState.takeFrames, held]
      rfl
    rcases lt_or_ge a.ret 0 with failed | done
    · exact ⟨_, _, rfl, .refused (isErr_errPtr failed (answered.failed failed).1) quiet₅ closed₅ fun working =>
        absurd (fine working) (Int.not_le.mpr failed)⟩
    · obtain ⟨short, value⟩ := answered.short done whole
      dsimp only at short value
      rw [value, errPtr_natCast (by simp only [word64]; omega)]
      have behind : size - min (ElfHeader.decode content).phoff size = size - (ElfHeader.decode content).phoff := by
        omega
      rw [behind] at short ⊢
      exact ⟨_, _, rfl, .odd (.short header near small short) quiet₅ closed₅⟩

theorem elfOpen_ends (serves : Serves fops size content good) (finds : Finds env good s) :
    ∃ out s', elfOpen env fops s = .ok out s' ∧ ElfOpenEnds env fops good size content s out s' := by
  obtain ⟨out, s₁, call, ends⟩ : ∃ out s', vfsOpen env s = .ok out s' ∧ VfsOpenEnds env fops good size s out s' :=
    vfsOpen_ends fops size finds
  rw [elfOpen, Steps.bind_ok call]
  cases ends with
  | @failed err _ quiet held cause =>
      exact ⟨_, _, rfl, .refused (isErr_errPtr err.negative err.inRange) quiet held fun working => absurd working cause⟩
  | @opened f _ isOpen start quiet held =>
      obtain ⟨a, s₂, read, isOpen₂, quiet₂, held₂, answered, fine⟩ := serves.vfsRead env isOpen sizeofElfHeader
      have quiet₂ := quiet.trans quiet₂
      have held₂ := held₂.trans held
      have closed : (s₂.freed .file).held = s.held := by
        simp only [LoadState.freed, held₂, List.erase_cons_head]
      rw [start, show min sizeofElfHeader ssizeMax = sizeofElfHeader by decide] at answered
      dsimp only
      rw [Steps.bind_ok read]
      by_cases whole : a.ret = sizeofElfHeader
      swap
      · rw [if_pos whole, Steps.bind_ok (vfsClose_last isOpen₂.referenced s₂)]
        refine ⟨_, _, rfl, .refused (by decide) (quiet₂.trans (.freed _ _)) closed fun working header => ?_⟩
        have ret := (answered.done (fine working)).1
        have complete := header.complete
        rw [bytesLeft] at ret
        omega
      obtain ⟨complete, bytes⟩ := answered.whole whole
      have header : ElfHeader.decode a.bytes = ElfHeader.decode content :=
        ElfHeader.decode_congr fun k before => by rw [bytes k before, Nat.zero_add]
      rw [if_neg (not_not.mpr whole), header]
      by_cases valid : (ElfHeader.decode content).valid = true
      · rw [if_neg (by simpa using valid)]
        exact elfTable_ends serves ⟨complete, valid⟩ isOpen₂ quiet₂ held₂
      · rw [if_pos (by simpa using valid), Steps.bind_ok (vfsClose_last isOpen₂.referenced s₂)]
        exact ⟨_, _, rfl, .refused (by decide) (quiet₂.trans (.freed _ _)) closed fun _ header =>
          absurd header.valid valid⟩

end Open

end SnapOS.Elf
