/- The exits of elf_load: what it returns and what it has freed. -/
import SnapOS.ElfSegment

namespace SnapOS.Elf
open SnapOS.Lib SnapOS.Fs SnapOS.Ext2Io SnapOS.Paging

variable {σ : Type} {env : LoadEnv} {fops : FileOps σ} {size : Nat} {content : Memory} {good : Inode → σ → Prop}
  {pgd : Nat}

theorem vmmAllocLoop_negative {pgd : Nat} {prot : Pgprot} {m m' : Mmu} {vaddr size count : Nat} {res : Int}
    (h : Mmu.vmmAllocLoop pgd prot m vaddr size count = .ok (res, m')) (negative : res < 0) : res = -eNoMem := by
  induction size using Nat.strong_induction_on generalizing m vaddr count with
  | h size ih =>
      rw [Mmu.vmmAllocLoop] at h
      split at h
      · next more =>
          obtain ⟨⟨res₁, m₁⟩, one, later⟩ := Exec.bind_eq_ok.mp h
          dsimp only at later
          obtain ⟨_, rfl, rfl⟩ | ⟨_, _, _, rfl, _, _⟩ := vmmAllocPage_ok one
          · cases later
            rfl
          · rw [if_neg (Int.lt_irrefl 0)] at later
            exact ih (size - pageSize) (Nat.sub_lt more (by decide)) later
      · cases h
        omega

theorem vmmAllocRange_negative {pgd vaddr size : Nat} {prot : Pgprot} {m m' : Mmu} {res : Int}
    (h : m.vmmAllocRange pgd vaddr size prot = .ok (res, m')) (negative : res < 0) : res = -eNoMem := by
  simp only [Mmu.vmmAllocRange, isPageAligned_always, Bool.not_true, Bool.false_eq_true, if_false] at h
  exact vmmAllocLoop_negative h negative

theorem toInt_errno {err : Int} (negative : err < 0) (inRange : -(maxErrno : Int) ≤ err) : toInt err = err := by
  rw [toInt]
  simp only [maxErrno] at inRange
  exact Int.bmod_eq_of_le (by omega) (by omega)

section Loop

variable {f : File} {phdr : ProgramHeader} {s s' : LoadState σ} {r : Int × File}

/-- What `load_program_header` leaves to the exits of `elf_load`. -/
structure KeptOpen (good : Inode → σ → Prop) (size : Nat) (s : LoadState σ) (r : Int × File) (s' : LoadState σ) :
    Prop where
  isOpen : IsOpen good size r.2 s'
  held : s'.held = s.held
  inRange : r.1 < 0 → -(maxErrno : Int) ≤ r.1

theorem Copied.answered {count : Int} {m : Mmu} {p : Nat} {a : ReadAnswer} {s₁ : LoadState σ}
    (serves : Serves fops size content good) (isOpen : IsOpen good size f s)
    (copied : Copied env fops pgd f phdr s count m p a s₁) :
    IsOpen good size a.file s₁ ∧ Quiet (s.mapped phdr m) s₁ ∧ s₁.held = s.held ∧
      Answered size content (min phdr.fileSize ssizeMax) p a := by
  have inside := segmentPos_le (serves.sized isOpen.good ▸ isOpen.inside) copied.sought
  have sought : IsOpen good size { f with pos := p } (s.mapped phdr m) :=
    ⟨isOpen.good, serves.sized isOpen.good ▸ inside, isOpen.referenced⟩
  obtain ⟨a', s', read, isOpen', quiet, held, answered, _⟩ := serves.vfsRead env sought phdr.fileSize
  cases copied.read.symm.trans read
  exact ⟨isOpen', quiet, held, answered⟩

theorem SegmentEnds.keptOpen (serves : Serves fops size content good) (isOpen : IsOpen good size f s)
    (ends : SegmentEnds env fops pgd f phdr s r s') : KeptOpen good size s r s' := by
  have sized := serves.sized isOpen.good
  cases ends with
  | skipped other => exact ⟨isOpen, rfl, fun negative => absurd negative (Int.lt_irrefl 0)⟩
  | unmapped asked few =>
      rw [vmmAllocRange_negative asked.call few]
      exact ⟨⟨isOpen.good, isOpen.inside, isOpen.referenced⟩, rfl, fun _ =>
        show -(maxErrno : Int) ≤ toInt (-eNoMem) by decide⟩
  | unsought asked enough far moved =>
      refine ⟨?_, rfl, fun _ => show -(maxErrno : Int) ≤ -eInval by decide⟩
      obtain ⟨p, inside, rfl | rfl⟩ := moved
      · exact ⟨isOpen.good, isOpen.inside, isOpen.referenced⟩
      · exact ⟨isOpen.good, sized ▸ inside, isOpen.referenced⟩
  | unread copied stores failed =>
      obtain ⟨isOpen', _, held, answered⟩ := copied.answered serves isOpen
      have errno := (answered.failed failed).1
      rw [toInt_errno failed errno]
      exact ⟨⟨isOpen'.good, isOpen'.inside, isOpen'.referenced⟩, held, fun _ => errno⟩
  | loaded copied stores done zeros mmu disk held log =>
      obtain ⟨isOpen', _, held', _⟩ := copied.answered serves isOpen
      exact ⟨⟨disk.symm ▸ isOpen'.good, isOpen'.inside, isOpen'.referenced⟩, held.trans held',
        fun negative => absurd negative (Int.lt_irrefl 0)⟩

theorem loadHeaders_keptOpen (serves : Serves fops size content good) {phdrs : List ProgramHeader}
    (words : ∀ phdr ∈ phdrs, phdr.offset < word64) (isOpen : IsOpen good size f s)
    (done : loadHeaders env fops pgd phdrs f s = .ok r s') : KeptOpen good size s r s' := by
  induction phdrs generalizing f s with
  | nil =>
      cases done
      exact ⟨isOpen, rfl, fun negative => absurd negative (Int.lt_irrefl 0)⟩
  | cons phdr rest ih =>
      rw [loadHeaders] at done
      obtain ⟨⟨res, f₁⟩, s₁, one, done⟩ := Steps.bind_eq_ok.mp done
      have kept := (loadProgramHeader_ends (serves.regular isOpen.good) (serves.sized isOpen.good ▸ serves.word)
        (words phdr List.mem_cons_self) one).keptOpen serves isOpen
      dsimp only at done
      split_ifs at done with failed
      · cases done
        exact kept
      · obtain ⟨isOpen', held, inRange⟩ := ih (fun p member => words p (List.mem_cons_of_mem phdr member))
          kept.isOpen done
        exact ⟨isOpen', held.trans kept.held, inRange⟩

end Loop

/-! Every failure -/

/-- Whatever fails, an exit of `elf_load` other than the last returns an error pointer and has given back the file and
the headers. -/
def Recognisable (size : Nat) (content : Memory) : Prop :=
  ∀ (σ : Type) (fops : FileOps σ) (good : Inode → σ → Prop), Serves fops size content good →
    ∀ (env : LoadEnv) (pgd : Nat) (s s' : LoadState σ) (ptr : Nat), Finds env good s →
      elfLoad env fops pgd s = .ok (.failed ptr) s' → isErr ptr = true ∧ s'.held = s.held

/-- The table of a file that is accepted is complete, and the size of the file can be told from an error or from a
position. -/
def Complete (size : Nat) (content : Memory) : Prop :=
  HasHeader size content → (ElfHeader.decode content).phoff ≤ ssizeMax →
    (size ≤ ssizeMax → sizeofProgramHeader * (ElfHeader.decode content).phnum ≤
      size - (ElfHeader.decode content).phoff) ∧
    (ssizeMax < size → word64 - maxErrno ≤ size)

namespace OddExit

variable {size ptr ptr' : Nat} {content : Memory}

theorem header (odd : OddExit size content ptr) : HasHeader size content := by
  cases odd with
  | large header near large => exact header
  | short header near small short => exact header

theorem near (odd : OddExit size content ptr) : (ElfHeader.decode content).phoff ≤ ssizeMax := by
  cases odd with
  | large header near large => exact near
  | short header near small short => exact near

theorem unique (odd : OddExit size content ptr) (odd' : OddExit size content ptr') : ptr = ptr' := by
  cases odd with
  | large header near large =>
      cases odd' with
      | large => rfl
      | short header near small short => exact absurd small (Nat.not_le.mpr large)
  | short header near small short =>
      cases odd' with
      | large header near large => exact absurd small (Nat.not_le.mpr large)
      | short => rfl

theorem not_table (odd : OddExit size content ptr) : ¬ HasTable size content := by
  intro table
  cases odd with
  | large header near large => exact absurd table.small (Nat.not_le.mpr large)
  | short header near small short => exact absurd table.complete (Nat.not_le.mpr short)

end OddExit

theorem OddExit.isErr {size ptr : Nat} {content : Memory} (odd : OddExit size content ptr)
    (complete : Complete size content) : isErr ptr = true := by
  cases odd with
  | large header near large => exact decide_eq_true ((complete header near).2 large)
  | short header near small short => exact absurd ((complete header near).1 small) (Nat.not_le.mpr short)

theorem ProgramHeader.offset_lt (m : Memory) (base : Nat) : (ProgramHeader.decode m base).offset < word64 :=
  Memory.load_lt m (base + 8) 8

theorem programHeaders_offset_lt {m : Memory} {base count : Nat} :
    ∀ phdr ∈ programHeaders m base count, phdr.offset < word64 := by
  intro phdr member
  obtain ⟨i, _, rfl⟩ := List.mem_map.mp member
  exact ProgramHeader.offset_lt m _

section Exits

variable {s s' : LoadState σ}

theorem recognisable_of_complete (complete : Complete size content) (serves : Serves fops size content good)
    (finds : Finds env good s) {ptr : Nat} (done : elfLoad env fops pgd s = .ok (.failed ptr) s') :
    isErr ptr = true ∧ s'.held = s.held := by
  obtain ⟨out, s₁, call, ends⟩ := elfOpen_ends serves finds
  rw [elfLoad, Steps.bind_ok call] at done
  cases ends with
  | refused error quiet held cause =>
      cases done
      exact ⟨error, held⟩
  | odd odd quiet held =>
      cases done
      exact ⟨odd.isErr complete, held⟩
  | ready table isOpen quiet held =>
      obtain ⟨⟨res, f⟩, s₂, loop, done⟩ := Steps.bind_eq_ok.mp done
      obtain ⟨isOpen₂, held₂, inRange⟩ := loadHeaders_keptOpen serves programHeaders_offset_lt isOpen loop
      dsimp only at done isOpen₂ inRange
      split_ifs at done with failed
      · rw [Steps.bind_ok (vfsClose_last isOpen₂.referenced s₂), Steps.bind_ok (x := kfree .headers) rfl] at done
        cases done
        refine ⟨isErr_errPtr failed (inRange failed), ?_⟩
        simp only [LoadState.freed, held₂, held]
        rfl
      · obtain ⟨_, s₃, _, done⟩ := Steps.bind_eq_ok.mp done
        obtain ⟨_, s₄, _, done⟩ := Steps.bind_eq_ok.mp done
        cases done

/-- Where nothing else fails, `elf_load` comes to the odd exit. -/
theorem elfLoad_odd (pgd : Nat) (serves : Serves fops size content good) (finds : Finds env good s)
    (working : Working env fops good) {ptr : Nat} (odd : OddExit size content ptr) :
    ∃ s', elfLoad env fops pgd s = .ok (.failed ptr) s' := by
  obtain ⟨out, s₁, call, ends⟩ := elfOpen_ends serves finds
  rw [elfLoad, Steps.bind_ok call]
  cases ends with
  | refused error quiet held cause =>
      have far := cause working odd.header
      exact absurd odd.near (Nat.not_le.mpr far)
  | odd odd' quiet held => exact ⟨s₁, by rw [odd.unique odd']; rfl⟩
  | ready table isOpen quiet held => exact absurd table odd.not_table

end Exits

/-- A file of ext2 whose table is cut off takes the odd exit on every device that answers. -/
theorem elfLoad_ext2_odd {env : LoadEnv} {ext2 : Env} {sb : Superblock} {inode : Inode} {s : LoadState Io} (pgd : Nat)
    (reliable : ext2.Reliable) (mounted : Mounted sb) (found : env.lookup = .ok inode)
    (isFile : IsFile sb inode.size inode.ext2Inode inode) (small : inode.size < word32) (memory : ∀ k, env.heap k ≠ 0)
    {ptr : Nat} (odd : OddExit inode.size (takenByte sb inode.ext2Inode) ptr) :
    ∃ s', elfLoad env (ext2FileFops ext2 sb) pgd s = .ok (.failed ptr) s' := by
  refine elfLoad_odd pgd (ext2FileFops_serves reliable mounted small inode.ext2Inode) ?_
    (ext2FileFops_working reliable mounted small ⟨inode, found, isFile.regular⟩ memory) odd
  intro inode' found' _
  rw [← Except.ok.inj (found.symm.trans found')]
  exact isFile

/-! A file system that never fails -/

def plainFops (content : Memory) : FileOps Unit where
  read f count :=
    let left := bytesLeft f.inode.size count f.pos
    pure ⟨left, left, fun k => content (f.pos + k), { f with pos := f.pos + left }⟩

def plainGood (size : Nat) (inode : Inode) (_ : Unit) : Prop := isReg inode.mode = true ∧ inode.size = size

def plainEnv (size : Nat) : LoadEnv := ⟨.ok (fileOf size [] 0), fun k => k + 1, fun _ => 0⟩

def plainState (m : Mmu) : LoadState Unit := ⟨(), m, .noAllocs, 0, [], []⟩

theorem plainServes {size : Nat} (word : size < word64) (content : Memory) :
    Serves (plainFops content) size content (plainGood size) := by
  refine ⟨word, fun good => good.1, fun good => good.2, fun {f d count} good _ _ => ?_⟩
  refine ⟨_, d, rfl, good, rfl, ?_, ?_⟩
  · intro failed
    exact absurd failed (Int.not_lt.mpr (Int.natCast_nonneg _))
  · intro _
    rw [good.2]
    exact ⟨rfl, rfl, rfl, fun _ _ => rfl⟩

theorem plainFinds (size : Nat) (m : Mmu) : Finds (plainEnv size) (plainGood size) (plainState m) := by
  intro inode found regular
  cases found
  exact ⟨regular, rfl⟩

theorem plainWorking (size : Nat) (content : Memory) :
    Working (plainEnv size) (plainFops content) (plainGood size) := by
  refine ⟨⟨fileOf size [] 0, rfl, (by decide : isReg sIfreg = true)⟩, fun k => Nat.succ_ne_zero k, fun _ _ read => ?_⟩
  cases read
  exact Int.natCast_nonneg _

def noTables : Mmu := ⟨fun _ _ => 0, [], false⟩

/-- elf_load's failures are recognisable exactly for the files whose table is complete: a short read of the table is
returned as it is, and so is the size of a file from 2⁶³ bytes on. -/
theorem recognisable_iff {size : Nat} (word : size < word64) (content : Memory) :
    Recognisable size content ↔ Complete size content := by
  constructor
  · intro recognisable header near
    have fails : ∀ {ptr}, OddExit size content ptr → isErr ptr = true := by
      intro ptr odd
      obtain ⟨s', done⟩ := elfLoad_odd 0 (plainServes word content) (plainFinds size noTables)
        (plainWorking size content) odd
      exact (recognisable Unit _ _ (plainServes word content) _ _ _ _ _ (plainFinds size noTables) done).1
    refine ⟨fun small => ?_, fun large => ?_⟩
    · by_contra short
      have error := fails (.short header near small (Nat.not_le.mp short))
      have few := ElfHeader.phnum_lt content
      rw [isErr, decide_eq_true_eq] at error
      simp only [sizeofProgramHeader, word64, maxErrno] at error short
      omega
    · exact of_decide_eq_true (fails (.large header near large))
  · intro complete σ fops good serves env pgd s s' ptr finds done
    exact recognisable_of_complete complete serves finds done

/-- A file with this entry point and these program headers behind the header. -/
def elfFile (entry : Nat) (phdrs : List ProgramHeader) : Memory :=
  let header : Memory := fun _ => 0
  let header := ((header.store 0 8 0x00010102464C457F).store 16 2 elfTypeExec).store 18 2 elfTargetMachine
  let header := ((header.store 24 8 entry).store 32 8 sizeofElfHeader).store 56 2 phdrs.length
  fun k =>
    if k < sizeofElfHeader then header k
    else
      match phdrs[(k - sizeofElfHeader) / sizeofProgramHeader]? with
      | none => 0
      | some phdr =>
          let bytes : Memory := fun _ => 0
          let bytes := ((bytes.store 0 4 phdr.type).store 4 4 phdr.flags).store 8 8 phdr.offset
          let bytes := ((bytes.store 16 8 phdr.vaddr).store 24 8 phdr.paddr).store 32 8 phdr.fileSize
          let bytes := (bytes.store 40 8 phdr.memSize).store 48 8 phdr.align
          bytes ((k - sizeofElfHeader) % sizeofProgramHeader)

def textHeader : ProgramHeader := ⟨elfPhdrLoad, 7, 0, 0x400000, 0x400000, 120, 120, 0x1000⟩

theorem recognisable_iff_text : Recognisable 120 (elfFile 0x400000 [textHeader]) := by
  refine (recognisable_iff (by decide) _).mpr fun _ _ => ⟨fun _ => ?_, fun large => absurd large (by decide)⟩
  decide +kernel

/-- The header of a program without its table: elf_load returns the null pointer, which is no error pointer. -/
theorem cut_table_not_error :
    (∃ s', elfLoad (plainEnv 64) (plainFops (elfFile 0x400000 [textHeader])) 0x1000 (plainState noTables) =
        .ok (.failed 0) s') ∧
      isErr 0 = false ∧ ¬ Recognisable 64 (elfFile 0x400000 [textHeader]) := by
  have odd : OddExit 64 (elfFile 0x400000 [textHeader]) 0 :=
    .short ⟨by decide, by decide +kernel⟩ (by decide +kernel) (by decide) (by decide +kernel)
  obtain ⟨s', done⟩ := elfLoad_odd 0x1000 (plainServes (by decide) _) (plainFinds 64 noTables)
    (plainWorking 64 (elfFile 0x400000 [textHeader])) odd
  refine ⟨⟨s', done⟩, by decide, fun recognisable => ?_⟩
  have error := (recognisable Unit _ _ (plainServes (by decide) _) _ _ _ _ _ (plainFinds 64 noTables) done).1
  exact absurd error (by decide)

end SnapOS.Elf
