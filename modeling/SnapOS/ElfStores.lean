/- The stores of load_program_header against the pages that it has mapped for the segment. -/
import SnapOS.ElfExits
import SnapOS.FreshPages

namespace SnapOS.Elf
open SnapOS.Lib SnapOS.Fs SnapOS.Ext2Io SnapOS.Paging

variable {σ : Type}

/-! Addresses -/

/-- `n` addresses from `v` on without a hole. They may go over the top of the address space. -/
def CanonicalRun (v n : Nat) : Prop :=
  v + n ≤ 0x800000000000 ∨ 0xFFFF800000000000 ≤ v ∧ v + n ≤ word64 + 0x800000000000

theorem canonicalRun_iff {v n : Nat} (positive : 0 < n) (word : v < word64) :
    (∀ i < n, Canonical ((v + i) % word64)) ↔ CanonicalRun v n := by
  simp only [Canonical, CanonicalRun, word64] at *
  constructor
  · intro all
    have first := all 0 positive
    by_cases low : v < 0x800000000000
    · have last := all (0x800000000000 - v)
      omega
    · have last := all (2 ^ 64 + 0x800000000000 - v)
      omega
  · intro run i before
    omega

theorem pageAlignUp_lt (size : Nat) : pageAlignUp size ≤ word64 - pageSize := by
  simp only [pageAlignUp, pageAlignDown, pageSize, word64]
  omega

theorem inPages_iff (v size x : Nat) : InPages (pageAlignDown v) size ((v + x) % word64) ↔
    (v % pageSize + x) % word64 < pageAlignUp size := by
  have bound := pageAlignUp_lt size
  have whole := pageAlignUp_mod size
  simp only [InPages]
  generalize pageAlignUp size = total at *
  simp only [pageAlignDown, pageSize, word64] at *
  constructor
  · rintro ⟨k, before, same⟩
    omega
  · intro inside
    exact ⟨(v % 4096 + x) % 2 ^ 64 / 4096, by omega, by omega⟩

theorem inPages_run {v j n : Nat} (size : Nat) (positive : 0 < n) (word : j + n ≤ word64) :
    (∀ i < n, InPages (pageAlignDown v) size ((v + (j + i)) % word64)) ↔
      v % pageSize + j + n ≤ pageAlignUp size ∨
        word64 ≤ v % pageSize + j ∧ v % pageSize + j + n ≤ word64 + pageAlignUp size := by
  have bound := pageAlignUp_lt size
  have offset : v % pageSize < pageSize := Nat.mod_lt _ (by decide)
  simp only [inPages_iff]
  generalize pageAlignUp size = total at *
  generalize v % pageSize = off at *
  simp only [pageSize, word64] at *
  constructor
  · intro all
    have first := all 0 positive
    by_cases above : 2 ^ 64 ≤ off + j
    · have last := all (2 ^ 64 + total - (off + j))
      omega
    · have last := all (total - (off + j))
      omega
  · intro run i before
    omega

theorem InPages.among {vaddr size a : Nat} (inside : InPages vaddr size a) :
    Among vaddr (pageAlignUp size / pageSize) a := by
  obtain ⟨k, before, same⟩ := inside
  refine ⟨k, before, ?_⟩
  rw [← same, SameBlock, span_zero]
  simp only [pageAlignDown, pageSize, addressBits]
  omega

/-! What a call stores -/

structure MapsPages (m : Mmu) (pgd : Nat) (phdr : ProgramHeader) (count : Int) (m' : Mmu) : Prop where
  loadable : phdr.loadable = true
  call : m.vmmAllocRange pgd (pageAlignDown phdr.vaddr) phdr.mappedSize phdr.prot = .ok (count, m')
  enough : 0 ≤ count

section Run

variable {env : LoadEnv} {fops : FileOps σ} {size : Nat} {content : Memory} {good : Inode → σ → Prop} {pgd : Nat}
  {f : File} {phdr : ProgramHeader} {s : LoadState σ} {m' : Mmu} {count : Int} {p : Nat}

theorem loadProgramHeader_copies (regular : isReg f.inode.mode = true) (word : f.inode.size < word64)
    (fits : phdr.offset < word64) (maps : MapsPages s.mmu pgd phdr count m')
    (sought : segmentPos f.inode.size f.pos phdr.offset = some p) :
    loadProgramHeader env fops pgd f phdr s =
      copySegment env fops pgd { f with pos := p } phdr count (s.mapped phdr m') := by
  have cases_ := loadProgramHeader_cases env fops pgd s regular word fits
  generalize loadProgramHeader env fops pgd f phdr s = result at cases_
  cases cases_ with
  | skipped other => cases other.symm.trans maps.loadable
  | panics loadable call => cases call.symm.trans maps.call
  | unmapped asked few =>
      cases asked.call.symm.trans maps.call
      exact absurd few (Int.not_lt.mpr maps.enough)
  | unsought asked enough far moved => cases far.symm.trans sought
  | copies asked enough sought' =>
      cases asked.call.symm.trans maps.call
      cases sought'.symm.trans sought
      rfl

theorem loadProgramHeader_idle (env : LoadEnv) (fops : FileOps σ) (pgd : Nat) (regular : isReg f.inode.mode = true)
    (word : f.inode.size < word64)
    (fits : phdr.offset < word64)
    (idle : ∀ count m' p, MapsPages s.mmu pgd phdr count m' → segmentPos f.inode.size f.pos phdr.offset ≠ some p) :
    ∃ events, ((loadProgramHeader env fops pgd f phdr).final s).log = s.log ++ events ∧
      ∀ e ∈ events, ∃ before vaddr size prot, e = .map before vaddr size prot := by
  have asked : ∃ events, (s.logged (.map s.mmu (pageAlignDown phdr.vaddr) phdr.mappedSize phdr.prot)).log =
      s.log ++ events ∧ ∀ e ∈ events, ∃ before vaddr size prot, e = LoadEvent.map before vaddr size prot :=
    ⟨_, rfl, List.forall_mem_singleton.mpr ⟨_, _, _, _, rfl⟩⟩
  have cases_ := loadProgramHeader_cases env fops pgd s regular word fits
  rw [Steps.final]
  generalize loadProgramHeader env fops pgd f phdr s = result at cases_
  cases cases_ with
  | skipped other => exact ⟨[], (List.append_nil _).symm, List.forall_mem_nil _⟩
  | panics loadable call => exact asked
  | unmapped _ _ => exact asked
  | unsought _ _ _ _ => exact asked
  | copies made enough sought => exact absurd sought (idle _ _ _ ⟨made.loadable, made.call, enough⟩)

theorem Quiet.accessible {s s' : LoadState σ} (quiet : Quiet s s') (pgd : Nat) {a : Nat} :
    Accessible s' pgd a ↔ Accessible s pgd a := by
  rw [Accessible, Accessible, quiet.tables, quiet.log]

theorem store_ok {vaddr length : Nat} {bytes : Memory}
    (access : ∀ i < length, Accessible s pgd ((vaddr + i) % word64)) :
    store pgd vaddr length bytes s = .ok () (s.logged (.store vaddr length bytes)) := if_pos access

theorem store_faults {vaddr length : Nat} {bytes : Memory}
    (fault : ¬ ∀ i < length, Accessible s pgd ((vaddr + i) % word64)) :
    store pgd vaddr length bytes s = .error .outOfBounds (s.logged (.store vaddr length bytes)) := if_neg fault

def Still (s t : LoadState σ) : Prop := t.log = s.log ∧ t.mmu.tables = s.mmu.tables

theorem Still.refl (s : LoadState σ) : Still s s := ⟨rfl, rfl⟩

theorem Still.trans (s t u : LoadState σ) (first : Still s t) (second : Still t u) : Still s u :=
  ⟨second.1.trans first.1, second.2.trans first.2⟩

theorem mmAddAlloc_still (env : LoadEnv) (addr pageCount : Nat) :
    Steps.Leads Still (fun _ => True) (fun _ => True) (mmAddAlloc env addr pageCount : Steps (LoadState σ) Int) := by
  refine .bind Still.trans (Q := fun _ => True) ?_ fun ptr _ => ?_
  · intro s
    refine ⟨?_, ?_⟩
    · rintro _ _ ⟨⟩
      exact ⟨⟨rfl, rfl⟩, trivial⟩
    · rintro _ _ ⟨⟩
  · intro s
    rw [onAllocs]
    cases s.allocs.mmAddAlloc ptr addr pageCount with
    | ok r =>
        refine ⟨?_, ?_⟩
        · rintro _ _ ⟨⟩
          exact ⟨⟨rfl, rfl⟩, trivial⟩
        · rintro _ _ ⟨⟩
    | error fault =>
        refine ⟨?_, ?_⟩
        · rintro _ _ ⟨⟩
        · rintro _ _ ⟨⟩
          exact ⟨.refl s, trivial⟩

/-- The tail is asked for whether its pages are there or not. -/
theorem zeroFill_final (pgd : Nat) (phdr : ProgramHeader) (s : LoadState σ) {α : Type}
    (rest : Unit → Steps (LoadState σ) α)
    (still : Steps.Leads Still (fun _ => True) (fun _ => True) (rest ())) :
    ((zeroFill pgd phdr >>= rest).final s).log = s.log ++ zeroTail phdr ∧
      ((zeroFill pgd phdr >>= rest).final s).mmu.tables = s.mmu.tables := by
  rw [zeroFill, zeroTail]
  by_cases tail : phdr.memSize > phdr.fileSize
  · rw [if_pos tail, if_pos tail]
    by_cases access : ∀ i < phdr.memSize - phdr.fileSize,
        Accessible s pgd (((phdr.vaddr + phdr.fileSize) % word64 + i) % word64)
    · rw [Steps.final_bind (store_ok access)]
      exact still.final _
    · rw [Steps.final, Steps.bind_error (store_faults access)]
      exact ⟨rfl, rfl⟩
  · rw [if_neg tail, if_neg tail, Steps.final_bind (Steps.pure_apply () s), List.append_nil]
    exact still.final s

theorem copySegment_final (env : LoadEnv) (pgd : Nat) (phdr : ProgramHeader) (count : Int)
    (serves : Serves fops size content good) (isOpen : IsOpen good size f s) :
    ∃ a, Answered size content (min phdr.fileSize ssizeMax) f.pos a ∧ (Working env fops good → 0 ≤ a.ret) ∧
      ((copySegment env fops pgd f phdr count).final s).mmu.tables = s.mmu.tables ∧
      ((copySegment env fops pgd f phdr count).final s).log =
        s.log ++ .store phdr.vaddr a.stored a.bytes ::
          if (∀ i < a.stored, Accessible s pgd ((phdr.vaddr + i) % word64)) ∧ 0 ≤ a.ret then zeroTail phdr else [] := by
  obtain ⟨a, s₁, read, _, quiet, _, answered, fine⟩ := serves.vfsRead env isOpen phdr.fileSize
  refine ⟨a, answered, fine, ?_⟩
  rw [copySegment, Steps.final_bind read, ← quiet.tables, ← quiet.log]
  simp only [← quiet.accessible pgd]
  by_cases access : ∀ i < a.stored, Accessible s₁ pgd ((phdr.vaddr + i) % word64)
  swap
  · rw [Steps.final, Steps.bind_error (store_faults access), if_neg fun both => access both.1]
    exact ⟨rfl, rfl⟩
  rw [Steps.final_bind (store_ok access)]
  by_cases failed : a.ret < 0
  · rw [if_pos failed, if_neg fun both => absurd failed (Int.not_lt.mpr both.2)]
    exact ⟨rfl, rfl⟩
  rw [if_neg failed, if_pos ⟨access, Int.not_lt.mp failed⟩]
  have still : Steps.Leads Still (fun _ => True) (fun _ => True)
      (mmAddAlloc env (pageAlignDown phdr.vaddr) count.toNat >>= fun _ =>
        (pure (0, a.file) : Steps (LoadState σ) (Int × File))) :=
    .bind Still.trans (mmAddAlloc_still env _ _) fun _ _ => .pure Still.refl trivial
  obtain ⟨log, tables⟩ := zeroFill_final pgd phdr (s₁.logged (.store phdr.vaddr a.stored a.bytes))
    (fun _ => mmAddAlloc env (pageAlignDown phdr.vaddr) count.toNat >>= fun _ => pure (0, a.file)) still
  refine ⟨tables, log.trans ?_⟩
  simp [LoadState.logged]

end Run

/-! Every stored byte -/

structure ProgramHeader.Words (phdr : ProgramHeader) : Prop where
  offset : phdr.offset < word64
  vaddr : phdr.vaddr < word64
  fileSize : phdr.fileSize < word64
  memSize : phdr.memSize < word64

/-- The byte is in a page of the header that its call of `vmm_alloc_range` has just mapped. -/
structure OwnByte (before after : Mmu) (pgd : Nat) (phdr : ProgramHeader) (a : Nat) : Prop where
  inPages : InPages (pageAlignDown phdr.vaddr) phdr.mappedSize a
  canonical : Canonical a
  fresh : translate before.tables pgd a = none
  mapped : (translate after.tables pgd a).isSome

def segmentBytes (size : Nat) (phdr : ProgramHeader) (p : Nat) : Nat := bytesLeft size (min phdr.fileSize ssizeMax) p

/-- Whatever the file system and the heap do, a call with these page tables and with the file at this position stores
to its own pages only. -/
def OwnStores (size : Nat) (content : Memory) (pos : Nat) (m : Mmu) (pgd : Nat) (phdr : ProgramHeader) : Prop :=
  ∀ (σ : Type) (fops : FileOps σ) (good : Inode → σ → Prop), Serves fops size content good →
    ∀ (env : LoadEnv) (f : File) (s : LoadState σ), IsOpen good size f s → f.pos = pos → s.mmu = m →
      ∀ vaddr length bytes,
        .store vaddr length bytes ∈ ((loadProgramHeader env fops pgd f phdr).final s).log.drop s.log.length →
        ∀ i < length, OwnByte m ((loadProgramHeader env fops pgd f phdr).final s).mmu pgd phdr ((vaddr + i) % word64)

/-- `n` bytes of the file and the zeros behind them fit into the pages that are mapped for `mem_size`. The zeros may
also start behind the top of the address space. -/
structure Fits (phdr : ProgramHeader) (n : Nat) : Prop where
  bytes : 0 < n → phdr.vaddr % pageSize + n ≤ pageAlignUp phdr.mappedSize ∧ CanonicalRun phdr.vaddr n
  zeros : phdr.fileSize < phdr.memSize →
    (phdr.vaddr % pageSize + phdr.memSize ≤ pageAlignUp phdr.mappedSize ∨
      word64 ≤ phdr.vaddr % pageSize + phdr.fileSize ∧
        phdr.vaddr % pageSize + phdr.memSize ≤ word64 + pageAlignUp phdr.mappedSize) ∧
    CanonicalRun ((phdr.vaddr + phdr.fileSize) % word64) (phdr.memSize - phdr.fileSize)

section Own

variable {phdr : ProgramHeader} {m m' after : Mmu} {pgd : Nat} {count : Int}

theorem MapsPages.own (tree : WellFormedTree m pgd) (words : phdr.Words) (maps : MapsPages m pgd phdr count m')
    (tables : after.tables = m'.tables) {a : Nat} (inPages : InPages (pageAlignDown phdr.vaddr) phdr.mappedSize a)
    (canonical : Canonical a) : OwnByte m after pgd phdr a := by
  have start : pageAlignDown phdr.vaddr < word64 := Nat.lt_of_le_of_lt (Nat.div_mul_le_self _ _) words.vaddr
  obtain ⟨_, mapped, _, outcome, fresh⟩ := tree.allocRange rfl start maps.call
  have negative : -eNoMem < 0 := by decide
  have enough := maps.enough
  obtain ⟨_, rfl⟩ := outcome.resolve_left (by omega)
  obtain ⟨_, _, _, found⟩ := fresh.mapped a inPages.among
  refine ⟨inPages, canonical, fresh.fresh a inPages.among, ?_⟩
  rw [tables, found]
  rfl

theorem OwnByte.accessible {s : LoadState σ} {a : Nat} (own : OwnByte s.mmu m' pgd phdr a) :
    Accessible (s.mapped phdr m') pgd a :=
  ⟨own.canonical, own.mapped, Or.inr ⟨_, List.mem_append_right _ (List.mem_singleton.mpr rfl), own.inPages⟩⟩

theorem bytes_iff (words : phdr.Words) {n : Nat} (small : n ≤ ssizeMax) :
    (∀ i < n, InPages (pageAlignDown phdr.vaddr) phdr.mappedSize ((phdr.vaddr + i) % word64) ∧
        Canonical ((phdr.vaddr + i) % word64)) ↔
      (0 < n → phdr.vaddr % pageSize + n ≤ pageAlignUp phdr.mappedSize ∧ CanonicalRun phdr.vaddr n) := by
  by_cases positive : 0 < n
  swap
  · exact iff_of_true (fun i before => absurd before (by omega)) fun some => absurd some positive
  have offset : phdr.vaddr % pageSize < pageSize := Nat.mod_lt _ (by decide)
  have run := inPages_run (v := phdr.vaddr) (j := 0) phdr.mappedSize positive
    (by simp only [ssizeMax, word64] at *; omega)
  simp only [Nat.zero_add, Nat.add_zero] at run
  simp only [forall_and, run, canonicalRun_iff positive words.vaddr, positive, true_implies]
  refine and_congr_left fun _ => or_iff_left fun above => ?_
  simp only [pageSize, word64] at *
  omega

theorem zeros_iff (words : phdr.Words) (tail : phdr.fileSize < phdr.memSize) :
    (∀ i < phdr.memSize - phdr.fileSize,
        InPages (pageAlignDown phdr.vaddr) phdr.mappedSize (((phdr.vaddr + phdr.fileSize) % word64 + i) % word64) ∧
          Canonical (((phdr.vaddr + phdr.fileSize) % word64 + i) % word64)) ↔
      (phdr.vaddr % pageSize + phdr.memSize ≤ pageAlignUp phdr.mappedSize ∨
        word64 ≤ phdr.vaddr % pageSize + phdr.fileSize ∧
          phdr.vaddr % pageSize + phdr.memSize ≤ word64 + pageAlignUp phdr.mappedSize) ∧
      CanonicalRun ((phdr.vaddr + phdr.fileSize) % word64) (phdr.memSize - phdr.fileSize) := by
  have positive : 0 < phdr.memSize - phdr.fileSize := by omega
  have memSize := words.memSize
  have run := inPages_run (v := phdr.vaddr) (j := phdr.fileSize) phdr.mappedSize positive (by omega)
  have ends : phdr.vaddr % pageSize + phdr.fileSize + (phdr.memSize - phdr.fileSize) =
      phdr.vaddr % pageSize + phdr.memSize := by omega
  have same : ∀ i, ((phdr.vaddr + phdr.fileSize) % word64 + i) % word64 =
      (phdr.vaddr + (phdr.fileSize + i)) % word64 := by
    intro i
    rw [Nat.mod_add_mod, Nat.add_assoc]
  rw [ends] at run
  rw [forall₂_and, canonicalRun_iff positive (Nat.mod_lt _ (by decide)), ← run]
  simp only [same]

end Own

section Stores

variable {size pos pgd p : Nat} {content : Memory} {phdr : ProgramHeader} {m m' : Mmu} {count : Int}

theorem ownStores_of_fits (tree : WellFormedTree m pgd) (words : phdr.Words)
    (fits : ∀ count m' p, MapsPages m pgd phdr count m' → segmentPos size pos phdr.offset = some p →
      Fits phdr (segmentBytes size phdr p)) : OwnStores size content pos m pgd phdr := by
  rintro σ fops good serves env f s isOpen rfl rfl vaddr length bytes member i before
  have regular := serves.regular isOpen.good
  have sized := serves.sized isOpen.good
  have word : f.inode.size < word64 := sized ▸ serves.word
  by_cases reached : ∃ count m' p, MapsPages s.mmu pgd phdr count m' ∧ segmentPos size f.pos phdr.offset = some p
  swap
  · obtain ⟨events, log, maps⟩ := loadProgramHeader_idle (s := s) env fops pgd regular word
      words.offset fun count m' p maps sought => reached ⟨count, m', p, maps, sized ▸ sought⟩
    rw [log, List.drop_left] at member
    obtain ⟨_, _, _, _, other⟩ := maps _ member
    cases other
  obtain ⟨count, m', p, maps, sought⟩ := reached
  obtain ⟨first, second⟩ := fits count m' p maps sought
  have inside := segmentPos_le isOpen.inside sought
  have isOpen' : IsOpen good size { f with pos := p } (s.mapped phdr m') := ⟨isOpen.good, inside, isOpen.referenced⟩
  obtain ⟨a, answered, -, tables, log⟩ := copySegment_final env pgd phdr count serves isOpen'
  rw [Steps.final_of_eq (loadProgramHeader_copies regular word words.offset maps (sized.symm ▸ sought))] at member ⊢
  have stored : a.stored ≤ segmentBytes size phdr p := by
    rcases lt_or_ge a.ret 0 with failed | done
    · exact (answered.failed failed).2.1
    · exact (answered.done done).2.1.le
  have small : segmentBytes size phdr p ≤ ssizeMax := by
    rw [segmentBytes, bytesLeft]
    omega
  -- The new events are the call, the bytes of the file and maybe the zeros.
  have events : LoadEvent.store vaddr length bytes ∈ LoadEvent.store phdr.vaddr a.stored a.bytes :: zeroTail phdr := by
    have asked : (s.mapped phdr m').log =
        s.log ++ [.map s.mmu (pageAlignDown phdr.vaddr) phdr.mappedSize phdr.prot] := rfl
    rw [log, asked, List.append_assoc, List.drop_left] at member
    rcases List.mem_append.mp member with call | later
    · cases List.mem_singleton.mp call
    · refine List.mem_cons.mpr ((List.mem_cons.mp later).imp_right fun zeros => ?_)
      split at zeros
      · exact zeros
      · cases zeros
  rcases List.mem_cons.mp events with same | zeros
  · cases same
    obtain ⟨inPages, canonical⟩ := (bytes_iff words small).mpr first i (Nat.lt_of_lt_of_le before stored)
    exact maps.own tree words tables inPages canonical
  · rw [zeroTail] at zeros
    split_ifs at zeros with tail
    · cases List.mem_singleton.mp zeros
      obtain ⟨inPages, canonical⟩ := (zeros_iff words tail).mpr (second tail) i before
      exact maps.own tree words tables inPages canonical
    · cases zeros

theorem fits_of_ownStores (tree : WellFormedTree m pgd) (words : phdr.Words) (word : size < word64)
    (inside : pos ≤ size)
    (own : OwnStores size content pos m pgd phdr) (maps : MapsPages m pgd phdr count m')
    (sought : segmentPos size pos phdr.offset = some p) : Fits phdr (segmentBytes size phdr p) := by
  -- A file system that does not fail shows both stores.
  have serves := plainServes word content
  have isOpen : IsOpen (plainGood size) size { openedFile (fileOf size [] 0) with pos := pos } (plainState m) :=
    ⟨⟨(by decide : isReg sIfreg = true), rfl⟩, inside, rfl⟩
  have isOpen' : IsOpen (plainGood size) size { openedFile (fileOf size [] 0) with pos := p }
      ((plainState m).mapped phdr m') := ⟨isOpen.good, segmentPos_le inside sought, rfl⟩
  obtain ⟨a, answered, fine, tables, log⟩ := copySegment_final (plainEnv size) pgd phdr count serves isOpen'
  obtain ⟨-, stored, -, -⟩ := answered.done (fine (plainWorking size content))
  have stores := own Unit (plainFops content) (plainGood size) serves (plainEnv size) _ (plainState m) isOpen rfl rfl
  rw [Steps.final_of_eq (loadProgramHeader_copies isOpen.good.1 word words.offset maps sought), log] at stores
  have small : segmentBytes size phdr p ≤ ssizeMax := by
    rw [segmentBytes, bytesLeft]
    omega
  have bytes := stores phdr.vaddr a.stored a.bytes (by simp [LoadState.mapped, LoadState.logged, plainState])
  rw [stored] at bytes
  have access : ∀ i < a.stored, Accessible ((plainState m).mapped phdr m') pgd ((phdr.vaddr + i) % word64) := by
    intro i before
    rw [stored] at before
    have byte := bytes i before
    exact (maps.own tree words rfl byte.inPages byte.canonical).accessible (s := plainState m)
  refine ⟨(bytes_iff words small).mp fun i before => ⟨(bytes i before).inPages, (bytes i before).canonical⟩, ?_⟩
  intro tail
  have zeros := stores ((phdr.vaddr + phdr.fileSize) % word64) (phdr.memSize - phdr.fileSize) (fun _ => 0) (by
    rw [if_pos ⟨access, fine (plainWorking size content)⟩, zeroTail, if_pos tail]
    simp [LoadState.mapped, LoadState.logged, plainState])
  exact (zeros_iff words tail).mp fun i before => ⟨(zeros i before).inPages, (zeros i before).canonical⟩

/-- load_program_header keeps to its own pages exactly if the bytes that there are in the file, and the zeros, fit into
the pages that it maps for `mem_size`. -/
theorem ownStores_iff (tree : WellFormedTree m pgd) (words : phdr.Words) (word : size < word64) (inside : pos ≤ size) :
    OwnStores size content pos m pgd phdr ↔ ∀ count m' p, MapsPages m pgd phdr count m' →
      segmentPos size pos phdr.offset = some p → Fits phdr (segmentBytes size phdr p) :=
  ⟨fun own _ _ _ maps sought => fits_of_ownStores tree words word inside own maps sought,
    fun fits => ownStores_of_fits tree words fits⟩

end Stores

theorem textHeader_words : textHeader.Words := ⟨by decide, by decide, by decide, by decide⟩

theorem ownStores_iff_text : OwnStores 120 (elfFile 0x400000 [textHeader]) 120 emptyMmu 0x1000 textHeader := by
  refine (ownStores_iff emptyMmu_wellFormed textHeader_words (by decide) (by decide)).mpr fun _ _ p _ sought => ?_
  have start : segmentPos 120 120 textHeader.offset = some 0 := by decide
  cases start.symm.trans sought
  exact ⟨fun _ => ⟨by decide, Or.inl (by decide)⟩, fun tail => absurd tail (by decide)⟩

def longHeader : ProgramHeader := ⟨elfPhdrLoad, 7, 0, 0x400000, 0x400000, 0x2000, 0x1000, 0x1000⟩

/-- Two pages are read into the one that is mapped. -/
theorem long_segment_overruns :
    WellFormedTree emptyMmu 0x1000 ∧ ¬ OwnStores 0x2000 (elfFile 0x400000 [longHeader]) 120 emptyMmu 0x1000
      longHeader := by
  refine ⟨emptyMmu_wellFormed, fun own => ?_⟩
  obtain ⟨⟨count, m'⟩, call, returned⟩ := Exec.exists_ok_of_map (by decide +kernel :
    (emptyMmu.vmmAllocRange 0x1000 (pageAlignDown longHeader.vaddr) longHeader.mappedSize longHeader.prot).toOption.map
      Prod.fst = some 1)
  obtain rfl : count = 1 := returned
  have fits := fits_of_ownStores emptyMmu_wellFormed ⟨by decide, by decide, by decide, by decide⟩ (by decide)
    (by decide)
    own ⟨by decide, call, by decide⟩ (by decide : segmentPos 0x2000 120 longHeader.offset = some 0)
  exact absurd (fits.bytes (by decide)).1 (by decide)

end SnapOS.Elf
