/- The ways in which load_program_header ends. -/
import SnapOS.ElfOpen

namespace SnapOS.Elf
open SnapOS.Lib SnapOS.Fs SnapOS.Ext2Io SnapOS.Paging

variable {σ : Type}

/-- The position from which a segment is read, if the check of `vfs_seek` passes. The error of a negative offset is
taken for the offset 2⁶⁴ - EINVAL, and the position stays where it is. -/
def segmentPos (size pos offset : Nat) : Option Nat :=
  if offset ≤ ssizeMax then if offset ≤ size ∧ size ≤ ssizeMax then some offset else none
  else if offset = word64 - eInval.toNat then some pos
  else none

theorem segmentPos_le {size pos offset p : Nat} (inside : pos ≤ size) (found : segmentPos size pos offset = some p) :
    p ≤ size := by
  rw [segmentPos] at found
  split_ifs at found with near fits
  · cases found
    exact fits.1
  · cases found
    exact inside

def LoadState.mapped (s : LoadState σ) (phdr : ProgramHeader) (m : Mmu) : LoadState σ :=
  { s.logged (.map s.mmu (pageAlignDown phdr.vaddr) phdr.mappedSize phdr.prot) with mmu := m }

def zeroTail (phdr : ProgramHeader) : List LoadEvent :=
  if phdr.fileSize < phdr.memSize then
    [.store ((phdr.vaddr + phdr.fileSize) % word64) (phdr.memSize - phdr.fileSize) fun _ => 0]
  else []

/-- A header that is not passed over asks for its pages. -/
structure Asked (pgd : Nat) (phdr : ProgramHeader) (s : LoadState σ) (count : Int) (m : Mmu) : Prop where
  loadable : phdr.loadable = true
  call : s.mmu.vmmAllocRange pgd (pageAlignDown phdr.vaddr) phdr.mappedSize phdr.prot = .ok (count, m)

/-- The segment is read into its pages from position `p` on. -/
structure Copied (env : LoadEnv) (fops : FileOps σ) (pgd : Nat) (f : File) (phdr : ProgramHeader) (s : LoadState σ)
    (count : Int) (m : Mmu) (p : Nat) (a : ReadAnswer) (s₁ : LoadState σ) : Prop extends Asked pgd phdr s count m where
  enough : 0 ≤ count
  sought : segmentPos f.inode.size f.pos phdr.offset = some p
  read : vfsRead env fops { f with pos := p } phdr.fileSize (s.mapped phdr m) = .ok a s₁

inductive SegmentEnds (env : LoadEnv) (fops : FileOps σ) (pgd : Nat) (f : File) (phdr : ProgramHeader)
    (s : LoadState σ) : Int × File → LoadState σ → Prop where
  | skipped (other : phdr.loadable = false) : SegmentEnds env fops pgd f phdr s (0, f) s
  | unmapped {count : Int} {m : Mmu} (asked : Asked pgd phdr s count m) (few : count < 0) :
      SegmentEnds env fops pgd f phdr s (toInt count, f) (s.mapped phdr m)
  | unsought {count : Int} {m : Mmu} {f' : File} (asked : Asked pgd phdr s count m) (enough : 0 ≤ count)
      (far : segmentPos f.inode.size f.pos phdr.offset = none)
      (moved : ∃ p ≤ f.inode.size, f' = f ∨ f' = { f with pos := p }) :
      SegmentEnds env fops pgd f phdr s (-eInval, f') (s.mapped phdr m)
  | unread {count : Int} {m : Mmu} {p : Nat} {a : ReadAnswer} {s₁ : LoadState σ}
      (copied : Copied env fops pgd f phdr s count m p a s₁)
      (stores : ∀ i < a.stored, Accessible s₁ pgd ((phdr.vaddr + i) % word64)) (failed : a.ret < 0) :
      SegmentEnds env fops pgd f phdr s (toInt a.ret, a.file) (s₁.logged (.store phdr.vaddr a.stored a.bytes))
  | loaded {count : Int} {m : Mmu} {p : Nat} {a : ReadAnswer} {s₁ s' : LoadState σ}
      (copied : Copied env fops pgd f phdr s count m p a s₁)
      (stores : ∀ i < a.stored, Accessible s₁ pgd ((phdr.vaddr + i) % word64)) (done : 0 ≤ a.ret)
      (zeros : ∀ i, phdr.fileSize ≤ i → i < phdr.memSize → Accessible s₁ pgd ((phdr.vaddr + i) % word64))
      (mmu : ∃ n, s'.mmu = { s₁.mmu with pool := s₁.mmu.pool.drop n }) (disk : s'.disk = s₁.disk)
      (held : s'.held = s₁.held)
      (log : s'.log = s₁.log ++ .store phdr.vaddr a.stored a.bytes :: zeroTail phdr) :
      SegmentEnds env fops pgd f phdr s (0, a.file) s'

theorem ProgramHeader.loadable_iff (phdr : ProgramHeader) : phdr.loadable = true ↔
    phdr.type = elfPhdrLoad ∧ phdr.vaddr &&& phdr.alignMask = 0 ∧ phdr.paddr &&& phdr.alignMask = 0 := by
  simp [ProgramHeader.loadable, and_assoc]

theorem vfsSeek_segment {f : File} (regular : isReg f.inode.mode = true) (word : f.inode.size < word64) {offset : Nat}
    (fits : offset < word64) :
    (∃ p, segmentPos f.inode.size f.pos offset = some p ∧ toSize (vfsSeek f (toSsize offset) seekSet).1 = offset ∧
        (vfsSeek f (toSsize offset) seekSet).2 = { f with pos := p }) ∨
      segmentPos f.inode.size f.pos offset = none ∧ toSize (vfsSeek f (toSsize offset) seekSet).1 ≠ offset ∧
        ∃ p ≤ f.inode.size, (vfsSeek f (toSsize offset) seekSet).2 = f ∨
          (vfsSeek f (toSsize offset) seekSet).2 = { f with pos := p } := by
  rw [vfsSeek_start regular word fits, segmentPos]
  by_cases near : offset ≤ ssizeMax
  · have stored := toSize_toSsize (Nat.lt_of_le_of_lt (seekPos_le f.inode.size offset) word)
    rw [if_pos near, if_pos near, stored]
    by_cases inside : offset ≤ f.inode.size ∧ f.inode.size ≤ ssizeMax
    · have exact_ : seekPos f.inode.size offset = offset := by
        rw [seekPos, if_neg (Nat.not_lt.mpr inside.2), Nat.min_eq_left inside.1]
      rw [if_pos inside, exact_]
      exact Or.inl ⟨offset, rfl, rfl, rfl⟩
    · refine Or.inr ⟨if_neg inside, ?_, _, seekPos_le _ _, Or.inr rfl⟩
      rw [seekPos]
      split_ifs <;> omega
  · have error : toSize (-eInval) = word64 - eInval.toNat := by decide
    rw [if_neg near, if_neg near]
    dsimp only
    rw [error]
    by_cases same : offset = word64 - eInval.toNat
    · rw [if_pos same]
      exact Or.inl ⟨f.pos, rfl, same.symm, rfl⟩
    · rw [if_neg same]
      exact Or.inr ⟨rfl, Ne.symm same, 0, Nat.zero_le _, Or.inl rfl⟩

theorem store_eq_ok {pgd vaddr length : Nat} {bytes : Memory} {s s' : LoadState σ} {u : Unit}
    (done : store pgd vaddr length bytes s = .ok u s') :
    (∀ i < length, Accessible s pgd ((vaddr + i) % word64)) ∧ s' = s.logged (.store vaddr length bytes) := by
  rw [store] at done
  split_ifs at done with access
  cases done
  exact ⟨access, rfl⟩

theorem mmAddAlloc_eq_ok {env : LoadEnv} {addr pageCount : Nat} {s s' : LoadState σ} {res : Int}
    (done : mmAddAlloc env addr pageCount s = .ok res s') :
    (∃ n, s'.mmu = { s.mmu with pool := s.mmu.pool.drop n }) ∧ s'.disk = s.disk ∧ s'.held = s.held ∧
      s'.log = s.log := by
  rw [mmAddAlloc, Steps.bind_ok (x := kmalloc env) rfl, onAllocs] at done
  split at done
  · cases done
    exact ⟨⟨_, rfl⟩, rfl, rfl, rfl⟩
  · cases done

theorem accessible_stored {pgd vaddr length a : Nat} {bytes : Memory} {s : LoadState σ} :
    Accessible (s.logged (.store vaddr length bytes)) pgd a ↔ Accessible s pgd a := by
  have events : (∃ e ∈ (s.logged (.store vaddr length bytes)).log, e.Asks a) ↔ ∃ e ∈ s.log, e.Asks a := by
    simp [LoadState.logged, LoadEvent.Asks, or_and_right, exists_or]
  exact and_congr_right fun _ => and_congr_right fun _ => or_congr_right events

theorem zeroFill_eq_ok {pgd : Nat} {phdr : ProgramHeader} {s s' : LoadState σ} {u : Unit}
    (done : zeroFill pgd phdr s = .ok u s') :
    (∀ i, phdr.fileSize ≤ i → i < phdr.memSize → Accessible s pgd ((phdr.vaddr + i) % word64)) ∧
      s' = { s with log := s.log ++ zeroTail phdr } := by
  rw [zeroFill] at done
  rw [zeroTail]
  split_ifs at done with tail
  · obtain ⟨zeros, rfl⟩ := store_eq_ok done
    refine ⟨fun i low high => ?_, by rw [if_pos tail]; rfl⟩
    have access := zeros (i - phdr.fileSize) (by omega)
    rwa [Nat.mod_add_mod, Nat.add_assoc, Nat.add_sub_cancel' low] at access
  · cases done
    refine ⟨fun i low high => absurd high (by omega), ?_⟩
    rw [if_neg tail, List.append_nil]

section Ends

variable {env : LoadEnv} {fops : FileOps σ} {pgd : Nat} {f : File} {phdr : ProgramHeader} {s s' : LoadState σ}
  {r : Int × File}

/-- The ways of `load_program_header` up to the read of the segment. -/
inductive SegmentCases (env : LoadEnv) (fops : FileOps σ) (pgd : Nat) (f : File) (phdr : ProgramHeader)
    (s : LoadState σ) : EStateM.Result Fault (LoadState σ) (Int × File) → Prop where
  | skipped (other : phdr.loadable = false) : SegmentCases env fops pgd f phdr s (.ok (0, f) s)
  | panics {fault : Fault} (loadable : phdr.loadable = true)
      (call : s.mmu.vmmAllocRange pgd (pageAlignDown phdr.vaddr) phdr.mappedSize phdr.prot = .error fault) :
      SegmentCases env fops pgd f phdr s
        (.error fault (s.logged (.map s.mmu (pageAlignDown phdr.vaddr) phdr.mappedSize phdr.prot)))
  | unmapped {count : Int} {m : Mmu} (asked : Asked pgd phdr s count m) (few : count < 0) :
      SegmentCases env fops pgd f phdr s (.ok (toInt count, f) (s.mapped phdr m))
  | unsought {count : Int} {m : Mmu} {f' : File} (asked : Asked pgd phdr s count m) (enough : 0 ≤ count)
      (far : segmentPos f.inode.size f.pos phdr.offset = none)
      (moved : ∃ p ≤ f.inode.size, f' = f ∨ f' = { f with pos := p }) :
      SegmentCases env fops pgd f phdr s (.ok (-eInval, f') (s.mapped phdr m))
  | copies {count : Int} {m : Mmu} {p : Nat} (asked : Asked pgd phdr s count m) (enough : 0 ≤ count)
      (sought : segmentPos f.inode.size f.pos phdr.offset = some p) :
      SegmentCases env fops pgd f phdr s (copySegment env fops pgd { f with pos := p } phdr count (s.mapped phdr m))

theorem loadProgramHeader_cases (env : LoadEnv) (fops : FileOps σ) (pgd : Nat) (s : LoadState σ)
    (regular : isReg f.inode.mode = true) (word : f.inode.size < word64) (fits : phdr.offset < word64) :
    SegmentCases env fops pgd f phdr s (loadProgramHeader env fops pgd f phdr s) := by
  rw [loadProgramHeader]
  by_cases type : phdr.type ≠ elfPhdrLoad
  · rw [if_pos type]
    exact .skipped (Bool.eq_false_iff.mpr fun load => type (phdr.loadable_iff.mp load).1)
  rw [if_neg type]
  by_cases misaligned : phdr.vaddr &&& phdr.alignMask ≠ 0 ∨ phdr.paddr &&& phdr.alignMask ≠ 0
  · rw [if_pos misaligned]
    refine .skipped (Bool.eq_false_iff.mpr fun load => ?_)
    obtain ⟨_, vaddr, paddr⟩ := phdr.loadable_iff.mp load
    exact misaligned.elim (fun h => h vaddr) fun h => h paddr
  rw [if_neg misaligned]
  have loadable : phdr.loadable = true := by
    rw [phdr.loadable_iff]
    tauto
  cases call : s.mmu.vmmAllocRange pgd (pageAlignDown phdr.vaddr) phdr.mappedSize phdr.prot with
  | error fault =>
      have stopped : vmmAllocRange pgd (pageAlignDown phdr.vaddr) phdr.mappedSize phdr.prot s =
          .error fault (s.logged (.map s.mmu (pageAlignDown phdr.vaddr) phdr.mappedSize phdr.prot)) := by
        rw [vmmAllocRange, call]
      rw [Steps.bind_error stopped]
      exact .panics loadable call
  | ok result =>
      obtain ⟨count, m⟩ := result
      have mapped : vmmAllocRange pgd (pageAlignDown phdr.vaddr) phdr.mappedSize phdr.prot s =
          .ok count (s.mapped phdr m) := by
        rw [vmmAllocRange, call]
        rfl
      have asked : Asked pgd phdr s count m := ⟨loadable, call⟩
      rw [Steps.bind_ok mapped]
      by_cases few : count < 0
      · rw [if_pos few]
        exact .unmapped asked few
      rw [if_neg few]
      dsimp only
      rcases vfsSeek_segment regular word fits with ⟨p, sought, exact_, moved⟩ | ⟨far, other, moved⟩
      · rw [if_neg (not_not.mpr exact_), moved]
        exact .copies asked (Int.not_lt.mp few) sought
      · rw [if_pos other]
        exact .unsought asked (Int.not_lt.mp few) far moved

theorem loadProgramHeader_ends (regular : isReg f.inode.mode = true) (word : f.inode.size < word64)
    (fits : phdr.offset < word64) (done : loadProgramHeader env fops pgd f phdr s = .ok r s') :
    SegmentEnds env fops pgd f phdr s r s' := by
  have cases_ := loadProgramHeader_cases env fops pgd s regular word fits
  rw [done] at cases_
  generalize ended : (EStateM.Result.ok r s' : EStateM.Result Fault (LoadState σ) (Int × File)) = result at cases_
  cases cases_ with
  | skipped other =>
      cases ended
      exact .skipped other
  | panics loadable call => cases ended
  | unmapped asked few =>
      cases ended
      exact .unmapped asked few
  | unsought asked enough far moved =>
      cases ended
      exact .unsought asked enough far moved
  | @copies count m p asked enough sought =>
      have done := ended.symm
      rw [copySegment] at done
      obtain ⟨a, s₁, read, done⟩ := Steps.bind_eq_ok.mp done
      have copied : Copied env fops pgd f phdr s count m p a s₁ := ⟨asked, enough, sought, read⟩
      obtain ⟨_, s₂, stored, done⟩ := Steps.bind_eq_ok.mp done
      obtain ⟨stores, rfl⟩ := store_eq_ok stored
      split_ifs at done with failed
      · cases done
        exact .unread copied stores failed
      obtain ⟨_, s₃, zeroed, done⟩ := Steps.bind_eq_ok.mp done
      obtain ⟨zeros, rfl⟩ := zeroFill_eq_ok zeroed
      obtain ⟨res, s₄, added, done⟩ := Steps.bind_eq_ok.mp done
      obtain ⟨mmu, disk, held, log⟩ := mmAddAlloc_eq_ok added
      cases done
      refine .loaded copied stores (Int.not_lt.mp failed) (fun i low high => ?_) mmu disk held ?_
      · exact accessible_stored.mp (zeros i low high)
      · rw [log]
        simp [LoadState.logged]

end Ends

end SnapOS.Elf
