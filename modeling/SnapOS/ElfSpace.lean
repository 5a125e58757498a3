/- The pages that elf_load asks for in the address space of a new task. -/
import SnapOS.ElfPages
import SnapOS.KernelHalf
import SnapOS.UserSpace

namespace SnapOS.Elf
open SnapOS.Lib SnapOS.Fs SnapOS.Ext2Io SnapOS.Paging

variable {σ : Type} {env : LoadEnv} {fops : FileOps σ} {size : Nat} {content : Memory} {good : Inode → σ → Prop}
  {pgd : Nat}

def ProgramHeader.Covers (phdr : ProgramHeader) (a : Nat) : Prop :=
  phdr.base ≤ a ∧ a < phdr.base + phdr.pages * pageSize

/-- Behind these headers the pages of the header are free pages of the user. -/
def FreshUser (pre : List ProgramHeader) (phdr : ProgramHeader) : Prop :=
  ∀ a, phdr.Covers a → a < userEnd ∧ ¬ InStack a ∧ ∀ q ∈ pre, q.loadable = true → ¬ q.Covers a

/-- All pages of a call of `vmm_alloc_range` are free pages of the lower half. -/
def SafeRequest (pgd : Nat) (before : Mmu) (vaddr size : Nat) : Prop :=
  ∀ k < pageAlignUp size / pageSize, (vaddr + k * pageSize) % word64 < userEnd ∧
    translate before.tables pgd ((vaddr + k * pageSize) % word64) = none

/-- What has been asked for and what has become of the upper half. -/
structure SafeState (pgd : Nat) (m₀ : Mmu) (s : LoadState σ) : Prop where
  requests : ∀ before vaddr size prot, .map before vaddr size prot ∈ s.log → SafeRequest pgd before vaddr size
  kernel : ∀ a, kernelHalf ≤ a → a < word64 → translate s.mmu.tables pgd a = translate m₀.tables pgd a

/-- A run that ends in such a state and not with a panic of `mmu_map_one`. -/
structure SafeEnd {α : Type} (pgd : Nat) (m₀ : Mmu) (x : Steps (LoadState σ) α) (s : LoadState σ) : Prop where
  state : SafeState pgd m₀ (x.final s)
  fault : ∀ fault t, x s = .error fault t → fault ≠ existingHuge ∧ fault ≠ alreadyMapped

/-- The faults of the processor, and a loop that does not end. -/
def Plain (fault : Fault) : Prop := fault = .outOfBounds ∨ fault = .outOfFuel

theorem Plain.not_panic {fault : Fault} (plain : Plain fault) : fault ≠ existingHuge ∧ fault ≠ alreadyMapped := by
  rcases plain with rfl | rfl
  · exact ⟨nofun, nofun⟩
  · exact ⟨nofun, nofun⟩

section Faults

variable {f : File} {phdr : ProgramHeader} {s t : LoadState σ} {count : Int} {fault : Fault}

theorem allocs_load_plain {allocs : AllocMem} {p : Nat} (h : allocs.load p = .error fault) : Plain fault := by
  rw [AllocMem.load] at h
  split_ifs at h
  cases h
  exact Or.inl rfl

theorem allocs_setNext_plain {allocs : AllocMem} {p q : Nat} (h : allocs.setNext p q = .error fault) : Plain fault := by
  rw [AllocMem.setNext] at h
  split_ifs at h
  cases h
  exact Or.inl rfl

theorem mmAddLoop_plain {allocs : AllocMem} {prev alloc addr fuel cur : Nat}
    (h : allocs.mmAddLoop prev alloc addr fuel cur = .error fault) : Plain fault := by
  induction fuel generalizing cur with
  | zero =>
      cases h
      exact Or.inr rfl
  | succ fuel ih =>
      rw [AllocMem.mmAddLoop] at h
      split_ifs at h
      · rcases Exec.bind_eq_error.mp h with early | ⟨c, _, h⟩
        · exact allocs_load_plain early
        split_ifs at h
        · rcases Exec.bind_eq_error.mp h with early | ⟨_, _, h⟩
          · exact allocs_setNext_plain early
          rcases Exec.bind_eq_error.mp h with early | ⟨_, _, h⟩
          · exact allocs_setNext_plain early
          · cases h
        · exact ih h
      · rcases Exec.bind_eq_error.mp h with early | ⟨_, _, h⟩
        · exact allocs_setNext_plain early
        · cases h

theorem mmAddAlloc_plain {allocs : AllocMem} {ptr addr pageCount : Nat}
    (h : allocs.mmAddAlloc ptr addr pageCount = .error fault) : Plain fault := by
  rw [AllocMem.mmAddAlloc] at h
  dsimp only at h
  split_ifs at h
  rcases Exec.bind_eq_error.mp h with early | ⟨head, _, h⟩
  · exact allocs_load_plain early
  split_ifs at h
  · rcases Exec.bind_eq_error.mp h with early | ⟨_, _, h⟩
    · exact allocs_setNext_plain early
    · cases h
  · exact mmAddLoop_plain h

theorem store_plain {vaddr length : Nat} {bytes : Memory} (h : store pgd vaddr length bytes s = .error fault t) :
    Plain fault := by
  rw [store] at h
  split_ifs at h
  cases h
  exact Or.inl rfl

theorem copySegment_plain (serves : Serves fops size content good) (isOpen : IsOpen good size f s)
    (h : copySegment env fops pgd f phdr count s = .error fault t) : Plain fault := by
  obtain ⟨a, s₁, read, _⟩ := serves.vfsRead env isOpen phdr.fileSize
  rw [copySegment, Steps.bind_ok read] at h
  rcases Steps.bind_eq_error.mp h with early | ⟨_, s₂, _, h⟩
  · exact store_plain early
  split_ifs at h
  · cases h
  rcases Steps.bind_eq_error.mp h with early | ⟨_, s₃, _, h⟩
  · rw [zeroFill] at early
    split_ifs at early
    · exact store_plain early
    · cases early
  rcases Steps.bind_eq_error.mp h with early | ⟨_, s₄, _, h⟩
  · rw [Elf.mmAddAlloc, Steps.bind_ok (x := kmalloc env) rfl, onAllocs] at early
    split at early
    · cases early
    · next stopped =>
        cases early
        exact mmAddAlloc_plain stopped
  · cases h

end Faults

/-! The pages of one header -/

namespace ProgramHeader

variable {phdr : ProgramHeader} {a : Nat}

theorem among_of_covers (user : a < userEnd) (covers : phdr.Covers a) : Among phdr.base phdr.pages a := by
  obtain ⟨above, below⟩ := covers
  have inside : (a - phdr.base) / pageSize < phdr.pages := by
    rw [Nat.div_lt_iff_lt_mul (by decide)]
    omega
  refine ⟨_, inside, ?_⟩
  have aligned : phdr.base % pageSize = 0 := Nat.mul_mod_left _ _
  simp only [SameBlock, span_zero, addressBits, pageSize, userEnd, word64] at *
  omega

theorem covers_of_among (user : ∀ a, phdr.Covers a → a < userEnd) (canonical : Canonical a)
    (among : Among phdr.base phdr.pages a) : phdr.Covers a := by
  have positive : 0 < phdr.pages := by
    obtain ⟨k, before, _⟩ := among
    omega
  have some : 0 < phdr.pages * pageSize := Nat.mul_pos positive (by decide)
  have last := user (phdr.base + phdr.pages * pageSize - 1) ⟨by omega, by omega⟩
  have low : phdr.base + phdr.pages * pageSize ≤ userEnd := by omega
  have aligned : phdr.base % pageSize = 0 := Nat.mul_mod_left _ _
  exact (among_iff aligned low canonical).mp among

theorem covers_page (phdr : ProgramHeader) {k : Nat} (before : k < phdr.pages) :
    phdr.Covers (phdr.base + k * pageSize) := by
  have : k * pageSize < phdr.pages * pageSize := Nat.mul_lt_mul_of_pos_right before (by decide)
  exact ⟨by omega, by omega⟩

end ProgramHeader

section Safe

variable {pgd : Nat} {m₀ : Mmu} {s t : LoadState σ} {α β : Type}

theorem SafeState.extend (safe : SafeState pgd m₀ s) {events : List LoadEvent} (log : t.log = s.log ++ events)
    (asked : ∀ before vaddr size prot, .map before vaddr size prot ∈ events → SafeRequest pgd before vaddr size)
    (kernel : ∀ a, kernelHalf ≤ a → a < word64 → translate t.mmu.tables pgd a = translate s.mmu.tables pgd a) :
    SafeState pgd m₀ t := by
  refine ⟨fun before vaddr size prot member => ?_, fun a upper word => ?_⟩
  · rw [log, List.mem_append] at member
    exact member.elim (safe.requests _ _ _ _) (asked _ _ _ _)
  · rw [kernel a upper word, safe.kernel a upper word]

theorem SafeEnd.of_ok {x : Steps (LoadState σ) α} {a : α} (done : x s = .ok a t) (safe : SafeState pgd m₀ t) :
    SafeEnd pgd m₀ x s := by
  refine ⟨Steps.final_ok done ▸ safe, fun fault u stopped => ?_⟩
  cases done.symm.trans stopped

theorem SafeEnd.of_error {x : Steps (LoadState σ) α} {e : Fault} (stopped : x s = .error e t)
    (safe : SafeState pgd m₀ t) (other : e ≠ existingHuge ∧ e ≠ alreadyMapped) : SafeEnd pgd m₀ x s := by
  refine ⟨?_, fun fault u stopped' => ?_⟩
  · rw [Steps.final, stopped]
    exact safe
  · cases stopped.symm.trans stopped'
    exact other

theorem SafeEnd.pure (safe : SafeState pgd m₀ s) (a : α) : SafeEnd pgd m₀ (Pure.pure a) s := .of_ok rfl safe

theorem SafeEnd.bind {x : Steps (LoadState σ) α} {f : α → Steps (LoadState σ) β} (first : SafeEnd pgd m₀ x s)
    (later : ∀ a t, x s = .ok a t → SafeEnd pgd m₀ (f a) t) : SafeEnd pgd m₀ (x >>= f) s := by
  cases ended : x s with
  | ok a u =>
      refine ⟨?_, fun fault t stopped => ?_⟩
      · rw [Steps.final_bind ended]
        exact (later a u ended).state
      · rw [Steps.bind_ok ended] at stopped
        exact (later a u ended).fault fault t stopped
  | error e u =>
      have state := first.state
      rw [Steps.final, ended] at state
      refine ⟨?_, fun fault t stopped => ?_⟩
      · rw [Steps.final, Steps.bind_error ended]
        exact state
      · rw [Steps.bind_error ended] at stopped
        cases stopped
        exact first.fault e u ended

end Safe

structure SpaceAt (good : Inode → σ → Prop) (size pgd : Nat) (m₀ : Mmu) (pre : List ProgramHeader) (f : File)
    (s : LoadState σ) : Prop extends LoopInv good size pgd f s where
  user : ∀ a < userEnd, (translate s.mmu.tables pgd a).isSome ↔
    InStack a ∨ ∃ q ∈ pre, q.loadable = true ∧ q.Covers a
  safe : SafeState pgd m₀ s

section Header

variable {m₀ : Mmu} {pre : List ProgramHeader} {f : File} {phdr : ProgramHeader} {s : LoadState σ}

theorem SpaceAt.free (space : SpaceAt good size pgd m₀ pre f s) (fresh : FreshUser pre phdr) {a : Nat}
    (covers : phdr.Covers a) : a < userEnd ∧ translate s.mmu.tables pgd a = none := by
  obtain ⟨user, stack, others⟩ := fresh a covers
  refine ⟨user, Option.not_isSome_iff_eq_none.mp fun mapped => ?_⟩
  rcases (space.user a user).mp mapped with inStack | ⟨q, member, loadable, there⟩
  · exact stack inStack
  · exact others q member loadable there

theorem SpaceAt.asks (space : SpaceAt good size pgd m₀ pre f s) (fresh : FreshUser pre phdr) :
    SafeState pgd m₀ (s.logged (.map s.mmu (pageAlignDown phdr.vaddr) phdr.mappedSize phdr.prot)) := by
  refine space.safe.extend rfl (fun before vaddr size prot member => ?_) fun _ _ _ => rfl
  cases List.mem_singleton.mp member
  intro k before
  obtain ⟨user, none⟩ := space.free fresh (phdr.covers_page before)
  have same : (pageAlignDown phdr.vaddr + k * pageSize) % word64 = phdr.base + k * pageSize :=
    Nat.mod_eq_of_lt (Nat.lt_trans user (by decide))
  rw [same]
  exact ⟨user, none⟩

/-- Pages of the lower half leave the upper half as it is. -/
theorem Asked.kernel {count : Int} {m : Mmu} (tree : WellFormedTree s.mmu pgd) (words : phdr.Words)
    (asked : Asked pgd phdr s count m) (user : ∀ a, phdr.Covers a → a < userEnd) {a : Nat} (upper : kernelHalf ≤ a)
    (word : a < word64) : translate m.tables pgd a = translate s.mmu.tables pgd a := by
  obtain ⟨_, mapped, le, fresh, _⟩ := asked.maps tree words
  refine fresh.others a fun among => ?_
  have canonical : Canonical a := by
    simp only [Canonical, kernelHalf, word64] at *
    omega
  have low := user a (ProgramHeader.covers_of_among user canonical (among.mono le))
  simp only [kernelHalf, userEnd] at *
  omega

theorem SpaceAt.maps (space : SpaceAt good size pgd m₀ pre f s) (words : phdr.Words) (fresh : FreshUser pre phdr)
    {count : Int} {m : Mmu} (asked : Asked pgd phdr s count m) : SafeState pgd m₀ (s.mapped phdr m) :=
  (space.asks fresh).extend (List.append_nil _).symm (fun _ _ _ _ => nofun) fun _ upper word =>
    asked.kernel space.tree words (fun a covers => (fresh a covers).1) upper word

theorem zeroTail_stores {before : Mmu} {vaddr size : Nat} {prot : Pgprot} :
    .map before vaddr size prot ∉ zeroTail phdr := by
  rw [zeroTail]
  split_ifs
  · intro member
    cases List.mem_singleton.mp member
  · exact List.not_mem_nil

theorem SpaceAt.sought (serves : Serves fops size content good) (space : SpaceAt good size pgd m₀ pre f s) {p : Nat}
    (sought : segmentPos f.inode.size f.pos phdr.offset = some p) (m : Mmu) :
    IsOpen good size { f with pos := p } (s.mapped phdr m) := by
  have sized := serves.sized space.isOpen.good
  have inside := segmentPos_le (sized ▸ space.isOpen.inside) sought
  exact ⟨space.isOpen.good, sized ▸ inside, space.isOpen.referenced⟩

theorem SpaceAt.copies (env : LoadEnv) (serves : Serves fops size content good)
    (space : SpaceAt good size pgd m₀ pre f s)
    (words : phdr.Words) (fresh : FreshUser pre phdr) {count : Int} {m : Mmu} (asked : Asked pgd phdr s count m)
    {p : Nat}
    (sought : segmentPos f.inode.size f.pos phdr.offset = some p) :
    SafeEnd pgd m₀ (copySegment env fops pgd { f with pos := p } phdr count) (s.mapped phdr m) := by
  have isOpen := space.sought serves sought m
  refine ⟨?_, fun fault t stopped => (copySegment_plain serves isOpen stopped).not_panic⟩
  obtain ⟨a, _, _, tables, log⟩ := copySegment_final env pgd phdr count serves isOpen
  refine (space.maps words fresh asked).extend log (fun before vaddr size prot member => ?_) fun _ _ _ => by rw [tables]
  rcases List.mem_cons.mp member with event | member
  · cases event
  split_ifs at member
  · exact absurd member zeroTail_stores
  · cases member

theorem SpaceAt.header (env : LoadEnv) (serves : Serves fops size content good)
    (space : SpaceAt good size pgd m₀ pre f s)
    (words : phdr.Words) (fresh : phdr.loadable = true → FreshUser pre phdr) :
    SafeEnd pgd m₀ (loadProgramHeader env fops pgd f phdr) s := by
  have sized := serves.sized space.isOpen.good
  have cases_ := loadProgramHeader_cases env fops pgd s (serves.regular space.isOpen.good) (sized ▸ serves.word)
    words.offset
  generalize ended : loadProgramHeader env fops pgd f phdr s = result at cases_
  cases cases_ with
  | skipped other => exact .of_ok ended space.safe
  | panics loadable call =>
      have none := space.tree.allocRange_panics (Nat.mul_mod_left _ _)
        (fun a above below => space.free (fresh loadable) ⟨above, below⟩) call
      exact .of_error ended (space.asks (fresh loadable)) (none ▸ by decide)
  | unmapped asked few => exact .of_ok ended (space.maps words (fresh asked.loadable) asked)
  | unsought asked enough far moved => exact .of_ok ended (space.maps words (fresh asked.loadable) asked)
  | copies asked enough sought =>
      have copied := space.copies env serves words (fresh asked.loadable) asked sought
      exact ⟨Steps.final_of_eq ended ▸ copied.state, fun fault t stopped => copied.fault fault t (ended ▸ stopped)⟩

theorem SpaceAt.next (serves : Serves fops size content good) (space : SpaceAt good size pgd m₀ pre f s)
    (words : phdr.Words) (fresh : phdr.loadable = true → FreshUser pre phdr) {r : Int × File} {s₁ : LoadState σ}
    (one : loadProgramHeader env fops pgd f phdr s = .ok r s₁) (goesOn : ¬ r.1 < 0) :
    SpaceAt good size pgd m₀ (pre ++ [phdr]) r.2 s₁ := by
  obtain ⟨inv, _, maps⟩ := space.toLoopInv.step serves words one
  obtain ⟨mapped, _, pages, none, all⟩ := maps.fresh
  have safe := (space.header env serves words fresh).state
  rw [Steps.final_ok one] at safe
  refine ⟨inv, fun a user => ?_, safe⟩
  have split : (∃ q ∈ pre ++ [phdr], q.loadable = true ∧ q.Covers a) ↔
      (∃ q ∈ pre, q.loadable = true ∧ q.Covers a) ∨ phdr.loadable = true ∧ phdr.Covers a := by
    simp only [List.mem_append, List.mem_singleton, or_and_right, exists_or, exists_eq_left]
  rw [split]
  by_cases among : Among phdr.base mapped a
  · obtain ⟨_, _, _, found⟩ := pages.mapped a among
    have loadable : phdr.loadable = true := by
      by_contra other
      rw [none (Bool.eq_false_iff.mpr other)] at among
      exact not_among_zero among
    rw [all goesOn loadable] at among
    have canonical : Canonical a := Or.inl (by simp only [userEnd] at user; omega)
    rw [found]
    exact iff_of_true rfl (Or.inr (Or.inr ⟨loadable,
      ProgramHeader.covers_of_among (fun a covers => (fresh loadable a covers).1) canonical among⟩))
  · rw [pages.others a among, space.user a user, or_iff_left (b := phdr.loadable = true ∧ phdr.Covers a)]
    rintro ⟨loadable, covers⟩
    rw [all goesOn loadable] at among
    exact among (ProgramHeader.among_of_covers user covers)

end Header

/-! The loop -/

/-- `elf_load` comes to this header, and it has gone over the headers `pre` before. -/
def ComesTo (env : LoadEnv) (fops : FileOps σ) (pgd : Nat) (s : LoadState σ) (pre : List ProgramHeader)
    (phdr : ProgramHeader) : Prop :=
  ∃ f₀ eh post s₀ f₁ s₁, elfOpen env fops s = .ok (.ok (f₀, eh, pre ++ phdr :: post)) s₀ ∧
    LoadRun env fops pgd pre f₀ s₀ f₁ s₁

section Loop

variable {m₀ : Mmu} {pre phdrs : List ProgramHeader} {f f' : File} {phdr : ProgramHeader} {s s' : LoadState σ}

theorem SpaceAt.headers (env : LoadEnv) (serves : Serves fops size content good) (words : ∀ phdr ∈ phdrs, phdr.Words)
    (space : SpaceAt good size pgd m₀ pre f s)
    (fresh : ∀ mid phdr post f₁ s₁, phdrs = mid ++ phdr :: post → LoadRun env fops pgd mid f s f₁ s₁ →
      phdr.loadable = true → FreshUser (pre ++ mid) phdr) :
    SafeEnd pgd m₀ (loadHeaders env fops pgd phdrs f) s := by
  induction phdrs generalizing pre f s with
  | nil => exact .pure space.safe _
  | cons phdr rest ih =>
      have here : phdr.loadable = true → FreshUser pre phdr := by
        intro loadable
        have first := fresh [] phdr rest f s rfl .nil loadable
        rwa [List.append_nil] at first
      have header := space.header env serves (words phdr List.mem_cons_self) here
      rw [loadHeaders]
      refine header.bind ?_
      rintro ⟨res, f₁⟩ s₁ one
      have safe := header.state
      rw [Steps.final_ok one] at safe
      dsimp only
      split_ifs with failed
      · exact .pure safe _
      · refine ih (fun p member => words p (List.mem_cons_of_mem _ member))
          (space.next serves (words phdr List.mem_cons_self) here one failed) ?_
        intro mid q post f₂ s₂ split run loadable
        rw [List.append_assoc]
        exact fresh (phdr :: mid) q post f₂ s₂ (by rw [split]; rfl) (.cons one failed run) loadable

theorem vfsClose_safe (safe : SafeState pgd m₀ s) (f : File) : SafeEnd pgd m₀ (vfsClose f) s := by
  rw [vfsClose]
  split_ifs
  · exact .of_ok rfl ⟨safe.requests, safe.kernel⟩
  · exact .pure safe _

theorem kfree_safe (safe : SafeState pgd m₀ s) (what : Held) : SafeEnd pgd m₀ (kfree what) s :=
  .of_ok rfl ⟨safe.requests, safe.kernel⟩

theorem SafeEnd.then_ {α β : Type} {x : Steps (LoadState σ) α} {y : Steps (LoadState σ) β} (first : SafeEnd pgd m₀ x s)
    (later : ∀ t, SafeState pgd m₀ t → SafeEnd pgd m₀ y t) : SafeEnd pgd m₀ (x >>= fun _ => y) s :=
  first.bind fun _ t done => later t (Steps.final_ok done ▸ first.state)

theorem Quiet.safe (quiet : Quiet s s') (safe : SafeState pgd m₀ s) : SafeState pgd m₀ s' :=
  safe.extend (quiet.log.trans (List.append_nil _).symm) (fun _ _ _ _ => nofun) fun _ _ _ => by rw [quiet.tables]

theorem elfLoad_safe (serves : Serves fops size content good) (finds : Finds env good s) (start : StackOnly s.mmu pgd)
    (empty : s.log = [])
    (fresh : ∀ pre phdr, ComesTo env fops pgd s pre phdr → phdr.loadable = true → FreshUser pre phdr) :
    SafeEnd pgd s.mmu (elfLoad env fops pgd) s := by
  have safe : SafeState pgd s.mmu s := by
    refine ⟨fun before vaddr size prot member => ?_, fun _ _ _ => rfl⟩
    rw [empty] at member
    cases member
  obtain ⟨out, s₀, call, ends⟩ := elfOpen_ends serves finds
  rw [elfLoad]
  cases ends with
  | refused error quiet held cause =>
      refine SafeEnd.bind (.of_ok call (quiet.safe safe)) fun a t done => ?_
      cases call.symm.trans done
      exact .pure (quiet.safe safe) _
  | odd odd quiet held =>
      refine SafeEnd.bind (.of_ok call (quiet.safe safe)) fun a t done => ?_
      cases call.symm.trans done
      exact .pure (quiet.safe safe) _
  | @ready f₀ _ table isOpen quiet held =>
      refine SafeEnd.bind (.of_ok call (quiet.safe safe)) fun a t done => ?_
      cases call.symm.trans done
      have space : SpaceAt good size pgd s.mmu [] f₀ s₀ := by
        refine ⟨⟨isOpen, quiet.tree start.tree⟩, fun a user => ?_, quiet.safe safe⟩
        rw [quiet.tables, start.user a user, or_iff_left]
        rintro ⟨_, member, _⟩
        cases member
      have headers := space.headers env serves programHeaders_words fun mid q post f₁ s₁ split run =>
        fresh mid q ⟨f₀, _, post, s₀, f₁, s₁, by rw [call, split], run⟩
      refine headers.bind ?_
      rintro ⟨res, f₁⟩ s₁ loop
      have state := headers.state
      rw [Steps.final_ok loop] at state
      dsimp only
      split_ifs with failed
      · exact (vfsClose_safe state f₁).then_ fun _ closed => (kfree_safe closed _).then_ fun _ freed => .pure freed _
      · exact (kfree_safe state _).then_ fun _ freed => (vfsClose_safe freed f₁).then_ fun _ closed => .pure closed _

end Loop

/-! Every header that is come to asks for its pages -/

def Logs (s t : LoadState σ) : Prop := s.log <+: t.log

theorem Logs.refl (s : LoadState σ) : Logs s s := List.prefix_rfl

theorem Logs.trans (s t u : LoadState σ) (first : Logs s t) (second : Logs t u) : Logs s u :=
  List.IsPrefix.trans first second

def OnlyLogs {α : Type} (x : Steps (LoadState σ) α) : Prop := Steps.Leads Logs (fun _ => True) (fun _ => True) x

section Logs

variable {env : LoadEnv} {fops : FileOps σ} {pgd : Nat} {α β : Type}

theorem OnlyLogs.pure (a : α) : OnlyLogs (Pure.pure a : Steps (LoadState σ) α) := Steps.Leads.pure Logs.refl trivial

theorem OnlyLogs.bind {x : Steps (LoadState σ) α} {f : α → Steps (LoadState σ) β} (first : OnlyLogs x)
    (later : ∀ a, OnlyLogs (f a)) : OnlyLogs (x >>= f) := Steps.Leads.bind Logs.trans first fun a _ => later a

theorem OnlyLogs.ite {c : Prop} [Decidable c] {x y : Steps (LoadState σ) α} (yes : OnlyLogs x) (no : OnlyLogs y) :
    OnlyLogs (if c then x else y) := Steps.Leads.ite (fun _ => yes) fun _ => no

theorem OnlyLogs.of_final {x : Steps (LoadState σ) α} (added : ∀ s, s.log <+: (x.final s).log) : OnlyLogs x :=
  Steps.Leads.of_final added

theorem OnlyLogs.after {x : Steps (LoadState σ) α} {f : α → Steps (LoadState σ) β} (later : ∀ a, OnlyLogs (f a))
    (s : LoadState σ) : Logs (x.final s) ((x >>= f).final s) := Steps.Leads.after Logs.refl later s

theorem kfree_logs (what : Held) : OnlyLogs (kfree what : Steps (LoadState σ) Unit) :=
  .of_final fun _ => List.prefix_rfl

theorem vfsClose_logs (f : File) : OnlyLogs (vfsClose f : Steps (LoadState σ) Unit) :=
  .ite (kfree_logs _) (.pure _)

theorem store_logs (vaddr length : Nat) (bytes : Memory) :
    OnlyLogs (store pgd vaddr length bytes : Steps (LoadState σ) Unit) := by
  refine .of_final fun s => ?_
  rw [Steps.final, store]
  split_ifs
  · exact List.prefix_append _ _
  · exact List.prefix_append _ _

theorem vmmAllocRange_logs (vaddr size : Nat) (prot : Pgprot) :
    OnlyLogs (vmmAllocRange pgd vaddr size prot : Steps (LoadState σ) Int) := by
  refine .of_final fun s => ?_
  rw [Steps.final, vmmAllocRange]
  cases s.mmu.vmmAllocRange pgd vaddr size prot with
  | ok r => exact List.prefix_append _ _
  | error e => exact List.prefix_append _ _

theorem vfsRead_logs (f : File) (count : Nat) : OnlyLogs (vfsRead env fops f count) := by
  refine .ite (.pure _) (.ite (.pure _) (.of_final fun s => ?_))
  rw [Steps.final, fromDisk]
  cases fops.read f (if count > ssizeMax then ssizeMax else count) s.disk with
  | ok a d => exact List.prefix_rfl
  | error e d => exact List.prefix_rfl

theorem mmAddAlloc_logs (addr pageCount : Nat) :
    OnlyLogs (mmAddAlloc env addr pageCount : Steps (LoadState σ) Int) := by
  refine .of_final fun s => ?_
  have same := ((mmAddAlloc_still env addr pageCount).final s).1
  exact ⟨[], by rw [same, List.append_nil]⟩

theorem copySegment_logs (f : File) (phdr : ProgramHeader) (count : Int) :
    OnlyLogs (copySegment env fops pgd f phdr count) := by
  refine .bind (vfsRead_logs f _) fun a => .bind (store_logs _ _ _) fun _ => .ite (.pure _) ?_
  refine .bind (.ite (store_logs _ _ _) (.pure _)) fun _ => ?_
  exact .bind (mmAddAlloc_logs _ _) fun _ => .pure _

theorem loadProgramHeader_logs (f : File) (phdr : ProgramHeader) :
    OnlyLogs (loadProgramHeader env fops pgd f phdr) := by
  refine .ite (.pure _) (.ite (.pure _) (.bind (vmmAllocRange_logs _ _ _) fun count => ?_))
  exact .ite (.pure _) (.ite (.pure _) (copySegment_logs _ _ _))

theorem loadHeaders_logs (phdrs : List ProgramHeader) (f : File) : OnlyLogs (loadHeaders env fops pgd phdrs f) := by
  induction phdrs generalizing f with
  | nil => exact .pure _
  | cons phdr rest ih => exact .bind (loadProgramHeader_logs f phdr) fun r => .ite (.pure _) (ih r.2)

theorem loadProgramHeader_asks {phdr : ProgramHeader} (loadable : phdr.loadable = true) (f : File) (s : LoadState σ) :
    .map s.mmu phdr.base phdr.mappedSize phdr.prot ∈ ((loadProgramHeader env fops pgd f phdr).final s).log := by
  obtain ⟨type, vaddr, paddr⟩ := phdr.loadable_iff.mp loadable
  rw [loadProgramHeader, if_neg (not_not.mpr type), if_neg (by tauto)]
  refine (OnlyLogs.after (x := vmmAllocRange pgd (pageAlignDown phdr.vaddr) phdr.mappedSize phdr.prot) ?_ s).subset ?_
  · intro count
    exact .ite (.pure _) (.ite (.pure _) (copySegment_logs _ _ _))
  · rw [Steps.final, vmmAllocRange]
    cases s.mmu.vmmAllocRange pgd (pageAlignDown phdr.vaddr) phdr.mappedSize phdr.prot with
    | ok r => exact List.mem_append_right _ (List.mem_singleton.mpr rfl)
    | error e => exact List.mem_append_right _ (List.mem_singleton.mpr rfl)

theorem LoadRun.loadHeaders {pre rest : List ProgramHeader} {f f' : File} {s s' : LoadState σ}
    (run : LoadRun env fops pgd pre f s f' s') :
    loadHeaders env fops pgd (pre ++ rest) f s = loadHeaders env fops pgd rest f' s' := by
  induction run with
  | nil => rfl
  | cons one goesOn later ih =>
      rw [List.cons_append, Elf.loadHeaders, Steps.bind_ok one]
      dsimp only
      rw [if_neg goesOn, ih]

theorem elfLoad_asks {pre post : List ProgramHeader} {phdr : ProgramHeader} {f₀ f₁ : File} {eh : ElfHeader}
    {s s₀ s₁ : LoadState σ} (opened : elfOpen env fops s = .ok (.ok (f₀, eh, pre ++ phdr :: post)) s₀)
    (run : LoadRun env fops pgd pre f₀ s₀ f₁ s₁) (loadable : phdr.loadable = true) :
    .map s₁.mmu phdr.base phdr.mappedSize phdr.prot ∈ ((elfLoad env fops pgd).final s).log := by
  rw [elfLoad, Steps.final_bind opened]
  refine (OnlyLogs.after (x := loadHeaders env fops pgd (pre ++ phdr :: post) f₀) ?_ s₀).subset ?_
  · intro r
    exact .ite (.bind (vfsClose_logs _) fun _ => .bind (kfree_logs _) fun _ => .pure _)
      (.bind (kfree_logs _) fun _ => .bind (vfsClose_logs _) fun _ => .pure _)
  · rw [Steps.final_of_eq run.loadHeaders, Elf.loadHeaders]
    refine (OnlyLogs.after (x := loadProgramHeader env fops pgd f₁ phdr) ?_ s₁).subset
      (loadProgramHeader_asks loadable f₁ s₁)
    exact fun r => .ite (.pure _) (loadHeaders_logs post r.2)

end Logs

/-! Every page -/

section Fresh

variable {s : LoadState σ}

theorem SafeRequest.free {m : Mmu} {phdr : ProgramHeader} (words : phdr.Words)
    (safe : SafeRequest pgd m phdr.base phdr.mappedSize) {a : Nat} (covers : phdr.Covers a) :
    a < userEnd ∧ translate m.tables pgd a = none := by
  obtain ⟨above, below⟩ := covers
  have aligned : phdr.base % pageSize = 0 := Nat.mul_mod_left _ _
  have inside : (a - phdr.base) / pageSize < phdr.pages := by
    rw [Nat.div_lt_iff_lt_mul (by decide)]
    omega
  have user : a < userEnd := by
    -- Otherwise the first page of the hole is among them, or the first page of all is above it.
    by_contra high
    have first := (safe 0 (Nat.zero_lt_of_lt inside)).1
    have hole := safe ((userEnd - phdr.base) / pageSize)
    have word := ProgramHeader.base_lt words
    have pages : pageAlignUp phdr.mappedSize / pageSize = phdr.pages := rfl
    rw [pages] at hole
    simp only [pageSize, userEnd, word64] at *
    omega
  obtain ⟨_, none⟩ := safe _ inside
  have same : SameBlock 0 ((phdr.base + (a - phdr.base) / pageSize * pageSize) % word64) a := by
    simp only [SameBlock, span_zero, addressBits, pageSize, userEnd, word64] at *
    omega
  exact ⟨user, (same.translate_eq _ _).symm.trans none⟩

theorem ComesTo.header (serves : Serves fops size content good) (finds : Finds env good s) {pre : List ProgramHeader}
    {phdr : ProgramHeader} (comes : ComesTo env fops pgd s pre phdr) :
    ∃ f₀ post s₀ f₁ s₁, elfOpen env fops s = .ok (.ok (f₀, ElfHeader.decode content, pre ++ phdr :: post)) s₀ ∧
      LoadRun env fops pgd pre f₀ s₀ f₁ s₁ ∧ IsOpen good size f₀ s₀ ∧ Quiet s s₀ ∧
      headersOf content = pre ++ phdr :: post := by
  obtain ⟨f₀, eh, post, s₀, f₁, s₁, opened, run⟩ := comes
  obtain ⟨out, s₀', call, ends⟩ := elfOpen_ends serves finds
  cases opened.symm.trans call
  generalize list : pre ++ phdr :: post = phdrs at ends
  cases ends with
  | ready table isOpen quiet held => exact ⟨f₀, post, s₀, f₁, s₁, opened, run, isOpen, quiet, list.symm⟩

theorem freshUser_of_safe (serves : Serves fops size content good) (finds : Finds env good s)
    (start : StackOnly s.mmu pgd) (safe : SafeEnd pgd s.mmu (elfLoad env fops pgd) s) {pre : List ProgramHeader}
    {phdr : ProgramHeader} (comes : ComesTo env fops pgd s pre phdr) (loadable : phdr.loadable = true) :
    FreshUser pre phdr := by
  obtain ⟨f₀, post, s₀, f₁, s₁, opened, run, isOpen, quiet, headers⟩ := comes.header serves finds
  have asked := safe.state.requests _ _ _ _ (elfLoad_asks opened run loadable)
  have words : ∀ p ∈ pre ++ phdr :: post, p.Words := headers ▸ programHeaders_words
  have before : ∀ p ∈ pre, p.Words := fun p member => words p (List.mem_append_left _ member)
  have inv : LoopInv good size pgd f₀ s₀ := ⟨isOpen, quiet.tree start.tree⟩
  intro a covers
  obtain ⟨user, none⟩ := asked.free (words phdr (by simp)) covers
  refine ⟨user, fun stack => ?_, fun q member aligned there => ?_⟩
  · obtain ⟨leaf, found⟩ := Option.isSome_iff_exists.mp ((start.user a user).mpr stack)
    rw [← quiet.tables] at found
    cases none.symm.trans (run.stays serves before inv found)
  · obtain ⟨_, _, _, found⟩ := run.mapped serves before inv member aligned (ProgramHeader.among_of_covers user there)
    cases none.symm.trans found

end Fresh

def sharingHeader : ProgramHeader := { dataHeader with vaddr := 0x400800, paddr := 0x400800, align := 8 }

def upperHeader : ProgramHeader := { dataHeader with vaddr := 0xFFFFF00000000000, paddr := 0 }

theorem comesTo_first {env : LoadEnv} {fops : FileOps σ} {size : Nat} {content : Memory} {good : Inode → σ → Prop}
    {s : LoadState σ} (pgd : Nat) (serves : Serves fops size content good) (finds : Finds env good s)
    (working : Working env fops good) (table : HasTable size content) {phdr : ProgramHeader}
    {post : List ProgramHeader} (headers : headersOf content = phdr :: post) : ComesTo env fops pgd s [] phdr := by
  obtain ⟨out, s₀, call, ends⟩ := elfOpen_ends serves finds
  cases ends with
  | refused error quiet held cause =>
      have far := cause working table.header
      exact absurd table.near (Nat.not_le.mpr far)
  | odd odd quiet held => exact absurd table odd.not_table
  | @ready f₀ _ table isOpen quiet held =>
      rw [headersOf] at headers
      rw [headers] at call
      exact ⟨f₀, _, post, s₀, f₀, s₀, call, .nil⟩

end SnapOS.Elf
