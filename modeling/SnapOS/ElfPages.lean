/- The pages that elf_load maps along its loop, and their permissions. -/
import SnapOS.ElfStores

namespace SnapOS.Elf
open SnapOS.Lib SnapOS.Fs SnapOS.Ext2Io SnapOS.Paging

variable {σ : Type} {env : LoadEnv} {fops : FileOps σ} {size : Nat} {content : Memory} {good : Inode → σ → Prop}
  {pgd : Nat}

namespace ProgramHeader

/-- The first page and the number of pages that are asked for. -/
def base (phdr : ProgramHeader) : Nat := pageAlignDown phdr.vaddr

def pages (phdr : ProgramHeader) : Nat := pageAlignUp phdr.mappedSize / pageSize

theorem base_lt {phdr : ProgramHeader} (words : phdr.Words) : phdr.base < word64 :=
  Nat.lt_of_le_of_lt (Nat.div_mul_le_self _ _) words.vaddr

theorem decode_words (m : Memory) (base : Nat) : (ProgramHeader.decode m base).Words :=
  ⟨Memory.load_lt m _ 8, Memory.load_lt m _ 8, Memory.load_lt m _ 8, Memory.load_lt m _ 8⟩

end ProgramHeader

theorem programHeaders_words {m : Memory} {base count : Nat} : ∀ phdr ∈ programHeaders m base count, phdr.Words := by
  intro phdr member
  obtain ⟨i, _, rfl⟩ := List.mem_map.mp member
  exact ProgramHeader.decode_words m _

/-! One header -/

section Header

variable {f : File} {phdr : ProgramHeader} {s s' : LoadState σ} {r : Int × File}

/-- What a header does to the page tables: all of its pages are mapped if the loop goes on. -/
structure SegmentMaps (pgd : Nat) (phdr : ProgramHeader) (m : Mmu) (res : Int) (m' : Mmu) : Prop where
  tree : WellFormedTree m' pgd
  fresh : ∃ mapped ≤ phdr.pages, MapsFresh m pgd phdr.base mapped phdr.prot m' ∧
    (phdr.loadable = false → mapped = 0) ∧ (¬ res < 0 → phdr.loadable = true → mapped = phdr.pages)

theorem Asked.maps {count : Int} {m : Mmu} (tree : WellFormedTree s.mmu pgd) (words : phdr.Words)
    (asked : Asked pgd phdr s count m) : WellFormedTree m pgd ∧ ∃ mapped ≤ phdr.pages,
      MapsFresh s.mmu pgd phdr.base mapped phdr.prot m ∧ (0 ≤ count → mapped = phdr.pages) := by
  obtain ⟨tree', mapped, le, outcome, fresh⟩ := tree.allocRange rfl (ProgramHeader.base_lt words) asked.call
  have negative : -eNoMem < 0 := by decide
  exact ⟨tree', mapped, le, fresh, fun enough => (outcome.resolve_left (by omega)).2⟩

theorem Quiet.tree {s s' : LoadState σ} (quiet : Quiet s s') (tree : WellFormedTree s.mmu pgd) :
    WellFormedTree s'.mmu pgd := by
  obtain ⟨n, frames⟩ := quiet.frames
  rw [frames]
  exact tree.drop n

theorem SegmentEnds.maps (serves : Serves fops size content good) (isOpen : IsOpen good size f s)
    (tree : WellFormedTree s.mmu pgd) (words : phdr.Words) (ends : SegmentEnds env fops pgd f phdr s r s') :
    SegmentMaps pgd phdr s.mmu r.1 s'.mmu := by
  cases ends with
  | skipped other =>
      refine ⟨tree, 0, Nat.zero_le _, .nothing, fun _ => rfl, fun _ loadable => ?_⟩
      cases other.symm.trans loadable
  | unmapped asked few =>
      obtain ⟨tree', mapped, le, fresh, _⟩ := asked.maps tree words
      refine ⟨tree', mapped, le, fresh, fun other => ?_, fun done => absurd ?_ done⟩
      · cases other.symm.trans asked.loadable
      · rw [vmmAllocRange_negative asked.call few]
        exact (by decide : toInt (-eNoMem) < 0)
  | unsought asked enough far moved =>
      obtain ⟨tree', mapped, le, fresh, all⟩ := asked.maps tree words
      refine ⟨tree', mapped, le, fresh, fun other => ?_, fun _ _ => all enough⟩
      cases other.symm.trans asked.loadable
  | unread copied stores failed =>
      obtain ⟨tree', mapped, le, fresh, all⟩ := copied.toAsked.maps tree words
      obtain ⟨_, quiet, _, _⟩ := copied.answered serves isOpen
      refine ⟨quiet.tree tree', mapped, le, fresh.of_tables quiet.tables, fun other => ?_, fun _ _ => all copied.enough⟩
      cases other.symm.trans copied.loadable
  | loaded copied stores done zeros mmu disk held log =>
      obtain ⟨tree', mapped, le, fresh, all⟩ := copied.toAsked.maps tree words
      obtain ⟨_, quiet, _, _⟩ := copied.answered serves isOpen
      obtain ⟨n, frames⟩ := mmu
      have tables : s'.mmu.tables = _ := (congrArg Mmu.tables frames).trans quiet.tables
      refine ⟨?_, mapped, le, fresh.of_tables tables, fun other => ?_, fun _ _ => all copied.enough⟩
      · rw [frames]
        exact (quiet.tree tree').drop n
      · cases other.symm.trans copied.loadable

end Header

/-! The loop -/

inductive LoadRun (env : LoadEnv) (fops : FileOps σ) (pgd : Nat) :
    List ProgramHeader → File → LoadState σ → File → LoadState σ → Prop where
  | nil {f : File} {s : LoadState σ} : LoadRun env fops pgd [] f s f s
  | cons {phdr : ProgramHeader} {rest : List ProgramHeader} {f f' : File} {s s' : LoadState σ} {r : Int × File}
      {s₁ : LoadState σ} (one : loadProgramHeader env fops pgd f phdr s = .ok r s₁) (goesOn : ¬ r.1 < 0)
      (later : LoadRun env fops pgd rest r.2 s₁ f' s') : LoadRun env fops pgd (phdr :: rest) f s f' s'

section Loop

variable {f f' : File} {phdr : ProgramHeader} {phdrs : List ProgramHeader} {s s' : LoadState σ} {r : Int × File}

theorem loadHeaders_run (done : loadHeaders env fops pgd phdrs f s = .ok r s') (through : ¬ r.1 < 0) :
    LoadRun env fops pgd phdrs f s r.2 s' := by
  induction phdrs generalizing f s with
  | nil =>
      cases done
      exact .nil
  | cons phdr rest ih =>
      rw [loadHeaders] at done
      obtain ⟨⟨res, f₁⟩, s₁, one, done⟩ := Steps.bind_eq_ok.mp done
      dsimp only at done
      split_ifs at done with failed
      · cases done
        exact absurd failed through
      · exact .cons one failed (ih done)

structure LoopInv (good : Inode → σ → Prop) (size pgd : Nat) (f : File) (s : LoadState σ) : Prop where
  isOpen : IsOpen good size f s
  tree : WellFormedTree s.mmu pgd

theorem LoopInv.step (serves : Serves fops size content good) (words : phdr.Words) (inv : LoopInv good size pgd f s)
    {s₁ : LoadState σ} (one : loadProgramHeader env fops pgd f phdr s = .ok r s₁) :
    LoopInv good size pgd r.2 s₁ ∧ SegmentEnds env fops pgd f phdr s r s₁ ∧ SegmentMaps pgd phdr s.mmu r.1 s₁.mmu := by
  have ends := loadProgramHeader_ends (serves.regular inv.isOpen.good) (serves.sized inv.isOpen.good ▸ serves.word)
    words.offset one
  have maps := ends.maps serves inv.isOpen inv.tree words
  exact ⟨⟨(ends.keptOpen serves inv.isOpen).isOpen, maps.tree⟩, ends, maps⟩

theorem LoadRun.inv (serves : Serves fops size content good) (words : ∀ phdr ∈ phdrs, phdr.Words)
    (inv : LoopInv good size pgd f s) (run : LoadRun env fops pgd phdrs f s f' s') : LoopInv good size pgd f' s' := by
  induction run with
  | nil => exact inv
  | cons one goesOn later ih =>
      exact ih (fun p member => words p (List.mem_cons_of_mem _ member))
        (inv.step serves (words _ List.mem_cons_self) one).1

theorem LoadRun.stays (serves : Serves fops size content good) (words : ∀ phdr ∈ phdrs, phdr.Words)
    (inv : LoopInv good size pgd f s) (run : LoadRun env fops pgd phdrs f s f' s') {a : Nat} {leaf : Leaf}
    (found : translate s.mmu.tables pgd a = some leaf) : translate s'.mmu.tables pgd a = some leaf := by
  induction run with
  | nil => exact found
  | cons one goesOn later ih =>
      obtain ⟨inv₁, _, maps⟩ := inv.step serves (words _ List.mem_cons_self) one
      obtain ⟨mapped, _, fresh, _⟩ := maps.fresh
      exact ih (fun p member => words p (List.mem_cons_of_mem _ member)) inv₁ (fresh.stays found)

theorem LoadRun.mapped (serves : Serves fops size content good) (words : ∀ phdr ∈ phdrs, phdr.Words)
    (inv : LoopInv good size pgd f s) (run : LoadRun env fops pgd phdrs f s f' s') (member : phdr ∈ phdrs)
    (loadable : phdr.loadable = true) {a : Nat} (among : Among phdr.base phdr.pages a) :
    ∃ (frame : Frame) (every any : Nat), translate s'.mmu.tables pgd a =
      some ⟨Mmu.leafEntry frame.paddr .page4k phdr.prot, 0, every, any⟩ := by
  induction run with
  | nil => cases member
  | @cons first rest f f' s s' r s₁ one goesOn later ih =>
      have words' : ∀ p ∈ rest, p.Words := fun p member => words p (List.mem_cons_of_mem _ member)
      obtain ⟨inv₁, _, maps⟩ := inv.step serves (words _ List.mem_cons_self) one
      rcases List.mem_cons.mp member with rfl | behind
      · obtain ⟨mapped, _, fresh, _, all⟩ := maps.fresh
        obtain ⟨frame, every, any, found⟩ := fresh.mapped a (all goesOn loadable ▸ among)
        exact ⟨frame, every, any, later.stays serves words' inv₁ found⟩
      · exact ih words' inv₁ behind

end Loop

def headersOf (content : Memory) : List ProgramHeader :=
  programHeaders content (ElfHeader.decode content).phoff (ElfHeader.decode content).phnum

structure GotThrough (env : LoadEnv) (fops : FileOps σ) (good : Inode → σ → Prop) (size : Nat) (content : Memory)
    (pgd : Nat) (s s' : LoadState σ) : Prop where
  table : HasTable size content
  run : ∃ f₀ s₀ f₁ s₁, Quiet s s₀ ∧ LoopInv good size pgd f₀ s₀ ∧
    LoadRun env fops pgd (headersOf content) f₀ s₀ f₁ s₁ ∧ s'.mmu = s₁.mmu ∧ s'.log = s₁.log

section Through

variable {s s' : LoadState σ}

theorem elfLoad_loaded (serves : Serves fops size content good) (finds : Finds env good s)
    (tree : WellFormedTree s.mmu pgd) {entry : Nat} (done : elfLoad env fops pgd s = .ok (.loaded entry) s') :
    entry = (ElfHeader.decode content).entry ∧ GotThrough env fops good size content pgd s s' := by
  obtain ⟨out, s₀, call, ends⟩ := elfOpen_ends serves finds
  rw [elfLoad, Steps.bind_ok call] at done
  cases ends with
  | refused error quiet held cause => cases done
  | odd odd quiet held => cases done
  | @ready f₀ _ table isOpen quiet held =>
      obtain ⟨⟨res, f₁⟩, s₁, loop, done⟩ := Steps.bind_eq_ok.mp done
      dsimp only at done
      split_ifs at done with failed
      · obtain ⟨_, s₂, _, done⟩ := Steps.bind_eq_ok.mp done
        obtain ⟨_, s₃, _, done⟩ := Steps.bind_eq_ok.mp done
        cases done
      · have inv : LoopInv good size pgd f₀ s₀ := ⟨isOpen, quiet.tree tree⟩
        have run := loadHeaders_run loop failed
        have last := run.inv serves programHeaders_words inv
        rw [Steps.bind_ok (x := kfree .headers) rfl, Steps.bind_ok (vfsClose_last last.isOpen.referenced _)] at done
        obtain ⟨same, rfl⟩ := EStateM.Result.ok.inj done
        exact ⟨(Outcome.loaded.inj same).symm, table, f₀, s₀, f₁, s₁, quiet, inv, run, rfl, rfl⟩

end Through

/-! Permissions -/

/-- The page is for the user, and it can be written and executed exactly as the header says. -/
structure Permits (phdr : ProgramHeader) (leaf : Leaf) : Prop where
  user : leaf.flags &&& pageUser ≠ 0
  write : leaf.flags &&& pageRw ≠ 0 ↔ phdr.flags &&& elfPhdrFlagWrite ≠ 0
  exec : leaf.flags &&& pageNoExecute = 0 ↔ phdr.flags &&& elfPhdrFlagExec ≠ 0

/-- The permissions that the processor finds at each user page of a header follow the header. -/
def PermissionsFollow (m : Mmu) (pgd : Nat) (phdrs : List ProgramHeader) : Prop :=
  ∀ phdr ∈ phdrs, phdr.loadable = true → ∀ a < userEnd, InPages phdr.base phdr.mappedSize a →
    ∃ leaf, translate m.tables pgd a = some leaf ∧ Permits phdr leaf

theorem ProgramHeader.prot_only (phdr : ProgramHeader) : phdr.prot.protFlags &&& flagMask = phdr.prot.protFlags := by
  rw [ProgramHeader.prot]
  dsimp only
  split_ifs <;> decide

theorem WellFormedTree.leaf_flags {m : Mmu} {pgd a every any : Nat} {frame : Frame} {prot : Pgprot}
    (tree : WellFormedTree m pgd) (only : prot.protFlags &&& flagMask = prot.protFlags)
    (found : translate m.tables pgd a = some ⟨Mmu.leafEntry frame.paddr .page4k prot, 0, every, any⟩) :
    Leaf.flags ⟨Mmu.leafEntry frame.paddr .page4k prot, 0, every, any⟩ = prot.protFlags := by
  have root : placesOf m pgd pgd = some (placeAt false a 3) := by
    rw [placeAt_top]
    exact tree.placesOf_iff.mpr .top
  have leafAt := tree.typed.translate_leaf (b := placeBranch _ false a) root found
  exact leafAt.flags.trans (leafEntry_flags frame.isFrame .page4k only)

theorem permits_iff {phdr : ProgramHeader} {leaf : Leaf} (flags : leaf.flags = phdr.prot.protFlags) :
    Permits phdr leaf ↔ phdr.flags &&& elfPhdrFlagWrite ≠ 0 := by
  have user : phdr.prot.protFlags &&& pageUser ≠ 0 := by
    rw [ProgramHeader.prot]
    dsimp only
    split_ifs <;> decide
  have write : phdr.prot.protFlags &&& pageRw ≠ 0 := by
    rw [ProgramHeader.prot]
    dsimp only
    split_ifs <;> decide
  have exec : phdr.prot.protFlags &&& pageNoExecute = 0 ↔ phdr.flags &&& elfPhdrFlagExec ≠ 0 := by
    rw [ProgramHeader.prot]
    dsimp only
    by_cases plain : phdr.flags &&& elfPhdrFlagExec = 0
    · rw [if_pos plain]
      refine iff_of_false ?_ (not_not.mpr plain)
      split_ifs <;> decide
    · rw [if_neg plain]
      refine iff_of_true ?_ plain
      split_ifs <;> decide
  constructor
  · intro permits
    exact permits.write.mp (flags ▸ write)
  · intro writes
    refine ⟨flags ▸ user, iff_of_true (flags ▸ write) writes, ?_⟩
    rw [flags]
    exact exec

section Follow

variable {s s' : LoadState σ}

end Follow

def dataHeader : ProgramHeader := ⟨elfPhdrLoad, 6, 0, 0x400000, 0x400000, 8, 16, 0x1000⟩

def codeHeader : ProgramHeader := { dataHeader with flags := 5 }

end SnapOS.Elf
