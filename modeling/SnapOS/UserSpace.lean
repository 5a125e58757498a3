/- The address space of a task before its program is loaded: mm_create and mm_alloc_main_stack. -/
import SnapOS.AllocList
import SnapOS.DirectMap
import SnapOS.FreshPages

namespace SnapOS.Paging
open SnapOS.Lib SnapOS.Mm

def InStack (a : Nat) : Prop := stackBottom ≤ a ∧ a < taskUserStackTopAddr

/-- A tree of page tables whose lower half has the stack and nothing else. -/
structure StackOnly (m : Mmu) (pgd : Nat) : Prop where
  tree : WellFormedTree m pgd
  user : ∀ a < userEnd, (translate m.tables pgd a).isSome ↔ InStack a

/-- What `vmm_init` and the mappings of devices leave to `mm_create`: a tree without a table for the lower half. -/
structure KernelSpace (s : Vmm) : Prop where
  tree : WellFormedTree s.mmu s.kernelPgd
  lower : ∀ i < lowerSlots, present (s.mmu.tables s.kernelPgd i) = false

section Copy

variable {m : Mmu} {kernelPgd : Nat}

/-- Below the copy of the top-level table are the tables of the kernel. -/
theorem WellFormedTree.tableAt_copy (tree : WellFormedTree m kernelPgd) {f : Frame} (member : f ∈ m.pool) {p : Place}
    {t : Nat} (table : TableAt (Function.update m.tables f.paddr (m.tables kernelPgd)) f.paddr p t) :
    p = ⟨false, 3, 0⟩ ∧ t = f.paddr ∨ p.level < 3 ∧ TableAt m.tables kernelPgd p t ∧ t ≠ f.paddr := by
  induction table with
  | top => exact Or.inl ⟨rfl, rfl⟩
  | @down p t i above index inner here notLeaf ih =>
      refine Or.inr ?_
      have lower : p.level - 1 < 3 ∧ TableAt m.tables kernelPgd ⟨false, p.level - 1, p.key * 512 + i⟩
          (entryPaddr (Function.update m.tables f.paddr (m.tables kernelPgd) t i)) := by
        rcases ih with ⟨rfl, rfl⟩ | ⟨level, old, other⟩
        · rw [Function.update_self] at here notLeaf ⊢
          exact ⟨by decide, .down .top index inner here notLeaf⟩
        · rw [Function.update_of_ne other] at here notLeaf ⊢
          exact ⟨by omega, .down old index inner here notLeaf⟩
      refine ⟨lower.1, lower.2, fun same => ?_⟩
      exact tree.poolUnused f member _ (same ▸ lower.2)

theorem WellFormedTree.copy (tree : WellFormedTree m kernelPgd) {f : Frame} {rest : List Frame}
    (pool : m.pool = f :: rest) :
    WellFormedTree (Mmu.fillFrame { m with pool := rest } f.paddr (m.tables kernelPgd)) f.paddr := by
  have member : f ∈ m.pool := pool ▸ List.mem_cons_self
  have nodup := tree.poolDistinct
  rw [pool, List.nodup_cons] at nodup
  refine ⟨fun {p q t} first second => ?_, fun {p t i} found index inner here notLeaf => ?_, nodup.2,
    fun g later p table => ?_⟩
  · rcases tree.tableAt_copy member first with ⟨rfl, top⟩ | ⟨_, old, other⟩ <;>
      rcases tree.tableAt_copy member second with ⟨rfl, top'⟩ | ⟨_, old', other'⟩
    · rfl
    · exact absurd top other'
    · exact absurd top' other
    · exact tree.distinct old old'
  · change present (Function.update m.tables f.paddr (m.tables kernelPgd) t i) = true at here
    change (p.level < 3 && large (Function.update m.tables f.paddr (m.tables kernelPgd) t i)) = false at notLeaf
    change large (Function.update m.tables f.paddr (m.tables kernelPgd) t i) = false ∧
      Function.update m.tables f.paddr (m.tables kernelPgd) t i &&& _ = _ ∧
        Function.update m.tables f.paddr (m.tables kernelPgd) t i &&& _ = 0
    rcases tree.tableAt_copy member found with ⟨rfl, rfl⟩ | ⟨_, old, other⟩
    · rw [Function.update_self] at here notLeaf ⊢
      exact tree.allowing .top index inner here notLeaf
    · rw [Function.update_of_ne other] at here notLeaf ⊢
      exact tree.allowing old index inner here notLeaf
  · rcases tree.tableAt_copy member table with ⟨_, same⟩ | ⟨_, old, _⟩
    · exact nodup.1 (Frame.ext_paddr same ▸ later)
    · exact tree.poolUnused g (pool ▸ List.mem_cons_of_mem f later) p old

end Copy

theorem among_iff {vaddr pages a : Nat} (aligned : vaddr % pageSize = 0) (low : vaddr + pages * pageSize ≤ userEnd)
    (canonical : Canonical a) : Among vaddr pages a ↔ vaddr ≤ a ∧ a < vaddr + pages * pageSize := by
  simp only [Among, SameBlock, span_zero, addressBits, Canonical, pageSize, userEnd, word64] at *
  constructor
  · rintro ⟨k, before, same⟩
    omega
  · rintro ⟨above, below⟩
    exact ⟨(a - vaddr) / 4096, by omega, by omega⟩

theorem mmCreate_ok {v v' : Vmm} {kzallocOk : Bool} {taken : Nat} {mm : MmStruct}
    (created : v.mmCreate kzallocOk taken = (.ok mm, v')) :
    ∃ f rest, v.mmu.pool.drop taken = f :: rest ∧ mm.pgd = f.paddr ∧ mm.refCount = 1 ∧
      v'.mmu = Mmu.fillFrame { v.mmu with pool := rest } f.paddr (v.mmu.tables v.kernelPgd) := by
  cases kzallocOk with
  | false => cases created
  | true =>
      simp only [Vmm.mmCreate, Vmm.vmmCopyKpgtbl, Mmu.pmmCurrentAllocFrame, if_true] at created
      cases pool : v.mmu.pool.drop taken with
      | nil =>
          rw [pool] at created
          cases created
      | cons f rest =>
          rw [pool] at created
          cases created
          exact ⟨f, rest, rfl, rfl, rfl, rfl⟩

/-- The entries of the kernel's top-level table that `vmm_init` may write, and all those below it. -/
def upperCells (p : Place) (i : Nat) : Prop := p.level = 3 → lowerSlots ≤ i

theorem initWithin_upper {clean : List PhysRegion} (k : KernelImage) (proper : ∀ r ∈ clean, r.start < r.stop)
    (below : ∀ r ∈ clean, r.type = .usable → r.stop ≤ directLimit) :
    placeTrunk.InitWithin upperCells clean k.kernelEnd := by
  have half : kernelHalf ≤ idVirtRegionStart ∧ idVirtRegionStart < kernelStartVirtAddr := by decide
  refine ⟨fun r member usable n within _ => ?_, fun n within _ => ?_, fun a n low top => ?_⟩
  · obtain ⟨_, fits, length, start⟩ := region_window (proper r member) (below r member usable)
    rw [length] at within
    have bounded : pageAlignDown r.start + idVirtRegionStart + n < word64 := by
      simp only [directLimit, kernelStartVirtAddr, idVirtRegionStart, word64] at *
      omega
    rw [start, Nat.mod_eq_of_lt bounded]
    exact tableIndex_upper (by omega) bounded
  · have short := kernelSize_le k.above k.fits
    have bounded : kernelStartVirtAddr + n < word64 := by
      simp only [kernelStartVirtAddr, word64] at *
      omega
    rw [Nat.mod_eq_of_lt bounded]
    exact tableIndex_upper (by omega) bounded
  · change n = 3 at top
    omega

/-- What `vmm_init` maps is in the upper half, if the memory of the machine is below the end of the window. -/
theorem KernelSpace.of_vmmInit {clean : List PhysRegion} (k : KernelImage) {m : Mmu} {s : Vmm}
    (distinct : m.pool.Nodup) (proper : ∀ r ∈ clean, r.start < r.stop)
    (below : ∀ r ∈ clean, r.type = .usable → r.stop ≤ directLimit)
    (init : vmmInit clean k.kernelEnd m = .ok (0, s)) : KernelSpace s := by
  obtain ⟨roles, typed, known, _, empty⟩ := placeTrunk.typed_vmmInit distinct (initWithin_upper k proper below) init
  refine ⟨typed.wellFormed known, fun i low => ?_⟩
  rw [empty i fun upper => Nat.not_le.mpr low (upper rfl)]
  rfl

theorem KernelSpace.mmCreate {s s' : Vmm} (kernel : KernelSpace s) {kzallocOk : Bool} {taken : Nat} {mm : MmStruct}
    (created : s.mmCreate kzallocOk taken = (.ok mm, s')) : WellFormedTree s'.mmu mm.pgd ∧
      ∀ a < userEnd, translate s'.mmu.tables mm.pgd a = none := by
  obtain ⟨frame, rest, pool, pgd, _, mmu⟩ := mmCreate_ok created
  rw [mmu, pgd]
  refine ⟨(kernel.tree.drop taken).copy pool, fun a low => translateFrom_empty ?_⟩
  have top : (Mmu.fillFrame { s.mmu with pool := rest } frame.paddr (s.mmu.tables s.kernelPgd)).tables frame.paddr =
      s.mmu.tables s.kernelPgd := Function.update_self _ _ _
  rw [top]
  exact kernel.lower _ (tableIndex_lower low)

theorem StackOnly.of_created {s s' : Vmm} (kernel : KernelSpace s) {kzallocOk : Bool} {taken : Nat} {mm : MmStruct}
    (created : s.mmCreate kzallocOk taken = (.ok mm, s')) {allocs allocs' : AllocMem} {ptr : Nat} {m : Mmu}
    (stack : mmAllocMainStack s'.mmu allocs mm.pgd ptr = .ok (0, m, allocs')) : StackOnly m mm.pgd := by
  obtain ⟨tree, empty⟩ := kernel.mmCreate created
  rw [mmAllocMainStack] at stack
  obtain ⟨⟨count, m₁⟩, call, stack⟩ := Exec.bind_eq_ok.mp stack
  dsimp only at stack
  split_ifs at stack with few
  · cases stack
  obtain ⟨⟨res, _⟩, _, stack⟩ := Exec.bind_eq_ok.mp stack
  dsimp only at stack
  obtain rfl : m₁ = m := by
    split_ifs at stack <;> cases stack <;> rfl
  obtain ⟨tree', mapped, _, outcome, fresh⟩ := tree.allocRange rfl (by decide) call
  have negative : -eNoMem < 0 := by decide
  obtain ⟨_, rfl⟩ := outcome.resolve_left (by omega)
  refine ⟨tree', fun a low => ?_⟩
  have range : Among stackBottom (pageAlignUp taskUserStackSize / pageSize) a ↔
      stackBottom ≤ a ∧ a < stackBottom + pageAlignUp taskUserStackSize / pageSize * pageSize :=
    among_iff (by decide) (by decide) (Or.inl (by simp only [userEnd] at low; omega))
  have whole : stackBottom + pageAlignUp taskUserStackSize / pageSize * pageSize = taskUserStackTopAddr := by decide
  rw [whole] at range
  rw [InStack, ← range]
  by_cases among : Among stackBottom (pageAlignUp taskUserStackSize / pageSize) a
  · obtain ⟨_, _, _, found⟩ := fresh.mapped a among
    rw [found]
    exact iff_of_true rfl among
  · rw [fresh.others a among, empty a low]
    exact iff_of_false (by decide) among

/-! An address space of a small machine -/

theorem sampleStart_space : KernelSpace sampleStart :=
  .of_vmmInit ⟨kernelStartVirtAddr + 0x1000, by decide, by decide⟩ sampleMmu_distinct (by decide) (by decide)
    sampleInit_eq

def plainSpace : MmStruct := ⟨0x207000, [], 1⟩

theorem plainSpace_created :
    sampleStart.mmCreate true 0 = (.ok plainSpace, (sampleStart.mmCreate true 0).2) :=
  Prod.ext (by decide +kernel) rfl

def plainStack : Exec (Int × Mmu × AllocMem) :=
  mmAllocMainStack (sampleStart.mmCreate true 0).2.mmu AllocMem.noAllocs plainSpace.pgd 8

def stackMmu : Mmu := (plainStack.toOption.map fun r => r.2.1).getD sampleMmu

theorem plainStack_made : ∃ allocs, plainStack = .ok (0, stackMmu, allocs) := by
  have returned : plainStack.toOption.map Prod.fst = some 0 := by decide +kernel
  rw [stackMmu]
  cases outcome : plainStack with
  | error e =>
      rw [outcome] at returned
      cases returned
  | ok r =>
      rw [outcome] at returned
      rw [← Option.some.inj returned]
      exact ⟨r.2.2, rfl⟩

end SnapOS.Paging
