/- Address spaces: mm/vmm.c over the page tables, and mm_create of mm/mm.c. -/
import SnapOS.MemoryMap
import SnapOS.Paging

namespace SnapOS.Paging
open SnapOS.Lib SnapOS.Mm

structure MmAllocation where
  addr : Nat
  pageCount : Nat
  deriving DecidableEq, Repr

/-- `struct mm_struct`; the list under `allocs_head` is `allocs`. -/
structure MmStruct where
  pgd : Nat
  allocs : List MmAllocation
  refCount : Nat
  deriving DecidableEq, Repr

/-- `mms` lists what `mm_create` has returned. -/
structure Vmm where
  mmu : Mmu
  kernelPgd : Nat
  mms : List MmStruct

def directProt : Pgprot := ⟨pageRw ||| pageNoExecute, false⟩
def kernelProt : Pgprot := ⟨pageRw, true⟩
def ioremapProt : Pgprot := ⟨pageRw ||| pageCacheDisable ||| pageWriteThrough, true⟩

namespace Mmu

def mapRegion (pgd : Nat) (m : Mmu) (r : PhysRegion) : Exec Mmu :=
  if r.type ≠ .usable then .ok m
  else
    let physStart := pageAlignDown r.start
    let physEnd := pageAlignUp r.stop
    m.mmuMapRange pgd (physToVirt physStart) physStart ((physEnd + (word64 - physStart)) % word64) directProt

def vmmMapPage (m : Mmu) (pgd vaddr paddr : Nat) (prot : Pgprot) : Exec Mmu :=
  if !isPageAligned vaddr || !isPageAligned paddr then
    Exec.panic "vmm_map_page: vaddr or/and paddr are not page algined"
  else m.mmuMapRange pgd vaddr paddr pageSize prot

def vmmAllocPage (m : Mmu) (pgd vaddr : Nat) (prot : Pgprot) : Exec (Int × Mmu) :=
  if !isPageAligned vaddr then Exec.panic "vmm_alloc_page: vaddr is not page algined"
  else
    match m.pmmCurrentAllocFrame with
    | (none, m) => .ok (-eNoMem, m)
    | (some frame, m) => do
        let m ← m.vmmMapPage pgd vaddr frame.paddr prot
        .ok (0, m)

/-- The loop of `vmm_alloc_range`: pages mapped before a failure stay mapped. -/
def vmmAllocLoop (pgd : Nat) (prot : Pgprot) (m : Mmu) (vaddr size count : Nat) : Exec (Int × Mmu) :=
  if 0 < size then do
    let (res, m) ← m.vmmAllocPage pgd vaddr prot
    if res < 0 then .ok (res, m)
    else vmmAllocLoop pgd prot m ((vaddr + pageSize) % word64) (size - pageSize) (count + 1)
  else .ok (count, m)
termination_by size
decreasing_by exact Nat.sub_lt ‹0 < size› (by decide)

def vmmAllocRange (m : Mmu) (pgd vaddr size : Nat) (prot : Pgprot) : Exec (Int × Mmu) :=
  if !isPageAligned vaddr then Exec.panic "vmm_alloc_page: vaddr is not page algined"
  else vmmAllocLoop pgd prot m vaddr (pageAlignUp size) 0

end Mmu

/-- `kernelEnd` is the linker symbol `_kernel_end`. -/
def kernelSize (kernelEnd : Nat) : Nat :=
  pageAlignUp ((kernelEnd + (word64 - kernelStartVirtAddr)) % word64)

/-- While the tables are filled, those of the bootloader are taken to reach every frame of the pool. -/
def vmmInit (clean : List PhysRegion) (kernelEnd : Nat) (m : Mmu) : Exec (Int × Vmm) :=
  match m.pmmCurrentAllocFrame with
  | (none, m) => .ok (-eNoMem, ⟨m, 0, []⟩)
  | (some pgdRaw, m) => do
      let m ← clean.foldlM (Mmu.mapRegion pgdRaw.paddr) (m.fillFrame pgdRaw.paddr fun _ => 0)
      let m ← m.mmuMapRange pgdRaw.paddr kernelStartVirtAddr kernelStartPhysAddr (kernelSize kernelEnd) kernelProt
      .ok (0, ⟨m, pgdRaw.paddr, []⟩)

theorem vmmInit_ok {clean : List PhysRegion} {kernelEnd : Nat} {m : Mmu} {s : Vmm}
    (h : vmmInit clean kernelEnd m = .ok (0, s)) :
    ∃ pgdRaw rest m₁ m₂, m.pool = pgdRaw :: rest ∧
      clean.foldlM (Mmu.mapRegion pgdRaw.paddr)
        (Mmu.fillFrame { m with pool := rest } pgdRaw.paddr fun _ => 0) = .ok m₁ ∧
      m₁.mmuMapRange pgdRaw.paddr kernelStartVirtAddr kernelStartPhysAddr (kernelSize kernelEnd) kernelProt =
        .ok m₂ ∧ s = ⟨m₂, pgdRaw.paddr, []⟩ := by
  simp only [vmmInit, Mmu.pmmCurrentAllocFrame] at h
  cases pool : m.pool with
  | nil =>
      rw [pool] at h
      cases h
  | cons pgdRaw rest =>
      rw [pool] at h
      obtain ⟨m₁, regions, h⟩ := Exec.bind_eq_ok.mp h
      obtain ⟨m₂, image, h⟩ := Exec.bind_eq_ok.mp h
      cases h
      exact ⟨pgdRaw, rest, m₁, m₂, rfl, regions, image, rfl⟩

namespace Vmm

def ioremap (s : Vmm) (paddr size : Nat) : Exec (Nat × Vmm) := do
  let paligned := pageAlignDown paddr
  let offset := paddr - paligned
  let sizeAligned := pageAlignUp ((size + offset) % word64)
  let m ← s.mmu.mmuMapRange s.kernelPgd (physToVirt paligned) paligned sizeAligned ioremapProt
  .ok (physToVirt paddr, { s with mmu := m })

/-- Only the top-level table is copied. -/
def vmmCopyKpgtbl (s : Vmm) : Except Int Nat × Vmm :=
  match s.mmu.pmmCurrentAllocFrame with
  | (none, m) => (.error (-eNoMem), { s with mmu := m })
  | (some pgd, m) =>
      (.ok pgd.paddr, { s with mmu := m.fillFrame pgd.paddr (m.tables s.kernelPgd) })

/-- `kzallocOk` tells whether the kernel heap has room for the structure; `taken` frames go to the heap. -/
def mmCreate (s : Vmm) (kzallocOk : Bool) (taken : Nat) : Except Int MmStruct × Vmm :=
  let s := { s with mmu := { s.mmu with pool := s.mmu.pool.drop taken } }
  if kzallocOk then
    match s.vmmCopyKpgtbl with
    | (.error e, s) => (.error e, s)
    | (.ok pgd, s) =>
        let mm : MmStruct := ⟨pgd, [], 1⟩
        (.ok mm, { s with mms := mm :: s.mms })
  else (.error (-eNoMem), s)

theorem mmCreate_cases (s : Vmm) (kzallocOk : Bool) (taken : Nat) :
    (s.mmCreate kzallocOk taken).2 = { s with mmu := { s.mmu with pool := s.mmu.pool.drop taken } } ∨
      ∃ f rest, s.mmu.pool.drop taken = f :: rest ∧ kzallocOk = true ∧
        (s.mmCreate kzallocOk taken).2 =
          { s with
            mmu := Mmu.fillFrame { s.mmu with pool := rest } f.paddr (s.mmu.tables s.kernelPgd)
            mms := ⟨f.paddr, [], 1⟩ :: s.mms } := by
  cases kzallocOk with
  | false => exact Or.inl rfl
  | true =>
      simp only [mmCreate, vmmCopyKpgtbl, Mmu.pmmCurrentAllocFrame, if_true]
      cases s.mmu.pool.drop taken with
      | nil => exact Or.inl rfl
      | cons f rest => exact Or.inr ⟨f, rest, rfl, trivial, rfl⟩

def pgds (s : Vmm) : List Nat := s.kernelPgd :: s.mms.map MmStruct.pgd

def translate (s : Vmm) (pgd vaddr : Nat) : Option Leaf := Paging.translate s.mmu.tables pgd vaddr

end Vmm

inductive VmmOp where
  | mmCreate (kzallocOk : Bool) (taken : Nat)
  | vmmAllocRange (pgd vaddr size : Nat) (prot : Pgprot)
  | ioremap (paddr size : Nat)
  deriving DecidableEq, Repr

/-- A panic has no next state. A call that returns an error has one. -/
def vmmStep (s : Vmm) : VmmOp → Option Vmm
  | .mmCreate kzallocOk taken => some (s.mmCreate kzallocOk taken).2
  | .vmmAllocRange pgd vaddr size prot =>
      (s.mmu.vmmAllocRange pgd vaddr size prot).toOption.map fun result => { s with mmu := result.2 }
  | .ioremap paddr size => (s.ioremap paddr size).toOption.map Prod.snd

end SnapOS.Paging
