/- Isolation of address spaces over any sequence of mm_create, vmm_alloc_range and ioremap. The tables of the
upper half are shared by all address spaces; every other frame belongs to one place of one lower half. -/
import SnapOS.Lib.Run
import SnapOS.KernelMap

namespace SnapOS.Paging
open SnapOS.Lib SnapOS.Mm

/-- The lower half of an address space starts in the first slots of its top-level table. -/
def lowerSlots : Nat := 256

def userEnd : Nat := 2 ^ 47

/-! Pages of a lower half, for any system of roles -/

section Allocation

variable {R : Type} {kinds : TableKinds R} {touched : R → Nat → Prop} {roles : Roles Nat R} {role : R} {m m' : Mmu}
  {pgd vaddr : Nat} {prot : Pgprot}

theorem vmmAllocPage_ok {res : Int} (h : m.vmmAllocPage pgd vaddr prot = .ok (res, m')) :
    (m.pool = [] ∧ res = -eNoMem ∧ m' = m) ∨ ∃ frame rest, m.pool = frame :: rest ∧ res = 0 ∧
      vaddr % pageSize = 0 ∧ { m with pool := rest }.mmuMapOne pgd vaddr frame.paddr .page4k prot = .ok m' := by
  simp only [Mmu.vmmAllocPage, isPageAligned_always, Mmu.pmmCurrentAllocFrame, Mmu.vmmMapPage] at h
  cases pool : m.pool with
  | nil =>
      rw [pool] at h
      cases h
      exact Or.inl ⟨rfl, rfl, rfl⟩
  | cons frame rest =>
      rw [pool] at h
      obtain ⟨m₁, mapped, result⟩ := Exec.bind_eq_ok.mp h
      cases result
      exact Or.inr ⟨frame, rest, rfl, rfl, (mmuMapRange_ok mapped).1.1, mmuMapRange_page mapped⟩

def MapsPage (kinds : TableKinds R) (touched : R → Nat → Prop) (pgd : Nat) (role : R) (prot : Pgprot) : Prop :=
  ∀ {roles : Roles Nat R} {m m' : Mmu} {vaddr : Nat} {frame : Frame} {rest : List Frame}, Typed kinds roles m →
    roles pgd = some role → vaddr < userEnd → m.pool = frame :: rest →
    { m with pool := rest }.mmuMapOne pgd vaddr frame.paddr .page4k prot = .ok m' →
    ∃ roles', Grows kinds touched roles m roles' m'

theorem Typed.allocLoop (typed : Typed kinds roles m) (known : roles pgd = some role)
    (page : MapsPage kinds touched pgd role prot) {size count : Nat} (whole : size % pageSize = 0)
    (low : vaddr % pageSize = 0 → vaddr + size ≤ userEnd) {res : Int}
    (h : Mmu.vmmAllocLoop pgd prot m vaddr size count = .ok (res, m')) :
    ∃ roles', Grows kinds touched roles m roles' m' := by
  induction size using Nat.strong_induction_on generalizing m roles vaddr count with
  | h size ih =>
      rw [Mmu.vmmAllocLoop] at h
      split at h
      · next more =>
          obtain ⟨⟨res₁, m₁⟩, one, later⟩ := Exec.bind_eq_ok.mp h
          dsimp only at later
          obtain ⟨_, rfl, rfl⟩ | ⟨frame, rest, pool, rfl, aligned, mapped⟩ := vmmAllocPage_ok one
          · cases later
            exact ⟨roles, Grows.refl typed⟩
          · have low := low aligned
            obtain ⟨roles₁, grows⟩ := page typed known (by omega) pool mapped
            have fits : pageSize ≤ size := Nat.le_of_dvd more (Nat.dvd_of_mod_eq_zero whole)
            have next : (vaddr + pageSize) % word64 = vaddr + pageSize :=
              Nat.mod_eq_of_lt (by simp only [userEnd, word64] at *; omega)
            rw [if_neg (Int.lt_irrefl 0), next] at later
            obtain ⟨roles₂, rest⟩ := ih (size - pageSize) (Nat.sub_lt more (by decide)) grows.typed
              (grows.extended pgd _ known) (by simp only [pageSize] at *; omega) (fun _ => by omega) later
            exact ⟨roles₂, grows.trans rest⟩
      · cases h
        exact ⟨roles, Grows.refl typed⟩

/-- A range of the lower half stays there when its size is rounded. -/
theorem pageAlignUp_low {size : Nat} (aligned : vaddr % pageSize = 0) (low : vaddr + size ≤ userEnd) :
    vaddr + pageAlignUp size ≤ userEnd := by
  have fits : pageAlignUp size ≤ userEnd - vaddr := by
    refine pageAlignUp_le (by omega) ?_ ?_
    · simp only [userEnd, pageSize] at *
      omega
    · simp only [userEnd, pageSize, word64] at *
      omega
  omega

theorem Typed.allocRange (typed : Typed kinds roles m) (known : roles pgd = some role)
    (page : MapsPage kinds touched pgd role prot) {size : Nat} (low : vaddr + size ≤ userEnd) {res : Int}
    (h : m.vmmAllocRange pgd vaddr size prot = .ok (res, m')) : ∃ roles', Grows kinds touched roles m roles' m' := by
  simp only [Mmu.vmmAllocRange, isPageAligned_always] at h
  exact typed.allocLoop known page (pageAlignUp_mod size) (fun aligned => pageAlignUp_low aligned low) h

end Allocation

/-- `shared 3` is the top-level table of the kernel. A frame of a user address space has the indices that
lead to it, after the table they start from. -/
inductive Role where
  | shared (level : Nat)
  | root (pgd : Nat)
  | pud (pgd a : Nat)
  | pmd (pgd a b : Nat)
  | pte (pgd a b c : Nat)
  | page (pgd a b c d : Nat)
  deriving DecidableEq, Repr

namespace Role

def child : Role → Nat → Option Role
  | .shared (n + 1), _ => some (.shared n)
  | .shared 0, _ => none
  | .root pgd, i => some (if i < lowerSlots then .pud pgd i else .shared 2)
  | .pud pgd a, i => some (.pmd pgd a i)
  | .pmd pgd a b, i => some (.pte pgd a b i)
  | .pte .., _ => none
  | .page .., _ => none

/-- Only the kernel maps with large pages. -/
def mayBeLarge : Role → Bool
  | .shared 1 => true
  | .shared 2 => true
  | _ => false

def space : Role → Option Nat
  | .shared _ => none
  | .root pgd => some pgd
  | .pud pgd _ => some pgd
  | .pmd pgd _ _ => some pgd
  | .pte pgd _ _ _ => some pgd
  | .page pgd _ _ _ _ => some pgd

/-- A page of a user address space belongs to the place where it is mapped. -/
def Leaf (roles : Roles Nat Role) : Role → Nat → Nat → Prop
  | .pte pgd a b c, i, entry => roles (entryPaddr entry) = some (.page pgd a b c i)
  | _, _, _ => True

theorem Leaf.mono {old new : Roles Nat Role} {role : Role} {index entry : Nat} (grown : old.Extends new)
    (h : Leaf old role index entry) : Leaf new role index entry := by
  cases role with
  | pte pgd a b c => exact grown _ _ h
  | shared _ => trivial
  | root _ => trivial
  | pud _ _ => trivial
  | pmd _ _ _ => trivial
  | page _ _ _ _ _ => trivial

end Role

def spaceKinds : TableKinds Role := ⟨Role.child, Role.mayBeLarge, Role.Leaf, Role.Leaf.mono⟩

variable {roles roles' : Roles Nat Role} {m m' : Mmu}

/-! The kernel's tables -/

/-- The kernel writes shared tables only, and its top-level table only in the slots of `window`. -/
def sharedCells (window : Nat → Prop) (role : Role) (index : Nat) : Prop :=
  ∃ level, role = .shared level ∧ (level = 3 → window index)

theorem sharedLeaf_fits (roles : Roles Nat Role) (paddr : Nat) (size : PageKind) (opts : Pgprot) (index : Nat) :
    spaceKinds.Fits roles (.shared (levelOfPage size)) index (Mmu.leafEntry paddr size opts) := by
  intro _
  refine Or.inr ⟨?_, trivial⟩
  cases size with
  | page4k => exact Or.inr rfl
  | page2m => exact Or.inl ⟨rfl, Mmu.leafEntry_large paddr opts (by decide)⟩
  | page1g => exact Or.inl ⟨rfl, Mmu.leafEntry_large paddr opts (by decide)⟩

def sharedBranch (vaddr : Nat) : Branch spaceKinds vaddr where
  role := .shared
  top := rfl
  down _ _ := rfl
  last _ := rfl

def sharedTrunk : Trunk spaceKinds where
  top := .shared 3
  branch := sharedBranch
  starts _ := rfl
  fits roles _ := sharedLeaf_fits roles

theorem sharedTrunk_inside {window : Nat → Prop} (vaddr n : Nat) (inner : n < 3) :
    sharedCells window ((sharedTrunk.branch vaddr).role n) (tableIndex n vaddr) :=
  ⟨n, rfl, fun top => absurd top (Nat.ne_of_lt inner)⟩

/-! The tables of a user address space -/

theorem tableIndex_lower {vaddr : Nat} (low : vaddr < userEnd) : tableIndex 3 vaddr < lowerSlots := by
  simp only [tableIndex, userEnd, lowerSlots] at *
  omega

def spaceCells (pgd : Nat) (role : Role) (_ : Nat) : Prop := role.space = some pgd

def userRole (pgd vaddr : Nat) : Nat → Role
  | 0 => .pte pgd (tableIndex 3 vaddr) (tableIndex 2 vaddr) (tableIndex 1 vaddr)
  | 1 => .pmd pgd (tableIndex 3 vaddr) (tableIndex 2 vaddr)
  | 2 => .pud pgd (tableIndex 3 vaddr)
  | _ => .root pgd

def pageRole (pgd vaddr : Nat) : Role :=
  .page pgd (tableIndex 3 vaddr) (tableIndex 2 vaddr) (tableIndex 1 vaddr) (tableIndex 0 vaddr)

theorem userRole_space (pgd vaddr n : Nat) : (userRole pgd vaddr n).space = some pgd := by
  match n with
  | 0 => rfl
  | 1 => rfl
  | 2 => rfl
  | _ + 3 => rfl

theorem userRole_child {pgd vaddr : Nat} (low : vaddr < userEnd) (n : Nat) (inner : n < 3) :
    (userRole pgd vaddr (n + 1)).child (tableIndex (n + 1) vaddr) = some (userRole pgd vaddr n) := by
  match n with
  | 0 => rfl
  | 1 => rfl
  | 2 => simp only [userRole, Role.child, if_pos (tableIndex_lower low)]

def userBranch (pgd vaddr : Nat) (low : vaddr < userEnd) : Branch spaceKinds vaddr where
  role := userRole pgd vaddr
  top := rfl
  down := userRole_child low
  last _ := rfl

theorem userBranch_inside {pgd vaddr : Nat} (low : vaddr < userEnd) (n : Nat) :
    spaceCells pgd ((userBranch pgd vaddr low).role n) (tableIndex n vaddr) :=
  userRole_space pgd vaddr n

section Pages

variable {pgd vaddr : Nat} {prot : Pgprot}

theorem userLeaf_fits (flags : entryPaddr prot.protFlags = 0) {frame : Frame}
    (place : roles frame.paddr = some (pageRole pgd vaddr)) :
    spaceKinds.Fits roles (userRole pgd vaddr 0) (tableIndex 0 vaddr) (Mmu.leafEntry frame.paddr .page4k prot) := by
  intro _
  refine Or.inr ⟨Or.inr rfl, ?_⟩
  have target : roles (entryPaddr (Mmu.leafEntry frame.paddr .page4k prot)) = some (pageRole pgd vaddr) := by
    rw [Mmu.leafEntry_paddr frame.isFrame .page4k flags]
    exact place
  exact target

theorem Typed.mapOne_user (typed : Typed spaceKinds roles m) (known : roles pgd = some (.root pgd))
    (low : vaddr < userEnd) (flags : entryPaddr prot.protFlags = 0) {frame : Frame} {rest : List Frame}
    (pool : m.pool = frame :: rest)
    (h : { m with pool := rest }.mmuMapOne pgd vaddr frame.paddr .page4k prot = .ok m') :
    ∃ roles', Grows spaceKinds (spaceCells pgd) roles m roles' m' := by
  obtain ⟨taken, free, unpooled⟩ := typed.next pool
  obtain ⟨table, m₁, walks, rfl⟩ := mmuMapOne_ok h
  obtain ⟨roles₁, grows, found⟩ :=
    taken.walks (b := userBranch pgd vaddr low) known (Or.inr (userBranch_inside low 3))
      (fun n _ => userBranch_inside low n) walks
  have free₁ := grows.fresh frame.paddr free unpooled
  have grown := Roles.extends_update free₁ (pageRole pgd vaddr)
  have assigned : Typed spaceKinds (Function.update roles₁ frame.paddr (some (pageRole pgd vaddr))) m₁ := by
    refine grows.typed.assign free₁ (fun f member => unpooled f (grows.pool f member)) ?_
    exact fun _ _ => Or.inr ⟨Or.inr rfl, trivial⟩
  have fits := userLeaf_fits flags (Function.update_self frame.paddr (some (pageRole pgd vaddr)) roles₁)
  refine ⟨_, ⟨assigned.setEntry (grown table _ found) fits, grows.extended.trans grown, ?_, ?_, ?_, grows.cpu⟩⟩
  · intro a unused others
    have other : a ≠ frame.paddr := fun same => others frame (pool ▸ List.mem_cons_self) same.symm
    rw [Function.update_of_ne other]
    exact grows.fresh a unused fun f member => others f (pool ▸ List.mem_cons_of_mem frame member)
  · exact fun f member => pool ▸ List.mem_cons_of_mem frame (grows.pool f member)
  · exact grows.changed.trans grows.extended (changedWithin_write _ found (userRole_space pgd vaddr 0))

theorem Typed.allocRange_user (typed : Typed spaceKinds roles m) (known : roles pgd = some (.root pgd))
    {size : Nat} (low : vaddr + size ≤ userEnd)
    (flags : entryPaddr prot.protFlags = 0) {res : Int} (h : m.vmmAllocRange pgd vaddr size prot = .ok (res, m')) :
    ∃ roles', Grows spaceKinds (spaceCells pgd) roles m roles' m' :=
  typed.allocRange known (fun typed known low pool => typed.mapOne_user known low flags pool) low h

/-- A page of the lower half is a small one in a frame of its own. -/
theorem Typed.translate_user (typed : Typed spaceKinds roles m) (known : roles pgd = some (.root pgd))
    (low : vaddr < userEnd) {leaf : Leaf} (h : translate m.tables pgd vaddr = some leaf) :
    leaf.level = 0 ∧ roles (entryPaddr leaf.entry) = some (pageRole pgd vaddr) := by
  have found : LeafAt roles m (userBranch pgd vaddr low) leaf := typed.translate_leaf known h
  rcases leaf with ⟨entry, level, every, any⟩
  have bound : level ≤ 3 := found.bound
  rcases found.isLeaf with ⟨may, _⟩ | last
  · match level, bound with
    | 0, _ => cases may
    | 1, _ => cases may
    | 2, _ => cases may
    | 3, _ => cases may
  · match level, bound with
    | 0, _ => exact ⟨rfl, found.known⟩
    | 1, _ => cases last
    | 2, _ => cases last
    | 3, _ => cases last

end Pages

/-! Runs -/

/-- The kernel has the shared tables and nothing below its lower slots. -/
structure SpaceInv (roles : Roles Nat Role) (s : Vmm) : Prop where
  typed : Typed spaceKinds roles s.mmu
  kernel : roles s.kernelPgd = some (.shared 3)
  users : ∀ mm ∈ s.mms, roles mm.pgd = some (.root mm.pgd)
  lower : ∀ i < lowerSlots, present (s.mmu.tables s.kernelPgd i) = false

/-- The calls the address spaces are for: pages for a range of the lower half of a created address space, and
any mapping of physical addresses. -/
def VmmOp.Legal (s : Vmm) : VmmOp → Prop
  | .mmCreate _ _ => True
  | .vmmAllocRange pgd vaddr size prot =>
      pgd ∈ s.mms.map MmStruct.pgd ∧ vaddr % pageSize = 0 ∧ vaddr + size ≤ userEnd ∧ prot.protFlags < word64
  | .ioremap paddr size => paddr < word64 ∧ size < word64

/-- The flags of a page are no address bits, and the physical addresses have a place in the window of the
direct map. -/
def VmmOp.Confined : VmmOp → Prop
  | .mmCreate _ _ => True
  | .vmmAllocRange _ _ _ prot => entryPaddr prot.protFlags = 0
  | .ioremap paddr size => paddr + size ≤ word64 - idVirtRegionStart

instance (s : Vmm) (op : VmmOp) : Decidable (op.Legal s) :=
  match op with
  | .mmCreate _ _ => isTrue trivial
  | .vmmAllocRange _ _ _ _ => inferInstanceAs (Decidable (_ ∧ _ ∧ _ ∧ _))
  | .ioremap _ _ => inferInstanceAs (Decidable (_ ∧ _))

instance (op : VmmOp) : Decidable op.Confined :=
  match op with
  | .mmCreate _ _ => isTrue trivial
  | .vmmAllocRange _ _ _ _ => inferInstanceAs (Decidable (_ = _))
  | .ioremap _ _ => inferInstanceAs (Decidable (_ ≤ _))

def VmmOp.target (s : Vmm) : VmmOp → Option Nat
  | .mmCreate _ _ => none
  | .vmmAllocRange pgd _ _ _ => some pgd
  | .ioremap _ _ => some s.kernelPgd

def VmmOp.touches : VmmOp → Role → Nat → Prop
  | .mmCreate _ _ => fun _ _ => False
  | .vmmAllocRange pgd _ _ _ => spaceCells pgd
  | .ioremap _ _ => sharedCells (lowerSlots ≤ ·)

/-- What one call does to the address spaces there were before it. -/
structure Isolated (s : Vmm) (op : VmmOp) (s' : Vmm) : Prop where
  others : ∀ pgd ∈ s.pgds, op.target s ≠ some pgd → ∀ vaddr < userEnd, s'.translate pgd vaddr = s.translate pgd vaddr
  kernel : (∃ pgd vaddr size prot, op = .vmmAllocRange pgd vaddr size prot) →
    ∀ vaddr, s'.translate s.kernelPgd vaddr = s.translate s.kernelPgd vaddr

/-- No frame is mapped at two pages of lower halves. -/
def FramesUnshared (s : Vmm) : Prop :=
  ∀ pgd ∈ s.pgds, ∀ pgd' ∈ s.pgds, ∀ vaddr < userEnd, ∀ vaddr' < userEnd,
    vaddr % pageSize = 0 → vaddr' % pageSize = 0 → ∀ leaf leaf', s.translate pgd vaddr = some leaf →
      s.translate pgd' vaddr' = some leaf' → leaf.paddr vaddr = leaf'.paddr vaddr' → pgd = pgd' ∧ vaddr = vaddr'

section Runs

variable {s s' : Vmm}

theorem SpaceInv.grows (inv : SpaceInv roles s) {touched : Role → Nat → Prop}
    (grows : Grows spaceKinds touched roles s.mmu roles' m')
    (outside : ∀ i < lowerSlots, ¬ touched (.shared 3) i) : SpaceInv roles' { s with mmu := m' } := by
  refine ⟨grows.typed, grows.extended _ _ inv.kernel, fun mm member => grows.extended _ _ (inv.users mm member), ?_⟩
  intro i low
  have same : m'.tables s.kernelPgd i = s.mmu.tables s.kernelPgd i :=
    grows.changed s.kernelPgd _ i inv.kernel (outside i low)
  exact (congrArg present same).trans (inv.lower i low)

/-- A new address space starts with a copy of the kernel's slots, of which the lower ones are empty. -/
theorem SpaceInv.mmCreate (inv : SpaceInv roles s) (kzallocOk : Bool) (taken : Nat) :
    ∃ roles', SpaceInv roles' (s.mmCreate kzallocOk taken).2 ∧
      ChangedWithin (fun _ _ => False) roles s.mmu.tables (s.mmCreate kzallocOk taken).2.mmu.tables := by
  have dropped := inv.typed.drop taken
  rcases s.mmCreate_cases kzallocOk taken with failed | ⟨f, rest, pool, _, created⟩
  · rw [failed]
    exact ⟨roles, ⟨dropped, inv.kernel, inv.users, inv.lower⟩, fun _ _ _ _ _ => rfl⟩
  · rw [created]
    obtain ⟨tail, free, unpooled⟩ := dropped.next pool
    have grown := Roles.extends_update free (.root f.paddr)
    have apart : ∀ {a : Nat} {role : Role}, roles a = some role → a ≠ f.paddr := by
      rintro a role used rfl
      cases free.symm.trans used
    have kept : ∀ {a : Nat} {role : Role}, roles a = some role → ∀ i,
        (Mmu.fillFrame { s.mmu with pool := rest } f.paddr (s.mmu.tables s.kernelPgd)).tables a i =
          s.mmu.tables a i := fun used i => congrFun (Function.update_of_ne (apart used) _ s.mmu.tables) i
    refine ⟨_, ⟨(tail.fillFrame free (s.mmu.tables s.kernelPgd)).assign free unpooled ?_,
      grown _ _ inv.kernel, ?_, ?_⟩, fun a role i used _ => kept used i⟩
    · intro i here
      simp only [Mmu.fillFrame, Function.update_self] at here ⊢
      have upper : ¬ i < lowerSlots := by
        intro low
        cases (inv.lower i low).symm.trans here
      rcases inv.typed.cells s.kernelPgd _ i inv.kernel here with ⟨c, child, table⟩ | ⟨isLeaf, _⟩
      · cases child
        exact Or.inl ⟨.shared 2, congrArg some (if_neg upper), { table with target := grown _ _ table.target }⟩
      · rcases isLeaf with ⟨may, _⟩ | last
        · cases may
        · cases last
    · intro mm member
      rcases List.mem_cons.mp member with rfl | old
      · exact Function.update_self ..
      · exact grown _ _ (inv.users mm old)
    · intro i low
      exact (congrArg present (kept inv.kernel i)).trans (inv.lower i low)

theorem ioremap_window {paddr size k : Nat} (confined : paddr + size ≤ word64 - idVirtRegionStart)
    (within : k < pageAlignUp ((size + (paddr - pageAlignDown paddr)) % word64)) :
    lowerSlots ≤ tableIndex 3 ((physToVirt (pageAlignDown paddr) + k) % word64) := by
  have aligned := pageAlignDown_mod paddr
  have below := pageAlignDown_le paddr
  have fits : pageAlignUp ((size + (paddr - pageAlignDown paddr)) % word64) ≤
      word64 - idVirtRegionStart - pageAlignDown paddr := by
    have whole : (size + (paddr - pageAlignDown paddr)) % word64 = size + (paddr - pageAlignDown paddr) :=
      Nat.mod_eq_of_lt (by simp only [word64, idVirtRegionStart] at *; omega)
    rw [whole]
    refine pageAlignUp_le (by omega) ?_ ?_
    · simp only [word64, idVirtRegionStart, pageSize] at *
      omega
    · simp only [word64, idVirtRegionStart, pageSize] at *
      omega
  have image : physToVirt (pageAlignDown paddr) = pageAlignDown paddr + idVirtRegionStart := by
    rw [physToVirt, Nat.mod_eq_of_lt (by simp only [word64, idVirtRegionStart] at *; omega)]
  rw [image]
  simp only [word64, idVirtRegionStart, tableIndex, lowerSlots] at *
  omega

theorem ioremap_ok {paddr size result : Nat} (h : s.ioremap paddr size = .ok (result, s')) :
    ∃ m', s.mmu.mmuMapRange s.kernelPgd (physToVirt (pageAlignDown paddr)) (pageAlignDown paddr)
      (pageAlignUp ((size + (paddr - pageAlignDown paddr)) % word64)) ioremapProt = .ok m' ∧
        result = physToVirt paddr ∧ s' = { s with mmu := m' } := by
  obtain ⟨m', mapped, done⟩ := Exec.bind_eq_ok.mp h
  cases done
  exact ⟨m', mapped, rfl, rfl⟩

theorem vmmStep_ioremap {paddr size : Nat} (h : vmmStep s (.ioremap paddr size) = some s') :
    ∃ result, s.ioremap paddr size = .ok (result, s') := by
  simp only [vmmStep] at h
  cases outcome : s.ioremap paddr size with
  | error e =>
      rw [outcome] at h
      cases h
  | ok pair =>
      rw [outcome] at h
      cases h
      exact ⟨pair.1, rfl⟩

theorem vmmStep_allocRange {pgd vaddr size : Nat} {prot : Pgprot}
    (h : vmmStep s (.vmmAllocRange pgd vaddr size prot) = some s') :
    ∃ res m', s.mmu.vmmAllocRange pgd vaddr size prot = .ok (res, m') ∧ s' = { s with mmu := m' } := by
  simp only [vmmStep] at h
  cases outcome : s.mmu.vmmAllocRange pgd vaddr size prot with
  | error e =>
      rw [outcome] at h
      cases h
  | ok pair =>
      rw [outcome] at h
      cases h
      exact ⟨pair.1, pair.2, rfl, rfl⟩

theorem SpaceInv.step (inv : SpaceInv roles s) {op : VmmOp} (legal : op.Legal s) (confined : op.Confined)
    (h : vmmStep s op = some s') :
    ∃ roles', SpaceInv roles' s' ∧ ChangedWithin op.touches roles s.mmu.tables s'.mmu.tables := by
  cases op with
  | mmCreate kzallocOk taken =>
      cases h
      exact inv.mmCreate kzallocOk taken
  | vmmAllocRange pgd vaddr size prot =>
      obtain ⟨res, m', mapped, rfl⟩ := vmmStep_allocRange h
      obtain ⟨member, _, low, _⟩ := legal
      obtain ⟨mm, created, rfl⟩ := List.mem_map.mp member
      obtain ⟨roles', grows⟩ := inv.typed.allocRange_user (inv.users mm created) low confined mapped
      exact ⟨roles', inv.grows grows (fun _ _ inside => nomatch inside), grows.changed⟩
  | ioremap paddr size =>
      obtain ⟨result, called⟩ := vmmStep_ioremap h
      obtain ⟨m', mapped, _, rfl⟩ := ioremap_ok called
      obtain ⟨roles', grows⟩ := sharedTrunk.mapRange (sharedCells (lowerSlots ≤ ·)) inv.typed inv.kernel
        (physToVirt_lt _) (fun k within => Or.inr ⟨3, rfl, fun _ => ioremap_window confined within⟩)
        sharedTrunk_inside mapped
      refine ⟨roles', inv.grows grows ?_, grows.changed⟩
      rintro i low ⟨level, same, window⟩
      cases same
      exact absurd (window rfl) (Nat.not_le.mpr low)

theorem spaceInv_vmmInit {clean : List PhysRegion} {kernelEnd : Nat} (distinct : m.pool.Nodup)
    (init : vmmInit clean kernelEnd m = .ok (0, s))
    (lower : ∀ i < lowerSlots, present (s.mmu.tables s.kernelPgd i) = false) : ∃ roles, SpaceInv roles s := by
  obtain ⟨roles, typed, kernel, none, _⟩ := sharedTrunk.typed_vmmInit distinct (sharedTrunk.initWithin_true _ _) init
  refine ⟨roles, typed, kernel, fun mm member => ?_, lower⟩
  rw [none] at member
  cases member

theorem SpaceInv.isolated (inv : SpaceInv roles s) {op : VmmOp} (legal : op.Legal s)
    (changed : ChangedWithin op.touches roles s.mmu.tables s'.mmu.tables) : Isolated s op s' := by
  have kernelSame : (∀ role i, op.touches role i → role.space ≠ none) →
      ∀ vaddr, s'.translate s.kernelPgd vaddr = s.translate s.kernelPgd vaddr := by
    intro user vaddr
    refine inv.typed.translate_congr (b := sharedBranch vaddr) inv.kernel ?_
    exact fun n t _ known => changed t _ _ known fun inside => user _ _ inside rfl
  have userSame : ∀ mm ∈ s.mms, (∀ role i, op.touches role i → role.space ≠ some mm.pgd) →
      ∀ vaddr < userEnd, s'.translate mm.pgd vaddr = s.translate mm.pgd vaddr := by
    intro mm member apart vaddr low
    refine inv.typed.translate_congr (b := userBranch mm.pgd vaddr low) (inv.users mm member) ?_
    exact fun n t _ known => changed t _ _ known fun inside => apart _ _ inside (userRole_space mm.pgd vaddr n)
  refine ⟨fun pgd member other vaddr low => ?_, ?_⟩
  · rcases List.mem_cons.mp member with rfl | created
    · refine kernelSame (fun role i inside => ?_) vaddr
      cases op with
      | mmCreate _ _ => cases inside
      | vmmAllocRange pgd _ _ _ => exact fun none => nomatch (inside : role.space = some pgd).symm.trans none
      | ioremap _ _ => exact absurd rfl other
    · obtain ⟨mm, known, rfl⟩ := List.mem_map.mp created
      refine userSame mm known (fun role i inside => ?_) vaddr low
      cases op with
      | mmCreate _ _ => cases inside
      | vmmAllocRange pgd _ _ _ =>
          intro same
          exact other ((inside : role.space = some pgd).symm.trans same)
      | ioremap _ _ =>
          obtain ⟨level, rfl, _⟩ := inside
          exact fun same => nomatch same
  · rintro ⟨pgd, vaddr, size, prot, rfl⟩
    exact kernelSame fun role i inside none => nomatch (inside : role.space = some pgd).symm.trans none

theorem SpaceInv.translate_kernel (inv : SpaceInv roles s) {vaddr : Nat} (low : vaddr < userEnd) :
    s.translate s.kernelPgd vaddr = none :=
  translateFrom_empty (inv.lower _ (tableIndex_lower low))

theorem pageRole_inj {pgd pgd' vaddr vaddr' : Nat} (low : vaddr < userEnd) (low' : vaddr' < userEnd)
    (aligned : vaddr % pageSize = 0) (aligned' : vaddr' % pageSize = 0)
    (same : pageRole pgd vaddr = pageRole pgd' vaddr') : pgd = pgd' ∧ vaddr = vaddr' := by
  simp only [pageRole, Role.page.injEq, tableIndex, userEnd, pageSize] at *
  omega

theorem SpaceInv.framesUnshared (inv : SpaceInv roles s) : FramesUnshared s := by
  intro pgd member pgd' member' vaddr low vaddr' low' aligned aligned' leaf leaf' found found' same
  have owned : ∀ {p v : Nat} {l : Leaf}, p ∈ s.pgds → v < userEnd → s.translate p v = some l →
      l.level = 0 ∧ roles (entryPaddr l.entry) = some (pageRole p v) := by
    intro p v l member low found
    rcases List.mem_cons.mp member with rfl | created
    · cases (inv.translate_kernel low).symm.trans found
    · obtain ⟨mm, known, rfl⟩ := List.mem_map.mp created
      exact inv.typed.translate_user (inv.users mm known) low found
  obtain ⟨small, role⟩ := owned member low found
  obtain ⟨small', role'⟩ := owned member' low' found'
  rw [Leaf.paddr_small small aligned, Leaf.paddr_small small' aligned'] at same
  rw [same] at role
  exact pageRole_inj low low' aligned aligned' (Option.some.inj (role.symm.trans role'))

/-- The tables of the kernel and of the lower halves are kept apart in every run that stays in the window of
the direct map. -/
theorem addressSpaces_isolated {clean : List PhysRegion} {kernelEnd : Nat} {m : Mmu} {start : Vmm}
    (distinct : m.pool.Nodup) (init : vmmInit clean kernelEnd m = .ok (0, start))
    (lower : ∀ i < lowerSlots, present (start.mmu.tables start.kernelPgd i) = false) {ops : List VmmOp}
    (meets : Meets vmmStep (fun s op => op.Legal s ∧ op.Confined) start ops) {s : Vmm}
    (reached : run vmmStep start ops = some s) :
    FramesUnshared s ∧
      ∀ op s', op.Legal s → op.Confined → vmmStep s op = some s' → Isolated s op s' := by
  have initial := spaceInv_vmmInit distinct init lower
  have invariant : ∃ roles, SpaceInv roles s := by
    refine run_invariant (P := fun s => ∃ roles, SpaceInv roles s) ?_ initial meets reached
    rintro s op t ⟨roles, inv⟩ ⟨legal, confined⟩ h
    obtain ⟨roles', inv', _⟩ := inv.step legal confined h
    exact ⟨roles', inv'⟩
  obtain ⟨roles, inv⟩ := invariant
  refine ⟨inv.framesUnshared, fun op s' legal confined h => ?_⟩
  obtain ⟨roles', _, changed⟩ := inv.step legal confined h
  exact inv.isolated legal changed

end Runs

/-! A small machine -/

theorem sampleFrame_isFrame (n : Fin 32) : entryPaddr (0x200000 + n.val * pageSize) = 0x200000 + n.val * pageSize := by
  revert n
  decide

theorem sampleFrame_nonNull (n : Fin 32) : 0x200000 + n.val * pageSize ≠ 0 := by omega

def sampleFrame (n : Fin 32) : Frame := ⟨_, sampleFrame_nonNull n, sampleFrame_isFrame n⟩

def sampleMmu : Mmu := ⟨fun _ _ => 0, (List.finRange 32).map sampleFrame, false⟩

def sampleClean : List PhysRegion := [⟨0x100000, 0x101000, .usable⟩]

def sampleInit : Exec (Int × Vmm) := vmmInit sampleClean (kernelStartVirtAddr + 0x1000) sampleMmu

def sampleStart : Vmm := (sampleInit.toOption.map Prod.snd).getD ⟨sampleMmu, 0, []⟩

theorem sampleInit_eq : sampleInit = .ok (0, sampleStart) := by
  have returned : sampleInit.toOption.map Prod.fst = some 0 := by decide +kernel
  rw [sampleStart]
  cases outcome : sampleInit with
  | error e =>
      rw [outcome] at returned
      cases returned
  | ok pair =>
      rw [outcome] at returned
      rw [← Option.some.inj returned]
      rfl

def sampleRun (ops : List VmmOp) : Vmm := (run vmmStep sampleStart ops).getD sampleStart

theorem sampleRun_eq (ops : List VmmOp) (returns : (run vmmStep sampleStart ops).isSome = true) :
    run vmmStep sampleStart ops = some (sampleRun ops) := by
  obtain ⟨s, reached⟩ := Option.isSome_iff_exists.mp returns
  rw [sampleRun, reached]
  rfl

theorem sampleMmu_distinct : sampleMmu.pool.Nodup := by decide +kernel

theorem sampleStart_lower : ∀ i < lowerSlots, present (sampleStart.mmu.tables sampleStart.kernelPgd i) = false := by
  decide +kernel

def userPages : Pgprot := ⟨pageRw ||| pageUser, true⟩

/-- Two address spaces with a page each at the same address, and a device of the kernel. -/
def apartOps : List VmmOp :=
  [.mmCreate true 1, .mmCreate true 0, .vmmAllocRange 0x208000 0x400000 0x1000 userPages, .ioremap 0xFEE00000 0x1000,
    .vmmAllocRange 0x209000 0x400000 0x2000 userPages]

theorem addressSpaces_isolated_twoSpaces :
    (sampleRun apartOps).mms.map MmStruct.pgd = [0x209000, 0x208000] ∧
      ((sampleRun apartOps).translate 0x208000 0x400000).isSome = true ∧
      ((sampleRun apartOps).translate 0x209000 0x400000).isSome = true ∧ FramesUnshared (sampleRun apartOps) :=
  ⟨by decide +kernel, by decide +kernel, by decide +kernel,
    (addressSpaces_isolated sampleMmu_distinct sampleInit_eq sampleStart_lower (by decide +kernel)
      (sampleRun_eq apartOps (by decide +kernel))).1⟩

/-- A device above the window puts a table below a lower slot of the kernel; both address spaces share it. -/
def wrappedOps : List VmmOp := [.ioremap 0x778000000000 0x1000, .mmCreate true 0, .mmCreate true 0]

def wrappedOp : VmmOp := .vmmAllocRange 0x20B000 0x1000 0x1000 userPages

/-- Address bits among the flags of the second page make it the frame of the third one. -/
def misdirectedOps : List VmmOp :=
  [.mmCreate true 0, .vmmAllocRange 0x207000 0 0x1000 userPages,
    .vmmAllocRange 0x207000 0x1000 0x1000 ⟨pageRw ||| pageUser ||| 0x1000, true⟩,
    .vmmAllocRange 0x207000 0x2000 0x1000 userPages]

/-- Outside the window of the direct map, and with flags that are none, legal calls break isolation. -/
theorem isolation_broken :
    (Meets vmmStep (fun s op => op.Legal s) sampleStart (wrappedOps ++ [wrappedOp]) ∧
      run vmmStep sampleStart wrappedOps = some (sampleRun wrappedOps) ∧
      vmmStep (sampleRun wrappedOps) wrappedOp = some (sampleRun (wrappedOps ++ [wrappedOp])) ∧
      ¬ Isolated (sampleRun wrappedOps) wrappedOp (sampleRun (wrappedOps ++ [wrappedOp]))) ∧
    (Meets vmmStep (fun s op => op.Legal s) sampleStart misdirectedOps ∧
      run vmmStep sampleStart misdirectedOps = some (sampleRun misdirectedOps) ∧
      ¬ FramesUnshared (sampleRun misdirectedOps)) := by
  have before := sampleRun_eq wrappedOps (by decide +kernel)
  have after := sampleRun_eq (wrappedOps ++ [wrappedOp]) (by decide +kernel)
  refine ⟨⟨by decide +kernel, before, ?_, fun isolated => ?_⟩, by decide +kernel,
    sampleRun_eq misdirectedOps (by decide +kernel), fun unshared => ?_⟩
  · rw [run_append, before] at after
    obtain ⟨s, last, same⟩ := run_cons (after : run vmmStep (sampleRun wrappedOps) [wrappedOp] = some _)
    exact last.trans same
  · have same := isolated.others 0x20A000 (by decide +kernel) (by decide +kernel) 0x1000 (by decide)
    revert same
    decide +kernel
  · obtain ⟨leaf, found, place⟩ := Option.map_eq_some_iff.mp (by decide +kernel :
      ((sampleRun misdirectedOps).translate 0x207000 0x1000).map (fun leaf => leaf.paddr 0x1000) = some 0x20D000)
    obtain ⟨leaf', found', place'⟩ := Option.map_eq_some_iff.mp (by decide +kernel :
      ((sampleRun misdirectedOps).translate 0x207000 0x2000).map (fun leaf => leaf.paddr 0x2000) = some 0x20D000)
    have member : 0x207000 ∈ (sampleRun misdirectedOps).pgds := by decide +kernel
    have same := unshared _ member _ member 0x1000 (by decide) 0x2000 (by decide) (by decide) (by decide)
      leaf leaf' found found' (place.trans place'.symm)
    exact absurd same.2 (by decide)

end SnapOS.Paging
