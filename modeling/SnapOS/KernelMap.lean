/- Mappings of the kernel, for any system of roles: what mmu_map_range and vmm_init write. -/
import SnapOS.TableRoles
import SnapOS.Vmm

namespace SnapOS.Paging
open SnapOS.Lib SnapOS.Mm

def regionLen (r : PhysRegion) : Nat := (pageAlignUp r.stop + (word64 - pageAlignDown r.start)) % word64

variable {R : Type} {kinds : TableKinds R} {roles roles' : Roles Nat R} {m m' : Mmu}

/-- The roles of the tables below one top-level table. Every page may be mapped there. -/
structure Trunk (kinds : TableKinds R) where
  top : R
  branch : (vaddr : Nat) → Branch kinds vaddr
  starts : ∀ vaddr, (branch vaddr).role 3 = top
  fits : ∀ (roles : Roles Nat R) vaddr paddr size opts index,
    kinds.Fits roles ((branch vaddr).role (levelOfPage size)) index (Mmu.leafEntry paddr size opts)

namespace Trunk

variable (trunk : Trunk kinds) (touched : R → Nat → Prop) {pgd : Nat} {opts : Pgprot}

/-- The walk for an address may write the entry of the top table. -/
def Top (m : Mmu) (pgd vaddr : Nat) : Prop :=
  present (m.tables pgd (tableIndex 3 vaddr)) = true ∨ touched trunk.top (tableIndex 3 vaddr)

theorem Top.grows {vaddr : Nat} (top : trunk.Top touched m pgd vaddr) (known : roles pgd = some trunk.top)
    (grows : Grows kinds touched roles m roles' m') : trunk.Top touched m' pgd vaddr := by
  by_cases inside : touched trunk.top (tableIndex 3 vaddr)
  · exact Or.inr inside
  · have same := grows.changed pgd _ _ known inside
    rcases top with here | inside'
    · exact Or.inl (same ▸ here)
    · exact absurd inside' inside

variable {touched}

theorem mapOne (typed : Typed kinds roles m) (known : roles pgd = some trunk.top) {vaddr paddr : Nat}
    {size : PageKind} (top : trunk.Top touched m pgd vaddr)
    (inside : ∀ n < 3, touched ((trunk.branch vaddr).role n) (tableIndex n vaddr))
    (h : m.mmuMapOne pgd vaddr paddr size opts = .ok m') : ∃ roles', Grows kinds touched roles m roles' m' := by
  have starts := trunk.starts vaddr
  obtain ⟨table, m₁, walks, rfl⟩ := mmuMapOne_ok h
  obtain ⟨roles₁, grows, found⟩ :=
    typed.walks (b := trunk.branch vaddr) (starts ▸ known) (starts ▸ top) inside walks
  exact ⟨roles₁, grows.trans (Grows.setEntry grows.typed found (trunk.fits roles₁ vaddr paddr size opts _)
    (inside _ (Nat.lt_of_le_of_lt (levelOfPage_le size) (by decide))))⟩

theorem mapLoop (typed : Typed kinds roles m) (known : roles pgd = some trunk.top) {vaddr paddr len : Nat}
    (bounded : vaddr < word64) (top : ∀ k < len, trunk.Top touched m pgd ((vaddr + k) % word64))
    (inside : ∀ a, ∀ n < 3, touched ((trunk.branch a).role n) (tableIndex n a))
    (h : Mmu.mmuMapLoop opts pgd m vaddr paddr len = .ok m') : ∃ roles', Grows kinds touched roles m roles' m' := by
  induction len using Nat.strong_induction_on generalizing m roles vaddr paddr with
  | h len ih =>
      rw [Mmu.mmuMapLoop] at h
      split at h
      · next more =>
          obtain ⟨m₁, one, later⟩ := Exec.bind_eq_ok.mp h
          have here := top 0 more
          rw [Nat.add_zero, Nat.mod_eq_of_lt bounded] at here
          obtain ⟨roles₁, grows⟩ := trunk.mapOne typed known here (inside vaddr) one
          have shrinks := Nat.sub_lt more (Mmu.chunkOf_pos (m.pageKind vaddr paddr len))
          obtain ⟨roles₂, rest⟩ := ih _ shrinks grows.typed (grows.extended pgd _ known)
            (Nat.mod_lt _ (by decide)) (by
              intro k within
              have next := (top (Mmu.chunkOf (m.pageKind vaddr paddr len) + k) (by omega)).grows trunk touched known
                grows
              rwa [Nat.mod_add_mod, Nat.add_assoc]) later
          exact ⟨roles₂, grows.trans rest⟩
      · cases h
        exact ⟨roles, Grows.refl typed⟩

theorem mapRange (touched : R → Nat → Prop) (typed : Typed kinds roles m) (known : roles pgd = some trunk.top)
    {vaddr paddr len : Nat}
    (bounded : vaddr < word64) (top : ∀ k < len, trunk.Top touched m pgd ((vaddr + k) % word64))
    (inside : ∀ a, ∀ n < 3, touched ((trunk.branch a).role n) (tableIndex n a))
    (h : m.mmuMapRange pgd vaddr paddr len opts = .ok m') : ∃ roles', Grows kinds touched roles m roles' m' :=
  trunk.mapLoop typed known bounded top inside (mmuMapRange_ok h).2

variable (touched)

/-- The walks of `vmm_init` may write the entries that they come to. -/
structure InitWithin (clean : List PhysRegion) (kernelEnd : Nat) : Prop where
  regions : ∀ r ∈ clean, r.type = .usable → ∀ k < regionLen r,
    touched trunk.top (tableIndex 3 ((physToVirt (pageAlignDown r.start) + k) % word64))
  image : ∀ k < kernelSize kernelEnd, touched trunk.top (tableIndex 3 ((kernelStartVirtAddr + k) % word64))
  inside : ∀ a, ∀ n < 3, touched ((trunk.branch a).role n) (tableIndex n a)

theorem initWithin_true (clean : List PhysRegion) (kernelEnd : Nat) :
    trunk.InitWithin (fun _ _ => True) clean kernelEnd :=
  ⟨fun _ _ _ _ _ => trivial, fun _ _ => trivial, fun _ _ _ => trivial⟩

variable {touched}

theorem regions {clean : List PhysRegion} (typed : Typed kinds roles m) (known : roles pgd = some trunk.top)
    (tops : ∀ r ∈ clean, r.type = .usable → ∀ k < regionLen r,
      touched trunk.top (tableIndex 3 ((physToVirt (pageAlignDown r.start) + k) % word64)))
    (inside : ∀ a, ∀ n < 3, touched ((trunk.branch a).role n) (tableIndex n a))
    (h : clean.foldlM (Mmu.mapRegion pgd) m = .ok m') : ∃ roles', Grows kinds touched roles m roles' m' := by
  induction clean generalizing m roles with
  | nil =>
      cases h
      exact ⟨roles, Grows.refl typed⟩
  | cons r rest ih =>
      rw [List.foldlM_cons] at h
      obtain ⟨m₁, first, later⟩ := Exec.bind_eq_ok.mp h
      have one : ∃ roles₁, Grows kinds touched roles m roles₁ m₁ := by
        simp only [Mmu.mapRegion] at first
        split at first
        · cases first
          exact ⟨roles, Grows.refl typed⟩
        · next usable =>
            exact trunk.mapRange touched typed known (physToVirt_lt _)
              (fun k within => Or.inr (tops r List.mem_cons_self (not_not.mp usable) k within)) inside first
      obtain ⟨roles₁, grows⟩ := one
      obtain ⟨roles₂, others⟩ := ih grows.typed (grows.extended pgd _ known)
        (fun q member => tops q (List.mem_cons_of_mem r member)) later
      exact ⟨roles₂, grows.trans others⟩

theorem typed_vmmInit {clean : List PhysRegion} {kernelEnd : Nat} {s : Vmm} (distinct : m.pool.Nodup)
    (within : trunk.InitWithin touched clean kernelEnd) (init : vmmInit clean kernelEnd m = .ok (0, s)) :
    ∃ roles, Typed kinds roles s.mmu ∧ roles s.kernelPgd = some trunk.top ∧ s.mms = [] ∧
      ∀ i, ¬ touched trunk.top i → s.mmu.tables s.kernelPgd i = 0 := by
  obtain ⟨pgdRaw, rest, m₁, m₂, pool, regions, image, rfl⟩ := vmmInit_ok init
  have start : Typed kinds (fun _ => none) m :=
    ⟨fun _ _ _ used => (nomatch used), distinct, fun _ _ => rfl⟩
  obtain ⟨taken, free, unpooled⟩ := start.next pool
  have assigned := taken.emptyTable free unpooled trunk.top
  have known : Function.update (fun _ => none) pgdRaw.paddr (some trunk.top) pgdRaw.paddr = some trunk.top :=
    Function.update_self ..
  obtain ⟨roles₁, grows⟩ := trunk.regions assigned known within.regions within.inside regions
  have known₁ := grows.extended _ _ known
  obtain ⟨roles₂, last⟩ := trunk.mapRange touched grows.typed known₁ (by decide)
    (fun k inside => Or.inr (within.image k inside)) within.inside image
  refine ⟨roles₂, last.typed, last.extended _ _ known₁, rfl, fun i outside => ?_⟩
  rw [last.changed _ _ _ known₁ outside, grows.changed _ _ _ known outside]
  simp only [Mmu.fillFrame, Function.update_self]

end Trunk

end SnapOS.Paging
