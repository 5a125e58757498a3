/- The direct map: a window of the upper half in which every page is mapped to its own address. What vmm_init
leaves out of it, and what the calls after it keep. -/
import SnapOS.FrameOwnership
import SnapOS.KernelHalf

namespace SnapOS.Paging
open SnapOS.Lib SnapOS.Mm

variable {roles roles' : Roles Nat Place} {m m' : Mmu} {s s' : Vmm}

def windowStart : Nat := 0x888000000000

/-- The kernel's image is mapped above these physical addresses. -/
def directLimit : Nat := kernelStartVirtAddr - idVirtRegionStart

def blockStart (p : Place) (index : Nat) : Nat := (p.key * 512 + index) * span p.level

/-- Entries of the upper half are writable, and those of the window map pages to themselves. -/
def DirectLeaf (p : Place) (index entry : Nat) : Prop :=
  (userEnd ≤ blockStart p index → entry &&& pageRw = pageRw) ∧
    (windowStart ≤ blockStart p index → blockStart p index < windowStart + 2 ^ 46 →
      entryPaddr entry / span p.level * span p.level = blockStart p index - windowStart)

abbrev directKinds : TableKinds Place := placeKinds DirectLeaf

theorem blockStart_placeAt (copy : Bool) (vaddr : Nat) {level : Nat} (bound : level ≤ 3) :
    blockStart (placeAt copy vaddr level) (tableIndex level vaddr) = vaddr % addressBits / span level * span level := by
  rw [block_split bound]
  rfl

theorem physToVirt_eq {p : Nat} (low : p < directLimit) : physToVirt p = p + idVirtRegionStart := by
  rw [physToVirt, Nat.mod_eq_of_lt]
  simp only [directLimit, kernelStartVirtAddr, idVirtRegionStart, word64] at *
  omega

section Pages

variable {vaddr paddr : Nat} {size : PageKind} {opts : Pgprot}

theorem directLeaf_page (valigned : vaddr % span (levelOfPage size) = 0)
    (paligned : paddr % span (levelOfPage size) = 0) (bound : paddr < 2 ^ 52)
    (only : opts.protFlags &&& flagMask = opts.protFlags) (writable : opts.protFlags &&& pageRw = pageRw)
    (identity : windowStart ≤ vaddr % addressBits → vaddr % addressBits < windowStart + 2 ^ 46 →
      paddr = vaddr % addressBits - windowStart) :
    DirectLeaf (placeAt false vaddr (levelOfPage size)) (tableIndex (levelOfPage size) vaddr)
      (Mmu.leafEntry paddr size opts) := by
  have divides : pageSize ∣ span (levelOfPage size) := by cases size <;> decide
  have page := entryPaddr_page
    (Nat.mod_eq_zero_of_dvd (Nat.dvd_trans divides (Nat.dvd_of_mod_eq_zero paligned))) bound
  have start : blockStart (placeAt false vaddr (levelOfPage size)) (tableIndex (levelOfPage size) vaddr) =
      vaddr % addressBits := by
    rw [blockStart_placeAt false vaddr (Nat.le_succ_of_le (levelOfPage_le size))]
    refine Nat.div_mul_cancel (Nat.dvd_of_mod_eq_zero ?_)
    rw [Nat.mod_mod_of_dvd _ (by cases size <;> decide)]
    exact valigned
  refine ⟨fun _ => ?_, fun above below => ?_⟩
  · have flags := leafEntry_flags page size only
    calc Mmu.leafEntry paddr size opts &&& pageRw
        = Mmu.leafEntry paddr size opts &&& flagMask &&& pageRw := by rw [Nat.and_assoc]; rfl
      _ = pageRw := by rw [flags, writable]
  · rw [start] at above below ⊢
    rw [Mmu.leafEntry_paddr page size (entryPaddr_flags only), ← identity above below]
    exact Nat.div_mul_cancel (Nat.dvd_of_mod_eq_zero paligned)

theorem directLeaf_lower {p : Place} {index : Nat} (low : blockStart p index < userEnd) (entry : Nat) :
    DirectLeaf p index entry := by
  refine ⟨fun upper => absurd low (Nat.not_lt.mpr upper), fun above _ => ?_⟩
  simp only [userEnd, windowStart] at *
  omega

theorem Typed.direct_identity (typed : Typed directKinds roles m) {pgd p : Nat} (known : roles pgd = some kernelTop)
    (low : p < 2 ^ 46) {leaf : Leaf} (h : translate m.tables pgd (physToVirt p) = some leaf) :
    leaf.paddr (physToVirt p) = p := by
  have root : roles pgd = some (placeAt false (physToVirt p) 3) := by
    rw [placeAt_top]
    exact known
  have found := typed.translate_leaf (b := placeBranch DirectLeaf false (physToVirt p)) root h
  have bound := found.bound
  have window := found.known.2
  rw [physToVirt_eq (Nat.lt_trans low (by decide))] at *
  simp only [placeBranch, blockStart_placeAt false _ bound] at window
  simp only [Leaf.paddr]
  generalize leaf.level = level at *
  simp only [placeAt] at window
  obtain rfl | rfl | rfl | rfl : level = 0 ∨ level = 1 ∨ level = 2 ∨ level = 3 := by omega
  all_goals
    simp only [span_zero, span_one, span_two, span_three, windowStart, idVirtRegionStart, addressBits] at *
    omega

theorem Typed.direct_writable (typed : Typed directKinds roles m) {pgd : Nat} (known : roles pgd = some kernelTop)
    (upper : kernelHalf ≤ vaddr) (bounded : vaddr < word64) {leaf : Leaf}
    (h : translate m.tables pgd vaddr = some leaf) : leaf.flags &&& pageRw = pageRw := by
  have root : roles pgd = some (placeAt false vaddr 3) := by
    rw [placeAt_top]
    exact known
  have found := typed.translate_leaf (b := placeBranch DirectLeaf false vaddr) root h
  have bound := found.bound
  have writable := found.known.1
  simp only [placeBranch, blockStart_placeAt false _ bound] at writable
  have half : userEnd ≤ vaddr % addressBits / span leaf.level * span leaf.level := by
    generalize leaf.level = level at *
    simp only [kernelHalf, word64, userEnd, addressBits] at *
    obtain rfl | rfl | rfl | rfl : level = 0 ∨ level = 1 ∨ level = 2 ∨ level = 3 := by omega
    all_goals
      simp only [span_zero, span_one, span_two, span_three] at *
      omega
  rw [found.flags, Nat.and_assoc]
  exact writable half

end Pages

/-! vmm_init -/

section Init

variable {pgd : Nat}

/-- The pages that `vmm_init` maps for a region of the clean map. -/
def Reached (oneG : Bool) (r : PhysRegion) (p : Nat) : Prop :=
  r.type = .usable ∧
    Covered oneG (pageAlignDown r.start) (pageAlignDown r.start) (pageAlignUp r.stop - pageAlignDown r.start) p

/-- The window starts at a multiple of all page sizes. -/
theorem blockInside_window {size : Nat} (positive : 0 < size) (divides : size ∣ idVirtRegionStart) (start len p : Nat) :
    BlockInside size (start + idVirtRegionStart) len (p + idVirtRegionStart) ↔ BlockInside size start len p := by
  have shift : (p + idVirtRegionStart) / size * size = p / size * size + idVirtRegionStart := by
    obtain ⟨n, same⟩ := divides
    rw [same, Nat.add_mul_div_left _ _ positive, Nat.add_mul, Nat.mul_comm n]
  simp only [BlockInside, shift]
  omega

theorem covered_window (oneG : Bool) (start len p : Nat) :
    Covered oneG (start + idVirtRegionStart) start len (p + idVirtRegionStart) ↔ Covered oneG start start len p := by
  have mod : ∀ size, size ∣ idVirtRegionStart → ∀ x, (x + idVirtRegionStart) % size = x % size := by
    rintro size ⟨n, same⟩ x
    rw [same, Nat.add_mul_mod_self_left]
  have by2m : pageSize2m ∣ idVirtRegionStart := by decide
  have by1g : pageSize1g ∣ idVirtRegionStart := by decide
  simp only [Covered, Skipped, blockInside_window (by decide) by2m, blockInside_window (by decide) by1g, mod _ by2m,
    mod _ by1g]
  refine and_congr (by omega) (and_congr (by omega) Iff.rfl)

theorem region_window {r : PhysRegion} (proper : r.start < r.stop) (below : r.stop ≤ directLimit) :
    pageAlignDown r.start < pageAlignUp r.stop ∧ pageAlignUp r.stop ≤ directLimit ∧
      regionLen r = pageAlignUp r.stop - pageAlignDown r.start ∧
      physToVirt (pageAlignDown r.start) = pageAlignDown r.start + idVirtRegionStart := by
  have down := pageAlignDown_le r.start
  have up : r.stop ≤ pageAlignUp r.stop := by
    refine (pageAlignUp_spec ?_).1
    simp only [directLimit, kernelStartVirtAddr, idVirtRegionStart, pageSize, word64] at *
    omega
  have fits : pageAlignUp r.stop ≤ directLimit := pageAlignUp_le below (by decide) (by decide)
  refine ⟨by omega, fits, ?_, physToVirt_eq (by omega)⟩
  simp only [regionLen, directLimit, kernelStartVirtAddr, idVirtRegionStart, word64] at *
  omega

theorem mapRegion_ok {r : PhysRegion} (proper : r.start < r.stop) (below : r.stop ≤ directLimit)
    (usable : r.type = .usable) (h : Mmu.mapRegion pgd m r = .ok m') :
    pageAlignDown r.start ≤ pageAlignUp r.stop ∧ pageAlignUp r.stop ≤ directLimit ∧
      m.mmuMapRange pgd (pageAlignDown r.start + idVirtRegionStart) (pageAlignDown r.start)
        (pageAlignUp r.stop - pageAlignDown r.start) directProt = .ok m' := by
  obtain ⟨order, fits, length, start⟩ := region_window proper below
  rw [regionLen] at length
  simp only [Mmu.mapRegion, usable, ne_eq, not_true_eq_false, if_false, length, start] at h
  exact ⟨Nat.le_of_lt order, fits, h⟩

theorem Typed.mapRegion (typed : Typed directKinds roles m) (known : roles pgd = some kernelTop) {r : PhysRegion}
    (proper : r.start < r.stop) (below : r.type = .usable → r.stop ≤ directLimit)
    (h : Mmu.mapRegion pgd m r = .ok m') :
    ∃ roles', Grows directKinds (fun _ _ => True) roles m roles' m' ∧ ∀ p < directLimit,
      (Reached m.cpuHas1gPages r p → (translate m'.tables pgd (physToVirt p)).isSome = true) ∧
      (¬ Reached m.cpuHas1gPages r p →
        translate m'.tables pgd (physToVirt p) = translate m.tables pgd (physToVirt p)) := by
  by_cases usable : r.type = .usable
  · obtain ⟨order, fits, range⟩ := mapRegion_ok proper (below usable) usable h
    obtain ⟨⟨aligned, aligned', whole⟩, loop⟩ := mmuMapRange_ok range
    have half : InHalf (pageAlignDown r.start + idVirtRegionStart) (pageAlignUp r.stop - pageAlignDown r.start) := by
      refine Or.inr ?_
      simp only [directLimit, kernelStartVirtAddr, idVirtRegionStart, word64] at *
      omega
    obtain ⟨roles', grows, maps⟩ := typed.mapLoop (fun _ _ => True) known aligned aligned' whole half
      (by simp only [directLimit, kernelStartVirtAddr, idVirtRegionStart] at *; omega) (by decide)
      (fun _ _ _ _ _ => trivial) (by
        intro k size within valigned paligned
        refine directLeaf_page valigned paligned ?_ (by decide) (by decide) fun above low => ?_
        · simp only [directLimit, kernelStartVirtAddr, idVirtRegionStart] at *
          omega
        · simp only [directLimit, kernelStartVirtAddr, idVirtRegionStart, windowStart, addressBits] at *
          omega) loop
    refine ⟨roles', grows, fun p low => ?_⟩
    have canonical : Canonical (physToVirt p) := by
      rw [physToVirt_eq low]
      refine Or.inr ?_
      simp only [directLimit, kernelStartVirtAddr, idVirtRegionStart, word64] at *
      omega
    have covered := covered_window m.cpuHas1gPages (pageAlignDown r.start)
      (pageAlignUp r.stop - pageAlignDown r.start) p
    rw [← physToVirt_eq low] at covered
    refine ⟨fun reached => ?_, fun missed => maps.others _ canonical fun inside => missed ⟨usable, covered.mp inside⟩⟩
    obtain ⟨leaf, found, _⟩ := maps.covered _ canonical (covered.mpr reached.2)
    rw [found]
    rfl
  · simp only [Mmu.mapRegion, ne_eq, usable, not_false_eq_true, if_true] at h
    cases h
    exact ⟨roles, Grows.refl typed, fun p _ => ⟨fun reached => absurd reached.1 usable, fun _ => rfl⟩⟩

theorem Typed.mapRegions (typed : Typed directKinds roles m) (known : roles pgd = some kernelTop)
    {clean : List PhysRegion} (proper : ∀ r ∈ clean, r.start < r.stop)
    (below : ∀ r ∈ clean, r.type = .usable → r.stop ≤ directLimit)
    (h : clean.foldlM (Mmu.mapRegion pgd) m = .ok m') :
    ∃ roles', Grows directKinds (fun _ _ => True) roles m roles' m' ∧ ∀ p < directLimit,
      ((∃ r ∈ clean, Reached m.cpuHas1gPages r p) → (translate m'.tables pgd (physToVirt p)).isSome = true) ∧
      ((∀ r ∈ clean, ¬ Reached m.cpuHas1gPages r p) →
        translate m'.tables pgd (physToVirt p) = translate m.tables pgd (physToVirt p)) := by
  induction clean generalizing m roles with
  | nil =>
      cases h
      exact ⟨roles, Grows.refl typed, fun p _ => ⟨fun ⟨r, member, _⟩ => (nomatch member), fun _ => rfl⟩⟩
  | cons r rest ih =>
      rw [List.foldlM_cons] at h
      obtain ⟨m₁, first, later⟩ := Exec.bind_eq_ok.mp h
      obtain ⟨roles₁, grows, one⟩ := typed.mapRegion known (proper r List.mem_cons_self) (below r List.mem_cons_self)
        first
      obtain ⟨roles₂, grows', others⟩ := ih grows.typed (grows.extended pgd _ known)
        (fun q member => proper q (List.mem_cons_of_mem r member))
        (fun q member => below q (List.mem_cons_of_mem r member)) later
      rw [grows.cpu] at others
      refine ⟨roles₂, grows.trans grows', fun p low => ⟨?_, fun missed => ?_⟩⟩
      · rintro ⟨q, member, reached⟩
        by_cases again : ∃ q ∈ rest, Reached m.cpuHas1gPages q p
        · exact (others p low).1 again
        · rw [(others p low).2 fun q inside reached => again ⟨q, inside, reached⟩]
          rcases List.mem_cons.mp member with rfl | inside
          · exact (one p low).1 reached
          · exact absurd ⟨q, inside, reached⟩ again
      · rw [(others p low).2 fun q inside => missed q (List.mem_cons_of_mem r inside),
          (one p low).2 (missed r List.mem_cons_self)]

theorem kernelSize_le {kernelEnd : Nat} (above : kernelStartVirtAddr ≤ kernelEnd) (fits : kernelEnd < word64) :
    kernelSize kernelEnd ≤ word64 - kernelStartVirtAddr := by
  refine pageAlignUp_le ?_ (by decide) (by decide)
  simp only [kernelStartVirtAddr, word64] at *
  omega

theorem Typed.mapImage (typed : Typed directKinds roles m) (known : roles pgd = some kernelTop) (k : KernelImage)
    (h : m.mmuMapRange pgd kernelStartVirtAddr kernelStartPhysAddr (kernelSize k.kernelEnd) kernelProt = .ok m') :
    ∃ roles', Grows directKinds (fun _ _ => True) roles m roles' m' ∧ ∀ p < directLimit,
      translate m'.tables pgd (physToVirt p) = translate m.tables pgd (physToVirt p) := by
  have short := kernelSize_le k.above k.fits
  obtain ⟨⟨aligned, aligned', whole⟩, loop⟩ := mmuMapRange_ok h
  obtain ⟨roles', grows, maps⟩ := typed.mapLoop (fun _ _ => True) known aligned aligned' whole
    (Or.inr (by simp only [kernelStartVirtAddr, word64] at *; omega))
    (by simp only [kernelStartVirtAddr, kernelStartPhysAddr, word64] at *; omega) (by decide)
    (fun _ _ _ _ _ => trivial) (by
      intro i size within valigned paligned
      refine directLeaf_page valigned paligned ?_ (by decide) (by decide) fun above low => ?_
      · simp only [kernelStartVirtAddr, kernelStartPhysAddr, word64] at *
        omega
      · simp only [kernelStartVirtAddr, windowStart, addressBits, word64] at *
        omega) loop
  refine ⟨roles', grows, fun p low => maps.others _ ?_ fun covered => ?_⟩
  · rw [physToVirt_eq low]
    refine Or.inr ?_
    simp only [directLimit, kernelStartVirtAddr, idVirtRegionStart, word64] at *
    omega
  · have above := covered.1
    rw [physToVirt_eq low] at above
    simp only [directLimit, kernelStartVirtAddr, idVirtRegionStart] at *
    omega

/-- After `vmm_init` the window has the pages of the regions and no others. -/
theorem direct_vmmInit {clean : List PhysRegion} (k : KernelImage) (distinct : m.pool.Nodup)
    (proper : ∀ r ∈ clean, r.start < r.stop) (below : ∀ r ∈ clean, r.type = .usable → r.stop ≤ directLimit)
    (init : vmmInit clean k.kernelEnd m = .ok (0, s)) :
    ∃ roles, Typed directKinds roles s.mmu ∧ roles s.kernelPgd = some kernelTop ∧ s.mms = [] ∧ ∀ p < directLimit,
      (s.translate s.kernelPgd (physToVirt p)).isSome = true ↔ ∃ r ∈ clean, Reached m.cpuHas1gPages r p := by
  obtain ⟨pgdRaw, rest, m₁, m₂, pool, regions, image, rfl⟩ := vmmInit_ok init
  have start : Typed directKinds (fun _ => none) m :=
    ⟨fun _ _ _ used => (nomatch used), distinct, fun _ _ => rfl⟩
  obtain ⟨taken, free, unpooled⟩ := start.next pool
  have assigned := taken.emptyTable free unpooled kernelTop
  have known : Function.update (fun _ => none) pgdRaw.paddr (some kernelTop) pgdRaw.paddr = some kernelTop :=
    Function.update_self ..
  obtain ⟨roles₁, grows, window⟩ := assigned.mapRegions known proper below regions
  have known₁ := grows.extended _ _ known
  obtain ⟨roles₂, last, kept⟩ := grows.typed.mapImage known₁ k image
  refine ⟨roles₂, last.typed, last.extended _ _ known₁, rfl, fun p low => ?_⟩
  simp only [Vmm.translate, kept p low]
  refine ⟨fun mapped => ?_, (window p low).1⟩
  by_contra missed
  have empty : translate m₁.tables pgdRaw.paddr (physToVirt p) = none := by
    rw [(window p low).2 fun r member reached => missed ⟨r, member, reached⟩]
    refine translateFrom_empty ?_
    simp only [Mmu.fillFrame, Function.update_self]
    rfl
  rw [empty] at mapped
  cases mapped

end Init

/-! Runs -/

/-- Calls of the memory manager. An allocation of frames leaves the pool with fewer of them. -/
inductive MemOp where
  | vmm (op : VmmOp)
  | allocFrames (rest : List Frame)

def memStep (s : Vmm) : MemOp → Option Vmm
  | .vmm op => vmmStep s op
  | .allocFrames rest => some { s with mmu := { s.mmu with pool := rest } }

/-- Pages are for lower halves. Physical addresses have distinct images among the addresses of a walk. -/
def MemOp.Legal (s : Vmm) : MemOp → Prop
  | .allocFrames rest => rest.Sublist s.mmu.pool
  | .vmm (.mmCreate _ _) => True
  | .vmm (.vmmAllocRange pgd vaddr size _) => pgd ∈ s.pgds ∧ vaddr + size ≤ userEnd
  | .vmm (.ioremap paddr size) => pageAlignDown paddr + ioremapLen paddr size ≤ addressBits

def lowerCells (p : Place) (index : Nat) : Prop := blockStart p index < userEnd

theorem lowerCells_placeAt (copy : Bool) {vaddr : Nat} (low : vaddr < userEnd) {n : Nat} (bound : n ≤ 3) :
    lowerCells (placeAt copy vaddr n) (tableIndex n vaddr) := by
  rw [lowerCells, blockStart_placeAt copy vaddr bound]
  exact Nat.lt_of_le_of_lt (Nat.le_trans (Nat.div_mul_le_self _ _) (Nat.mod_le _ _)) low

theorem upper_placeAt (copy : Bool) {vaddr : Nat} (upper : kernelHalf ≤ vaddr) (bounded : vaddr < word64) {n : Nat}
    (bound : n ≤ 3) : ¬ lowerCells (placeAt copy vaddr n) (tableIndex n vaddr) := by
  rw [lowerCells, blockStart_placeAt copy vaddr bound]
  simp only [kernelHalf, word64, userEnd, addressBits] at *
  obtain rfl | rfl | rfl | rfl : n = 0 ∨ n = 1 ∨ n = 2 ∨ n = 3 := by omega
  all_goals
    simp only [span_zero, span_one, span_two, span_three] at *
    omega

theorem mapsPage_lower (pgd : Nat) (copy : Bool) (prot : Pgprot) :
    MapsPage directKinds lowerCells pgd ⟨copy, 3, 0⟩ prot := by
  intro roles m m' vaddr frame rest typed known low pool h
  obtain ⟨taken, _, _⟩ := typed.next pool
  obtain ⟨table, m₁, walks, rfl⟩ := mmuMapOne_ok h
  rw [← placeAt_top copy vaddr] at known
  obtain ⟨roles₁, grows, found⟩ := taken.walks (b := placeBranch DirectLeaf copy vaddr) known
    (Or.inr (lowerCells_placeAt copy low (Nat.le_refl 3)))
    (fun n inner => lowerCells_placeAt copy low (Nat.le_of_lt inner)) walks
  have cell := lowerCells_placeAt copy low (n := 0) (by decide)
  have fits : directKinds.Fits roles₁ (placeAt copy vaddr 0) _ (Mmu.leafEntry frame.paddr .page4k prot) :=
    leafEntry_fits rfl (directLeaf_lower cell _)
  have all := grows.trans (Grows.setEntry grows.typed found fits cell)
  refine ⟨roles₁, all.typed, all.extended, fun a free others => all.fresh a free fun f member => ?_,
    fun f member => ?_, all.changed, all.cpu⟩
  · exact others f (pool ▸ List.mem_cons_of_mem frame member)
  · exact pool ▸ List.mem_cons_of_mem frame (all.pool f member)

/-- `mapped` are addresses that the window had at the start. -/
structure DirectInv (mapped : Nat → Prop) (roles : Roles Nat Place) (s : Vmm) : Prop where
  typed : Typed directKinds roles s.mmu
  kernel : roles s.kernelPgd = some kernelTop
  users : ∀ mm ∈ s.mms, roles mm.pgd = some copyTop
  window : ∀ p < directLimit, mapped p → (s.translate s.kernelPgd (physToVirt p)).isSome = true

section Runs

variable {mapped : Nat → Prop}

theorem physToVirt_upper {p : Nat} (low : p < directLimit) : kernelHalf ≤ physToVirt p := by
  rw [physToVirt_eq low]
  simp only [kernelHalf, idVirtRegionStart]
  omega

theorem DirectInv.grows (inv : DirectInv mapped roles s) {touched : Place → Nat → Prop}
    (grows : Grows directKinds touched roles s.mmu roles' m') (keeps : ∀ p < directLimit,
      (translate s.mmu.tables s.kernelPgd (physToVirt p)).isSome = true →
        (translate m'.tables s.kernelPgd (physToVirt p)).isSome = true) :
    DirectInv mapped roles' { s with mmu := m' } :=
  ⟨grows.typed, grows.extended _ _ inv.kernel, fun mm member => grows.extended _ _ (inv.users mm member),
    fun p low known => keeps p low (inv.window p low known)⟩

theorem DirectInv.allocRange (inv : DirectInv mapped roles s) {pgd vaddr size : Nat} {prot : Pgprot} {res : Int}
    (member : pgd ∈ s.pgds) (low : vaddr + size ≤ userEnd)
    (h : s.mmu.vmmAllocRange pgd vaddr size prot = .ok (res, m')) :
    ∃ roles', DirectInv mapped roles' { s with mmu := m' } := by
  have root : ∃ copy, roles pgd = some ⟨copy, 3, 0⟩ := by
    rcases List.mem_cons.mp member with rfl | created
    · exact ⟨false, inv.kernel⟩
    · obtain ⟨mm, known, rfl⟩ := List.mem_map.mp created
      exact ⟨true, inv.users mm known⟩
  obtain ⟨copy, known⟩ := root
  obtain ⟨roles', grows⟩ := inv.typed.allocRange known (mapsPage_lower pgd copy prot) low h
  refine ⟨roles', inv.grows grows fun p below before => ?_⟩
  have kernel : roles s.kernelPgd = some (placeAt false (physToVirt p) 3) := by
    rw [placeAt_top]
    exact inv.kernel
  rw [inv.typed.translate_congr (b := placeBranch DirectLeaf false (physToVirt p)) kernel]
  · exact before
  · intro n t bound used
    exact grows.changed t _ _ used (upper_placeAt false (physToVirt_upper below) (physToVirt_lt p) bound)

theorem DirectInv.ioremap (inv : DirectInv mapped roles s) {paddr size : Nat}
    (distinct : pageAlignDown paddr + ioremapLen paddr size ≤ addressBits)
    (h : s.mmu.mmuMapRange s.kernelPgd (physToVirt (pageAlignDown paddr)) (pageAlignDown paddr)
      (ioremapLen paddr size) ioremapProt = .ok m') : ∃ roles', DirectInv mapped roles' { s with mmu := m' } := by
  obtain ⟨⟨aligned, aligned', whole⟩, loop⟩ := mmuMapRange_ok h
  have small : pageAlignDown paddr < word64 := by
    simp only [addressBits, word64] at *
    omega
  obtain ⟨roles', grows, keeps, _⟩ := inv.typed.mapLoop_keeps inv.kernel aligned aligned' whole (physToVirt_lt _)
    small (by
    intro k size within valigned paligned
    have low : (pageAlignDown paddr + k) % word64 = pageAlignDown paddr + k :=
      Nat.mod_eq_of_lt (by simp only [addressBits, word64] at *; omega)
    rw [low]
    refine directLeaf_page ?_ paligned ?_ (by decide) (by decide) fun above below => ?_
    · rw [Nat.mod_mod_of_dvd _ (by cases size <;> decide)]
      exact valigned
    · simp only [addressBits] at *
      omega
    · rw [physToVirt] at *
      simp only [idVirtRegionStart, windowStart, addressBits, word64] at *
      omega) loop
  exact ⟨roles', inv.grows grows fun p _ => keeps (physToVirt p)⟩

theorem DirectInv.mmCreate (inv : DirectInv mapped roles s) (kzallocOk : Bool) (taken : Nat) :
    ∃ roles', DirectInv mapped roles' (s.mmCreate kzallocOk taken).2 := by
  obtain ⟨roles', typed, grown, kernel, kept, created⟩ := inv.typed.mmCreate (fun _ _ h => h) inv.kernel kzallocOk taken
  refine ⟨roles', typed, kernel ▸ grown _ _ inv.kernel, fun mm member => ?_, fun p low known => ?_⟩
  · exact (created mm member).elim (fun old => grown _ _ (inv.users mm old)) And.left
  · have root : roles s.kernelPgd = some (placeAt false (physToVirt p) 3) := by
      rw [placeAt_top]
      exact inv.kernel
    rw [Vmm.translate, kernel, inv.typed.translate_congr (b := placeBranch DirectLeaf false (physToVirt p)) root]
    · exact inv.window p low known
    · exact fun n t _ used => congrFun (kept t _ used) _

theorem DirectInv.step (inv : DirectInv mapped roles s) {op : MemOp} (legal : op.Legal s)
    (h : memStep s op = some s') : ∃ roles', DirectInv mapped roles' s' := by
  cases op with
  | allocFrames rest =>
      cases h
      exact ⟨roles, ⟨inv.typed.cells, inv.typed.distinct.sublist legal,
        fun f member => inv.typed.unused f (legal.subset member)⟩, inv.kernel, inv.users, inv.window⟩
  | vmm op =>
      cases op with
      | mmCreate kzallocOk taken =>
          cases h
          exact inv.mmCreate kzallocOk taken
      | vmmAllocRange pgd vaddr size prot =>
          obtain ⟨res, m', called, rfl⟩ := vmmStep_allocRange h
          exact inv.allocRange legal.1 legal.2 called
      | ioremap paddr size =>
          obtain ⟨result, called⟩ := vmmStep_ioremap h
          obtain ⟨m', range, _, rfl⟩ := ioremap_ok called
          exact inv.ioremap legal range

end Runs

/-! What the allocators hand out -/

/-- An address in the three quarters of a block that `vmm_init` does not map. -/
def DirectGap (oneG : Bool) (clean : List PhysRegion) (p : Nat) : Prop :=
  ∃ r ∈ clean, r.type = .usable ∧
    Skipped oneG (pageAlignDown r.start) (pageAlignDown r.start) (pageAlignUp r.stop - pageAlignDown r.start) p

/-- The window maps addresses to themselves, and has every frame an allocator can return. -/
structure DirectMapped (early : EarlyPmm) (s : Vmm) : Prop where
  identity : ∀ p < 2 ^ 46, ∀ leaf, s.translate s.kernelPgd (physToVirt p) = some leaf → leaf.paddr (physToVirt p) = p
  covers : ∀ r, CanReturn early r → ∀ p, r.start ≤ p → p < r.stop →
    ∃ leaf, s.translate s.kernelPgd (physToVirt p) = some leaf ∧ leaf.flags &&& pageRw = pageRw

section Allocators

variable {early : EarlyPmm} {clean : List PhysRegion} {r : FrameRange} {p : Nat}

/-- An owned page was mapped exactly if it is in no gap. -/
theorem reached_iff (owned : Owned clean r) (map : CleanMap clean) (low : r.start ≤ p) (high : p < r.stop)
    (oneG : Bool) : (∃ q ∈ clean, Reached oneG q p) ↔ ¬ DirectGap oneG clean p := by
  obtain ⟨q, member, usable, _, start, stop, only⟩ := owned.only_region map low high
  constructor
  · rintro ⟨q₁, member₁, _, covered⟩ ⟨q₂, member₂, _, skipped⟩
    have inside := skipped.inside
    have inside₁ := covered.1
    have inside₂ := covered.2.1
    obtain rfl := only q₁ member₁ inside₁ (by omega)
    obtain rfl := only q₂ member₂ inside.1 (by omega)
    exact covered.2.2 skipped
  · intro noGap
    exact ⟨q, member, usable, start, by omega, fun skipped => noGap ⟨q, member, usable, skipped⟩⟩

section Boot

variable {k : KernelImage} {map : List PhysRegion} {start : Vmm}

theorem canReturn_window (regions : ∀ r ∈ map, r.start < r.stop ∧ r.stop ≤ 2 ^ 52)
    (earlyInit : earlyPmmInit k map = .ok (0, early))
    (below : ∀ r ∈ early.clean, r.type = .usable → r.stop ≤ directLimit) (distinct : m.pool.Nodup)
    (init : vmmInit early.clean k.kernelEnd m = .ok (0, start)) (returned : CanReturn early r) (low : r.start ≤ p)
    (high : p < r.stop) :
    p < directLimit ∧ ((start.translate start.kernelPgd (physToVirt p)).isSome = true ↔
      ¬ DirectGap m.cpuHas1gPages early.clean p) := by
  obtain ⟨_, earlyInv, out⟩ := earlyPmmInit_inv (fun r member => (regions r member).2) earlyInit
  obtain ⟨_, _, _, _, window⟩ := direct_vmmInit k distinct earlyInv.map.nonempty below init
  have owned := returned.owned earlyInv out
  obtain ⟨q, member, usable, stop, _⟩ := owned.only_region earlyInv.map low high
  have inside := Nat.lt_of_lt_of_le high (Nat.le_trans stop (below q member usable))
  exact ⟨inside, (window p inside).trans (reached_iff owned earlyInv.map low high _)⟩

/-- In every run the direct map is as promised exactly if no frame that can be returned is in a gap. -/
theorem directMap_iff (regions : ∀ r ∈ map, r.start < r.stop ∧ r.stop ≤ 2 ^ 52)
    (earlyInit : earlyPmmInit k map = .ok (0, early))
    (below : ∀ r ∈ early.clean, r.type = .usable → r.stop ≤ directLimit) (distinct : m.pool.Nodup)
    (init : vmmInit early.clean k.kernelEnd m = .ok (0, start)) {ops : List MemOp}
    (meets : Meets memStep (fun s op => op.Legal s) start ops) :
    Throughout memStep (DirectMapped early) start ops ↔
      ∀ r, CanReturn early r → ∀ p, r.start ≤ p → p < r.stop → ¬ DirectGap m.cpuHas1gPages early.clean p := by
  have window {r : FrameRange} {p : Nat} (returned : CanReturn early r) (low : r.start ≤ p) (high : p < r.stop) :=
    canReturn_window regions earlyInit below distinct init returned low high
  constructor
  · intro always r returned p low high
    obtain ⟨leaf, found, _⟩ := always.first.covers r returned p low high
    refine (window returned low high).2.mp ?_
    rw [found]
    rfl
  · intro noGap
    have proper := (earlyPmmInit_inv (fun r member => (regions r member).2) earlyInit).2.1.map.nonempty
    obtain ⟨roles, typed, kernel, none, _⟩ := direct_vmmInit k distinct proper below init
    refine throughout_of_meets (I := fun s => ∃ roles, DirectInv
      (fun p => (start.translate start.kernelPgd (physToVirt p)).isSome = true) roles s) ?_ ?_ ?_ meets
    · rintro s op t ⟨_, inv⟩ legal h
      exact inv.step legal h
    · rintro s ⟨_, inv⟩
      refine ⟨fun p low leaf found => inv.typed.direct_identity inv.kernel low found, fun r returned p low high => ?_⟩
      obtain ⟨inside, mapped⟩ := window returned low high
      obtain ⟨leaf, found⟩ :=
        Option.isSome_iff_exists.mp (inv.window p inside (mapped.mpr (noGap r returned p low high)))
      exact ⟨leaf, found, inv.typed.direct_writable inv.kernel (physToVirt_upper inside) (physToVirt_lt p) found⟩
    · refine ⟨roles, typed, kernel, fun mm member => ?_, fun p _ mapped => mapped⟩
      rw [none] at member
      cases member

end Boot

end Allocators

/-! Two small machines -/

def pageKernel : KernelImage := ⟨kernelStartVirtAddr + 0x1000, by decide, by decide⟩

def bootInit (early : EarlyPmm) (m : Mmu) : Exec (Int × Vmm) := vmmInit early.clean pageKernel.kernelEnd m

def bootStart (early : EarlyPmm) (m : Mmu) : Vmm := ((bootInit early m).toOption.map Prod.snd).getD ⟨m, 0, []⟩

theorem bootInit_eq {early : EarlyPmm} {m : Mmu} (returned : (bootInit early m).toOption.map Prod.fst = some 0) :
    vmmInit early.clean pageKernel.kernelEnd m = .ok (0, bootStart early m) := by
  obtain ⟨pair, outcome, zero⟩ := Exec.exists_ok_of_map returned
  simp only [bootStart, outcome]
  rw [← zero]
  exact outcome

/-- Three pages, and a block for a page of 1G. -/
def mixedEarly : EarlyPmm :=
  ⟨[⟨0x100000, 0x103000, .usable⟩, ⟨0x1000000, 0x1001000, .reserved⟩, ⟨0x40000000, 0x80000000, .usable⟩],
    some ⟨0x100000, 0x103000, .usable⟩, 0, 0x100000⟩

def largeMmu : Mmu := { sampleMmu with cpuHas1gPages := true }

theorem largeMmu_distinct : largeMmu.pool.Nodup := sampleMmu_distinct

def mixedStart : Vmm := bootStart mixedEarly largeMmu

theorem mixedInit_eq : vmmInit mixedEarly.clean pageKernel.kernelEnd largeMmu = .ok (0, mixedStart) :=
  bootInit_eq (by decide +kernel)

def bootOps : List MemOp :=
  [.vmm (.ioremap 0xFEE00000 0x1000), .vmm (.vmmAllocRange 0x200000 0x400000 0x1000 userPages), .allocFrames []]

theorem directMap_iff_mixed :
    earlyPmmInit pageKernel [⟨0x100000, 0x103000, .usable⟩, ⟨0x40000000, 0x80000000, .usable⟩] = .ok (0, mixedEarly) ∧
      Throughout memStep (DirectMapped mixedEarly) mixedStart bootOps := by
  have early : earlyPmmInit pageKernel [⟨0x100000, 0x103000, .usable⟩, ⟨0x40000000, 0x80000000, .usable⟩] =
    .ok (0, mixedEarly) := rfl
  refine ⟨early, (directMap_iff (by decide) early (by decide) largeMmu_distinct mixedInit_eq ?_).mpr ?_⟩
  · have below : pageAlignDown 0xFEE00000 + ioremapLen 0xFEE00000 0x1000 ≤ addressBits := by decide +kernel
    refine ⟨below, fun t called => ⟨?_, fun u _ => ⟨List.nil_sublist _, fun _ _ => trivial⟩⟩⟩
    obtain ⟨_, called⟩ := vmmStep_ioremap called
    obtain ⟨m', _, _, rfl⟩ := ioremap_ok called
    have member : 0x200000 ∈ mixedStart.pgds := by decide +kernel
    exact ⟨member, by decide⟩
  · rintro r _ p _ _ ⟨q, member, usable, skipped⟩
    have regions : ∀ q ∈ mixedEarly.clean, q.type = .usable → q = ⟨0x100000, 0x103000, .usable⟩ ∨
        q = ⟨0x40000000, 0x80000000, .usable⟩ := by
      decide
    rcases regions q member usable with rfl | rfl
    · exact not_skipped_short (by decide) skipped
    · exact not_skipped_1g 0 (by decide) (by decide) (by decide) (by decide) skipped

/-- Memory from 8 MiB to 16 MiB. -/
def gapEarly : EarlyPmm :=
  ⟨[⟨0x800000, 0x1000000, .usable⟩, ⟨0x1000000, 0x1001000, .reserved⟩], some ⟨0x800000, 0x1000000, .usable⟩, 0,
    0x800000⟩

def gapStart : Vmm := bootStart gapEarly sampleMmu

theorem gapInit_eq : vmmInit gapEarly.clean pageKernel.kernelEnd sampleMmu = .ok (0, gapStart) :=
  bootInit_eq (by decide +kernel)

/-- In a block of `PAGE_SIZE_2M` the frame after the first 2M is handed out and not mapped. -/
theorem directMap_gap :
    earlyPmmInit pageKernel [⟨0x800000, 0x1000000, .usable⟩] = .ok (0, gapEarly) ∧
      vmmInit gapEarly.clean pageKernel.kernelEnd sampleMmu = .ok (0, gapStart) ∧
      CanReturn gapEarly ⟨0xA00000, 1⟩ ∧
      gapStart.translate gapStart.kernelPgd (physToVirt 0xA00000) = none ∧
      ¬ DirectMapped gapEarly gapStart := by
  have early : earlyPmmInit pageKernel [⟨0x800000, 0x1000000, .usable⟩] = .ok (0, gapEarly) := rfl
  have returned : CanReturn gapEarly ⟨0xA00000, 1⟩ := by
    have last : ((run frameStep (afterEarlyInit gapEarly)
        (List.replicate 513 .earlyPmmAllocFrame)).map fun f => f.held ++ f.kept).bind List.head? =
          some ⟨0xA00000, 1⟩ := by
      decide +kernel
    obtain ⟨ranges, outcome, first⟩ := Option.bind_eq_some_iff.mp last
    obtain ⟨f, reached, rfl⟩ := Option.map_eq_some_iff.mp outcome
    exact ⟨_, f, reached, List.mem_of_mem_head? first⟩
  have gap : DirectGap sampleMmu.cpuHas1gPages gapEarly.clean 0xA00000 :=
    ⟨⟨0x800000, 0x1000000, .usable⟩, List.mem_cons_self, rfl, by decide, ⟨by decide, by decide⟩, by decide,
      fun huge => nomatch huge.1⟩
  have window := (canReturn_window (p := 0xA00000) (by decide) early (by decide) sampleMmu_distinct gapInit_eq returned
    (by decide) (by decide)).2
  have absent := Option.not_isSome_iff_eq_none.mp fun mapped => window.mp mapped gap
  refine ⟨early, gapInit_eq, returned, absent, fun mapped => ?_⟩
  obtain ⟨leaf, found, _⟩ := mapped.covers _ returned 0xA00000 (by decide) (by decide)
  cases absent.symm.trans found

end SnapOS.Paging
