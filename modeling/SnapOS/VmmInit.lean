/- vmm_init on every clean memory map: which maps end in a panic of mmu_map_one. The tables of the bootloader are taken
to reach every frame of the pool while vmm_init fills its own. -/
import SnapOS.DirectMap
import SnapOS.RangePages

namespace SnapOS.Paging
open SnapOS.Lib SnapOS.Mm

def regionPages (oneG : Bool) (r : PhysRegion) : List MapPage :=
  if r.type ≠ .usable then [] else rangePages oneG (pageAlignDown r.start) (regionLen r)

def directPages (oneG : Bool) (clean : List PhysRegion) : List MapPage := clean.flatMap (regionPages oneG)

/-- The kernel is linked this far above its physical address. -/
def imageBase : Nat := kernelStartVirtAddr - kernelStartPhysAddr

def imagePages (oneG : Bool) (k : KernelImage) : List MapPage :=
  rangePages oneG kernelStartPhysAddr (kernelSize k.kernelEnd)

/-- The direct map of a region has the address in a page of the level. -/
def DirectPage (oneG : Bool) (r : PhysRegion) (level p : Nat) : Prop :=
  r.type = .usable ∧ PageAt oneG (pageAlignDown r.start) (regionLen r) level p

def ImagePage (oneG : Bool) (k : KernelImage) (level p : Nat) : Prop :=
  PageAt oneG kernelStartPhysAddr (kernelSize k.kernelEnd) level p

/-- No two addresses of the direct map meet in the 48 bits of a walk, and no page of the kernel image is inside a larger
page of the direct map. -/
structure Mappable (oneG : Bool) (clean : List PhysRegion) (k : KernelImage) : Prop where
  direct : ∀ r ∈ clean, ∀ q ∈ clean, ∀ level level' p p', DirectPage oneG r level p → DirectPage oneG q level' p' →
    p % addressBits = p' % addressBits → r = q ∧ p = p'
  image : ∀ r ∈ clean, ∀ level level' p x, DirectPage oneG r level p → ImagePage oneG k level' x →
    (p + idVirtRegionStart) % addressBits = (x + imageBase) % addressBits → level ≤ level'

section Pages

variable {oneG : Bool} {r : PhysRegion}

theorem regionLen_whole (r : PhysRegion) : regionLen r % pageSize = 0 := by
  have up := pageAlignUp_mod r.stop
  have down := pageAlignDown_mod r.start
  rw [regionLen, Nat.mod_mod_of_dvd _ (by decide)]
  simp only [pageSize, word64] at *
  omega

/-- A region behind the last page of the word rounds to the end of the address space. -/
theorem regionLen_fits (proper : r.start < r.stop) (word : r.stop < word64) :
    pageAlignDown r.start + regionLen r ≤ word64 := by
  have down := pageAlignDown_le r.start
  rw [regionLen]
  by_cases fits : r.stop ≤ word64 - pageSize
  · have up := le_pageAlignUp fits
    have bound := (pageAlignUp_spec (x := r.stop) (by simp only [pageSize, word64] at *; omega)).2
    simp only [pageSize, word64] at *
    omega
  · rw [pageAlignUp_wraps word fits]
    simp only [word64] at *
    omega

theorem regionPages_shape (oneG : Bool) (r : PhysRegion) :
    (∀ b ∈ regionPages oneG r, b.Aligned) ∧ (regionPages oneG r).Pairwise MapPage.Before := by
  rw [regionPages]
  split
  · exact ⟨List.forall_mem_nil _, List.Pairwise.nil⟩
  · obtain ⟨each, ascending⟩ := rangePages_shape oneG (pageAlignDown_mod r.start) (regionLen_whole r)
    exact ⟨fun b member => (each b member).1, ascending⟩

theorem directPage_iff {level p : Nat} :
    DirectPage oneG r level p ↔ ∃ b ∈ regionPages oneG r, b.level = level ∧ b.Holds p := by
  rw [DirectPage, regionPages, pageAt_iff (pageAlignDown_mod r.start) (regionLen_whole r)]
  split
  · next other => simp only [other, false_and, List.not_mem_nil, exists_false]
  · next usable => simp only [not_ne_iff.mp usable, true_and]

theorem imagePages_shape (oneG : Bool) (k : KernelImage) :
    (∀ b ∈ imagePages oneG k, b.Aligned) ∧ (imagePages oneG k).Pairwise MapPage.Before := by
  obtain ⟨each, ascending⟩ := rangePages_shape oneG (show kernelStartPhysAddr % pageSize = 0 from rfl)
    (pageAlignUp_mod ((k.kernelEnd + (word64 - kernelStartVirtAddr)) % word64))
  exact ⟨fun b member => (each b member).1, ascending⟩

theorem imagePage_iff {k : KernelImage} {level p : Nat} :
    ImagePage oneG k level p ↔ ∃ b ∈ imagePages oneG k, b.level = level ∧ b.Holds p :=
  pageAt_iff (show kernelStartPhysAddr % pageSize = 0 from rfl) (pageAlignUp_mod _)

theorem MapPage.holds_start (b : MapPage) : b.Holds b.start :=
  ⟨Nat.le_refl _, Nat.lt_add_of_pos_right (Nat.two_pow_pos _)⟩

theorem span_le_1g {level : Nat} (bound : level ≤ 2) : span level ≤ 0x40000000 :=
  Nat.pow_le_pow_right (by decide) (show 12 + 9 * level ≤ 30 by omega)

theorem MapPage.Holds.unique {b : MapPage} {p p' : Nat} (inside : b.Holds p) (inside' : b.Holds p')
    (same : p % addressBits = p' % addressBits) : p = p' := by
  have short := span_le_1g (levelOfPage_le b.size)
  obtain ⟨low, high⟩ := inside
  obtain ⟨low', high'⟩ := inside'
  simp only [MapPage.level, addressBits] at *
  omega

end Pages

section Calls

variable {oneG : Bool} {pgd : Nat} {m m' : Mmu} {clean : List PhysRegion}

theorem mmuMapRange_pages {opts : Pgprot} {base start len : Nat} (based : pageSize1g ∣ base)
    (aligned : start % pageSize = 0) (whole : len % pageSize = 0) (fits : start + len ≤ word64) :
    m.mmuMapRange pgd ((start + base) % word64) start len opts =
      (rangePages m.cpuHas1gPages start len).foldlM (placePage opts pgd base) m := by
  have page : (start + base) % word64 % pageSize = 0 := by
    rw [vaddr_mod (by decide) (Nat.dvd_trans (by decide) based), aligned]
  rw [Mmu.mmuMapRange, ← mmuMapLoop_pages based fits]
  simp only [isPageAlignedTo, page, aligned, whole, decide_true, Bool.not_true, Bool.or_self, Bool.false_eq_true,
    if_false]

theorem mapRegion_pages {r : PhysRegion} (proper : r.start < r.stop) (word : r.stop < word64) :
    m.mapRegion pgd r =
      (regionPages m.cpuHas1gPages r).foldlM (placePage directProt pgd idVirtRegionStart) m := by
  rw [Mmu.mapRegion, regionPages]
  split
  · rfl
  · unfold physToVirt
    exact mmuMapRange_pages (by decide) (pageAlignDown_mod _) (regionLen_whole r) (regionLen_fits proper word)

theorem placePages_cpu {opts : Pgprot} {base : Nat} {l : List MapPage}
    (h : l.foldlM (placePage opts pgd base) m = .ok m') : m'.cpuHas1gPages = m.cpuHas1gPages := by
  induction l generalizing m with
  | nil =>
      cases h
      rfl
  | cons b rest ih =>
      rw [List.foldlM_cons] at h
      obtain ⟨m₁, one, later⟩ := Exec.bind_eq_ok.mp h
      rw [ih later, placePage_cpu one]

/-- The loop over the map is one loop over the pages of its regions. -/
theorem mapRegions_pages (proper : ∀ r ∈ clean, r.start < r.stop) (word : ∀ r ∈ clean, r.stop < word64) :
    clean.foldlM (Mmu.mapRegion pgd) m =
      (directPages m.cpuHas1gPages clean).foldlM (placePage directProt pgd idVirtRegionStart) m := by
  induction clean generalizing m with
  | nil => rfl
  | cons r rest ih =>
      rw [List.foldlM_cons, directPages, List.flatMap_cons, List.foldlM_append,
        mapRegion_pages (proper r List.mem_cons_self) (word r List.mem_cons_self)]
      cases first : (regionPages m.cpuHas1gPages r).foldlM (placePage directProt pgd idVirtRegionStart) m with
      | error e => rfl
      | ok m₁ =>
          rw [Exec.ok_bind, Exec.ok_bind, ← placePages_cpu first]
          exact ih (fun q member => proper q (List.mem_cons_of_mem r member))
            fun q member => word q (List.mem_cons_of_mem r member)

theorem imageBase_1g : pageSize1g ∣ imageBase := by decide

theorem kernelStartVirtAddr_eq : (kernelStartPhysAddr + imageBase) % word64 = kernelStartVirtAddr := by decide

theorem kernelSize_fits (k : KernelImage) : kernelStartPhysAddr + kernelSize k.kernelEnd ≤ word64 := by
  have short := kernelSize_le k.above k.fits
  simp only [kernelStartPhysAddr, kernelStartVirtAddr, word64] at *
  omega

theorem mapImage_pages (k : KernelImage) :
    m.mmuMapRange pgd kernelStartVirtAddr kernelStartPhysAddr (kernelSize k.kernelEnd) kernelProt =
      (imagePages m.cpuHas1gPages k).foldlM (placePage kernelProt pgd imageBase) m := by
  have whole : kernelSize k.kernelEnd % pageSize = 0 := pageAlignUp_mod _
  rw [imagePages, ← mmuMapRange_pages imageBase_1g (by decide) whole (kernelSize_fits k), kernelStartVirtAddr_eq]

def zeroed (m : Mmu) (pgdRaw : Frame) (rest : List Frame) : Mmu :=
  Mmu.fillFrame { m with pool := rest } pgdRaw.paddr fun _ => 0

/-- `vmm_init` as two runs over pages, the direct map and the kernel image. -/
def initPages (clean : List PhysRegion) (k : KernelImage) (m : Mmu) (pgdRaw : Frame) (rest : List Frame) :
    Exec Mmu := do
  let m₁ ← (directPages m.cpuHas1gPages clean).foldlM (placePage directProt pgdRaw.paddr idVirtRegionStart)
    (zeroed m pgdRaw rest)
  (imagePages m.cpuHas1gPages k).foldlM (placePage kernelProt pgdRaw.paddr imageBase) m₁

theorem vmmInit_pages {pgdRaw : Frame} {rest : List Frame} (k : KernelImage) (pool : m.pool = pgdRaw :: rest)
    (proper : ∀ r ∈ clean, r.start < r.stop) (word : ∀ r ∈ clean, r.stop < word64) :
    vmmInit clean k.kernelEnd m =
      initPages clean k m pgdRaw rest >>= fun m₂ => .ok (0, ⟨m₂, pgdRaw.paddr, []⟩) := by
  have unfolded : vmmInit clean k.kernelEnd m =
      clean.foldlM (Mmu.mapRegion pgdRaw.paddr) (zeroed m pgdRaw rest) >>=
        fun m₁ => m₁.mmuMapRange pgdRaw.paddr kernelStartVirtAddr kernelStartPhysAddr (kernelSize k.kernelEnd)
          kernelProt >>= fun m₂ => .ok (0, ⟨m₂, pgdRaw.paddr, []⟩) := by
    simp only [vmmInit, Mmu.pmmCurrentAllocFrame, pool, zeroed]
  rw [unfolded, mapRegions_pages proper word, initPages]
  change ((directPages m.cpuHas1gPages clean).foldlM _ _ >>= _) = _
  cases first : (directPages m.cpuHas1gPages clean).foldlM (placePage directProt pgdRaw.paddr idVirtRegionStart)
      (zeroed m pgdRaw rest) with
  | error e => simp only [Exec.error_bind]
  | ok m₁ =>
      have cpu : m₁.cpuHas1gPages = (zeroed m pgdRaw rest).cpuHas1gPages := placePages_cpu first
      rw [Exec.ok_bind, Exec.ok_bind, mapImage_pages, cpu]
      rfl

end Calls

section Conditions

variable {oneG : Bool} {clean : List PhysRegion} {k : KernelImage}

theorem idVirtRegionStart_1g : pageSize1g ∣ idVirtRegionStart := by decide

theorem directPages_apart (distinct : clean.Nodup) :
    (directPages oneG clean).Pairwise (strictPages idVirtRegionStart).Apart ↔
      ∀ r ∈ clean, ∀ q ∈ clean, ∀ level level' p p', DirectPage oneG r level p → DirectPage oneG q level' p' →
        p % addressBits = p' % addressBits → r = q ∧ p = p' := by
  have shape := regionPages_shape oneG
  have meet {r q : PhysRegion} {b c : MapPage} (inB : b ∈ regionPages oneG r) (inC : c ∈ regionPages oneG q) :=
    strictPages_apart idVirtRegionStart_1g ((shape r).1 b inB) ((shape q).1 c inC)
  rw [directPages, List.pairwise_flatMap]
  constructor
  · rintro ⟨within, across⟩ r inR q inQ level level' p p' page page' same
    obtain ⟨b, inB, _, holds⟩ := directPage_iff.mp page
    obtain ⟨c, inC, _, holds'⟩ := directPage_iff.mp page'
    have notApart : ¬ (strictPages idVirtRegionStart).Apart b c := fun apart =>
      (meet inB inC).mp apart p p' holds holds' same
    by_cases sameRegion : r = q
    · subst sameRegion
      by_cases samePage : b = c
      · subst samePage
        exact ⟨rfl, holds.unique holds' same⟩
      · exact absurd ((within r inR).forall inB inC samePage) notApart
    · have : Std.Symm fun r q => ∀ b ∈ regionPages oneG r, ∀ c ∈ regionPages oneG q,
          (strictPages idVirtRegionStart).Apart b c := ⟨fun r q apart c inC b inB => (apart b inB c inC).symm⟩
      exact absurd (across.forall inR inQ sameRegion b inB c inC) notApart
  · intro unique
    refine ⟨fun r inR => ?_, ?_⟩
    · refine (shape r).2.imp_of_mem fun inB inC before => (meet inB inC).mpr fun p p' holds holds' same => ?_
      obtain ⟨_, rfl⟩ := unique r inR r inR _ _ p p' (directPage_iff.mpr ⟨_, inB, rfl, holds⟩)
        (directPage_iff.mpr ⟨_, inC, rfl, holds'⟩) same
      exact absurd holds.2 (Nat.not_lt.mpr (Nat.le_trans before holds'.1))
    · refine distinct.imp_of_mem fun inR inQ different b inB c inC =>
        (meet inB inC).mpr fun p p' holds holds' same => ?_
      exact different (unique _ inR _ inQ _ _ p p' (directPage_iff.mpr ⟨b, inB, rfl, holds⟩)
        (directPage_iff.mpr ⟨c, inC, rfl, holds'⟩) same).1

/-- The image is too short for two of its pages to meet. -/
theorem imagePages_apart (oneG : Bool) (k : KernelImage) :
    (imagePages oneG k).Pairwise (overwritingPages imageBase).Apart := by
  obtain ⟨aligned, ascending⟩ := imagePages_shape oneG k
  have low {b : MapPage} {p : Nat} (inB : b ∈ imagePages oneG k) (holds : b.Holds p) : p % addressBits = p := by
    have high := (PageAt.bounds (imagePage_iff.mpr ⟨b, inB, rfl, holds⟩)).2
    have short := kernelSize_le k.above k.fits
    refine Nat.mod_eq_of_lt ?_
    simp only [kernelStartPhysAddr, kernelStartVirtAddr, word64, addressBits] at *
    omega
  refine ascending.imp_of_mem fun {b c} inB inC before =>
    (strictPages_apart imageBase_1g (aligned b inB) (aligned c inC)).mpr fun p p' holds holds' same => ?_
  rw [low inB holds, low inC holds'] at same
  have below := Nat.lt_of_lt_of_le holds.2 (Nat.le_trans before holds'.1)
  omega

/-- An image page is accepted unless the direct map has a larger page there. -/
theorem imagePages_accepted (apart : (directPages oneG clean).Pairwise (strictPages idVirtRegionStart).Apart) :
    (overwritingPages imageBase).AllAccepted
        ((strictPages idVirtRegionStart).paintAll (fun _ => none) (directPages oneG clean)) (imagePages oneG k) ↔
      ∀ r ∈ clean, ∀ level level' p x, DirectPage oneG r level p → ImagePage oneG k level' x →
        (p + idVirtRegionStart) % addressBits = (x + imageBase) % addressBits → level ≤ level' := by
  have imageAligned := (imagePages_shape oneG k).1
  rw [Placement.allAccepted_local _ (MapPage.vaddr imageBase) (fun here b => ∀ l, here = some l → l ≤ b.level)
    (fun b => rfl) (fun c b => Iff.rfl) _ (imagePages_apart oneG k)]
  constructor
  · intro accepted r inR level level' p x page image same
    obtain ⟨c, inC, rfl, holds⟩ := directPage_iff.mp page
    obtain ⟨b, inB, rfl, holds'⟩ := imagePage_iff.mp image
    by_contra larger
    have theirs := (c.block_iff ((regionPages_shape oneG r).1 c inC) idVirtRegionStart_1g _).mpr ⟨p, holds, same⟩
    have own := (b.block_iff (imageAligned b inB) imageBase_1g _).mpr ⟨x, holds', rfl⟩
    have covers : SameBlock c.level (c.vaddr idVirtRegionStart) (b.vaddr imageBase) :=
      theirs.trans (own.le (Nat.le_of_not_le larger)).symm
    exact larger (accepted b inB c.level ((Placement.paintAll_eq_some _ apart _ _ _).mpr
      (Or.inl ⟨c, List.mem_flatMap.mpr ⟨r, inR, inC⟩, covers, rfl⟩)))
  · intro fits b inB l painted
    rcases (Placement.paintAll_eq_some _ apart _ _ _).mp painted with ⟨c, inDirect, covers, rfl⟩ | ⟨_, none⟩
    · obtain ⟨r, inR, inC⟩ := List.mem_flatMap.mp inDirect
      obtain ⟨p, holds, same⟩ :=
        (c.block_iff ((regionPages_shape oneG r).1 c inC) idVirtRegionStart_1g _).mp covers
      rw [MapPage.vaddr, Nat.mod_mod_of_dvd _ (by decide)] at same
      exact fits r inR c.level b.level p b.start (directPage_iff.mpr ⟨c, inC, rfl, holds⟩)
        (imagePage_iff.mpr ⟨b, inB, rfl, b.holds_start⟩) same
    · cases none

end Conditions

section Outcome

variable {m : Mmu} {pgdRaw : Frame} {rest : List Frame} {clean : List PhysRegion} {k : KernelImage}

theorem zeroed_entry (i : Nat) : present ((zeroed m pgdRaw rest).tables pgdRaw.paddr i) = false := by
  simp only [zeroed, Mmu.fillFrame, Function.update_self]
  rfl

theorem zeroed_isTree (distinct : m.pool.Nodup) (pool : m.pool = pgdRaw :: rest) :
    IsTree pgdRaw.paddr (zeroed m pgdRaw rest) := by
  have start : Typed (placeKinds fun _ _ _ => True) (fun _ => none) m :=
    ⟨fun _ _ _ used => absurd used.symm (Option.some_ne_none _), distinct, fun _ _ => rfl⟩
  obtain ⟨taken, free, unpooled⟩ := start.next pool
  exact ⟨_, taken.emptyTable free unpooled ⟨false, 3, 0⟩, Function.update_self ..⟩

theorem zeroed_dense : Dense (zeroed m pgdRaw rest) pgdRaw.paddr := by
  intro a
  refine Or.inl ?_
  simp only [missingTables, missingFrom]
  rw [if_neg (Bool.eq_false_iff.mp (zeroed_entry _))]

theorem zeroed_levelAt : levelAt pgdRaw.paddr (zeroed m pgdRaw rest) = fun _ => none := by
  funext a
  exact levelAt_eq_none.mpr (translateFrom_empty (zeroed_entry _))

theorem clean_nodup {input : List PhysRegion} (sanitized : Sanitized input clean) : clean.Nodup := by
  refine sanitized.sorted.imp_of_mem fun inR inQ apart same => ?_
  have proper := sanitized.nonempty _ inQ
  rw [same] at apart
  omega

theorem initPages_outcome (distinct : m.pool.Nodup) (pool : m.pool = pgdRaw :: rest) (different : clean.Nodup)
    (enough : initPages clean k m pgdRaw rest ≠ .error noFreeFrames) :
    (Mappable m.cpuHas1gPages clean k ∧ ∃ m₂, initPages clean k m pgdRaw rest = .ok m₂) ∨
      ¬ Mappable m.cpuHas1gPages clean k ∧
        ∃ e, initPages clean k m pgdRaw rest = .error e ∧ (e = existingHuge ∨ e = alreadyMapped) := by
  rw [initPages] at enough ⊢
  have strict : (strictPages idVirtRegionStart).Runs (placePage directProt pgdRaw.paddr idVirtRegionStart) _ _ _ _ :=
    strictPages_runs rfl
  have overwriting : (overwritingPages imageBase).Runs (placePage kernelProt pgdRaw.paddr imageBase) _ _ _ _ :=
    overwritingPages_runs rfl
  have direct := strict.foldlM (l := directPages m.cpuHas1gPages clean)
    ⟨zeroed_isTree distinct pool, zeroed_dense⟩ fun stuck => enough (by rw [stuck, Exec.error_bind])
  -- a zeroed table has no page in the way, so all depends on the pages of the direct map being apart
  rw [Placement.allAccepted_exclusive _ fun c b => Iff.rfl, zeroed_levelAt] at direct
  rcases direct with ⟨⟨_, apart⟩, m₁, placed, ⟨tree, _⟩, painted⟩ | ⟨meets, e, failed, refusal⟩
  · rw [placed, Exec.ok_bind] at enough ⊢
    have unique := (directPages_apart different).mp apart
    have image := overwriting.foldlM tree enough
    rw [painted, imagePages_accepted apart] at image
    rcases image with ⟨fits, m₂, done, _⟩ | ⟨covered, e, failed, refusal⟩
    · exact Or.inl ⟨⟨unique, fits⟩, m₂, done⟩
    · exact Or.inr ⟨fun mappable => covered mappable.image, e, failed, refusal⟩
  · refine Or.inr ⟨fun mappable => meets ⟨fun _ _ _ _ => rfl, (directPages_apart different).mpr mappable.direct⟩, e, ?_⟩
    rw [failed, Exec.error_bind]
    exact ⟨rfl, refusal⟩

theorem placePages_enough (opts : Pgprot) (base : Nat) {pgd : Nat} {l : List MapPage} (tree : IsTree pgd m)
    (enough : 3 * l.length ≤ m.pool.length) : l.foldlM (placePage opts pgd base) m ≠ .error noFreeFrames ∧
      ∀ m', l.foldlM (placePage opts pgd base) m = .ok m' →
        IsTree pgd m' ∧ m.pool.length ≤ m'.pool.length + 3 * l.length := by
  induction l generalizing m with
  | nil =>
      refine ⟨?_, fun m' h => ?_⟩
      · rintro ⟨⟩
      · cases h
        exact ⟨tree, Nat.le_refl _⟩
  | cons b rest ih =>
      rw [List.length_cons] at *
      have notStuck : placePage opts pgd base m b ≠ .error noFreeFrames := by
        intro stuck
        have few := (placePage_ends opts base tree b).few stuck
        omega
      have next {m₁ : Mmu} (one : placePage opts pgd base m b = .ok m₁) :
          IsTree pgd m₁ ∧ m.pool.length ≤ m₁.pool.length + 3 := by
        refine ⟨(placePage_paints tree one).1, ?_⟩
        obtain ⟨table, m₂, walks, rfl⟩ := mmuMapOne_ok one
        exact Nat.le_trans (Nat.le_add_right _ _) walks.pool
      rw [List.foldlM_cons]
      refine ⟨Exec.bind_ne_error notStuck fun m₁ one => ?_, fun m' h => ?_⟩
      · obtain ⟨tree₁, taken⟩ := next one
        exact (ih tree₁ (by omega)).1
      · obtain ⟨m₁, one, later⟩ := Exec.bind_eq_ok.mp h
        obtain ⟨tree₁, taken⟩ := next one
        obtain ⟨tree', left⟩ := (ih tree₁ (by omega)).2 m' later
        exact ⟨tree', by omega⟩

theorem vmmInit_enough (distinct : m.pool.Nodup) (proper : ∀ r ∈ clean, r.start < r.stop)
    (word : ∀ r ∈ clean, r.stop < word64)
    (enough : 3 * ((directPages m.cpuHas1gPages clean).length + (imagePages m.cpuHas1gPages k).length) <
      m.pool.length) : vmmInit clean k.kernelEnd m ≠ .error noFreeFrames := by
  obtain ⟨pgdRaw, rest, pool⟩ := List.exists_cons_of_ne_nil (List.ne_nil_of_length_pos (Nat.zero_lt_of_lt enough))
  have frames : (zeroed m pgdRaw rest).pool.length + 1 = m.pool.length := by
    rw [pool]
    rfl
  rw [vmmInit_pages k pool proper word, initPages]
  have direct := placePages_enough directProt idVirtRegionStart (l := directPages m.cpuHas1gPages clean)
    (zeroed_isTree distinct pool) (by omega)
  refine Exec.bind_ne_error (Exec.bind_ne_error direct.1 fun m₁ first => ?_) fun m₂ _ => ?_
  · obtain ⟨tree, left⟩ := direct.2 m₁ first
    exact (placePages_enough kernelProt imageBase tree (by omega)).1
  · rintro ⟨⟩

theorem vmmInit_enough_mixed : vmmInit mixedEarly.clean pageKernel.kernelEnd largeMmu ≠ .error noFreeFrames :=
  vmmInit_enough largeMmu_distinct (by decide) (by decide) (by decide +kernel)

/-- `vmm_init` completes on the mappable clean maps and panics in `mmu_map_one` on all others. -/
theorem vmmInit_completes_iff {input : List PhysRegion} {outMax : Nat} (word : ∀ r ∈ input, r.stop < word64)
    (sanitize : pmmSanitizeMemoryMap input outMax = .ok clean) (distinct : m.pool.Nodup) (nonempty : m.pool ≠ [])
    (enough : vmmInit clean k.kernelEnd m ≠ .error noFreeFrames) :
    ((∃ s, vmmInit clean k.kernelEnd m = .ok (0, s)) ↔ Mappable m.cpuHas1gPages clean k) ∧
      (¬ Mappable m.cpuHas1gPages clean k → vmmInit clean k.kernelEnd m = .error existingHuge ∨
        vmmInit clean k.kernelEnd m = .error alreadyMapped) := by
  have sanitized := pmmSanitizeMemoryMap_sanitized sanitize
  have bounded := sanitized.bounded fun r member => Nat.le_sub_one_of_lt (word r member)
  obtain ⟨pgdRaw, rest, pool⟩ := List.exists_cons_of_ne_nil nonempty
  rw [vmmInit_pages k pool sanitized.nonempty fun r member => Nat.lt_of_le_pred (by decide) (bounded r member)]
    at enough ⊢
  rcases initPages_outcome distinct pool (clean_nodup sanitized) (k := k) fun stuck =>
      enough (by rw [stuck, Exec.error_bind]) with ⟨mappable, m₂, done⟩ | ⟨unmappable, e, failed, refusal⟩
  · rw [done, Exec.ok_bind]
    exact ⟨⟨fun _ => mappable, fun _ => ⟨_, rfl⟩⟩, fun unmappable => absurd mappable unmappable⟩
  · rw [failed, Exec.error_bind]
    refine ⟨⟨fun ⟨s, done⟩ => ?_, fun mappable => absurd mappable unmappable⟩, fun _ => ?_⟩
    · cases done
    · exact refusal.imp (congrArg _) (congrArg _)

theorem vmmInit_completes_iff_mixed :
    pmmSanitizeMemoryMap mixedEarly.clean physRegionMaxSize = .ok mixedEarly.clean ∧
      (∃ s, vmmInit mixedEarly.clean pageKernel.kernelEnd largeMmu = .ok (0, s)) ∧
      Mappable largeMmu.cpuHas1gPages mixedEarly.clean pageKernel := by
  have sanitize : pmmSanitizeMemoryMap mixedEarly.clean physRegionMaxSize = .ok mixedEarly.clean := rfl
  refine ⟨sanitize, ⟨_, mixedInit_eq⟩, (vmmInit_completes_iff (by decide) sanitize largeMmu_distinct (by decide)
    ?_).1.mp ⟨_, mixedInit_eq⟩⟩
  rw [mixedInit_eq]
  rintro ⟨⟩

/-- Reserved bytes inside a page leave two usable regions that both round to it. -/
theorem shared_page_panics :
    pmmSanitizeMemoryMap [⟨0x100000, 0x102000, .usable⟩, ⟨0x100800, 0x100900, .reserved⟩] physRegionMaxSize =
      .ok [⟨0x100000, 0x100800, .usable⟩, ⟨0x100800, 0x100900, .reserved⟩, ⟨0x100900, 0x102000, .usable⟩] ∧
    vmmInit [⟨0x100000, 0x100800, .usable⟩, ⟨0x100800, 0x100900, .reserved⟩, ⟨0x100900, 0x102000, .usable⟩]
      pageKernel.kernelEnd sampleMmu = .error alreadyMapped := by
  refine ⟨rfl, ?_⟩
  have failed : (vmmInit [⟨0x100000, 0x100800, .usable⟩, ⟨0x100800, 0x100900, .reserved⟩,
      ⟨0x100900, 0x102000, .usable⟩] pageKernel.kernelEnd sampleMmu).map (fun _ => ()) = .error alreadyMapped := by
    decide +kernel
  exact Exec.error_of_map failed

end Outcome

end SnapOS.Paging
