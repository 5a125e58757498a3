/- The upper half of all address spaces. mm_create copies the top-level table, so an address space sees what
the kernel maps later as long as the mapping needs no new top-level entry. -/
import SnapOS.AddressSpaces
import SnapOS.MapRange

namespace SnapOS.Paging
open SnapOS.Lib SnapOS.Mm

variable {roles roles' : Roles Nat Place} {m m' : Mmu} {s s' : Vmm}

theorem span_three : span 3 = 0x8000000000 := rfl

abbrev treeKinds : TableKinds Place := placeKinds fun _ _ _ => True

def kernelTop : Place := ⟨false, 3, 0⟩
def copyTop : Place := ⟨true, 3, 0⟩

def placeTrunk : Trunk treeKinds where
  top := kernelTop
  branch := placeBranch _ false
  starts := placeAt_top false
  fits _ _ _ _ _ _ := leafEntry_fits rfl trivial

/-! A mapped range has a translation in every top-level slot -/

section Loop

variable {leaf : Place → Nat → Nat → Prop} {pgd : Nat} {opts : Pgprot}

def Keeps (m : Mmu) (pgd : Nat) (m' : Mmu) : Prop :=
  ∀ a, (translate m.tables pgd a).isSome = true → (translate m'.tables pgd a).isSome = true

theorem mod_span_word64 {x k : Nat} {size : PageKind} (aligned : (x % word64 + k) % span (levelOfPage size) = 0) :
    (x + k) % span (levelOfPage size) = 0 := by
  cases size with
  | page4k =>
      simp only [show span (levelOfPage .page4k) = 0x1000 from rfl, word64] at *
      omega
  | page2m =>
      simp only [show span (levelOfPage .page2m) = 0x200000 from rfl, word64] at *
      omega
  | page1g =>
      simp only [show span (levelOfPage .page1g) = 0x40000000 from rfl, word64] at *
      omega

theorem chunkOf_dvd (size : PageKind) : Mmu.chunkOf size ∣ span 2 := by
  cases size <;> decide

theorem pageKind_aligned (m : Mmu) {vaddr : Nat} (aligned : vaddr % pageSize = 0) (paddr len : Nat) :
    Mmu.chunkOf (m.pageKind vaddr paddr len) ∣ vaddr := by
  refine Nat.dvd_of_mod_eq_zero ?_
  rcases pageKind_cases m vaddr paddr len with ⟨kind, use⟩ | ⟨kind, _, use⟩ | ⟨kind, _, _⟩
  · rw [kind]
    exact use.2.1
  · rw [kind]
    exact use.1
  · rw [kind]
    exact aligned

/-- One page adds translations and takes none away. -/
theorem Typed.mapOne_keeps (typed : Typed (placeKinds leaf) roles m) (known : roles pgd = some kernelTop)
    {vaddr paddr : Nat} {size : PageKind}
    (ok : leaf (placeAt false vaddr (levelOfPage size)) (tableIndex (levelOfPage size) vaddr)
      (Mmu.leafEntry paddr size opts))
    (h : m.mmuMapOne pgd vaddr paddr size opts = .ok m') :
    ∃ roles', Grows (placeKinds leaf) (fun _ _ => True) roles m roles' m' ∧
      (translate m'.tables pgd vaddr).isSome = true ∧ Keeps m pgd m' := by
  obtain ⟨roles₁, grows, one⟩ := typed.mapOne (fun _ _ => True) known (fun _ _ => trivial) ok h
  have block : ∀ a, SameBlock (levelOfPage size) vaddr a → (translate m'.tables pgd a).isSome = true := by
    intro a same
    obtain ⟨every, any, found⟩ := (one a).1 same
    rw [found]
    rfl
  refine ⟨roles₁, grows, block vaddr rfl, fun a before => ?_⟩
  by_cases same : SameBlock (levelOfPage size) vaddr a
  · exact block a same
  · rw [(one a).2 same]
    exact before

/-- The start of a range and every 1G boundary in it begin a page of their own. -/
theorem Typed.mapLoop_keeps (typed : Typed (placeKinds leaf) roles m) (known : roles pgd = some kernelTop)
    {vaddr paddr len : Nat} (aligned : vaddr % pageSize = 0) (aligned' : paddr % pageSize = 0)
    (whole : len % pageSize = 0) (bounded : vaddr < word64) (bounded' : paddr < word64)
    (ok : ∀ k size, k < len → (vaddr + k) % span (levelOfPage size) = 0 → (paddr + k) % span (levelOfPage size) = 0 →
      leaf (placeAt false ((vaddr + k) % word64) (levelOfPage size))
        (tableIndex (levelOfPage size) ((vaddr + k) % word64)) (Mmu.leafEntry ((paddr + k) % word64) size opts))
    (h : Mmu.mmuMapLoop opts pgd m vaddr paddr len = .ok m') :
    ∃ roles', Grows (placeKinds leaf) (fun _ _ => True) roles m roles' m' ∧ Keeps m pgd m' ∧
      ∀ k < len, k = 0 ∨ (vaddr + k) % span 2 = 0 →
        (translate m'.tables pgd ((vaddr + k) % word64)).isSome = true := by
  induction len using Nat.strong_induction_on generalizing m roles vaddr paddr with
  | h len ih =>
      rw [Mmu.mmuMapLoop] at h
      split at h
      · next more =>
          obtain ⟨m₁, one, later⟩ := Exec.bind_eq_ok.mp h
          have start := pageKind_aligned m aligned paddr len
          have divides := chunkOf_dvd (m.pageKind vaddr paddr len)
          have step := pageKind_chunk m aligned aligned' whole more
          generalize Mmu.chunkOf (m.pageKind vaddr paddr len) = chunk at start divides step later
          generalize m.pageKind vaddr paddr len = size at step one
          have first := ok 0 size more step.valigned step.paligned
          rw [Nat.add_zero, Nat.add_zero, Nat.mod_eq_of_lt bounded, Nat.mod_eq_of_lt bounded'] at first
          obtain ⟨roles₁, grows, mapped, kept⟩ := typed.mapOne_keeps known first one
          have positive : 0 < span (levelOfPage size) := Nat.two_pow_pos _
          have pages := step.pages
          have fits := step.chunk_le
          have large := step.span_le
          have next : (vaddr + chunk) % word64 % pageSize = 0 ∧ (paddr + chunk) % word64 % pageSize = 0 ∧
              (len - chunk) % pageSize = 0 := by
            simp only [word64, pageSize] at *
            omega
          obtain ⟨roles₂, grows', kept', rest⟩ := ih (len - chunk) (by omega) grows.typed (grows.extended pgd _ known)
            next.1 next.2.1 next.2.2 (Nat.mod_lt _ (by decide)) (Nat.mod_lt _ (by decide)) (by
              intro k size' within valigned paligned
              have again := ok (chunk + k) size' (by omega)
              rw [← Nat.add_assoc, ← Nat.add_assoc] at again
              rw [Nat.mod_add_mod, Nat.mod_add_mod]
              exact again (mod_span_word64 valigned) (mod_span_word64 paligned)) later
          refine ⟨roles₂, grows.trans grows', fun a before => kept' a (kept a before), fun k within boundary => ?_⟩
          by_cases here : k = 0
          · rw [here, Nat.add_zero, Nat.mod_eq_of_lt bounded]
            exact kept' vaddr mapped
          · have boundary := boundary.resolve_left here
            have multiple : chunk ∣ vaddr + k := Nat.dvd_trans divides (Nat.dvd_of_mod_eq_zero boundary)
            have past : chunk ≤ k := Nat.le_of_dvd (Nat.pos_of_ne_zero here) ((Nat.dvd_add_right start).mp multiple)
            obtain ⟨d, rfl⟩ := Nat.exists_eq_add_of_le past
            have mapped := rest d (by omega) (Or.inr (by
              rw [← Nat.add_assoc] at boundary
              rw [span_two, word64] at *
              omega))
            rwa [Nat.mod_add_mod, Nat.add_assoc] at mapped
      · cases h
        exact ⟨roles, Grows.refl typed, fun a before => before, fun k within => by omega⟩

end Loop

/-! The top-level tables -/

def kernelHalf : Nat := 0xFFFF800000000000

/-- The upper half is the same in every address space. -/
def KernelHalfShared (s : Vmm) : Prop :=
  ∀ mm ∈ s.mms, ∀ vaddr, kernelHalf ≤ vaddr → vaddr < word64 →
    s.translate mm.pgd vaddr = s.translate s.kernelPgd vaddr

def ioremapLen (paddr size : Nat) : Nat := pageAlignUp ((size + (paddr - pageAlignDown paddr)) % word64)

/-- Address spaces and mappings of physical addresses. -/
def VmmOp.Device : VmmOp → Prop
  | .mmCreate _ _ => True
  | .vmmAllocRange _ _ _ _ => False
  | .ioremap paddr size => paddr < 2 ^ 46 ∧ size < 2 ^ 46

/-- Once there are address spaces, `ioremap` finds the top-level entries of its range. -/
def VmmOp.SlotsReady (s : Vmm) : VmmOp → Prop
  | .mmCreate _ _ => True
  | .vmmAllocRange _ _ _ _ => True
  | .ioremap paddr size =>
      s.mms = [] ∨ ∀ k < ioremapLen paddr size,
        lowerSlots ≤ tableIndex 3 ((physToVirt (pageAlignDown paddr) + k) % word64) →
          present (s.mmu.tables s.kernelPgd (tableIndex 3 ((physToVirt (pageAlignDown paddr) + k) % word64))) = true

instance (op : VmmOp) : Decidable op.Device :=
  match op with
  | .mmCreate _ _ => isTrue trivial
  | .vmmAllocRange _ _ _ _ => isFalse id
  | .ioremap _ _ => inferInstanceAs (Decidable (_ ∧ _))

/-- The copies of the top-level table have the upper half of the original. -/
structure HalfInv (roles : Roles Nat Place) (s : Vmm) : Prop where
  typed : Typed treeKinds roles s.mmu
  kernel : roles s.kernelPgd = some kernelTop
  users : ∀ mm ∈ s.mms, roles mm.pgd = some copyTop
  agree : ∀ mm ∈ s.mms, ∀ i, lowerSlots ≤ i → s.mmu.tables mm.pgd i = s.mmu.tables s.kernelPgd i

theorem tableIndex_upper {vaddr : Nat} (upper : kernelHalf ≤ vaddr) (bounded : vaddr < word64) :
    lowerSlots ≤ tableIndex 3 vaddr := by
  simp only [tableIndex, kernelHalf, lowerSlots, word64] at *
  omega

theorem HalfInv.shared (inv : HalfInv roles s) : KernelHalfShared s := by
  intro mm member vaddr upper bounded
  simp only [Vmm.translate, translate, translateFrom]
  rw [inv.agree mm member _ (tableIndex_upper upper bounded)]

/-- `mm_create` gives a copy of the top-level table to one new address space at most. -/
theorem Typed.mmCreate {leaf : Place → Nat → Nat → Prop} (copies : ∀ i e, leaf kernelTop i e → leaf copyTop i e)
    (typed : Typed (placeKinds leaf) roles s.mmu) (kernel : roles s.kernelPgd = some kernelTop) (kzallocOk : Bool)
    (taken : Nat) :
    ∃ roles', Typed (placeKinds leaf) roles' (s.mmCreate kzallocOk taken).2.mmu ∧ roles.Extends roles' ∧
      (s.mmCreate kzallocOk taken).2.kernelPgd = s.kernelPgd ∧
      (∀ a p, roles a = some p → (s.mmCreate kzallocOk taken).2.mmu.tables a = s.mmu.tables a) ∧
      ∀ mm ∈ (s.mmCreate kzallocOk taken).2.mms, mm ∈ s.mms ∨ roles' mm.pgd = some copyTop ∧
        (s.mmCreate kzallocOk taken).2.mmu.tables mm.pgd = s.mmu.tables s.kernelPgd := by
  have dropped := typed.drop taken
  rcases s.mmCreate_cases kzallocOk taken with failed | ⟨f, rest, pool, _, created⟩
  · rw [failed]
    exact ⟨roles, dropped, fun _ _ h => h, rfl, fun _ _ _ => rfl, fun mm member => Or.inl member⟩
  · rw [created]
    obtain ⟨tail, free, unpooled⟩ := dropped.next pool
    have grown := Roles.extends_update free copyTop
    refine ⟨_, (tail.fillFrame free (s.mmu.tables s.kernelPgd)).assign free unpooled ?_, grown, rfl, ?_, ?_⟩
    · intro i here
      simp only [Mmu.fillFrame, Function.update_self] at here ⊢
      rcases typed.cells s.kernelPgd kernelTop i kernel here with ⟨c, child, table⟩ | ⟨isLeaf, known⟩
      · exact Or.inl ⟨c, child, { table with target := grown _ _ table.target }⟩
      · exact Or.inr ⟨isLeaf, copies i _ known⟩
    · intro a p used
      refine Function.update_of_ne ?_ _ s.mmu.tables
      rintro rfl
      cases free.symm.trans used
    · intro mm member
      rcases List.mem_cons.mp member with rfl | old
      · exact Or.inr ⟨Function.update_self .., Function.update_self ..⟩
      · exact Or.inl old

theorem HalfInv.mmCreate (inv : HalfInv roles s) (kzallocOk : Bool) (taken : Nat) :
    ∃ roles', HalfInv roles' (s.mmCreate kzallocOk taken).2 := by
  obtain ⟨roles', typed, grown, kernel, kept, created⟩ := inv.typed.mmCreate (fun _ _ h => h) inv.kernel kzallocOk taken
  refine ⟨roles', typed, kernel ▸ grown _ _ inv.kernel, fun mm member => ?_, fun mm member i upper => ?_⟩
  · exact (created mm member).elim (fun old => grown _ _ (inv.users mm old)) And.left
  · rw [kernel, kept _ _ inv.kernel]
    rcases created mm member with old | ⟨_, copy⟩
    · rw [kept _ _ (inv.users mm old)]
      exact inv.agree mm old i upper
    · rw [copy]

/-- An `ioremap` writes the lower tables of the kernel, and upper slots only if there is no address space. -/
def deviceCells (s : Vmm) (p : Place) (i : Nat) : Prop :=
  p.level < 3 ∨ p.copy = false ∧ (i < lowerSlots ∨ s.mms = [])

theorem HalfInv.ioremap (inv : HalfInv roles s) {paddr size : Nat} (ready : (VmmOp.ioremap paddr size).SlotsReady s)
    (h : s.mmu.mmuMapRange s.kernelPgd (physToVirt (pageAlignDown paddr)) (pageAlignDown paddr)
      (ioremapLen paddr size) ioremapProt = .ok m') : ∃ roles', HalfInv roles' { s with mmu := m' } := by
  have top : ∀ k < ioremapLen paddr size, placeTrunk.Top (deviceCells s) s.mmu s.kernelPgd
      ((physToVirt (pageAlignDown paddr) + k) % word64) := by
    intro k within
    rcases ready with none | ready
    · exact Or.inr (Or.inr ⟨rfl, Or.inr none⟩)
    · rcases Nat.lt_or_ge (tableIndex 3 ((physToVirt (pageAlignDown paddr) + k) % word64)) lowerSlots with low | upper
      · exact Or.inr (Or.inr ⟨rfl, Or.inl low⟩)
      · exact Or.inl (ready k within upper)
  obtain ⟨roles', grows⟩ := placeTrunk.mapRange (deviceCells s) inv.typed inv.kernel (physToVirt_lt _) top
    (fun a n inner => Or.inl inner) h
  refine ⟨roles', grows.typed, grows.extended _ _ inv.kernel, fun mm member => grows.extended _ _ (inv.users mm member),
    fun mm member i upper => ?_⟩
  have copy : m'.tables mm.pgd i = s.mmu.tables mm.pgd i := by
    refine grows.changed _ _ _ (inv.users mm member) ?_
    rintro (inner | ⟨original, _⟩)
    · exact absurd inner (Nat.lt_irrefl 3)
    · cases original
  have original : m'.tables s.kernelPgd i = s.mmu.tables s.kernelPgd i := by
    refine grows.changed _ _ _ inv.kernel ?_
    rintro (inner | ⟨_, low | none⟩)
    · exact absurd inner (Nat.lt_irrefl 3)
    · exact absurd low (Nat.not_lt.mpr upper)
    · rw [none] at member
      cases member
  exact copy.trans ((inv.agree mm member i upper).trans original.symm)

theorem HalfInv.step (inv : HalfInv roles s) {op : VmmOp} (device : op.Device) (ready : op.SlotsReady s)
    (h : vmmStep s op = some s') : ∃ roles', HalfInv roles' s' := by
  cases op with
  | mmCreate kzallocOk taken =>
      cases h
      exact inv.mmCreate kzallocOk taken
  | vmmAllocRange _ _ _ _ => cases device
  | ioremap paddr size =>
      obtain ⟨result, called⟩ := vmmStep_ioremap h
      obtain ⟨m', mapped, _, rfl⟩ := ioremap_ok called
      exact inv.ioremap ready mapped

/-- A device range starts in the upper half, and the part past its end is in the lower one. -/
theorem ioremap_bounds {paddr size : Nat} (device : (VmmOp.ioremap paddr size).Device) :
    ∃ p < 2 ^ 46, physToVirt (pageAlignDown paddr) = p + idVirtRegionStart ∧
      ioremapLen paddr size ≤ 2 ^ 46 + pageSize := by
  obtain ⟨low, short⟩ := device
  have below := pageAlignDown_le paddr
  have offset : paddr < pageAlignDown paddr + pageSize := Nat.lt_div_mul_add (by decide)
  refine ⟨pageAlignDown paddr, by omega, ?_, ?_⟩
  · rw [physToVirt, Nat.mod_eq_of_lt (by simp only [word64, idVirtRegionStart] at *; omega)]
  · refine pageAlignUp_le ?_ (by decide) (by decide)
    exact Nat.le_trans (Nat.mod_le _ _) (by omega)

theorem slot_start {vaddr p k : Nat} (start : vaddr = p + idVirtRegionStart) (low : p < 2 ^ 46)
    (within : k < 2 ^ 46 + pageSize) (upper : lowerSlots ≤ tableIndex 3 ((vaddr + k) % word64)) :
    ∃ k' ≤ k, (k' = 0 ∨ (vaddr + k') % span 2 = 0) ∧
      tableIndex 3 ((vaddr + k') % word64) = tableIndex 3 ((vaddr + k) % word64) ∧
      kernelHalf ≤ (vaddr + k') % word64 := by
  have below : vaddr + k < word64 := by
    simp only [tableIndex, idVirtRegionStart, lowerSlots, word64, pageSize] at *
    omega
  by_cases first : vaddr ≤ (vaddr + k) / span 3 * span 3
  · refine ⟨(vaddr + k) / span 3 * span 3 - vaddr, ?_, Or.inr ?_, ?_, ?_⟩
    all_goals
      simp only [tableIndex, idVirtRegionStart, kernelHalf, word64, span_two, span_three] at *
      omega
  · refine ⟨0, Nat.zero_le k, Or.inl rfl, ?_, ?_⟩
    all_goals
      simp only [tableIndex, idVirtRegionStart, kernelHalf, word64, span_three] at *
      omega

theorem HalfInv.ioremap_leaves (inv : HalfInv roles s) {paddr size : Nat}
    (device : (VmmOp.ioremap paddr size).Device) (missing : ¬ (VmmOp.ioremap paddr size).SlotsReady s)
    (h : s.mmu.mmuMapRange s.kernelPgd (physToVirt (pageAlignDown paddr)) (pageAlignDown paddr)
      (ioremapLen paddr size) ioremapProt = .ok m') : ¬ KernelHalfShared { s with mmu := m' } := by
  intro shared
  simp only [VmmOp.SlotsReady, not_or, not_forall] at missing
  obtain ⟨some, k, within, upper, absent⟩ := missing
  obtain ⟨mm, member⟩ := List.exists_mem_of_ne_nil s.mms some
  obtain ⟨p, low, start, short⟩ := ioremap_bounds device
  obtain ⟨k', earlier, boundary, slot, half⟩ := slot_start start low (Nat.lt_of_lt_of_le within short) upper
  obtain ⟨⟨aligned, aligned', whole⟩, loop⟩ := mmuMapRange_ok h
  have small : pageAlignDown paddr < word64 :=
    Nat.lt_of_le_of_lt (pageAlignDown_le paddr) (Nat.lt_trans device.1 (by decide))
  obtain ⟨_, _, _, reaches⟩ := inv.typed.mapLoop_keeps inv.kernel aligned aligned' whole (physToVirt_lt _) small
    (fun _ _ _ _ _ => trivial) loop
  have mapped := reaches k' (Nat.lt_of_le_of_lt earlier within) boundary
  obtain ⟨_, grows⟩ := placeTrunk.mapRange (fun p _ => p.copy = false) inv.typed inv.kernel (physToVirt_lt _)
    (fun _ _ => Or.inr rfl) (fun a n inner => by
      have below : (n == 3) = false := by simp [Nat.ne_of_lt inner]
      simp [placeTrunk, placeBranch, placeAt, below]) h
  have copy : m'.tables mm.pgd (tableIndex 3 ((physToVirt (pageAlignDown paddr) + k') % word64)) =
      s.mmu.tables s.kernelPgd (tableIndex 3 ((physToVirt (pageAlignDown paddr) + k') % word64)) :=
    (grows.changed _ _ _ (inv.users mm member) (by decide)).trans (inv.agree mm member _ (slot ▸ upper))
  have empty : translate m'.tables mm.pgd ((physToVirt (pageAlignDown paddr) + k') % word64) = none :=
    translateFrom_empty (by
      rw [copy, slot]
      exact Bool.eq_false_iff.mpr absent)
  have same : translate m'.tables mm.pgd _ = translate m'.tables s.kernelPgd _ :=
    shared mm member _ half (Nat.mod_lt _ (by decide))
  rw [← same, empty] at mapped
  cases mapped

theorem halfInv_vmmInit {clean : List PhysRegion} {kernelEnd : Nat} (distinct : m.pool.Nodup)
    (init : vmmInit clean kernelEnd m = .ok (0, s)) : ∃ roles, HalfInv roles s := by
  obtain ⟨roles, typed, kernel, none, _⟩ := placeTrunk.typed_vmmInit distinct (placeTrunk.initWithin_true _ _) init
  refine ⟨roles, typed, kernel, fun mm member => ?_, fun mm member => ?_⟩
  · rw [none] at member
    cases member
  · rw [none] at member
    cases member

/-- All address spaces agree on the upper half in every state of a run exactly if no mapping of the run needs a
new top-level entry while there are address spaces. -/
theorem kernelHalf_shared_iff {clean : List PhysRegion} {kernelEnd : Nat} {start last : Vmm}
    (distinct : m.pool.Nodup) (init : vmmInit clean kernelEnd m = .ok (0, start)) {ops : List VmmOp}
    (devices : ∀ op ∈ ops, op.Device) (reached : run vmmStep start ops = some last) :
    Throughout vmmStep KernelHalfShared start ops ↔ Meets vmmStep (fun s op => op.SlotsReady s) start ops := by
  have legal : Meets vmmStep (fun _ op => op.Device) start ops := meets_of_forall devices
  refine throughout_iff_guarded_run (I := fun s => ∃ roles, HalfInv roles s) ?_ ?_ ?_ (halfInv_vmmInit distinct init)
    legal reached
  · rintro s ⟨_, inv⟩
    exact inv.shared
  · rintro s op t ⟨_, inv⟩ device h ready
    exact inv.step device ready h
  · rintro s op t ⟨_, inv⟩ device h missing
    cases op with
    | mmCreate _ _ => exact absurd trivial missing
    | vmmAllocRange _ _ _ _ => cases device
    | ioremap paddr size =>
        obtain ⟨result, called⟩ := vmmStep_ioremap h
        obtain ⟨m', mapped, _, rfl⟩ := ioremap_ok called
        exact inv.ioremap_leaves device missing mapped

theorem slotsReady_page {paddr size : Nat} (one : ioremapLen paddr size = pageSize)
    (here : present (s.mmu.tables s.kernelPgd (tableIndex 3 (physToVirt (pageAlignDown paddr)))) = true) :
    (VmmOp.ioremap paddr size).SlotsReady s := by
  refine Or.inr fun k within _ => ?_
  have bounded := physToVirt_lt (pageAlignDown paddr)
  have aligned : physToVirt (pageAlignDown paddr) % pageSize = 0 := by
    rw [physToVirt, Nat.mod_mod_of_dvd _ (by decide), Nat.add_mod, pageAlignDown_mod]
    decide
  have slot : tableIndex 3 ((physToVirt (pageAlignDown paddr) + k) % word64) =
      tableIndex 3 (physToVirt (pageAlignDown paddr)) := by
    simp only [tableIndex, word64, pageSize] at *
    omega
  rw [slot]
  exact here

/-- A device below 4G, which shares its top-level entry with the memory of the machine. -/
def nearOps : List VmmOp := [.mmCreate true 0, .ioremap 0xFEE00000 0x1000, .mmCreate true 0]

theorem kernelHalf_shared_iff_nearDevice :
    run vmmStep sampleStart nearOps = some (sampleRun nearOps) ∧
      Throughout vmmStep KernelHalfShared sampleStart nearOps := by
  have reached := sampleRun_eq nearOps (by decide +kernel)
  refine ⟨reached, (kernelHalf_shared_iff sampleMmu_distinct sampleInit_eq (by decide) reached).mpr ?_⟩
  refine ⟨trivial, fun t created => ⟨?_, fun u _ => ⟨trivial, fun _ _ => trivial⟩⟩⟩
  cases created
  exact slotsReady_page (by decide +kernel) (by decide +kernel)

/-- A device above 512G. -/
def farOps : List VmmOp := [.mmCreate true 0, .ioremap 0x8000000000 0x1000]

/-- The address space that was there before does not get the new top-level entry. -/
theorem farDevice_unshared :
    (∀ op ∈ farOps, op.Device) ∧ run vmmStep sampleStart farOps = some (sampleRun farOps) ∧
      ¬ KernelHalfShared (sampleRun farOps) := by
  have reached := sampleRun_eq farOps (by decide +kernel)
  refine ⟨by decide, reached, ?_⟩
  obtain ⟨t, created, second⟩ := run_cons reached
  cases created
  obtain ⟨u, mapped, done⟩ := run_cons second
  cases done
  obtain ⟨_, initial⟩ := halfInv_vmmInit sampleMmu_distinct sampleInit_eq
  obtain ⟨_, inv⟩ := initial.mmCreate true 0
  obtain ⟨_, called⟩ := vmmStep_ioremap mapped
  obtain ⟨m', range, _, state⟩ := ioremap_ok called
  rw [state]
  refine inv.ioremap_leaves (by decide) ?_ range
  rintro (none | ready)
  · revert none
    decide +kernel
  · have here := ready 0 (by decide +kernel) (by decide +kernel)
    revert here
    decide +kernel

end SnapOS.Paging
