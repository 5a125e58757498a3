/- What mmu_map_range maps. The place of a table is its level and the block of addresses below it, so a walk
that allocates tables changes no translation, and an entry decides the translation of its block. -/
import SnapOS.TableRoles

namespace SnapOS.Paging
open SnapOS.Lib

def addressBits : Nat := 0x1000000000000

/-- `copy` marks the top-level tables that were copied from another one. -/
structure Place where
  copy : Bool
  level : Nat
  key : Nat
  deriving DecidableEq, Repr

namespace Place

def child (p : Place) (index : Nat) : Option Place :=
  if index < 512 ∧ 0 < p.level then some ⟨false, p.level - 1, p.key * 512 + index⟩ else none

def mayBeLarge (p : Place) : Bool := p.level = 1 ∨ p.level = 2

end Place

def placeKinds (leaf : Place → Nat → Nat → Prop) : TableKinds Place :=
  ⟨Place.child, Place.mayBeLarge, fun _ => leaf, fun _ h => h⟩

/-- The place of the table that a walk for `vaddr` reads at a level. -/
def placeAt (copy : Bool) (vaddr level : Nat) : Place :=
  ⟨copy && level == 3, level, vaddr % addressBits / span (level + 1)⟩

theorem tableIndex_lt (level vaddr : Nat) : tableIndex level vaddr < 512 := Nat.mod_lt _ (by decide)

theorem block_split {level : Nat} (bound : level ≤ 3) (vaddr : Nat) :
    vaddr % addressBits / span level = vaddr % addressBits / span (level + 1) * 512 + tableIndex level vaddr := by
  match level, bound with
  | 0, _ => simp only [addressBits, span, tableIndex]; omega
  | 1, _ => simp only [addressBits, span, tableIndex]; omega
  | 2, _ => simp only [addressBits, span, tableIndex]; omega
  | 3, _ => simp only [addressBits, span, tableIndex]; omega

theorem placeAt_child (copy : Bool) (vaddr level : Nat) (inner : level < 3) :
    (placeAt copy vaddr (level + 1)).child (tableIndex (level + 1) vaddr) = some (placeAt copy vaddr level) := by
  have below : (level == 3) = false := by simp [Nat.ne_of_lt inner]
  rw [Place.child, if_pos ⟨tableIndex_lt _ _, Nat.succ_pos level⟩]
  simp only [placeAt, below, Bool.and_false, Nat.add_sub_cancel, block_split inner]

def placeBranch (leaf : Place → Nat → Nat → Prop) (copy : Bool) (vaddr : Nat) : Branch (placeKinds leaf) vaddr where
  role := placeAt copy vaddr
  top := rfl
  down := placeAt_child copy vaddr
  last _ := if_neg fun inside => absurd inside.2 (Nat.lt_irrefl 0)

theorem placeAt_top (copy : Bool) (vaddr : Nat) : placeAt copy vaddr 3 = ⟨copy, 3, 0⟩ := by
  have whole : vaddr % addressBits / span 4 = 0 := Nat.div_eq_of_lt (Nat.mod_lt _ (by decide))
  simp [placeAt, whole]

/-- Two walks read the same place only at the same level and in the same block. -/
theorem placeAt_inj {copy copy' : Bool} {vaddr vaddr' level level' : Nat} (bound : level ≤ 3)
    (same : placeAt copy vaddr level = placeAt copy' vaddr' level')
    (index : tableIndex level vaddr = tableIndex level' vaddr') :
    level = level' ∧ vaddr % addressBits / span level = vaddr' % addressBits / span level := by
  simp only [placeAt, Place.mk.injEq] at same
  obtain ⟨_, rfl, key⟩ := same
  rw [block_split bound, block_split bound, key, index]
  exact ⟨rfl, rfl⟩

def OnCell (copy : Bool) (vaddr level : Nat) (p : Place) (index : Nat) : Prop :=
  p = placeAt copy vaddr level ∧ index = tableIndex level vaddr

/-- The walk of the processor reaches a table without a look at its entries. -/
inductive Reaches (tables : Nat → Nat → Nat) (pgd vaddr : Nat) : Nat → Nat → Prop where
  | top : Reaches tables pgd vaddr 3 pgd
  | down {n t : Nat} (above : Reaches tables pgd vaddr (n + 1) t)
      (here : present (tables t (tableIndex (n + 1) vaddr)) = true)
      (inner : (n + 1 < 3 && large (tables t (tableIndex (n + 1) vaddr))) = false) :
      Reaches tables pgd vaddr n (entryPaddr (tables t (tableIndex (n + 1) vaddr)))

section Reaches

variable {tables : Nat → Nat → Nat} {pgd vaddr vaddr' n t : Nat}

theorem Reaches.le (reaches : Reaches tables pgd vaddr n t) : n ≤ 3 := by
  induction reaches with
  | top => exact Nat.le_refl 3
  | down _ _ _ ih => omega

theorem Reaches.translate (reaches : Reaches tables pgd vaddr n t) :
    ∃ every any, translate tables pgd vaddr = translateFrom tables vaddr n t every any := by
  induction reaches with
  | top => exact ⟨_, _, rfl⟩
  | @down n t above here inner ih =>
      obtain ⟨every, any, same⟩ := ih
      refine ⟨every &&& tables t (tableIndex (n + 1) vaddr), any ||| tables t (tableIndex (n + 1) vaddr), ?_⟩
      rw [same]
      simp only [translateFrom]
      rw [if_pos here, if_neg (Bool.eq_false_iff.mp inner)]

theorem Reaches.sameBlock (reaches : Reaches tables pgd vaddr n t)
    (same : ∀ k, n < k → k ≤ 3 → tableIndex k vaddr = tableIndex k vaddr') : Reaches tables pgd vaddr' n t := by
  induction reaches with
  | top => exact .top
  | @down n t above here inner ih =>
      have index := same (n + 1) (Nat.lt_succ_self n) above.le
      rw [index] at here inner ⊢
      exact .down (ih fun k above bound => same k (by omega) bound) here inner

end Reaches

variable {leaf : Place → Nat → Nat → Prop} {touched : Place → Nat → Prop} {roles roles' : Roles Nat Place}
  {m m' : Mmu}

section Walk

variable {pgd vaddr : Nat} {copy : Bool}

theorem Typed.reaches (typed : Typed (placeKinds leaf) roles m) (known : roles pgd = some ⟨copy, 3, 0⟩) {n t : Nat}
    (reaches : Reaches m.tables pgd vaddr n t) : roles t = some (placeAt copy vaddr n) := by
  induction reaches with
  | top =>
      rw [placeAt_top]
      exact known
  | @down n t above here inner ih =>
      exact (typed.follow ih (placeAt_child copy vaddr n above.le) here
        ((placeBranch leaf copy vaddr).plain above.le fun inside => by simpa [inside] using inner)).target

theorem Reaches.changed (typed : Typed (placeKinds leaf) roles m) (known : roles pgd = some ⟨copy, 3, 0⟩) {n t : Nat}
    (reaches : Reaches m.tables pgd vaddr n t)
    (changed : ChangedWithin (fun p _ => p.level = n) roles m.tables m'.tables) : Reaches m'.tables pgd vaddr n t := by
  suffices all : ∀ {k u : Nat}, n ≤ k → Reaches m.tables pgd vaddr k u → Reaches m'.tables pgd vaddr k u from
    all (Nat.le_refl n) reaches
  intro k u later above
  induction above with
  | top => exact .top
  | @down k u above here inner ih =>
      have role := typed.reaches known above
      have same : m'.tables u (tableIndex (k + 1) vaddr) = m.tables u (tableIndex (k + 1) vaddr) :=
        changed u _ _ role fun level => by
          have : k + 1 = n := level
          omega
      have reached := ih (by omega)
      rw [← same] at here inner ⊢
      exact .down reached here inner

/-- A walk gives every table on the way its place and leaves all translations as they are. -/
theorem Typed.walks_reaches (typed : Typed (placeKinds leaf) roles m) (known : roles pgd = some ⟨copy, 3, 0⟩)
    (inside : ∀ n ≤ 3, touched (placeAt copy vaddr n) (tableIndex n vaddr)) {n t : Nat}
    (walks : Walks vaddr m pgd n t m') :
    ∃ roles', Grows (placeKinds leaf) touched roles m roles' m' ∧ Reaches m'.tables pgd vaddr n t ∧
      ∀ {pgd' : Nat} {copy' : Bool}, roles pgd' = some ⟨copy', 3, 0⟩ → ∀ vaddr',
        translate m'.tables pgd' vaddr' = translate m.tables pgd' vaddr' := by
  induction walks with
  | top => exact ⟨roles, Grows.refl typed, .top, fun _ _ => rfl⟩
  | @down n t e m₁ m₂ above plain entry ih =>
      obtain ⟨roles₁, grows, reached, kept⟩ := ih
      have known₁ := grows.extended pgd _ known
      have role := grows.typed.reaches known₁ reached
      have child := placeAt_child copy vaddr n above.le
      obtain ⟨rfl, ⟨here, rfl⟩ | ⟨missing, allocated⟩⟩ := mmuEntry_ok entry
      · refine ⟨roles₁, grows, .down reached here ?_, kept⟩
        by_cases inner : n + 1 < 3
        · have small := plain inner
          rw [Mmu.hitsHuge, here, Bool.true_and] at small
          rw [small, Bool.and_false]
        · simp [inner]
      · have cell : OnCell copy vaddr (n + 1) _ _ := ⟨rfl, rfl⟩
        obtain ⟨roles₂, step, _⟩ := grows.typed.mmuAllocTable role child cell allocated
        obtain ⟨f, new, _, _⟩ := grows.typed.allocTable_tables role allocated
        have wider : Grows (placeKinds leaf) touched roles₁ m₁ roles₂ m₂ := step.mono (by
          rintro p i ⟨rfl, rfl⟩
          exact inside (n + 1) above.le)
        have still : Reaches m₂.tables pgd vaddr (n + 1) t := reached.changed grows.typed known₁
          (step.mono (fun p i within => congrArg Place.level within.1)).changed
        refine ⟨roles₂, grows.trans wider, .down still ?_ ?_, fun {pgd' copy'} root vaddr' => ?_⟩
        · rw [new]
          exact f.tableEntry_present
        · rw [new, f.tableEntry_large, Bool.and_false]
        · have root₁ : roles₁ pgd' = some (placeAt copy' vaddr' 3) := by
            rw [placeAt_top]
            exact grows.extended pgd' _ root
          exact (grows.typed.translate_alloc (b := placeBranch leaf copy' vaddr') root₁ role child missing
            allocated).trans (kept root vaddr')

end Walk

/-- The addresses below one entry. -/
def SameBlock (level vaddr vaddr' : Nat) : Prop :=
  vaddr % addressBits / span level = vaddr' % addressBits / span level

theorem SameBlock.index {level vaddr vaddr' : Nat} (same : SameBlock level vaddr vaddr') {k : Nat}
    (above : level ≤ k) (bound : k ≤ 3) : tableIndex k vaddr = tableIndex k vaddr' := by
  have up : ∀ d, level + d ≤ 3 → SameBlock (level + d) vaddr vaddr' := by
    intro d bound
    induction d with
    | zero => exact same
    | succ d ih =>
        have lower := ih (by omega)
        simp only [SameBlock] at lower ⊢
        rw [block_split (by omega) vaddr, block_split (by omega) vaddr'] at lower
        have first := tableIndex_lt (level + d) vaddr
        have second := tableIndex_lt (level + d) vaddr'
        rw [← Nat.add_assoc]
        omega
  obtain ⟨d, rfl⟩ := Nat.exists_eq_add_of_le above
  have here := up d bound
  simp only [SameBlock] at here
  rw [block_split bound vaddr, block_split bound vaddr'] at here
  have first := tableIndex_lt (level + d) vaddr
  have second := tableIndex_lt (level + d) vaddr'
  omega

section MapOne

variable {pgd vaddr paddr : Nat} {size : PageKind} {opts : Pgprot}

theorem leafEntry_fits {p : Place} (level : p.level = levelOfPage size) {index : Nat}
    (ok : leaf p index (Mmu.leafEntry paddr size opts)) :
    (placeKinds leaf).Fits roles p index (Mmu.leafEntry paddr size opts) := by
  refine fun _ => Or.inr ⟨?_, ok⟩
  cases size with
  | page4k => exact Or.inr (if_neg fun inside => by rw [level] at inside; exact absurd inside.2 (Nat.lt_irrefl 0))
  | page2m => exact Or.inl ⟨decide_eq_true (Or.inl level), Mmu.leafEntry_large paddr opts (by decide)⟩
  | page1g => exact Or.inl ⟨decide_eq_true (Or.inr level), Mmu.leafEntry_large paddr opts (by decide)⟩

theorem translateFrom_leafEntry {tables : Nat → Nat → Nat} {table every any : Nat}
    (entry : tables table (tableIndex (levelOfPage size) vaddr) = Mmu.leafEntry paddr size opts) :
    translateFrom tables vaddr (levelOfPage size) table every any =
      some ⟨Mmu.leafEntry paddr size opts, levelOfPage size, every &&& Mmu.leafEntry paddr size opts,
        any ||| Mmu.leafEntry paddr size opts⟩ := by
  have here := Mmu.leafEntry_present paddr size opts
  cases size with
  | page4k =>
      simp only [levelOfPage, Mmu.levelOf, levelNumber, translateFrom] at entry ⊢
      rw [entry, if_pos here]
  | page2m =>
      have big : large (Mmu.leafEntry paddr .page2m opts) = true := Mmu.leafEntry_large paddr opts (by decide)
      simp only [levelOfPage, Mmu.levelOf, levelNumber, translateFrom] at entry ⊢
      rw [entry, if_pos here, big, if_pos (by decide)]
  | page1g =>
      have big : large (Mmu.leafEntry paddr .page1g opts) = true := Mmu.leafEntry_large paddr opts (by decide)
      simp only [levelOfPage, Mmu.levelOf, levelNumber, translateFrom] at entry ⊢
      rw [entry, if_pos here, big, if_pos (by decide)]

/-- One entry decides the translations of its block and no others. -/
theorem Typed.mapOne (typed : Typed (placeKinds leaf) roles m) (touched : Place → Nat → Prop)
    (known : roles pgd = some ⟨false, 3, 0⟩)
    (inside : ∀ n ≤ 3, touched (placeAt false vaddr n) (tableIndex n vaddr))
    (ok : leaf (placeAt false vaddr (levelOfPage size)) (tableIndex (levelOfPage size) vaddr)
      (Mmu.leafEntry paddr size opts))
    (h : m.mmuMapOne pgd vaddr paddr size opts = .ok m') :
    ∃ roles', Grows (placeKinds leaf) touched roles m roles' m' ∧ ∀ vaddr',
      (SameBlock (levelOfPage size) vaddr vaddr' → ∃ every any, translate m'.tables pgd vaddr' =
        some ⟨Mmu.leafEntry paddr size opts, levelOfPage size, every, any⟩) ∧
      (¬ SameBlock (levelOfPage size) vaddr vaddr' →
        translate m'.tables pgd vaddr' = translate m.tables pgd vaddr') := by
  obtain ⟨table, m₁, walks, rfl⟩ := mmuMapOne_ok h
  obtain ⟨roles₁, grows, reached, kept⟩ := typed.walks_reaches known inside walks
  have known₁ := grows.extended pgd _ known
  have bound : levelOfPage size ≤ 3 := walks.le
  have role := grows.typed.reaches known₁ reached
  have fits : (placeKinds leaf).Fits roles₁ _ _ _ := leafEntry_fits rfl ok
  have cell : OnCell false vaddr (levelOfPage size) _ _ := ⟨rfl, rfl⟩
  have written := Grows.setEntry grows.typed role fits cell
  have wider : Grows (placeKinds leaf) touched roles₁ m₁ roles₁ _ := written.mono (by
    rintro p i ⟨rfl, rfl⟩
    exact inside _ bound)
  refine ⟨roles₁, grows.trans wider, fun vaddr' => ⟨fun same => ?_, fun apart => ?_⟩⟩
  · have still := reached.changed grows.typed known₁
      (written.mono (fun p i within => congrArg Place.level within.1)).changed
    obtain ⟨every, any, walk⟩ :=
      (still.sameBlock fun k above bound => same.index (Nat.le_of_lt above) bound).translate
    refine ⟨every &&& Mmu.leafEntry paddr size opts, any ||| Mmu.leafEntry paddr size opts, walk.trans ?_⟩
    exact translateFrom_leafEntry (by
      rw [← same.index (Nat.le_refl _) bound]
      simp only [Mmu.setEntry, Function.update_self])
  · refine Eq.trans ?_ (kept known vaddr')
    have root : roles₁ pgd = some (placeAt false vaddr' 3) := by
      rw [placeAt_top]
      exact known₁
    refine grows.typed.translate_congr (b := placeBranch leaf false vaddr') root ?_
    intro n t bound' known'
    refine written.changed t _ _ known' ?_
    rintro ⟨same, index⟩
    obtain ⟨rfl, block⟩ := placeAt_inj bound' same index
    exact apart block.symm

end MapOne

/-! Ranges -/

def Canonical (vaddr : Nat) : Prop := vaddr < 0x800000000000 ∨ 0xFFFF800000000000 ≤ vaddr ∧ vaddr < word64

/-- A range inside one canonical half. -/
def InHalf (vaddr len : Nat) : Prop :=
  vaddr + len ≤ 0x800000000000 ∨ 0xFFFF800000000000 ≤ vaddr ∧ vaddr + len ≤ word64

theorem span_zero : span 0 = 0x1000 := rfl
theorem span_one : span 1 = 0x200000 := rfl
theorem span_two : span 2 = 0x40000000 := rfl

theorem sameBlock_iff {level vaddr vaddr' : Nat} (bound : level ≤ 2) (aligned : vaddr % span level = 0)
    (half : InHalf vaddr (span level)) (canonical : Canonical vaddr') :
    SameBlock level vaddr vaddr' ↔ vaddr ≤ vaddr' ∧ vaddr' < vaddr + span level := by
  obtain rfl | rfl | rfl : level = 0 ∨ level = 1 ∨ level = 2 := by omega
  · simp only [SameBlock, addressBits, span_zero, InHalf, Canonical, word64] at *
    omega
  · simp only [SameBlock, addressBits, span_one, InHalf, Canonical, word64] at *
    omega
  · simp only [SameBlock, addressBits, span_two, InHalf, Canonical, word64] at *
    omega

def Mapped (m : Mmu) (pgd vaddr paddr flags : Nat) : Prop :=
  ∃ leaf, translate m.tables pgd vaddr = some leaf ∧ leaf.paddr vaddr = paddr ∧ leaf.flags = flags

def BlockInside (size vaddr len a : Nat) : Prop := vaddr ≤ a / size * size ∧ a / size * size + size ≤ vaddr + len

/-- `PAGE_SIZE_2M` is four times the size of the page that is mapped for it. Only the first quarter of the
block becomes a part of the mapping, unless a page of 1G maps it. -/
def Skipped (oneG : Bool) (vaddr paddr len a : Nat) : Prop :=
  vaddr % pageSize2m = paddr % pageSize2m ∧ BlockInside pageSize2m vaddr len a ∧ span 1 ≤ a % pageSize2m ∧
    ¬ (oneG = true ∧ vaddr % pageSize1g = paddr % pageSize1g ∧ BlockInside pageSize1g vaddr len a)

def Covered (oneG : Bool) (vaddr paddr len a : Nat) : Prop :=
  vaddr ≤ a ∧ a < vaddr + len ∧ ¬ Skipped oneG vaddr paddr len a

theorem pageSize2m_eq : pageSize2m = 0x800000 := rfl
theorem pageSize1g_eq : pageSize1g = 0x40000000 := rfl

def Use1g (oneG : Bool) (vaddr paddr len : Nat) : Prop :=
  oneG = true ∧ vaddr % pageSize1g = 0 ∧ paddr % pageSize1g = 0 ∧ pageSize1g ≤ len

def Use2m (vaddr paddr len : Nat) : Prop := vaddr % pageSize2m = 0 ∧ paddr % pageSize2m = 0 ∧ pageSize2m ≤ len

theorem pageKind_cases (m : Mmu) (vaddr paddr len : Nat) :
    (m.pageKind vaddr paddr len = .page1g ∧ Use1g m.cpuHas1gPages vaddr paddr len) ∨
    (m.pageKind vaddr paddr len = .page2m ∧ ¬ Use1g m.cpuHas1gPages vaddr paddr len ∧ Use2m vaddr paddr len) ∨
    (m.pageKind vaddr paddr len = .page4k ∧ ¬ Use1g m.cpuHas1gPages vaddr paddr len ∧ ¬ Use2m vaddr paddr len) := by
  simp only [Mmu.pageKind, isPageAlignedTo, Bool.and_eq_true, decide_eq_true_eq, and_assoc]
  split
  · next huge => exact Or.inl ⟨rfl, huge⟩
  · next notHuge =>
      split
      · next big => exact Or.inr (Or.inl ⟨rfl, notHuge, big⟩)
      · next notBig => exact Or.inr (Or.inr ⟨rfl, notHuge, notBig⟩)

section Step

variable {oneG : Bool} {vaddr paddr len : Nat}

theorem blockInside_rest {size chunk a : Nat} (le : chunk ≤ len) :
    BlockInside size (vaddr + chunk) (len - chunk) a ↔
      BlockInside size vaddr len a ∧ vaddr + chunk ≤ a / size * size := by
  simp only [BlockInside]
  generalize a / size * size = start
  omega

/-- What is skipped behind the first chunk of a range is what is skipped in the range, if no block that counts begins
inside of the chunk. -/
theorem skipped_rest {chunk a : Nat} (le : chunk ≤ len)
    (later2m : vaddr % pageSize2m = paddr % pageSize2m → BlockInside pageSize2m vaddr len a →
      vaddr + chunk ≤ a / pageSize2m * pageSize2m)
    (later1g : oneG = true → vaddr % pageSize1g = paddr % pageSize1g → BlockInside pageSize1g vaddr len a →
      vaddr + chunk ≤ a / pageSize1g * pageSize1g) :
    Skipped oneG (vaddr + chunk) (paddr + chunk) (len - chunk) a ↔ Skipped oneG vaddr paddr len a := by
  have shifted2m : (vaddr + chunk) % pageSize2m = (paddr + chunk) % pageSize2m ↔
      vaddr % pageSize2m = paddr % pageSize2m := by
    rw [pageSize2m_eq]
    omega
  have shifted1g : (vaddr + chunk) % pageSize1g = (paddr + chunk) % pageSize1g ↔
      vaddr % pageSize1g = paddr % pageSize1g := by
    rw [pageSize1g_eq]
    omega
  rw [Skipped, Skipped, blockInside_rest le, blockInside_rest le, shifted2m, shifted1g]
  constructor
  · rintro ⟨same, inside, behind, small⟩
    exact ⟨same, inside.1, behind, fun large =>
      small ⟨large.1, large.2.1, large.2.2, later1g large.1 large.2.1 large.2.2⟩⟩
  · rintro ⟨same, inside, behind, small⟩
    exact ⟨same, ⟨inside, later2m same inside⟩, behind, fun large => small ⟨large.1, large.2.1, large.2.2.1⟩⟩

/-- A range is covered by a page at its start and by what covers the rest behind the first chunk. -/
theorem covered_split {chunk page a : Nat} (le : chunk ≤ len) (fits : page ≤ chunk)
    (first : vaddr ≤ a → a < vaddr + chunk → (Skipped oneG vaddr paddr len a ↔ vaddr + page ≤ a))
    (rest : vaddr + chunk ≤ a →
      (Skipped oneG (vaddr + chunk) (paddr + chunk) (len - chunk) a ↔ Skipped oneG vaddr paddr len a)) :
    Covered oneG vaddr paddr len a ↔
      (vaddr ≤ a ∧ a < vaddr + page) ∨ Covered oneG (vaddr + chunk) (paddr + chunk) (len - chunk) a := by
  constructor
  · rintro ⟨low, high, kept⟩
    by_cases near : a < vaddr + chunk
    · rw [first low near] at kept
      exact .inl ⟨low, Nat.lt_of_not_le kept⟩
    · rw [← rest (Nat.le_of_not_lt near)] at kept
      exact .inr ⟨Nat.le_of_not_lt near, by omega, kept⟩
  · rintro (⟨low, near⟩ | ⟨low, high, kept⟩)
    · refine ⟨low, by omega, fun skipped => ?_⟩
      rw [first low (by omega)] at skipped
      omega
    · exact ⟨by omega, by omega, (rest low).not.mp kept⟩

theorem chunk_apart {chunk start : Nat} (aligned : chunk ∣ vaddr) (aligned' : chunk ∣ start) (le : vaddr ≤ start)
    (apart : vaddr ≠ start) : vaddr + chunk ≤ start := by
  have one := Nat.le_of_dvd (by omega) (Nat.dvd_sub aligned' aligned)
  omega

theorem block_behind {size start a : Nat} (aligned : size ∣ start) (behind : start ≤ a) : start ≤ a / size * size := by
  obtain ⟨n, rfl⟩ := aligned
  rcases Nat.eq_zero_or_pos size with rfl | positive
  · rw [Nat.zero_mul]
    exact Nat.zero_le _
  · rw [Nat.mul_comm size n] at behind ⊢
    exact Nat.mul_le_mul_right _ ((Nat.le_div_iff_mul_le positive).mpr behind)

theorem block_start {size a : Nat} (aligned : size ∣ vaddr) (low : vaddr ≤ a) (high : a < vaddr + size) :
    a / size * size = vaddr := by
  have start := block_behind aligned low
  have below := Nat.div_mul_le_self a size
  refine Nat.le_antisymm (Nat.le_of_not_lt fun behind => ?_) start
  have next := chunk_apart aligned (Nat.dvd_mul_left size _) start (Nat.ne_of_lt behind)
  omega

/-- No block that counts begins at the start of a range that is not mapped by a page of this size. -/
theorem block_later {size chunk a : Nat} (pieces : chunk ∣ size) (aligned : chunk ∣ vaddr)
    (unused : ¬ (vaddr % size = 0 ∧ paddr % size = 0 ∧ size ≤ len)) (same : vaddr % size = paddr % size)
    (inside : BlockInside size vaddr len a) : vaddr + chunk ≤ a / size * size := by
  refine chunk_apart aligned (Nat.dvd_mul_left_of_dvd pieces _) inside.1 fun start => unused ?_
  have whole : vaddr % size = 0 := by rw [start, Nat.mul_mod_left]
  exact ⟨whole, same ▸ whole, by have := inside.2; omega⟩

theorem covered_1g (a : Nat) (use : Use1g oneG vaddr paddr len) : Covered oneG vaddr paddr len a ↔
    (vaddr ≤ a ∧ a < vaddr + span 2) ∨
      Covered oneG (vaddr + pageSize1g) (paddr + pageSize1g) (len - pageSize1g) a := by
  obtain ⟨has, valigned, paligned, le⟩ := use
  have start : pageSize1g ∣ vaddr + pageSize1g := Nat.dvd_add_self_right.mpr (Nat.dvd_of_mod_eq_zero valigned)
  have start' : pageSize2m ∣ vaddr + pageSize1g := Nat.dvd_trans (by decide) start
  refine covered_split le (Nat.le_refl _) (fun low high => iff_of_false ?_ (Nat.not_le.mpr high)) fun behind =>
    skipped_rest le (fun _ _ => block_behind start' behind) fun _ _ _ => block_behind start behind
  -- The page is the block.
  rintro ⟨-, -, -, small⟩
  have block := block_start (Nat.dvd_of_mod_eq_zero valigned) low high
  exact small ⟨has, valigned.trans paligned.symm, Nat.le_of_eq block.symm, by omega⟩

theorem covered_2m (a : Nat) (use : Use2m vaddr paddr len) (not1g : ¬ Use1g oneG vaddr paddr len) :
    Covered oneG vaddr paddr len a ↔ (vaddr ≤ a ∧ a < vaddr + span 1) ∨
      Covered oneG (vaddr + pageSize2m) (paddr + pageSize2m) (len - pageSize2m) a := by
  obtain ⟨valigned, paligned, le⟩ := use
  have aligned := Nat.dvd_of_mod_eq_zero valigned
  have later1g (has : oneG = true) (same : vaddr % pageSize1g = paddr % pageSize1g)
      (inside : BlockInside pageSize1g vaddr len a) : vaddr + pageSize2m ≤ a / pageSize1g * pageSize1g :=
    block_later (by decide) aligned (fun unused => not1g ⟨has, unused⟩) same inside
  refine covered_split le (by decide) (fun low high => ?_) fun behind =>
    skipped_rest le (fun _ _ => block_behind (Nat.dvd_add_self_right.mpr aligned) behind) later1g
  -- The block begins with the page.
  have start := block_start aligned low high
  have split := Nat.div_add_mod' a pageSize2m
  constructor
  · rintro ⟨-, -, behind, -⟩
    omega
  · intro behind
    refine ⟨valigned.trans paligned.symm, ⟨Nat.le_of_eq start.symm, by omega⟩, by omega, ?_⟩
    rintro ⟨has, same, inside⟩
    have later := later1g has same inside
    have below := Nat.div_mul_le_self a pageSize1g
    omega

theorem covered_4k (a : Nat) (aligned : vaddr % pageSize = 0) (whole : len % pageSize = 0) (more : 0 < len)
    (not2m : ¬ Use2m vaddr paddr len) (not1g : ¬ Use1g oneG vaddr paddr len) :
    Covered oneG vaddr paddr len a ↔ (vaddr ≤ a ∧ a < vaddr + span 0) ∨
      Covered oneG (vaddr + pageSize) (paddr + pageSize) (len - pageSize) a := by
  have le : pageSize ≤ len := Nat.le_of_dvd more (Nat.dvd_of_mod_eq_zero whole)
  have pages := Nat.dvd_of_mod_eq_zero aligned
  have later2m (same : vaddr % pageSize2m = paddr % pageSize2m) (inside : BlockInside pageSize2m vaddr len a) :
      vaddr + pageSize ≤ a / pageSize2m * pageSize2m := block_later (by decide) pages not2m same inside
  have later1g (has : oneG = true) (same : vaddr % pageSize1g = paddr % pageSize1g)
      (inside : BlockInside pageSize1g vaddr len a) : vaddr + pageSize ≤ a / pageSize1g * pageSize1g :=
    block_later (by decide) pages (fun unused => not1g ⟨has, unused⟩) same inside
  refine covered_split le (Nat.le_refl _) (fun low high => iff_of_false ?_ (Nat.not_le.mpr high)) fun _ =>
    skipped_rest le later2m later1g
  rintro ⟨same, inside, -, -⟩
  have later := later2m same inside
  have below := Nat.div_mul_le_self a pageSize2m
  omega

/-- One step of the loop: a page at the start, and a rest that begins after the chunk. -/
structure Chunk (oneG : Bool) (vaddr paddr len level chunk : Nat) : Prop where
  level_le : level ≤ 2
  span_le : span level ≤ chunk
  chunk_le : chunk ≤ len
  pages : chunk % pageSize = 0
  valigned : vaddr % span level = 0
  paligned : paddr % span level = 0
  covered : ∀ a, Covered oneG vaddr paddr len a ↔
    (vaddr ≤ a ∧ a < vaddr + span level) ∨ Covered oneG (vaddr + chunk) (paddr + chunk) (len - chunk) a

theorem pageKind_chunk (m : Mmu) (aligned : vaddr % pageSize = 0) (aligned' : paddr % pageSize = 0)
    (whole : len % pageSize = 0) (more : 0 < len) :
    Chunk m.cpuHas1gPages vaddr paddr len (levelOfPage (m.pageKind vaddr paddr len))
      (Mmu.chunkOf (m.pageKind vaddr paddr len)) := by
  rcases pageKind_cases m vaddr paddr len with ⟨kind, use⟩ | ⟨kind, not1g, use⟩ | ⟨kind, not1g, not2m⟩
  · rw [kind]
    exact ⟨by decide, Nat.le_refl _, use.2.2.2, by decide, use.2.1, use.2.2.1, fun a => covered_1g a use⟩
  · rw [kind]
    have quarter : ∀ x, x % pageSize2m = 0 → x % span 1 = 0 := by
      intro x start
      rw [pageSize2m_eq] at start
      rw [span_one]
      omega
    exact ⟨by decide, by decide, use.2.2, by decide, quarter vaddr use.1, quarter paddr use.2.1,
      fun a => covered_2m a use not1g⟩
  · rw [kind]
    exact ⟨by decide, Nat.le_refl _, Nat.le_of_dvd more (Nat.dvd_of_mod_eq_zero whole), by decide, aligned, aligned',
      fun a => covered_4k a aligned whole more not2m not1g⟩

end Step

theorem entryPaddr_flags {flags : Nat} (only : flags &&& flagMask = flags) : entryPaddr flags = 0 := by
  rw [← only, entryPaddr, Nat.and_assoc]
  exact Nat.and_zero _

theorem leafEntry_flags {paddr : Nat} (page : entryPaddr paddr = paddr) (size : PageKind) {opts : Pgprot}
    (only : opts.protFlags &&& flagMask = opts.protFlags) :
    Mmu.leafEntry paddr size opts &&& flagMask = opts.protFlags := by
  have address : paddr &&& flagMask = 0 := by
    rw [← page, entryPaddr, Nat.and_assoc]
    exact Nat.and_zero _
  have others : pagePresent &&& flagMask = 0 ∧ pagePs &&& flagMask = 0 := by decide
  simp only [Mmu.leafEntry, Nat.and_or_distrib_right, address, others, only]
  split <;> simp [others]

section Loop

variable {pgd : Nat} {opts : Pgprot}

theorem Typed.mapped_block (typed : Typed (placeKinds leaf) roles m) (known : roles pgd = some ⟨false, 3, 0⟩)
    {vaddr paddr a every any : Nat} {size : PageKind} (only : opts.protFlags &&& flagMask = opts.protFlags)
    (page : entryPaddr paddr = paddr) (valigned : vaddr % span (levelOfPage size) = 0)
    (paligned : paddr % span (levelOfPage size) = 0)
    (within : vaddr ≤ a ∧ a < vaddr + span (levelOfPage size))
    (h : translate m.tables pgd a = some ⟨Mmu.leafEntry paddr size opts, levelOfPage size, every, any⟩) :
    Mapped m pgd a (paddr + (a - vaddr)) opts.protFlags := by
  have root : roles pgd = some (placeAt false a 3) := by
    rw [placeAt_top]
    exact known
  have leafAt := typed.translate_leaf (b := placeBranch leaf false a) root h
  refine ⟨_, h, ?_, leafAt.flags.trans (leafEntry_flags page size only)⟩
  have offset : a % span (levelOfPage size) = a - vaddr := by
    obtain ⟨k, rfl⟩ := Nat.exists_eq_add_of_le within.1
    rw [Nat.add_mod, valigned, Nat.zero_add, Nat.mod_mod, Nat.mod_eq_of_lt (by omega)]
    omega
  rw [Leaf.paddr, Mmu.leafEntry_paddr page size (entryPaddr_flags only), offset,
    Nat.div_mul_cancel (Nat.dvd_of_mod_eq_zero paligned)]

theorem Typed.mapPage (typed : Typed (placeKinds leaf) roles m) (touched : Place → Nat → Prop)
    (known : roles pgd = some ⟨false, 3, 0⟩) {vaddr paddr : Nat} {size : PageKind}
    (inside : ∀ n ≤ 3, touched (placeAt false vaddr n) (tableIndex n vaddr))
    (ok : leaf (placeAt false vaddr (levelOfPage size)) (tableIndex (levelOfPage size) vaddr)
      (Mmu.leafEntry paddr size opts))
    (only : opts.protFlags &&& flagMask = opts.protFlags) (page : entryPaddr paddr = paddr)
    (valigned : vaddr % span (levelOfPage size) = 0) (paligned : paddr % span (levelOfPage size) = 0)
    (half : InHalf vaddr (span (levelOfPage size))) (h : m.mmuMapOne pgd vaddr paddr size opts = .ok m') :
    ∃ roles', Grows (placeKinds leaf) touched roles m roles' m' ∧ ∀ a, Canonical a →
      (vaddr ≤ a ∧ a < vaddr + span (levelOfPage size) → Mapped m' pgd a (paddr + (a - vaddr)) opts.protFlags) ∧
      (¬ (vaddr ≤ a ∧ a < vaddr + span (levelOfPage size)) →
        translate m'.tables pgd a = translate m.tables pgd a) := by
  obtain ⟨roles₁, grows, one⟩ := typed.mapOne touched known inside ok h
  refine ⟨roles₁, grows, fun a canonical => ?_⟩
  have block := sameBlock_iff (levelOfPage_le size) valigned half canonical
  refine ⟨fun within => ?_, fun outside => (one a).2 fun same => outside (block.mp same)⟩
  obtain ⟨every, any, translated⟩ := (one a).1 (block.mpr within)
  exact grows.typed.mapped_block (grows.extended pgd _ known) only page valigned paligned within translated

/-- What the mapping of a range does to the translations of its own tree. -/
structure Maps (m : Mmu) (pgd : Nat) (m' : Mmu) (vaddr paddr len flags : Nat) : Prop where
  covered : ∀ a, Canonical a → Covered m.cpuHas1gPages vaddr paddr len a → Mapped m' pgd a (paddr + (a - vaddr)) flags
  others : ∀ a, Canonical a → ¬ Covered m.cpuHas1gPages vaddr paddr len a →
    translate m'.tables pgd a = translate m.tables pgd a

theorem Maps.empty (m : Mmu) (pgd vaddr paddr flags : Nat) : Maps m pgd m vaddr paddr 0 flags := by
  refine ⟨fun a _ covered => ?_, fun _ _ _ => rfl⟩
  exact absurd (Nat.lt_of_le_of_lt covered.1 covered.2.1) (Nat.lt_irrefl vaddr)

theorem Maps.cons {m₁ : Mmu} {vaddr paddr len level chunk flags : Nat}
    (rest : Maps m₁ pgd m' (vaddr + chunk) (paddr + chunk) (len - chunk) flags)
    (cpu : m₁.cpuHas1gPages = m.cpuHas1gPages) (step : Chunk m.cpuHas1gPages vaddr paddr len level chunk)
    (here : ∀ a, Canonical a → vaddr ≤ a ∧ a < vaddr + span level → Mapped m₁ pgd a (paddr + (a - vaddr)) flags)
    (elsewhere : ∀ a, Canonical a → ¬ (vaddr ≤ a ∧ a < vaddr + span level) →
      translate m₁.tables pgd a = translate m.tables pgd a) : Maps m pgd m' vaddr paddr len flags := by
  obtain ⟨covered, others⟩ := rest
  rw [cpu] at covered others
  refine ⟨fun a canonical inside => ?_, fun a canonical outside => ?_⟩
  · rcases (step.covered a).mp inside with first | later
    · have notLater : ¬ Covered m.cpuHas1gPages (vaddr + chunk) (paddr + chunk) (len - chunk) a := by
        intro later
        have := later.1
        have := step.span_le
        omega
      rw [Mapped, others a canonical notLater]
      exact here a canonical first
    · have mapped := covered a canonical later
      have past := later.1
      rwa [show paddr + chunk + (a - (vaddr + chunk)) = paddr + (a - vaddr) by omega] at mapped
  · have notFirst := fun first => outside ((step.covered a).mpr (Or.inl first))
    have notLater := fun later => outside ((step.covered a).mpr (Or.inr later))
    exact (others a canonical notLater).trans (elsewhere a canonical notFirst)

theorem InHalf.le {vaddr len len' : Nat} (half : InHalf vaddr len) (le : len' ≤ len) : InHalf vaddr len' := by
  simp only [InHalf] at *
  omega

theorem Typed.mapLoop (typed : Typed (placeKinds leaf) roles m) (touched : Place → Nat → Prop)
    (known : roles pgd = some ⟨false, 3, 0⟩) {vaddr paddr len : Nat} (aligned : vaddr % pageSize = 0)
    (aligned' : paddr % pageSize = 0)
    (whole : len % pageSize = 0) (half : InHalf vaddr len) (frames : paddr + len ≤ 2 ^ 52)
    (only : opts.protFlags &&& flagMask = opts.protFlags)
    (inside : ∀ a, vaddr ≤ a → a < vaddr + len → ∀ n ≤ 3, touched (placeAt false a n) (tableIndex n a))
    (ok : ∀ k size, k < len → (vaddr + k) % span (levelOfPage size) = 0 → (paddr + k) % span (levelOfPage size) = 0 →
      leaf (placeAt false (vaddr + k) (levelOfPage size)) (tableIndex (levelOfPage size) (vaddr + k))
        (Mmu.leafEntry (paddr + k) size opts))
    (h : Mmu.mmuMapLoop opts pgd m vaddr paddr len = .ok m') :
    ∃ roles', Grows (placeKinds leaf) touched roles m roles' m' ∧
      Maps m pgd m' vaddr paddr len opts.protFlags := by
  induction len using Nat.strong_induction_on generalizing m roles vaddr paddr with
  | h len ih =>
      rw [Mmu.mmuMapLoop] at h
      split at h
      · next more =>
          obtain ⟨m₁, one, later⟩ := Exec.bind_eq_ok.mp h
          have step := pageKind_chunk m aligned aligned' whole more
          generalize Mmu.chunkOf (m.pageKind vaddr paddr len) = chunk at step later
          generalize m.pageKind vaddr paddr len = size at step one
          have positive : 0 < span (levelOfPage size) := Nat.two_pow_pos _
          have page : entryPaddr paddr = paddr := entryPaddr_page aligned' (by have := step.chunk_le; omega)
          obtain ⟨roles₁, grows, first⟩ := typed.mapPage touched known (inside vaddr (Nat.le_refl _) (by omega))
            (ok 0 size more step.valigned step.paligned) only page step.valigned step.paligned
            (half.le (Nat.le_trans step.span_le step.chunk_le)) one
          have rest : ∃ roles', Grows (placeKinds leaf) touched roles₁ m₁ roles' m' ∧
              Maps m₁ pgd m' (vaddr + chunk) (paddr + chunk) (len - chunk) opts.protFlags := by
            have pages := step.pages
            have fits := step.chunk_le
            by_cases last : len - chunk = 0
            · rw [last, Mmu.mmuMapLoop, if_neg (Nat.lt_irrefl 0)] at later
              cases later
              rw [last]
              exact ⟨roles₁, Grows.refl grows.typed, Maps.empty _ pgd _ _ _⟩
            · have vnext : (vaddr + chunk) % word64 = vaddr + chunk :=
                Nat.mod_eq_of_lt (by simp only [InHalf, word64] at *; omega)
              have pnext : (paddr + chunk) % word64 = paddr + chunk :=
                Nat.mod_eq_of_lt (by simp only [word64] at *; omega)
              rw [vnext, pnext] at later
              refine ih (len - chunk) (by have := step.span_le; omega) grows.typed (grows.extended pgd _ known)
                (by simp only [pageSize] at *; omega) (by simp only [pageSize] at *; omega)
                (by simp only [pageSize] at *; omega) (by simp only [InHalf] at *; omega) (by omega)
                (fun a above below => inside a (by omega) (by omega)) ?_ later
              intro k size within valigned paligned
              rw [Nat.add_assoc] at valigned paligned ⊢
              rw [Nat.add_assoc]
              exact ok (chunk + k) size (by omega) valigned paligned
          obtain ⟨roles₂, grows', maps⟩ := rest
          refine ⟨roles₂, grows.trans grows', ?_⟩
          exact maps.cons grows.cpu step (fun a canonical => (first a canonical).1) fun a canonical =>
            (first a canonical).2
      · cases h
        obtain rfl : len = 0 := by omega
        exact ⟨roles, Grows.refl typed, Maps.empty _ pgd _ _ _⟩

end Loop

/-! Well-formed trees -/

/-- The tables of a tree with their places. -/
inductive TableAt (tables : Nat → Nat → Nat) (pgd : Nat) : Place → Nat → Prop where
  | top : TableAt tables pgd ⟨false, 3, 0⟩ pgd
  | down {p : Place} {t i : Nat} (above : TableAt tables pgd p t) (index : i < 512) (inner : 0 < p.level)
      (here : present (tables t i) = true) (notLeaf : (p.level < 3 && large (tables t i)) = false) :
      TableAt tables pgd ⟨false, p.level - 1, p.key * 512 + i⟩ (entryPaddr (tables t i))

/-- Tables are in pairwise distinct frames that the allocator does not have, and their entries are
`PRESENT | RW | USER`. -/
structure WellFormedTree (m : Mmu) (pgd : Nat) : Prop where
  distinct : ∀ {p q : Place} {t : Nat}, TableAt m.tables pgd p t → TableAt m.tables pgd q t → p = q
  allowing : ∀ {p : Place} {t i : Nat}, TableAt m.tables pgd p t → i < 512 → 0 < p.level →
    present (m.tables t i) = true → (p.level < 3 && large (m.tables t i)) = false →
      large (m.tables t i) = false ∧ m.tables t i &&& (pageRw ||| pageUser) = pageRw ||| pageUser ∧
        m.tables t i &&& pageNoExecute = 0
  poolDistinct : m.pool.Nodup
  poolUnused : ∀ f ∈ m.pool, ∀ p, ¬ TableAt m.tables pgd p f.paddr

open Classical in
noncomputable def placesOf (m : Mmu) (pgd t : Nat) : Option Place :=
  if h : ∃ p, TableAt m.tables pgd p t then some h.choose else none

theorem WellFormedTree.placesOf_iff {pgd : Nat} (tree : WellFormedTree m pgd) {t : Nat} {p : Place} :
    placesOf m pgd t = some p ↔ TableAt m.tables pgd p t := by
  simp only [placesOf]
  split
  · next h =>
      constructor
      · intro same
        exact Option.some.inj same ▸ h.choose_spec
      · exact fun found => congrArg some (tree.distinct h.choose_spec found)
  · next none => exact ⟨fun same => (nomatch same), fun found => absurd ⟨p, found⟩ none⟩

theorem WellFormedTree.typed {pgd : Nat} (tree : WellFormedTree m pgd) :
    Typed (placeKinds fun _ _ _ => True) (placesOf m pgd) m := by
  refine ⟨fun t p i used here => ?_, tree.poolDistinct, fun f member => ?_⟩
  · have found := tree.placesOf_iff.mp used
    by_cases inner : i < 512 ∧ 0 < p.level
    · cases notLeaf : (p.level < 3 && large (m.tables t i)) with
      | false =>
          obtain ⟨small, allows, executable⟩ := tree.allowing found inner.1 inner.2 here notLeaf
          refine Or.inl ⟨_, if_pos inner, small, allows, executable, ?_⟩
          exact tree.placesOf_iff.mpr (.down found inner.1 inner.2 here notLeaf)
      | true =>
          rw [Bool.and_eq_true, decide_eq_true_eq] at notLeaf
          exact Or.inr ⟨Or.inl ⟨decide_eq_true (by omega), notLeaf.2⟩, trivial⟩
    · exact Or.inr ⟨Or.inr (if_neg inner), trivial⟩
  · cases place : placesOf m pgd f.paddr with
    | none => rfl
    | some p => exact absurd (tree.placesOf_iff.mp place) (tree.poolUnused f member p)

/-! The mapping as requested -/

def mapSmallPages (opts : Pgprot) (pgd : Nat) : Mmu → Nat → Nat → Nat → Exec Mmu
  | m, _, _, 0 => .ok m
  | m, vaddr, paddr, pages + 1 => do
      let m ← m.mmuMapOne pgd vaddr paddr .page4k opts
      mapSmallPages opts pgd m (vaddr + pageSize) (paddr + pageSize) pages

def access (m : Mmu) (pgd vaddr : Nat) : Option (Nat × Nat) :=
  (translate m.tables pgd vaddr).map fun leaf => (leaf.paddr vaddr, leaf.flags)

theorem Mapped.access {pgd vaddr paddr flags : Nat} (mapped : Mapped m pgd vaddr paddr flags) :
    access m pgd vaddr = some (paddr, flags) := by
  obtain ⟨leaf, found, rfl, rfl⟩ := mapped
  rw [Paging.access, found]
  rfl

/-- The range and nothing else is mapped, to the requested addresses with the requested permissions, as it
would be with small pages. -/
structure MapsExactly (m : Mmu) (pgd vaddr paddr len : Nat) (opts : Pgprot) (m' : Mmu) : Prop where
  range : ∀ k < len, Mapped m' pgd (vaddr + k) (paddr + k) opts.protFlags
  others : ∀ a, Canonical a → ¬ (vaddr ≤ a ∧ a < vaddr + len) → translate m'.tables pgd a = translate m.tables pgd a
  small : ∀ m₄, mapSmallPages opts pgd m vaddr paddr (len / pageSize) = .ok m₄ →
    ∀ a, Canonical a → access m' pgd a = access m₄ pgd a

section Exact

variable {pgd vaddr paddr len : Nat} {opts : Pgprot}

theorem InHalf.canonical {a : Nat} (half : InHalf vaddr len) (above : vaddr ≤ a) (below : a < vaddr + len) :
    Canonical a := by
  simp only [InHalf, Canonical] at *
  omega

theorem Skipped.inside {oneG : Bool} {a : Nat} (skipped : Skipped oneG vaddr paddr len a) :
    vaddr ≤ a ∧ a < vaddr + len := by
  obtain ⟨_, ⟨above, below⟩, _⟩ := skipped
  rw [pageSize2m_eq] at above below
  omega

theorem Typed.mapSmall (typed : Typed (placeKinds fun _ _ _ => True) roles m)
    (known : roles pgd = some ⟨false, 3, 0⟩) {pages : Nat} (aligned : vaddr % pageSize = 0)
    (aligned' : paddr % pageSize = 0) (half : InHalf vaddr (pages * pageSize))
    (frames : paddr + pages * pageSize ≤ 2 ^ 52) (only : opts.protFlags &&& flagMask = opts.protFlags)
    (h : mapSmallPages opts pgd m vaddr paddr pages = .ok m') : ∀ a, Canonical a →
      (vaddr ≤ a ∧ a < vaddr + pages * pageSize → Mapped m' pgd a (paddr + (a - vaddr)) opts.protFlags) ∧
      (¬ (vaddr ≤ a ∧ a < vaddr + pages * pageSize) → translate m'.tables pgd a = translate m.tables pgd a) := by
  induction pages generalizing m roles vaddr paddr with
  | zero =>
      cases h
      exact fun a _ => ⟨fun within => by omega, fun _ => rfl⟩
  | succ pages ih =>
      obtain ⟨m₁, one, later⟩ := Exec.bind_eq_ok.mp h
      have below : (pages + 1) * pageSize = pageSize + pages * pageSize := by
        rw [Nat.add_mul, Nat.one_mul, Nat.add_comm]
      rw [below] at half frames ⊢
      have page : entryPaddr paddr = paddr := entryPaddr_page aligned' (by simp only [pageSize] at frames; omega)
      have small : span (levelOfPage .page4k) = pageSize := rfl
      obtain ⟨roles₁, grows, first⟩ := typed.mapPage (fun _ _ => True) known (fun _ _ => trivial) trivial only page
        (small ▸ aligned) (small ▸ aligned') (half.le (small ▸ Nat.le_add_right _ _)) one
      have rest := ih grows.typed (grows.extended pgd _ known) (by simp only [pageSize] at *; omega)
        (by simp only [pageSize] at *; omega) (by simp only [InHalf] at *; omega) (by omega) later
      intro a canonical
      have here := first a canonical
      have there := rest a canonical
      rw [small] at here
      refine ⟨fun within => ?_, fun outside => ?_⟩
      · by_cases next : a < vaddr + pageSize
        · have mapped := here.1 ⟨within.1, next⟩
          rw [Mapped, there.2 (by omega)]
          exact mapped
        · have mapped := there.1 (by omega)
          rwa [show paddr + pageSize + (a - (vaddr + pageSize)) = paddr + (a - vaddr) by omega] at mapped
      · exact (there.2 (by omega)).trans (here.2 (by omega))

/-- A range that is mapped without a panic is mapped as requested exactly if the blocks that are skipped were
mapped like that before. -/
theorem mmuMapRange_exact_iff (tree : WellFormedTree m pgd) (half : InHalf vaddr len) (frames : paddr + len ≤ 2 ^ 52)
    (only : opts.protFlags &&& flagMask = opts.protFlags) (h : m.mmuMapRange pgd vaddr paddr len opts = .ok m') :
    MapsExactly m pgd vaddr paddr len opts m' ↔
      ∀ a, Skipped m.cpuHas1gPages vaddr paddr len a → Mapped m pgd a (paddr + (a - vaddr)) opts.protFlags := by
  obtain ⟨⟨aligned, aligned', whole⟩, loop⟩ := mmuMapRange_ok h
  have known : placesOf m pgd pgd = some ⟨false, 3, 0⟩ := tree.placesOf_iff.mpr .top
  obtain ⟨_, _, maps⟩ := tree.typed.mapLoop (fun _ _ => True) known aligned aligned' whole half frames only
    (fun _ _ _ _ _ => trivial) (fun _ _ _ _ _ => trivial) loop
  constructor
  · intro exact_ a skipped
    obtain ⟨above, below⟩ := skipped.inside
    have mapped := exact_.range (a - vaddr) (by omega)
    rw [show vaddr + (a - vaddr) = a by omega, Mapped,
      maps.others a (half.canonical above below) fun covered => covered.2.2 skipped] at mapped
    exact mapped
  · intro already
    have range : ∀ a, vaddr ≤ a → a < vaddr + len → Mapped m' pgd a (paddr + (a - vaddr)) opts.protFlags := by
      intro a above below
      have canonical := half.canonical above below
      by_cases skipped : Skipped m.cpuHas1gPages vaddr paddr len a
      · rw [Mapped, maps.others a canonical fun covered => covered.2.2 skipped]
        exact already a skipped
      · exact maps.covered a canonical ⟨above, below, skipped⟩
    have others : ∀ a, Canonical a → ¬ (vaddr ≤ a ∧ a < vaddr + len) →
        translate m'.tables pgd a = translate m.tables pgd a :=
      fun a canonical outside => maps.others a canonical fun covered => outside ⟨covered.1, covered.2.1⟩
    refine ⟨fun k within => ?_, others, fun m₄ pages a canonical => ?_⟩
    · have mapped := range (vaddr + k) (by omega) (by omega)
      rwa [Nat.add_sub_cancel_left] at mapped
    · have cover : len / pageSize * pageSize = len := Nat.div_mul_cancel (Nat.dvd_of_mod_eq_zero whole)
      have one := tree.typed.mapSmall known aligned aligned' (cover.symm ▸ half) (cover.symm ▸ frames) only pages a
        canonical
      rw [cover] at one
      by_cases within : vaddr ≤ a ∧ a < vaddr + len
      · rw [(range a within.1 within.2).access, (one.1 within).access]
      · rw [access, access, others a canonical within, one.2 within]

end Exact

/-! An empty tree -/

theorem emptyFrame_isFrame (n : Fin 4) : entryPaddr (0x2000 + n.val * pageSize) = 0x2000 + n.val * pageSize := by
  revert n
  decide

theorem emptyFrame_nonNull (n : Fin 4) : 0x2000 + n.val * pageSize ≠ 0 := by omega

def emptyMmu : Mmu :=
  ⟨fun _ _ => 0, (List.finRange 4).map fun n => ⟨_, emptyFrame_nonNull n, emptyFrame_isFrame n⟩, false⟩

theorem wellFormed_of_zero {tables : Nat → Nat → Nat} {pool : List Frame} {oneG : Bool} {pgd : Nat}
    (zero : ∀ t i, tables t i = 0) (distinct : pool.Nodup) (apart : ∀ f ∈ pool, f.paddr ≠ pgd) :
    WellFormedTree ⟨tables, pool, oneG⟩ pgd := by
  have absent : ∀ t i, present (tables t i) = false := by
    intro t i
    rw [zero]
    decide
  have only : ∀ {p : Place} {t : Nat}, TableAt tables pgd p t → p = ⟨false, 3, 0⟩ ∧ t = pgd := by
    intro p t found
    cases found with
    | top => exact ⟨rfl, rfl⟩
    | down _ _ _ here _ => cases (absent _ _).symm.trans here
  refine ⟨fun first second => ?_, fun _ _ _ here _ => ?_, distinct, fun f member p found => ?_⟩
  · rw [(only first).1, (only second).1]
  · cases (absent _ _).symm.trans here
  · exact apart f member (only found).2

theorem emptyMmu_wellFormed : WellFormedTree emptyMmu 0x1000 :=
  wellFormed_of_zero (fun _ _ => rfl) (by decide +kernel) (by decide +kernel)

theorem not_skipped_short {oneG : Bool} {vaddr paddr len a : Nat} (short : len < pageSize2m) :
    ¬ Skipped oneG vaddr paddr len a := by
  rintro ⟨_, ⟨above, below⟩, _⟩
  rw [pageSize2m_eq] at *
  omega

theorem not_skipped_1g {vaddr paddr len a : Nat} (few : Nat) (aligned : (vaddr + few) % pageSize1g = 0)
    (aligned' : (paddr + few) % pageSize1g = 0) (isLen : len = few + pageSize1g) (short : few < pageSize2m) :
    ¬ Skipped true vaddr paddr len a := by
  rintro ⟨_, ⟨above, below⟩, _, other⟩
  rw [pageSize2m_eq] at above below short
  rw [pageSize1g_eq] at aligned aligned' isLen
  have same : vaddr % pageSize1g = paddr % pageSize1g := by
    rw [pageSize1g_eq]
    omega
  have block : a / 0x40000000 = (vaddr + few) / 0x40000000 := by omega
  have start : (vaddr + few) / 0x40000000 * 0x40000000 = vaddr + few :=
    Nat.div_mul_cancel (Nat.dvd_of_mod_eq_zero aligned)
  refine other ⟨rfl, same, ?_, ?_⟩
  · rw [pageSize1g_eq, block, start]
    exact Nat.le_add_right vaddr few
  · rw [pageSize1g_eq, block, start, isLen, Nat.add_assoc]

def emptyMmu1g : Mmu := { emptyMmu with cpuHas1gPages := true }

theorem emptyMmu1g_wellFormed : WellFormedTree emptyMmu1g 0x1000 :=
  wellFormed_of_zero (fun _ _ => rfl) (by decide +kernel) (by decide +kernel)

/-- Two small pages and one of 1G. -/
theorem mmuMapRange_exact_iff_1g :
    ∃ m', emptyMmu1g.mmuMapRange 0x1000 0xffff88803fffe000 0x3fffe000 0x40002000 ⟨pageRw, false⟩ = .ok m' ∧
      MapsExactly emptyMmu1g 0x1000 0xffff88803fffe000 0x3fffe000 0x40002000 ⟨pageRw, false⟩ m' := by
  obtain ⟨m', outcome⟩ := Exec.exists_ok (by decide +kernel :
    (emptyMmu1g.mmuMapRange 0x1000 0xffff88803fffe000 0x3fffe000 0x40002000 ⟨pageRw, false⟩).toOption.isSome = true)
  refine ⟨m', outcome, (mmuMapRange_exact_iff emptyMmu1g_wellFormed (Or.inr (by decide)) (by decide) (by decide)
    outcome).mpr ?_⟩
  exact fun a skipped => absurd skipped (not_skipped_1g 0x2000 (by decide) (by decide) rfl (by decide))

/-- Of a block of `PAGE_SIZE_2M` only the first 2M are mapped. -/
theorem skipped_block_unmapped :
    WellFormedTree emptyMmu 0x1000 ∧ InHalf 0xffff888000800000 0x800000 ∧
    ∃ m', emptyMmu.mmuMapRange 0x1000 0xffff888000800000 0x800000 0x800000 ⟨pageRw, false⟩ = .ok m' ∧
      ¬ MapsExactly emptyMmu 0x1000 0xffff888000800000 0x800000 0x800000 ⟨pageRw, false⟩ m' := by
  refine ⟨emptyMmu_wellFormed, Or.inr (by decide), ?_⟩
  obtain ⟨m', outcome, gap⟩ := Exec.exists_ok_of_map (by decide +kernel :
    (emptyMmu.mmuMapRange 0x1000 0xffff888000800000 0x800000 0x800000 ⟨pageRw, false⟩).toOption.map
      (fun m' => translate m'.tables 0x1000 0xffff888000a00000) = some none)
  refine ⟨m', outcome, fun exact_ => ?_⟩
  obtain ⟨leaf, found, _⟩ := exact_.range 0x200000 (by decide)
  cases gap.symm.trans found

end SnapOS.Paging
