/- Every way mmu_map_one can end, told from the translations before the call. -/
import SnapOS.Lib.Placing
import SnapOS.TableCount

namespace SnapOS.Paging
open SnapOS.Lib

def noFreeFrames : Fault := .panic "mmu_alloc_table: no free frames."

def existingHuge : Fault :=
  .panic "mmu_map_one: vaddr is in an existing huge mapping, i still havent implemented splitting."

def alreadyMapped : Fault :=
  .panic "mmu_map_one: trying to map an already mapped vaddr with opts.allow_overwrite=false."

section Walk

variable {m : Mmu} {pgd vaddr : Nat}

theorem mmuEntry_cases (m : Mmu) (t i : Nat) :
    (m.mmuEntry t i = .error noFreeFrames ∧ present (m.tables t i) = false ∧ m.pool = []) ∨
      ∃ e m', m.mmuEntry t i = .ok (e, m') := by
  simp only [Mmu.mmuEntry]
  split
  · exact Or.inr ⟨_, _, rfl⟩
  · next missing =>
      simp only [Mmu.mmuAllocTable, Mmu.pmmCurrentAllocFrame]
      cases m.pool with
      | nil => exact Or.inl ⟨rfl, Bool.eq_false_iff.mpr missing, rfl⟩
      | cons f rest => exact Or.inr ⟨_, _, rfl⟩

theorem Walks.pool {n t : Nat} {m' : Mmu} (walks : Walks vaddr m pgd n t m') :
    m.pool.length + n ≤ m'.pool.length + 3 := by
  induction walks with
  | top => exact Nat.le_refl _
  | @down n t e m₁ m₂ above plain entry ih =>
      obtain ⟨_, ⟨_, rfl⟩ | ⟨_, allocated⟩⟩ := mmuEntry_ok entry
      · omega
      · obtain ⟨f, rest, pool, rfl⟩ := mmuAllocTable_ok allocated
        rw [pool, List.length_cons] at ih
        change _ ≤ rest.length + 3
        omega

theorem mmuEntry_present {t i : Nat} (isPresent : present (m.tables t i) = true) :
    m.mmuEntry t i = .ok (m.tables t i, m) := by
  rw [Mmu.mmuEntry, if_pos isPresent]
  rfl

theorem mmuWalk_large {pud pmd : Nat} (top : present (m.tables pgd (pgdIndex vaddr)) = true)
    (isPud : pgdToPud (m.tables pgd (pgdIndex vaddr)) = pud) (upper : present (m.tables pud (pudIndex vaddr)) = true)
    (plain : m.hitsHuge pud (pudIndex vaddr) = false) (isPmd : pudToPmd (m.tables pud (pudIndex vaddr)) = pmd)
    (huge : m.hitsHuge pmd (pmdIndex vaddr) = true) : m.mmuWalk pgd vaddr .pte = .ok (none, m) := by
  rw [Mmu.mmuWalk, if_neg (by decide), mmuEntry_present top, Exec.ok_bind]
  dsimp only
  rw [if_neg (by decide), isPud, plain, if_neg (by decide), mmuEntry_present upper, Exec.ok_bind]
  dsimp only
  rw [if_neg (by decide), isPmd, if_pos huge]

/-- A walk to a level runs out of frames, meets a large page above the level, or arrives. -/
inductive WalkEnds (m : Mmu) (pgd vaddr level : Nat) : Exec (Option (Nat × Nat) × Mmu) → Prop where
  | stuck {n t : Nat} {m' : Mmu} (above : level < n) (walks : Walks vaddr m pgd n t m')
      (missing : present (m'.tables t (tableIndex n vaddr)) = false) (exhausted : m'.pool = []) :
      WalkEnds m pgd vaddr level (.error noFreeFrames)
  | huge {n t : Nat} {m' : Mmu} (above : level < n) (inner : n < 3) (walks : Walks vaddr m pgd n t m')
      (hits : m'.hitsHuge t (tableIndex n vaddr) = true) : WalkEnds m pgd vaddr level (.ok (none, m'))
  | arrives {t : Nat} {m' : Mmu} (walks : Walks vaddr m pgd level t m') :
      WalkEnds m pgd vaddr level (.ok (some (t, tableIndex level vaddr), m'))

theorem mmuWalk_ends (m : Mmu) (pgd vaddr : Nat) (level : MmuLevel) :
    WalkEnds m pgd vaddr (levelNumber level) (m.mmuWalk pgd vaddr level) := by
  simp only [Mmu.mmuWalk]
  split
  · next reached =>
      subst reached
      exact .arrives .top
  rename_i belowPgd
  have above : levelNumber level < 3 := by cases level <;> first | contradiction | decide
  rcases mmuEntry_cases m pgd (pgdIndex vaddr) with ⟨failed, missing, exhausted⟩ | ⟨pgdEntry, m₁, entry⟩
  · rw [failed]
    exact .stuck above .top missing exhausted
  rw [entry, Exec.ok_bind]
  have walks : Walks vaddr m pgd 2 (entryPaddr pgdEntry) m₁ := .down .top (by omega) entry
  dsimp only
  split
  · next reached =>
      subst reached
      exact .arrives walks
  rename_i belowPud
  have above : levelNumber level < 2 := by cases level <;> first | contradiction | decide
  split
  · next hits => exact .huge above (by decide) walks hits
  rename_i plain
  rcases mmuEntry_cases m₁ (entryPaddr pgdEntry)
    (pudIndex vaddr) with ⟨failed, missing, exhausted⟩ | ⟨pudEntry, m₂, entry⟩
  · rw [show pgdToPud pgdEntry = entryPaddr pgdEntry from rfl, failed]
    exact .stuck above walks missing exhausted
  rw [show pgdToPud pgdEntry = entryPaddr pgdEntry from rfl, entry, Exec.ok_bind]
  have walks : Walks vaddr m pgd 1 (entryPaddr pudEntry) m₂ :=
    .down walks (fun _ => Bool.eq_false_iff.mpr plain) entry
  dsimp only
  split
  · next reached =>
      subst reached
      exact .arrives walks
  rename_i belowPmd
  have bottom : level = .pte := by cases level <;> first | contradiction | rfl
  subst bottom
  split
  · next hits => exact .huge (by decide) (by decide) walks hits
  rename_i plain
  rcases mmuEntry_cases m₂ (entryPaddr pudEntry)
    (pmdIndex vaddr) with ⟨failed, missing, exhausted⟩ | ⟨pmdEntry, m₃, entry⟩
  · rw [show pudToPmd pudEntry = entryPaddr pudEntry from rfl, failed]
    exact .stuck (by decide) walks missing exhausted
  rw [show pudToPmd pudEntry = entryPaddr pudEntry from rfl, entry, Exec.ok_bind]
  exact .arrives (.down walks (fun _ => Bool.eq_false_iff.mpr plain) entry)

end Walk

theorem SameBlock.le {level level' vaddr vaddr' : Nat} (same : SameBlock level vaddr vaddr') (le : level ≤ level') :
    SameBlock level' vaddr vaddr' := by
  induction le with
  | refl => exact same
  | step _ ih => exact ih.up

theorem translateFrom_level {tables : Nat → Nat → Nat} {vaddr n t every any : Nat} {leaf : Leaf}
    (h : translateFrom tables vaddr n t every any = some leaf) : leaf.level ≤ n := by
  induction n generalizing t every any with
  | zero =>
      simp only [translateFrom] at h
      split at h
      · cases h
        exact Nat.le_refl 0
      · cases h
  | succ n ih =>
      simp only [translateFrom] at h
      split at h
      · split at h
        · cases h
          exact Nat.le_refl _
        · exact Nat.le_succ_of_le (ih h)
      · cases h

section Reached

variable {tables : Nat → Nat → Nat} {pgd vaddr n t : Nat}

theorem Reaches.absent (reaches : Reaches tables pgd vaddr n t)
    (missing : present (tables t (tableIndex n vaddr)) = false)
    {a : Nat} (same : SameBlock n vaddr a) : Paging.translate tables pgd a = none := by
  obtain ⟨every, any, walk⟩ :=
    (reaches.sameBlock fun k above bound => same.index (Nat.le_of_lt above) bound).translate
  rw [walk]
  refine translateFrom_empty ?_
  rw [← same.index (Nat.le_refl n) reaches.le]
  exact missing

theorem Reaches.level_le (reaches : Reaches tables pgd vaddr n t) {leaf : Leaf}
    (found : Paging.translate tables pgd vaddr = some leaf) : leaf.level ≤ n := by
  obtain ⟨every, any, walk⟩ := reaches.translate
  exact translateFrom_level (walk ▸ found)

theorem Reaches.largePage (reaches : Reaches tables pgd vaddr n t) (inner : n < 3) (positive : 0 < n)
    (here : present (tables t (tableIndex n vaddr)) = true) (big : large (tables t (tableIndex n vaddr)) = true) :
    ∃ leaf, Paging.translate tables pgd vaddr = some leaf ∧ leaf.level = n := by
  obtain ⟨every, any, walk⟩ := reaches.translate
  obtain ⟨n, rfl⟩ := Nat.exists_eq_add_of_lt positive
  rw [Nat.zero_add] at *
  have ends : translateFrom tables vaddr (n + 1) t every any = some ⟨tables t (tableIndex (n + 1) vaddr), n + 1,
      every &&& tables t (tableIndex (n + 1) vaddr), any ||| tables t (tableIndex (n + 1) vaddr)⟩ := by
    simp only [translateFrom]
    rw [if_pos here, big, decide_eq_true inner, Bool.true_and, if_pos rfl]
  exact ⟨_, walk.trans ends, rfl⟩

end Reached

section MapOne

variable {leaf : Place → Nat → Nat → Prop} {roles : Roles Nat Place} {m : Mmu} {pgd vaddr paddr : Nat}
  {size : PageKind} {opts : Pgprot}

/-- Either a walk finds all its tables, or the table where it ends is new. -/
theorem Typed.walks_fresh (typed : Typed (placeKinds leaf) roles m) (known : roles pgd = some ⟨false, 3, 0⟩) {n t : Nat}
    {m' : Mmu} (walks : Walks vaddr m pgd n t m') : m' = m ∨ ∀ i, m'.tables t i = 0 := by
  induction walks with
  | top => exact Or.inl rfl
  | @down n t e m₁ m₂ above plain entry ih =>
      obtain ⟨rfl, ⟨here, rfl⟩ | ⟨missing, allocated⟩⟩ := mmuEntry_ok entry
      · rcases ih with same | zero
        · exact Or.inl same
        · rw [zero] at here
          cases here
      · obtain ⟨roles₁, grows, reached, _⟩ := typed.walks_grows known above
        have role := grows.typed.reaches (grows.extended pgd _ known) reached
        obtain ⟨f, new, zero, _⟩ := grows.typed.allocTable_tables role allocated
        refine Or.inr fun i => ?_
        rw [new, f.tableEntry_paddr]
        exact zero i

/-- The ways of `mmu_map_one`. Only a walk through empty blocks allocates. -/
inductive MapEnds (m : Mmu) (pgd vaddr : Nat) (size : PageKind) (opts : Pgprot) : Exec Mmu → Prop where
  | stuck (few : m.pool.length < 3) (empty : ∀ a, SameBlock (levelOfPage size) vaddr a →
    translate m.tables pgd a = none) :
      MapEnds m pgd vaddr size opts (.error noFreeFrames)
  | huge {page : Leaf} (found : translate m.tables pgd vaddr = some page) (larger : levelOfPage size < page.level) :
      MapEnds m pgd vaddr size opts (.error existingHuge)
  | mapped {t : Nat} (strict : opts.allowOverwrite = false) (reaches : Reaches m.tables pgd vaddr (levelOfPage size) t)
      (here : present (m.tables t (tableIndex (levelOfPage size) vaddr)) = true) :
      MapEnds m pgd vaddr size opts (.error alreadyMapped)
  | done {m' : Mmu} (notLarger : ∀ page, translate m.tables pgd vaddr = some page → page.level ≤ levelOfPage size)
      (empty : opts.allowOverwrite = false →
        ∀ a, SameBlock (levelOfPage size) vaddr a → translate m.tables pgd a = none) :
      MapEnds m pgd vaddr size opts (.ok m')

theorem MapEnds.few {result : Exec Mmu} (ends : MapEnds m pgd vaddr size opts result)
    (stuck : result = .error noFreeFrames) : m.pool.length < 3 := by
  cases ends with
  | stuck few _ => exact few
  | huge _ _ => exact absurd (Except.error.inj stuck) (by decide)
  | mapped _ _ _ => exact absurd (Except.error.inj stuck) (by decide)
  | done _ _ => cases stuck

theorem Typed.mapOne_ends (typed : Typed (placeKinds leaf) roles m) (known : roles pgd = some ⟨false, 3, 0⟩) :
    MapEnds m pgd vaddr size opts (m.mmuMapOne pgd vaddr paddr size opts) := by
  have kept {n t : Nat} {m' : Mmu} (walks : Walks vaddr m pgd n t m') :
      Reaches m'.tables pgd vaddr n t ∧ ∀ a, translate m'.tables pgd a = translate m.tables pgd a := by
    obtain ⟨roles', _, reached, kept⟩ := typed.walks_grows known walks
    exact ⟨reached, kept⟩
  rw [Mmu.mmuMapOne]
  have ends := mmuWalk_ends m pgd vaddr (Mmu.levelOf size)
  change WalkEnds m pgd vaddr (levelOfPage size) _ at ends
  generalize m.mmuWalk pgd vaddr (Mmu.levelOf size) = result at ends
  cases ends with
  | @stuck n t m' above walks missing exhausted =>
      obtain ⟨reached, same⟩ := kept walks
      have taken := walks.pool
      rw [exhausted, List.length_nil] at taken
      refine .stuck (by omega) fun a inside => ?_
      rw [← same a]
      exact reached.absent missing (inside.le (Nat.le_of_lt above))
  | @huge n t m' above inner walks hits =>
      obtain ⟨reached, same⟩ := kept walks
      rw [Mmu.hitsHuge, Bool.and_eq_true] at hits
      obtain ⟨page, found, level⟩ := reached.largePage inner (by omega) hits.1 hits.2
      exact .huge ((same vaddr).symm.trans found) (by omega)
  | @arrives t m' walks =>
      obtain ⟨reached, same⟩ := kept walks
      simp only [Exec.ok_bind]
      split
      · next refused =>
          rw [Bool.and_eq_true, Bool.not_eq_true'] at refused
          rcases typed.walks_fresh known walks with rfl | zero
          · exact .mapped refused.2 reached refused.1
          · rw [zero] at refused
            cases refused.1
      · next allowed =>
          refine .done (fun page found => reached.level_le ((same vaddr).trans found)) fun strict a inside => ?_
          rw [strict, Bool.not_false, Bool.and_true, Bool.not_eq_true] at allowed
          rw [← same a]
          exact reached.absent allowed inside

/-- Every table below the top leads to a page. -/
def Dense (m : Mmu) (pgd : Nat) : Prop :=
  ∀ a, missingTables m.tables pgd a = 3 ∨
    ∃ b, (translate m.tables pgd b).isSome = true ∧ commonLevel a b ≤ missingTables m.tables pgd a

/-- In a dense tree an entry that is present has a page below it. -/
theorem Dense.page_below (dense : Dense m pgd) {n t : Nat} (bound : n ≤ 2) (reaches : Reaches m.tables pgd vaddr n t)
    (here : present (m.tables t (tableIndex n vaddr)) = true) :
    ∃ a, SameBlock n vaddr a ∧ (translate m.tables pgd a).isSome = true := by
  obtain ⟨every, any, walk⟩ := reaches.translate
  cases n with
  | zero =>
      refine ⟨vaddr, rfl, ?_⟩
      rw [walk]
      simp [translateFrom, here]
  | succ n =>
      cases big : large (m.tables t (tableIndex (n + 1) vaddr)) with
      | true =>
          obtain ⟨page, found, _⟩ := reaches.largePage (by omega) (Nat.succ_pos n) here big
          exact ⟨vaddr, rfl, by rw [found]; rfl⟩
      | false =>
          have down := Reaches.down reaches here (by rw [big, Bool.and_false])
          have few : missingTables m.tables pgd vaddr ≤ n := by
            rw [down.missing]
            exact missingFrom_le n _
          rcases dense vaddr with all | ⟨a, translated, near⟩
          · omega
          · exact ⟨a, (commonLevel_le (by omega) vaddr a).mp (by omega), translated⟩

theorem commonLevel_comm (a b : Nat) : commonLevel a b = commonLevel b a := by
  have swap (level : Nat) : SameBlock level a b ↔ SameBlock level b a := eq_comm
  simp only [commonLevel, swap]

theorem commonLevel_self (a : Nat) : commonLevel a a = 0 := if_pos rfl

/-- A page on empty addresses keeps the tree dense: the new tables lead to it. -/
theorem Typed.mapOne_dense (typed : Typed (placeKinds leaf) roles m) (known : roles pgd = some ⟨false, 3, 0⟩)
    (dense : Dense m pgd) {m' : Mmu} (h : m.mmuMapOne pgd vaddr paddr size opts = .ok m')
    (inside : ∀ a, SameBlock (levelOfPage size) vaddr a → (translate m'.tables pgd a).isSome = true)
    (outside : ∀ a, ¬ SameBlock (levelOfPage size) vaddr a → translate m'.tables pgd a = translate m.tables pgd a) :
    Dense m' pgd := by
  obtain ⟨table, m₁, walks, rfl⟩ := mmuMapOne_ok h
  obtain ⟨roles₁, grows, reached, _⟩ := typed.walks_grows known walks
  have known₁ := grows.extended pgd _ known
  have role := grows.typed.reaches known₁ reached
  have left := (typed.walks_missing known walks).2
  intro a
  by_cases same : SameBlock (levelOfPage size) vaddr a
  · exact Or.inr ⟨a, inside a same, by rw [commonLevel_self]; exact Nat.zero_le _⟩
  · have count : missingTables (m₁.setEntry table (tableIndex (levelOfPage size) vaddr)
        (Mmu.leafEntry paddr size opts)).tables pgd a =
          min (missingTables m.tables pgd a) (max (levelOfPage size) (commonLevel vaddr a)) :=
      (grows.typed.missing_setEntry known₁ role _ (Or.inr same)).trans (left a)
    change missingTables (m₁.setEntry table (tableIndex (levelOfPage size) vaddr) _).tables pgd a = 3 ∨
      ∃ b, _ ∧ _ ≤ missingTables (m₁.setEntry table (tableIndex (levelOfPage size) vaddr) _).tables pgd a
    rw [count]
    by_cases new : max (levelOfPage size) (commonLevel vaddr a) ≤ missingTables m.tables pgd a
    · refine Or.inr ⟨vaddr, inside vaddr rfl, ?_⟩
      rw [commonLevel_comm]
      omega
    · rcases dense a with all | ⟨b, translated, near⟩
      · exact Or.inl (by omega)
      · refine Or.inr ⟨b, ?_, by omega⟩
        by_cases covered : SameBlock (levelOfPage size) vaddr b
        · exact inside b covered
        · rw [outside b covered]
          exact translated

end MapOne

/-! Pages as items that are placed -/

def levelAt (pgd : Nat) (m : Mmu) (a : Nat) : Option Nat := (translate m.tables pgd a).map Leaf.level

/-- A page of a range whose virtual addresses are `base` above the physical ones. -/
structure MapPage where
  start : Nat
  size : PageKind
  deriving DecidableEq, Repr

namespace MapPage

def vaddr (base : Nat) (b : MapPage) : Nat := (b.start + base) % word64

def level (b : MapPage) : Nat := levelOfPage b.size

end MapPage

def placePage (opts : Pgprot) (pgd base : Nat) (m : Mmu) (b : MapPage) : Exec Mmu :=
  m.mmuMapOne pgd (b.vaddr base) b.start b.size opts

/-- Without `allow_overwrite` a page needs a block of addresses that are not translated. -/
def strictPages (base : Nat) : Placement Nat MapPage Nat where
  block b := SameBlock b.level (b.vaddr base)
  value := MapPage.level
  accepts c b := ∀ a, SameBlock b.level (b.vaddr base) a → c a = none

/-- With `allow_overwrite` a page may replace all but larger pages. -/
def overwritingPages (base : Nat) : Placement Nat MapPage Nat where
  block b := SameBlock b.level (b.vaddr base)
  value := MapPage.level
  accepts c b := ∀ l, c (b.vaddr base) = some l → l ≤ b.level

/-- A tree of tables in distinct frames that the allocator does not have. -/
def IsTree (pgd : Nat) (m : Mmu) : Prop :=
  ∃ roles, Typed (placeKinds fun _ _ _ => True) roles m ∧ roles pgd = some ⟨false, 3, 0⟩

section Placing

variable {opts : Pgprot} {pgd base : Nat}

theorem placePage_paints {m m' : Mmu} {b : MapPage} (tree : IsTree pgd m) (h : placePage opts pgd base m b = .ok m') :
    IsTree pgd m' ∧ levelAt pgd m' = (strictPages base).paint (levelAt pgd m) b ∧
      (∀ a, SameBlock b.level (b.vaddr base) a → (translate m'.tables pgd a).isSome = true) ∧
      ∀ a, ¬ SameBlock b.level (b.vaddr base) a → translate m'.tables pgd a = translate m.tables pgd a := by
  obtain ⟨roles, typed, known⟩ := tree
  obtain ⟨roles', grows, one⟩ := typed.mapOne (fun _ _ => True) known (fun _ _ => trivial) trivial h
  refine ⟨⟨roles', grows.typed, grows.extended pgd _ known⟩, ?_, fun a inside => ?_, fun a => (one a).2⟩
  · funext a
    by_cases inside : SameBlock b.level (b.vaddr base) a
    · obtain ⟨every, any, found⟩ := (one a).1 inside
      rw [Placement.paint_inside _ inside, levelAt, found]
      rfl
    · rw [Placement.paint_outside _ inside, levelAt, (one a).2 inside]
      rfl
  · obtain ⟨every, any, found⟩ := (one a).1 inside
    rw [found]
    rfl

theorem levelAt_eq_none {m : Mmu} {a : Nat} : levelAt pgd m a = none ↔ translate m.tables pgd a = none :=
  Option.map_eq_none_iff

theorem placePage_ends (opts : Pgprot) (base : Nat) {m : Mmu} (tree : IsTree pgd m) (b : MapPage) :
    MapEnds m pgd (b.vaddr base) b.size opts (placePage opts pgd base m b) := by
  obtain ⟨roles, typed, known⟩ := tree
  exact typed.mapOne_ends known

theorem placePage_refused {m : Mmu} {b : MapPage} {accepts : Prop} (tree : IsTree pgd m) (refuses : ¬ accepts)
    (empty : (∀ a, SameBlock b.level (b.vaddr base) a → translate m.tables pgd a = none) → accepts)
    (done : ∀ m', placePage opts pgd base m b = .ok m' → accepts) :
    ∃ e, placePage opts pgd base m b = .error e ∧ (e = existingHuge ∨ e = alreadyMapped) := by
  have ends := placePage_ends opts base tree b
  cases result : placePage opts pgd base m b with
  | error e =>
      rw [result] at ends
      cases ends with
      | stuck _ none => exact absurd (empty none) refuses
      | huge _ _ => exact ⟨_, rfl, Or.inl rfl⟩
      | mapped _ _ _ => exact ⟨_, rfl, Or.inr rfl⟩
  | ok m' => exact absurd (done m' result) refuses

theorem strictPages_runs (strict : opts.allowOverwrite = false) :
    (strictPages base).Runs (placePage opts pgd base) (fun m => IsTree pgd m ∧ Dense m pgd) (levelAt pgd)
      noFreeFrames fun e => e = existingHuge ∨ e = alreadyMapped := by
  constructor
  · rintro m b ⟨tree, dense⟩ accepts
    have empty (a : Nat) (inside : SameBlock b.level (b.vaddr base) a) : translate m.tables pgd a = none :=
      levelAt_eq_none.mp (accepts a inside)
    have ends := placePage_ends opts base tree b
    cases result : placePage opts pgd base m b with
    | error e =>
        rw [result] at ends
        cases ends with
        | stuck _ _ => exact Or.inl rfl
        | huge found _ => cases (empty _ rfl).symm.trans found
        | mapped _ reaches here =>
            obtain ⟨a, inside, translated⟩ := dense.page_below (levelOfPage_le b.size) reaches here
            rw [empty a inside] at translated
            cases translated
    | ok m' =>
        obtain ⟨tree', painted, inside, outside⟩ := placePage_paints tree result
        obtain ⟨roles, typed, known⟩ := tree
        exact Or.inr ⟨m', rfl, ⟨tree', typed.mapOne_dense known dense result inside outside⟩, painted⟩
  · rintro m b ⟨tree, dense⟩ refuses
    refine placePage_refused tree refuses (fun empty a inside => levelAt_eq_none.mpr (empty a inside)) ?_
    intro m' result a inside
    cases result ▸ placePage_ends opts base tree b with
    | done _ empty => exact levelAt_eq_none.mpr (empty strict a inside)

theorem overwritingPages_runs (overwrites : opts.allowOverwrite = true) :
    (overwritingPages base).Runs (placePage opts pgd base) (IsTree pgd) (levelAt pgd) noFreeFrames
      fun e => e = existingHuge ∨ e = alreadyMapped := by
  constructor
  · intro m b tree accepts
    have ends := placePage_ends opts base tree b
    cases result : placePage opts pgd base m b with
    | error e =>
        rw [result] at ends
        cases ends with
        | stuck _ _ => exact Or.inl rfl
        | huge found larger =>
            have small := accepts _ (congrArg (Option.map Leaf.level) found)
            exact absurd larger (Nat.not_lt.mpr small)
        | mapped strict _ _ => cases overwrites.symm.trans strict
    | ok m' =>
        obtain ⟨tree', painted, _⟩ := placePage_paints tree result
        exact Or.inr ⟨m', rfl, tree', painted⟩
  · intro m b tree refuses
    refine placePage_refused tree refuses (fun empty l found => ?_) ?_
    · cases (levelAt_eq_none.mpr (empty _ rfl)).symm.trans found
    · intro m' result l found
      obtain ⟨page, translated, rfl⟩ := Option.map_eq_some_iff.mp found
      cases result ▸ placePage_ends opts base tree b with
      | done notLarger _ => exact notLarger page translated

end Placing

end SnapOS.Paging
