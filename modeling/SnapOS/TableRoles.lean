/- Page tables whose frames have roles. The role of a table and an index determine the role of the table
below, so a walk never leaves the branch of its address. -/
import SnapOS.Lib.Roles
import SnapOS.Paging

namespace SnapOS.Paging
open SnapOS.Lib

/-- A system of roles: the role of the table an entry refers to, the tables that may hold large pages, and
what is known of the entries that map pages. -/
structure TableKinds (R : Type) where
  child : R → Nat → Option R
  mayBeLarge : R → Bool
  leaf : Roles Nat R → R → Nat → Nat → Prop
  leaf_mono : ∀ {old new : Roles Nat R} {role : R} {index entry : Nat}, old.Extends new →
    leaf old role index entry → leaf new role index entry

variable {R : Type} {kinds : TableKinds R}

namespace TableKinds

/-- An entry for a table. It forbids nothing: permissions are those of the pages. -/
structure RefersTo (roles : Roles Nat R) (c : R) (entry : Nat) : Prop where
  small : large entry = false
  allows : entry &&& (pageRw ||| pageUser) = pageRw ||| pageUser
  executable : entry &&& pageNoExecute = 0
  target : roles (entryPaddr entry) = some c

def IsLeaf (kinds : TableKinds R) (role : R) (index entry : Nat) : Prop :=
  kinds.mayBeLarge role = true ∧ large entry = true ∨ kinds.child role index = none

/-- An entry that is present refers to a table of the next role, or maps a page. -/
def Fits (kinds : TableKinds R) (roles : Roles Nat R) (role : R) (index entry : Nat) : Prop :=
  present entry = true →
    (∃ c, kinds.child role index = some c ∧ RefersTo roles c entry) ∨
      kinds.IsLeaf role index entry ∧ kinds.leaf roles role index entry

theorem Fits.mono {old new : Roles Nat R} {role : R} {index entry : Nat} (grown : old.Extends new)
    (fits : kinds.Fits old role index entry) : kinds.Fits new role index entry := by
  intro here
  rcases fits here with ⟨c, child, table⟩ | ⟨isLeaf, leaf⟩
  · exact Or.inl ⟨c, child, { table with target := grown _ c table.target }⟩
  · exact Or.inr ⟨isLeaf, kinds.leaf_mono grown leaf⟩

def rules (kinds : TableKinds R) : CellRules Nat Nat Nat R := ⟨kinds.Fits, Fits.mono⟩

end TableKinds

/-- Frames the allocator still has are in no table. -/
structure Typed (kinds : TableKinds R) (roles : Roles Nat R) (m : Mmu) : Prop where
  cells : WellTyped kinds.rules roles m.tables
  distinct : m.pool.Nodup
  unused : ∀ f ∈ m.pool, roles f.paddr = none

/-- A part of the code that writes only cells of `touched` and frames from the pool. -/
structure Grows (kinds : TableKinds R) (touched : R → Nat → Prop) (roles : Roles Nat R) (m : Mmu)
    (roles' : Roles Nat R) (m' : Mmu) : Prop where
  typed : Typed kinds roles' m'
  extended : roles.Extends roles'
  fresh : ∀ a, roles a = none → (∀ f ∈ m.pool, f.paddr ≠ a) → roles' a = none
  pool : ∀ f ∈ m'.pool, f ∈ m.pool
  changed : ChangedWithin touched roles m.tables m'.tables
  cpu : m'.cpuHas1gPages = m.cpuHas1gPages

variable {touched : R → Nat → Prop} {roles roles' roles'' : Roles Nat R} {m m' m'' : Mmu}

theorem Grows.refl (typed : Typed kinds roles m) : Grows kinds touched roles m roles m :=
  ⟨typed, fun _ _ h => h, fun _ free _ => free, fun _ member => member, fun _ _ _ _ _ => rfl, rfl⟩

theorem Grows.trans (first : Grows kinds touched roles m roles' m')
    (later : Grows kinds touched roles' m' roles'' m'') : Grows kinds touched roles m roles'' m'' := by
  refine ⟨later.typed, first.extended.trans later.extended, ?_, fun f member => first.pool f (later.pool f member),
    first.changed.trans first.extended later.changed, later.cpu.trans first.cpu⟩
  intro a free unpooled
  exact later.fresh a (first.fresh a free unpooled) fun f member => unpooled f (first.pool f member)

theorem Grows.mono {touched' : R → Nat → Prop} (inside : ∀ r i, touched r i → touched' r i)
    (grows : Grows kinds touched roles m roles' m') : Grows kinds touched' roles m roles' m' :=
  ⟨grows.typed, grows.extended, grows.fresh, grows.pool,
    fun a r i used outside => grows.changed a r i used fun within => outside (inside r i within), grows.cpu⟩

theorem Typed.drop (typed : Typed kinds roles m) (n : Nat) : Typed kinds roles { m with pool := m.pool.drop n } :=
  ⟨typed.cells, typed.distinct.sublist (List.drop_sublist n m.pool),
    fun f member => typed.unused f (List.mem_of_mem_drop member)⟩

theorem Frame.ext_paddr {f g : Frame} (same : f.paddr = g.paddr) : f = g := by
  cases f
  cases g
  cases same
  rfl

theorem Typed.next (typed : Typed kinds roles m) {f : Frame} {rest : List Frame} (pool : m.pool = f :: rest) :
    Typed kinds roles { m with pool := rest } ∧ roles f.paddr = none ∧ ∀ g ∈ rest, g.paddr ≠ f.paddr := by
  have distinct := typed.distinct
  rw [pool, List.nodup_cons] at distinct
  refine ⟨⟨typed.cells, distinct.2, fun g member => ?_⟩, ?_, fun g member same => ?_⟩
  · exact typed.unused g (pool ▸ List.mem_cons_of_mem f member)
  · exact typed.unused f (pool ▸ List.mem_cons_self)
  · exact distinct.1 (Frame.ext_paddr same ▸ member)

theorem Typed.fillFrame (typed : Typed kinds roles m) {a : Nat} (free : roles a = none) (words : Nat → Nat) :
    Typed kinds roles (m.fillFrame a words) := by
  refine ⟨typed.cells.congr fun b r h => ?_, typed.distinct, typed.unused⟩
  have apart : b ≠ a := by
    rintro rfl
    cases free.symm.trans h
  exact Function.update_of_ne apart words m.tables

theorem Typed.assign (typed : Typed kinds roles m) {a : Nat} {role : R} (free : roles a = none)
    (unpooled : ∀ f ∈ m.pool, f.paddr ≠ a)
    (fits : ∀ i, kinds.Fits (Function.update roles a (some role)) role i (m.tables a i)) :
    Typed kinds (Function.update roles a (some role)) m := by
  refine ⟨typed.cells.assign free fits, typed.distinct, fun f member => ?_⟩
  rw [Function.update_of_ne (unpooled f member)]
  exact typed.unused f member

theorem Typed.emptyTable (typed : Typed kinds roles m) {a : Nat} (free : roles a = none)
    (unpooled : ∀ f ∈ m.pool, f.paddr ≠ a) (role : R) :
    Typed kinds (Function.update roles a (some role)) (m.fillFrame a fun _ => 0) := by
  refine (typed.fillFrame free fun _ => 0).assign free unpooled fun i here => ?_
  simp only [Mmu.fillFrame, Function.update_self] at here
  cases here

theorem Typed.setEntry (typed : Typed kinds roles m) {t i e : Nat} {role : R} (known : roles t = some role)
    (fits : kinds.Fits roles role i e) : Typed kinds roles (m.setEntry t i e) :=
  ⟨typed.cells.write known fits, typed.distinct, typed.unused⟩

theorem Grows.setEntry (typed : Typed kinds roles m) {t i e : Nat} {role : R} (known : roles t = some role)
    (fits : kinds.Fits roles role i e) (inside : touched role i) :
    Grows kinds touched roles m roles (m.setEntry t i e) :=
  ⟨typed.setEntry known fits, fun _ _ h => h, fun _ free _ => free, fun _ member => member,
    changedWithin_write e known inside, rfl⟩

section Descent

variable {t i e : Nat} {role c : R}

/-- An allocated table is a frame of the pool, filled with zeros, behind the given entry. -/
theorem mmuAllocTable_ok (h : m.mmuAllocTable t i = .ok m') :
    ∃ f rest, m.pool = f :: rest ∧
      m' = (Mmu.fillFrame { m with pool := rest } f.paddr fun _ => 0).setEntry t i f.tableEntry := by
  cases pool : m.pool with
  | nil =>
      simp only [Mmu.mmuAllocTable, Mmu.pmmCurrentAllocFrame, pool] at h
      cases h
  | cons f rest =>
      simp only [Mmu.mmuAllocTable, Mmu.pmmCurrentAllocFrame, pool, Except.ok.injEq] at h
      exact ⟨f, rest, rfl, h.symm⟩

theorem Frame.refersTo (f : Frame) (target : roles f.paddr = some c) :
    TableKinds.RefersTo roles c f.tableEntry :=
  ⟨f.tableEntry_large, f.tableEntry_flags.1, f.tableEntry_flags.2, by rw [f.tableEntry_paddr]; exact target⟩

theorem Typed.mmuAllocTable (typed : Typed kinds roles m) (known : roles t = some role)
    (child : kinds.child role i = some c) (inside : touched role i) (h : m.mmuAllocTable t i = .ok m') :
    ∃ roles', Grows kinds touched roles m roles' m' ∧ roles' (entryPaddr (m'.tables t i)) = some c := by
  obtain ⟨f, rest, pool, rfl⟩ := mmuAllocTable_ok h
  obtain ⟨taken, free, unpooled⟩ := typed.next pool
  have grown := Roles.extends_update free c
  have here : Function.update roles f.paddr (some c) f.paddr = some c := Function.update_self ..
  have assigned := taken.emptyTable free unpooled c
  refine ⟨_, ⟨assigned.setEntry (grown t role known) fun _ =>
    Or.inl ⟨c, child, f.refersTo here⟩, grown, ?_, ?_, ?_, rfl⟩, ?_⟩
  · intro a unused others
    have other : a ≠ f.paddr := fun same => others f (pool ▸ List.mem_cons_self) same.symm
    rw [Function.update_of_ne other]
    exact unused
  · exact fun g member => pool ▸ List.mem_cons_of_mem f member
  · intro b r j used outside
    have other : b ≠ f.paddr := by
      rintro rfl
      cases free.symm.trans used
    refine (changedWithin_write f.tableEntry known inside b r j used outside).trans ?_
    exact congrFun (Function.update_of_ne other _ m.tables) j
  · simp only [Mmu.setEntry, Function.update_self, f.tableEntry_paddr]

theorem Typed.allocTable_tables (typed : Typed kinds roles m) (known : roles t = some role)
    (h : m.mmuAllocTable t i = .ok m') :
    ∃ f : Frame, m'.tables t i = f.tableEntry ∧ (∀ j, m'.tables f.paddr j = 0) ∧
      ∀ {a j : Nat} {r : R}, roles a = some r → ¬ (a = t ∧ j = i) → m'.tables a j = m.tables a j := by
  obtain ⟨f, rest, pool, rfl⟩ := mmuAllocTable_ok h
  have free := (typed.next pool).2.1
  have apart : ∀ {a : Nat} {r : R}, roles a = some r → a ≠ f.paddr := by
    rintro a r used rfl
    cases free.symm.trans used
  refine ⟨f, ?_, fun j => ?_, fun {a j r} used other => ?_⟩
  · simp only [Mmu.setEntry, Function.update_self]
  · simp only [Mmu.setEntry, Function.update_of_ne (apart known).symm, Mmu.fillFrame, Function.update_self]
  · by_cases here : a = t
    · subst here
      have cell : j ≠ i := fun same => other ⟨rfl, same⟩
      simp only [Mmu.setEntry, Mmu.fillFrame, Function.update_self, Function.update_of_ne cell,
        Function.update_of_ne (apart used)]
    · simp only [Mmu.setEntry, Mmu.fillFrame, Function.update_of_ne here, Function.update_of_ne (apart used)]

/-- An entry that is no large page leads to a table of the next role. -/
theorem Typed.follow (typed : Typed kinds roles m) (known : roles t = some role)
    (child : kinds.child role i = some c) (here : present (m.tables t i) = true)
    (plain : kinds.mayBeLarge role = true → large (m.tables t i) = false) :
    TableKinds.RefersTo roles c (m.tables t i) := by
  rcases typed.cells t role i known here with ⟨c', child', target⟩ | ⟨⟨may, big⟩ | last, _⟩
  · cases child.symm.trans child'
    exact target
  · cases (plain may).symm.trans big
  · cases child.symm.trans last

theorem mmuEntry_ok (h : m.mmuEntry t i = .ok (e, m')) :
    e = m'.tables t i ∧
      (present (m.tables t i) = true ∧ m' = m ∨ present (m.tables t i) = false ∧ m.mmuAllocTable t i = .ok m') := by
  simp only [Mmu.mmuEntry] at h
  split at h
  · next here =>
      cases h
      exact ⟨rfl, Or.inl ⟨here, rfl⟩⟩
  · next missing =>
      obtain ⟨m₁, allocated, result⟩ := Exec.bind_eq_ok.mp h
      cases result
      exact ⟨rfl, Or.inr ⟨Bool.eq_false_iff.mpr missing, allocated⟩⟩

theorem Typed.mmuEntry (typed : Typed kinds roles m) (known : roles t = some role)
    (child : kinds.child role i = some c) (plain : kinds.mayBeLarge role = true → m.hitsHuge t i = false)
    (inside : touched role i) (h : m.mmuEntry t i = .ok (e, m')) :
    ∃ roles', Grows kinds touched roles m roles' m' ∧ roles' (entryPaddr e) = some c := by
  obtain ⟨rfl, ⟨here, rfl⟩ | ⟨_, allocated⟩⟩ := mmuEntry_ok h
  · have table := typed.follow known child here fun may => by
      have small := plain may
      rwa [Mmu.hitsHuge, here, Bool.true_and] at small
    exact ⟨roles, Grows.refl typed, table.target⟩
  · exact typed.mmuAllocTable known child inside allocated

end Descent

def levelNumber : MmuLevel → Nat
  | .pgd => 3
  | .pud => 2
  | .pmd => 1
  | .pte => 0

/-- The tables a walk goes through, with the memory as it is when the walk is there. -/
inductive Walks (vaddr : Nat) (m : Mmu) (pgd : Nat) : Nat → Nat → Mmu → Prop where
  | top : Walks vaddr m pgd 3 pgd m
  | down {n t e : Nat} {m₁ m₂ : Mmu} (above : Walks vaddr m pgd (n + 1) t m₁)
      (plain : n + 1 < 3 → m₁.hitsHuge t (tableIndex (n + 1) vaddr) = false)
      (entry : m₁.mmuEntry t (tableIndex (n + 1) vaddr) = .ok (e, m₂)) : Walks vaddr m pgd n (entryPaddr e) m₂

/-- A walk that does not hit a large page ends in a table of its level. -/
theorem mmuWalk_walks {pgd vaddr : Nat} {level : MmuLevel} {table index : Nat}
    (h : m.mmuWalk pgd vaddr level = .ok (some (table, index), m')) :
    Walks vaddr m pgd (levelNumber level) table m' ∧ index = tableIndex (levelNumber level) vaddr := by
  simp only [Mmu.mmuWalk] at h
  split at h
  · next reached =>
      cases h
      subst reached
      exact ⟨.top, rfl⟩
  obtain ⟨⟨pgdEntry, m₁⟩, entry, h⟩ := Exec.bind_eq_ok.mp h
  have walks : Walks vaddr m pgd 2 (entryPaddr pgdEntry) m₁ := .down .top (by omega) entry
  dsimp only at h
  split at h
  · next reached =>
      cases h
      subst reached
      exact ⟨walks, rfl⟩
  split at h
  · cases h
  rename_i plain
  obtain ⟨⟨pudEntry, m₂⟩, entry, h⟩ := Exec.bind_eq_ok.mp h
  have walks : Walks vaddr m pgd 1 (entryPaddr pudEntry) m₂ :=
    .down walks (fun _ => Bool.eq_false_iff.mpr plain) entry
  dsimp only at h
  split at h
  · next reached =>
      cases h
      subst reached
      exact ⟨walks, rfl⟩
  split at h
  · cases h
  rename_i plain
  obtain ⟨⟨pmdEntry, m₃⟩, entry, h⟩ := Exec.bind_eq_ok.mp h
  have walks : Walks vaddr m pgd 0 (entryPaddr pmdEntry) m₃ :=
    .down walks (fun _ => Bool.eq_false_iff.mpr plain) entry
  cases h
  cases level with
  | pgd => contradiction
  | pud => contradiction
  | pmd => contradiction
  | pte => exact ⟨walks, rfl⟩

/-- `mmu_map_one` either panics or writes the entry its walk found. -/
theorem mmuMapOne_ok {pgd vaddr paddr : Nat} {size : PageKind} {opts : Pgprot}
    (h : m.mmuMapOne pgd vaddr paddr size opts = .ok m') :
    ∃ table m₁, Walks vaddr m pgd (levelNumber (Mmu.levelOf size)) table m₁ ∧
      m' = m₁.setEntry table (tableIndex (levelNumber (Mmu.levelOf size)) vaddr) (Mmu.leafEntry paddr size opts) := by
  simp only [Mmu.mmuMapOne] at h
  obtain ⟨⟨found, m₁⟩, walked, h⟩ := Exec.bind_eq_ok.mp h
  cases found with
  | none => cases h
  | some place =>
      obtain ⟨walks, index⟩ := mmuWalk_walks walked
      dsimp only at h
      rw [index] at h
      split at h
      · cases h
      · cases h
        exact ⟨place.1, m₁, walks, rfl⟩

theorem mmuMapRange_ok {pgd vaddr paddr len : Nat} {opts : Pgprot}
    (h : m.mmuMapRange pgd vaddr paddr len opts = .ok m') :
    (vaddr % pageSize = 0 ∧ paddr % pageSize = 0 ∧ len % pageSize = 0) ∧
      Mmu.mmuMapLoop opts pgd m vaddr paddr len = .ok m' := by
  simp only [Mmu.mmuMapRange] at h
  split at h
  · cases h
  rename_i addresses
  split at h
  · cases h
  rename_i length
  simp only [isPageAlignedTo, Bool.or_eq_true, Bool.not_eq_true', decide_eq_false_iff_not, not_or, not_not]
    at addresses length
  exact ⟨⟨addresses.1, addresses.2, length⟩, h⟩

theorem mmuMapRange_page {pgd vaddr paddr : Nat} {opts : Pgprot}
    (h : m.mmuMapRange pgd vaddr paddr pageSize opts = .ok m') :
    m.mmuMapOne pgd vaddr paddr .page4k opts = .ok m' := by
  have small : m.pageKind vaddr paddr pageSize = .page4k := by
    have huge : ¬ pageSize1g ≤ pageSize := by decide
    have big : ¬ pageSize2m ≤ pageSize := by decide
    simp [Mmu.pageKind, huge, big]
  have loop := (mmuMapRange_ok h).2
  rw [Mmu.mmuMapLoop, if_pos (by decide), small] at loop
  obtain ⟨m₁, one, rest⟩ := Exec.bind_eq_ok.mp loop
  rw [Mmu.mmuMapLoop, if_neg (by decide)] at rest
  cases rest
  exact one

def levelOfPage (size : PageKind) : Nat := levelNumber (Mmu.levelOf size)

theorem levelOfPage_le (size : PageKind) : levelOfPage size ≤ 2 := by
  cases size <;> decide

/-- The roles of the tables on the way of an address. -/
structure Branch (kinds : TableKinds R) (vaddr : Nat) where
  role : Nat → R
  top : kinds.mayBeLarge (role 3) = false
  down : ∀ n < 3, kinds.child (role (n + 1)) (tableIndex (n + 1) vaddr) = some (role n)
  last : ∀ i, kinds.child (role 0) i = none

section Branch

variable {vaddr pgd : Nat} {b : Branch kinds vaddr}

theorem Walks.le {n t : Nat} (walks : Walks vaddr m pgd n t m') : n ≤ 3 := by
  induction walks with
  | top => exact Nat.le_refl 3
  | down _ _ _ ih => omega

/-- Only the top table is read without a look at `_PAGE_PS`, and it has no large pages. -/
theorem Branch.plain (b : Branch kinds vaddr) {n : Nat} (inner : n < 3) {small : Bool}
    (plain : n + 1 < 3 → small = false) (may : kinds.mayBeLarge (b.role (n + 1)) = true) : small = false := by
  by_cases top : n = 2
  · subst top
    cases b.top.symm.trans may
  · exact plain (by omega)

theorem Walks.top_eq {t : Nat} (walks : Walks vaddr m pgd 3 t m') : t = pgd ∧ m' = m := by
  cases walks with
  | top => exact ⟨rfl, rfl⟩
  | down above _ _ => exact absurd above.le (by decide)

/-- A walk stays on its branch. The entry of the top table is written only if it was not present. -/
theorem Typed.walks (typed : Typed kinds roles m) (known : roles pgd = some (b.role 3))
    (top : present (m.tables pgd (tableIndex 3 vaddr)) = true ∨ touched (b.role 3) (tableIndex 3 vaddr))
    (inside : ∀ n < 3, touched (b.role n) (tableIndex n vaddr)) {n t : Nat} (walks : Walks vaddr m pgd n t m') :
    ∃ roles', Grows kinds touched roles m roles' m' ∧ roles' t = some (b.role n) := by
  induction walks with
  | top => exact ⟨roles, Grows.refl typed, known⟩
  | @down n t e m₁ m₂ above plain entry ih =>
      obtain ⟨roles₁, grows, found⟩ := ih
      have inner := above.le
      have small := b.plain inner plain
      by_cases upper : n = 2
      · subst upper
        obtain ⟨rfl, rfl⟩ := above.top_eq
        rcases top with here | inside
        · obtain ⟨rfl, ⟨_, rfl⟩ | ⟨missing, _⟩⟩ := mmuEntry_ok entry
          · have table := grows.typed.follow found (b.down 2 inner) here fun may => nomatch b.top.symm.trans may
            exact ⟨roles₁, grows, table.target⟩
          · cases here.symm.trans missing
        · obtain ⟨roles₂, step, target⟩ := grows.typed.mmuEntry found (b.down 2 inner) small inside entry
          exact ⟨roles₂, grows.trans step, target⟩
      · obtain ⟨roles₂, step, target⟩ :=
          grows.typed.mmuEntry found (b.down n inner) small (inside (n + 1) (by omega)) entry
        exact ⟨roles₂, grows.trans step, target⟩

/-- A translation reads only the tables of its branch. -/
theorem Typed.translateFrom_congr (typed : Typed kinds roles m) {tables : Nat → Nat → Nat}
    (same : ∀ n t, n ≤ 3 → roles t = some (b.role n) → tables t (tableIndex n vaddr) = m.tables t (tableIndex n vaddr))
    {n t every any : Nat} (bound : n ≤ 3) (known : roles t = some (b.role n)) :
    translateFrom tables vaddr n t every any = translateFrom m.tables vaddr n t every any := by
  induction n generalizing t every any with
  | zero =>
      simp only [translateFrom]
      rw [same 0 t bound known]
  | succ n ih =>
      simp only [translateFrom]
      rw [same (n + 1) t bound known]
      split
      · next here =>
          split
          · rfl
          · next notLeaf =>
              have table := typed.follow known (b.down n bound) here
                (b.plain bound fun inner => by simpa [inner] using notLeaf)
              exact ih (by omega) table.target
      · rfl

theorem Typed.translate_congr (typed : Typed kinds roles m) (known : roles pgd = some (b.role 3))
    {tables : Nat → Nat → Nat}
    (same : ∀ n t, n ≤ 3 → roles t = some (b.role n) →
      tables t (tableIndex n vaddr) = m.tables t (tableIndex n vaddr)) :
    translate tables pgd vaddr = translate m.tables pgd vaddr :=
  typed.translateFrom_congr same (Nat.le_refl 3) known

theorem translateFrom_empty {tables : Nat → Nat → Nat} {n t every any : Nat}
    (empty : present (tables t (tableIndex n vaddr)) = false) :
    translateFrom tables vaddr n t every any = none := by
  cases n <;> simp [translateFrom, empty]

/-- An allocated table is empty: no address is translated in another way. -/
theorem Typed.translate_alloc (typed : Typed kinds roles m) (root : roles pgd = some (b.role 3)) {t i : Nat}
    {role c : R} (known : roles t = some role) (child : kinds.child role i = some c)
    (missing : present (m.tables t i) = false) (h : m.mmuAllocTable t i = .ok m') :
    translate m'.tables pgd vaddr = translate m.tables pgd vaddr := by
  obtain ⟨f, new, zero, elsewhere⟩ := typed.allocTable_tables known h
  suffices keeps : ∀ n a every any, n ≤ 3 → roles a = some (b.role n) →
      translateFrom m'.tables vaddr n a every any = translateFrom m.tables vaddr n a every any from
    keeps 3 pgd _ _ (Nat.le_refl 3) root
  intro n
  induction n with
  | zero =>
      intro a every any _ used
      have other : ¬ (a = t ∧ tableIndex 0 vaddr = i) := by
        rintro ⟨rfl, rfl⟩
        cases used.symm.trans known
        cases (b.last _).symm.trans child
      simp only [translateFrom]
      rw [elsewhere used other]
  | succ n ih =>
      intro a every any bound used
      by_cases here : a = t ∧ tableIndex (n + 1) vaddr = i
      · obtain ⟨rfl, rfl⟩ := here
        have empty : present (m'.tables f.paddr (tableIndex n vaddr)) = false := by
          rw [zero]
          rfl
        rw [translateFrom_empty missing]
        simp only [translateFrom]
        rw [new, f.tableEntry_large, f.tableEntry_paddr, translateFrom_empty empty]
        simp
      · simp only [translateFrom]
        rw [elsewhere used here]
        split
        · next found =>
            split
            · rfl
            · next notLeaf =>
                have table := typed.follow used (b.down n bound) found
                  (b.plain bound fun inner => by simpa [inner] using notLeaf)
                exact ih _ _ _ (by omega) table.target
        · rfl

def flagMask : Nat := pageRw ||| pageUser ||| pageNoExecute ||| (pageWriteThrough ||| pageCacheDisable)

/-- What is known of the entry that maps an address. Tables allow everything, so the permissions are those
of that entry. -/
structure LeafAt (roles : Roles Nat R) (m : Mmu) (b : Branch kinds vaddr) (leaf : Leaf) : Prop where
  bound : leaf.level ≤ 3
  entry : ∃ t, roles t = some (b.role leaf.level) ∧ leaf.entry = m.tables t (tableIndex leaf.level vaddr)
  isLeaf : kinds.IsLeaf (b.role leaf.level) (tableIndex leaf.level vaddr) leaf.entry
  known : kinds.leaf roles (b.role leaf.level) (tableIndex leaf.level vaddr) leaf.entry
  flags : leaf.flags = leaf.entry &&& flagMask

theorem Leaf.flags_eq {every any : Nat} (allowed : every &&& (pageRw ||| pageUser) = pageRw ||| pageUser)
    (executable : any &&& pageNoExecute = 0) (entry level : Nat) :
    Leaf.flags ⟨entry, level, every &&& entry, any ||| entry⟩ = entry &&& flagMask := by
  have all : every &&& entry &&& (pageRw ||| pageUser) = entry &&& (pageRw ||| pageUser) := by
    rw [Nat.and_comm every entry, Nat.and_assoc, allowed]
  have one : (any ||| entry) &&& pageNoExecute = entry &&& pageNoExecute := by
    rw [Nat.and_or_distrib_right, executable, Nat.zero_or]
  rw [Leaf.flags, all, one, ← Nat.and_or_distrib_left, ← Nat.and_or_distrib_left]
  rfl

theorem Typed.translateFrom_leaf (typed : Typed kinds roles m) {n t every any : Nat} (bound : n ≤ 3)
    (known : roles t = some (b.role n)) (allowed : every &&& (pageRw ||| pageUser) = pageRw ||| pageUser)
    (executable : any &&& pageNoExecute = 0) {leaf : Leaf}
    (h : translateFrom m.tables vaddr n t every any = some leaf) : LeafAt roles m b leaf := by
  induction n generalizing t every any with
  | zero =>
      simp only [translateFrom] at h
      split at h
      · next here =>
          cases h
          rcases typed.cells t (b.role 0) _ known here with ⟨c, child, _⟩ | ⟨isLeaf, kept⟩
          · cases (b.last _).symm.trans child
          · exact ⟨bound, ⟨t, known, rfl⟩, isLeaf, kept, Leaf.flags_eq allowed executable _ _⟩
      · cases h
  | succ n ih =>
      simp only [translateFrom] at h
      split at h
      · next here =>
          split at h
          · next isLarge =>
              cases h
              rcases typed.cells t (b.role (n + 1)) _ known here with ⟨c, _, table⟩ | ⟨isLeaf, kept⟩
              · rw [table.small, Bool.and_false] at isLarge
                cases isLarge
              · exact ⟨bound, ⟨t, known, rfl⟩, isLeaf, kept, Leaf.flags_eq allowed executable _ _⟩
          · next notLeaf =>
              have table := typed.follow known (b.down n bound) here
                (b.plain bound fun inner => by simpa [inner] using notLeaf)
              refine ih (by omega) table.target ?_ ?_ h
              · rw [Nat.and_assoc, table.allows, allowed]
              · rw [Nat.and_or_distrib_right, executable, table.executable, Nat.or_self]
      · cases h

theorem Typed.translate_leaf (typed : Typed kinds roles m) (known : roles pgd = some (b.role 3)) {leaf : Leaf}
    (h : translate m.tables pgd vaddr = some leaf) : LeafAt roles m b leaf :=
  typed.translateFrom_leaf (Nat.le_refl 3) known (by decide) (by decide) h

end Branch

end SnapOS.Paging
