/- How many frames the mapping of small pages takes: the tables that are missing on the way of an address, and what
is left of them after a page was mapped. -/
import SnapOS.MapRange

namespace SnapOS.Paging
open SnapOS.Lib

def missingFrom (tables : Nat → Nat → Nat) (vaddr : Nat) : Nat → Nat → Nat
  | 0, _ => 0
  | n + 1, table =>
      let entry := tables table (tableIndex (n + 1) vaddr)
      if present entry then
        if n + 1 < 3 && large entry then 0 else missingFrom tables vaddr n (entryPaddr entry)
      else n + 1

def missingTables (tables : Nat → Nat → Nat) (pgd vaddr : Nat) : Nat := missingFrom tables vaddr 3 pgd

instance (level vaddr vaddr' : Nat) : Decidable (SameBlock level vaddr vaddr') :=
  inferInstanceAs (Decidable (_ = _))

/-- The level of the lowest table that is on the way of both addresses. -/
def commonLevel (vaddr vaddr' : Nat) : Nat :=
  if SameBlock 1 vaddr vaddr' then 0
  else if SameBlock 2 vaddr vaddr' then 1
  else if SameBlock 3 vaddr vaddr' then 2
  else 3

theorem SameBlock.up {level vaddr vaddr' : Nat} (same : SameBlock level vaddr vaddr') :
    SameBlock (level + 1) vaddr vaddr' := by
  have wider : span (level + 1) = span level * 512 := by
    rw [span, span, show 12 + 9 * (level + 1) = 12 + 9 * level + 9 by omega, Nat.pow_add]
  rw [SameBlock, wider, ← Nat.div_div_eq_div_mul, ← Nat.div_div_eq_div_mul, same]

theorem commonLevel_le {n : Nat} (bound : n ≤ 2) (vaddr vaddr' : Nat) :
    commonLevel vaddr vaddr' ≤ n ↔ SameBlock (n + 1) vaddr vaddr' := by
  have second : SameBlock 1 vaddr vaddr' → SameBlock 2 vaddr vaddr' := SameBlock.up
  have third : SameBlock 2 vaddr vaddr' → SameBlock 3 vaddr vaddr' := SameBlock.up
  rw [commonLevel]
  obtain rfl | rfl | rfl : n = 0 ∨ n = 1 ∨ n = 2 := by omega
  · split_ifs <;> simp_all
  · split_ifs <;> simp_all
  · split_ifs <;> simp_all

section Missing

variable {leaf : Place → Nat → Nat → Prop} {roles : Roles Nat Place} {m m' : Mmu} {tables : Nat → Nat → Nat}
  {pgd vaddr vaddr' n t : Nat} {copy : Bool}

theorem Reaches.missing (reaches : Reaches tables pgd vaddr n t) :
    missingTables tables pgd vaddr = missingFrom tables vaddr n t := by
  induction reaches with
  | top => rfl
  | @down n t above here inner ih =>
      rw [ih]
      simp only [missingFrom]
      rw [if_pos here, if_neg (Bool.eq_false_iff.mp inner)]

theorem missingFrom_le (n t : Nat) : missingFrom tables vaddr n t ≤ n := by
  induction n generalizing t with
  | zero => exact le_rfl
  | succ n ih =>
      simp only [missingFrom]
      split_ifs
      · exact Nat.zero_le _
      · exact Nat.le_succ_of_le (ih _)
      · exact le_rfl

theorem Typed.missing_congr (typed : Typed (placeKinds leaf) roles m) (known : roles pgd = some ⟨copy, 3, 0⟩)
    (same : ∀ n t, 0 < n → n ≤ 3 → roles t = some (placeAt copy vaddr n) →
      tables t (tableIndex n vaddr) = m.tables t (tableIndex n vaddr)) :
    missingTables tables pgd vaddr = missingTables m.tables pgd vaddr := by
  suffices below : ∀ n t, n ≤ 3 → roles t = some (placeAt copy vaddr n) →
      missingFrom tables vaddr n t = missingFrom m.tables vaddr n t from
    below 3 pgd (Nat.le_refl 3) (by rw [placeAt_top]; exact known)
  intro n
  induction n with
  | zero => exact fun _ _ _ => rfl
  | succ n ih =>
      intro t bound used
      simp only [missingFrom]
      rw [same (n + 1) t (Nat.succ_pos n) bound used]
      split
      · next here =>
          split
          · rfl
          · next notLeaf =>
              have table := typed.follow used (placeAt_child copy vaddr n bound) here
                ((placeBranch leaf copy vaddr).plain bound fun inner => by simpa [inner] using notLeaf)
              exact ih _ (by omega) table.target
      · rfl

theorem Typed.missing_alloc (typed : Typed (placeKinds leaf) roles m) (known : roles pgd = some ⟨copy, 3, 0⟩)
    (reaches : Reaches m.tables pgd vaddr (n + 1) t) (absent : present (m.tables t (tableIndex (n + 1) vaddr)) = false)
    (h : m.mmuAllocTable t (tableIndex (n + 1) vaddr) = .ok m') (a : Nat) :
    if SameBlock (n + 1) vaddr a then missingTables m.tables pgd a = n + 1 ∧ missingTables m'.tables pgd a = n
    else missingTables m'.tables pgd a = missingTables m.tables pgd a := by
  have role := typed.reaches known reaches
  obtain ⟨f, new, zero, elsewhere⟩ := typed.allocTable_tables role h
  have bound := reaches.le
  split
  · next same =>
      have index := same.index le_rfl bound
      have reached := reaches.sameBlock fun k above bound => same.index (Nat.le_of_lt above) bound
      refine ⟨?_, ?_⟩
      · rw [reached.missing, missingFrom, ← index, if_neg (Bool.eq_false_iff.mp absent)]
      · have still : Reaches m'.tables pgd a (n + 1) t := by
          refine reached.changed typed known ?_
          intro b p i used outside
          refine elsewhere used ?_
          rintro ⟨rfl, rfl⟩
          cases used.symm.trans role
          exact outside rfl
        have down : Reaches m'.tables pgd a n (entryPaddr (m'.tables t (tableIndex (n + 1) a))) := by
          refine .down still ?_ ?_
          · rw [← index, new]
            exact f.tableEntry_present
          · rw [← index, new, f.tableEntry_large, Bool.and_false]
        rw [down.missing, ← index, new, f.tableEntry_paddr]
        cases n with
        | zero => rfl
        | succ n =>
            simp only [missingFrom, zero]
            rfl
  · next apart =>
      refine typed.missing_congr known fun k u positive bound used => elsewhere used ?_
      rintro ⟨rfl, index⟩
      obtain ⟨rfl, block⟩ := placeAt_inj bound (Option.some.inj (used.symm.trans role)) index
      exact apart block.symm

theorem Typed.walks_grows (typed : Typed (placeKinds leaf) roles m) (known : roles pgd = some ⟨copy, 3, 0⟩)
    (walks : Walks vaddr m pgd n t m') :
    ∃ roles', Grows (placeKinds leaf) (fun _ _ => True) roles m roles' m' ∧ Reaches m'.tables pgd vaddr n t ∧
      ∀ a, translate m'.tables pgd a = translate m.tables pgd a := by
  refine (typed.walks_reaches known ?_ walks).imp fun roles' reached => ⟨reached.1, reached.2.1, reached.2.2 known⟩
  exact fun _ _ => trivial

/-- What a walk has taken from the pool, and what is missing after it. -/
theorem Typed.walks_missing (typed : Typed (placeKinds leaf) roles m) (known : roles pgd = some ⟨copy, 3, 0⟩)
    (walks : Walks vaddr m pgd n t m') :
    m.pool.length + missingTables m'.tables pgd vaddr = m'.pool.length + missingTables m.tables pgd vaddr ∧
      ∀ a, missingTables m'.tables pgd a = min (missingTables m.tables pgd a) (max n (commonLevel vaddr a)) := by
  induction walks with
  | top =>
      refine ⟨rfl, fun a => ?_⟩
      have few : missingTables m.tables pgd a ≤ 3 := missingFrom_le 3 pgd
      omega
  | @down n t e m₁ m₂ above plain entry ih =>
      obtain ⟨taken, left⟩ := ih
      obtain ⟨roles₁, grows, reached, _⟩ := typed.walks_grows known above
      have known₁ := grows.extended pgd _ known
      have inner := above.le
      have level : ∀ a, commonLevel vaddr a ≤ n ↔ SameBlock (n + 1) vaddr a := commonLevel_le (by omega) vaddr
      obtain ⟨rfl, ⟨here, rfl⟩ | ⟨absent, allocated⟩⟩ := mmuEntry_ok entry
      · refine ⟨taken, fun a => ?_⟩
        rw [left a]
        by_cases same : SameBlock (n + 1) vaddr a
        · have small : (n + 1 < 3 && large (m₂.tables t (tableIndex (n + 1) vaddr))) = false := by
            by_cases inside : n + 1 < 3
            · have small := plain inside
              rw [Mmu.hitsHuge, here, Bool.true_and] at small
              rw [small, Bool.and_false]
            · simp [inside]
          have down : Reaches m₂.tables pgd vaddr n _ := .down reached here small
          have few : missingTables m₂.tables pgd a ≤ n := by
            rw [(down.sameBlock fun k above bound => same.index above bound).missing]
            exact missingFrom_le n _
          have here := left a
          have below := (level a).mpr same
          omega
        · have aboveLevel : ¬ commonLevel vaddr a ≤ n := fun le => same ((level a).mp le)
          omega
      · have shorter : m₁.pool.length = m₂.pool.length + 1 := by
          obtain ⟨f, rest, pool, rfl⟩ := mmuAllocTable_ok allocated
          rw [pool]
          rfl
        have one := fun a => grows.typed.missing_alloc known₁ reached absent allocated a
        refine ⟨?_, fun a => ?_⟩
        · have self := one vaddr
          rw [if_pos (show SameBlock (n + 1) vaddr vaddr from rfl)] at self
          omega
        · have step := one a
          have before := left a
          split at step
          · next same =>
              have below := (level a).mpr same
              omega
          · next apart =>
              have aboveLevel : ¬ commonLevel vaddr a ≤ n := fun le => apart ((level a).mp le)
              omega

/-- An entry of a level matters only for its own block, and not at all in the lowest table. -/
theorem Typed.missing_setEntry (typed : Typed (placeKinds leaf) roles m) (known : roles pgd = some ⟨copy, 3, 0⟩)
    (role : roles t = some (placeAt copy vaddr n)) (entry : Nat) {a : Nat} (apart : n = 0 ∨ ¬ SameBlock n vaddr a) :
    missingTables (m.setEntry t (tableIndex n vaddr) entry).tables pgd a = missingTables m.tables pgd a := by
  refine typed.missing_congr known fun k u positive bound used => ?_
  by_cases here : u = t
  · subst here
    have index : tableIndex k a ≠ tableIndex n vaddr := by
      intro same
      obtain ⟨rfl, block⟩ := placeAt_inj bound (Option.some.inj (used.symm.trans role)) same
      rcases apart with bottom | apart
      · omega
      · exact apart block.symm
    simp only [Mmu.setEntry, Function.update_self, Function.update_of_ne index]
  · simp only [Mmu.setEntry, Function.update_of_ne here]

/-- One small page takes the tables that are missing, and the addresses near it find them. -/
theorem Typed.mapOne_missing (typed : Typed (placeKinds leaf) roles m) (known : roles pgd = some ⟨copy, 3, 0⟩)
    {paddr : Nat} {opts : Pgprot} (h : m.mmuMapOne pgd vaddr paddr .page4k opts = .ok m') :
    m.pool.length = m'.pool.length + missingTables m.tables pgd vaddr ∧
      ∀ a, missingTables m'.tables pgd a = min (missingTables m.tables pgd a) (commonLevel vaddr a) := by
  obtain ⟨table, m₁, walks, rfl⟩ := mmuMapOne_ok h
  have small : levelNumber (Mmu.levelOf .page4k) = 0 := rfl
  rw [small] at walks
  obtain ⟨roles₁, grows, reached, _⟩ := typed.walks_grows known walks
  have known₁ := grows.extended pgd _ known
  have role := grows.typed.reaches known₁ reached
  obtain ⟨taken, left⟩ := typed.walks_missing known walks
  have done : missingTables m₁.tables pgd vaddr = 0 := reached.missing
  refine ⟨?_, fun a => ?_⟩
  · change m.pool.length = m₁.pool.length + _
    omega
  · have same := grows.typed.missing_setEntry known₁ role (Mmu.leafEntry paddr .page4k opts) (a := a) (Or.inl rfl)
    rw [small, same, left a, Nat.zero_max]

end Missing

/-! Frames for a range -/

/-- The levels whose block starts at an address: no table above them is new to it. -/
def startsLevel (vaddr : Nat) : Nat :=
  if vaddr % span 1 ≠ 0 then 0 else if vaddr % span 2 ≠ 0 then 1 else if vaddr % span 3 ≠ 0 then 2 else 3

/-- The frames for small pages in a row, tables included. Behind the first page only tables whose block starts there
can be missing: `limit` is the number of levels that count at the first page. -/
def framesFor (tables : Nat → Nat → Nat) (pgd : Nat) : Nat → Nat → Nat → Nat
  | _, _, 0 => 0
  | limit, vaddr, pages + 1 =>
      1 + min (missingTables tables pgd vaddr) limit +
        framesFor tables pgd (startsLevel (vaddr + pageSize)) (vaddr + pageSize) pages

section Frames

variable {tables tables' : Nat → Nat → Nat} {pgd vaddr : Nat}

theorem commonLevel_next (aligned : vaddr % pageSize = 0) (low : vaddr + pageSize < 2 ^ 47) :
    commonLevel vaddr (vaddr + pageSize) = startsLevel (vaddr + pageSize) := by
  simp only [commonLevel, startsLevel, SameBlock, addressBits, pageSize, span_one, span_two,
    show span 3 = 0x8000000000 from rfl] at *
  split_ifs <;> omega

theorem startsLevel_le_commonLevel {a : Nat} (aligned : a % pageSize = 0) (later : vaddr + pageSize < a)
    (low : a < 2 ^ 47) : startsLevel a ≤ commonLevel vaddr a := by
  simp only [commonLevel, startsLevel, SameBlock, addressBits, pageSize, span_one, span_two,
    show span 3 = 0x8000000000 from rfl] at *
  split_ifs <;> omega

/-- Tables that were allocated for a page are not counted again. -/
theorem framesFor_congr {limit limit' pages : Nat} (aligned : vaddr % pageSize = 0)
    (low : vaddr + pages * pageSize ≤ 2 ^ 47)
    (first : min (missingTables tables' pgd vaddr) limit' = min (missingTables tables pgd vaddr) limit)
    (later : ∀ a, a % pageSize = 0 → vaddr < a → a < 2 ^ 47 →
      min (missingTables tables' pgd a) (startsLevel a) = min (missingTables tables pgd a) (startsLevel a)) :
    framesFor tables' pgd limit' vaddr pages = framesFor tables pgd limit vaddr pages := by
  induction pages generalizing vaddr limit limit' with
  | zero => rfl
  | succ pages ih =>
      have wide : (pages + 1) * pageSize = pages * pageSize + pageSize := Nat.succ_mul _ _
      have next : (vaddr + pageSize) % pageSize = 0 := by rw [Nat.add_mod_right, aligned]
      have above : vaddr < vaddr + pageSize := Nat.lt_add_of_pos_right (by decide)
      simp only [framesFor]
      rw [first, Nat.add_left_cancel_iff]
      cases pages with
      | zero => rfl
      | succ pages =>
          refine ih next (by omega) (later _ next above ?_) fun a whole past => later a whole (Nat.lt_trans above past)
          have : (pages + 1) * pageSize = pages * pageSize + pageSize := Nat.succ_mul _ _
          simp only [pageSize] at *
          omega

theorem framesFor_next {pages : Nat} (aligned : vaddr % pageSize = 0) (low : vaddr + (pages + 1) * pageSize ≤ 2 ^ 47)
    (left : ∀ a, missingTables tables' pgd a = min (missingTables tables pgd a) (commonLevel vaddr a)) :
    framesFor tables' pgd 3 (vaddr + pageSize) pages =
      framesFor tables pgd (startsLevel (vaddr + pageSize)) (vaddr + pageSize) pages := by
  have next : (vaddr + pageSize) % pageSize = 0 := by rw [Nat.add_mod_right, aligned]
  have wide : (pages + 1) * pageSize = pages * pageSize + pageSize := Nat.succ_mul _ _
  cases pages with
  | zero => rfl
  | succ pages =>
      have inside : vaddr + pageSize < 2 ^ 47 := by
        have : (pages + 1) * pageSize = pages * pageSize + pageSize := Nat.succ_mul _ _
        simp only [pageSize] at *
        omega
      refine framesFor_congr next (by omega) ?_ fun a whole past below => ?_
      · have few : missingTables tables' pgd (vaddr + pageSize) ≤ 3 := missingFrom_le 3 pgd
        rw [Nat.min_eq_left few, left, commonLevel_next aligned inside]
      · have starts := startsLevel_le_commonLevel whole past below
        rw [left]
        omega

end Frames

end SnapOS.Paging
