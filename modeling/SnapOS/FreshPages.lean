/- vmm_alloc_range without overwriting, at any address: which translations it adds, and when it panics. -/
import SnapOS.AllocRange
import SnapOS.MapOutcome

namespace SnapOS.Paging
open SnapOS.Lib SnapOS.Mm

def Among (vaddr pages a : Nat) : Prop := ∃ k < pages, SameBlock 0 ((vaddr + k * pageSize) % word64) a

/-- What a call has done that has mapped `pages` pages: none of them was mapped before. -/
structure MapsFresh (m : Mmu) (pgd vaddr pages : Nat) (prot : Pgprot) (m' : Mmu) : Prop where
  fresh : ∀ a, Among vaddr pages a → translate m.tables pgd a = none
  mapped : ∀ a, Among vaddr pages a → ∃ (frame : Frame) (every any : Nat),
    translate m'.tables pgd a = some ⟨Mmu.leafEntry frame.paddr .page4k prot, 0, every, any⟩
  others : ∀ a, ¬ Among vaddr pages a → translate m'.tables pgd a = translate m.tables pgd a

section Pages

variable {vaddr pages a : Nat}

theorem not_among_zero : ¬ Among vaddr 0 a := by
  rintro ⟨k, before, _⟩
  omega

theorem add_mod_word64 (vaddr k : Nat) : (vaddr + pageSize + k * pageSize) % word64 =
    ((vaddr + pageSize) % word64 + k * pageSize) % word64 := (Nat.mod_add_mod _ _ _).symm

theorem among_succ : Among vaddr (pages + 1) a ↔
    SameBlock 0 (vaddr % word64) a ∨ Among ((vaddr + pageSize) % word64) pages a := by
  have next : ∀ k, (vaddr + (k + 1) * pageSize) % word64 = ((vaddr + pageSize) % word64 + k * pageSize) % word64 := by
    intro k
    rw [← add_mod_word64, Nat.succ_mul]
    congr 1
    omega
  constructor
  · rintro ⟨k, before, same⟩
    cases k with
    | zero => exact Or.inl (by rwa [Nat.zero_mul, Nat.add_zero] at same)
    | succ k => exact Or.inr ⟨k, Nat.lt_of_succ_lt_succ before, by rwa [next] at same⟩
  · rintro (same | ⟨k, before, same⟩)
    · exact ⟨0, Nat.succ_pos _, by rwa [Nat.zero_mul, Nat.add_zero]⟩
    · exact ⟨k + 1, Nat.succ_lt_succ before, by rwa [next]⟩

theorem Among.mono {pages' : Nat} (among : Among vaddr pages a) (le : pages ≤ pages') :
    Among vaddr pages' a := by
  obtain ⟨k, before, same⟩ := among
  exact ⟨k, Nat.lt_of_lt_of_le before le, same⟩

theorem SameBlock.translate_eq {a' : Nat} (same : SameBlock 0 a a') (tables : Nat → Nat → Nat) (pgd : Nat) :
    Paging.translate tables pgd a = Paging.translate tables pgd a' := by
  have index : ∀ k ≤ 3, tableIndex k a = tableIndex k a' := fun k bound => same.index (Nat.zero_le k) bound
  simp only [Paging.translate, translateFrom, index 3 (by decide), index (1 + 1) (by decide), index (0 + 1) (by decide),
    index 0 (by decide)]

end Pages

section Strict

variable {roles : Roles Nat Place} {m m' : Mmu} {pgd vaddr : Nat} {prot : Pgprot}

theorem MapsFresh.nothing : MapsFresh m pgd vaddr 0 prot m :=
  ⟨fun _ among => absurd among not_among_zero, fun _ among => absurd among not_among_zero, fun _ _ => rfl⟩

theorem MapsFresh.of_tables {m₁ m₂ : Mmu} {pages : Nat} (fresh : MapsFresh m pgd vaddr pages prot m₁)
    (tables : m₂.tables = m₁.tables) : MapsFresh m pgd vaddr pages prot m₂ :=
  ⟨fresh.fresh, fun a among => by rw [tables]; exact fresh.mapped a among,
    fun a outside => by rw [tables]; exact fresh.others a outside⟩

theorem MapsFresh.stays {pages a : Nat} {leaf : Leaf} (fresh : MapsFresh m pgd vaddr pages prot m')
    (found : translate m.tables pgd a = some leaf) : translate m'.tables pgd a = some leaf := by
  by_cases among : Among vaddr pages a
  · cases (fresh.fresh a among).symm.trans found
  · rw [fresh.others a among, found]

theorem MapsFresh.cons {m₁ : Mmu} {frame : Frame} {pages : Nat} (start : vaddr < word64)
    (empty : ∀ a, SameBlock 0 vaddr a → translate m.tables pgd a = none)
    (one : ∀ a, (SameBlock 0 vaddr a → ∃ every any, translate m₁.tables pgd a =
        some ⟨Mmu.leafEntry frame.paddr .page4k prot, 0, every, any⟩) ∧
      (¬ SameBlock 0 vaddr a → translate m₁.tables pgd a = translate m.tables pgd a))
    (rest : MapsFresh m₁ pgd ((vaddr + pageSize) % word64) pages prot m') :
    MapsFresh m pgd vaddr (pages + 1) prot m' := by
  have first : vaddr % word64 = vaddr := Nat.mod_eq_of_lt start
  -- A later page in the block of the first one would have been mapped already.
  have apart : ∀ a, SameBlock 0 vaddr a → ¬ Among ((vaddr + pageSize) % word64) pages a := by
    intro a same among
    obtain ⟨every, any, found⟩ := (one a).1 same
    cases (rest.fresh a among).symm.trans found
  refine ⟨fun a among => ?_, fun a among => ?_, fun a outside => ?_⟩
  · rcases among_succ.mp among with same | later
    · exact empty a (first ▸ same)
    · by_cases same : SameBlock 0 vaddr a
      · exact empty a same
      · rw [← (one a).2 same]
        exact rest.fresh a later
  · rcases among_succ.mp among with same | later
    · rw [first] at same
      obtain ⟨every, any, found⟩ := (one a).1 same
      exact ⟨frame, every, any, (rest.others a (apart a same)).trans found⟩
    · exact rest.mapped a later
  · obtain ⟨other, later⟩ := not_or.mp (among_succ.not.mp outside)
    rw [rest.others a later]
    exact (one a).2 (first ▸ other)

/-- Pages that have been mapped before the pool was empty stay mapped. -/
theorem Typed.allocLoop_fresh (typed : Typed anyPlace roles m) (known : roles pgd = some ⟨false, 3, 0⟩)
    (strict : prot.allowOverwrite = false) (start : vaddr < word64) {pages count : Nat} {res : Int}
    (h : Mmu.vmmAllocLoop pgd prot m vaddr (pages * pageSize) count = .ok (res, m')) :
    ∃ roles' mapped, Grows anyPlace (fun _ _ => True) roles m roles' m' ∧ mapped ≤ pages ∧
      (res = -eNoMem ∨ res = (count + pages : Nat) ∧ mapped = pages) ∧ MapsFresh m pgd vaddr mapped prot m' := by
  induction pages generalizing m roles vaddr count with
  | zero =>
      rw [Nat.zero_mul, Mmu.vmmAllocLoop, if_neg (Nat.lt_irrefl 0)] at h
      cases h
      exact ⟨roles, 0, .refl typed, Nat.le_refl 0, Or.inr ⟨rfl, rfl⟩, .nothing⟩
  | succ pages ih =>
      rw [Nat.succ_mul, Mmu.vmmAllocLoop, if_pos (Nat.add_pos_right _ (by decide)), Nat.add_sub_cancel] at h
      obtain ⟨⟨res₁, m₁⟩, one, later⟩ := Exec.bind_eq_ok.mp h
      dsimp only at later
      obtain ⟨empty, rfl, rfl⟩ | ⟨frame, rest, pool, rfl, _, mapped⟩ := vmmAllocPage_ok one
      · cases later
        exact ⟨roles, 0, .refl typed, Nat.zero_le _, Or.inl rfl, .nothing⟩
      · obtain ⟨roles₁, grows, _, translated⟩ := typed.allocOne known pool mapped
        have ends : MapEnds { m with pool := rest } pgd vaddr .page4k prot
            ({ m with pool := rest }.mmuMapOne pgd vaddr frame.paddr .page4k prot) :=
          (typed.next pool).1.mapOne_ends known
        rw [mapped] at ends
        rw [if_neg (Int.lt_irrefl 0)] at later
        obtain ⟨roles', n, grows', le, outcome, fresh⟩ :=
          ih grows.typed (grows.extended pgd _ known) (Nat.mod_lt _ (by decide)) later
        cases ends with
        | done _ empty =>
            refine ⟨roles', n + 1, grows.trans grows', Nat.succ_le_succ le, outcome.imp_right ?_,
              .cons start (empty strict) translated fresh⟩
            rintro ⟨rfl, rfl⟩
            exact ⟨by rw [Nat.add_right_comm, Nat.add_assoc], rfl⟩

/-! Panics -/

theorem Reaches.smallPage {tables : Nat → Nat → Nat} {t : Nat} (reaches : Reaches tables pgd vaddr 0 t)
    (here : present (tables t (tableIndex 0 vaddr)) = true) : Paging.translate tables pgd vaddr ≠ none := by
  obtain ⟨every, any, walk⟩ := reaches.translate
  rw [walk]
  simp only [translateFrom]
  rw [if_pos here]
  exact Option.some_ne_none _

theorem Typed.mapOne_fresh (typed : Typed anyPlace roles m) (known : roles pgd = some ⟨false, 3, 0⟩)
    (empty : translate m.tables pgd vaddr = none) {paddr : Nat} {fault : Fault}
    (h : m.mmuMapOne pgd vaddr paddr .page4k prot = .error fault) : fault = noFreeFrames := by
  have ends : MapEnds m pgd vaddr .page4k prot (m.mmuMapOne pgd vaddr paddr .page4k prot) := typed.mapOne_ends known
  rw [h] at ends
  cases ends with
  | stuck _ _ => rfl
  | huge found _ => cases empty.symm.trans found
  | mapped _ reaches here => exact absurd empty (reaches.smallPage here)

theorem vmmAllocPage_error (aligned : vaddr % pageSize = 0) {fault : Fault}
    (h : m.vmmAllocPage pgd vaddr prot = .error fault) : ∃ frame rest, m.pool = frame :: rest ∧
      { m with pool := rest }.mmuMapOne pgd vaddr frame.paddr .page4k prot = .error fault := by
  simp only [Mmu.vmmAllocPage, isPageAligned_always, Mmu.pmmCurrentAllocFrame, Mmu.vmmMapPage] at h
  cases pool : m.pool with
  | nil =>
      rw [pool] at h
      cases h
  | cons frame rest =>
      have frameAligned : frame.paddr % pageSize = 0 := by
        rw [← frame.isFrame]
        exact entryPaddr_mod _
      have small : Mmu.pageKind { m with pool := rest } vaddr frame.paddr pageSize = .page4k := by
        have huge : ¬ pageSize1g ≤ pageSize := by decide
        have big : ¬ pageSize2m ≤ pageSize := by decide
        simp [Mmu.pageKind, huge, big]
      have range : Mmu.mmuMapRange { m with pool := rest } pgd vaddr frame.paddr pageSize prot =
          Mmu.mmuMapOne { m with pool := rest } pgd vaddr frame.paddr .page4k prot := by
        rw [Mmu.mmuMapRange, if_neg (by simp [isPageAlignedTo, aligned, frameAligned]),
          if_neg (by simp [isPageAlignedTo]), Mmu.mmuMapLoop, if_pos (by decide), small]
        cases Mmu.mmuMapOne { m with pool := rest } pgd vaddr frame.paddr .page4k prot with
        | error fault => rfl
        | ok m₁ =>
            rw [Exec.ok_bind, Mmu.mmuMapLoop, if_neg (by decide)]
      rw [pool] at h
      simp only [Bool.not_true, Bool.or_self, Bool.false_eq_true, if_false, range] at h
      refine ⟨frame, rest, rfl, ?_⟩
      cases one : Mmu.mmuMapOne { m with pool := rest } pgd vaddr frame.paddr .page4k prot with
      | ok m₁ =>
          rw [one] at h
          cases h
      | error fault' =>
          rw [one] at h
          cases h
          rfl

/-- Over nothing `vmm_alloc_range` panics only without a frame for a table. -/
theorem Typed.allocLoop_panics (typed : Typed anyPlace roles m) (known : roles pgd = some ⟨false, 3, 0⟩)
    {pages count : Nat} (aligned : vaddr % pageSize = 0)
    (empty : ∀ a, vaddr ≤ a → a < vaddr + pages * pageSize → a < userEnd ∧ translate m.tables pgd a = none)
    {fault : Fault}
    (h : Mmu.vmmAllocLoop pgd prot m vaddr (pages * pageSize) count = .error fault) : fault = noFreeFrames := by
  induction pages generalizing m roles vaddr count with
  | zero =>
      rw [Nat.zero_mul, Mmu.vmmAllocLoop, if_neg (Nat.lt_irrefl 0)] at h
      cases h
  | succ pages ih =>
      have wide : (pages + 1) * pageSize = pages * pageSize + pageSize := Nat.succ_mul _ _
      rw [wide] at h empty
      have low : vaddr + (pages * pageSize + pageSize) ≤ userEnd := by
        have last := (empty (vaddr + pages * pageSize + (pageSize - 1)) (by omega) (by simp only [pageSize]; omega)).1
        simp only [pageSize] at *
        omega
      rw [Mmu.vmmAllocLoop, if_pos (Nat.add_pos_right _ (by decide)), Nat.add_sub_cancel] at h
      cases one : m.vmmAllocPage pgd vaddr prot with
      | error fault' =>
          rw [one] at h
          cases h
          obtain ⟨frame, rest, pool, mapped⟩ := vmmAllocPage_error aligned one
          exact (typed.next pool).1.mapOne_fresh known
            (empty vaddr (Nat.le_refl _) (by simp only [pageSize]; omega)).2 mapped
      | ok r =>
          rw [one, Exec.ok_bind] at h
          obtain ⟨res₁, m₁⟩ := r
          dsimp only at h
          obtain ⟨_, rfl, rfl⟩ | ⟨frame, rest, pool, rfl, _, mapped⟩ := vmmAllocPage_ok one
          · cases h
          · obtain ⟨roles₁, grows, _, translated⟩ := typed.allocOne known pool mapped
            have next : (vaddr + pageSize) % word64 = vaddr + pageSize :=
              Nat.mod_eq_of_lt (by simp only [userEnd, word64] at *; omega)
            rw [if_neg (Int.lt_irrefl 0), next] at h
            refine ih grows.typed (grows.extended pgd _ known) (by rw [Nat.add_mod_right, aligned])
              (fun a above below => ?_) h
            obtain ⟨user, none⟩ := empty a (by omega) (by omega)
            have apart : ¬ SameBlock 0 vaddr a := by
              simp only [SameBlock, span_zero, addressBits, pageSize, userEnd] at *
              omega
            exact ⟨user, ((translated a).2 apart).trans none⟩

theorem WellFormedTree.allocRange_panics (tree : WellFormedTree m pgd) {size : Nat} (aligned : vaddr % pageSize = 0)
    (empty : ∀ a, vaddr ≤ a → a < vaddr + pageAlignUp size / pageSize * pageSize →
      a < userEnd ∧ translate m.tables pgd a = none) {fault : Fault}
    (h : m.vmmAllocRange pgd vaddr size prot = .error fault) : fault = noFreeFrames := by
  have pages : pageAlignUp size / pageSize * pageSize = pageAlignUp size :=
    Nat.div_mul_cancel (Nat.dvd_of_mod_eq_zero (pageAlignUp_mod size))
  simp only [Mmu.vmmAllocRange, isPageAligned_always, Bool.not_true, Bool.false_eq_true, if_false] at h
  rw [← pages] at h
  exact tree.typed.allocLoop_panics (tree.placesOf_iff.mpr .top) aligned empty h

/-! The tree -/

theorem WellFormedTree.drop (tree : WellFormedTree m pgd) (n : Nat) :
    WellFormedTree { m with pool := m.pool.drop n } pgd :=
  ⟨tree.distinct, tree.allowing, tree.poolDistinct.sublist (List.drop_sublist n _),
    fun f member => tree.poolUnused f (List.mem_of_mem_drop member)⟩

/-- A call keeps the tree, and it maps its pages or runs out of frames on the way. -/
theorem WellFormedTree.allocRange (tree : WellFormedTree m pgd) (strict : prot.allowOverwrite = false)
    (start : vaddr < word64) {size : Nat} {res : Int} (h : m.vmmAllocRange pgd vaddr size prot = .ok (res, m')) :
    WellFormedTree m' pgd ∧ ∃ mapped ≤ pageAlignUp size / pageSize,
      (res = -eNoMem ∨ res = (pageAlignUp size / pageSize : Nat) ∧ mapped = pageAlignUp size / pageSize) ∧
        MapsFresh m pgd vaddr mapped prot m' := by
  have pages : pageAlignUp size / pageSize * pageSize = pageAlignUp size :=
    Nat.div_mul_cancel (Nat.dvd_of_mod_eq_zero (pageAlignUp_mod size))
  have known : placesOf m pgd pgd = some ⟨false, 3, 0⟩ := tree.placesOf_iff.mpr .top
  simp only [Mmu.vmmAllocRange, isPageAligned_always, Bool.not_true, Bool.false_eq_true, if_false] at h
  rw [← pages] at h
  obtain ⟨roles', mapped, grows, le, outcome, fresh⟩ := tree.typed.allocLoop_fresh known strict start h
  rw [Nat.zero_add] at outcome
  exact ⟨grows.typed.wellFormed (grows.extended pgd _ known), mapped, le, outcome, fresh⟩

end Strict

end SnapOS.Paging
