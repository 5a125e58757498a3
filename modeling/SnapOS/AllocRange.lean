/- vmm_alloc_range: what a call that returns has mapped and which frames it has taken. -/
import SnapOS.AddressSpaces
import SnapOS.TableCount

namespace SnapOS.Paging
open SnapOS.Lib SnapOS.Mm

abbrev anyPlace : TableKinds Place := placeKinds fun _ _ _ => True

/-- The address is translated to the frame by a small page that the processor can reach. -/
def BackedBy (m : Mmu) (pgd vaddr : Nat) (frame : Frame) : Prop :=
  Canonical vaddr ∧ ∃ leaf, translate m.tables pgd vaddr = some leaf ∧ leaf.paddr vaddr = frame.paddr

/-- The frame is neither free nor a table. -/
def Outside (roles : Roles Nat Place) (m : Mmu) (frame : Frame) : Prop := roles frame.paddr = none ∧ frame ∉ m.pool

variable {roles roles' : Roles Nat Place} {m m' : Mmu} {pgd vaddr : Nat} {prot : Pgprot}

theorem Outside.grows {touched : Place → Nat → Prop} {frame : Frame} (outside : Outside roles m frame)
    (grows : Grows anyPlace touched roles m roles' m') : Outside roles' m' frame := by
  refine ⟨grows.fresh _ outside.1 fun f member same => ?_, fun member => outside.2 (grows.pool frame member)⟩
  exact outside.2 (Frame.ext_paddr same ▸ member)

theorem Typed.tableAt (typed : Typed anyPlace roles m) (known : roles pgd = some ⟨false, 3, 0⟩) {p : Place} {t : Nat}
    (table : TableAt m.tables pgd p t) : roles t = some p := by
  induction table with
  | top => exact known
  | @down p t i above index inner here notLeaf ih =>
      refine (typed.follow ih (if_pos ⟨index, inner⟩) here fun may => ?_).target
      have level : p.level = 1 ∨ p.level = 2 := of_decide_eq_true may
      rwa [decide_eq_true (by omega), Bool.true_and] at notLeaf

theorem Typed.wellFormed (typed : Typed anyPlace roles m) (known : roles pgd = some ⟨false, 3, 0⟩) :
    WellFormedTree m pgd := by
  refine ⟨fun first second => ?_, fun {p t i} found index inner here notLeaf => ?_, typed.distinct,
    fun f member p table => ?_⟩
  · exact Option.some.inj ((typed.tableAt known first).symm.trans (typed.tableAt known second))
  · rcases typed.cells t p i (typed.tableAt known found) here with ⟨c, _, table⟩ | ⟨⟨may, big⟩ | last, _⟩
    · exact ⟨table.small, table.allows, table.executable⟩
    · have level : p.level = 1 ∨ p.level = 2 := of_decide_eq_true may
      rw [decide_eq_true (by omega), Bool.true_and, big] at notLeaf
      cases notLeaf
    · cases (if_pos ⟨index, inner⟩).symm.trans last
  · cases (typed.unused f member).symm.trans (typed.tableAt known table)

theorem WellFormedTree.placesOf_none {t : Nat} : placesOf m pgd t = none ↔ ∀ p, ¬ TableAt m.tables pgd p t := by
  simp only [placesOf]
  split
  · next some_ => exact iff_of_false (by simp) fun none => some_.elim none
  · next none => exact iff_of_true rfl fun p table => none ⟨p, table⟩

section Page

variable {frame : Frame} {rest : List Frame}

theorem Grows.ofTail {touched : Place → Nat → Prop} (pool : m.pool = frame :: rest)
    (grows : Grows anyPlace touched roles { m with pool := rest } roles' m') :
    Grows anyPlace touched roles m roles' m' := by
  have inside : ∀ f ∈ rest, f ∈ m.pool := fun f member => pool ▸ List.mem_cons_of_mem frame member
  exact ⟨grows.typed, grows.extended,
    fun a free others => grows.fresh a free fun f member => others f (inside f member),
    fun f member => inside f (grows.pool f member), grows.changed, grows.cpu⟩

theorem Typed.allocOne (typed : Typed anyPlace roles m) (known : roles pgd = some ⟨false, 3, 0⟩)
    (pool : m.pool = frame :: rest)
    (mapped : { m with pool := rest }.mmuMapOne pgd vaddr frame.paddr .page4k prot = .ok m') :
    ∃ roles', Grows anyPlace (fun _ _ => True) roles m roles' m' ∧ Outside roles' m' frame ∧ ∀ a,
      (SameBlock 0 vaddr a → ∃ every any, translate m'.tables pgd a =
        some ⟨Mmu.leafEntry frame.paddr .page4k prot, 0, every, any⟩) ∧
      (¬ SameBlock 0 vaddr a → translate m'.tables pgd a = translate m.tables pgd a) := by
  obtain ⟨taken, free, unpooled⟩ := typed.next pool
  obtain ⟨roles', grows, translated⟩ := taken.mapOne (fun _ _ => True) known (fun _ _ => trivial) trivial mapped
  have outside : Outside roles { m with pool := rest } frame := ⟨free, fun member => unpooled frame member rfl⟩
  exact ⟨roles', grows.ofTail pool, outside.grows grows, translated⟩

theorem Typed.allocOne_backed (typed : Typed anyPlace roles m) (known : roles pgd = some ⟨false, 3, 0⟩)
    (flags : entryPaddr prot.protFlags = 0) (aligned : vaddr % pageSize = 0) (low : vaddr + pageSize ≤ userEnd)
    (pool : m.pool = frame :: rest)
    (mapped : { m with pool := rest }.mmuMapOne pgd vaddr frame.paddr .page4k prot = .ok m') :
    ∃ roles', Grows anyPlace (fun _ _ => True) roles m roles' m' ∧ Outside roles' m' frame ∧
      BackedBy m' pgd vaddr frame ∧ ∀ a, Canonical a → ¬ (vaddr ≤ a ∧ a < vaddr + pageSize) →
        translate m'.tables pgd a = translate m.tables pgd a := by
  obtain ⟨roles', grows, outside, translated⟩ := typed.allocOne known pool mapped
  refine ⟨roles', grows, outside, ⟨Or.inl ?_, ?_⟩, fun a canonical apart => ?_⟩
  · simp only [userEnd, pageSize] at low
    omega
  · obtain ⟨every, any, found⟩ := (translated vaddr).1 rfl
    refine ⟨_, found, ?_⟩
    rw [Leaf.paddr_small rfl aligned]
    exact Mmu.leafEntry_paddr frame.isFrame .page4k flags
  · have block : SameBlock 0 vaddr a ↔ vaddr ≤ a ∧ a < vaddr + pageSize :=
      sameBlock_iff (by decide) aligned (Or.inl low) canonical
    exact (translated a).2 fun same => apart (block.mp same)

end Page

/-- The loop of `vmm_alloc_range` returns an error when the pool is empty, and the first frame it has taken stays
taken. -/
theorem Typed.allocLoop_cases (typed : Typed anyPlace roles m) (known : roles pgd = some ⟨false, 3, 0⟩)
    {size count : Nat} (whole : size % pageSize = 0) {res : Int}
    (h : Mmu.vmmAllocLoop pgd prot m vaddr size count = .ok (res, m')) :
    ∃ roles', Grows anyPlace (fun _ _ => True) roles m roles' m' ∧
      (res = -eNoMem ∧ m'.pool = [] ∨ res = count + (size / pageSize : Nat)) ∧
      (0 < size → ∀ frame rest, m.pool = frame :: rest → Outside roles' m' frame) := by
  induction size using Nat.strong_induction_on generalizing m roles vaddr count with
  | h size ih =>
      rw [Mmu.vmmAllocLoop] at h
      split at h
      · next more =>
          obtain ⟨⟨res₁, m₁⟩, one, later⟩ := Exec.bind_eq_ok.mp h
          dsimp only at later
          obtain ⟨empty, rfl, rfl⟩ | ⟨frame, rest, pool, rfl, _, mapped⟩ := vmmAllocPage_ok one
          · cases later
            refine ⟨roles, Grows.refl typed, Or.inl ⟨rfl, empty⟩, fun _ frame rest pool => ?_⟩
            cases empty.symm.trans pool
          · obtain ⟨roles₁, grows, outside, _⟩ := typed.allocOne known pool mapped
            have fits : pageSize ≤ size := Nat.le_of_dvd more (Nat.dvd_of_mod_eq_zero whole)
            rw [if_neg (Int.lt_irrefl 0)] at later
            obtain ⟨roles₂, grows', outcome, _⟩ := ih (size - pageSize) (Nat.sub_lt more (by decide)) grows.typed
              (grows.extended pgd _ known) (by simp only [pageSize] at *; omega) later
            refine ⟨roles₂, grows.trans grows', outcome.imp_right fun done => ?_, fun _ frame' rest' pool' => ?_⟩
            · rw [done]
              have pages : size / pageSize = (size - pageSize) / pageSize + 1 := by
                rw [← Nat.add_div_right _ (by decide), Nat.sub_add_cancel fits]
              rw [pages]
              push_cast
              omega
            · cases pool.symm.trans pool'
              exact outside.grows grows'
      · next none =>
          cases h
          refine ⟨roles, Grows.refl typed, Or.inr ?_, fun more => absurd more none⟩
          rw [Nat.eq_zero_of_not_pos none]
          simp

/-- What is left of a call that has mapped all its pages. -/
structure PagesBacked (m : Mmu) (pgd vaddr : Nat) (frames : List Frame) (m' : Mmu) : Prop where
  distinct : frames.Nodup
  free : ∀ f ∈ frames, f ∈ m.pool
  backed : ∀ i f, frames[i]? = some f → BackedBy m' pgd (vaddr + i * pageSize) f
  others : ∀ a, Canonical a → ¬ (vaddr ≤ a ∧ a < vaddr + frames.length * pageSize) →
    translate m'.tables pgd a = translate m.tables pgd a

theorem PagesBacked.cons {m₁ : Mmu} {frames : List Frame}
    (later : PagesBacked m₁ pgd (vaddr + pageSize) frames m') (here : BackedBy m₁ pgd vaddr frame)
    (free : frame ∈ m.pool) (taken : frame ∉ m₁.pool) (pool : ∀ f ∈ m₁.pool, f ∈ m.pool)
    (others : ∀ a, Canonical a → ¬ (vaddr ≤ a ∧ a < vaddr + pageSize) →
      translate m₁.tables pgd a = translate m.tables pgd a) :
    PagesBacked m pgd vaddr (frame :: frames) m' := by
  refine ⟨List.nodup_cons.mpr ⟨fun member => taken (later.free frame member), later.distinct⟩, ?_, ?_, ?_⟩
  · intro f member
    rcases List.mem_cons.mp member with rfl | behind
    · exact free
    · exact pool f (later.free f behind)
  · intro i f found
    cases i with
    | zero =>
        cases found
        rw [Nat.zero_mul, Nat.add_zero]
        refine ⟨here.1, ?_⟩
        rw [later.others vaddr here.1 (by simp only [pageSize]; omega)]
        exact here.2
    | succ i =>
        have next := later.backed i f found
        rwa [Nat.add_assoc, Nat.add_comm pageSize, ← Nat.succ_mul] at next
  · intro a canonical apart
    rw [List.length_cons, Nat.succ_mul] at apart
    rw [later.others a canonical (by omega), others a canonical (by omega)]

/-- In the lower half a call fails exactly if it needs more frames than there are. -/
theorem Typed.allocPages (typed : Typed anyPlace roles m) (known : roles pgd = some ⟨false, 3, 0⟩)
    (flags : entryPaddr prot.protFlags = 0) {pages count : Nat} (aligned : vaddr % pageSize = 0)
    (low : vaddr + pages * pageSize ≤ userEnd) {res : Int}
    (h : Mmu.vmmAllocLoop pgd prot m vaddr (pages * pageSize) count = .ok (res, m')) :
    (res = -eNoMem ∧ m.pool.length < framesFor m.tables pgd 3 vaddr pages) ∨
      ∃ roles' frames, res = (count + pages : Nat) ∧ frames.length = pages ∧
        m.pool.length = m'.pool.length + framesFor m.tables pgd 3 vaddr pages ∧
        Grows anyPlace (fun _ _ => True) roles m roles' m' ∧ PagesBacked m pgd vaddr frames m' ∧
        ∀ f ∈ frames, Outside roles' m' f := by
  induction pages generalizing m roles vaddr count with
  | zero =>
      rw [Nat.zero_mul, Mmu.vmmAllocLoop, if_neg (Nat.lt_irrefl 0)] at h
      cases h
      refine Or.inr ⟨roles, [], rfl, rfl, rfl, Grows.refl typed,
        ⟨List.nodup_nil, List.forall_mem_nil _, fun i f found => ?_, fun _ _ _ => rfl⟩, List.forall_mem_nil _⟩
      cases found
  | succ pages ih =>
      have wide : (pages + 1) * pageSize = pages * pageSize + pageSize := Nat.succ_mul _ _
      have few : missingTables m.tables pgd vaddr ≤ 3 := missingFrom_le 3 pgd
      rw [wide] at h low
      rw [Mmu.vmmAllocLoop, if_pos (Nat.add_pos_right _ (by decide)), Nat.add_sub_cancel] at h
      obtain ⟨⟨res₁, m₁⟩, one, later⟩ := Exec.bind_eq_ok.mp h
      dsimp only at later
      simp only [framesFor]
      obtain ⟨empty, rfl, rfl⟩ | ⟨frame, rest, pool, rfl, _, mapped⟩ := vmmAllocPage_ok one
      · cases later
        refine Or.inl ⟨rfl, ?_⟩
        rw [empty, List.length_nil]
        omega
      · obtain ⟨roles₁, grows, outside, backed, others⟩ :=
          typed.allocOne_backed known flags aligned (by omega) pool mapped
        obtain ⟨taken, left⟩ := (typed.next pool).1.mapOne_missing known mapped
        have next : (vaddr + pageSize) % word64 = vaddr + pageSize :=
          Nat.mod_eq_of_lt (by simp only [userEnd, word64] at *; omega)
        rw [if_neg (Int.lt_irrefl 0), next] at later
        have length : m.pool.length = rest.length + 1 := by rw [pool, List.length_cons]
        have frames : framesFor m₁.tables pgd 3 (vaddr + pageSize) pages =
            framesFor m.tables pgd (startsLevel (vaddr + pageSize)) (vaddr + pageSize) pages :=
          framesFor_next aligned (by rw [wide]; exact low) left
        rcases ih grows.typed (grows.extended pgd _ known) (by rw [Nat.add_mod_right, aligned]) (by omega) later with
          ⟨rfl, short⟩ | ⟨roles', frames', rfl, rfl, enough, grows', backed', outside'⟩
        · refine Or.inl ⟨rfl, ?_⟩
          dsimp only at taken
          omega
        · have all := backed'.cons backed (pool ▸ List.mem_cons_self) outside.2 grows.pool others
          refine Or.inr ⟨roles', frame :: frames', ?_, rfl, ?_, grows.trans grows', all, fun f member => ?_⟩
          · rw [Nat.add_right_comm, Nat.add_assoc]
          · dsimp only at taken
            omega
          · rcases List.mem_cons.mp member with rfl | later
            · exact outside.grows grows'
            · exact outside' f later

/-! What a caller would like to rely on -/

def RangeOf (vaddr size a : Nat) : Prop :=
  Canonical a ∧ vaddr ≤ a ∧ a < vaddr + (size + (pageSize - 1)) / pageSize * pageSize

/-- A call that fails leaves no page of the range mapped, and every frame that is no longer free has become a table.
A call that succeeds has mapped as many pages as were asked for, each with a frame of its own that was free. -/
structure AllOrNothing (m : Mmu) (pgd vaddr size : Nat) (res : Int) (m' : Mmu) : Prop where
  nothing : res < 0 → (∀ a, RangeOf vaddr size a → translate m'.tables pgd a = none) ∧
    ∀ f ∈ m.pool, f ∈ m'.pool ∨ ∃ p, TableAt m'.tables pgd p f.paddr
  all : ∀ n : Nat, res = n → size ≤ n * pageSize ∧ ∃ frames : List Frame, frames.length = n ∧ frames.Nodup ∧
    (∀ f ∈ frames, f ∈ m.pool ∧ f ∉ m'.pool ∧ ∀ p, ¬ TableAt m'.tables pgd p f.paddr) ∧
    ∀ i f, frames[i]? = some f → BackedBy m' pgd (vaddr + i * pageSize) f

/-- When the call can be relied on: there is no frame to lose, or there are frames for all pages and their tables,
the size does not wrap when it is rounded, and the range stays in the lower half. -/
def Dependable (m : Mmu) (pgd vaddr size : Nat) : Prop :=
  m.pool = [] ∧ 0 < pageAlignUp size ∨
    size ≤ word64 - pageSize ∧ vaddr + pageAlignUp size ≤ userEnd ∧
      framesFor m.tables pgd 3 vaddr (pageAlignUp size / pageSize) ≤ m.pool.length

theorem userEnd_not_canonical : ¬ Canonical userEnd := by
  simp only [Canonical, userEnd, word64]
  omega

section Range

variable {size : Nat} {res : Int}

theorem vmmAllocLoop_noFrames {count : Nat} (empty : m.pool = []) (more : 0 < size)
    (h : Mmu.vmmAllocLoop pgd prot m vaddr size count = .ok (res, m')) : res = -eNoMem ∧ m' = m := by
  rw [Mmu.vmmAllocLoop, if_pos more] at h
  obtain ⟨⟨res₁, m₁⟩, one, later⟩ := Exec.bind_eq_ok.mp h
  dsimp only at later
  obtain ⟨_, rfl, rfl⟩ | ⟨frame, rest, pool, _⟩ := vmmAllocPage_ok one
  · cases later
    exact ⟨rfl, rfl⟩
  · cases empty.symm.trans pool

variable (tree : WellFormedTree m pgd) (flags : entryPaddr prot.protFlags = 0) (word : size < word64)
  (aligned : vaddr % pageSize = 0)
include tree

theorem AllOrNothing.of_failed (prop : AllOrNothing m pgd vaddr size res m') (failed : res < 0)
    (h : Mmu.vmmAllocLoop pgd prot m vaddr (pageAlignUp size) 0 = .ok (res, m')) :
    m.pool = [] ∧ 0 < pageAlignUp size := by
  have known : placesOf m pgd pgd = some ⟨false, 3, 0⟩ := tree.placesOf_iff.mpr .top
  obtain ⟨roles', grows, outcome, first⟩ := tree.typed.allocLoop_cases known (pageAlignUp_mod size) h
  have more : 0 < pageAlignUp size := by
    by_contra none
    rw [Mmu.vmmAllocLoop, if_neg none] at h
    cases h
    omega
  refine ⟨?_, more⟩
  cases pool : m.pool with
  | nil => rfl
  | cons frame rest =>
      have outside := first more frame rest pool
      rcases (prop.nothing failed).2 frame (pool ▸ List.mem_cons_self) with again | ⟨p, table⟩
      · exact absurd again outside.2
      · cases outside.1.symm.trans (grows.typed.tableAt (grows.extended pgd _ known) table)

include flags word aligned

theorem AllOrNothing.of_done (low : vaddr < userEnd) (prop : AllOrNothing m pgd vaddr size res m') (done : 0 ≤ res)
    (h : Mmu.vmmAllocLoop pgd prot m vaddr (pageAlignUp size) 0 = .ok (res, m')) :
    size ≤ word64 - pageSize ∧ vaddr + pageAlignUp size ≤ userEnd ∧
      framesFor m.tables pgd 3 vaddr (pageAlignUp size / pageSize) ≤ m.pool.length := by
  have known : placesOf m pgd pgd = some ⟨false, 3, 0⟩ := tree.placesOf_iff.mpr .top
  have pages : pageAlignUp size / pageSize * pageSize = pageAlignUp size :=
    Nat.div_mul_cancel (Nat.dvd_of_mod_eq_zero (pageAlignUp_mod size))
  have negative : -eNoMem < 0 := by decide
  obtain ⟨_, _, ⟨failed, _⟩ | counted, _⟩ := tree.typed.allocLoop_cases known (pageAlignUp_mod size) h
  · omega
  obtain ⟨large, frames, length, _, _, backed⟩ := prop.all (pageAlignUp size / pageSize) (by simp [counted])
  rw [pages] at large
  have fits : size ≤ word64 - pageSize := by
    by_contra big
    rw [pageAlignUp_wraps word big] at large
    simp only [word64, pageSize] at big
    omega
  have inside : vaddr + pageAlignUp size ≤ userEnd := by
    by_contra beyond
    have index : (userEnd - vaddr) / pageSize < frames.length := by
      rw [length]
      exact Nat.div_lt_div_of_lt_of_dvd (Nat.dvd_of_mod_eq_zero (pageAlignUp_mod size)) (by omega)
    have page := (backed _ _ (List.getElem?_eq_getElem index)).1
    have border : vaddr + (userEnd - vaddr) / pageSize * pageSize = userEnd := by
      simp only [userEnd, pageSize] at *
      omega
    rw [border] at page
    exact userEnd_not_canonical page
  refine ⟨fits, inside, ?_⟩
  rw [← pages] at h inside
  rcases tree.typed.allocPages known flags aligned inside h with ⟨failed, _⟩ | ⟨_, _, _, _, enough, _⟩
  · omega
  · omega

/-- vmm_alloc_range is all or nothing only in these cases: it frees nothing when it runs out of frames. -/
theorem vmmAllocRange_allOrNothing_iff (low : vaddr < userEnd)
    (unmapped : ∀ a, RangeOf vaddr size a → translate m.tables pgd a = none)
    (h : m.vmmAllocRange pgd vaddr size prot = .ok (res, m')) :
    AllOrNothing m pgd vaddr size res m' ↔ Dependable m pgd vaddr size := by
  simp only [Mmu.vmmAllocRange, isPageAligned_always, Bool.not_true, Bool.false_eq_true, if_false] at h
  have known : placesOf m pgd pgd = some ⟨false, 3, 0⟩ := tree.placesOf_iff.mpr .top
  constructor
  · intro prop
    by_cases failed : res < 0
    · exact Or.inl (prop.of_failed tree failed h)
    · exact Or.inr (prop.of_done tree flags word aligned low (not_lt.mp failed) h)
  · rintro (⟨empty, more⟩ | ⟨fits, inside, enough⟩)
    · obtain ⟨rfl, rfl⟩ := vmmAllocLoop_noFrames empty more h
      refine ⟨fun _ => ⟨unmapped, fun f member => Or.inl member⟩, fun n negative => ?_⟩
      have : (-eNoMem : Int) < 0 := by decide
      omega
    · have pages : pageAlignUp size / pageSize * pageSize = pageAlignUp size :=
        Nat.div_mul_cancel (Nat.dvd_of_mod_eq_zero (pageAlignUp_mod size))
      rw [← pages] at h inside
      rcases tree.typed.allocPages known flags aligned inside h with
        ⟨_, short⟩ | ⟨roles', frames, rfl, length, _, grows, backed, outside⟩
      · omega
      · refine ⟨fun negative => absurd negative (by omega), fun n count => ?_⟩
        have known' := grows.extended pgd _ known
        obtain rfl : n = pageAlignUp size / pageSize := by omega
        refine ⟨by rw [pages]; exact le_pageAlignUp fits, frames, length, backed.distinct, fun f member =>
          ?_, backed.backed⟩
        refine ⟨backed.free f member, (outside f member).2, fun p table => ?_⟩
        cases (outside f member).1.symm.trans (grows.typed.tableAt known' table)

end Range

theorem sampleMmu_wellFormed : WellFormedTree sampleMmu 0x1000 :=
  wellFormed_of_zero (fun _ _ => rfl) sampleMmu_distinct (by decide +kernel)

/-- Three pages in two tables. -/
theorem vmmAllocRange_allOrNothing_iff_threePages :
    ∃ m', sampleMmu.vmmAllocRange 0x1000 0x5ff000 0x2800 userPages = .ok (3, m') ∧
      AllOrNothing sampleMmu 0x1000 0x5ff000 0x2800 3 m' := by
  obtain ⟨⟨res, m'⟩, outcome, returned⟩ := Exec.exists_ok_of_map (by decide +kernel :
    (sampleMmu.vmmAllocRange 0x1000 0x5ff000 0x2800 userPages).toOption.map Prod.fst = some 3)
  obtain rfl : res = 3 := returned
  refine ⟨m', outcome, (vmmAllocRange_allOrNothing_iff sampleMmu_wellFormed (by decide) (by decide) (by decide)
    (by decide) (fun a _ => translateFrom_empty (show present 0 = false by decide)) outcome).mpr ?_⟩
  exact Or.inr (by decide +kernel)

/-- Four frames are not enough for two pages: the first page stays mapped and its frame is lost. -/
theorem first_page_stays :
    ∃ m', emptyMmu.vmmAllocRange 0x1000 0x400000 0x2000 userPages = .ok (-eNoMem, m') ∧
      translate m'.tables 0x1000 0x400000 ≠ none ∧ ¬ AllOrNothing emptyMmu 0x1000 0x400000 0x2000 (-eNoMem) m' := by
  obtain ⟨⟨res, m'⟩, outcome, returned⟩ := Exec.exists_ok_of_map (by decide +kernel :
    (emptyMmu.vmmAllocRange 0x1000 0x400000 0x2000 userPages).toOption.map (fun result =>
      (result.1, (translate result.2.tables 0x1000 0x400000).isSome)) = some (-eNoMem, true))
  obtain ⟨rfl, mapped⟩ := Prod.mk.inj returned
  have stays : translate m'.tables 0x1000 0x400000 ≠ none := Option.isSome_iff_ne_none.mp mapped
  refine ⟨m', outcome, stays, fun prop => stays ((prop.nothing (by decide)).1 0x400000 ?_)⟩
  exact ⟨Or.inl (by decide), by decide, by decide⟩

end SnapOS.Paging
