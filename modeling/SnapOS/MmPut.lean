/- The end of an address space: mm_put of mm/mm.c over the frame bitmap, the page tables and the list of allocations. -/
import Mathlib.Algebra.Order.BigOperators.Group.List
import SnapOS.AllocList
import SnapOS.AllocRange
import SnapOS.FrameOwnership
import SnapOS.UserSpace

namespace SnapOS.Paging
open SnapOS.Lib SnapOS.Mm

/-- One address space with the frame allocator: `mmu.pool` lists the free frames of `pmm` in the order in which they
are given out. `history` has the calls of `mm_add_alloc` so far. -/
structure Space where
  pmm : Pmm
  mmu : Mmu
  pgd : Nat
  allocs : AllocMem
  refCount : Nat
  history : List MmAllocation

/-- The loop of `mm_put`. The nodes are small blocks: `kfree` leaves the bitmap alone. Bits from `8 * p.size` on are
memory behind the bitmap. -/
def mmPutLoop : Nat → Pmm → AllocMem → Nat → Exec (Pmm × AllocMem)
  | 0, _, _, _ => .error .outOfFuel
  | fuel + 1, p, allocs, cur =>
      if cur ≠ 0 then do
        let c ← allocs.load cur
        let p ← pmmFreeContiguousFrames p (virtToPhys c.addr) c.pageCount
        mmPutLoop fuel p { allocs with live := allocs.live.filter (· ≠ cur) } c.next
      else .ok (p, allocs)

def mmPut (s : Space) : Exec Space := do
  let refCount := (s.refCount + (word32 - 1)) % word32
  if refCount = 0 then do
    let (pmm, allocs) ← mmPutLoop (s.allocs.live.length + 1) s.pmm s.allocs s.allocs.allocsHead
    .ok { s with pmm, allocs, refCount }
  else .ok { s with refCount }

/-! What the loop does to the bitmap -/

def ClearsFrame (r : MmAllocation) (j : Nat) : Prop :=
  virtToPhys r.addr / pageSize ≤ j ∧ j < virtToPhys r.addr / pageSize + r.pageCount

instance (r : MmAllocation) (j : Nat) : Decidable (ClearsFrame r j) := inferInstanceAs (Decidable (_ ∧ _))

def freeRecords (p : Pmm) (records : List MmAllocation) : Exec Pmm :=
  records.foldlM (fun p r => pmmFreeContiguousFrames p (virtToPhys r.addr) r.pageCount) p

section Records

variable {p p' : Pmm} {r : MmAllocation} {records : List MmAllocation}

theorem freeRecords_ok (h : freeRecords p records = .ok p') :
    p'.size = p.size ∧ ∀ j, p'.bitmap.bit j = (p.bitmap.bit j && decide (∀ r ∈ records, ¬ ClearsFrame r j)) := by
  induction records generalizing p with
  | nil =>
      cases h
      exact ⟨rfl, fun j => by simp⟩
  | cons r rest ih =>
      rw [freeRecords, List.foldlM_cons] at h
      rw [pmmFreeContiguousFrames_eq, Exec.ok_bind] at h
      obtain ⟨size', bits'⟩ := ih h
      have bits₁ (j : Nat) : (p.release (virtToPhys r.addr / pageSize) r.pageCount).bitmap.bit j =
        (p.bitmap.bit j && decide (¬ ClearsFrame r j)) := Bitmap.bit_clearBits _ _ _ _
      refine ⟨size', fun j => ?_⟩
      rw [bits', bits₁, Bool.and_assoc, ← Bool.decide_and]
      simp

theorem freeRecords_returns (p : Pmm) (records : List MmAllocation) : ∃ p', freeRecords p records = .ok p' := by
  induction records generalizing p with
  | nil => exact ⟨p, rfl⟩
  | cons r rest ih =>
      obtain ⟨p', later⟩ := ih (p.release (virtToPhys r.addr / pageSize) r.pageCount)
      refine ⟨p', ?_⟩
      rw [freeRecords, List.foldlM_cons, pmmFreeContiguousFrames_eq, Exec.ok_bind]
      exact later

end Records

theorem mmPutLoop_eq {allocs : AllocMem} {ptrs : List Nat} {cur fuel : Nat} (p : Pmm)
    (chain : Chain (fun q => (allocs.node q).next) cur ptrs) (nodup : ptrs.Nodup)
    (live : ∀ q ∈ ptrs, q ∈ allocs.live) (enough : ptrs.length < fuel) :
    (mmPutLoop fuel p allocs cur).map Prod.fst = freeRecords p (allocs.records ptrs) := by
  induction ptrs generalizing p allocs cur fuel with
  | nil =>
      obtain rfl : cur = 0 := chain
      obtain ⟨fuel, rfl⟩ : ∃ n, fuel = n + 1 := ⟨fuel - 1, by simp at enough; omega⟩
      rfl
  | cons q rest ih =>
      obtain ⟨rfl, nonnull, tail⟩ := chain
      obtain ⟨fuel, rfl⟩ : ∃ n, fuel = n + 1 := ⟨fuel - 1, by simp at enough; omega⟩
      obtain ⟨new, nodup⟩ := List.nodup_cons.mp nodup
      rw [mmPutLoop, if_pos nonnull, AllocMem.load_live (live cur List.mem_cons_self), Exec.ok_bind, Exec.bind_map]
      rw [AllocMem.records, List.map_cons, freeRecords, List.foldlM_cons]
      congr 1
      funext p₁
      refine ih p₁ tail nodup ?_ ?_
      · intro r member
        have other : r ≠ cur := fun same => new (same ▸ member)
        simp [live r (List.mem_cons_of_mem cur member), other]
      · simp only [List.length_cons] at enough
        omega

/-! How an address space is filled -/

/-- The pool lists the free frames of the bitmap. -/
def Agree (p : Pmm) (pool : List Frame) : Prop :=
  pool.Nodup ∧ ∀ f : Frame, f ∈ pool ↔ p.IsFree (f.paddr / pageSize)

def markFrames (p : Pmm) (frames : List Frame) : Pmm :=
  { p with bitmap := frames.foldl (fun bitmap f => bitmap.setBit (f.paddr / pageSize)) p.bitmap }

def afterTaking (p : Pmm) (pool pool' : List Frame) : Pmm := markFrames p (pool.filter (· ∉ pool'))

def recordPages (r : MmAllocation) : List Nat := (List.range r.pageCount).map fun i => r.addr + i * pageSize

/-- Frame `j` backs a page of a recorded range. -/
def Space.UserFrame (s : Space) (j : Nat) : Prop :=
  ∃ r ∈ s.history, ∃ a ∈ recordPages r, ∃ leaf, translate s.mmu.tables s.pgd a = some leaf ∧
    leaf.paddr a = j * pageSize

/-- A range is allocated and recorded, or the rest of the kernel takes and frees frames. -/
inductive SpaceOp where
  | populate (vaddr size : Nat) (prot : Pgprot) (ptr : Nat)
  | others (bitmap : Bitmap) (pool : List Frame)

def spaceStep (s : Space) : SpaceOp → Option Space
  | .populate vaddr size prot ptr =>
      (s.mmu.vmmAllocRange s.pgd vaddr size prot).toOption.bind fun range =>
        if range.1 < 0 then none
        else (s.allocs.mmAddAlloc ptr vaddr range.1.toNat).toOption.bind fun added =>
          if added.1 = 0 then
            some { s with
              pmm := afterTaking s.pmm s.mmu.pool range.2.pool
              mmu := range.2
              allocs := added.2
              history := s.history ++ [⟨vaddr, range.1.toNat⟩] }
          else none
  | .others bitmap pool => some { s with pmm := { s.pmm with bitmap }, mmu := { s.mmu with pool } }

/-- Ranges are in the lower half and disjoint, `kmalloc` gives a new node, and the rest of the kernel leaves the
frames of the address space alone. -/
def SpaceOp.Legal (s : Space) : SpaceOp → Prop
  | .populate vaddr size prot ptr =>
      vaddr % pageSize = 0 ∧ vaddr + size ≤ userEnd ∧ entryPaddr prot.protFlags = 0 ∧
        (∀ r ∈ s.history, r.addr + r.pageCount * pageSize ≤ vaddr ∨ vaddr + pageAlignUp size ≤ r.addr) ∧
        ptr ≠ 0 ∧ ptr ∉ s.allocs.live
  | .others bitmap pool => Agree { s.pmm with bitmap } pool ∧
      ∀ f ∈ pool, (∀ p, ¬ TableAt s.mmu.tables s.pgd p f.paddr) ∧ ¬ s.UserFrame (f.paddr / pageSize)

/-- What `mm_create` makes of the state of the kernel. -/
def Space.start (p : Pmm) (v : Vmm) (mm : MmStruct) (v' : Vmm) (nodes : AllocMem) : Space :=
  ⟨afterTaking p v.mmu.pool v'.mmu.pool, v'.mmu, mm.pgd, { nodes with allocsHead := 0 }, mm.refCount, []⟩

/-- When the last reference goes, the frames of the user pages become free and no other bit changes. -/
def Space.GivesBack (s : Space) : Prop :=
  ∃ s', mmPut s = .ok s' ∧ (∀ j, s.UserFrame j → s'.pmm.bitmap.bit j = false) ∧
    ∀ j, ¬ s.UserFrame j → s'.pmm.bitmap.bit j = s.pmm.bitmap.bit j

/-- The address of each frame in the direct map is at the same time a user address in a range of the list. -/
def Space.Aliased (s : Space) : Prop :=
  ∀ j, s.UserFrame j → ∃ ptrs, s.allocs.Listed ptrs ∧ ∃ r ∈ s.allocs.records ptrs,
    r.addr ≤ physToVirt (j * pageSize) ∧ physToVirt (j * pageSize) < r.addr + r.pageCount * pageSize

theorem Frame.number_mul (f : Frame) : f.paddr / pageSize * pageSize = f.paddr := by
  have whole := entryPaddr_mod f.paddr
  rw [f.isFrame] at whole
  exact Nat.div_mul_cancel (Nat.dvd_of_mod_eq_zero whole)

theorem Frame.number_inj {f g : Frame} (same : f.paddr / pageSize = g.paddr / pageSize) : f = g :=
  Frame.ext_paddr (by rw [← f.number_mul, ← g.number_mul, same])

theorem markFrames_bit (p : Pmm) (frames : List Frame) (j : Nat) :
    (markFrames p frames).bitmap.bit j = (p.bitmap.bit j || decide (∃ f ∈ frames, f.paddr / pageSize = j)) := by
  suffices all : ∀ bitmap : Bitmap, (frames.foldl (fun bitmap f => bitmap.setBit (f.paddr / pageSize)) bitmap).bit j =
      (bitmap.bit j || decide (∃ f ∈ frames, f.paddr / pageSize = j)) from all p.bitmap
  induction frames with
  | nil => simp
  | cons f rest ih =>
      intro bitmap
      rw [List.foldl_cons, ih, Bitmap.bit_setBit, Bool.or_assoc, ← Bool.decide_or]
      simp

theorem Agree.afterTaking {p : Pmm} {pool pool' : List Frame} (agree : Agree p pool) (nodup : pool'.Nodup)
    (fewer : ∀ f ∈ pool', f ∈ pool) : Agree (afterTaking p pool pool') pool' := by
  refine ⟨nodup, fun f => ?_⟩
  have bit := markFrames_bit p (pool.filter (· ∉ pool')) (f.paddr / pageSize)
  constructor
  · intro member
    have free := (agree.2 f).mp (fewer f member)
    refine ⟨free.1, ?_⟩
    change (markFrames p (pool.filter (· ∉ pool'))).bitmap.bit _ = false
    rw [bit, free.2, Bool.false_or, decide_eq_false_iff_not]
    rintro ⟨g, taken, same⟩
    cases Frame.number_inj same
    simp [member] at taken
  · rintro ⟨inside, clear⟩
    change (markFrames p (pool.filter (· ∉ pool'))).bitmap.bit _ = false at clear
    rw [bit, Bool.or_eq_false_iff, decide_eq_false_iff_not] at clear
    by_contra gone
    exact clear.2 ⟨f, by simp [(agree.2 f).mpr ⟨inside, clear.1⟩, gone], rfl⟩

/-! The invariant of a filled address space -/

/-- `backing` pairs the pages of all recorded ranges with their frames. -/
structure FilledInv (s : Space) (backing : List (Nat × Frame)) (ptrs : List Nat) : Prop where
  tree : WellFormedTree s.mmu s.pgd
  agree : Agree s.pmm s.mmu.pool
  listed : s.allocs.Listed ptrs
  records : s.allocs.records ptrs = insertAll [] s.history
  low : ∀ r ∈ s.history, r.addr % pageSize = 0 ∧ r.addr + r.pageCount * pageSize ≤ userEnd
  pages : backing.map Prod.fst = s.history.flatMap recordPages
  distinct : (backing.map Prod.snd).Nodup
  backed : ∀ b ∈ backing, BackedBy s.mmu s.pgd b.1 b.2
  inUse : ∀ b ∈ backing, b.2 ∉ s.mmu.pool ∧ ∀ p, ¬ TableAt s.mmu.tables s.pgd p b.2.paddr
  inside : ∀ b ∈ backing, b.2.paddr / pageSize < 8 * s.pmm.size
  last : s.refCount = 1

section Teardown

variable {s : Space} {backing : List (Nat × Frame)} {ptrs : List Nat}

theorem FilledInv.userFrame_iff (inv : FilledInv s backing ptrs) (j : Nat) :
    s.UserFrame j ↔ ∃ b ∈ backing, b.2.paddr / pageSize = j := by
  have page : ∀ a, (∃ r ∈ s.history, a ∈ recordPages r) ↔ ∃ b ∈ backing, b.1 = a := by
    intro a
    rw [← List.mem_flatMap, ← inv.pages, List.mem_map]
  constructor
  · rintro ⟨r, recorded, a, member, leaf, found, frame⟩
    obtain ⟨b, backs, rfl⟩ := (page a).mp ⟨r, recorded, member⟩
    obtain ⟨_, leaf', found', frame'⟩ := inv.backed b backs
    cases found.symm.trans found'
    refine ⟨b, backs, ?_⟩
    rw [← frame', frame, Nat.mul_div_cancel _ (by decide)]
  · rintro ⟨b, backs, rfl⟩
    obtain ⟨r, recorded, member⟩ := (page b.1).mpr ⟨b, backs, rfl⟩
    obtain ⟨_, leaf, found, frame⟩ := inv.backed b backs
    exact ⟨r, recorded, b.1, member, leaf, found, by rw [frame, b.2.number_mul]⟩

theorem FilledInv.bit_set (inv : FilledInv s backing ptrs) {b : Nat × Frame} (backs : b ∈ backing) :
    s.pmm.bitmap.bit (b.2.paddr / pageSize) = true := by
  cases clear : s.pmm.bitmap.bit (b.2.paddr / pageSize) with
  | true => rfl
  | false => exact absurd ((inv.agree.2 b.2).mpr ⟨inv.inside b backs, clear⟩) (inv.inUse b backs).1

theorem FilledInv.mmPut_eq (inv : FilledInv s backing ptrs) :
    (mmPut s).map Space.pmm = freeRecords s.pmm (insertAll [] s.history) := by
  have zero : (s.refCount + (word32 - 1)) % word32 = 0 := by
    rw [inv.last]
    decide
  have loop := mmPutLoop_eq s.pmm inv.listed.chain inv.listed.nodup inv.listed.live
    (Nat.lt_succ_of_le inv.listed.length_le)
  rw [← inv.records, ← loop, mmPut]
  dsimp only
  rw [if_pos zero, Exec.bind_map]
  cases mmPutLoop (s.allocs.live.length + 1) s.pmm s.allocs s.allocs.allocsHead <;> rfl

def clearedFrames (records : List MmAllocation) : List Nat :=
  records.flatMap fun r => (List.range r.pageCount).map fun i => virtToPhys r.addr / pageSize + i

theorem mem_clearedFrames {records : List MmAllocation} {j : Nat} :
    j ∈ clearedFrames records ↔ ∃ r ∈ records, ClearsFrame r j := by
  rw [clearedFrames, List.mem_flatMap]
  refine exists_congr fun r => and_congr_right fun _ => ?_
  rw [List.mem_map]
  constructor
  · rintro ⟨i, below, rfl⟩
    rw [List.mem_range] at below
    exact ⟨by omega, by omega⟩
  · rintro ⟨low, high⟩
    exact ⟨j - virtToPhys r.addr / pageSize, List.mem_range.mpr (by omega), by omega⟩

def totalPages (records : List MmAllocation) : Nat := (records.map MmAllocation.pageCount).sum

theorem clearedFrames_length (records : List MmAllocation) : (clearedFrames records).length = totalPages records := by
  simp [clearedFrames, totalPages, List.length_flatMap]

theorem FilledInv.backing_length (inv : FilledInv s backing ptrs) : backing.length = totalPages s.history := by
  have length := congrArg List.length inv.pages
  simpa [recordPages, totalPages, List.length_flatMap] using length

theorem insertAlloc_sublist (new : MmAllocation) (l : List MmAllocation) :
    ∃ kept, kept.Sublist l ∧ (insertAlloc new l).Perm (new :: kept) := by
  cases l with
  | nil => exact ⟨[], List.Sublist.refl _, List.Perm.refl _⟩
  | cons first rest =>
      rw [insertAlloc]
      split
      · exact ⟨first :: rest, List.Sublist.refl _, List.Perm.refl _⟩
      · exact ⟨_, (List.dropWhile_suffix _).sublist.cons_cons first, List.Perm.swap _ _ _⟩

theorem insertAll_subperm (history : List MmAllocation) : (insertAll [] history).Subperm history := by
  induction history using List.reverseRecOn with
  | nil => exact List.Subperm.refl _
  | append_singleton l r ih =>
      obtain ⟨kept, sublist, perm⟩ := insertAlloc_sublist r (insertAll [] l)
      rw [insertAll_concat]
      refine perm.subperm.trans (((List.subperm_cons r).mpr (sublist.subperm.trans ih)).trans ?_)
      exact (List.perm_append_singleton r l).symm.subperm

theorem insertAll_total (history : List MmAllocation) : totalPages (insertAll [] history) ≤ totalPages history := by
  obtain ⟨l, perm, sublist⟩ := insertAll_subperm history
  rw [totalPages, ← (perm.map _).sum_eq]
  exact (sublist.map _).sum_le_sum fun _ _ => Nat.zero_le _

theorem Frame.paddr_lt (f : Frame) : f.paddr < 2 ^ 52 := by
  rw [← f.isFrame]
  exact Nat.lt_of_le_of_lt Nat.and_le_right (by decide)

theorem clearsFrame_iff {r : MmAllocation} (aligned : r.addr % pageSize = 0)
    (low : r.addr + r.pageCount * pageSize ≤ userEnd) {j : Nat} (bound : j * pageSize < 2 ^ 52) :
    ClearsFrame r j ↔
      r.addr ≤ physToVirt (j * pageSize) ∧ physToVirt (j * pageSize) < r.addr + r.pageCount * pageSize := by
  simp only [ClearsFrame, virtToPhys, physToVirt, idVirtRegionStart, word64, pageSize, userEnd] at *
  omega

theorem FilledInv.aliased_iff (inv : FilledInv s backing ptrs) :
    s.Aliased ↔ ∀ b ∈ backing, b.2.paddr / pageSize ∈ clearedFrames (insertAll [] s.history) := by
  have frame : ∀ b : Nat × Frame, ∀ r ∈ insertAll [] s.history, ClearsFrame r (b.2.paddr / pageSize) ↔
      r.addr ≤ physToVirt (b.2.paddr / pageSize * pageSize) ∧
        physToVirt (b.2.paddr / pageSize * pageSize) < r.addr + r.pageCount * pageSize := by
    intro b r listed
    obtain ⟨aligned, low⟩ := inv.low r ((insertAll_subperm s.history).subset listed)
    exact clearsFrame_iff aligned low (b.2.number_mul.symm ▸ b.2.paddr_lt)
  constructor
  · intro aliased b backs
    obtain ⟨ptrs', listed, r, member, inside⟩ := aliased _ ((inv.userFrame_iff _).mpr ⟨b, backs, rfl⟩)
    rw [listed.chain.unique inv.listed.chain, inv.records] at member
    exact mem_clearedFrames.mpr ⟨r, member, (frame b r member).mpr inside⟩
  · intro cleared j user
    obtain ⟨b, backs, rfl⟩ := (inv.userFrame_iff j).mp user
    obtain ⟨r, member, inside⟩ := mem_clearedFrames.mp (cleared b backs)
    refine ⟨ptrs, inv.listed, r, ?_, (frame b r member).mp inside⟩
    rw [inv.records]
    exact member

/-- With as many frames as pages, the loop clears exactly the frames of the pages or misses one. -/
theorem FilledInv.cleared_iff (inv : FilledInv s backing ptrs)
    (all : ∀ b ∈ backing, b.2.paddr / pageSize ∈ clearedFrames (insertAll [] s.history)) (j : Nat) :
    j ∈ clearedFrames (insertAll [] s.history) ↔ s.UserFrame j := by
  have nodup : (backing.map fun b => b.2.paddr / pageSize).Nodup := by
    have numbers := inv.distinct.map (f := fun f : Frame => f.paddr / pageSize) fun f g same => Frame.number_inj same
    rwa [List.map_map] at numbers
  have inside : (backing.map fun b => b.2.paddr / pageSize) ⊆ clearedFrames (insertAll [] s.history) := by
    intro j member
    obtain ⟨b, backs, rfl⟩ := List.mem_map.mp member
    exact all b backs
  have perm := (List.subperm_of_subset nodup inside).perm_of_length_le (by
    rw [clearedFrames_length, List.length_map, inv.backing_length]
    exact insertAll_total s.history)
  rw [← perm.mem_iff, List.mem_map, inv.userFrame_iff]

theorem FilledInv.givesBack_iff (inv : FilledInv s backing ptrs) : s.GivesBack ↔ s.Aliased := by
  rw [inv.aliased_iff]
  constructor
  · rintro ⟨s', done, free, _⟩ b backs
    have records := inv.mmPut_eq
    rw [done] at records
    have bits := (freeRecords_ok records.symm).2 (b.2.paddr / pageSize)
    rw [free _ ((inv.userFrame_iff _).mpr ⟨b, backs, rfl⟩), inv.bit_set backs, Bool.true_and, eq_comm,
      decide_eq_false_iff_not] at bits
    push Not at bits
    exact mem_clearedFrames.mpr bits
  · intro all
    have cleared := inv.cleared_iff all
    obtain ⟨p', done⟩ := freeRecords_returns s.pmm (insertAll [] s.history)
    have records := inv.mmPut_eq
    rw [done] at records
    obtain ⟨s', put, rfl⟩ : ∃ s', mmPut s = .ok s' ∧ s'.pmm = p' := by
      cases outcome : mmPut s with
      | error e =>
          rw [outcome] at records
          cases records
      | ok s' =>
          rw [outcome] at records
          exact ⟨s', rfl, Except.ok.inj records⟩
    have bits := (freeRecords_ok done).2
    refine ⟨s', put, fun j user => ?_, fun j other => ?_⟩
    · obtain ⟨r, member, clears⟩ := mem_clearedFrames.mp ((cleared j).mpr user)
      rw [bits, Bool.and_eq_false_iff, decide_eq_false_iff_not]
      exact Or.inr fun none => none r member clears
    · rw [bits, decide_eq_true, Bool.and_true]
      exact fun r member clears => other ((cleared j).mp (mem_clearedFrames.mpr ⟨r, member, clears⟩))

end Teardown

/-! Runs -/

section Steps

variable {s s' : Space} {backing : List (Nat × Frame)} {ptrs : List Nat} {vaddr size ptr : Nat} {prot : Pgprot}

theorem spaceStep_populate (h : spaceStep s (.populate vaddr size prot ptr) = some s') :
    ∃ (count : Int) (m' : Mmu) (allocs : AllocMem),
      s.mmu.vmmAllocRange s.pgd vaddr size prot = .ok (count, m') ∧ 0 ≤ count ∧
      s.allocs.mmAddAlloc ptr vaddr count.toNat = .ok (0, allocs) ∧
      s' = { s with
        pmm := afterTaking s.pmm s.mmu.pool m'.pool
        mmu := m'
        allocs := allocs
        history := s.history ++ [⟨vaddr, count.toNat⟩] } := by
  simp only [spaceStep] at h
  cases range : s.mmu.vmmAllocRange s.pgd vaddr size prot with
  | error e =>
      rw [range] at h
      cases h
  | ok result =>
      rw [range] at h
      change (if result.1 < 0 then none else _) = some s' at h
      split at h
      · cases h
      · next done =>
          cases add : s.allocs.mmAddAlloc ptr vaddr result.1.toNat with
          | error e =>
              rw [add] at h
              cases h
          | ok added =>
              rw [add] at h
              change (if added.1 = 0 then _ else none) = some s' at h
              split at h
              · next zero =>
                  cases h
                  refine ⟨result.1, result.2, added.2, rfl, not_lt.mp done, ?_, rfl⟩
                  rw [add, ← zero]
              · cases h

theorem FilledInv.recorded (inv : FilledInv s backing ptrs) {b : Nat × Frame} (backs : b ∈ backing) :
    ∃ r ∈ s.history, ∃ i < r.pageCount, r.addr + i * pageSize = b.1 := by
  have page : b.1 ∈ s.history.flatMap recordPages := inv.pages ▸ List.mem_map_of_mem backs
  obtain ⟨r, recorded, member⟩ := List.mem_flatMap.mp page
  obtain ⟨i, bound, same⟩ := List.mem_map.mp member
  exact ⟨r, recorded, i, List.mem_range.mp bound, same⟩

theorem zip_backed {m : Mmu} {pgd count : Nat} {frames : List Frame}
    (backed : ∀ i f, frames[i]? = some f → BackedBy m pgd (vaddr + i * pageSize) f) :
    ∀ b ∈ (recordPages ⟨vaddr, count⟩).zip frames, b.2 ∈ frames ∧ BackedBy m pgd b.1 b.2 := by
  intro b member
  obtain ⟨i, found⟩ := List.mem_iff_getElem?.mp member
  obtain ⟨page, frame⟩ := List.getElem?_zip_eq_some.mp found
  refine ⟨List.mem_of_getElem? frame, ?_⟩
  rw [recordPages, List.getElem?_map, Option.map_eq_some_iff] at page
  obtain ⟨k, index, same⟩ := page
  obtain rfl : i = k := by
    obtain ⟨_, here⟩ := List.getElem?_eq_some_iff.mp index
    rwa [List.getElem_range] at here
  exact same ▸ backed i b.2 frame

theorem FilledInv.populate (inv : FilledInv s backing ptrs) (legal : (SpaceOp.populate vaddr size prot ptr).Legal s)
    (h : spaceStep s (.populate vaddr size prot ptr) = some s') :
    ∃ backing' ptrs', FilledInv s' backing' ptrs' := by
  obtain ⟨aligned, low, flags, apart, nonnull, fresh⟩ := legal
  obtain ⟨count, m', allocs, range, done, add, rfl⟩ := spaceStep_populate h
  simp only [Mmu.vmmAllocRange, isPageAligned_always, Bool.not_true, Bool.false_eq_true, if_false] at range
  have known : placesOf s.mmu s.pgd s.pgd = some ⟨false, 3, 0⟩ := inv.tree.placesOf_iff.mpr .top
  have whole : pageAlignUp size / pageSize * pageSize = pageAlignUp size :=
    Nat.div_mul_cancel (Nat.dvd_of_mod_eq_zero (pageAlignUp_mod size))
  have inside := pageAlignUp_low aligned low
  rw [← whole] at range inside apart
  generalize pageAlignUp size / pageSize = pages at range inside apart
  rcases inv.tree.typed.allocPages known flags aligned inside range with
    ⟨failed, _⟩ | ⟨roles', frames, counted, length, _, grows, backed, outside⟩
  · have negative : -eNoMem < 0 := by decide
    omega
  obtain rfl : count.toNat = pages := by omega
  obtain ⟨_, ptrs', added, _, listed, records⟩ :=
    AllocMem.mmAddAlloc_listed inv.listed nonnull fresh vaddr count.toNat
  cases add.symm.trans added
  have known' := grows.extended s.pgd _ known
  have tree := grows.typed.wellFormed known'
  have pageCount : (recordPages ⟨vaddr, count.toNat⟩).length = frames.length := by
    rw [recordPages, List.length_map, List.length_range, length]
  have fresh_ : ∀ b ∈ (recordPages ⟨vaddr, count.toNat⟩).zip frames, b.2 ∈ frames ∧ BackedBy m' s.pgd b.1 b.2 :=
    zip_backed backed.backed
  refine ⟨backing ++ (recordPages ⟨vaddr, count.toNat⟩).zip frames, ptrs', tree,
    inv.agree.afterTaking tree.poolDistinct grows.pool, listed, ?_, ?_, ?_, ?_, ?_, ?_, ?_, inv.last⟩
  · rw [records, inv.records, insertAll_concat]
  · intro r member
    rcases List.mem_append.mp member with old | new
    · exact inv.low r old
    · cases List.mem_singleton.mp new
      exact ⟨aligned, inside⟩
  · dsimp only
    rw [List.map_append, inv.pages, List.map_fst_zip (le_of_eq pageCount), List.flatMap_append, List.flatMap_singleton]
  · rw [List.map_append, List.map_snd_zip (le_of_eq pageCount.symm), List.nodup_append]
    refine ⟨inv.distinct, backed.distinct, fun f old g new same => ?_⟩
    obtain ⟨b, backs, rfl⟩ := List.mem_map.mp old
    exact (inv.inUse b backs).1 (same ▸ backed.free g new)
  · intro b member
    rcases List.mem_append.mp member with old | new
    · obtain ⟨canonical, found⟩ := inv.backed b old
      refine ⟨canonical, ?_⟩
      rw [backed.others b.1 canonical ?_]
      · exact found
      · obtain ⟨r, recorded, i, bound, page⟩ := inv.recorded old
        have distance := apart r recorded
        rw [length, ← page]
        have : i * pageSize + pageSize ≤ r.pageCount * pageSize := by
          rw [← Nat.succ_mul]
          exact Nat.mul_le_mul_right _ bound
        have : 0 < pageSize := by decide
        omega
    · exact (fresh_ b new).2
  · intro b member
    have out : Outside roles' m' b.2 := by
      rcases List.mem_append.mp member with old | new
      · obtain ⟨used, noTable⟩ := inv.inUse b old
        exact Outside.grows ⟨WellFormedTree.placesOf_none.mpr noTable, used⟩ grows
      · exact outside b.2 (fresh_ b new).1
    refine ⟨out.2, fun p table => ?_⟩
    cases out.1.symm.trans (grows.typed.tableAt known' table)
  · intro b member
    rcases List.mem_append.mp member with old | new
    · exact inv.inside b old
    · exact ((inv.agree.2 b.2).mp (backed.free b.2 (fresh_ b new).1)).1

theorem FilledInv.others {bitmap : Bitmap} {pool : List Frame} (inv : FilledInv s backing ptrs)
    (legal : (SpaceOp.others bitmap pool).Legal s) (h : spaceStep s (.others bitmap pool) = some s') :
    FilledInv s' backing ptrs := by
  cases h
  obtain ⟨agree, apart⟩ := legal
  refine ⟨⟨inv.tree.distinct, inv.tree.allowing, agree.1, fun f member => (apart f member).1⟩, agree, inv.listed,
    inv.records, inv.low, inv.pages, inv.distinct, inv.backed, fun b backs => ⟨fun member => ?_, (inv.inUse b backs).2⟩,
    inv.inside, inv.last⟩
  exact (apart b.2 member).2 ((inv.userFrame_iff _).mpr ⟨b, backs, rfl⟩)

theorem FilledInv.step (inv : FilledInv s backing ptrs) {op : SpaceOp} (legal : op.Legal s)
    (h : spaceStep s op = some s') : ∃ backing' ptrs', FilledInv s' backing' ptrs' := by
  cases op with
  | populate vaddr size prot ptr => exact inv.populate legal h
  | others bitmap pool => exact ⟨backing, ptrs, inv.others legal h⟩

end Steps

/-! mm_create -/

theorem FilledInv.start {p : Pmm} {v v' : Vmm} {kzallocOk : Bool} {taken : Nat} {mm : MmStruct}
    (kernel : WellFormedTree v.mmu v.kernelPgd) (agree : Agree p v.mmu.pool)
    (created : v.mmCreate kzallocOk taken = (.ok mm, v')) (nodes : AllocMem) :
    FilledInv (Space.start p v mm v' nodes) [] [] := by
  obtain ⟨f, rest, pool, pgd, count, mmu⟩ := mmCreate_ok created
  have tree : WellFormedTree v'.mmu mm.pgd := by
    rw [mmu, pgd]
    exact (kernel.drop taken).copy pool
  have fewer : ∀ g ∈ v'.mmu.pool, g ∈ v.mmu.pool := by
    intro g member
    rw [mmu] at member
    exact List.mem_of_mem_drop (pool ▸ List.mem_cons_of_mem f member)
  exact ⟨tree, agree.afterTaking tree.poolDistinct fewer, ⟨rfl, List.nodup_nil, List.forall_mem_nil _⟩, rfl,
    List.forall_mem_nil _, rfl, List.nodup_nil, List.forall_mem_nil _, List.forall_mem_nil _, List.forall_mem_nil _,
    count⟩

/-- mm_put gives back the frames of an address space only if it happens to find them: it frees the frames whose address
in the direct map is a recorded user address, not the frames behind the user addresses. -/
theorem mmPut_givesBack_iff {p : Pmm} {v v' : Vmm} {kzallocOk : Bool} {taken : Nat} {mm : MmStruct}
    (kernel : WellFormedTree v.mmu v.kernelPgd) (agree : Agree p v.mmu.pool)
    (created : v.mmCreate kzallocOk taken = (.ok mm, v')) (nodes : AllocMem) {ops : List SpaceOp} {s : Space}
    (legal : Meets spaceStep (fun s op => op.Legal s) (Space.start p v mm v' nodes) ops)
    (reached : run spaceStep (Space.start p v mm v' nodes) ops = some s) : s.GivesBack ↔ s.Aliased := by
  have start := FilledInv.start kernel agree created nodes
  obtain ⟨backing, ptrs, inv⟩ := run_invariant (P := fun s => ∃ backing ptrs, FilledInv s backing ptrs)
    (fun _ _ _ inv legal step => inv.elim fun _ inv => inv.elim fun _ inv => inv.step legal step)
    ⟨[], [], start⟩ legal reached
  exact inv.givesBack_iff

/-! Machines with a few free frames -/

def poolPmm (pool : List Frame) (size : Nat) : Pmm :=
  ⟨pool.foldl (fun bitmap f => bitmap.clearBit (f.paddr / pageSize)) fun _ => 0xFF#8, size, 0⟩

theorem poolPmm_bit (pool : List Frame) (size j : Nat) :
    (poolPmm pool size).bitmap.bit j = decide (∀ f ∈ pool, f.paddr / pageSize ≠ j) := by
  suffices all : ∀ bitmap : Bitmap, (pool.foldl (fun bitmap f => bitmap.clearBit (f.paddr / pageSize)) bitmap).bit j =
      (bitmap.bit j && decide (∀ f ∈ pool, f.paddr / pageSize ≠ j)) by
    have ones : Bitmap.bit (fun _ => 0xFF#8) j = true :=
      (by decide : ∀ i < 8, (0xFF#8).getLsbD i = true) (j % 8) (Nat.mod_lt _ (by decide))
    rw [poolPmm, all, ones, Bool.true_and]
  induction pool with
  | nil => simp
  | cons f rest ih =>
      intro bitmap
      rw [List.foldl_cons, ih, Bitmap.bit_clearBit, Bool.and_assoc, ← Bool.decide_and]
      simp

theorem poolPmm_agree {pool : List Frame} {size : Nat} (distinct : pool.Nodup)
    (inside : ∀ f ∈ pool, f.paddr / pageSize < 8 * size) : Agree (poolPmm pool size) pool := by
  refine ⟨distinct, fun f => ⟨fun member => ⟨inside f member, ?_⟩, ?_⟩⟩
  · rw [poolPmm_bit, decide_eq_false_iff_not]
    exact fun others => others f member rfl
  · rintro ⟨-, clear⟩
    rw [poolPmm_bit, decide_eq_false_iff_not] at clear
    push Not at clear
    obtain ⟨g, member, same⟩ := clear
    exact Frame.number_inj same ▸ member

def poolVmm (pool : List Frame) : Vmm := ⟨⟨fun _ _ => 0, pool, false⟩, 0x1000, []⟩

theorem poolVmm_wellFormed {pool : List Frame} (distinct : pool.Nodup) (apart : ∀ f ∈ pool, f.paddr ≠ 0x1000) :
    WellFormedTree (poolVmm pool).mmu (poolVmm pool).kernelPgd :=
  wellFormed_of_zero (fun _ _ => rfl) distinct apart

def smallMm : MmStruct := ⟨0x2000, [], 1⟩

def poolStart (pool : List Frame) (size : Nat) : Space :=
  Space.start (poolPmm pool size) (poolVmm pool) smallMm ((poolVmm pool).mmCreate true 0).2 AllocMem.noAllocs

theorem poolStart_legal {pool : List Frame} {size : Nat} :
    Meets spaceStep (fun s op => op.Legal s) (poolStart pool size) [.populate 0x400000 0x1000 userPages 8] :=
  ⟨⟨by decide, by decide, by decide, List.forall_mem_nil _, by decide, List.not_mem_nil⟩, fun _ _ => trivial⟩

theorem smallFrame_isFrame (n : Fin 6) : entryPaddr (0x2000 + n.val * pageSize) = 0x2000 + n.val * pageSize := by
  revert n
  decide

theorem smallFrame_nonNull (n : Fin 6) : 0x2000 + n.val * pageSize ≠ 0 := by omega

def smallFrame (n : Fin 6) : Frame := ⟨_, smallFrame_nonNull n, smallFrame_isFrame n⟩

def smallPool : List Frame := (List.finRange 6).map smallFrame

theorem farFrame_nonNull : 0x778000400000 ≠ 0 := by decide
theorem farFrame_isFrame : entryPaddr 0x778000400000 = 0x778000400000 := by decide

/-- The address of the second frame in the direct map is 0x400000. -/
def farPool : List Frame :=
  [smallFrame 0, ⟨_, farFrame_nonNull, farFrame_isFrame⟩, smallFrame 1, smallFrame 2, smallFrame 3]

/-- With 120 TiB of memory a page at 0x400000 may get just the frame that mm_put frees. -/
theorem mmPut_givesBack_iff_far : ∃ s,
    run spaceStep (poolStart farPool 0xF0000000) [.populate 0x400000 0x1000 userPages 8] = some s ∧
      s.UserFrame 0x778000400 ∧ s.GivesBack := by
  obtain ⟨s, reached, seen⟩ := Option.map_eq_some_iff.mp (by decide +kernel :
    (run spaceStep (poolStart farPool 0xF0000000) [.populate 0x400000 0x1000 userPages 8]).map (fun s =>
      (s.history, (translate s.mmu.tables s.pgd 0x400000).map fun leaf => leaf.paddr 0x400000, s.allocs.allocsHead,
        s.allocs.live, (s.allocs.node 8).toMmAllocation, (s.allocs.node 8).next)) =
      some ([⟨0x400000, 1⟩], some 0x778000400000, 8, [8], ⟨0x400000, 1⟩, 0))
  simp only [Prod.mk.injEq] at seen
  obtain ⟨history, page, head, live, record, next⟩ := seen
  obtain ⟨leaf, found, frame⟩ := Option.map_eq_some_iff.mp page
  have user : s.UserFrame 0x778000400 :=
    ⟨⟨0x400000, 1⟩, by rw [history]; exact List.mem_singleton_self _, 0x400000, by decide, leaf, found, frame⟩
  have created : (poolVmm farPool).mmCreate true 0 = (.ok smallMm, ((poolVmm farPool).mmCreate true 0).2) := rfl
  refine ⟨s, reached, user, (mmPut_givesBack_iff (poolVmm_wellFormed (by decide +kernel) (by decide +kernel))
    (poolPmm_agree (by decide +kernel) (by decide +kernel)) created AllocMem.noAllocs poolStart_legal reached).mpr ?_⟩
  rintro j ⟨r, recorded, a, member, leaf', found', frame'⟩
  rw [history] at recorded
  obtain rfl := List.mem_singleton.mp recorded
  obtain rfl : a = 0x400000 := List.mem_singleton.mp member
  cases found.symm.trans found'
  have number : j * pageSize = 0x778000400000 := frame'.symm.trans frame
  refine ⟨[8], ⟨⟨head, by rw [head]; decide, by rw [head]; exact next⟩, List.nodup_singleton 8, ?_⟩, _,
    List.mem_singleton_self _, ?_⟩
  · rw [live]
    exact fun q member => member
  · dsimp only
    rw [record, number]
    decide +kernel

/-- One page at 0x400000 in frame 3: mm_put clears a bit for frame 0x778000400, far behind the bitmap, and frame 3 stays
taken. -/
theorem mmPut_leaves_bitmap :
    Meets spaceStep (fun s op => op.Legal s) (poolStart smallPool 1) [.populate 0x400000 0x1000 userPages 8] ∧
      ∃ s s', run spaceStep (poolStart smallPool 1) [.populate 0x400000 0x1000 userPages 8] = some s ∧
        mmPut s = .ok s' ∧ s.UserFrame 3 ∧ s'.pmm.bitmap.bit 3 = true ∧
        s.pmm.bitmap.bit 0x778000400 = true ∧ s'.pmm.bitmap.bit 0x778000400 = false ∧ ¬ s.GivesBack := by
  refine ⟨poolStart_legal, ?_⟩
  obtain ⟨s, reached, seen⟩ := Option.map_eq_some_iff.mp (by decide +kernel :
    (run spaceStep (poolStart smallPool 1) [.populate 0x400000 0x1000 userPages 8]).map (fun s =>
      (s.history, (translate s.mmu.tables s.pgd 0x400000).map fun leaf => leaf.paddr 0x400000,
        s.pmm.bitmap.bit 0x778000400,
        (mmPut s).toOption.map fun s' => (s'.pmm.bitmap.bit 3, s'.pmm.bitmap.bit 0x778000400))) =
      some ([⟨0x400000, 1⟩], some 0x3000, true, some (true, false)))
  simp only [Prod.mk.injEq] at seen
  obtain ⟨history, page, before, after⟩ := seen
  obtain ⟨leaf, found, frame⟩ := Option.map_eq_some_iff.mp page
  obtain ⟨s', done, bits⟩ := Exec.exists_ok_of_map after
  obtain ⟨stays, cleared⟩ := Prod.mk.inj bits
  have user : s.UserFrame 3 :=
    ⟨⟨0x400000, 1⟩, by rw [history]; exact List.mem_singleton_self _, 0x400000, by decide, leaf, found, frame⟩
  refine ⟨s, s', reached, done, user, stays, before, cleared, ?_⟩
  rintro ⟨t, again, free, -⟩
  obtain rfl := Except.ok.inj (done.symm.trans again)
  cases stays.symm.trans (free 3 user)

end SnapOS.Paging
