/- The list of allocations of an address space: mm_create_alloc, mm_add_alloc and mm_alloc_main_stack of mm/mm.c. -/
import Mathlib.Data.List.Induction
import Mathlib.Data.List.Perm.Subperm
import SnapOS.Lib.Chain
import SnapOS.Lib.Run
import SnapOS.Vmm

namespace SnapOS.Paging
open SnapOS.Lib

/-- The macro `ERR_PTR`. -/
def errPtr (err : Int) : Nat := (err % (word64 : Int)).toNat

/-- `struct mm_allocation` with its link. -/
structure AllocNode extends MmAllocation where
  next : Nat
  deriving DecidableEq, Repr

/-- The nodes by address, the addresses that `kmalloc` has given out for them, and `allocs_head`. -/
structure AllocMem where
  live : List Nat
  node : Nat → AllocNode
  allocsHead : Nat

namespace AllocMem

def load (s : AllocMem) (p : Nat) : Exec AllocNode :=
  if p ∈ s.live then .ok (s.node p) else .error .outOfBounds

def link (s : AllocMem) (p q : Nat) : AllocMem :=
  { s with node := Function.update s.node p { s.node p with next := q } }

def setNext (s : AllocMem) (p q : Nat) : Exec AllocMem :=
  if p ∈ s.live then .ok (s.link p q) else .error .outOfBounds

def mmCreateAlloc (s : AllocMem) (ptr addr pageCount : Nat) : Nat × AllocMem :=
  if ptr = 0 then (errPtr (-eNoMem), s)
  else (ptr, { s with live := ptr :: s.live, node := Function.update s.node ptr ⟨⟨addr, pageCount⟩, 0⟩ })

-- `prev` stays at the head of the list while `cur` moves on.
def mmAddLoop (s : AllocMem) (prev alloc addr : Nat) : Nat → Nat → Exec (Int × AllocMem)
  | 0, _ => .error .outOfFuel
  | fuel + 1, cur =>
      if cur ≠ 0 then do
        let c ← s.load cur
        if addr ≤ c.addr then do
          let s ← s.setNext prev alloc
          let s ← s.setNext alloc cur
          .ok (0, s)
        else s.mmAddLoop prev alloc addr fuel c.next
      else do
        let s ← s.setNext prev alloc
        .ok (0, s)

def mmAddAlloc (s : AllocMem) (ptr addr pageCount : Nat) : Exec (Int × AllocMem) :=
  let (alloc, s) := s.mmCreateAlloc ptr addr pageCount
  if alloc = 0 then .ok (-eNoMem, s)
  else if s.allocsHead = 0 then .ok (0, { s with allocsHead := alloc })
  else do
    let head ← s.load s.allocsHead
    if addr ≤ head.addr then do
      let s ← s.setNext alloc s.allocsHead
      .ok (0, { s with allocsHead := alloc })
    else s.mmAddLoop s.allocsHead alloc addr (s.live.length + 1) head.next

/-- The list reachable from `allocs_head` has exactly these nodes. -/
structure Listed (s : AllocMem) (ptrs : List Nat) : Prop where
  chain : Chain (fun q => (s.node q).next) s.allocsHead ptrs
  nodup : ptrs.Nodup
  live : ∀ q ∈ ptrs, q ∈ s.live

def records (s : AllocMem) (ptrs : List Nat) : List MmAllocation := ptrs.map fun q => (s.node q).toMmAllocation

end AllocMem

/-- What `mm_add_alloc` makes of a list: behind the head it keeps only what follows the new record. -/
def insertAlloc (new : MmAllocation) : List MmAllocation → List MmAllocation
  | [] => [new]
  | first :: rest =>
      if new.addr ≤ first.addr then new :: first :: rest
      else first :: new :: rest.dropWhile fun r => r.addr < new.addr

def Ascending (l : List MmAllocation) : Prop := l.Pairwise fun a b => a.addr ≤ b.addr

section Insert

variable {new : MmAllocation} {l : List MmAllocation}

theorem countP_below_eq_zero {first : MmAllocation} {rest : List MmAllocation} (sorted : Ascending (first :: rest))
    (front : new.addr ≤ first.addr) : (first :: rest).countP (fun r => r.addr < new.addr) = 0 := by
  rw [List.countP_eq_zero]
  intro r member
  have above : first.addr ≤ r.addr := by
    rcases List.mem_cons.mp member with rfl | later
    · exact le_rfl
    · exact (List.pairwise_cons.mp sorted).1 r later
  simp only [decide_eq_true_eq, not_lt]
  exact front.trans above

theorem dropWhile_eq_self_iff {rest : List MmAllocation} (sorted : Ascending rest) :
    (rest.dropWhile fun r => r.addr < new.addr) = rest ↔ rest.countP (fun r => r.addr < new.addr) = 0 := by
  cases rest with
  | nil => simp
  | cons second others =>
      by_cases below : second.addr < new.addr
      · refine iff_of_false ?_ ?_
        · intro same
          have shorter := (List.dropWhile_suffix (fun r : MmAllocation => r.addr < new.addr) (l := others)).length_le
          rw [List.dropWhile_cons_of_pos (by simpa using below)] at same
          have := congrArg List.length same
          simp only [List.length_cons] at this
          omega
        · rw [List.countP_cons_of_pos (by simpa using below)]
          omega
      · refine iff_of_true (List.dropWhile_cons_of_neg (by simpa using below)) ?_
        exact countP_below_eq_zero sorted (not_lt.mp below)

theorem insertAlloc_eq (sorted : Ascending l) (few : l.countP (fun r => r.addr < new.addr) ≤ 1) :
    (insertAlloc new l).Perm (new :: l) ∧ Ascending (insertAlloc new l) := by
  cases l with
  | nil => exact ⟨List.Perm.refl _, List.pairwise_singleton _ _⟩
  | cons first rest =>
      have tail := (List.pairwise_cons.mp sorted).2
      by_cases front : new.addr ≤ first.addr
      · rw [insertAlloc, if_pos front]
        refine ⟨List.Perm.refl _, List.pairwise_cons.mpr ⟨?_, sorted⟩⟩
        intro r member
        rcases List.mem_cons.mp member with rfl | later
        · exact front
        · exact front.trans ((List.pairwise_cons.mp sorted).1 r later)
      · have below : first.addr < new.addr := not_le.mp front
        rw [List.countP_cons_of_pos (by simpa using below)] at few
        have none : rest.countP (fun r => r.addr < new.addr) = 0 := by omega
        rw [insertAlloc, if_neg front, (dropWhile_eq_self_iff tail).mpr none]
        refine ⟨List.Perm.swap _ _ _, List.pairwise_cons.mpr ⟨?_, List.pairwise_cons.mpr ⟨?_, tail⟩⟩⟩
        · intro r member
          rcases List.mem_cons.mp member with rfl | later
          · exact below.le
          · exact (List.pairwise_cons.mp sorted).1 r later
        · intro r member
          have above := List.countP_eq_zero.mp none r member
          simpa using above

theorem insertAlloc_length (sorted : Ascending l) (many : 1 < l.countP fun r => r.addr < new.addr) :
    (insertAlloc new l).length ≠ l.length + 1 := by
  cases l with
  | nil => simp at many
  | cons first rest =>
      have tail := (List.pairwise_cons.mp sorted).2
      by_cases front : new.addr ≤ first.addr
      · rw [countP_below_eq_zero sorted front] at many
        omega
      · have below : first.addr < new.addr := not_le.mp front
        rw [List.countP_cons_of_pos (by simpa using below)] at many
        have dropped : (rest.dropWhile fun r => r.addr < new.addr) ≠ rest := fun same => by
          have := (dropWhile_eq_self_iff tail).mp same
          omega
        rw [insertAlloc, if_neg front]
        intro same
        simp only [List.length_cons, Nat.add_right_cancel_iff] at same
        exact dropped ((List.dropWhile_suffix _).eq_of_length same)

end Insert

namespace AllocMem

variable {s s' : AllocMem} {ptrs : List Nat} {ptr addr pageCount : Nat}

@[simp] theorem link_live (p q : Nat) : (s.link p q).live = s.live := rfl

@[simp] theorem link_allocsHead (p q : Nat) : (s.link p q).allocsHead = s.allocsHead := rfl

theorem link_next (p q r : Nat) : ((s.link p q).node r).next = if r = p then q else (s.node r).next := by
  by_cases same : r = p
  · subst same
    simp [link]
  · simp [link, same]

theorem link_record (p q r : Nat) : ((s.link p q).node r).toMmAllocation = (s.node r).toMmAllocation := by
  by_cases same : r = p
  · subst same
    simp [link]
  · simp [link, same]

theorem setNext_live {p : Nat} (live : p ∈ s.live) (q : Nat) : s.setNext p q = .ok (s.link p q) := if_pos live

theorem setNext_dead {p : Nat} (dead : p ∉ s.live) (q : Nat) : s.setNext p q = .error .outOfBounds := if_neg dead

theorem load_live {p : Nat} (live : p ∈ s.live) : s.load p = .ok (s.node p) := if_pos live

/-- What the loop does when it has found the node `q` to link to, null for the end of the list. -/
def splice (s : AllocMem) (prev alloc q : Nat) : Exec (Int × AllocMem) := do
  let s ← s.setNext prev alloc
  let s ← if q = 0 then .ok s else s.setNext alloc q
  .ok (0, s)

theorem mmAddLoop_eq {prev alloc cur fuel : Nat} (chain : Chain (fun q => (s.node q).next) cur ptrs)
    (live : ∀ q ∈ ptrs, q ∈ s.live) (enough : ptrs.length < fuel) :
    s.mmAddLoop prev alloc addr fuel cur =
      s.splice prev alloc ((ptrs.dropWhile fun q => (s.node q).addr < addr).headD 0) := by
  induction ptrs generalizing cur fuel with
  | nil =>
      obtain rfl : cur = 0 := chain
      obtain ⟨fuel, rfl⟩ : ∃ n, fuel = n + 1 := ⟨fuel - 1, by simp at enough; omega⟩
      simp [mmAddLoop, splice]
  | cons q rest ih =>
      obtain ⟨rfl, nonzero, tail⟩ := chain
      obtain ⟨fuel, rfl⟩ : ∃ n, fuel = n + 1 := ⟨fuel - 1, by simp at enough; omega⟩
      rw [mmAddLoop, if_pos nonzero, load_live (live cur List.mem_cons_self), Exec.ok_bind]
      by_cases found : addr ≤ (s.node cur).addr
      · rw [if_pos found, List.dropWhile_cons_of_neg (by simpa using found), List.headD_cons, splice]
        simp only [if_neg nonzero]
      · rw [if_neg found, List.dropWhile_cons_of_pos (by simpa using found)]
        exact ih tail (fun r member => live r (List.mem_cons_of_mem cur member)) (by simp at enough; omega)

/-- Behind the head the list continues with the new node and what it was linked to. -/
structure Spliced (s s' : AllocMem) (prev alloc q : Nat) : Prop where
  live : s'.live = s.live
  head : s'.allocsHead = s.allocsHead
  records : ∀ r, (s'.node r).toMmAllocation = (s.node r).toMmAllocation
  next : ∀ r, (s'.node r).next = if r = prev then alloc else if r = alloc then q else (s.node r).next

theorem splice_live {prev alloc : Nat} (q : Nat) (prevLive : prev ∈ s.live) (allocLive : alloc ∈ s.live)
    (differ : prev ≠ alloc) (null : (s.node alloc).next = 0) :
    ∃ s', s.splice prev alloc q = .ok (0, s') ∧ Spliced s s' prev alloc q := by
  by_cases last : q = 0
  · refine ⟨s.link prev alloc, ?_, rfl, rfl, fun r => link_record _ _ r, fun r => ?_⟩
    · rw [splice, setNext_live prevLive, Exec.ok_bind, if_pos last, Exec.ok_bind]
    · rw [link_next]
      by_cases new : r = alloc
      · rw [if_neg (by rintro rfl; exact differ new), if_neg (by rintro rfl; exact differ new), if_pos new, new, null,
          last]
      · rw [if_neg new]
  · refine ⟨(s.link prev alloc).link alloc q, ?_, rfl, rfl, fun r => ?_, fun r => ?_⟩
    · rw [splice, setNext_live prevLive, Exec.ok_bind, if_neg last, setNext_live (by exact allocLive), Exec.ok_bind]
    · rw [link_record, link_record]
    · rw [link_next, link_next]
      by_cases new : r = alloc
      · rw [if_pos new, if_neg (by rintro rfl; exact differ new), if_pos new]
      · rw [if_neg new, if_neg new]

def created (s : AllocMem) (ptr addr pageCount : Nat) : AllocMem :=
  { s with live := ptr :: s.live, node := Function.update s.node ptr ⟨⟨addr, pageCount⟩, 0⟩ }

theorem created_node {q : Nat} (other : q ≠ ptr) : (s.created ptr addr pageCount).node q = s.node q :=
  Function.update_of_ne other _ _

theorem created_self : (s.created ptr addr pageCount).node ptr = ⟨⟨addr, pageCount⟩, 0⟩ := Function.update_self _ _ _

theorem Listed.other (list : s.Listed ptrs) (fresh : ptr ∉ s.live) {q : Nat} (member : q ∈ ptrs) : q ≠ ptr := by
  rintro rfl
  exact fresh (list.live q member)

theorem Listed.created (list : s.Listed ptrs) (fresh : ptr ∉ s.live) (addr pageCount : Nat) :
    (s.created ptr addr pageCount).Listed ptrs := by
  refine ⟨list.chain.congr fun q member => ?_, list.nodup, fun q member =>
    List.mem_cons_of_mem ptr (list.live q member)⟩
  rw [created_node (list.other fresh member)]

theorem Listed.length_le (list : s.Listed ptrs) : ptrs.length ≤ s.live.length :=
  (List.subperm_of_subset list.nodup list.live).length_le

theorem Listed.push (list : s.Listed ptrs) (nonnull : ptr ≠ 0) (ptrLive : ptr ∈ s.live) (new : ptr ∉ ptrs) :
    { s.link ptr s.allocsHead with allocsHead := ptr }.Listed (ptr :: ptrs) := by
  refine ⟨⟨rfl, nonnull, ?_⟩, List.nodup_cons.mpr ⟨new, list.nodup⟩, ?_⟩
  · change Chain _ ((s.link ptr s.allocsHead).node ptr).next ptrs
    rw [link_next, if_pos rfl]
    apply list.chain.congr
    intro q member
    exact (link_next _ _ q).trans (if_neg (by rintro rfl; exact new member))
  · intro q member
    rcases List.mem_cons.mp member with rfl | later
    · exact ptrLive
    · exact list.live q later

theorem Spliced.listed {first : Nat} {skipped later : List Nat} (spliced : Spliced s s' first ptr (later.headD 0))
    (list : s.Listed (first :: (skipped ++ later))) (nonnull : ptr ≠ 0) (ptrLive : ptr ∈ s.live)
    (new : ptr ∉ first :: (skipped ++ later)) : s'.Listed (first :: ptr :: later) := by
  obtain ⟨head, firstNonnull, tail⟩ := list.chain
  have nodup := list.nodup
  simp only [List.nodup_cons, List.nodup_append, List.mem_append, not_or] at nodup
  simp only [List.mem_cons, List.mem_append, not_or] at new
  have firstNext : (s'.node first).next = ptr := by rw [spliced.next, if_pos rfl]
  have ptrNext : (s'.node ptr).next = later.headD 0 := by rw [spliced.next, if_neg new.1, if_pos rfl]
  refine ⟨⟨spliced.head.trans head, ?_, ?_⟩, ?_, ?_⟩
  · rw [spliced.head]
    exact firstNonnull
  · dsimp only
    rw [spliced.head, head, firstNext]
    refine ⟨rfl, nonnull, ?_⟩
    dsimp only
    rw [ptrNext]
    apply tail.suffix.congr
    intro q member
    rw [spliced.next, if_neg (by rintro rfl; exact nodup.1.2 member), if_neg (by rintro rfl; exact new.2.2 member)]
  · simp only [List.nodup_cons, List.mem_cons, not_or]
    exact ⟨⟨fun same => new.1 same.symm, nodup.1.2⟩, new.2.2, nodup.2.2.1⟩
  · intro q member
    rw [spliced.live]
    simp only [List.mem_cons] at member
    rcases member with rfl | rfl | member
    · exact list.live q List.mem_cons_self
    · exact ptrLive
    · exact list.live q (List.mem_cons_of_mem _ (List.mem_append_right _ member))

theorem records_congr (same : ∀ q ∈ ptrs, (s'.node q).toMmAllocation = (s.node q).toMmAllocation) :
    s'.records ptrs = s.records ptrs := List.map_congr_left same

theorem mmAddAlloc_listed (list : s.Listed ptrs) (nonnull : ptr ≠ 0) (fresh : ptr ∉ s.live) (addr pageCount : Nat) :
    ∃ s' ptrs', s.mmAddAlloc ptr addr pageCount = .ok (0, s') ∧ s'.live = ptr :: s.live ∧ s'.Listed ptrs' ∧
      s'.records ptrs' = insertAlloc ⟨addr, pageCount⟩ (s.records ptrs) := by
  have inserted : s.mmCreateAlloc ptr addr pageCount = (ptr, s.created ptr addr pageCount) := if_neg nonnull
  have same : (s.created ptr addr pageCount).records ptrs = s.records ptrs :=
    records_congr fun q member => by rw [created_node (list.other fresh member)]
  have new : ptr ∉ ptrs := fun member => list.other fresh member rfl
  have ptrLive : ptr ∈ (s.created ptr addr pageCount).live := List.mem_cons_self
  have ptrNode : (s.created ptr addr pageCount).node ptr = ⟨⟨addr, pageCount⟩, 0⟩ := created_self
  replace list := list.created fresh addr pageCount
  have grown : (s.created ptr addr pageCount).live = ptr :: s.live := rfl
  rw [mmAddAlloc, inserted, ← same, ← grown]
  dsimp only
  rw [if_neg nonnull]
  generalize s.created ptr addr pageCount = t at list ptrLive ptrNode ⊢
  cases ptrs with
  | nil =>
      have empty : t.allocsHead = 0 := list.chain
      rw [if_pos empty]
      refine ⟨_, [ptr], rfl, rfl, ⟨⟨rfl, nonnull, ?_⟩, List.nodup_singleton ptr, ?_⟩, ?_⟩
      · exact congrArg AllocNode.next ptrNode
      · intro q member
        rw [List.mem_singleton.mp member]
        exact ptrLive
      · exact congrArg (fun n : AllocNode => [n.toMmAllocation]) ptrNode
  | cons first rest =>
      obtain ⟨head, firstNonnull, tail⟩ := list.chain
      have firstLive := list.live first List.mem_cons_self
      have different : first ≠ ptr := fun same => new (same ▸ List.mem_cons_self)
      rw [if_neg firstNonnull, head, load_live firstLive, Exec.ok_bind]
      by_cases front : addr ≤ (t.node first).addr
      · rw [if_pos front, setNext_live ptrLive, Exec.ok_bind]
        refine ⟨_, ptr :: first :: rest, rfl, rfl, ?_, ?_⟩
        · rw [← head]
          exact head ▸ list.push nonnull ptrLive new
        · have kept : ∀ q, (({ t.link ptr first with allocsHead := ptr } : AllocMem).node q).toMmAllocation =
              (t.node q).toMmAllocation := link_record ptr first
          rw [records_congr (s := t) fun q _ => kept q]
          simp only [records, List.map_cons, insertAlloc, ptrNode, if_pos front]
      · have behind : Chain (fun q => (t.node q).next) (t.node first).next rest := head ▸ tail
        have enough : rest.length < t.live.length + 1 :=
          Nat.lt_succ_of_lt (Nat.lt_of_succ_le list.length_le)
        rw [if_neg front, mmAddLoop_eq behind (fun q member => list.live q (List.mem_cons_of_mem _ member)) enough]
        obtain ⟨t', done, spliced⟩ := splice_live (s := t)
          ((rest.dropWhile fun q => (t.node q).addr < addr).headD 0) firstLive ptrLive different (by rw [ptrNode])
        have parts := List.takeWhile_append_dropWhile (p := fun q => decide ((t.node q).addr < addr)) (l := rest)
        refine ⟨t', first :: ptr :: rest.dropWhile fun q => (t.node q).addr < addr, done, spliced.live, ?_, ?_⟩
        · rw [← parts] at list new
          exact spliced.listed list nonnull ptrLive new
        · rw [records_congr (s := t) fun q _ => spliced.records q]
          simp only [records, List.map_cons, insertAlloc, ptrNode, if_neg front, List.dropWhile_map]
          rfl

end AllocMem

/-- A call of `mm_add_alloc` with the node that its `kmalloc` returns. -/
structure AddCall extends MmAllocation where
  ptr : Nat

namespace AllocMem

def addStep (s : AllocMem) (c : AddCall) : Option AllocMem :=
  (s.mmAddAlloc c.ptr c.addr c.pageCount).toOption.bind fun result => if result.1 = 0 then some result.2 else none

/-- `kmalloc` has returned a node, and no one that is in use. -/
def Granted (s : AllocMem) (c : AddCall) : Prop := c.ptr ≠ 0 ∧ c.ptr ∉ s.live

instance (s : AllocMem) (c : AddCall) : Decidable (s.Granted c) := inferInstanceAs (Decidable (_ ∧ _))

/-- The list under `allocs_head` is ascending and has exactly the added records. -/
def Keeps (s : AllocMem) (added : List MmAllocation) : Prop :=
  ∃ ptrs, s.Listed ptrs ∧ Ascending (s.records ptrs) ∧ (s.records ptrs).Perm added

end AllocMem

/-- Each record finds at most one lower address among those added before it. -/
def FewBelow (added : List MmAllocation) : Prop :=
  ∀ before new after, added = before ++ new :: after → before.countP (fun r => r.addr < new.addr) ≤ 1

def insertAll (l added : List MmAllocation) : List MmAllocation := added.foldl (fun l r => insertAlloc r l) l

theorem insertAll_concat (l added : List MmAllocation) (r : MmAllocation) :
    insertAll l (added ++ [r]) = insertAlloc r (insertAll l added) := by
  rw [insertAll, List.foldl_append]
  rfl

theorem fewBelow_concat {l : List MmAllocation} {r : MmAllocation} :
    FewBelow (l ++ [r]) ↔ FewBelow l ∧ l.countP (fun q => q.addr < r.addr) ≤ 1 := by
  constructor
  · intro few
    refine ⟨?_, few l r [] rfl⟩
    rintro before new after rfl
    exact few before new (after ++ [r]) (by simp)
  · rintro ⟨few, last⟩ before new after same
    rcases List.eq_nil_or_concat after with rfl | ⟨after, end_, rfl⟩
    · obtain ⟨rfl, ends⟩ := List.append_inj' same rfl
      cases ends
      exact last
    · have parts : l ++ [r] = (before ++ new :: after) ++ [end_] := by simpa using same
      exact few before new after (List.append_inj_left' parts rfl)

theorem fewBelow_nil : FewBelow [] := by
  intro before new after same
  cases before <;> cases same

theorem insertAlloc_length_le (new : MmAllocation) (l : List MmAllocation) :
    (insertAlloc new l).length ≤ l.length + 1 := by
  cases l with
  | nil => exact le_rfl
  | cons first rest =>
      rw [insertAlloc]
      split
      · exact le_rfl
      · have shorter := (List.dropWhile_suffix (fun r : MmAllocation => r.addr < new.addr) (l := rest)).length_le
        simp only [List.length_cons]
        omega

theorem insertAll_length_le (added : List MmAllocation) : (insertAll [] added).length ≤ added.length := by
  induction added using List.reverseRecOn with
  | nil => exact le_rfl
  | append_singleton l r ih =>
      have one := insertAlloc_length_le r (insertAll [] l)
      rw [insertAll_concat, List.length_append]
      exact one.trans (Nat.succ_le_succ ih)

/-- A record that was dropped is missed in the length for good. -/
theorem insertAll_cases (added : List MmAllocation) :
    (FewBelow added → Ascending (insertAll [] added) ∧ (insertAll [] added).Perm added) ∧
      ((insertAll [] added).length = added.length → FewBelow added) := by
  induction added using List.reverseRecOn with
  | nil =>
      exact ⟨fun _ => ⟨List.Pairwise.nil, List.Perm.refl _⟩, fun _ => fewBelow_nil⟩
  | append_singleton l r ih =>
      rw [insertAll_concat]
      constructor
      · intro few
        obtain ⟨fewBefore, here⟩ := fewBelow_concat.mp few
        obtain ⟨sorted, perm⟩ := ih.1 fewBefore
        rw [← perm.countP_eq] at here
        obtain ⟨inserted, ascending⟩ := insertAlloc_eq sorted here
        exact ⟨ascending, inserted.trans ((perm.cons r).trans (List.perm_append_singleton r l).symm)⟩
      · intro full
        have one := insertAlloc_length_le r (insertAll [] l)
        have before := insertAll_length_le l
        rw [List.length_append, List.length_singleton] at full
        have fewBefore := ih.2 (by omega)
        obtain ⟨sorted, perm⟩ := ih.1 fewBefore
        refine fewBelow_concat.mpr ⟨fewBefore, ?_⟩
        rw [← perm.countP_eq]
        by_contra many
        exact insertAlloc_length sorted (not_le.mp many) (by rw [full, perm.length_eq])

theorem insertAll_exact_iff (added : List MmAllocation) :
    (Ascending (insertAll [] added) ∧ (insertAll [] added).Perm added) ↔ FewBelow added :=
  ⟨fun exact_ => (insertAll_cases added).2 exact_.2.length_eq, (insertAll_cases added).1⟩

namespace AllocMem

variable {s : AllocMem} {ptrs : List Nat}

theorem addStep_granted (list : s.Listed ptrs) {c : AddCall} (granted : s.Granted c) :
    ∃ s' ptrs', s.addStep c = some s' ∧ s'.Listed ptrs' ∧
      s'.records ptrs' = insertAlloc c.toMmAllocation (s.records ptrs) := by
  obtain ⟨s', ptrs', done, _, list', records⟩ := mmAddAlloc_listed list granted.1 granted.2 c.addr c.pageCount
  refine ⟨s', ptrs', ?_, list', records⟩
  rw [addStep, done]
  rfl

theorem run_granted {calls : List AddCall} (list : s.Listed ptrs) (granted : Meets addStep Granted s calls) :
    ∃ s' ptrs', run addStep s calls = some s' ∧ s'.Listed ptrs' ∧
      s'.records ptrs' = insertAll (s.records ptrs) (calls.map AddCall.toMmAllocation) := by
  induction calls generalizing s ptrs with
  | nil => exact ⟨s, ptrs, rfl, list, rfl⟩
  | cons c rest ih =>
      obtain ⟨s₁, ptrs₁, first, list₁, records₁⟩ := addStep_granted list granted.1
      obtain ⟨s', ptrs', later, list', records'⟩ := ih list₁ (granted.2 s₁ first)
      refine ⟨s', ptrs', ?_, list', ?_⟩
      · rw [run, first]
        exact later
      · rw [records', records₁]
        rfl

theorem Listed.keeps_iff (list : s.Listed ptrs) (added : List MmAllocation) :
    s.Keeps added ↔ Ascending (s.records ptrs) ∧ (s.records ptrs).Perm added := by
  constructor
  · rintro ⟨ptrs', list', exact_⟩
    rw [list.chain.unique list'.chain]
    exact exact_
  · exact fun exact_ => ⟨ptrs, list, exact_⟩

/-- From an empty list, successful calls all return, and they lose no record and keep the list ascending exactly if
each of them found at most one lower address: mm_add_alloc leaves `prev` at the head. -/
theorem mmAddAlloc_keeps_iff (s : AllocMem) (empty : s.allocsHead = 0) (calls : List AddCall)
    (granted : Meets addStep Granted s calls) :
    ∃ s', run addStep s calls = some s' ∧
      (s'.Keeps (calls.map AddCall.toMmAllocation) ↔ FewBelow (calls.map AddCall.toMmAllocation)) := by
  have list : s.Listed [] := ⟨empty, List.nodup_nil, List.forall_mem_nil _⟩
  obtain ⟨s', ptrs', done, list', records⟩ := run_granted list granted
  refine ⟨s', done, ?_⟩
  rw [list'.keeps_iff, records]
  exact insertAll_exact_iff _

def noAllocs : AllocMem := ⟨[], fun _ => ⟨⟨0, 0⟩, 0⟩, 0⟩

def ascendingCalls : List AddCall := [⟨⟨0x400000, 1⟩, 8⟩, ⟨⟨0x500000, 2⟩, 16⟩, ⟨⟨0x600000, 3⟩, 24⟩]

theorem descending_fewBelow : FewBelow (ascendingCalls.reverse.map AddCall.toMmAllocation) := by
  have one : FewBelow [⟨0x600000, 3⟩] := fewBelow_concat.mpr ⟨fewBelow_nil, by decide⟩
  have two : FewBelow [⟨0x600000, 3⟩, ⟨0x500000, 2⟩] := fewBelow_concat.mpr ⟨one, by decide⟩
  exact fewBelow_concat.mpr ⟨two, by decide⟩

theorem mmAddAlloc_keeps_iff_descending :
    noAllocs.allocsHead = 0 ∧ Meets addStep Granted noAllocs ascendingCalls.reverse ∧
      ∃ s', run addStep noAllocs ascendingCalls.reverse = some s' ∧
        s'.Keeps (ascendingCalls.reverse.map AddCall.toMmAllocation) := by
  have granted : Meets addStep Granted noAllocs ascendingCalls.reverse := by decide
  obtain ⟨s', done, keeps⟩ := mmAddAlloc_keeps_iff noAllocs rfl ascendingCalls.reverse granted
  exact ⟨rfl, granted, s', done, keeps.mpr descending_fewBelow⟩

theorem ascending_done : (run addStep noAllocs ascendingCalls).isSome = true := by decide

def afterAscending : AllocMem := (run addStep noAllocs ascendingCalls).get ascending_done

theorem afterAscending_listed : afterAscending.Listed [8, 24] :=
  ⟨⟨rfl, by decide, rfl, by decide, rfl⟩, by decide, by decide⟩

/-- The third of three ascending records makes the list forget the second. -/
theorem second_record_lost :
    Meets addStep Granted noAllocs ascendingCalls ∧ run addStep noAllocs ascendingCalls = some afterAscending ∧
      afterAscending.records [8, 24] = [⟨0x400000, 1⟩, ⟨0x600000, 3⟩] ∧
      ¬ afterAscending.Keeps (ascendingCalls.map AddCall.toMmAllocation) := by
  refine ⟨by decide, (Option.some_get ascending_done).symm, by decide, ?_⟩
  rw [afterAscending_listed.keeps_iff]
  exact fun keeps => absurd keeps.2.length_eq (by decide)

/-! A failed `kmalloc`. -/

/-- `mm_add_alloc` never returns anything else than 0. -/
theorem mmAddLoop_returns {prev alloc addr fuel cur : Nat} {res : Int} {s' : AllocMem}
    (done : s.mmAddLoop prev alloc addr fuel cur = .ok (res, s')) : res = 0 := by
  induction fuel generalizing cur with
  | zero => cases done
  | succ fuel ih =>
      rw [mmAddLoop] at done
      split at done
      · obtain ⟨c, _, done⟩ := Exec.bind_eq_ok.mp done
        split at done
        · obtain ⟨_, _, done⟩ := Exec.bind_eq_ok.mp done
          obtain ⟨_, _, done⟩ := Exec.bind_eq_ok.mp done
          cases done
          rfl
        · exact ih done
      · obtain ⟨_, _, done⟩ := Exec.bind_eq_ok.mp done
        cases done
        rfl

theorem mmCreateAlloc_ne_zero (s : AllocMem) (ptr addr pageCount : Nat) :
    (s.mmCreateAlloc ptr addr pageCount).1 ≠ 0 := by
  have errPtr_ne : errPtr (-eNoMem) ≠ 0 := by decide
  rw [mmCreateAlloc]
  split
  · exact errPtr_ne
  · next nonnull => exact nonnull

theorem mmAddAlloc_returns {ptr addr pageCount : Nat} {res : Int} {s' : AllocMem}
    (done : s.mmAddAlloc ptr addr pageCount = .ok (res, s')) : res = 0 := by
  rw [mmAddAlloc] at done
  dsimp only at done
  rw [if_neg (mmCreateAlloc_ne_zero s ptr addr pageCount)] at done
  split at done
  · cases done
    rfl
  · obtain ⟨head, _, done⟩ := Exec.bind_eq_ok.mp done
    split at done
    · obtain ⟨_, _, done⟩ := Exec.bind_eq_ok.mp done
      cases done
      rfl
    · exact mmAddLoop_returns done

/-- The pointer to no node is at the head of the list or right behind it. -/
def Damaged (s : AllocMem) (bogus : Nat) : Prop :=
  s.allocsHead = bogus ∨ s.allocsHead ≠ 0 ∧ (s.node s.allocsHead).next = bogus

theorem Damaged.not_listed {bogus : Nat} (damaged : s.Damaged bogus) (nonnull : bogus ≠ 0) (dead : bogus ∉ s.live) :
    ¬ s.Listed ptrs := by
  intro list
  rcases damaged with head | ⟨some_, second⟩
  · cases ptrs with
    | nil => exact nonnull (head.symm.trans list.chain)
    | cons first rest => exact dead (head ▸ list.chain.1 ▸ list.live first List.mem_cons_self)
  · cases ptrs with
    | nil => exact some_ list.chain
    | cons first rest =>
        have behind := list.chain.2.2
        dsimp only at behind
        rw [second] at behind
        cases rest with
        | nil => exact nonnull behind
        | cons next later => exact dead (behind.1 ▸ list.live next (List.mem_cons_of_mem _ List.mem_cons_self))

theorem mmAddLoop_bogus {prev bogus addr fuel cur : Nat} {res : Int} {s' : AllocMem} (dead : bogus ∉ s.live)
    (done : s.mmAddLoop prev bogus addr fuel cur = .ok (res, s')) : s' = s.link prev bogus := by
  induction fuel generalizing cur with
  | zero => cases done
  | succ fuel ih =>
      rw [mmAddLoop] at done
      split at done
      · obtain ⟨c, _, done⟩ := Exec.bind_eq_ok.mp done
        split at done
        · obtain ⟨t, first, done⟩ := Exec.bind_eq_ok.mp done
          obtain ⟨u, second, done⟩ := Exec.bind_eq_ok.mp done
          have live : t.live = s.live := by
            rw [setNext] at first
            split at first <;> cases first
            rfl
          rw [setNext_dead (live ▸ dead)] at second
          cases second
        · exact ih done
      · obtain ⟨t, first, done⟩ := Exec.bind_eq_ok.mp done
        cases done
        rw [setNext] at first
        split at first <;> cases first
        rfl

/-- A call that returns although `kmalloc` failed has linked the error pointer. -/
theorem mmAddAlloc_null {addr pageCount : Nat} {res : Int} {s' : AllocMem} (dead : errPtr (-eNoMem) ∉ s.live)
    (done : s.mmAddAlloc 0 addr pageCount = .ok (res, s')) : s'.live = s.live ∧ s'.Damaged (errPtr (-eNoMem)) := by
  have create : s.mmCreateAlloc 0 addr pageCount = (errPtr (-eNoMem), s) := rfl
  rw [mmAddAlloc, create] at done
  dsimp only at done
  rw [if_neg (by decide)] at done
  split at done
  · cases done
    exact ⟨rfl, Or.inl rfl⟩
  · next nonempty =>
      obtain ⟨head, _, done⟩ := Exec.bind_eq_ok.mp done
      split at done
      · obtain ⟨t, front, _⟩ := Exec.bind_eq_ok.mp done
        rw [setNext_dead dead] at front
        cases front
      · obtain rfl := mmAddLoop_bogus dead done
        refine ⟨rfl, Or.inr ⟨nonempty, ?_⟩⟩
        rw [link_allocsHead, link_next, if_pos rfl]

end AllocMem

def taskUserStackPageCount : Nat := 4
def taskUserStackSize : Nat := taskUserStackPageCount * pageSize
def stackBottom : Nat := taskUserStackTopAddr - taskUserStackSize
def stackProt : Pgprot := ⟨pageNoExecute ||| pageRw ||| pageUser, false⟩

/-- `ptr` is what the `kmalloc` in `mm_create_alloc` returns. -/
def mmAllocMainStack (m : Mmu) (s : AllocMem) (pgd ptr : Nat) : Exec (Int × Mmu × AllocMem) := do
  let (count, m) ← m.vmmAllocRange pgd stackBottom taskUserStackSize stackProt
  if count < 0 then .ok (-eNoMem, m, s)
  else do
    let (res, s) ← s.mmAddAlloc ptr stackBottom taskUserStackPageCount
    if res < 0 then .ok (res, m, s) else .ok (0, m, s)

namespace AllocMem

/-- When `kmalloc` returns null, `mm_add_alloc` returns -ENOMEM with the list as it was. -/
def ReportsNoMem (s : AllocMem) (ptr addr pageCount : Nat) : Prop :=
  ptr = 0 → ∃ s', s.mmAddAlloc ptr addr pageCount = .ok (-eNoMem, s') ∧
    ∀ ptrs, s.Listed ptrs → s'.Listed ptrs ∧ s'.records ptrs = s.records ptrs

/-- When the stack has its pages and `kmalloc` returns null, `mm_alloc_main_stack` returns a negative value. -/
def StackReportsNoMem (m : Mmu) (s : AllocMem) (pgd ptr : Nat) : Prop :=
  ptr = 0 → ∃ res out, mmAllocMainStack m s pgd ptr = .ok (res, out) ∧ res < 0

theorem mmAllocMainStack_returns {m m' : Mmu} {s : AllocMem} {pgd ptr : Nat} {count res : Int} {out : Mmu × AllocMem}
    (pages : m.vmmAllocRange pgd stackBottom taskUserStackSize stackProt = .ok (count, m')) (enough : 0 ≤ count)
    (done : mmAllocMainStack m s pgd ptr = .ok (res, out)) : res = 0 := by
  rw [mmAllocMainStack, pages, Exec.ok_bind] at done
  dsimp only at done
  rw [if_neg (not_lt.mpr enough)] at done
  obtain ⟨⟨added, s'⟩, add, done⟩ := Exec.bind_eq_ok.mp done
  obtain rfl := mmAddAlloc_returns add
  cases done
  rfl

/-- For no list and no address does mm_add_alloc report that `kmalloc` failed: the error pointer of mm_create_alloc
is not null. A call that returns has linked it, and the list then runs into an address without a node. -/
theorem mmAddAlloc_reports_iff (m : Mmu) (s : AllocMem) (pgd ptr addr pageCount : Nat) :
    (s.ReportsNoMem ptr addr pageCount ↔ ptr ≠ 0) ∧
      (∀ count m', m.vmmAllocRange pgd stackBottom taskUserStackSize stackProt = .ok (count, m') → 0 ≤ count →
        (StackReportsNoMem m s pgd ptr ↔ ptr ≠ 0)) ∧
      ∀ res s', errPtr (-eNoMem) ∉ s.live → s.mmAddAlloc 0 addr pageCount = .ok (res, s') →
        res = 0 ∧ ∀ ptrs, ¬ s'.Listed ptrs := by
  refine ⟨⟨?_, fun nonnull null => absurd null nonnull⟩, fun count m' pages enough => ⟨?_, fun nonnull null =>
    absurd null nonnull⟩, ?_⟩
  · intro reports null
    obtain ⟨s', done, _⟩ := reports null
    exact absurd (mmAddAlloc_returns done) (by decide)
  · intro reports null
    obtain ⟨res, out, done, negative⟩ := reports null
    have zero := mmAllocMainStack_returns pages enough done
    omega
  · intro res s' dead done
    obtain ⟨live, damaged⟩ := mmAddAlloc_null dead done
    exact ⟨mmAddAlloc_returns done, fun ptrs => damaged.not_listed (by decide) (live ▸ dead)⟩

/-- The first record of an address space, with no memory for its node: the call returns 0 and `allocs_head` is
ERR_PTR(-ENOMEM). -/
theorem error_pointer_linked :
    noAllocs.mmAddAlloc 0 0x400000 1 = .ok (0, { noAllocs with allocsHead := 0xFFFFFFFFFFFFFFF4 }) ∧
      ¬ noAllocs.ReportsNoMem 0 0x400000 1 := by
  refine ⟨rfl, fun reports => ?_⟩
  obtain ⟨s', done, _⟩ := reports rfl
  exact absurd (mmAddAlloc_returns done) (by decide)

end AllocMem

end SnapOS.Paging
