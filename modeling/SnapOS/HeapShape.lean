/- What the kernel heap looks like in memory: pool pages cut into slots, free lists threaded through
free slots, and nodes that describe the page runs of big allocations. -/
import SnapOS.FrameOwnership
import SnapOS.Kmalloc

namespace SnapOS.Mm
open SnapOS.Lib

/-! Pages seen through the direct map. A frame below the physical limit has a page of pointers that
does not wrap. -/

def frameLimit : Nat := 2 ^ 40

def pagePtr (frame : Nat) : Nat := physToVirt (frame * pageSize)

theorem physToVirt_frame (f : Nat) : physToVirt (f * pageSize) = pagePtr f := rfl

theorem pagePtr_aligned (f : Nat) : pagePtr f % pageSize = 0 := by
  simp only [pagePtr, physToVirt, idVirtRegionStart, pageSize, word64]
  omega

theorem pagePtr_fits (f : Nat) : pagePtr f + pageSize ≤ word64 := by
  have aligned := pagePtr_aligned f
  have small : pagePtr f < word64 := physToVirt_lt _
  simp only [pageSize, word64] at *
  omega

theorem virtToPhys_page {f : Nat} (hf : f < frameLimit) : virtToPhys (pagePtr f) = f * pageSize := by
  simp only [pagePtr, physToVirt, virtToPhys, idVirtRegionStart, pageSize, word64, frameLimit] at *
  omega

theorem pagePtr_add (f i : Nat) :
    (pagePtr f + i) % word64 = pagePtr (f + i / pageSize) + i % pageSize := by
  simp only [pagePtr, physToVirt, idVirtRegionStart, pageSize, word64]
  omega

theorem pagePtr_inj {f g : Nat} (hf : f < frameLimit) (hg : g < frameLimit)
    (same : pagePtr f = pagePtr g) : f = g := by
  simp only [pagePtr, physToVirt, idVirtRegionStart, pageSize, word64, frameLimit] at *
  omega

theorem pagePtr_offset_inj {f g a b : Nat} (hf : f < frameLimit) (hg : g < frameLimit) (ha : a < pageSize)
    (hb : b < pageSize) (same : pagePtr f + a = pagePtr g + b) : f = g := by
  apply pagePtr_inj hf hg
  have fAligned := pagePtr_aligned f
  have gAligned := pagePtr_aligned g
  simp only [pageSize] at *
  omega

/-- The frame whose page would start at the null pointer. -/
def nullFrame : Nat := 0x778000000

theorem pagePtr_eq_zero {f : Nat} (hf : f < frameLimit) : pagePtr f = 0 ↔ f = nullFrame := by
  simp only [pagePtr, physToVirt, idVirtRegionStart, pageSize, word64, frameLimit, nullFrame] at *
  omega

theorem pageAlignDown_pagePtr (f offset : Nat) (inside : offset < pageSize) :
    pageAlignDown (pagePtr f + offset) = pagePtr f := by
  have aligned := pagePtr_aligned f
  simp only [pageAlignDown, pageSize] at *
  omega

theorem pageAlignDown_page (f : Nat) : pageAlignDown (pagePtr f) = pagePtr f := by
  have aligned := pagePtr_aligned f
  simp only [pageAlignDown, pageSize] at *
  omega

attribute [irreducible] pagePtr

/-! Slots. -/

theorem slotSize_bounds {t : Nat} (ht : t < tierCount) :
    32 ≤ slotSize t ∧ slotSize t ≤ 1024 ∧ pageSize / slotSize t * slotSize t = pageSize := by
  simp only [tierCount] at ht
  interval_cases t <;> decide

def slotPtr (f t k : Nat) : Nat := pagePtr f + k * slotSize t

/-- The pointer names a slot of a pool page of this tier: a multiple of the slot size, from one slot
size up to the last slot of the page. -/
def IsSlot (pools : List Pool) (t p : Nat) : Prop :=
  ∃ f k, ⟨f, t⟩ ∈ pools ∧ 1 ≤ k ∧ (k + 1) * slotSize t ≤ pageSize ∧ p = slotPtr f t k

def Pool.range (q : Pool) : FrameRange := ⟨q.frame * pageSize, 1⟩

/-- Pool pages in distinct frames that have pointers. -/
structure Pools (pools : List Pool) : Prop where
  tier : ∀ q ∈ pools, q.tier < tierCount
  bound : ∀ q ∈ pools, q.frame < frameLimit
  mapped : ∀ q ∈ pools, pagePtr q.frame ≠ 0
  apart : ∀ q ∈ pools, ∀ r ∈ pools, q.frame = r.frame → q = r

theorem Pools.slot_place {pools : List Pool} (good : Pools pools) {t p : Nat}
    (slot : IsSlot pools t p) : ∃ f k, ⟨f, t⟩ ∈ pools ∧ f < frameLimit ∧ pagePtr f ≠ 0 ∧
      p = pagePtr f + k * slotSize t ∧ slotSize t ≤ k * slotSize t ∧
      k * slotSize t + slotSize t ≤ pageSize ∧ 32 ≤ slotSize t := by
  obtain ⟨f, k, member, positive, fits, rfl⟩ := slot
  have ht : t < tierCount := good.tier _ member
  have hlow : 1 * slotSize t ≤ k * slotSize t := Nat.mul_le_mul_right _ positive
  rw [Nat.add_mul, Nat.one_mul] at fits
  rw [Nat.one_mul] at hlow
  exact ⟨f, k, member, good.bound _ member, good.mapped ⟨f, t⟩ member, rfl, hlow, fits,
    (slotSize_bounds ht).1⟩

theorem Pools.slot_bounds {pools : List Pool} (good : Pools pools) {t p : Nat}
    (slot : IsSlot pools t p) : p ≠ 0 ∧ p + slotSize t ≤ word64 ∧ 32 ≤ slotSize t := by
  obtain ⟨f, k, member, _, nonzero, rfl, low, high, size⟩ := good.slot_place slot
  have fits := pagePtr_fits f
  generalize pagePtr f = page at *
  generalize k * slotSize t = offset at *
  simp only [pageSize] at *
  omega

/-- The header that `kmalloc_small` and `kfree` compute from a slot. -/
theorem Pools.slot_header {pools : List Pool} (good : Pools pools) {t p : Nat}
    (slot : IsSlot pools t p) : ∃ f, ⟨f, t⟩ ∈ pools ∧ f < frameLimit ∧ pageAlignDown p = pagePtr f := by
  obtain ⟨f, k, member, hf, _, rfl, low, high, size⟩ := good.slot_place slot
  have inside : k * slotSize t < pageSize := Nat.lt_of_lt_of_le (by omega) high
  exact ⟨f, member, hf, pageAlignDown_pagePtr f _ inside⟩

theorem Pools.slots_apart {pools : List Pool} (good : Pools pools) {t u p q : Nat}
    (hp : IsSlot pools t p) (hq : IsSlot pools u q) (different : p ≠ q) :
    p + slotSize t ≤ q ∨ q + slotSize u ≤ p := by
  obtain ⟨f, k, fMember, hf, _, rfl, _, kHigh, _⟩ := good.slot_place hp
  obtain ⟨g, l, gMember, hg, _, rfl, _, lHigh, _⟩ := good.slot_place hq
  by_cases sameFrame : f = g
  · subst sameFrame
    obtain rfl : t = u := congrArg Pool.tier (good.apart _ fMember _ gMember rfl)
    rcases Nat.lt_trichotomy k l with less | same | more
    · have := Nat.mul_le_mul_right (slotSize t) (Nat.succ_le_of_lt less)
      rw [Nat.succ_mul] at this
      omega
    · exact absurd (by rw [same]) different
    · have := Nat.mul_le_mul_right (slotSize t) (Nat.succ_le_of_lt more)
      rw [Nat.succ_mul] at this
      omega
  · have distinct : pagePtr f ≠ pagePtr g := fun same => sameFrame (pagePtr_inj hf hg same)
    have fAligned := pagePtr_aligned f
    have gAligned := pagePtr_aligned g
    generalize pagePtr f = page at *
    generalize pagePtr g = page' at *
    simp only [pageSize] at *
    omega

theorem Pools.slot_tier {pools : List Pool} (good : Pools pools) {t u p : Nat}
    (ht : IsSlot pools t p) (hu : IsSlot pools u p) : t = u := by
  obtain ⟨f, fMember, hf, fHeader⟩ := good.slot_header ht
  obtain ⟨g, gMember, hg, gHeader⟩ := good.slot_header hu
  have same := pagePtr_inj hf hg (fHeader.symm.trans gHeader)
  exact congrArg Pool.tier (good.apart _ fMember _ gMember same)

theorem Pools.slot_header_apart {pools : List Pool} (good : Pools pools) {t p : Nat}
    (slot : IsSlot pools t p) (g : Nat) :
    p + slotSize t ≤ pagePtr g ∨ pagePtr g + 32 ≤ p := by
  obtain ⟨f, k, member, _, _, rfl, low, high, size⟩ := good.slot_place slot
  have fAligned := pagePtr_aligned f
  have gAligned := pagePtr_aligned g
  generalize pagePtr f = page at *
  generalize pagePtr g = page' at *
  simp only [pageSize] at *
  omega

/-! The heap as lists. -/

/-- A live allocation: the pointer that `kmalloc` returned and the size that was asked for. -/
structure Block where
  ptr : Nat
  size : Nat
  deriving DecidableEq, Repr

/-- `struct big_alloc_node` at `addr`, whose `vaddr` is the pointer of the page `frame`. -/
structure BigNode where
  addr : Nat
  frame : Nat
  pages : Nat
  deriving DecidableEq, Repr

def BigNode.range (n : BigNode) : FrameRange := ⟨n.frame * pageSize, n.pages⟩

def smallPtrs (t : Nat) (live : List Block) : List Nat :=
  live.filterMap fun b => if sizeToTierIdx b.size = some t then some b.ptr else none

def bigRuns (live : List Block) : List (Nat × Nat) :=
  live.filterMap fun b =>
    if sizeToTierIdx b.size = none then some (b.ptr, pageAlignUp b.size / pageSize) else none

/-- Nodes come from `kmalloc(24)`, so they are slots of the first tier. -/
def nodePtrs (t : Nat) (nodes : List BigNode) : List Nat :=
  if t = 0 then nodes.map BigNode.addr else []

/-- Every slot is free, live or a node, and only one of these; big blocks and nodes match. -/
structure Layout (pools : List Pool) (free : Nat → List Nat) (nodes : List BigNode)
    (live : List Block) : Prop where
  nodup : ∀ t < tierCount, (free t ++ smallPtrs t live ++ nodePtrs t nodes).Nodup
  slots : ∀ t < tierCount, ∀ p, p ∈ free t ++ smallPtrs t live ++ nodePtrs t nodes ↔ IsSlot pools t p
  runs : (nodes.map fun n => (pagePtr n.frame, n.pages)).Perm (bigRuns live)

/-- What memory and the static variables say. -/
structure Represents (h : Heap) (free : Nat → List Nat) (nodes : List BigNode) : Prop where
  header : ∀ q ∈ h.pools, h.mem.load (pagePtr q.frame) 4 = magic ∧
    h.mem.load (pagePtr q.frame + 4) 1 = q.tier
  freeChain : ∀ t < tierCount, Chain (fun p => h.mem.load p 8) (h.freeHead t) (free t)
  bigChain : Chain (fun p => h.mem.load (p + 16) 8) h.bigAllocHead (nodes.map BigNode.addr)
  fields : ∀ n ∈ nodes, h.mem.load n.addr 8 = pagePtr n.frame ∧ h.mem.load (n.addr + 8) 8 = n.pages

/-- The frames behind the heap. `others` are ranges that someone else holds, or that were lost. -/
structure Backed (early : EarlyPmm) (pmm : Pmm) (pools : List Pool) (nodes : List BigNode)
    (others : List FrameRange) : Prop where
  map : CleanMap early.clean
  frames : BitmapInv early pmm (pools.map Pool.range ++ nodes.map BigNode.range ++ others)
  tier : ∀ q ∈ pools, q.tier < tierCount
  mapped : ∀ q ∈ pools, pagePtr q.frame ≠ 0
  runMapped : ∀ n ∈ nodes, pagePtr n.frame ≠ 0

theorem sizeToTierIdx_some {n t : Nat} (h : sizeToTierIdx n = some t) :
    t < tierCount ∧ n ≤ slotSize t := by
  unfold sizeToTierIdx at h
  exact ⟨List.mem_range.mp (List.mem_of_find?_eq_some h), by simpa using List.find?_some h⟩

theorem sizeToTierIdx_none {n : Nat} : sizeToTierIdx n = none ↔ 1024 < n := by
  unfold sizeToTierIdx
  rw [List.find?_eq_none]
  constructor
  · intro all
    simpa [slotSize] using all 5 (by decide)
  · intro big t ht
    have := slotSize_bounds (List.mem_range.mp ht)
    simp only [decide_eq_true_eq]
    omega

theorem BitmapInv.range_bound {early : EarlyPmm} {p : Pmm} {held : List FrameRange}
    (inv : BitmapInv early p held) (map : CleanMap early.clean) {r : FrameRange} (member : r ∈ held) :
    r.start % pageSize = 0 ∧ minUsablePaddr ≤ r.start ∧ r.stop ≤ 2 ^ 52 ∧ 0 < r.count := by
  obtain ⟨owned, _, positive⟩ := inv.owned r member
  obtain ⟨region, hregion, _, _, stop⟩ := owned.inside
  exact ⟨owned.aligned, owned.high, stop.trans (map.bounded region hregion), positive⟩

theorem Backed.pools {early : EarlyPmm} {pmm : Pmm} {pools : List Pool} {nodes : List BigNode}
    {others : List FrameRange} (backed : Backed early pmm pools nodes others) : Pools pools := by
  have apart := List.pairwise_append.mp (List.pairwise_append.mp backed.frames.apart).1
  refine ⟨backed.tier, ?_, backed.mapped, ?_⟩
  · intro q member
    have bound := (backed.frames.range_bound backed.map (r := q.range)
      (by simp only [List.mem_append, List.mem_map]; exact Or.inl (Or.inl ⟨q, member, rfl⟩))).2.2.1
    simp only [Pool.range, FrameRange.stop, pageSize, frameLimit] at *
    omega
  · intro q hq r hr same
    by_contra different
    have hsymm : Std.Symm fun a b : Pool => a.range.Apart b.range := ⟨fun _ _ h => h.symm⟩
    have := (List.pairwise_map.mp apart.1).forall hq hr different
    simp only [FrameRange.Apart, Pool.range, FrameRange.stop, pageSize] at this
    omega

inductive Private (pools : List Pool) (free : Nat → List Nat) (nodes : List BigNode) (a : Nat) : Prop
  | header (q : Pool) (member : q ∈ pools) (low : pagePtr q.frame ≤ a)
      (high : a < pagePtr q.frame + 5)
  | free (t p : Nat) (tier : t < tierCount) (member : p ∈ free t) (low : p ≤ a) (high : a < p + 8)
  | node (n : BigNode) (member : n ∈ nodes) (low : n.addr ≤ a) (high : a < n.addr + 24)

/-- Writes outside the private bytes leave the representation alone. -/
theorem Represents.congr {h : Heap} {free : Nat → List Nat} {nodes : List BigNode}
    (rep : Represents h free nodes) {mem : Memory}
    (same : ∀ a, Private h.pools free nodes a → mem a = h.mem a) :
    Represents { h with mem } free nodes := by
  refine ⟨?_, ?_, ?_, ?_⟩
  · intro q member
    obtain ⟨hmagic, htier⟩ := rep.header q member
    refine ⟨Eq.trans (Memory.load_congr ?_) hmagic, Eq.trans (Memory.load_congr ?_) htier⟩
    · intro a low high
      exact same a (.header q member low (by omega))
    · intro a low high
      exact same a (.header q member (by omega) (by omega))
  · intro t ht
    apply (rep.freeChain t ht).congr
    intro p member
    exact Memory.load_congr fun a low high => same a (.free t p ht member low high)
  · apply rep.bigChain.congr
    intro p member
    obtain ⟨n, hn, rfl⟩ := List.mem_map.mp member
    exact Memory.load_congr fun a low high => same a (.node n hn (by omega) (by omega))
  · intro n member
    obtain ⟨hvaddr, hpages⟩ := rep.fields n member
    refine ⟨Eq.trans (Memory.load_congr ?_) hvaddr, Eq.trans (Memory.load_congr ?_) hpages⟩
    · intro a low high
      exact same a (.node n member low (by omega))
    · intro a low high
      exact same a (.node n member (by omega) (by omega))

/-! Moves between the lists of the layout. -/

theorem smallPtrs_cons (t : Nat) (b : Block) (live : List Block) : smallPtrs t (b :: live) =
    if sizeToTierIdx b.size = some t then b.ptr :: smallPtrs t live else smallPtrs t live := by
  unfold smallPtrs
  rw [List.filterMap_cons]
  split <;> split at * <;> simp_all

theorem bigRuns_cons (b : Block) (live : List Block) : bigRuns (b :: live) =
    if sizeToTierIdx b.size = none then (b.ptr, pageAlignUp b.size / pageSize) :: bigRuns live
    else bigRuns live := by
  unfold bigRuns
  rw [List.filterMap_cons]
  split <;> split at * <;> simp_all

theorem smallPtrs_big {b : Block} (big : sizeToTierIdx b.size = none) (t : Nat) (live : List Block) :
    smallPtrs t (b :: live) = smallPtrs t live := by
  rw [smallPtrs_cons, big, if_neg (Option.some_ne_none t).symm]

theorem smallPtrs_node (t a : Nat) (live : List Block) :
    smallPtrs t (⟨a, bigAllocNodeSize⟩ :: live) =
      if t = 0 then a :: smallPtrs t live else smallPtrs t live := by
  rw [smallPtrs_cons, show sizeToTierIdx bigAllocNodeSize = some 0 by decide]
  simp only [Option.some.injEq, eq_comm]

theorem bigRuns_small {b : Block} {t : Nat} (small : sizeToTierIdx b.size = some t)
    (live : List Block) : bigRuns (b :: live) = bigRuns live := by
  rw [bigRuns_cons, small, if_neg (Option.some_ne_none t)]

theorem Layout.of_perm {pools : List Pool} {free free' : Nat → List Nat} {nodes nodes' : List BigNode}
    {live live' : List Block} (layout : Layout pools free nodes live)
    (entries : ∀ t < tierCount, (free t ++ smallPtrs t live ++ nodePtrs t nodes).Perm
      (free' t ++ smallPtrs t live' ++ nodePtrs t nodes'))
    (runs : (nodes'.map fun n => (pagePtr n.frame, n.pages)).Perm (bigRuns live')) :
    Layout pools free' nodes' live' := by
  refine ⟨fun t ht => (entries t ht).nodup_iff.mp (layout.nodup t ht), ?_, runs⟩
  intro t ht p
  rw [← layout.slots t ht p]
  exact (entries t ht).mem_iff.symm

theorem Layout.perm {pools : List Pool} {free : Nat → List Nat} {nodes : List BigNode}
    {live live' : List Block} (layout : Layout pools free nodes live) (same : live.Perm live') :
    Layout pools free nodes live' := by
  refine layout.of_perm (fun t _ => ?_) (layout.runs.trans (same.filterMap _))
  exact ((same.filterMap _).append_left _).append_right _

theorem Layout.pop {pools : List Pool} {free : Nat → List Nat} {nodes : List BigNode}
    {live : List Block} (layout : Layout pools free nodes live) {t p n : Nat} {rest : List Nat}
    (head : free t = p :: rest) (tier : sizeToTierIdx n = some t) :
    Layout pools (Function.update free t rest) nodes (⟨p, n⟩ :: live) := by
  refine layout.of_perm ?_ ?_
  · intro u _
    rw [smallPtrs_cons]
    by_cases same : u = t
    · subst same
      rw [Function.update_self, head, if_pos tier]
      exact List.perm_middle.symm.append_right _
    · have other : sizeToTierIdx n ≠ some u := by
        rw [tier]
        exact fun h => same (Option.some.inj h).symm
      rw [Function.update_of_ne same, if_neg other]
  · rw [bigRuns_small tier]
    exact layout.runs

theorem Layout.push {pools : List Pool} {free : Nat → List Nat} {nodes : List BigNode}
    {live : List Block} {b : Block} (layout : Layout pools free nodes (b :: live)) {t : Nat}
    (tier : sizeToTierIdx b.size = some t) :
    Layout pools (Function.update free t (b.ptr :: free t)) nodes live := by
  refine layout.of_perm ?_ ?_
  · intro u _
    rw [smallPtrs_cons]
    by_cases same : u = t
    · subst same
      rw [Function.update_self, if_pos tier]
      exact List.perm_middle.append_right _
    · have other : sizeToTierIdx b.size ≠ some u := by
        rw [tier]
        exact fun h => same (Option.some.inj h).symm
      rw [Function.update_of_ne same, if_neg other]
  · have runs := layout.runs
    rwa [bigRuns_small tier] at runs

/-- A slot that was allocated for a node becomes one, together with its big block. -/
theorem Layout.link {pools : List Pool} {free : Nat → List Nat} {nodes : List BigNode}
    {live : List Block} {n : BigNode} {size : Nat}
    (layout : Layout pools free nodes (⟨n.addr, bigAllocNodeSize⟩ :: live))
    (big : sizeToTierIdx size = none) (pages : n.pages = pageAlignUp size / pageSize) :
    Layout pools free (n :: nodes) (⟨pagePtr n.frame, size⟩ :: live) := by
  refine layout.of_perm ?_ ?_
  · intro u _
    rw [smallPtrs_node, smallPtrs_big big]
    by_cases first : u = 0
    · subst first
      rw [if_pos rfl, List.append_assoc, List.append_assoc]
      exact List.perm_middle.symm.append_left _
    · simp only [nodePtrs, first, if_false]
      exact List.Perm.refl _
  · have runs := layout.runs
    rw [bigRuns_small (show sizeToTierIdx bigAllocNodeSize = some 0 by decide)] at runs
    rw [bigRuns_cons, if_pos big, List.map_cons, pages]
    exact runs.cons _

/-- The converse: a node is taken out with its block and is a plain slot again. -/
theorem Layout.unlink {pools : List Pool} {free : Nat → List Nat} {nodes nodes' : List BigNode}
    {live : List Block} {n : BigNode} {size : Nat}
    (layout : Layout pools free nodes (⟨pagePtr n.frame, size⟩ :: live))
    (split : nodes.Perm (n :: nodes')) (big : sizeToTierIdx size = none)
    (pages : n.pages = pageAlignUp size / pageSize) :
    Layout pools free nodes' (⟨n.addr, bigAllocNodeSize⟩ :: live) := by
  refine layout.of_perm ?_ ?_
  · intro u _
    rw [smallPtrs_node, smallPtrs_big big]
    by_cases first : u = 0
    · subst first
      rw [if_pos rfl, List.append_assoc, List.append_assoc]
      exact (((split.map BigNode.addr).append_left (smallPtrs 0 live)).trans List.perm_middle).append_left _
    · simp only [nodePtrs, first, if_false]
      exact List.Perm.refl _
  · have runs := (split.map fun n => (pagePtr n.frame, n.pages)).symm.trans layout.runs
    rw [bigRuns_cons, if_pos big, List.map_cons, pages] at runs
    rw [bigRuns_small (show sizeToTierIdx bigAllocNodeSize = some 0 by decide)]
    exact runs.cons_inv

end SnapOS.Mm
