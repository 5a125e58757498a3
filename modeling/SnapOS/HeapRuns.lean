/- Runs of the kernel heap: any sequence of requests, releases and writes by the clients. -/
import SnapOS.HeapBig

namespace SnapOS.Mm
open SnapOS.Lib

structure HeapState where
  heap : Heap
  live : List Block

inductive HeapOp where
  | kmalloc (size : Nat)
  | kfree (b : Block)
  | write (b : Block) (offset : Nat) (value : UInt8)

/-- Requests above `2 ^ 64 - 4096` wrap when they are rounded up and are left out. Clients free live
blocks only and write inside the bytes that they asked for. -/
def heapStep (s : HeapState) : HeapOp → Option HeapState
  | .kmalloc size =>
      if size ≤ word64 - pageSize then
        (kmalloc size s.heap).toOption.map fun (p, heap) =>
          ⟨heap, if p = 0 then s.live else ⟨p, size⟩ :: s.live⟩
      else none
  | .kfree b =>
      if b ∈ s.live then (kfree b.ptr s.heap).toOption.map fun heap => ⟨heap, s.live.erase b⟩
      else none
  | .write b offset value =>
      if b ∈ s.live ∧ offset < b.size then
        some { s with heap := { s.heap with
          mem := Function.update s.heap.mem ((b.ptr + offset) % word64) value } }
      else none

/-- The heap before its first use: the frame allocators have run in any way, the static variables
are zero, memory is arbitrary. -/
structure Booted (h : Heap) : Prop where
  frames : ∃ (k : KernelImage) (map : List PhysRegion) (early : EarlyPmm) (ops : List FrameOp)
    (s : FrameState), (∀ r ∈ map, r.start < r.stop ∧ r.stop ≤ 2 ^ 52) ∧
      earlyPmmInit k map = .ok (0, early) ∧ run frameStep (afterEarlyInit early) ops = some s ∧
      s.pmm = some h.pmm
  freeHead : ∀ t, h.freeHead t = 0
  bigAllocHead : h.bigAllocHead = 0
  pools : h.pools = []

structure WellFormed (s : HeapState) : Prop where
  sizes : ∀ b ∈ s.live, b.size ≤ word64 - pageSize
  shape : ∃ early others free nodes, HeapInv early others s.heap free nodes s.live

theorem Booted.wellFormed {h : Heap} (boot : Booted h) : WellFormed ⟨h, []⟩ := by
  obtain ⟨k, map, early, ops, s, regions, init, reached, hpmm⟩ := boot.frames
  obtain ⟨_, earlyInv, out⟩ := earlyPmmInit_inv (fun r member => (regions r member).2) init
  have initial : FrameInv early.clean (afterEarlyInit early) :=
    ⟨rfl, earlyInv, out, fun _ => rfl, fun p hp => nomatch hp⟩
  have inv := run_invariant_always frameStep_inv initial reached
  have noSlot (t p : Nat) : ¬ IsSlot h.pools t p := by
    rintro ⟨f, k, member, _⟩
    rw [boot.pools] at member
    cases member
  refine ⟨by simp, s.early, s.held, fun _ => [], [], ⟨?_, ?_, List.Perm.refl _⟩,
    ⟨?_, ?_, ?_, by simp⟩, inv.early.map, ?_, ?_, ?_, by simp⟩
  · intro t _
    simp [smallPtrs, nodePtrs]
  · intro t _ p
    simp [smallPtrs, nodePtrs, noSlot]
  · intro q member
    rw [boot.pools] at member
    cases member
  · intro t _
    exact boot.freeHead t
  · exact boot.bigAllocHead
  · rw [boot.pools]
    exact inv.bitmap h.pmm hpmm
  · intro q member
    rw [boot.pools] at member
    cases member
  · intro q member
    rw [boot.pools] at member
    cases member

section Steps

variable {early : EarlyPmm} {others : List FrameRange} {h : Heap} {free : Nat → List Nat}
  {nodes : List BigNode} {live : List Block}

theorem HeapInv.perm (inv : HeapInv early others h free nodes live) {live' : List Block}
    (same : live.Perm live') : HeapInv early others h free nodes live' :=
  ⟨inv.layout.perm same, inv.rep, inv.backed⟩

theorem HeapInv.big_node (inv : HeapInv early others h free nodes live) {b : Block}
    (member : b ∈ live) (big : sizeToTierIdx b.size = none) :
    ∃ n ∈ nodes, pagePtr n.frame = b.ptr ∧ n.pages = pageAlignUp b.size / pageSize ∧
      n.frame + n.pages ≤ frameLimit ∧ 0 < n.pages := by
  have run : (b.ptr, pageAlignUp b.size / pageSize) ∈ bigRuns live :=
    List.mem_filterMap.mpr ⟨b, member, by rw [if_pos big]⟩
  rw [← inv.layout.runs.mem_iff] at run
  obtain ⟨n, hn, same⟩ := List.mem_map.mp run
  exact ⟨n, hn, (Prod.mk.inj same).1, (Prod.mk.inj same).2, inv.node_limit hn⟩

theorem HeapInv.small_member (inv : HeapInv early others h free nodes live) {b : Block} {t : Nat}
    (member : b ∈ live) (tier : sizeToTierIdx b.size = some t) :
    b.ptr ∈ smallPtrs t live ∧ IsSlot h.pools t b.ptr := by
  have here : b.ptr ∈ smallPtrs t live := List.mem_filterMap.mpr ⟨b, member, by rw [if_pos tier]⟩
  exact ⟨here, inv.layout.small_slot (sizeToTierIdx_some tier).1 here⟩

theorem HeapInv.big_byte (inv : HeapInv early others h free nodes live) {b : Block} (member : b ∈ live)
    (big : sizeToTierIdx b.size = none) (size : b.size ≤ word64 - pageSize) {offset : Nat} (inside : offset < b.size) :
    ∃ n ∈ nodes, ∃ f, n.frame ≤ f ∧ f < n.frame + n.pages ∧ f < frameLimit ∧
      (b.ptr + offset) % word64 = pagePtr f + offset % pageSize := by
  obtain ⟨n, hn, hptr, hpages, limit, _⟩ := inv.big_node member big
  have enough : offset / pageSize < n.pages := by
    have aligned := pageAlignUp_mod b.size
    have above := le_pageAlignUp size
    rw [hpages]
    simp only [pageSize] at *
    omega
  exact ⟨n, hn, n.frame + offset / pageSize, Nat.le_add_right _ _, by omega, by omega,
    by rw [← hptr, pagePtr_add]⟩

theorem HeapInv.pool_apart (inv : HeapInv early others h free nodes live) {q : Pool} (hq : q ∈ h.pools)
    {n : BigNode} (hn : n ∈ nodes) : ¬ (n.frame ≤ q.frame ∧ q.frame < n.frame + n.pages) := by
  have apart := (List.pairwise_append.mp (List.pairwise_append.mp inv.backed.frames.apart).1).2.2
    q.range (List.mem_map_of_mem hq) n.range (List.mem_map_of_mem hn)
  simp only [FrameRange.Apart, FrameRange.stop, Pool.range, BigNode.range, pageSize] at apart
  omega

theorem HeapInv.live_not_private (inv : HeapInv early others h free nodes live) {b : Block}
    (member : b ∈ live) (size : b.size ≤ word64 - pageSize) {offset : Nat} (inside : offset < b.size) :
    ¬ Private h.pools free nodes ((b.ptr + offset) % word64) := by
  cases tier : sizeToTierIdx b.size with
  | some t =>
      obtain ⟨here, slot⟩ := inv.small_member member tier
      obtain ⟨ht, fits⟩ := sizeToTierIdx_some tier
      obtain ⟨notFree, notNode⟩ := inv.small_apart ht here
      have := inv.backed.pools.slot_bounds slot
      rw [Nat.mod_eq_of_lt (by omega)]
      exact inv.slot_not_private slot notFree notNode (by omega) (by omega)
  | none =>
      obtain ⟨n, hn, f, low, high, limit, place⟩ := inv.big_byte member tier size inside
      intro secret
      obtain ⟨q, hq, after, before⟩ := inv.private_page secret
      rw [place] at after before
      have same : q.frame = f := pagePtr_offset_inj (inv.backed.pools.bound q hq) limit
        (show pagePtr f + offset % pageSize - pagePtr q.frame < pageSize by omega)
        (Nat.mod_lt offset (by decide)) (by omega)
      exact inv.pool_apart hq hn (same ▸ ⟨low, high⟩)

theorem HeapInv.write (inv : HeapInv early others h free nodes live) {b : Block} (member : b ∈ live)
    (size : b.size ≤ word64 - pageSize) {offset : Nat} (inside : offset < b.size) (value : UInt8) :
    HeapInv early others { h with mem := Function.update h.mem ((b.ptr + offset) % word64) value }
      free nodes live := by
  refine ⟨inv.layout, inv.rep.congr ?_, inv.backed⟩
  intro a secret
  apply Function.update_of_ne
  rintro rfl
  exact inv.live_not_private member size inside secret

end Steps

/-- `kfree` of the block `b` released exactly `b`. A small block is pushed on the free list of its
tier. A big block loses its page run and its node, whose slot is pushed on the first free list. All
other lists, headers, frames and live blocks are as before. -/
structure Releases (s : HeapState) (b : Block) (after : Heap) : Prop where
  pools : after.pools = s.heap.pools
  blocks : ∀ c ∈ s.live.erase b, ∀ i < c.size,
    after.mem ((c.ptr + i) % word64) = s.heap.mem ((c.ptr + i) % word64)
  lists : ∃ free nodes, Represents s.heap free nodes ∧
    match sizeToTierIdx b.size with
    | some t => Represents after (Function.update free t (b.ptr :: free t)) nodes ∧
        after.pmm = s.heap.pmm
    | none => ∃ pre n post, nodes = pre ++ n :: post ∧ pagePtr n.frame = b.ptr ∧
        n.pages = pageAlignUp b.size / pageSize ∧
        Represents after (Function.update free 0 (n.addr :: free 0)) (pre ++ post) ∧
        after.pmm = s.heap.pmm.release (virtToPhys b.ptr / pageSize) n.pages

/-- A big block is not disguised as a pool page when it is freed. -/
def Undisguised (s : HeapState) : HeapOp → Prop
  | .kfree b => 1024 < b.size → s.heap.mem.load b.ptr 4 ≠ magic
  | _ => True

theorem released_outside {h : Heap} {pre : List BigNode} {n : BigNode} {a : Nat}
    (apart : a < n.addr ∨ n.addr + 24 ≤ a)
    (others : ∀ m ∈ pre, a < m.addr ∨ m.addr + 24 ≤ a) : (released h pre n).mem a = h.mem a := by
  unfold released pushed unlinked
  dsimp only
  rw [Memory.store_outside (by omega)]
  cases hlast : pre.getLast? with
  | none => rfl
  | some last =>
      have := others last (List.mem_of_getLast? hlast)
      exact Memory.store_outside (by omega)

/-- In a well-formed heap an undisguised block is released, and the heap stays well formed. -/
theorem WellFormed.kfree {s : HeapState} (inv : WellFormed s) {b : Block} (member : b ∈ s.live)
    (undisguised : Undisguised s (.kfree b)) :
    ∃ after, Mm.kfree b.ptr s.heap = .ok after ∧ Releases s b after ∧
      WellFormed ⟨after, s.live.erase b⟩ := by
  obtain ⟨early, others, free, nodes, shape⟩ := inv.shape
  have sizes : ∀ c ∈ s.live.erase b, c.size ≤ word64 - pageSize := fun c hc =>
    inv.sizes c (List.mem_of_mem_erase hc)
  have front := shape.perm (List.perm_cons_erase member)
  cases tier : sizeToTierIdx b.size with
  | some t =>
      obtain ⟨run, after⟩ := front.kfree_small tier 1
      refine ⟨_, run, ⟨rfl, ?_, free, nodes, shape.rep, ?_⟩, sizes, _, _, _, _, after⟩
      · intro c hc i hi
        have outside := after.live_not_private hc (sizes c hc) hi
        apply Memory.store_outside
        by_contra here
        refine outside (.free t b.ptr (sizeToTierIdx_some tier).1 ?_ (by omega) (by omega))
        rw [Function.update_self]
        exact List.mem_cons_self
      · rw [tier]
        exact ⟨after.rep, rfl⟩
  | none =>
      obtain ⟨pre, n, post, rfl, hptr, limit, hpages, run, after⟩ :=
        front.kfree_big tier (undisguised (sizeToTierIdx_none.mp tier))
      refine ⟨_, run, ⟨unlinked_pools _ _ _, ?_, free, _, shape.rep, ?_⟩, sizes, _, _, _, _, after⟩
      · intro c hc i hi
        have outside := shape.live_not_private (List.mem_of_mem_erase hc) (sizes c hc) hi
        apply released_outside
        · by_contra here
          exact outside (.node n (by simp) (by omega) (by omega))
        · intro m hm
          by_contra here
          exact outside (.node m (List.mem_append_left _ hm) (by omega) (by omega))
      · rw [tier]
        refine ⟨pre, n, post, rfl, hptr, hpages, after.rep, ?_⟩
        rw [← hptr, virtToPhys_page limit, Nat.mul_div_cancel _ (show 0 < pageSize by decide)]
        rfl

/-- A disguised block is not released: its pages stay marked. -/
theorem WellFormed.disguised {s : HeapState} (inv : WellFormed s) {b : Block} (member : b ∈ s.live)
    (big : 1024 < b.size) (magical : s.heap.mem.load b.ptr 4 = magic) {after : Heap}
    (run : Mm.kfree b.ptr s.heap = .ok after) : ¬ Releases s b after := by
  obtain ⟨early, others, free, nodes, shape⟩ := inv.shape
  have tier := sizeToTierIdx_none.mpr big
  obtain ⟨n, hn, hptr, hpages, limit, positive⟩ := shape.big_node member tier
  have same : after.pmm = s.heap.pmm := by
    rw [Mm.kfree, kfreeRec] at run
    dsimp only at run
    rw [← hptr, pageAlignDown_page, hptr, if_neg (by simp [magical])] at run
    cases run
    rfl
  intro releases
  obtain ⟨_, _, _, lists⟩ := releases.lists
  rw [tier] at lists
  obtain ⟨_, m, _, _, _, mPages, _, cleared⟩ := lists
  rw [same, ← hptr, virtToPhys_page (by omega), Nat.mul_div_cancel _ (show 0 < pageSize by decide),
    mPages, ← hpages] at cleared
  have taken := (shape.backed.frames.taken n.range
    (by simp only [List.mem_append, List.mem_map]; exact Or.inl (Or.inr ⟨n, hn, rfl⟩)) n.frame
    (by simp only [FrameRange.Holds, BigNode.range, FrameRange.stop, pageSize]; omega)).2
  have bits := congrArg (fun p : Pmm => p.bitmap.bit n.frame) cleared
  simp only [Pmm.release, Bitmap.bit_clearBits, taken, Bool.true_and, Bool.true_eq, decide_eq_true_eq] at bits
  omega

theorem heapStep_wellFormed (s : HeapState) (op : HeapOp) (t : HeapState) (inv : WellFormed s)
    (undisguised : Undisguised s op) (h : heapStep s op = some t) : WellFormed t := by
  cases op with
  | kmalloc size =>
      simp only [heapStep] at h
      split at h
      · next small =>
          obtain ⟨early, others, free, nodes, shape⟩ := inv.shape
          obtain ⟨p, heap, alloc, _, lost, free', nodes', after⟩ := shape.kmalloc small
          rw [alloc] at h
          obtain rfl := Option.some.inj h
          refine ⟨?_, _, _, _, _, after⟩
          intro b hb
          dsimp only at hb
          split at hb
          · exact inv.sizes b hb
          · rcases List.mem_cons.mp hb with rfl | old
            · exact small
            · exact inv.sizes b old
      · cases h
  | kfree b =>
      simp only [heapStep] at h
      split at h
      · next member =>
          obtain ⟨after, run, _, wellFormed⟩ := inv.kfree member undisguised
          rw [run] at h
          obtain rfl := Option.some.inj h
          exact wellFormed
      · cases h
  | write b offset value =>
      simp only [heapStep] at h
      split at h
      · next inside =>
          obtain ⟨early, others, free, nodes, shape⟩ := inv.shape
          obtain rfl := Option.some.inj h
          exact ⟨inv.sizes, _, _, _, _, shape.write inside.1 (inv.sizes b inside.1) inside.2 value⟩
      · cases h

/-- In every run that frees no disguised block, a live block is released exactly by `kfree` if and
only if it is not disguised itself. -/
theorem kfree_releases_iff {h : Heap} (boot : Booted h) {ops : List HeapOp} {s : HeapState}
    (undisguised : Meets heapStep Undisguised ⟨h, []⟩ ops) (reached : run heapStep ⟨h, []⟩ ops = some s)
    {b : Block} (live : b ∈ s.live) :
    (∃ after, kfree b.ptr s.heap = .ok after ∧ Releases s b after) ↔ Undisguised s (.kfree b) := by
  have inv := run_invariant heapStep_wellFormed boot.wellFormed undisguised reached
  constructor
  · rintro ⟨after, run, releases⟩ big magical
    exact inv.disguised live big magical run releases
  · intro plain
    obtain ⟨after, run, releases, _⟩ := inv.kfree live plain
    exact ⟨after, run, releases⟩

def bootPmm : Option Pmm :=
  (run frameStep (afterEarlyInit smallEarly) [.pmmInit fun _ => 0#8]).bind FrameState.pmm

def smallHeap : Heap := ⟨fun _ => 0, fun _ => 0, 0, bootPmm.getD ⟨fun _ => 0#8, 0, 0⟩, []⟩

theorem smallHeap_booted : Booted smallHeap := by
  have boots : ((run frameStep (afterEarlyInit smallEarly) [.pmmInit fun _ => 0#8]).bind
      FrameState.pmm).isSome = true := by decide +kernel
  obtain ⟨p, hp⟩ := Option.isSome_iff_exists.mp boots
  obtain ⟨s, reached, hpmm⟩ := Option.bind_eq_some_iff.mp hp
  refine ⟨⟨smallKernel, smallMap, smallEarly, _, s, by decide, rfl, reached, ?_⟩, fun _ => rfl, rfl, rfl⟩
  rw [hpmm, smallHeap, bootPmm, hp]
  rfl

def bigBlock : Block := ⟨0xffff888000101000, 2048⟩

/-- The client stores the magic number at the start of its block. -/
def disguise : List HeapOp :=
  [.kmalloc 2048, .write bigBlock 0 0xDA, .write bigBlock 1 0x92, .write bigBlock 2 0x67,
    .write bigBlock 3 0xFC]

theorem kfree_releases_bigBlock : ∃ s after, run heapStep ⟨smallHeap, []⟩ [.kmalloc 2048] = some s ∧
    kfree bigBlock.ptr s.heap = .ok after ∧ Releases s bigBlock after := by
  have ends : (run heapStep ⟨smallHeap, []⟩ [.kmalloc 2048]).map
      (fun s => (s.live, s.heap.mem.load bigBlock.ptr 4)) = some ([bigBlock], 0) := by decide +kernel
  obtain ⟨s, reached, facts⟩ := Option.map_eq_some_iff.mp ends
  obtain ⟨live, word⟩ := Prod.mk.inj facts
  have plain : Undisguised s (.kfree bigBlock) := fun _ => by rw [word]; decide
  obtain ⟨after, freed, releases⟩ := (kfree_releases_iff smallHeap_booted
    (by simp [Meets, Undisguised]) reached (live ▸ List.mem_singleton_self _)).mpr plain
  exact ⟨s, after, reached, freed, releases⟩

/-- A block of 2048 bytes that starts with the magic number is not given back by `kfree`. -/
theorem disguised_block_kept : ∃ s, run heapStep ⟨smallHeap, []⟩ disguise = some s ∧ bigBlock ∈ s.live ∧
    ¬ ∃ after, kfree bigBlock.ptr s.heap = .ok after ∧ Releases s bigBlock after := by
  have ends : (run heapStep ⟨smallHeap, []⟩ disguise).map
      (fun s => (s.live, s.heap.mem.load bigBlock.ptr 4)) = some ([bigBlock], magic) := by decide +kernel
  obtain ⟨s, reached, facts⟩ := Option.map_eq_some_iff.mp ends
  obtain ⟨live, word⟩ := Prod.mk.inj facts
  have member : bigBlock ∈ s.live := live ▸ List.mem_singleton_self _
  have inv := run_invariant heapStep_wellFormed smallHeap_booted.wellFormed
    (by simp [Meets, Undisguised, disguise]) reached
  refine ⟨s, reached, member, ?_⟩
  rintro ⟨after, freed, releases⟩
  exact inv.disguised member (by decide) word freed releases

/-! Small allocations only. -/

def HeapOp.Small : HeapOp → Prop
  | .kmalloc size => size ≤ 1024
  | _ => True

/-- The slab discipline. `lists` are the free lists as they are threaded through memory: finite,
without repetition, and complete. -/
structure SlabInv (s : HeapState) : Prop where
  headers : ∀ q ∈ s.heap.pools, q.tier < tierCount ∧ s.heap.mem.load (pagePtr q.frame) 4 = magic ∧
    s.heap.mem.load (pagePtr q.frame + 4) 1 = q.tier
  lists : ∃ free : Nat → List Nat,
    (∀ t < tierCount, Chain (fun p => s.heap.mem.load p 8) (s.heap.freeHead t) (free t) ∧
      (free t).Nodup ∧ ∀ p ∈ free t, IsSlot s.heap.pools t p) ∧
    ∀ t < tierCount, ∀ p, IsSlot s.heap.pools t p →
      (((∃ b ∈ s.live, b.ptr = p) ∧ ∀ u < tierCount, p ∉ free u) ∨
        ((∀ b ∈ s.live, b.ptr ≠ p) ∧ p ∈ free t ∧ ∀ u < tierCount, u ≠ t → p ∉ free u))
  blocks : ∀ b ∈ s.live, ∃ t, sizeToTierIdx b.size = some t ∧ b.size ≤ slotSize t ∧
    b.ptr % slotSize t = 0 ∧ IsSlot s.heap.pools t b.ptr ∧
    ∀ q ∈ s.heap.pools, b.ptr + slotSize t ≤ pagePtr q.frame ∨ pagePtr q.frame + 6 ≤ b.ptr
  apart : s.live.Pairwise fun b c => ∀ t u, sizeToTierIdx b.size = some t →
    sizeToTierIdx c.size = some u → b.ptr + slotSize t ≤ c.ptr ∨ c.ptr + slotSize u ≤ b.ptr

structure AllSmall (s : HeapState) : Prop where
  wellFormed : WellFormed s
  small : ∀ b ∈ s.live, b.size ≤ 1024

theorem heapStep_allSmall (s : HeapState) (op : HeapOp) (t : HeapState) (inv : AllSmall s)
    (small : op.Small) (h : heapStep s op = some t) : AllSmall t := by
  have undisguised : Undisguised s op := by
    cases op with
    | kmalloc size => trivial
    | kfree b =>
        intro big
        simp only [heapStep] at h
        split at h
        · next member =>
            have := inv.small b member
            omega
        · cases h
    | write b offset value => trivial
  refine ⟨heapStep_wellFormed s op t inv.wellFormed undisguised h, ?_⟩
  cases op with
  | kmalloc size =>
      simp only [heapStep] at h
      split at h
      · obtain ⟨⟨p, heap⟩, _, rfl⟩ := Option.map_eq_some_iff.mp h
        intro b hb
        dsimp only at hb
        split at hb
        · exact inv.small b hb
        · rcases List.mem_cons.mp hb with rfl | old
          · exact small
          · exact inv.small b old
      · cases h
  | kfree b =>
      simp only [heapStep] at h
      split at h
      · obtain ⟨heap, _, rfl⟩ := Option.map_eq_some_iff.mp h
        exact fun c hc => inv.small c (List.mem_of_mem_erase hc)
      · cases h
  | write b offset value =>
      simp only [heapStep] at h
      split at h
      · obtain rfl := Option.some.inj h
        exact inv.small
      · cases h

theorem AllSmall.tier {s : HeapState} (inv : AllSmall s) {b : Block} (member : b ∈ s.live) :
    ∃ t, sizeToTierIdx b.size = some t := by
  cases tier : sizeToTierIdx b.size with
  | none =>
      have := sizeToTierIdx_none.mp tier
      have := inv.small b member
      omega
  | some t => exact ⟨t, rfl⟩

theorem AllSmall.no_nodes {s : HeapState} (inv : AllSmall s) {free : Nat → List Nat}
    {nodes : List BigNode} (layout : Layout s.heap.pools free nodes s.live) : nodes = [] := by
  have none : bigRuns s.live = [] := by
    apply List.filterMap_eq_nil_iff.mpr
    intro b member
    obtain ⟨t, tier⟩ := inv.tier member
    rw [tier, if_neg (Option.some_ne_none t)]
  have runs := layout.runs
  rw [none] at runs
  exact List.map_eq_nil_iff.mp runs.eq_nil

theorem slotPtr_aligned {f t k : Nat} (ht : t < tierCount) : slotPtr f t k % slotSize t = 0 := by
  have tiles : slotSize t ∣ pageSize := Dvd.intro_left _ (slotSize_bounds ht).2.2
  have page : slotSize t ∣ pagePtr f := tiles.trans (Nat.dvd_of_mod_eq_zero (pagePtr_aligned f))
  exact Nat.mod_eq_zero_of_dvd (Nat.dvd_add page (Nat.dvd_mul_left _ k))

theorem HeapInv.blocks_apart {early : EarlyPmm} {others : List FrameRange} {h : Heap}
    {free : Nat → List Nat} {nodes : List BigNode} {live : List Block}
    (inv : HeapInv early others h free nodes live) :
    live.Pairwise fun b c => ∀ t u, sizeToTierIdx b.size = some t →
      sizeToTierIdx c.size = some u → b.ptr + slotSize t ≤ c.ptr ∨ c.ptr + slotSize u ≤ b.ptr := by
  have good := inv.backed.pools
  refine List.pairwise_iff_getElem.mpr fun i j hi hj less t u bTier cTier => ?_
  have bSlot := (inv.small_member (List.getElem_mem hi) bTier).2
  have cSlot := (inv.small_member (List.getElem_mem hj) cTier).2
  apply good.slots_apart bSlot cSlot
  intro same
  obtain rfl : t = u := good.slot_tier bSlot (same ▸ cSlot)
  have nodup : (smallPtrs t live).Nodup :=
    (List.nodup_append.mp (List.nodup_append.mp (inv.layout.nodup t (sizeToTierIdx_some bTier).1)).1).2.1
  have pairs := List.pairwise_iff_getElem.mp (List.pairwise_filterMap.mp nodup) i j hi hj less
  exact pairs _ (if_pos bTier) _ (if_pos cTier) same

theorem slab_invariant {h : Heap} (boot : Booted h) {ops : List HeapOp} {s : HeapState}
    (small : ∀ op ∈ ops, op.Small) (reached : run heapStep ⟨h, []⟩ ops = some s) : SlabInv s := by
  have inv := run_invariant heapStep_allSmall ⟨boot.wellFormed, by simp⟩ (meets_of_forall small) reached
  obtain ⟨early, others, free, nodes, shape⟩ := inv.wellFormed.shape
  obtain rfl := inv.no_nodes shape.layout
  have good := shape.backed.pools
  refine ⟨fun q member => ⟨good.tier q member, shape.rep.header q member⟩, ⟨free, ?_, ?_⟩, ?_,
    shape.blocks_apart⟩
  · intro t ht
    have nodup := (List.nodup_append.mp (List.nodup_append.mp (shape.layout.nodup t ht)).1).1
    exact ⟨shape.rep.freeChain t ht, nodup, fun p member => shape.layout.free_slot ht member⟩
  · intro t ht p slot
    have place := (shape.layout.slots t ht p).mpr slot
    have noNode : nodePtrs t [] = [] := by simp [nodePtrs]
    rw [noNode, List.append_nil, List.mem_append] at place
    rcases place with isFree | isLive
    · refine Or.inr ⟨?_, isFree, ?_⟩
      · rintro b member rfl
        obtain ⟨u, tier⟩ := inv.tier member
        obtain ⟨here, _⟩ := shape.small_member member tier
        exact (shape.small_apart (sizeToTierIdx_some tier).1 here).1 t ht isFree
      · intro u hu other isFree'
        exact other (good.slot_tier (shape.layout.free_slot hu isFree') slot)
    · obtain ⟨b, member, hb⟩ := List.mem_filterMap.mp isLive
      refine Or.inl ⟨⟨b, member, ?_⟩, (shape.small_apart ht isLive).1⟩
      split at hb
      · exact Option.some.inj hb
      · cases hb
  · intro b member
    obtain ⟨t, tier⟩ := inv.tier member
    obtain ⟨ht, fits⟩ := sizeToTierIdx_some tier
    have slot := (shape.small_member member tier).2
    have aligned : b.ptr % slotSize t = 0 := by
      obtain ⟨f, k, _, _, _, place⟩ := slot
      rw [place]
      exact slotPtr_aligned ht
    refine ⟨t, tier, fits, aligned, slot, ?_⟩
    intro q _
    have := good.slot_header_apart slot q.frame
    omega

/-- Two requests of different tiers, a write, a release and a request that reuses the slot. -/
def slabRun : List HeapOp :=
  [.kmalloc 100, .kmalloc 1024, .write ⟨0xffff888000101080, 100⟩ 99 7,
    .kfree ⟨0xffff888000101080, 100⟩, .kmalloc 128]

theorem slab_invariant_slabRun : ∃ s, run heapStep ⟨smallHeap, []⟩ slabRun = some s ∧
    s.live = [⟨0xffff888000101080, 128⟩, ⟨0xffff888000102400, 1024⟩] ∧ SlabInv s := by
  have ends : (run heapStep ⟨smallHeap, []⟩ slabRun).map HeapState.live =
      some [⟨0xffff888000101080, 128⟩, ⟨0xffff888000102400, 1024⟩] := by decide +kernel
  obtain ⟨s, reached, live⟩ := Option.map_eq_some_iff.mp ends
  exact ⟨s, reached, live, slab_invariant smallHeap_booted (by simp [slabRun, HeapOp.Small]) reached⟩

end SnapOS.Mm
