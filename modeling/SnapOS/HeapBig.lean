/- The two public functions of the kernel heap, `kmalloc` and `kfree`, with their mutual recursion
through big allocations. -/
import SnapOS.HeapOps
import Mathlib.Data.List.Perm.Subperm

namespace SnapOS.Mm
open SnapOS.Lib

section Kmalloc

variable {early : EarlyPmm} {others : List FrameRange} {h : Heap} {free : Nat → List Nat}
  {nodes : List BigNode} {live : List Block}

theorem HeapInv.kmallocSmall_pop (inv : HeapInv early others h free nodes live) {t p n : Nat}
    {rest : List Nat} (head : free t = p :: rest) (tier : sizeToTierIdx n = some t) (fuel : Nat) :
    ∃ h', kmallocSmall t (fuel + 1) h = .ok (p, h') ∧
      HeapInv early others h' (Function.update free t rest) nodes (⟨p, n⟩ :: live) := by
  have ht := (sizeToTierIdx_some tier).1
  have chain := inv.rep.freeChain t ht
  rw [head] at chain
  refine ⟨_, ?_, inv.pop ht head tier (h.mem.load (pageAlignDown p + 5) 1 + 1)⟩
  rw [Mm.kmallocSmall, chain.1, if_pos (chain.1 ▸ chain.2.1)]

/-- `kmalloc_small` needs at most one new page. A failure changes no list. -/
theorem HeapInv.kmallocSmall (inv : HeapInv early others h free nodes live) {t n : Nat}
    (tier : sizeToTierIdx n = some t) :
    ∃ p h', kmallocSmall t 2 h = .ok (p, h') ∧
      ((p = 0 ∧ h.freeHead t = 0 ∧ (∃ pmm, h' = { h with pmm } ∧ Misses h.pmm 1 pmm) ∧
          ∃ lost, HeapInv early (lost ++ others) h' free nodes live) ∨
        (p ≠ 0 ∧ ¬ (h.freeHead t = 0 ∧ h.pmm.Lowest 1 nullFrame) ∧
          ∃ free', HeapInv early others h' free' nodes (⟨p, n⟩ :: live))) := by
  have ht := (sizeToTierIdx_some tier).1
  have nonzero {h' : Heap} {free' : Nat → List Nat} {p : Nat} {rest : List Nat}
      (inv' : HeapInv early others h' free' nodes live) (head : free' t = p :: rest) : p ≠ 0 :=
    (inv'.rep.freeChain t ht).ne_zero p (head ▸ List.mem_cons_self)
  cases hfree : free t with
  | cons p rest =>
      obtain ⟨h', run, after⟩ := inv.kmallocSmall_pop hfree tier 1
      have chain := inv.rep.freeChain t ht
      rw [hfree] at chain
      have present : h.freeHead t ≠ 0 := chain.1 ▸ nonzero inv hfree
      exact ⟨p, h', run, Or.inr ⟨nonzero inv hfree, fun empty => present empty.1, _, after⟩⟩
  | nil =>
      have null : h.freeHead t = 0 := by
        have chain := inv.rep.freeChain t ht
        rwa [hfree] at chain
      obtain ⟨res, h', init, result⟩ := inv.initTier ht hfree
      rw [Mm.kmallocSmall, null, if_neg (by simp), init, Exec.ok_bind]
      dsimp only
      rcases result with ⟨negative, missed, lost, failed⟩ | ⟨rfl, other, p, rest, added⟩
      · rw [if_pos negative]
        exact ⟨0, h', rfl, Or.inl ⟨rfl, rfl, missed, lost, failed⟩⟩
      · have head : Function.update free t (p :: rest) t = p :: rest := Function.update_self ..
        obtain ⟨h'', run, after⟩ := added.kmallocSmall_pop head tier 0
        rw [if_neg (by decide), run]
        exact ⟨p, h'', rfl, Or.inr ⟨nonzero added head, fun empty => other empty.2, _, after⟩⟩

theorem HeapInv.bigAllocHead_lt (inv : HeapInv early others h free nodes live) :
    h.bigAllocHead < 256 ^ 8 := by
  rw [inv.rep.bigChain.head_eq]
  cases nodes with
  | nil => decide
  | cons n rest =>
      have := inv.backed.pools.slot_bounds (inv.layout.node_slot List.mem_cons_self)
      simp only [List.map_cons, List.headD_cons, word64] at *
      omega

def linked (h : Heap) (n : BigNode) : Heap :=
  { h with
    mem := ((h.mem.store n.addr 8 (pagePtr n.frame)).store (n.addr + 8) 8 n.pages).store
      (n.addr + 16) 8 h.bigAllocHead
    bigAllocHead := n.addr }

theorem HeapInv.link (n : BigNode) {size : Nat}
    (inv : HeapInv early (n.range :: others) h free nodes (⟨n.addr, bigAllocNodeSize⟩ :: live))
    (mapped : pagePtr n.frame ≠ 0) (big : sizeToTierIdx size = none)
    (pages : n.pages = pageAlignUp size / pageSize) :
    HeapInv early others (linked h n) free (n :: nodes) (⟨pagePtr n.frame, size⟩ :: live) := by
  have ht : 0 < tierCount := by decide
  have member : n.addr ∈ smallPtrs 0 (⟨n.addr, bigAllocNodeSize⟩ :: live) := by
    rw [smallPtrs_node, if_pos rfl]
    exact List.mem_cons_self
  have slot := inv.layout.small_slot ht member
  obtain ⟨notFree, notNode⟩ := inv.small_apart ht member
  obtain ⟨nonzero, _, wide⟩ := inv.backed.pools.slot_bounds slot
  have inRange : n.range ∈ h.pools.map Pool.range ++ nodes.map BigNode.range ++ n.range :: others := by
    simp
  have bound := (inv.backed.frames.range_bound inv.backed.map inRange).2.2.1
  have kept : Represents { h with mem := (linked h n).mem } free nodes := by
    apply inv.rep.congr
    intro a secret
    have outside : ¬ (n.addr ≤ a ∧ a < n.addr + 24) := by
      rintro ⟨low, high⟩
      exact inv.slot_not_private slot notFree notNode low (by omega) secret
    simp only [linked]
    rw [Memory.store_outside (by omega), Memory.store_outside (by omega),
      Memory.store_outside (by omega)]
  refine ⟨inv.layout.link big pages, ⟨kept.header, kept.freeChain, ?_, ?_⟩, ?_⟩
  · refine ⟨rfl, nonzero, ?_⟩
    have hnext : (linked h n).mem.load (n.addr + 16) 8 = h.bigAllocHead := by
      simp only [linked]
      rw [Memory.load_store]
      exact Nat.mod_eq_of_lt inv.bigAllocHead_lt
    simp only [linked] at hnext ⊢
    rw [hnext]
    exact kept.bigChain
  · intro m hm
    rcases List.mem_cons.mp hm with rfl | old
    · have fits := pagePtr_fits m.frame
      constructor
      · simp only [linked]
        rw [Memory.load_store_apart (by omega), Memory.load_store_apart (by omega), Memory.load_store]
        exact Nat.mod_eq_of_lt (by simp only [word64, pageSize] at fits; omega)
      · simp only [linked]
        rw [Memory.load_store_apart (by omega), Memory.load_store]
        exact Nat.mod_eq_of_lt (by simp only [BigNode.range, FrameRange.stop, pageSize] at bound; omega)
    · exact kept.fields m old
  · refine ⟨inv.backed.map, inv.backed.frames.perm ?_, inv.backed.tier, inv.backed.mapped, ?_⟩
    · rw [List.map_cons, List.append_assoc, List.append_assoc]
      exact List.perm_middle.append_left _
    · intro m hm
      rcases List.mem_cons.mp hm with rfl | old
      · exact mapped
      · exact inv.backed.runMapped m old

/-- The request makes `alloc_page` or `alloc_pages` take the frame whose page has no pointer. A big request takes its
pages first and then, when the first tier is empty, a page for its node. -/
def TakesNullFrame (h : Heap) (size : Nat) : Prop :=
  match sizeToTierIdx size with
  | some t => h.freeHead t = 0 ∧ h.pmm.Lowest 1 nullFrame
  | none => h.pmm.Lowest (pageAlignUp size / pageSize) nullFrame ∨
      ∃ f, h.pmm.Lowest (pageAlignUp size / pageSize) f ∧ h.freeHead 0 = 0 ∧
        (markTaken h.pmm f (pageAlignUp size / pageSize)).Lowest 1 nullFrame

/-- What `kmalloc` has done to the heap when it returns `p`. -/
structure Outcome (h : Heap) (size p : Nat) (h' : Heap) : Prop where
  granted : p ≠ 0 → ¬ TakesNullFrame h size
  failed : p = 0 → ¬ TakesNullFrame h size → h' = h
  lost : p = 0 → TakesNullFrame h size → h'.pmm.bitmap.bit nullFrame = true

theorem HeapInv.kmallocSmall_outcome (inv : HeapInv early others h free nodes live) {t n : Nat}
    (tier : sizeToTierIdx n = some t) :
    ∃ p h', Mm.kmallocSmall t 2 h = .ok (p, h') ∧ Outcome h n p h' ∧
      ∃ lost free', HeapInv early (lost ++ others) h' free' nodes (if p = 0 then live else ⟨p, n⟩ :: live) := by
  have takes : TakesNullFrame h n ↔ h.freeHead t = 0 ∧ h.pmm.Lowest 1 nullFrame := by
    rw [TakesNullFrame, tier]
  obtain ⟨p, h', run, result⟩ := inv.kmallocSmall tier
  refine ⟨p, h', run, ?_⟩
  rcases result with ⟨rfl, null, ⟨pmm, rfl, misses⟩, lost, failed⟩ | ⟨nonzero, other, free', after⟩
  · refine ⟨⟨fun nonzero => absurd rfl nonzero, ?_, ?_⟩, lost, free, failed⟩
    · intro _ clean
      rw [misses.kept fun lowest => clean (takes.mpr ⟨null, lowest⟩)]
    · exact fun _ taken => misses.lost (takes.mp taken).2
  · rw [if_neg nonzero]
    exact ⟨⟨fun _ taken => other (takes.mp taken), fun zero => absurd zero nonzero, fun zero => absurd zero nonzero⟩,
      [], free', after⟩

theorem release_markTaken {p : Pmm} {f count : Nat} (run : p.FreeRun f count) :
    (markTaken p f count).release f count = p := by
  have same : (p.bitmap.setBits f count).clearBits f count = p.bitmap := by
    apply Bitmap.ext
    intro i
    rw [Bitmap.bit_clearBits, Bitmap.bit_setBits]
    by_cases inside : f ≤ i ∧ i < f + count
    · rw [(run i inside.1 inside.2).2]
      simp [inside]
    · simp [inside]
  rw [markTaken, Pmm.release, same]

theorem release_outside {p q : Pmm} {f count i : Nat} (free : (markTaken p f count).IsFree i) :
    (q.release f count).bitmap.bit i = q.bitmap.bit i := by
  have clear := free.2
  rw [markTaken, Bitmap.bit_setBits, Bool.or_eq_false_iff, decide_eq_false_iff_not] at clear
  rw [Pmm.release, Bitmap.bit_clearBits, decide_eq_true clear.2, Bool.and_true]

theorem HeapInv.kmallocBig (inv : HeapInv early others h free nodes live) {n : Nat}
    (small : n ≤ word64 - pageSize) (tier : sizeToTierIdx n = none) :
    ∃ p h', Mm.kmalloc n h = .ok (p, h') ∧ Outcome h n p h' ∧ ∃ lost free' nodes',
      HeapInv early (lost ++ others) h' free' nodes' (if p = 0 then live else ⟨p, n⟩ :: live) := by
  have big := sizeToTierIdx_none.mp tier
  have positive : 0 < pageAlignUp n / pageSize := by
    have := le_pageAlignUp small
    have := pageAlignUp_mod n
    simp only [pageSize] at *
    omega
  have takes : TakesNullFrame h n ↔ h.pmm.Lowest (pageAlignUp n / pageSize) nullFrame ∨
      ∃ f, h.pmm.Lowest (pageAlignUp n / pageSize) f ∧ h.freeHead 0 = 0 ∧
        (markTaken h.pmm f (pageAlignUp n / pageSize)).Lowest 1 nullFrame := by
    rw [TakesNullFrame, tier]
  rw [Mm.kmalloc, kmallocRec, tier]
  dsimp only
  rw [Mm.kmallocBig]
  obtain ⟨v, pmm, alloc, result⟩ := allocPages_spec inv.backed positive
  rw [alloc, Exec.ok_bind]
  dsimp only
  have rep (pmm : Pmm) : Represents { h with pmm } free nodes :=
    ⟨inv.rep.header, inv.rep.freeChain, inv.rep.bigChain, inv.rep.fields⟩
  rcases result with ⟨rfl, misses, lost, backed⟩ | ⟨f, rfl, mapped, bound, lowest, rfl, backed⟩
  · rw [if_pos rfl]
    refine ⟨0, _, rfl, ⟨fun nonzero => absurd rfl nonzero, ?_, ?_⟩, lost, free, nodes, inv.layout, rep pmm, backed⟩
    · intro _ clean
      rw [misses.kept fun null => clean (takes.mpr (Or.inl null))]
    · intro _ taken
      by_cases null : h.pmm.Lowest (pageAlignUp n / pageSize) nullFrame
      · exact misses.lost null
      · rcases takes.mp taken with first | ⟨f, first, _⟩
        · exact absurd first null
        · exact absurd first.1 (misses.missing null f)
  · rw [if_neg mapped]
    have second : TakesNullFrame h n ↔ h.freeHead 0 = 0 ∧
        (markTaken h.pmm f (pageAlignUp n / pageSize)).Lowest 1 nullFrame := by
      rw [takes]
      constructor
      · rintro (null | ⟨g, lowest', rest⟩)
        · exact absurd null (not_lowest_null lowest mapped)
        · rwa [lowest'.unique lowest] at rest
      · exact fun rest => Or.inr ⟨f, lowest, rest⟩
    have held : HeapInv early (⟨f * pageSize, pageAlignUp n / pageSize⟩ :: others)
        { h with pmm := markTaken h.pmm f (pageAlignUp n / pageSize) } free nodes live :=
      ⟨inv.layout, rep _, backed⟩
    have node : sizeToTierIdx bigAllocNodeSize = some 0 := by decide
    rw [kmallocRec, node]
    dsimp only
    obtain ⟨cur, h', run, result⟩ := held.kmallocSmall node
    rw [run, Exec.ok_bind]
    dsimp only at result ⊢
    rcases result with ⟨rfl, null, ⟨pmm, rfl, misses⟩, lost, failed⟩ | ⟨nonzero, other, free', after⟩
    · have member : ⟨f * pageSize, pageAlignUp n / pageSize⟩ ∈
          lost ++ ⟨f * pageSize, pageAlignUp n / pageSize⟩ :: others := by simp
      obtain ⟨freed, backed⟩ := freePages_spec failed.backed bound member
      rw [if_pos rfl, freed, Exec.ok_bind]
      refine ⟨0, _, rfl, ⟨fun nonzero => absurd rfl nonzero, ?_, ?_⟩, lost, free, nodes, failed.layout,
        ⟨failed.rep.header, failed.rep.freeChain, failed.rep.bigChain, failed.rep.fields⟩,
        backed.map, backed.frames.perm ?_, backed.tier, backed.mapped, backed.runMapped⟩
      · intro _ clean
        dsimp only
        rw [misses.kept fun taken => clean (second.mpr ⟨null, taken⟩), release_markTaken lowest.1]
      · intro _ taken
        have last := (second.mp taken).2
        exact (release_outside (last.1 nullFrame le_rfl (Nat.lt_succ_self _))).trans (misses.lost last)
      · apply List.Perm.append_left
        exact (List.perm_middle.erase _).trans (by rw [List.erase_cons_head])
    · rw [if_neg nonzero]
      refine ⟨pagePtr f, _, rfl, ⟨fun _ taken => other (second.mp taken), fun zero => absurd zero mapped,
        fun zero => absurd zero mapped⟩, [], free', ⟨cur, f, pageAlignUp n / pageSize⟩ :: nodes, ?_⟩
      rw [if_neg mapped]
      exact HeapInv.link ⟨cur, f, pageAlignUp n / pageSize⟩ after mapped tier rfl

/-- `kmalloc` never panics for the sizes that do not wrap when rounded up to pages. A failure leaves
the live blocks as they were; a success adds one. -/
theorem HeapInv.kmalloc (inv : HeapInv early others h free nodes live) {n : Nat}
    (small : n ≤ word64 - pageSize) :
    ∃ p h', kmalloc n h = .ok (p, h') ∧ Outcome h n p h' ∧ ∃ lost free' nodes',
      HeapInv early (lost ++ others) h' free' nodes' (if p = 0 then live else ⟨p, n⟩ :: live) := by
  cases tier : sizeToTierIdx n with
  | some t =>
      obtain ⟨p, h', run, outcome, lost, free', after⟩ := inv.kmallocSmall_outcome tier
      refine ⟨p, h', ?_, outcome, lost, free', nodes, after⟩
      rw [Mm.kmalloc, kmallocRec, tier]
      exact run
  | none => exact inv.kmallocBig small tier

/-- There are no more nodes than slots, which bounds the search of `kfree_big`. -/
theorem HeapInv.nodes_length (inv : HeapInv early others h free nodes live) :
    nodes.length ≤ 1024 * h.pmm.size := by
  have all : nodes.map BigNode.addr ⊆ (List.range (8 * h.pmm.size)).flatMap fun f => slotList f 0 := by
    intro p hp
    obtain ⟨n, member, rfl⟩ := List.mem_map.mp hp
    obtain ⟨f, k, hpool, low, high, place⟩ := inv.layout.node_slot member
    have taken := inv.backed.frames.taken (Pool.range ⟨f, 0⟩)
      (by simp only [List.mem_append, List.mem_map]; exact Or.inl (Or.inl ⟨_, hpool, rfl⟩)) f
      (by simp only [FrameRange.Holds, Pool.range, FrameRange.stop, pageSize]; omega)
    refine List.mem_flatMap.mpr ⟨f, List.mem_range.mpr taken.1, ?_⟩
    exact (mem_slotList (by decide)).mpr ⟨k, low, high, place⟩
  have nodup : (nodes.map BigNode.addr).Nodup := (List.nodup_append.mp (inv.layout.nodup 0 (by decide))).2.1
  have count : ∀ m, ((List.range m).flatMap fun f => slotList f 0).length = m * 127 := by
    intro m
    induction m with
    | zero => rfl
    | succ m ih =>
        rw [List.range_succ, List.flatMap_append, List.length_append, ih, Nat.succ_mul]
        simp only [List.flatMap_singleton, slotList, List.length_map, List.length_range']
        rfl
  have le := (List.subperm_of_subset nodup all).length_le
  rw [List.length_map, count] at le
  omega

theorem bigSearch_spec {mem : Memory} {vaddr : Nat} {n : BigNode} {post : List BigNode}
    (found : mem.load n.addr 8 = vaddr) : ∀ (pre : List BigNode) (cur prev fuel : Nat),
      Chain (fun p => mem.load (p + 16) 8) cur ((pre ++ n :: post).map BigNode.addr) →
      (∀ m ∈ pre, mem.load m.addr 8 ≠ vaddr) → pre.length < fuel →
      bigSearch mem vaddr fuel cur prev = .ok (n.addr, (pre.getLast?.map BigNode.addr).getD prev) := by
  intro pre
  induction pre with
  | nil =>
      intro cur prev fuel chain _ enough
      obtain ⟨fuel, rfl⟩ : ∃ k, fuel = k + 1 := ⟨fuel - 1, by simp only [List.length_nil] at enough; omega⟩
      obtain ⟨rfl, _, _⟩ := chain
      rw [bigSearch, if_neg (by simp [found])]
      rfl
  | cons m rest ih =>
      intro cur prev fuel chain other enough
      obtain ⟨fuel, rfl⟩ : ∃ k, fuel = k + 1 := ⟨fuel - 1, by simp only [List.length_cons] at enough; omega⟩
      obtain ⟨rfl, nonzero, tail⟩ := chain
      rw [bigSearch, if_pos ⟨nonzero, other m List.mem_cons_self⟩,
        ih _ m.addr fuel tail (fun q member => other q (List.mem_cons_of_mem m member))
          (by simp only [List.length_cons] at enough; omega)]
      cases hlast : rest.getLast? with
      | none =>
          obtain rfl := List.getLast?_eq_none_iff.mp hlast
          rfl
      | some last => simp [List.getLast?_cons, hlast]

def unlinked (h : Heap) (pre : List BigNode) (n : BigNode) : Heap :=
  match pre.getLast? with
  | none => { h with bigAllocHead := h.mem.load (n.addr + 16) 8 }
  | some last => { h with mem := h.mem.store (last.addr + 16) 8 (h.mem.load (n.addr + 16) 8) }

theorem HeapInv.link_apart (inv : HeapInv early others h free nodes live) {m : BigNode}
    (member : m ∈ nodes) :
    (∀ q ∈ h.pools, m.addr + 32 ≤ pagePtr q.frame ∨ pagePtr q.frame + 32 ≤ m.addr) ∧
      (∀ t < tierCount, ∀ p ∈ free t, m.addr + 32 ≤ p ∨ p + 8 ≤ m.addr) ∧
      ∀ n ∈ nodes, n.addr ≠ m.addr → m.addr + 32 ≤ n.addr ∨ n.addr + 32 ≤ m.addr := by
  have good := inv.backed.pools
  have slot := inv.layout.node_slot member
  have here : m.addr ∈ nodePtrs 0 nodes := by
    rw [nodePtrs, if_pos rfl]
    exact List.mem_map_of_mem member
  refine ⟨fun q _ => good.slot_header_apart slot q.frame, ?_, ?_⟩
  · intro t ht p hp
    have other := inv.layout.free_slot ht hp
    have different : m.addr ≠ p := by
      rintro rfl
      obtain rfl := good.slot_tier slot other
      exact (List.nodup_append.mp (inv.layout.nodup 0 ht)).2.2 _ (List.mem_append_left _ hp) _ here rfl
    have := good.slots_apart slot other different
    have := (good.slot_bounds other).2.2
    simp only [slotSize] at *
    omega
  · intro n hn different
    exact good.slots_apart slot (inv.layout.node_slot hn) different.symm

theorem HeapInv.unlinked_rep {pre post : List BigNode} {n : BigNode}
    (inv : HeapInv early others h free (pre ++ n :: post) live) :
    Represents (unlinked h pre n) free (pre ++ post) := by
  have sub {m : BigNode} (member : m ∈ pre ++ post) : m ∈ pre ++ n :: post := by
    rcases List.mem_append.mp member with front | back
    · exact List.mem_append_left _ front
    · exact List.mem_append_right _ (List.mem_cons_of_mem n back)
  unfold unlinked
  cases hlast : pre.getLast? with
  | none =>
      obtain rfl := List.getLast?_eq_none_iff.mp hlast
      exact ⟨inv.rep.header, inv.rep.freeChain, (inv.rep.bigChain.1 ▸ inv.rep.bigChain).2.2,
        fun m member => inv.rep.fields m (sub member)⟩
  | some last =>
      have lastMember : last ∈ pre ++ n :: post :=
        List.mem_append_left _ (List.mem_of_getLast? hlast)
      obtain ⟨headers, slots, others'⟩ := inv.link_apart lastMember
      have nodup : ((pre ++ n :: post).map BigNode.addr).Nodup :=
        (List.nodup_append.mp (inv.layout.nodup 0 (by decide))).2.1
      refine ⟨?_, ?_, ?_, ?_⟩
      · intro q member
        have := headers q member
        dsimp only
        rw [Memory.load_store_apart (by omega), Memory.load_store_apart (by omega)]
        exact inv.rep.header q member
      · intro t ht
        apply (inv.rep.freeChain t ht).congr
        intro p member
        have := slots t ht p member
        exact Memory.load_store_apart (by omega)
      · have chain := inv.rep.bigChain
        rw [List.map_append, List.map_cons] at chain nodup
        rw [List.map_append]
        refine chain.unlink nodup (by rw [List.getLast?_map, hlast]; rfl) ?_ ?_
        · intro r member different
          rw [← List.map_append] at member
          obtain ⟨m, hm, rfl⟩ := List.mem_map.mp member
          have := others' m (sub hm) different
          exact Memory.load_store_apart (by omega)
        · exact (Memory.load_store _ _ _ _).trans (Nat.mod_eq_of_lt (Memory.load_lt _ _ _))
      · intro m member
        have apart : m.addr + 16 ≤ last.addr + 16 ∨ last.addr + 24 ≤ m.addr := by
          by_cases same : m.addr = last.addr
          · omega
          · have := others' m (sub member) same
            omega
        dsimp only
        rw [Memory.load_store_apart (by omega), Memory.load_store_apart (by omega)]
        exact inv.rep.fields m (sub member)

theorem HeapInv.unlinked_eq {pre post : List BigNode} {n : BigNode}
    (inv : HeapInv early others h free (pre ++ n :: post) live) :
    (if n.addr = h.bigAllocHead then { h with bigAllocHead := h.mem.load (h.bigAllocHead + 16) 8 }
      else { h with mem := h.mem.store ((pre.getLast?.map BigNode.addr).getD 0 + 16) 8 (h.mem.load (n.addr + 16) 8) }) =
      unlinked h pre n := by
  have hhead := inv.rep.bigChain.head_eq
  have nodup : ((pre ++ n :: post).map BigNode.addr).Nodup :=
    (List.nodup_append.mp (inv.layout.nodup 0 (by decide))).2.1
  unfold unlinked
  cases pre with
  | nil =>
      have first : h.bigAllocHead = n.addr := hhead
      rw [if_pos first.symm, first]
      rfl
  | cons m rest =>
      have first : h.bigAllocHead = m.addr := hhead
      have other : n.addr ≠ h.bigAllocHead := by
        intro same
        rw [List.cons_append, List.map_cons, List.nodup_cons] at nodup
        apply nodup.1
        rw [← first, ← same]
        exact List.mem_map_of_mem (by simp)
      rw [if_neg other]
      cases hlast : (m :: rest).getLast? with
      | none => simp at hlast
      | some last => rfl

theorem HeapInv.unlinked_pages {pre post : List BigNode} {n : BigNode}
    (inv : HeapInv early others h free (pre ++ n :: post) live) :
    (unlinked h pre n).mem.load (n.addr + 8) 8 = n.pages := by
  have member : n ∈ pre ++ n :: post := by simp
  have nodup : ((pre ++ n :: post).map BigNode.addr).Nodup :=
    (List.nodup_append.mp (inv.layout.nodup 0 (by decide))).2.1
  rw [← (inv.rep.fields n member).2]
  unfold unlinked
  cases hlast : pre.getLast? with
  | none => rfl
  | some last =>
      have front := List.mem_of_getLast? hlast
      have different : last.addr ≠ n.addr := by
        intro same
        rw [List.map_append, List.map_cons, List.nodup_append] at nodup
        exact nodup.2.2 _ (List.mem_map_of_mem front) _ List.mem_cons_self same
      have := (inv.link_apart member).2.2 last (List.mem_append_left _ front) different
      exact Memory.load_store_apart (by omega)

def released (h : Heap) (pre : List BigNode) (n : BigNode) : Heap :=
  pushed { unlinked h pre n with pmm := h.pmm.release n.frame n.pages } 0 n.addr

theorem unlinked_pmm (h : Heap) (pre : List BigNode) (n : BigNode) : (unlinked h pre n).pmm = h.pmm := by
  unfold unlinked
  split <;> rfl

theorem unlinked_pools (h : Heap) (pre : List BigNode) (n : BigNode) :
    (unlinked h pre n).pools = h.pools := by
  unfold unlinked
  split <;> rfl

theorem HeapInv.node_limit (inv : HeapInv early others h free nodes live) {n : BigNode} (member : n ∈ nodes) :
    n.frame + n.pages ≤ frameLimit ∧ 0 < n.pages := by
  have bound := inv.backed.frames.range_bound inv.backed.map (r := n.range)
    (by simp only [List.mem_append, List.mem_map]; exact Or.inl (Or.inr ⟨n, member, rfl⟩))
  simp only [BigNode.range, FrameRange.stop, pageSize, frameLimit] at *
  omega

theorem HeapInv.other_page {pre post : List BigNode} {n m : BigNode}
    (inv : HeapInv early others h free (pre ++ n :: post) live) (member : m ∈ pre) :
    pagePtr m.frame ≠ pagePtr n.frame := by
  have apart := (List.pairwise_append.mp (List.pairwise_append.mp inv.backed.frames.apart).1).2.1
  rw [List.map_append, List.map_cons, List.pairwise_append] at apart
  have separate := apart.2.2 m.range (List.mem_map_of_mem member) n.range List.mem_cons_self
  intro same
  obtain ⟨mBound, mPages⟩ := inv.node_limit (List.mem_append_left _ member)
  obtain ⟨nBound, nPages⟩ := inv.node_limit (n := n) (by simp)
  have := pagePtr_inj (by omega) (by omega) same
  simp only [FrameRange.Apart, FrameRange.stop, BigNode.range, pageSize] at separate
  omega

/-- Freeing a big block whose first word is not the magic number. -/
theorem HeapInv.kfree_big {b : Block} (inv : HeapInv early others h free nodes (b :: live))
    (big : sizeToTierIdx b.size = none) (plain : h.mem.load b.ptr 4 ≠ magic) :
    ∃ pre n post, nodes = pre ++ n :: post ∧ pagePtr n.frame = b.ptr ∧ n.frame < frameLimit ∧
      n.pages = pageAlignUp b.size / pageSize ∧ kfree b.ptr h = .ok (released h pre n) ∧
      HeapInv early others (released h pre n) (Function.update free 0 (n.addr :: free 0))
        (pre ++ post) live := by
  have run : (b.ptr, pageAlignUp b.size / pageSize) ∈
      nodes.map fun n => (pagePtr n.frame, n.pages) := by
    rw [inv.layout.runs.mem_iff, bigRuns_cons, if_pos big]
    exact List.mem_cons_self
  obtain ⟨n, member, same⟩ := List.mem_map.mp run
  obtain ⟨hptr, hpages⟩ := Prod.mk.inj same
  obtain ⟨pre, post, rfl⟩ := List.append_of_mem member
  have limit : n.frame < frameLimit := by
    have := inv.node_limit member
    omega
  refine ⟨pre, n, post, rfl, hptr, limit, hpages, ?_⟩
  have search := bigSearch_spec (inv.rep.fields n member).1 pre h.bigAllocHead 0
    (1024 * h.pmm.size + 1) inv.rep.bigChain
    (fun m front => by rw [(inv.rep.fields m (List.mem_append_left _ front)).1]; exact inv.other_page front)
    (by have := inv.nodes_length; rw [List.length_append, List.length_cons] at this; omega)
  have split : (pre ++ n :: post).Perm (n :: (pre ++ post)) := List.perm_middle
  have detached : HeapInv early (n.range :: others) (unlinked h pre n) free (pre ++ post)
      (⟨n.addr, bigAllocNodeSize⟩ :: live) := by
    have layout := inv.layout
    rw [show b = ⟨pagePtr n.frame, b.size⟩ by rw [hptr]] at layout
    refine ⟨?_, inv.unlinked_rep, inv.backed.map, ?_, ?_, ?_, ?_⟩
    · rw [unlinked_pools]
      exact layout.unlink split big hpages
    · rw [unlinked_pools, unlinked_pmm]
      apply inv.backed.frames.perm
      rw [List.append_assoc, List.append_assoc]
      apply List.Perm.append_left
      have moved := (split.map BigNode.range).append_right others
      exact moved.trans (by rw [List.map_cons, List.cons_append]; exact List.perm_middle.symm)
    · rw [unlinked_pools]
      exact inv.backed.tier
    · rw [unlinked_pools]
      exact inv.backed.mapped
    · intro m hm
      exact inv.backed.runMapped m (split.mem_iff.mpr (List.mem_cons_of_mem n hm))
  obtain ⟨freed, backed⟩ := freePages_spec detached.backed limit List.mem_cons_self
  have cleared : HeapInv early others { unlinked h pre n with pmm := h.pmm.release n.frame n.pages }
      free (pre ++ post) (⟨n.addr, bigAllocNodeSize⟩ :: live) := by
    rw [unlinked_pmm, show (⟨n.frame * pageSize, n.pages⟩ : FrameRange) = n.range from rfl,
      List.erase_cons_head] at backed
    exact ⟨detached.layout, ⟨detached.rep.header, detached.rep.freeChain, detached.rep.bigChain,
      detached.rep.fields⟩, backed⟩
  obtain ⟨push, final⟩ := cleared.kfree_small (show sizeToTierIdx bigAllocNodeSize = some 0 by decide) 0
  refine ⟨?_, final⟩
  have nonzero : n.addr ≠ 0 := (inv.backed.pools.slot_bounds (inv.layout.node_slot member)).1
  rw [kfree, kfreeRec]
  dsimp only
  rw [← hptr, pageAlignDown_page, hptr, if_pos plain, kfreeBig, ← hptr, search, Exec.ok_bind]
  dsimp only
  rw [if_neg nonzero, inv.unlinked_eq, inv.unlinked_pages, freed, Exec.ok_bind, unlinked_pmm]
  exact push

end Kmalloc

end SnapOS.Mm
