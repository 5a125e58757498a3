/- When `kmalloc` fails, and what it leaves behind: requests at the end of memory and at the end of the size range. -/
import SnapOS.HeapRuns

namespace SnapOS.Mm
open SnapOS.Lib

def Block.Apart (b c : Block) : Prop :=
  ∀ i < b.size, ∀ j < c.size, (b.ptr + i) % word64 ≠ (c.ptr + j) % word64

theorem Block.Apart.symm {b c : Block} (apart : b.Apart c) : c.Apart b :=
  fun i hi j hj same => apart j hj i hi same.symm

def RunsApart (r s : Nat × Nat) : Prop :=
  ∀ i < r.2 * pageSize, ∀ j < s.2 * pageSize, (r.1 + i) % word64 ≠ (s.1 + j) % word64

section Bytes

variable {early : EarlyPmm} {others : List FrameRange} {h : Heap} {free : Nat → List Nat}
  {nodes : List BigNode} {live : List Block}

theorem BigNode.runs_apart {m n : BigNode} (mLimit : m.frame + m.pages ≤ frameLimit)
    (nLimit : n.frame + n.pages ≤ frameLimit) (apart : m.range.Apart n.range) :
    RunsApart (pagePtr m.frame, m.pages) (pagePtr n.frame, n.pages) := by
  intro i hi j hj same
  dsimp only at hi hj same
  rw [pagePtr_add, pagePtr_add] at same
  have hi' : i / pageSize < m.pages := Nat.div_lt_of_lt_mul (by rwa [Nat.mul_comm])
  have hj' : j / pageSize < n.pages := Nat.div_lt_of_lt_mul (by rwa [Nat.mul_comm])
  have frames := pagePtr_offset_inj (by omega) (by omega) (Nat.mod_lt i (by decide)) (Nat.mod_lt j (by decide)) same
  simp only [FrameRange.Apart, FrameRange.stop, BigNode.range, pageSize] at *
  omega

theorem HeapInv.bigRuns_apart (inv : HeapInv early others h free nodes live) :
    (bigRuns live).Pairwise RunsApart := by
  have ranges := (List.pairwise_append.mp (List.pairwise_append.mp inv.backed.frames.apart).1).2.1
  have runs : (nodes.map fun n => (pagePtr n.frame, n.pages)).Pairwise RunsApart := by
    rw [List.pairwise_map] at ranges ⊢
    refine List.Pairwise.imp_of_mem ?_ ranges
    intro m n hm hn apart
    exact BigNode.runs_apart (inv.node_limit hm).1 (inv.node_limit hn).1 apart
  exact inv.layout.runs.pairwise runs fun apart i hi j hj same => apart j hj i hi same.symm

theorem HeapInv.small_byte (inv : HeapInv early others h free nodes live) {b : Block} {t : Nat} (member : b ∈ live)
    (tier : sizeToTierIdx b.size = some t) {i : Nat} (inside : i < b.size) :
    ∃ q ∈ h.pools, ∃ a < pageSize, (b.ptr + i) % word64 = pagePtr q.frame + a := by
  have slot := (inv.small_member member tier).2
  have fits := (sizeToTierIdx_some tier).2
  have bounds := inv.backed.pools.slot_bounds slot
  obtain ⟨f, k, pool, _, _, place, _, high, _⟩ := inv.backed.pools.slot_place slot
  refine ⟨⟨f, t⟩, pool, k * slotSize t + i, by omega, ?_⟩
  rw [Nat.mod_eq_of_lt (by omega), place, Nat.add_assoc]

theorem HeapInv.mixed_apart (inv : HeapInv early others h free nodes live) {b c : Block} {t : Nat}
    (hb : b ∈ live) (hc : c ∈ live) (size : c.size ≤ word64 - pageSize) (small : sizeToTierIdx b.size = some t)
    (big : sizeToTierIdx c.size = none) : b.Apart c := by
  intro i hi j hj same
  obtain ⟨q, hq, a, low, place⟩ := inv.small_byte hb small hi
  obtain ⟨n, hn, f, first, last, limit, place'⟩ := inv.big_byte hc big size hj
  rw [place, place'] at same
  have frames := pagePtr_offset_inj (inv.backed.pools.bound q hq) limit low (Nat.mod_lt j (by decide)) same
  exact inv.pool_apart hq hn (frames ▸ ⟨first, last⟩)

theorem HeapInv.live_apart (inv : HeapInv early others h free nodes live)
    (sizes : ∀ b ∈ live, b.size ≤ word64 - pageSize) : live.Pairwise Block.Apart := by
  have covered {b : Block} (hb : b ∈ live) {i : Nat} (hi : i < b.size) :
      i < pageAlignUp b.size / pageSize * pageSize := by
    rw [Nat.div_mul_cancel (Nat.dvd_of_mod_eq_zero (pageAlignUp_mod b.size))]
    exact Nat.lt_of_lt_of_le hi (le_pageAlignUp (sizes b hb))
  have bigs := List.pairwise_filterMap.mp inv.bigRuns_apart
  refine List.Pairwise.imp_of_mem ?_ (inv.blocks_apart.and bigs)
  rintro b c hb hc ⟨slots, runs⟩
  cases bTier : sizeToTierIdx b.size with
  | some t =>
      cases cTier : sizeToTierIdx c.size with
      | some u =>
          intro i hi j hj
          have bBounds := inv.backed.pools.slot_bounds (inv.small_member hb bTier).2
          have cBounds := inv.backed.pools.slot_bounds (inv.small_member hc cTier).2
          have bFits := (sizeToTierIdx_some bTier).2
          have cFits := (sizeToTierIdx_some cTier).2
          have apart := slots t u bTier cTier
          rw [Nat.mod_eq_of_lt (by omega), Nat.mod_eq_of_lt (by omega)]
          omega
      | none => exact inv.mixed_apart hb hc (sizes c hc) bTier cTier
  | none =>
      cases cTier : sizeToTierIdx c.size with
      | some u => exact (inv.mixed_apart hc hb (sizes b hb) cTier bTier).symm
      | none =>
          intro i hi j hj
          exact runs _ (if_pos bTier) _ (if_pos cTier) i (covered hb hi) j (covered hc hj)

theorem HeapInv.byte_taken (inv : HeapInv early others h free nodes live) {b : Block} (member : b ∈ live)
    (size : b.size ≤ word64 - pageSize) {i : Nat} (inside : i < b.size) :
    ∃ f, h.pmm.bitmap.bit f = true ∧ pagePtr f ≤ (b.ptr + i) % word64 ∧
      (b.ptr + i) % word64 < pagePtr f + pageSize := by
  cases tier : sizeToTierIdx b.size with
  | some t =>
      obtain ⟨q, hq, a, low, place⟩ := inv.small_byte member tier inside
      have taken := inv.backed.frames.taken q.range
        (by simp only [List.mem_append, List.mem_map]; exact Or.inl (Or.inl ⟨q, hq, rfl⟩)) q.frame
        (by simp only [FrameRange.Holds, Pool.range, FrameRange.stop, pageSize]; omega)
      exact ⟨q.frame, taken.2, by omega, by omega⟩
  | none =>
      obtain ⟨n, hn, f, first, last, _, place⟩ := inv.big_byte member tier size inside
      have taken := inv.backed.frames.taken n.range
        (by simp only [List.mem_append, List.mem_map]; exact Or.inl (Or.inr ⟨n, hn, rfl⟩)) f
        (by simp only [FrameRange.Holds, BigNode.range, FrameRange.stop, pageSize]; omega)
      have := Nat.mod_lt i (show 0 < pageSize by decide)
      exact ⟨f, taken.2, by omega, by omega⟩

end Bytes

/-- The bitmap and all lists of the heap are as they were. -/
structure Untouched (before after : Heap) : Prop where
  bitmap : after.pmm.bitmap = before.pmm.bitmap
  lists : ∀ free nodes, Represents before free nodes → Represents after free nodes

/-- The block is made of marked frames and shares no byte with a live block. -/
structure Grants (s : HeapState) (p size : Nat) (after : Heap) : Prop where
  backed : ∀ i < size, ∃ f, after.pmm.bitmap.bit f = true ∧ pagePtr f ≤ (p + i) % word64 ∧
    (p + i) % word64 < pagePtr f + pageSize
  apart : ∀ b ∈ s.live, Block.Apart ⟨p, size⟩ b

/-- The call returns, and it returns NULL from an untouched heap or a new block. -/
def CleanKmalloc (s : HeapState) (size : Nat) : Prop :=
  ∃ p after, kmalloc size s.heap = .ok (p, after) ∧
    (p = 0 ∧ Untouched s.heap after ∨ p ≠ 0 ∧ Grants s p size after)

theorem TakesNullFrame.free {h : Heap} {size : Nat} (word : size ≤ word64 - pageSize)
    (taken : TakesNullFrame h size) : h.pmm.IsFree nullFrame := by
  unfold TakesNullFrame at taken
  cases tier : sizeToTierIdx size with
  | some t =>
      rw [tier] at taken
      exact taken.2.1 nullFrame le_rfl (Nat.lt_succ_self _)
  | none =>
      rw [tier] at taken
      have positive : 0 < pageAlignUp size / pageSize := by
        have := sizeToTierIdx_none.mp tier
        have := le_pageAlignUp word
        have := pageAlignUp_mod size
        simp only [pageSize] at *
        omega
      rcases taken with first | ⟨f, _, _, second⟩
      · exact first.1 nullFrame le_rfl (by omega)
      · obtain ⟨inside, clear⟩ := second.1 nullFrame le_rfl (Nat.lt_succ_self _)
        rw [markTaken, Bitmap.bit_setBits, Bool.or_eq_false_iff] at clear
        exact ⟨inside, clear.1⟩

theorem WellFormed.kmalloc_clean {s : HeapState} (inv : WellFormed s) {size : Nat}
    (word : size ≤ word64 - pageSize) : CleanKmalloc s size ↔ ¬ TakesNullFrame s.heap size := by
  obtain ⟨early, others, free, nodes, shape⟩ := inv.shape
  obtain ⟨p, after, alloc, outcome, lost, free', nodes', inv'⟩ := shape.kmalloc word
  constructor
  · rintro ⟨p', after', alloc', result⟩ taken
    obtain ⟨rfl, rfl⟩ := Prod.mk.inj (Except.ok.inj (alloc.symm.trans alloc'))
    rcases result with ⟨zero, untouched⟩ | ⟨nonzero, _⟩
    · have marked := outcome.lost zero taken
      rw [untouched.bitmap, (taken.free word).2] at marked
      cases marked
    · exact outcome.granted nonzero taken
  · intro clean
    refine ⟨p, after, alloc, ?_⟩
    by_cases zero : p = 0
    · refine Or.inl ⟨zero, ?_⟩
      rw [outcome.failed zero clean]
      exact ⟨rfl, fun _ _ rep => rep⟩
    · rw [if_neg zero] at inv'
      have apart := inv'.live_apart (List.forall_mem_cons.mpr ⟨word, inv.sizes⟩)
      exact Or.inr ⟨zero, fun i hi => inv'.byte_taken List.mem_cons_self word hi, (List.pairwise_cons.mp apart).1⟩

theorem kmalloc_wraps (h : Heap) {size : Nat} (word : size < word64) (big : ¬ size ≤ word64 - pageSize) :
    kmalloc size h = Exec.panic "pmm_alloc_contiguous_frames: count must be > 0." := by
  have tier : sizeToTierIdx size = none := by
    rw [sizeToTierIdx_none]
    simp only [pageSize, word64] at *
    omega
  rw [kmalloc, kmallocRec, tier]
  dsimp only
  rw [kmallocBig, pageAlignUp_wraps word big]
  rfl

/-- In every run that frees no disguised block, `kmalloc` fails cleanly unless the size wraps or the request takes
the frame whose page has no pointer. -/
theorem kmalloc_clean_iff {h : Heap} (boot : Booted h) {ops : List HeapOp} {s : HeapState}
    (undisguised : Meets heapStep Undisguised ⟨h, []⟩ ops) (reached : run heapStep ⟨h, []⟩ ops = some s)
    {size : Nat} (word : size < word64) :
    CleanKmalloc s size ↔ size ≤ word64 - pageSize ∧ ¬ TakesNullFrame s.heap size := by
  have inv := run_invariant heapStep_wellFormed boot.wellFormed undisguised reached
  by_cases fits : size ≤ word64 - pageSize
  · rw [inv.kmalloc_clean fits]
    exact ⟨fun clean => ⟨fits, clean⟩, fun both => both.2⟩
  · constructor
    · rintro ⟨p, after, alloc, _⟩
      rw [kmalloc_wraps s.heap word fits] at alloc
      cases alloc
    · exact fun both => absurd both.1 fits

/-- With a small and a big block live, there is no memory for sixteen pages. -/
theorem kmalloc_clean_iff_short : ∃ s, run heapStep ⟨smallHeap, []⟩ [.kmalloc 2048, .kmalloc 64] = some s ∧
    s.live.length = 2 ∧ (kmalloc 0x10000 s.heap).toOption.map Prod.fst = some 0 ∧ CleanKmalloc s 0x10000 := by
  have ends : (run heapStep ⟨smallHeap, []⟩ [.kmalloc 2048, .kmalloc 64]).map (fun s =>
      (s.live.length, (kmalloc 0x10000 s.heap).toOption.map Prod.fst, decide (8 * s.heap.pmm.size ≤ nullFrame))) =
        some (2, some 0, true) := by decide +kernel
  obtain ⟨s, reached, seen⟩ := Option.map_eq_some_iff.mp ends
  simp only [Prod.mk.injEq, decide_eq_true_eq] at seen
  obtain ⟨two, null, few⟩ := seen
  have word : 0x10000 ≤ word64 - pageSize := by decide
  refine ⟨s, reached, two, null, (kmalloc_clean_iff smallHeap_booted (by simp [Meets, Undisguised]) reached
    (by decide)).mpr ⟨word, fun taken => ?_⟩⟩
  exact absurd (taken.free word).1 (Nat.not_lt.mpr few)

/-- The largest size is rounded up to zero pages, and the frame allocator panics. -/
theorem huge_size_panics : Booted smallHeap ∧
    kmalloc (2 ^ 64 - 1) smallHeap = Exec.panic "pmm_alloc_contiguous_frames: count must be > 0." ∧
    ¬ CleanKmalloc ⟨smallHeap, []⟩ (2 ^ 64 - 1) := by
  have panics : kmalloc (2 ^ 64 - 1) smallHeap = Exec.panic "pmm_alloc_contiguous_frames: count must be > 0." :=
    kmalloc_wraps smallHeap (by decide) (by decide)
  refine ⟨smallHeap_booted, panics, ?_⟩
  rintro ⟨p, after, alloc, _⟩
  rw [panics] at alloc
  cases alloc

/-- In every run that frees no disguised block the live blocks, small and big ones, share no byte, and every byte
lies in a frame that the frame allocator has marked. -/
theorem live_blocks_apart {h : Heap} (boot : Booted h) {ops : List HeapOp} {s : HeapState}
    (undisguised : Meets heapStep Undisguised ⟨h, []⟩ ops) (reached : run heapStep ⟨h, []⟩ ops = some s) :
    s.live.Pairwise Block.Apart ∧ ∀ b ∈ s.live, ∀ i < b.size, ∃ f, s.heap.pmm.bitmap.bit f = true ∧
      pagePtr f ≤ (b.ptr + i) % word64 ∧ (b.ptr + i) % word64 < pagePtr f + pageSize := by
  have inv := run_invariant heapStep_wellFormed boot.wellFormed undisguised reached
  obtain ⟨_, _, _, _, shape⟩ := inv.shape
  exact ⟨shape.live_apart inv.sizes, fun b member i inside => shape.byte_taken member (inv.sizes b member) inside⟩

theorem live_blocks_apart_mixed : ∃ s, run heapStep ⟨smallHeap, []⟩ [.kmalloc 2048, .kmalloc 64] = some s ∧
    s.live.length = 2 ∧ s.live.Pairwise Block.Apart := by
  obtain ⟨s, reached, two⟩ : ∃ s, run heapStep ⟨smallHeap, []⟩ [.kmalloc 2048, .kmalloc 64] = some s ∧
      s.live.length = 2 := Option.map_eq_some_iff.mp (by decide +kernel)
  exact ⟨s, reached, two, (live_blocks_apart smallHeap_booted (by simp [Meets, Undisguised]) reached).1⟩

end SnapOS.Mm
