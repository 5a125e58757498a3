/- The operations of the kernel heap keep its shape. -/
import SnapOS.HeapShape

namespace SnapOS.Mm
open SnapOS.Lib

structure HeapInv (early : EarlyPmm) (others : List FrameRange) (h : Heap) (free : Nat → List Nat)
    (nodes : List BigNode) (live : List Block) : Prop where
  layout : Layout h.pools free nodes live
  rep : Represents h free nodes
  backed : Backed early h.pmm h.pools nodes others

section Facts

variable {early : EarlyPmm} {others : List FrameRange} {h : Heap} {free : Nat → List Nat}
  {nodes : List BigNode} {live : List Block}

theorem Layout.free_slot (layout : Layout h.pools free nodes live) {t p : Nat} (ht : t < tierCount)
    (member : p ∈ free t) : IsSlot h.pools t p :=
  (layout.slots t ht p).mp (by simp [member])

theorem Layout.small_slot (layout : Layout h.pools free nodes live) {t p : Nat} (ht : t < tierCount)
    (member : p ∈ smallPtrs t live) : IsSlot h.pools t p :=
  (layout.slots t ht p).mp (by simp [member])

theorem Layout.node_slot (layout : Layout h.pools free nodes live) {n : BigNode} (member : n ∈ nodes) :
    IsSlot h.pools 0 n.addr :=
  (layout.slots 0 (by decide) n.addr).mp (by
    simp only [nodePtrs, if_true, List.mem_append, List.mem_map]
    exact Or.inr ⟨n, member, rfl⟩)

theorem HeapInv.slot_not_private (inv : HeapInv early others h free nodes live) {t p a : Nat}
    (slot : IsSlot h.pools t p) (notFree : ∀ u < tierCount, p ∉ free u)
    (notNode : ∀ n ∈ nodes, n.addr ≠ p) (low : p ≤ a) (high : a < p + slotSize t) :
    ¬ Private h.pools free nodes a := by
  have good := inv.backed.pools
  intro secret
  cases secret with
  | header q member low' high' =>
      have := good.slot_header_apart slot q.frame
      omega
  | free u q hu member low' high' =>
      have other := inv.layout.free_slot hu member
      have different : p ≠ q := fun same => notFree u hu (same ▸ member)
      have := good.slots_apart slot other different
      have := (good.slot_bounds other).2.2
      omega
  | node n member low' high' =>
      have other := inv.layout.node_slot member
      have := good.slots_apart slot other (Ne.symm (notNode n member))
      have := (good.slot_bounds other).2.2
      omega

theorem HeapInv.small_apart (inv : HeapInv early others h free nodes live) {t p : Nat}
    (ht : t < tierCount) (member : p ∈ smallPtrs t live) :
    (∀ u < tierCount, p ∉ free u) ∧ ∀ n ∈ nodes, n.addr ≠ p := by
  have good := inv.backed.pools
  have slot := inv.layout.small_slot ht member
  have nodup := List.nodup_append.mp (inv.layout.nodup t ht)
  refine ⟨?_, ?_⟩
  · intro u hu isFree
    obtain rfl := good.slot_tier slot (inv.layout.free_slot hu isFree)
    exact (List.nodup_append.mp nodup.1).2.2 p isFree p member rfl
  · intro n hn same
    obtain rfl := good.slot_tier slot (same ▸ inv.layout.node_slot hn)
    apply nodup.2.2 p (List.mem_append_right _ member) p _ rfl
    simp only [nodePtrs, if_true, List.mem_map]
    exact ⟨n, hn, same⟩

theorem HeapInv.private_page (inv : HeapInv early others h free nodes live) {a : Nat}
    (secret : Private h.pools free nodes a) :
    ∃ q ∈ h.pools, pagePtr q.frame ≤ a ∧ a < pagePtr q.frame + pageSize := by
  have good := inv.backed.pools
  have inside {t p : Nat} (slot : IsSlot h.pools t p) (low : p ≤ a) (high : a < p + slotSize t) :
      ∃ q ∈ h.pools, pagePtr q.frame ≤ a ∧ a < pagePtr q.frame + pageSize := by
    obtain ⟨f, k, member, _, _, rfl, _, fits, _⟩ := good.slot_place slot
    exact ⟨⟨f, t⟩, member, by dsimp only; omega, by dsimp only; omega⟩
  cases secret with
  | header q member low high =>
      exact ⟨q, member, low, by simp only [pageSize]; omega⟩
  | free t p ht member low high =>
      have slot := inv.layout.free_slot ht member
      have := (good.slot_bounds slot).2.2
      exact inside slot low (by omega)
  | node n member low high =>
      have slot := inv.layout.node_slot member
      have := (good.slot_bounds slot).2.2
      exact inside slot low (by omega)

theorem Represents.pop (rep : Represents h free nodes) {t p : Nat} {rest : List Nat}
    (ht : t < tierCount) (head : free t = p :: rest) :
    Represents { h with freeHead := Function.update h.freeHead t (h.mem.load p 8) }
      (Function.update free t rest) nodes := by
  refine ⟨rep.header, ?_, rep.bigChain, rep.fields⟩
  intro u hu
  by_cases same : u = t
  · subst same
    have chain := rep.freeChain u ht
    rw [head] at chain
    obtain ⟨hp, _, tail⟩ := chain
    rw [hp] at tail
    simpa only [Function.update_self] using tail
  · simpa only [Function.update_of_ne same] using rep.freeChain u hu

theorem Represents.push (rep : Represents h free nodes) {t p : Nat} (nonzero : p ≠ 0)
    (link : h.mem.load p 8 = h.freeHead t) :
    Represents { h with freeHead := Function.update h.freeHead t p }
      (Function.update free t (p :: free t)) nodes := by
  refine ⟨rep.header, ?_, rep.bigChain, rep.fields⟩
  intro u hu
  by_cases same : u = t
  · subst same
    simp only [Function.update_self]
    refine ⟨rfl, nonzero, ?_⟩
    simpa only [link] using rep.freeChain u hu
  · simpa only [Function.update_of_ne same] using rep.freeChain u hu

theorem HeapInv.freeHead_lt (inv : HeapInv early others h free nodes live) {t : Nat}
    (ht : t < tierCount) : h.freeHead t < 256 ^ 8 := by
  rw [(inv.rep.freeChain t ht).head_eq]
  cases hfree : free t with
  | nil => decide
  | cons p rest =>
      have slot := inv.layout.free_slot ht (hfree ▸ List.mem_cons_self)
      have := inv.backed.pools.slot_bounds slot
      simp only [List.headD_cons, word64] at *
      omega

theorem HeapInv.count_not_private (inv : HeapInv early others h free nodes live) (f : Nat) :
    ¬ Private h.pools free nodes (pagePtr f + 5) := by
  have good := inv.backed.pools
  intro secret
  cases secret with
  | header q member low high =>
      have fAligned := pagePtr_aligned f
      have qAligned := pagePtr_aligned q.frame
      simp only [pageSize] at *
      omega
  | free t p ht member low high =>
      have slot := inv.layout.free_slot ht member
      have := good.slot_header_apart slot f
      have := (good.slot_bounds slot).2.2
      omega
  | node n member low high =>
      have slot := inv.layout.node_slot member
      have := good.slot_header_apart slot f
      have := (good.slot_bounds slot).2.2
      omega

theorem HeapInv.pop (inv : HeapInv early others h free nodes live) {t p n : Nat} {rest : List Nat}
    (ht : t < tierCount) (head : free t = p :: rest) (tier : sizeToTierIdx n = some t) (v : Nat) :
    HeapInv early others
      { h with
        mem := h.mem.store (pageAlignDown p + 5) 1 v
        freeHead := Function.update h.freeHead t
          ((h.mem.store (pageAlignDown p + 5) 1 v).load p 8) }
      (Function.update free t rest) nodes (⟨p, n⟩ :: live) := by
  have slot := inv.layout.free_slot ht (head ▸ List.mem_cons_self)
  obtain ⟨f, _, _, hheader⟩ := inv.backed.pools.slot_header slot
  have counted : Represents { h with mem := h.mem.store (pageAlignDown p + 5) 1 v } free nodes := by
    apply inv.rep.congr
    intro a secret
    apply Memory.store_outside
    rw [hheader]
    by_contra inside
    have here : a = pagePtr f + 5 := by omega
    exact inv.count_not_private f (here ▸ secret)
  exact ⟨inv.layout.pop head tier, counted.pop ht head, inv.backed⟩

def pushed (h : Heap) (t p : Nat) : Heap :=
  { h with
    mem := h.mem.store p 8 (h.freeHead t)
    freeHead := Function.update h.freeHead t p }

/-- Freeing a small block: `kfree` recognises the page and puts the slot on its own free list. -/
theorem HeapInv.kfree_small {b : Block} (inv : HeapInv early others h free nodes (b :: live)) {t : Nat}
    (tier : sizeToTierIdx b.size = some t) (fuel : Nat) :
    kfreeRec (fuel + 1) b.ptr h = .ok (pushed h t b.ptr) ∧
      HeapInv early others (pushed h t b.ptr) (Function.update free t (b.ptr :: free t)) nodes live := by
  have good := inv.backed.pools
  have ht := (sizeToTierIdx_some tier).1
  have member : b.ptr ∈ smallPtrs t (b :: live) := by
    rw [smallPtrs_cons, if_pos tier]
    exact List.mem_cons_self
  have slot := inv.layout.small_slot ht member
  obtain ⟨nonzero, _, size⟩ := good.slot_bounds slot
  obtain ⟨notFree, notNode⟩ := inv.small_apart ht member
  obtain ⟨f, hpool, _, hheader⟩ := good.slot_header slot
  obtain ⟨hmagic, htier⟩ := inv.rep.header _ hpool
  have apart := good.slot_header_apart slot f
  have htier' : (h.mem.store b.ptr 8 (h.freeHead t)).load (pagePtr f + 4) 1 = t :=
    (Memory.load_store_apart (by omega)).trans htier
  refine ⟨?_, inv.layout.push tier, ?_, inv.backed⟩
  · dsimp only at hmagic htier
    simp only [kfreeRec, hheader, hmagic, htier, htier', ne_eq, not_true_eq_false, if_false]
    rfl
  · have kept : Represents { h with mem := h.mem.store b.ptr 8 (h.freeHead t) } free nodes := by
      apply inv.rep.congr
      intro a secret
      apply Memory.store_outside
      by_contra inside
      exact inv.slot_not_private slot notFree notNode (by omega) (by omega) secret
    refine kept.push nonzero ?_
    exact (Memory.load_store _ _ _ _).trans (Nat.mod_eq_of_lt (inv.freeHead_lt ht))

end Facts

/-! A new pool page. -/

/-- The loop of `init_tier` started at slot `k`: it links every slot before the last one to the next
and writes nothing else. -/
theorem linkSlots_spec (page last : Nat) {size : Nat} (fits : page + last * size + size ≤ word64)
    (wide : 32 ≤ size) (fuel : Nat) : ∀ (mem : Memory) (k : Nat), k ≤ last → last - k < fuel →
      ∃ mem', linkSlots size (page + last * size) fuel mem (page + k * size) = .ok mem' ∧
        (∀ a, (∀ j, k ≤ j → j < last → a < page + j * size ∨ page + j * size + 8 ≤ a) →
          mem' a = mem a) ∧
        ∀ j, k ≤ j → j < last → mem'.load (page + j * size) 8 = page + (j + 1) * size := by
  induction fuel with
  | zero =>
      intro mem k _ enough
      omega
  | succ fuel ih =>
      intro mem k le enough
      rw [linkSlots]
      by_cases done : k = last
      · subst done
        rw [if_neg (Nat.lt_irrefl _)]
        exact ⟨mem, rfl, fun _ _ => rfl, fun j _ _ => by omega⟩
      · have step : (k + 1) * size = k * size + size := Nat.succ_mul k size
        have room : (k + 1) * size ≤ last * size := Nat.mul_le_mul_right size (by omega)
        have hnext : page + k * size + size = page + (k + 1) * size := by omega
        have stored : (mem.store (page + k * size) 8 (page + (k + 1) * size)).load (page + k * size) 8 =
            page + (k + 1) * size := by
          rw [Memory.load_store]
          apply Nat.mod_eq_of_lt
          simp only [word64] at fits
          omega
        rw [if_pos (by omega)]
        simp only [hnext, Nat.mod_eq_of_lt (show page + (k + 1) * size < word64 by omega), stored]
        obtain ⟨mem', run, same, linked⟩ :=
          ih (mem.store (page + k * size) 8 (page + (k + 1) * size)) (k + 1) (by omega) (by omega)
        have later {j : Nat} (hj : k + 1 ≤ j) : page + k * size + size ≤ page + j * size := by
          have := Nat.mul_le_mul_right size hj
          omega
        refine ⟨mem', run, ?_, ?_⟩
        · intro a outside
          rw [same a fun j low high => outside j (by omega) high]
          exact Memory.store_outside (outside k le_rfl (by omega))
        · intro j low high
          by_cases first : j = k
          · subst first
            rw [← stored]
            apply Memory.load_congr
            intro a aLow aHigh
            apply same
            intro i iLow _
            have := later iLow
            omega
          · exact linked j (by omega) high

def slotList (f t : Nat) : List Nat := (List.range' 1 (pageSize / slotSize t - 1)).map (slotPtr f t)

theorem mem_slotList {f t p : Nat} (ht : t < tierCount) :
    p ∈ slotList f t ↔ ∃ k, 1 ≤ k ∧ (k + 1) * slotSize t ≤ pageSize ∧ p = slotPtr f t k := by
  have hbounds := slotSize_bounds ht
  have hlast (k : Nat) : k < 1 + (pageSize / slotSize t - 1) ↔ (k + 1) * slotSize t ≤ pageSize := by
    have positive : 0 < pageSize / slotSize t := by
      by_contra zero
      rw [Nat.eq_zero_of_not_pos zero] at hbounds
      simp [pageSize] at hbounds
    rw [show k < 1 + (pageSize / slotSize t - 1) ↔ k + 1 ≤ pageSize / slotSize t by omega,
      Nat.le_div_iff_mul_le (by omega)]
  simp only [slotList, List.mem_map, List.mem_range'_1, hlast]
  constructor
  · rintro ⟨k, ⟨low, high⟩, rfl⟩
    exact ⟨k, low, high, rfl⟩
  · rintro ⟨k, low, high, rfl⟩
    exact ⟨k, ⟨low, high⟩, rfl⟩

theorem nodup_slotList {f t : Nat} (ht : t < tierCount) : (slotList f t).Nodup := by
  apply List.Nodup.map _ List.nodup_range'
  intro k l same
  have hbounds := slotSize_bounds ht
  exact Nat.eq_of_mul_eq_mul_right (show 0 < slotSize t by omega) (Nat.add_left_cancel same)

theorem slotList_chain (next : Nat → Nat) {f : Nat} (t last : Nat) (mapped : pagePtr f ≠ 0)
    (linked : ∀ j, 1 ≤ j → j ≤ last → next (slotPtr f t j) = if j = last then 0 else slotPtr f t (j + 1)) :
    ∀ (m k : Nat), 1 ≤ k → k + m = last + 1 →
      Chain next (if m = 0 then 0 else slotPtr f t k) ((List.range' k m).map (slotPtr f t)) := by
  intro m
  induction m with
  | zero =>
      intro k _ _
      rfl
  | succ m ih =>
      intro k low total
      have nonzero : slotPtr f t k ≠ 0 := by
        rw [slotPtr]
        omega
      rw [List.range'_succ, List.map_cons, if_neg (Nat.succ_ne_zero m)]
      refine ⟨rfl, nonzero, ?_⟩
      rw [linked k low (by omega)]
      have tail := ih (k + 1) (by omega) (by omega)
      have hlast : k = last ↔ m = 0 := by omega
      simp only [hlast]
      exact tail

/-- The three header stores of `init_tier`. -/
def headerStores (mem : Memory) (frame tier : Nat) : Memory :=
  ((mem.store (frame + 5) 1 0).store frame 4 magic).store (frame + 4) 1 tier

theorem headerStores_spec (mem : Memory) (page : Nat) {t : Nat} (ht : t < tierCount) :
    (headerStores mem page t).load page 4 = magic ∧ (headerStores mem page t).load (page + 4) 1 = t ∧
      ∀ a, a < page ∨ page + 6 ≤ a → headerStores mem page t a = mem a := by
  refine ⟨?_, ?_, ?_⟩
  · unfold headerStores
    rw [Memory.load_store_apart (by omega), Memory.load_store]
    decide
  · unfold headerStores
    rw [Memory.load_store]
    simp only [tierCount] at ht
    omega
  · intro a outside
    unfold headerStores
    rw [Memory.store_outside (by omega), Memory.store_outside (by omega),
      Memory.store_outside (by omega)]

theorem formatPage_spec (mem : Memory) {f t : Nat} (ht : t < tierCount) (mapped : pagePtr f ≠ 0) :
    ∃ mem', linkSlots (slotSize t) ((pagePtr f + (pageSize - slotSize t)) % word64)
        (pageSize / slotSize t) (headerStores mem (pagePtr f) t) ((pagePtr f + slotSize t) % word64) =
          .ok mem' ∧
      ∀ mem'', mem'' = mem'.store ((pagePtr f + (pageSize - slotSize t)) % word64) 8 0 →
        (∀ a, a < pagePtr f ∨ pagePtr f + pageSize ≤ a → mem'' a = mem a) ∧
        mem''.load (pagePtr f) 4 = magic ∧ mem''.load (pagePtr f + 4) 1 = t ∧
        Chain (fun p => mem''.load p 8) ((pagePtr f + slotSize t) % word64) (slotList f t) := by
  obtain ⟨wide, narrow, tiles⟩ := slotSize_bounds ht
  have fits := pagePtr_fits f
  obtain ⟨last, hlast⟩ : ∃ last, pageSize / slotSize t = last + 1 := by
    refine ⟨pageSize / slotSize t - 1, ?_⟩
    have : 0 < pageSize / slotSize t := Nat.div_pos (narrow.trans (by decide)) (by omega)
    omega
  have hend : last * slotSize t + slotSize t = pageSize := by
    rw [hlast, Nat.succ_mul] at tiles
    exact tiles
  have two : 1 ≤ last := by
    by_contra none
    rw [show last = 0 by omega] at hend
    simp only [pageSize] at hend
    omega
  have proper : slotSize t < pageSize := narrow.trans_lt (by decide)
  have hfirst : (pagePtr f + slotSize t) % word64 = pagePtr f + 1 * slotSize t := by
    rw [Nat.one_mul]
    exact Nat.mod_eq_of_lt (by omega)
  have hfinal : (pagePtr f + (pageSize - slotSize t)) % word64 = pagePtr f + last * slotSize t := by
    rw [← hend, Nat.add_sub_cancel]
    exact Nat.mod_eq_of_lt (by omega)
  obtain ⟨magicSet, tierSet, headerOnly⟩ := headerStores_spec mem (pagePtr f) ht
  obtain ⟨mem', run, same, linked⟩ := linkSlots_spec (pagePtr f) last
    (by omega) wide (last + 1) (headerStores mem (pagePtr f) t) 1 two (by omega)
  rw [hfirst, hfinal, hlast]
  refine ⟨mem', run, ?_⟩
  rintro mem'' rfl
  have slotLow {j : Nat} (hj : 1 ≤ j) : slotSize t ≤ j * slotSize t := by
    simpa only [Nat.one_mul] using Nat.mul_le_mul_right (slotSize t) hj
  have slotHigh {j : Nat} (hj : j < last) : j * slotSize t + slotSize t ≤ last * slotSize t := by
    rw [← Nat.succ_mul]
    exact Nat.mul_le_mul_right (slotSize t) hj
  have beforeSlots {a : Nat} (outside : a < pagePtr f + 32 ∨ pagePtr f + pageSize ≤ a) :
      mem'.store (pagePtr f + last * slotSize t) 8 0 a = headerStores mem (pagePtr f) t a := by
    have := slotLow two
    rw [Memory.store_outside (by omega)]
    apply same
    intro j low high
    have := slotLow low
    have := slotHigh high
    omega
  refine ⟨?_, ?_, ?_, ?_⟩
  · intro a outside
    rw [beforeSlots (by omega)]
    apply headerOnly
    simp only [pageSize] at outside
    omega
  · rw [← magicSet]
    exact Memory.load_congr fun a low high => beforeSlots (by omega)
  · exact Eq.trans (Memory.load_congr fun a low high => beforeSlots (by omega)) tierSet
  · have chain := slotList_chain (fun p => (mem'.store (pagePtr f + last * slotSize t) 8 0).load p 8)
      t last mapped ?_ last 1 le_rfl (by omega)
    · rw [slotList, hlast, Nat.add_sub_cancel]
      rwa [if_neg (by omega)] at chain
    · intro j low high
      by_cases final : j = last
      · subst final
        rw [if_pos rfl, slotPtr, Memory.load_store]
        rfl
      · have := slotHigh (j := j) (by omega)
        rw [if_neg final, slotPtr, slotPtr, Memory.load_store_apart (by omega)]
        exact linked j low (by omega)

theorem BitmapInv.perm {early : EarlyPmm} {p : Pmm} {held held' : List FrameRange}
    (inv : BitmapInv early p held) (same : held.Perm held') : BitmapInv early p held' :=
  ⟨(same.pairwise_iff fun h => h.symm).mp inv.apart,
    fun r member => inv.owned r (same.mem_iff.mpr member),
    fun r member => inv.taken r (same.mem_iff.mpr member), inv.free⟩

section Pages

variable {early : EarlyPmm} {others : List FrameRange} {h : Heap} {nodes : List BigNode}

/-- A range that the bitmap allocator has just handed out has a page pointer, which may be NULL. -/
theorem BitmapInv.fresh_frame {p : Pmm} {held : List FrameRange} {base count : Nat}
    (map : CleanMap early.clean) (inv : BitmapInv early p (⟨base * pageSize, count⟩ :: held)) :
    base < frameLimit ∧ base * pageSize ≠ 0 := by
  obtain ⟨_, high, stop, positive⟩ := inv.range_bound map List.mem_cons_self
  simp only [minUsablePaddr, FrameRange.stop, pageSize, frameLimit] at *
  omega

/-- What `alloc_pages` leaves when it returns NULL: nothing has changed, or the run starts at the frame whose page has
no pointer, and is lost. -/
structure Misses (p : Pmm) (count : Nat) (p' : Pmm) : Prop where
  kept : ¬ p.Lowest count nullFrame → p' = p
  missing : ¬ p.Lowest count nullFrame → ∀ base, ¬ p.FreeRun base count
  lost : p.Lowest count nullFrame → p'.bitmap.bit nullFrame = true

theorem FirstFit.misses {p p' : Pmm} {count : Nat} (fit : FirstFit p count none p') : Misses p count p' :=
  ⟨fun _ => (fit.missing rfl).1, fun _ => (fit.missing rfl).2,
    fun lowest => absurd lowest.1 ((fit.missing rfl).2 nullFrame)⟩

theorem misses_null {p : Pmm} {count base : Nat} (positive : 0 < count) (bound : base < frameLimit)
    (lowest : p.Lowest count base) (unmapped : pagePtr base = 0) : Misses p count (markTaken p base count) := by
  obtain rfl := (pagePtr_eq_zero bound).mp unmapped
  refine ⟨fun other => absurd lowest other, fun other => absurd lowest other, fun _ => ?_⟩
  have inside : nullFrame ≤ nullFrame ∧ nullFrame < nullFrame + count := ⟨le_rfl, by omega⟩
  rw [markTaken, Bitmap.bit_setBits, decide_eq_true inside, Bool.or_true]

theorem not_lowest_null {p : Pmm} {count base : Nat} (lowest : p.Lowest count base) (mapped : pagePtr base ≠ 0) :
    ¬ p.Lowest count nullFrame := by
  intro null
  rw [lowest.unique null] at mapped
  exact mapped ((pagePtr_eq_zero (by decide)).mpr rfl)

/-- A page is either backed by a frame with a pointer, or the frame is out of reach. -/
theorem allocPage_spec (backed : Backed early h.pmm h.pools nodes others) :
    ∃ v pmm, allocPage h = (v, { h with pmm }) ∧
      ((v = 0 ∧ Misses h.pmm 1 pmm ∧ ∃ lost, Backed early pmm h.pools nodes (lost ++ others)) ∨
        ∃ f, v = pagePtr f ∧ v ≠ 0 ∧ f < frameLimit ∧ h.pmm.Lowest 1 f ∧
          BitmapInv early pmm
            (⟨f * pageSize, 1⟩ :: (h.pools.map Pool.range ++ nodes.map BigNode.range ++ others))) := by
  have fit := pmmAllocFrame_spec h.pmm
  have after := backed.frames.allocated backed.map Nat.one_pos fit
  unfold allocPage
  cases hresult : (pmmAllocFrame h.pmm).1 with
  | none =>
      rw [hresult] at fit
      refine ⟨0, (pmmAllocFrame h.pmm).2, ?_, Or.inl ⟨rfl, fit.misses, [], ?_⟩⟩
      · simp [hresult]
      · rw [(fit.missing rfl).1]
        exact backed
  | some a =>
      obtain ⟨f, rfl, run, lowest, marked⟩ := fit.found a hresult
      rw [hresult, Option.map_some, Option.toList_some, List.singleton_append] at after
      obtain ⟨bound, nonzero⟩ := BitmapInv.fresh_frame backed.map after
      refine ⟨pagePtr f, (pmmAllocFrame h.pmm).2, ?_, ?_⟩
      · simp only [hresult, Option.getD_some, nonzero, if_false, physToVirt_frame]
      · by_cases mapped : pagePtr f = 0
        · refine Or.inl ⟨mapped, marked ▸ misses_null Nat.one_pos bound ⟨run, lowest⟩ mapped, [⟨f * pageSize, 1⟩],
            backed.map, ?_, backed.tier, backed.mapped, backed.runMapped⟩
          exact after.perm List.perm_middle.symm
        · exact Or.inr ⟨f, rfl, mapped, bound, ⟨run, lowest⟩, after⟩

theorem allocPages_spec (backed : Backed early h.pmm h.pools nodes others) {count : Nat}
    (positive : 0 < count) :
    ∃ v pmm, allocPages count h = .ok (v, { h with pmm }) ∧
      ((v = 0 ∧ Misses h.pmm count pmm ∧ ∃ lost, Backed early pmm h.pools nodes (lost ++ others)) ∨
        ∃ f, v = pagePtr f ∧ v ≠ 0 ∧ f < frameLimit ∧ h.pmm.Lowest count f ∧ pmm = markTaken h.pmm f count ∧
          Backed early pmm h.pools nodes (⟨f * pageSize, count⟩ :: others)) := by
  obtain ⟨result, pmm, alloc, fit⟩ := pmmAllocContiguousFrames_spec h.pmm positive
  have after := backed.frames.allocated backed.map positive fit
  simp only [allocPages, alloc, Exec.ok_bind]
  cases result with
  | none =>
      refine ⟨0, pmm, by simp, Or.inl ⟨rfl, fit.misses, [], ?_⟩⟩
      rw [(fit.missing rfl).1]
      exact backed
  | some a =>
      obtain ⟨f, rfl, run, lowest, rfl⟩ := fit.found a rfl
      rw [Option.map_some, Option.toList_some, List.singleton_append] at after
      obtain ⟨bound, nonzero⟩ := BitmapInv.fresh_frame backed.map after
      have recorded : Backed early (markTaken h.pmm f count) h.pools nodes (⟨f * pageSize, count⟩ :: others) :=
        ⟨backed.map, after.perm List.perm_middle.symm, backed.tier, backed.mapped, backed.runMapped⟩
      refine ⟨pagePtr f, markTaken h.pmm f count, ?_, ?_⟩
      · simp only [Option.getD_some, nonzero, if_false, physToVirt_frame]
      · by_cases mapped : pagePtr f = 0
        · exact Or.inl ⟨mapped, misses_null positive bound ⟨run, lowest⟩ mapped, [⟨f * pageSize, count⟩], recorded⟩
        · exact Or.inr ⟨f, rfl, mapped, bound, ⟨run, lowest⟩, rfl, recorded⟩

theorem freePages_spec (backed : Backed early h.pmm h.pools nodes others) {f count : Nat}
    (bound : f < frameLimit) (member : ⟨f * pageSize, count⟩ ∈ others) :
    freePages (pagePtr f) count h = .ok { h with pmm := h.pmm.release f count } ∧
      Backed early (h.pmm.release f count) h.pools nodes (others.erase ⟨f * pageSize, count⟩) := by
  have hframe : f * pageSize / pageSize = f := Nat.mul_div_cancel _ (by decide)
  refine ⟨?_, backed.map, ?_, backed.tier, backed.mapped, backed.runMapped⟩
  · simp only [freePages, virtToPhys_page bound, pmmFreeContiguousFrames_eq, hframe, Exec.ok_bind]
  · have front := (List.perm_cons_erase member).append_left
      (h.pools.map Pool.range ++ nodes.map BigNode.range)
    have released := (backed.frames.perm (front.trans List.perm_middle)).released List.mem_cons_self
    rw [List.erase_cons_head, hframe] at released
    exact released

end Pages

section NewPool

variable {early : EarlyPmm} {others : List FrameRange} {h : Heap} {free : Nat → List Nat}
  {nodes : List BigNode} {live : List Block}

theorem isSlot_cons {pools : List Pool} {f t u p : Nat} (ht : t < tierCount) :
    IsSlot (⟨f, t⟩ :: pools) u p ↔ (u = t ∧ p ∈ slotList f t) ∨ IsSlot pools u p := by
  rw [mem_slotList ht]
  constructor
  · rintro ⟨g, k, member, low, high, rfl⟩
    rcases List.mem_cons.mp member with same | old
    · cases same
      exact Or.inl ⟨rfl, k, low, high, rfl⟩
    · exact Or.inr ⟨g, k, old, low, high, rfl⟩
  · rintro (⟨rfl, k, low, high, rfl⟩ | ⟨g, k, old, low, high, rfl⟩)
    · exact ⟨f, k, List.mem_cons_self, low, high, rfl⟩
    · exact ⟨g, k, List.mem_cons_of_mem _ old, low, high, rfl⟩

theorem Layout.addPool (layout : Layout h.pools free nodes live) {f t : Nat} (ht : t < tierCount)
    (good : Pools (⟨f, t⟩ :: h.pools)) (fresh : ∀ q ∈ h.pools, q.frame ≠ f) (empty : free t = []) :
    Layout (⟨f, t⟩ :: h.pools) (Function.update free t (slotList f t)) nodes live := by
  have disjoint {u p : Nat} (new : p ∈ slotList f t) (old : IsSlot h.pools u p) : False := by
    obtain ⟨k, l, member, hk, _, rfl, _, high, wide⟩ :=
      (show Pools h.pools from ⟨fun q m => good.tier q (List.mem_cons_of_mem _ m),
        fun q m => good.bound q (List.mem_cons_of_mem _ m),
        fun q m => good.mapped q (List.mem_cons_of_mem _ m),
        fun q m r m' => good.apart q (List.mem_cons_of_mem _ m) r (List.mem_cons_of_mem _ m')⟩).slot_place old
    obtain ⟨j, low, high', same⟩ := (mem_slotList ht).mp new
    have inside : l * slotSize u < pageSize := Nat.lt_of_lt_of_le (by omega) high
    have inside' : j * slotSize t < pageSize := by
      have := (slotSize_bounds ht).1
      rw [Nat.succ_mul] at high'
      exact Nat.lt_of_lt_of_le (by omega) high'
    have pages := congrArg pageAlignDown same
    rw [slotPtr, pageAlignDown_pagePtr _ _ inside, pageAlignDown_pagePtr _ _ inside'] at pages
    exact fresh _ member (pagePtr_inj hk (good.bound _ List.mem_cons_self) pages)
  refine ⟨?_, ?_, layout.runs⟩
  · intro u hu
    by_cases same : u = t
    · subst same
      have old := layout.nodup u hu
      rw [empty, List.nil_append] at old
      rw [Function.update_self, List.append_assoc]
      refine List.nodup_append.mpr ⟨nodup_slotList ht, old, ?_⟩
      rintro p new q hq rfl
      exact disjoint new ((layout.slots u hu p).mp (by rwa [empty, List.nil_append]))
    · rw [Function.update_of_ne same]
      exact layout.nodup u hu
  · intro u hu p
    rw [isSlot_cons ht, ← layout.slots u hu p]
    by_cases same : u = t
    · subst same
      rw [Function.update_self, empty]
      simp only [List.mem_append, true_and, List.not_mem_nil, false_or, or_assoc]
    · rw [Function.update_of_ne same]
      simp only [same, false_and, false_or]

theorem HeapInv.addPool (inv : HeapInv early others h free nodes live) {f t : Nat} {pmm : Pmm}
    {mem : Memory} (ht : t < tierCount) (mapped : pagePtr f ≠ 0)
    (frames : BitmapInv early pmm
      (⟨f * pageSize, 1⟩ :: (h.pools.map Pool.range ++ nodes.map BigNode.range ++ others)))
    (empty : free t = [])
    (outside : ∀ a, a < pagePtr f ∨ pagePtr f + pageSize ≤ a → mem a = h.mem a)
    (header : mem.load (pagePtr f) 4 = magic ∧ mem.load (pagePtr f + 4) 1 = t)
    (chain : Chain (fun p => mem.load p 8) ((pagePtr f + slotSize t) % word64) (slotList f t)) :
    HeapInv early others
      { h with
        mem
        pmm
        freeHead := Function.update h.freeHead t ((pagePtr f + slotSize t) % word64)
        pools := ⟨f, t⟩ :: h.pools }
      (Function.update free t (slotList f t)) nodes live := by
  have backed : Backed early pmm (⟨f, t⟩ :: h.pools) nodes others := by
    refine ⟨inv.backed.map, frames, ?_, ?_, inv.backed.runMapped⟩
    · intro q member
      rcases List.mem_cons.mp member with rfl | old
      · exact ht
      · exact inv.backed.tier q old
    · intro q member
      rcases List.mem_cons.mp member with rfl | old
      · exact mapped
      · exact inv.backed.mapped q old
  have good := backed.pools
  have fresh : ∀ q ∈ h.pools, q.frame ≠ f := by
    intro q member same
    have apart := (List.pairwise_cons.mp frames.apart).1 q.range
      (by simp only [List.mem_append, List.mem_map]; exact Or.inl (Or.inl ⟨q, member, rfl⟩))
    simp only [FrameRange.Apart, FrameRange.stop, Pool.range, pageSize] at apart
    omega
  have kept : Represents { h with mem } free nodes := by
    apply inv.rep.congr
    intro a secret
    obtain ⟨q, member, low, high⟩ := inv.private_page secret
    apply outside
    have distinct : pagePtr q.frame ≠ pagePtr f := fun same => fresh q member
      (pagePtr_inj (good.bound q (List.mem_cons_of_mem _ member)) (good.bound _ List.mem_cons_self) same)
    have fAligned := pagePtr_aligned f
    have qAligned := pagePtr_aligned q.frame
    simp only [pageSize] at *
    omega
  refine ⟨inv.layout.addPool ht good fresh empty, ⟨?_, ?_, kept.bigChain, kept.fields⟩, backed⟩
  · intro q member
    rcases List.mem_cons.mp member with rfl | old
    · exact header
    · exact kept.header q old
  · intro u hu
    by_cases same : u = t
    · subst same
      simpa only [Function.update_self] using chain
    · simpa only [Function.update_of_ne same] using kept.freeChain u hu

/-- `init_tier`: it fails and at most loses a frame, or it adds a page whose slots are all free. -/
theorem HeapInv.initTier (inv : HeapInv early others h free nodes live) {t : Nat} (ht : t < tierCount)
    (empty : free t = []) :
    ∃ res h', initTier t h = .ok (res, h') ∧
      ((res < 0 ∧ (∃ pmm, h' = { h with pmm } ∧ Misses h.pmm 1 pmm) ∧
          ∃ lost, HeapInv early (lost ++ others) h' free nodes live) ∨
        (res = 0 ∧ ¬ h.pmm.Lowest 1 nullFrame ∧
          ∃ p rest, HeapInv early others h' (Function.update free t (p :: rest)) nodes live)) := by
  obtain ⟨v, pmm, alloc, result⟩ := allocPage_spec inv.backed
  simp only [Mm.initTier, alloc]
  rcases result with ⟨rfl, misses, lost, backed⟩ | ⟨f, rfl, mapped, bound, lowest, frames⟩
  · rw [if_pos rfl]
    exact ⟨_, _, rfl, Or.inl ⟨by decide, ⟨pmm, rfl, misses⟩, lost, inv.layout,
      ⟨inv.rep.header, inv.rep.freeChain, inv.rep.bigChain, inv.rep.fields⟩, backed⟩⟩
  · rw [if_neg mapped]
    obtain ⟨mem', run, written⟩ := formatPage_spec h.mem ht mapped
    obtain ⟨outside, hmagic, htier, chain⟩ := written _ rfl
    simp only [headerStores] at run
    rw [run, Exec.ok_bind, virtToPhys_page bound, Nat.mul_div_cancel _ (show 0 < pageSize by decide)]
    refine ⟨0, _, rfl, Or.inr ⟨rfl, not_lowest_null lowest mapped, ?_⟩⟩
    have added := inv.addPool ht mapped frames empty outside ⟨hmagic, htier⟩ chain
    obtain ⟨p, rest, hlist⟩ : ∃ p rest, slotList f t = p :: rest := by
      cases hlist : slotList f t with
      | nil =>
          have first : slotPtr f t 1 ∈ slotList f t := by
            have := slotSize_bounds ht
            refine (mem_slotList ht).mpr ⟨1, le_rfl, ?_, rfl⟩
            simp only [pageSize]
            omega
          rw [hlist] at first
          cases first
      | cons p rest => exact ⟨p, rest, rfl⟩
    rw [hlist] at added
    exact ⟨p, rest, added⟩

end NewPool

end SnapOS.Mm
