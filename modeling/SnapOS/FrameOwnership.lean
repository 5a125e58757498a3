/- Who owns which physical frame, from the firmware map through the early allocator and the
handover to the bitmap allocator. -/
import SnapOS.Lib.Run
import SnapOS.Pmm
import Mathlib.Tactic.Ring

namespace SnapOS.Mm
open SnapOS.Lib

/-- Ghost record of the ranges that are out: `kept` is never given back (early frames and the
bitmap's own frames), `held` came from the bitmap allocator. -/
structure FrameState where
  early : EarlyPmm
  pmm : Option Pmm
  kept : List FrameRange
  held : List FrameRange

inductive FrameOp where
  | earlyPmmAllocFrame
  | pmmInit (old : Bitmap)
  | pmmAllocFrame
  | pmmAllocContiguousFrames (count : Nat)
  | pmmFreeFrame (paddr : Nat)
  | pmmFreeContiguousFrames (paddr count : Nat)

/-- The address that an operation returns, where it returns one. -/
def returned (s : FrameState) : FrameOp → Option Nat
  | .earlyPmmAllocFrame => (earlyPmmAllocFrame s.early).1
  | .pmmInit old => (pmmInit old s.early).2.2.map Pmm.base
  | .pmmAllocFrame => s.pmm.bind fun p => (pmmAllocFrame p).1
  | .pmmAllocContiguousFrames count =>
      s.pmm.bind fun p => (pmmAllocContiguousFrames p count).toOption.bind Prod.fst
  | .pmmFreeFrame _ => none
  | .pmmFreeContiguousFrames _ _ => none

def allocated (s : FrameState) (count : Nat) (result : Option Nat) (p : Pmm) : FrameState :=
  { s with pmm := some p, held := (result.map (⟨·, count⟩)).toList ++ s.held }

/-- A step exists when the operation belongs to the current allocator, does not panic, and a free
gives back a range that is held. The handover is a `pmm_init` that returns zero. -/
def frameStep (s : FrameState) (op : FrameOp) : Option FrameState :=
  match s.pmm, op with
  | none, .earlyPmmAllocFrame =>
      let (result, early) := earlyPmmAllocFrame s.early
      some { s with early, kept := (result.map (⟨·, 1⟩)).toList ++ s.kept }
  | none, .pmmInit old =>
      match pmmInit old s.early with
      | (0, early, some p) =>
          some { s with early, pmm := some p, kept := ⟨p.base, bitmapFrames s.early.clean⟩ :: s.kept }
      | _ => none
  | some p, .pmmAllocFrame =>
      let (result, p) := pmmAllocFrame p
      some (allocated s 1 result p)
  | some p, .pmmAllocContiguousFrames count =>
      (pmmAllocContiguousFrames p count).toOption.map fun (result, p) => allocated s count result p
  | some p, .pmmFreeFrame paddr =>
      if ⟨paddr, 1⟩ ∈ s.held then
        (pmmFreeFrame p paddr).toOption.map fun p =>
          { s with pmm := some p, held := s.held.erase ⟨paddr, 1⟩ }
      else none
  | some p, .pmmFreeContiguousFrames paddr count =>
      if ⟨paddr, count⟩ ∈ s.held then
        (pmmFreeContiguousFrames p paddr count).toOption.map fun p =>
          { s with pmm := some p, held := s.held.erase ⟨paddr, count⟩ }
      else none
  | _, _ => none

/-! Frames of a range. -/

def FrameRange.Holds (r : FrameRange) (i : Nat) : Prop :=
  r.start ≤ i * pageSize ∧ (i + 1) * pageSize ≤ r.stop

theorem FrameRange.holds_iff {r : FrameRange} (aligned : r.start % pageSize = 0) (i : Nat) :
    r.Holds i ↔ r.start / pageSize ≤ i ∧ i < r.start / pageSize + r.count := by
  simp only [Holds, stop, pageSize] at *
  omega

theorem FrameRange.apart_of_frames {r q : FrameRange} (hr : r.start % pageSize = 0)
    (hq : q.start % pageSize = 0) (rCount : 0 < r.count) (qCount : 0 < q.count)
    (disjoint : ∀ i, r.Holds i → ¬ q.Holds i) : r.Apart q := by
  have common := disjoint (max r.start q.start / pageSize)
  simp only [Holds, Apart, stop, pageSize] at *
  omega

theorem CleanMap.same_region {clean : List PhysRegion} (map : CleanMap clean) {r q : PhysRegion}
    (hr : r ∈ clean) (hq : q ∈ clean) (sameType : r.type = q.type) {a : Nat}
    (rStart : r.start < a) (rStop : a ≤ r.stop) (qStart : q.start ≤ a) (qStop : a < q.stop) :
    r = q := by
  obtain ⟨i, hi, rfl⟩ := List.getElem_of_mem hr
  obtain ⟨j, hj, rfl⟩ := List.getElem_of_mem hq
  rcases Nat.lt_trichotomy i j with before | same | after
  · obtain ⟨order, merged⟩ := List.pairwise_iff_getElem.mp map.sorted i j hi hj before
    exact absurd sameType (merged (by omega))
  · subst same
    rfl
  · obtain ⟨order, _⟩ := List.pairwise_iff_getElem.mp map.sorted j i hj hi after
    omega

theorem CleanMap.owned_run {clean : List PhysRegion} (map : CleanMap clean) {base : Nat} (count : Nat)
    (frames : ∀ i, base ≤ i → i < base + (count + 1) → Owned clean ⟨i * pageSize, 1⟩) :
    Owned clean ⟨base * pageSize, count + 1⟩ := by
  have first := frames base le_rfl (by omega)
  refine ⟨first.aligned, first.high, ?_⟩
  induction count with
  | zero => exact first.inside
  | succ count ih =>
      obtain ⟨r, hr, rUsable, rStart, rStop⟩ := ih (fun i low high => frames i low (by omega))
      obtain ⟨q, hq, qUsable, qStart, qStop⟩ := (frames (base + (count + 1)) (by omega) (by omega)).inside
      simp only [FrameRange.stop] at *
      obtain ⟨border, hborder⟩ : ∃ x, x = (base + (count + 1)) * pageSize := ⟨_, rfl⟩
      have rBorder : r.start < border ∧ border ≤ r.stop := by
        simp only [pageSize] at *
        omega
      have qBorder : q.start ≤ border ∧ border < q.stop := by
        simp only [pageSize] at *
        omega
      have same : r = q := map.same_region hr hq (rUsable.trans qUsable.symm)
        rBorder.1 rBorder.2 qBorder.1 qBorder.2
      subst same
      refine ⟨r, hr, rUsable, rStart, ?_⟩
      calc base * pageSize + pageSize * (count + 1 + 1)
          = (base + (count + 1)) * pageSize + pageSize * 1 := by ring
        _ ≤ r.stop := qStop

/-! The invariant. -/

/-- The bitmap allocator's part: held ranges and free frames share the usable frames above the
final cursor of the early allocator. -/
structure BitmapInv (early : EarlyPmm) (p : Pmm) (held : List FrameRange) : Prop where
  apart : held.Pairwise FrameRange.Apart
  owned : ∀ r ∈ held, Owned early.clean r ∧ early.cursor ≤ r.start ∧ 0 < r.count
  taken : ∀ r ∈ held, ∀ i, r.Holds i → i < 8 * p.size ∧ p.bitmap.bit i = true
  free : ∀ i, p.IsFree i → Owned early.clean ⟨i * pageSize, 1⟩ ∧ early.cursor ≤ i * pageSize

structure FrameInv (clean : List PhysRegion) (s : FrameState) : Prop where
  clean : s.early.clean = clean
  early : EarlyInv s.early
  kept : HandedOut s.early s.kept
  before : s.pmm = none → s.held = []
  bitmap : ∀ p, s.pmm = some p → BitmapInv s.early p s.held

theorem Pmm.isFree_markTaken (p : Pmm) (base count i : Nat) :
    (markTaken p base count).IsFree i ↔ p.IsFree i ∧ ¬ (base ≤ i ∧ i < base + count) := by
  simp only [IsFree, markTaken, Bitmap.bit_setBits, Bool.or_eq_false_iff, decide_eq_false_iff_not,
    and_assoc]

theorem BitmapInv.owned_new {early : EarlyPmm} {p : Pmm} {held : List FrameRange} {base count : Nat}
    (inv : BitmapInv early p held) (map : CleanMap early.clean) (positive : 0 < count)
    (run : p.FreeRun base count) :
    Owned early.clean ⟨base * pageSize, count⟩ ∧ early.cursor ≤ base * pageSize := by
  obtain ⟨count, rfl⟩ : ∃ n, count = n + 1 := ⟨count - 1, by omega⟩
  refine ⟨map.owned_run count fun i low high => (inv.free i (run i low high)).1, ?_⟩
  exact (inv.free base (run base le_rfl (by omega))).2

theorem BitmapInv.allocated {early : EarlyPmm} {p : Pmm} {held : List FrameRange} {count : Nat}
    {result : Option Nat} {q : Pmm} (inv : BitmapInv early p held) (map : CleanMap early.clean)
    (positive : 0 < count) (fit : FirstFit p count result q) :
    BitmapInv early q ((result.map (⟨·, count⟩)).toList ++ held) := by
  cases hresult : result with
  | none =>
      obtain ⟨rfl, _⟩ := fit.missing hresult
      exact inv
  | some a =>
      obtain ⟨base, rfl, run, _, rfl⟩ := fit.found a hresult
      obtain ⟨owned, above⟩ := inv.owned_new map positive run
      have holds (i : Nat) : FrameRange.Holds ⟨base * pageSize, count⟩ i ↔ base ≤ i ∧ i < base + count := by
        rw [FrameRange.holds_iff owned.aligned, Nat.mul_div_cancel _ (by decide)]
      refine ⟨?_, ?_, ?_, ?_⟩
      · refine List.pairwise_cons.mpr ⟨?_, inv.apart⟩
        intro r member
        apply FrameRange.apart_of_frames owned.aligned (inv.owned r member).1.aligned positive
          (inv.owned r member).2.2
        intro i new old
        have clear := (run i ((holds i).mp new).1 ((holds i).mp new).2).2
        rw [(inv.taken r member i old).2] at clear
        cases clear
      · intro r member
        rcases List.mem_cons.mp member with rfl | old
        · exact ⟨owned, above, positive⟩
        · exact inv.owned r old
      · intro r member i hi
        rcases List.mem_cons.mp member with rfl | old
        · have inside := (holds i).mp hi
          exact ⟨(run i inside.1 inside.2).1, by simp [markTaken, Bitmap.bit_setBits, inside]⟩
        · obtain ⟨bound, set⟩ := inv.taken r old i hi
          exact ⟨bound, by simp [markTaken, Bitmap.bit_setBits, set]⟩
      · intro i free
        exact inv.free i ((p.isFree_markTaken base count i).mp free).1

def Pmm.release (p : Pmm) (frame count : Nat) : Pmm :=
  { p with bitmap := p.bitmap.clearBits frame count }

theorem BitmapInv.released {early : EarlyPmm} {p : Pmm} {held : List FrameRange} {r : FrameRange}
    (inv : BitmapInv early p held) (member : r ∈ held) :
    BitmapInv early (p.release (r.start / pageSize) r.count) (held.erase r) := by
  obtain ⟨owned, above, positive⟩ := inv.owned r member
  have others := (List.perm_cons_erase member).pairwise_iff (fun h => h.symm) |>.mp inv.apart
  rw [List.pairwise_cons] at others
  refine ⟨others.2, fun q hq => inv.owned q (List.mem_of_mem_erase hq), ?_, ?_⟩
  · intro q hq i hi
    obtain ⟨bound, set⟩ := inv.taken q (List.mem_of_mem_erase hq) i hi
    refine ⟨bound, ?_⟩
    have other : ¬ r.Holds i := by
      intro both
      have apart := others.1 q hq
      simp only [FrameRange.Holds, FrameRange.Apart, pageSize] at *
      omega
    rw [FrameRange.holds_iff owned.aligned] at other
    simp only [Pmm.release, Bitmap.bit_clearBits, set, other, not_false_eq_true, decide_true,
      Bool.and_self]
  · intro i free
    by_cases here : r.Holds i
    · obtain ⟨region, hregion, usable, start, stop⟩ := owned.inside
      have high := owned.high
      refine ⟨⟨Nat.mul_mod_left _ _, ?_, region, hregion, usable, ?_, ?_⟩, ?_⟩ <;>
        simp only [FrameRange.Holds, FrameRange.stop, pageSize] at * <;> omega
    · apply inv.free i
      rw [FrameRange.holds_iff owned.aligned] at here
      obtain ⟨bound, clear⟩ := free
      simp only [Pmm.release, Bitmap.bit_clearBits, here, not_false_eq_true, decide_true,
        Bool.and_true] at clear
      exact ⟨bound, clear⟩

/-- Freeing one frame is freeing a range of length one; a held frame is marked, so it does not
panic. -/
theorem pmmFreeFrame_held {early : EarlyPmm} {p : Pmm} {held : List FrameRange} {paddr : Nat}
    (inv : BitmapInv early p held) (member : ⟨paddr, 1⟩ ∈ held) :
    pmmFreeFrame p paddr = .ok (p.release (paddr / pageSize) 1) := by
  have owned := (inv.owned _ member).1
  have hframe : pageAlignDown paddr / pageSize = paddr / pageSize :=
    Nat.mul_div_cancel _ (by decide)
  have set := (inv.taken _ member (paddr / pageSize)
    ((FrameRange.holds_iff owned.aligned _).mpr ⟨le_rfl, Nat.lt_succ_self _⟩)).2
  unfold pmmFreeFrame
  simp only [isPageAligned_always, hframe, Bitmap.masked_bit, set, Bool.true_eq_false, if_false]
  rfl

theorem pmmFreeContiguousFrames_eq (p : Pmm) (paddr count : Nat) :
    pmmFreeContiguousFrames p paddr count = .ok (p.release (paddr / pageSize) count) := by
  simp only [pmmFreeContiguousFrames, isPageAligned_always, Bool.true_eq_false, if_false]
  rfl

theorem pmmInit_bitmapInv {old : Bitmap} {s s' : EarlyPmm} {p : Pmm} {ranges : List FrameRange}
    (inv : EarlyInv s) (out : HandedOut s ranges) (h : pmmInit old s = (0, s', some p)) :
    BitmapInv s' p [] := by
  obtain ⟨_, same, _, _, exact_free⟩ := pmmInit_spec inv out h
  refine ⟨List.Pairwise.nil, by simp, by simp, ?_⟩
  intro i free
  obtain ⟨_, r, member, usable, above, start, stop⟩ := (exact_free i).mp free
  rw [same]
  have hstop : FrameRange.stop ⟨i * pageSize, 1⟩ ≤ r.stop := by
    simp only [FrameRange.stop, pageSize] at *
    omega
  exact ⟨⟨Nat.mul_mod_left _ _, (le_max_left _ _).trans above, r, member, usable, start, hstop⟩,
    (le_max_right _ _).trans above⟩

theorem frameStep_inv {clean : List PhysRegion} (s : FrameState) (op : FrameOp) (t : FrameState)
    (inv : FrameInv clean s) (h : frameStep s op = some t) : FrameInv clean t := by
  have map : CleanMap s.early.clean := inv.early.map
  unfold frameStep at h
  split at h
  · next hpmm =>
      obtain rfl := Option.some.inj h
      obtain ⟨early, same, kept⟩ := earlyAllocLoop_handedOut (show pageSize * 1 ≤ 2 ^ 52 by decide)
        (s.early.clean.length + 1) inv.early inv.kept rfl
      exact ⟨same.trans inv.clean, early, kept, inv.before,
        fun p hp => absurd (hpmm.symm.trans hp) (by simp)⟩
  · next old hpmm =>
      split at h
      · next early p init =>
          obtain rfl := Option.some.inj h
          obtain ⟨early', same, kept, _, _⟩ := pmmInit_spec inv.early inv.kept init
          refine ⟨same.trans inv.clean, early', kept, fun none => by simp at none, ?_⟩
          intro q hq
          obtain rfl := Option.some.inj hq
          rw [show s.held = [] from inv.before hpmm]
          exact pmmInit_bitmapInv inv.early inv.kept init
      · cases h
  · next p hpmm =>
      obtain rfl := Option.some.inj h
      refine ⟨inv.clean, inv.early, inv.kept, fun none => by simp [allocated] at none, ?_⟩
      intro q hq
      obtain rfl := Option.some.inj hq
      exact (inv.bitmap p hpmm).allocated map (by decide) (pmmAllocFrame_spec p)
  · next p count hpmm =>
      by_cases positive : 0 < count
      · obtain ⟨result, q, alloc, fit⟩ := pmmAllocContiguousFrames_spec p positive
        rw [alloc] at h
        obtain rfl := Option.some.inj h
        refine ⟨inv.clean, inv.early, inv.kept, fun none => by simp [allocated] at none, ?_⟩
        intro q' hq
        obtain rfl := Option.some.inj hq
        exact (inv.bitmap p hpmm).allocated map positive fit
      · simp [pmmAllocContiguousFrames, show count = 0 by omega, Exec.panic, Except.toOption] at h
  · next p paddr hpmm =>
      split at h
      · next member =>
          have bitmapInv := inv.bitmap p hpmm
          rw [pmmFreeFrame_held bitmapInv member] at h
          obtain rfl := Option.some.inj h
          refine ⟨inv.clean, inv.early, inv.kept, fun none => by simp at none, ?_⟩
          intro q hq
          obtain rfl := Option.some.inj hq
          exact bitmapInv.released member
      · cases h
  · next p paddr count hpmm =>
      split at h
      · next member =>
          rw [pmmFreeContiguousFrames_eq] at h
          obtain rfl := Option.some.inj h
          refine ⟨inv.clean, inv.early, inv.kept, fun none => by simp at none, ?_⟩
          intro q hq
          obtain rfl := Option.some.inj hq
          exact (inv.bitmap p hpmm).released member
      · cases h
  · cases h

/-- What a client of the bitmap allocator may call. -/
def FrameOp.Legal (s : FrameState) : FrameOp → Prop
  | .earlyPmmAllocFrame => False
  | .pmmInit _ => False
  | .pmmAllocFrame => True
  | .pmmAllocContiguousFrames count => 0 < count
  | .pmmFreeFrame paddr => ⟨paddr, 1⟩ ∈ s.held
  | .pmmFreeContiguousFrames paddr count => ⟨paddr, count⟩ ∈ s.held

/-- Legal operations always have a result: no panic, and no loop that runs on. -/
theorem frameStep_enabled {clean : List PhysRegion} {s : FrameState} {p : Pmm} (inv : FrameInv clean s)
    (ready : s.pmm = some p) {op : FrameOp} (legal : op.Legal s) : ∃ t, frameStep s op = some t := by
  unfold frameStep
  rw [ready]
  cases op with
  | earlyPmmAllocFrame => exact legal.elim
  | pmmInit _ => exact legal.elim
  | pmmAllocFrame => exact ⟨_, rfl⟩
  | pmmAllocContiguousFrames count =>
      obtain ⟨result, q, alloc, _⟩ := pmmAllocContiguousFrames_spec p legal
      simp only [alloc]
      exact ⟨_, rfl⟩
  | pmmFreeFrame paddr =>
      have member : ⟨paddr, 1⟩ ∈ s.held := legal
      simp only [if_pos member, pmmFreeFrame_held (inv.bitmap p ready) member]
      exact ⟨_, rfl⟩
  | pmmFreeContiguousFrames paddr count =>
      have member : ⟨paddr, count⟩ ∈ s.held := legal
      simp only [if_pos member, pmmFreeContiguousFrames_eq]
      exact ⟨_, rfl⟩

/-- The ranges are pairwise disjoint, each owned in the clean map, and none meets the kernel. -/
structure ExclusivelyOwned (clean : List PhysRegion) (kernel : PhysRegion)
    (ranges : List FrameRange) : Prop where
  apart : ranges.Pairwise FrameRange.Apart
  owned : ∀ r ∈ ranges, Owned clean r
  outside_kernel : ∀ r ∈ ranges, ∀ a, r.start ≤ a → a < r.stop → kernel.contains a = false

theorem Owned.outside_kernel {k : KernelImage} {map clean : List PhysRegion}
    (sanitized : Sanitized (map ++ [k.region]) clean) {r : FrameRange} (owned : Owned clean r)
    {a : Nat} (low : r.start ≤ a) (high : a < r.stop) : k.region.contains a = false := by
  obtain ⟨region, member, usable, start, stop⟩ := owned.inside
  have inside : region.contains a = true := (region.contains_iff a).mpr ⟨by omega, by omega⟩
  have typed := (sanitized.exact_type a .usable).mp ⟨region, member, inside, usable⟩
  by_contra covered
  have := effectiveType_usable typed (r := k.region) (by simp) (by simpa using covered)
  cases this

theorem FrameInv.apart {clean : List PhysRegion} {s : FrameState} (inv : FrameInv clean s) :
    (s.held ++ s.kept).Pairwise FrameRange.Apart := by
  cases hpmm : s.pmm with
  | none =>
      rw [inv.before hpmm]
      exact inv.kept.apart
  | some p =>
      have bitmapInv := inv.bitmap p hpmm
      refine List.pairwise_append.mpr ⟨bitmapInv.apart, inv.kept.apart, ?_⟩
      intro r hr q hq
      exact Or.inr ((inv.kept.below q hq).trans (bitmapInv.owned r hr).2.1)

theorem FrameInv.owned {clean : List PhysRegion} {s : FrameState} (inv : FrameInv clean s) :
    ∀ r ∈ s.held ++ s.kept, Owned clean r := by
  intro r member
  rw [← inv.clean]
  rcases List.mem_append.mp member with held | kept
  · cases hpmm : s.pmm with
    | none =>
        rw [inv.before hpmm] at held
        cases held
    | some p => exact ((inv.bitmap p hpmm).owned r held).1
  · exact inv.kept.owned r kept

theorem FrameInv.returned_ne_zero {clean : List PhysRegion} {s : FrameState} (inv : FrameInv clean s)
    {op : FrameOp} {a : Nat} (h : returned s op = some a) : a ≠ 0 := by
  have high {r : FrameRange} (owned : Owned s.early.clean r) : r.start ≠ 0 := by
    have := owned.high
    simp only [minUsablePaddr] at this
    omega
  have early : ∀ {count fuel : Nat}, pageSize * count ≤ 2 ^ 52 →
      (earlyAllocLoop (pageSize * count) fuel s.early).1 = some a → a ≠ 0 := by
    intro count fuel bound result
    obtain ⟨_, same, out⟩ := earlyAllocLoop_handedOut bound fuel inv.early inv.kept rfl
    have owned := out.owned ⟨a, count⟩ (by simp [result])
    rw [same] at owned
    exact high owned
  have bitmap : ∀ {p q : Pmm} {count : Nat}, s.pmm = some p → 0 < count →
      FirstFit p count (some a) q → a ≠ 0 := by
    intro p q count hpmm positive fit
    obtain ⟨base, rfl, run, _, _⟩ := fit.found a rfl
    exact high ((inv.bitmap p hpmm).owned_new inv.early.map positive run).1
  cases op with
  | earlyPmmAllocFrame => exact early (show pageSize * 1 ≤ 2 ^ 52 by decide) h
  | pmmInit old =>
      have bound := bitmapFrames_le inv.early.map
      have hsize : pageSize * bitmapFrames s.early.clean % word64 =
          pageSize * bitmapFrames s.early.clean :=
        Nat.mod_eq_of_lt (by simp only [word64] at *; omega)
      simp only [returned, pmmInit, earlyPmmAllocContinuousFrames, hsize] at h
      split at h
      · cases h
      · next base _ alloc =>
          exact early bound ((congrArg Prod.fst alloc).trans h)
  | pmmAllocFrame =>
      obtain ⟨p, hpmm, alloc⟩ := Option.bind_eq_some_iff.mp h
      exact bitmap hpmm Nat.one_pos (alloc ▸ pmmAllocFrame_spec p)
  | pmmAllocContiguousFrames count =>
      obtain ⟨p, hpmm, alloc⟩ := Option.bind_eq_some_iff.mp h
      by_cases positive : 0 < count
      · obtain ⟨result, q, eq, fit⟩ := pmmAllocContiguousFrames_spec p positive
        rw [eq] at alloc
        obtain rfl : result = some a := alloc
        exact bitmap hpmm positive fit
      · simp [pmmAllocContiguousFrames, show count = 0 by omega, Exec.panic, Except.toOption] at alloc
  | pmmFreeFrame _ => cases h
  | pmmFreeContiguousFrames _ _ => cases h

/-- The state after `early_pmm_init`: nothing is out. -/
def afterEarlyInit (early : EarlyPmm) : FrameState := ⟨early, none, [], []⟩

/-- A range that some sequence of calls makes an allocator return. -/
def CanReturn (early : EarlyPmm) (r : FrameRange) : Prop :=
  ∃ ops f, run frameStep (afterEarlyInit early) ops = some f ∧ r ∈ f.held ++ f.kept

theorem CanReturn.owned {early : EarlyPmm} {r : FrameRange} (earlyInv : EarlyInv early) (out : HandedOut early [])
    (returned : CanReturn early r) :
    Owned early.clean r := by
  obtain ⟨ops, f, reached, member⟩ := returned
  have initial : FrameInv early.clean (afterEarlyInit early) :=
    ⟨rfl, earlyInv, out, fun _ => rfl, fun p hp => nomatch hp⟩
  exact (run_invariant_always frameStep_inv initial reached).owned r member

theorem Owned.only_region {clean : List PhysRegion} {r : FrameRange} {p : Nat} (owned : Owned clean r)
    (map : CleanMap clean) (low : r.start ≤ p) (high : p < r.stop) :
    ∃ q ∈ clean, q.type = .usable ∧ r.stop ≤ q.stop ∧ pageAlignDown q.start ≤ p ∧ p < pageAlignUp q.stop ∧
      ∀ q' ∈ clean, pageAlignDown q'.start ≤ p → p < pageAlignUp q'.stop → q' = q := by
  obtain ⟨q, member, usable, start, stop⟩ := owned.inside
  have aligned := owned.aligned
  have aligned' : r.stop % pageSize = 0 := by
    rw [FrameRange.stop, Nat.add_mul_mod_self_left]
    exact aligned
  have bound := map.bounded q member
  have up := (pageAlignUp_spec (x := q.stop) (by simp only [pageSize, word64] at *; omega)).1
  refine ⟨q, member, usable, stop, Nat.le_trans (pageAlignDown_le _) (Nat.le_trans start low), by omega, ?_⟩
  intro q' member' below above
  obtain ⟨i, hi, rfl⟩ := List.getElem_of_mem member
  obtain ⟨j, hj, rfl⟩ := List.getElem_of_mem member'
  rcases Nat.lt_trichotomy i j with before | rfl | after
  · obtain ⟨order, _⟩ := List.pairwise_iff_getElem.mp map.sorted i j hi hj before
    have past : r.stop ≤ pageAlignDown clean[j].start := by
      simp only [pageAlignDown, pageSize] at *
      omega
    omega
  · rfl
  · obtain ⟨order, _⟩ := List.pairwise_iff_getElem.mp map.sorted j i hj hi after
    have before : pageAlignUp clean[j].stop ≤ r.start :=
      pageAlignUp_le (Nat.le_trans order start) aligned (by simp only [pageSize, word64] at *; omega)
    omega

theorem frames_exclusively_owned (k : KernelImage) (map : List PhysRegion) {early : EarlyPmm}
    (regions : ∀ r ∈ map, r.start < r.stop ∧ r.stop ≤ 2 ^ 52)
    (init : earlyPmmInit k map = .ok (0, early)) {ops : List FrameOp} {s : FrameState}
    (h : run frameStep (afterEarlyInit early) ops = some s) :
    ExclusivelyOwned early.clean k.region (s.held ++ s.kept) ∧
      ∀ op a, returned s op = some a → a ≠ 0 := by
  obtain ⟨sanitized, earlyInv, out⟩ := earlyPmmInit_inv (fun r member => (regions r member).2) init
  have initial : FrameInv early.clean (afterEarlyInit early) :=
    ⟨rfl, earlyInv, out, fun _ => rfl, fun p hp => nomatch hp⟩
  have inv := run_invariant_always frameStep_inv initial h
  refine ⟨⟨inv.apart, inv.owned, ?_⟩, fun op a => inv.returned_ne_zero⟩
  intro r member a low high
  exact (inv.owned r member).outside_kernel sanitized low high

def smallKernel : KernelImage := ⟨kernelStartVirtAddr + 0x2000, by decide, by decide⟩

def smallMap : List PhysRegion := [⟨0x100000, 0x110000, .usable⟩]

def smallEarly : EarlyPmm :=
  ⟨[⟨0x100000, 0x110000, .usable⟩, ⟨0x1000000, 0x1002000, .reserved⟩],
    some ⟨0x100000, 0x110000, .usable⟩, 0, 0x100000⟩

def smallRun : List FrameOp :=
  [.earlyPmmAllocFrame, .pmmInit fun _ => 0#8, .pmmAllocFrame, .pmmAllocContiguousFrames 3,
    .pmmFreeFrame 0x102000, .pmmFreeContiguousFrames 0x103000 3, .pmmAllocContiguousFrames 2]

theorem frames_exclusively_owned_small : ∃ s, run frameStep (afterEarlyInit smallEarly) smallRun = some s ∧
    s.held = [⟨0x102000, 2⟩] ∧ ExclusivelyOwned smallEarly.clean smallKernel.region (s.held ++ s.kept) ∧
    ∀ op a, returned s op = some a → a ≠ 0 := by
  have ends : (run frameStep (afterEarlyInit smallEarly) smallRun).map FrameState.held =
      some [⟨0x102000, 2⟩] := by decide +kernel
  obtain ⟨s, hs, held⟩ := Option.map_eq_some_iff.mp ends
  exact ⟨s, hs, held, frames_exclusively_owned smallKernel smallMap (by decide) rfl hs⟩

/-- After `pmm_init`, in every state that any calls lead to, a legal call returns: no panic, and no loop that runs
on. -/
theorem legal_frameOp_returns {k : KernelImage} {map : List PhysRegion} {early : EarlyPmm}
    (regions : ∀ r ∈ map, r.stop ≤ 2 ^ 52) (init : earlyPmmInit k map = .ok (0, early)) {ops : List FrameOp}
    {s : FrameState} (reached : run frameStep (afterEarlyInit early) ops = some s) {p : Pmm} (ready : s.pmm = some p)
    {op : FrameOp} (legal : op.Legal s) : ∃ t, frameStep s op = some t := by
  obtain ⟨_, earlyInv, out⟩ := earlyPmmInit_inv regions init
  have initial : FrameInv early.clean (afterEarlyInit early) :=
    ⟨rfl, earlyInv, out, fun _ => rfl, fun p hp => nomatch hp⟩
  exact frameStep_enabled (run_invariant_always frameStep_inv initial reached) ready legal

/-- The last range of `smallRun` is given back. -/
theorem legal_frameOp_returns_release : ∃ s t, run frameStep (afterEarlyInit smallEarly) smallRun = some s ∧
    s.held = [⟨0x102000, 2⟩] ∧ frameStep s (.pmmFreeContiguousFrames 0x102000 2) = some t := by
  have ends : (run frameStep (afterEarlyInit smallEarly) smallRun).map (fun s => (s.held, s.pmm.isSome)) =
      some ([⟨0x102000, 2⟩], true) := by decide +kernel
  obtain ⟨s, reached, seen⟩ := Option.map_eq_some_iff.mp ends
  obtain ⟨held, ready⟩ := Prod.mk.inj seen
  obtain ⟨p, ready⟩ := Option.isSome_iff_exists.mp ready
  have legal : (FrameOp.pmmFreeContiguousFrames 0x102000 2).Legal s := by
    rw [FrameOp.Legal, held]
    exact List.mem_singleton_self _
  obtain ⟨t, step⟩ := @legal_frameOp_returns smallKernel smallMap smallEarly (by decide) rfl _ s reached p ready _ legal
  exact ⟨s, t, reached, held, step⟩

end SnapOS.Mm
