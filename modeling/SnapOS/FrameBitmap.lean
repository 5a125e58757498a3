/- What the functions of mm/pmm.c do to the bitmap: which frames pmm_init frees, first fit, and the two ways to
give frames back. -/
import SnapOS.FrameOwnership

namespace SnapOS.Mm
open SnapOS.Lib

/-! pmm_init -/

/-- The indices of `bitmap` that the loops of `pmm_init` use for a region, in their order. -/
def bytesUsed (cursor : Nat) (r : PhysRegion) : List Nat :=
  if r.type ≠ .usable ∨ r.stop ≤ cursor then []
  else
    let sframe := startFrame cursor r
    let eframe := endFrame r
    if eframe ≤ sframe then []
    else
      let sbyte := sframe / 8
      let ebyte := eframe / 8
      let sbit := sframe % 8
      let ebit := eframe % 8
      if sbyte = ebyte then (List.range' sbit (ebit - sbit)).map fun _ => sbyte
      else (List.range' sbit (8 - sbit)).map (fun _ => sbyte) ++ (List.range ebit).map (fun _ => ebyte) ++
        List.range' (sbyte + 1) (ebyte - (sbyte + 1))

/-- Exactly the whole frames of usable regions from `cursor` and the low megabyte on are free. All other bits of
the bitmap are set, and nothing behind its last byte is used. -/
structure FreesExactly (old : Bitmap) (clean : List PhysRegion) (cursor : Nat) (p : Pmm) : Prop where
  free : ∀ i, p.IsFree i ↔ max minUsablePaddr cursor ≤ i * pageSize ∧
    ∃ r ∈ clean, r.type = .usable ∧ r.start ≤ i * pageSize ∧ (i + 1) * pageSize ≤ r.stop
  inside : ∀ r ∈ clean, ∀ k ∈ bytesUsed cursor r, k < p.size
  behind : ∀ i, 8 * p.size ≤ i → p.bitmap.bit i = old.bit i

theorem earlyAllocLoop_clean (size fuel : Nat) (s : EarlyPmm) : (earlyAllocLoop size fuel s).2.clean = s.clean := by
  induction fuel generalizing s with
  | zero => rfl
  | succ fuel ih =>
      rw [earlyAllocLoop]
      split
      · rfl
      · split
        · rfl
        · rw [ih, paNext_clean]

theorem earlyAllocLoop_cursor {size fuel base : Nat} {s s' : EarlyPmm}
    (h : earlyAllocLoop size fuel s = (some base, s')) : s'.cursor = (base + size) % word64 := by
  induction fuel generalizing s with
  | zero => cases h
  | succ fuel ih =>
      rw [earlyAllocLoop] at h
      split at h
      · cases h
      · split at h
        · cases h
          rfl
        · exact ih h

theorem pmmInit_ok {old : Bitmap} {s s' : EarlyPmm} {p : Pmm} (h : pmmInit old s = (0, s', some p)) :
    s'.clean = s.clean ∧ s'.cursor = (p.base + pageSize * bitmapFrames s.clean % word64) % word64 ∧
      p.size = bitmapSize s.clean ∧
      p.bitmap = s.clean.foldl (freeRegion s'.cursor) (old.fillBytes (bitmapSize s.clean)) := by
  simp only [pmmInit] at h
  cases alloc : earlyPmmAllocContinuousFrames s (bitmapFrames s.clean) with
  | mk result early =>
      rw [alloc] at h
      cases result with
      | none => cases h
      | some base =>
          have same : early.clean = s.clean := (congrArg (fun q => q.2.clean) alloc).symm.trans
            (earlyAllocLoop_clean _ _ s)
          cases h
          exact ⟨same, earlyAllocLoop_cursor alloc, rfl, by rw [same]; rfl⟩

/-- The regions are sorted, so the last usable one has the highest end. -/
theorem CleanMap.le_maxUsable {clean : List PhysRegion} (map : CleanMap clean) {r : PhysRegion} (member : r ∈ clean)
    (usable : r.type = .usable) : r.stop ≤ earlyPmmGetMaxUsable clean := by
  have loop : ∀ (rest : List PhysRegion) (max : Nat), (∀ q ∈ rest, q.start < q.stop ∧ max ≤ q.stop) →
      rest.Pairwise (fun r q => r.stop ≤ q.start ∧ (r.stop = q.start → r.type ≠ q.type)) →
      max ≤ rest.foldl (fun max r => if r.type ≠ .usable then max else r.stop) max ∧
        ∀ q ∈ rest, q.type = .usable →
          q.stop ≤ rest.foldl (fun max r => if r.type ≠ .usable then max else r.stop) max := by
    intro rest
    induction rest with
    | nil => exact fun max _ _ => ⟨le_rfl, List.forall_mem_nil _⟩
    | cons q rest ih =>
        intro max above sorted
        obtain ⟨first, sorted⟩ := List.pairwise_cons.mp sorted
        have later : ∀ t ∈ rest, t.start < t.stop ∧ max ≤ t.stop := fun t inside =>
          above t (List.mem_cons_of_mem q inside)
        rw [List.foldl_cons]
        by_cases other : q.type ≠ .usable
        · rw [if_pos other]
          obtain ⟨low, all⟩ := ih max later sorted
          refine ⟨low, fun t inside isUsable => ?_⟩
          rcases List.mem_cons.mp inside with rfl | inside
          · exact absurd isUsable other
          · exact all t inside isUsable
        · rw [if_neg other]
          obtain ⟨low, all⟩ := ih q.stop (fun t inside => by
            have := (first t inside).1
            have := (later t inside).1
            omega) sorted
          refine ⟨(above q List.mem_cons_self).2.trans low, fun t inside isUsable => ?_⟩
          rcases List.mem_cons.mp inside with rfl | inside
          · exact low
          · exact all t inside isUsable
  exact (loop clean 0 (fun q inside => ⟨map.nonempty q inside, Nat.zero_le _⟩) map.sorted).2 r member usable

theorem CleanMap.endFrame_le {clean : List PhysRegion} (map : CleanMap clean) {r : PhysRegion} (member : r ∈ clean)
    (usable : r.type = .usable) : endFrame r ≤ 8 * bitmapSize clean := by
  have below := map.le_maxUsable member usable
  have spec := pageAlignUp_spec (x := earlyPmmGetMaxUsable clean) (by
    have := earlyPmmGetMaxUsable_le map.bounded
    simp only [pageSize, word64]
    omega)
  rw [endFrame_eq, bitmapSize]
  simp only [pageSize] at *
  omega

theorem CleanMap.bytesUsed_lt {clean : List PhysRegion} (map : CleanMap clean) (cursor : Nat) {r : PhysRegion}
    (member : r ∈ clean) {k : Nat} (used : k ∈ bytesUsed cursor r) : k < bitmapSize clean := by
  unfold bytesUsed at used
  split at used
  · cases used
  · next usable =>
      have last := map.endFrame_le member (by by_contra other; exact usable (Or.inl other))
      dsimp only at used
      split at used
      · cases used
      · split at used
        · simp only [List.mem_map, List.mem_range'_1] at used
          omega
        · simp only [List.mem_append, List.mem_map, List.mem_range'_1, List.mem_range] at used
          omega

/-- The cursor that counts is the one after the frames of the bitmap itself have been handed out. -/
theorem pmmInit_frees_exactly {old : Bitmap} {s s' : EarlyPmm} {p : Pmm} (map : CleanMap s.clean)
    (h : pmmInit old s = (0, s', some p)) :
    FreesExactly old s.clean (ealryPmmGetCursor s') p ∧
      ealryPmmGetCursor s' = (p.base + pageSize * bitmapFrames s.clean % word64) % word64 := by
  obtain ⟨_, cursor, size, bitmap⟩ := pmmInit_ok h
  have frees : ∀ i, (∃ r ∈ s.clean, FreesFrame s'.cursor r i) ↔ max minUsablePaddr s'.cursor ≤ i * pageSize ∧
      ∃ r ∈ s.clean, r.type = .usable ∧ r.start ≤ i * pageSize ∧ (i + 1) * pageSize ≤ r.stop := by
    intro i
    constructor
    · rintro ⟨r, member, frees⟩
      obtain ⟨usable, low, start, stop⟩ :=
        (freesFrame_iff (map.nonempty r member) (map.bounded r member)).mp frees
      exact ⟨low, r, member, usable, start, stop⟩
    · rintro ⟨low, r, member, usable, start, stop⟩
      exact ⟨r, member, (freesFrame_iff (map.nonempty r member) (map.bounded r member)).mpr ⟨usable, low, start, stop⟩⟩
  have below : ∀ i, (∃ r ∈ s.clean, FreesFrame s'.cursor r i) → i < 8 * p.size := by
    rintro i ⟨r, member, usable, _, _, high⟩
    rw [size]
    exact Nat.lt_of_lt_of_le high (map.endFrame_le member usable)
  refine ⟨⟨fun i => ?_, fun r member k used => ?_, fun i outside => ?_⟩, cursor⟩
  · refine Iff.trans ?_ (frees i)
    rw [Pmm.IsFree, bitmap, bit_freeRegions]
    constructor
    · rintro ⟨inside, clear⟩
      rw [size] at inside
      rw [Bitmap.bit_fillBytes inside, Bool.true_and, decide_eq_false_iff_not] at clear
      simpa only [not_forall, not_not, exists_prop] using clear
    · rintro ⟨r, member, freesR⟩
      have inside := below i ⟨r, member, freesR⟩
      refine ⟨inside, ?_⟩
      rw [size] at inside
      rw [Bitmap.bit_fillBytes inside, Bool.true_and, decide_eq_false_iff_not]
      exact fun all => all r member freesR
  · rw [size]
    exact map.bytesUsed_lt _ member used
  · have kept : ∀ r ∈ s.clean, ¬ FreesFrame s'.cursor r i := fun r member freesR =>
      absurd (below i ⟨r, member, freesR⟩) (by omega)
    rw [bitmap, bit_freeRegions, decide_eq_true kept, Bool.and_true, Bitmap.bit, Bitmap.bit, Bitmap.fillBytes,
      if_neg (by rw [size] at outside; omega)]

theorem smallEarly_cleanMap : CleanMap smallEarly.clean :=
  (earlyPmmInit_inv (k := smallKernel) (by decide : ∀ r ∈ smallMap, r.stop ≤ 2 ^ 52) rfl).2.1.map

theorem smallEarly_init : ∃ s' p, pmmInit (fun _ => 0#8) smallEarly = (0, s', some p) ∧ s'.cursor = 0x101000 ∧
    p.bitmap.bit 0x100 = true := by
  have returns : (pmmInit (fun _ => 0#8) smallEarly).1 = 0 := by decide +kernel
  obtain ⟨p, init, taken⟩ : ∃ p, (pmmInit (fun _ => 0#8) smallEarly).2.2 = some p ∧ p.bitmap.bit 0x100 = true :=
    Option.map_eq_some_iff.mp (by decide +kernel)
  exact ⟨(pmmInit (fun _ => 0#8) smallEarly).2.1, p, Prod.ext returns (Prod.ext rfl init), by decide +kernel, taken⟩

theorem pmmInit_frees_exactly_small : ∃ s' p, pmmInit (fun _ => 0#8) smallEarly = (0, s', some p) ∧
    FreesExactly (fun _ => 0#8) smallEarly.clean 0x101000 p := by
  obtain ⟨s', p, init, cursor, _⟩ := smallEarly_init
  have exact_ := (pmmInit_frees_exactly smallEarly_cleanMap init).1
  rw [ealryPmmGetCursor, cursor] at exact_
  exact ⟨s', p, init, exact_⟩

/-- The first frame at the cursor when `pmm_init` is called is the one that the bitmap itself is put into. -/
theorem bitmap_frame_taken : ∃ s' p, pmmInit (fun _ => 0#8) smallEarly = (0, s', some p) ∧
    CleanMap smallEarly.clean ∧ smallEarly.cursor % pageSize = 0 ∧
      ¬ FreesExactly (fun _ => 0#8) smallEarly.clean (ealryPmmGetCursor smallEarly) p := by
  obtain ⟨s', p, init, _, taken⟩ := smallEarly_init
  refine ⟨s', p, init, smallEarly_cleanMap, by decide +kernel, fun exact_ => ?_⟩
  have region : smallEarly.clean.head? = some ⟨0x100000, 0x110000, .usable⟩ := by decide +kernel
  have free := (exact_.free 0x100).mpr ⟨by decide +kernel, _, List.mem_of_mem_head? region, rfl, by decide, by decide⟩
  cases taken.symm.trans free.2

/-! First fit -/

/-- Contiguous allocation, seen through the bits: the lowest run of free frames is marked and nothing else, or there
is none. -/
theorem pmmAllocContiguousFrames_firstFit (p : Pmm) {count : Nat} (positive : 1 ≤ count) :
    ∃ result q, pmmAllocContiguousFrames p count = .ok (result, q) ∧ q.size = p.size ∧ q.base = p.base ∧
      (∀ base, p.FreeRun base count → (∀ b < base, ¬ p.FreeRun b count) →
        result = some (base * pageSize) ∧
          ∀ i, q.bitmap.bit i = (p.bitmap.bit i || decide (base ≤ i ∧ i < base + count))) ∧
      ((∀ base, ¬ p.FreeRun base count) → result = none ∧ q = p) ∧
      (¬ p.IsFree 0 → (result.getD 0 = 0 ↔ ∀ base, ¬ p.FreeRun base count)) := by
  obtain ⟨result, q, outcome, fit⟩ := pmmAllocContiguousFrames_spec p positive
  refine ⟨result, q, outcome, ?_⟩
  cases result with
  | none =>
      obtain ⟨rfl, none⟩ := fit.missing rfl
      exact ⟨rfl, rfl, fun base run => absurd run (none base), fun _ => ⟨rfl, rfl⟩, fun _ =>
        ⟨fun _ => none, fun _ => rfl⟩⟩
  | some a =>
      obtain ⟨first, rfl, run, lowest, rfl⟩ := fit.found a rfl
      refine ⟨rfl, rfl, fun base run' lowest' => ?_, fun none => absurd run (none first), fun busy => ?_⟩
      · obtain rfl : base = first := Pmm.Lowest.unique ⟨run', lowest'⟩ ⟨run, lowest⟩
        exact ⟨rfl, fun i => Bitmap.bit_setBits _ _ _ _⟩
      · have high : first ≠ 0 := by
          rintro rfl
          exact busy (run 0 le_rfl (by omega))
        have pointer : first * pageSize ≠ 0 := Nat.mul_ne_zero high (by decide)
        exact ⟨fun null => absurd null pointer, fun none => absurd run (none first)⟩

/-- Frames 1 and 2 are the lowest two in a row. -/
theorem pmmAllocContiguousFrames_firstFit_twoFrames :
    ∃ q, pmmAllocContiguousFrames ⟨fun _ => 0b11111001#8, 1, 0⟩ 2 = .ok (some 0x1000, q) ∧ q.bitmap.bit 1 = true := by
  obtain ⟨result, q, outcome, _, _, found, _⟩ :=
    pmmAllocContiguousFrames_firstFit ⟨fun _ => 0b11111001#8, 1, 0⟩ (show 1 ≤ 2 by decide)
  have run : Pmm.FreeRun ⟨fun _ => 0b11111001#8, 1, 0⟩ 1 2 := by
    intro i low high
    obtain rfl | rfl : i = 1 ∨ i = 2 := by omega
    · exact ⟨by decide, by decide⟩
    · exact ⟨by decide, by decide⟩
  have lowest : ∀ b < 1, ¬ Pmm.FreeRun ⟨fun _ => 0b11111001#8, 1, 0⟩ b 2 := by
    intro b below free
    obtain rfl : b = 0 := by omega
    exact absurd (free 0 le_rfl (by decide)).2 (by decide)
  obtain ⟨rfl, bits⟩ := found 1 run lowest
  exact ⟨q, outcome, (bits 1).trans (by decide)⟩

/-! Giving frames back -/

def pmmFreeEach (p : Pmm) (paddr : Nat) : Nat → Exec Pmm
  | 0 => .ok p
  | count + 1 => do
      let p ← pmmFreeFrame p paddr
      pmmFreeEach p (paddr + pageSize) count

def Pmm.Taken (p : Pmm) (paddr count : Nat) : Prop :=
  ∀ i, paddr / pageSize ≤ i → i < paddr / pageSize + count → p.bitmap.bit i = true

/-- The two ways to free a range have one outcome, which is a panic exactly for a range with a free frame. -/
structure FreesAlike (p : Pmm) (paddr count : Nat) : Prop where
  same : pmmFreeContiguousFrames p paddr count = pmmFreeEach p paddr count
  doubleFree : (∃ message, pmmFreeContiguousFrames p paddr count = Exec.panic message) ↔ ¬ p.Taken paddr count

theorem pmmFreeFrame_eq (p : Pmm) (paddr : Nat) : pmmFreeFrame p paddr =
    if p.bitmap.bit (paddr / pageSize) then .ok (p.release (paddr / pageSize) 1)
    else Exec.panic "pmm_free_frame: trying to free a frame that doesn't exist." := by
  have frame : pageAlignDown paddr / pageSize = paddr / pageSize := Nat.mul_div_cancel _ (by decide)
  simp only [pmmFreeFrame, isPageAligned_always, Bool.true_eq_false, if_false, frame, Bitmap.masked_bit]
  cases p.bitmap.bit (paddr / pageSize) <;> rfl

theorem frame_succ (paddr : Nat) : (paddr + pageSize) / pageSize = paddr / pageSize + 1 :=
  Nat.add_div_right _ (by decide)

theorem Pmm.taken_succ {p : Pmm} {paddr count : Nat} : p.Taken paddr (count + 1) ↔
    p.bitmap.bit (paddr / pageSize) = true ∧ (p.release (paddr / pageSize) 1).Taken (paddr + pageSize) count := by
  have rest : ∀ i, paddr / pageSize < i → (p.release (paddr / pageSize) 1).bitmap.bit i = p.bitmap.bit i := by
    intro i above
    have outside : ¬ (paddr / pageSize ≤ i ∧ i < paddr / pageSize + 1) := by omega
    rw [Pmm.release, Bitmap.bit_clearBits, decide_eq_true outside, Bool.and_true]
  simp only [Taken, frame_succ]
  constructor
  · intro all
    refine ⟨all _ le_rfl (by omega), fun i low high => ?_⟩
    rw [rest i (by omega)]
    exact all i (by omega) (by omega)
  · rintro ⟨first, others⟩ i low high
    rcases Nat.eq_or_lt_of_le low with rfl | above
    · exact first
    · rw [← rest i above]
      exact others i above (by omega)

theorem pmmFreeEach_taken {p : Pmm} {paddr count : Nat} (taken : p.Taken paddr count) :
    pmmFreeEach p paddr count = .ok (p.release (paddr / pageSize) count) := by
  induction count generalizing p paddr with
  | zero => rfl
  | succ count ih =>
      obtain ⟨first, rest⟩ := Pmm.taken_succ.mp taken
      rw [pmmFreeEach, pmmFreeFrame_eq, if_pos first, Exec.ok_bind, ih rest, frame_succ]
      rfl

theorem pmmFreeEach_free {p : Pmm} {paddr count : Nat} (free : ¬ p.Taken paddr count) :
    pmmFreeEach p paddr count = Exec.panic "pmm_free_frame: trying to free a frame that doesn't exist." := by
  induction count generalizing p paddr with
  | zero => exact absurd (fun i low high => by omega) free
  | succ count ih =>
      rw [pmmFreeEach, pmmFreeFrame_eq]
      by_cases first : p.bitmap.bit (paddr / pageSize) = true
      · rw [if_pos first, Exec.ok_bind]
        exact ih fun rest => free (Pmm.taken_succ.mpr ⟨first, rest⟩)
      · rw [if_neg first]
        rfl

/-- `pmm_free_contiguous_frames` does not look at the bits it clears, so the two agree exactly on ranges that are
taken. -/
theorem pmmFreeContiguousFrames_alike_iff (p : Pmm) (paddr count : Nat) :
    FreesAlike p paddr count ↔ p.Taken paddr count := by
  constructor
  · intro alike
    by_contra free
    have same := alike.same
    rw [pmmFreeContiguousFrames_eq, pmmFreeEach_free free] at same
    cases same
  · intro taken
    refine ⟨by rw [pmmFreeContiguousFrames_eq, pmmFreeEach_taken taken], ?_⟩
    constructor
    · rintro ⟨message, panics⟩
      rw [pmmFreeContiguousFrames_eq] at panics
      cases panics
    · exact fun free => absurd taken free

/-- A frame that is already free is freed again without a panic. -/
theorem double_free_unnoticed :
    pmmFreeContiguousFrames ⟨fun _ => 0b11111101#8, 1, 0⟩ 0x1000 1 =
        .ok (Pmm.release ⟨fun _ => 0b11111101#8, 1, 0⟩ 1 1) ∧
      pmmFreeFrame ⟨fun _ => 0b11111101#8, 1, 0⟩ 0x1000 =
        Exec.panic "pmm_free_frame: trying to free a frame that doesn't exist." ∧
      ¬ FreesAlike ⟨fun _ => 0b11111101#8, 1, 0⟩ 0x1000 1 := by
  refine ⟨pmmFreeContiguousFrames_eq _ _ _, by rw [pmmFreeFrame_eq, if_neg (by decide)], fun alike => ?_⟩
  have free : ¬ Pmm.Taken ⟨fun _ => 0b11111101#8, 1, 0⟩ 0x1000 1 := fun taken =>
    absurd (taken 1 (by decide) (by decide)) (by decide)
  have same := alike.same
  rw [pmmFreeContiguousFrames_eq, pmmFreeEach_free free] at same
  cases same

end SnapOS.Mm
