/- The bitmap frame allocator of mm/pmm.c: its construction from the clean map, single frames and
contiguous runs. A set bit is a frame in use or a frame that does not exist. -/
import SnapOS.EarlyPmm
import SnapOS.Lib.Bitmap

namespace SnapOS.Mm
open SnapOS.Lib

/-- The static variables. The pointer `bitmap` of the source is `physToVirt base`. -/
structure Pmm where
  bitmap : Bitmap
  size : Nat
  base : Nat

def bitmapSize (clean : List PhysRegion) : Nat :=
  (pageAlignUp (earlyPmmGetMaxUsable clean) / pageSize + 7) / 8

def bitmapFrames (clean : List PhysRegion) : Nat := pageAlignUp (bitmapSize clean) / pageSize

def freeStart (cursor : Nat) (r : PhysRegion) : Nat :=
  let start := if r.start < minUsablePaddr then minUsablePaddr else r.start
  if start < cursor then cursor else start

def startFrame (cursor : Nat) (r : PhysRegion) : Nat := pageAlignUp (freeStart cursor r) / pageSize

def endFrame (r : PhysRegion) : Nat := pageAlignDown r.stop / pageSize

def freeRegion (cursor : Nat) (bitmap : Bitmap) (r : PhysRegion) : Bitmap :=
  if r.type ≠ .usable ∨ r.stop ≤ cursor then bitmap
  else
    let sframe := startFrame cursor r
    let eframe := endFrame r
    if eframe ≤ sframe then bitmap
    else
      let sbyte := sframe / 8
      let ebyte := eframe / 8
      let sbit := sframe % 8
      let ebit := eframe % 8
      if sbyte = ebyte then bitmap.clearBits (8 * sbyte + sbit) (ebit - sbit)
      else
        let bitmap := bitmap.clearBits (8 * sbyte + sbit) (8 - sbit)
        let bitmap := bitmap.clearBits (8 * ebyte) ebit
        bitmap.zeroBytes (sbyte + 1) (ebyte - (sbyte + 1))

/-- `old` is what the frames of the bitmap held before. -/
def pmmInit (old : Bitmap) (early : EarlyPmm) : Int × EarlyPmm × Option Pmm :=
  let size := bitmapSize early.clean
  match earlyPmmAllocContinuousFrames early (bitmapFrames early.clean) with
  | (none, early) => (-eNoMem, early, none)
  | (some base, early) =>
      let bitmap := early.clean.foldl (freeRegion (ealryPmmGetCursor early)) (old.fillBytes size)
      (0, early, some ⟨bitmap, size, base⟩)

def clearBitOf (byte : BitVec 8) : Option Nat := (List.range 8).find? fun b => !Bitmap.masked byte b

def findFrame (p : Pmm) : Option Nat :=
  (List.range p.size).findSome? fun i =>
    if p.bitmap i = 0xff#8 then none else (clearBitOf (p.bitmap i)).map fun b => i * 8 + b

def pmmAllocFrame (p : Pmm) : Option Nat × Pmm :=
  match findFrame p with
  | some frame => (some (frame * pageSize), { p with bitmap := p.bitmap.setBit frame })
  | none => (none, p)

def pmmFreeFrame (p : Pmm) (paddr : Nat) : Exec Pmm :=
  if isPageAligned paddr = false then Exec.panic "pmm_free_frame: trying to free unlaigned addr"
  else
    let frameNo := pageAlignDown paddr / pageSize
    if Bitmap.masked (p.bitmap (frameNo / 8)) (frameNo % 8) = false then
      Exec.panic "pmm_free_frame: trying to free a frame that doesn't exist."
    else .ok { p with bitmap := p.bitmap.clearBit frameNo }

def markTaken (p : Pmm) (pfnStart count : Nat) : Pmm :=
  { p with bitmap := p.bitmap.setBits pfnStart count }

/-- The loop of `check_for_contiguous_frames`: the count left over and the frame it stopped at. -/
def contiguousScan (p : Pmm) : Nat → Nat → Nat × Nat
  | 0, i => (0, i)
  | count + 1, i =>
      if i / 8 < p.size ∧ Bitmap.masked (p.bitmap (i / 8)) (i % 8) = false then
        contiguousScan p count (i + 1)
      else (count + 1, i)

/-- The result and the new values of `*idx` and `*b`. -/
def checkForContiguousFrames (p : Pmm) (count idx b : Nat) : Bool × Nat × Nat :=
  let (left, i) := contiguousScan p count (idx * 8 + b)
  let i := if left ≠ 0 then i + 1 else i
  (left = 0, i / 8, i % 8)

def contiguousLoop (p : Pmm) (count : Nat) : Nat → Nat → Nat → Exec (Option Nat × Pmm)
  | 0, _, _ => .error .outOfFuel
  | fuel + 1, idx, b =>
      if p.size ≤ idx then .ok (none, p)
      else if p.bitmap idx = 0xff#8 then contiguousLoop p count fuel (idx + 1) 0
      else
        match checkForContiguousFrames p count idx b with
        | (true, _, _) => .ok (some ((idx * 8 + b) * pageSize), markTaken p (idx * 8 + b) count)
        | (false, idx, b) => contiguousLoop p count fuel idx b

/-- Every round moves at least one frame forward, which bounds the rounds. -/
def pmmAllocContiguousFrames (p : Pmm) (count : Nat) : Exec (Option Nat × Pmm) :=
  if count = 0 then Exec.panic "pmm_alloc_contiguous_frames: count must be > 0."
  else if count = 1 then .ok (pmmAllocFrame p)
  else contiguousLoop p count (8 * p.size + 1) 0 0

def pmmFreeContiguousFrames (p : Pmm) (paddr count : Nat) : Exec Pmm :=
  if isPageAligned paddr = false then
    Exec.panic "pmm_free_contiguous_frames: paddr not page aligned."
  else .ok { p with bitmap := p.bitmap.clearBits (paddr / pageSize) count }

/-! The region loop. -/

/-- The region loop clears bit `j` for this region. -/
def FreesFrame (cursor : Nat) (r : PhysRegion) (j : Nat) : Prop :=
  r.type = .usable ∧ cursor < r.stop ∧ startFrame cursor r ≤ j ∧ j < endFrame r

instance (cursor : Nat) (r : PhysRegion) (j : Nat) : Decidable (FreesFrame cursor r j) :=
  inferInstanceAs (Decidable (_ ∧ _ ∧ _ ∧ _))

theorem bit_freeRegion (cursor : Nat) (m : Bitmap) (r : PhysRegion) (j : Nat) :
    (freeRegion cursor m r).bit j = (m.bit j && decide (¬ FreesFrame cursor r j)) := by
  have kept (h : ¬ FreesFrame cursor r j) : m.bit j = (m.bit j && decide (¬ FreesFrame cursor r j)) := by
    simp [h]
  unfold freeRegion
  split
  · next skipped =>
      apply kept
      rintro ⟨usable, above, _, _⟩
      rcases skipped with other | below
      · exact other usable
      · omega
  · next usable =>
      have hiff : FreesFrame cursor r j ↔ startFrame cursor r ≤ j ∧ j < endFrame r := by
        unfold FreesFrame
        constructor
        · rintro ⟨_, _, inside⟩
          exact inside
        · intro inside
          exact ⟨by by_contra other; exact usable (Or.inl other), by omega, inside⟩
      dsimp only
      split
      · exact kept (by rw [hiff]; omega)
      · split
        · next sameByte =>
            rw [Bitmap.bit_clearBits]
            congr 2
            apply propext
            rw [hiff]
            omega
        · next otherByte =>
            rw [Bitmap.bit_zeroBytes, Bitmap.bit_clearBits, Bitmap.bit_clearBits,
              Bool.and_assoc, Bool.and_assoc, ← Bool.decide_and, ← Bool.decide_and]
            congr 2
            apply propext
            rw [hiff]
            omega

theorem bit_freeRegions (cursor : Nat) (regions : List PhysRegion) (m : Bitmap) (j : Nat) :
    (regions.foldl (freeRegion cursor) m).bit j =
      (m.bit j && decide (∀ r ∈ regions, ¬ FreesFrame cursor r j)) := by
  induction regions generalizing m with
  | nil => simp
  | cons r rest ih =>
      rw [List.foldl_cons, ih, bit_freeRegion, Bool.and_assoc, ← Bool.decide_and]
      congr 2
      apply propext
      simp

theorem freeStart_eq (cursor : Nat) (r : PhysRegion) :
    freeStart cursor r = max (max minUsablePaddr r.start) cursor := by
  unfold freeStart
  dsimp only
  split <;> split <;> omega

theorem endFrame_eq (r : PhysRegion) : endFrame r = r.stop / pageSize := by
  rw [endFrame, pageAlignDown, Nat.mul_div_cancel _ (by decide)]

theorem startFrame_le {cursor : Nat} {r : PhysRegion} {j : Nat} (hcursor : cursor ≤ 2 ^ 52)
    (hstart : r.start ≤ 2 ^ 52) :
    startFrame cursor r ≤ j ↔ max (max minUsablePaddr r.start) cursor ≤ j * pageSize := by
  have hfree : freeStart cursor r ≤ 2 ^ 52 := by
    rw [freeStart_eq, minUsablePaddr]
    omega
  have spec := pageAlignUp_spec (x := freeStart cursor r) (by simp only [pageSize, word64]; omega)
  have aligned := pageAlignUp_mod (freeStart cursor r)
  rw [startFrame, ← freeStart_eq]
  simp only [pageSize] at *
  omega

theorem freesFrame_iff {cursor : Nat} {r : PhysRegion} {j : Nat} (nonempty : r.start < r.stop)
    (hstop : r.stop ≤ 2 ^ 52) :
    FreesFrame cursor r j ↔ r.type = .usable ∧ max minUsablePaddr cursor ≤ j * pageSize ∧
      r.start ≤ j * pageSize ∧ (j + 1) * pageSize ≤ r.stop := by
  have hend : j < endFrame r ↔ (j + 1) * pageSize ≤ r.stop := by
    rw [endFrame_eq, Nat.lt_iff_add_one_le, Nat.le_div_iff_mul_le (by decide)]
  rw [FreesFrame, hend]
  by_cases hcursor : cursor < r.stop
  · rw [startFrame_le (by omega) (by omega)]
    simp only [pageSize]
    constructor
    · rintro ⟨usable, _, low, high⟩
      exact ⟨usable, by omega, by omega, high⟩
    · rintro ⟨usable, low, start, high⟩
      exact ⟨usable, hcursor, by omega, high⟩
  · simp only [pageSize]
    constructor
    · rintro ⟨_, below, _⟩
      exact absurd below hcursor
    · rintro ⟨_, low, _, high⟩
      omega

/-! Allocation. -/

/-- Frame `i` exists in the bitmap and is free. -/
def Pmm.IsFree (p : Pmm) (i : Nat) : Prop := i < 8 * p.size ∧ p.bitmap.bit i = false

def Pmm.FreeRun (p : Pmm) (base count : Nat) : Prop :=
  ∀ i, base ≤ i → i < base + count → p.IsFree i

/-- The run that a first fit finds. -/
def Pmm.Lowest (p : Pmm) (count base : Nat) : Prop := p.FreeRun base count ∧ ∀ b < base, ¬ p.FreeRun b count

theorem Pmm.Lowest.unique {p : Pmm} {count base base' : Nat} (first : p.Lowest count base)
    (second : p.Lowest count base') : base = base' := by
  rcases Nat.lt_trichotomy base base' with less | same | more
  · exact absurd first.1 (second.2 base less)
  · exact same
  · exact absurd second.1 (first.2 base' more)

theorem clearBitOf_spec (byte : BitVec 8) :
    (∃ b < 8, clearBitOf byte = some b ∧ byte.getLsbD b = false ∧
      ∀ c < b, byte.getLsbD c = true) ∨ (clearBitOf byte = none ∧ byte = 0xff#8) := by
  unfold clearBitOf
  cases found : (List.range 8).find? fun b => !Bitmap.masked byte b with
  | some b =>
      left
      rw [List.find?_range_eq_some] at found
      obtain ⟨clear, inside, before⟩ := found
      have hb := List.mem_range.mp inside
      refine ⟨b, hb, rfl, ?_, ?_⟩
      · simpa [Bitmap.masked_eq byte hb] using clear
      · intro c hc
        simpa [Bitmap.masked_eq byte (hc.trans hb)] using before c hc
  | none =>
      right
      refine ⟨rfl, (Bitmap.eq_full_iff byte).mpr ?_⟩
      intro b hb
      have := List.find?_eq_none.mp found b (List.mem_range.mpr hb)
      simpa [Bitmap.masked_eq byte hb] using this

theorem findSome?_range {β : Type} {f : Nat → Option β} {n : Nat} {b : β}
    (h : (List.range n).findSome? f = some b) : ∃ i < n, f i = some b ∧ ∀ k < i, f k = none := by
  obtain ⟨front, i, back, split, here, before⟩ := List.findSome?_eq_some_iff.mp h
  have sorted := List.pairwise_lt_range (n := n)
  rw [split, List.pairwise_append, List.pairwise_cons] at sorted
  have member : i ∈ List.range n := by simp [split]
  refine ⟨i, List.mem_range.mp member, here, ?_⟩
  intro k hk
  have hkn : k ∈ List.range n := List.mem_range.mpr (hk.trans (List.mem_range.mp member))
  rw [split, List.mem_append, List.mem_cons] at hkn
  rcases hkn with front | rfl | back
  · exact before k front
  · omega
  · have := sorted.2.1.1 k back
    omega

theorem Pmm.isFree_iff (p : Pmm) (i b : Nat) (hb : b < 8) :
    p.IsFree (i * 8 + b) ↔ i < p.size ∧ (p.bitmap i).getLsbD b = false := by
  rw [IsFree, Bitmap.bit, show (i * 8 + b) / 8 = i by omega, show (i * 8 + b) % 8 = b by omega]
  have : i * 8 + b < 8 * p.size ↔ i < p.size := by omega
  rw [this]

theorem Pmm.full_byte {p : Pmm} {i : Nat} (full : p.bitmap i = 0xff#8) {b : Nat} (hb : b < 8) :
    ¬ p.IsFree (i * 8 + b) := by
  rw [isFree_iff p i b hb, (Bitmap.eq_full_iff _).mp full b hb]
  simp

/-- First fit: the frame found is free and no lower frame is. -/
theorem findFrame_spec (p : Pmm) :
    (∃ f, findFrame p = some f ∧ p.IsFree f ∧ ∀ g < f, ¬ p.IsFree g) ∨
      (findFrame p = none ∧ ∀ g, ¬ p.IsFree g) := by
  have none_full {i : Nat} (h : (if p.bitmap i = 0xff#8 then none
      else (clearBitOf (p.bitmap i)).map fun b => i * 8 + b) = none) : p.bitmap i = 0xff#8 := by
    split at h
    · assumption
    · rcases clearBitOf_spec (p.bitmap i) with ⟨b, _, some, _⟩ | ⟨_, full⟩
      · rw [some] at h
        cases h
      · exact full
  have taken {i g : Nat} (hg : g / 8 = i) (full : p.bitmap i = 0xff#8) : ¬ p.IsFree g := by
    have := Pmm.full_byte full (Nat.mod_lt g (y := 8) (by decide))
    rwa [show i * 8 + g % 8 = g by omega] at this
  unfold findFrame
  cases found : (List.range p.size).findSome? _ with
  | some f =>
      obtain ⟨i, hi, here, before⟩ := findSome?_range found
      refine Or.inl ⟨f, rfl, ?_⟩
      split at here
      · cases here
      · rcases clearBitOf_spec (p.bitmap i) with ⟨b, hb, some, clear, lower⟩ | ⟨none, _⟩
        · rw [some, Option.map_some] at here
          obtain rfl := Option.some.inj here
          refine ⟨(p.isFree_iff i b hb).mpr ⟨hi, clear⟩, ?_⟩
          intro g hg free
          by_cases sameByte : g / 8 = i
          · have := (p.isFree_iff i (g % 8) (by omega)).mp (by rwa [show i * 8 + g % 8 = g by omega])
            rw [lower (g % 8) (by omega)] at this
            exact absurd this.2 (by simp)
          · exact taken rfl (none_full (before (g / 8) (by omega))) free
        · rw [none] at here
          cases here
  | none =>
      refine Or.inr ⟨rfl, ?_⟩
      intro g free
      have inside : g / 8 < p.size := by have := free.1; omega
      have := List.findSome?_eq_none_iff.mp found (g / 8) (List.mem_range.mpr inside)
      exact taken rfl (none_full this) free

/-- The scan counts free frames until the run is complete or a frame is in its way. -/
theorem contiguousScan_spec (p : Pmm) (count i : Nat) :
    (contiguousScan p count i).1 ≤ count ∧
      (contiguousScan p count i).2 = i + (count - (contiguousScan p count i).1) ∧
      (∀ k, i ≤ k → k < (contiguousScan p count i).2 → p.IsFree k) ∧
      ((contiguousScan p count i).1 ≠ 0 → ¬ p.IsFree (contiguousScan p count i).2) := by
  induction count generalizing i with
  | zero => exact ⟨le_rfl, rfl, fun k _ _ => by simp only [contiguousScan] at *; omega, by simp [contiguousScan]⟩
  | succ count ih =>
      unfold contiguousScan
      split
      · next free =>
          obtain ⟨le, stop, run, blocked⟩ := ih (i + 1)
          refine ⟨by omega, by omega, ?_, blocked⟩
          intro k hk below
          by_cases first : k = i
          · subst first
            rw [Bitmap.masked_bit] at free
            exact ⟨by omega, free.2⟩
          · exact run k (by omega) below
      · next blocked =>
          refine ⟨le_rfl, by simp, fun k _ _ => by omega, ?_⟩
          intro _ free
          rw [Bitmap.masked_bit] at blocked
          exact blocked ⟨by have := free.1; omega, free.2⟩

/-- What `pmm_alloc_contiguous_frames` does: the lowest free run is marked, or there is none. -/
structure FirstFit (p : Pmm) (count : Nat) (result : Option Nat) (q : Pmm) : Prop where
  found : ∀ a, result = some a → ∃ base, a = base * pageSize ∧ p.FreeRun base count ∧
    (∀ b < base, ¬ p.FreeRun b count) ∧ q = markTaken p base count
  missing : result = none → q = p ∧ ∀ base, ¬ p.FreeRun base count

theorem contiguousLoop_spec {p : Pmm} {count : Nat} (positive : 0 < count) (fuel : Nat) :
    ∀ {idx b : Nat}, b < 8 → 0 < fuel → 8 * p.size < fuel + (idx * 8 + b) →
      (∀ base < idx * 8 + b, ¬ p.FreeRun base count) →
      ∃ result q, contiguousLoop p count fuel idx b = .ok (result, q) ∧ FirstFit p count result q := by
  induction fuel with
  | zero =>
      intro idx b hb some
      omega
  | succ fuel ih =>
      intro idx b hb _ enough below
      simp only [contiguousLoop]
      split
      · refine ⟨none, p, rfl, by simp, fun _ => ⟨rfl, ?_⟩⟩
        intro base run
        by_cases low : base < idx * 8 + b
        · exact below base low run
        · have := (run base le_rfl (by omega)).1
          omega
      · split
        · next full =>
            apply ih (by decide) (by omega) (by omega)
            intro base hbase run
            by_cases low : base < idx * 8 + b
            · exact below base low run
            · have := Pmm.full_byte full (b := base % 8) (Nat.mod_lt _ (by decide))
              rw [show idx * 8 + base % 8 = base by omega] at this
              exact this (run base le_rfl (by omega))
        · obtain ⟨le, stop, run, blocked⟩ := contiguousScan_spec p count (idx * 8 + b)
          simp only [checkForContiguousFrames]
          generalize contiguousScan p count (idx * 8 + b) = scan at *
          obtain ⟨left, last⟩ := scan
          dsimp only at *
          by_cases done : left = 0
          · subst done
            simp only [decide_true]
            refine ⟨_, _, rfl, ?_, by simp⟩
            intro a ha
            refine ⟨idx * 8 + b, (Option.some.inj ha).symm, ?_, below, rfl⟩
            intro i low high
            exact run i low (by omega)
          · simp only [done, decide_false, ne_eq, not_false_eq_true, if_true]
            apply ih (Nat.mod_lt _ (by decide)) (by omega) (by omega)
            intro base hbase free
            by_cases low : base < idx * 8 + b
            · exact below base low free
            · exact blocked done (free last (by omega) (by omega))

theorem pmmAllocFrame_spec (p : Pmm) : FirstFit p 1 (pmmAllocFrame p).1 (pmmAllocFrame p).2 := by
  have single (f : Nat) : p.FreeRun f 1 ↔ p.IsFree f := by
    constructor
    · intro run
      exact run f le_rfl (by omega)
    · intro free i low high
      rwa [show i = f by omega]
  unfold pmmAllocFrame
  rcases findFrame_spec p with ⟨f, some, free, lower⟩ | ⟨none, all⟩
  · rw [some]
    refine ⟨?_, by simp⟩
    intro a ha
    refine ⟨f, (Option.some.inj ha).symm, (single f).mpr free, ?_, rfl⟩
    intro g hg run
    exact lower g hg ((single g).mp run)
  · rw [none]
    refine ⟨by simp, fun _ => ⟨rfl, ?_⟩⟩
    intro base run
    exact all base ((single base).mp run)

/-- Both allocation functions are first fit, and the fuel of the second is always enough. -/
theorem pmmAllocContiguousFrames_spec (p : Pmm) {count : Nat} (positive : 0 < count) :
    ∃ result q, pmmAllocContiguousFrames p count = .ok (result, q) ∧ FirstFit p count result q := by
  unfold pmmAllocContiguousFrames
  rw [if_neg (by omega)]
  split
  · next one =>
      subst one
      exact ⟨_, _, rfl, pmmAllocFrame_spec p⟩
  · exact contiguousLoop_spec positive _ (by decide) (by omega) (by omega) (fun base h => by omega)

/-! Construction from the clean map. -/

theorem earlyPmmGetMaxUsable_le {clean : List PhysRegion} {bound : Nat}
    (bounded : ∀ r ∈ clean, r.stop ≤ bound) : earlyPmmGetMaxUsable clean ≤ bound := by
  unfold earlyPmmGetMaxUsable
  have loop : ∀ (rest : List PhysRegion) (max : Nat), (∀ r ∈ rest, r.stop ≤ bound) → max ≤ bound →
      rest.foldl (fun max r => if r.type ≠ .usable then max else r.stop) max ≤ bound := by
    intro rest
    induction rest with
    | nil => intro max _ le; exact le
    | cons r rest ih =>
        intro max all le
        apply ih _ (fun q member => all q (List.mem_cons_of_mem r member))
        dsimp only
        split
        · exact le
        · exact all r List.mem_cons_self
  exact loop clean 0 bounded (Nat.zero_le bound)

theorem bitmapSize_le {clean : List PhysRegion} (map : CleanMap clean) :
    bitmapSize clean ≤ 2 ^ 38 := by
  have := pageAlignUp_le (earlyPmmGetMaxUsable_le map.bounded) (by decide) (by decide)
  unfold bitmapSize
  simp only [pageSize] at *
  omega

theorem bitmapFrames_le {clean : List PhysRegion} (map : CleanMap clean) :
    pageSize * bitmapFrames clean ≤ 2 ^ 52 := by
  have := pageAlignUp_le (bitmapSize_le map) (by decide) (by decide)
  unfold bitmapFrames
  simp only [pageSize] at *
  omega

/-- The bitmap's own frames join the early ones, and exactly the whole frames of usable regions
at or above the cursor are free. -/
theorem pmmInit_spec {old : Bitmap} {s s' : EarlyPmm} {p : Pmm} {ranges : List FrameRange}
    (inv : EarlyInv s) (out : HandedOut s ranges) (h : pmmInit old s = (0, s', some p)) :
    EarlyInv s' ∧ s'.clean = s.clean ∧ HandedOut s' (⟨p.base, bitmapFrames s.clean⟩ :: ranges) ∧
      p.size = bitmapSize s.clean ∧
      ∀ j, p.IsFree j ↔ j < 8 * p.size ∧ ∃ r ∈ s.clean, r.type = .usable ∧
        max minUsablePaddr s'.cursor ≤ j * pageSize ∧ r.start ≤ j * pageSize ∧
        (j + 1) * pageSize ≤ r.stop := by
  have hbound := bitmapFrames_le inv.map
  have hsize : pageSize * bitmapFrames s.clean % word64 = pageSize * bitmapFrames s.clean :=
    Nat.mod_eq_of_lt (by simp only [word64] at *; omega)
  unfold pmmInit at h
  dsimp only at h
  split at h
  · simp at h
  · next base s1 alloc =>
      simp only [earlyPmmAllocContinuousFrames, hsize] at alloc
      obtain ⟨inv', same, out'⟩ := earlyAllocLoop_handedOut hbound _ inv out alloc
      simp only [Prod.mk.injEq, Option.some.injEq, true_and] at h
      obtain ⟨rfl, rfl⟩ := h
      refine ⟨inv', same, out', rfl, ?_⟩
      intro j
      simp only [Pmm.IsFree]
      apply and_congr_right
      intro inside
      rw [bit_freeRegions, Bitmap.bit_fillBytes inside, Bool.true_and, decide_eq_false_iff_not,
        same]
      simp only [not_forall, not_not, exists_prop]
      apply exists_congr
      intro r
      apply and_congr_right
      intro member
      exact freesFrame_iff (inv.map.nonempty r member) (inv.map.bounded r member)

end SnapOS.Mm
