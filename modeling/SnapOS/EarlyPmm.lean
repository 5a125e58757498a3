/- The bump allocator of mm/early_pmm.c, which serves frames until the bitmap exists. -/
import SnapOS.MemoryMap
import SnapOS.Platform

namespace SnapOS.Mm
open SnapOS.Lib

/-- The globals of the early allocator: the clean map and the static record `pa`. -/
structure EarlyPmm where
  clean : List PhysRegion
  reg : Option PhysRegion
  idx : Nat
  cursor : Nat

def maxU64 (a b : Nat) : Nat := if b < a then a else b

/-- The first usable region with memory above the low megabyte, searched from index `i` on. -/
def paScan : List PhysRegion → Nat → Option (Nat × PhysRegion)
  | [], _ => none
  | r :: rest, i =>
      if r.type ≠ .usable then paScan rest (i + 1)
      else if r.stop ≤ minUsablePaddr then paScan rest (i + 1)
      else some (i, r)

def paNext (s : EarlyPmm) : EarlyPmm :=
  let i := (s.idx + 1) % word64
  match paScan (s.clean.drop i) i with
  | some (i, r) =>
      { s with reg := some r, idx := i, cursor := pageAlignUp (maxU64 minUsablePaddr r.start) }
  | none => { s with reg := none, idx := s.clean.length }

def paInit (s : EarlyPmm) : EarlyPmm := paNext { s with idx := word64 - 1 }

/-- The linker symbol `_kernel_end`, which linker.ld places behind the kernel's virtual base. -/
structure KernelImage where
  kernelEnd : Nat
  above : kernelStartVirtAddr ≤ kernelEnd
  fits : kernelEnd < word64

/-- The region that `early_pmm_init` adds to the firmware map for the kernel itself. -/
def KernelImage.region (k : KernelImage) : PhysRegion where
  start := pageAlignDown kernelStartPhysAddr
  stop := pageAlignUp ((kernelStartPhysAddr + k.kernelEnd + (word64 - kernelStartVirtAddr)) % word64)
  type := .reserved

/-- `map` is what `arch_get_memory_map` stores. The result is the return value and the globals. -/
def earlyPmmInit (k : KernelImage) (map : List PhysRegion) : Exec (Int × EarlyPmm) := do
  let raw := map ++ [k.region]
  let clean ← pmmSanitizeMemoryMap raw physRegionMaxSize
  if raw.length = 0 ∨ clean.length = 0 then .ok (-eInval, ⟨clean, none, 0, 0⟩)
  else
    let s := paInit ⟨clean, none, 0, 0⟩
    if s.reg = none then .ok (-eNoMem, s) else .ok (0, s)

/-- The loop shared by the two early allocation functions; `size` is the size in bytes. Every
round but the last moves `idx` forward, so one round per region and one more are enough. -/
def earlyAllocLoop (size : Nat) : Nat → EarlyPmm → Option Nat × EarlyPmm
  | 0, s => (none, s)
  | fuel + 1, s =>
      match s.reg with
      | none => (none, s)
      | some r =>
          if (s.cursor + size) % word64 ≤ r.stop then
            (some s.cursor, { s with cursor := (s.cursor + size) % word64 })
          else earlyAllocLoop size fuel (paNext s)

def earlyPmmAllocFrame (s : EarlyPmm) : Option Nat × EarlyPmm :=
  earlyAllocLoop pageSize (s.clean.length + 1) s

def earlyPmmAllocContinuousFrames (s : EarlyPmm) (count : Nat) : Option Nat × EarlyPmm :=
  earlyAllocLoop (pageSize * count % word64) (s.clean.length + 1) s

def earlyPmmGetMaxUsable (clean : List PhysRegion) : Nat :=
  clean.foldl (fun max r => if r.type ≠ .usable then max else r.stop) 0

/-- Source `ealry_pmm_get_cursor`. -/
def ealryPmmGetCursor (s : EarlyPmm) : Nat := s.cursor

/-! Ranges of frames and what it means to own one. -/

structure FrameRange where
  start : Nat
  count : Nat
  deriving DecidableEq, Repr

def FrameRange.stop (r : FrameRange) : Nat := r.start + pageSize * r.count

def FrameRange.Apart (r q : FrameRange) : Prop := r.stop ≤ q.start ∨ q.stop ≤ r.start

theorem FrameRange.Apart.symm {r q : FrameRange} (h : r.Apart q) : q.Apart r := Or.symm h

/-- The range is aligned, above the low megabyte, and inside one usable region of the map. -/
structure Owned (clean : List PhysRegion) (r : FrameRange) : Prop where
  aligned : r.start % pageSize = 0
  high : minUsablePaddr ≤ r.start
  inside : ∃ region ∈ clean, region.type = .usable ∧ region.start ≤ r.start ∧ r.stop ≤ region.stop

/-- A clean map whose addresses fit the physical address space. -/
structure CleanMap (clean : List PhysRegion) : Prop where
  nonempty : ∀ r ∈ clean, r.start < r.stop
  bounded : ∀ r ∈ clean, r.stop ≤ 2 ^ 52
  sorted : clean.Pairwise fun r q => r.stop ≤ q.start ∧ (r.stop = q.start → r.type ≠ q.type)

/-- The early allocator stands in a usable region, or has run off the end of the map. -/
structure EarlyInv (s : EarlyPmm) : Prop where
  map : CleanMap s.clean
  aligned : s.cursor % pageSize = 0
  small : s.cursor ≤ 2 ^ 52
  current : ∀ r, s.reg = some r → s.clean[s.idx]? = some r ∧ r.type = .usable ∧
    minUsablePaddr ≤ s.cursor ∧ r.start ≤ s.cursor
  short : s.clean.length < word64

/-- Ranges handed out so far lie below the cursor and below the end of the current region. -/
structure HandedOut (s : EarlyPmm) (ranges : List FrameRange) : Prop where
  apart : ranges.Pairwise FrameRange.Apart
  owned : ∀ r ∈ ranges, Owned s.clean r
  below : ∀ r ∈ ranges, r.stop ≤ s.cursor
  region : ∀ q, s.reg = some q → ∀ r ∈ ranges, r.stop ≤ q.stop

theorem paScan_spec {l : List PhysRegion} {i j : Nat} {r : PhysRegion}
    (h : paScan l i = some (j, r)) :
    i ≤ j ∧ l[j - i]? = some r ∧ r.type = .usable ∧ minUsablePaddr < r.stop := by
  induction l generalizing i with
  | nil => cases h
  | cons q rest ih =>
      have later : paScan rest (i + 1) = some (j, r) →
          i ≤ j ∧ (q :: rest)[j - i]? = some r ∧ r.type = .usable ∧ minUsablePaddr < r.stop := by
        intro found
        obtain ⟨le, place, usable, high⟩ := ih found
        refine ⟨by omega, ?_, usable, high⟩
        rw [show j - i = (j - (i + 1)) + 1 by omega]
        exact place
      simp only [paScan] at h
      split at h
      · exact later h
      · next usable =>
          split at h
          · exact later h
          · next high =>
              cases h
              exact ⟨le_rfl, by simp, by simpa using usable, by omega⟩

theorem maxU64_eq (a b : Nat) : maxU64 a b = max a b := by
  unfold maxU64
  split <;> omega

@[simp] theorem paNext_clean (s : EarlyPmm) : (paNext s).clean = s.clean := by
  unfold paNext
  dsimp only
  split <;> rfl

/-- The start of a region, raised to the low-memory bound and aligned, stays below `2 ^ 52`. -/
theorem regionCursor {clean : List PhysRegion} (map : CleanMap clean) {r : PhysRegion}
    (member : r ∈ clean) :
    pageAlignUp (maxU64 minUsablePaddr r.start) ≤ 2 ^ 52 ∧
      minUsablePaddr ≤ pageAlignUp (maxU64 minUsablePaddr r.start) ∧
      r.start ≤ pageAlignUp (maxU64 minUsablePaddr r.start) := by
  have hne := map.nonempty r member
  have hle := map.bounded r member
  have hmax : maxU64 minUsablePaddr r.start ≤ 2 ^ 52 := by
    rw [maxU64_eq, minUsablePaddr]
    omega
  have hup := pageAlignUp_spec (x := maxU64 minUsablePaddr r.start)
    (by simp only [pageSize, word64]; omega)
  refine ⟨pageAlignUp_le hmax (by decide) (by decide), ?_, ?_⟩
  · rw [maxU64_eq] at *
    omega
  · rw [maxU64_eq] at *
    omega

/-- Advancing to a later region keeps the invariant, whatever index the search starts from. -/
theorem paNext_inv {s : EarlyPmm} (map : CleanMap s.clean) (aligned : s.cursor % pageSize = 0)
    (small : s.cursor ≤ 2 ^ 52) (short : s.clean.length < word64) : EarlyInv (paNext s) := by
  unfold paNext
  dsimp only
  split
  · next i r found =>
      obtain ⟨le, place, usable, _⟩ := paScan_spec found
      rw [List.getElem?_drop, Nat.add_sub_cancel' le] at place
      obtain ⟨bound, high, start⟩ := regionCursor map (List.mem_of_getElem? place)
      refine ⟨map, pageAlignUp_mod _, bound, ?_, short⟩
      intro q hq
      cases hq
      exact ⟨place, usable, high, start⟩
  · exact ⟨map, aligned, small, (fun r h => nomatch h), short⟩

theorem paScan_later {s : EarlyPmm} {q r : PhysRegion} {i : Nat} (inv : EarlyInv s)
    (hq : s.reg = some q) (found : paScan (s.clean.drop (s.idx + 1)) (s.idx + 1) = some (i, r)) :
    s.clean[i]? = some r ∧ q.stop ≤ r.start := by
  obtain ⟨place, _, _, _⟩ := inv.current q hq
  obtain ⟨hidx, hqe⟩ := List.getElem?_eq_some_iff.mp place
  obtain ⟨le, there, _, _⟩ := paScan_spec found
  rw [List.getElem?_drop, Nat.add_sub_cancel' le] at there
  obtain ⟨hi, hr⟩ := List.getElem?_eq_some_iff.mp there
  have order := (List.pairwise_iff_getElem.mp inv.map.sorted s.idx i hidx hi (by omega)).1
  rw [hr, hqe] at order
  exact ⟨there, order⟩

theorem paNext_handedOut {s : EarlyPmm} {ranges : List FrameRange} {q : PhysRegion}
    (inv : EarlyInv s) (out : HandedOut s ranges) (hq : s.reg = some q) :
    HandedOut (paNext s) ranges := by
  have hwrap : (s.idx + 1) % word64 = s.idx + 1 := by
    have hidx := (List.getElem?_eq_some_iff.mp (inv.current q hq).1).1
    have := inv.short
    exact Nat.mod_eq_of_lt (by omega)
  unfold paNext
  dsimp only
  rw [hwrap]
  split
  · next i r found =>
      obtain ⟨there, order⟩ := paScan_later inv hq found
      have member := List.mem_of_getElem? there
      refine ⟨out.apart, out.owned, ?_, ?_⟩
      · intro range old
        exact (out.region q hq range old).trans (order.trans (regionCursor inv.map member).2.2)
      · intro p hp range old
        cases hp
        exact (out.region q hq range old).trans (order.trans (inv.map.nonempty r member).le)
  · exact ⟨out.apart, out.owned, out.below, fun p hp => nomatch hp⟩

/-- Both early allocation functions: a success hands out one more range above all others. -/
theorem earlyAllocLoop_handedOut {count : Nat} (bound : pageSize * count ≤ 2 ^ 52) (fuel : Nat) :
    ∀ {s s' : EarlyPmm} {ranges : List FrameRange} {result : Option Nat}, EarlyInv s →
      HandedOut s ranges → earlyAllocLoop (pageSize * count) fuel s = (result, s') →
      EarlyInv s' ∧ s'.clean = s.clean ∧
        HandedOut s' ((result.map (⟨·, count⟩)).toList ++ ranges) := by
  induction fuel with
  | zero =>
      intro s s' ranges result inv out h
      cases h
      exact ⟨inv, rfl, out⟩
  | succ fuel ih =>
      intro s s' ranges result inv out h
      simp only [earlyAllocLoop] at h
      split at h
      · cases h
        exact ⟨inv, rfl, out⟩
      · next q hq =>
          obtain ⟨place, usable, high, start⟩ := inv.current q hq
          have hmember := List.mem_of_getElem? place
          have hsum : (s.cursor + pageSize * count) % word64 = s.cursor + pageSize * count := by
            have := inv.small
            apply Nat.mod_eq_of_lt
            simp only [word64]
            omega
          rw [hsum] at h
          split at h
          · next fits =>
              cases h
              have hbound := inv.map.bounded q hmember
              have haligned : (s.cursor + pageSize * count) % pageSize = 0 := by
                rw [Nat.add_mul_mod_self_left]
                exact inv.aligned
              refine ⟨⟨inv.map, haligned, by simp only; omega, ?_, inv.short⟩, rfl, ?_⟩
              · intro r hr
                obtain ⟨hp, hu, hh, hs⟩ := inv.current r hr
                exact ⟨hp, hu, by simp only; omega, by simp only; omega⟩
              · have hown : Owned s.clean ⟨s.cursor, count⟩ :=
                  ⟨inv.aligned, high, q, hmember, usable, start, fits⟩
                refine ⟨?_, ?_, ?_, ?_⟩
                · exact List.pairwise_cons.mpr ⟨fun r member => Or.inr (out.below r member), out.apart⟩
                · intro r member
                  rcases List.mem_cons.mp member with rfl | old
                  · exact hown
                  · exact out.owned r old
                · intro r member
                  rcases List.mem_cons.mp member with rfl | old
                  · exact le_rfl
                  · exact (out.below r old).trans (Nat.le_add_right _ _)
                · intro p hp r member
                  rcases List.mem_cons.mp member with rfl | old
                  · have hsame : q = p := Option.some.inj (hq.symm.trans hp)
                    exact hsame ▸ fits
                  · exact out.region p hp r old
          · have next := ih (paNext_inv inv.map inv.aligned inv.small inv.short)
              (paNext_handedOut inv out hq) h
            rwa [paNext_clean] at next

theorem KernelImage.region_stop_le (k : KernelImage) : k.region.stop ≤ 2 ^ 52 := by
  have habove := k.above
  have hfits := k.fits
  apply pageAlignUp_le _ (by decide) (by decide)
  simp only [kernelStartPhysAddr, kernelStartVirtAddr, word64] at *
  omega

theorem Sanitized.bounded {input out : List PhysRegion} (clean : Sanitized input out) {bound : Nat}
    (inputBound : ∀ r ∈ input, r.stop ≤ bound) : ∀ r ∈ out, r.stop ≤ bound := by
  intro r member
  have hne := clean.nonempty r member
  have inside : r.contains (r.stop - 1) = true := (r.contains_iff _).mpr ⟨by omega, by omega⟩
  have typed := (clean.exact_type (r.stop - 1) r.type).mp ⟨r, member, inside, rfl⟩
  by_contra beyond
  rw [effectiveType_outside] at typed
  · cases typed
  · intro q hq
    have := inputBound q hq
    rw [Bool.eq_false_iff, ne_eq, q.contains_iff]
    omega

theorem earlyPmmInit_inv {k : KernelImage} {map : List PhysRegion} {s : EarlyPmm}
    (bounded : ∀ r ∈ map, r.stop ≤ 2 ^ 52) (h : earlyPmmInit k map = .ok (0, s)) :
    Sanitized (map ++ [k.region]) s.clean ∧ EarlyInv s ∧ HandedOut s [] := by
  obtain ⟨clean, sanitize, h⟩ := Exec.bind_eq_ok.mp h
  have sanitized := pmmSanitizeMemoryMap_sanitized sanitize
  have short := pmmSanitizeMemoryMap_length sanitize
  have cleanMap : CleanMap clean := by
    refine ⟨sanitized.nonempty, sanitized.bounded ?_, sanitized.sorted⟩
    intro r member
    rcases List.mem_append.mp member with old | new
    · exact bounded r old
    · rw [List.mem_singleton.mp new]
      exact k.region_stop_le
  have started : EarlyInv (paInit ⟨clean, none, 0, 0⟩) :=
    paNext_inv cleanMap (Nat.zero_mod _) (Nat.zero_le _)
      (by simp only [physRegionMaxSize, word64] at *; omega)
  split at h
  · simp [eInval] at h
  · dsimp only at h
    split at h
    · simp [eNoMem] at h
    · simp only [Except.ok.injEq, Prod.mk.injEq, true_and] at h
      subst h
      refine ⟨?_, started, List.Pairwise.nil, by simp, by simp, by simp⟩
      rw [paInit, paNext_clean]
      exact sanitized

end SnapOS.Mm
