/- The memory map of mm/early_pmm.c: typed regions, their priorities, and the sanitizer that
turns the raw firmware map into a sorted disjoint one. -/
import SnapOS.Lib.Exec
import SnapOS.Lib.Sorting
import Mathlib.Data.Nat.Basic
import Mathlib.Data.Int.Order.Basic
import Mathlib.Data.List.Pairwise

namespace SnapOS.Mm
open SnapOS.Lib

inductive PhysRegionType where
  | usable
  | reserved
  | acpiReclaimable
  | acpiNvs
  | bad
  deriving DecidableEq, Repr

/-- `struct phys_region`; the field `end` of the source is `stop` here. -/
structure PhysRegion where
  start : Nat
  stop : Nat
  type : PhysRegionType
  deriving DecidableEq, Repr

def physRegionMaxSize : Nat := 128

def regionPriority : PhysRegionType → Int
  | .usable => 0
  | .reserved => 1
  | .acpiReclaimable => 1
  | .acpiNvs => 2
  | .bad => 3

def sortU64 (arr : List Nat) : List Nat := selectionSort arr

def endpoints (input : List PhysRegion) : List Nat := input.flatMap fun r => [r.start, r.stop]

def boundaries (input : List PhysRegion) : List Nat := compact (sortU64 (endpoints input))

/-- The locals of the cover search. -/
structure Cover where
  covered : Bool
  bestPriority : Int
  bestType : PhysRegionType

def coverStep (covers : PhysRegion → Bool) (acc : Cover) (r : PhysRegion) : Cover :=
  if covers r then
    if acc.bestPriority < regionPriority r.type then ⟨true, regionPriority r.type, r.type⟩
    else { acc with covered := true }
  else acc

def coverScan (covers : PhysRegion → Bool) (input : List PhysRegion) : Cover :=
  input.foldl (coverStep covers) ⟨false, -1, .usable⟩

/-- One elementary interval: skipped, merged into the last output region, or appended. -/
def sanitizeStep (input : List PhysRegion) (outMax subStart subEnd : Nat)
    (out : List PhysRegion) : Exec (List PhysRegion) :=
  let c := coverScan (fun r => r.start ≤ subStart ∧ subEnd ≤ r.stop) input
  if c.covered then
    match out.getLast? with
    | some last =>
        if last.type = c.bestType ∧ last.stop = subStart then
          .ok (out.dropLast ++ [{ last with stop := subEnd }])
        else if outMax ≤ out.length then Exec.panic "pmm_sanitize_memory_map: out full."
        else .ok (out ++ [⟨subStart, subEnd, c.bestType⟩])
    | none =>
        if outMax ≤ out.length then Exec.panic "pmm_sanitize_memory_map: out full."
        else .ok (out ++ [⟨subStart, subEnd, c.bestType⟩])
  else .ok out

def sanitizeLoop (input : List PhysRegion) (outMax : Nat) :
    List Nat → List PhysRegion → Exec (List PhysRegion)
  | subStart :: subEnd :: rest, out => do
      let out ← sanitizeStep input outMax subStart subEnd out
      sanitizeLoop input outMax (subEnd :: rest) out
  | _, out => .ok out

def pmmSanitizeMemoryMap (input : List PhysRegion) (outMax : Nat) : Exec (List PhysRegion) :=
  if input.length = 0 then .ok [] else sanitizeLoop input outMax (boundaries input) []

def PhysRegion.contains (r : PhysRegion) (a : Nat) : Bool := r.start ≤ a ∧ a < r.stop

/-- The type an address gets from the raw map: that of the first region in input order among
those of highest priority that contain it. -/
def effectiveType (input : List PhysRegion) (a : Nat) : Option PhysRegionType :=
  let c := coverScan (fun r => r.contains a) input
  if c.covered then some c.bestType else none

/-! The scan. Each lemma is about an arbitrary covering test. -/

theorem regionPriority_nonneg (t : PhysRegionType) : 0 ≤ regionPriority t := by
  cases t <;> decide

structure Scanned (covers : PhysRegion → Bool) (seen : List PhysRegion) (c : Cover) : Prop where
  covered : c.covered = true ↔ ∃ r ∈ seen, covers r = true
  bounds : ∀ r ∈ seen, covers r = true → regionPriority r.type ≤ c.bestPriority
  untouched : c.covered = false → c.bestPriority = -1
  first : c.covered = true → ∃ pre r post, seen = pre ++ r :: post ∧ covers r = true ∧
    r.type = c.bestType ∧ regionPriority r.type = c.bestPriority ∧
    ∀ q ∈ pre, covers q = true → regionPriority q.type < c.bestPriority

theorem coverStep_scanned {covers : PhysRegion → Bool} {seen : List PhysRegion} {c : Cover}
    (h : Scanned covers seen c) (r : PhysRegion) :
    Scanned covers (seen ++ [r]) (coverStep covers c r) := by
  unfold coverStep
  by_cases hit : covers r = true
  · rw [if_pos hit]
    by_cases better : c.bestPriority < regionPriority r.type
    · rw [if_pos better]
      refine ⟨iff_of_true rfl ⟨r, by simp, hit⟩, ?_, fun h => by simp at h, ?_⟩
      · intro q member hq
        rcases List.mem_append.mp member with old | new
        · exact (h.bounds q old hq).trans better.le
        · exact le_of_eq (by rw [List.mem_singleton.mp new])
      · intro _
        exact ⟨seen, r, [], rfl, hit, rfl, rfl, fun q old hq => (h.bounds q old hq).trans_lt better⟩
    · rw [if_neg better]
      have hcovered : c.covered = true := by
        by_contra none
        have := h.untouched (by simpa using none)
        have := regionPriority_nonneg r.type
        omega
      refine ⟨iff_of_true rfl ⟨r, by simp, hit⟩, ?_, fun h => by simp at h, ?_⟩
      · intro q member hq
        rcases List.mem_append.mp member with old | new
        · exact h.bounds q old hq
        · rw [List.mem_singleton.mp new]
          exact not_lt.mp better
      · intro _
        obtain ⟨pre, q, post, split, hq, same, prio, before⟩ := h.first hcovered
        exact ⟨pre, q, post ++ [r], by simp [split], hq, same, prio, before⟩
  · rw [if_neg hit]
    refine ⟨?_, ?_, h.untouched, ?_⟩
    · rw [h.covered]
      simp [or_and_right, exists_or, hit]
    · intro q member hq
      rcases List.mem_append.mp member with old | new
      · exact h.bounds q old hq
      · rw [List.mem_singleton.mp new] at hq
        exact absurd hq hit
    · intro hcovered
      obtain ⟨pre, q, post, split, hq, same, prio, before⟩ := h.first hcovered
      exact ⟨pre, q, post ++ [r], by simp [split], hq, same, prio, before⟩

theorem coverScan_scanned (covers : PhysRegion → Bool) (input : List PhysRegion) :
    Scanned covers input (coverScan covers input) := by
  have fold : ∀ (rest seen : List PhysRegion) (c : Cover), Scanned covers seen c →
      Scanned covers (seen ++ rest) (rest.foldl (coverStep covers) c) := by
    intro rest
    induction rest with
    | nil => intro seen c h; simpa using h
    | cons r rest ih =>
        intro seen c h
        have := ih (seen ++ [r]) (coverStep covers c r) (coverStep_scanned h r)
        simpa using this
  exact fold input [] _ ⟨by simp, by simp, fun _ => rfl, by simp⟩

theorem effectiveType_usable {input : List PhysRegion} {a : Nat}
    (h : effectiveType input a = some .usable) {r : PhysRegion} (member : r ∈ input)
    (inside : r.contains a = true) : r.type = .usable := by
  have scan := coverScan_scanned (fun r => r.contains a) input
  unfold effectiveType at h
  dsimp only at h
  split at h
  · next hcovered =>
      obtain ⟨_, q, _, _, _, same, prio, _⟩ := scan.first hcovered
      have hq : q.type = .usable := same.trans (Option.some.inj h)
      have hle := scan.bounds r member inside
      rw [← prio, hq] at hle
      cases htype : r.type <;> rw [htype] at hle <;> first | rfl | exact absurd hle (by decide)
  · cases h

/-! The loop over the elementary intervals. -/

/-- The output so far describes exactly the addresses below the boundary `b`. -/
structure Describes (input out : List PhysRegion) (b : Nat) : Prop where
  nonempty : ∀ r ∈ out, r.start < r.stop
  below : ∀ r ∈ out, r.stop ≤ b
  sorted : out.Pairwise fun r q => r.stop ≤ q.start ∧ (r.stop = q.start → r.type ≠ q.type)
  exact_type : ∀ a < b, ∀ t, (∃ r ∈ out, r.contains a = true ∧ r.type = t) ↔
    effectiveType input a = some t

theorem PhysRegion.contains_iff (r : PhysRegion) (a : Nat) :
    r.contains a = true ↔ r.start ≤ a ∧ a < r.stop := by
  simp [PhysRegion.contains]

/-- No endpoint lies strictly inside an elementary interval, so every region covers all of it
or none of it. -/
theorem effectiveType_elementary {input : List PhysRegion} {subStart subEnd a : Nat}
    (inside : subStart ≤ a ∧ a < subEnd)
    (gap : ∀ r ∈ input, (r.start ≤ subStart ∨ subEnd ≤ r.start) ∧
      (r.stop ≤ subStart ∨ subEnd ≤ r.stop)) :
    effectiveType input a =
      let c := coverScan (fun r => r.start ≤ subStart ∧ subEnd ≤ r.stop) input
      if c.covered then some c.bestType else none := by
  have same : ∀ r ∈ input, (r.contains a) = decide (r.start ≤ subStart ∧ subEnd ≤ r.stop) := by
    intro r member
    obtain ⟨hs, he⟩ := gap r member
    rw [PhysRegion.contains, decide_eq_decide]
    omega
  have scans : coverScan (fun r => r.contains a) input =
      coverScan (fun r => r.start ≤ subStart ∧ subEnd ≤ r.stop) input := by
    apply List.foldl_ext
    intro c r member
    simp only [coverStep, same r member]
  simp only [effectiveType, scans]

theorem Describes.skip {input out : List PhysRegion} {b c : Nat} (h : Describes input out b)
    (le : b ≤ c) (none : ∀ a, b ≤ a → a < c → effectiveType input a = none) :
    Describes input out c := by
  refine ⟨h.nonempty, fun r member => (h.below r member).trans le, h.sorted, ?_⟩
  intro a ha t
  rcases Nat.lt_or_ge a b with low | high
  · exact h.exact_type a low t
  · rw [none a high ha]
    constructor
    · rintro ⟨r, member, inside, _⟩
      have := h.below r member
      have := (r.contains_iff a).mp inside
      omega
    · intro impossible
      cases impossible

theorem Describes.append {input out : List PhysRegion} {b c : Nat} (h : Describes input out b)
    (lt : b < c) {type : PhysRegionType}
    (all : ∀ a, b ≤ a → a < c → effectiveType input a = some type)
    (apart : ∀ r ∈ out, r.stop = b → r.type ≠ type) :
    Describes input (out ++ [⟨b, c, type⟩]) c := by
  refine ⟨?_, ?_, ?_, ?_⟩
  · intro r member
    rcases List.mem_append.mp member with old | new
    · exact h.nonempty r old
    · rw [List.mem_singleton.mp new]
      exact lt
  · intro r member
    rcases List.mem_append.mp member with old | new
    · exact (h.below r old).trans lt.le
    · rw [List.mem_singleton.mp new]
  · rw [List.pairwise_append]
    refine ⟨h.sorted, List.pairwise_singleton _ _, ?_⟩
    intro r old q new
    rw [List.mem_singleton.mp new]
    exact ⟨h.below r old, apart r old⟩
  · intro a ha t
    simp only [List.mem_append, List.mem_singleton, or_and_right, exists_or, exists_eq_left]
    rcases Nat.lt_or_ge a b with low | high
    · rw [← h.exact_type a low t]
      simp only [PhysRegion.contains_iff]
      constructor
      · rintro (old | ⟨inside, _⟩)
        · exact old
        · omega
      · exact Or.inl
    · rw [all a high ha, Option.some.injEq]
      constructor
      · rintro (⟨r, member, inside, _⟩ | ⟨_, same⟩)
        · have := h.below r member
          have := (r.contains_iff a).mp inside
          omega
        · exact same
      · intro same
        exact Or.inr ⟨(PhysRegion.contains_iff _ _).mpr ⟨high, ha⟩, same⟩

/-- Extending the last region is the same as describing the region before the merge. -/
theorem Describes.extend {input front : List PhysRegion} {last : PhysRegion} {c : Nat}
    (h : Describes input (front ++ [last]) last.stop) (lt : last.stop < c)
    (all : ∀ a, last.stop ≤ a → a < c → effectiveType input a = some last.type) :
    Describes input (front ++ [{ last with stop := c }]) c := by
  have hlast := h.nonempty last (by simp)
  obtain ⟨hfront, _, hcross⟩ := List.pairwise_append.mp h.sorted
  refine ⟨?_, ?_, ?_, ?_⟩
  · intro r member
    rcases List.mem_append.mp member with old | new
    · exact h.nonempty r (by simp [old])
    · rw [List.mem_singleton.mp new]
      exact hlast.trans lt
  · intro r member
    rcases List.mem_append.mp member with old | new
    · exact (h.below r (by simp [old])).trans lt.le
    · rw [List.mem_singleton.mp new]
  · rw [List.pairwise_append]
    refine ⟨hfront, List.pairwise_singleton _ _, ?_⟩
    intro r old q new
    rw [List.mem_singleton.mp new]
    exact hcross r old last (by simp)
  · intro a ha t
    simp only [List.mem_append, List.mem_singleton, or_and_right, exists_or, exists_eq_left]
    rcases Nat.lt_or_ge a last.stop with low | high
    · rw [← h.exact_type a low t]
      simp only [List.mem_append, List.mem_singleton, or_and_right, exists_or, exists_eq_left,
        PhysRegion.contains_iff]
      constructor
      · rintro (old | ⟨inside, same⟩)
        · exact Or.inl old
        · exact Or.inr ⟨⟨inside.1, low⟩, same⟩
      · rintro (old | ⟨inside, same⟩)
        · exact Or.inl old
        · exact Or.inr ⟨⟨inside.1, ha⟩, same⟩
    · rw [all a high ha, Option.some.injEq]
      constructor
      · rintro (⟨r, member, inside, _⟩ | ⟨_, same⟩)
        · have := h.below r (by simp [member])
          have := (r.contains_iff a).mp inside
          omega
        · exact same
      · intro same
        exact Or.inr ⟨(PhysRegion.contains_iff _ _).mpr ⟨hlast.le.trans high, ha⟩, same⟩

theorem sanitizeStep_describes {input out out' : List PhysRegion} {outMax subStart subEnd : Nat}
    (h : Describes input out subStart) (lt : subStart < subEnd)
    (gap : ∀ r ∈ input, (r.start ≤ subStart ∨ subEnd ≤ r.start) ∧
      (r.stop ≤ subStart ∨ subEnd ≤ r.stop))
    (step : sanitizeStep input outMax subStart subEnd out = .ok out') :
    Describes input out' subEnd := by
  have types : ∀ a, subStart ≤ a → a < subEnd → effectiveType input a = _ :=
    fun a low high => effectiveType_elementary ⟨low, high⟩ gap
  unfold sanitizeStep at step
  generalize coverScan (fun r => r.start ≤ subStart ∧ subEnd ≤ r.stop) input = c at step types
  dsimp only at step types
  by_cases hcovered : c.covered = true
  · simp only [hcovered, if_true] at step types
    rcases List.eq_nil_or_concat out with rfl | ⟨front, last, rfl⟩
    · simp only [List.getLast?_nil] at step
      split at step
      · cases step
      · cases step
        exact h.append lt types (fun r member => nomatch member)
    · simp only [List.concat_eq_append, List.getLast?_append, List.getLast?_singleton,
        Option.some_or, List.dropLast_concat] at step h
      split at step
      · next merge =>
          cases step
          obtain ⟨htype, rfl⟩ := merge
          exact h.extend lt (by rw [htype]; exact types)
      · next apart =>
          split at step
          · cases step
          · cases step
            apply h.append lt types
            intro r member hstop htype
            rcases List.mem_append.mp member with old | new
            · have hcross := (List.pairwise_append.mp h.sorted).2.2 r old last (by simp)
              have hlast := h.nonempty last (by simp)
              have hbelow := h.below last (by simp)
              omega
            · rw [List.mem_singleton.mp new] at hstop htype
              exact apart ⟨htype, hstop⟩
  · simp only [hcovered, Bool.false_eq_true, if_false] at step types
    cases step
    exact h.skip lt.le types

theorem sanitizeLoop_describes {input : List PhysRegion} {outMax : Nat} (rest : List Nat) :
    ∀ {b : Nat} {out final : List PhysRegion}, (b :: rest).Pairwise (· < ·) →
      (∀ r ∈ input, (r.start ≤ b ∨ r.start ∈ rest) ∧ (r.stop ≤ b ∨ r.stop ∈ rest)) →
      Describes input out b → sanitizeLoop input outMax (b :: rest) out = .ok final →
      Describes input final ((b :: rest).getLast (by simp)) := by
  induction rest with
  | nil =>
      intro b out final _ _ h loop
      cases loop
      exact h
  | cons e rest ih =>
      intro b out final increasing ends h loop
      obtain ⟨out', first, later⟩ := Exec.bind_eq_ok.mp loop
      have hbe : b < e := (List.pairwise_cons.mp increasing).1 e (by simp)
      have hrest := (List.pairwise_cons.mp increasing).2
      have atLeast : ∀ x, x ∈ e :: rest → e ≤ x := by
        intro x member
        rcases List.mem_cons.mp member with rfl | later
        · exact le_rfl
        · exact ((List.pairwise_cons.mp hrest).1 x later).le
      have gap : ∀ r ∈ input, (r.start ≤ b ∨ e ≤ r.start) ∧ (r.stop ≤ b ∨ e ≤ r.stop) :=
        fun r member => ⟨(ends r member).1.imp_right (atLeast _), (ends r member).2.imp_right (atLeast _)⟩
      have next : ∀ x, (x ≤ b ∨ x ∈ e :: rest) → (x ≤ e ∨ x ∈ rest) := by
        intro x place
        rcases place with low | member
        · exact Or.inl (low.trans hbe.le)
        · exact (List.mem_cons.mp member).imp_left le_of_eq
      rw [List.getLast_cons (by simp)]
      exact ih hrest (fun r member => ⟨next _ (ends r member).1, next _ (ends r member).2⟩)
        (sanitizeStep_describes h hbe gap first) later

/-- The clean map: nonempty regions in order, disjoint and merged, that give every address
exactly its effective type. -/
structure Sanitized (input out : List PhysRegion) : Prop where
  nonempty : ∀ r ∈ out, r.start < r.stop
  sorted : out.Pairwise fun r q => r.stop ≤ q.start ∧ (r.stop = q.start → r.type ≠ q.type)
  exact_type : ∀ a t, (∃ r ∈ out, r.contains a = true ∧ r.type = t) ↔
    effectiveType input a = some t

theorem mem_boundaries {input : List PhysRegion} (x : Nat) :
    x ∈ boundaries input ↔ ∃ r ∈ input, x = r.start ∨ x = r.stop := by
  rw [boundaries, sortU64, mem_compact (selectionSort_sorted _), (selectionSort_perm _).mem_iff]
  simp [endpoints]

theorem effectiveType_outside {input : List PhysRegion} {a : Nat}
    (outside : ∀ r ∈ input, r.contains a = false) : effectiveType input a = none := by
  have scan := coverScan_scanned (fun r => r.contains a) input
  unfold effectiveType
  dsimp only
  split
  · next hcovered =>
      obtain ⟨r, member, inside⟩ := scan.covered.mp hcovered
      rw [outside r member] at inside
      cases inside
  · rfl

theorem pmmSanitizeMemoryMap_sanitized {input out : List PhysRegion} {outMax : Nat}
    (h : pmmSanitizeMemoryMap input outMax = .ok out) : Sanitized input out := by
  unfold pmmSanitizeMemoryMap at h
  split at h
  · next empty =>
      rw [List.length_eq_zero_iff.mp empty]
      cases h
      exact ⟨by simp, List.Pairwise.nil, fun a t => by simp [effectiveType, coverScan]⟩
  · next nonempty =>
      obtain ⟨r, rest, rfl⟩ := List.exists_cons_of_ne_nil
        (fun hnil => nonempty (List.length_eq_zero_iff.mpr hnil))
      generalize hinput : r :: rest = input at h
      have hmember : r.start ∈ boundaries input :=
        (mem_boundaries _).mpr ⟨r, by simp [← hinput], Or.inl rfl⟩
      have increasing : (boundaries input).Pairwise (· < ·) := compact_strict (selectionSort_sorted _)
      obtain ⟨b, bs, hb⟩ := List.exists_cons_of_ne_nil (List.ne_nil_of_mem hmember)
      have place : ∀ x, x ∈ boundaries input → b ≤ x := by
        intro x member
        rw [hb] at member increasing
        rcases List.mem_cons.mp member with rfl | later
        · exact le_rfl
        · exact ((List.pairwise_cons.mp increasing).1 x later).le
      have ends : ∀ q ∈ input, q.start ∈ boundaries input ∧ q.stop ∈ boundaries input :=
        fun q member => ⟨(mem_boundaries _).mpr ⟨q, member, Or.inl rfl⟩,
          (mem_boundaries _).mpr ⟨q, member, Or.inr rfl⟩⟩
      have start : Describes input [] b := by
        refine ⟨by simp, by simp, List.Pairwise.nil, fun a ha t => ?_⟩
        rw [effectiveType_outside]
        · simp
        · intro q member
          have := place _ (ends q member).1
          simp only [PhysRegion.contains, decide_eq_false_iff_not]
          omega
      have first : ∀ x, x ∈ boundaries input → x ≤ b ∨ x ∈ bs := by
        intro x member
        rw [hb] at member
        exact (List.mem_cons.mp member).imp_left le_of_eq
      rw [hb] at h increasing
      have final := sanitizeLoop_describes bs increasing
        (fun q member => ⟨first _ (ends q member).1, first _ (ends q member).2⟩) start h
      refine ⟨final.nonempty, final.sorted, fun a t => ?_⟩
      rcases Nat.lt_or_ge a ((b :: bs).getLast (by simp)) with low | high
      · exact final.exact_type a low t
      · have top : ∀ x ∈ boundaries input, x ≤ (b :: bs).getLast (by simp) := by
          intro x member
          rw [hb] at member
          exact (increasing.imp le_of_lt).rel_getLast_of_rel_getLast_getLast member le_rfl
        rw [effectiveType_outside]
        · constructor
          · rintro ⟨q, member, inside, _⟩
            have := final.below q member
            have := (q.contains_iff a).mp inside
            omega
          · intro impossible
            cases impossible
        · intro q member
          have := top _ (ends q member).2
          simp only [PhysRegion.contains, decide_eq_false_iff_not]
          omega

theorem sanitizeStep_length {input out out' : List PhysRegion} {outMax subStart subEnd : Nat}
    (h : out.length ≤ outMax) (step : sanitizeStep input outMax subStart subEnd out = .ok out') :
    out'.length ≤ outMax := by
  unfold sanitizeStep at step
  dsimp only at step
  split at step
  · rcases List.eq_nil_or_concat out with rfl | ⟨front, last, rfl⟩
    · simp only [List.getLast?_nil] at step
      split at step
      · cases step
      · cases step
        simp only [List.nil_append, List.length_singleton, List.length_nil] at *
        omega
    · simp only [List.concat_eq_append, List.getLast?_append, List.getLast?_singleton,
        Option.some_or, List.dropLast_concat] at step h
      split at step
      · cases step
        simpa using h
      · split at step
        · cases step
        · cases step
          simp only [List.length_append, List.length_singleton] at *
          omega
  · cases step
    exact h

theorem pmmSanitizeMemoryMap_length {input out : List PhysRegion} {outMax : Nat}
    (h : pmmSanitizeMemoryMap input outMax = .ok out) : out.length ≤ outMax := by
  have loop : ∀ (bs : List Nat) (out final : List PhysRegion), out.length ≤ outMax →
      sanitizeLoop input outMax bs out = .ok final → final.length ≤ outMax := by
    intro bs
    induction bs with
    | nil => intro out final le h; cases h; exact le
    | cons b rest ih =>
        intro out final le h
        cases rest with
        | nil => cases h; exact le
        | cons e rest =>
            obtain ⟨out', first, later⟩ := Exec.bind_eq_ok.mp h
            exact ih out' final (sanitizeStep_length le first) later
  unfold pmmSanitizeMemoryMap at h
  split at h
  · cases h
    exact Nat.zero_le outMax
  · exact loop _ [] out (Nat.zero_le outMax) h

end SnapOS.Mm
