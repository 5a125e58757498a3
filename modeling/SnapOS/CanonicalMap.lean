/- The sanitized memory map as a function of the types that addresses have: which list it is, when there is no
room for it, and that it does not depend on how the input says what it says. -/
import SnapOS.Lib.Segments
import SnapOS.MemoryMap

namespace SnapOS.Mm
open SnapOS.Lib

/-! The type of an address -/

/-- The type of the first region in input order among those of highest priority that contain the address. -/
def FirstHighest (input : List PhysRegion) (a : Nat) (t : PhysRegionType) : Prop :=
  ∃ pre r post, input = pre ++ r :: post ∧ r.contains a = true ∧ r.type = t ∧
    (∀ q ∈ input, q.contains a = true → regionPriority q.type ≤ regionPriority r.type) ∧
    ∀ q ∈ pre, q.contains a = true → regionPriority q.type < regionPriority r.type

section Types

variable {input : List PhysRegion} {a : Nat} {t : PhysRegionType}

theorem firstHighest_split {pre pre' post post' : List PhysRegion} {r r' : PhysRegion}
    (split : pre ++ r :: post = pre' ++ r' :: post') (first : r ∉ pre') (first' : r' ∉ pre) : r = r' := by
  rcases List.append_eq_append_iff.mp split with ⟨between, rfl, rest⟩ | ⟨between, rfl, rest⟩
  · cases between with
    | nil => exact (List.cons.inj rest).1
    | cons q between =>
        obtain ⟨rfl, _⟩ := List.cons.inj rest
        exact absurd (List.mem_append_right pre List.mem_cons_self) first
  · cases between with
    | nil => exact (List.cons.inj rest).1.symm
    | cons q between =>
        obtain ⟨rfl, _⟩ := List.cons.inj rest
        exact absurd (List.mem_append_right pre' List.mem_cons_self) first'

theorem effectiveType_eq_some : effectiveType input a = some t ↔ FirstHighest input a t := by
  have scan := coverScan_scanned (fun r => r.contains a) input
  simp only [effectiveType]
  constructor
  · intro found
    split at found
    · next covered =>
        obtain ⟨pre, r, post, split, inside, type, priority, before⟩ := scan.first covered
        refine ⟨pre, r, post, split, inside, type.trans (Option.some.inj found), ?_, ?_⟩
        · exact fun q member hit => priority ▸ scan.bounds q member hit
        · exact fun q member hit => priority ▸ before q member hit
    · cases found
  · rintro ⟨pre, r, post, split, inside, rfl, highest, before⟩
    have member : r ∈ input := split ▸ List.mem_append_right pre List.mem_cons_self
    have covered := scan.covered.mpr ⟨r, member, inside⟩
    obtain ⟨pre', r', post', split', inside', type, priority, before'⟩ := scan.first covered
    have bound := scan.bounds r member inside
    have bound' := highest r' (split' ▸ List.mem_append_right pre' List.mem_cons_self) inside'
    have same : r = r' := by
      refine firstHighest_split (split.symm.trans split') (fun earlier => ?_) (fun earlier => ?_)
      · have := before' r earlier inside
        omega
      · have := before r' earlier inside'
        omega
    rw [if_pos covered, same, type]

/-- Any region of another type takes an address from the usable ones. -/
theorem firstHighest_usable : FirstHighest input a .usable ↔
    (∃ r ∈ input, r.contains a = true ∧ r.type = .usable) ∧
      ∀ r ∈ input, r.contains a = true → r.type = .usable := by
  constructor
  · intro found
    have all : ∀ r ∈ input, r.contains a = true → r.type = .usable :=
      fun r => effectiveType_usable (effectiveType_eq_some.mpr found)
    obtain ⟨pre, r, post, rfl, inside, usable, _⟩ := found
    exact ⟨⟨r, List.mem_append_right pre List.mem_cons_self, inside, usable⟩, all⟩
  · rintro ⟨⟨r, member, inside, _⟩, all⟩
    have scan := coverScan_scanned (fun r => r.contains a) input
    have covered := scan.covered.mpr ⟨r, member, inside⟩
    obtain ⟨pre, q, post, split, hit, type, _⟩ := scan.first covered
    refine effectiveType_eq_some.mp ?_
    rw [effectiveType, if_pos covered, ← type]
    exact congrArg some (all q (split ▸ List.mem_append_right pre List.mem_cons_self) hit)

end Types

/-! The map without the limit on its length -/

def mergeStep (input : List PhysRegion) (subStart subEnd : Nat) (out : List PhysRegion) : List PhysRegion :=
  let c := coverScan (fun r => r.start ≤ subStart ∧ subEnd ≤ r.stop) input
  if c.covered then
    match out.getLast? with
    | some last =>
        if last.type = c.bestType ∧ last.stop = subStart then out.dropLast ++ [{ last with stop := subEnd }]
        else out ++ [⟨subStart, subEnd, c.bestType⟩]
    | none => out ++ [⟨subStart, subEnd, c.bestType⟩]
  else out

def mergeLoop (input : List PhysRegion) : List Nat → List PhysRegion → List PhysRegion
  | subStart :: subEnd :: rest, out => mergeLoop input (subEnd :: rest) (mergeStep input subStart subEnd out)
  | _, out => out

/-- The clean map of an input of any length. -/
def mergedMap (input : List PhysRegion) : List PhysRegion := mergeLoop input (boundaries input) []

def outFull : Exec (List PhysRegion) := Exec.panic "pmm_sanitize_memory_map: out full."

section Capacity

variable {input out : List PhysRegion} {outMax : Nat}

theorem length_mergeStep (input out : List PhysRegion) (subStart subEnd : Nat) :
    out.length ≤ (mergeStep input subStart subEnd out).length := by
  simp only [mergeStep]
  split
  · rcases List.eq_nil_or_concat out with rfl | ⟨front, last, rfl⟩
    · simp
    · simp only [List.concat_eq_append, List.getLast?_append, List.getLast?_singleton, Option.some_or,
        List.dropLast_concat]
      split <;> simp
  · exact le_rfl

theorem sanitizeStep_eq (room : out.length ≤ outMax) (subStart subEnd : Nat) :
    sanitizeStep input outMax subStart subEnd out =
      if (mergeStep input subStart subEnd out).length ≤ outMax then .ok (mergeStep input subStart subEnd out)
      else outFull := by
  have append : ∀ r : PhysRegion, (if outMax ≤ out.length then outFull else .ok (out ++ [r])) =
      if (out ++ [r]).length ≤ outMax then .ok (out ++ [r]) else outFull := by
    intro r
    by_cases full : outMax ≤ out.length
    · rw [if_pos full, if_neg (by simp only [List.length_append, List.length_singleton]; omega)]
    · rw [if_neg full, if_pos (by simp only [List.length_append, List.length_singleton]; omega)]
  rcases hc : coverScan (fun r => r.start ≤ subStart ∧ subEnd ≤ r.stop) input with ⟨covered, _, type⟩
  cases covered with
  | true =>
      simp only [sanitizeStep, mergeStep, hc, if_true]
      rcases List.eq_nil_or_concat out with rfl | ⟨front, last, rfl⟩
      · exact append _
      · simp only [List.concat_eq_append, List.getLast?_append, List.getLast?_singleton, Option.some_or,
          List.dropLast_concat] at room append ⊢
        by_cases merges : last.type = type ∧ last.stop = subStart
        · rw [if_pos merges, if_pos merges, if_pos]
          simpa using room
        · rw [if_neg merges, if_neg merges]
          exact append _
  | false =>
      simp only [sanitizeStep, mergeStep, hc, Bool.false_eq_true, if_false]
      exact (if_pos room).symm

theorem length_mergeLoop (input : List PhysRegion) (bs : List Nat) (out : List PhysRegion) :
    out.length ≤ (mergeLoop input bs out).length := by
  induction bs generalizing out with
  | nil => exact le_rfl
  | cons subStart rest ih =>
      cases rest with
      | nil => exact le_rfl
      | cons subEnd rest => exact (length_mergeStep input out subStart subEnd).trans (ih _)

/-- The output only grows, so what does not fit at the end does not fit at some step. -/
theorem sanitizeLoop_eq (bs : List Nat) (room : out.length ≤ outMax) :
    sanitizeLoop input outMax bs out =
      if (mergeLoop input bs out).length ≤ outMax then .ok (mergeLoop input bs out) else outFull := by
  induction bs generalizing out with
  | nil => exact (if_pos room).symm
  | cons subStart rest ih =>
      cases rest with
      | nil => exact (if_pos room).symm
      | cons subEnd rest =>
          have unfolded : mergeLoop input (subStart :: subEnd :: rest) out =
            mergeLoop input (subEnd :: rest) (mergeStep input subStart subEnd out) := rfl
          rw [unfolded, sanitizeLoop, sanitizeStep_eq room]
          by_cases fits : (mergeStep input subStart subEnd out).length ≤ outMax
          · rw [if_pos fits]
            exact ih fits
          · have later := length_mergeLoop input (subEnd :: rest) (mergeStep input subStart subEnd out)
            rw [if_neg fits, if_neg (by omega)]
            rfl

theorem pmmSanitizeMemoryMap_eq (input : List PhysRegion) (outMax : Nat) :
    pmmSanitizeMemoryMap input outMax =
      if (mergedMap input).length ≤ outMax then .ok (mergedMap input) else outFull := by
  rw [pmmSanitizeMemoryMap]
  split
  · next empty =>
      rw [List.length_eq_zero_iff.mp empty]
      exact (if_pos (Nat.zero_le outMax)).symm
  · exact sanitizeLoop_eq (boundaries input) (Nat.zero_le outMax)

theorem mergedMap_sanitized (input : List PhysRegion) : Sanitized input (mergedMap input) := by
  have returned : pmmSanitizeMemoryMap input (mergedMap input).length = .ok (mergedMap input) := by
    rw [pmmSanitizeMemoryMap_eq, if_pos le_rfl]
  exact pmmSanitizeMemoryMap_sanitized returned

end Capacity

/-! Canonical form -/

def PhysRegion.segment (r : PhysRegion) : Segment Nat PhysRegionType := ⟨r.start, r.stop, r.type⟩

theorem PhysRegion.segment_injective : Function.Injective PhysRegion.segment := by
  intro r q same
  cases r
  cases q
  cases same
  rfl

section Canonical

variable {input input' out out' : List PhysRegion}

theorem labels_segments {a : Nat} {t : PhysRegionType} :
    Labels (out.map PhysRegion.segment) a t ↔ ∃ r ∈ out, r.contains a = true ∧ r.type = t := by
  simp only [Labels, List.mem_map, exists_exists_and_eq_and, Segment.Contains, PhysRegion.segment,
    PhysRegion.contains_iff]

/-- A list of regions in order is determined by the types it gives to addresses. -/
theorem regions_ext (nonempty : ∀ r ∈ out, r.start < r.stop) (nonempty' : ∀ r ∈ out', r.start < r.stop)
    (sorted : out.Pairwise fun r q => r.stop ≤ q.start ∧ (r.stop = q.start → r.type ≠ q.type))
    (sorted' : out'.Pairwise fun r q => r.stop ≤ q.start ∧ (r.stop = q.start → r.type ≠ q.type))
    (same : ∀ a t, (∃ r ∈ out, r.contains a = true ∧ r.type = t) ↔ ∃ r ∈ out', r.contains a = true ∧ r.type = t) :
    out = out' := by
  refine List.map_injective_iff.mpr PhysRegion.segment_injective (Merged.ext_labels ?_ ?_ fun a t => ?_)
  · exact ⟨List.forall_mem_map.mpr nonempty, List.pairwise_map.mpr sorted⟩
  · exact ⟨List.forall_mem_map.mpr nonempty', List.pairwise_map.mpr sorted'⟩
  · rw [labels_segments, labels_segments]
    exact same a t

theorem Sanitized.unique (clean : Sanitized input out) (clean' : Sanitized input' out')
    (same : ∀ a, effectiveType input a = effectiveType input' a) : out = out' := by
  refine regions_ext clean.nonempty clean'.nonempty clean.sorted clean'.sorted fun a t => ?_
  rw [clean.exact_type, clean'.exact_type, same]

/-- The output of the sanitizer, described by the input alone. -/
structure ResolvesByPriority (input out : List PhysRegion) : Prop where
  nonempty : ∀ r ∈ out, r.start < r.stop
  sorted : out.Pairwise fun r q => r.stop ≤ q.start ∧ (r.stop = q.start → r.type ≠ q.type)
  pointwise : ∀ a t, (∃ r ∈ out, r.contains a = true ∧ r.type = t) ↔ FirstHighest input a t
  usable : ∀ a, (∃ r ∈ out, r.contains a = true ∧ r.type = .usable) ↔
    (∃ r ∈ input, r.contains a = true ∧ r.type = .usable) ∧ ∀ r ∈ input, r.contains a = true → r.type = .usable

theorem Sanitized.resolves (clean : Sanitized input out) : ResolvesByPriority input out := by
  have pointwise : ∀ a t, (∃ r ∈ out, r.contains a = true ∧ r.type = t) ↔ FirstHighest input a t :=
    fun a t => (clean.exact_type a t).trans effectiveType_eq_some
  exact ⟨clean.nonempty, clean.sorted, pointwise, fun a => (pointwise a .usable).trans firstHighest_usable⟩

/-- There is one map that resolves the overlaps of an input by priority. The sanitizer returns it, and panics if
it has too many regions. -/
theorem pmmSanitizeMemoryMap_resolves (input : List PhysRegion) (outMax : Nat) :
    ∃ out, ResolvesByPriority input out ∧ (∀ out', ResolvesByPriority input out' → out' = out) ∧
      pmmSanitizeMemoryMap input outMax =
        if out.length ≤ outMax then .ok out else Exec.panic "pmm_sanitize_memory_map: out full." := by
  have clean := mergedMap_sanitized input
  refine ⟨mergedMap input, clean.resolves, fun out' other => ?_, pmmSanitizeMemoryMap_eq input outMax⟩
  have types : ∀ a t, (∃ r ∈ out', r.contains a = true ∧ r.type = t) ↔ effectiveType input a = some t :=
    fun a t => (other.pointwise a t).trans effectiveType_eq_some.symm
  exact Sanitized.unique ⟨other.nonempty, other.sorted, types⟩ clean fun _ => rfl

theorem sorted_effectiveType
    (sorted : out.Pairwise fun r q => r.stop ≤ q.start ∧ (r.stop = q.start → r.type ≠ q.type)) (a : Nat)
    (t : PhysRegionType) : (∃ r ∈ out, r.contains a = true ∧ r.type = t) ↔ effectiveType out a = some t := by
  rw [effectiveType_eq_some]
  constructor
  · rintro ⟨r, member, inside, rfl⟩
    obtain ⟨pre, post, rfl⟩ := List.append_of_mem member
    obtain ⟨_, after, before⟩ := List.pairwise_append.mp sorted
    have here := (r.contains_iff a).mp inside
    have notBefore : ∀ q ∈ pre, ¬ q.contains a = true := by
      intro q earlier hit
      have order := (before q earlier r List.mem_cons_self).1
      have there := (q.contains_iff a).mp hit
      omega
    have notAfter : ∀ q ∈ post, ¬ q.contains a = true := by
      intro q later hit
      have order := ((List.pairwise_cons.mp after).1 q later).1
      have there := (q.contains_iff a).mp hit
      omega
    refine ⟨pre, r, post, rfl, inside, rfl, fun q found hit => ?_, fun q earlier hit =>
      absurd hit (notBefore q earlier)⟩
    rcases List.mem_append.mp found with earlier | found
    · exact absurd hit (notBefore q earlier)
    · rcases List.mem_cons.mp found with rfl | later
      · exact le_rfl
      · exact absurd hit (notAfter q later)
  · rintro ⟨pre, r, post, rfl, inside, type, _⟩
    exact ⟨r, List.mem_append_right pre List.mem_cons_self, inside, type⟩

theorem Sanitized.self (clean : Sanitized input out) : Sanitized out out :=
  ⟨clean.nonempty, clean.sorted, sorted_effectiveType clean.sorted⟩

theorem Sanitized.eq_mergedMap (clean : Sanitized input out) : out = mergedMap input :=
  clean.unique (mergedMap_sanitized input) fun _ => rfl

def usableRegions (out : List PhysRegion) : List PhysRegion := out.filter fun r => r.type = .usable

/-- The usable regions are determined by the usable addresses. -/
theorem Sanitized.usableRegions_eq (clean : Sanitized input out) (clean' : Sanitized input' out')
    (perm : input.Perm input') : usableRegions out = usableRegions out' := by
  have within : ∀ {l : List PhysRegion} {a : Nat} {t : PhysRegionType},
      (∃ r ∈ usableRegions l, r.contains a = true ∧ r.type = t) ↔
        t = .usable ∧ ∃ r ∈ l, r.contains a = true ∧ r.type = .usable := by
    intro l a t
    simp only [usableRegions, List.mem_filter, decide_eq_true_eq]
    constructor
    · rintro ⟨r, ⟨member, usable⟩, inside, rfl⟩
      exact ⟨usable, r, member, inside, usable⟩
    · rintro ⟨rfl, r, member, inside, usable⟩
      exact ⟨r, ⟨member, usable⟩, inside, usable⟩
  refine regions_ext (fun r member => clean.nonempty r (List.mem_of_mem_filter member))
    (fun r member => clean'.nonempty r (List.mem_of_mem_filter member)) (clean.sorted.filter _)
    (clean'.sorted.filter _) fun a t => ?_
  rw [within, within, clean.resolves.usable, clean'.resolves.usable]
  simp only [perm.mem_iff]

/-- The output depends on the types of addresses only. -/
theorem pmmSanitizeMemoryMap_canonical :
    (∀ input input' outMax, (∀ a t, FirstHighest input a t ↔ FirstHighest input' a t) →
      pmmSanitizeMemoryMap input outMax = pmmSanitizeMemoryMap input' outMax) ∧
    (∀ input outMax out, pmmSanitizeMemoryMap input outMax = .ok out → pmmSanitizeMemoryMap out outMax = .ok out) ∧
    ∀ input input' outMax out out', input.Perm input' → pmmSanitizeMemoryMap input outMax = .ok out →
      pmmSanitizeMemoryMap input' outMax = .ok out' → usableRegions out = usableRegions out' := by
  refine ⟨fun input input' outMax same => ?_, fun input outMax out returned => ?_, ?_⟩
  · have types : ∀ a, effectiveType input a = effectiveType input' a := by
      intro a
      refine Option.ext fun t => ?_
      rw [effectiveType_eq_some, effectiveType_eq_some]
      exact same a t
    rw [pmmSanitizeMemoryMap_eq, pmmSanitizeMemoryMap_eq,
      (mergedMap_sanitized input).unique (mergedMap_sanitized input') types]
  · have self := (pmmSanitizeMemoryMap_sanitized returned).self.eq_mergedMap
    rw [pmmSanitizeMemoryMap_eq, ← self, if_pos (pmmSanitizeMemoryMap_length returned)]
  · intro input input' outMax out out' perm returned returned'
    exact (pmmSanitizeMemoryMap_sanitized returned).usableRegions_eq (pmmSanitizeMemoryMap_sanitized returned') perm

end Canonical

end SnapOS.Mm
