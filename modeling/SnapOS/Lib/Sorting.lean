/- Selection sort and in-place removal of repeated entries, both by index on an array. -/
import Mathlib.Order.Lattice
import Mathlib.Order.Defs.LinearOrder
import Mathlib.Data.List.Basic
import Mathlib.Data.List.GetD

namespace SnapOS.Lib

variable {α : Type*} [LinearOrder α] [Inhabited α]

/-- The scan for the least entry from `i` on; among equal entries it keeps the first. -/
def minIdx (arr : List α) (i n : Nat) : Nat :=
  (List.range' (i + 1) (n - (i + 1))).foldl
    (fun m j => if arr.getD m default ≤ arr.getD j default then m else j) i

def selectStep (n : Nat) (arr : List α) (i : Nat) : List α :=
  let m := minIdx arr i n
  if m ≠ i then (arr.set i (arr.getD m default)).set m (arr.getD i default) else arr

def selectionSort (arr : List α) : List α :=
  (List.range arr.length).foldl (selectStep arr.length) arr

omit [LinearOrder α] in
theorem getD_set {arr : List α} {i j : Nat} {v : α} :
    (arr.set i v).getD j default = if i = j ∧ j < arr.length then v else arr.getD j default := by
  simp only [List.getD_eq_getElem?_getD, List.getElem?_set]
  by_cases same : i = j
  · subst same
    by_cases inside : i < arr.length <;> simp [inside]
  · simp [same]

private theorem minFold_spec (arr : List α) (js : List Nat) (m : Nat) :
    let r := js.foldl (fun m j => if arr.getD m default ≤ arr.getD j default then m else j) m
    (r = m ∨ r ∈ js) ∧ arr.getD r default ≤ arr.getD m default ∧
      ∀ j ∈ js, arr.getD r default ≤ arr.getD j default := by
  induction js generalizing m with
  | nil => exact ⟨Or.inl rfl, le_rfl, fun _ h => nomatch h⟩
  | cons j js ih =>
      simp only [List.foldl_cons]
      by_cases keep : arr.getD m default ≤ arr.getD j default
      · simp only [keep, if_true]
        obtain ⟨place, least, all⟩ := ih m
        refine ⟨place.imp_right (List.mem_cons_of_mem j), least, ?_⟩
        intro k member
        rcases List.mem_cons.mp member with rfl | later
        · exact least.trans keep
        · exact all k later
      · simp only [keep, if_false]
        obtain ⟨place, least, all⟩ := ih j
        refine ⟨Or.inr ?_, least.trans (le_of_not_ge keep), ?_⟩
        · rcases place with same | later
          · rw [same]
            exact List.mem_cons_self
          · exact List.mem_cons_of_mem j later
        · intro k member
          rcases List.mem_cons.mp member with rfl | later
          · exact least
          · exact all k later

theorem minIdx_spec (arr : List α) {i n : Nat} (hi : i < n) :
    i ≤ minIdx arr i n ∧ minIdx arr i n < n ∧
      ∀ j, i ≤ j → j < n → arr.getD (minIdx arr i n) default ≤ arr.getD j default := by
  obtain ⟨place, least, all⟩ := minFold_spec arr (List.range' (i + 1) (n - (i + 1))) i
  change minIdx arr i n = i ∨ minIdx arr i n ∈ _ at place
  change arr.getD (minIdx arr i n) default ≤ _ at least
  refine ⟨?_, ?_, ?_⟩
  · rcases place with same | member
    · omega
    · have := List.mem_range'_1.mp member
      omega
  · rcases place with same | member
    · omega
    · have := List.mem_range'_1.mp member
      omega
  · intro j lower upper
    rcases Nat.eq_or_lt_of_le lower with rfl | above
    · exact least
    · exact all j (List.mem_range'_1.mpr ⟨above, by omega⟩)

theorem selectStep_perm (arr : List α) {i : Nat} (hi : i < arr.length) :
    (selectStep arr.length arr i).Perm arr := by
  obtain ⟨_, upper, _⟩ := minIdx_spec arr hi
  unfold selectStep
  dsimp only
  split
  · rw [List.getD_eq_getElem _ _ upper, List.getD_eq_getElem _ _ hi]
    exact List.set_set_perm hi upper
  · exact List.Perm.refl arr

/-- Entry `i` is in its final place after step `i`, and the entries before it have not moved. -/
def SortedBelow (arr : List α) (i : Nat) : Prop :=
  ∀ a b, a < i → a < b → b < arr.length → arr.getD a default ≤ arr.getD b default

theorem selectStep_sortedBelow {arr : List α} {i : Nat} (hi : i < arr.length)
    (h : SortedBelow arr i) : SortedBelow (selectStep arr.length arr i) (i + 1) := by
  obtain ⟨lower, upper, least⟩ := minIdx_spec arr hi
  have hlen := (selectStep_perm arr hi).length_eq
  intro a b ha hab hb
  rw [hlen] at hb
  unfold selectStep
  dsimp only
  split
  · next moved =>
      simp only [getD_set, List.length_set]
      have hai : a = i ∨ a < i := by omega
      rcases hai with rfl | before
      · rw [if_neg (by omega), if_pos ⟨rfl, hi⟩]
        by_cases swapped : minIdx arr a arr.length = b
        · rw [if_pos ⟨swapped, hb⟩]
          exact least a (Nat.le_refl a) hi
        · rw [if_neg (by omega), if_neg (by omega)]
          exact least b (by omega) hb
      · rw [if_neg (by omega), if_neg (by omega)]
        by_cases swapped : minIdx arr i arr.length = b
        · rw [if_pos ⟨swapped, hb⟩]
          exact h a i before before hi
        · rw [if_neg (by omega)]
          by_cases target : i = b
          · rw [if_pos ⟨target, hb⟩]
            exact h a _ before (by omega) upper
          · rw [if_neg (by omega)]
            exact h a b before hab hb
  · next stays =>
      have hai : a = i ∨ a < i := by omega
      rcases hai with rfl | before
      · have same : minIdx arr a arr.length = a := by simpa using stays
        have := least b (by omega) hb
        rwa [same] at this
      · exact h a b before hab hb

private theorem selectFold_spec (arr : List α) (n : Nat) (hn : n ≤ arr.length) :
    ((List.range n).foldl (selectStep arr.length) arr).Perm arr ∧
      SortedBelow ((List.range n).foldl (selectStep arr.length) arr) n := by
  induction n with
  | zero => exact ⟨List.Perm.refl arr, fun a b ha => absurd ha (Nat.not_lt_zero a)⟩
  | succ n ih =>
      obtain ⟨perm, sorted⟩ := ih (by omega)
      rw [List.range_succ, List.foldl_append, List.foldl_cons, List.foldl_nil]
      generalize (List.range n).foldl (selectStep arr.length) arr = mid at perm sorted ⊢
      have hlen := perm.length_eq
      rw [← hlen]
      have hmid : n < mid.length := by omega
      exact ⟨(selectStep_perm mid hmid).trans perm, selectStep_sortedBelow hmid sorted⟩

theorem selectionSort_perm (arr : List α) : (selectionSort arr).Perm arr :=
  (selectFold_spec arr arr.length (Nat.le_refl _)).1

theorem selectionSort_sorted (arr : List α) : (selectionSort arr).Pairwise (· ≤ ·) := by
  obtain ⟨perm, sorted⟩ := selectFold_spec arr arr.length (Nat.le_refl _)
  change (selectionSort arr).Perm arr at perm
  change SortedBelow (selectionSort arr) arr.length at sorted
  rw [List.pairwise_iff_getElem]
  intro a b ha hb hab
  have := sorted a b (by rw [← perm.length_eq]; exact ha) hab hb
  rwa [List.getD_eq_getElem _ _ ha, List.getD_eq_getElem _ _ hb] at this

/-- One step of the compaction `if (i == 0 || b[i] != b[nu - 1]) b[nu++] = b[i]`. -/
def compactStep (s : List α × Nat) (i : Nat) : List α × Nat :=
  if i = 0 ∨ s.1.getD i default ≠ s.1.getD (s.2 - 1) default then
    (s.1.set s.2 (s.1.getD i default), s.2 + 1)
  else s

/-- The entries kept by the compaction, which reads ahead of the cells it overwrites. -/
def compact (arr : List α) : List α :=
  let s := (List.range arr.length).foldl compactStep (arr, 0)
  s.1.take s.2

/-- What the first `i` steps leave: a kept part without repetition, and the rest untouched. -/
private structure Compacted (arr : List α) (i : Nat) (s : List α × Nat) : Prop where
  length : s.1.length = arr.length
  kept_le : s.2 ≤ i
  kept_pos : 0 < i → 0 < s.2
  rest : ∀ j, i ≤ j → s.1.getD j default = arr.getD j default
  last : 0 < i → s.1.getD (s.2 - 1) default = arr.getD (i - 1) default
  increasing : ∀ a b, a < b → b < s.2 → s.1.getD a default < s.1.getD b default
  sound : ∀ a, a < s.2 → ∃ j < i, s.1.getD a default = arr.getD j default
  complete : ∀ j < i, ∃ a < s.2, s.1.getD a default = arr.getD j default

section Compacting

variable {arr : List α} {i : Nat} {s : List α × Nat}

private theorem Compacted.kept_lt (h : Compacted arr i s) (positive : 0 < i)
    (next : arr.getD (i - 1) default < arr.getD i default) {a : Nat} (ha : a < s.2) :
    s.1.getD a default < arr.getD i default := by
  refine lt_of_le_of_lt ?_ next
  rw [← h.last positive]
  rcases Nat.lt_or_ge a (s.2 - 1) with below | top
  · exact (h.increasing a (s.2 - 1) below (by omega)).le
  · rw [show a = s.2 - 1 by omega]

private theorem Compacted.keep (h : Compacted arr i s) (hi : i < arr.length)
    (fresh : 0 < i → arr.getD (i - 1) default < arr.getD i default) :
    Compacted arr (i + 1) (s.1.set s.2 (s.1.getD i default), s.2 + 1) := by
  have hkept := h.kept_le
  have hlen := h.length
  have hwrite : ∀ a, (s.1.set s.2 (s.1.getD i default)).getD a default =
      if s.2 = a then arr.getD i default else s.1.getD a default := by
    intro a
    rw [getD_set, h.rest i (Nat.le_refl i)]
    by_cases here : s.2 = a
    · rw [if_pos here, if_pos ⟨here, by omega⟩]
    · rw [if_neg here, if_neg (by tauto)]
  refine ⟨by simpa using hlen, by simp only; omega, fun _ => Nat.succ_pos _, ?_, ?_, ?_, ?_, ?_⟩
  · intro j hj
    rw [hwrite, if_neg (by omega)]
    exact h.rest j (by omega)
  · intro _
    simp only [Nat.add_sub_cancel]
    rw [hwrite, if_pos rfl]
  · intro a b hab hb
    simp only at hb
    rw [hwrite, hwrite, if_neg (by omega)]
    by_cases top : s.2 = b
    · have positive : 0 < i := by omega
      rw [if_pos top]
      exact h.kept_lt positive (fresh positive) (by omega)
    · rw [if_neg top]
      exact h.increasing a b hab (by omega)
  · intro a ha
    simp only at ha
    rw [hwrite]
    by_cases top : s.2 = a
    · rw [if_pos top]
      exact ⟨i, by omega, rfl⟩
    · rw [if_neg top]
      obtain ⟨j, hj, same⟩ := h.sound a (by omega)
      exact ⟨j, by omega, same⟩
  · intro j hj
    have hcase : j = i ∨ j < i := by omega
    rcases hcase with rfl | before
    · exact ⟨s.2, by simp, by rw [hwrite, if_pos rfl]⟩
    · obtain ⟨a, ha, same⟩ := h.complete j before
      exact ⟨a, by simp only; omega, by rw [hwrite, if_neg (by omega), same]⟩

private theorem Compacted.skip (h : Compacted arr i s) (positive : 0 < i)
    (same : arr.getD i default = arr.getD (i - 1) default) : Compacted arr (i + 1) s := by
  refine ⟨h.length, Nat.le_succ_of_le h.kept_le, fun _ => h.kept_pos positive, fun j hj => h.rest j (by omega), ?_,
    h.increasing, ?_, ?_⟩
  · intro _
    rw [h.last positive, Nat.add_sub_cancel, same]
  · intro a ha
    obtain ⟨j, hj, found⟩ := h.sound a ha
    exact ⟨j, by omega, found⟩
  · intro j hj
    have hcase : j = i ∨ j < i := by omega
    rcases hcase with rfl | before
    · rw [same]
      exact h.complete (j - 1) (by omega)
    · exact h.complete j before

private theorem compactStep_spec (sorted : arr.Pairwise (· ≤ ·)) (hi : i < arr.length) (h : Compacted arr i s) :
    Compacted arr (i + 1) (compactStep s i) := by
  have hrest := h.rest i (Nat.le_refl i)
  unfold compactStep
  by_cases fresh : i = 0 ∨ s.1.getD i default ≠ s.1.getD (s.2 - 1) default
  · rw [if_pos fresh]
    refine h.keep hi fun positive => lt_of_le_of_ne ?_ ?_
    · rw [List.getD_eq_getElem _ _ (by omega), List.getD_eq_getElem _ _ hi]
      exact List.pairwise_iff_getElem.mp sorted (i - 1) i (by omega) hi (by omega)
    · have differ := fresh.resolve_left (Nat.ne_of_gt positive)
      rw [hrest, h.last positive] at differ
      exact differ.symm
  · rw [if_neg fresh]
    rw [not_or, not_not] at fresh
    have positive := Nat.pos_of_ne_zero fresh.1
    refine h.skip positive ?_
    rw [← hrest, fresh.2, h.last positive]

end Compacting

private theorem compactFold_spec {arr : List α} (sorted : arr.Pairwise (· ≤ ·)) (n : Nat)
    (hn : n ≤ arr.length) : Compacted arr n ((List.range n).foldl compactStep (arr, 0)) := by
  induction n with
  | zero => exact ⟨rfl, Nat.le_refl 0, by omega, fun _ _ => rfl, by omega, by simp, by simp, by simp⟩
  | succ n ih =>
      rw [List.range_succ, List.foldl_append, List.foldl_cons, List.foldl_nil]
      exact compactStep_spec sorted (by omega) (ih (by omega))

theorem compact_strict {arr : List α} (sorted : arr.Pairwise (· ≤ ·)) :
    (compact arr).Pairwise (· < ·) := by
  have h := compactFold_spec sorted arr.length (Nat.le_refl _)
  have hkept := h.kept_le
  have hlen := h.length
  unfold compact
  rw [List.pairwise_iff_getElem]
  intro a b ha hb hab
  simp only [List.length_take] at ha hb
  have := h.increasing a b hab (by omega)
  rw [List.getD_eq_getElem _ _ (by omega), List.getD_eq_getElem _ _ (by omega)] at this
  simpa only [List.getElem_take] using this

theorem mem_compact {arr : List α} (sorted : arr.Pairwise (· ≤ ·)) (x : α) :
    x ∈ compact arr ↔ x ∈ arr := by
  have h := compactFold_spec sorted arr.length (Nat.le_refl _)
  have hkept := h.kept_le
  have hlen := h.length
  unfold compact
  constructor
  · intro member
    obtain ⟨a, ha, rfl⟩ := List.getElem_of_mem member
    rw [List.length_take] at ha
    obtain ⟨j, hj, same⟩ := h.sound a (by omega)
    rw [List.getD_eq_getElem _ _ (by omega), List.getD_eq_getElem _ _ hj] at same
    rw [List.getElem_take, same]
    exact List.getElem_mem hj
  · intro member
    obtain ⟨j, hj, rfl⟩ := List.getElem_of_mem member
    obtain ⟨a, ha, same⟩ := h.complete j hj
    rw [List.getD_eq_getElem _ _ (by omega), List.getD_eq_getElem _ _ hj] at same
    rw [← same]
    exact List.mem_take_iff_getElem.mpr ⟨a, by omega, rfl⟩

end SnapOS.Lib
