/- Singly linked lists threaded through an address space, with zero as the null pointer. -/
import Mathlib.Data.List.Basic
import Mathlib.Data.List.Nodup

namespace SnapOS.Lib

/-- Following `next` from `p` visits exactly the listed addresses and ends in null. -/
def Chain (next : Nat → Nat) : Nat → List Nat → Prop
  | p, [] => p = 0
  | p, q :: rest => p = q ∧ p ≠ 0 ∧ Chain next (next p) rest

namespace Chain

variable {next next' : Nat → Nat} {p : Nat} {l : List Nat}

theorem congr (h : Chain next p l) (same : ∀ q ∈ l, next' q = next q) : Chain next' p l := by
  induction l generalizing p with
  | nil => exact h
  | cons q rest ih =>
      obtain ⟨rfl, nonzero, tail⟩ := h
      refine ⟨rfl, nonzero, ?_⟩
      rw [same p List.mem_cons_self]
      exact ih tail fun r member => same r (List.mem_cons_of_mem p member)

theorem head_eq (h : Chain next p l) : p = l.headD 0 := by
  cases l with
  | nil => exact h
  | cons q rest => exact h.1

theorem ne_zero (h : Chain next p l) : ∀ q ∈ l, q ≠ 0 := by
  induction l generalizing p with
  | nil => simp
  | cons q rest ih =>
      obtain ⟨rfl, nonzero, tail⟩ := h
      intro r member
      rcases List.mem_cons.mp member with rfl | later
      · exact nonzero
      · exact ih tail r later

theorem unique {k : List Nat} (h : Chain next p l) (h' : Chain next p k) : l = k := by
  induction l generalizing p k with
  | nil =>
      cases k with
      | nil => rfl
      | cons q rest => exact absurd h h'.2.1
  | cons q rest ih =>
      cases k with
      | nil => exact absurd h' h.2.1
      | cons r others =>
          obtain ⟨rfl, _, tail⟩ := h
          obtain ⟨rfl, _, tail'⟩ := h'
          rw [ih tail tail']

theorem unlink {front back : List Nat} {q last : Nat} (h : Chain next p (front ++ q :: back))
    (nodup : (front ++ q :: back).Nodup) (before : front.getLast? = some last)
    (same : ∀ r ∈ front ++ back, r ≠ last → next' r = next r) (redirected : next' last = next q) :
    Chain next' p (front ++ back) := by
  induction front generalizing p with
  | nil => cases before
  | cons r rest ih =>
      obtain ⟨rfl, nonzero, tail⟩ := h
      refine ⟨rfl, nonzero, ?_⟩
      cases rest with
      | nil =>
          obtain rfl : p = last := by simpa using before
          rw [redirected]
          obtain ⟨rfl, _, after⟩ := tail
          apply after.congr
          intro r member
          apply same r (by simp [member])
          rintro rfl
          simp [member] at nodup
      | cons s others =>
          have hlast : (s :: others).getLast? = some last := by simpa using before
          have other : p ≠ last := by
            rintro rfl
            have := List.mem_of_getLast? hlast
            simp only [List.cons_append, List.nodup_cons, List.mem_cons, List.mem_append] at nodup
            rcases List.mem_cons.mp this with rfl | later
            · exact nodup.1 (Or.inl rfl)
            · exact nodup.1 (Or.inr (Or.inl later))
          rw [same p (by simp) other]
          exact ih tail (List.nodup_cons.mp nodup).2 hlast
            fun r member => same r (List.mem_cons_of_mem p member)

theorem suffix {front back : List Nat} (h : Chain next p (front ++ back)) : Chain next (back.headD 0) back := by
  induction front generalizing p with
  | nil =>
      rw [List.nil_append] at h
      rw [← h.head_eq]
      exact h
  | cons q rest ih => exact ih h.2.2

end Chain
end SnapOS.Lib
