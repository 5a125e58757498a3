/- Circular doubly linked lists, as two pointer functions and the sequence that they link. -/
import Mathlib.Data.List.Chain
import Mathlib.Data.List.Nodup

namespace SnapOS.Lib

variable {N : Type*} {next prev next' prev' : N → N}

/-- `b` comes right after `a`, by both pointers. -/
def Linked (next prev : N → N) (a b : N) : Prop := next a = b ∧ prev b = a

/-- From `h` the next pointers visit `s` and return to `h`, the previous pointers visit `s` in
reverse, and no node is met twice. -/
structure Ring (next prev : N → N) (h : N) (s : List N) : Prop where
  links : List.IsChain (Linked next prev) (h :: (s ++ [h]))
  nodup : (h :: s).Nodup

instance [DecidableEq N] (h : N) (s : List N) : Decidable (Ring next prev h s) :=
  have : DecidableRel (Linked next prev) := fun _ _ => instDecidableAnd
  decidable_of_iff (List.IsChain (Linked next prev) (h :: (s ++ [h])) ∧ (h :: s).Nodup)
    ⟨fun both => ⟨both.1, both.2⟩, fun ring => ⟨ring.links, ring.nodup⟩⟩

/-- A chain reads the next pointers of all its nodes but the last, and the previous pointers of all
but the first. -/
theorem chain_congr {c : List N} (chain : List.IsChain (Linked next prev) c)
    (sameNext : ∀ x ∈ c.dropLast, next' x = next x) (samePrev : ∀ x ∈ c.tail, prev' x = prev x) :
    List.IsChain (Linked next' prev') c := by
  induction c with
  | nil => exact List.IsChain.nil
  | cons a rest ih =>
      cases rest with
      | nil => exact List.IsChain.singleton a
      | cons b rest =>
          rw [List.isChain_cons_cons] at chain ⊢
          refine ⟨⟨?_, ?_⟩, ih chain.2 ?_ ?_⟩
          · rw [sameNext a (by simp), chain.1.1]
          · rw [samePrev b (by simp), chain.1.2]
          · exact fun x member => sameNext x (by simp [List.dropLast_cons_of_ne_nil, member])
          · exact fun x member => samePrev x (by simpa using Or.inr member)

/-- A chain is followed by any pointers that agree with it before its last node. -/
theorem chain_reached {M : N → Prop} (closed : ∀ x, M x → M (next' x)) {a : N} {c : List N}
    (chain : List.IsChain (Linked next prev) (a :: c)) (inside : M a)
    (same : ∀ x ∈ (a :: c).dropLast, next' x = next x) : ∀ x ∈ a :: c, M x := by
  induction c generalizing a with
  | nil => simpa using inside
  | cons b rest ih =>
      rw [List.isChain_cons_cons] at chain
      have here : M b := by
        have := closed a inside
        rwa [same a (by simp), chain.1.1] at this
      intro x member
      rcases List.mem_cons.mp member with rfl | later
      · exact inside
      · exact ih chain.2 here (fun y before => same y (by simp [List.dropLast_cons_of_ne_nil, before])) x later

/-- From `a` the next pointers visit `s` and come to `b`. -/
def Leads (next : N → N) : N → List N → N → Prop
  | a, [], b => next a = b
  | a, x :: s, b => next a = x ∧ Leads next x s b

namespace Leads

variable {a b : N} {s : List N}

theorem congr (leads : Leads next a s b) (same : ∀ x ∈ a :: s, next' x = next x) : Leads next' a s b := by
  induction s generalizing a with
  | nil => exact (same a List.mem_cons_self).trans leads
  | cons x s ih =>
      exact ⟨(same a List.mem_cons_self).trans leads.1,
        ih leads.2 fun y member => same y (List.mem_cons_of_mem a member)⟩

theorem of_chain {back : List N} (chain : List.IsChain (Linked next prev) (a :: (s ++ b :: back))) :
    Leads next a s b := by
  induction s generalizing a with
  | nil => exact (List.isChain_cons_cons.mp chain).1.1
  | cons x s ih =>
      obtain ⟨linked, later⟩ := List.isChain_cons_cons.mp chain
      exact ⟨linked.1, ih later⟩

theorem inside {M : N → Prop} (leads : Leads next a s b) (closed : ∀ x, M x → M (next x)) (start : M a) :
    ∀ x ∈ a :: s, M x := by
  induction s generalizing a with
  | nil => simpa using start
  | cons x s ih =>
      intro y member
      rcases List.mem_cons.mp member with rfl | later
      · exact start
      · exact ih leads.2 (leads.1 ▸ closed a start) y later

theorem ne_self (leads : Leads next a s b) (nodup : (a :: s).Nodup) (outside : b ∉ a :: s) {x : N}
    (member : x ∈ a :: s) : next x ≠ x := by
  induction s generalizing a with
  | nil =>
      rw [List.mem_singleton.mp member, leads]
      exact fun same => outside (by simp [same])
  | cons y s ih =>
      obtain ⟨first, later⟩ := List.nodup_cons.mp nodup
      rcases List.mem_cons.mp member with rfl | rest
      · rw [leads.1]
        exact fun same => first (by simp [same])
      · exact ih leads.2 later (fun inside => outside (List.mem_cons_of_mem a inside)) rest

end Leads

namespace Ring

variable {h : N} {s : List N}

theorem singleton_iff : Ring next prev h [] ↔ next h = h ∧ prev h = h :=
  ⟨fun ring => by simpa [Linked] using ring.links, fun self => ⟨by simpa [Linked] using self, by simp⟩⟩

theorem congr (ring : Ring next prev h s) (sameNext : ∀ x ∈ h :: s, next' x = next x)
    (samePrev : ∀ x ∈ h :: s, prev' x = prev x) : Ring next' prev' h s := by
  refine ⟨chain_congr ring.links ?_ ?_, ring.nodup⟩
  · rw [← List.cons_append, List.dropLast_concat]
    exact sameNext
  · intro x member
    exact samePrev x (by simpa [or_comm] using member)

/-- Every node of the ring stands between its two neighbours. -/
theorem split (ring : Ring next prev h s) {x : N} (member : x ∈ h :: s) :
    ∃ l r, h :: (s ++ [h]) = l ++ x :: next x :: r ∧ prev (next x) = x := by
  obtain ⟨l, r, same⟩ := List.append_of_mem member
  obtain ⟨z, rest, after⟩ : ∃ z rest, r ++ [h] = z :: rest := List.exists_cons_of_ne_nil (by simp)
  have whole : h :: (s ++ [h]) = l ++ x :: z :: rest := by
    rw [← List.cons_append, same, List.append_assoc, List.cons_append, after]
  have chain := ring.links
  rw [whole, List.isChain_append_cons_cons] at chain
  obtain ⟨toNext, toPrev⟩ := chain.2.1
  exact ⟨l, rest, by rw [toNext]; exact whole, by rw [toNext, toPrev]⟩

theorem prev_next (ring : Ring next prev h s) {x : N} (member : x ∈ h :: s) : prev (next x) = x := by
  obtain ⟨_, _, _, back⟩ := ring.split member
  exact back

theorem next_mem (ring : Ring next prev h s) {x : N} (member : x ∈ h :: s) : next x ∈ h :: s := by
  obtain ⟨l, r, whole, _⟩ := ring.split member
  have : next x ∈ h :: (s ++ [h]) := by rw [whole]; simp
  simpa [or_comm] using this

theorem next_head {a : N} (ring : Ring next prev h (a :: s)) : next h = a := by
  have chain := ring.links
  rw [List.cons_append, List.isChain_cons_cons] at chain
  exact chain.1.1

theorem symm (ring : Ring next prev h s) : Ring prev next h s.reverse := by
  refine ⟨?_, ?_⟩
  · have mirrored : h :: (s.reverse ++ [h]) = (h :: (s ++ [h])).reverse := by simp
    rw [mirrored, List.isChain_reverse]
    exact ring.links.imp fun a b linked => linked.symm
  · simpa using ring.nodup

theorem prev_mem (ring : Ring next prev h s) {x : N} (member : x ∈ h :: s) : prev x ∈ h :: s := by
  simpa using ring.symm.next_mem (by simpa using member)

theorem leads {front back : List N} {e : N} (ring : Ring next prev h (front ++ e :: back)) :
    Leads next h front e := by
  have chain := ring.links
  rw [List.append_assoc, List.cons_append] at chain
  exact Leads.of_chain chain

theorem leads_home (ring : Ring next prev h s) : Leads next h s h := Leads.of_chain ring.links

theorem unique {s' : List N} (ring : Ring next prev h s) (ring' : Ring next prev h s') : s = s' := by
  have same : ∀ (s s' : List N) (a : N), h ∉ s → h ∉ s' →
      List.IsChain (Linked next prev) (a :: (s ++ [h])) →
      List.IsChain (Linked next prev) (a :: (s' ++ [h])) → s = s' := by
    intro s
    induction s with
    | nil =>
        intro s' a _ outside chain chain'
        cases s' with
        | nil => rfl
        | cons b rest =>
            simp only [List.nil_append, List.cons_append, List.isChain_cons_cons] at chain chain'
            exact absurd (by simp [← chain'.1.1, chain.1.1]) outside
    | cons b rest ih =>
        intro s' a outside outside' chain chain'
        simp only [List.cons_append, List.isChain_cons_cons] at chain
        cases s' with
        | nil =>
            simp only [List.nil_append, List.isChain_cons_cons] at chain'
            exact absurd (by simp [← chain'.1.1, chain.1.1]) outside
        | cons b' rest' =>
            simp only [List.cons_append, List.isChain_cons_cons] at chain'
            obtain rfl : b = b' := chain.1.1.symm.trans chain'.1.1
            rw [ih rest' b (fun later => outside (List.mem_cons_of_mem b later))
              (fun later => outside' (List.mem_cons_of_mem b later)) chain.2 chain'.2]
  exact same s s' h (List.nodup_cons.mp ring.nodup).1 (List.nodup_cons.mp ring'.nodup).1 ring.links ring'.links

section Splice

variable {l r : List N} {a z : N}

/-- Cutting the ring between two neighbours: what is before the last node and after the first. -/
theorem cut (whole : h :: (s ++ [h]) = l ++ a :: z :: r) :
    h :: s = l ++ a :: (z :: r).dropLast ∧ s ++ [h] = (l ++ [a]).tail ++ z :: r := by
  constructor
  · have := congrArg List.dropLast whole
    rwa [← List.cons_append, List.dropLast_concat, List.dropLast_append_cons,
      List.dropLast_cons_of_ne_nil (by simp)] at this
  · have := congrArg List.tail whole
    rw [List.append_cons l a (z :: r), List.tail_append_of_ne_nil (by simp)] at this
    simpa using this

theorem cut_nodup (ring : Ring next prev h s) (whole : h :: (s ++ [h]) = l ++ a :: z :: r) :
    a ∉ l ∧ a ∉ (z :: r).dropLast ∧ z ∉ (l ++ [a]).tail ∧ z ∉ r := by
  obtain ⟨front, back⟩ := cut whole
  have nodup : (s ++ [h]).Nodup := by
    rw [List.nodup_append_comm]
    exact ring.nodup
  have nodup' := ring.nodup
  rw [front, List.nodup_middle, List.nodup_cons, List.mem_append, not_or] at nodup'
  rw [back, List.nodup_middle, List.nodup_cons, List.mem_append, not_or] at nodup
  exact ⟨nodup'.1.1, nodup'.1.2, nodup.1.1, nodup.1.2⟩

theorem ne_self (ring : Ring next prev h s) {x : N} (member : x ∈ s) : next x ≠ x := by
  intro self
  obtain ⟨l, r, whole, _⟩ := ring.split (List.mem_cons_of_mem h member)
  rw [self] at whole
  obtain ⟨_, again, _, _⟩ := ring.cut_nodup whole
  cases r with
  | nil =>
      have last := congrArg List.getLast? (cut whole).2
      rw [List.getLast?_concat, List.getLast?_concat] at last
      obtain rfl := Option.some.inj last
      exact (List.nodup_cons.mp ring.nodup).1 member
  | cons y r => exact again (by simp)

variable [DecidableEq N] {s' : List N}

theorem insert (ring : Ring next prev h s) {n : N} (whole : h :: (s ++ [h]) = l ++ a :: z :: r)
    (fresh : n ∉ h :: s) (result : h :: (s' ++ [h]) = l ++ a :: n :: z :: r)
    (hn : ∀ x, next' x = if x = a then n else if x = n then z else next x)
    (hp : ∀ x, prev' x = if x = z then n else if x = n then a else prev x) :
    Ring next' prev' h s' := by
  obtain ⟨front, back⟩ := cut whole
  obtain ⟨beforeA, afterA, beforeZ, afterZ⟩ := ring.cut_nodup whole
  have chain := ring.links
  rw [whole, List.isChain_append_cons_cons] at chain
  have away : ∀ x ∈ l ++ a :: z :: r, x ≠ n := by
    rw [← whole]
    rintro x member rfl
    exact fresh (by simpa [or_comm] using member)
  refine ⟨?_, ?_⟩
  · rw [result, List.isChain_append_cons_cons, List.isChain_cons_cons]
    refine ⟨chain_congr chain.1 ?_ ?_, ⟨?_, ?_⟩, ⟨?_, ?_⟩, chain_congr chain.2.2 ?_ ?_⟩
    · rw [List.dropLast_concat]
      intro x member
      rw [hn, if_neg (ne_of_mem_of_not_mem member beforeA), if_neg (away x (by simp [member]))]
    · intro x member
      have inside : x ∈ l ++ [a] := List.mem_of_mem_tail member
      rw [hp, if_neg (ne_of_mem_of_not_mem member beforeZ), if_neg (away x (by simp at inside ⊢; tauto))]
    · rw [hn, if_pos rfl]
    · rw [hp, if_neg (away z (by simp)).symm, if_pos rfl]
    · rw [hn, if_neg (away a (by simp)).symm, if_pos rfl]
    · rw [hp, if_pos rfl]
    · intro x member
      have inside : x ∈ z :: r := List.dropLast_subset _ member
      rw [hn, if_neg (ne_of_mem_of_not_mem member afterA), if_neg (away x (by simp at inside ⊢; tauto))]
    · intro x member
      rw [List.tail_cons] at member
      rw [hp, if_neg (ne_of_mem_of_not_mem member afterZ), if_neg (away x (by simp [member]))]
  · rw [(cut (z := n) (r := z :: r) result).1, List.dropLast_cons_of_ne_nil (by simp)]
    rw [List.append_cons, List.nodup_middle, ← List.append_cons, ← front]
    exact List.nodup_cons.mpr ⟨fresh, ring.nodup⟩

theorem remove (ring : Ring next prev h s) {e : N} (whole : h :: (s ++ [h]) = l ++ a :: e :: z :: r)
    (result : h :: (s' ++ [h]) = l ++ a :: z :: r)
    (hn : ∀ x, next' x = if x = a then z else next x)
    (hp : ∀ x, prev' x = if x = z then a else prev x) : Ring next' prev' h s' := by
  have whole' : h :: (s ++ [h]) = (l ++ [a]) ++ e :: z :: r := by simpa using whole
  obtain ⟨beforeA, afterA, -, -⟩ := ring.cut_nodup whole
  obtain ⟨-, -, beforeZ, afterZ⟩ := ring.cut_nodup whole'
  have chain := ring.links
  rw [whole, List.isChain_append_cons_cons, List.isChain_cons_cons] at chain
  refine ⟨?_, ?_⟩
  · rw [result, List.isChain_append_cons_cons]
    refine ⟨chain_congr chain.1 ?_ ?_, ⟨?_, ?_⟩, chain_congr chain.2.2.2 ?_ ?_⟩
    · rw [List.dropLast_concat]
      intro x member
      rw [hn, if_neg (ne_of_mem_of_not_mem member beforeA)]
    · intro x member
      rw [hp, if_neg]
      rintro rfl
      exact beforeZ (by
        rw [List.tail_append_of_ne_nil (by simp)]
        exact List.mem_append_left _ member)
    · rw [hn, if_pos rfl]
    · rw [hp, if_pos rfl]
    · intro x member
      rw [hn, if_neg]
      rintro rfl
      exact afterA (by simp [List.dropLast_cons_of_ne_nil, member])
    · intro x member
      rw [List.tail_cons] at member
      rw [hp, if_neg (ne_of_mem_of_not_mem member afterZ)]
  · have nodup := ring.nodup
    rw [(cut whole').1] at nodup
    rw [(cut result).1, List.append_cons]
    exact (List.nodup_cons.mp (List.nodup_middle.mp nodup)).2

end Splice

end Ring
end SnapOS.Lib
