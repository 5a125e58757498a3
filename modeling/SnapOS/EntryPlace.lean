/- Where one entry of a list is, while it is added, removed and initialised again and others are added. -/
import SnapOS.ListHead

namespace SnapOS.ListHeads
open SnapOS.Lib

variable {N : Type*} [DecidableEq N] {l l' : ListHeads N} {h e x : N}

def Out (l : ListHeads N) (h e : N) : Prop := ∃ w, l.Represents h w ∧ e ∉ h :: w ∧ l.next e = e

def On (l : ListHeads N) (h e : N) : Prop := ∃ w, l.Represents h w ∧ e ∈ w

/-- `e` was initialised while it was in the list. The list is not well formed any more, but it still
leads to `e`, and what is added later goes behind `e`. -/
structure Astray (l : ListHeads N) (h e : N) (front : List N) : Prop where
  leads : Leads l.next h front e
  nodup : (h :: front).Nodup
  outside : e ∉ h :: front
  last : l.prev h ∉ h :: front
  prev : l.prev e ∉ h :: front

def Awaited (l : ListHeads N) (h e : N) : Prop := On l h e ∨ ∃ front, Astray l h e front

def Placed (l : ListHeads N) (h e : N) : Prop := Out l h e ∨ Awaited l h e

omit [DecidableEq N] in
theorem On.split (on : On l h e) : ∃ front back, l.Represents h (front ++ e :: back) ∧
    (h :: front).Nodup ∧ e ∉ h :: front ∧ ∀ y ∈ e :: back, y ∉ h :: front := by
  obtain ⟨w, rep, member⟩ := on
  obtain ⟨front, back, rfl⟩ := List.append_of_mem member
  have nodup : (h :: front ++ e :: back).Nodup := by simpa using rep.nodup
  have apart : ∀ y ∈ e :: back, y ∉ h :: front := fun y later before =>
    List.disjoint_of_nodup_append nodup before later
  exact ⟨front, back, rep, (List.nodup_append.mp nodup).1, apart e List.mem_cons_self, apart⟩

omit [DecidableEq N] in
theorem Awaited.leads (awaited : Awaited l h e) : ∃ front, Leads l.next h front e ∧ h ∉ front := by
  rcases awaited with on | ⟨front, astray⟩
  · obtain ⟨front, back, rep, nodup, _, _⟩ := on.split
    exact ⟨front, Ring.leads rep, (List.nodup_cons.mp nodup).1⟩
  · exact ⟨front, astray.leads, (List.nodup_cons.mp astray.nodup).1⟩

theorem Placed.initListHead (apart : h ≠ e) (placed : Placed l h e) : Placed (l.initListHead e) h e := by
  have same : ∀ y, y ≠ e → SameAt l (l.initListHead e) y := fun y other => sameAt_initListHead other
  have self : (l.initListHead e).prev e = e := by rw [prev_initListHead, if_pos rfl]
  rcases placed with ⟨w, rep, outside, _⟩ | on | ⟨front, astray⟩
  · refine Or.inl ⟨w, rep.congr fun y member => same y (ne_of_mem_of_not_mem member outside), outside, ?_⟩
    rw [next_initListHead, if_pos rfl]
  · obtain ⟨front, back, rep, nodup, outside, later⟩ := on.split
    refine Or.inr (Or.inr ⟨front, ?_, nodup, outside, ?_, by rwa [self]⟩)
    · exact (Ring.leads rep).congr fun y member => (same y (ne_of_mem_of_not_mem member outside)).1
    · rw [(same h apart).2]
      exact later _ rep.last_mem
  · refine Or.inr (Or.inr ⟨front, ?_, astray.nodup, astray.outside, ?_, by rw [self]; exact astray.outside⟩)
    · exact astray.leads.congr fun y member => (same y (ne_of_mem_of_not_mem member astray.outside)).1
    · rw [(same h apart).2]
      exact astray.last

def addOnce (l : ListHeads N) (e h : N) : ListHeads N :=
  if l.listEmpty e then l.listAddTail e h else l

def removeOnce (l : ListHeads N) (e : N) : ListHeads N :=
  if l.listEmpty e then l else (l.listDel e).initListHead e

theorem Astray.listAddTail {front : List N} (astray : Astray l h e front) (apart : x ≠ h)
    (outside : x ∉ h :: front) (prev : (l.listAddTail x h).prev e ∉ h :: front) :
    Astray (l.listAddTail x h) h e front := by
  refine ⟨astray.leads.congr fun y member => ?_, astray.nodup, astray.outside, ?_, prev⟩
  · rw [next_listAddTail apart, if_neg (ne_of_mem_of_not_mem member astray.last),
      if_neg (ne_of_mem_of_not_mem member outside)]
  · rw [prev_listAddTail apart, if_pos rfl]
    exact outside

theorem Placed.addOnce (apart : e ≠ h) (placed : Placed l h e) : Awaited (l.addOnce e h) h e := by
  rcases placed with ⟨w, rep, outside, self⟩ | ⟨w, rep, member⟩ | ⟨front, astray⟩
  · refine Or.inl ⟨w ++ [e], ?_, by simp⟩
    rw [ListHeads.addOnce, if_pos (by simpa [listEmpty] using self)]
    exact rep.listAddTail outside
  · refine Or.inl ⟨w, ?_, member⟩
    rw [ListHeads.addOnce, if_neg (by simpa [listEmpty] using Ring.ne_self rep member)]
    exact rep
  · refine Or.inr ⟨front, ?_⟩
    rw [ListHeads.addOnce]
    split
    · refine astray.listAddTail apart astray.outside ?_
      rw [prev_listAddTail apart, if_neg apart, if_pos rfl]
      exact astray.last
    · exact astray

section Other

variable (notEntry : x ≠ e) (notHead : x ≠ h) (apart : e ≠ h)
include notEntry notHead

theorem Out.addOnce (out : Out l h e) : Out (l.addOnce x h) h e := by
  obtain ⟨w, rep, outside, self⟩ := out
  rw [ListHeads.addOnce]
  split
  · next empty =>
      have fresh : x ∉ h :: w := by
        rw [List.mem_cons, not_or]
        exact ⟨notHead, fun member => Ring.ne_self rep member (by simpa [listEmpty] using empty)⟩
      obtain ⟨_, _, _, lastMem⟩ := rep.last
      refine ⟨w ++ [x], rep.listAddTail fresh, ?_, ?_⟩
      · rw [← List.cons_append, List.mem_append, not_or, List.mem_singleton]
        exact ⟨outside, notEntry.symm⟩
      · rw [next_listAddTail notHead, if_neg (ne_of_mem_of_not_mem lastMem outside).symm, if_neg notEntry.symm]
        exact self
  · exact ⟨w, rep, outside, self⟩

include apart in
theorem Awaited.addOnce (awaited : Awaited l h e) : Awaited (l.addOnce x h) h e := by
  rw [ListHeads.addOnce]
  split
  · next empty =>
      have self : l.next x = x := by simpa [listEmpty] using empty
      rcases awaited with ⟨w, rep, member⟩ | ⟨front, astray⟩
      · have fresh : x ∉ h :: w := by
          rw [List.mem_cons, not_or]
          exact ⟨notHead, fun inside => Ring.ne_self rep inside self⟩
        exact Or.inl ⟨w ++ [x], rep.listAddTail fresh, List.mem_append_left [x] member⟩
      · have fresh : x ∉ h :: front := fun inside =>
          astray.leads.ne_self astray.nodup astray.outside inside self
        refine Or.inr ⟨front, astray.listAddTail notHead fresh ?_⟩
        rw [prev_listAddTail notHead, if_neg apart, if_neg notEntry.symm]
        exact astray.prev
  · exact awaited

include apart in
theorem Placed.addOnce_other (placed : Placed l h e) : Placed (l.addOnce x h) h e :=
  placed.imp (Out.addOnce notEntry notHead) (Awaited.addOnce notEntry notHead apart)

end Other

theorem Placed.removeOnce (apart : h ≠ e) (placed : Placed l h e) : Placed (l.removeOnce e) h e := by
  rw [ListHeads.removeOnce]
  split
  · exact placed
  · next linked =>
      have busy : l.next e ≠ e := by simpa [listEmpty] using linked
      rcases placed with ⟨_, _, _, self⟩ | on | ⟨front, astray⟩
      · exact absurd self busy
      · obtain ⟨front, back, rep, _, _, _⟩ := on.split
        have gone : e ∉ h :: (front ++ back) := by
          have nodup := rep.nodup
          rw [← List.cons_append, List.nodup_middle] at nodup
          exact (List.nodup_cons.mp nodup).1
        refine Or.inl ⟨front ++ back, rep.listDel.congr fun y member => ?_, gone, ?_⟩
        · exact sameAt_initListHead (ne_of_mem_of_not_mem member gone)
        · rw [next_initListHead, if_pos rfl]
      · refine Or.inr (Or.inr ⟨front, ?_, astray.nodup, astray.outside, ?_, ?_⟩)
        · refine astray.leads.congr fun y member => ?_
          rw [next_initListHead, if_neg (ne_of_mem_of_not_mem member astray.outside), next_listDel,
            if_neg (ne_of_mem_of_not_mem member astray.prev)]
        · rw [prev_initListHead, if_neg apart, prev_listDel]
          split
          · exact astray.prev
          · exact astray.last
        · rw [prev_initListHead, if_pos rfl]
          exact astray.outside

section Colours

variable {C : Type*} {c : N → C} (coloured : l.Coloured c) (sameColour : c e = c h)
  (same : ∀ y, c y = c h → SameAt l l' y)
include coloured sameColour same

omit [DecidableEq N] sameColour in
theorem Represents.congr_coloured {w : List N} (rep : l.Represents h w) : l'.Represents h w := by
  have closed : ∀ y, c y = c h → c (l.next y) = c h := fun y inside => (coloured y).1.trans inside
  refine rep.congr fun y member => same y ?_
  exact chain_reached closed rep.links rfl (fun _ _ => rfl) y (by simp at member ⊢; tauto)

omit [DecidableEq N] in
theorem Awaited.congr (awaited : Awaited l h e) : Awaited l' h e := by
  rcases awaited with ⟨w, rep, member⟩ | ⟨front, astray⟩
  · exact Or.inl ⟨w, Represents.congr_coloured coloured same rep, member⟩
  · have closed : ∀ y, c y = c h → c (l.next y) = c h := fun y inside => (coloured y).1.trans inside
    refine Or.inr ⟨front, ?_, astray.nodup, astray.outside, ?_, ?_⟩
    · exact astray.leads.congr fun y member => (same y (astray.leads.inside closed rfl y member)).1
    · rw [(same h rfl).2]
      exact astray.last
    · rw [(same e sameColour).2]
      exact astray.prev

omit [DecidableEq N] in
theorem Placed.congr (placed : Placed l h e) : Placed l' h e := by
  refine placed.imp ?_ (Awaited.congr coloured sameColour same)
  rintro ⟨w, rep, outside, self⟩
  exact ⟨w, Represents.congr_coloured coloured same rep, outside, (same e sameColour).1.trans self⟩

end Colours
end SnapOS.ListHeads
