/- One entry beside the others of its list: it comes and goes once, and the others keep their order. -/
import SnapOS.EntryPlace

namespace SnapOS.ListHeads
open SnapOS.Lib

variable {N : Type*} [DecidableEq N] {l l' : ListHeads N} {h e x : N} {own : Option N} {others : List N} {inside : Bool}

/-- The list of `h` holds `others` and, when `inside`, the own entry among them. An own entry that is not in the list
is an empty list itself. -/
inductive Standing (l : ListHeads N) (h : N) (own : Option N) (others : List N) : Bool → Prop
  | away (rep : l.Represents h others) (apart : ∀ e ∈ own, e ∉ h :: others ∧ l.next e = e) :
    Standing l h own others false
  | among (w : List N) (e : N) (isOwn : e ∈ own) (rep : l.Represents h w) (member : e ∈ w) (rest : w.erase e = others) :
      Standing l h own others true

namespace Standing

theorem listed (standing : Standing l h own others inside) : ∃ w, l.Represents h w ∧ (∀ e ∈ own, w.count e ≤ 1) ∧
    (w.filter fun x => x ∉ own) = others := by
  cases standing with
  | away rep apart =>
      refine ⟨others, rep, fun e _ => List.nodup_iff_count_le_one.mp (List.nodup_cons.mp rep.nodup).2 e, ?_⟩
      refine List.filter_eq_self.mpr fun x member => ?_
      rw [decide_eq_true_eq]
      exact fun isOwn => (apart x isOwn).1 (List.mem_cons_of_mem h member)
  | among w e isOwn rep member rest =>
      have nodup := (List.nodup_cons.mp rep.nodup).2
      refine ⟨w, rep, fun e' _ => List.nodup_iff_count_le_one.mp nodup e', ?_⟩
      rw [← rest, nodup.erase_eq_filter]
      refine List.filter_congr fun x _ => ?_
      have only : x ∈ own ↔ x = e := by
        rw [Option.mem_def, Option.mem_def.mp isOwn, Option.some_inj, eq_comm]
      rw [decide_not, decide_eq_decide.mpr only]
      rfl

theorem of_none (standing : Standing l h none others inside) : inside = false := by
  cases standing with
  | away rep apart => rfl
  | among w e isOwn rep member rest => cases isOwn

theorem represents (standing : Standing l h own others false) : l.Represents h others := by
  cases standing with
  | away rep apart => exact rep

theorem outside (standing : Standing l h own others false) : ∀ e ∈ own, e ∉ others := by
  cases standing with
  | away rep apart => exact fun e isOwn inside => (apart e isOwn).1 (List.mem_cons_of_mem h inside)

theorem not_represents (standing : Standing l h own others true) : ¬ l.Represents h others := by
  cases standing with
  | among w e isOwn rep member rest =>
      intro alone
      have same : w = others := rep.unique alone
      exact (List.nodup_cons.mp rep.nodup).2.not_mem_erase (rest.symm ▸ same ▸ member)

theorem congr {C : Type*} {c : N → C} (coloured : l.Coloured c) (sameColour : ∀ e ∈ own, c e = c h)
    (same : ∀ y, c y = c h → SameAt l l' y) (standing : Standing l h own others inside) :
    Standing l' h own others inside := by
  cases standing with
  | away rep apart =>
      refine .away (Represents.congr_coloured coloured same rep) fun e isOwn => ⟨(apart e isOwn).1, ?_⟩
      rw [(same e (sameColour e isOwn)).1, (apart e isOwn).2]
  | among w e isOwn rep member rest =>
      exact .among w e isOwn (Represents.congr_coloured coloured same rep) member rest

/-! The own entry -/

theorem initOwn (rep : l.Represents h others) (outside : e ∉ h :: others) :
    Standing (l.initListHead e) h (some e) others false := by
  refine .away (rep.congr fun y member => sameAt_initListHead (ne_of_mem_of_not_mem member outside)) fun e' isOwn => ?_
  obtain rfl := Option.some.inj isOwn
  exact ⟨outside, by rw [next_initListHead, if_pos rfl]⟩

theorem addOwn (standing : Standing l h (some e) others inside) :
    Standing (l.addOnce e h) h (some e) others true := by
  rw [addOnce]
  cases standing with
  | away rep apart =>
      obtain ⟨fresh, self⟩ := apart e rfl
      rw [if_pos (by simpa [listEmpty] using self)]
      refine .among (others ++ [e]) e rfl (rep.listAddTail fresh) (by simp) ?_
      rw [List.erase_append_right _ fun inside => fresh (List.mem_cons_of_mem h inside), List.erase_cons_head,
        List.append_nil]
  | among w e' isOwn rep member rest =>
      obtain rfl := Option.some.inj isOwn
      rw [if_neg (by simpa [listEmpty] using Ring.ne_self rep member)]
      exact .among w e rfl rep member rest

theorem removed {w : List N} (rep : l.Represents h w) (member : e ∈ w) :
    (l.removeOnce e).Represents h (w.erase e) ∧ (l.removeOnce e).next e = e ∧
      ∀ y, y ∉ h :: w → (l.removeOnce e).next y = l.next y := by
  obtain ⟨front, back, -, split, erased⟩ := List.exists_erase_eq member
  have gone : e ∉ h :: w.erase e := by
    have nodup := rep.nodup
    rw [split, ← List.cons_append, List.nodup_middle] at nodup
    rw [erased]
    exact (List.nodup_cons.mp nodup).1
  have left : (l.listDel e).Represents h (w.erase e) := by
    rw [split] at rep
    rw [erased]
    exact rep.listDel
  rw [removeOnce, if_neg (by simpa [listEmpty] using Ring.ne_self rep member)]
  refine ⟨left.congr fun y inside => sameAt_initListHead (ne_of_mem_of_not_mem inside gone), ?_, fun y outside => ?_⟩
  · rw [next_initListHead, if_pos rfl]
  · have notPrev : y ≠ l.prev e := (ne_of_mem_of_not_mem (Ring.prev_mem rep (List.mem_cons_of_mem h member))
      outside).symm
    rw [next_initListHead, if_neg (ne_of_mem_of_not_mem (List.mem_cons_of_mem h member) outside).symm, next_listDel,
      if_neg notPrev]

theorem removeOwn (standing : Standing l h (some e) others inside) :
    Standing (l.removeOnce e) h (some e) others false := by
  cases standing with
  | away rep apart =>
      rw [removeOnce, if_pos (by simpa [listEmpty] using (apart e rfl).2)]
      exact .away rep apart
  | among w e' isOwn rep member rest =>
      obtain rfl := Option.some.inj isOwn
      obtain ⟨left, self, -⟩ := removed rep member
      obtain ⟨headApart, nodup⟩ := List.nodup_cons.mp rep.nodup
      have gone : e ∉ h :: others := by
        rw [List.mem_cons, not_or, ← rest]
        exact ⟨(ne_of_mem_of_not_mem member headApart), nodup.not_mem_erase⟩
      rw [rest] at left
      refine .away left fun e' isOwn => ?_
      obtain rfl := Option.some.inj isOwn
      exact ⟨gone, self⟩

/-! The entry of another task -/

theorem addOther (notHead : x ≠ h) (notOwn : x ∉ own) (fresh : x ∉ others)
    (standing : Standing l h own others inside) :
    Standing ((l.initListHead x).addOnce x h) h own (others ++ [x]) inside := by
  have self : (l.initListHead x).listEmpty x = true := by simp [listEmpty, next_initListHead]
  have added {w : List N} (rep : l.Represents h w) (new : x ∉ w) :
      ((l.initListHead x).listAddTail x h).Represents h (w ++ [x]) := by
    have outside : x ∉ h :: w := by
      rw [List.mem_cons, not_or]
      exact ⟨notHead, new⟩
    exact (rep.congr fun y member => sameAt_initListHead (ne_of_mem_of_not_mem member outside)).listAddTail outside
  rw [addOnce, if_pos self]
  cases standing with
  | away rep apart =>
      refine .away (added rep fresh) fun e isOwn => ?_
      obtain ⟨outside, alone⟩ := apart e isOwn
      have other : e ≠ x := by
        rintro rfl
        exact notOwn isOwn
      refine ⟨?_, ?_⟩
      · rw [← List.cons_append, List.mem_append, not_or, List.mem_singleton]
        exact ⟨outside, other⟩
      · obtain ⟨-, -, -, lastMem⟩ := rep.last
        have notLast : e ≠ (l.initListHead x).prev h := by
          rw [prev_initListHead, if_neg notHead.symm]
          exact (ne_of_mem_of_not_mem lastMem outside).symm
        rw [next_listAddTail notHead, if_neg notLast, if_neg other, next_initListHead, if_neg other]
        exact alone
  | among w e isOwn rep member rest =>
      have other : e ≠ x := by
        rintro rfl
        exact notOwn isOwn
      have new : x ∉ w := fun inside => fresh (rest ▸ (List.mem_erase_of_ne other.symm).mpr inside)
      refine .among (w ++ [x]) e isOwn (added rep new) (List.mem_append_left [x] member) ?_
      rw [List.erase_append_left _ member, rest]

theorem addAgain (queued : x ∈ others) (standing : Standing l h own others inside) :
    Standing (l.addOnce x h) h own others inside := by
  have linked : l.next x ≠ x := by
    cases standing with
    | away rep apart => exact Ring.ne_self rep queued
    | among w e isOwn rep member rest => exact Ring.ne_self rep (List.mem_of_mem_erase (rest ▸ queued))
  rw [addOnce, if_neg (by simpa [listEmpty] using linked)]
  exact standing

theorem removeOther (notOwn : x ∉ own) (queued : x ∈ others) (standing : Standing l h own others inside) :
    Standing (l.removeOnce x) h own (others.erase x) inside := by
  cases standing with
  | away rep apart =>
      obtain ⟨left, -, same⟩ := removed rep queued
      refine .away left fun e isOwn => ?_
      obtain ⟨outside, alone⟩ := apart e isOwn
      rw [List.mem_cons, not_or] at outside ⊢
      refine ⟨⟨outside.1, fun inside => outside.2 (List.mem_of_mem_erase inside)⟩, ?_⟩
      rw [same e (by rw [List.mem_cons, not_or]; exact outside), alone]
  | among w e isOwn rep member rest =>
      have other : e ≠ x := by
        rintro rfl
        exact notOwn isOwn
      have inW : x ∈ w := List.mem_of_mem_erase (rest ▸ queued)
      obtain ⟨left, -, -⟩ := removed rep inW
      refine .among (w.erase x) e isOwn left ((List.mem_erase_of_ne other).mpr member) ?_
      rw [List.erase_comm, rest]

end Standing
end SnapOS.ListHeads
