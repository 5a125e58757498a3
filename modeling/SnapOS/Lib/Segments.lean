/- Labelled segments of a linear order. A list of segments that are in order and merged is determined by the
labels it gives. -/
import Mathlib.Order.Lattice
import Mathlib.Order.Defs.LinearOrder
import Mathlib.Data.List.Pairwise

namespace SnapOS.Lib

structure Segment (α τ : Type*) where
  start : α
  stop : α
  label : τ

variable {α τ : Type*} [LinearOrder α]

def Segment.Contains (s : Segment α τ) (a : α) : Prop := s.start ≤ a ∧ a < s.stop

/-- Nonempty segments in order. Two that touch have different labels. -/
structure Merged (l : List (Segment α τ)) : Prop where
  nonempty : ∀ s ∈ l, s.start < s.stop
  sorted : l.Pairwise fun s t => s.stop ≤ t.start ∧ (s.stop = t.start → s.label ≠ t.label)

/-- The list gives label `t` to the point `a`. -/
def Labels (l : List (Segment α τ)) (a : α) (t : τ) : Prop := ∃ s ∈ l, s.Contains a ∧ s.label = t

section Merged

variable {s t : Segment α τ} {l l' : List (Segment α τ)} {a : α}

theorem Merged.tail (merged : Merged (s :: l)) : Merged l :=
  ⟨fun t member => merged.nonempty t (List.mem_cons_of_mem s member), (List.pairwise_cons.mp merged.sorted).2⟩

theorem Merged.head_le (merged : Merged (s :: l)) (member : t ∈ l) : s.stop ≤ t.start :=
  ((List.pairwise_cons.mp merged.sorted).1 t member).1

theorem Merged.first_le (merged : Merged (s :: l)) (member : t ∈ s :: l) : s.start ≤ t.start := by
  rcases List.mem_cons.mp member with rfl | later
  · exact le_rfl
  · exact (merged.nonempty s List.mem_cons_self).le.trans (merged.head_le later)

theorem Merged.contains_unique (merged : Merged l) (hs : s ∈ l) (ht : t ∈ l) (inside : s.Contains a)
    (inside' : t.Contains a) : s = t := by
  induction l with
  | nil => cases hs
  | cons r rest ih =>
      rcases List.mem_cons.mp hs with rfl | later
      · rcases List.mem_cons.mp ht with rfl | later'
        · rfl
        · exact absurd (inside.2.trans_le (merged.head_le later')) (not_lt.mpr inside'.1)
      · rcases List.mem_cons.mp ht with rfl | later'
        · exact absurd (inside'.2.trans_le (merged.head_le later)) (not_lt.mpr inside.1)
        · exact ih merged.tail later later'

/-- The first segment of a merged list starts no later than that of any list with the same labels. -/
theorem Merged.start_le (merged : Merged (s :: l)) (merged' : Merged (t :: l'))
    (same : ∀ a x, Labels (s :: l) a x ↔ Labels (t :: l') a x) : s.start ≤ t.start := by
  have inside : t.Contains t.start := ⟨le_rfl, merged'.nonempty t List.mem_cons_self⟩
  obtain ⟨r, member, here, _⟩ := (same t.start t.label).mpr ⟨t, List.mem_cons_self, inside, rfl⟩
  exact (merged.first_le member).trans here.1

/-- A first segment that ended earlier than the other one would touch a segment with its own label. -/
theorem Merged.stop_le (merged : Merged (s :: l))
    (same : ∀ a x, Labels (s :: l) a x ↔ Labels (t :: l') a x) (start : s.start = t.start) (label : s.label = t.label) :
    t.stop ≤ s.stop := by
  by_contra earlier
  have proper := merged.nonempty s List.mem_cons_self
  have inside : t.Contains s.stop := ⟨start ▸ proper.le, not_le.mp earlier⟩
  obtain ⟨r, member, here, known⟩ := (same s.stop t.label).mpr ⟨t, List.mem_cons_self, inside, rfl⟩
  rcases List.mem_cons.mp member with rfl | later
  · exact absurd here.2 (lt_irrefl _)
  · obtain ⟨order, differ⟩ := (List.pairwise_cons.mp merged.sorted).1 r later
    exact differ (le_antisymm order here.1) (label.trans known.symm)

theorem Merged.labels_tail (merged : Merged (s :: l)) (x : τ) :
    Labels l a x ↔ Labels (s :: l) a x ∧ ¬ s.Contains a := by
  constructor
  · rintro ⟨r, member, inside, known⟩
    refine ⟨⟨r, List.mem_cons_of_mem s member, inside, known⟩, fun here => ?_⟩
    exact absurd (here.2.trans_le (merged.head_le member)) (not_lt.mpr inside.1)
  · rintro ⟨⟨r, member, inside, known⟩, outside⟩
    rcases List.mem_cons.mp member with rfl | later
    · exact absurd inside outside
    · exact ⟨r, later, inside, known⟩

/-- Merged lists with the same labels are equal. -/
theorem Merged.ext_labels (merged : Merged l) (merged' : Merged l') (same : ∀ a x, Labels l a x ↔ Labels l' a x) :
    l = l' := by
  induction l generalizing l' with
  | nil =>
      cases l' with
      | nil => rfl
      | cons t l' =>
          have inside : t.Contains t.start := ⟨le_rfl, merged'.nonempty t List.mem_cons_self⟩
          obtain ⟨r, member, _⟩ := (same t.start t.label).mpr ⟨t, List.mem_cons_self, inside, rfl⟩
          cases member
  | cons s l ih =>
      have inside : s.Contains s.start := ⟨le_rfl, merged.nonempty s List.mem_cons_self⟩
      cases l' with
      | nil =>
          obtain ⟨r, member, _⟩ := (same s.start s.label).mp ⟨s, List.mem_cons_self, inside, rfl⟩
          cases member
      | cons t l' =>
          have back := fun a x => (same a x).symm
          have start := le_antisymm (merged.start_le merged' same) (merged'.start_le merged back)
          have label : s.label = t.label := by
            obtain ⟨r, member, here, known⟩ := (same s.start s.label).mp ⟨s, List.mem_cons_self, inside, rfl⟩
            have first : t.Contains s.start := ⟨start.ge, start ▸ merged'.nonempty t List.mem_cons_self⟩
            rw [← known, merged'.contains_unique member List.mem_cons_self here first]
          have stop := le_antisymm (merged'.stop_le back start.symm label.symm)
            (merged.stop_le same start label)
          have head : s = t := by
            cases s
            cases t
            cases start
            cases label
            cases stop
            rfl
          subst head
          refine congrArg (s :: ·) (ih merged.tail merged'.tail fun a x => ?_)
          rw [merged.labels_tail, merged'.labels_tail, same a x]

end Merged

end SnapOS.Lib
