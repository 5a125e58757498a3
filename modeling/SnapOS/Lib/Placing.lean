/- Items that are placed one after the other. Every item covers a block of cells with its value, and a step may refuse
an item because of what is covered already. -/
import SnapOS.Lib.Exec
import Mathlib.Data.List.Basic

namespace SnapOS.Lib

variable {σ α β γ : Type}

/-- The blocks and values of items, and what an item asks of the cells before it is placed. -/
structure Placement (α β γ : Type) where
  block : β → α → Prop
  value : β → γ
  accepts : (α → Option γ) → β → Prop

namespace Placement

variable (P : Placement α β γ)

open Classical in
noncomputable def paint (c : α → Option γ) (b : β) (a : α) : Option γ :=
  if P.block b a then some (P.value b) else c a

noncomputable def paintAll : (α → Option γ) → List β → α → Option γ
  | c, [] => c
  | c, b :: rest => paintAll (P.paint c b) rest

def AllAccepted : (α → Option γ) → List β → Prop
  | _, [] => True
  | c, b :: rest => P.accepts c b ∧ AllAccepted (P.paint c b) rest

def Apart (b b' : β) : Prop := ∀ a, P.block b a → ¬ P.block b' a

theorem Apart.symm {P : Placement α β γ} {b b' : β} (apart : P.Apart b b') : P.Apart b' b :=
  fun a second first => apart a first second

instance : Std.Symm P.Apart := ⟨fun _ _ apart => apart.symm⟩

theorem paint_inside {c : α → Option γ} {b : β} {a : α} (inside : P.block b a) :
    P.paint c b a = some (P.value b) := if_pos inside

theorem paint_outside {c : α → Option γ} {b : β} {a : α} (outside : ¬ P.block b a) : P.paint c b a = c a :=
  if_neg outside

/-- Items that are placed apart stay visible. -/
theorem paintAll_eq_some {l : List β} (apart : l.Pairwise P.Apart) (c : α → Option γ) (a : α) (v : γ) :
    P.paintAll c l a = some v ↔
      (∃ b ∈ l, P.block b a ∧ P.value b = v) ∨ (∀ b ∈ l, ¬ P.block b a) ∧ c a = some v := by
  induction l generalizing c with
  | nil => simp [paintAll]
  | cons b rest ih =>
      obtain ⟨first, others⟩ := List.pairwise_cons.mp apart
      rw [paintAll, ih others]
      by_cases inside : P.block b a
      · have later : ∀ b' ∈ rest, ¬ P.block b' a := fun b' member => first b' member a inside
        rw [P.paint_inside inside]
        constructor
        · rintro (⟨b', member, covers, _⟩ | ⟨_, same⟩)
          · exact absurd covers (later b' member)
          · exact Or.inl ⟨b, List.mem_cons_self, inside, Option.some.inj same⟩
        · rintro (⟨b', member, covers, same⟩ | ⟨none, _⟩)
          · rcases List.mem_cons.mp member with rfl | old
            · exact Or.inr ⟨later, congrArg some same⟩
            · exact absurd covers (later b' old)
          · exact absurd inside (none b List.mem_cons_self)
      · simp only [P.paint_outside inside, List.mem_cons, exists_eq_or_imp, forall_eq_or_imp, inside,
          not_false_eq_true, true_and, false_and, false_or]

/-- The step places accepted items, unless it gets stuck, and refuses the others. -/
structure Runs (step : σ → β → Exec σ) (Inv : σ → Prop) (cover : σ → α → Option γ) (stuck : Fault)
    (Refusal : Fault → Prop) : Prop where
  accepted : ∀ s b, Inv s → P.accepts (cover s) b → step s b = .error stuck ∨
    ∃ s', step s b = .ok s' ∧ Inv s' ∧ cover s' = P.paint (cover s) b
  refused : ∀ s b, Inv s → ¬ P.accepts (cover s) b → ∃ e, step s b = .error e ∧ Refusal e

theorem Runs.foldlM {P : Placement α β γ} {step : σ → β → Exec σ} {Inv : σ → Prop} {cover : σ → α → Option γ}
    {stuck : Fault} {Refusal : Fault → Prop} (runs : P.Runs step Inv cover stuck Refusal) {l : List β} {s : σ}
    (inv : Inv s) (enough : l.foldlM step s ≠ .error stuck) :
    (P.AllAccepted (cover s) l ∧ ∃ s', l.foldlM step s = .ok s' ∧ Inv s' ∧ cover s' = P.paintAll (cover s) l) ∨
      ¬ P.AllAccepted (cover s) l ∧ ∃ e, l.foldlM step s = .error e ∧ Refusal e := by
  induction l generalizing s with
  | nil => exact Or.inl ⟨trivial, s, rfl, inv, rfl⟩
  | cons b rest ih =>
      rw [List.foldlM_cons] at enough ⊢
      by_cases accepts : P.accepts (cover s) b
      · rcases runs.accepted s b inv accepts with halted | ⟨s', one, inv', painted⟩
        · rw [halted] at enough
          exact absurd rfl enough
        · rw [one, Exec.ok_bind] at enough ⊢
          have later := ih inv' enough
          rw [painted] at later
          simpa only [AllAccepted, paintAll, accepts, true_and] using later
      · obtain ⟨e, failed, refusal⟩ := runs.refused s b inv accepts
        rw [failed]
        exact Or.inr ⟨fun all => accepts all.1, e, rfl, refusal⟩

/-- Items that need empty cells are accepted if they are apart. -/
theorem allAccepted_exclusive (exclusive : ∀ c b, P.accepts c b ↔ ∀ a, P.block b a → c a = none) (c : α → Option γ)
    (l : List β) : P.AllAccepted c l ↔ (∀ b ∈ l, ∀ a, P.block b a → c a = none) ∧ l.Pairwise P.Apart := by
  induction l generalizing c with
  | nil => simp [AllAccepted]
  | cons b rest ih =>
      have painted : (∀ b' ∈ rest, ∀ a, P.block b' a → P.paint c b a = none) ↔
          (∀ b' ∈ rest, P.Apart b b') ∧ ∀ b' ∈ rest, ∀ a, P.block b' a → c a = none := by
        constructor
        · intro empty
          have apart : ∀ b' ∈ rest, P.Apart b b' := by
            intro b' member a inside inside'
            have here := empty b' member a inside'
            rw [P.paint_inside inside] at here
            cases here
          refine ⟨apart, fun b' member a inside => ?_⟩
          rw [← empty b' member a inside, P.paint_outside fun first => apart b' member a first inside]
        · rintro ⟨apart, empty⟩ b' member a inside
          rw [P.paint_outside fun first => apart b' member a first inside]
          exact empty b' member a inside
      rw [AllAccepted, ih, exclusive, painted, List.forall_mem_cons, List.pairwise_cons]
      exact ⟨fun ⟨one, ⟨first, others⟩, apart⟩ => ⟨⟨one, others⟩, first, apart⟩,
        fun ⟨⟨one, others⟩, first, apart⟩ => ⟨one, ⟨first, others⟩, apart⟩⟩

/-- Items that look only at a cell of their own block do not notice others that are apart. -/
theorem allAccepted_local (key : β → α) (ok : Option γ → β → Prop) (own : ∀ b, P.block b (key b))
    (looks : ∀ c b, P.accepts c b ↔ ok (c (key b)) b) (c : α → Option γ) {l : List β} (apart : l.Pairwise P.Apart) :
    P.AllAccepted c l ↔ ∀ b ∈ l, P.accepts c b := by
  induction l generalizing c with
  | nil => simp [AllAccepted]
  | cons b rest ih =>
      obtain ⟨first, others⟩ := List.pairwise_cons.mp apart
      rw [AllAccepted, ih _ others, List.forall_mem_cons]
      refine and_congr_right fun _ => forall₂_congr fun b' member => ?_
      rw [looks, looks, P.paint_outside fun inside => first b' member _ inside (own b')]

end Placement

end SnapOS.Lib
