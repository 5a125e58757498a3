/- Finite runs of a partial step function, and what holds along all of one run. -/
import Mathlib.Data.List.Basic

namespace SnapOS.Lib

variable {σ ι : Type*}

/-- Inputs are performed left to right. A run has no result when one of its steps has none. -/
def run (step : σ → ι → Option σ) : σ → List ι → Option σ
  | s, [] => some s
  | s, i :: rest => (step s i).bind fun t => run step t rest

/-- Every step of the run meets `guard` in the state that step starts from. -/
def Meets (step : σ → ι → Option σ) (guard : σ → ι → Prop) : σ → List ι → Prop
  | _, [] => True
  | s, i :: rest => guard s i ∧ ∀ t, step s i = some t → Meets step guard t rest

/-- Every state of the run satisfies `P`, the first and the last one included. -/
def Throughout (step : σ → ι → Option σ) (P : σ → Prop) : σ → List ι → Prop
  | s, [] => P s
  | s, i :: rest => P s ∧ ∀ t, step s i = some t → Throughout step P t rest

variable {step : σ → ι → Option σ} {guard : σ → ι → Prop} {P : σ → Prop}

theorem run_cons {s t : σ} {i : ι} {rest : List ι} (h : run step s (i :: rest) = some t) :
    ∃ u, step s i = some u ∧ run step u rest = some t :=
  Option.bind_eq_some_iff.mp h

theorem run_append (s : σ) (first later : List ι) :
    run step s (first ++ later) = (run step s first).bind fun t => run step t later := by
  induction first generalizing s with
  | nil => rfl
  | cons i rest ih =>
      simp only [List.cons_append, run, Option.bind_assoc]
      exact congrArg _ (funext fun t => ih t)

/-- An invariant that one guarded step preserves is preserved by a guarded run. -/
theorem run_invariant (preserved : ∀ s i t, P s → guard s i → step s i = some t → P t)
    {s t : σ} {inputs : List ι} (initial : P s) (meets : Meets step guard s inputs)
    (h : run step s inputs = some t) : P t := by
  induction inputs generalizing s with
  | nil => exact Option.some.inj h ▸ initial
  | cons i rest ih =>
      obtain ⟨u, first, later⟩ := run_cons h
      exact ih (preserved s i u initial meets.1 first) (meets.2 u first) later

/-- A run is checked step by step. -/
instance decidableMeets [∀ s i, Decidable (guard s i)] (s : σ) (inputs : List ι) :
    Decidable (Meets step guard s inputs) :=
  match inputs with
  | [] => isTrue trivial
  | i :: rest =>
      if guarded : guard s i then
        match first : step s i with
        | none => isTrue ⟨guarded, fun _ ht => nomatch first.symm.trans ht⟩
        | some u =>
            match decidableMeets u rest with
            | isTrue later => isTrue ⟨guarded, fun _ ht => Option.some.inj (first.symm.trans ht) ▸ later⟩
            | isFalse broken => isFalse fun meets => broken (meets.2 u first)
      else isFalse fun meets => guarded meets.1

instance decidableThroughout [DecidablePred P] (s : σ) (inputs : List ι) :
    Decidable (Throughout step P s inputs) :=
  match inputs with
  | [] => inferInstanceAs (Decidable (P s))
  | i :: rest =>
      if here : P s then
        match first : step s i with
        | none => isTrue ⟨here, fun _ ht => nomatch first.symm.trans ht⟩
        | some u =>
            match decidableThroughout u rest with
            | isTrue later => isTrue ⟨here, fun _ ht => Option.some.inj (first.symm.trans ht) ▸ later⟩
            | isFalse broken => isFalse fun always => broken (always.2 u first)
      else isFalse fun always => here always.1

theorem meets_append {s : σ} {first later : List ι} (meets : Meets step guard s (first ++ later)) :
    Meets step guard s first ∧ ∀ t, run step s first = some t → Meets step guard t later := by
  induction first generalizing s with
  | nil => exact ⟨trivial, fun t same => Option.some.inj same ▸ meets⟩
  | cons i rest ih =>
      refine ⟨⟨meets.1, fun t one => (ih (meets.2 t one)).1⟩, fun t reached => ?_⟩
      obtain ⟨u, one, rests⟩ := run_cons reached
      exact (ih (meets.2 u one)).2 t rests

theorem meets_true (s : σ) (inputs : List ι) : Meets step (fun _ _ => True) s inputs := by
  induction inputs generalizing s with
  | nil => trivial
  | cons i rest ih => exact ⟨trivial, fun t _ => ih t⟩

/-- What an invariant and the guard of a step give for that step, they give for every step of a run. -/
theorem meets_of_invariant {guard' : σ → ι → Prop}
    (preserved : ∀ s i t, P s → guard s i → step s i = some t → P t)
    (here : ∀ s i, P s → guard s i → guard' s i) {s : σ} {inputs : List ι} (initial : P s)
    (meets : Meets step guard s inputs) : Meets step guard' s inputs := by
  induction inputs generalizing s with
  | nil => trivial
  | cons i rest ih =>
      exact ⟨here s i initial meets.1, fun t first =>
        ih (preserved s i t initial meets.1 first) (meets.2 t first)⟩

theorem Meets.mono {guard' : σ → ι → Prop} (imp : ∀ s i, guard s i → guard' s i) {s : σ} {inputs : List ι}
    (meets : Meets step guard s inputs) : Meets step guard' s inputs :=
  meets_of_invariant (P := fun _ => True) (fun _ _ _ _ _ _ => trivial) (fun s i _ => imp s i) trivial meets

theorem meets_of_forall {ok : ι → Prop} {s : σ} {inputs : List ι} (all : ∀ i ∈ inputs, ok i) :
    Meets step (fun _ i => ok i) s inputs := by
  induction inputs generalizing s with
  | nil => trivial
  | cons i rest ih =>
      exact ⟨all i List.mem_cons_self, fun t _ => ih fun j later => all j (List.mem_cons_of_mem i later)⟩

/-- The unguarded form: the step preserves the invariant from every state that has it. -/
theorem run_invariant_always (preserved : ∀ s i t, P s → step s i = some t → P t)
    {s t : σ} {inputs : List ι} (initial : P s) (h : run step s inputs = some t) : P t :=
  run_invariant (fun s i t hs _ => preserved s i t hs) initial (meets_true s inputs) h

theorem Throughout.first {s : σ} {inputs : List ι} (h : Throughout step P s inputs) : P s := by
  cases inputs with
  | nil => exact h
  | cons i rest => exact h.1

theorem Throughout.last {s t : σ} {inputs : List ι} (h : Throughout step P s inputs)
    (reached : run step s inputs = some t) : P t := by
  induction inputs generalizing s with
  | nil => exact Option.some.inj reached ▸ h
  | cons i rest ih =>
      obtain ⟨u, one, rests⟩ := run_cons reached
      exact ih (h.2 u one) rests

theorem Throughout.mono {Q : σ → Prop} (imp : ∀ s, P s → Q s) {s : σ} {inputs : List ι}
    (h : Throughout step P s inputs) : Throughout step Q s inputs := by
  induction inputs generalizing s with
  | nil => exact imp s h
  | cons i rest ih => exact ⟨imp s h.1, fun t first => ih (h.2 t first)⟩

theorem throughout_of_meets {I : σ → Prop} (preserved : ∀ s i t, I s → guard s i → step s i = some t → I t)
    (inside : ∀ s, I s → P s) {s : σ} (initial : I s) {inputs : List ι} (meets : Meets step guard s inputs) :
    Throughout step P s inputs := by
  induction inputs generalizing s with
  | nil => exact inside s initial
  | cons i rest ih =>
      exact ⟨inside s initial, fun t first => ih (preserved s i t initial meets.1 first) (meets.2 t first)⟩

theorem throughout_of_invariant {I : σ → Prop} (always : ∀ s i t, I s → step s i = some t → I t)
    (inside : ∀ s, I s → P s) {s : σ} (initial : I s) (inputs : List ι) : Throughout step P s inputs :=
  throughout_of_meets (fun s i t hs _ => always s i t hs) inside initial (meets_true s inputs)

/-- When guarded steps keep `I` and unguarded ones leave `P`, the runs that stay in `P` are exactly
the guarded ones. -/
theorem throughout_iff_guarded {I : σ → Prop} (inside : ∀ s, I s → P s)
    (stuck : ∀ s i, I s → step s i = none → guard s i)
    (keeps : ∀ s i t, I s → step s i = some t → guard s i → I t)
    (leaves : ∀ s i t, I s → step s i = some t → ¬ guard s i → ¬ P t)
    {s : σ} (initial : I s) (inputs : List ι) :
    Throughout step P s inputs ↔ Meets step guard s inputs := by
  induction inputs generalizing s with
  | nil => exact ⟨fun _ => trivial, fun _ => inside s initial⟩
  | cons i rest ih =>
      constructor
      · rintro ⟨_, later⟩
        have guarded : guard s i := by
          by_contra unguarded
          cases first : step s i with
          | none => exact unguarded (stuck s i initial first)
          | some u => exact leaves s i u initial first unguarded (later u first).first
        exact ⟨guarded, fun t first => (ih (keeps s i t initial first guarded)).mp (later t first)⟩
      · rintro ⟨guarded, later⟩
        exact ⟨inside s initial, fun t first =>
          (ih (keeps s i t initial first guarded)).mpr (later t first)⟩

theorem throughout_iff_guarded_run {I : σ → Prop} {legal : σ → ι → Prop} (inside : ∀ s, I s → P s)
    (keeps : ∀ s i t, I s → legal s i → step s i = some t → guard s i → I t)
    (leaves : ∀ s i t, I s → legal s i → step s i = some t → ¬ guard s i → ¬ P t)
    {s last : σ} (initial : I s) {inputs : List ι} (legals : Meets step legal s inputs)
    (reached : run step s inputs = some last) : Throughout step P s inputs ↔ Meets step guard s inputs := by
  induction inputs generalizing s with
  | nil => exact ⟨fun _ => trivial, fun _ => inside s initial⟩
  | cons i rest ih =>
      obtain ⟨u, first, rests⟩ := run_cons reached
      have next : guard s i → (Throughout step P u rest ↔ Meets step guard u rest) := fun guarded =>
        ih (keeps s i u initial legals.1 first guarded) (legals.2 u first) rests
      constructor
      · rintro ⟨_, later⟩
        have guarded : guard s i := by
          by_contra unguarded
          exact leaves s i u initial legals.1 first unguarded (later u first).first
        refine ⟨guarded, fun t step' => ?_⟩
        cases first.symm.trans step'
        exact (next guarded).mp (later u first)
      · rintro ⟨guarded, later⟩
        refine ⟨inside s initial, fun t step' => ?_⟩
        cases first.symm.trans step'
        exact (next guarded).mpr (later u first)

/-- The same when every input has a step, which ends in `P` exactly if it was guarded. Here `I` is an
invariant of all runs. -/
theorem throughout_iff_meets {I : σ → Prop} (total : ∀ s i, ∃ t, step s i = some t)
    (always : ∀ s i t, I s → step s i = some t → I t)
    (exact_step : ∀ s i t, I s → P s → step s i = some t → (P t ↔ guard s i))
    {s : σ} (hI : I s) (initial : P s) (inputs : List ι) :
    Throughout step P s inputs ↔ Meets step guard s inputs := by
  refine throughout_iff_guarded (I := fun s => I s ∧ P s) (fun s h => h.2) ?_ ?_ ?_ ⟨hI, initial⟩ inputs
  · intro s i _ none
    obtain ⟨t, some⟩ := total s i
    cases none.symm.trans some
  · exact fun s i t h first guarded =>
      ⟨always s i t h.1 first, (exact_step s i t h.1 h.2 first).mpr guarded⟩
  · exact fun s i t h first unguarded after => unguarded ((exact_step s i t h.1 h.2 first).mp after)

end SnapOS.Lib
