/- Computations on a state that keep the state at the point where they stop. -/
import SnapOS.Lib.Exec

namespace SnapOS.Lib

/-- Like `Exec`, but a computation that stops leaves the state as it is then. -/
abbrev Steps (σ : Type) := EStateM Fault σ

namespace Steps

variable {σ α β : Type}

def panic (message : String) : Steps σ α := throw (.panic message)

/-- The state of a computation that stops is forgotten. -/
def erase (x : Steps σ α) (s : σ) : Exec (α × σ) :=
  match x s with
  | .ok a t => .ok (a, t)
  | .error e _ => .error e

/-- A panic before anything has changed. -/
def Rejects (x : Steps σ α) (s : σ) : Prop := ∃ message, x s = .error (.panic message) s

theorem bind_apply (x : Steps σ α) (f : α → Steps σ β) (s : σ) :
    (x >>= f) s = match x s with
      | .ok a t => f a t
      | .error e t => .error e t := by
  change EStateM.bind x f s = _
  rw [EStateM.bind]
  cases x s <;> rfl

theorem bind_ok {x : Steps σ α} {f : α → Steps σ β} {s t : σ} {a : α} (h : x s = .ok a t) : (x >>= f) s = f a t := by
  rw [bind_apply, h]

theorem bind_error {x : Steps σ α} {f : α → Steps σ β} {s t : σ} {e : Fault} (h : x s = .error e t) :
    (x >>= f) s = .error e t := by
  rw [bind_apply, h]

theorem bind_eq_ok {x : Steps σ α} {f : α → Steps σ β} {s t : σ} {b : β} :
    (x >>= f) s = .ok b t ↔ ∃ a u, x s = .ok a u ∧ f a u = .ok b t := by
  rw [bind_apply]
  constructor
  · intro done
    cases first : x s with
    | ok a u =>
        rw [first] at done
        exact ⟨a, u, rfl, done⟩
    | error e u =>
        rw [first] at done
        cases done
  · rintro ⟨a, u, first, later⟩
    rw [first]
    exact later

theorem bind_eq_error {x : Steps σ α} {f : α → Steps σ β} {s t : σ} {e : Fault} :
    (x >>= f) s = .error e t ↔ x s = .error e t ∨ ∃ a u, x s = .ok a u ∧ f a u = .error e t := by
  rw [bind_apply]
  constructor
  · intro stopped
    cases first : x s with
    | ok a u =>
        rw [first] at stopped
        exact Or.inr ⟨a, u, rfl, stopped⟩
    | error e' u =>
        rw [first] at stopped
        cases stopped
        exact Or.inl rfl
  · rintro (early | ⟨a, u, first, later⟩)
    · rw [early]
    · rw [first]
      exact later

theorem pure_apply (a : α) (s : σ) : (pure a : Steps σ α) s = .ok a s := rfl

theorem get_bind (f : σ → Steps σ β) (s : σ) : ((get : Steps σ σ) >>= f) s = f s s := bind_apply _ _ _

theorem set_bind (t s : σ) (f : PUnit → Steps σ β) : ((set t : Steps σ PUnit) >>= f) s = f ⟨⟩ t := bind_apply _ _ _

theorem not_rejects_of_erase {x : Steps σ α} {s : σ} {r : α × σ} (done : x.erase s = .ok r) : ¬ x.Rejects s := by
  rintro ⟨message, stopped⟩
  rw [erase, stopped] at done
  cases done

theorem not_rejects_of_changed {x : Steps σ α} {s t : σ} {e : Fault} (stopped : x s = .error e t) (changed : t ≠ s) :
    ¬ x.Rejects s := by
  rintro ⟨message, early⟩
  rw [stopped] at early
  exact changed (EStateM.Result.error.inj early).2

@[simp] theorem erase_pure (a : α) (s : σ) : erase (pure a : Steps σ α) s = .ok (a, s) := rfl

@[simp] theorem erase_get (s : σ) : erase (get : Steps σ σ) s = .ok (s, s) := rfl

@[simp] theorem erase_set (t s : σ) : erase (set t : Steps σ PUnit) s = .ok (⟨⟩, t) := rfl

@[simp] theorem erase_panic (message : String) (s : σ) :
    erase (panic message : Steps σ α) s = Exec.panic message := rfl

@[simp] theorem erase_bind (x : Steps σ α) (f : α → Steps σ β) (s : σ) :
    erase (x >>= f) s = erase x s >>= fun r => erase (f r.1) r.2 := by
  change erase (EStateM.bind x f) s = _
  simp only [erase, EStateM.bind]
  cases x s <;> rfl

theorem erase_ite {c : Prop} [Decidable c] (x y : Steps σ α) (s : σ) :
    erase (if c then x else y) s = if c then erase x s else erase y s := by
  split <;> rfl

/-- A run of which a part has been evaluated. -/
theorem exists_ok_of_erase {x : Steps σ α} {s : σ} {g : α × σ → β} {b : β}
    (h : (x.erase s).toOption.map g = some b) : ∃ a t, x s = .ok a t ∧ g (a, t) = b := by
  rw [erase] at h
  cases ended : x s with
  | ok a t =>
      rw [ended] at h
      exact ⟨a, t, rfl, Option.some.inj h⟩
  | error e t =>
      rw [ended] at h
      cases h

def fault (x : Steps σ α) (s : σ) : Option Fault :=
  match x s with
  | .ok _ _ => none
  | .error e _ => some e

theorem exists_error_of_fault {x : Steps σ α} {s : σ} {e : Fault} (h : x.fault s = some e) :
    ∃ t, x s = .error e t := by
  rw [fault] at h
  cases ended : x s with
  | ok a t =>
      rw [ended] at h
      cases h
  | error e' t =>
      rw [ended] at h
      cases h
      exact ⟨t, rfl⟩

/-! Results that do not depend on the state -/

/-- Every run returns what `X` returns, or stops with its fault. -/
def Gives (x : Steps σ α) (X : Exec α) : Prop := ∀ s, (x.erase s).map Prod.fst = X

namespace Gives

variable {x y : Steps σ α} {X Y : Exec α} {f : α → Steps σ β} {F : α → Exec β}

theorem pure (a : α) : Gives (Pure.pure a : Steps σ α) (.ok a) := fun _ => rfl

theorem throw (e : Fault) : Gives (MonadExcept.throw e : Steps σ α) (.error e) := fun _ => rfl

theorem of_ok {s t : σ} {a : α} (gives : Gives x X) (done : x s = .ok a t) : X = .ok a := by
  rw [← gives s, erase, done]
  rfl

theorem of_error {s t : σ} {e : Fault} (gives : Gives x X) (stopped : x s = .error e t) : X = .error e := by
  rw [← gives s, erase, stopped]
  rfl

theorem after {Z : Exec β} (P : α → Prop) (done : ∀ s, ∃ a t, x s = .ok a t ∧ P a)
    (later : ∀ a, P a → Gives (f a) Z) : Gives (x >>= f) Z := by
  intro s
  obtain ⟨a, t, first, holds⟩ := done s
  rw [erase, Steps.bind_ok first, ← later a holds t]
  rfl

theorem map_bind {γ : Type} {φ : γ → α} {Z : Exec γ} {K : γ → Exec β} (first : Gives x (Z.map φ))
    (later : ∀ c, Gives (f (φ c)) (K c)) : Gives (x >>= f) (Z >>= K) := by
  intro s
  cases Z with
  | ok c =>
      cases ended : x s with
      | ok a t =>
          obtain rfl := Except.ok.inj (first.of_ok ended)
          rw [erase, Steps.bind_ok ended, Exec.ok_bind, ← later c t]
          rfl
      | error e t => cases first.of_error ended
  | error e =>
      cases ended : x s with
      | ok a t => cases first.of_ok ended
      | error e' t =>
          cases first.of_error ended
          rw [erase, Steps.bind_error ended]
          rfl

theorem bind (first : Gives x X) (later : ∀ a, Gives (f a) (F a)) : Gives (x >>= f) (X >>= F) := by
  refine map_bind (φ := id) ?_ later
  rwa [Except.map_id]

theorem ok_bind {a : α} {Z : Exec β} (first : Gives x (.ok a)) (later : Gives (f a) Z) : Gives (x >>= f) Z := by
  refine after (· = a) (fun s => ?_) fun b same => same ▸ later
  cases ended : x s with
  | ok b t => exact ⟨b, t, rfl, (Except.ok.inj (first.of_ok ended)).symm⟩
  | error e t => cases first.of_error ended

theorem ite {c : Prop} [Decidable c] (yes : c → Gives x X) (no : ¬ c → Gives y Y) :
    Gives (if c then x else y) (if c then X else Y) := by
  split
  · next h => exact yes h
  · next h => exact no h

theorem through {γ : Type} {g : α → Exec β} {k : α → Steps σ γ} {Z : Exec β} {K : β → Exec γ}
    (first : Gives (x >>= f) Z) (agrees : ∀ a, Gives (f a) (g a)) (later : ∀ a, Gives (k a) (g a >>= K)) :
    Gives (x >>= k) (Z >>= K) := by
  intro s
  cases ended : x s with
  | ok a t =>
      have same : Z = g a := by
        rw [← first s, erase, Steps.bind_ok ended]
        exact agrees a t
      rw [same, erase, Steps.bind_ok ended]
      exact later a t
  | error e t =>
      rw [first.of_error (Steps.bind_error ended), erase, Steps.bind_error ended]
      rfl

end Gives

/-! What holds of every run -/

def final (x : Steps σ α) (s : σ) : σ :=
  match x s with
  | .ok _ t => t
  | .error _ t => t

theorem final_ok {x : Steps σ α} {s t : σ} {a : α} (done : x s = .ok a t) : x.final s = t := by
  rw [final, done]

theorem final_error {x : Steps σ α} {s t : σ} {e : Fault} (stopped : x s = .error e t) : x.final s = t := by
  rw [final, stopped]

theorem final_of_eq {x : Steps σ α} {y : Steps σ α} {s t : σ} (same : x s = y t) : x.final s = y.final t := by
  rw [final, final, same]

theorem final_bind {x : Steps σ α} {f : α → Steps σ β} {s t : σ} {a : α} (done : x s = .ok a t) :
    final (x >>= f) s = (f a).final t := by
  rw [final, bind_ok done]
  rfl

/-- A run from `s` ends in a state that `R` relates to `s`, with a result in `Q` or a fault in `F`. -/
def Leads (R : σ → σ → Prop) (F : Fault → Prop) (Q : α → Prop) (x : Steps σ α) : Prop :=
  ∀ s, (∀ a t, x s = .ok a t → R s t ∧ Q a) ∧ ∀ e t, x s = .error e t → R s t ∧ F e

namespace Leads

variable {R : σ → σ → Prop} {F : Fault → Prop} {Q : α → Prop} {Q' : β → Prop}

theorem pure (refl : ∀ s, R s s) {a : α} (holds : Q a) : Leads R F Q (Pure.pure a : Steps σ α) := by
  intro s
  refine ⟨?_, ?_⟩
  · rintro _ _ ⟨⟩
    exact ⟨refl s, holds⟩
  · rintro _ _ ⟨⟩

theorem throw (refl : ∀ s, R s s) {e : Fault} (allowed : F e) : Leads R F Q (MonadExcept.throw e : Steps σ α) := by
  intro s
  refine ⟨?_, ?_⟩
  · rintro _ _ ⟨⟩
  · rintro _ _ ⟨⟩
    exact ⟨refl s, allowed⟩

theorem bind (trans : ∀ s t u, R s t → R t u → R s u) {x : Steps σ α} {f : α → Steps σ β} (first : Leads R F Q x)
    (later : ∀ a, Q a → Leads R F Q' (f a)) : Leads R F Q' (x >>= f) := by
  intro s
  refine ⟨fun b t done => ?_, fun e t stopped => ?_⟩
  · obtain ⟨a, u, one, two⟩ := bind_eq_ok.mp done
    obtain ⟨toU, holds⟩ := (first s).1 a u one
    obtain ⟨toT, result⟩ := (later a holds u).1 b t two
    exact ⟨trans s u t toU toT, result⟩
  · rcases bind_eq_error.mp stopped with early | ⟨a, u, one, two⟩
    · exact (first s).2 e t early
    · obtain ⟨toU, holds⟩ := (first s).1 a u one
      obtain ⟨toT, allowed⟩ := (later a holds u).2 e t two
      exact ⟨trans s u t toU toT, allowed⟩

theorem final {x : Steps σ α} (leads : Leads R F Q x) (s : σ) : R s (x.final s) := by
  rw [Steps.final]
  cases ended : x s with
  | ok a t => exact ((leads s).1 a t ended).1
  | error e t => exact ((leads s).2 e t ended).1

theorem imp {Q₂ : α → Prop} {x : Steps σ α} (leads : Leads R F Q x) (weaker : ∀ a, Q a → Q₂ a) : Leads R F Q₂ x := by
  intro s
  refine ⟨fun a t done => ?_, (leads s).2⟩
  obtain ⟨related, holds⟩ := (leads s).1 a t done
  exact ⟨related, weaker a holds⟩

theorem ite {c : Prop} [Decidable c] {x y : Steps σ α} (yes : c → Leads R F Q x) (no : ¬ c → Leads R F Q y) :
    Leads R F Q (if c then x else y) := by
  split
  · next h => exact yes h
  · next h => exact no h

theorem of_final {x : Steps σ α} (related : ∀ s, R s (x.final s)) : Leads R (fun _ => True) (fun _ => True) x := by
  intro s
  refine ⟨fun a t done => ⟨?_, trivial⟩, fun e t stopped => ⟨?_, trivial⟩⟩
  · exact final_ok done ▸ related s
  · exact final_error stopped ▸ related s

theorem after (refl : ∀ s, R s s) {x : Steps σ α} {f : α → Steps σ β} (later : ∀ a, Leads R F Q' (f a)) (s : σ) :
    R (x.final s) ((x >>= f).final s) := by
  cases ended : x s with
  | ok a t =>
      rw [final_ok ended, final_bind ended]
      exact (later a).final t
  | error e t =>
      rw [Steps.final, Steps.final, bind_error ended, ended]
      exact refl t

end Leads

end Steps
end SnapOS.Lib
