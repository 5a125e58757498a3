/- Computations that may stop: a panic of the modelled program, an access outside a buffer, or fuel that
ran out in a loop. -/
import Mathlib.Logic.Basic

namespace SnapOS.Lib

/-- Fuel exhaustion is kept apart from a panic: it says nothing about the program. -/
inductive Fault where
  | panic (message : String)
  | outOfBounds
  | outOfFuel
  deriving DecidableEq, Repr

abbrev Exec := Except Fault

namespace Exec

variable {α β : Type}

def panic (message : String) : Exec α := .error (.panic message)

@[simp] theorem ok_bind (a : α) (f : α → Exec β) : ((Except.ok a : Exec α) >>= f) = f a := rfl

@[simp] theorem error_bind (e : Fault) (f : α → Exec β) :
    ((Except.error e : Exec α) >>= f) = .error e := rfl

@[simp] theorem pure_eq_ok (a : α) : (pure a : Exec α) = .ok a := rfl

theorem bind_eq_error {x : Exec α} {f : α → Exec β} {e : Fault} :
    (x >>= f) = .error e ↔ x = .error e ∨ ∃ a, x = .ok a ∧ f a = .error e := by
  cases x with
  | error e => simp
  | ok a => simp

theorem bind_eq_ok {x : Exec α} {f : α → Exec β} {b : β} :
    (x >>= f) = .ok b ↔ ∃ a, x = .ok a ∧ f a = .ok b := by
  cases x with
  | error e => simp
  | ok a => simp

theorem bind_ne_error {x : Exec α} {f : α → Exec β} {e : Fault} (first : x ≠ .error e)
    (later : ∀ a, x = .ok a → f a ≠ .error e) : (x >>= f) ≠ .error e := by
  cases x with
  | error e' => exact fun h => first (congrArg Except.error (Except.error.inj h))
  | ok a => exact later a rfl

theorem exists_ok {x : Exec α} (h : x.toOption.isSome = true) : ∃ a, x = .ok a := by
  cases x with
  | error e => cases h
  | ok a => exact ⟨a, rfl⟩

theorem exists_ok_of_map {x : Exec α} {f : α → β} {b : β} (h : x.toOption.map f = some b) :
    ∃ a, x = .ok a ∧ f a = b := by
  cases x with
  | error e => cases h
  | ok a => exact ⟨a, rfl, Option.some.inj h⟩

theorem error_of_map {x : Exec α} {f : α → β} {e : Fault} (h : x.map f = .error e) : x = .error e := by
  cases x with
  | error e' => exact congrArg Except.error (Except.error.inj h)
  | ok a => cases h

@[simp] theorem map_ok (f : α → β) (a : α) : Except.map f (.ok a : Exec α) = .ok (f a) := rfl

theorem map_bind {γ : Type} (x : Exec α) (f : α → β) (g : β → Exec γ) : (x.map f >>= g) = x >>= fun a => g (f a) := by
  cases x <;> rfl

theorem bind_map {γ : Type} (x : Exec α) (f : α → Exec β) (g : β → γ) :
    (x >>= f).map g = x >>= fun a => (f a).map g := by
  cases x <;> rfl

/-- The fuel was enough. -/
def Ends (x : Exec α) : Prop := x ≠ .error .outOfFuel

theorem Ends.ok (a : α) : Ends (.ok a) := by
  rintro ⟨⟩

theorem Ends.bind {x : Exec α} {f : α → Exec β} (first : x.Ends) (later : ∀ a, (f a).Ends) : (x >>= f).Ends := by
  cases x with
  | error e =>
      intro ended
      exact first (congrArg Except.error (Except.error.inj ended))
  | ok a => exact later a

theorem Ends.map {x : Exec α} (first : x.Ends) (f : α → β) : Ends (x.map f) := by
  cases x with
  | error e =>
      intro ended
      exact first (congrArg Except.error (Except.error.inj ended))
  | ok a => exact .ok (f a)

/-! Simulation -/

/-- The two computations stop in the same way, or return related results. -/
def Rel (R : α → β → Prop) : Exec α → Exec β → Prop
  | .ok a, .ok b => R a b
  | .error e, .error f => e = f
  | _, _ => False

namespace Rel

variable {γ δ : Type} {R : α → β → Prop} {S : γ → δ → Prop} {x : Exec α} {y : Exec β}

theorem ok {a : α} {b : β} (h : R a b) : Rel R (.ok a) (.ok b) := h

theorem cases (h : Rel R x y) :
    (∃ e, x = .error e ∧ y = .error e) ∨ ∃ a b, x = .ok a ∧ y = .ok b ∧ R a b := by
  cases x with
  | error e =>
      cases y with
      | error f => exact Or.inl ⟨e, rfl, congrArg Except.error (Eq.symm h)⟩
      | ok b => exact h.elim
  | ok a =>
      cases y with
      | error f => exact h.elim
      | ok b => exact Or.inr ⟨a, b, rfl, rfl, h⟩

theorem bind {f : α → Exec γ} {g : β → Exec δ} (h : Rel R x y) (later : ∀ a b, R a b → Rel S (f a) (g b)) :
    Rel S (x >>= f) (y >>= g) := by
  obtain ⟨e, rfl, rfl⟩ | ⟨a, b, rfl, rfl, related⟩ := h.cases
  · exact rfl
  · exact later a b related

theorem mono {R' : α → β → Prop} (h : Rel R x y) (imp : ∀ a b, R a b → R' a b) : Rel R' x y := by
  obtain ⟨e, rfl, rfl⟩ | ⟨a, b, rfl, rfl, related⟩ := h.cases
  · exact rfl
  · exact imp a b related

theorem refl {T : α → α → Prop} (same : ∀ a, T a a) (x : Exec α) : Rel T x x := by
  cases x with
  | error e => exact rfl
  | ok a => exact same a

theorem of_ok {a : α} (h : Rel R x y) (returns : x = .ok a) : ∃ b, y = .ok b ∧ R a b := by
  obtain ⟨e, rfl, _⟩ | ⟨a', b, rfl, result, related⟩ := h.cases
  · cases returns
  · cases returns
    exact ⟨b, result, related⟩

theorem map_eq {κ : Type} {f : α → κ} {g : β → κ} (h : Rel R x y) (same : ∀ a b, R a b → f a = g b) :
    x.map f = y.map g := by
  obtain ⟨e, rfl, rfl⟩ | ⟨a, b, rfl, rfl, related⟩ := h.cases
  · rfl
  · exact congrArg Except.ok (same a b related)

end Rel

end Exec
end SnapOS.Lib
