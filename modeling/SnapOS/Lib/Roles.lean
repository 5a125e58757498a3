/- Stores whose blocks have roles: what the cells of a block may hold depends on its role and on the
roles of the blocks it refers to. Roles are only ever added. -/
import Mathlib.Logic.Function.Basic

namespace SnapOS.Lib

variable {A I V R : Type*}

/-- A block without a role is not in use. -/
abbrev Roles (A R : Type*) := A → Option R

def Roles.Extends (old new : Roles A R) : Prop := ∀ a r, old a = some r → new a = some r

theorem Roles.Extends.trans {old mid new : Roles A R} (first : old.Extends mid) (later : mid.Extends new) :
    old.Extends new :=
  fun a r h => later a r (first a r h)

/-- The value a cell may hold, for the role of its block and the index of the cell. A value that is
allowed stays so when blocks get a role. -/
structure CellRules (A I V R : Type*) where
  allows : Roles A R → R → I → V → Prop
  mono : ∀ {old new : Roles A R} {r : R} {i : I} {v : V}, old.Extends new → allows old r i v → allows new r i v

def WellTyped (rules : CellRules A I V R) (roles : Roles A R) (store : A → I → V) : Prop :=
  ∀ a r i, roles a = some r → rules.allows roles r i (store a i)

/-- Blocks in use differ at most in the cells of `touched`. -/
def ChangedWithin (touched : R → I → Prop) (roles : Roles A R) (store store' : A → I → V) : Prop :=
  ∀ a r i, roles a = some r → ¬ touched r i → store' a i = store a i

theorem ChangedWithin.trans {touched : R → I → Prop} {roles roles' : Roles A R} {s s' s'' : A → I → V}
    (first : ChangedWithin touched roles s s') (grown : roles.Extends roles')
    (later : ChangedWithin touched roles' s' s'') : ChangedWithin touched roles s s'' :=
  fun a r i h outside => (later a r i (grown a r h) outside).trans (first a r i h outside)

variable {rules : CellRules A I V R} {roles : Roles A R} {store store' : A → I → V}

theorem WellTyped.congr (typed : WellTyped rules roles store)
    (same : ∀ a r, roles a = some r → store' a = store a) : WellTyped rules roles store' := by
  intro a r i h
  rw [same a r h]
  exact typed a r i h

variable [DecidableEq A]

theorem Roles.extends_update {a : A} (free : roles a = none) (r : R) :
    roles.Extends (Function.update roles a (some r)) := by
  intro b r' h
  have apart : b ≠ a := by
    rintro rfl
    cases free.symm.trans h
  rw [Function.update_of_ne apart]
  exact h

theorem WellTyped.assign {a : A} {r : R} (typed : WellTyped rules roles store) (free : roles a = none)
    (fits : ∀ i, rules.allows (Function.update roles a (some r)) r i (store a i)) :
    WellTyped rules (Function.update roles a (some r)) store := by
  intro b r' i h
  by_cases same : b = a
  · subst same
    rw [Function.update_self] at h
    exact Option.some.inj h ▸ fits i
  · rw [Function.update_of_ne same] at h
    exact rules.mono (Roles.extends_update free r) (typed b r' i h)

variable [DecidableEq I]

theorem WellTyped.write {a : A} {r : R} {i : I} {v : V} (typed : WellTyped rules roles store)
    (role : roles a = some r) (allowed : rules.allows roles r i v) :
    WellTyped rules roles (Function.update store a (Function.update (store a) i v)) := by
  intro b r' j h
  by_cases same : b = a
  · subst same
    cases role.symm.trans h
    rw [Function.update_self]
    by_cases here : j = i
    · subst here
      rw [Function.update_self]
      exact allowed
    · rw [Function.update_of_ne here]
      exact typed b r j h
  · rw [Function.update_of_ne same]
    exact typed b r' j h

theorem changedWithin_write {touched : R → I → Prop} {a : A} {r : R} {i : I} (v : V) (role : roles a = some r)
    (inside : touched r i) :
    ChangedWithin touched roles store (Function.update store a (Function.update (store a) i v)) := by
  intro b r' j h outside
  by_cases same : b = a
  · subst same
    cases role.symm.trans h
    have apart : j ≠ i := by
      rintro rfl
      exact outside inside
    rw [Function.update_self, Function.update_of_ne apart]
  · rw [Function.update_of_ne same]

end SnapOS.Lib
