/- vfs_lookup as a fold over the components of a path. -/
import SnapOS.DirSound

namespace SnapOS.Fs
open SnapOS.Lib
open SnapOS.Ext2Io (Remains EachComponent)

namespace Vfs

/-- The pieces between the slashes of a string that ends at its first zero byte, without the empty ones. -/
def components (path : List UInt8) : List (List UInt8) :=
  ((path.takeWhile (· ≠ 0)).splitOnP (· = slash)).filter (· ≠ [])

def lookupAll (sb : Superblock) (mem : Allocator) : List (List UInt8) → Nat → Vfs → Exec (Except Int Nat × Vfs)
  | [], cur, s => .ok (.ok cur, s)
  | name :: rest, cur, s =>
      match (s.dentry cur).inode with
      | none => .error .outOfBounds
      | some inode =>
          if !isDir inode.mode then .ok (.error (-eNotDir), s)
          else do
            let (child, s) ← s.vfsLookupDirect sb mem cur ⟨name, vfsHashName name⟩
            match child with
            | .error err => .ok (.error err, s)
            | .ok child => lookupAll sb mem rest child s

/-- The lookup of a path is the lookup of its components, however they are separated, and each of them is passed as it
stands in the path. -/
structure Folds (path : List UInt8) : Prop where
  result : ∀ sb mem s, vfsLookup sb mem path s = lookupAll sb mem (components path) s.root s
  slashes : ∀ other, components other = components path → ∀ sb mem s,
    vfsLookup sb mem other s = vfsLookup sb mem path s
  passed : EachComponent path fun rest =>
    component rest = ⟨rest.takeWhile inComponent, vfsHashName (rest.takeWhile inComponent)⟩

/-! The components -/

section Components

variable {path rest : List UInt8}

theorem components_slash (t : List UInt8) : components (slash :: t) = components t := by
  have inside : (slash :: t).takeWhile (· ≠ 0) = slash :: t.takeWhile (· ≠ 0) := List.takeWhile_cons_of_pos (by decide)
  have split : (slash :: t.takeWhile (· ≠ 0)).splitOnP (· = slash) =
      [] :: (t.takeWhile (· ≠ 0)).splitOnP (· = slash) := by
    rw [List.splitOnP_cons_eq_if_modifyHead, if_pos (by decide)]
  rw [components, inside, split, List.filter_cons_of_neg (by decide), ← components]

theorem components_skipSlashes (path : List UInt8) : components (skipSlashes path) = components path := by
  induction path with
  | nil => rfl
  | cons c t ih =>
      by_cases isSlash : c = slash
      · rw [isSlash, components_slash, ← ih, skipSlashes, List.dropWhile_cons_of_pos (by decide), ← skipSlashes]
      · rw [skipSlashes, List.dropWhile_cons_of_neg (by simpa using isSlash)]

theorem takeWhile_ended (ended : charAt path 0 = 0) : path.takeWhile (· ≠ 0) = [] := by
  cases path with
  | nil => rfl
  | cons c t =>
      have zero : c = 0 := ended
      exact List.takeWhile_cons_of_neg (by simpa using zero)

theorem components_ended (ended : charAt path 0 = 0) : components path = [] := by
  rw [components, takeWhile_ended ended]
  rfl

theorem charAt_skipSlashes (path : List UInt8) : charAt (skipSlashes path) 0 ≠ slash := by
  induction path with
  | nil => decide
  | cons c t ih =>
      by_cases isSlash : c = slash
      · rw [isSlash, skipSlashes, List.dropWhile_cons_of_pos (by decide)]
        exact ih
      · rw [skipSlashes, List.dropWhile_cons_of_neg (by simpa using isSlash)]
        exact isSlash

theorem token_ne_nil (more : charAt rest 0 ≠ 0) (starts : charAt rest 0 ≠ slash) : rest.takeWhile inComponent ≠ [] := by
  cases rest with
  | nil => exact absurd rfl more
  | cons c t =>
      have inside : inComponent c = true := by
        simp only [inComponent, Bool.and_eq_true, decide_eq_true_eq]
        exact ⟨more, starts⟩
      rw [List.takeWhile_cons_of_pos inside]
      exact List.cons_ne_nil _ _

theorem behind_token (rest : List UInt8) :
    charAt (rest.dropWhile inComponent) 0 = 0 ∨ ∃ t, rest.dropWhile inComponent = slash :: t := by
  cases behind : rest.dropWhile inComponent with
  | nil => exact Or.inl rfl
  | cons c t =>
      have outside : ¬ inComponent c = true := by
        have head := List.head_dropWhile_not inComponent
          (show rest.dropWhile inComponent ≠ [] by rw [behind]; exact List.cons_ne_nil _ _)
        simpa [behind] using head
      by_cases zero : c = 0
      · exact Or.inl zero
      · refine Or.inr ⟨t, ?_⟩
        have isSlash : c = slash := by
          by_contra other
          exact outside (by simp only [inComponent, Bool.and_eq_true, decide_eq_true_eq]; exact ⟨zero, other⟩)
        rw [isSlash]

theorem components_token (more : charAt rest 0 ≠ 0) (starts : charAt rest 0 ≠ slash) :
    components rest = rest.takeWhile inComponent :: components (skipSlashes (rest.dropWhile inComponent)) := by
  have token : ∀ c ∈ rest.takeWhile inComponent, c ≠ 0 ∧ c ≠ slash := by
    intro c member
    simpa [inComponent] using List.mem_takeWhile_imp member
  have whole : rest.takeWhile (· ≠ 0) =
      rest.takeWhile inComponent ++ (rest.dropWhile inComponent).takeWhile (· ≠ 0) := by
    conv_lhs => rw [← List.takeWhile_append_dropWhile (p := inComponent) (l := rest)]
    exact List.takeWhile_append_of_pos fun c member => by simpa using (token c member).1
  have single : (rest.takeWhile inComponent).splitOnP (· = slash) = [rest.takeWhile inComponent] :=
    List.splitOnP_eq_singleton fun c member => by simpa using (token c member).2
  have kept (later : List (List UInt8)) : (rest.takeWhile inComponent :: later).filter (· ≠ []) =
      rest.takeWhile inComponent :: later.filter (· ≠ []) :=
    List.filter_cons_of_pos (decide_eq_true (token_ne_nil more starts))
  rw [components_skipSlashes, components, whole]
  rcases behind_token rest with ended | ⟨t, behind⟩
  · have empty : (rest.dropWhile inComponent).takeWhile (· ≠ 0) = [] := takeWhile_ended ended
    rw [components_ended ended, empty, List.append_nil, single, kept, List.filter_nil]
  · have next : (slash :: t).takeWhile (· ≠ 0) = slash :: t.takeWhile (· ≠ 0) := List.takeWhile_cons_of_pos (by decide)
    rw [behind, components_slash, next, List.splitOnP_append_cons _ _ (by decide), single, List.singleton_append,
      kept, ← components]

example : components [0x2F, 0x2F, 0x61, 0x2F, 0x62, 0x63, 0x2F, 0, 0x64] = [[0x61], [0x62, 0x63]] := by decide

end Components

/-! The loop -/

section Loop

variable {path rest : List UInt8} {sb : Superblock} {mem : Allocator}

theorem component_eq_iff : component rest = ⟨rest.takeWhile inComponent, vfsHashName (rest.takeWhile inComponent)⟩ ↔
    (rest.takeWhile inComponent).length < word32 := by
  constructor
  · intro exactly
    have length : ((rest.takeWhile inComponent).take ((rest.takeWhile inComponent).length % word32)).length =
        (rest.takeWhile inComponent).length := congrArg (fun q => q.str.length) exactly
    have less : (rest.takeWhile inComponent).length % word32 < word32 := Nat.mod_lt _ (by decide)
    rw [List.length_take] at length
    omega
  · intro small
    rw [component, Nat.mod_eq_of_lt small, List.take_length]

theorem vfsLookupFrom_folds {fuel : Nat} (enough : path.length < fuel) (starts : charAt path 0 ≠ slash)
    (small : ∀ name ∈ components path, name.length < word32) (cur : Nat) (s : Vfs) :
    vfsLookupFrom sb mem fuel path cur s = lookupAll sb mem (components path) cur s := by
  induction fuel generalizing path cur s with
  | zero => cases enough
  | succ fuel ih =>
      rw [vfsLookupFrom]
      by_cases ended : charAt path 0 = 0
      · rw [if_pos ended, components_ended ended, lookupAll]
      · have tokens := components_token ended starts
        rw [tokens] at small
        have exactly := component_eq_iff.mpr (small _ List.mem_cons_self)
        rw [if_neg ended, tokens, lookupAll, exactly]
        cases (s.dentry cur).inode with
        | none => rfl
        | some inode =>
            dsimp only
            split_ifs with notDir
            · rfl
            · refine congrArg (Bind.bind _) (funext fun r => ?_)
              obtain ⟨child, s'⟩ := r
              cases child with
              | error err => rfl
              | ok child =>
                  have shorter := rest_lt ended
                  exact ih (by omega) (charAt_skipSlashes _)
                    (fun name member => small name (List.mem_cons_of_mem _ member))
                    child s'

theorem vfsLookup_folds (small : ∀ name ∈ components path, name.length < word32) (s : Vfs) :
    vfsLookup sb mem path s = lookupAll sb mem (components path) s.root s := by
  have shorter : (skipSlashes path).length ≤ path.length := List.length_dropWhile_le _ _
  rw [← components_skipSlashes] at small ⊢
  exact vfsLookupFrom_folds (by omega) (charAt_skipSlashes path) small s.root s

theorem remains_starts (remains : Remains path rest) : charAt rest 0 ≠ slash := by
  cases remains with
  | start => exact charAt_skipSlashes _
  | next before more => exact charAt_skipSlashes _

theorem remains_suffix (remains : Remains path rest) : components rest <:+ components path := by
  induction remains with
  | start => exact ⟨[], by rw [components_skipSlashes, List.nil_append]⟩
  | next before more ih =>
      rw [components_token more (remains_starts before)] at ih
      exact (List.suffix_cons _ _).trans ih

theorem component_remains {left name : List UInt8} (remains : Remains path left) (member : name ∈ components left) :
    ∃ rest, Remains path rest ∧ charAt rest 0 ≠ 0 ∧ rest.takeWhile inComponent = name := by
  generalize names : components left = l at member
  induction l generalizing left with
  | nil => cases member
  | cons first later ih =>
      have more : charAt left 0 ≠ 0 := by
        intro ended
        rw [components_ended ended] at names
        cases names
      rw [components_token more (remains_starts remains)] at names
      obtain ⟨rfl, rfl⟩ := List.cons.inj names
      rcases List.mem_cons.mp member with rfl | later
      · exact ⟨left, remains, more, rfl⟩
      · exact ih (.next remains more) rfl later

end Loop

theorem vfsLookup_folds_iff (path : List UInt8) : Folds path ↔ ∀ name ∈ components path, name.length < word32 := by
  constructor
  · intro folds name member
    rw [← components_skipSlashes] at member
    obtain ⟨rest, remains, more, rfl⟩ := component_remains .start member
    exact component_eq_iff.mp (folds.passed rest remains more)
  · intro small
    refine ⟨fun sb mem s => vfsLookup_folds small s, fun other same sb mem s => ?_, fun rest remains more => ?_⟩
    · rw [vfsLookup_folds (same ▸ small), vfsLookup_folds small, same]
    · have tokens := components_token more (remains_starts remains)
      have member : rest.takeWhile inComponent ∈ components rest := tokens ▸ List.mem_cons_self
      exact component_eq_iff.mpr (small _ ((remains_suffix remains).subset member))

theorem takeWhile_replicate (n : Nat) :
    (List.replicate n (0x61 : UInt8)).takeWhile inComponent = List.replicate n 0x61 := by
  rw [List.takeWhile_replicate, if_pos (by decide)]

theorem Folds.replicate_lt {n : Nat} (folds : Folds (List.replicate (n + 1) 0x61)) : n + 1 < word32 := by
  have starts : skipSlashes (List.replicate (n + 1) 0x61) = List.replicate (n + 1) 0x61 := by
    rw [skipSlashes, List.replicate_succ]
    exact List.dropWhile_cons_of_neg (by decide)
  have remains : Remains (List.replicate (n + 1) 0x61) (List.replicate (n + 1) 0x61) := by
    have first : Remains (List.replicate (n + 1) 0x61) (skipSlashes (List.replicate (n + 1) 0x61)) := .start
    rwa [starts] at first
  have more : charAt (List.replicate (n + 1) 0x61) 0 ≠ 0 := by
    rw [List.replicate_succ]
    exact (by decide : (0x61 : UInt8) ≠ 0)
  have small := component_eq_iff.mp (folds.passed _ remains more)
  rwa [takeWhile_replicate, List.length_replicate] at small

/-- A component of 2³² bytes is passed as the empty name. -/
theorem huge_component_is_empty :
    component (List.replicate word32 0x61) = ⟨[], vfsHashName []⟩ ∧ ¬ Folds (List.replicate word32 0x61) := by
  refine ⟨?_, fun folds => ?_⟩
  · rw [component, takeWhile_replicate, List.length_replicate, Nat.mod_self, List.take_zero]
  · exact absurd (Folds.replicate_lt (n := word32 - 1) folds) (by decide)

end Vfs
end SnapOS.Fs
