/- Any number of the lists of list.h in one heap: what an operation on one of them does to all. -/
import SnapOS.ListHead
import Mathlib.Data.Fin.VecNotation

namespace SnapOS.ListHeads
open SnapOS.Lib

variable {N ι : Type*}

/-- The nodes that `list_for_each_entry` still visits when it has come to `pos`. The loop is cut off after `fuel`
turns. -/
def listForEachFrom [DecidableEq N] (l : ListHeads N) (head : N) : Nat → N → Option (List N)
  | 0, _ => none
  | fuel + 1, pos =>
      if pos = head then some [] else (listForEachFrom l head fuel (l.next pos)).map (pos :: ·)

def listForEachEntry [DecidableEq N] (l : ListHeads N) (head : N) (fuel : Nat) : Option (List N) :=
  listForEachFrom l head fuel (l.next head)

/-- The lists have no node in common, heads included. -/
structure Lists (l : ListHeads N) (head : ι → N) (seq : ι → List N) : Prop where
  represents : ∀ i, l.Represents (head i) (seq i)
  apart : ∀ i j, i ≠ j → List.Disjoint (head i :: seq i) (head j :: seq j)

section Walk

variable [DecidableEq N] {l : ListHeads N} {head a : N} {s : List N}

theorem listForEachFrom_leads (leads : Leads l.next a s head) (outside : head ∉ s) {fuel : Nat}
    (enough : s.length < fuel) : listForEachFrom l head fuel (l.next a) = some s := by
  induction s generalizing a fuel with
  | nil =>
      obtain ⟨turns, rfl⟩ := Nat.exists_eq_add_one.mpr enough
      exact if_pos leads
  | cons x s ih =>
      obtain ⟨turns, rfl⟩ := Nat.exists_eq_add_one.mpr (Nat.zero_lt_of_lt enough)
      rw [List.mem_cons, not_or] at outside
      rw [listForEachFrom, leads.1, if_neg (Ne.symm outside.1), ih leads.2 outside.2 (Nat.lt_of_succ_lt_succ enough)]
      rfl

theorem Represents.listForEachEntry (rep : l.Represents head s) {fuel : Nat} (enough : s.length < fuel) :
    l.listForEachEntry head fuel = some s :=
  listForEachFrom_leads rep.leads_home (List.nodup_cons.mp rep.nodup).1 enough

end Walk

namespace Lists

variable {l l' : ListHeads N} {head : ι → N} {seq : ι → List N} (lists : Lists l head seq)
include lists

theorem outside {i j : ι} (other : j ≠ i) {x : N} (member : x ∈ head j :: seq j) : x ∉ head i :: seq i :=
  lists.apart j i other member

/-- An operation on one list: that list has a new sequence of its own nodes and of nodes that were in no list, and the
nodes of the others are as they were. -/
theorem replace [DecidableEq ι] (i : ι) {t : List N} (rep : l'.Represents (head i) t)
    (nodes : ∀ x ∈ t, x ∈ seq i ∨ ∀ j, x ∉ head j :: seq j)
    (same : ∀ j, j ≠ i → ∀ x ∈ head j :: seq j, SameAt l l' x) : Lists l' head (Function.update seq i t) := by
  have fromOld : ∀ j, j ≠ i → ∀ x ∈ head i :: t, x ∉ head j :: seq j := by
    intro j other x member
    rcases List.mem_cons.mp member with rfl | inside
    · exact fun inOther => lists.outside other inOther List.mem_cons_self
    · rcases nodes x inside with old | fresh
      · exact fun inOther => lists.outside other inOther (List.mem_cons_of_mem _ old)
      · exact fresh j
  refine ⟨fun j => ?_, fun j k different => ?_⟩
  · by_cases this : j = i
    · subst this
      rw [Function.update_self]
      exact rep
    · rw [Function.update_of_ne this]
      exact (lists.represents j).congr (same j this)
  · by_cases first : j = i
    · subst first
      rw [Function.update_self, Function.update_of_ne (Ne.symm different)]
      exact fromOld k (Ne.symm different)
    · rw [Function.update_of_ne first]
      by_cases second : k = i
      · subst second
        rw [Function.update_self]
        exact fun x member inNew => fromOld j first x inNew member
      · rw [Function.update_of_ne second]
        exact lists.apart j k different

variable [DecidableEq N] [DecidableEq ι] (i : ι)

theorem add {n : N} (fresh : ∀ j, n ∉ head j :: seq j) :
    Lists (l.listAdd n (head i)) head (Function.update seq i (n :: seq i)) := by
  refine lists.replace i ((lists.represents i).listAdd (fresh i)) ?_ fun j other x member => ?_
  · intro x member
    rcases List.mem_cons.mp member with rfl | old
    · exact Or.inr fresh
    · exact Or.inl old
  · have apart := lists.outside other member
    refine sameAt_listAdd ?_ ?_ ?_ ?_
    · exact fun same => fresh i (same ▸ List.mem_cons_self)
    · exact fun same => fresh j (same ▸ member)
    · exact fun same => apart (same ▸ List.mem_cons_self)
    · exact fun same => apart (same ▸ (lists.represents i).next_mem List.mem_cons_self)

theorem addTail {n : N} (fresh : ∀ j, n ∉ head j :: seq j) :
    Lists (l.listAddTail n (head i)) head (Function.update seq i (seq i ++ [n])) := by
  refine lists.replace i ((lists.represents i).listAddTail (fresh i)) ?_ fun j other x member => ?_
  · intro x member
    rcases List.mem_append.mp member with old | new
    · exact Or.inl old
    · exact Or.inr (List.mem_singleton.mp new ▸ fresh)
  · have apart := lists.outside other member
    refine sameAt_listAddTail ?_ ?_ ?_ ?_
    · exact fun same => fresh i (same ▸ List.mem_cons_self)
    · exact fun same => fresh j (same ▸ member)
    · exact fun same => apart (same ▸ List.mem_cons_self)
    · exact fun same => apart (same ▸ (lists.represents i).prev_mem List.mem_cons_self)

theorem del {e : N} (member : e ∈ seq i) :
    Lists (l.listDel e) head (Function.update seq i ((seq i).erase e)) := by
  have rep : (l.listDel e).Represents (head i) ((seq i).erase e) := by
    have whole := lists.represents i
    obtain ⟨front, back, outside, split, erased⟩ := List.exists_erase_eq member
    rw [split] at whole
    rw [erased]
    exact whole.listDel
  refine lists.replace i rep ?_ fun j other x inOther => ?_
  · exact fun x inside => Or.inl (List.mem_of_mem_erase inside)
  · have apart := lists.outside other inOther
    have inList : e ∈ head i :: seq i := List.mem_cons_of_mem _ member
    refine sameAt_listDel ?_ ?_
    · exact fun same => apart (same ▸ (lists.represents i).prev_mem inList)
    · exact fun same => apart (same ▸ (lists.represents i).next_mem inList)

end Lists

/-- The operations of list.h on one of the lists are those on its sequence, and the other lists keep theirs. -/
theorem lists_are_sequences [DecidableEq N] [DecidableEq ι] {l : ListHeads N} {head : ι → N} {seq : ι → List N}
    (lists : Lists l head seq) (i : ι) :
    (∀ n, (∀ j, n ∉ head j :: seq j) →
        Lists (l.listAdd n (head i)) head (Function.update seq i (n :: seq i)) ∧
          Lists (l.listAddTail n (head i)) head (Function.update seq i (seq i ++ [n]))) ∧
      (∀ e ∈ seq i, Lists (l.listDel e) head (Function.update seq i ((seq i).erase e))) ∧
      (l.listEmpty (head i) = true ↔ seq i = []) ∧
      ∀ fuel, (seq i).length < fuel → l.listForEachEntry (head i) fuel = some (seq i) :=
  ⟨fun _ fresh => ⟨lists.add i fresh, lists.addTail i fresh⟩, fun _ member => lists.del i member,
    (lists.represents i).listEmpty_iff, fun _ enough => (lists.represents i).listForEachEntry enough⟩

/-- Two lists of one element, and a node in none. -/
def twoLists : ListHeads (Fin 5) := ⟨![2, 3, 0, 1, 4], ![2, 3, 0, 1, 4]⟩

theorem twoLists_apart : Lists twoLists ![0, 1] ![[2], [3]] := by
  refine ⟨by decide, ?_⟩
  unfold List.Disjoint
  decide

theorem lists_are_sequences_two :
    Lists (twoLists.listAdd 4 0) ![0, 1] (Function.update ![[2], [3]] 0 [4, 2]) ∧
      Lists (twoLists.listDel 3) ![0, 1] (Function.update ![[2], [3]] 1 []) :=
  ⟨((lists_are_sequences twoLists_apart 0).1 4 (by decide)).1, (lists_are_sequences twoLists_apart 1).2.1 3 (by decide)⟩

end SnapOS.ListHeads
