/- The dentries as a cache of the directories on disk. -/
import Mathlib.Data.List.GetD
import Mathlib.Data.List.Perm.Subperm
import SnapOS.Lib.Chain
import SnapOS.Lib.Run
import SnapOS.Resolve

namespace SnapOS.Fs
open SnapOS.Lib

variable {sb : Superblock}

/-! The tree of dentries -/

def Vfs.Holds (sb : Superblock) (s : Vfs) (d : Nat) (r : Inode) : Prop :=
  d ∈ s.live ∧ ∃ i, (s.dentry d).inode = some i ∧ Copy sb r i

/-- The shape of the tree, with the child list of each dentry. -/
structure DentryTree (s : Vfs) (children : Nat → List Nat) : Prop where
  root : s.root ∈ s.live
  nonnull : ∀ d ∈ s.live, d ≠ 0
  chain : ∀ d ∈ s.live, Chain (fun c => (s.dentry c).nextSibling) (s.dentry d).firstChild (children d)
  child : ∀ d ∈ s.live, ∀ c ∈ children d, c ∈ s.live ∧ (s.dentry c).parent = d ∧ c ≠ s.root
  distinct : ∀ d ∈ s.live, (children d).Nodup
  names : ∀ d ∈ s.live, ∀ c ∈ children d, ∀ c' ∈ children d,
    (s.dentry c).name.str = (s.dentry c').name.str → c = c'
  linked : ∀ c ∈ s.live, c ≠ s.root → (s.dentry c).parent ∈ s.live ∧ c ∈ children (s.dentry c).parent
  hash : ∀ d ∈ s.live, (s.dentry d).name.hash = vfsHashName (s.dentry d).name.str

/-- Every dentry has an inode, and below the root it is the one that its name has on disk. -/
structure CacheInv (sb : Superblock) (s : Vfs) (children : Nat → List Nat) : Prop extends
    DentryTree s children where
  inode : ∀ d ∈ s.live, ∃ r, s.Holds sb d r
  cached : ∀ c ∈ s.live, c ≠ s.root → ∀ p r, s.Holds sb (s.dentry c).parent p → s.Holds sb c r →
    lookupOnDisk sb p (s.dentry c).name.str = .ok (.ok r)

theorem Vfs.Holds.unique {s : Vfs} {d : Nat} {r q : Inode} (h : s.Holds sb d r) (h' : s.Holds sb d q) : r = q := by
  obtain ⟨_, i, some, copy⟩ := h
  obtain ⟨_, j, some', copy'⟩ := h'
  cases some.symm.trans some'
  exact copy.same.symm.trans copy'.same

variable {s : Vfs} {children : Nat → List Nat} {name : Qstr}

theorem charAt_ext {a b : List UInt8} (length : a.length = b.length)
    (same : ∀ j < b.length, charAt a j = charAt b j) : a = b := by
  refine List.ext_getElem length fun j inA inB => ?_
  have here := same j inB
  rwa [charAt, charAt, List.getD_eq_getElem _ _ inA, List.getD_eq_getElem _ _ inB] at here

/-- The comparison of lengths, hashes and bytes is the comparison of names. -/
theorem findChild_chain (hash : name.hash = vfsHashName name.str) {list : List Nat} {cur fuel : Nat}
    (chain : Chain (fun c => (s.dentry c).nextSibling) cur list)
    (hashes : ∀ c ∈ list, (s.dentry c).name.hash = vfsHashName (s.dentry c).name.str)
    (enough : list.length < fuel) :
    s.findChild name fuel cur = .ok ((list.find? fun c => (s.dentry c).name.str = name.str).getD 0) := by
  induction list generalizing cur fuel with
  | nil =>
      obtain ⟨fuel, rfl⟩ := Nat.exists_eq_add_one_of_ne_zero (Nat.ne_zero_of_lt enough)
      rw [Vfs.findChild, if_pos (show cur = 0 from chain)]
      rfl
  | cons c rest ih =>
      obtain ⟨fuel, rfl⟩ := Nat.exists_eq_add_one_of_ne_zero (Nat.ne_zero_of_lt enough)
      obtain ⟨rfl, nonzero, later⟩ := chain
      have next := ih later (fun c member => hashes c (List.mem_cons_of_mem _ member))
        (show rest.length < fuel by rw [List.length_cons] at enough; omega)
      rw [Vfs.findChild, if_neg nonzero]
      split_ifs with maybe
      · have stored : ∀ j, 0 ≤ j → j < 0 + name.str.length →
            (.ok (charAt (s.dentry cur).name.str j) : Exec UInt8) = .ok (charAt (s.dentry cur).name.str j) :=
          fun _ _ _ => rfl
        have wanted : ∀ j, 0 ≤ j → j < 0 + name.str.length →
            (.ok (charAt name.str j) : Exec UInt8) = .ok (charAt name.str j) := fun _ _ _ => rfl
        obtain ⟨r, compared, equal⟩ := memcmp_ok stored wanted
        rw [compared, Exec.ok_bind]
        by_cases zero : r = 0
        · have same : (s.dentry cur).name.str = name.str :=
            charAt_ext maybe.2 fun j before => equal.mp zero j (Nat.zero_le j) (by omega)
          rw [if_pos zero, List.find?_cons_of_pos (by simpa using same), Option.getD_some]
        · have other : (s.dentry cur).name.str ≠ name.str := fun same =>
            zero (equal.mpr fun j _ _ => by rw [same])
          rw [if_neg zero, next, List.find?_cons_of_neg (by simpa using other)]
      · have other : (s.dentry cur).name.str ≠ name.str := fun same =>
          maybe ⟨by rw [hashes cur List.mem_cons_self, hash, same], by rw [same]⟩
        rw [next, List.find?_cons_of_neg (by simpa using other)]

theorem DentryTree.findChild (tree : DentryTree s children) (hash : name.hash = vfsHashName name.str) {d : Nat}
    (live : d ∈ s.live) :
    s.findChild name (s.live.length + 1) (s.dentry d).firstChild =
      .ok (((children d).find? fun c => (s.dentry c).name.str = name.str).getD 0) := by
  have inside : children d ⊆ s.live := fun c member => (tree.child d live c member).1
  have few := ((tree.distinct d live).subperm inside).length_le
  exact findChild_chain hash (tree.chain d live)
    (fun c member => tree.hash c (inside member)) (Nat.lt_succ_of_le few)

/-! One component -/

/-- The dentries, their names and their links are the same, and they stand for the same inodes. -/
structure Vfs.SameTree (sb : Superblock) (s s' : Vfs) : Prop where
  live : s'.live = s.live
  root : s'.root = s.root
  name : ∀ d ∈ s.live, (s'.dentry d).name = (s.dentry d).name
  parent : ∀ d ∈ s.live, (s'.dentry d).parent = (s.dentry d).parent
  firstChild : ∀ d ∈ s.live, (s'.dentry d).firstChild = (s.dentry d).firstChild
  nextSibling : ∀ d ∈ s.live, (s'.dentry d).nextSibling = (s.dentry d).nextSibling
  holds : ∀ d r, s.Holds sb d r → s'.Holds sb d r

variable {s' : Vfs}

theorem DentryTree.congr (tree : DentryTree s children) (same : s.SameTree sb s') : DentryTree s' children := by
  refine ⟨?_, ?_, ?_, ?_, ?_, ?_, ?_, ?_⟩
  all_goals simp only [same.live, same.root]
  · exact tree.root
  · exact tree.nonnull
  · intro d live
    rw [same.firstChild d live]
    exact (tree.chain d live).congr fun c member => same.nextSibling c (tree.child d live c member).1
  · intro d live c member
    obtain ⟨liveC, parent, notRoot⟩ := tree.child d live c member
    exact ⟨liveC, (same.parent c liveC).trans parent, notRoot⟩
  · exact tree.distinct
  · intro d live c member c' member'
    rw [same.name c (tree.child d live c member).1, same.name c' (tree.child d live c' member').1]
    exact tree.names d live c member c' member'
  · intro c live notRoot
    rw [same.parent c live]
    exact tree.linked c live notRoot
  · intro d live
    rw [same.name d live]
    exact tree.hash d live

theorem CacheInv.holds_iff (inv : CacheInv sb s children) (same : s.SameTree sb s') (d : Nat) (r : Inode) :
    s'.Holds sb d r ↔ s.Holds sb d r := by
  constructor
  · intro after
    obtain ⟨q, before⟩ := inv.inode d (same.live ▸ after.1)
    exact (same.holds d q before).unique after ▸ before
  · exact same.holds d r

theorem CacheInv.congr (inv : CacheInv sb s children) (same : s.SameTree sb s') : CacheInv sb s' children := by
  refine ⟨inv.toDentryTree.congr same, ?_, ?_⟩
  all_goals simp only [same.live, same.root, inv.holds_iff same]
  · exact inv.inode
  · intro c live notRoot
    rw [same.parent c live, same.name c live]
    exact inv.cached c live notRoot

/-- The directory keeps its singly indirect block, and `child` has come in front of its children. -/
def Vfs.linked (s : Vfs) (parent : Nat) (dir : Inode) (child : Nat) (name : Qstr) (inode : Inode) : Vfs where
  live := child :: s.live
  root := s.root
  dentry a :=
    if a = child then ⟨name, some inode, parent, 0, (s.dentry parent).firstChild⟩
    else if a = parent then { s.dentry parent with inode := some dir, firstChild := child }
    else s.dentry a

theorem dAdd_eq_linked {mem : Allocator} {parent : Nat} (live : parent ∈ s.live) (nonnull : parent ≠ 0)
    (dir inode : Inode) :
    ((s.newDentry mem parent name).2.modify parent fun d => { d with inode := some dir }).dAdd
        (mem.kzalloc s.live) inode = s.linked parent dir (mem.kzalloc s.live) name inode := by
  have apart : parent ≠ mem.kzalloc s.live := fun same => mem.fresh s.live (same ▸ live)
  simp only [Vfs.dAdd, Vfs.modify, Vfs.newDentry, Function.update_self, Function.update_of_ne apart,
    Function.update_of_ne apart.symm, if_pos nonnull, Vfs.linked, Vfs.mk.injEq, true_and, and_true]
  funext a
  simp only [Function.update_apply]
  split_ifs <;> simp_all

theorem dFree_sameTree {mem : Allocator} {parent : Nat} {r dir : Inode} (holds : s.Holds sb parent r)
    (copy : Copy sb r dir) :
    s.SameTree sb (((s.newDentry mem parent name).2.modify parent fun d => { d with inode := some dir }).dFree
      (mem.kzalloc s.live)) := by
  have apart : ∀ d ∈ s.live, d ≠ mem.kzalloc s.live := fun d live same => mem.fresh s.live (same ▸ live)
  have lives : (((s.newDentry mem parent name).2.modify parent fun d => { d with inode := some dir }).dFree
      (mem.kzalloc s.live)).live = s.live := by
    simp only [Vfs.dFree, Vfs.modify, Vfs.newDentry]
    rw [List.filter_cons_of_neg (by simp), List.filter_eq_self]
    exact fun d live => by simpa using apart d live
  have dentries : ∀ d ∈ s.live, (((s.newDentry mem parent name).2.modify parent fun d =>
      { d with inode := some dir }).dFree (mem.kzalloc s.live)).dentry d =
      { s.dentry d with inode := if d = parent then some dir else (s.dentry d).inode } := by
    intro d live
    simp only [Vfs.dFree, Vfs.modify, Vfs.newDentry, Function.update_apply, if_neg (apart d live),
      if_neg (apart parent holds.1)]
    split_ifs with itself
    · rw [itself]
    · rfl
  refine ⟨lives, rfl, ?_, ?_, ?_, ?_, ?_⟩
  · exact fun d live => by rw [dentries d live]
  · exact fun d live => by rw [dentries d live]
  · exact fun d live => by rw [dentries d live]
  · exact fun d live => by rw [dentries d live]
  · intro d q before
    refine ⟨lives.symm ▸ before.1, ?_⟩
    rw [dentries d before.1]
    by_cases itself : d = parent
    · subst itself
      obtain rfl := before.unique holds
      exact ⟨dir, if_pos rfl, copy⟩
    · obtain ⟨_, i, some, copy'⟩ := before
      exact ⟨i, (if_neg itself).trans some, copy'⟩

section Link

variable {parent child : Nat} {p r dir : Inode}

theorem linked_dentry_child (s : Vfs) (parent child : Nat) (dir inode : Inode) (name : Qstr) :
    (s.linked parent dir child name inode).dentry child =
      ⟨name, some inode, parent, 0, (s.dentry parent).firstChild⟩ := if_pos rfl

theorem linked_dentry (fresh : child ∉ s.live) (parent : Nat) (dir inode : Inode) (name : Qstr) {d : Nat}
    (live : d ∈ s.live) :
    (s.linked parent dir child name inode).dentry d =
      { s.dentry d with
        inode := if d = parent then some dir else (s.dentry d).inode
        firstChild := if d = parent then child else (s.dentry d).firstChild } := by
  have apart : d ≠ child := fun same => fresh (same ▸ live)
  simp only [Vfs.linked, if_neg apart]
  split_ifs with itself
  · rw [itself]
  · rfl

theorem linked_holds_iff (inv : CacheInv sb s children) (holds : s.Holds sb parent p) (copy : Copy sb p dir)
    (fresh : child ∉ s.live) (inode : Copy sb r r) (name : Qstr) (d : Nat) (q : Inode) :
    (s.linked parent dir child name r).Holds sb d q ↔ d = child ∧ q = r ∨ s.Holds sb d q := by
  have apart : ∀ d ∈ s.live, d ≠ child := fun d live same => fresh (same ▸ live)
  have forward : ∀ q, s.Holds sb d q → (s.linked parent dir child name r).Holds sb d q := by
    intro q before
    refine ⟨List.mem_cons_of_mem child before.1, ?_⟩
    rw [linked_dentry fresh parent dir r name before.1]
    by_cases itself : d = parent
    · subst itself
      obtain rfl := before.unique holds
      exact ⟨dir, if_pos rfl, copy⟩
    · obtain ⟨_, i, some, copy'⟩ := before
      exact ⟨i, (if_neg itself).trans some, copy'⟩
  have new : (s.linked parent dir child name r).Holds sb child r := by
    refine ⟨List.mem_cons_self, r, ?_, inode⟩
    rw [linked_dentry_child]
  constructor
  · intro after
    rcases List.mem_cons.mp after.1 with rfl | old
    · exact Or.inl ⟨rfl, after.unique new⟩
    · obtain ⟨q', before⟩ := inv.inode d old
      exact Or.inr ((forward q' before).unique after ▸ before)
  · rintro (⟨rfl, rfl⟩ | before)
    · exact new
    · exact forward q before

def linkedChildren (children : Nat → List Nat) (parent child d : Nat) : List Nat :=
  if d = child then [] else if d = parent then child :: children d else children d

theorem mem_linkedChildren {d c : Nat} (member : c ∈ linkedChildren children parent child d) :
    d ≠ child ∧ (d = parent ∧ c = child ∨ c ∈ children d) := by
  rw [linkedChildren] at member
  split_ifs at member with new itself
  · cases member
  · exact ⟨new, (List.mem_cons.mp member).imp_left (And.intro itself)⟩
  · exact ⟨new, Or.inr member⟩

theorem mem_linkedChildren_of_mem {d c : Nat} (old : d ≠ child) (member : c ∈ children d) :
    c ∈ linkedChildren children parent child d := by
  rw [linkedChildren, if_neg old]
  split_ifs with itself
  · exact List.mem_cons_of_mem child member
  · exact member

section Shape

variable (tree : DentryTree s children) (live : parent ∈ s.live) (fresh : child ∉ s.live) (dir inode : Inode)

include tree in
theorem DentryTree.old_child {d c : Nat} (member : d ∈ child :: s.live) (other : d ≠ child) (inside : c ∈ children d) :
    d ∈ s.live ∧ c ∈ s.live := by
  have before := (List.mem_cons.mp member).resolve_left other
  exact ⟨before, (tree.child d before c inside).1⟩

include tree fresh

theorem DentryTree.link_siblings (name : Qstr) (parent : Nat) {d : Nat} (before : d ∈ s.live) :
    Chain (fun c => ((s.linked parent dir child name inode).dentry c).nextSibling) (s.dentry d).firstChild
      (children d) := by
  refine (tree.chain d before).congr fun c inside => ?_
  rw [linked_dentry fresh parent dir inode name (tree.child d before c inside).1]

include live

theorem DentryTree.link_chain (nonnull : child ≠ 0) (name : Qstr) {d : Nat} (member : d ∈ child :: s.live) :
    Chain (fun c => ((s.linked parent dir child name inode).dentry c).nextSibling)
      ((s.linked parent dir child name inode).dentry d).firstChild (linkedChildren children parent child d) := by
  rw [linkedChildren]
  split_ifs with isNew itself
  · rw [isNew, linked_dentry_child]
    rfl
  · subst itself
    have first : ((s.linked d dir child name inode).dentry d).firstChild = child := by
      rw [linked_dentry fresh d dir inode name live]
      exact if_pos rfl
    rw [first]
    refine ⟨rfl, nonnull, ?_⟩
    dsimp only
    rw [linked_dentry_child]
    exact tree.link_siblings fresh dir inode name d live
  · have before := (List.mem_cons.mp member).resolve_left isNew
    have first : ((s.linked parent dir child name inode).dentry d).firstChild = (s.dentry d).firstChild := by
      rw [linked_dentry fresh parent dir inode name before]
      exact if_neg itself
    rw [first]
    exact tree.link_siblings fresh dir inode name parent before

theorem DentryTree.link_child (name : Qstr) {d c : Nat} (member : d ∈ child :: s.live)
    (inside : c ∈ linkedChildren children parent child d) :
    c ∈ child :: s.live ∧ ((s.linked parent dir child name inode).dentry c).parent = d ∧ c ≠ s.root := by
  obtain ⟨other, ⟨rfl, rfl⟩ | inside⟩ := mem_linkedChildren inside
  · exact ⟨List.mem_cons_self, by rw [linked_dentry_child], fun root => fresh (root ▸ tree.root)⟩
  · obtain ⟨before, _⟩ := tree.old_child member other inside
    obtain ⟨liveC, parentC, notRoot⟩ := tree.child d before c inside
    exact ⟨List.mem_cons_of_mem child liveC, by rw [linked_dentry fresh parent dir inode name liveC]; exact parentC,
      notRoot⟩

theorem DentryTree.link_distinct {d : Nat} (member : d ∈ child :: s.live) :
    (linkedChildren children parent child d).Nodup := by
  rw [linkedChildren]
  split_ifs with isNew itself
  · exact List.nodup_nil
  · subst itself
    exact List.nodup_cons.mpr ⟨fun inside => fresh (tree.child d live child inside).1, tree.distinct d live⟩
  · exact tree.distinct d ((List.mem_cons.mp member).resolve_left isNew)

theorem DentryTree.link_names (unused : ∀ c ∈ children parent, (s.dentry c).name.str ≠ name.str) {d c c' : Nat}
    (member : d ∈ child :: s.live) (inside : c ∈ linkedChildren children parent child d)
    (inside' : c' ∈ linkedChildren children parent child d) :
    ((s.linked parent dir child name inode).dentry c).name.str =
      ((s.linked parent dir child name inode).dentry c').name.str → c = c' := by
  have old : ∀ {c}, c ∈ s.live → _ := linked_dentry fresh parent dir inode name
  obtain ⟨other, which⟩ := mem_linkedChildren inside
  obtain ⟨_, which'⟩ := mem_linkedChildren inside'
  rcases which with ⟨rfl, rfl⟩ | was <;> rcases which' with ⟨itself, rfl⟩ | was'
  · exact fun _ => rfl
  · rw [linked_dentry_child, old (tree.old_child member other was').2]
    exact fun same => absurd same.symm (unused c' was')
  · subst itself
    rw [linked_dentry_child, old (tree.old_child member other was).2]
    exact fun same => absurd same (unused c was)
  · obtain ⟨before, liveC⟩ := tree.old_child member other was
    rw [old liveC, old (tree.old_child member other was').2]
    exact tree.names d before c was c' was'

theorem DentryTree.link_linked (name : Qstr) {c : Nat} (member : c ∈ child :: s.live) (notRoot : c ≠ s.root) :
    ((s.linked parent dir child name inode).dentry c).parent ∈ child :: s.live ∧
      c ∈ linkedChildren children parent child ((s.linked parent dir child name inode).dentry c).parent := by
  have apart : ∀ d ∈ s.live, d ≠ child := fun d live same => fresh (same ▸ live)
  rcases List.mem_cons.mp member with rfl | before
  · rw [linked_dentry_child]
    refine ⟨List.mem_cons_of_mem c live, ?_⟩
    rw [linkedChildren, if_neg (apart parent live), if_pos rfl]
    exact List.mem_cons_self
  · rw [linked_dentry fresh parent dir inode name before]
    obtain ⟨liveP, inside⟩ := tree.linked c before notRoot
    exact ⟨List.mem_cons_of_mem child liveP, mem_linkedChildren_of_mem (apart _ liveP) inside⟩

/-- A new child under a new name keeps the tree. -/
theorem DentryTree.link (nonnull : child ≠ 0) (hash : name.hash = vfsHashName name.str)
    (unused : ∀ c ∈ children parent, (s.dentry c).name.str ≠ name.str) :
    DentryTree (s.linked parent dir child name inode) (linkedChildren children parent child) where
  root := List.mem_cons_of_mem child tree.root
  nonnull d member := by
    rcases List.mem_cons.mp member with rfl | before
    · exact nonnull
    · exact tree.nonnull d before
  chain _ member := tree.link_chain live fresh dir inode nonnull name member
  child _ member _ inside := tree.link_child live fresh dir inode name member inside
  distinct _ member := tree.link_distinct live fresh member
  names _ member _ inside _ inside' := tree.link_names live fresh dir inode unused member inside inside'
  linked _ member notRoot := tree.link_linked live fresh dir inode name member notRoot
  hash d member := by
    rcases List.mem_cons.mp member with rfl | before
    · rw [linked_dentry_child]
      exact hash
    · rw [linked_dentry fresh parent dir inode name before]
      exact tree.hash d before

end Shape

theorem CacheInv.link (inv : CacheInv sb s children) (holds : s.Holds sb parent p) (copy : Copy sb p dir)
    (fresh : child ∉ s.live) (nonnull : child ≠ 0) (hash : name.hash = vfsHashName name.str)
    (unused : ∀ c ∈ children parent, (s.dentry c).name.str ≠ name.str)
    (found : lookupOnDisk sb p name.str = .ok (.ok r)) (new : r.singly = none) :
    CacheInv sb (s.linked parent dir child name r) (linkedChildren children parent child) := by
  have apart : ∀ d ∈ s.live, d ≠ child := fun d live same => fresh (same ▸ live)
  have stands := linked_holds_iff inv holds copy fresh (.read new) name
  refine ⟨inv.toDentryTree.link holds.1 fresh dir r nonnull hash unused, ?_, ?_⟩
  · intro d member
    rcases List.mem_cons.mp member with rfl | before
    · exact ⟨r, (stands d r).mpr (Or.inl ⟨rfl, rfl⟩)⟩
    · obtain ⟨q, holdsD⟩ := inv.inode d before
      exact ⟨q, (stands d q).mpr (Or.inr holdsD)⟩
  · intro c member notRoot q t holdsP holdsC
    rw [stands] at holdsP holdsC
    rcases List.mem_cons.mp member with rfl | before
    · rw [linked_dentry_child] at holdsP ⊢
      obtain ⟨itself, _⟩ | holdsP := holdsP
      · exact absurd itself (apart parent holds.1)
      · obtain ⟨_, rfl⟩ | holdsC := holdsC
        · rw [holdsP.unique holds]
          exact found
        · exact absurd holdsC.1 fresh
    · rw [linked_dentry fresh parent dir r name before] at holdsP ⊢
      obtain ⟨itself, _⟩ | holdsP := holdsP
      · exact absurd itself (apart _ (inv.linked c before notRoot).1)
      · obtain ⟨itself, _⟩ | holdsC := holdsC
        · exact absurd itself (apart c before)
        · exact inv.cached c before notRoot q t holdsP holdsC

end Link

/-- What the lookup of one component can do: find the child, link a new one, or fail and change nothing. -/
inductive Looked (sb : Superblock) (s : Vfs) (children : Nat → List Nat) (parent : Nat) (p : Inode) (name : Qstr) :
    Except Int Nat × Vfs → Except Int Inode → Prop
  | hit {c : Nat} {r : Inode} (holds : s.Holds sb c r) : Looked sb s children parent p name (.ok c, s) (.ok r)
  | miss {c : Nat} {r dir : Inode} (fresh : c ∉ s.live) (nonnull : c ≠ 0) (copy : Copy sb p dir)
      (unused : ∀ c ∈ children parent, (s.dentry c).name.str ≠ name.str)
      (found : lookupOnDisk sb p name.str = .ok (.ok r)) (new : r.singly = none) :
      Looked sb s children parent p name (.ok c, s.linked parent dir c name r) (.ok r)
  | failed {err : Int} {s' : Vfs} (same : s.SameTree sb s') :
      Looked sb s children parent p name (.error err, s') (.error err)

theorem vfsLookupDirect_rel {mem : Allocator} {parent : Nat} {p : Inode} (inv : CacheInv sb s children)
    (holds : s.Holds sb parent p) (hash : name.hash = vfsHashName name.str) :
    Exec.Rel (Looked sb s children parent p name) (s.vfsLookupDirect sb mem parent name)
      (lookupOnDisk sb p name.str) := by
  rw [Vfs.vfsLookupDirect, inv.toDentryTree.findChild hash holds.1, Exec.ok_bind]
  cases search : (children parent).find? fun c => (s.dentry c).name.str = name.str with
  | some c =>
      have named : (s.dentry c).name.str = name.str := by simpa using List.find?_some search
      obtain ⟨live, parentC, notRoot⟩ := inv.child parent holds.1 c (List.mem_of_find?_eq_some search)
      obtain ⟨r, holdsC⟩ := inv.inode c live
      have onDisk := inv.cached c live notRoot p r (parentC.symm ▸ holds) holdsC
      rw [Option.getD_some, if_pos (inv.nonnull c live), ← named, onDisk]
      exact .ok (.hit holdsC)
  | none =>
      have unused : ∀ c ∈ children parent, (s.dentry c).name.str ≠ name.str := by
        simpa using List.find?_eq_none.mp search
      obtain ⟨live, i, stored, copy⟩ := id holds
      have apart : parent ≠ mem.kzalloc s.live := fun same => mem.fresh s.live (same ▸ live)
      have inode : ((s.newDentry mem parent name).2.dentry parent).inode = some i := by
        simp only [Vfs.newDentry, Function.update_of_ne apart, stored]
      have named : ((s.newDentry mem parent name).2.dentry (mem.kzalloc s.live)).name = name := by
        simp only [Vfs.newDentry, Function.update_self]
      rw [Option.getD_none, if_neg (not_not.mpr rfl), Vfs.dAlloc, lookupOnDisk]
      by_cases fits : Vfs.NameFits name.str
      case neg =>
        rw [if_neg fits, if_neg fits]
        exact rfl
      rw [if_pos fits, if_pos fits, Exec.ok_bind]
      dsimp only
      rw [inode]
      dsimp only
      rw [copy.iops]
      cases ops : p.iops with
      | ext2File => exact rfl
      | ext2Dir =>
          dsimp only [Vfs.ext2Lookup]
          rw [show (s.newDentry mem parent name).1 = mem.kzalloc s.live from rfl, named]
          obtain ⟨e, here, onDisk⟩ | ⟨⟨dir, result⟩, ⟨_, _⟩, here, onDisk, copyDir, _, rfl⟩ :=
            (copy.ext2Find copy.original name.str).cases
          · rw [here, onDisk]
            exact rfl
          · have whole : lookupOnDisk sb p name.str = .ok result := by
              rw [lookupOnDisk, if_pos fits, ops]
              dsimp only
              rw [onDisk, Exec.ok_bind]
            rw [here, onDisk, Exec.ok_bind, Exec.ok_bind]
            obtain ⟨r, rfl, new⟩ | ⟨err, rfl, negative⟩ := ext2Find_result onDisk
            · dsimp only
              rw [Exec.ok_bind, if_neg (Int.lt_irrefl 0), dAdd_eq_linked live (inv.nonnull parent live)]
              exact .ok (.miss (mem.fresh s.live) (mem.nonnull s.live) copyDir unused whole new)
            · dsimp only
              rw [Exec.ok_bind, if_pos negative]
              exact .ok (.failed (dFree_sameTree holds copyDir))

/-! Whole paths -/

/-- The dentry that a lookup returns stands for the inode on disk. -/
inductive Vfs.Returns (sb : Superblock) (s : Vfs) : Except Int Nat → Except Int Inode → Prop
  | ok {d : Nat} {r : Inode} (holds : s.Holds sb d r) : Returns sb s (.ok d) (.ok r)
  | error (err : Int) : Returns sb s (.error err) (.error err)

/-- The dentries of `s` are still there, for the same inodes. -/
structure Vfs.Grows (sb : Superblock) (s s' : Vfs) : Prop where
  root : s'.root = s.root
  holds : ∀ d r, s.Holds sb d r → s'.Holds sb d r

/-- A lookup on `s` that goes the way of the lookup on disk. -/
structure Vfs.Answers (sb : Superblock) (s : Vfs) (q : Except Int Nat × Vfs) (found : Except Int Inode) : Prop where
  cache : ∃ children, CacheInv sb q.2 children
  grows : s.Grows sb q.2
  returns : q.2.Returns sb q.1 found

theorem CacheInv.answers (inv : CacheInv sb s children) {result : Except Int Nat} {found : Except Int Inode}
    (returns : s.Returns sb result found) : s.Answers sb (result, s) found :=
  ⟨⟨children, inv⟩, ⟨rfl, fun _ _ => id⟩, returns⟩

theorem Looked.answers {parent : Nat} {p : Inode} {q : Except Int Nat × Vfs} {found : Except Int Inode}
    (inv : CacheInv sb s children) (holds : s.Holds sb parent p) (hash : name.hash = vfsHashName name.str)
    (looked : Looked sb s children parent p name q found) : s.Answers sb q found := by
  cases looked with
  | hit holdsC => exact inv.answers (.ok holdsC)
  | miss fresh nonnull copy unused onDisk new =>
      have stands := linked_holds_iff inv holds copy fresh (.read new) name
      refine ⟨⟨_, inv.link holds copy fresh nonnull hash unused onDisk new⟩, ⟨rfl, ?_⟩, .ok ?_⟩
      · exact fun d r before => (stands d r).mpr (Or.inr before)
      · exact (stands _ _).mpr (Or.inl ⟨rfl, rfl⟩)
  | failed same => exact ⟨⟨children, inv.congr same⟩, ⟨same.root, same.holds⟩, .error _⟩

theorem Vfs.Answers.after {q : Except Int Nat × Vfs} {found : Except Int Inode} (grows : s.Grows sb s')
    (later : s'.Answers sb q found) : s.Answers sb q found := by
  refine ⟨later.cache, ⟨later.grows.root.trans grows.root, ?_⟩, later.returns⟩
  exact fun d r before => later.grows.holds d r (grows.holds d r before)

/-- A lookup through the cache is a walk over the disk. -/
theorem vfsLookupFrom_rel (mem : Allocator) {fuel cur : Nat} {path : List UInt8} {r : Inode}
    (inv : CacheInv sb s children) (holds : s.Holds sb cur r) :
    Exec.Rel (s.Answers sb) (Vfs.vfsLookupFrom sb mem fuel path cur s) (resolve sb fuel path r) := by
  induction fuel generalizing path cur s children r with
  | zero => exact rfl
  | succ fuel ih =>
      obtain ⟨live, i, stored, copy⟩ := id holds
      rw [Vfs.vfsLookupFrom, resolve, stored]
      dsimp only
      rw [copy.mode]
      split_ifs
      · exact .ok (inv.answers (.ok holds))
      · exact .ok (inv.answers (.error _))
      · refine Exec.Rel.bind (vfsLookupDirect_rel inv holds rfl) ?_
        rintro ⟨child, s'⟩ found looked
        obtain ⟨⟨children', inv'⟩, grows, returns⟩ := looked.answers inv holds rfl
        cases returns with
        | ok holdsC => exact (ih inv' holdsC).mono fun _ _ later => later.after grows
        | error err => exact .ok ((inv'.answers (.error err)).after grows)

/-! Runs -/

/-- What a caller of `vfs_lookup` gets: the number of the inode, or an error. -/
def Vfs.outcome (sb : Superblock) (mem : Allocator) (path : List UInt8) (s : Vfs) : Exec (Except Int (Option Nat)) :=
  (s.vfsLookup sb mem path).map fun q => q.1.map fun d => (q.2.dentry d).inode.map Inode.ino

/-- One call of `vfs_lookup`, with the addresses that `kzalloc` returns during it. -/
def vfsStep (sb : Superblock) (s : Vfs) (call : Allocator × List UInt8) : Option Vfs :=
  (s.vfsLookup sb call.1 call.2).toOption.map Prod.snd

/-- The invariant of a run: a cache of the tree below the directory `r`. -/
def Vfs.Caches (sb : Superblock) (r : Inode) (s : Vfs) : Prop :=
  (∃ children, CacheInv sb s children) ∧ s.Holds sb s.root r

theorem mounted_caches (mem : Allocator) {inode : Inode} (fresh : inode.singly = none) :
    (Vfs.mounted mem inode).Caches sb inode := by
  have lives : (Vfs.mounted mem inode).live = [mem.kzalloc []] := by
    simp [Vfs.mounted, Vfs.dAdd, Vfs.newDentry, Vfs.modify]
  have only : ∀ d ∈ (Vfs.mounted mem inode).live, d = mem.kzalloc [] := by simp [lives]
  have dentry : (Vfs.mounted mem inode).dentry (mem.kzalloc []) =
      ⟨⟨[Vfs.slash], vfsHashName [Vfs.slash]⟩, some inode, 0, 0, 0⟩ := by
    simp [Vfs.mounted, Vfs.dAdd, Vfs.newDentry, Vfs.modify]
  have live : mem.kzalloc [] ∈ (Vfs.mounted mem inode).live := by simp [lives]
  have holds : (Vfs.mounted mem inode).Holds sb (mem.kzalloc []) inode :=
    ⟨live, inode, by rw [dentry], .read fresh⟩
  refine ⟨⟨fun _ => [], ⟨⟨live, ?_, ?_, ?_, ?_, ?_, ?_, ?_⟩, ?_, ?_⟩⟩, holds⟩
  · intro d member
    rw [only d member]
    exact mem.nonnull []
  · intro d member
    rw [only d member, dentry]
    rfl
  · rintro d _ c ⟨⟩
  · exact fun d _ => List.nodup_nil
  · rintro d _ c ⟨⟩
  · exact fun c member notRoot => absurd (only c member) notRoot
  · intro d member
    rw [only d member, dentry]
  · intro d member
    exact ⟨inode, only d member ▸ holds⟩
  · exact fun c member notRoot => absurd (only c member) notRoot

theorem outcome_eq_resolve (mem : Allocator) {r : Inode} (caches : s.Caches sb r) (path : List UInt8) :
    s.outcome sb mem path =
      (resolve sb (path.length + 1) (Vfs.skipSlashes path) r).map fun found => found.map fun i => some i.ino := by
  obtain ⟨⟨children, inv⟩, root⟩ := caches
  refine (vfsLookupFrom_rel mem inv root).map_eq ?_
  rintro ⟨result, s'⟩ found ⟨_, _, returns⟩
  cases returns with
  | ok holds =>
      obtain ⟨_, i, stored, copy⟩ := holds
      have number : ((s'.dentry _).inode.map Inode.ino) = some _ := (congrArg _ stored).trans (congrArg some copy.ino)
      exact congrArg Except.ok number
  | error err => rfl

theorem resolve_path_ends (path : List UInt8) (r : Inode) :
    (resolve sb (path.length + 1) (Vfs.skipSlashes path) r).Ends := by
  refine resolve_ends ?_ r
  exact Nat.lt_succ_of_le (List.length_dropWhile_le _ path)

theorem vfsStep_caches {r : Inode} {call : Allocator × List UInt8} (caches : s.Caches sb r)
    (h : vfsStep sb s call = some s') : s'.Caches sb r := by
  obtain ⟨⟨children, inv⟩, root⟩ := caches
  obtain ⟨q, looked, rfl⟩ := Exec.exists_ok_of_map h
  obtain ⟨found, _, answers⟩ := (vfsLookupFrom_rel call.1 inv root).of_ok looked
  refine ⟨answers.cache, ?_⟩
  rw [answers.grows.root]
  exact answers.grows.holds _ _ root

/-- Whatever has been looked up, a lookup returns what it returns on the tree that has just been mounted. The tree
keeps its shape, and a component that is not found leaves nothing in it. -/
theorem dentryCache_transparent (sb : Superblock) (mem : Allocator) {inode : Inode}
    (mounts : ext2ReadInode sb ext2RootDirIno = .ok (.ok inode)) {calls : List (Allocator × List UInt8)} {s : Vfs}
    (reached : run (vfsStep sb) (Vfs.mounted mem inode) calls = some s) :
    (∃ children, CacheInv sb s children) ∧
    (∀ mem₁ mem₂ path, s.outcome sb mem₁ path = (Vfs.mounted mem₂ inode).outcome sb mem₂ path ∧
      (s.outcome sb mem₁ path).Ends) ∧
    ∀ mem₁, ∀ parent ∈ s.live, ∀ name, name.hash = vfsHashName name.str → ∀ err s',
      s.vfsLookupDirect sb mem₁ parent name = .ok (.error err, s') → s.SameTree sb s' := by
  have fresh : inode.singly = none := by
    obtain ⟨_, same, fresh⟩ | failed := ext2ReadInode_fresh mounts
    · exact Except.ok.inj same ▸ fresh
    · cases failed
  have caches : s.Caches sb inode :=
    run_invariant_always (fun _ _ _ caches step => vfsStep_caches caches step) (mounted_caches mem fresh) reached
  refine ⟨caches.1, ?_, ?_⟩
  · intro mem₁ mem₂ path
    rw [outcome_eq_resolve mem₁ caches, outcome_eq_resolve mem₂ (mounted_caches mem₂ fresh)]
    exact ⟨rfl, (resolve_path_ends path inode).map _⟩
  · intro mem₁ parent live name hash err s' failed
    obtain ⟨⟨children, inv⟩, _⟩ := caches
    obtain ⟨p, holds⟩ := inv.inode parent live
    obtain ⟨found, _, looked⟩ := (vfsLookupDirect_rel inv holds hash).of_ok failed
    cases looked with
    | failed same => exact same

def Allocator.above : Allocator where
  kzalloc live := live.max?.getD 0 + 1
  fresh _ member := Nat.not_succ_le_self _ (List.le_max?_getD_of_mem member)
  nonnull _ := Nat.succ_ne_zero _

/-- A disk whose root directory has one entry, the file `a` with inode 3. -/
def oneFileDisk : Superblock where
  bdev := {
    disk := fun i => ([(3201, 0x40), (3240, 4), (3329, 0x80), (4096, 3), (4101, 4), (4102, 1), (4104, 0x61)].lookup
      i).getD 0
    lbaStart := 0
    sectorSize := 512 }
  blockSize := 1024
  sectorsPerBlock := 2
  info := {
    superblock := ⟨8, 1, 0, 8192, 8, 128⟩
    inodesPerGroup := 8
    blockPerGroup := 8192
    blockGroupCount := 1
    bgdTable := ⟨fun i => if i = 8 then 3 else 0, 32⟩ }

def oneFileRoot : Inode :=
  ⟨2, 0, sIfdir, .ext2Dir, ⟨0x4000, 0, [4, 0, 0, 0, 0, 0, 0, 0, 0, 0, 0, 0], 0, 0⟩, none⟩

theorem oneFileRoot_read : ext2ReadInode oneFileDisk ext2RootDirIno = .ok (.ok oneFileRoot) := rfl

/-- The second lookup finds the dentry of the first one, and the failed one leaves nothing. -/
theorem dentryCache_transparent_oneFile :
    ∃ s, run (vfsStep oneFileDisk) (Vfs.mounted .above oneFileRoot)
        [(.above, [0x61]), (.above, [0x2F, 0x62]), (.above, [0x61])] = some s ∧ s.live.length = 2 ∧
      s.outcome oneFileDisk .above [0x61] = .ok (.ok (some 3)) ∧
      s.outcome oneFileDisk .above [0x62] = .ok (.error (-eNoEnt)) := by
  obtain ⟨s, reached, two⟩ : ∃ s, run (vfsStep oneFileDisk) (Vfs.mounted .above oneFileRoot)
      [(.above, [0x61]), (.above, [0x2F, 0x62]), (.above, [0x61])] = some s ∧ s.live.length = 2 :=
    Option.map_eq_some_iff.mp (by decide +kernel)
  have same := (dentryCache_transparent oneFileDisk .above oneFileRoot_read reached).2.1 .above .above
  refine ⟨s, reached, two, ?_, ?_⟩
  · rw [(same _).1]
    decide +kernel
  · rw [(same _).1]
    decide +kernel

end SnapOS.Fs
