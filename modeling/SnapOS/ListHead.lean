/- The intrusive lists of list.h. -/
import SnapOS.Lib.Ring

namespace SnapOS
open SnapOS.Lib

/-- The two fields of every `list_head` in memory, by node. -/
structure ListHeads (N : Type*) where
  next : N → N
  prev : N → N

namespace ListHeads

variable {N : Type*} [DecidableEq N]

def setNext (l : ListHeads N) (node value : N) : ListHeads N :=
  { l with next := Function.update l.next node value }

def setPrev (l : ListHeads N) (node value : N) : ListHeads N :=
  { l with prev := Function.update l.prev node value }

def initListHead (l : ListHeads N) (list : N) : ListHeads N :=
  (l.setNext list list).setPrev list list

-- The assignments are made in the order of the source: each one reads what the earlier ones left.
def listAddTail (l : ListHeads N) (new head : N) : ListHeads N :=
  let l := l.setNext new head
  let l := l.setPrev new (l.prev head)
  let l := l.setNext (l.prev head) new
  l.setPrev head new

def listAdd (l : ListHeads N) (new head : N) : ListHeads N :=
  let l := l.setPrev new head
  let l := l.setNext new (l.next head)
  let l := l.setPrev (l.next head) new
  l.setNext head new

/-- The links of `entry` itself are left as they were. -/
def listDel (l : ListHeads N) (entry : N) : ListHeads N :=
  let l := l.setNext (l.prev entry) (l.next entry)
  l.setPrev (l.next entry) (l.prev entry)

def listEmpty (l : ListHeads N) (head : N) : Bool :=
  l.next head == head

abbrev Represents (l : ListHeads N) (head : N) (s : List N) : Prop := Ring l.next l.prev head s

variable {l : ListHeads N} {head new entry : N} {s : List N}

theorem next_initListHead (l : ListHeads N) (list x : N) :
    (l.initListHead list).next x = if x = list then list else l.next x := by
  simp only [initListHead, setNext, setPrev, Function.update_apply]

theorem prev_initListHead (l : ListHeads N) (list x : N) :
    (l.initListHead list).prev x = if x = list then list else l.prev x := by
  simp only [initListHead, setNext, setPrev, Function.update_apply]

theorem next_listAddTail (apart : new ≠ head) (x : N) :
    (l.listAddTail new head).next x =
      if x = l.prev head then new else if x = new then head else l.next x := by
  simp only [listAddTail, setNext, setPrev, Function.update_apply, if_neg apart.symm]

theorem prev_listAddTail (apart : new ≠ head) (x : N) :
    (l.listAddTail new head).prev x =
      if x = head then new else if x = new then l.prev head else l.prev x := by
  simp only [listAddTail, setNext, setPrev, Function.update_apply, if_neg apart.symm]

theorem next_listAdd (x : N) :
    (l.listAdd new head).next x = if x = head then new else if x = new then l.next head else l.next x := by
  simp only [listAdd, setNext, setPrev, Function.update_apply]

theorem prev_listAdd (apart : new ≠ head) (x : N) :
    (l.listAdd new head).prev x =
      if x = l.next head then new else if x = new then head else l.prev x := by
  simp only [listAdd, setNext, setPrev, Function.update_apply, if_neg apart.symm]

theorem next_listDel (x : N) :
    (l.listDel entry).next x = if x = l.prev entry then l.next entry else l.next x := by
  simp only [listDel, setNext, setPrev, Function.update_apply]

theorem prev_listDel (x : N) :
    (l.listDel entry).prev x = if x = l.next entry then l.prev entry else l.prev x := by
  simp only [listDel, setNext, setPrev, Function.update_apply, ite_self]

/-- Both pointers of `x` are the same in the two heaps. -/
def SameAt (l l' : ListHeads N) (x : N) : Prop := l'.next x = l.next x ∧ l'.prev x = l.prev x

theorem sameAt_initListHead {list x : N} (outside : x ≠ list) : SameAt l (l.initListHead list) x :=
  ⟨by rw [next_initListHead, if_neg outside], by rw [prev_initListHead, if_neg outside]⟩

theorem sameAt_listAddTail (apart : new ≠ head) {x : N} (notNew : x ≠ new) (notHead : x ≠ head)
    (notLast : x ≠ l.prev head) : SameAt l (l.listAddTail new head) x :=
  ⟨by rw [next_listAddTail apart, if_neg notLast, if_neg notNew],
    by rw [prev_listAddTail apart, if_neg notHead, if_neg notNew]⟩

theorem sameAt_listAdd (apart : new ≠ head) {x : N} (notNew : x ≠ new) (notHead : x ≠ head)
    (notFirst : x ≠ l.next head) : SameAt l (l.listAdd new head) x :=
  ⟨by rw [next_listAdd, if_neg notHead, if_neg notNew],
    by rw [prev_listAdd apart, if_neg notFirst, if_neg notNew]⟩

theorem sameAt_listDel {x : N} (notPrev : x ≠ l.prev entry) (notNext : x ≠ l.next entry) :
    SameAt l (l.listDel entry) x :=
  ⟨by rw [next_listDel, if_neg notPrev], by rw [prev_listDel, if_neg notNext]⟩

section Colours

variable {C : Type*} {c : N → C} {f : C}

/-- Nodes point to nodes of their own colour only. -/
def Coloured (l : ListHeads N) (c : N → C) : Prop := ∀ x, c (l.next x) = c x ∧ c (l.prev x) = c x

/-- From `l` to `l'` only nodes of colour `f` have changed, and the colours are still apart. -/
structure Within (c : N → C) (f : C) (l l' : ListHeads N) : Prop where
  coloured : l'.Coloured c
  same : ∀ x, c x ≠ f → SameAt l l' x

omit [DecidableEq N] in
theorem Within.refl (coloured : l.Coloured c) : Within c f l l := ⟨coloured, fun _ _ => ⟨rfl, rfl⟩⟩

omit [DecidableEq N] in
theorem Within.trans {l₁ l₂ l₃ : ListHeads N} (first : Within c f l₁ l₂) (second : Within c f l₂ l₃) :
    Within c f l₁ l₃ :=
  ⟨second.coloured, fun x other =>
    ⟨(second.same x other).1.trans (first.same x other).1, (second.same x other).2.trans (first.same x other).2⟩⟩

theorem Coloured.initListHead (coloured : l.Coloured c) (inside : c entry = f) :
    Within c f l (l.initListHead entry) := by
  refine ⟨fun x => ?_, fun x other => sameAt_initListHead ?_⟩
  · rw [next_initListHead, prev_initListHead]
    split_ifs with itself
    · rw [itself]
      exact ⟨rfl, rfl⟩
    · exact coloured x
  · rintro rfl
    exact other inside

theorem Coloured.listAddTail (coloured : l.Coloured c) (apart : new ≠ head) (newIn : c new = f)
    (headIn : c head = f) : Within c f l (l.listAddTail new head) := by
  have lastIn : c (l.prev head) = f := (coloured head).2.trans headIn
  refine ⟨fun x => ?_, fun x other => sameAt_listAddTail apart ?_ ?_ ?_⟩
  · rw [next_listAddTail apart, prev_listAddTail apart]
    refine ⟨?_, ?_⟩
    · split_ifs with isLast isNew
      · rw [isLast, newIn, lastIn]
      · rw [isNew, newIn, headIn]
      · exact (coloured x).1
    · split_ifs with isHead isNew
      · rw [isHead, newIn, headIn]
      · rw [isNew, newIn, lastIn]
      · exact (coloured x).2
  all_goals
    rintro rfl
    contradiction

theorem Coloured.listDel (coloured : l.Coloured c) (inside : c entry = f) :
    Within c f l (l.listDel entry) := by
  have prevIn : c (l.prev entry) = f := (coloured entry).2.trans inside
  have nextIn : c (l.next entry) = f := (coloured entry).1.trans inside
  refine ⟨fun x => ?_, fun x other => sameAt_listDel ?_ ?_⟩
  · rw [next_listDel, prev_listDel]
    refine ⟨?_, ?_⟩
    · split_ifs with isPrev
      · rw [isPrev, nextIn, prevIn]
      · exact (coloured x).1
    · split_ifs with isNext
      · rw [isNext, nextIn, prevIn]
      · exact (coloured x).2
  all_goals
    rintro rfl
    contradiction

end Colours

namespace Represents

omit [DecidableEq N] in
theorem congr {l' : ListHeads N} (rep : l.Represents head s) (same : ∀ x ∈ head :: s, SameAt l l' x) :
    l'.Represents head s :=
  Ring.congr rep (fun x member => (same x member).1) fun x member => (same x member).2

theorem listEmpty_iff (rep : l.Represents head s) : l.listEmpty head = true ↔ s = [] := by
  rw [listEmpty, beq_iff_eq]
  constructor
  · intro self
    have alone : l.Represents head [] := Ring.singleton_iff.mpr ⟨self, by
      have := rep.prev_next List.mem_cons_self
      rwa [self] at this⟩
    exact rep.unique alone
  · rintro rfl
    exact (Ring.singleton_iff.mp rep).1

omit [DecidableEq N] in
theorem last (rep : l.Represents head s) :
    ∃ front, head :: (s ++ [head]) = front ++ l.prev head :: [head] ∧ l.next (l.prev head) = head ∧
      l.prev head ∈ head :: s := by
  obtain empty | ⟨front, a, split⟩ := List.eq_nil_or_concat' (head :: s)
  · cases empty
  · have whole : head :: (s ++ [head]) = front ++ a :: [head] := by
      rw [← List.cons_append, split, List.append_assoc, List.singleton_append]
    have chain := rep.links
    rw [whole, List.isChain_append_cons_cons] at chain
    obtain ⟨toNext, toPrev⟩ := chain.2.1
    rw [toPrev]
    exact ⟨front, whole, toNext, by rw [split]; simp⟩

omit [DecidableEq N] in
theorem last_mem {front back : List N} (rep : l.Represents head (front ++ entry :: back)) :
    l.prev head ∈ entry :: back := by
  obtain ⟨before, whole, _, _⟩ := rep.last
  have cut := congrArg List.getLast? (Ring.cut whole).1
  rw [← List.cons_append, List.getLast?_append_of_ne_nil _ (by simp)] at cut
  exact List.mem_of_getLast? (by simpa using cut)

theorem listAddTail (rep : l.Represents head s) (fresh : new ∉ head :: s) :
    (l.listAddTail new head).Represents head (s ++ [new]) := by
  have apart : new ≠ head := fun same => fresh (same ▸ List.mem_cons_self)
  obtain ⟨front, whole, _, _⟩ := rep.last
  have cut := (Ring.cut whole).1
  refine Ring.insert rep whole fresh ?_ (next_listAddTail apart) (prev_listAddTail apart)
  rw [List.append_assoc, ← List.cons_append, cut]
  simp

theorem listAdd (rep : l.Represents head s) (fresh : new ∉ head :: s) :
    (l.listAdd new head).Represents head (new :: s) := by
  have apart : new ≠ head := fun same => fresh (same ▸ List.mem_cons_self)
  obtain ⟨z, after, split⟩ : ∃ z after, s ++ [head] = z :: after := List.exists_cons_of_ne_nil (by simp)
  have whole : head :: (s ++ [head]) = [] ++ head :: z :: after := by rw [split, List.nil_append]
  have chain := rep.links
  rw [whole, List.nil_append, List.isChain_cons_cons] at chain
  obtain rfl : l.next head = z := chain.1.1
  refine Ring.insert rep whole fresh ?_ next_listAdd (prev_listAdd apart)
  rw [List.cons_append, split, List.nil_append]

theorem listDel {front back : List N} (rep : l.Represents head (front ++ entry :: back)) :
    (l.listDel entry).Represents head (front ++ back) := by
  obtain empty | ⟨before, a, split⟩ := List.eq_nil_or_concat' (head :: front)
  · cases empty
  obtain ⟨z, after, split'⟩ : ∃ z after, back ++ [head] = z :: after :=
    List.exists_cons_of_ne_nil (by simp)
  have whole : head :: (front ++ entry :: back ++ [head]) = before ++ a :: entry :: z :: after := by
    rw [← List.cons_append, ← List.cons_append, split, List.append_assoc, List.append_assoc,
      List.singleton_append, List.cons_append, split']
  have chain := rep.links
  rw [whole, List.isChain_append_cons_cons, List.isChain_cons_cons] at chain
  obtain ⟨_, ⟨_, toPrev⟩, ⟨toNext, _⟩, _⟩ := chain
  refine Ring.remove rep whole ?_ ?_ ?_
  · rw [← List.cons_append, ← List.cons_append, split, List.append_assoc, List.append_assoc, split']
    simp
  · rw [← toPrev, ← toNext]
    exact next_listDel
  · rw [← toPrev, ← toNext]
    exact prev_listDel

/-- Adding a node that is already in the list breaks the list, whatever its place was. -/
theorem not_listAddTail (rep : l.Represents head s) (twice : new ∈ s) (s' : List N) :
    ¬ (l.listAddTail new head).Represents head s' := by
  intro rep'
  have apart : new ≠ head := fun same => (List.nodup_cons.mp rep.nodup).1 (same ▸ twice)
  have hn := next_listAddTail (l := l) apart
  have hp := prev_listAddTail (l := l) apart
  obtain ⟨_, _, lastNext, lastMem⟩ := rep.last
  obtain ⟨_, _, newLast, newMem⟩ := rep'.last
  rw [hp, if_pos rfl] at newLast newMem
  by_cases wasLast : new = l.prev head
  · -- the node now points to itself
    rw [hn, if_pos wasLast] at newLast
    exact apart newLast
  · -- the old predecessor of `new` is still met on the way to it, but is not `new`'s `prev` any more
    obtain ⟨before, after, rfl⟩ := List.append_of_mem twice
    have chain := rep.links
    rw [List.append_assoc, List.cons_append, ← List.cons_append, List.isChain_split] at chain
    have nodup : ((head :: before) ++ new :: after).Nodup := by simpa using rep.nodup
    have later : l.prev head ∈ new :: after := rep.last_mem
    have same : ∀ x ∈ head :: before, (l.listAddTail new head).next x = l.next x := by
      intro x member
      have outside : x ∉ new :: after := List.disjoint_of_nodup_append nodup member
      rw [hn, if_neg (ne_of_mem_of_not_mem later outside).symm, if_neg (fun eq => outside (by simp [eq]))]
    obtain empty | ⟨front, q, split⟩ := List.eq_nil_or_concat' (head :: before)
    · cases empty
    have qBefore : q ∈ head :: before := by rw [split]; simp
    have qNext : l.next q = new := by
      have links := chain.1
      rw [split, List.append_assoc, List.singleton_append, List.isChain_append_cons_cons] at links
      exact links.2.1.1
    have qInside : q ∈ head :: s' := by
      refine chain_reached (M := (· ∈ head :: s')) (fun x => rep'.next_mem) (c :=
        before ++ [new]) chain.1 List.mem_cons_self ?_ q ?_
      · rw [← List.cons_append, List.dropLast_concat]
        exact same
      · simpa [or_assoc] using Or.inl (List.mem_cons.mp qBefore)
    have back := rep'.prev_next qInside
    rw [same q qBefore, qNext, hp, if_neg apart, if_pos rfl] at back
    exact List.disjoint_of_nodup_append nodup qBefore (back ▸ later)

end Represents
end ListHeads
end SnapOS
