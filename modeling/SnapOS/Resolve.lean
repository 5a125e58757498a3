/- The meaning of a path on disk: its components are looked up one by one, and nothing is kept. -/
import Mathlib.Data.List.TakeWhile
import SnapOS.Vfs

namespace SnapOS.Fs
open SnapOS.Lib

variable {sb : Superblock}

/-! Inodes that keep their singly indirect block -/

def Inode.asRead (i : Inode) : Inode := { i with singly := none }

/-- `i` is the inode `r` as it was read, possibly with its singly indirect block. -/
structure Copy (sb : Superblock) (r i : Inode) : Prop where
  same : i.asRead = r
  singly : i.singly = none ∨ i.singly = some (ext2InitSingly sb r)

namespace Copy

variable {r i j : Inode}

theorem ext2Inode (copy : Copy sb r i) : i.ext2Inode = r.ext2Inode := by
  rw [← copy.same]
  rfl

theorem mode (copy : Copy sb r i) : i.mode = r.mode := by
  rw [← copy.same]
  rfl

theorem iops (copy : Copy sb r i) : i.iops = r.iops := by
  rw [← copy.same]
  rfl

theorem ino (copy : Copy sb r i) : i.ino = r.ino := by
  rw [← copy.same]
  rfl

theorem read (fresh : r.singly = none) : Copy sb r r := by
  refine ⟨?_, Or.inl fresh⟩
  rw [Inode.asRead, ← fresh]

theorem original (copy : Copy sb r i) : Copy sb r r := by
  refine .read ?_
  rw [← copy.same]
  rfl

theorem ext2InitSingly (copy : Copy sb r i) : Fs.ext2InitSingly sb i = Fs.ext2InitSingly sb r := by
  have noBlock : r.singly = none := by rw [← copy.same]; rfl
  have block : Fs.ext2InitSingly sb r = sb.readBlock (r.ext2Inode.singly * sb.sectorsPerBlock % word32) := by
    rw [Fs.ext2InitSingly, noBlock, Option.getD_none]
  rcases copy.singly with none | some
  · rw [Fs.ext2InitSingly, none, Option.getD_none, copy.ext2Inode, block]
  · rw [Fs.ext2InitSingly, some, Option.getD_some]

theorem dirBlockAddr (first : Copy sb r i) (second : Copy sb r j) (n : Nat) :
    Exec.Rel (fun p q => Copy sb r p.1 ∧ Copy sb r q.1 ∧ p.2 = q.2) (dirBlockAddr sb i n) (dirBlockAddr sb j n) := by
  simp only [Fs.dirBlockAddr]
  split_ifs
  · exact .ok ⟨first, second, by rw [first.ext2Inode, second.ext2Inode]⟩
  · rw [first.ext2InitSingly, second.ext2InitSingly]
    refine Exec.Rel.bind (.refl (fun _ => rfl) _) ?_
    rintro addr _ rfl
    exact .ok ⟨⟨first.same, Or.inr rfl⟩, ⟨second.same, Or.inr rfl⟩, rfl⟩

/-- The search of a directory does not depend on the blocks it has kept. -/
theorem ext2LookupFrom (name : List UInt8) (left n : Nat) (first : Copy sb r i) (second : Copy sb r j) :
    Exec.Rel (fun p q => Copy sb r p.1 ∧ Copy sb r q.1 ∧ p.2 = q.2) (ext2LookupFrom sb name left n i)
      (ext2LookupFrom sb name left n j) := by
  induction left generalizing n i j with
  | zero => exact .ok ⟨first, second, rfl⟩
  | succ left ih =>
      refine Exec.Rel.bind (first.dirBlockAddr second n) ?_
      rintro ⟨i', addr⟩ ⟨j', _⟩ ⟨first', second', rfl⟩
      dsimp only
      split_ifs
      · exact .ok ⟨first', second', rfl⟩
      · refine Exec.Rel.bind (.refl (fun _ => rfl) _) ?_
        rintro found _ rfl
        rcases found with err | entry
        · exact .ok ⟨first', second', rfl⟩
        · rcases entry with none | entry
          · exact ih (n + 1) first' second'
          · refine Exec.Rel.bind (.refl (fun _ => rfl) _) ?_
            rintro ino _ rfl
            exact .ok ⟨first', second', rfl⟩

theorem ext2Find (first : Copy sb r i) (second : Copy sb r j) (name : List UInt8) :
    Exec.Rel (fun p q => Copy sb r p.1 ∧ Copy sb r q.1 ∧ p.2 = q.2) (ext2Find sb i name) (ext2Find sb j name) := by
  refine Exec.Rel.bind (first.ext2LookupFrom name _ 0 second) ?_
  rintro ⟨i', entry⟩ ⟨j', _⟩ ⟨first', second', rfl⟩
  rcases entry with err | none | ino
  · exact .ok ⟨first', second', rfl⟩
  · exact .ok ⟨first', second', rfl⟩
  · refine Exec.Rel.bind (.refl (fun _ => rfl) _) ?_
    rintro inode _ rfl
    exact .ok ⟨first', second', rfl⟩

end Copy

/-! What a lookup finds on disk -/

theorem searchDirBlockFrom_error {buf : Buffer} {blockSize nameLen fuel ptr : Nat} {name : List UInt8} {err : Int}
    (h : searchDirBlockFrom buf blockSize name nameLen fuel ptr = .ok (.error err)) : err = -eUClean := by
  induction fuel generalizing ptr with
  | zero => cases h
  | succ fuel ih =>
      rw [searchDirBlockFrom] at h
      split_ifs at h
      · obtain ⟨entrySize, _, h⟩ := Exec.bind_eq_ok.mp h
        split_ifs at h
        · exact (Except.error.inj (Except.ok.inj h)).symm
        · obtain ⟨inode, _, h⟩ := Exec.bind_eq_ok.mp h
          split_ifs at h
          · exact ih h
          · obtain ⟨len, _, h⟩ := Exec.bind_eq_ok.mp h
            split_ifs at h
            · exact ih h
            · obtain ⟨differs, _, h⟩ := Exec.bind_eq_ok.mp h
              split_ifs at h
              · exact ih h
              · cases Except.ok.inj h
      · cases Except.ok.inj h

theorem ext2LookupFrom_error {name : List UInt8} {left n : Nat} {dir dir' : Inode} {err : Int}
    (h : ext2LookupFrom sb name left n dir = .ok (dir', .error err)) : err = -eUClean := by
  induction left generalizing n dir with
  | zero => cases h
  | succ left ih =>
      obtain ⟨⟨dir₁, addr⟩, _, h⟩ := Exec.bind_eq_ok.mp h
      dsimp only at h
      split_ifs at h
      · cases h
      · obtain ⟨found, searched, h⟩ := Exec.bind_eq_ok.mp h
        rcases found with e | none | entry
        · cases h
          exact searchDirBlockFrom_error searched
        · exact ih h
        · obtain ⟨ino, _, h⟩ := Exec.bind_eq_ok.mp h
          cases h

theorem ext2ReadInode_fresh {ino : Nat} {result : Except Int Inode} (h : ext2ReadInode sb ino = .ok result) :
    (∃ inode, result = .ok inode ∧ inode.singly = none) ∨ result = .error (-eInval) := by
  obtain ⟨slot, found, h⟩ := Exec.bind_eq_ok.mp h
  rcases slot with err | slot
  · cases h
    simp only [ext2InodeSlot] at found
    split_ifs at found
    · cases found
      exact Or.inr rfl
    · obtain ⟨base, _, found⟩ := Exec.bind_eq_ok.mp found
      cases found
  · obtain ⟨inode, _, h⟩ := Exec.bind_eq_ok.mp h
    dsimp only at h
    split_ifs at h
    · cases h
      exact Or.inl ⟨_, rfl, rfl⟩
    · cases h
      exact Or.inl ⟨_, rfl, rfl⟩
    · cases h

theorem ext2Find_result {dir dir' : Inode} {name : List UInt8} {result : Except Int Inode}
    (h : ext2Find sb dir name = .ok (dir', result)) :
    (∃ inode, result = .ok inode ∧ inode.singly = none) ∨ ∃ err, result = .error err ∧ err < 0 := by
  obtain ⟨⟨dir₁, entry⟩, searched, h⟩ := Exec.bind_eq_ok.mp h
  rcases entry with err | none | ino
  · cases h
    exact Or.inr ⟨err, rfl, by rw [ext2LookupFrom_error searched]; decide⟩
  · cases h
    exact Or.inr ⟨_, rfl, by decide⟩
  · obtain ⟨inode, read, h⟩ := Exec.bind_eq_ok.mp h
    cases h
    rcases ext2ReadInode_fresh read with found | rfl
    · exact Or.inl found
    · exact Or.inr ⟨_, rfl, by decide⟩

def lookupOnDisk (sb : Superblock) (dir : Inode) (name : List UInt8) : Exec (Except Int Inode) :=
  if Vfs.NameFits name then
    match dir.iops with
    | .ext2File => .error .outOfBounds
    | .ext2Dir => do
        let (_, found) ← ext2Find sb dir name
        .ok found
  else .error .outOfBounds

/-- The meaning of a path, without any cache: from `cur` on the components are looked up one by one. -/
def resolve (sb : Superblock) : Nat → List UInt8 → Inode → Exec (Except Int Inode)
  | 0, _, _ => .error .outOfFuel
  | fuel + 1, path, cur =>
      if charAt path 0 = 0 then .ok (.ok cur)
      else if !isDir cur.mode then .ok (.error (-eNotDir))
      else do
        match ← lookupOnDisk sb cur (Vfs.component path).str with
        | .error err => .ok (.error err)
        | .ok child => resolve sb fuel (Vfs.skipSlashes (path.dropWhile Vfs.inComponent)) child

/-! Lookups end -/

/-- Every entry that is passed over takes at least one byte of the block. -/
theorem searchDirBlockFrom_ends {buf : Buffer} {blockSize nameLen fuel ptr : Nat} {name : List UInt8}
    (enough : blockSize ≤ ptr + fuel) : (searchDirBlockFrom buf blockSize name nameLen (fuel + 1) ptr).Ends := by
  induction fuel generalizing ptr with
  | zero =>
      rw [searchDirBlockFrom, if_neg (by omega)]
      exact .ok _
  | succ fuel ih =>
      rw [searchDirBlockFrom]
      split_ifs with inside
      · refine .bind Buffer.load_ends fun entrySize => ?_
        split_ifs with empty
        · exact .ok _
        · have next : (searchDirBlockFrom buf blockSize name nameLen (fuel + 1) (ptr + entrySize)).Ends :=
            ih (by omega)
          refine .bind Buffer.load_ends fun inode => ?_
          split_ifs
          · exact next
          · refine .bind Buffer.load_ends fun nameLenLower => ?_
            split_ifs
            · exact next
            · refine .bind (memcmp_ends (fun _ => Buffer.byte_ends) (fun _ => .ok _) 0 nameLen) fun differs => ?_
              split_ifs
              · exact next
              · exact .ok _
      · exact .ok _

theorem ext2LookupFrom_ends (name : List UInt8) (left n : Nat) (dir : Inode) :
    (ext2LookupFrom sb name left n dir).Ends := by
  induction left generalizing n dir with
  | zero => exact .ok _
  | succ left ih =>
      have addr : (dirBlockAddr sb dir n).Ends := by
        rw [dirBlockAddr]
        split_ifs
        · exact .ok _
        · exact .bind Buffer.load_ends fun _ => .ok _
      refine .bind addr ?_
      rintro ⟨dir', addr⟩
      dsimp only
      split_ifs
      · exact .ok _
      · refine .bind (searchDirBlockFrom_ends (by omega)) ?_
        rintro (err | none | entry)
        · exact .ok _
        · exact ih (n + 1) dir'
        · exact .bind Buffer.load_ends fun _ => .ok _

theorem ext2ReadInode_ends (ino : Nat) : (ext2ReadInode sb ino).Ends := by
  have slot : (ext2InodeSlot sb ino).Ends := by
    rw [ext2InodeSlot]
    dsimp only
    split_ifs
    · exact .ok _
    · exact .bind Buffer.load_ends fun _ => .ok _
  refine .bind slot ?_
  rintro (err | slot)
  · exact .ok _
  · have copied : (Ext2Inode.copy (sb.readBlock slot.lba) slot.offset).Ends := by
      rw [Ext2Inode.copy]
      split_ifs
      · exact .ok _
      · rintro ⟨⟩
    refine .bind copied fun inode => ?_
    dsimp only
    split_ifs
    · exact .ok _
    · exact .ok _
    · rintro ⟨⟩

theorem lookupOnDisk_ends (dir : Inode) (name : List UInt8) : (lookupOnDisk sb dir name).Ends := by
  rw [lookupOnDisk]
  split_ifs
  case neg => rintro ⟨⟩
  cases dir.iops with
  | ext2File => rintro ⟨⟩
  | ext2Dir =>
      have found : (ext2Find sb dir name).Ends := by
        refine .bind (ext2LookupFrom_ends name _ 0 dir) ?_
        rintro ⟨dir', err | none | ino⟩
        · exact .ok _
        · exact .ok _
        · exact .bind (ext2ReadInode_ends ino) fun _ => .ok _
      exact .bind found fun _ => .ok _

theorem rest_lt {path : List UInt8} (more : charAt path 0 ≠ 0) :
    (Vfs.skipSlashes (path.dropWhile Vfs.inComponent)).length < path.length := by
  cases path with
  | nil => exact absurd rfl more
  | cons c rest =>
      have slashes := List.length_dropWhile_le (· = Vfs.slash)
      by_cases inside : Vfs.inComponent c
      · rw [List.dropWhile_cons_of_pos inside, List.length_cons, Nat.lt_succ_iff]
        exact (slashes _).trans (List.length_dropWhile_le _ rest)
      · have isSlash : c = Vfs.slash := by
          by_contra other
          exact inside (by simp only [Vfs.inComponent, Bool.and_eq_true, decide_eq_true_eq]; exact ⟨more, other⟩)
        rw [List.dropWhile_cons_of_neg inside, Vfs.skipSlashes,
          List.dropWhile_cons_of_pos (by simpa using isSlash), List.length_cons, Nat.lt_succ_iff]
        exact slashes rest

theorem resolve_ends {fuel : Nat} {path : List UInt8} (enough : path.length < fuel) (cur : Inode) :
    (resolve sb fuel path cur).Ends := by
  induction fuel generalizing path cur with
  | zero => cases enough
  | succ fuel ih =>
      rw [resolve]
      split_ifs with ended
      · exact .ok _
      · exact .ok _
      · refine .bind (lookupOnDisk_ends cur _) ?_
        rintro (err | child)
        · exact .ok _
        · have shorter := rest_lt ended
          exact ih (by omega) child

end SnapOS.Fs
