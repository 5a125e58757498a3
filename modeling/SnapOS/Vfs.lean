/- Path lookup through the tree of dentries. -/
import Mathlib.Logic.Function.Basic
import SnapOS.Ext2

namespace SnapOS.Fs
open SnapOS.Lib

/-- The bytes of a name without their terminator. Its length is the `len` field. -/
structure Qstr where
  str : List UInt8
  hash : Nat
  deriving DecidableEq, Repr

/-- A null pointer is zero, except that the inode is missing until `d_add` sets it. -/
structure Dentry where
  name : Qstr
  inode : Option Inode
  parent : Nat
  firstChild : Nat
  nextSibling : Nat

/-- The dentries by address, with the addresses that are allocated. -/
structure Vfs where
  live : List Nat
  dentry : Nat → Dentry
  root : Nat

-- A `char` is signed: bytes from 128 on are subtracted from 256.
def vfsHashName (str : List UInt8) : Nat :=
  str.foldl (fun hash c =>
    (hash * 32 + hash + if c < 128 then c.toNat else c.toNat + (word32 - 256)) % word32) 5381

/-- Addresses that `kzalloc` may return. -/
structure Allocator where
  kzalloc : List Nat → Nat
  fresh : ∀ live, kzalloc live ∉ live
  nonnull : ∀ live, kzalloc live ≠ 0

namespace Vfs

variable (sb : Superblock) (mem : Allocator)

def modify (d : Nat) (f : Dentry → Dentry) (s : Vfs) : Vfs :=
  { s with dentry := Function.update s.dentry d (f (s.dentry d)) }

def newDentry (parent : Nat) (name : Qstr) (s : Vfs) : Nat × Vfs :=
  let d := mem.kzalloc s.live
  (d, { s with live := d :: s.live, dentry := Function.update s.dentry d ⟨name, none, parent, 0, 0⟩ })

/-- The memory for a name and its terminator: `len + 1` has 32 bits. -/
def NameFits (name : List UInt8) : Prop := name.length < (name.length + 1) % word32

instance (name : List UInt8) : Decidable (NameFits name) := inferInstanceAs (Decidable (_ < _))

-- A name that does not fit is copied over the end of its block.
def dAlloc (parent : Nat) (name : Qstr) (s : Vfs) : Exec (Nat × Vfs) :=
  if NameFits name.str then .ok (s.newDentry mem parent name) else .error .outOfBounds

def dFree (d : Nat) (s : Vfs) : Vfs := { s with live := s.live.filter (· ≠ d) }

def dAdd (child : Nat) (inode : Inode) (s : Vfs) : Vfs :=
  let s := s.modify child fun d => { d with inode := some inode }
  let parent := (s.dentry child).parent
  if parent ≠ 0 then
    let s := s.modify child fun d => { d with nextSibling := (s.dentry parent).firstChild }
    s.modify parent fun d => { d with firstChild := child }
  else s

/-- `ext2_lookup` for the directory that `parent` stands for. -/
def ext2Lookup (parent : Nat) (dir : Inode) (child : Nat) (s : Vfs) : Exec (Int × Vfs) := do
  let (dir, found) ← ext2Find sb dir (s.dentry child).name.str
  let s := s.modify parent fun d => { d with inode := some dir }
  match found with
  | .error err => .ok (err, s)
  | .ok inode => .ok (0, s.dAdd child inode)

def findChild (s : Vfs) (name : Qstr) : Nat → Nat → Exec Nat
  | 0, _ => .error .outOfFuel
  | fuel + 1, cur =>
      if cur = 0 then .ok 0
      else if (s.dentry cur).name.hash = name.hash ∧ (s.dentry cur).name.str.length = name.str.length then do
        let differs ← memcmp (fun i => .ok (charAt (s.dentry cur).name.str i)) (fun i => .ok (charAt name.str i))
          0 name.str.length
        if differs = 0 then .ok cur else findChild s name fuel (s.dentry cur).nextSibling
      else findChild s name fuel (s.dentry cur).nextSibling

-- A missing inode or a missing `lookup` is a null pointer that is followed.
def vfsLookupDirect (parent : Nat) (name : Qstr) (s : Vfs) : Exec (Except Int Nat × Vfs) := do
  let cur ← s.findChild name (s.live.length + 1) (s.dentry parent).firstChild
  if cur ≠ 0 then .ok (.ok cur, s)
  else
    let (child, s) ← s.dAlloc mem parent name
    match (s.dentry parent).inode with
    | none => .error .outOfBounds
    | some dir =>
        match dir.iops with
        | .ext2File => .error .outOfBounds
        | .ext2Dir => do
            let (res, s) ← s.ext2Lookup sb parent dir child
            if res < 0 then .ok (.error res, s.dFree child) else .ok (.ok child, s)

def slash : UInt8 := 0x2F

def inComponent (c : UInt8) : Bool := c ≠ 0 && c ≠ slash

/-- The token at the start of a path. Its length is kept in 32 bits. -/
def component (path : List UInt8) : Qstr :=
  let token := path.takeWhile inComponent
  let str := token.take (token.length % word32)
  ⟨str, vfsHashName str⟩

def skipSlashes (path : List UInt8) : List UInt8 := path.dropWhile (· = slash)

/-- The loop of `vfs_lookup`, which takes at least one byte off the path in each round. -/
def vfsLookupFrom : Nat → List UInt8 → Nat → Vfs → Exec (Except Int Nat × Vfs)
  | 0, _, _, _ => .error .outOfFuel
  | fuel + 1, path, cur, s =>
      if charAt path 0 = 0 then .ok (.ok cur, s)
      else
        match (s.dentry cur).inode with
        | none => .error .outOfBounds
        | some inode =>
            if !isDir inode.mode then .ok (.error (-eNotDir), s)
            else do
              let (child, s) ← s.vfsLookupDirect sb mem cur (component path)
              match child with
              | .error err => .ok (.error err, s)
              | .ok child => vfsLookupFrom fuel (skipSlashes (path.dropWhile inComponent)) child s

def vfsLookup (path : List UInt8) (s : Vfs) : Exec (Except Int Nat × Vfs) :=
  vfsLookupFrom sb mem (path.length + 1) (skipSlashes path) s.root s

/-- The tree after `ext2_get_root` and `vfs_mount_root`. -/
def mounted (inode : Inode) : Vfs :=
  let (d, s) := newDentry mem 0 ⟨[slash], vfsHashName [slash]⟩ ⟨[], fun _ => ⟨⟨[], 0⟩, none, 0, 0, 0⟩, 0⟩
  { s.dAdd d inode with root := d }

end Vfs
end SnapOS.Fs
