/- ext2_lookup against the directory on the disk: the entry that it finds, and the blocks that it reads for it. -/
import SnapOS.DentryCache
import SnapOS.DirLookup
import SnapOS.InodeSlot

namespace SnapOS.Ext2Io
open SnapOS.Lib SnapOS.Fs

/-! The inode of an entry -/

section Inode

variable (sb : Superblock) (ino : Nat)

def FileOrDirAt (sb : Superblock) (lba offset : Nat) : Prop :=
  isDir ((sb.readBlock lba).bytes.load offset 2) = true ∨ isReg ((sb.readBlock lba).bytes.load offset 2) = true

def inodePlace : Nat := inodeIndex sb ino * sb.info.superblock.inodeStructSize

def inodeTableBlocks : Nat :=
  (sb.info.inodesPerGroup * sb.info.superblock.inodeStructSize + sb.blockSize - 1) / sb.blockSize

/-- A regular file or a directory, in a group whose descriptor is there. -/
structure IsFileOrDir : Prop where
  groups : sb.info.inodesPerGroup ≠ 0
  inside : inodeGroup sb ino < sb.info.blockGroupCount
  loaded : 32 * inodeGroup sb ino + 12 ≤ sb.info.bgdTable.size
  kind : FileOrDirAt sb ((tableBlock sb ino + inodePlace sb ino / sb.blockSize) * sb.sectorsPerBlock)
    (inodePlace sb ino % sb.blockSize)

def inodeSector : Nat := (tableBlock sb ino + blockOffset sb ino) % word32 * sb.sectorsPerBlock % word32

/-- The inode has its slot in a block of the inode table, and what the driver finds in the slot is a file or a
directory. -/
structure InodeReached : Prop where
  some : sb.info.superblock.inodeStructSize ≠ 0
  fits : sb.info.superblock.inodeStructSize ≤ sb.blockSize
  inside : sb.info.superblock.inodeStructSize * (inodeIndex sb ino % inodesPerBlock sb) + sizeofExt2Inode ≤ sb.blockSize
  table : ∃ j < inodeTableBlocks sb, inodeSector sb ino = (tableBlock sb ino + j) * sb.sectorsPerBlock
  kind : FileOrDirAt sb (inodeSector sb ino)
    (sb.info.superblock.inodeStructSize * (inodeIndex sb ino % inodesPerBlock sb))

end Inode

/-! The directory -/

section Directory

variable (sb : Superblock) (dir : Inode) (name : List UInt8) (chains : Nat → List Nat)

/-- The block that ext2 gives to block `i` of a directory, or 0 behind the last one. -/
def dirPointer (e : Ext2Inode) (i : Nat) : Nat := ext2Pointer sb e ⟨0, 0⟩ i

def dirBytes (e : Ext2Inode) (i : Nat) : Memory := (sb.readBlock (dirPointer sb e i * sb.sectorsPerBlock)).bytes

/-- A directory of `blocks` blocks, each a chain of entries, without holes and without doubly indirect blocks. -/
structure Directory (e : Ext2Inode) (blocks : Nat) : Prop where
  near : blocks ≤ 12 + sb.blockSize / 4
  filled : ∀ i < blocks, dirPointer sb e i ≠ 0
  ends : blocks < 12 + sb.blockSize / 4 → dirPointer sb e blocks = 0
  chain : ∀ i < blocks, Tiles (dirBytes sb e i) sb.blockSize 0 (chains i)

def liveEntry (e : Ext2Inode) (i : Nat) : Option Nat :=
  (chains i).find? fun a => entryInode (dirBytes sb e i) a ≠ 0 ∧ EntryNamed (dirBytes sb e i) name a

/-- The first live entry of the directory with the name is in block `k`, for this inode. -/
structure FirstEntry (e : Ext2Inode) (blocks k ino : Nat) : Prop where
  inside : k < blocks
  entry : ∃ a, liveEntry sb name chains e k = some a ∧ entryInode (dirBytes sb e k) a = ino
  before : ∀ i < k, liveEntry sb name chains e i = none

def NoEntry (e : Ext2Inode) (blocks : Nat) : Prop := ∀ i < blocks, liveEntry sb name chains e i = none

/-- The requests for block `i` of the directory, at the addresses that its blocks have. -/
def ownRequests (i : Nat) : List Request :=
  (if i = 12 ∧ dir.singly.isNone = true ∧ dir.ext2Inode.singly ≠ 0 then
    [blockRequest sb (dir.ext2Inode.singly * sb.sectorsPerBlock)] else []) ++
  (if dirPointer sb dir.ext2Inode i = 0 then []
    else [blockRequest sb (dirPointer sb dir.ext2Inode i * sb.sectorsPerBlock)])

def ownWalk (k : Nat) : List Request := (List.range k).flatMap (ownRequests sb dir)

/-- The singly indirect block is the only table that the driver has kept. -/
def Kept : Prop := ∀ table, dir.singly = some table → dir.ext2Inode.singly ≠ 0 ∧
  dir.ext2Inode.singly * sb.sectorsPerBlock < word32 ∧
  table = sb.readBlock (dir.ext2Inode.singly * sb.sectorsPerBlock)

/-- The number of blocks that are looked at for a name that is not there: the zero pointer behind the last block counts
as one. -/
def allRounds (blocks : Nat) : Nat := min (blocks + 1) (12 + sb.blockSize / 4)

end Directory

/-- `ext2_lookup` with its dentry, for the directory that `parent` stands for. -/
def ext2LookupChild (env : Env) (sb : Superblock) (parent : Nat) (dir : Inode) (child : Nat) (s : Vfs) :
    Steps Io (Int × Vfs) := do
  let (dir, found) ← ext2Lookup env sb dir (s.dentry child).name.str
  let s := s.modify parent fun d => { d with inode := some dir }
  match found with
  | .error err => pure (err, s)
  | .ok inode => pure (0, s.dAdd child inode)

section Complete

variable (env : Env) (sb : Superblock) (parent child : Nat) (dir : Inode) (s : Vfs) (chains : Nat → List Nat) (io : Io)

/-- The call succeeds with this inode, and has read the blocks up to its entry and one block of the inode table. -/
def Finds (k ino : Nat) : Prop :=
  ∃ s' io' inode lba, ext2LookupChild env sb parent dir child s io = .ok (0, s') io' ∧
    (s'.dentry child).inode = some inode ∧ inode.ino = ino ∧
    (∃ j < inodeTableBlocks sb, lba = (tableBlock sb ino + j) * sb.sectorsPerBlock) ∧
    io'.requests = io.requests ++ ownWalk sb dir (k + 1) ++ [blockRequest sb lba]

/-- The call reports that there is no such entry, after it has read the blocks of the directory. -/
def Misses (blocks : Nat) : Prop :=
  ∃ s' io', ext2LookupChild env sb parent dir child s io = .ok (-eNoEnt, s') io' ∧
    s'.dentry child = s.dentry child ∧ (s'.dentry parent).firstChild = (s.dentry parent).firstChild ∧
    io'.requests = io.requests ++ ownWalk sb dir (allRounds sb blocks)

/-- What a lookup has to do. -/
structure LookupComplete (blocks : Nat) : Prop where
  finds : ∀ k ino, FirstEntry sb (s.dentry child).name.str chains dir.ext2Inode blocks k ino → IsFileOrDir sb ino →
    Finds env sb parent child dir s io k ino
  misses : NoEntry sb (s.dentry child).name.str chains dir.ext2Inode blocks →
    Misses env sb parent child dir s io blocks

/-- No block up to the entry, or up to the end, is misplaced, and the inode can be reached. -/
structure LookupFits (name : List UInt8) (blocks : Nat) : Prop where
  finds : ∀ k ino, FirstEntry sb name chains dir.ext2Inode blocks k ino → IsFileOrDir sb ino →
    (∀ i ≤ k, ¬ Misplaced sb dir.ext2Inode ⟨0, 0⟩ i) ∧ InodeReached sb ino
  misses : NoEntry sb name chains dir.ext2Inode blocks →
    ∀ i < allRounds sb blocks, ¬ Misplaced sb dir.ext2Inode ⟨0, 0⟩ i

end Complete

/-! ext2_read_inode -/

section ReadInode

variable {env : Env} {sb : Superblock} {ino : Nat}

/-- The part of `ext2_read_inode` behind its request. -/
def takeInode (block : Block) (ino : Nat) (data : Buffer) (offset : Nat) : Steps Io (Except Int Inode) := do
  let ext2Inode ← access (Ext2Inode.copy data offset)
  let size := ext2InodeDataSize ext2Inode
  if isDir ext2Inode.mode then do
    ext2FreeBlock block
    pure (.ok ⟨ino, size, sIfdir, .ext2Dir, ext2Inode, none⟩)
  else if isReg ext2Inode.mode then do
    ext2FreeBlock block
    pure (.ok ⟨ino, size, sIfreg, .ext2File, ext2Inode, none⟩)
  else Steps.panic "ext2_lookup: unsupported type.\n"

theorem ext2ReadInode_run (reliable : env.Reliable) (mounted : Mounted sb) (first : 1 ≤ ino) (small : ino < word32)
    (computed : SlotComputed sb ino) (io : Io) :
    ∃ block io₁, ext2ReadInode env sb ino io = takeInode block ino (sb.readBlock (inodeSector sb ino))
        (sb.info.superblock.inodeStructSize * (inodeIndex sb ino % inodesPerBlock sb)) io₁ ∧
      io₁.requests = io.requests ++ [blockRequest sb (inodeSector sb ino)] := by
  have blockSize : sb.blockSize < word32 := by
    rcases mounted.size with size | size | size
    all_goals
      rw [size]
      decide
  have offset : (slotOf sb ino).offset = _ := slotOf_offset (Nat.pos_of_ne_zero computed.some) computed.fits blockSize
  have read : bdevRead env sb.bdev (slotOf sb ino).lba sb.sectorsPerBlock ⟨env.fresh io.allocations, sb.blockSize⟩
      io.granted.granted.granted.granted = _ := mounted.bdevRead rfl (reliable.answers _)
  rw [ext2ReadInode, Steps.bind_ok (ext2InodeSlot_computed computed first small io)]
  dsimp only
  rw [ext2AllocBlock_eq, Steps.bind_ok (kmalloc_granted (reliable.memory _) _),
    Steps.bind_ok (kmalloc_granted (reliable.memory _) _), Steps.bind_ok (kmalloc_granted (reliable.memory _) _),
    Steps.bind_ok (kmalloc_granted (reliable.memory _) _)]
  simp only [Option.isSome_some, Bool.and_self]
  rw [Steps.bind_ok read]
  dsimp only
  rw [if_neg (Int.not_lt.mpr (reliable.answers _)), offset]
  exact ⟨_, _, rfl, rfl⟩

theorem takeInode_ok {data : Buffer} {offset : Nat} (inside : offset + sizeofExt2Inode ≤ data.size)
    (kind : isDir (data.bytes.load offset 2) = true ∨ isReg (data.bytes.load offset 2) = true) (block : Block)
    (ino : Nat) (io : Io) :
    ∃ inode, takeInode block ino data offset io = .ok (.ok inode) (io.freed block.id) ∧ inode.ino = ino ∧
      Ext2Inode.copy data offset = .ok inode.ext2Inode ∧ inode.size = ext2InodeDataSize inode.ext2Inode := by
  rw [takeInode, Ext2Inode.copy, if_pos inside, access, pure_bind]
  dsimp only
  by_cases directory : isDir (data.bytes.load offset 2) = true
  · rw [if_pos directory]
    exact ⟨_, rfl, rfl, rfl, rfl⟩
  · rw [if_neg directory, if_pos (kind.resolve_left directory)]
    exact ⟨_, rfl, rfl, rfl, rfl⟩

theorem takeInode_only {block : Block} {data : Buffer} {offset : Nat} {io io' : Io} {r : Except Int Inode}
    (done : takeInode block ino data offset io = .ok r io') :
    offset + sizeofExt2Inode ≤ data.size ∧
      (isDir (data.bytes.load offset 2) = true ∨ isReg (data.bytes.load offset 2) = true) ∧
      io'.requests = io.requests := by
  rw [takeInode, Ext2Inode.copy] at done
  split at done
  · next inside =>
      rw [access, pure_bind] at done
      dsimp only at done
      split at done
      · next directory =>
          cases done
          exact ⟨inside, Or.inl directory, rfl⟩
      · split at done
        · next regular =>
            cases done
            exact ⟨inside, Or.inr regular, rfl⟩
        · cases done
  · cases done

theorem ext2ReadInode_reached_iff (reliable : env.Reliable) (mounted : Mounted sb) (first : 1 ≤ ino)
    (small : ino < word32)
    (exists' : IsFileOrDir sb ino) (io : Io) :
    (∃ inode io' lba, ext2ReadInode env sb ino io = .ok (.ok inode) io' ∧ inode.ino = ino ∧
        (∃ j < inodeTableBlocks sb, lba = (tableBlock sb ino + j) * sb.sectorsPerBlock) ∧
        io'.requests = io.requests ++ [blockRequest sb lba]) ↔ InodeReached sb ino := by
  constructor
  · rintro ⟨inode, io', lba, done, -, table, requests⟩
    have computed : SlotComputed sb ino := by
      rw [ext2ReadInode] at done
      obtain ⟨slot, io₁, found, done⟩ := Steps.bind_eq_ok.mp done
      cases slot with
      | error err => cases done
      | ok slot => exact (ext2InodeSlot_only first small found).1
    obtain ⟨block, io₁, run, asked⟩ := ext2ReadInode_run reliable mounted first small computed io
    rw [run] at done
    obtain ⟨inside, kind, same⟩ := takeInode_only done
    rw [mounted.readBlock_size] at inside
    rw [same, asked] at requests
    have lba : inodeSector sb ino = lba :=
      congrArg Request.lba (List.cons.inj (List.append_cancel_left requests)).1
    exact ⟨computed.some, computed.fits, inside, lba ▸ table, kind⟩
  · intro reached
    have computed : SlotComputed sb ino :=
      ⟨exists'.groups, exists'.inside, reached.some, reached.fits, exists'.loaded⟩
    obtain ⟨block, io₁, run, asked⟩ := ext2ReadInode_run reliable mounted first small computed io
    have inside := reached.inside
    rw [← mounted.readBlock_size (inodeSector sb ino)] at inside
    obtain ⟨inode, taken, isIno, -⟩ := takeInode_ok inside reached.kind block ino io₁
    exact ⟨inode, _, inodeSector sb ino, run.trans taken, isIno, reached.table, asked⟩

end ReadInode

/-! The walk -/

section Walk

variable {env : Env} {sb : Superblock} {dir : Inode} {name : List UInt8} {chains : Nat → List Nat} {blocks i k : Nat}

theorem Kept.opened (kept : Kept sb dir) : Opened sb dir := by
  intro table cached
  obtain ⟨-, fits, same⟩ := kept table cached
  rw [same, tableLba, Nat.mod_eq_of_lt fits]

theorem Directory.search (directory : Directory sb chains dir.ext2Inode blocks) (mounted : Mounted sb)
    (short : name.length ≤ 255) (inside : i < blocks) (placed : ¬ Misplaced sb dir.ext2Inode ⟨0, 0⟩ i) :
    searchIndex sb dir.ext2Inode name i = .ok (.ok (liveEntry sb name chains dir.ext2Inode i)) := by
  have near := lt_of_lt_of_le inside directory.near
  have byte : name.length % 256 = name.length := Nat.mod_eq_of_lt (by omega)
  have size := mounted.readBlock_size (dirPointer sb dir.ext2Inode i * sb.sectorsPerBlock)
  have tiles := directory.chain i inside
  have few := tiles.le
  rw [← size] at tiles
  rw [searchIndex, blockLba_exact near placed, byte, ← size]
  exact searchDirBlockFrom_tiles tiles (by omega)

theorem Directory.passed (directory : Directory sb chains dir.ext2Inode blocks) (mounted : Mounted sb)
    (short : name.length ≤ 255) (inside : i < blocks) (placed : ¬ Misplaced sb dir.ext2Inode ⟨0, 0⟩ i)
    (none : liveEntry sb name chains dir.ext2Inode i = none) : Passed sb dir.ext2Inode name i := by
  have near := lt_of_lt_of_le inside directory.near
  refine ⟨?_, none ▸ directory.search mounted short inside placed⟩
  rw [blockPointer_exact near fun table => placed (Or.inl table)]
  exact directory.filled i inside

theorem tableRequests_own (table : ¬ (12 ≤ i ∧ (dir.ext2Inode.singly = 0 ∨
      word32 ≤ dir.ext2Inode.singly * sb.sectorsPerBlock))) :
    (if i = 12 ∧ dir.singly.isNone = true then [blockRequest sb (tableLba sb dir.ext2Inode)] else []) =
      if i = 12 ∧ dir.singly.isNone = true ∧ dir.ext2Inode.singly ≠ 0 then
        [blockRequest sb (dir.ext2Inode.singly * sb.sectorsPerBlock)] else [] := by
  by_cases last : i = 12
  · have there : dir.ext2Inode.singly ≠ 0 := fun none => table ⟨Nat.le_of_eq last.symm, Or.inl none⟩
    have fits : dir.ext2Inode.singly * sb.sectorsPerBlock < word32 :=
      Nat.not_le.mp fun wraps => table ⟨Nat.le_of_eq last.symm, Or.inr wraps⟩
    simp only [there, ne_eq, not_false_eq_true, and_true, tableLba, Nat.mod_eq_of_lt fits]
  · rw [if_neg fun both => last both.1, if_neg fun both => last both.1]

theorem indexRequests_own (near : i < 12 + sb.blockSize / 4) (placed : ¬ Misplaced sb dir.ext2Inode ⟨0, 0⟩ i) :
    indexRequests sb dir i = ownRequests sb dir i := by
  rw [indexRequests, ownRequests, tableRequests_own fun table => placed (Or.inl table), blockLba_exact near placed,
    blockPointer_exact near fun table => placed (Or.inl table)]
  rfl

theorem walkRequests_own (few : k ≤ 12 + sb.blockSize / 4) (placed : ∀ i < k, ¬ Misplaced sb dir.ext2Inode ⟨0, 0⟩ i) :
    walkRequests sb dir k = ownWalk sb dir k := by
  refine List.flatMap_congr fun i member => ?_
  have before := List.mem_range.mp member
  exact indexRequests_own (lt_of_lt_of_le before few) (placed i before)

theorem ownWalk_split (sb : Superblock) (dir : Inode) (before : i < k) :
    ∃ more, ownWalk sb dir k = ownWalk sb dir i ++ (ownRequests sb dir i ++ more) ∧ (k = i + 1 → more = []) := by
  obtain ⟨rest, rfl⟩ := Nat.exists_eq_add_of_lt before
  refine ⟨((List.range rest).map (i + 1 + ·)).flatMap (ownRequests sb dir), ?_, fun last => ?_⟩
  · rw [ownWalk, show i + rest + 1 = i + 1 + rest by omega, List.range_add, List.flatMap_append, List.range_succ,
      List.flatMap_append, List.flatMap_singleton, List.append_assoc]
    rfl
  · obtain rfl : rest = 0 := by omega
    rfl

theorem placed_of_prefix {more : List Request} (kept : Kept sb dir) (near : i < 12 + sb.blockSize / 4)
    (before : ∀ j < i, ¬ Misplaced sb dir.ext2Inode ⟨0, 0⟩ j)
    (last : i = 12 → dir.ext2Inode.singly = 0 → more = [])
    (asked : indexRequests sb dir i <+: ownRequests sb dir i ++ more) : ¬ Misplaced sb dir.ext2Inode ⟨0, 0⟩ i := by
  intro misplaced
  by_cases table : 12 ≤ i ∧ (dir.ext2Inode.singly = 0 ∨ word32 ≤ dir.ext2Inode.singly * sb.sectorsPerBlock)
  · obtain rfl : i = 12 := by
      by_contra other
      exact before 12 (by omega) (Or.inl ⟨le_rfl, table.2⟩)
    have missing : dir.singly = none := by
      cases cached : dir.singly with
      | none => rfl
      | some kept' =>
          obtain ⟨there, fits, -⟩ := kept kept' cached
          exact absurd table.2 (not_or.mpr ⟨there, Nat.not_le.mpr fits⟩)
    rw [indexRequests, if_pos ⟨rfl, by rw [missing]; rfl⟩, ownRequests] at asked
    rcases Nat.eq_zero_or_pos dir.ext2Inode.singly with zero | there
    · have hole : dirPointer sb dir.ext2Inode 12 = 0 := by
        rw [dirPointer, ext2Pointer, if_neg (lt_irrefl 12), if_pos near, zero]
        rfl
      have untold : ¬ (12 = 12 ∧ dir.singly.isNone = true ∧ dir.ext2Inode.singly ≠ 0) := fun all => all.2.2 zero
      rw [last rfl zero, if_neg untold, if_pos hole] at asked
      exact absurd asked.length_le (by simp)
    · have wraps := table.2.resolve_left there.ne'
      have told : 12 = 12 ∧ dir.singly.isNone = true ∧ dir.ext2Inode.singly ≠ 0 :=
        ⟨rfl, by rw [missing]; rfl, there.ne'⟩
      rw [if_pos told] at asked
      have same : tableLba sb dir.ext2Inode = dir.ext2Inode.singly * sb.sectorsPerBlock :=
        congrArg Request.lba (List.cons_prefix_cons.mp asked).1
      exact absurd (Nat.mod_lt _ (by decide)) (Nat.not_lt.mpr (same.symm ▸ wraps))
  · have wraps := misplaced.resolve_left table
    have pointer : blockPointer sb dir.ext2Inode i = dirPointer sb dir.ext2Inode i := blockPointer_exact near table
    have some : dirPointer sb dir.ext2Inode i ≠ 0 := by
      intro none
      rw [dirPointer] at none
      rw [none, Nat.zero_mul] at wraps
      exact absurd wraps (by decide)
    rw [indexRequests, ownRequests, tableRequests_own table, List.append_assoc, List.prefix_append_right_inj, pointer,
      if_neg some, if_neg some] at asked
    have same : blockLba sb dir.ext2Inode i = dirPointer sb dir.ext2Inode i * sb.sectorsPerBlock :=
      congrArg Request.lba (List.cons_prefix_cons.mp asked).1
    exact absurd (Nat.mod_lt _ (by decide)) (Nat.not_lt.mpr (same.symm ▸ wraps))

theorem placed_of_walk {rounds : Nat} (tail : List Request) (kept : Kept sb dir) (few : rounds ≤ 12 + sb.blockSize / 4)
    (last : dir.ext2Inode.singly = 0 → 12 < rounds → rounds = 13 ∧ tail = [])
    (walks : ∀ i < rounds, (∀ j < i, ¬ Misplaced sb dir.ext2Inode ⟨0, 0⟩ j) →
      walkRequests sb dir (i + 1) <+: ownWalk sb dir rounds ++ tail) :
    ∀ i < rounds, ¬ Misplaced sb dir.ext2Inode ⟨0, 0⟩ i := by
  intro i
  induction i using Nat.strong_induction_on with
  | _ i ih =>
      intro inside
      have before : ∀ j < i, ¬ Misplaced sb dir.ext2Inode ⟨0, 0⟩ j := fun j less => ih j less (less.trans inside)
      have near := lt_of_lt_of_le inside few
      obtain ⟨more, split, single⟩ := ownWalk_split sb dir inside
      have asked := walks i inside before
      rw [walkRequests_succ, walkRequests_own (Nat.le_of_lt near) before, split, List.append_assoc,
        List.prefix_append_right_inj, List.append_assoc] at asked
      refine placed_of_prefix kept near before (fun isLast zero => ?_) asked
      obtain ⟨thirteen, nothing⟩ := last zero (isLast ▸ inside)
      rw [single (by omega), nothing, List.append_nil]

end Walk

/-! The call -/

section Call

variable {env : Env} {sb : Superblock} {parent child : Nat} {dir d : Inode} {s : Vfs} {name : List UInt8}
  {io io' io₂ : Io}

def lookupAnswer (s : Vfs) (parent child : Nat) (dir : Inode) (found : Except Int Inode) : Int × Vfs :=
  let s := s.modify parent fun d => { d with inode := some dir }
  match found with
  | .error err => (err, s)
  | .ok inode => (0, s.dAdd child inode)

theorem ext2LookupChild_eq_ok {r : Int × Vfs} : ext2LookupChild env sb parent dir child s io = .ok r io' ↔
    ∃ d found, ext2Lookup env sb dir (s.dentry child).name.str io = .ok (d, found) io' ∧
      r = lookupAnswer s parent child d found := by
  rw [ext2LookupChild, Steps.bind_eq_ok]
  constructor
  · rintro ⟨⟨d, err | inode⟩, io₁, looked, done⟩
    all_goals
      cases done
      exact ⟨d, _, looked, rfl⟩
  · rintro ⟨d, err | inode, looked, rfl⟩
    all_goals exact ⟨_, _, looked, rfl⟩

theorem lookupAnswer_missing (apart : child ≠ parent) (d : Inode) (err : Int) :
    (lookupAnswer s parent child d (.error err)).2.dentry child = s.dentry child ∧
      ((lookupAnswer s parent child d (.error err)).2.dentry parent).firstChild = (s.dentry parent).firstChild := by
  refine ⟨Function.update_of_ne apart _ _, ?_⟩
  change (Function.update s.dentry parent _ parent).firstChild = _
  rw [Function.update_self]

theorem modify_inode {f : Dentry → Dentry} (keeps : ∀ d, (f d).inode = d.inode) (s : Vfs) (p c : Nat) :
    ((s.modify p f).dentry c).inode = (s.dentry c).inode := by
  change (Function.update s.dentry p (f (s.dentry p)) c).inode = _
  rw [Function.update_apply]
  split
  · next same => rw [keeps, same]
  · rfl

theorem dAdd_inode (s : Vfs) (child : Nat) (inode : Inode) :
    ((s.dAdd child inode).dentry child).inode = some inode := by
  have set : ((s.modify child fun d => { d with inode := some inode }).dentry child).inode = some inode := by
    change (Function.update s.dentry child _ child).inode = _
    rw [Function.update_self]
  rw [Vfs.dAdd]
  dsimp only
  split
  · refine (modify_inode ?_ _ _ _).trans ((modify_inode ?_ _ _ _).trans set)
    all_goals
      intro d
      rfl
  · exact set

theorem ext2Lookup_none (reliable : env.Reliable)
    (loop : ext2LookupFrom env sb name (12 + sb.blockSize / 4) 0 dir ⟨env.fresh io.allocations, sb.blockSize⟩
      io.granted =
      .ok (d, .ok none) io₂) :
    ext2Lookup env sb dir name io = .ok (d, .error (-eNoEnt)) (io₂.freed io.allocations) := by
  rw [ext2Lookup, ext2AllocBlock_eq, Steps.bind_ok (kmalloc_granted (reliable.memory _) _)]
  dsimp only
  rw [Steps.bind_ok loop]
  rfl

theorem ext2Lookup_some {buf : Buffer} {a ino : Nat} (reliable : env.Reliable)
    (loop : ext2LookupFrom env sb name (12 + sb.blockSize / 4) 0 dir ⟨env.fresh io.allocations, sb.blockSize⟩
      io.granted =
      .ok (d, .ok (some (buf, a))) io₂)
    (entry : buf.load a 4 = .ok ino) {r : Inode × Except Int Inode} :
    ext2Lookup env sb dir name io = .ok r io' ↔ ∃ found io₃, ext2ReadInode env sb ino io₂ = .ok found io₃ ∧
      r = (d, found) ∧ io' = io₃.freed io.allocations := by
  rw [ext2Lookup, ext2AllocBlock_eq, Steps.bind_ok (kmalloc_granted (reliable.memory _) _)]
  dsimp only
  rw [Steps.bind_ok loop]
  dsimp only
  rw [entry, access, pure_bind, Steps.bind_eq_ok]
  constructor
  · rintro ⟨found, io₃, read, done⟩
    cases done
    exact ⟨found, io₃, read, rfl, rfl⟩
  · rintro ⟨found, io₃, read, rfl, rfl⟩
    exact ⟨found, io₃, read, rfl⟩

/-- The requests of the loop stand before all others. -/
theorem ext2Lookup_loop (reliable : env.Reliable) {r : Inode × Except Int Inode}
    (done : ext2Lookup env sb dir name io = .ok r io') :
    ∃ q io₂, ext2LookupFrom env sb name (12 + sb.blockSize / 4) 0 dir ⟨env.fresh io.allocations, sb.blockSize⟩
      io.granted = .ok q io₂ ∧ io₂.requests <+: io'.requests := by
  rw [ext2Lookup, ext2AllocBlock_eq, Steps.bind_ok (kmalloc_granted (reliable.memory _) _)] at done
  obtain ⟨⟨d, entry⟩, io₂, loop, rest⟩ := Steps.bind_eq_ok.mp done
  refine ⟨_, io₂, loop, ?_⟩
  have permits := permits_all sb
  rcases entry with err | none | ⟨buf, a⟩
  · cases rest
    exact List.prefix_refl _
  · cases rest
    exact List.prefix_refl _
  · obtain ⟨ino, io₃, loaded, rest⟩ := Steps.bind_eq_ok.mp rest
    obtain ⟨inode, io₄, read, rest⟩ := Steps.bind_eq_ok.mp rest
    cases rest
    have first := ((access_leads _ (permits.load buf a 4) io₂).1 _ _ loaded).1.grows (G := fun _ => True)
    exact first.trans ((permits.readInode ino io₃).1 _ _ read).1.grows

/-- Every block that the loop comes to shows in the requests of the call. -/
theorem ext2LookupChild_asks (reliable : env.Reliable) (mounted : Mounted sb) (kept : Kept sb dir) {r : Int × Vfs}
    (done : ext2LookupChild env sb parent dir child s io = .ok r io') {k : Nat} (few : k < 12 + sb.blockSize / 4)
    (passed : ∀ i < k, Passed sb dir.ext2Inode (s.dentry child).name.str i) :
    io.requests ++ walkRequests sb dir (k + 1) <+: io'.requests := by
  obtain ⟨d, found, looked, -⟩ := ext2LookupChild_eq_ok.mp done
  obtain ⟨q, io₂, loop, rest⟩ := ext2Lookup_loop reliable looked
  exact (ext2LookupFrom_grows reliable mounted kept.opened rfl io.granted few passed loop).trans rest

end Call

section Equivalence

variable {env : Env} {sb : Superblock} {parent child : Nat} {dir : Inode} {s : Vfs} {chains : Nat → List Nat}
  {blocks : Nat}

theorem dirPointer_noTable {e : Ext2Inode} {i : Nat} (none : e.singly = 0) (behind : 12 ≤ i)
    (near : i < 12 + sb.blockSize / 4) : dirPointer sb e i = 0 := by
  rw [dirPointer, ext2Pointer, if_neg (Nat.not_lt.mpr behind), if_pos near, none]
  rfl

theorem tiles_mem_le {bytes : Memory} {blockSize a e : Nat} {entries : List Nat}
    (tiles : Tiles bytes blockSize a entries)
    (member : e ∈ entries) : e + 4 ≤ blockSize := by
  induction tiles with
  | done => cases member
  | entry room aligned later ih =>
      rcases List.mem_cons.mp member with rfl | later'
      · have := later.le
        omega
      · exact ih later'

theorem misses_iff (reliable : env.Reliable) (mounted : Mounted sb) (kept : Kept sb dir)
    (directory : Directory sb chains dir.ext2Inode blocks) (short : (s.dentry child).name.str.length ≤ 255)
    (apart : child ≠ parent) (none : NoEntry sb (s.dentry child).name.str chains dir.ext2Inode blocks) (io : Io) :
    Misses env sb parent child dir s io blocks ↔
      ∀ i < allRounds sb blocks, ¬ Misplaced sb dir.ext2Inode ⟨0, 0⟩ i := by
  have few : allRounds sb blocks ≤ 12 + sb.blockSize / 4 := min_le_right _ _
  have inBlocks {i j : Nat} (less : j < i) (inside : i < allRounds sb blocks) : j < blocks := by
    have := lt_of_lt_of_le inside (min_le_left _ _)
    omega
  constructor
  · rintro ⟨s', io', done, -, -, requests⟩
    refine placed_of_walk [] kept few (fun zero far => ⟨?_, rfl⟩) fun i inside before => ?_
    · have blocksFew : blocks ≤ 12 := by
        by_contra more
        have near := lt_of_lt_of_le (Nat.not_le.mp more) directory.near
        exact directory.filled 12 (Nat.not_le.mp more) (dirPointer_noTable zero le_rfl near)
      have := lt_of_lt_of_le far (min_le_left _ _)
      rw [allRounds] at far ⊢
      omega
    · have asked := ext2LookupChild_asks reliable mounted kept done (lt_of_lt_of_le inside few) fun j less =>
        directory.passed mounted short (inBlocks less inside) (before j less) (none j (inBlocks less inside))
      rw [requests, List.prefix_append_right_inj] at asked
      rwa [List.append_nil]
  · intro placed
    have within {i : Nat} (inside : i < blocks) : i < allRounds sb blocks :=
      lt_min (by omega) (lt_of_lt_of_le inside directory.near)
    have ended : blocks < 12 + sb.blockSize / 4 → blockPointer sb dir.ext2Inode blocks = 0 := by
      intro before
      have last := placed blocks (lt_min (Nat.lt_succ_self _) before)
      rw [blockPointer_exact before fun table => last (Or.inl table)]
      exact directory.ends before
    obtain ⟨d, io₂, loop, requests⟩ := ext2LookupFrom_stops reliable mounted kept.opened
      (show (Buffer.mk (env.fresh io.allocations) sb.blockSize).size = sb.blockSize from rfl) io.granted directory.near
      (fun i inside => directory.passed mounted short inside (placed i (within inside)) (none i inside)) ended
    obtain ⟨same, first⟩ := lookupAnswer_missing (s := s) apart d (-eNoEnt)
    refine ⟨_, _, ext2LookupChild_eq_ok.mpr ⟨d, _, ext2Lookup_none reliable loop, rfl⟩, same, first, ?_⟩
    change io₂.requests = _
    rw [requests, ← allRounds, walkRequests_own few placed]
    rfl

theorem FirstEntry.loop {name : List UInt8} {k ino : Nat} (found : FirstEntry sb name chains dir.ext2Inode blocks k ino)
    (reliable : env.Reliable) (mounted : Mounted sb) (kept : Kept sb dir)
    (directory : Directory sb chains dir.ext2Inode blocks) (short : name.length ≤ 255)
    (placed : ∀ i < k + 1, ¬ Misplaced sb dir.ext2Inode ⟨0, 0⟩ i) (io : Io) :
    ∃ d buf a io₂, ext2LookupFrom env sb name (12 + sb.blockSize / 4) 0 dir ⟨env.fresh io.allocations, sb.blockSize⟩
        io.granted = .ok (d, .ok (some (buf, a))) io₂ ∧ buf.load a 4 = .ok ino ∧
      io₂.requests = io.requests ++ ownWalk sb dir (k + 1) := by
  obtain ⟨inside, ⟨a, live, isIno⟩, before⟩ := found
  have near := lt_of_lt_of_le inside directory.near
  have here := placed k (Nat.lt_succ_self k)
  have search := directory.search mounted short inside here
  rw [live] at search
  have block : blockPointer sb dir.ext2Inode k ≠ 0 := by
    rw [blockPointer_exact near fun table => here (Or.inl table)]
    exact directory.filled k inside
  obtain ⟨d, io₂, loop, requests⟩ := ext2LookupFrom_finds reliable mounted kept.opened
    (show (Buffer.mk (env.fresh io.allocations) sb.blockSize).size = sb.blockSize from rfl) io.granted near
    (fun i less => directory.passed mounted short (less.trans inside) (placed i (less.trans (Nat.lt_succ_self k)))
      (before i less)) block search
  refine ⟨d, _, a, io₂, loop, ?_, ?_⟩
  · have fits := tiles_mem_le (directory.chain k inside) (List.mem_of_find?_eq_some live)
    rw [Buffer.load_ok (by rw [mounted.readBlock_size]; exact fits), blockLba_exact near here]
    exact congrArg Except.ok isIno
  · rw [requests, walkRequests_own near placed]
    rfl

theorem finds_iff {k ino : Nat} (found : FirstEntry sb (s.dentry child).name.str chains dir.ext2Inode blocks k ino)
    (isFile : IsFileOrDir sb ino) (reliable : env.Reliable) (mounted : Mounted sb) (kept : Kept sb dir)
    (directory : Directory sb chains dir.ext2Inode blocks) (short : (s.dentry child).name.str.length ≤ 255)
    (apart : child ≠ parent) (fresh : (s.dentry child).inode = none) (io : Io) :
    Finds env sb parent child dir s io k ino ↔
      (∀ i ≤ k, ¬ Misplaced sb dir.ext2Inode ⟨0, 0⟩ i) ∧ InodeReached sb ino := by
  have near := lt_of_lt_of_le found.inside directory.near
  have inoBounds : 1 ≤ ino ∧ ino < word32 := by
    obtain ⟨a, live, rfl⟩ := found.entry
    have named := List.find?_some live
    refine ⟨Nat.pos_of_ne_zero (of_decide_eq_true named).1, Memory.load_lt _ a 4⟩
  constructor
  · rintro ⟨s', io', inode, lba, done, linked, isIno, table, requests⟩
    have placed : ∀ i < k + 1, ¬ Misplaced sb dir.ext2Inode ⟨0, 0⟩ i := by
      refine placed_of_walk [blockRequest sb lba] kept near (fun zero far => ?_) fun i inside before => ?_
      · exact absurd (dirPointer_noTable zero (Nat.le_of_lt_succ far) near) (directory.filled k found.inside)
      · have asked := ext2LookupChild_asks reliable mounted kept done (lt_of_lt_of_le inside near) fun j less =>
          directory.passed mounted short (by have := found.inside; omega) (before j less) (found.before j (by omega))
        rwa [requests, List.append_assoc, List.prefix_append_right_inj] at asked
    refine ⟨fun i last => placed i (Nat.lt_succ_of_le last), ?_⟩
    obtain ⟨d, buf, a, io₂, loop, entry, walked⟩ := found.loop reliable mounted kept directory short placed io
    obtain ⟨d', answer, looked, same⟩ := ext2LookupChild_eq_ok.mp done
    obtain ⟨answer, io₃, read, isAnswer, rfl⟩ := (ext2Lookup_some reliable loop entry).mp looked
    cases isAnswer
    obtain rfl : s' = (lookupAnswer s parent child d answer).2 := congrArg Prod.snd same
    cases answer with
    | error err =>
        rw [(lookupAnswer_missing apart d err).1, fresh] at linked
        cases linked
    | ok inode' =>
        obtain rfl : inode' = inode := Option.some.inj ((dAdd_inode _ child inode').symm.trans linked)
        refine (ext2ReadInode_reached_iff reliable mounted inoBounds.1 inoBounds.2 isFile io₂).mp
          ⟨inode', io₃, lba, read, isIno, table, ?_⟩
        rw [walked]
        exact requests
  · rintro ⟨placed, reached⟩
    obtain ⟨d, buf, a, io₂, loop, entry, walked⟩ := found.loop reliable mounted kept directory short
      (fun i last => placed i (Nat.le_of_lt_succ last)) io
    obtain ⟨inode, io₃, lba, read, isIno, table, requests⟩ :=
      (ext2ReadInode_reached_iff reliable mounted inoBounds.1 inoBounds.2 isFile io₂).mpr reached
    refine ⟨_, _, inode, lba, ext2LookupChild_eq_ok.mpr ⟨d, .ok inode,
      (ext2Lookup_some reliable loop entry).mpr ⟨_, io₃, read, rfl, rfl⟩, rfl⟩, dAdd_inode _ child inode, isIno,
        table, ?_⟩
    change io₃.requests = _
    rw [requests, walked]

/-- For every directory of direct and singly indirect blocks and every name of at most 255 bytes: a lookup is
complete and reads only blocks of the directory and of the inode table if and only if no block that it comes to
is misplaced and the inode can be reached. -/
theorem ext2Lookup_complete_iff (reliable : env.Reliable) (mounted : Mounted sb) (kept : Kept sb dir)
    (directory : Directory sb chains dir.ext2Inode blocks) (short : (s.dentry child).name.str.length ≤ 255)
    (apart : child ≠ parent) (fresh : (s.dentry child).inode = none) (io : Io) :
    LookupComplete env sb parent child dir s chains io blocks ↔
      LookupFits sb dir chains (s.dentry child).name.str blocks := by
  constructor
  · rintro ⟨finds, misses⟩
    refine ⟨fun k ino found isFile => ?_, fun none => ?_⟩
    · exact (finds_iff found isFile reliable mounted kept directory short apart fresh io).mp (finds k ino found isFile)
    · exact (misses_iff reliable mounted kept directory short apart none io).mp (misses none)
  · rintro ⟨finds, misses⟩
    refine ⟨fun k ino found isFile => ?_, fun none => ?_⟩
    · exact (finds_iff found isFile reliable mounted kept directory short apart fresh io).mpr (finds k ino found isFile)
    · exact (misses_iff reliable mounted kept directory short apart none io).mpr (misses none)

end Equivalence

/-! A small file system -/

def smallFs (entries : Memory) : Superblock :=
  ⟨⟨fun a => if a < 5120 then 0 else if a < 6144 then entries (a - 5120) else if a = 6145 then 0x80 else 0, 0, 512⟩,
    1024, 2, ⟨⟨8, 1, 0, 0, 8, 128⟩, 8, 0, 1, ⟨fun i => if i = 8 then 6 else 0, 1024⟩⟩⟩

theorem smallFs_mounted (entries : Memory) : Mounted (smallFs entries) := ⟨Or.inl rfl, show 2 * 512 = 1024 from rfl⟩

def smallDir (directPtrs : List Nat) : Inode :=
  ⟨2, 1024, sIfdir, .ext2Dir, ⟨sIfdir, 1024, directPtrs, 0, 0⟩, none⟩

theorem smallDir_kept (sb : Superblock) (directPtrs : List Nat) : Kept sb (smallDir directPtrs) := by
  intro table cached
  cases cached

def oneEntry : Memory := fun i => [1, 0, 0, 0, 0, 4, 1, 1, 0x61].getD i 0

def newChild (name : List UInt8) : Vfs := ⟨[2, 1], fun _ => ⟨⟨name, vfsHashName name⟩, none, 1, 0, 0⟩, 1⟩

theorem oneEntry_directory {directPtrs : List Nat} {blocks : Nat} (near : blocks ≤ 12)
    (filled : ∀ i < blocks, directPtrs.getD i 0 = 5)
    (ends : dirPointer (smallFs oneEntry) (smallDir directPtrs).ext2Inode blocks = 0) :
    Directory (smallFs oneEntry) (fun _ => [0]) (smallDir directPtrs).ext2Inode blocks := by
  have pointer : ∀ i < blocks, dirPointer (smallFs oneEntry) (smallDir directPtrs).ext2Inode i = 5 := by
    intro i inside
    rw [dirPointer, ext2Pointer, if_pos (lt_of_lt_of_le inside near)]
    exact filled i inside
  refine ⟨by omega, fun i inside => ?_, fun _ => ends, fun i inside => ?_⟩
  · rw [pointer i inside]
    decide
  · rw [dirBytes, pointer i inside]
    have size : 0 + entrySize ((smallFs oneEntry).readBlock (5 * 2)).bytes 0 = 1024 := by decide +kernel
    exact .entry (by decide +kernel) (by decide +kernel) (size ▸ .done)

theorem ext2Lookup_complete_iff_oneEntry :
    LookupComplete workingEnv (smallFs oneEntry) 1 2 (smallDir [5]) (newChild [0x61]) (fun _ => [0]) ⟨[], 0, []⟩ 1 := by
  have directory : Directory (smallFs oneEntry) (fun _ => [0]) (smallDir [5]).ext2Inode 1 :=
    oneEntry_directory (by decide) (by decide) (by decide +kernel)
  have placed : ∀ i < 2, ¬ Misplaced (smallFs oneEntry) (smallDir [5]).ext2Inode ⟨0, 0⟩ i := by
    unfold Misplaced
    decide +kernel
  refine (ext2Lookup_complete_iff workingEnv_reliable (smallFs_mounted _) (smallDir_kept _ _) directory (by decide)
    (by decide) rfl ⟨[], 0, []⟩).mpr ⟨?_, fun _ i inside => placed i (lt_of_lt_of_le inside (min_le_left _ _))⟩
  rintro k ino ⟨inside, ⟨a, live, isIno⟩, -⟩ -
  have first : k = 0 ∧ ino = 1 := by
    obtain rfl : k = 0 := by omega
    have entry : liveEntry (smallFs oneEntry) [0x61] (fun _ => [0]) (smallDir [5]).ext2Inode 0 = some 0 := by
      decide +kernel
    cases entry.symm.trans live
    rw [← isIno]
    decide +kernel
  obtain ⟨rfl, rfl⟩ := first
  refine ⟨fun i last => placed i (by omega),
    by decide +kernel, by decide +kernel, by decide +kernel, ⟨0, ?_⟩, Or.inr ?_⟩
  · decide +kernel
  · decide +kernel

/-- A directory of twelve blocks has no indirect block. For a name that is not in them the driver reads block 0. -/
theorem twelve_blocks_read_block_zero :
    Directory (smallFs oneEntry) (fun _ => [0]) (smallDir (List.replicate 12 5)).ext2Inode 12 ∧
      NoEntry (smallFs oneEntry) [0x62] (fun _ => [0]) (smallDir (List.replicate 12 5)).ext2Inode 12 ∧
      ∃ r io', ext2LookupChild workingEnv (smallFs oneEntry) 1 (smallDir (List.replicate 12 5)) 2 (newChild [0x62])
          ⟨[], 0, []⟩ = .ok r io' ∧
        blockRequest (smallFs oneEntry) 0 ∈ io'.requests ∧
        blockRequest (smallFs oneEntry) 0 ∉ ownWalk (smallFs oneEntry) (smallDir (List.replicate 12 5)) 13 := by
  have directory : Directory (smallFs oneEntry) (fun _ => [0]) (smallDir (List.replicate 12 5)).ext2Inode 12 :=
    oneEntry_directory le_rfl (by decide) (by decide +kernel)
  have none : NoEntry (smallFs oneEntry) [0x62] (fun _ => [0]) (smallDir (List.replicate 12 5)).ext2Inode 12 := by
    unfold NoEntry
    decide +kernel
  refine ⟨directory, none, ?_⟩
  have placed : ∀ i < 12, ¬ Misplaced (smallFs oneEntry) (smallDir (List.replicate 12 5)).ext2Inode ⟨0, 0⟩ i := by
    unfold Misplaced
    decide +kernel
  obtain ⟨d, io₂, loop, requests⟩ := ext2LookupFrom_stops workingEnv_reliable (smallFs_mounted oneEntry)
    (smallDir_kept _ (List.replicate 12 5)).opened
    (show (Buffer.mk (workingEnv.fresh 0) 1024).size = (smallFs oneEntry).blockSize from rfl) (Io.granted ⟨[], 0, []⟩)
    directory.near
    (fun i inside => directory.passed (smallFs_mounted _) (by decide) inside (placed i inside) (none i inside))
    fun _ => by decide +kernel
  refine ⟨_, _, ext2LookupChild_eq_ok.mpr ⟨d, _, ext2Lookup_none workingEnv_reliable loop, rfl⟩, ?_, by decide +kernel⟩
  change _ ∈ io₂.requests
  rw [requests]
  refine List.mem_append_right _ ?_
  decide +kernel

end SnapOS.Ext2Io
