/- Which entry ext2_lookup takes for a component of a path, whatever its length. -/
import SnapOS.DirComplete

namespace SnapOS.Ext2Io
open SnapOS.Lib SnapOS.Fs

/-- The entry at `a` of this block ends the loop of a lookup. -/
def MatchedEntry (env : Env) (sb : Superblock) (dir : Inode) (name : List UInt8) (io : Io) (block : Buffer) (a : Nat) :
    Prop :=
  ∃ d io₂, ext2LookupFrom env sb name (12 + sb.blockSize / 4) 0 dir ⟨env.fresh io.allocations, sb.blockSize⟩
    io.granted =
    .ok (d, .ok (some (block, a))) io₂

/-- The component at the start of `rest` is not in the cache, and `ext2_lookup` returns 0 for it. -/
structure LooksUp (rest : List UInt8) (env : Env) (sb : Superblock) (mem : Allocator) (s : Vfs) (parent : Nat)
    (dir : Inode) (io : Io) : Prop where
  misses : s.findChild (Vfs.component rest) (s.live.length + 1) (s.dentry parent).firstChild = .ok 0
  looked : ∃ child t s' io', s.dAlloc mem parent (Vfs.component rest) = .ok (child, t) ∧
    (t.dentry parent).inode = some dir ∧ ext2LookupChild env sb parent dir child t io = .ok (0, s') io'

/-- `d_alloc` has room for the component at the start of `rest`, and the entry that is taken for it has its name. -/
structure ComponentSound (rest : List UInt8) : Prop where
  fits : Vfs.NameFits (Vfs.component rest).str
  named : ∀ (env : Env) (sb : Superblock) (mem : Allocator) (s : Vfs) (parent : Nat) (dir : Inode) (io : Io)
    (block : Buffer) (a : Nat), LooksUp rest env sb mem s parent dir io →
    MatchedEntry env sb dir (Vfs.component rest).str io block a →
    EntryNamed block.bytes (rest.takeWhile Vfs.inComponent) a

inductive Remains (path : List UInt8) : List UInt8 → Prop
  | start : Remains path (Vfs.skipSlashes path)
  | next {rest : List UInt8} (before : Remains path rest) (more : charAt rest 0 ≠ 0) :
      Remains path (Vfs.skipSlashes (rest.dropWhile Vfs.inComponent))

/-- Every component of the path that `vfs_lookup` comes to. -/
def EachComponent (path : List UInt8) (P : List UInt8 → Prop) : Prop :=
  ∀ rest, Remains path rest → charAt rest 0 ≠ 0 → P rest

section Match

variable {env : Env} {sb : Superblock} {dir : Inode} {name rest : List UInt8} {io : Io} {block : Buffer} {a : Nat}

theorem matches_of_search {nameLen : Nat}
    (found : searchDirBlock block block.size name nameLen = .ok (.ok (some a))) :
    Matches block.bytes name nameLen a := by
  have fits : ∀ p, Reaches block name nameLen 0 p → p < block.size → EntryFits block name nameLen p := by
    intro p reaches inside
    by_contra unfit
    rw [searchDirBlock, searchDirBlockFrom_leaves reaches inside unfit (by omega)] at found
    cases found
  have enough : block.size ≤ 0 + block.size := Nat.le_add_left _ _
  obtain ⟨r, result, answers⟩ := searchDirBlockFrom_answers enough fits
  cases result.symm.trans found
  exact (answers.found a rfl).2

theorem MatchedEntry.matches (matched : MatchedEntry env sb dir name io block a) :
    Matches block.bytes name (name.length % 256) a := by
  obtain ⟨d, io₂, loop⟩ := matched
  obtain ⟨size, search⟩ := ((ext2LookupFrom_leads (permits_all sb) name _ 0 dir rfl io.granted).1 _ _ loop).2 block
    a rfl
  rw [← size] at search
  exact matches_of_search search

theorem component_str (short : (rest.takeWhile Vfs.inComponent).length ≤ 255) :
    (Vfs.component rest).str = rest.takeWhile Vfs.inComponent := by
  have small : (rest.takeWhile Vfs.inComponent).length < word32 := lt_of_le_of_lt short (by decide)
  change (rest.takeWhile Vfs.inComponent).take ((rest.takeWhile Vfs.inComponent).length % word32) = _
  rw [Nat.mod_eq_of_lt small, List.take_length]

end Match

/-! A name that is too long -/

section Long

variable (name : List UInt8)

/-- An entry with the first bytes of a name, as many as its length has modulo 256. -/
def shortEntry : Memory := fun i =>
  if i = 0 then 1 else if i = 5 then 4 else if i = 6 then UInt8.ofNat (name.length % 256)
  else if i < 8 then 0 else charAt name (i - 8)

theorem smallFs_bytes (entries : Memory) {x : Nat} (inside : x < 1024) :
    ((smallFs entries).readBlock 10).bytes x = entries x := by
  have start : (0 + 10) % word64 * 512 = 5120 := by decide
  change (if (0 + 10) % word64 * 512 + x < 5120 then _ else if (0 + 10) % word64 * 512 + x < 6144 then
    entries ((0 + 10) % word64 * 512 + x - 5120) else _) = _
  rw [start, if_neg (by omega), if_pos (by omega), Nat.add_sub_cancel_left]

theorem shortEntry_matches :
    Matches ((smallFs (shortEntry name)).readBlock 10).bytes name (name.length % 256) 0 ∧
      entrySize ((smallFs (shortEntry name)).readBlock 10).bytes 0 = 1024 ∧
      entryInode ((smallFs (shortEntry name)).readBlock 10).bytes 0 = 1 := by
  have less : name.length % 256 < 256 := Nat.mod_lt _ (by decide)
  have header {b n : Nat} (before : b + n ≤ 6) : ((smallFs (shortEntry name)).readBlock 10).bytes.load b n =
      Memory.load (fun i => if i = 0 then 1 else if i = 5 then 4 else 0) b n := by
    refine Memory.load_congr fun i _ high => ?_
    rw [smallFs_bytes _ (by omega), shortEntry, if_neg (show i ≠ 6 by omega), if_pos (show i < 8 by omega)]
  have inode : entryInode ((smallFs (shortEntry name)).readBlock 10).bytes 0 = 1 :=
    (header (by decide)).trans (by decide)
  have size : entrySize ((smallFs (shortEntry name)).readBlock 10).bytes 0 = 1024 :=
    (header (by decide)).trans (by decide)
  refine ⟨⟨by rw [inode]; decide, ?_, fun i before => ?_⟩, size, inode⟩
  · rw [entryNameLen, Memory.load_one, smallFs_bytes _ (by decide), shortEntry, if_neg (by decide), if_neg (by decide),
      if_pos rfl]
    exact UInt8.toNat_ofNat_of_lt' less
  · rw [smallFs_bytes _ (by omega), shortEntry, if_neg (by omega), if_neg (by omega), if_neg (by omega),
      if_neg (by omega), Nat.zero_add, Nat.add_sub_cancel_left]

theorem shortEntry_search :
    searchDirBlock ((smallFs (shortEntry name)).readBlock 10) 1024 name (name.length % 256) = .ok (.ok (some 0)) := by
  have less : name.length % 256 < 256 := Nat.mod_lt _ (by decide)
  obtain ⟨matched, size, -⟩ := shortEntry_matches name
  have whole : ((smallFs (shortEntry name)).readBlock 10).size = 1024 := (smallFs_mounted _).readBlock_size 10
  have fits : EntryFits ((smallFs (shortEntry name)).readBlock 10) name (name.length % 256) 0 := by
    refine ⟨by rw [whole]; decide, fun _ _ => by rw [whole]; decide, fun _ _ _ i before _ => ?_⟩
    rw [whole]
    omega
  rw [searchDirBlock]
  rcases searchDirBlockFrom_fits (by rw [whole]; decide) fits 1024 with ⟨zero, -⟩ | ⟨-, -, found⟩ | ⟨-, other, -⟩
  · rw [size] at zero
    exact absurd zero (by decide)
  · rwa [whole] at found
  · exact absurd matched other

theorem smallFs_mode (entries : Memory) : FileOrDirAt (smallFs entries) 12 0 := by
  have mode : ((smallFs entries).readBlock 12).bytes.load 0 2 = Memory.load
    (fun i => if i = 1 then 0x80 else 0) 0 2 := by
    refine Memory.load_congr fun i _ before => ?_
    have start : (0 + 12) % word64 * 512 = 6144 := by decide
    change (if (0 + 12) % word64 * 512 + i < 5120 then _ else if (0 + 12) % word64 * 512 + i < 6144 then _
      else if (0 + 12) % word64 * 512 + i = 6145 then _ else _) = _
    rw [start, if_neg (by omega), if_neg (by omega)]
    simp only [show 6144 + i = 6145 ↔ i = 1 by omega]
  refine Or.inr ?_
  rw [mode]
  decide

theorem smallFs_table (entries : Memory) : tableBlock (smallFs entries) 1 = 6 :=
  (by decide : Memory.load (fun i => if i = 8 then 6 else 0) (32 * ((1 - 1) / 8) + 8) 4 = 6)

theorem smallFs_isFile (entries : Memory) : IsFileOrDir (smallFs entries) 1 := by
  refine ⟨(by decide : (8 : Nat) ≠ 0), (by decide : (1 - 1) / 8 < 1), (by decide : 32 * ((1 - 1) / 8) + 12 ≤ 1024), ?_⟩
  have lba : (tableBlock (smallFs entries) 1 + inodePlace (smallFs entries) 1 / (smallFs entries).blockSize) *
      (smallFs entries).sectorsPerBlock = 12 := by
    rw [smallFs_table]
    exact (by decide : (6 + (1 - 1) % 8 * 128 / 1024) * 2 = 12)
  rw [lba]
  exact smallFs_mode entries

theorem smallFs_reached (entries : Memory) : InodeReached (smallFs entries) 1 := by
  have sector : inodeSector (smallFs entries) 1 = 12 := by
    rw [inodeSector, smallFs_table]
    exact (by decide : (6 + (1 - 1) % 8 / (1024 / 128)) % word32 * 2 % word32 = 12)
  refine ⟨(by decide : (128 : Nat) ≠ 0), (by decide : 128 ≤ 1024),
    (by decide : 128 * ((1 - 1) % 8 % (1024 / 128)) + 128 ≤ 1024),
    ⟨0, (by decide : 0 < (8 * 128 + 1024 - 1) / 1024), ?_⟩, ?_⟩
  · rw [sector, smallFs_table]
    rfl
  · rw [sector]
    exact smallFs_mode entries

def smallTree : Vfs := Vfs.mounted Allocator.above (smallDir [5])

theorem shortEntry_matched (io : Io) : MatchedEntry workingEnv (smallFs (shortEntry name)) (smallDir [5]) name io
    ((smallFs (shortEntry name)).readBlock 10) 0 := by
  have opened : Opened (smallFs (shortEntry name)) (smallDir [5]) := (smallDir_kept _ _).opened
  have few : 0 < 12 + (smallFs (shortEntry name)).blockSize / 4 := Nat.lt_add_right _ (by decide)
  obtain ⟨d, io₂, loop, -⟩ := ext2LookupFrom_finds workingEnv_reliable (smallFs_mounted _) opened
    (show (Buffer.mk (workingEnv.fresh io.allocations) 1024).size = (smallFs (shortEntry name)).blockSize from rfl)
    io.granted few (fun i before => absurd before (Nat.not_lt_zero i)) (show (5 : Nat) ≠ 0 by decide)
    (shortEntry_search name)
  exact ⟨d, io₂, loop⟩

theorem shortEntry_looked (io : Io) : ∃ d inode io',
    ext2Lookup workingEnv (smallFs (shortEntry name)) (smallDir [5]) name io = .ok (d, .ok inode) io' := by
  obtain ⟨d, io₂, loop⟩ := shortEntry_matched name io
  have inside : 0 + 4 ≤ ((smallFs (shortEntry name)).readBlock 10).size := by
    rw [(smallFs_mounted _).readBlock_size]
    exact (by decide : 0 + 4 ≤ 1024)
  have entry : ((smallFs (shortEntry name)).readBlock 10).load 0 4 = .ok 1 := by
    rw [Buffer.load_ok inside]
    exact congrArg Except.ok (shortEntry_matches name).2.2
  obtain ⟨inode, io₃, -, read, -⟩ := (ext2ReadInode_reached_iff workingEnv_reliable (smallFs_mounted (shortEntry name))
    (le_refl 1) (by decide) (smallFs_isFile _) io₂).mpr (smallFs_reached _)
  exact ⟨d, inode, _, (ext2Lookup_some workingEnv_reliable loop entry).mpr ⟨_, io₃, read, rfl, rfl⟩⟩

theorem shortEntry_looksUp {rest : List UInt8} (fits : Vfs.NameFits (Vfs.component rest).str) (io : Io) :
    LooksUp rest workingEnv (smallFs (shortEntry (Vfs.component rest).str)) Allocator.above
      smallTree 1 (smallDir [5]) io := by
  obtain ⟨d, inode, io', looked⟩ := shortEntry_looked (Vfs.component rest).str io
  exact ⟨rfl, _, _, _, io', if_pos fits, rfl, ext2LookupChild_eq_ok.mpr ⟨d, .ok inode, looked, rfl⟩⟩

end Long

/-- Eight bits of the length reach the directory. A component of 256 bytes or more takes a shorter entry. -/
theorem componentSound_iff (rest : List UInt8) :
    ComponentSound rest ↔ (rest.takeWhile Vfs.inComponent).length ≤ 255 := by
  constructor
  · intro sound
    have named := sound.named _ _ _ _ _ _ ⟨[], 0, []⟩ _ _ (shortEntry_looksUp sound.fits _) (shortEntry_matched _ _)
    have short := (shortEntry_matches (Vfs.component rest).str).1.length
    have less : (Vfs.component rest).str.length % 256 < 256 := Nat.mod_lt _ (by decide)
    have length := named.1
    omega
  · intro short
    have str := component_str short
    refine ⟨?_, fun env sb mem s parent dir io block a _ matched => ?_⟩
    · rw [str, Vfs.NameFits, Nat.mod_eq_of_lt (lt_of_le_of_lt (Nat.add_le_add_right short 1) (by decide))]
      exact Nat.lt_succ_self _
    · have found := matched.matches
      rw [str, Nat.mod_eq_of_lt (by omega)] at found
      exact ⟨found.length, found.agrees⟩

theorem lookup_sound_iff (path : List UInt8) :
    EachComponent path ComponentSound ↔
      EachComponent path fun rest => (rest.takeWhile Vfs.inComponent).length ≤ 255 := by
  constructor
  · intro sound rest remains more
    exact (componentSound_iff rest).mp (sound rest remains more)
  · intro short rest remains more
    exact (componentSound_iff rest).mpr (short rest remains more)

/-- For a name of 257 times `a`, the lookup takes the entry `a`. -/
theorem long_component_takes_short_entry :
    LooksUp (List.replicate 257 0x61) workingEnv (smallFs (shortEntry (List.replicate 257 0x61))) Allocator.above
      smallTree
        1 (smallDir [5]) ⟨[], 0, []⟩ ∧
      MatchedEntry workingEnv (smallFs (shortEntry (List.replicate 257 0x61))) (smallDir [5]) (List.replicate 257 0x61)
        ⟨[], 0, []⟩ ((smallFs (shortEntry (List.replicate 257 0x61))).readBlock 10) 0 ∧
      EntryNamed ((smallFs (shortEntry (List.replicate 257 0x61))).readBlock 10).bytes [0x61] 0 ∧
      ¬ EachComponent (List.replicate 257 0x61) ComponentSound := by
  have token : (List.replicate 257 (0x61 : UInt8)).takeWhile Vfs.inComponent = List.replicate 257 0x61 := by
    decide +kernel
  have str : (Vfs.component (List.replicate 257 0x61)).str = List.replicate 257 0x61 := by decide +kernel
  have fits : Vfs.NameFits (Vfs.component (List.replicate 257 0x61)).str := by decide +kernel
  have looksUp := shortEntry_looksUp fits ⟨[], 0, []⟩
  rw [str] at looksUp
  refine ⟨looksUp, shortEntry_matched _ _, by decide +kernel, fun sound => ?_⟩
  have start : Vfs.skipSlashes (List.replicate 257 0x61) = List.replicate 257 0x61 := by decide +kernel
  have remains : Remains (List.replicate 257 0x61) (List.replicate 257 0x61) := start ▸ Remains.start
  have short := (componentSound_iff _).mp (sound _ remains (by decide))
  rw [token, List.length_replicate] at short
  exact absurd short (by decide)

end SnapOS.Ext2Io
