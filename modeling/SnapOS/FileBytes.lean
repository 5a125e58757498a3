/- ext2_read_file on a device that answers: its bytes against the blocks that ext2 gives to a file. -/
import Mathlib.Algebra.Ring.Int.Defs
import Mathlib.Algebra.Ring.Nat
import SnapOS.ReadFile

namespace SnapOS.Ext2Io
open SnapOS.Lib SnapOS.Fs

/-! The blocks of a file -/

/-- The two pointers of an inode that the driver makes no use of. -/
structure DeepPointers where
  doubly : Nat
  triply : Nat

/-- Entry `i` of an indirect block. Without the block all of its entries are holes. -/
def tableEntry (sb : Superblock) (block i : Nat) : Nat :=
  if block = 0 then 0 else (sb.readBlock (block * sb.sectorsPerBlock)).bytes.load (4 * i) 4

/-- The block that ext2 gives to block `b` of a file, or 0 for a hole. -/
def ext2Pointer (sb : Superblock) (e : Ext2Inode) (deep : DeepPointers) (b : Nat) : Nat :=
  let n := sb.blockSize / 4
  if b < 12 then e.directPtrs.getD b 0
  else if b < 12 + n then tableEntry sb e.singly (b - 12)
  else if b < 12 + n + n * n then
    let i := b - (12 + n)
    tableEntry sb (tableEntry sb deep.doubly (i / n)) (i % n)
  else if b < 12 + n + n * n + n * n * n then
    let i := b - (12 + n + n * n)
    tableEntry sb (tableEntry sb (tableEntry sb deep.triply (i / (n * n))) (i / n % n)) (i % n)
  else 0

def fileByte (sb : Superblock) (e : Ext2Inode) (deep : DeepPointers) (a : Nat) : UInt8 :=
  if ext2Pointer sb e deep (a / sb.blockSize) = 0 then 0
  else (sb.readBlock (ext2Pointer sb e deep (a / sb.blockSize) * sb.sectorsPerBlock)).bytes (a % sb.blockSize)

def bytesLeft (size count offset : Nat) : Nat := min count (size - offset)

theorem bytesLeft_le (size count offset : Nat) : bytesLeft size count offset ≤ size - offset := Nat.min_le_right _ _

/-- What a read has to do: the bytes of the file, and nothing behind them. -/
structure ReadsFile (sb : Superblock) (inode : Inode) (deep : DeepPointers) (buf : Memory) (count offset : Nat)
    (r : ReadResult) : Prop where
  ret : r.ret = bytesLeft inode.size count offset
  advanced : r.offset = offset + bytesLeft inode.size count offset
  bytes : ∀ k < bytesLeft inode.size count offset, r.buf k = fileByte sb inode.ext2Inode deep (offset + k)
  frame : ∀ k, bytesLeft inode.size count offset ≤ k → r.buf k = buf k

/-- A round of the call is for a block in the table. -/
def TableNeeded (sb : Superblock) (inode : Inode) (count offset : Nat) : Prop :=
  ∃ j < callBlocks sb inode count offset, Indirect sb ((offset / sb.blockSize % word32 + j) % word32)

/-- A block that the driver looks for at another address: it takes block 0 for a table that is not there, and an
address in sectors has 32 bits. -/
def Misplaced (sb : Superblock) (e : Ext2Inode) (deep : DeepPointers) (b : Nat) : Prop :=
  (12 ≤ b ∧ (e.singly = 0 ∨ word32 ≤ e.singly * sb.sectorsPerBlock)) ∨
    word32 ≤ ext2Pointer sb e deep b * sb.sectorsPerBlock

section Device

variable {env : Env} {sb : Superblock} {inode : Inode} {startBlock blocks since a : Nat}

theorem served_of_answers (answers : ∀ k, 0 ≤ env.status k) (k : Nat) (lbas : List Nat) :
    (served env k lbas).isSome = true := by
  induction lbas generalizing k with
  | nil => rfl
  | cons lba rest ih =>
      rw [served, if_pos (answers k)]
      split
      · exact ih k
      · exact ih (k + 1)

theorem tableLost_iff (answers : ∀ k, 0 ≤ env.status k) : TableLost env sb inode startBlock blocks since a ↔
    inode.singly = none ∧ env.available a = false ∧ ∃ j < blocks, Indirect sb ((startBlock + j) % word32) := by
  constructor
  · rintro ⟨missing, d, k, first, -, fails⟩
    exact ⟨missing, fails.resolve_right (Int.not_lt.mpr (answers k)), d, first.1, first.2.1⟩
  · rintro ⟨missing, exhausted, j, before, indirect⟩
    rcases firstIndirect_or_none sb startBlock blocks with none | ⟨d, first⟩
    · exact absurd indirect (none j before)
    · obtain ⟨k, direct⟩ := Option.isSome_iff_exists.mp
        (served_of_answers answers since (transferLbas sb inode.ext2Inode startBlock d 0))
      exact ⟨missing, d, k, first, direct, Or.inl exhausted⟩

theorem allServed_of_answers (answers : ∀ k, 0 ≤ env.status k)
    (found : ¬ TableLost env sb inode startBlock blocks since a) :
    AllServed env sb inode startBlock blocks since a := by
  rcases cached_or_direct inode sb startBlock blocks with cached | ⟨missing, d, first⟩
  · exact Or.inl ⟨cached, served_of_answers answers _ _⟩
  · obtain ⟨k, direct⟩ := Option.isSome_iff_exists.mp
      (served_of_answers answers since (transferLbas sb inode.ext2Inode startBlock d 0))
    have memory : env.available a = true := by
      by_contra exhausted
      exact found ⟨missing, d, k, first, direct, Or.inl (Bool.eq_false_iff.mpr exhausted)⟩
    exact Or.inr ⟨missing, d, k, first, direct, memory, answers k, served_of_answers answers _ _⟩

end Device

section Bytes

variable {sb : Superblock} {e : Ext2Inode} {deep : DeepPointers} {a b : Nat}

theorem Mounted.sectors_pos (mounted : Mounted sb) : 0 < sb.sectorsPerBlock := by
  refine Nat.pos_of_ne_zero fun none => ?_
  have whole := mounted.whole
  rw [none, Nat.zero_mul] at whole
  exact Nat.ne_of_gt mounted.positive whole.symm

theorem blockPointer_exact (near : b < 12 + sb.blockSize / 4)
    (table : ¬ (12 ≤ b ∧ (e.singly = 0 ∨ word32 ≤ e.singly * sb.sectorsPerBlock))) :
    blockPointer sb e b = ext2Pointer sb e deep b := by
  rw [blockPointer, ext2Pointer]
  split
  · rfl
  · next behind =>
      have there : e.singly ≠ 0 := fun none => table ⟨Nat.not_lt.mp behind, Or.inl none⟩
      have fits : e.singly * sb.sectorsPerBlock < word32 :=
        Nat.not_le.mp fun wraps => table ⟨Nat.not_lt.mp behind, Or.inr wraps⟩
      rw [tableEntry, if_neg there, tableLba, Nat.mod_eq_of_lt fits]

theorem blockLba_exact (near : b < 12 + sb.blockSize / 4) (placed : ¬ Misplaced sb e deep b) :
    blockLba sb e b = ext2Pointer sb e deep b * sb.sectorsPerBlock := by
  have fits := Nat.not_le.mp fun wraps => placed (Or.inr wraps)
  rw [blockLba, blockPointer_exact near fun table => placed (Or.inl table), Nat.mod_eq_of_lt fits]

theorem takenByte_exact (mounted : Mounted sb) (small : a / sb.blockSize < word32)
    (near : a / sb.blockSize < 12 + sb.blockSize / 4) (placed : ¬ Misplaced sb e deep (a / sb.blockSize)) :
    takenByte sb e a = fileByte sb e deep a := by
  rw [takenByte, fileByte, Nat.mod_eq_of_lt small, blockLba_exact near placed, lbaBytes]
  by_cases hole : ext2Pointer sb e deep (a / sb.blockSize) = 0
  · rw [if_pos hole, hole, Nat.zero_mul, if_pos rfl]
  · rw [if_neg hole, if_neg (Nat.mul_ne_zero hole (Nat.ne_of_gt mounted.sectors_pos))]

end Bytes

/-! The call -/

theorem readCount_eq {size count offset : Nat} (inside : offset < size) (fits : offset + count < word64) :
    readCount size count offset = bytesLeft size count offset := by
  rw [readCount, bytesLeft, Nat.mod_eq_of_lt fits]
  split <;> omega

theorem copied_file (count : Nat) {blockSize size offset most : Nat} (positive : 0 < blockSize) (inside : offset < size)
    (limit : size ≤ most * blockSize) (small : most < word32) :
    copied blockSize offset (bytesLeft size count offset) (readBlocks blockSize offset (bytesLeft size count offset)) =
      bytesLeft size count offset % word32 := by
  refine copied_all positive (Nat.lt_of_le_of_lt ?_ small)
  have short : bytesLeft size count offset ≤ size - offset := Nat.min_le_right _ _
  have low := Nat.mod_le offset blockSize
  refine Nat.le_of_lt_succ ((Nat.div_lt_iff_lt_mul positive).mpr ?_)
  rw [Nat.succ_mul]
  omega

section Reads

variable {env : Env} {io : Io} {sb : Superblock} {inode : Inode} {deep : DeepPointers} {buf : Memory}
  {count offset : Nat}

theorem bytesLeft_eq_zero {size : Nat} : bytesLeft size count offset = 0 ↔ count = 0 ∨ size ≤ offset := by
  rw [bytesLeft]
  omega

theorem ext2ReadFile_delivers (io : Io) (buf : Memory) (answers : ∀ k, 0 ≤ env.status k) (mounted : Mounted sb)
    (opened : Opened sb inode) (some : count ≠ 0) (inside : offset < inode.size)
    (memory : env.available io.allocations = true)
    (table : TableNeeded sb inode count offset → inode.singly.isSome = true ∨
      env.available (io.allocations + 1) = true) :
    ∃ r io', ext2ReadFile env sb inode buf count offset io = .ok r io' ∧
      Delivered env sb inode buf count offset r io io' := by
  refine ext2ReadFile_served buf mounted opened some inside memory (allServed_of_answers answers ?_)
  rw [tableLost_iff answers]
  rintro ⟨missing, exhausted, needed⟩
  rcases table needed with cached | granted
  · rw [missing] at cached
    cases cached
  · rw [exhausted] at granted
    cases granted

/-- The memory that a call allocates: a block, and the table if it is needed and not there yet. -/
def MemoryFor (env : Env) (io : Io) (sb : Superblock) (inode : Inode) (count offset : Nat) : Prop :=
  env.available io.allocations = true ∧
    (TableNeeded sb inode count offset → inode.singly.isSome = true ∨ env.available (io.allocations + 1) = true)

theorem ext2ReadFile_starved (buf : Memory) (answers : ∀ k, 0 ≤ env.status k) (mounted : Mounted sb)
    (opened : Opened sb inode) (some : count ≠ 0) (inside : offset < inode.size)
    (starved : ¬ MemoryFor env io sb inode count offset) :
    (env.available io.allocations = false ∧
      ext2ReadFile env sb inode buf count offset io = .ok ⟨-eNoMem, buf, offset, inode⟩ io.refused) ∨
    ∃ io', ext2ReadFile env sb inode buf count offset io = .error .outOfBounds io' := by
  cases memory : env.available io.allocations with
  | false => exact Or.inl ⟨rfl, ext2ReadFile_refused mounted some inside memory⟩
  | true =>
      have both : TableNeeded sb inode count offset ∧
          ¬ (inode.singly.isSome = true ∨ env.available (io.allocations + 1) = true) := by
        by_contra enough
        exact starved ⟨memory, fun needed => by_contra fun none => enough ⟨needed, none⟩⟩
      obtain ⟨needed, none⟩ := both
      have missing : inode.singly = Option.none := Option.not_isSome_iff_eq_none.mp fun cached => none (Or.inl cached)
      have exhausted := Bool.eq_false_iff.mpr fun granted => none (Or.inr granted)
      exact Or.inr (ext2ReadFile_lost buf mounted opened some inside memory
        ((tableLost_iff answers).mpr ⟨missing, exhausted, needed⟩))

theorem Mounted.near_small (mounted : Mounted sb) :
    (12 + sb.blockSize / 4) * sb.blockSize < word32 ∧ 12 + sb.blockSize / 4 < word32 := by
  rcases mounted.size with size | size | size
  all_goals
    rw [size]
    decide

theorem Delivered.small {r : ReadResult} {io' : Io} (delivered : Delivered env sb inode buf count offset r io io')
    (mounted : Mounted sb) (inside : offset < inode.size) (short : count ≤ ssizeMax) (small : inode.size < word32) :
    r.ret = bytesLeft inode.size count offset ∧ r.offset = offset + bytesLeft inode.size count offset ∧
      (∀ k < bytesLeft inode.size count offset, r.buf k = takenByte sb inode.ext2Inode (offset + k)) ∧
      ∀ k, bytesLeft inode.size count offset ≤ k → r.buf k = buf k := by
  have positive := mounted.positive
  have fits : offset + count < word64 := by
    rw [ssizeMax] at short
    rw [word32] at small
    rw [word64]
    omega
  have asked : bytesLeft inode.size count offset ≤ count := Nat.min_le_left _ _
  have left := bytesLeft_le inode.size count offset
  have limit : inode.size ≤ (word32 - 1) * sb.blockSize :=
    Nat.le_trans (Nat.le_sub_one_of_lt small) (Nat.le_mul_of_pos_right _ positive)
  have all := copied_file count positive inside limit (by decide)
  rw [Nat.mod_eq_of_lt (by omega : bytesLeft inode.size count offset < word32)] at all
  obtain ⟨ret, advanced, bytes, -, -, -⟩ := delivered
  rw [callBlocks, readCount_eq inside fits] at bytes
  rw [readCount_eq inside fits] at ret advanced
  rw [all] at bytes
  refine ⟨?_, ?_, fun k before => ?_, fun k behind => ?_⟩
  · rw [ret, toSsize, if_pos (Nat.le_trans asked short)]
  · rw [advanced]
    exact Nat.mod_eq_of_lt (Nat.lt_of_le_of_lt (Nat.add_le_add_left asked _) fits)
  · rw [bytes, if_pos before]
  · rw [bytes, if_neg (Nat.not_lt.mpr behind)]

/-- A file of direct and singly indirect blocks is read if and only if there is memory, and whatever the driver finds at
the address of a misplaced block happens to be what the file has there. -/
theorem ext2ReadFile_reads_iff (answers : ∀ k, 0 ≤ env.status k) (mounted : Mounted sb) (opened : Opened sb inode)
    (near : inode.size ≤ (12 + sb.blockSize / 4) * sb.blockSize) (short : count ≤ ssizeMax) :
    (∃ r io', ext2ReadFile env sb inode buf count offset io = .ok r io' ∧
      ReadsFile sb inode deep buf count offset r) ↔
    (bytesLeft inode.size count offset ≠ 0 → MemoryFor env io sb inode count offset) ∧
      ∀ k < bytesLeft inode.size count offset, Misplaced sb inode.ext2Inode deep ((offset + k) / sb.blockSize) →
        takenByte sb inode.ext2Inode (offset + k) = fileByte sb inode.ext2Inode deep (offset + k) := by
  by_cases nothing : count = 0 ∨ inode.size ≤ offset
  · have zero := bytesLeft_eq_zero.mpr nothing
    refine iff_of_true ⟨_, _, ext2ReadFile_nothing nothing, ?_⟩ ⟨fun some => absurd zero some, ?_⟩
    · constructor
      · rw [zero]
        rfl
      · rw [zero]
        rfl
      · intro k before
        rw [zero] at before
        exact absurd before (Nat.not_lt_zero k)
      · exact fun k _ => rfl
    · intro k before
      rw [zero] at before
      exact absurd before (Nat.not_lt_zero k)
  · obtain ⟨some, inside⟩ := not_or.mp nothing
    have inside := Nat.not_le.mp inside
    have small : inode.size < word32 := Nat.lt_of_le_of_lt near mounted.near_small.1
    have left := bytesLeft_le inode.size count offset
    have more : bytesLeft inode.size count offset ≠ 0 := fun zero => nothing (bytesLeft_eq_zero.mp zero)
    constructor
    · rintro ⟨r, io', call, reads⟩
      have enough : MemoryFor env io sb inode count offset := by
        by_contra starved
        rcases ext2ReadFile_starved buf answers mounted opened some inside starved with ⟨-, refused⟩ | ⟨io₁, lost⟩
        · rw [call] at refused
          have ret := reads.ret
          rw [(EStateM.Result.ok.inj refused).1] at ret
          change -eNoMem = _ at ret
          rw [eNoMem] at ret
          omega
        · rw [call] at lost
          cases lost
      obtain ⟨r', io₁, call', delivered⟩ :=
        ext2ReadFile_delivers io buf answers mounted opened some inside enough.1 enough.2
      obtain ⟨rfl, -⟩ := EStateM.Result.ok.inj (call.symm.trans call')
      refine ⟨fun _ => enough, fun k before _ => ?_⟩
      rw [← (delivered.small mounted inside short small).2.2.1 k before]
      exact reads.bytes k before
    · rintro ⟨memory, lucky⟩
      obtain ⟨r, io', call, delivered⟩ :=
        ext2ReadFile_delivers io buf answers mounted opened some inside (memory more).1 (memory more).2
      obtain ⟨ret, advanced, bytes, frame⟩ := delivered.small mounted inside short small
      refine ⟨r, io', call, ret, advanced, fun k before => ?_, frame⟩
      rw [bytes k before]
      have block : (offset + k) / sb.blockSize < 12 + sb.blockSize / 4 := by
        refine (Nat.div_lt_iff_lt_mul mounted.positive).mpr ?_
        omega
      by_cases misplaced : Misplaced sb inode.ext2Inode deep ((offset + k) / sb.blockSize)
      · exact lucky k before misplaced
      · exact takenByte_exact mounted (Nat.lt_trans block mounted.near_small.2) block misplaced

/-! A file system with blocks of 1024 bytes: block 0 begins with the number 1, block 1 with the byte 7 -/

def onePageFs : Superblock :=
  ⟨⟨fun a => if a = 0 then 1 else if a = 1024 then 7 else 0, 0, 512⟩, 1024, 2,
    ⟨⟨0, 0, 0, 0, 0, 0⟩, 0, 0, 0, ⟨fun _ => 0, 0⟩⟩⟩

theorem onePageFs_mounted : Mounted onePageFs := ⟨Or.inl rfl, rfl⟩

theorem success_errno : (-4095 : Int) ≤ 0 := by decide

def workingEnv : Env := ⟨fun _ => 0, fun _ => success_errno, fun _ _ => 0, fun _ => true, fun _ _ => 0, fun _ => false⟩

theorem workingEnv_reliable : workingEnv.Reliable := ⟨fun _ => Int.le_refl 0, fun _ => rfl⟩

def fileOf (size : Nat) (directPtrs : List Nat) (singly : Nat) : Inode :=
  ⟨2, size, sIfreg, .ext2File, ⟨sIfreg, size, directPtrs, singly, 0⟩, none⟩

theorem fileOf_opened (sb : Superblock) (size : Nat) (directPtrs : List Nat) (singly : Nat) :
    Opened sb (fileOf size directPtrs singly) := by
  intro table cached
  cases cached

theorem ext2ReadFile_reads_iff_direct : ∃ r io',
    ext2ReadFile workingEnv onePageFs (fileOf 3 [1] 0) (fun _ => 9) 5 0 ⟨[], 0, []⟩ = .ok r io' ∧
      ReadsFile onePageFs (fileOf 3 [1] 0) ⟨0, 0⟩ (fun _ => 9) 5 0 r :=
  (ext2ReadFile_reads_iff workingEnv_reliable.answers onePageFs_mounted (fileOf_opened _ _ _ _) (by decide)
    (by decide)).mpr
    ⟨fun _ => ⟨rfl, fun _ => Or.inr rfl⟩, fun k before _ =>
      (by decide : ∀ k < 3, takenByte onePageFs (fileOf 3 [1] 0).ext2Inode (0 + k) =
        fileByte onePageFs (fileOf 3 [1] 0).ext2Inode ⟨0, 0⟩ (0 + k)) k before⟩

/-- The file has no indirect block, so that it is a hole from block 12 on. The driver takes block 0 for its table. -/
theorem missing_table_is_read : ∃ r io',
    ext2ReadFile workingEnv onePageFs (fileOf (13 * 1024) [] 0) (fun _ => 0) 1 (12 * 1024) ⟨[], 0, []⟩ = .ok r io' ∧
      r.ret = 1 ∧ r.buf 0 = 7 ∧ fileByte onePageFs (fileOf (13 * 1024) [] 0).ext2Inode ⟨0, 0⟩ (12 * 1024) = 0 := by
  obtain ⟨r, io', call, delivered⟩ := ext2ReadFile_delivers ⟨[], 0, []⟩
    (fun _ => 0) workingEnv_reliable.answers onePageFs_mounted
    (fileOf_opened onePageFs (13 * 1024) [] 0) (by decide : 1 ≠ 0) (by decide : 12 * 1024 < 13 * 1024)
    (workingEnv_reliable.memory 0) fun _ => Or.inr (workingEnv_reliable.memory 1)
  obtain ⟨ret, -, bytes, -⟩ := delivered.small onePageFs_mounted (by decide) (by decide) (by decide)
  have first : takenByte onePageFs (fileOf (13 * 1024) [] 0).ext2Inode (12 * 1024 + 0) = 7 := by decide
  exact ⟨r, io', call, ret.trans (by decide), (bytes 0 (by decide)).trans first, by decide⟩

end Reads

/-! Files with more blocks -/

def ext2Blocks (sb : Superblock) : Nat :=
  let n := sb.blockSize / 4
  12 + n + n * n + n * n * n

/-- Byte `a` of a file is in a block behind the doubly or the triply indirect pointer. -/
def DeepByte (sb : Superblock) (e : Ext2Inode) (deep : DeepPointers) (a : Nat) : Prop :=
  12 + sb.blockSize / 4 ≤ a / sb.blockSize ∧ ext2Pointer sb e deep (a / sb.blockSize) ≠ 0

/-- A call that returns a count has the stored bytes of these blocks, and one that returns none fails unless there is
nothing to read. -/
def DeepBytesRead (env : Env) (sb : Superblock) (inode : Inode) (deep : DeepPointers) (buf : Memory)
    (count offset : Nat)
    (io : Io) : Prop :=
  ∃ r io', ext2ReadFile env sb inode buf count offset io = .ok r io' ∧
    (0 < r.ret → ∀ k : Nat, k < r.ret → DeepByte sb inode.ext2Inode deep (offset + k) →
      r.buf k = fileByte sb inode.ext2Inode deep (offset + k)) ∧
    (r.ret ≤ 0 → r.ret < 0 ∨ count = 0 ∨ inode.size ≤ offset)

section Deep

variable {env : Env} {io : Io} {sb : Superblock} {inode : Inode} {deep : DeepPointers} {buf : Memory}
  {count offset : Nat}

theorem Mounted.blocks_small (mounted : Mounted sb) :
    ext2Blocks sb < word32 ∧ ext2Blocks sb * sb.blockSize ≤ ssizeMax := by
  rw [ext2Blocks]
  rcases mounted.size with size | size | size
  all_goals
    rw [size]
    decide

/-- Behind the singly indirect blocks, the driver takes every block for a hole. -/
theorem takenByte_deep {e : Ext2Inode} {a : Nat} (small : a / sb.blockSize < word32)
    (far : 12 + sb.blockSize / 4 ≤ a / sb.blockSize) : takenByte sb e a = 0 := by
  have beyond : ¬ a / sb.blockSize < 12 := by omega
  rw [takenByte, Nat.mod_eq_of_lt small, blockLba, blockPointer, if_neg beyond, if_neg (Nat.not_lt.mpr far),
    Nat.zero_mul]
  rfl

/-- A count for which the sum of offset and count wraps around is returned as a negative number. -/
theorem toSsize_wrapped (limit : inode.size ≤ ssizeMax) (inside : offset < inode.size) (machine : count < word64)
    (wraps : word64 ≤ offset + count) : toSsize (readCount inode.size count offset) < 0 := by
  have small : (offset + count) % word64 < offset := by
    rw [word64] at *
    omega
  have uncut : readCount inode.size count offset = count := if_neg (by omega)
  rw [ssizeMax] at limit
  rw [word64] at machine wraps
  rw [uncut, toSsize, ssizeMax, word64, if_neg (by omega)]
  omega

theorem Delivered.limited {r : ReadResult} {io' : Io} (delivered : Delivered env sb inode buf count offset r io io')
    (mounted : Mounted sb) (inside : offset < inode.size) (fits : offset + count < word64)
    (limit : inode.size ≤ ext2Blocks sb * sb.blockSize) :
    r.ret = bytesLeft inode.size count offset ∧ ∀ k, r.buf k =
      if k < bytesLeft inode.size count offset % word32 then takenByte sb inode.ext2Inode (offset + k) else buf k := by
  have all := copied_file count mounted.positive inside limit mounted.blocks_small.1
  have left := bytesLeft_le inode.size count offset
  have short : bytesLeft inode.size count offset ≤ ssizeMax := by
    have := mounted.blocks_small.2
    omega
  obtain ⟨ret, -, bytes, -, -, -⟩ := delivered
  rw [readCount_eq inside fits] at ret
  rw [callBlocks, readCount_eq inside fits, all] at bytes
  refine ⟨?_, bytes⟩
  rw [ret, toSsize, if_pos short]

theorem Delivered.deepByte {r : ReadResult} {io' : Io} (delivered : Delivered env sb inode buf count offset r io io')
    (mounted : Mounted sb) (inside : offset < inode.size) (fits : offset + count < word64)
    (limit : inode.size ≤ ext2Blocks sb * sb.blockSize) {k : Nat} (before : k < bytesLeft inode.size count offset)
    (far : DeepByte sb inode.ext2Inode deep (offset + k)) :
    r.buf k = if k < bytesLeft inode.size count offset % word32 then 0 else buf k := by
  have left := bytesLeft_le inode.size count offset
  have block : (offset + k) / sb.blockSize < word32 := by
    refine Nat.lt_trans ((Nat.div_lt_iff_lt_mul mounted.positive).mpr ?_) mounted.blocks_small.1
    omega
  rw [(delivered.limited mounted inside fits limit).2 k, takenByte_deep block far.1]

/-- The stored bytes of these blocks are returned if and only if they are zeros, or, where the copy stops early,
what the buffer had before. -/
theorem ext2ReadFile_deep_iff (answers : ∀ k, 0 ≤ env.status k) (mounted : Mounted sb) (opened : Opened sb inode)
    (limit : inode.size ≤ ext2Blocks sb * sb.blockSize) (machine : count < word64) :
    DeepBytesRead env sb inode deep buf count offset io ↔
      (count ≠ 0 → offset < inode.size → env.available io.allocations = true →
        (TableNeeded sb inode count offset → inode.singly.isSome = true ∨ env.available (io.allocations + 1) = true) ∧
        (offset + count < word64 → ∀ k < bytesLeft inode.size count offset,
          DeepByte sb inode.ext2Inode deep (offset + k) →
          fileByte sb inode.ext2Inode deep (offset + k) =
            if k < bytesLeft inode.size count offset % word32 then 0 else buf k)) := by
  by_cases nothing : count = 0 ∨ inode.size ≤ offset
  · refine iff_of_true ⟨_, _, ext2ReadFile_nothing nothing, fun more => absurd more (Int.lt_irrefl 0), fun _ => ?_⟩
      fun some inside => absurd nothing (not_or.mpr ⟨some, Nat.not_le.mpr inside⟩)
    exact Or.inr nothing
  obtain ⟨some, inside⟩ := not_or.mp nothing
  have inside := Nat.not_le.mp inside
  cases memory : env.available io.allocations with
  | false =>
      refine iff_of_true ⟨_, _, ext2ReadFile_refused mounted some inside memory, fun more => ?_, fun _ => Or.inl ?_⟩
        fun _ _ granted => by cases granted
      · exact absurd more (by decide : ¬ 0 < -eNoMem)
      · exact (by decide : -eNoMem < 0)
  | true =>
      by_cases table : TableNeeded sb inode count offset →
          inode.singly.isSome = true ∨ env.available (io.allocations + 1) = true
      · obtain ⟨r, io', call, delivered⟩ := ext2ReadFile_delivers io buf answers mounted opened some inside memory table
        by_cases fits : offset + count < word64
        · have left := (delivered.limited mounted inside fits limit).1
          constructor
          · rintro ⟨r', io₁, call', stored, -⟩ - - -
            obtain ⟨rfl, -⟩ := EStateM.Result.ok.inj (call.symm.trans call')
            refine ⟨table, fun _ k before far => ?_⟩
            rw [← delivered.deepByte mounted inside fits limit before far]
            exact (stored (by omega) k (by omega) far).symm
          · intro zeros
            refine ⟨r, io', call, fun _ k before far => ?_, fun none => ?_⟩
            · have before : k < bytesLeft inode.size count offset := by omega
              rw [delivered.deepByte mounted inside fits limit before far]
              exact ((zeros some inside rfl).2 fits k before far).symm
            · exact Or.inr (bytesLeft_eq_zero.mp (by omega))
        · have negative : r.ret < 0 := by
            rw [delivered.ret]
            exact toSsize_wrapped (Nat.le_trans limit mounted.blocks_small.2) inside machine (Nat.not_lt.mp fits)
          refine iff_of_true ⟨r, io', call, fun more => absurd more (by omega), fun _ => Or.inl negative⟩ ?_
          exact fun _ _ _ => ⟨table, fun less => absurd less fits⟩
      · refine iff_of_false ?_ fun enough => table (enough some inside rfl).1
        rintro ⟨r, io', call, -⟩
        rcases ext2ReadFile_starved buf answers mounted opened some inside fun enough => table enough.2 with
          ⟨exhausted, -⟩ | ⟨io₁, lost⟩
        · rw [memory] at exhausted
          cases exhausted
        · rw [call] at lost
          cases lost

/-! Block 1 leads to block 2, which leads to block 3, which begins with the byte 7 -/

def chainFs : Superblock :=
  ⟨⟨fun a => if a = 1024 then 2 else if a = 2048 then 3 else if a = 3072 then 7 else 0, 0, 512⟩, 1024, 2,
    ⟨⟨0, 0, 0, 0, 0, 0⟩, 0, 0, 0, ⟨fun _ => 0, 0⟩⟩⟩

theorem chainFs_mounted : Mounted chainFs := ⟨Or.inl rfl, rfl⟩

/-- The second byte behind the doubly indirect pointer is a zero. -/
theorem ext2ReadFile_deep_iff_zero :
    DeepByte chainFs (fileOf (269 * 1024) [] 0).ext2Inode ⟨1, 0⟩ (268 * 1024 + 1) ∧
      DeepBytesRead workingEnv chainFs (fileOf (269 * 1024) [] 0) ⟨1, 0⟩ (fun _ => 9) 1 (268 * 1024 + 1)
        ⟨[], 0, []⟩ := by
  have left : bytesLeft (fileOf (269 * 1024) [] 0).size 1 (268 * 1024 + 1) = 1 := by decide
  refine ⟨⟨by decide, by decide⟩, (ext2ReadFile_deep_iff workingEnv_reliable.answers chainFs_mounted
    (fileOf_opened _ _ _ _) (by decide) (by decide)).mpr fun _ _ _ => ⟨fun _ => Or.inr rfl, fun _ k before _ => ?_⟩⟩
  rw [left] at before
  obtain rfl : k = 0 := by omega
  decide

/-- The first byte behind the doubly indirect pointer is 7, and the driver returns 0. -/
theorem doubly_indirect_is_zero : ∃ r io',
    ext2ReadFile workingEnv chainFs (fileOf (269 * 1024) [] 0) (fun _ => 0) 1 (268 * 1024) ⟨[], 0, []⟩ = .ok r io' ∧
      r.ret = 1 ∧ r.buf 0 = 0 ∧
      fileByte chainFs (fileOf (269 * 1024) [] 0).ext2Inode ⟨1, 0⟩ (268 * 1024) = 7 := by
  obtain ⟨r, io', call, delivered⟩ := ext2ReadFile_delivers ⟨[], 0, []⟩ (fun _ => 0) workingEnv_reliable.answers
    chainFs_mounted (fileOf_opened chainFs (269 * 1024) [] 0) (by decide : 1 ≠ 0) (by decide : 268 * 1024 < 269 * 1024)
    (workingEnv_reliable.memory 0) fun _ => Or.inr (workingEnv_reliable.memory 1)
  obtain ⟨ret, -, bytes, -⟩ := delivered.small chainFs_mounted (by decide) (by decide) (by decide)
  have first : takenByte chainFs (fileOf (269 * 1024) [] 0).ext2Inode (268 * 1024 + 0) = 0 := by decide
  exact ⟨r, io', call, ret.trans (by decide), (bytes 0 (by decide)).trans first, by decide⟩

end Deep

/-! Reads one after the other -/

/-- An open regular file of less than 4 GiB. -/
structure Readable (sb : Superblock) (f : File) : Prop where
  regular : isReg f.inode.mode = true
  referenced : f.refCount ≠ 0
  opened : Opened sb f.inode
  small : f.inode.size < word32

def returned (r : Int × Memory) : List UInt8 := (List.range r.1.toNat).map r.2

def vfsReads (env : Env) (sb : Superblock) : File → List (Nat × Memory) → Steps Io (List (Int × Memory) × File)
  | f, [] => pure ([], f)
  | f, (count, buf) :: pieces => do
      let (ret, buf, f) ← vfsRead env sb f buf count
      let (results, f) ← vfsReads env sb f pieces
      pure ((ret, buf) :: results, f)

section Pieces

variable {env : Env} {sb : Superblock} {f : File}

theorem withTable_readable (readable : Readable sb f) (pos : Nat) {inode : Inode}
    (same : inode = f.inode ∨ inode = withTable sb f.inode) :
    Readable sb { f with pos := pos, inode := inode } ∧ inode.ext2Inode = f.inode.ext2Inode ∧
      inode.size = f.inode.size := by
  rcases same with rfl | rfl
  · exact ⟨⟨readable.regular, readable.referenced, readable.opened, readable.small⟩, rfl, rfl⟩
  · exact ⟨⟨readable.regular, readable.referenced, opened_withTable sb f.inode, readable.small⟩, rfl, rfl⟩

theorem vfsRead_reads (reliable : env.Reliable) (mounted : Mounted sb) (readable : Readable sb f) (buf : Memory)
    {count : Nat} (short : count ≤ ssizeMax) (io : Io) :
    ∃ buf' f' io', vfsRead env sb f buf count io = .ok (bytesLeft f.inode.size count f.pos, buf', f') io' ∧
      (∀ k < bytesLeft f.inode.size count f.pos, buf' k = takenByte sb f.inode.ext2Inode (f.pos + k)) ∧
      f'.pos = f.pos + bytesLeft f.inode.size count f.pos ∧ Readable sb f' ∧
      f'.inode.ext2Inode = f.inode.ext2Inode ∧ f'.inode.size = f.inode.size := by
  have regular : ¬ (!isReg f.inode.mode) = true := by simp [readable.regular]
  have read : vfsRead env sb f buf count = ext2ReadFile env sb f.inode buf count f.pos >>= fun r =>
      pure (r.ret, r.buf, { f with pos := r.offset, inode := r.inode }) := by
    rw [vfsRead, if_neg regular, if_neg readable.referenced, if_neg (Nat.not_lt.mpr short)]
  rw [read]
  by_cases nothing : count = 0 ∨ f.inode.size ≤ f.pos
  · have zero := bytesLeft_eq_zero.mpr nothing
    rw [Steps.bind_ok (ext2ReadFile_nothing nothing), zero]
    exact ⟨buf, f, io, rfl, fun k before => absurd before (Nat.not_lt_zero k), rfl, readable, rfl, rfl⟩
  · obtain ⟨some, inside⟩ := not_or.mp nothing
    have inside := Nat.not_le.mp inside
    obtain ⟨r, io', call, delivered⟩ := ext2ReadFile_delivers io buf reliable.answers mounted readable.opened some
      inside
      (reliable.memory _) fun _ => Or.inr (reliable.memory _)
    obtain ⟨ret, advanced, bytes, -⟩ := delivered.small mounted inside short readable.small
    obtain ⟨readable', same⟩ := withTable_readable readable r.offset delivered.same
    rw [Steps.bind_ok call, ← ret]
    exact ⟨r.buf, _, io', rfl, fun k before => bytes k before, advanced, readable', same⟩

theorem bytesLeft_add (size count more offset : Nat) : bytesLeft size (count + more) offset =
    bytesLeft size count offset + bytesLeft size more (offset + bytesLeft size count offset) := by
  simp only [bytesLeft]
  omega

theorem map_range_congr {buf : Memory} {n : Nat} {g : Nat → UInt8} (same : ∀ k < n, buf k = g k) :
    (List.range n).map buf = (List.range n).map g :=
  List.map_congr_left fun k member => same k (List.mem_range.mp member)

theorem vfsReads_reads (reliable : env.Reliable) (mounted : Mounted sb) (readable : Readable sb f)
    (pieces : List (Nat × Memory)) (short : (pieces.map Prod.fst).sum ≤ ssizeMax) (io : Io) :
    ∃ results f' io', vfsReads env sb f pieces io = .ok (results, f') io' ∧
      results.flatMap returned = (List.range (bytesLeft f.inode.size (pieces.map Prod.fst).sum f.pos)).map
        (fun k => takenByte sb f.inode.ext2Inode (f.pos + k)) ∧
      (results.map Prod.fst).sum = (bytesLeft f.inode.size (pieces.map Prod.fst).sum f.pos : Int) ∧
      f'.pos = f.pos + bytesLeft f.inode.size (pieces.map Prod.fst).sum f.pos := by
  induction pieces generalizing f io with
  | nil =>
      have zero : bytesLeft f.inode.size 0 f.pos = 0 := bytesLeft_eq_zero.mpr (Or.inl rfl)
      refine ⟨[], f, io, rfl, ?_, ?_, ?_⟩
      · rw [List.map_nil, List.sum_nil, zero]
        rfl
      · rw [List.map_nil, List.map_nil, List.sum_nil, List.sum_nil, zero]
        rfl
      · rw [List.map_nil, List.sum_nil, zero]
        rfl
  | cons piece pieces ih =>
      obtain ⟨count, buf⟩ := piece
      rw [List.map_cons, List.sum_cons] at short ⊢
      dsimp only at short ⊢
      obtain ⟨buf', f', io', call, bytes, pos, readable', same, size⟩ :=
        vfsRead_reads reliable mounted readable buf (Nat.le_trans (Nat.le_add_right _ _) short) io
      obtain ⟨results, f'', io'', calls, rest, total, last⟩ := ih readable' (by omega) io'
      rw [same, size, pos] at rest
      rw [size, pos] at total last
      rw [bytesLeft_add]
      refine ⟨(bytesLeft f.inode.size count f.pos, buf') :: results, f'', io'', ?_, ?_, ?_, ?_⟩
      · rw [vfsReads, Steps.bind_ok call]
        dsimp only
        rw [Steps.bind_ok calls]
        rfl
      · have first : returned (bytesLeft f.inode.size count f.pos, buf') =
            (List.range (bytesLeft f.inode.size count f.pos)).map fun k => takenByte sb f.inode.ext2Inode (f.pos + k) :=
          map_range_congr bytes
        rw [List.flatMap_cons, first, rest, List.range_add, List.map_append, List.map_map]
        refine congrArg _ (List.map_congr_left fun k _ => ?_)
        rw [Function.comp_apply, Nat.add_assoc]
      · rw [List.map_cons, List.sum_cons, total]
        exact (Int.natCast_add _ _).symm
      · rw [last, Nat.add_assoc]

/-- Reading a file in pieces is reading it at once. -/
theorem vfsReads_eq_vfsRead (reliable : env.Reliable) (mounted : Mounted sb) (readable : Readable sb f)
    (pieces : List (Nat × Memory)) (short : (pieces.map Prod.fst).sum ≤ ssizeMax) (buf : Memory) (io io₁ : Io) :
    ∃ results f' io' ret buf' f₁ io₁', vfsReads env sb f pieces io = .ok (results, f') io' ∧
      vfsRead env sb f buf (pieces.map Prod.fst).sum io₁ = .ok (ret, buf', f₁) io₁' ∧
      results.flatMap returned = returned (ret, buf') ∧ (results.map Prod.fst).sum = ret ∧ f'.pos = f₁.pos := by
  obtain ⟨results, f', io', calls, all, total, last⟩ := vfsReads_reads reliable mounted readable pieces short io
  obtain ⟨buf', f₁, io₁', call, bytes, pos, -⟩ := vfsRead_reads reliable mounted readable buf short io₁
  refine ⟨results, f', io', _, buf', f₁, io₁', calls, call, ?_, total, last.trans pos.symm⟩
  rw [all]
  exact (map_range_congr bytes).symm

theorem vfsReads_eq_vfsRead_twoPieces : ∃ results f' io' ret buf' f₁ io₁',
    vfsReads workingEnv onePageFs ⟨fileOf 3 [1] 0, 1, 1⟩ [(1, fun _ => 0), (2, fun _ => 0)] ⟨[], 0, []⟩ =
        .ok (results, f') io' ∧
      vfsRead workingEnv onePageFs ⟨fileOf 3 [1] 0, 1, 1⟩ (fun _ => 0) 3 ⟨[], 0, []⟩ = .ok (ret, buf', f₁) io₁' ∧
      results.flatMap returned = returned (ret, buf') ∧ (results.map Prod.fst).sum = ret ∧ f'.pos = f₁.pos :=
  vfsReads_eq_vfsRead workingEnv_reliable onePageFs_mounted
    ⟨rfl, Nat.one_ne_zero, fileOf_opened onePageFs 3 [1] 0, by decide⟩ [(1, fun _ => 0), (2, fun _ => 0)] (by decide)
    (fun _ => 0) ⟨[], 0, []⟩ ⟨[], 0, []⟩

end Pieces

end SnapOS.Ext2Io
