/- ext2_read_file when requests or allocations fail. -/
import SnapOS.FileBytes

namespace SnapOS.Ext2Io
open SnapOS.Lib SnapOS.Fs

/-- Byte `k` of a result belongs to a hole, or a request that succeeded has read it at the address that the
driver has for its block. -/
def Obtained (env : Env) (sb : Superblock) (e : Ext2Inode) (deep : DeepPointers) (offset since : Nat) (buf : Memory)
    (io' : Io) (k : Nat) : Prop :=
  let lba := blockLba sb e ((offset + k) / sb.blockSize % word32)
  (ext2Pointer sb e deep ((offset + k) / sb.blockSize) = 0 ∧ buf k = 0) ∨
    (lba ≠ 0 ∧ Answered env sb since io' lba ∧ buf k = (sb.readBlock lba).bytes ((offset + k) % sb.blockSize))

/-- A call returns an error and leaves the position alone, or it returns bytes that it has obtained. Of its buffers only
the table is left. -/
def ReportsFailures (env : Env) (sb : Superblock) (inode : Inode) (deep : DeepPointers) (buf : Memory)
    (count offset : Nat) (io : Io) : Prop :=
  ∃ r io', ext2ReadFile env sb inode buf count offset io = .ok r io' ∧
    Keeps inode r.inode (io.allocations + 1) io.live io'.live ∧
    ((r.ret < 0 ∧ r.offset = offset) ∨
      (0 ≤ r.ret ∧ ∀ k : Nat, k < r.ret → Obtained env sb inode.ext2Inode deep offset io.requests.length r.buf io' k))

theorem mem_transferLbas (sb : Superblock) (e : Ext2Inode) (startBlock : Nat) {left j : Nat} (i : Nat)
    (before : j < left) :
    blockLba sb e ((startBlock + (i + j)) % word32) ∈ transferLbas sb e startBlock left i := by
  induction left generalizing i j with
  | zero => exact absurd before (Nat.not_lt_zero j)
  | succ left ih =>
      cases j with
      | zero => exact List.mem_cons_self
      | succ j =>
          have later := ih (i + 1) (Nat.lt_of_succ_lt_succ before)
          rw [Nat.add_assoc, Nat.add_comm 1 j] at later
          exact List.mem_cons_of_mem _ later

section Failure

variable {env : Env} {io : Io} {sb : Superblock} {inode : Inode} {deep : DeepPointers} {count offset : Nat}

theorem Mounted.rounds_small (mounted : Mounted sb) {n : Nat} (small : n < word32) (offset : Nat) :
    (offset % sb.blockSize + n + (sb.blockSize - 1)) / sb.blockSize < word32 := by
  have positive := mounted.positive
  have inBlock := Nat.mod_lt offset positive
  refine (Nat.div_lt_iff_lt_mul positive).mpr ?_
  rw [word32] at *
  rcases mounted.size with size | size | size
  all_goals
    rw [size] at *
    omega

theorem block_mem_transfer (mounted : Mounted sb) (e : Ext2Inode) {n k : Nat} (small : n < word32) (before : k < n) :
    blockLba sb e ((offset + k) / sb.blockSize % word32) ∈
      transferLbas sb e (offset / sb.blockSize % word32) (readBlocks sb.blockSize offset n) 0 := by
  have positive := mounted.positive
  have split : offset + k = sb.blockSize * (offset / sb.blockSize) + (offset % sb.blockSize + k) := by
    have := Nat.div_add_mod offset sb.blockSize
    omega
  have round : (offset % sb.blockSize + k) / sb.blockSize < readBlocks sb.blockSize offset n := by
    rw [readBlocks, Nat.mod_eq_of_lt (mounted.rounds_small small offset)]
    refine Nat.lt_of_succ_le ?_
    rw [Nat.succ_eq_add_one, ← Nat.add_div_right _ positive]
    exact Nat.div_le_div_right (by omega)
  have member := mem_transferLbas sb e (offset / sb.blockSize % word32) 0 round
  rw [Nat.zero_add, Nat.mod_add_mod] at member
  rw [split, Nat.mul_add_div positive]
  exact member

theorem readCount_lt (size offset : Nat) (machine : count < word64) : readCount size count offset < word64 := by
  have := Nat.mod_lt (offset + count) (by decide : 0 < word64)
  rw [readCount]
  split <;> omega

theorem exists_other_byte (b : UInt8) : ∃ v : UInt8, v ≠ 0 ∧ v ≠ b := by
  by_cases one : b = 1
  · exact ⟨2, by decide, by rw [one]; decide⟩
  · exact ⟨1, by decide, fun same => one same.symm⟩

theorem Delivered.few {buf : Memory} {r : ReadResult} {io' : Io}
    (delivered : Delivered env sb inode buf count offset r io io') (mounted : Mounted sb)
    (small : readCount inode.size count offset < word32) :
    r.ret = readCount inode.size count offset ∧
      ∀ k < readCount inode.size count offset, r.buf k = takenByte sb inode.ext2Inode (offset + k) := by
  have all := copied_all mounted.positive (mounted.rounds_small small offset)
  rw [Nat.mod_eq_of_lt small] at all
  refine ⟨?_, fun k before => ?_⟩
  · rw [delivered.ret, toSsize, if_pos (by rw [word32] at small; rw [ssizeMax]; omega)]
  · rw [delivered.bytes, callBlocks, all, if_pos before]

/-- Bytes that are all copied have been obtained, unless the driver takes a block for a hole that is none. -/
theorem Delivered.obtained_iff {buf : Memory} {r : ReadResult} {io' : Io}
    (delivered : Delivered env sb inode buf count offset r io io') (mounted : Mounted sb)
    (small : readCount inode.size count offset < word32) {k : Nat} (before : k < readCount inode.size count offset) :
    Obtained env sb inode.ext2Inode deep offset io.requests.length r.buf io' k ↔
      (blockLba sb inode.ext2Inode ((offset + k) / sb.blockSize % word32) = 0 →
        ext2Pointer sb inode.ext2Inode deep ((offset + k) / sb.blockSize) = 0) := by
  have byte := (delivered.few mounted small).2 k before
  constructor
  · rintro (⟨hole, -⟩ | ⟨block, -, -⟩) zero
    · exact hole
    · exact absurd zero block
  · intro holes
    by_cases zero : blockLba sb inode.ext2Inode ((offset + k) / sb.blockSize % word32) = 0
    · refine Or.inl ⟨holes zero, ?_⟩
      rw [byte, takenByte, lbaBytes, if_pos zero]
    · refine Or.inr ⟨zero, delivered.answered _ (block_mem_transfer mounted _ small before) zero, ?_⟩
      rw [byte, takenByte, lbaBytes, if_neg zero]

/-- A count of 32 bits or more is returned for bytes that are never written, or as an error. -/
theorem not_reports_large (machine : count < word64)
    (large : word32 ≤ readCount inode.size count offset)
    (delivers : ∀ buf, ∃ r io', ext2ReadFile env sb inode buf count offset io = .ok r io' ∧
      Delivered env sb inode buf count offset r io io') :
    ¬ ∀ buf, ReportsFailures env sb inode deep buf count offset io := by
  intro reports
  have bounded := readCount_lt inode.size offset machine
  generalize hn : readCount inode.size count offset = n at *
  have last : n % word32 < n := Nat.lt_of_lt_of_le (Nat.mod_lt n (by decide)) large
  obtain ⟨v, notZero, other⟩ := exists_other_byte
    ((sb.readBlock (blockLba sb inode.ext2Inode ((offset + n % word32) / sb.blockSize % word32))).bytes
      ((offset + n % word32) % sb.blockSize))
  obtain ⟨r, io', call, delivered⟩ := delivers fun _ => v
  obtain ⟨r', io₁, call', -, outcome⟩ := reports fun _ => v
  obtain ⟨rfl, -⟩ := EStateM.Result.ok.inj (call.symm.trans call')
  have ret := delivered.ret
  have advanced := delivered.advanced
  have kept := delivered.bytes (n % word32)
  rw [hn] at ret advanced kept
  have stops : copied sb.blockSize offset n (callBlocks sb inode count offset) ≤ n % word32 := Nat.min_le_left _ _
  rw [if_neg (Nat.not_lt.mpr stops)] at kept
  rw [toSsize] at ret
  rcases outcome with ⟨negative, unchanged⟩ | ⟨counted, obtained⟩
  · split at ret
    · omega
    · rw [unchanged] at advanced
      rw [word32] at large
      rw [word64] at *
      omega
  · split at ret
    · rcases obtained (n % word32) (by omega) with ⟨-, zero⟩ | ⟨-, -, read⟩
      · exact notZero (kept.symm.trans zero)
      · exact other (kept.symm.trans read)
    · rw [word64] at *
      omega

/-- Failures are reported if and only if the table can be loaded where it is needed, and a call for which the device
serves every block is for less than 4 GiB and takes no block for a hole that is none. -/
theorem ext2ReadFile_reports_iff (mounted : Mounted sb) (opened : Opened sb inode) (machine : count < word64) :
    (∀ buf, ReportsFailures env sb inode deep buf count offset io) ↔
      (count ≠ 0 → offset < inode.size → env.available io.allocations = true →
        ¬ TableLost env sb inode (offset / sb.blockSize % word32) (callBlocks sb inode count offset) io.requests.length
          (io.allocations + 1) ∧
        (AllServed env sb inode (offset / sb.blockSize % word32) (callBlocks sb inode count offset) io.requests.length
            (io.allocations + 1) →
          readCount inode.size count offset < word32 ∧ ∀ k < readCount inode.size count offset,
            blockLba sb inode.ext2Inode ((offset + k) / sb.blockSize % word32) = 0 →
            ext2Pointer sb inode.ext2Inode deep ((offset + k) / sb.blockSize) = 0)) := by
  by_cases nothing : count = 0 ∨ inode.size ≤ offset
  · refine iff_of_true (fun buf => ⟨_, _, ext2ReadFile_nothing nothing, keeps_same rfl rfl, Or.inr ⟨Int.le_refl 0, ?_⟩⟩)
      fun some inside => absurd nothing (not_or.mpr ⟨some, Nat.not_le.mpr inside⟩)
    intro k before
    change (k : Int) < 0 at before
    omega
  obtain ⟨some, inside⟩ := not_or.mp nothing
  have inside := Nat.not_le.mp inside
  cases memory : env.available io.allocations with
  | false =>
      refine iff_of_true (fun buf => ⟨_, _, ext2ReadFile_refused mounted some inside memory, keeps_same rfl rfl, ?_⟩)
        fun _ _ granted => by cases granted
      exact Or.inl ⟨(by decide : -eNoMem < 0), rfl⟩
  | true =>
      by_cases lost : TableLost env sb inode (offset / sb.blockSize % word32) (callBlocks sb inode count offset)
          io.requests.length (io.allocations + 1)
      · refine iff_of_false (fun reports => ?_) fun found => (found some inside rfl).1 lost
        obtain ⟨io', stops⟩ := ext2ReadFile_lost (fun _ => 0) mounted opened some inside memory lost
        obtain ⟨r, io₁, call, -⟩ := reports fun _ => 0
        rw [call] at stops
        cases stops
      · by_cases all : AllServed env sb inode (offset / sb.blockSize % word32) (callBlocks sb inode count offset)
            io.requests.length (io.allocations + 1)
        · have delivers (buf : Memory) := ext2ReadFile_served buf mounted opened some inside memory all
          constructor
          · intro reports _ _ _
            have small : readCount inode.size count offset < word32 :=
              Nat.not_le.mp fun large => not_reports_large machine large delivers reports
            refine ⟨lost, fun _ => ⟨small, fun k before => ?_⟩⟩
            obtain ⟨r, io', call, delivered⟩ := delivers fun _ => 0
            obtain ⟨r', io₁, call', -, outcome⟩ := reports fun _ => 0
            obtain ⟨rfl, rfl⟩ := EStateM.Result.ok.inj (call.symm.trans call')
            have ret := (delivered.few mounted small).1
            obtain ⟨-, obtained⟩ := outcome.resolve_left fun failed => by omega
            exact (delivered.obtained_iff mounted small before).mp (obtained k (by omega))
          · intro holes buf
            obtain ⟨small, holes⟩ := (holes some inside rfl).2 all
            obtain ⟨r, io', call, delivered⟩ := delivers buf
            have ret := (delivered.few mounted small).1
            refine ⟨r, io', call, delivered.keeps, Or.inr ⟨by omega, fun k before => ?_⟩⟩
            have before : k < readCount inode.size count offset := by omega
            exact (delivered.obtained_iff mounted small before).mpr (holes k before)
        · refine iff_of_true (fun buf => ?_) fun _ _ _ => ⟨lost, fun served => absurd served all⟩
          obtain ⟨r, io', call, negative, unchanged, keeps⟩ :=
            ext2ReadFile_fails buf mounted opened some inside memory lost all
          exact ⟨r, io', call, keeps, Or.inl ⟨negative, unchanged⟩⟩

def stumblingEnv : Env :=
  ⟨fun k => if k = 0 then -5 else 0, fun k => by split <;> decide, fun _ _ => 0, fun _ => true, fun _ _ => 0,
    fun _ => false⟩

theorem ext2ReadFile_reports_iff_retry :
    ReportsFailures stumblingEnv onePageFs (fileOf 3 [1] 0) ⟨0, 0⟩ (fun _ => 9) 5 0 ⟨[], 0, []⟩ := by
  refine (ext2ReadFile_reports_iff onePageFs_mounted (fileOf_opened onePageFs 3 [1] 0) (by decide)).mpr
    (fun _ _ _ => ⟨?_, fun _ => ⟨by decide, fun k before zero => ?_⟩⟩) _
  · rintro ⟨-, d, k, first, -⟩
    exact (by decide : ∀ d < 1, ¬ 12 ≤ (0 / 1024 % word32 + d) % word32) d first.1 first.2.1.1
  · exact absurd zero ((by decide : ∀ k < 3,
      blockLba onePageFs (fileOf 3 [1] 0).ext2Inode ((0 + k) / 1024 % word32) ≠ 0) k before)

/-- The read of the table fails, and the driver follows a null pointer. -/
theorem lost_table_is_followed : ∃ io', ext2ReadFile stumblingEnv onePageFs (fileOf (13 * 1024) [] 1) (fun _ => 0) 1
    (12 * 1024) ⟨[], 0, []⟩ = .error .outOfBounds io' := by
  have first : FirstIndirect onePageFs (12 * 1024 / 1024 % word32) 1 0 :=
    ⟨Nat.one_pos, ⟨by decide, by decide⟩, fun j before => absurd before (Nat.not_lt_zero j)⟩
  refine ext2ReadFile_lost (fun _ => 0) onePageFs_mounted (fileOf_opened onePageFs (13 * 1024) [] 1) (by decide)
    (by decide : 12 * 1024 < 13 * 1024) rfl ?_
  exact ⟨rfl, 0, 0, first, rfl, Or.inr (by decide)⟩

end Failure

end SnapOS.Ext2Io
