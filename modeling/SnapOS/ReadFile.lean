/- ext2_read_file: the requests it makes one by one, and what it leaves in the buffer. -/
import SnapOS.Ext2Io

namespace SnapOS.Ext2Io
open SnapOS.Lib SnapOS.Fs

section Calls

variable {env : Env} {io : Io}

theorem kmalloc_granted (memory : env.available io.allocations = true) (size : Nat) :
    kmalloc env size io = .ok (some ⟨io.allocations, ⟨env.fresh io.allocations, size⟩⟩) io.granted := by
  rw [kmalloc, Steps.get_bind, if_pos memory, Steps.set_bind]
  rfl

theorem kmalloc_refused (exhausted : env.available io.allocations = false) (size : Nat) :
    kmalloc env size io = .ok none io.refused := by
  rw [kmalloc, Steps.get_bind, if_neg (Bool.eq_false_iff.mp exhausted), Steps.set_bind]
  rfl

theorem ext2AllocBlock_eq (blockSize : Nat) : ext2AllocBlock env blockSize = kmalloc env blockSize := by
  rw [ext2AllocBlock]
  split
  · next page => rw [page]
  · rfl

theorem bdevRead_failed {bdev : BlockDev} {lba count : Nat} {buf : Buffer}
    (failed : env.status io.requests.length < 0) :
    bdevRead env bdev lba count buf io =
      .ok (env.status io.requests.length, ⟨env.leftover io.requests.length, buf.size⟩)
        (io.asked ⟨lba, count, buf.size⟩) := by
  rw [bdevRead, Steps.get_bind, Steps.set_bind]
  dsimp only
  rw [if_pos failed]
  rfl

end Calls

/-- A file system of one of the sizes that `ext2_probe` accepts, on sectors that divide its blocks. -/
structure Mounted (sb : Superblock) : Prop where
  size : sb.blockSize = 1024 ∨ sb.blockSize = 2048 ∨ sb.blockSize = 4096
  whole : sb.sectorsPerBlock * sb.bdev.sectorSize = sb.blockSize

/-- The driver has kept the singly indirect block, if it has read it. -/
def Opened (sb : Superblock) (inode : Inode) : Prop :=
  ∀ table, inode.singly = some table → table = sb.readBlock (tableLba sb inode.ext2Inode)

section Mounted

variable {env : Env} {io : Io} {sb : Superblock} {inode : Inode}

theorem Mounted.readBlock_size (mounted : Mounted sb) (lba : Nat) : (sb.readBlock lba).size = sb.blockSize := by
  change min (sb.sectorsPerBlock * sb.bdev.sectorSize) sb.blockSize = sb.blockSize
  rw [mounted.whole, Nat.min_self]

theorem Mounted.positive (mounted : Mounted sb) : 0 < sb.blockSize := by
  rcases mounted.size with size | size | size
  all_goals
    rw [size]
    decide

/-- A request that succeeds fills the buffer with the block. -/
theorem Mounted.bdevRead (mounted : Mounted sb) {lba : Nat} {buf : Buffer} (size : buf.size = sb.blockSize)
    (succeeds : 0 ≤ env.status io.requests.length) :
    bdevRead env sb.bdev lba sb.sectorsPerBlock buf io =
      .ok (env.status io.requests.length, sb.readBlock lba) (io.asked ⟨lba, sb.sectorsPerBlock, sb.blockSize⟩) := by
  have whole := mounted.readBlock_size lba
  rw [Ext2Io.bdevRead, Steps.get_bind, Steps.set_bind]
  dsimp only
  rw [if_neg (Int.not_lt.mpr succeeds), size]
  have none (i : Nat) : ¬ ((sb.readBlock lba).size ≤ i ∧ i < sb.blockSize) := by omega
  change EStateM.Result.ok (_, Buffer.mk (fun i => if (sb.readBlock lba).size ≤ i ∧ i < sb.blockSize then _ else _)
    _) _ = _
  simp only [none, if_false]
  rw [← whole]
  rfl

end Mounted

/-! What the driver takes for the blocks of a file -/

/-- A block whose address is in the singly indirect block. -/
def Indirect (sb : Superblock) (block : Nat) : Prop := 12 ≤ block ∧ block < 12 + sb.blockSize / 4

def blockPointer (sb : Superblock) (e : Ext2Inode) (block : Nat) : Nat :=
  if block < 12 then e.directPtrs.getD block 0
  else if block < 12 + sb.blockSize / 4 then
    (sb.readBlock (tableLba sb e)).bytes.load (4 * (block - 12)) 4
  else 0

def blockLba (sb : Superblock) (e : Ext2Inode) (block : Nat) : Nat :=
  blockPointer sb e block * sb.sectorsPerBlock % word32

/-- The bytes for an address, where zero stands for a hole. -/
def lbaBytes (sb : Superblock) (lba : Nat) : Memory := if lba = 0 then fun _ => 0 else (sb.readBlock lba).bytes

structure Fill where
  buf : Memory
  pos : Nat
  remaining : Nat

/-- Block `i` of a transfer is copied. -/
def Fill.step (sb : Superblock) (e : Ext2Inode) (offset startBlock i : Nat) (f : Fill) : Fill :=
  let block := (startBlock + i) % word32
  let firstOffset := if block = startBlock then offset % sb.blockSize else 0
  let tocopy := u32Min f.remaining (sb.blockSize - firstOffset)
  ⟨f.buf.overwrite f.pos tocopy fun j => lbaBytes sb (blockLba sb e block) (firstOffset + j),
    f.pos + tocopy, f.remaining - tocopy⟩

def Fill.run (sb : Superblock) (e : Ext2Inode) (offset startBlock : Nat) : Nat → Nat → Fill → Fill
  | 0, _, f => f
  | left + 1, i, f => Fill.run sb e offset startBlock left (i + 1) (f.step sb e offset startBlock i)

def Transfer.fill (t : Transfer) : Fill := ⟨t.buf, t.pos, t.remaining⟩

def served (env : Env) : Nat → List Nat → Option Nat
  | k, [] => some k
  | k, lba :: rest =>
      if lba = 0 then served env k rest
      else if 0 ≤ env.status k then served env (k + 1) rest
      else if 0 ≤ env.status (k + 1) then served env (k + 2) rest
      else none

section Block

variable {env : Env} {io : Io} {sb : Superblock} {inode : Inode}

def withTable (sb : Superblock) (inode : Inode) : Inode :=
  { inode with singly := some (sb.readBlock (tableLba sb inode.ext2Inode)) }

theorem opened_withTable (sb : Superblock) (inode : Inode) : Opened sb (withTable sb inode) := by
  rintro table ⟨⟩
  rfl

theorem ext2InitSingly_cached (cached : inode.singly.isSome = true) :
    ext2InitSingly env sb inode io = .ok (0, inode) io := by
  rw [ext2InitSingly, if_pos cached]
  rfl

theorem ext2InitSingly_loads (mounted : Mounted sb) (missing : inode.singly = none)
    (memory : env.available io.allocations = true) (answers : 0 ≤ env.status io.requests.length) :
    ext2InitSingly env sb inode io = .ok (0, withTable sb inode)
      (io.granted.asked ⟨tableLba sb inode.ext2Inode, sb.sectorsPerBlock, sb.blockSize⟩) := by
  have read : bdevRead env sb.bdev (tableLba sb inode.ext2Inode) sb.sectorsPerBlock
      ⟨env.fresh io.allocations, sb.blockSize⟩ io.granted = _ := mounted.bdevRead rfl answers
  rw [ext2InitSingly, if_neg (by simp [missing]), ext2AllocBlock_eq, Steps.bind_ok (kmalloc_granted memory _)]
  dsimp only
  rw [Steps.bind_ok read]
  dsimp only
  rw [Io.granted_requests, if_neg (Int.not_lt.mpr answers)]
  rfl

theorem ext2InitSingly_fails (sb : Superblock) (missing : inode.singly = none)
    (fails : env.available io.allocations = false ∨ env.status io.requests.length < 0) :
    ∃ res io', ext2InitSingly env sb inode io = .ok (res, inode) io' ∧ res < 0 := by
  rw [ext2InitSingly, if_neg (by simp [missing]), ext2AllocBlock_eq]
  cases memory : env.available io.allocations with
  | false =>
      rw [Steps.bind_ok (kmalloc_refused memory _)]
      exact ⟨-eNoMem, io.refused, rfl, by decide⟩
  | true =>
      have failed : env.status io.granted.requests.length < 0 := fails.resolve_left (by simp [memory])
      rw [Steps.bind_ok (kmalloc_granted memory _)]
      dsimp only
      rw [Steps.bind_ok (bdevRead_failed failed)]
      dsimp only
      rw [if_pos failed]
      exact ⟨_, _, rfl, failed⟩

theorem singlyEntry_ok {table : Buffer} {index : Nat} (kept : inode.singly = some table)
    (inside : 4 * index + 4 ≤ table.size) :
    singlyEntry inode index io = .ok (table.bytes.load (4 * index) 4) io := by
  unfold singlyEntry
  rw [kept]
  dsimp only
  rw [Buffer.load_ok inside]
  rfl

theorem fileBlockLba_indirect {block : Nat} (indirect : Indirect sb block) :
    fileBlockLba env sb inode block = ext2InitSingly env sb inode >>= fun r =>
      singlyEntry r.2 (block - 12) >>= fun entry => pure (r.2, entry * sb.sectorsPerBlock % word32) := by
  rw [fileBlockLba, if_neg (Nat.not_lt.mpr indirect.1), if_pos indirect.2]

theorem fileBlockLba_cached (mounted : Mounted sb) (opened : Opened sb inode) {block : Nat}
    (cached : Indirect sb block → inode.singly.isSome = true) :
    fileBlockLba env sb inode block io = .ok (inode, blockLba sb inode.ext2Inode block) io := by
  by_cases indirect : Indirect sb block
  · obtain ⟨table, kept⟩ := Option.isSome_iff_exists.mp (cached indirect)
    have same := opened table kept
    have whole := mounted.readBlock_size (tableLba sb inode.ext2Inode)
    have inside : 4 * (block - 12) + 4 ≤ table.size := by
      have := indirect.1
      have := indirect.2
      rw [same]
      change _ ≤ (sb.readBlock (tableLba sb inode.ext2Inode)).size
      omega
    rw [fileBlockLba_indirect indirect, Steps.bind_ok (ext2InitSingly_cached (cached indirect)),
      Steps.bind_ok (singlyEntry_ok kept inside), blockLba, blockPointer, if_neg (Nat.not_lt.mpr indirect.1),
      if_pos indirect.2, ← same]
    rfl
  · rw [fileBlockLba, blockLba, blockPointer]
    split
    · rfl
    · next behind =>
        have beyond : ¬ block < 12 + sb.blockSize / 4 := fun before => indirect ⟨Nat.not_lt.mp behind, before⟩
        rw [if_neg beyond, if_neg beyond, Nat.zero_mul]
        rfl

theorem fileBlockLba_loads (mounted : Mounted sb) {block : Nat} (indirect : Indirect sb block)
    (missing : inode.singly = none) (memory : env.available io.allocations = true)
    (answers : 0 ≤ env.status io.requests.length) :
    fileBlockLba env sb inode block io = fileBlockLba env sb (withTable sb inode) block
      (io.granted.asked ⟨tableLba sb inode.ext2Inode, sb.sectorsPerBlock, sb.blockSize⟩) := by
  rw [fileBlockLba_indirect indirect, fileBlockLba_indirect indirect,
    Steps.bind_ok (ext2InitSingly_loads mounted missing memory answers),
    Steps.bind_ok (ext2InitSingly_cached (by rfl))]

theorem fileBlockLba_lost {block : Nat} (indirect : Indirect sb block) (missing : inode.singly = none)
    (fails : env.available io.allocations = false ∨ env.status io.requests.length < 0) :
    ∃ io', fileBlockLba env sb inode block io = .error .outOfBounds io' := by
  obtain ⟨res, io', failed, _⟩ := ext2InitSingly_fails sb missing fails
  refine ⟨io', ?_⟩
  rw [fileBlockLba_indirect indirect, Steps.bind_ok failed]
  refine Steps.bind_error ?_
  unfold singlyEntry
  rw [missing]
  rfl

/-- A block is fetched at the first or the second attempt, or both fail and the second status is returned. -/
theorem fetchBlock_ends (env : Env) (io : Io) (mounted : Mounted sb) {lba : Nat} {buf : Buffer}
    (size : buf.size = sb.blockSize)
    (block : lba ≠ 0) :
    let k := io.requests.length
    let request : Request := ⟨lba, sb.sectorsPerBlock, sb.blockSize⟩
    (0 ≤ env.status k ∧ fetchBlock env sb lba buf io = .ok (env.status k, sb.readBlock lba) (io.asked request)) ∨
      (env.status k < 0 ∧ 0 ≤ env.status (k + 1) ∧ fetchBlock env sb lba buf io =
        .ok (env.status (k + 1), sb.readBlock lba) ((io.asked request).asked request)) ∨
      (env.status k < 0 ∧ env.status (k + 1) < 0 ∧ ∃ data,
        fetchBlock env sb lba buf io = .ok (env.status (k + 1), data) ((io.asked request).asked request)) := by
  intro k request
  have next : (io.asked request).requests.length = k + 1 := List.length_append
  rw [fetchBlock, if_neg block]
  by_cases first : 0 ≤ env.status k
  · refine Or.inl ⟨first, ?_⟩
    rw [Steps.bind_ok (mounted.bdevRead size first)]
    dsimp only
    rw [if_neg (Int.not_lt.mpr first)]
    rfl
  · have failed := Int.not_le.mp first
    have once : bdevRead env sb.bdev lba sb.sectorsPerBlock buf io = _ := bdevRead_failed failed
    rw [size] at once
    rw [Steps.bind_ok once]
    dsimp only
    rw [if_pos failed]
    by_cases second : 0 ≤ env.status (k + 1)
    · refine Or.inr (Or.inl ⟨failed, second, ?_⟩)
      rw [← next] at second ⊢
      exact mounted.bdevRead rfl second
    · have failed' := Int.not_le.mp second
      refine Or.inr (Or.inr ⟨failed, failed', ⟨env.leftover (k + 1), sb.blockSize⟩, ?_⟩)
      rw [← next] at failed' ⊢
      exact bdevRead_failed failed'

theorem u32Min_le (a b : Nat) : u32Min a b ≤ b := Nat.le_trans (Nat.min_le_right _ _) (Nat.mod_le _ _)

/-- A round copies out of the buffer with the block, and never from behind its end. -/
theorem copyBlock_ok (io : Io) (mounted : Mounted sb) (offset : Nat) {startBlock i : Nat} {t : Transfer}
    (size : t.block.size = sb.blockSize)
    (filled : blockLba sb t.inode.ext2Inode ((startBlock + i) % word32) ≠ 0 →
      t.block = sb.readBlock (blockLba sb t.inode.ext2Inode ((startBlock + i) % word32))) :
    ∃ t', copyBlock sb offset startBlock ((startBlock + i) % word32)
        (blockLba sb t.inode.ext2Inode ((startBlock + i) % word32)) t io = .ok t' io ∧
      t'.inode = t.inode ∧ t'.block = t.block ∧
      t'.fill = t.fill.step sb t.inode.ext2Inode offset startBlock i := by
  have positive := mounted.positive
  generalize hblock : (startBlock + i) % word32 = block at *
  generalize hlba : blockLba sb t.inode.ext2Inode block = lba at *
  have offsetOk : firstOffset sb offset startBlock block io =
      .ok (if block = startBlock then offset % sb.blockSize else 0) io := by
    rw [firstOffset]
    split
    · rw [remainder, if_neg (Nat.ne_of_gt positive)]
      rfl
    · rfl
  generalize hfirst : (if block = startBlock then offset % sb.blockSize else 0) = first at offsetOk
  have inBlock : first ≤ sb.blockSize := by
    rw [← hfirst]
    split
    · exact Nat.le_of_lt (Nat.mod_lt _ positive)
    · exact Nat.zero_le _
  have source : copySource t.block lba first (u32Min t.remaining (sb.blockSize - first)) io =
      .ok (fun j => lbaBytes sb lba (first + j)) io := by
    have short := u32Min_le t.remaining (sb.blockSize - first)
    rw [copySource, lbaBytes]
    split
    · rfl
    · next hole =>
        rw [copyFrom, if_pos (by omega), filled hole]
        rfl
  refine ⟨{ t with
      buf := t.buf.overwrite t.pos (u32Min t.remaining (sb.blockSize - first)) fun j => lbaBytes sb lba (first + j)
      pos := t.pos + u32Min t.remaining (sb.blockSize - first)
      remaining := t.remaining - u32Min t.remaining (sb.blockSize - first) }, ?_, rfl, rfl, ?_⟩
  · rw [copyBlock, Steps.bind_ok offsetOk, Steps.bind_ok source]
    rfl
  · simp only [Transfer.fill, Fill.step, hblock, hlba, hfirst]

end Block

/-! The loop -/

def transferLbas (sb : Superblock) (e : Ext2Inode) (startBlock : Nat) : Nat → Nat → List Nat
  | 0, _ => []
  | left + 1, i => blockLba sb e ((startBlock + i) % word32) :: transferLbas sb e startBlock left (i + 1)

/-- A request behind the first `since` ones has read the block at this address. -/
def Answered (env : Env) (sb : Superblock) (since : Nat) (io : Io) (lba : Nat) : Prop :=
  ∃ k, since ≤ k ∧ io.requests[k]? = some ⟨lba, sb.sectorsPerBlock, sb.blockSize⟩ ∧ 0 ≤ env.status k

theorem Answered.mono {env : Env} {sb : Superblock} {since since' : Nat} {io io' : Io} {lba : Nat}
    (answered : Answered env sb since io lba) (later : since' ≤ since) (more : io.requests <+: io'.requests) :
    Answered env sb since' io' lba := by
  obtain ⟨k, behind, request, status⟩ := answered
  obtain ⟨rest, same⟩ := more
  refine ⟨k, Nat.le_trans later behind, ?_, status⟩
  rw [← same, List.getElem?_append_left (List.getElem?_eq_some_iff.mp request).1]
  exact request

structure Transferred (env : Env) (sb : Superblock) (offset startBlock left i : Nat) (t t' : Transfer) (io io' : Io) :
    Prop where
  inode : t'.inode = t.inode
  size : t'.block.size = sb.blockSize
  fill : t'.fill = Fill.run sb t.inode.ext2Inode offset startBlock left i t.fill
  allocations : io'.allocations = io.allocations
  live : io'.live = io.live
  more : io.requests <+: io'.requests
  answered : ∀ lba ∈ transferLbas sb t.inode.ext2Inode startBlock left i, lba ≠ 0 →
    Answered env sb io.requests.length io' lba

section Loop

variable {env : Env} {io : Io} {sb : Superblock} {offset startBlock i left : Nat} {t : Transfer}

/-- A round whose block has been fetched leads to the next one. -/
theorem readFileLoop_round (offset left : Nat) (mounted : Mounted sb) (opened : Opened sb t.inode)
    (cached : Indirect sb ((startBlock + i) % word32) → t.inode.singly.isSome = true) {status : Int} {data : Buffer}
    {io' : Io} (fetched : fetchBlock env sb (blockLba sb t.inode.ext2Inode ((startBlock + i) % word32)) t.block io =
      .ok (status, data) io') (succeeds : 0 ≤ status) (size : data.size = sb.blockSize)
    (filled : blockLba sb t.inode.ext2Inode ((startBlock + i) % word32) ≠ 0 →
      data = sb.readBlock (blockLba sb t.inode.ext2Inode ((startBlock + i) % word32))) :
    ∃ t', readFileLoop env sb offset startBlock (left + 1) i t io =
        readFileLoop env sb offset startBlock left (i + 1) t' io' ∧
      t'.inode = t.inode ∧ t'.block.size = sb.blockSize ∧
      t'.fill = t.fill.step sb t.inode.ext2Inode offset startBlock i := by
  obtain ⟨t', copied, inode, block, fill⟩ :=
    copyBlock_ok io' (t := { t with block := data }) mounted offset size filled
  refine ⟨t', ?_, inode, block ▸ size, fill⟩
  rw [readFileLoop, Steps.bind_ok (fileBlockLba_cached mounted opened cached)]
  dsimp only
  rw [Steps.bind_ok fetched]
  dsimp only
  rw [if_neg (Int.not_lt.mpr succeeds), Steps.bind_ok copied]

theorem readFileLoop_stops (offset left : Nat) (mounted : Mounted sb) (opened : Opened sb t.inode)
    (cached : Indirect sb ((startBlock + i) % word32) → t.inode.singly.isSome = true) {status : Int} {data : Buffer}
    {io' : Io} (fetched : fetchBlock env sb (blockLba sb t.inode.ext2Inode ((startBlock + i) % word32)) t.block io =
      .ok (status, data) io') (failed : status < 0) :
    readFileLoop env sb offset startBlock (left + 1) i t io = .ok (status, { t with block := data }) io' := by
  rw [readFileLoop, Steps.bind_ok (fileBlockLba_cached mounted opened cached)]
  dsimp only
  rw [Steps.bind_ok fetched]
  dsimp only
  rw [if_pos failed]
  rfl

theorem transferred_next {t₁ t' : Transfer} {io₁ io' : Io} (inode : t₁.inode = t.inode)
    (fill : t₁.fill = t.fill.step sb t.inode.ext2Inode offset startBlock i)
    (allocations : io₁.allocations = io.allocations) (live : io₁.live = io.live) (more : io.requests <+: io₁.requests)
    (answered : blockLba sb t.inode.ext2Inode ((startBlock + i) % word32) ≠ 0 →
      Answered env sb io.requests.length io₁ (blockLba sb t.inode.ext2Inode ((startBlock + i) % word32)))
    (rest : Transferred env sb offset startBlock left (i + 1) t₁ t' io₁ io') :
    Transferred env sb offset startBlock (left + 1) i t t' io io' := by
  refine ⟨rest.inode.trans inode, rest.size, ?_, rest.allocations.trans allocations, rest.live.trans live,
    more.trans rest.more, ?_⟩
  · rw [rest.fill, fill, inode, Fill.run]
  · intro lba member block
    rcases List.mem_cons.mp member with rfl | later
    · exact (answered block).mono le_rfl rest.more
    · rw [← inode] at later
      exact (rest.answered lba later block).mono more.length_le List.prefix_rfl

theorem readFileLoop_part (env : Env) (io : Io) (offset startBlock left i : Nat) (mounted : Mounted sb)
    (opened : Opened sb t.inode) (size : t.block.size = sb.blockSize)
    (cached : ∀ j, i ≤ j → j < i + left → Indirect sb ((startBlock + j) % word32) → t.inode.singly.isSome = true) :
    (∀ k, served env io.requests.length (transferLbas sb t.inode.ext2Inode startBlock left i) = some k →
      ∃ t' io', readFileLoop env sb offset startBlock left i t io = .ok (0, t') io' ∧ io'.requests.length = k ∧
        Transferred env sb offset startBlock left i t t' io io') ∧
    (served env io.requests.length (transferLbas sb t.inode.ext2Inode startBlock left i) = none →
      ∃ status t' io', readFileLoop env sb offset startBlock left i t io = .ok (status, t') io' ∧ status < 0 ∧
        t'.inode = t.inode ∧ io'.live = io.live) := by
  induction left generalizing i t io with
  | zero =>
      refine ⟨fun k same => ?_, fun none => by cases none⟩
      exact ⟨t, io, rfl, Option.some.inj same, rfl, size, rfl, rfl, rfl, List.prefix_rfl, List.forall_mem_nil _⟩
  | succ left ih =>
      have cachedHere := cached i le_rfl (by omega)
      have cachedLater (j : Nat) (low : i + 1 ≤ j) (high : j < i + 1 + left) := cached j (by omega) (by omega)
      rw [transferLbas]
      generalize hlba : blockLba sb t.inode.ext2Inode ((startBlock + i) % word32) = lba
      generalize hrest : transferLbas sb t.inode.ext2Inode startBlock left (i + 1) = rest
      -- the rounds after a block that has been fetched
      have goOn {status : Int} {data : Buffer} {io₁ : Io}
        (fetched : fetchBlock env sb lba t.block io = .ok (status, data) io₁)
          (succeeds : 0 ≤ status) (dataSize : data.size = sb.blockSize) (filled : lba ≠ 0 → data = sb.readBlock lba)
          (allocations : io₁.allocations = io.allocations) (live : io₁.live = io.live)
          (more : io.requests <+: io₁.requests) (answered : lba ≠ 0 → Answered env sb io.requests.length io₁ lba) :
          (∀ k, served env io₁.requests.length rest = some k →
            ∃ t' io', readFileLoop env sb offset startBlock (left + 1) i t io = .ok (0, t') io' ∧
              io'.requests.length = k ∧ Transferred env sb offset startBlock (left + 1) i t t' io io') ∧
          (served env io₁.requests.length rest = none →
            ∃ status t' io', readFileLoop env sb offset startBlock (left + 1) i t io = .ok (status, t') io' ∧
              status < 0 ∧ t'.inode = t.inode ∧ io'.live = io.live) := by
        rw [← hlba] at fetched filled answered
        obtain ⟨t₁, next, inode, size₁, fill⟩ :=
          readFileLoop_round offset left mounted opened cachedHere fetched succeeds dataSize filled
        have later := @ih t₁ io₁ (i + 1) (inode ▸ opened) size₁ (inode ▸ cachedLater)
        rw [inode, hrest] at later
        rw [next]
        refine ⟨fun k all => ?_, fun fails => ?_⟩
        · obtain ⟨t', io', done, count, others⟩ := later.1 k all
          exact ⟨t', io', done, count, transferred_next inode fill allocations live more answered others⟩
        · obtain ⟨status, t', io', ended, negative, kept, live'⟩ := later.2 fails
          exact ⟨status, t', io', ended, negative, kept, live'.trans live⟩
      rw [served]
      by_cases hole : lba = 0
      · rw [if_pos hole]
        refine goOn ?_ (Int.le_refl 0) size (fun block => absurd hole block) rfl rfl List.prefix_rfl
          fun block => absurd hole block
        rw [fetchBlock, if_pos hole]
        rfl
      · rw [if_neg hole]
        have whole := mounted.readBlock_size lba
        rcases fetchBlock_ends env io mounted size hole with
          ⟨first, fetched⟩ | ⟨first, second, fetched⟩ | ⟨first, second, data, fetched⟩
        · rw [if_pos first]
          have more := goOn fetched first whole (fun _ => rfl) rfl rfl (List.prefix_append _ _) fun _ =>
            ⟨_, le_rfl, List.getElem?_concat_length, first⟩
          rwa [Io.asked_requests, List.length_append, List.length_singleton] at more
        · rw [if_neg (Int.not_le.mpr first), if_pos second]
          have answered : Answered env sb io.requests.length
              ((io.asked ⟨lba, sb.sectorsPerBlock, sb.blockSize⟩).asked ⟨lba, sb.sectorsPerBlock, sb.blockSize⟩)
                lba := by
            refine ⟨io.requests.length + 1, Nat.le_succ _, ?_, second⟩
            rw [← List.length_singleton, ← List.length_append]
            exact List.getElem?_concat_length
          have more := goOn fetched second whole (fun _ => rfl) rfl rfl
            ((List.prefix_append _ _).trans (List.prefix_append _ _)) fun _ => answered
          rwa [Io.asked_requests, Io.asked_requests, List.length_append, List.length_append, List.length_singleton]
            at more
        · rw [if_neg (Int.not_le.mpr first), if_neg (Int.not_le.mpr second)]
          refine ⟨fun k all => absurd all.symm (Option.some_ne_none k), fun _ => ?_⟩
          rw [← hlba] at fetched
          exact ⟨_, _, _, readFileLoop_stops offset left mounted opened cachedHere fetched second, second, rfl, rfl⟩

theorem readFileLoop_add (first rest : Nat) : readFileLoop env sb offset startBlock (first + rest) i t =
    readFileLoop env sb offset startBlock first i t >>= fun r =>
      if r.1 < 0 then pure r else readFileLoop env sb offset startBlock rest (i + first) r.2 := by
  induction first generalizing i t with
  | zero =>
      rw [Nat.zero_add, readFileLoop, pure_bind, if_neg (Int.lt_irrefl 0)]
      rfl
  | succ first ih =>
      rw [Nat.succ_add, readFileLoop, readFileLoop, bind_assoc]
      refine congrArg _ (funext fun r => ?_)
      obtain ⟨inode, lba⟩ := r
      dsimp only
      rw [bind_assoc]
      refine congrArg _ (funext fun q => ?_)
      obtain ⟨status, data⟩ := q
      dsimp only
      split
      · next failed => rw [pure_bind, if_pos failed]
      · rw [bind_assoc]
        refine congrArg _ (funext fun t' => ?_)
        rw [ih, Nat.add_assoc, Nat.add_comm 1 first]

end Loop

/-! What is in the buffer -/

/-- The byte that the driver takes for an offset in a file. Block numbers have 32 bits. -/
def takenByte (sb : Superblock) (e : Ext2Inode) (a : Nat) : UInt8 :=
  lbaBytes sb (blockLba sb e (a / sb.blockSize % word32)) (a % sb.blockSize)

/-- How much is copied after `i` blocks. The size of a copy has 32 bits. -/
def copied (blockSize offset count i : Nat) : Nat := min (count % word32) (i * blockSize - offset % blockSize)

section Arithmetic

variable {blockSize offset count i : Nat}

theorem firstBlock_iff (few : i < word32) :
    (offset / blockSize % word32 + i) % word32 = offset / blockSize % word32 ↔ i = 0 := by
  rw [word32] at *
  omega

theorem copied_zero : copied blockSize offset count 0 = 0 := by
  rw [copied, Nat.zero_mul, Nat.zero_sub, Nat.min_zero]

theorem sub_mod_word32 {k : Nat} (le : k ≤ count % word32) : (count - k) % word32 = count % word32 - k := by
  rw [word32] at *
  omega

/-- With the offset of the first block, a round goes on to the end of its block. -/
theorem copied_step (offset count : Nat) (positive : 0 < blockSize) (small : blockSize < word32) {first : Nat}
    (hfirst : first = if i = 0 then offset % blockSize else 0) :
    copied blockSize offset count i + u32Min (count - copied blockSize offset count i) (blockSize - first) =
      copied blockSize offset count (i + 1) := by
  have inBlock := Nat.mod_lt offset positive
  have later : i ≠ 0 → blockSize ≤ i * blockSize := fun more => Nat.le_mul_of_pos_left _ (Nat.pos_of_ne_zero more)
  have part : copied blockSize offset count i ≤ count % word32 := Nat.min_le_left _ _
  rw [u32Min, sub_mod_word32 part, Nat.mod_eq_of_lt (Nat.lt_of_le_of_lt (Nat.sub_le _ _) small)]
  simp only [copied, Nat.succ_mul]
  split at hfirst
  · next start =>
      rw [start, Nat.zero_mul]
      omega
  · next more =>
      have := later more
      omega

theorem copied_block (count : Nat) (positive : 0 < blockSize) {first k : Nat}
    (hfirst : first = if i = 0 then offset % blockSize else 0) (low : copied blockSize offset count i ≤ k)
    (high : k < copied blockSize offset count (i + 1)) :
    (offset + k) / blockSize % word32 = (offset / blockSize % word32 + i) % word32 ∧
      (offset + k) % blockSize = first + (k - copied blockSize offset count i) := by
  have inBlock := Nat.mod_lt offset positive
  have split := Nat.div_add_mod' offset blockSize
  have place : offset + k = (offset / blockSize + i) * blockSize + (first + (k - copied blockSize offset count i)) ∧
      first + (k - copied blockSize offset count i) < blockSize := by
    simp only [copied, Nat.succ_mul, Nat.add_mul] at *
    split at hfirst
    · next start =>
        subst start
        rw [Nat.zero_mul] at *
        omega
    · next more =>
        have later : blockSize ≤ i * blockSize := Nat.le_mul_of_pos_left _ (Nat.pos_of_ne_zero more)
        omega
  constructor
  · rw [place.1, Nat.mul_comm, Nat.mul_add_div positive, Nat.div_eq_of_lt place.2, Nat.add_zero, Nat.mod_add_mod]
  · rw [place.1, Nat.mul_comm, Nat.mul_add_mod, Nat.mod_eq_of_lt place.2]

end Arithmetic

section Fill

variable {sb : Superblock} {e : Ext2Inode} {offset count i : Nat} {buf : Memory}

structure FilledTo (sb : Superblock) (e : Ext2Inode) (offset count : Nat) (buf : Memory) (i : Nat)
    (f : Fill) : Prop where
  pos : f.pos = copied sb.blockSize offset count i
  remaining : f.remaining = count - f.pos
  bytes : ∀ k, f.buf k = if k < f.pos then takenByte sb e (offset + k) else buf k

theorem FilledTo.step (mounted : Mounted sb) (few : i < word32) {f : Fill}
    (filled : FilledTo sb e offset count buf i f) :
    FilledTo sb e offset count buf (i + 1) (f.step sb e offset (offset / sb.blockSize % word32) i) := by
  have positive := mounted.positive
  have small : sb.blockSize < word32 := by
    rcases mounted.size with size | size | size
    all_goals
      rw [size]
      decide
  generalize hfirst : (if i = 0 then offset % sb.blockSize else 0) = first
  have advance := copied_step offset count positive small hfirst.symm
  have stepped : f.step sb e offset (offset / sb.blockSize % word32) i =
      ⟨f.buf.overwrite f.pos (u32Min f.remaining (sb.blockSize - first)) fun j =>
        lbaBytes sb (blockLba sb e ((offset / sb.blockSize % word32 + i) % word32)) (first + j),
        f.pos + u32Min f.remaining (sb.blockSize - first),
          f.remaining - u32Min f.remaining (sb.blockSize - first)⟩ := by
    simp only [Fill.step, firstBlock_iff few, hfirst]
  rw [stepped]
  rw [← filled.pos, ← filled.remaining] at advance
  refine ⟨advance, ?_, fun k => ?_⟩
  · rw [filled.remaining]
    exact Nat.sub_sub _ _ _
  · dsimp only
    by_cases before : k < f.pos
    · rw [Memory.overwrite_outside (Or.inl before), filled.bytes, if_pos before, if_pos (by omega)]
    · by_cases inside : k < f.pos + u32Min f.remaining (sb.blockSize - first)
      · obtain ⟨block, place⟩ := copied_block count positive hfirst.symm
          (filled.pos ▸ Nat.not_lt.mp before) (advance ▸ inside)
        rw [Memory.overwrite_inside (Nat.not_lt.mp before) inside, if_pos inside, takenByte, block, place, filled.pos]
      · rw [Memory.overwrite_outside (Or.inr (Nat.not_lt.mp inside)), filled.bytes, if_neg before, if_neg inside]

theorem FilledTo.run (mounted : Mounted sb) {left : Nat} (few : i + left ≤ word32) {f : Fill}
    (filled : FilledTo sb e offset count buf i f) :
    FilledTo sb e offset count buf (i + left) (Fill.run sb e offset (offset / sb.blockSize % word32) left i f) := by
  induction left generalizing i f with
  | zero => exact filled
  | succ left ih =>
      rw [Fill.run, ← Nat.add_assoc, Nat.add_right_comm]
      exact ih (by omega) (filled.step mounted (by omega))

theorem Fill.run_filled (mounted : Mounted sb) {left : Nat} (few : left ≤ word32) :
    FilledTo sb e offset count buf left
      (Fill.run sb e offset (offset / sb.blockSize % word32) left 0 ⟨buf, 0, count⟩) := by
  have start : FilledTo sb e offset count buf 0 ⟨buf, 0, count⟩ :=
    ⟨copied_zero.symm, rfl, fun k => (if_neg (Nat.not_lt_zero k)).symm⟩
  have fits : 0 + left ≤ word32 := by omega
  have filled := start.run mounted fits
  rwa [Nat.zero_add] at filled

end Fill

/-! The call -/

/-- The count after it has been cut to the size of the file. -/
def readCount (size count offset : Nat) : Nat :=
  if (offset + count) % word64 > size then size - offset else count

def readBlocks (blockSize offset n : Nat) : Nat := (offset % blockSize + n + (blockSize - 1)) / blockSize % word32

/-- The wrap-around of the end of the range does not change the number of blocks. -/
theorem readBlocks_eq {blockSize : Nat} (size : blockSize = 1024 ∨ blockSize = 2048 ∨ blockSize = 4096)
    (offset n : Nat) :
    ((offset + n + blockSize + (word64 - 1)) % word64 / blockSize % word32 +
      (word32 - offset / blockSize % word32)) % word32 = readBlocks blockSize offset n := by
  have positive : 0 < blockSize := by omega
  have blocks : word64 = blockSize * (word64 / blockSize) ∧ word32 ∣ word64 / blockSize := by
    rcases size with rfl | rfl | rfl
    all_goals decide
  have wrapped : (offset + n + blockSize + (word64 - 1)) % word64 = (offset + n + (blockSize - 1)) % word64 := by
    rw [show offset + n + blockSize + (word64 - 1) = offset + n + (blockSize - 1) + word64 by
      rw [word64]
      omega]
    exact Nat.add_mod_right _ _
  have split : offset + n + (blockSize - 1) =
      blockSize * (offset / blockSize) + (offset % blockSize + n + (blockSize - 1)) := by
    have := Nat.div_add_mod offset blockSize
    omega
  have last : (offset + n + (blockSize - 1)) % word64 / blockSize % word32 =
      (offset / blockSize + (offset % blockSize + n + (blockSize - 1)) / blockSize) % word32 := by
    rw [blocks.1, Nat.mod_mul_right_div_self, Nat.mod_mod_of_dvd _ blocks.2, split, Nat.mul_add_div positive]
  rw [wrapped, last, readBlocks]
  generalize (offset % blockSize + n + (blockSize - 1)) / blockSize = more
  generalize offset / blockSize = first
  rw [word32]
  omega

theorem copied_all {blockSize offset n : Nat} (positive : 0 < blockSize)
    (few : (offset % blockSize + n + (blockSize - 1)) / blockSize < word32) :
    copied blockSize offset n (readBlocks blockSize offset n) = n % word32 := by
  have enough : offset % blockSize + n ≤ (offset % blockSize + n + (blockSize - 1)) / blockSize * blockSize := by
    have := Nat.div_add_mod' (offset % blockSize + n + (blockSize - 1)) blockSize
    have := Nat.mod_lt (offset % blockSize + n + (blockSize - 1)) positive
    omega
  have low := Nat.mod_le n word32
  rw [copied, readBlocks, Nat.mod_eq_of_lt few]
  omega

section Call

variable {env : Env} {io : Io} {sb : Superblock} {inode : Inode} {buf : Memory} {count offset : Nat}

def readEnds (offset n : Nat) (status : Int) (t : Transfer) : ReadResult :=
  if status < 0 then ⟨status, t.buf, offset, t.inode⟩
  else ⟨toSsize n, t.buf, (offset + n) % word64, t.inode⟩

theorem ext2ReadFile_nothing (nothing : count = 0 ∨ inode.size ≤ offset) :
    ext2ReadFile env sb inode buf count offset io = .ok ⟨0, buf, offset, inode⟩ io := by
  rw [ext2ReadFile]
  split
  · rfl
  · next some =>
      rw [if_pos (nothing.resolve_left some)]
      rfl

theorem ext2ReadFile_refused (mounted : Mounted sb) (some : count ≠ 0) (inside : offset < inode.size)
    (exhausted : env.available io.allocations = false) :
    ext2ReadFile env sb inode buf count offset io = .ok ⟨-eNoMem, buf, offset, inode⟩ io.refused := by
  have divisor : sb.blockSize ≠ 0 := Nat.ne_of_gt mounted.positive
  rw [ext2ReadFile, if_neg some, if_neg (Nat.not_le.mpr inside), divide, if_neg divisor, divide, if_neg divisor,
    Steps.bind_ok (Steps.pure_apply _ _), Steps.bind_ok (Steps.pure_apply _ _), ext2AllocBlock_eq,
    Steps.bind_ok (kmalloc_refused exhausted _)]
  rfl

theorem ext2ReadFile_loop (mounted : Mounted sb) (some : count ≠ 0) (inside : offset < inode.size)
    (memory : env.available io.allocations = true) :
    ext2ReadFile env sb inode buf count offset io =
      (readFileLoop env sb offset (offset / sb.blockSize % word32)
          (readBlocks sb.blockSize offset (readCount inode.size count offset)) 0
          ⟨inode, ⟨env.fresh io.allocations, sb.blockSize⟩, buf, 0, readCount inode.size count offset⟩ >>= fun r => do
        ext2FreeBlock ⟨io.allocations, ⟨env.fresh io.allocations, sb.blockSize⟩⟩
        pure (readEnds offset (readCount inode.size count offset) r.1 r.2)) io.granted := by
  have divisor : sb.blockSize ≠ 0 := Nat.ne_of_gt mounted.positive
  rw [ext2ReadFile, if_neg some, if_neg (Nat.not_le.mpr inside), divide, if_neg divisor, divide, if_neg divisor,
    Steps.bind_ok (Steps.pure_apply _ _), Steps.bind_ok (Steps.pure_apply _ _), ext2AllocBlock_eq,
    Steps.bind_ok (kmalloc_granted memory _)]
  dsimp only
  rw [readBlocks_eq mounted.size]
  refine congrFun (congrArg (Bind.bind _) (funext fun r => ?_)) _
  obtain ⟨status, t⟩ := r
  refine congrArg (Bind.bind _) (funext fun _ => ?_)
  dsimp only
  rw [readEnds]
  split
  · rfl
  · rfl

end Call

/-! The outcome of a transfer, told from the answers of the device and the allocator -/

/-- Round `d` is the first of `blocks` rounds that needs the table. -/
def FirstIndirect (sb : Superblock) (startBlock blocks d : Nat) : Prop :=
  d < blocks ∧ Indirect sb ((startBlock + d) % word32) ∧ ∀ j < d, ¬ Indirect sb ((startBlock + j) % word32)

/-- The blocks before the first indirect one are read, and then allocation `a` or the next request fails. -/
def TableLost (env : Env) (sb : Superblock) (inode : Inode) (startBlock blocks since a : Nat) : Prop :=
  inode.singly = none ∧ ∃ d k, FirstIndirect sb startBlock blocks d ∧
    served env since (transferLbas sb inode.ext2Inode startBlock d 0) = some k ∧
    (env.available a = false ∨ env.status k < 0)

/-- All blocks are read, and the table before the first indirect one if the driver does not have it. -/
def AllServed (env : Env) (sb : Superblock) (inode : Inode) (startBlock blocks since a : Nat) : Prop :=
  ((inode.singly.isSome = true ∨ ∀ j < blocks, ¬ Indirect sb ((startBlock + j) % word32)) ∧
    (served env since (transferLbas sb inode.ext2Inode startBlock blocks 0)).isSome = true) ∨
  (inode.singly = none ∧ ∃ d k, FirstIndirect sb startBlock blocks d ∧
    served env since (transferLbas sb inode.ext2Inode startBlock d 0) = some k ∧
    env.available a = true ∧ 0 ≤ env.status k ∧
    (served env (k + 1) (transferLbas sb inode.ext2Inode startBlock (blocks - d) d)).isSome = true)

theorem firstIndirect_or_none (sb : Superblock) (startBlock blocks : Nat) :
    (∀ j < blocks, ¬ Indirect sb ((startBlock + j) % word32)) ∨ ∃ d, FirstIndirect sb startBlock blocks d := by
  induction blocks with
  | zero => exact Or.inl fun j before => absurd before (Nat.not_lt_zero j)
  | succ blocks ih =>
      rcases ih with none | ⟨d, before, indirect, first⟩
      · by_cases last : Indirect sb ((startBlock + blocks) % word32)
        · exact Or.inr ⟨blocks, Nat.lt_succ_self _, last, none⟩
        · refine Or.inl fun j before => ?_
          rcases Nat.lt_succ_iff_lt_or_eq.mp before with earlier | rfl
          · exact none j earlier
          · exact last
      · exact Or.inr ⟨d, Nat.lt_succ_of_lt before, indirect, first⟩

section Outcome

variable {env : Env} {io : Io} {sb : Superblock} {offset startBlock blocks : Nat} {t : Transfer}

/-- The buffers that are still there afterwards: the table too, if the driver has loaded it. -/
def Keeps (inode inode' : Inode) (table : Nat) (live live' : List Nat) : Prop :=
  live' = if inode'.singly.isSome = inode.singly.isSome then live else table :: live

structure Complete (env : Env) (sb : Superblock) (offset startBlock blocks : Nat) (t t' : Transfer) (io io' : Io) :
    Prop where
  fill : t'.fill = Fill.run sb t.inode.ext2Inode offset startBlock blocks 0 t.fill
  keeps : Keeps t.inode t'.inode io.allocations io.live io'.live
  answered : ∀ lba ∈ transferLbas sb t.inode.ext2Inode startBlock blocks 0, lba ≠ 0 →
    Answered env sb io.requests.length io' lba
  inode : t'.inode = t.inode ∨ t'.inode = withTable sb t.inode

theorem Fill.run_add (sb : Superblock) (e : Ext2Inode) (offset startBlock first rest i : Nat) (f : Fill) :
    Fill.run sb e offset startBlock (first + rest) i f =
      Fill.run sb e offset startBlock rest (i + first) (Fill.run sb e offset startBlock first i f) := by
  induction first generalizing i f with
  | zero =>
      rw [Nat.zero_add, Fill.run]
      rfl
  | succ first ih => rw [Nat.succ_add, Fill.run, Fill.run, ih, Nat.add_assoc, Nat.add_comm 1 first]

theorem transferLbas_add (sb : Superblock) (e : Ext2Inode) (startBlock first rest i : Nat) :
    transferLbas sb e startBlock (first + rest) i =
      transferLbas sb e startBlock first i ++ transferLbas sb e startBlock rest (i + first) := by
  induction first generalizing i with
  | zero => rw [Nat.zero_add, transferLbas, List.nil_append, Nat.add_zero]
  | succ first ih =>
      rw [Nat.succ_add, transferLbas, transferLbas, ih, List.cons_append, Nat.add_assoc, Nat.add_comm 1 first]

theorem readFileLoop_loads (offset left : Nat) (mounted : Mounted sb) {i : Nat}
    (indirect : Indirect sb ((startBlock + i) % word32))
    (missing : t.inode.singly = none) (memory : env.available io.allocations = true)
    (answers : 0 ≤ env.status io.requests.length) :
    readFileLoop env sb offset startBlock (left + 1) i t io =
      readFileLoop env sb offset startBlock (left + 1) i { t with inode := withTable sb t.inode }
        (io.granted.asked ⟨tableLba sb t.inode.ext2Inode, sb.sectorsPerBlock, sb.blockSize⟩) := by
  rw [readFileLoop, readFileLoop, Steps.bind_apply, fileBlockLba_loads mounted indirect missing memory answers,
    Steps.bind_apply]

theorem readFileLoop_lost {left i : Nat} (indirect : Indirect sb ((startBlock + i) % word32))
    (missing : t.inode.singly = none)
    (fails : env.available io.allocations = false ∨ env.status io.requests.length < 0) :
    ∃ io', readFileLoop env sb offset startBlock (left + 1) i t io = .error .outOfBounds io' := by
  obtain ⟨io', lost⟩ := fileBlockLba_lost indirect missing fails
  refine ⟨io', ?_⟩
  rw [readFileLoop]
  exact Steps.bind_error lost

theorem keeps_same {inode inode' : Inode} {table : Nat} {live live' : List Nat} (same : inode' = inode)
    (freed : live' = live) : Keeps inode inode' table live live' := by
  rw [Keeps, same, if_pos rfl, freed]

theorem keeps_table {inode inode' : Inode} {table : Nat} {live live' : List Nat} (missing : inode.singly = none)
    (loaded : inode' = withTable sb inode) (kept : live' = table :: live) : Keeps inode inode' table live live' := by
  rw [Keeps, loaded, missing, kept]
  exact (if_neg (by simp [withTable])).symm

theorem Keeps.erase {inode inode' : Inode} {block table : Nat} {live live' : List Nat} (other : table ≠ block)
    (keeps : Keeps inode inode' table (block :: live) live') : Keeps inode inode' table live (live'.erase block) := by
  rw [Keeps] at keeps ⊢
  rw [keeps]
  split
  · exact List.erase_cons_head ..
  · rw [List.erase_cons_tail (by simpa using other), List.erase_cons_head]

theorem complete_table {d : Nat} (first : FirstIndirect sb startBlock blocks d) (missing : t.inode.singly = none)
    {t₁ t' : Transfer} {io₁ io' : Io} (transferred : Transferred env sb offset startBlock d 0 t t₁ io io₁)
    (rest : Transferred env sb offset startBlock (blocks - d) d { t₁ with inode := withTable sb t.inode } t'
      (io₁.granted.asked ⟨tableLba sb t.inode.ext2Inode, sb.sectorsPerBlock, sb.blockSize⟩) io') :
    Complete env sb offset startBlock blocks t t' io io' := by
  have all : d + (blocks - d) = blocks := Nat.add_sub_of_le (Nat.le_of_lt first.1)
  have more : io₁.requests <+: io'.requests := (List.prefix_append _ _).trans rest.more
  have live : io'.live = io.allocations :: io.live := by
    rw [rest.live, Io.asked_live, Io.granted_live, transferred.allocations, transferred.live]
  refine ⟨?_, keeps_table missing rest.inode live, ?_, Or.inr rest.inode⟩
  · have fill := rest.fill
    change t'.fill = Fill.run sb t.inode.ext2Inode offset startBlock (blocks - d) d t₁.fill at fill
    rw [fill, transferred.fill, ← all, Fill.run_add, Nat.zero_add, Nat.add_sub_cancel_left]
  · intro lba member block
    rw [← all, transferLbas_add, Nat.zero_add] at member
    rcases List.mem_append.mp member with early | late
    · exact (transferred.answered lba early block).mono le_rfl more
    · have longer := transferred.more.length_le
      refine (rest.answered lba late block).mono ?_ List.prefix_rfl
      rw [Io.asked_requests, Io.granted_requests, List.length_append]
      omega

theorem complete_part {t' : Transfer} {io' : Io}
    (transferred : Transferred env sb offset startBlock blocks 0 t t' io io') :
    Complete env sb offset startBlock blocks t t' io io' :=
  ⟨transferred.fill, keeps_same transferred.inode transferred.live, transferred.answered, Or.inl transferred.inode⟩

theorem cached_or_direct (inode : Inode) (sb : Superblock) (startBlock blocks : Nat) :
    (inode.singly.isSome = true ∨ ∀ j < blocks, ¬ Indirect sb ((startBlock + j) % word32)) ∨
      (inode.singly = none ∧ ∃ d, FirstIndirect sb startBlock blocks d) := by
  rcases firstIndirect_or_none sb startBlock blocks with none | first
  · exact Or.inl (Or.inr none)
  · cases cached : inode.singly with
    | some table => exact Or.inl (Or.inl rfl)
    | none => exact Or.inr ⟨rfl, first⟩

section Transfer

variable (offset) (mounted : Mounted sb) (opened : Opened sb t.inode) (size : t.block.size = sb.blockSize)

include mounted opened size

theorem readFileLoop_direct {d k : Nat} (first : FirstIndirect sb startBlock blocks d)
    (direct : served env io.requests.length (transferLbas sb t.inode.ext2Inode startBlock d 0) = some k) :
    ∃ t₁ io₁, readFileLoop env sb offset startBlock blocks 0 t io =
        readFileLoop env sb offset startBlock (blocks - d) d t₁ io₁ ∧
      io₁.requests.length = k ∧ Transferred env sb offset startBlock d 0 t t₁ io io₁ := by
  obtain ⟨before, indirect, none⟩ := first
  have part := readFileLoop_part env io offset startBlock d 0 mounted opened size
    fun j _ early needs => absurd needs (none j (by omega))
  obtain ⟨t₁, io₁, done, count, transferred⟩ := part.1 k direct
  refine ⟨t₁, io₁, ?_, count, transferred⟩
  have all : d + (blocks - d) = blocks := by omega
  rw [← all, readFileLoop_add, Steps.bind_ok done]
  dsimp only
  rw [if_neg (Int.lt_irrefl 0), Nat.zero_add, Nat.add_sub_cancel_left]

variable (io t) in
theorem readFileLoop_tableLost (lost : TableLost env sb t.inode startBlock blocks io.requests.length io.allocations) :
    ∃ io', readFileLoop env sb offset startBlock blocks 0 t io = .error .outOfBounds io' := by
  obtain ⟨missing, d, k, first, direct, fails⟩ := lost
  obtain ⟨t₁, io₁, goes, count, transferred⟩ := readFileLoop_direct offset mounted opened size first direct
  rw [goes]
  obtain ⟨rest, more⟩ := Nat.exists_eq_succ_of_ne_zero (Nat.sub_ne_zero_of_lt first.1)
  rw [more]
  refine readFileLoop_lost first.2.1 (transferred.inode ▸ missing) ?_
  rw [transferred.allocations, count]
  exact fails

theorem readFileLoop_cached
    (cached : t.inode.singly.isSome = true ∨ ∀ j < blocks, ¬ Indirect sb ((startBlock + j) % word32)) :
    (∀ k, served env io.requests.length (transferLbas sb t.inode.ext2Inode startBlock blocks 0) = some k →
      ∃ t' io', readFileLoop env sb offset startBlock blocks 0 t io = .ok (0, t') io' ∧
        Complete env sb offset startBlock blocks t t' io io') ∧
    (served env io.requests.length (transferLbas sb t.inode.ext2Inode startBlock blocks 0) = none →
      ∃ status t' io', readFileLoop env sb offset startBlock blocks 0 t io = .ok (status, t') io' ∧ status < 0 ∧
        Keeps t.inode t'.inode io.allocations io.live io'.live) := by
  have part := readFileLoop_part env io offset startBlock blocks 0 mounted opened size
    fun j _ before needs => cached.resolve_right fun none => none j (by omega) needs
  refine ⟨fun k all => ?_, fun fails => ?_⟩
  · obtain ⟨t', io', done, -, transferred⟩ := part.1 k all
    exact ⟨t', io', done, complete_part transferred⟩
  · obtain ⟨status, t', io', ended, negative, inode, live⟩ := part.2 fails
    exact ⟨status, t', io', ended, negative, keeps_same inode live⟩

theorem readFileLoop_table (missing : t.inode.singly = none) {d k : Nat}
    (first : FirstIndirect sb startBlock blocks d)
    (direct : served env io.requests.length (transferLbas sb t.inode.ext2Inode startBlock d 0) = some k)
    (memory : env.available io.allocations = true) (answers : 0 ≤ env.status k) :
    (∀ k', served env (k + 1) (transferLbas sb t.inode.ext2Inode startBlock (blocks - d) d) = some k' →
      ∃ t' io', readFileLoop env sb offset startBlock blocks 0 t io = .ok (0, t') io' ∧
        Complete env sb offset startBlock blocks t t' io io') ∧
    (served env (k + 1) (transferLbas sb t.inode.ext2Inode startBlock (blocks - d) d) = none →
      ∃ status t' io', readFileLoop env sb offset startBlock blocks 0 t io = .ok (status, t') io' ∧ status < 0 ∧
        Keeps t.inode t'.inode io.allocations io.live io'.live) := by
  obtain ⟨t₁, io₁, goes, count, transferred⟩ := readFileLoop_direct offset mounted opened size first direct
  obtain ⟨left, more⟩ := Nat.exists_eq_add_one_of_ne_zero (Nat.sub_ne_zero_of_lt first.1)
  have loads := readFileLoop_loads offset left mounted first.2.1 (transferred.inode ▸ missing)
    (transferred.allocations ▸ memory) (count ▸ answers)
  rw [← more, transferred.inode] at loads
  have part := readFileLoop_part env
    (io₁.granted.asked ⟨tableLba sb t.inode.ext2Inode, sb.sectorsPerBlock, sb.blockSize⟩) offset
      startBlock (blocks - d) d
    (t := { t₁ with inode := withTable sb t.inode }) mounted (opened_withTable sb t.inode) transferred.size
    fun _ _ _ _ => rfl
  rw [Io.asked_requests, Io.granted_requests, List.length_append, count] at part
  rw [goes, loads]
  refine ⟨fun k' all => ?_, fun fails => ?_⟩
  · obtain ⟨t', io', done, -, rest⟩ := part.1 k' all
    exact ⟨t', io', done, complete_table first missing transferred rest⟩
  · obtain ⟨status, t', io', ended, negative, inode, live⟩ := part.2 fails
    refine ⟨status, t', io', ended, negative, keeps_table missing inode ?_⟩
    rw [live, Io.asked_live, Io.granted_live, transferred.allocations, transferred.live]

variable (io t) in
theorem readFileLoop_allServed (all : AllServed env sb t.inode startBlock blocks io.requests.length io.allocations) :
    ∃ t' io', readFileLoop env sb offset startBlock blocks 0 t io = .ok (0, t') io' ∧
      Complete env sb offset startBlock blocks t t' io io' := by
  rcases all with ⟨cached, all⟩ | ⟨missing, d, k, first, direct, memory, answers, all⟩
  · obtain ⟨k, all⟩ := Option.isSome_iff_exists.mp all
    exact (readFileLoop_cached offset mounted opened size cached).1 k all
  · obtain ⟨k', all⟩ := Option.isSome_iff_exists.mp all
    exact (readFileLoop_table offset mounted opened size missing first direct memory answers).1 k' all

variable (io t) in
theorem readFileLoop_fails (found : ¬ TableLost env sb t.inode startBlock blocks io.requests.length io.allocations)
    (fails : ¬ AllServed env sb t.inode startBlock blocks io.requests.length io.allocations) :
    ∃ status t' io', readFileLoop env sb offset startBlock blocks 0 t io = .ok (status, t') io' ∧ status < 0 ∧
      Keeps t.inode t'.inode io.allocations io.live io'.live := by
  rcases cached_or_direct t.inode sb startBlock blocks with cached | ⟨missing, d, first⟩
  · refine (readFileLoop_cached offset mounted opened size cached).2 (Option.eq_none_iff_forall_ne_some.mpr ?_)
    intro k all
    exact fails (Or.inl ⟨cached, Option.isSome_iff_exists.mpr ⟨k, all⟩⟩)
  · cases direct : served env io.requests.length (transferLbas sb t.inode.ext2Inode startBlock d 0) with
    | none =>
        have part := readFileLoop_part env io offset startBlock d 0 mounted opened size
          fun j _ early needs => absurd needs (first.2.2 j (by omega))
        obtain ⟨status, t', io', ended, negative, inode, live⟩ := part.2 direct
        refine ⟨status, t', io', ?_, negative, keeps_same inode live⟩
        rw [← Nat.add_sub_of_le (Nat.le_of_lt first.1), readFileLoop_add, Steps.bind_ok ended]
        dsimp only
        rw [if_pos negative]
        rfl
    | some k =>
        have memory : env.available io.allocations = true := by
          by_contra exhausted
          exact found ⟨missing, d, k, first, direct, Or.inl (Bool.eq_false_iff.mpr exhausted)⟩
        have answers : 0 ≤ env.status k := by
          by_contra failed
          exact found ⟨missing, d, k, first, direct, Or.inr (Int.not_le.mp failed)⟩
        refine (readFileLoop_table offset mounted opened size missing first direct memory answers).2
          (Option.eq_none_iff_forall_ne_some.mpr ?_)
        intro k' all
        exact fails (Or.inr ⟨missing, d, k, first, direct, memory, answers, Option.isSome_iff_exists.mpr ⟨k', all⟩⟩)

end Transfer

end Outcome

section CallOutcome

variable {env : Env} {io : Io} {sb : Superblock} {inode : Inode} {buf : Memory} {count offset : Nat}

def callBlocks (sb : Superblock) (inode : Inode) (count offset : Nat) : Nat :=
  readBlocks sb.blockSize offset (readCount inode.size count offset)

def callTransfer (env : Env) (sb : Superblock) (inode : Inode) (buf : Memory) (count offset : Nat) (io : Io) :
    Transfer :=
  ⟨inode, ⟨env.fresh io.allocations, sb.blockSize⟩, buf, 0, readCount inode.size count offset⟩

structure Delivered (env : Env) (sb : Superblock) (inode : Inode) (buf : Memory) (count offset : Nat) (r : ReadResult)
    (io io' : Io) : Prop where
  ret : r.ret = toSsize (readCount inode.size count offset)
  advanced : r.offset = (offset + readCount inode.size count offset) % word64
  bytes : ∀ k, r.buf k =
    if k < copied sb.blockSize offset (readCount inode.size count offset) (callBlocks sb inode count offset) then
      takenByte sb inode.ext2Inode (offset + k)
    else buf k
  keeps : Keeps inode r.inode (io.allocations + 1) io.live io'.live
  answered : ∀ lba ∈ transferLbas sb inode.ext2Inode (offset / sb.blockSize % word32)
    (callBlocks sb inode count offset) 0,
    lba ≠ 0 → Answered env sb io.requests.length io' lba
  same : r.inode = inode ∨ r.inode = withTable sb inode

variable (buf) (mounted : Mounted sb) (opened : Opened sb inode) (some : count ≠ 0) (inside : offset < inode.size)
  (memory : env.available io.allocations = true)

include mounted opened some inside memory

theorem ext2ReadFile_lost (lost : TableLost env sb inode (offset / sb.blockSize % word32)
      (callBlocks sb inode count offset) io.requests.length (io.allocations + 1)) :
    ∃ io', ext2ReadFile env sb inode buf count offset io = .error .outOfBounds io' := by
  obtain ⟨io', stops⟩ := readFileLoop_tableLost io.granted offset (callTransfer env sb inode buf count offset io)
    mounted opened rfl lost
  exact ⟨io', (ext2ReadFile_loop mounted some inside memory).trans (Steps.bind_error stops)⟩

theorem ext2ReadFile_served
    (all : AllServed env sb inode (offset / sb.blockSize % word32) (callBlocks sb inode count offset) io.requests.length
      (io.allocations + 1)) :
    ∃ r io', ext2ReadFile env sb inode buf count offset io = .ok r io' ∧
      Delivered env sb inode buf count offset r io io' := by
  obtain ⟨t', io', done, complete⟩ := readFileLoop_allServed io.granted offset
    (callTransfer env sb inode buf count offset io) mounted opened rfl all
  have few : callBlocks sb inode count offset ≤ word32 := Nat.le_of_lt (Nat.mod_lt _ (by decide))
  have filled : FilledTo sb inode.ext2Inode offset (readCount inode.size count offset) buf
      (callBlocks sb inode count offset) t'.fill := by
    rw [complete.fill]
    exact Fill.run_filled mounted few
  refine ⟨readEnds offset (readCount inode.size count offset) 0 t', io'.freed io.allocations, ?_, ?_⟩
  · rw [ext2ReadFile_loop mounted some inside memory]
    exact Steps.bind_ok done
  · refine ⟨rfl, rfl, fun k => ?_, complete.keeps.erase (Nat.succ_ne_self _), complete.answered, complete.inode⟩
    rw [← filled.pos]
    exact filled.bytes k

theorem ext2ReadFile_fails
    (found : ¬ TableLost env sb inode (offset / sb.blockSize % word32) (callBlocks sb inode count offset)
      io.requests.length (io.allocations + 1))
    (fails : ¬ AllServed env sb inode (offset / sb.blockSize % word32) (callBlocks sb inode count offset)
      io.requests.length (io.allocations + 1)) :
    ∃ r io', ext2ReadFile env sb inode buf count offset io = .ok r io' ∧ r.ret < 0 ∧ r.offset = offset ∧
      Keeps inode r.inode (io.allocations + 1) io.live io'.live := by
  obtain ⟨status, t', io', ended, negative, keeps⟩ := readFileLoop_fails io.granted offset
    (callTransfer env sb inode buf count offset io) mounted opened rfl found fails
  have result : readEnds offset (readCount inode.size count offset) status t' = ⟨status, t'.buf, offset, t'.inode⟩ :=
    if_pos negative
  refine ⟨⟨status, t'.buf, offset, t'.inode⟩, io'.freed io.allocations, ?_, negative, rfl,
    keeps.erase (Nat.succ_ne_self _)⟩
  rw [ext2ReadFile_loop mounted some inside memory, ← result]
  exact Steps.bind_ok ended

end CallOutcome

end SnapOS.Ext2Io
