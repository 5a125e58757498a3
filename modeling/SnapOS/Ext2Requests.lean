/- What holds of every request of the ext2 driver and of every fault, in any run. -/
import SnapOS.Ext2Io

namespace SnapOS.Ext2Io
open SnapOS.Lib SnapOS.Fs

def Asks (G : Request → Prop) (io io' : Io) : Prop := ∃ new, io'.requests = io.requests ++ new ∧ ∀ r ∈ new, G r

/-- All faults are in `F`, but a division by zero only if it can happen. -/
structure Excuses (F : Fault → Prop) (sb : Superblock) : Prop where
  fault : ∀ e, e ≠ divideByZero → F e
  zero : F divideByZero ∨ (sb.blockSize ≠ 0 ∧ sb.info.inodesPerGroup ≠ 0 ∧ sb.info.superblock.inodeStructSize ≠ 0 ∧
    sb.info.superblock.inodeStructSize ≤ sb.blockSize)

/-- Requests for whole blocks are in `G`. -/
structure Permits (G : Request → Prop) (F : Fault → Prop) (sb : Superblock) : Prop extends Excuses F sb where
  block : ∀ lba, G ⟨lba, sb.sectorsPerBlock, sb.blockSize⟩

section Calls

variable {G : Request → Prop} {F : Fault → Prop} {env : Env}

theorem Asks.refl (io : Io) : Asks G io io :=
  ⟨[], (List.append_nil _).symm, fun _ member => absurd member List.not_mem_nil⟩

theorem Asks.trans {io io₁ io₂ : Io} (first : Asks G io io₁) (second : Asks G io₁ io₂) : Asks G io io₂ := by
  obtain ⟨new, same, good⟩ := first
  obtain ⟨new', same', good'⟩ := second
  refine ⟨new ++ new', by rw [same', same, List.append_assoc], fun r member => ?_⟩
  rcases List.mem_append.mp member with early | late
  · exact good r early
  · exact good' r late

theorem Asks.grows {io io' : Io} (asks : Asks G io io') : io.requests <+: io'.requests := by
  obtain ⟨new, same, -⟩ := asks
  exact ⟨new, same.symm⟩

theorem leads_pure {α : Type} {Q : α → Prop} {a : α} (holds : Q a) : Steps.Leads (Asks G) F Q (pure a : Steps Io α) :=
  .pure Asks.refl holds

theorem leads_throw {α : Type} {Q : α → Prop} {e : Fault} (allowed : F e) :
    Steps.Leads (Asks G) F Q (throw e : Steps Io α) := .throw Asks.refl allowed

theorem leads_bind {α β : Type} {Q : α → Prop} {Q' : β → Prop} {x : Steps Io α} {f : α → Steps Io β}
    (first : Steps.Leads (Asks G) F Q x) (later : ∀ a, Q a → Steps.Leads (Asks G) F Q' (f a)) :
    Steps.Leads (Asks G) F Q' (x >>= f) :=
  Steps.Leads.bind (R := Asks G) (fun _ _ _ => Asks.trans) first later

theorem leads_silent {α : Type} {Q : α → Prop} {x : Steps Io α}
    (silent : ∀ io, ∃ a io', x io = .ok a io' ∧ io'.requests = io.requests ∧ Q a) : Steps.Leads (Asks G) F Q x := by
  intro io
  obtain ⟨a, io', done, same, holds⟩ := silent io
  refine ⟨fun b t result => ?_, fun e t stopped => ?_⟩
  · rw [done] at result
    cases result
    exact ⟨⟨[], by rw [same, List.append_nil], fun _ member => absurd member List.not_mem_nil⟩, holds⟩
  · rw [done] at stopped
    cases stopped

theorem kmalloc_leads (size : Nat) :
    Steps.Leads (Asks G) F (fun b => ∀ block, b = some block → block.data.size = size) (kmalloc env size) := by
  refine leads_silent fun io => ?_
  rw [kmalloc, Steps.get_bind]
  split
  · refine ⟨_, _, Steps.set_bind _ _ _, rfl, ?_⟩
    rintro _ ⟨⟩
    rfl
  · refine ⟨_, _, Steps.set_bind _ _ _, rfl, ?_⟩
    rintro _ ⟨⟩

theorem kfree_leads (block : Block) : Steps.Leads (Asks G) F (fun _ => True) (kfree block) :=
  leads_silent fun io => ⟨(), io.freed block.id, rfl, rfl, trivial⟩

/-- A request that does not fail fills the buffer from the disk, as far as its sectors go. -/
theorem bdevRead_fills (bdev : BlockDev) {lba count : Nat} {buf : Buffer} (good : G ⟨lba, count, buf.size⟩) :
    Steps.Leads (Asks G) F (fun r => r.2.size = buf.size ∧
        (¬ r.1 < 0 → ∀ i < count * bdev.sectorSize, r.2.bytes i = (bdev.read lba count buf.size).bytes i))
      (bdevRead env bdev lba count buf) := by
  intro io
  have asks : Asks G io (io.asked ⟨lba, count, buf.size⟩) :=
    ⟨[_], rfl, fun r member => List.mem_singleton.mp member ▸ good⟩
  rw [bdevRead, Steps.get_bind, Steps.set_bind]
  dsimp only
  split
  · next failed =>
      refine ⟨?_, ?_⟩
      · rintro _ _ ⟨⟩
        exact ⟨asks, rfl, fun succeeds => absurd failed succeeds⟩
      · rintro _ _ ⟨⟩
  · refine ⟨?_, ?_⟩
    · rintro _ _ ⟨⟩
      refine ⟨asks, rfl, fun _ i inside => if_neg fun behind => ?_⟩
      have outside : min (count * bdev.sectorSize) buf.size ≤ i := behind.1
      omega
    · rintro _ _ ⟨⟩

theorem bdevRead_leads (bdev : BlockDev) {lba count : Nat} {buf : Buffer} (good : G ⟨lba, count, buf.size⟩) :
    Steps.Leads (Asks G) F (fun r => r.2.size = buf.size) (bdevRead env bdev lba count buf) :=
  (bdevRead_fills bdev good).imp fun _ filled => filled.1

theorem bdevRead_asks (env : Env) (bdev : BlockDev) (lba count : Nat) (buf : Buffer) (io : Io) :
    ∃ data, bdevRead env bdev lba count buf io =
      .ok (env.status io.requests.length, data) (io.asked ⟨lba, count, buf.size⟩) ∧ data.size = buf.size := by
  rw [bdevRead, Steps.get_bind, Steps.set_bind]
  dsimp only
  split
  · exact ⟨_, rfl, rfl⟩
  · exact ⟨_, rfl, rfl⟩

theorem request_stays {α : Type} {x : Steps Io α}
    (leads : Steps.Leads (Asks fun _ => True) (fun _ => True) (fun _ => True) x) (io : Io) (r : Request) :
    io.requests ++ [r] <+: (x.final (io.asked r)).requests := (leads.final (io.asked r)).grows

theorem Asks.of_stays {io io' : Io} {r : Request} (asks : Asks G io io') (stays : io.requests ++ [r] <+: io'.requests) :
    G r := by
  obtain ⟨new, same, good⟩ := asks
  obtain ⟨rest, later⟩ := stays
  rw [← later, List.append_assoc] at same
  exact good r (List.append_cancel_left same ▸ List.mem_cons_self)

theorem divide_leads {a b : Nat} (zero : b = 0 → F divideByZero) :
    Steps.Leads (Asks G) F (fun q => q = a / b) (divide a b) :=
  .ite (fun none => leads_throw (zero none)) fun _ => leads_pure rfl

theorem remainder_leads {a b : Nat} (zero : b = 0 → F divideByZero) :
    Steps.Leads (Asks G) F (fun q => q = a % b) (remainder a b) :=
  .ite (fun none => leads_throw (zero none)) fun _ => leads_pure rfl

theorem copyFrom_leads (fault : F .outOfBounds) (buf : Buffer) (offset n : Nat) :
    Steps.Leads (Asks G) F (fun r => offset + n ≤ buf.size ∧ ∀ i, r i = buf.bytes (offset + i))
      (copyFrom buf offset n) :=
  .ite (fun inside => leads_pure ⟨inside, fun _ => rfl⟩) fun _ => leads_throw fault

theorem access_leads {α : Type} (x : Exec α) (fault : ∀ e, x = .error e → F e) :
    Steps.Leads (Asks G) F (fun a => x = .ok a) (access x) := by
  cases x with
  | ok a => exact leads_pure rfl
  | error e => exact leads_throw (fault e rfl)

theorem freeAll_leads (blocks : List (Option Block)) : Steps.Leads (Asks G) F (fun _ => True) (freeAll blocks) := by
  induction blocks with
  | nil => exact leads_pure trivial
  | cons block rest ih =>
      cases block with
      | none => exact ih
      | some block => exact leads_bind (kfree_leads block) fun _ _ => ih

theorem ext2AllocBlock_leads (blockSize : Nat) :
    Steps.Leads (Asks G) F (fun b => ∀ block, b = some block → block.data.size = blockSize)
      (ext2AllocBlock env blockSize) := by
  rw [ext2AllocBlock]
  split
  · next page =>
      rw [page]
      exact kmalloc_leads pageSize
  · exact kmalloc_leads blockSize

end Calls

/-! The functions of the driver -/

section Driver

variable {G : Request → Prop} {F : Fault → Prop} {env : Env} {sb : Superblock}

theorem Permits.block_size (permits : Permits G F sb) {buf : Buffer} (size : buf.size = sb.blockSize) (lba : Nat) :
    G ⟨lba, sb.sectorsPerBlock, buf.size⟩ := by
  rw [size]
  exact permits.block lba

theorem permits_all (sb : Superblock) : Permits (fun _ => True) (fun _ => True) sb :=
  ⟨⟨fun _ _ => trivial, Or.inl trivial⟩, fun _ => trivial⟩

theorem Excuses.outOfBounds (excuses : Excuses F sb) : F .outOfBounds := excuses.fault _ (by decide)

theorem Excuses.load (excuses : Excuses F sb) (buf : Buffer) (a n : Nat) (e : Fault)
    (stopped : buf.load a n = .error e) :
    F e := by
  rw [Buffer.load] at stopped
  split at stopped
  · cases stopped
  · cases stopped
    exact excuses.outOfBounds

theorem ext2InitSingly_leads {inode : Inode}
    (good : G ⟨tableLba sb inode.ext2Inode, sb.sectorsPerBlock, sb.blockSize⟩) :
    Steps.Leads (Asks G) F (fun _ => True) (ext2InitSingly env sb inode) := by
  refine .ite (fun _ => leads_pure trivial) fun _ => leads_bind (ext2AllocBlock_leads sb.blockSize) fun block size => ?_
  cases block with
  | none => exact leads_pure trivial
  | some block =>
      have asked : G ⟨tableLba sb inode.ext2Inode, sb.sectorsPerBlock, block.data.size⟩ := by rwa [size block rfl]
      refine leads_bind (bdevRead_leads sb.bdev asked) fun r _ => ?_
      refine .ite (fun _ => leads_bind (kfree_leads block) fun _ _ => leads_pure trivial) fun _ => leads_pure trivial

theorem singlyEntry_leads (permits : Permits G F sb) (inode : Inode) (index : Nat) :
    Steps.Leads (Asks G) F (fun _ => True) (singlyEntry inode index) := by
  rw [singlyEntry.eq_def]
  cases inode.singly with
  | none => exact leads_throw permits.outOfBounds
  | some table => exact (access_leads _ (permits.load table _ _)).imp fun _ _ => trivial

theorem ext2InodeSlot_leads (excuses : Excuses F sb) (ino : Nat) :
    Steps.Leads (Asks G) F (fun _ => True) (ext2InodeSlot sb ino) := by
  have group : sb.info.inodesPerGroup = 0 → F divideByZero := fun none =>
    excuses.zero.resolve_right fun divisors => divisors.2.1 none
  have size : sb.info.superblock.inodeStructSize = 0 → F divideByZero := fun none =>
    excuses.zero.resolve_right fun divisors => divisors.2.2.1 none
  have perBlock : sb.blockSize / sb.info.superblock.inodeStructSize = 0 → F divideByZero := fun none => by
    refine excuses.zero.resolve_right fun divisors => ?_
    exact Nat.ne_of_gt (Nat.div_pos divisors.2.2.2 (Nat.pos_of_ne_zero divisors.2.2.1)) none
  refine leads_bind (divide_leads group) fun blockGroup _ => ?_
  refine .ite (fun _ => leads_pure trivial) fun _ => ?_
  refine leads_bind (remainder_leads group) fun index _ => ?_
  refine leads_bind (divide_leads size) fun inodesPerBlock each => ?_
  subst each
  refine leads_bind (divide_leads perBlock) fun _ _ => ?_
  refine leads_bind (remainder_leads perBlock) fun _ _ => ?_
  exact leads_bind (access_leads _ (excuses.load _ _ _)) fun _ _ => leads_pure trivial

theorem Excuses.copy (excuses : Excuses F sb) (block : Buffer) (offset : Nat) (e : Fault)
    (stopped : Ext2Inode.copy block offset = .error e) : F e := by
  rw [Ext2Inode.copy] at stopped
  split at stopped
  · cases stopped
  · cases stopped
    exact excuses.outOfBounds

theorem ext2ReadInode_leads (excuses : Excuses F sb) {ino : Nat}
    (slot : Steps.Leads (Asks G) F (fun r => ∀ slot, r = .ok slot → G ⟨slot.lba, sb.sectorsPerBlock, sb.blockSize⟩)
      (ext2InodeSlot sb ino)) :
    Steps.Leads (Asks G) F (fun _ => True) (ext2ReadInode env sb ino) := by
  refine leads_bind slot fun slot good => ?_
  cases slot with
  | error err => exact leads_pure trivial
  | ok slot =>
      refine leads_bind (ext2AllocBlock_leads sb.blockSize) fun blockBuf size => ?_
      refine leads_bind (kmalloc_leads _) fun ext2Inode _ => ?_
      refine leads_bind (kmalloc_leads _) fun inode _ => ?_
      refine leads_bind (kmalloc_leads _) fun info _ => ?_
      have fails (err : Int) : Steps.Leads (Asks G) F (fun _ => True)
          (do freeAll [blockBuf, ext2Inode, inode, info]; pure (.error err) : Steps Io (Except Int Inode)) :=
        leads_bind (freeAll_leads _) fun _ _ => leads_pure trivial
      cases blockBuf with
      | none => exact fails (-eNoMem)
      | some block =>
          cases ext2Inode.isSome && inode.isSome && info.isSome with
          | false => exact fails (-eNoMem)
          | true =>
              have asked : G ⟨slot.lba, sb.sectorsPerBlock, block.data.size⟩ := by
                rw [size block rfl]
                exact good slot rfl
              refine leads_bind (bdevRead_leads sb.bdev asked) fun r _ => ?_
              refine .ite (fun _ => fails r.1) fun _ => ?_
              refine leads_bind (access_leads _ (excuses.copy r.2 slot.offset)) fun e _ => ?_
              refine .ite (fun _ => leads_bind (kfree_leads block) fun _ _ => leads_pure trivial) fun _ => ?_
              refine .ite (fun _ => leads_bind (kfree_leads block) fun _ _ => leads_pure trivial) fun _ => ?_
              exact leads_throw (excuses.fault _ (by decide))

theorem Permits.readInode (permits : Permits G F sb) (ino : Nat) :
    Steps.Leads (Asks G) F (fun _ => True) (ext2ReadInode env sb ino) :=
  ext2ReadInode_leads permits.toExcuses
    ((ext2InodeSlot_leads permits.toExcuses ino).imp fun _ _ slot _ => permits.block slot.lba)

/-! ext2_mount -/

def superblockSectors (sectorSize : Nat) : Nat :=
  ((ext2SuperblockOffset + sizeofExt2Superblock + sectorSize + (word32 - 1)) % word32 / sectorSize +
    (word32 - ext2SuperblockOffset / sectorSize)) % word32

def superblockBytes (bdev : BlockDev) : Memory := fun i =>
  bdev.disk ((bdev.lbaStart + ext2SuperblockOffset / bdev.sectorSize) % word64 * bdev.sectorSize +
    (ext2SuperblockOffset % bdev.sectorSize + i))

theorem superblockOffset_eq (sectorSize : Nat) :
    (ext2SuperblockOffset + (word32 - ext2SuperblockOffset / sectorSize * sectorSize % word32)) % word32 =
      ext2SuperblockOffset % sectorSize := by
  have split := Nat.div_add_mod' ext2SuperblockOffset sectorSize
  generalize ext2SuperblockOffset / sectorSize * sectorSize = start at *
  generalize ext2SuperblockOffset % sectorSize = rest at *
  simp only [ext2SuperblockOffset, word32] at *
  omega

theorem ext2ReadSuperblock_leads {bdev : BlockDev} (fault : F .outOfBounds)
    (zero : bdev.sectorSize = 0 → F divideByZero)
    (good : G ⟨ext2SuperblockOffset / bdev.sectorSize, superblockSectors bdev.sectorSize,
      superblockSectors bdev.sectorSize * bdev.sectorSize % word32⟩) :
    Steps.Leads (Asks G) F (fun r => ∀ bytes, r = .ok bytes →
      ∀ i < sizeofExt2Superblock, bytes i = superblockBytes bdev i) (ext2ReadSuperblock env bdev) := by
  refine leads_bind (divide_leads zero) fun start isStart => leads_bind (divide_leads zero) fun end' isEnd => ?_
  subst isStart isEnd
  refine leads_bind (kmalloc_leads _) fun buf size => ?_
  cases buf with
  | none =>
      refine leads_pure ?_
      rintro _ ⟨⟩
  | some buf =>
      have length : buf.data.size = superblockSectors bdev.sectorSize * bdev.sectorSize % word32 := size buf rfl
      have asked : G ⟨ext2SuperblockOffset / bdev.sectorSize, superblockSectors bdev.sectorSize, buf.data.size⟩ := by
        rw [length]
        exact good
      refine leads_bind (bdevRead_fills bdev asked) fun r filled => .ite (fun _ => ?_) fun succeeds => ?_
      · refine leads_bind (kfree_leads buf) fun _ _ => leads_pure ?_
        rintro _ ⟨⟩
      · refine leads_bind (copyFrom_leads fault _ _ _) fun bytes copied => ?_
        refine leads_bind (kfree_leads buf) fun _ _ => leads_pure ?_
        rintro _ ⟨⟩ i inside
        obtain ⟨within, taken⟩ := copied
        rw [superblockOffset_eq] at within taken
        rw [filled.1, length] at within
        have whole := Nat.mod_le (superblockSectors bdev.sectorSize * bdev.sectorSize) word32
        have covered : ext2SuperblockOffset % bdev.sectorSize + i <
            superblockSectors bdev.sectorSize * bdev.sectorSize := by
          omega
        rw [taken, filled.2 succeeds _ covered]
        rfl

section Mount

variable (super : Ext2Superblock)

def groupsOf : Nat := (super.inodeCount + super.inodesPerBlockgroup + (word32 - 1)) % word32 / super.inodesPerBlockgroup

def descriptorBlocks : Nat :=
  (sizeofBlockgroupDesc * groupsOf super % word32 + shl32 1024 super.logBlockSize + (word32 - 1)) % word32 /
    shl32 1024 super.logBlockSize

def descriptorRequest (bdev : BlockDev) : Request :=
  let sectorsPerBlock := shl32 1024 super.logBlockSize / bdev.sectorSize
  ⟨(super.firstDataBlock + 1) % word32 * sectorsPerBlock % word32, descriptorBlocks super * sectorsPerBlock % word32,
    descriptorBlocks super * shl32 1024 super.logBlockSize % word32⟩

variable {super}

theorem ext2FillBgdTableInfo_leads {bdev : BlockDev}
    (zero : F divideByZero ∨ (super.inodesPerBlockgroup ≠ 0 ∧ shl32 1024 super.logBlockSize ≠ 0 ∧
      bdev.sectorSize ≠ 0))
    (good : G (descriptorRequest super bdev)) :
    Steps.Leads (Asks G) F (fun r => ∀ info, r = .ok info → info.superblock = super ∧
      info.inodesPerGroup = super.inodesPerBlockgroup) (ext2FillBgdTableInfo env bdev super) := by
  refine leads_bind (divide_leads fun none => zero.resolve_right fun divisors => divisors.1 none) fun count
    isCount => ?_
  refine leads_bind (divide_leads fun none => zero.resolve_right fun divisors => divisors.2.1 none) fun blocks
    each => ?_
  subst isCount each
  refine leads_bind (kmalloc_leads _) fun bgdTable size => ?_
  cases bgdTable with
  | none =>
      refine leads_pure ?_
      rintro _ ⟨⟩
  | some bgdTable =>
      refine leads_bind (divide_leads fun none => zero.resolve_right fun divisors => divisors.2.2 none)
        fun sectors isSectors => ?_
      subst isSectors
      have asked : G ⟨(descriptorRequest super bdev).lba, (descriptorRequest super bdev).count,
        bgdTable.data.size⟩ := by
        rw [size bgdTable rfl]
        exact good
      refine leads_bind (bdevRead_leads bdev asked) fun r _ => .ite (fun _ => ?_) fun _ => leads_pure ?_
      · refine leads_bind (kfree_leads bgdTable) fun _ _ => leads_pure ?_
        rintro _ ⟨⟩
      · rintro _ ⟨⟩
        exact ⟨rfl, rfl⟩

end Mount

theorem exitErr_leads (fault : F .outOfBounds) (block info : Option Block) :
    Steps.Leads (Asks G) F (fun _ => True) (exitErr block info) := by
  refine leads_bind (freeAll_leads _) fun _ _ => ?_
  cases info with
  | none => exact leads_pure trivial
  | some info => exact .ite (fun _ => leads_throw fault) fun _ => kfree_leads info

/-! dir.c and file.c -/

theorem dirBlockAddr_leads (permits : Permits G F sb) (dir : Inode) (i : Nat) :
    Steps.Leads (Asks G) F (fun _ => True) (dirBlockAddr env sb dir i) := by
  refine .ite (fun _ => leads_pure trivial) fun _ => leads_bind (ext2InitSingly_leads (permits.block _)) fun r _ => ?_
  refine .ite (fun _ => leads_pure trivial) fun _ => ?_
  exact leads_bind (singlyEntry_leads permits _ _) fun _ _ => leads_pure trivial

theorem Excuses.search (excuses : Excuses F sb) {buf : Buffer} {blockSize nameLen fuel ptr : Nat} {name : List UInt8}
    (e : Fault) (stopped : searchDirBlockFrom buf blockSize name nameLen fuel ptr = .error e) : F e := by
  have load {a n : Nat} : buf.load a n ≠ .error divideByZero := by
    rw [Buffer.load]
    split <;> rintro ⟨⟩
  refine excuses.fault e fun zero => ?_
  subst zero
  induction fuel generalizing ptr with
  | zero => cases stopped
  | succ fuel ih =>
      revert stopped
      rw [searchDirBlockFrom]
      split_ifs
      · refine Exec.bind_ne_error load fun size _ => ?_
        split_ifs
        · rintro ⟨⟩
        · refine Exec.bind_ne_error load fun inode _ => ?_
          split_ifs
          · exact ih
          · refine Exec.bind_ne_error load fun length _ => ?_
            split_ifs
            · exact ih
            · refine Exec.bind_ne_error (memcmp_ne_error ?_ ?_ _ _) fun differs _ => ?_
              · intro i
                rw [Buffer.byte]
                split <;> rintro ⟨⟩
              · rintro i ⟨⟩
              · split_ifs
                · exact ih
                · rintro ⟨⟩
      · rintro ⟨⟩

/-- The loop over the blocks. An entry comes out of the search of the block that it is in. -/
theorem ext2LookupFrom_leads (permits : Permits G F sb) (name : List UInt8) (left i : Nat) (dir : Inode) {buf : Buffer}
    (size : buf.size = sb.blockSize) :
    Steps.Leads (Asks G) F (fun r => ∀ block a, r.2 = .ok (some (block, a)) → block.size = sb.blockSize ∧
        searchDirBlock block sb.blockSize name (name.length % 256) = .ok (.ok (some a)))
      (ext2LookupFrom env sb name left i dir buf) := by
  have without {dir : Inode} {r : Except Int (Option (Buffer × Nat))} (nothing : ∀ q, r ≠ .ok (some q)) :
      Steps.Leads (Asks G) F (fun r => ∀ block a, r.2 = .ok (some (block, a)) → block.size = sb.blockSize ∧
        searchDirBlock block sb.blockSize name (name.length % 256) = .ok (.ok (some a)))
        (pure (dir, r) : Steps Io (Inode × Except Int (Option (Buffer × Nat)))) :=
    leads_pure fun block a found => absurd found (nothing _)
  induction left generalizing i dir buf with
  | zero => exact without (by simp)
  | succ left ih =>
      refine leads_bind (dirBlockAddr_leads permits dir i) fun r _ => ?_
      obtain ⟨dir', err | addr⟩ := r
      · exact without (by simp)
      · refine .ite (fun _ => without (by simp)) fun _ => ?_
        refine leads_bind (bdevRead_leads sb.bdev (permits.block_size size _)) fun r same => ?_
        refine .ite (fun _ => without (by simp)) fun _ => ?_
        refine leads_bind (access_leads _ permits.search) fun found searched => ?_
        rcases found with err | none | entry
        · exact without (by simp)
        · exact ih (i + 1) dir' (same.trans size)
        · refine leads_pure ?_
          rintro _ _ ⟨⟩
          exact ⟨same.trans size, searched⟩

theorem ext2Lookup_leads (permits : Permits G F sb) (dir : Inode) (name : List UInt8) :
    Steps.Leads (Asks G) F (fun _ => True) (ext2Lookup env sb dir name) := by
  refine leads_bind (ext2AllocBlock_leads sb.blockSize) fun block size => ?_
  cases block with
  | none => exact leads_pure trivial
  | some block =>
      refine leads_bind (ext2LookupFrom_leads permits name _ 0 dir (size block rfl)) fun r _ => ?_
      obtain ⟨dir', err | none | ⟨buf, entry⟩⟩ := r
      · exact leads_bind (kfree_leads block) fun _ _ => leads_pure trivial
      · exact leads_bind (kfree_leads block) fun _ _ => leads_pure trivial
      · refine leads_bind (access_leads _ (permits.load buf _ _)) fun ino _ => ?_
        refine leads_bind (permits.readInode ino) fun inode _ => ?_
        exact leads_bind (kfree_leads block) fun _ _ => leads_pure trivial

theorem fileBlockLba_leads (permits : Permits G F sb) (inode : Inode) (block : Nat) :
    Steps.Leads (Asks G) F (fun _ => True) (fileBlockLba env sb inode block) := by
  refine .ite (fun _ => leads_pure trivial) fun _ => .ite (fun _ => ?_) fun _ => leads_pure trivial
  refine leads_bind (ext2InitSingly_leads (permits.block _)) fun r _ => ?_
  exact leads_bind (singlyEntry_leads permits _ _) fun _ _ => leads_pure trivial

theorem fetchBlock_leads (permits : Permits G F sb) (lba : Nat) {buf : Buffer} (size : buf.size = sb.blockSize) :
    Steps.Leads (Asks G) F (fun r => r.2.size = sb.blockSize) (fetchBlock env sb lba buf) := by
  refine .ite (fun _ => leads_pure size) fun _ => ?_
  refine leads_bind (bdevRead_leads sb.bdev (permits.block_size size _)) fun r same => ?_
  refine .ite (fun _ => ?_) fun _ => leads_pure (same.trans size)
  exact (bdevRead_leads sb.bdev (permits.block_size (same.trans size) _)).imp fun r' again =>
    again.trans (same.trans size)

theorem copyBlock_leads (permits : Permits G F sb) (offset startBlock block lba : Nat) (t : Transfer) :
    Steps.Leads (Asks G) F (fun t' => t'.block = t.block) (copyBlock sb offset startBlock block lba t) := by
  have zero : sb.blockSize = 0 → F divideByZero :=
    fun none => permits.zero.resolve_right fun divisors => divisors.1 none
  have first : Steps.Leads (Asks G) F (fun _ => True) (firstOffset sb offset startBlock block) :=
    .ite (fun _ => (remainder_leads zero).imp fun _ _ => trivial) fun _ => leads_pure trivial
  refine leads_bind first fun _ _ => ?_
  have source (first tocopy : Nat) : Steps.Leads (Asks G) F (fun _ => True) (copySource t.block lba first tocopy) :=
    .ite (fun _ => leads_pure trivial) fun _ => (copyFrom_leads permits.outOfBounds _ _ _).imp fun _ _ => trivial
  exact leads_bind (source _ _) fun _ _ => leads_pure rfl

theorem readFileLoop_leads (permits : Permits G F sb) (offset startBlock left i : Nat) {t : Transfer}
    (size : t.block.size = sb.blockSize) :
    Steps.Leads (Asks G) F (fun _ => True) (readFileLoop env sb offset startBlock left i t) := by
  induction left generalizing i t with
  | zero => exact leads_pure trivial
  | succ left ih =>
      refine leads_bind (fileBlockLba_leads permits t.inode _) fun r _ => ?_
      refine leads_bind (fetchBlock_leads permits _ size) fun data same => ?_
      refine .ite (fun _ => leads_pure trivial) fun _ => ?_
      refine leads_bind (copyBlock_leads permits _ _ _ _ _) fun t' block => ih (i + 1) ?_
      rw [block]
      exact same

theorem ext2ReadFile_leads (permits : Permits G F sb) (inode : Inode) (buf : Memory) (count offset : Nat) :
    Steps.Leads (Asks G) F (fun _ => True) (ext2ReadFile env sb inode buf count offset) := by
  have zero : sb.blockSize = 0 → F divideByZero :=
    fun none => permits.zero.resolve_right fun divisors => divisors.1 none
  refine .ite (fun _ => leads_pure trivial) fun _ => .ite (fun _ => leads_pure trivial) fun _ => ?_
  refine leads_bind (divide_leads zero) fun _ _ => leads_bind (divide_leads zero) fun _ _ => ?_
  refine leads_bind (ext2AllocBlock_leads sb.blockSize) fun block size => ?_
  cases block with
  | none => exact leads_pure trivial
  | some block =>
      refine leads_bind (readFileLoop_leads permits _ _ _ _ (size block rfl)) fun r _ => ?_
      refine leads_bind (kfree_leads block) fun _ _ => ?_
      exact .ite (fun _ => leads_pure trivial) fun _ => leads_pure trivial

end Driver

end SnapOS.Ext2Io
