/- The sector addresses that the ext2 driver computes from block addresses. -/
import SnapOS.Ext2Requests
import SnapOS.FileBytes
import SnapOS.InodeSlot

namespace SnapOS.Ext2Io
open SnapOS.Lib SnapOS.Fs

/-- The driver has taken the address of a block of the file from the inode or from the table. -/
inductive FileAddress (sb : Superblock) (inode : Inode) : Nat → Nat → Prop
  | direct {block : Nat} (few : block < 12) : FileAddress sb inode block (inode.ext2Inode.directPtrs.getD block 0)
  | indirect {block b : Nat} {table : Buffer} (many : 12 ≤ block) (covered : block < 12 + sb.blockSize / 4)
      (cached : inode.singly = some table) (entry : table.load (4 * (block - 12)) 4 = .ok b) :
      FileAddress sb inode block b

/-- A run asks for this address next. -/
def AsksNext (io io' : Io) (lba : Nat) : Prop := ∃ r, io.requests ++ [r] <+: io'.requests ∧ r.lba = lba

/-- All that a computation asks for is this address. -/
def AsksOnly {α : Type} (lba : Nat) (x : Steps Io α) : Prop :=
  Steps.Leads (Asks fun r => r.lba = lba) (fun _ => True) (fun _ => True) x

/-- Block `b` is sector `b * spb` to the device wherever the driver has the address from, and a file has a hole
there only if `b` is zero. A round of a loop is looked at from the point where it has the address. -/
structure ConvertsExactly (spb b : Nat) : Prop where
  file : ∀ (env : Env) (sb : Superblock) (offset startBlock left i : Nat) (t : Transfer) (io io₁ : Io) (inode : Inode)
    (lba : Nat), sb.sectorsPerBlock = spb → t.block.size = sb.blockSize →
    fileBlockLba env sb t.inode ((startBlock + i) % word32) io = .ok (inode, lba) io₁ →
    FileAddress sb inode ((startBlock + i) % word32) b →
    (lba = 0 → b = 0) ∧
      (b ≠ 0 → AsksNext io₁ (Steps.final (readFileLoop env sb offset startBlock (left + 1) i t) io) (b * spb))
  lookup : ∀ (env : Env) (sb : Superblock) (name : List UInt8) (left i : Nat) (dir dir' : Inode) (buf : Buffer)
    (io io₁ : Io), sb.sectorsPerBlock = spb → buf.size = sb.blockSize →
    dirBlockAddr env sb dir i io = .ok (dir', .ok b) io₁ → b ≠ 0 →
    AsksNext io₁ (Steps.final (ext2LookupFrom env sb name (left + 1) i dir buf) io) (b * spb)
  singly : ∀ (env : Env) (sb : Superblock) (inode : Inode), sb.sectorsPerBlock = spb → inode.ext2Inode.singly = b →
    AsksOnly (b * spb) (ext2InitSingly env sb inode)
  inode : ∀ (env : Env) (sb : Superblock) (ino : Nat), sb.sectorsPerBlock = spb → 1 ≤ ino → ino < word32 →
    (tableBlock sb ino + blockOffset sb ino) % word32 = b → AsksOnly (b * spb) (ext2ReadInode env sb ino)
  table : ∀ (env : Env) (bdev : BlockDev) (super : Ext2Superblock),
    shl32 1024 super.logBlockSize / bdev.sectorSize = spb → (super.firstDataBlock + 1) % word32 = b →
    AsksOnly (b * spb) (ext2FillBgdTableInfo env bdev super)

section Convert

variable {env : Env} {sb : Superblock} {io io₁ : Io} {b spb : Nat}

theorem ext2LookupFrom_asks (name : List UInt8) (left : Nat) {i : Nat} {dir dir' : Inode} {buf : Buffer}
    (size : buf.size = sb.blockSize) (address : dirBlockAddr env sb dir i io = .ok (dir', .ok b) io₁) (more : b ≠ 0) :
    AsksNext io₁ (Steps.final (ext2LookupFrom env sb name (left + 1) i dir buf) io)
      (b * sb.sectorsPerBlock % word32) := by
  have permits := permits_all sb
  rw [ext2LookupFrom, Steps.final_bind address]
  dsimp only
  rw [if_neg more]
  obtain ⟨data, asked, same⟩ := bdevRead_asks env sb.bdev (b * sb.sectorsPerBlock % word32)
    sb.sectorsPerBlock buf io₁
  rw [Steps.final_bind asked]
  refine ⟨_, request_stays (.ite (fun _ => leads_pure trivial) fun _ => ?_) io₁ _, rfl⟩
  refine leads_bind (access_leads _ permits.search) fun found _ => ?_
  rcases found with err | none | entry
  · exact leads_pure trivial
  · exact (ext2LookupFrom_leads permits name left (i + 1) dir' (same.trans size)).imp fun _ _ => trivial
  · exact leads_pure trivial

theorem readFileLoop_asks {offset startBlock left i lba : Nat} {t : Transfer} {inode : Inode}
    (size : t.block.size = sb.blockSize)
    (address : fileBlockLba env sb t.inode ((startBlock + i) % word32) io = .ok (inode, lba) io₁) (data : lba ≠ 0) :
    AsksNext io₁ (Steps.final (readFileLoop env sb offset startBlock (left + 1) i t) io) lba := by
  have permits := permits_all sb
  rw [readFileLoop, Steps.final_bind address]
  dsimp only
  rw [fetchBlock, if_neg data, bind_assoc]
  obtain ⟨filled, asked, same⟩ := bdevRead_asks env sb.bdev lba sb.sectorsPerBlock t.block io₁
  rw [Steps.final_bind asked]
  have again : Steps.Leads (Asks fun _ => True) (fun _ => True) (fun r => r.2.size = sb.blockSize)
      (if env.status io₁.requests.length < 0 then bdevRead env sb.bdev lba sb.sectorsPerBlock filled
        else pure (env.status io₁.requests.length, filled)) := by
    refine .ite (fun _ => ?_) fun _ => leads_pure (same.trans size)
    exact (bdevRead_leads sb.bdev trivial).imp fun _ kept => kept.trans (same.trans size)
  refine ⟨_, request_stays (leads_bind again fun r kept => .ite (fun _ => leads_pure trivial) fun _ => ?_) io₁ _, rfl⟩
  refine leads_bind (copyBlock_leads permits _ _ _ _ _) fun t' block => readFileLoop_leads permits _ _ _ _ ?_
  rw [block]
  exact kept

theorem fileBlockLba_address {inode inode' : Inode} {block lba : Nat}
    (done : fileBlockLba env sb inode block io = .ok (inode', lba) io₁) (address : FileAddress sb inode' block b) :
    lba = b * sb.sectorsPerBlock % word32 := by
  cases address with
  | direct few =>
      rw [fileBlockLba, if_pos few] at done
      cases done
      rfl
  | indirect many covered cached entry =>
      rw [fileBlockLba, if_neg (Nat.not_lt.mpr many), if_pos covered] at done
      obtain ⟨⟨status, inode₁⟩, io₂, -, done⟩ := Steps.bind_eq_ok.mp done
      obtain ⟨loaded, io₃, taken, done⟩ := Steps.bind_eq_ok.mp done
      cases done
      rw [singlyEntry, cached] at taken
      dsimp only at taken
      rw [entry] at taken
      cases taken
      rfl

/-- The slot of an inode lies in the block that the descriptor and the offset give. -/
theorem ext2InodeSlot_asks {ino : Nat} {G : Request → Prop} (first : 1 ≤ ino) (small : ino < word32)
    (good : G ⟨(slotOf sb ino).lba, sb.sectorsPerBlock, sb.blockSize⟩) :
    Steps.Leads (Asks G) (fun _ => True) (fun r => ∀ slot, r = .ok slot →
      G ⟨slot.lba, sb.sectorsPerBlock, sb.blockSize⟩)
      (ext2InodeSlot sb ino) := by
  intro io
  have leads := ext2InodeSlot_leads (G := G) (permits_all sb).toExcuses ino io
  refine ⟨fun r io' done => ⟨(leads.1 r io' done).1, ?_⟩, leads.2⟩
  rintro slot rfl
  obtain ⟨-, rfl⟩ := ext2InodeSlot_only first small done
  exact good

theorem ext2InitSingly_asks (sb : Superblock) {inode : Inode} (missing : inode.singly = none)
    (memory : env.available io.allocations = true) :
    AsksNext io (Steps.final (ext2InitSingly env sb inode) io) (tableLba sb inode.ext2Inode) := by
  rw [ext2InitSingly, if_neg (by simp [missing]), ext2AllocBlock_eq, Steps.final_bind (kmalloc_granted memory _)]
  dsimp only
  obtain ⟨data, asked, -⟩ := bdevRead_asks env sb.bdev (tableLba sb inode.ext2Inode)
    sb.sectorsPerBlock ⟨env.fresh io.allocations, sb.blockSize⟩ io.granted
  rw [Steps.final_bind asked]
  refine ⟨_, request_stays (.ite (fun _ => ?_) fun _ => leads_pure trivial) io.granted _, rfl⟩
  exact leads_bind (kfree_leads _) fun _ _ => leads_pure trivial

def sectorsFs (spb : Nat) : Superblock :=
  ⟨⟨fun _ => 0, 0, 512⟩, 512 * spb, spb, ⟨⟨0, 0, 0, 0, 0, 0⟩, 0, 0, 0, ⟨fun _ => 0, 0⟩⟩⟩

/-- For every block address and every number of sectors in a block, the conversion is exact if and only if the product
has 32 bits. -/
theorem convertsExactly_iff {spb : Nat} (some : 1 ≤ spb) (b : Nat) :
    ConvertsExactly spb b ↔ b * spb < word32 := by
  constructor
  · intro exact
    have asks := (exact.singly workingEnv (sectorsFs spb) (fileOf 0 [] b) rfl rfl).final ⟨[], 0, []⟩
    obtain ⟨r, next, isLba⟩ := ext2InitSingly_asks (sectorsFs spb) (show (fileOf 0 [] b).singly = none from rfl)
      (show workingEnv.available (Io.allocations ⟨[], 0, []⟩) = true from rfl)
    have product : b * spb = b * spb % word32 := (asks.of_stays next).symm.trans isLba
    rw [product]
    exact Nat.mod_lt _ (by decide)
  · intro fits
    have product : b * spb % word32 = b * spb := Nat.mod_eq_of_lt fits
    refine ⟨?_, ?_, ?_, ?_, ?_⟩
    · intro env sb offset startBlock left i t io io₁ inode lba sectors size taken isAddress
      have isLba := fileBlockLba_address taken isAddress
      rw [sectors, product] at isLba
      subst isLba
      refine ⟨fun hole => (Nat.mul_eq_zero.mp hole).resolve_right (Nat.ne_of_gt some), fun data => ?_⟩
      exact readFileLoop_asks size taken (Nat.mul_ne_zero data (Nat.ne_of_gt some))
    · intro env sb name left i dir dir' buf io io₁ sectors size taken more
      have asks := ext2LookupFrom_asks name left size taken more
      rwa [sectors, product] at asks
    · rintro env sb inode sectors rfl
      refine ext2InitSingly_leads (G := fun r => r.lba = _) ?_
      rw [tableLba, sectors, product]
    · rintro env sb ino sectors first small rfl
      refine ext2ReadInode_leads (permits_all sb).toExcuses (ext2InodeSlot_asks first small ?_)
      rw [slotOf, sectors, product]
    · rintro env bdev super sectors rfl
      refine (ext2FillBgdTableInfo_leads (G := fun r => r.lba = _) (Or.inl trivial) ?_).imp fun _ _ => trivial
      rw [descriptorRequest]
      dsimp only
      rw [sectors, product]

end Convert

theorem convertsExactly_iff_lastSector : ConvertsExactly 8 (2 ^ 29 - 1) :=
  (convertsExactly_iff (by decide) (2 ^ 29 - 1)).mpr (by decide)

/-- Block 2 ^ 29 of a file system with blocks of 4096 bytes lies 2 TiB behind the start of the partition. A file
that has it has a hole there. -/
theorem far_block_is_hole :
    (∀ env io, fileBlockLba env (sectorsFs 8) (fileOf 1 [2 ^ 29] 0) 0 io = .ok (fileOf 1 [2 ^ 29] 0, 0) io) ∧
      ¬ ConvertsExactly 8 (2 ^ 29) := by
  refine ⟨fun env io => rfl, fun exact => ?_⟩
  have hole := (exact.file workingEnv (sectorsFs 8) 0 0 0 0
    ⟨fileOf 1 [2 ^ 29] 0, ⟨fun _ => 0, 512 * 8⟩, fun _ => 0, 0, 1⟩
    ⟨[], 0, []⟩ ⟨[], 0, []⟩ (fileOf 1 [2 ^ 29] 0) 0 rfl rfl rfl (.direct (by decide))).1 rfl
  exact absurd hole (by decide)

end SnapOS.Ext2Io
