/- ext2_lookup with a device that answers: the blocks that it reads, one after the other, and the entry that it
takes. -/
import SnapOS.DirWalk
import SnapOS.Ext2Requests
import SnapOS.FileBytes

namespace SnapOS.Ext2Io
open SnapOS.Lib SnapOS.Fs

/-! The requests -/

def blockRequest (sb : Superblock) (lba : Nat) : Request := ⟨lba, sb.sectorsPerBlock, sb.blockSize⟩

/-- The requests of the driver for block `i` of a directory: before the first block behind the direct ones the table is
read, unless it has been kept. -/
def indexRequests (sb : Superblock) (dir : Inode) (i : Nat) : List Request :=
  (if i = 12 ∧ dir.singly.isNone = true then [blockRequest sb (tableLba sb dir.ext2Inode)] else []) ++
    (if blockPointer sb dir.ext2Inode i = 0 then [] else [blockRequest sb (blockLba sb dir.ext2Inode i)])

def searchIndex (sb : Superblock) (e : Ext2Inode) (name : List UInt8) (i : Nat) : Exec (Except Int (Option Nat)) :=
  searchDirBlock (sb.readBlock (blockLba sb e i)) sb.blockSize name (name.length % 256)

/-- The directory when the driver comes to block `i`. -/
structure AtIndex (sb : Superblock) (dir : Inode) (i : Nat) (d : Inode) : Prop where
  opened : Opened sb d
  same : d.ext2Inode = dir.ext2Inode
  missing : d.singly = none ↔ dir.singly = none ∧ i ≤ 12

def roundEnds (env : Env) (sb : Superblock) (name : List UInt8) (left i : Nat) (d : Inode) :
    Steps Io (Inode × Except Int (Option (Buffer × Nat))) := do
  match ← access (searchIndex sb d.ext2Inode name i) with
  | .error err => pure (d, .error err)
  | .ok (some entry) => pure (d, .ok (some (sb.readBlock (blockLba sb d.ext2Inode i), entry)))
  | .ok none => ext2LookupFrom env sb name left (i + 1) d (sb.readBlock (blockLba sb d.ext2Inode i))

section Rounds

variable {env : Env} {io : Io} {sb : Superblock} {dir d : Inode} {name : List UInt8} {i left : Nat} {buf : Buffer}

theorem AtIndex.start (opened : Opened sb dir) : AtIndex sb dir 0 dir :=
  ⟨opened, rfl, ⟨fun none => ⟨none, Nat.zero_le 12⟩, fun none => none.1⟩⟩

theorem singlyEntry_pointer (mounted : Mounted sb) (opened : Opened sb d) (kept : d.singly.isSome = true)
    (behind : 12 ≤ i) (few : i < 12 + sb.blockSize / 4) (io : Io) :
    singlyEntry d (i - 12) io = .ok (blockPointer sb d.ext2Inode i) io := by
  obtain ⟨table, kept⟩ := Option.isSome_iff_exists.mp kept
  have same := opened table kept
  have whole := mounted.readBlock_size (tableLba sb d.ext2Inode)
  rw [← same] at whole
  rw [singlyEntry_ok kept (by omega), blockPointer, if_neg (Nat.not_lt.mpr behind), if_pos few, ← same]

theorem dirBlockAddr_run (reliable : env.Reliable) (mounted : Mounted sb) (here : AtIndex sb dir i d)
    (few : i < 12 + sb.blockSize / 4) (io : Io) :
    ∃ d' io', dirBlockAddr env sb d i io = .ok (d', .ok (blockPointer sb dir.ext2Inode i)) io' ∧
      AtIndex sb dir (i + 1) d' ∧ io'.requests = io.requests ++
        if i = 12 ∧ dir.singly.isNone = true then [blockRequest sb (tableLba sb dir.ext2Inode)] else [] := by
  obtain ⟨opened, same, missing⟩ := here
  rw [← same]
  by_cases direct : i < 12
  · refine ⟨d, io, ?_, ⟨opened, same, ?_⟩, ?_⟩
    · rw [dirBlockAddr, if_pos direct, blockPointer, if_pos direct]
      rfl
    · rw [missing]
      exact ⟨fun none => ⟨none.1, direct⟩, fun none => ⟨none.1, by omega⟩⟩
    · rw [if_neg fun both => by omega, List.append_nil]
  · have behind := Nat.not_lt.mp direct
    rw [dirBlockAddr, if_neg direct]
    cases kept : d.singly with
    | none =>
        obtain ⟨unread, early⟩ := missing.mp kept
        refine ⟨withTable sb d, io.granted.asked (blockRequest sb (tableLba sb d.ext2Inode)), ?_,
          ⟨opened_withTable sb d, same, ?_⟩, ?_⟩
        · rw [Steps.bind_ok (ext2InitSingly_loads mounted kept (reliable.memory _) (reliable.answers _))]
          dsimp only
          rw [if_neg (Int.lt_irrefl 0),
            Steps.bind_ok (singlyEntry_pointer mounted (opened_withTable sb d) rfl behind few _)]
          rfl
        · refine ⟨fun none => ?_, fun none => absurd none.2 (by omega)⟩
          cases none
        · rw [if_pos ⟨by omega, by rw [unread]; rfl⟩]
          rfl
    | some table =>
        have cached : d.singly.isSome = true := by rw [kept]; rfl
        have notBoth : ¬ (dir.singly = none ∧ i ≤ 12) := fun both => by
          have none := missing.mpr both
          rw [kept] at none
          cases none
        refine ⟨d, io, ?_, ⟨opened, same, ?_⟩, ?_⟩
        · rw [Steps.bind_ok (ext2InitSingly_cached cached)]
          dsimp only
          rw [if_neg (Int.lt_irrefl 0), Steps.bind_ok (singlyEntry_pointer mounted opened cached behind few _)]
          rfl
        · rw [kept]
          refine ⟨fun none => ?_, fun both => absurd both.2 (by omega)⟩
          cases none
        · rw [if_neg fun both => notBoth ⟨Option.isNone_iff_eq_none.mp both.2, by omega⟩, List.append_nil]

theorem ext2LookupFrom_round (reliable : env.Reliable) (mounted : Mounted sb) (here : AtIndex sb dir i d)
    (few : i < 12 + sb.blockSize / 4) (name : List UInt8) (left : Nat) {buf : Buffer} (size : buf.size = sb.blockSize)
    (io : Io) :
    ∃ d' io', ext2LookupFrom env sb name (left + 1) i d buf io =
        (if blockPointer sb dir.ext2Inode i = 0 then pure (d', .ok none) else roundEnds env sb name left i d') io' ∧
      AtIndex sb dir (i + 1) d' ∧ io'.requests = io.requests ++ indexRequests sb dir i := by
  obtain ⟨d', io₁, addr, next, requests⟩ := dirBlockAddr_run reliable mounted here few io
  rw [ext2LookupFrom, Steps.bind_ok addr]
  dsimp only
  by_cases ended : blockPointer sb dir.ext2Inode i = 0
  · refine ⟨d', io₁, ?_, next, ?_⟩
    · rw [if_pos ended, if_pos ended]
    · rw [requests, indexRequests, if_pos ended, List.append_nil]
  · refine ⟨d', io₁.asked (blockRequest sb (blockLba sb dir.ext2Inode i)), ?_, next, ?_⟩
    · rw [if_neg ended, if_neg ended, Steps.bind_ok (mounted.bdevRead size (reliable.answers _))]
      dsimp only
      rw [if_neg (Int.not_lt.mpr (reliable.answers _)), roundEnds, searchIndex, next.same, blockLba]
      rfl
    · rw [Io.asked_requests, requests, indexRequests, if_neg ended, List.append_assoc]

def walkRequests (sb : Superblock) (dir : Inode) (k : Nat) : List Request :=
  (List.range k).flatMap (indexRequests sb dir)

theorem walkRequests_succ (sb : Superblock) (dir : Inode) (k : Nat) :
    walkRequests sb dir (k + 1) = walkRequests sb dir k ++ indexRequests sb dir k := by
  rw [walkRequests, List.range_succ, List.flatMap_append, List.flatMap_singleton]
  rfl

/-- Block `i` is read and has no entry with the name. -/
def Passed (sb : Superblock) (e : Ext2Inode) (name : List UInt8) (i : Nat) : Prop :=
  blockPointer sb e i ≠ 0 ∧ searchIndex sb e name i = .ok (.ok none)

theorem ext2LookupFrom_walk (reliable : env.Reliable) (mounted : Mounted sb) (opened : Opened sb dir)
    (size : buf.size = sb.blockSize) (io : Io) {k : Nat} (few : k ≤ 12 + sb.blockSize / 4)
    (passed : ∀ i < k, Passed sb dir.ext2Inode name i) :
    ∃ d buf' io', ext2LookupFrom env sb name (12 + sb.blockSize / 4) 0 dir buf io =
        ext2LookupFrom env sb name (12 + sb.blockSize / 4 - k) k d buf' io' ∧
      AtIndex sb dir k d ∧ buf'.size = sb.blockSize ∧ io'.requests = io.requests ++ walkRequests sb dir k := by
  induction k with
  | zero => exact ⟨dir, buf, io, rfl, .start opened, size, (List.append_nil _).symm⟩
  | succ k ih =>
      obtain ⟨d, buf₁, io₁, walked, here, size₁, requests⟩ :=
        ih (Nat.le_of_succ_le few) fun i before => passed i (Nat.lt_succ_of_lt before)
      obtain ⟨some, nothing⟩ := passed k (Nat.lt_succ_self k)
      have left : 12 + sb.blockSize / 4 - k = 12 + sb.blockSize / 4 - (k + 1) + 1 := by omega
      obtain ⟨d', io', round, next, asked⟩ := ext2LookupFrom_round reliable mounted here few name
        (12 + sb.blockSize / 4 - (k + 1)) size₁ io₁
      refine ⟨d', sb.readBlock (blockLba sb dir.ext2Inode k), io', ?_, next, mounted.readBlock_size _, ?_⟩
      · rw [walked, left, round, if_neg some, roundEnds, next.same, nothing]
        rfl
      · rw [asked, requests, List.append_assoc, ← walkRequests_succ]

theorem ext2LookupFrom_arrives (reliable : env.Reliable) (mounted : Mounted sb) (opened : Opened sb dir)
    (size : buf.size = sb.blockSize) (io : Io) {k : Nat} (few : k < 12 + sb.blockSize / 4)
    (passed : ∀ i < k, Passed sb dir.ext2Inode name i) :
    ∃ d io', ext2LookupFrom env sb name (12 + sb.blockSize / 4) 0 dir buf io =
        (if blockPointer sb dir.ext2Inode k = 0 then pure (d, .ok none)
          else roundEnds env sb name (12 + sb.blockSize / 4 - (k + 1)) k d) io' ∧
      d.ext2Inode = dir.ext2Inode ∧ io'.requests = io.requests ++ walkRequests sb dir (k + 1) := by
  obtain ⟨d, buf₁, io₁, walked, here, size₁, requests⟩ :=
    ext2LookupFrom_walk reliable mounted opened size io (Nat.le_of_lt few) passed
  have left : 12 + sb.blockSize / 4 - k = 12 + sb.blockSize / 4 - (k + 1) + 1 := by omega
  obtain ⟨d', io', round, next, asked⟩ := ext2LookupFrom_round reliable mounted here few name
    (12 + sb.blockSize / 4 - (k + 1)) size₁ io₁
  refine ⟨d', io', ?_, next.same, ?_⟩
  · rw [walked, left, round]
  · rw [asked, requests, List.append_assoc, ← walkRequests_succ]

theorem ext2LookupFrom_finds (reliable : env.Reliable) (mounted : Mounted sb) (opened : Opened sb dir)
    (size : buf.size = sb.blockSize) (io : Io) {k entry : Nat} (few : k < 12 + sb.blockSize / 4)
    (passed : ∀ i < k, Passed sb dir.ext2Inode name i) (block : blockPointer sb dir.ext2Inode k ≠ 0)
    (found : searchIndex sb dir.ext2Inode name k = .ok (.ok (some entry))) :
    ∃ d io', ext2LookupFrom env sb name (12 + sb.blockSize / 4) 0 dir buf io =
        .ok (d, .ok (some (sb.readBlock (blockLba sb dir.ext2Inode k), entry))) io' ∧
      io'.requests = io.requests ++ walkRequests sb dir (k + 1) := by
  obtain ⟨d, io', arrives, same, requests⟩ :=
    ext2LookupFrom_arrives reliable mounted opened size io few passed
  refine ⟨d, io', ?_, requests⟩
  rw [arrives, if_neg block, roundEnds, same, found]
  rfl

theorem ext2LookupFrom_stops (reliable : env.Reliable) (mounted : Mounted sb) (opened : Opened sb dir)
    (size : buf.size = sb.blockSize) (io : Io) {k : Nat} (few : k ≤ 12 + sb.blockSize / 4)
    (passed : ∀ i < k, Passed sb dir.ext2Inode name i)
    (last : k < 12 + sb.blockSize / 4 → blockPointer sb dir.ext2Inode k = 0) :
    ∃ d io', ext2LookupFrom env sb name (12 + sb.blockSize / 4) 0 dir buf io = .ok (d, .ok none) io' ∧
      io'.requests = io.requests ++ walkRequests sb dir (min (k + 1) (12 + sb.blockSize / 4)) := by
  rcases Nat.lt_or_eq_of_le few with before | rfl
  · obtain ⟨d, io', arrives, -, requests⟩ := ext2LookupFrom_arrives reliable mounted opened size io before passed
    refine ⟨d, io', ?_, by rw [Nat.min_eq_left before, requests]⟩
    rw [arrives, if_pos (last before)]
    rfl
  · obtain ⟨d, buf₁, io', walked, -, -, requests⟩ :=
      ext2LookupFrom_walk reliable mounted opened size io le_rfl passed
    refine ⟨d, io', ?_, by rw [Nat.min_eq_right (Nat.le_succ _), requests]⟩
    rw [walked, Nat.sub_self]
    rfl

theorem ext2LookupFrom_grows (reliable : env.Reliable) (mounted : Mounted sb) (opened : Opened sb dir)
    (size : buf.size = sb.blockSize) (io : Io) {k : Nat} (few : k < 12 + sb.blockSize / 4)
    (passed : ∀ i < k, Passed sb dir.ext2Inode name i) {r : Inode × Except Int (Option (Buffer × Nat))} {io' : Io}
    (done : ext2LookupFrom env sb name (12 + sb.blockSize / 4) 0 dir buf io = .ok r io') :
    io.requests ++ walkRequests sb dir (k + 1) <+: io'.requests := by
  obtain ⟨d, io₁, arrives, -, requests⟩ := ext2LookupFrom_arrives reliable mounted opened size io few passed
  rw [arrives] at done
  rw [← requests]
  have permits := permits_all sb
  have tail : Steps.Leads (Asks fun _ => True) (fun _ => True) (fun _ => True)
      (if blockPointer sb dir.ext2Inode k = 0 then pure (d, .ok none)
        else roundEnds env sb name (12 + sb.blockSize / 4 - (k + 1)) k d) := by
    refine .ite (fun _ => leads_pure trivial) fun _ => leads_bind (access_leads _ permits.search) fun found _ => ?_
    rcases found with err | none | entry
    · exact leads_pure trivial
    · exact (ext2LookupFrom_leads permits name _ _ _ (mounted.readBlock_size _)).imp fun _ _ => trivial
    · exact leads_pure trivial
  exact ((tail io₁).1 r io' done).1.grows

end Rounds

end SnapOS.Ext2Io
