/- A read through the AHCI controller: the command FIS, the table of physical regions and the command itself. -/
import SnapOS.Ahci

namespace SnapOS.Ahci

def fisTypeRegH2d : Nat := 0x27
def ahciAtaCmdReadDmaExt : Nat := 0x25
def ahciCmdfisDeviceLbaMode : Nat := 2 ^ 6
def ahciHbaPortTfdBsyBit : Nat := 2 ^ 7
def ahciHbaPortTfdDrqBit : Nat := 2 ^ 3
def ahciHbaPortIsTfesBit : Nat := 2 ^ 30
def sizeofFisH2d : Nat := 20

structure FisH2d where
  fisType : Nat
  c : Nat
  command : Nat
  lba0 : Nat
  lba1 : Nat
  lba2 : Nat
  device : Nat
  lba3 : Nat
  lba4 : Nat
  lba5 : Nat
  countl : Nat
  counth : Nat
deriving DecidableEq, Repr

structure HbaCmdTable where
  cfis : FisH2d
  prdtEntry : Prdt

/-- The first command of a port's list; `cmdtbl` is the table at the physical address in `ctba` and `ctbau`, if that is
not zero. -/
structure HbaCmdHeader where
  cfl : Nat
  w : Nat
  prdtl : Nat
  cmdtbl : Option HbaCmdTable

/-- What the driver has no say in: whether there is a page for a table, the two values of `tfd` in each round of the
first loop of `ahci_issue_cmd`, and those of `ci` and `is` in each round of the second. -/
structure Hardware where
  page : Bool
  tfd : Nat → Nat × Nat
  ci : Nat → Nat
  is : Nat → Nat

def Hardware.busy (hw : Hardware) (round : Nat) : Bool :=
  (hw.tfd round).1 &&& ahciHbaPortTfdBsyBit != 0 || (hw.tfd round).2 &&& ahciHbaPortTfdDrqBit != 0

/-- A call of `ahci_read`: what it returns, if it does, whether it gave a command to the controller, and the header and
the table that it left. -/
structure Outcome where
  ret : Option Int
  issued : Bool
  header : HbaCmdHeader

def ahciCmdtblBuildFis (cmdtbl : HbaCmdTable) (lba count cmd device : Nat) : HbaCmdTable :=
  { cmdtbl with
    cfis :=
      { cmdtbl.cfis with
        fisType := fisTypeRegH2d
        c := 1
        command := cmd
        lba0 := lba % 2 ^ 8
        lba1 := lba / 2 ^ 8 % 2 ^ 8
        lba2 := lba / 2 ^ 16 % 2 ^ 8
        lba3 := lba / 2 ^ 24 % 2 ^ 8
        lba4 := lba / 2 ^ 32 % 2 ^ 8
        lba5 := lba / 2 ^ 40 % 2 ^ 8
        device := device
        countl := count % 2 ^ 8
        counth := count / 2 ^ 8 % 2 ^ 8 } }

def spinWhileBusy (hw : Hardware) : Nat → Nat → Nat
  | 0, _ => 0
  | spin + 1, round => if hw.busy round then spinWhileBusy hw spin (round + 1) else spin + 1

/-- The `while (1)` for the end of the command, in at most `fuel` rounds. -/
def waitForEnd (hw : Hardware) (slot : Nat) : Nat → Nat → Option Bool
  | 0, _ => none
  | fuel + 1, round =>
      if hw.ci round &&& 2 ^ slot = 0 then some (hw.is round &&& ahciHbaPortIsTfesBit == 0)
      else if hw.is round &&& ahciHbaPortIsTfesBit ≠ 0 then some false
      else waitForEnd hw slot fuel (round + 1)

def spinLimit : Nat := 1000000

/-- Whether the command was issued, and the result. -/
def ahciIssueCmd (hw : Hardware) (slot fuel : Nat) : Bool × Option Bool :=
  if spinWhileBusy hw spinLimit 0 = 0 then (false, some false)
  else (true, waitForEnd hw slot fuel 0)

/-- A page of zeros. -/
def zeroCmdtbl : HbaCmdTable := ⟨⟨0, 0, 0, 0, 0, 0, 0, 0, 0, 0, 0, 0⟩, fun _ => ⟨0, 0, 0, 0, 0, 0⟩⟩

def ahciAllocCmdtbl (hw : Hardware) : Option HbaCmdTable := if hw.page then some zeroCmdtbl else none

/-- `(PAGE_SIZE - offsetof(struct hba_cmd_table, prdt_entry)) / sizeof(struct hba_prdt_entry)` -/
def maxPtrdEntries : Nat := (pageSize - 128) / 16

def rawAhciRead (hw : Hardware) (fuel : Nat) (header : HbaCmdHeader) (lba count : Nat) (iovec : List PhysIovec) :
    Outcome :=
  match header.cmdtbl.or (ahciAllocCmdtbl hw) with
  | none => ⟨some (-eNoMem), false, header⟩
  | some cmdtbl =>
      let fis := ahciCmdtblBuildFis cmdtbl lba (count % 2 ^ 16) ahciAtaCmdReadDmaExt ahciCmdfisDeviceLbaMode
      let ptrdl := (ahciBuildPrdt fis.prdtEntry maxPtrdEntries iovec).1
      let table := { fis with prdtEntry := (ahciBuildPrdt fis.prdtEntry maxPtrdEntries iovec).2 }
      if ptrdl < 0 then ⟨some ptrdl, false, { header with cmdtbl := some table }⟩
      else
        { ret := (ahciIssueCmd hw 0 fuel).2.map fun done => if done then 0 else -eIo
          issued := (ahciIssueCmd hw 0 fuel).1
          header := { cfl := sizeofFisH2d / 4, w := 0, prdtl := ptrdl.toNat % 2 ^ 16, cmdtbl := some table } }

/-- The port of the device is in its `priv_data`. -/
def ahciRead (hw : Hardware) (fuel : Nat) (header : HbaCmdHeader) (lba count : Nat) (iovec : List PhysIovec) :
    Outcome := rawAhciRead hw fuel header lba count iovec

/-! What the device makes of a FIS for READ DMA EXT. -/

def FisH2d.lba (f : FisH2d) : Nat :=
  f.lba0 + f.lba1 * 2 ^ 8 + f.lba2 * 2 ^ 16 + f.lba3 * 2 ^ 24 + f.lba4 * 2 ^ 32 + f.lba5 * 2 ^ 40

/-- Zero stands for 65536. -/
def FisH2d.sectors (f : FisH2d) : Nat :=
  if f.countl + f.counth * 2 ^ 8 = 0 then 65536 else f.countl + f.counth * 2 ^ 8

/-- The requests that such a FIS can express. -/
structure Encodable (lba count : Nat) : Prop where
  lba : lba < 2 ^ 48
  some : 1 ≤ count
  atMost : count ≤ 65536

/-- A command is the one that was asked for, and a request that no command expresses is refused. -/
structure Carries (lba count : Nat) (o : Outcome) : Prop where
  issued : o.issued = true →
    ∃ table, o.header.cmdtbl = some table ∧ table.cfis.lba = lba ∧ table.cfis.sectors = count
  refused : ¬ Encodable lba count → ∃ e, o.ret = some e ∧ e < 0

/-- No command can be issued: there is no table and no page for one, or too few entries in it, or the port stays
busy. -/
def Refuses (hw : Hardware) (header : HbaCmdHeader) (iovec : List PhysIovec) : Prop :=
  (header.cmdtbl.isNone ∧ hw.page = false) ∨ maxPtrdEntries < entriesNeeded iovec ∨ ∀ round < spinLimit, hw.busy round

theorem lba_buildFis (t : HbaCmdTable) (lba count cmd device : Nat) :
    (ahciCmdtblBuildFis t lba count cmd device).cfis.lba = lba % 2 ^ 48 := by
  simp only [ahciCmdtblBuildFis, FisH2d.lba]
  omega

theorem sectors_buildFis (t : HbaCmdTable) (lba count cmd device : Nat) :
    (ahciCmdtblBuildFis t lba count cmd device).cfis.sectors =
      if count % 2 ^ 16 = 0 then 65536 else count % 2 ^ 16 := by
  have bytes : count % 2 ^ 8 + count / 2 ^ 8 % 2 ^ 8 * 2 ^ 8 = count % 2 ^ 16 := by omega
  simp only [ahciCmdtblBuildFis, FisH2d.sectors, bytes]

theorem encodable_iff (t : HbaCmdTable) (lba count cmd device : Nat) :
    Encodable lba count ↔ (ahciCmdtblBuildFis t lba (count % 2 ^ 16) cmd device).cfis.lba = lba ∧
      (ahciCmdtblBuildFis t lba (count % 2 ^ 16) cmd device).cfis.sectors = count := by
  rw [lba_buildFis, sectors_buildFis, Nat.mod_mod]
  constructor
  · rintro ⟨low, nonzero, atMost⟩
    refine ⟨Nat.mod_eq_of_lt low, ?_⟩
    split <;> omega
  · rintro ⟨low, same⟩
    refine ⟨by omega, ?_, ?_⟩
    · split at same <;> omega
    · split at same <;> omega

theorem spinWhileBusy_eq_zero_iff (hw : Hardware) (spin start : Nat) :
    spinWhileBusy hw spin start = 0 ↔ ∀ round < spin, hw.busy (start + round) := by
  induction spin generalizing start with
  | zero => exact ⟨fun _ round below => absurd below (Nat.not_lt_zero round), fun _ => rfl⟩
  | succ spin ih =>
      rw [spinWhileBusy]
      split
      · next first =>
          rw [ih]
          constructor
          · intro later round below
            rcases round with _ | round
            · exact first
            · have := later round (Nat.lt_of_succ_lt_succ below)
              rwa [Nat.add_right_comm] at this
          · intro always round below
            have := always (round + 1) (Nat.succ_lt_succ below)
            rwa [← Nat.add_assoc, Nat.add_right_comm] at this
      · next first => exact ⟨fun none => absurd none (Nat.succ_ne_zero spin),
          fun always => absurd (always 0 (Nat.succ_pos spin)) first⟩

section Read

variable {hw : Hardware} {header : HbaCmdHeader} {iovec : List PhysIovec}

theorem noTable_iff (hw : Hardware) (header : HbaCmdHeader) :
    header.cmdtbl.or (ahciAllocCmdtbl hw) = none ↔ header.cmdtbl.isNone ∧ hw.page = false := by
  rw [Option.or_eq_none_iff, Option.isNone_iff_eq_none, ahciAllocCmdtbl]
  cases hw.page <;> simp

theorem ahciRead_refuses (refuses : Refuses hw header iovec) (fuel lba count : Nat) :
    (ahciRead hw fuel header lba count iovec).issued = false ∧
      ∃ e, (ahciRead hw fuel header lba count iovec).ret = some e ∧ e < 0 := by
  rw [ahciRead, rawAhciRead]
  split
  · exact ⟨rfl, _, rfl, by decide⟩
  · next table found =>
      dsimp only
      split
      · next negative => exact ⟨rfl, _, rfl, negative⟩
      · next built =>
          rcases refuses with missing | full | busy
          · rw [(noTable_iff hw header).mpr missing] at found
            cases found
          · rw [ahciBuildPrdt_full _ (by decide) full] at built
            exact absurd (by decide) built
          · have spun : spinWhileBusy hw spinLimit 0 = 0 :=
              (spinWhileBusy_eq_zero_iff hw spinLimit 0).mpr fun round below => by
                rw [Nat.zero_add]
                exact busy round below
            simp only [ahciIssueCmd, if_pos spun]
            exact ⟨trivial, _, rfl, by decide⟩

theorem ahciRead_issues (issues : ¬ Refuses hw header iovec) (fuel lba count : Nat) :
    (ahciRead hw fuel header lba count iovec).issued = true ∧
      ∃ old table, (ahciRead hw fuel header lba count iovec).header.cmdtbl = some table ∧ table.cfis =
        (ahciCmdtblBuildFis old lba (count % 2 ^ 16) ahciAtaCmdReadDmaExt ahciCmdfisDeviceLbaMode).cfis := by
  simp only [Refuses, not_or, Nat.not_lt] at issues
  obtain ⟨found, room, idle⟩ := issues
  rw [← noTable_iff] at found
  obtain ⟨old, table⟩ := Option.ne_none_iff_exists'.mp found
  have spun : spinWhileBusy hw spinLimit 0 ≠ 0 := by
    rw [Ne, spinWhileBusy_eq_zero_iff]
    simpa only [Nat.zero_add] using idle
  have built := ahciBuildPrdt_fits old.prdtEntry (by decide) room
  have entries : ¬ (entriesNeeded iovec : Int) < 0 := by omega
  rw [ahciRead, rawAhciRead, table]
  simp only [ahciCmdtblBuildFis, built, if_neg entries, ahciIssueCmd, if_neg spun]
  exact ⟨trivial, old, _, rfl, rfl⟩

end Read

/-- A read carries its request to the device exactly if the FIS can express it, or if nothing is issued at all. -/
theorem ahciRead_carries_iff (hw : Hardware) (fuel : Nat) (header : HbaCmdHeader) (lba count : Nat)
    (iovec : List PhysIovec) :
    Carries lba count (ahciRead hw fuel header lba count iovec) ↔ Encodable lba count ∨ Refuses hw header iovec := by
  by_cases refuses : Refuses hw header iovec
  · obtain ⟨silent, failed⟩ := ahciRead_refuses refuses fuel lba count
    refine ⟨fun _ => Or.inr refuses, fun _ => ⟨fun issued => ?_, fun _ => failed⟩⟩
    rw [silent] at issued
    cases issued
  · obtain ⟨issued, old, table, written, fis⟩ := ahciRead_issues refuses fuel lba count
    constructor
    · intro carries
      obtain ⟨table', written', sameLba, sameCount⟩ := carries.issued issued
      rw [written] at written'
      cases written'
      rw [fis] at sameLba sameCount
      exact Or.inl ((encodable_iff old lba count _ _).mpr ⟨sameLba, sameCount⟩)
    · intro holds
      have encodable := holds.resolve_right refuses
      refine ⟨fun _ => ⟨table, written, ?_⟩, fun refused => absurd encodable refused⟩
      rw [fis]
      exact (encodable_iff old lba count _ _).mp encodable

def idlePort : Hardware := ⟨true, fun _ => (0, 0), fun _ => 0, fun _ => 0⟩

/-- The driver asks for no sector into a block of 1024 bytes, as ext2 does on sectors of 4096 bytes; the device
understands 65536 sectors. -/
theorem count_zero_not_carried :
    ¬ Carries 2048 0 (ahciRead idlePort 1 ⟨5, 0, 0, some zeroCmdtbl⟩ 2048 0 [⟨0x100000, 1024⟩]) := by
  intro carries
  have issues : ¬ Refuses idlePort ⟨5, 0, 0, some zeroCmdtbl⟩ [⟨0x100000, 1024⟩] := by
    rintro (⟨missing, -⟩ | full | busy)
    · exact absurd missing (by decide)
    · exact absurd full (by decide)
    · exact absurd (busy 0 (by decide)) (by decide)
  obtain ⟨issued, old, table, written, fis⟩ := ahciRead_issues issues 1 2048 0
  obtain ⟨table', written', -, sectors⟩ := carries.issued issued
  rw [written] at written'
  cases written'
  rw [fis, sectors_buildFis] at sectors
  exact absurd sectors (by decide)

end SnapOS.Ahci
