/- The records of the MADT: the pass that counts the cores, and the pass that fills their table. -/
import SnapOS.Lib.Bytes
import SnapOS.MapOutcome
import SnapOS.Vmm

namespace SnapOS.Apic
open SnapOS.Lib SnapOS.Paging

def firstMadtRecordOffset : Nat := 0x2C
def madtRecType0Enabled : Nat := 1
def maxPicIrq : Nat := 15
def sizeofMadtRecordHeader : Nat := 2
def sizeofMadtRecordLapic : Nat := 8
def sizeofMadtRecordIoapic : Nat := 12
def sizeofMadtRecordOverride : Nat := 10
def sizeofMadtRecordLapicOverride : Nat := 12
def sizeofLapic : Nat := 0x400

structure CpuCore where
  logicalId : Nat
  acpiProcessorId : Nat
  apicId : Nat
  isAwake : Bool
deriving DecidableEq, Repr

structure Ioapic where
  addr : Nat
  gsiBase : Nat
deriving DecidableEq, Repr

structure IrqOverride where
  gsi : Nat
  flags : Nat
deriving DecidableEq, Repr

/-- The variables of madt.c, cores.c and apic.c. An element of `cores` is none as long as it has the zeros of `kzalloc`;
`dispatched` is a ghost record of the records that came to the `switch`, and no function reads it. -/
structure ApicState where
  index : Nat
  called : Bool
  cores : List (Option CpuCore)
  ioapic : Ioapic
  irqOverrides : Nat → IrqOverride
  lapic : Nat
  vmm : Vmm
  dispatched : List Nat

/-! cores.c -/

def coresTableInit (kzallocOk : Bool) (count : Nat) (a : ApicState) : Exec ApicState :=
  if kzallocOk then .ok { a with cores := List.replicate count none }
  else Exec.panic "cores_table_init: kmalloc failed"

def coresRange : Fault := .panic "cores_array_update: idx is bigger than cores_count."

def coresTableSet (idx : Nat) (core : CpuCore) (a : ApicState) : Exec ApicState :=
  if a.cores.length ≤ idx then .error coresRange
  else .ok { a with cores := a.cores.set idx (some core) }

/-! madt.c, with the bytes of the table by their offset and a record by that of its header. -/

section Records

variable (madt : Memory)

def tableLength : Nat := madt.load 4 4
def recType (p : Nat) : Nat := (madt p).toNat
def recLength (p : Nat) : Nat := (madt (p + 1)).toNat

/-- The loop that both passes have, in at most `fuel` rounds. -/
def forRecords {σ : Type} (body : Nat → σ → Exec σ) : Nat → Nat → σ → Exec σ
  | 0, _, _ => .error .outOfFuel
  | fuel + 1, p, s =>
      if p + recLength madt p < tableLength madt then
        body p s >>= fun s => forRecords body fuel (p + recLength madt p) s
      else .ok s

def countRecord (p count : Nat) : Exec Nat :=
  if recLength madt p < sizeofMadtRecordHeader then
    Exec.panic "cores_array_init: invalid record length (rec->length < sizeof(struct madt_record_header)."
  else if recType madt p ≠ 0 then .ok count
  else if recLength madt p < sizeofMadtRecordLapic then .ok count
  else if madt.load (p + 4) 4 &&& madtRecType0Enabled = 0 then .ok count
  else .ok (count + 1)

def madtCountCores (fuel : Nat) : Exec Nat := forRecords madt (countRecord madt) fuel firstMadtRecordOffset 0

def coreOf (index p : Nat) : CpuCore := ⟨index % word32, (madt (p + 2)).toNat, (madt (p + 3)).toNat, false⟩

def madtParseRecordType0 (p : Nat) (a : ApicState) : Exec ApicState :=
  if recLength madt p < sizeofMadtRecordLapic then .ok a
  else if madt.load (p + 4) 4 &&& madtRecType0Enabled = 0 then .ok a
  else coresTableSet a.index (coreOf madt a.index p) { a with index := a.index + 1 }

def madtParseRecordType1 (p : Nat) (a : ApicState) : ApicState :=
  if recLength madt p < sizeofMadtRecordIoapic then a
  else if madt.load (p + 8) 4 ≠ 0 then a
  else { a with ioapic := ⟨physToVirt (madt.load (p + 4) 4), madt.load (p + 8) 4⟩ }

def madtParseRecordType2 (p : Nat) (a : ApicState) : ApicState :=
  if recLength madt p < sizeofMadtRecordOverride then a
  else if maxPicIrq < (madt (p + 3)).toNat then a
  else
    { a with
      irqOverrides := Function.update a.irqOverrides (madt (p + 3)).toNat
        ⟨madt.load (p + 4) 4, madt.load (p + 8) 2⟩ }

def repeatedType5 : Fault := .panic "madt_parse_record_type_5: multiple records of type 5."

def lapicPhysAddr (p : Nat) : Nat := madt.load (p + 4) 8

def madtParseRecordType5 (p : Nat) (a : ApicState) : Exec ApicState :=
  if recLength madt p < sizeofMadtRecordLapicOverride then .ok a
  else if a.called then .error repeatedType5
  else
    a.vmm.ioremap (lapicPhysAddr madt p) sizeofLapic >>= fun (lapic, vmm) =>
      .ok { a with called := true, lapic := lapic, vmm := vmm }

def unexpectedType : Fault := .panic "madt_parse_recoreds: unexpexted record type."

-- The records of types 3 and 4 are skipped.
def madtParseRecord (p : Nat) (a : ApicState) : Exec ApicState :=
  let a := { a with dispatched := a.dispatched ++ [p] }
  match recType madt p with
  | 0 => madtParseRecordType0 madt p a
  | 1 => .ok (madtParseRecordType1 madt p a)
  | 2 => .ok (madtParseRecordType2 madt p a)
  | 3 => .ok a
  | 4 => .ok a
  | 5 => madtParseRecordType5 madt p a
  | _ => .error unexpectedType

def madtParseRecoreds (fuel : Nat) (a : ApicState) : Exec ApicState :=
  forRecords madt (madtParseRecord madt) fuel firstMadtRecordOffset a

/-! What the passes see: the records in front of the first one that comes to the end of the table. -/

inductive Walk : Nat → List Nat → Prop
  | stop {p : Nat} : ¬ p + recLength madt p < tableLength madt → Walk p []
  | step {p : Nat} {rest : List Nat} : p + recLength madt p < tableLength madt → Walk (p + recLength madt p) rest →
      Walk p (p :: rest)

def enabledLapic (p : Nat) : Bool :=
  recType madt p == 0 && sizeofMadtRecordLapic ≤ recLength madt p &&
    madt.load (p + 4) 4 &&& madtRecType0Enabled != 0

def coresFor (records : List Nat) : List (Option CpuCore) :=
  (records.filter (enabledLapic madt)).mapIdx fun i p => some (coreOf madt i p)

end Records

section Walk

variable {madt : Memory} {σ : Type} {body : Nat → σ → Exec σ} {p : Nat} {records : List Nat}

/-- A loop with enough fuel is a fold over the walk. -/
theorem Walk.enough (walk : Walk madt p records) (s : σ) :
    forRecords madt body (records.length + 1) p s = records.foldlM (fun s p => body p s) s := by
  induction walk generalizing s with
  | stop stops => rw [List.length_nil, forRecords, if_neg stops, List.foldlM_nil]; rfl
  | step goes _ ih =>
      rw [List.length_cons, forRecords, if_pos goes, List.foldlM_cons]
      exact congrArg _ (funext ih)

/-- With any other amount it may run out, but it does nothing else. -/
theorem Walk.any (walk : Walk madt p records) (fuel : Nat) (s : σ) :
    forRecords madt body fuel p s = .error .outOfFuel ∨
      forRecords madt body fuel p s = records.foldlM (fun s p => body p s) s := by
  induction walk generalizing fuel s with
  | stop stops =>
      cases fuel with
      | zero => exact Or.inl rfl
      | succ fuel => exact Or.inr (by rw [forRecords, if_neg stops, List.foldlM_nil]; rfl)
  | step goes _ ih =>
      cases fuel with
      | zero => exact Or.inl rfl
      | succ fuel =>
          rw [forRecords, if_pos goes, List.foldlM_cons]
          cases body _ s with
          | error e => exact Or.inr rfl
          | ok s => exact ih fuel s

end Walk

/-! The pass that counts. -/

section Count

variable {madt : Memory} {p : Nat} {records : List Nat}

theorem enabledLapic_iff : enabledLapic madt p = true ↔ recType madt p = 0 ∧
    sizeofMadtRecordLapic ≤ recLength madt p ∧ madt.load (p + 4) 4 &&& madtRecType0Enabled ≠ 0 := by
  rw [enabledLapic, Bool.and_eq_true, Bool.and_eq_true, beq_iff_eq, decide_eq_true_iff, bne_iff_ne, and_assoc]

theorem countRecord_ok {count count' : Nat} (done : countRecord madt p count = .ok count') :
    count' = count + ([p].filter (enabledLapic madt)).length := by
  by_cases enabled : enabledLapic madt p = true
  · obtain ⟨type, long, flag⟩ := enabledLapic_iff.mp enabled
    rw [List.filter_cons_of_pos enabled]
    rw [countRecord, if_neg (Nat.not_lt.mpr (Nat.le_trans (by decide) long)), if_neg (not_not.mpr type),
      if_neg (Nat.not_lt.mpr long), if_neg flag] at done
    exact (Except.ok.inj done).symm
  · rw [List.filter_cons_of_neg enabled]
    rw [enabledLapic_iff] at enabled
    rw [countRecord] at done
    split at done
    · cases done
    · split at done
      · exact (Except.ok.inj done).symm
      · next type =>
          split at done
          · exact (Except.ok.inj done).symm
          · next long =>
              split at done
              · exact (Except.ok.inj done).symm
              · next flag => exact absurd ⟨not_not.mp type, Nat.not_lt.mp long, flag⟩ enabled

theorem forRecords_counts {fuel count n : Nat} (done : forRecords madt (countRecord madt) fuel p count = .ok n) :
    ∃ records, Walk madt p records ∧ n = count + (records.filter (enabledLapic madt)).length := by
  induction fuel generalizing p count with
  | zero => cases done
  | succ fuel ih =>
      rw [forRecords] at done
      split at done
      · next goes =>
          obtain ⟨count', first, later⟩ := Exec.bind_eq_ok.mp done
          obtain ⟨records, walk, total⟩ := ih later
          refine ⟨[p] ++ records, .step goes walk, ?_⟩
          rw [total, countRecord_ok first, List.filter_append, List.length_append, Nat.add_assoc]
      · next stops => exact ⟨[], .stop stops, (Except.ok.inj done).symm⟩

end Count

/-! Tables without gaps. -/

/-- The records cover the bytes up to `stop`. -/
inductive Tiles (madt : Memory) (stop : Nat) : Nat → List Nat → Prop
  | done : Tiles madt stop stop []
  | record {p : Nat} {rest : List Nat} : sizeofMadtRecordHeader ≤ recLength madt p →
      Tiles madt stop (p + recLength madt p) rest → Tiles madt stop p (p :: rest)

/-- A well-formed table and its records. -/
structure WellFormed (madt : Memory) (records : List Nat) : Prop where
  tiles : Tiles madt (tableLength madt) firstMadtRecordOffset records
  types : ∀ p ∈ records, recType madt p ≤ 5
  once : (records.filter fun p => recType madt p = 5).length ≤ 1

structure SeesAll (madt : Memory) (records : List Nat) (a : ApicState) : Prop where
  counts : ∃ fuel, madtCountCores madt fuel = .ok (records.filter (enabledLapic madt)).length
  dispatches : ∃ fuel a', madtParseRecoreds madt fuel a = .ok a' ∧ a'.dispatched = a.dispatched ++ records

section Tiling

variable {madt : Memory} {p stop : Nat} {records : List Nat}

theorem Tiles.le (tiles : Tiles madt stop p records) : p ≤ stop := by
  induction tiles with
  | done => exact Nat.le_refl _
  | record _ _ ih => exact Nat.le_trans (Nat.le_add_right _ _) ih

theorem Tiles.eq_nil_iff (tiles : Tiles madt stop p records) : records = [] ↔ stop = p := by
  cases tiles with
  | done => exact ⟨fun _ => rfl, fun _ => rfl⟩
  | record long rest =>
      have := rest.le
      simp only [sizeofMadtRecordHeader] at long
      exact ⟨fun none => absurd none (List.cons_ne_nil _ _), fun same => by omega⟩

/-- The last record comes to the end of the table, so the walk stops in front of it. -/
theorem Tiles.walk (tiles : Tiles madt stop p records) (whole : stop = tableLength madt) :
    Walk madt p records.dropLast := by
  induction tiles with
  | done => exact .stop (Nat.not_lt.mpr (whole ▸ Nat.le_add_right _ _))
  | record long rest ih =>
      cases rest with
      | done => exact .stop (Nat.not_lt.mpr (Nat.le_of_eq whole.symm))
      | record long' rest' =>
          have := rest'.le
          simp only [sizeofMadtRecordHeader] at long'
          exact .step (by omega) ih

end Tiling

/-! The pass that fills the table of cores. -/

section Parse

variable {madt : Memory} {p : Nat} {a a' : ApicState}

theorem coresTableSet_ok {idx : Nat} {core : CpuCore} (done : coresTableSet idx core a = .ok a') :
    idx < a.cores.length ∧ a' = { a with cores := a.cores.set idx (some core) } := by
  rw [coresTableSet] at done
  split at done
  · cases done
  · next inside => exact ⟨Nat.lt_of_not_le inside, (Except.ok.inj done).symm⟩

theorem dispatched_parseRecord (done : madtParseRecord madt p a = .ok a') :
    a'.dispatched = a.dispatched ++ [p] := by
  rw [madtParseRecord] at done
  split at done
  · rw [madtParseRecordType0] at done
    split at done
    · cases done; rfl
    · split at done
      · cases done; rfl
      · obtain ⟨-, rfl⟩ := coresTableSet_ok done
        rfl
  · cases done
    rw [madtParseRecordType1]
    split
    · rfl
    · split <;> rfl
  · cases done
    rw [madtParseRecordType2]
    split
    · rfl
    · split <;> rfl
  · cases done; rfl
  · cases done; rfl
  · rw [madtParseRecordType5] at done
    split at done
    · cases done; rfl
    · split at done
      · cases done
      · obtain ⟨mapped, -, done⟩ := Exec.bind_eq_ok.mp done
        cases done
        rfl
  · cases done

theorem dispatched_fold {records : List Nat}
    (done : records.foldlM (fun a p => madtParseRecord madt p a) a = .ok a') :
    a'.dispatched = a.dispatched ++ records := by
  induction records generalizing a with
  | nil =>
      cases done
      rw [List.append_nil]
  | cons p records ih =>
      rw [List.foldlM_cons] at done
      obtain ⟨next, first, later⟩ := Exec.bind_eq_ok.mp done
      rw [ih later, dispatched_parseRecord first, List.append_assoc, List.singleton_append]

end Parse

/-- The comparison with the end of the table leaves out the last record, so all are seen only if there are none. -/
theorem seesAll_iff {madt : Memory} {records : List Nat} (wellFormed : WellFormed madt records) (a : ApicState) :
    SeesAll madt records a ↔ tableLength madt = firstMadtRecordOffset := by
  have walk := wellFormed.tiles.walk rfl
  rw [← wellFormed.tiles.eq_nil_iff]
  constructor
  · rintro ⟨-, fuel, a', done, all⟩
    rcases walk.any fuel a with short | fold
    · rw [madtParseRecoreds, short] at done
      cases done
    · rw [madtParseRecoreds, fold] at done
      have same := List.append_cancel_left ((dispatched_fold done).symm.trans all)
      have length := congrArg List.length same
      rw [List.length_dropLast] at length
      exact List.length_eq_zero_iff.mp (by omega)
  · rintro rfl
    refine ⟨⟨1, walk.enough 0⟩, 1, a, walk.enough a, (List.append_nil _).symm⟩

def emptyMadt : Memory := fun i => if i = 4 then 0x2C else 0

def twoRecords : Memory := fun i =>
  if i = 4 then 64 else if i = 45 then 8 else if i = 48 then 1 else if i = 52 then 1 else if i = 53 then 12
  else if i = 58 then 0xC0 else if i = 59 then 0xFE else 0

def oneCore : ApicState :=
  ⟨0, false, [none], ⟨0, 0⟩, fun i => ⟨i, 0⟩, 0, ⟨⟨fun _ _ => 0, [], false⟩, 0, []⟩, []⟩

theorem seesAll_iff_empty : SeesAll emptyMadt [] oneCore :=
  (seesAll_iff ⟨.done, by decide, by decide⟩ oneCore).mpr (by decide)

theorem wellFormed_twoRecords : WellFormed twoRecords [44, 52] := by
  refine ⟨.record (by decide) (.record (by decide) ?_), by decide, by decide⟩
  exact (Tiles.done : Tiles twoRecords 64 64 [])

/-- The I/O APIC is not found, since its record is the last one. -/
theorem lastRecord_unseen : WellFormed twoRecords [44, 52] ∧ ¬ SeesAll twoRecords [44, 52] oneCore := by
  refine ⟨wellFormed_twoRecords, ?_⟩
  rintro ⟨-, fuel, a', done, all⟩
  rcases (wellFormed_twoRecords.tiles.walk rfl).any fuel oneCore with short | fold
  · rw [madtParseRecoreds, short] at done
    cases done
  · rw [madtParseRecoreds, fold] at done
    have seen := dispatched_fold done
    rw [all] at seen
    exact absurd seen (by decide)

end SnapOS.Apic
