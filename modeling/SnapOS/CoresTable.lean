/- The two passes over the MADT agree: what the second one does with a table that the first one has counted. -/
import SnapOS.DirectMap
import SnapOS.Madt

namespace SnapOS.Apic
open SnapOS.Lib SnapOS.Paging

/-- The static variables of madt.c before the only call. -/
structure AtBoot (a : ApicState) : Prop where
  index : a.index = 0
  called : a.called = false

/-- The ways in which the second pass over some records ends. -/
inductive Ending (madt : Memory) (vmm : Vmm) (records : List Nat) : Exec ApicState → Prop
  | complete {a : ApicState} : a.cores = coresFor madt records → Ending madt vmm records (.ok a)
  | unexpected : Ending madt vmm records (.error unexpectedType)
  | repeated : Ending madt vmm records (.error repeatedType5)
  | unmapped {p : Nat} {e : Fault} : p ∈ records → recType madt p = 5 →
      vmm.ioremap (lapicPhysAddr madt p) sizeofLapic = .error e → Ending madt vmm records (.error e)

/-! A mapping fails with a panic of its own. -/

theorem mmuMapOne_range {m : Mmu} {pgd vaddr paddr : Nat} {size : PageKind} {opts : Pgprot} :
    m.mmuMapOne pgd vaddr paddr size opts ≠ .error coresRange := by
  rw [Mmu.mmuMapOne]
  have ends := mmuWalk_ends m pgd vaddr (Mmu.levelOf size)
  generalize m.mmuWalk pgd vaddr (Mmu.levelOf size) = result at ends
  cases ends with
  | stuck _ _ _ _ => exact fun same => absurd (Except.error.inj same) (by decide)
  | huge _ _ _ _ => exact fun same => absurd (Except.error.inj same) (by decide)
  | arrives _ =>
      simp only [Exec.ok_bind]
      split
      · exact fun same => absurd (Except.error.inj same) (by decide)
      · rintro ⟨⟩

theorem mmuMapLoop_range (opts : Pgprot) (pgd : Nat) (m : Mmu) (vaddr paddr len : Nat) :
    Mmu.mmuMapLoop opts pgd m vaddr paddr len ≠ .error coresRange := by
  induction len using Nat.strongRecOn generalizing m vaddr paddr with
  | ind len ih =>
      rw [Mmu.mmuMapLoop]
      split
      · next some =>
          refine Exec.bind_ne_error mmuMapOne_range fun m _ => ?_
          exact ih _ (Nat.sub_lt some (Mmu.chunkOf_pos _)) m _ _
      · rintro ⟨⟩

theorem ioremap_range (vmm : Vmm) (paddr size : Nat) : vmm.ioremap paddr size ≠ .error coresRange := by
  refine Exec.bind_ne_error ?_ fun m _ => by rintro ⟨⟩
  rw [Mmu.mmuMapRange]
  split
  · exact fun same => absurd (Except.error.inj same) (by decide)
  · split
    · exact fun same => absurd (Except.error.inj same) (by decide)
    · exact mmuMapLoop_range _ _ _ _ _ _

theorem Ending.range {madt : Memory} {vmm : Vmm} {records : List Nat} {result : Exec ApicState}
    (ending : Ending madt vmm records result) : result ≠ .error coresRange := by
  cases ending with
  | complete _ => rintro ⟨⟩
  | unexpected => exact fun same => absurd (Except.error.inj same) (by decide)
  | repeated => exact fun same => absurd (Except.error.inj same) (by decide)
  | unmapped _ _ failed => exact fun same => ioremap_range vmm _ _ (failed.trans (congrArg _ (Except.error.inj same)))

/-! The table of cores while it is filled. -/

section Fill

variable {madt : Memory} {n : Nat} {vmm : Vmm}

theorem length_coresFor (madt : Memory) (records : List Nat) :
    (coresFor madt records).length = (records.filter (enabledLapic madt)).length := List.length_mapIdx

theorem coresFor_enabled (seen : List Nat) {p : Nat} (enabled : enabledLapic madt p = true) :
    coresFor madt (seen ++ [p]) =
      coresFor madt seen ++ [some (coreOf madt (seen.filter (enabledLapic madt)).length p)] := by
  rw [coresFor, List.filter_append, List.filter_cons_of_pos enabled, List.filter_nil, List.mapIdx_append]
  simp only [List.mapIdx_cons, List.mapIdx_nil, Nat.zero_add]
  rfl

theorem filter_skip (seen : List Nat) {p : Nat} (other : ¬ enabledLapic madt p = true) :
    (seen ++ [p]).filter (enabledLapic madt) = seen.filter (enabledLapic madt) := by
  rw [List.filter_append, List.filter_cons_of_neg other, List.filter_nil, List.append_nil]

/-- The records `seen` are in the table, and it has room for the rest. -/
structure Filled (madt : Memory) (n : Nat) (vmm : Vmm) (seen : List Nat) (a : ApicState) : Prop where
  index : a.index = (seen.filter (enabledLapic madt)).length
  cores : a.cores = coresFor madt seen ++ List.replicate (n - a.index) none
  mapping : a.called = false → a.vmm = vmm

theorem Filled.skip {seen : List Nat} {a a' : ApicState} (filled : Filled madt n vmm seen a) {p : Nat}
    (other : ¬ enabledLapic madt p = true) (index : a'.index = a.index) (cores : a'.cores = a.cores)
    (mapping : a'.called = false → a'.vmm = a.vmm ∧ a.called = false) : Filled madt n vmm (seen ++ [p]) a' := by
  have same := filter_skip seen other
  refine ⟨?_, ?_, fun none => ?_⟩
  · rw [index, filled.index, same]
  · rw [cores, filled.cores, index, coresFor, coresFor, same]
  · rw [(mapping none).1, filled.mapping (mapping none).2]

theorem Filled.set {seen : List Nat} {a : ApicState} (filled : Filled madt n vmm seen a) {p : Nat}
    (enabled : enabledLapic madt p = true) (room : ((seen ++ [p]).filter (enabledLapic madt)).length ≤ n) :
    ∃ a', coresTableSet a.index (coreOf madt a.index p) { a with index := a.index + 1 } = .ok a' ∧
      Filled madt n vmm (seen ++ [p]) a' := by
  have count : ((seen ++ [p]).filter (enabledLapic madt)).length = a.index + 1 := by
    rw [List.filter_append, List.filter_cons_of_pos enabled, List.filter_nil, List.length_append, filled.index]
    rfl
  rw [count] at room
  have placed : (coresFor madt seen).length = a.index := by rw [length_coresFor, filled.index]
  have left : n - a.index = n - (a.index + 1) + 1 := by omega
  have inside : ¬ a.cores.length ≤ a.index := by
    rw [filled.cores, List.length_append, placed, List.length_replicate]
    omega
  refine ⟨{ a with index := a.index + 1, cores := a.cores.set a.index (some (coreOf madt a.index p)) },
    if_neg inside, count.symm, ?_, filled.mapping⟩
  -- the next free element is the one behind those that are set
  change a.cores.set a.index _ = coresFor madt (seen ++ [p]) ++ List.replicate (n - (a.index + 1)) none
  rw [filled.cores, List.set_append_right _ _ (Nat.le_of_eq placed), placed, Nat.sub_self, left, List.replicate_succ,
    List.set_cons_zero, coresFor_enabled seen enabled, ← filled.index, List.append_assoc, List.singleton_append]

end Fill

section Parse

variable {madt : Memory} {n : Nat} {vmm : Vmm} {seen : List Nat} {a : ApicState} {p : Nat}

/-- One record is entered or passed over, or there is a panic that is not that of the table of cores. -/
def StepEnds (madt : Memory) (n : Nat) (vmm : Vmm) (seen : List Nat) (p : Nat) (result : Exec ApicState) : Prop :=
  (∃ a', result = .ok a' ∧ Filled madt n vmm (seen ++ [p]) a') ∨ result = .error unexpectedType ∨
    result = .error repeatedType5 ∨
    ∃ e, recType madt p = 5 ∧ vmm.ioremap (lapicPhysAddr madt p) sizeofLapic = .error e ∧ result = .error e

theorem not_enabled_of_type (type : recType madt p ≠ 0) : ¬ enabledLapic madt p = true :=
  fun enabled => type (enabledLapic_iff.mp enabled).1

theorem parseType0_ends (filled : Filled madt n vmm seen a) (type : recType madt p = 0)
    (room : ((seen ++ [p]).filter (enabledLapic madt)).length ≤ n) :
    StepEnds madt n vmm seen p (madtParseRecordType0 madt p a) := by
  rw [madtParseRecordType0]
  split
  · next short =>
      refine Or.inl ⟨a, rfl, filled.skip (fun enabled => ?_) rfl rfl fun none => ⟨rfl, none⟩⟩
      exact absurd (enabledLapic_iff.mp enabled).2.1 (Nat.not_le.mpr short)
  · next long =>
      split
      · next flag =>
          refine Or.inl ⟨a, rfl, filled.skip (fun enabled => ?_) rfl rfl fun none => ⟨rfl, none⟩⟩
          exact (enabledLapic_iff.mp enabled).2.2 flag
      · next flag => exact Or.inl (filled.set (enabledLapic_iff.mpr ⟨type, Nat.not_lt.mp long, flag⟩) room)

theorem parseType5_ends (filled : Filled madt n vmm seen a) (type : recType madt p = 5) :
    StepEnds madt n vmm seen p (madtParseRecordType5 madt p a) := by
  have other : ¬ enabledLapic madt p = true := not_enabled_of_type (by rw [type]; decide)
  rw [madtParseRecordType5]
  split
  · exact Or.inl ⟨a, rfl, filled.skip other rfl rfl fun none => ⟨rfl, none⟩⟩
  · split
    · exact Or.inr (Or.inr (Or.inl rfl))
    · next first =>
        rw [filled.mapping (Bool.eq_false_iff.mpr first)]
        cases mapped : vmm.ioremap (lapicPhysAddr madt p) sizeofLapic with
        | error e => exact Or.inr (Or.inr (Or.inr ⟨e, type, mapped, rfl⟩))
        | ok r => exact Or.inl ⟨_, rfl, filled.skip other rfl rfl fun none => absurd none Bool.noConfusion⟩

theorem Filled.passes (filled : Filled madt n vmm seen a) (type : recType madt p ≠ 0) (ioapic : Ioapic)
    (irqOverrides : Nat → IrqOverride) :
    StepEnds madt n vmm seen p (.ok { a with ioapic := ioapic, irqOverrides := irqOverrides }) :=
  Or.inl ⟨_, rfl, filled.skip (not_enabled_of_type type) rfl rfl fun none => ⟨rfl, none⟩⟩

theorem parseType1_ioapic (madt : Memory) (p : Nat) (a : ApicState) :
    ∃ ioapic, madtParseRecordType1 madt p a = { a with ioapic := ioapic } := by
  rw [madtParseRecordType1]
  split
  · exact ⟨a.ioapic, rfl⟩
  · split
    · exact ⟨a.ioapic, rfl⟩
    · exact ⟨_, rfl⟩

theorem parseType2_overrides (madt : Memory) (p : Nat) (a : ApicState) :
    ∃ irqOverrides, madtParseRecordType2 madt p a = { a with irqOverrides := irqOverrides } := by
  rw [madtParseRecordType2]
  split
  · exact ⟨a.irqOverrides, rfl⟩
  · split
    · exact ⟨a.irqOverrides, rfl⟩
    · exact ⟨_, rfl⟩

theorem parseRecord_ends (filled : Filled madt n vmm seen a)
    (room : ((seen ++ [p]).filter (enabledLapic madt)).length ≤ n) :
    StepEnds madt n vmm seen p (madtParseRecord madt p a) := by
  have logged : Filled madt n vmm seen { a with dispatched := a.dispatched ++ [p] } :=
    ⟨filled.index, filled.cores, filled.mapping⟩
  rw [madtParseRecord]
  split
  · next type => exact parseType0_ends logged type room
  · next type =>
      obtain ⟨ioapic, same⟩ := parseType1_ioapic madt p { a with dispatched := a.dispatched ++ [p] }
      rw [same]
      exact logged.passes (by rw [type]; decide) ioapic a.irqOverrides
  · next type =>
      obtain ⟨irqOverrides, same⟩ := parseType2_overrides madt p { a with dispatched := a.dispatched ++ [p] }
      rw [same]
      exact logged.passes (by rw [type]; decide) a.ioapic irqOverrides
  · next type => exact logged.passes (by rw [type]; decide) a.ioapic a.irqOverrides
  · next type => exact logged.passes (by rw [type]; decide) a.ioapic a.irqOverrides
  · next type => exact parseType5_ends logged type
  · exact Or.inr (Or.inl rfl)

/-- The records `seen` have been parsed and `rest` are to come. -/
theorem fold_ends (rest seen : List Nat) (a : ApicState) (filled : Filled madt n vmm seen a)
    (count : ((seen ++ rest).filter (enabledLapic madt)).length = n) :
    Ending madt vmm (seen ++ rest) (rest.foldlM (fun a p => madtParseRecord madt p a) a) := by
  induction rest generalizing seen a with
  | nil =>
      rw [List.append_nil] at count ⊢
      refine .complete ?_
      rw [filled.cores, filled.index, count, Nat.sub_self, List.replicate_zero, List.append_nil]
  | cons p rest ih =>
      have shift : seen ++ p :: rest = (seen ++ [p]) ++ rest := by rw [List.append_assoc, List.singleton_append]
      have room : ((seen ++ [p]).filter (enabledLapic madt)).length ≤ n := by
        rw [shift, List.filter_append, List.length_append] at count
        omega
      rw [List.foldlM_cons]
      rcases parseRecord_ends filled room with ⟨a', done, later⟩ | failed | failed | ⟨e, type, unmapped, failed⟩
      · rw [done]
        rw [shift] at count ⊢
        exact ih (seen ++ [p]) a' later count
      · rw [failed]
        exact .unexpected
      · rw [failed]
        exact .repeated
      · rw [failed]
        exact .unmapped (List.mem_append_right seen List.mem_cons_self) type unmapped

end Parse

/-- After a count of `n`, the second pass ends: it enters the enabled cores in order and fills the table, or it
panics for a record of an unknown type, for a second one of type 5 or because the address in one cannot be
mapped. The table of cores is never too small. -/
theorem passes_agree {madt : Memory} {fuel n : Nat} (counted : madtCountCores madt fuel = .ok n) {kzallocOk : Bool}
    {boot a : ApicState} (atBoot : AtBoot boot) (initialised : coresTableInit kzallocOk n boot = .ok a) :
    ∃ records, Walk madt firstMadtRecordOffset records ∧ (coresFor madt records).length = n ∧
      (∀ fuel', madtParseRecoreds madt fuel' a ≠ .error coresRange) ∧
      ∃ fuel', Ending madt a.vmm records (madtParseRecoreds madt fuel' a) := by
  obtain ⟨records, walk, total⟩ := forRecords_counts counted
  rw [Nat.zero_add] at total
  have empty : Filled madt n a.vmm [] a := by
    rw [coresTableInit] at initialised
    split at initialised
    · cases initialised
      refine ⟨atBoot.index, ?_, fun _ => rfl⟩
      change List.replicate n none = [] ++ List.replicate (n - boot.index) none
      rw [atBoot.index, Nat.sub_zero, List.nil_append]
    · cases initialised
  have ending := fold_ends records [] a empty total.symm
  rw [List.nil_append] at ending
  refine ⟨records, walk, by rw [length_coresFor, total], fun fuel' => ?_, records.length + 1, ?_⟩
  · rcases walk.any fuel' a with short | fold
    · rw [madtParseRecoreds, short]
      exact fun same => absurd (Except.error.inj same) (by decide)
    · rw [madtParseRecoreds, fold]
      exact ending.range
  · rw [madtParseRecoreds, walk.enough]
    exact ending

theorem passes_agree_twoRecords :
    ∃ records, Walk twoRecords firstMadtRecordOffset records ∧ (coresFor twoRecords records).length = 1 ∧
      (∀ fuel', madtParseRecoreds twoRecords fuel' oneCore ≠ .error coresRange) ∧
      ∃ fuel', Ending twoRecords oneCore.vmm records (madtParseRecoreds twoRecords fuel' oneCore) :=
  passes_agree (show madtCountCores twoRecords 2 = .ok 1 from rfl) (⟨rfl, rfl⟩ : AtBoot oneCore)
    (show coresTableInit true 1 oneCore = .ok oneCore from rfl)

/-- A core, a record of type 5 with an address in the usable memory, and an I/O APIC. -/
def ramMadt : Memory := fun i =>
  if i = 4 then 76 else if i = 45 then 8 else if i = 48 then 1 else if i = 52 then 5 else if i = 53 then 12
  else if i = 58 then 0x80 else if i = 64 then 1 else if i = 65 then 12 else 0

theorem ramMadt_stops {vmm : Vmm} {e : Fault} (unmapped : vmm.ioremap 0x800000 sizeofLapic = .error e) :
    madtParseRecoreds ramMadt 3 { oneCore with vmm := vmm } = .error e := by
  have address : lapicPhysAddr ramMadt 52 = 0x800000 := by decide
  have second (a : ApicState) (first : a.called = false) (same : a.vmm = vmm) :
      madtParseRecord ramMadt 52 a = .error e := by
    change madtParseRecordType5 ramMadt 52 _ = _
    rw [madtParseRecordType5, if_neg (by decide), if_neg (by rw [first]; decide), address, same, unmapped]
    rfl
  rw [madtParseRecoreds, forRecords, if_pos (by decide)]
  change (forRecords ramMadt _ 2 52 _) = _
  rw [forRecords, if_pos (by decide), second _ rfl rfl]
  rfl

theorem ioremap_ram : gapStart.ioremap 0x800000 sizeofLapic = .error existingHuge := by
  have pgd : gapStart.kernelPgd = 0x200000 := by decide +kernel
  have address : physToVirt 0x800000 = 0xffff888000800000 := by decide +kernel
  have aligned : pageAlignDown 0x800000 = 0x800000 := by decide
  have size : pageAlignUp ((sizeofLapic + (0x800000 - 0x800000)) % word64) = 0x1000 := by decide
  have small : gapStart.mmu.pageKind 0xffff888000800000 0x800000 0x1000 = .page4k := by decide +kernel
  have pud : pgdToPud (gapStart.mmu.tables 0x200000 (pgdIndex 0xffff888000800000)) = 0x201000 := by decide +kernel
  have pmd : pudToPmd (gapStart.mmu.tables 0x201000 (pudIndex 0xffff888000800000)) = 0x202000 := by decide +kernel
  have walk : gapStart.mmu.mmuWalk 0x200000 0xffff888000800000 .pte = .ok (none, gapStart.mmu) :=
    mmuWalk_large (by decide +kernel) pud (by decide +kernel) (by decide +kernel) pmd (by decide +kernel)
  rw [Vmm.ioremap, aligned, address, size, pgd, Mmu.mmuMapRange, if_neg (by decide), if_neg (by decide),
    Mmu.mmuMapLoop, if_pos (by decide), small, Mmu.mmuMapOne, Mmu.levelOf, walk]
  rfl

/-- The first pass counts one core, and the second panics in `ioremap`, which finds the address in a large page of the
direct map. -/
theorem ioremap_stops_second_pass :
    vmmInit gapEarly.clean pageKernel.kernelEnd sampleMmu = .ok (0, gapStart) ∧
      madtCountCores ramMadt 3 = .ok 1 ∧
      madtParseRecoreds ramMadt 3 { oneCore with vmm := gapStart } = .error existingHuge ∧
      existingHuge ≠ unexpectedType ∧ existingHuge ≠ repeatedType5 :=
  ⟨gapInit_eq, rfl, ramMadt_stops ioremap_ram, by decide, by decide⟩

end SnapOS.Apic
