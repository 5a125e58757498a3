/- The search for an ACPI table among the entries of the root table. -/
import SnapOS.AddressSpaces
import SnapOS.Lib.Bytes
import SnapOS.Lib.Steps

namespace SnapOS.Acpi
open SnapOS.Lib SnapOS.Paging

def sizeofAcpiHeader : Nat := 36
def rsdtSignature : List UInt8 := [82, 83, 68, 84]
def xsdtSignature : List UInt8 := [88, 83, 68, 84]

/-- The page tables. `examined` is a ghost record of the entries that were read, by their offset in the root table, and
no function reads it. -/
structure Search where
  vmm : Vmm
  examined : List Nat

/-- The search goes on with the page tables that a mapping leaves. -/
def Search.mapped (s : Search) : Exec (Nat × Vmm) → EStateM.Result Fault Search Nat
  | .ok r => .ok r.1 { s with vmm := r.2 }
  | .error e => .error e s

def ioremap (paddr size : Nat) : Steps Search Nat := fun s => s.mapped (s.vmm.ioremap paddr size)

section Tables

-- Physical memory; a pointer into the direct map is given by its physical address.
variable (phys : Memory)

def sumBytes (ptr : Nat) : Nat → UInt8
  | 0 => 0
  | i + 1 => sumBytes ptr i + phys (ptr + i)

def verifyChecksum (ptr len : Nat) : Bool := sumBytes phys ptr len == 0

/-- `memcmp` of the four bytes of the signature. -/
def signatureIs (header : Nat) (signature : List UInt8) : Bool :=
  (List.range 4).all fun i => phys (header + i) == signature.getD i 0

def headerLength (header : Nat) : Nat := phys.load (header + 4) 4

def validateSdtHeader (header : Nat) (xsdt : Bool) : Bool :=
  signatureIs phys header (if xsdt then xsdtSignature else rsdtSignature) &&
    verifyChecksum phys header (headerLength phys header)

def isXsdt (rsdp : Nat) : Bool := phys (rsdp + 15) == 2

def sdtAddr (rsdp : Nat) : Nat :=
  if isXsdt phys rsdp then phys.load (rsdp + 24) 8 else phys.load (rsdp + 16) 4

def entrySize (xsdt : Bool) : Nat := if xsdt then 8 else 4

/-- The difference is one of `size_t`, and the quotient is cut to 32 bits. -/
def entryCount (length size : Nat) : Nat := (length + (word64 - sizeofAcpiHeader)) % word64 / size % word32

def searchEntries (sdt size : Nat) (singature : List UInt8) : Nat → Nat → Steps Search (Option Nat)
  | 0, _ => pure none
  | n + 1, offset => do
      let s ← get
      set { s with examined := s.examined ++ [offset] }
      let entry := phys.load (sdt + offset) size
      let _ ← ioremap entry sizeofAcpiHeader
      if !signatureIs phys entry singature then searchEntries sdt size singature n (offset + size)
      else do
        let _ ← ioremap entry (headerLength phys entry)
        if verifyChecksum phys entry (headerLength phys entry) then pure (some (physToVirt entry))
        else searchEntries sdt size singature n (offset + size)

def sdtFind (rsdp : Nat) (singature : List UInt8) : Steps Search (Option Nat) := do
  let sdt := sdtAddr phys rsdp
  let size := entrySize (isXsdt phys rsdp)
  let _ ← ioremap sdt sizeofAcpiHeader
  if !validateSdtHeader phys sdt (isXsdt phys rsdp) then pure none
  else do
    let _ ← ioremap sdt (headerLength phys sdt)
    searchEntries phys sdt size singature (entryCount (headerLength phys sdt) size) sizeofAcpiHeader

end Tables

def entryOffsets (length size : Nat) : List Nat :=
  List.range' sizeofAcpiHeader ((length - sizeofAcpiHeader) / size) size

/-- The entries that a search reads are inside the root table, it comes to all of them unless it ends at one,
and a table that is too short for its header has none read. -/
structure StaysInTable (phys : Memory) (vmm : Vmm) (rsdp : Nat) (singature : List UInt8) : Prop where
  inside : ∀ offset ∈ ((sdtFind phys rsdp singature).final ⟨vmm, []⟩).examined, sizeofAcpiHeader ≤ offset ∧
    offset + entrySize (isXsdt phys rsdp) ≤ headerLength phys (sdtAddr phys rsdp)
  ordered : ((sdtFind phys rsdp singature).final ⟨vmm, []⟩).examined <+:
    entryOffsets (headerLength phys (sdtAddr phys rsdp)) (entrySize (isXsdt phys rsdp))
  exhaustive : ∀ s, validateSdtHeader phys (sdtAddr phys rsdp) (isXsdt phys rsdp) = true →
    sdtFind phys rsdp singature ⟨vmm, []⟩ = .ok none s →
    s.examined = entryOffsets (headerLength phys (sdtAddr phys rsdp)) (entrySize (isXsdt phys rsdp))
  rejected : headerLength phys (sdtAddr phys rsdp) < sizeofAcpiHeader →
    ((sdtFind phys rsdp singature).final ⟨vmm, []⟩).examined = []

/-- The root table is accepted, and can be mapped. -/
def TableReady (phys : Memory) (vmm : Vmm) (rsdp : Nat) : Prop :=
  ∃ header table : Nat × Vmm, vmm.ioremap (sdtAddr phys rsdp) sizeofAcpiHeader = .ok header ∧
    validateSdtHeader phys (sdtAddr phys rsdp) (isXsdt phys rsdp) = true ∧
    header.2.ioremap (sdtAddr phys rsdp) (headerLength phys (sdtAddr phys rsdp)) = .ok table

/-! The loop. -/

theorem ioremap_ok {paddr size : Nat} {s : Search} {r : Nat × Vmm} (done : s.vmm.ioremap paddr size = .ok r) :
    ioremap paddr size s = .ok r.1 { s with vmm := r.2 } := congrArg s.mapped done

theorem ioremap_error {paddr size : Nat} {s : Search} {e : Fault} (failed : s.vmm.ioremap paddr size = .error e) :
    ioremap paddr size s = .error e s := congrArg s.mapped failed

/-- A search of `n` entries from `offset` on has read the first `k` of them, and all if it returns nothing. -/
def Examines (n offset size : Nat) (s : Search) (x : Steps Search (Option Nat)) : Prop :=
  ∃ k, k ≤ n ∧ (0 < n → 0 < k) ∧ (x.final s).examined = s.examined ++ List.range' offset k size ∧
    ∀ t, x s = .ok none t → k = n

section Loop

variable (phys : Memory) (sdt size : Nat) (singature : List UInt8)

theorem Examines.next {n offset size : Nat} {s t : Search} {x y : Steps Search (Option Nat)} (same : x s = y t)
    (read : t.examined = s.examined ++ [offset]) (later : Examines n (offset + size) size t y) :
    Examines (n + 1) offset size s x := by
  obtain ⟨k, atMost, -, examined, all⟩ := later
  refine ⟨k + 1, Nat.succ_le_succ atMost, fun _ => Nat.succ_pos k, ?_, fun u done => ?_⟩
  · rw [Steps.final_of_eq same, examined, read, List.range'_succ, List.append_assoc, List.singleton_append]
  · rw [all u (same.symm.trans done)]

theorem Examines.last {n offset size : Nat} {s : Search} {x : Steps Search (Option Nat)}
    (read : (x.final s).examined = s.examined ++ [offset]) (ends : ∀ t, x s ≠ .ok none t) :
    Examines (n + 1) offset size s x :=
  ⟨1, Nat.succ_le_succ (Nat.zero_le n), fun _ => Nat.zero_lt_one, read, fun t done => absurd done (ends t)⟩

theorem searchEntries_examines (n offset : Nat) (s : Search) :
    Examines n offset size s (searchEntries phys sdt size singature n offset) := by
  induction n generalizing offset s with
  | zero => exact ⟨0, Nat.le_refl 0, fun none => none, (List.append_nil _).symm, fun _ _ => rfl⟩
  | succ n ih =>
      have begin : searchEntries phys sdt size singature (n + 1) offset s =
          (ioremap (phys.load (sdt + offset) size) sizeofAcpiHeader >>= fun _ =>
            if !signatureIs phys (phys.load (sdt + offset) size) singature then
              searchEntries phys sdt size singature n (offset + size)
            else ioremap (phys.load (sdt + offset) size)
              (headerLength phys (phys.load (sdt + offset) size)) >>= fun _ =>
              if verifyChecksum phys (phys.load (sdt + offset) size) (headerLength phys (phys.load (sdt + offset) size))
              then pure (some (physToVirt (phys.load (sdt + offset) size)))
              else searchEntries phys sdt size singature n (offset + size))
          { s with examined := s.examined ++ [offset] } := by
        rw [searchEntries, Steps.get_bind, Steps.set_bind]
      generalize phys.load (sdt + offset) size = entry at begin
      have read : ({ s with examined := s.examined ++ [offset] } : Search).examined = s.examined ++ [offset] := rfl
      generalize ({ s with examined := s.examined ++ [offset] } : Search) = t at begin read
      cases first : t.vmm.ioremap entry sizeofAcpiHeader with
      | error e =>
          rw [Steps.bind_error (ioremap_error first)] at begin
          exact .last (by rw [Steps.final, begin, read]) fun u done => by rw [begin] at done; cases done
      | ok r =>
          rw [Steps.bind_ok (ioremap_ok first)] at begin
          split at begin
          · exact .next begin read (ih (offset + size) _)
          · cases second : r.2.ioremap entry (headerLength phys entry) with
            | error e =>
                rw [Steps.bind_error (ioremap_error second)] at begin
                exact .last (by rw [Steps.final, begin]; exact read) fun u done => by rw [begin] at done; cases done
            | ok r' =>
                rw [Steps.bind_ok (ioremap_ok second)] at begin
                split at begin
                · exact .last (by rw [Steps.final, begin]; exact read) fun u done => by rw [begin] at done; cases done
                · exact .next begin read (ih (offset + size) _)

end Loop

/-! The whole search. -/

theorem entrySize_cases (xsdt : Bool) : entrySize xsdt = 8 ∨ entrySize xsdt = 4 := by
  cases xsdt
  · exact Or.inr rfl
  · exact Or.inl rfl

/-- With a length that covers the header, nothing wraps around and nothing is cut. -/
theorem entryCount_eq {length : Nat} (covers : sizeofAcpiHeader ≤ length) (small : length < word32) (size : Nat) :
    entryCount length size = (length - sizeofAcpiHeader) / size := by
  have difference : (length + (word64 - sizeofAcpiHeader)) % word64 = length - sizeofAcpiHeader := by
    simp only [sizeofAcpiHeader, word32, word64] at *
    omega
  have quotient := Nat.div_le_self (length - sizeofAcpiHeader) size
  rw [entryCount, difference, Nat.mod_eq_of_lt (by omega)]

theorem entryCount_pos {length : Nat} (short : length < sizeofAcpiHeader) (xsdt : Bool) :
    0 < entryCount length (entrySize xsdt) := by
  rw [entryCount]
  simp only [sizeofAcpiHeader, word32, word64] at *
  rcases entrySize_cases xsdt with size | size
  · rw [size]
    omega
  · rw [size]
    omega

theorem mem_entryOffsets {length size offset : Nat} (member : offset ∈ entryOffsets length size) :
    sizeofAcpiHeader ≤ offset ∧ offset + size ≤ length := by
  obtain ⟨i, below, rfl⟩ := List.mem_range'.mp member
  have whole := Nat.div_mul_le_self (length - sizeofAcpiHeader) size
  have entry : (i + 1) * size ≤ (length - sizeofAcpiHeader) / size * size := Nat.mul_le_mul_right size below
  rw [Nat.succ_mul, Nat.mul_comm i] at entry
  have some : 0 < (length - sizeofAcpiHeader) / size := Nat.zero_lt_of_lt below
  have covers : 0 < length - sizeofAcpiHeader := Nat.pos_of_ne_zero fun none => by
    rw [none, Nat.zero_div] at some
    exact absurd some (Nat.lt_irrefl 0)
  omega

section Find

variable {phys : Memory} {vmm : Vmm} {rsdp : Nat} (singature : List UInt8)

/-- A table that is not ready has no entry read, and nothing is returned for one that is accepted. -/
theorem sdtFind_unready (unready : ¬ TableReady phys vmm rsdp) :
    ((sdtFind phys rsdp singature).final ⟨vmm, []⟩).examined = [] ∧
      ∀ s, validateSdtHeader phys (sdtAddr phys rsdp) (isXsdt phys rsdp) = true →
        sdtFind phys rsdp singature ⟨vmm, []⟩ ≠ .ok none s := by
  rw [Steps.final]
  cases header : vmm.ioremap (sdtAddr phys rsdp) sizeofAcpiHeader with
  | error e =>
      rw [sdtFind, Steps.bind_error (ioremap_error header)]
      exact ⟨rfl, fun _ _ => by rintro ⟨⟩⟩
  | ok r =>
      rw [sdtFind, Steps.bind_ok (ioremap_ok header)]
      cases accepted : validateSdtHeader phys (sdtAddr phys rsdp) (isXsdt phys rsdp) with
      | false => exact ⟨rfl, fun _ valid => by cases valid⟩
      | true =>
          rw [if_neg (by decide)]
          cases table : r.2.ioremap (sdtAddr phys rsdp) (headerLength phys (sdtAddr phys rsdp)) with
          | error e =>
              rw [Steps.bind_error (ioremap_error table)]
              exact ⟨rfl, fun _ _ => by rintro ⟨⟩⟩
          | ok r' => exact absurd ⟨r, r', header, accepted, table⟩ unready

theorem sdtFind_ready (ready : TableReady phys vmm rsdp) :
    Examines (entryCount (headerLength phys (sdtAddr phys rsdp)) (entrySize (isXsdt phys rsdp))) sizeofAcpiHeader
      (entrySize (isXsdt phys rsdp)) ⟨vmm, []⟩ (sdtFind phys rsdp singature) := by
  obtain ⟨header, table, mapped, accepted, whole⟩ := ready
  have same : sdtFind phys rsdp singature ⟨vmm, []⟩ =
      searchEntries phys (sdtAddr phys rsdp) (entrySize (isXsdt phys rsdp)) singature
        (entryCount (headerLength phys (sdtAddr phys rsdp)) (entrySize (isXsdt phys rsdp))) sizeofAcpiHeader
        ⟨table.2, []⟩ := by
    rw [sdtFind, Steps.bind_ok (ioremap_ok mapped), if_neg (by rw [accepted]; decide),
      Steps.bind_ok (ioremap_ok whole)]
  obtain ⟨k, atMost, some, examined, all⟩ := searchEntries_examines phys (sdtAddr phys rsdp)
    (entrySize (isXsdt phys rsdp)) singature
    (entryCount (headerLength phys (sdtAddr phys rsdp)) (entrySize (isXsdt phys rsdp))) sizeofAcpiHeader ⟨table.2, []⟩
  exact ⟨k, atMost, some, by rw [Steps.final_of_eq same, examined], fun t done => all t (same.symm.trans done)⟩

/-- A search in a table that is too short leaves it. -/
theorem not_staysInTable (ready : TableReady phys vmm rsdp)
    (short : headerLength phys (sdtAddr phys rsdp) < sizeofAcpiHeader) :
    ¬ StaysInTable phys vmm rsdp singature := by
  intro stays
  obtain ⟨k, -, some, examined, -⟩ := sdtFind_ready singature ready
  rw [stays.rejected short, List.nil_append] at examined
  have length := congrArg List.length examined
  rw [List.length_nil, List.length_range'] at length
  have := some (entryCount_pos short _)
  omega

end Find

/-- The search stays in its table unless it accepts one that is shorter than its header. -/
theorem sdtFind_staysInTable_iff (phys : Memory) (vmm : Vmm) (rsdp : Nat) (singature : List UInt8) :
    StaysInTable phys vmm rsdp singature ↔
      (TableReady phys vmm rsdp → sizeofAcpiHeader ≤ headerLength phys (sdtAddr phys rsdp)) := by
  constructor
  · exact fun stays ready => Nat.le_of_not_lt fun short => not_staysInTable singature ready short stays
  · intro covers
    by_cases ready : TableReady phys vmm rsdp
    · obtain ⟨k, atMost, -, examined, all⟩ := sdtFind_ready singature ready
      have length := covers ready
      rw [entryCount_eq length (Memory.load_lt phys _ 4)] at atMost all
      have front : List.range' sizeofAcpiHeader k (entrySize (isXsdt phys rsdp)) <+:
          entryOffsets (headerLength phys (sdtAddr phys rsdp)) (entrySize (isXsdt phys rsdp)) :=
        ⟨_, by rw [List.range'_append, Nat.add_sub_cancel' atMost, entryOffsets]⟩
      rw [List.nil_append] at examined
      rw [← examined] at front
      refine ⟨fun offset member => mem_entryOffsets (front.subset member), front, fun s _ done => ?_,
        fun short => absurd length (Nat.not_le.mpr short)⟩
      rw [← Steps.final_ok done, examined, all s done, entryOffsets]
    · obtain ⟨none, ends⟩ := sdtFind_unready singature ready
      refine ⟨fun offset member => ?_, by rw [none]; exact List.nil_prefix,
        fun s valid done => absurd done (ends s valid),
        fun _ => none⟩
      rw [none] at member
      cases member

/-- An RSDP at 0xE0000 with an RSDT at 0x7FFE0000 that has its signature and nothing else. -/
def emptyRsdt : Memory := fun a =>
  if a = 0xE0012 then 0xFE else if a = 0xE0013 then 0x7F else if a = 0x7FFE0000 then 82 else if a = 0x7FFE0001 then 83
  else if a = 0x7FFE0002 then 68 else if a = 0x7FFE0003 then 84 else 0

/-- A length of zero passes the checksum, and the entries are read behind the end of the table. -/
theorem emptyRsdt_left : ¬ StaysInTable emptyRsdt sampleStart 0xE0000 [65, 80, 73, 67] := by
  have address : sdtAddr emptyRsdt 0xE0000 = 0x7FFE0000 := by decide
  have length : headerLength emptyRsdt 0x7FFE0000 = 0 := by decide
  obtain ⟨table, mapped⟩ := Exec.exists_ok (by decide +kernel :
    (sampleStart.ioremap 0x7FFE0000 sizeofAcpiHeader >>= fun header =>
      header.2.ioremap 0x7FFE0000 0).toOption.isSome = true)
  obtain ⟨header, first, second⟩ := Exec.bind_eq_ok.mp mapped
  refine not_staysInTable _ ⟨header, table, ?_, by decide, ?_⟩ ?_
  · rw [address]
    exact first
  · rw [address, length]
    exact second
  · rw [address, length]
    decide

end SnapOS.Acpi
