/- The AHCI table of physical regions: how the driver fills it for a list of iovecs. -/
import SnapOS.Lib.Spans
import SnapOS.Platform
import Mathlib.Logic.Function.Basic

namespace SnapOS.Ahci
open SnapOS.Lib

def eIo : Int := 5

/-! The physical region descriptor table. -/

def ahciPhysicalRegionMaxLength : Nat := 0x400000

structure PhysIovec where
  addr : Nat
  length : Nat
deriving DecidableEq, Repr

/-- `dbc` is a field of 22 bits, one less than the byte count. -/
structure HbaPrdtEntry where
  dba : Nat
  dbau : Nat
  rsv0 : Nat
  dbc : Nat
  rsv1 : Nat
  i : Nat
deriving DecidableEq, Repr

def HbaPrdtEntry.write (e : HbaPrdtEntry) (addr chunckSize : Nat) : HbaPrdtEntry :=
  { e with
    dba := addr % word32
    dbau := addr / 2 ^ 32 % word32
    dbc := (chunckSize - 1) % 2 ^ 22 }

abbrev Prdt := Nat → HbaPrdtEntry

def chunckSize (bytesLeft : Nat) : Nat :=
  if ahciPhysicalRegionMaxLength < bytesLeft then ahciPhysicalRegionMaxLength else bytesLeft

theorem chunckSize_eq (bytesLeft : Nat) : chunckSize bytesLeft = min ahciPhysicalRegionMaxLength bytesLeft := by
  rw [chunckSize]
  split <;> omega

/-- The inner loop, for one iovec: the next free index, or none if the table is full. -/
def buildPrdtWhile (maxEntries addr bytesLeft index : Nat) (prdt : Prdt) : Option Nat × Prdt :=
  if bytesLeft = 0 then (some index, prdt)
  else if maxEntries ≤ index then (none, prdt)
  else
    buildPrdtWhile maxEntries ((addr + chunckSize bytesLeft) % word64) (bytesLeft - chunckSize bytesLeft)
      ((index + 1) % 2 ^ 16) (Function.update prdt index ((prdt index).write addr (chunckSize bytesLeft)))
termination_by bytesLeft
decreasing_by
  simp only [chunckSize_eq, ahciPhysicalRegionMaxLength]
  omega

def buildPrdtFor (maxEntries : Nat) : List PhysIovec → Nat → Prdt → Int × Prdt
  | [], index, prdt => (index, prdt)
  | v :: rest, index, prdt =>
      match buildPrdtWhile maxEntries v.addr v.length index prdt with
      | (none, prdt) => (-eNoMem, prdt)
      | (some index, prdt) => buildPrdtFor maxEntries rest index prdt

def ahciBuildPrdt (prdt : Prdt) (maxEntries : Nat) (iovecs : List PhysIovec) : Int × Prdt :=
  buildPrdtFor maxEntries iovecs 0 prdt

/-! What an entry says to the controller, and what the table has to say. -/

def HbaPrdtEntry.span (e : HbaPrdtEntry) : Span := ⟨e.dba + e.dbau * 2 ^ 32, e.dbc + 1⟩

def PhysIovec.span (v : PhysIovec) : Span := ⟨v.addr, v.length⟩

def regions (iovecs : List PhysIovec) : List Span :=
  iovecs.flatMap fun v => v.span.cut ahciPhysicalRegionMaxLength

theorem regions_cons (v : PhysIovec) (rest : List PhysIovec) :
    regions (v :: rest) = v.span.cut ahciPhysicalRegionMaxLength ++ regions rest := List.flatMap_cons

/-- The number of entries that the iovecs take: the sum of their lengths divided by 4 MiB, each rounded up. -/
def entriesNeeded : List PhysIovec → Nat
  | [] => 0
  | v :: rest => Span.pieces ahciPhysicalRegionMaxLength v.length + entriesNeeded rest

theorem length_regions (iovecs : List PhysIovec) : (regions iovecs).length = entriesNeeded iovecs := by
  induction iovecs with
  | nil => rfl
  | cons v rest ih =>
      rw [regions_cons, List.length_append, Span.length_cut, entriesNeeded, ih]
      rfl

structure OneEntry (s : Span) : Prop where
  nonempty : 1 ≤ s.length
  atMost : s.length ≤ ahciPhysicalRegionMaxLength
  inside : s.start + s.length ≤ word64

theorem oneEntry_of_regions {iovecs : List PhysIovec} (valid : ∀ v ∈ iovecs, v.addr + v.length ≤ word64) {s : Span}
    (member : s ∈ regions iovecs) : OneEntry s := by
  obtain ⟨v, listed, piece⟩ := List.mem_flatMap.mp member
  obtain ⟨nonempty, atMost, -, inside⟩ := Span.mem_cut (by decide) piece
  exact ⟨nonempty, atMost, Nat.le_trans inside (valid v listed)⟩

theorem addresses_regions (iovecs : List PhysIovec) :
    (regions iovecs).flatMap Span.addresses = iovecs.flatMap fun v => v.span.addresses := by
  rw [regions, List.flatMap_assoc]
  exact congrArg (iovecs.flatMap ·) (funext fun v => Span.addresses_cut (by decide) v.span)

theorem write_span {s : Span} (e : HbaPrdtEntry) (fits : OneEntry s) : (e.write s.start s.length).span = s := by
  obtain ⟨nonempty, atMost, inside⟩ := fits
  obtain ⟨start, length⟩ := s
  simp only [HbaPrdtEntry.span, HbaPrdtEntry.write, Span.mk.injEq, ahciPhysicalRegionMaxLength, word32, word64] at *
  omega

/-- The controller sees the same address whether the sum wrapped around or not. -/
theorem write_wrapped (e : HbaPrdtEntry) (addr chunckSize : Nat) :
    e.write (addr % word64) chunckSize = e.write addr chunckSize := by
  simp only [HbaPrdtEntry.write, HbaPrdtEntry.mk.injEq, word32, word64, and_true]
  omega

def fill (maxEntries : Nat) : List Span → Nat → Prdt → Option Nat × Prdt
  | [], index, prdt => (some index, prdt)
  | s :: rest, index, prdt =>
      if maxEntries ≤ index then (none, prdt)
      else fill maxEntries rest (index + 1) (Function.update prdt index ((prdt index).write s.start s.length))

section Fill

variable {maxEntries : Nat}

theorem fill_append (front back : List Span) (index : Nat) (prdt : Prdt) :
    fill maxEntries (front ++ back) index prdt =
      match fill maxEntries front index prdt with
      | (none, prdt) => (none, prdt)
      | (some index, prdt) => fill maxEntries back index prdt := by
  induction front generalizing index prdt with
  | nil => rfl
  | cons s front ih =>
      rw [List.cons_append, fill, fill]
      split
      · rfl
      · exact ih _ _

/-- The inner loop writes the pieces of its iovec; the index does not come to its end. -/
theorem buildPrdtWhile_eq (small : maxEntries < 2 ^ 16) {addr' addr : Nat} (same : addr' % word64 = addr % word64)
    (bytesLeft index : Nat) (prdt : Prdt) : buildPrdtWhile maxEntries addr' bytesLeft index prdt =
      fill maxEntries (Span.cut ahciPhysicalRegionMaxLength ⟨addr, bytesLeft⟩) index prdt := by
  have positive : 0 < ahciPhysicalRegionMaxLength := by decide
  induction addr, bytesLeft using Span.cut_induction positive generalizing addr' index prdt with
  | empty addr => rw [buildPrdtWhile, if_pos rfl, Span.cut_empty positive, fill]
  | piece addr bytesLeft some ih =>
      have next : (addr' + min ahciPhysicalRegionMaxLength bytesLeft) % word64 % word64 =
          (addr + min ahciPhysicalRegionMaxLength bytesLeft) % word64 := by
        rw [Nat.mod_mod, Nat.add_mod, same, ← Nat.add_mod]
      have entry : (prdt index).write addr' (min ahciPhysicalRegionMaxLength bytesLeft) =
          (prdt index).write addr (min ahciPhysicalRegionMaxLength bytesLeft) := by
        rw [← write_wrapped _ addr', same, write_wrapped]
      rw [buildPrdtWhile, if_neg (Nat.ne_of_gt some), Span.cut_cons positive some, fill, chunckSize_eq, ih next, entry]
      split
      · rfl
      · rw [Nat.mod_eq_of_lt (show index + 1 < 2 ^ 16 by omega)]

def answer : Option Nat → Int
  | none => -eNoMem
  | some index => index

theorem buildPrdtFor_eq (small : maxEntries < 2 ^ 16) (iovecs : List PhysIovec) (index : Nat) (prdt : Prdt) :
    buildPrdtFor maxEntries iovecs index prdt =
      (answer (fill maxEntries (regions iovecs) index prdt).1, (fill maxEntries (regions iovecs) index prdt).2) := by
  induction iovecs generalizing index prdt with
  | nil => rfl
  | cons v rest ih =>
      have first : buildPrdtWhile maxEntries v.addr v.length index prdt =
          fill maxEntries (v.span.cut ahciPhysicalRegionMaxLength) index prdt := buildPrdtWhile_eq small rfl _ _ _
      rw [buildPrdtFor, first, regions_cons, fill_append]
      rcases fill maxEntries (v.span.cut ahciPhysicalRegionMaxLength) index prdt with ⟨_ | next, written⟩
      · rfl
      · exact ih next written

theorem fill_outside (spans : List Span) (index : Nat) (prdt : Prdt) {i : Nat}
    (outside : i < index ∨ index + spans.length ≤ i) : (fill maxEntries spans index prdt).2 i = prdt i := by
  induction spans generalizing index prdt with
  | nil => rfl
  | cons s rest ih =>
      rw [List.length_cons] at outside
      rw [fill]
      split
      · rfl
      · rw [ih _ _ (by omega), Function.update_of_ne (by omega)]

theorem fill_full (spans : List Span) {index : Nat} (atMost : index ≤ maxEntries) (prdt : Prdt)
    (full : maxEntries < index + spans.length) : (fill maxEntries spans index prdt).1 = none := by
  induction spans generalizing index prdt with
  | nil =>
      rw [List.length_nil] at full
      omega
  | cons s rest ih =>
      rw [List.length_cons] at full
      rw [fill]
      split
      · rfl
      · exact ih (by omega) _ (by omega)

theorem fill_fits (spans : List Span) {index : Nat} (prdt : Prdt) (room : index + spans.length ≤ maxEntries) :
    (fill maxEntries spans index prdt).1 = some (index + spans.length) := by
  induction spans generalizing index prdt with
  | nil => rfl
  | cons s rest ih =>
      rw [List.length_cons] at room ⊢
      rw [fill, if_neg (by omega), ih _ (by omega)]
      congr 1
      omega

theorem fill_spans {spans : List Span} (fit : ∀ s ∈ spans, OneEntry s) {index : Nat} (prdt : Prdt)
    (room : index + spans.length ≤ maxEntries) :
    (List.range' index spans.length).map (fun i => ((fill maxEntries spans index prdt).2 i).span) = spans := by
  induction spans generalizing index prdt with
  | nil => rfl
  | cons s rest ih =>
      rw [List.length_cons] at room
      rw [List.length_cons, List.range'_succ, List.map_cons, fill, if_neg (by omega),
        ih (fun s' member => fit s' (List.mem_cons_of_mem s member)) _ (by omega)]
      -- the later entries leave this one as it is
      rw [fill_outside rest _ _ (Or.inl (Nat.lt_succ_self index)), Function.update_self,
        write_span _ (fit s List.mem_cons_self)]

end Fill

/-- The first entries of the table describe the memory of the iovecs. -/
structure Describes (prdt : Prdt) (iovecs : List PhysIovec) : Prop where
  addresses : (List.range (entriesNeeded iovecs)).flatMap (fun i => (prdt i).span.addresses) =
    iovecs.flatMap fun v => v.span.addresses
  lengths : ∀ i < entriesNeeded iovecs,
    1 ≤ (prdt i).span.length ∧ (prdt i).span.length ≤ ahciPhysicalRegionMaxLength

theorem describes_of_spans {prdt : Prdt} {iovecs : List PhysIovec}
    (valid : ∀ v ∈ iovecs, v.addr + v.length ≤ word64)
    (spans : (List.range (entriesNeeded iovecs)).map (fun i => (prdt i).span) = regions iovecs) :
    Describes prdt iovecs := by
  refine ⟨?_, fun i inside => ?_⟩
  · rw [← addresses_regions, ← spans, List.flatMap_map]
  · have member : (prdt i).span ∈ regions iovecs :=
      spans ▸ List.mem_map_of_mem (List.mem_range.mpr inside)
    have fits := oneEntry_of_regions valid member
    exact ⟨fits.nonempty, fits.atMost⟩

theorem ahciBuildPrdt_eq (prdt : Prdt) {maxEntries : Nat} (small : maxEntries < 2 ^ 16) (iovecs : List PhysIovec) :
    ahciBuildPrdt prdt maxEntries iovecs =
      (answer (fill maxEntries (regions iovecs) 0 prdt).1, (fill maxEntries (regions iovecs) 0 prdt).2) :=
  buildPrdtFor_eq small iovecs 0 prdt

theorem ahciBuildPrdt_full (prdt : Prdt) {maxEntries : Nat} (small : maxEntries < 2 ^ 16) {iovecs : List PhysIovec}
    (full : maxEntries < entriesNeeded iovecs) : (ahciBuildPrdt prdt maxEntries iovecs).1 = -eNoMem := by
  rw [ahciBuildPrdt_eq prdt small, fill_full (regions iovecs) (Nat.zero_le _) prdt (by rw [length_regions]; omega)]
  rfl

theorem ahciBuildPrdt_fits (prdt : Prdt) {maxEntries : Nat} (small : maxEntries < 2 ^ 16) {iovecs : List PhysIovec}
    (room : entriesNeeded iovecs ≤ maxEntries) :
    (ahciBuildPrdt prdt maxEntries iovecs).1 = entriesNeeded iovecs := by
  rw [ahciBuildPrdt_eq prdt small, fill_fits (regions iovecs) prdt (by rw [length_regions]; omega), length_regions,
    Nat.zero_add]
  rfl

/-- The table describes exactly the memory that was asked for, or there are too few entries for it. -/
theorem ahciBuildPrdt_describes (prdt : Prdt) {maxEntries : Nat} (small : maxEntries < 2 ^ 16)
    {iovecs : List PhysIovec} (valid : ∀ v ∈ iovecs, v.addr + v.length ≤ word64) :
    ((ahciBuildPrdt prdt maxEntries iovecs).1 = -eNoMem ↔ maxEntries < entriesNeeded iovecs) ∧
      (entriesNeeded iovecs ≤ maxEntries →
        (ahciBuildPrdt prdt maxEntries iovecs).1 = entriesNeeded iovecs ∧
          Describes (ahciBuildPrdt prdt maxEntries iovecs).2 iovecs ∧
          ∀ i, entriesNeeded iovecs ≤ i → (ahciBuildPrdt prdt maxEntries iovecs).2 i = prdt i) := by
  refine ⟨⟨fun refused => ?_, ahciBuildPrdt_full prdt small⟩, fun room => ⟨ahciBuildPrdt_fits prdt small room, ?_, ?_⟩⟩
  · refine Nat.lt_of_not_le fun room => ?_
    rw [ahciBuildPrdt_fits prdt small room] at refused
    simp only [eNoMem] at refused
    omega
  · have spans := fill_spans (fun s => oneEntry_of_regions valid) prdt
      (show 0 + (regions iovecs).length ≤ maxEntries by rw [length_regions]; omega)
    rw [ahciBuildPrdt_eq prdt small]
    refine describes_of_spans valid ?_
    rw [List.range_eq_range', ← length_regions]
    exact spans
  · intro i behind
    rw [ahciBuildPrdt_eq prdt small]
    exact fill_outside (regions iovecs) 0 prdt (Or.inr (by rw [length_regions]; omega))

/-- An iovec that goes one byte beyond a region takes two entries. -/
theorem ahciBuildPrdt_describes_two :
    Describes (ahciBuildPrdt (fun _ => ⟨0, 0, 0, 0, 0, 0⟩) 248 [⟨0x1000, 0x400001⟩]).2 [⟨0x1000, 0x400001⟩] :=
  ((ahciBuildPrdt_describes (fun _ => ⟨0, 0, 0, 0, 0, 0⟩) (by decide) (by decide)).2 (by decide)).2.1

end SnapOS.Ahci
