/- The page tables of arch/x86_64/kernel/paging.c: the walk that allocates missing tables, the mapping of
ranges with pages of three sizes, and the translation the processor derives from the tables. -/
import Mathlib.Algebra.Group.Nat.Defs
import Mathlib.Logic.Function.Basic
import SnapOS.Lib.Exec
import SnapOS.Platform

namespace SnapOS.Paging
open SnapOS.Lib

def pagePresent : Nat := 1
def pageRw : Nat := 2
def pageUser : Nat := 4
def pageWriteThrough : Nat := 8
def pageCacheDisable : Nat := 16
def pagePs : Nat := 128
def pageNoExecute : Nat := 2 ^ 63

def entryPaddrMask : Nat := 0xFFFFFFFFFF000

def pageSize2m : Nat := pageSize * 1024 * 2
def pageSize1g : Nat := 1024 * 1024 * 1024

def pgdIndex (vaddr : Nat) : Nat := vaddr / 2 ^ 39 % 512
def pudIndex (vaddr : Nat) : Nat := vaddr / 2 ^ 30 % 512
def pmdIndex (vaddr : Nat) : Nat := vaddr / 2 ^ 21 % 512
def pteIndex (vaddr : Nat) : Nat := vaddr / 2 ^ 12 % 512

def present (entry : Nat) : Bool := entry &&& pagePresent ≠ 0
def large (entry : Nat) : Bool := entry &&& pagePs ≠ 0

def entryPaddr (entry : Nat) : Nat := entry &&& entryPaddrMask

def pgdToPud (pgd : Nat) : Nat := entryPaddr pgd
def pudToPmd (pud : Nat) : Nat := entryPaddr pud
def pmdToPte (pmd : Nat) : Nat := entryPaddr pmd

/-- What the frame allocator may return: a page of the 52-bit physical address space, not the first. -/
structure Frame where
  paddr : Nat
  nonNull : paddr ≠ 0
  isFrame : entryPaddr paddr = paddr
  deriving DecidableEq

/-- What `mmu_alloc_table` writes for a new table. -/
def Frame.tableEntry (f : Frame) : Nat := f.paddr ||| pagePresent ||| pageRw ||| pageUser

/-- Tables are named by the physical address of their frame; the code reaches them through the direct map.
`pool` holds what the frame allocator will return. -/
structure Mmu where
  tables : Nat → Nat → Nat
  pool : List Frame
  cpuHas1gPages : Bool

inductive MmuLevel where
  | pgd
  | pud
  | pmd
  | pte
  deriving DecidableEq, Repr

inductive PageKind where
  | page4k
  | page2m
  | page1g
  deriving DecidableEq, Repr

structure Pgprot where
  protFlags : Nat
  allowOverwrite : Bool
  deriving DecidableEq, Repr

/-- The static `is_page_aligned`, for a power of two. -/
def isPageAlignedTo (addr alignment : Nat) : Bool := addr % alignment = 0

namespace Mmu

def setEntry (m : Mmu) (table index entry : Nat) : Mmu :=
  { m with tables := Function.update m.tables table (Function.update (m.tables table) index entry) }

def fillFrame (m : Mmu) (frame : Nat) (words : Nat → Nat) : Mmu :=
  { m with tables := Function.update m.tables frame words }

def pmmCurrentAllocFrame (m : Mmu) : Option Frame × Mmu :=
  match m.pool with
  | [] => (none, m)
  | f :: rest => (some f, { m with pool := rest })

def mmuAllocTable (m : Mmu) (table index : Nat) : Exec Mmu :=
  match m.pmmCurrentAllocFrame with
  | (none, _) => Exec.panic "mmu_alloc_table: no free frames."
  | (some f, m) =>
      .ok ((m.fillFrame f.paddr fun _ => 0).setEntry table index f.tableEntry)

/-- One level of the walk: a missing table is allocated. The result is the entry as it is then. -/
def mmuEntry (m : Mmu) (table index : Nat) : Exec (Nat × Mmu) := do
  let m ← if present (m.tables table index) then .ok m else m.mmuAllocTable table index
  .ok (m.tables table index, m)

def hitsHuge (m : Mmu) (table index : Nat) : Bool :=
  present (m.tables table index) && large (m.tables table index)

/-- The entry of `vaddr` at a level, as its table and index. `none` is `hit_huge`. -/
def mmuWalk (m : Mmu) (pgd vaddr : Nat) (level : MmuLevel) : Exec (Option (Nat × Nat) × Mmu) :=
  if level = .pgd then .ok (some (pgd, pgdIndex vaddr), m)
  else do
    let (pgdEntry, m) ← m.mmuEntry pgd (pgdIndex vaddr)
    let pud := pgdToPud pgdEntry
    if level = .pud then .ok (some (pud, pudIndex vaddr), m)
    else if m.hitsHuge pud (pudIndex vaddr) then .ok (none, m)
    else do
      let (pudEntry, m) ← m.mmuEntry pud (pudIndex vaddr)
      let pmd := pudToPmd pudEntry
      if level = .pmd then .ok (some (pmd, pmdIndex vaddr), m)
      else if m.hitsHuge pmd (pmdIndex vaddr) then .ok (none, m)
      else do
        let (pmdEntry, m) ← m.mmuEntry pmd (pmdIndex vaddr)
        .ok (some (pmdToPte pmdEntry, pteIndex vaddr), m)

def levelOf : PageKind → MmuLevel
  | .page1g => .pud
  | .page2m => .pmd
  | .page4k => .pte

def chunkOf : PageKind → Nat
  | .page1g => pageSize1g
  | .page2m => pageSize2m
  | .page4k => pageSize

/-- The entry `mmu_map_one` writes. -/
def leafEntry (paddr : Nat) (size : PageKind) (opts : Pgprot) : Nat :=
  paddr ||| pagePresent ||| opts.protFlags ||| (if size ≠ .page4k then pagePs else 0)

def mmuMapOne (m : Mmu) (pgd vaddr paddr : Nat) (size : PageKind) (opts : Pgprot) : Exec Mmu := do
  match ← m.mmuWalk pgd vaddr (levelOf size) with
  | (none, _) =>
      Exec.panic "mmu_map_one: vaddr is in an existing huge mapping, i still havent implemented splitting."
  | (some (table, index), m) =>
      if present (m.tables table index) && !opts.allowOverwrite then
        Exec.panic "mmu_map_one: trying to map an already mapped vaddr with opts.allow_overwrite=false."
      else .ok (m.setEntry table index (leafEntry paddr size opts))

/-- The size of the next page: the largest that both addresses and the rest of the range allow. -/
def pageKind (m : Mmu) (vaddr paddr len : Nat) : PageKind :=
  if m.cpuHas1gPages && isPageAlignedTo vaddr pageSize1g && isPageAlignedTo paddr pageSize1g
      && pageSize1g ≤ len then .page1g
  else if isPageAlignedTo vaddr pageSize2m && isPageAlignedTo paddr pageSize2m && pageSize2m ≤ len then .page2m
  else .page4k

theorem chunkOf_pos (size : PageKind) : 0 < chunkOf size := by
  cases size <;> decide

def mmuMapLoop (opts : Pgprot) (pgd : Nat) (m : Mmu) (vaddr paddr len : Nat) : Exec Mmu :=
  if 0 < len then do
    let chunk := chunkOf (m.pageKind vaddr paddr len)
    let m ← m.mmuMapOne pgd vaddr paddr (m.pageKind vaddr paddr len) opts
    mmuMapLoop opts pgd m ((vaddr + chunk) % word64) ((paddr + chunk) % word64) (len - chunk)
  else .ok m
termination_by len
decreasing_by exact Nat.sub_lt ‹0 < len› (chunkOf_pos _)

def mmuMapRange (m : Mmu) (pgd vaddr paddr len : Nat) (opts : Pgprot) : Exec Mmu :=
  if !isPageAlignedTo vaddr pageSize || !isPageAlignedTo paddr pageSize then
    Exec.panic "mmu_map_range: vaddr/paddr not page algined"
  else if !isPageAlignedTo len pageSize then Exec.panic "mmu_map_range: len not page algined"
  else mmuMapLoop opts pgd m vaddr paddr len

end Mmu

/-- The index of `vaddr` in a table of a level, where level 3 is the PGD and level 0 the PTE. -/
def tableIndex (level vaddr : Nat) : Nat := vaddr / 2 ^ (12 + 9 * level) % 512

/-- The bytes below one entry of a level. -/
def span (level : Nat) : Nat := 2 ^ (12 + 9 * level)

/-- The entry that maps an address, with all bits that are set in every entry on the way to it and all bits
that are set in some entry. -/
structure Leaf where
  entry : Nat
  level : Nat
  every : Nat
  any : Nat
  deriving DecidableEq, Repr

def Leaf.paddr (leaf : Leaf) (vaddr : Nat) : Nat :=
  entryPaddr leaf.entry / span leaf.level * span leaf.level + vaddr % span leaf.level

/-- The permissions the processor applies: every entry has to allow writes and user accesses, one entry is
enough to forbid execution, and the leaf chooses the cache. -/
def Leaf.flags (leaf : Leaf) : Nat :=
  leaf.every &&& (pageRw ||| pageUser) ||| leaf.any &&& pageNoExecute |||
    leaf.entry &&& (pageWriteThrough ||| pageCacheDisable)

def translateFrom (tables : Nat → Nat → Nat) (vaddr : Nat) : Nat → Nat → Nat → Nat → Option Leaf
  | 0, table, every, any =>
      let entry := tables table (tableIndex 0 vaddr)
      if present entry then some ⟨entry, 0, every &&& entry, any ||| entry⟩ else none
  | n + 1, table, every, any =>
      let entry := tables table (tableIndex (n + 1) vaddr)
      if present entry then
        if n + 1 < 3 && large entry then some ⟨entry, n + 1, every &&& entry, any ||| entry⟩
        else translateFrom tables vaddr n (entryPaddr entry) (every &&& entry) (any ||| entry)
      else none

def translate (tables : Nat → Nat → Nat) (pgd vaddr : Nat) : Option Leaf :=
  translateFrom tables vaddr 3 pgd (word64 - 1) 0

theorem entryPaddr_mod (entry : Nat) : entryPaddr entry % pageSize = 0 := by
  have split : entryPaddr entry % 2 ^ 12 = entry % 2 ^ 12 &&& entryPaddrMask % 2 ^ 12 := Nat.and_mod_two_pow
  have low : entryPaddrMask % 2 ^ 12 = 0 := by decide
  rw [low, Nat.and_zero] at split
  exact split

theorem entryPaddr_page {paddr : Nat} (aligned : paddr % pageSize = 0) (bound : paddr < 2 ^ 52) :
    entryPaddr paddr = paddr := by
  have mask : entryPaddrMask = (2 ^ 52 - 1) ^^^ (2 ^ 12 - 1) := by decide
  apply Nat.eq_of_testBit_eq
  intro i
  rw [entryPaddr, mask, Nat.testBit_and, Nat.testBit_xor, Nat.testBit_two_pow_sub_one, Nat.testBit_two_pow_sub_one]
  by_cases low : i < 12
  · have zero : paddr.testBit i = false := by
      have bit := Nat.testBit_mod_two_pow paddr 12 i
      have whole : paddr % 2 ^ 12 = 0 := aligned
      rw [whole, Nat.zero_testBit, decide_eq_true low, Bool.true_and] at bit
      exact bit.symm
    rw [zero, Bool.false_and]
  · by_cases high : i < 52
    · simp [low, high]
    · have zero : paddr.testBit i = false :=
        Nat.testBit_lt_two_pow (Nat.lt_of_lt_of_le bound (Nat.pow_le_pow_right (by decide) (by omega)))
      rw [zero, Bool.false_and]

theorem Leaf.paddr_small {leaf : Leaf} (small : leaf.level = 0) {vaddr : Nat} (aligned : vaddr % pageSize = 0) :
    leaf.paddr vaddr = entryPaddr leaf.entry := by
  have whole : entryPaddr leaf.entry % span 0 = 0 := entryPaddr_mod leaf.entry
  have start : vaddr % span 0 = 0 := aligned
  rw [Leaf.paddr, small, start, Nat.add_zero]
  exact Nat.div_mul_cancel (Nat.dvd_of_mod_eq_zero whole)

theorem entryPaddr_or (a b : Nat) : entryPaddr (a ||| b) = entryPaddr a ||| entryPaddr b :=
  Nat.and_or_distrib_right a b entryPaddrMask

theorem present_or (a b : Nat) : present (a ||| b) = (present a || present b) := by
  simp only [present, Nat.and_or_distrib_right, ne_eq, Nat.or_eq_zero_iff]
  by_cases first : a &&& pagePresent = 0 <;> by_cases second : b &&& pagePresent = 0 <;> simp [first, second]

theorem large_or (a b : Nat) : large (a ||| b) = (large a || large b) := by
  simp only [large, Nat.and_or_distrib_right, ne_eq, Nat.or_eq_zero_iff]
  by_cases first : a &&& pagePs = 0 <;> by_cases second : b &&& pagePs = 0 <;> simp [first, second]

theorem Frame.not_large (f : Frame) : large f.paddr = false := by
  have none : f.paddr &&& pagePs = 0 := by
    rw [← f.isFrame, entryPaddr, Nat.and_assoc]
    exact Nat.and_zero _
  simp [large, none]

theorem Frame.tableEntry_present (f : Frame) : present f.tableEntry = true := by
  have one : present pagePresent = true := by decide
  simp [tableEntry, present_or, one]

theorem Frame.tableEntry_large (f : Frame) : large f.tableEntry = false := by
  simp only [tableEntry, large_or, f.not_large]
  decide

theorem Frame.tableEntry_paddr (f : Frame) : entryPaddr f.tableEntry = f.paddr := by
  have flags : entryPaddr pagePresent = 0 ∧ entryPaddr pageRw = 0 ∧ entryPaddr pageUser = 0 := by decide
  simp [tableEntry, entryPaddr_or, f.isFrame, flags]

theorem Frame.tableEntry_flags (f : Frame) :
    f.tableEntry &&& (pageRw ||| pageUser) = pageRw ||| pageUser ∧ f.tableEntry &&& pageNoExecute = 0 := by
  have none : f.paddr &&& (pageRw ||| pageUser) = 0 ∧ f.paddr &&& pageNoExecute = 0 := by
    rw [← f.isFrame, entryPaddr, Nat.and_assoc, Nat.and_assoc]
    exact ⟨Nat.and_zero _, Nat.and_zero _⟩
  constructor
  · simp only [tableEntry, Nat.and_or_distrib_right, none.1]
    decide
  · simp only [tableEntry, Nat.and_or_distrib_right, none.2]
    decide

namespace Mmu

theorem leafEntry_present (paddr : Nat) (size : PageKind) (opts : Pgprot) :
    present (leafEntry paddr size opts) = true := by
  have one : present pagePresent = true := by decide
  simp [leafEntry, present_or, one]

theorem leafEntry_large (paddr : Nat) {size : PageKind} (opts : Pgprot) (big : size ≠ .page4k) :
    large (leafEntry paddr size opts) = true := by
  have ps : large pagePs = true := by decide
  rw [leafEntry, if_pos big, large_or, ps, Bool.or_true]

theorem leafEntry_paddr {paddr : Nat} (page : entryPaddr paddr = paddr) (size : PageKind) {opts : Pgprot}
    (flags : entryPaddr opts.protFlags = 0) : entryPaddr (leafEntry paddr size opts) = paddr := by
  have others : entryPaddr pagePresent = 0 ∧ entryPaddr pagePs = 0 ∧ entryPaddr 0 = 0 := by decide
  rw [leafEntry, entryPaddr_or, entryPaddr_or, entryPaddr_or, page, flags, others.1]
  split <;> simp [others]

end Mmu
end SnapOS.Paging
