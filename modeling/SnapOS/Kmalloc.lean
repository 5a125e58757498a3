/- The kernel heap of mm/kmalloc.c: six tiers of slots cut from single pages, and big allocations
of whole pages that are kept in a list of nodes. Pointers are virtual addresses; zero is NULL. -/
import SnapOS.Pmm
import SnapOS.Lib.Bytes
import SnapOS.Lib.Chain

namespace SnapOS.Mm
open SnapOS.Lib

def magic : Nat := 0xFC6792DA

structure Pool where
  frame : Nat
  tier : Nat
  deriving DecidableEq, Repr

/-- `mem` is memory by virtual address; a structure is accessed at its pointer plus the offset of the
field. The frames of the allocator are taken to be mapped at their addresses in the direct map. `pools` is a ghost
record: no function below reads it. -/
structure Heap where
  mem : Memory
  freeHead : Nat → Nat
  bigAllocHead : Nat
  pmm : Pmm
  pools : List Pool

def tierCount : Nat := 6

def slotSize : Nat → Nat
  | 0 => 32
  | 1 => 64
  | 2 => 128
  | 3 => 256
  | 4 => 512
  | 5 => 1024
  | _ => 0

/-- `none` is `TOO_BIG_SIZE`. -/
def sizeToTierIdx (size : Nat) : Option Nat :=
  (List.range tierCount).find? fun i => decide (size ≤ slotSize i)

/-! Whole pages. -/

def allocPage (h : Heap) : Nat × Heap :=
  let (frame, pmm) := pmmAllocFrame h.pmm
  let h := { h with pmm }
  if frame.getD 0 = 0 then (0, h) else (physToVirt (frame.getD 0), h)

def allocPages (count : Nat) (h : Heap) : Exec (Nat × Heap) := do
  let (startFrame, pmm) ← pmmAllocContiguousFrames h.pmm count
  let h := { h with pmm }
  if startFrame.getD 0 = 0 then .ok (0, h) else .ok (physToVirt (startFrame.getD 0), h)

def freePages (vaddr count : Nat) (h : Heap) : Exec Heap := do
  let pmm ← pmmFreeContiguousFrames h.pmm (virtToPhys vaddr) count
  .ok { h with pmm }

/-! Slots. -/

def linkSlots (slotsize lastSlot : Nat) : Nat → Memory → Nat → Exec Memory
  | 0, _, _ => .error .outOfFuel
  | fuel + 1, mem, s =>
      if s < lastSlot then
        let mem := mem.store s 8 ((s + slotsize) % word64)
        linkSlots slotsize lastSlot fuel mem (mem.load s 8)
      else .ok mem

def initTier (tier : Nat) (h : Heap) : Exec (Int × Heap) :=
  let (frame, h) := allocPage h
  if frame = 0 then .ok (-eNoMem, h)
  else do
    let mem := h.mem.store (frame + 5) 1 0
    let mem := mem.store frame 4 magic
    let mem := mem.store (frame + 4) 1 tier
    let slotsize := slotSize tier
    let s := (frame + slotsize) % word64
    let lastSlot := (frame + (pageSize - slotsize)) % word64
    let mem ← linkSlots slotsize lastSlot (pageSize / slotsize) mem s
    let mem := mem.store lastSlot 8 0
    .ok (0, { h with
      mem
      freeHead := Function.update h.freeHead tier ((frame + slotsize) % word64)
      pools := ⟨virtToPhys frame / pageSize, tier⟩ :: h.pools })

/-- The recursion is entered again only after a page has been added. -/
def kmallocSmall (tier : Nat) : Nat → Heap → Exec (Nat × Heap)
  | 0, _ => .error .outOfFuel
  | fuel + 1, h =>
      if h.freeHead tier ≠ 0 then
        let head := h.freeHead tier
        let header := pageAlignDown head
        let mem := h.mem.store (header + 5) 1 (h.mem.load (header + 5) 1 + 1)
        .ok (head, { h with
          mem
          freeHead := Function.update h.freeHead tier (mem.load head 8) })
      else do
        let (res, h) ← initTier tier h
        if res < 0 then .ok (0, h) else kmallocSmall tier fuel h

/-! Big allocations. The recursive calls between the two allocators are passed as an argument. -/

/-- `sizeof(struct big_alloc_node)`: `vaddr` at 0, `pages_count` at 8, `next` at 16. -/
def bigAllocNodeSize : Nat := 24

def kmallocBig (kmalloc : Nat → Heap → Exec (Nat × Heap)) (size : Nat) (h : Heap) :
    Exec (Nat × Heap) := do
  let size := pageAlignUp size
  let npages := size / pageSize
  let (vaddr, h) ← allocPages npages h
  if vaddr = 0 then .ok (0, h)
  else
    let (curNode, h) ← kmalloc bigAllocNodeSize h
    if curNode = 0 then
      let h ← freePages vaddr npages h
      .ok (0, h)
    else
      let mem := h.mem.store curNode 8 vaddr
      let mem := mem.store (curNode + 8) 8 npages
      let mem := mem.store (curNode + 16) 8 h.bigAllocHead
      .ok (vaddr, { h with mem, bigAllocHead := curNode })

def kmallocRec : Nat → Nat → Heap → Exec (Nat × Heap)
  | 0, _, _ => .error .outOfFuel
  | fuel + 1, size, h =>
      match sizeToTierIdx size with
      | none => kmallocBig (kmallocRec fuel) size h
      | some tier => kmallocSmall tier 2 h

/-- A big request asks once more, for its node, and that request is small. -/
def kmalloc (size : Nat) (h : Heap) : Exec (Nat × Heap) := kmallocRec 2 size h

def bigSearch (mem : Memory) (vaddr : Nat) : Nat → Nat → Nat → Exec (Nat × Nat)
  | 0, _, _ => .error .outOfFuel
  | fuel + 1, cur, prev =>
      if cur ≠ 0 ∧ mem.load cur 8 ≠ vaddr then
        bigSearch mem vaddr fuel (mem.load (cur + 16) 8) cur
      else .ok (cur, prev)

/-- Nodes are slots of distinct places, so there are at most as many as 32-byte slots. -/
def kfreeBig (kfree : Nat → Heap → Exec Heap) (vaddr : Nat) (h : Heap) : Exec Heap := do
  let (cur, prev) ← bigSearch h.mem vaddr (1024 * h.pmm.size + 1) h.bigAllocHead 0
  if cur = 0 then Exec.panic "kfree_big: trying to free a non-existing big allocation."
  else
    let h := if cur = h.bigAllocHead then
        { h with bigAllocHead := h.mem.load (h.bigAllocHead + 16) 8 }
      else { h with mem := h.mem.store (prev + 16) 8 (h.mem.load (cur + 16) 8) }
    let h ← freePages vaddr (h.mem.load (cur + 8) 8) h
    kfree cur h

def kfreeRec : Nat → Nat → Heap → Exec Heap
  | 0, _, _ => .error .outOfFuel
  | fuel + 1, vaddr, h =>
      let header := pageAlignDown vaddr
      if h.mem.load header 4 ≠ magic then kfreeBig (kfreeRec fuel) vaddr h
      else
        let mem := h.mem.store vaddr 8 (h.freeHead (h.mem.load (header + 4) 1))
        .ok { h with
          mem
          freeHead := Function.update h.freeHead (mem.load (header + 4) 1) vaddr }

/-- A big block is freed together with its node, and the node is a slot. -/
def kfree (vaddr : Nat) (h : Heap) : Exec Heap := kfreeRec 2 vaddr h

end SnapOS.Mm
