/- The functions of pmm.c, vmm.c and paging.c once more, with the state at the point where they panic. -/
import SnapOS.FrameBitmap
import SnapOS.Lib.Steps
import SnapOS.MapRange
import SnapOS.Vmm

namespace SnapOS.Stepwise
open SnapOS.Lib SnapOS.Mm SnapOS.Paging

def pmmFreeFrame (paddr : Nat) : Steps Pmm Unit :=
  if isPageAligned paddr = false then Steps.panic "pmm_free_frame: trying to free unlaigned addr"
  else do
    let p ← get
    let frameNo := pageAlignDown paddr / pageSize
    if Bitmap.masked (p.bitmap (frameNo / 8)) (frameNo % 8) = false then
      Steps.panic "pmm_free_frame: trying to free a frame that doesn't exist."
    else set { p with bitmap := p.bitmap.clearBit frameNo }

def pmmFreeContiguousFrames (paddr count : Nat) : Steps Pmm Unit :=
  if isPageAligned paddr = false then Steps.panic "pmm_free_contiguous_frames: paddr not page aligned."
  else do
    let p ← get
    set { p with bitmap := p.bitmap.clearBits (paddr / pageSize) count }

def mmuAllocTable (table index : Nat) : Steps Mmu Unit := do
  let m ← get
  match m.pmmCurrentAllocFrame with
  | (none, _) => Steps.panic "mmu_alloc_table: no free frames."
  | (some f, m) => set ((m.fillFrame f.paddr fun _ => 0).setEntry table index f.tableEntry)

def mmuEntry (table index : Nat) : Steps Mmu Nat := do
  let m ← get
  if present (m.tables table index) then pure () else mmuAllocTable table index
  let m ← get
  pure (m.tables table index)

def mmuWalk (pgd vaddr : Nat) (level : MmuLevel) : Steps Mmu (Option (Nat × Nat)) :=
  if level = .pgd then pure (some (pgd, pgdIndex vaddr))
  else do
    let pgdEntry ← mmuEntry pgd (pgdIndex vaddr)
    let pud := pgdToPud pgdEntry
    if level = .pud then pure (some (pud, pudIndex vaddr))
    else do
      let m ← get
      if m.hitsHuge pud (pudIndex vaddr) then pure none
      else do
        let pudEntry ← mmuEntry pud (pudIndex vaddr)
        let pmd := pudToPmd pudEntry
        if level = .pmd then pure (some (pmd, pmdIndex vaddr))
        else do
          let m ← get
          if m.hitsHuge pmd (pmdIndex vaddr) then pure none
          else do
            let pmdEntry ← mmuEntry pmd (pmdIndex vaddr)
            pure (some (pmdToPte pmdEntry, pteIndex vaddr))

def mmuMapOne (pgd vaddr paddr : Nat) (size : PageKind) (opts : Pgprot) : Steps Mmu Unit := do
  let found ← mmuWalk pgd vaddr (Mmu.levelOf size)
  match found with
  | none =>
      Steps.panic "mmu_map_one: vaddr is in an existing huge mapping, i still havent implemented splitting."
  | some (table, index) => do
      let m ← get
      if present (m.tables table index) && !opts.allowOverwrite then
        Steps.panic "mmu_map_one: trying to map an already mapped vaddr with opts.allow_overwrite=false."
      else set (m.setEntry table index (Mmu.leafEntry paddr size opts))

def mmuMapLoop (opts : Pgprot) (pgd vaddr paddr len : Nat) : Steps Mmu Unit := do
  let m ← get
  if 0 < len then do
    let chunk := Mmu.chunkOf (m.pageKind vaddr paddr len)
    mmuMapOne pgd vaddr paddr (m.pageKind vaddr paddr len) opts
    mmuMapLoop opts pgd ((vaddr + chunk) % word64) ((paddr + chunk) % word64) (len - chunk)
  else pure ()
termination_by len
decreasing_by exact Nat.sub_lt ‹0 < len› (Mmu.chunkOf_pos _)

def mmuMapRange (pgd vaddr paddr len : Nat) (opts : Pgprot) : Steps Mmu Unit :=
  if !isPageAlignedTo vaddr pageSize || !isPageAlignedTo paddr pageSize then
    Steps.panic "mmu_map_range: vaddr/paddr not page algined"
  else if !isPageAlignedTo len pageSize then Steps.panic "mmu_map_range: len not page algined"
  else mmuMapLoop opts pgd vaddr paddr len

def vmmMapPage (pgd vaddr paddr : Nat) (prot : Pgprot) : Steps Mmu Unit :=
  if !isPageAligned vaddr || !isPageAligned paddr then
    Steps.panic "vmm_map_page: vaddr or/and paddr are not page algined"
  else mmuMapRange pgd vaddr paddr pageSize prot

def vmmAllocPage (pgd vaddr : Nat) (prot : Pgprot) : Steps Mmu Int :=
  if !isPageAligned vaddr then Steps.panic "vmm_alloc_page: vaddr is not page algined"
  else do
    let m ← get
    match m.pmmCurrentAllocFrame with
    | (none, m) => do
        set m
        pure (-eNoMem)
    | (some frame, m) => do
        set m
        vmmMapPage pgd vaddr frame.paddr prot
        pure 0

def vmmAllocLoop (pgd : Nat) (prot : Pgprot) (vaddr size count : Nat) : Steps Mmu Int :=
  if 0 < size then do
    let res ← vmmAllocPage pgd vaddr prot
    if res < 0 then pure res
    else vmmAllocLoop pgd prot ((vaddr + pageSize) % word64) (size - pageSize) (count + 1)
  else pure count
termination_by size
decreasing_by exact Nat.sub_lt ‹0 < size› (by decide)

def vmmAllocRange (pgd vaddr size : Nat) (prot : Pgprot) : Steps Mmu Int :=
  if !isPageAligned vaddr then Steps.panic "vmm_alloc_page: vaddr is not page algined"
  else vmmAllocLoop pgd prot vaddr (pageAlignUp size) 0

/-! Without the state at a panic these are the functions of the model. -/

section Erase

variable (m : Mmu)

theorem erase_pmmFreeFrame (p : Pmm) (paddr : Nat) :
    (pmmFreeFrame paddr).erase p = (Mm.pmmFreeFrame p paddr).map fun p => ((), p) := by
  simp only [pmmFreeFrame, Mm.pmmFreeFrame]
  split
  · rfl
  · rw [Steps.erase_bind, Steps.erase_get, Exec.ok_bind]
    dsimp only
    split <;> rfl

theorem erase_pmmFreeContiguousFrames (p : Pmm) (paddr count : Nat) :
    (pmmFreeContiguousFrames paddr count).erase p = (Mm.pmmFreeContiguousFrames p paddr count).map fun p =>
    ((), p) := by
  simp only [pmmFreeContiguousFrames, Mm.pmmFreeContiguousFrames]
  split <;> rfl

theorem erase_mmuAllocTable (table index : Nat) :
    (mmuAllocTable table index).erase m = (m.mmuAllocTable table index).map fun m => ((), m) := by
  simp only [mmuAllocTable, Mmu.mmuAllocTable, Mmu.pmmCurrentAllocFrame, Steps.erase_bind, Steps.erase_get,
    Exec.ok_bind]
  cases m.pool <;> rfl

theorem erase_mmuEntry (table index : Nat) : (mmuEntry table index).erase m = m.mmuEntry table index := by
  simp only [mmuEntry, Mmu.mmuEntry, Steps.erase_bind, Steps.erase_get, Exec.ok_bind]
  split
  · rfl
  · rw [Steps.erase_bind, erase_mmuAllocTable, Exec.map_bind]
    rfl

theorem erase_mmuWalk (pgd vaddr : Nat) (level : MmuLevel) :
    (mmuWalk pgd vaddr level).erase m = m.mmuWalk pgd vaddr level := by
  simp only [mmuWalk, Mmu.mmuWalk, Steps.erase_ite, Steps.erase_bind, Steps.erase_get, Steps.erase_pure, erase_mmuEntry,
    Exec.ok_bind]

theorem erase_mmuMapOne (pgd vaddr paddr : Nat) (size : PageKind) (opts : Pgprot) :
    (mmuMapOne pgd vaddr paddr size opts).erase m = (m.mmuMapOne pgd vaddr paddr size opts).map fun m => ((), m) := by
  rw [mmuMapOne, Mmu.mmuMapOne, Steps.erase_bind, erase_mmuWalk, Exec.bind_map]
  congr 1
  funext found
  rcases found with ⟨none | ⟨table, index⟩, m⟩
  · rfl
  · dsimp only
    rw [Steps.erase_bind, Steps.erase_get, Exec.ok_bind, Steps.erase_ite]
    split <;> rfl

theorem erase_mmuMapLoop (opts : Pgprot) (pgd vaddr paddr len : Nat) :
    (mmuMapLoop opts pgd vaddr paddr len).erase m = (Mmu.mmuMapLoop opts pgd m vaddr paddr len).map fun m =>
    ((), m) := by
  induction len using Nat.strong_induction_on generalizing m vaddr paddr with
  | h len ih =>
      rw [mmuMapLoop, Mmu.mmuMapLoop, Steps.erase_bind, Steps.erase_get, Exec.ok_bind]
      dsimp only
      split
      · next more =>
          rw [Steps.erase_bind, erase_mmuMapOne, Exec.map_bind, Exec.bind_map]
          congr 1
          funext m₁
          exact ih _ (Nat.sub_lt more (Mmu.chunkOf_pos _)) m₁ _ _
      · rfl

theorem erase_mmuMapRange (pgd vaddr paddr len : Nat) (opts : Pgprot) :
    (mmuMapRange pgd vaddr paddr len opts).erase m = (m.mmuMapRange pgd vaddr paddr len opts).map fun m => ((), m) := by
  simp only [mmuMapRange, Mmu.mmuMapRange]
  split
  · rfl
  · split
    · rfl
    · exact erase_mmuMapLoop m opts pgd vaddr paddr len

theorem erase_vmmMapPage (pgd vaddr paddr : Nat) (prot : Pgprot) :
    (vmmMapPage pgd vaddr paddr prot).erase m = (m.vmmMapPage pgd vaddr paddr prot).map fun m => ((), m) := by
  simp only [vmmMapPage, Mmu.vmmMapPage]
  split
  · rfl
  · exact erase_mmuMapRange m pgd vaddr paddr pageSize prot

theorem erase_vmmAllocPage (pgd vaddr : Nat) (prot : Pgprot) :
    (vmmAllocPage pgd vaddr prot).erase m = m.vmmAllocPage pgd vaddr prot := by
  simp only [vmmAllocPage, Mmu.vmmAllocPage, Mmu.pmmCurrentAllocFrame]
  split
  · rfl
  · rw [Steps.erase_bind, Steps.erase_get, Exec.ok_bind]
    dsimp only
    cases m.pool with
    | nil => rfl
    | cons frame rest =>
        dsimp only
        rw [Steps.erase_bind, Steps.erase_set, Exec.ok_bind, Steps.erase_bind, erase_vmmMapPage, Exec.map_bind]
        rfl

theorem erase_vmmAllocLoop (pgd : Nat) (prot : Pgprot) (vaddr size count : Nat) :
    (vmmAllocLoop pgd prot vaddr size count).erase m = Mmu.vmmAllocLoop pgd prot m vaddr size count := by
  induction size using Nat.strong_induction_on generalizing m vaddr count with
  | h size ih =>
      rw [vmmAllocLoop, Mmu.vmmAllocLoop]
      split
      · next more =>
          rw [Steps.erase_bind, erase_vmmAllocPage]
          congr 1
          funext ⟨res, m₁⟩
          dsimp only
          rw [Steps.erase_ite]
          split
          · rfl
          · exact ih _ (Nat.sub_lt more (show 0 < pageSize by decide)) _ _ _
      · rfl

theorem erase_vmmAllocRange (pgd vaddr size : Nat) (prot : Pgprot) :
    (vmmAllocRange pgd vaddr size prot).erase m = m.vmmAllocRange pgd vaddr size prot := by
  simp only [vmmAllocRange, Mmu.vmmAllocRange]
  split
  · rfl
  · exact erase_vmmAllocLoop m pgd prot vaddr (pageAlignUp size) 0

end Erase

/-- The entry points that check the alignment of an address, with their other arguments. -/
inductive AddressCall
  | freeFrame
  | freeContiguousFrames (count : Nat)
  | allocPage (pgd : Nat) (prot : Pgprot)
  | allocRange (pgd size : Nat) (prot : Pgprot)
  | mapPage (pgd paddr : Nat) (prot : Pgprot)

/-- The call at the address `x` panics before it has changed the bitmap, the frames or the tables. -/
def AddressCall.Rejected (x : Nat) (p : Pmm) (m : Mmu) : AddressCall → Prop
  | .freeFrame => (pmmFreeFrame x).Rejects p
  | .freeContiguousFrames count => (pmmFreeContiguousFrames x count).Rejects p
  | .allocPage pgd prot => (vmmAllocPage pgd x prot).Rejects m
  | .allocRange pgd size prot => 0 < size → (vmmAllocRange pgd x size prot).Rejects m
  | .mapPage pgd paddr prot => (vmmMapPage pgd x paddr prot).Rejects m

/-- What catches an unaligned address before anything has changed: a clear bit in pmm_free_frame, the correct
check of mmu_map_range in vmm_map_page. -/
def AddressCall.Caught (x : Nat) (p : Pmm) : AddressCall → Prop
  | .freeFrame => p.bitmap.bit (x / pageSize) = false
  | .freeContiguousFrames _ => False
  | .allocPage _ _ => False
  | .allocRange _ size _ => size = 0
  | .mapPage _ _ _ => True

section Unaligned

variable {x : Nat}

theorem pmmFreeFrame_rejects_iff (p : Pmm) :
    (pmmFreeFrame x).Rejects p ↔ p.bitmap.bit (x / pageSize) = false := by
  have frame : pageAlignDown x / pageSize = x / pageSize := Nat.mul_div_cancel _ (by decide)
  cases taken : p.bitmap.bit (x / pageSize) with
  | false =>
      refine iff_of_true ⟨"pmm_free_frame: trying to free a frame that doesn't exist.", ?_⟩ rfl
      simp only [pmmFreeFrame, isPageAligned_always, Bool.true_eq_false, if_false, frame, Bitmap.masked_bit]
      rw [Steps.get_bind, if_pos taken]
      rfl
  | true =>
      refine iff_of_false (Steps.not_rejects_of_erase (r := ((), p.release (x / pageSize) 1)) ?_) (by decide)
      rw [erase_pmmFreeFrame, pmmFreeFrame_eq, if_pos taken]
      rfl

theorem pmmFreeContiguousFrames_not_rejects (p : Pmm) (count : Nat) :
    ¬ (pmmFreeContiguousFrames x count).Rejects p := by
  refine Steps.not_rejects_of_erase (r := ((), p.release (x / pageSize) count)) ?_
  rw [erase_pmmFreeContiguousFrames, pmmFreeContiguousFrames_eq]
  rfl

theorem tail_ne {m : Mmu} {frame : Frame} {rest : List Frame} (pool : m.pool = frame :: rest) :
    { m with pool := rest } ≠ m := by
  intro same
  have shorter := congrArg (fun m => m.pool.length) same
  simp only [pool, List.length_cons] at shorter
  omega

variable (unaligned : x % pageSize ≠ 0)
include unaligned

theorem vmmMapPage_unaligned (m : Mmu) (pgd paddr : Nat) (prot : Pgprot) :
    vmmMapPage pgd x paddr prot m = .error (.panic "mmu_map_range: vaddr/paddr not page algined") m := by
  have wrong : isPageAlignedTo x pageSize = false := decide_eq_false unaligned
  simp only [vmmMapPage, isPageAligned_always, mmuMapRange, wrong, Bool.not_true, Bool.or_false, Bool.not_false,
    Bool.true_or, Bool.false_eq_true, if_false, if_true]
  rfl

/-- The frame is taken before mmu_map_range looks at the address. -/
theorem vmmAllocPage_unaligned (m : Mmu) (pgd : Nat) (prot : Pgprot) :
    vmmAllocPage pgd x prot m = match m.pool with
      | [] => .ok (-eNoMem) m
      | _ :: rest => .error (.panic "mmu_map_range: vaddr/paddr not page algined") { m with pool := rest } := by
  simp only [vmmAllocPage, isPageAligned_always, Bool.not_true, Bool.false_eq_true, if_false]
  rw [Steps.get_bind, Mmu.pmmCurrentAllocFrame]
  cases m.pool with
  | nil => rfl
  | cons frame rest =>
      dsimp only
      rw [Steps.set_bind, Steps.bind_apply, vmmMapPage_unaligned unaligned]

theorem vmmAllocPage_not_rejects (m : Mmu) (pgd : Nat) (prot : Pgprot) : ¬ (vmmAllocPage pgd x prot).Rejects m := by
  have outcome := vmmAllocPage_unaligned unaligned m pgd prot
  cases pool : m.pool with
  | nil =>
      rw [pool] at outcome
      exact Steps.not_rejects_of_erase (r := (-eNoMem, m)) (by rw [Steps.erase, outcome])
  | cons frame rest =>
      rw [pool] at outcome
      exact Steps.not_rejects_of_changed outcome (tail_ne pool)

theorem vmmAllocRange_not_rejects (m : Mmu) (pgd size : Nat) (prot : Pgprot) :
    ¬ (vmmAllocRange pgd x size prot).Rejects m := by
  simp only [vmmAllocRange, isPageAligned_always, Bool.not_true, Bool.false_eq_true, if_false]
  rw [vmmAllocLoop]
  split
  · have outcome := vmmAllocPage_unaligned unaligned m pgd prot
    cases pool : m.pool with
    | nil =>
        rw [pool] at outcome
        refine Steps.not_rejects_of_erase (r := (-eNoMem, m)) ?_
        rw [Steps.erase, Steps.bind_apply, outcome]
        rfl
    | cons frame rest =>
        rw [pool] at outcome
        refine Steps.not_rejects_of_changed (e := .panic "mmu_map_range: vaddr/paddr not page algined") ?_
          (tail_ne pool)
        rw [Steps.bind_apply, outcome]
  · exact Steps.not_rejects_of_erase (r := (0, m)) rfl

/-- Of the five entry points only vmm_map_page rejects every unaligned address before any change: IS_PAGE_ALIGNED
is always true, and what stops the others comes too late or not at all. -/
theorem unaligned_rejected_iff (p : Pmm) (m : Mmu) (call : AddressCall) : call.Rejected x p m ↔ call.Caught x p := by
  cases call with
  | freeFrame => exact pmmFreeFrame_rejects_iff p
  | freeContiguousFrames count => exact iff_of_false (pmmFreeContiguousFrames_not_rejects p count) id
  | allocPage pgd prot => exact iff_of_false (vmmAllocPage_not_rejects unaligned m pgd prot) id
  | allocRange pgd size prot =>
      constructor
      · intro rejected
        by_contra nonzero
        exact vmmAllocRange_not_rejects unaligned m pgd size prot (rejected (Nat.pos_of_ne_zero nonzero))
      · rintro rfl positive
        exact absurd positive (by decide)
  | mapPage pgd paddr prot => exact iff_of_true ⟨_, vmmMapPage_unaligned unaligned m pgd paddr prot⟩ trivial

end Unaligned

def noFrames : Pmm := ⟨fun _ => 0, 0, 0⟩

theorem unaligned_rejected_iff_0x1001 : 0x1001 % pageSize ≠ 0 ∧
    AddressCall.Rejected 0x1001 noFrames emptyMmu .freeFrame ∧
    AddressCall.Rejected 0x1001 noFrames emptyMmu (.mapPage 0x1000 0x2000 ⟨pageRw, false⟩) :=
  ⟨by decide, (unaligned_rejected_iff (by decide) _ _ _).mpr rfl,
    (unaligned_rejected_iff (by decide) _ _ _).mpr trivial⟩

/-- vmm_alloc_page(0x1001) takes the first of the four free frames before mmu_map_range panics. -/
theorem frame_taken_before_panic :
    vmmAllocPage 0x1000 0x1001 ⟨pageRw, false⟩ emptyMmu =
      .error (.panic "mmu_map_range: vaddr/paddr not page algined") { emptyMmu with pool := emptyMmu.pool.tail } ∧
    emptyMmu.pool.length = 4 ∧ emptyMmu.pool.tail.length = 3 ∧
    ¬ AddressCall.Rejected 0x1001 noFrames emptyMmu (.allocPage 0x1000 ⟨pageRw, false⟩) :=
  ⟨vmmAllocPage_unaligned (by decide) emptyMmu _ _, by decide, by decide, vmmAllocPage_not_rejects (by decide) _ _ _⟩

end SnapOS.Stepwise
