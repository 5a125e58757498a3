/- What the boot loader leaves in memory: the image of the kernel file, and when it is right. -/
import SnapOS.KernelLoad
import Mathlib.Tactic.Common

namespace SnapOS.Boot
open SnapOS.Lib

/-- The file systems that the loader is made for. -/
structure BlockGeometry (g : Globals) : Prop where
  blocksize : g.blocksize = 1024 ∨ g.blocksize = 2048 ∨ g.blocksize = 4096
  sectors : g.sectorsPerBlock = g.blocksize / sectorSize

section Reads

variable {g : Globals} (geometry : BlockGeometry g) (disk : Memory)
include geometry

theorem read_block (lba : Nat) (buf : Memory) {r : Nat} (inside : r < g.blocksize) :
    read disk lba g.sectorsPerBlock buf r = disk (lba * sectorSize + r) := by
  have sectors := geometry.sectors
  have some : g.sectorsPerBlock ≠ 0 := by
    rw [sectors]
    rcases geometry.blocksize with size | size | size <;> rw [size] <;> decide
  have whole : min (tempBufSize / sectorSize) g.sectorsPerBlock = g.sectorsPerBlock := by
    rw [sectors]
    rcases geometry.blocksize with size | size | size <;> rw [size] <;> decide
  have bytes : g.sectorsPerBlock * sectorSize = g.blocksize := by
    rw [sectors]
    rcases geometry.blocksize with size | size | size <;> rw [size] <;> decide
  rw [read, readFrom, if_neg some, whole, Nat.sub_self, readFrom, if_pos rfl, bytes,
    Memory.overwrite_inside (Nat.zero_le r) (by omega)]
  rfl

theorem pointers_read (lba : Nat) (buf : Memory) {j : Nat} (inside : j < perBlock g) :
    pointers (read disk lba g.sectorsPerBlock buf) j = pointers (fun r => disk (lba * sectorSize + r)) j := by
  rw [pointers, pointers]
  refine Memory.load_congr fun b _ high => ?_
  rw [perBlock] at inside
  exact read_block geometry disk lba buf (by omega)

end Reads

section Put

variable {s : Loader} {dest n a : Nat} {src : Memory}

theorem memory_put (inside : dest + n ≤ word32) :
    (s.put dest n src).memory a = if dest ≤ a ∧ a < dest + n then some (src (a - dest)) else s.memory a := by
  have place (low : dest ≤ a) (high : a < dest + n) : (a + (word32 - dest % word32)) % word32 = a - dest := by
    simp only [word32] at *
    omega
  change (if a < word32 ∧ _ then _ else _) = _
  by_cases stored : dest ≤ a ∧ a < dest + n
  · rw [if_pos stored, if_pos ⟨by omega, by rw [place stored.1 stored.2]; omega⟩, place stored.1 stored.2]
  · rw [if_neg stored, if_neg]
    rintro ⟨low, high⟩
    simp only [word32] at *
    omega

/-- No pointer reaches an address of more than 32 bits. -/
theorem memory_put_high (high : word32 ≤ a) : (s.put dest n src).memory a = s.memory a :=
  if_neg fun stored => absurd stored.1 (Nat.not_lt.mpr high)

end Put

section Targets

variable (disk : Memory) (g : Globals) (inode : Memory)

open Classical in
/-- Where the last store ends, from the start of the image. -/
noncomputable def finish : Nat :=
  if Overruns disk g inode then (fileSize inode / g.blocksize + 1) * g.blocksize else fileSize inode

noncomputable def target (i : Nat) : Nat :=
  if i * g.blocksize < fileSize inode then i * g.blocksize else finish disk g inode

/-- Memory has the bytes that the loader takes for the file up to an offset, and no others. -/
def Image (s : Loader) (offset : Nat) : Prop :=
  ∀ a, s.memory a =
    if kernelLoadDest ≤ a ∧ a < kernelLoadDest + offset then some (loadedByte disk g inode (a - kernelLoadDest))
      else none

variable {disk g inode} {s : Loader} {i n offset : Nat}

theorem Image.grow (image : Image disk g inode s offset) (src : Memory)
    (inside : kernelLoadDest + offset + n ≤ word32)
    (bytes : ∀ r < n, src r = loadedByte disk g inode (offset + r)) :
    Image disk g inode (s.put (kernelLoadDest + offset) n src) (offset + n) := by
  intro a
  rw [memory_put inside, image a]
  by_cases stored : kernelLoadDest + offset ≤ a ∧ a < kernelLoadDest + offset + n
  · have place : offset + (a - (kernelLoadDest + offset)) = a - kernelLoadDest := by omega
    rw [if_pos stored, if_pos (by omega), bytes _ (by omega), place]
  · rw [if_neg stored]
    by_cases before : kernelLoadDest ≤ a ∧ a < kernelLoadDest + offset
    · rw [if_pos before, if_pos (by omega)]
    · rw [if_neg before, if_neg (by omega)]

theorem target_below (more : i * g.blocksize < fileSize inode) : target disk g inode i = i * g.blocksize := if_pos more

theorem target_end (none : fileSize inode ≤ i * g.blocksize) : target disk g inode i = finish disk g inode :=
  if_neg (Nat.not_lt.mpr none)

theorem target_stays (whole : fileSize inode ≤ target disk g inode i) (n : Nat) :
    target disk g inode (i + n) = target disk g inode i ∧ target disk g inode i = finish disk g inode := by
  have behind : fileSize inode ≤ i * g.blocksize := by
    refine Nat.le_of_not_lt fun more => ?_
    rw [target_below more] at whole
    omega
  refine ⟨?_, target_end behind⟩
  rw [target_end behind, target_end (Nat.le_trans behind (Nat.mul_le_mul_right _ (Nat.le_add_right i n)))]

theorem loadedByte_block {r : Nat} (inside : r < g.blocksize) :
    loadedByte disk g inode (i * g.blocksize + r) =
      if foundPtr disk g inode i = 0 then 0 else foundByte disk g (foundPtr disk g inode i) r := by
  have positive : 0 < g.blocksize := Nat.zero_lt_of_lt inside
  have block : (i * g.blocksize + r) / g.blocksize = i := by
    rw [Nat.mul_comm, Nat.mul_add_div positive, Nat.div_eq_of_lt inside, Nat.add_zero]
  have place : (i * g.blocksize + r) % g.blocksize = r := by
    rw [Nat.mul_comm, Nat.mul_add_mod, Nat.mod_eq_of_lt inside]
  rw [loadedByte, block, place]

theorem loadedByte_hole {r : Nat} (holes : ∀ k < n, foundPtr disk g inode (i + k) = 0)
    (below : r < n * g.blocksize) : loadedByte disk g inode (i * g.blocksize + r) = 0 := by
  have positive : 0 < g.blocksize := Nat.pos_of_mul_pos_left (Nat.zero_lt_of_lt below)
  have block : (i * g.blocksize + r) / g.blocksize = i + r / g.blocksize := by
    rw [Nat.mul_comm, Nat.mul_add_div positive]
  rw [loadedByte, block]
  exact if_pos (holes _ (Nat.div_lt_of_lt_mul (Nat.mul_comm n _ ▸ below)))

section Geometry

variable (geometry : BlockGeometry g)
include geometry

theorem fileSize_le_finish : fileSize inode ≤ finish disk g inode := by
  rw [finish]
  split
  · rcases geometry.blocksize with size | size | size <;> rw [size] <;> omega
  · exact Nat.le_refl _

theorem target_before (more : target disk g inode i < fileSize inode) : i * g.blocksize < fileSize inode := by
  refine Nat.lt_of_not_le fun none => ?_
  rw [target_end none] at more
  exact absurd (fileSize_le_finish geometry) (Nat.not_le.mpr more)

theorem last_block (more : i * g.blocksize < fileSize inode) (last : fileSize inode < (i + 1) * g.blocksize) :
    fileSize inode / g.blocksize = i ∧ fileSize inode % g.blocksize ≠ 0 := by
  rcases geometry.blocksize with size | size | size <;> simp only [size] at * <;> omega

theorem target_clear (more : i * g.blocksize < fileSize inode) (clears : Clears disk g inode i) :
    i * g.blocksize + g.blocksize = target disk g inode (i + 1) := by
  rw [← Nat.succ_mul, Nat.succ_eq_add_one]
  rcases Nat.lt_trichotomy ((i + 1) * g.blocksize) (fileSize inode) with before | ends | last
  · rw [target_below before]
  · have whole : ¬ Overruns disk g inode := by
      rintro ⟨partly, -⟩
      rw [← ends, Nat.mul_mod_left] at partly
      exact partly rfl
    rw [target_end (Nat.le_of_eq ends.symm), finish, if_neg whole, ends]
  · obtain ⟨index, partly⟩ := last_block geometry more last
    have overruns : Overruns disk g inode := ⟨partly, index ▸ clears⟩
    rw [target_end (Nat.le_of_lt last), finish, if_pos overruns, index]

theorem target_part (more : i * g.blocksize < fileSize inode) (n : Nat)
    (exact_ : ∀ k < n, ¬ Clears disk g inode (i + k)) :
    i * g.blocksize + min (n * g.blocksize) (fileSize inode - i * g.blocksize) = target disk g inode (i + n) := by
  have shift : (i + n) * g.blocksize = i * g.blocksize + n * g.blocksize := Nat.add_mul _ _ _
  by_cases before : (i + n) * g.blocksize < fileSize inode
  · rw [target_below before, shift, Nat.min_eq_left (by omega)]
  · have whole : ¬ Overruns disk g inode := by
      rintro ⟨partly, clears⟩
      refine exact_ (fileSize inode / g.blocksize - i) ?_ ?_
      · rcases geometry.blocksize with size | size | size <;> simp only [size] at * <;> omega
      · have after : i ≤ fileSize inode / g.blocksize := by
          rcases geometry.blocksize with size | size | size <;> simp only [size] at * <;> omega
        rwa [Nat.add_sub_cancel' after]
    rw [target_end (Nat.not_lt.mp before), finish, if_neg whole, Nat.min_eq_right (by omega)]
    omega

theorem target_block (more : i * g.blocksize < fileSize inode) (pointer : foundPtr disk g inode i ≠ 0) :
    i * g.blocksize + min g.blocksize (fileSize inode - i * g.blocksize) = target disk g inode (i + 1) := by
  have part := target_part geometry more 1 fun k below clears => by
    rw [Nat.lt_one_iff.mp below] at clears
    exact pointer clears.1
  rwa [Nat.one_mul] at part

theorem finish_le (fits : fileSize inode ≤ word32 - kernelLoadDest) :
    finish disk g inode ≤ word32 - kernelLoadDest := by
  rw [finish]
  split
  · next overruns =>
      have partly := overruns.1
      simp only [word32, kernelLoadDest] at *
      rcases geometry.blocksize with size | size | size <;> simp only [size] at * <;> omega
  · exact fits

theorem target_le (fits : fileSize inode ≤ word32 - kernelLoadDest) (i : Nat) :
    target disk g inode i ≤ word32 - kernelLoadDest := by
  rw [target]
  split
  · omega
  · exact finish_le geometry fits

end Geometry

end Targets

/-- The tables and the heap stay as they are. -/
structure Keeps (s s' : Loader) : Prop where
  singly : s'.singlyIndirectPtr = s.singlyIndirectPtr
  doubly : s'.doublyIndirectPtr = s.doublyIndirectPtr
  remaining : s'.remaining = s.remaining

section Loops

variable {disk : Memory} {g : Globals} {inode : Memory} (geometry : BlockGeometry g)
  (fits : fileSize inode ≤ word32 - kernelLoadDest)
include geometry fits

theorem room_of_target {i n offset : Nat} (ends : offset + n = target disk g inode i) :
    kernelLoadDest + offset + n ≤ word32 ∧ offset + n < word32 := by
  have bound : target disk g inode i ≤ word32 - kernelLoadDest := target_le geometry fits i
  rw [← ends] at bound
  simp only [word32, kernelLoadDest] at *
  omega

section Step

variable {i : Nat} {s : Loader} (more : i * g.blocksize < fileSize inode)
  (image : Image disk g inode s (i * g.blocksize))
include more image

theorem Image.clear (clears : Clears disk g inode i) :
    Image disk g inode (s.put (kernelLoadDest + i * g.blocksize) g.blocksize fun _ => 0)
      (target disk g inode (i + 1)) := by
  have next := target_clear geometry more clears
  rw [← next]
  refine image.grow (fun _ => 0) (room_of_target geometry fits next).1 fun r below => ?_
  rw [loadedByte_block below, if_pos clears.1]

theorem Image.copy (pointer : foundPtr disk g inode i ≠ 0) :
    let buf := read disk (blockLba g (foundPtr disk g inode i)) g.sectorsPerBlock s.buf
    Image disk g inode
      (Loader.put { s with buf := buf } (kernelLoadDest + i * g.blocksize)
        (min g.blocksize (fileSize inode - i * g.blocksize)) buf)
      (target disk g inode (i + 1)) := by
  have next := target_block geometry more pointer
  rw [← next]
  have fetched : Image disk g inode
      { s with buf := read disk (blockLba g (foundPtr disk g inode i)) g.sectorsPerBlock s.buf }
      (i * g.blocksize) := image
  refine fetched.grow _ (room_of_target geometry fits next).1 fun r below => ?_
  rw [read_block geometry disk _ _ (by omega), loadedByte_block (by omega), if_neg pointer]
  rfl

theorem Image.clearAll {n : Nat} (holes : ∀ k < n, foundPtr disk g inode (i + k) = 0)
    (exact_ : ∀ k < n, ¬ Clears disk g inode (i + k)) :
    Image disk g inode
      (s.put (kernelLoadDest + i * g.blocksize)
        (min (n * g.blocksize) (fileSize inode - i * g.blocksize)) fun _ => 0)
      (target disk g inode (i + n)) := by
  have next := target_part geometry more n exact_
  rw [← next]
  exact image.grow (fun _ => 0) (room_of_target geometry fits next).1 fun r below =>
    (loadedByte_hole holes (Nat.lt_of_lt_of_le below (Nat.min_le_left _ _))).symm

end Step

/-- The pointers of `load_data` are those of the blocks from `first` on. -/
theorem loadDataFrom_image {first n : Nat} {ptr : Nat → Nat}
    (found : ∀ j < n, ptr j = foundPtr disk g inode (first + j))
    (whole : ∀ j < n, first + j < directBlockPointersCount + perBlock g ∨ foundInner disk g inode (first + j) ≠ 0)
    (left j o : Nat) (s : Loader) (count : j + left = n)
    (here : first * g.blocksize + o = target disk g inode (first + j))
    (image : Image disk g inode s (target disk g inode (first + j))) :
    let loaded := loadDataFrom disk g (kernelLoadDest + first * g.blocksize) (fileSize inode - first * g.blocksize) ptr
      left j o s
    first * g.blocksize + loaded.1 = target disk g inode (first + n) ∧
      Image disk g inode loaded.2 (target disk g inode (first + n)) ∧ Keeps s loaded.2 := by
  induction left generalizing j o s with
  | zero =>
      rw [Nat.add_zero] at count
      subst count
      exact ⟨here, image, rfl, rfl, rfl⟩
  | succ left ih =>
      rw [loadDataFrom]
      by_cases ends : fileSize inode - first * g.blocksize ≤ o
      · have stays := (target_stays (show fileSize inode ≤ target disk g inode (first + j) by omega) (left + 1)).1
        rw [show first + j + (left + 1) = first + n by omega] at stays
        rw [if_pos ends, stays]
        exact ⟨here, image, rfl, rfl, rfl⟩
      · have more := target_before geometry (show target disk g inode (first + j) < fileSize inode by omega)
        have pointer := found j (by omega)
        rw [target_below more] at here image
        have place : kernelLoadDest + first * g.blocksize + o = kernelLoadDest + (first + j) * g.blocksize := by omega
        rw [if_neg ends, place, pointer]
        by_cases hole : foundPtr disk g inode (first + j) = 0
        · have clears : Clears disk g inode (first + j) := ⟨hole, whole j (by omega)⟩
          have next := target_clear geometry more clears
          have small := (room_of_target geometry fits next).2
          rw [if_pos hole, Nat.mod_eq_of_lt (show o + g.blocksize < word32 by omega)]
          have rest := ih (j + 1) (o + g.blocksize) _ (by omega) (by rw [← Nat.add_assoc first, ← next]; omega)
            (image.clear geometry fits more clears)
          exact ⟨rest.1, rest.2.1, rest.2.2.singly, rest.2.2.doubly, rest.2.2.remaining⟩
        · have next := target_block geometry more hole
          have small := (room_of_target geometry fits next).2
          have left' : fileSize inode - first * g.blocksize - o = fileSize inode - (first + j) * g.blocksize := by omega
          rw [if_neg hole, left']
          dsimp only
          have copied := image.copy geometry fits more hole
          generalize min g.blocksize (fileSize inode - (first + j) * g.blocksize) = tocopy at *
          rw [Nat.mod_eq_of_lt (show o + tocopy < word32 by omega)]
          have rest := ih (j + 1) (o + tocopy) _ (by omega) (by rw [← Nat.add_assoc first, ← next]; omega) copied
          exact ⟨rest.1, rest.2.1, rest.2.2.singly, rest.2.2.doubly, rest.2.2.remaining⟩

theorem loadData_image {first n : Nat} {ptr : Nat → Nat} {s : Loader} (more : first * g.blocksize < fileSize inode)
    (found : ∀ j < n, ptr j = foundPtr disk g inode (first + j))
    (whole : ∀ j < n, first + j < directBlockPointersCount + perBlock g ∨ foundInner disk g inode (first + j) ≠ 0)
    (image : Image disk g inode s (first * g.blocksize)) :
    let loaded := loadData disk g (kernelLoadDest + first * g.blocksize) ptr n (fileSize inode - first * g.blocksize) s
    first * g.blocksize + loaded.1 = target disk g inode (first + n) ∧
      Image disk g inode loaded.2 (target disk g inode (first + n)) ∧ Keeps s loaded.2 := by
  refine loadDataFrom_image geometry fits found whole n 0 0 s (Nat.zero_add n) ?_ ?_
  · rw [Nat.add_zero, Nat.add_zero, target_below more]
  · rwa [Nat.add_zero, target_below more]

end Loops

section Inner

variable {disk : Memory} {g : Globals} {inode : Memory} {m k : Nat}

theorem foundInner_at (below : k < perBlock g) :
    foundInner disk g inode (directBlockPointersCount + perBlock g + m * perBlock g + k) =
      foundTable disk g (doublyPtr inode) m := by
  have index : (directBlockPointersCount + perBlock g + m * perBlock g + k - (directBlockPointersCount + perBlock g)) /
      perBlock g = m := by
    rw [Nat.add_assoc _ (m * perBlock g), Nat.add_sub_cancel_left, Nat.mul_comm,
      Nat.mul_add_div (Nat.zero_lt_of_lt below), Nat.div_eq_of_lt below, Nat.add_zero]
  rw [foundInner, index]

theorem foundPtr_at (below : k < perBlock g) :
    foundPtr disk g inode (directBlockPointersCount + perBlock g + m * perBlock g + k) =
      if foundTable disk g (doublyPtr inode) m = 0 then 0
      else foundTable disk g (foundTable disk g (doublyPtr inode) m) k := by
  have index : (directBlockPointersCount + perBlock g + m * perBlock g + k - (directBlockPointersCount + perBlock g)) %
      perBlock g = k := by
    rw [Nat.add_assoc _ (m * perBlock g), Nat.add_sub_cancel_left, Nat.mul_comm, Nat.mul_add_mod,
      Nat.mod_eq_of_lt below]
  rw [foundPtr, if_neg (by omega), if_neg (by omega), foundInner_at below, index]

end Inner

theorem malloc_some {n : Nat} {s : Loader} (heap : n ≤ s.remaining) :
    malloc n s = some { s with remaining := s.remaining - n } := if_pos heap

section Phases

variable {disk : Memory} {g : Globals} {inode : Memory} (geometry : BlockGeometry g)
  (fits : fileSize inode ≤ word32 - kernelLoadDest)
  (capacity : fileSize inode ≤
    (directBlockPointersCount + perBlock g + perBlock g * perBlock g) * g.blocksize)
include geometry fits capacity

/-- The offset is that of the first block behind the pointer `m` of the doubly indirect block. -/
theorem doublyLoop_image (left m : Nat) (s : Loader) (count : m + left = perBlock g)
    (table : ∀ j < perBlock g, pointers s.doublyIndirectPtr j = foundTable disk g (doublyPtr inode) j)
    (image : Image disk g inode s
      (target disk g inode (directBlockPointersCount + perBlock g + m * perBlock g))) :
    let loaded := doublyLoop disk g (fileSize inode) left m
      (target disk g inode (directBlockPointersCount + perBlock g + m * perBlock g)) s
    loaded.1 = 0 ∧ Image disk g inode loaded.2 (finish disk g inode) := by
  induction left generalizing m s with
  | zero =>
      rw [Nat.add_zero] at count
      rw [count, target_end capacity] at image
      exact ⟨rfl, image⟩
  | succ left ih =>
      rw [doublyLoop]
      have next : directBlockPointersCount + perBlock g + m * perBlock g + perBlock g =
          directBlockPointersCount + perBlock g + (m + 1) * perBlock g := by
        rw [Nat.succ_mul, Nat.add_assoc]
      by_cases ends :
          fileSize inode ≤ target disk g inode (directBlockPointersCount + perBlock g + m * perBlock g)
      · rw [if_pos ends]
        rw [(target_stays ends 0).2] at image
        exact ⟨rfl, image⟩
      · have more := target_before geometry (Nat.lt_of_not_le ends)
        have pointer := table m (by omega)
        rw [target_below more] at image ends ⊢
        rw [if_neg ends]
        by_cases hole : pointers s.doublyIndirectPtr m = 0
        · rw [hole] at pointer
          have empty (k : Nat) (below : k < perBlock g) :
              foundPtr disk g inode (directBlockPointersCount + perBlock g + m * perBlock g + k) = 0 := by
            rw [foundPtr_at below, if_pos pointer.symm]
          have exact_ (k : Nat) (below : k < perBlock g) :
              ¬ Clears disk g inode (directBlockPointersCount + perBlock g + m * perBlock g + k) := by
            rintro ⟨-, early | inner⟩
            · omega
            · exact inner (foundInner_at below ▸ pointer.symm)
          have reached := target_part geometry more (perBlock g) exact_
          have grown := image.clearAll geometry fits more empty exact_
          rw [if_pos hole]
          dsimp only
          rw [show g.blocksize / 4 = perBlock g from rfl, Nat.mod_eq_of_lt (room_of_target geometry fits reached).2,
            reached]
          rw [next] at grown ⊢
          exact ih (m + 1) _ (by omega) table grown
        · rw [if_neg hole]
          dsimp only
          generalize fetched :
            read disk (blockLba g (pointers s.doublyIndirectPtr m)) g.sectorsPerBlock s.singlyIndirectPtr = singly
          have found (j : Nat) (below : j < perBlock g) : pointers singly j =
              foundPtr disk g inode (directBlockPointersCount + perBlock g + m * perBlock g + j) := by
            rw [← fetched, pointers_read geometry disk _ _ below, foundPtr_at below, ← pointer, if_neg hole]
            rfl
          have here : Image disk g inode { s with singlyIndirectPtr := singly }
              ((directBlockPointersCount + perBlock g + m * perBlock g) * g.blocksize) := image
          obtain ⟨reached, grown, keeps⟩ := loadData_image geometry fits more found
            (fun j below => .inr (by rwa [foundInner_at below, ← pointer])) here
          obtain ⟨-, small⟩ := room_of_target geometry fits reached
          rw [show g.blocksize / 4 = perBlock g from rfl, Nat.mod_eq_of_lt small]
          rw [next] at reached grown
          rw [reached]
          refine ih (m + 1) _ (by omega) (fun j below => ?_) grown
          rw [keeps.doubly]
          exact table j below

theorem loadDoubly_image {s : Loader} (heap : g.blocksize ≤ s.remaining)
    (image : Image disk g inode s (target disk g inode (directBlockPointersCount + perBlock g))) :
    let loaded := loadDoubly disk g inode (target disk g inode (directBlockPointersCount + perBlock g)) s
    loaded.1 = 0 ∧ Image disk g inode loaded.2 (finish disk g inode) := by
  have start : directBlockPointersCount + perBlock g =
      directBlockPointersCount + perBlock g + 0 * perBlock g := by rw [Nat.zero_mul, Nat.add_zero]
  rw [loadDoubly, malloc_some heap]
  dsimp only
  rw [show g.blocksize / 4 = perBlock g from rfl]
  rw [start] at image ⊢
  exact doublyLoop_image geometry fits capacity (perBlock g) 0 _ (Nat.zero_add _)
    (fun j below => pointers_read geometry disk _ _ below) image

theorem loadSingly_image {s : Loader} (heap : 2 * g.blocksize ≤ s.remaining)
    (more : directBlockPointersCount * g.blocksize < fileSize inode)
    (image : Image disk g inode s (directBlockPointersCount * g.blocksize)) :
    let loaded := loadSingly disk g inode (directBlockPointersCount * g.blocksize) s
    loaded.1 = 0 ∧ Image disk g inode loaded.2 (finish disk g inode) := by
  rw [loadSingly, malloc_some (by omega)]
  dsimp only
  generalize fetched : read disk (blockLba g (singlyPtr inode)) g.sectorsPerBlock s.singlyIndirectPtr = singly
  have found (j : Nat) (below : j < perBlock g) :
      pointers singly j = foundPtr disk g inode (directBlockPointersCount + j) := by
    rw [← fetched, pointers_read geometry disk _ _ below, foundPtr, if_neg (by omega), if_pos (by omega),
      Nat.add_sub_cancel_left]
    rfl
  have here : Image disk g inode
      { s with remaining := s.remaining - g.blocksize, singlyIndirectPtr := singly }
      (directBlockPointersCount * g.blocksize) := image
  obtain ⟨reached, grown, keeps⟩ := loadData_image geometry fits more found (fun j below => .inl (by omega)) here
  obtain ⟨-, small⟩ := room_of_target geometry fits reached
  rw [show g.blocksize / 4 = perBlock g from rfl, Nat.mod_eq_of_lt small, reached]
  by_cases ends : fileSize inode ≤ target disk g inode (directBlockPointersCount + perBlock g)
  · rw [if_pos ends]
    rw [(target_stays ends 0).2] at grown
    exact ⟨rfl, grown⟩
  · rw [if_neg ends]
    refine loadDoubly_image geometry fits capacity ?_ grown
    rw [keeps.remaining]
    dsimp only
    omega

/-- The loader succeeds, and memory holds what it takes for the file. -/
theorem loadKernelBinary_image {s : Loader} (heap : 3 * g.blocksize ≤ s.remaining)
    (fresh : s.memory = fun _ => none) :
    let loaded := loadKernelBinary disk g inode s
    loaded.1 = 0 ∧ Image disk g inode loaded.2 (finish disk g inode) := by
  rw [loadKernelBinary, malloc_some (by omega)]
  dsimp only
  generalize taken : { s with remaining := s.remaining - g.blocksize } = s₁
  have empty : Image disk g inode s₁ 0 := by
    intro a
    rw [if_neg (by omega), ← taken]
    exact congrFun fresh a
  have start : target disk g inode (0 + 0) = 0 := by
    by_cases more : (0 + 0) * g.blocksize < fileSize inode
    · rw [target_below more, Nat.zero_mul]
    · have none : fileSize inode = 0 := by omega
      have whole : ¬ Overruns disk g inode := fun overruns => overruns.1 (by rw [none, Nat.zero_mod])
      rw [target_end (Nat.le_of_not_lt more), finish, if_neg whole, none]
  have found (j : Nat) (below : j < directBlockPointersCount) : directPtr inode j = foundPtr disk g inode (0 + j) := by
    rw [Nat.zero_add, foundPtr, if_pos below]
  obtain ⟨reached, grown, keeps⟩ := loadDataFrom_image geometry fits found (fun j below => .inl (by omega))
    directBlockPointersCount 0 0 s₁ (Nat.zero_add _) (by rw [start, Nat.zero_mul]) (by rwa [start])
  simp only [Nat.zero_mul, Nat.zero_add, Nat.add_zero, Nat.sub_zero] at reached grown keeps
  rw [loadData, reached]
  by_cases ends : fileSize inode ≤ target disk g inode directBlockPointersCount
  · rw [if_pos ends]
    rw [(target_stays ends 0).2] at grown
    exact ⟨rfl, grown⟩
  · have more := target_before geometry (Nat.lt_of_not_le ends)
    rw [if_neg ends]
    rw [target_below more] at grown ⊢
    refine loadSingly_image geometry fits capacity ?_ more grown
    rw [keeps.remaining, ← taken]
    dsimp only
    omega

end Phases

section High

variable {disk : Memory} {g : Globals} {inode : Memory} {a : Nat} (high : word32 ≤ a)
include high

theorem loadDataFrom_high (dest max : Nat) (ptr : Nat → Nat) (left i offset : Nat) (s : Loader) :
    (loadDataFrom disk g dest max ptr left i offset s).2.memory a = s.memory a := by
  induction left generalizing i offset s with
  | zero => rfl
  | succ left ih =>
      rw [loadDataFrom]
      split
      · rfl
      · split
        · rw [ih, memory_put_high high]
        · dsimp only
          rw [ih, memory_put_high high]

theorem doublyLoop_high (filesize left m offset : Nat) (s : Loader) :
    (doublyLoop disk g filesize left m offset s).2.memory a = s.memory a := by
  induction left generalizing m offset s with
  | zero => rfl
  | succ left ih =>
      rw [doublyLoop]
      split
      · rfl
      · split
        · dsimp only
          rw [ih, memory_put_high high]
        · dsimp only
          rw [ih, loadData, loadDataFrom_high high]

theorem loadDoubly_high (offset : Nat) (s : Loader) : (loadDoubly disk g inode offset s).2.memory a = s.memory a := by
  rw [loadDoubly, malloc]
  split
  · rfl
  · next taken =>
      split at taken
      · cases taken
        exact doublyLoop_high high _ _ _ _ _
      · cases taken

theorem loadSingly_high (offset : Nat) (s : Loader) : (loadSingly disk g inode offset s).2.memory a = s.memory a := by
  rw [loadSingly, malloc]
  split
  · rfl
  · next taken =>
      split at taken
      · cases taken
        dsimp only
        split
        · exact loadDataFrom_high high _ _ _ _ _ _ _
        · rw [loadDoubly_high high]
          exact loadDataFrom_high high _ _ _ _ _ _ _
      · cases taken

theorem loadKernelBinary_high (s : Loader) : (loadKernelBinary disk g inode s).2.memory a = s.memory a := by
  rw [loadKernelBinary, malloc]
  split
  · rfl
  · next taken =>
      split at taken
      · cases taken
        dsimp only
        split
        · exact loadDataFrom_high high _ _ _ _ _ _ _
        · rw [loadSingly_high high]
          exact loadDataFrom_high high _ _ _ _ _ _ _
      · cases taken

end High

section Contents

variable {disk : Memory} {g : Globals} {inode : Memory} {b i : Nat}

theorem foundByte_eq (reach : InReach g b) (some : b ≠ 0) : foundByte disk g b = blockByte disk g b := by
  have small : g.pstart + b * g.sectorsPerBlock < word32 := reach.resolve_left some
  have same : blockLba g b = g.pstart + b * g.sectorsPerBlock := by
    rw [blockLba, Nat.mod_eq_of_lt (show b * g.sectorsPerBlock < word32 by omega), Nat.mod_eq_of_lt small]
  funext r
  rw [foundByte, blockByte, same]

theorem foundTable_eq (reach : InReach g b) (some : b ≠ 0) (j : Nat) : foundTable disk g b j = tablePtr disk g b j := by
  rw [foundTable, tablePtr, if_neg some, foundByte_eq reach some]

theorem foundPtr_eq (found : Found disk g inode i) :
    foundPtr disk g inode i = filePtr disk g inode i ∧ InReach g (filePtr disk g inode i) := by
  rw [Found] at found
  by_cases direct : i < directBlockPointersCount
  · rw [if_pos direct] at found
    rw [foundPtr, filePtr, if_pos direct, if_pos direct]
    exact ⟨rfl, found⟩
  · rw [if_neg direct] at found
    by_cases singly : i < directBlockPointersCount + perBlock g
    · rw [if_pos singly] at found
      obtain ⟨some, table, block⟩ := found
      refine ⟨?_, block⟩
      rw [foundPtr, filePtr, if_neg direct, if_neg direct, if_pos singly, if_pos singly, foundTable_eq table some]
    · rw [if_neg singly] at found
      obtain ⟨some, table, inner, block⟩ := found
      refine ⟨?_, block⟩
      rw [foundPtr, filePtr, if_neg direct, if_neg direct, if_neg singly, if_neg singly, foundInner,
        foundTable_eq table some]
      dsimp only
      generalize tablePtr disk g (doublyPtr inode)
        ((i - (directBlockPointersCount + perBlock g)) / perBlock g) = b at *
      by_cases hole : b = 0
      · rw [if_pos hole, tablePtr, if_pos hole]
      · rw [if_neg hole, foundTable_eq inner hole]

theorem loadedByte_found {k : Nat} (found : Found disk g inode (k / g.blocksize)) :
    loadedByte disk g inode k = fileByte disk g inode k := by
  obtain ⟨same, reach⟩ := foundPtr_eq found
  rw [loadedByte, fileByte, same]
  split
  · rfl
  · next some => rw [foundByte_eq reach some]

end Contents

section Boot

variable {disk : Memory} {g : Globals} {inode : Memory} {s : Loader} (geometry : BlockGeometry g)
include geometry

theorem finish_of_overruns (overruns : Overruns disk g inode) : fileSize inode < finish disk g inode := by
  rw [finish, if_pos overruns]
  rcases geometry.blocksize with size | size | size <;> simp only [size] <;> omega

end Boot

def smallBlocks : Globals := ⟨2048, 1024, 128, 2, 8192, 2048, 2052⟩

def unloaded : Loader := ⟨fun _ => none, fun _ => 0, fun _ => 0, fun _ => 0, 1024 * 80⟩

theorem smallBlocks_geometry : BlockGeometry smallBlocks := ⟨.inl rfl, rfl⟩

def oneBlockInode : Memory := fun a => if a = 5 then 4 else if a = 40 then 5 else 0

def holeInode : Memory := fun a => if a = 4 then 100 else 0

end SnapOS.Boot
