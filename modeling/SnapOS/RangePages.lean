/- The pages mmu_map_range maps for a range, as a list and address by address. In both uses of vmm_init the virtual
addresses are a multiple of 1G above the physical ones, so the sizes of the pages follow from the physical range. -/
import SnapOS.MapOutcome

namespace SnapOS.Paging
open SnapOS.Lib

def pageOf (oneG : Bool) (start len : Nat) : PageKind := Mmu.pageKind ⟨fun _ _ => 0, [], oneG⟩ start start len

def rangePages (oneG : Bool) (start len : Nat) : List MapPage :=
  if 0 < len then
    ⟨start, pageOf oneG start len⟩ ::
      rangePages oneG (start + Mmu.chunkOf (pageOf oneG start len)) (len - Mmu.chunkOf (pageOf oneG start len))
  else []
termination_by len
decreasing_by exact Nat.sub_lt ‹0 < len› (Mmu.chunkOf_pos _)

section Loop

variable {m m' : Mmu} {opts : Pgprot} {pgd base : Nat}

theorem Walks.cpu {vaddr n t : Nat} (walks : Walks vaddr m pgd n t m') : m'.cpuHas1gPages = m.cpuHas1gPages := by
  induction walks with
  | top => rfl
  | down above plain entry ih =>
      obtain ⟨_, ⟨_, rfl⟩ | ⟨_, allocated⟩⟩ := mmuEntry_ok entry
      · exact ih
      · obtain ⟨f, rest, _, rfl⟩ := mmuAllocTable_ok allocated
        exact ih

theorem placePage_cpu {b : MapPage} (h : placePage opts pgd base m b = .ok m') :
    m'.cpuHas1gPages = m.cpuHas1gPages := by
  obtain ⟨table, m₁, walks, rfl⟩ := mmuMapOne_ok h
  exact walks.cpu

theorem vaddr_mod {size : Nat} (word : size ∣ word64) (aligned : size ∣ base) (p : Nat) :
    (p + base) % word64 % size = p % size := by
  rw [Nat.mod_mod_of_dvd _ word]
  obtain ⟨k, rfl⟩ := aligned
  exact Nat.add_mul_mod_self_left ..

theorem pageKind_pageOf (aligned : pageSize1g ∣ base) (m : Mmu) (p len : Nat) :
    m.pageKind ((p + base) % word64) p len = pageOf m.cpuHas1gPages p len := by
  have huge := vaddr_mod (by decide : pageSize1g ∣ word64) aligned p
  have big := vaddr_mod (by decide : pageSize2m ∣ word64) (Nat.dvd_trans (by decide) aligned) p
  simp only [pageOf, Mmu.pageKind, isPageAlignedTo, huge, big]
  rfl

theorem mmuMapLoop_pages (aligned : pageSize1g ∣ base) {start len : Nat} (fits : start + len ≤ word64) :
    Mmu.mmuMapLoop opts pgd m ((start + base) % word64) start len =
      (rangePages m.cpuHas1gPages start len).foldlM (placePage opts pgd base) m := by
  induction len using Nat.strong_induction_on generalizing m start with
  | h len ih =>
      rw [Mmu.mmuMapLoop, rangePages]
      split
      · next more =>
          rw [List.foldlM_cons, pageKind_pageOf aligned]
          have positive := Mmu.chunkOf_pos (pageOf m.cpuHas1gPages start len)
          generalize hsize : pageOf m.cpuHas1gPages start len = size at positive
          change (placePage opts pgd base m ⟨start, size⟩ >>= _) = _
          cases one : placePage opts pgd base m ⟨start, size⟩ with
          | error e => rfl
          | ok m₁ =>
              rw [Exec.ok_bind, Exec.ok_bind, ← placePage_cpu one]
              by_cases last : len - Mmu.chunkOf size = 0
              · rw [last, Mmu.mmuMapLoop, rangePages, if_neg (Nat.lt_irrefl 0), if_neg (Nat.lt_irrefl 0)]
                rfl
              · have next : ((start + base) % word64 + Mmu.chunkOf size) % word64 =
                    (start + Mmu.chunkOf size + base) % word64 := by
                  rw [Nat.mod_add_mod, Nat.add_right_comm]
                rw [next, Nat.mod_eq_of_lt (show start + Mmu.chunkOf size < word64 by omega)]
                exact ih _ (by omega) (by omega)
      · rfl

end Loop

/-- The range maps the address with a page of the level. A block of `PAGE_SIZE_2M` bytes has a page of 2M at its start
and nothing behind it. -/
def PageAt (oneG : Bool) (start len level a : Nat) : Prop :=
  (level = 2 ∧ oneG = true ∧ BlockInside pageSize1g start len a) ∨
  (level = 1 ∧ ¬ (oneG = true ∧ BlockInside pageSize1g start len a) ∧ BlockInside pageSize2m start len a ∧
    a % pageSize2m < span 1) ∨
  (level = 0 ∧ ¬ (oneG = true ∧ BlockInside pageSize1g start len a) ∧ ¬ BlockInside pageSize2m start len a ∧
    start ≤ a ∧ a < start + len)

section PageAt

variable {oneG : Bool} {start len level a : Nat}

theorem BlockInside.bounds {size vaddr : Nat} (positive : 0 < size) (inside : BlockInside size vaddr len a) :
    vaddr ≤ a ∧ a < vaddr + len := by
  have split := Nat.div_add_mod' a size
  have offset := Nat.mod_lt a positive
  obtain ⟨low, high⟩ := inside
  omega

theorem PageAt.bounds (page : PageAt oneG start len level a) : start ≤ a ∧ a < start + len := by
  rcases page with ⟨_, _, huge⟩ | ⟨_, _, big, _⟩ | ⟨_, _, _, small⟩
  · exact huge.bounds (by decide)
  · exact big.bounds (by decide)
  · exact small

theorem blockInside_first {size : Nat} (aligned : start % size = 0) (enough : size ≤ len) (low : start ≤ a)
    (high : a < start + size) : BlockInside size start len a := by
  obtain ⟨k, rfl⟩ := Nat.dvd_of_mod_eq_zero aligned
  have block : a / size = k :=
    Nat.div_eq_of_lt_le (by rwa [Nat.mul_comm]) (by rw [Nat.succ_mul, Nat.mul_comm k]; exact high)
  rw [BlockInside, block, Nat.mul_comm k]
  omega

/-- A step of the loop: the page at the front, and the same blocks as before behind it. -/
theorem pageAt_step {chunk first : Nat} (fits : chunk ≤ len) (short : span first ≤ chunk)
    (huge : start + chunk ≤ a → oneG = true →
      (BlockInside pageSize1g start len a ↔ BlockInside pageSize1g (start + chunk) (len - chunk) a))
    (big : start + chunk ≤ a →
      (BlockInside pageSize2m start len a ↔ BlockInside pageSize2m (start + chunk) (len - chunk) a))
    (front : start ≤ a → a < start + chunk → (PageAt oneG start len level a ↔ level = first ∧ a < start + span first)) :
    PageAt oneG start len level a ↔
      (level = first ∧ start ≤ a ∧ a < start + span first) ∨ PageAt oneG (start + chunk) (len - chunk) level a := by
  by_cases low : start ≤ a
  · by_cases inFront : a < start + chunk
    · have notLater : ¬ PageAt oneG (start + chunk) (len - chunk) level a := fun later =>
        absurd later.bounds.1 (Nat.not_le.mpr inFront)
      rw [front low inFront]
      simp only [notLater, low, true_and, or_false]
    · have behind := Nat.not_lt.mp inFront
      have huge' := and_congr_right (huge behind)
      have range : (start ≤ a ∧ a < start + len) ↔ start + chunk ≤ a ∧ a < start + chunk + (len - chunk) := by omega
      have notFront : ¬ (level = first ∧ start ≤ a ∧ a < start + span first) := by omega
      simp only [PageAt, huge', big behind, range, notFront, false_or]
  · have none : ¬ PageAt oneG start len level a := fun page => low page.bounds.1
    have noneLater : ¬ PageAt oneG (start + chunk) (len - chunk) level a := fun later => by
      have := later.bounds.1
      omega
    simp only [none, low, noneLater, false_and, and_false, or_self]

theorem pageAt_1g (use : Use1g oneG start start len) : PageAt oneG start len level a ↔
    (level = 2 ∧ start ≤ a ∧ a < start + span 2) ∨ PageAt oneG (start + pageSize1g) (len - pageSize1g) level a := by
  obtain ⟨has, aligned, _, enough⟩ := use
  refine pageAt_step enough (Nat.le_refl _) (fun behind _ => ?_) (fun behind => ?_) fun low high => ?_
  · simp only [BlockInside, pageSize1g_eq] at *
    omega
  · simp only [BlockInside, pageSize2m_eq, pageSize1g_eq] at *
    omega
  · have inside : oneG = true ∧ BlockInside pageSize1g start len a := ⟨has, blockInside_first aligned enough low high⟩
    have short : a < start + span 2 := high
    simp only [PageAt, inside, short, and_self, and_true, not_true_eq_false, false_and, and_false, or_false]

theorem pageAt_2m (use : Use2m start start len) (not1g : ¬ Use1g oneG start start len) :
    PageAt oneG start len level a ↔
      (level = 1 ∧ start ≤ a ∧ a < start + span 1) ∨ PageAt oneG (start + pageSize2m) (len - pageSize2m) level a := by
  obtain ⟨aligned, _, enough⟩ := use
  refine pageAt_step enough (by decide) (fun behind has => ?_) (fun behind => ?_) fun low high => ?_
  · have short : ¬ (start % pageSize1g = 0 ∧ pageSize1g ≤ len) := fun huge => not1g ⟨has, huge.1, huge⟩
    simp only [BlockInside, pageSize2m_eq, pageSize1g_eq] at *
    omega
  · simp only [BlockInside, pageSize2m_eq] at *
    omega
  · have inside := blockInside_first aligned enough low high
    have outside : ¬ (oneG = true ∧ BlockInside pageSize1g start len a) := by
      rintro ⟨has, huge⟩
      have short : ¬ (start % pageSize1g = 0 ∧ pageSize1g ≤ len) := fun huge => not1g ⟨has, huge.1, huge⟩
      simp only [BlockInside, pageSize2m_eq, pageSize1g_eq] at *
      omega
    have quarter : a % pageSize2m < span 1 ↔ a < start + span 1 := by
      simp only [pageSize2m_eq, span_one] at *
      omega
    simp only [PageAt, inside, outside, quarter, not_true_eq_false, not_false_eq_true, true_and, false_and, and_false,
      or_false, false_or]

theorem pageAt_4k (aligned : start % pageSize = 0) (whole : len % pageSize = 0) (more : 0 < len)
    (not2m : ¬ Use2m start start len) (not1g : ¬ Use1g oneG start start len) :
    PageAt oneG start len level a ↔
      (level = 0 ∧ start ≤ a ∧ a < start + span 0) ∨ PageAt oneG (start + pageSize) (len - pageSize) level a := by
  have enough : pageSize ≤ len := Nat.le_of_dvd more (Nat.dvd_of_mod_eq_zero whole)
  have short : ¬ (start % pageSize2m = 0 ∧ pageSize2m ≤ len) := fun big => not2m ⟨big.1, big⟩
  have short1g (has : oneG = true) : ¬ (start % pageSize1g = 0 ∧ pageSize1g ≤ len) := fun huge =>
    not1g ⟨has, huge.1, huge⟩
  refine pageAt_step enough (Nat.le_refl _) (fun behind has => ?_) (fun behind => ?_) fun low high => ?_
  · have short := short1g has
    simp only [BlockInside, pageSize, pageSize1g_eq] at *
    omega
  · simp only [BlockInside, pageSize, pageSize2m_eq] at *
    omega
  · have notBig : ¬ BlockInside pageSize2m start len a := by
      simp only [BlockInside, pageSize, pageSize2m_eq] at *
      omega
    have notHuge : ¬ (oneG = true ∧ BlockInside pageSize1g start len a) := by
      rintro ⟨has, huge⟩
      have short := short1g has
      simp only [BlockInside, pageSize, pageSize1g_eq] at *
      omega
    have inside : a < start + len := by omega
    simp only [PageAt, notBig, notHuge, not_false_eq_true, false_and, and_false, low, inside, false_or,
      and_true, show a < start + span 0 from high]

theorem pageAt_next (aligned : start % pageSize = 0) (whole : len % pageSize = 0) (more : 0 < len) :
    PageAt oneG start len level a ↔
      (level = levelOfPage (pageOf oneG start len) ∧ start ≤ a ∧
        a < start + span (levelOfPage (pageOf oneG start len))) ∨
        PageAt oneG (start + Mmu.chunkOf (pageOf oneG start len))
          (len - Mmu.chunkOf (pageOf oneG start len)) level a := by
  rw [pageOf]
  rcases pageKind_cases ⟨fun _ _ => 0, [], oneG⟩ start start len with
    ⟨kind, use⟩ | ⟨kind, not1g, use⟩ | ⟨kind, not1g, not2m⟩
  · rw [kind]
    exact pageAt_1g use
  · rw [kind]
    exact pageAt_2m use not1g
  · rw [kind]
    exact pageAt_4k aligned whole more not2m not1g

end PageAt

namespace MapPage

def Holds (b : MapPage) (p : Nat) : Prop := b.start ≤ p ∧ p < b.start + span b.level

def Aligned (b : MapPage) : Prop := b.start % span b.level = 0

def Before (b c : MapPage) : Prop := b.start + span b.level ≤ c.start

end MapPage

section Pages

variable {oneG : Bool} {start len : Nat}

/-- The pages of a range are aligned blocks in ascending order. -/
theorem rangePages_shape (oneG : Bool) (aligned : start % pageSize = 0) (whole : len % pageSize = 0) :
    (∀ b ∈ rangePages oneG start len, b.Aligned ∧ start ≤ b.start) ∧
      (rangePages oneG start len).Pairwise MapPage.Before := by
  induction len using Nat.strong_induction_on generalizing start with
  | h len ih =>
      rw [rangePages]
      split
      · next more =>
          have chunk : Chunk _ _ _ _ (levelOfPage (pageOf oneG start len)) (Mmu.chunkOf (pageOf oneG start len)) :=
            pageKind_chunk ⟨fun _ _ => 0, [], oneG⟩ aligned aligned whole more
          have fits := chunk.chunk_le
          have short := chunk.span_le
          have positive := Mmu.chunkOf_pos (pageOf oneG start len)
          have pages := Nat.dvd_of_mod_eq_zero chunk.pages
          obtain ⟨later, ascending⟩ := ih (len - Mmu.chunkOf (pageOf oneG start len)) (by omega)
            (Nat.mod_eq_zero_of_dvd (Nat.dvd_add (Nat.dvd_of_mod_eq_zero aligned) pages))
            (Nat.mod_eq_zero_of_dvd (Nat.dvd_sub (Nat.dvd_of_mod_eq_zero whole) pages))
          refine ⟨List.forall_mem_cons.mpr ⟨⟨chunk.valigned, Nat.le_refl _⟩, fun b member => ?_⟩,
            List.pairwise_cons.mpr ⟨fun b member => ?_, ascending⟩⟩
          · obtain ⟨onBlock, above⟩ := later b member
            exact ⟨onBlock, by omega⟩
          · obtain ⟨_, above⟩ := later b member
            exact Nat.le_trans (Nat.add_le_add_left short start) above
      · exact ⟨List.forall_mem_nil _, List.Pairwise.nil⟩

theorem pageAt_iff (aligned : start % pageSize = 0) (whole : len % pageSize = 0) {level a : Nat} :
    PageAt oneG start len level a ↔ ∃ b ∈ rangePages oneG start len, b.level = level ∧ b.Holds a := by
  induction len using Nat.strong_induction_on generalizing start with
  | h len ih =>
      rw [rangePages]
      split
      · next more =>
          have chunk : Chunk _ _ _ _ (levelOfPage (pageOf oneG start len)) (Mmu.chunkOf (pageOf oneG start len)) :=
            pageKind_chunk ⟨fun _ _ => 0, [], oneG⟩ aligned aligned whole more
          have positive := Mmu.chunkOf_pos (pageOf oneG start len)
          have pages := Nat.dvd_of_mod_eq_zero chunk.pages
          have later := ih (len - Mmu.chunkOf (pageOf oneG start len)) (by omega)
            (Nat.mod_eq_zero_of_dvd (Nat.dvd_add (Nat.dvd_of_mod_eq_zero aligned) pages))
            (Nat.mod_eq_zero_of_dvd (Nat.dvd_sub (Nat.dvd_of_mod_eq_zero whole) pages))
          rw [pageAt_next aligned whole more, later]
          simp only [List.mem_cons, exists_eq_or_imp]
          exact or_congr_left ⟨fun ⟨same, inside⟩ => ⟨same.symm, inside⟩, fun ⟨same, inside⟩ => ⟨same.symm, inside⟩⟩
      · next done =>
          refine ⟨fun page => ?_, fun ⟨b, member, _⟩ => absurd member List.not_mem_nil⟩
          have := page.bounds
          omega

end Pages

/-! The virtual block of a page, by physical addresses -/

section Blocks

variable {base : Nat}

theorem sameBlock_window {level q : Nat} (bound : level ≤ 2) (aligned : q % span level = 0) (based : pageSize1g ∣ base)
    (a : Nat) : SameBlock level ((q + base) % word64) a ↔
      ∃ p, (q ≤ p ∧ p < q + span level) ∧ (p + base) % addressBits = a % addressBits := by
  obtain ⟨k, rfl⟩ := based
  have split : ((q + pageSize1g * k) % word64 % addressBits / span level = a % addressBits / span level ↔
      ∃ p, (q ≤ p ∧ p < q + span level) ∧ (p + pageSize1g * k) % addressBits = a % addressBits) := by
    constructor
    · intro same
      refine ⟨q + a % addressBits % span level, ?_⟩
      rcases level with _ | _ | _ | level
      · rw [span_zero, pageSize1g_eq, addressBits, word64] at *
        omega
      · rw [span_one, pageSize1g_eq, addressBits, word64] at *
        omega
      · rw [span_two, pageSize1g_eq, addressBits, word64] at *
        omega
      · omega
    · rintro ⟨p, inside, same⟩
      rcases level with _ | _ | _ | level
      · rw [span_zero, pageSize1g_eq, addressBits, word64] at *
        omega
      · rw [span_one, pageSize1g_eq, addressBits, word64] at *
        omega
      · rw [span_two, pageSize1g_eq, addressBits, word64] at *
        omega
      · omega
  exact split

theorem MapPage.block_iff {b : MapPage} (aligned : b.Aligned) (based : pageSize1g ∣ base) (a : Nat) :
    SameBlock b.level (b.vaddr base) a ↔ ∃ p, b.Holds p ∧ (p + base) % addressBits = a % addressBits :=
  sameBlock_window (levelOfPage_le b.size) aligned based a

theorem strictPages_apart {b c : MapPage} (based : pageSize1g ∣ base) (aligned : b.Aligned) (aligned' : c.Aligned) :
    (strictPages base).Apart b c ↔ ∀ p p', b.Holds p → c.Holds p' → p % addressBits ≠ p' % addressBits := by
  constructor
  · intro apart p p' first second same
    refine apart (p + base) ((b.block_iff aligned based _).mpr ⟨p, first, rfl⟩)
      ((c.block_iff aligned' based _).mpr ⟨p', second, ?_⟩)
    rw [Nat.add_mod, ← same, ← Nat.add_mod]
  · intro disjoint a first second
    obtain ⟨p, inside, here⟩ := (b.block_iff aligned based a).mp first
    obtain ⟨p', inside', here'⟩ := (c.block_iff aligned' based a).mp second
    have same := here.trans here'.symm
    refine disjoint p p' inside inside' ?_
    rw [addressBits] at *
    omega

end Blocks

end SnapOS.Paging
