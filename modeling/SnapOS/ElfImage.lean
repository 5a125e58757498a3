/- The image of a program: what elf_load leaves in the memory of the task. -/
import SnapOS.ElfPages

namespace SnapOS.Elf
open SnapOS.Lib SnapOS.Fs SnapOS.Ext2Io SnapOS.Paging

variable {σ : Type} {env : LoadEnv} {fops : FileOps σ} {size : Nat} {content : Memory} {good : Inode → σ → Prop}
  {pgd : Nat}

/-! Memory -/

/-- How far `a` is above `v`, in 64 bits. -/
def ahead (v a : Nat) : Nat := (a + (word64 - v)) % word64

/-- The memory of the task behind an event, by virtual addresses: no two pages of the task have the same frame. -/
def LoadEvent.apply : LoadEvent → Memory → Memory
  | .map _ _ _ _, mem => mem
  | .store vaddr length bytes, mem => fun a => if ahead vaddr a < length then bytes (ahead vaddr a) else mem a

/-- A page that has been mapped starts with the `stale` bytes of its frame. -/
def memoryAfter (log : List LoadEvent) (stale : Memory) : Memory := log.foldl (fun mem e => e.apply mem) stale

section Memory

variable {v a i : Nat}

theorem add_ahead (word : v < word64) (address : a < word64) : (v + ahead v a) % word64 = a := by
  simp only [ahead, word64] at *
  omega

theorem ahead_tail {low high : Nat} (word : v < word64) (bound : high < word64) (proper : low < high) :
    ahead ((v + low) % word64) a < high - low ↔ low ≤ ahead v a ∧ ahead v a < high := by
  simp only [ahead, word64] at *
  omega

theorem memoryAfter_append (log log' : List LoadEvent) (stale : Memory) :
    memoryAfter (log ++ log') stale = memoryAfter log' (memoryAfter log stale) := List.foldl_append

end Memory

/-! The image that the headers describe -/

namespace ProgramHeader

def length (phdr : ProgramHeader) : Nat := max phdr.fileSize phdr.memSize

def byte (content : Memory) (phdr : ProgramHeader) (i : Nat) : UInt8 :=
  if i < phdr.fileSize then content (phdr.offset + i) else 0

def byteAt (content : Memory) (phdr : ProgramHeader) (a : Nat) : Option UInt8 :=
  if phdr.loadable = true ∧ ahead phdr.vaddr a < phdr.length then some (phdr.byte content (ahead phdr.vaddr a))
    else none

def Inside (size : Nat) (phdr : ProgramHeader) : Prop := phdr.fileSize = 0 ∨ phdr.offset + phdr.fileSize ≤ size

end ProgramHeader

/-- The last header that says something about an address decides. -/
def imageByte (content : Memory) : List ProgramHeader → Nat → Option UInt8
  | [], _ => none
  | phdr :: rest, a => (imageByte content rest a).or (phdr.byteAt content a)

/-- The byte is there, whatever was in the frames before. -/
structure HasByte (pgd : Nat) (s : LoadState σ) (a : Nat) (b : UInt8) : Prop where
  canonical : Canonical a
  mapped : (translate s.mmu.tables pgd a).isSome
  value : ∀ stale, memoryAfter s.log stale a = b

structure SegmentLoaded (size : Nat) (content : Memory) (pgd : Nat) (s : LoadState σ)
    (phdr : ProgramHeader) : Prop where
  inside : ∀ i < phdr.fileSize, phdr.offset + i < size
  bytes : ∀ i < phdr.fileSize, HasByte pgd s ((phdr.vaddr + i) % word64) (content (phdr.offset + i))
  zeros : ∀ i, phdr.fileSize ≤ i → i < phdr.memSize → HasByte pgd s ((phdr.vaddr + i) % word64) 0

def headersIn (size : Nat) (content : Memory) : List ProgramHeader :=
  programHeaders content (ElfHeader.decode content).phoff
    (min (ElfHeader.decode content).phnum ((size - (ElfHeader.decode content).phoff) / sizeofProgramHeader))

/-- What a successful call should have done. -/
structure ImageLoaded (size : Nat) (content : Memory) (pgd : Nat) (out : Outcome) (s : LoadState σ) : Prop where
  entry : out.ptr = (ElfHeader.decode content).entry
  segments : ∀ phdr ∈ headersIn size content, phdr.type = elfPhdrLoad → SegmentLoaded size content pgd s phdr

/-- The files that are loaded as they say. All segments are in the file, and where the last aligned header with an
address decides about its byte, it agrees with the others; a header that is not aligned depends on the others for all
its bytes. Of a table that is cut off nothing is loaded, and the result is the number of bytes that are there. -/
structure Faithful (size : Nat) (content : Memory) : Prop where
  table : HasTable size content → ∀ phdr ∈ headersOf content, phdr.type = elfPhdrLoad → phdr.Inside size ∧
    ∀ i < phdr.length, imageByte content (headersOf content) ((phdr.vaddr + i) % word64) = some (phdr.byte content i)
  odd : ∀ ptr, OddExit size content ptr → isErr ptr = false → (ElfHeader.decode content).entry = ptr ∧
    ∀ phdr ∈ headersIn size content, phdr.type = elfPhdrLoad → phdr.length = 0

section Image

variable {size : Nat} {content : Memory} {pgd : Nat} {s : LoadState σ} {phdr : ProgramHeader}

theorem HasTable.headersIn (table : HasTable size content) : headersIn size content = headersOf content := by
  have all := table.complete
  rw [Elf.headersIn, headersOf, Nat.min_eq_left]
  rwa [Nat.le_div_iff_mul_le (by decide), Nat.mul_comm]

theorem segmentLoaded_iff (image : Nat → Option UInt8)
    (memory : ∀ a < word64, ∀ stale, memoryAfter s.log stale a = (image a).getD (stale a))
    (mapped : ∀ a < word64, (image a).isSome → Canonical a ∧ (translate s.mmu.tables pgd a).isSome) :
    SegmentLoaded size content pgd s phdr ↔
      phdr.Inside size ∧ ∀ i < phdr.length, image ((phdr.vaddr + i) % word64) = some (phdr.byte content i) := by
  have address : ∀ i, (phdr.vaddr + i) % word64 < word64 := fun i => Nat.mod_lt _ (by decide)
  have found : ∀ a < word64, ∀ b, HasByte pgd s a b ↔ image a = some b := by
    intro a word b
    constructor
    · intro has
      -- With another byte in the frame before, the image has no say.
      have value := has.value fun _ => b + 1
      rw [memory a word] at value
      cases said : image a with
      | none =>
          rw [said] at value
          exact absurd value (by simp)
      | some b' =>
          rw [said] at value
          exact congrArg some value
    · intro said
      obtain ⟨canonical, there⟩ := mapped a word (by rw [said]; rfl)
      exact ⟨canonical, there, fun stale => by rw [memory a word, said]; rfl⟩
  constructor
  · intro loaded
    refine ⟨?_, fun i bound => ?_⟩
    · rcases Nat.eq_zero_or_pos phdr.fileSize with none | some
      · exact Or.inl none
      · have last := loaded.inside (phdr.fileSize - 1) (by omega)
        exact Or.inr (by omega)
    · rw [← found _ (address i), ProgramHeader.byte]
      split_ifs with inFile
      · exact loaded.bytes i inFile
      · rw [ProgramHeader.length] at bound
        exact loaded.zeros i (Nat.not_lt.mp inFile) (by omega)
  · rintro ⟨inside, described⟩
    refine ⟨fun i before => ?_, fun i before => ?_, fun i above below => ?_⟩
    · rcases inside with none | fits
      · omega
      · omega
    · have bound : i < phdr.length := Nat.lt_of_lt_of_le before (Nat.le_max_left _ _)
      rw [found _ (address i), described i bound, ProgramHeader.byte, if_pos before]
    · have bound : i < phdr.length := Nat.lt_of_lt_of_le below (Nat.le_max_right _ _)
      rw [found _ (address i), described i bound, ProgramHeader.byte, if_neg (Nat.not_lt.mpr above)]

end Image

/-! The loop -/

section Loop

variable {f f' : File} {phdr : ProgramHeader} {phdrs : List ProgramHeader} {s s' : LoadState σ} {r : Int × File}

/-- The image has been written over what was there. -/
structure Writes (pgd : Nat) (s : LoadState σ) (image : Nat → Option UInt8) (s' : LoadState σ) : Prop where
  memory : ∀ a < word64, ∀ stale, memoryAfter s'.log stale a = (image a).getD (memoryAfter s.log stale a)
  mapped : ∀ a < word64, (image a).isSome → Canonical a ∧ (translate s'.mmu.tables pgd a).isSome

theorem Copied.whole {count : Int} {m : Mmu} {p : Nat} {a : ReadAnswer} {s₁ : LoadState σ}
    (serves : Serves fops size content good) (small : size ≤ ssizeMax) (isOpen : IsOpen good size f s)
    (inside : phdr.Inside size) (copied : Copied env fops pgd f phdr s count m p a s₁) (done : 0 ≤ a.ret) :
    a.stored = phdr.fileSize ∧ ∀ k < phdr.fileSize, a.bytes k = content (phdr.offset + k) := by
  obtain ⟨_, _, _, answered⟩ := copied.answered serves isOpen
  obtain ⟨_, stored, _, bytes⟩ := answered.done done
  rw [stored]
  rcases inside with none | fits
  · rw [none, bytesLeft]
    exact ⟨by omega, fun k before => absurd before (Nat.not_lt_zero k)⟩
  · have position : p = phdr.offset := by
      have sought := copied.sought
      rw [serves.sized isOpen.good, segmentPos, if_pos (by omega), if_pos ⟨by omega, small⟩] at sought
      exact (Option.some.inj sought).symm
    have all : bytesLeft size (min phdr.fileSize ssizeMax) p = phdr.fileSize := by
      rw [bytesLeft, position]
      omega
    rw [all, position] at bytes
    exact ⟨all, bytes⟩

theorem memoryAfter_segment (words : phdr.Words) (a : Nat) (bytes mem : Memory) :
    memoryAfter (.store phdr.vaddr phdr.fileSize bytes :: zeroTail phdr) mem a =
      if ahead phdr.vaddr a < phdr.length then
        if ahead phdr.vaddr a < phdr.fileSize then bytes (ahead phdr.vaddr a) else 0
      else mem a := by
  rw [memoryAfter, List.foldl_cons, zeroTail, ProgramHeader.length]
  by_cases tail : phdr.fileSize < phdr.memSize
  · rw [if_pos tail, Nat.max_eq_right (Nat.le_of_lt tail)]
    simp only [List.foldl_cons, List.foldl_nil, LoadEvent.apply, ahead_tail words.vaddr words.memSize tail]
    by_cases inFile : ahead phdr.vaddr a < phdr.fileSize
    · rw [if_neg (by omega), if_pos inFile, if_pos (by omega), if_pos inFile]
    · simp only [if_neg inFile, Nat.not_lt.mp inFile, true_and]
  · rw [if_neg tail, Nat.max_eq_left (Nat.not_lt.mp tail)]
    simp only [List.foldl_nil, LoadEvent.apply]
    split_ifs <;> rfl

theorem SegmentEnds.writes (serves : Serves fops size content good) (small : size ≤ ssizeMax)
    (isOpen : IsOpen good size f s) (words : phdr.Words) (inside : phdr.loadable = true → phdr.Inside size)
    (ends : SegmentEnds env fops pgd f phdr s r s') (goesOn : ¬ r.1 < 0) : Writes pgd s (phdr.byteAt content) s' := by
  cases ends with
  | skipped other =>
      have none : ∀ a, phdr.byteAt content a = none := fun a => if_neg fun both => by cases other.symm.trans both.1
      refine ⟨fun a _ stale => ?_, fun a _ some => ?_⟩
      · rw [none]
        rfl
      · rw [none] at some
        cases some
  | unmapped asked few =>
      rw [vmmAllocRange_negative asked.call few] at goesOn
      exact absurd (by decide : toInt (-eNoMem) < 0) goesOn
  | unsought asked enough far moved => exact absurd (by decide : -eInval < 0) goesOn
  | unread copied stores failed =>
      obtain ⟨_, _, _, answered⟩ := copied.answered serves isOpen
      dsimp only at goesOn
      rw [toInt_errno failed (answered.failed failed).1] at goesOn
      exact absurd failed goesOn
  | @loaded count m p a s₁ _ copied stores done zeros mmu disk held log =>
      obtain ⟨stored, bytes⟩ := copied.whole serves small isOpen (inside copied.loadable) done
      obtain ⟨_, quiet, _, _⟩ := copied.answered serves isOpen
      rw [stored] at stores log
      refine ⟨fun b address stale => ?_, fun b address some => ?_⟩
      · rw [log, memoryAfter_append, memoryAfter_segment words, quiet.log, ProgramHeader.byteAt]
        simp only [copied.loadable, true_and]
        split_ifs with within inFile
        · rw [ProgramHeader.byte, if_pos inFile]
          exact bytes _ inFile
        · rw [ProgramHeader.byte, if_neg inFile]
          rfl
        · exact congrFun (memoryAfter_append s.log [_] stale) b
      · have within : ahead phdr.vaddr b < phdr.length := by
          by_contra outside
          rw [ProgramHeader.byteAt, if_neg fun both => outside both.2] at some
          cases some
        have access : Accessible s₁ pgd b := by
          rw [← add_ahead words.vaddr address]
          by_cases inFile : ahead phdr.vaddr b < phdr.fileSize
          · exact stores _ inFile
          · rw [ProgramHeader.length] at within
            exact zeros _ (Nat.not_lt.mp inFile) (by omega)
        obtain ⟨n, frames⟩ := mmu
        rw [frames]
        exact ⟨access.1, access.2.1⟩

theorem LoadRun.writes (serves : Serves fops size content good) (small : size ≤ ssizeMax)
    (words : ∀ phdr ∈ phdrs, phdr.Words) (inside : ∀ phdr ∈ phdrs, phdr.loadable = true → phdr.Inside size)
    (inv : LoopInv good size pgd f s) (run : LoadRun env fops pgd phdrs f s f' s') :
    Writes pgd s (imageByte content phdrs) s' := by
  induction run with
  | nil => exact ⟨fun _ _ _ => rfl, fun _ _ => nofun⟩
  | @cons first rest f f' s s' r s₁ one goesOn later ih =>
      have words' : ∀ p ∈ rest, p.Words := fun p member => words p (List.mem_cons_of_mem _ member)
      obtain ⟨inv₁, ends, _⟩ := inv.step serves (words _ List.mem_cons_self) one
      have here := ends.writes serves small inv.isOpen (words _ List.mem_cons_self) (inside _ List.mem_cons_self) goesOn
      have behind := ih words' (fun p member => inside p (List.mem_cons_of_mem _ member)) inv₁
      refine ⟨fun a address stale => ?_, fun a address some => ?_⟩
      · rw [behind.memory a address, here.memory a address, imageByte]
        cases imageByte content rest a <;> rfl
      · rw [imageByte] at some
        cases said : imageByte content rest a with
        | some b => exact behind.mapped a address (by rw [said]; rfl)
        | none =>
            rw [said, Option.none_or] at some
            obtain ⟨canonical, there⟩ := here.mapped a address some
            obtain ⟨leaf, found⟩ := Option.isSome_iff_exists.mp there
            exact ⟨canonical, by rw [later.stays serves words' inv₁ found]; rfl⟩

end Loop

/-! Every successful call -/

section Success

variable {s s' : LoadState σ}

/-- A call that has got through all headers has written the image. -/
theorem GotThrough.segments_iff (serves : Serves fops size content good) (empty : s.log = [])
    (through : GotThrough env fops good size content pgd s s') :
    (∀ phdr ∈ headersIn size content, phdr.type = elfPhdrLoad → SegmentLoaded size content pgd s' phdr) ↔
      ∀ phdr ∈ headersOf content, phdr.type = elfPhdrLoad → phdr.Inside size ∧
        ∀ i < phdr.length, imageByte content (headersOf content)
          ((phdr.vaddr + i) % word64) = some (phdr.byte content i) := by
  obtain ⟨f₀, s₀, f₁, s₁, quiet, inv, run, mmu, log⟩ := through.run
  rw [through.table.headersIn]
  have single : (∀ phdr ∈ headersOf content, phdr.type = elfPhdrLoad → phdr.Inside size) →
      ∀ phdr, SegmentLoaded size content pgd s' phdr ↔ phdr.Inside size ∧ ∀ i < phdr.length,
        imageByte content (headersOf content) ((phdr.vaddr + i) % word64) = some (phdr.byte content i) := by
    intro inside phdr
    have writes := run.writes serves through.table.small programHeaders_words
      (fun q member loadable => inside q member (q.loadable_iff.mp loadable).1) inv
    refine segmentLoaded_iff _ (fun a address stale => ?_) fun a address some => ?_
    · rw [log, writes.memory a address, quiet.log, empty]
      rfl
    · rw [mmu]
      exact writes.mapped a address some
  constructor
  · intro loaded
    have inside : ∀ phdr ∈ headersOf content, phdr.type = elfPhdrLoad → phdr.Inside size := by
      intro phdr member type
      rcases Nat.eq_zero_or_pos phdr.fileSize with none | some
      · exact Or.inl none
      · have last := (loaded phdr member type).inside (phdr.fileSize - 1) (by omega)
        exact Or.inr (by omega)
    exact fun phdr member type => (single inside phdr).mp (loaded phdr member type)
  · intro described phdr member type
    exact (single (fun q member type => (described q member type).1) phdr).mpr (described phdr member type)

theorem segmentLoaded_nothing {phdr : ProgramHeader} (empty : s.log = []) :
    SegmentLoaded size content pgd s phdr ↔ phdr.length = 0 := by
  rw [segmentLoaded_iff (fun _ => none) (fun a _ stale => by rw [empty]; rfl) fun _ _ => nofun]
  constructor
  · rintro ⟨_, described⟩
    by_contra some
    cases described 0 (Nat.pos_of_ne_zero some)
  · intro none
    refine ⟨Or.inl ?_, fun i before => absurd before (by omega)⟩
    rw [ProgramHeader.length] at none
    omega

theorem elfLoad_noError (serves : Serves fops size content good) (finds : Finds env good s)
    (tree : WellFormedTree s.mmu pgd) {out : Outcome} (returned : elfLoad env fops pgd s = .ok out s')
    (noError : isErr out.ptr = false) :
    out.ptr = (ElfHeader.decode content).entry ∧ GotThrough env fops good size content pgd s s' ∨
      OddExit size content out.ptr ∧ s'.log = s.log := by
  cases out with
  | loaded entry =>
      obtain ⟨same, through⟩ := elfLoad_loaded serves finds tree returned
      exact Or.inl ⟨same, through⟩
  | failed ptr =>
      obtain ⟨out, s₁, call, ends⟩ := elfOpen_ends serves finds
      rw [elfLoad, Steps.bind_ok call] at returned
      cases ends with
      | refused error quiet held cause =>
          cases returned
          cases noError.symm.trans error
      | odd odd quiet held =>
          cases returned
          exact Or.inr ⟨odd, quiet.log⟩
      | ready table isOpen quiet held =>
          obtain ⟨⟨res, f⟩, s₂, loop, returned⟩ := Steps.bind_eq_ok.mp returned
          have kept := loadHeaders_keptOpen serves programHeaders_offset_lt isOpen loop
          dsimp only at returned
          split_ifs at returned with failed
          · obtain ⟨_, s₃, _, returned⟩ := Steps.bind_eq_ok.mp returned
            obtain ⟨_, s₄, _, returned⟩ := Steps.bind_eq_ok.mp returned
            cases returned
            cases noError.symm.trans (isErr_errPtr failed (kept.inRange failed))
          · obtain ⟨_, s₃, _, returned⟩ := Steps.bind_eq_ok.mp returned
            obtain ⟨_, s₄, _, returned⟩ := Steps.bind_eq_ok.mp returned
            cases returned

end Success

def misalignedHeader : ProgramHeader := { dataHeader with vaddr := 0x400010 }

end SnapOS.Elf
