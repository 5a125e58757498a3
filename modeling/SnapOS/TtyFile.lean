/- The tty behind a file descriptor: sys_read and sys_write, and the memory that they reach. -/
import SnapOS.Tty
import SnapOS.Uaccess

namespace SnapOS.Tty
open SnapOS.Lib SnapOS.Uaccess

def ttyBounceBufSize : Nat := 128
def openFileTableCount : Nat := 16

/-- The task that makes a system call. Key strokes may come before each locked section of `tty_read`:
`keys` lists them, one entry for each time round its loop. -/
structure Caller where
  tables : PageTables
  pid : Nat
  keys : List (List UInt8)

/-- Without `ret` the call has not returned yet: it waits, or its `keys` are used up. -/
structure ReadResult where
  ret : Option Int
  mem : Memory
  tty : TtyStruct

structure WriteResult where
  ret : Option Int
  screen : List UInt8

def pressKeys (tty : TtyStruct) (keys : List UInt8) : TtyStruct :=
  keys.foldl (fun tty c => (ttyPushChar tty c).tty) tty

/-- The locked section: what is in the bounce buffer then, and the ring. A task in the background
keeps the bytes of its last time round. -/
def lockedRead (pid request : Nat) (bounce : List UInt8) (tty : TtyStruct) : List UInt8 × TtyStruct :=
  if isFg tty pid then rawTtyRead tty (min request ttyBounceBufSize) else (bounce, tty)

def ttyReadLoop (tables : PageTables) (pid count : Nat) :
    List (List UInt8) → Nat → Nat → List UInt8 → Memory → TtyStruct → ReadResult
  | [], _, total, _, mem, tty => ⟨if total < count then none else some total, mem, tty⟩
  | keys :: rest, buf, total, bounce, mem, tty =>
      if total < count then
        let before := pressKeys tty keys
        let (bounce, after) := lockedRead pid (count - total) bounce before
        if total = 0 ∧ bounce = [] then
          -- `schedule()`: the reader sleeps until a line is complete
          ttyReadLoop tables pid count rest buf total bounce mem after
        else if bounce = [] then ⟨some total, mem, after⟩
        else
          let (mem, uncopied) := copyToUser tables mem buf bounce
          let copied := bounce.length - uncopied
          if total + copied = 0 then ⟨some (-eFault), mem, after⟩
          else if uncopied ≠ 0 then ⟨some (total + copied : Nat), mem, after⟩
          else if after.canonLines ≠ before.canonLines then ⟨some (total + copied : Nat), mem, after⟩
          else ttyReadLoop tables pid count rest ((buf + copied) % word64) (total + copied) bounce mem after
      else ⟨some total, mem, tty⟩

def ttyRead (c : Caller) (buf count : Nat) (mem : Memory) (tty : TtyStruct) : ReadResult :=
  ttyReadLoop c.tables c.pid count c.keys buf 0 [] mem tty

def ttyWriteLoop (tables : PageTables) (mem : Memory) (count buf total : Nat) : List UInt8 × Int :=
  if total < count then
    let toCopy := min (count - total) ttyBounceBufSize
    let bounce := copyFromUser tables mem buf toCopy
    let copied := toCopy - bounce.2
    if total + copied = 0 then (bounce.1.take copied, -eFault)
    else if bounce.2 ≠ 0 then (bounce.1.take copied, (total + copied : Nat))
    else
      let later := ttyWriteLoop tables mem count ((buf + copied) % word64) (total + copied)
      (bounce.1.take copied ++ later.1, later.2)
  else ([], total)
termination_by count - total
decreasing_by
  have some : 0 < toCopy := Nat.lt_min.mpr ⟨by omega, by decide⟩
  change count - (total + (toCopy - bounce.2)) < count - total
  omega

/-- No code moves a task to the foreground: a background writer waits for good. -/
def ttyWrite (c : Caller) (buf count : Nat) (mem : Memory) (tty : TtyStruct) : WriteResult :=
  if isFg tty c.pid then
    let (screen, ret) := ttyWriteLoop c.tables mem count buf 0
    ⟨some ret, screen⟩
  else ⟨none, []⟩

structure FileOperations where
  read : Option (Caller → Nat → Nat → Memory → TtyStruct → ReadResult)
  write : Option (Caller → Nat → Nat → Memory → TtyStruct → WriteResult)

structure File where
  fops : Option FileOperations

def ttyFops : FileOperations := ⟨some ttyRead, some ttyWrite⟩

def tty0File : File := ⟨some ttyFops⟩

def sysRead (fds : Nat → Option File) (c : Caller) (fd buf count : Nat) (mem : Memory) (tty : TtyStruct) :
    ReadResult :=
  if openFileTableCount ≤ fd then ⟨some (-eBadF), mem, tty⟩
  else match fds fd with
    | none => ⟨some (-eBadF), mem, tty⟩
    | some f =>
        let count := if ssizeMax < count then ssizeMax else count
        match f.fops.bind FileOperations.read with
        | none => ⟨some (-eBadF), mem, tty⟩
        | some read => read c buf count mem tty

def sysWrite (fds : Nat → Option File) (c : Caller) (fd buf count : Nat) (mem : Memory) (tty : TtyStruct) :
    WriteResult :=
  if openFileTableCount ≤ fd then ⟨some (-eBadF), []⟩
  else match fds fd with
    | none => ⟨some (-eBadF), []⟩
    | some f =>
        let count := if ssizeMax < count then ssizeMax else count
        match f.fops.bind FileOperations.write with
        | none => ⟨some (-eBadF), []⟩
        | some write => write c buf count mem tty

section Kernel

variable {tables : PageTables} {buf : Nat}

theorem ttyReadLoop_kernel (pid count : Nat) (keys : List (List UInt8)) (total : Nat) (bounce : List UInt8)
    (mem : Memory) (tty : TtyStruct) (outside : ¬ tables.KernelTarget buf) {a : Nat} (half : KernelHalf a) :
    (ttyReadLoop tables pid count keys buf total bounce mem tty).mem a = mem a := by
  induction keys generalizing buf total bounce mem tty with
  | nil => rfl
  | cons first rest ih =>
      rw [ttyReadLoop]
      dsimp only
      have copied := copyToUser_kernel outside mem
        (lockedRead pid (count - total) bounce (pressKeys tty first)).1 half
      split_ifs with more asleep empty faulted short lines
      · exact ih total _ mem _ outside
      · rfl
      · exact copied
      · exact copied
      · exact copied
      · rw [ih _ _ _ _ ?_, copied]
        rw [not_not] at short
        rw [short, Nat.sub_zero]
        exact copyToUser_end outside short empty
      · rfl

theorem ttyPushChar_fgPid (tty : TtyStruct) (c : UInt8) : (ttyPushChar tty c).tty.fgPid = tty.fgPid := by
  simp only [ttyPushChar, handleBackspace, stored]
  split_ifs <;> rfl

theorem pressKeys_fgPid (tty : TtyStruct) (keys : List UInt8) : (pressKeys tty keys).fgPid = tty.fgPid := by
  induction keys generalizing tty with
  | nil => rfl
  | cons c rest ih => exact (ih (ttyPushChar tty c).tty).trans (ttyPushChar_fgPid tty c)

theorem ttyReadLoop_background (tables : PageTables) {pid : Nat} (count : Nat) (keys : List (List UInt8))
    (buf : Nat) (mem : Memory) {tty : TtyStruct} (background : isFg tty pid = false) :
    (ttyReadLoop tables pid count keys buf 0 [] mem tty).mem = mem := by
  induction keys generalizing tty with
  | nil => rfl
  | cons first rest ih =>
      have still : isFg (pressKeys tty first) pid = false := by rwa [isFg, pressKeys_fgPid]
      rw [ttyReadLoop]
      simp only [lockedRead, still, Bool.false_eq_true, if_false, true_and, if_true]
      split_ifs
      · exact ih still
      · rfl

theorem ttyWriteLoop_congr {mem mem' : Memory} (same : UserEq mem mem') {buf : Nat}
    (outside : ¬ tables.KernelTarget buf) (count total : Nat) :
    ttyWriteLoop tables mem count buf total = ttyWriteLoop tables mem' count buf total := by
  rw [ttyWriteLoop.eq_def tables mem, ttyWriteLoop.eq_def tables mem']
  dsimp only
  rw [copyFromUser_congr outside same]
  split_ifs with more faulted short
  · rfl
  · rfl
  · rw [not_not] at short
    have positive : 0 < min (count - total) ttyBounceBufSize := Nat.lt_min.mpr ⟨by omega, by decide⟩
    have outside' := copyFromUser_end outside short positive
    rw [short, Nat.sub_zero, ttyWriteLoop_congr same outside']
  · rfl
termination_by count - total

theorem ttyWriteLoop_first (mapped : tables.mapped buf = true) (mem : Memory) {count : Nat}
    (nonempty : 0 < count) : (ttyWriteLoop tables mem count buf 0).1.head? = some (mem buf) := by
  have positive : 0 < min (count - 0) ttyBounceBufSize := Nat.lt_min.mpr ⟨by omega, by decide⟩
  have first := copyFromUser_first mapped mem positive
  rw [ttyWriteLoop, if_pos nonempty]
  dsimp only
  split_ifs
  · exact first
  · exact first
  · rw [List.head?_append, first, Option.some_or]

end Kernel

/-- Through this buffer the two calls neither change a byte of the kernel half nor depend on one. -/
def KernelSafe (fds : Nat → Option File) (c : Caller) (fd buf count : Nat) (tty : TtyStruct) : Prop :=
  (∀ mem a, KernelHalf a → (sysRead fds c fd buf count mem tty).mem a = mem a) ∧
    ∀ mem mem', UserEq mem mem' →
      sysWrite fds c fd buf count mem tty = sysWrite fds c fd buf count mem' tty

section Calls

variable {fds : Nat → Option File} {fd : Nat} (isTty : fds fd = some tty0File) (inTable : fd < openFileTableCount)
include isTty inTable

theorem sysRead_tty (c : Caller) (buf count : Nat) (mem : Memory) (tty : TtyStruct) :
    sysRead fds c fd buf count mem tty = ttyRead c buf (min count ssizeMax) mem tty := by
  have clamp : (if ssizeMax < count then ssizeMax else count) = min count ssizeMax := by
    split <;> omega
  simp only [sysRead, if_neg (Nat.not_le.mpr inTable), isTty, clamp]
  rfl

theorem sysWrite_tty (c : Caller) (buf count : Nat) (mem : Memory) (tty : TtyStruct) :
    sysWrite fds c fd buf count mem tty = ttyWrite c buf (min count ssizeMax) mem tty := by
  have clamp : (if ssizeMax < count then ssizeMax else count) = min count ssizeMax := by
    split <;> omega
  simp only [sysWrite, if_neg (Nat.not_le.mpr inTable), isTty, clamp]
  rfl

/-- The calls are confined to user memory exactly for a caller in the background, for an empty buffer,
and for a buffer that does not start at a mapped address of the kernel half. -/
theorem kernelSafe_iff (c : Caller) (buf count : Nat) (tty : TtyStruct) :
    KernelSafe fds c fd buf count tty ↔
      isFg tty c.pid = false ∨ count = 0 ∨ ¬ c.tables.KernelTarget buf := by
  simp only [KernelSafe, sysRead_tty isTty inTable, sysWrite_tty isTty inTable, ttyRead]
  constructor
  · rintro ⟨_, independent⟩
    by_contra! exposed
    obtain ⟨foreground, nonempty, mapped, half⟩ := exposed
    have some : 0 < min count ssizeMax := Nat.lt_min.mpr ⟨Nat.pos_of_ne_zero nonempty, by decide⟩
    -- two memories that differ in the first byte of the buffer only
    have userEq : UserEq (fun _ => 0) (Function.update (fun _ => 0) buf 1) := by
      intro a low
      rw [Function.update_of_ne]
      rintro rfl
      exact low half
    have same := independent _ _ userEq
    rw [ttyWrite, ttyWrite, if_pos (by simpa using foreground), if_pos (by simpa using foreground)] at same
    have heads := congrArg (fun r => r.screen.head?) same
    dsimp only at heads
    rw [ttyWriteLoop_first mapped _ some, ttyWriteLoop_first mapped _ some, Function.update_self] at heads
    exact absurd heads (by decide)
  · intro confined
    rcases confined with background | rfl | outside
    · refine ⟨fun mem a _ => ?_, fun mem mem' _ => ?_⟩
      · rw [ttyReadLoop_background _ _ _ _ _ background]
      · simp only [ttyWrite, background, Bool.false_eq_true, if_false]
    · refine ⟨fun mem a _ => ?_, fun mem mem' _ => ?_⟩
      · rw [Nat.zero_min]
        cases c.keys <;> rfl
      · rw [Nat.zero_min, ttyWrite, ttyWrite, ttyWriteLoop, ttyWriteLoop]
        rfl
    · refine ⟨fun mem a half => ttyReadLoop_kernel _ _ _ _ _ mem tty outside half, fun mem mem' same => ?_⟩
      rw [ttyWrite, ttyWrite, ttyWriteLoop_congr same outside]

end Calls

def sampleMapped (a : Nat) : Bool :=
  0x400000 ≤ a && a < 0x401000 || idVirtRegionStart ≤ a && a < idVirtRegionStart + 0x40000000

theorem sampleMapped_canonical (a : Nat) (mapped : sampleMapped a = true) :
    a < 2 ^ 47 ∨ word64 - 2 ^ 47 ≤ a ∧ a < word64 := by
  simp only [sampleMapped, Bool.or_eq_true, Bool.and_eq_true, decide_eq_true_eq] at mapped
  simp only [idVirtRegionStart, word64] at *
  omega

def sampleTables : PageTables := ⟨sampleMapped, sampleMapped_canonical⟩

def sampleFds : Nat → Option File := fun fd => if fd < 3 then some tty0File else none

def sampleCaller : Caller := ⟨sampleTables, 1, [[97, 10]]⟩

def kernelByte : Nat := idVirtRegionStart + kernelStartPhysAddr

theorem kernelSafe_iff_userBuffer :
    sampleFds 0 = some tty0File ∧ 0 < openFileTableCount ∧
      KernelSafe sampleFds sampleCaller 0 0x400800 64 ttyInit :=
  ⟨rfl, by decide, (kernelSafe_iff rfl (by decide) sampleCaller 0x400800 64 ttyInit).mpr
    (Or.inr (Or.inr (by decide)))⟩

/-- With a kernel address for a buffer, `sys_read` overwrites the kernel image and `sys_write` shows it. -/
theorem kernel_image_written_and_shown :
    KernelHalf kernelByte ∧
      (sysRead sampleFds sampleCaller 0 kernelByte 1 (fun _ => 0) ttyInit).mem kernelByte = 97 ∧
      (∀ v, (sysWrite sampleFds sampleCaller 1 kernelByte 1 (fun _ => v) ttyInit).screen.head? = some v) ∧
      ¬ KernelSafe sampleFds sampleCaller 0 kernelByte 1 ttyInit := by
  have written : (sysRead sampleFds sampleCaller 0 kernelByte 1 (fun _ => 0) ttyInit).mem kernelByte = 97 := by
    decide +kernel
  refine ⟨by decide, written, fun v => ?_, fun safe => ?_⟩
  · rw [sysWrite_tty rfl (by decide), ttyWrite, if_pos (by decide)]
    exact ttyWriteLoop_first (by decide) (fun _ => v) (by decide)
  · rw [safe.1 (fun _ => 0) kernelByte (by decide)] at written
    exact absurd written (by decide)

end SnapOS.Tty
