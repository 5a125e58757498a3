/- The line discipline of kernel/tty.c: the input ring and the two operations the tty lock guards. -/
import SnapOS.Lib.Circular
import SnapOS.Platform

namespace SnapOS.Tty
open SnapOS.Lib

def ttyBufSize : Nat := 512

def backspace : UInt8 := 8

/-- The fields of `struct tty_struct` that the ring operations read. The wait queues belong to
the readers; `leader_pid` is read by no function. -/
structure TtyStruct where
  buffer : Nat → UInt8
  head : Nat
  tail : Nat
  canonLines : Nat
  fgPid : Nat

/-- The zeroed allocation of `tty_init`, with the first task in the foreground. -/
def ttyInit : TtyStruct := ⟨fun _ => 0, 0, 0, 0, 1⟩

def ttyHasLine (tty : TtyStruct) : Bool := 0 < tty.canonLines

def ttyIsEmpty (tty : TtyStruct) : Bool := tty.head = tty.tail

def isFg (tty : TtyStruct) (pid : Nat) : Bool := tty.fgPid = pid

inductive VgaCall where
  | putchar (c : UInt8)
  | delLast
  deriving DecidableEq, Repr

def handleBackspace (tty : TtyStruct) : TtyStruct × Option VgaCall :=
  if ttyIsEmpty tty then (tty, none)
  else ({ tty with tail := if tty.tail = 0 then ttyBufSize - 1 else tty.tail - 1 }, some .delLast)

structure PushResult where
  tty : TtyStruct
  echo : Option VgaCall
  newLine : Bool

/-- The tail the next character would produce equals the head: the ring is full. -/
def ttyIsFull (tty : TtyStruct) : Bool := (tty.tail + 1) % ttyBufSize = tty.head

def stored (tty : TtyStruct) (input : UInt8) : TtyStruct :=
  if ttyIsFull tty then tty else
    { tty with
      buffer := Function.update tty.buffer tty.tail input
      tail := (tty.tail + 1) % ttyBufSize }

/-- The locked part of `tty_push_char`. The caller wakes the readers when `newLine` is set. -/
def ttyPushChar (tty : TtyStruct) (input : UInt8) : PushResult :=
  if input = backspace then
    let r := handleBackspace tty
    ⟨r.1, r.2, false⟩
  else
    -- The counter moves even when the character was not stored.
    if input = newline then
      ⟨{ stored tty input with canonLines := (tty.canonLines + 1) % 2 ^ 64 },
        some (.putchar input), true⟩
    else ⟨stored tty input, some (.putchar input), false⟩

/-- The copy loop from index `i` on, with the bytes it stores and the line counter it leaves. -/
def readLoop (tty : TtyStruct) : Nat → Nat → List UInt8 × Nat
  | 0, _ => ([], tty.canonLines)
  | n + 1, i =>
      let c := tty.buffer ((tty.head + i) % ttyBufSize)
      if c = newline then ([c], (tty.canonLines + 2 ^ 64 - 1) % 2 ^ 64)
      else
        let rest := readLoop tty n (i + 1)
        (c :: rest.1, rest.2)

/-- The number of bytes `__tty_read` takes to be in the ring. -/
def available (tty : TtyStruct) : Nat :=
  if tty.head < tty.tail then tty.tail - tty.head else ttyBufSize - tty.head + tty.tail

/-- Source `__tty_read`: the bytes put into the kernel buffer and the ring afterwards. -/
def rawTtyRead (tty : TtyStruct) (count : Nat) : List UInt8 × TtyStruct :=
  if ttyHasLine tty then
    let copied := readLoop tty (if available tty < count then available tty else count) 0
    (copied.1,
      { tty with
        head := (tty.head + copied.1.length) % ttyBufSize
        canonLines := copied.2 })
  else ([], tty)

def pending (tty : TtyStruct) : List UInt8 :=
  window ttyBufSize tty.buffer tty.head ((tty.tail + ttyBufSize - tty.head) % ttyBufSize)

structure Bounded (tty : TtyStruct) : Prop where
  head : tty.head < ttyBufSize
  tail : tty.tail < ttyBufSize

theorem ttyInit_bounded : Bounded ttyInit := ⟨by decide, by decide⟩

theorem pending_eq_nil_iff {tty : TtyStruct} (h : Bounded tty) :
    pending tty = [] ↔ tty.head = tty.tail := by
  obtain ⟨hh, ht⟩ := h
  rw [← List.length_eq_zero_iff, pending, length_window]
  simp only [ttyBufSize] at *
  omega

end SnapOS.Tty
