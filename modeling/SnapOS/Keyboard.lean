/- The keyboard: ps2_irq and input_handle_event, and runs of key strokes against the keys that are held down.

The source counts make codes, and a key that is held down repeats its make code. The result below says which runs
are free of what follows from that. -/
import SnapOS.Lib.Run
import Mathlib.Algebra.Order.Group.Nat
import Mathlib.Data.Fin.Basic
import Mathlib.Tactic.Cases
import Mathlib.Tactic.SplitIfs

namespace SnapOS.Keyboard
open SnapOS.Lib

def key1 : Nat := 2
def keyBackspace : Nat := 14
def keyQ : Nat := 16
def keyLeftBrace : Nat := 26
def keyLeftCtrl : Nat := 29
def keyA : Nat := 30
def keyLeftShift : Nat := 42
def keyBackslash : Nat := 43
def keyM : Nat := 50
def keyRightShift : Nat := 54
def keySpace : Nat := 57
def keyCapsLock : Nat := 58
def keyF11 : Nat := 87
def keyF12 : Nat := 88
def keyRightCtrl : Nat := 97

/-- A table of characters by key codes, in rows of neighbouring keys; a key that is in no row has the character 0.
Quotes, braces, the backquote and the backslash stand there by their codes. -/
def keyTable (rows : List (Nat × List Char)) (key : Nat) : UInt8 :=
  (rows.findSome? fun row => if row.1 ≤ key then row.2[key - row.1]? else none).elim 0 Char.toUInt8

def asciiMap : Nat → UInt8 :=
  keyTable [(key1, ['1', '2', '3', '4', '5', '6', '7', '8', '9', '0', '-', '=']), (keyBackspace, [Char.ofNat 8]),
    (keyQ, ['q', 'w', 'e', 'r', 't', 'y', 'u', 'i', 'o', 'p', '[', ']', '\n']),
    (keyA, ['a', 's', 'd', 'f', 'g', 'h', 'j', 'k', 'l', ';', Char.ofNat 39, Char.ofNat 96]),
    (keyBackslash, [Char.ofNat 92, 'z', 'x', 'c', 'v', 'b', 'n', 'm', ',', '.', '/']), (keySpace, [' '])]

def asciiShiftMap : Nat → UInt8 :=
  keyTable [(key1, ['!', '@', '#', '$', '%', '^', '&', '*', '(', ')', '_', '+']), (keyBackspace, [Char.ofNat 8]),
    (keyQ, ['Q', 'W', 'E', 'R', 'T', 'Y', 'U', 'I', 'O', 'P', Char.ofNat 123, Char.ofNat 125, '\n']),
    (keyA, ['A', 'S', 'D', 'F', 'G', 'H', 'J', 'K', 'L', ':', Char.ofNat 34, '~']),
    (keyBackslash, ['|', 'Z', 'X', 'C', 'V', 'B', 'N', 'M', '<', '>', '?']), (keySpace, [' '])]

/-- The statics of input.c. -/
structure Input where
  shiftCount : Int
  capsActive : Bool
  ctrlCount : Int
deriving DecidableEq

def isShift (key : Nat) : Bool := key = keyLeftShift || key = keyRightShift
def isCtrl (key : Nat) : Bool := key = keyLeftCtrl || key = keyRightCtrl

/-- The counter of a pair of modifier keys after a make or a break code of one of them. -/
def counted (count : Int) (isRelease : Bool) : Int :=
  let count := if isRelease then count - 1 else count + 1
  if count < 0 then 0 else if 2 < count then 2 else count

def keyChar (key : Nat) (shifted capsActive : Bool) : UInt8 :=
  if keyQ ≤ key ∧ key ≤ keyM then
    let isUpper := if shifted then !capsActive else capsActive
    if isUpper then asciiShiftMap key else asciiMap key
  else if shifted then asciiShiftMap key else asciiMap key

/-- The statics afterwards, and the character that goes to `tty_push_char`. -/
def inputHandleEvent (s : Input) (key : Nat) (isRelease : Bool) : Input × Option UInt8 :=
  if isShift key then ({ s with shiftCount := counted s.shiftCount isRelease }, none)
  else if isCtrl key then ({ s with ctrlCount := counted s.ctrlCount isRelease }, none)
  else if key = keyCapsLock ∧ isRelease = false then ({ s with capsActive := !s.capsActive }, none)
  else if isRelease then (s, none)
  else if 128 ≤ key then (s, none)
  else
    let c := keyChar key (s.shiftCount ≠ 0) s.capsActive
    (s, if c = 0 then none else some c)

/-- The key code of a scan code: apart from a gap in front of F11 the two are the same numbers. -/
def ps2ScancodeBase : List Nat := List.range 84 ++ [0, 0, 0, keyF11, keyF12]

structure Ps2 where
  isExtended : Bool
  input : Input
deriving DecidableEq

def ps2Irq (s : Ps2) (scancode : UInt8) : Ps2 × Option UInt8 :=
  let isRelease := scancode &&& 0x80 != 0
  let rawKey := (scancode &&& 0x7f).toNat
  -- the byte after the prefix is thrown away
  if s.isExtended then ({ s with isExtended := false }, none)
  else if scancode = 0xe0 then ({ s with isExtended := true }, none)
  else if ps2ScancodeBase.getD rawKey 0 ≠ 0 then
    let handled := inputHandleEvent s.input rawKey isRelease
    ({ s with input := handled.1 }, handled.2)
  else (s, none)

/-- The keys that are down, how often caps lock was pressed, and whether a shift key has repeated its make code since
the last time that one of them went up or down. -/
structure Keys where
  held : Nat → Bool
  capsPresses : Nat
  shiftRepeated : Bool

def Keys.make (k : Keys) (code : Nat) : Keys where
  held := Function.update k.held code true
  capsPresses := if code = keyCapsLock ∧ k.held code = false then k.capsPresses + 1 else k.capsPresses
  shiftRepeated := if isShift code then k.held code else k.shiftRepeated

def Keys.release (k : Keys) (code : Nat) : Keys where
  held := Function.update k.held code false
  capsPresses := k.capsPresses
  shiftRepeated := if isShift code then false else k.shiftRepeated

def Keys.shiftsHeld (k : Keys) : Nat := (k.held keyLeftShift).toNat + (k.held keyRightShift).toNat

def Keys.capsOn (k : Keys) : Bool := k.capsPresses % 2 = 1

/-- The character that a make code stands for while these keys are held. -/
def Keys.prescribes (k : Keys) (code : Nat) : Option UInt8 :=
  if isShift code ∨ isCtrl code ∨ code = keyCapsLock then none
  else
    let c := keyChar code (k.shiftsHeld ≠ 0) k.capsOn
    if c = 0 then none else some c

/-- A make code comes when a key is pressed and again while it is held. Keys with the prefix 0xe0 send two bytes. -/
inductive KeyEvent where
  | make (code : Fin 128)
  | release (code : Fin 128)
  | extended (code : UInt8)

/-- The keyboard, its driver, and the characters: those that went to the tty and those that the keys prescribe. -/
structure World where
  keys : Keys
  ps2 : Ps2
  typed : List UInt8
  prescribed : List UInt8

def World.irq (w : World) (scancode : UInt8) : World :=
  { w with
    ps2 := (ps2Irq w.ps2 scancode).1
    typed := w.typed ++ (ps2Irq w.ps2 scancode).2.toList }

/-- The keys that are followed here go up only when they are down. No key has the code 0x60, whose break code would be
the prefix. -/
def keyStep (w : World) : KeyEvent → Option World
  | .make code =>
      if code = 0x60 then none
      else
        some (World.irq { w with
          keys := w.keys.make code
          prescribed := w.prescribed ++ (w.keys.prescribes code).toList } (UInt8.ofNat code))
  | .release code =>
      if code = 0x60 ∨ (isShift code ∨ code = keyCapsLock) ∧ w.keys.held code = false then none
      else some (World.irq { w with keys := w.keys.release code } (UInt8.ofNat (code + 128)))
  | .extended code => some ((w.irq 0xe0).irq code)

def World.start : World := ⟨⟨fun _ => false, 0, false⟩, ⟨false, ⟨0, false, 0⟩⟩, [], []⟩

/-- The driver's state is that of the keys. As it holds after every event, caps lock is toggled once for each press. -/
def Tracks (w : World) : Prop :=
  (w.ps2.input.shiftCount ≠ 0 ↔ w.keys.shiftsHeld ≠ 0) ∧ w.ps2.input.capsActive = w.keys.capsOn ∧
    w.typed = w.prescribed

instance (w : World) : Decidable (Tracks w) := inferInstanceAs (Decidable (_ ∧ _))

/-- Caps lock does not repeat its make code, and a shift key that was repeated does not go up as the last one. -/
def Unrepeated (w : World) : KeyEvent → Prop
  | .make code => code = keyCapsLock → w.keys.held code = false
  | .release code => isShift code → w.keys.held code = true → w.keys.shiftsHeld = 1 → w.keys.shiftRepeated = false
  | .extended _ => True

section Keys

variable (k : Keys) {code : Nat}

theorem Keys.make_shiftRepeated :
    (k.make code).shiftRepeated = if isShift code then k.held code else k.shiftRepeated := rfl

theorem Keys.release_shiftRepeated :
    (k.release code).shiftRepeated = if isShift code then false else k.shiftRepeated := rfl

theorem shift_cases (shift : isShift code = true) : code = keyLeftShift ∨ code = keyRightShift := by
  simpa only [isShift, Bool.or_eq_true, decide_eq_true_eq] using shift

theorem Keys.shiftsHeld_press (shift : isShift code = true) (up : k.held code = false) :
    (k.make code).shiftsHeld = k.shiftsHeld + 1 ∧ k.shiftsHeld ≤ 1 := by
  rcases shift_cases shift with rfl | rfl <;>
    cases left : k.held keyLeftShift <;> cases right : k.held keyRightShift <;>
    simp_all [Keys.shiftsHeld, Keys.make, Function.update, keyLeftShift, keyRightShift]

theorem Keys.shiftsHeld_repeat (down : k.held code = true) : (k.make code).shiftsHeld = k.shiftsHeld := by
  rw [Keys.shiftsHeld, Keys.make, ← down, Function.update_eq_self, Keys.shiftsHeld]

theorem Keys.shiftsHeld_held (shift : isShift code = true) (down : k.held code = true) :
    (k.release code).shiftsHeld + 1 = k.shiftsHeld ∧ k.shiftsHeld ≤ 2 := by
  rcases shift_cases shift with rfl | rfl <;>
    cases left : k.held keyLeftShift <;> cases right : k.held keyRightShift <;>
    simp_all [Keys.shiftsHeld, Keys.release, Function.update, keyLeftShift, keyRightShift]

theorem Keys.shiftsHeld_other (other : isShift code = false) (b : Bool) :
    Keys.shiftsHeld { k with held := Function.update k.held code b } = k.shiftsHeld := by
  simp only [isShift, Bool.or_eq_false_iff, decide_eq_false_iff_not] at other
  simp only [Keys.shiftsHeld, Function.update_of_ne (Ne.symm other.1), Function.update_of_ne (Ne.symm other.2)]

end Keys

theorem makeCode_halves : ∀ code : Fin 128, UInt8.ofNat code ≠ 0xe0 ∧
    (UInt8.ofNat code &&& 0x80 != 0) = false ∧ (UInt8.ofNat code &&& 0x7f).toNat = code := by
  decide +kernel

theorem breakCode_halves : ∀ code : Fin 128, code ≠ 0x60 → UInt8.ofNat (code + 128) ≠ 0xe0 ∧
    (UInt8.ofNat (code + 128) &&& 0x80 != 0) = true ∧ (UInt8.ofNat (code + 128) &&& 0x7f).toNat = code := by
  decide +kernel

/-- The keys that are followed are known to the driver; a key that is not has no character. -/
theorem ps2ScancodeBase_keys : ∀ code : Fin 128, ps2ScancodeBase.getD code 0 = 0 →
    isShift code = false ∧ (code : Nat) ≠ keyCapsLock ∧ asciiMap code = 0 ∧ asciiShiftMap code = 0 := by
  decide +kernel

section Driver

variable {s : Ps2} (base : s.isExtended = false)
include base

theorem ps2Irq_make (code : Fin 128) : ps2Irq s (UInt8.ofNat code) =
    if ps2ScancodeBase.getD code 0 ≠ 0 then
      ({ s with input := (inputHandleEvent s.input code false).1 }, (inputHandleEvent s.input code false).2)
    else (s, none) := by
  obtain ⟨noPrefix, press, raw⟩ := makeCode_halves code
  simp only [ps2Irq, press, raw, base, Bool.false_eq_true, if_false, if_neg noPrefix]

theorem ps2Irq_break {code : Fin 128} (noPrefix : code ≠ 0x60) : ps2Irq s (UInt8.ofNat (code + 128)) =
    if ps2ScancodeBase.getD code 0 ≠ 0 then
      ({ s with input := (inputHandleEvent s.input code true).1 }, (inputHandleEvent s.input code true).2)
    else (s, none) := by
  obtain ⟨noPrefix, release, raw⟩ := breakCode_halves code noPrefix
  simp only [ps2Irq, release, raw, base, Bool.false_eq_true, if_false, if_neg noPrefix]

theorem ps2Irq_extended (code : UInt8) : ps2Irq s 0xe0 = ({ s with isExtended := true }, none) ∧
    ps2Irq { s with isExtended := true } code = (s, none) := by
  refine ⟨?_, ?_⟩
  · simp only [ps2Irq, base, Bool.false_eq_true, if_false, if_true]
  · simp only [ps2Irq, if_true]
    rw [← base]

theorem ps2Irq_shift {code : Fin 128} (shift : isShift code = true) :
    ps2Irq s (UInt8.ofNat code) =
        ({ s with input := { s.input with shiftCount := counted s.input.shiftCount false } }, none) ∧
      (code ≠ 0x60 → ps2Irq s (UInt8.ofNat (code + 128)) =
        ({ s with input := { s.input with shiftCount := counted s.input.shiftCount true } }, none)) := by
  have known : ps2ScancodeBase.getD code 0 ≠ 0 := fun gap =>
    Bool.false_ne_true ((ps2ScancodeBase_keys code gap).1.symm.trans shift)
  refine ⟨?_, fun noPrefix => ?_⟩
  · rw [ps2Irq_make base, if_pos known, inputHandleEvent, if_pos shift]
  · rw [ps2Irq_break base noPrefix, if_pos known, inputHandleEvent, if_pos shift]

theorem ps2Irq_capsLock {code : Fin 128} (caps : (code : Nat) = keyCapsLock) :
    ps2Irq s (UInt8.ofNat code) =
      ({ s with input := { s.input with capsActive := !s.input.capsActive } }, none) := by
  have known : ps2ScancodeBase.getD code 0 ≠ 0 := fun gap => (ps2ScancodeBase_keys code gap).2.1 caps
  rw [ps2Irq_make base, if_pos known, caps]
  rfl

theorem ps2Irq_other {code : Fin 128} (other : isShift code = false) (notCaps : (code : Nat) ≠ keyCapsLock) :
    ∃ ctrl, ps2Irq s (UInt8.ofNat code) = ({ s with input := { s.input with ctrlCount := ctrl } },
      if isCtrl code then none
      else if keyChar code (s.input.shiftCount ≠ 0) s.input.capsActive = 0 then none
      else some (keyChar code (s.input.shiftCount ≠ 0) s.input.capsActive)) := by
  rw [ps2Irq_make base]
  by_cases known : ps2ScancodeBase.getD code 0 ≠ 0
  · rw [if_pos known, inputHandleEvent, if_neg (by rw [other]; decide)]
    by_cases ctrl : isCtrl code = true
    · exact ⟨_, by rw [if_pos ctrl, if_pos ctrl]⟩
    · refine ⟨s.input.ctrlCount, ?_⟩
      rw [if_neg ctrl, if_neg ctrl, if_neg (fun isCaps => notCaps isCaps.1), if_neg (by decide),
        if_neg (Nat.not_le.mpr code.isLt)]
  · refine ⟨s.input.ctrlCount, ?_⟩
    obtain ⟨_, _, plain, shifted⟩ := ps2ScancodeBase_keys code (not_not.mp known)
    rw [if_neg known, if_pos (show keyChar code _ _ = 0 by simp only [keyChar, plain, shifted, ite_self]), ite_self]

theorem ps2Irq_otherBreak {code : Fin 128} (noPrefix : code ≠ 0x60) (other : isShift code = false) :
    ∃ ctrl, ps2Irq s (UInt8.ofNat (code + 128)) = ({ s with input := { s.input with ctrlCount := ctrl } }, none) := by
  rw [ps2Irq_break base noPrefix]
  by_cases known : ps2ScancodeBase.getD code 0 ≠ 0
  · rw [if_pos known, inputHandleEvent, if_neg (by rw [other]; decide)]
    by_cases ctrl : isCtrl code = true
    · exact ⟨_, by rw [if_pos ctrl]⟩
    · refine ⟨s.input.ctrlCount, ?_⟩
      rw [if_neg ctrl, if_neg (fun isCaps => Bool.noConfusion isCaps.2), if_pos rfl]
  · exact ⟨s.input.ctrlCount, by rw [if_neg known]⟩

end Driver

/-- The counter holds the number of shift keys that are down, or two after a repeated make code. -/
structure Synced (w : World) : Prop where
  base : w.ps2.isExtended = false
  shift : w.ps2.input.shiftCount =
    if w.keys.shiftsHeld = 1 ∧ w.keys.shiftRepeated = true then 2 else (w.keys.shiftsHeld : Int)
  caps : w.ps2.input.capsActive = w.keys.capsOn
  typed : w.typed = w.prescribed

section Steps

variable {w t : World} {code : Fin 128}

theorem Synced.tracks (synced : Synced w) : Tracks w := by
  refine ⟨?_, synced.caps, synced.typed⟩
  rw [synced.shift]
  split <;> omega

theorem Synced.shiftMake (synced : Synced w) (shift : isShift code = true)
    (step : keyStep w (.make code) = some t) : Synced t := by
  rw [keyStep] at step
  split at step
  · cases step
  have pushed : w.keys.prescribes code = none := if_pos (Or.inl shift)
  have notCaps : ¬ ((code : Nat) = keyCapsLock ∧ w.keys.held code = false) := by
    rintro ⟨caps, _⟩
    rw [caps] at shift
    exact absurd shift (by decide)
  obtain rfl := Option.some.inj step
  simp only [World.irq, (ps2Irq_shift synced.base shift).1, pushed, Option.toList_none, List.append_nil]
  refine ⟨synced.base, ?_, ?_, synced.typed⟩
  · cases held : w.keys.held code with
    | false =>
        obtain ⟨more, atMost⟩ := w.keys.shiftsHeld_press shift held
        simp only [more, Keys.make_shiftRepeated, shift, if_true, held, Bool.false_eq_true, and_false, if_false,
          synced.shift, counted]
        split_ifs <;> omega
    | true =>
        obtain ⟨more, atMost⟩ := w.keys.shiftsHeld_held shift held
        simp only [w.keys.shiftsHeld_repeat held, Keys.make_shiftRepeated, shift, if_true, held, and_true,
          synced.shift, counted, Bool.false_eq_true, if_false]
        split_ifs <;> omega
  · simp only [Keys.capsOn, Keys.make, if_neg notCaps]
    exact synced.caps

theorem Synced.capsMake (synced : Synced w) (caps : (code : Nat) = keyCapsLock)
    (step : keyStep w (.make code) = some t) :
    (w.keys.held code = false → Synced t) ∧ (w.keys.held code = true → ¬ Tracks t) := by
  rw [keyStep] at step
  split at step
  · cases step
  have pushed : w.keys.prescribes code = none := if_pos (Or.inr (Or.inr caps))
  have other : isShift code = false := by rw [caps]; rfl
  obtain rfl := Option.some.inj step
  simp only [World.irq, ps2Irq_capsLock synced.base caps, pushed, Option.toList_none, List.append_nil]
  refine ⟨fun up => ⟨synced.base, ?_, ?_, synced.typed⟩, fun down tracks => ?_⟩
  · have same : (w.keys.make code).shiftsHeld = w.keys.shiftsHeld := w.keys.shiftsHeld_other other true
    simp only [same, Keys.make_shiftRepeated, other, Bool.false_eq_true, if_false]
    exact synced.shift
  · simp only [Keys.capsOn, Keys.make, if_pos (And.intro caps up), synced.caps]
    rcases Nat.mod_two_eq_zero_or_one w.keys.capsPresses with even | odd <;> simp [Nat.add_mod, *]
  · have toggled := tracks.2.1
    simp only [Keys.capsOn, Keys.make, down, Bool.true_eq_false, and_false, if_false, synced.caps] at toggled
    exact Bool.not_ne_self _ toggled

theorem Synced.otherMake (synced : Synced w) (other : isShift code = false) (notCaps : (code : Nat) ≠ keyCapsLock)
    (step : keyStep w (.make code) = some t) : Synced t := by
  rw [keyStep] at step
  split at step
  · cases step
  obtain ⟨ctrl, handled⟩ := ps2Irq_other synced.base other notCaps
  have same : (w.keys.make code).shiftsHeld = w.keys.shiftsHeld := w.keys.shiftsHeld_other other true
  have shifted : decide (w.ps2.input.shiftCount ≠ 0) = decide (w.keys.shiftsHeld ≠ 0) :=
    decide_eq_decide.mpr synced.tracks.1
  obtain rfl := Option.some.inj step
  simp only [World.irq, handled]
  refine ⟨synced.base, ?_, ?_, ?_⟩
  · simp only [same, Keys.make_shiftRepeated, other, Bool.false_eq_true, if_false]
    exact synced.shift
  · simp only [Keys.capsOn, Keys.make, if_neg (fun caps : _ ∧ _ => notCaps caps.1)]
    exact synced.caps
  · simp only [Keys.prescribes, other, Bool.false_eq_true, false_or, notCaps, or_false, synced.typed, shifted,
      synced.caps]

theorem Synced.shiftRelease (synced : Synced w) (shift : isShift code = true)
    (step : keyStep w (.release code) = some t) :
    w.keys.held code = true ∧
      ((w.keys.shiftsHeld = 1 → w.keys.shiftRepeated = false) → Synced t) ∧
      (w.keys.shiftsHeld = 1 → w.keys.shiftRepeated = true → ¬ Tracks t) := by
  rw [keyStep] at step
  split at step
  · cases step
  next allowed =>
  rw [not_or, not_and, Bool.not_eq_false] at allowed
  have held := allowed.2 (Or.inl shift)
  obtain ⟨less, atMost⟩ := w.keys.shiftsHeld_held shift held
  obtain rfl := Option.some.inj step
  simp only [World.irq, (ps2Irq_shift synced.base shift).2 allowed.1, Option.toList_none, List.append_nil]
  refine ⟨held, fun unrepeated => ⟨synced.base, ?_, synced.caps, synced.typed⟩, fun last repeated tracks => ?_⟩
  · simp only [Keys.release_shiftRepeated, shift, if_true, Bool.false_eq_true, and_false, if_false, synced.shift,
      counted]
    cases repeated : w.keys.shiftRepeated with
    | false =>
        simp only [Bool.false_eq_true, and_false, if_false]
        split_ifs <;> omega
    | true =>
        have two : w.keys.shiftsHeld ≠ 1 := fun one => Bool.false_ne_true ((unrepeated one).symm.trans repeated)
        simp only [two, false_and, if_false]
        split_ifs <;> omega
  · have stuck : counted w.ps2.input.shiftCount true ≠ 0 := by
      rw [synced.shift, if_pos ⟨last, repeated⟩]
      decide
    have none : (w.keys.release code).shiftsHeld = 0 := by omega
    exact tracks.1.mp stuck none

theorem Synced.otherRelease (synced : Synced w) (other : isShift code = false)
    (step : keyStep w (.release code) = some t) : Synced t := by
  rw [keyStep] at step
  split at step
  · cases step
  next allowed =>
  rw [not_or] at allowed
  obtain ⟨ctrl, handled⟩ := ps2Irq_otherBreak synced.base allowed.1 other
  have same : (w.keys.release code).shiftsHeld = w.keys.shiftsHeld := w.keys.shiftsHeld_other other false
  obtain rfl := Option.some.inj step
  simp only [World.irq, handled, Option.toList_none, List.append_nil]
  refine ⟨synced.base, ?_, synced.caps, synced.typed⟩
  simp only [same, Keys.release_shiftRepeated, other, Bool.false_eq_true, if_false]
  exact synced.shift

theorem Synced.extended (synced : Synced w) (code : UInt8) : keyStep w (.extended code) = some w := by
  obtain ⟨first, second⟩ := ps2Irq_extended synced.base code
  simp only [keyStep, World.irq, first, second, Option.toList_none, List.append_nil]

/-- One event keeps the counter in step exactly when it is unrepeated; otherwise shift is stuck or caps lock is
wrong. -/
theorem Synced.step (synced : Synced w) {event : KeyEvent} (step : keyStep w event = some t) :
    (Unrepeated w event → Synced t) ∧ (¬ Unrepeated w event → ¬ Tracks t) := by
  cases event with
  | make code =>
      by_cases shift : isShift code = true
      · have notCaps : (code : Nat) ≠ keyCapsLock := by
          intro caps
          rw [caps] at shift
          exact absurd shift (by decide)
        exact ⟨fun _ => synced.shiftMake shift step, fun repeated => absurd (fun caps => absurd caps notCaps) repeated⟩
      · by_cases caps : (code : Nat) = keyCapsLock
        · obtain ⟨pressed, repeated⟩ := synced.capsMake caps step
          refine ⟨fun unrepeated => pressed (unrepeated caps), fun wrong => repeated ?_⟩
          rw [← Bool.not_eq_false]
          exact fun up => wrong fun _ => up
        · exact ⟨fun _ => synced.otherMake (Bool.eq_false_of_not_eq_true shift) caps step,
            fun repeated => absurd (fun isCaps => absurd isCaps caps) repeated⟩
  | release code =>
      by_cases shift : isShift code = true
      · obtain ⟨held, lets, stuck⟩ := synced.shiftRelease shift step
        refine ⟨fun unrepeated => lets (unrepeated shift held), fun wrong => ?_⟩
        simp only [Unrepeated, shift, held, forall_const, Classical.not_imp, Bool.not_eq_false] at wrong
        exact stuck wrong.1 wrong.2
      · exact ⟨fun _ => synced.otherRelease (Bool.eq_false_of_not_eq_true shift) step,
          fun repeated => absurd (fun isShift => absurd isShift shift) repeated⟩
  | extended code =>
      rw [synced.extended] at step
      exact ⟨fun _ => Option.some.inj step ▸ synced, fun repeated => absurd trivial repeated⟩

theorem unrepeated_of_stuck {event : KeyEvent} (stuck : keyStep w event = none) : Unrepeated w event := by
  cases event with
  | make code =>
      intro caps
      rw [keyStep] at stuck
      split at stuck
      · next gap =>
          subst gap
          exact absurd caps (by decide)
      · cases stuck
  | release code =>
      intro shift held
      rw [keyStep] at stuck
      split at stuck
      · next never =>
          rcases never with gap | ⟨_, up⟩
          · subst gap
            exact absurd shift (by decide)
          · exact absurd (held.symm.trans up) (by decide)
      · cases stuck
  | extended code => trivial

end Steps

theorem start_synced : Synced World.start := ⟨rfl, rfl, rfl, rfl⟩

/-- Along a run of key strokes that starts with no key held, the driver's state and the characters it types are
those of the keys exactly when caps lock never repeats its make code and no shift key goes up as the last one
after a repetition. -/
theorem modifiers_tracked_iff (events : List KeyEvent) :
    Throughout keyStep Tracks World.start events ↔ Meets keyStep Unrepeated World.start events := by
  refine throughout_iff_guarded (I := Synced) ?_ ?_ ?_ ?_ start_synced events
  · exact fun w synced => synced.tracks
  · exact fun w event _ stuck => unrepeated_of_stuck stuck
  · exact fun w event t synced step => (synced.step step).1
  · exact fun w event t synced step => (synced.step step).2

/-- The left shift key is pressed, repeats once and goes up: the letter typed then is a capital one. -/
def heldShift : List KeyEvent := [.make 42, .make 42, .release 42, .make 30]

theorem heldShift_sticks : ¬ Throughout keyStep Tracks World.start heldShift := by
  decide +kernel

/-- Between Q and M, where the brackets and quotes are too, caps lock does what a shift key does. -/
theorem keyChar_swap {key : Nat} (inside : keyQ ≤ key ∧ key ≤ keyM) (shifted capsActive : Bool) :
    keyChar key shifted capsActive = keyChar key (!shifted) (!capsActive) := by
  rw [keyChar, keyChar, if_pos inside, if_pos inside]
  cases shifted <;> cases capsActive <;> rfl

example : keyChar keyLeftBrace false true = 123 := by decide

end SnapOS.Keyboard
