/- The text screen: the cursor and the cells of vga.c, over any sequence of calls. -/
import Mathlib.Algebra.Order.Group.Nat
import Mathlib.Logic.Function.Basic
import Mathlib.Tactic.SplitIfs
import SnapOS.Platform

namespace SnapOS.Vga

def vgaBufWidth : Nat := 80
def vgaBufHeight : Nat := 25
def vgaDefaultTextColor : Nat := 15

/-- The cursor, the cells, and the offset of every call of `__vga_write` so far. -/
structure Screen where
  x : Nat
  y : Nat
  cells : Nat → Nat
  offsets : List Nat

def vgaInit : Screen := ⟨0, 0, fun _ => 0, []⟩

def isfull (s : Screen) : Bool :=
  if s.y < vgaBufHeight then false else if vgaBufWidth ≤ s.x then false else true

/-- A `char` is signed: with its top bit set it covers the colour. -/
def makechar (c : UInt8) (color : Nat) : Nat :=
  (color <<< 8 ||| if c.toNat < 128 then c.toNat else 0xff00 + c.toNat) % 2 ^ 16

def rawVgaWrite (s : Screen) (x y val : Nat) : Screen :=
  let offset := y * vgaBufWidth + x
  { s with
    cells := Function.update s.cells offset val
    offsets := s.offsets ++ [offset] }

def vgaPutcharColor (s : Screen) (c : UInt8) (color : Nat) : Screen :=
  if isfull s then s
  else if c = newline then { s with x := 0, y := s.y + 1 }
  else
    let s := rawVgaWrite s s.x s.y (makechar c color)
    if (s.x + 1) % vgaBufWidth = 0 then { s with x := 0, y := s.y + 1 } else { s with x := s.x + 1 }

def vgaPutchar (s : Screen) (c : UInt8) : Screen := vgaPutcharColor s c vgaDefaultTextColor

def vgaPrintColor (s : Screen) (text : List UInt8) (color : Nat) : Screen :=
  (text.takeWhile (· ≠ 0)).foldl (fun s c => vgaPutcharColor s c color) s

def blank : Nat := 0x720

def vgaDelLast (s : Screen) : Screen :=
  let s :=
    if s.x = 0 then
      { s with
        x := if s.y = 0 then 0 else vgaBufWidth - 1
        y := if s.y = 0 then 0 else s.y - 1 }
    else { s with x := s.x - 1 }
  rawVgaWrite s s.x s.y blank

inductive Call where
  | putcharColor (c : UInt8) (color : Nat)
  | printColor (text : List UInt8) (color : Nat)
  | delLast

def vgaStep (s : Screen) : Call → Screen
  | .putcharColor c color => vgaPutcharColor s c color
  | .printColor text color => vgaPrintColor s text color
  | .delLast => vgaDelLast s

def screenAfter (calls : List Call) : Screen := calls.foldl vgaStep vgaInit

/-- The cursor is on the screen, or right behind its last cell. -/
structure OnScreen (s : Screen) : Prop where
  column : s.x < vgaBufWidth
  line : s.y ≤ vgaBufHeight
  behind : s.y = vgaBufHeight → s.x = 0
  written : ∀ offset ∈ s.offsets, offset < vgaBufWidth * vgaBufHeight

namespace OnScreen

variable {s : Screen}

theorem start : OnScreen vgaInit := by
  refine ⟨by decide, by decide, fun _ => rfl, fun offset member => ?_⟩
  cases member

theorem isfull_iff (on : OnScreen s) : isfull s = true ↔ s.y = vgaBufHeight := by
  have line := on.line
  rw [isfull, if_neg (Nat.not_le.mpr on.column)]
  split
  · next above => exact ⟨fun full => absurd full (by decide), fun bottom => absurd above (by omega)⟩
  · next below => exact ⟨fun _ => by omega, fun _ => rfl⟩

/-- A write above the last line is inside the buffer, and the cursor may move on from there. -/
theorem write (on : OnScreen s) {x y x' y' : Nat} (val : Nat) (column : x < vgaBufWidth) (line : y < vgaBufHeight)
    (column' : x' < vgaBufWidth) (line' : y' ≤ vgaBufHeight) (behind' : y' = vgaBufHeight → x' = 0) :
    OnScreen { rawVgaWrite s x y val with x := x', y := y' } := by
  refine ⟨column', line', behind', fun offset member => ?_⟩
  rcases List.mem_append.mp member with old | new
  · exact on.written offset old
  · rw [List.mem_singleton.mp new]
    simp only [vgaBufWidth, vgaBufHeight] at *
    omega

theorem putcharColor (on : OnScreen s) (c : UInt8) (color : Nat) : OnScreen (vgaPutcharColor s c color) := by
  rw [vgaPutcharColor]
  by_cases full : isfull s = true
  · rw [if_pos full]
    exact on
  have line : s.y < vgaBufHeight := Nat.lt_of_le_of_ne on.line (mt on.isfull_iff.mpr full)
  rw [if_neg full]
  by_cases ends : c = newline
  · rw [if_pos ends]
    exact ⟨by simp only [vgaBufWidth]; omega, line, fun _ => rfl, on.written⟩
  · rw [if_neg ends]
    have column := on.column
    dsimp only
    split
    · exact on.write _ on.column line (by decide) line fun _ => rfl
    · next inside =>
        have more : s.x + 1 < vgaBufWidth := by
          simp only [rawVgaWrite, vgaBufWidth] at *
          omega
        exact on.write _ on.column line more line.le fun bottom => absurd bottom line.ne

theorem printColor (on : OnScreen s) (text : List UInt8) (color : Nat) : OnScreen (vgaPrintColor s text color) := by
  rw [vgaPrintColor]
  generalize text.takeWhile (· ≠ 0) = shown
  induction shown generalizing s with
  | nil => exact on
  | cons c rest ih => exact ih (on.putcharColor c color)

theorem delLast (on : OnScreen s) : OnScreen (vgaDelLast s) := by
  have column := on.column
  have line := on.line
  have behind := on.behind
  rw [vgaDelLast]
  by_cases first : s.x = 0
  · rw [if_pos first]
    by_cases top : s.y = 0
    · simp only [if_pos top]
      have width : 0 < vgaBufWidth := by decide
      exact on.write _ width (by decide) width (Nat.zero_le _) fun _ => rfl
    · have above : s.y - 1 < vgaBufHeight := by omega
      have last : vgaBufWidth - 1 < vgaBufWidth := by decide
      simp only [if_neg top]
      exact on.write _ last above last above.le fun bottom => absurd bottom above.ne
  · have above : s.y < vgaBufHeight := Nat.lt_of_le_of_ne line (mt behind first)
    have inside : s.x - 1 < vgaBufWidth := by omega
    rw [if_neg first]
    exact on.write _ inside above inside above.le fun bottom => absurd bottom above.ne

theorem step (on : OnScreen s) (call : Call) : OnScreen (vgaStep s call) := by
  cases call with
  | putcharColor c color => exact on.putcharColor c color
  | printColor text color => exact on.printColor text color
  | delLast => exact on.delLast

theorem run (on : OnScreen s) (calls : List Call) : OnScreen (calls.foldl vgaStep s) := by
  induction calls generalizing s with
  | nil => exact on
  | cons call rest ih => exact ih (on.step call)

end OnScreen

/-- No sequence of calls writes outside the text buffer or leads the cursor off the screen. -/
theorem screenAfter_onScreen (calls : List Call) : OnScreen (screenAfter calls) := OnScreen.start.run calls

def writtenCell (s : Screen) (c : UInt8) : Option Nat :=
  if isfull s ∨ c = newline then none else some (s.y * vgaBufWidth + s.x)

/-- The character and the deletion leave the cursor where it was, and of the cells they leave that of the character
blank and all others as they were. -/
structure Undoes (s : Screen) (c : UInt8) : Prop where
  column : (vgaDelLast (vgaPutchar s c)).x = s.x
  line : (vgaDelLast (vgaPutchar s c)).y = s.y
  others : ∀ cell, writtenCell s c ≠ some cell → (vgaDelLast (vgaPutchar s c)).cells cell = s.cells cell
  erased : ∀ cell, writtenCell s c = some cell → (vgaDelLast (vgaPutchar s c)).cells cell = blank

section Undo

variable {s : Screen} {c : UInt8}

/-- A character that fits on the screen is written, and the deletion comes back to its cell. -/
theorem undoes_written (on : OnScreen s) (line : s.y < vgaBufHeight) (plain : c ≠ newline) : Undoes s c := by
  have space : isfull s = false := Bool.eq_false_of_not_eq_true (mt on.isfull_iff.mp line.ne)
  have column := on.column
  have cell : writtenCell s c = some (s.y * vgaBufWidth + s.x) := by
    rw [writtenCell, space, if_neg (by simp [plain])]
  have back : vgaDelLast (vgaPutchar s c) =
      rawVgaWrite (rawVgaWrite s s.x s.y (makechar c vgaDefaultTextColor)) s.x s.y blank := by
    simp only [vgaPutchar, vgaPutcharColor, space, Bool.false_eq_true, if_false, if_neg plain]
    by_cases margin : s.x + 1 = vgaBufWidth
    · -- behind the last column the cursor goes to the next line, and the deletion comes back to the margin
      have last : vgaBufWidth - 1 = s.x := by omega
      have wraps : (s.x + 1) % vgaBufWidth = 0 := by rw [margin, Nat.mod_self]
      simp only [rawVgaWrite, wraps, if_true, vgaDelLast, Nat.succ_ne_zero, if_false, Nat.add_sub_cancel, last]
    · have inside : (s.x + 1) % vgaBufWidth ≠ 0 := by
        rw [Nat.mod_eq_of_lt (by omega)]
        exact Nat.succ_ne_zero s.x
      simp only [rawVgaWrite, inside, if_false, vgaDelLast, Nat.succ_ne_zero, Nat.add_sub_cancel]
  refine ⟨?_, ?_, fun other apart => ?_, fun written here => ?_⟩
  · rw [back]; rfl
  · rw [back]; rfl
  · rw [cell, ne_eq, Option.some.injEq] at apart
    rw [back]
    simp only [rawVgaWrite, Function.update_of_ne (Ne.symm apart)]
  · obtain rfl := Option.some.inj (cell.symm.trans here)
    rw [back]
    simp only [rawVgaWrite, Function.update_self]

theorem not_undoes_full (on : OnScreen s) (full : s.y = vgaBufHeight) (c : UInt8) : ¬ Undoes s c := by
  intro undoes
  have column := on.behind full
  have moved := undoes.column
  simp only [vgaPutchar, vgaPutcharColor, on.isfull_iff.mpr full, if_true, vgaDelLast, column, full,
    rawVgaWrite] at moved
  exact absurd moved (by decide)

/-- After a newline the deletion goes to the end of the line that was left. -/
theorem undoes_newline_iff (on : OnScreen s) (line : s.y < vgaBufHeight) :
    Undoes s newline ↔ s.x = vgaBufWidth - 1 ∧ s.cells (s.y * vgaBufWidth + (vgaBufWidth - 1)) = blank := by
  have space : isfull s = false := Bool.eq_false_of_not_eq_true (mt on.isfull_iff.mp line.ne)
  have back : vgaDelLast (vgaPutchar s newline) =
      rawVgaWrite { s with x := vgaBufWidth - 1, y := s.y } (vgaBufWidth - 1) s.y blank := by
    simp only [vgaPutchar, vgaPutcharColor, space, Bool.false_eq_true, if_false, if_true, vgaDelLast, Nat.succ_ne_zero,
      Nat.add_sub_cancel]
  have nowhere : writtenCell s newline = none := if_pos (Or.inr rfl)
  constructor
  · intro undoes
    have column := undoes.column
    have others := undoes.others (s.y * vgaBufWidth + (vgaBufWidth - 1)) (nowhere ▸ (Option.some_ne_none _).symm)
    rw [back] at column others
    simp only [rawVgaWrite, Function.update_self] at others
    exact ⟨column.symm, others.symm⟩
  · rintro ⟨margin, already⟩
    refine ⟨?_, ?_, fun cell _ => ?_, fun cell here => ?_⟩
    · rw [back, margin]; rfl
    · rw [back]; rfl
    · rw [back, rawVgaWrite, ← already, Function.update_eq_self]
    · cases nowhere.symm.trans here

end Undo

/-- A deletion undoes the character before it exactly if that was written, or was a newline at the right margin of a
line whose last cell is blank. -/
theorem delLast_undoes_iff (calls : List Call) (c : UInt8) :
    Undoes (screenAfter calls) c ↔
      (screenAfter calls).y < vgaBufHeight ∧
        (c = newline → (screenAfter calls).x = vgaBufWidth - 1 ∧
          (screenAfter calls).cells ((screenAfter calls).y * vgaBufWidth + (vgaBufWidth - 1)) = blank) := by
  have on : OnScreen (screenAfter calls) := OnScreen.start.run calls
  rcases Nat.lt_or_eq_of_le on.line with line | full
  · by_cases ends : c = newline
    · subst ends
      rw [undoes_newline_iff on line]
      exact ⟨fun undone => ⟨line, fun _ => undone⟩, fun both => both.2 rfl⟩
    · exact iff_of_true (undoes_written on line ends) ⟨line, fun same => absurd same ends⟩
  · exact iff_of_false (not_undoes_full on full c) fun both => absurd full both.1.ne

/-- A newline after one character: the deletion goes to the right margin and not back to the character. -/
theorem newline_not_undone : ¬ Undoes (screenAfter [.putcharColor 97 vgaDefaultTextColor]) newline := by
  intro undoes
  exact absurd undoes.column (by decide)

end SnapOS.Vga
