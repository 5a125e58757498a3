/- The bounce loop of tty_read against one __tty_read of the whole request: a reader that is alone with the tty
cannot tell them apart. -/
import SnapOS.TtyFile
import SnapOS.TtyLines

namespace SnapOS.Tty
open SnapOS.Lib SnapOS.Uaccess

theorem takeLine_take (l : List UInt8) (n : Nat) : takeLine (l.take n) = (takeLine l).take n := by
  induction l generalizing n with
  | nil => simp only [List.take_nil, takeLine]
  | cons c rest ih =>
      cases n with
      | zero => rfl
      | succ n =>
          rw [List.take_succ_cons, takeLine, takeLine]
          split
          · rw [List.take_succ_cons, List.take_nil]
          · rw [List.take_succ_cons, ih]

theorem takeLine_append {front : List UInt8} (unended : newline ∉ front) (rest : List UInt8) :
    takeLine (front ++ rest) = front ++ takeLine rest := by
  induction front with
  | nil => rfl
  | cons c front ih =>
      rw [List.mem_cons, not_or] at unended
      rw [List.cons_append, takeLine, if_neg (Ne.symm unended.1), ih unended.2, List.cons_append]

theorem takeLine_whole {l : List UInt8} {n : Nat} (ended : newline ∈ (takeLine l).take n) :
    (takeLine l).take n = takeLine l := by
  induction l generalizing n with
  | nil => rw [takeLine, List.take_nil]
  | cons c rest ih =>
      cases n with
      | zero => cases ended
      | succ n =>
          rw [takeLine] at *
          split
          · rw [List.take_succ_cons, List.take_nil]
          · next other =>
              rw [if_neg other, List.take_succ_cons, List.mem_cons] at ended
              rw [List.take_succ_cons, ih (ended.resolve_left (Ne.symm other))]

structure HoldsLine (tty : TtyStruct) : Prop where
  bounded : Bounded tty
  counted : LinesCounted tty
  line : ttyHasLine tty = true

def consumed (tty : TtyStruct) (bytes : List UInt8) : TtyStruct :=
  { tty with
    head := (tty.head + bytes.length) % ttyBufSize
    canonLines := tty.canonLines - bytes.count newline }

theorem consumed_nil {tty : TtyStruct} (bounded : Bounded tty) : consumed tty [] = tty := by
  rw [consumed, List.length_nil, Nat.add_zero, Nat.mod_eq_of_lt bounded.head, List.count_nil, Nat.sub_zero]

theorem consumed_append (tty : TtyStruct) (front back : List UInt8) :
    consumed (consumed tty front) back = consumed tty (front ++ back) := by
  simp only [consumed, Nat.mod_add_mod, List.length_append, List.count_append, Nat.add_assoc, Nat.sub_sub]

namespace HoldsLine

variable {tty : TtyStruct} (holds : HoldsLine tty)
include holds

theorem canonLines_pos : 0 < tty.canonLines := of_decide_eq_true holds.line

theorem newline_mem : newline ∈ takeLine (pending tty) := by
  have some : newline ∈ pending tty := List.count_pos_iff.mp (holds.counted ▸ holds.canonLines_pos)
  rw [← List.count_pos_iff, count_takeLine, if_pos some]
  exact Nat.one_pos

/-- One `__tty_read`: the line cut at the request, which goes out of the ring. -/
theorem rawTtyRead_eq (n : Nat) :
    rawTtyRead tty n = ((takeLine (pending tty)).take n, consumed tty ((takeLine (pending tty)).take n)) := by
  have bytes := rawTtyRead_bytes holds.bounded holds.line (linesCounted_sound holds.bounded holds.counted holds.line) n
  have lines := readLoop_lines tty (if available tty < n then available tty else n) 0 holds.canonLines_pos
    (lt_trans (linesCounted_small holds.counted) (by decide))
  rw [takeLine_take] at bytes
  rw [← bytes]
  simp only [rawTtyRead, if_pos holds.line, consumed, Prod.mk.injEq, TtyStruct.mk.injEq, true_and, and_true]
  omega

/-- While the newline has not come, a read takes all it may and the ring still holds the rest of the line. -/
theorem unended {n : Nat} (unended : newline ∉ (takeLine (pending tty)).take n) :
    ((takeLine (pending tty)).take n).length = n ∧
      HoldsLine (consumed tty ((takeLine (pending tty)).take n)) ∧
      takeLine (pending (consumed tty ((takeLine (pending tty)).take n))) = (takeLine (pending tty)).drop n := by
  have splits := rawTtyRead_splits holds.bounded (linesCounted_sound holds.bounded holds.counted) n
  have bounded := rawTtyRead_bounded holds.bounded n
  have counted := rawTtyRead_linesCounted holds.bounded holds.counted n
  rw [holds.rawTtyRead_eq n] at splits bounded counted
  refine ⟨?_, ⟨bounded, counted, ?_⟩, ?_⟩
  · rw [List.length_take, Nat.min_eq_left]
    by_contra short
    rw [List.take_of_length_le (Nat.le_of_not_le short)] at unended
    exact unended holds.newline_mem
  · rw [ttyHasLine, consumed, List.count_eq_zero.mpr unended]
    exact holds.line
  · have whole := takeLine_append unended (pending (consumed tty ((takeLine (pending tty)).take n)))
    rw [splits] at whole
    exact List.append_cancel_left (whole.symm.trans (List.take_append_drop n _).symm)

end HoldsLine

section Loop

variable {tables : PageTables} {tty : TtyStruct} {pid count buf total : Nat}

/-- One time round the loop for a lone reader: the next chunk of the line is copied out, and the loop goes on unless
the newline was in it. -/
theorem ttyReadLoop_turn {chunk : List UInt8} (turns : List (List UInt8)) (bounce : List UInt8) (mem : Memory)
    (holds : HoldsLine tty) (foreground : isFg tty pid = true) (more : total < count)
    (next : (takeLine (pending tty)).take (min (count - total) ttyBounceBufSize) = chunk)
    (complete : (copyToUser tables mem buf chunk).2 = 0) :
    ttyReadLoop tables pid count ([] :: turns) buf total bounce mem tty =
      if newline ∈ chunk then
        ⟨some (total + chunk.length : Nat), (copyToUser tables mem buf chunk).1, consumed tty chunk⟩
      else
        ttyReadLoop tables pid count turns ((buf + chunk.length) % word64) (total + chunk.length) chunk
          (copyToUser tables mem buf chunk).1 (consumed tty chunk) := by
  have locked : lockedRead pid (count - total) bounce tty = (chunk, consumed tty chunk) := by
    rw [lockedRead, if_pos foreground, holds.rawTtyRead_eq, next]
  have filled : chunk ≠ [] := by
    have positive : 0 < min (count - total) ttyBounceBufSize := Nat.lt_min.mpr ⟨by omega, by decide⟩
    rw [← next, ne_eq, List.take_eq_nil_iff, not_or]
    exact ⟨Nat.ne_of_gt positive, List.ne_nil_of_mem holds.newline_mem⟩
  have length := List.length_pos_of_ne_nil filled
  have ends : (consumed tty chunk).canonLines ≠ tty.canonLines ↔ newline ∈ chunk := by
    have lines := holds.canonLines_pos
    rw [← List.count_pos_iff]
    simp only [consumed]
    omega
  have pressed : pressKeys tty [] = tty := rfl
  rw [ttyReadLoop, if_pos more]
  simp only [pressed, locked, complete, Nat.sub_zero]
  rw [if_neg (fun nothing => filled nothing.2), if_neg filled, if_neg (by omega), if_neg (fun left => left rfl)]
  by_cases ended : newline ∈ chunk
  · rw [if_pos (ends.mpr ended), if_pos ended]
  · rw [if_neg (mt ends.mp ended), if_neg ended]

theorem ttyReadLoop_done {bytes : List UInt8} (turns : Nat) (bounce : List UInt8) (mem : Memory) (bounded : Bounded tty)
    (done : ¬ total < count) (whole : (takeLine (pending tty)).take (count - total) = bytes) :
    ttyReadLoop tables pid count (List.replicate turns []) buf total bounce mem tty =
      ⟨some (total + bytes.length : Nat), (copyToUser tables mem buf bytes).1, consumed tty bytes⟩ := by
  have nothing : bytes = [] := by
    rw [← whole, Nat.sub_eq_zero_of_le (Nat.le_of_not_lt done), List.take_zero]
  rw [nothing, consumed_nil bounded, copyToUser, List.length_nil, Nat.add_zero]
  cases turns with
  | zero => rw [List.replicate_zero, ttyReadLoop, if_neg done]
  | succ turns => rw [List.replicate_succ, ttyReadLoop, if_neg done]

/-- The loop from any point of the line on copies what one read of the rest of the request gives. -/
theorem ttyReadLoop_alone {bytes : List UInt8} (turns : Nat) (bounce : List UInt8) (mem : Memory)
    (holds : HoldsLine tty) (foreground : isFg tty pid = true) (pointer : buf < word64)
    (whole : (takeLine (pending tty)).take (count - total) = bytes) (short : bytes.length < word64)
    (enough : bytes.length ≤ turns * ttyBounceBufSize)
    (mapped : ∀ i < bytes.length, tables.mapped ((buf + i) % word64) = true) :
    ttyReadLoop tables pid count (List.replicate turns []) buf total bounce mem tty =
      ⟨some (total + bytes.length : Nat), (copyToUser tables mem buf bytes).1, consumed tty bytes⟩ := by
  induction turns generalizing bounce mem tty buf total bytes with
  | zero =>
      refine ttyReadLoop_done 0 bounce mem holds.bounded (fun more => ?_) whole
      rw [Nat.zero_mul, Nat.le_zero, List.length_eq_zero_iff, ← whole, List.take_eq_nil_iff] at enough
      exact absurd (enough.resolve_right (List.ne_nil_of_mem holds.newline_mem)) (by omega)
  | succ turns ih =>
      by_cases more : total < count
      swap
      · exact ttyReadLoop_done (turns + 1) bounce mem holds.bounded more whole
      obtain ⟨chunk, next⟩ : ∃ chunk, (takeLine (pending tty)).take (min (count - total) ttyBounceBufSize) = chunk :=
        ⟨_, rfl⟩
      have cut : bytes = chunk ++ ((takeLine (pending tty)).drop (min (count - total) ttyBounceBufSize)).take
          (count - total - min (count - total) ttyBounceBufSize) := by
        rw [← whole, ← next, ← List.take_add, Nat.add_sub_cancel' (Nat.min_le_left _ _)]
      obtain ⟨rest, isRest⟩ : ∃ rest, ((takeLine (pending tty)).drop (min (count - total) ttyBounceBufSize)).take
          (count - total - min (count - total) ttyBounceBufSize) = rest := ⟨_, rfl⟩
      rw [isRest] at cut
      have lengths : bytes.length = chunk.length + rest.length := by rw [cut, List.length_append]
      have complete := (copyToUser_mapped pointer mem (fun i inside => mapped i (by omega))
        (show chunk.length < word64 by omega)).1
      rw [List.replicate_succ, ttyReadLoop_turn _ bounce mem holds foreground more next complete]
      by_cases ended : newline ∈ chunk
      · have line : chunk = takeLine (pending tty) := next ▸ takeLine_whole (next.symm ▸ ended)
        have nothing : rest = [] := by
          rw [← isRest, List.drop_of_length_le, List.take_nil]
          rw [← line, ← next]
          exact List.length_take_le _ _
        rw [if_pos ended, cut, nothing, List.append_nil]
      · obtain ⟨full, holds', after⟩ := holds.unended (next.symm ▸ ended)
        rw [next] at full holds' after
        have later : (takeLine (pending (consumed tty chunk))).take (count - (total + chunk.length)) = rest := by
          rw [after, full, ← Nat.sub_sub, isRest]
        have enough' : rest.length ≤ turns * ttyBounceBufSize := by
          have most := List.length_take_le (count - total - min (count - total) ttyBounceBufSize)
            ((takeLine (pending tty)).drop (min (count - total) ttyBounceBufSize))
          rw [isRest] at most
          rw [Nat.succ_mul] at enough
          omega
        have mapped' : ∀ i < rest.length, tables.mapped (((buf + chunk.length) % word64 + i) % word64) = true := by
          intro i inside
          rw [Nat.mod_add_mod, Nat.add_assoc]
          exact mapped (chunk.length + i) (by omega)
        rw [if_neg ended, ih chunk _ holds' foreground (Nat.mod_lt _ (by decide)) later (by omega) enough' mapped', cut,
          copyToUser_append pointer mem complete, consumed_append, List.length_append, Nat.add_assoc]

end Loop

/-- What `tty_read` gives a foreground caller that nobody disturbs: the bytes of one `__tty_read` of the whole request,
and the ring that it leaves. A line fits into four chunks. -/
theorem ttyRead_eq_rawTtyRead (tables : PageTables) (pid buf count turns : Nat) (mem : Memory) {tty : TtyStruct}
    (bounded : Bounded tty) (counted : LinesCounted tty) (line : 0 < tty.canonLines) (foreground : isFg tty pid = true)
    (pointer : buf < word64) (enough : 4 ≤ turns)
    (mapped : ∀ i < (rawTtyRead tty count).1.length, tables.mapped ((buf + i) % word64) = true) :
    ttyRead ⟨tables, pid, List.replicate turns []⟩ buf count mem tty =
        ⟨some (rawTtyRead tty count).1.length, (copyToUser tables mem buf (rawTtyRead tty count).1).1,
          (rawTtyRead tty count).2⟩ ∧
      userBytes (ttyRead ⟨tables, pid, List.replicate turns []⟩ buf count mem tty).mem buf
        (rawTtyRead tty count).1.length = (rawTtyRead tty count).1 ∧
      (rawTtyRead tty count).1 = (takeLine (pending tty)).take count := by
  have holds : HoldsLine tty := ⟨bounded, counted, decide_eq_true line⟩
  have once := holds.rawTtyRead_eq count
  have stored : (rawTtyRead tty count).1.length ≤ 512 := by
    have front := (takeLine_front (pending tty)).length_le
    rw [pending, length_window] at front
    have inside := Nat.mod_lt (tty.tail + ttyBufSize - tty.head) (show 0 < ttyBufSize by decide)
    rw [once]
    exact (List.length_take_le' _ _).trans (front.trans inside.le)
  have short : (rawTtyRead tty count).1.length < word64 := Nat.lt_of_le_of_lt stored (by decide)
  have same : ttyRead ⟨tables, pid, List.replicate turns []⟩ buf count mem tty =
      ⟨some (rawTtyRead tty count).1.length, (copyToUser tables mem buf (rawTtyRead tty count).1).1,
        (rawTtyRead tty count).2⟩ := by
    have whole : (takeLine (pending tty)).take (count - 0) = (rawTtyRead tty count).1 := by rw [once, Nat.sub_zero]
    have after : consumed tty (rawTtyRead tty count).1 = (rawTtyRead tty count).2 := by rw [once]
    have chunks : (rawTtyRead tty count).1.length ≤ turns * ttyBounceBufSize :=
      stored.trans (Nat.mul_le_mul_right ttyBounceBufSize enough)
    rw [ttyRead, ttyReadLoop_alone turns [] mem holds foreground pointer whole short chunks mapped, Nat.zero_add, after]
  refine ⟨same, ?_, by rw [once]⟩
  rw [same]
  exact (copyToUser_mapped pointer mem mapped short).2

def wrappedLine : TtyStruct := ⟨fun i => if i = 17 then newline else 97, 400, 18, 1, 1⟩

theorem ttyRead_eq_rawTtyRead_wrapped :
    (rawTtyRead wrappedLine 200).1.length = 130 ∧
      ttyRead ⟨sampleTables, 1, List.replicate 4 []⟩ 0x400800 200 (fun _ => 0) wrappedLine =
        ⟨some (rawTtyRead wrappedLine 200).1.length,
          (copyToUser sampleTables (fun _ => 0) 0x400800 (rawTtyRead wrappedLine 200).1).1,
          (rawTtyRead wrappedLine 200).2⟩ :=
  ⟨by decide +kernel,
    (ttyRead_eq_rawTtyRead sampleTables 1 0x400800 200 4 (fun _ => 0) ⟨by decide, by decide⟩
      (show _ = _ by decide +kernel) (by decide) rfl (by decide) (by decide) (by decide +kernel)).1⟩

end SnapOS.Tty
