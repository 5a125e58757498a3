/- Whole runs of pushes and reads on the tty ring: the line counter and the delivered bytes.

Two slips of the source meet here. A newline that finds the ring full is counted although it is
not stored, and a backspace that erases a newline leaves it counted. The results below say
exactly which runs are free of them. -/
import SnapOS.Lib.Run
import SnapOS.Tty

namespace SnapOS.Tty
open SnapOS.Lib

def takeLine : List UInt8 → List UInt8
  | [] => []
  | c :: rest => if c = newline then [c] else c :: takeLine rest

theorem takeLine_front (l : List UInt8) : takeLine l <+: l := by
  induction l with
  | nil => exact List.prefix_rfl
  | cons c rest ih =>
      simp only [takeLine]
      split
      · exact ⟨rest, rfl⟩
      · exact (List.prefix_cons_inj c).mpr ih

theorem takeLine_eq_nil {l : List UInt8} (h : takeLine l = []) : l = [] := by
  cases l with
  | nil => rfl
  | cons c rest =>
      simp only [takeLine] at h
      split at h <;> cases h

theorem count_takeLine (l : List UInt8) :
    (takeLine l).count newline = if newline ∈ l then 1 else 0 := by
  induction l with
  | nil => rfl
  | cons c rest ih =>
      simp only [takeLine]
      split
      · next h => simp [h]
      · next h => simp [h, Ne.symm h, ih]

theorem readLoop_bytes (tty : TtyStruct) (n i : Nat) :
    (readLoop tty n i).1 = takeLine (window ttyBufSize tty.buffer (tty.head + i) n) := by
  induction n generalizing i with
  | zero => rfl
  | succ n ih =>
      rw [readLoop, window_succ_first, takeLine]
      split
      · rfl
      · simp only [ih, Nat.add_assoc]

/-- The loop takes one line off the counter exactly when it copied a newline. -/
theorem readLoop_lines (tty : TtyStruct) (n i : Nat) (h : 0 < tty.canonLines)
    (fits : tty.canonLines < 2 ^ 64) :
    (readLoop tty n i).2 + (readLoop tty n i).1.count newline = tty.canonLines := by
  induction n generalizing i with
  | zero => simp [readLoop]
  | succ n ih =>
      rw [readLoop]
      split
      · next hc =>
          simp only [hc, List.count_singleton_self]
          omega
      · next hc =>
          simp only [List.count_cons, beq_iff_eq, hc, if_false]
          exact ih (i + 1)

theorem rawTtyRead_bounded {tty : TtyStruct} (h : Bounded tty) (count : Nat) :
    Bounded (rawTtyRead tty count).2 := by
  unfold rawTtyRead
  split
  · exact ⟨Nat.mod_lt _ (by decide), h.tail⟩
  · exact h

theorem length_pending {tty : TtyStruct} (h : Bounded tty) (full : tty.head ≠ tty.tail) :
    (pending tty).length = available tty := by
  obtain ⟨hh, ht⟩ := h
  rw [pending, length_window, available]
  simp only [ttyBufSize] at *
  split <;> omega

theorem rawTtyRead_bytes {tty : TtyStruct} (h : Bounded tty) (line : ttyHasLine tty = true)
    (stored : tty.head ≠ tty.tail) (count : Nat) :
    (rawTtyRead tty count).1 = takeLine ((pending tty).take count) := by
  have hlen := length_pending h stored
  simp only [pending, length_window] at hlen
  simp only [rawTtyRead, line, if_true, readLoop_bytes, pending, window_take, hlen, Nat.add_zero]
  congr 2
  split <;> omega

/-- A read splits the pending bytes: it returns the first part and leaves the rest. -/
theorem rawTtyRead_splits {tty : TtyStruct} (h : Bounded tty)
    (sound : ttyHasLine tty = true → tty.head ≠ tty.tail) (count : Nat) :
    (rawTtyRead tty count).1 ++ pending (rawTtyRead tty count).2 = pending tty := by
  by_cases line : ttyHasLine tty = true
  · have stored := sound line
    have hbytes := rawTtyRead_bytes h line stored count
    have hpre : (rawTtyRead tty count).1 <+: pending tty := by
      rw [hbytes]
      exact (takeLine_front _).trans ( List.take_prefix _ _)
    have hle := hpre.length_le
    have htail : (rawTtyRead tty count).2.tail = tty.tail := by simp only [rawTtyRead, line, if_true]
    have hhead : (rawTtyRead tty count).2.head =
        (tty.head + (rawTtyRead tty count).1.length) % ttyBufSize := by
      simp only [rawTtyRead, line, if_true]
    have hbuf : (rawTtyRead tty count).2.buffer = tty.buffer := by
      simp only [rawTtyRead, line, if_true]
    generalize (rawTtyRead tty count).1 = bytes at *
    generalize (rawTtyRead tty count).2 = after at *
    obtain ⟨hh, ht⟩ := h
    have hrest : (after.tail + ttyBufSize - after.head) % ttyBufSize =
        (pending tty).length - bytes.length := by
      rw [htail, hhead]
      simp only [pending, length_window, ttyBufSize] at *
      omega
    have hfirst : bytes = window ttyBufSize tty.buffer tty.head bytes.length := by
      have htake := List.prefix_iff_eq_take.mp hpre
      rw [pending, window_take, Nat.min_eq_left (by simpa only [pending, length_window] using hle)] at htake
      exact htake
    have hsum : (tty.tail + ttyBufSize - tty.head) % ttyBufSize =
        bytes.length + ((pending tty).length - bytes.length) := by
      simp only [pending, length_window] at hle ⊢
      omega
    rw [pending, hrest, hbuf, hhead]
    conv_lhs => rw [hfirst]
    rw [length_window, ← window_add, ← hsum]
    rfl
  · simp only [rawTtyRead, line]
    rfl

theorem handleBackspace_pending {tty : TtyStruct} (h : Bounded tty) :
    pending (handleBackspace tty).1 = (pending tty).dropLast := by
  unfold handleBackspace ttyIsEmpty
  by_cases empty : tty.head = tty.tail
  · have hnil := (pending_eq_nil_iff h).mpr empty
    simp only [empty, decide_true, if_true] at *
    rw [hnil]
    rfl
  · obtain ⟨hh, ht⟩ := h
    simp only [empty, decide_false, Bool.false_eq_true, if_false, pending]
    have hlen : (tty.tail + ttyBufSize - tty.head) % ttyBufSize =
        ((if tty.tail = 0 then ttyBufSize - 1 else tty.tail - 1) + ttyBufSize - tty.head) % ttyBufSize + 1 := by
      simp only [ttyBufSize] at *
      split <;> omega
    rw [hlen, window_succ_last, List.dropLast_concat]

theorem handleBackspace_bounded {tty : TtyStruct} (h : Bounded tty) :
    Bounded (handleBackspace tty).1 := by
  obtain ⟨hh, ht⟩ := h
  unfold handleBackspace
  split
  · exact ⟨hh, ht⟩
  · refine ⟨hh, ?_⟩
    simp only [ttyBufSize] at *
    split <;> omega

theorem stored_bounded {tty : TtyStruct} (h : Bounded tty) (input : UInt8) :
    Bounded (stored tty input) := by
  unfold stored
  split
  · exact h
  · exact ⟨h.head, Nat.mod_lt _ (by decide)⟩

theorem stored_pending {tty : TtyStruct} (h : Bounded tty) (input : UInt8) :
    pending (stored tty input) =
      if ttyIsFull tty then pending tty else pending tty ++ [input] := by
  unfold stored
  split
  · rfl
  · next room =>
      obtain ⟨hh, ht⟩ := h
      have hne : (tty.tail + 1) % ttyBufSize ≠ tty.head := by simpa [ttyIsFull] using room
      have hlen : ((tty.tail + 1) % ttyBufSize + ttyBufSize - tty.head) % ttyBufSize =
          (tty.tail + ttyBufSize - tty.head) % ttyBufSize + 1 := by
        simp only [ttyBufSize] at *
        omega
      have hroom : (tty.tail + ttyBufSize - tty.head) % ttyBufSize < ttyBufSize :=
        Nat.mod_lt _ (by decide)
      have hcell : (tty.head + (tty.tail + ttyBufSize - tty.head) % ttyBufSize) % ttyBufSize =
          tty.tail := by
        simp only [ttyBufSize] at *
        omega
      have hpush := window_push tty.buffer tty.head hroom input
      rw [hcell] at hpush
      simpa only [pending, hlen] using hpush

inductive TtyInput where
  | push (c : UInt8)
  | read (count : Nat)

def ttyStep (tty : TtyStruct) : TtyInput → Option TtyStruct
  | .push c => some (ttyPushChar tty c).tty
  | .read count => some (rawTtyRead tty count).2

theorem ttyStep_total (tty : TtyStruct) (input : TtyInput) : ∃ after, ttyStep tty input = some after := by
  cases input <;> exact ⟨_, rfl⟩

theorem ttyPushChar_bounded {tty : TtyStruct} (h : Bounded tty) (c : UInt8) :
    Bounded (ttyPushChar tty c).tty := by
  unfold ttyPushChar
  split
  · exact handleBackspace_bounded h
  · have hs := stored_bounded h c
    split
    · exact ⟨hs.head, hs.tail⟩
    · exact hs

theorem ttyStep_bounded {tty after : TtyStruct} {input : TtyInput} (h : Bounded tty)
    (step : ttyStep tty input = some after) : Bounded after := by
  cases input with
  | push c => exact Option.some.inj step ▸ ttyPushChar_bounded h c
  | read count => exact Option.some.inj step ▸ rawTtyRead_bounded h count

theorem ttyPushChar_pending {tty : TtyStruct} (h : Bounded tty) (c : UInt8) :
    pending (ttyPushChar tty c).tty =
      if c = backspace then (pending tty).dropLast
      else if ttyIsFull tty then pending tty else pending tty ++ [c] := by
  unfold ttyPushChar
  split
  · exact handleBackspace_pending h
  · rw [← stored_pending h c]
    split <;> rfl

theorem handleBackspace_canonLines (tty : TtyStruct) :
    (handleBackspace tty).1.canonLines = tty.canonLines := by
  unfold handleBackspace
  split <;> rfl

theorem ttyPushChar_canonLines (tty : TtyStruct) (c : UInt8) :
    (ttyPushChar tty c).tty.canonLines =
      if c = newline then (tty.canonLines + 1) % 2 ^ 64 else tty.canonLines := by
  unfold ttyPushChar
  split
  · next hb =>
      subst hb
      exact handleBackspace_canonLines tty
  · split
    · rfl
    · unfold stored
      split <;> rfl

def LinesCounted (tty : TtyStruct) : Prop := tty.canonLines = (pending tty).count newline

/-- No newline is pushed into a full ring and no newline is erased. -/
def LineSafe (tty : TtyStruct) : TtyInput → Prop
  | .push c => (c = newline → ttyIsFull tty = false) ∧
      (c = backspace → (pending tty).getLast? ≠ some newline)
  | .read _ => True

theorem linesCounted_small {tty : TtyStruct} (h : LinesCounted tty) : tty.canonLines < ttyBufSize := by
  have hle : (pending tty).count newline ≤ (pending tty).length := List.count_le_length
  have hlt : (pending tty).length < ttyBufSize := by
    rw [pending, length_window]
    exact Nat.mod_lt _ (by decide)
  rw [h]
  exact hle.trans_lt hlt

/-- A counter that agrees with the ring rules out the empty ring that looks full. -/
theorem linesCounted_sound {tty : TtyStruct} (hb : Bounded tty) (h : LinesCounted tty)
    (line : ttyHasLine tty = true) : tty.head ≠ tty.tail := by
  intro same
  have hpos : 0 < tty.canonLines := by simpa [ttyHasLine] using line
  rw [h, (pending_eq_nil_iff hb).mpr same] at hpos
  exact Nat.lt_irrefl 0 hpos

theorem count_dropLast_iff {α : Type*} [DecidableEq α] (a : α) (l : List α) :
    l.count a = l.dropLast.count a ↔ l.getLast? ≠ some a := by
  rcases List.eq_nil_or_concat l with rfl | ⟨front, last, rfl⟩
  · simp
  · by_cases same : last = a
    · subst same
      simp
    · simp [same]

theorem rawTtyRead_linesCounted {tty : TtyStruct} (hb : Bounded tty) (h : LinesCounted tty)
    (count : Nat) : LinesCounted (rawTtyRead tty count).2 := by
  have hsplit := rawTtyRead_splits hb (linesCounted_sound hb h) count
  have hcount := congrArg (List.count newline) hsplit
  rw [List.count_append] at hcount
  by_cases line : ttyHasLine tty = true
  · have hpos : 0 < tty.canonLines := by simpa [ttyHasLine] using line
    have hlines := readLoop_lines tty (if available tty < count then available tty else count) 0 hpos
      (lt_trans (linesCounted_small h) (by decide))
    have hafter : (rawTtyRead tty count).2.canonLines + (rawTtyRead tty count).1.count newline =
        tty.canonLines := by
      simpa only [rawTtyRead, line, if_true] using hlines
    unfold LinesCounted at h ⊢
    omega
  · simpa only [rawTtyRead, line, Bool.false_eq_true, if_false] using h

/-- From a counted ring, one input leads to a counted ring exactly when it is line safe. -/
theorem ttyStep_linesCounted_iff {tty after : TtyStruct} {input : TtyInput} (hb : Bounded tty)
    (h : LinesCounted tty) (step : ttyStep tty input = some after) :
    LinesCounted after ↔ LineSafe tty input := by
  cases input with
  | read count =>
      rw [← Option.some.inj step]
      exact iff_of_true (rawTtyRead_linesCounted hb h count) trivial
  | push c =>
      have hsmall := linesCounted_small h
      rw [← Option.some.inj step, LinesCounted, ttyPushChar_canonLines, ttyPushChar_pending hb,
        LineSafe]
      by_cases hback : c = backspace
      · subst hback
        rw [if_neg (by decide), if_pos rfl, h, count_dropLast_iff]
        simp [show backspace ≠ newline by decide]
      · by_cases hline : c = newline
        · subst hline
          have hwrap : (tty.canonLines + 1) % 2 ^ 64 = tty.canonLines + 1 := by
            apply Nat.mod_eq_of_lt
            simp only [ttyBufSize] at hsmall
            omega
          rw [if_pos rfl, hwrap, h, if_neg hback]
          cases hfull : ttyIsFull tty <;> simp [hback]
        · unfold LinesCounted at h
          cases hfull : ttyIsFull tty <;> simp [hback, hline, h]

/-- The counter equals the number of stored newlines in every state of a run from `tty_init`
exactly when every input of the run is line safe. -/
theorem canonLines_throughout_iff (inputs : List TtyInput) :
    Throughout ttyStep LinesCounted ttyInit inputs ↔ Meets ttyStep LineSafe ttyInit inputs :=
  throughout_iff_meets ttyStep_total (fun _ _ _ => ttyStep_bounded)
    (fun _ _ _ => ttyStep_linesCounted_iff) ttyInit_bounded rfl inputs

/-- One newline, one backspace: the ring is empty and one line is still counted. -/
theorem erased_newline_still_counted :
    ¬ Throughout ttyStep LinesCounted ttyInit [.push newline, .push backspace] := by
  intro h
  have hlast : LinesCounted (ttyPushChar (ttyPushChar ttyInit newline).tty backspace).tty :=
    (h.2 _ rfl).2 _ rfl
  revert hlast
  unfold LinesCounted
  decide

/-- The terminal with a record of its input and output. `accepted` is the sequence of pushed
characters without the dropped and the erased ones; `reads` pairs the bytes of each read with
the bytes that were pending when it was made. -/
structure TtyHistory where
  tty : TtyStruct
  accepted : List UInt8
  reads : List (List UInt8 × List UInt8)

def TtyHistory.start : TtyHistory := ⟨ttyInit, [], []⟩

def accept (tty : TtyStruct) (accepted : List UInt8) (c : UInt8) : List UInt8 :=
  if c = backspace then
    if ttyIsEmpty tty then accepted else accepted.dropLast
  else if ttyIsFull tty then accepted else accepted ++ [c]

def historyStep (h : TtyHistory) : TtyInput → Option TtyHistory
  | .push c => some ⟨(ttyPushChar h.tty c).tty, accept h.tty h.accepted c, h.reads⟩
  | .read count =>
      let r := rawTtyRead h.tty count
      some ⟨r.2, h.accepted, h.reads ++ [(r.1, pending h.tty)]⟩

def TtyHistory.delivered (h : TtyHistory) : List UInt8 := (h.reads.map Prod.fst).flatten

structure ExactlyOnce (h : TtyHistory) : Prop where
  inOrder : h.delivered ++ pending h.tty = h.accepted
  onlyPending : ∀ r ∈ h.reads, r.1 <+: r.2

/-- No read of at least one byte is made while the counter is positive and the ring empty. -/
def ReadSafe (h : TtyHistory) : TtyInput → Prop
  | .push _ => True
  | .read count => ttyHasLine h.tty = true → 0 < count → h.tty.head ≠ h.tty.tail

theorem historyStep_total (h : TtyHistory) (input : TtyInput) :
    ∃ after, historyStep h input = some after := by
  cases input <;> exact ⟨_, rfl⟩

theorem historyStep_bounded {h after : TtyHistory} {input : TtyInput} (hb : Bounded h.tty)
    (step : historyStep h input = some after) : Bounded after.tty := by
  cases input with
  | push c => exact Option.some.inj step ▸ ttyPushChar_bounded hb c
  | read count => exact Option.some.inj step ▸ rawTtyRead_bounded hb count

theorem push_inOrder {tty : TtyStruct} (hb : Bounded tty) {delivered accepted : List UInt8}
    (inOrder : delivered ++ pending tty = accepted) (c : UInt8) :
    delivered ++ pending (ttyPushChar tty c).tty = accept tty accepted c := by
  subst inOrder
  rw [ttyPushChar_pending hb, accept]
  by_cases hback : c = backspace
  · rw [if_pos hback, if_pos hback]
    by_cases empty : tty.head = tty.tail
    · have hnil := (pending_eq_nil_iff hb).mpr empty
      simp only [ttyIsEmpty, empty, decide_true, if_true, hnil, List.dropLast_nil]
    · have hne : pending tty ≠ [] := fun hnil => empty ((pending_eq_nil_iff hb).mp hnil)
      simp only [ttyIsEmpty, empty, decide_false, Bool.false_eq_true, if_false,
        List.dropLast_append_of_ne_nil hne]
  · rw [if_neg hback, if_neg hback]
    cases ttyIsFull tty <;> simp

theorem rawTtyRead_zero {tty : TtyStruct} (hb : Bounded tty) :
    (rawTtyRead tty 0).1 = [] ∧ pending (rawTtyRead tty 0).2 = pending tty := by
  unfold rawTtyRead
  split
  · have hhead : (tty.head + 0) % ttyBufSize = tty.head := Nat.mod_eq_of_lt hb.head
    simp only [Nat.not_lt_zero, if_false, readLoop, List.length_nil, hhead, and_self]
  · exact ⟨rfl, rfl⟩

/-- With a positive counter and an empty ring the source takes all 512 cells to be pending. -/
theorem rawTtyRead_stale {tty : TtyStruct} (line : ttyHasLine tty = true)
    (empty : tty.head = tty.tail) (hb : Bounded tty) {count : Nat} (hcount : 0 < count) :
    (rawTtyRead tty count).1 ≠ [] := by
  have havail : available tty = ttyBufSize := by
    have hh := hb.head
    simp only [available, empty, Nat.lt_irrefl, if_false]
    omega
  simp only [rawTtyRead, line, if_true, readLoop_bytes, havail, Nat.add_zero]
  intro hnil
  have hlen := congrArg List.length (takeLine_eq_nil hnil)
  rw [length_window, List.length_nil] at hlen
  by_cases long : ttyBufSize < count
  · rw [if_pos long] at hlen
    exact absurd hlen (by decide)
  · rw [if_neg long] at hlen
    omega

theorem read_exactlyOnce_iff {h : TtyHistory} (hb : Bounded h.tty) (once : ExactlyOnce h)
    {after : TtyHistory} {count : Nat} (step : historyStep h (.read count) = some after) :
    ExactlyOnce after ↔ ReadSafe h (.read count) := by
  have hafter := Option.some.inj step
  have hdelivered : after.delivered = h.delivered ++ (rawTtyRead h.tty count).1 := by
    simp [← hafter, TtyHistory.delivered]
  constructor
  · intro next line hcount empty
    have hpending : pending h.tty = [] := (pending_eq_nil_iff hb).mpr empty
    have hsame := next.inOrder
    rw [hdelivered, ← hafter] at hsame
    rw [← once.inOrder, hpending, List.append_nil, List.append_assoc] at hsame
    have hnil := List.append_right_eq_self.mp hsame
    exact rawTtyRead_stale line empty hb hcount (List.append_eq_nil_iff.mp hnil).1
  · intro safe
    have hsplit : (rawTtyRead h.tty count).1 ++ pending (rawTtyRead h.tty count).2 = pending h.tty := by
      rcases Nat.eq_zero_or_pos count with rfl | hcount
      · rw [(rawTtyRead_zero hb).1, (rawTtyRead_zero hb).2, List.nil_append]
      · exact rawTtyRead_splits hb (fun line => safe line hcount) count
    refine ⟨?_, ?_⟩
    · rw [hdelivered, ← hafter, List.append_assoc]
      exact (congrArg (h.delivered ++ ·) hsplit).trans once.inOrder
    · rw [← hafter]
      intro r member
      rcases List.mem_append.mp member with old | new
      · exact once.onlyPending r old
      · rw [List.mem_singleton.mp new]
        exact ⟨_, hsplit⟩

theorem historyStep_exactlyOnce_iff {h after : TtyHistory} {input : TtyInput} (hb : Bounded h.tty)
    (once : ExactlyOnce h) (step : historyStep h input = some after) :
    ExactlyOnce after ↔ ReadSafe h input := by
  cases input with
  | push c =>
      rw [← Option.some.inj step]
      exact iff_of_true ⟨push_inOrder hb once.inOrder c, once.onlyPending⟩ trivial
  | read count => exact read_exactlyOnce_iff hb once step

/-- The bytes returned so far, followed by the pending ones, are the accepted characters in every
state of a run exactly when no read of the run finds a counted line in an empty ring. -/
theorem delivery_throughout_iff (inputs : List TtyInput) :
    Throughout historyStep ExactlyOnce .start inputs ↔ Meets historyStep ReadSafe .start inputs :=
  throughout_iff_meets (I := fun h => Bounded h.tty) historyStep_total
    (fun _ _ _ => historyStep_bounded) (fun _ _ _ => historyStep_exactlyOnce_iff)
    ttyInit_bounded ⟨rfl, fun _ h => nomatch h⟩ inputs

/-- After an erased newline a read returns the erased byte, which nobody had typed for it. -/
theorem erased_newline_delivered :
    ¬ Throughout historyStep ExactlyOnce .start [.push newline, .push backspace, .read 1] := by
  intro h
  have hlast := ((h.2 _ rfl).2 _ rfl).2 _ rfl
  have hprefix := hlast.onlyPending ([newline], []) (by decide)
  exact absurd (List.prefix_nil.mp hprefix) (by decide)

/-- A run that keeps the line counter right never reads from an empty ring. -/
theorem lineSafe_readSafe (inputs : List TtyInput) (safe : Meets ttyStep LineSafe ttyInit inputs) :
    Meets historyStep ReadSafe .start inputs := by
  have lift : ∀ (inputs : List TtyInput) (h : TtyHistory), Bounded h.tty → LinesCounted h.tty →
      Meets ttyStep LineSafe h.tty inputs → Meets historyStep ReadSafe h inputs := by
    intro inputs
    induction inputs with
    | nil => intros; trivial
    | cons input rest ih =>
        intro h hb counted meets
        refine ⟨?_, ?_⟩
        · cases input with
          | push c => trivial
          | read count => exact fun line _ => linesCounted_sound hb counted line
        · intro after step
          have hstep : ttyStep h.tty input = some after.tty := by
            cases input <;> rw [← Option.some.inj step] <;> rfl
          exact ih after (historyStep_bounded hb step)
            ((ttyStep_linesCounted_iff hb counted hstep).mpr meets.1) (meets.2 _ hstep)
  exact lift inputs .start ttyInit_bounded rfl safe

theorem lineSafe_readSafe_line : Meets historyStep ReadSafe .start [.push newline, .read 1] :=
  lineSafe_readSafe _ (by simp [Meets, LineSafe, ttyStep]; decide)

end SnapOS.Tty
