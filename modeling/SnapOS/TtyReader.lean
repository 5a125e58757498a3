/- The foreground reader of the tty, against key strokes, other readers and preemption. -/
import SnapOS.EntryPlace
import SnapOS.RunQueue
import SnapOS.TtyFile
import SnapOS.TtyLines

namespace SnapOS.Tty
open SnapOS.Lib SnapOS.Sched

def readerTask : Task := 1

def ttyEntry (t : Task) : WaitQueue → WaitEntry
  | .fgWait => ⟨t, 0⟩
  | .readWait => ⟨t, 1⟩

theorem ttyEntry_task (t : Task) (q : WaitQueue) : (ttyEntry t q).task = t := by cases q <;> rfl

/-- Where the reader is: in front of the loop test and its first `prepare_to_wait`, of the second one,
of the locked section, of the tests after it, of `schedule`, of the two `finish_wait`, or not in
`tty_read`. -/
inductive Pc where
  | outside
  | loopHead
  | prepareRead
  | locked
  | check
  | sleep
  | finishFg
  | finishRead
  deriving DecidableEq, Repr

/-- The kernel, the tty, and the local variables of the reader's `tty_read`. `removed` records that the
reader was taken off the run queue by `__sched_dequeue` and not put back by `wake_up_task`: no step
depends on it. -/
structure ReaderState where
  kernel : Kernel
  started : List Task
  tty : TtyStruct
  pc : Pc
  count : Nat
  total : Nat
  bounce : List UInt8
  linesChanged : Bool
  removed : Bool

inductive ReaderEvent where
  | call (count : Nat)
  | advance (copied : Nat)
  | push (c : UInt8) (fuel : Nat)
  | timer
  | kthreadRun (t : Task) (stack : Nat)
  | otherPrepare (q : WaitQueue)
  | otherSchedule

namespace ReaderState

def asleep (k : Kernel) : Bool := (k.tasks readerTask).state ≠ .running

/-- One step of `tty_read`. `copied` is what `copy_to_user` manages to copy, for the step that calls it. -/
def advance (s : ReaderState) (copied : Nat) : Option ReaderState :=
  match s.pc with
  | .outside => none
  | .loopHead =>
      if s.total < s.count then
        some { s with
          kernel := s.kernel.prepareToWait .fgWait (ttyEntry readerTask .fgWait) .interruptible
          pc := .prepareRead }
      else some { s with pc := .finishFg }
  | .prepareRead =>
      some { s with
        kernel := s.kernel.prepareToWait .readWait (ttyEntry readerTask .readWait) .interruptible
        pc := .locked }
  | .locked =>
      let (bounce, tty) := lockedRead (s.kernel.tasks readerTask).pid (s.count - s.total) s.bounce s.tty
      some { s with
        tty := tty
        bounce := bounce
        linesChanged := tty.canonLines ≠ s.tty.canonLines
        pc := .check }
  | .check =>
      if s.total = 0 ∧ s.bounce = [] then some { s with pc := .sleep }
      else if s.bounce = [] then some { s with pc := .finishFg }
      else if s.bounce.length < copied then none
      else if s.total + copied = 0 then
        -- the return of `-EFAULT`, past both calls of `finish_wait`
        some { s with pc := .outside }
      else some { s with
        total := s.total + copied
        pc := if copied ≠ s.bounce.length ∨ s.linesChanged then .finishFg else .loopHead }
  | .sleep =>
      s.kernel.schedule.map fun k => { s with
        kernel := k
        pc := .loopHead
        removed := s.removed || asleep s.kernel }
  | .finishFg =>
      some { s with
        kernel := s.kernel.finishWait .fgWait (ttyEntry readerTask .fgWait)
        pc := .finishRead }
  | .finishRead =>
      some { s with
        kernel := s.kernel.finishWait .readWait (ttyEntry readerTask .readWait)
        pc := .outside }

end ReaderState

/-- Key strokes and timer interrupts come between any two steps. Other tasks that read the tty are in the
background: they wait in both queues and never leave. -/
def readerStep (s : ReaderState) : ReaderEvent → Option ReaderState
  | .call count =>
      if s.kernel.currentTask = readerTask ∧ s.pc = .outside then
        some { s with
          kernel := (s.kernel.initWaitqueueEntry (ttyEntry readerTask .fgWait)).initWaitqueueEntry
            (ttyEntry readerTask .readWait)
          pc := .loopHead
          count := count
          total := 0
          bounce := [] }
      else none
  | .advance copied => if s.kernel.currentTask = readerTask then s.advance copied else none
  | .push c fuel =>
      let pushed := ttyPushChar s.tty c
      if pushed.newLine then
        (s.kernel.wakeUp .readWait fuel).map fun k => { s with
          kernel := k
          tty := pushed.tty
          removed := s.removed && !(ReaderState.asleep s.kernel && !ReaderState.asleep k) }
      else some { s with tty := pushed.tty }
  | .timer => s.kernel.timerIrqHandler.map fun k => { s with kernel := k }
  | .kthreadRun t stack =>
      if t = idleTask ∨ t ∈ s.started then none
      else some { s with kernel := s.kernel.kthreadRun t stack, started := t :: s.started }
  | .otherPrepare q =>
      if s.kernel.currentTask = idleTask ∨ s.kernel.currentTask = readerTask then none
      else some { s with
        kernel := s.kernel.prepareToWait q (ttyEntry s.kernel.currentTask q) .interruptible }
  | .otherSchedule =>
      if s.kernel.currentTask = readerTask then none
      else s.kernel.schedule.map fun k => { s with kernel := k }

/-- After `tty_init`, `create_idle_task` and the start of the first task. -/
def readerBoot (cr3 : Nat) (pgd : Nat → Nat) (stack : Nat) : ReaderState :=
  ⟨(bootKernel cr3 pgd).kthreadRun readerTask stack, [readerTask], ttyInit, .outside, 0, 0, [], false, false⟩

/-- The reader is not left asleep with a line in the ring. -/
def NoLostWakeup (s : ReaderState) : Prop :=
  s.removed = true → (s.kernel.tasks readerTask).state = .interruptible → s.tty.canonLines = 0

section Ring

variable {tty : TtyStruct}

theorem rawTtyRead_noLine (empty : tty.canonLines = 0) (n : Nat) : rawTtyRead tty n = ([], tty) := by
  rw [rawTtyRead, if_neg (by simp [ttyHasLine, empty])]

/-- A read of at least one byte comes back empty only if no line is counted. -/
theorem rawTtyRead_nil (bounded : Bounded tty) {n : Nat} (positive : 0 < n) (nothing : (rawTtyRead tty n).1 = []) :
    tty.canonLines = 0 := by
  by_contra counted
  have line : ttyHasLine tty = true := by simpa [ttyHasLine] using Nat.pos_of_ne_zero counted
  have room : 0 < available tty := by
    have := bounded.head
    simp only [available]
    split <;> omega
  obtain ⟨m, copies⟩ : ∃ m, (if available tty < n then available tty else n) = m + 1 :=
    Nat.exists_eq_succ_of_ne_zero (by split <;> omega)
  simp only [rawTtyRead, line, if_true, copies, readLoop] at nothing
  split at nothing <;> cases nothing

theorem rawTtyRead_fgPid (tty : TtyStruct) (n : Nat) : (rawTtyRead tty n).2.fgPid = tty.fgPid := by
  rw [rawTtyRead]
  split <;> rfl

end Ring

def queueOf : Node → Option WaitQueue
  | .waitHead q => some q
  | .waitEntry e => some (if e.slot = 1 then .readWait else .fgWait)
  | _ => none

theorem queueOf_runNode (t : Task) : queueOf (.runNode t) = queueOf .runQueue := rfl

theorem queueOf_ttyEntry (t : Task) (q : WaitQueue) : queueOf (.waitEntry (ttyEntry t q)) = some q := by
  cases q <;> rfl

abbrev readHead : Node := .waitHead .readWait
abbrev readEntry : Node := .waitEntry (ttyEntry readerTask .readWait)

theorem sameRead {l l' : ListHeads Node} {f : Option WaitQueue} (within : ListHeads.Within queueOf f l l')
    (other : f ≠ some .readWait) (y : Node) (read : queueOf y = queueOf readHead) : l.SameAt l' y :=
  within.same y (by rw [read]; exact other.symm)

def Pc.inLoop : Pc → Bool
  | .prepareRead | .locked | .check | .sleep => true
  | _ => false

def Pc.linked : Pc → Bool
  | .locked | .check | .sleep => true
  | _ => false

theorem inLoop_of_linked {pc : Pc} (linked : pc.linked = true) : pc.inLoop = true := by
  cases pc <;> first | rfl | cases linked

open ReaderState

/-- What holds from `__sched_dequeue` to `wake_up_task`. A damaged run queue may even let the reader run
on in the meantime: it then goes round its loop with nothing to read. -/
structure Gone (s : ReaderState) : Prop where
  asleep : asleep s.kernel = true
  noLine : s.tty.canonLines = 0
  awaited : s.kernel.lists.Awaited readHead readEntry
  inside : s.pc = .loopHead ∨ s.pc.inLoop = true
  total : s.total = 0
  count : 0 < s.count
  nothing : s.pc = .check → s.bounce = []

structure ReaderInv (s : ReaderState) : Prop where
  coloured : s.kernel.lists.Coloured queueOf
  known : readerTask ∈ s.started
  bounded : Bounded s.tty
  foreground : s.tty.fgPid = (s.kernel.tasks readerTask).pid
  placed : s.kernel.lists.Placed readHead readEntry
  entered : s.pc.inLoop = true → s.total < s.count
  awaited : s.pc.linked = true → s.kernel.lists.Awaited readHead readEntry
  checked : s.pc = .check → s.bounce = [] → asleep s.kernel = true → s.tty.canonLines = 0
  sleeping : s.pc = .sleep → s.total = 0 ∧ (asleep s.kernel = true → s.tty.canonLines = 0)
  gone : s.removed = true → Gone s

theorem ReaderInv.noLostWakeup {s : ReaderState} (inv : ReaderInv s) : NoLostWakeup s :=
  fun removed _ => (inv.gone removed).noLine

theorem readerBoot_inv (cr3 : Nat) (pgd : Nat → Nat) (stack : Nat) : ReaderInv (readerBoot cr3 pgd stack) := by
  have start : (bootKernel cr3 pgd).lists.Coloured queueOf := fun _ => ⟨rfl, rfl⟩
  have within := Kernel.kthreadRun_within start queueOf_runNode readerTask stack
  have placed : (bootKernel cr3 pgd).lists.Placed readHead readEntry :=
    Or.inl ⟨[], Ring.singleton_iff.mpr ⟨rfl, rfl⟩, by simp, rfl⟩
  refine ⟨within.coloured, List.mem_singleton_self _, ttyInit_bounded, rfl, ?_, nofun, nofun, nofun, nofun, nofun⟩
  exact placed.congr start rfl (sameRead within nofun)

section Environment

variable {s : ReaderState} {k' : Kernel} {started' : List Task}

theorem ReaderInv.env (inv : ReaderInv s) (coloured : k'.lists.Coloured queueOf)
    (placed : k'.lists.Placed readHead readEntry)
    (awaited : s.kernel.lists.Awaited readHead readEntry → k'.lists.Awaited readHead readEntry)
    (reader : k'.tasks readerTask = s.kernel.tasks readerTask) (known : readerTask ∈ started') :
    ReaderInv { s with kernel := k', started := started' } := by
  have same : asleep k' = asleep s.kernel := by rw [asleep, asleep, reader]
  refine ⟨coloured, known, inv.bounded, ?_, placed, inv.entered, fun linked => awaited (inv.awaited linked),
    ?_, ?_, fun removed => ?_⟩
  · rw [reader]
    exact inv.foreground
  · rw [same]
    exact inv.checked
  · rw [same]
    exact inv.sleeping
  · have gone := inv.gone removed
    exact ⟨same.trans gone.asleep, gone.noLine, awaited gone.awaited, gone.inside, gone.total, gone.count,
      gone.nothing⟩

theorem ReaderInv.frame (inv : ReaderInv s) {f : Option WaitQueue}
    (within : ListHeads.Within queueOf f s.kernel.lists k'.lists) (other : f ≠ some .readWait)
    (reader : k'.tasks readerTask = s.kernel.tasks readerTask) (known : readerTask ∈ started') :
    ReaderInv { s with kernel := k', started := started' } := by
  have same := sameRead within other
  exact inv.env within.coloured (inv.placed.congr inv.coloured rfl same)
    (ListHeads.Awaited.congr inv.coloured rfl same) reader known

theorem ReaderInv.rawSchedule (inv : ReaderInv s) {preempt : Bool} (h : s.kernel.rawSchedule preempt = some k') :
    ReaderInv { s with kernel := k' } :=
  inv.frame (Kernel.rawSchedule_within inv.coloured queueOf_runNode h) nofun
    (congrFun (Kernel.rawSchedule_tasks h) readerTask) inv.known

theorem ReaderInv.kthreadRun (inv : ReaderInv s) {t : Task} (fresh : t ∉ s.started) (stack : Nat) :
    ReaderInv { s with kernel := s.kernel.kthreadRun t stack, started := t :: s.started } :=
  inv.frame (Kernel.kthreadRun_within inv.coloured queueOf_runNode t stack) nofun
    (Function.update_of_ne (ne_of_mem_of_not_mem inv.known fresh) _ _) (List.mem_cons_of_mem t inv.known)

theorem ReaderInv.otherPrepare (inv : ReaderInv s) (q : WaitQueue) {t : Task} (other : t ≠ readerTask) :
    ReaderInv { s with kernel := s.kernel.prepareToWait q (ttyEntry t q) .interruptible } := by
  have within := Kernel.prepareToWait_within (q := q) inv.coloured (queueOf_ttyEntry t q) .interruptible
  rw [queueOf_ttyEntry] at within
  have own : (ttyEntry t q).task = t := by cases q <;> rfl
  have reader : (s.kernel.prepareToWait q (ttyEntry t q) .interruptible).tasks readerTask =
      s.kernel.tasks readerTask := Kernel.taskSetState_tasks _ _ (own.symm ▸ other.symm)
  cases q with
  | fgWait => exact inv.frame within nofun reader inv.known
  | readWait =>
      have apart : Node.waitEntry (ttyEntry t .readWait) ≠ readEntry :=
        fun same => other (congrArg WaitEntry.task (Node.waitEntry.inj same))
      exact inv.env within.coloured (inv.placed.addOnce_other apart nofun nofun)
        (ListHeads.Awaited.addOnce apart nofun nofun) reader inv.known

end Environment

section Keys

variable {s : ReaderState} {k' : Kernel}

theorem ReaderInv.push (inv : ReaderInv s) {c : UInt8} (plain : c ≠ newline) :
    ReaderInv { s with tty := (ttyPushChar s.tty c).tty } := by
  have lines : (ttyPushChar s.tty c).tty.canonLines = s.tty.canonLines := by
    rw [ttyPushChar_canonLines, if_neg plain]
  refine ⟨inv.coloured, inv.known, ttyPushChar_bounded inv.bounded c, ?_, inv.placed, inv.entered, inv.awaited,
    ?_, ?_, fun removed => ?_⟩
  · rw [ttyPushChar_fgPid]
    exact inv.foreground
  · rw [lines]
    exact inv.checked
  · rw [lines]
    exact inv.sleeping
  · have gone := inv.gone removed
    exact ⟨gone.asleep, lines.trans gone.noLine, gone.awaited, gone.inside, gone.total, gone.count, gone.nothing⟩

/-- A complete line wakes the reader wherever it waits. -/
theorem ReaderInv.wakes (inv : ReaderInv s) (awaited : s.kernel.lists.Awaited readHead readEntry) {fuel : Nat}
    (h : s.kernel.wakeUp .readWait fuel = some k') : asleep k' = false := by
  obtain ⟨front, leads, notHead⟩ := awaited.leads
  have other : queueOf readHead ≠ queueOf .runQueue := nofun
  have running := Kernel.rawWakeup_wakes queueOf_runNode inv.coloured other leads notHead h
  simpa [asleep, ttyEntry] using running

theorem ReaderInv.pushNewline (inv : ReaderInv s) {fuel : Nat} (h : s.kernel.wakeUp .readWait fuel = some k') :
    ReaderInv { s with
      kernel := k'
      tty := (ttyPushChar s.tty newline).tty
      removed := s.removed && !(asleep s.kernel && !asleep k') } := by
  have kept : ListHeads.Within queueOf none s.kernel.lists k'.lists ∧
      (k'.tasks readerTask).pid = (s.kernel.tasks readerTask).pid := by
    refine Kernel.rawWakeup_keeps (P := fun k => ListHeads.Within queueOf none s.kernel.lists k.lists ∧
      (k.tasks readerTask).pid = (s.kernel.tasks readerTask).pid) ?_ h ⟨ListHeads.Within.refl inv.coloured, rfl⟩
    rintro k t ⟨within, pid⟩
    exact ⟨within.trans (Kernel.wakeUpTask_within within.coloured queueOf_runNode t),
      (Kernel.wakeUpTask_pid t readerTask k).trans pid⟩
  have same := sameRead kept.1 nofun
  have awake : s.pc.linked = true → asleep k' = false := fun linked => inv.wakes (inv.awaited linked) h
  refine ⟨kept.1.coloured, inv.known, ttyPushChar_bounded inv.bounded newline, ?_,
    inv.placed.congr inv.coloured rfl same, inv.entered,
    fun linked => (inv.awaited linked).congr inv.coloured rfl same, ?_, ?_, ?_⟩
  · rw [ttyPushChar_fgPid, kept.2]
    exact inv.foreground
  · intro atCheck _ asleep
    exact absurd asleep (by simp [awake (by rw [atCheck]; rfl)])
  · intro atSleep
    exact ⟨(inv.sleeping atSleep).1, fun asleep => absurd asleep (by simp [awake (by rw [atSleep]; rfl)])⟩
  · intro removed
    have before : s.removed = true := (Bool.and_eq_true_iff.mp removed).1
    have gone := inv.gone before
    simp [before, gone.asleep, inv.wakes gone.awaited h] at removed

end Keys

section Reader

variable {s : ReaderState}

theorem notRemoved (inv : ReaderInv s) (notLoop : s.pc ≠ .loopHead) (notIn : s.pc.inLoop = false) :
    s.removed = false := by
  cases removed : s.removed with
  | false => rfl
  | true =>
      rcases (inv.gone removed).inside with atHead | inLoop
      · exact absurd atHead notLoop
      · rw [notIn] at inLoop
        cases inLoop

theorem asleep_prepareToWait (q : WaitQueue) (k : Kernel) :
    asleep (k.prepareToWait q (ttyEntry readerTask q) .interruptible) = true := by
  simp [asleep, Kernel.prepareToWait, ttyEntry_task, Kernel.taskSetState_state]

theorem ReaderInv.call (inv : ReaderInv s) (outside : s.pc = .outside) (count : Nat) :
    ReaderInv { s with
      kernel := (s.kernel.initWaitqueueEntry (ttyEntry readerTask .fgWait)).initWaitqueueEntry
        (ttyEntry readerTask .readWait)
      pc := .loopHead
      count := count
      total := 0
      bounce := [] } := by
  have first := Kernel.initWaitqueueEntry_within inv.coloured (ttyEntry readerTask .fgWait)
  have second := Kernel.initWaitqueueEntry_within first.coloured (ttyEntry readerTask .readWait)
  have placed : (s.kernel.initWaitqueueEntry (ttyEntry readerTask .fgWait)).lists.Placed readHead readEntry :=
    inv.placed.congr inv.coloured rfl (sameRead first nofun)
  refine ⟨second.coloured, inv.known, inv.bounded, inv.foreground, placed.initListHead nofun, nofun, nofun,
    nofun, nofun, fun removed => ?_⟩
  have stays := notRemoved inv (by rw [outside]; nofun) (by rw [outside]; rfl)
  cases stays.symm.trans removed

theorem ReaderInv.loopHead (inv : ReaderInv s) (more : s.total < s.count) :
    ReaderInv { s with
      kernel := s.kernel.prepareToWait .fgWait (ttyEntry readerTask .fgWait) .interruptible
      pc := .prepareRead } := by
  have within := Kernel.prepareToWait_within (q := .fgWait) inv.coloured
    (queueOf_ttyEntry readerTask .fgWait) .interruptible
  have same := sameRead within nofun
  refine ⟨within.coloured, inv.known, inv.bounded, ?_, inv.placed.congr inv.coloured rfl same, fun _ => more,
    nofun, nofun, nofun, fun removed => ?_⟩
  · rw [Kernel.prepareToWait_pid]
    exact inv.foreground
  · have gone := inv.gone removed
    exact ⟨asleep_prepareToWait _ _, gone.noLine, gone.awaited.congr inv.coloured rfl same, Or.inr rfl,
      gone.total, gone.count, nofun⟩

theorem ReaderInv.loopEnd (inv : ReaderInv s) (done : ¬ s.total < s.count) :
    ReaderInv { s with pc := .finishFg } := by
  refine ⟨inv.coloured, inv.known, inv.bounded, inv.foreground, inv.placed, nofun, nofun, nofun, nofun,
    fun removed => ?_⟩
  have gone := inv.gone removed
  exact absurd (gone.total.symm ▸ gone.count) done

/-- The second `prepare_to_wait`: from here on a complete line finds the reader's entry. -/
theorem ReaderInv.prepareRead (inv : ReaderInv s) (atPrepare : s.pc = .prepareRead) :
    ReaderInv { s with
      kernel := s.kernel.prepareToWait .readWait (ttyEntry readerTask .readWait) .interruptible
      pc := .locked } := by
  have within := Kernel.prepareToWait_within (q := .readWait) inv.coloured
    (queueOf_ttyEntry readerTask .readWait) .interruptible
  have awaited : (s.kernel.lists.addOnce readEntry readHead).Awaited readHead readEntry :=
    inv.placed.addOnce nofun
  refine ⟨within.coloured, inv.known, inv.bounded, ?_, Or.inr awaited,
    fun _ => inv.entered (by rw [atPrepare]; rfl), fun _ => awaited, nofun, nofun, fun removed => ?_⟩
  · rw [Kernel.prepareToWait_pid]
    exact inv.foreground
  · have gone := inv.gone removed
    exact ⟨asleep_prepareToWait _ _, gone.noLine, awaited, Or.inr rfl, gone.total, gone.count, nofun⟩

theorem ReaderInv.locked (inv : ReaderInv s) (atLock : s.pc = .locked) {bounce : List UInt8} {tty : TtyStruct}
    (read : lockedRead (s.kernel.tasks readerTask).pid (s.count - s.total) s.bounce s.tty = (bounce, tty))
    (linesChanged : Bool) :
    ReaderInv { s with tty := tty, bounce := bounce, linesChanged := linesChanged, pc := .check } := by
  have more : s.total < s.count := inv.entered (by rw [atLock]; rfl)
  have awaited := inv.awaited (by rw [atLock]; rfl)
  have positive : 0 < min (s.count - s.total) ttyBounceBufSize := Nat.lt_min.mpr ⟨by omega, by decide⟩
  rw [lockedRead, if_pos (by simpa [isFg] using inv.foreground)] at read
  have empty : bounce = [] → tty.canonLines = 0 := by
    intro nothing
    have noLine := rawTtyRead_nil inv.bounded positive (by rw [read]; exact nothing)
    rw [rawTtyRead_noLine noLine] at read
    exact (congrArg TtyStruct.canonLines (congrArg Prod.snd read)).symm.trans noLine
  have bounded := rawTtyRead_bounded inv.bounded (min (s.count - s.total) ttyBounceBufSize)
  have fgPid := rawTtyRead_fgPid s.tty (min (s.count - s.total) ttyBounceBufSize)
  rw [read] at bounded fgPid
  refine ⟨inv.coloured, inv.known, bounded, fgPid.trans inv.foreground, inv.placed, fun _ => more,
    fun _ => awaited, fun _ nothing _ => empty nothing, (fun slept => by cases slept), fun removed => ?_⟩
  have gone := inv.gone removed
  rw [rawTtyRead_noLine gone.noLine] at read
  have nothing : bounce = [] := (congrArg Prod.fst read).symm
  exact ⟨gone.asleep, empty nothing, awaited, Or.inr rfl, gone.total, gone.count, fun _ => nothing⟩

theorem ReaderInv.checkEmpty (inv : ReaderInv s) (atCheck : s.pc = .check) (nothing : s.total = 0 ∧ s.bounce = []) :
    ReaderInv { s with pc := .sleep } := by
  refine ⟨inv.coloured, inv.known, inv.bounded, inv.foreground, inv.placed,
    fun _ => inv.entered (by rw [atCheck]; rfl), fun _ => inv.awaited (by rw [atCheck]; rfl), nofun,
    fun _ => ⟨nothing.1, inv.checked atCheck nothing.2⟩, fun removed => ?_⟩
  have gone := inv.gone removed
  exact ⟨gone.asleep, gone.noLine, gone.awaited, Or.inr rfl, gone.total, gone.count, nofun⟩

/-- After the tests the reader leaves the loop or goes round again, with something read. -/
theorem ReaderInv.checkRead (inv : ReaderInv s) (atCheck : s.pc = .check) (something : ¬ (s.total = 0 ∧ s.bounce = []))
    (total : Nat) {pc : Pc} (away : pc.inLoop = false) : ReaderInv { s with total := total, pc := pc } := by
  have notRemoved : s.removed = false := by
    cases removed : s.removed with
    | false => rfl
    | true => exact absurd ⟨(inv.gone removed).total, (inv.gone removed).nothing atCheck⟩ something
  refine ⟨inv.coloured, inv.known, inv.bounded, inv.foreground, inv.placed, ?_, ?_, ?_, ?_, fun removed => ?_⟩
  · exact fun inLoop => nomatch away.symm.trans inLoop
  · exact fun linked => nomatch away.symm.trans (inLoop_of_linked linked)
  · rintro rfl
    cases away
  · rintro rfl
    cases away
  · cases notRemoved.symm.trans removed

/-- `schedule` takes a sleeping reader off the run queue. Nothing was there to be read, and no line
came since: it would have woken the reader. -/
theorem ReaderInv.sleep (inv : ReaderInv s) (atSleep : s.pc = .sleep) {k' : Kernel}
    (h : s.kernel.schedule = some k') :
    ReaderInv { s with kernel := k', pc := .loopHead, removed := s.removed || asleep s.kernel } := by
  have inv' := inv.rawSchedule h
  have more : s.total < s.count := inv.entered (by rw [atSleep]; rfl)
  have awaited := inv'.awaited (by change s.pc.linked = true; rw [atSleep]; rfl)
  obtain ⟨nothing, noLine⟩ := inv.sleeping atSleep
  refine ⟨inv'.coloured, inv'.known, inv'.bounded, inv'.foreground, inv'.placed, nofun, nofun, nofun, nofun,
    fun removed => ?_⟩
  have sleeps : asleep s.kernel = true := by
    rcases Bool.or_eq_true_iff.mp removed with before | now
    · exact (inv.gone before).asleep
    · exact now
  have same : asleep k' = asleep s.kernel := by rw [asleep, asleep, Kernel.rawSchedule_tasks h]
  exact ⟨same.trans sleeps, noLine sleeps, awaited, Or.inl rfl, nothing, nothing ▸ more, nofun⟩

theorem ReaderInv.finish (inv : ReaderInv s) (q : WaitQueue) {pc : Pc} (notLoop : s.pc ≠ .loopHead)
    (notIn : s.pc.inLoop = false) (away : pc.inLoop = false) :
    ReaderInv { s with kernel := s.kernel.finishWait q (ttyEntry readerTask q), pc := pc } := by
  have within := Kernel.finishWait_within inv.coloured q (ttyEntry readerTask q)
  rw [queueOf_ttyEntry] at within
  have placed : (s.kernel.finishWait q (ttyEntry readerTask q)).lists.Placed readHead readEntry := by
    cases q with
    | fgWait => exact inv.placed.congr inv.coloured rfl (sameRead within nofun)
    | readWait =>
        rw [Kernel.finishWait_lists]
        exact inv.placed.removeOnce nofun
  refine ⟨within.coloured, inv.known, inv.bounded, ?_, placed, ?_, ?_, ?_, ?_, fun removed => ?_⟩
  · rw [Kernel.finishWait_tasks, Kernel.taskSetState_pid]
    exact inv.foreground
  · exact fun inLoop => nomatch away.symm.trans inLoop
  · exact fun linked => nomatch away.symm.trans (inLoop_of_linked linked)
  · rintro rfl
    cases away
  · rintro rfl
    cases away
  · cases (notRemoved inv notLoop notIn).symm.trans removed

theorem ReaderInv.advance (inv : ReaderInv s) {copied : Nat} {s' : ReaderState}
    (h : s.advance copied = some s') : ReaderInv s' := by
  cases atPc : s.pc with
  | outside => simp [ReaderState.advance, atPc] at h
  | loopHead =>
      simp only [ReaderState.advance, atPc] at h
      split at h
      · next more => exact Option.some.inj h ▸ inv.loopHead more
      · next done => exact Option.some.inj h ▸ inv.loopEnd done
  | prepareRead =>
      simp only [ReaderState.advance, atPc] at h
      exact Option.some.inj h ▸ inv.prepareRead atPc
  | locked =>
      simp only [ReaderState.advance, atPc] at h
      exact Option.some.inj h ▸ inv.locked atPc rfl _
  | check =>
      simp only [ReaderState.advance, atPc] at h
      split at h
      · next nothing => exact Option.some.inj h ▸ inv.checkEmpty atPc nothing
      · next something =>
          split at h
          · exact Option.some.inj h ▸ inv.checkRead atPc something s.total rfl
          · split at h
            · cases h
            · split at h
              · exact Option.some.inj h ▸ inv.checkRead atPc something s.total rfl
              · exact Option.some.inj h ▸ inv.checkRead atPc something _ (by split <;> rfl)
  | sleep =>
      simp only [ReaderState.advance, atPc] at h
      obtain ⟨k, switched, rfl⟩ := Option.map_eq_some_iff.mp h
      exact inv.sleep atPc switched
  | finishFg =>
      simp only [ReaderState.advance, atPc] at h
      exact Option.some.inj h ▸ inv.finish .fgWait (by rw [atPc]; nofun) (by rw [atPc]; rfl) rfl
  | finishRead =>
      simp only [ReaderState.advance, atPc] at h
      exact Option.some.inj h ▸ inv.finish .readWait (by rw [atPc]; nofun) (by rw [atPc]; rfl) rfl

end Reader

theorem readerStep_inv (s : ReaderState) (event : ReaderEvent) (s' : ReaderState) (inv : ReaderInv s)
    (h : readerStep s event = some s') : ReaderInv s' := by
  cases event with
  | call count =>
      simp only [readerStep] at h
      split at h
      · next ready => exact Option.some.inj h ▸ inv.call ready.2 count
      · cases h
  | advance copied =>
      simp only [readerStep] at h
      split at h
      · exact inv.advance h
      · cases h
  | push c fuel =>
      simp only [readerStep] at h
      split at h
      · next newLine =>
          obtain ⟨k, woken, rfl⟩ := Option.map_eq_some_iff.mp h
          have isNewline : c = newline := by
            by_contra plain
            simp only [ttyPushChar, plain, if_false] at newLine
            split at newLine <;> cases newLine
          subst isNewline
          exact inv.pushNewline woken
      · next plain =>
          refine Option.some.inj h ▸ inv.push ?_
          rintro rfl
          exact plain rfl
  | timer =>
      obtain ⟨k, switched, rfl⟩ := Option.map_eq_some_iff.mp h
      simp only [Kernel.timerIrqHandler] at switched
      split at switched
      · cases switched
      · exact inv.rawSchedule switched
  | kthreadRun t stack =>
      simp only [readerStep] at h
      split at h
      · cases h
      · next new => exact Option.some.inj h ▸ inv.kthreadRun (not_or.mp new).2 stack
  | otherPrepare q =>
      simp only [readerStep] at h
      split at h
      · cases h
      · next other => exact Option.some.inj h ▸ inv.otherPrepare q (not_or.mp other).2
  | otherSchedule =>
      simp only [readerStep] at h
      split at h
      · cases h
      · obtain ⟨k, switched, rfl⟩ := Option.map_eq_some_iff.mp h
        exact inv.rawSchedule switched

/-- In every state of every run, a reader that was taken off the run queue and still sleeps has no line
to read. -/
theorem no_lost_wakeup (cr3 : Nat) (pgd : Nat → Nat) (stack : Nat) (events : List ReaderEvent) :
    Throughout readerStep NoLostWakeup (readerBoot cr3 pgd stack) events :=
  throughout_of_invariant readerStep_inv (fun _ inv => inv.noLostWakeup) (readerBoot_inv cr3 pgd stack) events

def fallsAsleep : List ReaderEvent :=
  [.otherSchedule, .call 10, .advance 0, .advance 0, .advance 0, .advance 0, .advance 0]

example : (run readerStep (readerBoot 0 id 0x10000) fallsAsleep).map (fun s =>
    (s.removed, (s.kernel.tasks readerTask).state, s.kernel.currentTask)) =
      some (true, .interruptible, idleTask) := by
  decide +kernel

example : (run readerStep (readerBoot 0 id 0x10000) (fallsAsleep ++ [.push newline 2])).map (fun s =>
    (s.removed, (s.kernel.tasks readerTask).state, s.tty.canonLines, s.kernel.lists.next .runQueue)) =
      some (false, .running, 1, .runNode readerTask) := by
  decide +kernel

end SnapOS.Tty
