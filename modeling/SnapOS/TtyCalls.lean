/- tty_read and __tty_write with their wait queues, for any task and any buffer, against key strokes, wake-ups,
preemption and the other tasks that wait. -/
import SnapOS.EntryTrace
import SnapOS.TtyReader

namespace SnapOS.Tty
open SnapOS.Lib SnapOS.Sched SnapOS.Uaccess

inductive TtyFunction where
  | ttyRead
  | rawTtyWrite
  deriving DecidableEq, Repr

/-- A call, by the task that makes it and that task's page tables. -/
structure TtyCall where
  function : TtyFunction
  task : Task
  tables : PageTables
  buf : Nat
  count : Nat

/-- Where the call is: `tty_read` in front of its loop test and first `prepare_to_wait`, of the second one, of
the locked section, of the tests after it, of `schedule` and of the two `finish_wait`; `__tty_write` in front of
`prepare_to_wait`, of its locked section, of `schedule`, of `finish_wait` and of its copy loop. -/
inductive CallPc where
  | readHead
  | readPrepare
  | readLocked
  | readCheck
  | readSleep
  | readFinishFg
  | readFinishRead
  | writePrepare
  | writeLocked
  | writeSleep
  | writeFinish
  | writeCopy
  | returned
  deriving DecidableEq, Repr

/-- The kernel, the tty, the memory, what was put on the screen, and the local variables of the call. `others` lists the
entries of the other tasks in each queue: no step depends on it. -/
structure CallState where
  kernel : Kernel
  tty : TtyStruct
  mem : Memory
  screen : List UInt8
  pc : CallPc
  buf : Nat
  total : Nat
  bounce : List UInt8
  linesChanged : Bool
  ret : Option Int
  others : WaitQueue → List Node

inductive CallEvent where
  | advance
  | push (c : UInt8) (fuel : Nat)
  | wake (t : Task)
  | timer
  | otherSchedule
  | otherWait (q : WaitQueue)
  | otherFinish (q : WaitQueue)

def TtyCall.own (c : TtyCall) : WaitQueue → Option Node
  | .fgWait => some (.waitEntry (ttyEntry c.task .fgWait))
  | .readWait =>
      match c.function with
      | .ttyRead => some (.waitEntry (ttyEntry c.task .readWait))
      | .rawTtyWrite => none

/-- One step of the call. -/
def CallState.advance (c : TtyCall) (s : CallState) : Option CallState :=
  match s.pc with
  | .readHead =>
      if s.total < c.count then
        some { s with
          kernel := s.kernel.prepareToWait .fgWait (ttyEntry c.task .fgWait) .interruptible
          pc := .readPrepare }
      else some { s with pc := .readFinishFg }
  | .readPrepare =>
      some { s with
        kernel := s.kernel.prepareToWait .readWait (ttyEntry c.task .readWait) .interruptible
        pc := .readLocked }
  | .readLocked =>
      let (bounce, tty) := lockedRead (s.kernel.tasks c.task).pid (c.count - s.total) s.bounce s.tty
      some { s with
        tty := tty
        bounce := bounce
        linesChanged := tty.canonLines ≠ s.tty.canonLines
        pc := .readCheck }
  | .readCheck =>
      if s.total = 0 ∧ s.bounce = [] then some { s with pc := .readSleep }
      else if s.bounce = [] then some { s with pc := .readFinishFg }
      else
        let (mem, uncopied) := copyToUser c.tables s.mem s.buf s.bounce
        let copied := s.bounce.length - uncopied
        if s.total + copied = 0 then
          -- the return of `-EFAULT`, past both calls of `finish_wait`
          some { s with mem := mem, ret := some (-eFault), pc := .returned }
        else some { s with
          mem := mem
          buf := (s.buf + copied) % word64
          total := s.total + copied
          pc := if uncopied ≠ 0 ∨ s.linesChanged then .readFinishFg else .readHead }
  | .readSleep => s.kernel.schedule.map fun k => { s with kernel := k, pc := .readHead }
  | .readFinishFg =>
      some { s with
        kernel := s.kernel.finishWait .fgWait (ttyEntry c.task .fgWait)
        pc := .readFinishRead }
  | .readFinishRead =>
      some { s with
        kernel := s.kernel.finishWait .readWait (ttyEntry c.task .readWait)
        ret := some s.total
        pc := .returned }
  | .writePrepare =>
      some { s with
        kernel := s.kernel.prepareToWait .fgWait (ttyEntry c.task .fgWait) .interruptible
        pc := .writeLocked }
  | .writeLocked =>
      some { s with pc := if isFg s.tty (s.kernel.tasks c.task).pid then .writeFinish else .writeSleep }
  | .writeSleep => s.kernel.schedule.map fun k => { s with kernel := k, pc := .writePrepare }
  | .writeFinish =>
      some { s with
        kernel := s.kernel.finishWait .fgWait (ttyEntry c.task .fgWait)
        pc := .writeCopy }
  | .writeCopy =>
      let (screen, ret) := ttyWriteLoop c.tables s.mem c.count c.buf 0
      some { s with screen := s.screen ++ screen, ret := some ret, pc := .returned }
  | .returned => none

/-- What comes between any two steps of the call, until it returns: key strokes, wake-ups, preemption, and other tasks
that read or write the tty, with entries of their own. -/
def callStep (c : TtyCall) (s : CallState) : CallEvent → Option CallState
  | .advance => if s.kernel.currentTask = c.task then s.advance c else none
  | .push char fuel =>
      let pushed := ttyPushChar s.tty char
      if s.pc = .returned then none
      else if pushed.newLine then
        (s.kernel.wakeUp .readWait fuel).map fun k => { s with kernel := k, tty := pushed.tty }
      else some { s with tty := pushed.tty }
  | .wake t => if s.pc = .returned then none else some { s with kernel := (s.kernel.wakeUpTask t).2 }
  | .timer => if s.pc = .returned then none else s.kernel.timerIrqHandler.map fun k => { s with kernel := k }
  | .otherSchedule =>
      if s.pc = .returned ∨ s.kernel.currentTask = c.task then none
      else s.kernel.schedule.map fun k => { s with kernel := k }
  | .otherWait q =>
      let e := ttyEntry s.kernel.currentTask q
      if s.pc = .returned ∨ s.kernel.currentTask = c.task then none
      else if .waitEntry e ∈ s.others q then some { s with kernel := s.kernel.prepareToWait q e .interruptible }
      else some { s with
        kernel := (s.kernel.initWaitqueueEntry e).prepareToWait q e .interruptible
        others := Function.update s.others q (s.others q ++ [.waitEntry e]) }
  | .otherFinish q =>
      let e := ttyEntry s.kernel.currentTask q
      if s.pc = .returned ∨ s.kernel.currentTask = c.task ∨ .waitEntry e ∉ s.others q then none
      else some { s with
        kernel := s.kernel.finishWait q e
        others := Function.update s.others q ((s.others q).erase (.waitEntry e)) }

def callStart (c : TtyCall) (k : Kernel) (tty : TtyStruct) (mem : Memory) (others : WaitQueue → List Node) :
    CallState :=
  match c.function with
  | .ttyRead =>
      ⟨(k.initWaitqueueEntry (ttyEntry c.task .fgWait)).initWaitqueueEntry (ttyEntry c.task .readWait), tty, mem, [],
        .readHead, c.buf, 0, [], false, none, others⟩
  | .rawTtyWrite =>
      ⟨k.initWaitqueueEntry (ttyEntry c.task .fgWait), tty, mem, [], .writePrepare, c.buf, 0, [], false, none, others⟩

/-- The entry of the call is in its queue once at most, and beside it are the entries of the others in their order. When
the call has returned, the others are all that is left and its task is running. -/
structure Traceless (c : TtyCall) (s : CallState) : Prop where
  once : ∀ q, ∃ w, s.kernel.lists.Represents (.waitHead q) w ∧ (∀ e ∈ c.own q, w.count e ≤ 1) ∧
    (w.filter fun x => x ∉ c.own q) = s.others q
  left : s.pc = .returned → ∀ q, s.kernel.lists.Represents (.waitHead q) (s.others q) ∧ ∀ e ∈ c.own q, e ∉ s.others q
  running : s.pc = .returned → (s.kernel.tasks c.task).state = .running

/-- A task that makes a call, with queues in which others may wait. -/
structure Calls (c : TtyCall) (k : Kernel) (others : WaitQueue → List Node) : Prop where
  current : k.currentTask = c.task
  coloured : k.lists.Coloured queueOf
  queues : ∀ q, k.lists.Represents (.waitHead q) (others q)
  fresh : ∀ q, ∀ e ∈ c.own q, e ∉ others q

/-! What every step keeps -/

def CallPc.inLoop : CallPc → Bool
  | .readPrepare | .readLocked | .readCheck | .readSleep => true
  | _ => false

def CallPc.reads : CallPc → Bool
  | .readHead | .readPrepare | .readLocked | .readCheck | .readSleep | .readFinishFg | .readFinishRead => true
  | _ => false

def CallPc.writes : CallPc → Bool
  | .writePrepare | .writeLocked | .writeSleep | .writeFinish | .writeCopy => true
  | _ => false

/-- The place of the call's entry in one queue. -/
def CallState.Stands (c : TtyCall) (s : CallState) (q : WaitQueue) (inside : Bool) : Prop :=
  s.kernel.lists.Standing (.waitHead q) (c.own q) (s.others q) inside

/-- For the process `pid`, with the process `fgPid` in the foreground. -/
structure CallInv (c : TtyCall) (fgPid pid : Nat) (s : CallState) : Prop where
  coloured : s.kernel.lists.Coloured queueOf
  stands : ∀ q, ∃ inside, s.Stands c q inside
  foreground : s.tty.fgPid = fgPid
  process : (s.kernel.tasks c.task).pid = pid
  buf : s.total = 0 → s.buf = c.buf
  nothing : fgPid ≠ pid → s.bounce = []
  entered : s.pc.inLoop = true → s.total < c.count
  reads : s.pc.reads = true → c.function = .ttyRead
  writes : s.pc.writes = true → c.function = .rawTtyWrite
  finished : s.pc = .readFinishRead ∨ s.pc = .writeCopy → s.Stands c .fgWait false
  written : s.pc = .writeCopy → (s.kernel.tasks c.task).state = .running
  returned : s.pc = .returned → (∀ q, s.Stands c q false) ∧ (s.kernel.tasks c.task).state = .running

section Invariant

variable {c : TtyCall} {fgPid pid : Nat} {s : CallState}

theorem CallInv.traceless (inv : CallInv c fgPid pid s) : Traceless c s := by
  refine ⟨fun q => ?_, fun atEnd q => ?_, fun atEnd => (inv.returned atEnd).2⟩
  · obtain ⟨inside, stands⟩ := inv.stands q
    exact stands.listed
  · have stands := (inv.returned atEnd).1 q
    exact ⟨stands.represents, stands.outside⟩

theorem queueOf_own {q : WaitQueue} {e : Node} (isOwn : e ∈ c.own q) : e = .waitEntry (ttyEntry c.task q) := by
  cases q with
  | fgWait => exact (Option.some.inj isOwn).symm
  | readWait =>
      rw [TtyCall.own] at isOwn
      split at isOwn
      · exact (Option.some.inj isOwn).symm
      · cases isOwn

theorem CallState.Stands.frame {q : WaitQueue} {inside : Bool} {k' : Kernel} {f : Option WaitQueue}
    (stands : s.Stands c q inside) (coloured : s.kernel.lists.Coloured queueOf)
    (within : ListHeads.Within queueOf f s.kernel.lists k'.lists) (other : f ≠ some q) :
    CallState.Stands c { s with kernel := k' } q inside := by
  refine stands.congr coloured (fun e isOwn => ?_) fun y isRead => within.same y ?_
  · rw [queueOf_own isOwn, queueOf_ttyEntry]
    rfl
  · rw [isRead]
    exact other.symm

theorem CallInv.env (inv : CallInv c fgPid pid s) (runs : s.pc ≠ .returned) {k' : Kernel}
    {others' : WaitQueue → List Node}
    (coloured : k'.lists.Coloured queueOf)
    (stands : ∀ q inside, s.Stands c q inside → CallState.Stands c { s with kernel := k', others := others' } q inside)
    (process : (k'.tasks c.task).pid = (s.kernel.tasks c.task).pid)
    (awake : (s.kernel.tasks c.task).state = .running → (k'.tasks c.task).state = .running) :
    CallInv c fgPid pid { s with kernel := k', others := others' } := by
  refine ⟨coloured, fun q => ?_, inv.foreground, process.trans inv.process, inv.buf, inv.nothing, inv.entered,
    inv.reads,
    inv.writes, fun atPc => stands _ _ (inv.finished atPc), fun atPc => awake (inv.written atPc), fun atPc =>
      absurd atPc runs⟩
  obtain ⟨inside, here⟩ := inv.stands q
  exact ⟨inside, stands q inside here⟩

theorem CallInv.runQueue (inv : CallInv c fgPid pid s) (runs : s.pc ≠ .returned) {k' : Kernel}
    (within : ListHeads.Within queueOf none s.kernel.lists k'.lists)
    (process : (k'.tasks c.task).pid = (s.kernel.tasks c.task).pid)
    (awake : (s.kernel.tasks c.task).state = .running → (k'.tasks c.task).state = .running) :
    CallInv c fgPid pid { s with kernel := k' } :=
  inv.env runs within.coloured (fun _ _ stands => stands.frame inv.coloured within nofun) process awake

theorem CallInv.rawSchedule (inv : CallInv c fgPid pid s) (runs : s.pc ≠ .returned) {preempt : Bool} {k' : Kernel}
    (switched : s.kernel.rawSchedule preempt = some k') : CallInv c fgPid pid { s with kernel := k' } := by
  have same := congrFun (Kernel.rawSchedule_tasks switched) c.task
  refine inv.runQueue runs (Kernel.rawSchedule_within inv.coloured queueOf_runNode switched) (congrArg _ same) ?_
  rw [same]
  exact id

theorem CallInv.wakeUpTask (inv : CallInv c fgPid pid s) (runs : s.pc ≠ .returned) (t : Task) :
    CallInv c fgPid pid { s with kernel := (s.kernel.wakeUpTask t).2 } :=
  inv.runQueue runs (Kernel.wakeUpTask_within inv.coloured queueOf_runNode t) (Kernel.wakeUpTask_pid t c.task s.kernel)
    (Kernel.wakeUpTask_awake t)

theorem CallInv.wakeUp (inv : CallInv c fgPid pid s) (runs : s.pc ≠ .returned) {q : WaitQueue} {fuel : Nat}
    {k' : Kernel}
    (woken : s.kernel.wakeUp q fuel = some k') : CallInv c fgPid pid { s with kernel := k' } :=
  Kernel.rawWakeup_keeps (P := fun k => CallInv c fgPid pid { s with kernel := k })
    (fun _ t kept => CallInv.wakeUpTask kept runs t) woken inv

theorem CallInv.push (inv : CallInv c fgPid pid s) (char : UInt8) :
    CallInv c fgPid pid { s with tty := (ttyPushChar s.tty char).tty } :=
  ⟨inv.coloured, inv.stands, (ttyPushChar_fgPid s.tty char).trans inv.foreground, inv.process, inv.buf, inv.nothing,
    inv.entered, inv.reads, inv.writes, inv.finished, inv.written, inv.returned⟩

/-! The other tasks in the queues -/

theorem not_own {t : Task} (other : t ≠ c.task) (q : WaitQueue) : Node.waitEntry (ttyEntry t q) ∉ c.own q := by
  intro isOwn
  have same := congrArg WaitEntry.task (Node.waitEntry.inj (queueOf_own isOwn))
  rw [ttyEntry_task, ttyEntry_task] at same
  exact other same

/-- What a task does to queue `q` in its own entry's place shows in that queue only. -/
theorem CallState.Stands.update {q : WaitQueue} {k' : Kernel} {w : List Node}
    (coloured : s.kernel.lists.Coloured queueOf)
    (within : ListHeads.Within queueOf (some q) s.kernel.lists k'.lists)
    (here : ∀ inside, s.Stands c q inside → k'.lists.Standing (.waitHead q) (c.own q) w inside) (q' : WaitQueue)
    (inside : Bool) (stands : s.Stands c q' inside) :
    CallState.Stands c { s with kernel := k', others := Function.update s.others q w } q' inside := by
  by_cases same : q' = q
  · subst same
    rw [CallState.Stands]
    dsimp only
    rw [Function.update_self]
    exact here inside stands
  · rw [CallState.Stands]
    dsimp only
    rw [Function.update_of_ne same]
    exact stands.frame coloured within fun isQ => same (Option.some.inj isQ).symm

theorem CallInv.otherWait (inv : CallInv c fgPid pid s) (runs : s.pc ≠ .returned) (q : WaitQueue) {t : Task}
    (other : t ≠ c.task) (fresh : .waitEntry (ttyEntry t q) ∉ s.others q) :
    CallInv c fgPid pid { s with
      kernel := (s.kernel.initWaitqueueEntry (ttyEntry t q)).prepareToWait q (ttyEntry t q) .interruptible
      others := Function.update s.others q (s.others q ++ [.waitEntry (ttyEntry t q)]) } := by
  have first := Kernel.initWaitqueueEntry_within inv.coloured (ttyEntry t q)
  have second := Kernel.prepareToWait_within (q := q) first.coloured (queueOf_ttyEntry t q) .interruptible
  have within := first.trans second
  rw [queueOf_ttyEntry] at within
  have alone : c.task ≠ (ttyEntry t q).task := (ttyEntry_task t q).symm ▸ other.symm
  have task : ((s.kernel.initWaitqueueEntry (ttyEntry t q)).prepareToWait q (ttyEntry t q) .interruptible).tasks
    c.task =
      s.kernel.tasks c.task := Kernel.taskSetState_tasks _ _ alone
  refine inv.env runs within.coloured (CallState.Stands.update inv.coloured within fun inside stands => ?_)
    (congrArg _ task) (fun awake => (congrArg _ task).trans awake)
  exact ListHeads.Standing.addOther nofun (not_own other q) fresh stands

theorem CallInv.otherAgain (inv : CallInv c fgPid pid s) (runs : s.pc ≠ .returned) (q : WaitQueue) {t : Task}
    (other : t ≠ c.task) (queued : .waitEntry (ttyEntry t q) ∈ s.others q) :
    CallInv c fgPid pid { s with kernel := s.kernel.prepareToWait q (ttyEntry t q) .interruptible } := by
  have within := Kernel.prepareToWait_within (q := q) inv.coloured (queueOf_ttyEntry t q) .interruptible
  rw [queueOf_ttyEntry] at within
  have alone : c.task ≠ (ttyEntry t q).task := (ttyEntry_task t q).symm ▸ other.symm
  have task : (s.kernel.prepareToWait q (ttyEntry t q) .interruptible).tasks c.task = s.kernel.tasks c.task :=
    Kernel.taskSetState_tasks _ _ alone
  have stands := CallState.Stands.update (c := c) (w := s.others q) inv.coloured within fun inside stands =>
    ListHeads.Standing.addAgain queued stands
  rw [Function.update_eq_self] at stands
  exact inv.env runs within.coloured stands (congrArg _ task) fun awake => (congrArg _ task).trans awake

theorem CallInv.otherFinish (inv : CallInv c fgPid pid s) (runs : s.pc ≠ .returned) (q : WaitQueue) {t : Task}
    (other : t ≠ c.task) (queued : .waitEntry (ttyEntry t q) ∈ s.others q) :
    CallInv c fgPid pid { s with
      kernel := s.kernel.finishWait q (ttyEntry t q)
      others := Function.update s.others q ((s.others q).erase (.waitEntry (ttyEntry t q))) } := by
  have within := Kernel.finishWait_within inv.coloured q (ttyEntry t q)
  rw [queueOf_ttyEntry] at within
  have alone : c.task ≠ (ttyEntry t q).task := (ttyEntry_task t q).symm ▸ other.symm
  have task : (s.kernel.finishWait q (ttyEntry t q)).tasks c.task = s.kernel.tasks c.task := by
    rw [Kernel.finishWait_tasks]
    exact Kernel.taskSetState_tasks _ _ alone
  refine inv.env runs within.coloured (CallState.Stands.update inv.coloured within fun inside stands => ?_)
    (congrArg _ task) (fun awake => (congrArg _ task).trans awake)
  rw [Kernel.finishWait_lists]
  exact ListHeads.Standing.removeOther (not_own other q) queued stands

/-! The call's own entries -/

theorem fgWait_own : c.own .fgWait = some (.waitEntry (ttyEntry c.task .fgWait)) := rfl

theorem readWait_own (reads : c.function = .ttyRead) :
    c.own .readWait = some (.waitEntry (ttyEntry c.task .readWait)) := by
  rw [TtyCall.own, reads]

theorem stands_both {q : WaitQueue} {here : Bool} {k' : Kernel} (inv : CallInv c fgPid pid s)
    (own : CallState.Stands c { s with kernel := k' } q here)
    (other : ∀ q' inside, q' ≠ q → s.Stands c q' inside → CallState.Stands c { s with kernel := k' } q' inside)
    (q' : WaitQueue) : ∃ inside, CallState.Stands c { s with kernel := k' } q' inside := by
  obtain ⟨inside, before⟩ := inv.stands q'
  by_cases same : q' = q
  · exact ⟨here, same ▸ own⟩
  · exact ⟨inside, other q' inside same before⟩

theorem prepare_stands {q : WaitQueue} (inv : CallInv c fgPid pid s)
    (isOwn : c.own q = some (.waitEntry (ttyEntry c.task q))) :
    (s.kernel.prepareToWait q (ttyEntry c.task q) .interruptible).lists.Coloured queueOf ∧
      CallState.Stands c { s with kernel := s.kernel.prepareToWait q (ttyEntry c.task q) .interruptible } q true ∧
      ∀ q' inside, q' ≠ q → s.Stands c q' inside →
        CallState.Stands c { s with kernel := s.kernel.prepareToWait q (ttyEntry c.task q) .interruptible } q'
          inside := by
  have within := Kernel.prepareToWait_within (q := q) inv.coloured (queueOf_ttyEntry c.task q) .interruptible
  rw [queueOf_ttyEntry] at within
  obtain ⟨inside, stands⟩ := inv.stands q
  rw [CallState.Stands, isOwn] at stands
  refine ⟨within.coloured, ?_, fun q' inside' other here => ?_⟩
  · rw [CallState.Stands, isOwn]
    exact stands.addOwn
  · exact here.frame inv.coloured within fun isQ => other (Option.some.inj isQ).symm

theorem finish_stands {q : WaitQueue} (inv : CallInv c fgPid pid s)
    (isOwn : c.own q = some (.waitEntry (ttyEntry c.task q))) :
    (s.kernel.finishWait q (ttyEntry c.task q)).lists.Coloured queueOf ∧
      CallState.Stands c { s with kernel := s.kernel.finishWait q (ttyEntry c.task q) } q false ∧
      ∀ q' inside, q' ≠ q → s.Stands c q' inside →
        CallState.Stands c { s with kernel := s.kernel.finishWait q (ttyEntry c.task q) } q' inside := by
  have within := Kernel.finishWait_within inv.coloured q (ttyEntry c.task q)
  rw [queueOf_ttyEntry] at within
  obtain ⟨inside, stands⟩ := inv.stands q
  rw [CallState.Stands, isOwn] at stands
  refine ⟨within.coloured, ?_, fun q' inside' other here => ?_⟩
  · rw [CallState.Stands, isOwn, Kernel.finishWait_lists]
    exact stands.removeOwn
  · exact here.frame inv.coloured within fun isQ => other (Option.some.inj isQ).symm

/-! The steps of the call -/

/-- Past the `finish_wait` of a queue. -/
def CallPc.leaves : CallPc → Bool
  | .readFinishRead | .writeCopy | .returned => true
  | _ => false

theorem CallInv.of_stays (coloured : s.kernel.lists.Coloured queueOf) (stands : ∀ q, ∃ inside, s.Stands c q inside)
    (foreground : s.tty.fgPid = fgPid) (process : (s.kernel.tasks c.task).pid = pid) (buf : s.total = 0 → s.buf = c.buf)
    (nothing : fgPid ≠ pid → s.bounce = []) (entered : s.pc.inLoop = true → s.total < c.count)
    (reads : s.pc.reads = true → c.function = .ttyRead) (writes : s.pc.writes = true → c.function = .rawTtyWrite)
    (stays : s.pc.leaves = false) : CallInv c fgPid pid s := by
  refine ⟨coloured, stands, foreground, process, buf, nothing, entered, reads, writes, fun atPc => ?_, fun atPc => ?_,
    fun atPc => ?_⟩
  · rcases atPc with atPc | atPc
    · rw [atPc] at stays
      cases stays
    · rw [atPc] at stays
      cases stays
  · rw [atPc] at stays
    cases stays
  · rw [atPc] at stays
    cases stays

section Moves

variable {pc : CallPc} (inv : CallInv c fgPid pid s) (entered : pc.inLoop = true → s.total < c.count)
  (reads : pc.reads = true → c.function = .ttyRead) (writes : pc.writes = true → c.function = .rawTtyWrite)
  (stays : pc.leaves = false)

include inv entered reads writes stays

theorem CallInv.moves : CallInv c fgPid pid { s with pc := pc } :=
  .of_stays inv.coloured inv.stands inv.foreground inv.process inv.buf inv.nothing entered reads writes stays

theorem CallInv.prepares {q : WaitQueue} (isOwn : c.own q = some (.waitEntry (ttyEntry c.task q))) :
    CallInv c fgPid pid { s with
      kernel := s.kernel.prepareToWait q (ttyEntry c.task q) .interruptible
      pc := pc } := by
  obtain ⟨coloured, own, other⟩ := prepare_stands inv isOwn
  exact .of_stays coloured (stands_both inv own other) inv.foreground
    ((Kernel.prepareToWait_pid _ _ _ _ _).trans inv.process) inv.buf inv.nothing entered reads writes stays

end Moves

theorem running_finish (q : WaitQueue) (t : Task) (k : Kernel) :
    ((k.finishWait q (ttyEntry t q)).tasks t).state = .running := by
  rw [Kernel.finishWait_tasks, ttyEntry_task]
  exact Kernel.taskSetState_state _ _

theorem lockedRead_fgPid (pid request : Nat) (bounce : List UInt8) (tty : TtyStruct) :
    (lockedRead pid request bounce tty).2.fgPid = tty.fgPid := by
  rw [lockedRead]
  split
  · exact rawTtyRead_fgPid tty _
  · rfl

/-- Every return of the call comes after its entries have left, or the first bytes of `tty_read` do not arrive. -/
def Undisturbed (c : TtyCall) (fgPid pid : Nat) : Prop :=
  c.function = .rawTtyWrite ∨ c.count = 0 ∨ c.tables.mapped c.buf = true ∨ fgPid ≠ pid

theorem copyToUser_le (tables : PageTables) (mem : Memory) (dest : Nat) (bytes : List UInt8) :
    (copyToUser tables mem dest bytes).2 ≤ bytes.length := by
  induction bytes generalizing mem dest with
  | nil => exact Nat.le_refl 0
  | cons b rest ih =>
      rw [copyToUser]
      split
      · exact Nat.le_succ_of_le (ih _ _)
      · exact Nat.le_refl _

theorem copyToUser_some_iff {tables : PageTables} {dest : Nat} (mem : Memory) {bytes : List UInt8} (some : bytes ≠ []) :
    (copyToUser tables mem dest bytes).2 < bytes.length ↔ tables.mapped dest = true := by
  cases bytes with
  | nil => exact absurd rfl some
  | cons b rest =>
      rw [copyToUser]
      split
      · next mapped => exact iff_of_true (Nat.lt_succ_of_le (copyToUser_le _ _ _ _)) mapped
      · next unmapped => exact iff_of_false (Nat.lt_irrefl _) unmapped

section ReadSteps

variable {s' : CallState} (inv : CallInv c fgPid pid s) (h : s.advance c = some s') (isRead : c.function = .ttyRead)

include inv h isRead

theorem CallInv.advance_readHead (atPc : s.pc = .readHead) : CallInv c fgPid pid s' := by
  simp only [CallState.advance, atPc] at h
  split at h
  · next more =>
      exact Option.some.inj h ▸ inv.prepares (fun _ => more) (fun _ => isRead) (by rintro ⟨⟩) rfl fgWait_own
  · exact Option.some.inj h ▸ inv.moves (by rintro ⟨⟩) (fun _ => isRead) (by rintro ⟨⟩) rfl

theorem CallInv.advance_readPrepare (atPc : s.pc = .readPrepare) : CallInv c fgPid pid s' := by
  simp only [CallState.advance, atPc] at h
  exact Option.some.inj h ▸ inv.prepares (fun _ => inv.entered (by rw [atPc]; rfl)) (fun _ => isRead) (by rintro ⟨⟩)
    rfl (readWait_own isRead)

theorem CallInv.advance_readLocked (atPc : s.pc = .readLocked) : CallInv c fgPid pid s' := by
  simp only [CallState.advance, atPc] at h
  refine Option.some.inj h ▸ .of_stays inv.coloured inv.stands ((lockedRead_fgPid _ _ _ _).trans inv.foreground)
    inv.process inv.buf (fun other => ?_) (fun _ => inv.entered (by rw [atPc]; rfl)) (fun _ => isRead)
      (by rintro ⟨⟩) rfl
  have background : isFg s.tty (s.kernel.tasks c.task).pid = false := by
    rw [isFg, inv.foreground, inv.process, decide_eq_false_iff_not]
    exact other
  dsimp only
  rw [lockedRead, background]
  exact inv.nothing other

theorem CallInv.advance_readCheck (undisturbed : Undisturbed c fgPid pid) (atPc : s.pc = .readCheck) :
    CallInv c fgPid pid s' := by
  have more := inv.entered (by rw [atPc]; rfl)
  simp only [CallState.advance, atPc] at h
  split at h
  · exact Option.some.inj h ▸ inv.moves (fun _ => more) (fun _ => isRead) (by rintro ⟨⟩) rfl
  split at h
  · exact Option.some.inj h ▸ inv.moves (by rintro ⟨⟩) (fun _ => isRead) (by rintro ⟨⟩) rfl
  next something =>
  split at h
  · next fault =>
      -- The only return with entries on the queues: `undisturbed` rules it out.
      rcases undisturbed with isWrite | empty | mapped | other
      · cases isWrite.symm.trans isRead
      · omega
      · have copied := (copyToUser_some_iff s.mem something).mpr ((inv.buf (by omega)).symm ▸ mapped)
        omega
      · exact absurd (inv.nothing other) something
  · next copied =>
      refine Option.some.inj h ▸ .of_stays inv.coloured inv.stands inv.foreground inv.process
        (fun zero => absurd zero copied) inv.nothing ?_ (fun _ => isRead) ?_ ?_
      · dsimp only
        split <;> rintro ⟨⟩
      · dsimp only
        split <;> rintro ⟨⟩
      · dsimp only
        split <;> rfl

theorem CallInv.advance_readSleep (atPc : s.pc = .readSleep) : CallInv c fgPid pid s' := by
  simp only [CallState.advance, atPc] at h
  obtain ⟨k, switched, rfl⟩ := Option.map_eq_some_iff.mp h
  have slept := inv.rawSchedule (by rw [atPc]; rintro ⟨⟩) switched
  exact slept.moves (by rintro ⟨⟩) (fun _ => isRead) (by rintro ⟨⟩) rfl

theorem CallInv.advance_readFinishFg (atPc : s.pc = .readFinishFg) : CallInv c fgPid pid s' := by
  simp only [CallState.advance, atPc] at h
  obtain ⟨coloured, left, other⟩ := finish_stands inv fgWait_own
  exact Option.some.inj h ▸ ⟨coloured, stands_both inv left other, inv.foreground,
    (Kernel.finishWait_pid .fgWait _ _ _).trans inv.process, inv.buf, inv.nothing, (by rintro ⟨⟩),
    fun _ => isRead, (by rintro ⟨⟩),
    fun _ => left, (by rintro ⟨⟩), (by rintro ⟨⟩)⟩

theorem CallInv.advance_readFinishRead (atPc : s.pc = .readFinishRead) : CallInv c fgPid pid s' := by
  simp only [CallState.advance, atPc] at h
  obtain ⟨coloured, left, other⟩ := finish_stands inv (readWait_own isRead)
  have all : ∀ q, CallState.Stands c
      { s with kernel := s.kernel.finishWait .readWait (ttyEntry c.task .readWait) } q false := by
    intro q
    cases q with
    | readWait => exact left
    | fgWait => exact other .fgWait false (by rintro ⟨⟩) (inv.finished (Or.inl atPc))
  exact Option.some.inj h ▸ ⟨coloured, fun q =>
    ⟨false, all q⟩, inv.foreground, (Kernel.finishWait_pid .readWait _ _ _).trans inv.process,
    inv.buf, inv.nothing, (by rintro ⟨⟩), (by rintro ⟨⟩), (by rintro ⟨⟩), (by rintro (⟨⟨⟩⟩ | ⟨⟨⟩⟩)), (by rintro ⟨⟩),
    fun _ => ⟨all, running_finish _ _ _⟩⟩

end ReadSteps

theorem CallInv.advanceRead (inv : CallInv c fgPid pid s) (undisturbed : s.pc = .readCheck → Undisturbed c fgPid pid)
    (reads : s.pc.reads = true) {s' : CallState} (h : s.advance c = some s') : CallInv c fgPid pid s' := by
  have isRead := inv.reads reads
  cases atPc : s.pc with
  | readHead => exact inv.advance_readHead h isRead atPc
  | readPrepare => exact inv.advance_readPrepare h isRead atPc
  | readLocked => exact inv.advance_readLocked h isRead atPc
  | readCheck => exact inv.advance_readCheck h isRead (undisturbed atPc) atPc
  | readSleep => exact inv.advance_readSleep h isRead atPc
  | readFinishFg => exact inv.advance_readFinishFg h isRead atPc
  | readFinishRead => exact inv.advance_readFinishRead h isRead atPc
  | _ =>
      rw [atPc] at reads
      cases reads

theorem CallInv.advanceWrite (inv : CallInv c fgPid pid s) (writes : s.pc.writes = true) {s' : CallState}
    (h : s.advance c = some s') : CallInv c fgPid pid s' := by
  have isWrite := inv.writes writes
  cases atPc : s.pc with
  | writePrepare =>
      simp only [CallState.advance, atPc] at h
      exact Option.some.inj h ▸ inv.prepares (by rintro ⟨⟩) (by rintro ⟨⟩) (fun _ => isWrite) rfl fgWait_own
  | writeLocked =>
      simp only [CallState.advance, atPc] at h
      refine Option.some.inj h ▸ inv.moves ?_ ?_ (fun _ => isWrite) ?_
      · split <;> nofun
      · split <;> nofun
      · split <;> rfl
  | writeSleep =>
      simp only [CallState.advance, atPc] at h
      obtain ⟨k, switched, rfl⟩ := Option.map_eq_some_iff.mp h
      have slept := inv.rawSchedule (by rw [atPc]; nofun) switched
      exact slept.moves nofun nofun (fun _ => isWrite) rfl
  | writeFinish =>
      simp only [CallState.advance, atPc] at h
      obtain ⟨coloured, left, other⟩ := finish_stands inv fgWait_own
      exact Option.some.inj h ▸ ⟨coloured, stands_both inv left other, inv.foreground,
        (Kernel.finishWait_pid .fgWait _ _ _).trans inv.process, inv.buf, inv.nothing, nofun, nofun,
        fun _ => isWrite, fun _ => left,
        fun _ => running_finish _ _ _, nofun⟩
  | writeCopy =>
      simp only [CallState.advance, atPc] at h
      have all : ∀ q, s.Stands c q false := by
        intro q
        cases q with
        | fgWait => exact inv.finished (Or.inr atPc)
        | readWait =>
            obtain ⟨inside, stands⟩ := inv.stands .readWait
            have none : c.own .readWait = none := by rw [TtyCall.own, isWrite]
            rw [CallState.Stands, none] at stands ⊢
            exact stands.of_none ▸ stands
      exact Option.some.inj h ▸ ⟨inv.coloured, inv.stands, inv.foreground, inv.process, inv.buf, inv.nothing, nofun,
        nofun,
        nofun, nofun, nofun, fun _ => ⟨all, inv.written atPc⟩⟩
  | _ =>
      rw [atPc] at writes
      cases writes

theorem CallInv.advance (inv : CallInv c fgPid pid s) (undisturbed : Undisturbed c fgPid pid) {s' : CallState}
    (h : s.advance c = some s') : CallInv c fgPid pid s' := by
  by_cases reads : s.pc.reads = true
  · exact inv.advanceRead (fun _ => undisturbed) reads h
  by_cases writes : s.pc.writes = true
  · exact inv.advanceWrite writes h
  have atEnd : s.pc = .returned := by
    cases atPc : s.pc with
    | returned => rfl
    | _ =>
        rw [atPc] at reads writes
        first | exact absurd rfl reads | exact absurd rfl writes
  simp only [CallState.advance, atEnd] at h
  cases h

theorem callStep_inv (undisturbed : Undisturbed c fgPid pid) (s : CallState) (event : CallEvent) (s' : CallState)
    (inv : CallInv c fgPid pid s) (h : callStep c s event = some s') : CallInv c fgPid pid s' := by
  cases event with
  | advance =>
      simp only [callStep] at h
      split at h
      · exact inv.advance undisturbed h
      · cases h
  | push char fuel =>
      simp only [callStep] at h
      split at h
      · cases h
      next runs =>
      split at h
      · obtain ⟨k, woken, rfl⟩ := Option.map_eq_some_iff.mp h
        exact (inv.wakeUp runs woken).push char
      · exact Option.some.inj h ▸ inv.push char
  | wake t =>
      simp only [callStep] at h
      split at h
      · cases h
      · next runs => exact Option.some.inj h ▸ inv.wakeUpTask runs t
  | timer =>
      simp only [callStep] at h
      split at h
      · cases h
      next runs =>
      obtain ⟨k, switched, rfl⟩ := Option.map_eq_some_iff.mp h
      simp only [Kernel.timerIrqHandler] at switched
      split at switched
      · cases switched
      · exact inv.rawSchedule runs switched
  | otherSchedule =>
      simp only [callStep] at h
      split at h
      · cases h
      next runs =>
      obtain ⟨k, switched, rfl⟩ := Option.map_eq_some_iff.mp h
      exact inv.rawSchedule (not_or.mp runs).1 switched
  | otherWait q =>
      simp only [callStep] at h
      split at h
      · cases h
      next runs =>
      obtain ⟨runs, other⟩ := not_or.mp runs
      split at h
      · next queued => exact Option.some.inj h ▸ inv.otherAgain runs q other queued
      · next fresh => exact Option.some.inj h ▸ inv.otherWait runs q other fresh
  | otherFinish q =>
      simp only [callStep] at h
      split at h
      · cases h
      next runs =>
      obtain ⟨runs, other⟩ := not_or.mp runs
      obtain ⟨other, queued⟩ := not_or.mp other
      exact Option.some.inj h ▸ inv.otherFinish runs q other (not_not.mp queued)

theorem callStart_stands {k : Kernel} {others : WaitQueue → List Node} (calls : Calls c k others) (tty : TtyStruct)
    (mem : Memory) : (callStart c k tty mem others).kernel.lists.Coloured queueOf ∧
      ∀ q, (callStart c k tty mem others).Stands c q false := by
  have outside (q : WaitQueue) {e : Node} (isOwn : e ∈ c.own q) : e ∉ .waitHead q :: others q := by
    rw [List.mem_cons, not_or]
    refine ⟨?_, calls.fresh q e isOwn⟩
    rw [queueOf_own isOwn]
    nofun
  have first := Kernel.initWaitqueueEntry_within calls.coloured (ttyEntry c.task .fgWait)
  have second := Kernel.initWaitqueueEntry_within first.coloured (ttyEntry c.task .readWait)
  have fgStands : (k.initWaitqueueEntry (ttyEntry c.task .fgWait)).lists.Standing (.waitHead .fgWait) (c.own .fgWait)
      (others .fgWait) false := ListHeads.Standing.initOwn (calls.queues .fgWait) (outside .fgWait fgWait_own)
  have readRep : (k.initWaitqueueEntry (ttyEntry c.task .fgWait)).lists.Represents (.waitHead .readWait)
      (others .readWait) :=
    ListHeads.Represents.congr_coloured calls.coloured (sameRead first nofun) (calls.queues .readWait)
  cases isFunction : c.function with
  | ttyRead =>
      have start : (callStart c k tty mem others).kernel =
          (k.initWaitqueueEntry (ttyEntry c.task .fgWait)).initWaitqueueEntry (ttyEntry c.task .readWait) := by
        rw [callStart, isFunction]
      have same : (callStart c k tty mem others).others = others := by rw [callStart, isFunction]
      simp only [CallState.Stands, start, same]
      refine ⟨second.coloured, fun q => ?_⟩
      cases q with
      | fgWait =>
          refine fgStands.congr first.coloured (fun e isOwn => ?_) fun y inQueue => second.same y ?_
          · rw [queueOf_own isOwn]
            rfl
          · rw [inQueue]
            nofun
      | readWait =>
          rw [readWait_own isFunction]
          exact ListHeads.Standing.initOwn readRep (outside .readWait (readWait_own isFunction))
  | rawTtyWrite =>
      have start : (callStart c k tty mem others).kernel = k.initWaitqueueEntry (ttyEntry c.task .fgWait) := by
        rw [callStart, isFunction]
      have same : (callStart c k tty mem others).others = others := by rw [callStart, isFunction]
      simp only [CallState.Stands, start, same]
      refine ⟨first.coloured, fun q => ?_⟩
      cases q with
      | fgWait => exact fgStands
      | readWait =>
          rw [TtyCall.own, isFunction]
          exact .away readRep nofun

theorem callStart_inv {k : Kernel} {others : WaitQueue → List Node} (calls : Calls c k others) (tty : TtyStruct)
    (mem : Memory) : CallInv c tty.fgPid (k.tasks c.task).pid (callStart c k tty mem others) := by
  obtain ⟨coloured, stands⟩ := callStart_stands calls tty mem
  revert coloured stands
  cases isFunction : c.function with
  | ttyRead =>
      rw [callStart, isFunction]
      exact fun coloured stands => .of_stays coloured (fun q => ⟨false, stands q⟩) rfl rfl (fun _ => rfl) (fun _ => rfl)
        nofun (fun _ => isFunction) nofun rfl
  | rawTtyWrite =>
      rw [callStart, isFunction]
      exact fun coloured stands => .of_stays coloured (fun q => ⟨false, stands q⟩) rfl rfl (fun _ => rfl) (fun _ => rfl)
        nofun nofun (fun _ => isFunction) rfl

end Invariant

/-! The return past `finish_wait` -/

section Fault

open ListHeads

/-- A traversal of a queue that leads through entries to its head comes to its end. -/
theorem rawWakeup_returns {q : WaitQueue} {k : Kernel} {a : Node} {w : List Node} (coloured : k.lists.Coloured queueOf)
    (leads : Leads k.lists.next a w (.waitHead q)) (entries : ∀ x ∈ w, ∃ e, x = .waitEntry e) :
    ∃ k', Kernel.rawWakeup q (w.length + 1) (k.lists.next a) k = some k' := by
  induction w generalizing a k with
  | nil =>
      refine ⟨k, ?_⟩
      rw [show k.lists.next a = _ from leads]
      simp only [Kernel.rawWakeup, if_true]
  | cons x rest ih =>
      obtain ⟨e, rfl⟩ := entries x List.mem_cons_self
      have within := Kernel.wakeUpTask_within coloured queueOf_runNode e.task
      have closed : ∀ y, queueOf y ≠ none → queueOf (k.lists.next y) ≠ none := by
        intro y other
        rwa [(coloured y).1]
      have later : Leads (k.wakeUpTask e.task).2.lists.next (.waitEntry e) rest (.waitHead q) :=
        leads.2.congr fun y member => (within.same y (leads.2.inside closed (Option.some_ne_none _) y member)).1
      obtain ⟨k', returned⟩ := ih within.coloured later fun y member => entries y (List.mem_cons_of_mem _ member)
      refine ⟨k', ?_⟩
      rw [leads.1, Kernel.rawWakeup, if_neg (by rintro ⟨⟩)]
      exact returned

theorem wakeUp_returns {q : WaitQueue} {k : Kernel} {w : List Node} (coloured : k.lists.Coloured queueOf)
    (rep : k.lists.Represents (.waitHead q) w) : ∃ fuel k', k.wakeUp q fuel = some k' := by
  have leads := Ring.leads_home rep
  have closed : ∀ y, queueOf y = some q → queueOf (k.lists.next y) = some q := fun y inQueue =>
    (coloured y).1.trans inQueue
  refine ⟨w.length + 1, rawWakeup_returns coloured leads fun x member => ?_⟩
  have inQueue := leads.inside closed rfl x (List.mem_cons_of_mem _ member)
  cases x with
  | waitEntry e => exact ⟨e, rfl⟩
  | waitHead q' =>
      obtain rfl := Option.some.inj inQueue
      exact absurd member (List.nodup_cons.mp rep.nodup).1
  | runQueue => cases inQueue
  | runNode t => cases inQueue

variable {c : TtyCall} {fgPid pid : Nat} {s : CallState}

theorem callStep_advance (current : s.kernel.currentTask = c.task) : callStep c s .advance = s.advance c :=
  if_pos current

theorem run_two {s₁ s₂ : CallState} (first : callStep c s .advance = some s₁)
    (second : callStep c s₁ .advance = some s₂) :
    run (callStep c) s [.advance, .advance] = some s₂ := by
  rw [run, first, Option.bind_some, run, second]
  rfl

theorem queues_up (inv : CallInv c fgPid pid s) (atPc : s.pc = .readHead) (current : s.kernel.currentTask = c.task)
    (more : s.total < c.count) :
    ∃ s', run (callStep c) s [.advance, .advance] = some s' ∧ CallInv c fgPid pid s' ∧ s'.Stands c .fgWait true ∧
      s'.pc = .readLocked ∧ s'.kernel.currentTask = c.task ∧ s'.tty = s.tty ∧ s'.total = s.total := by
  have isRead := inv.reads (by rw [atPc]; rfl)
  obtain ⟨-, joined, -⟩ := prepare_stands inv fgWait_own
  have first : s.advance c = some { s with
      kernel := s.kernel.prepareToWait .fgWait (ttyEntry c.task .fgWait) .interruptible
      pc := .readPrepare } := by
    rw [CallState.advance, atPc]
    exact if_pos more
  have inv₁ := inv.advanceRead (by rw [atPc]; nofun) (by rw [atPc]; rfl) first
  obtain ⟨-, -, kept⟩ := prepare_stands inv₁ (readWait_own isRead)
  have inv₂ := inv₁.advanceRead nofun rfl rfl
  refine ⟨_, ?_, inv₂, kept .fgWait true nofun joined, rfl, current, rfl, rfl⟩
  exact run_two ((callStep_advance current).trans first) (callStep_advance current)

theorem returns_fault (inv : CallInv c fgPid pid s) (atPc : s.pc = .readLocked)
    (current : s.kernel.currentTask = c.task)
    (some : 0 < c.count) (start : s.total = 0) (foreground : fgPid = pid) (bounded : Bounded s.tty)
    (line : s.tty.canonLines ≠ 0) (unmapped : ¬ c.tables.mapped c.buf = true) :
    ∃ s', run (callStep c) s [.advance, .advance] = Option.some s' ∧ s'.pc = .returned ∧ s'.kernel = s.kernel ∧
      s'.others = s.others := by
  have isFg : isFg s.tty (s.kernel.tasks c.task).pid = true := by
    rw [Tty.isFg, inv.foreground, inv.process, decide_eq_true_eq]
    exact foreground
  have something : (rawTtyRead s.tty (min (c.count - s.total) ttyBounceBufSize)).1 ≠ [] := fun nothing =>
    line (rawTtyRead_nil bounded (Nat.lt_min.mpr ⟨by omega, by decide⟩) nothing)
  have uncopied : ¬ (copyToUser c.tables s.mem s.buf
      (rawTtyRead s.tty (min (c.count - s.total) ttyBounceBufSize)).1).2 <
      (rawTtyRead s.tty (min (c.count - s.total) ttyBounceBufSize)).1.length := by
    rw [copyToUser_some_iff s.mem something, inv.buf start]
    exact unmapped
  have first := callStep_advance current
  rw [CallState.advance, atPc] at first
  dsimp only at first
  rw [lockedRead, if_pos isFg] at first
  have second := callStep_advance (c := c) (s := { s with
    tty := (rawTtyRead s.tty (min (c.count - s.total) ttyBounceBufSize)).2
    bounce := (rawTtyRead s.tty (min (c.count - s.total) ttyBounceBufSize)).1
    linesChanged := (rawTtyRead s.tty (min (c.count - s.total) ttyBounceBufSize)).2.canonLines ≠ s.tty.canonLines
    pc := .readCheck }) current
  rw [CallState.advance] at second
  dsimp only at second
  rw [if_neg fun both => something both.2, if_neg something, if_pos (by omega)] at second
  exact ⟨_, run_two first second, rfl, rfl, rfl⟩

theorem leaves_entry (inv : CallInv c fgPid pid s) (atPc : s.pc = .readHead) (current : s.kernel.currentTask = c.task)
    (some : 0 < c.count) (start : s.total = 0) (foreground : fgPid = pid) (bounded : Bounded s.tty)
    (line : s.tty.canonLines ≠ 0) (unmapped : ¬ c.tables.mapped c.buf = true) :
    ∃ events, ¬ Throughout (callStep c) (Traceless c) s events := by
  obtain ⟨s₁, queued, inv₁, stands, atLocked, current₁, sameTty, sameTotal⟩ := queues_up inv atPc current (by omega)
  rw [← sameTty] at bounded line
  obtain ⟨s₂, faulted, atEnd, sameKernel, sameOthers⟩ :=
    returns_fault inv₁ atLocked current₁ some (sameTotal.trans start)
    foreground bounded line unmapped
  refine ⟨[.advance, .advance] ++ [.advance, .advance], fun always => ?_⟩
  have reached : run (callStep c) s ([.advance, .advance] ++ [.advance, .advance]) = Option.some s₂ := by
    rw [run_append, queued]
    exact faulted
  have left := ((always.last reached).left atEnd .fgWait).1
  rw [sameKernel, sameOthers] at left
  exact stands.not_represents left

theorem wakeUp_currentTask {q : WaitQueue} {k k' : Kernel} {fuel : Nat} (woken : k.wakeUp q fuel = some k') :
    k'.currentTask = k.currentTask :=
  Kernel.rawWakeup_keeps (P := fun k'' => k''.currentTask = k.currentTask)
    (fun k'' t same => (Kernel.wakeUpTask_currentTask t k'').trans same) woken rfl

end Fault

/-- For every task, count, buffer, memory and ring, and for every sequence of key strokes, wake-ups, sleeps and calls of
other tasks: the call leaves no trace in the queues, if and only if it is a write, asks for nothing, has a first byte
that is mapped, or is a call of a task in the background. -/
theorem traceless_iff (c : TtyCall) {k : Kernel} {others : WaitQueue → List Node} (calls : Calls c k others)
    {tty : TtyStruct} (bounded : Bounded tty) (mem : Memory) :
    (∀ events, Throughout (callStep c) (Traceless c) (callStart c k tty mem others) events) ↔
      c.function = .rawTtyWrite ∨ c.count = 0 ∨ c.tables.mapped c.buf = true ∨
        isFg tty (k.tasks c.task).pid = false := by
  have inv := callStart_inv calls tty mem
  constructor
  · intro always
    by_contra! disturbed
    obtain ⟨notWrite, some, unmapped, foreground⟩ := disturbed
    have isRead : c.function = .ttyRead := by
      cases function : c.function with
      | ttyRead => rfl
      | rawTtyWrite => exact absurd function notWrite
    have foreground : tty.fgPid = (k.tasks c.task).pid := by simpa [isFg] using foreground
    have some : 0 < c.count := Nat.pos_of_ne_zero some
    have start : callStart c k tty mem others =
        ⟨(k.initWaitqueueEntry (ttyEntry c.task .fgWait)).initWaitqueueEntry (ttyEntry c.task .readWait), tty, mem, [],
          .readHead, c.buf, 0, [], false, none, others⟩ := by
      rw [callStart, isRead]
    rw [start] at inv always
    by_cases line : tty.canonLines = 0
    · -- A line is typed before the call queues its entries.
      obtain ⟨inside, stands⟩ := inv.stands .readWait
      obtain ⟨w, rep, -⟩ := stands.listed
      obtain ⟨fuel, k', woken⟩ := wakeUp_returns inv.coloured rep
      have typed := (inv.wakeUp (by rintro ⟨⟩) woken).push newline
      have counted : (ttyPushChar tty newline).tty.canonLines ≠ 0 := by
        rw [ttyPushChar_canonLines, if_pos rfl, line]
        decide
      obtain ⟨events, traced⟩ := leaves_entry typed rfl ((wakeUp_currentTask woken).trans calls.current) some rfl
        foreground
        (ttyPushChar_bounded bounded newline) counted unmapped
      refine traced ((always (.push newline fuel :: events)).2 _ ?_)
      simp only [callStep, reduceCtorEq, if_false]
      rw [if_pos (show (ttyPushChar tty newline).newLine = true from rfl), woken]
      rfl
    · obtain ⟨events, traced⟩ := leaves_entry inv rfl calls.current some rfl foreground bounded line unmapped
      exact traced (always events)
  · intro undisturbed events
    have undisturbed : Undisturbed c tty.fgPid (k.tasks c.task).pid := by
      simpa [Undisturbed, isFg] using undisturbed
    exact throughout_of_invariant (callStep_inv undisturbed) (fun _ inv => inv.traceless) inv events

def noPages : PageTables := ⟨fun _ => false, nofun⟩

def faultingRead : TtyCall := ⟨.ttyRead, readerTask, noPages, 0x1000, 10⟩

def runningKernel : Kernel := { (bootKernel 0 id).kthreadRun readerTask 0x10000 with currentTask := readerTask }

theorem runningKernel_calls (c : TtyCall) (isTask : c.task = readerTask) : Calls c runningKernel fun _ => [] := by
  have start : (bootKernel 0 id).lists.Coloured queueOf := fun _ => ⟨rfl, rfl⟩
  have within := Kernel.kthreadRun_within start queueOf_runNode readerTask 0x10000
  refine ⟨isTask.symm, within.coloured, fun q => ?_, fun _ _ _ => List.not_mem_nil⟩
  have empty : (bootKernel 0 id).lists.Represents (.waitHead q) [] := Ring.singleton_iff.mpr ⟨rfl, rfl⟩
  exact ListHeads.Represents.congr_coloured start (fun y inQueue => within.same y (by rw [inQueue]; nofun)) empty

theorem traceless_iff_write : Throughout (callStep { faultingRead with function := .rawTtyWrite })
    (Traceless { faultingRead with function := .rawTtyWrite })
    (callStart { faultingRead with function := .rawTtyWrite } runningKernel ttyInit (fun _ => 0) fun _ => [])
      [.push newline 1, .advance, .advance, .advance] :=
  (traceless_iff _ (runningKernel_calls _ rfl) ttyInit_bounded _).mpr (Or.inl rfl) _

/-- A line is typed, and the read returns `-EFAULT` with its entry in both queues and its task not running. -/
theorem fault_leaves_entries : ((run (callStep faultingRead) (callStart faultingRead runningKernel ttyInit (fun _ => 0)
    fun _ => []) [.push newline 1, .advance, .advance, .advance, .advance]).map fun s =>
      (s.ret, s.kernel.lists.next (.waitHead .fgWait), s.kernel.lists.next (.waitHead .readWait),
        (s.kernel.tasks readerTask).state)) =
      some (some (-eFault), .waitEntry (ttyEntry readerTask .fgWait), .waitEntry (ttyEntry readerTask .readWait),
        .interruptible) := by
  decide +kernel

end SnapOS.Tty
