/- The scheduler of sched.c, and what task.c and arch_switch_to do for it, on one processor. -/
import SnapOS.ListHead
import SnapOS.Platform

namespace SnapOS.Sched

/-- A `task_struct`, by its address. -/
abbrev Task := Nat

def idleTask : Task := 0

inductive TaskState where
  | running
  | interruptible
  deriving DecidableEq, Repr

def taskKernelStackSize : Nat := 4 * pageSize

/-- Null pointers are zero. -/
structure TaskStruct where
  pid : Nat
  state : TaskState
  kernelStack : Nat
  mm : Nat

structure CpuLocalData where
  kernelStack : Nat
  userRsp : Nat
  current : Task

inductive WaitQueue where
  | readWait
  | fgWait
  deriving DecidableEq, Repr

/-- A `wait_queue_entry` on the kernel stack of the task that its `private` field names. -/
structure WaitEntry where
  task : Task
  slot : Nat
  deriving DecidableEq, Repr

/-- Every `list_head` of the scheduler and of the wait queues. -/
inductive Node where
  | runQueue
  | runNode (t : Task)
  | waitHead (q : WaitQueue)
  | waitEntry (e : WaitEntry)
  deriving DecidableEq, Repr

structure Kernel where
  lists : ListHeads Node
  tasks : Task → TaskStruct
  pidCounter : Nat
  currentTask : Task
  cpu : CpuLocalData
  tssRsp0 : Nat
  cr3 : Nat
  pgd : Nat → Nat

namespace Kernel

def taskSetState (t : Task) (state : TaskState) (k : Kernel) : Kernel :=
  { k with tasks := Function.update k.tasks t { k.tasks t with state := state } }

def rawSchedEnqueue (t : Task) (k : Kernel) : Kernel :=
  { k with lists := k.lists.listAddTail (.runNode t) .runQueue }

def rawSchedDequeue (t : Task) (k : Kernel) : Kernel :=
  { k with lists := k.lists.listDel (.runNode t) }

def schedCurrent (k : Kernel) : Task := k.currentTask

/-- `list_entry` of a run node. Any other node is not part of a `task_struct`. -/
def taskEntry : Node → Option Task
  | .runNode t => some t
  | _ => none

def rawSchedNext (k : Kernel) : Option (Task × Kernel) :=
  if k.lists.listEmpty .runQueue then some (idleTask, k)
  else
    let node := k.lists.next .runQueue
    let lists := (k.lists.listDel node).listAddTail node .runQueue
    (taskEntry (lists.next .runQueue)).map fun next => (next, { k with lists := lists })

/-- The switch of stacks is left to the callers: the next task goes on where it stopped. -/
def archSwitchTo (prev next : Task) (k : Kernel) : Kernel :=
  let k := if (k.tasks next).kernelStack ≠ 0 then
      { k with tssRsp0 := (k.tasks next).kernelStack + taskKernelStackSize }
    else k
  if (k.tasks next).mm ≠ 0 ∧ (k.tasks next).mm ≠ (k.tasks prev).mm then
    { k with cr3 := virtToPhys (k.pgd (k.tasks next).mm) }
  else k

/-- What `__schedule` does once the next task is chosen. -/
def switchFrom (current : Task) (chosen : Task × Kernel) : Kernel :=
  let (next, k) := chosen
  if next ≠ current then
    archSwitchTo current next { k with
      currentTask := next
      cpu := { k.cpu with current := next, kernelStack := (k.tasks next).kernelStack } }
  else k

def rawSchedule (preempt : Bool) (k : Kernel) : Option Kernel :=
  let current := k.schedCurrent
  let k := if ¬ preempt ∧ (k.tasks current).state ≠ .running then rawSchedDequeue current k else k
  k.rawSchedNext.map (switchFrom current)

def schedule (k : Kernel) : Option Kernel := rawSchedule false k

/-- Without a result the handler panics. -/
def timerIrqHandler (k : Kernel) : Option Kernel :=
  if k.cpu.current ≠ k.schedCurrent then none else rawSchedule true k

def wakeUpTask (t : Task) (k : Kernel) : Bool × Kernel :=
  if (k.tasks t).state ≠ .running then (true, rawSchedEnqueue t (taskSetState t .running k))
  else (false, k)

def createIdleTask (k : Kernel) : Kernel :=
  { k with
    tasks := Function.update k.tasks idleTask ⟨0, .running, 0, 0⟩
    currentTask := idleTask
    cpu := { k.cpu with current := idleTask } }

/-- `kthread_run` when its allocations succeed, with a new task `t` on a new stack. -/
def kthreadRun (t : Task) (stack : Nat) (k : Kernel) : Kernel :=
  rawSchedEnqueue t { k with
    tasks := Function.update k.tasks t ⟨k.pidCounter, .running, stack, 0⟩
    pidCounter := (k.pidCounter + 1) % 2 ^ 32
    lists := k.lists.initListHead (.runNode t) }

variable {k : Kernel} {t : Task}

theorem taskSetState_tasks {u : Task} (state : TaskState) (k : Kernel) (other : u ≠ t) :
    (k.taskSetState t state).tasks u = k.tasks u :=
  Function.update_of_ne other _ _

theorem taskSetState_pid (t u : Task) (state : TaskState) (k : Kernel) :
    ((k.taskSetState t state).tasks u).pid = (k.tasks u).pid := by
  by_cases itself : u = t
  · subst itself
    simp only [taskSetState, Function.update_self]
  · rw [taskSetState_tasks _ _ itself]

theorem taskSetState_state (state : TaskState) (k : Kernel) :
    ((k.taskSetState t state).tasks t).state = state := by
  simp only [taskSetState, Function.update_self]

theorem rawSchedule_asleep (asleep : (k.tasks k.currentTask).state ≠ .running) :
    k.rawSchedule false =
      (k.rawSchedDequeue k.currentTask).rawSchedNext.map (switchFrom k.currentTask) := by
  simp [rawSchedule, schedCurrent, asleep]

theorem rawSchedule_stays {preempt : Bool}
    (stays : preempt = true ∨ (k.tasks k.currentTask).state = .running) :
    k.rawSchedule preempt = k.rawSchedNext.map (switchFrom k.currentTask) := by
  rcases stays with rfl | awake <;> simp [rawSchedule, schedCurrent, *]

theorem switchFrom_lists (current : Task) (chosen : Task × Kernel) :
    (switchFrom current chosen).lists = chosen.2.lists := by
  simp only [switchFrom, archSwitchTo]
  split_ifs <;> rfl

theorem switchFrom_tasks (current : Task) (chosen : Task × Kernel) :
    (switchFrom current chosen).tasks = chosen.2.tasks := by
  simp only [switchFrom, archSwitchTo]
  split_ifs <;> rfl

theorem switchFrom_currentTask {current : Task} {chosen : Task × Kernel}
    (running : chosen.2.currentTask = current) : (switchFrom current chosen).currentTask = chosen.1 := by
  simp only [switchFrom, archSwitchTo]
  split_ifs <;> simp_all

section Colours

open ListHeads

variable {C : Type*} {c : Node → C} (coloured : k.lists.Coloured c) (runNodes : ∀ t, c (.runNode t) = c .runQueue)
include coloured runNodes

theorem rawSchedEnqueue_within (t : Task) :
    Within c (c .runQueue) k.lists (k.rawSchedEnqueue t).lists :=
  coloured.listAddTail (nofun : Node.runNode t ≠ .runQueue) (runNodes t) rfl

theorem rawSchedDequeue_within (t : Task) :
    Within c (c .runQueue) k.lists (k.rawSchedDequeue t).lists :=
  coloured.listDel (runNodes t)

omit runNodes in
theorem rawSchedNext_within {next : Task} {k' : Kernel} (h : k.rawSchedNext = some (next, k')) :
    Within c (c .runQueue) k.lists k'.lists := by
  simp only [rawSchedNext] at h
  split at h
  · cases h
    exact Within.refl coloured
  · next busy =>
      obtain ⟨t, _, same⟩ := Option.map_eq_some_iff.mp h
      cases same
      have apart : k.lists.next .runQueue ≠ .runQueue := by simpa [listEmpty] using busy
      have inside := (coloured .runQueue).1
      have first := coloured.listDel inside
      exact first.trans (first.coloured.listAddTail apart inside rfl)

theorem rawSchedule_within {preempt : Bool} {k' : Kernel} (h : k.rawSchedule preempt = some k') :
    Within c (c .runQueue) k.lists k'.lists := by
  obtain ⟨⟨next, after⟩, chosen, rfl⟩ := Option.map_eq_some_iff.mp h
  rw [switchFrom_lists]
  split at chosen
  · have first := rawSchedDequeue_within coloured runNodes k.schedCurrent
    exact first.trans (rawSchedNext_within first.coloured chosen)
  · exact rawSchedNext_within coloured chosen

theorem wakeUpTask_within (t : Task) : Within c (c .runQueue) k.lists (k.wakeUpTask t).2.lists := by
  simp only [wakeUpTask]
  split
  · exact rawSchedEnqueue_within (k := k.taskSetState t .running) coloured runNodes t
  · exact Within.refl coloured

theorem kthreadRun_within (t : Task) (stack : Nat) :
    Within c (c .runQueue) k.lists (k.kthreadRun t stack).lists := by
  have first := coloured.initListHead (runNodes t)
  exact first.trans (first.coloured.listAddTail (nofun : Node.runNode t ≠ .runQueue) (runNodes t) rfl)

end Colours

theorem rawSchedNext_same {next : Task} {k' : Kernel} (h : k.rawSchedNext = some (next, k')) :
    k'.cpu = k.cpu ∧ k'.tasks = k.tasks := by
  simp only [rawSchedNext] at h
  split at h
  · cases h
    exact ⟨rfl, rfl⟩
  · obtain ⟨t, _, same⟩ := Option.map_eq_some_iff.mp h
    cases same
    exact ⟨rfl, rfl⟩

theorem rawSchedule_tasks {preempt : Bool} {k' : Kernel} (h : k.rawSchedule preempt = some k') :
    k'.tasks = k.tasks := by
  obtain ⟨⟨next, after⟩, chosen, rfl⟩ := Option.map_eq_some_iff.mp h
  rw [switchFrom_tasks, (rawSchedNext_same chosen).2]
  split_ifs <;> rfl

theorem switchFrom_userRsp (current : Task) (chosen : Task × Kernel) :
    (switchFrom current chosen).cpu.userRsp = chosen.2.cpu.userRsp := by
  simp only [switchFrom, archSwitchTo]
  split_ifs <;> rfl

theorem rawSchedule_userRsp {preempt : Bool} {k' : Kernel} (h : k.rawSchedule preempt = some k') :
    k'.cpu.userRsp = k.cpu.userRsp := by
  obtain ⟨⟨next, after⟩, chosen, rfl⟩ := Option.map_eq_some_iff.mp h
  rw [switchFrom_userRsp, (rawSchedNext_same chosen).1]
  split_ifs <;> rfl

theorem wakeUpTask_currentTask (t : Task) (k : Kernel) :
    (k.wakeUpTask t).2.currentTask = k.currentTask := by
  simp only [wakeUpTask]
  split_ifs <;> rfl

theorem wakeUpTask_pid (t u : Task) (k : Kernel) :
    ((k.wakeUpTask t).2.tasks u).pid = (k.tasks u).pid := by
  simp only [wakeUpTask]
  split_ifs
  · exact taskSetState_pid t u .running k
  · rfl

theorem wakeUpTask_state (t : Task) (k : Kernel) : ((k.wakeUpTask t).2.tasks t).state = .running := by
  by_cases asleep : (k.tasks t).state ≠ .running
  · simp only [wakeUpTask, if_pos asleep]
    exact taskSetState_state .running k
  · simp only [wakeUpTask, if_neg asleep]
    exact not_not.mp asleep

theorem wakeUpTask_awake {u : Task} (t : Task) (awake : (k.tasks u).state = .running) :
    ((k.wakeUpTask t).2.tasks u).state = .running := by
  by_cases itself : u = t
  · subst itself
    exact wakeUpTask_state u k
  · simp only [wakeUpTask]
    split_ifs
    · exact (congrArg TaskStruct.state (taskSetState_tasks .running k itself)).trans awake
    · exact awake

theorem wakeUpTask_cpu (t : Task) (k : Kernel) : (k.wakeUpTask t).2.cpu = k.cpu := by
  simp only [wakeUpTask]
  split_ifs <;> rfl

end Kernel
end SnapOS.Sched
