/- The run queue along any interleaving of tasks, interrupts and wake-ups. -/
import SnapOS.Lib.Run
import SnapOS.Wait

namespace SnapOS.Sched
open SnapOS.Lib

structure RunState where
  kernel : Kernel
  started : List Task

/-- The sections of the code that run with interrupts disabled. The current task acts on the wait
queue entries of its own stack. A `wake_up` in an interrupt handler is the list of its
`wake_up_task` calls. -/
inductive SchedEvent where
  | kthreadRun (t : Task) (stack : Nat)
  | initWaitqueueEntry (slot : Nat)
  | prepareToWait (q : WaitQueue) (slot : Nat)
  | finishWait (q : WaitQueue) (slot : Nat)
  | wakeUpTask (t : Task)
  | schedule
  | timer

/-- An action of the running task. The idle task only halts and never waits. -/
def RunState.act (s : RunState) (f : Task → Kernel → Kernel) : Option RunState :=
  if s.kernel.currentTask = idleTask then none
  else some { s with kernel := f s.kernel.currentTask s.kernel }

def schedStep (s : RunState) : SchedEvent → Option RunState
  | .kthreadRun t stack =>
      if t = idleTask ∨ t ∈ s.started then none
      else some ⟨s.kernel.kthreadRun t stack, t :: s.started⟩
  | .initWaitqueueEntry slot => s.act fun t => Kernel.initWaitqueueEntry ⟨t, slot⟩
  | .prepareToWait q slot => s.act fun t => Kernel.prepareToWait q ⟨t, slot⟩ .interruptible
  | .finishWait q slot => s.act fun t => Kernel.finishWait q ⟨t, slot⟩
  | .wakeUpTask t =>
      if t ∈ s.started then some { s with kernel := (s.kernel.wakeUpTask t).2 } else none
  | .schedule => s.kernel.schedule.map fun k => { s with kernel := k }
  | .timer => s.kernel.timerIrqHandler.map fun k => { s with kernel := k }

/-- After `create_idle_task`. Nodes that the code initialises before it reads them start out as
empty lists here, like the two static heads. -/
def bootKernel (cr3 : Nat) (pgd : Nat → Nat) : Kernel :=
  Kernel.createIdleTask ⟨⟨id, id⟩, fun _ => ⟨0, .running, 0, 0⟩, 1, 0, ⟨0, 0, 0⟩, 0, cr3, pgd⟩

def bootState (cr3 : Nat) (pgd : Nat → Nat) : RunState := ⟨bootKernel cr3 pgd, []⟩

/-- `run_queue` is a circular doubly linked list of different tasks. -/
def Kernel.Queued (k : Kernel) (queue : List Task) : Prop :=
  k.lists.Represents .runQueue (queue.map .runNode)

instance (k : Kernel) (queue : List Task) : Decidable (k.Queued queue) :=
  inferInstanceAs (Decidable (Ring k.lists.next k.lists.prev .runQueue (queue.map .runNode)))

/-- The run queue is well formed and has every task that may run. -/
def RunQueueOk (s : RunState) : Prop :=
  ∃ queue, s.kernel.Queued queue ∧
    (∀ t ∈ s.started, t ≠ idleTask → (s.kernel.tasks t).state = .running → t ∈ queue) ∧
    (s.kernel.currentTask ≠ idleTask → s.kernel.currentTask ∈ queue)

/-- A `wake_up_task` that finds its task not running finds it off the run queue. -/
def WokenOffQueue (s : RunState) : SchedEvent → Prop
  | .wakeUpTask t => t ∈ s.started → (s.kernel.tasks t).state ≠ .running →
      ∀ queue, s.kernel.Queued queue → t ∉ queue
  | _ => True

def Node.isWait : Node → Bool
  | .waitHead _ | .waitEntry _ => true
  | _ => false

/-- What holds besides: the wait queues stay among themselves and idle is never asleep. -/
structure QueueInv (k : Kernel) (started queue : List Task) : Prop where
  queued : k.Queued queue
  coloured : k.lists.Coloured Node.isWait
  idle : (k.tasks idleTask).state = .running
  notIdle : ∀ t ∈ started, t ≠ idleTask
  known : ∀ t ∈ queue, t ∈ started
  running : ∀ t ∈ started, (k.tasks t).state = .running → t ∈ queue

structure SchedInv (s : RunState) (queue : List Task) : Prop extends
    QueueInv s.kernel s.started queue where
  current : s.kernel.currentTask = idleTask ∨ s.kernel.currentTask ∈ queue

theorem SchedInv.ok {s : RunState} {queue : List Task} (inv : SchedInv s queue) : RunQueueOk s :=
  ⟨queue, inv.queued, fun t member _ => inv.running t member, fun busy => inv.current.resolve_left busy⟩

theorem bootState_inv (cr3 : Nat) (pgd : Nat → Nat) : SchedInv (bootState cr3 pgd) [] := by
  refine ⟨⟨Ring.singleton_iff.mpr ⟨rfl, rfl⟩, fun _ => ⟨rfl, rfl⟩, rfl, ?_, ?_, ?_⟩, Or.inl rfl⟩
  all_goals intro t member; cases member

variable {queue : List Task}

theorem runNode_mem {t : Task} : Node.runNode t ∈ Node.runQueue :: queue.map .runNode ↔ t ∈ queue := by
  simp

theorem isWait_of_mem {x : Node} (member : x ∈ Node.runQueue :: queue.map .runNode) : x.isWait = false := by
  rcases List.mem_cons.mp member with rfl | inQueue
  · rfl
  · obtain ⟨t, _, rfl⟩ := List.mem_map.mp inQueue
    rfl

theorem isWait_runNode (t : Task) : (Node.runNode t).isWait = Node.runQueue.isWait := rfl

namespace Kernel

variable {k : Kernel} {t : Task}

theorem Queued.enqueue (queued : k.Queued queue) (fresh : t ∉ queue) :
    (k.rawSchedEnqueue t).Queued (queue ++ [t]) := by
  rw [Queued, List.map_append]
  exact ListHeads.Represents.listAddTail queued (mt runNode_mem.mp fresh)

theorem Queued.dequeue (front : List Task) {back : List Task} (queued : k.Queued (front ++ t :: back)) :
    (k.rawSchedDequeue t).Queued (front ++ back) := by
  rw [Queued, List.map_append, List.map_cons] at queued
  rw [Queued, List.map_append]
  exact ListHeads.Represents.listDel queued

theorem Queued.nodup (queued : k.Queued queue) : queue.Nodup :=
  List.Nodup.of_map _ (List.nodup_cons.mp (Ring.nodup queued)).2

theorem Queued.unique {queue' : List Task} (queued : k.Queued queue) (queued' : k.Queued queue') :
    queue = queue' :=
  List.map_injective_iff.mpr (fun _ _ => Node.runNode.inj) (Ring.unique queued queued')

theorem Queued.rawSchedNext_nil (queued : k.Queued []) : k.rawSchedNext = some (idleTask, k) := by
  have empty := (ListHeads.Represents.listEmpty_iff queued).mpr rfl
  rw [Kernel.rawSchedNext, if_pos empty]

theorem Queued.rawSchedNext_cons {a : Task} {rest : List Task} (queued : k.Queued (a :: rest)) :
    ∃ next, k.rawSchedNext = some (next, (k.rawSchedDequeue a).rawSchedEnqueue a) ∧
      (rest ++ [a]).head? = some next ∧ ((k.rawSchedDequeue a).rawSchedEnqueue a).Queued (rest ++ [a]) := by
  have first : k.lists.next .runQueue = .runNode a := Ring.next_head queued
  have busy : ¬ k.lists.listEmpty .runQueue = true := by
    rw [ListHeads.Represents.listEmpty_iff queued]
    simp
  have fresh : a ∉ rest := (List.nodup_cons.mp queued.nodup).1
  have rotated : Queued ((k.rawSchedDequeue a).rawSchedEnqueue a) (rest ++ [a]) :=
    Queued.enqueue (Queued.dequeue [] queued) fresh
  obtain ⟨next, tail, split⟩ : ∃ next tail, rest ++ [a] = next :: tail :=
    List.exists_cons_of_ne_nil (by simp)
  refine ⟨next, ?_, ?_, rotated⟩
  · have chosen : ((k.lists.listDel (.runNode a)).listAddTail (.runNode a) .runQueue).next .runQueue =
        .runNode next := by
      rw [split] at rotated
      exact Ring.next_head rotated
    rw [Kernel.rawSchedNext, if_neg busy, first]
    simp only [chosen, taskEntry, Option.map_some]
    rfl
  · rw [split, List.head?_cons]

end Kernel

variable {k : Kernel} {started : List Task}

theorem QueueInv.dequeue (inv : QueueInv k started queue) {t : Task} (member : t ∈ queue)
    (asleep : (k.tasks t).state ≠ .running) :
    ∃ queue', QueueInv (k.rawSchedDequeue t) started queue' ∧ ∀ u ∈ queue, u ≠ t → u ∈ queue' := by
  obtain ⟨front, back, rfl⟩ := List.append_of_mem member
  have stay : ∀ u ∈ front ++ t :: back, u ≠ t → u ∈ front ++ back := by
    intro u inside other
    rw [List.mem_append, List.mem_cons] at inside
    rcases inside with before | itself | after
    · exact List.mem_append_left back before
    · exact absurd itself other
    · exact List.mem_append_right front after
  refine ⟨front ++ back, ⟨inv.queued.dequeue front,
    (Kernel.rawSchedDequeue_within inv.coloured isWait_runNode t).coloured, inv.idle, inv.notIdle, ?_, ?_⟩, stay⟩
  · intro u inside
    refine inv.known u ?_
    rw [List.mem_append, List.mem_cons]
    exact (List.mem_append.mp inside).imp_right Or.inr
  · intro u known running
    exact stay u (inv.running u known running) fun itself => asleep (itself ▸ running)

theorem QueueInv.rawSchedNext (inv : QueueInv k started queue) :
    ∃ next k' queue', k.rawSchedNext = some (next, k') ∧ k'.currentTask = k.currentTask ∧
      QueueInv k' started queue' ∧ (next = idleTask ∨ next ∈ queue') ∧ ∀ u ∈ queue, u ∈ queue' := by
  cases queue with
  | nil => exact ⟨idleTask, k, [], inv.queued.rawSchedNext_nil, rfl, inv, Or.inl rfl, fun _ => id⟩
  | cons a rest =>
      obtain ⟨next, chosen, isHead, queued⟩ := inv.queued.rawSchedNext_cons
      have same (t : Task) : t ∈ rest ++ [a] ↔ t ∈ a :: rest := by simp [or_comm]
      have coloured := (Kernel.rawSchedNext_within inv.coloured chosen).coloured
      refine ⟨next, _, rest ++ [a], chosen, rfl, ⟨queued, coloured, inv.idle, inv.notIdle, ?_, ?_⟩, ?_, ?_⟩
      · exact fun t member => inv.known t ((same t).mp member)
      · exact fun t known running => (same t).mpr (inv.running t known running)
      · exact Or.inr (List.mem_of_head? isHead)
      · exact fun t => (same t).mpr

/-- A context switch has a task to go to and keeps the invariant. -/
theorem QueueInv.switch (inv : QueueInv k started queue) :
    ∃ k' queue', k.rawSchedNext.map (Kernel.switchFrom k.currentTask) = some k' ∧
      SchedInv ⟨k', started⟩ queue' ∧ ∀ u ∈ queue, u ∈ queue' := by
  obtain ⟨next, after, queue', chosen, same, inv', place, stay⟩ := inv.rawSchedNext
  refine ⟨_, queue', by rw [chosen, Option.map_some], ⟨⟨?_, ?_, ?_, inv'.notIdle, inv'.known, ?_⟩, ?_⟩, stay⟩
  · rw [Kernel.Queued, Kernel.switchFrom_lists]
    exact inv'.queued
  · rw [Kernel.switchFrom_lists]
    exact inv'.coloured
  · rw [Kernel.switchFrom_tasks]
    exact inv'.idle
  · rw [Kernel.switchFrom_tasks]
    exact inv'.running
  · rw [Kernel.switchFrom_currentTask same]
    exact place

/-- Only the current task can leave the queue in `__schedule`, and only if it sleeps. -/
theorem SchedInv.rawSchedule {s : RunState} (inv : SchedInv s queue) (preempt : Bool) :
    ∃ k' queue', s.kernel.rawSchedule preempt = some k' ∧ SchedInv ⟨k', s.started⟩ queue' ∧
      ∀ u ∈ queue, u ∈ queue' ∨ u = s.kernel.currentTask ∧ preempt = false ∧
        (s.kernel.tasks u).state ≠ .running := by
  by_cases stays : preempt = true ∨ (s.kernel.tasks s.kernel.currentTask).state = .running
  · rw [Kernel.rawSchedule_stays stays]
    obtain ⟨k', queue', result, inv', stay⟩ := inv.toQueueInv.switch
    exact ⟨k', queue', result, inv', fun u inside => Or.inl (stay u inside)⟩
  · rw [not_or, Bool.not_eq_true] at stays
    obtain ⟨rfl, asleep⟩ := stays
    have member : s.kernel.currentTask ∈ queue :=
      inv.current.resolve_left fun isIdle => asleep (isIdle ▸ inv.idle)
    obtain ⟨between, inv', others⟩ := inv.toQueueInv.dequeue member asleep
    obtain ⟨k', queue', result, inv'', stay⟩ := inv'.switch
    rw [Kernel.rawSchedule_asleep asleep]
    refine ⟨k', queue', result, inv'', fun u inside => ?_⟩
    by_cases itself : u = s.kernel.currentTask
    · exact Or.inr ⟨itself, rfl, itself ▸ asleep⟩
    · exact Or.inl (stay u (others u inside itself))

section WaitQueues

variable {s : RunState} {t : Task}

/-- The wait queues share no node with the run queue. -/
theorem Kernel.Queued.congr {k' : Kernel} (queued : k.Queued queue)
    (within : ListHeads.Within Node.isWait true k.lists k'.lists) : k'.Queued queue :=
  ListHeads.Represents.congr queued fun x member =>
    within.same x (by rw [isWait_of_mem member]; exact Bool.false_ne_true)

/-- What the wait queue functions do to the rest of the kernel: they may set the state of the
current task and change nodes of wait queues. -/
structure WaitStep (t : Task) (k k' : Kernel) : Prop where
  lists : k.lists.Coloured Node.isWait → ListHeads.Within Node.isWait true k.lists k'.lists
  tasks : ∀ u, u ≠ t → k'.tasks u = k.tasks u
  currentTask : k'.currentTask = k.currentTask

theorem initWaitqueueEntry_waitStep (e : WaitEntry) (k : Kernel) :
    WaitStep e.task k (k.initWaitqueueEntry e) :=
  ⟨fun coloured => Kernel.initWaitqueueEntry_within coloured e, fun _ _ => rfl, rfl⟩

theorem prepareToWait_waitStep (q : WaitQueue) (e : WaitEntry) (state : TaskState) (k : Kernel) :
    WaitStep e.task k (k.prepareToWait q e state) :=
  ⟨fun coloured => Kernel.prepareToWait_within coloured rfl state,
    fun _ other => Kernel.taskSetState_tasks state _ other, rfl⟩

theorem finishWait_waitStep (q : WaitQueue) (e : WaitEntry) (k : Kernel) :
    WaitStep e.task k (k.finishWait q e) := by
  refine ⟨fun coloured => Kernel.finishWait_within coloured q e, fun u other => ?_,
    k.finishWait_currentTask q e⟩
  rw [Kernel.finishWait_tasks]
  exact Kernel.taskSetState_tasks _ k other

/-- Whatever the current task does to its state and to the wait queues, it stays on the run queue. -/
theorem SchedInv.act {f : Task → Kernel → Kernel} (inv : SchedInv s queue)
    (steps : ∀ t k, WaitStep t k (f t k)) {s' : RunState} (h : s.act f = some s') : SchedInv s' queue := by
  simp only [RunState.act] at h
  split at h
  · cases h
  · next busy =>
      obtain rfl := Option.some.inj h
      have step := steps s.kernel.currentTask s.kernel
      have within := step.lists inv.coloured
      refine ⟨⟨inv.queued.congr within, within.coloured, ?_, inv.notIdle, inv.known, ?_⟩, ?_⟩
      · rw [step.tasks idleTask (Ne.symm busy)]
        exact inv.idle
      · intro t known running
        by_cases itself : t = s.kernel.currentTask
        · rw [itself]
          exact inv.current.resolve_left busy
        · rw [step.tasks t itself] at running
          exact inv.running t known running
      · rw [step.currentTask]
        exact inv.current

end WaitQueues

variable {s : RunState} {t : Task}

theorem SchedInv.kthreadRun (inv : SchedInv s queue) (stack : Nat) (fresh : t ∉ s.started)
    (notIdle : t ≠ idleTask) :
    SchedInv ⟨s.kernel.kthreadRun t stack, t :: s.started⟩ (queue ++ [t]) := by
  have off : t ∉ queue := fun member => fresh (inv.known t member)
  have same : ∀ x, x ≠ .runNode t → s.kernel.lists.SameAt (s.kernel.lists.initListHead (.runNode t)) x :=
    fun x outside => ListHeads.sameAt_initListHead outside
  have queued : (s.kernel.lists.initListHead (.runNode t)).Represents .runQueue (queue.map .runNode) :=
    ListHeads.Represents.congr inv.queued fun x member => same x fun itself =>
      off (runNode_mem.mp (itself ▸ member))
  have coloured := (Kernel.kthreadRun_within inv.coloured isWait_runNode t stack).coloured
  refine ⟨⟨Kernel.Queued.enqueue queued off, coloured, ?_, ?_, ?_, ?_⟩, ?_⟩
  · simpa [Kernel.kthreadRun, Kernel.rawSchedEnqueue, Function.update_of_ne notIdle.symm] using inv.idle
  · simpa [notIdle] using inv.notIdle
  · intro u member
    rcases List.mem_append.mp member with old | new
    · exact List.mem_cons_of_mem t (inv.known u old)
    · exact List.mem_cons.mpr (Or.inl (List.mem_singleton.mp new))
  · intro u known running
    rcases List.mem_cons.mp known with rfl | old
    · exact List.mem_append_right queue (List.mem_singleton_self u)
    · have other : u ≠ t := ne_of_mem_of_not_mem old fresh
      simp only [Kernel.kthreadRun, Kernel.rawSchedEnqueue, Function.update_of_ne other] at running
      exact List.mem_append_left [t] (inv.running u old running)
  · exact inv.current.imp_right (List.mem_append_left [t])

theorem SchedInv.wakeUpTask (inv : SchedInv s queue) (known : t ∈ s.started)
    (asleep : (s.kernel.tasks t).state ≠ .running) (off : t ∉ queue) :
    SchedInv { s with kernel := (s.kernel.wakeUpTask t).2 } (queue ++ [t]) := by
  have coloured := (Kernel.wakeUpTask_within inv.coloured isWait_runNode t).coloured
  simp only [Kernel.wakeUpTask, if_pos asleep] at coloured ⊢
  refine ⟨⟨Kernel.Queued.enqueue inv.queued off, coloured, ?_, inv.notIdle, ?_, ?_⟩, ?_⟩
  · change ((s.kernel.taskSetState t .running).tasks idleTask).state = .running
    rw [Kernel.taskSetState_tasks _ _ (inv.notIdle t known).symm]
    exact inv.idle
  · intro u member
    rcases List.mem_append.mp member with old | new
    · exact inv.known u old
    · exact List.mem_singleton.mp new ▸ known
  · intro u knownU running
    by_cases itself : u = t
    · exact List.mem_append_right queue (List.mem_singleton.mpr itself)
    · change ((s.kernel.taskSetState t .running).tasks u).state = .running at running
      rw [Kernel.taskSetState_tasks _ _ itself] at running
      exact List.mem_append_left [t] (inv.running u knownU running)
  · exact inv.current.imp_right (List.mem_append_left [t])

/-- One section of the code keeps the run queue if a woken task was off it. -/
theorem schedStep_inv (s : RunState) (event : SchedEvent) (s' : RunState) (inv : ∃ queue, SchedInv s queue)
    (h : schedStep s event = some s') (off : WokenOffQueue s event) : ∃ queue, SchedInv s' queue := by
  obtain ⟨queue, inv⟩ := inv
  cases event with
  | kthreadRun t stack =>
      simp only [schedStep] at h
      split at h
      · cases h
      · next new =>
          obtain rfl := Option.some.inj h
          rw [not_or] at new
          exact ⟨_, inv.kthreadRun stack new.2 new.1⟩
  | initWaitqueueEntry slot => exact ⟨queue, inv.act (fun t => initWaitqueueEntry_waitStep ⟨t, slot⟩) h⟩
  | prepareToWait q slot => exact ⟨queue, inv.act (fun t => prepareToWait_waitStep q ⟨t, slot⟩ _) h⟩
  | finishWait q slot => exact ⟨queue, inv.act (fun t => finishWait_waitStep q ⟨t, slot⟩) h⟩
  | wakeUpTask t =>
      simp only [schedStep] at h
      split at h
      · next known =>
          obtain rfl := Option.some.inj h
          by_cases asleep : (s.kernel.tasks t).state ≠ .running
          · exact ⟨_, inv.wakeUpTask known asleep (off known asleep queue inv.queued)⟩
          · simp only [Kernel.wakeUpTask, if_neg asleep]
            exact ⟨queue, inv⟩
      · cases h
  | schedule =>
      obtain ⟨k, queue', result, inv', _⟩ := inv.rawSchedule false
      rw [schedStep, Kernel.schedule, result, Option.map_some, Option.some_inj] at h
      exact h ▸ ⟨queue', inv'⟩
  | timer =>
      obtain ⟨k, queue', result, inv', _⟩ := inv.rawSchedule true
      simp only [schedStep, Kernel.timerIrqHandler] at h
      split at h
      · cases h
      · rw [result, Option.map_some, Option.some_inj] at h
        exact h ▸ ⟨queue', inv'⟩

/-- Waking a task that is still on the run queue breaks it at once. -/
theorem wakeUpTask_twice (inv : SchedInv s queue) (asleep : (s.kernel.tasks t).state ≠ .running)
    (on : t ∈ queue) : ¬ RunQueueOk { s with kernel := (s.kernel.wakeUpTask t).2 } := by
  rintro ⟨queue', queued, _⟩
  simp only [Kernel.wakeUpTask, if_pos asleep] at queued
  exact inv.queued.not_listAddTail (List.mem_map_of_mem on) _ queued

theorem schedStep_leaves (s : RunState) (event : SchedEvent) (s' : RunState)
    (inv : ∃ queue, SchedInv s queue) (h : schedStep s event = some s')
    (on : ¬ WokenOffQueue s event) : ¬ RunQueueOk s' := by
  obtain ⟨queue, inv⟩ := inv
  cases event with
  | wakeUpTask t =>
      simp only [WokenOffQueue, not_forall, not_not] at on
      obtain ⟨known, asleep, queue', queued, member⟩ := on
      obtain rfl := inv.queued.unique queued
      simp only [schedStep, if_pos known, Option.some_inj] at h
      exact h ▸ wakeUpTask_twice inv asleep member
  | _ => exact absurd trivial on

theorem schedStep_stuck (s : RunState) (event : SchedEvent) (h : schedStep s event = none) :
    WokenOffQueue s event := by
  cases event with
  | wakeUpTask t =>
      intro known
      simp [schedStep, known] at h
  | _ => trivial

/-- The run queue is well formed in every state of a run, and has every task that may run, if and
only if no `wake_up_task` of the run finds a sleeping task on the queue. -/
theorem runQueue_throughout_iff (cr3 : Nat) (pgd : Nat → Nat) (events : List SchedEvent) :
    Throughout schedStep RunQueueOk (bootState cr3 pgd) events ↔
      Meets schedStep WokenOffQueue (bootState cr3 pgd) events :=
  throughout_iff_guarded (I := fun s => ∃ queue, SchedInv s queue) (fun _ ⟨_, inv⟩ => inv.ok)
    (fun s event _ => schedStep_stuck s event) schedStep_inv schedStep_leaves
    ⟨[], bootState_inv cr3 pgd⟩ events

/-- Task 2 has prepared to wait and has left `tty_read` with an error, or has not yet called
`schedule`, when a key wakes it. -/
def wokenEarly : List SchedEvent :=
  [.kthreadRun 1 16, .kthreadRun 2 16, .schedule, .initWaitqueueEntry 0, .initWaitqueueEntry 1,
    .prepareToWait .fgWait 0, .prepareToWait .readWait 1, .wakeUpTask 2]

/-- The queue then leads from task 2 back to its head: task 1 is lost, although it is running. -/
theorem wokenEarly_breaks_queue :
    ∃ s, run schedStep (bootState 0 id) wokenEarly = some s ∧ ¬ RunQueueOk s := by
  have result : (run schedStep (bootState 0 id) wokenEarly).map (fun s =>
      ((s.kernel.tasks 1).state, decide (1 ∈ s.started), s.kernel.lists.next .runQueue,
        s.kernel.lists.next (.runNode 1))) = some (.running, true, .runNode 2, .runNode 2) := by
    decide +kernel
  obtain ⟨s, reached, seen⟩ := Option.map_eq_some_iff.mp result
  simp only [Prod.mk.injEq, decide_eq_true_eq] at seen
  obtain ⟨running, known, fromHead, fromOne⟩ := seen
  refine ⟨s, reached, ?_⟩
  rintro ⟨queue, queued, all, _⟩
  have member := runNode_mem.mpr (all 1 known (by decide) running)
  have back := Ring.prev_next queued List.mem_cons_self
  have back' := Ring.prev_next queued member
  rw [fromHead] at back
  rw [fromOne, back] at back'
  cases back'

end SnapOS.Sched
