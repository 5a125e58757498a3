/- The processor's own record of the current task, its address space and its kernel stack. -/
import SnapOS.RunQueue

namespace SnapOS.Sched
open SnapOS.Lib

namespace Kernel

/-- `t->mm = mm_create()`, where `mm_create` returns `mm` with the page table `pgd`. -/
def setMm (t : Task) (mm pgd : Nat) (k : Kernel) : Kernel :=
  { k with
    tasks := Function.update k.tasks t { k.tasks t with mm := mm }
    pgd := Function.update k.pgd mm pgd }

def archActivateMm (mm : Nat) (k : Kernel) : Kernel := { k with cr3 := virtToPhys (k.pgd mm) }

end Kernel

/-- `mms` has what `mm_create` has returned so far, and `installing` the tasks that have set their `mm`
and have not activated it yet. -/
structure CpuState extends RunState where
  mms : List Nat
  installing : List Task

/-- An installation is two events of the running task, since the timer may come between them. -/
inductive CpuEvent where
  | sched (event : SchedEvent)
  | mmCreate (mm pgd : Nat)
  | archActivateMm

def cpuStep (s : CpuState) : CpuEvent → Option CpuState
  | .sched event => (schedStep s.toRunState event).map fun r => { s with toRunState := r }
  | .mmCreate mm pgd =>
      if mm = 0 ∨ mm ∈ s.mms ∨ s.kernel.currentTask ∈ s.installing then none
      else some { s with
        kernel := s.kernel.setMm s.kernel.currentTask mm pgd
        mms := mm :: s.mms
        installing := s.kernel.currentTask :: s.installing }
  | .archActivateMm =>
      if s.kernel.currentTask ∈ s.installing then
        some { s with
          kernel := s.kernel.archActivateMm (s.kernel.tasks s.kernel.currentTask).mm
          installing := s.installing.filter (· ≠ s.kernel.currentTask) }
      else none

def bootCpu (cr3 : Nat) (pgd : Nat → Nat) : CpuState := ⟨bootState cr3 pgd, [], []⟩

namespace Kernel

/-- The page table in use is that of the current task, if it has one of its own. -/
def MmLoaded (k : Kernel) : Prop :=
  (k.tasks k.currentTask).mm ≠ 0 → k.cr3 = virtToPhys (k.pgd (k.tasks k.currentTask).mm)

/-- Entries from user space are made on the kernel stack of the current task, if it has one. -/
def StackSet (k : Kernel) : Prop :=
  (k.tasks k.currentTask).kernelStack ≠ 0 →
    k.tssRsp0 = (k.tasks k.currentTask).kernelStack + taskKernelStackSize ∧
      k.cpu.kernelStack = (k.tasks k.currentTask).kernelStack

end Kernel

def CpuFollows (s : CpuState) : Prop :=
  s.kernel.cpu.current = s.kernel.currentTask ∧
    (s.kernel.currentTask ∉ s.installing → s.kernel.MmLoaded) ∧ s.kernel.StackSet

/-! Run nodes of tasks that have not been started are on no list, even when the run queue is broken. -/

/-- The run queue with the tasks that were started, the wait queues, and every other node for itself. -/
def Node.group (started : List Task) : Node → Option (Option Task)
  | .runQueue => none
  | .runNode t => if t ∈ started then none else some (some t)
  | .waitHead _ | .waitEntry _ => some none

theorem Node.group_runNode {started : List Task} {t : Task} (known : t ∈ started) :
    Node.group started (.runNode t) = none := if_pos known

theorem Node.eq_of_group {started : List Task} {t : Task} {x : Node} (same : x.group started = some (some t)) :
    x = .runNode t := by
  cases x with
  | runNode u =>
      simp only [group] at same
      split at same
      · cases same
      · cases same
        rfl
  | _ => cases same

/-- Starting a task moves its node, to which no other node points. -/
theorem Node.group_cons {started : List Task} {t : Task} {x : Node} (other : x ≠ .runNode t) :
    x.group (t :: started) = x.group started := by
  cases x with
  | runNode u =>
      have apart : u ≠ t := fun same => other (same ▸ rfl)
      simp only [group, List.mem_cons, apart, false_or]
  | _ => rfl

variable {k k' : Kernel} {started : List Task} {t : Task}

theorem Kernel.kthreadRun_coloured (coloured : k.lists.Coloured (Node.group started)) (fresh : t ∉ started)
    (stack : Nat) : (k.kthreadRun t stack).lists.Coloured (Node.group (t :: started)) := by
  have alone : Node.group started (.runNode t) = some (some t) := if_neg fresh
  have outside : ∀ x y : Node, x ≠ .runNode t → y.group started = x.group started → y ≠ .runNode t := by
    rintro x y other same rfl
    exact other (Node.eq_of_group (same.symm.trans alone))
  have emptied : (k.lists.initListHead (.runNode t)).Coloured (Node.group (t :: started)) := by
    intro x
    rw [ListHeads.next_initListHead, ListHeads.prev_initListHead]
    split_ifs with itself
    · exact itself ▸ ⟨rfl, rfl⟩
    · obtain ⟨toNext, toPrev⟩ := coloured x
      rw [Node.group_cons (outside x _ itself toNext), Node.group_cons (outside x _ itself toPrev),
        Node.group_cons itself]
      exact ⟨toNext, toPrev⟩
  have apart : Node.runNode t ≠ .runQueue := by intro same; cases same
  exact (emptied.listAddTail apart (Node.group_runNode List.mem_cons_self) rfl).coloured

/-- The rotation never brings the head itself to the front, so there is a task to choose. -/
theorem Kernel.rawSchedNext_some (coloured : k.lists.Coloured (Node.group started)) :
    ∃ next lists, k.rawSchedNext = some (next, { k with lists := lists }) ∧
      lists.Coloured (Node.group started) ∧ (next = idleTask ∨ next ∈ started) := by
  by_cases empty : k.lists.listEmpty .runQueue = true
  · exact ⟨idleTask, k.lists, if_pos empty, coloured, Or.inl rfl⟩
  · have apart : k.lists.next .runQueue ≠ .runQueue := by simpa [ListHeads.listEmpty] using empty
    have removed := coloured.listDel (coloured .runQueue).1
    have rotated := (removed.coloured.listAddTail apart (coloured .runQueue).1 rfl).coloured
    have notHead : ((k.lists.listDel (k.lists.next .runQueue)).listAddTail
        (k.lists.next .runQueue) .runQueue).next .runQueue ≠ .runQueue := by
      rw [ListHeads.next_listAddTail apart, ListHeads.next_listDel, ListHeads.prev_listDel]
      grind
    obtain ⟨next, isTask, known⟩ : ∃ next, ((k.lists.listDel (k.lists.next .runQueue)).listAddTail
        (k.lists.next .runQueue) .runQueue).next .runQueue = .runNode next ∧ next ∈ started := by
      have inside := (rotated .runQueue).1
      generalize ((k.lists.listDel (k.lists.next .runQueue)).listAddTail
        (k.lists.next .runQueue) .runQueue).next .runQueue = x at notHead inside
      cases x with
      | runNode u => exact ⟨u, rfl, by simpa [Node.group] using inside⟩
      | runQueue => exact absurd rfl notHead
      | waitHead q => cases inside
      | waitEntry e => cases inside
    refine ⟨next, _, ?_, rotated, Or.inr known⟩
    rw [Kernel.rawSchedNext, if_neg empty]
    simp only [isTask, Kernel.taskEntry, Option.map_some]

theorem Kernel.switchFrom_cpuCurrent {current : Task} {chosen : Task × Kernel} (moves : chosen.1 ≠ current) :
    (switchFrom current chosen).cpu.current = chosen.1 := by
  simp only [switchFrom, archSwitchTo, if_pos moves]
  split_ifs <;> rfl

theorem Kernel.switchFrom_cr3 {current : Task} {chosen : Task × Kernel} (moves : chosen.1 ≠ current)
    (has : (chosen.2.tasks chosen.1).mm ≠ 0)
    (apart : (chosen.2.tasks chosen.1).mm ≠ (chosen.2.tasks current).mm) :
    (switchFrom current chosen).cr3 =
      virtToPhys ((switchFrom current chosen).pgd (chosen.2.tasks chosen.1).mm) := by
  simp only [switchFrom, archSwitchTo, if_pos moves]
  split_ifs <;> simp_all

theorem Kernel.switchFrom_kernelStack {current : Task} {chosen : Task × Kernel}
    (moves : chosen.1 ≠ current) (has : (chosen.2.tasks chosen.1).kernelStack ≠ 0) :
    (switchFrom current chosen).tssRsp0 = (chosen.2.tasks chosen.1).kernelStack + taskKernelStackSize ∧
      (switchFrom current chosen).cpu.kernelStack = (chosen.2.tasks chosen.1).kernelStack := by
  simp only [switchFrom, archSwitchTo, if_pos moves, if_pos has]
  split_ifs <;> exact ⟨rfl, rfl⟩

/-! One step -/

/-- What the invariant says about the kernel alone. Every `mm` belongs to one task, which is why a
switch between tasks with the same `mm` never happens. -/
structure CpuInv (s : CpuState) : Prop where
  coloured : s.kernel.lists.Coloured (Node.group s.started)
  current : s.kernel.currentTask = idleTask ∨ s.kernel.currentTask ∈ s.started
  known : ∀ t, (s.kernel.tasks t).mm ≠ 0 → (s.kernel.tasks t).mm ∈ s.mms
  own : ∀ t u, (s.kernel.tasks t).mm ≠ 0 → (s.kernel.tasks u).mm = (s.kernel.tasks t).mm → u = t
  follows : CpuFollows s

theorem bootCpu_inv (cr3 : Nat) (pgd : Nat → Nat) : CpuInv (bootCpu cr3 pgd) := by
  have noMm (t : Task) : ((bootKernel cr3 pgd).tasks t).mm = 0 := by
    simp only [bootKernel, Kernel.createIdleTask, Function.update_apply, ite_self]
  have noStack (t : Task) : ((bootKernel cr3 pgd).tasks t).kernelStack = 0 := by
    simp only [bootKernel, Kernel.createIdleTask, Function.update_apply, ite_self]
  refine ⟨fun _ => ⟨rfl, rfl⟩, Or.inl rfl, ?_, ?_, rfl, ?_, ?_⟩
  · exact fun t has => absurd (noMm t) has
  · exact fun t u has => absurd (noMm t) has
  · exact fun _ has => absurd (noMm _) has
  · exact fun has => absurd (noStack _) has

/-- Everything but the lists and the states of tasks is as before. -/
structure Kernel.SameCpu (k k' : Kernel) : Prop where
  currentTask : k'.currentTask = k.currentTask
  cpu : k'.cpu = k.cpu
  tssRsp0 : k'.tssRsp0 = k.tssRsp0
  cr3 : k'.cr3 = k.cr3
  pgd : k'.pgd = k.pgd
  mm : ∀ t, (k'.tasks t).mm = (k.tasks t).mm
  kernelStack : ∀ t, (k'.tasks t).kernelStack = (k.tasks t).kernelStack

theorem Kernel.SameCpu.taskSetState (t : Task) (state : TaskState) (lists : ListHeads Node) (k : Kernel) :
    k.SameCpu (Kernel.taskSetState t state { k with lists := lists }) := by
  refine ⟨rfl, rfl, rfl, rfl, rfl, fun u => ?_, fun u => ?_⟩
  all_goals
    simp only [Kernel.taskSetState, Function.update_apply]
    split_ifs with itself
    · rw [itself]
    · rfl

theorem Kernel.SameCpu.lists (lists : ListHeads Node) (k : Kernel) : k.SameCpu { k with lists := lists } :=
  ⟨rfl, rfl, rfl, rfl, rfl, fun _ => rfl, fun _ => rfl⟩

theorem Kernel.SameCpu.mmLoaded (same : k.SameCpu k') : k'.MmLoaded ↔ k.MmLoaded := by
  rw [MmLoaded, MmLoaded, same.currentTask, same.mm, same.cr3, same.pgd]

theorem Kernel.SameCpu.stackSet (same : k.SameCpu k') : k'.StackSet ↔ k.StackSet := by
  rw [StackSet, StackSet, same.currentTask, same.kernelStack, same.tssRsp0, same.cpu]

variable {s : CpuState}

theorem CpuInv.sameCpu (inv : CpuInv s) (same : s.kernel.SameCpu k')
    (coloured : k'.lists.Coloured (Node.group s.started)) : CpuInv { s with kernel := k' } := by
  obtain ⟨cpuCurrent, loaded, stackSet⟩ := inv.follows
  refine ⟨coloured, ?_, ?_, ?_, ?_, ?_, ?_⟩
  · rw [same.currentTask]
    exact inv.current
  · simp only [same.mm]
    exact inv.known
  · simp only [same.mm]
    exact inv.own
  · rw [same.cpu, same.currentTask]
    exact cpuCurrent
  · rw [same.currentTask, same.mmLoaded]
    exact loaded
  · exact same.stackSet.mpr stackSet

/-- A switch loads whatever the next task needs: with an `mm` of its own it cannot share the one of the
task before it. -/
theorem CpuInv.switchFrom (inv : CpuInv s) {next : Task} {lists : ListHeads Node}
    (coloured : lists.Coloured (Node.group s.started)) (known : next = idleTask ∨ next ∈ s.started) :
    CpuInv { s with kernel :=
      Kernel.switchFrom s.kernel.currentTask (next, { s.kernel with lists := lists }) } := by
  by_cases stays : next = s.kernel.currentTask
  · have same : Kernel.switchFrom s.kernel.currentTask (next, { s.kernel with lists := lists }) =
        { s.kernel with lists := lists } := if_neg (not_not.mpr stays)
    rw [same]
    exact inv.sameCpu (.lists lists s.kernel) coloured
  · have lists' := Kernel.switchFrom_lists s.kernel.currentTask (next, { s.kernel with lists := lists })
    have tasks' := Kernel.switchFrom_tasks s.kernel.currentTask (next, { s.kernel with lists := lists })
    have current' : (Kernel.switchFrom s.kernel.currentTask
        (next, { s.kernel with lists := lists })).currentTask = next := Kernel.switchFrom_currentTask rfl
    refine ⟨?_, ?_, ?_, ?_, ?_, fun _ => ?_, ?_⟩
    · rw [lists']
      exact coloured
    · rw [current']
      exact known
    · rw [tasks']
      exact inv.known
    · rw [tasks']
      exact inv.own
    · rw [current']
      exact Kernel.switchFrom_cpuCurrent stays
    · rw [Kernel.MmLoaded, current', tasks']
      intro has
      refine Kernel.switchFrom_cr3 stays has fun shared => stays ?_
      exact inv.own s.kernel.currentTask next (shared ▸ has) shared
    · rw [Kernel.StackSet, current', tasks']
      exact Kernel.switchFrom_kernelStack stays

theorem CpuInv.rawSchedule (inv : CpuInv s) (preempt : Bool) :
    ∃ k', s.kernel.rawSchedule preempt = some k' ∧ CpuInv { s with kernel := k' } := by
  by_cases stays : preempt = true ∨ (s.kernel.tasks s.kernel.currentTask).state = .running
  · obtain ⟨next, lists, chosen, coloured, known⟩ := Kernel.rawSchedNext_some inv.coloured
    refine ⟨_, ?_, inv.switchFrom coloured known⟩
    rw [Kernel.rawSchedule_stays stays, chosen, Option.map_some]
  · rw [not_or, Bool.not_eq_true] at stays
    obtain ⟨rfl, asleep⟩ := stays
    have dequeued : (s.kernel.rawSchedDequeue s.kernel.currentTask).lists.Coloured (Node.group s.started) :=
      (inv.coloured.listDel rfl).coloured
    obtain ⟨next, lists, chosen, coloured, known⟩ := Kernel.rawSchedNext_some dequeued
    refine ⟨_, ?_, inv.switchFrom coloured known⟩
    rw [Kernel.rawSchedule_asleep asleep, chosen, Option.map_some]
    rfl

theorem CpuInv.kthreadRun (inv : CpuInv s) (stack : Nat) (fresh : t ∉ s.started) (notIdle : t ≠ idleTask) :
    CpuInv { s with kernel := s.kernel.kthreadRun t stack, started := t :: s.started } := by
  obtain ⟨cpuCurrent, loaded, stackSet⟩ := inv.follows
  have notCurrent : s.kernel.currentTask ≠ t := by
    rintro rfl
    exact inv.current.elim notIdle fresh
  have tasks' : (s.kernel.kthreadRun t stack).tasks =
      Function.update s.kernel.tasks t ⟨s.kernel.pidCounter, .running, stack, 0⟩ := rfl
  have noMm : ((s.kernel.kthreadRun t stack).tasks t).mm = 0 := by rw [tasks', Function.update_self]
  have old : ∀ u, u ≠ t → (s.kernel.kthreadRun t stack).tasks u = s.kernel.tasks u := fun u other =>
    Function.update_of_ne other _ _
  refine ⟨Kernel.kthreadRun_coloured inv.coloured fresh stack, ?_, ?_, ?_, cpuCurrent, ?_, ?_⟩
  · exact inv.current.imp_right (List.mem_cons_of_mem t)
  · intro u has
    have other : u ≠ t := fun itself => has (itself ▸ noMm)
    rw [old u other] at has ⊢
    exact inv.known u has
  · intro u v has shared
    have other : u ≠ t := fun itself => has (itself ▸ noMm)
    have other' : v ≠ t := fun itself => has (shared ▸ itself ▸ noMm)
    rw [old u other] at has shared
    rw [old v other'] at shared
    exact inv.own u v has shared
  · intro settled
    rw [Kernel.MmLoaded]
    change (((s.kernel.kthreadRun t stack).tasks s.kernel.currentTask).mm ≠ 0 → s.kernel.cr3 =
      virtToPhys (s.kernel.pgd ((s.kernel.kthreadRun t stack).tasks s.kernel.currentTask).mm))
    rw [old _ notCurrent]
    exact loaded settled
  · rw [Kernel.StackSet]
    change (((s.kernel.kthreadRun t stack).tasks s.kernel.currentTask).kernelStack ≠ 0 →
      s.kernel.tssRsp0 = ((s.kernel.kthreadRun t stack).tasks s.kernel.currentTask).kernelStack +
        taskKernelStackSize ∧
      s.kernel.cpu.kernelStack = ((s.kernel.kthreadRun t stack).tasks s.kernel.currentTask).kernelStack)
    rw [old _ notCurrent]
    exact stackSet

theorem CpuInv.setMm (inv : CpuInv s) {mm : Nat} (pgd : Nat) (notNull : mm ≠ 0) (fresh : mm ∉ s.mms) :
    CpuInv { s with
      kernel := s.kernel.setMm s.kernel.currentTask mm pgd
      mms := mm :: s.mms
      installing := s.kernel.currentTask :: s.installing } := by
  have tasks' : (s.kernel.setMm s.kernel.currentTask mm pgd).tasks = Function.update s.kernel.tasks
      s.kernel.currentTask { s.kernel.tasks s.kernel.currentTask with mm := mm } := rfl
  have mine : ((s.kernel.setMm s.kernel.currentTask mm pgd).tasks s.kernel.currentTask).mm = mm := by
    rw [tasks', Function.update_self]
  have old : ∀ u, u ≠ s.kernel.currentTask →
      (s.kernel.setMm s.kernel.currentTask mm pgd).tasks u = s.kernel.tasks u := fun u other =>
    Function.update_of_ne other _ _
  have unused : ∀ u, (s.kernel.tasks u).mm ≠ mm := by
    rintro u rfl
    exact fresh (inv.known u notNull)
  refine ⟨inv.coloured, inv.current, ?_, ?_, inv.follows.1, ?_, ?_⟩
  · intro u has
    by_cases itself : u = s.kernel.currentTask
    · rw [itself, mine]
      exact List.mem_cons_self
    · rw [old u itself] at has ⊢
      exact List.mem_cons_of_mem mm (inv.known u has)
  · intro u v has shared
    by_cases itself : u = s.kernel.currentTask <;> by_cases itself' : v = s.kernel.currentTask
    · exact itself'.trans itself.symm
    · rw [itself, mine, old v itself'] at shared
      exact absurd shared (unused v)
    · rw [itself', mine, old u itself] at shared
      exact absurd shared.symm (unused u)
    · rw [old u itself] at has shared
      rw [old v itself'] at shared
      exact inv.own u v has shared
  · exact fun settled => absurd List.mem_cons_self settled
  · have stack : ((s.kernel.setMm s.kernel.currentTask mm pgd).tasks s.kernel.currentTask).kernelStack =
        (s.kernel.tasks s.kernel.currentTask).kernelStack := by rw [tasks', Function.update_self]
    rw [Kernel.StackSet, show (s.kernel.setMm s.kernel.currentTask mm pgd).currentTask =
      s.kernel.currentTask from rfl, stack]
    exact inv.follows.2.2

-- The register's value is a variable here: compared with the old one, `virtToPhys` would be computed.
theorem CpuInv.setCr3 (inv : CpuInv s) (installing : List Task) {cr3 : Nat}
    (loaded : cr3 = virtToPhys (s.kernel.pgd (s.kernel.tasks s.kernel.currentTask).mm)) :
    CpuInv { s with kernel := { s.kernel with cr3 := cr3 }, installing := installing } :=
  ⟨inv.coloured, inv.current, inv.known, inv.own, inv.follows.1, fun _ _ => loaded, inv.follows.2.2⟩

theorem CpuInv.archActivateMm (inv : CpuInv s) (installing : List Task) :
    CpuInv { s with
      kernel := s.kernel.archActivateMm (s.kernel.tasks s.kernel.currentTask).mm
      installing := installing } :=
  inv.setCr3 installing rfl

theorem CpuInv.act {f : Task → Kernel → Kernel} (inv : CpuInv s) {r : RunState}
    (quiet : ∀ t (k : Kernel), k.SameCpu (f t k))
    (coloured : ∀ t (k : Kernel), k.lists.Coloured (Node.group s.started) →
      (f t k).lists.Coloured (Node.group s.started))
    (h : s.toRunState.act f = some r) : CpuInv { s with toRunState := r } := by
  simp only [RunState.act] at h
  split at h
  · cases h
  · obtain rfl := Option.some.inj h
    exact inv.sameCpu (quiet _ _) (coloured _ _ inv.coloured)

theorem Kernel.SameCpu.finishWait (q : WaitQueue) (e : WaitEntry) (k : Kernel) : k.SameCpu (k.finishWait q e) := by
  have setState := Kernel.SameCpu.taskSetState e.task .running k.lists k
  simp only [Kernel.finishWait]
  split_ifs
  · exact ⟨rfl, rfl, rfl, rfl, rfl, setState.mm, setState.kernelStack⟩
  · exact setState

theorem CpuInv.wakeUpTask (inv : CpuInv s) (known : t ∈ s.started) :
    CpuInv { s with kernel := (s.kernel.wakeUpTask t).2 } := by
  by_cases asleep : (s.kernel.tasks t).state ≠ .running
  · have apart : Node.runNode t ≠ .runQueue := by intro same; cases same
    have setState := Kernel.SameCpu.taskSetState t .running s.kernel.lists s.kernel
    simp only [Kernel.wakeUpTask, if_pos asleep]
    exact inv.sameCpu ⟨rfl, rfl, rfl, rfl, rfl, setState.mm, setState.kernelStack⟩
      (inv.coloured.listAddTail apart (Node.group_runNode known) rfl).coloured
  · simp only [Kernel.wakeUpTask, if_neg asleep]
    exact inv

theorem CpuInv.sched (inv : CpuInv s) {event : SchedEvent} {r : RunState}
    (h : schedStep s.toRunState event = some r) : CpuInv { s with toRunState := r } := by
  cases event with
  | kthreadRun t stack =>
      simp only [schedStep] at h
      split at h
      · cases h
      · next new =>
          obtain rfl := Option.some.inj h
          rw [not_or] at new
          exact inv.kthreadRun stack new.2 new.1
  | initWaitqueueEntry slot =>
      exact inv.act (fun t k => .lists _ k)
        (fun t k coloured => (Kernel.initWaitqueueEntry_within coloured ⟨t, slot⟩).coloured) h
  | prepareToWait q slot =>
      exact inv.act (fun t k => .taskSetState t .interruptible _ k)
        (fun t k coloured => (Kernel.prepareToWait_within coloured rfl .interruptible).coloured) h
  | finishWait q slot =>
      exact inv.act (fun t => .finishWait q ⟨t, slot⟩)
        (fun t k coloured => (Kernel.finishWait_within coloured q ⟨t, slot⟩).coloured) h
  | wakeUpTask t =>
      simp only [schedStep] at h
      split at h
      · next known => exact Option.some.inj h ▸ inv.wakeUpTask known
      · cases h
  | schedule =>
      obtain ⟨k', result, inv'⟩ := inv.rawSchedule false
      rw [schedStep, Kernel.schedule, result, Option.map_some, Option.some_inj] at h
      exact h ▸ inv'
  | timer =>
      obtain ⟨k', result, inv'⟩ := inv.rawSchedule true
      simp only [schedStep, Kernel.timerIrqHandler] at h
      split at h
      · cases h
      · rw [result, Option.map_some, Option.some_inj] at h
        exact h ▸ inv'

theorem cpuStep_inv (s : CpuState) (event : CpuEvent) (s' : CpuState) (inv : CpuInv s)
    (h : cpuStep s event = some s') : CpuInv s' := by
  cases event with
  | sched event =>
      obtain ⟨r, step, rfl⟩ := Option.map_eq_some_iff.mp h
      exact inv.sched step
  | mmCreate mm pgd =>
      simp only [cpuStep] at h
      split at h
      · cases h
      · next new =>
          obtain rfl := Option.some.inj h
          rw [not_or, not_or] at new
          exact inv.setMm pgd new.1 new.2.1
  | archActivateMm =>
      simp only [cpuStep] at h
      split at h
      · obtain rfl := Option.some.inj h
        exact inv.archActivateMm _
      · cases h

/-- In every state of every run the processor knows the current task, uses its page table unless the
task is still installing it, and enters the kernel on its stack. -/
theorem cpu_follows_currentTask (cr3 : Nat) (pgd : Nat → Nat) (events : List CpuEvent) :
    Throughout cpuStep CpuFollows (bootCpu cr3 pgd) events :=
  throughout_of_invariant cpuStep_inv (fun _ inv => inv.follows) (bootCpu_inv cr3 pgd) events

/-- Nor does a run ever lack a task to switch to: neither `schedule` nor the timer's check of the current
task can fail, even with a broken run queue. -/
theorem rawSchedule_total {cr3 : Nat} {pgd : Nat → Nat} {events : List CpuEvent} {s : CpuState}
    (reached : run cpuStep (bootCpu cr3 pgd) events = some s) :
    (∃ s', cpuStep s (.sched .schedule) = some s') ∧ ∃ s', cpuStep s (.sched .timer) = some s' := by
  have inv : CpuInv s := run_invariant_always cpuStep_inv (bootCpu_inv cr3 pgd) reached
  obtain ⟨k, voluntary, _⟩ := inv.rawSchedule false
  obtain ⟨k', preempted, _⟩ := inv.rawSchedule true
  have agrees : ¬ s.kernel.cpu.current ≠ s.kernel.schedCurrent := not_not.mpr inv.follows.1
  constructor
  · rw [cpuStep, schedStep, Kernel.schedule, voluntary, Option.map_some, Option.map_some]
    exact ⟨_, rfl⟩
  · rw [cpuStep, schedStep, Kernel.timerIrqHandler, if_neg agrees, preempted, Option.map_some, Option.map_some]
    exact ⟨_, rfl⟩

/-- In this run task 1 is lost from the run queue. -/
theorem rawSchedule_total_wokenEarly : ∃ s, run cpuStep (bootCpu 0 id) (wokenEarly.map .sched) = some s ∧
    s.kernel.lists.next .runQueue = .runNode 2 ∧ s.kernel.lists.next (.runNode 2) = .runQueue ∧
    (∃ s', cpuStep s (.sched .schedule) = some s') ∧ ∃ s', cpuStep s (.sched .timer) = some s' := by
  have result : (run cpuStep (bootCpu 0 id) (wokenEarly.map .sched)).map (fun s =>
      (s.kernel.lists.next .runQueue, s.kernel.lists.next (.runNode 2))) = some (.runNode 2, .runQueue) := by
    decide +kernel
  obtain ⟨s, reached, seen⟩ := Option.map_eq_some_iff.mp result
  obtain ⟨first, last⟩ := Prod.mk.inj seen
  exact ⟨s, reached, first, last, rawSchedule_total reached⟩

end SnapOS.Sched
