/- The order in which `__sched_next` selects the tasks of the run queue. -/
import SnapOS.Lib.Turns
import SnapOS.RunQueue

namespace SnapOS.Sched
open SnapOS.Lib

namespace Kernel

def atSchedNext (preempt : Bool) (k : Kernel) : Kernel :=
  if ¬ preempt ∧ (k.tasks k.currentTask).state ≠ .running then k.rawSchedDequeue k.currentTask else k

theorem rawSchedule_eq (preempt : Bool) (k : Kernel) :
    k.rawSchedule preempt = (k.atSchedNext preempt).rawSchedNext.map (switchFrom k.currentTask) := rfl

theorem atSchedNext_currentTask (preempt : Bool) (k : Kernel) :
    (k.atSchedNext preempt).currentTask = k.currentTask := by
  simp only [atSchedNext]
  split_ifs <;> rfl

/-- The rotation moves `u` from the front to the end of the queue, although it was not running, while
`x` waits as well. -/
def Skips (u x : Task) (k : Kernel) : Prop :=
  ∃ rest, k.Queued (u :: rest) ∧ k.currentTask ∉ u :: rest ∧ x ∈ rest

end Kernel

def selected (s : RunState) : SchedEvent → Option Task
  | .schedule => (s.kernel.atSchedNext false).rawSchedNext.map Prod.fst
  | .timer =>
      if s.kernel.cpu.current ≠ s.kernel.schedCurrent then none
      else (s.kernel.atSchedNext true).rawSchedNext.map Prod.fst
  | _ => none

def selections : RunState → List SchedEvent → List Task
  | _, [] => []
  | s, event :: rest =>
      (selected s event).toList ++ ((schedStep s event).map fun t => selections t rest).getD []

def OnQueue (u : Task) (s : RunState) : Prop := ∃ queue, s.kernel.Queued queue ∧ u ∈ queue

def PassedOver (u x : Task) (s : RunState) : SchedEvent → Prop
  | .schedule => (s.kernel.atSchedNext false).Skips u x
  | .timer => (s.kernel.atSchedNext true).Skips u x
  | _ => False

/-- A current task that is on the queue is at its front. -/
structure TurnInv (s : RunState) (queue : List Task) : Prop extends SchedInv s queue where
  front : s.kernel.currentTask ∈ queue → queue.head? = some s.kernel.currentTask

theorem bootState_turnInv (cr3 : Nat) (pgd : Nat → Nat) : TurnInv (bootState cr3 pgd) [] :=
  ⟨bootState_inv cr3 pgd, fun member => by cases member⟩

variable {s s' : RunState} {queue : List Task} {event : SchedEvent}

theorem Kernel.Queued.rawSchedNext {k : Kernel} (queued : k.Queued queue) :
    ∃ k', k.rawSchedNext = some (((queue.rotate 1).head?).getD idleTask, k') ∧
      k'.Queued (queue.rotate 1) ∧ k'.currentTask = k.currentTask := by
  cases queue with
  | nil => exact ⟨k, queued.rawSchedNext_nil, queued, rfl⟩
  | cons a rest =>
      obtain ⟨next, chosen, isHead, queued'⟩ := queued.rawSchedNext_cons
      rw [List.rotate_cons_succ, List.rotate_zero, isHead]
      exact ⟨_, chosen, queued', rfl⟩

/-- The queue that `__sched_next` finds is the old one, or the old one without the current task that was
at its front. -/
theorem TurnInv.atSchedNext (inv : TurnInv s queue) (preempt : Bool) :
    ∃ found, QueueInv (s.kernel.atSchedNext preempt) s.started found ∧
      (queue = found ∨ queue = s.kernel.currentTask :: found) := by
  by_cases leaves : ¬ preempt ∧ (s.kernel.tasks s.kernel.currentTask).state ≠ .running
  · have member : s.kernel.currentTask ∈ queue :=
      inv.current.resolve_left fun isIdle => leaves.2 (isIdle ▸ inv.idle)
    obtain ⟨rest, rfl⟩ := List.head?_eq_some_iff.mp (inv.front member)
    obtain ⟨found, inv', _⟩ := inv.toQueueInv.dequeue member leaves.2
    have same : found = rest := inv'.queued.unique (inv.queued.dequeue [])
    rw [Kernel.atSchedNext, if_pos leaves]
    exact ⟨rest, same ▸ inv', Or.inr rfl⟩
  · rw [Kernel.atSchedNext, if_neg leaves]
    exact ⟨queue, inv.toQueueInv, Or.inl rfl⟩

/-- `__schedule` rotates the queue that it finds and runs the task that is then at the front. -/
theorem TurnInv.rawSchedule (inv : TurnInv s queue) (preempt : Bool) :
    ∃ found k', QueueInv (s.kernel.atSchedNext preempt) s.started found ∧
      (queue = found ∨ queue = s.kernel.currentTask :: found) ∧
      s.kernel.rawSchedule preempt = some k' ∧ TurnInv ⟨k', s.started⟩ (found.rotate 1) ∧
      (s.kernel.atSchedNext preempt).rawSchedNext.map Prod.fst = some k'.currentTask ∧
      k'.currentTask = ((found.rotate 1).head?).getD idleTask := by
  obtain ⟨found, before, origin⟩ := inv.atSchedNext preempt
  obtain ⟨after, chosen, rotated, same⟩ := before.queued.rawSchedNext
  obtain ⟨k', queue', result, inv', _⟩ := before.switch
  rw [Kernel.atSchedNext_currentTask] at result same
  have switched : k' = Kernel.switchFrom s.kernel.currentTask (((found.rotate 1).head?).getD idleTask, after) := by
    rw [chosen, Option.map_some, Option.some_inj] at result
    exact result.symm
  have running : k'.currentTask = ((found.rotate 1).head?).getD idleTask := by
    rw [switched]
    exact Kernel.switchFrom_currentTask same
  have queued' : k'.Queued (found.rotate 1) := by
    rw [switched, Kernel.Queued, Kernel.switchFrom_lists]
    exact rotated
  obtain rfl := inv'.queued.unique queued'
  refine ⟨found, k', before, origin, result, ⟨inv', fun member => ?_⟩, ?_, running⟩
  · obtain ⟨first, rest, split⟩ := List.exists_cons_of_ne_nil (List.ne_nil_of_mem member)
    have atFront : k'.currentTask = first := by rw [running, split, List.head?_cons, Option.getD_some]
    rw [split, List.head?_cons, ← atFront]
  · rw [chosen, Option.map_some, running]

/-- Tasks join at the end, and the current task is not one of them. -/
theorem TurnInv.join (inv : TurnInv s queue) {t : Task} (inv' : SchedInv s' (queue ++ [t]))
    (same : s'.kernel.currentTask = s.kernel.currentTask) (fresh : t ∉ queue) (notIdle : t ≠ idleTask) :
    TurnInv s' (queue ++ [t]) := by
  refine ⟨inv', fun member => ?_⟩
  rw [same] at member ⊢
  have notCurrent : s.kernel.currentTask ≠ t := by
    rintro rfl
    exact inv.current.elim notIdle fresh
  rcases List.mem_append.mp member with old | new
  · obtain ⟨rest, rfl⟩ := List.head?_eq_some_iff.mp (inv.front old)
    rfl
  · exact absurd (List.mem_singleton.mp new) notCurrent

theorem TurnInv.act {f : Task → Kernel → Kernel} (inv : TurnInv s queue)
    (steps : ∀ t k, WaitStep t k (f t k)) (h : s.act f = some s') :
    TurnInv s' (queue ++ []) ∧ s'.kernel.currentTask = s.kernel.currentTask := by
  have inv' := inv.toSchedInv.act steps h
  have same : s'.kernel.currentTask = s.kernel.currentTask := by
    simp only [RunState.act] at h
    split at h
    · cases h
    · obtain rfl := Option.some.inj h
      exact (steps _ _).currentTask
  rw [List.append_nil]
  exact ⟨⟨inv', by rw [same]; exact inv.front⟩, same⟩

structure Turned (s : RunState) (event : SchedEvent) (s' : RunState) (queue found : List Task) : Prop where
  origin : queue = found ∨ queue = s.kernel.currentTask :: found
  inv : TurnInv s' (found.rotate 1)
  chosen : selected s event = some s'.kernel.currentTask
  front : s'.kernel.currentTask = ((found.rotate 1).head?).getD idleTask
  passes : ∀ u x, ¬ PassedOver u x s event → found.head? = some u → s.kernel.currentTask ∉ found → x ≠ u →
    x ∉ found

theorem Kernel.not_mem_of_not_skips {k : Kernel} {u x : Task} (queued : k.Queued queue)
    (fair : ¬ k.Skips u x) (first : queue.head? = some u) (away : k.currentTask ∉ queue) (apart : x ≠ u) :
    x ∉ queue := by
  obtain ⟨rest, rfl⟩ := List.head?_eq_some_iff.mp first
  intro member
  exact fair ⟨rest, queued, away, (List.mem_cons.mp member).resolve_left apart⟩

/-- An event lets a task join the end of the queue, or it rotates the queue and selects the new front. -/
theorem TurnInv.step (inv : TurnInv s queue) (h : schedStep s event = some s') (off : WokenOffQueue s event) :
    (∃ tail, TurnInv s' (queue ++ tail) ∧ s'.kernel.currentTask = s.kernel.currentTask ∧
      selected s event = none) ∨
      ∃ found, Turned s event s' queue found := by
  cases event with
  | kthreadRun t stack =>
      simp only [schedStep] at h
      split at h
      · cases h
      · next new =>
          obtain rfl := Option.some.inj h
          rw [not_or] at new
          have fresh : t ∉ queue := fun member => new.2 (inv.known t member)
          exact Or.inl ⟨[t], inv.join (inv.toSchedInv.kthreadRun stack new.2 new.1) rfl fresh new.1, rfl, rfl⟩
  | initWaitqueueEntry slot =>
      obtain ⟨inv', same⟩ := inv.act (fun t => initWaitqueueEntry_waitStep ⟨t, slot⟩) h
      exact Or.inl ⟨[], inv', same, rfl⟩
  | prepareToWait q slot =>
      obtain ⟨inv', same⟩ := inv.act (fun t => prepareToWait_waitStep q ⟨t, slot⟩ _) h
      exact Or.inl ⟨[], inv', same, rfl⟩
  | finishWait q slot =>
      obtain ⟨inv', same⟩ := inv.act (fun t => finishWait_waitStep q ⟨t, slot⟩) h
      exact Or.inl ⟨[], inv', same, rfl⟩
  | wakeUpTask t =>
      simp only [schedStep] at h
      split at h
      · next known =>
          obtain rfl := Option.some.inj h
          have same := Kernel.wakeUpTask_currentTask t s.kernel
          by_cases asleep : (s.kernel.tasks t).state ≠ .running
          · have fresh := off known asleep queue inv.queued
            have inv' := inv.toSchedInv.wakeUpTask known asleep fresh
            exact Or.inl ⟨[t], inv.join inv' same fresh (inv.notIdle t known), same, rfl⟩
          · refine Or.inl ⟨[], ?_, same, rfl⟩
            simp only [Kernel.wakeUpTask, if_neg asleep, List.append_nil]
            exact inv
      · cases h
  | schedule =>
      obtain ⟨found, k, before, origin, result, inv', chosen, front⟩ := inv.rawSchedule false
      rw [schedStep, Kernel.schedule, result, Option.map_some, Option.some_inj] at h
      subst h
      refine Or.inr ⟨found, origin, inv', chosen, front, fun u x fair first away => ?_⟩
      rw [← Kernel.atSchedNext_currentTask false] at away
      exact Kernel.not_mem_of_not_skips before.queued fair first away
  | timer =>
      obtain ⟨found, k, before, origin, result, inv', chosen, front⟩ := inv.rawSchedule true
      simp only [schedStep, Kernel.timerIrqHandler] at h
      split at h
      · cases h
      · next agrees =>
          rw [result, Option.map_some, Option.some_inj] at h
          subst h
          refine Or.inr ⟨found, origin, inv', (if_neg agrees).trans chosen, front, fun u x fair first away => ?_⟩
          rw [← Kernel.atSchedNext_currentTask true] at away
          exact Kernel.not_mem_of_not_skips before.queued fair first away

/-! From one selection of `x` to the next -/

/-- `u` has not been selected since `x` was, and its turn comes before the next one of `x`. -/
structure Waits (u x : Task) (s : RunState) (queue : List Task) : Prop where
  inv : TurnInv s queue
  notRunning : s.kernel.currentTask ≠ u
  turn : s.kernel.currentTask = x ∧ x ∈ queue ∨ Ahead u x queue

variable {u x : Task}

/-- Unless `u` is passed over, it is still ahead of `x` in the rotated queue. -/
theorem Waits.ahead (waits : Waits u x s queue) (apart : u ≠ x) (on : u ∈ queue) {found : List Task}
    (turned : Turned s event s' queue found) (fair : ¬ PassedOver u x s event) :
    Ahead u x (found.rotate 1) := by
  have distinct : queue.Nodup := waits.inv.queued.nodup
  have passes : s.kernel.currentTask ∉ found → found.head? = some u → x ∉ found := fun away first =>
    turned.passes u x fair first away apart.symm
  rcases turned.origin with rfl | rfl
  · rcases waits.turn with ⟨rfl, member⟩ | ahead
    · obtain ⟨rest, rfl⟩ := List.head?_eq_some_iff.mp (waits.inv.front member)
      exact .rotate_self distinct ((List.mem_cons.mp on).resolve_left apart)
    · refine ahead.rotate fun first => passes (fun member => ?_) first
      exact waits.notRunning (Option.some.inj ((waits.inv.front member).symm.trans first))
  · have away := (List.nodup_cons.mp distinct).1
    refine Ahead.rotate ?_ (passes away)
    rcases waits.turn with ⟨rfl, _⟩ | ahead
    · exact .of_not_mem ((List.mem_cons.mp on).resolve_left apart) away
    · exact (ahead.tail waits.notRunning).2

theorem Waits.selected_ne (waits : Waits u x s queue) (apart : u ≠ x) (on : u ∈ queue) {found : List Task}
    (turned : Turned s event s' queue found) (fair : ¬ PassedOver u x s event) :
    s'.kernel.currentTask ≠ x := by
  have ahead := waits.ahead apart on turned fair
  have notFirst := ahead.head?_ne apart
  obtain ⟨first, rest, split⟩ := List.exists_cons_of_ne_nil (List.ne_nil_of_mem ahead.mem)
  rw [split, List.head?_cons] at notFirst
  rw [turned.front, split, List.head?_cons, Option.getD_some]
  exact fun same => notFirst (congrArg some same)

theorem OnQueue.mem (on : OnQueue u s) (inv : TurnInv s queue) : u ∈ queue := by
  obtain ⟨queue', queued, member⟩ := on
  exact inv.queued.unique queued ▸ member

theorem Waits.step (waits : Waits u x s queue) (apart : u ≠ x) (on : OnQueue u s)
    (h : schedStep s event = some s') (off : WokenOffQueue s event) (fair : ¬ PassedOver u x s event)
    (unselected : selected s event ≠ some u) : ∃ queue', Waits u x s' queue' := by
  rcases waits.inv.step h off with ⟨tail, inv', same, _⟩ | ⟨found, turned⟩
  · refine ⟨queue ++ tail, inv', same ▸ waits.notRunning, ?_⟩
    rw [same]
    exact waits.turn.imp (And.imp_right (List.mem_append_left tail)) (Ahead.append · tail)
  · refine ⟨found.rotate 1, turned.inv, ?_, Or.inr (waits.ahead apart (on.mem waits.inv) turned fair)⟩
    rw [turned.chosen] at unselected
    exact fun same => unselected (congrArg some same)

theorem Waits.run (apart : u ≠ x) {between : List SchedEvent} (waits : ∃ queue, Waits u x s queue)
    (stays : Throughout schedStep (OnQueue u) s between)
    (off : Meets schedStep WokenOffQueue s between)
    (fair : Meets schedStep (fun s event => ¬ PassedOver u x s event) s between)
    (unselected : u ∉ selections s between) (h : run schedStep s between = some s') :
    ∃ queue, Waits u x s' queue := by
  induction between generalizing s with
  | nil => exact Option.some.inj h ▸ waits
  | cons event rest ih =>
      obtain ⟨queue, waits⟩ := waits
      obtain ⟨t, first, later⟩ := run_cons h
      simp only [selections, first, Option.map_some, Option.getD_some, List.mem_append,
        Option.mem_toList, not_or] at unselected
      exact ih (waits.step apart stays.1 first off.1 fair.1 unselected.1) (stays.2 t first) (off.2 t first)
        (fair.2 t first) unselected.2 later

theorem selected_of_step (chosen : selected s event = some x) : ∃ s', schedStep s event = some s' := by
  cases event with
  | schedule =>
      obtain ⟨pair, next, _⟩ := Option.map_eq_some_iff.mp chosen
      rw [schedStep, Kernel.schedule, Kernel.rawSchedule_eq, next, Option.map_some, Option.map_some]
      exact ⟨_, rfl⟩
  | timer =>
      simp only [selected] at chosen
      split at chosen
      · cases chosen
      · next agrees =>
          obtain ⟨pair, next, _⟩ := Option.map_eq_some_iff.mp chosen
          rw [schedStep, Kernel.timerIrqHandler, if_neg agrees, Kernel.rawSchedule_eq, next, Option.map_some,
            Option.map_some]
          exact ⟨_, rfl⟩
  | _ => cases chosen

theorem selected_wokenOffQueue (chosen : selected s event = some x) : WokenOffQueue s event := by
  cases event with
  | wakeUpTask t => cases chosen
  | _ => trivial

theorem TurnInv.turned (inv : TurnInv s queue) (chosen : selected s event = some x)
    (h : schedStep s event = some s') : ∃ found, Turned s event s' queue found := by
  rcases inv.step h (selected_wokenOffQueue chosen) with ⟨tail, inv', same, unselected⟩ | turned
  · cases unselected.symm.trans chosen
  · exact turned

theorem schedStep_turnInv (s : RunState) (event : SchedEvent) (s' : RunState) (inv : ∃ queue, TurnInv s queue)
    (off : WokenOffQueue s event) (h : schedStep s event = some s') : ∃ queue, TurnInv s' queue := by
  obtain ⟨queue, inv⟩ := inv
  rcases inv.step h off with ⟨tail, inv', _⟩ | ⟨found, turned⟩
  · exact ⟨_, inv'⟩
  · exact ⟨_, turned.inv⟩

/-- Right after the selection of `x` all others on the queue wait. -/
theorem Turned.waits {found : List Task} (turned : Turned s event s' queue found)
    (chosen : selected s event = some x) (apart : u ≠ x) (on : OnQueue u s') :
    Waits u x s' (found.rotate 1) := by
  have running : s'.kernel.currentTask = x := Option.some.inj (turned.chosen.symm.trans chosen)
  obtain ⟨first, rest, split⟩ := List.exists_cons_of_ne_nil (List.ne_nil_of_mem (on.mem turned.inv))
  have front : x = first := by
    rw [← running, turned.front, split, List.head?_cons, Option.getD_some]
  refine ⟨turned.inv, running ▸ apart.symm, Or.inl ⟨running, ?_⟩⟩
  rw [split, front]
  exact List.mem_cons_self

/-- What can be seen of `PassedOver` in the pointers. -/
theorem PassedOver.front (passed : PassedOver u x s event) :
    ∃ preempt, (s.kernel.atSchedNext preempt).lists.next .runQueue = .runNode u ∧
      s.kernel.currentTask ≠ u := by
  have seen : ∀ preempt, (s.kernel.atSchedNext preempt).Skips u x →
      (s.kernel.atSchedNext preempt).lists.next .runQueue = .runNode u ∧ s.kernel.currentTask ≠ u := by
    rintro preempt ⟨rest, queued, away, _⟩
    rw [Kernel.atSchedNext_currentTask] at away
    exact ⟨Ring.next_head queued, fun same => away (same ▸ List.mem_cons_self)⟩
  cases event with
  | schedule => exact ⟨false, seen false passed⟩
  | timer => exact ⟨true, seen true passed⟩
  | _ => cases passed

def SchedEvent.woken : SchedEvent → Option Task
  | .wakeUpTask t => some t
  | _ => none

theorem wokenOffQueue_of_queued (here : ∀ t ∈ event.woken, s.kernel.Queued queue ∧ t ∉ queue) :
    WokenOffQueue s event := by
  cases event with
  | wakeUpTask t =>
      obtain ⟨queued, off⟩ := here t rfl
      exact fun _ _ queue' queued' => queued.unique queued' ▸ off
  | _ => trivial

/-- Between two selections of `x` every other task that stays on the run queue is selected, unless it
is passed over while `x` waits. -/
theorem roundRobin_unless_passedOver {cr3 : Nat} {pgd : Nat → Nat} {before between : List SchedEvent}
    {first second : SchedEvent} {s₀ s₁ s₂ : RunState}
    (offQueue : Meets schedStep WokenOffQueue (bootState cr3 pgd) (before ++ first :: between))
    (reached : run schedStep (bootState cr3 pgd) before = some s₀)
    (once : selected s₀ first = some x) (step : schedStep s₀ first = some s₁)
    (later : run schedStep s₁ between = some s₂) (again : selected s₂ second = some x)
    (apart : u ≠ x) (stays : Throughout schedStep (OnQueue u) s₁ between)
    (fair : Meets schedStep (fun s event => ¬ PassedOver u x s event) s₁ (between ++ [second])) :
    u ∈ selections s₁ between := by
  by_contra unselected
  obtain ⟨offBefore, offLater⟩ := meets_append offQueue
  obtain ⟨fairBetween, fairLast⟩ := meets_append fair
  obtain ⟨queue, inv⟩ := run_invariant schedStep_turnInv ⟨[], bootState_turnInv cr3 pgd⟩ offBefore reached
  obtain ⟨found, turned⟩ := inv.turned once step
  obtain ⟨queue₂, waits⟩ := Waits.run apart ⟨_, turned.waits once apart stays.first⟩ stays
    ((offLater s₀ reached).2 s₁ step) fairBetween unselected later
  obtain ⟨s₃, last⟩ := selected_of_step again
  obtain ⟨found₂, turned₂⟩ := waits.inv.turned again last
  have on := (stays.last later).mem waits.inv
  have notAgain := waits.selected_ne apart on turned₂ (fairLast s₂ later).1
  exact notAgain (Option.some.inj (turned₂.chosen.symm.trans again))

def twoTasks : List SchedEvent := [.kthreadRun 1 16, .kthreadRun 2 16]

theorem roundRobin_unless_passedOver_twoTasks :
    ∃ s₀ s₁, run schedStep (bootState 0 id) twoTasks = some s₀ ∧ selected s₀ .schedule = some 2 ∧
      schedStep s₀ .schedule = some s₁ ∧ 1 ∈ selections s₁ [.timer] := by
  have result : (run schedStep (bootState 0 id) twoTasks).map (fun s₀ => (selected s₀ .schedule,
      (schedStep s₀ .schedule).map fun s₁ =>
        (decide (Throughout schedStep (fun s => s.kernel.Queued [2, 1] ∨ s.kernel.Queued [1, 2]) s₁ [.timer]),
          decide (Meets schedStep (fun s _ => ∀ preempt, (s.kernel.atSchedNext preempt).lists.next .runQueue =
            .runNode 1 → s.kernel.currentTask = 1) s₁ [.timer, .timer]),
          (run schedStep s₁ [.timer]).map fun s₂ => selected s₂ .timer))) =
      some (some 2, some (true, true, some (some 2))) := by
    decide +kernel
  obtain ⟨s₀, reached, atFirst⟩ := Option.map_eq_some_iff.mp result
  obtain ⟨once, afterFirst⟩ := Prod.mk.inj atFirst
  obtain ⟨s₁, step, atLast⟩ := Option.map_eq_some_iff.mp afterFirst
  simp only [Prod.mk.injEq, decide_eq_true_eq] at atLast
  obtain ⟨queues, fronts, atSecond⟩ := atLast
  obtain ⟨s₂, later, again⟩ := Option.map_eq_some_iff.mp atSecond
  have offQueue : Meets schedStep (fun s event => ∀ t ∈ event.woken, s.kernel.Queued [] ∧ t ∉ [])
      (bootState 0 id) (twoTasks ++ [.schedule, .timer]) := by
    decide +kernel
  refine ⟨s₀, s₁, reached, once, step, roundRobin_unless_passedOver
    (offQueue.mono fun s event => wokenOffQueue_of_queued) reached once step later again ?_ ?_ ?_⟩
  · decide
  · refine queues.mono fun s queued => ?_
    rcases queued with first | second
    · exact ⟨_, first, by decide⟩
    · exact ⟨_, second, by decide⟩
  · refine fronts.mono fun s event atFront passed => ?_
    obtain ⟨preempt, first, away⟩ := passed.front
    exact away (atFront preempt first)

def twoSleeps : List SchedEvent :=
  [.initWaitqueueEntry 0, .prepareToWait .readWait 0, .schedule, .wakeUpTask 2, .initWaitqueueEntry 0,
    .prepareToWait .readWait 0]

def threeTasks : List SchedEvent := [.kthreadRun 1 16, .kthreadRun 2 16, .kthreadRun 3 16]

/-- Task 3 is on the queue all the time. It is at the front when task 2 goes to sleep and again when
task 1 does, and both times the rotation moves it to the end: task 2 is selected twice, task 3 never. -/
theorem waiting_task_skipped :
    ∃ s₀ s₁ s₂, run schedStep (bootState 0 id) threeTasks = some s₀ ∧ selected s₀ .schedule = some 2 ∧
      schedStep s₀ .schedule = some s₁ ∧ run schedStep s₁ twoSleeps = some s₂ ∧
      selected s₂ .schedule = some 2 ∧
      Meets schedStep WokenOffQueue (bootState 0 id) (threeTasks ++ .schedule :: twoSleeps) ∧
      Throughout schedStep (OnQueue 3) s₁ twoSleeps ∧ selections s₁ twoSleeps = [1] := by
  have result : (run schedStep (bootState 0 id) threeTasks).map (fun s₀ => (selected s₀ .schedule,
      (schedStep s₀ .schedule).map fun s₁ =>
        (decide (Throughout schedStep (fun s => s.kernel.Queued [2, 3, 1] ∨ s.kernel.Queued [1, 3] ∨
          s.kernel.Queued [1, 3, 2]) s₁ twoSleeps), selections s₁ twoSleeps,
          (run schedStep s₁ twoSleeps).map fun s₂ => selected s₂ .schedule))) =
      some (some 2, some (true, [1], some (some 2))) := by
    decide +kernel
  have offQueue : Meets schedStep (fun s event => ∀ t ∈ event.woken, s.kernel.Queued [1, 3] ∧ t ∉ [1, 3])
      (bootState 0 id) (threeTasks ++ .schedule :: twoSleeps) := by
    decide +kernel
  obtain ⟨s₀, reached, atFirst⟩ := Option.map_eq_some_iff.mp result
  obtain ⟨once, afterFirst⟩ := Prod.mk.inj atFirst
  obtain ⟨s₁, step, atLast⟩ := Option.map_eq_some_iff.mp afterFirst
  simp only [Prod.mk.injEq, decide_eq_true_eq] at atLast
  obtain ⟨queues, between, atSecond⟩ := atLast
  obtain ⟨s₂, later, again⟩ := Option.map_eq_some_iff.mp atSecond
  refine ⟨s₀, s₁, s₂, reached, once, step, later, again,
    offQueue.mono fun s event => wokenOffQueue_of_queued, queues.mono fun s queued => ?_, between⟩
  rcases queued with first | second | third
  · exact ⟨_, first, by decide⟩
  · exact ⟨_, second, by decide⟩
  · exact ⟨_, third, by decide⟩

end SnapOS.Sched
