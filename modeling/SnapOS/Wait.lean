/- The wait queues of wait.c. -/
import SnapOS.Sched

namespace SnapOS.Sched.Kernel

/-- `init_waitqueue_entry`, for the task on whose stack the entry lies. -/
def initWaitqueueEntry (e : WaitEntry) (k : Kernel) : Kernel :=
  { k with lists := k.lists.initListHead (.waitEntry e) }

def prepareToWait (q : WaitQueue) (e : WaitEntry) (state : TaskState) (k : Kernel) : Kernel :=
  let lists := if k.lists.listEmpty (.waitEntry e) then
      k.lists.listAddTail (.waitEntry e) (.waitHead q)
    else k.lists
  taskSetState e.task state { k with lists := lists }

-- The queue head is only there for its lock.
def finishWait (_q : WaitQueue) (e : WaitEntry) (k : Kernel) : Kernel :=
  let k := taskSetState e.task .running k
  if !k.lists.listEmpty (.waitEntry e) then
    { k with lists := (k.lists.listDel (.waitEntry e)).initListHead (.waitEntry e) }
  else k

/-- The traversal of `__wakeup` from `cur` on, for the `mode` of zero and the `flags` of zero that all
callers use: every entry is woken and none ends the loop. Without a result the traversal has not come
back to the head within `fuel` nodes. -/
def rawWakeup (q : WaitQueue) : Nat → Node → Kernel → Option Kernel
  | 0, _, _ => none
  | fuel + 1, cur, k =>
      if cur = .waitHead q then some k
      else match cur with
        | .waitEntry e =>
            let k := (k.wakeUpTask e.task).2
            rawWakeup q fuel (k.lists.next cur) k
        | _ => none

def wakeUp (q : WaitQueue) (fuel : Nat) (k : Kernel) : Option Kernel :=
  rawWakeup q fuel (k.lists.next (.waitHead q)) k

section Entries

variable (q : WaitQueue) (e : WaitEntry) (k : Kernel)

theorem finishWait_lists : (k.finishWait q e).lists =
    if k.lists.listEmpty (.waitEntry e) then k.lists
    else (k.lists.listDel (.waitEntry e)).initListHead (.waitEntry e) := by
  cases linked : k.lists.listEmpty (.waitEntry e) <;> simp [finishWait, taskSetState, linked]

theorem finishWait_tasks : (k.finishWait q e).tasks = (k.taskSetState e.task .running).tasks := by
  simp only [finishWait]
  split_ifs <;> rfl

theorem prepareToWait_pid (state : TaskState) (t : Task) :
    ((k.prepareToWait q e state).tasks t).pid = (k.tasks t).pid := taskSetState_pid _ _ _ _

theorem finishWait_pid (t : Task) : ((k.finishWait q e).tasks t).pid = (k.tasks t).pid := by
  rw [finishWait_tasks, taskSetState_pid]

theorem finishWait_cpu : (k.finishWait q e).cpu = k.cpu := by
  simp only [finishWait]
  split_ifs <;> rfl

theorem finishWait_currentTask : (k.finishWait q e).currentTask = k.currentTask := by
  simp only [finishWait]
  split_ifs <;> rfl

end Entries

section Colours

open ListHeads

variable {C : Type*} {c : Node → C} {k : Kernel} (coloured : k.lists.Coloured c)
include coloured

theorem initWaitqueueEntry_within (e : WaitEntry) :
    Within c (c (.waitEntry e)) k.lists (k.initWaitqueueEntry e).lists :=
  coloured.initListHead rfl

theorem prepareToWait_within {q : WaitQueue} {e : WaitEntry} (same : c (.waitEntry e) = c (.waitHead q))
    (state : TaskState) : Within c (c (.waitEntry e)) k.lists (k.prepareToWait q e state).lists := by
  simp only [prepareToWait, taskSetState]
  split
  · exact coloured.listAddTail (by intro h; cases h) rfl same.symm
  · exact Within.refl coloured

theorem finishWait_within (q : WaitQueue) (e : WaitEntry) :
    Within c (c (.waitEntry e)) k.lists (k.finishWait q e).lists := by
  rw [finishWait_lists]
  split
  · exact Within.refl coloured
  · have first := coloured.listDel (rfl : c (.waitEntry e) = _)
    exact first.trans (first.coloured.initListHead rfl)

end Colours

section Wakeup

open ListHeads SnapOS.Lib

variable {q : WaitQueue} {k k' : Kernel}

theorem rawWakeup_cases {fuel : Nat} {cur : Node} (h : rawWakeup q fuel cur k = some k') :
    cur = .waitHead q ∧ k' = k ∨ ∃ n e, cur = .waitEntry e ∧ fuel = n + 1 ∧
      rawWakeup q n ((k.wakeUpTask e.task).2.lists.next (.waitEntry e)) (k.wakeUpTask e.task).2 = some k' := by
  cases fuel with
  | zero => cases h
  | succ n =>
      by_cases atHead : cur = .waitHead q
      · simp only [rawWakeup, atHead, if_true, Option.some_inj] at h
        exact Or.inl ⟨atHead, h.symm⟩
      · cases cur with
        | waitEntry e => exact Or.inr ⟨n, e, rfl, rfl, by simpa only [rawWakeup, if_neg atHead] using h⟩
        | _ => simp [rawWakeup, atHead] at h

/-- What every `wake_up_task` keeps, the traversal keeps. -/
theorem rawWakeup_keeps {P : Kernel → Prop} (keeps : ∀ k t, P k → P (k.wakeUpTask t).2) {fuel : Nat}
    {cur : Node} (h : rawWakeup q fuel cur k = some k') (initial : P k) : P k' := by
  induction fuel generalizing cur k with
  | zero => cases h
  | succ fuel ih =>
      rcases rawWakeup_cases h with ⟨_, rfl⟩ | ⟨n, e, _, same, later⟩
      · exact initial
      · obtain rfl := Nat.succ.inj same
        exact ih later (keeps k e.task initial)

/-- The traversal wakes the task of every entry that the queue leads to. -/
theorem rawWakeup_wakes {C : Type*} {c : Node → C} (runNodes : ∀ t, c (.runNode t) = c .runQueue) {fuel : Nat}
    {a : Node} {front : List Node} {e : WaitEntry} (coloured : k.lists.Coloured c) (other : c a ≠ c .runQueue)
    (leads : Leads k.lists.next a front (.waitEntry e)) (notHead : .waitHead q ∉ front)
    (h : rawWakeup q fuel (k.lists.next a) k = some k') : (k'.tasks e.task).state = .running := by
  induction front generalizing a fuel k with
  | nil =>
      rw [show k.lists.next a = .waitEntry e from leads] at h
      rcases rawWakeup_cases h with ⟨atHead, _⟩ | ⟨n, e', same, _, later⟩
      · cases atHead
      · cases same
        exact rawWakeup_keeps (P := fun k => (k.tasks e.task).state = .running)
          (fun k t => wakeUpTask_awake t) later (wakeUpTask_state e.task k)
  | cons y front ih =>
      rw [leads.1] at h
      rcases rawWakeup_cases h with ⟨atHead, _⟩ | ⟨n, e', rfl, _, later⟩
      · exact absurd (by simp [atHead]) notHead
      · have colour : c (.waitEntry e') ≠ c .runQueue := by
          rw [← leads.1, (coloured a).1]
          exact other
        have within := wakeUpTask_within coloured runNodes e'.task
        have closed : ∀ x, c x ≠ c .runQueue → c (k.lists.next x) ≠ c .runQueue := by
          intro x outside
          rwa [(coloured x).1]
        refine ih within.coloured colour ?_ (fun rest => notHead (List.mem_cons_of_mem _ rest)) later
        exact leads.2.congr fun x member => (within.same x (leads.2.inside closed colour x member)).1

end Wakeup

end SnapOS.Sched.Kernel
