/- System calls: the user stack pointer between syscall and sysret. -/
import SnapOS.Platform
import SnapOS.RunQueue

namespace SnapOS.Syscall
open SnapOS.Lib SnapOS.Sched

/-- Where a task is. In user mode its stack pointer is in the register while it runs, and in the
interrupt frame on its kernel stack while it is preempted. -/
inductive Thread where
  | kernel
  | user (rsp : Nat)
  | inSyscall
  deriving DecidableEq, Repr

def Thread.isUser : Thread → Bool
  | .user _ => true
  | _ => false

/-- `calls` records, for the statements only, with which stack pointer each pending system call was
entered. No step depends on it. -/
structure SyscallState where
  sched : RunState
  threads : Task → Thread
  calls : List (Task × Nat)

inductive SyscallEvent where
  | sched (event : SchedEvent)
  | iretq
  | userStack (rsp : Nat)
  | syscall
  | sysret

def saveUserRsp (rsp : Nat) (k : Kernel) : Kernel :=
  { k with cpu := { k.cpu with userRsp := rsp } }

def restoreUserRsp (k : Kernel) : Nat := k.cpu.userRsp

/-- What may happen while a task is in user mode. The other sections of the kernel are run by kernel
threads, by the idle task and by system calls. -/
def isInterrupt : SchedEvent → Bool
  | .timer | .wakeUpTask _ => true
  | _ => false

namespace SyscallState

def current (s : SyscallState) : Task := s.sched.kernel.currentTask

def thread (s : SyscallState) : Thread := s.threads s.current

def setThread (s : SyscallState) (thread : Thread) : Task → Thread :=
  Function.update s.threads s.current thread

end SyscallState

def syscallStep (s : SyscallState) : SyscallEvent → Option SyscallState
  | .sched event =>
      if s.thread.isUser && !isInterrupt event then none
      else (schedStep s.sched event).map fun sched => { s with sched := sched }
  | .iretq =>
      -- the end of `ret_from_fork`, on the frame of `arch_update_init_task_context`
      if s.current = idleTask ∨ s.thread ≠ .kernel then none
      else some { s with threads := s.setThread (.user (taskUserStackTopAddr - 8)) }
  | .userStack rsp =>
      if s.thread.isUser then some { s with threads := s.setThread (.user rsp) } else none
  | .syscall =>
      match s.thread with
      | .user rsp => some ⟨{ s.sched with kernel := saveUserRsp rsp s.sched.kernel },
          s.setThread .inSyscall, (s.current, rsp) :: s.calls⟩
      | _ => none
  | .sysret =>
      if s.thread = .inSyscall then
        some { s with
          threads := s.setThread (.user (restoreUserRsp s.sched.kernel))
          calls := s.calls.filter fun call => call.1 ≠ s.current }
      else none

def bootSyscall (cr3 : Nat) (pgd : Nat → Nat) : SyscallState := ⟨bootState cr3 pgd, fun _ => .kernel, []⟩

/-- A `sysret` gives the current task the stack pointer that it had at its `syscall`. -/
def ReturnsOwn (s : SyscallState) : SyscallEvent → Prop
  | .sysret => ∀ entry s', (s.current, entry) ∈ s.calls → syscallStep s .sysret = some s' →
      s'.threads s.current = .user entry
  | _ => True

/-- Whenever a task executes `syscall`, all tasks inside a system call entered it with the same stack
pointer as this one. -/
def SlotAgrees (s : SyscallState) : SyscallEvent → Prop
  | .syscall => ∀ call ∈ s.calls, s.thread = .user call.2
  | _ => True

instance (s : SyscallState) (event : SyscallEvent) : Decidable (SlotAgrees s event) := by
  cases event <;> simp only [SlotAgrees] <;> infer_instance

theorem act_userRsp {s s' : RunState} {f : Task → Kernel → Kernel} (same : ∀ t k, (f t k).cpu = k.cpu)
    (h : s.act f = some s') : s'.kernel.cpu.userRsp = s.kernel.cpu.userRsp := by
  simp only [RunState.act] at h
  split at h
  · cases h
  · obtain rfl := Option.some.inj h
    rw [same]

theorem schedStep_userRsp {s s' : RunState} {event : SchedEvent} (h : schedStep s event = some s') :
    s'.kernel.cpu.userRsp = s.kernel.cpu.userRsp := by
  cases event with
  | kthreadRun t stack =>
      simp only [schedStep] at h
      split at h
      · cases h
      · obtain rfl := Option.some.inj h
        rfl
  | initWaitqueueEntry slot =>
      exact act_userRsp (f := fun t => Kernel.initWaitqueueEntry ⟨t, slot⟩) (fun _ _ => rfl) h
  | prepareToWait q slot =>
      exact act_userRsp (f := fun t => Kernel.prepareToWait q ⟨t, slot⟩ .interruptible) (fun _ _ => rfl) h
  | finishWait q slot => exact act_userRsp (fun t k => k.finishWait_cpu q ⟨t, slot⟩) h
  | wakeUpTask t =>
      simp only [schedStep] at h
      split at h
      · obtain rfl := Option.some.inj h
        rw [Kernel.wakeUpTask_cpu]
      · cases h
  | schedule =>
      obtain ⟨k, switched, rfl⟩ := Option.map_eq_some_iff.mp h
      exact Kernel.rawSchedule_userRsp switched
  | timer =>
      obtain ⟨k, switched, rfl⟩ := Option.map_eq_some_iff.mp h
      simp only [Kernel.timerIrqHandler] at switched
      split at switched
      · cases switched
      · exact Kernel.rawSchedule_userRsp switched

/-- The slot holds the stack pointer of every pending system call. -/
def SlotInv (s : SyscallState) : Prop := ∀ call ∈ s.calls, s.sched.kernel.cpu.userRsp = call.2

theorem syscallStep_inv (s : SyscallState) (event : SyscallEvent) (s' : SyscallState) (inv : SlotInv s)
    (agrees : SlotAgrees s event) (h : syscallStep s event = some s') : SlotInv s' := by
  cases event with
  | sched event =>
      simp only [syscallStep] at h
      split at h
      · cases h
      · obtain ⟨sched, step, rfl⟩ := Option.map_eq_some_iff.mp h
        exact fun call pending => (schedStep_userRsp step).trans (inv call pending)
  | iretq =>
      simp only [syscallStep] at h
      split at h
      · cases h
      · obtain rfl := Option.some.inj h
        exact inv
  | userStack rsp =>
      simp only [syscallStep] at h
      split at h
      · obtain rfl := Option.some.inj h
        exact inv
      · cases h
  | syscall =>
      simp only [syscallStep] at h
      split at h
      · next rsp user =>
          obtain rfl := Option.some.inj h
          intro call pending
          rcases List.mem_cons.mp pending with rfl | old
          · rfl
          · exact Thread.user.inj (user.symm.trans (agrees call old))
      · cases h
  | sysret =>
      simp only [syscallStep] at h
      split at h
      · obtain rfl := Option.some.inj h
        exact fun call pending => inv call (List.mem_filter.mp pending).1
      · cases h

theorem SlotInv.returnsOwn {s : SyscallState} (inv : SlotInv s) (event : SyscallEvent) :
    ReturnsOwn s event := by
  cases event with
  | sysret =>
      intro entry s' pending h
      simp only [syscallStep] at h
      split at h
      · obtain rfl := Option.some.inj h
        simp only [SyscallState.setThread, Function.update_self, restoreUserRsp, inv _ pending]
      · cases h
  | _ => trivial

/-- In every run in which tasks enter system calls only with the stack pointer of all pending ones,
every `sysret` returns on the caller's own stack. -/
theorem sysret_returns_own (cr3 : Nat) (pgd : Nat → Nat) (events : List SyscallEvent)
    (agrees : Meets syscallStep SlotAgrees (bootSyscall cr3 pgd) events) :
    Meets syscallStep ReturnsOwn (bootSyscall cr3 pgd) events :=
  meets_of_invariant syscallStep_inv (fun _ event inv _ => inv.returnsOwn event)
    (fun _ pending => nomatch pending) agrees

/-- Task 2 sleeps in a system call. Task 1 runs meanwhile, makes a system call of its own with `rsp` as
its stack pointer, and sleeps as well; then task 2 is woken and is about to return. -/
def twoCallers (rsp : Nat) : List SyscallEvent :=
  [.sched (.kthreadRun 1 0x10000), .sched (.kthreadRun 2 0x20000), .sched .schedule, .iretq, .syscall,
    .sched (.initWaitqueueEntry 0), .sched (.prepareToWait .readWait 0), .sched .schedule,
    .iretq, .userStack rsp, .syscall,
    .sched (.initWaitqueueEntry 0), .sched (.prepareToWait .readWait 0), .sched .schedule,
    .sched (.wakeUpTask 2), .sched .timer, .sched (.finishWait .readWait 0)]

/-- Two callers with the same stack pointer, each in its own address space. -/
theorem sysret_returns_own_twoCallers :
    (run syscallStep (bootSyscall 0 id) (twoCallers (taskUserStackTopAddr - 8) ++ [.sysret])).isSome ∧
      Meets syscallStep ReturnsOwn (bootSyscall 0 id)
        (twoCallers (taskUserStackTopAddr - 8) ++ [.sysret]) :=
  ⟨by decide +kernel, sysret_returns_own 0 id _ (by decide +kernel)⟩

/-- With another stack pointer for task 1, task 2 returns to its own code on task 1's stack. -/
theorem sleeper_returns_on_other_stack :
    ∃ s s', run syscallStep (bootSyscall 0 id) (twoCallers 0x7FFFFFFFE000) = some s ∧
      s.current = 2 ∧ (2, taskUserStackTopAddr - 8) ∈ s.calls ∧ syscallStep s .sysret = some s' ∧
      s'.threads 2 = .user 0x7FFFFFFFE000 ∧ ¬ ReturnsOwn s .sysret := by
  have result : (run syscallStep (bootSyscall 0 id) (twoCallers 0x7FFFFFFFE000)).map (fun s =>
      (s.current, decide ((2, taskUserStackTopAddr - 8) ∈ s.calls),
        (syscallStep s .sysret).map fun s' => s'.threads 2)) =
      some (2, true, some (.user 0x7FFFFFFFE000)) := by
    decide +kernel
  obtain ⟨s, reached, seen⟩ := Option.map_eq_some_iff.mp result
  simp only [Prod.mk.injEq, decide_eq_true_eq] at seen
  obtain ⟨current, pending, returned⟩ := seen
  obtain ⟨s', step, other⟩ := Option.map_eq_some_iff.mp returned
  refine ⟨s, s', reached, current, pending, step, other, ?_⟩
  intro own
  have := own _ s' (current.symm ▸ pending) step
  rw [current, other] at this
  exact absurd this (by decide)

end SnapOS.Syscall
