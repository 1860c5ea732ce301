import TsukumoCore.System.Boot

/-! # Which task runs, over a run -/

namespace TsukumoCore

variable {b : Boot} {k k' : Kernel}

/-- The switch is settled or requested, for the task that is first. -/
structure Switched (k : Kernel) : Prop where
  first : ∃ t, tkmc_get_highest_priority_task k.toTasks = some t
  settled : k.msip = false → k.current = tkmc_get_highest_priority_task k.toTasks ∧
    ∀ t, k.current = some t → (k.tcbs t).tskstat = .RUN
  requested : k.msip = true → k.next = tkmc_get_highest_priority_task k.toTasks
  installs : k.msip = true → ∀ sp,
    (schedule { k with msip := false } sp).current = tkmc_get_highest_priority_task k.toTasks
  fifo : ∀ i, (k.ready_queue i).Pairwise fun t u => stamp k.log t < stamp k.log u

theorem Inv.switched (h : Inv k) : Switched k := by
  obtain ⟨t, ht⟩ := highest_of_active h.core.tasks.toPlaced h.sched.idle.1
  refine ⟨⟨t, ht⟩, h.sched.settled, h.sched.requested, ?_, h.core.tasks.fifo⟩
  intro hmsip sp
  obtain ⟨old, hold⟩ := h.sched.current
  have hnext : k.next = some t := (h.sched.requested hmsip).trans ht
  unfold schedule
  simp only [hold, hnext]
  exact ht.symm

/-- The state in which the handler of a trap taken in `k` runs. -/
def Kernel.trap (k : Kernel) : Kernel := { k with mie := false, isr_depth := k.isr_depth + 1 }

/-- The handler that a timer interrupt runs in `k`, before the trap looks at MSIP. -/
def handlerRun (k : Kernel) (times : List Nat) : Option Kernel := tkmc_timer_handler k.trap times

/-- **Strict priority.** At the end of every call, handler run and switch, MSIP says if the first task of
the highest ready queue is still to be switched to, and the queues are in the order of enqueueing. -/
theorem strict_priority (h : Reachable b k) :
    Switched k ∧ ∀ times k', handlerRun k times = some k' → Switched k' := by
  refine ⟨h.inv.switched, ?_⟩
  intro times k' hk
  exact (timer_handler_ends h.inv.entered hk).1.switched

theorem strict_priority_exit : ∃ k, sampleRun [.call .ext_tsk []] = some k ∧ k.msip = true ∧
    k.next = tkmc_get_highest_priority_task k.toTasks := by
  obtain ⟨k, hk, hmsip⟩ := sampleRun_of_any [.call .ext_tsk []] (fun k => k.msip = true) (by decide +kernel)
  exact ⟨k, hk, hmsip, (strict_priority (sampleRun_reachable hk)).1.requested hmsip⟩

end TsukumoCore
