import TsukumoCore.Kernel.List
import TsukumoCore.Kernel.System

/-!
# The idle task: `tkmc_idle_can_halt` of `kernel/task.c`, and `idl_tsk.S`

`Act.yield` is a round of the idle task as one step. Here it is the loop of `idl_tsk.S`, one instruction or
call at a time, with the interrupts that can come in between.
-/

namespace TsukumoCore

/-- The two ends of a queue, as `queue->next` and `queue->prev` name them: `none` is the queue itself. -/
def tkmc_idle_can_halt (k : Kernel) : Bool :=
  let queue := k.ready_queue (CFN_MAX_PRI - 1)
  decide (tkmc_get_highest_priority_task k.toTasks = k.current) && decide (queue.head? = queue.getLast?)

/-- `queue->next == queue->prev`, on the links. -/
def ends_meet (h : Heap) (queue : UINT) : Bool := h.next queue = h.prev queue

/-- What the idle task does next. -/
inductive IdlePc where
  /-- `csrrci s0, mstatus, 8` -/
  | csrrci
  /-- `call tkmc_idle_can_halt`, and the branch on its result -/
  | can_halt
  | wfi
  /-- `csrs mstatus, s0`, with the bit of `MIE` in `s0` -/
  | csrs
  /-- `call tkmc_yield` -/
  | yield
  deriving DecidableEq, Repr

/-- The kernel, the idle task where it is in its loop, and whether a timer or external interrupt that is enabled
in `mie` is pending. -/
structure IdleSystem where
  kernel : Kernel
  pc : IdlePc
  s0 : Bool
  pending : Bool

namespace IdleSystem

/-- The code of the idle task runs, or is interrupted by nothing. -/
def idleRuns (k : Kernel) : Prop := k.isr_depth = 0 ∧ k.current = some idl_tsk

instance (k : Kernel) : Decidable (idleRuns k) := inferInstanceAs (Decidable (_ ∧ _))

/-- The next instruction of the idle task. `wfi` ends when an interrupt is pending, with `MIE` set or clear, and
may end before. -/
def instruction (x : IdleSystem) : IdleSystem :=
  match x.pc with
  | .csrrci => { x with kernel := x.kernel.DI, s0 := x.kernel.mie, pc := .can_halt }
  | .can_halt => { x with pc := if tkmc_idle_can_halt x.kernel then .wfi else .csrs }
  | .wfi => { x with pc := .csrs }
  | .csrs => { x with kernel := x.kernel.EI x.s0, pc := .yield }
  | .yield => { x with kernel := tkmc_yield x.kernel, pc := .csrrci }

end IdleSystem

/-- While the idle task runs, it makes no other calls than those of its loop. -/
def Act.allowsIdle (k : Kernel) : Act → Bool
  | .external_enter | .timer_interrupt .. | .software_interrupt _ | .stack_write _ => true
  | _ => decide (¬ IdleSystem.idleRuns k)

/-- A trap of the timer or of a device. -/
def Act.takes : Act → Bool
  | .external_enter | .timer_interrupt .. => true
  | _ => false

inductive IdleAct where
  | instruction
  /-- An interrupt becomes pending. -/
  | raise
  /-- Something else happens. After a trap another interrupt can be pending. -/
  | other (a : Act) (pending : Bool)

/-- One step of the system with the idle task. -/
def idleStep (e : Entries) (x : IdleSystem) : IdleAct → Option IdleSystem
  | .instruction => if taskRuns x.kernel ∧ x.kernel.current = some idl_tsk then some x.instruction else none
  | .raise => some { x with pending := true }
  | .other a pending =>
    if !a.allowsIdle x.kernel then none
    else if a.takes then
      if x.pending then (step e x.kernel a).map fun k => { x with kernel := k, pending } else none
    else (step e x.kernel a).map fun k => { x with kernel := k }

end TsukumoCore
