import TsukumoCore.Kernel.Types
import TsukumoCore.Lib.Insert

/-!
# The list operations on the task tables

`kernel/list.h`, on the two links of a TCB. A link is on at most one queue, so deleting it takes the
task off whichever queue holds it. Each operation raises `badLink` on a link it may not be used on:
deleting one that is on no queue, and adding or resetting one that is on a queue.
-/

namespace TsukumoCore

namespace Tasks

/-- Records `a` unless `ok`. -/
def check (q : Tasks) (ok : Prop) [Decidable ok] (a : Alarm) : Tasks :=
  { q with alarms := if ok then q.alarms else q.alarms ++ [a] }

def note (q : Tasks) (e : Event) : Tasks := { q with log := q.log ++ [e] }

def setTcb (q : Tasks) (t : TskId) (f : TCB → TCB) : Tasks :=
  { q with tcbs := Function.update q.tcbs t (f (q.tcbs t)) }

/-! ## The link `head` -/

/-- `tkmc_list_del(&tcb->head)` -/
def del_head (q : Tasks) (t : TskId) : Tasks :=
  { q.check ((q.tcbs t).head = .linked) .badLink with
    free_tcb := q.free_tcb.erase t
    ready_queue := fun i => (q.ready_queue i).erase t
    timer_queue := q.timer_queue.erase t
    tcbs := Function.update q.tcbs t { q.tcbs t with head := .poisoned } }

/-- `tkmc_init_list_head(&tcb->head)` -/
def init_head (q : Tasks) (t : TskId) : Tasks :=
  (q.check ((q.tcbs t).head ≠ .linked) .badLink).setTcb t fun c => { c with head := .self }

/-- `head` becomes a link of some queue. -/
def link_head (q : Tasks) (t : TskId) : Tasks :=
  (q.check ((q.tcbs t).head ≠ .linked) .badLink).setTcb t fun c => { c with head := .linked }

/-- `tkmc_list_add_tail(&tcb->head, &tkmc_ready_queue[tcb->itskpri - 1])` -/
def add_ready (q : Tasks) (t : TskId) : Tasks :=
  let q := (q.link_head t).note (.enqueue t)
  let i := (q.tcbs t).level
  { q with ready_queue := Function.update q.ready_queue i (q.ready_queue i ++ [t]) }

/-- `tkmc_list_add_tail(&tcb->head, &tkmc_timer_queue)` -/
def add_timer (q : Tasks) (t : TskId) : Tasks :=
  { q.link_head t with timer_queue := q.timer_queue ++ [t] }

/-- `tkmc_list_add_tail(&tcb->head, &tkmc_free_tcb)` -/
def add_free (q : Tasks) (t : TskId) : Tasks :=
  { q.link_head t with free_tcb := q.free_tcb ++ [t] }

/-! ## The link `winfo.wait_queue` -/

/-- `tkmc_list_del(&tcb->winfo.wait_queue)` -/
def del_wait (q : Tasks) (t : TskId) : Tasks :=
  { q.check ((q.tcbs t).wait_link = .linked) .badLink with
    wait_queue := fun o => (q.wait_queue o).erase t
    tcbs := Function.update q.tcbs t { q.tcbs t with wait_link := .poisoned } }

/-- `tkmc_init_list_head(&tcb->winfo.wait_queue)` -/
def init_wait (q : Tasks) (t : TskId) : Tasks :=
  (q.check ((q.tcbs t).wait_link ≠ .linked) .badLink).setTcb t fun c => { c with wait_link := .self }

def link_wait (q : Tasks) (t : TskId) : Tasks :=
  (q.check ((q.tcbs t).wait_link ≠ .linked) .badLink).setTcb t fun c => { c with wait_link := .linked }

/-- `tkmc_list_add_tail(&tcb->winfo.wait_queue, &object->wait_queue)` -/
def add_wait_tail (q : Tasks) (t : TskId) (o : Obj) : Tasks :=
  { q.link_wait t with wait_queue := Function.update q.wait_queue o (q.wait_queue o ++ [t]) }

/-- `tkmc_list_add(&tcb->winfo.wait_queue, pos->winfo.wait_queue.prev)` -/
def add_wait_before (q : Tasks) (t pos : TskId) (o : Obj) : Tasks :=
  { q.link_wait t with
    wait_queue := Function.update q.wait_queue o (insertBefore t pos (q.wait_queue o)) }

end Tasks

end TsukumoCore
