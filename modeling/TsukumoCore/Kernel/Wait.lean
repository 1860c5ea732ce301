import TsukumoCore.Kernel.Links

/-!
# Choosing the next task, and ending a wait

`tkmc_get_highest_priority_task` and `tkmc_complete_wait` of `kernel/task.c`, and
`tkmc_sem_serve_waiters` of `kernel/semaphore.c`. The last two call each other in C. The walk calls
`tkmc_complete_wait` with `E_OK` only, and with that cause it does not call the walk, so the part that
both run is `release`, and the rest is not recursive.
-/

namespace TsukumoCore

def tkmc_get_highest_priority_task (q : Tasks) : Option TskId :=
  (List.range CFN_MAX_PRI).findSome? fun i => (q.ready_queue i).head?

/-- `next = tkmc_get_highest_priority_task(); if (next != current) dispatch();` -/
def request_switch (k : Kernel) : Kernel :=
  let k := { k with next := tkmc_get_highest_priority_task k.toTasks }
  if k.next ≠ k.current then k.dispatch else k

/-- `next = tkmc_get_highest_priority_task(); dispatch();` -/
def switch_away (k : Kernel) : Kernel :=
  Kernel.dispatch { k with next := tkmc_get_highest_priority_task k.toTasks }

/-- `dispatch_if_needed` of `kernel/mailbox.c`. `tk_sta_tsk` has the same lines. -/
def dispatch_if_needed (k : Kernel) : Kernel :=
  if k.current = none then k else request_switch k

/-- `tkmc_complete_wait`, up to the point where it may serve other waiters. -/
def release (q : Tasks) (t : TskId) (cause : ER) : Tasks :=
  let q := q.check ((q.tcbs t).tskstat = .WAI) .notWaiting
  let q := q.note (.complete t (q.pending t) cause (q.tcbs t).winfo)
  let q := if (q.tcbs t).head ≠ .self then q.del_head t else q
  let q := if (q.tcbs t).wait_link ≠ .self then (q.del_wait t).init_wait t else q
  let q := q.setTcb t fun c =>
    { c with delay_ticks := 0, tskwait := .NONE, wupcause := cause, tskstat := .RDY }
  q.add_ready t

def WaitInfo.semcnt : WaitInfo → Int
  | .semaphore semcnt _ => semcnt
  | _ => 0

/-- `semcb->semcnt += d` -/
def addSemcnt (k : Kernel) (s : SemId) (d : Int) : Kernel :=
  let cnt := (k.semcbs s).semcnt + d
  (k.tasks (·.check (inINT cnt) .intOverflow)).setSem s { k.semcbs s with semcnt := cnt }

/-- The walk of `tkmc_sem_serve_waiters` over the tasks still to visit. The C code fetches the next
one before it handles this one, and handling a task takes no other task off the queue: with `E_OK`,
`tkmc_complete_wait` is `release`. -/
def serve_walk (s : SemId) : List TskId → Kernel → Kernel
  | [], k => k
  | pos :: rest, k =>
    let req := (k.tcbs pos).winfo.semcnt
    if (k.semcbs s).semcnt < req then
      if (k.semcbs s).sematr &&& TA_CNT = 0 then k else serve_walk s rest k
    else
      let k := k.tasks (release · pos .E_OK)
      let k := addSemcnt k s (-req)
      if (k.semcbs s).semcnt ≤ 0 then k else serve_walk s rest k

def tkmc_sem_serve_waiters (k : Kernel) (s : SemId) : Kernel :=
  serve_walk s (k.wait_queue (.sem s)) k

def tkmc_complete_wait (k : Kernel) (t : TskId) (cause : ER) : Kernel :=
  let tskwait := (k.tcbs t).tskwait
  let k := k.tasks (release · t cause)
  if tskwait = .SEM ∧ (cause = .E_TMOUT ∨ cause = .E_RLWAI) then
    match (k.tcbs t).winfo with
    | .semaphore _ s => tkmc_sem_serve_waiters k s
    | _ => k.tasks (·.check False .nullTask)
  else k

end TsukumoCore
