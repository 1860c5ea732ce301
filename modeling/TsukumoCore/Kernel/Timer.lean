import TsukumoCore.Kernel.Task

/-!
# Time: `kernel/timer.c` and `kernel/timer.h`

`read_mtime` gives the machine time, so a function that calls it takes the list `times` of the values it gets,
in order. The list ends where the loop does.
-/

namespace TsukumoCore

abbrev TICK_COUNTS : Nat := 100000

def tkmc_ms_to_ticks (ms : Nat) : Nat := (ms / 10 + (if ms % 10 ≠ 0 then 1 else 0) + 1) % 2 ^ 32

/-! ## The machine timer, one word at a time -/

def in_low (time : Nat) : Nat := time % 2 ^ 32

def in_high (time : Nat) : Nat := time / 2 ^ 32 % 2 ^ 32

/-- `times` has the machine time at each word that is read. The result is the value and the number of reads;
`none` is a loop that has not come to its end. -/
def read_mtime : List Nat → Option (Nat × Nat)
  | time₁ :: time₂ :: time₃ :: rest =>
    let high := in_high time₁
    let low := in_low time₂
    let next_high := in_high time₃
    if high ≠ next_high then (read_mtime rest).map fun r => (r.1, r.2 + 3)
    else some (high <<< 32 ||| low, 3)
  | _ => none

/-- Counts the tick edges from `mtimecmp` up to the times read: the new `mtimecmp` and the count. -/
def pass_elapsed_periods (mtimecmp : Nat) : List Nat → Nat × Nat
  | [] => (mtimecmp, 0)
  | now :: rest =>
    if now ≥ mtimecmp then
      let (cmp, periods) := pass_elapsed_periods ((mtimecmp + TICK_COUNTS) % 2 ^ 64) rest
      (cmp, (periods + 1) % 2 ^ 32)
    else (mtimecmp, 0)

/-! ## The compare register, one word at a time -/

/-- The word at `CLINT_MTIMECMP_ADDRESS`, and the one at `+ 4`. -/
inductive MtimecmpWord where
  | low
  | high

/-- The register after one `out_w` on it. -/
def out_w (reg : Nat) : MtimecmpWord × Nat → Nat
  | (.low, value) => reg / 2 ^ 32 * 2 ^ 32 + value % 2 ^ 32
  | (.high, value) => value % 2 ^ 32 * 2 ^ 32 + reg % 2 ^ 32

/-- The writes of `write_mtimecmp`, in order. -/
def mtimecmp_writes (value : Nat) : List (MtimecmpWord × Nat) :=
  [(.low, 0xffffffff), (.high, value / 2 ^ 32), (.low, value)]

def write_mtimecmp (k : Kernel) (value : Nat) : Kernel :=
  { k with mtimecmp := (mtimecmp_writes value).foldl out_w k.mtimecmp }

def tkmc_start_timer (k : Kernel) (now : Nat) : Kernel :=
  let mtimecmp := (now + TICK_COUNTS) % 2 ^ 64
  write_mtimecmp { k with s_mtimecmp := mtimecmp } mtimecmp

/-! ## The timer queue -/

/-- One step of the scan of `first_deadline`. -/
def earlier (q : Tasks) (first : Option TskId) (t : TskId) : Option TskId :=
  match first with
  | none => some t
  | some f => if (q.tcbs t).delay_ticks < (q.tcbs f).delay_ticks then some t else first

def first_deadline (q : Tasks) : Option TskId := q.timer_queue.foldl (earlier q) none

/-- `tcb->delay_ticks -= step` -/
def subTicks (step : Nat) (q : Tasks) (t : TskId) : Tasks :=
  (q.check (step ≤ (q.tcbs t).delay_ticks) .tickUnderflow).setTcb t fun c =>
    { c with delay_ticks := (c.delay_ticks + 2 ^ 32 - step) % 2 ^ 32 }

/-- The loop over the timer queue that takes `step` off every wait. -/
def pass_ticks (q : Tasks) (step : Nat) : Tasks := q.timer_queue.foldl (subTicks step) q

/-- The loop of `tkmc_timer_handler`: whether a wait ended, and the state. `none` is a loop that has
not come to its end after `fuel` rounds. -/
def timer_loop : Nat → Nat → Bool → Kernel → Option (Bool × Kernel)
  | 0, _, _, _ => none
  | fuel + 1, periods, ended, k =>
    match first_deadline k.toTasks with
    | none => some (ended, k)
    | some first =>
      let ticks := (k.tcbs first).delay_ticks
      let step := if ticks < periods then ticks else periods
      let k := k.tasks (pass_ticks · step)
      let periods := (periods + 2 ^ 32 - step) % 2 ^ 32
      if ticks > step then some (ended, k)
      else timer_loop fuel periods true (tkmc_complete_wait k first .E_TMOUT)

/-- `none` is a handler that does not come back. A round of the loop ends a wait, so as many rounds
as there are tasks, and one more to find the queue empty, are all it can need. -/
def tkmc_timer_handler (k : Kernel) (times : List Nat) : Option Kernel :=
  let (mtimecmp, periods) := pass_elapsed_periods k.s_mtimecmp times
  if periods = 0 then some k
  else
    let k := { k with s_mtimecmp := mtimecmp }
    let k := write_mtimecmp k mtimecmp
    match timer_loop (CFN_MAX_TSKID + 1) periods false k with
    | none => none
    | some (ended, k) => some (if ended then request_switch k else k)

def tkmc_schedule_timer (k : Kernel) (t : TskId) (delay_ticks : Nat) (tskwait : TTW)
    (times : List Nat) : Kernel :=
  let (_, periods) := pass_elapsed_periods k.s_mtimecmp times
  let k := k.tasks fun q =>
    let q := q.check (delay_ticks + periods < 2 ^ 32) .tickOverflow
    let q := q.setTcb t fun c =>
      { c with tskstat := .WAI, tskwait := tskwait, delay_ticks := (delay_ticks + periods) % 2 ^ 32 }
    (q.del_head t).add_timer t
  switch_away k

/-- The wait without a time limit, which the four calls that have one write out. -/
def wait_forever (k : Kernel) (t : TskId) (tskwait : TTW) : Kernel :=
  let k := k.tasks fun q =>
    let q := q.setTcb t fun c => { c with tskstat := .WAI, tskwait := tskwait, delay_ticks := 0 }
    (q.del_head t).init_head t
  switch_away k

/-- How the calls that wait on an object begin the wait: with a time limit or for ever. -/
def begin_wait (k : Kernel) (t : TskId) (tskwait : TTW) (tmout : Int) (times : List Nat) : Kernel :=
  if tmout > 0 then tkmc_schedule_timer k t (tkmc_ms_to_ticks tmout.toNat) tskwait times
  else wait_forever k t tskwait

/-! ## The calls, up to the wait -/

def tk_dly_tsk (k : Kernel) (dlytm : RELTIM) (times : List Nat) : Flow × Kernel :=
  let intsts := k.mie
  let k := k.DI
  if !tkmc_can_block k intsts then (.ret { ercd := .E_CTX }, k.EI intsts)
  else if dlytm = 0 then (.yield, k.EI intsts)
  else match k.current with
    | none => (.ret { ercd := .E_CTX }, k.EI intsts)
    | some t =>
      (.wait, (tkmc_schedule_timer k t (tkmc_ms_to_ticks dlytm.toNat) .DLY times).EI intsts)

def tk_slp_tsk (k : Kernel) (tmout : Int) (times : List Nat) : Flow × Kernel :=
  if tmout < TMO_FEVR then (.ret { ercd := .E_PAR }, k)
  else
    let intsts := k.mie
    let k := k.DI
    if !tkmc_can_block k intsts then (.ret { ercd := .E_CTX }, k.EI intsts)
    else match k.current with
      | none => (.ret { ercd := .E_CTX }, k.EI intsts)
      | some t =>
        if (k.tcbs t).wupcnt > 0 then
          let k := k.tasks (·.setTcb t fun c => { c with wupcnt := c.wupcnt - 1 })
          (.ret { ercd := .E_OK }, k.EI intsts)
        else if tmout > 0 then
          (.wait, (tkmc_schedule_timer k t (tkmc_ms_to_ticks tmout.toNat) .SLP times).EI intsts)
        else if tmout = TMO_POL then (.ret { ercd := .E_TMOUT }, k.EI intsts)
        else (.wait, (wait_forever k t .SLP).EI intsts)

/-! ## The calls, after the wait -/

/-- Reads the cause of the task that runs and resets it. -/
def take_cause (k : Kernel) (t : TskId) : ER × Kernel :=
  ((k.tcbs t).wupcause, k.tasks (·.setTcb t fun c => { c with wupcause := .E_OK }))

def tk_dly_tsk_end (k : Kernel) (t : TskId) : Ret × Kernel :=
  let intsts := k.mie
  let (ercd, k) := take_cause k.DI t
  ({ ercd := if ercd = .E_TMOUT then .E_OK else ercd }, k.EI intsts)

def tk_slp_tsk_end (k : Kernel) (t : TskId) : Ret × Kernel :=
  let intsts := k.mie
  let (ercd, k) := take_cause k.DI t
  ({ ercd }, k.EI intsts)

end TsukumoCore
