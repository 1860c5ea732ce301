import TsukumoCore.Kernel.Mailbox

/-!
# The system: `kernel/start.c`, the trap entries of `start.S`, and the code that runs between them

A kernel call disables interrupts for as long as it touches kernel state, so it is one step. A wait
call is two: up to the `EI()` that lets the requested switch happen, and from the `DI()` after it.
-/

namespace TsukumoCore

/-! ## Boot -/

/-- What the linker and the boot code decide. -/
structure Boot where
  entries : Entries
  ini_tsk_stack : UINT
  idl_tsk_stack : UINT
  a0 : Int
  now : Nat

def tkmc_init_tcb : Tasks where
  tcbs i :=
    { head := .linked, tskid := i + 1, itskpri := 0, tskstat := .NOEXS, tskwait := .NONE,
      sp := NULL, initial_sp := NULL, task := NULL, exinf := NULL, delay_ticks := 0,
      wupcause := .E_OK, wupcnt := 0, wait_link := .self, winfo := .zero }
  free_tcb := List.finRange CFN_MAX_TSKID
  ready_queue _ := []
  timer_queue := []
  wait_queue _ := []
  stack _ _ := 0
  pending _ := none
  log := []
  alarms := []

/-- `tkmc_init_semcb`, `tkmc_init_flgcb` and `tkmc_init_mbxcb`. -/
def init_objects : Objects where
  semcbs i :=
    { semid := BitVec.ofNat 32 (i + 1) ||| NOEXS_MASK, exinf := NULL, sematr := 0, semcnt := 0,
      maxsem := 0 }
  free_semcb := List.finRange CFN_MAX_SEMID
  flgcbs i :=
    { flgid := BitVec.ofNat 32 (i + 1) ||| NOEXS_MASK, exinf := NULL, flgatr := 0, flgptn := 0 }
  free_flbcb := List.finRange CFN_MAX_FLGID
  mbxcbs i :=
    { mbx_queue := [], mbxid := BitVec.ofNat 32 (i + 1) ||| NOEXS_MASK, exinf := NULL, mbxatr := 0 }
  free_mbxcb := List.finRange CFN_MAX_MBXID
  msgpri _ := 0

def init_machine : Machine where
  current := none
  next := none
  msip := false
  mie := false
  isr_depth := 0
  s_mtimecmp := 0
  mtimecmp := 0

/-- Creates and starts one of the two boot tasks. `none` is `tkmc_fatal_startup`. -/
def boot_task (b : Boot) (k : Kernel) (task stack : UINT) (itskpri : Int) : Option Kernel :=
  let pk : T_CTSK :=
    { exinf := NULL, tskatr := TA_USERBUF, task, itskpri, stksz := 512, bufptr := stack }
  let (r, k) := tk_cre_tsk k (some pk)
  if r.ercd ≠ .E_OK ∨ r.id ≤ 0 then none
  else
    let (ercd, k) := tk_sta_tsk b.entries k r.id b.a0
    if ercd ≠ .E_OK then none else some k

def tkmc_start (b : Boot) : Option Kernel := do
  let k : Kernel := { tkmc_init_tcb, init_objects, init_machine with }
  let k ← boot_task b k b.entries.tkmc_ini_tsk b.ini_tsk_stack 1
  let k ← boot_task b k b.entries.tkmc_idl_tsk b.idl_tsk_stack CFN_MAX_PRI
  let t ← tkmc_get_highest_priority_task k.toTasks
  let k := k.tasks (·.setTcb t fun c => { c with tskstat := .RUN })
  let k := tkmc_start_timer { k with current := some t } b.now
  some (k.EI true)

/-- The idle task: the second one `tkmc_start` creates. -/
def idl_tsk : TskId := 1

/-! ## Task switch -/

def schedule (k : Kernel) (sp : UINT) : Kernel :=
  match k.current, k.next with
  | some tmp, some next =>
    let k := k.tasks fun q =>
      let q := q.setTcb tmp fun c =>
        { c with sp := sp, tskstat := if c.tskstat = .RUN then .RDY else c.tskstat }
      (q.setTcb next fun c => { c with tskstat := .RUN }).note (.dispatch next)
    { k with current := some next }
  | _, _ => k.tasks (·.check False .nullTask)

/-- The end of a trap that may switch: if MSIP is up, it is cleared and served. -/
def serve_msip (k : Kernel) (sp : UINT) : Kernel :=
  if k.msip then schedule { k with msip := false } sp else k

/-! ## Calls -/

/-- A call up to its return or its wait. `none` is a call that stops the system. -/
def exec (e : Entries) (k : Kernel) (times : List Nat) : Call → Option (Flow × Kernel)
  | .cre_tsk pk_ctsk => let (r, k) := tk_cre_tsk k pk_ctsk; some (.ret r, k)
  | .sta_tsk tskid stacd => let (ercd, k) := tk_sta_tsk e k tskid stacd; some (.ret { ercd }, k)
  | .ext_tsk => (tk_ext_tsk k).map fun k => (.ret { ercd := .E_OK }, k)
  | .exd_tsk => (tk_exd_tsk k).map fun k => (.ret { ercd := .E_OK }, k)
  | .rel_wai tskid => let (ercd, k) := tk_rel_wai k tskid; some (.ret { ercd }, k)
  | .wup_tsk tskid => let (ercd, k) := tk_wup_tsk k tskid; some (.ret { ercd }, k)
  | .cre_sem pk_csem => let (r, k) := tk_cre_sem k pk_csem; some (.ret r, k)
  | .sig_sem semid cnt => let (ercd, k) := tk_sig_sem k semid cnt; some (.ret { ercd }, k)
  | .del_sem semid => let (ercd, k) := tk_del_sem k semid; some (.ret { ercd }, k)
  | .cre_flg pk_cflg => let (r, k) := tk_cre_flg k pk_cflg; some (.ret r, k)
  | .set_flg flgid setptn => let (ercd, k) := tk_set_flg k flgid setptn; some (.ret { ercd }, k)
  | .clr_flg flgid clrptn => let (ercd, k) := tk_clr_flg k flgid clrptn; some (.ret { ercd }, k)
  | .cre_mbx pk_cmbx => let (r, k) := tk_cre_mbx k pk_cmbx; some (.ret r, k)
  | .snd_mbx mbxid pk_msg => let (ercd, k) := tk_snd_mbx k mbxid pk_msg; some (.ret { ercd }, k)
  | .del_mbx mbxid => let (ercd, k) := tk_del_mbx k mbxid; some (.ret { ercd }, k)
  | .wait (.slp tmout) => some (tk_slp_tsk k tmout times)
  | .wait (.dly dlytm) => some (tk_dly_tsk k dlytm times)
  | .wait (.sem semid cnt tmout) => some (tk_wai_sem k semid cnt tmout times)
  | .wait (.flg flgid waiptn wfmode p_flgptn tmout) =>
    some (tk_wai_flg k flgid waiptn wfmode p_flgptn tmout times)
  | .wait (.mbx mbxid ppk_msg tmout) => some (tk_rcv_mbx k mbxid ppk_msg tmout times)

/-- The rest of a wait call, after the wait. -/
def exec_end (k : Kernel) (t : TskId) : WaitCall → Ret × Kernel
  | .slp _ => tk_slp_tsk_end k t
  | .dly _ => tk_dly_tsk_end k t
  | .sem .. => tk_wai_sem_end k t
  | .flg .. => tk_wai_flg_end k t
  | .mbx .. => tk_rcv_mbx_end k t

def Tasks.setPending (q : Tasks) (t : TskId) (p : Option Pending) : Tasks :=
  { q with pending := Function.update q.pending t p }

/-- Where a call leaves its caller: the return on record, or the task suspended inside the call. -/
def leave_call (k : Kernel) (c : Call) : Flow → Kernel
  | .ret r => k.tasks (·.note (.ret c r))
  | .wait =>
    match k.current, c with
    | some t, .wait w => k.tasks fun q => (q.setPending t (some (.wait w))).note (.block t w)
    | _, _ => k
  | .yield =>
    match k.current with
    | some t => k.tasks (·.setPending t (some .yield))
    | none => k

/-! ## Steps -/

/-- What can happen next. -/
inductive Act where
  /-- A call by the task or the handler that runs. -/
  | call (c : Call) (times : List Nat)
  /-- The task that runs goes on after the wait in a wait call, or yields in `tk_dly_tsk(0)`. -/
  | resume
  /-- A round of the idle task. -/
  | yield
  | di
  | ei
  /-- The task that was running, or a trap that interrupted it, writes to its stack. -/
  | stack_write (frame : StashedRegisters)
  /-- The application writes the priority of a message. -/
  | set_msgpri (msg : UINT) (msgpri : Int)
  | external_enter
  | external_leave (sp : UINT)
  | timer_interrupt (times : List Nat) (sp : UINT)
  | software_interrupt (sp : UINT)

/-- The code of `current` runs: no handler is active, and no switch is due. A pending software
interrupt is taken as soon as interrupts are on. -/
def taskRuns (k : Kernel) : Bool := decide (k.isr_depth = 0) && !(k.mie && k.msip)

/-- A call can be made here: by a handler, or by the task that runs, which is outside any call and not
the idle task. -/
def canCall (k : Kernel) : Bool :=
  tkmc_in_isr k ||
    (taskRuns k && match k.current with
      | some t => decide (k.pending t = none) && decide (t ≠ idl_tsk)
      | none => false)

/-- A trap of the timer or of the software interrupt can be taken. `external_interrupt` masks both
while a handler runs. -/
def canTrap (k : Kernel) : Bool := k.mie && decide (k.isr_depth = 0)

def step (e : Entries) (k : Kernel) : Act → Option Kernel
  | .call c times =>
    if canCall k then (exec e k times c).map fun (flow, k) => leave_call k c flow else none
  | .resume =>
    match k.current with
    | none => none
    | some t =>
      if !taskRuns k then none
      else match k.pending t with
        | none => none
        | some .yield => some ((tkmc_yield k).tasks (·.setPending t none))
        | some (.wait w) =>
          let (r, k) := exec_end k t w
          some (k.tasks fun q => (q.setPending t none).note (.finish t w r))
  | .yield => if taskRuns k && k.mie && decide (k.current = some idl_tsk) then some (tkmc_yield k) else none
  | .di => if tkmc_in_isr k || taskRuns k then some k.DI else none
  | .ei => if tkmc_in_isr k || taskRuns k then some (k.EI true) else none
  | .stack_write frame =>
    k.current.map fun t => { k with stack := Function.update k.stack t frame }
  | .set_msgpri msg msgpri => some { k with msgpri := Function.update k.msgpri msg msgpri }
  | .external_enter =>
    if k.mie then some { k with mie := false, isr_depth := k.isr_depth + 1 } else none
  | .external_leave sp =>
    if k.mie || !tkmc_in_isr k then none
    else
      let k := if k.isr_depth = 1 then serve_msip k sp else k
      some { k with mie := true, isr_depth := k.isr_depth - 1 }
  | .timer_interrupt times sp =>
    if canTrap k then
      let k := { k with mie := false, isr_depth := k.isr_depth + 1 }
      (tkmc_timer_handler k times).map fun k =>
        { serve_msip k sp with mie := true, isr_depth := k.isr_depth - 1 }
    else none
  | .software_interrupt sp =>
    if canTrap k && k.msip then
      let k := { k with mie := false, isr_depth := k.isr_depth + 1, msip := false }
      some { schedule k sp with mie := true, isr_depth := k.isr_depth - 1 }
    else none

end TsukumoCore
