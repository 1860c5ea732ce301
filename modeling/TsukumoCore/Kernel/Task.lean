import TsukumoCore.Kernel.Wait

/-! # Tasks: `kernel/task.c` -/

namespace TsukumoCore

/-! ## Creation -/

def sizeofStashedRegisters : UINT := 128

def STACK_ALIGN : UINT := 16

def VALID_TSKATR : ATR := TA_HLNG ||| TA_USERBUF ||| TA_RNG1 ||| TA_RNG2 ||| TA_RNG3

def reset_tcb (q : Tasks) (t : TskId) : Tasks :=
  let q := q.setTcb t fun c =>
    { c with
      itskpri := 0, tskstat := .NOEXS, tskwait := .NONE, sp := NULL, initial_sp := NULL,
      task := NULL, exinf := NULL, delay_ticks := 0, wupcause := .E_OK, wupcnt := 0,
      winfo := .zero }
  (q.init_head t).init_wait t

/-- The checks of `tk_cre_tsk` on its packet. The result is the end of the stack. -/
def check_ctsk (pk : T_CTSK) : Except ER UINT :=
  if pk.tskatr &&& ~~~VALID_TSKATR ≠ 0 then .error .E_RSATR
  else if pk.tskatr &&& TA_USERBUF = 0 then .error .E_RSATR
  else if pk.task = NULL ∨ pk.bufptr = NULL then .error .E_PAR
  else if pk.itskpri < 1 ∨ pk.itskpri > CFN_MAX_PRI then .error .E_PAR
  else if pk.stksz ≤ sizeofStashedRegisters.toNat then .error .E_PAR
  else
    let stack_begin := pk.bufptr
    let stack_size := BitVec.ofInt 32 pk.stksz
    if stack_size > BitVec.allOnes 32 - stack_begin then .error .E_PAR
    else if (stack_begin + stack_size) % STACK_ALIGN ≠ 0 then .error .E_PAR
    else .ok (stack_begin + stack_size)

def tk_cre_tsk (k : Kernel) (pk_ctsk : Option T_CTSK) : Ret × Kernel :=
  match pk_ctsk with
  | none => ({ ercd := .E_PAR }, k)
  | some pk =>
    match check_ctsk pk with
    | .error e => ({ ercd := e }, k)
    | .ok stack_end =>
      let intsts := k.mie
      let k := k.DI
      match k.free_tcb with
      | [] => ({ ercd := .E_LIMIT }, k.EI intsts)
      | t :: _ =>
        let k := k.tasks fun q => (q.del_head t).init_head t
        let new_id := (k.tcbs t).tskid
        if 0 ≤ new_id then
          let k := k.tasks (reset_tcb · t)
          let frame := stack_end - sizeofStashedRegisters
          let k := k.tasks (·.setTcb t fun c =>
            { c with tskstat := .DMT, sp := frame, initial_sp := frame, task := pk.task,
                     itskpri := pk.itskpri, exinf := pk.exinf })
          ({ ercd := .E_OK, id := new_id }, k.EI intsts)
        else ({ ercd := .E_LIMIT }, k.EI intsts)

/-! ## Start and end -/

/-- The address of `tk_ext_tsk`, where a task function returns to. -/
structure Entries where
  tk_ext_tsk : UINT
  tkmc_ini_tsk : UINT
  tkmc_idl_tsk : UINT

/-- The frame `tk_sta_tsk` builds at `sp`. -/
def initialFrame (ext task exinf : UINT) (stacd : Int) : StashedRegisters := fun i =>
  if i = 0 then ext
  else if i = 28 then task
  else if i = 6 then BitVec.ofInt 32 stacd
  else if i = 7 then exinf
  else 0xdeadbeef

def tk_sta_tsk (e : Entries) (k : Kernel) (tskid stacd : Int) : ER × Kernel :=
  match tableEntry CFN_MAX_TSKID tskid with
  | none => (.E_ID, k)
  | some t =>
    let intsts := k.mie
    let k := k.DI
    if (k.tcbs t).tskstat = .NOEXS then (.E_NOEXS, k.EI intsts)
    else if (k.tcbs t).tskstat ≠ .DMT then (.E_OBJ, k.EI intsts)
    else
      let k := k.tasks fun q =>
        let q := q.setTcb t fun c =>
          { c with sp := c.initial_sp, tskwait := .NONE, delay_ticks := 0, wupcnt := 0,
                   wupcause := .E_OK, winfo := .zero }
        let q := q.init_wait t
        let frame := initialFrame e.tk_ext_tsk (q.tcbs t).task (q.tcbs t).exinf stacd
        let q := { q with stack := Function.update q.stack t frame }
        let q := q.setTcb t fun c => { c with tskstat := .RDY }
        (q.init_head t).add_ready t
      (.E_OK, (dispatch_if_needed k).EI intsts)

/-- `none` is a NULL `current`, which the C code would follow. -/
def tkmc_yield (k : Kernel) : Kernel :=
  match k.current with
  | none => k.tasks (·.check False .nullTask)
  | some tmp =>
    let intsts := k.mie
    let k := k.DI
    let k := k.tasks fun q => (q.del_head tmp).add_ready tmp
    let k := { k with next := tkmc_get_highest_priority_task k.toTasks }
    let k := if some tmp ≠ k.next then k.dispatch else k
    k.EI intsts

/-- `none` is `tkmc_fatal_context`: the system stops before anything changes. -/
def tk_ext_tsk (k : Kernel) : Option Kernel :=
  let intsts := k.mie
  let k := k.DI
  if !tkmc_can_block k intsts then none
  else match k.current with
    | none => none
    | some tmp =>
      let k := k.tasks fun q =>
        (q.del_head tmp).setTcb tmp fun c => { c with tskstat := .DMT, tskwait := .NONE }
      some ((switch_away k).EI intsts)

def tk_exd_tsk (k : Kernel) : Option Kernel :=
  let intsts := k.mie
  let k := k.DI
  if !tkmc_can_block k intsts then none
  else match k.current with
    | none => none
    | some tmp =>
      let k := k.tasks fun q =>
        ((q.del_head tmp).setTcb tmp fun c => { c with tskstat := .NOEXS }).add_free tmp
      some ((switch_away k).EI intsts)

/-! ## Release and wake-up -/

def tk_rel_wai (k : Kernel) (tskid : Int) : ER × Kernel :=
  match tableEntry CFN_MAX_TSKID tskid with
  | none => (.E_ID, k)
  | some t =>
    let intsts := k.mie
    let k := k.DI
    let ercd : ER :=
      if (k.tcbs t).tskstat = .NOEXS then .E_NOEXS
      else if some t = k.current then .E_OBJ
      else if (k.tcbs t).tskstat ≠ .WAI then .E_OBJ
      else .E_OK
    if ercd = .E_OK then
      let k := tkmc_complete_wait k t .E_RLWAI
      (ercd, (request_switch k).EI intsts)
    else (ercd, k.EI intsts)

/-- Queues one wake-up request, if the count allows it. -/
def queue_wakeup (k : Kernel) (t : TskId) : ER × Kernel :=
  if (k.tcbs t).wupcnt < TK_WAKEUP_MAXCNT then
    (.E_OK, k.tasks (·.setTcb t fun c => { c with wupcnt := c.wupcnt + 1 }))
  else (.E_QOVR, k)

def tk_wup_tsk (k : Kernel) (tskid : Int) : ER × Kernel :=
  match tableEntry CFN_MAX_TSKID tskid with
  | none => (.E_ID, k)
  | some t =>
    let intsts := k.mie
    let k := k.DI
    let tskstat := (k.tcbs t).tskstat
    let (ercd, k) : ER × Kernel :=
      if some t = k.current ∧ !tkmc_in_isr k then (.E_OBJ, k)
      else if tskstat = .WAI then
        if (k.tcbs t).tskwait = .SLP then
          (.E_OK, request_switch (tkmc_complete_wait k t .E_OK))
        else queue_wakeup k t
      else if tskstat = .RDY ∨ tskstat = .RUN then queue_wakeup k t
      else if tskstat = .NOEXS then (.E_NOEXS, k)
      else (.E_OBJ, k)
    (ercd, k.EI intsts)

end TsukumoCore
