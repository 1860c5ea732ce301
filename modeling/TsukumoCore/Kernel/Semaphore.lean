import TsukumoCore.Kernel.Timer

/-! # Semaphores: `kernel/semaphore.c` -/

namespace TsukumoCore

def VALID_SEMATR : ATR := TA_TPRI ||| TA_CNT

def tk_cre_sem (k : Kernel) (pk_csem : Option T_CSEM) : Ret × Kernel :=
  match pk_csem with
  | none => ({ ercd := .E_PAR }, k)
  | some pk =>
    if pk.sematr &&& ~~~VALID_SEMATR ≠ 0 then ({ ercd := .E_RSATR }, k)
    else if pk.maxsem < 1 ∨ pk.maxsem > TK_SEMAPHORE_MAXCNT ∨ pk.isemcnt < 0 ∨
        pk.isemcnt > pk.maxsem then ({ ercd := .E_PAR }, k)
    else
      let intsts := k.mie
      let k := k.DI
      match k.free_semcb with
      | [] => ({ ercd := .E_LIMIT }, k.EI intsts)
      | s :: rest =>
        let new_semid := (k.semcbs s).semid &&& ~~~NOEXS_MASK
        let k := { k with free_semcb := rest, wait_queue := Function.update k.wait_queue (.sem s) [] }
        let k := k.setSem s
          { semid := new_semid, exinf := pk.exinf, sematr := pk.sematr, semcnt := pk.isemcnt,
            maxsem := pk.maxsem }
        ({ ercd := .E_OK, id := new_semid.toInt }, k.EI intsts)

/-- The first waiter of a lower priority than `t`, where the scan of a `TA_TPRI` queue stops. -/
def first_lower (q : Tasks) (t : TskId) (queue : List TskId) : Option TskId :=
  queue.find? fun pos => (q.tcbs t).itskpri < (q.tcbs pos).itskpri

/-- The insertion of `tk_wai_sem` and `tk_wai_flg`, which write it out in the same way. -/
def insert_by_atr (q : Tasks) (t : TskId) (o : Obj) (atr : ATR) : Tasks :=
  if atr &&& TA_TPRI ≠ 0 then
    if q.wait_queue o = [] then q.add_wait_tail t o
    else
      match first_lower q t (q.wait_queue o) with
      | some pos => q.add_wait_before t pos o
      | none => q.add_wait_tail t o
  else q.add_wait_tail t o

/-- The immediate check of `tk_wai_sem`: the units are there, and no waiter comes first. -/
def may_take (k : Kernel) (s : SemId) (t : TskId) (cnt : Int) : Bool :=
  let may_take := decide ((k.semcbs s).semcnt ≥ cnt)
  if may_take ∧ k.wait_queue (.sem s) ≠ [] ∧ (k.semcbs s).sematr &&& TA_CNT = 0 then
    match (k.wait_queue (.sem s)).head? with
    | none => may_take
    | some head =>
      decide ((k.semcbs s).sematr &&& TA_TPRI ≠ 0 ∧ (k.tcbs t).itskpri < (k.tcbs head).itskpri)
  else may_take

def tk_wai_sem (k : Kernel) (semid cnt tmout : Int) (times : List Nat) : Flow × Kernel :=
  match tableEntry CFN_MAX_SEMID semid with
  | none => (.ret { ercd := .E_ID }, k)
  | some s =>
    if cnt ≤ 0 ∨ tmout < TMO_FEVR then (.ret { ercd := .E_PAR }, k)
    else
      let intsts := k.mie
      let k := k.DI
      if !tkmc_can_block k intsts then (.ret { ercd := .E_CTX }, k.EI intsts)
      else if noexs (k.semcbs s).semid then (.ret { ercd := .E_NOEXS }, k.EI intsts)
      else if cnt > (k.semcbs s).maxsem then (.ret { ercd := .E_PAR }, k.EI intsts)
      else match k.current with
        | none => (.ret { ercd := .E_CTX }, k.EI intsts)
        | some t =>
          if may_take k s t cnt then (.ret { ercd := .E_OK }, (addSemcnt k s (-cnt)).EI intsts)
          else if tmout = TMO_POL then (.ret { ercd := .E_TMOUT }, k.EI intsts)
          else
            let k := k.tasks fun q =>
              let q := q.setTcb t fun c => { c with winfo := .semaphore cnt s }
              insert_by_atr (q.init_wait t) t (.sem s) (k.semcbs s).sematr
            (.wait, (begin_wait k t .SEM tmout times).EI intsts)

def tk_wai_sem_end (k : Kernel) (t : TskId) : Ret × Kernel :=
  let intsts := k.mie
  let (ercd, k) := take_cause k.DI t
  ({ ercd }, k.EI intsts)

def tk_sig_sem (k : Kernel) (semid cnt : Int) : ER × Kernel :=
  match tableEntry CFN_MAX_SEMID semid with
  | none => (.E_ID, k)
  | some s =>
    if cnt ≤ 0 then (.E_PAR, k)
    else
      let intsts := k.mie
      let k := k.DI
      if noexs (k.semcbs s).semid then (.E_NOEXS, k.EI intsts)
      else
        let room := (k.semcbs s).maxsem - (k.semcbs s).semcnt
        let k := k.tasks (·.check (inINT room) .intOverflow)
        if cnt > room then (.E_QOVR, k.EI intsts)
        else
          let k := tkmc_sem_serve_waiters (addSemcnt k s cnt) s
          (.E_OK, (request_switch k).EI intsts)

/-- The loop of `tk_del_sem` that ends every wait, and whether it ended one. A round takes the first
waiter off the queue, so the waiters there are the rounds it needs. -/
def release_all (s : SemId) : Nat → Bool → Kernel → Bool × Kernel
  | 0, released, k => (released, k)
  | fuel + 1, released, k =>
    match k.wait_queue (.sem s) with
    | [] => (released, k)
    | t :: _ => release_all s fuel true (tkmc_complete_wait k t .E_DLT)

def tk_del_sem (k : Kernel) (semid : Int) : ER × Kernel :=
  match tableEntry CFN_MAX_SEMID semid with
  | none => (.E_ID, k)
  | some s =>
    let intsts := k.mie
    let k := k.DI
    if noexs (k.semcbs s).semid then (.E_NOEXS, k.EI intsts)
    else
      let (released, k) := release_all s (k.wait_queue (.sem s)).length false k
      let k := k.setSem s
        { semid := (k.semcbs s).semid ||| NOEXS_MASK, exinf := NULL, sematr := 0, semcnt := 0,
          maxsem := 0 }
      let k := { k with free_semcb := k.free_semcb ++ [s] }
      let k := if released then request_switch k else k
      (.E_OK, k.EI intsts)

end TsukumoCore
