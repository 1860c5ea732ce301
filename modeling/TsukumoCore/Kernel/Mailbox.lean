import TsukumoCore.Kernel.EventFlag

/-!
# Mailboxes: `kernel/mailbox.c`

A message is its address. The message queue is the sequence of the queued messages, which is what the
links hold as long as the application does not send a message that is still queued.
-/

namespace TsukumoCore

def VALID_MBXATR : ATR := TA_TPRI ||| TA_MPRI

def insert_msg_fifo (queue : List UINT) (msg : UINT) : List UINT := queue ++ [msg]

/-- The scan of `insert_msg_pri` from the head: in front of the first message of a lower priority. -/
def scan_msg_pri (msgpri : UINT → Int) (queue : List UINT) (msg : UINT) : List UINT :=
  match queue.find? fun queued => msgpri msg < msgpri queued with
  | some pos => insertBefore msg pos queue
  | none => queue ++ [msg]

def insert_msg_pri (msgpri : UINT → Int) (queue : List UINT) (msg : UINT) : List UINT :=
  match queue.getLast? with
  | some last => if msgpri msg ≥ msgpri last then queue ++ [msg] else scan_msg_pri msgpri queue msg
  | none => scan_msg_pri msgpri queue msg

def insert_waiter (q : Tasks) (t : TskId) (m : MbxId) (mbxatr : ATR) : Tasks :=
  if mbxatr &&& TA_TPRI ≠ 0 then
    match first_lower q t (q.wait_queue (.mbx m)) with
    | some pos => q.add_wait_before t pos (.mbx m)
    | none => q.add_wait_tail t (.mbx m)
  else q.add_wait_tail t (.mbx m)

/-- The loop of `pop_waiting_receiver` over the waiters. -/
def pop_walk : List TskId → Tasks → Option TskId × Tasks
  | [], q => (none, q)
  | t :: rest, q =>
    let q := (q.del_wait t).init_wait t
    if (q.tcbs t).tskstat = .WAI ∧ (q.tcbs t).tskwait = .MBX then (some t, q) else pop_walk rest q

def pop_waiting_receiver (k : Kernel) (m : MbxId) : Option TskId × Kernel :=
  let (t, q) := pop_walk (k.wait_queue (.mbx m)) k.toTasks
  (t, { k with toTasks := q })

def make_waiter_ready (k : Kernel) (t : TskId) (cause : ER) (msg : UINT) : Kernel :=
  tkmc_complete_wait (k.tasks (·.setTcb t fun c => { c with winfo := .mailbox msg })) t cause

def tk_cre_mbx (k : Kernel) (pk_cmbx : Option T_CMBX) : Ret × Kernel :=
  match pk_cmbx with
  | none => ({ ercd := .E_PAR }, k)
  | some pk =>
    if pk.mbxatr &&& ~~~VALID_MBXATR ≠ 0 then ({ ercd := .E_RSATR }, k)
    else
      let intsts := k.mie
      let k := k.DI
      match k.free_mbxcb with
      | [] => ({ ercd := .E_LIMIT }, k.EI intsts)
      | m :: rest =>
        let new_mbxid := (k.mbxcbs m).mbxid &&& ~~~NOEXS_MASK
        let k := { k with free_mbxcb := rest, wait_queue := Function.update k.wait_queue (.mbx m) [] }
        let k := k.setMbx m
          { mbx_queue := [], mbxid := new_mbxid, exinf := pk.exinf, mbxatr := pk.mbxatr }
        ({ ercd := .E_OK, id := new_mbxid.toInt }, k.EI intsts)

/-- The loop of `tk_del_mbx`. A round takes a waiter off the queue, so one round more than there are
waiters finds it empty. -/
def delete_walk (m : MbxId) : Nat → Kernel → Kernel
  | 0, k => k
  | fuel + 1, k =>
    match pop_waiting_receiver k m with
    | (none, k) => k
    | (some t, k) => delete_walk m fuel (make_waiter_ready k t .E_DLT NULL)

def tk_del_mbx (k : Kernel) (mbxid : Int) : ER × Kernel :=
  match tableEntry CFN_MAX_MBXID mbxid with
  | none => (.E_ID, k)
  | some m =>
    let intsts := k.mie
    let k := k.DI
    if noexs (k.mbxcbs m).mbxid then (.E_NOEXS, k.EI intsts)
    else
      let k := delete_walk m ((k.wait_queue (.mbx m)).length + 1) k
      let k := k.setMbx m
        { mbx_queue := [], mbxid := BitVec.ofInt 32 mbxid ||| NOEXS_MASK, exinf := NULL, mbxatr := 0 }
      let k := { k with
        wait_queue := Function.update k.wait_queue (.mbx m) []
        free_mbxcb := k.free_mbxcb ++ [m] }
      (.E_OK, (dispatch_if_needed k).EI intsts)

def tk_snd_mbx (k : Kernel) (mbxid : Int) (pk_msg : UINT) : ER × Kernel :=
  match tableEntry CFN_MAX_MBXID mbxid with
  | none => (.E_ID, k)
  | some m =>
    if pk_msg = NULL then (.E_PAR, k)
    else
      let intsts := k.mie
      let k := k.DI
      if noexs (k.mbxcbs m).mbxid then (.E_NOEXS, k.EI intsts)
      else if (k.mbxcbs m).mbxatr &&& TA_MPRI ≠ 0 ∧ k.msgpri pk_msg ≤ 0 then (.E_PAR, k.EI intsts)
      else
        match pop_waiting_receiver k m with
        | (some t, k) =>
          let k := k.tasks (·.note (.deliver t (.message pk_msg)))
          (.E_OK, (dispatch_if_needed (make_waiter_ready k t .E_OK pk_msg)).EI intsts)
        | (none, k) =>
          let cb := k.mbxcbs m
          let queue :=
            if cb.mbxatr &&& TA_MPRI ≠ 0 then insert_msg_pri k.msgpri cb.mbx_queue pk_msg
            else insert_msg_fifo cb.mbx_queue pk_msg
          (.E_OK, (k.setMbx m { cb with mbx_queue := queue }).EI intsts)

def tk_rcv_mbx (k : Kernel) (mbxid : Int) (ppk_msg : UINT) (tmout : Int) (times : List Nat) :
    Flow × Kernel :=
  match tableEntry CFN_MAX_MBXID mbxid with
  | none => (.ret { ercd := .E_ID }, k)
  | some m =>
    if ppk_msg = NULL ∨ tmout < TMO_FEVR then (.ret { ercd := .E_PAR }, k)
    else
      let intsts := k.mie
      let k := k.DI
      if !tkmc_can_block k intsts then (.ret { ercd := .E_CTX }, k.EI intsts)
      else if noexs (k.mbxcbs m).mbxid then (.ret { ercd := .E_NOEXS }, k.EI intsts)
      else
        match (k.mbxcbs m).mbx_queue with
        | msg :: rest =>
          let k := k.setMbx m { k.mbxcbs m with mbx_queue := rest }
          (.ret { ercd := .E_OK, msg := some msg }, k.EI intsts)
        | [] =>
          if tmout = TMO_POL then (.ret { ercd := .E_TMOUT }, k.EI intsts)
          else match k.current with
            | none => (.ret { ercd := .E_CTX }, k.EI intsts)
            | some t =>
              let k := k.tasks fun q =>
                let q := q.setTcb t fun c => { c with winfo := .mailbox NULL }
                insert_waiter (q.init_wait t) t m (k.mbxcbs m).mbxatr
              (.wait, (begin_wait k t .MBX tmout times).EI intsts)

def WaitInfo.msg : WaitInfo → UINT
  | .mailbox msg => msg
  | _ => NULL

def tk_rcv_mbx_end (k : Kernel) (t : TskId) : Ret × Kernel :=
  let intsts := k.mie
  let k := k.DI
  let ercd := (k.tcbs t).wupcause
  let k := k.tasks fun q =>
    if (q.tcbs t).wait_link ≠ .self then (q.del_wait t).init_wait t else q
  let out := if ercd = .E_OK then some (k.tcbs t).winfo.msg else none
  let k := k.tasks (·.setTcb t fun c =>
    { c with winfo := .mailbox NULL, wupcause := .E_OK, delay_ticks := 0, tskwait := .NONE })
  ({ ercd, msg := out }, k.EI intsts)

end TsukumoCore
