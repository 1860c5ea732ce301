import TsukumoCore.Kernel.Semaphore

/-! # Event flags: `kernel/event_flag.c` -/

namespace TsukumoCore

def VALID_FLGATR : ATR := TA_TPRI ||| TA_WMUL

def VALID_WFMODE : UINT := TWF_ORW ||| TWF_CLR ||| TWF_BITCLR

def tk_cre_flg (k : Kernel) (pk_cflg : Option T_CFLG) : Ret × Kernel :=
  match pk_cflg with
  | none => ({ ercd := .E_PAR }, k)
  | some pk =>
    if pk.flgatr &&& ~~~VALID_FLGATR ≠ 0 then ({ ercd := .E_RSATR }, k)
    else
      let intsts := k.mie
      let k := k.DI
      match k.free_flbcb with
      | [] => ({ ercd := .E_LIMIT }, k.EI intsts)
      | f :: rest =>
        let new_flgid := (k.flgcbs f).flgid &&& ~~~NOEXS_MASK
        let k := { k with free_flbcb := rest, wait_queue := Function.update k.wait_queue (.flg f) [] }
        let k := k.setFlg f
          { flgid := new_flgid, exinf := pk.exinf, flgatr := pk.flgatr, flgptn := pk.iflgptn }
        ({ ercd := .E_OK, id := new_flgid.toInt }, k.EI intsts)

def check_ptn (flgptn waiptn wfmode : UINT) : Bool :=
  if wfmode &&& TWF_ORW ≠ 0 then decide (flgptn &&& waiptn ≠ 0)
  else decide (flgptn &&& waiptn = waiptn)

/-- What is left of the pattern after a task with this mode took it. -/
def clear_ptn (flgptn waiptn wfmode : UINT) : UINT :=
  if wfmode &&& TWF_CLR ≠ 0 then 0
  else if wfmode &&& TWF_BITCLR ≠ 0 then flgptn &&& ~~~waiptn
  else flgptn

def tk_wai_flg (k : Kernel) (flgid : Int) (waiptn wfmode p_flgptn : UINT) (tmout : Int)
    (times : List Nat) : Flow × Kernel :=
  match tableEntry CFN_MAX_FLGID flgid with
  | none => (.ret { ercd := .E_ID }, k)
  | some f =>
    if p_flgptn = NULL ∨ waiptn = 0 then (.ret { ercd := .E_PAR }, k)
    else if wfmode &&& ~~~VALID_WFMODE ≠ 0 then (.ret { ercd := .E_PAR }, k)
    else if tmout < TMO_FEVR then (.ret { ercd := .E_PAR }, k)
    else
      let intsts := k.mie
      let k := k.DI
      if !tkmc_can_block k intsts then (.ret { ercd := .E_CTX }, k.EI intsts)
      else if noexs (k.flgcbs f).flgid then (.ret { ercd := .E_NOEXS }, k.EI intsts)
      else if (k.flgcbs f).flgatr &&& TA_WMUL = 0 ∧ k.wait_queue (.flg f) ≠ [] then
        (.ret { ercd := .E_OBJ }, k.EI intsts)
      else
        let flgptn := (k.flgcbs f).flgptn
        if check_ptn flgptn waiptn wfmode then
          let k := k.setFlg f { k.flgcbs f with flgptn := clear_ptn flgptn waiptn wfmode }
          (.ret { ercd := .E_OK, flgptn := some flgptn }, k.EI intsts)
        else if tmout = TMO_POL then (.ret { ercd := .E_TMOUT }, k.EI intsts)
        else match k.current with
          | none => (.ret { ercd := .E_CTX }, k.EI intsts)
          | some t =>
            let k := k.tasks fun q =>
              let q := q.setTcb t fun c => { c with winfo := .event_flag waiptn wfmode 0 }
              insert_by_atr (q.init_wait t) t (.flg f) (k.flgcbs f).flgatr
            (.wait, (begin_wait k t .FLG tmout times).EI intsts)

def WaitInfo.flgptn : WaitInfo → UINT
  | .event_flag _ _ flgptn => flgptn
  | _ => 0

def tk_wai_flg_end (k : Kernel) (t : TskId) : Ret × Kernel :=
  let intsts := k.mie
  let (ercd, k) := take_cause k.DI t
  let out := if ercd = .E_OK then some (k.tcbs t).winfo.flgptn else none
  ({ ercd, flgptn := out }, k.EI intsts)

def WaitInfo.waiptn : WaitInfo → UINT
  | .event_flag waiptn _ _ => waiptn
  | _ => 0

def WaitInfo.wfmode : WaitInfo → UINT
  | .event_flag _ wfmode _ => wfmode
  | _ => 0

/-- The walk of `tk_set_flg` over the tasks still to visit. -/
def set_walk (f : FlgId) : List TskId → Kernel → Kernel
  | [], k => k
  | t :: rest, k =>
    let flgptn := (k.flgcbs f).flgptn
    let waiptn := (k.tcbs t).winfo.waiptn
    let wfmode := (k.tcbs t).winfo.wfmode
    if check_ptn flgptn waiptn wfmode then
      let k := k.tasks fun q =>
        (q.setTcb t fun c => { c with winfo := .event_flag waiptn wfmode flgptn }).note
          (.deliver t (.pattern flgptn))
      let k := k.setFlg f { k.flgcbs f with flgptn := clear_ptn flgptn waiptn wfmode }
      set_walk f rest (tkmc_complete_wait k t .E_OK)
    else set_walk f rest k

def tk_set_flg (k : Kernel) (flgid : Int) (setptn : UINT) : ER × Kernel :=
  match tableEntry CFN_MAX_FLGID flgid with
  | none => (.E_ID, k)
  | some f =>
    let intsts := k.mie
    let k := k.DI
    if noexs (k.flgcbs f).flgid then (.E_NOEXS, k.EI intsts)
    else
      let k := k.setFlg f { k.flgcbs f with flgptn := (k.flgcbs f).flgptn ||| setptn }
      let k :=
        if k.wait_queue (.flg f) ≠ [] then request_switch (set_walk f (k.wait_queue (.flg f)) k)
        else k
      (.E_OK, k.EI intsts)

def tk_clr_flg (k : Kernel) (flgid : Int) (clrptn : UINT) : ER × Kernel :=
  match tableEntry CFN_MAX_FLGID flgid with
  | none => (.E_ID, k)
  | some f =>
    let intsts := k.mie
    let k := k.DI
    if noexs (k.flgcbs f).flgid then (.E_NOEXS, k.EI intsts)
    else
      let k := k.setFlg f { k.flgcbs f with flgptn := (k.flgcbs f).flgptn &&& clrptn }
      (.E_OK, k.EI intsts)

end TsukumoCore
