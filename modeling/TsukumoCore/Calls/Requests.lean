import TsukumoCore.Calls.Mailboxes
import TsukumoCore.Objects.Share

/-!
# The waits of the running task, written out

What a wait call does for a task that may wait: it takes what is there, gives up, or puts the task in its
place in the queue.
-/

namespace TsukumoCore

variable {k : Kernel} {t : TskId} {w : WaitCall} {times : List Nat}

/-- `t` runs outside any call, and may wait. -/
structure Caller (k : Kernel) (t : TskId) : Prop where
  core : Core k.toTasks k.toObjects
  mie : k.mie = true
  depth : k.isr_depth = 0
  current : k.current = some t
  run : (k.tcbs t).tskstat = .RUN
  pending : k.pending t = none

namespace Caller

theorem of_good (h : Good k) (hcan : canCall k = true) (hblock : tkmc_can_block k k.mie = true)
    (ht : k.current = some t) : Caller k t := by
  obtain ⟨hmie, u, hu, hrun, hpend, -⟩ := h.caller hcan hblock
  obtain rfl : u = t := Option.some.inj (hu.symm.trans ht)
  simp only [tkmc_can_block, Bool.and_eq_true, Bool.not_eq_true', not_in_isr_iff] at hblock
  exact ⟨h.core, hmie, hblock.2, hu, hrun, hpend⟩

theorem active (h : Caller k t) : (k.tcbs t).active := .inr h.run

theorem can_block (h : Caller k t) : tkmc_can_block k.DI k.mie = true := by
  simp [tkmc_can_block, h.mie, Kernel.DI, h.current, tkmc_in_isr, h.depth]

theorem link (h : Caller k t) : (k.tcbs t).wait_link = .self :=
  h.core.tasks.wait_link_self (by simp [h.run])

theorem not_waiting (h : Caller k t) (o : Obj) : t ∉ k.wait_queue o :=
  h.core.tasks.not_mem_wait (by simp [h.run]) o

end Caller

/-- The state in which `t` waits in `w` for ever, at its place in `queue`. -/
def waiting (k : Kernel) (t : TskId) (w : WaitCall) (queue : List TskId) : Kernel :=
  leave_call ((wait_forever (k.DI.tasks (·.requestFor t w queue)) t w.kind).EI k.mie) (.wait w) .wait

theorem waiting_eq (h : Caller k t) (w : WaitCall) (queue : List TskId) :
    (waiting k t w queue).toTasks = (Move.block t w queue none).effect k.toTasks ∧
      (waiting k t w queue).toObjects = k.toObjects := by
  obtain ⟨htasks, hobj, -⟩ := leave_untimed h.core.tasks.toPlaced h.current h.active w queue rfl
  exact ⟨htasks, hobj⟩

/-! ## Semaphores -/

section Semaphore

variable {s : SemId} {semid cnt tmout : Int}

/-- The check passes if the units are there and nobody comes first, or the order does not matter. -/
theorem may_take_iff : may_take k s t cnt = true ↔ cnt ≤ (k.semcbs s).semcnt ∧
    ((k.semcbs s).servesAll = true ∨ ∀ head ∈ (k.wait_queue (.sem s)).head?,
      (k.semcbs s).sematr &&& TA_TPRI ≠ 0 ∧ (k.tcbs t).itskpri < (k.tcbs head).itskpri) := by
  unfold may_take SEMCB.servesAll
  by_cases hge : cnt ≤ (k.semcbs s).semcnt
  · by_cases hatr : (k.semcbs s).sematr &&& TA_CNT = 0
    · cases k.wait_queue (.sem s) with
      | nil => simp [hge]
      | cons head rest => simp [hge, hatr]
    · simp only [hge, hatr, and_false, if_false, decide_true, ne_eq, not_false_eq_true, true_or, and_self]
  · simp [hge]

theorem tk_wai_sem_eq (h : Caller k t) (he : tableEntry CFN_MAX_SEMID semid = some s)
    (hlive : k.Live (.sem s)) (hcnt : 0 < cnt) (hmax : cnt ≤ (k.semcbs s).maxsem) (htmo : TMO_FEVR ≤ tmout) :
    tk_wai_sem k semid cnt tmout times =
      if may_take k s t cnt then
        (.ret { ercd := .E_OK }, k.setSem s { k.semcbs s with semcnt := (k.semcbs s).semcnt - cnt })
      else if tmout = TMO_POL then (.ret { ercd := .E_TMOUT }, k)
      else
        (.wait, (begin_wait (k.DI.tasks (·.requestFor t (.sem semid cnt tmout)
          (queueBy k.toTasks t (k.semcbs s).sematr (k.wait_queue (.sem s))))) t .SEM tmout times).EI k.mie) := by
  have hobj : (WaitCall.sem semid cnt tmout).obj = some (.sem s) := by simp [WaitCall.obj, he]
  have hpar : ¬ (cnt ≤ 0 ∨ tmout < TMO_FEVR) := by omega
  have hrange : SemRange (k.semcbs s) (reqs k.toTasks s) := h.core.range _ hlive
  have hint : inINT ((k.DI.semcbs s).semcnt + -cnt) := by
    have hc := hrange.cnt
    have hm := hrange.max
    simp only [inINT, TK_SEMAPHORE_MAXCNT, Kernel.DI] at *
    omega
  unfold tk_wai_sem
  simp only [he, hpar, if_false, h.can_block, Bool.not_true, Bool.false_eq_true]
  rw [if_neg (by simpa [live_sem_iff] using hlive), if_neg (show ¬ cnt > (k.DI.semcbs s).maxsem from by
    simp only [Kernel.DI]; omega)]
  simp only [show k.DI.current = some t from h.current]
  rw [show may_take k.DI s t cnt = may_take k s t cnt from rfl]
  split
  · rw [addSemcnt_eq hint]
    simp [Kernel.DI, Kernel.EI, Kernel.setSem, Int.sub_eq_add_neg]
  · split
    · rw [DI_EI]
    · have hreq : (k.DI.tasks fun q =>
          insert_by_atr ((q.setTcb t fun c => { c with winfo := .semaphore cnt s }).init_wait t) t (.sem s)
            (k.DI.semcbs s).sematr) = k.DI.tasks (·.requestFor t (.sem semid cnt tmout)
              (queueBy k.toTasks t (k.semcbs s).sematr (k.wait_queue (.sem s)))) := by
        simp only [Kernel.tasks, DI_toTasks]
        rw [insert_by_atr_eq h.link, requestFor_some hobj]
        simp [WaitCall.info, he]
      rw [hreq]

theorem tk_wai_sem_waits (h : (tk_wai_sem k semid cnt tmout times).1 = .wait) :
    ∃ s, tableEntry CFN_MAX_SEMID semid = some s ∧ 0 < cnt ∧ TMO_FEVR ≤ tmout ∧ tmout ≠ TMO_POL ∧
      k.Live (.sem s) ∧ cnt ≤ (k.semcbs s).maxsem ∧
      ∀ t, k.current = some t → may_take k s t cnt = false := by
  unfold tk_wai_sem at h
  split at h
  · exact absurd h (by simp)
  rename_i s he
  split at h
  · exact absurd h (by simp)
  rename_i hpar
  dsimp only at h
  split at h
  · exact absurd h (by simp)
  split at h
  · exact absurd h (by simp)
  rename_i hexs
  split at h
  · exact absurd h (by simp)
  rename_i hmax
  split at h
  · exact absurd h (by simp)
  rename_i u hu
  split at h
  · exact absurd h (by simp)
  rename_i htake
  split at h
  · exact absurd h (by simp)
  rename_i hpol
  refine ⟨s, he, by omega, by omega, hpol, ?_, ?_, ?_⟩
  · simpa [live_sem_iff] using hexs
  · simpa using hmax
  · intro t ht
    obtain rfl : u = t := Option.some.inj ((show k.current = some u from hu).symm.trans ht)
    exact Bool.eq_false_iff.mpr htake

theorem waiting_sem_core (h : Caller k t) (he : tableEntry CFN_MAX_SEMID semid = some s)
    (hlive : k.Live (.sem s)) (hcnt : 0 < cnt) (hmax : cnt ≤ (k.semcbs s).maxsem) :
    Core ((Move.block t (.sem semid cnt tmout)
      (queueBy k.toTasks t (k.semcbs s).sematr (k.wait_queue (.sem s))) none).effect k.toTasks) k.toObjects := by
  have hobj : (WaitCall.sem semid cnt tmout).obj = some (.sem s) := by simp [WaitCall.obj, he]
  obtain ⟨ahead, behind, hq, hplace, -⟩ :=
    queueBy_split k.toTasks t (k.semcbs s).sematr (k.wait_queue (.sem s))
  rw [hplace]
  apply h.core.move
  · refine ⟨h.active, h.pending, by simp, ?_⟩
    rw [hobj]
    exact ⟨ahead, behind, hq, rfl⟩
  · intro o ho
    obtain rfl : o = .sem s := by simpa [Move.touches, hobj] using ho.symm
    have hrange : SemRange (k.semcbs s) (reqs k.toTasks s) := h.core.range _ hlive
    refine ⟨hlive, ?_⟩
    rw [infos_block h.core.tasks.toPlaced h.active hobj hq]
    have hinsert := hrange.insert hcnt hmax ahead.length
    simpa [CB.Range, Objects.cb, reqs, WaitCall.info, he, WaitInfo.semcnt, List.map_take, List.map_drop]
      using hinsert

end Semaphore

/-! ## Event flags -/

section EventFlag

variable {f : FlgId} {flgid tmout : Int} {waiptn wfmode p_flgptn : UINT}

theorem tk_wai_flg_eq (h : Caller k t) (he : tableEntry CFN_MAX_FLGID flgid = some f)
    (hlive : k.Live (.flg f)) (hpar : ¬ (p_flgptn = NULL ∨ waiptn = 0)) (hmode : wfmode &&& ~~~VALID_WFMODE = 0)
    (htmo : TMO_FEVR ≤ tmout) (hone : ¬ ((k.flgcbs f).flgatr &&& TA_WMUL = 0 ∧ k.wait_queue (.flg f) ≠ [])) :
    tk_wai_flg k flgid waiptn wfmode p_flgptn tmout times =
      if check_ptn (k.flgcbs f).flgptn waiptn wfmode then
        (.ret { ercd := .E_OK, flgptn := some (k.flgcbs f).flgptn },
          k.setFlg f { k.flgcbs f with flgptn := clear_ptn (k.flgcbs f).flgptn waiptn wfmode })
      else if tmout = TMO_POL then (.ret { ercd := .E_TMOUT }, k)
      else
        (.wait, (begin_wait (k.DI.tasks (·.requestFor t (.flg flgid waiptn wfmode p_flgptn tmout)
          (queueBy k.toTasks t (k.flgcbs f).flgatr (k.wait_queue (.flg f))))) t .FLG tmout times).EI k.mie) := by
  have hobj : (WaitCall.flg flgid waiptn wfmode p_flgptn tmout).obj = some (.flg f) := by
    simp [WaitCall.obj, he]
  unfold tk_wai_flg
  simp only [he, hpar, if_false, hmode, ne_eq, not_true_eq_false, h.can_block, Bool.not_true, Bool.false_eq_true]
  rw [if_neg (by omega), if_neg (by simpa [Objects.Live, Objects.cb, CB.id] using hlive)]
  simp only [show k.DI.flgcbs = k.flgcbs from rfl, show k.DI.wait_queue = k.wait_queue from rfl]
  rw [if_neg hone]
  split
  · exact Prod.ext rfl (by simp [Kernel.DI, Kernel.EI, Kernel.setFlg])
  · split
    · rw [DI_EI]
    · have hreq : (k.DI.tasks fun q =>
          insert_by_atr ((q.setTcb t fun c => { c with winfo := .event_flag waiptn wfmode 0 }).init_wait t) t
            (.flg f) (k.flgcbs f).flgatr) =
            k.DI.tasks (·.requestFor t (.flg flgid waiptn wfmode p_flgptn tmout)
              (queueBy k.toTasks t (k.flgcbs f).flgatr (k.wait_queue (.flg f)))) := by
        simp only [Kernel.tasks, DI_toTasks]
        rw [insert_by_atr_eq h.link, requestFor_some hobj]
        simp [WaitCall.info]
      simp only [show k.DI.current = some t from h.current]
      rw [hreq]

theorem tk_wai_flg_waits (h : (tk_wai_flg k flgid waiptn wfmode p_flgptn tmout times).1 = .wait) :
    ∃ f, tableEntry CFN_MAX_FLGID flgid = some f ∧ ¬ (p_flgptn = NULL ∨ waiptn = 0) ∧
      wfmode &&& ~~~VALID_WFMODE = 0 ∧ TMO_FEVR ≤ tmout ∧ tmout ≠ TMO_POL ∧ k.Live (.flg f) ∧
      ¬ ((k.flgcbs f).flgatr &&& TA_WMUL = 0 ∧ k.wait_queue (.flg f) ≠ []) ∧
      check_ptn (k.flgcbs f).flgptn waiptn wfmode = false := by
  unfold tk_wai_flg at h
  split at h
  · exact absurd h (by simp)
  rename_i f he
  split at h
  · exact absurd h (by simp)
  rename_i hpar
  split at h
  · exact absurd h (by simp)
  rename_i hmode
  split at h
  · exact absurd h (by simp)
  rename_i htmo
  dsimp only at h
  split at h
  · exact absurd h (by simp)
  split at h
  · exact absurd h (by simp)
  rename_i hexs
  split at h
  · exact absurd h (by simp)
  rename_i hone
  split at h
  · exact absurd h (by simp)
  rename_i hptn
  split at h
  · exact absurd h (by simp)
  rename_i hpol
  refine ⟨f, he, hpar, not_not.mp hmode, by omega, hpol, ?_, hone, Bool.eq_false_iff.mpr hptn⟩
  simpa [Objects.Live, Objects.cb, CB.id] using hexs

end EventFlag

/-! ## Mailboxes -/

section Mailbox

variable {m : MbxId} {mbxid tmout : Int} {ppk_msg : UINT}

theorem tk_rcv_mbx_eq (h : Caller k t) (he : tableEntry CFN_MAX_MBXID mbxid = some m)
    (hlive : k.Live (.mbx m)) (hpar : ¬ (ppk_msg = NULL ∨ tmout < TMO_FEVR)) :
    tk_rcv_mbx k mbxid ppk_msg tmout times =
      match (k.mbxcbs m).mbx_queue with
      | msg :: rest =>
        (.ret { ercd := .E_OK, msg := some msg }, k.setMbx m { k.mbxcbs m with mbx_queue := rest })
      | [] =>
        if tmout = TMO_POL then (.ret { ercd := .E_TMOUT }, k)
        else
          (.wait, (begin_wait (k.DI.tasks (·.requestFor t (.mbx mbxid ppk_msg tmout)
            (queueBy k.toTasks t (k.mbxcbs m).mbxatr (k.wait_queue (.mbx m))))) t .MBX tmout times).EI k.mie) := by
  have hobj : (WaitCall.mbx mbxid ppk_msg tmout).obj = some (.mbx m) := by simp [WaitCall.obj, he]
  unfold tk_rcv_mbx
  simp only [he, hpar, if_false, h.can_block, Bool.not_true, Bool.false_eq_true]
  rw [if_neg (by simpa [Objects.Live, Objects.cb, CB.id] using hlive)]
  simp only [show k.DI.mbxcbs = k.mbxcbs from rfl]
  cases hq : (k.mbxcbs m).mbx_queue with
  | cons msg rest => exact Prod.ext rfl (by simp [Kernel.DI, Kernel.EI, Kernel.setMbx])
  | nil =>
    dsimp only
    split
    · rw [DI_EI]
    · have hreq : (k.DI.tasks fun q =>
          insert_waiter ((q.setTcb t fun c => { c with winfo := .mailbox NULL }).init_wait t) t m
            (k.mbxcbs m).mbxatr) = k.DI.tasks (·.requestFor t (.mbx mbxid ppk_msg tmout)
              (queueBy k.toTasks t (k.mbxcbs m).mbxatr (k.wait_queue (.mbx m)))) := by
        simp only [Kernel.tasks, DI_toTasks]
        rw [insert_waiter_eq h.link, requestFor_some hobj]
        simp [WaitCall.info]
      simp only [show k.DI.current = some t from h.current]
      rw [hreq]

theorem tk_rcv_mbx_waits (h : (tk_rcv_mbx k mbxid ppk_msg tmout times).1 = .wait) :
    ∃ m, tableEntry CFN_MAX_MBXID mbxid = some m ∧ ¬ (ppk_msg = NULL ∨ tmout < TMO_FEVR) ∧ tmout ≠ TMO_POL ∧
      k.Live (.mbx m) ∧ (k.mbxcbs m).mbx_queue = [] := by
  unfold tk_rcv_mbx at h
  split at h
  · exact absurd h (by simp)
  rename_i m he
  split at h
  · exact absurd h (by simp)
  rename_i hpar
  dsimp only at h
  split at h
  · exact absurd h (by simp)
  split at h
  · exact absurd h (by simp)
  rename_i hexs
  split at h
  · exact absurd h (by simp)
  rename_i hempty
  split at h
  · exact absurd h (by simp)
  rename_i hpol
  refine ⟨m, he, hpar, hpol, ?_, hempty⟩
  simpa [Objects.Live, Objects.cb, CB.id] using hexs

end Mailbox

/-! ## Sleep -/

theorem tk_slp_tsk_forever (h : Caller k t) :
    tk_slp_tsk k TMO_FEVR times =
      if (k.tcbs t).wupcnt > 0 then
        (.ret { ercd := .E_OK }, k.tasks (·.setTcb t fun c => { c with wupcnt := c.wupcnt - 1 }))
      else (.wait, (wait_forever (k.DI.tasks (·.requestFor t (.slp TMO_FEVR) [])) t .SLP).EI k.mie) := by
  have hreq : k.DI.tasks (·.requestFor t (.slp TMO_FEVR) []) = k.DI := by
    simp only [Kernel.tasks, DI_toTasks]
    rw [requestFor_none h.core.tasks.toPlaced h.active (w := .slp TMO_FEVR) rfl rfl]
    rfl
  unfold tk_slp_tsk
  simp only [h.can_block, Bool.not_true, Bool.false_eq_true, if_false, show k.DI.current = some t from h.current]
  rw [if_neg (by decide), hreq]
  simp only [show k.DI.tcbs = k.tcbs from rfl]
  split
  · exact Prod.ext rfl (by simp [Kernel.DI, Kernel.EI, Kernel.tasks])
  · rw [if_neg (by decide), if_neg (by decide)]

end TsukumoCore
