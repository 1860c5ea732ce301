import TsukumoCore.Calls.Semaphores
import TsukumoCore.Kernel.Intctl

/-!
# Calls that are refused

Every check of a call comes before its first write, and every `DI` has its `EI`. None of this depends on the
context the call is made in.
-/

namespace TsukumoCore

variable {k k' : Kernel} {r : Ret}

/-- A call that gave `flow` and `k'`: if it was refused nothing has changed, not even the caller's variable, and
the interrupt flag is as it was in any case. -/
structure Answers (k : Kernel) (flow : Flow) (k' : Kernel) : Prop where
  refused : ∀ r, flow = .ret r → r.ercd ≠ .E_OK → k' = k ∧ r.flgptn = none ∧ r.msg = none
  mie : k'.mie = k.mie

namespace Answers

theorem refuse (er : ER) : Answers k (.ret { ercd := er }) k := by
  refine ⟨?_, rfl⟩
  rintro r hr -
  obtain rfl := Flow.ret.inj hr
  exact ⟨rfl, rfl, rfl⟩

theorem refuse_EI (er : ER) : Answers k (.ret { ercd := er }) (k.DI.EI k.mie) := by
  rw [DI_EI]
  exact .refuse er

theorem done (hok : r.ercd = .E_OK) (hmie : k'.mie = false) : Answers k (.ret r) (k'.EI k.mie) := by
  refine ⟨?_, ?_⟩
  · intro r' hr hne
    obtain rfl := Flow.ret.inj hr
    exact absurd hok hne
  · simp [Kernel.EI, hmie]

theorem wait (hmie : k'.mie = false) : Answers k .wait (k'.EI k.mie) := by
  refine ⟨?_, ?_⟩
  · intro r hr
    exact absurd hr (by simp)
  · simp [Kernel.EI, hmie]

end Answers

/-! ## What the calls run leaves the interrupt flag alone -/

@[simp] theorem tasks_mie (k : Kernel) (f : Tasks → Tasks) : (k.tasks f).mie = k.mie := rfl
@[simp] theorem setSem_mie (k : Kernel) (s : SemId) (cb : SEMCB) : (k.setSem s cb).mie = k.mie := rfl
@[simp] theorem setFlg_mie (k : Kernel) (f : FlgId) (cb : FLGCB) : (k.setFlg f cb).mie = k.mie := rfl
@[simp] theorem setMbx_mie (k : Kernel) (m : MbxId) (cb : MBXCB) : (k.setMbx m cb).mie = k.mie := rfl
@[simp] theorem DI_mie (k : Kernel) : k.DI.mie = false := rfl
@[simp] theorem switch_away_mie (k : Kernel) : (switch_away k).mie = k.mie := rfl
@[simp] theorem addSemcnt_mie (k : Kernel) (s : SemId) (d : Int) : (addSemcnt k s d).mie = k.mie := rfl
@[simp] theorem wait_forever_mie (k : Kernel) (t : TskId) (tskwait : TTW) :
    (wait_forever k t tskwait).mie = k.mie := rfl
@[simp] theorem schedule_timer_mie (k : Kernel) (t : TskId) (ticks : Nat) (tskwait : TTW) (times : List Nat) :
    (tkmc_schedule_timer k t ticks tskwait times).mie = k.mie := rfl

@[simp] theorem request_switch_mie (k : Kernel) : (request_switch k).mie = k.mie := by
  unfold request_switch
  dsimp only
  split <;> rfl

@[simp] theorem dispatch_if_needed_mie (k : Kernel) : (dispatch_if_needed k).mie = k.mie := by
  unfold dispatch_if_needed
  split
  · rfl
  · exact request_switch_mie k

@[simp] theorem begin_wait_mie (k : Kernel) (t : TskId) (tskwait : TTW) (tmout : Int) (times : List Nat) :
    (begin_wait k t tskwait tmout times).mie = k.mie := by
  unfold begin_wait
  split <;> rfl

theorem serve_walk_mie (s : SemId) (rest : List TskId) (k : Kernel) : (serve_walk s rest k).mie = k.mie := by
  induction rest generalizing k with
  | nil => rfl
  | cons pos rest ih =>
    unfold serve_walk
    dsimp only
    split
    · split
      · rfl
      · exact ih k
    · split
      · rfl
      · exact ih _

@[simp] theorem serve_waiters_mie (k : Kernel) (s : SemId) : (tkmc_sem_serve_waiters k s).mie = k.mie :=
  serve_walk_mie s _ k

@[simp] theorem complete_wait_mie (k : Kernel) (t : TskId) (cause : ER) :
    (tkmc_complete_wait k t cause).mie = k.mie := by
  unfold tkmc_complete_wait
  dsimp only
  split
  · split
    · exact serve_waiters_mie _ _
    · rfl
  · rfl

@[simp] theorem release_all_mie (s : SemId) (fuel : Nat) (released : Bool) (k : Kernel) :
    (release_all s fuel released k).2.mie = k.mie := by
  induction fuel generalizing k released with
  | zero => rfl
  | succ fuel ih =>
    unfold release_all
    split
    · rfl
    · rw [ih, complete_wait_mie]

@[simp] theorem set_walk_mie (f : FlgId) (rest : List TskId) (k : Kernel) : (set_walk f rest k).mie = k.mie := by
  induction rest generalizing k with
  | nil => rfl
  | cons t rest ih =>
    unfold set_walk
    dsimp only
    split
    · rw [ih, complete_wait_mie]
      rfl
    · exact ih k

@[simp] theorem make_waiter_ready_mie (k : Kernel) (t : TskId) (cause : ER) (msg : UINT) :
    (make_waiter_ready k t cause msg).mie = k.mie := complete_wait_mie _ _ _

@[simp] theorem pop_mie (k : Kernel) (m : MbxId) : (pop_waiting_receiver k m).2.mie = k.mie := rfl

@[simp] theorem delete_walk_mie (m : MbxId) (fuel : Nat) (k : Kernel) : (delete_walk m fuel k).mie = k.mie := by
  induction fuel generalizing k with
  | zero => rfl
  | succ fuel ih =>
    unfold delete_walk
    split
    · rename_i k1 hpop
      rw [← show (pop_waiting_receiver k m).2 = k1 by rw [hpop]]
      rfl
    · rename_i t k1 hpop
      rw [ih, make_waiter_ready_mie, ← show (pop_waiting_receiver k m).2 = k1 by rw [hpop]]
      rfl

/-! ## Tasks -/

theorem tk_cre_tsk_answers (h : Core k.toTasks k.toObjects) (pk_ctsk : Option T_CTSK) :
    Answers k (.ret (tk_cre_tsk k pk_ctsk).1) (tk_cre_tsk k pk_ctsk).2 := by
  unfold tk_cre_tsk
  split
  · exact .refuse _
  split
  · exact .refuse _
  dsimp only
  split
  · exact .refuse_EI _
  rename_i t rest hfree
  have hid : ((k.DI.tasks fun q => (q.del_head t).init_head t).tcbs t).tskid = t + 1 := by
    rw [← (h.tasks.toPlaced.task t).id]
    simp [Kernel.tasks, Tasks.init_head, Tasks.setTcb, Tasks.check, Tasks.del_head]
  rw [hid, if_pos (by omega)]
  exact .done rfl rfl

theorem tk_sta_tsk_answers (e : Entries) (tskid stacd : Int) :
    Answers k (.ret { ercd := (tk_sta_tsk e k tskid stacd).1 }) (tk_sta_tsk e k tskid stacd).2 := by
  unfold tk_sta_tsk
  split
  · exact .refuse _
  dsimp only
  split
  · exact .refuse_EI _
  split
  · exact .refuse_EI _
  · exact .done rfl (by simp)

theorem tk_rel_wai_answers (tskid : Int) :
    Answers k (.ret { ercd := (tk_rel_wai k tskid).1 }) (tk_rel_wai k tskid).2 := by
  unfold tk_rel_wai
  split
  · exact .refuse _
  rename_i t he
  dsimp only
  generalize (if (k.DI.tcbs t).tskstat = .NOEXS then ER.E_NOEXS
    else if some t = k.DI.current then .E_OBJ
    else if (k.DI.tcbs t).tskstat ≠ .WAI then .E_OBJ else .E_OK) = ercd
  split
  · rename_i hok
    exact .done hok (by simp)
  · exact .refuse_EI _

theorem queue_wakeup_cases (k : Kernel) (t : TskId) :
    (∃ er, queue_wakeup k t = (er, k)) ∨ (queue_wakeup k t).1 = .E_OK ∧ (queue_wakeup k t).2.mie = k.mie := by
  unfold queue_wakeup
  split
  · exact .inr ⟨rfl, rfl⟩
  · exact .inl ⟨_, rfl⟩

theorem tk_wup_tsk_answers (tskid : Int) :
    Answers k (.ret { ercd := (tk_wup_tsk k tskid).1 }) (tk_wup_tsk k tskid).2 := by
  have hqueue : ∀ t, Answers k (.ret { ercd := (queue_wakeup k.DI t).1 }) ((queue_wakeup k.DI t).2.EI k.mie) := by
    intro t
    rcases queue_wakeup_cases k.DI t with ⟨er, heq⟩ | ⟨hok, hmie⟩
    · rw [heq]
      exact .refuse_EI _
    · exact .done hok hmie
  unfold tk_wup_tsk
  split
  · exact .refuse _
  rename_i t he
  dsimp only
  split
  · exact .refuse_EI _
  split
  · split
    · exact .done rfl (by simp)
    · exact hqueue t
  split
  · exact hqueue t
  split
  · exact .refuse_EI _
  · exact .refuse_EI _

theorem tk_slp_tsk_answers (tmout : Int) (times : List Nat) :
    Answers k (tk_slp_tsk k tmout times).1 (tk_slp_tsk k tmout times).2 := by
  unfold tk_slp_tsk
  split
  · exact .refuse _
  dsimp only
  split
  · exact .refuse_EI _
  split
  · exact .refuse_EI _
  split
  · exact .done rfl rfl
  split
  · exact .wait (by simp)
  split
  · exact .refuse_EI _
  · exact .wait (by simp)

theorem tk_dly_tsk_answers (dlytm : RELTIM) (times : List Nat) :
    Answers k (tk_dly_tsk k dlytm times).1 (tk_dly_tsk k dlytm times).2 := by
  unfold tk_dly_tsk
  dsimp only
  split
  · exact .refuse_EI _
  split
  · rw [DI_EI]
    exact ⟨fun r hr => absurd hr (by simp), rfl⟩
  split
  · exact .refuse_EI _
  · exact .wait (by simp)

theorem tk_ext_tsk_answers (hk : tk_ext_tsk k = some k') : Answers k (.ret { ercd := .E_OK }) k' := by
  unfold tk_ext_tsk at hk
  dsimp only at hk
  split at hk
  · exact absurd hk (by simp)
  split at hk
  · exact absurd hk (by simp)
  · obtain rfl := Option.some.inj hk
    exact .done rfl rfl

theorem tk_exd_tsk_answers (hk : tk_exd_tsk k = some k') : Answers k (.ret { ercd := .E_OK }) k' := by
  unfold tk_exd_tsk at hk
  dsimp only at hk
  split at hk
  · exact absurd hk (by simp)
  split at hk
  · exact absurd hk (by simp)
  · obtain rfl := Option.some.inj hk
    exact .done rfl rfl

/-! ## Semaphores -/

theorem tk_cre_sem_answers (pk_csem : Option T_CSEM) :
    Answers k (.ret (tk_cre_sem k pk_csem).1) (tk_cre_sem k pk_csem).2 := by
  unfold tk_cre_sem
  split
  · exact .refuse _
  split
  · exact .refuse _
  split
  · exact .refuse _
  dsimp only
  split
  · exact .refuse_EI _
  · exact .done rfl rfl

theorem tk_wai_sem_answers (semid cnt tmout : Int) (times : List Nat) :
    Answers k (tk_wai_sem k semid cnt tmout times).1 (tk_wai_sem k semid cnt tmout times).2 := by
  unfold tk_wai_sem
  split
  · exact .refuse _
  split
  · exact .refuse _
  dsimp only
  split
  · exact .refuse_EI _
  split
  · exact .refuse_EI _
  split
  · exact .refuse_EI _
  split
  · exact .refuse_EI _
  split
  · exact .done rfl (by simp)
  split
  · exact .refuse_EI _
  · exact .wait (by simp)

theorem tk_sig_sem_answers (h : Core k.toTasks k.toObjects) (semid cnt : Int) :
    Answers k (.ret { ercd := (tk_sig_sem k semid cnt).1 }) (tk_sig_sem k semid cnt).2 := by
  cases he : tableEntry CFN_MAX_SEMID semid with
  | none =>
    simp only [tk_sig_sem, he]
    exact .refuse _
  | some s =>
    by_cases hcnt : cnt ≤ 0
    · simp only [tk_sig_sem, he, hcnt, if_true]
      exact .refuse _
    by_cases hexs : noexs (k.semcbs s).semid = true
    · simp only [tk_sig_sem, he, hcnt, if_false, show noexs (k.DI.semcbs s).semid = true from hexs, if_true]
      exact .refuse_EI _
    -- the check of `room` for overflow raises no alarm, because the count is in its range
    rw [tk_sig_sem_eq h he (by simpa [live_sem_iff] using hexs) (by omega)]
    split
    · exact .refuse _
    · exact .done rfl (by simp)

theorem tk_del_sem_answers (semid : Int) :
    Answers k (.ret { ercd := (tk_del_sem k semid).1 }) (tk_del_sem k semid).2 := by
  unfold tk_del_sem
  split
  · exact .refuse _
  dsimp only
  split
  · exact .refuse_EI _
  · refine .done rfl ?_
    split <;> simp

/-! ## Event flags -/

theorem tk_cre_flg_answers (pk_cflg : Option T_CFLG) :
    Answers k (.ret (tk_cre_flg k pk_cflg).1) (tk_cre_flg k pk_cflg).2 := by
  unfold tk_cre_flg
  split
  · exact .refuse _
  split
  · exact .refuse _
  dsimp only
  split
  · exact .refuse_EI _
  · exact .done rfl rfl

theorem tk_wai_flg_answers (flgid : Int) (waiptn wfmode p_flgptn : UINT) (tmout : Int) (times : List Nat) :
    Answers k (tk_wai_flg k flgid waiptn wfmode p_flgptn tmout times).1
      (tk_wai_flg k flgid waiptn wfmode p_flgptn tmout times).2 := by
  unfold tk_wai_flg
  split
  · exact .refuse _
  split
  · exact .refuse _
  split
  · exact .refuse _
  split
  · exact .refuse _
  dsimp only
  split
  · exact .refuse_EI _
  split
  · exact .refuse_EI _
  split
  · exact .refuse_EI _
  split
  · exact .done rfl rfl
  split
  · exact .refuse_EI _
  split
  · exact .refuse_EI _
  · exact .wait (by simp)

theorem tk_set_flg_answers (flgid : Int) (setptn : UINT) :
    Answers k (.ret { ercd := (tk_set_flg k flgid setptn).1 }) (tk_set_flg k flgid setptn).2 := by
  unfold tk_set_flg
  split
  · exact .refuse _
  dsimp only
  split
  · exact .refuse_EI _
  · refine .done rfl ?_
    split <;> simp

theorem tk_clr_flg_answers (flgid : Int) (clrptn : UINT) :
    Answers k (.ret { ercd := (tk_clr_flg k flgid clrptn).1 }) (tk_clr_flg k flgid clrptn).2 := by
  unfold tk_clr_flg
  split
  · exact .refuse _
  dsimp only
  split
  · exact .refuse_EI _
  · exact .done rfl rfl

/-! ## Mailboxes -/

theorem tk_cre_mbx_answers (pk_cmbx : Option T_CMBX) :
    Answers k (.ret (tk_cre_mbx k pk_cmbx).1) (tk_cre_mbx k pk_cmbx).2 := by
  unfold tk_cre_mbx
  split
  · exact .refuse _
  split
  · exact .refuse _
  dsimp only
  split
  · exact .refuse_EI _
  · exact .done rfl rfl

theorem tk_snd_mbx_answers (mbxid : Int) (pk_msg : UINT) :
    Answers k (.ret { ercd := (tk_snd_mbx k mbxid pk_msg).1 }) (tk_snd_mbx k mbxid pk_msg).2 := by
  unfold tk_snd_mbx
  split
  · exact .refuse _
  split
  · exact .refuse _
  dsimp only
  split
  · exact .refuse_EI _
  split
  · exact .refuse_EI _
  split
  · rename_i t k1 hpop
    refine .done rfl ?_
    rw [dispatch_if_needed_mie, make_waiter_ready_mie, ← show (pop_waiting_receiver k.DI _).2 = k1 by rw [hpop]]
    rfl
  · rename_i k1 hpop
    refine .done rfl ?_
    rw [setMbx_mie, ← show (pop_waiting_receiver k.DI _).2 = k1 by rw [hpop]]
    rfl

theorem tk_rcv_mbx_answers (mbxid : Int) (ppk_msg : UINT) (tmout : Int) (times : List Nat) :
    Answers k (tk_rcv_mbx k mbxid ppk_msg tmout times).1 (tk_rcv_mbx k mbxid ppk_msg tmout times).2 := by
  unfold tk_rcv_mbx
  split
  · exact .refuse _
  split
  · exact .refuse _
  dsimp only
  split
  · exact .refuse_EI _
  split
  · exact .refuse_EI _
  split
  · exact .done rfl rfl
  split
  · exact .refuse_EI _
  split
  · exact .refuse_EI _
  · exact .wait (by simp)

theorem tk_del_mbx_answers (mbxid : Int) :
    Answers k (.ret { ercd := (tk_del_mbx k mbxid).1 }) (tk_del_mbx k mbxid).2 := by
  unfold tk_del_mbx
  split
  · exact .refuse _
  dsimp only
  split
  · exact .refuse_EI _
  · exact .done rfl (by simp)

/-! ## Every call -/

theorem exec_answers (h : Core k.toTasks k.toObjects) {e : Entries} {times : List Nat} {c : Call} {flow : Flow}
    (hx : exec e k times c = some (flow, k')) : Answers k flow k' := by
  cases c with
  | ext_tsk =>
    simp only [exec, Option.map_eq_some_iff, Prod.mk.injEq] at hx
    obtain ⟨k1, hk, rfl, rfl⟩ := hx
    exact tk_ext_tsk_answers hk
  | exd_tsk =>
    simp only [exec, Option.map_eq_some_iff, Prod.mk.injEq] at hx
    obtain ⟨k1, hk, rfl, rfl⟩ := hx
    exact tk_exd_tsk_answers hk
  | wait w =>
    cases w <;>
      · simp only [exec, Option.some.injEq, Prod.ext_iff] at hx
        obtain ⟨rfl, rfl⟩ := hx
        first
          | exact tk_slp_tsk_answers _ _
          | exact tk_dly_tsk_answers _ _
          | exact tk_wai_sem_answers _ _ _ _
          | exact tk_wai_flg_answers _ _ _ _ _ _
          | exact tk_rcv_mbx_answers _ _ _ _
  | _ =>
    simp only [exec, Option.some.injEq, Prod.mk.injEq] at hx
    obtain ⟨rfl, rfl⟩ := hx
    first
      | exact tk_cre_tsk_answers h _
      | exact tk_sta_tsk_answers _ _ _
      | exact tk_rel_wai_answers _
      | exact tk_wup_tsk_answers _
      | exact tk_cre_sem_answers _
      | exact tk_sig_sem_answers h _ _
      | exact tk_del_sem_answers _
      | exact tk_cre_flg_answers _
      | exact tk_set_flg_answers _ _
      | exact tk_clr_flg_answers _ _
      | exact tk_cre_mbx_answers _
      | exact tk_snd_mbx_answers _ _
      | exact tk_del_mbx_answers _

theorem exec_end_mie (k : Kernel) (t : TskId) (w : WaitCall) : (exec_end k t w).2.mie = k.mie := by
  cases w <;> simp [exec_end, tk_slp_tsk_end, tk_dly_tsk_end, tk_wai_sem_end, tk_wai_flg_end, tk_rcv_mbx_end,
    take_cause, Kernel.EI]

theorem tkmc_yield_mie (k : Kernel) : (tkmc_yield k).mie = k.mie := by
  unfold tkmc_yield
  split
  · rfl
  · dsimp only
    split <;> simp [Kernel.EI, Kernel.dispatch]

/-! ## Interrupt handlers -/

theorem tk_def_int_answers (k : Kernel) (x : Intctl) (intno : UINT) (pk_dint : Option T_DINT) :
    (tk_def_int k x intno pk_dint).2.1 = k ∧
      ((tk_def_int k x intno pk_dint).1 ≠ .E_OK → (tk_def_int k x intno pk_dint).2.2 = x) := by
  refine ⟨DI_EI k, ?_⟩
  unfold tk_def_int
  dsimp only
  split
  · exact fun _ => rfl
  split
  · exact fun _ => rfl
  split
  · exact fun hne => absurd rfl hne
  split
  · exact fun _ => rfl
  split
  · exact fun _ => rfl
  · exact fun hne => absurd rfl hne

end TsukumoCore
