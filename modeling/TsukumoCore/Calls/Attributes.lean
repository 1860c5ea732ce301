import TsukumoCore.Calls.Step

/-!
# What stands in the object tables

The attributes of an object are written when it is created and when it is deleted, and its message queue when
a message is sent or received. No other call touches them, and none touches the priority of a message.
-/

namespace TsukumoCore

variable {e : Entries} {k k' : Kernel} {t : TskId} {s : SemId} {times : List Nat}

def Kernel.sematrs (k : Kernel) (s : SemId) : ATR := (k.semcbs s).sematr

/-- The part of the object tables that serving and waking leave alone. -/
structure Standing where
  sematr : SemId → ATR
  flgatr : FlgId → ATR
  mbxcbs : MbxId → MBXCB
  msgpri : UINT → Int

def Kernel.standing (k : Kernel) : Standing :=
  { sematr := k.sematrs, flgatr := fun f => (k.flgcbs f).flgatr, mbxcbs := k.mbxcbs, msgpri := k.msgpri }

theorem standing_of_objects (h : k'.toObjects = k.toObjects) : k'.standing = k.standing := by
  unfold Kernel.standing Kernel.sematrs
  rw [h]

/-! ## What the calls run -/

@[simp] theorem tasks_standing (k : Kernel) (f : Tasks → Tasks) : (k.tasks f).standing = k.standing := rfl
@[simp] theorem DI_standing (k : Kernel) : k.DI.standing = k.standing := rfl
@[simp] theorem EI_standing (k : Kernel) (b : Bool) : (k.EI b).standing = k.standing := rfl
@[simp] theorem setCnt_standing (k : Kernel) (s : SemId) (n : Int) :
    (k.setSem s { k.semcbs s with semcnt := n }).standing = k.standing := by
  have hatr : (k.setSem s { k.semcbs s with semcnt := n }).sematrs = k.sematrs := by
    funext s'
    by_cases hs : s' = s
    · subst hs; simp [Kernel.sematrs, Kernel.setSem]
    · simp [Kernel.sematrs, Kernel.setSem, hs]
  unfold Kernel.standing
  rw [hatr]
  rfl

@[simp] theorem setPtn_standing (k : Kernel) (f : FlgId) (ptn : UINT) :
    (k.setFlg f { k.flgcbs f with flgptn := ptn }).standing = k.standing := by
  have hatr : ∀ f', ((k.setFlg f { k.flgcbs f with flgptn := ptn }).flgcbs f').flgatr = (k.flgcbs f').flgatr := by
    intro f'
    by_cases hf : f' = f
    · subst hf; simp [Kernel.setFlg]
    · simp [Kernel.setFlg, hf]
  unfold Kernel.standing
  simp only [hatr]
  rfl

@[simp] theorem addSemcnt_standing (k : Kernel) (s : SemId) (d : Int) : (addSemcnt k s d).standing = k.standing :=
  setCnt_standing (k.tasks _) s _

@[simp] theorem request_switch_standing (k : Kernel) : (request_switch k).standing = k.standing :=
  standing_of_objects (request_switch_toObjects k)

@[simp] theorem dispatch_if_needed_standing (k : Kernel) : (dispatch_if_needed k).standing = k.standing := by
  unfold dispatch_if_needed
  split
  · rfl
  · exact request_switch_standing k

@[simp] theorem begin_wait_standing (k : Kernel) (t : TskId) (tskwait : TTW) (tmout : Int) (times : List Nat) :
    (begin_wait k t tskwait tmout times).standing = k.standing := by
  unfold begin_wait
  split <;> rfl

theorem serve_walk_standing (s : SemId) (rest : List TskId) (k : Kernel) :
    (serve_walk s rest k).standing = k.standing := by
  induction rest generalizing k with
  | nil => rfl
  | cons pos rest ih =>
    unfold serve_walk
    dsimp only
    split
    · split
      · rfl
      · exact ih k
    · split
      · simp
      · simp [ih]

@[simp] theorem serve_waiters_standing (k : Kernel) (s : SemId) :
    (tkmc_sem_serve_waiters k s).standing = k.standing := serve_walk_standing s _ k

@[simp] theorem complete_wait_standing (k : Kernel) (t : TskId) (cause : ER) :
    (tkmc_complete_wait k t cause).standing = k.standing := by
  unfold tkmc_complete_wait
  dsimp only
  split
  · split
    · simp
    · rfl
  · rfl

@[simp] theorem set_walk_standing (f : FlgId) (rest : List TskId) (k : Kernel) :
    (set_walk f rest k).standing = k.standing := by
  induction rest generalizing k with
  | nil => rfl
  | cons t rest ih =>
    unfold set_walk
    dsimp only
    split
    · simp [ih]
    · exact ih k

@[simp] theorem make_waiter_ready_standing (k : Kernel) (t : TskId) (cause : ER) (msg : UINT) :
    (make_waiter_ready k t cause msg).standing = k.standing := complete_wait_standing _ _ _

@[simp] theorem queue_wakeup_standing (k : Kernel) (t : TskId) : (queue_wakeup k t).2.standing = k.standing := by
  unfold queue_wakeup
  split <;> rfl

theorem schedule_standing (k : Kernel) (sp : UINT) : (schedule k sp).standing = k.standing := by
  unfold schedule
  split <;> rfl

theorem serve_msip_standing (k : Kernel) (sp : UINT) : (serve_msip k sp).standing = k.standing := by
  unfold serve_msip
  split
  · rw [schedule_standing]
    rfl
  · rfl

theorem tkmc_yield_standing (k : Kernel) : (tkmc_yield k).standing = k.standing := by
  unfold tkmc_yield
  split
  · rfl
  · dsimp only
    split <;> rfl

theorem exec_end_standing (k : Kernel) (t : TskId) (w : WaitCall) : (exec_end k t w).2.standing = k.standing := by
  cases w <;> rfl

theorem leave_call_standing (k : Kernel) (c : Call) (flow : Flow) : (leave_call k c flow).standing = k.standing := by
  unfold leave_call
  split
  · rfl
  · split <;> rfl
  · split <;> rfl

/-! ## The calls -/

/-- The calls that create, delete, send or receive. -/
def Call.rearranges : Call → Bool
  | .cre_sem _ | .del_sem _ | .cre_flg _ | .cre_mbx _ | .del_mbx _ | .snd_mbx .. | .wait (.mbx ..) => true
  | _ => false

theorem exec_standing {c : Call} {flow : Flow} (hc : c.rearranges = false)
    (hx : exec e k times c = some (flow, k')) : k'.standing = k.standing := by
  cases c with
  | cre_sem | del_sem | cre_flg | cre_mbx | del_mbx | snd_mbx => cases hc
  | cre_tsk pk =>
    obtain ⟨-, rfl⟩ : _ ∧ (tk_cre_tsk k pk).2 = k' := by simpa [exec] using hx
    unfold tk_cre_tsk
    dsimp only
    repeat' split
    all_goals simp
  | sta_tsk tskid stacd =>
    obtain ⟨-, rfl⟩ : _ ∧ (tk_sta_tsk e k tskid stacd).2 = k' := by simpa [exec] using hx
    unfold tk_sta_tsk
    dsimp only
    repeat' split
    all_goals simp
  | ext_tsk =>
    obtain ⟨k1, hk, -, rfl⟩ : ∃ k1, tk_ext_tsk k = some k1 ∧ _ ∧ k1 = k' := by simpa [exec] using hx
    unfold tk_ext_tsk at hk
    dsimp only at hk
    repeat' split at hk
    all_goals simp at hk
    all_goals rw [← hk]; rfl
  | exd_tsk =>
    obtain ⟨k1, hk, -, rfl⟩ : ∃ k1, tk_exd_tsk k = some k1 ∧ _ ∧ k1 = k' := by simpa [exec] using hx
    unfold tk_exd_tsk at hk
    dsimp only at hk
    repeat' split at hk
    all_goals simp at hk
    all_goals rw [← hk]; rfl
  | rel_wai tskid =>
    obtain ⟨-, rfl⟩ : _ ∧ (tk_rel_wai k tskid).2 = k' := by simpa [exec] using hx
    unfold tk_rel_wai
    dsimp only
    repeat' split
    all_goals simp
  | wup_tsk tskid =>
    obtain ⟨-, rfl⟩ : _ ∧ (tk_wup_tsk k tskid).2 = k' := by simpa [exec] using hx
    unfold tk_wup_tsk
    dsimp only
    repeat' split
    all_goals simp
  | sig_sem semid cnt =>
    obtain ⟨-, rfl⟩ : _ ∧ (tk_sig_sem k semid cnt).2 = k' := by simpa [exec] using hx
    unfold tk_sig_sem
    dsimp only
    repeat' split
    all_goals simp
  | set_flg flgid setptn =>
    obtain ⟨-, rfl⟩ : _ ∧ (tk_set_flg k flgid setptn).2 = k' := by simpa [exec] using hx
    unfold tk_set_flg
    dsimp only
    split
    · rfl
    split
    · rfl
    split
    · rw [EI_standing, request_switch_standing, set_walk_standing, setPtn_standing, DI_standing]
    · rw [EI_standing, setPtn_standing, DI_standing]
  | clr_flg flgid clrptn =>
    obtain ⟨-, rfl⟩ : _ ∧ (tk_clr_flg k flgid clrptn).2 = k' := by simpa [exec] using hx
    unfold tk_clr_flg
    dsimp only
    split
    · rfl
    split
    · rfl
    · rw [EI_standing, setPtn_standing, DI_standing]
  | wait w =>
    cases w with
    | slp tmout =>
      obtain ⟨-, rfl⟩ : _ ∧ (tk_slp_tsk k tmout times).2 = k' := by simpa [exec, Prod.ext_iff] using hx
      unfold tk_slp_tsk
      dsimp only
      repeat' split
      all_goals rfl
    | dly dlytm =>
      obtain ⟨-, rfl⟩ : _ ∧ (tk_dly_tsk k dlytm times).2 = k' := by simpa [exec, Prod.ext_iff] using hx
      unfold tk_dly_tsk
      dsimp only
      repeat' split
      all_goals rfl
    | sem semid cnt tmout =>
      obtain ⟨-, rfl⟩ : _ ∧ (tk_wai_sem k semid cnt tmout times).2 = k' := by simpa [exec, Prod.ext_iff] using hx
      unfold tk_wai_sem
      dsimp only
      repeat' split
      all_goals simp
    | flg flgid waiptn wfmode p_flgptn tmout =>
      obtain ⟨-, rfl⟩ : _ ∧ (tk_wai_flg k flgid waiptn wfmode p_flgptn tmout times).2 = k' := by
        simpa [exec, Prod.ext_iff] using hx
      unfold tk_wai_flg
      dsimp only
      repeat' split
      all_goals simp only [EI_standing, begin_wait_standing, tasks_standing, setPtn_standing, DI_standing]
    | mbx mbxid ppk_msg tmout => cases hc

/-! ### Semaphores and event flags are created and deleted -/

theorem standing_of_sem {k1 : Kernel} (h : k1.standing = k.standing) {semcbs : SemId → SEMCB} {free : List SemId}
    (hobj : k'.toObjects = { k1.toObjects with semcbs := semcbs, free_semcb := free }) :
    k'.standing = { k.standing with sematr := k'.sematrs } := by
  rw [← h]
  unfold Kernel.standing
  rw [hobj]

theorem tk_cre_sem_standing (k : Kernel) (pk_csem : Option T_CSEM) :
    (tk_cre_sem k pk_csem).2.standing = { k.standing with sematr := (tk_cre_sem k pk_csem).2.sematrs } := by
  unfold tk_cre_sem
  dsimp only
  repeat' split
  all_goals rfl

theorem tk_del_sem_standing (h : Core k.toTasks k.toObjects) (semid : Int) :
    (tk_del_sem k semid).2.standing = { k.standing with sematr := (tk_del_sem k semid).2.sematrs } := by
  unfold tk_del_sem
  split
  · rfl
  rename_i s' he
  dsimp only
  split
  · rfl
  obtain ⟨-, -, -, -, hobj⟩ :=
    release_all_spec (k := k.DI) (s := s') (k.DI.wait_queue (.sem s')).length false h le_rfl
  generalize release_all s' (k.DI.wait_queue (.sem s')).length false k.DI = res at *
  obtain ⟨released, k1⟩ := res
  have hk1 : k1.standing = k.standing := standing_of_objects hobj
  dsimp only
  split
  · exact standing_of_sem hk1 (by rw [EI_toObjects, request_switch_toObjects]; rfl)
  · exact standing_of_sem hk1 rfl

theorem tk_cre_flg_standing (k : Kernel) (pk_cflg : Option T_CFLG) :
    (tk_cre_flg k pk_cflg).2.standing =
      { k.standing with flgatr := fun f => ((tk_cre_flg k pk_cflg).2.flgcbs f).flgatr } := by
  unfold tk_cre_flg
  dsimp only
  repeat' split
  all_goals rfl

theorem tk_cre_sem_sematrs (k : Kernel) (pk_csem : Option T_CSEM) (s : SemId) :
    (tk_cre_sem k pk_csem).2.sematrs s = k.sematrs s ∨ (tk_cre_sem k pk_csem).2.wait_queue (.sem s) = [] := by
  unfold tk_cre_sem
  split
  · exact .inl rfl
  split
  · exact .inl rfl
  split
  · exact .inl rfl
  dsimp only
  split
  · exact .inl rfl
  · rename_i s' rest hfree
    by_cases hs : s = s'
    · right
      subst hs
      simp [Kernel.EI, Kernel.setSem]
    · left
      simp [Kernel.sematrs, Kernel.EI, Kernel.setSem, Kernel.DI, hs]

theorem tk_del_sem_sematrs (h : Core k.toTasks k.toObjects) (semid : Int) (s : SemId) :
    (tk_del_sem k semid).2.sematrs s = k.sematrs s ∨ (tk_del_sem k semid).2.wait_queue (.sem s) = [] := by
  unfold tk_del_sem
  split
  · exact .inl rfl
  rename_i s' he
  dsimp only
  split
  · exact .inl rfl
  obtain ⟨-, hempty, -, -, hobj⟩ :=
    release_all_spec (k := k.DI) (s := s') (k.DI.wait_queue (.sem s')).length false h le_rfl
  generalize release_all s' (k.DI.wait_queue (.sem s')).length false k.DI = res at *
  obtain ⟨released, k1⟩ := res
  have hsems : k1.semcbs = k.semcbs := congrArg Objects.semcbs hobj
  by_cases hs : s = s'
  · right
    subst hs
    dsimp only
    split
    · rw [EI_toTasks, request_switch_toTasks]
      exact hempty
    · exact hempty
  · left
    dsimp only
    split
    · rw [Kernel.sematrs, EI_toObjects, request_switch_toObjects]
      simp [Kernel.sematrs, Kernel.setSem, hs, hsems]
    · simp [Kernel.sematrs, Kernel.EI, Kernel.setSem, hs, hsems]

theorem tk_cre_flg_flgatr (k : Kernel) (pk_cflg : Option T_CFLG) (f : FlgId) :
    ((tk_cre_flg k pk_cflg).2.flgcbs f).flgatr = (k.flgcbs f).flgatr ∨
      (tk_cre_flg k pk_cflg).2.wait_queue (.flg f) = [] := by
  unfold tk_cre_flg
  split
  · exact .inl rfl
  split
  · exact .inl rfl
  dsimp only
  split
  · exact .inl rfl
  · rename_i f' rest hfree
    by_cases hf : f = f'
    · right
      subst hf
      simp [Kernel.EI, Kernel.setFlg]
    · left
      simp [Kernel.EI, Kernel.setFlg, Kernel.DI, hf]

/-! ## Every step -/

theorem timer_loop_standing {fuel n : Nat} {ended b : Bool} (hk : timer_loop fuel n ended k = some (b, k')) :
    k'.standing = k.standing := by
  induction fuel generalizing k n ended with
  | zero => exact absurd hk (by simp [timer_loop])
  | succ fuel ih =>
    unfold timer_loop at hk
    split at hk
    · obtain ⟨-, rfl⟩ := Prod.mk.inj (Option.some.inj hk)
      rfl
    · rename_i t ht
      dsimp only at hk
      generalize (if (k.tcbs t).delay_ticks < n then (k.tcbs t).delay_ticks else n) = ticks at hk
      split at hk
      · obtain ⟨-, rfl⟩ := Prod.mk.inj (Option.some.inj hk)
        rfl
      · rw [ih hk, complete_wait_standing]
        rfl

theorem timer_handler_standing (hk : tkmc_timer_handler k times = some k') : k'.standing = k.standing := by
  unfold tkmc_timer_handler at hk
  dsimp only at hk
  split at hk
  · rw [Option.some.inj hk]
  split at hk
  · cases hk
  · rename_i ended k1 hloop
    have hk1 := timer_loop_standing hloop
    rw [← Option.some.inj hk]
    split
    · rw [request_switch_standing, hk1]
      rfl
    · rw [hk1]
      rfl

theorem leave_call_queue (k : Kernel) (c : Call) (flow : Flow) :
    (leave_call k c flow).wait_queue = k.wait_queue := by
  unfold leave_call
  split
  · rfl
  · split <;> rfl
  · split <;> rfl

/-- The acts that may change what stands. -/
def Act.rearranges : Act → Bool
  | .call c _ => c.rearranges
  | .set_msgpri .. => true
  | _ => false

theorem step_standing {a : Act} (ha : a.rearranges = false) (hk : step e k a = some k') :
    k'.standing = k.standing := by
  cases a with
  | call c times =>
    simp only [step, Option.ite_none_right_eq_some, Option.map_eq_some_iff] at hk
    obtain ⟨-, ⟨flow, k1⟩, hx, rfl⟩ := hk
    rw [leave_call_standing]
    exact exec_standing ha hx
  | resume =>
    simp only [step] at hk
    split at hk
    · cases hk
    split at hk
    · cases hk
    split at hk
    · cases hk
    · rw [← Option.some.inj hk, tasks_standing, tkmc_yield_standing]
    · rw [← Option.some.inj hk, tasks_standing, exec_end_standing]
  | yield =>
    simp only [step, Option.ite_none_right_eq_some] at hk
    rw [← Option.some.inj hk.2, tkmc_yield_standing]
  | di | ei =>
    simp only [step, Option.ite_none_right_eq_some] at hk
    rw [← Option.some.inj hk.2]
    rfl
  | stack_write frame =>
    simp only [step, Option.map_eq_some_iff] at hk
    obtain ⟨t, -, rfl⟩ := hk
    rfl
  | set_msgpri => cases ha
  | external_enter =>
    simp only [step, Option.ite_none_right_eq_some] at hk
    rw [← Option.some.inj hk.2]
    rfl
  | external_leave sp =>
    simp only [step, Option.ite_none_left_eq_some] at hk
    rw [← Option.some.inj hk.2]
    split
    · exact serve_msip_standing k sp
    · rfl
  | timer_interrupt times sp =>
    simp only [step, Option.ite_none_right_eq_some, Option.map_eq_some_iff] at hk
    obtain ⟨-, k1, hk1, rfl⟩ := hk
    have hhandler := timer_handler_standing hk1
    exact (serve_msip_standing k1 sp).trans hhandler
  | software_interrupt sp =>
    simp only [step, Option.ite_none_right_eq_some] at hk
    rw [← Option.some.inj hk.2]
    exact schedule_standing _ sp

end TsukumoCore
