import TsukumoCore.Calls.Handler
import TsukumoCore.Calls.Mailboxes

/-!
# Every step

`Inv` is what holds between any two steps. `StepOk` adds what a step can do, as moves.
-/

namespace TsukumoCore

variable {e : Entries} {k k' : Kernel} {times : List Nat} {t : TskId}

structure Inv (k : Kernel) : Prop extends Good k where
  served : ∀ o, Served k.toTasks k.toObjects o
  unitsOk : UnitsOk k.toTasks k.toObjects
  mailOk : MailOk k.toTasks k.toObjects

/-- The moves of a step from `k` to `k'`. -/
def stepMoves (e : Entries) (k k' : Kernel) : Act → Move → Prop
  | .call c times, m => callMoves e k c times m
  | .resume, .finish t _ => k.current = some t
  | .resume, .unpark t => k.current = some t
  | .resume, .yield t => k.current = some t
  | .yield, .yield t => k.current = some t
  | .stack_write _, .stackWrite t _ => k.current = some t
  | .external_leave _, .dispatch old new _ => k.current = some old ∧ k'.current = some new
  | .software_interrupt _, .dispatch old new _ => k.current = some old ∧ k'.current = some new
  | .timer_interrupt _ _, .dispatch old new _ => k.current = some old ∧ k'.current = some new
  | .timer_interrupt _ _, m => timerMoves m
  | _, _ => False

structure StepOk (e : Entries) (k : Kernel) (a : Act) (k' : Kernel) : Prop where
  inv : Inv k'
  does : Does (stepMoves e k k' a) k.toTasks k'.toTasks
  current : k'.current = k.current ∨ ∃ t post, k'.current = some t ∧ k'.log = k.log ++ post ∧ .dispatch t ∈ post

/-! ## Calls -/

theorem exec_outcome (h : Good k) (hcan : canCall k = true) {c : Call} {flow : Flow}
    (hx : exec e k times c = some (flow, k')) : Outcome e k c times (leave_call k' c flow) := by
  cases c with
  | ext_tsk =>
    simp only [exec, Option.map_eq_some_iff, Prod.mk.injEq] at hx
    obtain ⟨k1, hk, rfl, rfl⟩ := hx
    exact (tk_ext_tsk_returns h hcan hk _).outcome
  | exd_tsk =>
    simp only [exec, Option.map_eq_some_iff, Prod.mk.injEq] at hx
    obtain ⟨k1, hk, rfl, rfl⟩ := hx
    exact (tk_exd_tsk_returns h hcan hk _).outcome
  | wait w =>
    cases w with
    | slp tmout =>
      obtain ⟨rfl, rfl⟩ : (tk_slp_tsk k tmout times).1 = flow ∧ _ = k' := by simpa [exec, Prod.ext_iff] using hx
      exact tk_slp_tsk_outcome h hcan tmout
    | dly dlytm =>
      obtain ⟨rfl, rfl⟩ : (tk_dly_tsk k dlytm times).1 = flow ∧ _ = k' := by simpa [exec, Prod.ext_iff] using hx
      exact tk_dly_tsk_outcome h hcan dlytm
    | sem semid cnt tmout =>
      obtain ⟨rfl, rfl⟩ : (tk_wai_sem k semid cnt tmout times).1 = flow ∧ _ = k' := by
        simpa [exec, Prod.ext_iff] using hx
      exact tk_wai_sem_outcome h hcan semid cnt tmout
    | flg flgid waiptn wfmode p_flgptn tmout =>
      obtain ⟨rfl, rfl⟩ : (tk_wai_flg k flgid waiptn wfmode p_flgptn tmout times).1 = flow ∧ _ = k' := by
        simpa [exec, Prod.ext_iff] using hx
      exact tk_wai_flg_outcome h hcan flgid waiptn wfmode p_flgptn tmout
    | mbx mbxid ppk_msg tmout =>
      obtain ⟨rfl, rfl⟩ : (tk_rcv_mbx k mbxid ppk_msg tmout times).1 = flow ∧ _ = k' := by
        simpa [exec, Prod.ext_iff] using hx
      exact tk_rcv_mbx_outcome h hcan mbxid ppk_msg tmout
  | _ =>
    simp only [exec, Option.some.injEq, Prod.mk.injEq] at hx
    obtain ⟨rfl, rfl⟩ := hx
    first
      | exact (tk_cre_tsk_returns h _).outcome
      | exact (tk_sta_tsk_returns h _ _).outcome
      | exact (tk_rel_wai_returns h _).outcome
      | exact (tk_wup_tsk_returns h _).outcome
      | exact (tk_cre_sem_returns h _).outcome
      | exact (tk_sig_sem_returns h _ _).outcome
      | exact (tk_del_sem_returns h _).outcome
      | exact (tk_cre_flg_returns h _).outcome
      | exact (tk_set_flg_returns h _ _).outcome
      | exact (tk_clr_flg_returns h _ _).outcome
      | exact (tk_cre_mbx_returns h _).outcome
      | exact (tk_snd_mbx_returns h _ _).outcome
      | exact (tk_del_mbx_returns h _).outcome

theorem call_ok (h : Inv k) (hcan : canCall k = true) {c : Call} {flow : Flow} {k1 : Kernel}
    (hx : exec e k times c = some (flow, k1)) : StepOk e k (.call c times) (leave_call k1 c flow) := by
  have hout := exec_outcome h.toGood hcan hx
  obtain ⟨next, msip, hm⟩ := hout.machine
  refine ⟨⟨⟨hout.core, hout.sched⟩, hout.served h.served, hout.unitsOk h.unitsOk, hout.mailOk h.mailOk⟩,
    hout.does, .inl ?_⟩
  have := congrArg Machine.current hm
  exact this

/-! ## Steps that touch no object -/

theorem Inv.moved {P : Move → Prop} (h : Inv k) (hd : Does P k.toTasks k'.toTasks)
    (hobj : ∃ f, k'.toObjects = { k.toObjects with msgpri := f }) (hsched : SchedOk k'.toTasks k'.toMachine)
    (hP : ∀ m, P m → m.touches = none) (hsilent : ∀ m q, P m → ∀ ev ∈ m.events q, SilentEvent ev) :
    Inv k' := by
  obtain ⟨hcore, hserved⟩ := h.core.does hd hP
  obtain ⟨f, hobj⟩ := hobj
  have hcb : ∀ o, k'.cb o = k.cb o := by intro o; rw [hobj]; cases o <;> rfl
  have hlive : ∀ o, k'.Live o ↔ k.Live o := by intro o; simp only [Objects.Live, hcb]
  refine ⟨⟨?_, hsched⟩, ?_, ?_, ?_⟩
  · refine hcore.objects (fun o => by rw [hcb]) (by rw [hobj]) (by rw [hobj]) (by rw [hobj]) ?_
    intro o ho
    rw [hcb]
    exact hcore.range o ho
  · intro o ho
    rw [hcb]
    exact hserved o (h.served o) ((hlive o).mp ho)
  · intro s hs
    have hunits : units s k'.log = units s k.log :=
      hd.balance fun m q hm _ ev hev => (hsilent m q hm ev hev).1 s
    rw [hunits, hobj]
    exact h.unitsOk s ((hlive _).mp hs)
  · intro m msg hm
    have hmail : mail m msg k'.log = mail m msg k.log :=
      hd.balance fun m' q hm' _ ev hev => (hsilent m' q hm' ev hev).2 m msg
    rw [hmail, hobj]
    exact h.mailOk m msg ((hlive _).mp hm)

theorem Inv.quiet (h : Inv k) (htasks : k'.toTasks = k.toTasks)
    (hobj : ∃ f, k'.toObjects = { k.toObjects with msgpri := f }) (hsched : SchedOk k'.toTasks k'.toMachine) :
    Inv k' :=
  h.moved (P := fun _ => False) (htasks ▸ .refl _) hobj hsched (by simp) (by simp)

theorem SchedOk.mask {q : Tasks} {c : Machine} (h : SchedOk q c) {mie : Bool} {depth : Nat}
    (hm : depth = 0 → mie = false → ∀ t, c.current = some t → (q.tcbs t).tskstat = .RUN) :
    SchedOk q { c with mie := mie, isr_depth := depth } :=
  ⟨h.idle, h.current, h.running, h.settled, h.requested, hm⟩

theorem silent_move {m : Move} (hm : ∀ t w cause, m ≠ .wake t w cause) (hg : ∀ t w d, m ≠ .give t w d)
    (hn : ∀ c r, m ≠ .note c r) (q : Tasks) : ∀ ev ∈ m.events q, SilentEvent ev := by
  intro ev hev
  have hsilent : ∀ t w r, SilentEvent (.enqueue t) ∧ SilentEvent (.dispatch t) ∧ SilentEvent (.block t w) ∧
      SilentEvent (.finish t w r) := fun t w r =>
    ⟨⟨fun _ => ⟨rfl, rfl⟩, fun _ _ => ⟨rfl, rfl⟩⟩, ⟨fun _ => ⟨rfl, rfl⟩, fun _ _ => ⟨rfl, rfl⟩⟩,
      ⟨fun _ => ⟨rfl, rfl⟩, fun _ _ => ⟨rfl, rfl⟩⟩, ⟨fun _ => ⟨rfl, rfl⟩, fun _ _ => ⟨rfl, rfl⟩⟩⟩
  cases m with
  | wake t w cause => exact absurd rfl (hm t w cause)
  | give t w d => exact absurd rfl (hg t w d)
  | note c r => exact absurd rfl (hn c r)
  | block t w queue timed =>
    rw [List.mem_singleton.mp hev]
    exact (hsilent t w { ercd := .E_OK }).2.2.1
  | start t | yield t =>
    rw [List.mem_singleton.mp hev]
    exact (hsilent t (.slp 0) { ercd := .E_OK }).1
  | dispatch old new sp =>
    rw [List.mem_singleton.mp hev]
    exact (hsilent new (.slp 0) { ercd := .E_OK }).2.1
  | finish t w =>
    rw [List.mem_singleton.mp hev]
    exact (hsilent t w _).2.2.2
  | _ => exact absurd hev List.not_mem_nil

/-! ## The rest of a wait call -/

theorem exec_end_eq (h : Placed k.toTasks) (hact : (k.tcbs t).active) (w : WaitCall) :
    exec_end k t w = (w.result (k.tcbs t), k.tasks (·.setTcb t w.after)) := by
  have hlink := h.wait_link_self hact.stat_ne_wai
  cases w with
  | slp | dly | sem => exact Prod.ext rfl (EI_DI _ k)
  | flg =>
    refine Prod.ext ?_ (EI_DI _ k)
    simp [exec_end, tk_wai_flg_end, take_cause, WaitCall.result, Kernel.tasks, Tasks.setTcb]
  | mbx mbxid ppk_msg tmout =>
    have hself : (k.DI.tcbs t).wait_link = .self := hlink
    simp only [exec_end, tk_rcv_mbx_end, Kernel.tasks, hself, ne_eq, not_true_eq_false, if_false]
    exact Prod.ext rfl (EI_DI (k.setTcb t (WaitCall.mbx mbxid ppk_msg tmout).after) k)

theorem one_ok (h : Inv k) {a : Act} {m : Move} (ha : m.Allowed k.toTasks) (hm : stepMoves e k k' a m)
    (htasks : k'.toTasks = m.effect k.toTasks) (hobj : k'.toObjects = k.toObjects)
    (hsched : SchedOk k'.toTasks k'.toMachine) (hcur : k'.current = k.current) (htouch : m.touches = none)
    (hsilent : ∀ q, ∀ ev ∈ m.events q, SilentEvent ev) : StepOk e k a k' := by
  refine ⟨?_, htasks ▸ .one hm ha, .inl hcur⟩
  refine h.moved (P := (· = m)) (htasks ▸ .one (P := (· = m)) rfl ha) ⟨_, hobj⟩ hsched ?_ ?_
  · rintro m' rfl; exact htouch
  · rintro m' q rfl; exact hsilent q

theorem resume_ok (h : Inv k) (ht : k.current = some t) (hruns : taskRuns k = true) {w : WaitCall}
    (hp : k.pending t = some (.wait w)) :
    StepOk e k .resume ((exec_end k t w).2.tasks fun q =>
      (q.setPending t none).note (.finish t w (exec_end k t w).1)) := by
  have hact : (k.tcbs t).active := .inr (h.sched.runs hruns ht)
  have ha : (Move.finish t w).Allowed k.toTasks := ⟨hact, hp⟩
  rw [exec_end_eq h.core.tasks.toPlaced hact]
  refine one_ok h ha ht rfl rfl ?_ rfl rfl fun q => silent_move (by simp) (by simp) (by simp) q
  exact h.sched.quiet (Move.sameRun h.core.tasks.toPlaced ha rfl) rfl

theorem tkmc_yield_eq (h : Placed k.toTasks) (ht : k.current = some t) (hact : (k.tcbs t).active) :
    (tkmc_yield k).toTasks = (Move.yield t).effect k.toTasks ∧ (tkmc_yield k).toObjects = k.toObjects ∧
      (tkmc_yield k).toMachine = k.toMachine.request (tkmc_yield k).toTasks := by
  have hk : tkmc_yield k = (request_switch (k.DI.tasks fun q => (q.del_head t).add_ready t)).EI k.mie := by
    unfold tkmc_yield request_switch
    simp only [ht, show (k.DI.tasks fun q => (q.del_head t).add_ready t).current = some t from ht]
    simp only [ne_comm]
  rw [hk]
  refine ⟨?_, by simp [Kernel.tasks], ?_⟩
  · rw [EI_toTasks, request_switch_toTasks]
    exact yield_eq h hact
  · generalize hk1 : (k.DI.tasks fun q => (q.del_head t).add_ready t) = k1
    have hm : k1.toMachine = k.DI.toMachine := by rw [← hk1]; rfl
    rw [request_EI hm]
    simp

theorem yield_ok (h : Inv k) (ht : k.current = some t) (hact : (k.tcbs t).active) {a : Act}
    (hm : stepMoves e k (tkmc_yield k) a (.yield t)) : StepOk e k a (tkmc_yield k) := by
  obtain ⟨htasks, hobj, hmachine⟩ := tkmc_yield_eq h.core.tasks.toPlaced ht hact
  have ha : (Move.yield t).Allowed k.toTasks := hact
  refine one_ok h ha hm htasks hobj ?_ ?_ rfl fun q => silent_move (by simp) (by simp) (by simp) q
  · rw [hmachine, htasks]
    exact h.sched.request (Move.sameRun h.core.tasks.toPlaced ha rfl)
  · have := congrArg Machine.current hmachine
    exact this

theorem unpark_ok (h : Inv k) (ht : k.current = some t) (hact : (k.tcbs t).active)
    (hp : k.pending t = some .yield) :
    StepOk e k .resume ((tkmc_yield k).tasks (·.setPending t none)) := by
  have hyield := yield_ok (e := e) h ht hact (a := .resume) ht
  obtain ⟨htasks, -, hmachine⟩ := tkmc_yield_eq h.core.tasks.toPlaced ht hact
  have ha : (Move.unpark t).Allowed (tkmc_yield k).toTasks := by
    rw [htasks]
    exact ⟨hact, hp⟩
  have hcur : (tkmc_yield k).current = some t := by
    have := congrArg Machine.current hmachine
    exact this.trans ht
  have hunpark : StepOk e (tkmc_yield k) .resume ((tkmc_yield k).tasks (·.setPending t none)) :=
    one_ok hyield.inv ha hcur rfl rfl (hyield.inv.sched.quiet ⟨fun _ => Iff.rfl, id⟩ rfl) rfl rfl
      fun q => silent_move (by simp) (by simp) (by simp) q
  refine ⟨hunpark.inv, ?_, .inl (hcur.trans ht.symm)⟩
  refine (hyield.does.mono fun m hm => ?_).trans (.one (m := .unpark t) ht ha)
  cases m <;> exact hm

/-! ## Traps -/

theorem serve_msip_eq (hsched : SchedOk k.toTasks k.toMachine) (h : Placed k.toTasks) (sp : UINT) :
    serve_msip k sp = k ∧ k.msip = false ∨
      ∃ old new, k.current = some old ∧ k.next = some new ∧ k.msip = true ∧
        (Move.dispatch old new sp).Allowed k.toTasks ∧
        serve_msip k sp = { k with
          toTasks := (Move.dispatch old new sp).effect k.toTasks, current := some new, msip := false } := by
  unfold serve_msip
  split
  · rename_i hmsip
    right
    obtain ⟨old, hold⟩ := hsched.current
    obtain ⟨new, hnew⟩ := highest_of_active h hsched.idle.1
    have hnext : k.next = some new := (hsched.requested hmsip).trans hnew
    obtain ⟨i, -, hhead, -⟩ := highest_iff.mp hnew
    have hact := (((h.task new).ready i).mp (List.mem_of_mem_head? hhead)).1
    refine ⟨old, new, hold, hnext, hmsip, hact, ?_⟩
    unfold schedule
    simp only [hold, hnext]
    rfl
  · rename_i hmsip
    exact .inl ⟨rfl, by simpa using hmsip⟩

theorem serve_ok {a : Act} {k1 : Kernel} (h1 : Inv k1)
    (hdoes : Does (stepMoves e k k' a) k.toTasks k1.toTasks) (hcur : k1.current = k.current)
    (sp : UINT) (depth : Nat) (hk : k' = { serve_msip k1 sp with mie := true, isr_depth := depth })
    (hm : ∀ old new, k.current = some old → k'.current = some new →
      stepMoves e k k' a (.dispatch old new sp)) : StepOk e k a k' := by
  rcases serve_msip_eq h1.sched h1.core.tasks.toPlaced sp with ⟨hsame, hmsip⟩ | ⟨old, new, hold, hnext, hmsip, ha, heq⟩
  · rw [hsame] at hk
    subst hk
    exact ⟨h1.quiet rfl ⟨_, rfl⟩ (h1.sched.mask (by simp)), hdoes, .inl hcur⟩
  · rw [heq] at hk
    have hnew : k'.current = some new := by rw [hk]
    have htasks : k'.toTasks = (Move.dispatch old new sp).effect k1.toTasks := by rw [hk]
    have hd : Does (· = .dispatch old new sp) k1.toTasks k'.toTasks :=
      htasks ▸ .one (P := (· = .dispatch old new sp)) rfl ha
    refine ⟨?_, ?_, .inr ?_⟩
    · refine h1.moved hd ⟨_, by rw [hk]⟩ ?_ (by rintro m rfl; rfl) ?_
      · rw [htasks, hk]
        exact h1.sched.dispatch hmsip hnext hold sp true depth
      · rintro m q rfl
        exact silent_move (by simp) (by simp) (by simp) q
    · refine hdoes.trans (hd.mono ?_)
      rintro m rfl
      exact hm old new (hcur ▸ hold) hnew
    · obtain ⟨post, hpost⟩ := hdoes.log
      refine ⟨new, post ++ [.dispatch new], hnew, ?_, by simp⟩
      rw [htasks, Move.log_effect, hpost, List.append_assoc]
      rfl

/-- A trap of the software interrupt is the end of a trap that does nothing else. -/
theorem software_eq (hmsip : k.msip = true) (sp : UINT) :
    schedule { k with msip := false } sp = serve_msip k sp := by
  unfold serve_msip
  rw [if_pos hmsip]

theorem Inv.entered (h : Inv k) : Inv { k with mie := false, isr_depth := k.isr_depth + 1 } :=
  h.quiet rfl ⟨_, rfl⟩ (h.sched.mask (by simp))

theorem Inv.ends {k1 : Kernel} (h : Inv k) (hends : Ends timerMoves k k1) (htasks : k'.toTasks = k1.toTasks)
    (hobj : k'.toObjects = k1.toObjects) (hserved : ∀ o, Served k1.toTasks k1.toObjects o)
    (hsched : SchedOk k'.toTasks k'.toMachine) : Inv k' := by
  refine ⟨⟨htasks ▸ hobj ▸ hends.core, hsched⟩, htasks ▸ hobj ▸ hserved, ?_, ?_⟩
  · rw [htasks, hobj]
    intro s hs
    have := h.unitsOk s ((hends.objects.live _).mp hs)
    have := hends.balance s
    omega
  · rw [htasks, hobj]
    intro m msg hm
    have hmail : mail m msg k1.log = mail m msg k.log := by
      refine hends.does.balance fun m' q hm' ha ev hev => ?_
      cases m' with
      | wake t w cause => exact silent_wake ha m msg ev hev
      | tick n => exact absurd hev List.not_mem_nil
      | _ => exact absurd hm' id
    have hmbx : k1.mbxcbs = k.mbxcbs := by
      have hrest := congrArg Objects.mbxcbs hends.objects.rest
      exact hrest
    rw [hmail, hmbx]
    exact h.mailOk m msg ((hends.objects.live _).mp hm)

theorem timer_handler_ends (h : Inv k) {times : List Nat} (hk : tkmc_timer_handler k times = some k') :
    Inv k' ∧ Does timerMoves k.toTasks k'.toTasks ∧ k'.current = k.current ∧ k'.isr_depth = k.isr_depth := by
  by_cases hz : (pass_elapsed_periods k.s_mtimecmp times).2 = 0
  · rw [timer_handler_none hz] at hk
    obtain rfl := Option.some.inj hk
    exact ⟨h, .refl _, rfl, rfl⟩
  obtain ⟨b, k1, hr, heq⟩ := timer_handler_rounds h.core hz
  rw [heq] at hk
  generalize pass_elapsed_periods k.s_mtimecmp times = cp at *
  have h0 : Inv (k.compare cp.1) := h.quiet rfl ⟨_, rfl⟩
    ⟨h.sched.idle, h.sched.current, h.sched.running, h.sched.settled, h.sched.requested, h.sched.masked⟩
  obtain ⟨hends, hserved⟩ := Rounds.ends h0.core hr
  have hrun := Does.sameRun h0.core.tasks hends.does (by
    intro m hm
    cases m <;> first | rfl | exact absurd hm id)
  have hall := fun o => hserved o (h0.served o)
  cases b with
  | false =>
    obtain rfl : k1 = k' := Option.some.inj hk
    have hsched := h0.sched.quiet hrun hr.ready_queue
    rw [← hends.machine] at hsched
    have hcur := congrArg Machine.current hends.machine
    have hdepth := congrArg Machine.isr_depth hends.machine
    exact ⟨h0.ends hends rfl rfl hall hsched, hends.does, hcur, hdepth⟩
  | true =>
    obtain rfl : request_switch k1 = k' := Option.some.inj hk
    have hm := request_switch_toMachine k1
    rw [hends.machine] at hm
    have hsched := h0.sched.request hrun
    rw [← hm, ← request_switch_toTasks k1] at hsched
    have hcur := congrArg Machine.current hm
    have hdepth := congrArg Machine.isr_depth hm
    refine ⟨h0.ends hends (by simp) (by simp) hall hsched, ?_, hcur, hdepth⟩
    rw [request_switch_toTasks]
    exact hends.does

/-! ## Every step -/

theorem step_ok (h : Inv k) {a : Act} (hk : step e k a = some k') : StepOk e k a k' := by
  cases a with
  | call c times =>
    simp only [step, Option.ite_none_right_eq_some, Option.map_eq_some_iff] at hk
    obtain ⟨hcan, ⟨flow, k1⟩, hx, rfl⟩ := hk
    exact call_ok h hcan hx
  | resume =>
    unfold step at hk
    obtain ⟨t, ht⟩ := h.sched.current
    simp only [ht] at hk
    by_cases hruns : taskRuns k = true
    · simp only [hruns, Bool.not_true, Bool.false_eq_true, if_false] at hk
      have hact : (k.tcbs t).active := .inr (h.sched.runs hruns ht)
      split at hk
      · exact absurd hk (by simp)
      · rename_i hp
        obtain rfl := Option.some.inj hk
        exact unpark_ok h ht hact hp
      · rename_i w hp
        obtain rfl := Option.some.inj hk
        exact resume_ok h ht hruns hp
    · simp [hruns] at hk
  | yield =>
    simp only [step, Option.ite_none_right_eq_some, Bool.and_eq_true, decide_eq_true_eq] at hk
    obtain ⟨⟨⟨hruns, -⟩, ht⟩, hk⟩ := hk
    obtain rfl := Option.some.inj hk
    exact yield_ok h ht (.inr (h.sched.runs hruns ht)) ht
  | di =>
    simp only [step, Option.ite_none_right_eq_some, Bool.or_eq_true] at hk
    obtain ⟨hwho, hk⟩ := hk
    obtain rfl := Option.some.inj hk
    refine ⟨h.quiet rfl ⟨_, rfl⟩ (h.sched.mask ?_), .refl _, .inl rfl⟩
    rintro hd - t ht
    rcases hwho with hisr | hruns
    · simp [tkmc_in_isr, hd] at hisr
    · exact h.sched.runs hruns ht
  | ei =>
    simp only [step, Option.ite_none_right_eq_some, Bool.or_eq_true] at hk
    obtain ⟨-, hk⟩ := hk
    obtain rfl := Option.some.inj hk
    exact ⟨h.quiet rfl ⟨_, rfl⟩ (h.sched.mask (by simp)), .refl _, .inl rfl⟩
  | stack_write frame =>
    simp only [step, Option.map_eq_some_iff] at hk
    obtain ⟨t, ht, rfl⟩ := hk
    exact one_ok h (m := .stackWrite t frame) trivial ht rfl rfl
      (h.sched.quiet (Move.sameRun h.core.tasks.toPlaced (m := .stackWrite t frame) trivial rfl) rfl) rfl rfl
      fun q => silent_move (by simp) (by simp) (by simp) q
  | set_msgpri msg msgpri =>
    obtain rfl := Option.some.inj hk
    exact ⟨h.quiet rfl ⟨_, rfl⟩ h.sched, .refl _, .inl rfl⟩
  | external_enter =>
    simp only [step, Option.ite_none_right_eq_some] at hk
    obtain ⟨-, hk⟩ := hk
    obtain rfl := Option.some.inj hk
    exact ⟨h.entered, .refl _, .inl rfl⟩
  | external_leave sp =>
    simp only [step, Option.ite_none_left_eq_some] at hk
    obtain ⟨-, hk⟩ := hk
    obtain hk := Option.some.inj hk
    by_cases hdepth : k.isr_depth = 1
    · simp only [hdepth, if_true] at hk
      refine serve_ok h (.refl _) rfl sp _ hk.symm ?_
      intro old new hold hnew
      exact ⟨hold, hnew⟩
    · simp only [hdepth, if_false] at hk
      subst hk
      exact ⟨h.quiet rfl ⟨_, rfl⟩ (h.sched.mask (by simp)), .refl _, .inl rfl⟩
  | timer_interrupt times sp =>
    simp only [step, Option.ite_none_right_eq_some, Option.map_eq_some_iff] at hk
    obtain ⟨-, k1, hk1, hk⟩ := hk
    obtain ⟨hinv, hdoes, hcur, hdepth⟩ := timer_handler_ends h.entered hk1
    refine serve_ok hinv (hdoes.mono fun m hm => ?_) hcur sp _ hk.symm ?_
    · cases m <;> first | exact hm | exact absurd hm id
    · intro old new hold hnew
      exact ⟨hold, hnew⟩
  | software_interrupt sp =>
    simp only [step, Option.ite_none_right_eq_some, Bool.and_eq_true] at hk
    obtain ⟨⟨-, hmsip⟩, hk⟩ := hk
    obtain hk := Option.some.inj hk
    refine serve_ok h.entered (.refl _) rfl sp k.isr_depth ?_ fun old new hold hnew => ⟨hold, hnew⟩
    rw [← software_eq (k := { k with mie := false, isr_depth := k.isr_depth + 1 }) hmsip]
    exact hk.symm

end TsukumoCore
