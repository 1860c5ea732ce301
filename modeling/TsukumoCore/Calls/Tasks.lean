import TsukumoCore.Calls.Outcome

/-! # The calls on tasks -/

namespace TsukumoCore

variable {e : Entries} {k : Kernel} {times : List Nat}

theorem Good.current_ne (h : Good k) : k.current ≠ none := by
  obtain ⟨t, ht⟩ := h.sched.current
  simp [ht]

/-! ## Creation and start -/

theorem check_ctsk_priority {pk : T_CTSK} {stack_end : UINT} (h : check_ctsk pk = .ok stack_end) :
    1 ≤ pk.itskpri ∧ pk.itskpri ≤ CFN_MAX_PRI := by
  unfold check_ctsk at h
  split at h <;> try contradiction
  split at h <;> try contradiction
  split at h <;> try contradiction
  split at h <;> try contradiction
  rename_i hpri
  simp only [CFN_MAX_PRI] at *
  omega

theorem tk_cre_tsk_returns (h : Good k) (pk_ctsk : Option T_CTSK) :
    Returns e k (.cre_tsk pk_ctsk) times (tk_cre_tsk k pk_ctsk).1 (tk_cre_tsk k pk_ctsk).2 := by
  have hsilent : ∀ r, SilentEvent (.ret (.cre_tsk pk_ctsk) r) :=
    fun r => ⟨fun _ => ⟨rfl, rfl⟩, fun _ _ => ⟨rfl, rfl⟩⟩
  unfold tk_cre_tsk
  split
  · exact .refused h (hsilent _)
  rename_i pk
  split
  · exact .refused h (hsilent _)
  rename_i stack_end hcheck
  dsimp only
  split
  · rw [DI_EI]; exact .refused h (hsilent _)
  rename_i t rest hfree
  split
  · have hcreate := create_eq h.core.tasks.toPlaced hfree pk (stack_end - sizeofStashedRegisters)
    have ha : (Move.create t pk (stack_end - sizeofStashedRegisters)).Allowed k.toTasks :=
      ⟨by rw [show k.free_tcb = t :: rest from hfree]; rfl, check_ctsk_priority hcheck⟩
    exact .plain h ha rfl rfl rfl rfl (by simp [Move.events]) (hsilent _) hcreate rfl rfl
  · -- the ID of a free TCB is never negative
    rename_i hneg
    have hid := (h.core.tasks.task t).id
    simp only [Kernel.tasks, Tasks.init_head, Tasks.setTcb, Tasks.check, Tasks.del_head,
      Function.update_self, DI_toTasks] at hneg
    omega

theorem tk_sta_tsk_eq (h : Placed k.toTasks) {tskid : Int} {t : TskId}
    (ht : tableEntry CFN_MAX_TSKID tskid = some t) (hs : (k.tcbs t).tskstat = .DMT) (stacd : Int) :
    tk_sta_tsk e k tskid stacd = (.E_OK, (dispatch_if_needed (k.DI.tasks (Move.effect ·
      (.start t (initialFrame e.tk_ext_tsk (k.tcbs t).task (k.tcbs t).exinf stacd))))).EI k.mie) := by
  have hstart := start_eq h hs (initialFrame e.tk_ext_tsk (k.tcbs t).task (k.tcbs t).exinf stacd)
  have hdmt : (k.DI.tcbs t).tskstat = .DMT := hs
  unfold tk_sta_tsk
  simp only [ht, hdmt, reduceCtorEq, if_false, ne_eq, not_true_eq_false]
  refine congrArg (fun k' => (ER.E_OK, (dispatch_if_needed k').EI k.mie)) ?_
  refine congrArg (fun q => ({ k.DI with toTasks := q } : Kernel)) (Eq.trans ?_ hstart)
  simp [Tasks.setTcb, Tasks.init_wait, Tasks.check]

theorem tk_sta_tsk_dormant {tskid stacd : Int} (hok : (tk_sta_tsk e k tskid stacd).1 = .E_OK) {t : TskId}
    (ht : tableEntry CFN_MAX_TSKID tskid = some t) : (k.tcbs t).tskstat = .DMT := by
  revert hok
  unfold tk_sta_tsk
  simp only [ht]
  split
  · simp
  split
  · simp
  rename_i hdmt
  intro _
  simpa using hdmt

theorem tk_sta_tsk_returns (h : Good k) (tskid stacd : Int) :
    Returns e k (.sta_tsk tskid stacd) times { ercd := (tk_sta_tsk e k tskid stacd).1 }
      (tk_sta_tsk e k tskid stacd).2 := by
  have hsilent : ∀ r, SilentEvent (.ret (.sta_tsk tskid stacd) r) :=
    fun r => ⟨fun _ => ⟨rfl, rfl⟩, fun _ _ => ⟨rfl, rfl⟩⟩
  cases ht : tableEntry CFN_MAX_TSKID tskid with
  | none =>
    simp only [tk_sta_tsk, ht]
    exact .refused h (hsilent _)
  | some t =>
    by_cases hs : (k.tcbs t).tskstat = .DMT
    · rw [tk_sta_tsk_eq h.core.tasks.toPlaced ht hs]
      generalize hframe : initialFrame e.tk_ext_tsk (k.tcbs t).task (k.tcbs t).exinf stacd = frame
      have ha : (Move.start t frame).Allowed k.toTasks := hs
      have hne : (k.DI.tasks (Move.effect · (.start t frame))).current ≠ none := h.current_ne
      rw [dispatch_if_needed_eq hne]
      refine .requested h ha ⟨tskid, stacd, rfl, ht, hframe.symm⟩ rfl rfl ?_ (hsilent _) rfl rfl rfl
      rintro q ev hev
      rw [List.mem_singleton.mp hev]
      exact ⟨fun _ => ⟨rfl, rfl⟩, fun _ _ => ⟨rfl, rfl⟩⟩
    · have hs' : (k.DI.tcbs t).tskstat ≠ .DMT := hs
      unfold tk_sta_tsk
      simp only [ht, ne_eq, hs', not_false_eq_true, if_true, DI_EI]
      split <;> exact .refused h (hsilent _)

/-! ## The end of a task -/

theorem not_in_isr_iff (k : Kernel) : tkmc_in_isr k = false ↔ k.isr_depth = 0 := by
  unfold tkmc_in_isr
  rw [decide_eq_false_iff_not, not_not]

theorem Good.caller (h : Good k) (hcan : canCall k = true) (hblock : tkmc_can_block k.DI k.mie = true) :
    k.mie = true ∧ ∃ t, k.current = some t ∧ (k.tcbs t).tskstat = .RUN ∧ k.pending t = none ∧
      t ≠ idl_tsk := by
  simp only [tkmc_can_block, Bool.and_eq_true, Bool.not_eq_true', not_in_isr_iff] at hblock
  have hdepth : k.isr_depth = 0 := hblock.2
  obtain ⟨t, ht⟩ := h.sched.current
  have hruns : taskRuns k = true ∧ k.pending t = none ∧ t ≠ idl_tsk := by
    simpa [canCall, (not_in_isr_iff k).mpr hdepth, ht] using hcan
  exact ⟨hblock.1.1, t, ht, h.sched.runs hruns.1 ht, hruns.2⟩

theorem SchedOk.leave {q q' : Tasks} {c : Machine} {t : TskId} (h : SchedOk q c) (hmie : c.mie = true)
    (hidle : t ≠ idl_tsk) (hrun : (q'.tcbs t).tskstat ≠ .RUN) (hother : ∀ u, u ≠ t → q'.tcbs u = q.tcbs u) :
    SchedOk q' (c.away q') := by
  refine h.away hmie ?_ ?_
  · intro u hu
    by_cases hut : u = t
    · subst hut; exact absurd hu hrun
    · rwa [hother u hut] at hu
  · rw [hother idl_tsk (Ne.symm hidle)]; exact h.idle

theorem tk_ext_tsk_returns (h : Good k) (hcan : canCall k = true) {k' : Kernel} (hk : tk_ext_tsk k = some k')
    (r : Ret) : Returns e k .ext_tsk times r k' := by
  have hsilent : SilentEvent (.ret .ext_tsk r) := ⟨fun _ => ⟨rfl, rfl⟩, fun _ _ => ⟨rfl, rfl⟩⟩
  unfold tk_ext_tsk at hk
  dsimp only at hk
  split at hk
  · contradiction
  rename_i hblock
  obtain ⟨hmie, t, ht, hrun, hpend, hidle⟩ := h.caller hcan (by simpa using hblock)
  simp only [show k.DI.current = some t from ht, Option.some.injEq] at hk
  have hact : (k.tcbs t).active := .inr hrun
  have hexit := exit_eq h.core.tasks.toPlaced hact
  have hmachine : k'.toMachine = k.toMachine.away ((Move.exit t).effect k.toTasks) := by
    rw [← hk, ← hexit]; exact away_EI rfl
  have htasks : k'.toTasks = (Move.exit t).effect k.toTasks := by rw [← hk, ← hexit]; rfl
  refine .one h (m := .exit t) ⟨hact, hpend⟩ ⟨ht, hidle⟩ rfl (by simp [Move.events]) htasks
    (by rw [← hk]; rfl) ?_ hsilent ⟨_, _, hmachine⟩
  rw [hmachine, htasks]
  refine h.sched.leave hmie hidle (by simp [Move.effect]) ?_
  intro u hu
  simp [Move.effect, hu]

theorem tk_exd_tsk_returns (h : Good k) (hcan : canCall k = true) {k' : Kernel} (hk : tk_exd_tsk k = some k')
    (r : Ret) : Returns e k .exd_tsk times r k' := by
  have hsilent : SilentEvent (.ret .exd_tsk r) := ⟨fun _ => ⟨rfl, rfl⟩, fun _ _ => ⟨rfl, rfl⟩⟩
  unfold tk_exd_tsk at hk
  dsimp only at hk
  split at hk
  · contradiction
  rename_i hblock
  obtain ⟨hmie, t, ht, hrun, hpend, hidle⟩ := h.caller hcan (by simpa using hblock)
  simp only [show k.DI.current = some t from ht, Option.some.injEq] at hk
  have hact : (k.tcbs t).active := .inr hrun
  have hexit := exitDelete_eq h.core.tasks.toPlaced hact
  have hmachine : k'.toMachine = k.toMachine.away ((Move.exitDelete t).effect k.toTasks) := by
    rw [← hk, ← hexit]; exact away_EI rfl
  have htasks : k'.toTasks = (Move.exitDelete t).effect k.toTasks := by rw [← hk, ← hexit]; rfl
  refine .one h (m := .exitDelete t) ⟨hact, hpend⟩ ⟨ht, hidle⟩ rfl (by simp [Move.events]) htasks
    (by rw [← hk]; rfl) ?_ hsilent ⟨_, _, hmachine⟩
  rw [hmachine, htasks]
  refine h.sched.leave hmie hidle (by simp [Move.effect]) ?_
  intro u hu
  simp [Move.effect, hu]

/-! ## Release and wake-up -/

theorem Core.waiting {q : Tasks} {x : Objects} {t : TskId} (h : Core q x) (hs : (q.tcbs t).tskstat = .WAI) :
    ∃ w, q.pending t = some (.wait w) ∧ (q.tcbs t).tskwait = w.kind := (h.tasks.task t).call hs

theorem WaitCall.kind_of_obj {w : WaitCall} {s : SemId} (h : w.obj = some (.sem s)) : w.kind = .SEM := by
  cases w <;> simp [WaitCall.obj, WaitCall.kind] at h ⊢

theorem ending_wake {c : Call} {t : TskId} {w : WaitCall} {cause : ER} {m : Move}
    (hc : callMoves e k c times (.wake t w cause)) (hsem : w.kind = .SEM → c.wakes .SEM) (hm : ending t w cause m) :
    callMoves e k c times m ∧ ∃ t w cause, m = .wake t w cause := by
  rcases hm with rfl | ⟨s, hw, t', w', rfl, hobj⟩
  · exact ⟨hc, t, w, cause, rfl⟩
  · refine ⟨⟨by simp, fun _ => ?_⟩, t', w', .E_OK, rfl⟩
    rw [WaitCall.kind_of_obj hobj]
    exact hsem (WaitCall.kind_of_obj hw)

theorem tk_rel_wai_returns (h : Good k) (tskid : Int) :
    Returns e k (.rel_wai tskid) times { ercd := (tk_rel_wai k tskid).1 } (tk_rel_wai k tskid).2 := by
  have hsilent : ∀ r, SilentEvent (.ret (.rel_wai tskid) r) :=
    fun r => ⟨fun _ => ⟨rfl, rfl⟩, fun _ _ => ⟨rfl, rfl⟩⟩
  unfold tk_rel_wai
  split
  · exact .refused h (hsilent _)
  rename_i t ht
  dsimp only [DI_toTasks]
  by_cases hno : (k.tcbs t).tskstat = .NOEXS
  · simp only [hno, if_true, reduceCtorEq, if_false, DI_EI]; exact .refused h (hsilent _)
  by_cases hcur : some t = k.DI.current
  · simp only [hno, hcur, if_true, reduceCtorEq, if_false, DI_EI]; exact .refused h (hsilent _)
  by_cases hs : (k.tcbs t).tskstat = .WAI
  · obtain ⟨w, hp, -⟩ := h.core.waiting hs
    have ha : (Move.wake t w .E_RLWAI).Allowed k.toTasks := ⟨hs, hp, by simp, by simp⟩
    obtain ⟨hends, -, hserved⟩ := complete_wait_spec (k := k.DI) h.core ha (by simp)
    simp only [hs, hcur, reduceCtorEq, if_false, if_true, ne_eq, not_true_eq_false]
    exact .woke h hends (fun m => ending_wake ⟨by simp, by simp⟩ fun _ => trivial)
      (fun hall o => hserved o (fun _ _ _ => .inr rfl) (hall o)) (hsilent _)
  · simp only [hno, hcur, hs, if_true, reduceCtorEq, if_false, ne_eq, not_false_eq_true, DI_EI]
    exact .refused h (hsilent _)

theorem queue_wakeup_returns (h : Good k) (tskid : Int) {t : TskId}
    (hs : (k.tcbs t).active ∨ (k.tcbs t).tskstat = .WAI ∧ (k.tcbs t).tskwait ≠ .SLP) :
    Returns e k (.wup_tsk tskid) times { ercd := (queue_wakeup k.DI t).1 }
      ((queue_wakeup k.DI t).2.EI k.mie) := by
  have hsilent : ∀ r, SilentEvent (.ret (.wup_tsk tskid) r) :=
    fun r => ⟨fun _ => ⟨rfl, rfl⟩, fun _ _ => ⟨rfl, rfl⟩⟩
  unfold queue_wakeup
  split
  · rename_i hlt
    exact .plain h (m := .queueWakeup t) ⟨hlt, hs⟩ ⟨tskid, rfl⟩ rfl rfl rfl (by simp [Move.events]) (hsilent _) rfl
      rfl rfl
  · rw [DI_EI]; exact .refused h (hsilent _)

theorem tk_wup_tsk_returns (h : Good k) (tskid : Int) :
    Returns e k (.wup_tsk tskid) times { ercd := (tk_wup_tsk k tskid).1 } (tk_wup_tsk k tskid).2 := by
  have hsilent : ∀ r, SilentEvent (.ret (.wup_tsk tskid) r) :=
    fun r => ⟨fun _ => ⟨rfl, rfl⟩, fun _ _ => ⟨rfl, rfl⟩⟩
  unfold tk_wup_tsk
  split
  · exact .refused h (hsilent _)
  rename_i t ht
  dsimp only
  split
  · rw [DI_EI]; exact .refused h (hsilent _)
  split
  · rename_i hs
    split
    · rename_i hslp
      obtain ⟨w, hp, hkind⟩ := h.core.waiting hs
      have hw : w.kind = .SLP := by rw [← hkind]; exact hslp
      have ha : (Move.wake t w .E_OK).Allowed k.toTasks := ⟨hs, hp, fun _ => .inl hw, by simp⟩
      obtain ⟨hends, -, hserved⟩ := complete_wait_spec (k := k.DI) h.core ha (by simp [hw])
      refine .woke h hends (fun m => ending_wake ⟨by simp, fun _ => ?_⟩ fun hsem => ?_) ?_ (hsilent _)
      · rw [hw]
        trivial
      · exact absurd (hw.symm.trans hsem) (by simp)
      refine fun hall o => hserved o (fun s hos hobj => ?_) (hall o)
      subst hos
      cases w <;> simp [WaitCall.kind, WaitCall.obj] at hw hobj
    · rename_i hslp
      exact queue_wakeup_returns h tskid (.inr ⟨hs, hslp⟩)
  split
  · rename_i hact
    exact queue_wakeup_returns h tskid (.inl hact)
  split
  · rw [DI_EI]; exact .refused h (hsilent _)
  · rw [DI_EI]; exact .refused h (hsilent _)

end TsukumoCore
