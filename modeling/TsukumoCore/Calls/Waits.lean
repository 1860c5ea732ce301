import TsukumoCore.Calls.Tasks

/-! # The calls that wait, up to the wait -/

namespace TsukumoCore

variable {e : Entries} {k : Kernel} {times : List Nat} {t : TskId} {w : WaitCall} {q : Tasks}

/-! ## The state a wait begins in -/

/-- The wait queues with `queue` as the one `w` uses. -/
def queuesOf (q : Tasks) (w : WaitCall) (queue : List TskId) : Obj → List TskId :=
  fun o => if w.obj = some o then queue else q.wait_queue o

/-- `t` written down for a wait in `w`. -/
def Tasks.requestFor (q : Tasks) (t : TskId) (w : WaitCall) (queue : List TskId) : Tasks :=
  q.request t (if w.obj.isSome then .linked else .self) (w.info (q.tcbs t).winfo) (queuesOf q w queue)

theorem block_timed_eq (h : Placed q) (hact : (q.tcbs t).active) (w : WaitCall) (queue : List TskId)
    (n : Nat) :
    ((((((q.requestFor t w queue).setTcb t fun c =>
      { c with tskstat := .WAI, tskwait := w.kind, delay_ticks := n }).del_head t).add_timer t).setPending t
        (some (.wait w))).note (.block t w)) = (Move.block t w queue (some n)).effect q := by
  rw [Tasks.requestFor, begin_timed h hact]
  rfl

theorem block_untimed_eq (h : Placed q) (hact : (q.tcbs t).active) (w : WaitCall) (queue : List TskId) :
    ((((((q.requestFor t w queue).setTcb t fun c =>
      { c with tskstat := .WAI, tskwait := w.kind, delay_ticks := 0 }).del_head t).init_head t).setPending t
        (some (.wait w))).note (.block t w)) = (Move.block t w queue none).effect q := by
  rw [Tasks.requestFor, begin_untimed h hact]
  rfl

theorem requestFor_none (h : Placed q) (hact : (q.tcbs t).active) (hw : w.obj = none)
    (hinfo : w.info (q.tcbs t).winfo = (q.tcbs t).winfo) (queue : List TskId) :
    q.requestFor t w queue = q := by
  have hlink := h.wait_link_self hact.stat_ne_wai
  have hsame : { q.tcbs t with wait_link := .self } = q.tcbs t := by rw [← hlink]
  have hqueues : queuesOf q w queue = q.wait_queue := by funext o; simp [queuesOf, hw]
  ext1 <;> simp [Tasks.requestFor, Tasks.request, hqueues, hw, hinfo, hsame]

theorem requestFor_some {o : Obj} (hw : w.obj = some o) (queue : List TskId) :
    q.requestFor t w queue =
      q.request t .linked (w.info (q.tcbs t).winfo) (Function.update q.wait_queue o queue) := by
  have hqueues : queuesOf q w queue = Function.update q.wait_queue o queue := by
    funext o'
    by_cases ho : o' = o
    · subst ho; simp [queuesOf, hw]
    · simp [queuesOf, hw, ho, Ne.symm ho]
  simp [Tasks.requestFor, hw, hqueues]

/-- The state after the tick count was checked. -/
def Tasks.counted (q : Tasks) (n : Nat) : Tasks := q.check (n < 2 ^ 32) .tickOverflow

theorem away_congr {q' : Tasks} (c : Machine) (h : q'.ready_queue = q.ready_queue) :
    c.away q' = c.away q := by simp only [Machine.away, highest_congr h]

theorem leave_timed (ht : k.current = some t) (hact : (k.tcbs t).active) (w : WaitCall)
    (queue : List TskId) (ms : Nat) (hcounted : Placed (k.toTasks.counted (waitTicks k times ms)))
    {k' : Kernel}
    (hk : k' = leave_call ((tkmc_schedule_timer (k.DI.tasks (·.requestFor t w queue)) t
      (tkmc_ms_to_ticks ms) w.kind times).EI k.mie) (.wait w) .wait) :
    k'.toTasks = (Move.block t w queue (some (waitTicks k times ms % 2 ^ 32))).effect
        (k.toTasks.counted (waitTicks k times ms)) ∧
      k'.toObjects = k.toObjects ∧ k'.toMachine = k.toMachine.away k'.toTasks := by
  have hcur : ((tkmc_schedule_timer (k.DI.tasks (·.requestFor t w queue)) t (tkmc_ms_to_ticks ms)
      w.kind times).EI k.mie).current = some t := ht
  simp only [leave_call, hcur] at hk
  refine ⟨?_, by rw [hk]; rfl, ?_⟩
  · rw [← block_timed_eq hcounted hact, hk]; rfl
  · rw [hk]
    refine Eq.trans (away_EI (k := k) rfl) (away_congr _ ?_)
    rfl

theorem leave_untimed (h : Placed k.toTasks) (ht : k.current = some t) (hact : (k.tcbs t).active)
    (w : WaitCall) (queue : List TskId) {k' : Kernel}
    (hk : k' = leave_call ((wait_forever (k.DI.tasks (·.requestFor t w queue)) t w.kind).EI k.mie)
      (.wait w) .wait) :
    k'.toTasks = (Move.block t w queue none).effect k.toTasks ∧ k'.toObjects = k.toObjects ∧
      k'.toMachine = k.toMachine.away k'.toTasks := by
  have hcur : ((wait_forever (k.DI.tasks (·.requestFor t w queue)) t w.kind).EI k.mie).current = some t :=
    ht
  simp only [leave_call, hcur] at hk
  refine ⟨?_, by rw [hk]; rfl, ?_⟩
  · rw [← block_untimed_eq h hact, hk]; rfl
  · rw [hk]
    refine Eq.trans (away_EI (k := k) rfl) (away_congr _ ?_)
    rfl

/-! ## The outcome of a call that waits -/

/-- What a wait in `w` may find: an object that exists, with a place in its queue for `t`, and in which
`t` behind those ahead of it breaks nothing. -/
structure MayWait (k : Kernel) (t : TskId) (w : WaitCall) (queue : List TskId) : Prop where
  none : w.obj = none → w.kind = .SLP ∨ w.kind = .DLY
  some : ∀ o, w.obj = some o → k.Live o ∧ ∃ ahead behind,
    k.wait_queue o = ahead ++ behind ∧ queue = ahead ++ t :: behind ∧
      ∀ infos', infos' = (infos k.toTasks o).take ahead.length ++ w.info (k.tcbs t).winfo ::
          (infos k.toTasks o).drop ahead.length →
        (k.cb o).Range infos' ∧ ((k.cb o).Served (infos k.toTasks o) → (k.cb o).Served infos')

/-- The tasks are as they were, or only an alarm was raised: the tick count wrapped. -/
def Counted (k : Kernel) (w : WaitCall) (times : List Nat) (q : Tasks) : Prop :=
  q = k.toTasks ∨
    (∃ ms, w.limit = some ms ∧ 2 ^ 32 ≤ waitTicks k times ms) ∧ q = Move.overflow.effect k.toTasks

theorem counted_of_limit (k : Kernel) (times : List Nat) {ms : Nat} (hl : w.limit = some ms) :
    Counted k w times (k.toTasks.counted (waitTicks k times ms)) := by
  unfold Counted Tasks.counted Tasks.check
  by_cases hlt : waitTicks k times ms < 2 ^ 32
  · left; simp only [hlt, if_true]
  · simp only [hlt, if_false]; exact .inr ⟨⟨ms, hl, by omega⟩, rfl⟩

theorem Counted.does (h : Counted k w times q) :
    Does (fun m => m = .overflow ∧ callMoves e k (.wait w) times m) k.toTasks q := by
  rcases h with rfl | ⟨⟨ms, hl, hle⟩, rfl⟩
  · exact .refl _
  · exact .one (m := .overflow) ⟨rfl, w, ms, rfl, hl, hle⟩ trivial

theorem infos_block (h : Placed q) {o : Obj} {ahead behind : List TskId} {timed : Option Nat}
    (hact : (q.tcbs t).active) (ho : w.obj = some o) (hq : q.wait_queue o = ahead ++ behind) :
    infos ((Move.block t w (ahead ++ t :: behind) timed).effect q) o =
      (infos q o).take ahead.length ++ w.info (q.tcbs t).winfo :: (infos q o).drop ahead.length := by
  simp [infos, waiters_block h hact ho hq, List.map_take, List.map_drop]

theorem Outcome.blocked (h : Good k) (hmie : k.mie = true) (ht : k.current = some t)
    (hrun : (k.tcbs t).tskstat = .RUN) (hpend : k.pending t = none) (hidle : t ≠ idl_tsk)
    {queue : List TskId} (hmay : MayWait k t w queue) {timed : Option Nat}
    (htimed : timed = w.limit.map fun ms => waitTicks k times ms % 2 ^ 32) (hq : Counted k w times q)
    {k' : Kernel} (htasks : k'.toTasks = (Move.block t w queue timed).effect q)
    (hobj : k'.toObjects = k.toObjects) (hm : k'.toMachine = k.toMachine.away k'.toTasks) :
    Outcome e k (.wait w) times k' := by
  have hact : (k.tcbs t).active := .inr hrun
  have hsame : q.tcbs = k.tcbs ∧ q.pending = k.pending ∧ q.wait_queue = k.wait_queue := by
    rcases hq with rfl | ⟨-, rfl⟩ <;> exact ⟨rfl, rfl, rfl⟩
  obtain ⟨hcore, hserved⟩ := h.core.does (hq.does (e := e)) (by rintro m ⟨rfl, -⟩; rfl)
  have hinfos : ∀ o, infos q o = infos k.toTasks o := by
    intro o; simp only [infos, waiters, hsame.1, hsame.2.2]
  have ha : (Move.block t w queue timed).Allowed q := by
    refine ⟨by rw [hsame.1]; exact hact, by rw [hsame.2.1]; exact hpend, ?_, ?_⟩
    · intro n hn
      rw [htimed, Option.map_eq_some_iff] at hn
      obtain ⟨ms, -, rfl⟩ := hn
      exact Nat.mod_lt _ (Nat.two_pow_pos 32)
    · cases ho : w.obj with
      | none => exact hmay.none ho
      | some o =>
        obtain ⟨-, ahead, behind, hb, hqueue, -⟩ := hmay.some o ho
        exact ⟨ahead, behind, by rw [hsame.2.2]; exact hb, hqueue⟩
  have hafter : ∀ o, w.obj = some o → k.Live o ∧
      (k.cb o).Range (infos ((Move.block t w queue timed).effect q) o) ∧
      ((k.cb o).Served (infos k.toTasks o) →
        (k.cb o).Served (infos ((Move.block t w queue timed).effect q) o)) := by
    intro o ho
    obtain ⟨hlive, ahead, behind, hb, rfl, hinto⟩ := hmay.some o ho
    refine ⟨hlive, hinto _ ?_⟩
    rw [infos_block hcore.tasks.toPlaced (by rw [hsame.1]; exact hact) ho (by rw [hsame.2.2]; exact hb),
      hinfos, hsame.1]
  have hdoes : Does (callMoves e k (.wait w) times) k.toTasks k'.toTasks := by
    rw [htasks]
    exact (hq.does.mono fun m hm => hm.2).trans (.one ⟨ht, hidle, rfl, htimed⟩ ha)
  have hsilent : Does (fun m => m = .overflow ∨ m = .block t w queue timed) k.toTasks k'.toTasks := by
    rw [htasks]
    exact ((hq.does (e := e)).mono fun m hm => .inl hm.1).trans
      (.one (P := fun m => m = .overflow ∨ m = .block t w queue timed) (.inr rfl) ha)
  refine ⟨?_, ?_, ?_, hdoes, ?_, ?_, ⟨_, _, hm⟩⟩
  · rw [htasks, hobj]
    exact hcore.move ha fun o ho => ⟨(hafter o ho).1, (hafter o ho).2.1⟩
  · intro hall o
    rw [htasks, hobj]
    by_cases ho : w.obj = some o
    · exact fun hlive => (hafter o ho).2.2 (hall o hlive)
    · exact (hserved o (hall o)).move hcore ha ho
  · rw [hm]
    refine h.sched.leave hmie hidle ?_ ?_
    · rw [htasks]; simp [Move.effect]
    · intro u hu
      rw [htasks]
      simp [Move.effect, hu, hsame.1]
  · intro hu s hlive
    have : units s k'.log = units s k.log := by
      refine hsilent.balance ?_
      rintro m q (rfl | rfl) - ev hev
      · simp [Move.events] at hev
      · simp only [Move.events, List.mem_singleton] at hev
        subst hev; exact ⟨rfl, rfl⟩
    rw [this, hobj]
    exact hu s (by rw [← hobj]; exact hlive)
  · intro hml m msg hlive
    have : mail m msg k'.log = mail m msg k.log := by
      refine hsilent.balance ?_
      rintro m q (rfl | rfl) - ev hev
      · simp [Move.events] at hev
      · simp only [Move.events, List.mem_singleton] at hev
        subst hev; exact ⟨rfl, rfl⟩
    rw [this, hobj]
    exact hml m msg (by rw [← hobj]; exact hlive)

/-! ## Sleeping and delaying -/

theorem Outcome.refused (h : Good k) {c : Call} {r : Ret} (hr : SilentEvent (.ret c r)) :
    Outcome e k c times (leave_call k c (.ret r)) := (Returns.refused h hr).outcome

theorem mayWait_none (hw : w.obj = none) (hkind : w.kind = .SLP ∨ w.kind = .DLY) (k : Kernel) (t : TskId) :
    MayWait k t w [] := by
  refine ⟨fun _ => hkind, fun o ho => ?_⟩
  rw [hw] at ho
  contradiction

theorem Outcome.timed (h : Good k) (hmie : k.mie = true) (ht : k.current = some t)
    (hrun : (k.tcbs t).tskstat = .RUN) (hpend : k.pending t = none) (hidle : t ≠ idl_tsk)
    {queue : List TskId} (hmay : MayWait k t w queue) {ms : Nat} (hl : w.limit = some ms) :
    Outcome e k (.wait w) times (leave_call ((tkmc_schedule_timer (k.DI.tasks (·.requestFor t w queue)) t
      (tkmc_ms_to_ticks ms) w.kind times).EI k.mie) (.wait w) .wait) := by
  have hcounted := counted_of_limit k times hl
  have hok : Ok (k.toTasks.counted (waitTicks k times ms)) := (hcounted.does (e := e)).ok h.core.tasks
  obtain ⟨htasks, hobj, hm⟩ := leave_timed ht (.inr hrun) w queue ms hok.toPlaced rfl
  exact .blocked h hmie ht hrun hpend hidle hmay (by rw [hl]; rfl) hcounted htasks hobj hm

theorem Outcome.untimed (h : Good k) (hmie : k.mie = true) (ht : k.current = some t)
    (hrun : (k.tcbs t).tskstat = .RUN) (hpend : k.pending t = none) (hidle : t ≠ idl_tsk)
    {queue : List TskId} (hmay : MayWait k t w queue) (hl : w.limit = none) :
    Outcome e k (.wait w) times
      (leave_call ((wait_forever (k.DI.tasks (·.requestFor t w queue)) t w.kind).EI k.mie) (.wait w) .wait) := by
  obtain ⟨htasks, hobj, hm⟩ := leave_untimed h.core.tasks.toPlaced ht (.inr hrun) w queue rfl
  exact .blocked h hmie ht hrun hpend hidle hmay (by rw [hl]; rfl) (.inl rfl) htasks hobj hm

theorem Outcome.queued (h : Good k) (hmie : k.mie = true) (ht : k.current = some t)
    (hrun : (k.tcbs t).tskstat = .RUN) (hpend : k.pending t = none) (hidle : t ≠ idl_tsk)
    {queue : List TskId} (hmay : MayWait k t w queue) {tmout : Int}
    (hl : w.limit = if 0 < tmout then some tmout.toNat else none) :
    Outcome e k (.wait w) times (leave_call ((begin_wait (k.DI.tasks (·.requestFor t w queue)) t w.kind tmout
      times).EI k.mie) (.wait w) .wait) := by
  unfold begin_wait
  split
  · rename_i hpos; exact .timed h hmie ht hrun hpend hidle hmay (by rw [hl, if_pos hpos])
  · rename_i hpos; exact .untimed h hmie ht hrun hpend hidle hmay (by rw [hl, if_neg hpos])

theorem tasks_requestFor_none (h : Good k) (hrun : (k.tcbs t).tskstat = .RUN) (hw : w.obj = none)
    (hinfo : w.info (k.tcbs t).winfo = (k.tcbs t).winfo) :
    k.DI = k.DI.tasks (·.requestFor t w []) := by
  have := requestFor_none h.core.tasks.toPlaced (.inr hrun) hw hinfo []
  simp only [Kernel.tasks, DI_toTasks, this]
  rfl

theorem tk_slp_tsk_outcome (h : Good k) (hcan : canCall k = true) (tmout : Int) :
    Outcome e k (.wait (.slp tmout)) times
      (leave_call (tk_slp_tsk k tmout times).2 (.wait (.slp tmout)) (tk_slp_tsk k tmout times).1) := by
  have hsilent : ∀ r, SilentEvent (.ret (.wait (.slp tmout)) r) :=
    fun r => ⟨fun _ => ⟨rfl, rfl⟩, fun _ _ => ⟨rfl, rfl⟩⟩
  unfold tk_slp_tsk
  split
  · exact .refused h (hsilent _)
  rename_i hpar
  dsimp only
  split
  · rw [DI_EI]; exact .refused h (hsilent _)
  rename_i hblock
  obtain ⟨hmie, t, ht, hrun, hpend, hidle⟩ := h.caller hcan (by simpa using hblock)
  have hmay := mayWait_none (w := .slp tmout) rfl (.inl rfl) k t
  simp only [show k.DI.current = some t from ht]
  split
  · rename_i hwup
    refine Returns.outcome ?_
    exact .plain h (m := .useWakeup t) ⟨hwup, .inr hrun⟩ ⟨tmout, rfl⟩ rfl rfl rfl (by simp [Move.events])
      (hsilent _) rfl rfl rfl
  split
  · rename_i hpos
    rw [tasks_requestFor_none h hrun (w := .slp tmout) rfl rfl]
    exact .timed h hmie ht hrun hpend hidle hmay (by simp [WaitCall.limit, hpos])
  split
  · rw [DI_EI]; exact .refused h (hsilent _)
  · rename_i hpos _
    rw [tasks_requestFor_none h hrun (w := .slp tmout) rfl rfl]
    exact .untimed h hmie ht hrun hpend hidle hmay (by simp [WaitCall.limit, hpos])

theorem Outcome.parked (h : Good k) (ht : k.current = some t) (hrun : (k.tcbs t).tskstat = .RUN)
    (hpend : k.pending t = none) {c : Call} : Outcome e k c times (leave_call k c .yield) := by
  have hd : Does (· = .park t) k.toTasks (k.toTasks.setPending t (some .yield)) :=
    .one (P := (· = .park t)) (m := .park t) rfl ⟨.inr hrun, hpend⟩
  have hkept := h.core.does hd (by rintro m rfl; rfl)
  have hk : leave_call k c .yield = k.tasks (·.setPending t (some .yield)) := by
    simp only [leave_call, ht]
  rw [hk]
  refine ⟨hkept.1, fun hall o => hkept.2 o (hall o), h.sched.quiet ⟨fun _ => Iff.rfl, id⟩ rfl,
    hd.mono (by rintro m rfl; exact ht), id, id, ⟨_, _, rfl⟩⟩

theorem tk_dly_tsk_outcome (h : Good k) (hcan : canCall k = true) (dlytm : RELTIM) :
    Outcome e k (.wait (.dly dlytm)) times
      (leave_call (tk_dly_tsk k dlytm times).2 (.wait (.dly dlytm)) (tk_dly_tsk k dlytm times).1) := by
  have hsilent : ∀ r, SilentEvent (.ret (.wait (.dly dlytm)) r) :=
    fun r => ⟨fun _ => ⟨rfl, rfl⟩, fun _ _ => ⟨rfl, rfl⟩⟩
  unfold tk_dly_tsk
  dsimp only
  split
  · rw [DI_EI]; exact .refused h (hsilent _)
  rename_i hblock
  obtain ⟨hmie, t, ht, hrun, hpend, hidle⟩ := h.caller hcan (by simpa using hblock)
  split
  · rw [DI_EI]; exact .parked h ht hrun hpend
  · rename_i hzero
    simp only [show k.DI.current = some t from ht]
    rw [tasks_requestFor_none h hrun (w := .dly dlytm) rfl rfl]
    exact .timed h hmie ht hrun hpend hidle (mayWait_none (w := .dly dlytm) rfl (.inr rfl) k t)
      (if_neg hzero)

end TsukumoCore
