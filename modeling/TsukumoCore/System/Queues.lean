import TsukumoCore.System.Boot

/-! # The queues over a run -/

namespace TsukumoCore

variable {b : Boot} {e : Entries} {k k' : Kernel} {q : Tasks} {t : TskId}

/-! ## Time limits -/

/-- The tasks on the timer queue have ticks left. -/
def Timed (q : Tasks) : Prop := ∀ t ∈ q.timer_queue, 0 < (q.tcbs t).delay_ticks

/-- A time limit given now would not come to a multiple of 2^32 ticks. -/
def LimitFits (k : Kernel) : Act → Prop
  | .call (.wait w) times => ∀ ms, w.limit = some ms → waitTicks k times ms % 2 ^ 32 ≠ 0
  | _ => True

/-- The moves that leave ticks to every task with a time limit. -/
def Move.leavesTicks : Move → Prop
  | .tick _ => False
  | .block _ _ _ timed => ∀ n, timed = some n → n ≠ 0
  | _ => True

theorem Move.timed {m : Move} (h : Placed q) (ha : m.Allowed q) (hm : m.leavesTicks) (ht : Timed q) :
    Timed (m.effect q) := by
  intro t hmem
  have hne : ∀ n, m ≠ .tick n := by rintro n rfl; exact hm
  rcases Move.ticks h ha hne hmem with ⟨w, queue, n, rfl, hn⟩ | ⟨hin, heq⟩
  · rw [hn]
    exact Nat.pos_of_ne_zero (hm n rfl)
  · rw [heq]
    exact ht t hin

theorem Does.timed {P : Move → Prop} {q' : Tasks} (h : Ok q) (hd : Does P q q')
    (hP : ∀ m, P m → m.leavesTicks) (ht : Timed q) : Timed q' := by
  have hkeep := hd.keeps (I := fun q' => Ok q' ∧ Timed q') ?_ ⟨h, ht⟩
  · exact hkeep.2
  · rintro m q' hm ha ⟨hok, htimed⟩
    exact ⟨Move.ok hok ha, Move.timed hok.toPlaced ha (hP m hm) htimed⟩

theorem timer_handler_timed (h : Inv k) {times : List Nat} (hk : tkmc_timer_handler k times = some k')
    (ht : Timed k.toTasks) : Timed k'.toTasks := by
  by_cases hz : (pass_elapsed_periods k.s_mtimecmp times).2 = 0
  · rw [timer_handler_none hz] at hk
    obtain rfl := Option.some.inj hk
    exact ht
  · obtain ⟨b, k1, hr, heq⟩ := timer_handler_rounds h.core hz
    rw [heq] at hk
    obtain rfl := Option.some.inj hk
    generalize pass_elapsed_periods k.s_mtimecmp times = cp at *
    have hcore : Core (k.compare cp.1).toTasks (k.compare cp.1).toObjects := h.core
    have hleft : Timed k1.toTasks := fun t hmem => ((hr.left hcore).2 t hmem).1
    cases b with
    | false => exact hleft
    | true =>
      rw [if_pos rfl, request_switch_toTasks]
      exact hleft

theorem serve_msip_timed (h : Inv k) (sp : UINT) (ht : Timed k.toTasks) : Timed (serve_msip k sp).toTasks := by
  rcases serve_msip_eq h.sched h.core.tasks.toPlaced sp with ⟨hsame, -⟩ | ⟨old, new, -, -, -, ha, heq⟩
  · rw [hsame]
    exact ht
  · rw [heq]
    exact Move.timed h.core.tasks.toPlaced ha trivial ht

theorem stepMoves_leavesTicks {a : Act} (hfit : LimitFits k a) (ha : ∀ times sp, a ≠ .timer_interrupt times sp)
    {m : Move} (hm : stepMoves e k k' a m) : m.leavesTicks := by
  cases m with
  | tick n => cases a <;> first | exact hm | exact ha _ _ rfl
  | block t w queue timed =>
    intro n hn
    cases a with
    | call c times =>
      obtain ⟨-, -, rfl, htimed⟩ := hm
      rw [htimed, Option.map_eq_some_iff] at hn
      obtain ⟨ms, hlimit, rfl⟩ := hn
      exact hfit ms hlimit
    | _ => exact absurd hm (by simp [stepMoves, timerMoves])
  | _ => trivial

theorem step_timed (h : Inv k) {a : Act} (hk : step e k a = some k') (hfit : LimitFits k a)
    (ht : Timed k.toTasks) : Timed k'.toTasks := by
  by_cases ha : ∃ times sp, a = .timer_interrupt times sp
  · obtain ⟨times, sp, rfl⟩ := ha
    simp only [step, Option.ite_none_right_eq_some, Option.map_eq_some_iff] at hk
    obtain ⟨-, k1, hk1, rfl⟩ := hk
    exact serve_msip_timed (timer_handler_ends h.entered hk1).1 sp (timer_handler_timed h.entered hk1 ht)
  · refine Does.timed h.core.tasks (step_ok h hk).does (fun m hm => stepMoves_leavesTicks hfit ?_ hm) ht
    exact fun times sp heq => ha ⟨times, sp, heq⟩

/-! ## Where each task is -/

def Obj.kind : Obj → TTW
  | .sem _ => .SEM
  | .flg _ => .FLG
  | .mbx _ => .MBX

/-- The state of task `t` says which queues it is on. -/
structure QueuesOk (k : Kernel) (t : TskId) : Prop where
  free : k.free_tcb.count t = if (k.tcbs t).tskstat = .NOEXS then 1 else 0
  ready : ∀ i, (k.ready_queue i).count t =
    if ((k.tcbs t).tskstat = .RDY ∨ (k.tcbs t).tskstat = .RUN) ∧ i = ((k.tcbs t).itskpri - 1).toNat then 1
    else 0
  cleared : (k.tcbs t).tskstat = .RDY ∨ (k.tcbs t).tskstat = .RUN →
    (k.tcbs t).tskwait = .NONE ∧ (k.tcbs t).delay_ticks = 0
  timer : k.timer_queue.count t = if (k.tcbs t).tskstat = .WAI ∧ 0 < (k.tcbs t).delay_ticks then 1 else 0
  wait : (∃ o, t ∈ k.wait_queue o) ↔ (k.tcbs t).tskstat = .WAI ∧
    ((k.tcbs t).tskwait = .SEM ∨ (k.tcbs t).tskwait = .FLG ∨ (k.tcbs t).tskwait = .MBX)
  once : ∀ o, t ∈ k.wait_queue o → (k.wait_queue o).count t = 1 ∧ ∀ o', t ∈ k.wait_queue o' → o' = o
  object : ∀ o, t ∈ k.wait_queue o → k.Live o ∧ (k.tcbs t).tskwait = o.kind ∧
    ∀ s, o = .sem s → ∃ cnt, (k.tcbs t).winfo = .semaphore cnt s
  priority : (k.tcbs t).tskstat ≠ .NOEXS → 1 ≤ (k.tcbs t).itskpri ∧ (k.tcbs t).itskpri ≤ CFN_MAX_PRI
  links : .badLink ∉ k.alarms

theorem count_of_nodup {l : List TskId} (h : l.Nodup) (P : Prop) [Decidable P] (hP : t ∈ l ↔ P) :
    l.count t = if P then 1 else 0 := by
  by_cases hmem : t ∈ l
  · rw [List.count_eq_one_of_mem h hmem, if_pos (hP.mp hmem)]
  · rw [List.count_eq_zero_of_not_mem hmem, if_neg (fun hp => hmem (hP.mpr hp))]

theorem WaitCall.obj_kind {w : WaitCall} {o : Obj} (h : w.obj = some o) : w.kind = o.kind := by
  cases w with
  | slp | dly => simp [WaitCall.obj] at h
  | sem | flg | mbx =>
    simp only [WaitCall.obj, Option.map_eq_some_iff] at h
    obtain ⟨_, -, rfl⟩ := h
    rfl

theorem Ok.waits_iff (h : Ok q) : (∃ o, t ∈ q.wait_queue o) ↔ (q.tcbs t).tskstat = .WAI ∧
    ((q.tcbs t).tskwait = .SEM ∨ (q.tcbs t).tskwait = .FLG ∨ (q.tcbs t).tskwait = .MBX) := by
  constructor
  · rintro ⟨o, ho⟩
    obtain ⟨hs, w, hp, hobj⟩ := h.pending_of_mem ho
    obtain ⟨w', hp', hkind⟩ := (h.task t).call hs
    obtain rfl : w' = w := by simpa [hp] using hp'.symm
    refine ⟨hs, ?_⟩
    rw [hkind, WaitCall.obj_kind hobj]
    cases o <;> simp [Obj.kind]
  · rintro ⟨hs, hkind⟩
    obtain ⟨w, hp, hw⟩ := (h.task t).call hs
    have hinfo := h.info t w hs hp
    rw [hw] at hkind
    suffices hobj : ∃ o, w.obj = some o by
      obtain ⟨o, ho⟩ := hobj
      exact ⟨o, (h.mem_wait hs hp).mpr ho⟩
    cases w with
    | slp | dly => simp [WaitCall.kind] at hkind
    | sem semid cnt tmout =>
      obtain ⟨s, he, -⟩ := hinfo
      exact ⟨.sem s, by simp [WaitCall.obj, he]⟩
    | flg flgid waiptn wfmode p_flgptn tmout =>
      obtain ⟨f, he⟩ := Option.isSome_iff_exists.mp hinfo.1
      exact ⟨.flg f, by simp [WaitCall.obj, he]⟩
    | mbx mbxid ppk_msg tmout =>
      obtain ⟨m, he⟩ := Option.isSome_iff_exists.mp hinfo.1
      exact ⟨.mbx m, by simp [WaitCall.obj, he]⟩

theorem queuesOk_of_timed (h : Inv k) (htimed : Timed k.toTasks) (t : TskId) : QueuesOk k t := by
  have hplaced := h.core.tasks.toPlaced
  have htask := hplaced.task t
  constructor
  · exact count_of_nodup hplaced.free_nodup _ htask.free
  · exact fun i => count_of_nodup (hplaced.ready_nodup i) _ (htask.ready i)
  · exact htask.cleared
  · refine count_of_nodup hplaced.timer_nodup _ ⟨fun hmem => ?_, fun ⟨hs, hpos⟩ => ?_⟩
    · exact ⟨(htask.timer.mp hmem).1, htimed t hmem⟩
    · refine htask.timer.mpr ⟨hs, ?_⟩
      rcases hplaced.head_cases hs with hlinked | ⟨hself, -⟩
      · exact hlinked
      · rw [htask.untimed hs hself] at hpos
        exact absurd hpos (Nat.lt_irrefl 0)
  · exact h.core.tasks.waits_iff
  · intro o ho
    refine ⟨List.count_eq_one_of_mem (hplaced.wait_nodup o) ho, fun o' ho' => ?_⟩
    have hon := ((htask.wait o).mp ho).2
    have hon' := ((htask.wait o').mp ho').2
    exact Option.some.inj (hon'.symm.trans hon)
  · intro o ho
    obtain ⟨hs, w, hp, hobj⟩ := hplaced.pending_of_mem ho
    obtain ⟨w', hp', hkind⟩ := htask.call hs
    obtain rfl : w' = w := by simpa [hp] using hp'.symm
    refine ⟨h.core.live_of_waiter ho, hkind.trans (WaitCall.obj_kind hobj), ?_⟩
    rintro s rfl
    obtain ⟨_, cnt, _, -, -, hw, -⟩ := h.core.waiter ho
    exact ⟨cnt, hw⟩
  · exact htask.priority
  · intro hmem
    exact absurd (hplaced.alarms _ hmem) (by simp)

/-! ## Runs -/

/-- One step, with a time limit that fits if it gives one. -/
def FittingSteps (e : Entries) (k : Kernel) (a : Act) (k' : Kernel) : Prop := Steps e k a k' ∧ LimitFits k a

theorem start_timed (hk : tkmc_start b = some k) : Timed k.toTasks := by
  obtain ⟨hcore, -, hstat, -⟩ := start_tasks hk
  intro t ht
  have hs := ((hcore.tasks.task t).timer.mp ht).1
  rw [hstat] at hs
  split at hs
  · exact absurd hs (by simp)
  · split at hs <;> exact absurd hs (by simp)

/-- **The queues and the task states agree** in every run whose time limits fit. -/
theorem queues_consistent
    (h : Paths.Reach (fun k => tkmc_start b = some k) (FittingSteps b.entries) k) (t : TskId) :
    QueuesOk k t := by
  have hboth : Inv k ∧ Timed k.toTasks := by
    refine Paths.Reach.invariant (I := fun k => Inv k ∧ Timed k.toTasks) ?_ ?_ h
    · intro k hk
      exact ⟨start_inv hk, start_timed hk⟩
    · rintro k a k' ⟨hinv, htimed⟩ ⟨hstep, hfit⟩
      exact ⟨(step_ok hinv hstep).inv, step_timed hinv hstep hfit htimed⟩
  exact queuesOk_of_timed hboth.1 hboth.2 t

theorem queues_consistent_asleep : ∃ k, sampleRun [.call (.wait (.slp 10)) [0]] = some k ∧
    (k.tcbs 0).tskstat = .WAI ∧ (k.tcbs 0).delay_ticks = 2 ∧ QueuesOk k 0 := by
  obtain ⟨k, hk, hs, hticks⟩ := sampleRun_of_any [.call (.wait (.slp 10)) [0]] (fun k =>
    (k.tcbs 0).tskstat = .WAI ∧ (k.tcbs 0).delay_ticks = 2) (by decide +kernel)
  refine ⟨k, hk, hs, hticks, queues_consistent (sampleRun_guarded hk ?_) 0⟩
  intro a ha k
  rw [List.mem_singleton.mp ha]
  intro ms hms
  obtain rfl : 10 = ms := Option.some.inj hms
  unfold waitTicks pass_elapsed_periods
  split <;> simp [pass_elapsed_periods, tkmc_ms_to_ticks]

/-! ## A time limit that does not fit -/

theorem delay_begins {times : List Nat} {n : Nat} (hpass : (pass_elapsed_periods TICK_COUNTS times).2 = n) :
    ∃ k k', tkmc_start sampleBoot = some k ∧ Steps sampleBoot.entries k (.call (.wait (.dly 1)) times) k' ∧
      Reachable sampleBoot k' ∧ canTrap k' = true ∧ k'.msip = true ∧ k'.timer_queue = [0] ∧
      (k'.tcbs 0).delay_ticks = (2 + n) % 2 ^ 32 := by
  obtain ⟨k, hk, ht, hrun, hcan, hblock, hcmp, hempty, htrap⟩ := sampleRun_of_any [] (fun k => k.current = some 0 ∧
    (k.tcbs 0).tskstat = .RUN ∧ canCall k = true ∧ tkmc_can_block k.DI k.mie = true ∧
      k.s_mtimecmp = TICK_COUNTS ∧ k.timer_queue = [] ∧ canTrap k = true) (by decide +kernel)
  have hstart : tkmc_start sampleBoot = some k := by
    obtain ⟨k₀, hk₀, hnil⟩ := Option.bind_eq_some_iff.mp hk
    obtain rfl : k₀ = k := Option.some.inj hnil
    exact hk₀
  have hgood := (sampleRun_reachable hk).inv.toGood
  have hact : (k.tcbs 0).active := .inr hrun
  have hticks : waitTicks k times 1 = 2 + n := by
    unfold waitTicks
    rw [hcmp, hpass]
    exact congrArg (· + n) (by decide)
  have hcounted : Placed (k.toTasks.counted (waitTicks k times 1)) :=
    (counted_of_limit (w := .dly 1) k times rfl).does (e := sampleBoot.entries) |>.ok hgood.core.tasks |>.toPlaced
  have hwait : tk_dly_tsk k 1 times = (.wait, (tkmc_schedule_timer
      (k.DI.tasks (·.requestFor 0 (.dly 1) [])) 0 (tkmc_ms_to_ticks 1) .DLY times).EI k.mie) := by
    unfold tk_dly_tsk
    simp only [hblock, show k.DI.current = some 0 from ht]
    rw [← tasks_requestFor_none hgood hrun (w := .dly 1) rfl rfl]
    rfl
  have hstep : Steps sampleBoot.entries k (.call (.wait (.dly 1)) times)
      (leave_call (tk_dly_tsk k 1 times).2 (.wait (.dly 1)) (tk_dly_tsk k 1 times).1) := by
    simp [Steps, step, hcan, exec]
  rw [hwait] at hstep
  generalize hk1 : leave_call _ (.wait (.dly 1)) .wait = k1 at hstep
  obtain ⟨htasks, -, hmachine⟩ := leave_timed ht hact (.dly 1) [] 1 hcounted hk1.symm
  rw [hticks] at htasks
  refine ⟨k, k1, hstart, hstep, (sampleRun_reachable hk).step hstep, ?_, by rw [hmachine]; rfl, ?_, ?_⟩
  · rw [← htrap]
    unfold canTrap
    rw [hmachine]
    rfl
  · have hqueue : (k.toTasks.counted (2 + n)).timer_queue = k.timer_queue := by
      unfold Tasks.counted Tasks.check
      split <;> rfl
    rw [htasks]
    simp [Move.effect, hqueue, hempty]
  · rw [htasks]
    simp [Move.effect]

/-- The times read when all but two of 2^32 edges are unserved. -/
def lateTimes : List Nat := List.replicate (2 ^ 32 - 3 + 2) (TICK_COUNTS + (2 ^ 32 - 3) * TICK_COUNTS)

/-- A delay of 2 ticks that begins then leaves its task on the timer queue with no tick. -/
theorem queues_inconsistent : ∃ k k', tkmc_start sampleBoot = some k ∧
    Steps sampleBoot.entries k (.call (.wait (.dly 1)) lateTimes) k' ∧ Reachable sampleBoot k' ∧
    ¬ QueuesOk k' 0 := by
  have hpass : (pass_elapsed_periods TICK_COUNTS lateTimes).2 = 2 ^ 32 - 2 := by
    rw [pass_elapsed_edges, lateTimes, elapsed_edges_replicate (2 ^ 32 - 3) (by decide)]
    exact Nat.mod_eq_of_lt (by decide)
  obtain ⟨k, k', hstart, hstep, hreach, -, -, hqueue, hdelay⟩ := delay_begins hpass
  refine ⟨k, k', hstart, hstep, hreach, fun hok => ?_⟩
  have hcount := hok.timer
  rw [hqueue, hdelay] at hcount
  simp at hcount

end TsukumoCore
