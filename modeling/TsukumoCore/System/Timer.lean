import TsukumoCore.Calls.Late
import TsukumoCore.System.Dispatch
import TsukumoCore.System.Queues

/-!
# Late timer interrupts

A run of the timer handler that comes late does what punctual runs would have done, up to the switch
request, as long as its `UINT` can count the edges it missed. Only the compare value differs, which depends on
the times read.
-/

namespace TsukumoCore

variable {b : Boot} {k k' k1 k2 : Kernel} {t : TskId} {n n1 n2 : Nat} {q q' q'' : Tasks}

/-- The tick periods that have elapsed when the handler runs. -/
def Kernel.edges (k : Kernel) (times : List Nat) : Nat := elapsed_edges k.s_mtimecmp times

/-- The machine without the compare value. -/
def Machine.untimed (c : Machine) : Machine := { c with s_mtimecmp := 0, mtimecmp := 0 }

/-- The same state but for the compare value. -/
structure Alike (k k' : Kernel) : Prop where
  tasks : k'.toTasks = k.toTasks
  objects : k'.toObjects = k.toObjects
  machine : k'.toMachine.untimed = k.toMachine.untimed

theorem Alike.refl (k : Kernel) : Alike k k := ⟨rfl, rfl, rfl⟩

theorem Alike.symm (h : Alike k k') : Alike k' k := ⟨h.tasks.symm, h.objects.symm, h.machine.symm⟩

theorem Alike.trans (h : Alike k k1) (h' : Alike k1 k2) : Alike k k2 :=
  ⟨h'.tasks.trans h.tasks, h'.objects.trans h.objects, h'.machine.trans h.machine⟩

theorem Alike.on_eq (h : Alike k k') : k' = k.on k'.toMachine := by
  obtain ⟨htasks, hobjects, -⟩ := h
  cases k; cases k'
  simp only at htasks hobjects
  subst htasks hobjects
  rfl

/-! ## The switch request -/

theorem timer_grows (hd : Does timerMoves q q') : Grows q q' := by
  refine hd.keeps (I := Grows q) ?_ (.refl q)
  intro m q' hm ha hg
  refine hg.trans ?_
  cases m with
  | tick => exact .refl _
  | wake t w cause => exact wake_grows q' t cause
  | _ => exact absurd hm id

/-! ## Runs of the handler -/

/-- What a run that finds `n` periods leads to. -/
inductive After : Nat → Kernel → Kernel → Prop where
  | none {k k' : Kernel} : Alike k k' → After 0 k k'
  | some {n : Nat} {k k1 k' : Kernel} {b : Bool} : n ≠ 0 → Rounds n k b k1 →
      Alike (k1.on (if b then k.toMachine.request k1.toTasks else k.toMachine)) k' → After n k k'

theorem timer_handler_after (h : Core k.toTasks k.toObjects) {times : List Nat}
    (hk : tkmc_timer_handler k times = some k') : After (k.edges times % 2 ^ 32) k k' := by
  unfold Kernel.edges
  rw [← pass_elapsed_edges]
  by_cases hz : (pass_elapsed_periods k.s_mtimecmp times).2 = 0
  · rw [timer_handler_none hz] at hk
    obtain rfl := Option.some.inj hk
    rw [hz]
    exact .none (.refl k)
  · obtain ⟨b, k1, hr, heq⟩ := timer_handler_rounds h hz
    rw [heq] at hk
    generalize pass_elapsed_periods k.s_mtimecmp times = cp at *
    have hmachine := (Rounds.ends (k := k.compare cp.1) h hr).1.machine
    refine .some hz (hr.on k.toMachine) ?_
    cases b with
    | false =>
      obtain rfl : k1 = k' := Option.some.inj hk
      exact ⟨rfl, rfl, by rw [hmachine]; rfl⟩
    | true =>
      obtain rfl : request_switch k1 = k' := Option.some.inj hk
      refine ⟨by simp [Kernel.on], by simp [Kernel.on], ?_⟩
      rw [request_switch_toMachine, hmachine]
      rfl

theorem After.unique (h : After n k k1) (h' : After n k k2) : Alike k1 k2 := by
  cases h with
  | none halike =>
    cases h' with
    | none halike' => exact halike.symm.trans halike'
    | some hn => exact absurd rfl hn
  | some hn hr halike =>
    cases h' with
    | none => exact absurd rfl hn
    | some hn' hr' halike' =>
      obtain ⟨rfl, rfl⟩ := hr.unique hr'
      exact halike.symm.trans halike'

theorem After.congr (ha : Alike k k1) (h : After n k1 k2) : After n k k2 := by
  cases h with
  | none halike => exact .none (ha.trans halike)
  | @some _ _ r _ b hn hr halike =>
    rw [ha.on_eq] at hr
    refine .some hn (hr.on k.toMachine) ⟨halike.tasks, halike.objects, halike.machine.trans ?_⟩
    cases b with
    | false => exact ha.machine
    | true => exact congrArg (Machine.request · r.toTasks) ha.machine

/-- A run over `n1` periods and then one over `n2` are one over all of them. -/
theorem After.compose (h : Inv k) (h1 : After n1 k k1) (h2 : After n2 k1 k2) : After (n1 + n2) k k2 := by
  cases h1 with
  | none halike =>
    rw [Nat.zero_add]
    exact h2.congr halike
  | @some _ _ r1 _ b1 hn1 hr1 halike1 =>
    cases h2 with
    | none halike2 => exact .some hn1 hr1 (halike1.trans halike2)
    | @some _ _ r2 _ b2 hn2 hr2 halike2 =>
      have hr2' : Rounds n2 r1 b2 (r2.on r1.toMachine) := by
        rw [halike1.on_eq] at hr2
        exact hr2.on r1.toMachine
      obtain ⟨hends1, -⟩ := Rounds.ends h.core hr1
      obtain ⟨hends2, -⟩ := Rounds.ends hends1.core hr2'
      refine .some (by omega) (hr1.compose hr2') ⟨halike2.tasks, halike2.objects, halike2.machine.trans ?_⟩
      have hmid : k1.toMachine.untimed =
          (if b1 then k.toMachine.request r1.toTasks else k.toMachine).untimed := halike1.machine
      change (if b2 then k1.toMachine.request r2.toTasks else k1.toMachine).untimed =
        (if b1 || b2 then k.toMachine.request r2.toTasks else k.toMachine).untimed
      cases b1 with
      | false =>
        cases b2 with
        | false => exact hmid
        | true => exact congrArg (Machine.request · r2.toTasks) hmid
      | true =>
        cases b2 with
        | false =>
          have hready : r2.ready_queue = r1.ready_queue := hr2'.ready_queue
          refine hmid.trans ?_
          simp only [if_true, Bool.true_or, Machine.request, highest_congr hready]
        | true =>
          refine (congrArg (Machine.request · r2.toTasks) hmid).trans ?_
          exact request_again (c := k.toMachine.untimed) hends2.core.tasks.toPlaced (timer_grows hends1.does)
            (timer_grows hends2.does) (fun hm => (h.sched.settled hm).1) h.sched.current

/-- The runs of the handler one after another that find one period each. -/
def OnePeriod (k : Kernel) (times : List Nat) (k' : Kernel) : Prop :=
  k.edges times = 1 ∧ tkmc_timer_handler k times = some k'

theorem After.more (h : Core k.toTasks k.toObjects) (h1 : After n1 k k1) (hn1 : n1 ≠ 0)
    (hall : ∀ t ∈ k.timer_queue, (k.tcbs t).delay_ticks ≤ n1) (hle : n1 ≤ n2) : After n2 k k1 := by
  cases h1 with
  | none => exact absurd rfl hn1
  | some _ hr halike => exact .some (by omega) (hr.more h hall hle) halike

theorem After.left (h : Core k.toTasks k.toObjects) (h1 : After n k k1) (ht : t ∈ k1.timer_queue) :
    (k1.tcbs t).delay_ticks + n = (k.tcbs t).delay_ticks := by
  cases h1 with
  | none halike => rw [halike.tasks, Nat.add_zero]
  | some _ hr halike =>
    rw [halike.tasks] at ht ⊢
    exact ((hr.left h).2 t ht).2

theorem After.remains (h1 : After n k k1) (hqueue : k.timer_queue = [t]) (hn : n < (k.tcbs t).delay_ticks) :
    t ∈ k1.timer_queue := by
  have hfirst : first_deadline k.toTasks = Option.some t := by
    unfold first_deadline
    rw [hqueue]
    rfl
  have hmem : t ∈ k.timer_queue := by rw [hqueue]; exact List.mem_singleton_self t
  cases h1 with
  | none halike => rwa [halike.tasks]
  | some _ hr halike =>
    rw [halike.tasks]
    cases hr with
    | empty | stop => exact hmem
    | expire ht hle =>
      obtain rfl := Option.some.inj (hfirst.symm.trans ht)
      omega

theorem After.path {reads : List (List Nat)} (h : Inv k) (h1 : After n k k1)
    (hinv : Inv k1) (hp : Paths.Path OnePeriod k1 reads k2) : After (n + reads.length) k k2 := by
  induction hp generalizing n with
  | nil => exact h1
  | cons hrun _ ih =>
    obtain ⟨hone, hk⟩ := hrun
    have hafter := timer_handler_after hinv.core hk
    rw [hone, Nat.mod_eq_of_lt (by decide)] at hafter
    have := ih (After.compose h h1 hafter) (timer_handler_ends hinv hk).1
    rwa [List.length_cons, Nat.add_comm _ 1, ← Nat.add_assoc]

/-- What `n` periods do to the waits with a time limit: the ones left have their ticks less `n`, and the
ones that ended by their limits did so in the order of their deadlines. -/
structure Elapsed (q : Tasks) (n : Nat) (q' : Tasks) : Prop where
  left : ∀ t ∈ q'.timer_queue, t ∈ q.timer_queue ∧ (q'.tcbs t).delay_ticks + n = (q.tcbs t).delay_ticks
  expired : ∃ ts, timedOut q'.log = timedOut q.log ++ ts ∧ ts.Pairwise (Sooner q) ∧
    ∀ t ∈ ts, t ∈ q.timer_queue ∧ (q.tcbs t).delay_ticks ≤ n

theorem timer_handler_returns (h : Core k.toTasks k.toObjects) (times : List Nat) :
    ∃ k', tkmc_timer_handler k times = some k' ∧ Elapsed k.toTasks (k.edges times % 2 ^ 32) k'.toTasks ∧
      k'.s_mtimecmp = if k.edges times % 2 ^ 32 = 0 then k.s_mtimecmp
        else (pass_elapsed_periods k.s_mtimecmp times).1 := by
  unfold Kernel.edges
  rw [← pass_elapsed_edges]
  by_cases hz : (pass_elapsed_periods k.s_mtimecmp times).2 = 0
  · refine ⟨k, timer_handler_none hz, ⟨fun t ht => ⟨ht, by rw [hz]; rfl⟩, [], ?_, .nil, by simp⟩, ?_⟩
    · exact (List.append_nil _).symm
    · rw [if_pos hz]
  · obtain ⟨b, k1, hr, heq⟩ := timer_handler_rounds h hz
    generalize pass_elapsed_periods k.s_mtimecmp times = cp at *
    have h0 : Core (k.compare cp.1).toTasks (k.compare cp.1).toObjects := h
    obtain ⟨hsub, hleft⟩ := hr.left h0
    have hexpired := hr.expired h0
    have helapsed : Elapsed k.toTasks cp.2 k1.toTasks := ⟨fun t ht => ⟨hsub.subset ht, (hleft t ht).2⟩, hexpired⟩
    have hcompare : k1.s_mtimecmp = cp.1 := by
      have := congrArg Machine.s_mtimecmp (Rounds.ends h0 hr).1.machine
      exact this
    refine ⟨_, heq, ?_, ?_⟩
    · cases b with
      | false => exact helapsed
      | true => rw [if_pos rfl, request_switch_toTasks]; exact helapsed
    · rw [if_neg hz, ← hcompare]
      cases b with
      | false => rfl
      | true =>
        have := congrArg Machine.s_mtimecmp (request_switch_toMachine k1)
        exact this

theorem timer_handler_handed {w : WaitCall} {cause : ER} (h : Core k.toTasks k.toObjects) {times : List Nat}
    (hk : tkmc_timer_handler k times = some k') (hp : k.pending t = some (.wait w))
    (hends : EndsWith k.toTasks k'.toTasks t cause) :
    cause = .E_TMOUT ∨ cause = .E_OK ∧ HandedOn k.toTasks k'.toTasks t w := by
  by_cases hz : (pass_elapsed_periods k.s_mtimecmp times).2 = 0
  · rw [timer_handler_none hz] at hk
    obtain rfl := Option.some.inj hk
    obtain ⟨post, hpost, p, info, hev⟩ := hends
    obtain rfl : [] = post := List.append_cancel_left ((List.append_nil _).trans hpost)
    cases hev
  · obtain ⟨b, k1, hr, heq⟩ := timer_handler_rounds h hz
    rw [heq] at hk
    generalize pass_elapsed_periods k.s_mtimecmp times = cp at *
    have h0 : Core (k.compare cp.1).toTasks (k.compare cp.1).toObjects := h
    have htasks : k'.toTasks = k1.toTasks := by
      rw [← Option.some.inj hk]
      split
      · exact request_switch_toTasks k1
      · rfl
    rw [htasks] at hends ⊢
    have hcause : cause = .E_TMOUT ∨ cause = .E_OK := by
      obtain ⟨post, hpost, p, info, hev⟩ := hends
      obtain ⟨m, q₁, hm, -, hin⟩ := (Rounds.ends h0 hr).1.does.event hpost hev
      rcases Move.ends_mem hin with ⟨v, rfl⟩ | ⟨hok, -⟩
      · exact hm.imp id And.left
      · exact .inr hok
    refine hcause.imp id ?_
    rintro rfl
    exact ⟨rfl, Rounds.handed (k := k.compare cp.1) h0 hr hp hends⟩

/-! ## Late and punctual runs -/

/-- A run of the handler comes back, `delay_ticks` does not go below zero in it, it changes nothing if no period has
elapsed, and it ends waits in the order of their deadlines. -/
structure HandlerRunOk (k : Kernel) (times : List Nat) (k' : Kernel) : Prop where
  run : handlerRun k times = some k'
  ticks : .tickUnderflow ∉ k'.alarms
  none : k.edges times = 0 → k' = k.trap
  order : ∃ ts, timedOut k'.log = timedOut k.log ++ ts ∧ ts.Pairwise (Sooner k.toTasks)

/-- What `timer.c` says of an interrupt that comes `n1 + n2` periods late: it counts every edge it missed. -/
structure LateAsPunctual (k : Kernel) (n1 n2 : Nat) : Prop where
  returns : ∀ times, ∃ k', HandlerRunOk k times k'
  split : ∀ late early rest k' k1 k2, handlerRun k late = some k' → handlerRun k early = some k1 →
    tkmc_timer_handler k1 rest = some k2 → k.edges late = n1 + n2 → k.edges early = n1 → k1.edges rest = n2 →
    Alike k' k2
  one_period : ∀ late reads k' k2, handlerRun k late = some k' → Paths.Path OnePeriod k.trap reads k2 →
    k.edges late = n1 + n2 → reads.length = n1 + n2 → Alike k' k2

theorem handlerRunOk (h : Inv k.trap) (times : List Nat) : ∃ k', HandlerRunOk k times k' := by
  obtain ⟨k', hk, helapsed, -⟩ := timer_handler_returns h.core times
  obtain ⟨ts, hlog, hsorted, -⟩ := helapsed.expired
  refine ⟨k', hk, fun hmem => ?_, fun hz => ?_, ts, hlog, hsorted⟩
  · exact absurd ((timer_handler_ends h hk).1.core.tasks.alarms _ hmem) (by simp)
  · have hnone : (pass_elapsed_periods k.trap.s_mtimecmp times).2 = 0 := by
      rw [pass_elapsed_edges]
      exact congrArg (· % 2 ^ 32) hz
    exact Option.some.inj (hk.symm.trans (timer_handler_none hnone))

theorem late_as_punctual_of (h : Reachable b k)
    (hfits : n1 + n2 < 2 ^ 32 ∨ (n1 + n2) % 2 ^ 32 = 2 ^ 32 - 1) : LateAsPunctual k n1 n2 := by
  have hinv : Inv k.trap := h.inv.entered
  refine ⟨handlerRunOk hinv, ?_, ?_⟩
  · intro late early rest k' k1 k2 hlate hearly hrest hn hn1 hn2
    have hall := timer_handler_after hinv.core hlate
    have h1 := timer_handler_after hinv.core hearly
    have h2 := timer_handler_after (timer_handler_ends hinv hearly).1.core hrest
    have hedges : k.trap.edges late = n1 + n2 := hn
    have hedges1 : k.trap.edges early = n1 := hn1
    have hsum : (n1 + n2) % 2 ^ 32 = n1 % 2 ^ 32 + n2 % 2 ^ 32 := by omega
    rw [hedges, hsum] at hall
    rw [hedges1] at h1
    rw [hn2] at h2
    exact hall.unique (After.compose hinv h1 h2)
  · intro late reads k' k2 hlate hpath hn hlen
    have hall := timer_handler_after hinv.core hlate
    have hruns := After.path hinv (.none (.refl k.trap)) hinv hpath
    have hedges : k.trap.edges late = n1 + n2 := hn
    rw [hedges] at hall
    rw [hlen, Nat.zero_add] at hruns
    rcases hfits with hlt | hmax
    · rw [Nat.mod_eq_of_lt hlt] at hall
      exact hall.unique hruns
    · -- no wait is longer than the count can be
      rw [hmax] at hall
      have hdelay : ∀ t ∈ k.trap.timer_queue, (k.trap.tcbs t).delay_ticks ≤ 2 ^ 32 - 1 := by
        intro t _
        exact Nat.le_sub_one_of_lt (hinv.core.tasks.task t).delay_lt
      exact (hall.more hinv.core (by decide) hdelay (by omega)).unique hruns

/-! ## More edges than the count can hold -/

theorem exists_edges (c n : Nat) : ∃ times, elapsed_edges c times = n := by
  induction n generalizing c with
  | zero => exact ⟨[], rfl⟩
  | succ n ih =>
    obtain ⟨times, htimes⟩ := ih ((c + TICK_COUNTS) % 2 ^ 64)
    exact ⟨c :: times, by rw [elapsed_edges, if_pos (Nat.le_refl c), htimes]⟩

theorem exists_one_periods (h : Inv k) (n : Nat) : ∃ reads k', Paths.Path OnePeriod k reads k' ∧ reads.length = n := by
  induction n generalizing k with
  | zero => exact ⟨[], k, .nil k, rfl⟩
  | succ n ih =>
    obtain ⟨times, hone⟩ := exists_edges k.s_mtimecmp 1
    obtain ⟨k1, hk1, -⟩ := timer_handler_returns h.core times
    obtain ⟨reads, k', hpath, hlen⟩ := ih (timer_handler_ends h hk1).1
    exact ⟨times :: reads, k', .cons ⟨hone, hk1⟩ hpath, by rw [List.length_cons, hlen]⟩

theorem settles (h : Reachable b k) (hcan : canTrap k = true) (hmsip : k.msip = true) :
    ∃ k', Reachable b k' ∧ k'.msip = false ∧ k'.timer_queue = k.timer_queue ∧
      ∀ t, (k'.tcbs t).delay_ticks = (k.tcbs t).delay_ticks := by
  have hinv := h.inv.entered
  let k₁ := serve_msip { k with mie := false, isr_depth := k.isr_depth + 1 } 0
  have hstep : Steps b.entries k (.software_interrupt 0) { k₁ with mie := true, isr_depth := k.isr_depth } := by
    unfold Steps step
    simp only
    rw [hcan, hmsip, Bool.and_self, if_pos rfl]
    exact congrArg (fun k' : Kernel => some { k' with mie := true, isr_depth := k.isr_depth })
      (software_eq (k := { k with mie := false, isr_depth := k.isr_depth + 1 }) hmsip 0)
  refine ⟨_, h.step hstep, ?_⟩
  rcases serve_msip_eq hinv.sched hinv.core.tasks.toPlaced 0 with ⟨-, hno⟩ | ⟨old, new, -, -, -, -, heq⟩
  · cases hmsip.symm.trans hno
  · simp only [k₁, heq]
    refine ⟨trivial, rfl, fun t => ?_⟩
    by_cases hnew : t = new
    · subst hnew
      by_cases hold : t = old
      · subst hold
        simp [Move.effect, Tasks.note, Tasks.setTcb]
      · simp [Move.effect, Tasks.note, Tasks.setTcb, hold]
    · by_cases hold : t = old
      · subst hold
        simp [Move.effect, Tasks.note, Tasks.setTcb, hnew]
      · simp [Move.effect, Tasks.note, Tasks.setTcb, hnew, hold]

/-- A task waits for as long as a task can. -/
theorem longest_wait : ∃ k, Reachable sampleBoot k ∧ k.msip = false ∧ k.timer_queue = [0] ∧
    (k.tcbs 0).delay_ticks = 2 ^ 32 - 1 := by
  have hpass : (pass_elapsed_periods TICK_COUNTS
      (List.replicate (2 ^ 32 - 4 + 2) (TICK_COUNTS + (2 ^ 32 - 4) * TICK_COUNTS))).2 = 2 ^ 32 - 3 := by
    rw [pass_elapsed_edges, elapsed_edges_replicate (2 ^ 32 - 4) (by decide)]
    exact Nat.mod_eq_of_lt (by decide)
  obtain ⟨-, k, -, -, hreach, hcan, hmsip, hqueue, hdelay⟩ := delay_begins hpass
  obtain ⟨k', hreach', hmsip', hqueue', hdelay'⟩ := settles hreach hcan hmsip
  exact ⟨k', hreach', hmsip', hqueue'.trans hqueue, (hdelay' 0).trans hdelay⟩

/-- **A late timer interrupt is as good as punctual ones**, as long as the count of the edges it missed fits in
32 bits, or comes to the longest wait there is. -/
theorem late_as_punctual (n1 n2 : Nat) : (∀ b k, Reachable b k → k.msip = false → LateAsPunctual k n1 n2) ↔
    n1 + n2 < 2 ^ 32 ∨ (n1 + n2) % 2 ^ 32 = 2 ^ 32 - 1 := by
  refine ⟨fun hall => ?_, fun hfits b k h _ => late_as_punctual_of h hfits⟩
  by_contra hnot
  obtain ⟨k, hreach, hmsip, hqueue, hdelay⟩ := longest_wait
  have hinv : Inv k.trap := hreach.inv.entered
  obtain ⟨late, hlate⟩ := exists_edges k.s_mtimecmp (n1 + n2)
  obtain ⟨k', hk', -⟩ := timer_handler_returns hinv.core late
  obtain ⟨reads, k2, hpath, hlen⟩ := exists_one_periods hinv (n1 + n2)
  have halike := (hall _ k hreach hmsip).one_period late reads k' k2 hk' hpath hlate hlen
  -- the wrapped count leaves the wait, the runs over one period each end it
  have hremains : 0 ∈ k'.timer_queue := by
    have hafter := timer_handler_after hinv.core hk'
    have hedges : k.trap.edges late = n1 + n2 := hlate
    rw [hedges] at hafter
    have hticks : (k.trap.tcbs 0).delay_ticks = 2 ^ 32 - 1 := hdelay
    exact hafter.remains hqueue (by omega)
  have hends : 0 ∉ k2.timer_queue := by
    intro hmem
    have hruns := After.path hinv (.none (.refl k.trap)) hinv hpath
    have hleft := hruns.left hinv.core hmem
    have hticks : (k.trap.tcbs 0).delay_ticks = 2 ^ 32 - 1 := hdelay
    omega
  rw [halike.tasks] at hends
  exact hends hremains

/-- A task sleeps for three ticks, and the idle task runs. -/
def sleepRun : List Act := [.call (.wait (.slp 15)) [0], .software_interrupt 0]

theorem late_as_punctual_sleepRun : ∃ k k' k1 k2, sampleRun sleepRun = some k ∧
    handlerRun k [300000, 300000, 300000, 300000] = some k' ∧ handlerRun k [100000, 100000] = some k1 ∧
    tkmc_timer_handler k1 [300000, 300000, 300000] = some k2 ∧ k.edges [100000, 100000] = 1 ∧
    k1.edges [300000, 300000, 300000] = 2 ∧ Alike k' k2 := by
  obtain ⟨k, hk, hmsip, hlate, hearly, hrest⟩ := sampleRun_of_any sleepRun (fun k => k.msip = false ∧
    k.edges [300000, 300000, 300000, 300000] = 3 ∧ k.edges [100000, 100000] = 1 ∧
    ((handlerRun k [100000, 100000]).bind fun k1 =>
      (tkmc_timer_handler k1 [300000, 300000, 300000]).map fun _ => k1.edges [300000, 300000, 300000]) = some 2)
    (by decide +kernel)
  obtain ⟨k1, hk1, hrest⟩ := Option.bind_eq_some_iff.mp hrest
  obtain ⟨k2, hk2, hedges⟩ := Option.map_eq_some_iff.mp hrest
  obtain ⟨hruns, hsplit, -⟩ := (late_as_punctual 1 2).mpr (by decide) _ k (sampleRun_reachable hk) hmsip
  obtain ⟨k', hk', -⟩ := hruns [300000, 300000, 300000, 300000]
  exact ⟨k, k', k1, k2, hk, hk', hk1, hk2, hearly, hedges, hsplit _ _ _ k' k1 k2 hk' hk1 hk2 hlate hearly hedges⟩

/-- The times that the loop reads when it first reads that of the edge `n` edges after `c`. -/
def readsUpTo (c n : Nat) : List Nat := List.replicate (n + 2) (c + n * TICK_COUNTS)

/-- The sleep lasts when the handler first runs after 2^32 edges, and has ended when it ran after all but one of them
and then again. -/
theorem late_not_punctual : ∃ k k' k1 k2, sampleRun sleepRun = some k ∧ k.msip = false ∧
    handlerRun k (readsUpTo TICK_COUNTS (2 ^ 32 - 1)) = some k' ∧
    handlerRun k (readsUpTo TICK_COUNTS (2 ^ 32 - 2)) = some k1 ∧
    tkmc_timer_handler k1 (readsUpTo (2 ^ 32 * TICK_COUNTS) 0) = some k2 ∧
    k.edges (readsUpTo TICK_COUNTS (2 ^ 32 - 1)) = 2 ^ 32 - 1 + 1 ∧
    k.edges (readsUpTo TICK_COUNTS (2 ^ 32 - 2)) = 2 ^ 32 - 1 ∧
    k1.edges (readsUpTo (2 ^ 32 * TICK_COUNTS) 0) = 1 ∧ k' = k.trap ∧ k2.timer_queue = [] ∧
    ¬ LateAsPunctual k (2 ^ 32 - 1) 1 := by
  obtain ⟨k, hk, hmsip, hqueue, hdelay, hcmp⟩ := sampleRun_of_any sleepRun (fun k => k.msip = false ∧
    k.timer_queue = [0] ∧ (k.tcbs 0).delay_ticks = 3 ∧ k.s_mtimecmp = TICK_COUNTS) (by decide +kernel)
  have hinv : Inv k.trap := (sampleRun_reachable hk).inv.entered
  have hlate : k.edges (readsUpTo TICK_COUNTS (2 ^ 32 - 1)) = 2 ^ 32 - 1 + 1 := by
    rw [Kernel.edges, hcmp]
    exact elapsed_edges_replicate (2 ^ 32 - 1) (by decide)
  have hearly : k.edges (readsUpTo TICK_COUNTS (2 ^ 32 - 2)) = 2 ^ 32 - 1 := by
    rw [Kernel.edges, hcmp]
    exact elapsed_edges_replicate (2 ^ 32 - 2) (by decide)
  generalize readsUpTo TICK_COUNTS (2 ^ 32 - 1) = late at *
  generalize readsUpTo TICK_COUNTS (2 ^ 32 - 2) = early at *
  obtain ⟨k', hk', -, -⟩ := timer_handler_returns hinv.core late
  obtain ⟨k1, hk1, helapsed, hcompare⟩ := timer_handler_returns hinv.core early
  have hinv1 := (timer_handler_ends hinv hk1).1
  have hedges : k.trap.edges early = 2 ^ 32 - 1 := hearly
  rw [hedges] at helapsed hcompare
  -- the wrapped count is 0
  have hsame : k' = k.trap := by
    have hnone : (pass_elapsed_periods k.trap.s_mtimecmp late).2 = 0 := by
      rw [pass_elapsed_edges, show elapsed_edges k.trap.s_mtimecmp late = 2 ^ 32 - 1 + 1 from hlate]
      decide
    exact Option.some.inj (hk'.symm.trans (timer_handler_none hnone))
  have hempty : k1.timer_queue = [] := by
    refine List.eq_nil_iff_forall_not_mem.mpr fun t ht => ?_
    obtain ⟨hmem, hleft⟩ := helapsed.left t ht
    have hmem' : t ∈ k.timer_queue := hmem
    rw [hqueue, List.mem_singleton] at hmem'
    subst hmem'
    have hticks : (k.trap.tcbs 0).delay_ticks = 3 := hdelay
    omega
  have hcmp1 : k1.s_mtimecmp = 2 ^ 32 * TICK_COUNTS := by
    have hlt : k.trap.s_mtimecmp < 2 ^ 64 := by
      rw [show k.trap.s_mtimecmp = TICK_COUNTS from hcmp]
      decide
    rw [hcompare, if_neg (by decide), pass_elapsed_compare hlt, show k.trap.s_mtimecmp = TICK_COUNTS from hcmp,
      show elapsed_edges TICK_COUNTS early = 2 ^ 32 - 1 by rw [← hcmp]; exact hearly]
    decide
  have hrest : k1.edges (readsUpTo (2 ^ 32 * TICK_COUNTS) 0) = 1 := by
    rw [Kernel.edges, hcmp1]
    exact elapsed_edges_replicate 0 (by decide)
  obtain ⟨k2, hk2, helapsed2, -⟩ := timer_handler_returns hinv1.core (readsUpTo (2 ^ 32 * TICK_COUNTS) 0)
  have hempty2 : k2.timer_queue = [] := by
    refine List.eq_nil_iff_forall_not_mem.mpr fun t ht => ?_
    have hmem := (helapsed2.left t ht).1
    rw [hempty] at hmem
    cases hmem
  refine ⟨k, k', k1, k2, hk, hmsip, hk', hk1, hk2, hlate, hearly, hrest, hsame, hempty2, fun hpunctual => ?_⟩
  have halike := hpunctual.split late early _ k' k1 k2 hk' hk1 hk2 hlate hearly hrest
  have hqueues : k2.timer_queue = k'.timer_queue := congrArg Tasks.timer_queue halike.tasks
  rw [hsame, hempty2, show k.trap.timer_queue = [0] from hqueue] at hqueues
  cases hqueues

end TsukumoCore
