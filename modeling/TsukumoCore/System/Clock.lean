import TsukumoCore.System.Queues
import TsukumoCore.System.Timer

/-!
# Time limits on the clock

The timer gives times that never go back. Tick edges are `TICK_COUNTS` apart, from the time that
`tkmc_start_timer` read, and a wait with a time limit is to end at an edge.
-/

namespace TsukumoCore

variable {b : Boot} {e : Entries} {k k' k1 : Kernel} {t : TskId} {w : WaitCall} {times : List Nat}
  {start c n now now' last ms : Nat} {q q' : Tasks} {m : Move}

/-! ## Reads -/

/-- The loop of `pass_elapsed_periods` reads just these times: it ends at the first one before the edge. -/
def whole (c : Nat) : List Nat → Bool
  | [] => false
  | now :: rest => if now ≥ c then whole ((c + TICK_COUNTS) % 2 ^ 64) rest else rest.isEmpty

/-- The edges from `c` on that have come at the time `now`. -/
def pendingEdges (c now : Nat) : Nat := (now + TICK_COUNTS - c) / TICK_COUNTS

/-- One call of `pass_elapsed_periods`, with `now` the time read before and `last` the last one it reads. -/
structure Reads (c now : Nat) (times : List Nat) (last : Nat) : Prop where
  whole : whole c times = true
  getLast : times.getLast? = some last
  sorted : (now :: times).Pairwise (· ≤ ·)
  bound : last + TICK_COUNTS < 2 ^ 64
  pending : pendingEdges c last < 2 ^ 32 - 429496731

theorem whole_spec (hwhole : whole c times = true) (hlast : times.getLast? = some last)
    (hsorted : times.Pairwise (· ≤ ·)) (hbound : last + TICK_COUNTS < 2 ^ 64) :
    ∃ n, pass_elapsed_periods c times = (c + n * TICK_COUNTS, n % 2 ^ 32) ∧ elapsed_edges c times = n ∧
      last < c + n * TICK_COUNTS ∧ (n ≠ 0 → c + n * TICK_COUNTS ≤ last + TICK_COUNTS) := by
  unfold TICK_COUNTS at *
  induction times generalizing c with
  | nil => exact absurd hwhole (by simp [whole])
  | cons now rest ih =>
    unfold whole at hwhole
    unfold pass_elapsed_periods elapsed_edges
    by_cases hge : now ≥ c
    · rw [if_pos hge] at hwhole
      rw [if_pos hge, if_pos hge]
      obtain ⟨hle, hsorted⟩ := List.pairwise_cons.mp hsorted
      have hlast' : rest.getLast? = some last := by
        cases rest with
        | nil => exact absurd hwhole (by simp [whole])
        | cons _ _ => simpa using hlast
      have := hle last (List.mem_of_getLast? hlast')
      have hfits : (c + 100000) % 2 ^ 64 = c + 100000 := Nat.mod_eq_of_lt (by omega)
      rw [hfits] at hwhole ⊢
      obtain ⟨n, heq, hedges, hlt, hle'⟩ := ih hwhole hlast' hsorted
      refine ⟨n + 1, ?_, by rw [hedges], by omega, fun _ => by omega⟩
      rw [heq]
      exact Prod.ext (by simp only; omega) (by simp only; omega)
    · rw [if_neg hge] at hwhole
      rw [if_neg hge, if_neg hge]
      obtain rfl := List.isEmpty_iff.mp hwhole
      obtain rfl : now = last := by simpa using hlast
      exact ⟨0, by simp, rfl, by omega, by simp⟩

/-- The loop counts the edges that have come, and stops at the first one that has not. -/
theorem Reads.spec (h : Reads c now times last) :
    pass_elapsed_periods c times = (c + pendingEdges c last * TICK_COUNTS, pendingEdges c last) ∧
      elapsed_edges c times = pendingEdges c last ∧ last < c + pendingEdges c last * TICK_COUNTS ∧
      (pendingEdges c last ≠ 0 → c + pendingEdges c last * TICK_COUNTS ≤ last + TICK_COUNTS) := by
  obtain ⟨n, heq, hedges, hlt, hle⟩ := whole_spec h.whole h.getLast (List.pairwise_cons.mp h.sorted).2 h.bound
  have hn : n = pendingEdges c last := by
    unfold pendingEdges
    unfold TICK_COUNTS at *
    by_cases hz : n = 0
    · subst hz
      exact (Nat.div_eq_of_lt (by omega)).symm
    · have := hle hz
      exact (Nat.div_eq_of_lt_le (by omega) (by omega)).symm
  have hpending := h.pending
  rw [← hn] at hpending ⊢
  rw [Nat.mod_eq_of_lt (by omega)] at heq
  exact ⟨heq, hedges, hlt, hle⟩

theorem Reads.le (h : Reads c now times last) : now ≤ last :=
  (List.pairwise_cons.mp h.sorted).1 last (List.mem_of_getLast? h.getLast)

/-! ## Edges -/

/-- The `n`-th edge after the time `now`. -/
def edgeAfter (start now n : Nat) : Nat := start + ((now - start) / TICK_COUNTS + n) * TICK_COUNTS

theorem edgeAfter_eq (hg : ∃ j, c = start + (j + 1) * TICK_COUNTS) (hstart : start ≤ now) (hlt : now < c)
    (hle : c ≤ now + TICK_COUNTS) (n : Nat) : edgeAfter start now n + TICK_COUNTS = c + n * TICK_COUNTS := by
  obtain ⟨j, rfl⟩ := hg
  unfold edgeAfter
  unfold TICK_COUNTS at *
  have hj : (now - start) / 100000 = j := Nat.div_eq_of_lt_le (by omega) (by omega)
  rw [hj]
  omega

/-- The ticks of a limit are more than its time, by one tick at most. -/
theorem edgeAfter_bounds (hstart : start ≤ now) (hms : ms < 2 ^ 32) :
    now + ms * 10000 < edgeAfter start now (tkmc_ms_to_ticks ms) ∧
      edgeAfter start now (tkmc_ms_to_ticks ms) ≤ now + tkmc_ms_to_ticks ms * TICK_COUNTS := by
  have hdiv := Nat.div_add_mod (now - start) TICK_COUNTS
  have hmod := Nat.mod_lt (now - start) (show 0 < TICK_COUNTS by decide)
  unfold edgeAfter tkmc_ms_to_ticks
  unfold TICK_COUNTS at *
  generalize (now - start) / 100000 = j at *
  generalize (now - start) % 100000 = r at *
  split <;> constructor <;> omega

/-! ## Steps on the clock -/

/-- The times an action reads. A wait call that returns before it reads the timer has the times it would
have read. -/
def Act.reads : Act → Option (List Nat)
  | .call (.wait w) times => if w.limit.isSome then some times else none
  | .timer_interrupt times _ => some times
  | _ => none

/-- `RELTIM` and `TMO` have 32 bits. -/
def Act.limitInRange : Act → Prop
  | .call (.wait w) _ => ∀ ms, w.limit = some ms → ms < 2 ^ 32
  | _ => True

/-- One step, with the last time read before it and after it. -/
def ClockSteps (e : Entries) (s : Kernel × Nat) (a : Act) (s' : Kernel × Nat) : Prop :=
  Steps e s.1 a s'.1 ∧ a.limitInRange ∧
    match a.reads with
    | some times => Reads s.1.s_mtimecmp s.2 times s'.2
    | none => s'.2 = s.2

/-- The states a run from boot reaches, each with the last time read. -/
def OnClock (b : Boot) : Kernel × Nat → Prop :=
  Paths.Reach (fun s => tkmc_start b = some s.1 ∧ s.2 = b.now ∧ b.now + TICK_COUNTS < 2 ^ 64)
    (ClockSteps b.entries)

theorem tkmc_yield_compare (k : Kernel) : (tkmc_yield k).s_mtimecmp = k.s_mtimecmp := by
  unfold tkmc_yield
  dsimp only
  repeat' split
  all_goals rfl

theorem step_compare (h : Inv k) {a : Act} (ha : ∀ times sp, a ≠ .timer_interrupt times sp)
    (hk : step e k a = some k') : k'.s_mtimecmp = k.s_mtimecmp := by
  have hserve : ∀ (k : Kernel) sp, (serve_msip k sp).s_mtimecmp = k.s_mtimecmp := by
    intro k sp
    unfold serve_msip schedule
    split
    · split <;> rfl
    · rfl
  cases a with
  | timer_interrupt times sp => exact absurd rfl (ha times sp)
  | call c times =>
    simp only [step, Option.ite_none_right_eq_some, Option.map_eq_some_iff] at hk
    obtain ⟨hcan, ⟨flow, k1⟩, hx, rfl⟩ := hk
    obtain ⟨next, msip, hm⟩ := (exec_outcome h.toGood hcan hx).machine
    have := congrArg Machine.s_mtimecmp hm
    exact this
  | resume =>
    unfold step at hk
    obtain ⟨t, ht⟩ := h.sched.current
    simp only [ht] at hk
    by_cases hruns : taskRuns k = true
    · simp only [hruns, Bool.not_true, Bool.false_eq_true, if_false] at hk
      split at hk
      · exact absurd hk (by simp)
      · obtain rfl := Option.some.inj hk
        exact tkmc_yield_compare k
      · obtain rfl := Option.some.inj hk
        rw [exec_end_eq h.core.tasks.toPlaced (.inr (h.sched.runs hruns ht))]
        rfl
    · simp [hruns] at hk
  | yield =>
    simp only [step, Option.ite_none_right_eq_some] at hk
    obtain rfl := Option.some.inj hk.2
    exact tkmc_yield_compare k
  | di | ei =>
    simp only [step, Option.ite_none_right_eq_some] at hk
    obtain rfl := Option.some.inj hk.2
    rfl
  | stack_write frame =>
    simp only [step, Option.map_eq_some_iff] at hk
    obtain ⟨t, -, rfl⟩ := hk
    rfl
  | set_msgpri msg msgpri =>
    obtain rfl := Option.some.inj hk
    rfl
  | external_enter =>
    simp only [step, Option.ite_none_right_eq_some] at hk
    obtain rfl := Option.some.inj hk.2
    rfl
  | external_leave sp =>
    simp only [step, Option.ite_none_left_eq_some] at hk
    obtain rfl := Option.some.inj hk.2
    change (if k.isr_depth = 1 then serve_msip k sp else k).s_mtimecmp = _
    split
    · exact hserve k sp
    · rfl
  | software_interrupt sp =>
    simp only [step, Option.ite_none_right_eq_some, Bool.and_eq_true] at hk
    obtain ⟨⟨-, hmsip⟩, hk⟩ := hk
    obtain rfl := Option.some.inj hk
    rw [software_eq (k := { k with mie := false, isr_depth := k.isr_depth + 1 }) hmsip]
    exact hserve _ sp

theorem timer_step (h : Inv k) {sp : UINT} (hk : step e k (.timer_interrupt times sp) = some k') :
    Elapsed k.toTasks (k.edges times % 2 ^ 32) k'.toTasks ∧
      (k'.s_mtimecmp = if k.edges times % 2 ^ 32 = 0 then k.s_mtimecmp
        else (pass_elapsed_periods k.s_mtimecmp times).1) ∧
      ∀ t w cause, k.pending t = some (.wait w) → EndsWith k.toTasks k'.toTasks t cause →
        cause = .E_TMOUT ∨ cause = .E_OK ∧ HandedOn k.toTasks k'.toTasks t w := by
  simp only [step, Option.ite_none_right_eq_some, Option.map_eq_some_iff] at hk
  obtain ⟨-, k1, hk1, rfl⟩ := hk
  obtain ⟨k2, hk2, helapsed, hcompare⟩ := timer_handler_returns (k := k.trap) h.entered.core times
  obtain rfl : k2 = k1 := Option.some.inj (hk2.symm.trans hk1)
  have hinv := (timer_handler_ends h.entered hk1).1
  have hhanded : ∀ {t w cause}, k.pending t = some (.wait w) → EndsWith k.toTasks k2.toTasks t cause →
      cause = .E_TMOUT ∨ cause = .E_OK ∧ HandedOn k.toTasks k2.toTasks t w :=
    fun hp hends => timer_handler_handed (k := k.trap) h.entered.core hk1 hp hends
  rcases serve_msip_eq hinv.sched hinv.core.tasks.toPlaced sp with ⟨heq, -⟩ | ⟨old, new, -, -, -, ha, heq⟩
  · rw [heq]
    exact ⟨helapsed, hcompare, fun t w cause => hhanded⟩
  · rw [heq]
    refine ⟨⟨fun t ht => ?_, ?_⟩, hcompare, fun t w cause hp hends => ?_⟩
    · rcases Move.ticks hinv.core.tasks.toPlaced ha (by simp) ht with ⟨_, _, _, heq, -⟩ | ⟨hmem, hticks⟩
      · exact absurd heq (by simp)
      · have hleft := helapsed.left t hmem
        rw [← hticks] at hleft
        exact hleft
    · obtain ⟨ts, hlog, hts⟩ := helapsed.expired
      have hsame : timedOut ((Move.dispatch old new sp).effect k2.toTasks).log = timedOut k2.log := by
        simp [Move.effect, Tasks.setTcb, Tasks.note, timedOut]
      exact ⟨ts, hsame.trans hlog, hts⟩
    · obtain ⟨first, hfirst⟩ := (timer_handler_ends h.entered hk1).2.1.log
      have hlast : ((Move.dispatch old new sp).effect k2.toTasks).log = k2.log ++ [.dispatch new] := rfl
      rcases hends.split hfirst hlast with hends | ⟨post, hpost, p, info, hev⟩
      · rcases hhanded hp hends with htmout | ⟨hok, s, u, hobj, hne, hu, htmout⟩
        · exact .inl htmout
        · exact .inr ⟨hok, s, u, hobj, hne, hu, htmout.after hlast⟩
      · obtain rfl := List.append_cancel_left (hlast.symm.trans hpost)
        simp at hev

/-! ## The clock over a run -/

theorem Move.alarms_effect (hm : m ≠ .overflow) : (m.effect q).alarms = q.alarms := by
  cases m with
  | overflow => exact absurd rfl hm
  | _ => rfl

theorem Does.alarms {P : Move → Prop} (hd : Does P q q') (hP : ¬ P .overflow) : q'.alarms = q.alarms := by
  refine hd.keeps (I := fun q' => q'.alarms = q.alarms) ?_ rfl
  rintro m q' hm - heq
  rw [Move.alarms_effect fun ho => hP (ho ▸ hm), heq]

theorem Reads.waitTicks (h : Reads k.s_mtimecmp now times last) (hms : ms < 2 ^ 32) :
    waitTicks k times ms = tkmc_ms_to_ticks ms + pendingEdges k.s_mtimecmp last ∧
      0 < tkmc_ms_to_ticks ms ∧ waitTicks k times ms < 2 ^ 32 := by
  have hpending := h.pending
  unfold TsukumoCore.waitTicks
  rw [h.spec.1]
  generalize pendingEdges k.s_mtimecmp last = n at *
  unfold tkmc_ms_to_ticks
  refine ⟨rfl, ?_, ?_⟩ <;> split <;> omega

structure ClockInv (start : Nat) (s : Kernel × Nat) : Prop where
  inv : Inv s.1
  alarms : s.1.alarms = []
  timed : Timed s.1.toTasks
  start_le : start ≤ s.2
  grid : ∃ j, s.1.s_mtimecmp = start + (j + 1) * TICK_COUNTS
  le : s.1.s_mtimecmp ≤ s.2 + TICK_COUNTS

theorem ClockSteps.le {s s' : Kernel × Nat} {a : Act} (h : ClockSteps e s a s') : s.2 ≤ s'.2 := by
  obtain ⟨-, -, hreads⟩ := h
  split at hreads
  · exact hreads.le
  · exact Nat.le_of_eq hreads.symm

theorem ClockSteps.reads {s s' : Kernel × Nat} (h : ClockSteps e s (.call (.wait w) times) s')
    (hlimit : w.limit = some ms) : Reads s.1.s_mtimecmp s.2 times s'.2 ∧ ms < 2 ^ 32 := by
  obtain ⟨-, hms, hreads⟩ := h
  simp only [Act.reads, hlimit, Option.isSome_some, if_true] at hreads
  exact ⟨hreads, hms ms hlimit⟩

theorem ClockSteps.fits {s s' : Kernel × Nat} {a : Act} (h : ClockSteps e s a s') : LimitFits s.1 a := by
  unfold LimitFits
  split
  · intro ms hlimit
    obtain ⟨hreads, hms⟩ := h.reads hlimit
    obtain ⟨heq, hpos, hlt⟩ := hreads.waitTicks hms
    rw [Nat.mod_eq_of_lt hlt]
    omega
  · trivial

/-- A timer interrupt on the clock: the compare value after it is the first edge after the last time read,
or the edge it was before if none came. -/
theorem ClockSteps.timer {s s' : Kernel × Nat} {sp : UINT} (h : ClockSteps e s (.timer_interrupt times sp) s')
    (hinv : Inv s.1) : Elapsed s.1.toTasks (s.1.edges times) s'.1.toTasks ∧
      s'.1.s_mtimecmp = s.1.s_mtimecmp + s.1.edges times * TICK_COUNTS ∧ s'.2 < s'.1.s_mtimecmp ∧
      (s.1.edges times ≠ 0 → s'.1.s_mtimecmp ≤ s'.2 + TICK_COUNTS) := by
  obtain ⟨hstep, -, hreads⟩ := h
  have hreads : Reads s.1.s_mtimecmp s.2 times s'.2 := hreads
  obtain ⟨helapsed, hcompare, -⟩ := timer_step hinv hstep
  obtain ⟨hpass, hcount, hlt, hle⟩ := hreads.spec
  have hedges : s.1.edges times = pendingEdges s.1.s_mtimecmp s'.2 := hcount
  have hfits : s.1.edges times % 2 ^ 32 = s.1.edges times := by
    have := hreads.pending
    rw [hedges, Nat.mod_eq_of_lt (by omega)]
  rw [hfits] at helapsed hcompare
  have hnext : s'.1.s_mtimecmp = s.1.s_mtimecmp + s.1.edges times * TICK_COUNTS := by
    rw [hcompare]
    split
    · rename_i hz
      rw [hz, Nat.zero_mul, Nat.add_zero]
    · rw [hpass, hedges]
  rw [hnext, hedges]
  exact ⟨hedges ▸ helapsed, rfl, hlt, hle⟩

theorem ClockSteps.inv {s s' : Kernel × Nat} {a : Act} (hstep : ClockSteps e s a s')
    (h : ClockInv start s) : ClockInv start s' := by
  have hok := step_ok h.inv hstep.1
  have hle := hstep.le
  have halarms : s'.1.alarms = [] := by
    rw [hok.does.alarms ?_, h.alarms]
    intro hover
    cases a with
    | call c times =>
      obtain ⟨w, ms, rfl, hlimit, hwrap⟩ := hover
      obtain ⟨hreads, hms⟩ := hstep.reads hlimit
      have := (hreads.waitTicks hms).2.2
      omega
    | _ => exact hover
  have hedge : (∃ j, s'.1.s_mtimecmp = start + (j + 1) * TICK_COUNTS) ∧ s'.1.s_mtimecmp ≤ s'.2 + TICK_COUNTS := by
    obtain ⟨j, hj⟩ := h.grid
    have hbefore := h.le
    by_cases ha : ∃ times sp, a = .timer_interrupt times sp
    · obtain ⟨times, sp, rfl⟩ := ha
      obtain ⟨-, hnext, -, hfirst⟩ := hstep.timer h.inv
      refine ⟨⟨j + s.1.edges times, by rw [hnext, hj]; unfold TICK_COUNTS; omega⟩, ?_⟩
      by_cases hz : s.1.edges times = 0
      · rw [hnext, hz]
        omega
      · exact hfirst hz
    · rw [step_compare h.inv (fun times sp heq => ha ⟨times, sp, heq⟩) hstep.1]
      exact ⟨⟨j, hj⟩, by omega⟩
  exact ⟨hok.inv, halarms, step_timed h.inv hstep.1 hstep.fits h.timed, h.start_le.trans hle, hedge.1, hedge.2⟩

theorem OnClock.inv {s : Kernel × Nat} (h : OnClock b s) : ClockInv b.now s := by
  refine Paths.Reach.invariant (I := ClockInv b.now) ?_ (fun _ _ _ hinv hstep => hstep.inv hinv) h
  rintro ⟨k, now⟩ ⟨hk, hnow, hbound⟩
  obtain ⟨-, -, -, -, -, -, halarms, hmachine⟩ := start_tasks hk
  have hcompare : k.s_mtimecmp = b.now + TICK_COUNTS := by
    have := congrArg Machine.s_mtimecmp hmachine
    exact this.trans (Nat.mod_eq_of_lt hbound)
  have hnow : now = b.now := hnow
  refine ⟨start_inv hk, halarms, start_timed hk, by simp only; omega, ⟨0, ?_⟩, ?_⟩
  · rw [hcompare, Nat.zero_add, Nat.one_mul]
  · rw [hcompare, hnow]

/-! ## The wait of a task -/

theorem Move.stays (h : Placed q) (ha : m.Allowed q) (ht : t ∈ q.timer_queue)
    (hon : ∀ p cause info, .complete t p cause info ∉ m.events q) :
    t ∈ (m.effect q).timer_queue ∧ (m.effect q).pending t = q.pending t ∧
      ((∀ n, m ≠ .tick n) → ((m.effect q).tcbs t).delay_ticks = (q.tcbs t).delay_ticks) := by
  have hmem : t ∈ (m.effect q).timer_queue := by
    cases m with
    | wake u w cause =>
      have hne : t ≠ u := by rintro rfl; exact hon _ _ _ List.mem_cons_self
      exact (List.mem_erase_of_ne hne).mpr ht
    | give u w d =>
      have hne : t ≠ u := by rintro rfl; exact hon _ _ _ (List.mem_cons_of_mem _ List.mem_cons_self)
      exact (List.mem_erase_of_ne hne).mpr ht
    | block u w queue timed => cases timed <;> simp [effect, ht]
    | _ => exact ht
  have hwai := ((h.task t).timer.mp ht).1
  have hpending : (m.effect q).pending t = q.pending t := by
    cases m with
    | block u =>
      have hne : t ≠ u := by rintro rfl; exact ha.1.stat_ne_wai hwai
      simp [effect, hne]
    | finish u | park u | unpark u =>
      have hne : t ≠ u := by rintro rfl; exact ha.1.stat_ne_wai hwai
      simp [effect, Tasks.setPending, hne]
    | _ => rfl
  refine ⟨hmem, hpending, fun hm => ?_⟩
  rcases Move.ticks h ha hm hmem with ⟨w, queue, n, rfl, -⟩ | ⟨-, hticks⟩
  · exact absurd hwai ha.1.stat_ne_wai
  · exact hticks

theorem Does.stays {P : Move → Prop} (h : Ok q) (hd : Does P q q') (ht : t ∈ q.timer_queue)
    (hon : ∀ cause, ¬ EndsWith q q' t cause) :
    t ∈ q'.timer_queue ∧ q'.pending t = q.pending t ∧
      ((∀ n, ¬ P (.tick n)) → (q'.tcbs t).delay_ticks = (q.tcbs t).delay_ticks) := by
  have hkeep := hd.keeps (I := fun q' => Ok q' ∧ ∃ post, q'.log = q.log ++ post ∧
    ((∀ p cause info, .complete t p cause info ∉ post) → t ∈ q'.timer_queue ∧ q'.pending t = q.pending t ∧
      ((∀ n, ¬ P (.tick n)) → (q'.tcbs t).delay_ticks = (q.tcbs t).delay_ticks))) ?_
    ⟨h, [], by simp, fun _ => ⟨ht, rfl, fun _ => rfl⟩⟩
  · obtain ⟨-, post, hlog, hstays⟩ := hkeep
    exact hstays fun p cause info hmem => hon cause ⟨post, hlog, p, info, hmem⟩
  · rintro m q' hP ha ⟨hok, post, hlog, hstays⟩
    refine ⟨Move.ok hok ha, post ++ m.events q', by rw [Move.log_effect, hlog, List.append_assoc], fun hon => ?_⟩
    simp only [List.mem_append, not_or] at hon
    obtain ⟨hmem, hpending, hticks⟩ := hstays fun p cause info => (hon p cause info).1
    obtain ⟨hmem', hpending', hticks'⟩ := Move.stays hok.toPlaced ha hmem fun p cause info => (hon p cause info).2
    exact ⟨hmem', hpending'.trans hpending, fun htick => (hticks' fun n heq => htick n (heq ▸ hP)).trans (hticks htick)⟩

theorem Does.begins {P : Move → Prop} (h : Ok q) (hd : Does P q q') (htick : ∀ n, ¬ P (.tick n))
    (hblock : ∀ queue timed, P (.block t w queue timed) → timed = some n)
    (hlog : q'.log = q.log ++ [.block t w]) :
    t ∈ q'.timer_queue ∧ q'.pending t = some (.wait w) ∧ (q'.tcbs t).delay_ticks = n := by
  have hkeep := hd.keeps (I := fun q' => Ok q' ∧ ∃ post, q'.log = q.log ++ post ∧
    ((∀ p cause info, .complete t p cause info ∉ post) → .block t w ∈ post →
      t ∈ q'.timer_queue ∧ q'.pending t = some (.wait w) ∧ (q'.tcbs t).delay_ticks = n)) ?_ ⟨h, [], by simp, by simp⟩
  · obtain ⟨-, post, hlog', hbegins⟩ := hkeep
    obtain rfl : post = [.block t w] := List.append_cancel_left (hlog'.symm.trans hlog)
    exact hbegins (by simp) (by simp)
  · rintro m q' hP ha ⟨hok, post, hlog, hbegins⟩
    refine ⟨Move.ok hok ha, post ++ m.events q', by rw [Move.log_effect, hlog, List.append_assoc], fun hon hin => ?_⟩
    simp only [List.mem_append, not_or] at hon
    rcases List.mem_append.mp hin with hin | hin
    · obtain ⟨hmem, hpending, hticks⟩ := hbegins (fun p cause info => (hon p cause info).1) hin
      obtain ⟨hmem', hpending', hticks'⟩ := Move.stays hok.toPlaced ha hmem fun p cause info => (hon p cause info).2
      exact ⟨hmem', hpending'.trans hpending, (hticks' fun n heq => htick n (heq ▸ hP)).trans hticks⟩
    · cases m with
      | block u w' queue timed =>
        obtain ⟨rfl, rfl⟩ : t = u ∧ w = w' := by simpa [Move.events] using hin
        obtain rfl := hblock queue timed hP
        simp [Move.effect]
      | _ => simp [Move.events] at hin

/-- The wait `w` of `t` is to end at `due`: that many edges after the next one as it has ticks, less one. -/
structure Due (due : Nat) (t : TskId) (w : WaitCall) (k : Kernel) : Prop where
  mem : t ∈ k.timer_queue
  pending : k.pending t = some (.wait w)
  ticks : k.s_mtimecmp + (k.tcbs t).delay_ticks * TICK_COUNTS = due + TICK_COUNTS

theorem ClockSteps.begins {s s' : Kernel × Nat} {c : Call} (hstep : ClockSteps e s (.call c times) s')
    (h : ClockInv start s) (hlog : s'.1.log = s.1.log ++ [.block t w]) (hlimit : w.limit = some ms) :
    ms < 2 ^ 32 ∧ Due (edgeAfter start s'.2 (tkmc_ms_to_ticks ms)) t w s'.1 := by
  have hok := step_ok h.inv hstep.1
  obtain ⟨m, q₁, hm, -, hev⟩ := hok.does.event hlog List.mem_cons_self
  obtain rfl : c = .wait w := by
    cases m with
    | block u w' queue timed =>
      obtain ⟨rfl, rfl⟩ : t = u ∧ w = w' := by simpa [Move.events] using hev
      exact hm.2.2.1
    | _ => simp [Move.events] at hev
  obtain ⟨hreads, hms⟩ := hstep.reads hlimit
  obtain ⟨hticks, -, hfits⟩ := hreads.waitTicks hms
  obtain ⟨-, -, hlt, hle⟩ := hreads.spec
  have htimed : ∀ queue timed, stepMoves e s.1 s'.1 (.call (.wait w) times) (.block t w queue timed) →
      timed = some (waitTicks s.1 times ms) := by
    intro queue timed hP
    rw [hP.2.2.2, hlimit, Option.map_some, Nat.mod_eq_of_lt hfits]
  obtain ⟨hmem, hpending, hdelay⟩ := hok.does.begins h.inv.core.tasks (by simp [stepMoves, callMoves]) htimed hlog
  have hcompare := step_compare h.inv (by simp) hstep.1
  refine ⟨hms, hmem, hpending, ?_⟩
  rw [hcompare, hdelay, hticks]
  -- the first edge after the last time read is where the loop stopped
  generalize hn : pendingEdges s.1.s_mtimecmp s'.2 = n at *
  have hfirst : s.1.s_mtimecmp + n * TICK_COUNTS ≤ s'.2 + TICK_COUNTS := by
    by_cases hz : n = 0
    · have := h.le
      have := hstep.le
      rw [hz]
      omega
    · exact hle hz
  obtain ⟨j, hj⟩ := h.grid
  have hedge := edgeAfter_eq (c := s.1.s_mtimecmp + n * TICK_COUNTS)
    ⟨j + n, by rw [hj]; unfold TICK_COUNTS; omega⟩ (h.start_le.trans hstep.le) hlt hfirst (tkmc_ms_to_ticks ms)
  rw [hedge]
  unfold TICK_COUNTS
  omega

theorem ClockSteps.due {s s' : Kernel × Nat} {a : Act} {due : Nat} (hstep : ClockSteps e s a s')
    (h : ClockInv start s) (hd : Due due t w s.1)
    (hon : ∀ cause, ¬ EndsWith s.1.toTasks s'.1.toTasks t cause) : Due due t w s'.1 := by
  have hok := step_ok h.inv hstep.1
  obtain ⟨hmem, hpending, hticks⟩ := hok.does.stays h.inv.core.tasks hd.mem hon
  refine ⟨hmem, hpending.trans hd.pending, ?_⟩
  have hdue := hd.ticks
  by_cases ha : ∃ times sp, a = .timer_interrupt times sp
  · obtain ⟨times, sp, rfl⟩ := ha
    obtain ⟨helapsed, hnext, -⟩ := hstep.timer h.inv
    have hleft := (helapsed.left t hmem).2
    rw [← hleft] at hdue
    rw [hnext, ← hdue]
    unfold TICK_COUNTS
    omega
  · have hnot : ∀ times sp, a ≠ .timer_interrupt times sp := fun times sp heq => ha ⟨times, sp, heq⟩
    rw [step_compare h.inv hnot hstep.1, hticks ?_]
    · exact hdue
    · intro n hm
      cases a <;> first | exact hm | exact hnot _ _ rfl

/-- What a step does to the wait `w` of `t`, which is due at `due`; `now` is the last time read. The time limit ends it
in a run of the handler that read a time not before `due`, and in no other; and no run of the handler ends it in
another way, or lets such a time pass, but by handing on units of the semaphore. -/
structure LimitKept (due : Nat) (t : TskId) (w : WaitCall) (q : Tasks) (a : Act) (q' : Tasks) (now : Nat) : Prop where
  ends : EndsWith q q' t .E_TMOUT → (∃ times sp, a = .timer_interrupt times sp) ∧ due ≤ now
  only : (∃ times sp, a = .timer_interrupt times sp) → ∀ cause, EndsWith q q' t cause →
    cause = .E_TMOUT ∧ due ≤ now ∨ cause = .E_OK ∧ HandedOn q q' t w
  comes : (∃ times sp, a = .timer_interrupt times sp) → due ≤ now →
    EndsWith q q' t .E_TMOUT ∨ EndsWith q q' t .E_OK ∧ HandedOn q q' t w

theorem ClockSteps.not_before {s s' : Kernel × Nat} {a : Act} {due : Nat} (hstep : ClockSteps e s a s')
    (h : ClockInv start s) (hd : Due due t w s.1) (hends : EndsWith s.1.toTasks s'.1.toTasks t .E_TMOUT) :
    (∃ times sp, a = .timer_interrupt times sp) ∧ due ≤ s'.2 := by
  have hdue := hd.ticks
  obtain ⟨post, hlog, p, info, hev⟩ := hends
  have hact : ∃ times sp, a = .timer_interrupt times sp := by
    obtain ⟨m, q₁, hm, -, hin⟩ := (step_ok h.inv hstep.1).does.event hlog hev
    obtain ⟨w, rfl⟩ := (Move.ends_mem hin).resolve_right (by simp)
    cases a with
    | timer_interrupt times sp => exact ⟨times, sp, rfl⟩
    | call c times => exact absurd rfl hm.1
    | _ => exact absurd hm id
  refine ⟨hact, ?_⟩
  obtain ⟨times, sp, rfl⟩ := hact
  obtain ⟨helapsed, hnext, -, hfirst⟩ := hstep.timer h.inv
  obtain ⟨ts, hts, -, hcame⟩ := helapsed.expired
  have hmem : t ∈ ts := by
    rw [hlog, timedOut, List.filterMap_append] at hts
    rw [← List.append_cancel_left hts]
    exact List.mem_filterMap.mpr ⟨_, hev, rfl⟩
  have hticks := (hcame t hmem).2
  have hpos := h.timed t hd.mem
  have := hfirst (by omega)
  unfold TICK_COUNTS at *
  omega

theorem ClockSteps.not_after {s s' : Kernel × Nat} {sp : UINT} {due : Nat}
    (hstep : ClockSteps e s (.timer_interrupt times sp) s') (h : ClockInv start s) (hd : Due due t w s.1)
    (hlate : due ≤ s'.2) : ∃ cause, EndsWith s.1.toTasks s'.1.toTasks t cause := by
  have hdue := hd.ticks
  obtain ⟨helapsed, hnext, hlt, -⟩ := hstep.timer h.inv
  by_contra hnone
  push Not at hnone
  obtain ⟨hmem, -⟩ := (step_ok h.inv hstep.1).does.stays h.inv.core.tasks hd.mem hnone
  have hleft := (helapsed.left t hmem).2
  have hpos := (hstep.inv h).timed t hmem
  unfold TICK_COUNTS at *
  omega

theorem ClockSteps.limit {s s' : Kernel × Nat} {a : Act} {due : Nat} (hstep : ClockSteps e s a s')
    (h : ClockInv start s) (hd : Due due t w s.1) : LimitKept due t w s.1.toTasks a s'.1.toTasks s'.2 := by
  refine ⟨hstep.not_before h hd, ?_, ?_⟩
  · rintro ⟨times, sp, rfl⟩ cause hends
    obtain ⟨-, -, hcauses⟩ := timer_step h.inv hstep.1
    rcases hcauses t w cause hd.pending hends with rfl | hhanded
    · exact .inl ⟨rfl, (hstep.not_before h hd hends).2⟩
    · exact .inr hhanded
  · rintro ⟨times, sp, rfl⟩ hlate
    obtain ⟨cause, hends⟩ := hstep.not_after h hd hlate
    obtain ⟨-, -, hcauses⟩ := timer_step h.inv hstep.1
    rcases hcauses t w cause hd.pending hends with rfl | ⟨rfl, hhanded⟩
    · exact .inl hends
    · exact .inr ⟨hends, hhanded⟩

/-! ## Runs -/

theorem ClockSteps.path {s s' : Kernel × Nat} {as : List Act} (hp : Paths.Path (ClockSteps e) s as s')
    (h : ClockInv start s) : ClockInv start s' ∧ ∃ post, s'.1.log = s.1.log ++ post := by
  induction hp with
  | nil => exact ⟨h, [], by simp⟩
  | cons hstep _ ih =>
    obtain ⟨first, hfirst⟩ := (step_ok h.inv hstep.1).does.log
    obtain ⟨hinv, rest, hrest⟩ := ih (hstep.inv h)
    exact ⟨hinv, first ++ rest, by rw [hrest, hfirst, List.append_assoc]⟩

theorem ClockSteps.path_due {s s' : Kernel × Nat} {as : List Act} {due : Nat}
    (hp : Paths.Path (ClockSteps e) s as s') (h : ClockInv start s) (hd : Due due t w s.1)
    (hon : ∀ cause, ¬ EndsWith s.1.toTasks s'.1.toTasks t cause) : Due due t w s'.1 := by
  induction hp with
  | nil => exact hd
  | cons hstep hrest ih =>
    obtain ⟨first, hfirst⟩ := (step_ok h.inv hstep.1).does.log
    obtain ⟨-, rest, hlog⟩ := ClockSteps.path hrest (hstep.inv h)
    refine ih (hstep.inv h) (hstep.due h hd fun cause hends => ?_) fun cause hends => ?_
    · exact hon cause (hends.after hlog)
    · exact hon cause (hends.before hfirst)

/-- **Time limits are never short, and the tick grid does not drift.** -/
theorem time_limits_kept (h : OnClock b (k, now)) :
    k.alarms = [] ∧ (∃ j, k.s_mtimecmp = b.now + (j + 1) * TICK_COUNTS) ∧
    (∀ times sp k' now', ClockSteps b.entries (k, now) (.timer_interrupt times sp) (k', now') →
      k.edges times ≠ 0 → k'.s_mtimecmp = edgeAfter b.now now' 1) ∧
    ∀ c times t w ms k1 t0, ClockSteps b.entries (k, now) (.call c times) (k1, t0) →
      k1.log = k.log ++ [.block t w] → w.limit = some ms →
      t0 + ms * 10000 < edgeAfter b.now t0 (tkmc_ms_to_ticks ms) ∧
      edgeAfter b.now t0 (tkmc_ms_to_ticks ms) ≤ t0 + tkmc_ms_to_ticks ms * TICK_COUNTS ∧
      ∀ as k2 now2 a k3 now3, Paths.Path (ClockSteps b.entries) (k1, t0) as (k2, now2) →
        (∀ cause, ¬ EndsWith k1.toTasks k2.toTasks t cause) →
        ClockSteps b.entries (k2, now2) a (k3, now3) →
        LimitKept (edgeAfter b.now t0 (tkmc_ms_to_ticks ms)) t w k2.toTasks a k3.toTasks now3 := by
  have hinv := h.inv
  refine ⟨hinv.alarms, hinv.grid, ?_, ?_⟩
  · intro times sp k' now' hstep hedges
    have hinv' := hstep.inv hinv
    obtain ⟨-, -, hlt, hle⟩ := hstep.timer hinv.inv
    have hedge := edgeAfter_eq hinv'.grid hinv'.start_le hlt (hle hedges) 1
    exact Nat.add_right_cancel (hedge.trans (by rw [Nat.one_mul])).symm
  · intro c times t w ms k1 t0 hstep hlog hlimit
    have hinv1 := hstep.inv hinv
    obtain ⟨hms, hdue⟩ := hstep.begins hinv hlog hlimit
    obtain ⟨hlong, hshort⟩ := edgeAfter_bounds hinv1.start_le hms
    refine ⟨hlong, hshort, fun as k2 now2 a k3 now3 hp hon hlast => ?_⟩
    exact hlast.limit (ClockSteps.path hp hinv1).1 (ClockSteps.path_due hp hinv1 hdue hon)

/-- The sleep of `sleepRun`, and a timer interrupt that comes when it is due. -/
theorem time_limits_kept_sleepRun : ∃ k2 k3, sampleRun sleepRun = some k2 ∧
    step sampleBoot.entries k2 (.timer_interrupt [300000, 300000, 300000, 300000] 0) = some k3 ∧
    edgeAfter 0 0 (tkmc_ms_to_ticks 15) = 300000 ∧ EndsWith k2.toTasks k3.toTasks 0 .E_TMOUT := by
  have hrun : ((tkmc_start sampleBoot).bind fun k0 =>
      (step sampleBoot.entries k0 (.call (.wait (.slp 15)) [0])).bind fun k1 =>
      (step sampleBoot.entries k1 (.software_interrupt 0)).bind fun k2 =>
      (step sampleBoot.entries k2 (.timer_interrupt [300000, 300000, 300000, 300000] 0)).map fun _ =>
        (k0.s_mtimecmp, decide (k1.log = k0.log ++ [.block 0 (.slp 15)]),
          decide (k2.log = k1.log ++ [.dispatch 1]), k2.s_mtimecmp)) = some (100000, true, true, 100000) := by
    decide +kernel
  obtain ⟨k0, hk0, hrun⟩ := Option.bind_eq_some_iff.mp hrun
  obtain ⟨k1, hk1, hrun⟩ := Option.bind_eq_some_iff.mp hrun
  obtain ⟨k2, hk2, hrun⟩ := Option.bind_eq_some_iff.mp hrun
  obtain ⟨k3, hk3, hfacts⟩ := Option.map_eq_some_iff.mp hrun
  simp only [Prod.mk.injEq, decide_eq_true_eq] at hfacts
  obtain ⟨hc0, hlog1, hlog2, hc2⟩ := hfacts
  have hstart : OnClock sampleBoot (k0, 0) := ⟨(k0, 0), [], ⟨hk0, rfl, by decide⟩, .nil _⟩
  have hblock : ClockSteps sampleBoot.entries (k0, 0) (.call (.wait (.slp 15)) [0]) (k1, 0) := by
    refine ⟨hk1, ?_, ?_⟩
    · rintro ms hms
      obtain rfl : 15 = ms := by simpa [WaitCall.limit] using hms
      decide
    · have hreads : Reads 100000 0 [0] 0 := ⟨by decide, rfl, by decide, by decide, by decide⟩
      rwa [← hc0] at hreads
  have hswitch : ClockSteps sampleBoot.entries (k1, 0) (.software_interrupt 0) (k2, 0) := ⟨hk2, trivial, rfl⟩
  have htimer : ClockSteps sampleBoot.entries (k2, 0)
      (.timer_interrupt [300000, 300000, 300000, 300000] 0) (k3, 300000) := by
    have hreads : Reads 100000 0 [300000, 300000, 300000, 300000] 300000 :=
      ⟨by decide, rfl, by decide, by decide, by decide⟩
    rw [← hc2] at hreads
    exact ⟨hk3, trivial, hreads⟩
  obtain ⟨-, -, -, hwaits⟩ := time_limits_kept hstart
  obtain ⟨-, -, hlater⟩ := hwaits _ _ 0 (.slp 15) 15 k1 0 hblock hlog1 rfl
  refine ⟨k2, k3, ?_, hk3, by decide, ?_⟩
  · rw [sampleRun, hk0, Option.bind_some, sleepRun, run, List.foldlM_cons, hk1]
    exact congrArg (fun o : Option Kernel => o.bind some) hk2
  · have hkept := hlater _ k2 0 _ k3 300000 (.single hswitch) ?_ htimer
    · -- a sleep gets no units
      rcases hkept.comes ⟨_, _, rfl⟩ (by decide) with hends | ⟨-, s, u, hobj, -⟩
      · exact hends
      · cases hobj
    · rintro cause ⟨post, hpost, p, info, hev⟩
      obtain rfl := List.append_cancel_left (hlog2.symm.trans hpost)
      simp at hev

end TsukumoCore
