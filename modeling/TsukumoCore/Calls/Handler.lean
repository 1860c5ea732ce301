import TsukumoCore.Calls.Tasks
import Mathlib.Data.List.MinMax

/-!
# The timer handler

The loop of `tkmc_timer_handler`, round by round: `Rounds` has a constructor for each way a round ends.
What holds of the whole loop is shown by induction on it.
-/

namespace TsukumoCore

variable {k k' : Kernel} {t : TskId} {n : Nat} {b : Bool} {q : Tasks}

/-! ## The earliest deadline -/

theorem first_deadline_eq (q : Tasks) :
    first_deadline q = q.timer_queue.argmin fun t => (q.tcbs t).delay_ticks := by
  unfold first_deadline List.argmin
  congr 1
  funext first t
  cases first <;> rfl

theorem first_deadline_none : first_deadline q = none ↔ q.timer_queue = [] := by
  rw [first_deadline_eq, List.argmin_eq_none]

theorem first_deadline_some : first_deadline q = some t ↔
    t ∈ q.timer_queue ∧ (∀ u ∈ q.timer_queue, (q.tcbs t).delay_ticks ≤ (q.tcbs u).delay_ticks) ∧
      ∀ u ∈ q.timer_queue, (q.tcbs u).delay_ticks ≤ (q.tcbs t).delay_ticks →
        q.timer_queue.idxOf t ≤ q.timer_queue.idxOf u := by
  rw [first_deadline_eq]
  exact List.argmin_eq_some_iff

/-! ## The rounds -/

/-- `n` ticks taken off every wait with a time limit. -/
def Kernel.tick (k : Kernel) (n : Nat) : Kernel := k.tasks (Move.effect · (.tick n))

/-- The wait of `t` ended by its time limit, after the ticks it had left. -/
def Kernel.expire (k : Kernel) (t : TskId) : Kernel :=
  tkmc_complete_wait (k.tick (k.tcbs t).delay_ticks) t .E_TMOUT

inductive Rounds : Nat → Kernel → Bool → Kernel → Prop where
  | empty {n : Nat} {k : Kernel} : first_deadline k.toTasks = none → Rounds n k false k
  | stop {n : Nat} {k : Kernel} {t : TskId} :
      first_deadline k.toTasks = some t → n < (k.tcbs t).delay_ticks → Rounds n k false (k.tick n)
  | expire {n : Nat} {k k' : Kernel} {t : TskId} {b : Bool} :
      first_deadline k.toTasks = some t → (k.tcbs t).delay_ticks ≤ n →
      Rounds (n - (k.tcbs t).delay_ticks) (k.expire t) b k' → Rounds n k true k'

theorem tick_allowed (ht : first_deadline q = some t) (hn : n ≤ (q.tcbs t).delay_ticks) :
    (Move.tick n).Allowed q := by
  intro u hu
  exact hn.trans ((first_deadline_some.mp ht).2.1 u hu)

theorem tick_ends (h : Core k.toTasks k.toObjects) (ha : (Move.tick n).Allowed k.toTasks) :
    Ends (· = .tick n) k (k.tick n) ∧
      ∀ o, Served k.toTasks k.toObjects o → Served (k.tick n).toTasks (k.tick n).toObjects o := by
  have hd : Does (· = .tick n) k.toTasks (k.tick n).toTasks := .one (P := (· = .tick n)) rfl ha
  obtain ⟨hcore, hserved⟩ := h.does hd (by rintro m rfl; rfl)
  refine ⟨⟨hcore, hd, .refl _, rfl, fun s => rfl⟩, hserved⟩

theorem expire_allowed (h : Core k.toTasks k.toObjects) (ht : first_deadline k.toTasks = some t) :
    ∃ w, (Move.wake t w .E_TMOUT).Allowed (k.tick (k.tcbs t).delay_ticks).toTasks := by
  have hmem := (first_deadline_some.mp ht).1
  have hs := ((h.tasks.task t).timer.mp hmem).1
  obtain ⟨w, hp, -⟩ := h.waiting hs
  refine ⟨w, ?_, hp, by simp, fun _ => ⟨hmem, ?_⟩⟩
  · simpa [Kernel.tick, Kernel.tasks, Move.effect, hmem] using hs
  · simp [Kernel.tick, Kernel.tasks, Move.effect, hmem]

/-- What the handler can do to the tasks. -/
def timerMoves : Move → Prop
  | .tick _ => True
  | .wake _ w cause => cause = .E_TMOUT ∨ cause = .E_OK ∧ w.kind = .SEM
  | _ => False

theorem timerMoves_follows {w : WaitCall} {m : Move} (hm : follows w m) : timerMoves m := by
  obtain ⟨s, -, t, w', rfl, hobj⟩ := hm
  refine .inr ⟨rfl, ?_⟩
  cases w' with
  | sem => rfl
  | _ => simp [WaitCall.obj] at hobj

theorem expire_spec (h : Core k.toTasks k.toObjects) (ht : first_deadline k.toTasks = some t) :
    Ends timerMoves k (k.expire t) ∧
      ∀ o, Served k.toTasks k.toObjects o → Served (k.expire t).toTasks (k.expire t).toObjects o := by
  obtain ⟨w, ha⟩ := expire_allowed h ht
  obtain ⟨htick, hkept⟩ := tick_ends h (tick_allowed ht (Nat.le_refl _))
  obtain ⟨hends, -, hserved⟩ := complete_wait_spec htick.core ha (by simp)
  refine ⟨(htick.mono ?_).trans (hends.mono ?_), ?_⟩
  · rintro m rfl; trivial
  · rintro m (rfl | hm)
    · exact .inl rfl
    · exact timerMoves_follows hm
  · intro o ho
    exact hserved o (fun _ _ _ => .inl rfl) (hkept o ho)

/-! ## The end of the loop -/

/-- The ends of waits take tasks off the timer queue and leave the ticks of the others. -/
structure Fewer (q q' : Tasks) : Prop where
  sublist : q'.timer_queue.Sublist q.timer_queue
  ticks : ∀ t ∈ q'.timer_queue, (q'.tcbs t).delay_ticks = (q.tcbs t).delay_ticks

theorem Fewer.refl (q : Tasks) : Fewer q q := ⟨.refl _, fun _ _ => rfl⟩

theorem Fewer.trans {q' q'' : Tasks} (h : Fewer q q') (h' : Fewer q' q'') : Fewer q q'' :=
  ⟨h'.sublist.trans h.sublist, fun t ht => (h'.ticks t ht).trans (h.ticks t (h'.sublist.subset ht))⟩

theorem wake_fewer (h : Placed q) (t : TskId) (cause : ER) : Fewer q (Move.wakeEffect q t cause) := by
  refine ⟨List.erase_sublist, fun u hu => ?_⟩
  have hu' : u ≠ t := ((h.timer_nodup.mem_erase_iff).mp hu).1
  simp [Move.wakeEffect, hu']

theorem follows_fewer {w : WaitCall} {q' : Tasks} (h : Ok q) (hd : Does (follows w) q q') : Fewer q q' := by
  have hkeep := hd.keeps (I := fun q' => Ok q' ∧ Fewer q q') ?_ ⟨h, .refl q⟩
  · exact hkeep.2
  · rintro m q' ⟨s, -, t, w', rfl, -⟩ ha ⟨hok, hf⟩
    exact ⟨Move.ok hok ha, hf.trans (wake_fewer hok.toPlaced t .E_OK)⟩

theorem expire_fewer (h : Core k.toTasks k.toObjects) (ht : first_deadline k.toTasks = some t) :
    Fewer (k.tick (k.tcbs t).delay_ticks).toTasks (k.expire t).toTasks ∧ t ∉ (k.expire t).timer_queue := by
  obtain ⟨w, ha⟩ := expire_allowed h ht
  obtain ⟨htick, -⟩ := tick_ends h (tick_allowed ht (Nat.le_refl _))
  obtain ⟨-, hdoes, -⟩ := complete_wait_spec htick.core ha (by simp)
  have hrest := follows_fewer (Move.ok htick.core.tasks ha) hdoes
  refine ⟨(wake_fewer htick.core.tasks.toPlaced t .E_TMOUT).trans hrest, fun hmem => ?_⟩
  exact absurd (hrest.sublist.subset hmem) (htick.core.tasks.timer_nodup.not_mem_erase)

theorem expire_length (h : Core k.toTasks k.toObjects) (ht : first_deadline k.toTasks = some t) :
    (k.expire t).timer_queue.length < k.timer_queue.length := by
  obtain ⟨hf, hnot⟩ := expire_fewer h ht
  have hsub : (k.expire t).timer_queue.Sublist k.timer_queue := hf.sublist
  refine lt_of_le_of_ne hsub.length_le fun heq => hnot ?_
  rw [hsub.eq_of_length heq]
  exact (first_deadline_some.mp ht).1

/-- The loop comes to its end, if it may run once more often than there are tasks with a time limit. -/
theorem timer_loop_rounds (fuel : Nat) (h : Core k.toTasks k.toObjects) (hn : n < 2 ^ 32)
    (hfuel : k.timer_queue.length < fuel) (ended : Bool) :
    ∃ b k', Rounds n k b k' ∧ timer_loop fuel n ended k = some (ended || b, k') := by
  induction fuel generalizing k n ended with
  | zero => omega
  | succ fuel ih =>
    unfold timer_loop
    cases ht : first_deadline k.toTasks with
    | none => exact ⟨false, k, .empty ht, by simp⟩
    | some t =>
      by_cases hstop : n < (k.tcbs t).delay_ticks
      · have hstep : ¬ (k.tcbs t).delay_ticks < n := by omega
        have htick := pass_ticks_eq h.tasks.toPlaced (tick_allowed ht (Nat.le_of_lt hstop))
        refine ⟨false, k.tick n, .stop ht hstop, ?_⟩
        simp only [hstep, if_false, gt_iff_lt, hstop, if_true, Bool.or_false, Kernel.tasks, htick]
        rfl
      · have hmin : (if (k.tcbs t).delay_ticks < n then (k.tcbs t).delay_ticks else n) =
            (k.tcbs t).delay_ticks := by split <;> omega
        have hleft : (n + 2 ^ 32 - (k.tcbs t).delay_ticks) % 2 ^ 32 = n - (k.tcbs t).delay_ticks := by omega
        have htick := pass_ticks_eq h.tasks.toPlaced (tick_allowed ht (Nat.le_refl _))
        have hlen := expire_length h ht
        obtain ⟨b, k', hr, hloop⟩ := ih (k := k.expire t) (n := n - (k.tcbs t).delay_ticks)
          (expire_spec h ht).1.core (by omega) (by omega) true
        refine ⟨true, k', .expire ht (by omega) hr, ?_⟩
        simp only [hmin, hleft, gt_iff_lt, Nat.lt_irrefl, if_false, Kernel.tasks, htick]
        rw [Bool.or_true, ← Bool.true_or b]
        exact hloop

theorem Rounds.ends (h : Core k.toTasks k.toObjects) (hr : Rounds n k b k') :
    Ends timerMoves k k' ∧ ∀ o, Served k.toTasks k.toObjects o → Served k'.toTasks k'.toObjects o := by
  induction hr with
  | empty => exact ⟨.refl h, fun _ hs => hs⟩
  | stop ht hn =>
    obtain ⟨htick, hserved⟩ := tick_ends h (tick_allowed ht (Nat.le_of_lt hn))
    exact ⟨htick.mono (by rintro m rfl; trivial), hserved⟩
  | expire ht hn hr ih =>
    obtain ⟨hends, hserved⟩ := expire_spec h ht
    obtain ⟨hends', hserved'⟩ := ih hends.core
    exact ⟨hends.trans hends', fun o ho => hserved' o (hserved o ho)⟩

theorem Rounds.ready_queue (hr : Rounds n k false k') : k'.ready_queue = k.ready_queue := by
  cases hr <;> rfl

theorem Rounds.left (h : Core k.toTasks k.toObjects) (hr : Rounds n k b k') :
    k'.timer_queue.Sublist k.timer_queue ∧ ∀ t ∈ k'.timer_queue,
      0 < (k'.tcbs t).delay_ticks ∧ (k'.tcbs t).delay_ticks + n = (k.tcbs t).delay_ticks := by
  induction hr with
  | empty ht =>
    refine ⟨.refl _, fun t hmem => ?_⟩
    rw [first_deadline_none.mp ht] at hmem
    exact absurd hmem List.not_mem_nil
  | @stop n k t ht hn =>
    refine ⟨.refl _, fun u hu => ?_⟩
    have hmem : u ∈ k.timer_queue := hu
    have := (first_deadline_some.mp ht).2.1 u hmem
    simp only [Kernel.tick, Kernel.tasks, Move.effect, hmem, if_true]
    omega
  | @expire n k k' t b ht hn hr ih =>
    obtain ⟨hsub, hleft⟩ := ih (expire_spec h ht).1.core
    obtain ⟨hf, -⟩ := expire_fewer h ht
    have hsub' : (k.expire t).timer_queue.Sublist k.timer_queue := hf.sublist
    refine ⟨hsub.trans hsub', fun u hu => ?_⟩
    have hmem : u ∈ k.timer_queue := hsub'.subset (hsub.subset hu)
    have hticks := hf.ticks u (hsub.subset hu)
    have hle := (first_deadline_some.mp ht).2.1 u hmem
    have := hleft u hu
    simp only [Kernel.tick, Kernel.tasks, Move.effect, hmem, if_true] at hticks
    omega

/-! ## The handler -/

/-- The compare value moved to `c`, in memory and in the register. -/
def Kernel.compare (k : Kernel) (c : Nat) : Kernel := write_mtimecmp { k with s_mtimecmp := c } c

/-- The rounds of the loop of `pass_elapsed_periods`: the edges that have passed, which it counts in a `UINT`. -/
def elapsed_edges (mtimecmp : Nat) : List Nat → Nat
  | [] => 0
  | now :: rest => if now ≥ mtimecmp then elapsed_edges ((mtimecmp + TICK_COUNTS) % 2 ^ 64) rest + 1 else 0

theorem pass_elapsed_edges (c : Nat) (times : List Nat) :
    (pass_elapsed_periods c times).2 = elapsed_edges c times % 2 ^ 32 := by
  induction times generalizing c with
  | nil => rfl
  | cons now rest ih =>
    unfold pass_elapsed_periods elapsed_edges
    split
    · simp only [ih, Nat.mod_add_mod]
    · rfl

theorem pass_elapsed_lt (c : Nat) (times : List Nat) : (pass_elapsed_periods c times).2 < 2 ^ 32 := by
  rw [pass_elapsed_edges]
  exact Nat.mod_lt _ (Nat.two_pow_pos 32)

theorem pass_elapsed_compare {c : Nat} (hc : c < 2 ^ 64) (times : List Nat) :
    (pass_elapsed_periods c times).1 = (c + elapsed_edges c times * TICK_COUNTS) % 2 ^ 64 := by
  induction times generalizing c with
  | nil => rw [elapsed_edges, Nat.zero_mul, Nat.add_zero, Nat.mod_eq_of_lt hc]; rfl
  | cons now rest ih =>
    unfold pass_elapsed_periods elapsed_edges
    split
    · simp only [ih (Nat.mod_lt _ (Nat.two_pow_pos 64)), Nat.mod_add_mod, Nat.succ_mul]
      rw [Nat.add_assoc, Nat.add_comm TICK_COUNTS]
    · rw [Nat.zero_mul, Nat.add_zero, Nat.mod_eq_of_lt hc]

theorem elapsed_edges_replicate (n : Nat) {c : Nat} (hc : c + (n + 1) * TICK_COUNTS < 2 ^ 64) :
    elapsed_edges c (List.replicate (n + 2) (c + n * TICK_COUNTS)) = n + 1 := by
  induction n generalizing c with
  | zero =>
    have hlt : c + TICK_COUNTS < 2 ^ 64 := by omega
    have hstop : ¬ c ≥ c + TICK_COUNTS := by simp only [TICK_COUNTS]; omega
    simp only [List.replicate_succ, List.replicate_zero, Nat.zero_mul, Nat.add_zero, elapsed_edges,
      ge_iff_le, Nat.le_refl, if_true, Nat.mod_eq_of_lt hlt]
    rw [if_neg hstop]
  | succ n ih =>
    have hlt : c + TICK_COUNTS < 2 ^ 64 := by
      simp only [TICK_COUNTS] at *
      omega
    have hnext : c + (n + 1) * TICK_COUNTS = c + TICK_COUNTS + n * TICK_COUNTS := by
      simp only [TICK_COUNTS]
      omega
    have hrest := ih (c := c + TICK_COUNTS) (by simp only [TICK_COUNTS] at *; omega)
    rw [List.replicate_succ, elapsed_edges, if_pos (by omega), Nat.mod_eq_of_lt hlt, hnext, hrest]

theorem timer_handler_none {times : List Nat} (hz : (pass_elapsed_periods k.s_mtimecmp times).2 = 0) :
    tkmc_timer_handler k times = some k := by
  unfold tkmc_timer_handler
  simp only [hz, if_true]

theorem timer_handler_rounds (h : Core k.toTasks k.toObjects) {times : List Nat}
    (hz : (pass_elapsed_periods k.s_mtimecmp times).2 ≠ 0) :
    ∃ b k', Rounds (pass_elapsed_periods k.s_mtimecmp times).2
        (k.compare (pass_elapsed_periods k.s_mtimecmp times).1) b k' ∧
      tkmc_timer_handler k times = some (if b then request_switch k' else k') := by
  have hlen : k.timer_queue.length < CFN_MAX_TSKID + 1 := by
    have := h.tasks.timer_nodup.length_le_card
    rw [Fintype.card_fin] at this
    omega
  obtain ⟨b, k', hr, hloop⟩ := timer_loop_rounds (k := k.compare (pass_elapsed_periods k.s_mtimecmp times).1)
    (CFN_MAX_TSKID + 1) h (pass_elapsed_lt k.s_mtimecmp times) hlen false
  refine ⟨b, k', hr, ?_⟩
  unfold tkmc_timer_handler
  simp only [hz, if_false]
  unfold Kernel.compare at hloop
  rw [hloop, Bool.false_or]

end TsukumoCore
