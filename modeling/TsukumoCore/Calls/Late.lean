import TsukumoCore.Calls.Handler

/-!
# Late rounds and punctual ones

A run of the loop over `n + m` periods is one over `n` periods and then one over `m`. The rest of the state
plays no part in it, so a switch request between the two does not matter.
-/

namespace TsukumoCore

variable {k k' k1 k2 : Kernel} {t u : TskId} {n n1 n2 : Nat} {b b1 b2 : Bool} {q : Tasks}

/-! ## Ticks -/

theorem tick_tick (k : Kernel) (n1 n2 : Nat) : (k.tick n1).tick n2 = k.tick (n1 + n2) := by
  have htcbs : ∀ t, (((k.tick n1).tick n2).tcbs t) = (k.tick (n1 + n2)).tcbs t := by
    intro t
    by_cases ht : t ∈ k.timer_queue
    · simp [Kernel.tick, Kernel.tasks, Move.effect, ht, Nat.sub_sub]
    · simp [Kernel.tick, Kernel.tasks, Move.effect, ht]
  have htasks : ((k.tick n1).tick n2).toTasks = (k.tick (n1 + n2)).toTasks :=
    Tasks.ext (funext htcbs) rfl rfl rfl rfl rfl rfl rfl rfl
  exact congrArg (fun q => ({ k with toTasks := q } : Kernel)) htasks

theorem tick_ticks (ht : t ∈ k.timer_queue) (n : Nat) :
    ((k.tick n).tcbs t).delay_ticks = (k.tcbs t).delay_ticks - n := by
  simp [Kernel.tick, Kernel.tasks, Move.effect, ht]

theorem tick_first_deadline (ht : first_deadline k.toTasks = some t) (hn : n ≤ (k.tcbs t).delay_ticks) :
    first_deadline (k.tick n).toTasks = some t := by
  obtain ⟨hmem, hleast, hfirst⟩ := first_deadline_some.mp ht
  refine first_deadline_some.mpr ⟨hmem, fun u hu => ?_, fun u hu hle => hfirst u hu ?_⟩
  · have hu' : u ∈ k.timer_queue := hu
    rw [tick_ticks hmem, tick_ticks hu']
    exact Nat.sub_le_sub_right (hleast u hu) n
  · have hu' : u ∈ k.timer_queue := hu
    rw [tick_ticks hmem, tick_ticks hu'] at hle
    have := hleast u hu
    omega

theorem tick_expire (ht : t ∈ k.timer_queue) (hn : n ≤ (k.tcbs t).delay_ticks) :
    (k.tick n).expire t = k.expire t := by
  unfold Kernel.expire
  rw [tick_ticks ht, tick_tick, Nat.add_sub_cancel' hn]

/-! ## Composition -/

theorem Rounds.compose (h1 : Rounds n1 k b1 k1) (h2 : Rounds n2 k1 b2 k2) :
    Rounds (n1 + n2) k (b1 || b2) k2 := by
  induction h1 with
  | empty ht =>
    cases h2 with
    | empty => exact .empty ht
    | stop ht' | expire ht' => exact absurd (ht.symm.trans ht') (by simp)
  | @stop n1 k t ht hn =>
    have hmem := (first_deadline_some.mp ht).1
    have hfirst := tick_first_deadline ht (Nat.le_of_lt hn)
    cases h2 with
    | empty ht' => exact absurd (hfirst.symm.trans ht') (by simp)
    | stop ht' hn' =>
      obtain rfl := Option.some.inj (hfirst.symm.trans ht')
      rw [tick_ticks hmem] at hn'
      rw [tick_tick]
      exact .stop ht (by omega)
    | expire ht' hn' hr =>
      obtain rfl := Option.some.inj (hfirst.symm.trans ht')
      rw [tick_ticks hmem] at hn'
      rw [tick_expire hmem (Nat.le_of_lt hn), tick_ticks hmem] at hr
      rw [show n2 - ((k.tcbs t).delay_ticks - n1) = n1 + n2 - (k.tcbs t).delay_ticks by omega] at hr
      exact .expire ht (by omega) hr
  | @expire n1 k k1 t b ht hn hr ih =>
    have hrest := ih h2
    rw [show n1 - (k.tcbs t).delay_ticks + n2 = n1 + n2 - (k.tcbs t).delay_ticks by omega] at hrest
    exact .expire ht (by omega) hrest

/-- More periods than the longest wait are no different. -/
theorem Rounds.more (h : Core k.toTasks k.toObjects) (h1 : Rounds n1 k b k1)
    (hall : ∀ t ∈ k.timer_queue, (k.tcbs t).delay_ticks ≤ n1) (hle : n1 ≤ n2) : Rounds n2 k b k1 := by
  induction h1 generalizing n2 with
  | empty ht => exact .empty ht
  | stop ht hn =>
    have := hall _ (first_deadline_some.mp ht).1
    omega
  | @expire n1 k k1 t b ht hn hr ih =>
    obtain ⟨hf, -⟩ := expire_fewer h ht
    have hsub : (k.expire t).timer_queue.Sublist k.timer_queue := hf.sublist
    refine .expire ht (hn.trans hle) (ih (expire_spec h ht).1.core (fun u hu => ?_) (Nat.sub_le_sub_right hle _))
    rw [(hf.ticks u hu).trans (tick_ticks (hsub.subset hu) _)]
    exact Nat.sub_le_sub_right (hall u (hsub.subset hu)) _

theorem Rounds.unique (h1 : Rounds n k b1 k1) (h2 : Rounds n k b2 k2) : b1 = b2 ∧ k1 = k2 := by
  induction h1 generalizing b2 k2 with
  | empty ht =>
    cases h2 with
    | empty => exact ⟨rfl, rfl⟩
    | stop ht' | expire ht' => exact absurd (ht.symm.trans ht') (by simp)
  | stop ht hn =>
    cases h2 with
    | empty ht' => exact absurd (ht.symm.trans ht') (by simp)
    | stop => exact ⟨rfl, rfl⟩
    | expire ht' hn' =>
      obtain rfl := Option.some.inj (ht.symm.trans ht')
      omega
  | expire ht hn hr ih =>
    cases h2 with
    | empty ht' => exact absurd (ht.symm.trans ht') (by simp)
    | stop ht' hn' =>
      obtain rfl := Option.some.inj (ht.symm.trans ht')
      omega
    | expire ht' hn' hr' =>
      obtain rfl := Option.some.inj (ht.symm.trans ht')
      exact ⟨rfl, (ih hr').2⟩

/-! ## The rest of the state -/

/-- The same tables on another machine. -/
def Kernel.on (k : Kernel) (c : Machine) : Kernel := { k with toMachine := c }

theorem serve_walk_on (s : SemId) (ts : List TskId) (k : Kernel) (c : Machine) :
    serve_walk s ts (k.on c) = (serve_walk s ts k).on c := by
  induction ts generalizing k with
  | nil => rfl
  | cons pos rest ih =>
    -- the tests read the tables only
    simp only [serve_walk, apply_ite (fun k : Kernel => k.on c), ← ih]
    rfl

theorem complete_wait_on (k : Kernel) (t : TskId) (cause : ER) (c : Machine) :
    tkmc_complete_wait (k.on c) t cause = (tkmc_complete_wait k t cause).on c := by
  unfold tkmc_complete_wait tkmc_sem_serve_waiters
  simp only [apply_ite (fun k : Kernel => k.on c)]
  refine ite_congr rfl (fun _ => ?_) fun _ => rfl
  have hinfo : (((k.on c).tasks (release · t cause)).tcbs t).winfo =
      ((k.tasks (release · t cause)).tcbs t).winfo := rfl
  rw [hinfo]
  cases ((k.tasks (release · t cause)).tcbs t).winfo with
  | semaphore semcnt s => exact serve_walk_on s _ (k.tasks (release · t cause)) c
  | _ => rfl

theorem Rounds.on (hr : Rounds n k b k') (c : Machine) : Rounds n (k.on c) b (k'.on c) := by
  induction hr with
  | empty ht => exact .empty ht
  | stop ht hn => exact .stop ht hn
  | @expire n k k' t b ht hn hr ih =>
    have hexp : (k.on c).expire t = (k.expire t).on c :=
      complete_wait_on (k.tick (k.tcbs t).delay_ticks) t .E_TMOUT c
    rw [← hexp] at ih
    exact .expire ht hn ih

/-! ## The order of the time-outs -/

/-- The tasks whose waits ended by their time limits, in that order. -/
def timedOut (log : List Event) : List TskId :=
  log.filterMap fun
    | .complete t _ .E_TMOUT _ => some t
    | _ => none

/-- The deadline of `t` comes before that of `u`, or they are equal and `t` is first on the timer queue. -/
def Sooner (q : Tasks) (t u : TskId) : Prop :=
  (q.tcbs t).delay_ticks < (q.tcbs u).delay_ticks ∨
    (q.tcbs t).delay_ticks = (q.tcbs u).delay_ticks ∧ [t, u].Sublist q.timer_queue

theorem pair_sublist {l : List TskId} (hlt : l.idxOf t < l.idxOf u) (hu : u ∈ l) : [t, u].Sublist l := by
  induction l with
  | nil => simp at hu
  | cons a l ih =>
    by_cases hta : a = t
    · subst hta
      have hne : u ≠ a := by rintro rfl; omega
      exact (List.singleton_sublist.mpr ((List.mem_cons.mp hu).resolve_left hne)).cons_cons a
    · have hua : a ≠ u := by rintro rfl; simp at hlt
      rw [List.idxOf_cons_ne _ hta, List.idxOf_cons_ne _ hua] at hlt
      exact (ih (by omega) ((List.mem_cons.mp hu).resolve_left (Ne.symm hua))).cons a

theorem first_deadline_sooner (ht : first_deadline q = some t) (hu : u ∈ q.timer_queue) (hne : u ≠ t) :
    Sooner q t u := by
  obtain ⟨hmem, hleast, hfirst⟩ := first_deadline_some.mp ht
  rcases Nat.lt_or_eq_of_le (hleast u hu) with hlt | heq
  · exact .inl hlt
  · refine .inr ⟨heq, pair_sublist ?_ hu⟩
    have hle := hfirst u hu (Nat.le_of_eq heq.symm)
    refine Nat.lt_of_le_of_ne hle fun hidx => hne ?_
    exact ((List.idxOf_inj hmem).mp hidx).symm

theorem follows_timedOut {w : WaitCall} {q' : Tasks} (hd : Does (follows w) q q') :
    timedOut q'.log = timedOut q.log := by
  refine hd.keeps (I := fun q' => timedOut q'.log = timedOut q.log) ?_ rfl
  rintro m q' ⟨s, -, t, w', rfl, -⟩ - heq
  rw [Move.log_effect, timedOut, List.filterMap_append, ← timedOut, heq]
  simp [Move.events]

theorem expire_timedOut (h : Core k.toTasks k.toObjects) (ht : first_deadline k.toTasks = some t) :
    timedOut (k.expire t).log = timedOut k.log ++ [t] := by
  obtain ⟨w, ha⟩ := expire_allowed h ht
  obtain ⟨htick, -⟩ := tick_ends h (tick_allowed ht (Nat.le_refl _))
  obtain ⟨-, hdoes, -⟩ := complete_wait_spec htick.core ha (by simp)
  have hrest := follows_timedOut hdoes
  unfold Kernel.expire
  rw [hrest]
  simp [Move.wakeEffect, Kernel.tick, Kernel.tasks, Move.effect, TsukumoCore.timedOut]

theorem expire_sooner {u' : TskId} (h : Core k.toTasks k.toObjects) (ht : first_deadline k.toTasks = some t)
    (hu : u ∈ (k.expire t).timer_queue) (hu' : u' ∈ (k.expire t).timer_queue)
    (hs : Sooner (k.expire t).toTasks u u') : Sooner k.toTasks u u' := by
  obtain ⟨hf, -⟩ := expire_fewer h ht
  have hsub : (k.expire t).timer_queue.Sublist k.timer_queue := hf.sublist
  have hleast := (first_deadline_some.mp ht).2.1
  have hticks : ∀ v ∈ (k.expire t).timer_queue,
      ((k.expire t).tcbs v).delay_ticks = (k.tcbs v).delay_ticks - (k.tcbs t).delay_ticks ∧
        (k.tcbs t).delay_ticks ≤ (k.tcbs v).delay_ticks := fun v hv =>
    ⟨(hf.ticks v hv).trans (tick_ticks (hsub.subset hv) _), hleast v (hsub.subset hv)⟩
  have := hticks u hu
  have := hticks u' hu'
  rcases hs with hlt | ⟨heq, hpair⟩
  · exact .inl (by omega)
  · exact .inr ⟨by omega, hpair.trans hsub⟩

theorem Rounds.expired (h : Core k.toTasks k.toObjects) (hr : Rounds n k b k') :
    ∃ ts, timedOut k'.log = timedOut k.log ++ ts ∧ ts.Pairwise (Sooner k.toTasks) ∧
      ∀ t ∈ ts, t ∈ k.timer_queue ∧ (k.tcbs t).delay_ticks ≤ n := by
  induction hr with
  | empty | stop => exact ⟨[], (List.append_nil _).symm, .nil, by simp⟩
  | @expire n k k' t b ht hn hr ih =>
    obtain ⟨ts, hlog, hsorted, hcame⟩ := ih (expire_spec h ht).1.core
    obtain ⟨hf, hnot⟩ := expire_fewer h ht
    have hsub : (k.expire t).timer_queue.Sublist k.timer_queue := hf.sublist
    refine ⟨t :: ts, ?_, List.pairwise_cons.mpr ⟨fun u hu => ?_, ?_⟩, fun u hu => ?_⟩
    · rw [hlog, expire_timedOut h ht, List.append_assoc, List.singleton_append]
    · have hmem := (hcame u hu).1
      exact first_deadline_sooner ht (hsub.subset hmem) fun heq => hnot (heq ▸ hmem)
    · exact hsorted.imp_of_mem fun hu hu' => expire_sooner h ht (hcame _ hu).1 (hcame _ hu').1
    · rcases List.mem_cons.mp hu with rfl | hu
      · exact ⟨(first_deadline_some.mp ht).1, hn⟩
      · obtain ⟨hmem, hle⟩ := hcame u hu
        have hticks := (hf.ticks u hmem).trans (tick_ticks (hsub.subset hmem) _)
        exact ⟨hsub.subset hmem, by omega⟩

/-! ## Units handed on -/

/-- The wait of `t` ended with `cause` between the two states. -/
def EndsWith (q q' : Tasks) (t : TskId) (cause : ER) : Prop :=
  ∃ post, q'.log = q.log ++ post ∧ ∃ p info, .complete t p cause info ∈ post

namespace EndsWith

variable {q₁ q' : Tasks} {cause : ER} {first rest : List Event}

theorem before (h : EndsWith q₁ q' t cause) (hlog : q₁.log = q.log ++ first) : EndsWith q q' t cause := by
  obtain ⟨post, hpost, p, info, hev⟩ := h
  exact ⟨first ++ post, by rw [hpost, hlog, List.append_assoc], p, info, List.mem_append_right _ hev⟩

theorem after (h : EndsWith q q₁ t cause) (hlog : q'.log = q₁.log ++ rest) : EndsWith q q' t cause := by
  obtain ⟨post, hpost, p, info, hev⟩ := h
  exact ⟨post ++ rest, by rw [hlog, hpost, List.append_assoc], p, info, List.mem_append_left _ hev⟩

theorem split (h : EndsWith q q' t cause) (hlog : q₁.log = q.log ++ first) (hlog' : q'.log = q₁.log ++ rest) :
    EndsWith q q₁ t cause ∨ EndsWith q₁ q' t cause := by
  obtain ⟨post, hpost, p, info, hev⟩ := h
  obtain rfl : first ++ rest = post := by
    rw [hlog', hlog, List.append_assoc] at hpost
    exact List.append_cancel_left hpost
  rcases List.mem_append.mp hev with hev | hev
  · exact .inl ⟨first, hlog, p, info, hev⟩
  · exact .inr ⟨rest, hlog', p, info, hev⟩

end EndsWith

theorem Move.ends_mem {m : Move} {p : Option Pending} {cause : ER} {info : WaitInfo}
    (hev : .complete t p cause info ∈ m.events q) :
    (∃ w, m = .wake t w cause) ∨ cause = .E_OK ∧ ∃ w d, m = .give t w d := by
  cases m with
  | wake u w cause' =>
    obtain ⟨rfl, -, rfl, -⟩ : t = u ∧ _ ∧ cause = cause' ∧ _ := by simpa [events] using hev
    exact .inl ⟨w, rfl⟩
  | give u w d =>
    obtain ⟨rfl, -, rfl, -⟩ : t = u ∧ _ ∧ cause = .E_OK ∧ _ := by simpa [events] using hev
    exact .inr ⟨rfl, w, d, rfl⟩
  | _ => simp [events] at hev

/-- Waits only end: the tasks that wait did so before, in the same call and on the same queue. -/
structure StillWait (q q' : Tasks) : Prop where
  stat : ∀ t, (q'.tcbs t).tskstat = .WAI → (q.tcbs t).tskstat = .WAI
  pending : q'.pending = q.pending
  queue : ∀ o, (q'.wait_queue o).Sublist (q.wait_queue o)

theorem timer_stillWait {q' : Tasks} (hd : Does timerMoves q q') : StillWait q q' := by
  refine hd.keeps (I := StillWait q) ?_ ⟨fun _ h => h, rfl, fun _ => .refl _⟩
  intro m q' hm ha h
  cases m with
  | tick n =>
    refine ⟨fun t ht => h.stat t ?_, h.pending, h.queue⟩
    simp only [Move.effect] at ht
    split at ht <;> exact ht
  | wake u w cause =>
    refine ⟨fun t ht => h.stat t ?_, h.pending, fun o => List.erase_sublist.trans (h.queue o)⟩
    by_cases hu : t = u
    · subst hu
      exact ha.1
    · simpa [Move.effect, Move.wakeEffect, hu] using ht
  | _ => exact absurd hm id

/-- The grants after the end of a wait go to tasks that waited on the same object. -/
theorem follows_ends {w : WaitCall} {q' : Tasks} {cause : ER} (hd : Does (follows w) q q')
    (hends : EndsWith q q' t cause) :
    (q.tcbs t).tskstat = .WAI ∧
      ∃ s w', w.obj = some (.sem s) ∧ q.pending t = some (.wait w') ∧ w'.obj = some (.sem s) := by
  have hkeep := hd.keeps (I := fun q' => StillWait q q' ∧ ∃ post, q'.log = q.log ++ post ∧
    ∀ p info, .complete t p cause info ∈ post →
      (q.tcbs t).tskstat = .WAI ∧
        ∃ s w', w.obj = some (.sem s) ∧ q.pending t = some (.wait w') ∧ w'.obj = some (.sem s)) ?_
    ⟨timer_stillWait (.refl q), [], by simp, by simp⟩
  · obtain ⟨-, post, hlog, hgranted⟩ := hkeep
    obtain ⟨post', hlog', p, info, hev⟩ := hends
    obtain rfl := List.append_cancel_left (hlog.symm.trans hlog')
    exact hgranted p info hev
  · rintro m q₁ hm ha ⟨hstill, post, hlog, hgranted⟩
    have hmove : StillWait q₁ (m.effect q₁) := timer_stillWait (.one (timerMoves_follows hm) ha)
    refine ⟨⟨fun t ht => hstill.stat t (hmove.stat t ht), hmove.pending.trans hstill.pending,
      fun o => (hmove.queue o).trans (hstill.queue o)⟩, post ++ m.events q₁, ?_, fun p info hev => ?_⟩
    · rw [Move.log_effect, hlog, List.append_assoc]
    · rcases List.mem_append.mp hev with hev | hev
      · exact hgranted p info hev
      · obtain ⟨s, hobj, u, w', rfl, hobj'⟩ := hm
        obtain ⟨rfl, -⟩ : t = u ∧ _ := by simpa [Move.events] using hev
        exact ⟨hstill.stat t ha.1, s, w', hobj, by rw [← hstill.pending]; exact ha.2.1, hobj'⟩

/-- The units went to `t`, which waits in `w`, when the time limit of another waiter of its semaphore ended the
wait of that one. -/
def HandedOn (q q' : Tasks) (t : TskId) (w : WaitCall) : Prop :=
  ∃ s u, w.obj = some (.sem s) ∧ u ≠ t ∧ u ∈ q.wait_queue (.sem s) ∧ EndsWith q q' u .E_TMOUT

theorem expire_handed {w : WaitCall} {u : TskId} (h : Core k.toTasks k.toObjects)
    (ht : first_deadline k.toTasks = some u) (hp : k.pending t = some (.wait w))
    (hends : EndsWith k.toTasks (k.expire u).toTasks t .E_OK) : HandedOn k.toTasks (k.expire u).toTasks t w := by
  obtain ⟨v, ha⟩ := expire_allowed h ht
  obtain ⟨htick, -⟩ := tick_ends h (tick_allowed ht (Nat.le_refl _))
  obtain ⟨-, hdoes, -⟩ := complete_wait_spec htick.core ha (by simp)
  have hfirst : EndsWith k.toTasks (Move.wakeEffect (k.tick (k.tcbs u).delay_ticks).toTasks u .E_TMOUT) u .E_TMOUT :=
    ⟨_, rfl, _, _, List.mem_cons_self⟩
  have hlog : (Move.wakeEffect (k.tick (k.tcbs u).delay_ticks).toTasks u .E_TMOUT).log = k.log ++ _ := rfl
  obtain ⟨rest, hrest⟩ := hdoes.log
  rcases hends.split hlog hrest with hhead | hends
  · obtain ⟨post, hpost, p, info, hev⟩ := hhead
    obtain rfl := List.append_cancel_left hpost
    simp at hev
  · obtain ⟨hwai, s, w', hv, hp', hobj⟩ := follows_ends hdoes hends
    obtain rfl : w = w' := by simpa using hp.symm.trans hp'
    have hne : u ≠ t := by
      rintro rfl
      simp [Move.wakeEffect] at hwai
    have hu : u ∈ k.wait_queue (.sem s) := by
      refine ((h.tasks.task u).wait (.sem s)).mpr ⟨((h.tasks.task u).timer.mp (first_deadline_some.mp ht).1).1, ?_⟩
      have hpu : k.pending u = some (.wait v) := ha.2.1
      rw [hpu]
      exact hv
    exact ⟨s, u, hobj, hne, hu, hfirst.after hrest⟩

/-- The handler ends a wait with `E_OK` only by handing units on. -/
theorem Rounds.handed {w : WaitCall} (h : Core k.toTasks k.toObjects) (hr : Rounds n k b k')
    (hp : k.pending t = some (.wait w)) (hends : EndsWith k.toTasks k'.toTasks t .E_OK) :
    HandedOn k.toTasks k'.toTasks t w := by
  induction hr with
  | empty | stop =>
    obtain ⟨post, hpost, p, info, hev⟩ := hends
    obtain rfl : [] = post := List.append_cancel_left ((List.append_nil _).trans hpost)
    cases hev
  | @expire n k k' u b hfirst hn hr ih =>
    obtain ⟨hexpire, -⟩ := expire_spec h hfirst
    obtain ⟨hrest, -⟩ := Rounds.ends hexpire.core hr
    obtain ⟨first, hlog⟩ := hexpire.does.log
    obtain ⟨rest, hlog'⟩ := hrest.does.log
    rcases hends.split hlog hlog' with hends | hends
    · obtain ⟨s, v, hobj, hne, hv, htmout⟩ := expire_handed h hfirst hp hends
      exact ⟨s, v, hobj, hne, hv, htmout.after hlog'⟩
    · have hstill := timer_stillWait hexpire.does
      have hp' : (k.expire u).pending t = some (.wait w) := by rw [hstill.pending]; exact hp
      obtain ⟨s, v, hobj, hne, hv, htmout⟩ := ih hexpire.core hp' hends
      exact ⟨s, v, hobj, hne, (hstill.queue _).subset hv, htmout.before hlog⟩

end TsukumoCore
