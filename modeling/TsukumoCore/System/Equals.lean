import TsukumoCore.System.Created
import TsukumoCore.System.Start

/-!
# Tasks of equal priority

A ready queue is in the order of enqueueing, and a task keeps its place until it runs and gives way. So equals
take turns, and a task that a higher priority preempts is not passed by its equals.
-/

namespace TsukumoCore

variable {b : Boot} {e : Entries} {k k' k₁ : Kernel} {q q' : Tasks} {t u w : TskId} {m : Move} {a : Act} {i : Nat}
  {pre post : List Event}

/-! ## Stamps -/

theorem stamp_append_of_not_mem {log : List Event} (h : .enqueue u ∉ post) : stamp (log ++ post) u = stamp log u := by
  induction post using List.reverseRecOn with
  | nil => rw [List.append_nil]
  | append_singleton post ev ih =>
    rw [List.mem_append, List.mem_singleton, not_or] at h
    rw [← List.append_assoc, stamp_append, if_neg (Ne.symm h.2), ih h.1]

theorem lt_stamp_append {log : List Event} (h : .enqueue u ∈ post) : log.length < stamp (log ++ post) u := by
  induction post using List.reverseRecOn with
  | nil => cases h
  | append_singleton post ev ih =>
    rw [← List.append_assoc, stamp_append]
    split
    · rw [List.length_append]
      omega
    · rename_i hne
      rcases List.mem_append.mp h with hmem | hmem
      · exact ih hmem
      · exact absurd (List.mem_singleton.mp hmem).symm hne

theorem stamp_le_append (log post : List Event) (u : TskId) : stamp log u ≤ stamp (log ++ post) u := by
  by_cases hmem : .enqueue u ∈ post
  · exact Nat.le_of_lt (Nat.lt_of_le_of_lt (stamp_le log u) (lt_stamp_append hmem))
  · rw [stamp_append_of_not_mem hmem]

/-! ## A task that does not run keeps its place -/

/-- `u` is on the same ready queue as before, and was not put there anew. -/
structure KeepsPlace (q q' : Tasks) (u : TskId) : Prop where
  active : (q'.tcbs u).active
  itskpri : (q'.tcbs u).itskpri = (q.tcbs u).itskpri
  stamp : stamp q'.log u = stamp q.log u

theorem KeepsPlace.trans {q'' : Tasks} (h : KeepsPlace q q' u) (h' : KeepsPlace q' q'' u) : KeepsPlace q q'' u :=
  ⟨h'.active, h'.itskpri.trans h.itskpri, h'.stamp.trans h.stamp⟩

theorem Move.itskpri (hm : ∀ w pk frame, m ≠ .create w pk frame) (u : TskId) :
    ((m.effect q).tcbs u).itskpri = (q.tcbs u).itskpri := by
  have hmade := Move.made (q := q) hm u
  simp only [Prod.mk.injEq] at hmade
  exact hmade.2.2.1

theorem Move.keepsPlace (h : Placed q) (ha : m.Allowed q) (hact : (q.tcbs u).active) (hm : m.actor ≠ some u) :
    KeepsPlace q (m.effect q) u := by
  refine ⟨(Move.sameEntry h ha hact hm).active, ?_, ?_⟩
  · by_cases hcreate : ∃ w pk frame, m = .create w pk frame
    · obtain ⟨w, pk, frame, rfl⟩ := hcreate
      have hne : u ≠ w := by
        rintro rfl
        exact hact.stat_ne_noexs ((h.task u).free.mp (List.mem_of_mem_head? ha.1))
      simp [effect, hne]
    · push Not at hcreate
      exact Move.itskpri hcreate u
  · rw [Move.log_effect]
    apply stamp_append_of_not_mem
    intro hmem
    cases m with
    | wake w call cause =>
      simp only [events, List.mem_cons, reduceCtorEq, Event.enqueue.injEq, List.not_mem_nil, or_false, false_or] at hmem
      subst hmem
      exact hact.stat_ne_wai ha.1
    | give w call d =>
      simp only [events, List.mem_cons, reduceCtorEq, Event.enqueue.injEq, List.not_mem_nil, or_false, false_or] at hmem
      subst hmem
      exact hact.stat_ne_wai ha.1
    | start w frame =>
      obtain rfl := Event.enqueue.inj (List.mem_singleton.mp hmem)
      exact hact.stat_ne_dmt ha
    | yield w =>
      obtain rfl := Event.enqueue.inj (List.mem_singleton.mp hmem)
      exact hm rfl
    | block | dispatch | finish | note => cases List.mem_singleton.mp hmem
    | _ => exact absurd hmem List.not_mem_nil

theorem step_keepsPlace (h : Inv k) (hk : step e k a = some k') (haway : k.current ≠ some u)
    (hact : (k.tcbs u).active) : KeepsPlace k.toTasks k'.toTasks u := by
  have hkeep := (step_ok h hk).does.keeps (I := fun q' => Ok q' ∧ KeepsPlace k.toTasks q' u) ?_
    ⟨h.core.tasks, hact, rfl, rfl⟩
  · exact hkeep.2
  · rintro m q' hm ha ⟨hok, hplace⟩
    have hactor : m.actor ≠ some u := fun heq => haway (stepMoves_actor hm heq)
    exact ⟨Move.ok hok ha, hplace.trans (Move.keepsPlace hok.toPlaced ha hplace.active hactor)⟩

theorem path_keepsPlace {as : List Act} (hrun : Paths.Path (Steps e) k as k') (h : Inv k)
    (haway : k.current ≠ some u) (hact : (k.tcbs u).active) (hlog : k'.log = k.log ++ pre)
    (hnot : .dispatch u ∉ pre) : KeepsPlace k.toTasks k'.toTasks u ∧ k'.current ≠ some u := by
  induction hrun generalizing pre with
  | nil => exact ⟨⟨hact, rfl, rfl⟩, haway⟩
  | @cons k k₁ k' a as hstep hrun ih =>
    have hok := step_ok h hstep
    obtain ⟨first, hfirst⟩ := hok.does.log
    obtain ⟨-, rest, hrest⟩ := hok.inv.path hrun
    obtain rfl : first ++ rest = pre := by
      rw [hrest, hfirst, List.append_assoc] at hlog
      exact List.append_cancel_left hlog
    rw [List.mem_append, not_or] at hnot
    have hplace := step_keepsPlace h hstep haway hact
    have haway' : k₁.current ≠ some u := by
      rcases hok.current with hcur | ⟨w, post, hcur, hpost, hmem⟩
      · rw [hcur]
        exact haway
      · intro heq
        obtain rfl := Option.some.inj (hcur.symm.trans heq)
        rw [List.append_cancel_left (hfirst.symm.trans hpost)] at hnot
        exact hnot.1 hmem
    obtain ⟨hplace', haway''⟩ := ih hok.inv haway' hplace.active hrest hnot.2
    exact ⟨hplace.trans hplace', haway''⟩

/-! ## A dispatch -/

theorem serve_msip_settles (k : Kernel) (sp : UINT) : (serve_msip k sp).msip = false := by
  unfold serve_msip
  split
  · unfold schedule
    split <;> rfl
  · rename_i hmsip
    exact Bool.eq_false_iff.mpr hmsip

theorem dispatch_settles (h : Inv k) (hk : step e k a = some k') (hpost : k'.log = k.log ++ post)
    (hmem : .dispatch t ∈ post) : k'.current = some t ∧ k'.msip = false := by
  obtain ⟨m, q, hm, -, hev⟩ := (step_ok h hk).does.event hpost hmem
  have hdispatch : ∃ old sp, m = .dispatch old t sp := by
    cases m with
    | dispatch old new sp =>
      obtain rfl := Event.dispatch.inj (List.mem_singleton.mp hev)
      exact ⟨old, sp, rfl⟩
    | _ => simp [Move.events] at hev
  obtain ⟨old, sp, rfl⟩ := hdispatch
  cases a with
  | external_leave sp =>
    refine ⟨hm.2, ?_⟩
    simp only [step, Option.ite_none_left_eq_some, Option.some.injEq] at hk
    obtain ⟨-, rfl⟩ := hk
    by_cases hdepth : k.isr_depth = 1
    · rw [if_pos hdepth] at hpost ⊢
      exact serve_msip_settles k sp
    · rw [if_neg hdepth] at hpost
      rw [List.self_eq_append_right.mp hpost] at hmem
      cases hmem
  | timer_interrupt times sp =>
    refine ⟨hm.2, ?_⟩
    simp only [step, Option.ite_none_right_eq_some, Option.map_eq_some_iff] at hk
    obtain ⟨-, k₁, -, rfl⟩ := hk
    exact serve_msip_settles k₁ sp
  | software_interrupt sp =>
    refine ⟨hm.2, ?_⟩
    simp only [step, Option.ite_none_right_eq_some, Option.some.injEq] at hk
    obtain ⟨-, rfl⟩ := hk
    show (schedule _ sp).msip = false
    unfold schedule
    split <;> rfl
  | _ => exact absurd hm id

theorem Inv.first (h : Inv k) (hcur : k.current = some t) (hmsip : k.msip = false) :
    (∃ rest, k.ready_queue (k.tcbs t).level = t :: rest) ∧ ∀ j < (k.tcbs t).level, k.ready_queue j = [] := by
  have hfirst := (h.sched.settled hmsip).1
  rw [hcur] at hfirst
  obtain ⟨i, -, hhead, habove⟩ := highest_iff.mp hfirst.symm
  obtain ⟨-, rfl⟩ := ((h.core.tasks.task t).ready i).mp (List.mem_of_mem_head? hhead)
  cases hq : k.ready_queue (k.tcbs t).level with
  | nil =>
    rw [hq] at hhead
    cases hhead
  | cons v rest =>
    rw [hq] at hhead
    obtain rfl := Option.some.inj hhead
    exact ⟨⟨rest, rfl⟩, habove⟩

theorem Inv.first_stamp (h : Inv k) (hcur : k.current = some t) (hmsip : k.msip = false) (hact : (k.tcbs u).active)
    (hlevel : (k.tcbs u).level = (k.tcbs t).level) (hne : u ≠ t) : stamp k.log t < stamp k.log u := by
  obtain ⟨⟨rest, hq⟩, -⟩ := h.first hcur hmsip
  have hmem := ((h.core.tasks.task u).ready _).mpr ⟨hact, rfl⟩
  have hfifo := h.core.tasks.fifo (k.tcbs t).level
  rw [hlevel, hq] at hmem
  rw [hq] at hfifo
  exact (List.pairwise_cons.mp hfifo).1 u ((List.mem_cons.mp hmem).resolve_left hne)

/-! ## Turns -/

theorem yield_behind (h : Inv k) (hcur : k.current = some t) (hact : (k.tcbs t).active) (hne : u ≠ t)
    (hu : u ∈ k.ready_queue (k.tcbs t).level) : [u, t].Sublist ((tkmc_yield k).ready_queue (k.tcbs t).level) := by
  obtain ⟨htasks, -⟩ := tkmc_yield_eq h.core.tasks.toPlaced hcur hact
  have hqueue : (tkmc_yield k).ready_queue (k.tcbs t).level = (k.ready_queue (k.tcbs t).level).erase t ++ [t] := by
    rw [htasks]
    simp [Move.effect]
  rw [hqueue]
  exact (List.singleton_sublist.mpr ((List.mem_erase_of_ne hne).mpr hu)).append (List.Sublist.refl _)

theorem dispatched_in_front (h : Reachable b k) (horder : [u, t].Sublist (k.ready_queue i)) (haway : k.current ≠ some u)
    {as : List Act} (hrun : Paths.Path (Steps b.entries) k as k₁) (hpre : k₁.log = k.log ++ pre)
    (hk : step b.entries k₁ a = some k') (hpost : k'.log = k₁.log ++ post) (hdispatch : .dispatch t ∈ post)
    (hpri : (k'.tcbs t).itskpri = (k.tcbs t).itskpri) : .dispatch u ∈ pre := by
  by_contra hnot
  have hinv := h.inv
  obtain ⟨hu, hlevel⟩ := ((hinv.core.tasks.task u).ready i).mp (horder.subset (by simp))
  obtain ⟨-, hlevel'⟩ := ((hinv.core.tasks.task t).ready i).mp (horder.subset (by simp))
  obtain ⟨hplace, haway'⟩ := path_keepsPlace hrun hinv haway hu hpre hnot
  have hinv₁ := (hinv.path hrun).1
  have hplace' := hplace.trans (step_keepsPlace hinv₁ hk haway' hplace.active)
  obtain ⟨hcur, hmsip⟩ := dispatch_settles hinv₁ hk hpost hdispatch
  have hne : u ≠ t := by
    have hnodup := (hinv.core.tasks.ready_nodup i).sublist horder
    simpa using hnodup
  have hsame : (k'.tcbs u).level = (k'.tcbs t).level := by
    simp only [TCB.level, hplace'.itskpri, hpri] at hlevel hlevel' ⊢
    omega
  have hfirst := (step_ok hinv₁ hk).inv.first_stamp hcur hmsip hplace'.active hsame hne
  have hbefore : stamp k.log u < stamp k.log t := by
    have hfifo := (hinv.core.tasks.fifo i).sublist horder
    simpa using hfifo
  have hlater := stamp_le_append k.log (pre ++ post) t
  rw [← List.append_assoc, ← hpre, ← hpost] at hlater
  rw [hplace'.stamp] at hfirst
  omega

/-- **Equals take turns.** A task that keeps its priority is not dispatched before those in front of it on its ready
queue, and one that yields goes behind the others. -/
theorem equals_take_turns (h : Reachable b k) :
    (∀ (u t : TskId) (i : Nat) (as : List Act) (a : Act) (k₁ k' : Kernel) (pre post : List Event),
      [u, t].Sublist (k.ready_queue i) → k.current ≠ some u →
      Paths.Path (Steps b.entries) k as k₁ → k₁.log = k.log ++ pre →
      step b.entries k₁ a = some k' → k'.log = k₁.log ++ post → .dispatch t ∈ post →
      (k'.tcbs t).itskpri = (k.tcbs t).itskpri → .dispatch u ∈ pre) ∧
    ∀ u t : TskId, k.current = some t → (k.tcbs t).active → u ≠ t → u ∈ k.ready_queue (k.tcbs t).level →
      [u, t].Sublist ((tkmc_yield k).ready_queue (k.tcbs t).level) := by
  refine ⟨?_, ?_⟩
  · intro u t i as a k₁ k' pre post horder haway hrun hpre hk hpost hdispatch hpri
    exact dispatched_in_front h horder haway hrun hpre hk hpost hdispatch hpri
  · intro u t hcur hact hne hu
    exact yield_behind h.inv hcur hact hne hu

/-- Three tasks of one priority are ready, and the first of them runs. -/
def turnsRun : List Act :=
  [.call (.cre_tsk (some { exinf := 0, tskatr := TA_USERBUF, task := 0x80004000, itskpri := 1, stksz := 512,
                           bufptr := 0x80020000 })) [],
    .call (.cre_tsk (some { exinf := 0, tskatr := TA_USERBUF, task := 0x80005000, itskpri := 1, stksz := 512,
                            bufptr := 0x80030000 })) [],
    .call (.sta_tsk 3 0) [], .call (.sta_tsk 4 0) []]

/-- It ends, and the second task gives way to the third. -/
def turnsPre : List Event := [.ret .ext_tsk { ercd := .E_OK }, .dispatch 2, .enqueue 2]

theorem equals_take_turns_turnsRun : ∃ k, sampleRun turnsRun = some k ∧ [2, 3].Sublist (k.ready_queue 0) ∧
    .dispatch 2 ∈ turnsPre ∧ [2, 0].Sublist ((tkmc_yield k).ready_queue (k.tcbs 0).level) := by
  obtain ⟨k, hk, horder, hcur, hact, hready, hrun⟩ := sampleRun_of_any turnsRun (fun k =>
    [2, 3].Sublist (k.ready_queue 0) ∧ k.current = some 0 ∧ (k.tcbs 0).active ∧
    2 ∈ k.ready_queue (k.tcbs 0).level ∧ (run sampleBoot.entries k [.call .ext_tsk [], .software_interrupt 0,
      .call (.wait (.dly 0)) [], .resume]).any (fun k₁ => decide (k₁.log = k.log ++ turnsPre) &&
        (step sampleBoot.entries k₁ (.software_interrupt 0)).any fun k' =>
          decide (k'.log = k₁.log ++ [Event.dispatch 3] ∧ (k'.tcbs 3).itskpri = (k.tcbs 3).itskpri)) = true)
    (by decide +kernel)
  obtain ⟨k₁, hk₁, hthen⟩ := (Option.any_eq_true _ _).mp hrun
  rw [Bool.and_eq_true, decide_eq_true_iff] at hthen
  obtain ⟨k', hk', hlast⟩ := (Option.any_eq_true _ _).mp hthen.2
  obtain ⟨hpost, hpri⟩ := of_decide_eq_true hlast
  obtain ⟨hturns, hyield⟩ := equals_take_turns (sampleRun_reachable hk)
  have haway : k.current ≠ some 2 := by rw [hcur]; decide
  refine ⟨k, hk, horder, ?_, hyield 2 0 hcur hact (by decide) hready⟩
  exact hturns 2 3 0 _ _ k₁ k' _ _ horder haway (run_path hk₁) hthen.1 hk' hpost (by simp) hpri

/-! ## Preemption -/

theorem Move.wasReady (ha : m.Allowed q) (hact : ((m.effect q).tcbs u).active) (hno : .enqueue u ∉ m.events q) :
    (q.tcbs u).active ∧ ((m.effect q).tcbs u).itskpri = (q.tcbs u).itskpri := by
  have hcreate : ∀ w pk frame, m ≠ .create w pk frame ∨ u ≠ w := by
    intro w pk frame
    by_cases hu : u = w
    · left
      rintro rfl
      subst hu
      simp [effect, TCB.active] at hact
    · exact .inr hu
  refine ⟨?_, ?_⟩
  · cases m with
    | wake w call cause =>
      have hne : u ≠ w := by
        rintro rfl
        exact hno (by simp [events])
      simpa [effect, wakeEffect, hne] using hact
    | give w call d =>
      have hne : u ≠ w := by
        rintro rfl
        exact hno (by simp [events])
      simpa [effect, wakeEffect, setInfo, Tasks.setTcb, Tasks.note, hne] using hact
    | start w frame =>
      have hne : u ≠ w := by
        rintro rfl
        exact hno (by simp [events])
      simpa [effect, hne] using hact
    | create w pk frame =>
      have hne : u ≠ w := (hcreate w pk frame).resolve_left fun h => h rfl
      simpa [effect, hne] using hact
    | block w | exit w | exitDelete w =>
      by_cases hu : u = w
      · subst hu
        exact ha.1
      · simpa [effect, hu] using hact
    | finish w call =>
      by_cases hu : u = w
      · subst hu
        exact ha.1
      · simpa [effect, hu] using hact
    | dispatch old new sp =>
      by_cases hnew : u = new
      · subst hnew
        exact ha
      · by_cases hold : u = old
        · subst hold
          simp only [effect, Tasks.note, Tasks.setTcb, Function.update_of_ne hnew, Function.update_self,
            TCB.active] at hact
          split at hact
          · rename_i hrun
            exact .inr hrun
          · exact hact
        · simpa [effect, Tasks.note, Tasks.setTcb, hnew, hold] using hact
    | launch w | queueWakeup w | useWakeup w =>
      by_cases hu : u = w
      · subst hu
        first
          | exact ha
          | exact ha.2
          | simpa [effect, Tasks.setTcb, TCB.active] using hact
      · simpa [effect, Tasks.setTcb, hu] using hact
    | tick n =>
      simp only [effect] at hact
      split at hact <;> exact hact
    | _ => exact hact
  · by_cases hm : ∃ w pk frame, m = .create w pk frame
    · obtain ⟨w, pk, frame, rfl⟩ := hm
      have hne : u ≠ w := (hcreate w pk frame).resolve_left fun h => h rfl
      simp [effect, hne]
    · push Not at hm
      exact Move.itskpri hm u

theorem Does.wasReady {P : Move → Prop} (hd : Does P q q') (hpost : q'.log = q.log ++ post) (hact : (q'.tcbs u).active)
    (hno : .enqueue u ∉ post) : (q.tcbs u).active ∧ (q'.tcbs u).itskpri = (q.tcbs u).itskpri := by
  have hkeep := hd.keeps (I := fun q' => ∃ post, q'.log = q.log ++ post ∧ ((q'.tcbs u).active → .enqueue u ∉ post →
    (q.tcbs u).active ∧ (q'.tcbs u).itskpri = (q.tcbs u).itskpri)) ?_ ⟨[], by simp, fun hact _ => ⟨hact, rfl⟩⟩
  · obtain ⟨post', hlog, hready⟩ := hkeep
    obtain rfl : post' = post := List.append_cancel_left (hlog.symm.trans hpost)
    exact hready hact hno
  · rintro m q' - ha ⟨post, hlog, hready⟩
    refine ⟨post ++ m.events q', by rw [Move.log_effect, hlog, List.append_assoc], ?_⟩
    intro hact hno
    rw [List.mem_append, not_or] at hno
    obtain ⟨hact', hpri⟩ := Move.wasReady ha hact hno.2
    obtain ⟨hact'', hpri'⟩ := hready hact' hno.1
    exact ⟨hact'', hpri.trans hpri'⟩

theorem path_wasReady {as : List Act} (hrun : Paths.Path (Steps e) k as k') (h : Inv k) (hpost : k'.log = k.log ++ post)
    (hact : (k'.tcbs u).active) (hno : .enqueue u ∉ post) :
    (k.tcbs u).active ∧ (k'.tcbs u).itskpri = (k.tcbs u).itskpri := by
  induction hrun generalizing post with
  | nil => exact ⟨hact, rfl⟩
  | @cons k k₁ k' a as hstep hrun ih =>
    have hok := step_ok h hstep
    obtain ⟨first, hfirst⟩ := hok.does.log
    obtain ⟨-, rest, hrest⟩ := hok.inv.path hrun
    obtain rfl : first ++ rest = post := by
      rw [hrest, hfirst, List.append_assoc] at hpost
      exact List.append_cancel_left hpost
    rw [List.mem_append, not_or] at hno
    obtain ⟨hact₁, hpri⟩ := ih hok.inv hrest hact hno.2
    obtain ⟨hact₀, hpri'⟩ := hok.does.wasReady hfirst hact₁ hno.1
    exact ⟨hact₀, hpri.trans hpri'⟩

/-- **A preempted task keeps its place.** From when it runs until it waits, ends or gives way, only tasks of a higher
priority run in its place. -/
theorem preempted_keeps_place (h : Reachable b k) (hcur : k.current = some t) (hmsip : k.msip = false) {as : List Act}
    (hrun : Paths.Path (Steps b.entries) k as k') (hpost : k'.log = k.log ++ post) (hact : (k'.tcbs t).active)
    (hno : .enqueue t ∉ post) (hmsip' : k'.msip = false) :
    k'.current = some t ∨ ∃ w, k'.current = some w ∧ (k'.tcbs w).itskpri < (k'.tcbs t).itskpri := by
  have hinv := h.inv
  have hinv' := (hinv.path hrun).1
  obtain ⟨w, hw⟩ := hinv'.sched.current
  by_cases hwt : w = t
  · left
    rw [hw, hwt]
  right
  refine ⟨w, hw, ?_⟩
  have hactw : (k'.tcbs w).active := .inr ((hinv'.sched.settled hmsip').2 w hw)
  obtain ⟨-, habove⟩ := hinv'.first hw hmsip'
  have hmem := ((hinv'.core.tasks.task t).ready _).mpr ⟨hact, rfl⟩
  have hlevel : (k'.tcbs w).level ≤ (k'.tcbs t).level := by
    by_contra hlt
    rw [habove _ (by omega)] at hmem
    cases hmem
  have hpriw := (hinv'.core.tasks.task w).priority hactw.stat_ne_noexs
  have hprit := (hinv'.core.tasks.task t).priority hact.stat_ne_noexs
  -- on the same queue `w` would have been enqueued before `t`, and so be in front of it all along
  have hne : (k'.tcbs w).level ≠ (k'.tcbs t).level := by
    intro hsame
    have hbefore := hinv'.first_stamp hw hmsip' hact hsame.symm (Ne.symm hwt)
    have hkept : stamp k'.log t = stamp k.log t := by
      rw [hpost]
      exact stamp_append_of_not_mem hno
    have hold := stamp_le k.log t
    have hnow : .enqueue w ∉ post := by
      intro hmem
      have hlate : k.log.length < stamp (k.log ++ post) w := lt_stamp_append hmem
      rw [← hpost] at hlate
      omega
    have hkeptw : stamp k'.log w = stamp k.log w := by
      rw [hpost]
      exact stamp_append_of_not_mem hnow
    obtain ⟨-, hpri⟩ := path_wasReady hrun hinv hpost hact hno
    obtain ⟨hactw', hpriw'⟩ := path_wasReady hrun hinv hpost hactw hnow
    have hsame' : (k.tcbs w).level = (k.tcbs t).level := by
      simpa only [TCB.level, hpri, hpriw'] using hsame
    have hafter := hinv.first_stamp hcur hmsip hactw' hsame' hwt
    omega
  simp only [TCB.level] at hlevel hne
  omega

/-- Two tasks of one priority are ready and the first of them runs; a third task of a higher priority is dormant. -/
def preemptRun : List Act :=
  [.call (.cre_tsk (some { exinf := 0, tskatr := TA_USERBUF, task := 0x80004000, itskpri := 3, stksz := 512,
                           bufptr := 0x80020000 })) [],
    .call (.cre_tsk (some { exinf := 0, tskatr := TA_USERBUF, task := 0x80005000, itskpri := 3, stksz := 512,
                            bufptr := 0x80030000 })) [],
    .call (.cre_tsk (some { exinf := 0, tskatr := TA_USERBUF, task := 0x80006000, itskpri := 2, stksz := 512,
                            bufptr := 0x80040000 })) [],
    .call (.sta_tsk 3 0) [], .call (.sta_tsk 4 0) [], .call .ext_tsk [], .software_interrupt 0]

/-- A handler starts the third task, and it runs. -/
def preemptPost : List Event := [.enqueue 4, .ret (.sta_tsk 5 0) { ercd := .E_OK }, .dispatch 4]

theorem preempted_keeps_place_preemptRun : ∃ k k' : Kernel, sampleRun preemptRun = some k ∧ k.current = some 2 ∧
    k'.log = k.log ++ preemptPost ∧
    (k'.current = some 2 ∨ ∃ w, k'.current = some w ∧ (k'.tcbs w).itskpri < (k'.tcbs 2).itskpri) := by
  obtain ⟨k, hk, hcur, hmsip, hrun⟩ := sampleRun_of_any preemptRun (fun k => k.current = some 2 ∧ k.msip = false ∧
    (run sampleBoot.entries k [.external_enter, .call (.sta_tsk 5 0) [], .external_leave 0]).any
      (fun k' => decide (k'.log = k.log ++ preemptPost ∧ (k'.tcbs 2).active ∧ k'.msip = false)) = true)
    (by decide +kernel)
  obtain ⟨k', hk', hend⟩ := (Option.any_eq_true _ _).mp hrun
  obtain ⟨hpost, hact, hmsip'⟩ := of_decide_eq_true hend
  exact ⟨k, k', hk, hcur, hpost, preempted_keeps_place (sampleRun_reachable hk) hcur hmsip (run_path hk') hpost hact
    (by decide) hmsip'⟩

end TsukumoCore
