import TsukumoCore.System.Boot

/-! # The start of a task over a run -/

namespace TsukumoCore

variable {b : Boot} {e : Entries} {k k' : Kernel} {q q' : Tasks} {t : TskId}

/-- The task would begin at its entry: its stack pointer is at the frame `tk_sta_tsk` built for it. -/
structure AtEntry (e : Entries) (q : Tasks) (t : TskId) (stacd : Int) : Prop where
  sp : (q.tcbs t).sp = (q.tcbs t).initial_sp
  frame : q.stack t = initialFrame e.tk_ext_tsk (q.tcbs t).task (q.tcbs t).exinf stacd

/-! ## What the moves of other tasks leave alone -/

/-- The task whose code, or whose interruption, makes the move. -/
def Move.actor : Move → Option TskId
  | .block t .. | .exit t | .exitDelete t | .yield t | .finish t _ | .park t | .unpark t | .stackWrite t _ => some t
  | .dispatch old _ _ => some old
  | _ => none

/-- What the first dispatch of a task uses. -/
structure SameEntry (q q' : Tasks) (t : TskId) : Prop where
  active : (q'.tcbs t).active
  sp : (q'.tcbs t).sp = (q.tcbs t).sp
  initial_sp : (q'.tcbs t).initial_sp = (q.tcbs t).initial_sp
  task : (q'.tcbs t).task = (q.tcbs t).task
  exinf : (q'.tcbs t).exinf = (q.tcbs t).exinf
  stack : q'.stack t = q.stack t

theorem SameEntry.atEntry {stacd : Int} (h : SameEntry q q' t) (he : AtEntry e q t stacd) :
    AtEntry e q' t stacd := by
  refine ⟨?_, ?_⟩
  · rw [h.sp, h.initial_sp]; exact he.sp
  · rw [h.stack, h.task, h.exinf]; exact he.frame

theorem SameEntry.trans {q'' : Tasks} (h : SameEntry q q' t) (h' : SameEntry q' q'' t) : SameEntry q q'' t :=
  ⟨h'.active, h'.sp.trans h.sp, h'.initial_sp.trans h.initial_sp, h'.task.trans h.task,
    h'.exinf.trans h.exinf, h'.stack.trans h.stack⟩

theorem Move.sameEntry {m : Move} (h : Placed q) (ha : m.Allowed q) (hact : (q.tcbs t).active)
    (hm : m.actor ≠ some t) : SameEntry q (m.effect q) t := by
  have hother : ∀ u, t ≠ u → (m.effect q).tcbs t = q.tcbs t → (m.effect q).stack t = q.stack t →
      SameEntry q (m.effect q) t := by
    intro u hu htcb hstack
    exact ⟨htcb ▸ hact, by rw [htcb], by rw [htcb], by rw [htcb], by rw [htcb], hstack⟩
  cases m with
  | wake u w cause =>
    have hne : t ≠ u := by rintro rfl; exact hact.stat_ne_wai ha.1
    exact hother u hne (by simp [effect, wakeEffect, hne]) rfl
  | give u w d =>
    have hne : t ≠ u := by rintro rfl; exact hact.stat_ne_wai ha.1
    exact hother u hne (by simp [effect, wakeEffect, setInfo, Tasks.setTcb, Tasks.note, hne]) rfl
  | create u pk frame =>
    have hs : (q.tcbs u).tskstat = .NOEXS := (h.task u).free.mp (List.mem_of_mem_head? ha.1)
    have hne : t ≠ u := by rintro rfl; exact hact.stat_ne_noexs hs
    exact hother u hne (by simp [effect, hne]) rfl
  | start u frame =>
    have hne : t ≠ u := by rintro rfl; exact hact.stat_ne_dmt ha
    exact hother u hne (by simp [effect, hne]) (by simp [effect, hne])
  | block u w queue timed | exit u | exitDelete u | finish u w =>
    have hne : t ≠ u := fun heq => hm (by simp [actor, heq])
    exact hother u hne (by simp [effect, hne]) rfl
  | stackWrite u frame =>
    have hne : t ≠ u := fun heq => hm (by simp [actor, heq])
    exact hother u hne rfl (by simp [effect, hne])
  | dispatch old new sp =>
    have hne : t ≠ old := fun heq => hm (by simp [actor, heq])
    by_cases hn : t = new
    · subst hn
      constructor <;> simp [effect, Tasks.setTcb, Tasks.note, hne, TCB.active]
    · exact hother old hne (by simp [effect, Tasks.setTcb, Tasks.note, hne, hn]) rfl
  | launch u | queueWakeup u | useWakeup u =>
    by_cases hu : t = u
    · subst hu
      constructor <;> simp_all [effect, Tasks.setTcb, TCB.active]
    · exact hother u hu (by simp [effect, Tasks.setTcb, hu]) rfl
  | tick n =>
    have hnot : t ∉ q.timer_queue := h.not_mem_timer hact.stat_ne_wai
    constructor <;> simp [effect, hnot, hact]
  | yield | park | unpark | note | overflow => exact ⟨hact, rfl, rfl, rfl, rfl, rfl⟩

theorem Does.sameEntry {P : Move → Prop} (h : Ok q) (hd : Does P q q') (hact : (q.tcbs t).active)
    (hP : ∀ m, P m → m.actor ≠ some t) : SameEntry q q' t := by
  have hkeep := hd.keeps (I := fun q' => Ok q' ∧ SameEntry q q' t) ?_ ⟨h, hact, rfl, rfl, rfl, rfl, rfl⟩
  · exact hkeep.2
  · rintro m q' hm ha ⟨hok, hsame⟩
    exact ⟨Move.ok hok ha, hsame.trans (Move.sameEntry hok.toPlaced ha hsame.active (hP m hm))⟩

theorem stepMoves_actor {a : Act} {m : Move} (hm : stepMoves e k k' a m) (ht : m.actor = some t) :
    k.current = some t := by
  cases m with
  | block u | exit u | exitDelete u | yield u | finish u | park u | unpark u | stackWrite u | dispatch u =>
    obtain rfl : u = t := Option.some.inj ht
    cases a <;> first
      | exact hm
      | exact hm.1
      | exact absurd hm id
  | _ => exact absurd ht (by simp [Move.actor])

/-! ## From the start to the first dispatch -/

/-- The task is ready and not the current one, and would begin at its entry. -/
structure Fresh (e : Entries) (k : Kernel) (t : TskId) (stacd : Int) : Prop where
  active : (k.tcbs t).active
  away : k.current ≠ some t
  entry : AtEntry e k.toTasks t stacd

theorem Fresh.keeps {stacd : Int} (hf : Fresh e k t stacd) (h : Inv k) {a : Act} (hk : step e k a = some k') :
    (k'.tcbs t).active ∧ AtEntry e k'.toTasks t stacd := by
  have hsame := Does.sameEntry h.core.tasks (step_ok h hk).does hf.active
    fun m hm hact => hf.away (stepMoves_actor hm hact)
  exact ⟨hsame.active, hsame.atEntry hf.entry⟩

theorem Fresh.stays {stacd : Int} (hf : Fresh e k t stacd) (h : Inv k) {a : Act} (hk : step e k a = some k')
    {post : List Event} (hlog : k'.log = k.log ++ post) (hnot : .dispatch t ∉ post) : Fresh e k' t stacd := by
  obtain ⟨hact, hentry⟩ := hf.keeps h hk
  refine ⟨hact, ?_, hentry⟩
  rcases (step_ok h hk).current with hcur | ⟨u, post', hcur, hlog', hmem⟩
  · rw [hcur]
    exact hf.away
  · intro ht
    obtain rfl : u = t := Option.some.inj (hcur.symm.trans ht)
    rw [List.append_cancel_left (hlog.symm.trans hlog')] at hnot
    exact hnot hmem

theorem Fresh.path {stacd : Int} {as : List Act} (hrun : Paths.Path (Steps e) k as k')
    (hf : Fresh e k t stacd) (h : Inv k) {post : List Event} (hlog : k'.log = k.log ++ post)
    (hnot : .dispatch t ∉ post) : Fresh e k' t stacd := by
  induction hrun generalizing post with
  | nil => exact hf
  | @cons k k1 k' a as hstep hrun ih =>
    have hok := step_ok h hstep
    obtain ⟨first, hfirst⟩ := hok.does.log
    obtain ⟨-, rest, hrest⟩ := hok.inv.path hrun
    have hcut : post = first ++ rest := by
      rw [hrest, hfirst, List.append_assoc] at hlog
      exact (List.append_cancel_left hlog).symm
    rw [hcut, List.mem_append, not_or] at hnot
    exact ih (hf.stays h hstep hfirst hnot.1) hok.inv hrest hnot.2

/-- The state `tk_sta_tsk` leaves, if it succeeds on a task that is not the current one. -/
theorem fresh_of_start (h : Inv k) {tskid stacd : Int} {times : List Nat}
    (hstep : step e k (.call (.sta_tsk tskid stacd) times) = some k') (hok : (tk_sta_tsk e k tskid stacd).1 = .E_OK)
    (ht : tableEntry CFN_MAX_TSKID tskid = some t) (hother : k.current ≠ some t) : Fresh e k' t stacd := by
  simp only [step, exec, Option.ite_none_right_eq_some, Option.map_some, Option.some.injEq] at hstep
  obtain ⟨-, rfl⟩ := hstep
  have hs := tk_sta_tsk_dormant hok ht
  rw [tk_sta_tsk_eq h.core.tasks.toPlaced ht hs]
  generalize hk1 : (k.DI.tasks (Move.effect ·
    (.start t (initialFrame e.tk_ext_tsk (k.tcbs t).task (k.tcbs t).exinf stacd)))) = k1
  have hm : k1.toMachine = k.DI.toMachine := by rw [← hk1]; rfl
  have hne : k1.current ≠ none := by
    have := congrArg Machine.current hm
    rw [this]
    exact h.toGood.current_ne
  have htasks : ((request_switch k1).EI k.mie).toTasks = k1.toTasks := by simp
  have hcur : ((request_switch k1).EI k.mie).current = k.current := by
    have := congrArg Machine.current (request_EI hm)
    exact this
  rw [dispatch_if_needed_eq hne]
  refine ⟨?_, ?_, ⟨?_, ?_⟩⟩
  · simp only [leave_call, Kernel.tasks, Tasks.note, htasks]
    rw [← hk1]
    simp [Kernel.tasks, Move.effect, TCB.active]
  · exact hcur ▸ hother
  · simp only [leave_call, Kernel.tasks, Tasks.note, htasks]
    rw [← hk1]
    simp [Kernel.tasks, Move.effect]
  · simp only [leave_call, Kernel.tasks, Tasks.note, htasks]
    rw [← hk1]
    simp [Kernel.tasks, Move.effect]

/-- **A started task begins at its entry**, if it was not the current one when it was started: its stack
pointer and its frame are as `tk_sta_tsk` left them until and at its first dispatch. -/
theorem begins_at_entry (h : Reachable b k) {tskid stacd : Int} {times : List Nat}
    (hstart : Steps b.entries k (.call (.sta_tsk tskid stacd) times) k')
    (hok : (tk_sta_tsk b.entries k tskid stacd).1 = .E_OK) (ht : tableEntry CFN_MAX_TSKID tskid = some t)
    (hother : k.current ≠ some t) {as : List Act} {now : Kernel}
    (hrun : Paths.Path (Steps b.entries) k' as now) {post : List Event} (hlog : now.log = k'.log ++ post)
    (hnot : .dispatch t ∉ post) :
    AtEntry b.entries now.toTasks t stacd ∧
      ∀ a after, Steps b.entries now a after → AtEntry b.entries after.toTasks t stacd := by
  have hinv : Inv k' := (step_ok h.inv hstart).inv
  have hfresh := (fresh_of_start h.inv hstart hok ht hother).path hrun hinv hlog hnot
  refine ⟨hfresh.entry, fun a after hstep => ?_⟩
  exact (hfresh.keeps (hinv.path hrun).1 hstep).2

/-- A task of priority 5, created by the initial task. -/
def createRun : List Act :=
  [.call (.cre_tsk (some { exinf := 9, tskatr := TA_USERBUF, task := 0x80004000, itskpri := 5, stksz := 512,
                           bufptr := 0x80020000 })) []]

/-- It is started, the initial task goes to sleep, and the switch dispatches it. -/
theorem begins_at_entry_createRun : ∃ k now after, sampleRun createRun = some k ∧
    run sampleBoot.entries k [.call (.sta_tsk 3 7) [], .call (.wait (.slp TMO_FEVR)) []] = some now ∧
    Steps sampleBoot.entries now (.software_interrupt 0x80010100) after ∧ after.current = some 2 ∧
    AtEntry sampleBoot.entries after.toTasks 2 7 := by
  obtain ⟨k, hk, hok, hother, hsteps⟩ := sampleRun_of_any createRun (fun k =>
    (tk_sta_tsk sampleBoot.entries k 3 7).1 = .E_OK ∧ k.current ≠ some 2 ∧
    (step sampleBoot.entries k (.call (.sta_tsk 3 7) [])).any (fun k' =>
      (step sampleBoot.entries k' (.call (.wait (.slp TMO_FEVR)) [])).any fun now =>
        decide (now.log = k'.log ++ [Event.block 0 (WaitCall.slp TMO_FEVR)]) &&
          (step sampleBoot.entries now (.software_interrupt 0x80010100)).any fun after =>
            decide (after.current = some 2)) = true) (by decide +kernel)
  obtain ⟨k', hk', hrest⟩ := (Option.any_eq_true _ _).mp hsteps
  obtain ⟨now, hnow, hfacts⟩ := (Option.any_eq_true _ _).mp hrest
  obtain ⟨hlog, hlast⟩ := (Bool.and_eq_true _ _ ▸ hfacts)
  obtain ⟨after, hafter, hcur⟩ := (Option.any_eq_true _ _).mp hlast
  refine ⟨k, now, after, hk, ?_, hafter, of_decide_eq_true hcur, ?_⟩
  · simp [run, hk', hnow]
  · exact (begins_at_entry (sampleRun_reachable hk) hk' hok (by decide) hother (.single hnow)
      (of_decide_eq_true hlog) (by decide)).2 _ _ hafter

/-! ## A task started while it is the current one -/

/-- The initial task exits, and an external interrupt is taken before the switch. -/
def exitRun : List Act := [.call .ext_tsk [], .external_enter]

/-- Its handler starts the task again, and the switch at the end of the trap saves the interrupted stack
pointer in the new task. -/
theorem begins_elsewhere : ∃ k k' now, sampleRun exitRun = some k ∧
    Steps sampleBoot.entries k (.call (.sta_tsk 1 5) []) k' ∧ (tk_sta_tsk sampleBoot.entries k 1 5).1 = .E_OK ∧
    Steps sampleBoot.entries k' (.external_leave 0x80010100) now ∧ now.current = some 0 ∧
    ¬ AtEntry sampleBoot.entries now.toTasks 0 5 := by
  obtain ⟨k, hk, hok, hsteps⟩ := sampleRun_of_any exitRun (fun k =>
    (tk_sta_tsk sampleBoot.entries k 1 5).1 = .E_OK ∧
    (step sampleBoot.entries k (.call (.sta_tsk 1 5) [])).any (fun k' =>
      (step sampleBoot.entries k' (.external_leave 0x80010100)).any fun now =>
        decide (now.current = some 0 ∧ (now.tcbs 0).sp ≠ (now.tcbs 0).initial_sp)) = true) (by decide +kernel)
  obtain ⟨k', hk', hrest⟩ := (Option.any_eq_true _ _).mp hsteps
  obtain ⟨now, hnow, hfacts⟩ := (Option.any_eq_true _ _).mp hrest
  obtain ⟨hcur, hsp⟩ := of_decide_eq_true hfacts
  exact ⟨k, k', now, hk, hk', hok, hnow, hcur, fun hentry => hsp hentry.sp⟩

end TsukumoCore
