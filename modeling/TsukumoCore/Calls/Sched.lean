import TsukumoCore.Objects.Serve

/-!
# Which task runs

`SchedOk` relates `current`, `next` and the MSIP word to the ready queues. It holds where a call, a run of
the timer handler or a switch has ended.
-/

namespace TsukumoCore

variable {q q' : Tasks} {c : Machine} {t : TskId} {k : Kernel}

/-! ## The highest-priority task -/

theorem highest_congr (h : q'.ready_queue = q.ready_queue) :
    tkmc_get_highest_priority_task q' = tkmc_get_highest_priority_task q := by
  simp only [tkmc_get_highest_priority_task, h]

theorem findSome_range {α : Type} {f : Nat → Option α} {n : Nat} {b : α} :
    (List.range n).findSome? f = some b ↔ ∃ i < n, f i = some b ∧ ∀ j < i, f j = none := by
  induction n with
  | zero => simp
  | succ n ih =>
    rw [List.range_succ, List.findSome?_append, Option.or_eq_some_iff, ih]
    simp only [List.findSome?_eq_none_iff, List.mem_range, List.findSome?_singleton]
    constructor
    · rintro (⟨i, hi, hf, hbelow⟩ | ⟨hbelow, hf⟩)
      · exact ⟨i, by omega, hf, hbelow⟩
      · exact ⟨n, by omega, hf, hbelow⟩
    · rintro ⟨i, hi, hf, hbelow⟩
      by_cases hin : i < n
      · exact .inl ⟨i, hin, hf, hbelow⟩
      · have : i = n := by omega
        subst this
        exact .inr ⟨hbelow, hf⟩

theorem highest_iff : tkmc_get_highest_priority_task q = some t ↔
    ∃ i < CFN_MAX_PRI, (q.ready_queue i).head? = some t ∧ ∀ j < i, q.ready_queue j = [] := by
  simp only [tkmc_get_highest_priority_task, findSome_range, List.head?_eq_none_iff]

theorem highest_of_active (h : Placed q) (hact : (q.tcbs t).active) :
    ∃ u, tkmc_get_highest_priority_task q = some u := by
  have hmem := ((h.task t).ready _).mpr ⟨hact, rfl⟩
  have hlevel : (q.tcbs t).level < CFN_MAX_PRI := by
    have := (h.task t).priority hact.stat_ne_noexs
    simp only [TCB.level, CFN_MAX_PRI] at *
    omega
  rw [← Option.isSome_iff_exists, tkmc_get_highest_priority_task, List.findSome?_isSome_iff]
  refine ⟨_, List.mem_range.mpr hlevel, ?_⟩
  simp [List.ne_nil_of_mem hmem]

/-! ## Ready queues that grow -/

/-- Each ready queue grows at its end. -/
def Grows (q q' : Tasks) : Prop := ∀ i, q.ready_queue i <+: q'.ready_queue i

theorem Grows.refl (q : Tasks) : Grows q q := fun _ => List.prefix_rfl

theorem Grows.trans {q'' : Tasks} (h : Grows q q') (h' : Grows q' q'') : Grows q q'' := fun i => (h i).trans (h' i)

theorem wake_grows (q : Tasks) (t : TskId) (cause : ER) : Grows q (Move.wakeEffect q t cause) := by
  intro i
  by_cases hi : i = (q.tcbs t).level
  · subst hi
    simp [Move.wakeEffect]
  · simp [Move.wakeEffect, hi]

theorem Grows.head (h : Grows q q') {i : Nat} (ht : (q.ready_queue i).head? = some t) :
    (q'.ready_queue i).head? = some t := by
  obtain ⟨tail, htail⟩ := h i
  rw [← htail, List.head?_append, ht]
  rfl

/-- A task that is the highest one before and in the end is so in between. -/
theorem highest_between {q'' : Tasks} (hplaced : Placed q'') (h : Grows q q') (h' : Grows q' q'')
    (ht : tkmc_get_highest_priority_task q = some t) (ht'' : tkmc_get_highest_priority_task q'' = some t) :
    tkmc_get_highest_priority_task q' = some t := by
  obtain ⟨i, hi, hhead, -⟩ := highest_iff.mp ht
  obtain ⟨i', -, hhead', habove⟩ := highest_iff.mp ht''
  have hhead₁ : (q'.ready_queue i).head? = some t := h.head hhead
  have hhead₂ : (q''.ready_queue i).head? = some t := h'.head hhead₁
  -- a task is on one ready queue
  have hsame : i' = i := by
    have hlevel' := (((hplaced.task t).ready i').mp (List.mem_of_head? hhead')).2
    have hlevel := (((hplaced.task t).ready i).mp (List.mem_of_head? hhead₂)).2
    rw [hlevel', hlevel]
  subst hsame
  refine highest_iff.mpr ⟨i', hi, hhead₁, fun j hj => ?_⟩
  have hempty := habove j hj
  have hprefix := h' j
  rw [hempty] at hprefix
  exact List.prefix_nil.mp hprefix

/-! ## The invariant -/

/-- The idle task is on the lowest ready queue, and some task runs, has run, or is about to. -/
structure SchedOk (q : Tasks) (c : Machine) : Prop where
  idle : (q.tcbs idl_tsk).active ∧ (q.tcbs idl_tsk).itskpri = CFN_MAX_PRI
  current : ∃ t, c.current = some t
  running : ∀ t, (q.tcbs t).tskstat = .RUN → c.current = some t
  settled : c.msip = false →
    c.current = tkmc_get_highest_priority_task q ∧ ∀ t, c.current = some t → (q.tcbs t).tskstat = .RUN
  requested : c.msip = true → c.next = tkmc_get_highest_priority_task q
  masked : c.isr_depth = 0 → c.mie = false → ∀ t, c.current = some t → (q.tcbs t).tskstat = .RUN

theorem SchedOk.runs (h : SchedOk k.toTasks k.toMachine) (hruns : taskRuns k = true)
    (ht : k.current = some t) : (k.tcbs t).tskstat = .RUN := by
  simp only [taskRuns, Bool.and_eq_true, decide_eq_true_eq, Bool.not_eq_true',
    Bool.and_eq_false_iff] at hruns
  rcases hruns.2 with hmie | hmsip
  · exact h.masked hruns.1 hmie t ht
  · exact (h.settled hmsip).2 t ht

/-- The same tasks run, and idle stays where it is. -/
structure SameRun (q q' : Tasks) : Prop where
  run : ∀ t, (q'.tcbs t).tskstat = .RUN ↔ (q.tcbs t).tskstat = .RUN
  idle : (q.tcbs idl_tsk).active ∧ (q.tcbs idl_tsk).itskpri = CFN_MAX_PRI →
    (q'.tcbs idl_tsk).active ∧ (q'.tcbs idl_tsk).itskpri = CFN_MAX_PRI

theorem SameRun.refl (q : Tasks) : SameRun q q := ⟨fun _ => Iff.rfl, id⟩

theorem SameRun.trans {q'' : Tasks} (h : SameRun q q') (h' : SameRun q' q'') : SameRun q q'' :=
  ⟨fun t => (h'.run t).trans (h.run t), fun hi => h'.idle (h.idle hi)⟩

theorem SchedOk.quiet (h : SchedOk q c) (hr : SameRun q q') (hready : q'.ready_queue = q.ready_queue) :
    SchedOk q' c := by
  refine ⟨hr.idle h.idle, h.current, fun t ht => h.running t ((hr.run t).mp ht), ?_, ?_, ?_⟩
  · intro hm
    rw [highest_congr hready]
    exact ⟨(h.settled hm).1, fun t ht => (hr.run t).mpr ((h.settled hm).2 t ht)⟩
  · intro hm
    rw [highest_congr hready]
    exact h.requested hm
  · intro hd hmie t ht
    exact (hr.run t).mpr (h.masked hd hmie t ht)

/-! ## The requests -/

/-- `next` is looked up, and a switch requested if it is not the current task. -/
def Machine.request (c : Machine) (q : Tasks) : Machine :=
  let next := tkmc_get_highest_priority_task q
  { c with next := next, msip := c.msip || decide (next ≠ c.current) }

/-- `next` is looked up, and a switch requested. -/
def Machine.away (c : Machine) (q : Tasks) : Machine :=
  { c with next := tkmc_get_highest_priority_task q, msip := true }

/-- Of two requests, with the ready queues grown between, the last one counts. -/
theorem request_again {q'' : Tasks} (hplaced : Placed q'') (h : Grows q q') (h' : Grows q' q'')
    (hcur : c.msip = false → c.current = tkmc_get_highest_priority_task q) (hsome : ∃ t, c.current = some t) :
    (c.request q').request q'' = c.request q'' := by
  have hmsip : (c.msip || decide (tkmc_get_highest_priority_task q' ≠ c.current) ||
      decide (tkmc_get_highest_priority_task q'' ≠ c.current)) =
      (c.msip || decide (tkmc_get_highest_priority_task q'' ≠ c.current)) := by
    cases hm : c.msip with
    | true => simp
    | false =>
      obtain ⟨t, ht⟩ := hsome
      have hhighest := hcur hm
      rw [ht] at hhighest ⊢
      by_cases heq : tkmc_get_highest_priority_task q'' = some t
      · have heq' := highest_between hplaced h h' hhighest.symm heq
        simp [heq, heq']
      · simp [heq]
  unfold Machine.request
  dsimp only
  rw [hmsip]

theorem SchedOk.request (h : SchedOk q c) (hr : SameRun q q') : SchedOk q' (c.request q') := by
  refine ⟨hr.idle h.idle, h.current, fun t ht => h.running t ((hr.run t).mp ht), ?_, fun _ => rfl, ?_⟩
  · intro hm
    simp only [Machine.request, Bool.or_eq_false_iff, decide_eq_false_iff_not, not_not] at hm
    exact ⟨hm.2.symm, fun t ht => (hr.run t).mpr ((h.settled hm.1).2 t ht)⟩
  · intro hd hmie t ht
    exact (hr.run t).mpr (h.masked hd hmie t ht)

theorem SchedOk.away (h : SchedOk q c) (hmie : c.mie = true)
    (hrun : ∀ t, (q'.tcbs t).tskstat = .RUN → (q.tcbs t).tskstat = .RUN)
    (hidle : (q'.tcbs idl_tsk).active ∧ (q'.tcbs idl_tsk).itskpri = CFN_MAX_PRI) :
    SchedOk q' (c.away q') := by
  refine ⟨hidle, h.current, fun t ht => h.running t (hrun t ht), ?_, fun _ => rfl, ?_⟩
  · intro hm; simp [Machine.away] at hm
  · intro _ hm; simp [Machine.away, hmie] at hm

/-! ## The switch -/

theorem SchedOk.dispatch (h : SchedOk q c) (hmsip : c.msip = true) {old new : TskId}
    (hnext : c.next = some new) (hold : c.current = some old) (sp : UINT) (mie : Bool) (isr_depth : Nat) :
    SchedOk ((Move.dispatch old new sp).effect q)
      { c with current := some new, msip := false, mie := mie, isr_depth := isr_depth } := by
  have hnew : tkmc_get_highest_priority_task q = some new := by rw [← h.requested hmsip, hnext]
  have hrun : (((Move.dispatch old new sp).effect q).tcbs new).tskstat = .RUN := by
    simp [Move.effect, Tasks.setTcb, Tasks.note]
  have hother : ∀ t, t ≠ new → (((Move.dispatch old new sp).effect q).tcbs t).tskstat =
      if t = old ∧ (q.tcbs t).tskstat = .RUN then .RDY else (q.tcbs t).tskstat := by
    intro t ht
    by_cases hto : t = old
    · subst hto; simp [Move.effect, Tasks.setTcb, Tasks.note, ht]
    · simp [Move.effect, Tasks.setTcb, Tasks.note, ht, hto]
  have hpri : ∀ t, (((Move.dispatch old new sp).effect q).tcbs t).itskpri = (q.tcbs t).itskpri := by
    intro t
    by_cases ht : t = new <;> by_cases hto : t = old <;>
      simp [Move.effect, Tasks.setTcb, Tasks.note, Function.update, ht, hto] <;> split <;> simp_all
  refine ⟨⟨?_, by rw [hpri]; exact h.idle.2⟩, ⟨new, rfl⟩, ?_, ?_, by simp, ?_⟩
  · by_cases hi : idl_tsk = new
    · rw [hi]; exact .inr hrun
    · have := h.idle.1
      simp only [TCB.active, hother _ hi] at this ⊢
      split <;> simp_all
  · intro t ht
    by_cases htn : t = new
    · rw [htn]
    · rw [hother t htn] at ht
      split at ht
      · simp at ht
      · rename_i hnot
        have hcur := h.running t ht
        rw [hold] at hcur
        exact absurd ⟨(Option.some.inj hcur).symm, ht⟩ hnot
  · intro _
    refine ⟨?_, ?_⟩
    · have hsame : tkmc_get_highest_priority_task ((Move.dispatch old new sp).effect q) =
          tkmc_get_highest_priority_task q := highest_congr rfl
      exact (hsame.trans hnew).symm
    · intro t ht
      simp only [Option.some.injEq] at ht
      rw [← ht]; exact hrun
  · intro hd hm t ht
    simp only [Option.some.injEq] at ht
    rw [← ht]; exact hrun

/-! ## Moves -/

/-- The moves that change which task is in the running state. -/
def Move.switches : Move → Bool
  | block .. | exit _ | exitDelete _ | dispatch .. | launch _ => true
  | _ => false

theorem Move.sameRun {m : Move} (h : Placed q) (ha : m.Allowed q) (hm : m.switches = false) :
    SameRun q (m.effect q) := by
  cases m with
  | block | exit | exitDelete | dispatch | launch => simp [switches] at hm
  | yield | park | unpark | stackWrite | note | overflow => exact ⟨fun _ => Iff.rfl, id⟩
  | tick n =>
    refine ⟨fun t => ?_, ?_⟩
    · simp only [effect]; split <;> rfl
    · simp only [effect, TCB.active]; split <;> exact id
  | finish t w =>
    have hafter : ∀ c : TCB, (w.after c).tskstat = c.tskstat ∧ (w.after c).itskpri = c.itskpri := by
      intro c; cases w <;> exact ⟨rfl, rfl⟩
    refine ⟨fun u => ?_, ?_⟩
    · by_cases hu : u = t
      · subst hu; simp [effect, hafter]
      · simp [effect, hu]
    · by_cases hu : idl_tsk = t
      · subst hu; simp [effect, hafter, TCB.active]
      · simp [effect, hu]
  | queueWakeup t | useWakeup t =>
    refine ⟨fun u => ?_, ?_⟩
    · by_cases hu : u = t
      · subst hu; simp [effect, Tasks.setTcb]
      · simp [effect, Tasks.setTcb, hu]
    · by_cases hu : idl_tsk = t
      · subst hu; simp [effect, Tasks.setTcb, TCB.active]
      · simp [effect, Tasks.setTcb, hu]
  | wake t w cause =>
    have hs : (q.tcbs t).tskstat = .WAI := ha.1
    refine ⟨fun u => ?_, fun hi => ?_⟩
    · by_cases hu : u = t
      · subst hu; simp [effect, wakeEffect, hs]
      · simp [effect, wakeEffect, hu]
    · have hu : idl_tsk ≠ t := fun hu => hi.1.stat_ne_wai (hu ▸ hs)
      simpa [effect, wakeEffect, hu] using hi
  | give t w d =>
    have hs : (q.tcbs t).tskstat = .WAI := ha.1
    refine ⟨fun u => ?_, fun hi => ?_⟩
    · by_cases hu : u = t
      · subst hu; simp [effect, wakeEffect, setInfo, Tasks.setTcb, Tasks.note, hs]
      · simp [effect, wakeEffect, setInfo, Tasks.setTcb, Tasks.note, hu]
    · have hu : idl_tsk ≠ t := fun hu => hi.1.stat_ne_wai (hu ▸ hs)
      simpa [effect, wakeEffect, setInfo, Tasks.setTcb, Tasks.note, hu] using hi
  | create t pk frame =>
    have hs : (q.tcbs t).tskstat = .NOEXS := (h.task t).free.mp (List.mem_of_mem_head? ha.1)
    refine ⟨fun u => ?_, fun hi => ?_⟩
    · by_cases hu : u = t
      · subst hu; simp [effect, hs]
      · simp [effect, hu]
    · have hu : idl_tsk ≠ t := fun hu => hi.1.stat_ne_noexs (hu ▸ hs)
      simpa [effect, hu] using hi
  | start t frame =>
    have hs : (q.tcbs t).tskstat = .DMT := ha
    refine ⟨fun u => ?_, fun hi => ?_⟩
    · by_cases hu : u = t
      · subst hu; simp [effect, hs]
      · simp [effect, hu]
    · have hu : idl_tsk ≠ t := fun hu => hi.1.stat_ne_dmt (hu ▸ hs)
      simpa [effect, hu] using hi

theorem Does.sameRun {P : Move → Prop} (h : Ok q) (hd : Does P q q')
    (hP : ∀ m, P m → m.switches = false) : SameRun q q' := by
  have hkeep := hd.keeps (I := fun q' => Ok q' ∧ SameRun q q') ?_ ⟨h, .refl q⟩
  · exact hkeep.2
  · rintro m q' hm ha ⟨hok, hr⟩
    exact ⟨Move.ok hok ha, hr.trans (Move.sameRun hok.toPlaced ha (hP m hm))⟩

end TsukumoCore
