import TsukumoCore.Kernel.Idle
import TsukumoCore.System.Equals
import TsukumoCore.Trap.Switches

/-!
# The idle task halts when there is nothing to do, and wakes

`wfi` is reached only with interrupts off and no other task ready. An interrupt that comes after the check
stays pending, ends `wfi`, and is taken after `csrs`.
-/

namespace TsukumoCore

open IdleSystem Ring

variable {b : Boot} {e : Entries} {k k' : Kernel} {t : TskId} {x x' : IdleSystem} {a : IdleAct}

/-- No task but the idle task is ready. -/
def Kernel.alone (k : Kernel) : Prop := ∀ t, (k.tcbs t).active → t = idl_tsk

/-! ## The check -/

theorem idle_first (h : Inv k) (hcur : k.current = some idl_tsk) (hmsip : k.msip = false) :
    (∃ rest, k.ready_queue (CFN_MAX_PRI - 1) = idl_tsk :: rest) ∧ ∀ j < CFN_MAX_PRI - 1, k.ready_queue j = [] := by
  have hlevel : (k.tcbs idl_tsk).level = CFN_MAX_PRI - 1 := by
    rw [TCB.level, h.sched.idle.2]
    rfl
  have hfirst := h.first hcur hmsip
  rwa [hlevel] at hfirst

theorem head_eq_last_iff {α : Type*} {a : α} {rest : List α} (h : (a :: rest).Nodup) :
    (a :: rest).head? = (a :: rest).getLast? ↔ rest = [] := by
  cases rest with
  | nil => simp
  | cons b rest =>
    have hlast : (b :: rest).getLast (by simp) ∈ b :: rest := List.getLast_mem _
    rw [List.head?_cons, List.getLast?_cons_cons, List.getLast?_eq_some_getLast (by simp), Option.some.injEq]
    refine ⟨fun heq => ?_, fun hnil => by cases hnil⟩
    rw [← heq] at hlast
    exact absurd hlast (List.nodup_cons.mp h).1

theorem ends_iff_alone (h : Inv k) (hcur : k.current = some idl_tsk) (hmsip : k.msip = false) :
    (k.ready_queue (CFN_MAX_PRI - 1)).head? = (k.ready_queue (CFN_MAX_PRI - 1)).getLast? ↔ k.alone := by
  obtain ⟨⟨rest, hq⟩, habove⟩ := idle_first h hcur hmsip
  have hnodup := h.core.tasks.ready_nodup (CFN_MAX_PRI - 1)
  rw [hq] at hnodup ⊢
  rw [head_eq_last_iff hnodup]
  constructor
  · rintro rfl u hu
    have hmem := ((h.core.tasks.task u).ready _).mpr ⟨hu, rfl⟩
    have hpri := (h.core.tasks.task u).priority hu.stat_ne_noexs
    by_cases hlow : (k.tcbs u).level < CFN_MAX_PRI - 1
    · rw [habove _ hlow] at hmem
      cases hmem
    · have hlevel : (k.tcbs u).level = CFN_MAX_PRI - 1 := by
        simp only [TCB.level, CFN_MAX_PRI] at hlow hpri ⊢
        omega
      rw [hlevel, hq] at hmem
      exact List.mem_singleton.mp hmem
  · intro halone
    rw [List.eq_nil_iff_forall_not_mem]
    intro u hu
    have hactive := ((h.core.tasks.task u).ready (CFN_MAX_PRI - 1)).mp (by rw [hq]; exact List.mem_cons_of_mem _ hu)
    rw [halone u hactive.1] at hu
    exact (List.nodup_cons.mp hnodup).1 hu

theorem can_halt_iff (h : Inv k) (hcur : k.current = some idl_tsk) (hmsip : k.msip = false) :
    tkmc_idle_can_halt k = true ↔ k.alone := by
  have hfirst := (h.sched.settled hmsip).1
  rw [← ends_iff_alone h hcur hmsip]
  simp [tkmc_idle_can_halt, ← hfirst]

/-- The comparison of the two pointers is the comparison of the ends. -/
theorem ends_meet_iff {h : Heap} {queue : UINT} {node : TskId → UINT} {l : List TskId} (hnode : Function.Injective node)
    (hr : IsRing h queue (l.map node)) : ends_meet h queue = true ↔ l.head? = l.getLast? := by
  unfold ends_meet
  rw [decide_eq_true_iff, hr.next_head_eq_prev_iff, List.head?_map, List.getLast?_map]
  exact (Option.map_injective hnode).eq_iff

theorem yield_gives_way (h : Inv k) (hcur : k.current = some idl_tsk) (hmsip : k.msip = false) (hother : ¬ k.alone) :
    ∃ t, t ≠ idl_tsk ∧ (k.tcbs t).active ∧ (tkmc_yield k).next = some t ∧ (tkmc_yield k).msip = true := by
  obtain ⟨⟨rest, hq⟩, habove⟩ := idle_first h hcur hmsip
  have hnodup := h.core.tasks.ready_nodup (CFN_MAX_PRI - 1)
  have hends := ends_iff_alone h hcur hmsip
  rw [hq] at hnodup
  rw [hq, head_eq_last_iff hnodup] at hends
  cases rest with
  | nil => exact absurd (hends.mp rfl) hother
  | cons t more =>
    have hne : t ≠ idl_tsk := by
      rintro rfl
      exact (List.nodup_cons.mp hnodup).1 List.mem_cons_self
    have hactive := ((h.core.tasks.task t).ready (CFN_MAX_PRI - 1)).mp (by rw [hq]; simp)
    obtain ⟨htasks, -, hmachine⟩ := tkmc_yield_eq h.core.tasks.toPlaced hcur h.sched.idle.1
    have hlevel : (k.tcbs idl_tsk).level = CFN_MAX_PRI - 1 := by
      rw [TCB.level, h.sched.idle.2]
      rfl
    have hfirst : tkmc_get_highest_priority_task (tkmc_yield k).toTasks = some t := by
      refine highest_iff.mpr ⟨CFN_MAX_PRI - 1, by decide, ?_, ?_⟩
      · rw [htasks]
        simp only [Move.effect, hlevel]
        rw [Function.update_self, hq, List.erase_cons_head]
        rfl
      · intro j hj
        rw [htasks]
        simp only [Move.effect, hlevel]
        rw [Function.update_of_ne (by omega)]
        exact habove j hj
    have hnext := congrArg Machine.next hmachine
    have hreq := congrArg Machine.msip hmachine
    simp only [Machine.request, hfirst] at hnext hreq
    refine ⟨t, hne, hactive.1, hnext, hreq.trans ?_⟩
    simp [hcur, hne]

/-! ## The loop -/

/-- Between `csrrci` and `csrs`. -/
def IdlePc.masked : IdlePc → Bool
  | .can_halt | .wfi | .csrs => true
  | .csrrci | .yield => false

/-- The idle task between its instructions. -/
structure IdleOk (b : Boot) (x : IdleSystem) : Prop where
  reachable : Reachable b x.kernel
  masked : x.pc.masked = true → idleRuns x.kernel ∧ x.kernel.mie = false ∧ x.kernel.msip = false ∧ x.s0 = true
  unmasked : x.pc.masked = false → idleRuns x.kernel → x.kernel.mie = true
  halts : x.pc = .wfi → x.kernel.alone

theorem settled_of_runs (hruns : taskRuns k = true) (hmie : k.mie = true) : k.isr_depth = 0 ∧ k.msip = false := by
  simpa [taskRuns, hmie] using hruns

theorem IdleOk.of_masked (hreach : Reachable b x.kernel) (hpc : x.pc.masked = true)
    (hmasked : idleRuns x.kernel ∧ x.kernel.mie = false ∧ x.kernel.msip = false ∧ x.s0 = true)
    (halts : x.pc = .wfi → x.kernel.alone) : IdleOk b x := by
  refine ⟨hreach, fun _ => hmasked, fun hpc' => ?_, halts⟩
  cases hpc.symm.trans hpc'

theorem IdleOk.of_unmasked (hreach : Reachable b x.kernel) (hpc : x.pc.masked = false)
    (hon : idleRuns x.kernel → x.kernel.mie = true) : IdleOk b x := by
  refine ⟨hreach, fun hpc' => ?_, fun _ => hon, fun hwfi => ?_⟩
  · cases hpc.symm.trans hpc'
  · rw [hwfi] at hpc
    cases hpc

theorem IdleOk.instruction (h : IdleOk b x) (hruns : taskRuns x.kernel = true)
    (hcur : x.kernel.current = some idl_tsk) : IdleOk b x.instruction := by
  have hdepth : x.kernel.isr_depth = 0 := by
    simp only [taskRuns, Bool.and_eq_true, decide_eq_true_eq] at hruns
    exact hruns.1
  have hidle : idleRuns x.kernel := ⟨hdepth, hcur⟩
  unfold IdleSystem.instruction
  split
  · rename_i hpc
    have hmie := h.unmasked (by rw [hpc]; rfl) hidle
    have hstep : Steps b.entries x.kernel .di x.kernel.DI := by simp [Steps, step, hruns]
    refine .of_masked (h.reachable.step hstep) rfl ⟨hidle, rfl, (settled_of_runs hruns hmie).2, hmie⟩ ?_
    intro hwfi
    cases hwfi
  · rename_i hpc
    have hmasked := h.masked (by rw [hpc]; rfl)
    split
    · rename_i hhalt
      exact .of_masked h.reachable rfl hmasked fun _ => (can_halt_iff h.reachable.inv hcur hmasked.2.2.1).mp hhalt
    · refine .of_masked h.reachable rfl hmasked ?_
      intro hwfi
      cases hwfi
  · rename_i hpc
    refine .of_masked h.reachable rfl (h.masked (by rw [hpc]; rfl)) ?_
    intro hwfi
    cases hwfi
  · rename_i hpc
    obtain ⟨-, -, -, hs0⟩ := h.masked (by rw [hpc]; rfl)
    have hstep : Steps b.entries x.kernel .ei (x.kernel.EI true) := by simp [Steps, step, hruns]
    rw [hs0]
    exact .of_unmasked (h.reachable.step hstep) rfl fun _ => by simp [Kernel.EI]
  · rename_i hpc
    have hmie := h.unmasked (by rw [hpc]; rfl) hidle
    have hstep : Steps b.entries x.kernel .yield (tkmc_yield x.kernel) := by simp [Steps, step, hruns, hmie, hcur]
    have hact : (x.kernel.tcbs idl_tsk).active := h.reachable.inv.sched.idle.1
    obtain ⟨-, -, hmachine⟩ := tkmc_yield_eq h.reachable.inv.core.tasks.toPlaced hcur hact
    exact .of_unmasked (h.reachable.step hstep) rfl fun _ => (congrArg Machine.mie hmachine).trans hmie

theorem step_masked {a : Act} (hidle : idleRuns k) (hmie : k.mie = false) (hallows : a.allowsIdle k = true)
    (hk : step e k a = some k') : a.takes = false ∧ ∃ frame, a = .stack_write frame := by
  cases a with
  | external_enter => simp [step, hmie] at hk
  | timer_interrupt => simp [step, canTrap, hmie] at hk
  | software_interrupt => simp [step, canTrap, hmie] at hk
  | stack_write frame => exact ⟨rfl, frame, rfl⟩
  | _ => exact absurd hidle (of_decide_eq_true hallows)

theorem step_unmasked {a : Act} (h : Inv k) (hallows : a.allowsIdle k = true) (hk : step e k a = some k')
    (hon : idleRuns k → k.mie = true) (hidle : idleRuns k') : k'.mie = true := by
  cases a with
  | call c times =>
    have hnot : ¬ idleRuns k := of_decide_eq_true hallows
    simp only [step, Option.ite_none_right_eq_some, Option.map_eq_some_iff] at hk
    obtain ⟨hcan, ⟨flow, k1⟩, hx, rfl⟩ := hk
    obtain ⟨next, msip, hmachine⟩ := (exec_outcome h.toGood hcan hx).machine
    have hdepth := (congrArg Machine.isr_depth hmachine).symm.trans hidle.1
    have hcur := (congrArg Machine.current hmachine).symm.trans hidle.2
    exact absurd ⟨hdepth, hcur⟩ hnot
  | resume =>
    have hnot : ¬ idleRuns k := of_decide_eq_true hallows
    have hcur := step_ofCode_current h rfl hk
    have hdepth : k.isr_depth = 0 := by
      by_contra hne
      obtain ⟨u, hu⟩ := h.sched.current
      simp [step, hu, taskRuns, hne] at hk
    exact absurd ⟨hdepth, hcur.symm.trans hidle.2⟩ hnot
  | yield =>
    have hnot : ¬ idleRuns k := of_decide_eq_true hallows
    simp only [step, taskRuns, Option.ite_none_right_eq_some, Bool.and_eq_true, decide_eq_true_eq] at hk
    exact absurd ⟨hk.1.1.1.1, hk.1.2⟩ hnot
  | di | ei =>
    have hnot : ¬ idleRuns k := of_decide_eq_true hallows
    simp only [step, Option.ite_none_right_eq_some, Option.some.injEq] at hk
    obtain ⟨-, rfl⟩ := hk
    exact absurd hidle hnot
  | set_msgpri =>
    have hnot : ¬ idleRuns k := of_decide_eq_true hallows
    rw [← Option.some.inj hk] at hidle
    exact absurd hidle hnot
  | stack_write frame =>
    simp only [step, Option.map_eq_some_iff] at hk
    obtain ⟨u, -, rfl⟩ := hk
    exact hon hidle
  | external_enter =>
    simp only [step, Option.ite_none_right_eq_some, Option.some.injEq] at hk
    obtain ⟨-, rfl⟩ := hk
    exact absurd hidle.1 (Nat.succ_ne_zero _)
  | external_leave sp =>
    simp only [step, Option.ite_none_left_eq_some, Option.some.injEq] at hk
    obtain ⟨-, rfl⟩ := hk
    rfl
  | timer_interrupt times sp =>
    simp only [step, Option.ite_none_right_eq_some, Option.map_eq_some_iff] at hk
    obtain ⟨-, k1, -, rfl⟩ := hk
    rfl
  | software_interrupt sp =>
    simp only [step, Option.ite_none_right_eq_some, Option.some.injEq] at hk
    obtain ⟨-, rfl⟩ := hk
    rfl

theorem idleStep_other {a : Act} {pending : Bool} (hx : idleStep e x (.other a pending) = some x') :
    a.allowsIdle x.kernel = true ∧ ∃ k', step e x.kernel a = some k' ∧ x'.kernel = k' ∧ x'.pc = x.pc ∧
      x'.s0 = x.s0 ∧ (a.takes = false → x'.pending = x.pending) := by
  simp only [idleStep, Bool.not_eq_true', Option.ite_none_left_eq_some, Bool.not_eq_false] at hx
  obtain ⟨hallows, hx⟩ := hx
  refine ⟨hallows, ?_⟩
  split at hx
  · rename_i htakes
    simp only [Option.ite_none_right_eq_some, Option.map_eq_some_iff] at hx
    obtain ⟨-, k', hk, rfl⟩ := hx
    exact ⟨k', hk, rfl, rfl, rfl, fun hno => absurd htakes (by simp [hno])⟩
  · obtain ⟨k', hk, rfl⟩ := Option.map_eq_some_iff.mp hx
    exact ⟨k', hk, rfl, rfl, rfl, fun _ => rfl⟩

/-- What happens between `csrrci` and `csrs` besides the instructions of the idle task. -/
theorem IdleOk.frozen (h : IdleOk b x) (hpc : x.pc.masked = true) (hx : idleStep e x a = some x')
    (ha : a ≠ .instruction) : x'.kernel = { x.kernel with stack := x'.kernel.stack } ∧ x'.pc = x.pc ∧ x'.s0 = x.s0 ∧
      (x.pending = true → x'.pending = true) := by
  cases a with
  | instruction => exact absurd rfl ha
  | raise =>
    obtain rfl := Option.some.inj hx
    exact ⟨rfl, rfl, rfl, fun _ => rfl⟩
  | other a pending =>
    obtain ⟨hidle, hmie, -⟩ := h.masked hpc
    obtain ⟨hallows, k', hk, hkernel, hpc', hs0, hpending⟩ := idleStep_other hx
    obtain ⟨htakes, frame, rfl⟩ := step_masked hidle hmie hallows hk
    simp only [step, Option.map_eq_some_iff] at hk
    obtain ⟨u, -, rfl⟩ := hk
    refine ⟨by rw [hkernel], hpc', hs0, fun hp => (hpending htakes).trans hp⟩

theorem IdleOk.step (h : IdleOk b x) (hx : idleStep b.entries x a = some x') : IdleOk b x' := by
  by_cases ha : a = .instruction
  · subst ha
    simp only [idleStep, Option.ite_none_right_eq_some, Option.some.injEq] at hx
    obtain ⟨⟨hruns, hcur⟩, rfl⟩ := hx
    exact h.instruction hruns hcur
  have hreach : Reachable b x'.kernel := by
    cases a with
    | instruction => exact absurd rfl ha
    | raise =>
      obtain rfl := Option.some.inj hx
      exact h.reachable
    | other a pending =>
      obtain ⟨-, k', hk, hkernel, -⟩ := idleStep_other hx
      rw [hkernel]
      exact h.reachable.step hk
  cases hpc : x.pc.masked with
  | true =>
    obtain ⟨hkernel, hpc', hs0, -⟩ := h.frozen hpc hx ha
    have hmasked := h.masked hpc
    refine .of_masked hreach (by rw [hpc']; exact hpc) ?_ ?_
    · rw [hkernel, hs0]
      exact hmasked
    · intro hwfi
      rw [hkernel]
      exact h.halts (hpc'.symm.trans hwfi)
  | false =>
    cases a with
    | instruction => exact absurd rfl ha
    | raise =>
      obtain rfl := Option.some.inj hx
      exact .of_unmasked hreach hpc (h.unmasked hpc)
    | other a pending =>
      obtain ⟨hallows, k', hk, rfl, hpc', -⟩ := idleStep_other hx
      exact .of_unmasked hreach (by rw [hpc']; exact hpc) (step_unmasked h.reachable.inv hallows hk (h.unmasked hpc))

/-! ## Runs -/

def IdleSteps (e : Entries) (x : IdleSystem) (a : IdleAct) (x' : IdleSystem) : Prop := idleStep e x a = some x'

/-- A state of a run of the board `b`. The idle task starts at the top of its loop. -/
def IdleReachable (b : Boot) (x : IdleSystem) : Prop :=
  Paths.Reach (fun x => tkmc_start b = some x.kernel ∧ x.pc = .csrrci) (IdleSteps b.entries) x

theorem IdleReachable.ok (h : IdleReachable b x) : IdleOk b x := by
  refine Paths.Reach.invariant (I := IdleOk b) ?_ ?_ h
  · rintro x ⟨hstart, hpc⟩
    obtain ⟨-, -, -, -, -, -, -, hmachine⟩ := start_tasks hstart
    refine .of_unmasked ⟨x.kernel, [], hstart, .nil _⟩ (by rw [hpc]; rfl) fun _ => ?_
    exact congrArg Machine.mie hmachine
  · intro x a x' hok hx
    exact hok.step hx

/-- What the loop of the idle task keeps to. -/
structure IdleSound (b : Boot) (x : IdleSystem) : Prop where
  /-- The kernel is in a state that it reaches with the idle task as one step. -/
  reachable : Reachable b x.kernel
  /-- The check is exact, and so is the comparison of the two links of the queue head. -/
  checks : x.pc = .can_halt → (tkmc_idle_can_halt x.kernel = true ↔ x.kernel.alone) ∧
    ∀ (h : Heap) (queue : UINT) (node : TskId → UINT), Function.Injective node →
      IsRing h queue ((x.kernel.ready_queue (CFN_MAX_PRI - 1)).map node) →
      (ends_meet h queue = true ↔ x.kernel.alone)
  /-- At `wfi` no other task is ready and no switch is due. -/
  rests : x.pc = .wfi → x.kernel.alone ∧ x.kernel.msip = false
  /-- From the check to `csrs` the kernel stands still, and an interrupt that comes stays pending. -/
  frozen : x.pc.masked = true → ∀ a x', IdleSteps b.entries x a x' → a ≠ .instruction →
    x'.kernel = { x.kernel with stack := x'.kernel.stack } ∧ x'.pc = x.pc ∧ (x.pending = true → x'.pending = true)
  /-- After `csrs` it can be taken. -/
  wakes : x.pc = .csrs → x.instruction.kernel = { x.kernel with mie := true } ∧ canTrap x.instruction.kernel = true
  /-- Each round gives way to any other ready task. -/
  yields : x.pc = .yield → IdleSteps b.entries x .instruction x.instruction → ¬ x.kernel.alone →
    ∃ t, t ≠ idl_tsk ∧ (x.kernel.tcbs t).active ∧ x.instruction.kernel.next = some t ∧ x.instruction.kernel.msip = true

/-- **The idle task halts when there is nothing to do, and loses no wake-up.** -/
theorem idle_loses_no_wakeup (h : IdleReachable b x) : IdleSound b x := by
  have hok := h.ok
  have hinv := hok.reachable.inv
  refine ⟨hok.reachable, ?_, ?_, ?_, ?_, ?_⟩
  · intro hpc
    obtain ⟨⟨-, hcur⟩, -, hmsip, -⟩ := hok.masked (by rw [hpc]; rfl)
    refine ⟨can_halt_iff hinv hcur hmsip, ?_⟩
    intro h queue node hnode hring
    rw [ends_meet_iff hnode hring]
    exact ends_iff_alone hinv hcur hmsip
  · intro hpc
    exact ⟨hok.halts hpc, (hok.masked (by rw [hpc]; rfl)).2.2.1⟩
  · intro hpc a x' hx ha
    obtain ⟨hkernel, hpc', -, hpending⟩ := hok.frozen hpc hx ha
    exact ⟨hkernel, hpc', hpending⟩
  · intro hpc
    obtain ⟨⟨hdepth, -⟩, hmie, -, hs0⟩ := hok.masked (by rw [hpc]; rfl)
    have hkernel : x.instruction.kernel = { x.kernel with mie := true } := by
      simp [IdleSystem.instruction, hpc, hs0, Kernel.EI]
    refine ⟨hkernel, ?_⟩
    rw [hkernel]
    simp [canTrap, hdepth]
  · intro hpc hx hother
    simp only [IdleSteps, idleStep, Option.ite_none_right_eq_some] at hx
    obtain ⟨⟨hruns, hcur⟩, -⟩ := hx
    have hdepth : x.kernel.isr_depth = 0 := by
      simp only [taskRuns, Bool.and_eq_true, decide_eq_true_eq] at hruns
      exact hruns.1
    have hmie := hok.unmasked (by rw [hpc]; rfl) ⟨hdepth, hcur⟩
    have hkernel : x.instruction.kernel = tkmc_yield x.kernel := by simp [IdleSystem.instruction, hpc]
    rw [hkernel]
    exact yield_gives_way hinv hcur (settled_of_runs hruns hmie).2 hother

/-- The initial task ends, and the idle task runs up to `wfi`. -/
def idleRun : Option IdleSystem :=
  (tkmc_start sampleBoot).bind fun k =>
    [.other (.call .exd_tsk []) false, .other (.software_interrupt 0) false, .instruction, .instruction].foldlM
      (idleStep sampleBoot.entries) { kernel := k, pc := .csrrci, s0 := false, pending := false }

theorem idle_loses_no_wakeup_idleRun : ∃ x, idleRun = some x ∧ x.pc = .wfi ∧ x.kernel.alone ∧ x.kernel.msip = false := by
  have hrun : idleRun.any (fun x => decide (x.pc = .wfi)) = true := by decide +kernel
  obtain ⟨x, hx, hpc⟩ := (Option.any_eq_true _ _).mp hrun
  have hpc := of_decide_eq_true hpc
  obtain ⟨k, hk, hpath⟩ := Option.bind_eq_some_iff.mp hx
  have hreach : IdleReachable sampleBoot x := ⟨_, _, ⟨hk, rfl⟩, .of_foldlM hpath⟩
  exact ⟨x, hx, hpc, (idle_loses_no_wakeup hreach).rests hpc⟩

end TsukumoCore
