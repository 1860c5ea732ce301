import TsukumoCore.Calls.Step

/-! # Boot, and the states a run reaches -/

namespace TsukumoCore

variable {b : Boot} {k k' : Kernel} {t : TskId}

theorem init_placed : Placed tkmc_init_tcb := by
  refine ⟨fun t => ?_, List.nodup_finRange _, by simp [tkmc_init_tcb], by simp [tkmc_init_tcb],
    by simp [tkmc_init_tcb], by simp [tkmc_init_tcb], by simp [tkmc_init_tcb]⟩
  constructor <;> simp [tkmc_init_tcb, TCB.active, waitsOn]

theorem init_dead (o : Obj) : ¬ init_objects.Live o := by
  unfold Objects.Live
  cases o <;> simp [init_objects, Objects.cb, CB.id, noexs_or_mask]

theorem init_core : Core tkmc_init_tcb init_objects := by
  refine ⟨⟨init_placed, by simp [tkmc_init_tcb]⟩, ?_, fun o ho => absurd ho (init_dead o)⟩
  refine ⟨fun o => ?_, fun o => ?_, List.nodup_finRange _, List.nodup_finRange _, List.nodup_finRange _, by
    simp [tkmc_init_tcb]⟩
  · rw [← id_and o]
    cases o <;> exact or_mask_and _
  · simp only [init_dead, not_false_eq_true, iff_true]
    cases o <;> exact List.mem_finRange _

theorem cre_tsk_eq (h : Placed k.toTasks) {rest : List TskId} (hfree : k.free_tcb = t :: rest) {pk : T_CTSK}
    {stack_end : UINT} (hc : check_ctsk pk = .ok stack_end) :
    tk_cre_tsk k (some pk) = ({ ercd := .E_OK, id := t + 1 },
      k.tasks (Move.effect · (.create t pk (stack_end - sizeofStashedRegisters)))) := by
  have hcreate := create_eq h hfree pk (stack_end - sizeofStashedRegisters)
  have hid : ((k.DI.tasks fun q => (q.del_head t).init_head t).tcbs t).tskid = t + 1 := by
    rw [← (h.task t).id]
    simp [Kernel.tasks, Tasks.init_head, Tasks.setTcb, Tasks.check, Tasks.del_head]
  unfold tk_cre_tsk
  simp only [hc, show k.DI.free_tcb = t :: rest from hfree, hid]
  rw [if_pos (by omega)]
  exact Prod.ext rfl ((EI_DI _ k).trans (congrArg (fun q => ({ k with toTasks := q } : Kernel)) hcreate))

theorem sta_tsk_eq (h : Placed k.toTasks) (hcur : k.current = none) (hs : (k.tcbs t).tskstat = .DMT)
    (e : Entries) (stacd : Int) : tk_sta_tsk e k (t + 1) stacd = (.E_OK, k.tasks (Move.effect ·
      (.start t (initialFrame e.tk_ext_tsk (k.tcbs t).task (k.tcbs t).exinf stacd)))) := by
  have hnone : ∀ q, dispatch_if_needed { k.DI with toTasks := q } = { k.DI with toTasks := q } :=
    fun q => if_pos hcur
  rw [tk_sta_tsk_eq h ((tableEntry_succ t _).mpr rfl) hs]
  exact Prod.ext rfl ((congrArg (·.EI k.mie) (hnone _)).trans (EI_DI _ k))

theorem check_ctsk_error {pk : T_CTSK} {er : ER} (h : check_ctsk pk = .error er) : er ≠ .E_OK := by
  unfold check_ctsk at h
  dsimp only at h
  repeat' split at h
  all_goals first | (injection h with h; rw [← h]; simp) | exact absurd h (by simp)

theorem tk_cre_tsk_ok (h : Core k.toTasks k.toObjects) {pk_ctsk : Option T_CTSK}
    (hok : (tk_cre_tsk k pk_ctsk).1.ercd = .E_OK) :
    ∃ t pk stack_end, pk_ctsk = some pk ∧ check_ctsk pk = .ok stack_end ∧
      tk_cre_tsk k pk_ctsk = ({ ercd := .E_OK, id := t + 1 },
        k.tasks (Move.effect · (.create t pk (stack_end - sizeofStashedRegisters)))) := by
  cases pk_ctsk with
  | none => exact absurd hok (by simp [tk_cre_tsk])
  | some pk =>
    cases hc : check_ctsk pk with
    | error er => exact absurd hok (by simp [tk_cre_tsk, hc, check_ctsk_error hc])
    | ok stack_end =>
      cases hfree : k.free_tcb with
      | nil => exact absurd hok (by simp [tk_cre_tsk, hc, Kernel.DI, hfree])
      | cons t rest => exact ⟨t, pk, stack_end, rfl, hc, cre_tsk_eq h.tasks.toPlaced hfree hc⟩

/-- The packet of a boot task. -/
def bootPacket (task stack : UINT) (itskpri : Int) : T_CTSK :=
  { exinf := NULL, tskatr := TA_USERBUF, task, itskpri, stksz := 512, bufptr := stack }

def iniPacket (b : Boot) : T_CTSK := bootPacket b.entries.tkmc_ini_tsk b.ini_tsk_stack 1

def idlPacket (b : Boot) : T_CTSK := bootPacket b.entries.tkmc_idl_tsk b.idl_tsk_stack CFN_MAX_PRI

theorem boot_task_eq (h : Core k.toTasks k.toObjects) (hcur : k.current = none) {rest : List TskId}
    (hfree : k.free_tcb = t :: rest) {task stack : UINT} {itskpri : Int}
    (hk : boot_task b k task stack itskpri = some k') :
    ∃ stack_end, check_ctsk (bootPacket task stack itskpri) = .ok stack_end ∧
      (Move.create t (bootPacket task stack itskpri) (stack_end - sizeofStashedRegisters)).Allowed k.toTasks ∧
      k' = { k with
        toTasks := (Move.start t (initialFrame b.entries.tk_ext_tsk task NULL b.a0)).effect
          ((Move.create t (bootPacket task stack itskpri) (stack_end - sizeofStashedRegisters)).effect
            k.toTasks) } := by
  unfold boot_task at hk
  generalize hpk : bootPacket task stack itskpri = pk
  have hmk : T_CTSK.mk NULL TA_USERBUF task itskpri 512 stack = pk := hpk
  rw [hmk] at hk
  cases hc : check_ctsk pk with
  | error er =>
    simp [tk_cre_tsk, hc, check_ctsk_error hc] at hk
  | ok stack_end =>
    have ha : (Move.create t pk (stack_end - sizeofStashedRegisters)).Allowed k.toTasks :=
      ⟨by rw [hfree]; rfl, check_ctsk_priority hc⟩
    have hplaced := Move.placed h.tasks.toPlaced ha
    have hsta := sta_tsk_eq
      (k := k.tasks (Move.effect · (.create t pk (stack_end - sizeofStashedRegisters)))) (t := t) hplaced hcur
      (by simp [Kernel.tasks, Move.effect]) b.entries b.a0
    refine ⟨stack_end, rfl, ha, ?_⟩
    dsimp only at hk
    rw [cre_tsk_eq h.tasks.toPlaced hfree hc] at hk
    simp only [hsta, ne_eq, not_true_eq_false, false_or, if_false] at hk
    rw [if_neg (by omega)] at hk
    have htcb : ((Move.create t pk (stack_end - sizeofStashedRegisters)).effect k.toTasks).tcbs t =
        { ((Move.create t pk (stack_end - sizeofStashedRegisters)).effect k.toTasks).tcbs t with
          task := task, exinf := NULL } := by
      simp [Move.effect, ← hpk, bootPacket]
    rw [← Option.some.inj hk]
    simp only [Kernel.tasks]
    rw [htcb]

theorem boot_core (h : Core k.toTasks k.toObjects) {pk : T_CTSK} {sp : UINT} (frame : StashedRegisters)
    (ha : (Move.create t pk sp).Allowed k.toTasks) :
    Core ((Move.start t frame).effect ((Move.create t pk sp).effect k.toTasks)) k.toObjects := by
  have hs : (Move.start t frame).Allowed ((Move.create t pk sp).effect k.toTasks) := by
    simp [Move.Allowed, Move.effect]
  exact (h.move ha (by simp [Move.touches])).move hs (by simp [Move.touches])

/-- The tasks before the first one is launched: two created and started, with these stacks. -/
def bootTasks (b : Boot) (stack_end stack_end' : UINT) : Tasks :=
  (Move.start 1 (initialFrame b.entries.tk_ext_tsk b.entries.tkmc_idl_tsk NULL b.a0)).effect
    ((Move.create 1 (idlPacket b) (stack_end' - sizeofStashedRegisters)).effect
      ((Move.start 0 (initialFrame b.entries.tk_ext_tsk b.entries.tkmc_ini_tsk NULL b.a0)).effect
        ((Move.create 0 (iniPacket b) (stack_end - sizeofStashedRegisters)).effect tkmc_init_tcb)))

/-- `tkmc_start` in moves: two tasks created and started, and the first one launched. -/
theorem boot_eq (hk : tkmc_start b = some k) :
    ∃ stack_end stack_end', check_ctsk (iniPacket b) = .ok stack_end ∧ check_ctsk (idlPacket b) = .ok stack_end' ∧
      Core (bootTasks b stack_end stack_end') init_objects ∧
      tkmc_get_highest_priority_task (bootTasks b stack_end stack_end') = some 0 ∧
      k = (tkmc_start_timer
        { init_objects, init_machine with
          toTasks := (Move.launch 0).effect (bootTasks b stack_end stack_end')
          current := some 0 } b.now).EI true := by
  simp only [tkmc_start, Option.bind_eq_bind, Option.bind_eq_some_iff] at hk
  obtain ⟨k1, hk1, k2, hk2, t, ht, hk⟩ := hk
  obtain ⟨stack_end, hc, ha, rfl⟩ :=
    boot_task_eq init_core rfl (show _ = 0 :: (List.finRange CFN_MAX_TSKID).tail from rfl) hk1
  have hcore1 := boot_core init_core (initialFrame b.entries.tk_ext_tsk b.entries.tkmc_ini_tsk NULL b.a0) ha
  obtain ⟨stack_end', hc', ha', rfl⟩ :=
    boot_task_eq hcore1 rfl (show _ = 1 :: (List.finRange CFN_MAX_TSKID).tail.tail from rfl) hk2
  have hhead : tkmc_get_highest_priority_task (bootTasks b stack_end stack_end') = some 0 := by
    refine highest_iff.mpr ⟨0, by decide, ?_, by omega⟩
    simp [bootTasks, Move.effect, tkmc_init_tcb, TCB.level, iniPacket, idlPacket, bootPacket]
  obtain rfl : t = 0 := Option.some.inj (ht.symm.trans hhead)
  exact ⟨stack_end, stack_end', hc, hc', boot_core hcore1 _ ha', hhead, (Option.some.inj hk).symm⟩

theorem start_tasks (hk : tkmc_start b = some k) :
    Core k.toTasks k.toObjects ∧ k.toObjects = init_objects ∧
      (∀ t, (k.tcbs t).tskstat = if t = 0 then .RUN else if t = idl_tsk then .RDY else .NOEXS) ∧
      (k.tcbs idl_tsk).itskpri = CFN_MAX_PRI ∧ tkmc_get_highest_priority_task k.toTasks = some 0 ∧
      k.log = [.enqueue 0, .enqueue 1] ∧ k.alarms = [] ∧
      k.toMachine = { current := some 0, next := none, msip := false, mie := true, isr_depth := 0,
                      s_mtimecmp := (b.now + TICK_COUNTS) % 2 ^ 64, mtimecmp := k.mtimecmp } := by
  obtain ⟨stack_end, stack_end', -, -, hcore, hhead, rfl⟩ := boot_eq hk
  have hlaunch : (Move.launch 0).Allowed (bootTasks b stack_end stack_end') := by
    simp [Move.Allowed, bootTasks, Move.effect, TCB.active]
  refine ⟨hcore.move hlaunch (by simp [Move.touches]), rfl, ?_, ?_, ?_, rfl, rfl, rfl⟩
  · intro t
    simp only [Kernel.EI, tkmc_start_timer, write_mtimecmp, Tasks.setTcb, bootTasks, Move.effect, idl_tsk]
    by_cases h0 : t = 0
    · subst h0; simp
    · by_cases h1 : t = 1
      · subst h1; simp
      · simp [h0, h1, tkmc_init_tcb]
  · simp [Kernel.EI, tkmc_start_timer, write_mtimecmp, Tasks.setTcb, bootTasks, Move.effect, idl_tsk, idlPacket,
      bootPacket]
  · exact (highest_congr rfl).trans hhead

theorem start_inv (hk : tkmc_start b = some k) : Inv k := by
  obtain ⟨hcore, hobj, hstat, hpri, hhighest, -, -, hmachine⟩ := start_tasks hk
  have hdead : ∀ o, ¬ k.Live o := by rw [hobj]; exact init_dead
  refine ⟨⟨hcore, ?_⟩, fun o ho => absurd ho (hdead o), fun s hs => absurd hs (hdead _),
    fun m msg hm => absurd hm (hdead _)⟩
  rw [hmachine]
  refine ⟨⟨?_, hpri⟩, ⟨0, rfl⟩, ?_, ?_, by simp, by simp⟩
  · left
    rw [hstat]
    decide
  · intro t ht
    rw [hstat] at ht
    split at ht
    · rename_i h0; rw [h0]
    · split at ht <;> exact absurd ht (by simp)
  · refine fun _ => ⟨hhighest.symm, fun t ht => ?_⟩
    rw [hstat, if_pos (Option.some.inj ht).symm]

/-! ## Runs -/

/-- One step of the system that booted with `e`. -/
def Steps (e : Entries) (k : Kernel) (a : Act) (k' : Kernel) : Prop := step e k a = some k'

/-- The states a run from boot reaches. -/
def Reachable (b : Boot) : Kernel → Prop :=
  Paths.Reach (fun k => tkmc_start b = some k) (Steps b.entries)

theorem Reachable.inv (h : Reachable b k) : Inv k := by
  refine Paths.Reach.invariant (I := Inv) ?_ ?_ h
  · intro k hk
    exact start_inv hk
  · intro k a k' hinv hstep
    exact (step_ok hinv hstep).inv

theorem Inv.path {e : Entries} {as : List Act} (h : Inv k) (hrun : Paths.Path (Steps e) k as k') :
    Inv k' ∧ ∃ post, k'.log = k.log ++ post := by
  induction hrun with
  | nil => exact ⟨h, [], by simp⟩
  | cons hstep _ ih =>
    have hok := step_ok h hstep
    obtain ⟨first, hfirst⟩ := hok.does.log
    obtain ⟨hinv, rest, hrest⟩ := ih hok.inv
    exact ⟨hinv, first ++ rest, by rw [hrest, hfirst, List.append_assoc]⟩

/-! ## Runs that can be evaluated -/

def run (e : Entries) (k : Kernel) (as : List Act) : Option Kernel := as.foldlM (step e) k

theorem run_path {e : Entries} {as : List Act} (hk : run e k as = some k') :
    Paths.Path (Steps e) k as k' := by
  induction as generalizing k with
  | nil =>
    obtain rfl : k = k' := by simpa [run] using hk
    exact .nil k
  | cons a as ih =>
    simp only [run, List.foldlM_cons, Option.bind_eq_bind, Option.bind_eq_some_iff] at hk
    obtain ⟨k1, hstep, hrest⟩ := hk
    exact .cons hstep (ih hrest)

/-- A board to run the examples on. -/
def sampleBoot : Boot where
  entries := { tk_ext_tsk := 0x80001000, tkmc_ini_tsk := 0x80002000, tkmc_idl_tsk := 0x80003000 }
  ini_tsk_stack := 0x80010000
  idl_tsk_stack := 0x80010200
  a0 := 0
  now := 0

/-- The state after `as` on that board, if it gets there. -/
def sampleRun (as : List Act) : Option Kernel :=
  (tkmc_start sampleBoot).bind fun k => run sampleBoot.entries k as

theorem sampleRun_reachable {as : List Act} (hk : sampleRun as = some k) : Reachable sampleBoot k := by
  obtain ⟨k₀, hk₀, hrun⟩ := Option.bind_eq_some_iff.mp hk
  exact ⟨k₀, as, hk₀, run_path hrun⟩

theorem sampleRun_guarded {as : List Act} {P : Kernel → Act → Prop} (hk : sampleRun as = some k)
    (hP : ∀ a ∈ as, ∀ k, P k a) :
    Paths.Reach (fun k => tkmc_start sampleBoot = some k)
      (fun k a k' => Steps sampleBoot.entries k a k' ∧ P k a) k := by
  obtain ⟨k₀, hk₀, hrun⟩ := Option.bind_eq_some_iff.mp hk
  exact ⟨k₀, as, hk₀, (run_path hrun).guard hP⟩

theorem sampleRun_of_any (as : List Act) (P : Kernel → Prop) [DecidablePred P]
    (h : (sampleRun as).any (fun k => decide (P k)) = true) : ∃ k, sampleRun as = some k ∧ P k := by
  obtain ⟨k, hk, hP⟩ := (Option.any_eq_true _ _).mp h
  exact ⟨k, hk, of_decide_eq_true hP⟩

end TsukumoCore
