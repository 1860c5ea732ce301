import TsukumoCore.Calls.Produce
import TsukumoCore.System.Semaphores

/-!
# Signals add up

A signal of a `TA_FIRST` semaphore serves the waiters in front. Two signals in a row serve those that one
signal with the units of both serves.
-/

namespace TsukumoCore

variable {b : Boot} {k k₁ k₂ : Kernel} {s : SemId} {semid m n : Int} {q q₁ q₂ : Tasks} {c : Machine} {t : TskId}

theorem kernel_ext (htasks : k₁.toTasks = k₂.toTasks) (hobjects : k₁.toObjects = k₂.toObjects)
    (hmachine : k₁.toMachine = k₂.toMachine) : k₁ = k₂ := by
  cases k₁
  cases k₂
  simp_all

/-! ## The units -/

theorem wakeAll_append (q : Tasks) (l l' : List TskId) : wakeAll q (l ++ l') = wakeAll (wakeAll q l) l' :=
  List.foldl_append

theorem request_wakeAll (q : Tasks) (granted : List TskId) : request (wakeAll q granted) = request q := by
  induction granted generalizing q with
  | nil => rfl
  | cons t rest ih => exact (ih _).trans (request_wake q t .E_OK)

theorem signalShare_add (hatr : (k.semcbs s).sematr &&& TA_CNT = 0)
    (htasks : k₁.toTasks = wakeAll k.toTasks (signalShare k s m).granted)
    (hcb : k₁.semcbs s = { k.semcbs s with semcnt := (signalShare k s m).units })
    (hqueue : k₁.wait_queue (.sem s) = (signalShare k s m).left) (hn : 1 ≤ n) :
    signalShare k s (m + n) =
      ⟨(signalShare k₁ s n).units, (signalShare k s m).granted ++ (signalShare k₁ s n).granted,
        (signalShare k₁ s n).left⟩ := by
  have hall : (k.semcbs s).servesAll = false := by simp [SEMCB.servesAll, hatr]
  have hall₁ : (k₁.semcbs s).servesAll = false := by rw [hcb]; exact hall
  have hcnt : (k.semcbs s).semcnt + (m + n) = (k.semcbs s).semcnt + m + n := by omega
  have hrest : signalShare k₁ s n = Grant.walk false (request k.toTasks) ((signalShare k s m).units + n)
      (signalShare k s m).left := by
    rw [signalShare, hall₁, hqueue, htasks, request_wakeAll, hcb]
  rw [hrest]
  unfold signalShare
  rw [hall, hcnt]
  exact Grant.walk_add hn

/-! ## The switch request -/

theorem wakeAll_grows (q : Tasks) (granted : List TskId) : Grows q (wakeAll q granted) := by
  induction granted generalizing q with
  | nil => exact .refl q
  | cons t rest ih => exact (wake_grows q t .E_OK).trans (ih _)

/-! ## Two signals -/

theorem units_le (h : Core k.toTasks k.toObjects) (m : Int) :
    (signalShare k s m).units ≤ (k.semcbs s).semcnt + m := by
  refine Grant.walk_units_le fun t ht => ?_
  obtain ⟨_, cnt, _, -, -, hw, -, hcnt, -⟩ := h.waiter ht
  rw [request, hw]
  simp only [WaitInfo.semcnt]
  omega

theorem room_after (h : Core k.toTasks k.toObjects) (hlive : k.Live (.sem s))
    (hroom : m + n ≤ (k.semcbs s).maxsem - (k.semcbs s).semcnt)
    (hobj₁ : k₁.toObjects = k.toObjects.setSem s { k.semcbs s with semcnt := (signalShare k s m).units }) :
    k₁.semcbs s = { k.semcbs s with semcnt := (signalShare k s m).units } ∧ k₁.Live (.sem s) ∧
      n ≤ (k₁.semcbs s).maxsem - (k₁.semcbs s).semcnt := by
  have hcb₁ : k₁.semcbs s = { k.semcbs s with semcnt := (signalShare k s m).units } := by
    rw [hobj₁]
    simp [Objects.setSem]
  refine ⟨hcb₁, ?_, ?_⟩
  · rw [live_sem_iff, hcb₁]
    exact hlive
  · have hle := units_le (s := s) h m
    rw [hcb₁]
    simp only
    omega

theorem sig_sem_add (h : Good k) (he : tableEntry CFN_MAX_SEMID semid = some s) (hlive : k.Live (.sem s))
    (hatr : (k.semcbs s).sematr &&& TA_CNT = 0) (hm : 1 ≤ m) (hn : 1 ≤ n)
    (hroom : m + n ≤ (k.semcbs s).maxsem - (k.semcbs s).semcnt) :
    (tk_sig_sem k semid m).1 = .E_OK ∧
      tk_sig_sem (tk_sig_sem k semid m).2 semid n = tk_sig_sem k semid (m + n) := by
  obtain ⟨k₁, heq₁, hcore₁, htasks₁, hobj₁, hqueue₁, hmach₁⟩ :=
    tk_sig_sem_granted h.core he hlive (show 0 < m by omega) (by omega)
  obtain ⟨hcb₁, hlive₁, hroom₁⟩ := room_after h.core hlive hroom hobj₁
  obtain ⟨k₂, heq₂, hcore₂, htasks₂, hobj₂, -, hmach₂⟩ :=
    tk_sig_sem_granted hcore₁ he hlive₁ (show 0 < n by omega) hroom₁
  obtain ⟨k', heq, -, htasks, hobj, -, hmach⟩ :=
    tk_sig_sem_granted h.core he hlive (show 0 < m + n by omega) hroom
  have hshare := signalShare_add hatr htasks₁ hcb₁ hqueue₁ hn
  rw [heq₁, heq₂, heq]
  have hsame : k₂.toTasks = k'.toTasks := by
    rw [htasks, hshare, wakeAll_append, ← htasks₁, ← htasks₂]
  refine ⟨rfl, Prod.ext rfl (kernel_ext hsame ?_ ?_)⟩
  · rw [hobj₂, hobj, hshare, hcb₁, hobj₁]
    simp [Objects.setSem]
  · have hgrows₁ : Grows k.toTasks k₁.toTasks := htasks₁ ▸ wakeAll_grows k.toTasks _
    have hgrows₂ : Grows k₁.toTasks k₂.toTasks := htasks₂ ▸ wakeAll_grows k₁.toTasks _
    rw [hmach₂, hmach₁, hmach, ← hsame]
    exact request_again hcore₂.tasks.toPlaced hgrows₁ hgrows₂ (fun hm => (h.sched.settled hm).1) h.sched.current

/-! ## As steps

Each call leaves its return on record, so two calls leave one event more than one does. -/

/-- The two differ in the record at most. -/
def SameState (k k' : Kernel) : Prop := ∃ log, k' = { k with log := log }

theorem wakeAll_log_free (q : Tasks) (log : List Event) (granted : List TskId) :
    ∃ log', wakeAll { q with log := log } granted = { wakeAll q granted with log := log' } := by
  induction granted generalizing q log with
  | nil => exact ⟨log, rfl⟩
  | cons t rest ih => exact ih (Move.wakeEffect q t .E_OK) _

theorem sig_sem_same (h : Core k.toTasks k.toObjects) (hk : SameState k k₁) (hcore₁ : Core k₁.toTasks k₁.toObjects)
    (he : tableEntry CFN_MAX_SEMID semid = some s) (hlive : k.Live (.sem s)) (hn : 0 < n)
    (hroom : n ≤ (k.semcbs s).maxsem - (k.semcbs s).semcnt) :
    (tk_sig_sem k₁ semid n).1 = .E_OK ∧ SameState (tk_sig_sem k semid n).2 (tk_sig_sem k₁ semid n).2 := by
  obtain ⟨log, rfl⟩ := hk
  obtain ⟨k', heq, -, htasks, hobj, -, hmach⟩ := tk_sig_sem_granted h he hlive hn hroom
  obtain ⟨k₁', heq₁, -, htasks₁, hobj₁, -, hmach₁⟩ :=
    tk_sig_sem_granted (k := { k with log := log }) hcore₁ he hlive hn hroom
  obtain ⟨log', hlog'⟩ := wakeAll_log_free k.toTasks log (signalShare k s n).granted
  have htasks' : k₁'.toTasks = { k'.toTasks with log := log' } := by
    rw [htasks]
    exact htasks₁.trans hlog'
  rw [heq, heq₁]
  refine ⟨rfl, log', kernel_ext htasks' ?_ ?_⟩
  · exact hobj₁.trans hobj.symm
  · rw [hmach₁, htasks']
    exact hmach.symm

theorem SameState.trans (h : SameState k k₁) (h' : SameState k₁ k₂) : SameState k k₂ := by
  obtain ⟨log, rfl⟩ := h
  obtain ⟨log', rfl⟩ := h'
  exact ⟨log', rfl⟩

theorem SameState.symm (h : SameState k k₁) : SameState k₁ k := by
  obtain ⟨log, rfl⟩ := h
  exact ⟨k.log, rfl⟩

theorem SameState.note (k : Kernel) (ev : Event) : SameState k (k.tasks (·.note ev)) := ⟨_, rfl⟩

theorem sig_sem_step (hcan : canCall k = true) (e : Entries) (times : List Nat) (semid cnt : Int) :
    step e k (.call (.sig_sem semid cnt) times) =
      some ((tk_sig_sem k semid cnt).2.tasks
        (·.note (.ret (.sig_sem semid cnt) { ercd := (tk_sig_sem k semid cnt).1 }))) := by
  simp [step, hcan, exec, leave_call]

/-- Nothing can come between two calls of a handler, or of a task that has interrupts off. -/
theorem canCall_again (hcan : canCall k = true) (hctx : tkmc_in_isr k = true ∨ k.mie = false)
    (hmach : k₁.toMachine = k.toMachine.request q) (hpending : k₁.pending = k.pending) : canCall k₁ = true := by
  have hdepth : k₁.isr_depth = k.isr_depth := by rw [hmach]; rfl
  have hmie : k₁.mie = k.mie := by rw [hmach]; rfl
  have hcurrent : k₁.current = k.current := by rw [hmach]; rfl
  unfold canCall taskRuns tkmc_in_isr at *
  rw [hdepth, hmie, hcurrent, hpending]
  rcases hctx with hisr | hoff
  · rw [hisr, Bool.true_or]
  · rw [hoff] at hcan ⊢
    simpa using hcan

/-- **Signals to a `TA_FIRST` semaphore add up.** -/
theorem signals_add_up (h : Reachable b k) (he : tableEntry CFN_MAX_SEMID semid = some s)
    (hlive : noexs (k.semcbs s).semid = false) (hatr : (k.semcbs s).sematr &&& TA_CNT = 0) (hm : 1 ≤ m) (hn : 1 ≤ n)
    (hok : (tk_sig_sem k semid (m + n)).1 = .E_OK) :
    ((tk_sig_sem k semid m).1 = .E_OK ∧
      tk_sig_sem (tk_sig_sem k semid m).2 semid n = tk_sig_sem k semid (m + n)) ∧
    (canCall k = true → (tkmc_in_isr k = true ∨ k.mie = false) → ∀ times times',
      ∃ k₁ k₂ k', step b.entries k (.call (.sig_sem semid m) times) = some k₁ ∧
        step b.entries k₁ (.call (.sig_sem semid n) times') = some k₂ ∧
        step b.entries k (.call (.sig_sem semid (m + n)) times) = some k' ∧
        (tk_sig_sem k₁ semid n).1 = .E_OK ∧ SameState k' k₂) := by
  have hroom : m + n ≤ (k.semcbs s).maxsem - (k.semcbs s).semcnt := by
    rw [tk_sig_sem_eq h.inv.core he hlive (by omega)] at hok
    by_contra hnot
    rw [if_pos (by omega)] at hok
    cases hok
  obtain ⟨hfirst, hadd⟩ := sig_sem_add h.inv.toGood he hlive hatr hm hn hroom
  refine ⟨⟨hfirst, hadd⟩, fun hcan hctx times times' => ?_⟩
  obtain ⟨k₁, heq₁, hcore₁, htasks₁, hobj₁, -, hmach₁⟩ :=
    tk_sig_sem_granted h.inv.core he hlive (show 0 < m by omega) (by omega)
  -- the state with the return of the first call on record
  generalize hk₁ : k₁.tasks (·.note (.ret (.sig_sem semid m) { ercd := .E_OK })) = noted
  have hstep₁ : step b.entries k (.call (.sig_sem semid m) times) = some noted := by
    rw [sig_sem_step hcan, heq₁, ← hk₁]
  have hreach₁ : Reachable b noted := h.step hstep₁
  have hnoted : SameState k₁ noted := hk₁ ▸ SameState.note k₁ _
  have hpending : noted.pending = k.pending := by
    rw [← hk₁]
    simp only [Kernel.tasks, Tasks.note]
    rw [htasks₁]
    exact (endsWaits_wakeAll _).pending k.toTasks
  have hmach : noted.toMachine = k.toMachine.request k₁.toTasks := by
    rw [← hk₁]
    exact hmach₁
  have hcan₁ : canCall noted = true := canCall_again hcan hctx hmach hpending
  obtain ⟨-, hlive₁, hroom₁⟩ := room_after h.inv.core hlive hroom hobj₁
  obtain ⟨hsecond, hsame⟩ := sig_sem_same hcore₁ hnoted hreach₁.inv.core he hlive₁ (by omega) hroom₁
  rw [heq₁] at hadd
  rw [hadd] at hsame
  refine ⟨noted, _, _, hstep₁, sig_sem_step hcan₁ b.entries times' semid n,
    sig_sem_step hcan b.entries times semid (m + n), hsecond, ?_⟩
  exact (SameState.note _ _).symm.trans (hsame.trans (SameState.note _ _))

/-- Two tasks wait, the first for two units and the second for one, and a handler runs. -/
def signalRun : List Act :=
  [.call (.cre_tsk (some { exinf := 0, tskatr := TA_USERBUF, task := 0x80004000, itskpri := 1, stksz := 512,
                           bufptr := 0x80020000 })) [],
    .call (.cre_sem (some { exinf := 0, sematr := 0, isemcnt := 0, maxsem := 4 })) [],
    .call (.sta_tsk 3 0) [], .call (.wait (.sem 1 2 TMO_FEVR)) [], .software_interrupt 0,
    .call (.wait (.sem 1 1 TMO_FEVR)) [], .software_interrupt 0, .external_enter]

theorem signals_add_up_signalRun : ∃ k, sampleRun signalRun = some k ∧ k.wait_queue (.sem 0) = [0, 2] ∧
    tk_sig_sem (tk_sig_sem k 1 1).2 1 2 = tk_sig_sem k 1 3 ∧
    ∃ k₁ k₂ k', step sampleBoot.entries k (.call (.sig_sem 1 1) []) = some k₁ ∧
      step sampleBoot.entries k₁ (.call (.sig_sem 1 2) []) = some k₂ ∧
      step sampleBoot.entries k (.call (.sig_sem 1 3) []) = some k' ∧ SameState k' k₂ := by
  obtain ⟨k, hk, hlive, hatr, hqueue, hok, hcan, hisr⟩ := sampleRun_of_any signalRun (fun k =>
    noexs (k.semcbs 0).semid = false ∧ (k.semcbs 0).sematr &&& TA_CNT = 0 ∧ k.wait_queue (.sem 0) = [0, 2] ∧
      (tk_sig_sem k 1 3).1 = .E_OK ∧ canCall k = true ∧ tkmc_in_isr k = true) (by decide +kernel)
  have hadd := signals_add_up (s := 0) (m := 1) (n := 2) (sampleRun_reachable hk)
    (show tableEntry CFN_MAX_SEMID 1 = some 0 by decide) hlive hatr (by decide) (by decide) hok
  obtain ⟨k₁, k₂, k', h₁, h₂, h', -, hsame⟩ := hadd.2 hcan (.inl hisr) [] []
  exact ⟨k, hk, hqueue, hadd.1.2, k₁, k₂, k', h₁, h₂, h', hsame⟩

end TsukumoCore
