import TsukumoCore.Calls.Requests
import TsukumoCore.System.Boot

/-! # The immediate path of `tk_wai_sem` and the queue -/

namespace TsukumoCore

variable {b : Boot} {k : Kernel} {s : SemId} {t : TskId} {semid cnt tmout : Int} {times : List Nat}

/-- What `tk_wai_sem` would do without its immediate check: it puts the task in its place in the wait
queue, and serves the waiters. -/
def queue_and_serve (k : Kernel) (s : SemId) (t : TskId) (semid cnt : Int) : Kernel :=
  let k := k.tasks fun q =>
    insert_by_atr ((q.setTcb t fun c => { c with winfo := .semaphore cnt s }).init_wait t) t (.sem s)
      (k.semcbs s).sematr
  tkmc_sem_serve_waiters (leave_call (wait_forever k t .SEM) (.wait (.sem semid cnt TMO_FEVR)) .wait) s

/-- The code and the other way round agree: on who gets the units, on the count, and on the queue. -/
structure Agrees (s : SemId) (t : TskId) (tmout : Int) (code : Flow × Kernel) (queued : Kernel) : Prop where
  granted : code.1 = .ret { ercd := .E_OK } ↔ t ∉ queued.wait_queue (.sem s)
  refused : t ∈ queued.wait_queue (.sem s) →
    code.1 = if tmout = TMO_POL then .ret { ercd := .E_TMOUT } else .wait
  count : (code.2.semcbs s).semcnt = (queued.semcbs s).semcnt
  others : (code.2.wait_queue (.sem s)).erase t = (queued.wait_queue (.sem s)).erase t
  place : code.1 = .wait → code.2.wait_queue (.sem s) = queued.wait_queue (.sem s)

theorem queue_and_serve_eq (cnt : Int) (h : Caller k t) (he : tableEntry CFN_MAX_SEMID semid = some s) :
    ∃ k', queue_and_serve k s t semid cnt = tkmc_sem_serve_waiters k' s ∧ k'.toObjects = k.toObjects ∧
      k'.toTasks = (Move.block t (.sem semid cnt TMO_FEVR)
        (queueBy k.toTasks t (k.semcbs s).sematr (k.wait_queue (.sem s))) none).effect k.toTasks := by
  have hobj : (WaitCall.sem semid cnt TMO_FEVR).obj = some (.sem s) := by simp [WaitCall.obj, he]
  have hreq : (k.tasks fun q =>
      insert_by_atr ((q.setTcb t fun c => { c with winfo := .semaphore cnt s }).init_wait t) t (.sem s)
        (k.semcbs s).sematr) = k.tasks (·.requestFor t (.sem semid cnt TMO_FEVR)
          (queueBy k.toTasks t (k.semcbs s).sematr (k.wait_queue (.sem s)))) := by
    simp only [Kernel.tasks]
    rw [insert_by_atr_eq h.link, requestFor_some hobj]
    simp [WaitCall.info, he]
  have hcur : ∀ queue, (wait_forever (k.tasks (·.requestFor t (.sem semid cnt TMO_FEVR) queue)) t .SEM).current =
      some t := fun _ => h.current
  refine ⟨_, rfl, ?_, ?_⟩
  · rw [hreq]
    simp only [leave_call, hcur]
    rfl
  · rw [hreq, ← block_untimed_eq h.core.tasks.toPlaced h.active]
    simp only [leave_call, hcur]
    rfl

theorem begin_wait_queue (k : Kernel) (t : TskId) (kind : TTW) (tmout : Int) (times : List Nat) :
    (begin_wait k t kind tmout times).wait_queue = k.wait_queue := by
  unfold begin_wait
  split <;> rfl

theorem begin_wait_objects (k : Kernel) (t : TskId) (kind : TTW) (tmout : Int) (times : List Nat) :
    (begin_wait k t kind tmout times).toObjects = k.toObjects := by
  unfold begin_wait
  split <;> rfl

theorem queue_and_serve_spec (hinv : Inv k) (h : Caller k t) (he : tableEntry CFN_MAX_SEMID semid = some s)
    (hlive : k.Live (.sem s)) (hcnt : 0 < cnt) (hmax : cnt ≤ (k.semcbs s).maxsem) :
    ((queue_and_serve k s t semid cnt).semcbs s).semcnt =
        (if may_take k s t cnt then (k.semcbs s).semcnt - cnt else (k.semcbs s).semcnt) ∧
      (queue_and_serve k s t semid cnt).wait_queue (.sem s) =
        if may_take k s t cnt then k.wait_queue (.sem s)
        else queueBy k.toTasks t (k.semcbs s).sematr (k.wait_queue (.sem s)) := by
  obtain ⟨k', heq, hobjects, htasks⟩ := queue_and_serve_eq cnt h he
  obtain ⟨ahead, behind, hq, hplace, hfirst⟩ :=
    queueBy_split k.toTasks t (k.semcbs s).sematr (k.wait_queue (.sem s))
  have hobj : (WaitCall.sem semid cnt TMO_FEVR).obj = some (.sem s) := by simp [WaitCall.obj, he]
  have hcore : Core k'.toTasks k'.toObjects := by
    rw [htasks, hobjects]
    exact waiting_sem_core h he hlive hcnt hmax
  have hcb : k'.semcbs = k.semcbs := congrArg Objects.semcbs hobjects
  have hqueue : k'.wait_queue (.sem s) = ahead ++ t :: behind := by
    rw [← hplace]
    have := congrArg (fun q : Tasks => q.wait_queue (.sem s)) htasks
    simpa [Move.effect, hobj] using this
  have hreq : request k'.toTasks t = cnt ∧ ∀ u, u ≠ t → request k'.toTasks u = request k.toTasks u := by
    unfold request
    rw [htasks]
    exact ⟨by simp [Move.effect, WaitCall.info, he, WaitInfo.semcnt], fun u hu => by simp [Move.effect, hu]⟩
  have hstuck : Grant.Stuck (k'.semcbs s).servesAll (request k'.toTasks) (k'.semcbs s).semcnt
      (ahead ++ behind) := by
    have hnot := h.not_waiting (.sem s)
    have hserved := stuck_of_served (hinv.served (.sem s) hlive)
    rw [hq] at hserved hnot
    rw [hcb]
    exact hserved.congr fun u hu => (hreq.2 u fun heq => hnot (heq ▸ hu)).symm
  have hshare : share k' s (ahead ++ t :: behind) =
      if may_take k s t cnt then ⟨(k.semcbs s).semcnt - cnt, [t], ahead ++ behind⟩
      else ⟨(k.semcbs s).semcnt, [], ahead ++ t :: behind⟩ := by
    unfold share
    rw [Grant.walk_insert hstuck (by omega), hreq.1, hcb]
    simp only [may_take_iff, hfirst]
  obtain ⟨hgrant, hleft⟩ := serve_waiters_eq (s := s) hcore
  rw [hqueue, hshare] at hgrant hleft
  rw [heq, hleft, hgrant, hplace, hq]
  split <;> simp [granting, Kernel.setSem]

/-- The immediate path of `tk_wai_sem` decides as the queue would. -/
theorem immediate_agrees (h : Reachable b k) (hcan : canCall k = true) (hblock : tkmc_can_block k k.mie = true)
    (ht : k.current = some t) (he : tableEntry CFN_MAX_SEMID semid = some s)
    (hexs : noexs (k.semcbs s).semid = false) (hcnt : 1 ≤ cnt) (hmax : cnt ≤ (k.semcbs s).maxsem)
    (htmo : TMO_FEVR ≤ tmout) :
    Agrees s t tmout (tk_wai_sem k semid cnt tmout times) (queue_and_serve k s t semid cnt) := by
  have hcaller := Caller.of_good h.inv.toGood hcan hblock ht
  have hnot := hcaller.not_waiting (.sem s)
  obtain ⟨hcount, hqueue⟩ := queue_and_serve_spec h.inv hcaller he hexs hcnt hmax
  rw [tk_wai_sem_eq hcaller he hexs hcnt hmax htmo]
  by_cases htake : may_take k s t cnt = true
  · rw [if_pos htake] at hcount hqueue ⊢
    refine ⟨?_, ?_, ?_, ?_, ?_⟩
    · simpa [hqueue] using hnot
    · intro hin
      rw [hqueue] at hin
      exact absurd hin hnot
    · simp [hcount, Kernel.setSem]
    · rw [hqueue]
      rfl
    · simp
  · rw [if_neg htake] at hcount hqueue ⊢
    obtain ⟨ahead, behind, hq, hplace, -⟩ :=
      queueBy_split k.toTasks t (k.semcbs s).sematr (k.wait_queue (.sem s))
    have hin : t ∈ (queue_and_serve k s t semid cnt).wait_queue (.sem s) := by
      rw [hqueue, hplace]
      simp
    split
    · rename_i hpol
      refine ⟨by simp [hin], fun _ => (if_pos hpol).symm, hcount.symm, ?_, by simp⟩
      have hahead : t ∉ ahead := fun hmem => hnot (by rw [hq]; exact List.mem_append_left _ hmem)
      rw [hqueue, hplace, List.erase_of_not_mem hnot, List.erase_append_right _ hahead, List.erase_cons_head, hq]
    · rename_i hpol
      have hplaced : ((begin_wait (k.DI.tasks (·.requestFor t (.sem semid cnt tmout)
          (queueBy k.toTasks t (k.semcbs s).sematr (k.wait_queue (.sem s))))) t .SEM tmout times).EI
            k.mie).wait_queue (.sem s) = (queue_and_serve k s t semid cnt).wait_queue (.sem s) := by
        rw [hqueue, EI_toTasks, begin_wait_queue]
        simp [Kernel.tasks, Tasks.requestFor, Tasks.request, queuesOf, WaitCall.obj, he]
      refine ⟨by simp [hin], fun _ => (if_neg hpol).symm, ?_, ?_, fun _ => hplaced⟩
      · rw [hcount, EI_toObjects, begin_wait_objects]
        rfl
      · rw [hplaced]

/-- A waiter for two units, one unit there, and a new request for that one. -/
def requestRun (sematr : ATR) : List Act :=
  [.call (.cre_tsk (some { exinf := 0, tskatr := TA_USERBUF, task := 0x80004000, itskpri := 1, stksz := 512,
                           bufptr := 0x80020000 })) [],
    .call (.cre_sem (some { exinf := 0, sematr := sematr, isemcnt := 1, maxsem := 2 })) [],
    .call (.sta_tsk 3 0) [], .call (.wait (.dly 0)) [], .resume, .software_interrupt 0,
    .call (.wait (.sem 1 2 TMO_FEVR)) [], .software_interrupt 0]

theorem immediate_agrees_requestRun : ∃ k, sampleRun (requestRun TA_CNT) = some k ∧
    k.wait_queue (.sem 0) = [2] ∧
      Agrees 0 0 TMO_POL (tk_wai_sem k 1 1 TMO_POL []) (queue_and_serve k 0 0 1 1) := by
  obtain ⟨k, hk, hcan, hblock, hcur, hexs, hmax, hq⟩ := sampleRun_of_any (requestRun TA_CNT) (fun k =>
    canCall k = true ∧ tkmc_can_block k k.mie = true ∧ k.current = some 0 ∧
      noexs (k.semcbs 0).semid = false ∧ 1 ≤ (k.semcbs 0).maxsem ∧ k.wait_queue (.sem 0) = [2])
    (by decide +kernel)
  exact ⟨k, hk, hq, immediate_agrees (sampleRun_reachable hk) hcan hblock hcur (by decide) hexs (by decide)
    hmax (by decide)⟩

end TsukumoCore
