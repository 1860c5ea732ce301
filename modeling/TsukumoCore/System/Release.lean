import TsukumoCore.System.Boot

/-! # Forced release over a run -/

namespace TsukumoCore

variable {b : Boot} {k : Kernel} {t : TskId} {tskid : Int} {q q' : Tasks} {w : WaitCall}

/-- `tk_rel_wai` on an existing task does what it is for. -/
structure Releases (k : Kernel) (tskid : Int) (t : TskId) : Prop where
  ok : (tk_rel_wai k tskid).1 = .E_OK ↔ (k.tcbs t).tskstat = .WAI
  ready : (tk_rel_wai k tskid).1 = .E_OK →
    t ∈ (tk_rel_wai k tskid).2.ready_queue ((k.tcbs t).itskpri - 1).toNat ∧
      ((tk_rel_wai k tskid).2.tcbs t).wupcause = .E_RLWAI
  off : (tk_rel_wai k tskid).1 = .E_OK → t ∉ (tk_rel_wai k tskid).2.timer_queue ∧
    ∀ o, t ∉ (tk_rel_wai k tskid).2.wait_queue o
  wupcnt : (tk_rel_wai k tskid).1 = .E_OK →
    ((tk_rel_wai k tskid).2.tcbs t).wupcnt = (k.tcbs t).wupcnt
  refused : (tk_rel_wai k tskid).1 ≠ .E_OK → tk_rel_wai k tskid = (.E_OBJ, k)

theorem follows_tcb (hd : Does (follows w) q q') (hs : (q.tcbs t).tskstat ≠ .WAI) : q'.tcbs t = q.tcbs t := by
  refine hd.keeps (I := fun q' => q'.tcbs t = q.tcbs t) ?_ rfl
  rintro m q' ⟨s, -, u, w', rfl, -⟩ ha heq
  have hu : t ≠ u := by
    rintro rfl
    apply hs
    rw [← heq]
    exact ha.1
  rw [← heq]
  simp [Move.effect, Move.wakeEffect, hu]

theorem rel_wai_refused (ht : tableEntry CFN_MAX_TSKID tskid = some t) (hex : (k.tcbs t).tskstat ≠ .NOEXS)
    (hno : k.current = some t ∨ (k.tcbs t).tskstat ≠ .WAI) : tk_rel_wai k tskid = (.E_OBJ, k) := by
  have hex' : ¬ (k.DI.tcbs t).tskstat = .NOEXS := hex
  have hercd : (if (k.DI.tcbs t).tskstat = .NOEXS then ER.E_NOEXS
      else if some t = k.DI.current then .E_OBJ
      else if (k.DI.tcbs t).tskstat ≠ .WAI then .E_OBJ
      else .E_OK) = .E_OBJ := by
    rw [if_neg hex']
    rcases hno with hcur | hs
    · have hcur' : some t = k.DI.current := hcur.symm
      rw [if_pos hcur']
    · have hs' : (k.DI.tcbs t).tskstat ≠ .WAI := hs
      rw [if_pos hs', ite_self]
  unfold tk_rel_wai
  simp only [ht, hercd, reduceCtorEq, if_false, DI_EI]

theorem rel_wai_released (ht : tableEntry CFN_MAX_TSKID tskid = some t) (hcur : k.current ≠ some t)
    (hs : (k.tcbs t).tskstat = .WAI) :
    tk_rel_wai k tskid = (.E_OK, (request_switch (tkmc_complete_wait k.DI t .E_RLWAI)).EI k.mie) := by
  have hcur' : ¬ some t = k.DI.current := fun heq => hcur heq.symm
  unfold tk_rel_wai
  simp only [ht, DI_toTasks, hs, hcur', reduceCtorEq, if_false, ne_eq, not_true_eq_false, if_true]

/-- **Forced release reaches a waiting task** unless the task is still `current`. -/
theorem releases_iff (h : Reachable b k) (ht : tableEntry CFN_MAX_TSKID tskid = some t)
    (hex : (k.tcbs t).tskstat ≠ .NOEXS) :
    Releases k tskid t ↔ ¬ ((k.tcbs t).tskstat = .WAI ∧ k.current = some t) := by
  constructor
  · rintro hrel ⟨hs, hcur⟩
    have hok := hrel.ok.mpr hs
    rw [rel_wai_refused ht hex (.inl hcur)] at hok
    exact absurd hok (by simp)
  · intro hnot
    by_cases hs : (k.tcbs t).tskstat = .WAI
    · have hcur : k.current ≠ some t := fun hcur => hnot ⟨hs, hcur⟩
      obtain ⟨w, hp, -⟩ := h.inv.core.waiting hs
      have ha : (Move.wake t w .E_RLWAI).Allowed k.toTasks := ⟨hs, hp, by simp, by simp⟩
      obtain ⟨hends, hrest, -⟩ := complete_wait_spec (k := k.DI) h.inv.core ha (by simp)
      have htcb := follows_tcb (t := t) hrest (by simp [Move.wakeEffect])
      have heq := rel_wai_released ht hcur hs
      have htasks : (tk_rel_wai k tskid).2.toTasks = (tkmc_complete_wait k.DI t .E_RLWAI).toTasks := by
        rw [heq]
        simp
      have hplaced := hends.core.tasks.toPlaced
      have hact : ((tkmc_complete_wait k.DI t .E_RLWAI).tcbs t).active := by
        rw [htcb]
        exact .inl (by simp [Move.wakeEffect])
      refine ⟨by simp [heq, hs], fun _ => ⟨?_, ?_⟩, fun _ => ⟨?_, fun o => ?_⟩, fun _ => ?_, fun hne => ?_⟩
      · rw [htasks]
        refine ((hplaced.task t).ready _).mpr ⟨hact, ?_⟩
        rw [htcb]
        simp [Move.wakeEffect, TCB.level]
      · rw [htasks, htcb]
        simp [Move.wakeEffect]
      · rw [htasks]
        exact hplaced.not_mem_timer hact.stat_ne_wai
      · rw [htasks]
        exact hplaced.not_mem_wait hact.stat_ne_wai o
      · rw [htasks, htcb]
        simp [Move.wakeEffect]
      · exact absurd (by rw [heq]) hne
    · have heq := rel_wai_refused ht hex (.inr hs)
      have hne : (tk_rel_wai k tskid).1 ≠ .E_OK := by simp [heq]
      exact ⟨by simp [heq, hs], fun hok => absurd hok hne, fun hok => absurd hok hne,
        fun hok => absurd hok hne, fun _ => heq⟩

/-- Two tasks: the second sleeps, and the first releases it. -/
def releaseRun : List Act :=
  [.call (.cre_tsk (some { exinf := 0, tskatr := TA_USERBUF, task := 0x80004000, itskpri := 1, stksz := 512,
                           bufptr := 0x80020000 })) [],
    .call (.sta_tsk 3 0) [], .call (.wait (.dly 0)) [], .resume, .software_interrupt 0,
    .call (.wait (.slp TMO_FEVR)) [], .software_interrupt 0]

theorem releases_iff_releaseRun : ∃ k, sampleRun releaseRun = some k ∧ (k.tcbs 2).tskstat = .WAI ∧
    Releases k 3 2 := by
  obtain ⟨k, hk, hs, hcur⟩ := sampleRun_of_any releaseRun (fun k =>
    (k.tcbs 2).tskstat = .WAI ∧ k.current ≠ some 2) (by decide +kernel)
  refine ⟨k, hk, hs, ?_⟩
  exact (releases_iff (sampleRun_reachable hk) (by decide) (by simp [hs])).mpr fun h => hcur h.2

/-- In the window before the switch, a handler cannot release the task that began to wait. -/
theorem release_refused_in_window :
    ∃ k, sampleRun [.call (.wait (.slp TMO_FEVR)) [], .external_enter] = some k ∧
      (k.tcbs 0).tskstat = .WAI ∧ (tk_rel_wai k 1).1 = .E_OBJ ∧ ¬ Releases k 1 0 := by
  obtain ⟨k, hk, hs, hercd⟩ := sampleRun_of_any [.call (.wait (.slp TMO_FEVR)) [], .external_enter] (fun k =>
    (k.tcbs 0).tskstat = .WAI ∧ (tk_rel_wai k 1).1 = .E_OBJ) (by decide +kernel)
  refine ⟨k, hk, hs, hercd, fun hrel => ?_⟩
  have hok := hrel.ok.mpr hs
  rw [hercd] at hok
  exact absurd hok (by simp)

end TsukumoCore
