import TsukumoCore.System.Boot

/-! # Semaphores over a run -/

namespace TsukumoCore

variable {b : Boot} {k : Kernel} {s : SemId}

theorem Reachable.semRange (h : Reachable b k) (hlive : k.Live (.sem s)) :
    SemRange (k.semcbs s) (reqs k.toTasks s) := h.inv.core.range _ hlive

theorem Reachable.no_overflow (h : Reachable b k) : .intOverflow ∉ k.alarms := by
  intro hmem
  exact absurd (h.inv.core.tasks.alarms _ hmem) (by simp)

theorem Reachable.request (h : Reachable b k) {t : TskId} (ht : t ∈ k.wait_queue (.sem s)) :
    ∃ cnt, (k.tcbs t).winfo = .semaphore cnt s := by
  obtain ⟨_, cnt, _, -, -, hw, -⟩ := h.inv.core.waiter ht
  exact ⟨cnt, hw⟩

/-- **No lost wake-up.** -/
theorem no_lost_wakeup (h : Reachable b k) (hlive : noexs (k.semcbs s).semid = false) :
    ((k.semcbs s).sematr &&& TA_CNT = 0 → ∀ t, (k.wait_queue (.sem s)).head? = some t →
      ∃ cnt, (k.tcbs t).winfo = .semaphore cnt s ∧ (k.semcbs s).semcnt < cnt) ∧
    ((k.semcbs s).sematr &&& TA_CNT ≠ 0 → ∀ t ∈ k.wait_queue (.sem s),
      ∃ cnt, (k.tcbs t).winfo = .semaphore cnt s ∧ (k.semcbs s).semcnt < cnt) := by
  have hserved : SemServed (k.semcbs s) (reqs k.toTasks s) := h.inv.served (.sem s) hlive
  unfold SemServed at hserved
  rw [reqs_eq] at hserved
  refine ⟨fun hatr t ht => ?_, fun hatr t ht => ?_⟩
  · obtain ⟨cnt, hw⟩ := h.request (List.mem_of_mem_head? ht)
    rw [if_pos hatr] at hserved
    refine ⟨cnt, hw, hserved cnt ?_⟩
    rw [List.head?_map, ht, Option.map_some, hw]
    rfl
  · obtain ⟨cnt, hw⟩ := h.request ht
    rw [if_neg hatr] at hserved
    refine ⟨cnt, hw, hserved cnt (List.mem_map.mpr ⟨t, ht, ?_⟩)⟩
    rw [hw]
    rfl

/-- A task that waits for a unit of an empty semaphore. -/
def semRun : List Act :=
  [.call (.cre_sem (some { exinf := 0, sematr := 0, isemcnt := 0, maxsem := 1 })) [],
    .call (.wait (.sem 1 1 TMO_FEVR)) []]

theorem no_lost_wakeup_semRun : ∃ k, sampleRun semRun = some k ∧
    ∃ cnt, (k.tcbs 0).winfo = .semaphore cnt 0 ∧ (k.semcbs 0).semcnt < cnt := by
  obtain ⟨k, hk, hlive, hatr, hhead⟩ := sampleRun_of_any semRun (fun k =>
    noexs (k.semcbs 0).semid = false ∧ (k.semcbs 0).sematr &&& TA_CNT = 0 ∧
      (k.wait_queue (.sem 0)).head? = some 0) (by decide +kernel)
  exact ⟨k, hk, (no_lost_wakeup (sampleRun_reachable hk) hlive).1 hatr 0 hhead⟩

/-- **The units of a semaphore are conserved.** `post` is what happened since the semaphore was created. -/
theorem units_conserved (h : Reachable b k) (hlive : noexs (k.semcbs s).semid = false)
    {pre post : List Event} {pk : T_CSEM} {r : Ret}
    (hlog : k.log = pre ++ .ret (.cre_sem (some pk)) r :: post) (hok : r.ercd = .E_OK) (hid : r.id = s + 1)
    (hsince : ∀ ev ∈ post, createdSem s ev = none) :
    (k.semcbs s).semcnt =
        pk.isemcnt + (post.map (signalled s)).sum - (post.map (granted s)).sum ∧
      0 ≤ (k.semcbs s).semcnt ∧ (k.semcbs s).semcnt ≤ (k.semcbs s).maxsem ∧
      (k.semcbs s).maxsem ≤ TK_SEMAPHORE_MAXCNT ∧ .intOverflow ∉ k.alarms := by
  have hrange := h.semRange hlive
  refine ⟨?_, hrange.cnt.1, hrange.cnt.2, hrange.max.2, h.no_overflow⟩
  have hunits : units s k.log = units s (pre ++ [.ret (.cre_sem (some pk)) r]) + (post.map (unitsDelta s)).sum := by
    rw [hlog, ← List.singleton_append, ← List.append_assoc]
    exact Ledger.balance_since hsince
  have hstart : units s (pre ++ [.ret (.cre_sem (some pk)) r]) = pk.isemcnt := by
    unfold units
    rw [Ledger.balance_note, Ledger.step, createdSem_self pk hok hid, Option.getD_some]
  have hsum : (post.map (unitsDelta s)).sum = (post.map (signalled s)).sum - (post.map (granted s)).sum :=
    Ledger.sum_sub _ _ post
  rw [h.inv.unitsOk s hlive, hunits, hstart, hsum]
  omega

/-- One unit signalled, two taken. -/
def unitRun : List Act :=
  [.call (.cre_sem (some { exinf := 0, sematr := 0, isemcnt := 1, maxsem := 3 })) [],
    .call (.sig_sem 1 1) [], .call (.wait (.sem 1 2 TMO_POL)) []]

theorem units_conserved_unitRun : ∃ k, sampleRun unitRun = some k ∧ (k.semcbs 0).semcnt = 1 + 1 - 2 ∧
    .intOverflow ∉ k.alarms := by
  obtain ⟨k, hk, hlive, hlog⟩ := sampleRun_of_any unitRun (fun k => noexs (k.semcbs 0).semid = false ∧
    k.log = [.enqueue 0, .enqueue 1] ++ .ret (.cre_sem (some
        { exinf := 0, sematr := 0, isemcnt := 1, maxsem := 3 })) { ercd := .E_OK, id := 1 } ::
      [.ret (.sig_sem 1 1) { ercd := .E_OK }, .ret (.wait (.sem 1 2 TMO_POL)) { ercd := .E_OK }])
    (by decide +kernel)
  have hunits := units_conserved (s := 0) (sampleRun_reachable hk) hlive hlog rfl rfl (by decide)
  exact ⟨k, hk, hunits.1.trans (by decide), hunits.2.2.2.2⟩

end TsukumoCore
