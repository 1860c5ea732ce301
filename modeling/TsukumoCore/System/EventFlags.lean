import TsukumoCore.System.Boot

/-! # Event flags over a run -/

namespace TsukumoCore

variable {b : Boot} {k : Kernel} {f : FlgId}

/-- A pattern has one of the bits waited for (`TWF_ORW`), or all of them. -/
def Satisfies (flgptn waiptn wfmode : UINT) : Prop :=
  if wfmode &&& TWF_ORW ≠ 0 then ∃ i, flgptn.getLsbD i = true ∧ waiptn.getLsbD i = true
  else ∀ i, waiptn.getLsbD i = true → flgptn.getLsbD i = true

theorem check_ptn_iff (flgptn waiptn wfmode : UINT) :
    check_ptn flgptn waiptn wfmode = true ↔ Satisfies flgptn waiptn wfmode := by
  unfold check_ptn Satisfies
  split
  · rw [decide_eq_true_iff, ne_eq, ← not_iff_not, not_not]
    constructor
    · rintro hzero ⟨i, hf, hw⟩
      have := congrArg (·.getLsbD i) hzero
      simp [hf, hw] at this
    · intro hnone
      apply BitVec.eq_of_getLsbD_eq
      intro i hi
      have hzero : BitVec.getLsbD (0 : UINT) i = false := BitVec.getLsbD_zero
      rw [BitVec.getLsbD_and, hzero, Bool.and_eq_false_iff]
      by_contra hboth
      simp only [not_or, Bool.not_eq_false] at hboth
      exact hnone ⟨i, hboth⟩
  · rw [decide_eq_true_iff]
    constructor
    · intro hall i hw
      have := congrArg (·.getLsbD i) hall
      simpa [hw] using this
    · intro hall
      apply BitVec.eq_of_getLsbD_eq
      intro i hi
      rw [BitVec.getLsbD_and]
      cases hw : waiptn.getLsbD i with
      | false => simp
      | true => simp [hall i hw]

/-- **No satisfied waiter is left, and a flag without `TA_WMUL` has one waiter at most.** -/
theorem no_satisfied_waiter (h : Reachable b k) (hlive : noexs (k.flgcbs f).flgid = false) :
    (∀ t ∈ k.wait_queue (.flg f), ∃ waiptn wfmode flgptn,
      (k.tcbs t).winfo = .event_flag waiptn wfmode flgptn ∧
        ¬ Satisfies (k.flgcbs f).flgptn waiptn wfmode) ∧
    ((k.flgcbs f).flgatr &&& TA_WMUL = 0 → (k.wait_queue (.flg f)).length ≤ 1) := by
  refine ⟨fun t ht => ?_, fun hatr => ?_⟩
  · have hserved := h.inv.served (.flg f) hlive
    obtain ⟨hs, w, hp, hobj⟩ := h.inv.core.tasks.pending_of_mem ht
    have hinfo := h.inv.core.tasks.info t w hs hp
    cases w with
    | flg flgid waiptn wfmode p_flgptn tmout =>
      obtain ⟨-, flgptn, hw⟩ := hinfo
      refine ⟨waiptn, wfmode, flgptn, hw, ?_⟩
      have hmem : (k.tcbs t).winfo ∈ infos k.toTasks (.flg f) := by
        simp only [infos, waiters, List.map_map, List.mem_map]
        exact ⟨t, ht, rfl⟩
      rw [hw] at hmem
      rw [← check_ptn_iff, Bool.not_eq_true]
      exact hserved _ hmem
    | slp | dly => simp [WaitCall.obj] at hobj
    | sem | mbx => simp [WaitCall.obj] at hobj
  · have hrange := h.inv.core.range (.flg f) hlive hatr
    simpa [infos, waiters] using hrange

/-- A task that waits for two bits of a flag, of which one is set. -/
def flgRun : List Act :=
  [.call (.cre_flg (some { exinf := 0, flgatr := 0, iflgptn := 1 })) [],
    .call (.wait (.flg 1 3 0 0x80020000 TMO_FEVR)) []]

theorem no_satisfied_waiter_flgRun : ∃ k, sampleRun flgRun = some k ∧ 0 ∈ k.wait_queue (.flg 0) ∧
    (k.wait_queue (.flg 0)).length ≤ 1 ∧ ∃ waiptn wfmode flgptn,
      (k.tcbs 0).winfo = .event_flag waiptn wfmode flgptn ∧
        ¬ Satisfies (k.flgcbs 0).flgptn waiptn wfmode := by
  obtain ⟨k, hk, hlive, hatr, hmem⟩ := sampleRun_of_any flgRun (fun k =>
    noexs (k.flgcbs 0).flgid = false ∧ (k.flgcbs 0).flgatr &&& TA_WMUL = 0 ∧ 0 ∈ k.wait_queue (.flg 0))
    (by decide +kernel)
  obtain ⟨hall, hone⟩ := no_satisfied_waiter (sampleRun_reachable hk) hlive
  exact ⟨k, hk, hmem, hone hatr, hall 0 hmem⟩

end TsukumoCore
