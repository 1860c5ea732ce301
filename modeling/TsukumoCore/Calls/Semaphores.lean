import TsukumoCore.Calls.Waits
import TsukumoCore.Objects.Tables

/-! # The calls on semaphores -/

namespace TsukumoCore

variable {e : Entries} {k : Kernel} {times : List Nat} {t : TskId} {s : SemId}

theorem live_sem_iff (x : Objects) (s : SemId) : x.Live (.sem s) ↔ noexs (x.semcbs s).semid = false := Iff.rfl

theorem sem_id (h : Core k.toTasks k.toObjects) (s : SemId) :
    (k.semcbs s).semid &&& ~~~NOEXS_MASK = BitVec.ofNat 32 (s + 1) := h.tables.id (.sem s)

/-! ## Creation -/

theorem wait_queue_dead {o : Obj} (h : Core k.toTasks k.toObjects) (hfree : k.Free o) :
    Function.update k.wait_queue o [] = k.wait_queue := by
  rw [← h.tables.empty o ((h.tables.free o).mp hfree), Function.update_eq_self]

theorem tasks_dead {o : Obj} (h : Core k.toTasks k.toObjects) (hfree : k.Free o) :
    ({ k.toTasks with wait_queue := Function.update k.wait_queue o [] } : Tasks) = k.toTasks := by
  rw [wait_queue_dead h hfree]

theorem createSem_core {q : Tasks} {x : Objects} (h : Core q x) {rest : List SemId}
    (hhead : x.free_semcb = s :: rest) {c : SEMCB} (hid : c.semid = (x.semcbs s).semid &&& ~~~NOEXS_MASK)
    (hmax : 1 ≤ c.maxsem ∧ c.maxsem ≤ TK_SEMAPHORE_MAXCNT) (hcnt : 0 ≤ c.semcnt ∧ c.semcnt ≤ c.maxsem) :
    Core q (({ x with free_semcb := rest } : Objects).setSem s c) ∧
      ((∀ o, Served q x o) → ∀ o, Served q (({ x with free_semcb := rest } : Objects).setSem s c) o) := by
  have hnodup := h.tables.sem_nodup
  rw [hhead, List.nodup_cons] at hnodup
  have hcb := cb_setSem { x with free_semcb := rest } s c
  refine h.alloc (o := .sem s) (by simp [Objects.Free, hhead]) ?_ ?_ ?_ hnodup.2 h.tables.flg_nodup
    h.tables.mbx_nodup ?_ ?_
  · rw [hcb, if_pos rfl]; exact hid
  · intro o ho
    rw [hcb, if_neg ho]
    cases o <;> rfl
  · intro o
    cases o with
    | sem s' =>
      simp only [Objects.Free, Objects.setSem, hhead, List.mem_cons, ne_eq, Obj.sem.injEq]
      by_cases hs : s' = s
      · subst hs; simp [hnodup.1]
      · simp [hs]
    | flg f => simp [Objects.Free, Objects.setSem]
    | mbx m => simp [Objects.Free, Objects.setSem]
  · rw [hcb, if_pos rfl]; exact ⟨hmax, hcnt, by simp⟩
  · rw [hcb, if_pos rfl]; simp [CB.Served, SemServed]

theorem tk_cre_sem_returns (h : Good k) (pk_csem : Option T_CSEM) :
    Returns e k (.cre_sem pk_csem) times (tk_cre_sem k pk_csem).1 (tk_cre_sem k pk_csem).2 := by
  unfold tk_cre_sem
  split
  · exact .refused h (silent_of_refused _ (by simp))
  rename_i pk
  split
  · exact .refused h (silent_of_refused _ (by simp))
  split
  · exact .refused h (silent_of_refused _ (by simp))
  rename_i hatr hpar
  dsimp only
  split
  · rw [DI_EI]; exact .refused h (silent_of_refused _ (by simp))
  rename_i s rest hfree
  have hhead : k.free_semcb = s :: rest := hfree
  have hmem : k.Free (.sem s) := by simp [Objects.Free, hhead]
  have htasks := tasks_dead h.core hmem
  have hid : ((k.DI.semcbs s).semid &&& ~~~NOEXS_MASK).toInt = s + 1 := by
    have := id_toInt (.sem s)
    rw [← h.core.tables.id (.sem s)] at this
    exact this
  obtain ⟨hcore, hserved⟩ := createSem_core h.core hhead
    (c := ⟨(k.semcbs s).semid &&& ~~~NOEXS_MASK, pk.exinf, pk.sematr, pk.isemcnt, pk.maxsem⟩) rfl
    (by simp only; omega) (by simp only; omega)
  generalize hr : ({ ercd := .E_OK, id := ((k.DI.semcbs s).semid &&& ~~~NOEXS_MASK).toInt } : Ret) = r
  have hrid : r.id = s + 1 := by rw [← hr]; exact hid
  have hrok : r.ercd = .E_OK := by rw [← hr]
  refine .ofPlain h hcore htasks rfl rfl hserved ?_ ?_
  · intro hu s' hlive
    by_cases hs : s' = s
    · subst hs
      rw [Ledger.step, createdSem_self pk hrok hrid]
      simp [Objects.setSem]
    · rw [Ledger.step, createdSem_other pk hrid hs]
      have := hu s' (by simpa [Objects.Live, Objects.cb, CB.id, Objects.setSem, hs] using hlive)
      simpa [Objects.setSem, hs, unitsDelta, signalled, granted] using this
  · intro hm m msg hlive
    rw [step_silent ⟨rfl, rfl⟩]
    exact hm m msg hlive

/-! ## Requests -/

theorem reqs_length (q : Tasks) (s : SemId) : (reqs q s).length = (q.wait_queue (.sem s)).length := by
  simp [reqs_eq]

theorem SemServed.less {cb : SEMCB} {l : List Int} (h : SemServed cb l) {n : Int} (hn : n ≤ cb.semcnt) :
    SemServed { cb with semcnt := n } l := by
  unfold SemServed at *
  split at h
  · rename_i hatr
    rw [if_pos hatr]
    intro r hr
    have := h r hr
    simp only; omega
  · rename_i hatr
    rw [if_neg hatr]
    intro r hr
    have := h r hr
    simp only; omega

theorem not_may_take {cnt : Int} (h : may_take k s t cnt = false) :
    (k.semcbs s).semcnt < cnt ∨ (k.semcbs s).sematr &&& TA_CNT = 0 ∧
      ∃ head, (k.wait_queue (.sem s)).head? = some head ∧
        ¬ ((k.semcbs s).sematr &&& TA_TPRI ≠ 0 ∧ (k.tcbs t).itskpri < (k.tcbs head).itskpri) := by
  by_cases hless : (k.semcbs s).semcnt < cnt
  · exact .inl hless
  right
  have hge : (k.semcbs s).semcnt ≥ cnt := by omega
  unfold may_take at h
  simp only [hge, decide_true, true_and] at h
  split at h
  · rename_i hcond
    obtain ⟨hne, hatr⟩ := hcond
    cases hq : k.wait_queue (.sem s) with
    | nil => exact absurd hq hne
    | cons head rest =>
      rw [hq] at h
      refine ⟨hatr, head, rfl, ?_⟩
      simpa using h
  · simp at h

theorem may_take_le {cnt : Int} (h : may_take k s t cnt = true) : cnt ≤ (k.semcbs s).semcnt := by
  unfold may_take at h
  dsimp only at h
  split at h
  · rename_i hcond
    simpa using hcond.1
  · simpa using h

theorem SemRange.insert {cb : SEMCB} {l : List Int} (h : SemRange cb l) {cnt : Int} (hcnt : 0 < cnt)
    (hmax : cnt ≤ cb.maxsem) (n : Nat) : SemRange cb (l.take n ++ cnt :: l.drop n) := by
  refine ⟨h.max, h.cnt, ?_⟩
  intro r hr
  rcases List.mem_append.mp hr with hr | hr
  · exact h.req r (List.mem_of_mem_take hr)
  · rcases List.mem_cons.mp hr with rfl | hr
    · exact ⟨hcnt, hmax⟩
    · exact h.req r (List.mem_of_mem_drop hr)

theorem mayWait_sem (h : Good k) (hlive : k.Live (.sem s)) {semid cnt : Int} (tmout : Int)
    (he : tableEntry CFN_MAX_SEMID semid = some s) (hcnt : 0 < cnt) (hmax : cnt ≤ (k.semcbs s).maxsem)
    (htake : may_take k s t cnt = false) :
    MayWait k t (.sem semid cnt tmout)
      (queueBy k.toTasks t (k.semcbs s).sematr (k.wait_queue (.sem s))) := by
  have hobj : (WaitCall.sem semid cnt tmout).obj = some (.sem s) := by simp [WaitCall.obj, he]
  refine ⟨fun hnone => by simp [hobj] at hnone, fun o ho => ?_⟩
  obtain rfl : o = .sem s := by simpa [hobj] using ho.symm
  obtain ⟨ahead, behind, hq, hplace, hfirst⟩ :=
    queueBy_split k.toTasks t (k.semcbs s).sematr (k.wait_queue (.sem s))
  have hrange : SemRange (k.semcbs s) (reqs k.toTasks s) := h.core.range _ hlive
  refine ⟨hlive, ahead, behind, hq, hplace, fun infos' hinfos => ?_⟩
  have hreqs : infos'.map WaitInfo.semcnt =
      (reqs k.toTasks s).take ahead.length ++ cnt :: (reqs k.toTasks s).drop ahead.length := by
    rw [hinfos]
    simp [reqs, WaitCall.info, he, WaitInfo.semcnt, List.map_take, List.map_drop]
  constructor
  · suffices SemRange (k.semcbs s) (infos'.map WaitInfo.semcnt) from this
    rw [hreqs]
    exact hrange.insert hcnt hmax _
  · intro hserved
    have hserved : SemServed (k.semcbs s) (reqs k.toTasks s) := hserved
    suffices SemServed (k.semcbs s) (infos'.map WaitInfo.semcnt) from this
    rw [hreqs]
    unfold SemServed at hserved ⊢
    split at hserved
    · rename_i hatr
      rw [if_pos hatr]
      intro r hr
      by_cases hnil : ahead = []
      · -- the task comes first: then it was the units that were missing
        subst hnil
        have hrc : cnt = r := by simpa using hr
        rcases not_may_take htake with hless | ⟨-, head, hhead, hnot⟩
        · omega
        · exact absurd (hfirst.mp rfl head hhead) hnot
      · refine hserved r ?_
        have hpos : 0 < ((reqs k.toTasks s).take ahead.length).length := by
          have := List.length_pos_iff.mpr hnil
          simp only [List.length_take, reqs_length, hq, List.length_append]
          omega
        rw [List.head?_append_of_ne_nil _ (List.length_pos_iff.mp hpos)] at hr
        rw [← List.take_append_drop ahead.length (reqs k.toTasks s),
          List.head?_append_of_ne_nil _ (List.length_pos_iff.mp hpos)]
        exact hr
    · rename_i hatr
      rw [if_neg hatr]
      intro r hr
      rcases List.mem_append.mp hr with hr | hr
      · exact hserved r (List.mem_of_mem_take hr)
      · rcases List.mem_cons.mp hr with rfl | hr
        · rcases not_may_take htake with hless | ⟨hzero, -⟩
          · exact hless
          · exact absurd hzero hatr
        · exact hserved r (List.mem_of_mem_drop hr)

theorem taken_returns (h : Good k) (hlive : k.Live (.sem s)) {semid cnt tmout : Int}
    (he : tableEntry CFN_MAX_SEMID semid = some s) (hcnt : 0 < cnt) (hle : cnt ≤ (k.semcbs s).semcnt) :
    Returns e k (.wait (.sem semid cnt tmout)) times { ercd := .E_OK }
      ((addSemcnt k.DI s (-cnt)).EI k.mie) := by
  have hrange : SemRange (k.semcbs s) (reqs k.toTasks s) := h.core.range _ hlive
  have hmax := hrange.max
  have hc := hrange.cnt
  simp only [TK_SEMAPHORE_MAXCNT] at hmax
  have hcore := h.core.setCnt (s := s) (n := (k.semcbs s).semcnt + -cnt) hlive (by omega)
  rw [addSemcnt_eq (by simp only [inINT, DI_toObjects]; omega)]
  refine .ofPlain h hcore rfl rfl rfl ?_ ?_ ?_
  · intro hall o hl
    have hcb := cb_setSem k.toObjects s { k.semcbs s with semcnt := (k.semcbs s).semcnt + -cnt } o
    by_cases ho : o = .sem s
    · subst ho
      rw [hcb, if_pos rfl]
      have hs : SemServed (k.semcbs s) (reqs k.toTasks s) := hall _ hlive
      exact hs.less (by omega)
    · rw [hcb, if_neg ho]
      refine hall o ?_
      rw [Objects.Live, hcb, if_neg ho] at hl
      exact hl
  · intro hu s' hl
    by_cases hs : s' = s
    · subst hs
      have := hu s' hlive
      simp only [Objects.setSem, Function.update_self, Ledger.step, createdSem, unitsDelta, signalled,
        granted, he, Option.getD_none, and_self, if_true]
      omega
    · have := hu s' (by simpa [Objects.Live, Objects.cb, CB.id, Objects.setSem, hs] using hl)
      simpa [Objects.setSem, hs, Ledger.step, createdSem, unitsDelta, signalled, granted, he,
        Ne.symm hs] using this
  · intro hm m msg hl
    rw [step_silent ⟨rfl, rfl⟩]
    exact hm m msg hl

theorem tk_wai_sem_outcome (h : Good k) (hcan : canCall k = true) (semid cnt tmout : Int) :
    Outcome e k (.wait (.sem semid cnt tmout)) times
      (leave_call (tk_wai_sem k semid cnt tmout times).2 (.wait (.sem semid cnt tmout))
        (tk_wai_sem k semid cnt tmout times).1) := by
  unfold tk_wai_sem
  split
  · exact .refused h (silent_of_refused _ (by simp))
  rename_i s he
  split
  · exact .refused h (silent_of_refused _ (by simp))
  rename_i hpar
  dsimp only
  split
  · rw [DI_EI]; exact .refused h (silent_of_refused _ (by simp))
  rename_i hblock
  split
  · rw [DI_EI]; exact .refused h (silent_of_refused _ (by simp))
  rename_i hexs
  split
  · rw [DI_EI]; exact .refused h (silent_of_refused _ (by simp))
  rename_i hmax
  have hlive : k.Live (.sem s) := by simpa [Objects.Live, Objects.cb, CB.id] using hexs
  have hmax : cnt ≤ (k.semcbs s).maxsem := by simpa using hmax
  obtain ⟨hmie, t, ht, hrun, hpend, hidle⟩ := h.caller hcan (by simpa using hblock)
  simp only [show k.DI.current = some t from ht]
  split
  · rename_i htake
    exact (taken_returns h hlive he (by omega) (may_take_le htake)).outcome
  rename_i htake
  split
  · rw [DI_EI]; exact .refused h (silent_of_refused _ (by simp))
  have hmay := mayWait_sem h hlive tmout he (by omega) hmax (Bool.eq_false_iff.mpr htake)
  have hobj : (WaitCall.sem semid cnt tmout).obj = some (.sem s) := by simp [WaitCall.obj, he]
  have hreq : (k.DI.tasks fun q =>
      insert_by_atr ((q.setTcb t fun c => { c with winfo := .semaphore cnt s }).init_wait t) t (.sem s)
        (k.DI.semcbs s).sematr) = k.DI.tasks (·.requestFor t (.sem semid cnt tmout)
          (queueBy k.toTasks t (k.semcbs s).sematr (k.wait_queue (.sem s)))) := by
    have hlink := h.core.tasks.wait_link_self (t := t) (by simp [hrun])
    simp only [Kernel.tasks, DI_toTasks]
    rw [insert_by_atr_eq hlink, requestFor_some hobj]
    simp [WaitCall.info, he]
  rw [hreq]
  exact .queued h hmie ht hrun hpend hidle hmay rfl

/-! ## Signals -/

theorem serves_wake {m : Move} (hm : serves s m) :
    ∃ t w cause, m = .wake t w cause ∧ cause ≠ .E_TMOUT ∧ w.kind = .SEM := by
  obtain ⟨t, w, rfl, hobj⟩ := hm
  exact ⟨t, w, .E_OK, rfl, by simp, WaitCall.kind_of_obj hobj⟩

theorem mail_of_wakes {P : Move → Prop} {q q' : Tasks} (hd : Does P q q')
    (hP : ∀ m, P m → ∃ t w cause, m = .wake t w cause) (m : MbxId) (msg : UINT) :
    mail m msg q'.log = mail m msg q.log := by
  refine Does.balance hd fun m' q hm' ha ev hev => ?_
  obtain ⟨t, w, cause, rfl⟩ := hP m' hm'
  exact silent_wake ha m msg ev hev

theorem signal_returns (h : Good k) (hlive : k.Live (.sem s)) {semid cnt : Int}
    (he : tableEntry CFN_MAX_SEMID semid = some s) (hcnt : 0 < cnt)
    (hroom : cnt ≤ (k.semcbs s).maxsem - (k.semcbs s).semcnt) :
    Returns e k (.sig_sem semid cnt) times { ercd := .E_OK }
      ((request_switch (tkmc_sem_serve_waiters (addSemcnt k.DI s cnt) s)).EI k.mie) := by
  have hrange : SemRange (k.semcbs s) (reqs k.toTasks s) := h.core.range _ hlive
  have hmax := hrange.max
  have hc := hrange.cnt
  simp only [TK_SEMAPHORE_MAXCNT] at hmax
  have hcore := h.core.setCnt (s := s) (n := (k.semcbs s).semcnt + cnt) hlive (by omega)
  rw [addSemcnt_eq (by simp only [inINT, DI_toObjects]; omega)]
  obtain ⟨hserves, hserved⟩ := serve_waiters_spec (s := s)
    (k := k.DI.setSem s { k.DI.semcbs s with semcnt := (k.DI.semcbs s).semcnt + cnt }) hcore
  generalize tkmc_sem_serve_waiters (k.DI.setSem s
    { k.DI.semcbs s with semcnt := (k.DI.semcbs s).semcnt + cnt }) s = k' at hserves hserved ⊢
  obtain ⟨n, hn⟩ := hserves.objects
  have hsame : ∀ o, o ≠ .sem s → (k.toObjects.setSem s { k.semcbs s with semcnt := (k.semcbs s).semcnt + cnt }).cb o =
      k.cb o := fun o ho => by rw [cb_setSem, if_neg ho]
  refine .ofRequest h hserves.does ?_ hserves.machine hserves.core ?_ ?_ ?_
  · intro m hm
    obtain ⟨t, w, cause, rfl, hcause, hkind⟩ := serves_wake hm
    exact ⟨⟨hcause, fun _ => by rw [hkind]; trivial⟩, rfl⟩
  · intro hall o
    by_cases ho : o = .sem s
    · subst ho; exact hserved
    · refine hserves.served hcore ho ?_
      have hso := hsame o ho
      intro hl
      rw [show (k.DI.setSem s { k.DI.semcbs s with semcnt := (k.DI.semcbs s).semcnt + cnt }).toObjects.cb o =
        k.cb o from hso]
      refine hall o ?_
      rw [Objects.Live, ← hso]
      exact hl
  · intro hu s' hl
    have hb := hserves.balance s'
    have hl' := (hserves.ends.objects.live (.sem s')).mp hl
    by_cases hs : s' = s
    · subst hs
      have := hu s' hlive
      simp only [Kernel.setSem, Function.update_self, DI_toTasks, DI_toObjects] at hb
      simp only [Ledger.step, createdSem, unitsDelta, signalled, granted, he, Option.getD_none, and_self,
        if_true]
      omega
    · have := hu s' (by
        rw [Objects.Live, ← hsame (.sem s') (by simpa using hs)]
        exact hl')
      simp only [Kernel.setSem, Function.update_of_ne hs, DI_toTasks, DI_toObjects] at hb
      simp only [Ledger.step, createdSem, unitsDelta, signalled, granted, he, Option.getD_none,
        Option.some.injEq, Ne.symm hs, and_false, if_false]
      omega
  · intro hm m msg hl
    have hmbx := congrArg Objects.mbxcbs hn
    rw [step_silent ⟨rfl, rfl⟩, mail_of_wakes hserves.does fun m' hm' => ?_, hmbx]
    · refine hm m msg ?_
      rw [Objects.Live, Objects.cb, hmbx] at hl
      exact hl
    · obtain ⟨t, w, cause, rfl, -⟩ := serves_wake hm'
      exact ⟨t, w, cause, rfl⟩

theorem tk_sig_sem_eq (h : Core k.toTasks k.toObjects) {semid cnt : Int}
    (he : tableEntry CFN_MAX_SEMID semid = some s) (hlive : k.Live (.sem s)) (hcnt : 0 < cnt) :
    tk_sig_sem k semid cnt =
      if cnt > (k.semcbs s).maxsem - (k.semcbs s).semcnt then (.E_QOVR, k)
      else (.E_OK, (request_switch (tkmc_sem_serve_waiters (addSemcnt k.DI s cnt) s)).EI k.mie) := by
  have hrange : SemRange (k.semcbs s) (reqs k.toTasks s) := h.range _ hlive
  have hroom : inINT ((k.DI.semcbs s).maxsem - (k.DI.semcbs s).semcnt) := by
    have hmax := hrange.max
    have hc := hrange.cnt
    simp only [TK_SEMAPHORE_MAXCNT, inINT, DI_toObjects] at *
    omega
  have hcheck : (k.DI.tasks (·.check (inINT ((k.DI.semcbs s).maxsem - (k.DI.semcbs s).semcnt))
      .intOverflow)) = k.DI := by
    simp only [Kernel.tasks, Tasks.check, hroom, if_true]
  unfold tk_sig_sem
  simp only [he]
  rw [if_neg (by omega), if_neg (by simpa [live_sem_iff] using hlive), hcheck, DI_EI]
  rfl

theorem tk_sig_sem_returns (h : Good k) (semid cnt : Int) :
    Returns e k (.sig_sem semid cnt) times { ercd := (tk_sig_sem k semid cnt).1 }
      (tk_sig_sem k semid cnt).2 := by
  have hrefused : ∀ ercd, ercd ≠ .E_OK → tk_sig_sem k semid cnt = (ercd, k) →
      Returns e k (.sig_sem semid cnt) times { ercd := (tk_sig_sem k semid cnt).1 } (tk_sig_sem k semid cnt).2 := by
    intro ercd hne heq
    rw [heq]
    exact .refused h (silent_of_refused _ hne)
  cases he : tableEntry CFN_MAX_SEMID semid with
  | none => exact hrefused .E_ID (by simp) (by simp [tk_sig_sem, he])
  | some s =>
    by_cases hcnt : cnt ≤ 0
    · exact hrefused .E_PAR (by simp) (by simp [tk_sig_sem, he, hcnt])
    by_cases hexs : noexs (k.semcbs s).semid = true
    · refine hrefused .E_NOEXS (by simp) ?_
      simp only [tk_sig_sem, he, hcnt, if_false, DI_toObjects, hexs, if_true, DI_EI]
    have hlive : k.Live (.sem s) := Bool.eq_false_iff.mpr hexs
    have heq := tk_sig_sem_eq h.core he hlive (show 0 < cnt by omega)
    by_cases hroom : cnt > (k.semcbs s).maxsem - (k.semcbs s).semcnt
    · rw [if_pos hroom] at heq
      exact hrefused .E_QOVR (by simp) heq
    · rw [if_neg hroom] at heq
      rw [heq]
      exact signal_returns h hlive he (by omega) (by omega)

/-! ## Deletion -/

theorem release_all_spec (fuel : Nat) (released : Bool) (h : Core k.toTasks k.toObjects)
    (hfuel : (k.wait_queue (.sem s)).length ≤ fuel) :
    Ends (fun m => ∃ t w, m = .wake t w .E_DLT) k (release_all s fuel released k).2 ∧
      (release_all s fuel released k).2.wait_queue (.sem s) = [] ∧
      (∀ o, o ≠ .sem s → Served k.toTasks k.toObjects o →
        Served (release_all s fuel released k).2.toTasks (release_all s fuel released k).2.toObjects o) ∧
      ((release_all s fuel released k).1 = true ∨ release_all s fuel released k = (released, k)) ∧
      (release_all s fuel released k).2.toObjects = k.toObjects := by
  induction fuel generalizing k released with
  | zero =>
    have hnil : k.wait_queue (.sem s) = [] := List.length_eq_zero_iff.mp (by omega)
    exact ⟨.refl h, hnil, fun o _ hs => hs, .inr rfl, rfl⟩
  | succ fuel ih =>
    cases hq : k.wait_queue (.sem s) with
    | nil =>
      have hsame : release_all s (fuel + 1) released k = (released, k) := by simp [release_all, hq]
      rw [hsame]
      exact ⟨.refl h, hq, fun o _ hs => hs, .inr rfl, rfl⟩
    | cons t rest =>
      have hmem : t ∈ k.wait_queue (.sem s) := by simp [hq]
      obtain ⟨hs, w, hp, hobj⟩ := h.tasks.pending_of_mem hmem
      have ha : (Move.wake t w .E_DLT).Allowed k.toTasks := ⟨hs, hp, by simp, by simp⟩
      have hwake := wake_ends h ha (by simp)
      have hstep : release_all s (fuel + 1) released k =
          release_all s fuel true (k.tasks (Move.wakeEffect · t .E_DLT)) := by
        rw [← complete_wait_eq h.tasks.toPlaced hs (by simp)]
        simp [release_all, hq]
      have hlen : ((k.tasks (Move.wakeEffect · t .E_DLT)).wait_queue (.sem s)).length ≤ fuel := by
        simp only [Kernel.tasks, Move.wakeEffect, hq, List.erase_cons_head]
        rw [hq, List.length_cons] at hfuel
        omega
      obtain ⟨hends, hnil, hserved, hrel, hobjs⟩ := ih true hwake.core hlen
      rw [hstep]
      refine ⟨(hwake.mono fun m hm => ⟨t, w, hm⟩).trans hends, hnil, ?_, ?_, hobjs⟩
      · intro o ho hso
        refine hserved o ho (wake_served h ha (fun s' _ heq => ho ?_) hso)
        rw [hobj] at heq
        exact (Option.some.inj heq).symm
      · rcases hrel with hrel | hrel
        · exact .inl hrel
        · rw [hrel]; exact .inl rfl

/-- The tables after a semaphore was deleted. -/
def Objects.dropSem (x : Objects) (s : SemId) : Objects :=
  { x.setSem s
      { semid := (x.semcbs s).semid ||| NOEXS_MASK, exinf := NULL, sematr := 0, semcnt := 0, maxsem := 0 } with
    free_semcb := x.free_semcb ++ [s] }

theorem cb_dropSem (x : Objects) {s : SemId} {o : Obj} (ho : o ≠ .sem s) : (x.dropSem s).cb o = x.cb o := by
  have := cb_setSem x s
    { semid := (x.semcbs s).semid ||| NOEXS_MASK, exinf := NULL, sematr := 0, semcnt := 0, maxsem := 0 } o
  rw [if_neg ho] at this
  rw [← this]
  cases o <;> rfl

theorem dropSem_dead (x : Objects) (s : SemId) : ¬ (x.dropSem s).Live (.sem s) := by
  simp [Objects.Live, Objects.dropSem, Objects.setSem, Objects.cb, CB.id, noexs_or_mask]

theorem dropSem_core {q : Tasks} {x : Objects} (h : Core q x) (hlive : x.Live (.sem s))
    (hempty : q.wait_queue (.sem s) = []) :
    Core q (x.dropSem s) ∧ ((∀ o, o ≠ .sem s → Served q x o) → ∀ o, Served q (x.dropSem s) o) := by
  have hfree : s ∉ x.free_semcb := fun hin => (h.tables.free (.sem s)).mp hin hlive
  refine h.dealloc hempty ?_ ?_ (fun o ho => cb_dropSem x ho) ?_ ?_ h.tables.flg_nodup h.tables.mbx_nodup
  · have hid := h.tables.id (.sem s)
    rw [← hid]
    simp [Objects.dropSem, Objects.setSem, Objects.cb, CB.id, or_mask_and]
  · simp [Objects.dropSem, Objects.setSem, Objects.cb, CB.id, noexs_or_mask]
  · intro o
    cases o with
    | sem s' => simp [Objects.Free, Objects.dropSem]
    | flg f => simp [Objects.Free, Objects.dropSem, Objects.setSem]
    | mbx m => simp [Objects.Free, Objects.dropSem, Objects.setSem]
  · refine List.nodup_append.mpr ⟨h.tables.sem_nodup, List.nodup_singleton s, ?_⟩
    intro a ha b hb hab
    rw [List.mem_singleton.mp hb] at hab
    exact hfree (hab ▸ ha)

theorem dropSem_cnt {q : Tasks} {x : Objects} (hu : UnitsOk q x) {s' : SemId}
    (hlive : (x.dropSem s).Live (.sem s')) :
    ((x.dropSem s).semcbs s').semcnt = units s' q.log := by
  have hs : s' ≠ s := by
    rintro rfl
    exact dropSem_dead x s' hlive
  have hcb := cb_dropSem x (s := s) (o := .sem s') (by simpa using hs)
  rw [Objects.Live, hcb] at hlive
  have := hu s' hlive
  simpa [Objects.dropSem, Objects.setSem, hs] using this

theorem tk_del_sem_returns (h : Good k) (semid : Int) :
    Returns e k (.del_sem semid) times { ercd := (tk_del_sem k semid).1 } (tk_del_sem k semid).2 := by
  have hsilent : ∀ r, SilentEvent (.ret (.del_sem semid) r) :=
    fun r => ⟨fun _ => ⟨rfl, rfl⟩, fun _ _ => ⟨rfl, rfl⟩⟩
  unfold tk_del_sem
  split
  · exact .refused h (hsilent _)
  rename_i s he
  dsimp only
  split
  · rw [DI_EI]; exact .refused h (hsilent _)
  rename_i hexs
  have hlive : k.Live (.sem s) := by simpa [Objects.Live, Objects.cb, CB.id] using hexs
  obtain ⟨hends, hempty, hserved, hrel, hobj⟩ :=
    release_all_spec (k := k.DI) (s := s) (k.DI.wait_queue (.sem s)).length false h.core le_rfl
  generalize release_all s (k.DI.wait_queue (.sem s)).length false k.DI = res at *
  obtain ⟨released, k1⟩ := res
  dsimp only at hends hempty hserved hrel hobj ⊢
  have hobj' : k1.toObjects = k.toObjects := hobj
  obtain ⟨hcore, hserved'⟩ := dropSem_core (s := s) hends.core (by rw [hobj']; exact hlive) hempty
  rw [hobj'] at hcore
  have hall : (∀ o, Served k.toTasks k.toObjects o) →
      ∀ o, Served k1.toTasks (k.toObjects.dropSem s) o := by
    intro hall
    rw [← hobj']
    exact hserved' fun o ho => hserved o ho (hall o)
  have hunits : UnitsOk k.toTasks k.toObjects → UnitsOk k1.toTasks k.toObjects := by
    intro hu s' hl
    have hb := hends.balance s'
    rw [hobj'] at hb
    have := hu s' hl
    simp only [DI_toTasks, DI_toObjects] at hb
    omega
  have hmail : MailOk k.toTasks k.toObjects → MailOk k1.toTasks k.toObjects := by
    intro hm m msg hl
    have hb : mail m msg k1.log = mail m msg k.log := by
      refine mail_of_wakes hends.does (fun m' hm' => ?_) m msg
      obtain ⟨t, w, rfl⟩ := hm'
      exact ⟨t, w, _, rfl⟩
    rw [hb]
    exact hm m msg hl
  have hafter : ∀ q, UnitsOk q k.toObjects → ∀ s', (k.toObjects.dropSem s).Live (.sem s') →
      ((k.toObjects.dropSem s).semcbs s').semcnt =
        Ledger.step (createdSem s') (unitsDelta s') (units s' q.log) (.ret (.del_sem semid) { ercd := .E_OK }) := by
    intro q hu s' hl
    rw [step_silent ((hsilent _).1 s')]
    exact dropSem_cnt hu hl
  split
  · refine .ofRequest h hends.does ?_ hends.machine ?_ ?_ ?_ ?_
    · rintro m ⟨t, w, rfl⟩
      exact ⟨by simp [callMoves], rfl⟩
    · rw [← hobj'] at hcore; exact hcore
    · rw [← hobj'] at hall ⊢; exact hall
    · intro hu
      have := hafter k1.toTasks (hunits hu)
      rw [← hobj'] at this
      exact this
    · intro hm m msg hl
      rw [step_silent ((hsilent _).2 m msg)]
      have := hmail hm m msg
      rw [← hobj'] at this
      exact this hl
  · rename_i hfalse
    -- nobody waited, and the tasks are as they were
    rcases hrel with hrel | hrel
    · exact absurd hrel hfalse
    have hk1 : k1 = k.DI := (Prod.ext_iff.mp hrel).2
    subst hk1
    refine .ofPlain h hcore rfl rfl rfl hall (hafter k.toTasks) ?_
    intro hm m msg hl
    rw [step_silent ((hsilent _).2 m msg)]
    exact hm m msg hl

end TsukumoCore
