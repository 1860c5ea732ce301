import TsukumoCore.Calls.EventFlags

/-! # The calls on mailboxes -/

namespace TsukumoCore

variable {e : Entries} {k k' : Kernel} {times : List Nat} {t : TskId} {m : MbxId} {q : Tasks} {x : Objects}

/-- The tables with the control block of one mailbox changed. -/
def Objects.setMbx (x : Objects) (m : MbxId) (c : MBXCB) : Objects :=
  { x with mbxcbs := Function.update x.mbxcbs m c }

theorem cb_setMbx (x : Objects) (m : MbxId) (c : MBXCB) (o : Obj) :
    (x.setMbx m c).cb o = if o = .mbx m then .mbx c else x.cb o := by
  cases o with
  | mbx m' =>
    by_cases hm : m' = m
    · subst hm; simp [Objects.cb, Objects.setMbx]
    · simp [Objects.cb, Objects.setMbx, hm]
  | sem s => simp [Objects.cb, Objects.setMbx]
  | flg f => simp [Objects.cb, Objects.setMbx]

/-! ## Creation -/

theorem createMbx_core (h : Core q x) {rest : List MbxId} (hhead : x.free_mbxcb = m :: rest) {c : MBXCB}
    (hid : c.mbxid = (x.mbxcbs m).mbxid &&& ~~~NOEXS_MASK) :
    Core q (({ x with free_mbxcb := rest } : Objects).setMbx m c) ∧
      ((∀ o, Served q x o) → ∀ o, Served q (({ x with free_mbxcb := rest } : Objects).setMbx m c) o) := by
  have hnodup := h.tables.mbx_nodup
  rw [hhead, List.nodup_cons] at hnodup
  have hcb := cb_setMbx { x with free_mbxcb := rest } m c
  refine h.alloc (o := .mbx m) (by simp [Objects.Free, hhead]) ?_ ?_ ?_ h.tables.sem_nodup
    h.tables.flg_nodup hnodup.2 ?_ ?_
  · rw [hcb, if_pos rfl]; exact hid
  · intro o ho
    rw [hcb, if_neg ho]
    cases o <;> rfl
  · intro o
    cases o with
    | mbx m' =>
      simp only [Objects.Free, Objects.setMbx, hhead, List.mem_cons, ne_eq, Obj.mbx.injEq]
      by_cases hm : m' = m
      · subst hm; simp [hnodup.1]
      · simp [hm]
    | sem s => simp [Objects.Free, Objects.setMbx]
    | flg f => simp [Objects.Free, Objects.setMbx]
  · rw [hcb, if_pos rfl]; trivial
  · rw [hcb, if_pos rfl]; simp [CB.Served]

theorem tk_cre_mbx_returns (h : Good k) (pk_cmbx : Option T_CMBX) :
    Returns e k (.cre_mbx pk_cmbx) times (tk_cre_mbx k pk_cmbx).1 (tk_cre_mbx k pk_cmbx).2 := by
  unfold tk_cre_mbx
  split
  · exact .refused h (silent_of_refused _ (by simp))
  rename_i pk
  split
  · exact .refused h (silent_of_refused _ (by simp))
  dsimp only
  split
  · rw [DI_EI]; exact .refused h (silent_of_refused _ (by simp))
  rename_i m rest hfree
  have hhead : k.free_mbxcb = m :: rest := hfree
  have hmem : k.Free (.mbx m) := by simp [Objects.Free, hhead]
  have htasks := tasks_dead h.core hmem
  have hid : ((k.DI.mbxcbs m).mbxid &&& ~~~NOEXS_MASK).toInt = m + 1 := by
    have := id_toInt (.mbx m)
    rw [← h.core.tables.id (.mbx m)] at this
    exact this
  obtain ⟨hcore, hserved⟩ := createMbx_core h.core hhead
    (c := ⟨[], (k.mbxcbs m).mbxid &&& ~~~NOEXS_MASK, pk.exinf, pk.mbxatr⟩) rfl
  generalize hr : ({ ercd := .E_OK, id := ((k.DI.mbxcbs m).mbxid &&& ~~~NOEXS_MASK).toInt } : Ret) = r
  have hrid : r.id = m + 1 := by rw [← hr]; exact hid
  have hrok : r.ercd = .E_OK := by rw [← hr]
  refine .ofPlain h hcore htasks rfl rfl hserved ?_ ?_
  · intro hu s hlive
    rw [step_silent ⟨rfl, rfl⟩]
    exact hu s hlive
  · intro hml m' msg hlive
    by_cases hm : m' = m
    · subst hm
      rw [Ledger.step, createdMbx_self pk hrok hrid]
      simp [Objects.setMbx]
    · rw [Ledger.step, createdMbx_other pk hrid hm]
      have := hml m' msg (by simpa [Objects.Live, Objects.cb, CB.id, Objects.setMbx, hm] using hlive)
      simpa [Objects.setMbx, hm, mailDelta, sent, received] using this

/-! ## Receiving -/

theorem id_setQueue (x : Objects) (m : MbxId) (queue : List UINT) (o : Obj) :
    ((x.setMbx m { x.mbxcbs m with mbx_queue := queue }).cb o).id = (x.cb o).id := by
  rw [cb_setMbx]
  split
  · rename_i ho; subst ho; rfl
  · rfl

theorem Core.setQueue (h : Core q x) (queue : List UINT) :
    Core q (x.setMbx m { x.mbxcbs m with mbx_queue := queue }) := by
  refine h.objects (id_setQueue x m queue) rfl rfl rfl ?_
  intro o ho
  rw [cb_setMbx]
  split
  · trivial
  · exact h.range o ho

theorem served_setQueue (hall : ∀ o, Served q x o) {queue : List UINT} (hq : q.wait_queue (.mbx m) = [])
    (o : Obj) : Served q (x.setMbx m { x.mbxcbs m with mbx_queue := queue }) o := by
  intro hlive
  rw [Objects.Live, id_setQueue] at hlive
  rw [cb_setMbx]
  split
  · rename_i ho
    subst ho
    intro hne
    exact absurd (by simp [infos, waiters, hq]) hne
  · exact hall o hlive

theorem no_waiter_of_message (hs : Served q x (.mbx m)) (hlive : x.Live (.mbx m))
    (hne : (x.mbxcbs m).mbx_queue ≠ []) : q.wait_queue (.mbx m) = [] := by
  by_contra hwait
  refine hne (hs hlive ?_)
  simpa [infos, waiters] using hwait

theorem mayWait_mbx (hlive : k.Live (.mbx m)) {mbxid : Int} (ppk_msg : UINT) (tmout : Int)
    (he : tableEntry CFN_MAX_MBXID mbxid = some m) (hqueue : (k.mbxcbs m).mbx_queue = []) :
    MayWait k t (.mbx mbxid ppk_msg tmout)
      (queueBy k.toTasks t (k.mbxcbs m).mbxatr (k.wait_queue (.mbx m))) := by
  have hobj : (WaitCall.mbx mbxid ppk_msg tmout).obj = some (.mbx m) := by simp [WaitCall.obj, he]
  refine ⟨fun hnone => by simp [hobj] at hnone, fun o ho => ?_⟩
  obtain rfl : o = .mbx m := by simpa [hobj] using ho.symm
  obtain ⟨ahead, behind, hq, hplace, -⟩ :=
    queueBy_split k.toTasks t (k.mbxcbs m).mbxatr (k.wait_queue (.mbx m))
  exact ⟨hlive, ahead, behind, hq, hplace, fun _ _ => ⟨trivial, fun _ _ => hqueue⟩⟩

theorem received_returns (h : Good k) {mbxid : Int} {ppk_msg : UINT} {tmout : Int}
    (he : tableEntry CFN_MAX_MBXID mbxid = some m) (hlive : k.Live (.mbx m)) {msg : UINT} {rest : List UINT}
    (hqueue : (k.mbxcbs m).mbx_queue = msg :: rest) :
    Returns e k (.wait (.mbx mbxid ppk_msg tmout)) times { ercd := .E_OK, msg := some msg }
      ((k.DI.setMbx m { k.DI.mbxcbs m with mbx_queue := rest }).EI k.mie) := by
  refine .ofPlain h (h.core.setQueue (m := m) rest) rfl rfl rfl ?_ ?_ ?_
  · intro hall
    exact served_setQueue hall (no_waiter_of_message (hall _) hlive (by simp [hqueue]))
  · intro hu s hl
    rw [step_silent ⟨rfl, rfl⟩]
    exact hu s hl
  · intro hml m' msg' hl
    rw [Objects.Live, id_setQueue] at hl
    have := hml m' msg' hl
    by_cases hm : m' = m
    · subst hm
      rw [hqueue, List.count_cons] at this
      simp only [Objects.setMbx, Function.update_self, Ledger.step, createdMbx, mailDelta, sent, received, he,
        Option.getD_none, Option.some.injEq, true_and]
      by_cases hmsg : msg = msg'
      · simp [hmsg] at this ⊢; omega
      · simp [hmsg] at this ⊢; omega
    · simpa [Objects.setMbx, hm, Ledger.step, createdMbx, mailDelta, sent, received, he, Ne.symm hm] using this

theorem tk_rcv_mbx_outcome (h : Good k) (hcan : canCall k = true) (mbxid : Int) (ppk_msg : UINT)
    (tmout : Int) :
    Outcome e k (.wait (.mbx mbxid ppk_msg tmout)) times
      (leave_call (tk_rcv_mbx k mbxid ppk_msg tmout times).2 (.wait (.mbx mbxid ppk_msg tmout))
        (tk_rcv_mbx k mbxid ppk_msg tmout times).1) := by
  unfold tk_rcv_mbx
  split
  · exact .refused h (silent_of_refused _ (by simp))
  rename_i m he
  split
  · exact .refused h (silent_of_refused _ (by simp))
  dsimp only
  split
  · rw [DI_EI]; exact .refused h (silent_of_refused _ (by simp))
  rename_i hblock
  split
  · rw [DI_EI]; exact .refused h (silent_of_refused _ (by simp))
  rename_i hexs
  have hlive : k.Live (.mbx m) := by simpa [Objects.Live, Objects.cb, CB.id] using hexs
  split
  · rename_i msg rest hqueue
    exact (received_returns h he hlive hqueue).outcome
  rename_i hqueue
  split
  · rw [DI_EI]; exact .refused h (silent_of_refused _ (by simp))
  obtain ⟨hmie, t, ht, hrun, hpend, hidle⟩ := h.caller hcan (by simpa using hblock)
  simp only [show k.DI.current = some t from ht]
  have hmay := mayWait_mbx (t := t) hlive ppk_msg tmout he hqueue
  have hobj : (WaitCall.mbx mbxid ppk_msg tmout).obj = some (.mbx m) := by simp [WaitCall.obj, he]
  have hreq : (k.DI.tasks fun q =>
      insert_waiter ((q.setTcb t fun c => { c with winfo := .mailbox NULL }).init_wait t) t m
        (k.DI.mbxcbs m).mbxatr) = k.DI.tasks (·.requestFor t (.mbx mbxid ppk_msg tmout)
          (queueBy k.toTasks t (k.mbxcbs m).mbxatr (k.wait_queue (.mbx m)))) := by
    have hlink := h.core.tasks.wait_link_self (t := t) (by simp [hrun])
    simp only [Kernel.tasks, DI_toTasks]
    rw [insert_waiter_eq hlink, requestFor_some hobj]
    simp [WaitCall.info]
  rw [hreq]
  exact .queued h hmie ht hrun hpend hidle hmay rfl

/-! ## Handing over -/

theorem Core.mbxWaiter (h : Core q x) (ht : t ∈ q.wait_queue (.mbx m)) :
    ∃ mbxid ppk_msg tmout, q.pending t = some (.wait (.mbx mbxid ppk_msg tmout)) ∧
      tableEntry CFN_MAX_MBXID mbxid = some m ∧ (q.tcbs t).winfo = .mailbox NULL ∧
      (q.tcbs t).tskstat = .WAI ∧ (q.tcbs t).tskwait = .MBX ∧ (q.tcbs t).wait_link = .linked := by
  obtain ⟨hs, w, hp, ho⟩ := h.tasks.pending_of_mem ht
  obtain ⟨w', hp', hkind⟩ := (h.tasks.task t).call hs
  obtain rfl : w' = w := by simpa [hp] using hp'.symm
  have hinfo := h.tasks.info t w' hs hp
  have hlink := (h.tasks.task t).wait_link
  simp only [hs, hp, waitsOn, ho, Option.isSome_some, and_self, if_true] at hlink
  cases w' with
  | mbx mbxid ppk_msg tmout =>
    have he : tableEntry CFN_MAX_MBXID mbxid = some m := by simpa [WaitCall.obj] using ho
    exact ⟨mbxid, ppk_msg, tmout, hp, he, hinfo.2, hs, hkind, hlink⟩
  | slp | dly => simp [WaitCall.obj] at ho
  | sem | flg => simp [WaitCall.obj] at ho

theorem pop_none (hq : k.wait_queue (.mbx m) = []) : pop_waiting_receiver k m = (none, k) := by
  simp [pop_waiting_receiver, hq, pop_walk]

theorem pop_some (h : Core k.toTasks k.toObjects) {rest : List TskId} (hq : k.wait_queue (.mbx m) = t :: rest) :
    pop_waiting_receiver k m = (some t, k.tasks fun q => (q.del_wait t).init_wait t) := by
  obtain ⟨_, _, _, -, -, -, hs, hwait, -⟩ := h.mbxWaiter (t := t) (m := m) (by simp [hq])
  simp [pop_waiting_receiver, hq, pop_walk, Tasks.del_wait, Tasks.init_wait, Tasks.setTcb, Tasks.check, hs,
    hwait, Kernel.tasks]

theorem make_ready_eq (h : Placed q) (hs : (q.tcbs t).tskstat = .WAI) (hwait : (q.tcbs t).tskwait = .MBX)
    (hlink : (q.tcbs t).wait_link = .linked) (cause : ER) (msg : UINT) (k : Kernel) :
    make_waiter_ready { k with toTasks := (q.del_wait t).init_wait t } t cause msg =
      { k with toTasks := Move.wakeEffect (Move.setInfo q t (.mailbox msg)) t cause } := by
  have htskwait :
      ((((q.del_wait t).init_wait t).setTcb t fun c => { c with winfo := .mailbox msg }).tcbs t).tskwait = .MBX := by
    simp [Tasks.del_wait, Tasks.init_wait, Tasks.setTcb, Tasks.check, hwait]
  unfold make_waiter_ready tkmc_complete_wait
  simp only [Kernel.tasks, htskwait]
  rw [if_neg (by simp), release_popped h hs hlink]

/-! ## Deletion -/

theorem delete_walk_spec (fuel : Nat) (h : Core k.toTasks k.toObjects)
    (hfuel : (k.wait_queue (.mbx m)).length < fuel) :
    Ends (fun m => ∃ t w, m = .wake t w .E_DLT) k (delete_walk m fuel k) ∧
      (delete_walk m fuel k).wait_queue (.mbx m) = [] ∧
      (∀ o, Served k.toTasks k.toObjects o →
        Served (delete_walk m fuel k).toTasks (delete_walk m fuel k).toObjects o) ∧
      (delete_walk m fuel k).toObjects = k.toObjects := by
  induction fuel generalizing k with
  | zero => omega
  | succ fuel ih =>
    cases hq : k.wait_queue (.mbx m) with
    | nil =>
      have hsame : delete_walk m (fuel + 1) k = k := by simp [delete_walk, pop_none hq]
      rw [hsame]
      exact ⟨.refl h, hq, fun o hs => hs, rfl⟩
    | cons t rest =>
      obtain ⟨mbxid, ppk_msg, tmout, hp, he, hinfo, hs, hwait, hlink⟩ :=
        h.mbxWaiter (t := t) (m := m) (by simp [hq])
      have ha : (Move.wake t (.mbx mbxid ppk_msg tmout) .E_DLT).Allowed k.toTasks :=
        ⟨hs, hp, by simp, by simp⟩
      have hwake := wake_ends h ha (by simp)
      have hset : Move.setInfo k.toTasks t (.mailbox NULL) = k.toTasks := by
        have hsame : { k.tcbs t with winfo := .mailbox NULL } = k.tcbs t := by rw [← hinfo]
        simp only [Move.setInfo, Tasks.setTcb, hsame, Function.update_eq_self]
      have hstep : delete_walk m (fuel + 1) k = delete_walk m fuel (k.tasks (Move.wakeEffect · t .E_DLT)) := by
        have hready := make_ready_eq h.tasks.toPlaced hs hwait hlink .E_DLT NULL k
        rw [hset] at hready
        simp only [delete_walk, pop_some h hq]
        exact congrArg _ hready
      have hlen : ((k.tasks (Move.wakeEffect · t .E_DLT)).wait_queue (.mbx m)).length < fuel := by
        simp only [Kernel.tasks, Move.wakeEffect, hq, List.erase_cons_head]
        rw [hq, List.length_cons] at hfuel
        omega
      obtain ⟨hends, hnil, hserved, hobjs⟩ := ih hwake.core hlen
      rw [hstep]
      refine ⟨(hwake.mono fun m hm => ⟨t, _, hm⟩).trans hends, hnil, ?_, hobjs⟩
      intro o hso
      refine hserved o (wake_served h ha (fun s hos heq => ?_) hso)
      rw [hos] at heq
      simp [WaitCall.obj, he] at heq

/-- The tables after a mailbox was deleted. -/
def Objects.dropMbx (x : Objects) (m : MbxId) (mbxid : UINT) : Objects :=
  { x.setMbx m { mbx_queue := [], mbxid := mbxid ||| NOEXS_MASK, exinf := NULL, mbxatr := 0 } with
    free_mbxcb := x.free_mbxcb ++ [m] }

theorem cb_dropMbx (x : Objects) {m : MbxId} (mbxid : UINT) {o : Obj} (ho : o ≠ .mbx m) :
    (x.dropMbx m mbxid).cb o = x.cb o := by
  have := cb_setMbx x m { mbx_queue := [], mbxid := mbxid ||| NOEXS_MASK, exinf := NULL, mbxatr := 0 } o
  rw [if_neg ho] at this
  rw [← this]
  cases o <;> rfl

theorem dropMbx_core (h : Core q x) (hlive : x.Live (.mbx m)) (hempty : q.wait_queue (.mbx m) = [])
    {mbxid : UINT} (hid : mbxid = BitVec.ofNat 32 (m + 1)) :
    Core q (x.dropMbx m mbxid) ∧ ((∀ o, Served q x o) → ∀ o, Served q (x.dropMbx m mbxid) o) := by
  have hfree : m ∉ x.free_mbxcb := fun hin => (h.tables.free (.mbx m)).mp hin hlive
  have hcore : Core q (x.dropMbx m mbxid) ∧
      ((∀ o, o ≠ .mbx m → Served q x o) → ∀ o, Served q (x.dropMbx m mbxid) o) := by
    refine h.dealloc (o := .mbx m) hempty ?_ ?_ (fun o ho => cb_dropMbx x mbxid ho) ?_ h.tables.sem_nodup
      h.tables.flg_nodup ?_
    · have := id_and (.mbx m)
      simp only [Obj.id] at this
      simp [Objects.dropMbx, Objects.setMbx, Objects.cb, CB.id, or_mask_and, hid, this, Obj.id]
    · simp [Objects.dropMbx, Objects.setMbx, Objects.cb, CB.id, noexs_or_mask]
    · intro o
      cases o with
      | mbx m' => simp [Objects.Free, Objects.dropMbx]
      | sem s => simp [Objects.Free, Objects.dropMbx, Objects.setMbx]
      | flg f => simp [Objects.Free, Objects.dropMbx, Objects.setMbx]
    · refine List.nodup_append.mpr ⟨h.tables.mbx_nodup, List.nodup_singleton m, ?_⟩
      intro a ha b hb hab
      rw [List.mem_singleton.mp hb] at hab
      exact hfree (hab ▸ ha)
  exact ⟨hcore.1, fun hall => hcore.2 fun o _ => hall o⟩

theorem tk_del_mbx_returns (h : Good k) (mbxid : Int) :
    Returns e k (.del_mbx mbxid) times { ercd := (tk_del_mbx k mbxid).1 } (tk_del_mbx k mbxid).2 := by
  have hsilent : ∀ r, SilentEvent (.ret (.del_mbx mbxid) r) :=
    fun r => ⟨fun _ => ⟨rfl, rfl⟩, fun _ _ => ⟨rfl, rfl⟩⟩
  unfold tk_del_mbx
  split
  · exact .refused h (hsilent _)
  rename_i m he
  dsimp only
  split
  · rw [DI_EI]; exact .refused h (hsilent _)
  rename_i hexs
  have hlive : k.Live (.mbx m) := by simpa [Objects.Live, Objects.cb, CB.id] using hexs
  have hid : BitVec.ofInt 32 mbxid = BitVec.ofNat 32 (m + 1) := by
    rw [(tableEntry_succ m mbxid).mp he]
    exact BitVec.ofInt_natCast 32 (m + 1)
  obtain ⟨hends, hempty, hserved, hobj⟩ := delete_walk_spec (k := k.DI) (m := m)
    ((k.DI.wait_queue (.mbx m)).length + 1) h.core (by omega)
  generalize delete_walk m ((k.DI.wait_queue (.mbx m)).length + 1) k.DI = k1 at *
  have hobj' : k1.toObjects = k.toObjects := hobj
  have hcur : k1.current = k.DI.current := by
    have := congrArg Machine.current hends.machine
    exact this
  have hk : ({ k1.setMbx m
        { mbx_queue := [], mbxid := BitVec.ofInt 32 mbxid ||| NOEXS_MASK, exinf := NULL, mbxatr := 0 } with
      wait_queue := Function.update k1.wait_queue (.mbx m) []
      free_mbxcb := k1.free_mbxcb ++ [m] } : Kernel) =
      { k1 with toObjects := k1.toObjects.dropMbx m (BitVec.ofInt 32 mbxid) } := by
    have hwait : Function.update k1.wait_queue (.mbx m) [] = k1.wait_queue := by
      rw [← hempty, Function.update_eq_self]
    rw [hwait]
    rfl
  obtain ⟨hcore, hserved'⟩ := dropMbx_core (m := m) hends.core (by rw [hobj']; exact hlive) hempty hid
  have hne : ({ k1 with toObjects := k1.toObjects.dropMbx m (BitVec.ofInt 32 mbxid) } : Kernel).current ≠
      none := by
    intro hnone
    exact h.current_ne (hcur.symm.trans hnone)
  suffices hret : Returns e k (.del_mbx mbxid) times { ercd := .E_OK }
      ((dispatch_if_needed { k1 with toObjects := k1.toObjects.dropMbx m (BitVec.ofInt 32 mbxid) }).EI k.mie) by
    rw [← hk] at hret
    exact hret
  rw [dispatch_if_needed_eq hne]
  refine .ofRequest h hends.does ?_ hends.machine hcore ?_ ?_ ?_
  · rintro m ⟨t, w, rfl⟩
    exact ⟨by simp [callMoves], rfl⟩
  · intro hall
    exact hserved' fun o => hserved o (hall o)
  · intro hu s hl
    rw [step_silent ((hsilent _).1 s)]
    have hb := hends.balance s
    rw [hobj'] at hb
    have hcb := cb_dropMbx k1.toObjects (m := m) (BitVec.ofInt 32 mbxid) (o := .sem s) (by simp)
    have hl' : k.Live (.sem s) := by
      rw [Objects.Live, hcb, hobj'] at hl
      exact hl
    have := hu s hl'
    have hsem : ((k1.toObjects.dropMbx m (BitVec.ofInt 32 mbxid)).semcbs s) = k.semcbs s := by
      rw [hobj']; rfl
    simp only [DI_toTasks, DI_toObjects] at hb
    change ((k1.toObjects.dropMbx m (BitVec.ofInt 32 mbxid)).semcbs s).semcnt = units s k1.log
    rw [hsem]
    omega
  · intro hml m' msg hl
    rw [step_silent ((hsilent _).2 m' msg)]
    have hmail : mail m' msg k1.log = mail m' msg k.log := by
      refine mail_of_wakes hends.does (fun m' hm' => ?_) m' msg
      obtain ⟨t, w, rfl⟩ := hm'
      exact ⟨t, w, _, rfl⟩
    have hm : m' ≠ m := by
      rintro rfl
      simp [Objects.Live, Objects.cb, Objects.dropMbx, Objects.setMbx, CB.id, noexs_or_mask] at hl
    have hcb := cb_dropMbx k1.toObjects (m := m) (BitVec.ofInt 32 mbxid) (o := .mbx m') (by simpa using hm)
    have hl' : k.Live (.mbx m') := by
      rw [Objects.Live, hcb, hobj'] at hl
      exact hl
    have := hml m' msg hl'
    simp only [Objects.dropMbx, Objects.setMbx, Function.update_of_ne hm]
    rw [hobj', hmail]
    exact this

/-! ## Sending -/

theorem insert_msg_perm (msgpri : UINT → Int) (queue : List UINT) (msg : UINT) (mbxatr : ATR) :
    (if mbxatr &&& TA_MPRI ≠ 0 then insert_msg_pri msgpri queue msg else insert_msg_fifo queue msg).Perm
      (msg :: queue) := by
  have htail : (queue ++ [msg]).Perm (msg :: queue) := List.perm_append_singleton msg queue
  have hscan : (scan_msg_pri msgpri queue msg).Perm (msg :: queue) := by
    unfold scan_msg_pri
    split
    · rename_i pos hpos
      rw [List.insertBefore_find hpos]
      refine List.perm_middle.trans ?_
      rw [List.takeWhile_append_dropWhile]
    · exact htail
  split
  · unfold insert_msg_pri
    split
    · split
      · exact htail
      · exact hscan
    · exact hscan
  · exact htail

theorem queued_returns (h : Good k) {mbxid : Int} {pk_msg : UINT}
    (he : tableEntry CFN_MAX_MBXID mbxid = some m) (hempty : k.wait_queue (.mbx m) = []) {queue : List UINT}
    (hperm : queue.Perm (pk_msg :: (k.mbxcbs m).mbx_queue)) :
    Returns e k (.snd_mbx mbxid pk_msg) times { ercd := .E_OK }
      ((k.DI.setMbx m { k.DI.mbxcbs m with mbx_queue := queue }).EI k.mie) := by
  refine .ofPlain h (h.core.setQueue (m := m) queue) rfl rfl rfl (fun hall => served_setQueue hall hempty) ?_ ?_
  · intro hu s hl
    rw [step_silent ⟨rfl, rfl⟩]
    exact hu s hl
  · intro hml m' msg hl
    rw [Objects.Live, id_setQueue] at hl
    have := hml m' msg hl
    by_cases hm : m' = m
    · subst hm
      have hcount := hperm.count_eq msg
      rw [List.count_cons] at hcount
      simp only [Objects.setMbx, Function.update_self, Ledger.step, createdMbx, mailDelta, sent, received, he,
        Option.getD_none, true_and, hcount]
      by_cases hmsg : pk_msg = msg
      · simp [hmsg]; omega
      · simp [hmsg]; omega
    · simpa [Objects.setMbx, hm, Ledger.step, createdMbx, mailDelta, sent, received, he, Ne.symm hm] using this


theorem mail_give {mbxid : Int} {ppk_msg msg : UINT} {tmout : Int}
    (he : tableEntry CFN_MAX_MBXID mbxid = some m)
    (ha : (Move.give t (.mbx mbxid ppk_msg tmout) (.message msg)).Allowed q) (m' : MbxId) (msg' : UINT) :
    mail m' msg' ((Move.give t (.mbx mbxid ppk_msg tmout) (.message msg)).effect q).log =
      mail m' msg' q.log - if m = m' ∧ msg = msg' then 1 else 0 := by
  rw [Move.log_effect]
  simp only [Move.events, ha.2.1, mail]
  simp [Ledger.balance, Ledger.step, createdMbx, mailDelta, sent, received, he, Delivery.info, WaitInfo.msg]
  omega

theorem handed_eq (h : Core k.toTasks k.toObjects) {rest : List TskId} (hq : k.wait_queue (.mbx m) = t :: rest)
    (msg : UINT) :
    ∃ mbxid ppk_msg tmout, tableEntry CFN_MAX_MBXID mbxid = some m ∧
      (Move.give t (.mbx mbxid ppk_msg tmout) (.message msg)).Allowed k.toTasks ∧
      make_waiter_ready
          ((k.tasks fun q => (q.del_wait t).init_wait t).tasks (·.note (.deliver t (.message msg)))) t .E_OK msg =
        k.tasks (Move.effect · (.give t (.mbx mbxid ppk_msg tmout) (.message msg))) := by
  obtain ⟨mbxid, ppk_msg, tmout, hp, he, -, hs, hwait, hlink⟩ := h.mbxWaiter (t := t) (m := m) (by simp [hq])
  refine ⟨mbxid, ppk_msg, tmout, he, ⟨hs, hp, trivial⟩, ?_⟩
  exact make_ready_eq (q := k.toTasks.note (.deliver t (.message msg))) (h.tasks.toPlaced.note (by simp)) hs hwait
    hlink .E_OK msg k

theorem handed_returns (h : Good k) {mbxid : Int} {pk_msg : UINT}
    (he : tableEntry CFN_MAX_MBXID mbxid = some m) {rest : List TskId}
    (hq : k.wait_queue (.mbx m) = t :: rest) :
    Returns e k (.snd_mbx mbxid pk_msg) times { ercd := .E_OK }
      ((dispatch_if_needed (make_waiter_ready
        ((k.DI.tasks fun q => (q.del_wait t).init_wait t).tasks (·.note (.deliver t (.message pk_msg))))
        t .E_OK pk_msg)).EI k.mie) := by
  obtain ⟨mbxid', ppk_msg, tmout, he', ha, hk⟩ := handed_eq (k := k.DI) h.core hq pk_msg
  have hne : (k.DI.tasks (Move.effect · (.give t (.mbx mbxid' ppk_msg tmout) (.message pk_msg)))).current ≠
      none := h.current_ne
  rw [hk, dispatch_if_needed_eq hne]
  have hd : Does (· = .give t (.mbx mbxid' ppk_msg tmout) (.message pk_msg)) k.toTasks
      ((Move.give t (.mbx mbxid' ppk_msg tmout) (.message pk_msg)).effect k.toTasks) :=
    .one (P := (· = .give t (.mbx mbxid' ppk_msg tmout) (.message pk_msg))) rfl ha
  refine .ofRequest h hd ?_ rfl (h.core.give ha) ?_ ?_ ?_
  · rintro m' rfl
    exact ⟨trivial, rfl⟩
  · intro hall o
    by_cases ho : o = .mbx m
    · subst ho
      intro hl
      exact (hall _ hl).sublist (infos_filter t (waiters_give h.core.tasks.toPlaced)) (by simp [Objects.cb])
    · refine (hall o).move (m := .give t (.mbx mbxid' ppk_msg tmout) (.message pk_msg)) h.core ha ?_
      simp [Move.touches, WaitCall.obj, he', Ne.symm ho]
  · intro hu s hl
    rw [step_silent ⟨rfl, rfl⟩]
    have hunits : units s ((Move.give t (.mbx mbxid' ppk_msg tmout) (.message pk_msg)).effect k.toTasks).log =
        units s k.log := by
      refine hd.balance ?_
      rintro m' q rfl hm' ev hev
      simp only [Move.events, hm'.2.1, List.mem_cons, List.not_mem_nil, or_false] at hev
      rcases hev with rfl | rfl | rfl <;> exact ⟨rfl, rfl⟩
    exact (hu s hl).trans hunits.symm
  · intro hml m' msg hl
    have hmail := mail_give (q := k.toTasks) he' ha m' msg
    have := hml m' msg hl
    change ((k.mbxcbs m').mbx_queue.count msg : Int) = Ledger.step _ _
      (mail m' msg ((Move.give t (.mbx mbxid' ppk_msg tmout) (.message pk_msg)).effect k.toTasks).log) _
    rw [hmail, this]
    simp only [Ledger.step, createdMbx, mailDelta, sent, received, he, true_and, Option.getD_none,
      Option.some.injEq]
    omega

theorem tk_snd_mbx_returns (h : Good k) (mbxid : Int) (pk_msg : UINT) :
    Returns e k (.snd_mbx mbxid pk_msg) times { ercd := (tk_snd_mbx k mbxid pk_msg).1 }
      (tk_snd_mbx k mbxid pk_msg).2 := by
  unfold tk_snd_mbx
  split
  · exact .refused h (silent_of_refused _ (by simp))
  rename_i m he
  split
  · exact .refused h (silent_of_refused _ (by simp))
  dsimp only
  split
  · rw [DI_EI]; exact .refused h (silent_of_refused _ (by simp))
  rename_i hexs
  split
  · rw [DI_EI]; exact .refused h (silent_of_refused _ (by simp))
  have hlive : k.Live (.mbx m) := by simpa [Objects.Live, Objects.cb, CB.id] using hexs
  have hDI : Core k.DI.toTasks k.DI.toObjects := h.core
  cases hq : k.DI.wait_queue (.mbx m) with
  | nil =>
    rw [pop_none hq]
    exact queued_returns h he hq (insert_msg_perm _ _ _ _)
  | cons t rest =>
    rw [pop_some hDI hq]
    exact handed_returns h he hq

end TsukumoCore
