import TsukumoCore.Calls.Requests
import TsukumoCore.Lib.Offer

/-!
# The calls that end waits, written out

A signal, a set pattern, a message and a wake-up, each as what it gives to whom. Nothing here depends on who
makes the call.
-/

namespace TsukumoCore

variable {k : Kernel} {q q' : Tasks} {t u : TskId}

/-! ## Signals -/

section Semaphore

variable {s : SemId} {semid n : Int}

/-- What `n` more units do for the waiters. -/
def signalShare (k : Kernel) (s : SemId) (n : Int) : Grant.Share TskId :=
  Grant.walk (k.semcbs s).servesAll (request k.toTasks) ((k.semcbs s).semcnt + n) (k.wait_queue (.sem s))

theorem tk_sig_sem_granted (h : Core k.toTasks k.toObjects) (he : tableEntry CFN_MAX_SEMID semid = some s)
    (hlive : k.Live (.sem s)) (hn : 0 < n) (hroom : n ≤ (k.semcbs s).maxsem - (k.semcbs s).semcnt) :
    ∃ k', tk_sig_sem k semid n = (.E_OK, k') ∧ Core k'.toTasks k'.toObjects ∧
      k'.toTasks = wakeAll k.toTasks (signalShare k s n).granted ∧
      k'.toObjects = k.toObjects.setSem s { k.semcbs s with semcnt := (signalShare k s n).units } ∧
      k'.wait_queue (.sem s) = (signalShare k s n).left ∧ k'.toMachine = k.toMachine.request k'.toTasks := by
  have hrange : SemRange (k.semcbs s) (reqs k.toTasks s) := h.range _ hlive
  have hmax := hrange.max
  have hcnt := hrange.cnt
  have hadd : addSemcnt k.DI s n = k.DI.setSem s { k.semcbs s with semcnt := (k.semcbs s).semcnt + n } := by
    apply addSemcnt_eq
    simp only [inINT, TK_SEMAPHORE_MAXCNT, DI_toObjects] at *
    omega
  generalize hk1 : k.DI.setSem s { k.semcbs s with semcnt := (k.semcbs s).semcnt + n } = k1 at hadd
  have hcore : Core k1.toTasks k1.toObjects := by
    rw [← hk1]
    exact h.setCnt hlive (by omega)
  have hshare : share k1 s (k1.wait_queue (.sem s)) = signalShare k s n := by
    rw [← hk1]
    simp [share, signalShare, Kernel.setSem, Kernel.DI, SEMCB.servesAll]
  obtain ⟨hgrant, hleft⟩ := serve_waiters_eq (s := s) hcore
  have hserves := (serve_waiters_spec (s := s) hcore).1.core
  rw [hshare] at hgrant hleft
  refine ⟨(request_switch (tkmc_sem_serve_waiters k1 s)).EI k.mie, ?_, ?_, ?_, ?_, ?_, ?_⟩
  · rw [tk_sig_sem_eq h he hlive hn, if_neg (by omega), hadd]
  · simpa using hserves
  · rw [EI_toTasks, request_switch_toTasks, hgrant, ← hk1]
    rfl
  · rw [EI_toObjects, request_switch_toObjects, hgrant, ← hk1]
    simp [granting, Kernel.setSem, Kernel.tasks, Objects.setSem, Kernel.DI]
  · rw [EI_toTasks, request_switch_toTasks]
    exact hleft
  · have hmachine : (tkmc_sem_serve_waiters k1 s).toMachine = k.DI.toMachine := by
      rw [hgrant, ← hk1]
      rfl
    rw [request_EI hmachine, EI_toTasks, request_switch_toTasks]

end Semaphore

/-! ## Patterns -/

section EventFlag

variable {f : FlgId} {flgid : Int} {setptn p p' : UINT}

/-- What the wait of `t` leaves of a pattern that satisfies it. -/
def takePtn (q : Tasks) (t : TskId) (p : UINT) : Option UINT :=
  if check_ptn p (q.tcbs t).winfo.waiptn (q.tcbs t).winfo.wfmode then
    some (clear_ptn p (q.tcbs t).winfo.waiptn (q.tcbs t).winfo.wfmode)
  else none

/-- The wait of `t` ends with the pattern `p`. -/
def deliverTo (q : Tasks) (t : TskId) (p : UINT) : Tasks :=
  Move.wakeEffect ((Move.setInfo q t (.event_flag (q.tcbs t).winfo.waiptn (q.tcbs t).winfo.wfmode p)).note
    (.deliver t (.pattern p))) t .E_OK

def giveAll (q : Tasks) (taken : List (TskId × UINT)) : Tasks :=
  taken.foldl (fun q x => deliverTo q x.1 x.2) q

/-- What a pattern does for the waiters in `rest`. -/
def offered (k : Kernel) (f : FlgId) (rest : List TskId) : Offer.Outcome TskId UINT :=
  Offer.walk (takePtn k.toTasks) (k.flgcbs f).flgptn rest

theorem deliverTo_other (hu : u ≠ t) : (deliverTo q t p).tcbs u = q.tcbs u := by
  simp [deliverTo, Move.wakeEffect, Move.setInfo, Tasks.setTcb, Tasks.note, hu]

theorem endsWaits_deliverTo (t : TskId) (p : UINT) : EndsWaits (deliverTo · t p) [t] := by
  refine ⟨?_, ?_, fun q o => (List.diff_cons (q.wait_queue o) [] t).symm, fun _ => rfl, ?_⟩
  · intro q q' u h
    by_cases hu : u = t
    · subst hu; simp [deliverTo, Move.wakeEffect, Move.setInfo, Tasks.setTcb, Tasks.note, h]
    · rw [deliverTo_other hu, deliverTo_other hu, h]
  · intro q u hu
    exact deliverTo_other (List.mem_singleton.not.mp hu)
  · intro q u
    by_cases hu : u = t
    · subst hu; simp [deliverTo, Move.wakeEffect, Move.setInfo, Tasks.setTcb, Tasks.note]
    · rw [deliverTo_other hu]

theorem endsWaits_giveAll (taken : List (TskId × UINT)) :
    EndsWaits (giveAll · taken) (taken.map Prod.fst) := by
  have hone : ∀ x : TskId × UINT, EndsWaits (fun q => deliverTo q x.1 x.2) [x.1] :=
    fun x => endsWaits_deliverTo x.1 x.2
  exact EndsWaits.foldl hone taken

theorem takePtn_deliverTo (hu : u ≠ t) : takePtn (deliverTo q t p) u = takePtn q u := by
  funext v
  simp only [takePtn, deliverTo_other hu]

/-- The state after one delivery, with `p'` left of the pattern. -/
def deliverOne (k : Kernel) (f : FlgId) (t : TskId) (p' : UINT) : Kernel :=
  (k.tasks (deliverTo · t (k.flgcbs f).flgptn)).setFlg f { k.flgcbs f with flgptn := p' }

theorem deliverOne_spec (h : Core k.toTasks k.toObjects) (ht : t ∈ k.wait_queue (.flg f))
    (hptn : check_ptn (k.flgcbs f).flgptn (k.tcbs t).winfo.waiptn (k.tcbs t).winfo.wfmode = true) :
    tkmc_complete_wait ((k.tasks fun q =>
      (q.setTcb t fun c =>
        { c with winfo := .event_flag (k.tcbs t).winfo.waiptn (k.tcbs t).winfo.wfmode (k.flgcbs f).flgptn }).note
        (.deliver t (.pattern (k.flgcbs f).flgptn))).setFlg f { k.flgcbs f with flgptn := p' }) t .E_OK =
      deliverOne k f t p' ∧ Core (deliverOne k f t p').toTasks (deliverOne k f t p').toObjects := by
  obtain ⟨_, _, _, _, _, _, -, -, -, hs, -⟩ := h.flgWaiter ht
  have hplaced : Placed ((Move.setInfo k.toTasks t (.event_flag (k.tcbs t).winfo.waiptn (k.tcbs t).winfo.wfmode
      (k.flgcbs f).flgptn)).note (.deliver t (.pattern (k.flgcbs f).flgptn))) := by
    have hset : Placed (Move.setInfo k.toTasks t (.event_flag (k.tcbs t).winfo.waiptn (k.tcbs t).winfo.wfmode
        (k.flgcbs f).flgptn)) := h.tasks.toPlaced.setTcb ⟨.inl rfl, rfl, rfl, rfl, rfl, rfl, rfl⟩
    exact hset.note (by simp)
  have heq : tkmc_complete_wait ((k.tasks fun q =>
      (q.setTcb t fun c =>
        { c with winfo := .event_flag (k.tcbs t).winfo.waiptn (k.tcbs t).winfo.wfmode (k.flgcbs f).flgptn }).note
        (.deliver t (.pattern (k.flgcbs f).flgptn))).setFlg f { k.flgcbs f with flgptn := p' }) t .E_OK =
      deliverOne k f t p' := by
    rw [complete_wait_eq hplaced]
    · rfl
    · simpa [Kernel.setFlg, Kernel.tasks, Tasks.setTcb, Tasks.note] using hs
    · simp
  exact ⟨heq, (deliver_one h ht rfl rfl hptn heq.symm).1.core⟩

theorem deliverOne_queue (h : Core k.toTasks k.toObjects) {ahead rest : List TskId}
    (hq : k.wait_queue (.flg f) = ahead ++ t :: rest) :
    (deliverOne k f t p').wait_queue (.flg f) = ahead ++ rest := by
  have hnodup : (ahead ++ t :: rest).Nodup := hq ▸ h.tasks.wait_nodup (.flg f)
  have ht : t ∉ ahead := fun hin => (List.nodup_append.mp hnodup).2.2 t hin t List.mem_cons_self rfl
  have hqueue : (deliverOne k f t p').wait_queue (.flg f) = (k.wait_queue (.flg f)).erase t := rfl
  rw [hqueue, hq, List.erase_append_right _ ht, List.erase_cons_head]

theorem set_walk_cons (h : Core k.toTasks k.toObjects) (ht : t ∈ k.wait_queue (.flg f)) (rest : List TskId) :
    set_walk f (t :: rest) k =
      match takePtn k.toTasks t (k.flgcbs f).flgptn with
      | some p' => set_walk f rest (deliverOne k f t p')
      | none => set_walk f rest k := by
  rw [set_walk]
  unfold takePtn
  dsimp only
  split
  · rename_i hptn
    exact congrArg (set_walk f rest) (deliverOne_spec h ht hptn).1
  · rfl

/-- The state after the deliveries. -/
def delivering (k : Kernel) (f : FlgId) (r : Offer.Outcome TskId UINT) : Kernel :=
  (k.tasks (giveAll · r.taken)).setFlg f { k.flgcbs f with flgptn := r.value }

theorem delivering_nothing (k : Kernel) (f : FlgId) (left : List TskId) :
    delivering k f ⟨(k.flgcbs f).flgptn, [], left⟩ = k := by
  simp [delivering, giveAll, Kernel.tasks, Kernel.setFlg]

theorem delivering_cons (k : Kernel) (f : FlgId) (t : TskId) (p' : UINT) (r : Offer.Outcome TskId UINT) :
    delivering (deliverOne k f t p') f r =
      delivering k f { r with taken := (t, (k.flgcbs f).flgptn) :: r.taken } := by
  simp [delivering, deliverOne, giveAll, Kernel.tasks, Kernel.setFlg]

theorem set_walk_eq (ahead rest : List TskId) (h : Core k.toTasks k.toObjects)
    (hq : k.wait_queue (.flg f) = ahead ++ rest) :
    set_walk f rest k = delivering k f (offered k f rest) ∧
      (set_walk f rest k).wait_queue (.flg f) = ahead ++ (offered k f rest).left ∧
      Core (set_walk f rest k).toTasks (set_walk f rest k).toObjects := by
  induction rest generalizing k ahead with
  | nil => exact ⟨(delivering_nothing k f []).symm, hq, h⟩
  | cons t rest ih =>
    have hmem : t ∈ k.wait_queue (.flg f) := by simp [hq]
    rw [set_walk_cons h hmem]
    cases htake : takePtn k.toTasks t (k.flgcbs f).flgptn with
    | none =>
      obtain ⟨hwalk, hqueue, hcore⟩ := ih (ahead ++ [t]) h (by simp [hq])
      unfold offered at hwalk hqueue ⊢
      rw [Offer.walk_cons_none htake]
      exact ⟨hwalk, by simpa using hqueue, hcore⟩
    | some p' =>
      have hptn : check_ptn (k.flgcbs f).flgptn (k.tcbs t).winfo.waiptn (k.tcbs t).winfo.wfmode = true := by
        by_contra hptn
        rw [takePtn, if_neg hptn] at htake
        exact absurd htake (by simp)
      have hnodup : (ahead ++ t :: rest).Nodup := hq ▸ h.tasks.wait_nodup (.flg f)
      have ht : t ∉ rest := (List.nodup_cons.mp (List.nodup_append.mp hnodup).2.1).1
      have hoffered : offered (deliverOne k f t p') f rest = Offer.walk (takePtn k.toTasks) p' rest := by
        have hvalue : ((deliverOne k f t p').flgcbs f).flgptn = p' := by simp [deliverOne, Kernel.setFlg]
        unfold offered
        rw [hvalue]
        apply Offer.walk_congr
        intro u hu
        have hne : u ≠ t := fun heq => ht (heq ▸ hu)
        exact takePtn_deliverTo (q := k.toTasks) hne
      obtain ⟨hwalk, hqueue, hcore⟩ := ih ahead (deliverOne_spec h hmem hptn).2 (deliverOne_queue h hq)
      rw [hoffered] at hwalk hqueue
      rw [delivering_cons] at hwalk
      unfold offered
      rw [Offer.walk_cons_some htake]
      exact ⟨hwalk, hqueue, hcore⟩

theorem tk_set_flg_eq (h : Core k.toTasks k.toObjects) (he : tableEntry CFN_MAX_FLGID flgid = some f)
    (hlive : k.Live (.flg f)) {r : Offer.Outcome TskId UINT}
    (hr : r = Offer.walk (takePtn k.toTasks) ((k.flgcbs f).flgptn ||| setptn) (k.wait_queue (.flg f))) :
    ∃ k', tk_set_flg k flgid setptn = (.E_OK, k') ∧ Core k'.toTasks k'.toObjects ∧
      k'.toTasks = giveAll k.toTasks r.taken ∧
      k'.toObjects = k.toObjects.setFlg f { k.flgcbs f with flgptn := r.value } ∧
      k'.wait_queue (.flg f) = r.left := by
  have hcore := h.setPtn (f := f) ((k.flgcbs f).flgptn ||| setptn)
  generalize hk1 : k.DI.setFlg f { k.flgcbs f with flgptn := (k.flgcbs f).flgptn ||| setptn } = k1
  have hcore1 : Core k1.toTasks k1.toObjects := by
    rw [← hk1]
    exact hcore
  have hoffered : offered k1 f (k1.wait_queue (.flg f)) = r := by
    rw [hr, ← hk1]
    simp [offered, Kernel.setFlg, Kernel.DI]
  obtain ⟨hwalk, hqueue, hwalked⟩ := set_walk_eq [] _ hcore1 rfl
  rw [hoffered] at hwalk hqueue
  have heq : tk_set_flg k flgid setptn = (.E_OK, (if k1.wait_queue (.flg f) ≠ [] then
      request_switch (set_walk f (k1.wait_queue (.flg f)) k1) else k1).EI k.mie) := by
    unfold tk_set_flg
    simp only [he]
    rw [if_neg (by simpa [Objects.Live, Objects.cb, CB.id] using hlive)]
    simp only [show k.DI.flgcbs = k.flgcbs from rfl, hk1]
  have hsame : k1.wait_queue (.flg f) = [] → set_walk f (k1.wait_queue (.flg f)) k1 = k1 := by
    intro hnil
    rw [hnil]
    rfl
  have htables : (if k1.wait_queue (.flg f) ≠ [] then
      request_switch (set_walk f (k1.wait_queue (.flg f)) k1) else k1).toTasks =
        (set_walk f (k1.wait_queue (.flg f)) k1).toTasks ∧
      (if k1.wait_queue (.flg f) ≠ [] then
        request_switch (set_walk f (k1.wait_queue (.flg f)) k1) else k1).toObjects =
        (set_walk f (k1.wait_queue (.flg f)) k1).toObjects := by
    split
    · simp
    · rename_i hnil
      rw [hsame (not_not.mp hnil)]
      exact ⟨rfl, rfl⟩
  refine ⟨_, heq, ?_, ?_, ?_, ?_⟩
  · rw [EI_toTasks, EI_toObjects, htables.1, htables.2]
    exact hwalked
  · rw [EI_toTasks, htables.1, hwalk, ← hk1]
    rfl
  · rw [EI_toObjects, htables.2, hwalk, ← hk1]
    simp [delivering, Kernel.setFlg, Kernel.tasks, Objects.setFlg, Kernel.DI]
  · rw [EI_toTasks, htables.1]
    exact hqueue

end EventFlag

/-! ## Messages -/

section Mailbox

variable {m : MbxId} {mbxid : Int} {pk_msg : UINT}

theorem tk_snd_mbx_queued (he : tableEntry CFN_MAX_MBXID mbxid = some m) (hlive : k.Live (.mbx m))
    (hmsg : pk_msg ≠ NULL) (hpri : ¬ ((k.mbxcbs m).mbxatr &&& TA_MPRI ≠ 0 ∧ k.msgpri pk_msg ≤ 0))
    (hq : k.wait_queue (.mbx m) = []) (hempty : (k.mbxcbs m).mbx_queue = []) :
    tk_snd_mbx k mbxid pk_msg = (.E_OK, k.setMbx m { k.mbxcbs m with mbx_queue := [pk_msg] }) := by
  have hinsert : (if (k.mbxcbs m).mbxatr &&& TA_MPRI ≠ 0 then
      insert_msg_pri k.msgpri (k.mbxcbs m).mbx_queue pk_msg
      else insert_msg_fifo (k.mbxcbs m).mbx_queue pk_msg) = [pk_msg] := by
    rw [hempty]
    split <;> rfl
  unfold tk_snd_mbx
  simp only [he, hmsg, if_false]
  rw [if_neg (by simpa [Objects.Live, Objects.cb, CB.id] using hlive),
    if_neg (show ¬ ((k.DI.mbxcbs m).mbxatr &&& TA_MPRI ≠ 0 ∧ k.DI.msgpri pk_msg ≤ 0) from hpri),
    pop_none (show k.DI.wait_queue (.mbx m) = [] from hq)]
  simp only [show k.DI.mbxcbs = k.mbxcbs from rfl, show k.DI.msgpri = k.msgpri from rfl, hinsert]
  exact Prod.ext rfl (by simp [Kernel.DI, Kernel.EI, Kernel.setMbx])

theorem tk_snd_mbx_refused (he : tableEntry CFN_MAX_MBXID mbxid = some m) (hlive : k.Live (.mbx m))
    (hmsg : pk_msg ≠ NULL) (hpri : (k.mbxcbs m).mbxatr &&& TA_MPRI ≠ 0 ∧ k.msgpri pk_msg ≤ 0) :
    tk_snd_mbx k mbxid pk_msg = (.E_PAR, k) := by
  unfold tk_snd_mbx
  simp only [he, hmsg, if_false]
  rw [if_neg (by simpa [Objects.Live, Objects.cb, CB.id] using hlive),
    if_pos (show (k.DI.mbxcbs m).mbxatr &&& TA_MPRI ≠ 0 ∧ k.DI.msgpri pk_msg ≤ 0 from hpri), DI_EI]

theorem tk_snd_mbx_handed (h : Core k.toTasks k.toObjects) (he : tableEntry CFN_MAX_MBXID mbxid = some m)
    (hlive : k.Live (.mbx m)) (hmsg : pk_msg ≠ NULL)
    (hpri : ¬ ((k.mbxcbs m).mbxatr &&& TA_MPRI ≠ 0 ∧ k.msgpri pk_msg ≤ 0)) {rest : List TskId}
    (hq : k.wait_queue (.mbx m) = t :: rest) :
    ∃ k', tk_snd_mbx k mbxid pk_msg = (.E_OK, k') ∧ Core k'.toTasks k'.toObjects ∧ k'.toObjects = k.toObjects ∧
      k'.toTasks = Move.wakeEffect ((Move.setInfo k.toTasks t (.mailbox pk_msg)).note
        (.deliver t (.message pk_msg))) t .E_OK := by
  obtain ⟨mbxid', ppk_msg, tmout, he', ha, hk⟩ := handed_eq (k := k.DI) h hq pk_msg
  have hcur : ∀ k : Kernel, (dispatch_if_needed k).toTasks = k.toTasks ∧
      (dispatch_if_needed k).toObjects = k.toObjects := by
    intro k
    unfold dispatch_if_needed
    split <;> simp
  refine ⟨(dispatch_if_needed (k.DI.tasks (Move.effect · (.give t (.mbx mbxid' ppk_msg tmout)
    (.message pk_msg))))).EI k.mie, ?_, ?_, ?_, ?_⟩
  · unfold tk_snd_mbx
    simp only [he, hmsg, if_false]
    rw [if_neg (by simpa [Objects.Live, Objects.cb, CB.id] using hlive),
      if_neg (show ¬ ((k.DI.mbxcbs m).mbxatr &&& TA_MPRI ≠ 0 ∧ k.DI.msgpri pk_msg ≤ 0) from hpri),
      pop_some (k := k.DI) h hq]
    simp only [hk]
  · rw [EI_toTasks, EI_toObjects, (hcur _).1, (hcur _).2]
    exact h.give ha
  · rw [EI_toObjects, (hcur _).2]
    rfl
  · rw [EI_toTasks, (hcur _).1]
    rfl

end Mailbox

/-! ## Wake-ups -/

section Wakeup

variable {tskid : Int}

theorem tk_wup_tsk_queued (he : tableEntry CFN_MAX_TSKID tskid = some t) (hact : (k.tcbs t).active)
    (hself : ¬ (some t = k.current ∧ !tkmc_in_isr k)) (hcnt : (k.tcbs t).wupcnt < TK_WAKEUP_MAXCNT) :
    tk_wup_tsk k tskid = (.E_OK, k.tasks (·.setTcb t fun c => { c with wupcnt := c.wupcnt + 1 })) := by
  have hself' : ¬ (some t = k.DI.current ∧ (!tkmc_in_isr k.DI) = true) := hself
  unfold tk_wup_tsk
  simp only [he, hself', if_false, show k.DI.tcbs = k.tcbs from rfl, hact.stat_ne_wai, queue_wakeup, hcnt, if_true]
  rw [if_pos (show (k.tcbs t).tskstat = .RDY ∨ (k.tcbs t).tskstat = .RUN from hact)]
  exact Prod.ext rfl (EI_DI _ k)

theorem tk_wup_tsk_woken (h : Core k.toTasks k.toObjects) (he : tableEntry CFN_MAX_TSKID tskid = some t)
    (hs : (k.tcbs t).tskstat = .WAI) (hwait : (k.tcbs t).tskwait = .SLP)
    (hself : ¬ (some t = k.current ∧ !tkmc_in_isr k)) :
    ∃ k', tk_wup_tsk k tskid = (.E_OK, k') ∧ k'.toObjects = k.toObjects ∧
      k'.toTasks = Move.wakeEffect k.toTasks t .E_OK := by
  have hself' : ¬ (some t = k.DI.current ∧ (!tkmc_in_isr k.DI) = true) := hself
  have heq : tkmc_complete_wait k.DI t .E_OK = k.DI.tasks (Move.wakeEffect · t .E_OK) :=
    complete_wait_eq (k := k.DI) h.tasks.toPlaced hs (by simp)
  refine ⟨(request_switch (k.DI.tasks (Move.wakeEffect · t .E_OK))).EI k.mie, ?_, ?_, ?_⟩
  · unfold tk_wup_tsk
    simp only [he, hself', if_false, show k.DI.tcbs = k.tcbs from rfl, hs, hwait, if_true, heq]
  · rw [EI_toObjects, request_switch_toObjects]
    rfl
  · rw [EI_toTasks, request_switch_toTasks]
    rfl

end Wakeup

end TsukumoCore
