import TsukumoCore.Either.Order

/-! # Event flags: a wait and a set pattern in either order -/

namespace TsukumoCore

variable {e : Entries} {k kW k' : Kernel} {t : TskId} {f : FlgId} {flgid : Int}
  {waiptn wfmode p_flgptn setptn : UINT} {c : Context}

/-! ## The wait -/

/-- The checks of `tk_wai_flg` that do not look at the pattern. -/
structure MayAsk (k : Kernel) (f : FlgId) (flgid : Int) (waiptn wfmode p_flgptn : UINT) : Prop where
  entry : tableEntry CFN_MAX_FLGID flgid = some f
  par : ¬ (p_flgptn = NULL ∨ waiptn = 0)
  mode : wfmode &&& ~~~VALID_WFMODE = 0
  live : k.Live (.flg f)
  one : ¬ ((k.flgcbs f).flgatr &&& TA_WMUL = 0 ∧ k.wait_queue (.flg f) ≠ [])

theorem performs_flg_wait (h : Caller k t) (hmay : MayAsk k f flgid waiptn wfmode p_flgptn)
    (hptn : check_ptn (k.flgcbs f).flgptn waiptn wfmode = false)
    (hlast : (k.flgcbs f).flgatr &&& TA_TPRI ≠ 0 →
      ∀ u ∈ k.wait_queue (.flg f), (k.tcbs u).itskpri ≤ (k.tcbs t).itskpri) :
    ∃ k', Performs e k (.wait (.flg flgid waiptn wfmode p_flgptn TMO_FEVR)) .wait k' ∧
      Waits k t (.flg flgid waiptn wfmode p_flgptn TMO_FEVR) (k.wait_queue (.flg f)) k' := by
  have heq : tk_wai_flg k flgid waiptn wfmode p_flgptn TMO_FEVR [] = _ :=
    tk_wai_flg_eq h hmay.entry hmay.live hmay.par hmay.mode (Int.le_refl _) hmay.one
  rw [hptn, if_neg (by simp), if_neg (by decide), queueBy_last hlast] at heq
  exact ⟨_, ⟨_, congrArg some heq, rfl⟩, .of_waiting h⟩

theorem performs_flg_take (h : Caller k t) (hmay : MayAsk k f flgid waiptn wfmode p_flgptn)
    (hptn : check_ptn (k.flgcbs f).flgptn waiptn wfmode = true) :
    ∃ k', Performs e k (.wait (.flg flgid waiptn wfmode p_flgptn TMO_FEVR))
        (.ret { ercd := .E_OK, flgptn := some (k.flgcbs f).flgptn }) k' ∧
      k'.toObjects = k.toObjects.setFlg f
        { k.flgcbs f with flgptn := clear_ptn (k.flgcbs f).flgptn waiptn wfmode } ∧
      k'.wait_queue = k.wait_queue ∧ k'.tcbs = k.tcbs := by
  have heq : tk_wai_flg k flgid waiptn wfmode p_flgptn TMO_FEVR [] = _ :=
    tk_wai_flg_eq h hmay.entry hmay.live hmay.par hmay.mode (Int.le_refl _) hmay.one
  rw [if_pos hptn] at heq
  exact ⟨_, ⟨_, congrArg some heq, rfl⟩, rfl, rfl, rfl⟩

theorem performs_flg (h : Caller k t) (hlast : QueuedLast k t (.flg flgid waiptn wfmode p_flgptn TMO_FEVR))
    (hw : Performs e k (.wait (.flg flgid waiptn wfmode p_flgptn TMO_FEVR)) .wait kW) :
    ∃ f, MayAsk k f flgid waiptn wfmode p_flgptn ∧
      ((k.flgcbs f).flgatr &&& TA_TPRI ≠ 0 →
        ∀ u ∈ k.wait_queue (.flg f), (k.tcbs u).itskpri ≤ (k.tcbs t).itskpri) ∧
      Waits k t (.flg flgid waiptn wfmode p_flgptn TMO_FEVR) (k.wait_queue (.flg f)) kW := by
  obtain ⟨k1, hexec, rfl⟩ := hw
  obtain ⟨f, he, hpar, hmode, -, -, hlive, hone, hptn⟩ :=
    tk_wai_flg_waits (congrArg Prod.fst (Option.some.inj hexec))
  have hobj : (WaitCall.flg flgid waiptn wfmode p_flgptn TMO_FEVR).obj = some (.flg f) := by
    simp [WaitCall.obj, he]
  have hmay : MayAsk k f flgid waiptn wfmode p_flgptn := ⟨he, hpar, hmode, hlive, hone⟩
  obtain ⟨k', ⟨k2, hexec', rfl⟩, hwaits⟩ := performs_flg_wait (e := e) h hmay hptn (hlast _ hobj)
  obtain rfl : k1 = k2 := congrArg Prod.snd (Option.some.inj (hexec.symm.trans hexec'))
  exact ⟨f, hmay, hlast _ hobj, hwaits⟩

theorem waiting_flg_core (h : Caller k t) (hmay : MayAsk k f flgid waiptn wfmode p_flgptn)
    (hw : Waits k t (.flg flgid waiptn wfmode p_flgptn TMO_FEVR) (k.wait_queue (.flg f)) kW) :
    Core kW.toTasks kW.toObjects := by
  have hobj : (WaitCall.flg flgid waiptn wfmode p_flgptn TMO_FEVR).obj = some (.flg f) := by
    simp [WaitCall.obj, hmay.entry]
  rw [hw.tasks, hw.objects]
  apply h.core.move
  · refine ⟨h.active, h.pending, by simp, ?_⟩
    rw [hobj]
    exact ⟨k.wait_queue (.flg f), [], by simp, rfl⟩
  · intro o ho
    obtain rfl : o = .flg f := by simpa [Move.touches, hobj] using ho.symm
    refine ⟨hmay.live, ?_⟩
    rw [infos_block h.core.tasks.toPlaced h.active hobj (List.append_nil _).symm]
    intro hatr
    have hnil : k.wait_queue (.flg f) = [] := by
      by_contra hne
      exact hmay.one ⟨hatr, hne⟩
    simp [infos, waiters, hnil]

/-! ## The pattern -/

/-- What the pattern with the bits set does for the waiters. -/
def setOffer (k : Kernel) (f : FlgId) (setptn : UINT) : Offer.Outcome TskId UINT :=
  Offer.walk (takePtn k.toTasks) ((k.flgcbs f).flgptn ||| setptn) (k.wait_queue (.flg f))

/-- Bits were set, and the pattern offered to the waiters. -/
structure PatternSet (k : Kernel) (f : FlgId) (setptn : UINT) (k' : Kernel) : Prop where
  core : Core k'.toTasks k'.toObjects
  tasks : k'.toTasks = giveAll k.toTasks (setOffer k f setptn).taken
  objects : k'.toObjects = k.toObjects.setFlg f { k.flgcbs f with flgptn := (setOffer k f setptn).value }
  queue : k'.wait_queue (.flg f) = (setOffer k f setptn).left

theorem set_within (setptn : UINT) (c : Context) (h : Core k.toTasks k.toObjects)
    (he : tableEntry CFN_MAX_FLGID flgid = some f) (hlive : k.Live (.flg f)) :
    ∃ k', tk_set_flg (k.within c) flgid setptn = (.E_OK, k') ∧ PatternSet k f setptn k' := by
  obtain ⟨k', heq, hcore, htasks, hobjects, hqueue⟩ :=
    tk_set_flg_eq (k := k.within c) (r := setOffer k f setptn) h he hlive rfl
  exact ⟨k', heq, hcore, htasks, hobjects, hqueue⟩

namespace PatternSet

theorem cb (h : PatternSet k f setptn k') :
    k'.flgcbs f = { k.flgcbs f with flgptn := (setOffer k f setptn).value } := by
  rw [congrArg Objects.flgcbs h.objects]
  simp [Objects.setFlg]

theorem left_subset (k : Kernel) (f : FlgId) (setptn : UINT) :
    (setOffer k f setptn).left.Sublist (k.wait_queue (.flg f)) :=
  Offer.walk_left_sublist _ _ _

theorem mayAsk (h : PatternSet k f setptn k') (hmay : MayAsk k f flgid waiptn wfmode p_flgptn) :
    MayAsk k' f flgid waiptn wfmode p_flgptn := by
  refine ⟨hmay.entry, hmay.par, hmay.mode, ?_, ?_⟩
  · have hlive : noexs (k.flgcbs f).flgid = false := hmay.live
    show noexs (k'.flgcbs f).flgid = false
    rw [h.cb]
    exact hlive
  · rw [h.cb, h.queue]
    rintro ⟨hatr, hne⟩
    refine hmay.one ⟨hatr, fun hnil => hne ?_⟩
    have hsub := left_subset k f setptn
    rw [hnil] at hsub
    exact List.sublist_nil.mp hsub

theorem last (h : PatternSet k f setptn k') (hlast : (k.flgcbs f).flgatr &&& TA_TPRI ≠ 0 →
      ∀ u ∈ k.wait_queue (.flg f), (k.tcbs u).itskpri ≤ (k.tcbs t).itskpri) :
    (k'.flgcbs f).flgatr &&& TA_TPRI ≠ 0 →
      ∀ u ∈ k'.wait_queue (.flg f), (k'.tcbs u).itskpri ≤ (k'.tcbs t).itskpri := by
  rw [h.cb, h.queue]
  intro hatr u hu
  have hpri := (endsWaits_giveAll (setOffer k f setptn).taken).itskpri k.toTasks
  rw [h.tasks, hpri, hpri]
  exact hlast hatr u ((left_subset k f setptn).subset hu)

end PatternSet

theorem setOffer_concat (setptn : UINT)
    (hw : Waits k t (.flg flgid waiptn wfmode p_flgptn TMO_FEVR) (k.wait_queue (.flg f)) kW)
    (he : tableEntry CFN_MAX_FLGID flgid = some f) (ht : t ∉ k.wait_queue (.flg f)) :
    setOffer kW f setptn =
      if check_ptn (setOffer k f setptn).value waiptn wfmode then
        ⟨clear_ptn (setOffer k f setptn).value waiptn wfmode,
          (setOffer k f setptn).taken ++ [(t, (setOffer k f setptn).value)], (setOffer k f setptn).left⟩
      else ⟨(setOffer k f setptn).value, (setOffer k f setptn).taken, (setOffer k f setptn).left ++ [t]⟩ := by
  have hobj : (WaitCall.flg flgid waiptn wfmode p_flgptn TMO_FEVR).obj = some (.flg f) := by
    simp [WaitCall.obj, he]
  have hinfo : (kW.tcbs t).winfo = .event_flag waiptn wfmode 0 := by
    rw [hw.tasks]
    simp [Move.effect, WaitCall.info]
  have hothers : ∀ u ∈ k.wait_queue (.flg f), takePtn kW.toTasks u = takePtn k.toTasks u := by
    intro u hu
    funext v
    simp only [takePtn, hw.other fun heq => ht (heq ▸ hu)]
  have hqueue := hw.queues (.flg f)
  rw [if_pos hobj] at hqueue
  unfold setOffer
  rw [hqueue, congrArg Objects.flgcbs hw.objects, Offer.walk_concat, Offer.walk_congr hothers]
  simp only [takePtn, hinfo, WaitInfo.waiptn, WaitInfo.wfmode]
  by_cases hptn : check_ptn (Offer.walk (takePtn k.toTasks) ((k.flgcbs f).flgptn ||| setptn)
      (k.wait_queue (.flg f))).value waiptn wfmode = true
  · rw [if_pos hptn, if_pos hptn]
  · rw [if_neg hptn, if_neg hptn]

/-! ## Either order -/

theorem flg_either (h : Caller k t) (hlast : QueuedLast k t (.flg flgid waiptn wfmode p_flgptn TMO_FEVR))
    (hperforms : Performs e k (.wait (.flg flgid waiptn wfmode p_flgptn TMO_FEVR)) .wait kW) :
    EitherOrder e k t (.flg flgid waiptn wfmode p_flgptn TMO_FEVR) (.set_flg flgid setptn) c kW := by
  obtain ⟨f, hmay, hlast', hw⟩ := performs_flg h hlast hperforms
  have hobj : (WaitCall.flg flgid waiptn wfmode p_flgptn TMO_FEVR).obj = some (.flg f) := by
    simp [WaitCall.obj, hmay.entry]
  have hnot := h.not_waiting (.flg f)
  have htaken : t ∉ (setOffer k f setptn).taken.map Prod.fst := by
    intro hmem
    obtain ⟨x, hx, rfl⟩ := List.mem_map.mp hmem
    exact hnot (Offer.walk_taken_subset _ _ _ x hx)
  obtain ⟨kA, hA, hsA⟩ := set_within setptn c (waiting_flg_core h hmay hw) hmay.entry
    (by rw [hw.objects]; exact hmay.live)
  obtain ⟨kP, hP, hsP⟩ := set_within setptn c h.core hmay.entry hmay.live
  have hexecA : exec e (kW.within c) [] (.set_flg flgid setptn) = some (.ret { ercd := .E_OK }, kA) := by
    simp [exec, hA]
  have hexecP : exec e (k.within c) [] (.set_flg flgid setptn) = some (.ret { ercd := .E_OK }, kP) := by
    simp [exec, hP]
  have hconcat := setOffer_concat setptn hw hmay.entry hnot
  have hends := endsWaits_giveAll (setOffer k f setptn).taken
  have hcaller := hends.caller (p := .set_flg flgid setptn) (r := { ercd := .E_OK }) htaken h hsP.core hsP.tasks
  have hvalue : (kP.flgcbs f).flgptn = (setOffer k f setptn).value := by rw [hsP.cb]
  have hmayP : MayAsk ((kP.tasks (·.note (.ret (.set_flg flgid setptn) { ercd := .E_OK }))).within
      k.context) f flgid waiptn wfmode p_flgptn := by
    obtain ⟨hentry, hpar, hmode, hlive, hone⟩ := hsP.mayAsk hmay
    exact ⟨hentry, hpar, hmode, hlive, hone⟩
  have htasks := hsA.tasks
  have hobjects := hsA.objects
  have hqueue := hsA.queue
  by_cases hptn : check_ptn (setOffer k f setptn).value waiptn wfmode = true
  · rw [if_pos hptn] at hconcat
    rw [hconcat] at htasks hobjects hqueue
    obtain ⟨kB, hB, hobjectsB, hqueueB, htcbsB⟩ :=
      performs_flg_take (e := e) hcaller hmayP (hvalue ▸ hptn)
    have hgiven : kA.toTasks =
        deliverTo (giveAll kW.toTasks (setOffer k f setptn).taken) t (setOffer k f setptn).value := by
      rw [htasks]
      exact List.foldl_append
    apply EitherOrder.satisfied hends (endsWaits_deliverTo t _) htaken hobj h.not_waiting hw hexecA hsA.core hexecP
      hgiven hsP.tasks (hqueue.trans hsP.queue.symm) hB _ hqueueB htcbsB
    · rw [hgiven]
      refine ⟨.inl (by simp [deliverTo, Move.wakeEffect]), ?_⟩
      have htook : (((kP.tasks (·.note (.ret (.set_flg flgid setptn) { ercd := .E_OK }))).within
          k.context).flgcbs f).flgptn = (setOffer k f setptn).value := hvalue
      rw [htook]
      simp [WaitCall.result, WaitInfo.flgptn, deliverTo, Move.wakeEffect, Move.setInfo, Tasks.setTcb, Tasks.note]
    · rw [hgiven, ← hends.other kW.toTasks t htaken]
      simp [deliverTo, Move.wakeEffect, Move.setInfo, Tasks.setTcb, Tasks.note]
    · have hkB : kB.toObjects = kP.toObjects.setFlg f
          { kP.flgcbs f with flgptn := clear_ptn (kP.flgcbs f).flgptn waiptn wfmode } := hobjectsB
      rw [hobjects, hkB, hsP.cb, hsP.objects, hw.objects]
      simp [Objects.setFlg]
  · rw [if_neg hptn] at hconcat
    rw [hconcat] at htasks hobjects hqueue
    have hptnP : check_ptn (kP.flgcbs f).flgptn waiptn wfmode = false := by
      rw [hvalue]
      exact Bool.eq_false_iff.mpr hptn
    have hwait := performs_flg_wait (e := e) hcaller hmayP hptnP (hsP.last hlast')
    apply EitherOrder.queued hends htaken hobj hw hexecA hsA.core hexecP htasks hsP.tasks _ hqueue
    · rw [← hsP.queue]
      exact hwait
    · rw [hobjects, hsP.objects, hw.objects]

end TsukumoCore
