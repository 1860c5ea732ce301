import TsukumoCore.Either.Order

/-! # Mailboxes and sleep: a wait and a message or a wake-up in either order -/

namespace TsukumoCore

variable {e : Entries} {k kW k' : Kernel} {q q' : Tasks} {t u : TskId} {c : Context}

section Mailbox

variable {m : MbxId} {mbxid : Int} {ppk_msg pk_msg : UINT}

/-! ## The wait -/

/-- The checks of `tk_rcv_mbx`. -/
structure MayReceive (k : Kernel) (m : MbxId) (mbxid : Int) (ppk_msg : UINT) : Prop where
  entry : tableEntry CFN_MAX_MBXID mbxid = some m
  par : ¬ (ppk_msg = NULL ∨ TMO_FEVR < TMO_FEVR)
  live : k.Live (.mbx m)

theorem MayReceive.obj (h : MayReceive k m mbxid ppk_msg) :
    (WaitCall.mbx mbxid ppk_msg TMO_FEVR).obj = some (.mbx m) := by
  simp [WaitCall.obj, h.entry]

theorem performs_mbx_wait (h : Caller k t) (hmay : MayReceive k m mbxid ppk_msg)
    (hempty : (k.mbxcbs m).mbx_queue = [])
    (hlast : (k.mbxcbs m).mbxatr &&& TA_TPRI ≠ 0 →
      ∀ u ∈ k.wait_queue (.mbx m), (k.tcbs u).itskpri ≤ (k.tcbs t).itskpri) :
    ∃ k', Performs e k (.wait (.mbx mbxid ppk_msg TMO_FEVR)) .wait k' ∧
      Waits k t (.mbx mbxid ppk_msg TMO_FEVR) (k.wait_queue (.mbx m)) k' := by
  have heq : tk_rcv_mbx k mbxid ppk_msg TMO_FEVR [] = _ :=
    tk_rcv_mbx_eq h hmay.entry hmay.live hmay.par
  rw [hempty, queueBy_last hlast] at heq
  dsimp only at heq
  rw [if_neg (by decide)] at heq
  exact ⟨_, ⟨_, congrArg some heq, rfl⟩, .of_waiting h⟩

theorem performs_mbx_take (h : Caller k t) (hmay : MayReceive k m mbxid ppk_msg) {rest : List UINT}
    (hmsg : (k.mbxcbs m).mbx_queue = pk_msg :: rest) :
    ∃ k', Performs e k (.wait (.mbx mbxid ppk_msg TMO_FEVR))
        (.ret { ercd := .E_OK, msg := some pk_msg }) k' ∧
      k'.toObjects = k.toObjects.setMbx m { k.mbxcbs m with mbx_queue := rest } ∧
      k'.wait_queue = k.wait_queue ∧ k'.tcbs = k.tcbs := by
  have heq : tk_rcv_mbx k mbxid ppk_msg TMO_FEVR [] = _ :=
    tk_rcv_mbx_eq h hmay.entry hmay.live hmay.par
  rw [hmsg] at heq
  exact ⟨_, ⟨_, congrArg some heq, rfl⟩, rfl, rfl, rfl⟩

theorem performs_mbx (h : Caller k t) (hlast : QueuedLast k t (.mbx mbxid ppk_msg TMO_FEVR))
    (hw : Performs e k (.wait (.mbx mbxid ppk_msg TMO_FEVR)) .wait kW) :
    ∃ m, MayReceive k m mbxid ppk_msg ∧ (k.mbxcbs m).mbx_queue = [] ∧
      ((k.mbxcbs m).mbxatr &&& TA_TPRI ≠ 0 →
        ∀ u ∈ k.wait_queue (.mbx m), (k.tcbs u).itskpri ≤ (k.tcbs t).itskpri) ∧
      Waits k t (.mbx mbxid ppk_msg TMO_FEVR) (k.wait_queue (.mbx m)) kW := by
  obtain ⟨k1, hexec, rfl⟩ := hw
  obtain ⟨m, he, hpar, -, hlive, hempty⟩ := tk_rcv_mbx_waits (congrArg Prod.fst (Option.some.inj hexec))
  have hmay : MayReceive k m mbxid ppk_msg := ⟨he, hpar, hlive⟩
  obtain ⟨k', ⟨k2, hexec', rfl⟩, hwaits⟩ := performs_mbx_wait (e := e) h hmay hempty (hlast _ hmay.obj)
  obtain rfl : k1 = k2 := congrArg Prod.snd (Option.some.inj (hexec.symm.trans hexec'))
  exact ⟨m, hmay, hempty, hlast _ hmay.obj, hwaits⟩

theorem waiting_mbx_core (h : Caller k t) (hmay : MayReceive k m mbxid ppk_msg)
    (hw : Waits k t (.mbx mbxid ppk_msg TMO_FEVR) (k.wait_queue (.mbx m)) kW) :
    Core kW.toTasks kW.toObjects := by
  rw [hw.tasks, hw.objects]
  apply h.core.move
  · refine ⟨h.active, h.pending, by simp, ?_⟩
    rw [hmay.obj]
    exact ⟨k.wait_queue (.mbx m), [], by simp, rfl⟩
  · intro o ho
    obtain rfl : o = .mbx m := by simpa [Move.touches, hmay.obj] using ho.symm
    exact ⟨hmay.live, trivial⟩

/-! ## The message -/

/-- The wait of `t` ends with the message. -/
def handTo (q : Tasks) (t : TskId) (pk_msg : UINT) : Tasks :=
  Move.wakeEffect ((Move.setInfo q t (.mailbox pk_msg)).note (.deliver t (.message pk_msg))) t .E_OK

theorem handTo_other (hu : u ≠ t) : (handTo q t pk_msg).tcbs u = q.tcbs u := by
  simp [handTo, Move.wakeEffect, Move.setInfo, Tasks.setTcb, Tasks.note, hu]

theorem endsWaits_handTo (t : TskId) (pk_msg : UINT) : EndsWaits (handTo · t pk_msg) [t] := by
  refine ⟨?_, ?_, fun q o => (List.diff_cons (q.wait_queue o) [] t).symm, fun _ => rfl, ?_⟩
  · intro q q' u h
    by_cases hu : u = t
    · subst hu; simp [handTo, Move.wakeEffect, Move.setInfo, Tasks.setTcb, Tasks.note, h]
    · rw [handTo_other hu, handTo_other hu, h]
  · intro q u hu
    exact handTo_other (List.mem_singleton.not.mp hu)
  · intro q u
    by_cases hu : u = t
    · subst hu; simp [handTo, Move.wakeEffect, Move.setInfo, Tasks.setTcb, Tasks.note]
    · rw [handTo_other hu]

theorem send_handed (h : Core k.toTasks k.toObjects) (he : tableEntry CFN_MAX_MBXID mbxid = some m)
    (hlive : k.Live (.mbx m)) (hmsg : pk_msg ≠ NULL)
    (hpri : ¬ ((k.mbxcbs m).mbxatr &&& TA_MPRI ≠ 0 ∧ k.msgpri pk_msg ≤ 0)) {rest : List TskId}
    (hq : k.wait_queue (.mbx m) = t :: rest) (c : Context) :
    ∃ k', exec e (k.within c) [] (.snd_mbx mbxid pk_msg) = some (.ret { ercd := .E_OK }, k') ∧
      Core k'.toTasks k'.toObjects ∧ k'.toObjects = k.toObjects ∧ k'.toTasks = handTo k.toTasks t pk_msg ∧
      k'.wait_queue (.mbx m) = rest := by
  obtain ⟨k', heq, hcore, hobjects, htasks⟩ :=
    tk_snd_mbx_handed (k := k.within c) h he hlive hmsg hpri hq
  have hhanded : k'.toTasks = handTo k.toTasks t pk_msg := htasks
  refine ⟨k', by simp [exec, heq], hcore, hobjects, hhanded, ?_⟩
  rw [hhanded, (endsWaits_handTo t pk_msg).queue, hq, List.diff_cons, List.diff_nil, List.erase_cons_head]

/-! ## Either order -/

theorem mbx_either_first (h : Caller k t) (hmay : MayReceive k m mbxid ppk_msg)
    (hempty : (k.mbxcbs m).mbx_queue = [])
    (hw : Waits k t (.mbx mbxid ppk_msg TMO_FEVR) (k.wait_queue (.mbx m)) kW) (hmsg : pk_msg ≠ NULL)
    (hpri : ¬ ((k.mbxcbs m).mbxatr &&& TA_MPRI ≠ 0 ∧ k.msgpri pk_msg ≤ 0))
    (hq : k.wait_queue (.mbx m) = []) :
    EitherOrder e k t (.mbx mbxid ppk_msg TMO_FEVR) (.snd_mbx mbxid pk_msg) c kW := by
  have hqW := hw.queues (.mbx m)
  rw [if_pos hmay.obj, hq, List.nil_append] at hqW
  have hcoreW := waiting_mbx_core h hmay hw
  obtain ⟨kA, hA, hcoreA, hobjectsA, htasksA, hqueueA⟩ := send_handed (e := e) hcoreW hmay.entry
    (by rw [hw.objects]; exact hmay.live) hmsg (by rw [hw.objects]; exact hpri) hqW c
  generalize hkP : (k.within c).setMbx m { k.mbxcbs m with mbx_queue := [pk_msg] } = kP
  have htasksP : kP.toTasks = k.toTasks := by
    rw [← hkP]
    rfl
  have hcbP : kP.mbxcbs m = { k.mbxcbs m with mbx_queue := [pk_msg] } := by
    rw [← hkP]
    simp [Kernel.setMbx]
  have hexecP : exec e (k.within c) [] (.snd_mbx mbxid pk_msg) = some (.ret { ercd := .E_OK }, kP) := by
    rw [← hkP]
    simp only [exec, tk_snd_mbx_queued (k := k.within c) hmay.entry hmay.live hmsg hpri hq hempty]
    rfl
  have hcoreP : Core kP.toTasks kP.toObjects := by
    rw [← hkP]
    exact h.core.setQueue (m := m) [pk_msg]
  have hliveP : noexs (kP.mbxcbs m).mbxid = false := by
    rw [hcbP]
    exact hmay.live
  have hcaller := endsWaits_none.caller (p := .snd_mbx mbxid pk_msg) (r := { ercd := .E_OK }) (by simp) h hcoreP
    htasksP
  obtain ⟨kB, hB, hobjectsB, hqueueB, htcbsB⟩ := performs_mbx_take (e := e) hcaller ⟨hmay.entry, hmay.par, hliveP⟩
    (show (kP.mbxcbs m).mbx_queue = [pk_msg] by rw [hcbP])
  apply EitherOrder.satisfied endsWaits_none (endsWaits_handTo t pk_msg) (by simp) hmay.obj h.not_waiting hw hA hcoreA
    hexecP htasksA htasksP _ hB _ hqueueB htcbsB
  · rw [htasksA]
    exact ⟨.inl (by simp [handTo, Move.wakeEffect]),
      by simp [WaitCall.result, WaitInfo.msg, handTo, Move.wakeEffect, Move.setInfo, Tasks.setTcb, Tasks.note]⟩
  · rw [htasksA]
    simp [handTo, Move.wakeEffect, Move.setInfo, Tasks.setTcb, Tasks.note]
  · rw [hqueueA, htasksP, hq]
  · have hkB : kB.toObjects = kP.toObjects.setMbx m { kP.mbxcbs m with mbx_queue := [] } := hobjectsB
    rw [hobjectsA, hw.objects, hkB, hcbP, ← hempty, ← hkP]
    simp [Objects.setMbx, Kernel.setMbx, Kernel.within]

theorem mbx_either_behind (h : Caller k t) (hmay : MayReceive k m mbxid ppk_msg)
    (hempty : (k.mbxcbs m).mbx_queue = [])
    (hlast : (k.mbxcbs m).mbxatr &&& TA_TPRI ≠ 0 →
      ∀ u ∈ k.wait_queue (.mbx m), (k.tcbs u).itskpri ≤ (k.tcbs t).itskpri)
    (hw : Waits k t (.mbx mbxid ppk_msg TMO_FEVR) (k.wait_queue (.mbx m)) kW) (hmsg : pk_msg ≠ NULL)
    (hpri : ¬ ((k.mbxcbs m).mbxatr &&& TA_MPRI ≠ 0 ∧ k.msgpri pk_msg ≤ 0)) {rest : List TskId}
    (hq : k.wait_queue (.mbx m) = u :: rest) :
    EitherOrder e k t (.mbx mbxid ppk_msg TMO_FEVR) (.snd_mbx mbxid pk_msg) c kW := by
  have hne : t ≠ u := by
    intro heq
    exact h.not_waiting (.mbx m) (by simp [hq, heq])
  have hqW := hw.queues (.mbx m)
  rw [if_pos hmay.obj, hq, List.cons_append] at hqW
  obtain ⟨kA, hA, hcoreA, hobjectsA, htasksA, hqueueA⟩ := send_handed (e := e) (waiting_mbx_core h hmay hw)
    hmay.entry (by rw [hw.objects]; exact hmay.live) hmsg (by rw [hw.objects]; exact hpri) hqW c
  obtain ⟨kP, hexecP, hcoreP, hobjectsP, htasksP, hqueueP⟩ :=
    send_handed (e := e) h.core hmay.entry hmay.live hmsg hpri hq c
  have hends := endsWaits_handTo u pk_msg
  have hcaller := hends.caller (p := .snd_mbx mbxid pk_msg) (r := { ercd := .E_OK }) (by simpa using hne) h hcoreP
    htasksP
  have hcbP : kP.mbxcbs = k.mbxcbs := congrArg Objects.mbxcbs hobjectsP
  have hlastP : (kP.mbxcbs m).mbxatr &&& TA_TPRI ≠ 0 →
      ∀ v ∈ kP.wait_queue (.mbx m), (kP.tcbs v).itskpri ≤ (kP.tcbs t).itskpri := by
    rw [hcbP, hqueueP]
    intro hatr v hv
    rw [htasksP, hends.itskpri, hends.itskpri]
    exact hlast hatr v (by simp [hq, hv])
  have hliveP : noexs (kP.mbxcbs m).mbxid = false := by
    rw [hcbP]
    exact hmay.live
  have hwait := performs_mbx_wait (e := e) hcaller ⟨hmay.entry, hmay.par, hliveP⟩
    (show (kP.mbxcbs m).mbx_queue = [] by rw [hcbP]; exact hempty) hlastP
  apply EitherOrder.queued hends (by simpa using hne) hmay.obj hw hA hcoreA hexecP htasksA htasksP _ hqueueA
  · rw [← hqueueP]
    exact hwait
  · rw [hobjectsA, hw.objects, hobjectsP]

theorem mbx_either (h : Caller k t) (hlast : QueuedLast k t (.mbx mbxid ppk_msg TMO_FEVR))
    (hperforms : Performs e k (.wait (.mbx mbxid ppk_msg TMO_FEVR)) .wait kW) :
    EitherOrder e k t (.mbx mbxid ppk_msg TMO_FEVR) (.snd_mbx mbxid pk_msg) c kW := by
  obtain ⟨m, hmay, hempty, hlast', hw⟩ := performs_mbx h hlast hperforms
  have hcoreW := waiting_mbx_core h hmay hw
  have hcaller : ∀ r,
      Caller (((k.within c).tasks (·.note (.ret (.snd_mbx mbxid pk_msg) r))).within k.context) t :=
    fun r => ⟨h.core.noted _ r, h.mie, h.depth, h.current, h.run, h.pending⟩
  by_cases hmsg : pk_msg = NULL
  · apply EitherOrder.refused (r := { ercd := .E_PAR }) hmay.obj hw hcoreW
    · simp [exec, tk_snd_mbx, hmay.entry, hmsg]
    · simp [exec, tk_snd_mbx, hmay.entry, hmsg]
    · exact performs_mbx_wait (hcaller _) ⟨hmay.entry, hmay.par, hmay.live⟩ hempty hlast'
  by_cases hpri : (k.mbxcbs m).mbxatr &&& TA_MPRI ≠ 0 ∧ k.msgpri pk_msg ≤ 0
  · apply EitherOrder.refused (r := { ercd := .E_PAR }) hmay.obj hw hcoreW
    · have hobjects : (kW.within c).toObjects = k.toObjects := hw.objects
      have hA := tk_snd_mbx_refused (k := kW.within c) hmay.entry (by rw [hobjects]; exact hmay.live) hmsg
        (by rw [hobjects]; exact hpri)
      simp [exec, hA]
    · have hB := tk_snd_mbx_refused (k := k.within c) hmay.entry hmay.live hmsg hpri
      simp [exec, hB]
    · exact performs_mbx_wait (hcaller _) ⟨hmay.entry, hmay.par, hmay.live⟩ hempty hlast'
  cases hq : k.wait_queue (.mbx m) with
  | nil => exact mbx_either_first h hmay hempty hw hmsg hpri hq
  | cons u rest => exact mbx_either_behind h hmay hempty hlast' hw hmsg hpri hq

end Mailbox

/-! ## Sleep -/

theorem performs_slp (h : Caller k t) (hperforms : Performs e k (.wait (.slp TMO_FEVR)) .wait kW) :
    (k.tcbs t).wupcnt = 0 ∧ Waits k t (.slp TMO_FEVR) [] kW := by
  obtain ⟨k1, hexec, rfl⟩ := hperforms
  have hslp := Option.some.inj hexec
  rw [tk_slp_tsk_forever h] at hslp
  split at hslp
  · exact absurd (congrArg Prod.fst hslp) (by simp)
  rename_i hwup
  obtain rfl : _ = k1 := congrArg Prod.snd hslp
  obtain ⟨htasks, hobjects⟩ := waiting_eq h (.slp TMO_FEVR) []
  exact ⟨by omega, htasks, hobjects⟩

theorem performs_slp_take (h : Caller k t) (hwup : 0 < (k.tcbs t).wupcnt) :
    ∃ k', Performs e k (.wait (.slp TMO_FEVR)) (.ret { ercd := .E_OK }) k' ∧ k'.toObjects = k.toObjects ∧
      k'.wait_queue = k.wait_queue ∧
      k'.tcbs = (k.toTasks.setTcb t fun c => { c with wupcnt := c.wupcnt - 1 }).tcbs := by
  have heq : tk_slp_tsk k TMO_FEVR [] = _ := tk_slp_tsk_forever h
  rw [if_pos hwup] at heq
  exact ⟨_, ⟨_, congrArg some heq, rfl⟩, rfl, rfl, rfl⟩

theorem slp_either (h : Caller k t) (hc : c.Other t)
    (hperforms : Performs e k (.wait (.slp TMO_FEVR)) .wait kW) :
    EitherOrder e k t (.slp TMO_FEVR) (.wup_tsk (t + 1)) c kW := by
  have he : tableEntry CFN_MAX_TSKID ((t : Int) + 1) = some t := (tableEntry_succ t _).mpr rfl
  have hself : ∀ k : Kernel, ¬ (some t = (k.within c).current ∧ !tkmc_in_isr (k.within c)) := by
    rintro k ⟨hcur, hisr⟩
    rw [Bool.not_eq_true', not_in_isr_iff] at hisr
    exact hc.elim (fun hdepth => hdepth hisr) fun hne => hne hcur.symm
  obtain ⟨hwup, hw⟩ := performs_slp h hperforms
  have hpendW : kW.pending t = some (.wait (.slp TMO_FEVR)) := by
    rw [hw.tasks]
    simp [Move.effect]
  have hslp : (kW.tcbs t).tskwait = .SLP := by
    rw [hw.tasks]
    simp [Move.effect, WaitCall.kind]
  have hcoreW : Core kW.toTasks kW.toObjects := by
    rw [hw.tasks, hw.objects]
    exact h.core.move ⟨h.active, h.pending, by simp, .inl rfl⟩ (by simp [Move.touches, WaitCall.obj])
  obtain ⟨kA, hA, hobjectsA, htasksA⟩ :=
    tk_wup_tsk_woken (k := kW.within c) hcoreW he hw.stat hslp (hself kW)
  have hwoken : kA.toTasks = Move.wakeEffect kW.toTasks t .E_OK := htasksA
  have hcoreA : Core kA.toTasks kA.toObjects := by
    rw [hwoken, hobjectsA]
    exact hcoreW.move (m := .wake t (.slp TMO_FEVR) .E_OK) ⟨hw.stat, hpendW, fun _ => .inl rfl, by simp⟩
      (by simp [Move.touches, WaitCall.obj])
  have hless : (k.tcbs t).wupcnt < TK_WAKEUP_MAXCNT := by
    rw [hwup]
    decide
  have hP := tk_wup_tsk_queued (k := k.within c) he h.active (hself k) hless
  have hcoreP : Core (Move.effect k.toTasks (.queueWakeup t)) k.toObjects :=
    h.core.move ⟨hless, .inl h.active⟩ (by simp [Move.touches])
  have hrunP : ((Move.effect k.toTasks (.queueWakeup t)).tcbs t).tskstat = .RUN := by
    simpa [Move.effect, Tasks.setTcb] using h.run
  have hcaller : Caller ((((k.within c).tasks (Move.effect · (.queueWakeup t))).tasks
      (·.note (.ret (.wup_tsk (t + 1)) { ercd := .E_OK }))).within k.context) t :=
    ⟨hcoreP.noted _ _, h.mie, h.depth, h.current, hrunP, h.pending⟩
  obtain ⟨kB, hB, hobjectsB, hqueueB, htcbsB⟩ := performs_slp_take (e := e) hcaller
    (by simp [Kernel.within, Kernel.tasks, Move.effect, Tasks.setTcb, Tasks.note])
  apply EitherOrder.of_tables (r := { ercd := .E_OK }) (by simp [exec, hA]) hcoreA (by simp [exec, hP]; rfl) hB
  · rw [hobjectsA, hobjectsB]
    exact hw.objects
  · intro o
    rw [hwoken, hqueueB]
    show (kW.wait_queue o).erase t = k.wait_queue o
    rw [hw.queues, if_neg (by simp [WaitCall.obj])]
    exact List.erase_of_not_mem (h.not_waiting o)
  · intro u hu
    rw [hwoken, (endsWaits_wake t).other _ u (by simpa using hu), htcbsB]
    simpa [Kernel.within, Kernel.tasks, Move.effect, Tasks.setTcb, Tasks.note, hu] using hw.other hu
  · rw [hwoken]
    exact ⟨.inl (by simp [Move.wakeEffect]), by simp [WaitCall.result, Move.wakeEffect]⟩
  · rw [hwoken, htcbsB]
    simpa [Kernel.within, Kernel.tasks, Move.effect, Tasks.setTcb, Tasks.note, Move.wakeEffect] using hw.wupcnt
  · intro _ _
    exact ⟨rfl, _, rfl, rfl⟩

end TsukumoCore
