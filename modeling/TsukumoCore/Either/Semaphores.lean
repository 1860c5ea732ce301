import TsukumoCore.Either.Order

/-! # Semaphores: a wait and a signal in either order -/

namespace TsukumoCore

variable {e : Entries} {k kW k' : Kernel} {t : TskId} {s : SemId} {semid cnt n : Int} {c : Context}

/-! ## The wait -/

theorem performs_sem_wait (h : Caller k t) (he : tableEntry CFN_MAX_SEMID semid = some s) (hcnt : 0 < cnt)
    (hlive : k.Live (.sem s)) (hmax : cnt ≤ (k.semcbs s).maxsem) (htake : may_take k s t cnt = false)
    (hlast : (k.semcbs s).sematr &&& TA_TPRI ≠ 0 →
      ∀ u ∈ k.wait_queue (.sem s), (k.tcbs u).itskpri ≤ (k.tcbs t).itskpri) :
    ∃ k', Performs e k (.wait (.sem semid cnt TMO_FEVR)) .wait k' ∧
      Waits k t (.sem semid cnt TMO_FEVR) (k.wait_queue (.sem s)) k' := by
  have heq : tk_wai_sem k semid cnt TMO_FEVR [] = _ := tk_wai_sem_eq h he hlive hcnt hmax (Int.le_refl _)
  rw [htake, if_neg (by simp), if_neg (by decide), queueBy_last hlast] at heq
  exact ⟨_, ⟨_, congrArg some heq, rfl⟩, .of_waiting h⟩

theorem performs_sem_take (h : Caller k t) (he : tableEntry CFN_MAX_SEMID semid = some s) (hcnt : 0 < cnt)
    (hlive : k.Live (.sem s)) (hmax : cnt ≤ (k.semcbs s).maxsem) (htake : may_take k s t cnt = true) :
    ∃ k', Performs e k (.wait (.sem semid cnt TMO_FEVR)) (.ret { ercd := .E_OK }) k' ∧
      k'.toObjects = k.toObjects.setSem s { k.semcbs s with semcnt := (k.semcbs s).semcnt - cnt } ∧
      k'.wait_queue = k.wait_queue ∧ k'.tcbs = k.tcbs := by
  have heq : tk_wai_sem k semid cnt TMO_FEVR [] = _ := tk_wai_sem_eq h he hlive hcnt hmax (Int.le_refl _)
  rw [if_pos htake] at heq
  exact ⟨_, ⟨_, congrArg some heq, rfl⟩, rfl, rfl, rfl⟩

theorem performs_sem (h : Caller k t) (hlast : QueuedLast k t (.sem semid cnt TMO_FEVR))
    (hw : Performs e k (.wait (.sem semid cnt TMO_FEVR)) .wait kW) :
    ∃ s, tableEntry CFN_MAX_SEMID semid = some s ∧ 0 < cnt ∧ k.Live (.sem s) ∧ cnt ≤ (k.semcbs s).maxsem ∧
      may_take k s t cnt = false ∧
      ((k.semcbs s).sematr &&& TA_TPRI ≠ 0 →
        ∀ u ∈ k.wait_queue (.sem s), (k.tcbs u).itskpri ≤ (k.tcbs t).itskpri) ∧
      Waits k t (.sem semid cnt TMO_FEVR) (k.wait_queue (.sem s)) kW := by
  obtain ⟨k1, hexec, rfl⟩ := hw
  obtain ⟨s, he, hcnt, -, -, hlive, hmax, htake⟩ :=
    tk_wai_sem_waits (congrArg Prod.fst (Option.some.inj hexec))
  have hobj : (WaitCall.sem semid cnt TMO_FEVR).obj = some (.sem s) := by simp [WaitCall.obj, he]
  have hlast' := hlast _ hobj
  obtain ⟨k', ⟨k2, hexec', rfl⟩, hwaits⟩ :=
    performs_sem_wait (e := e) h he hcnt hlive hmax (htake t h.current) hlast'
  obtain rfl : k1 = k2 := congrArg Prod.snd (Option.some.inj (hexec.symm.trans hexec'))
  exact ⟨s, he, hcnt, hlive, hmax, htake t h.current, hlast', hwaits⟩

theorem signalShare_concat (hw : Waits k t (.sem semid cnt TMO_FEVR) (k.wait_queue (.sem s)) kW)
    (he : tableEntry CFN_MAX_SEMID semid = some s) (hcnt : 0 < cnt) (ht : t ∉ k.wait_queue (.sem s)) :
    signalShare kW s n =
      if ((k.semcbs s).servesAll ∨ (signalShare k s n).left = []) ∧ cnt ≤ (signalShare k s n).units then
        ⟨(signalShare k s n).units - cnt, (signalShare k s n).granted ++ [t], (signalShare k s n).left⟩
      else { signalShare k s n with left := (signalShare k s n).left ++ [t] } := by
  have hobj : (WaitCall.sem semid cnt TMO_FEVR).obj = some (.sem s) := by simp [WaitCall.obj, he]
  have hreq : request kW.toTasks t = cnt := by
    unfold request
    rw [hw.tasks]
    simp [Move.effect, WaitCall.info, he, WaitInfo.semcnt]
  have hothers : ∀ u ∈ k.wait_queue (.sem s), request kW.toTasks u = request k.toTasks u := by
    intro u hu
    unfold request
    rw [hw.other fun heq => ht (heq ▸ hu)]
  have hqueue := hw.queues (.sem s)
  rw [if_pos hobj] at hqueue
  unfold signalShare
  rw [hqueue, congrArg Objects.semcbs hw.objects, Grant.walk_concat (by omega), hreq, Grant.walk_congr hothers]

/-! ## The signal -/

/-- `n` units were signalled, and shared among the waiters. -/
structure Signalled (k : Kernel) (s : SemId) (n : Int) (k' : Kernel) : Prop where
  core : Core k'.toTasks k'.toObjects
  tasks : k'.toTasks = wakeAll k.toTasks (signalShare k s n).granted
  objects : k'.toObjects = k.toObjects.setSem s { k.semcbs s with semcnt := (signalShare k s n).units }
  queue : k'.wait_queue (.sem s) = (signalShare k s n).left

namespace Signalled

theorem cb (h : Signalled k s n k') : k'.semcbs s = { k.semcbs s with semcnt := (signalShare k s n).units } := by
  rw [congrArg Objects.semcbs h.objects]
  simp [Objects.setSem]

theorem itskpri (h : Signalled k s n k') (u : TskId) : (k'.tcbs u).itskpri = (k.tcbs u).itskpri := by
  rw [h.tasks]
  exact (endsWaits_wakeAll _).itskpri k.toTasks u

theorem live (h : Signalled k s n k') (hlive : k.Live (.sem s)) : k'.Live (.sem s) := by
  rw [live_sem_iff, h.cb]
  exact hlive

theorem last (h : Signalled k s n k') (hlast : (k.semcbs s).sematr &&& TA_TPRI ≠ 0 →
      ∀ u ∈ k.wait_queue (.sem s), (k.tcbs u).itskpri ≤ (k.tcbs t).itskpri) :
    (k'.semcbs s).sematr &&& TA_TPRI ≠ 0 →
      ∀ u ∈ k'.wait_queue (.sem s), (k'.tcbs u).itskpri ≤ (k'.tcbs t).itskpri := by
  rw [h.cb, h.queue]
  intro hatr u hu
  rw [h.itskpri, h.itskpri]
  exact hlast hatr u (Grant.walk_left_sublist.subset hu)

end Signalled

theorem signal_within (h : Core k.toTasks k.toObjects) (he : tableEntry CFN_MAX_SEMID semid = some s)
    (hlive : k.Live (.sem s)) (hn : 0 < n) (hroom : n ≤ (k.semcbs s).maxsem - (k.semcbs s).semcnt) :
    ∃ k', tk_sig_sem (k.within c) semid n = (.E_OK, k') ∧ Signalled k s n k' := by
  obtain ⟨k', heq, hcore, htasks, hobjects, hqueue, -⟩ :=
    tk_sig_sem_granted (k := k.within c) h he hlive hn hroom
  exact ⟨k', heq, hcore, htasks, hobjects, hqueue⟩

theorem signal_refused (h : Core k.toTasks k.toObjects) (he : tableEntry CFN_MAX_SEMID semid = some s)
    (hlive : k.Live (.sem s)) (hn : 0 < n) (hroom : n > (k.semcbs s).maxsem - (k.semcbs s).semcnt) :
    tk_sig_sem (k.within c) semid n = (.E_QOVR, k.within c) := by
  rw [tk_sig_sem_eq (k := k.within c) h he hlive hn]
  exact if_pos hroom

theorem may_take_after (cnt : Int) (hlast : (k.semcbs s).sematr &&& TA_TPRI ≠ 0 →
      ∀ u ∈ k.wait_queue (.sem s), (k.tcbs u).itskpri ≤ (k.tcbs t).itskpri)
    (hs : Signalled k s n kW) :
    may_take kW s t cnt = true ↔
      ((k.semcbs s).servesAll ∨ (signalShare k s n).left = []) ∧ cnt ≤ (signalShare k s n).units := by
  have hempty : (∀ head ∈ (signalShare k s n).left.head?, (k.semcbs s).sematr &&& TA_TPRI ≠ 0 ∧
      (k.tcbs t).itskpri < (k.tcbs head).itskpri) ↔ (signalShare k s n).left = [] := by
    constructor
    · intro hall
      cases hleft : (signalShare k s n).left with
      | nil => rfl
      | cons head rest =>
        obtain ⟨hatr, hlt⟩ := hall head (by simp [hleft])
        have hmem : head ∈ (signalShare k s n).left := by simp [hleft]
        have hle := hlast hatr head (Grant.walk_left_sublist.subset hmem)
        omega
    · intro hnil head hhead
      simp [hnil] at hhead
  rw [may_take_iff, hs.queue, hs.cb]
  simp only [hs.itskpri, SEMCB.servesAll] at hempty ⊢
  rw [hempty, and_comm]

/-! ## Either order -/

theorem sem_either_granted (h : Caller k t) (he : tableEntry CFN_MAX_SEMID semid = some s) (hcnt : 0 < cnt)
    (hlive : k.Live (.sem s)) (hmax : cnt ≤ (k.semcbs s).maxsem)
    (hlast : (k.semcbs s).sematr &&& TA_TPRI ≠ 0 →
      ∀ u ∈ k.wait_queue (.sem s), (k.tcbs u).itskpri ≤ (k.tcbs t).itskpri)
    (hw : Waits k t (.sem semid cnt TMO_FEVR) (k.wait_queue (.sem s)) kW)
    (hcoreW : Core kW.toTasks kW.toObjects) (hn : 0 < n) (hroom : n ≤ (k.semcbs s).maxsem - (k.semcbs s).semcnt) :
    EitherOrder e k t (.sem semid cnt TMO_FEVR) (.sig_sem semid n) c kW := by
  have hobj : (WaitCall.sem semid cnt TMO_FEVR).obj = some (.sem s) := by simp [WaitCall.obj, he]
  have hnot := h.not_waiting (.sem s)
  have hgranted : t ∉ (signalShare k s n).granted := fun hmem => hnot (Grant.walk_granted_sublist.subset hmem)
  obtain ⟨kA, hA, hsA⟩ := signal_within (k := kW) (c := c) (n := n) hcoreW he (by rw [hw.objects]; exact hlive) hn
    (by rw [congrArg Objects.semcbs hw.objects]; exact hroom)
  obtain ⟨kP, hP, hsP⟩ := signal_within (c := c) (n := n) h.core he hlive hn hroom
  have hexecA : exec e (kW.within c) [] (.sig_sem semid n) = some (.ret { ercd := .E_OK }, kA) := by
    simp [exec, hA]
  have hexecP : exec e (k.within c) [] (.sig_sem semid n) = some (.ret { ercd := .E_OK }, kP) := by
    simp [exec, hP]
  have hmay := may_take_after cnt hlast hsP
  have hconcat := signalShare_concat (n := n) hw he hcnt hnot
  have hends := endsWaits_wakeAll (signalShare k s n).granted
  have hcaller := hends.caller (p := .sig_sem semid n) (r := { ercd := .E_OK }) hgranted h hsP.core hsP.tasks
  have hmaxP : cnt ≤ (kP.semcbs s).maxsem := by
    rw [hsP.cb]
    exact hmax
  have htasks := hsA.tasks
  have hobjects := hsA.objects
  have hqueue := hsA.queue
  by_cases hfits : ((k.semcbs s).servesAll ∨ (signalShare k s n).left = []) ∧ cnt ≤ (signalShare k s n).units
  · rw [if_pos hfits] at hconcat
    rw [hconcat] at htasks hobjects hqueue
    obtain ⟨kB, hB, hobjectsB, hqueueB, htcbsB⟩ :=
      performs_sem_take (e := e) hcaller he hcnt (hsP.live hlive) hmaxP (hmay.mpr hfits)
    have hwoken : kA.toTasks = Move.wakeEffect (wakeAll kW.toTasks (signalShare k s n).granted) t .E_OK := by
      rw [htasks]
      exact List.foldl_append
    apply EitherOrder.satisfied hends (endsWaits_wake t) hgranted hobj h.not_waiting hw hexecA hsA.core hexecP
      hwoken hsP.tasks (hqueue.trans hsP.queue.symm) hB _ hqueueB htcbsB
    · rw [hwoken]
      exact ⟨.inl (by simp [Move.wakeEffect]), by simp [WaitCall.result, Move.wakeEffect]⟩
    · rw [hwoken, ← hends.other kW.toTasks t hgranted]
      simp [Move.wakeEffect]
    · have hkB : kB.toObjects =
          kP.toObjects.setSem s { kP.semcbs s with semcnt := (kP.semcbs s).semcnt - cnt } := hobjectsB
      rw [hobjects, hkB, hsP.cb, hsP.objects, hw.objects]
      simp [Objects.setSem]
  · rw [if_neg hfits] at hconcat
    rw [hconcat] at htasks hobjects hqueue
    have hwait := performs_sem_wait (e := e) hcaller he hcnt (hsP.live hlive) hmaxP
      (Bool.eq_false_iff.mpr fun htake => hfits (hmay.mp htake)) (hsP.last hlast)
    apply EitherOrder.queued hends hgranted hobj hw hexecA hsA.core hexecP htasks hsP.tasks _ hqueue
    · rw [← hsP.queue]
      exact hwait
    · rw [hobjects, hsP.objects, hw.objects]

theorem sem_either (h : Caller k t) (hlast : QueuedLast k t (.sem semid cnt TMO_FEVR))
    (hw : Performs e k (.wait (.sem semid cnt TMO_FEVR)) .wait kW) :
    EitherOrder e k t (.sem semid cnt TMO_FEVR) (.sig_sem semid n) c kW := by
  obtain ⟨s, he, hcnt, hlive, hmax, htake, hlast', hwaits⟩ := performs_sem h hlast hw
  have hcaller : ∀ r, Caller (((k.within c).tasks (·.note (.ret (.sig_sem semid n) r))).within k.context) t :=
    fun r => ⟨h.core.noted _ r, h.mie, h.depth, h.current, h.run, h.pending⟩
  have hcoreW : Core kW.toTasks kW.toObjects := by
    rw [hwaits.tasks, hwaits.objects, ← queueBy_last hlast']
    exact waiting_sem_core h he hlive hcnt hmax
  have hliveW : kW.Live (.sem s) := by rw [hwaits.objects]; exact hlive
  have hcbW : kW.semcbs = k.semcbs := congrArg Objects.semcbs hwaits.objects
  have hobj : (WaitCall.sem semid cnt TMO_FEVR).obj = some (.sem s) := by simp [WaitCall.obj, he]
  by_cases hn : n ≤ 0
  · apply EitherOrder.refused (r := { ercd := .E_PAR }) hobj hwaits hcoreW
    · simp [exec, tk_sig_sem, he, hn]
    · simp [exec, tk_sig_sem, he, hn]
    · exact performs_sem_wait (hcaller _) he hcnt hlive hmax htake hlast'
  by_cases hroom : n > (k.semcbs s).maxsem - (k.semcbs s).semcnt
  · apply EitherOrder.refused (r := { ercd := .E_QOVR }) hobj hwaits hcoreW
    · simp [exec, signal_refused hcoreW he hliveW (show 0 < n by omega) (by rw [hcbW]; exact hroom)]
    · simp [exec, signal_refused h.core he hlive (show 0 < n by omega) hroom]
    · exact performs_sem_wait (hcaller _) he hcnt hlive hmax htake hlast'
  exact sem_either_granted h he hcnt hlive hmax hlast' hwaits hcoreW (by omega) (by omega)

end TsukumoCore
