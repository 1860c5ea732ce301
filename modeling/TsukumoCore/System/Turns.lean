import TsukumoCore.Calls.Produce
import TsukumoCore.System.Rank
import TsukumoCore.System.Release

/-! # No overtaking on a semaphore -/

namespace TsukumoCore

variable {e : Entries} {b : Boot} {k k' : Kernel} {q q' : Tasks} {x : Objects} {s : SemId} {t u : TskId}
  {m : Move} {a : Act}

/-! ## The grants of a step -/

/-- `u` waits on `s` when the step begins, and its wait does not end in `pre`. -/
def StillWaits (k : Kernel) (s : SemId) (pre : List Event) (u : TskId) : Prop :=
  u ∈ k.wait_queue (.sem s) ∧ ∀ ev ∈ pre, leaves ev ≠ some u

/-- A waiter ranks ahead of a new request, unless the priority of the request is higher and counts. -/
def AheadOfNew (q : Tasks) (atr : ATR) (u t : TskId) : Prop :=
  atr &&& TA_TPRI ≠ 0 → (q.tcbs u).itskpri ≤ (q.tcbs t).itskpri

/-- The units that the step signals. -/
def Act.signals (s : SemId) : Act → Int
  | .call (.sig_sem semid cnt) _ => if tableEntry CFN_MAX_SEMID semid = some s then cnt else 0
  | _ => 0

/-- The units there when `u` was passed over, in a step with the events `post`: those before the step and
those it signals, less those it grants to tasks in front of `u`. -/
def unitsFor (k : Kernel) (a : Act) (s : SemId) (post : List Event) (u : TskId) : Int :=
  Grant.availableTo (request k.toTasks) ((k.semcbs s).semcnt + a.signals s) (k.wait_queue (.sem s))
    (post.filterMap (gets s)) u

/-- What the order of a semaphore asks of a grant to the waiter `t` after the events `pre`. -/
def InOrder (k : Kernel) (a : Act) (s : SemId) (post pre : List Event) (t : TskId) : Prop :=
  ∀ u, StillWaits k s pre u →
    if (k.semcbs s).sematr &&& TA_CNT = 0 then ¬ Ahead k.toTasks (k.semcbs s).sematr u t
    else [u, t].Sublist (k.wait_queue (.sem s)) → unitsFor k a s post u < request k.toTasks u

/-- And of a grant to a new request of `t`. -/
def NewInOrder (k : Kernel) (s : SemId) (t : TskId) : Prop :=
  ∀ u ∈ k.wait_queue (.sem s),
    if (k.semcbs s).sematr &&& TA_CNT = 0 then ¬ AheadOfNew k.toTasks (k.semcbs s).sematr u t
    else (k.semcbs s).semcnt < request k.toTasks u

theorem Ranked.queue_of_ahead {o : Obj} (h : Ranked q x) (hu : u ∈ q.wait_queue o) (ht : t ∈ q.wait_queue o)
    (hahead : Ahead q (x.atr o) u t) : [u, t].Sublist (q.wait_queue o) := by
  have hrank := h.rank o
  obtain ⟨front, behind, hsplit⟩ := List.append_of_mem ht
  rw [hsplit] at hu hrank ⊢
  rcases List.mem_append.mp hu with hu | hu
  · exact (List.singleton_sublist.mpr hu).append (List.singleton_sublist.mpr List.mem_cons_self)
  · obtain ⟨-, hcons, -⟩ := List.pairwise_append.mp hrank
    rcases List.mem_cons.mp hu with rfl | hu
    · exact absurd hahead hahead.asymm
    · exact absurd hahead ((List.pairwise_cons.mp hcons).1 u hu).asymm

theorem Orderly.inOrder (ho : Orderly s k.toTasks q') (hrank : Ranked k.toTasks k.toObjects)
    {post pre suf : List Event} {ev : Event} (hpost : q'.log = k.log ++ post) (hsplit : post = pre ++ ev :: suf)
    (hev : gets s ev = some t) : InOrder k a s post pre t := by
  obtain ⟨post', hlog, hturn⟩ := ho
  obtain rfl : post = post' := List.append_cancel_left (hpost.symm.trans hlog)
  obtain ⟨ht, hfront⟩ := hturn.turn pre ev suf t hsplit hev
  rintro u ⟨hu, hstill⟩
  have hgone : ¬ [u, t].Sublist (k.wait_queue (.sem s)) := by
    intro hsub
    obtain ⟨ev', hev', hleave⟩ := hfront u hsub
    exact hstill ev' hev' hleave
  split
  · intro hahead
    exact hgone (hrank.queue_of_ahead hu ht hahead)
  · intro hsub
    exact absurd hsub hgone

/-! ## What grants -/

theorem tk_sig_sem_ok (h : Core k.toTasks k.toObjects) {semid cnt : Int} (hok : (tk_sig_sem k semid cnt).1 = .E_OK) :
    ∃ s, tableEntry CFN_MAX_SEMID semid = some s ∧ k.Live (.sem s) ∧ 0 < cnt ∧
      cnt ≤ (k.semcbs s).maxsem - (k.semcbs s).semcnt := by
  cases he : tableEntry CFN_MAX_SEMID semid with
  | none => exact absurd hok (by simp [tk_sig_sem, he])
  | some s =>
    by_cases hcnt : cnt ≤ 0
    · exact absurd hok (by simp [tk_sig_sem, he, hcnt])
    by_cases hexs : noexs (k.semcbs s).semid = true
    · exact absurd hok (by simp [tk_sig_sem, he, hcnt, hexs])
    have hlive : k.Live (.sem s) := Bool.eq_false_iff.mpr hexs
    rw [tk_sig_sem_eq h he hlive (by omega)] at hok
    split at hok
    · exact absurd hok (by simp)
    · exact ⟨s, rfl, hlive, by omega, by omega⟩

theorem filterMap_grants (h : Core q x) {granted : List TskId} (hmem : ∀ t ∈ granted, t ∈ q.wait_queue (.sem s)) :
    (granted.flatMap (grantEvents q)).filterMap (gets s) = granted := by
  induction granted with
  | nil => rfl
  | cons t rest ih =>
    obtain ⟨semid, cnt, tmout, hp, he, -⟩ := h.waiter (hmem t List.mem_cons_self)
    have hone : (grantEvents q t).filterMap (gets s) = [t] := by
      simp [grantEvents, hp, gets, he]
    rw [List.flatMap_cons, List.filterMap_append, hone, ih fun u hu => hmem u (List.mem_cons_of_mem t hu)]
    rfl

theorem Orderly.ret (h : Placed q) (ho : Orderly s q q') (c : Call) (r : Ret) : Orderly s q (q'.note (.ret c r)) := by
  have hret : Orderly s q' (q'.note (.ret c r)) := .quiet rfl (by simp [gets]) rfl
  exact ho.trans h hret

/-- A signal with `TA_CNT`: whoever was passed over asked for more than there was. -/
theorem signal_passed (h : Core k.toTasks k.toObjects) {n : Int} (hall : (k.semcbs s).servesAll = true)
    {ev : Event} {c : Call} {r : Ret} {pre suf : List Event}
    (hsplit : (signalShare k s n).granted.flatMap (grantEvents k.toTasks) ++ [.ret c r] = pre ++ ev :: suf)
    (hev : gets s ev = some t) (hstill : StillWaits k s pre u) (hsub : [u, t].Sublist (k.wait_queue (.sem s))) :
    Grant.availableTo (request k.toTasks) ((k.semcbs s).semcnt + n) (k.wait_queue (.sem s))
      (signalShare k s n).granted u < request k.toTasks u := by
  have hgranted : (signalShare k s n).granted.Sublist (k.wait_queue (.sem s)) := Grant.walk_granted_sublist
  have hnodup := h.tasks.wait_nodup (.sem s)
  have hturn : Turn.InTurn leaves (gets s) ((signalShare k s n).granted ++ []) []
      ((signalShare k s n).granted.flatMap (grantEvents k.toTasks)) := by
    apply grants_turn h fun t ht => hgranted.subset ht
    rw [List.append_nil]
    exact hnodup.sublist hgranted
  rw [List.append_nil] at hturn
  have hrest : Turn.InTurn leaves (gets s) (signalShare k s n).granted []
      ((signalShare k s n).granted.flatMap (grantEvents k.toTasks) ++ [.ret c r]) :=
    hturn.trans (hnodup.sublist hgranted) (Turn.inTurn_quiet (by simp [gets]))
  obtain ⟨ht, hfront⟩ := hrest.turn pre ev suf t hsplit hev
  have hu : u ∉ (signalShare k s n).granted := by
    intro hu
    obtain ⟨ev', hev', hleave⟩ := hfront u (Turn.sublist_pair hnodup hgranted hsub hu ht)
    exact hstill.2 ev' hev' hleave
  unfold signalShare at ht hu ⊢
  rw [hall] at ht hu ⊢
  exact Grant.walk_passed hnodup hsub ht hu

theorem sig_sem_inOrder (h : Inv k) (hrank : Ranked k.toTasks k.toObjects) {semid cnt : Int} {times : List Nat}
    {post pre suf : List Event} {ev : Event}
    (hpost : ((tk_sig_sem k semid cnt).2.toTasks.note
      (.ret (.sig_sem semid cnt) { ercd := (tk_sig_sem k semid cnt).1 })).log = k.log ++ post)
    (hsplit : post = pre ++ ev :: suf) (hev : gets s ev = some t) :
    InOrder k (.call (.sig_sem semid cnt) times) s post pre t := by
  by_cases hok : (tk_sig_sem k semid cnt).1 = .E_OK
  · obtain ⟨s', he, hlive, hcnt, hroom⟩ := tk_sig_sem_ok h.core hok
    obtain ⟨k1, heq, -, htasks, -⟩ := tk_sig_sem_granted h.core he hlive hcnt hroom
    rw [heq, htasks] at hpost
    have hmem : ∀ t ∈ (signalShare k s' cnt).granted, t ∈ k.wait_queue (.sem s') :=
      fun t ht => Grant.walk_granted_sublist.subset ht
    by_cases hall : s = s' ∧ (k.semcbs s').servesAll = true
    · obtain ⟨rfl, hall⟩ := hall
      have hatr : ¬ (k.semcbs s).sematr &&& TA_CNT = 0 := by simpa [SEMCB.servesAll] using hall
      have hlog : (signalShare k s cnt).granted.flatMap (grantEvents k.toTasks) ++
          [.ret (.sig_sem semid cnt) { ercd := .E_OK }] = post := by
        refine List.append_cancel_left (Eq.trans ?_ hpost)
        rw [← List.append_assoc, ← wakeAll_log]
        rfl
      have hgot : post.filterMap (gets s) = (signalShare k s cnt).granted := by
        rw [← hlog, List.filterMap_append, filterMap_grants h.core hmem]
        simp [gets]
      intro u hstill
      rw [if_neg hatr]
      intro hsub
      unfold unitsFor
      rw [hgot, show Act.signals s (.call (.sig_sem semid cnt) times) = cnt by simp [Act.signals, he]]
      exact signal_passed h.core hall (hlog.trans hsplit) hev hstill hsub
    · have hfront : s = s' → k.wait_queue (.sem s') = (signalShare k s' cnt).granted ++
          (signalShare k s' cnt).left := by
        intro hs
        have hfirst : (k.semcbs s').servesAll = false := Bool.eq_false_iff.mpr fun hs' => hall ⟨hs, hs'⟩
        unfold signalShare
        rw [hfirst]
        exact Grant.walk_first
      have ho := wakeAll_orderly h.core hmem hfront
      exact (ho.ret h.core.tasks.toPlaced _ _).inOrder hrank hpost hsplit hev
  · rw [((tk_sig_sem_answers h.core semid cnt).refused _ rfl hok).1] at hpost
    have ho := Orderly.ret h.core.tasks.toPlaced (.same (s := s) (q := k.toTasks) rfl rfl) (.sig_sem semid cnt)
      { ercd := (tk_sig_sem k semid cnt).1 }
    exact ho.inOrder hrank hpost hsplit hev

theorem rel_wai_orderly (h : Inv k) (tskid : Int) (s : SemId) :
    Orderly s k.toTasks (tk_rel_wai k tskid).2.toTasks := by
  by_cases hok : (tk_rel_wai k tskid).1 = .E_OK
  · cases ht : tableEntry CFN_MAX_TSKID tskid with
    | none => exact absurd hok (by simp [tk_rel_wai, ht])
    | some t =>
      have hex : (k.tcbs t).tskstat ≠ .NOEXS := by
        intro hno
        exact absurd hok (by simp [tk_rel_wai, ht, hno])
      by_cases hwai : (k.tcbs t).tskstat = .WAI ∧ k.current ≠ some t
      · obtain ⟨w, hp, -⟩ := h.core.waiting hwai.1
        have ha : (Move.wake t w .E_RLWAI).Allowed k.toTasks := ⟨hwai.1, hp, by simp, by simp⟩
        rw [rel_wai_released ht hwai.2 hwai.1, EI_toTasks, request_switch_toTasks]
        exact complete_wait_orderly (k := k.DI) h.core ha (by simp) h.served s
      · have hno : k.current = some t ∨ (k.tcbs t).tskstat ≠ .WAI := by
          by_cases hcur : k.current = some t
          · exact .inl hcur
          · exact .inr fun hs => hwai ⟨hs, hcur⟩
        rw [rel_wai_refused ht hex hno] at hok
        cases hok
  · rw [((tk_rel_wai_answers tskid).refused _ rfl hok).1]
    exact .same rfl rfl

theorem serve_msip_orderly (h : Inv k) (sp : UINT) (s : SemId) : Orderly s k.toTasks (serve_msip k sp).toTasks := by
  rcases serve_msip_eq h.sched h.core.tasks.toPlaced sp with ⟨hsame, -⟩ | ⟨old, new, -, -, -, -, heq⟩
  · rw [hsame]
    exact .same rfl rfl
  · rw [heq]
    exact .quiet (Move.log_effect k.toTasks (.dispatch old new sp)) (by simp [Move.events, gets]) rfl

theorem grants_step (h : Inv k) (hk : step e k a = some k') {post : List Event} (hpost : k'.log = k.log ++ post)
    {ev : Event} (hmem : ev ∈ post) (hev : gets s ev = some t) :
    (∃ semid cnt times, a = .call (.sig_sem semid cnt) times) ∨
      (∃ tskid times, a = .call (.rel_wai tskid) times) ∨ ∃ times sp, a = .timer_interrupt times sp := by
  obtain ⟨m, q, hm, ha, hin⟩ := (step_ok h hk).does.event hpost hmem
  have hwake : ∃ u w, m = .wake u w .E_OK ∧ w.kind = .SEM := by
    cases m with
    | wake u w cause =>
      simp only [Move.events, ha.2.1, List.mem_cons, List.not_mem_nil, or_false] at hin
      rcases hin with rfl | rfl
      · cases w with
        | sem =>
          have hcause : cause = .E_OK := by
            by_contra hne
            simp [gets, hne] at hev
          exact ⟨u, _, by rw [hcause], rfl⟩
        | _ => cases hev
      · cases hev
    | give u w d =>
      obtain ⟨-, hp, hd⟩ := ha
      simp only [Move.events, hp, List.mem_cons, List.not_mem_nil, or_false] at hin
      rcases hin with rfl | rfl | rfl
      · cases hev
      · cases w with
        | sem => exact absurd hd (by simp)
        | _ => cases hev
      · cases hev
    | block | start | yield | dispatch | finish | note =>
      rw [List.mem_singleton.mp hin] at hev
      cases hev
    | _ => exact absurd hin List.not_mem_nil
  obtain ⟨u, w, rfl, hkind⟩ := hwake
  cases a with
  | call c times =>
    have hwakes := hm.2 rfl
    rw [hkind] at hwakes
    cases c with
    | sig_sem semid cnt => exact .inl ⟨semid, cnt, times, rfl⟩
    | rel_wai tskid => exact .inr (.inl ⟨tskid, times, rfl⟩)
    | _ => exact absurd hwakes id
  | timer_interrupt times sp => exact .inr (.inr ⟨times, sp, rfl⟩)
  | _ => exact absurd hm id

theorem step_inOrder (h : Inv k) (hrank : Ranked k.toTasks k.toObjects) (hk : step e k a = some k')
    {post pre suf : List Event} {ev : Event} (hpost : k'.log = k.log ++ post) (hsplit : post = pre ++ ev :: suf)
    (hev : gets s ev = some t) : InOrder k a s post pre t := by
  have hmem : ev ∈ post := by
    rw [hsplit]
    simp
  rcases grants_step h hk hpost hmem hev with ⟨semid, cnt, times, rfl⟩ | ⟨tskid, times, rfl⟩ | ⟨times, sp, rfl⟩
  · simp only [step, Option.ite_none_right_eq_some, Option.map_eq_some_iff] at hk
    obtain ⟨-, ⟨flow, k1⟩, hx, rfl⟩ := hk
    obtain ⟨rfl, rfl⟩ : .ret { ercd := (tk_sig_sem k semid cnt).1 } = flow ∧ _ = k1 := by simpa [exec] using hx
    exact sig_sem_inOrder h hrank hpost hsplit hev
  · simp only [step, Option.ite_none_right_eq_some, Option.map_eq_some_iff] at hk
    obtain ⟨-, ⟨flow, k1⟩, hx, rfl⟩ := hk
    obtain ⟨rfl, rfl⟩ : .ret { ercd := (tk_rel_wai k tskid).1 } = flow ∧ _ = k1 := by simpa [exec] using hx
    exact ((rel_wai_orderly h tskid s).ret h.core.tasks.toPlaced _ _).inOrder hrank hpost hsplit hev
  · simp only [step, Option.ite_none_right_eq_some, Option.map_eq_some_iff] at hk
    obtain ⟨-, k1, hk1, rfl⟩ := hk
    have hhandler : Orderly s k.toTasks k1.toTasks := timer_handler_orderly h.entered.core h.entered.served hk1 s
    have hrest := serve_msip_orderly (timer_handler_ends h.entered hk1).1 sp s
    exact (hhandler.trans h.core.tasks.toPlaced hrest).inOrder hrank hpost hsplit hev

/-! ## The immediate grant -/

theorem Inv.stuck (h : Inv k) (hlive : k.Live (.sem s)) :
    Grant.Stuck (k.semcbs s).servesAll (request k.toTasks) (k.semcbs s).semcnt (k.wait_queue (.sem s)) :=
  stuck_of_served (h.served (.sem s) hlive)

theorem newInOrder_of_take (h : Inv k) (hrank : Ranked k.toTasks k.toObjects) (hlive : k.Live (.sem s)) {cnt : Int}
    (htake : may_take k s t cnt = true) : NewInOrder k s t := by
  obtain ⟨-, hfirst⟩ := may_take_iff.mp htake
  have hstuck := h.stuck hlive
  intro u hu
  split
  · rename_i hatr
    have hno : (k.semcbs s).servesAll = false := by simp [SEMCB.servesAll, hatr]
    rw [hno] at hfirst
    have hhead := hfirst.resolve_left (by simp)
    cases hq : k.wait_queue (.sem s) with
    | nil =>
      rw [hq] at hu
      exact absurd hu List.not_mem_nil
    | cons head rest =>
      obtain ⟨hpri, hless⟩ := hhead head (by rw [hq]; rfl)
      have hle : (k.tcbs head).itskpri ≤ (k.tcbs u).itskpri := by
        rw [hq] at hu
        rcases List.mem_cons.mp hu with rfl | hu
        · exact Int.le_refl _
        · have hpairs := hrank.rank (.sem s)
          rw [hq] at hpairs
          exact Ahead.le hpri ((List.pairwise_cons.mp hpairs).1 u hu)
      intro hahead
      have := hahead hpri
      omega
  · rename_i hatr
    have hyes : (k.semcbs s).servesAll = true := by simpa [SEMCB.servesAll] using hatr
    rw [hyes] at hstuck
    exact hstuck u hu

theorem ret_step (h : Inv k) (hk : step e k a = some k') {post : List Event} (hpost : k'.log = k.log ++ post)
    {c : Call} {r : Ret} (hmem : .ret c r ∈ post) : ∃ times, a = .call c times := by
  obtain ⟨m, q, hm, ha, hin⟩ := (step_ok h hk).does.event hpost hmem
  have hnote : m = .note c r := by
    cases m with
    | note c' r' =>
      obtain ⟨rfl, rfl⟩ := Event.ret.inj (List.mem_singleton.mp hin)
      rfl
    | wake | give => simp [Move.events] at hin
    | block | start | yield | dispatch | finish => cases List.mem_singleton.mp hin
    | _ => exact absurd hin List.not_mem_nil
  subst hnote
  cases a with
  | call c' times =>
    obtain rfl : c = c' := hm
    exact ⟨times, rfl⟩
  | _ => exact absurd hm id

theorem step_newInOrder (h : Inv k) (hrank : Ranked k.toTasks k.toObjects) (hk : step e k a = some k')
    {post : List Event} (hpost : k'.log = k.log ++ post) {semid cnt tmout : Int} {r : Ret}
    (hmem : .ret (.wait (.sem semid cnt tmout)) r ∈ post) (hr : r.ercd = .E_OK)
    (he : tableEntry CFN_MAX_SEMID semid = some s) (ht : k.current = some t) : NewInOrder k s t := by
  obtain ⟨times, rfl⟩ := ret_step h hk hpost hmem
  simp only [step, Option.ite_none_right_eq_some, Option.map_eq_some_iff] at hk
  obtain ⟨hcan, ⟨flow, k1⟩, hx, rfl⟩ := hk
  have hx : tk_wai_sem k semid cnt tmout times = (flow, k1) := by simpa [exec] using hx
  have hanswers := tk_wai_sem_answers (k := k) semid cnt tmout times
  have hok : ∀ r', (tk_wai_sem k semid cnt tmout times).1 = .ret r' → r'.ercd = .E_OK := by
    intro r' hflow
    by_contra hne
    obtain ⟨hsame, -⟩ := hanswers.refused r' hflow hne
    rw [hx] at hflow hsame
    obtain rfl : flow = .ret r' := hflow
    obtain rfl : k1 = k := hsame
    rw [← List.append_cancel_left hpost] at hmem
    rw [(Event.ret.inj (List.mem_singleton.mp hmem)).2] at hr
    exact hne hr
  obtain ⟨s', he', hcnt, htmo, hblock, hlive, hmax⟩ := tk_wai_sem_checks hok
  obtain rfl : s = s' := Option.some.inj (he.symm.trans he')
  have hcaller := Caller.of_good h.toGood hcan hblock ht
  have heq : tk_wai_sem k semid cnt tmout times = _ := tk_wai_sem_eq hcaller he hlive hcnt hmax htmo
  apply newInOrder_of_take h hrank hlive
  by_contra htake
  rw [if_neg htake] at heq
  split at heq
  · exact absurd (hok { ercd := .E_TMOUT } (by rw [heq])) (by simp)
  · -- a wait puts no return on record
    obtain ⟨q, timed, hcounted, htasks⟩ := begin_wait_tasks (w := .sem semid cnt tmout) hcaller rfl
      (queueBy k.toTasks t (k.semcbs s).sematr (k.wait_queue (.sem s))) times
    have hlog : q.log = k.log := by
      rcases hcounted with rfl | ⟨-, rfl⟩ <;> rfl
    obtain ⟨rfl, rfl⟩ := Prod.mk.inj (hx.symm.trans heq)
    have hblock := congrArg Tasks.log htasks
    rw [Move.log_effect, hlog] at hblock
    rw [← List.append_cancel_left (hblock.symm.trans hpost)] at hmem
    cases List.mem_singleton.mp hmem

/-- **No overtaking**: in every step of a run, units of a semaphore go to waiters, and to a new request, in
its order. -/
theorem no_overtaking (h : Reachable b k) (hk : step b.entries k a = some k') {post : List Event}
    (hpost : k'.log = k.log ++ post) :
    (∀ s t pre ev suf, post = pre ++ ev :: suf → gets s ev = some t → InOrder k a s post pre t) ∧
      ∀ semid cnt tmout r s t, .ret (.wait (.sem semid cnt tmout)) r ∈ post → r.ercd = .E_OK →
        tableEntry CFN_MAX_SEMID semid = some s → k.current = some t → NewInOrder k s t := by
  have hrank := h.ranked
  refine ⟨?_, ?_⟩
  · intro s t pre ev suf hsplit hev
    exact step_inOrder h.inv hrank hk hpost hsplit hev
  · intro semid cnt tmout r s t hmem hr he ht
    exact step_newInOrder h.inv hrank hk hpost hmem hr he ht

/-- Two tasks wait on a semaphore without units, the first for two and the second for one. -/
def passedRun : List Act :=
  [.call (.cre_tsk (some { exinf := 0, tskatr := TA_USERBUF, task := 0x80004000, itskpri := 1, stksz := 512,
                           bufptr := 0x80020000 })) [],
    .call (.cre_tsk (some { exinf := 0, tskatr := TA_USERBUF, task := 0x80005000, itskpri := 1, stksz := 512,
                            bufptr := 0x80030000 })) [],
    .call (.cre_sem (some { exinf := 0, sematr := TA_CNT, isemcnt := 0, maxsem := 2 })) [],
    .call (.sta_tsk 3 0) [], .call (.sta_tsk 4 0) [], .call (.wait (.dly 0)) [], .resume, .software_interrupt 0,
    .call (.wait (.sem 1 2 TMO_FEVR)) [], .software_interrupt 0, .call (.wait (.sem 1 1 TMO_FEVR)) [],
    .software_interrupt 0]

/-- What a signal of one unit puts on record then. -/
def passedPost : List Event :=
  [.complete 3 (some (.wait (.sem 1 1 TMO_FEVR))) .E_OK (.semaphore 1 0), .enqueue 3,
    .ret (.sig_sem 1 1) { ercd := .E_OK }]

theorem no_overtaking_passedRun : ∃ k, sampleRun passedRun = some k ∧ k.wait_queue (.sem 0) = [2, 3] ∧
    passedPost.filterMap (gets 0) = [3] ∧ InOrder k (.call (.sig_sem 1 1) []) 0 passedPost [] 3 := by
  obtain ⟨k, hk, hqueue, hstep⟩ := sampleRun_of_any passedRun (fun k => k.wait_queue (.sem 0) = [2, 3] ∧
    (step sampleBoot.entries k (.call (.sig_sem 1 1) [])).any (fun k' => decide (k'.log = k.log ++ passedPost)) =
      true) (by decide +kernel)
  obtain ⟨k', hk', hlog⟩ := (Option.any_eq_true _ _).mp hstep
  have hgrants := no_overtaking (sampleRun_reachable hk) hk' (of_decide_eq_true hlog)
  exact ⟨k, hk, hqueue, by decide, hgrants.1 0 3 [] _ _ rfl (by decide)⟩

end TsukumoCore
