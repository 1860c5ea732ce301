import TsukumoCore.Lib.Front
import TsukumoCore.System.Semaphores
import TsukumoCore.System.Turns

/-!
# Bounded waiting on a semaphore

On a semaphore that serves its waiters in the order of arrival, the units that a waiter and those in front of it
ask for bound the units that can be signalled before its wait ends.
-/

namespace TsukumoCore

variable {e : Entries} {b : Boot} {k k' : Kernel} {q q' : Tasks} {x : Objects} {s : SemId} {t u : TskId}
  {m : Move} {a : Act} {post : List Event}

/-! ## One move -/

/-- What was granted to a waiter up to `t` in `queue`. -/
def grantedAhead (s : SemId) (t : TskId) (queue : List TskId) (ev : Event) : Int :=
  (gets s ev).elim 0 fun u => if (Front.upTo t queue).contains u then granted s ev else 0

theorem Core.request_nonneg (h : Core q x) (hu : u ∈ q.wait_queue (.sem s)) : 0 ≤ request q u := by
  obtain ⟨-, cnt, -, -, -, hinfo, -, hcnt, -⟩ := h.waiter hu
  simp only [request, hinfo, WaitInfo.semcnt]
  omega

theorem request_effect (h : Placed q) (ha : m.Allowed q) (hm : m.joinsNone)
    (hu : u ∈ (m.effect q).wait_queue (.sem s)) : request (m.effect q) u = request q u := by
  have hmem := (Move.joinsNone_queue hm (.sem s)).subset hu
  have hwai := (h.pending_of_mem hmem).1
  have hother : ∀ w, (q.tcbs w).active → u ≠ w := by
    rintro w hact rfl
    exact hact.stat_ne_wai hwai
  unfold request
  cases m with
  | wake w call cause =>
    have hne : u ≠ w := by
      rintro rfl
      exact (h.wait_nodup (.sem s)).not_mem_erase hu
    simp [Move.effect, Move.wakeEffect, hne]
  | give w call d =>
    have hne : u ≠ w := by
      rintro rfl
      exact (h.wait_nodup (.sem s)).not_mem_erase hu
    simp [Move.effect, Move.wakeEffect, Move.setInfo, Tasks.setTcb, Tasks.note, hne]
  | create w pk frame =>
    have hne : u ≠ w := by
      rintro rfl
      have hfree := (h.task u).free.mp (List.mem_of_mem_head? ha.1)
      cases hwai.symm.trans hfree
    simp [Move.effect, hne]
  | start w frame =>
    have hne : u ≠ w := by
      rintro rfl
      cases hwai.symm.trans ha
    simp [Move.effect, hne]
  | block w call queue timed => simp [Move.effect, hother w ha.1]
  | exit w | exitDelete w | finish w call => simp [Move.effect, hother w ha.1]
  | dispatch old new sp =>
    simp only [Move.effect, Tasks.note, Tasks.setTcb]
    by_cases hnew : u = new
    · subst hnew
      by_cases hold : u = old
      · subst hold; simp
      · simp [hold]
    · by_cases hold : u = old
      · subst hold; simp [hnew]
      · simp [hnew, hold]
  | launch w | queueWakeup w | useWakeup w =>
    by_cases hw : u = w
    · subst hw; simp [Move.effect, Tasks.setTcb]
    · simp [Move.effect, Tasks.setTcb, hw]
  | tick n => by_cases hmem : u ∈ q.timer_queue <;> simp [Move.effect, hmem]
  | _ => rfl

theorem complete_gets (h : Ok q) {w : WaitCall} {cause : ER} {info : WaitInfo} (hwai : (q.tcbs u).tskstat = .WAI)
    (hp : q.pending u = some (.wait w)) {v : TskId} (hget : gets s (.complete u (some (.wait w)) cause info) = some v) :
    v = u ∧ u ∈ q.wait_queue (.sem s) ∧ granted s (.complete u (some (.wait w)) cause info) = request q u := by
  cases w with
  | sem semid cnt tmout =>
    simp only [gets, Option.ite_none_right_eq_some] at hget
    obtain ⟨⟨hcause, hentry⟩, hv⟩ := hget
    have hmem : u ∈ q.wait_queue (.sem s) := (h.mem_wait hwai hp).mpr (by simp [WaitCall.obj, hentry])
    obtain ⟨s', hs', hinfo⟩ := h.info u _ hwai hp
    refine ⟨(Option.some.inj hv).symm, hmem, ?_⟩
    simp [granted, hcause, hentry, request, hinfo, WaitInfo.semcnt]
  | _ => cases hget

theorem gets_give {w : WaitCall} {d : Delivery} (ha : (Move.give u w d).Allowed q) :
    ∀ ev ∈ (Move.give u w d).events q, gets s ev = none := by
  obtain ⟨-, hp, hd⟩ := ha
  intro ev hev
  simp only [Move.events, hp, List.mem_cons, List.not_mem_nil, or_false] at hev
  rcases hev with rfl | rfl | rfl
  · rfl
  · cases w with
    | sem => exact absurd hd (by simp)
    | _ => rfl
  · rfl

theorem Move.gets_mem (h : Ok q) (ha : m.Allowed q) {ev : Event} (hev : ev ∈ m.events q) (hget : gets s ev = some u) :
    u ∈ q.wait_queue (.sem s) := by
  cases m with
  | wake v w cause =>
    simp only [events, ha.2.1, List.mem_cons, List.not_mem_nil, or_false] at hev
    rcases hev with rfl | rfl
    · obtain ⟨rfl, hmem, -⟩ := complete_gets h ha.1 ha.2.1 hget
      exact hmem
    · cases hget
  | give v w d => cases hget.symm.trans (gets_give ha ev hev)
  | block | start | yield | dispatch | finish | note =>
    rw [List.mem_singleton.mp hev] at hget
    cases hget
  | _ => exact absurd hev List.not_mem_nil

theorem grantedAhead_silent {queue : List TskId} {events : List Event} (h : ∀ ev ∈ events, gets s ev = none) :
    (events.map (grantedAhead s t queue)).sum = 0 := by
  have hzero : events.map (grantedAhead s t queue) = events.map fun _ => 0 := by
    refine List.map_congr_left fun ev hev => ?_
    unfold grantedAhead
    rw [h ev hev]
    rfl
  rw [hzero]
  simp

theorem Move.asked {f : TskId → Int} {queue : List TskId} (h : Ok q) (ha : m.Allowed q) (hm : m.joinsNone)
    (ht : t ∈ q.wait_queue (.sem s)) (hstays : ∀ ev ∈ m.events q, leaves ev ≠ some t)
    (hf : ∀ u ∈ q.wait_queue (.sem s), request q u = f u) (hnonneg : ∀ u ∈ queue, 0 ≤ f u)
    (hnodup : queue.Nodup) (hsub : (q.wait_queue (.sem s)).Sublist queue) :
    t ∈ (m.effect q).wait_queue (.sem s) ∧
      Front.asked f t ((m.effect q).wait_queue (.sem s)) + ((m.events q).map (grantedAhead s t queue)).sum ≤
        Front.asked f t (q.wait_queue (.sem s)) := by
  have hquiet (hevents : ∀ ev ∈ m.events q, gets s ev = none)
      (hqueue : (m.effect q).wait_queue (.sem s) = q.wait_queue (.sem s)) :
      t ∈ (m.effect q).wait_queue (.sem s) ∧
        Front.asked f t ((m.effect q).wait_queue (.sem s)) + ((m.events q).map (grantedAhead s t queue)).sum ≤
          Front.asked f t (q.wait_queue (.sem s)) := by
    rw [hqueue, grantedAhead_silent hevents, Int.add_zero]
    exact ⟨ht, Int.le_refl _⟩
  have hnonneg' : ∀ u ∈ q.wait_queue (.sem s), 0 ≤ f u := fun u hu => hnonneg u (hsub.subset hu)
  cases m with
  | wake u w cause =>
    have hne : u ≠ t := fun heq => hstays _ List.mem_cons_self (by rw [heq]; rfl)
    have hmem : t ∈ (q.wait_queue (.sem s)).erase u := (List.mem_erase_of_ne hne.symm).mpr ht
    refine ⟨hmem, ?_⟩
    simp only [events, List.map_cons, List.map_nil, List.sum_cons, List.sum_nil]
    have henqueue : grantedAhead s t queue (.enqueue u) = 0 := rfl
    rw [henqueue, ha.2.1]
    unfold grantedAhead
    cases hget : gets s (.complete u (some (.wait w)) cause (q.tcbs u).winfo) with
    | none =>
      have hle := Front.asked_erase_le (f := f) hne hnonneg'
      simp only [effect, wakeEffect, Option.elim_none]
      omega
    | some v =>
      obtain ⟨rfl, hqueue, hgranted⟩ := complete_gets h ha.1 ha.2.1 hget
      simp only [effect, wakeEffect, Option.elim_some]
      split
      · rename_i hfront
        have hfront' := Front.mem_upTo_of_sublist hnodup hsub hqueue ht (List.contains_iff_mem.mp hfront)
        have hsum := Front.asked_erase_of_mem (f := f) hne hfront'
        rw [hgranted, hf v hqueue]
        omega
      · have hle := Front.asked_erase_le (f := f) hne hnonneg'
        omega
  | give u w d =>
    have hne : u ≠ t := by
      rintro rfl
      exact hstays _ (List.mem_cons_of_mem _ List.mem_cons_self) rfl
    refine ⟨(List.mem_erase_of_ne hne.symm).mpr ht, ?_⟩
    rw [grantedAhead_silent (gets_give ha), Int.add_zero]
    exact Front.asked_erase_le hne hnonneg'
  | block u w queue' timed =>
    refine hquiet (by simp [events, gets]) ?_
    simp [effect, hm u w queue' timed rfl]
  | start | yield | dispatch | finish | note => exact hquiet (by simp [events, gets]) rfl
  | _ => exact hquiet (by simp [events]) rfl

/-! ## One step -/

/-- From `q` to `q'`, with the events `post`, `t` stays on the queue of `s`, and what those up to `t` ask for
falls by what `paid` of it. -/
structure Falls (s : SemId) (t : TskId) (paid : Event → Int) (q q' : Tasks) (post : List Event) : Prop where
  stays : t ∈ q'.wait_queue (.sem s)
  asked : Front.asked (request q') t (q'.wait_queue (.sem s)) + (post.map paid).sum ≤
    Front.asked (request q) t (q.wait_queue (.sem s))

theorem Does.falls {P : Move → Prop} (hd : Does P q q') (h : Core q x) (hP : ∀ m, P m → m.joinsNone)
    (ht : t ∈ q.wait_queue (.sem s)) (hpost : q'.log = q.log ++ post) (hstays : ∀ ev ∈ post, leaves ev ≠ some t) :
    Falls s t (grantedAhead s t (q.wait_queue (.sem s))) q q' post ∧
      ∀ ev ∈ post, ∀ u, gets s ev = some u → u ∈ q.wait_queue (.sem s) := by
  have hkeep := hd.keeps (I := fun q' => Ok q' ∧ ∃ post, q'.log = q.log ++ post ∧
    ((∀ ev ∈ post, leaves ev ≠ some t) → t ∈ q'.wait_queue (.sem s) ∧
      (q'.wait_queue (.sem s)).Sublist (q.wait_queue (.sem s)) ∧
      (∀ u ∈ q'.wait_queue (.sem s), request q' u = request q u) ∧
      (∀ ev ∈ post, ∀ u, gets s ev = some u → u ∈ q.wait_queue (.sem s)) ∧
      Front.asked (request q) t (q'.wait_queue (.sem s)) +
        (post.map (grantedAhead s t (q.wait_queue (.sem s)))).sum ≤
        Front.asked (request q) t (q.wait_queue (.sem s)))) ?_ ?_
  · obtain ⟨-, post', hlog, hfalls⟩ := hkeep
    obtain rfl : post = post' := List.append_cancel_left (hpost.symm.trans hlog)
    obtain ⟨hmem, -, hreq, hgets, hasked⟩ := hfalls hstays
    refine ⟨⟨hmem, ?_⟩, hgets⟩
    rwa [Front.asked_congr hmem hreq]
  · rintro m q' hm ha ⟨hok, post, hlog, hfalls⟩
    refine ⟨Move.ok hok ha, post ++ m.events q', by rw [Move.log_effect, hlog, List.append_assoc], ?_⟩
    intro hstays
    obtain ⟨hmem, hsub, hreq, hgets, hasked⟩ := hfalls fun ev hev => hstays ev (List.mem_append_left _ hev)
    have hmove := Move.asked hok ha (hP m hm) hmem (fun ev hev => hstays ev (List.mem_append_right _ hev)) hreq
      (fun _ hu => h.request_nonneg hu) (h.tasks.wait_nodup (.sem s)) hsub
    have hless := Move.joinsNone_queue (q := q') (hP m hm) (.sem s)
    refine ⟨hmove.1, hless.trans hsub, ?_, ?_, ?_⟩
    · intro u hu
      rw [request_effect hok.toPlaced ha (hP m hm) hu]
      exact hreq u (hless.subset hu)
    · intro ev hev u hu
      rcases List.mem_append.mp hev with hev | hev
      · exact hgets ev hev u hu
      · exact hsub.subset (Move.gets_mem hok ha hev hu)
    · rw [List.map_append, List.sum_append]
      omega
  · refine ⟨h.tasks, [], by simp, fun _ => ⟨ht, List.Sublist.refl _, fun _ _ => rfl, by simp, ?_⟩⟩
    simp

theorem granted_ahead (h : Inv k) (hrank : Ranked k.toTasks k.toObjects) (hk : step e k a = some k')
    (hfirst : (k.semcbs s).sematr &&& TA_CNT = 0) (ht : t ∈ k.wait_queue (.sem s))
    (hpost : k'.log = k.log ++ post) (hstays : ∀ ev ∈ post, leaves ev ≠ some t)
    (hgets : ∀ ev ∈ post, ∀ u, gets s ev = some u → u ∈ k.wait_queue (.sem s))
    (hno : ∀ w times, a = .call (.wait w) times → w.obj ≠ some (.sem s)) :
    post.map (granted s) = post.map (grantedAhead s t (k.wait_queue (.sem s))) := by
  refine List.map_congr_left fun ev hev => ?_
  cases hget : gets s ev with
  | some u =>
    obtain ⟨pre, suf, hsplit⟩ := List.append_of_mem hev
    have horder := step_inOrder h hrank hk hpost hsplit hget t ⟨ht, ?_⟩
    · rw [if_pos hfirst] at horder
      have hfront := Front.mem_upTo_of_not (hrank.rank (.sem s)) (hgets ev hev u hget) ht horder
      simp [grantedAhead, hget, hfront]
    · intro ev' hev'
      exact hstays ev' (by rw [hsplit]; exact List.mem_append_left _ hev')
  | none =>
    unfold grantedAhead
    rw [hget]
    cases ev with
    | ret c r =>
      cases c with
      | wait w =>
        cases w with
        | sem semid cnt tmout =>
          obtain ⟨times, rfl⟩ := ret_step h hk hpost hev
          have hobj := hno _ _ rfl
          have hentry : tableEntry CFN_MAX_SEMID semid ≠ some s := by
            intro he
            exact hobj (by simp [WaitCall.obj, he])
          simp [granted, hentry]
        | _ => rfl
      | _ => rfl
    | complete u p cause info =>
      cases p with
      | none => rfl
      | some p =>
        cases p with
        | yield => rfl
        | wait w =>
          cases w with
          | sem semid cnt tmout =>
            simp only [gets, ite_eq_right_iff, reduceCtorEq, imp_false] at hget
            simp [granted, hget]
          | _ => rfl
    | _ => rfl

theorem joined_falls (hfifo : (k.semcbs s).sematr &&& TA_TPRI = 0) (h : Core k.toTasks k.toObjects)
    (ht : t ∈ k.wait_queue (.sem s)) {w : WaitCall} {times : List Nat} {timed : Option Nat} {o : Obj}
    (hobj : w.obj = some o) (hcounted : Counted k w times q) (hact : (k.tcbs u).active) :
    Falls s t (granted s) k.toTasks
      ((Move.block u w (queueBy k.toTasks u (k.atr o) (k.wait_queue o)) timed).effect q) [.block u w] := by
  have hsame : q.tcbs = k.tcbs ∧ q.wait_queue = k.wait_queue := by
    rcases hcounted with rfl | ⟨-, rfl⟩ <;> exact ⟨rfl, rfl⟩
  have hreq : ∀ v ∈ k.wait_queue (.sem s), request ((Move.block u w
      (queueBy k.toTasks u (k.atr o) (k.wait_queue o)) timed).effect q) v = request k.toTasks v := by
    intro v hv
    have hne : v ≠ u := by
      rintro rfl
      exact hact.stat_ne_wai (h.tasks.pending_of_mem hv).1
    simp [request, Move.effect, hne, hsame.1]
  have hqueue : ((Move.block u w (queueBy k.toTasks u (k.atr o) (k.wait_queue o)) timed).effect q).wait_queue (.sem s) =
      k.wait_queue (.sem s) ∨
      ((Move.block u w (queueBy k.toTasks u (k.atr o) (k.wait_queue o)) timed).effect q).wait_queue (.sem s) =
        k.wait_queue (.sem s) ++ [u] := by
    simp only [Move.effect, hobj, Option.some.injEq, hsame.2]
    split
    · rename_i ho
      subst ho
      right
      show queueBy k.toTasks u (k.semcbs s).sematr (k.wait_queue (.sem s)) = _
      rw [queueBy, if_neg (by simp [hfifo])]
    · exact .inl rfl
  have hzero : ([Event.block u w].map (granted s)).sum = 0 := rfl
  rcases hqueue with heq | heq
  · refine ⟨by rwa [heq], ?_⟩
    rw [heq, hzero, Front.asked_congr ht hreq]
    omega
  · refine ⟨by rw [heq]; exact List.mem_append_left _ ht, ?_⟩
    rw [heq, hzero, Front.asked_concat ht, Front.asked_congr ht hreq]
    omega

theorem step_falls (h : Inv k) (hrank : Ranked k.toTasks k.toObjects) (hk : step e k a = some k')
    (hfirst : (k.semcbs s).sematr &&& TA_CNT = 0) (hfifo : (k.semcbs s).sematr &&& TA_TPRI = 0)
    (ht : t ∈ k.wait_queue (.sem s)) (hpost : k'.log = k.log ++ post) (hstays : ∀ ev ∈ post, leaves ev ≠ some t) :
    Falls s t (granted s) k.toTasks k'.toTasks post := by
  by_cases ha : ∃ w o times, a = .call (.wait w) times ∧ w.obj = some o
  · obtain ⟨w, o, times, rfl, hobj⟩ := ha
    have hstep := hk
    simp only [step, Option.ite_none_right_eq_some, Option.map_eq_some_iff] at hk
    obtain ⟨hcan, ⟨flow, k1⟩, hx, rfl⟩ := hk
    cases wait_joins h.toGood hcan hobj hx with
    | @returned r _ hsame =>
      have hnote : (leave_call k1 (.wait w) (.ret r)).toTasks = k.toTasks.note (.ret (.wait w) r) := by
        show Tasks.note _ _ = _
        rw [hsame]
      rw [hnote] at hpost ⊢
      obtain rfl : [.ret (.wait w) r] = post := List.append_cancel_left hpost
      have hzero : granted s (.ret (.wait w) r) = 0 := by
        cases w with
        | sem semid cnt tmout =>
          simp only [granted, ite_eq_right_iff]
          rintro ⟨hr, he⟩
          obtain ⟨u, hu⟩ := h.sched.current
          have hnew := step_newInOrder h hrank hstep (by rw [hnote]; exact hpost) List.mem_cons_self hr he hu t ht
          rw [if_pos hfirst] at hnew
          exact absurd (fun hpri => absurd hfifo hpri) hnew
        | _ => rfl
      have hsum : ([Event.ret (.wait w) r].map (granted s)).sum = 0 := by simp [hzero]
      refine ⟨ht, ?_⟩
      rw [hsum, Int.add_zero]
      exact Int.le_refl _
    | @joined u tmout hcaller hlimit =>
      obtain ⟨q, timed, hcounted, htasks⟩ := begin_wait_tasks hcaller hlimit
        (queueBy k.toTasks u (k.atr o) (k.wait_queue o)) times
      have hlog : q.log = k.log := by
        rcases hcounted with rfl | ⟨-, rfl⟩ <;> rfl
      have hblock := congrArg Tasks.log htasks
      rw [Move.log_effect, hlog] at hblock
      obtain rfl := List.append_cancel_left (hblock.symm.trans hpost)
      rw [htasks]
      exact joined_falls hfifo h.core ht hobj hcounted hcaller.active
  · push Not at ha
    have hnone : ∀ m, stepMoves e k k' a m → m.joinsNone := by
      rintro m hm u w queue timed rfl
      rw [Option.eq_none_iff_forall_ne_some]
      intro o hobj
      cases a with
      | call c times =>
        obtain ⟨-, -, rfl, -⟩ := hm
        exact ha w o times rfl hobj
      | _ => exact hm
    obtain ⟨hfalls, hgets⟩ := (step_ok h hk).does.falls h.core hnone ht hpost hstays
    have hgranted := granted_ahead h hrank hk hfirst ht hpost hstays hgets
      (fun w times heq => ha w (.sem s) times heq)
    exact ⟨hfalls.stays, by rw [hgranted]; exact hfalls.asked⟩

/-! ## Runs -/

theorem tk_cre_sem_free (h : Core k.toTasks k.toObjects) {pk_csem : Option T_CSEM}
    (hok : (tk_cre_sem k pk_csem).1.ercd = .E_OK) (hid : (tk_cre_sem k pk_csem).1.id = s + 1) : k.Free (.sem s) := by
  unfold tk_cre_sem at hok hid
  split at hok
  · cases hok
  split at hok
  · cases hok
  split at hok
  · cases hok
  dsimp only at hok hid
  split at hok
  · cases hok
  rename_i hatr hpar _ s' rest hfree
  rw [if_neg hatr, if_neg hpar, hfree] at hid
  have hid' : ((k.semcbs s').semid &&& ~~~NOEXS_MASK).toInt = s' + 1 := by
    rw [sem_id h s']
    exact id_toInt (.sem s')
  have hs : s' = s := Fin.ext (by
    have hsame := hid'.symm.trans hid
    omega)
  have hhead : k.free_semcb = s' :: rest := hfree
  rw [← hs]
  simp [Objects.Free, hhead]

theorem tk_cre_sem_log (k : Kernel) (pk_csem : Option T_CSEM) : (tk_cre_sem k pk_csem).2.log = k.log := by
  unfold tk_cre_sem
  split
  · rfl
  split
  · rfl
  split
  · rfl
  dsimp only
  split <;> rfl

theorem step_same (h : Inv k) (hk : step e k a = some k') (hlive : k.Live (.sem s)) (hpost : k'.log = k.log ++ post) :
    ∀ ev ∈ post, createdSem s ev = none := by
  intro ev hev
  by_contra hne
  obtain ⟨n, hn⟩ := Option.ne_none_iff_exists'.mp hne
  cases ev with
  | ret c r =>
    cases c with
    | cre_sem pk_csem =>
      cases pk_csem with
      | none => cases hn
      | some pk =>
        obtain ⟨times, rfl⟩ := ret_step h hk hpost hev
        simp only [step, Option.ite_none_right_eq_some, Option.map_eq_some_iff] at hk
        obtain ⟨-, ⟨flow, k1⟩, hx, rfl⟩ := hk
        obtain ⟨rfl, rfl⟩ : .ret (tk_cre_sem k (some pk)).1 = flow ∧ _ = k1 := by simpa [exec] using hx
        have hlog : k.log ++ [.ret (.cre_sem (some pk)) (tk_cre_sem k (some pk)).1] = k.log ++ post := by
          rw [← hpost, ← tk_cre_sem_log k (some pk)]
          rfl
        rw [← List.append_cancel_left hlog] at hev
        obtain ⟨-, rfl⟩ := Event.ret.inj (List.mem_singleton.mp hev)
        simp only [createdSem, Option.ite_none_right_eq_some] at hn
        exact (h.core.tables.free (.sem s)).mp (tk_cre_sem_free h.core hn.1.1 hn.1.2) hlive
    | _ => cases hn
  | _ => cases hn

theorem step_units (h : Inv k) (hk : step e k a = some k') (hlive : k.Live (.sem s)) (hlive' : k'.Live (.sem s))
    (hpost : k'.log = k.log ++ post) :
    (k'.semcbs s).semcnt = (k.semcbs s).semcnt + (post.map (signalled s)).sum - (post.map (granted s)).sum := by
  have hsince : units s k'.log = units s k.log + (post.map (unitsDelta s)).sum := by
    rw [hpost]
    exact Ledger.balance_since (step_same h hk hlive hpost)
  have hsum : (post.map (unitsDelta s)).sum = (post.map (signalled s)).sum - (post.map (granted s)).sum :=
    Ledger.sum_sub _ _ post
  rw [(step_ok h hk).inv.unitsOk s hlive', h.unitsOk s hlive, hsince, hsum]
  omega

/-- What is still to come before `t` is served: what those up to `t` ask for, less what is there. -/
def Kernel.missing (k : Kernel) (s : SemId) (t : TskId) : Int :=
  Front.asked (request k.toTasks) t (k.wait_queue (.sem s)) - (k.semcbs s).semcnt

theorem step_missing (h : Inv k) (hrank : Ranked k.toTasks k.toObjects) (hk : step e k a = some k')
    (hfirst : (k.semcbs s).sematr &&& TA_CNT = 0) (hfifo : (k.semcbs s).sematr &&& TA_TPRI = 0)
    (ht : t ∈ k.wait_queue (.sem s)) (hpost : k'.log = k.log ++ post) (hstays : ∀ ev ∈ post, leaves ev ≠ some t) :
    t ∈ k'.wait_queue (.sem s) ∧ (k'.semcbs s).sematr = (k.semcbs s).sematr ∧
      k'.missing s t + (post.map (signalled s)).sum ≤ k.missing s t := by
  obtain ⟨hmem, hasked⟩ := step_falls h hrank hk hfirst hfifo ht hpost hstays
  have hunits := step_units h hk (h.core.live_of_waiter ht) ((step_ok h hk).inv.core.live_of_waiter hmem) hpost
  have hatr : (k'.semcbs s).sematr = (k.semcbs s).sematr := by
    refine (step_atr h.core hk (.sem s)).resolve_right ?_
    exact List.ne_nil_of_mem hmem
  refine ⟨hmem, hatr, ?_⟩
  unfold Kernel.missing
  omega

theorem path_missing {as : List Act} (hrun : Paths.Path (Steps b.entries) k as k') (h : Reachable b k)
    (hfirst : (k.semcbs s).sematr &&& TA_CNT = 0) (hfifo : (k.semcbs s).sematr &&& TA_TPRI = 0)
    (ht : t ∈ k.wait_queue (.sem s)) (hpost : k'.log = k.log ++ post) (hstays : ∀ ev ∈ post, leaves ev ≠ some t) :
    t ∈ k'.wait_queue (.sem s) ∧ (k'.semcbs s).sematr = (k.semcbs s).sematr ∧
      k'.missing s t + (post.map (signalled s)).sum ≤ k.missing s t := by
  induction hrun generalizing post with
  | nil =>
    obtain rfl := List.self_eq_append_right.mp hpost
    exact ⟨ht, rfl, by simp⟩
  | @cons k k₁ k' a as hstep hrun ih =>
    have hok := step_ok h.inv hstep
    obtain ⟨first, hlog⟩ := hok.does.log
    obtain ⟨-, rest, hrest⟩ := hok.inv.path hrun
    obtain rfl : first ++ rest = post := by
      rw [hrest, hlog, List.append_assoc] at hpost
      exact List.append_cancel_left hpost
    obtain ⟨hmem, hatr, hless⟩ := step_missing h.inv h.ranked hstep hfirst hfifo ht hlog
      fun ev hev => hstays ev (List.mem_append_left _ hev)
    rw [← hatr] at hfirst hfifo ⊢
    obtain ⟨hmem', hatr', hless'⟩ := ih (h.step hstep) hfirst hfifo hmem hrest
      fun ev hev => hstays ev (List.mem_append_right _ hev)
    refine ⟨hmem', hatr', ?_⟩
    rw [List.map_append, List.sum_append]
    omega

/-- There is always something missing: the first waiter asks for more than is there. -/
theorem missing_pos (h : Inv k) (hfirst : (k.semcbs s).sematr &&& TA_CNT = 0) (ht : t ∈ k.wait_queue (.sem s)) :
    0 < k.missing s t := by
  have hstuck := h.stuck (h.core.live_of_waiter ht)
  have hno : (k.semcbs s).servesAll = false := by simp [SEMCB.servesAll, hfirst]
  rw [hno, Grant.Stuck, if_neg (by simp)] at hstuck
  obtain ⟨u, hu, hle⟩ := Front.first_le_asked (f := request k.toTasks) ht fun u hu => h.core.request_nonneg hu
  have hmore := hstuck u hu
  unfold Kernel.missing
  omega

/-- **Bounded waiting.** While a task waits on a semaphore that serves in the order of arrival, the units there
and those signalled since are less than what it and those in front of it ask for. -/
theorem bounded_waiting (h : Reachable b k) (hfirst : (k.semcbs s).sematr &&& TA_CNT = 0)
    (hfifo : (k.semcbs s).sematr &&& TA_TPRI = 0) {ahead behind : List TskId}
    (hqueue : k.wait_queue (.sem s) = ahead ++ t :: behind) {as : List Act}
    (hrun : Paths.Path (Steps b.entries) k as k') (hpost : k'.log = k.log ++ post)
    (hstays : ∀ ev ∈ post, leaves ev ≠ some t) :
    (k.semcbs s).semcnt + (post.map (signalled s)).sum < ((ahead ++ [t]).map (request k.toTasks)).sum := by
  have ht : t ∈ k.wait_queue (.sem s) := by simp [hqueue]
  obtain ⟨hmem, hatr, hless⟩ := path_missing hrun h hfirst hfifo ht hpost hstays
  have hpos : 0 < k'.missing s t := missing_pos (Inv.path h.inv hrun).1 (by rw [hatr]; exact hfirst) hmem
  have hahead : t ∉ ahead := by
    have hnodup := h.inv.core.tasks.wait_nodup (.sem s)
    rw [hqueue] at hnodup
    intro hin
    exact (List.nodup_append.mp hnodup).2.2 t hin t List.mem_cons_self rfl
  have hasked : Front.asked (request k.toTasks) t (k.wait_queue (.sem s)) =
      ((ahead ++ [t]).map (request k.toTasks)).sum := by
    rw [hqueue, Front.asked, Front.upTo_split hahead]
  have hstart : k.missing s t = ((ahead ++ [t]).map (request k.toTasks)).sum - (k.semcbs s).semcnt := by
    unfold Kernel.missing
    rw [hasked]
  omega

/-- Two tasks wait on a semaphore without units, the first for two and the second for one. -/
def bypassRun : List Act :=
  [.call (.cre_tsk (some { exinf := 0, tskatr := TA_USERBUF, task := 0x80004000, itskpri := 1, stksz := 512,
                           bufptr := 0x80020000 })) [],
    .call (.cre_tsk (some { exinf := 0, tskatr := TA_USERBUF, task := 0x80005000, itskpri := 1, stksz := 512,
                            bufptr := 0x80030000 })) [],
    .call (.cre_sem (some { exinf := 0, sematr := 0, isemcnt := 0, maxsem := 2 })) [],
    .call (.sta_tsk 3 0) [], .call (.sta_tsk 4 0) [], .call (.wait (.dly 0)) [], .resume, .software_interrupt 0,
    .call (.wait (.sem 1 2 TMO_FEVR)) [], .software_interrupt 0, .call (.wait (.sem 1 1 TMO_FEVR)) [],
    .software_interrupt 0]

/-- What two signals of one unit put on record then: the second serves the first task. -/
def bypassPost : List Event :=
  [.ret (.sig_sem 1 1) { ercd := .E_OK },
    .complete 2 (some (.wait (.sem 1 2 TMO_FEVR))) .E_OK (.semaphore 2 0), .enqueue 2,
    .ret (.sig_sem 1 1) { ercd := .E_OK }]

theorem bounded_waiting_bypassRun : ∃ k, sampleRun bypassRun = some k ∧ k.wait_queue (.sem 0) = [2] ++ 3 :: [] ∧
    (k.semcbs 0).semcnt + (bypassPost.map (signalled 0)).sum <
      (([2, 3] : List TskId).map (request k.toTasks)).sum := by
  obtain ⟨k, hk, hfirst, hfifo, hqueue, hsteps⟩ := sampleRun_of_any bypassRun (fun k =>
    (k.semcbs 0).sematr &&& TA_CNT = 0 ∧ (k.semcbs 0).sematr &&& TA_TPRI = 0 ∧
      k.wait_queue (.sem 0) = [2] ++ 3 :: [] ∧
      (run sampleBoot.entries k [.call (.sig_sem 1 1) [], .call (.sig_sem 1 1) []]).any
        (fun k' => decide (k'.log = k.log ++ bypassPost)) = true) (by decide +kernel)
  obtain ⟨k', hk', hlog⟩ := (Option.any_eq_true _ _).mp hsteps
  exact ⟨k, hk, hqueue, bounded_waiting (sampleRun_reachable hk) hfirst hfifo hqueue (run_path hk')
    (of_decide_eq_true hlog) (by decide)⟩

end TsukumoCore
