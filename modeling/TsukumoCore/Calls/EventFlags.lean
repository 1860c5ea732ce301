import TsukumoCore.Calls.Semaphores

/-! # The calls on event flags -/

namespace TsukumoCore

variable {e : Entries} {k k' : Kernel} {times : List Nat} {t : TskId} {f : FlgId} {q : Tasks} {x : Objects}

/-- The tables with the control block of one event flag changed. -/
def Objects.setFlg (x : Objects) (f : FlgId) (c : FLGCB) : Objects :=
  { x with flgcbs := Function.update x.flgcbs f c }

theorem cb_setFlg (x : Objects) (f : FlgId) (c : FLGCB) (o : Obj) :
    (x.setFlg f c).cb o = if o = .flg f then .flg c else x.cb o := by
  cases o with
  | flg f' =>
    by_cases hf : f' = f
    · subst hf; simp [Objects.cb, Objects.setFlg]
    · simp [Objects.cb, Objects.setFlg, hf]
  | sem s => simp [Objects.cb, Objects.setFlg]
  | mbx m => simp [Objects.cb, Objects.setFlg]

/-! ## Patterns -/

theorem check_ptn_mono {p p' waiptn wfmode : UINT} (hp : p' &&& p = p')
    (h : check_ptn p waiptn wfmode = false) : check_ptn p' waiptn wfmode = false := by
  unfold check_ptn at h ⊢
  split
  · rename_i hor
    rw [if_pos hor] at h
    simp only [ne_eq, decide_eq_false_iff_not, not_not] at h ⊢
    rw [← hp, BitVec.and_assoc, h]
    simp
  · rename_i hor
    rw [if_neg hor] at h
    simp only [decide_eq_false_iff_not] at h ⊢
    intro heq
    apply h
    rw [← heq, ← hp]
    ext i hi
    simp only [BitVec.getElem_and]
    cases p[i] <;> cases p'[i] <;> cases waiptn[i] <;> rfl

theorem clear_ptn_le (flgptn waiptn wfmode : UINT) :
    clear_ptn flgptn waiptn wfmode &&& flgptn = clear_ptn flgptn waiptn wfmode := by
  unfold clear_ptn
  split
  · simp
  split
  · ext i hi
    simp only [BitVec.getElem_and, BitVec.getElem_not]
    cases flgptn[i] <;> cases waiptn[i] <;> rfl
  · simp

/-! ## One flag changed -/

theorem Core.setPtn (h : Core q x) (p : UINT) : Core q (x.setFlg f { x.flgcbs f with flgptn := p }) := by
  refine h.objects ?_ rfl rfl rfl ?_
  · intro o
    rw [cb_setFlg]
    split
    · rename_i ho; subst ho; rfl
    · rfl
  · intro o ho
    rw [cb_setFlg]
    split
    · rename_i heq; subst heq; exact h.range _ ho
    · exact h.range o ho

theorem live_setPtn (x : Objects) (f : FlgId) (p : UINT) (o : Obj) :
    (x.setFlg f { x.flgcbs f with flgptn := p }).Live o ↔ x.Live o := by
  rw [Objects.Live, cb_setFlg]
  split
  · rename_i ho; subst ho; rfl
  · rfl

theorem served_setPtn {p : UINT} {o : Obj} (h : Served q x o)
    (hf : o = .flg f → ∀ i ∈ infos q o, check_ptn p i.waiptn i.wfmode = false) :
    Served q (x.setFlg f { x.flgcbs f with flgptn := p }) o := by
  intro hlive
  rw [live_setPtn] at hlive
  rw [cb_setFlg]
  split
  · rename_i ho; exact hf ho
  · exact h hlive

theorem createFlg_core (h : Core q x) {rest : List FlgId} (hhead : x.free_flbcb = f :: rest) {c : FLGCB}
    (hid : c.flgid = (x.flgcbs f).flgid &&& ~~~NOEXS_MASK) :
    Core q (({ x with free_flbcb := rest } : Objects).setFlg f c) ∧
      ((∀ o, Served q x o) → ∀ o, Served q (({ x with free_flbcb := rest } : Objects).setFlg f c) o) := by
  have hnodup := h.tables.flg_nodup
  rw [hhead, List.nodup_cons] at hnodup
  have hcb := cb_setFlg { x with free_flbcb := rest } f c
  refine h.alloc (o := .flg f) (by simp [Objects.Free, hhead]) ?_ ?_ ?_ h.tables.sem_nodup hnodup.2
    h.tables.mbx_nodup ?_ ?_
  · rw [hcb, if_pos rfl]; exact hid
  · intro o ho
    rw [hcb, if_neg ho]
    cases o <;> rfl
  · intro o
    cases o with
    | flg f' =>
      simp only [Objects.Free, Objects.setFlg, hhead, List.mem_cons, ne_eq, Obj.flg.injEq]
      by_cases hf : f' = f
      · subst hf; simp [hnodup.1]
      · simp [hf]
    | sem s => simp [Objects.Free, Objects.setFlg]
    | mbx m => simp [Objects.Free, Objects.setFlg]
  · rw [hcb, if_pos rfl]; simp [CB.Range]
  · rw [hcb, if_pos rfl]; simp [CB.Served]

theorem tk_cre_flg_returns (h : Good k) (pk_cflg : Option T_CFLG) :
    Returns e k (.cre_flg pk_cflg) times (tk_cre_flg k pk_cflg).1 (tk_cre_flg k pk_cflg).2 := by
  have hsilent : ∀ r, SilentEvent (.ret (.cre_flg pk_cflg) r) :=
    fun r => ⟨fun _ => ⟨rfl, rfl⟩, fun _ _ => ⟨rfl, rfl⟩⟩
  unfold tk_cre_flg
  split
  · exact .refused h (hsilent _)
  rename_i pk
  split
  · exact .refused h (hsilent _)
  dsimp only
  split
  · rw [DI_EI]; exact .refused h (hsilent _)
  rename_i f rest hfree
  have hhead : k.free_flbcb = f :: rest := hfree
  have hmem : k.Free (.flg f) := by simp [Objects.Free, hhead]
  have htasks := tasks_dead h.core hmem
  obtain ⟨hcore, hserved⟩ := createFlg_core h.core hhead
    (c := ⟨(k.flgcbs f).flgid &&& ~~~NOEXS_MASK, pk.exinf, pk.flgatr, pk.iflgptn⟩) rfl
  refine .ofPlain h hcore htasks rfl rfl hserved ?_ ?_
  · intro hu s hlive
    rw [step_silent ((hsilent _).1 s)]
    exact hu s hlive
  · intro hm m msg hlive
    rw [step_silent ((hsilent _).2 m msg)]
    exact hm m msg hlive

theorem Returns.setPtn {c : Call} {r : Ret} {p : UINT} (h : Good k) (hr : SilentEvent (.ret c r))
    (hf : (k.cb (.flg f)).Served (infos k.toTasks (.flg f)) →
      ∀ i ∈ infos k.toTasks (.flg f), check_ptn p i.waiptn i.wfmode = false)
    (hlive : k.Live (.flg f)) :
    Returns e k c times r ((k.DI.setFlg f { k.DI.flgcbs f with flgptn := p }).EI k.mie) := by
  refine .ofPlain h (h.core.setPtn (f := f) p) rfl rfl rfl ?_ ?_ ?_
  · intro hall o
    refine served_setPtn (hall o) ?_
    rintro rfl
    exact hf (hall _ hlive)
  · intro hu s hl
    rw [step_silent (hr.1 s)]
    exact hu s hl
  · intro hm m msg hl
    rw [step_silent (hr.2 m msg)]
    exact hm m msg hl

/-! ## Waiting -/

theorem mayWait_flg (hlive : k.Live (.flg f)) {flgid : Int} {waiptn wfmode : UINT}
    (p_flgptn : UINT) (tmout : Int) (he : tableEntry CFN_MAX_FLGID flgid = some f)
    (hone : ¬ ((k.flgcbs f).flgatr &&& TA_WMUL = 0 ∧ k.wait_queue (.flg f) ≠ []))
    (hptn : check_ptn (k.flgcbs f).flgptn waiptn wfmode = false) :
    MayWait k t (.flg flgid waiptn wfmode p_flgptn tmout)
      (queueBy k.toTasks t (k.flgcbs f).flgatr (k.wait_queue (.flg f))) := by
  have hobj : (WaitCall.flg flgid waiptn wfmode p_flgptn tmout).obj = some (.flg f) := by
    simp [WaitCall.obj, he]
  refine ⟨fun hnone => by simp [hobj] at hnone, fun o ho => ?_⟩
  obtain rfl : o = .flg f := by simpa [hobj] using ho.symm
  obtain ⟨ahead, behind, hq, hplace, -⟩ :=
    queueBy_split k.toTasks t (k.flgcbs f).flgatr (k.wait_queue (.flg f))
  refine ⟨hlive, ahead, behind, hq, hplace, fun infos' hinfos => ⟨fun hatr => ?_, fun hserved => ?_⟩⟩
  · have hnil : k.wait_queue (.flg f) = [] := by
      by_contra hne
      exact hone ⟨hatr, hne⟩
    rw [hinfos]
    simp [infos, waiters, hnil]
  · have hserved : ∀ i ∈ infos k.toTasks (.flg f),
      check_ptn (k.flgcbs f).flgptn i.waiptn i.wfmode = false := hserved
    intro i hi
    rw [hinfos] at hi
    rcases List.mem_append.mp hi with hi | hi
    · exact hserved i (List.mem_of_mem_take hi)
    · rcases List.mem_cons.mp hi with rfl | hi
      · exact hptn
      · exact hserved i (List.mem_of_mem_drop hi)

theorem tk_wai_flg_outcome (h : Good k) (hcan : canCall k = true) (flgid : Int)
    (waiptn wfmode p_flgptn : UINT) (tmout : Int) :
    Outcome e k (.wait (.flg flgid waiptn wfmode p_flgptn tmout)) times
      (leave_call (tk_wai_flg k flgid waiptn wfmode p_flgptn tmout times).2
        (.wait (.flg flgid waiptn wfmode p_flgptn tmout))
        (tk_wai_flg k flgid waiptn wfmode p_flgptn tmout times).1) := by
  have hsilent : ∀ r, SilentEvent (.ret (.wait (.flg flgid waiptn wfmode p_flgptn tmout)) r) :=
    fun r => ⟨fun _ => ⟨rfl, rfl⟩, fun _ _ => ⟨rfl, rfl⟩⟩
  unfold tk_wai_flg
  split
  · exact .refused h (hsilent _)
  rename_i f he
  split
  · exact .refused h (hsilent _)
  split
  · exact .refused h (hsilent _)
  split
  · exact .refused h (hsilent _)
  dsimp only
  split
  · rw [DI_EI]; exact .refused h (hsilent _)
  rename_i hblock
  split
  · rw [DI_EI]; exact .refused h (hsilent _)
  rename_i hexs
  have hlive : k.Live (.flg f) := by simpa [Objects.Live, Objects.cb, CB.id] using hexs
  split
  · rw [DI_EI]; exact .refused h (hsilent _)
  rename_i hone
  split
  · refine Returns.outcome (.setPtn h (hsilent _) (fun hs i hi => ?_) hlive)
    exact check_ptn_mono (clear_ptn_le _ _ _) (hs i hi)
  rename_i hptn
  split
  · rw [DI_EI]; exact .refused h (hsilent _)
  obtain ⟨hmie, t, ht, hrun, hpend, hidle⟩ := h.caller hcan (by simpa using hblock)
  simp only [show k.DI.current = some t from ht]
  have hmay := mayWait_flg (t := t) hlive p_flgptn tmout he hone (Bool.eq_false_iff.mpr hptn)
  have hobj : (WaitCall.flg flgid waiptn wfmode p_flgptn tmout).obj = some (.flg f) := by
    simp [WaitCall.obj, he]
  have hreq : (k.DI.tasks fun q =>
      insert_by_atr ((q.setTcb t fun c => { c with winfo := .event_flag waiptn wfmode 0 }).init_wait t) t
        (.flg f) (k.DI.flgcbs f).flgatr) =
        k.DI.tasks (·.requestFor t (.flg flgid waiptn wfmode p_flgptn tmout)
          (queueBy k.toTasks t (k.flgcbs f).flgatr (k.wait_queue (.flg f)))) := by
    have hlink := h.core.tasks.wait_link_self (t := t) (by simp [hrun])
    simp only [Kernel.tasks, DI_toTasks]
    rw [insert_by_atr_eq hlink, requestFor_some hobj]
    simp [WaitCall.info]
  rw [hreq]
  exact .queued h hmie ht hrun hpend hidle hmay rfl

/-! ## Setting -/

/-- Deliveries to waiters of one flag. -/
def delivers (f : FlgId) (m : Move) : Prop := ∃ t w d, m = .give t w d ∧ w.obj = some (.flg f)

/-- What the walk can change: it gives the pattern to waiters, and clears bits of it. -/
structure Delivers (f : FlgId) (k k' : Kernel) : Prop where
  core : Core k'.toTasks k'.toObjects
  does : Does (delivers f) k.toTasks k'.toTasks
  objects : ∃ p, k'.toObjects = k.toObjects.setFlg f { k.flgcbs f with flgptn := p }
  machine : k'.toMachine = k.toMachine

theorem Delivers.refl (h : Core k.toTasks k.toObjects) : Delivers f k k :=
  ⟨h, .refl _, ⟨(k.flgcbs f).flgptn, by simp [Objects.setFlg]⟩, rfl⟩

theorem Delivers.trans {k'' : Kernel} (h : Delivers f k k') (h' : Delivers f k' k'') : Delivers f k k'' := by
  obtain ⟨p, hp⟩ := h.objects
  obtain ⟨p', hp'⟩ := h'.objects
  refine ⟨h'.core, h.does.trans h'.does, ⟨p', ?_⟩, h'.machine.trans h.machine⟩
  rw [hp', hp]
  simp [Objects.setFlg]

theorem Core.flgWaiter (h : Core q x) (ht : t ∈ q.wait_queue (.flg f)) :
    ∃ flgid waiptn wfmode p_flgptn tmout flgptn,
      q.pending t = some (.wait (.flg flgid waiptn wfmode p_flgptn tmout)) ∧
      tableEntry CFN_MAX_FLGID flgid = some f ∧ (q.tcbs t).winfo = .event_flag waiptn wfmode flgptn ∧
      (q.tcbs t).tskstat = .WAI ∧ (q.tcbs t).tskwait = .FLG := by
  obtain ⟨hs, w, hp, ho⟩ := h.tasks.pending_of_mem ht
  obtain ⟨w', hp', hkind⟩ := (h.tasks.task t).call hs
  obtain rfl : w' = w := by simpa [hp] using hp'.symm
  have hinfo := h.tasks.info t w' hs hp
  cases w' with
  | flg flgid waiptn wfmode p_flgptn tmout =>
    obtain ⟨-, flgptn, hw⟩ := hinfo
    have he : tableEntry CFN_MAX_FLGID flgid = some f := by simpa [WaitCall.obj] using ho
    exact ⟨flgid, waiptn, wfmode, p_flgptn, tmout, flgptn, hp, he, hw, hs, hkind⟩
  | slp | dly => simp [WaitCall.obj] at ho
  | sem | mbx => simp [WaitCall.obj] at ho

theorem deliver_one (h : Core k.toTasks k.toObjects) (ht : t ∈ k.wait_queue (.flg f)) {p p' waiptn wfmode : UINT}
    (hw : (k.tcbs t).winfo.waiptn = waiptn) (hm : (k.tcbs t).winfo.wfmode = wfmode)
    (hptn : check_ptn p waiptn wfmode = true)
    (hk : k' = tkmc_complete_wait ((k.tasks fun q =>
      (q.setTcb t fun c => { c with winfo := .event_flag waiptn wfmode p }).note
        (.deliver t (.pattern p))).setFlg f { k.flgcbs f with flgptn := p' }) t .E_OK) :
    Delivers f k k' ∧ k'.wait_queue (.flg f) = (k.wait_queue (.flg f)).erase t ∧
      (k'.flgcbs f).flgptn = p' ∧ ∀ u, u ≠ t → (k'.tcbs u).winfo = (k.tcbs u).winfo := by
  obtain ⟨flgid, waiptn', wfmode', p_flgptn, tmout, flgptn, hpend, he, hinfo, hs, hkind⟩ := h.flgWaiter ht
  obtain rfl : waiptn' = waiptn := by rw [← hw, hinfo]; rfl
  obtain rfl : wfmode' = wfmode := by rw [← hm, hinfo]; rfl
  have ha : (Move.give t (.flg flgid waiptn' wfmode' p_flgptn tmout) (.pattern p)).Allowed k.toTasks :=
    ⟨hs, hpend, hptn⟩
  have hplaced : Placed ((Move.setInfo k.toTasks t (.event_flag waiptn' wfmode' p)).note
      (.deliver t (.pattern p))) := by
    have hset : Placed (Move.setInfo k.toTasks t (.event_flag waiptn' wfmode' p)) :=
      h.tasks.toPlaced.setTcb ⟨.inl rfl, rfl, rfl, rfl, rfl, rfl, rfl⟩
    exact hset.note (by simp)
  have heq : k' = (k.tasks ((Move.give t (.flg flgid waiptn' wfmode' p_flgptn tmout) (.pattern p)).effect ·)).setFlg
      f { k.flgcbs f with flgptn := p' } := by
    rw [hk, complete_wait_eq hplaced]
    · rfl
    · simpa [Kernel.setFlg, Kernel.tasks, Tasks.setTcb, Tasks.note] using hs
    · simp
  subst heq
  refine ⟨⟨(h.give ha).setPtn _, .one ⟨t, _, _, rfl, by simp [WaitCall.obj, he]⟩ ha, ⟨_, rfl⟩, rfl⟩, rfl, ?_, ?_⟩
  · simp [Kernel.setFlg]
  · intro u hu
    simp [Kernel.setFlg, Kernel.tasks, Move.effect, Move.wakeEffect, Move.setInfo, Tasks.setTcb, Tasks.note, hu]

/-- The walk has passed `ahead` and has `rest` to visit. It passes a waiter the pattern does not satisfy,
and the pattern never grows. -/
theorem set_walk_spec (ahead rest : List TskId) (h : Core k.toTasks k.toObjects)
    (hq : k.wait_queue (.flg f) = ahead ++ rest)
    (hahead : ∀ u ∈ ahead,
      check_ptn (k.flgcbs f).flgptn (k.tcbs u).winfo.waiptn (k.tcbs u).winfo.wfmode = false) :
    Delivers f k (set_walk f rest k) ∧
      Served (set_walk f rest k).toTasks (set_walk f rest k).toObjects (.flg f) := by
  induction rest generalizing k ahead with
  | nil =>
    refine ⟨.refl h, fun _ => ?_⟩
    intro i hi
    simp only [set_walk, infos, waiters, hq, List.append_nil, List.map_map, List.mem_map] at hi
    obtain ⟨u, hu, rfl⟩ := hi
    exact hahead u hu
  | cons t rest ih =>
    have hmem : t ∈ k.wait_queue (.flg f) := by simp [hq]
    simp only [set_walk]
    split
    · rename_i hptn
      obtain ⟨hone, hqueue, hp, hinfo⟩ := deliver_one h hmem rfl rfl hptn rfl
      have hnodup : (ahead ++ t :: rest).Nodup := hq ▸ h.tasks.wait_nodup (.flg f)
      have hpre : t ∉ ahead := fun hin =>
        (List.nodup_append.mp hnodup).2.2 t hin t List.mem_cons_self rfl
      have hstep := ih ahead hone.core ?_ ?_
      · exact ⟨hone.trans hstep.1, hstep.2⟩
      · rw [hqueue, hq, List.erase_append_right _ hpre, List.erase_cons_head]
      · intro u hu
        rw [hinfo u fun he => hpre (he ▸ hu), hp]
        exact check_ptn_mono (clear_ptn_le _ _ _) (hahead u hu)
    · rename_i hptn
      refine ih (ahead ++ [t]) h (by simp [hq]) ?_
      intro u hu
      rcases List.mem_append.mp hu with hu | hu
      · exact hahead u hu
      · rw [List.mem_singleton.mp hu]; simpa using hptn

theorem silent_delivers {m : Move} (hm : delivers f m) (ha : m.Allowed q) :
    ∀ ev ∈ m.events q, SilentEvent ev := by
  obtain ⟨t, w, d, rfl, hobj⟩ := hm
  intro ev hev
  simp only [Move.events, ha.2.1, List.mem_cons, List.not_mem_nil, or_false] at hev
  rcases hev with rfl | rfl | rfl
  · exact ⟨fun _ => ⟨rfl, rfl⟩, fun _ _ => ⟨rfl, rfl⟩⟩
  · cases w with
    | flg => exact ⟨fun _ => ⟨rfl, rfl⟩, fun _ _ => ⟨rfl, rfl⟩⟩
    | slp | dly => simp [WaitCall.obj] at hobj
    | sem | mbx => simp [WaitCall.obj] at hobj
  · exact ⟨fun _ => ⟨rfl, rfl⟩, fun _ _ => ⟨rfl, rfl⟩⟩

theorem Delivers.served (hd : Delivers f k k') (h : Core k.toTasks k.toObjects) {o : Obj}
    (ho : o ≠ .flg f) (hserved : Served k.toTasks k.toObjects o) : Served k'.toTasks k'.toObjects o := by
  obtain ⟨p, hp⟩ := hd.objects
  have hcb : k'.toObjects.cb o = k.toObjects.cb o := by rw [hp, cb_setFlg, if_neg ho]
  have hw : waiters k'.toTasks o = waiters k.toTasks o := by
    refine Does.waiters_other h.tasks hd.does ?_
    rintro m ⟨t, w, d, rfl, hobj⟩ htouch
    exact ho (by simpa [Move.touches, hobj] using htouch.symm)
  simp only [Served, Objects.Live, hcb, infos_eq hw]
  exact hserved

theorem tk_set_flg_returns (h : Good k) (flgid : Int) (setptn : UINT) :
    Returns e k (.set_flg flgid setptn) times { ercd := (tk_set_flg k flgid setptn).1 }
      (tk_set_flg k flgid setptn).2 := by
  have hsilent : ∀ r, SilentEvent (.ret (.set_flg flgid setptn) r) :=
    fun r => ⟨fun _ => ⟨rfl, rfl⟩, fun _ _ => ⟨rfl, rfl⟩⟩
  unfold tk_set_flg
  split
  · exact .refused h (hsilent _)
  rename_i f he
  dsimp only
  split
  · rw [DI_EI]; exact .refused h (hsilent _)
  rename_i hexs
  have hlive : k.Live (.flg f) := by simpa [Objects.Live, Objects.cb, CB.id] using hexs
  split
  · have hcore := h.core.setPtn (f := f) ((k.flgcbs f).flgptn ||| setptn)
    obtain ⟨hdel, hserved⟩ := set_walk_spec (f := f) [] (k.wait_queue (.flg f))
      (k := k.DI.setFlg f { k.DI.flgcbs f with flgptn := (k.DI.flgcbs f).flgptn ||| setptn }) hcore rfl
      (by simp)
    have hqueue : (k.DI.setFlg f { k.DI.flgcbs f with flgptn := (k.DI.flgcbs f).flgptn ||| setptn }).wait_queue =
      k.wait_queue := rfl
    rw [hqueue]
    generalize set_walk f (k.wait_queue (.flg f)) (k.DI.setFlg f
      { k.DI.flgcbs f with flgptn := (k.DI.flgcbs f).flgptn ||| setptn }) = k' at hdel hserved ⊢
    obtain ⟨p, hp⟩ := hdel.objects
    refine .ofRequest h hdel.does ?_ hdel.machine hdel.core ?_ ?_ ?_
    · rintro m ⟨t, w, d, rfl, -⟩
      exact ⟨trivial, rfl⟩
    · intro hall o
      by_cases ho : o = .flg f
      · subst ho; exact hserved
      · exact hdel.served hcore ho (served_setPtn (hall o) fun heq => absurd heq ho)
    · intro hu s hl
      have hunits : units s k'.log = units s k.log :=
        Does.balance hdel.does fun m q hm ha ev hev => (silent_delivers hm ha ev hev).1 s
      rw [step_silent ((hsilent _).1 s), hunits]
      rw [hp] at hl ⊢
      exact hu s hl
    · intro hm m msg hl
      have hmail : mail m msg k'.log = mail m msg k.log :=
        Does.balance hdel.does fun m' q hm ha ev hev => (silent_delivers hm ha ev hev).2 m msg
      rw [step_silent ((hsilent _).2 m msg), hmail]
      rw [hp] at hl ⊢
      exact hm m msg hl
  · rename_i hnil
    refine .setPtn h (hsilent _) (fun _ i hi => ?_) hlive
    have hnone : k.wait_queue (.flg f) = [] := not_not.mp hnil
    simp [infos, waiters, hnone] at hi

theorem tk_clr_flg_returns (h : Good k) (flgid : Int) (clrptn : UINT) :
    Returns e k (.clr_flg flgid clrptn) times { ercd := (tk_clr_flg k flgid clrptn).1 }
      (tk_clr_flg k flgid clrptn).2 := by
  have hsilent : ∀ r, SilentEvent (.ret (.clr_flg flgid clrptn) r) :=
    fun r => ⟨fun _ => ⟨rfl, rfl⟩, fun _ _ => ⟨rfl, rfl⟩⟩
  unfold tk_clr_flg
  split
  · exact .refused h (hsilent _)
  rename_i f he
  dsimp only
  split
  · rw [DI_EI]; exact .refused h (hsilent _)
  rename_i hexs
  have hlive : k.Live (.flg f) := by simpa [Objects.Live, Objects.cb, CB.id] using hexs
  refine .setPtn h (hsilent _) (fun hs i hi => ?_) hlive
  refine check_ptn_mono ?_ (hs i hi)
  ext i hi
  simp only [BitVec.getElem_and, DI_toObjects]
  cases (k.flgcbs f).flgptn[i] <;> cases clrptn[i] <;> rfl

end TsukumoCore
