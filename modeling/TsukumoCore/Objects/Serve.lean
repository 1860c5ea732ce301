import TsukumoCore.Objects.Invariant
import TsukumoCore.Objects.Ledger

/-!
# Serving the waiters of a semaphore

The walk of `tkmc_sem_serve_waiters`, and `tkmc_complete_wait`, which runs it for a waiter that leaves.
-/

namespace TsukumoCore

variable {q : Tasks} {x : Objects} {k : Kernel} {s : SemId} {t : TskId}

/-! ## One control block -/

/-- The tables with the control block of one semaphore changed. -/
def Objects.setSem (x : Objects) (s : SemId) (c : SEMCB) : Objects :=
  { x with semcbs := Function.update x.semcbs s c }

theorem cb_setSem (x : Objects) (s : SemId) (c : SEMCB) (o : Obj) :
    (x.setSem s c).cb o = if o = .sem s then .sem c else x.cb o := by
  cases o with
  | sem s' =>
    by_cases hs : s' = s
    · subst hs; simp [Objects.cb, Objects.setSem]
    · simp [Objects.cb, Objects.setSem, hs]
  | flg f => simp [Objects.cb, Objects.setSem]
  | mbx m => simp [Objects.cb, Objects.setSem]

theorem Core.objects {x' : Objects} (h : Core q x) (hid : ∀ o, (x'.cb o).id = (x.cb o).id)
    (hsem : x'.free_semcb = x.free_semcb) (hflg : x'.free_flbcb = x.free_flbcb)
    (hmbx : x'.free_mbxcb = x.free_mbxcb) (hrange : ∀ o, x.Live o → (x'.cb o).Range (infos q o)) :
    Core q x' := by
  have hlive : ∀ o, x'.Live o ↔ x.Live o := by intro o; simp only [Objects.Live, hid]
  have hfree : ∀ o, x'.Free o ↔ x.Free o := by
    intro o; cases o <;> simp [Objects.Free, hsem, hflg, hmbx]
  refine ⟨h.tasks, ⟨?_, ?_, ?_, ?_, ?_, ?_⟩, fun o ho => hrange o ((hlive o).mp ho)⟩
  · intro o; rw [hid]; exact h.tables.id o
  · intro o; rw [hfree, hlive]; exact h.tables.free o
  · rw [hsem]; exact h.tables.sem_nodup
  · rw [hflg]; exact h.tables.flg_nodup
  · rw [hmbx]; exact h.tables.mbx_nodup
  · intro o ho; exact h.tables.empty o (fun hl => ho ((hlive o).mpr hl))

/-- The requests of the waiters of a semaphore, in order. -/
def reqs (q : Tasks) (s : SemId) : List Int := (infos q (.sem s)).map WaitInfo.semcnt

theorem reqs_eq (q : Tasks) (s : SemId) :
    reqs q s = (q.wait_queue (.sem s)).map fun t => (q.tcbs t).winfo.semcnt := by
  simp [reqs, infos, waiters, List.map_map, Function.comp_def]

theorem Core.setCnt (h : Core q x) {n : Int} (hlive : x.Live (.sem s))
    (hn : 0 ≤ n ∧ n ≤ (x.semcbs s).maxsem) :
    Core q (x.setSem s { x.semcbs s with semcnt := n }) := by
  refine h.objects ?_ rfl rfl rfl ?_
  · intro o
    rw [cb_setSem]
    split
    · rename_i ho; subst ho; rfl
    · rfl
  · intro o ho
    rw [cb_setSem]
    split
    · rename_i heq
      subst heq
      have hr : SemRange (x.semcbs s) (reqs q s) := h.range _ hlive
      exact ⟨hr.max, hn, hr.req⟩
    · exact h.range o ho

/-! ## The walk -/

/-- Grants to waiters of one semaphore. -/
def serves (s : SemId) (m : Move) : Prop := ∃ t w, m = .wake t w .E_OK ∧ w.obj = some (.sem s)

/-- What serving waiters of `s` can change: it grants requests and takes their units. -/
structure Serves (s : SemId) (k k' : Kernel) : Prop where
  core : Core k'.toTasks k'.toObjects
  does : Does (serves s) k.toTasks k'.toTasks
  objects : ∃ n, k'.toObjects = k.toObjects.setSem s { k.semcbs s with semcnt := n }
  machine : k'.toMachine = k.toMachine
  balance : ∀ s', (k'.semcbs s').semcnt - units s' k'.log = (k.semcbs s').semcnt - units s' k.log

theorem setSem_same (x : Objects) (s : SemId) : x.setSem s (x.semcbs s) = x := by
  simp [Objects.setSem]

theorem Serves.refl (h : Core k.toTasks k.toObjects) : Serves s k k :=
  ⟨h, .refl _, ⟨_, (setSem_same _ s).symm⟩, rfl, fun _ => rfl⟩

theorem Serves.trans {k' k'' : Kernel} (h : Serves s k k') (h' : Serves s k' k'') : Serves s k k'' := by
  obtain ⟨n, hn⟩ := h.objects
  obtain ⟨n', hn'⟩ := h'.objects
  refine ⟨h'.core, h.does.trans h'.does, ⟨n', ?_⟩, h'.machine.trans h.machine,
    fun s' => (h'.balance s').trans (h.balance s')⟩
  rw [hn', hn]
  simp [Objects.setSem]

theorem addSemcnt_eq {d : Int} (hd : inINT ((k.semcbs s).semcnt + d)) :
    addSemcnt k s d = k.setSem s { k.semcbs s with semcnt := (k.semcbs s).semcnt + d } := by
  simp [addSemcnt, Kernel.tasks, Tasks.check, hd]

theorem Core.waiter (h : Core q x) (ht : t ∈ q.wait_queue (.sem s)) :
    ∃ semid cnt tmout, q.pending t = some (.wait (.sem semid cnt tmout)) ∧
      tableEntry CFN_MAX_SEMID semid = some s ∧ (q.tcbs t).winfo = .semaphore cnt s ∧
      (q.tcbs t).tskstat = .WAI ∧ 1 ≤ cnt ∧ cnt ≤ (x.semcbs s).maxsem := by
  obtain ⟨hs, w, hp, ho⟩ := h.tasks.pending_of_mem ht
  have hinfo := h.tasks.info t w hs hp
  have hrange : SemRange (x.semcbs s) (reqs q s) := h.range _ (h.live_of_waiter ht)
  cases w with
  | sem semid cnt tmout =>
    obtain ⟨s', hs', hw⟩ := hinfo
    have hss : s' = s := by simpa [WaitCall.obj, hs'] using ho
    subst hss
    have hreq := hrange.req cnt (by rw [reqs_eq]; exact List.mem_map.mpr ⟨t, ht, by simp [hw, WaitInfo.semcnt]⟩)
    exact ⟨semid, cnt, tmout, hp, hs', hw, hs, hreq.1, hreq.2⟩
  | slp | dly => simp [WaitCall.obj] at ho
  | flg | mbx => simp [WaitCall.obj] at ho

theorem serve_one (h : Core k.toTasks k.toObjects) (ht : t ∈ k.wait_queue (.sem s))
    (hreq : (k.tcbs t).winfo.semcnt ≤ (k.semcbs s).semcnt) :
    Serves s k (addSemcnt (k.tasks (release · t .E_OK)) s (-(k.tcbs t).winfo.semcnt)) ∧
      addSemcnt (k.tasks (release · t .E_OK)) s (-(k.tcbs t).winfo.semcnt) =
        (k.tasks (Move.wakeEffect · t .E_OK)).setSem s
          { k.semcbs s with semcnt := (k.semcbs s).semcnt - (k.tcbs t).winfo.semcnt } := by
  obtain ⟨semid, cnt, tmout, hp, he, hw, hs, hpos, -⟩ := h.waiter ht
  have hlive := h.live_of_waiter ht
  have hr : SemRange (k.semcbs s) (reqs k.toTasks s) := h.range _ hlive
  have hcnt : (k.tcbs t).winfo.semcnt = cnt := by simp [hw, WaitInfo.semcnt]
  have ha : (Move.wake t (.sem semid cnt tmout) .E_OK).Allowed k.toTasks :=
    ⟨hs, hp, fun _ => .inr rfl, by simp⟩
  have heq : addSemcnt (k.tasks (release · t .E_OK)) s (-(k.tcbs t).winfo.semcnt) =
      (k.tasks (Move.wakeEffect · t .E_OK)).setSem s
        { k.semcbs s with semcnt := (k.semcbs s).semcnt - (k.tcbs t).winfo.semcnt } := by
    rw [addSemcnt_eq]
    · simp only [Kernel.tasks, release_eq h.tasks.toPlaced hs]; rfl
    · have hmax := hr.max
      have hc := hr.cnt
      simp only [Kernel.tasks, inINT, TK_SEMAPHORE_MAXCNT] at *
      omega
  refine ⟨?_, heq⟩
  rw [heq]
  refine ⟨?_, .one ⟨t, _, rfl, by simp [WaitCall.obj, he]⟩ ha, ⟨_, rfl⟩, rfl, ?_⟩
  · exact (h.wake ha).setCnt hlive (by have := hr.cnt; simp only [Kernel.tasks] at *; omega)
  · intro s'
    have hlog : (k.tasks (Move.wakeEffect · t .E_OK)).log =
        k.log ++ [.complete t (k.pending t) .E_OK (k.tcbs t).winfo] ++ [.enqueue t] := by
      simp [Kernel.tasks, Move.wakeEffect]
    have henq : ∀ e ∈ [Event.enqueue t], Ledger.Silent (createdSem s') (unitsDelta s') e := by
      simp [Ledger.Silent, createdSem, unitsDelta, signalled, granted]
    simp only [Kernel.setSem, hlog, units]
    rw [Ledger.balance_silent henq, Ledger.balance_note, hp]
    by_cases hss : s' = s
    · subst hss
      simp [Ledger.step, createdSem, unitsDelta, signalled, granted, he, hcnt]
      omega
    · simp [Ledger.step, createdSem, unitsDelta, signalled, granted, he, Ne.symm hss, hss, Kernel.tasks]

theorem served_sem_iff : Served q x (.sem s) ↔ x.Live (.sem s) → SemServed (x.semcbs s) (reqs q s) :=
  Iff.rfl

theorem semServed_of_none {cb : SEMCB} {l : List Int} (h : SemRange cb l) (hn : cb.semcnt ≤ 0) :
    SemServed cb l := by
  unfold SemServed
  split
  · intro r hr
    have := (h.req r (List.mem_of_mem_head? hr)).1
    omega
  · intro r hr
    have := (h.req r hr).1
    omega

/-- The walk has passed `ahead` and has `rest` to visit. It passes a waiter it cannot serve only under
`TA_CNT`, and the count it compares with never grows. -/
theorem serve_walk_spec (ahead rest : List TskId) (h : Core k.toTasks k.toObjects)
    (hq : k.wait_queue (.sem s) = ahead ++ rest)
    (hfirst : (k.semcbs s).sematr &&& TA_CNT = 0 → ahead = [])
    (hahead : ∀ u ∈ ahead, (k.semcbs s).semcnt < (k.tcbs u).winfo.semcnt) :
    Serves s k (serve_walk s rest k) ∧
      Served (serve_walk s rest k).toTasks (serve_walk s rest k).toObjects (.sem s) := by
  induction rest generalizing k ahead with
  | nil =>
    refine ⟨.refl h, ?_⟩
    rw [served_sem_iff, serve_walk, reqs_eq, hq, List.append_nil]
    intro _
    unfold SemServed
    split
    · rename_i hatr; simp [hfirst hatr]
    · simpa using hahead
  | cons pos rest ih =>
    have hpos : pos ∈ k.wait_queue (.sem s) := by simp [hq]
    simp only [serve_walk]
    split
    · rename_i hless
      split
      · rename_i hatr
        refine ⟨.refl h, ?_⟩
        rw [served_sem_iff, reqs_eq, hq, hfirst hatr]
        intro _
        simpa [SemServed, hatr] using hless
      · rename_i hatr
        refine ih (ahead ++ [pos]) h (by simp [hq]) (fun hz => absurd hz hatr) ?_
        intro u hu
        rcases List.mem_append.mp hu with hu | hu
        · exact hahead u hu
        · rw [List.mem_singleton.mp hu]; exact hless
    · rename_i hge
      obtain ⟨hone, heq⟩ := serve_one h hpos (by omega)
      have hnodup : (ahead ++ pos :: rest).Nodup := hq ▸ h.tasks.wait_nodup (.sem s)
      have hpre : pos ∉ ahead := by
        intro hin
        exact (List.nodup_append.mp hnodup).2.2 pos hin pos List.mem_cons_self rfl
      split
      · rename_i hle
        refine ⟨hone, ?_⟩
        rw [served_sem_iff]
        intro hlive
        exact semServed_of_none (hone.core.range _ hlive) hle
      · obtain ⟨semid, cnt, tmout, -, -, hw, -, hcnt, -⟩ := h.waiter hpos
        have hreq : (k.tcbs pos).winfo.semcnt = cnt := by simp [hw, WaitInfo.semcnt]
        have hstep := ih ahead hone.core ?_ ?_ ?_
        · exact ⟨hone.trans hstep.1, hstep.2⟩
        · rw [heq]
          simp only [Kernel.setSem, Kernel.tasks, Move.wakeEffect, hq]
          rw [List.erase_append_right _ hpre, List.erase_cons_head]
        · rw [heq]
          simpa [Kernel.setSem] using hfirst
        · intro u hu
          have hne : u ≠ pos := fun he => hpre (he ▸ hu)
          have := hahead u hu
          rw [heq]
          simp only [Kernel.setSem, Kernel.tasks, Move.wakeEffect, Function.update_self,
            Function.update_of_ne hne]
          omega

theorem serve_waiters_spec (h : Core k.toTasks k.toObjects) :
    Serves s k (tkmc_sem_serve_waiters k s) ∧
      Served (tkmc_sem_serve_waiters k s).toTasks (tkmc_sem_serve_waiters k s).toObjects (.sem s) :=
  serve_walk_spec [] _ h rfl (fun _ => rfl) (by simp)

theorem Serves.served {k' : Kernel} (hs : Serves s k k') (h : Core k.toTasks k.toObjects) {o : Obj}
    (ho : o ≠ .sem s) (hserved : Served k.toTasks k.toObjects o) : Served k'.toTasks k'.toObjects o := by
  obtain ⟨n, hn⟩ := hs.objects
  have hcb : k'.toObjects.cb o = k.toObjects.cb o := by rw [hn, cb_setSem, if_neg ho]
  have hw : waiters k'.toTasks o = waiters k.toTasks o := by
    refine Does.waiters_other h.tasks hs.does ?_
    rintro m ⟨t, w, rfl, hobj⟩ htouch
    exact ho (by simpa [Move.touches, hobj] using htouch.symm)
  simp only [Served, Objects.Live, hcb, infos_eq hw]
  exact hserved

/-! ## The end of a wait -/

/-- The tables differ in the counts of semaphores at most. -/
structure SameButCnt (x x' : Objects) : Prop where
  sem : ∀ s, ∃ n, x'.semcbs s = { x.semcbs s with semcnt := n }
  rest : { x' with semcbs := x.semcbs } = x

theorem SameButCnt.refl (x : Objects) : SameButCnt x x := ⟨fun _ => ⟨_, rfl⟩, rfl⟩

theorem SameButCnt.trans {x x' x'' : Objects} (h : SameButCnt x x') (h' : SameButCnt x' x'') :
    SameButCnt x x'' := by
  refine ⟨fun s => ?_, ?_⟩
  · obtain ⟨n, hn⟩ := h.sem s
    obtain ⟨n', hn'⟩ := h'.sem s
    exact ⟨n', by rw [hn', hn]⟩
  · have hrest := h.rest
    rw [← h'.rest] at hrest
    exact hrest

theorem SameButCnt.setCnt (x : Objects) (s : SemId) (n : Int) :
    SameButCnt x (x.setSem s { x.semcbs s with semcnt := n }) := by
  refine ⟨fun s' => ?_, rfl⟩
  by_cases hs : s' = s
  · subst hs; exact ⟨n, by simp [Objects.setSem]⟩
  · exact ⟨(x.semcbs s').semcnt, by simp [Objects.setSem, hs]⟩

/-- What the end of waits can change. -/
structure Ends (P : Move → Prop) (k k' : Kernel) : Prop where
  core : Core k'.toTasks k'.toObjects
  does : Does P k.toTasks k'.toTasks
  objects : SameButCnt k.toObjects k'.toObjects
  machine : k'.toMachine = k.toMachine
  balance : ∀ s, (k'.semcbs s).semcnt - units s k'.log = (k.semcbs s).semcnt - units s k.log

variable {P P' : Move → Prop} {k' k'' : Kernel} {w : WaitCall} {cause : ER} {o : Obj}

theorem Ends.refl (h : Core k.toTasks k.toObjects) : Ends P k k :=
  ⟨h, .refl _, .refl _, rfl, fun _ => rfl⟩

theorem Ends.trans (h : Ends P k k') (h' : Ends P k' k'') : Ends P k k'' :=
  ⟨h'.core, h.does.trans h'.does, h.objects.trans h'.objects, h'.machine.trans h.machine,
    fun s => (h'.balance s).trans (h.balance s)⟩

theorem Ends.mono (h : Ends P k k') (hP : ∀ m, P m → P' m) : Ends P' k k' :=
  { h with does := h.does.mono hP }

theorem Serves.ends (h : Serves s k k') : Ends (serves s) k k' := by
  obtain ⟨n, hn⟩ := h.objects
  refine ⟨h.core, h.does, ?_, h.machine, h.balance⟩
  rw [hn]
  exact .setCnt _ _ _

theorem silent_complete (h : cause = .E_OK → w.kind ≠ .SEM) (info : WaitInfo) :
    Ledger.Silent (createdSem s) (unitsDelta s) (.complete t (some (.wait w)) cause info) := by
  refine ⟨rfl, ?_⟩
  cases w with
  | sem semid cnt tmout =>
    have hc : cause ≠ .E_OK := fun hc => h hc rfl
    simp [unitsDelta, signalled, granted, hc]
  | _ => rfl

theorem wake_ends (h : Core k.toTasks k.toObjects) (ha : (Move.wake t w cause).Allowed k.toTasks)
    (hc : cause = .E_OK → w.kind ≠ .SEM) :
    Ends (· = .wake t w cause) k (k.tasks (Move.wakeEffect · t cause)) := by
  have hdoes : Does (· = .wake t w cause) k.toTasks (Move.wakeEffect k.toTasks t cause) :=
    .one (P := (· = .wake t w cause)) rfl ha
  refine ⟨h.wake ha, hdoes, .refl _, rfl, fun s => ?_⟩
  have hunits : units s (Move.wakeEffect k.toTasks t cause).log = units s k.log := by
    refine hdoes.balance ?_
    rintro m q rfl hm e he
    simp only [Move.events, hm.2.1, List.mem_cons, List.not_mem_nil, or_false] at he
    rcases he with rfl | rfl
    · exact silent_complete hc _
    · exact ⟨rfl, rfl⟩
  simp only [Kernel.tasks, hunits]

theorem wake_served (h : Core k.toTasks k.toObjects) (ha : (Move.wake t w cause).Allowed k.toTasks)
    (ho : ∀ s, o = .sem s → w.obj ≠ some o) (hs : Served k.toTasks k.toObjects o) :
    Served (Move.wakeEffect k.toTasks t cause) k.toObjects o := by
  by_cases htouch : w.obj = some o
  · intro hlive
    refine (hs hlive).sublist (infos_filter t (waiters_wake h.tasks.toPlaced cause)) ?_
    intro c hcb
    cases o with
    | sem s => exact ho s rfl htouch
    | flg f => cases hcb
    | mbx m => cases hcb
  · exact hs.move (m := .wake t w cause) h ha htouch

/-- Only a waiter of a semaphore that leaves early has others served. -/
theorem complete_wait_eq (h : Placed k.toTasks) (hs : (k.tcbs t).tskstat = .WAI)
    (hno : ¬ ((k.tcbs t).tskwait = .SEM ∧ (cause = .E_TMOUT ∨ cause = .E_RLWAI))) :
    tkmc_complete_wait k t cause = k.tasks (Move.wakeEffect · t cause) := by
  unfold tkmc_complete_wait
  rw [if_neg hno]
  simp only [Kernel.tasks, release_eq h hs]

/-- The grants that follow when a waiter leaves. -/
def follows (w : WaitCall) (m : Move) : Prop := ∃ s, w.obj = some (.sem s) ∧ serves s m

/-- The moves that end the wait of one task: its completion, and grants to those behind it. -/
def ending (t : TskId) (w : WaitCall) (cause : ER) (m : Move) : Prop :=
  m = .wake t w cause ∨ follows w m

theorem complete_wait_spec (h : Core k.toTasks k.toObjects)
    (ha : (Move.wake t w cause).Allowed k.toTasks) (hc : cause = .E_OK → w.kind ≠ .SEM) :
    Ends (ending t w cause) k (tkmc_complete_wait k t cause) ∧
      Does (follows w) (Move.wakeEffect k.toTasks t cause) (tkmc_complete_wait k t cause).toTasks ∧
      ∀ o, (∀ s, o = .sem s → w.obj = some o → cause = .E_TMOUT ∨ cause = .E_RLWAI) →
        Served k.toTasks k.toObjects o →
        Served (tkmc_complete_wait k t cause).toTasks (tkmc_complete_wait k t cause).toObjects o := by
  have hrel : k.tasks (release · t cause) = k.tasks (Move.wakeEffect · t cause) := by
    simp only [Kernel.tasks, release_eq h.tasks.toPlaced ha.1]
  have hwake := wake_ends h ha hc
  have hkind : (k.tcbs t).tskwait = w.kind := by
    obtain ⟨w', hp, hk⟩ := (h.tasks.task t).call ha.1
    have : w' = w := by simpa [ha.2.1] using hp.symm
    rw [hk, this]
  have hinfo : ((k.tasks (Move.wakeEffect · t cause)).tcbs t).winfo = (k.tcbs t).winfo := by
    simp [Kernel.tasks, Move.wakeEffect]
  unfold tkmc_complete_wait
  rw [hrel, hkind]
  simp only [hinfo]
  split
  · -- a waiter of a semaphore left: the units it was waiting for may do for another one
    rename_i hsem
    cases w with
    | sem semid cnt tmout =>
      obtain ⟨s, he, hw⟩ := h.tasks.info t _ ha.1 ha.2.1
      obtain ⟨hserves, hserved⟩ := serve_waiters_spec (s := s) hwake.core
      have hobj : (WaitCall.sem semid cnt tmout).obj = some (.sem s) := by simp [WaitCall.obj, he]
      rw [hw]
      refine ⟨(hwake.mono fun m hm => .inl hm).trans
        (hserves.ends.mono fun m hm => .inr ⟨s, hobj, hm⟩), hserves.does.mono fun m hm => ⟨s, hobj, hm⟩, ?_⟩
      intro o _ hs
      by_cases ho : o = .sem s
      · subst ho; exact hserved
      · refine hserves.served hwake.core ho (wake_served h ha ?_ hs)
        intro s' _ heq
        exact ho (by simpa [hobj] using heq.symm)
    | _ => simp [WaitCall.kind] at hsem
  · rename_i hother
    refine ⟨hwake.mono fun m hm => .inl hm, .refl _, ?_⟩
    intro o ho hs
    refine wake_served h ha ?_ hs
    intro s hos hobj
    have hcause := ho s hos hobj
    subst hos
    refine hother ⟨?_, hcause⟩
    cases w with
    | sem => rfl
    | _ => simp [WaitCall.obj] at hobj

end TsukumoCore
