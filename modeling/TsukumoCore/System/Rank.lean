import TsukumoCore.Calls.Mail
import TsukumoCore.Calls.Refused
import TsukumoCore.Calls.Requests
import TsukumoCore.Calls.Turns
import TsukumoCore.System.Boot

/-!
# The order of the waiters

The queue of every semaphore, event flag and mailbox is in the order its attributes give, in every state of
a run.
-/

namespace TsukumoCore

variable {e : Entries} {b : Boot} {k k' : Kernel} {q q' : Tasks} {x x' : Objects} {s : SemId} {t u : TskId}
  {m : Move} {a : Act}

/-! ## The order of the waiters -/

/-- `u` ranks ahead of `t` on an object with the attributes `atr`. -/
def Ahead (q : Tasks) (atr : ATR) (u t : TskId) : Prop :=
  if atr &&& TA_TPRI ≠ 0 then
    (q.tcbs u).itskpri < (q.tcbs t).itskpri ∨
      (q.tcbs u).itskpri = (q.tcbs t).itskpri ∧ Turn.Earlier joins q.log u t
  else Turn.Earlier joins q.log u t

/-- The queue of every object is in the order of its attributes. -/
structure Ranked (q : Tasks) (x : Objects) : Prop where
  came : ∀ o, ∀ u ∈ q.wait_queue o, Turn.Came joins q.log u
  rank : ∀ o, (q.wait_queue o).Pairwise (Ahead q (x.atr o))

theorem Ahead.kept {atr : ATR} (h : Ahead q atr u t) {post : List Event}
    (hu : (q'.tcbs u).itskpri = (q.tcbs u).itskpri) (ht : (q'.tcbs t).itskpri = (q.tcbs t).itskpri)
    (hlog : q'.log = q.log ++ post) (hpost : ∀ ev ∈ post, joins ev ≠ some u) : Ahead q' atr u t := by
  unfold Ahead at h ⊢
  rw [hu, ht, hlog]
  split at h
  · rename_i hatr
    rw [if_pos hatr]
    rcases h with hless | ⟨heq, hearlier⟩
    · exact .inl hless
    · exact .inr ⟨heq, hearlier.append hpost⟩
  · rename_i hatr
    rw [if_neg hatr]
    exact h.append hpost

theorem Ahead.asymm {atr : ATR} (h : Ahead q atr u t) : ¬ Ahead q atr t u := by
  unfold Ahead at h ⊢
  split at h
  · rename_i hatr
    rw [if_pos hatr]
    rintro (hless' | ⟨heq', hearlier'⟩)
    · rcases h with hless | ⟨heq, -⟩
      · omega
      · omega
    · rcases h with hless | ⟨-, hearlier⟩
      · omega
      · exact hearlier.asymm hearlier'
  · rename_i hatr
    rw [if_neg hatr]
    exact h.asymm

/-! ## Moves -/

theorem joins_events (h : Placed q) (ha : m.Allowed q) {o : Obj} (hu : u ∈ q.wait_queue o) :
    ∀ ev ∈ m.events q, joins ev ≠ some u := by
  have hwai := (h.pending_of_mem hu).1
  intro ev hev
  cases m with
  | block t w queue timed =>
    rw [List.mem_singleton.mp hev]
    intro heq
    obtain rfl := Option.some.inj heq
    exact ha.1.stat_ne_wai hwai
  | wake | give =>
    simp only [Move.events, List.mem_cons, List.not_mem_nil, or_false] at hev
    rcases hev with rfl | rfl | rfl <;> simp [joins]
  | start | yield | dispatch | finish | note =>
    rw [List.mem_singleton.mp hev]
    simp [joins]
  | _ => exact absurd hev List.not_mem_nil

theorem itskpri_effect (h : Placed q) (ha : m.Allowed q) {o : Obj} (hu : u ∈ q.wait_queue o) :
    ((m.effect q).tcbs u).itskpri = (q.tcbs u).itskpri := by
  have hwai := (h.pending_of_mem hu).1
  cases m with
  | create t pk frame =>
    have hne : u ≠ t := by
      rintro rfl
      have hfree := (h.task u).free.mp (List.mem_of_mem_head? ha.1)
      exact absurd (hwai.symm.trans hfree) (by simp)
    simp [Move.effect, hne]
  | wake t | give t | block t | start t | exit t | exitDelete t | launch t | queueWakeup t | useWakeup t =>
    by_cases hut : u = t
    · subst hut; simp [Move.effect, Move.wakeEffect, Move.setInfo, Tasks.setTcb, Tasks.note]
    · simp [Move.effect, Move.wakeEffect, Move.setInfo, Tasks.setTcb, Tasks.note, hut]
  | finish t w =>
    by_cases hut : u = t
    · subst hut; cases w <;> simp [Move.effect, WaitCall.after]
    · simp [Move.effect, hut]
  | dispatch old new sp =>
    simp only [Move.effect, Tasks.note, Tasks.setTcb]
    by_cases hnew : u = new
    · subst hnew
      by_cases hold : u = old
      · subst hold; simp
      · simp [hold]
    · by_cases hold : u = old
      · subst hold; simp [hnew]
      · simp [hnew, hold]
  | tick n =>
    by_cases hmem : u ∈ q.timer_queue <;> simp [Move.effect, hmem]
  | _ => rfl

/-- A move that puts no task in the queue of an object. -/
def Move.joinsNone (m : Move) : Prop := ∀ t w queue timed, m = .block t w queue timed → w.obj = none

theorem Move.joinsNone_queue (hm : m.joinsNone) (o : Obj) : ((m.effect q).wait_queue o).Sublist (q.wait_queue o) := by
  cases m with
  | wake | give => exact List.erase_sublist
  | block t w queue timed =>
    have hnone := hm t w queue timed rfl
    simp [effect, hnone]
  | _ => exact List.Sublist.refl _

theorem Ranked.move (h : Ranked q x) (hp : Placed q) (ha : m.Allowed q) (hm : m.joinsNone) :
    Ranked (m.effect q) x := by
  have hsub := fun o => Move.joinsNone_queue (q := q) hm o
  refine ⟨?_, ?_⟩
  · intro o u hu
    rw [Move.log_effect]
    exact (h.came o u ((hsub o).subset hu)).append _
  · intro o
    refine ((h.rank o).sublist (hsub o)).imp_of_mem ?_
    intro u t hu ht hahead
    have hu' := (hsub o).subset hu
    have ht' := (hsub o).subset ht
    exact hahead.kept (itskpri_effect hp ha hu') (itskpri_effect hp ha ht') (Move.log_effect q m)
      (joins_events hp ha hu')

theorem Ranked.does {P : Move → Prop} (h : Ranked q x) (hok : Ok q) (hd : Does P q q')
    (hP : ∀ m, P m → m.joinsNone) : Ranked q' x := by
  have hkeep := hd.keeps (I := fun q' => Ok q' ∧ Ranked q' x) ?_ ⟨hok, h⟩
  · exact hkeep.2
  · rintro m q' hm ha ⟨hok', hrank⟩
    exact ⟨Move.ok hok' ha, hrank.move hok'.toPlaced ha (hP m hm)⟩

/-! ## A task joins the queue -/

theorem behind_lower {pri : Int} {l : List TskId}
    (h : l.Pairwise fun u t => (q.tcbs u).itskpri ≤ (q.tcbs t).itskpri) :
    ∀ u ∈ l.dropWhile (fun pos => (q.tcbs pos).itskpri ≤ pri), pri < (q.tcbs u).itskpri := by
  induction l with
  | nil => simp
  | cons v rest ih =>
    obtain ⟨hv, hrest⟩ := List.pairwise_cons.mp h
    by_cases hle : (q.tcbs v).itskpri ≤ pri
    · rw [List.dropWhile_cons_of_pos (by simpa using hle)]
      exact ih hrest
    · rw [List.dropWhile_cons_of_neg (by simpa using hle)]
      intro u hu
      rcases List.mem_cons.mp hu with rfl | hu
      · omega
      · have := hv u hu
        omega

theorem Ahead.le {atr : ATR} (hatr : atr &&& TA_TPRI ≠ 0) (h : Ahead q atr u t) :
    (q.tcbs u).itskpri ≤ (q.tcbs t).itskpri := by
  unfold Ahead at h
  rw [if_pos hatr] at h
  rcases h with hless | ⟨heq, -⟩
  · omega
  · omega

/-- A new request in its place: behind those that rank ahead of it, in front of those it ranks ahead of. -/
theorem queueBy_rank {atr : ATR} {queue : List TskId} (h : queue.Pairwise (Ahead q atr))
    (hcame : ∀ u ∈ queue, Turn.Came joins q.log u) (ht : t ∉ queue)
    (hpri : ∀ u, (q'.tcbs u).itskpri = (q.tcbs u).itskpri) {w : WaitCall} (hlog : q'.log = q.log ++ [.block t w]) :
    (queueBy q t atr queue).Pairwise (Ahead q' atr) := by
  have hne : ∀ u ∈ queue, u ≠ t := by
    rintro u hu rfl
    exact ht hu
  have hold : queue.Pairwise (Ahead q' atr) := by
    refine h.imp_of_mem ?_
    intro u v hu hv hahead
    refine hahead.kept (hpri u) (hpri v) hlog ?_
    intro ev hev heq
    rw [List.mem_singleton.mp hev] at heq
    exact hne u hu (Option.some.inj heq).symm
  have hearlier : ∀ u ∈ queue, Turn.Earlier joins q'.log u t := by
    intro u hu
    rw [hlog]
    exact (hcame u hu).earlier rfl (hne u hu)
  unfold queueBy
  split
  · rename_i hatr
    have hsorted := h.imp fun hahead => Ahead.le hatr hahead
    rw [List.pairwise_append]
    have hsplit : queue.takeWhile (fun pos => decide ((q.tcbs pos).itskpri ≤ (q.tcbs t).itskpri)) ++
        queue.dropWhile (fun pos => decide ((q.tcbs pos).itskpri ≤ (q.tcbs t).itskpri)) = queue :=
      List.takeWhile_append_dropWhile
    rw [← hsplit, List.pairwise_append] at hold
    obtain ⟨hfront, hback, hacross⟩ := hold
    have hto : ∀ u ∈ queue.takeWhile (fun pos => decide ((q.tcbs pos).itskpri ≤ (q.tcbs t).itskpri)),
        Ahead q' atr u t := by
      intro u hu
      have hle := List.mem_takeWhile_imp hu
      simp only [decide_eq_true_eq] at hle
      have hmem := (List.takeWhile_sublist _).subset hu
      unfold Ahead
      rw [if_pos hatr, hpri, hpri]
      rcases Int.lt_or_eq_of_le hle with hless | heq
      · exact .inl hless
      · exact .inr ⟨heq, hearlier u hmem⟩
    have hfrom : ∀ u ∈ queue.dropWhile (fun pos => decide ((q.tcbs pos).itskpri ≤ (q.tcbs t).itskpri)),
        Ahead q' atr t u := by
      intro u hu
      unfold Ahead
      rw [if_pos hatr, hpri, hpri]
      exact .inl (behind_lower hsorted u hu)
    refine ⟨hfront, List.pairwise_cons.mpr ⟨hfrom, hback⟩, ?_⟩
    intro u hu v hv
    rcases List.mem_cons.mp hv with rfl | hv
    · exact hto u hu
    · exact hacross u hu v hv
  · rename_i hatr
    rw [List.pairwise_append]
    refine ⟨hold, List.pairwise_singleton _ _, ?_⟩
    intro u hu v hv
    rw [List.mem_singleton.mp hv]
    unfold Ahead
    rw [if_neg hatr]
    exact hearlier u hu

theorem Ranked.block (h : Ranked q x) (hp : Placed q) {w : WaitCall} {o : Obj} {timed : Option Nat}
    (hobj : w.obj = some o) (hact : (q.tcbs t).active) :
    Ranked ((Move.block t w (queueBy q t (x.atr o) (q.wait_queue o)) timed).effect q) x := by
  have hnot : ∀ o', t ∉ q.wait_queue o' := fun o' => hp.not_mem_wait hact.stat_ne_wai _
  generalize hq' : (Move.block t w (queueBy q t (x.atr o) (q.wait_queue o)) timed).effect q = q'
  have hlog : q'.log = q.log ++ [.block t w] := by
    rw [← hq']
    rfl
  have hpri : ∀ u, (q'.tcbs u).itskpri = (q.tcbs u).itskpri := by
    intro u
    rw [← hq']
    by_cases hu : u = t
    · subst hu; simp [Move.effect]
    · simp [Move.effect, hu]
  have hself : q'.wait_queue o = queueBy q t (x.atr o) (q.wait_queue o) := by
    simp [← hq', Move.effect, hobj]
  have hother : ∀ o', o' ≠ o → q'.wait_queue o' = q.wait_queue o' := by
    intro o' ho
    simp [← hq', Move.effect, hobj, Ne.symm ho]
  refine ⟨?_, ?_⟩
  · intro o' u hu
    rw [hlog]
    by_cases hut : u = t
    · subst hut
      exact ⟨_, List.mem_append_right _ (List.mem_singleton.mpr rfl), rfl⟩
    · by_cases ho : o' = o
      · subst ho
        obtain ⟨ahead, behind, hqueue, hplace, -⟩ := queueBy_split q t (x.atr o') (q.wait_queue o')
        rw [hself, hplace] at hu
        refine (h.came o' u ?_).append _
        rw [hqueue]
        simpa [hut] using hu
      · rw [hother o' ho] at hu
        exact (h.came o' u hu).append _
  · intro o'
    by_cases ho : o' = o
    · subst ho
      rw [hself]
      exact queueBy_rank (h.rank o') (h.came o') (hnot o') hpri hlog
    · rw [hother o' ho]
      refine (h.rank o').imp_of_mem ?_
      intro u v hu hv hahead
      refine hahead.kept (hpri u) (hpri v) hlog ?_
      intro ev hev heq
      rw [List.mem_singleton.mp hev] at heq
      rw [Option.some.inj heq] at hnot
      exact hnot o' hu

/-! ## Steps -/

theorem Ranked.objects (h : Ranked q x) (hatr : ∀ o, x'.atr o = x.atr o ∨ q.wait_queue o = []) :
    Ranked q x' := by
  refine ⟨h.came, ?_⟩
  intro o
  rcases hatr o with hsame | hempty
  · rw [hsame]
    exact h.rank o
  · rw [hempty]
    exact List.Pairwise.nil

theorem tk_wai_sem_checks {semid cnt tmout : Int} {times : List Nat}
    (h : ∀ r, (tk_wai_sem k semid cnt tmout times).1 = .ret r → r.ercd = .E_OK) :
    ∃ s, tableEntry CFN_MAX_SEMID semid = some s ∧ 0 < cnt ∧ TMO_FEVR ≤ tmout ∧
      tkmc_can_block k k.mie = true ∧ k.Live (.sem s) ∧ cnt ≤ (k.semcbs s).maxsem := by
  unfold tk_wai_sem at h
  split at h
  · exact absurd (h _ rfl) (by simp)
  rename_i s he
  split at h
  · exact absurd (h _ rfl) (by simp)
  rename_i hpar
  dsimp only at h
  split at h
  · exact absurd (h _ rfl) (by simp)
  rename_i hblock
  split at h
  · exact absurd (h _ rfl) (by simp)
  rename_i hexs
  split at h
  · exact absurd (h _ rfl) (by simp)
  rename_i hmax
  have hcan : tkmc_can_block k.DI k.mie = true := by simpa using hblock
  refine ⟨s, he, by omega, by omega, hcan, ?_, by simpa using hmax⟩
  simpa [live_sem_iff] using hexs

theorem begin_wait_tasks {w : WaitCall} {tmout : Int} (h : Caller k t)
    (hl : w.limit = if 0 < tmout then some tmout.toNat else none) (queue : List TskId) (times : List Nat) :
    ∃ q timed, Counted k w times q ∧
      (leave_call ((begin_wait (k.DI.tasks (·.requestFor t w queue)) t w.kind tmout times).EI k.mie) (.wait w)
        .wait).toTasks = (Move.block t w queue timed).effect q := by
  unfold begin_wait
  split
  · rename_i hpos
    rw [if_pos hpos] at hl
    have hcounted := counted_of_limit k times hl
    have hok : Ok (k.toTasks.counted (waitTicks k times tmout.toNat)) :=
      (hcounted.does (e := ⟨0, 0, 0⟩)).ok h.core.tasks
    obtain ⟨htasks, -⟩ := leave_timed h.current h.active w queue tmout.toNat hok.toPlaced rfl
    exact ⟨_, _, hcounted, htasks⟩
  · obtain ⟨htasks, -⟩ := leave_untimed h.core.tasks.toPlaced h.current h.active w queue rfl
    exact ⟨_, _, .inl rfl, htasks⟩

/-- What a wait call on an object leaves: a return that is put on record, or the caller in its place in the
queue. -/
inductive Joins (k : Kernel) (w : WaitCall) (o : Obj) (times : List Nat) : Flow × Kernel → Prop where
  | returned {r : Ret} {k' : Kernel} : k'.toTasks = k.toTasks → Joins k w o times (.ret r, k')
  | joined {t : TskId} {tmout : Int} : Caller k t → w.limit = (if 0 < tmout then some tmout.toNat else none) →
      Joins k w o times (.wait, (begin_wait (k.DI.tasks (·.requestFor t w
        (queueBy k.toTasks t (k.atr o) (k.wait_queue o)))) t w.kind tmout times).EI k.mie)

theorem Ranked.joins (hrank : Ranked k.toTasks k.toObjects) (h : Core k.toTasks k.toObjects) {w : WaitCall}
    {o : Obj} {times : List Nat} {res : Flow × Kernel} (hobj : w.obj = some o) (hj : Joins k w o times res) :
    Ranked (leave_call res.2 (.wait w) res.1).toTasks k.toObjects := by
  cases hj with
  | returned hsame =>
    show Ranked (Tasks.note _ _) _
    rw [hsame]
    exact hrank.move (m := .note (.wait w) _) h.tasks.toPlaced trivial (by simp [Move.joinsNone])
  | joined hcaller hlimit =>
    rename_i t tmout
    obtain ⟨q, timed, hcounted, htasks⟩ := begin_wait_tasks hcaller hlimit
      (queueBy k.toTasks t (k.atr o) (k.wait_queue o)) times
    show Ranked (leave_call _ _ .wait).toTasks _
    refine Eq.mpr (congrArg (Ranked · k.toObjects) htasks) ?_
    rcases hcounted with rfl | ⟨-, rfl⟩
    · exact hrank.block h.tasks.toPlaced hobj hcaller.active
    · have hover := hrank.move (m := .overflow) h.tasks.toPlaced trivial (by simp [Move.joinsNone])
      have hok := Move.ok (m := .overflow) h.tasks trivial
      exact hover.block (t := t) hok.toPlaced hobj hcaller.active

theorem Joins.of_answers {w : WaitCall} {o : Obj} {times : List Nat} {res : Flow × Kernel}
    (ha : Answers k res.1 res.2)
    (hj : (∀ r, res.1 = .ret r → r.ercd = .E_OK) → Joins k w o times res) : Joins k w o times res := by
  by_cases hrefused : ∃ r, res.1 = .ret r ∧ r.ercd ≠ .E_OK
  · obtain ⟨r, hflow, hr⟩ := hrefused
    have hres : res = (.ret r, k) := Prod.ext hflow (ha.refused r hflow hr).1
    rw [hres]
    exact .returned rfl
  · push Not at hrefused
    exact hj hrefused

theorem tk_wai_sem_joins (h : Good k) (hcan : canCall k = true) {semid cnt tmout : Int} {times : List Nat}
    (he : tableEntry CFN_MAX_SEMID semid = some s) :
    Joins k (.sem semid cnt tmout) (.sem s) times (tk_wai_sem k semid cnt tmout times) := by
  refine .of_answers (tk_wai_sem_answers semid cnt tmout times) fun hok => ?_
  obtain ⟨s', he', hcnt, htmo, hblock, hlive, hmax⟩ := tk_wai_sem_checks hok
  obtain rfl : s = s' := Option.some.inj (he.symm.trans he')
  obtain ⟨t, ht⟩ := h.sched.current
  have hcaller := Caller.of_good h hcan hblock ht
  rw [tk_wai_sem_eq hcaller he hlive hcnt hmax htmo]
  split
  · exact .returned rfl
  split
  · exact .returned rfl
  · exact .joined hcaller rfl

theorem tk_wai_flg_checks {flgid tmout : Int} {waiptn wfmode p_flgptn : UINT} {times : List Nat}
    (h : ∀ r, (tk_wai_flg k flgid waiptn wfmode p_flgptn tmout times).1 = .ret r → r.ercd = .E_OK) :
    ∃ f, tableEntry CFN_MAX_FLGID flgid = some f ∧ ¬ (p_flgptn = NULL ∨ waiptn = 0) ∧
      wfmode &&& ~~~VALID_WFMODE = 0 ∧ TMO_FEVR ≤ tmout ∧ tkmc_can_block k k.mie = true ∧ k.Live (.flg f) ∧
      ¬ ((k.flgcbs f).flgatr &&& TA_WMUL = 0 ∧ k.wait_queue (.flg f) ≠ []) := by
  unfold tk_wai_flg at h
  split at h
  · exact absurd (h _ rfl) (by simp)
  rename_i f he
  split at h
  · exact absurd (h _ rfl) (by simp)
  rename_i hpar
  split at h
  · exact absurd (h _ rfl) (by simp)
  rename_i hmode
  split at h
  · exact absurd (h _ rfl) (by simp)
  rename_i htmo
  dsimp only at h
  split at h
  · exact absurd (h _ rfl) (by simp)
  rename_i hblock
  split at h
  · exact absurd (h _ rfl) (by simp)
  rename_i hexs
  split at h
  · exact absurd (h _ rfl) (by simp)
  rename_i hone
  have hcan : tkmc_can_block k.DI k.mie = true := by simpa using hblock
  refine ⟨f, he, hpar, by simpa using hmode, by omega, hcan, ?_, hone⟩
  simpa [Objects.Live, Objects.cb, CB.id] using hexs

theorem tk_wai_flg_joins (h : Good k) (hcan : canCall k = true) {flgid tmout : Int} {waiptn wfmode p_flgptn : UINT}
    {times : List Nat} {f : FlgId} (he : tableEntry CFN_MAX_FLGID flgid = some f) :
    Joins k (.flg flgid waiptn wfmode p_flgptn tmout) (.flg f) times
      (tk_wai_flg k flgid waiptn wfmode p_flgptn tmout times) := by
  refine .of_answers (tk_wai_flg_answers flgid waiptn wfmode p_flgptn tmout times) fun hok => ?_
  obtain ⟨f', he', hpar, hmode, htmo, hblock, hlive, hone⟩ := tk_wai_flg_checks hok
  obtain rfl : f = f' := Option.some.inj (he.symm.trans he')
  obtain ⟨t, ht⟩ := h.sched.current
  have hcaller := Caller.of_good h hcan hblock ht
  rw [tk_wai_flg_eq hcaller he hlive hpar hmode htmo hone]
  split
  · exact .returned rfl
  split
  · exact .returned rfl
  · exact .joined hcaller rfl

theorem tk_rcv_mbx_checks {mbxid tmout : Int} {ppk_msg : UINT} {times : List Nat}
    (h : ∀ r, (tk_rcv_mbx k mbxid ppk_msg tmout times).1 = .ret r → r.ercd = .E_OK) :
    ∃ m, tableEntry CFN_MAX_MBXID mbxid = some m ∧ ¬ (ppk_msg = NULL ∨ tmout < TMO_FEVR) ∧
      tkmc_can_block k k.mie = true ∧ k.Live (.mbx m) := by
  unfold tk_rcv_mbx at h
  split at h
  · exact absurd (h _ rfl) (by simp)
  rename_i m he
  split at h
  · exact absurd (h _ rfl) (by simp)
  rename_i hpar
  dsimp only at h
  split at h
  · exact absurd (h _ rfl) (by simp)
  rename_i hblock
  split at h
  · exact absurd (h _ rfl) (by simp)
  rename_i hexs
  have hcan : tkmc_can_block k.DI k.mie = true := by simpa using hblock
  refine ⟨m, he, hpar, hcan, ?_⟩
  simpa [Objects.Live, Objects.cb, CB.id] using hexs

theorem tk_rcv_mbx_joins (h : Good k) (hcan : canCall k = true) {mbxid tmout : Int} {ppk_msg : UINT}
    {times : List Nat} {m : MbxId} (he : tableEntry CFN_MAX_MBXID mbxid = some m) :
    Joins k (.mbx mbxid ppk_msg tmout) (.mbx m) times (tk_rcv_mbx k mbxid ppk_msg tmout times) := by
  refine .of_answers (tk_rcv_mbx_answers mbxid ppk_msg tmout times) fun hok => ?_
  obtain ⟨m', he', hpar, hblock, hlive⟩ := tk_rcv_mbx_checks hok
  obtain rfl : m = m' := Option.some.inj (he.symm.trans he')
  obtain ⟨t, ht⟩ := h.sched.current
  have hcaller := Caller.of_good h hcan hblock ht
  rw [tk_rcv_mbx_eq hcaller he hlive hpar]
  split
  · exact .returned rfl
  split
  · exact .returned rfl
  · exact .joined hcaller rfl

theorem wait_joins (h : Good k) (hcan : canCall k = true) {w : WaitCall} {o : Obj} {times : List Nat}
    {res : Flow × Kernel} (hobj : w.obj = some o) (hx : exec e k times (.wait w) = some res) :
    Joins k w o times res := by
  cases w with
  | slp | dly => simp [WaitCall.obj] at hobj
  | sem semid cnt tmout =>
    obtain ⟨s, he, rfl⟩ : ∃ s, tableEntry CFN_MAX_SEMID semid = some s ∧ .sem s = o := by
      simpa [WaitCall.obj] using hobj
    rw [← Option.some.inj hx]
    exact tk_wai_sem_joins h hcan he
  | flg flgid waiptn wfmode p_flgptn tmout =>
    obtain ⟨f, he, rfl⟩ : ∃ f, tableEntry CFN_MAX_FLGID flgid = some f ∧ .flg f = o := by
      simpa [WaitCall.obj] using hobj
    rw [← Option.some.inj hx]
    exact tk_wai_flg_joins h hcan he
  | mbx mbxid ppk_msg tmout =>
    obtain ⟨m, he, rfl⟩ : ∃ m, tableEntry CFN_MAX_MBXID mbxid = some m ∧ .mbx m = o := by
      simpa [WaitCall.obj] using hobj
    rw [← Option.some.inj hx]
    exact tk_rcv_mbx_joins h hcan he

theorem step_ranked (h : Inv k) (hrank : Ranked k.toTasks k.toObjects) (hk : step e k a = some k') :
    Ranked k'.toTasks k'.toObjects := by
  refine Ranked.objects (x := k.toObjects) ?_ fun o => step_atr h.core hk o
  by_cases ha : ∃ w o times, a = .call (.wait w) times ∧ w.obj = some o
  · obtain ⟨w, o, times, rfl, hobj⟩ := ha
    simp only [step, Option.ite_none_right_eq_some, Option.map_eq_some_iff] at hk
    obtain ⟨hcan, ⟨flow, k1⟩, hx, rfl⟩ := hk
    exact hrank.joins h.core hobj (wait_joins h.toGood hcan hobj hx)
  · push Not at ha
    refine hrank.does h.core.tasks (step_ok h hk).does ?_
    rintro m hm t w queue timed rfl
    rw [Option.eq_none_iff_forall_ne_some]
    intro o hobj
    cases a with
    | call c times =>
      obtain ⟨-, -, rfl, -⟩ := hm
      exact ha w o times rfl hobj
    | _ => exact hm

theorem start_queues (hk : tkmc_start b = some k) (o : Obj) : k.wait_queue o = [] := by
  obtain ⟨hcore, -, hstat, -⟩ := start_tasks hk
  rw [List.eq_nil_iff_forall_not_mem]
  intro u hu
  have hwai := (hcore.tasks.pending_of_mem hu).1
  rw [hstat] at hwai
  split at hwai
  · cases hwai
  · split at hwai <;> cases hwai

theorem Reachable.ranked (h : Reachable b k) : Ranked k.toTasks k.toObjects := by
  have hall : Inv k ∧ Ranked k.toTasks k.toObjects := by
    refine Paths.Reach.invariant (I := fun k => Inv k ∧ Ranked k.toTasks k.toObjects) ?_ ?_ h
    · intro k hk
      refine ⟨start_inv hk, ?_, ?_⟩
      · intro o u hu
        rw [start_queues hk o] at hu
        exact absurd hu List.not_mem_nil
      · intro o
        rw [start_queues hk o]
        exact List.Pairwise.nil
    · rintro k a k' ⟨hinv, hrank⟩ hstep
      exact ⟨(step_ok hinv hstep).inv, step_ranked hinv hrank hstep⟩
  exact hall.2


end TsukumoCore
