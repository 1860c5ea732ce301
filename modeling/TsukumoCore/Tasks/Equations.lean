import TsukumoCore.Tasks.Keeps

/-!
# What the list operations come to

Each operation on the links, where the invariant holds: which queue it changes, with no alarm.
-/

namespace TsukumoCore

variable {q : Tasks} {t : TskId}

theorem Placed.head_ne_self_iff (h : Placed q) (hs : (q.tcbs t).tskstat = .WAI) :
    (q.tcbs t).head ≠ .self ↔ t ∈ q.timer_queue := by
  rw [(h.task t).timer]
  have := (h.task t).head_waiting hs
  cases hh : (q.tcbs t).head <;> simp_all

theorem Placed.wait_link_ne_self_iff (h : Placed q) (hs : (q.tcbs t).tskstat = .WAI) :
    (q.tcbs t).wait_link ≠ .self ↔ ∃ o, t ∈ q.wait_queue o := by
  rw [(h.task t).wait_link]
  simp only [(h.task t).wait, hs, true_and]
  cases ho : waitsOn (q.pending t) <;> simp

theorem Placed.head_cases (h : Placed q) (hs : (q.tcbs t).tskstat = .WAI) :
    (q.tcbs t).head = .linked ∨ (q.tcbs t).head = .self ∧ t ∉ q.timer_queue := by
  have hhead := h.head_ne_self_iff hs
  have hwaiting := (h.task t).head_waiting hs
  cases hh : (q.tcbs t).head with
  | linked => exact .inl rfl
  | self => exact .inr ⟨rfl, fun ht => hhead.mpr ht hh⟩
  | poisoned => exact absurd hh hwaiting

theorem Placed.wait_link_cases (h : Placed q) (hs : (q.tcbs t).tskstat = .WAI) :
    (q.tcbs t).wait_link = .linked ∨ (q.tcbs t).wait_link = .self ∧ ∀ o, t ∉ q.wait_queue o := by
  have hno := (h.wait_link_ne_self_iff hs).not
  rw [(h.task t).wait_link] at hno ⊢
  split at hno
  · rename_i hin; simp [hin]
  · rename_i hin
    exact .inr ⟨by simp [hin], fun o ho => hno.mp (by simp) ⟨o, ho⟩⟩

theorem release_eq (h : Placed q) (hs : (q.tcbs t).tskstat = .WAI) (cause : ER) :
    release q t cause = Move.wakeEffect q t cause := by
  have hfree := h.not_mem_free (t := t) (by simp [hs])
  have hready := h.not_mem_ready (not_active_of_wai hs)
  rcases h.head_cases hs with hh | ⟨hh, htimer⟩ <;>
    rcases h.wait_link_cases hs with hw | ⟨hw, hwait⟩ <;>
    ext1 <;>
    simp [release, Move.wakeEffect, Tasks.check, Tasks.note, Tasks.setTcb, Tasks.add_ready,
      Tasks.link_head, Tasks.del_head, Tasks.del_wait, Tasks.init_wait, TCB.level,
      List.erase_of_not_mem, *]

/-- `release` on a task that `pop_waiting_receiver` took off its wait queue before. -/
theorem release_popped (h : Placed q) (hs : (q.tcbs t).tskstat = .WAI)
    (hw : (q.tcbs t).wait_link = .linked) (info : WaitInfo) (cause : ER) :
    release (((q.del_wait t).init_wait t).setTcb t fun c => { c with winfo := info }) t cause =
      Move.wakeEffect (Move.setInfo q t info) t cause := by
  have hfree := h.not_mem_free (t := t) (by simp [hs])
  have hready := h.not_mem_ready (not_active_of_wai hs)
  rcases h.head_cases hs with hh | ⟨hh, htimer⟩ <;>
    ext1 <;>
    simp [release, Move.wakeEffect, Move.setInfo, Tasks.check, Tasks.note, Tasks.setTcb,
      Tasks.add_ready, Tasks.link_head, Tasks.del_head, Tasks.del_wait, Tasks.init_wait, TCB.level,
      List.erase_of_not_mem, *]

/-! ## The beginning of a wait -/

/-- A wait queue with `t` put in its place: behind the waiters of its priority and of higher ones if
the object orders them by priority, else at the end. -/
def queueBy (q : Tasks) (t : TskId) (atr : ATR) (queue : List TskId) : List TskId :=
  if atr &&& TA_TPRI ≠ 0 then
    (queue.takeWhile fun pos => (q.tcbs pos).itskpri ≤ (q.tcbs t).itskpri) ++
      t :: queue.dropWhile fun pos => (q.tcbs pos).itskpri ≤ (q.tcbs t).itskpri
  else queue ++ [t]

theorem queueBy_split (q : Tasks) (t : TskId) (atr : ATR) (queue : List TskId) :
    ∃ ahead behind, queue = ahead ++ behind ∧ queueBy q t atr queue = ahead ++ t :: behind ∧
      (ahead = [] ↔ ∀ head ∈ queue.head?,
        atr &&& TA_TPRI ≠ 0 ∧ (q.tcbs t).itskpri < (q.tcbs head).itskpri) := by
  unfold queueBy
  split
  · rename_i hatr
    refine ⟨_, _, List.takeWhile_append_dropWhile.symm, rfl, ?_⟩
    cases queue with
    | nil => simp
    | cons u rest => simpa [List.takeWhile_cons] using fun _ => hatr
  · rename_i hatr
    refine ⟨queue, [], by simp, rfl, ?_⟩
    cases queue with
    | nil => simp
    | cons u rest => simpa using fun h => absurd h hatr

/-- `t` written down for a wait: its link, its union and the wait queues. -/
def Tasks.request (q : Tasks) (t : TskId) (link : Link) (info : WaitInfo)
    (queues : Obj → List TskId) : Tasks :=
  { q with
    tcbs := Function.update q.tcbs t { q.tcbs t with wait_link := link, winfo := info }
    wait_queue := queues }

theorem Placed.wait_link_self (h : Placed q) (hs : (q.tcbs t).tskstat ≠ .WAI) :
    (q.tcbs t).wait_link = .self := by
  rw [(h.task t).wait_link]; simp [hs]

theorem first_lower_request (t : TskId) (info : WaitInfo) (queue : List TskId) :
    first_lower ((q.setTcb t fun c => { c with winfo := info }).init_wait t) t queue =
      first_lower q t queue := by
  have hpri : ∀ u, (((q.setTcb t fun c => { c with winfo := info }).init_wait t).tcbs u).itskpri =
      (q.tcbs u).itskpri := by
    intro u
    by_cases hu : u = t
    · subst hu; simp [Tasks.init_wait, Tasks.setTcb, Tasks.check]
    · simp [Tasks.init_wait, Tasks.setTcb, Tasks.check, hu]
  simp only [first_lower, hpri]

theorem queueBy_first_lower {atr : ATR} (hatr : atr &&& TA_TPRI ≠ 0) (queue : List TskId) :
    queueBy q t atr queue =
      match first_lower q t queue with
      | some pos => insertBefore t pos queue
      | none => queue ++ [t] := by
  have hnot : (fun pos => decide ((q.tcbs pos).itskpri ≤ (q.tcbs t).itskpri)) =
      fun pos => !decide ((q.tcbs t).itskpri < (q.tcbs pos).itskpri) := by
    funext pos; simp [← decide_not]
  simp only [queueBy, hatr, if_true, hnot, ne_eq, not_false_eq_true]
  cases hf : first_lower q t queue with
  | some pos => exact (List.insertBefore_find hf).symm
  | none => exact (List.concat_of_find_none hf).symm

theorem add_wait_request (hw : (q.tcbs t).wait_link = .self) (info : WaitInfo) (queue : List TskId) (o : Obj) :
    { (((q.setTcb t fun c => { c with winfo := info }).init_wait t).link_wait t) with
      wait_queue := Function.update q.wait_queue o queue } =
      q.request t .linked info (Function.update q.wait_queue o queue) := by
  ext1 <;> simp [Tasks.request, Tasks.init_wait, Tasks.setTcb, Tasks.check, Tasks.link_wait, hw]

/-- The insertion codes put the task in the same place. -/
theorem insert_waiter_eq (hw : (q.tcbs t).wait_link = .self) (info : WaitInfo) (m : MbxId) (atr : ATR) :
    insert_waiter ((q.setTcb t fun c => { c with winfo := info }).init_wait t) t m atr =
      q.request t .linked info
        (Function.update q.wait_queue (.mbx m) (queueBy q t atr (q.wait_queue (.mbx m)))) := by
  rw [← add_wait_request hw]
  have hqueue : ((q.setTcb t fun c => { c with winfo := info }).init_wait t).wait_queue = q.wait_queue := rfl
  unfold insert_waiter
  rw [hqueue, first_lower_request]
  by_cases hatr : atr &&& TA_TPRI = 0
  · simp only [hatr, queueBy]; rfl
  · rw [if_pos hatr, queueBy_first_lower hatr]
    cases first_lower q t (q.wait_queue (.mbx m)) <;> rfl

theorem insert_by_atr_eq (hw : (q.tcbs t).wait_link = .self) (info : WaitInfo) (o : Obj) (atr : ATR) :
    insert_by_atr ((q.setTcb t fun c => { c with winfo := info }).init_wait t) t o atr =
      q.request t .linked info (Function.update q.wait_queue o (queueBy q t atr (q.wait_queue o))) := by
  rw [← add_wait_request hw]
  have hqueue : ((q.setTcb t fun c => { c with winfo := info }).init_wait t).wait_queue = q.wait_queue := rfl
  unfold insert_by_atr
  rw [hqueue, first_lower_request]
  by_cases hatr : atr &&& TA_TPRI = 0
  · simp only [hatr, queueBy]; rfl
  · rw [if_pos hatr, queueBy_first_lower hatr]
    split
    · rename_i hnil
      have hnone : first_lower q t (q.wait_queue o) = none := by rw [hnil]; rfl
      rw [hnone]; rfl
    · cases first_lower q t (q.wait_queue o) <;> rfl

theorem begin_timed (h : Placed q) (hact : (q.tcbs t).active) (link : Link) (info : WaitInfo)
    (queues : Obj → List TskId) (tskwait : TTW) (n : Nat) :
    ((((q.request t link info queues).setTcb t fun c =>
      { c with tskstat := .WAI, tskwait := tskwait, delay_ticks := n }).del_head t).add_timer t) =
    { q with
      tcbs := Function.update q.tcbs t
        { q.tcbs t with
          head := .linked, wait_link := link, tskstat := .WAI, tskwait := tskwait, delay_ticks := n
          winfo := info }
      ready_queue := fun i => (q.ready_queue i).erase t
      timer_queue := q.timer_queue ++ [t]
      wait_queue := queues } := by
  have hfree := h.not_mem_free hact.stat_ne_noexs
  have htimer := h.not_mem_timer hact.stat_ne_wai
  have hhead := (h.task t).head_linked (.inr hact)
  ext1 <;> simp [Tasks.request, Tasks.setTcb, Tasks.del_head, Tasks.add_timer, Tasks.link_head,
    Tasks.check, List.erase_of_not_mem, *]

theorem begin_untimed (h : Placed q) (hact : (q.tcbs t).active) (link : Link) (info : WaitInfo)
    (queues : Obj → List TskId) (tskwait : TTW) :
    ((((q.request t link info queues).setTcb t fun c =>
      { c with tskstat := .WAI, tskwait := tskwait, delay_ticks := 0 }).del_head t).init_head t) =
    { q with
      tcbs := Function.update q.tcbs t
        { q.tcbs t with
          head := .self, wait_link := link, tskstat := .WAI, tskwait := tskwait, delay_ticks := 0
          winfo := info }
      ready_queue := fun i => (q.ready_queue i).erase t
      wait_queue := queues } := by
  have hfree := h.not_mem_free hact.stat_ne_noexs
  have htimer := h.not_mem_timer hact.stat_ne_wai
  have hhead := (h.task t).head_linked (.inr hact)
  ext1 <;> simp [Tasks.request, Tasks.setTcb, Tasks.del_head, Tasks.init_head,
    Tasks.check, List.erase_of_not_mem, *]

/-! ## The passing of time -/

theorem foldl_subTicks {n : Nat} {l : List TskId} (hnodup : l.Nodup)
    (hle : ∀ t ∈ l, n ≤ (q.tcbs t).delay_ticks) (hlt : ∀ t, (q.tcbs t).delay_ticks < 2 ^ 32) :
    l.foldl (subTicks n) q =
      { q with tcbs := fun t =>
          if t ∈ l then { q.tcbs t with delay_ticks := (q.tcbs t).delay_ticks - n } else q.tcbs t } := by
  induction l generalizing q with
  | nil => rfl
  | cons u rest ih =>
    obtain ⟨hu, hrest⟩ := List.nodup_cons.mp hnodup
    have hule := hle u List.mem_cons_self
    have hmod : ((q.tcbs u).delay_ticks + 2 ^ 32 - n) % 2 ^ 32 = (q.tcbs u).delay_ticks - n := by
      have := hlt u
      omega
    have hsub : subTicks n q u = q.setTcb u fun c => { c with delay_ticks := c.delay_ticks - n } := by
      simp only [subTicks, Tasks.check, hule, if_true, Tasks.setTcb, hmod]
    rw [List.foldl_cons, hsub, ih hrest]
    · ext1 <;> try rfl
      funext t
      by_cases htu : t = u
      · subst htu; simp [hu, Tasks.setTcb]
      · simp [htu, Tasks.setTcb]
    · intro t ht
      have htu : t ≠ u := fun heq => hu (heq ▸ ht)
      simpa [htu, Tasks.setTcb] using hle t (List.mem_cons_of_mem _ ht)
    · intro t
      by_cases htu : t = u
      · subst htu; simpa [Tasks.setTcb] using Nat.lt_of_le_of_lt (Nat.sub_le _ _) (hlt t)
      · simpa [htu, Tasks.setTcb] using hlt t

theorem pass_ticks_eq (h : Placed q) {n : Nat} (ha : (Move.tick n).Allowed q) :
    pass_ticks q n = (Move.tick n).effect q :=
  foldl_subTicks h.timer_nodup ha fun t => (h.task t).delay_lt

/-! ## The life of a task -/

theorem create_eq (h : Placed q) {rest : List TskId} (hfree : q.free_tcb = t :: rest) (pk : T_CTSK)
    (frame : UINT) :
    ((reset_tcb ((q.del_head t).init_head t) t).setTcb t fun c =>
      { c with tskstat := .DMT, sp := frame, initial_sp := frame, task := pk.task,
               itskpri := pk.itskpri, exinf := pk.exinf }) = (Move.create t pk frame).effect q := by
  have hs : (q.tcbs t).tskstat = .NOEXS := (h.task t).free.mp (by simp [hfree])
  have hready := h.not_mem_ready (not_active_of_noexs hs)
  have htimer := h.not_mem_timer (t := t) (by simp [hs])
  have hhead := (h.task t).head_linked (.inl hs)
  have hlink := h.wait_link_self (t := t) (by simp [hs])
  ext1 <;> simp [reset_tcb, Tasks.del_head, Tasks.init_head, Tasks.init_wait, Tasks.setTcb, Tasks.check,
    Move.effect, List.erase_of_not_mem, hready, htimer, hhead, hlink]

theorem start_eq (h : Placed q) (hs : (q.tcbs t).tskstat = .DMT) (frame : StashedRegisters) :
    (((({ (q.setTcb t fun c =>
          { c with sp := c.initial_sp, tskwait := .NONE, delay_ticks := 0, wupcnt := 0,
                   wupcause := .E_OK, winfo := .zero }).init_wait t with
        stack := Function.update q.stack t frame } : Tasks).setTcb t fun c =>
      { c with tskstat := .RDY }).init_head t).add_ready t) = (Move.start t frame).effect q := by
  have hhead := (h.task t).head_dormant hs
  have hlink := h.wait_link_self (t := t) (by simp [hs])
  ext1 <;> simp [Tasks.init_head, Tasks.init_wait, Tasks.setTcb, Tasks.check, Tasks.add_ready,
    Tasks.link_head, Tasks.note, TCB.level, Move.effect, hhead, hlink]

theorem exit_eq (h : Placed q) (hact : (q.tcbs t).active) :
    ((q.del_head t).setTcb t fun c => { c with tskstat := .DMT, tskwait := .NONE }) =
      (Move.exit t).effect q := by
  have hfree := h.not_mem_free hact.stat_ne_noexs
  have htimer := h.not_mem_timer hact.stat_ne_wai
  have hhead := (h.task t).head_linked (.inr hact)
  ext1 <;> simp [Tasks.del_head, Tasks.setTcb, Tasks.check, Move.effect, List.erase_of_not_mem, *]

theorem exitDelete_eq (h : Placed q) (hact : (q.tcbs t).active) :
    ((q.del_head t).setTcb t fun c => { c with tskstat := .NOEXS }).add_free t =
      (Move.exitDelete t).effect q := by
  have hfree := h.not_mem_free hact.stat_ne_noexs
  have htimer := h.not_mem_timer hact.stat_ne_wai
  have hhead := (h.task t).head_linked (.inr hact)
  ext1 <;> simp [Tasks.del_head, Tasks.setTcb, Tasks.check, Tasks.add_free, Tasks.link_head,
    Move.effect, List.erase_of_not_mem, *]

theorem yield_eq (h : Placed q) (hact : (q.tcbs t).active) :
    (q.del_head t).add_ready t = (Move.yield t).effect q := by
  have hfree := h.not_mem_free hact.stat_ne_noexs
  have htimer := h.not_mem_timer hact.stat_ne_wai
  have hhead := (h.task t).head_linked (.inr hact)
  have hready : ∀ i, i ≠ (q.tcbs t).level → (q.ready_queue i).erase t = q.ready_queue i :=
    fun i hi => List.erase_of_not_mem fun ht => hi (((h.task t).ready i).mp ht).2
  have hsame : { q.tcbs t with head := .linked } = q.tcbs t := by rw [← hhead]
  ext1
  case ready_queue =>
    simp only [Tasks.del_head, Tasks.add_ready, Tasks.link_head, Tasks.note, Tasks.setTcb, Tasks.check,
      Move.effect, Function.update_self, Function.update_idem]
    funext i
    by_cases hi : i = (q.tcbs t).level
    · subst hi; simp [TCB.level]
    · have hlevel : ({ q.tcbs t with head := .linked } : TCB).level = (q.tcbs t).level := rfl
      rw [hlevel, Function.update_of_ne hi, Function.update_of_ne hi, hready i hi]
  all_goals
    simp [Tasks.del_head, Tasks.add_ready, Tasks.link_head, Tasks.note, Tasks.setTcb, Tasks.check,
      Move.effect, List.erase_of_not_mem, hfree, htimer, hhead, hsame]

end TsukumoCore
