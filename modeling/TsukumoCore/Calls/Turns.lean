import TsukumoCore.Calls.Handler
import TsukumoCore.Objects.Share
import TsukumoCore.Lib.Turn

/-!
# Whose turn it is

The waiters of a semaphore leave its queue in turn, whatever ends their waits: `Lib/Turn.lean` for the
walk, the end of one wait and the rounds of the timer handler.
-/

namespace TsukumoCore

variable {k k' : Kernel} {q q' q'' : Tasks} {x : Objects} {s s' : SemId} {t u : TskId} {w : WaitCall} {cause : ER}

/-- The task that begins to wait. -/
def joins : Event → Option TskId
  | .block t _ => some t
  | _ => none

/-- The task whose wait ends. -/
def leaves : Event → Option TskId
  | .complete t _ _ _ => some t
  | _ => none

/-- The task whose wait on `s` ends with the units it asked for. -/
def gets (s : SemId) : Event → Option TskId
  | .complete t (some (.wait (.sem semid _ _))) cause _ =>
    if cause = .E_OK ∧ tableEntry CFN_MAX_SEMID semid = some s then some t else none
  | _ => none

/-- The waiters of `s` leave in turn. -/
def Orderly (s : SemId) (q q' : Tasks) : Prop :=
  ∃ post, q'.log = q.log ++ post ∧
    Turn.InTurn leaves (gets s) (q.wait_queue (.sem s)) (q'.wait_queue (.sem s)) post

theorem Orderly.trans (h : Placed q) (ho : Orderly s q q') (ho' : Orderly s q' q'') : Orderly s q q'' := by
  obtain ⟨post, hlog, hturn⟩ := ho
  obtain ⟨post', hlog', hturn'⟩ := ho'
  refine ⟨post ++ post', ?_, hturn.trans (h.wait_nodup _) hturn'⟩
  rw [hlog', hlog, List.append_assoc]

theorem Orderly.quiet {post : List Event} (hlog : q'.log = q.log ++ post) (hpost : ∀ e ∈ post, gets s e = none)
    (hqueue : q'.wait_queue (.sem s) = q.wait_queue (.sem s)) : Orderly s q q' := by
  refine ⟨post, hlog, ?_⟩
  rw [hqueue]
  exact Turn.inTurn_quiet hpost

theorem Orderly.same (hlog : q'.log = q.log) (hqueue : q'.wait_queue (.sem s) = q.wait_queue (.sem s)) :
    Orderly s q q' := by
  apply Orderly.quiet
  · rw [hlog]
    exact (List.append_nil _).symm
  · simp
  · exact hqueue

theorem wake_orderly (ha : (Move.wake t w cause).Allowed q) (hc : cause ≠ .E_OK) :
    Orderly s q (Move.wakeEffect q t cause) := by
  refine ⟨[.complete t (q.pending t) cause (q.tcbs t).winfo, .enqueue t], rfl, ?_⟩
  apply Turn.inTurn_erase
  · intro e he
    simp only [ha.2.1, List.mem_cons, List.not_mem_nil, or_false] at he
    rcases he with rfl | rfl
    · cases w with
      | sem => simp [gets, hc]
      | _ => rfl
    · rfl
  · exact ⟨_, List.mem_cons_self, rfl⟩

/-! ## The walk -/

theorem gets_grantEvents (h : Core q x) (ht : t ∈ q.wait_queue (.sem s)) {e : Event} (he : e ∈ grantEvents q t)
    (s' : SemId) : gets s' e = none ∨ s' = s ∧ gets s' e = some t := by
  obtain ⟨semid, cnt, tmout, hp, hentry, -⟩ := h.waiter ht
  simp only [grantEvents, hp, List.mem_cons, List.not_mem_nil, or_false] at he
  rcases he with rfl | rfl
  · by_cases hs : s' = s
    · exact .inr ⟨hs, by simp [gets, hentry, hs]⟩
    · exact .inl (by simp [gets, hentry, Ne.symm hs])
  · exact .inl rfl

theorem grants_turn (h : Core q x) {granted left : List TskId} (hmem : ∀ t ∈ granted, t ∈ q.wait_queue (.sem s))
    (hnodup : (granted ++ left).Nodup) :
    Turn.InTurn leaves (gets s) (granted ++ left) left (granted.flatMap (grantEvents q)) := by
  apply Turn.inTurn_front hnodup
  · intro t ht e he u hu
    rcases gets_grantEvents h (hmem t ht) he s with hnone | ⟨-, hsome⟩
    · rw [hnone] at hu
      cases hu
    · exact Option.some.inj (hu.symm.trans hsome)
  · intro t ht
    exact ⟨_, List.mem_cons_self, rfl⟩

theorem Placed.queue_unique (h : Placed q) {o o' : Obj} (ht : t ∈ q.wait_queue o) (ht' : t ∈ q.wait_queue o') :
    o = o' := by
  obtain ⟨-, w, hp, ho⟩ := h.pending_of_mem ht
  obtain ⟨-, w', hp', ho'⟩ := h.pending_of_mem ht'
  obtain rfl : w = w' := by simpa [hp] using hp'
  exact Option.some.inj (ho.symm.trans ho')

theorem diff_disjoint {α : Type*} [DecidableEq α] {l l' : List α} (h : ∀ y ∈ l', y ∉ l) : l.diff l' = l := by
  induction l' generalizing l with
  | nil => rfl
  | cons y rest ih =>
    rw [List.diff_cons, List.erase_of_not_mem (h y List.mem_cons_self)]
    exact ih fun z hz => h z (List.mem_cons_of_mem y hz)

theorem diff_front {α : Type*} [DecidableEq α] (l l' : List α) : (l ++ l').diff l = l' := by
  induction l with
  | nil => rfl
  | cons y rest ih => simpa using ih

theorem wakeAll_orderly (h : Core q x) {granted left : List TskId}
    (hmem : ∀ t ∈ granted, t ∈ q.wait_queue (.sem s))
    (hfront : s' = s → q.wait_queue (.sem s) = granted ++ left) : Orderly s' q (wakeAll q granted) := by
  have hqueue := (endsWaits_wakeAll granted).queue q (.sem s')
  by_cases hs : s' = s
  · subst hs
    refine ⟨_, wakeAll_log q granted, ?_⟩
    have hnodup := h.tasks.wait_nodup (.sem s')
    have hsplit := hfront rfl
    rw [hqueue]
    rw [hsplit] at hnodup ⊢
    rw [diff_front]
    exact grants_turn h hmem hnodup
  · refine .quiet (wakeAll_log q granted) ?_ (hqueue.trans (diff_disjoint ?_))
    · intro e he
      obtain ⟨t, ht, he⟩ := List.mem_flatMap.mp he
      rcases gets_grantEvents h (hmem t ht) he s' with hnone | ⟨hss, -⟩
      · exact hnone
      · exact absurd hss hs
    · intro t ht ht'
      exact hs (by simpa using h.tasks.queue_unique ht' (hmem t ht))

/-- The walk serves those in front, or nobody, if with `TA_CNT` nobody could be served. -/
theorem serve_orderly (h : Core k.toTasks k.toObjects)
    (hstuck : (k.semcbs s).servesAll = true →
      Grant.Stuck true (request k.toTasks) (k.semcbs s).semcnt (k.wait_queue (.sem s))) (s' : SemId) :
    Orderly s' k.toTasks (tkmc_sem_serve_waiters k s).toTasks := by
  have hfront : k.wait_queue (.sem s) = (share k s (k.wait_queue (.sem s))).granted ++
      (share k s (k.wait_queue (.sem s))).left := by
    unfold share
    cases hall : (k.semcbs s).servesAll with
    | true =>
      rw [Grant.walk_stuck (hstuck hall)]
      rfl
    | false => exact Grant.walk_first
  rw [(serve_waiters_eq (s := s) h).1]
  exact wakeAll_orderly h (fun t ht => Grant.walk_granted_sublist.subset ht) fun _ => hfront

/-! ## The end of a wait -/

theorem complete_wait_cases (h : Core k.toTasks k.toObjects) (ha : (Move.wake t w cause).Allowed k.toTasks) :
    tkmc_complete_wait k t cause = k.tasks (Move.wakeEffect · t cause) ∨
      ∃ s, w.obj = some (.sem s) ∧
        tkmc_complete_wait k t cause = tkmc_sem_serve_waiters (k.tasks (Move.wakeEffect · t cause)) s := by
  have hrel : k.tasks (release · t cause) = k.tasks (Move.wakeEffect · t cause) := by
    simp only [Kernel.tasks, release_eq h.tasks.toPlaced ha.1]
  obtain ⟨w', hp, hkind⟩ := (h.tasks.task t).call ha.1
  obtain rfl : w = w' := by simpa [ha.2.1] using hp
  have hinfo : ((k.tasks (Move.wakeEffect · t cause)).tcbs t).winfo = (k.tcbs t).winfo := by
    simp [Kernel.tasks, Move.wakeEffect]
  unfold tkmc_complete_wait
  rw [hrel, hkind]
  simp only [hinfo]
  split
  · rename_i hsem
    cases w with
    | sem semid cnt tmout =>
      obtain ⟨s, he, hw⟩ := h.tasks.info t _ ha.1 ha.2.1
      exact .inr ⟨s, by simp [WaitCall.obj, he], by rw [hw]⟩
    | _ => simp [WaitCall.kind] at hsem
  · exact .inl rfl

theorem stuck_erase {req : TskId → Int} {n : Int} {l : List TskId} (h : Grant.Stuck true req n l) (t : TskId) :
    Grant.Stuck true req n (l.erase t) := by
  unfold Grant.Stuck at h ⊢
  rw [if_pos rfl] at h ⊢
  exact fun x hx => h x (List.mem_of_mem_erase hx)

theorem complete_wait_orderly (h : Core k.toTasks k.toObjects) (ha : (Move.wake t w cause).Allowed k.toTasks)
    (hc : cause ≠ .E_OK) (hserved : ∀ o, Served k.toTasks k.toObjects o) (s : SemId) :
    Orderly s k.toTasks (tkmc_complete_wait k t cause).toTasks := by
  have hwake : Orderly s k.toTasks (k.tasks (Move.wakeEffect · t cause)).toTasks := wake_orderly ha hc
  rcases complete_wait_cases h ha with heq | ⟨s', hobj, heq⟩
  · rw [heq]
    exact hwake
  · rw [heq]
    refine hwake.trans h.tasks.toPlaced (serve_orderly (h.wake ha) ?_ s)
    intro hall
    have hlive := h.live_of_waiter ((h.tasks.mem_wait ha.1 ha.2.1).mpr hobj)
    have hstuck := stuck_of_served (hserved (.sem s') hlive)
    rw [show (k.semcbs s').servesAll = true from hall] at hstuck
    show Grant.Stuck true (request (Move.wakeEffect k.toTasks t cause)) _ ((k.wait_queue (.sem s')).erase t)
    rw [request_wake]
    exact stuck_erase hstuck t

/-! ## The timer handler -/

theorem Rounds.orderly {n : Nat} {b : Bool} (h : Core k.toTasks k.toObjects)
    (hserved : ∀ o, Served k.toTasks k.toObjects o) (hr : Rounds n k b k') (s : SemId) :
    Orderly s k.toTasks k'.toTasks := by
  have htick : ∀ (k : Kernel) n, Orderly s k.toTasks (k.tick n).toTasks := fun _ _ => .same rfl rfl
  induction hr with
  | empty => exact .same rfl rfl
  | stop => exact htick _ _
  | expire ht hn hr ih =>
    obtain ⟨w, ha⟩ := expire_allowed h ht
    obtain ⟨htends, hkept⟩ := tick_ends h (tick_allowed ht (Nat.le_refl _))
    obtain ⟨hends, hserved'⟩ := expire_spec h ht
    have hrest := ih hends.core fun o => hserved' o (hserved o)
    have hfirst := complete_wait_orderly htends.core ha (by simp) (fun o => hkept o (hserved o)) s
    exact ((htick _ _).trans h.tasks.toPlaced hfirst).trans h.tasks.toPlaced hrest

theorem timer_handler_orderly (h : Core k.toTasks k.toObjects) (hserved : ∀ o, Served k.toTasks k.toObjects o)
    {times : List Nat} (hk : tkmc_timer_handler k times = some k') (s : SemId) :
    Orderly s k.toTasks k'.toTasks := by
  by_cases hz : (pass_elapsed_periods k.s_mtimecmp times).2 = 0
  · rw [timer_handler_none hz] at hk
    obtain rfl := Option.some.inj hk
    exact .same rfl rfl
  · obtain ⟨b, k1, hr, heq⟩ := timer_handler_rounds h hz
    rw [heq] at hk
    obtain rfl := Option.some.inj hk
    generalize (pass_elapsed_periods k.s_mtimecmp times).1 = c at hr
    have hrounds : Orderly s k.toTasks k1.toTasks := Rounds.orderly (k := k.compare c) h hserved hr s
    cases b with
    | false => exact hrounds
    | true => simpa using hrounds

end TsukumoCore
