import TsukumoCore.Tasks.Moves

/-!
# What every move keeps

`Placed` says where each task is: on which queues, with which links, and what its TCB says about that.
It also says that the ready queues are in the order of enqueueing and that no alarm was raised, except
the one for a tick count that wraps. `Ok` adds what the union of a waiting task holds.
-/

namespace TsukumoCore

/-! ## The order of enqueueing -/

/-- The place in the log of the last time `t` was put on a ready queue, or 0. -/
def stamp (log : List Event) (t : TskId) : Nat :=
  log.length - (log.reverse.takeWhile fun e => decide (e ≠ .enqueue t)).length

theorem stamp_le (log : List Event) (t : TskId) : stamp log t ≤ log.length := Nat.sub_le _ _

theorem stamp_append (log : List Event) (e : Event) (t : TskId) :
    stamp (log ++ [e]) t = if e = .enqueue t then log.length + 1 else stamp log t := by
  have hle := (log.reverse.takeWhile_sublist fun e => decide (e ≠ .enqueue t)).length_le
  rw [List.length_reverse] at hle
  by_cases he : e = .enqueue t
  · simp [stamp, he]
  · simp only [stamp, List.reverse_append, List.reverse_singleton, List.singleton_append,
      List.takeWhile_cons, he, ne_eq, not_false_eq_true, decide_true, if_true, if_false,
      List.length_append, List.length_cons, List.length_nil]
    simp only [ne_eq] at hle
    omega

/-! ## The invariant -/

/-- What a waiting task's union holds. -/
def WaitCall.infoOk (w : WaitCall) (info : WaitInfo) : Prop :=
  match w with
  | .slp _ | .dly _ => True
  | .sem semid cnt _ => ∃ s, tableEntry CFN_MAX_SEMID semid = some s ∧ info = .semaphore cnt s
  | .flg flgid waiptn wfmode _ _ =>
    (tableEntry CFN_MAX_FLGID flgid).isSome ∧ ∃ flgptn, info = .event_flag waiptn wfmode flgptn
  | .mbx mbxid _ _ => (tableEntry CFN_MAX_MBXID mbxid).isSome ∧ info = .mailbox NULL

/-- Where task `t` is, and what its TCB says about it. -/
structure TaskOk (q : Tasks) (t : TskId) : Prop where
  free : t ∈ q.free_tcb ↔ (q.tcbs t).tskstat = .NOEXS
  ready : ∀ i, t ∈ q.ready_queue i ↔ (q.tcbs t).active ∧ i = (q.tcbs t).level
  timer : t ∈ q.timer_queue ↔ (q.tcbs t).tskstat = .WAI ∧ (q.tcbs t).head = .linked
  wait : ∀ o, t ∈ q.wait_queue o ↔ (q.tcbs t).tskstat = .WAI ∧ waitsOn (q.pending t) = some o
  cleared : (q.tcbs t).active → (q.tcbs t).tskwait = .NONE ∧ (q.tcbs t).delay_ticks = 0
  head_linked : (q.tcbs t).tskstat = .NOEXS ∨ (q.tcbs t).active → (q.tcbs t).head = .linked
  head_dormant : (q.tcbs t).tskstat = .DMT → (q.tcbs t).head ≠ .linked
  head_waiting : (q.tcbs t).tskstat = .WAI → (q.tcbs t).head ≠ .poisoned
  wait_link : (q.tcbs t).wait_link =
    if (q.tcbs t).tskstat = .WAI ∧ (waitsOn (q.pending t)).isSome then .linked else .self
  call : (q.tcbs t).tskstat = .WAI → ∃ w, q.pending t = some (.wait w) ∧ (q.tcbs t).tskwait = w.kind
  outside : (q.tcbs t).tskstat = .DMT ∨ (q.tcbs t).tskstat = .NOEXS → q.pending t = none
  untimed : (q.tcbs t).tskstat = .WAI → (q.tcbs t).head = .self → (q.tcbs t).delay_ticks = 0
  delay_lt : (q.tcbs t).delay_ticks < 2 ^ 32
  priority : (q.tcbs t).tskstat ≠ .NOEXS →
    1 ≤ (q.tcbs t).itskpri ∧ (q.tcbs t).itskpri ≤ CFN_MAX_PRI
  id : (q.tcbs t).tskid = t + 1

structure Placed (q : Tasks) : Prop where
  task : ∀ t, TaskOk q t
  free_nodup : q.free_tcb.Nodup
  ready_nodup : ∀ i, (q.ready_queue i).Nodup
  timer_nodup : q.timer_queue.Nodup
  wait_nodup : ∀ o, (q.wait_queue o).Nodup
  fifo : ∀ i, (q.ready_queue i).Pairwise fun a b => stamp q.log a < stamp q.log b
  alarms : ∀ a ∈ q.alarms, a = .tickOverflow

structure Ok (q : Tasks) : Prop extends Placed q where
  info : ∀ t w, (q.tcbs t).tskstat = .WAI → q.pending t = some (.wait w) → w.infoOk (q.tcbs t).winfo

/-! ## Frames -/

/-- Two TCBs that put their task in the same place. A switch between ready and running is no change of
place. -/
structure SamePlace (c c' : TCB) : Prop where
  stat : c.tskstat = c'.tskstat ∨ c.active ∧ c'.active
  head : c.head = c'.head
  wait_link : c.wait_link = c'.wait_link
  tskid : c.tskid = c'.tskid
  itskpri : c.itskpri = c'.itskpri
  tskwait : c.tskwait = c'.tskwait
  delay_ticks : c.delay_ticks = c'.delay_ticks

namespace SamePlace

variable {c c' : TCB}

theorem refl (c : TCB) : SamePlace c c := ⟨.inl rfl, rfl, rfl, rfl, rfl, rfl, rfl⟩

theorem active_iff (h : SamePlace c c') : c.active ↔ c'.active := by
  rcases h.stat with hs | ⟨h1, h2⟩
  · simp [TCB.active, hs]
  · simp [h1, h2]

theorem stat_iff (h : SamePlace c c') {s : TTS} (hrdy : s ≠ .RDY) (hrun : s ≠ .RUN) :
    c.tskstat = s ↔ c'.tskstat = s := by
  rcases h.stat with hs | ⟨h1, h2⟩
  · rw [hs]
  · have hc : c.tskstat ≠ s := by rcases h1 with h1 | h1 <;> rw [h1] <;> simp [hrdy.symm, hrun.symm]
    have hc' : c'.tskstat ≠ s := by rcases h2 with h2 | h2 <;> rw [h2] <;> simp [hrdy.symm, hrun.symm]
    simp [hc, hc']

end SamePlace

theorem TaskOk.congr {q q' : Tasks} {t : TskId} (h : TaskOk q t)
    (hc : SamePlace (q'.tcbs t) (q.tcbs t)) (hpend : q'.pending t = q.pending t)
    (hfree : t ∈ q'.free_tcb ↔ t ∈ q.free_tcb)
    (hready : ∀ i, t ∈ q'.ready_queue i ↔ t ∈ q.ready_queue i)
    (htimer : t ∈ q'.timer_queue ↔ t ∈ q.timer_queue)
    (hwait : ∀ o, t ∈ q'.wait_queue o ↔ t ∈ q.wait_queue o) : TaskOk q' t := by
  have hact := hc.active_iff
  have hwai := hc.stat_iff (s := .WAI) (by simp) (by simp)
  have hno := hc.stat_iff (s := .NOEXS) (by simp) (by simp)
  have hdmt := hc.stat_iff (s := .DMT) (by simp) (by simp)
  have hlevel : (q'.tcbs t).level = (q.tcbs t).level := by simp [TCB.level, hc.itskpri]
  constructor
  · rw [hfree, hno]; exact h.free
  · intro i; rw [hready, hact, hlevel]; exact h.ready i
  · rw [htimer, hwai, hc.head]; exact h.timer
  · intro o; rw [hwait, hwai, hpend]; exact h.wait o
  · rw [hact, hc.tskwait, hc.delay_ticks]; exact h.cleared
  · rw [hno, hact, hc.head]; exact h.head_linked
  · rw [hdmt, hc.head]; exact h.head_dormant
  · rw [hwai, hc.head]; exact h.head_waiting
  · simp only [hc.wait_link, hwai, hpend]; exact h.wait_link
  · rw [hwai, hpend, hc.tskwait]; exact h.call
  · rw [hdmt, hno, hpend]; exact h.outside
  · rw [hwai, hc.head, hc.delay_ticks]; exact h.untimed
  · rw [hc.delay_ticks]; exact h.delay_lt
  · rw [ne_eq, hno, hc.itskpri]; exact h.priority
  · rw [hc.tskid]; exact h.id

theorem Placed.of_queues {q q' : Tasks} (h : Placed q) (htask : ∀ t, TaskOk q' t)
    (hfree : q'.free_tcb = q.free_tcb) (hready : q'.ready_queue = q.ready_queue)
    (htimer : q'.timer_queue = q.timer_queue) (hwait : q'.wait_queue = q.wait_queue)
    (hstamp : ∀ t, stamp q'.log t = stamp q.log t) (halarms : q'.alarms = q.alarms) :
    Placed q' := by
  refine ⟨htask, ?_, ?_, ?_, ?_, ?_, ?_⟩
  · rw [hfree]; exact h.free_nodup
  · rw [hready]; exact h.ready_nodup
  · rw [htimer]; exact h.timer_nodup
  · rw [hwait]; exact h.wait_nodup
  · intro i; rw [hready]; simp only [hstamp]; exact h.fifo i
  · rw [halarms]; exact h.alarms

theorem stamp_note {log : List Event} {e : Event} (he : ∀ t, e ≠ .enqueue t) (t : TskId) :
    stamp (log ++ [e]) t = stamp log t := by
  rw [stamp_append, if_neg (he t)]

theorem fifo_erase {log : List Event} {l : List TskId} (t : TskId)
    (h : l.Pairwise fun a b => stamp log a < stamp log b) :
    (l.erase t).Pairwise fun a b => stamp log a < stamp log b :=
  h.sublist List.erase_sublist

theorem fifo_enqueue {log : List Event} {l : List TskId} {t : TskId} (ht : t ∉ l)
    (h : l.Pairwise fun a b => stamp log a < stamp log b) :
    (l ++ [t]).Pairwise fun a b => stamp (log ++ [.enqueue t]) a < stamp (log ++ [.enqueue t]) b := by
  have hne : ∀ a ∈ l, Event.enqueue t ≠ .enqueue a := by
    intro a ha he
    injection he with he
    exact ht (he ▸ ha)
  refine List.pairwise_append.mpr ⟨?_, List.pairwise_singleton _ _, ?_⟩
  · refine h.imp_of_mem ?_
    intro a b ha hb hab
    rw [stamp_append, stamp_append, if_neg (hne a ha), if_neg (hne b hb)]
    exact hab
  · intro a ha b hb
    rw [List.mem_singleton.mp hb, stamp_append, stamp_append, if_neg (hne a ha), if_pos rfl]
    exact Nat.lt_succ_of_le (stamp_le _ _)

theorem fifo_other {log : List Event} {l : List TskId} {t : TskId} (ht : t ∉ l)
    (h : l.Pairwise fun a b => stamp log a < stamp log b) :
    l.Pairwise fun a b => stamp (log ++ [.enqueue t]) a < stamp (log ++ [.enqueue t]) b :=
  ((List.pairwise_append.mp (fifo_enqueue ht h)).1)

end TsukumoCore
