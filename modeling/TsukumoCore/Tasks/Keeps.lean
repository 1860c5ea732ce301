import TsukumoCore.Tasks.Invariant

/-! # Every move keeps the invariant -/

namespace TsukumoCore

/-! ## Places -/

variable {q : Tasks} {t : TskId}

theorem Placed.not_mem_free (h : Placed q) (hs : (q.tcbs t).tskstat ≠ .NOEXS) : t ∉ q.free_tcb :=
  fun ht => hs ((h.task t).free.mp ht)

theorem Placed.not_mem_ready (h : Placed q) (hs : ¬ (q.tcbs t).active) (i : Nat) : t ∉ q.ready_queue i :=
  fun ht => hs (((h.task t).ready i).mp ht).1

theorem Placed.not_mem_timer (h : Placed q) (hs : (q.tcbs t).tskstat ≠ .WAI) : t ∉ q.timer_queue :=
  fun ht => hs ((h.task t).timer.mp ht).1

theorem Placed.not_mem_wait (h : Placed q) (hs : (q.tcbs t).tskstat ≠ .WAI) (o : Obj) :
    t ∉ q.wait_queue o :=
  fun ht => hs (((h.task t).wait o).mp ht).1

theorem TCB.active.stat_ne_wai {c : TCB} (h : c.active) : c.tskstat ≠ .WAI := by
  rcases h with h | h <;> simp [h]

theorem TCB.active.stat_ne_noexs {c : TCB} (h : c.active) : c.tskstat ≠ .NOEXS := by
  rcases h with h | h <;> simp [h]

theorem TCB.active.stat_ne_dmt {c : TCB} (h : c.active) : c.tskstat ≠ .DMT := by
  rcases h with h | h <;> simp [h]

theorem not_active_of_wai {c : TCB} (h : c.tskstat = .WAI) : ¬ c.active := by simp [TCB.active, h]

theorem not_active_of_dmt {c : TCB} (h : c.tskstat = .DMT) : ¬ c.active := by simp [TCB.active, h]

theorem not_active_of_noexs {c : TCB} (h : c.tskstat = .NOEXS) : ¬ c.active := by simp [TCB.active, h]

theorem mem_enqueue {ready : Nat → List TskId} {i j : Nat} {t u : TskId} :
    u ∈ Function.update ready j (ready j ++ [t]) i ↔ u ∈ ready i ∨ (u = t ∧ i = j) := by
  by_cases hij : i = j
  · subst hij; simp
  · simp [hij]

theorem mem_erase_other {l : List TskId} {t u : TskId} (hu : u ≠ t) : u ∈ l.erase t ↔ u ∈ l :=
  List.mem_erase_of_ne hu

theorem nodup_concat {l : List TskId} {t : TskId} (h : l.Nodup) (ht : t ∉ l) : (l ++ [t]).Nodup := by
  rw [List.nodup_append]
  refine ⟨h, List.nodup_singleton t, ?_⟩
  intro a ha b hb hab
  rw [List.mem_singleton.mp hb] at hab
  exact ht (hab ▸ ha)

theorem Placed.enqueue_nodup (h : Placed q) (ht : ∀ i, t ∉ q.ready_queue i) (j i : Nat) :
    (Function.update q.ready_queue j (q.ready_queue j ++ [t]) i).Nodup := by
  by_cases hij : i = j
  · subst hij; rw [Function.update_self]; exact nodup_concat (h.ready_nodup i) (ht i)
  · rw [Function.update_of_ne hij]; exact h.ready_nodup i

theorem Placed.enqueue_fifo (h : Placed q) (ht : ∀ i, t ∉ q.ready_queue i) {log : List Event}
    (hlog : ∀ u, stamp log u = stamp q.log u) (j i : Nat) :
    (Function.update q.ready_queue j (q.ready_queue j ++ [t]) i).Pairwise
      fun a b => stamp (log ++ [.enqueue t]) a < stamp (log ++ [.enqueue t]) b := by
  have hfifo : ∀ i, (q.ready_queue i).Pairwise fun a b => stamp log a < stamp log b := by
    intro i; simp only [hlog]; exact h.fifo i
  by_cases hij : i = j
  · subst hij; rw [Function.update_self]; exact fifo_enqueue (ht i) (hfifo i)
  · rw [Function.update_of_ne hij]; exact fifo_other (ht i) (hfifo i)

/-! ## The end of a wait -/

theorem wakeEffect_placed (h : Placed q) (hs : (q.tcbs t).tskstat = .WAI) (cause : ER) :
    Placed (Move.wakeEffect q t cause) := by
  have hact := not_active_of_wai hs
  have hready := h.not_mem_ready hact
  have hlog : ∀ u, stamp (q.log ++ [.complete t (q.pending t) cause (q.tcbs t).winfo]) u =
      stamp q.log u := stamp_note (by simp)
  refine ⟨?_, h.free_nodup, h.enqueue_nodup hready _, h.timer_nodup.erase t, ?_, ?_, h.alarms⟩
  · intro u
    by_cases hu : u = t
    · subst hu
      have ho := h.task u
      constructor <;> simp only [Move.wakeEffect, Function.update_self, TCB.active]
      case free => simp [h.not_mem_free (t := u) (by simp [hs])]
      case ready => intro i; rw [mem_enqueue]; simp [hready i, TCB.level]
      case timer => simp [h.timer_nodup.not_mem_erase]
      case wait => intro o; simp [(h.wait_nodup o).not_mem_erase]
      case priority => exact fun _ => ho.priority (by simp [hs])
      case id => exact ho.id
      all_goals simp
    · refine (h.task u).congr ?_ rfl Iff.rfl ?_ (mem_erase_other hu) (fun o => mem_erase_other hu)
      · simp only [Move.wakeEffect, Function.update_of_ne hu]; exact .refl _
      · intro i; simp only [Move.wakeEffect]; rw [mem_enqueue]; simp [hu]
  · intro o; exact (h.wait_nodup o).erase t
  · intro i
    have := h.enqueue_fifo hready hlog (q.tcbs t).level i
    rw [List.append_assoc] at this
    exact this

theorem Placed.setTcb (h : Placed q) {f : TCB → TCB} (hf : SamePlace (f (q.tcbs t)) (q.tcbs t)) :
    Placed (q.setTcb t f) := by
  refine h.of_queues (fun u => ?_) rfl rfl rfl rfl (fun _ => rfl) rfl
  refine (h.task u).congr ?_ rfl Iff.rfl (fun _ => Iff.rfl) Iff.rfl (fun _ => Iff.rfl)
  by_cases hu : u = t
  · subst hu; simpa [Tasks.setTcb] using hf
  · simp only [Tasks.setTcb, Function.update_of_ne hu]; exact .refl _

theorem Placed.note (h : Placed q) {e : Event} (he : ∀ t, e ≠ .enqueue t) : Placed (q.note e) :=
  h.of_queues (fun u => (h.task u).congr (.refl _) rfl Iff.rfl (fun _ => Iff.rfl) Iff.rfl
    (fun _ => Iff.rfl)) rfl rfl rfl rfl (stamp_note he) rfl

/-! ## The beginning of a wait -/

theorem block_placed (h : Placed q) {w : WaitCall} {queue : List TskId} {timed : Option Nat}
    (ha : (Move.block t w queue timed).Allowed q) :
    Placed ((Move.block t w queue timed).effect q) := by
  obtain ⟨hact, -, hlt, hqueue⟩ := ha
  have hwai := hact.stat_ne_wai
  have hother : ∀ u, u ≠ t → TaskOk ((Move.block t w queue timed).effect q) u := by
    intro u hu
    refine (h.task u).congr ?_ ?_ Iff.rfl (fun i => mem_erase_other hu) ?_ ?_
    · simp only [Move.effect, Function.update_of_ne hu]; exact .refl _
    · simp only [Move.effect, Function.update_of_ne hu]
    · simp only [Move.effect]; split <;> simp [hu]
    · intro o
      simp only [Move.effect]
      split
      · rename_i ho
        rw [ho] at hqueue
        obtain ⟨ahead, behind, hq, rfl⟩ := hqueue
        simp [hq, hu]
      · rfl
  have hself : TaskOk ((Move.block t w queue timed).effect q) t := by
    have ho := h.task t
    constructor <;> simp only [Move.effect, Function.update_self, TCB.active]
    case free => simp [h.not_mem_free hact.stat_ne_noexs]
    case ready => intro i; simp [(h.ready_nodup i).not_mem_erase]
    case timer => cases timed <;> simp [h.not_mem_timer hwai]
    case wait =>
      intro o
      simp only [waitsOn, true_and]
      split
      · rename_i ho
        rw [ho] at hqueue
        obtain ⟨ahead, behind, -, rfl⟩ := hqueue
        simp [ho]
      · rename_i ho
        simp [h.not_mem_wait hwai, ho]
    case head_waiting => intro _; split <;> simp
    case wait_link => simp [waitsOn]
    case call => exact fun _ => ⟨w, rfl, rfl⟩
    case untimed => intro _; cases timed <;> simp
    case delay_lt => cases timed with
      | none => simp
      | some n => exact hlt n rfl
    case priority => exact fun _ => ho.priority hact.stat_ne_noexs
    case id => exact ho.id
    all_goals simp
  refine ⟨?_, h.free_nodup, fun i => (h.ready_nodup i).erase t, ?_, ?_, ?_, h.alarms⟩
  · intro u
    by_cases hu : u = t
    · subst hu; exact hself
    · exact hother u hu
  · simp only [Move.effect]
    split
    · exact nodup_concat h.timer_nodup (h.not_mem_timer hwai)
    · exact h.timer_nodup
  · intro o
    simp only [Move.effect]
    split
    · rename_i ho
      rw [ho] at hqueue
      obtain ⟨ahead, behind, hq, rfl⟩ := hqueue
      rw [List.nodup_middle, ← hq]
      exact List.nodup_cons.mpr ⟨h.not_mem_wait hwai o, h.wait_nodup o⟩
    · exact h.wait_nodup o
  · intro i
    simp only [Move.effect, stamp_note (e := .block t w) (by simp)]
    exact fifo_erase t (h.fifo i)

/-! ## The life of a task -/

theorem create_placed (h : Placed q) {pk : T_CTSK} {frame : UINT}
    (ha : (Move.create t pk frame).Allowed q) : Placed ((Move.create t pk frame).effect q) := by
  obtain ⟨hhead, hpri⟩ := ha
  have hs : (q.tcbs t).tskstat = .NOEXS := (h.task t).free.mp (List.mem_of_mem_head? hhead)
  have hact := not_active_of_noexs hs
  refine ⟨?_, h.free_nodup.erase t, h.ready_nodup, h.timer_nodup, h.wait_nodup, h.fifo, h.alarms⟩
  intro u
  by_cases hu : u = t
  · subst hu
    have ho := h.task u
    constructor <;> simp only [Move.effect, Function.update_self, TCB.active]
    case free => simp [h.free_nodup.not_mem_erase]
    case ready => intro i; simp [h.not_mem_ready hact i]
    case timer => simp [h.not_mem_timer (t := u) (by simp [hs])]
    case wait => intro o; simp [h.not_mem_wait (t := u) (by simp [hs])]
    case outside => exact fun _ => ho.outside (.inr hs)
    case priority => exact fun _ => hpri
    case id => exact ho.id
    all_goals simp
  · refine (h.task u).congr ?_ rfl (mem_erase_other hu) (fun _ => Iff.rfl) Iff.rfl (fun _ => Iff.rfl)
    simp only [Move.effect, Function.update_of_ne hu]; exact .refl _

theorem start_placed (h : Placed q) {frame : StashedRegisters}
    (ha : (Move.start t frame).Allowed q) : Placed ((Move.start t frame).effect q) := by
  have hs : (q.tcbs t).tskstat = .DMT := ha
  have hready := h.not_mem_ready (not_active_of_dmt hs)
  refine ⟨?_, h.free_nodup, h.enqueue_nodup hready _, h.timer_nodup, h.wait_nodup,
    h.enqueue_fifo hready (fun _ => rfl) _, h.alarms⟩
  intro u
  by_cases hu : u = t
  · subst hu
    have ho := h.task u
    constructor <;> simp only [Move.effect, Function.update_self, TCB.active]
    case free => simp [h.not_mem_free (t := u) (by simp [hs])]
    case ready => intro i; rw [mem_enqueue]; simp [hready i, TCB.level]
    case timer => simp [h.not_mem_timer (t := u) (by simp [hs])]
    case wait => intro o; simp [h.not_mem_wait (t := u) (by simp [hs])]
    case priority => exact fun _ => ho.priority (by simp [hs])
    case id => exact ho.id
    all_goals simp
  · refine (h.task u).congr ?_ rfl Iff.rfl ?_ Iff.rfl (fun _ => Iff.rfl)
    · simp only [Move.effect, Function.update_of_ne hu]; exact .refl _
    · intro i; simp only [Move.effect]; rw [mem_enqueue]; simp [hu]

theorem exit_placed (h : Placed q) (ha : (Move.exit t).Allowed q) :
    Placed ((Move.exit t).effect q) := by
  obtain ⟨hact, hpend⟩ := ha
  refine ⟨?_, h.free_nodup, fun i => (h.ready_nodup i).erase t, h.timer_nodup, h.wait_nodup,
    fun i => fifo_erase t (h.fifo i), h.alarms⟩
  intro u
  by_cases hu : u = t
  · subst hu
    have ho := h.task u
    constructor <;> simp only [Move.effect, Function.update_self, TCB.active]
    case free => simp [h.not_mem_free hact.stat_ne_noexs]
    case ready => intro i; simp [(h.ready_nodup i).not_mem_erase]
    case timer => simp [h.not_mem_timer hact.stat_ne_wai]
    case wait => intro o; simp [h.not_mem_wait hact.stat_ne_wai]
    case wait_link => rw [ho.wait_link]; simp [hact.stat_ne_wai]
    case outside => exact fun _ => hpend
    case delay_lt => exact ho.delay_lt
    case priority => exact fun _ => ho.priority hact.stat_ne_noexs
    case id => exact ho.id
    all_goals simp
  · refine (h.task u).congr ?_ rfl Iff.rfl (fun i => mem_erase_other hu) Iff.rfl (fun _ => Iff.rfl)
    simp only [Move.effect, Function.update_of_ne hu]; exact .refl _

theorem exitDelete_placed (h : Placed q) (ha : (Move.exitDelete t).Allowed q) :
    Placed ((Move.exitDelete t).effect q) := by
  obtain ⟨hact, hpend⟩ := ha
  have hfree := h.not_mem_free hact.stat_ne_noexs
  refine ⟨?_, nodup_concat h.free_nodup hfree, fun i => (h.ready_nodup i).erase t, h.timer_nodup,
    h.wait_nodup, fun i => fifo_erase t (h.fifo i), h.alarms⟩
  intro u
  by_cases hu : u = t
  · subst hu
    have ho := h.task u
    constructor <;> simp only [Move.effect, Function.update_self, TCB.active]
    case free => simp
    case ready => intro i; simp [(h.ready_nodup i).not_mem_erase]
    case timer => simp [h.not_mem_timer hact.stat_ne_wai]
    case wait => intro o; simp [h.not_mem_wait hact.stat_ne_wai]
    case wait_link => rw [ho.wait_link]; simp [hact.stat_ne_wai]
    case outside => exact fun _ => hpend
    case delay_lt => exact ho.delay_lt
    case id => exact ho.id
    all_goals simp
  · refine (h.task u).congr ?_ rfl ?_ (fun i => mem_erase_other hu) Iff.rfl (fun _ => Iff.rfl)
    · simp only [Move.effect, Function.update_of_ne hu]; exact .refl _
    · simp [Move.effect, hu]

theorem yield_placed (h : Placed q) (ha : (Move.yield t).Allowed q) :
    Placed ((Move.yield t).effect q) := by
  have hact : (q.tcbs t).active := ha
  have hmem : ∀ u i, u ∈ ((Move.yield t).effect q).ready_queue i ↔ u ∈ q.ready_queue i := by
    intro u i
    simp only [Move.effect]
    by_cases hi : i = (q.tcbs t).level
    · subst hi
      by_cases hu : u = t
      · subst hu; simp [((h.task u).ready _).mpr ⟨hact, rfl⟩]
      · simp [hu]
    · simp [hi]
  have hgone : ∀ i, i ≠ (q.tcbs t).level → t ∉ q.ready_queue i := by
    intro i hi ht
    exact hi (((h.task t).ready i).mp ht).2
  refine ⟨?_, h.free_nodup, ?_, h.timer_nodup, h.wait_nodup, ?_, h.alarms⟩
  · intro u
    exact (h.task u).congr (.refl _) rfl Iff.rfl (fun i => hmem u i) Iff.rfl (fun _ => Iff.rfl)
  · intro i
    simp only [Move.effect]
    by_cases hi : i = (q.tcbs t).level
    · subst hi
      rw [Function.update_self]
      exact nodup_concat ((h.ready_nodup _).erase t) (h.ready_nodup _).not_mem_erase
    · rw [Function.update_of_ne hi]; exact h.ready_nodup i
  · intro i
    simp only [Move.effect]
    by_cases hi : i = (q.tcbs t).level
    · subst hi
      rw [Function.update_self]
      exact fifo_enqueue (h.ready_nodup _).not_mem_erase (fifo_erase t (h.fifo _))
    · rw [Function.update_of_ne hi]; exact fifo_other (hgone i hi) (h.fifo i)

/-! ## The other moves -/

theorem dispatch_placed (h : Placed q) {old new : TskId} {sp : UINT}
    (ha : (Move.dispatch old new sp).Allowed q) : Placed ((Move.dispatch old new sp).effect q) := by
  have hact : (q.tcbs new).active := ha
  have hold : SamePlace { q.tcbs old with
      sp := sp, tskstat := if (q.tcbs old).tskstat = .RUN then .RDY else (q.tcbs old).tskstat }
      (q.tcbs old) := by
    refine ⟨?_, rfl, rfl, rfl, rfl, rfl, rfl⟩
    by_cases hrun : (q.tcbs old).tskstat = .RUN <;> simp [TCB.active, hrun]
  refine ((h.setTcb (t := old) hold).setTcb (t := new) ?_).note (by simp)
  refine ⟨.inr ⟨.inr rfl, ?_⟩, rfl, rfl, rfl, rfl, rfl, rfl⟩
  by_cases hno : new = old
  · subst hno; simpa [Tasks.setTcb] using hold.active_iff.mpr hact
  · simpa [Tasks.setTcb, hno] using hact

theorem tick_placed (h : Placed q) {n : Nat} : Placed ((Move.tick n).effect q) := by
  refine h.of_queues (fun u => ?_) rfl rfl rfl rfl (fun _ => rfl) rfl
  have ho := h.task u
  by_cases hu : u ∈ q.timer_queue
  · have hs := ho.timer.mp hu
    constructor <;> simp only [Move.effect, hu, if_true]
    case delay_lt => exact Nat.lt_of_le_of_lt (Nat.sub_le _ _) ho.delay_lt
    case cleared => exact fun hact => absurd hs.1 hact.stat_ne_wai
    case untimed => simp [hs.2]
    case ready => exact ho.ready
    case timer => simp [hs]
    case free => exact ho.free
    case wait => exact ho.wait
    case head_linked => exact ho.head_linked
    case head_dormant => exact ho.head_dormant
    case head_waiting => exact ho.head_waiting
    case wait_link => exact ho.wait_link
    case call => exact ho.call
    case outside => exact ho.outside
    case priority => exact ho.priority
    case id => exact ho.id
  · refine ho.congr ?_ rfl Iff.rfl (fun _ => Iff.rfl) Iff.rfl (fun _ => Iff.rfl)
    simp only [Move.effect, hu, if_false]; exact .refl _

theorem TaskOk.setPending {q' : Tasks} (h : TaskOk q t) (hact : (q.tcbs t).active)
    (hc : SamePlace (q'.tcbs t) (q.tcbs t)) (hfree : q'.free_tcb = q.free_tcb)
    (hready : q'.ready_queue = q.ready_queue) (htimer : q'.timer_queue = q.timer_queue)
    (hwait : q'.wait_queue = q.wait_queue) : TaskOk q' t := by
  have hact' := hc.active_iff.mpr hact
  have hlevel : (q'.tcbs t).level = (q.tcbs t).level := by simp [TCB.level, hc.itskpri]
  constructor
  case free => rw [hfree, h.free]; simp [hact.stat_ne_noexs, hact'.stat_ne_noexs]
  case ready => intro i; rw [hready, h.ready, hlevel]; simp [hact, hact']
  case timer => rw [htimer, h.timer]; simp [hact.stat_ne_wai, hact'.stat_ne_wai]
  case wait => intro o; rw [hwait, h.wait]; simp [hact.stat_ne_wai, hact'.stat_ne_wai]
  case cleared => intro _; rw [hc.tskwait, hc.delay_ticks]; exact h.cleared hact
  case head_linked => intro _; rw [hc.head]; exact h.head_linked (.inr hact)
  case wait_link => rw [hc.wait_link, h.wait_link]; simp [hact.stat_ne_wai, hact'.stat_ne_wai]
  case delay_lt => rw [hc.delay_ticks]; exact h.delay_lt
  case priority => intro _; rw [hc.itskpri]; exact h.priority hact.stat_ne_noexs
  case id => rw [hc.tskid]; exact h.id
  all_goals simp [hact'.stat_ne_wai, hact'.stat_ne_dmt, hact'.stat_ne_noexs]

theorem setPending_placed (h : Placed q) (hact : (q.tcbs t).active) (p : Option Pending) :
    Placed (q.setPending t p) := by
  refine h.of_queues (fun u => ?_) rfl rfl rfl rfl (fun _ => rfl) rfl
  by_cases hu : u = t
  · subst hu; exact (h.task u).setPending hact (.refl _) rfl rfl rfl rfl
  · refine (h.task u).congr (.refl _) ?_ Iff.rfl (fun _ => Iff.rfl) Iff.rfl (fun _ => Iff.rfl)
    simp only [Tasks.setPending, Function.update_of_ne hu]

theorem finish_placed (h : Placed q) {w : WaitCall} (ha : (Move.finish t w).Allowed q) :
    Placed ((Move.finish t w).effect q) := by
  have hact : (q.tcbs t).active := ha.1
  have hcl := (h.task t).cleared hact
  have hsame : SamePlace (w.after (q.tcbs t)) (q.tcbs t) := by
    cases w <;> exact ⟨.inl rfl, rfl, rfl, rfl, rfl, by simp [WaitCall.after, hcl.1],
      by simp [WaitCall.after, hcl.2]⟩
  have h' := (setPending_placed (h.setTcb (f := w.after) hsame) (t := t)
    (by simpa [Tasks.setTcb] using hsame.active_iff.mpr hact) none).note
    (e := .finish t w (w.result (q.tcbs t))) (by simp)
  exact h'

theorem Placed.stack (h : Placed q) (stack : TskId → StashedRegisters) :
    Placed { q with stack := stack } :=
  h.of_queues (fun u => (h.task u).congr (.refl _) rfl Iff.rfl (fun _ => Iff.rfl) Iff.rfl
    (fun _ => Iff.rfl)) rfl rfl rfl rfl (fun _ => rfl) rfl

theorem overflow_placed (h : Placed q) : Placed (Move.overflow.effect q) := by
  refine ⟨fun u => ?_, h.free_nodup, h.ready_nodup, h.timer_nodup, h.wait_nodup, h.fifo, ?_⟩
  · exact (h.task u).congr (.refl _) rfl Iff.rfl (fun _ => Iff.rfl) Iff.rfl (fun _ => Iff.rfl)
  · intro a ha
    simp only [Move.effect, List.mem_append, List.mem_singleton] at ha
    rcases ha with ha | ha
    · exact h.alarms a ha
    · exact ha

theorem give_placed (h : Placed q) {w : WaitCall} {d : Delivery} (ha : (Move.give t w d).Allowed q) :
    Placed ((Move.give t w d).effect q) := by
  have hinfo : Placed (Move.setInfo q t (d.info w)) := h.setTcb ⟨.inl rfl, rfl, rfl, rfl, rfl, rfl, rfl⟩
  refine wakeEffect_placed (hinfo.note (by simp)) ?_ .E_OK
  simpa [Move.setInfo, Tasks.setTcb, Tasks.note] using ha.1

theorem Move.placed {m : Move} (h : Placed q) (ha : m.Allowed q) : Placed (m.effect q) := by
  cases m with
  | wake t w cause => exact wakeEffect_placed h ha.1 cause
  | give t w d => exact give_placed h ha
  | block t w queue timed => exact block_placed h ha
  | create t pk frame => exact create_placed h ha
  | start t frame => exact start_placed h ha
  | exit t => exact exit_placed h ha
  | exitDelete t => exact exitDelete_placed h ha
  | yield t => exact yield_placed h ha
  | dispatch old new sp => exact dispatch_placed h ha
  | launch t =>
    rw [effect]
    exact h.setTcb ⟨.inr ⟨.inr rfl, ha⟩, rfl, rfl, rfl, rfl, rfl, rfl⟩
  | queueWakeup t | useWakeup t =>
    rw [effect]
    exact h.setTcb ⟨.inl rfl, rfl, rfl, rfl, rfl, rfl, rfl⟩
  | tick n => exact tick_placed h
  | finish t w => exact finish_placed h ha
  | park t => exact setPending_placed h ha.1 _
  | unpark t => exact setPending_placed h ha.1 _
  | stackWrite t frame => exact h.stack _
  | note c r => exact h.note (by simp)
  | overflow => exact overflow_placed h

/-! ## What a waiting task asked for -/

theorem Move.waited {m : Move} (ha : m.Allowed q) {u : TskId}
    (hs : ((m.effect q).tcbs u).tskstat = .WAI) :
    (∃ w queue timed, m = .block u w queue timed) ∨
      (q.tcbs u).tskstat = .WAI ∧ ((m.effect q).tcbs u).winfo = (q.tcbs u).winfo ∧
        (m.effect q).pending u = q.pending u := by
  cases m with
  | block t w queue timed =>
    by_cases hu : u = t
    · subst hu; exact .inl ⟨w, queue, timed, rfl⟩
    · simp [effect, hu] at hs ⊢; simp [hs]
  | tick n =>
    right
    by_cases hu : u ∈ q.timer_queue <;> simp_all [effect]
  | dispatch old new sp =>
    right
    by_cases hn : u = new
    · subst hn; simp [effect, Tasks.setTcb, Tasks.note] at hs
    · by_cases ho : u = old
      · subst ho
        by_cases hrun : (q.tcbs u).tskstat = .RUN <;>
          simp_all [effect, Tasks.setTcb, Tasks.note]
      · simp_all [effect, Tasks.setTcb, Tasks.note]
  | finish t w =>
    right
    have hact : (q.tcbs t).active := ha.1
    by_cases hu : u = t
    · subst hu
      have : ((w.after (q.tcbs u))).tskstat = (q.tcbs u).tskstat := by cases w <;> rfl
      simp only [effect, Function.update_self, this] at hs
      exact absurd hs hact.stat_ne_wai
    · simp_all [effect]
  | park t | unpark t =>
    right
    have hact : (q.tcbs t).active := ha.1
    by_cases hu : u = t
    · subst hu; exact absurd hs hact.stat_ne_wai
    · simp_all [effect, Tasks.setPending]
  | wake t | give t | create t | start t | exit t | exitDelete t | launch t | queueWakeup t
  | useWakeup t =>
    right
    by_cases hu : u = t <;>
      simp_all [effect, wakeEffect, setInfo, Tasks.setTcb, Tasks.note, Function.update]
  | yield | stackWrite | note | overflow => exact .inr ⟨hs, rfl, rfl⟩

theorem Move.ok {m : Move} (h : Ok q) (ha : m.Allowed q) : Ok (m.effect q) := by
  refine ⟨Move.placed h.toPlaced ha, ?_⟩
  intro u w hs hpend
  rcases Move.waited ha hs with ⟨w', queue, timed, rfl⟩ | ⟨hs', hinfo, hpend'⟩
  · have hw : w' = w := by simpa [effect] using hpend
    subst hw
    obtain ⟨-, -, -, hobj⟩ := ha
    simp only [effect, Function.update_self]
    cases w' with
    | slp | dly => trivial
    | sem semid cnt tmout =>
      simp only [WaitCall.obj, WaitCall.infoOk, WaitCall.info] at hobj ⊢
      cases he : tableEntry CFN_MAX_SEMID semid with
      | none => simp [he, WaitCall.kind] at hobj
      | some s => exact ⟨s, rfl, rfl⟩
    | flg flgid waiptn wfmode p_flgptn tmout =>
      simp only [WaitCall.obj, WaitCall.infoOk, WaitCall.info] at hobj ⊢
      cases he : tableEntry CFN_MAX_FLGID flgid with
      | none => simp [he, WaitCall.kind] at hobj
      | some f => exact ⟨by simp, 0, rfl⟩
    | mbx mbxid ppk_msg tmout =>
      simp only [WaitCall.obj, WaitCall.infoOk, WaitCall.info] at hobj ⊢
      cases he : tableEntry CFN_MAX_MBXID mbxid with
      | none => simp [he, WaitCall.kind] at hobj
      | some m => exact ⟨by simp, trivial⟩
  · rw [hinfo]
    exact h.info u w hs' (hpend' ▸ hpend)

theorem Does.ok {P : Move → Prop} {q' : Tasks} (hd : Does P q q') (h : Ok q) : Ok q' :=
  hd.keeps (fun _ _ _ ha h => Move.ok h ha) h

end TsukumoCore
