import TsukumoCore.Tasks.Equations

/-!
# What a move leaves alone

The tasks that wait on an object, in order, each with what it asked for. A move changes this list for one
object at most.
-/

namespace TsukumoCore

variable {q : Tasks} {t : TskId} {o : Obj} {m : Move}

def waiters (q : Tasks) (o : Obj) : List (TskId × WaitInfo) :=
  (q.wait_queue o).map fun t => (t, (q.tcbs t).winfo)

theorem waiters_eq_nil : waiters q o = [] ↔ q.wait_queue o = [] := by simp [waiters]

theorem Placed.mem_wait (h : Placed q) {w : WaitCall} (hs : (q.tcbs t).tskstat = .WAI)
    (hp : q.pending t = some (.wait w)) : t ∈ q.wait_queue o ↔ w.obj = some o := by
  rw [(h.task t).wait o]
  simp [hs, hp, waitsOn]

theorem Placed.pending_of_mem (h : Placed q) (ht : t ∈ q.wait_queue o) :
    (q.tcbs t).tskstat = .WAI ∧ ∃ w, q.pending t = some (.wait w) ∧ w.obj = some o := by
  obtain ⟨hs, hon⟩ := ((h.task t).wait o).mp ht
  obtain ⟨w, hp, -⟩ := (h.task t).call hs
  rw [hp] at hon
  exact ⟨hs, w, hp, hon⟩

theorem Move.wait_queue_other (h : Placed q) (ha : m.Allowed q) (ho : m.touches ≠ some o) :
    (m.effect q).wait_queue o = q.wait_queue o := by
  cases m with
  | wake t w cause =>
    exact List.erase_of_not_mem fun ht => ho ((h.mem_wait ha.1 ha.2.1).mp ht)
  | give t w d =>
    exact List.erase_of_not_mem fun ht => ho ((h.mem_wait ha.1 ha.2.1).mp ht)
  | block t w queue timed => exact if_neg ho
  | _ => rfl

theorem Move.waiters_other (h : Placed q) (ha : m.Allowed q) (ho : m.touches ≠ some o) :
    waiters (m.effect q) o = waiters q o := by
  have hqueue := Move.wait_queue_other h ha ho
  unfold waiters
  rw [hqueue]
  refine List.map_congr_left fun t ht => ?_
  have hafter : t ∈ (m.effect q).wait_queue o := hqueue ▸ ht
  have hs := (((Move.placed h ha).task t).wait o).mp hafter
  rcases Move.waited ha hs.1 with ⟨w, queue, timed, rfl⟩ | ⟨-, hinfo, -⟩
  · exact absurd ((h.task t).wait o |>.mp ht).1 (TCB.active.stat_ne_wai ha.1)
  · rw [hinfo]

theorem Does.waiters_other {P : Move → Prop} {q' : Tasks} (h : Ok q) (hd : Does P q q')
    (ho : ∀ m, P m → m.touches ≠ some o) : waiters q' o = waiters q o := by
  have hkeep := hd.keeps (I := fun q' => Ok q' ∧ waiters q' o = waiters q o) ?_ ⟨h, rfl⟩
  · exact hkeep.2
  · rintro m q' hP ha ⟨hok, heq⟩
    exact ⟨Move.ok hok ha, (Move.waiters_other hok.toPlaced ha (ho m hP)).trans heq⟩

/-! ## Time limits -/

theorem Move.ticks {m : Move} (h : Placed q) (ha : m.Allowed q) (hm : ∀ n, m ≠ .tick n)
    (ht : t ∈ (m.effect q).timer_queue) :
    (∃ w queue n, m = .block t w queue (some n) ∧ ((m.effect q).tcbs t).delay_ticks = n) ∨
      t ∈ q.timer_queue ∧ ((m.effect q).tcbs t).delay_ticks = (q.tcbs t).delay_ticks := by
  have hwai : ∀ u, ¬ (q.tcbs u).tskstat = .WAI → u ∈ q.timer_queue → False :=
    fun u hs hu => hs ((h.task u).timer.mp hu).1
  cases m with
  | tick n => exact absurd rfl (hm n)
  | block u w queue timed =>
    by_cases hut : t = u
    · subst hut
      cases timed with
      | none => exact absurd ht (h.not_mem_timer ha.1.stat_ne_wai)
      | some n => exact .inl ⟨w, queue, n, rfl, by simp [effect]⟩
    · right
      cases timed <;> simp_all [effect]
  | wake u w cause =>
    have hne : t ≠ u := (h.timer_nodup.mem_erase_iff.mp ht).1
    exact .inr ⟨(h.timer_nodup.mem_erase_iff.mp ht).2, by simp [effect, wakeEffect, hne]⟩
  | give u w d =>
    have hne : t ≠ u := (h.timer_nodup.mem_erase_iff.mp ht).1
    refine .inr ⟨(h.timer_nodup.mem_erase_iff.mp ht).2, ?_⟩
    simp [effect, wakeEffect, setInfo, Tasks.setTcb, Tasks.note, hne]
  | create u pk frame =>
    have hs : (q.tcbs u).tskstat = .NOEXS := (h.task u).free.mp (List.mem_of_mem_head? ha.1)
    have hne : t ≠ u := fun heq => hwai u (by simp [hs]) (heq ▸ ht)
    exact .inr ⟨ht, by simp [effect, hne]⟩
  | start u frame =>
    have hs : (q.tcbs u).tskstat = .DMT := ha
    have hne : t ≠ u := fun heq => hwai u (by simp [hs]) (heq ▸ ht)
    exact .inr ⟨ht, by simp [effect, hne]⟩
  | finish u w =>
    have hne : t ≠ u := fun heq => hwai u ha.1.stat_ne_wai (heq ▸ ht)
    exact .inr ⟨ht, by simp [effect, hne]⟩
  | dispatch old new sp =>
    refine .inr ⟨ht, ?_⟩
    by_cases hn : t = new <;> by_cases ho : t = old <;>
      simp_all [effect, Tasks.setTcb, Tasks.note, Function.update]
  | exit u | exitDelete u | launch u | queueWakeup u | useWakeup u =>
    refine .inr ⟨ht, ?_⟩
    by_cases hu : t = u <;> simp [effect, Tasks.setTcb, Function.update, hu]
  | yield | park | unpark | stackWrite | note | overflow => exact .inr ⟨ht, rfl⟩

/-! ## The object a move touches -/

theorem waiters_wake (h : Placed q) (cause : ER) :
    waiters (Move.wakeEffect q t cause) o = (waiters q o).filter fun p => p.1 ≠ t := by
  have hinfo : ∀ u, ((Move.wakeEffect q t cause).tcbs u).winfo = (q.tcbs u).winfo := by
    intro u
    by_cases hu : u = t
    · subst hu; simp [Move.wakeEffect]
    · simp [Move.wakeEffect, hu]
  simp only [waiters, hinfo, List.filter_map, Function.comp_def]
  simp [Move.wakeEffect, (h.wait_nodup o).erase_eq_filter, bne, beq_eq_decide]

theorem waiters_give (h : Placed q) {w : WaitCall} {d : Delivery} :
    waiters ((Move.give t w d).effect q) o = (waiters q o).filter fun p => p.1 ≠ t := by
  have hp : Placed ((Move.setInfo q t (d.info w)).note (.deliver t d)) := by
    have hinfo : Placed (Move.setInfo q t (d.info w)) :=
      h.setTcb ⟨.inl rfl, rfl, rfl, rfl, rfl, rfl, rfl⟩
    exact hinfo.note (by simp)
  simp only [Move.effect]
  rw [waiters_wake hp]
  simp only [waiters, List.filter_map, Function.comp_def]
  refine List.map_congr_left fun u hu => ?_
  have hne : u ≠ t := by simpa using (List.mem_filter.mp hu).2
  simp [Move.setInfo, Tasks.setTcb, Tasks.note, hne]

theorem waiters_block (h : Placed q) {w : WaitCall} {ahead behind : List TskId} {timed : Option Nat}
    (hact : (q.tcbs t).active) (ho : w.obj = some o) (hq : q.wait_queue o = ahead ++ behind) :
    waiters ((Move.block t w (ahead ++ t :: behind) timed).effect q) o =
      (waiters q o).take ahead.length ++ (t, w.info (q.tcbs t).winfo) ::
        (waiters q o).drop ahead.length := by
  have hnot := h.not_mem_wait hact.stat_ne_wai o
  rw [hq] at hnot
  have hother : ∀ l : List TskId, t ∉ l →
      l.map (fun u => (u, (((Move.block t w (ahead ++ t :: behind) timed).effect q).tcbs u).winfo)) =
        l.map fun u => (u, (q.tcbs u).winfo) := by
    intro l hl
    refine List.map_congr_left fun u hu => ?_
    have hne : u ≠ t := fun heq => hl (heq ▸ hu)
    simp [Move.effect, hne]
  have hqueue : ((Move.block t w (ahead ++ t :: behind) timed).effect q).wait_queue o =
      ahead ++ t :: behind := by simp [Move.effect, ho]
  unfold waiters
  rw [hqueue, hq, List.map_append, List.map_cons,
    hother ahead fun hin => hnot (List.mem_append_left _ hin),
    hother behind fun hin => hnot (List.mem_append_right _ hin)]
  simp [Move.effect]

end TsukumoCore
