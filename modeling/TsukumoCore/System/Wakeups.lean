import TsukumoCore.Calls.Refused
import TsukumoCore.Calls.Requests
import TsukumoCore.System.Boot

/-!
# Wake-up requests

What the log says about the wake-ups of a task, and that `wupcnt` is what it says.
-/

namespace TsukumoCore

variable {e : Entries} {b : Boot} {k k' k1 : Kernel} {q q' : Tasks} {t u : TskId} {m : Move} {a : Act}

/-! ## What is counted -/

/-- The task that goes on. -/
def dispatched : Event → Option TskId
  | .dispatch t => some t
  | _ => none

/-- The log, each event with the task that was `current` then. Task 0 is the first. -/
def byTask (log : List Event) : List (TskId × Event) := Ledger.charged dispatched 0 log

/-- A `tk_wup_tsk` of `t` that returned `E_OK`. -/
def woken (t : TskId) : TskId × Event → Bool
  | (_, .ret (.wup_tsk tskid) r) => decide (r.ercd = .E_OK ∧ tableEntry CFN_MAX_TSKID tskid = some t)
  | _ => false

/-- A `tk_slp_tsk` of `t` that returned `E_OK` at once: it used up a request. -/
def usedUp (t : TskId) : TskId × Event → Bool
  | (u, .ret (.wait (.slp _)) r) => decide (r.ercd = .E_OK ∧ u = t)
  | _ => false

/-- A sleep of `t` that ended with `E_OK`. -/
def sleepEnded (t : TskId) : TskId × Event → Bool
  | (_, .complete u (some (.wait (.slp _))) cause _) => decide (cause = .E_OK ∧ u = t)
  | _ => false

/-- A `tk_sta_tsk` of `t`, or the creation of a new task with this ID, that succeeded. -/
def startedAnew (t : TskId) : TskId × Event → Bool
  | (_, .ret (.sta_tsk tskid _) r) => decide (r.ercd = .E_OK ∧ tableEntry CFN_MAX_TSKID tskid = some t)
  | (_, .ret (.cre_tsk _) r) => decide (r.ercd = .E_OK ∧ r.id = t + 1)
  | _ => false

def wupReset (t : TskId) (x : TskId × Event) : Option Int := if startedAnew t x then some 0 else none

theorem wupReset_isSome (t : TskId) : (fun x => (wupReset t x).isSome) = startedAnew t := by
  funext x
  unfold wupReset
  split
  · rename_i hx
    exact hx.symm
  · rename_i hx
    simp [hx]

def wupDelta (t : TskId) (x : TskId × Event) : Int :=
  (if woken t x then 1 else 0) - (if usedUp t x then 1 else 0) - if sleepEnded t x then 1 else 0

/-- What the log says `wupcnt` is. -/
def requests (t : TskId) (log : List Event) : Int := Ledger.balance (wupReset t) (wupDelta t) (byTask log)

/-- The event says nothing about wake-ups of `t`, whoever was `current`. -/
def SilentWup (t : TskId) (ev : Event) : Prop := ∀ u, Ledger.Silent (wupReset t) (wupDelta t) (u, ev)

theorem requests_silent {log post : List Event} (h : ∀ ev ∈ post, SilentWup t ev) :
    requests t (log ++ post) = requests t log := by
  unfold requests byTask
  rw [Ledger.charged_append]
  apply Ledger.balance_silent
  rintro ⟨u, ev⟩ hmem
  exact h ev (Ledger.mem_charged hmem) u

theorem requests_note (log : List Event) (ev : Event) : requests t (log ++ [ev]) =
    Ledger.step (wupReset t) (wupDelta t) (requests t log) (Ledger.ownerAfter dispatched 0 log, ev) := by
  unfold requests byTask
  rw [Ledger.charged_append]
  exact Ledger.balance_note _ _

theorem silent_of_none {ev : Event}
    (h : ∀ u, woken t (u, ev) = false ∧ usedUp t (u, ev) = false ∧ sleepEnded t (u, ev) = false ∧
      startedAnew t (u, ev) = false) : SilentWup t ev := by
  intro u
  obtain ⟨hw, hu, hs, hr⟩ := h u
  simp [Ledger.Silent, wupReset, wupDelta, hw, hu, hs, hr]

theorem silentWup_refused (c : Call) {r : Ret} (hr : r.ercd ≠ .E_OK) : SilentWup t (.ret c r) := by
  apply silent_of_none
  intro u
  cases c with
  | wait w => cases w <;> simp [woken, usedUp, sleepEnded, startedAnew, hr]
  | _ => simp [woken, usedUp, sleepEnded, startedAnew, hr]

/-! ## Moves -/

/-- A call that has nothing to do with wake-ups. -/
def Call.plain : Call → Prop
  | .cre_tsk _ | .sta_tsk _ _ | .wup_tsk _ | .wait (.slp _) => False
  | _ => True

/-- A move that has nothing to do with them. -/
def Move.plain : Move → Prop
  | create .. | start .. | queueWakeup _ | useWakeup _ => False
  | block _ w _ _ => w.kind ≠ .SLP
  | wake _ w cause => cause = .E_OK → w.kind ≠ .SLP
  | note c _ => c.plain
  | _ => True

theorem setTcb_wupcnt {f : TCB → TCB} (hf : ∀ c, (f c).wupcnt = c.wupcnt) (q : Tasks) (u t : TskId) :
    ((q.setTcb u f).tcbs t).wupcnt = (q.tcbs t).wupcnt := by
  by_cases hu : t = u
  · subst hu; simp [Tasks.setTcb, hf]
  · simp [Tasks.setTcb, hu]

theorem Move.plain_wupcnt (hm : m.plain) (t : TskId) : ((m.effect q).tcbs t).wupcnt = (q.tcbs t).wupcnt := by
  cases m with
  | create | start | queueWakeup | useWakeup => exact absurd hm id
  | wake u | give u | block u | exit u | exitDelete u | launch u =>
    by_cases hu : t = u
    · subst hu; simp [effect, wakeEffect, setInfo, Tasks.setTcb, Tasks.note]
    · simp [effect, wakeEffect, setInfo, Tasks.setTcb, Tasks.note, hu]
  | finish u w =>
    by_cases hu : t = u
    · subst hu; cases w <;> simp [effect, WaitCall.after]
    · simp [effect, hu]
  | dispatch old new sp =>
    simp only [effect, Tasks.note]
    refine (setTcb_wupcnt ?_ _ _ _).trans (setTcb_wupcnt ?_ _ _ _)
    · intro c; rfl
    · intro c; rfl
  | tick n =>
    by_cases hmem : t ∈ q.timer_queue <;> simp [effect, hmem]
  | _ => rfl

theorem Move.plain_silent (ha : m.Allowed q) (hm : m.plain) : ∀ ev ∈ m.events q, SilentWup t ev := by
  intro ev hev
  have hnone : ∀ {ev}, (∀ c r, ev ≠ .ret c r) → (∀ u p cause info, ev ≠ .complete u p cause info) →
      SilentWup t ev := by
    intro ev hret hcomplete
    apply silent_of_none
    intro u
    cases ev with
    | ret c r => exact absurd rfl (hret c r)
    | complete u' p cause info => exact absurd rfl (hcomplete u' p cause info)
    | _ => exact ⟨rfl, rfl, rfl, rfl⟩
  cases m with
  | wake u w cause =>
    simp only [events, ha.2.1, List.mem_cons, List.not_mem_nil, or_false] at hev
    rcases hev with rfl | rfl
    · apply silent_of_none
      intro v
      refine ⟨rfl, rfl, ?_, rfl⟩
      cases w with
      | slp =>
        have hc : cause ≠ .E_OK := fun hc => hm hc rfl
        simp [sleepEnded, hc]
      | _ => rfl
    · exact hnone (by simp) (by simp)
  | give u w d =>
    simp only [events, ha.2.1, List.mem_cons, List.not_mem_nil, or_false] at hev
    rcases hev with rfl | rfl | rfl
    · exact hnone (by simp) (by simp)
    · apply silent_of_none
      intro v
      refine ⟨rfl, rfl, ?_, rfl⟩
      obtain ⟨-, -, hd⟩ := ha
      cases w with
      | slp => exact absurd hd (by simp)
      | _ => rfl
    · exact hnone (by simp) (by simp)
  | note c r =>
    rw [List.mem_singleton.mp hev]
    apply silent_of_none
    intro v
    cases c with
    | wait w =>
      cases w with
      | slp => exact absurd hm id
      | _ => exact ⟨rfl, rfl, rfl, rfl⟩
    | cre_tsk | sta_tsk | wup_tsk => exact absurd hm id
    | _ => exact ⟨rfl, rfl, rfl, rfl⟩
  | block | start | yield | dispatch | finish =>
    rw [List.mem_singleton.mp hev]
    exact hnone (by simp) (by simp)
  | _ => exact absurd hev List.not_mem_nil

/-! ## The counts -/

/-- `wupcnt` is what the log says and within its limit, and a task that sleeps has no request. -/
structure WupOk (q : Tasks) : Prop where
  count : ∀ t, ((q.tcbs t).wupcnt : Int) = requests t q.log
  limit : ∀ t, (q.tcbs t).wupcnt ≤ TK_WAKEUP_MAXCNT
  asleep : ∀ t, (q.tcbs t).tskstat = .WAI → (q.tcbs t).tskwait = .SLP → (q.tcbs t).wupcnt = 0

theorem Move.sleeps (h : Placed q) (ha : m.Allowed q) (hwai : ((m.effect q).tcbs t).tskstat = .WAI)
    (hslp : ((m.effect q).tcbs t).tskwait = .SLP) :
    (∃ w queue timed, m = .block t w queue timed ∧ w.kind = .SLP) ∨
      (q.tcbs t).tskstat = .WAI ∧ (q.tcbs t).tskwait = .SLP := by
  obtain ⟨w', hp', hkind'⟩ := ((Move.placed h ha).task t).call hwai
  rcases Move.waited ha hwai with ⟨w, queue, timed, rfl⟩ | ⟨hbefore, -, hpending⟩
  · left
    exact ⟨w, queue, timed, rfl, by simpa [effect] using hslp⟩
  · right
    obtain ⟨w, hp, hkind⟩ := (h.task t).call hbefore
    rw [hpending, hp] at hp'
    obtain rfl : w = w' := by simpa using hp'
    exact ⟨hbefore, by rw [hkind, ← hkind', hslp]⟩

theorem Move.plain_wupOk (h : Placed q) (ha : m.Allowed q) (hm : m.plain) (hw : WupOk q) : WupOk (m.effect q) := by
  refine ⟨?_, ?_, ?_⟩
  · intro t
    rw [plain_wupcnt hm, log_effect, requests_silent (plain_silent ha hm)]
    exact hw.count t
  · intro t
    rw [plain_wupcnt hm]
    exact hw.limit t
  · intro t hwai hslp
    rw [plain_wupcnt hm]
    rcases sleeps h ha hwai hslp with ⟨w, queue, timed, rfl, hkind⟩ | ⟨hwai, hslp⟩
    · exact absurd hkind hm
    · exact hw.asleep t hwai hslp

theorem Does.plain_wupOk {P : Move → Prop} (h : Ok q) (hd : Does P q q') (hP : ∀ m, P m → m.plain) (hw : WupOk q) :
    WupOk q' := by
  have hkeep := hd.keeps (I := fun q' => Ok q' ∧ WupOk q') ?_ ⟨h, hw⟩
  · exact hkeep.2
  · rintro m q' hm ha ⟨hok, hwup⟩
    exact ⟨Move.ok hok ha, Move.plain_wupOk hok.toPlaced ha (hP m hm) hwup⟩

/-! ## Steps -/

theorem stepMoves_plain (ha : ∀ c times, a = .call c times → c.plain) (hm : stepMoves e k k' a m) : m.plain := by
  cases a with
  | call c times =>
    have hc := ha c times rfl
    cases m with
    | wake u w cause =>
      intro hok hslp
      have hwakes := hm.2 hok
      rw [hslp] at hwakes
      cases c with
      | wup_tsk => exact hc
      | _ => exact hwakes
    | block u w queue timed =>
      intro hslp
      obtain ⟨-, -, rfl, -⟩ := hm
      cases w with
      | slp => exact hc
      | _ => exact absurd hslp (by simp [WaitCall.kind])
    | create u pk frame =>
      obtain rfl : c = .cre_tsk (some pk) := hm
      exact hc
    | start u frame =>
      obtain ⟨tskid, stacd, rfl, -⟩ := hm
      exact hc
    | queueWakeup u =>
      obtain ⟨tskid, rfl⟩ := hm
      exact hc
    | useWakeup u =>
      obtain ⟨tmout, rfl⟩ := hm
      exact hc
    | note c' r =>
      obtain rfl : c' = c := hm
      exact hc
    | _ => trivial
  | timer_interrupt times sp =>
    cases m with
    | wake u w cause =>
      rcases hm with rfl | ⟨rfl, hkind⟩
      · simp [Move.plain]
      · simp [Move.plain, hkind]
    | tick | dispatch => trivial
    | _ => exact absurd hm id
  | _ =>
    cases m <;> first | exact absurd hm id | trivial

/-- The last task on record that went on is `current`. -/
def RunnerOk (k : Kernel) : Prop := k.current = some (Ledger.ownerAfter dispatched 0 k.log)

theorem Move.dispatch_mem (hm : stepMoves e k k' a m) (hin : .dispatch t ∈ m.events q) : k'.current = some t := by
  cases m with
  | dispatch old new sp =>
    obtain rfl : t = new := by simpa [events] using hin
    cases a with
    | external_leave | software_interrupt | timer_interrupt => exact hm.2
    | _ => exact absurd hm id
  | _ => exact absurd hin (by simp [events])

theorem StepOk.runner (hok : StepOk e k a k') (h : RunnerOk k) : RunnerOk k' := by
  obtain ⟨post, hpost⟩ := hok.does.log
  obtain ⟨u, hu⟩ := hok.inv.sched.current
  have hall : ∀ ev ∈ post, ∀ v, dispatched ev = some v → v = u := by
    intro ev hev v hv
    obtain ⟨m, q₁, hm, -, hin⟩ := hok.does.event hpost hev
    have hcur : k'.current = some v := by
      cases ev with
      | dispatch w =>
        obtain rfl : w = v := Option.some.inj hv
        exact Move.dispatch_mem hm hin
      | _ => exact absurd hv (by simp [dispatched])
    exact Option.some.inj (hcur.symm.trans hu)
  unfold RunnerOk at h ⊢
  rw [hpost, Ledger.ownerAfter, List.foldl_append]
  rcases Ledger.ownerAfter_of_all hall (Ledger.ownerAfter dispatched 0 k.log) with hafter | ⟨hsame, hnone⟩
  · exact hu.trans (congrArg some hafter.symm)
  · have hkeep : k'.current = k.current := by
      rcases hok.current with hcur | ⟨v, post', hv, hlog, hmem⟩
      · exact hcur
      · obtain rfl : post = post' := List.append_cancel_left (hpost.symm.trans hlog)
        exact absurd (hnone _ hmem) (by simp [dispatched])
    rw [hkeep, h]
    exact congrArg some hsame.symm

/-! ## The calls -/

theorem WupOk.refused (h : WupOk q) (c : Call) {r : Ret} (hr : r.ercd ≠ .E_OK) : WupOk (q.note (.ret c r)) := by
  refine ⟨?_, h.limit, h.asleep⟩
  intro t
  have hsilent : ∀ ev ∈ [Event.ret c r], SilentWup t ev := by
    intro ev hev
    rw [List.mem_singleton.mp hev]
    exact silentWup_refused c hr
  show ((q.tcbs t).wupcnt : Int) = requests t (q.log ++ [.ret c r])
  rw [requests_silent hsilent]
  exact h.count t

theorem WupOk.change (h : WupOk q) (hother : ∀ u, u ≠ t → q'.tcbs u = q.tcbs u)
    (hlog : ∀ u, u ≠ t → requests u q'.log = requests u q.log)
    (hcount : ((q'.tcbs t).wupcnt : Int) = requests t q'.log) (hlimit : (q'.tcbs t).wupcnt ≤ TK_WAKEUP_MAXCNT)
    (hasleep : (q'.tcbs t).tskstat = .WAI → (q'.tcbs t).tskwait = .SLP → (q'.tcbs t).wupcnt = 0) : WupOk q' := by
  refine ⟨?_, ?_, ?_⟩
  · intro u
    by_cases hu : u = t
    · rw [hu]
      exact hcount
    · rw [hother u hu, hlog u hu]
      exact h.count u
  · intro u
    by_cases hu : u = t
    · rw [hu]
      exact hlimit
    · rw [hother u hu]
      exact h.limit u
  · intro u
    by_cases hu : u = t
    · rw [hu]
      exact hasleep
    · rw [hother u hu]
      exact h.asleep u

theorem requests_ret (log : List Event) (c : Call) (r : Ret) : requests t (log ++ [.ret c r]) =
    if startedAnew t (Ledger.ownerAfter dispatched 0 log, .ret c r) then 0
    else requests t log + wupDelta t (Ledger.ownerAfter dispatched 0 log, .ret c r) := by
  rw [requests_note]
  unfold Ledger.step wupReset
  split <;> rfl

theorem WupOk.anew (h : WupOk q) {c : Call} {r : Ret} (quiet : List Event)
    (hquiet : ∀ ev ∈ quiet, ∀ u, SilentWup u ev) (hlog : q'.log = q.log ++ quiet)
    (hself : (q'.tcbs t).wupcnt = 0) (hother : ∀ u, u ≠ t → q'.tcbs u = q.tcbs u)
    (hanew : ∀ u v, startedAnew u (v, .ret c r) = decide (u = t)) (hnone : ∀ u v, wupDelta u (v, .ret c r) = 0) :
    WupOk (q'.note (.ret c r)) := by
  have hbefore : ∀ u, requests u q'.log = requests u q.log := by
    intro u
    rw [hlog, requests_silent fun ev hev => hquiet ev hev u]
  have hcnt : ((q'.note (.ret c r)).tcbs t).wupcnt = 0 := hself
  apply h.change (t := t)
  · exact hother
  · intro u hu
    show requests u (q'.log ++ [.ret c r]) = _
    rw [requests_ret, hanew, hnone, hbefore]
    simp [hu]
  · show _ = requests t (q'.log ++ [.ret c r])
    rw [requests_ret, hanew, hcnt]
    simp
  · rw [hcnt]
    exact Nat.zero_le _
  · exact fun _ _ => hcnt

theorem tk_wup_tsk_ok (h : Core k.toTasks k.toObjects) {tskid : Int} (hok : (tk_wup_tsk k tskid).1 = .E_OK) :
    ∃ t, tableEntry CFN_MAX_TSKID tskid = some t ∧
      ((Move.queueWakeup t).Allowed k.toTasks ∧
          (tk_wup_tsk k tskid).2.toTasks = (Move.queueWakeup t).effect k.toTasks ∨
        ∃ tmout, (Move.wake t (.slp tmout) .E_OK).Allowed k.toTasks ∧
          (tk_wup_tsk k tskid).2.toTasks = (Move.wake t (.slp tmout) .E_OK).effect k.toTasks) := by
  have hqueue : ∀ t, (queue_wakeup k.DI t).1 = .E_OK →
      ((k.tcbs t).active ∨ (k.tcbs t).tskstat = .WAI ∧ (k.tcbs t).tskwait ≠ .SLP) →
      (Move.queueWakeup t).Allowed k.toTasks ∧
        ((queue_wakeup k.DI t).2.EI k.mie).toTasks = (Move.queueWakeup t).effect k.toTasks := by
    intro t hok hs
    unfold queue_wakeup at hok ⊢
    split at hok
    · rename_i hlt
      rw [if_pos hlt]
      exact ⟨⟨hlt, hs⟩, rfl⟩
    · exact absurd hok (by simp)
  revert hok
  unfold tk_wup_tsk
  split
  · simp
  rename_i t ht
  dsimp only
  split
  · simp
  split
  · rename_i hs
    split
    · rename_i hslp
      intro _
      obtain ⟨w, hp, hkind⟩ := h.waiting hs
      cases w with
      | slp tmout =>
        refine ⟨t, ht, .inr ⟨tmout, ⟨hs, hp, fun _ => .inl rfl, by simp⟩, ?_⟩⟩
        rw [complete_wait_eq (k := k.DI) h.tasks.toPlaced hs (by simp), EI_toTasks, request_switch_toTasks]
        rfl
      | _ => exact absurd (hkind.symm.trans hslp) (by simp [WaitCall.kind])
    · rename_i hslp
      intro hok
      exact ⟨t, ht, .inl (hqueue t hok (.inr ⟨hs, hslp⟩))⟩
  split
  · rename_i hact
    intro hok
    exact ⟨t, ht, .inl (hqueue t hok (.inl hact))⟩
  split
  · simp
  · simp

theorem cre_tsk_wupOk (h : Good k) (hw : WupOk k.toTasks) (pk_ctsk : Option T_CTSK) :
    WupOk ((tk_cre_tsk k pk_ctsk).2.toTasks.note (.ret (.cre_tsk pk_ctsk) (tk_cre_tsk k pk_ctsk).1)) := by
  by_cases hok : (tk_cre_tsk k pk_ctsk).1.ercd = .E_OK
  · obtain ⟨t, pk, stack_end, rfl, -, heq⟩ := tk_cre_tsk_ok h.core hok
    rw [heq]
    apply hw.anew (t := t) []
    · simp
    · simp [Kernel.tasks, Move.effect]
    · simp [Kernel.tasks, Move.effect]
    · intro u hu
      simp [Kernel.tasks, Move.effect, hu]
    · intro u v
      have hid : (t : Int) + 1 = u + 1 ↔ u = t := by
        rw [Fin.ext_iff]
        omega
      simp [startedAnew, hid]
    · exact fun u v => rfl
  · rw [((tk_cre_tsk_answers h.core pk_ctsk).refused _ rfl hok).1]
    exact hw.refused _ hok

theorem sta_tsk_wupOk (h : Good k) (hw : WupOk k.toTasks) (tskid stacd : Int) :
    WupOk ((tk_sta_tsk e k tskid stacd).2.toTasks.note
      (.ret (.sta_tsk tskid stacd) { ercd := (tk_sta_tsk e k tskid stacd).1 })) := by
  by_cases hok : (tk_sta_tsk e k tskid stacd).1 = .E_OK
  · cases ht : tableEntry CFN_MAX_TSKID tskid with
    | none => exact absurd hok (by simp [tk_sta_tsk, ht])
    | some t =>
      obtain ⟨u, hu⟩ := h.sched.current
      have hcur : k.current ≠ none := by simp [hu]
      rw [tk_sta_tsk_eq h.core.tasks.toPlaced ht (tk_sta_tsk_dormant hok ht), EI_toTasks,
        dispatch_if_needed_eq (k := k.DI.tasks _) hcur, request_switch_toTasks]
      apply hw.anew (t := t) [.enqueue t]
      · intro ev hev v
        rw [List.mem_singleton.mp hev]
        exact silent_of_none fun _ => ⟨rfl, rfl, rfl, rfl⟩
      · simp [Kernel.tasks, Move.effect]
      · simp [Kernel.tasks, Move.effect]
      · intro v hv
        simp [Kernel.tasks, Move.effect, hv]
      · intro v v'
        simp [startedAnew, ht, eq_comm]
      · exact fun v v' => rfl
  · rw [((tk_sta_tsk_answers e tskid stacd).refused _ rfl hok).1]
    exact hw.refused _ hok

theorem wup_tsk_wupOk (h : Good k) (hw : WupOk k.toTasks) (tskid : Int) :
    WupOk ((tk_wup_tsk k tskid).2.toTasks.note (.ret (.wup_tsk tskid) { ercd := (tk_wup_tsk k tskid).1 })) := by
  by_cases hok : (tk_wup_tsk k tskid).1 = .E_OK
  · obtain ⟨t, ht, hmove⟩ := tk_wup_tsk_ok h.core hok
    rw [hok]
    have hret : ∀ u (log : List Event), requests u (log ++ [.ret (.wup_tsk tskid) { ercd := .E_OK }]) =
        requests u log + if u = t then 1 else 0 := by
      intro u log
      rw [requests_ret]
      simp [startedAnew, wupDelta, woken, usedUp, sleepEnded, ht, eq_comm]
    rcases hmove with ⟨ha, heq⟩ | ⟨tmout, ha, heq⟩
    · rw [heq]
      have hcnt : (((Move.queueWakeup t).effect k.toTasks).tcbs t).wupcnt = (k.tcbs t).wupcnt + 1 := by
        simp [Move.effect, Tasks.setTcb]
      apply hw.change (t := t)
      · intro u hu
        simp [Move.effect, Tasks.setTcb, Tasks.note, hu]
      · intro u hu
        show requests u (k.log ++ _) = _
        rw [hret, if_neg hu, Int.add_zero]
      · show _ = requests t (k.log ++ _)
        rw [hret, if_pos rfl, ← hw.count t]
        exact congrArg Nat.cast hcnt
      · exact hcnt.trans_le ha.1
      · intro hwai hslp
        simp only [Move.effect, Tasks.setTcb, Tasks.note, Function.update_self] at hwai hslp
        rcases ha.2 with hact | ⟨-, hne⟩
        · exact absurd hwai hact.stat_ne_wai
        · exact absurd hslp hne
    · rw [heq]
      have hlog : ((Move.wake t (.slp tmout) .E_OK).effect k.toTasks).log =
          k.log ++ [.complete t (some (.wait (.slp tmout))) .E_OK (k.tcbs t).winfo] ++ [.enqueue t] := by
        simp [Move.effect, Move.wakeEffect, ha.2.1]
      have hbefore : ∀ u, requests u ((Move.wake t (.slp tmout) .E_OK).effect k.toTasks).log =
          requests u k.log - if u = t then 1 else 0 := by
        intro u
        rw [hlog, requests_silent, requests_note]
        · simp [Ledger.step, wupReset, wupDelta, startedAnew, woken, usedUp, sleepEnded, eq_comm, Int.sub_eq_add_neg]
        · intro ev hev
          rw [List.mem_singleton.mp hev]
          exact silent_of_none fun _ => ⟨rfl, rfl, rfl, rfl⟩
      have hcnt : (((Move.wake t (.slp tmout) .E_OK).effect k.toTasks).tcbs t).wupcnt = (k.tcbs t).wupcnt := by
        simp [Move.effect, Move.wakeEffect]
      apply hw.change (t := t)
      · intro u hu
        simp [Move.effect, Move.wakeEffect, Tasks.note, hu]
      · intro u hu
        show requests u (((Move.wake t (.slp tmout) .E_OK).effect k.toTasks).log ++ _) = _
        rw [hret, hbefore, if_neg hu]
        simp
      · show _ = requests t (((Move.wake t (.slp tmout) .E_OK).effect k.toTasks).log ++ _)
        rw [hret, hbefore, if_pos rfl, ← hw.count t]
        exact (congrArg Nat.cast hcnt).trans (by omega)
      · exact hcnt.trans_le (hw.limit t)
      · intro hwai
        exact absurd hwai (by simp [Move.effect, Move.wakeEffect, Tasks.note])
  · rw [((tk_wup_tsk_answers tskid).refused _ rfl hok).1]
    exact hw.refused _ hok

theorem tk_slp_tsk_cases (k : Kernel) (tmout : Int) (times : List Nat) :
    (∃ r, (tk_slp_tsk k tmout times).1 = .ret r ∧ r.ercd ≠ .E_OK) ∨
      (∃ t, k.current = some t ∧ 0 < (k.tcbs t).wupcnt ∧ (tk_slp_tsk k tmout times).1 = .ret { ercd := .E_OK } ∧
        (tk_slp_tsk k tmout times).2.toTasks = (Move.useWakeup t).effect k.toTasks) ∨
      ∃ t, k.current = some t ∧ (k.tcbs t).wupcnt = 0 ∧ (tk_slp_tsk k tmout times).1 = .wait ∧
        (tk_slp_tsk k tmout times).2.log = k.log ∧ (tk_slp_tsk k tmout times).2.current = some t ∧
        ((tk_slp_tsk k tmout times).2.tcbs t).wupcnt = 0 ∧
        ∀ u, u ≠ t → (tk_slp_tsk k tmout times).2.tcbs u = k.tcbs u := by
  unfold tk_slp_tsk
  split
  · exact .inl ⟨_, rfl, by simp⟩
  dsimp only
  split
  · exact .inl ⟨_, rfl, by simp⟩
  split
  · exact .inl ⟨_, rfl, by simp⟩
  rename_i t ht
  split
  · rename_i hwup
    exact .inr (.inl ⟨t, ht, hwup, rfl, rfl⟩)
  rename_i hwup
  have hzero : (k.tcbs t).wupcnt = 0 := Nat.eq_zero_of_not_pos hwup
  split
  · refine .inr (.inr ⟨t, ht, hzero, rfl, rfl, ht, ?_, ?_⟩)
    · simpa [tkmc_schedule_timer, switch_away, Kernel.dispatch, Kernel.tasks, Tasks.check, Tasks.setTcb,
        Tasks.del_head, Tasks.add_timer, Tasks.link_head, Kernel.EI, Kernel.DI] using hzero
    · intro u hu
      simp [tkmc_schedule_timer, switch_away, Kernel.dispatch, Kernel.tasks, Tasks.check, Tasks.setTcb,
        Tasks.del_head, Tasks.add_timer, Tasks.link_head, Kernel.EI, Kernel.DI, hu]
  split
  · exact .inl ⟨_, rfl, by simp⟩
  · refine .inr (.inr ⟨t, ht, hzero, rfl, rfl, ht, ?_, ?_⟩)
    · simpa [wait_forever, switch_away, Kernel.dispatch, Kernel.tasks, Tasks.check, Tasks.setTcb,
        Tasks.del_head, Tasks.init_head, Kernel.EI, Kernel.DI] using hzero
    · intro u hu
      simp [wait_forever, switch_away, Kernel.dispatch, Kernel.tasks, Tasks.check, Tasks.setTcb,
        Tasks.del_head, Tasks.init_head, Kernel.EI, Kernel.DI, hu]

theorem slp_tsk_wupOk (hrun : RunnerOk k) (hw : WupOk k.toTasks) (tmout : Int) (times : List Nat) :
    WupOk (leave_call (tk_slp_tsk k tmout times).2 (.wait (.slp tmout)) (tk_slp_tsk k tmout times).1).toTasks := by
  have hanswers := tk_slp_tsk_answers (k := k) tmout times
  rcases tk_slp_tsk_cases k tmout times with ⟨r, hflow, hr⟩ | ⟨t, ht, hpos, hflow, htasks⟩ |
    ⟨t, ht, hzero, hflow, hlog, hcur, hself, hother⟩
  · rw [(hanswers.refused r hflow hr).1, hflow]
    exact hw.refused _ hr
  · rw [hflow]
    have hown : Ledger.ownerAfter dispatched 0 k.log = t := Option.some.inj (hrun.symm.trans ht)
    show WupOk ((tk_slp_tsk k tmout times).2.toTasks.note _)
    rw [htasks]
    have hret : ∀ u, requests u (k.log ++ [.ret (.wait (.slp tmout)) { ercd := .E_OK }]) =
        requests u k.log - if u = t then 1 else 0 := by
      intro u
      rw [requests_ret, hown]
      simp [startedAnew, wupDelta, woken, usedUp, sleepEnded, eq_comm, Int.sub_eq_add_neg]
    have hcnt : (((Move.useWakeup t).effect k.toTasks).tcbs t).wupcnt = (k.tcbs t).wupcnt - 1 := by
      simp [Move.effect, Tasks.setTcb]
    have hlimit := hw.limit t
    apply hw.change (t := t)
    · intro u hu
      simp [Move.effect, Tasks.setTcb, Tasks.note, hu]
    · intro u hu
      show requests u (k.log ++ _) = _
      rw [hret, if_neg hu, Int.sub_zero]
    · show _ = requests t (k.log ++ _)
      rw [hret, if_pos rfl, ← hw.count t]
      exact (congrArg Nat.cast hcnt).trans (by omega)
    · exact hcnt.trans_le (by omega)
    · intro hwai hslp
      simp only [Move.effect, Tasks.setTcb, Tasks.note, Function.update_self] at hwai hslp
      exact absurd (hw.asleep t hwai hslp) (by omega)
  · rw [hflow]
    simp only [leave_call, hcur]
    have hblock : ∀ u, requests u ((tk_slp_tsk k tmout times).2.log ++ [.block t (.slp tmout)]) =
        requests u k.log := by
      intro u
      rw [requests_silent, hlog]
      intro ev hev
      rw [List.mem_singleton.mp hev]
      exact silent_of_none fun _ => ⟨rfl, rfl, rfl, rfl⟩
    apply hw.change (t := t)
    · exact hother
    · exact fun u _ => hblock u
    · refine Eq.trans ?_ (hblock t).symm
      rw [← hw.count t, hzero]
      exact congrArg Nat.cast hself
    · exact hself.trans_le (Nat.zero_le _)
    · exact fun _ _ => hself

/-! ## Runs -/

theorem step_wupOk (h : Inv k) (hrun : RunnerOk k) (hw : WupOk k.toTasks) (hk : step e k a = some k') :
    WupOk k'.toTasks := by
  have hok := step_ok h hk
  by_cases ha : ∀ c times, a = .call c times → c.plain
  · exact hok.does.plain_wupOk h.core.tasks (fun m hm => stepMoves_plain ha hm) hw
  · push Not at ha
    obtain ⟨c, times, rfl, hc⟩ := ha
    simp only [step, Option.ite_none_right_eq_some, Option.map_eq_some_iff] at hk
    obtain ⟨-, ⟨flow, k1⟩, hx, rfl⟩ := hk
    cases c with
    | cre_tsk pk_ctsk =>
      obtain ⟨rfl, rfl⟩ : .ret (tk_cre_tsk k pk_ctsk).1 = flow ∧ _ = k1 := by simpa [exec] using hx
      exact cre_tsk_wupOk h.toGood hw pk_ctsk
    | sta_tsk tskid stacd =>
      obtain ⟨rfl, rfl⟩ : .ret { ercd := (tk_sta_tsk e k tskid stacd).1 } = flow ∧ _ = k1 := by
        simpa [exec] using hx
      exact sta_tsk_wupOk h.toGood hw tskid stacd
    | wup_tsk tskid =>
      obtain ⟨rfl, rfl⟩ : .ret { ercd := (tk_wup_tsk k tskid).1 } = flow ∧ _ = k1 := by simpa [exec] using hx
      exact wup_tsk_wupOk h.toGood hw tskid
    | wait w =>
      cases w with
      | slp tmout =>
        obtain ⟨rfl, rfl⟩ : (tk_slp_tsk k tmout times).1 = flow ∧ _ = k1 := by simpa [exec, Prod.ext_iff] using hx
        exact slp_tsk_wupOk hrun hw tmout times
      | _ => exact absurd trivial hc
    | _ => exact absurd trivial hc

theorem start_wupOk (hk : tkmc_start b = some k) : RunnerOk k ∧ WupOk k.toTasks := by
  have hzero : ∀ t, (k.tcbs t).wupcnt = 0 := by
    intro t
    obtain ⟨stack_end, stack_end', -, -, -, -, rfl⟩ := boot_eq hk
    simp only [Kernel.EI, tkmc_start_timer, write_mtimecmp, Tasks.setTcb, bootTasks, Move.effect]
    by_cases h0 : t = 0
    · subst h0; simp
    · by_cases h1 : t = 1
      · subst h1; simp
      · simp [h0, h1, tkmc_init_tcb]
  obtain ⟨-, -, -, -, -, hlog, -, hmachine⟩ := start_tasks hk
  refine ⟨?_, ?_, ?_, ?_⟩
  · unfold RunnerOk
    rw [hlog]
    exact congrArg Machine.current hmachine
  · intro t
    rw [hlog, hzero]
    rfl
  · intro t
    rw [hzero]
    exact Nat.zero_le _
  · exact fun t _ _ => hzero t

theorem Reachable.wupOk (h : Reachable b k) : WupOk k.toTasks := by
  have hall : Inv k ∧ RunnerOk k ∧ WupOk k.toTasks := by
    refine Paths.Reach.invariant (I := fun k => Inv k ∧ RunnerOk k ∧ WupOk k.toTasks) ?_ ?_ h
    · intro k hk
      exact ⟨start_inv hk, start_wupOk hk⟩
    · rintro k a k' ⟨hinv, hrun, hwup⟩ hstep
      have hok := step_ok hinv hstep
      exact ⟨hok.inv, hok.runner hrun, step_wupOk hinv hrun hwup hstep⟩
  exact hall.2.2

/-- The wake-ups of a task since it was last started: those requested, those used and those still there. -/
theorem wakeups_accounted (h : Reachable b k) (t : TskId) :
    (Ledger.since (startedAnew t) (byTask k.log)).countP (woken t) =
        (Ledger.since (startedAnew t) (byTask k.log)).countP (usedUp t) +
          (Ledger.since (startedAnew t) (byTask k.log)).countP (sleepEnded t) + (k.tcbs t).wupcnt ∧
      (k.tcbs t).wupcnt ≤ TK_WAKEUP_MAXCNT ∧
      ((k.tcbs t).tskstat = .WAI → (k.tcbs t).tskwait = .SLP → (k.tcbs t).wupcnt = 0) := by
  have hw := h.wupOk
  refine ⟨?_, hw.limit t, hw.asleep t⟩
  have hcount := hw.count t
  unfold requests at hcount
  rw [Ledger.balance_eq_since, wupReset_isSome] at hcount
  · unfold wupDelta at hcount
    rw [Ledger.sum_sub, Ledger.sum_sub, Ledger.sum_count, Ledger.sum_count, Ledger.sum_count] at hcount
    omega
  · intro x n hx
    unfold wupReset at hx
    split at hx
    · exact (Option.some.inj hx).symm
    · cases hx

/-- Task 3 sleeps, a first request ends its sleep, and a second one is queued. -/
def wakeupRun : List Act :=
  [.call (.cre_tsk (some { exinf := 0, tskatr := TA_USERBUF, task := 0x80004000, itskpri := 1, stksz := 512,
                           bufptr := 0x80020000 })) [],
    .call (.sta_tsk 3 0) [], .call (.wait (.dly 0)) [], .resume, .software_interrupt 0,
    .call (.wait (.slp TMO_FEVR)) [], .software_interrupt 0, .external_enter, .call (.wup_tsk 3) [],
    .call (.wup_tsk 3) []]

theorem wakeups_accounted_wakeupRun : ∃ k, sampleRun wakeupRun = some k ∧ (k.tcbs 2).wupcnt = 1 ∧
    (Ledger.since (startedAnew 2) (byTask k.log)).countP (woken 2) =
      (Ledger.since (startedAnew 2) (byTask k.log)).countP (usedUp 2) +
        (Ledger.since (startedAnew 2) (byTask k.log)).countP (sleepEnded 2) + 1 := by
  obtain ⟨k, hk, hcnt⟩ := sampleRun_of_any wakeupRun (fun k => (k.tcbs 2).wupcnt = 1) (by decide +kernel)
  refine ⟨k, hk, hcnt, ?_⟩
  rw [← hcnt]
  exact (wakeups_accounted (sampleRun_reachable hk) 2).1

end TsukumoCore
