import TsukumoCore.System.Boot

/-!
# Waits over a run

What happens to a task from the moment it begins to wait until its call returns.
-/

namespace TsukumoCore

variable {b : Boot} {k : Kernel} {q : Tasks} {t : TskId} {w : WaitCall} {m : Move}

/-- The events in the story of a wait of `t`. -/
def concerns (t : TskId) : Event → Bool
  | .complete u _ _ _ | .deliver u _ | .dispatch u | .block u _ | .finish u _ _ => decide (u = t)
  | .enqueue _ | .ret _ _ => false

/-- The event that ended the wait left a pattern or a message, or nothing but its cause. -/
def delivered (t : TskId) : Option Delivery → List Event
  | none => []
  | some d => [.deliver t d]

/-- A wait for a pattern or a message ends with one if and only if it ends with `E_OK`. -/
def WaitCall.fits (w : WaitCall) (cause : ER) (d : Option Delivery) : Prop :=
  match w with
  | .flg .. => (cause = .E_OK ∧ ∃ flgptn, d = some (.pattern flgptn)) ∨ cause ≠ .E_OK ∧ d = none
  | .mbx .. => (cause = .E_OK ∧ ∃ msg, d = some (.message msg)) ∨ cause ≠ .E_OK ∧ d = none
  | _ => d = none

/-- What the call has to return. -/
def WaitCall.answer (w : WaitCall) (cause : ER) (d : Option Delivery) : Ret :=
  match w, d with
  | .dly _, _ => { ercd := if cause = .E_TMOUT then .E_OK else cause }
  | _, some (.pattern flgptn) => { ercd := cause, flgptn := some flgptn }
  | _, some (.message msg) => { ercd := cause, msg := some msg }
  | _, none => { ercd := cause }

/-- The story of a wait in `w`, as far as it has come: the task waits; its wait has ended, once, and it has
not returned yet; or it has returned. Until it returns, its TCB holds what ended the wait. -/
inductive Story (q : Tasks) (t : TskId) (w : WaitCall) : List Event → Prop where
  | waiting : (q.tcbs t).tskstat = .WAI → q.pending t = some (.wait w) → Story q t w []
  | ended (d : Option Delivery) (cause : ER) (info : WaitInfo) (n : Nat) :
      (q.tcbs t).active → q.pending t = some (.wait w) → w.fits cause d →
      (q.tcbs t).wupcause = cause → (q.tcbs t).winfo = info → (∀ d', d = some d' → info = d'.info w) →
      Story q t w (delivered t d ++ .complete t (some (.wait w)) cause info :: List.replicate n (.dispatch t))
  | returned (d : Option Delivery) (cause : ER) (info : WaitInfo) (n : Nat) (later : List Event) :
      w.fits cause d →
      Story q t w (delivered t d ++ .complete t (some (.wait w)) cause info ::
        (List.replicate n (.dispatch t) ++ .finish t w (w.answer cause d) :: later))

/-! ## Moves -/

theorem Move.inside (h : Placed q) (ha : m.Allowed q) (hp : q.pending t = some (.wait w)) :
    (∃ cause, m = .wake t w cause) ∨ (∃ d, m = .give t w d) ∨ m = .finish t w ∨
      ((m.effect q).pending t = some (.wait w) ∧ ((m.effect q).tcbs t).wupcause = (q.tcbs t).wupcause ∧
        ((m.effect q).tcbs t).winfo = (q.tcbs t).winfo ∧
        ((q.tcbs t).tskstat = .WAI → ((m.effect q).tcbs t).tskstat = .WAI) ∧
        ((q.tcbs t).active → ((m.effect q).tcbs t).active) ∧
        ((m.events q).filter (concerns t) = [] ∨
          (q.tcbs t).active ∧ (m.events q).filter (concerns t) = [.dispatch t])) := by
  have hout : (q.tcbs t).tskstat ≠ .DMT ∧ (q.tcbs t).tskstat ≠ .NOEXS := by
    refine ⟨fun hs => ?_, fun hs => ?_⟩
    · rw [(h.task t).outside (.inl hs)] at hp
      exact absurd hp (by simp)
    · rw [(h.task t).outside (.inr hs)] at hp
      exact absurd hp (by simp)
  cases m with
  | wake u w' cause =>
    by_cases hu : u = t
    · subst hu
      obtain rfl : w' = w := by simpa [ha.2.1] using hp
      exact .inl ⟨cause, rfl⟩
    · refine .inr (.inr (.inr ?_))
      simp [effect, wakeEffect, events, concerns, hp, hu, Ne.symm hu]
  | give u w' d =>
    by_cases hu : u = t
    · subst hu
      obtain rfl : w' = w := by simpa [ha.2.1] using hp
      exact .inr (.inl ⟨d, rfl⟩)
    · refine .inr (.inr (.inr ?_))
      simp [effect, wakeEffect, setInfo, Tasks.setTcb, Tasks.note, events, concerns, hp, hu, Ne.symm hu]
  | finish u w' =>
    by_cases hu : u = t
    · subst hu
      obtain rfl : w' = w := by simpa [ha.2] using hp
      exact .inr (.inr (.inl rfl))
    · refine .inr (.inr (.inr ?_))
      simp [effect, events, concerns, hp, hu, Ne.symm hu]
  | block u w' queue timed =>
    have hu : u ≠ t := by rintro rfl; simp [ha.2.1] at hp
    refine .inr (.inr (.inr ?_))
    simp [effect, events, concerns, hp, hu, Ne.symm hu]
  | exit u | exitDelete u | park u =>
    have hu : u ≠ t := by rintro rfl; simp [ha.2] at hp
    refine .inr (.inr (.inr ?_))
    simp [effect, Tasks.setPending, events, hp, Ne.symm hu]
  | unpark u =>
    have hu : u ≠ t := by rintro rfl; simp [ha.2] at hp
    refine .inr (.inr (.inr ?_))
    simp [effect, Tasks.setPending, events, hp, Ne.symm hu]
  | create u pk frame =>
    have hu : u ≠ t := by
      rintro rfl
      exact hout.2 ((h.task u).free.mp (List.mem_of_mem_head? ha.1))
    refine .inr (.inr (.inr ?_))
    simp [effect, events, hp, Ne.symm hu]
  | start u frame =>
    have hu : u ≠ t := by rintro rfl; exact hout.1 ha
    refine .inr (.inr (.inr ?_))
    simp [effect, events, concerns, hp, Ne.symm hu]
  | dispatch old new sp =>
    have hnew : (q.tcbs new).active := ha
    refine .inr (.inr (.inr ?_))
    by_cases hn : t = new
    · subst hn
      refine ⟨hp, ?_, ?_, fun hs => absurd hs hnew.stat_ne_wai, fun _ => .inr ?_, .inr ⟨hnew, ?_⟩⟩
      · by_cases ho : t = old <;> simp [effect, Tasks.setTcb, Tasks.note, Function.update, ho]
      · by_cases ho : t = old <;> simp [effect, Tasks.setTcb, Tasks.note, Function.update, ho]
      · simp [effect, Tasks.setTcb, Tasks.note]
      · simp [events, concerns]
    · by_cases ho : t = old
      · subst ho
        simp only [effect, Tasks.setTcb, Tasks.note, Function.update_of_ne hn, Function.update_self, hp]
        refine ⟨trivial, trivial, trivial, fun hs => by simp [hs], fun hs => ?_, by
          simp [events, concerns, Ne.symm hn]⟩
        rcases hs with hs | hs <;> simp [TCB.active, hs]
      · simp [effect, Tasks.setTcb, Tasks.note, events, concerns, hp, hn, ho, Ne.symm hn]
  | launch u =>
    have hact : (q.tcbs u).active := ha
    refine .inr (.inr (.inr ?_))
    by_cases hu : t = u
    · subst hu
      have hwai := hact.stat_ne_wai
      simp [effect, Tasks.setTcb, events, hp, hwai, TCB.active]
    · simp [effect, Tasks.setTcb, events, hp, hu]
  | queueWakeup u | useWakeup u =>
    refine .inr (.inr (.inr ?_))
    by_cases hu : t = u
    · subst hu
      simp [effect, Tasks.setTcb, events, hp, TCB.active]
    · simp [effect, Tasks.setTcb, events, hp, hu]
  | tick n =>
    refine .inr (.inr (.inr ?_))
    by_cases hmem : t ∈ q.timer_queue <;> simp [effect, events, hp, hmem, TCB.active]
  | yield | stackWrite | note | overflow =>
    refine .inr (.inr (.inr ?_))
    simp [effect, events, concerns, Tasks.note, hp]

theorem WaitCall.result_eq {c : TCB} {d : Option Delivery} (hfits : w.fits c.wupcause d)
    (hinfo : ∀ d', d = some d' → c.winfo = d'.info w) : w.result c = w.answer c.wupcause d := by
  cases w with
  | slp | sem | dly =>
    obtain rfl : d = none := hfits
    rfl
  | flg flgid waiptn wfmode p_flgptn tmout =>
    rcases hfits with ⟨hok, flgptn, rfl⟩ | ⟨hne, rfl⟩
    · simp [WaitCall.result, WaitCall.answer, hok, hinfo _ rfl, Delivery.info, WaitInfo.flgptn]
    · simp [WaitCall.result, WaitCall.answer, hne]
  | mbx mbxid ppk_msg tmout =>
    rcases hfits with ⟨hok, msg, rfl⟩ | ⟨hne, rfl⟩
    · simp [WaitCall.result, WaitCall.answer, hok, hinfo _ rfl, Delivery.info, WaitInfo.msg]
    · simp [WaitCall.result, WaitCall.answer, hne]

theorem story_wake {cause : ER} (ha : (Move.wake t w cause).Allowed q) :
    Story ((Move.wake t w cause).effect q) t w (((Move.wake t w cause).events q).filter (concerns t)) := by
  have hfits : w.fits cause none := by
    cases w with
    | slp | dly | sem => rfl
    | flg | mbx =>
      refine .inr ⟨fun hok => ?_, rfl⟩
      have := ha.2.2.1 hok
      simp [WaitCall.kind] at this
  have hstory := Story.ended (q := (Move.wake t w cause).effect q) (t := t) none cause (q.tcbs t).winfo 0
    (by simp [Move.effect, Move.wakeEffect, TCB.active]) ha.2.1 hfits
    (by simp [Move.effect, Move.wakeEffect]) (by simp [Move.effect, Move.wakeEffect]) (by simp)
  simpa [Move.events, concerns, delivered, ha.2.1] using hstory

theorem story_give {d : Delivery} (ha : (Move.give t w d).Allowed q) :
    Story ((Move.give t w d).effect q) t w (((Move.give t w d).events q).filter (concerns t)) := by
  have hfits : w.fits .E_OK (some d) := by
    obtain ⟨-, -, hd⟩ := ha
    cases w <;> cases d <;> simp [WaitCall.fits] at hd ⊢
  have hstory := Story.ended (q := (Move.give t w d).effect q) (t := t) (some d) .E_OK (d.info w) 0
    (by simp [Move.effect, Move.wakeEffect, TCB.active]) ha.2.1 hfits
    (by simp [Move.effect, Move.wakeEffect])
    (by simp [Move.effect, Move.wakeEffect, Move.setInfo, Tasks.setTcb, Tasks.note]) (by simp)
  simpa [Move.events, concerns, delivered, ha.2.1] using hstory

theorem Move.story (h : Placed q) (ha : m.Allowed q) {mine : List Event} (hs : Story q t w mine) :
    Story (m.effect q) t w (mine ++ (m.events q).filter (concerns t)) := by
  cases hs with
  | waiting hwai hp =>
    rcases Move.inside h ha hp with ⟨cause, rfl⟩ | ⟨d, rfl⟩ | rfl | ⟨hp', -, -, hwai', -, hev⟩
    · exact story_wake ha
    · exact story_give ha
    · exact absurd hwai ha.1.stat_ne_wai
    · rcases hev with hev | ⟨hact, -⟩
      · rw [hev]
        exact .waiting (hwai' hwai) hp'
      · exact absurd hwai hact.stat_ne_wai
  | ended d cause info n hact hp hfits hcause hinfo hd =>
    rcases Move.inside h ha hp with ⟨cause, rfl⟩ | ⟨d, rfl⟩ | rfl | ⟨hp', hcause', hinfo', -, hact', hev⟩
    · exact absurd ha.1 hact.stat_ne_wai
    · exact absurd ha.1 hact.stat_ne_wai
    · have hresult := WaitCall.result_eq (c := q.tcbs t) (hcause ▸ hfits) fun d' hd' => hinfo.trans (hd d' hd')
      have hfinish : ((Move.finish t w).events q).filter (concerns t) = [.finish t w (w.answer cause d)] := by
        simp [Move.events, concerns, hresult, hcause]
      rw [hfinish, List.append_assoc, List.cons_append]
      exact .returned d cause info n [] hfits
    · rcases hev with hev | ⟨-, hev⟩
      · rw [hev, List.append_nil]
        exact .ended d cause info n (hact' hact) hp' hfits (hcause'.trans hcause) (hinfo'.trans hinfo) hd
      · rw [hev, List.append_assoc, List.cons_append, ← List.replicate_succ']
        exact .ended d cause info (n + 1) (hact' hact) hp' hfits (hcause'.trans hcause) (hinfo'.trans hinfo) hd
  | returned d cause info n later hfits =>
    simp only [List.append_assoc, List.cons_append]
    exact .returned d cause info n _ hfits

/-! ## Runs -/

/-- Every wait on record has such a story, and a task that waits is at the beginning of its last one. -/
structure StoriesOk (q : Tasks) : Prop where
  story : ∀ t w pre post, q.log = pre ++ .block t w :: post → Story q t w (post.filter (concerns t))
  begun : ∀ t, (q.tcbs t).tskstat = .WAI → ∃ w pre post, q.pending t = some (.wait w) ∧
    q.log = pre ++ .block t w :: post ∧ post.filter (concerns t) = []

theorem Move.events_block {pre post : List Event} (hev : m.events q = pre ++ .block t w :: post) :
    (∃ queue timed, m = .block t w queue timed) ∧ post = [] := by
  have hmem : Event.block t w ∈ m.events q := by simp [hev]
  cases m with
  | block u w' queue timed =>
    have hev' : [Event.block u w'] = pre ++ .block t w :: post := hev
    cases pre with
    | nil =>
      injection hev' with hhead hpost
      injection hhead with hu hw
      exact ⟨⟨queue, timed, by rw [hu, hw]⟩, hpost.symm⟩
    | cons e pre => simp at hev'
  | _ => simp [events] at hmem

theorem Move.stories (h : Placed q) (ha : m.Allowed q) (hs : StoriesOk q) : StoriesOk (m.effect q) := by
  refine ⟨fun t w pre post hlog => ?_, fun t hwai => ?_⟩
  · rw [Move.log_effect] at hlog
    have hbegin : ∀ pre', m.events q = pre' ++ .block t w :: post →
        Story (m.effect q) t w (post.filter (concerns t)) := by
      intro pre' hev
      obtain ⟨⟨queue, timed, rfl⟩, rfl⟩ := Move.events_block hev
      exact .waiting (by simp [effect]) (by simp [effect])
    -- the wait began with this move, or it was on record before
    rcases List.append_eq_append_iff.mp hlog with ⟨pre', -, hnew⟩ | ⟨old, hold, hnew⟩
    · exact hbegin pre' hnew
    · cases old with
      | nil => exact hbegin [] hnew.symm
      | cons e post' =>
        injection hnew with he hpost
        subst he
        have hpost' : post = post' ++ m.events q := hpost
        rw [hpost', List.filter_append]
        exact Move.story h ha (hs.story t w pre post' hold)
  · rw [Move.log_effect]
    rcases Move.waited ha hwai with ⟨w, queue, timed, rfl⟩ | ⟨hwai', -, hpending⟩
    · exact ⟨w, q.log, [], by simp [effect], rfl, rfl⟩
    · obtain ⟨w, pre, post, hp, hlog, hmine⟩ := hs.begun t hwai'
      have hsilent : (m.events q).filter (concerns t) = [] := by
        rcases Move.inside h ha hp with ⟨cause, rfl⟩ | ⟨d, rfl⟩ | rfl | ⟨-, -, -, -, -, hev | ⟨hact, -⟩⟩
        · simp [effect, wakeEffect] at hwai
        · simp [effect, wakeEffect] at hwai
        · exact absurd hwai' ha.1.stat_ne_wai
        · exact hev
        · exact absurd hwai' hact.stat_ne_wai
      refine ⟨w, pre, post ++ m.events q, hpending.trans hp, by rw [hlog, List.append_assoc, List.cons_append], ?_⟩
      rw [List.filter_append, hmine, hsilent, List.append_nil]

theorem Does.stories {P : Move → Prop} {q' : Tasks} (h : Ok q) (hd : Does P q q') (hs : StoriesOk q) :
    StoriesOk q' := by
  have hkeep := hd.keeps (I := fun q' => Ok q' ∧ StoriesOk q') ?_ ⟨h, hs⟩
  · exact hkeep.2
  · rintro m q' - ha ⟨hok, hstories⟩
    exact ⟨Move.ok hok ha, Move.stories hok.toPlaced ha hstories⟩

theorem start_stories (hk : tkmc_start b = some k) : StoriesOk k.toTasks := by
  obtain ⟨-, -, hstat, -, -, hlog, -⟩ := start_tasks hk
  refine ⟨fun t w pre post heq => ?_, fun t hwai => ?_⟩
  · have hmem : Event.block t w ∈ k.log := by rw [heq]; simp
    simp [hlog] at hmem
  · rw [hstat] at hwai
    split at hwai
    · exact absurd hwai (by simp)
    · split at hwai <;> exact absurd hwai (by simp)

theorem Reachable.stories (h : Reachable b k) : StoriesOk k.toTasks := by
  have hboth : Inv k ∧ StoriesOk k.toTasks := by
    refine Paths.Reach.invariant (I := fun k => Inv k ∧ StoriesOk k.toTasks) ?_ ?_ h
    · intro k hk
      exact ⟨start_inv hk, start_stories hk⟩
    · rintro k a k' ⟨hinv, hstories⟩ hstep
      have hok := step_ok hinv hstep
      exact ⟨hok.inv, hok.does.stories hinv.core.tasks hstories⟩
  exact hboth.2

/-- **Every wait ends once, and its call returns the reason.** -/
theorem wait_ends_once (h : Reachable b k) :
    .notWaiting ∉ k.alarms ∧
      (∀ t, (k.tcbs t).tskstat = .WAI → ∃ w pre post, k.pending t = some (.wait w) ∧
        k.log = pre ++ .block t w :: post ∧ post.filter (concerns t) = []) ∧
      ∀ t w pre post, k.log = pre ++ .block t w :: post → Story k.toTasks t w (post.filter (concerns t)) := by
  refine ⟨fun hmem => ?_, h.stories.begun, h.stories.story⟩
  exact absurd (h.inv.core.tasks.alarms _ hmem) (by simp)

/-- A task that waits for a flag, and a handler that sets it. -/
def waitRun : List Act :=
  [.call (.cre_flg (some { exinf := 0, flgatr := 0, iflgptn := 1 })) [],
    .call (.wait (.flg 1 3 0 0x80020000 100)) [], .software_interrupt 0, .external_enter,
    .call (.set_flg 1 2) [], .external_leave 0, .resume]

theorem wait_ends_once_waitRun : ∃ k, sampleRun waitRun = some k ∧
    Story k.toTasks 0 (.flg 1 3 0 0x80020000 100)
      [.deliver 0 (.pattern 3), .complete 0 (some (.wait (.flg 1 3 0 0x80020000 100))) .E_OK
        (.event_flag 3 0 3), .dispatch 0,
        .finish 0 (.flg 1 3 0 0x80020000 100) { ercd := .E_OK, flgptn := some 3 }] := by
  obtain ⟨k, hk, hlog⟩ := sampleRun_of_any waitRun (fun k =>
    k.log = k.log.take 3 ++ .block 0 (.flg 1 3 0 0x80020000 100) :: k.log.drop 4 ∧
      (k.log.drop 4).filter (concerns 0) = [.deliver 0 (.pattern 3),
        .complete 0 (some (.wait (.flg 1 3 0 0x80020000 100))) .E_OK (.event_flag 3 0 3), .dispatch 0,
        .finish 0 (.flg 1 3 0 0x80020000 100) { ercd := .E_OK, flgptn := some 3 }]) (by decide +kernel)
  refine ⟨k, hk, ?_⟩
  rw [← hlog.2]
  exact (wait_ends_once (sampleRun_reachable hk)).2.2 0 _ _ _ hlog.1

end TsukumoCore
