import TsukumoCore.System.Boot

/-! # Mailboxes over a run -/

namespace TsukumoCore

variable {b : Boot} {e : Entries} {k k' : Kernel} {m : MbxId} {msg : UINT}

/-- The step sends no message that is still in a queue. -/
def SendsFresh (k : Kernel) : Act → Prop
  | .call (.snd_mbx _ pk_msg) _ => ∀ m, pk_msg ∉ (k.mbxcbs m).mbx_queue
  | _ => True

/-- One step of an application that keeps to that. -/
def FreshSteps (e : Entries) (k : Kernel) (a : Act) (k' : Kernel) : Prop := Steps e k a k' ∧ SendsFresh k a

theorem Reachable.queued (h : Reachable b k) (hlive : noexs (k.mbxcbs m).mbxid = false) {pre post : List Event}
    {pk : T_CMBX} {r : Ret} (hlog : k.log = pre ++ .ret (.cre_mbx (some pk)) r :: post) (hok : r.ercd = .E_OK)
    (hid : r.id = m + 1) (hsince : ∀ ev ∈ post, createdMbx m ev = none) (msg : UINT) :
    ((k.mbxcbs m).mbx_queue.count msg : Int) =
      (post.map (sent m msg)).sum - (post.map (received m msg)).sum := by
  have hmail : mail m msg k.log =
      mail m msg (pre ++ [.ret (.cre_mbx (some pk)) r]) + (post.map (mailDelta m msg)).sum := by
    rw [hlog, ← List.singleton_append, ← List.append_assoc]
    exact Ledger.balance_since hsince
  have hstart : mail m msg (pre ++ [.ret (.cre_mbx (some pk)) r]) = 0 := by
    unfold mail
    rw [Ledger.balance_note, Ledger.step, createdMbx_self pk hok hid, Option.getD_some]
  have hsum : (post.map (mailDelta m msg)).sum = (post.map (sent m msg)).sum - (post.map (received m msg)).sum :=
    Ledger.sum_sub _ _ post
  rw [h.inv.mailOk m msg hlive, hmail, hstart, hsum]
  omega

theorem Reachable.no_waiter (h : Reachable b k) (hlive : noexs (k.mbxcbs m).mbxid = false) :
    k.wait_queue (.mbx m) = [] ∨ (k.mbxcbs m).mbx_queue = [] := by
  by_cases hqueue : (k.mbxcbs m).mbx_queue = []
  · exact .inr hqueue
  · exact .inl (no_waiter_of_message (h.inv.served _) hlive hqueue)

/-! ## One message -/

theorem snd_log (h : Good k) (mbxid : Int) (msg : UINT) :
    ((tk_snd_mbx k mbxid msg).1 = .E_OK → ∃ m, tableEntry CFN_MAX_MBXID mbxid = some m ∧ k.Live (.mbx m)) ∧
      ∃ events, (tk_snd_mbx k mbxid msg).2.log = k.log ++ events ∧ ∀ ev ∈ events, ∀ c r, ev ≠ .ret c r := by
  have hnone : ∃ events, k.log = k.log ++ events ∧ ∀ ev ∈ events, ∀ c r, ev ≠ Event.ret c r :=
    ⟨[], by simp, by simp⟩
  unfold tk_snd_mbx
  split
  · exact ⟨by simp, hnone⟩
  rename_i m he
  split
  · exact ⟨by simp, hnone⟩
  dsimp only
  split
  · exact ⟨by simp, hnone⟩
  rename_i hexs
  split
  · exact ⟨by simp, hnone⟩
  have hlive : k.Live (.mbx m) := by simpa [Objects.Live, Objects.cb, CB.id] using hexs
  have hDI : Core k.DI.toTasks k.DI.toObjects := h.core
  cases hq : k.DI.wait_queue (.mbx m) with
  | nil =>
    rw [pop_none hq]
    exact ⟨fun _ => ⟨m, he, hlive⟩, hnone⟩
  | cons t rest =>
    rw [pop_some hDI hq]
    obtain ⟨mbxid', ppk_msg, tmout, -, -, hk⟩ := handed_eq hDI hq msg
    have hne : (k.DI.tasks (Move.effect · (.give t (.mbx mbxid' ppk_msg tmout) (.message msg)))).current ≠
        none := h.current_ne
    dsimp only
    rw [hk, dispatch_if_needed_eq hne, EI_toTasks, request_switch_toTasks]
    refine ⟨fun _ => ⟨m, he, hlive⟩, _, Move.log_effect _ _, ?_⟩
    simp [Move.events]

theorem sent_of_not_ret {events : List Event} (h : ∀ ev ∈ events, ∀ c r, ev ≠ .ret c r) :
    (events.map (sent m msg)).sum = 0 := by
  induction events with
  | nil => rfl
  | cons ev rest ih =>
    have hev : sent m msg ev = 0 := by
      cases ev with
      | ret c r => exact absurd rfl (h _ List.mem_cons_self c r)
      | _ => rfl
    rw [List.map_cons, List.sum_cons, hev, ih fun ev' hev' => h ev' (List.mem_cons_of_mem _ hev')]
    rfl

theorem send_step (h : Inv k) {mbxid : Int} {times : List Nat}
    (hstep : step e k (.call (.snd_mbx mbxid msg) times) = some k') (hok : (tk_snd_mbx k mbxid msg).1 = .E_OK)
    (he : tableEntry CFN_MAX_MBXID mbxid = some m) :
    k.Live (.mbx m) ∧ ∃ events, k'.log = k.log ++ events ∧ (events.map (sent m msg)).sum = 1 := by
  obtain ⟨hlive, events, hlog, hret⟩ := snd_log h.toGood mbxid msg
  obtain ⟨m', he', hlive⟩ := hlive hok
  obtain rfl : m' = m := Option.some.inj (he'.symm.trans he)
  simp only [step, exec, Option.ite_none_right_eq_some, Option.map_some, Option.some.injEq] at hstep
  obtain ⟨-, rfl⟩ := hstep
  refine ⟨hlive, events ++ [.ret (.snd_mbx mbxid msg) { ercd := .E_OK }], ?_, ?_⟩
  · rw [hok]
    simp only [leave_call, Kernel.tasks, Tasks.note]
    rw [hlog, List.append_assoc]
  · rw [List.map_append, List.sum_append, sent_of_not_ret hret]
    simp [sent, he]

/-- The states that an application which keeps to the rule reaches. -/
def FreshReachable (b : Boot) : Kernel → Prop :=
  Paths.Reach (fun k => tkmc_start b = some k) (FreshSteps b.entries)

theorem FreshReachable.reachable (h : FreshReachable b k) : Reachable b k :=
  Paths.Reach.mono (fun _ _ _ hr => hr.1) h

/-- In `k`, `msg` was sent to `m` with success. Since then `post` is on record, in which it was not sent to
`m` again, and `m` still exists in `now`. -/
structure SentSince (b : Boot) (k : Kernel) (m : MbxId) (msg : UINT) (post : List Event) (now : Kernel) :
    Prop where
  send : ∃ mbxid times k' as later, FreshSteps b.entries k (.call (.snd_mbx mbxid msg) times) k' ∧
    (tk_snd_mbx k mbxid msg).1 = .E_OK ∧ tableEntry CFN_MAX_MBXID mbxid = some m ∧
    Paths.Path (FreshSteps b.entries) k' as now ∧ now.log = k'.log ++ later ∧
    ∀ ev ∈ later, sent m msg ev = 0
  log : now.log = k.log ++ post
  same : ∀ ev ∈ post, createdMbx m ev = none
  live : noexs (now.mbxcbs m).mbxid = false

theorem SentSince.once {post : List Event} (hs : SentSince b k m msg post k') (h : FreshReachable b k) :
    (post.map (received m msg)).sum + (k'.mbxcbs m).mbx_queue.count msg = 1 := by
  obtain ⟨mbxid, times, k1, as, later, hsend, hok, he, hrun, hlater, hagain⟩ := hs.send
  obtain ⟨hlive₀, events, hlog, hone⟩ := send_step h.reachable.inv hsend.1 hok he
  have hreach : Reachable b k' := by
    have hk1 : Reachable b k1 := Paths.Reach.step h.reachable hsend.1
    exact Paths.Reach.path hk1 (hrun.mono fun _ _ _ hr => hr.1)
  have hcut : post = events ++ later := by
    have hpost := hs.log
    rw [hlater, hlog, List.append_assoc] at hpost
    exact (List.append_cancel_left hpost).symm
  have hsent : (post.map (sent m msg)).sum = 1 := by
    have hzero : (later.map (sent m msg)).sum = 0 := by
      apply List.sum_eq_zero
      intro n hn
      obtain ⟨ev, hev, rfl⟩ := List.mem_map.mp hn
      exact hagain ev hev
    rw [hcut, List.map_append, List.sum_append, hone, hzero]
    rfl
  have hmail : mail m msg k'.log = mail m msg k.log + (post.map (mailDelta m msg)).sum := by
    rw [hs.log]
    exact Ledger.balance_since hs.same
  have hsum : (post.map (mailDelta m msg)).sum = (post.map (sent m msg)).sum - (post.map (received m msg)).sum :=
    Ledger.sum_sub _ _ post
  -- the message was in no queue when it was sent
  have hbefore : mail m msg k.log = 0 := by
    rw [← h.reachable.inv.mailOk m msg hlive₀]
    simpa [List.count_eq_zero] using hsend.2 m
  have hafter := hreach.inv.mailOk m msg hs.live
  omega

/-- **Messages are delivered exactly once**, since their mailbox was created and as long as no message is
sent that is still in a queue. -/
theorem delivered_exactly_once (h : FreshReachable b k) :
    (∀ m : MbxId, noexs (k.mbxcbs m).mbxid = false →
      k.wait_queue (.mbx m) = [] ∨ (k.mbxcbs m).mbx_queue = []) ∧
    (∀ (m : MbxId) (pre post : List Event) (pk : T_CMBX) (r : Ret), noexs (k.mbxcbs m).mbxid = false →
      k.log = pre ++ .ret (.cre_mbx (some pk)) r :: post → r.ercd = .E_OK → r.id = m + 1 →
      (∀ ev ∈ post, createdMbx m ev = none) → ∀ msg, ((k.mbxcbs m).mbx_queue.count msg : Int) =
        (post.map (sent m msg)).sum - (post.map (received m msg)).sum) ∧
    ∀ m msg post now, SentSince b k m msg post now →
      (post.map (received m msg)).sum + (now.mbxcbs m).mbx_queue.count msg = 1 := by
  refine ⟨fun m hlive => h.reachable.no_waiter hlive, ?_, ?_⟩
  · intro m pre post pk r hlive hlog hok hid hsince msg
    exact h.reachable.queued hlive hlog hok hid hsince msg
  · intro m msg post now hs
    exact hs.once h

def sampleSend : Event := .ret (.snd_mbx 1 0x80020000) { ercd := .E_OK }

def sampleReceive : Event :=
  .ret (.wait (.mbx 1 0x80030000 TMO_POL)) { ercd := .E_OK, msg := some 0x80020000 }

/-- A message is sent and then received. -/
theorem delivered_exactly_once_sample :
    ∃ k now post, sampleRun [.call (.cre_mbx (some { exinf := 0, mbxatr := 0 })) []] = some k ∧
      SentSince sampleBoot k 0 0x80020000 post now ∧
      (post.map (received 0 0x80020000)).sum + (now.mbxcbs 0).mbx_queue.count 0x80020000 = 1 := by
  obtain ⟨k, hk, hsend⟩ := sampleRun_of_any [.call (.cre_mbx (some { exinf := 0, mbxatr := 0 })) []] (fun k =>
    (tk_snd_mbx k 1 0x80020000).1 = .E_OK ∧ (∀ m, (0x80020000 : UINT) ∉ (k.mbxcbs m).mbx_queue) ∧
    (step sampleBoot.entries k (.call (.snd_mbx 1 0x80020000) [])).any (fun k' =>
      (step sampleBoot.entries k' (.call (.wait (.mbx 1 0x80030000 TMO_POL)) [])).any fun now =>
        decide (now.log = k.log ++ [sampleSend, sampleReceive] ∧ now.log = k'.log ++ [sampleReceive] ∧
          noexs (now.mbxcbs 0).mbxid = false)) = true) (by decide +kernel)
  obtain ⟨hok, hfresh, hsteps⟩ := hsend
  obtain ⟨k', hk', hrest⟩ := (Option.any_eq_true _ _).mp hsteps
  obtain ⟨now, hnow, hfacts⟩ := (Option.any_eq_true _ _).mp hrest
  obtain ⟨hpost, hlater, hlive⟩ := of_decide_eq_true hfacts
  have hsince : SentSince sampleBoot k 0 0x80020000 _ now :=
    ⟨⟨1, [], k', _, _, ⟨hk', hfresh⟩, hok, by decide, .single ⟨hnow, trivial⟩, hlater, by decide⟩, hpost,
      by decide, hlive⟩
  have hreach : FreshReachable sampleBoot k := sampleRun_guarded hk (by simp [SendsFresh])
  exact ⟨k, now, _, hk, hsince, (delivered_exactly_once hreach).2.2 _ _ _ _ hsince⟩

end TsukumoCore
