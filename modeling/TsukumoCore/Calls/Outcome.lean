import TsukumoCore.Calls.Sched

/-!
# What a call leaves behind

`Outcome` is what holds of every call, from the state before it to the state in which its caller goes on
or waits.
-/

namespace TsukumoCore

/-! ## The balances -/

/-- The count of every semaphore is what the log says. -/
def UnitsOk (q : Tasks) (x : Objects) : Prop :=
  ∀ s, x.Live (.sem s) → (x.semcbs s).semcnt = units s q.log

/-- Every message is in its mailbox as many times as the log says. -/
def MailOk (q : Tasks) (x : Objects) : Prop :=
  ∀ m msg, x.Live (.mbx m) → ((x.mbxcbs m).mbx_queue.count msg : Int) = mail m msg q.log

/-- The event changes no balance. -/
def SilentEvent (ev : Event) : Prop :=
  (∀ s, Ledger.Silent (createdSem s) (unitsDelta s) ev) ∧
    ∀ m msg, Ledger.Silent (createdMbx m) (mailDelta m msg) ev

theorem silent_of_refused (c : Call) {r : Ret} (hr : r.ercd ≠ .E_OK) : SilentEvent (.ret c r) := by
  constructor
  · intro s
    cases c with
    | cre_sem pk => cases pk <;> simp [Ledger.Silent, createdSem, unitsDelta, signalled, granted, hr]
    | wait w => cases w <;> simp [Ledger.Silent, createdSem, unitsDelta, signalled, granted, hr]
    | _ => simp [Ledger.Silent, createdSem, unitsDelta, signalled, granted, hr]
  · intro m msg
    cases c with
    | cre_mbx pk => cases pk <;> simp [Ledger.Silent, createdMbx, mailDelta, sent, received, hr]
    | wait w => cases w <;> simp [Ledger.Silent, createdMbx, mailDelta, sent, received, hr]
    | _ => simp [Ledger.Silent, createdMbx, mailDelta, sent, received, hr]

theorem silent_wake {q : Tasks} {t : TskId} {w : WaitCall} {cause : ER}
    (ha : (Move.wake t w cause).Allowed q) (m : MbxId) (msg : UINT) :
    ∀ ev ∈ (Move.wake t w cause).events q, Ledger.Silent (createdMbx m) (mailDelta m msg) ev := by
  intro ev hev
  simp only [Move.events, ha.2.1, List.mem_cons, List.not_mem_nil, or_false] at hev
  rcases hev with rfl | rfl
  · refine ⟨rfl, ?_⟩
    cases w with
    | mbx =>
      have hc : cause ≠ .E_OK := by
        intro hc
        have := ha.2.2.1 hc
        simp [WaitCall.kind] at this
      simp [mailDelta, sent, received, hc]
    | _ => rfl
  · exact ⟨rfl, rfl⟩

/-! ## The moves of a call -/

/-- The ticks of a wait with the limit `ms` that begins now: those the limit asks for and those that
passed and are not yet served. -/
def waitTicks (k : Kernel) (times : List Nat) (ms : Nat) : Nat :=
  tkmc_ms_to_ticks ms + (pass_elapsed_periods k.s_mtimecmp times).2

/-- The waits of the kind that the call can end with `E_OK`. -/
def Call.wakes : Call → TTW → Prop
  | .wup_tsk _, .SLP | .sig_sem .., .SEM | .rel_wai _, .SEM => True
  | _, _ => False

def callMoves (e : Entries) (k : Kernel) (c : Call) (times : List Nat) : Move → Prop
  | .wake _ w cause => cause ≠ .E_TMOUT ∧ (cause = .E_OK → c.wakes w.kind)
  | .block t w _ timed =>
    k.current = some t ∧ t ≠ idl_tsk ∧ c = .wait w ∧
      timed = w.limit.map fun ms => waitTicks k times ms % 2 ^ 32
  | .start t frame =>
    ∃ tskid stacd, c = .sta_tsk tskid stacd ∧ tableEntry CFN_MAX_TSKID tskid = some t ∧
      frame = initialFrame e.tk_ext_tsk (k.tcbs t).task (k.tcbs t).exinf stacd
  | .exit t | .exitDelete t => k.current = some t ∧ t ≠ idl_tsk
  | .park t => k.current = some t
  | .note c' _ => c' = c
  | .overflow => ∃ w ms, c = .wait w ∧ w.limit = some ms ∧ 2 ^ 32 ≤ waitTicks k times ms
  | .create _ pk _ => c = .cre_tsk (some pk)
  | .queueWakeup _ => ∃ tskid, c = .wup_tsk tskid
  | .useWakeup _ => ∃ tmout, c = .wait (.slp tmout)
  | .give .. => True
  | .yield _ | .dispatch .. | .launch _ | .tick _ | .finish .. | .unpark _ | .stackWrite .. => False

/-! ## The outcome -/

structure Outcome (e : Entries) (k : Kernel) (c : Call) (times : List Nat) (k' : Kernel) : Prop where
  core : Core k'.toTasks k'.toObjects
  served : (∀ o, Served k.toTasks k.toObjects o) → ∀ o, Served k'.toTasks k'.toObjects o
  sched : SchedOk k'.toTasks k'.toMachine
  does : Does (callMoves e k c times) k.toTasks k'.toTasks
  unitsOk : UnitsOk k.toTasks k.toObjects → UnitsOk k'.toTasks k'.toObjects
  mailOk : MailOk k.toTasks k.toObjects → MailOk k'.toTasks k'.toObjects
  machine : ∃ next msip, k'.toMachine = { k.toMachine with next := next, msip := msip }

/-- The state a call leaves before its return is put on record. -/
structure Returns (e : Entries) (k : Kernel) (c : Call) (times : List Nat) (r : Ret) (k' : Kernel) :
    Prop where
  core : Core k'.toTasks k'.toObjects
  served : (∀ o, Served k.toTasks k.toObjects o) → ∀ o, Served k'.toTasks k'.toObjects o
  sched : SchedOk k'.toTasks k'.toMachine
  does : Does (callMoves e k c times) k.toTasks k'.toTasks
  unitsOk : UnitsOk k.toTasks k.toObjects → ∀ s, k'.Live (.sem s) →
    (k'.semcbs s).semcnt =
      Ledger.step (createdSem s) (unitsDelta s) (units s k'.log) (.ret c r)
  mailOk : MailOk k.toTasks k.toObjects → ∀ m msg, k'.Live (.mbx m) →
    ((k'.mbxcbs m).mbx_queue.count msg : Int) =
      Ledger.step (createdMbx m) (mailDelta m msg) (mail m msg k'.log) (.ret c r)
  machine : ∃ next msip, k'.toMachine = { k.toMachine with next := next, msip := msip }

variable {e : Entries} {k k' : Kernel} {c : Call} {times : List Nat} {r : Ret}

theorem Returns.outcome (h : Returns e k c times r k') :
    Outcome e k c times (k'.tasks (·.note (.ret c r))) := by
  have hnote : Does (· = .note c r) k'.toTasks (k'.toTasks.note (.ret c r)) :=
    .one (m := .note c r) rfl trivial
  have hkept := h.core.does hnote (by rintro m rfl; rfl)
  refine ⟨hkept.1, fun hs o => hkept.2 o (h.served hs o), ?_, ?_, ?_, ?_, h.machine⟩
  · exact h.sched.quiet ⟨fun _ => Iff.rfl, id⟩ rfl
  · exact h.does.trans (hnote.mono (by rintro m rfl; rfl))
  · intro hu s hlive
    have := h.unitsOk hu s hlive
    simpa [Kernel.tasks, Tasks.note, units, Ledger.balance_note] using this
  · intro hm m msg hlive
    have := h.mailOk hm m msg hlive
    simpa [Kernel.tasks, Tasks.note, mail, Ledger.balance_note] using this

theorem step_silent {reset : Event → Option Int} {delta : Event → Int} {ev : Event} {n : Int}
    (h : Ledger.Silent reset delta ev) : Ledger.step reset delta n ev = n := by
  simp [Ledger.step, h.1, h.2]

/-! ## Interrupts are off inside a call -/

@[simp] theorem DI_toTasks (k : Kernel) : k.DI.toTasks = k.toTasks := rfl
@[simp] theorem DI_toObjects (k : Kernel) : k.DI.toObjects = k.toObjects := rfl
@[simp] theorem EI_toTasks (k : Kernel) (b : Bool) : (k.EI b).toTasks = k.toTasks := rfl
@[simp] theorem EI_toObjects (k : Kernel) (b : Bool) : (k.EI b).toObjects = k.toObjects := rfl

theorem DI_EI (k : Kernel) : k.DI.EI k.mie = k := by simp [Kernel.DI, Kernel.EI]

theorem EI_DI (q : Tasks) (k : Kernel) :
    ({ k.DI with toTasks := q } : Kernel).EI k.mie = { k with toTasks := q } := by
  unfold Kernel.DI Kernel.EI
  simp

@[simp] theorem request_switch_toTasks (k : Kernel) : (request_switch k).toTasks = k.toTasks := by
  unfold request_switch; dsimp only; split <;> rfl

@[simp] theorem request_switch_toObjects (k : Kernel) : (request_switch k).toObjects = k.toObjects := by
  unfold request_switch; dsimp only; split <;> rfl

theorem request_switch_toMachine (k : Kernel) :
    (request_switch k).toMachine = k.toMachine.request k.toTasks := by
  unfold request_switch Machine.request
  dsimp only
  split
  · rename_i hne; simp [Kernel.dispatch, hne]
  · rename_i hne; simp_all

theorem dispatch_if_needed_eq (h : k.current ≠ none) : dispatch_if_needed k = request_switch k := by
  simp [dispatch_if_needed, h]

theorem request_EI (hm : k'.toMachine = k.DI.toMachine) :
    ((request_switch k').EI k.mie).toMachine = k.toMachine.request k'.toTasks := by
  have hr := request_switch_toMachine k'
  rw [hm] at hr
  have : ((request_switch k').EI k.mie).toMachine =
      { (request_switch k').toMachine with mie := (request_switch k').toMachine.mie || k.mie } := rfl
  rw [this, hr]
  simp only [Machine.request, Kernel.DI, Bool.false_or]
  rfl

theorem away_EI (hm : k'.toMachine = k.DI.toMachine) :
    ((switch_away k').EI k.mie).toMachine = k.toMachine.away k'.toTasks := by
  have hcur : ((switch_away k').EI k.mie).toMachine =
      { k'.toMachine with
        next := tkmc_get_highest_priority_task k'.toTasks, msip := true, mie := k'.toMachine.mie || k.mie } :=
    rfl
  rw [hcur, hm]
  simp [Machine.away, Kernel.DI]

theorem EI_machine (hm : k'.toMachine = k.DI.toMachine) : (k'.EI k.mie).toMachine = k.toMachine := by
  have : (k'.EI k.mie).toMachine = { k'.toMachine with mie := k'.toMachine.mie || k.mie } := rfl
  rw [this, hm]
  simp [Kernel.DI]

/-- What is shared by the states in which a call can be made. -/
structure Good (k : Kernel) : Prop where
  core : Core k.toTasks k.toObjects
  sched : SchedOk k.toTasks k.toMachine

theorem Returns.refused (h : Good k) (hr : SilentEvent (.ret c r)) : Returns e k c times r k := by
  refine ⟨h.core, id, h.sched, .refl _, ?_, ?_, ⟨k.next, k.msip, rfl⟩⟩
  · intro hu s hlive; rw [step_silent (hr.1 s)]; exact hu s hlive
  · intro hm m msg hlive; rw [step_silent (hr.2 m msg)]; exact hm m msg hlive

theorem Returns.moved {P : Move → Prop} (h : Good k) (hd : Does P k.toTasks k'.toTasks)
    (hobj : k'.toObjects = k.toObjects) (hsched : SchedOk k'.toTasks k'.toMachine)
    (hP : ∀ m, P m → callMoves e k c times m ∧ m.touches = none)
    (hsilent : ∀ m q, P m → m.Allowed q → ∀ ev ∈ m.events q, SilentEvent ev)
    (hr : SilentEvent (.ret c r))
    (hm : ∃ next msip, k'.toMachine = { k.toMachine with next := next, msip := msip }) :
    Returns e k c times r k' := by
  have hkept := h.core.does hd fun m hm => (hP m hm).2
  refine ⟨hobj ▸ hkept.1, fun hs o => hobj ▸ hkept.2 o (hs o), hsched, hd.mono fun m hm => (hP m hm).1, ?_, ?_, hm⟩
  · intro hu s hlive
    have hunits : units s k'.log = units s k.log :=
      hd.balance fun m q hm ha ev hev => (hsilent m q hm ha ev hev).1 s
    rw [step_silent (hr.1 s), hunits]
    simp only [hobj] at hlive ⊢
    exact hu s hlive
  · intro hm' m msg hlive
    have hmail : mail m msg k'.log = mail m msg k.log :=
      hd.balance fun m' q hm ha ev hev => (hsilent m' q hm ha ev hev).2 m msg
    rw [step_silent (hr.2 m msg), hmail]
    simp only [hobj] at hlive ⊢
    exact hm' m msg hlive

theorem Returns.one {m : Move} (h : Good k) (ha : m.Allowed k.toTasks) (hcall : callMoves e k c times m)
    (htouch : m.touches = none) (hsilent : ∀ q, ∀ ev ∈ m.events q, SilentEvent ev)
    (htasks : k'.toTasks = m.effect k.toTasks) (hobj : k'.toObjects = k.toObjects)
    (hsched : SchedOk k'.toTasks k'.toMachine) (hr : SilentEvent (.ret c r))
    (hm : ∃ next msip, k'.toMachine = { k.toMachine with next := next, msip := msip }) :
    Returns e k c times r k' := by
  have hd : Does (· = m) k.toTasks k'.toTasks := htasks ▸ .one (P := (· = m)) rfl ha
  refine .moved h hd hobj hsched ?_ ?_ hr hm
  · rintro m' rfl; exact ⟨hcall, htouch⟩
  · rintro m' q rfl -; exact hsilent q

theorem Returns.plain {m : Move} (h : Good k) (ha : m.Allowed k.toTasks)
    (hcall : callMoves e k c times m) (htouch : m.touches = none) (hswitch : m.switches = false)
    (hready : (m.effect k.toTasks).ready_queue = k.ready_queue)
    (hsilent : ∀ q, ∀ ev ∈ m.events q, SilentEvent ev) (hr : SilentEvent (.ret c r))
    (htasks : k'.toTasks = m.effect k.toTasks) (hobj : k'.toObjects = k.toObjects)
    (hm : k'.toMachine = k.DI.toMachine) : Returns e k c times r (k'.EI k.mie) := by
  have hmachine := EI_machine hm
  refine .one h ha hcall htouch hsilent htasks hobj ?_ hr ⟨k.next, k.msip, hmachine⟩
  rw [hmachine, EI_toTasks, htasks]
  exact h.sched.quiet (Move.sameRun h.core.tasks.toPlaced ha hswitch) hready

theorem Returns.requested {m : Move} (h : Good k) (ha : m.Allowed k.toTasks)
    (hcall : callMoves e k c times m) (htouch : m.touches = none) (hswitch : m.switches = false)
    (hsilent : ∀ q, ∀ ev ∈ m.events q, SilentEvent ev) (hr : SilentEvent (.ret c r))
    (htasks : k'.toTasks = m.effect k.toTasks) (hobj : k'.toObjects = k.toObjects)
    (hm : k'.toMachine = k.DI.toMachine) : Returns e k c times r ((request_switch k').EI k.mie) := by
  have hmachine := request_EI hm
  refine .one h ha hcall htouch hsilent (by simpa using htasks) (by simpa using hobj) ?_ hr
    ⟨_, _, hmachine⟩
  rw [hmachine]
  simpa [htasks] using h.sched.request (Move.sameRun h.core.tasks.toPlaced ha hswitch)

theorem SameButCnt.live {x x' : Objects} (h : SameButCnt x x') (o : Obj) : x'.Live o ↔ x.Live o := by
  have hrest := h.rest
  cases o with
  | sem s =>
    obtain ⟨n, hn⟩ := h.sem s
    simp [Objects.Live, Objects.cb, CB.id, hn]
  | flg f => rw [← hrest]; exact Iff.rfl
  | mbx m => rw [← hrest]; exact Iff.rfl

theorem Returns.ofRequest {P : Move → Prop} (h : Good k) (hd : Does P k.toTasks k'.toTasks)
    (hP : ∀ m, P m → callMoves e k c times m ∧ m.switches = false)
    (hm : k'.toMachine = k.DI.toMachine) (hcore : Core k'.toTasks k'.toObjects)
    (hserved : (∀ o, Served k.toTasks k.toObjects o) → ∀ o, Served k'.toTasks k'.toObjects o)
    (hunits : UnitsOk k.toTasks k.toObjects → ∀ s, k'.Live (.sem s) → (k'.semcbs s).semcnt =
      Ledger.step (createdSem s) (unitsDelta s) (units s k'.log) (.ret c r))
    (hmail : MailOk k.toTasks k.toObjects → ∀ m msg, k'.Live (.mbx m) →
      ((k'.mbxcbs m).mbx_queue.count msg : Int) =
        Ledger.step (createdMbx m) (mailDelta m msg) (mail m msg k'.log) (.ret c r)) :
    Returns e k c times r ((request_switch k').EI k.mie) := by
  have hrun := Does.sameRun h.core.tasks hd fun m hm => (hP m hm).2
  have hmachine := request_EI hm
  refine ⟨by simpa using hcore, by simpa using hserved, ?_, ?_, ?_, ?_, ⟨_, _, hmachine⟩⟩
  · rw [hmachine]
    simpa using h.sched.request hrun
  · simpa using hd.mono fun m hm => (hP m hm).1
  · simpa using hunits
  · simpa using hmail

theorem Returns.ofPlain {x : Objects} (h : Good k) (hcore : Core k.toTasks x)
    (htasks : k'.toTasks = k.toTasks) (hobj : k'.toObjects = x) (hm : k'.toMachine = k.DI.toMachine)
    (hserved : (∀ o, Served k.toTasks k.toObjects o) → ∀ o, Served k.toTasks x o)
    (hunits : UnitsOk k.toTasks k.toObjects → ∀ s, x.Live (.sem s) → (x.semcbs s).semcnt =
      Ledger.step (createdSem s) (unitsDelta s) (units s k.log) (.ret c r))
    (hmail : MailOk k.toTasks k.toObjects → ∀ m msg, x.Live (.mbx m) →
      ((x.mbxcbs m).mbx_queue.count msg : Int) =
        Ledger.step (createdMbx m) (mailDelta m msg) (mail m msg k.log) (.ret c r)) :
    Returns e k c times r (k'.EI k.mie) := by
  have hmachine := EI_machine hm
  subst hobj
  refine ⟨htasks ▸ hcore, htasks ▸ hserved, ?_, ?_, htasks ▸ hunits, htasks ▸ hmail,
    ⟨k.next, k.msip, hmachine⟩⟩
  · rw [hmachine, EI_toTasks, htasks]; exact h.sched
  · rw [EI_toTasks, htasks]; exact .refl _

theorem Returns.woke {P : Move → Prop} (h : Good k) (hends : Ends P k.DI k')
    (hP : ∀ m, P m → callMoves e k c times m ∧ ∃ t w cause, m = .wake t w cause)
    (hserved : (∀ o, Served k.toTasks k.toObjects o) → ∀ o, Served k'.toTasks k'.toObjects o)
    (hr : SilentEvent (.ret c r)) : Returns e k c times r ((request_switch k').EI k.mie) := by
  have hmbx : k'.mbxcbs = k.mbxcbs := by
    have hrest := congrArg Objects.mbxcbs hends.objects.rest
    exact hrest
  refine .ofRequest h hends.does ?_ hends.machine hends.core hserved ?_ ?_
  · intro m hm
    obtain ⟨hc, t, w, cause, rfl⟩ := hP m hm
    exact ⟨hc, rfl⟩
  · intro hu s hlive
    rw [step_silent (hr.1 s)]
    have := hu s ((hends.objects.live _).mp hlive)
    have hsame := hends.balance s
    simp only [DI_toTasks, DI_toObjects] at hsame
    omega
  · intro hm m msg hlive
    have hmail : mail m msg k'.log = mail m msg k.log := by
      refine Does.balance hends.does fun m' q hm' ha ev hev => ?_
      obtain ⟨-, t, w, cause, rfl⟩ := hP m' hm'
      exact silent_wake ha m msg ev hev
    rw [step_silent (hr.2 m msg), hmail, hmbx]
    exact hm m msg ((hends.objects.live _).mp hlive)

end TsukumoCore
