import TsukumoCore.Kernel.System
import TsukumoCore.Lib.Path

/-!
# What can happen to a task

The moves of the task tables: each has a condition and an effect. `Tasks/Invariant.lean` shows what
every move keeps, and `Calls/` that each call, the timer handler and `schedule` are paths of moves. So
what holds of one task over a run is shown for each move, not for each call.
-/

namespace TsukumoCore

/-- On a ready queue. -/
def TCB.active (c : TCB) : Prop := c.tskstat = .RDY ∨ c.tskstat = .RUN

instance (c : TCB) : Decidable c.active := by unfold TCB.active; infer_instance

/-- The object whose queue a suspended call waits on. -/
def waitsOn : Option Pending → Option Obj
  | some (.wait w) => w.obj
  | _ => none

/-- What a wait call writes to the union before it waits. -/
def WaitCall.info (w : WaitCall) (old : WaitInfo) : WaitInfo :=
  match w with
  | .slp _ | .dly _ => old
  | .sem semid cnt _ =>
    match tableEntry CFN_MAX_SEMID semid with
    | some s => .semaphore cnt s
    | none => old
  | .flg _ waiptn wfmode _ _ => .event_flag waiptn wfmode 0
  | .mbx .. => .mailbox NULL

/-- What the event that ends a wait writes to the union. -/
def Delivery.info : WaitCall → Delivery → WaitInfo
  | .flg _ waiptn wfmode _ _, .pattern flgptn => .event_flag waiptn wfmode flgptn
  | _, .pattern _ => .zero
  | _, .message msg => .mailbox msg

/-- A wait call returns the cause of its completion, and what was delivered if that is `E_OK`. -/
def WaitCall.result (w : WaitCall) (c : TCB) : Ret :=
  match w with
  | .slp _ | .sem .. => { ercd := c.wupcause }
  | .dly _ => { ercd := if c.wupcause = .E_TMOUT then .E_OK else c.wupcause }
  | .flg .. =>
    { ercd := c.wupcause, flgptn := if c.wupcause = .E_OK then some c.winfo.flgptn else none }
  | .mbx .. => { ercd := c.wupcause, msg := if c.wupcause = .E_OK then some c.winfo.msg else none }

/-- The TCB after the rest of a wait call ran. -/
def WaitCall.after (w : WaitCall) (c : TCB) : TCB :=
  match w with
  | .mbx .. => { c with winfo := .mailbox NULL, wupcause := .E_OK, delay_ticks := 0, tskwait := .NONE }
  | _ => { c with wupcause := .E_OK }

inductive Move where
  /-- The wait of `t` ends with nothing but a cause. -/
  | wake (t : TskId) (w : WaitCall) (cause : ER)
  /-- The wait of `t` ends with a pattern or a message. -/
  | give (t : TskId) (w : WaitCall) (d : Delivery)
  /-- `t` begins to wait in `w`: `queue` is the wait queue with `t` in it, `timed` the tick count. -/
  | block (t : TskId) (w : WaitCall) (queue : List TskId) (timed : Option Nat)
  | create (t : TskId) (pk : T_CTSK) (frame : UINT)
  | start (t : TskId) (frame : StashedRegisters)
  | exit (t : TskId)
  | exitDelete (t : TskId)
  | yield (t : TskId)
  | dispatch (old new : TskId) (sp : UINT)
  | launch (t : TskId)
  | queueWakeup (t : TskId)
  | useWakeup (t : TskId)
  | tick (n : Nat)
  | finish (t : TskId) (w : WaitCall)
  | park (t : TskId)
  | unpark (t : TskId)
  | stackWrite (t : TskId) (frame : StashedRegisters)
  | note (c : Call) (r : Ret)
  | overflow

namespace Move

/-- Which object's queue, and which waiters' requests, the move can change. -/
def touches : Move → Option Obj
  | wake _ w _ | give _ w _ | block _ w _ _ => w.obj
  | _ => none

def Allowed (q : Tasks) : Move → Prop
  | wake t w cause =>
    (q.tcbs t).tskstat = .WAI ∧ q.pending t = some (.wait w) ∧
      (cause = .E_OK → w.kind = .SLP ∨ w.kind = .SEM) ∧
      (cause = .E_TMOUT → t ∈ q.timer_queue ∧ (q.tcbs t).delay_ticks = 0)
  | give t w d =>
    (q.tcbs t).tskstat = .WAI ∧ q.pending t = some (.wait w) ∧
      match w, d with
      | .flg _ waiptn wfmode _ _, .pattern flgptn => check_ptn flgptn waiptn wfmode = true
      | .mbx .., .message _ => True
      | _, _ => False
  | block t w queue timed =>
    (q.tcbs t).active ∧ q.pending t = none ∧ (∀ n, timed = some n → n < 2 ^ 32) ∧
      match w.obj with
      | some o => ∃ ahead behind, q.wait_queue o = ahead ++ behind ∧ queue = ahead ++ t :: behind
      | none => w.kind = .SLP ∨ w.kind = .DLY
  | create t pk _ =>
    q.free_tcb.head? = some t ∧ 1 ≤ pk.itskpri ∧ pk.itskpri ≤ CFN_MAX_PRI
  | start t _ => (q.tcbs t).tskstat = .DMT
  | exit t => (q.tcbs t).active ∧ q.pending t = none
  | exitDelete t => (q.tcbs t).active ∧ q.pending t = none
  | yield t => (q.tcbs t).active
  | dispatch _ new _ => (q.tcbs new).active
  | launch t => (q.tcbs t).active
  | queueWakeup t =>
    (q.tcbs t).wupcnt < TK_WAKEUP_MAXCNT ∧
      ((q.tcbs t).active ∨ (q.tcbs t).tskstat = .WAI ∧ (q.tcbs t).tskwait ≠ .SLP)
  | useWakeup t => 0 < (q.tcbs t).wupcnt ∧ (q.tcbs t).active
  | tick n => ∀ t ∈ q.timer_queue, n ≤ (q.tcbs t).delay_ticks
  | finish t w => (q.tcbs t).active ∧ q.pending t = some (.wait w)
  | park t => (q.tcbs t).active ∧ q.pending t = none
  | unpark t => (q.tcbs t).active ∧ q.pending t = some .yield
  | stackWrite _ _ => True
  | note _ _ => True
  | overflow => True

/-- The end of a wait, on the tables. -/
def wakeEffect (q : Tasks) (t : TskId) (cause : ER) : Tasks :=
  { q with
    tcbs := Function.update q.tcbs t
      { q.tcbs t with
        head := .linked, wait_link := .self, delay_ticks := 0, tskwait := .NONE, wupcause := cause,
        tskstat := .RDY }
    timer_queue := q.timer_queue.erase t
    wait_queue := fun o => (q.wait_queue o).erase t
    ready_queue := Function.update q.ready_queue (q.tcbs t).level
      (q.ready_queue (q.tcbs t).level ++ [t])
    log := q.log ++ [.complete t (q.pending t) cause (q.tcbs t).winfo, .enqueue t] }

def setInfo (q : Tasks) (t : TskId) (info : WaitInfo) : Tasks :=
  q.setTcb t fun c => { c with winfo := info }

def effect (q : Tasks) : Move → Tasks
  | wake t _ cause => wakeEffect q t cause
  | give t w d => wakeEffect ((setInfo q t (d.info w)).note (.deliver t d)) t .E_OK
  | block t w queue timed =>
    { q with
      tcbs := Function.update q.tcbs t
        { q.tcbs t with
          head := if timed.isSome then .linked else .self
          wait_link := if w.obj.isSome then .linked else .self
          tskstat := .WAI, tskwait := w.kind, delay_ticks := timed.getD 0
          winfo := w.info (q.tcbs t).winfo }
      ready_queue := fun i => (q.ready_queue i).erase t
      timer_queue := if timed.isSome then q.timer_queue ++ [t] else q.timer_queue
      wait_queue := fun o => if w.obj = some o then queue else q.wait_queue o
      pending := Function.update q.pending t (some (.wait w))
      log := q.log ++ [.block t w] }
  | create t pk frame =>
    { q with
      tcbs := Function.update q.tcbs t
        { head := .self, tskid := (q.tcbs t).tskid, itskpri := pk.itskpri, tskstat := .DMT,
          tskwait := .NONE, sp := frame, initial_sp := frame, task := pk.task, exinf := pk.exinf,
          delay_ticks := 0, wupcause := .E_OK, wupcnt := 0, wait_link := .self, winfo := .zero }
      free_tcb := q.free_tcb.erase t }
  | start t frame =>
    { q with
      tcbs := Function.update q.tcbs t
        { q.tcbs t with
          sp := (q.tcbs t).initial_sp, tskwait := .NONE, delay_ticks := 0, wupcnt := 0,
          wupcause := .E_OK, winfo := .zero, tskstat := .RDY, head := .linked, wait_link := .self }
      stack := Function.update q.stack t frame
      ready_queue := Function.update q.ready_queue (q.tcbs t).level
        (q.ready_queue (q.tcbs t).level ++ [t])
      log := q.log ++ [.enqueue t] }
  | exit t =>
    { q with
      tcbs := Function.update q.tcbs t
        { q.tcbs t with head := .poisoned, tskstat := .DMT, tskwait := .NONE }
      ready_queue := fun i => (q.ready_queue i).erase t }
  | exitDelete t =>
    { q with
      tcbs := Function.update q.tcbs t { q.tcbs t with head := .linked, tskstat := .NOEXS }
      ready_queue := fun i => (q.ready_queue i).erase t
      free_tcb := q.free_tcb ++ [t] }
  | yield t =>
    { q with
      ready_queue := Function.update q.ready_queue (q.tcbs t).level
        ((q.ready_queue (q.tcbs t).level).erase t ++ [t])
      log := q.log ++ [.enqueue t] }
  | dispatch old new sp =>
    ((q.setTcb old fun c =>
        { c with sp := sp, tskstat := if c.tskstat = .RUN then .RDY else c.tskstat }).setTcb new
      fun c => { c with tskstat := .RUN }).note (.dispatch new)
  | launch t => q.setTcb t fun c => { c with tskstat := .RUN }
  | queueWakeup t => q.setTcb t fun c => { c with wupcnt := c.wupcnt + 1 }
  | useWakeup t => q.setTcb t fun c => { c with wupcnt := c.wupcnt - 1 }
  | tick n =>
    { q with tcbs := fun t =>
        if t ∈ q.timer_queue then { q.tcbs t with delay_ticks := (q.tcbs t).delay_ticks - n }
        else q.tcbs t }
  | finish t w =>
    { q with
      tcbs := Function.update q.tcbs t (w.after (q.tcbs t))
      pending := Function.update q.pending t none
      log := q.log ++ [.finish t w (w.result (q.tcbs t))] }
  | park t => q.setPending t (some .yield)
  | unpark t => q.setPending t none
  | stackWrite t frame => { q with stack := Function.update q.stack t frame }
  | note c r => q.note (.ret c r)
  | overflow => { q with alarms := q.alarms ++ [.tickOverflow] }

end Move

/-- One move. -/
def MoveStep (q : Tasks) (m : Move) (q' : Tasks) : Prop := m.Allowed q ∧ q' = m.effect q

/-- Some moves, all of the kind `P`. -/
def Does (P : Move → Prop) (q q' : Tasks) : Prop :=
  ∃ ms, Paths.Path MoveStep q ms q' ∧ ∀ m ∈ ms, P m

namespace Does

variable {P P' : Move → Prop} {q q' q'' : Tasks}

theorem refl (q : Tasks) : Does P q q := ⟨[], .nil q, by simp⟩

theorem one {m : Move} (hP : P m) (h : m.Allowed q) : Does P q (m.effect q) :=
  ⟨[m], .single ⟨h, rfl⟩, by simpa using hP⟩

theorem trans (h : Does P q q') (h' : Does P q' q'') : Does P q q'' := by
  obtain ⟨ms, hp, hm⟩ := h
  obtain ⟨ms', hp', hm'⟩ := h'
  refine ⟨ms ++ ms', hp.append hp', ?_⟩
  intro m hmem
  rcases List.mem_append.mp hmem with hmem | hmem
  · exact hm m hmem
  · exact hm' m hmem

theorem mono (hPP : ∀ m, P m → P' m) (h : Does P q q') : Does P' q q' := by
  obtain ⟨ms, hp, hm⟩ := h
  exact ⟨ms, hp, fun m hmem => hPP m (hm m hmem)⟩

theorem keeps {I : Tasks → Prop} (h : Does P q q')
    (hstep : ∀ m q, P m → m.Allowed q → I q → I (m.effect q)) (hI : I q) : I q' := by
  obtain ⟨ms, hp, hm⟩ := h
  induction hp with
  | nil => exact hI
  | cons hr _ ih =>
    obtain ⟨hallowed, rfl⟩ := hr
    exact ih (hstep _ _ (hm _ List.mem_cons_self) hallowed hI)
      (fun m hmem => hm m (List.mem_cons_of_mem _ hmem))

end Does

end TsukumoCore
