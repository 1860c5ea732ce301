import TsukumoCore.Calls.Produce
import TsukumoCore.Calls.Step

/-!
# A wait and the call that satisfies it

What it means that the two may come in either order, and how it is shown: the call ends the same waits of
other tasks, and the wait finds at once what it would have been given in the queue.
-/

namespace TsukumoCore

variable {e : Entries} {k : Kernel} {q q' : Tasks} {t u : TskId} {w : WaitCall} {p : Call}

/-! ## What is compared -/

/-- What a call sees of its caller: whether interrupts are on, how many handlers are active, and the current
task. -/
structure Context where
  mie : Bool
  isr_depth : Nat
  current : Option TskId

def Kernel.context (k : Kernel) : Context := ⟨k.mie, k.isr_depth, k.current⟩

def Kernel.within (k : Kernel) (c : Context) : Kernel :=
  { k with mie := c.mie, isr_depth := c.isr_depth, current := c.current }

/-- A handler, or a task other than `t`. -/
def Context.Other (c : Context) (t : TskId) : Prop := c.isr_depth ≠ 0 ∨ c.current ≠ some t

/-- One call from `k`, up to its return or its wait. -/
def Performs (e : Entries) (k : Kernel) (c : Call) (flow : Flow) (k' : Kernel) : Prop :=
  ∃ k1, exec e k [] c = some (flow, k1) ∧ k' = leave_call k1 c flow

/-- A wait for ever of `t`, and a call that can satisfy it. -/
inductive Pairs (t : TskId) : WaitCall → Call → Prop where
  | sem (semid cnt n : Int) : Pairs t (.sem semid cnt TMO_FEVR) (.sig_sem semid n)
  | flg (flgid : Int) (waiptn wfmode p_flgptn setptn : UINT) :
      Pairs t (.flg flgid waiptn wfmode p_flgptn TMO_FEVR) (.set_flg flgid setptn)
  | mbx (mbxid : Int) (ppk_msg pk_msg : UINT) : Pairs t (.mbx mbxid ppk_msg TMO_FEVR) (.snd_mbx mbxid pk_msg)
  | slp : Pairs t (.slp TMO_FEVR) (.wup_tsk (t + 1))

/-- No waiter has a lower priority than `t`, where the order depends on it. -/
def QueuedLast (k : Kernel) (t : TskId) (w : WaitCall) : Prop :=
  ∀ o, w.obj = some o → k.atr o &&& TA_TPRI ≠ 0 → ∀ u ∈ k.wait_queue o, (k.tcbs u).itskpri ≤ (k.tcbs t).itskpri

/-- What `t` has of its wait: still waiting, or what the rest of the call gives it. -/
def WaitEnds (t : TskId) (w : WaitCall) (k : Kernel) : Flow → Prop
  | .ret r => (k.tcbs t).tskstat ≠ .WAI ∧ (exec_end k t w).1 = r
  | _ => (k.tcbs t).tskstat = .WAI

/-- The same end: `k` after the wait and the call, `k'` after the call and the wait, which took `flow`. -/
structure SameEnd (t : TskId) (w : WaitCall) (k : Kernel) (flow : Flow) (k' : Kernel) : Prop where
  objects : k.toObjects = k'.toObjects
  queues : k.wait_queue = k'.wait_queue
  others : ∀ u, u ≠ t → k.tcbs u = k'.tcbs u
  caller : WaitEnds t w k flow
  wupcnt : (k.tcbs t).wupcnt = (k'.tcbs t).wupcnt

/-! ## The wait -/

theorem queueBy_last {atr : ATR} {queue : List TskId}
    (h : atr &&& TA_TPRI ≠ 0 → ∀ u ∈ queue, (q.tcbs u).itskpri ≤ (q.tcbs t).itskpri) :
    queueBy q t atr queue = queue ++ [t] := by
  unfold queueBy
  split
  · rename_i hatr
    have hall : ∀ u ∈ queue, decide ((q.tcbs u).itskpri ≤ (q.tcbs t).itskpri) = true :=
      fun u hu => decide_eq_true (h hatr u hu)
    rw [List.takeWhile_eq_self_iff.mpr hall, List.dropWhile_eq_nil_iff.mpr hall]
  · rfl

/-- `t` waits in `w` behind the others, and nothing else changed. -/
structure Waits (k : Kernel) (t : TskId) (w : WaitCall) (queue : List TskId) (k' : Kernel) : Prop where
  tasks : k'.toTasks = (Move.block t w (queue ++ [t]) none).effect k.toTasks
  objects : k'.toObjects = k.toObjects

theorem Waits.of_waiting (h : Caller k t) {queue : List TskId} :
    Waits k t w queue (waiting k t w (queue ++ [t])) := by
  obtain ⟨htasks, hobjects⟩ := waiting_eq h w (queue ++ [t])
  exact ⟨htasks, hobjects⟩

namespace Waits

variable {queue : List TskId} {k' : Kernel}

theorem queues (h : Waits k t w queue k') (o : Obj) :
    k'.wait_queue o = if w.obj = some o then queue ++ [t] else k.wait_queue o := by
  rw [h.tasks]
  rfl

theorem other (h : Waits k t w queue k') (hu : u ≠ t) : k'.tcbs u = k.tcbs u := by
  rw [h.tasks]
  simp [Move.effect, hu]

theorem stat (h : Waits k t w queue k') : (k'.tcbs t).tskstat = .WAI := by
  rw [h.tasks]
  simp [Move.effect]

theorem wupcnt (h : Waits k t w queue k') : (k'.tcbs t).wupcnt = (k.tcbs t).wupcnt := by
  rw [h.tasks]
  simp [Move.effect]

end Waits

theorem Core.noted {x : Objects} (h : Core q x) (c : Call) (r : Ret) : Core (q.note (.ret c r)) x := by
  have hnote : Does (· = .note c r) q (q.note (.ret c r)) := .one (m := .note c r) rfl trivial
  exact (h.does hnote (by rintro m rfl; rfl)).1

theorem Caller.within {k' : Kernel} (h : Caller k t) (hcore : Core k'.toTasks k'.toObjects)
    (hrun : (k'.tcbs t).tskstat = .RUN) (hpend : k'.pending t = none) : Caller (k'.within k.context) t :=
  ⟨hcore, h.mie, h.depth, h.current, hrun, hpend⟩

/-! ## Either order -/

/-- A sleep ends with `E_OK`, and so does the call that ends it. -/
def SleepOk (w : WaitCall) (r : Ret) (flow : Flow) : Prop :=
  ∀ tmout, w = .slp tmout → r.ercd = .E_OK ∧ ∃ r', flow = .ret r' ∧ r'.ercd = .E_OK

theorem sleepOk_of_obj {o : Obj} (ho : w.obj = some o) (r : Ret) (flow : Flow) : SleepOk w r flow := by
  rintro tmout rfl
  cases ho

/-- What holds of the wait and the call in either order. -/
def EitherOrder (e : Entries) (k : Kernel) (t : TskId) (w : WaitCall) (p : Call) (c : Context) (kW : Kernel) :
    Prop :=
  ∃ r kA kP flow kB, Performs e (kW.within c) p (.ret r) kA ∧ Performs e (k.within c) p (.ret r) kP ∧
    Performs e (kP.within k.context) (.wait w) flow kB ∧ SameEnd t w kA flow kB ∧ SleepOk w r flow

section

variable {kW kA kP kB : Kernel} {c : Context} {flow : Flow} {r : Ret}

/-- What the TCB says of the end of a wait that took `flow` in the other order. -/
def TCB.ended (c : TCB) (w : WaitCall) : Flow → Prop
  | .ret r => c.active ∧ w.result c = r
  | _ => c.tskstat = .WAI

theorem EitherOrder.of_tables (hA : exec e (kW.within c) [] p = some (.ret r, kA))
    (hcore : Core kA.toTasks kA.toObjects) (hP : exec e (k.within c) [] p = some (.ret r, kP))
    (hB : Performs e ((kP.tasks (·.note (.ret p r))).within k.context) (.wait w) flow kB)
    (hobjects : kA.toObjects = kB.toObjects) (hqueues : ∀ o, kA.wait_queue o = kB.wait_queue o)
    (hothers : ∀ u, u ≠ t → kA.tcbs u = kB.tcbs u) (hcaller : (kA.tcbs t).ended w flow)
    (hwup : (kA.tcbs t).wupcnt = (kB.tcbs t).wupcnt) (hsleep : SleepOk w r flow) : EitherOrder e k t w p c kW := by
  refine ⟨r, kA.tasks (·.note (.ret p r)), _, flow, kB, ⟨kA, hA, rfl⟩, ⟨kP, hP, rfl⟩, hB,
    ⟨hobjects, funext hqueues, hothers, ?_, hwup⟩, hsleep⟩
  cases flow with
  | ret r' =>
    obtain ⟨hact, hresult⟩ := hcaller
    refine ⟨hact.stat_ne_wai, ?_⟩
    rw [exec_end_eq (k := kA.tasks (·.note (.ret p r))) (hcore.noted p r).tasks.toPlaced hact]
    exact hresult
  | wait => exact hcaller
  | yield => exact hcaller

theorem EitherOrder.refused {queue : List TskId} {o : Obj} (ho : w.obj = some o) (hw : Waits k t w queue kW)
    (hcore : Core kW.toTasks kW.toObjects) (hA : exec e (kW.within c) [] p = some (.ret r, kW.within c))
    (hB : exec e (k.within c) [] p = some (.ret r, k.within c))
    (hwait : ∃ kB, Performs e (((k.within c).tasks (·.note (.ret p r))).within k.context) (.wait w) .wait kB ∧
      Waits (((k.within c).tasks (·.note (.ret p r))).within k.context) t w queue kB) :
    EitherOrder e k t w p c kW := by
  obtain ⟨kB, hperforms, hwaits⟩ := hwait
  apply EitherOrder.of_tables hA hcore hB hperforms
  · exact hw.objects.trans hwaits.objects.symm
  · intro o
    exact (hw.queues o).trans (hwaits.queues o).symm
  · intro u hu
    exact (hw.other hu).trans (hwaits.other hu).symm
  · exact hw.stat
  · exact hw.wupcnt.trans hwaits.wupcnt.symm
  · exact sleepOk_of_obj ho _ _

/-- The wait is left for later: `F` ends the same waits in either order, and `t` comes behind those left. -/
theorem EitherOrder.queued {F : Tasks → Tasks} {ended left queue : List TskId} {o : Obj} (hF : EndsWaits F ended)
    (ht : t ∉ ended) (ho : w.obj = some o) (hw : Waits k t w queue kW)
    (hA : exec e (kW.within c) [] p = some (.ret r, kA)) (hcore : Core kA.toTasks kA.toObjects)
    (hP : exec e (k.within c) [] p = some (.ret r, kP)) (htasksA : kA.toTasks = F kW.toTasks)
    (htasksP : kP.toTasks = F k.toTasks) (hobjects : kA.toObjects = kP.toObjects)
    (hqueue : kA.wait_queue o = left ++ [t])
    (hB : ∃ kB, Performs e ((kP.tasks (·.note (.ret p r))).within k.context) (.wait w) .wait kB ∧
      Waits ((kP.tasks (·.note (.ret p r))).within k.context) t w left kB) :
    EitherOrder e k t w p c kW := by
  obtain ⟨kB, hperforms, hwaits⟩ := hB
  have hselfP : kP.tcbs t = k.tcbs t := by
    rw [htasksP]
    exact hF.other k.toTasks t ht
  apply EitherOrder.of_tables hA hcore hP hperforms
  · exact hobjects.trans hwaits.objects.symm
  · intro o'
    rw [hwaits.queues]
    split
    · rename_i ho'
      obtain rfl : o = o' := Option.some.inj (ho.symm.trans ho')
      exact hqueue
    · rename_i ho'
      rw [htasksA, hF.queue, hw.queues, if_neg ho', ← hF.queue, ← htasksP]
      rfl
  · intro u hu
    rw [htasksA, hwaits.other hu, hF.congr _ _ u (hw.other hu), ← htasksP]
    rfl
  · rw [htasksA, hF.other _ t ht]
    exact hw.stat
  · rw [htasksA, hF.other _ t ht, hw.wupcnt, hwaits.wupcnt]
    exact congrArg TCB.wupcnt hselfP.symm
  · exact sleepOk_of_obj ho _ _

/-- The wait is satisfied: `G` ends it as the last one, and in the other order it returns at once. -/
theorem EitherOrder.satisfied {F G : Tasks → Tasks} {ended queue : List TskId} {o : Obj} {r' : Ret}
    (hF : EndsWaits F ended) (hG : EndsWaits G [t]) (ht : t ∉ ended) (ho : w.obj = some o)
    (hnot : ∀ o, t ∉ k.wait_queue o) (hw : Waits k t w queue kW)
    (hA : exec e (kW.within c) [] p = some (.ret r, kA)) (hcore : Core kA.toTasks kA.toObjects)
    (hP : exec e (k.within c) [] p = some (.ret r, kP)) (htasksA : kA.toTasks = G (F kW.toTasks))
    (htasksP : kP.toTasks = F k.toTasks) (hqueue : kA.wait_queue o = kP.wait_queue o)
    (hB : Performs e ((kP.tasks (·.note (.ret p r))).within k.context) (.wait w) (.ret r') kB)
    (hobjects : kA.toObjects = kB.toObjects) (hqueueB : kB.wait_queue = kP.wait_queue) (htcbsB : kB.tcbs = kP.tcbs)
    (hended : (kA.tcbs t).ended w (.ret r')) (hwup : (kA.tcbs t).wupcnt = (kW.tcbs t).wupcnt) :
    EitherOrder e k t w p c kW := by
  apply EitherOrder.of_tables hA hcore hP hB hobjects
  · intro o'
    rw [hqueueB]
    by_cases ho' : o' = o
    · subst ho'
      exact hqueue
    · have hne : w.obj ≠ some o' := by simpa [ho] using Ne.symm ho'
      rw [htasksA, hG.queue, hF.queue, hw.queues, if_neg hne, htasksP, hF.queue, List.diff_cons, List.diff_nil]
      exact List.erase_of_not_mem fun hin => hnot o' ((List.diff_sublist _ _).subset hin)
  · intro u hu
    rw [htasksA, hG.other _ u (by simpa using hu), hF.congr _ _ u (hw.other hu), ← htasksP, htcbsB]
  · exact hended
  · rw [hwup, hw.wupcnt, htcbsB, htasksP, hF.other _ t ht]
  · exact sleepOk_of_obj ho _ _

theorem EndsWaits.caller {F : Tasks → Tasks} {ended : List TskId} (hF : EndsWaits F ended) (ht : t ∉ ended)
    (h : Caller k t) (hcore : Core kP.toTasks kP.toObjects) (htasks : kP.toTasks = F k.toTasks) :
    Caller ((kP.tasks (·.note (.ret p r))).within k.context) t := by
  apply h.within (hcore.noted p r)
  · rw [show (kP.tasks _).tcbs t = kP.tcbs t from rfl, htasks, hF.other _ t ht]
    exact h.run
  · rw [show (kP.tasks _).pending t = kP.pending t from rfl, htasks, hF.pending]
    exact h.pending

end

end TsukumoCore
