import TsukumoCore.Calls.Refused
import TsukumoCore.System.Boot

/-!
# What a task was created with

The log says which packet a task was last created with, and its TCB keeps what the packet said.
-/

namespace TsukumoCore

variable {e : Entries} {b : Boot} {k k' k1 : Kernel} {q q' : Tasks} {t u : TskId} {m : Move} {a : Act} {pk : T_CTSK}

/-- The packet, if the event is the return of a creation of `t`. -/
def creation (t : TskId) : Event → Option T_CTSK
  | .ret (.cre_tsk (some pk)) r => if r.ercd = .E_OK ∧ r.id = t + 1 then some pk else none
  | _ => none

/-- What `tkmc_start` creates is not on record. -/
def bootCreation (b : Boot) (t : TskId) : Option T_CTSK :=
  if t = 0 then some (iniPacket b) else if t = idl_tsk then some (idlPacket b) else none

/-- The packet of the last creation of `t`. -/
def packet (b : Boot) (log : List Event) (t : TskId) : Option T_CTSK :=
  log.foldl (fun pk ev => (creation t ev).or pk) (bootCreation b t)

theorem packet_note (log : List Event) (ev : Event) :
    packet b (log ++ [ev]) t = (creation t ev).or (packet b log t) := List.foldl_concat ..

theorem packet_silent {post : List Event} (h : ∀ ev ∈ post, creation t ev = none) (log : List Event) :
    packet b (log ++ post) t = packet b log t := by
  induction post generalizing log with
  | nil => rw [List.append_nil]
  | cons ev post ih =>
    rw [List.append_cons, ih fun ev hev => h ev (List.mem_cons_of_mem _ hev), packet_note,
      h ev List.mem_cons_self]
    rfl

/-- The end of the stack buffer. -/
def T_CTSK.stackEnd (pk : T_CTSK) : UINT := pk.bufptr + BitVec.ofInt 32 pk.stksz

theorem check_ctsk_ok {stack_end : UINT} (h : check_ctsk pk = .ok stack_end) : stack_end = pk.stackEnd := by
  unfold check_ctsk at h
  dsimp only at h
  repeat' split at h
  all_goals first | exact (Except.ok.inj h).symm | exact absurd h (by simp)

/-- The TCB has what the packet said. -/
structure MadeFrom (c : TCB) (pk : T_CTSK) : Prop where
  task : c.task = pk.task
  exinf : c.exinf = pk.exinf
  itskpri : c.itskpri = pk.itskpri
  initial_sp : c.initial_sp = pk.stackEnd - sizeofStashedRegisters
  accepted : check_ctsk pk = .ok pk.stackEnd

theorem MadeFrom.congr {c c' : TCB} (h : MadeFrom c pk) (hmade : (c'.task, c'.exinf, c'.itskpri, c'.initial_sp) =
    (c.task, c.exinf, c.itskpri, c.initial_sp)) : MadeFrom c' pk := by
  simp only [Prod.mk.injEq] at hmade
  obtain ⟨htask, hexinf, hpri, hsp⟩ := hmade
  exact ⟨htask.trans h.task, hexinf.trans h.exinf, hpri.trans h.itskpri, hsp.trans h.initial_sp, h.accepted⟩

/-! ## Moves -/

theorem Move.made (hm : ∀ u pk frame, m ≠ .create u pk frame) (t : TskId) :
    (((m.effect q).tcbs t).task, ((m.effect q).tcbs t).exinf, ((m.effect q).tcbs t).itskpri,
        ((m.effect q).tcbs t).initial_sp) =
      ((q.tcbs t).task, (q.tcbs t).exinf, (q.tcbs t).itskpri, (q.tcbs t).initial_sp) := by
  cases m with
  | create u pk frame => exact absurd rfl (hm u pk frame)
  | wake u | give u | block u | start u | exit u | exitDelete u | launch u | queueWakeup u | useWakeup u =>
    by_cases hu : t = u
    · subst hu; simp [effect, wakeEffect, setInfo, Tasks.setTcb, Tasks.note]
    · simp [effect, wakeEffect, setInfo, Tasks.setTcb, Tasks.note, hu]
  | finish u w =>
    by_cases hu : t = u
    · subst hu; cases w <;> simp [effect, WaitCall.after]
    · simp [effect, hu]
  | dispatch old new sp =>
    by_cases hold : t = old <;> by_cases hnew : t = new <;>
      simp [effect, Tasks.note, Tasks.setTcb, Function.update_apply, hold, hnew]
    all_goals split <;> simp_all
  | tick n =>
    by_cases hmem : t ∈ q.timer_queue <;> simp [effect, hmem]
  | _ => rfl

theorem Move.existed (ha : m.Allowed q) (hm : ∀ u pk frame, m ≠ .create u pk frame)
    (hex : ((m.effect q).tcbs t).tskstat ≠ .NOEXS) : (q.tcbs t).tskstat ≠ .NOEXS := by
  intro hno
  apply hex
  -- `t` is not the task the move is about: that one exists.
  have hne : ∀ {u}, (q.tcbs u).tskstat ≠ .NOEXS → t ≠ u := by
    rintro u hu rfl
    exact hu hno
  cases m with
  | create u pk frame => exact absurd rfl (hm u pk frame)
  | wake u | give u =>
    have hu : t ≠ u := hne (by rw [ha.1]; simp)
    simpa [effect, wakeEffect, setInfo, Tasks.setTcb, Tasks.note, hu] using hno
  | block u | exit u | exitDelete u =>
    have hu : t ≠ u := hne ha.1.stat_ne_noexs
    simpa [effect, hu] using hno
  | start u frame =>
    have hu : t ≠ u := hne (by rw [show (q.tcbs u).tskstat = .DMT from ha]; simp)
    simpa [effect, hu] using hno
  | launch u =>
    have hu : t ≠ u := hne (TCB.active.stat_ne_noexs ha)
    simpa [effect, Tasks.setTcb, hu] using hno
  | dispatch old new sp =>
    have hnew : t ≠ new := hne (TCB.active.stat_ne_noexs ha)
    by_cases hold : t = old
    · subst hold
      simp [effect, Tasks.setTcb, Tasks.note, hnew, hno]
    · simpa [effect, Tasks.setTcb, Tasks.note, hnew, hold] using hno
  | queueWakeup u | useWakeup u =>
    by_cases hu : t = u
    · subst hu
      simpa [effect, Tasks.setTcb] using hno
    · simpa [effect, Tasks.setTcb, hu] using hno
  | tick n =>
    by_cases hmem : t ∈ q.timer_queue
    · simpa [effect, hmem] using hno
    · simpa [effect, hmem] using hno
  | finish u w =>
    have hu : t ≠ u := hne ha.1.stat_ne_noexs
    simpa [effect, hu] using hno
  | _ => exact hno

theorem creation_other {c : Call} (hc : ∀ pk_ctsk, c ≠ .cre_tsk pk_ctsk) (r : Ret) : creation t (.ret c r) = none := by
  cases c with
  | cre_tsk pk_ctsk => exact absurd rfl (hc pk_ctsk)
  | _ => rfl

theorem creation_refused {c : Call} {r : Ret} (hr : r.ercd ≠ .E_OK) : creation t (.ret c r) = none := by
  cases c with
  | cre_tsk pk_ctsk => cases pk_ctsk <;> simp [creation, hr]
  | _ => rfl

theorem Move.creation_none (hm : ∀ c r, m = .note c r → ∀ pk_ctsk, c ≠ .cre_tsk pk_ctsk) :
    ∀ ev ∈ m.events q, creation t ev = none := by
  intro ev hev
  cases m with
  | note c r =>
    rw [List.mem_singleton.mp hev]
    exact creation_other (hm c r rfl) r
  | wake u w cause =>
    simp only [events, List.mem_cons, List.not_mem_nil, or_false] at hev
    rcases hev with rfl | rfl <;> rfl
  | give u w d =>
    simp only [events, List.mem_cons, List.not_mem_nil, or_false] at hev
    rcases hev with rfl | rfl | rfl <;> rfl
  | block | start | yield | dispatch | finish =>
    rw [List.mem_singleton.mp hev]
    rfl
  | _ => exact absurd hev List.not_mem_nil

/-! ## Runs -/

/-- Every task that exists is what its packet says. -/
def CreatedOk (b : Boot) (q : Tasks) : Prop :=
  ∀ t, (q.tcbs t).tskstat ≠ .NOEXS → ∃ pk, packet b q.log t = some pk ∧ MadeFrom (q.tcbs t) pk

theorem Move.createdOk (ha : m.Allowed q) (hcre : ∀ u pk frame, m ≠ .create u pk frame)
    (hnote : ∀ c r, m = .note c r → ∀ pk_ctsk, c ≠ .cre_tsk pk_ctsk) (h : CreatedOk b q) :
    CreatedOk b (m.effect q) := by
  intro t hex
  obtain ⟨pk, hpk, hmade⟩ := h t (existed ha hcre hex)
  refine ⟨pk, ?_, hmade.congr (made hcre t)⟩
  rw [log_effect, packet_silent (creation_none hnote)]
  exact hpk

theorem CreatedOk.refused (h : CreatedOk b q) (c : Call) {r : Ret} (hr : r.ercd ≠ .E_OK) :
    CreatedOk b (q.note (.ret c r)) := by
  intro t hex
  obtain ⟨pk, hpk, hmade⟩ := h t hex
  refine ⟨pk, ?_, hmade⟩
  show packet b (q.log ++ [.ret c r]) t = _
  rw [packet_note, creation_refused hr]
  exact hpk

theorem cre_tsk_createdOk (h : Good k) (hc : CreatedOk b k.toTasks) (pk_ctsk : Option T_CTSK) :
    CreatedOk b ((tk_cre_tsk k pk_ctsk).2.toTasks.note (.ret (.cre_tsk pk_ctsk) (tk_cre_tsk k pk_ctsk).1)) := by
  by_cases hok : (tk_cre_tsk k pk_ctsk).1.ercd = .E_OK
  · obtain ⟨t, pk, stack_end, rfl, hcheck, heq⟩ := tk_cre_tsk_ok h.core hok
    obtain rfl := check_ctsk_ok hcheck
    rw [heq]
    intro u hex
    have hid : (t : Int) + 1 = u + 1 ↔ u = t := by
      rw [Fin.ext_iff]
      omega
    show ∃ pk', packet b (k.log ++ [_]) u = some pk' ∧ _
    rw [packet_note]
    by_cases hu : u = t
    · subst hu
      refine ⟨pk, by simp [creation], ?_⟩
      constructor <;> simp [Kernel.tasks, Tasks.note, Move.effect, hcheck]
    · have hsame : ((k.tasks (Move.effect · (.create t pk (pk.stackEnd - sizeofStashedRegisters)))).toTasks.note
          (.ret (.cre_tsk (some pk)) { ercd := .E_OK, id := t + 1 })).tcbs u = k.tcbs u := by
        simp [Kernel.tasks, Tasks.note, Move.effect, hu]
      rw [hsame] at hex ⊢
      have hnone : creation u (.ret (.cre_tsk (some pk)) { ercd := .E_OK, id := t + 1 }) = none := by
        simp [creation, hid, hu]
      rw [hnone]
      exact hc u hex
  · rw [((tk_cre_tsk_answers h.core pk_ctsk).refused _ rfl hok).1]
    exact hc.refused _ hok

theorem step_createdOk (h : Inv k) (hc : CreatedOk b k.toTasks) (hk : step e k a = some k') :
    CreatedOk b k'.toTasks := by
  by_cases hcre : ∃ pk_ctsk times, a = .call (.cre_tsk pk_ctsk) times
  · obtain ⟨pk_ctsk, times, rfl⟩ := hcre
    simp only [step] at hk
    split at hk
    · obtain rfl : _ = k' := by simpa [exec] using hk
      exact cre_tsk_createdOk h.toGood hc pk_ctsk
    · exact absurd hk (by simp)
  · refine (step_ok h hk).does.keeps (I := CreatedOk b) ?_ hc
    intro m q hm ha hq
    refine Move.createdOk ha ?_ ?_ hq
    · rintro u pk frame rfl
      cases a with
      | call c times => exact hcre ⟨some pk, times, by rw [show c = .cre_tsk (some pk) from hm]⟩
      | _ => exact hm
    · rintro c r rfl pk_ctsk rfl
      cases a with
      | call c times => exact hcre ⟨pk_ctsk, times, by rw [show .cre_tsk pk_ctsk = c from hm]⟩
      | _ => exact hm

theorem start_createdOk (hk : tkmc_start b = some k) : CreatedOk b k.toTasks := by
  obtain ⟨-, -, hstat, -, -, hlog, -⟩ := start_tasks hk
  obtain ⟨stack_end, stack_end', hini, hidl, -, -, rfl⟩ := boot_eq hk
  obtain rfl := check_ctsk_ok hini
  obtain rfl := check_ctsk_ok hidl
  intro t hex
  rw [hstat] at hex
  rw [hlog]
  show ∃ pk, bootCreation b t = some pk ∧ _
  unfold bootCreation
  by_cases h0 : t = 0
  · subst h0
    refine ⟨iniPacket b, rfl, ?_⟩
    constructor <;>
      simp [Kernel.EI, tkmc_start_timer, write_mtimecmp, Tasks.setTcb, bootTasks, Move.effect, hini]
  · by_cases h1 : t = idl_tsk
    · subst h1
      refine ⟨idlPacket b, rfl, ?_⟩
      constructor <;>
        simp [Kernel.EI, tkmc_start_timer, write_mtimecmp, Tasks.setTcb, bootTasks, Move.effect, hidl, idl_tsk]
    · simp [h0, h1] at hex

theorem Reachable.createdOk (h : Reachable b k) : CreatedOk b k.toTasks := by
  have hall : Inv k ∧ CreatedOk b k.toTasks := by
    refine Paths.Reach.invariant (I := fun k => Inv k ∧ CreatedOk b k.toTasks) ?_ ?_ h
    · intro k hk
      exact ⟨start_inv hk, start_createdOk hk⟩
    · rintro k a k' ⟨hinv, hc⟩ hstep
      exact ⟨(step_ok hinv hstep).inv, step_createdOk hinv hc hstep⟩
  exact hall.2

/-- A packet to run the examples with. -/
def samplePacket : T_CTSK :=
  { exinf := 5, tskatr := TA_USERBUF, task := 0x80004000, itskpri := 2, stksz := 512, bufptr := 0x80020000 }

end TsukumoCore
