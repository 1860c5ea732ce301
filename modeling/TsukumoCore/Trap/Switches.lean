import TsukumoCore.System.Start
import TsukumoCore.Trap.Board

/-!
# Task switches on the board

A task that is switched away from leaves its registers in a frame on its stack, and the address of the frame in
its TCB. Nothing moves either until the task runs again, and then it gets back what it had.
-/

namespace TsukumoCore

open Memory Trap
open Rv32 (Reg Hart)

/-- The task has begun and has not ended. -/
def TCB.lives (c : TCB) : Prop := c.active ∨ c.tskstat = .WAI

instance (c : TCB) : Decidable c.lives := by unfold TCB.lives; infer_instance

variable {b : Boot} {x : MemoryMap} {e : Entries} {m m' m₁ m₂ m₃ : Board} {k k' : Kernel} {q q' : Tasks}
  {s s' : Traps} {u v : TskId} {t : ActiveTrap} {h h' h₀ : Hart} {mem mem' : Mem}

/-! ## What the kernel leaves alone -/

theorem Move.keepsContext {a : Move} (h : Placed q) (ha : a.Allowed q) (hlives : (q.tcbs u).lives)
    (hactor : a.actor ≠ some u) :
    ((a.effect q).tcbs u).lives ∧ ((a.effect q).tcbs u).sp = (q.tcbs u).sp := by
  have hother : (a.effect q).tcbs u = q.tcbs u →
      ((a.effect q).tcbs u).lives ∧ ((a.effect q).tcbs u).sp = (q.tcbs u).sp := by
    intro htcb
    rw [htcb]
    exact ⟨hlives, rfl⟩
  have hdead : ∀ {st}, (q.tcbs u).tskstat = st → st = .DMT ∨ st = .NOEXS → False := by
    rintro st hst (rfl | rfl) <;> simp [TCB.lives, TCB.active, hst] at hlives
  cases a with
  | wake w call cause =>
    by_cases hw : u = w
    · subst hw
      constructor <;> simp [effect, wakeEffect, TCB.lives, TCB.active]
    · exact hother (by simp [effect, wakeEffect, hw])
  | give w call d =>
    by_cases hw : u = w
    · subst hw
      constructor <;> simp [effect, wakeEffect, setInfo, Tasks.setTcb, Tasks.note, TCB.lives, TCB.active]
    · exact hother (by simp [effect, wakeEffect, setInfo, Tasks.setTcb, Tasks.note, hw])
  | create w pk frame =>
    have hw : u ≠ w := by
      rintro rfl
      exact hdead ((h.task u).free.mp (List.mem_of_mem_head? ha.1)) (.inr rfl)
    exact hother (by simp [effect, hw])
  | start w frame =>
    have hw : u ≠ w := by
      rintro rfl
      exact hdead ha (.inl rfl)
    exact hother (by simp [effect, hw])
  | block w call queue timed | exit w | exitDelete w | finish w call =>
    have hw : u ≠ w := fun heq => hactor (by simp [actor, heq])
    exact hother (by simp [effect, hw])
  | dispatch old new sp =>
    have hold : u ≠ old := fun heq => hactor (by simp [actor, heq])
    by_cases hnew : u = new
    · subst hnew
      constructor <;> simp [effect, Tasks.setTcb, Tasks.note, hold, TCB.lives, TCB.active]
    · exact hother (by simp [effect, Tasks.setTcb, Tasks.note, hold, hnew])
  | launch w =>
    by_cases hw : u = w
    · subst hw
      constructor <;> simp [effect, Tasks.setTcb, TCB.lives, TCB.active]
    · exact hother (by simp [effect, Tasks.setTcb, hw])
  | queueWakeup w | useWakeup w =>
    by_cases hw : u = w
    · subst hw
      exact ⟨by simpa [effect, Tasks.setTcb, TCB.lives, TCB.active] using hlives, by simp [effect, Tasks.setTcb]⟩
    · exact hother (by simp [effect, Tasks.setTcb, hw])
  | tick n =>
    simp only [effect]
    split
    · exact ⟨hlives, rfl⟩
    · exact ⟨hlives, rfl⟩
  | yield | park | unpark | stackWrite | note | overflow => exact ⟨hlives, rfl⟩

theorem Does.keepsContext {P : Move → Prop} (h : Ok q) (hd : Does P q q') (hlives : (q.tcbs u).lives)
    (hP : ∀ a, P a → a.actor ≠ some u) : (q'.tcbs u).lives ∧ (q'.tcbs u).sp = (q.tcbs u).sp := by
  have hkeep := hd.keeps (I := fun q' => Ok q' ∧ (q'.tcbs u).lives ∧ (q'.tcbs u).sp = (q.tcbs u).sp) ?_
    ⟨h, hlives, rfl⟩
  · exact hkeep.2
  · rintro a q₁ ha hallowed ⟨hok, hlives₁, hsp⟩
    obtain ⟨hlives₂, hsp₂⟩ := Move.keepsContext hok.toPlaced hallowed hlives₁ (hP a ha)
    exact ⟨Move.ok hok hallowed, hlives₂, hsp₂.trans hsp⟩

theorem step_ofCode_current {a : Act} (hinv : Inv k) (hcode : a.ofCode = true) (hk : step e k a = some k') :
    k'.current = k.current := by
  have hok := step_ok hinv hk
  rcases hok.current with hcur | ⟨w, post, -, hlog, hmem⟩
  · exact hcur
  · obtain ⟨a', q, hmove, -, hev⟩ := hok.does.event hlog hmem
    cases a' with
    | dispatch old new sp => cases a <;> first | exact absurd hmove id | cases hcode
    | _ => simp [Move.events] at hev

theorem step_keepsContext {a : Act} (hinv : Inv k) (hk : step e k a = some k') (haway : k.current ≠ some u)
    (hlives : (k.tcbs u).lives) : (k'.tcbs u).lives ∧ (k'.tcbs u).sp = (k.tcbs u).sp :=
  (step_ok hinv hk).does.keepsContext hinv.core.tasks hlives fun _ hm hactor => haway (stepMoves_actor hm hactor)

theorem timer_keepsContext {times : List Nat} (hinv : Inv k) (hk : tkmc_timer_handler k times = some k')
    (hlives : (k.tcbs u).lives) : (k'.tcbs u).lives ∧ (k'.tcbs u).sp = (k.tcbs u).sp := by
  refine (timer_handler_ends hinv hk).2.1.keepsContext hinv.core.tasks hlives fun a ha hactor => ?_
  cases a with
  | tick | wake => cases hactor
  | _ => exact ha

/-! ## Frames -/

/-- The frame of a task that was switched away from with the hart at `h₀`. -/
structure SavedOk (x : MemoryMap) (k : Kernel) (mem : Mem) (u : TskId) (h₀ : Hart) : Prop where
  away : k.current ≠ some u
  lives : (k.tcbs u).lives
  sp : (k.tcbs u).sp = h₀.get .sp - 128
  holds : Holds mem (h₀.get .sp - 128) (Rv32.trap h₀)
  depth : Apart (h₀.get .sp - 128) 128 x.tkmc_isr_depth 4
  msip : Apart (h₀.get .sp - 128) 128 MSIP 4
  stack : Apart (h₀.get .sp - 128) 128 x._isr_stack_start (x._isr_stack_end.toNat - x._isr_stack_start.toNat)

theorem SavedOk.same (hsaved : SavedOk x k mem u h₀) (hcurrent : k'.current = k.current)
    (hkeeps : (k'.tcbs u).lives ∧ (k'.tcbs u).sp = (k.tcbs u).sp)
    (hwords : ∀ i < 29, load mem' (word (h₀.get .sp - 128) i) = load mem (word (h₀.get .sp - 128) i)) :
    SavedOk x k' mem' u h₀ :=
  { hsaved with
    away := hcurrent ▸ hsaved.away
    lives := hkeeps.1
    sp := hkeeps.2.trans hsaved.sp
    holds := hsaved.holds.same hwords }

/-- The hart of the task that was interrupted. -/
def Traps.interrupted (s : Traps) : Option Hart := s.active.getLast?.map fun t => t.before

/-- The task was interrupted with the hart at `h₀`, and has not run since. -/
inductive Owed (x : MemoryMap) (m : Board) (u : TskId) (h₀ : Hart) : Prop where
  | interrupted : m.kernel.current = some u → m.traps.interrupted = some h₀ →
      Holds m.traps.hart.mem (h₀.get .sp - 128) (Rv32.trap h₀) → Owed x m u h₀
  | saved : SavedOk x m.kernel m.traps.hart.mem u h₀ → Owed x m u h₀

/-- The step leaves the frame of a task that was interrupted at `h₀` alone: the code that runs does not write it,
and no task is interrupted with its stack so close that its own frame would overlap it. -/
def LeavesFrame (h₀ : Hart) (m : Board) : BoardAct → Prop
  | .run _ h | .code h | .ret h => ∀ i < 29,
      load h.mem (word (h₀.get .sp - 128) i) = load m.traps.hart.mem (word (h₀.get .sp - 128) i)
  | .trap _ => m.traps.active = [] → Apart (m.traps.hart.get .sp - 128) 128 (h₀.get .sp - 128) 128

theorem Owed.run (howed : Owed x m u h₀) (hcurrent : k'.current = m.kernel.current)
    (hkernel : m.kernel.current ≠ some u → (m.kernel.tcbs u).lives →
      (k'.tcbs u).lives ∧ (k'.tcbs u).sp = (m.kernel.tcbs u).sp)
    (hwords : ∀ i < 29, load h.mem (word (h₀.get .sp - 128) i) = load m.traps.hart.mem (word (h₀.get .sp - 128) i)) :
    Owed x ⟨k', { m.traps with hart := h }⟩ u h₀ := by
  cases howed with
  | interrupted hcur hint hholds => exact .interrupted (hcurrent.trans hcur) hint (hholds.same hwords)
  | saved hsaved => exact .saved (hsaved.same hcurrent (hkernel hsaved.away hsaved.lives) hwords)

theorem frame_kept {a : Word} (hmem : ∀ c, Apart x.tkmc_isr_depth 4 c 4 → Apart MSIP 4 c 4 → load mem' c = load mem c)
    (hdepth : Apart a 128 x.tkmc_isr_depth 4) (hmsip : Apart a 128 MSIP 4) :
    ∀ i < 29, load mem' (word a i) = load mem (word a i) := by
  intro i hi
  exact hmem _ (frame_words_apart hdepth (by omega)).symm (frame_words_apart hmsip (by omega)).symm

theorem TrapsOk.interrupted (hok : TrapsOk x.toIsrStack s) (hint : s.interrupted = some h₀) :
    ∃ t, s.active.getLast? = some t ∧ t.before = h₀ ∧ Outermost x.toIsrStack s.hart.mem t := by
  obtain ⟨t, hlast, hbefore⟩ := Option.map_eq_some_iff.mp hint
  refine ⟨t, hlast, hbefore, ?_⟩
  have hstacked := hok.stacked
  generalize s.active = ts at hlast hstacked
  induction hstacked with
  | nil => cases hlast
  | outermost hout =>
    obtain rfl := Option.some.inj hlast
    exact hout
  | nested _ _ ih => exact ih (by rwa [List.getLast?_cons_cons] at hlast)

theorem Owed.trap {v : TrapEntry} (hmatch : Matches x m.kernel m.traps) (howed : Owed x m u h₀)
    (hs : TrapSteps x.toIsrStack m.traps (.trap v) s')
    (hapart : m.traps.active = [] → Apart (m.traps.hart.get .sp - 128) 128 (h₀.get .sp - 128) 128) :
    Owed x ⟨m.kernel.seen x s'.hart, s'⟩ u h₀ := by
  have htrapped := hmatch.traps.trapped hs
  have hstacked := hmatch.traps.stacked
  obtain ⟨-, hroom, -⟩ := trap_inv hs
  obtain ⟨t, hactive, -, -, -⟩ := htrapped.active
  have hkept : ∀ {a : Word}, Apart (m.traps.hart.get .sp - 128) 128 a 128 → Apart a 128 x.tkmc_isr_depth 4 →
      Apart a 128 MSIP 4 → ∀ i < 29, load s'.hart.mem (word a i) = load m.traps.hart.mem (word a i) := by
    intro a hframe hdepth hmsip i hi
    exact htrapped.other _ (hframe.symm.word_of_block (by omega)).symm
      (frame_words_apart hdepth (by omega)).symm (frame_words_apart hmsip (by omega)).symm
  cases howed with
  | interrupted hcurrent hint hholds =>
    obtain ⟨t', hlast, rfl, hout⟩ := hmatch.traps.interrupted hint
    obtain ⟨w, ws, hcases⟩ := List.exists_cons_of_ne_nil (List.ne_nil_of_mem (List.mem_of_getLast? hlast))
    obtain ⟨hstart, hbelow⟩ := hroom.nested hcases
    rw [hcases] at hstacked hlast
    have hframe := hstacked.apart_frame hstart hbelow t' (List.mem_of_getLast? hlast)
    refine .interrupted hcurrent ?_ (hholds.same (hkept hframe hout.depth hout.msip))
    simp only [Traps.interrupted, hactive, hcases, List.getLast?_cons_cons, hlast, Option.map_some]
  | saved hsaved =>
    refine .saved (hsaved.same rfl ⟨hsaved.lives, rfl⟩ (hkept ?_ hsaved.depth hsaved.msip))
    cases hcases : m.traps.active with
    | nil => exact hapart hcases
    | cons w ws =>
      obtain ⟨hstart, hbelow⟩ := hroom.nested hcases
      rw [hcases] at hstacked
      exact x.frame_apart hstart (hbelow.trans hstacked.le_end) hsaved.stack.symm

theorem ret_words (hok : TrapsOk x.toIsrStack s) (hs : TrapSteps x.toIsrStack s .ret s') (a : Word)
    (hdepth : Apart x.tkmc_isr_depth 4 a 4) (hmsip : Apart MSIP 4 a 4) : load s'.hart.mem a = load s.hart.mem a := by
  obtain ⟨t, ts, -, -, hexits⟩ := hok.ret_cases hs
  cases hexits with
  | nested hleft _ => rw [hleft.mem, load_store_apart hdepth]
  | leave _ hleft => rw [hleft.mem, load_store_apart hdepth]
  | schedule _ _ hswitching => rw [hswitching.mem, load_store_apart hmsip]

/-! ## Switches -/

theorem Shows.requested (hshows : Shows m k) (hinv : Inv k) (hactive : m.traps.active = [t])
    (hcallee : t.callee = .schedule) : ∃ k₁, Inv k₁ ∧ k₁.msip = true ∧ m.kernel = { k₁ with msip := false } := by
  cases hshows with
  | code hcode => cases hcallee.symm.trans (hcode.callee hactive)
  | timer hu htimer => cases hcallee.symm.trans ((callee_unique hu hactive).trans htimer)
  | timer_switch _ _ _ hhandler hmsip hkernel => exact ⟨_, (timer_handler_ends hinv.entered hhandler).1, hmsip, hkernel⟩
  | external_switch _ _ _ _ hmsip hkernel => exact ⟨_, hinv, hmsip, hkernel⟩
  | software _ _ _ hmsip hkernel => exact ⟨_, hinv.entered, hmsip, hkernel⟩

theorem Shows.timer_inv (hshows : Shows m k) (hinv : Inv k) (hactive : m.traps.active = [t])
    (hcallee : t.callee = .tkmc_timer_handler) : Inv m.kernel := by
  cases hshows with
  | code hcode => cases hcallee.symm.trans (hcode.callee hactive)
  | timer_switch hu hsched => cases hcallee.symm.trans ((callee_unique hu hactive).trans hsched)
  | external_switch hu hsched => cases hcallee.symm.trans ((callee_unique hu hactive).trans hsched)
  | software hu hsched => cases hcallee.symm.trans ((callee_unique hu hactive).trans hsched)
  | timer _ _ _ hkernel =>
    rw [hkernel]
    exact hinv.entered

theorem schedule_eq {sp : UINT} {old new : TskId} (hinv : Inv k) (hmsip : k.msip = true) (hold : k.current = some old)
    (hnew : (schedule { k with msip := false } sp).current = some new) :
    (schedule { k with msip := false } sp).toTasks = (Move.dispatch old new sp).effect k.toTasks := by
  rw [software_eq hmsip] at hnew ⊢
  rcases serve_msip_eq hinv.sched hinv.core.tasks.toPlaced sp with ⟨-, hno⟩ | ⟨old', new', hold', -, -, -, heq⟩
  · cases hmsip.symm.trans hno
  · obtain rfl := Option.some.inj (hold.symm.trans hold')
    rw [heq] at hnew ⊢
    obtain rfl := Option.some.inj hnew
    rfl

/-! ## Coming back -/

/-- The task runs, and no trap. -/
def Board.runs (m : Board) (u : TskId) : Prop := m.traps.active = [] ∧ m.kernel.current = some u

/-- The registers of the task and the place where it goes on. -/
structure Back (h₀ h : Hart) : Prop where
  regs : ∀ r ∈ .sp :: registers, h.get r = h₀.get r
  pc : h.pc = h₀.pc
  on : h.on = true

theorem left_back {mie : Word} (hleft : Left x.toSymbols (h₀.get .sp - 128) mie h h')
    (hholds : Holds h.mem (h₀.get .sp - 128) (Rv32.trap h₀)) (hdepth : Apart (h₀.get .sp - 128) 128 x.tkmc_isr_depth 4)
    (hmpie : h.csr .mstatus &&& Rv32.MPIE ≠ 0) : Back h₀ h' := by
  have hholds' : Holds h'.mem (h₀.get .sp - 128) (Rv32.trap h₀) := by
    refine hholds.same fun i hi => ?_
    rw [hleft.mem, load_store_apart (frame_words_apart hdepth (by omega)).symm]
  refine ⟨fun r hr => ?_, ?_, ?_⟩
  · rcases List.mem_cons.mp hr with rfl | hr
    · rw [hleft.sp]
      exact BitVec.sub_add_cancel _ _
    · obtain ⟨i, hi⟩ := exists_index hr
      rw [hleft.regs (r, i) hi, hholds'.regs (r, i) hi, Rv32.get_trap]
  · rw [hleft.pc, hholds'.mepc, Rv32.mepc_trap]
  · rw [hleft.on]
    exact decide_eq_true hmpie

theorem TrapsOk.leave_frame (hok : TrapsOk x.toIsrStack s) (hactive : s.active = [t])
    (hs : TrapSteps x.toIsrStack s .ret s') (hnil : s'.active = []) :
    ∃ mie, Left x.toSymbols (if t.callee = .schedule then s.hart.get .a0 else t.frame) mie s.hart s'.hart := by
  have hdepth := hok.depth
  have hstacked := hok.stacked
  rw [hactive] at hdepth hstacked
  cases hs with
  | call _ _ _ => cases hnil
  | leave hcons hret hrun =>
    obtain ⟨rfl, rfl⟩ := List.cons_eq_cons.mp (hcons.symm.trans hactive)
    cases hstacked with
    | outermost hout =>
      split
      · rename_i hschedule
        obtain ⟨h', hrun', hleft⟩ := scheduled x.toSymbols _ s.hart
        rw [hout.rest, hschedule, hrun'] at hrun
        obtain rfl := Rv32.Stop.left.inj hrun
        exact ⟨_, hleft⟩
      · rename_i hschedule
        have hcallee := hout.callee.resolve_right hschedule
        have hrest := hout.rest
        rw [hcallee] at hrest
        obtain ⟨hzero, hone⟩ := handled (h := s.hart) (x := x.toSymbols) (by rwa [← hcallee]) hdepth
        rw [hrest] at hrun
        by_cases hmsip : load s.hart.mem MSIP = 0
        · obtain ⟨h', hrun', hleft⟩ := hzero hmsip
          obtain rfl := Rv32.Stop.left.inj (hrun.symm.trans hrun')
          rw [hret.saved .s0 (by decide), hout.s0] at hleft
          exact ⟨_, hleft⟩
        · obtain ⟨g, hrun', -⟩ := hone hmsip
          cases hrun.symm.trans hrun'

theorem Matches.back (hmatch : Matches x k s) (hactive : s.active = [t]) (hs : TrapSteps x.toIsrStack s .ret s')
    (hnil : s'.active = []) (hframe : (if t.callee = .schedule then s.hart.get .a0 else t.frame) = h₀.get .sp - 128)
    (hholds : Holds s.hart.mem (h₀.get .sp - 128) (Rv32.trap h₀))
    (hdepth : Apart (h₀.get .sp - 128) 128 x.tkmc_isr_depth 4) : Back h₀ s'.hart := by
  obtain ⟨mie, hleft⟩ := hmatch.traps.leave_frame hactive hs hnil
  rw [hframe] at hleft
  exact left_back hleft hholds hdepth (hmatch.mpie (by rw [hactive]; simp))

theorem interrupted_of_singleton (hactive : s.active = [t]) : s.interrupted = some t.before := by
  unfold Traps.interrupted
  rw [hactive]
  rfl

theorem Owed.ret (hmatch : Matches x m.kernel m.traps) (howed : Owed x m u h₀)
    (hcallee : ∀ t ∈ m.traps.active, t.callee ≠ .schedule) (hs : TrapSteps x.toIsrStack m.traps .ret s') :
    Owed x ⟨m.kernel.seen x s'.hart, s'⟩ u h₀ ∨
      (s'.active = [] ∧ m.kernel.current = some u ∧ Back h₀ s'.hart) := by
  have hwords := ret_words hmatch.traps hs
  cases howed with
  | interrupted hcurrent hint hholds =>
    obtain ⟨t', -, rfl, hout⟩ := hmatch.traps.interrupted hint
    have hholds' := hholds.same (frame_kept hwords hout.depth hout.msip)
    obtain ⟨t, ts, hactive, -, hexits⟩ := hmatch.traps.ret_cases hs
    have hint' := hint
    unfold Traps.interrupted at hint'
    rw [hactive] at hint'
    cases hexits with
    | nested _ _ => exact .inl (.interrupted hcurrent (by rwa [List.getLast?_cons_cons] at hint') hholds')
    | schedule _ _ _ => exact .inl (.interrupted hcurrent hint' hholds')
    | leave _ _ =>
      refine .inr ⟨rfl, hcurrent, hmatch.back hactive hs rfl ?_ hholds hout.depth⟩
      rw [if_neg (hcallee t (by rw [hactive]; exact List.mem_cons_self))]
      have hbefore : t.before = t'.before := Option.some.inj hint'
      unfold ActiveTrap.frame
      rw [hbefore]
  | saved hsaved =>
    exact .inl (.saved (hsaved.same rfl ⟨hsaved.lives, rfl⟩ (frame_kept hwords hsaved.depth hsaved.msip)))

/-- The switch itself: the frame of the old task goes in its TCB, and the new one runs. -/
theorem Owed.schedule {old new : TskId} (hmatch : Matches x m.kernel m.traps) (howed : Owed x m u h₀)
    (hlives : (m.kernel.tcbs u).lives) (hactive : m.traps.active = [t]) (hcallee : t.callee = .schedule)
    (hold : m.kernel.current = some old) (hnew : k'.current = some new)
    (htasks : k'.tcbs = ((Move.dispatch old new (t.called.get .a0)).effect m.kernel.toTasks).tcbs)
    (ha0 : h.get .a0 = (k'.tcbs new).sp)
    (hleaves : ∀ i < 29, load h.mem (word (h₀.get .sp - 128) i) = load m.traps.hart.mem (word (h₀.get .sp - 128) i))
    (hmatch' : Matches x k' { m.traps with hart := h })
    (hs : TrapSteps x.toIsrStack { m.traps with hart := h } .ret s') :
    Owed x ⟨k'.seen x s'.hart, s'⟩ u h₀ ∨ (s'.active = [] ∧ new = u ∧ Back h₀ s'.hart) := by
  have hwords := ret_words hmatch'.traps hs
  have hnil : s'.active = [] := by
    cases hmatch'.returned (t := t) hactive hs with
    | leave _ hnil _ _ => exact hnil
    | switch hne => exact absurd hcallee hne
  have haway : u ≠ new → k'.current ≠ some u := by
    intro hne heq
    exact hne (Option.some.inj (heq.symm.trans hnew))
  cases howed with
  | interrupted hcurrent hint hholds =>
    obtain rfl := Option.some.inj (hcurrent.symm.trans hold)
    obtain ⟨t', hlast, rfl, hout⟩ := hmatch.traps.interrupted hint
    rw [hactive] at hlast
    obtain rfl : t = t' := Option.some.inj hlast
    obtain ⟨hsp, -⟩ := hout.switch hcallee
    by_cases hu : u = new
    · subst hu
      refine .inr ⟨hnil, rfl, hmatch'.back hactive hs hnil ?_ (hholds.same hleaves) hout.depth⟩
      rw [if_pos hcallee]
      show h.get .a0 = _
      rw [ha0, htasks]
      simp only [Move.effect, Tasks.setTcb, Tasks.note, Function.update_self]
      exact hsp
    · have htcb : k'.tcbs u = { m.kernel.tcbs u with
          sp := t.called.get .a0
          tskstat := if (m.kernel.tcbs u).tskstat = .RUN then .RDY else (m.kernel.tcbs u).tskstat } := by
        rw [htasks]
        simp [Move.effect, Tasks.setTcb, Tasks.note, hu]
      refine .inl (.saved ⟨haway hu, ?_, ?_, ?_, hout.depth, hout.msip, hout.stack⟩)
      · show (k'.tcbs u).lives
        rw [htcb]
        unfold TCB.lives TCB.active at hlives ⊢
        simp only
        split
        · exact .inl (.inl rfl)
        · exact hlives
      · show (k'.tcbs u).sp = _
        rw [htcb]
        exact hsp
      · exact (hholds.same hleaves).same (frame_kept hwords hout.depth hout.msip)
  | saved hsaved =>
    have hne : u ≠ old := by
      rintro rfl
      exact hsaved.away hold
    by_cases hu : u = new
    · subst hu
      refine .inr ⟨hnil, rfl, hmatch'.back hactive hs hnil ?_ (hsaved.holds.same hleaves) hsaved.depth⟩
      rw [if_pos hcallee]
      show h.get .a0 = _
      rw [ha0, htasks, ← hsaved.sp]
      simp [Move.effect, Tasks.setTcb, Tasks.note, hne]
    · have htcb : k'.tcbs u = m.kernel.tcbs u := by
        rw [htasks]
        simp [Move.effect, Tasks.setTcb, Tasks.note, hu, hne]
      refine .inl (.saved ⟨haway hu, ?_, ?_, ?_, hsaved.depth, hsaved.msip, hsaved.stack⟩)
      · show (k'.tcbs u).lives
        rw [htcb]
        exact hsaved.lives
      · show (k'.tcbs u).sp = _
        rw [htcb]
        exact hsaved.sp
      · exact (hsaved.holds.same hleaves).same (frame_kept hwords hsaved.depth hsaved.msip)

theorem step_owed {a : BoardAct} (hreach : BoardReachable b x m) (hlives : (m.kernel.tcbs u).lives)
    (howed : Owed x m u h₀) (hs : BoardSteps x b.entries m a m') (hleaves : LeavesFrame h₀ m a) :
    Owed x m' u h₀ ∨ (m'.runs u ∧ Back h₀ m'.traps.hart) := by
  have hmatch := hreach.matches
  obtain ⟨k, hk, hshows⟩ := hreach.shows
  cases hs with
  | run hcode hact hstep _ =>
    obtain rfl := hshows.inCode hcode
    refine .inl (howed.run (step_ofCode_current hk.inv hact hstep) ?_ hleaves)
    exact step_keepsContext hk.inv hstep
  | code _ _ => exact .inl (howed.run rfl (fun _ hlives => ⟨hlives, rfl⟩) hleaves)
  | trap hs _ => exact .inl (howed.trap hmatch hs hleaves)
  | external_ret hactive hcallee hs =>
    have hno : ∀ t' ∈ m.traps.active, t'.callee ≠ .schedule := by
      intro t' ht' hschedule
      obtain ⟨hone, -⟩ := (hmatch.traps.stacked.switch ht').2 hschedule
      obtain ⟨rfl, -⟩ := List.cons_eq_cons.mp (hactive.symm.trans hone)
      cases hcallee.symm.trans hschedule
    rcases howed.ret hmatch hno hs with howed | ⟨hnil, hcurrent, hback⟩
    · exact .inl howed
    · exact .inr ⟨⟨hnil, hcurrent⟩, hback⟩
  | timer_ret hactive hcallee hhandler hruns hs =>
    have hinv := hshows.timer_inv hk.inv hactive hcallee
    obtain ⟨-, -, hcur, -⟩ := timer_handler_ends hinv hhandler
    have howed' := howed.run hcur (fun _ hlives => timer_keepsContext hinv hhandler hlives) hleaves
    have hno : ∀ t' ∈ m.traps.active, t'.callee ≠ .schedule := by
      intro t' ht' hschedule
      rw [hactive, List.mem_singleton] at ht'
      subst ht'
      cases hcallee.symm.trans hschedule
    rcases Owed.ret (m := ⟨_, _⟩) (hmatch.run hruns) howed' hno hs with howed | ⟨hnil, hcurrent, hback⟩
    · exact .inl howed
    · exact .inr ⟨⟨hnil, hcurrent⟩, hback⟩
  | schedule_ret hactive hcallee hsched hold hnew ha0 hruns hs =>
    obtain ⟨k₁, hinv, hmsip, hkernel⟩ := hshows.requested hk.inv hactive hcallee
    subst hsched
    have hret := howed.schedule hmatch hlives hactive hcallee hold hnew ?_ ha0 hleaves (hmatch.run hruns) hs
    · rcases hret with howed | ⟨hnil, rfl, hback⟩
      · exact .inl howed
      · exact .inr ⟨⟨hnil, hnew⟩, hback⟩
    · rw [hkernel] at hold hnew ⊢
      rw [schedule_eq hinv hmsip hold hnew]

/-- A step after which the task lives and does not run, with its frame left alone. -/
def Away (x : MemoryMap) (e : Entries) (u : TskId) (h₀ : Hart) (m : Board) (a : BoardAct) (m' : Board) : Prop :=
  BoardSteps x e m a m' ∧ LeavesFrame h₀ m a ∧ (m'.kernel.tcbs u).lives ∧ ¬m'.runs u

/-- **A task gets its registers back.** It is interrupted while it runs, at `m`, and runs again, at `m₃`, after
whatever traps, switches and kernel calls of others, if they leave its frame alone. -/
theorem context_comes_back {v : TrapEntry} {a : BoardAct} {as : List BoardAct} (h : BoardReachable b x m)
    (hruns : m.runs u) (hlives : (m.kernel.tcbs u).lives) (htrap : BoardSteps x b.entries m (.trap v) m₁)
    (haway : Paths.Path (Away x b.entries u m.traps.hart) m₁ as m₂) (hback : BoardSteps x b.entries m₂ a m₃)
    (hleaves : LeavesFrame m.traps.hart m₂ a) (hruns₃ : m₃.runs u) :
    (∀ r ∈ .sp :: registers, m₃.traps.hart.get r = m.traps.hart.get r) ∧
      m₃.traps.hart.pc = m.traps.hart.pc ∧ m₃.traps.hart.on = true := by
  have hfirst : Owed x m₁ u m.traps.hart ∧ (m₁.kernel.tcbs u).lives := by
    cases htrap with
    | trap hs _ =>
      have htrapped := h.matches.traps.trapped hs
      obtain ⟨t, hactive, -, hbefore, -⟩ := htrapped.active
      obtain ⟨-, hroom, -⟩ := trap_inv hs
      rw [hruns.1] at hactive
      refine ⟨.interrupted hruns.2 ?_ htrapped.holds, hlives⟩
      rw [interrupted_of_singleton hactive, hbefore]
  have hreach₁ : BoardReachable b x m₁ := h.step htrap
  have hinv := haway.invariant
    (I := fun m' => BoardReachable b x m' ∧ Owed x m' u m.traps.hart ∧ (m'.kernel.tcbs u).lives) ?_ ⟨hreach₁, hfirst⟩
  · obtain ⟨hreach₂, howed, hlives₂⟩ := hinv
    rcases step_owed hreach₂ hlives₂ howed hback hleaves with howed₃ | ⟨-, hback⟩
    · cases howed₃ with
      | interrupted _ hint _ =>
        simp only [Traps.interrupted, hruns₃.1] at hint
        cases hint
      | saved hsaved => exact absurd hruns₃.2 hsaved.away
    · exact ⟨hback.regs, hback.pc, hback.on⟩
  · rintro m' a m'' ⟨hreach, howed, hlives'⟩ ⟨hs, hleaves', hlives'', hnot⟩
    refine ⟨hreach.step hs, ?_, hlives''⟩
    rcases step_owed hreach hlives' howed hs hleaves' with howed' | ⟨hruns', -⟩
    · exact howed'
    · exact absurd hruns' hnot

/-! ## A run -/

/-- `MSIP` is up. -/
def raised (h : Hart) : Hart := { h with mem := store h.mem MSIP 1 }

theorem request_steps {a : Act} (hreach : BoardReachable b x m) (hcode : m.traps.inCode)
    (hlength : m.traps.active.length ≤ 1) (hact : a.ofCode = true) (hstep : step b.entries m.kernel a = some k')
    (hmie : k'.mie = m.kernel.mie) (hmsip : k'.msip = true) (hdepth : k'.isr_depth = m.kernel.isr_depth) :
    BoardSteps x b.entries m (.run a (raised m.traps.hart)) ⟨k', { m.traps with hart := raised m.traps.hart }⟩ := by
  have hmatch := hreach.matches
  have hone : load (raised m.traps.hart).mem MSIP = 1 := load_store _ _ _
  have hcount : load (raised m.traps.hart).mem x.tkmc_isr_depth = load m.traps.hart.mem x.tkmc_isr_depth :=
    load_store_apart x.msip.symm
  refine .run hcode hact hstep
    ⟨⟨hcount, framesKept_of_words fun v hv i hi => ?_, hmatch.traps.on⟩, seen_eq ?_ ?_ ?_, fun _ => rfl⟩
  · have hactive : m.traps.active = [v] := by
      obtain ⟨w, hw⟩ := List.length_eq_one_iff.mp (Nat.le_antisymm hlength (List.length_pos_of_mem hv))
      rw [hw] at hv ⊢
      rw [List.mem_singleton.mp hv]
    obtain ⟨t, -, hbefore, hout⟩ := hmatch.traps.interrupted (interrupted_of_singleton hactive)
    have hapart := hout.msip
    unfold ActiveTrap.frame at hapart
    rw [hbefore] at hapart
    exact load_store_apart (frame_words_apart hapart (by omega)).symm
  · rw [hmie, hmatch.on]
    rfl
  · rw [hone, hmsip]
    rfl
  · rw [hcount, hdepth]
    exact (congrArg (fun k : Kernel => k.isr_depth) hmatch.seen)

theorem switch_steps {new : TskId} (hreach : BoardReachable b x m) (hactive : m.traps.active = [t])
    (hcallee : t.callee = .schedule) (hcalled : m.traps.hart = t.called)
    (hnew : (schedule m.kernel (t.called.get .a0)).current = some new) :
    ∃ m' h, BoardSteps x b.entries m (.ret h) m' ∧ h.mem = m.traps.hart.mem ∧ m'.traps.active = [] ∧
      m'.kernel = { schedule m.kernel (t.called.get .a0) with mie := true, isr_depth := 0 } ∧
      m'.traps.hart.get .sp = ((schedule m.kernel (t.called.get .a0)).tcbs new).sp + 128 := by
  have hmatch := hreach.matches
  let k₁ := schedule m.kernel (t.called.get .a0)
  let h := m.traps.hart.set .a0 (k₁.tcbs new).sp
  have hoff : m.traps.hart.on = false := by
    by_contra hon
    obtain ⟨hext, -⟩ := hmatch.traps.on (by simpa using hon) t (by rw [hactive]; rfl)
    cases hcallee.symm.trans hext
  have hseen : k₁.seen x h = k₁ := by
    obtain ⟨hmie, hmsip, hdepth⟩ := schedule_machine m.kernel (t.called.get .a0)
    refine seen_eq ?_ ?_ ?_
    · rw [hmie, hmatch.on]
      rfl
    · rw [hmsip, hmatch.msip]
      rfl
    · rw [hdepth]
      exact congrArg (fun k : Kernel => k.isr_depth) hmatch.seen
  have hruns : CodeRuns x m.traps k₁ h :=
    ⟨⟨rfl, framesKept_of_words fun _ _ _ _ => rfl, fun hon => hmatch.traps.on hon⟩, hseen, fun _ => rfl⟩
  have hmatch' := hmatch.run hruns
  have hret : MayReturn t h := by
    refine ⟨hoff, by rw [← hcalled]; rfl, fun r hr => ?_⟩
    have hne : r ≠ .a0 := by
      rintro rfl
      revert hr
      decide
    rw [← hcalled, Rv32.get_set (by decide), if_neg hne]
  have ha0 : h.get .a0 = (k₁.tcbs new).sp := by
    rw [Rv32.get_set (by decide), if_pos rfl]
  obtain ⟨s', hs, -⟩ := hmatch'.traps.ret_next hactive hret
  obtain ⟨old, hold⟩ : ∃ old, m.kernel.current = some old := by
    obtain ⟨k, hk, hshows⟩ := hreach.shows
    obtain ⟨k₁, hinv, -, hkernel⟩ := hshows.requested hk.inv hactive hcallee
    rw [hkernel]
    exact hinv.sched.current
  cases hmatch'.returned (t := t) hactive hs with
  | switch hne => exact absurd hcallee hne
  | leave _ hnil _ hkernel =>
    obtain ⟨mie, hleft⟩ := hmatch'.traps.leave_frame hactive hs hnil
    refine ⟨_, h, .schedule_ret hactive hcallee rfl hold hnew ha0 hruns hs, rfl, hnil, hkernel, ?_⟩
    rw [hleft.sp, if_pos hcallee]
    exact congrArg (· + 128) ha0

theorem trap_steps {v : TrapEntry} (hreach : BoardReachable b x m) (hmay : MayTrap m.traps v)
    (hroom : Room x.toIsrStack m.traps) (hmsip : v = .mtrap_handler → m.kernel.msip = true) :
    ∃ m' t, BoardSteps x b.entries m (.trap v) m' ∧ m'.traps.active = t :: m.traps.active ∧
      t.before = m.traps.hart ∧ t.callee = v.handler ∧ t.called = m'.traps.hart ∧
      m'.kernel = { m.kernel with
        mie := false, isr_depth := m.kernel.isr_depth + 1
        msip := if v = .mtrap_handler then false else m.kernel.msip } := by
  have hmatch := hreach.matches
  have htrap : ∃ s', TrapSteps x.toIsrStack m.traps (.trap v) s' := by
    rcases hmatch.traps.trap_cases hmay hroom with ⟨-, g, hrun, -⟩ | ⟨-, rfl, g, hrun, -⟩
    · exact ⟨_, .trap hmay hroom hrun⟩
    · exact ⟨_, .trap hmay hroom hrun⟩
  obtain ⟨s', hs⟩ := htrap
  have htrapped := hmatch.traps.trapped hs
  obtain ⟨-, -, f, rest, -, hactive⟩ := trap_inv hs
  obtain ⟨t, hactive', -, -, hcallee⟩ := htrapped.active
  obtain ⟨rfl, -⟩ := List.cons_eq_cons.mp (hactive.symm.trans hactive')
  have hseen := htrapped.seen m.kernel
  rw [hmatch.seen] at hseen
  exact ⟨_, _, .trap hs hmsip, hactive, rfl, hcallee, rfl, hseen⟩

theorem external_ret_steps (hreach : BoardReachable b x m) (hactive : m.traps.active = [t])
    (hcallee : t.callee = .tkmc_external_interrupt) (hret : MayReturn t m.traps.hart) (hmsip : m.kernel.msip = true) :
    ∃ m' t', BoardSteps x b.entries m (.ret m.traps.hart) m' ∧ m'.traps.active = [t'] ∧ t'.callee = .schedule ∧
      t'.called = m'.traps.hart ∧ t'.before = t.before ∧ m'.kernel = { m.kernel with msip := false } := by
  have hmatch := hreach.matches
  obtain ⟨s', hs, hexits⟩ := hmatch.traps.ret_next hactive hret
  cases hexits with
  | leave hno _ =>
    rcases hno with hschedule | hzero
    · cases hcallee.symm.trans hschedule
    · rw [hmatch.msip, hzero] at hmsip
      cases hmsip
  | schedule hne hmsip' hswitching =>
    refine ⟨_, _, .external_ret hactive hcallee hs, rfl, rfl, rfl, rfl, ?_⟩
    rw [seen_switching hswitching, hmatch.seen]

theorem sampleRun_step (as : List Act) {a : Act} (hk : sampleRun as = some k) (hk' : sampleRun (as ++ [a]) = some k') :
    step sampleBoot.entries k a = some k' := by
  simp only [sampleRun, run, List.foldlM_append, List.foldlM_cons, List.foldlM_nil, bind_pure] at hk hk'
  cases hstart : tkmc_start sampleBoot with
  | none => simp [hstart] at hk
  | some k₀ =>
    simp only [hstart, Option.bind_some] at hk hk'
    simpa [hk] using hk'

/-- The run of the model: the initial task sleeps, and the idle task runs until a handler wakes it up. -/
def sampleActs : List Act :=
  [.call (.wait (.slp (-1))) [], .software_interrupt 0x8000ff80, .external_enter, .call (.wup_tsk 1) [],
    .external_leave 0x80010380]

/-- The hart of the initial task when it has asked for the switch. -/
def sampleAsleep : Hart := raised sampleTask

theorem sample_asleep : ∃ m, BoardReachable sampleBoot sampleMap m ∧ sampleRun (sampleActs.take 1) = some m.kernel ∧
    m.traps = ⟨sampleAsleep, []⟩ := by
  obtain ⟨m, hreach, htraps, hk⟩ := sampleBoard_reachable
  obtain ⟨k, hk', hmie, hdepth⟩ := sampleRun_of_any [] (fun k => k.mie = true ∧ k.isr_depth = 0) (by decide +kernel)
  obtain rfl := Option.some.inj (hk.symm.trans hk')
  obtain ⟨k₁, hk₁, hmie₁, hmsip₁, hdepth₁⟩ := sampleRun_of_any (sampleActs.take 1)
    (fun k => k.mie = true ∧ k.msip = true ∧ k.isr_depth = 0) (by decide +kernel)
  have hstep := request_steps hreach (inCode_of_nil (by rw [htraps])) (by rw [htraps]; simp) rfl
    (sampleRun_step [] hk hk₁) (hmie₁.trans hmie.symm) hmsip₁ (hdepth₁.trans hdepth.symm)
  refine ⟨_, hreach.step hstep, hk₁, ?_⟩
  simp only [htraps, sampleAsleep]

theorem sample_switched : ∃ m m₁ m₂ h, BoardReachable sampleBoot sampleMap m ∧ m.runs 0 ∧ (m.kernel.tcbs 0).lives ∧
    m.traps.hart = sampleAsleep ∧ BoardSteps sampleMap sampleBoot.entries m (.trap .mtrap_handler) m₁ ∧
    BoardSteps sampleMap sampleBoot.entries m₁ (.ret h) m₂ ∧ h.mem = m₁.traps.hart.mem ∧
    sampleRun (sampleActs.take 2) = some m₂.kernel ∧ m₂.traps.active = [] ∧ m₂.traps.hart.get .sp = 0x80010400 := by
  obtain ⟨m, hreach, hk, htraps⟩ := sample_asleep
  obtain ⟨k, hk', hmie, hmsip, hdepth, hcur, hlives⟩ := sampleRun_of_any (sampleActs.take 1)
    (fun k => k.mie = true ∧ k.msip = true ∧ k.isr_depth = 0 ∧ k.current = some 0 ∧ (k.tcbs 0).lives)
    (by decide +kernel)
  obtain rfl := Option.some.inj (hk.symm.trans hk')
  have hruns : m.runs 0 := ⟨by rw [htraps], hcur⟩
  have hroom : Room sampleIsr m.traps := by
    rw [htraps]
    unfold Room
    decide
  have hmay : MayTrap m.traps .mtrap_handler := by
    rw [htraps]
    exact ⟨by decide, .inr (by decide)⟩
  obtain ⟨m₁, t, htrap, hactive, hbefore, hcallee, hcalled, hkernel₁⟩ := trap_steps hreach hmay hroom fun _ => hmsip
  rw [hruns.1] at hactive
  have hreach₁ : BoardReachable sampleBoot sampleMap m₁ := hreach.step htrap
  have hsp₁ : t.called.get .a0 = 0x8000ff80 := by
    have hstacked := hreach₁.matches.traps.stacked
    rw [hactive] at hstacked
    cases hstacked with
    | outermost hout =>
      rw [(hout.switch hcallee).1]
      unfold ActiveTrap.frame
      rw [hbefore, htraps]
      decide
  obtain ⟨k₂, hk₂, hcur₂, hidle₂⟩ := sampleRun_of_any (sampleActs.take 2)
    (fun k => k.current = some 1 ∧ (k.tcbs 1).sp = 0x80010380) (by decide +kernel)
  have hcan : canTrap m.kernel = true := by
    unfold canTrap
    rw [hmie, hdepth]
    rfl
  have hsched₂ : k₂ = { schedule m₁.kernel (t.called.get .a0) with mie := true, isr_depth := 0 } := by
    have hstep := sampleRun_step (sampleActs.take 1) hk hk₂
    rw [hkernel₁, hsp₁, if_pos rfl]
    exact Option.some.inj (hstep.symm.trans (software_steps hcan hmsip 0x8000ff80))
  rw [hsched₂] at hcur₂ hidle₂
  obtain ⟨m₂, h, hs₂, hmem, hnil₂, hkernel₂, hsp₂⟩ := switch_steps hreach₁ hactive hcallee hcalled.symm hcur₂
  refine ⟨m, m₁, m₂, h, hreach, hruns, hlives, by rw [htraps], htrap, hs₂, hmem, ?_, hnil₂, ?_⟩
  · rw [hkernel₂, ← hsched₂]
    exact hk₂
  · rw [hsp₂, hidle₂]
    decide

theorem sample_woken (hreach : BoardReachable sampleBoot sampleMap m)
    (hk : sampleRun (sampleActs.take 2) = some m.kernel) (hnil : m.traps.active = [])
    (hsp : m.traps.hart.get .sp = 0x80010400) :
    ∃ m₁ m₂ t, BoardSteps sampleMap sampleBoot.entries m (.trap .external_interrupt) m₁ ∧
      BoardSteps sampleMap sampleBoot.entries m₁ (.run (.call (.wup_tsk 1) []) (raised m₁.traps.hart)) m₂ ∧
      sampleRun (sampleActs.take 3) = some m₁.kernel ∧ sampleRun (sampleActs.take 4) = some m₂.kernel ∧
      m₁.traps.active = [t] ∧ m₂.traps.active = [t] ∧ t.callee = .tkmc_external_interrupt ∧
      m₂.traps.hart = raised t.called ∧ t.called.on = false ∧ t.before = m.traps.hart := by
  have hmatch := hreach.matches
  obtain ⟨k, hk', hmie⟩ := sampleRun_of_any (sampleActs.take 2) (fun k => k.mie = true) (by decide +kernel)
  obtain rfl := Option.some.inj (hk.symm.trans hk')
  have hroom : Room sampleIsr m.traps := by
    unfold Room
    rw [hnil, hsp]
    decide
  obtain ⟨m₁, t, hs, hactive, hbefore, hcallee, hcalled, hkernel⟩ := trap_steps hreach
    (v := .external_interrupt) ⟨hmatch.on.symm.trans hmie, .inl rfl⟩ hroom fun hv => by cases hv
  rw [hnil] at hactive
  have hreach₁ : BoardReachable sampleBoot sampleMap m₁ := hreach.step hs
  obtain ⟨k₁, hk₁, hmie₁, hdepth₁⟩ := sampleRun_of_any (sampleActs.take 3)
    (fun k => k.mie = false ∧ k.isr_depth = 1) (by decide +kernel)
  have hk₁' : m₁.kernel = k₁ := by
    have hstep := sampleRun_step (sampleActs.take 2) hk hk₁
    rw [hkernel]
    unfold step at hstep
    simp only [hmie, if_true] at hstep
    rw [← Option.some.inj hstep, if_neg (by decide)]
  subst hk₁'
  obtain ⟨k₂, hk₂, hmie₂, hmsip₂, hdepth₂⟩ := sampleRun_of_any (sampleActs.take 4)
    (fun k => k.mie = false ∧ k.msip = true ∧ k.isr_depth = 1) (by decide +kernel)
  have hcode : m₁.traps.inCode := by
    intro w hw
    rw [hactive] at hw
    obtain rfl := Option.some.inj hw
    exact hcallee
  have hrun := request_steps hreach₁ hcode (by rw [hactive]; simp) rfl (sampleRun_step (sampleActs.take 3) hk₁ hk₂)
    (hmie₂.trans hmie₁.symm) hmsip₂ (hdepth₂.trans hdepth₁.symm)
  refine ⟨m₁, _, t, hs, hrun, hk₁, hk₂, hactive, hactive, hcallee, by rw [hcalled], ?_, hbefore⟩
  rw [hcalled, ← hreach₁.matches.on, hmie₁]

theorem raised_leaves (h : Hart) : ∀ i < 29, load (raised h).mem (word (sampleAsleep.get .sp - 128) i) =
    load h.mem (word (sampleAsleep.get .sp - 128) i) := by
  intro i hi
  have hapart : Apart (sampleAsleep.get .sp - 128) 128 MSIP 4 := by decide
  exact load_store_apart (frame_words_apart hapart (by omega)).symm

/-- The initial task sleeps, and the idle task runs until a handler wakes it up. -/
theorem context_comes_back_sample : ∃ m m₁ m₂ m₃ h₁ h₂ h₃ a, BoardReachable sampleBoot sampleMap m ∧ m.runs 0 ∧
    BoardSteps sampleMap sampleBoot.entries m (.trap .mtrap_handler) m₁ ∧
    Paths.Path (Away sampleMap sampleBoot.entries 0 m.traps.hart) m₁
      [.ret h₁, .trap .external_interrupt, .run (.call (.wup_tsk 1) []) h₂, .ret h₃] m₂ ∧
    BoardSteps sampleMap sampleBoot.entries m₂ a m₃ ∧ m₃.runs 0 ∧
    m₃.traps.hart.get .sp = 0x80010000 ∧ m₃.traps.hart.pc = 0x80004000 := by
  obtain ⟨m, m₁, m₂, h₁, hreach, hruns, hlives, hhart, htrap, hs₂, hmem, hk₂, hnil₂, hsp₂⟩ := sample_switched
  have hreach₂ : BoardReachable sampleBoot sampleMap m₂ := (hreach.step htrap).step hs₂
  obtain ⟨m₃, m₄, t, hs₃, hs₄, hk₃, hk₄, hactive₃, hactive₄, hcallee, hcalled, hoff, hbefore⟩ :=
    sample_woken hreach₂ hk₂ hnil₂ hsp₂
  have hreach₄ : BoardReachable sampleBoot sampleMap m₄ := (hreach₂.step hs₃).step hs₄
  obtain ⟨k₂, hk₂', hcur₂, hlives₂⟩ := sampleRun_of_any (sampleActs.take 2)
    (fun k => k.current = some 1 ∧ (k.tcbs 0).lives) (by decide +kernel)
  obtain rfl := Option.some.inj (hk₂.symm.trans hk₂')
  obtain ⟨k₃, hk₃', hlives₃⟩ := sampleRun_of_any (sampleActs.take 3) (fun k => (k.tcbs 0).lives) (by decide +kernel)
  obtain rfl := Option.some.inj (hk₃.symm.trans hk₃')
  obtain ⟨k₄, hk₄', hmie₄, hmsip₄, hdepth₄, hcur₄, hlives₄⟩ := sampleRun_of_any (sampleActs.take 4)
    (fun k => k.mie = false ∧ k.msip = true ∧ k.isr_depth = 1 ∧ k.current = some 1 ∧ (k.tcbs 0).lives)
    (by decide +kernel)
  obtain rfl := Option.some.inj (hk₄.symm.trans hk₄')
  obtain ⟨k₅, hk₅, hcur₅⟩ := sampleRun_of_any sampleActs (fun k => k.current = some 0) (by decide +kernel)
  have hret : MayReturn t m₄.traps.hart := by
    rw [hcalled]
    exact ⟨hoff, rfl, fun _ _ => rfl⟩
  obtain ⟨m₅, t', hs₅, hactive₅, hcallee₅, hcalled₅, hbefore₅, hkernel₅⟩ :=
    external_ret_steps hreach₄ hactive₄ hcallee hret hmsip₄
  have hreach₅ : BoardReachable sampleBoot sampleMap m₅ := hreach₄.step hs₅
  have hsp₅ : t'.called.get .a0 = 0x80010380 := by
    have hstacked := hreach₅.matches.traps.stacked
    rw [hactive₅] at hstacked
    cases hstacked with
    | outermost hout =>
      rw [(hout.switch hcallee₅).1]
      unfold ActiveTrap.frame
      rw [hbefore₅, hbefore, hsp₂]
      decide
  have hnew : (schedule m₅.kernel (t'.called.get .a0)).current = some 0 := by
    have hstep := sampleRun_step (sampleActs.take 4) hk₄ hk₅
    have hleave := Option.some.inj (hstep.symm.trans (external_leave_steps hmie₄ hdepth₄ 0x80010380))
    rw [hkernel₅, hsp₅, software_eq hmsip₄, ← hcur₅, hleave]
    rfl
  obtain ⟨m₆, h₆, hs₆, hmem₆, hnil₆, hkernel₆, -⟩ := switch_steps hreach₅ hactive₅ hcallee₅ hcalled₅.symm hnew
  have hruns₆ : m₆.runs 0 := ⟨hnil₆, by rw [hkernel₆]; exact hnew⟩
  have hnot : ∀ {m' : Board} {w : ActiveTrap}, m'.traps.active = [w] → ¬m'.runs 0 := by
    rintro m' w hw ⟨hnil, -⟩
    cases hw.symm.trans hnil
  have hapart : Apart (m₂.traps.hart.get .sp - 128) 128 (m.traps.hart.get .sp - 128) 128 := by
    rw [hsp₂, hhart]
    decide
  have hleaves₄ : LeavesFrame m.traps.hart m₃ (.run (.call (.wup_tsk 1) []) (raised m₃.traps.hart)) := by
    rw [hhart]
    exact raised_leaves _
  have haway : Paths.Path (Away sampleMap sampleBoot.entries 0 m.traps.hart) m₁
      [.ret h₁, .trap .external_interrupt, .run (.call (.wup_tsk 1) []) (raised m₃.traps.hart), .ret m₄.traps.hart]
      m₅ := by
    refine .cons ⟨hs₂, fun i _ => by rw [hmem], hlives₂, ?_⟩ (.cons ⟨hs₃, fun _ => hapart, hlives₃, hnot hactive₃⟩
      (.cons ⟨hs₄, hleaves₄, hlives₄, hnot hactive₄⟩ (.cons ⟨hs₅, fun _ _ => rfl, ?_, hnot hactive₅⟩ (.nil _))))
    · rintro ⟨-, hcur⟩
      cases hcur₂.symm.trans hcur
    · rw [hkernel₅]
      exact hlives₄
  obtain ⟨hregs, hpc, -⟩ := context_comes_back hreach hruns hlives htrap haway hs₆ (fun i _ => by rw [hmem₆]) hruns₆
  refine ⟨m, m₁, m₅, m₆, _, _, _, _, hreach, hruns, htrap, haway, hs₆, hruns₆, ?_, ?_⟩
  · rw [hregs .sp List.mem_cons_self, hhart]
    decide
  · rw [hpc, hhart]
    decide

end TsukumoCore
