import TsukumoCore.Lib.Path
import TsukumoCore.Trap.Entries

/-!
# Nested traps

A hart, the traps that it is in and the C functions that they have called. The functions are any code that
keeps to what the entries rely on; the entries are run as they are, up to the next call.
-/

namespace TsukumoCore

open Memory Trap
open Rv32 (Reg Line Hart afterCall)

/-- The interrupt stack, where the linker puts it. -/
structure IsrStack extends Symbols where
  _isr_stack_start : UINT
  start_le : _isr_stack_start.toNat ≤ _isr_stack_end.toNat
  depth : Apart _isr_stack_start (_isr_stack_end.toNat - _isr_stack_start.toNat) tkmc_isr_depth 4
  msip : Apart tkmc_isr_depth 4 MSIP 4

/-- A trap that has not left. -/
structure ActiveTrap where
  entry : TrapEntry
  /-- The hart as the trap found it. -/
  before : Hart
  /-- The function that runs, with the lines after its call and the hart at the call. -/
  callee : Callee
  rest : List (Line Callee)
  called : Hart
  /-- The calls of `schedule`, the one that runs included. -/
  switches : Nat

namespace ActiveTrap

def frame (t : ActiveTrap) : Word := t.before.get .sp - 128

def calls (t : ActiveTrap) (f : Callee) (rest : List (Line Callee)) (h : Hart) : ActiveTrap :=
  { t with callee := f, rest, called := h, switches := t.switches + if f = .schedule then 1 else 0 }

end ActiveTrap

/-- The traps are those that are active, the innermost first. With none, a task runs. -/
structure Traps where
  hart : Hart
  active : List ActiveTrap

/-! ## The rules for C code -/

/-- The registers that a function leaves as it found them. -/
def calleeSaved : List Reg := [.sp, .s0, .s1, .s2, .s3, .s4, .s5, .s6, .s7, .s8, .s9, .s10, .s11]

/-- The frames on the interrupt stack are left alone. In the frame of the task only the bits that
`external_interrupt` keeps there are: `tk_sta_tsk` may write over the rest when the task has ended. -/
def FramesKept (m m' : Mem) : List ActiveTrap → Prop
  | [] => True
  | [t] => t.entry = .external_interrupt →
      load m' (word t.frame 29) &&& MASKED = load m (word t.frame 29) &&& MASKED
  | t :: u :: ts => (∀ i < 29, load m' (word t.frame i) = load m (word t.frame i)) ∧ FramesKept m m' (u :: ts)

/-- Code of a task or of the function that runs takes the hart to `h`. Only the handlers that
`tkmc_external_interrupt` calls turn interrupts on, and with `mie` as they found it. -/
structure MayRun (x : IsrStack) (s : Traps) (h : Hart) : Prop where
  depth : load h.mem x.tkmc_isr_depth = load s.hart.mem x.tkmc_isr_depth
  frames : FramesKept s.hart.mem h.mem s.active
  on : h.on → ∀ t ∈ s.active.head?, t.callee = .tkmc_external_interrupt ∧ h.csr .mie = t.called.csr .mie

structure MayReturn (t : ActiveTrap) (h : Hart) : Prop where
  off : h.on = false
  mie : h.csr .mie = t.called.csr .mie
  saved : ∀ r ∈ calleeSaved, h.get r = t.called.get r

/-- There is room for a frame: on the stack of the task, outside what the entries use, or on the interrupt
stack below the function that runs. -/
def Room (x : IsrStack) (s : Traps) : Prop :=
  match s.active with
  | [] => Apart (s.hart.get .sp - 128) 128 x.tkmc_isr_depth 4 ∧ Apart (s.hart.get .sp - 128) 128 MSIP 4 ∧
      Apart (s.hart.get .sp - 128) 128 x._isr_stack_start (x._isr_stack_end.toNat - x._isr_stack_start.toNat)
  | t :: _ => x._isr_stack_start.toNat + 128 ≤ (s.hart.get .sp).toNat ∧
      (s.hart.get .sp).toNat ≤ (t.called.get .sp).toNat

/-- The interrupt is taken. The external one may come with any `mie`. -/
def MayTrap (s : Traps) (e : TrapEntry) : Prop :=
  s.hart.on = true ∧ (e = .external_interrupt ∨ s.hart.csr .mie &&& e.bit ≠ 0)

inductive TrapAct where
  | code
  | trap (e : TrapEntry)
  /-- The function that runs returns. -/
  | ret

inductive TrapSteps (x : IsrStack) : Traps → TrapAct → Traps → Prop where
  | code {s : Traps} {h : Hart} : MayRun x s h → TrapSteps x s .code { s with hart := h }
  | trap {s : Traps} {e : TrapEntry} {f : Callee} {rest : List (Line Callee)} {h : Hart} :
      MayTrap s e → Room x s → Rv32.run none (e.code x.toSymbols) (Rv32.trap s.hart) = .call f rest h →
      TrapSteps x s (.trap e) { hart := h, active :=
        { entry := e, before := s.hart, callee := f, rest, called := h
          switches := if f = .schedule then 1 else 0 } :: s.active }
  | call {s : Traps} {t : ActiveTrap} {ts : List ActiveTrap} {f : Callee} {rest : List (Line Callee)} {h : Hart} :
      s.active = t :: ts → MayReturn t s.hart → Rv32.run none t.rest s.hart = .call f rest h →
      TrapSteps x s .ret { hart := h, active := t.calls f rest h :: ts }
  | leave {s : Traps} {t : ActiveTrap} {ts : List ActiveTrap} {h : Hart} :
      s.active = t :: ts → MayReturn t s.hart → Rv32.run none t.rest s.hart = .left h →
      TrapSteps x s .ret { hart := h, active := ts }

/-- From a task, with no trap counted. -/
def TrapsReachable (x : IsrStack) : Traps → Prop :=
  Paths.Reach (fun s => s.active = [] ∧ load s.hart.mem x.tkmc_isr_depth = 0) (TrapSteps x)

variable {x : IsrStack} {s s' s₁ s₂ s₃ : Traps} {t u : ActiveTrap} {ts : List ActiveTrap} {m m' : Mem} {h h' : Hart}
  {e : TrapEntry}

/-! ## The invariant -/

/-- The trap that interrupted a task. -/
structure Outermost (x : IsrStack) (m : Mem) (t : ActiveTrap) : Prop where
  depth : Apart t.frame 128 x.tkmc_isr_depth 4
  msip : Apart t.frame 128 MSIP 4
  stack : Apart t.frame 128 x._isr_stack_start (x._isr_stack_end.toNat - x._isr_stack_start.toNat)
  callee : t.callee = t.entry.handler ∨ t.callee = .schedule
  rest : t.rest = afterCall t.callee (t.entry.code x.toSymbols)
  s0 : t.called.get .s0 = t.frame
  sp : t.called.get .sp = x._isr_stack_end
  mie : t.called.csr .mie = t.before.csr .mie &&& ~~~t.entry.masked
  saved : t.entry = .external_interrupt → load m (word t.frame 29) &&& MASKED = t.before.csr .mie &&& MASKED
  switch : t.callee = .schedule → t.called.get .a0 = t.frame ∧ load t.called.mem MSIP = 0 ∧
    load t.called.mem x.tkmc_isr_depth = 1
  switches : t.switches = if t.callee = .schedule then 1 else 0

/-- A trap that interrupted the handler that `u` runs. -/
structure Nested (x : IsrStack) (m : Mem) (u t : ActiveTrap) : Prop where
  entry : t.entry = .external_interrupt
  callee : t.callee = .tkmc_external_interrupt
  under : u.callee = .tkmc_external_interrupt
  rest : t.rest = afterCall .tkmc_external_interrupt (external_interrupt x.toSymbols)
  s0 : t.called.get .s0 = t.frame
  sp : t.called.get .sp = t.frame
  start : x._isr_stack_start.toNat ≤ t.frame.toNat
  below : t.frame.toNat + 128 ≤ (u.called.get .sp).toNat
  before : t.before.csr .mie = u.called.csr .mie
  mie : t.called.csr .mie = t.before.csr .mie
  holds : Holds m t.frame (Rv32.trap t.before)
  switches : t.switches = 0

inductive Stacked (x : IsrStack) (m : Mem) : List ActiveTrap → Prop where
  | nil : Stacked x m []
  | outermost {t : ActiveTrap} : Outermost x m t → Stacked x m [t]
  | nested {t u : ActiveTrap} {ts : List ActiveTrap} :
      Nested x m u t → Stacked x m (u :: ts) → Stacked x m (t :: u :: ts)

structure TrapsOk (x : IsrStack) (s : Traps) : Prop where
  depth : load s.hart.mem x.tkmc_isr_depth = BitVec.ofNat 32 s.active.length
  stacked : Stacked x s.hart.mem s.active
  on : s.hart.on → ∀ t ∈ s.active.head?, t.callee = .tkmc_external_interrupt ∧
    s.hart.csr .mie = t.called.csr .mie

theorem Stacked.room (hs : Stacked x m (t :: ts)) :
    (t.called.get .sp).toNat + 128 * ts.length ≤ x._isr_stack_end.toNat := by
  generalize hts : t :: ts = l at hs
  induction hs generalizing t ts with
  | nil => cases hts
  | outermost hout =>
    obtain ⟨rfl, rfl⟩ := List.cons_eq_cons.mp hts
    simp [hout.sp]
  | nested hin hrest ih =>
    obtain ⟨rfl, rfl⟩ := List.cons_eq_cons.mp hts
    have hroom := ih rfl
    have hbelow := hin.below
    rw [hin.sp, List.length_cons]
    omega

theorem Stacked.length_lt (hs : Stacked x m ts) : ts.length < 2 ^ 26 := by
  cases ts with
  | nil => simp
  | cons t ts =>
    have hroom := hs.room
    have hend := x._isr_stack_end.isLt
    rw [List.length_cons]
    omega

theorem Stacked.same (hs : Stacked x m ts) (hkept : FramesKept m m' ts) : Stacked x m' ts := by
  induction hs with
  | nil => exact .nil
  | outermost hout =>
    exact .outermost { hout with saved := fun he => (hkept he).trans (hout.saved he) }
  | nested hin _ ih =>
    exact .nested { hin with holds := hin.holds.same hkept.1 } (ih hkept.2)

theorem framesKept_of_words (hwords : ∀ v ∈ ts, ∀ i < 30, load m' (word v.frame i) = load m (word v.frame i)) :
    FramesKept m m' ts := by
  induction ts with
  | nil => trivial
  | cons t ts ih =>
    cases ts with
    | nil =>
      intro _
      rw [hwords t List.mem_cons_self 29 (by omega)]
    | cons u ts =>
      refine ⟨fun i hi => hwords t List.mem_cons_self i (by omega), ih fun v hv => ?_⟩
      exact hwords v (List.mem_cons_of_mem _ hv)

theorem IsrStack.frame_apart (x : IsrStack) {a b : Word} {l : Nat} (hstart : x._isr_stack_start.toNat ≤ a.toNat)
    (hend : a.toNat + 128 ≤ x._isr_stack_end.toNat)
    (hb : Apart x._isr_stack_start (x._isr_stack_end.toNat - x._isr_stack_start.toNat) b l) : Apart a 128 b l := by
  have hpart := hb.part (i := a.toNat - x._isr_stack_start.toNat) (j := 128) (by omega) (by omega)
  have ha : x._isr_stack_start + BitVec.ofNat 32 (a.toNat - x._isr_stack_start.toNat) = a := by
    have hoff : (BitVec.ofNat 32 (a.toNat - x._isr_stack_start.toNat)).toNat = a.toNat - x._isr_stack_start.toNat := by
      rw [BitVec.toNat_ofNat, Nat.mod_eq_of_lt (by omega)]
    apply BitVec.eq_of_toNat_eq
    rw [BitVec.toNat_add, hoff]
    omega
  rwa [ha] at hpart

theorem Stacked.le_end (hs : Stacked x m (t :: ts)) : (t.called.get .sp).toNat ≤ x._isr_stack_end.toNat := by
  have := hs.room
  omega

theorem Stacked.apart_depth (hs : Stacked x m ts) : ∀ v ∈ ts, Apart v.frame 128 x.tkmc_isr_depth 4 := by
  induction hs with
  | nil => simp
  | outermost hout =>
    intro v hv
    rw [List.mem_singleton.mp hv]
    exact hout.depth
  | nested hin hrest ih =>
    intro v hv
    rcases List.mem_cons.mp hv with rfl | hv
    · exact x.frame_apart hin.start (hin.below.trans hrest.le_end) x.depth
    · exact ih v hv

theorem Stacked.apart_frame (hs : Stacked x m (t :: ts)) {a : Word} (hstart : x._isr_stack_start.toNat ≤ a.toNat)
    (hbelow : a.toNat + 128 ≤ (t.called.get .sp).toNat) : ∀ v ∈ t :: ts, Apart a 128 v.frame 128 := by
  generalize hts : t :: ts = l at hs
  induction hs generalizing t ts with
  | nil => cases hts
  | outermost hout =>
    obtain ⟨rfl, rfl⟩ := List.cons_eq_cons.mp hts
    intro v hv
    rw [List.mem_singleton.mp hv]
    rw [hout.sp] at hbelow
    exact x.frame_apart hstart hbelow hout.stack.symm
  | nested hin hrest ih =>
    obtain ⟨rfl, rfl⟩ := List.cons_eq_cons.mp hts
    rw [hin.sp] at hbelow
    have hin' := hin.below
    intro v hv
    rcases List.mem_cons.mp hv with rfl | hv
    · have hend := hrest.le_end
      have hlt := x._isr_stack_end.isLt
      exact apart_of_le (by omega) (by omega) (by omega)
    · exact ih (by omega) rfl v hv

theorem Stacked.masked (hs : Stacked x m (t :: ts)) (hext : t.callee = .tkmc_external_interrupt) :
    t.called.csr .mie &&& MASKED = 0 := by
  generalize hts : t :: ts = l at hs
  induction hs generalizing t ts with
  | nil => cases hts
  | outermost hout =>
    obtain ⟨rfl, rfl⟩ := List.cons_eq_cons.mp hts
    have hcallee := hout.callee
    rw [hext] at hcallee
    have hentry : t.entry = .external_interrupt := by
      cases he : t.entry with
      | external_interrupt => rfl
      | timer_interrupt => simp [he, TrapEntry.handler] at hcallee
      | mtrap_handler => simp [he, TrapEntry.handler] at hcallee
    rw [hout.mie, hentry, BitVec.and_assoc]
    exact BitVec.and_zero
  | nested hin _ ih =>
    obtain ⟨rfl, rfl⟩ := List.cons_eq_cons.mp hts
    rw [hin.mie, hin.before]
    exact ih hin.under rfl

theorem Stacked.switch (hs : Stacked x m ts) (ht : t ∈ ts) :
    t.switches ≤ 1 ∧ (t.callee = .schedule → ts = [t] ∧ Outermost x m t) := by
  induction hs with
  | nil => cases ht
  | outermost hout =>
    obtain rfl := List.mem_singleton.mp ht
    refine ⟨?_, fun _ => ⟨rfl, hout⟩⟩
    rw [hout.switches]
    split <;> omega
  | @nested v u ts hin _ ih =>
    rcases List.mem_cons.mp ht with rfl | hmem
    · refine ⟨by rw [hin.switches]; omega, fun hschedule => ?_⟩
      cases hin.callee.symm.trans hschedule
    · refine ⟨(ih hmem).1, fun hschedule => ?_⟩
      obtain ⟨hcons, -⟩ := (ih hmem).2 hschedule
      obtain ⟨rfl, -⟩ := List.cons_eq_cons.mp hcons
      cases hin.under.symm.trans hschedule

theorem TrapsOk.trap_entry (hok : TrapsOk x s) (htrap : MayTrap s e) (hne : s.active ≠ []) :
    e = .external_interrupt := by
  obtain ⟨hon, he⟩ := htrap
  obtain ⟨t, ts, hactive⟩ := List.exists_cons_of_ne_nil hne
  obtain ⟨hext, hmie⟩ := hok.on hon t (by rw [hactive]; rfl)
  have hstacked := hok.stacked
  rw [hactive] at hstacked
  have hmasked := hstacked.masked hext
  have hpart : ∀ b : Word, b &&& MASKED = b → s.hart.csr .mie &&& b = 0 := by
    intro b hb
    rw [hmie, ← hb, BitVec.and_comm b, ← BitVec.and_assoc, hmasked]
    exact BitVec.zero_and
  rcases he with he | hbit
  · exact he
  · cases e with
    | external_interrupt => rfl
    | timer_interrupt => exact absurd (hpart _ (by decide)) hbit
    | mtrap_handler => exact absurd (hpart _ (by decide)) hbit

/-! ## Every step -/

theorem on_of_mstatus (hmstatus : h'.csr .mstatus = h.csr .mstatus) : h'.on = h.on := by
  unfold Hart.on
  rw [hmstatus]

theorem Room.nested (hroom : Room x s) (hactive : s.active = t :: ts) :
    x._isr_stack_start.toNat ≤ (s.hart.get .sp - 128).toNat ∧
      (s.hart.get .sp - 128).toNat + 128 ≤ (t.called.get .sp).toNat := by
  unfold Room at hroom
  rw [hactive] at hroom
  obtain ⟨hstart, hbelow⟩ := hroom
  have hframe : (s.hart.get .sp - 128).toNat = (s.hart.get .sp).toNat - 128 := by bv_omega
  omega

/-- A trap that may be taken is taken, and what it leads to. -/
theorem TrapsOk.trap_cases (hok : TrapsOk x s) (htrap : MayTrap s e) (hroom : Room x s) :
    (s.active = [] ∧ ∃ g, Rv32.run none (e.code x.toSymbols) (Rv32.trap s.hart) =
        .call e.handler (afterCall e.handler (e.code x.toSymbols)) g ∧
      EnteredOutermost x.toSymbols e (Rv32.trap s.hart) g) ∨
    (s.active ≠ [] ∧ e = .external_interrupt ∧
      ∃ g, Rv32.run none (external_interrupt x.toSymbols) (Rv32.trap s.hart) =
        .call .tkmc_external_interrupt (afterCall .tkmc_external_interrupt (external_interrupt x.toSymbols)) g ∧
      Entered x.toSymbols (Rv32.trap s.hart) g) := by
  have hdepth := hok.depth
  have hlt := hok.stacked.length_lt
  cases hactive : s.active with
  | nil =>
    left
    rw [hactive] at hdepth
    unfold Room at hroom
    rw [hactive] at hroom
    exact ⟨rfl, entered_outermost e hroom.1 x.msip hdepth⟩
  | cons t ts =>
    right
    refine ⟨by simp, hok.trap_entry htrap (by simp [hactive]), ?_⟩
    obtain ⟨hstart, hbelow⟩ := hroom.nested hactive
    have hstacked := hok.stacked
    rw [hactive] at hstacked hdepth hlt
    refine entered_nested (x.frame_apart hstart (hbelow.trans hstacked.le_end) x.depth) ?_
    intro h0
    rw [Rv32.mem_trap, hdepth] at h0
    have hzero := congrArg BitVec.toNat h0
    rw [BitVec.toNat_ofNat, Nat.mod_eq_of_lt (by omega)] at hzero
    simp at hzero

theorem trap_inv (hs : TrapSteps x s (.trap e) s') : MayTrap s e ∧ Room x s ∧ ∃ f rest,
    Rv32.run none (e.code x.toSymbols) (Rv32.trap s.hart) = .call f rest s'.hart ∧
      s'.active = { entry := e, before := s.hart, callee := f, rest, called := s'.hart
                    switches := if f = .schedule then 1 else 0 } :: s.active := by
  cases hs with
  | trap htrap hroom hrun => exact ⟨htrap, hroom, _, _, hrun, rfl⟩

theorem trap_trapsOk (hok : TrapsOk x s) (hs : TrapSteps x s (.trap e) s') : TrapsOk x s' := by
  obtain ⟨htrap, hroom, f, rest, hrun, hactive⟩ := trap_inv hs
  obtain ⟨g, as⟩ := s'
  simp only at hrun hactive
  subst hactive
  have hdepth := hok.depth
  rcases hok.trap_cases htrap hroom with ⟨hnil, g', hrun', hentered⟩ | ⟨hne, rfl, g', hrun', hentered⟩
  · obtain ⟨rfl, rfl, rfl⟩ := Rv32.Stop.call.inj (hrun.symm.trans hrun')
    rw [hnil] at hdepth ⊢
    have hone : load g.mem x.tkmc_isr_depth = 1 := by
      rw [hentered.depth, Rv32.mem_trap, hdepth]
      rfl
    unfold Room at hroom
    rw [hnil] at hroom
    refine ⟨hone, .outermost ⟨hroom.1, hroom.2.1, hroom.2.2, .inl rfl, rfl, hentered.s0, hentered.sp, hentered.mie,
      fun he => ?_, fun hschedule => ?_, rfl⟩, fun hon => ?_⟩
    · exact congrArg (· &&& MASKED) (hentered.saved he)
    · have he : e = .mtrap_handler := by
        cases e with
        | mtrap_handler => rfl
        | timer_interrupt => cases hschedule
        | external_interrupt => cases hschedule
      exact ⟨(hentered.switch he).1, (hentered.switch he).2, hone⟩
    · rw [on_of_mstatus hentered.mstatus, Rv32.on_trap] at hon
      cases hon
  · obtain ⟨rfl, rfl, rfl⟩ := Rv32.Stop.call.inj (hrun.symm.trans hrun')
    obtain ⟨t, ts, hcons⟩ := List.exists_cons_of_ne_nil hne
    have hstacked := hok.stacked
    obtain ⟨hstart, hbelow⟩ := hroom.nested hcons
    obtain ⟨hext, hmie⟩ := hok.on htrap.1 t (by rw [hcons]; rfl)
    rw [hcons] at hdepth hstacked ⊢
    have hkept : FramesKept s.hart.mem g.mem (t :: ts) := by
      refine framesKept_of_words fun v hv i hi => hentered.other _ ?_ ?_
      · exact ((hstacked.apart_frame hstart hbelow v hv).symm.word_of_block (by omega)).symm
      · exact (frame_words_apart (hstacked.apart_depth v hv) (by omega)).symm
    refine ⟨?_, .nested ⟨rfl, rfl, hext, rfl, hentered.s0, hentered.sp, hstart, hbelow, hmie, ?_, hentered.holds,
      rfl⟩ (hstacked.same hkept), fun hon => ?_⟩
    · rw [hentered.depth, Rv32.mem_trap, hdepth, List.length_cons, List.length_cons]
      exact (BitVec.ofNat_add _ 1).symm
    · rw [hentered.csr, Rv32.mie_trap]
    · rw [on_of_mstatus (congrFun hentered.csr _), Rv32.on_trap] at hon
      cases hon

theorem trap_off (hok : TrapsOk x s) (hs : TrapSteps x s (.trap e) s') : s'.hart.on = false := by
  obtain ⟨htrap, hroom, f, rest, hrun, hactive⟩ := trap_inv hs
  rcases hok.trap_cases htrap hroom with ⟨-, g, hrun', hentered⟩ | ⟨-, rfl, g, hrun', hentered⟩
  · obtain ⟨-, -, rfl⟩ := Rv32.Stop.call.inj (hrun.symm.trans hrun')
    rw [on_of_mstatus hentered.mstatus, Rv32.on_trap]
  · obtain ⟨-, -, rfl⟩ := Rv32.Stop.call.inj (hrun.symm.trans hrun')
    rw [on_of_mstatus (congrFun hentered.csr _), Rv32.on_trap]

/-- What the return of a function leads to: the trap leaves, for the function it interrupted or for a task, or
it calls `schedule`. -/
inductive Exits (x : IsrStack) (s : Traps) (t : ActiveTrap) : List ActiveTrap → Traps → Prop where
  | nested {u : ActiveTrap} {ts : List ActiveTrap} {h : Hart} :
      Left x.toSymbols t.frame (s.hart.csr .mie) s.hart h → h.priv = 3 →
      Exits x s t (u :: ts) { hart := h, active := u :: ts }
  | leave {frame : Word} {h : Hart} : t.callee = .schedule ∨ load s.hart.mem MSIP = 0 →
      Left x.toSymbols frame (unmasked t.entry s.hart) s.hart h → Exits x s t [] { hart := h, active := [] }
  | schedule {h : Hart} : t.callee ≠ .schedule → load s.hart.mem MSIP ≠ 0 → Switching s.hart h →
      Exits x s t [] { hart := h, active :=
        [t.calls .schedule (afterCall .schedule (t.entry.code x.toSymbols)) h] }

theorem TrapsOk.ret_next (hok : TrapsOk x s) (hactive : s.active = t :: ts) (hret : MayReturn t s.hart) :
    ∃ s', TrapSteps x s .ret s' ∧ Exits x s t ts s' := by
  have hs0 := hret.saved .s0 (by decide)
  have hdepth := hok.depth
  have hstacked := hok.stacked
  have hlt := hok.stacked.length_lt
  rw [hactive] at hdepth hstacked hlt
  cases hstacked with
  | nested hin hrest =>
    rw [hin.s0] at hs0
    have hne : load s.hart.mem x.tkmc_isr_depth ≠ 1 := by
      intro h1
      rw [hdepth] at h1
      have hone := congrArg BitVec.toNat h1
      rw [BitVec.toNat_ofNat, Nat.mod_eq_of_lt (by omega)] at hone
      simp at hone
    obtain ⟨h', hrun, hleft, hpriv⟩ := external_nested hne
    rw [hs0] at hleft
    exact ⟨_, .leave hactive hret (by rw [hin.rest, hrun]), .nested hleft hpriv⟩
  | outermost hout =>
    by_cases hschedule : t.callee = .schedule
    · obtain ⟨h', hrun, hleft⟩ := scheduled x.toSymbols t.entry s.hart
      exact ⟨_, .leave hactive hret (by rw [hout.rest, hschedule, hrun]), .leave (.inl hschedule) hleft⟩
    · have hcallee : t.callee = t.entry.handler := hout.callee.resolve_right hschedule
      have hrest := hout.rest
      rw [hcallee] at hrest
      obtain ⟨hzero, hone⟩ := handled (h := s.hart) (x := x.toSymbols) (e := t.entry) (by rwa [← hcallee]) hdepth
      by_cases hmsip : load s.hart.mem MSIP = 0
      · obtain ⟨h', hrun, hleft⟩ := hzero hmsip
        exact ⟨_, .leave hactive hret (by rw [hrest, hrun]), .leave (.inr hmsip) hleft⟩
      · obtain ⟨g, hrun, hswitching⟩ := hone hmsip
        exact ⟨_, .call hactive hret (by rw [hrest, hrun]), .schedule hschedule hmsip hswitching⟩

theorem ret_unique (hs : TrapSteps x s .ret s₁) (hs' : TrapSteps x s .ret s₂) : s₁ = s₂ := by
  cases hs with
  | call hactive _ hrun =>
    cases hs' with
    | call hactive' _ hrun' =>
      obtain ⟨rfl, rfl⟩ := List.cons_eq_cons.mp (hactive.symm.trans hactive')
      obtain ⟨rfl, rfl, rfl⟩ := Rv32.Stop.call.inj (hrun.symm.trans hrun')
      rfl
    | leave hactive' _ hrun' =>
      obtain ⟨rfl, rfl⟩ := List.cons_eq_cons.mp (hactive.symm.trans hactive')
      cases hrun.symm.trans hrun'
  | leave hactive _ hrun =>
    cases hs' with
    | call hactive' _ hrun' =>
      obtain ⟨rfl, rfl⟩ := List.cons_eq_cons.mp (hactive.symm.trans hactive')
      cases hrun.symm.trans hrun'
    | leave hactive' _ hrun' =>
      obtain ⟨rfl, rfl⟩ := List.cons_eq_cons.mp (hactive.symm.trans hactive')
      cases hrun.symm.trans hrun'
      rfl

theorem ret_inv (hs : TrapSteps x s .ret s') : ∃ t ts, s.active = t :: ts ∧ MayReturn t s.hart := by
  cases hs with
  | call hactive hret _ => exact ⟨_, _, hactive, hret⟩
  | leave hactive hret _ => exact ⟨_, _, hactive, hret⟩

theorem TrapsOk.ret_cases (hok : TrapsOk x s) (hs : TrapSteps x s .ret s') :
    ∃ t ts, s.active = t :: ts ∧ MayReturn t s.hart ∧ Exits x s t ts s' := by
  obtain ⟨t, ts, hactive, hret⟩ := ret_inv hs
  obtain ⟨s'', hs'', hexits⟩ := hok.ret_next hactive hret
  rw [ret_unique hs hs'']
  exact ⟨t, ts, hactive, hret, hexits⟩

theorem ofNat_succ_pred (n : Nat) : BitVec.ofNat 32 (n + 1) + -1 = BitVec.ofNat 32 n := by
  have hone : BitVec.ofNat 32 1 + -1 = 0#32 := by decide
  rw [BitVec.ofNat_add, BitVec.add_assoc, hone, BitVec.add_zero]

theorem code_trapsOk (hok : TrapsOk x s) (hs : TrapSteps x s .code s') : TrapsOk x s' := by
  cases hs with
  | code hrun => exact ⟨hrun.depth.trans hok.depth, hok.stacked.same hrun.frames, hrun.on⟩

theorem ret_trapsOk (hok : TrapsOk x s) (hs : TrapSteps x s .ret s') : TrapsOk x s' := by
  obtain ⟨t, ts, hactive, hret, hexits⟩ := hok.ret_cases hs
  have hdepth := hok.depth
  have hstacked := hok.stacked
  rw [hactive] at hdepth hstacked
  cases hexits with
  | @nested u ts h hleft hpriv =>
    cases hstacked with
    | nested hin hrest =>
      have hkept : FramesKept s.hart.mem h.mem (u :: ts) := by
        refine framesKept_of_words fun v hv i hi => ?_
        rw [hleft.mem, load_store_apart (frame_words_apart (hrest.apart_depth v hv) (by omega)).symm]
      refine ⟨?_, hrest.same hkept, fun _ v hv => ?_⟩
      · rw [hleft.mem, load_store, hdepth, List.length_cons, ofNat_succ_pred]
      · obtain rfl : u = v := Option.some.inj hv
        exact ⟨hin.under, by rw [hleft.mie, hret.mie, hin.mie, hin.before]⟩
  | leave _ hleft =>
    refine ⟨?_, .nil, fun _ v hv => by cases hv⟩
    rw [hleft.mem, load_store, hdepth, List.length_cons, ofNat_succ_pred]
  | @schedule h hcallee hmsip hswitching =>
    cases hstacked with
    | outermost hout =>
      have hdepth' : load h.mem x.tkmc_isr_depth = 1 := by
        rw [hswitching.mem, load_store_apart x.msip.symm, hdepth]
        rfl
      have hs0 : h.get .s0 = t.frame := by
        rw [hswitching.regs .s0 (by decide) (by decide) (by decide), hret.saved .s0 (by decide), hout.s0]
      refine ⟨hdepth', .outermost { hout with
        callee := .inr rfl
        rest := rfl
        s0 := hs0
        sp := ?_
        mie := ?_
        saved := fun he => ?_
        switch := fun _ => ⟨?_, ?_, hdepth'⟩
        switches := ?_ }, fun hon => ?_⟩
      · exact (hswitching.regs .sp (by decide) (by decide) (by decide)).trans
          ((hret.saved .sp (by decide)).trans hout.sp)
      · exact (congrFun hswitching.csr _).trans (hret.mie.trans hout.mie)
      · show load h.mem (word t.frame 29) &&& MASKED = _
        rw [hswitching.mem, load_store_apart (frame_words_apart hout.msip (by omega)).symm]
        exact hout.saved he
      · rw [show (t.calls .schedule _ h).called = h from rfl, hswitching.a0, hret.saved .s0 (by decide), hout.s0]
        rfl
      · show load h.mem MSIP = 0
        rw [hswitching.mem, load_store]
      · show t.switches + 1 = 1
        rw [hout.switches, if_neg hcallee]
      · rw [on_of_mstatus (congrFun hswitching.csr _), hret.off] at hon
        cases hon

theorem step_trapsOk {a : TrapAct} (hok : TrapsOk x s) (hs : TrapSteps x s a s') : TrapsOk x s' := by
  cases a with
  | code => exact code_trapsOk hok hs
  | trap e => exact trap_trapsOk hok hs
  | ret => exact ret_trapsOk hok hs

theorem TrapsReachable.ok (h : TrapsReachable x s) : TrapsOk x s := by
  refine Paths.Reach.invariant (I := TrapsOk x) ?_ ?_ h
  · rintro s₀ ⟨hactive, hdepth⟩
    refine ⟨by rw [hactive, hdepth]; rfl, by rw [hactive]; exact .nil, fun _ t ht => ?_⟩
    rw [hactive] at ht
    cases ht
  · intro s a s' hok hs
    exact step_trapsOk hok hs

/-! ## Whole traps -/

/-- A step with at least `depth` traps active behind it. -/
def Within (x : IsrStack) (depth : Nat) (s : Traps) (a : TrapAct) (s' : Traps) : Prop :=
  TrapSteps x s a s' ∧ depth ≤ s'.active.length

/-- The trap that interrupted `h` on top of `base` is active. -/
def Began (base : List ActiveTrap) (h : Hart) (as : List ActiveTrap) : Prop :=
  ∃ inner t, as = inner ++ t :: base ∧ t.before = h

theorem within_began {base : List ActiveTrap} {a : TrapAct} (hs : Within x (base.length + 1) s a s')
    (hbegan : Began base h s.active) : Began base h s'.active := by
  obtain ⟨hstep, hdepth⟩ := hs
  obtain ⟨inner, t, hactive, hbefore⟩ := hbegan
  cases hstep with
  | code _ => exact ⟨inner, t, hactive, hbefore⟩
  | trap _ _ _ => exact ⟨_ :: inner, t, congrArg _ hactive, hbefore⟩
  | @call u ts f rest g hcons _ _ =>
    rw [hcons] at hactive
    rcases List.cons_eq_append_iff.mp hactive with ⟨rfl, hcons'⟩ | ⟨inner', rfl, rfl⟩
    · obtain ⟨rfl, rfl⟩ := List.cons_eq_cons.mp hcons'
      exact ⟨[], t.calls f rest g, rfl, hbefore⟩
    · exact ⟨u.calls f rest g :: inner', t, rfl, hbefore⟩
  | @leave u ts g hcons _ _ =>
    rw [hcons] at hactive
    rcases List.cons_eq_append_iff.mp hactive with ⟨rfl, hcons'⟩ | ⟨inner', rfl, rfl⟩
    · obtain ⟨rfl, rfl⟩ := List.cons_eq_cons.mp hcons'
      simp only at hdepth
      omega
    · exact ⟨inner', t, rfl, hbefore⟩

theorem Outermost.unmasked (hout : Outermost x s.hart.mem t) (hret : MayReturn t s.hart) :
    Trap.unmasked t.entry s.hart = t.before.csr .mie := by
  have hs0 := (hret.saved .s0 (by decide)).trans hout.s0
  unfold Trap.unmasked
  rw [hret.mie, hout.mie, hs0]
  have hsplit : ∀ v k : Word, v &&& ~~~k ||| v &&& k = v := by
    intro v k
    rw [← BitVec.and_or_distrib_left, BitVec.or_comm, BitVec.or_not_self]
    exact BitVec.and_allOnes
  cases he : t.entry with
  | external_interrupt =>
    simp only [TrapEntry.masked]
    rw [hout.saved he, hsplit]
  | timer_interrupt | mtrap_handler =>
    simp only [TrapEntry.masked]
    rw [and_not_zero]
    simp

/-- A trap ends. `s₃` is where the trap that was taken in `s` has left. -/
theorem trap_ends {as : List TrapAct} (hok : TrapsOk x s₂) (htrap : TrapSteps x s (.trap e) s₁)
    (hrun : Paths.Path (Within x (s.active.length + 1)) s₁ as s₂) (hret : TrapSteps x s₂ .ret s₃)
    (hlength : s₃.active.length = s.active.length) :
    ∃ t, s₂.active = t :: s.active ∧ t.before = s.hart ∧ MayReturn t s₂.hart ∧ s₃.active = s.active ∧
      Exits x s₂ t s.active s₃ := by
  obtain ⟨-, -, f, rest, -, hactive₁⟩ := trap_inv htrap
  have hbegan : Began s.active s.hart s₂.active := by
    refine hrun.invariant (I := fun s' => Began s.active s.hart s'.active) ?_ ⟨[], _, hactive₁, rfl⟩
    intro s' a s'' hbegan hs
    exact within_began hs hbegan
  obtain ⟨inner, t, hactive₂, hbefore⟩ := hbegan
  obtain ⟨t', ts, hcons, hmay, hexits⟩ := hok.ret_cases hret
  have hlen : ts.length = inner.length + s.active.length := by
    have hsum := congrArg List.length (hcons.symm.trans hactive₂)
    simp only [List.length_cons, List.length_append] at hsum
    omega
  have hleft : s₃.active = ts := by
    cases hexits with
    | nested _ _ => rfl
    | leave _ _ => rfl
    | schedule _ _ _ =>
      simp only [List.length_cons, List.length_nil] at hlength hlen
      omega
  rw [hleft] at hlength
  have hinner : inner = [] := List.eq_nil_of_length_eq_zero (by omega)
  subst hinner
  obtain ⟨rfl, rfl⟩ := List.cons_eq_cons.mp (hcons.symm.trans hactive₂)
  exact ⟨t', hcons, hbefore, hmay, hleft, hexits⟩

/-- A nested trap brings the handler back that it interrupted. -/
theorem Nested.resumes {u : ActiveTrap} (hin : Nested x s.hart.mem u t) (hleft : Left x.toSymbols t.frame
    (s.hart.csr .mie) s.hart h) (hdepth : Apart t.frame 128 x.tkmc_isr_depth 4) :
    (∀ r ∈ .sp :: registers, h.get r = t.before.get r) ∧ h.pc = t.before.pc := by
  have hholds : Holds h.mem t.frame (Rv32.trap t.before) := by
    refine hin.holds.same fun i hi => ?_
    rw [hleft.mem, load_store_apart (frame_words_apart hdepth (by omega)).symm]
  refine ⟨fun r hr => ?_, ?_⟩
  · rcases List.mem_cons.mp hr with rfl | hr
    · rw [hleft.sp]
      exact BitVec.sub_add_cancel _ _
    · obtain ⟨i, hi⟩ := exists_index hr
      rw [hleft.regs (r, i) hi, hholds.regs (r, i) hi, Rv32.get_trap]
  · rw [hleft.pc, hholds.mepc, Rv32.mepc_trap]

/-- **Nested traps unwind and switch once.** `s` is any state, in a task or in the function that a trap called;
`s₃` is where a trap that was taken in `s` leaves, after whatever its functions and the traps inside it did. -/
theorem nested_traps_unwind (h : TrapsReachable x s) :
    (load s.hart.mem x.tkmc_isr_depth).toNat = s.active.length ∧
    (∀ e s', TrapSteps x s (.trap e) s' → e ≠ .external_interrupt → s.active = []) ∧
    (∀ t ∈ s.active, t.switches ≤ 1 ∧ (t.callee = .schedule → s.active = [t] ∧
      load t.called.mem x.tkmc_isr_depth = 1 ∧ t.called.get .sp = x._isr_stack_end ∧
      t.called.get .a0 = t.frame ∧ load t.called.mem MSIP = 0)) ∧
    (∀ t ts s', s.active = t :: ts → TrapSteps x s .ret s' →
      ((∃ t', s'.active = t' :: ts ∧ t'.callee = .schedule) ↔
        t.callee ≠ .schedule ∧ ts = [] ∧ load s.hart.mem MSIP ≠ 0) ∧
      (¬(t.callee ≠ .schedule ∧ ts = [] ∧ load s.hart.mem MSIP ≠ 0) → s'.active = ts)) ∧
    (∀ e s₁ as s₂ s₃, TrapSteps x s (.trap e) s₁ → Paths.Path (Within x (s.active.length + 1)) s₁ as s₂ →
      TrapSteps x s₂ .ret s₃ → s₃.active.length = s.active.length →
      s₃.active = s.active ∧ s₃.hart.csr .mie = s.hart.csr .mie ∧
      (s.active ≠ [] → (∀ r ∈ .sp :: registers, s₃.hart.get r = s.hart.get r) ∧ s₃.hart.pc = s.hart.pc ∧
        s₃.hart.priv = 3)) ∧
    (∀ e, MayTrap s e → Room x s → ∃ s', TrapSteps x s (.trap e) s') ∧
    ∀ t ts, s.active = t :: ts → MayReturn t s.hart → ∃ s', TrapSteps x s .ret s' := by
  have hok := h.ok
  refine ⟨?_, ?_, ?_, ?_, ?_, ?_, ?_⟩
  · have hlt := hok.stacked.length_lt
    rw [hok.depth, BitVec.toNat_ofNat, Nat.mod_eq_of_lt (by omega)]
  · intro e s' hs he
    by_contra hne
    exact he (hok.trap_entry (trap_inv hs).1 hne)
  · intro t ht
    obtain ⟨hswitches, hschedule⟩ := hok.stacked.switch ht
    refine ⟨hswitches, fun hcallee => ?_⟩
    obtain ⟨hactive, hout⟩ := hschedule hcallee
    obtain ⟨ha0, hmsip, hone⟩ := hout.switch hcallee
    exact ⟨hactive, hone, hout.sp, ha0, hmsip⟩
  · intro t ts s' hactive hs
    obtain ⟨t', ts', hcons, -, hexits⟩ := hok.ret_cases hs
    obtain ⟨rfl, rfl⟩ := List.cons_eq_cons.mp (hcons.symm.trans hactive)
    cases hexits with
    | nested _ _ =>
      refine ⟨⟨?_, fun hsw => by cases hsw.2.1⟩, fun _ => rfl⟩
      rintro ⟨t', hcons', -⟩
      have hlen := congrArg List.length hcons'
      simp at hlen
    | leave hno _ =>
      refine ⟨⟨?_, ?_⟩, fun _ => rfl⟩
      · rintro ⟨t', hcons', -⟩
        cases hcons'
      · rintro ⟨hcallee, -, hmsip⟩
        exact absurd hno (not_or.mpr ⟨hcallee, hmsip⟩)
    | schedule hcallee hmsip _ =>
      refine ⟨⟨fun _ => ⟨hcallee, rfl, hmsip⟩, fun _ => ⟨_, rfl, rfl⟩⟩, fun hnot => ?_⟩
      exact absurd ⟨hcallee, rfl, hmsip⟩ hnot
  · intro e s₁ as s₂ s₃ htrap hrun hret hlength
    have hreach : TrapsReachable x s₂ := (h.step htrap).path (hrun.mono fun _ _ _ hw => hw.1)
    have hok₂ := hreach.ok
    obtain ⟨t, hactive₂, hbefore, hmay, hactive₃, hexits⟩ := trap_ends hok₂ htrap hrun hret hlength
    have hstacked := hok₂.stacked
    have hdepth := hok₂.stacked.apart_depth t (by rw [hactive₂]; exact List.mem_cons_self)
    rw [hactive₂] at hstacked
    refine ⟨hactive₃, ?_⟩
    generalize s.active = base at hstacked hexits hactive₃
    cases hexits with
    | nested hleft hpriv =>
      cases hstacked with
      | nested hin _ =>
        obtain ⟨hregs, hpc⟩ := hin.resumes hleft hdepth
        rw [hbefore] at hregs hpc
        refine ⟨?_, fun _ => ⟨hregs, hpc, hpriv⟩⟩
        rw [hleft.mie, hmay.mie, hin.mie, hbefore]
    | leave _ hleft =>
      cases hstacked with
      | outermost hout =>
        refine ⟨?_, fun hne => absurd rfl hne⟩
        rw [hleft.mie, hout.unmasked hmay, hbefore]
    | schedule _ _ _ => cases hactive₃
  · intro e htrap hroom
    rcases hok.trap_cases htrap hroom with ⟨-, g, hrun, -⟩ | ⟨-, rfl, g, hrun, -⟩
    · exact ⟨_, .trap htrap hroom hrun⟩
    · exact ⟨_, .trap htrap hroom hrun⟩
  · intro t ts hactive hret
    obtain ⟨s', hs, -⟩ := hok.ret_next hactive hret
    exact ⟨s', hs⟩

/-! ## A run -/

def sampleIsr : IsrStack where
  tkmc_isr_depth := 0x80001000
  _isr_stack_start := 0x80002000
  _isr_stack_end := 0x80003000
  start_le := by decide
  depth := by decide
  msip := by decide

/-- A task with interrupts on. -/
def sampleTask : Hart where
  reg r := if r = .sp then 0x80010000 else 0
  csr c := if c = .mstatus then Rv32.MIE else 0x888
  mem _ := 0
  pc := 0x80004000
  priv := 3

theorem mayRun_mstatus {v : Word} (hon : (s.hart.setCsr .mstatus v).on → ∀ t ∈ s.active.head?,
    t.callee = .tkmc_external_interrupt ∧ s.hart.csr .mie = t.called.csr .mie) :
    MayRun x s (s.hart.setCsr .mstatus v) :=
  ⟨rfl, framesKept_of_words fun _ _ _ _ => rfl, hon⟩

theorem sample_handler : ∃ s t, TrapsReachable sampleIsr s ∧ s.active = [t] ∧ s.hart.on = true ∧
    t.called.get .sp = 0x80003000 ∧ s.hart.get .sp = 0x80003000 ∧ s.hart.csr .mie = 0x800 := by
  have hreach : TrapsReachable sampleIsr ⟨sampleTask, []⟩ := ⟨_, [], ⟨rfl, by decide⟩, .nil _⟩
  have hroom : Room sampleIsr ⟨sampleTask, []⟩ := by
    unfold Room
    decide
  have htrap : MayTrap ⟨sampleTask, []⟩ .external_interrupt := ⟨by decide, .inl rfl⟩
  rcases hreach.ok.trap_cases htrap hroom with ⟨-, g, hrun, hentered⟩ | ⟨hne, -⟩
  · have hsp : g.get .sp = 0x80003000 := hentered.sp
    have hmie : g.csr .mie = 0x800 := hentered.mie
    have hstep := TrapSteps.trap htrap hroom hrun
    refine ⟨_, _, (hreach.step hstep).step (.code (mayRun_mstatus (v := Rv32.MIE) fun _ t ht => ?_)), rfl, ?_, hsp,
      hsp, hmie⟩
    · obtain rfl := Option.some.inj ht
      exact ⟨rfl, rfl⟩
    · rw [Rv32.on_setCsr]
      rfl
  · exact absurd rfl hne

/-- The handler is interrupted by another, which turns interrupts off and returns. -/
theorem nested_traps_unwind_sample : ∃ s s₁ s₂ s₃ : Traps, TrapsReachable sampleIsr s ∧ s.active.length = 1 ∧
    TrapSteps sampleIsr s (.trap .external_interrupt) s₁ ∧ TrapSteps sampleIsr s₁ .code s₂ ∧
    TrapSteps sampleIsr s₂ .ret s₃ ∧ (load s₂.hart.mem sampleIsr.tkmc_isr_depth).toNat = 2 ∧
    s₃.active = s.active ∧ s₃.hart.get .sp = 0x80003000 ∧ s₃.hart.csr .mie = 0x800 := by
  obtain ⟨s, t, hreach, hactive, hon, hcalled, hsp, hmie⟩ := sample_handler
  have hroom : Room sampleIsr s := by
    unfold Room
    rw [hactive]
    simp only
    rw [hsp, hcalled]
    decide
  obtain ⟨-, -, -, -, hwhole, htraps, -⟩ := nested_traps_unwind hreach
  obtain ⟨s₁, htrap⟩ := htraps .external_interrupt ⟨hon, .inl rfl⟩ hroom
  obtain ⟨-, -, f, rest, -, hactive₁⟩ := trap_inv htrap
  have hoff : (s₁.hart.setCsr .mstatus 0).on = false := by
    rw [Rv32.on_setCsr]
    rfl
  have hcode : TrapSteps sampleIsr s₁ .code { s₁ with hart := s₁.hart.setCsr .mstatus 0 } := by
    refine .code (mayRun_mstatus fun hon => ?_)
    rw [hoff] at hon
    cases hon
  obtain ⟨hcount, -, -, hexit, -, -, hrets⟩ := nested_traps_unwind ((hreach.step htrap).step hcode)
  obtain ⟨s₃, hret⟩ := hrets _ _ hactive₁ ⟨hoff, rfl, fun _ _ => rfl⟩
  have hactive₃ : s₃.active = s.active := by
    refine (hexit _ _ s₃ hactive₁ hret).2 ?_
    rintro ⟨-, hnil, -⟩
    rw [hactive] at hnil
    cases hnil
  obtain ⟨-, hmie₃, hresumes⟩ := hwhole .external_interrupt s₁ [.code] _ s₃ htrap
    (.single ⟨hcode, by rw [hactive₁]; simp⟩) hret (by rw [hactive₃])
  refine ⟨s, s₁, _, s₃, hreach, by rw [hactive]; rfl, htrap, hcode, hret, ?_, hactive₃, ?_, hmie₃.trans hmie⟩
  · rw [hcount, hactive₁, hactive]
    rfl
  · obtain ⟨hregs, -, -⟩ := hresumes (by simp [hactive])
    rw [hregs .sp List.mem_cons_self, hsp]

end TsukumoCore
