import TsukumoCore.Trap.Controller
import TsukumoCore.Trap.Nesting

/-!
# The interrupt stack

The traps of the hart, and the controller that asks for them. A nested trap takes a frame of the interrupt stack
and what its functions push. A trap that nests has a higher priority than the one it interrupts, so the size in
`linker.ld` can be checked against the priorities of the controller.
-/

namespace TsukumoCore

open Memory Trap
open Rv32 (Reg Hart)

structure Interrupts where
  traps : Traps
  intctl : Intctl
  /-- The calls of `tkmc_external_interrupt` whose handlers run, the innermost first. -/
  calls : List Active
  /-- The last trap is to claim its source. -/
  claims : Bool

/-- The functions of the innermost trap have pushed at most `room` bytes. -/
def Fits (room : Nat) (s : Traps) : Prop :=
  ∀ t ∈ s.active.head?, (s.hart.get .sp).toNat ≤ (t.called.get .sp).toNat ∧
    (t.called.get .sp).toNat ≤ (s.hart.get .sp).toNat + room

/-- What code and devices do to the controller. -/
def IntAct.outside : IntAct → Bool
  | .enable _ _ | .disable _ | .def_int _ _ _ | .device _ _ => true
  | _ => false

inductive InterruptAct where
  | code
  | intctl (a : IntAct)
  | trap (e : TrapEntry)
  | claim (intno : UINT)
  | ret

inductive InterruptSteps (x : IsrStack) (room : Nat) : Interrupts → InterruptAct → Interrupts → Prop where
  /-- Only a handler turns interrupts on. -/
  | code {s : Interrupts} {h : Hart} : MayRun x s.traps h → (h.on → s.traps.active.length = s.calls.length) →
      Fits room { s.traps with hart := h } →
      InterruptSteps x room s .code { s with traps := { s.traps with hart := h } }
  | intctl {s : Interrupts} {a : IntAct} {n : Nest} : a.outside = true →
      nest ⟨s.intctl, s.traps.hart.on, s.calls⟩ a = some n →
      InterruptSteps x room s (.intctl a) { s with intctl := n.toIntctl }
  | external {s : Interrupts} {src : UINT} {s' : Traps} : s.intctl.raises src = true →
      TrapSteps x s.traps (.trap .external_interrupt) s' →
      InterruptSteps x room s (.trap .external_interrupt) { s with traps := s', claims := true }
  | trap {s : Interrupts} {e : TrapEntry} {s' : Traps} : e ≠ .external_interrupt →
      TrapSteps x s.traps (.trap e) s' → InterruptSteps x room s (.trap e) { s with traps := s', claims := false }
  /-- The claim may find another source, or none. -/
  | claim {s : Interrupts} {intno : UINT} {call : Option Active} {y : Intctl} : s.claims = true →
      s.intctl.may_claim intno = true → tkmc_external_interrupt_begin s.intctl intno = (call, y) →
      InterruptSteps x room s (.claim intno) { s with intctl := y, calls := call.toList ++ s.calls, claims := false }
  /-- A handler returns, and `tkmc_external_interrupt` after it. -/
  | handled {s : Interrupts} {a : Active} {as : List Active} {s' : Traps} : s.calls = a :: as →
      s.traps.active.length = s.calls.length → TrapSteps x s.traps .ret s' →
      InterruptSteps x room s .ret
        { traps := s', intctl := tkmc_external_interrupt_end s.intctl a, calls := as, claims := false }
  /-- Another function returns, or `tkmc_external_interrupt` with no handler called. -/
  | ret {s : Interrupts} {s' : Traps} : s.traps.active.length ≠ s.calls.length → s.claims = false →
      TrapSteps x s.traps .ret s' → InterruptSteps x room s .ret { s with traps := s' }

/-- A task runs, and the controller has been set up. -/
def InterruptsReachable (x : IsrStack) (room : Nat) : Interrupts → Prop :=
  Paths.Reach (fun s => s.traps.active = [] ∧ load s.traps.hart.mem x.tkmc_isr_depth = 0 ∧
    (∃ y, s.intctl = tkmc_init_intctl y) ∧ s.calls = [] ∧ s.claims = false) (InterruptSteps x room)

variable {x : IsrStack} {room : Nat} {s s' : Interrupts} {t u : ActiveTrap} {ts : List ActiveTrap} {m : Mem}
  {r r' : Traps} {h : Hart}

/-! ## What the levels take -/

/-- Each function was interrupted within its room. -/
def Used (room : Nat) : List ActiveTrap → Prop
  | t :: u :: ts => (u.called.get .sp).toNat ≤ (t.before.get .sp).toNat + room ∧ Used room (u :: ts)
  | _ => True

theorem Nested.before_sp (hin : Nested x m u t) : (t.before.get .sp).toNat = t.frame.toNat + 128 := by
  have hbelow := hin.below
  have hlt := (u.called.get .sp).isLt
  unfold ActiveTrap.frame at *
  bv_omega

theorem Stacked.used (hs : Stacked x m (t :: ts)) (hused : Used room (t :: ts)) :
    x._isr_stack_end.toNat ≤ (t.called.get .sp).toNat + (room + 128) * ts.length := by
  generalize hts : t :: ts = l at hs hused
  induction hs generalizing t ts with
  | nil => cases hts
  | outermost hout =>
    obtain ⟨rfl, rfl⟩ := List.cons_eq_cons.mp hts
    rw [hout.sp]
    simp
  | nested hin _ ih =>
    obtain ⟨rfl, rfl⟩ := List.cons_eq_cons.mp hts
    obtain ⟨hstep, hrest⟩ := hused
    have hunder := ih rfl hrest
    rw [hin.before_sp] at hstep
    rw [hin.sp, List.length_cons, Nat.mul_succ]
    omega

/-! ## Every step -/

structure InterruptsOk (x : IsrStack) (room : Nat) (s : Interrupts) : Prop where
  traps : TrapsOk x s.traps
  nest : NestOk ⟨s.intctl, s.traps.hart.on, s.calls⟩
  levels : s.traps.active.length = s.calls.length ∨ s.traps.active.length = s.calls.length + 1
  claims : s.claims = true → s.traps.active.length = s.calls.length + 1
  on : s.traps.hart.on → s.traps.active.length = s.calls.length
  fits : Fits room s.traps
  used : Used room s.traps.active
  bound : s.traps.active.length ≤ PLIC_MAX_PRIORITY

theorem NestOk.mask {y : Intctl} {mie mie' : Bool} {calls : List Active} (h : NestOk ⟨y, mie, calls⟩) :
    NestOk ⟨y, mie', calls⟩ :=
  h.quiet rfl rfl rfl (fun _ => .inl rfl) fun _ => rfl

theorem trap_fits {e : TrapEntry} (hs : TrapSteps x r (.trap e) r') : Fits room r' := by
  obtain ⟨-, -, f, rest, -, hactive⟩ := trap_inv hs
  intro t ht
  rw [hactive] at ht
  obtain rfl := Option.some.inj ht
  exact ⟨Nat.le_refl _, Nat.le_add_right _ _⟩

theorem trap_used {e : TrapEntry} (hfits : Fits room r) (hused : Used room r.active)
    (hs : TrapSteps x r (.trap e) r') : Used room r'.active := by
  obtain ⟨-, -, f, rest, -, hactive⟩ := trap_inv hs
  rw [hactive]
  cases hcases : r.active with
  | nil => trivial
  | cons u us =>
    rw [hcases] at hused
    exact ⟨(hfits u (by rw [hcases]; rfl)).2, hused⟩

theorem ret_fits (hok : TrapsOk x r) (hused : Used room r.active) (hs : TrapSteps x r .ret r') :
    Fits room r' ∧ Used room r'.active := by
  obtain ⟨t, ts, hactive, -, hexits⟩ := hok.ret_cases hs
  have hstacked := hok.stacked
  rw [hactive] at hstacked hused
  cases hexits with
  | leave _ _ =>
    refine ⟨fun v hv => ?_, trivial⟩
    cases hv
  | schedule _ _ _ =>
    refine ⟨fun v hv => ?_, trivial⟩
    obtain rfl := Option.some.inj hv
    exact ⟨Nat.le_refl _, Nat.le_add_right _ _⟩
  | @nested u us h hleft _ =>
    cases hstacked with
    | nested hin _ =>
      refine ⟨fun v hv => ?_, hused.2⟩
      obtain rfl := Option.some.inj hv
      have hsp : h.get .sp = t.before.get .sp := by
        rw [hleft.sp]
        exact BitVec.sub_add_cancel _ _
      have hbelow := hin.below
      have hused' := hused.1
      rw [← hin.before_sp] at hbelow
      rw [hsp]
      exact ⟨hbelow, hused'⟩

theorem ret_length (hok : TrapsOk x r) (hs : TrapSteps x r .ret r') :
    r'.active.length + 1 = r.active.length ∨ r'.active.length = 1 ∧ r.active.length = 1 := by
  obtain ⟨t, ts, hactive, -, hexits⟩ := hok.ret_cases hs
  rw [hactive]
  cases hexits with
  | nested _ _ => exact .inl rfl
  | leave _ _ => exact .inl rfl
  | schedule _ _ _ => exact .inr ⟨rfl, rfl⟩

theorem ret_on (hok : TrapsOk x r) (hs : TrapSteps x r .ret r') (hon : r'.hart.on = true) :
    r'.active.length + 1 = r.active.length := by
  have hok' := ret_trapsOk hok hs
  obtain ⟨t, ts, hactive, -, hexits⟩ := hok.ret_cases hs
  rw [hactive]
  cases hexits with
  | nested _ _ => rfl
  | leave _ _ => rfl
  | schedule _ _ _ =>
    obtain ⟨hcallee, -⟩ := hok'.on hon _ rfl
    cases hcallee

theorem trap_length {e : TrapEntry} (hs : TrapSteps x r (.trap e) r') : r'.active.length = r.active.length + 1 := by
  obtain ⟨-, -, f, rest, -, hactive⟩ := trap_inv hs
  rw [hactive, List.length_cons]

theorem InterruptsOk.levels_lt {src : UINT} (hok : InterruptsOk x room s) (hraises : s.intctl.raises src = true) :
    s.calls.length < PLIC_MAX_PRIORITY := by
  obtain ⟨h1, hcount, -, -, -, habove⟩ := Plic.raises_iff.mp hraises
  have hpriority := hok.nest.priority src.toNat h1 hcount
  have hlength := falling_length hok.nest.falling
  rw [List.length_map] at hlength
  simp only at hpriority hlength
  omega

theorem outside_keeps {a : IntAct} {n n' : Nest} (ha : a.outside = true) (hs : nest n a = some n') :
    n'.mie = n.mie ∧ n'.active = n.active := by
  cases a with
  | enable | disable | device =>
    obtain rfl := Option.some.inj hs
    exact ⟨rfl, rfl⟩
  | def_int =>
    simp only [nest, Option.ite_none_right_eq_some, Option.some.injEq] at hs
    obtain ⟨-, rfl⟩ := hs
    exact ⟨rfl, rfl⟩
  | _ => cases ha

theorem intctl_ok {a : IntAct} {n : Nest} (hok : InterruptsOk x room s) (ha : a.outside = true)
    (hs : nest ⟨s.intctl, s.traps.hart.on, s.calls⟩ a = some n) :
    InterruptsOk x room { s with intctl := n.toIntctl } := by
  have hnest := nest_nestOk hok.nest hs
  have hcalls : n.active = s.calls := (outside_keeps ha hs).2
  refine { hok with nest := ?_ }
  rw [← hcalls]
  exact hnest.mask

theorem claim_ok {intno : UINT} {call : Option Active} {y : Intctl} (hok : InterruptsOk x room s)
    (hclaims : s.claims = true) (hmay : s.intctl.may_claim intno = true)
    (hbegin : tkmc_external_interrupt_begin s.intctl intno = (call, y)) :
    InterruptsOk x room { s with intctl := y, calls := call.toList ++ s.calls, claims := false } := by
  have hlevels := hok.claims hclaims
  have hnest : NestOk ⟨y, s.traps.hart.on, call.toList ++ s.calls⟩ := by
    have hstep : nest ⟨s.intctl, true, s.calls⟩ (.trap intno) =
        some ⟨y, call.isNone, call.toList ++ s.calls⟩ := by
      simp only [nest, hmay, Bool.and_self, if_true, hbegin]
      cases call <;> rfl
    exact (nest_nestOk hok.nest.mask hstep).mask
  refine ⟨hok.traps, hnest, ?_, fun hfalse => (by cases hfalse), fun hon => ?_, hok.fits, hok.used, hok.bound⟩
  · cases call with
    | none => exact .inr hlevels
    | some a => exact .inl hlevels
  · have hequal := hok.on hon
    omega

theorem external_ok {src : UINT} (hok : InterruptsOk x room s) (hraises : s.intctl.raises src = true)
    (hs : TrapSteps x s.traps (.trap .external_interrupt) r') :
    InterruptsOk x room { s with traps := r', claims := true } := by
  have hlt := hok.levels_lt hraises
  have hequal := hok.on (trap_inv hs).1.1
  have hlength := trap_length hs
  have hoff := trap_off hok.traps hs
  refine ⟨trap_trapsOk hok.traps hs, hok.nest.mask, .inr (by simp only; omega), fun _ => by simp only; omega,
    fun hon => ?_, trap_fits hs, trap_used hok.fits hok.used hs, by simp only; omega⟩
  cases hoff.symm.trans hon

theorem trap_ok {e : TrapEntry} (hok : InterruptsOk x room s) (he : e ≠ .external_interrupt)
    (hs : TrapSteps x s.traps (.trap e) r') : InterruptsOk x room { s with traps := r', claims := false } := by
  have hnil : s.traps.active = [] := by
    by_contra hne
    exact he (hok.traps.trap_entry (trap_inv hs).1 hne)
  have hequal := hok.on (trap_inv hs).1.1
  have hlength := trap_length hs
  have hoff := trap_off hok.traps hs
  rw [hnil, List.length_nil] at hlength hequal
  refine ⟨trap_trapsOk hok.traps hs, hok.nest.mask, .inr (by simp only; omega), fun hfalse => (by cases hfalse),
    fun hon => ?_, trap_fits hs, trap_used hok.fits hok.used hs, ?_⟩
  · cases hoff.symm.trans hon
  · simp only [hlength]
    decide

theorem handled_ok {a : Active} {as : List Active} (hok : InterruptsOk x room s) (hcalls : s.calls = a :: as)
    (hequal : s.traps.active.length = s.calls.length) (hs : TrapSteps x s.traps .ret r') :
    InterruptsOk x room
      { traps := r', intctl := tkmc_external_interrupt_end s.intctl a, calls := as, claims := false } := by
  obtain ⟨hfits, hused⟩ := ret_fits hok.traps hok.used hs
  have hbound := hok.bound
  have hlength := ret_length hok.traps hs
  have hnest : NestOk ⟨tkmc_external_interrupt_end s.intctl a, r'.hart.on, as⟩ := by
    have hstep : nest ⟨s.intctl, false, s.calls⟩ .ret = some ⟨tkmc_external_interrupt_end s.intctl a, true, as⟩ := by
      rw [hcalls]
      rfl
    exact (nest_nestOk hok.nest.mask hstep).mask
  rw [hcalls, List.length_cons] at hequal
  refine ⟨ret_trapsOk hok.traps hs, hnest, by simp only; omega, fun hfalse => (by cases hfalse), fun hon => ?_, hfits,
    hused, by simp only; omega⟩
  have hleft := ret_on hok.traps hs hon
  simp only
  omega

theorem ret_ok (hok : InterruptsOk x room s) (hne : s.traps.active.length ≠ s.calls.length)
    (hclaims : s.claims = false) (hs : TrapSteps x s.traps .ret r') : InterruptsOk x room { s with traps := r' } := by
  obtain ⟨hfits, hused⟩ := ret_fits hok.traps hok.used hs
  have hbound := hok.bound
  have hlevels := hok.levels
  have hlength := ret_length hok.traps hs
  refine ⟨ret_trapsOk hok.traps hs, hok.nest.mask, by simp only; omega, fun htrue => ?_, fun hon => ?_, hfits, hused,
    by simp only; omega⟩
  · cases hclaims.symm.trans htrue
  · have hleft := ret_on hok.traps hs hon
    simp only
    omega

theorem step_interruptsOk {a : InterruptAct} (hok : InterruptsOk x room s) (hs : InterruptSteps x room s a s') :
    InterruptsOk x room s' := by
  cases hs with
  | code hrun hon hfits =>
    exact ⟨code_trapsOk hok.traps (.code hrun), hok.nest.mask, hok.levels, hok.claims, hon, hfits, hok.used, hok.bound⟩
  | intctl ha hs => exact intctl_ok hok ha hs
  | external hraises hs => exact external_ok hok hraises hs
  | trap he hs => exact trap_ok hok he hs
  | claim hclaims hmay hbegin => exact claim_ok hok hclaims hmay hbegin
  | handled hcalls hequal hs => exact handled_ok hok hcalls hequal hs
  | ret hne hclaims hs => exact ret_ok hok hne hclaims hs

theorem InterruptsReachable.ok (h : InterruptsReachable x room s) : InterruptsOk x room s := by
  refine Paths.Reach.invariant (I := InterruptsOk x room) ?_ ?_ h
  · rintro s₀ ⟨hactive, hdepth, ⟨y, hy⟩, hcalls, hclaims⟩
    have hreach : TrapsReachable x s₀.traps := ⟨_, [], ⟨hactive, hdepth⟩, .nil _⟩
    refine ⟨hreach.ok, init_nestOk hy hcalls, .inl (by rw [hactive, hcalls]; rfl), fun htrue => ?_,
      fun _ => by rw [hactive, hcalls]; rfl, fun t ht => ?_, by rw [hactive]; trivial,
      by rw [hactive]; exact Nat.zero_le _⟩
    · cases hclaims.symm.trans htrue
    · rw [hactive] at ht
      cases ht
  · intro s a s' hok hs
    exact step_interruptsOk hok hs

/-- **The interrupt stack suffices.** Traps nest at most as deep as there are priorities. With `room` bytes for the
functions of each level the stack pointer stays on the interrupt stack and a nested trap finds place for its frame. -/
theorem interrupt_stack_suffices (h : InterruptsReachable x room s) :
    (load s.traps.hart.mem x.tkmc_isr_depth).toNat ≤ PLIC_MAX_PRIORITY ∧
      (x._isr_stack_start.toNat + ((PLIC_MAX_PRIORITY - 1) * (room + 128) + room) ≤ x._isr_stack_end.toNat →
        (s.traps.active ≠ [] → x._isr_stack_start.toNat ≤ (s.traps.hart.get .sp).toNat ∧
          (s.traps.hart.get .sp).toNat ≤ x._isr_stack_end.toNat) ∧
        ∀ src, s.traps.active ≠ [] → MayTrap s.traps .external_interrupt → s.intctl.raises src = true →
          Room x s.traps) := by
  have hok := h.ok
  have hbound := hok.bound
  have hlevel : ∀ t ts, s.traps.active = t :: ts → (s.traps.hart.get .sp).toNat ≤ (t.called.get .sp).toNat ∧
      (t.called.get .sp).toNat ≤ x._isr_stack_end.toNat ∧
      x._isr_stack_end.toNat ≤ (s.traps.hart.get .sp).toNat + room + (room + 128) * ts.length := by
    intro t ts hactive
    have hstacked := hok.traps.stacked
    have hused := hok.used
    rw [hactive] at hstacked hused
    obtain ⟨hle, hroom⟩ := hok.fits t (by rw [hactive]; rfl)
    have htotal := hstacked.used hused
    exact ⟨hle, hstacked.le_end, by omega⟩
  refine ⟨?_, fun hsize => ⟨fun hne => ?_, fun src hne htrap hraises => ?_⟩⟩
  · have hlt := hok.traps.stacked.length_lt
    rw [hok.traps.depth, BitVec.toNat_ofNat, Nat.mod_eq_of_lt (by omega)]
    exact hbound
  · obtain ⟨t, ts, hactive⟩ := List.exists_cons_of_ne_nil hne
    obtain ⟨hle, hend, htotal⟩ := hlevel t ts hactive
    rw [hactive, List.length_cons] at hbound
    have hmul : (room + 128) * ts.length ≤ (PLIC_MAX_PRIORITY - 1) * (room + 128) := by
      rw [Nat.mul_comm (room + 128)]
      exact Nat.mul_le_mul_right _ (by omega)
    omega
  · obtain ⟨t, ts, hactive⟩ := List.exists_cons_of_ne_nil hne
    obtain ⟨hle, hend, htotal⟩ := hlevel t ts hactive
    have hlt := hok.levels_lt hraises
    rw [← hok.on htrap.1, hactive, List.length_cons] at hlt
    have hmul : (room + 128) * (ts.length + 1) ≤ (PLIC_MAX_PRIORITY - 1) * (room + 128) := by
      rw [Nat.mul_comm (room + 128)]
      exact Nat.mul_le_mul_right _ (by omega)
    rw [Nat.mul_succ] at hmul
    unfold Room
    rw [hactive]
    exact ⟨by omega, hle⟩

/-! ## A run -/

theorem outside_run {as : List IntAct} {n n' : Nest} (hreach : InterruptsReachable x room s)
    (has : ∀ a ∈ as, a.outside = true) (hn : n = ⟨s.intctl, s.traps.hart.on, s.calls⟩)
    (hrun : nestRun 0 n as = some n') : InterruptsReachable x room { s with intctl := n'.toIntctl } := by
  induction as generalizing s n with
  | nil =>
    obtain rfl := Option.some.inj hrun
    rw [hn]
    exact hreach
  | cons a as ih =>
    simp only [nestRun, Nat.zero_le, if_true, Option.bind_eq_some_iff] at hrun
    obtain ⟨n₁, hs, hrest⟩ := hrun
    have ha := has a List.mem_cons_self
    obtain ⟨hmie, hactive⟩ := outside_keeps ha hs
    rw [hn] at hs hmie hactive
    have hreach₁ : InterruptsReachable x room { s with intctl := n₁.toIntctl } := hreach.step (.intctl ha hs)
    refine ih (s := { s with intctl := n₁.toIntctl }) hreach₁ (fun a' ha' => has a' (List.mem_cons_of_mem a ha')) ?_
      hrest
    cases n₁
    simp only at hmie hactive ⊢
    rw [hmie, hactive]

/-- As large as in `linker.ld`. -/
def sampleStack : IsrStack :=
  { sampleIsr with
    _isr_stack_start := 0x80002800
    start_le := by decide
    depth := by decide }

/-- A handler runs with interrupts on, and another source asks. -/
theorem interrupt_stack_suffices_sample : ∃ s, InterruptsReachable sampleStack 182 s ∧ s.calls.length = 1 ∧
    s.intctl.raises 11 = true ∧ MayTrap s.traps .external_interrupt ∧ Room sampleStack s.traps ∧
    (load s.traps.hart.mem 0x80001000).toNat ≤ 7 := by
  have hzero : load sampleTask.mem sampleStack.tkmc_isr_depth = 0 := by decide
  let s₀ : Interrupts := { traps := ⟨sampleTask, []⟩, intctl := resetNest.toIntctl, calls := [], claims := false }
  have hreach₀ : InterruptsReachable sampleStack 182 s₀ := ⟨s₀, [], ⟨rfl, hzero, ⟨_, rfl⟩, rfl, rfl⟩, .nil s₀⟩
  have hrun : (nestRun 0 resetNest nestSetup).any (fun n => decide (n.raises 10 = true ∧ n.may_claim 10 = true ∧
      (tkmc_external_interrupt_begin n.toIntctl 10).1 = some ⟨10, 0⟩) &&
      (nest ⟨(tkmc_external_interrupt_begin n.toIntctl 10).2, true, [⟨10, 0⟩]⟩ (.device 11 true)).any
        fun n' => n'.raises 11) = true := by decide +kernel
  obtain ⟨n, hn, hrest⟩ := (Option.any_eq_true _ _).mp hrun
  obtain ⟨hdecide, hrest⟩ := Bool.and_eq_true_iff.mp hrest
  obtain ⟨hraises, hmay, hbegin⟩ := of_decide_eq_true hdecide
  obtain ⟨n', hn', hraises'⟩ := (Option.any_eq_true _ _).mp hrest
  have hon : sampleTask.on = true := by decide
  have hreach₁ : InterruptsReachable sampleStack 182 { s₀ with intctl := n.toIntctl } := by
    refine outside_run hreach₀ (by decide) ?_ hn
    show resetNest = ⟨resetNest.toIntctl, sampleTask.on, []⟩
    rw [hon]
    rfl
  have htrap : MayTrap ⟨sampleTask, []⟩ .external_interrupt := ⟨hon, .inl rfl⟩
  have hroom : Room sampleStack ⟨sampleTask, []⟩ := by
    unfold Room
    decide
  rcases hreach₁.ok.traps.trap_cases htrap hroom with ⟨-, g, hrun, hentered⟩ | ⟨hne, -⟩
  · have hreach₂ := hreach₁.step (.external hraises (.trap htrap hroom hrun))
    have hreach₃ := hreach₂.step (.claim rfl hmay (Prod.ext hbegin rfl))
    have hon' : (g.setCsr .mstatus Rv32.MIE).on = true := by
      rw [Rv32.on_setCsr]
      rfl
    have hreach₄ := hreach₃.step (.code (h := g.setCsr .mstatus Rv32.MIE) (mayRun_mstatus fun _ t ht => by
      obtain rfl := Option.some.inj ht
      exact ⟨rfl, rfl⟩) (fun _ => rfl) fun t ht => by
      obtain rfl := Option.some.inj ht
      exact ⟨Nat.le_refl _, Nat.le_add_right _ _⟩)
    have hreach₅ := hreach₄.step (.intctl (a := .device 11 true) (n := n') rfl (by
      simp only
      rw [hon']
      exact hn'))
    obtain ⟨hdepth, hstack⟩ := interrupt_stack_suffices hreach₅
    obtain ⟨-, hroom'⟩ := hstack (by decide)
    exact ⟨_, hreach₅, rfl, hraises', ⟨hon', .inl rfl⟩, hroom' 11 (by simp) ⟨hon', .inl rfl⟩ hraises', hdepth⟩
  · exact absurd rfl hne

end TsukumoCore
