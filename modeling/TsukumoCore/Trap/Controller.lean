import TsukumoCore.Kernel.Intctl
import TsukumoCore.Kernel.System
import TsukumoCore.Lib.Path

/-!
# Nested external interrupts

The interrupt controller with the calls of `tkmc_external_interrupt` that are active. Between two steps of
the code a device may raise its source, and where interrupts are on the next trap may come.
-/

namespace TsukumoCore

variable {p : Plic} {x : Intctl} {intno src : UINT} {on : Bool}

/-! ## One bit of a word -/

namespace Plic

theorem is_enabled_eq (p : Plic) (src : UINT) :
    p.is_enabled src = (p.enable (src.toNat / 32)).getLsbD (src.toNat % 32) := by
  unfold is_enabled
  rw [show (1 : UINT) = 1#32 from rfl, BitVec.and_one_eq_setWidth_ofBool_getLsbD, BitVec.getLsbD_ushiftRight,
    Nat.add_zero]
  cases (p.enable (src.toNat / 32)).getLsbD (src.toNat % 32) <;> decide

theorem is_enabled_set_enabled (p : Plic) (intno src : UINT) (on : Bool) :
    (p.set_enabled intno on).is_enabled src = if src = intno then on else p.is_enabled src := by
  simp only [is_enabled_eq, set_enabled]
  by_cases hword : src.toNat / 32 = intno.toNat / 32
  · have hbit : src.toNat % 32 = intno.toNat % 32 ↔ src = intno := by
      rw [← BitVec.toNat_inj]
      omega
    have hlt : src.toNat % 32 < 32 := Nat.mod_lt _ (by decide)
    have hone : ((1 <<< (intno.toNat % 32) : Nat) : UINT) = BitVec.twoPow 32 (intno.toNat % 32) := by
      apply BitVec.eq_of_toNat_eq
      simp [BitVec.toNat_twoPow, Nat.shiftLeft_eq]
    rw [hword, Function.update_self, hone]
    cases on with
    | true => simp [hlt, ← hbit, eq_comm, Bool.or_comm]
    | false => simp [hlt, ← hbit, eq_comm, Bool.and_comm]
  · have hne : src ≠ intno := fun he => hword (by rw [he])
    rw [Function.update_of_ne hword, if_neg hne]

/-- What the end of a call leaves: the source is completed, and enabled if it was and has a handler. The bits
of the other sources are as they were. -/
structure Finished (p : Plic) (intno : UINT) (defined : Bool) (p' : Plic) : Prop where
  threshold : p'.threshold = p.threshold
  priority : p'.priority = p.priority
  claimed : p'.claimed = Function.update p.claimed intno.toNat false
  enabled : ∀ src, p'.is_enabled src = if src = intno then defined && p.is_enabled intno else p.is_enabled src

theorem finish_spec (p : Plic) (intno : UINT) (defined : Bool) : Finished p intno defined (p.finish intno defined) := by
  have hon : (p.set_enabled intno true).is_enabled intno = true := by simp [is_enabled_set_enabled]
  have hcomplete : (p.set_enabled intno true).complete intno =
      { p.set_enabled intno true with claimed := Function.update p.claimed intno.toNat false } := by
    rw [complete, if_pos hon]
    rfl
  have henabled : ∀ src, ((p.set_enabled intno true).complete intno).is_enabled src =
      if src = intno then true else p.is_enabled src := by
    intro src
    rw [hcomplete, ← is_enabled_set_enabled]
    rfl
  unfold finish
  dsimp only
  cases hstays : defined && p.is_enabled intno with
  | false =>
    refine ⟨by rw [hcomplete]; rfl, by rw [hcomplete]; rfl, by rw [hcomplete]; rfl, fun src => ?_⟩
    rw [Bool.not_false, if_pos rfl, is_enabled_set_enabled, henabled, hstays]
    split <;> rfl
  | true =>
    refine ⟨by rw [hcomplete]; rfl, by rw [hcomplete]; rfl, by rw [hcomplete]; rfl, fun src => ?_⟩
    rw [Bool.not_true, if_neg (by simp), henabled, hstays]

theorem raises_iff : p.raises src = true ↔ 1 ≤ src.toNat ∧ src.toNat < PLIC_SOURCE_COUNT ∧ p.is_enabled src ∧
    p.pending src.toNat ∧ p.claimed src.toNat = false ∧ p.threshold.toNat < (p.priority src.toNat).toNat := by
  rw [raises, decide_eq_true_iff]

theorem raises_of_may_claim (h : p.may_claim intno = true) (h0 : intno ≠ 0) : p.raises intno = true := by
  rw [may_claim, if_neg h0, Bool.and_eq_true] at h
  exact h.1

theorem claim_claimed (p : Plic) (h0 : intno ≠ 0) :
    (p.claim intno).claimed = Function.update p.claimed intno.toNat true := by
  unfold claim
  rw [if_neg h0]

theorem claim_threshold (p : Plic) (intno : UINT) : (p.claim intno).threshold = p.threshold := by
  unfold claim
  split <;> rfl

theorem claim_priority (p : Plic) (intno : UINT) : (p.claim intno).priority = p.priority := by
  unfold claim
  split <;> rfl

theorem claim_enabled (p : Plic) (intno src : UINT) : (p.claim intno).is_enabled src = p.is_enabled src := by
  unfold claim
  split <;> rfl

end Plic

/-! ## The active calls -/

/-- The controller, `mstatus.MIE`, and the calls of `tkmc_external_interrupt` whose handlers run, the innermost
first. -/
structure Nest extends Intctl where
  mie : Bool
  active : List Active

inductive IntAct where
  /-- An external trap, whose claim returns `intno`. -/
  | trap (intno : UINT)
  /-- The innermost handler returns. -/
  | ret
  | enable (intno : UINT) (level : Int)
  | disable (intno : UINT)
  | def_int (k : Kernel) (intno : UINT) (pk_dint : Option T_DINT)
  | ei
  | di
  /-- A device sets or clears its request. -/
  | device (src : Nat) (pending : Bool)

/-- A trap needs interrupts on and turns them off, and its end turns them on again. The other acts are those of
any code: a handler, or a task when no call is active. `k` is the kernel that `tk_def_int` finds. -/
def nest (s : Nest) : IntAct → Option Nest
  | .trap intno =>
    if s.mie && s.toPlic.may_claim intno then
      match tkmc_external_interrupt_begin s.toIntctl intno with
      | (none, x) => some { s with toIntctl := x }
      | (some a, x) => some { toIntctl := x, mie := false, active := a :: s.active }
    else none
  | .ret =>
    match s.active with
    | [] => none
    | a :: rest =>
      if s.mie then none
      else some { toIntctl := tkmc_external_interrupt_end s.toIntctl a, mie := true, active := rest }
  | .enable intno level => some { s with toIntctl := EnableInt s.toIntctl intno level }
  | .disable intno => some { s with toIntctl := DisableInt s.toIntctl intno }
  | .def_int k intno pk_dint =>
    if k.mie = s.mie ∧ (s.active ≠ [] → tkmc_in_isr k = true) then
      some { s with toIntctl := (tk_def_int k s.toIntctl intno pk_dint).2.2 }
    else none
  | .ei => some { s with mie := true }
  | .di => some { s with mie := false }
  | .device src pending => some { s with pending := Function.update s.pending src pending }

def NestSteps (s : Nest) (a : IntAct) (s' : Nest) : Prop := nest s a = some s'

/-- Whatever the registers held before `tkmc_init_intctl`. -/
def NestReachable : Nest → Prop :=
  Paths.Reach (fun s => (∃ x, s.toIntctl = tkmc_init_intctl x) ∧ s.active = []) NestSteps

variable {s s' s₁ s₂ s₃ : Nest} {a : IntAct}

/-! ## The invariant -/

/-- The threshold in force now, then those of the calls that were interrupted, and last the one outside all. -/
def Nest.thresholds (s : Nest) : List UINT := s.threshold :: s.active.map Active.threshold

structure NestOk (s : Nest) : Prop where
  priority : ∀ src, 1 ≤ src → src < PLIC_SOURCE_COUNT → (s.priority src).toNat ≤ PLIC_MAX_PRIORITY
  falling : s.thresholds.Pairwise fun inner outer => outer.toNat < inner.toNat
  threshold : s.threshold.toNat ≤ PLIC_MAX_PRIORITY
  claimed : ∀ a ∈ s.active, s.claimed a.intno.toNat = true
  distinct : (s.active.map fun a => a.intno.toNat).Nodup
  defined : ∀ a ∈ s.active, s.handler a.intno ≠ NULL

theorem init_nestOk (hx : s.toIntctl = tkmc_init_intctl x) (hactive : s.active = []) : NestOk s := by
  refine ⟨fun src h1 hcount => ?_, ?_, ?_, ?_, ?_, ?_⟩
  · rw [hx]
    simp [tkmc_init_intctl, h1, hcount]
  · simp [Nest.thresholds, hactive]
  · rw [hx]
    simp [tkmc_init_intctl]
  · simp [hactive]
  · simp [hactive]
  · simp [hactive]

theorem falling_length {t : UINT} {l : List UINT}
    (h : (t :: l).Pairwise fun inner outer => outer.toNat < inner.toNat) : l.length ≤ t.toNat := by
  induction l generalizing t with
  | nil => exact Nat.zero_le _
  | cons t' l ih =>
    obtain ⟨hbelow, hrest⟩ := List.pairwise_cons.mp h
    have hlen := ih hrest
    have hlt := hbelow t' List.mem_cons_self
    rw [List.length_cons]
    omega

/-! ## Every step -/

theorem NestOk.quiet (h : NestOk s) (hactive : s'.active = s.active) (hthreshold : s'.threshold = s.threshold)
    (hclaimed : s'.claimed = s.claimed)
    (hpriority : ∀ src, s'.priority src = s.priority src ∨ (s'.priority src).toNat ≤ PLIC_MAX_PRIORITY)
    (hhandler : s.active ≠ [] → s'.s_handlers = s.s_handlers) : NestOk s' := by
  refine ⟨fun src h1 hcount => ?_, ?_, ?_, ?_, ?_, ?_⟩
  · rcases hpriority src with hsame | hle
    · rw [hsame]
      exact h.priority src h1 hcount
    · exact hle
  · unfold Nest.thresholds
    rw [hthreshold, hactive]
    exact h.falling
  · rw [hthreshold]
    exact h.threshold
  · rw [hactive, hclaimed]
    exact h.claimed
  · rw [hactive]
    exact h.distinct
  · rw [hactive]
    intro a ha
    have hsame := hhandler (List.ne_nil_of_mem ha)
    have hdefined := h.defined a ha
    unfold Intctl.handler at hdefined ⊢
    rwa [hsame]

theorem EnableInt_spec (x : Intctl) (intno : UINT) (level : Int) :
    (EnableInt x intno level).threshold = x.threshold ∧ (EnableInt x intno level).claimed = x.claimed ∧
      (EnableInt x intno level).s_handlers = x.s_handlers ∧
      ∀ src, (EnableInt x intno level).priority src = x.priority src ∨
        ((EnableInt x intno level).priority src).toNat ≤ PLIC_MAX_PRIORITY := by
  unfold EnableInt
  split
  · exact ⟨rfl, rfl, rfl, fun _ => .inl rfl⟩
  split
  · exact ⟨rfl, rfl, rfl, fun _ => .inl rfl⟩
  rename_i hlevel
  refine ⟨rfl, rfl, rfl, fun src => ?_⟩
  by_cases hsrc : src = intno.toNat
  · right
    subst hsrc
    have hmax : PLIC_MAX_PRIORITY = 7 := rfl
    have hlt : (BitVec.ofInt 32 level).toNat = level.toNat := by
      rw [BitVec.toNat_ofInt]
      omega
    simp only [Plic.set_enabled, Function.update_self, hlt]
    omega
  · left
    simp [Plic.set_enabled, hsrc]

theorem def_int_in_isr {k : Kernel} (hisr : tkmc_in_isr k = true) (x : Intctl) (intno : UINT)
    (pk_dint : Option T_DINT) : (tk_def_int k x intno pk_dint).2.2 = x := by
  have hisr' : tkmc_in_isr k.DI = true := hisr
  simp [tk_def_int, hisr']

theorem def_int_plic (k : Kernel) (x : Intctl) (intno : UINT) (pk_dint : Option T_DINT) :
    (tk_def_int k x intno pk_dint).2.2.toPlic = x.toPlic := by
  unfold tk_def_int
  dsimp only
  split
  · rfl
  split
  · rfl
  split
  · rfl
  split
  · rfl
  split <;> rfl

theorem trap_cases (hs : nest s (.trap intno) = some s') :
    s.mie = true ∧ s.toPlic.may_claim intno = true ∧
      ((intno = 0 ∧ s' = s) ∨
        (intno ≠ 0 ∧ s.handler intno = NULL ∧ s' = { s with toPlic := (s.toPlic.claim intno).finish intno false }) ∨
        (intno ≠ 0 ∧ s.handler intno ≠ NULL ∧
          s' = { toIntctl := { s.toIntctl with
                   toPlic := { s.toPlic.claim intno with threshold := s.priority intno.toNat } },
                 mie := false, active := { intno, threshold := s.threshold } :: s.active })) := by
  simp only [nest, Option.ite_none_right_eq_some, Bool.and_eq_true] at hs
  obtain ⟨⟨hmie, hclaim⟩, hs⟩ := hs
  refine ⟨hmie, hclaim, ?_⟩
  unfold tkmc_external_interrupt_begin at hs
  by_cases h0 : intno = 0
  · left
    simp only [h0, Plic.claim, if_true, Option.some.injEq] at hs
    exact ⟨h0, hs.symm⟩
  · right
    have hhandler : Intctl.handler { s.toIntctl with toPlic := s.toPlic.claim intno } intno = s.handler intno := rfl
    have hthreshold := Plic.claim_threshold s.toPlic intno
    have hpriority := Plic.claim_priority s.toPlic intno
    simp only [h0, if_false, hhandler, hthreshold, hpriority] at hs
    by_cases hnull : s.handler intno = NULL
    · left
      simp only [hnull, ne_eq, not_true_eq_false, if_false, Option.some.injEq] at hs
      exact ⟨h0, hnull, hs.symm⟩
    · right
      simp only [hnull, ne_eq, not_false_eq_true, if_true, Option.some.injEq] at hs
      refine ⟨h0, hnull, ?_⟩
      rw [← hs]
      simp only [hpriority]

theorem NestOk.unclaimed (h : NestOk s) (hraises : s.toPlic.raises intno = true) :
    ∀ a ∈ s.active, a.intno.toNat ≠ intno.toNat := by
  intro a ha heq
  obtain ⟨-, -, -, -, hfree, -⟩ := Plic.raises_iff.mp hraises
  have hclaimed := h.claimed a ha
  rw [heq] at hclaimed
  exact absurd (hclaimed.symm.trans hfree) (by simp)

theorem trap_nestOk (h : NestOk s) (hs : nest s (.trap intno) = some s') : NestOk s' := by
  obtain ⟨-, hclaim, ⟨-, rfl⟩ | ⟨h0, -, rfl⟩ | ⟨h0, hdefined, rfl⟩⟩ := trap_cases hs
  · exact h
  · -- no handler: the call has ended, and what it claimed was claimed by no other
    have hfree := h.unclaimed (Plic.raises_of_may_claim hclaim h0)
    have hspec := Plic.finish_spec (s.toPlic.claim intno) intno false
    have hsame : ((s.toPlic.claim intno).finish intno false).claimed = Function.update s.claimed intno.toNat false := by
      rw [hspec.claimed, Plic.claim_claimed _ h0, Function.update_idem]
    have hthreshold := hspec.threshold.trans (Plic.claim_threshold s.toPlic intno)
    have hpriority := hspec.priority.trans (Plic.claim_priority s.toPlic intno)
    refine ⟨?_, ?_, ?_, fun a ha => ?_, h.distinct, h.defined⟩
    · simp only [hpriority]
      exact h.priority
    · simp only [Nest.thresholds, hthreshold]
      exact h.falling
    · simp only [hthreshold]
      exact h.threshold
    · simp only [hsame]
      rw [Function.update_of_ne (hfree a ha)]
      exact h.claimed a ha
  · have hraises := Plic.raises_of_may_claim hclaim h0
    have hfree := h.unclaimed hraises
    obtain ⟨h1, hcount, -, -, -, habove⟩ := Plic.raises_iff.mp hraises
    refine ⟨?_, ?_, ?_, ?_, ?_, ?_⟩
    · simp only [Plic.claim_priority]
      exact h.priority
    · refine List.pairwise_cons.mpr ⟨fun t ht => ?_, h.falling⟩
      rcases List.mem_cons.mp ht with rfl | hbelow
      · exact habove
      · exact ((List.pairwise_cons.mp h.falling).1 t hbelow).trans habove
    · exact h.priority _ h1 hcount
    · intro a ha
      simp only [Plic.claim_claimed _ h0]
      rcases List.mem_cons.mp ha with rfl | hold
      · exact Function.update_self _ _ _
      · rw [Function.update_of_ne (hfree a hold)]
        exact h.claimed a hold
    · refine List.nodup_cons.mpr ⟨fun hmem => ?_, h.distinct⟩
      obtain ⟨a, ha, heq⟩ := List.mem_map.mp hmem
      exact hfree a ha heq
    · intro a ha
      rcases List.mem_cons.mp ha with rfl | hold
      · exact hdefined
      · exact h.defined a hold

theorem ret_cases (hs : nest s .ret = some s') :
    ∃ a rest, s.active = a :: rest ∧ s.mie = false ∧
      s' = { toIntctl := tkmc_external_interrupt_end s.toIntctl a, mie := true, active := rest } := by
  unfold nest at hs
  cases hactive : s.active with
  | nil => simp [hactive] at hs
  | cons a rest =>
    cases hmie : s.mie with
    | true => simp [hactive, hmie] at hs
    | false =>
      simp only [hactive, hmie, Bool.false_eq_true, if_false, Option.some.injEq] at hs
      exact ⟨a, rest, rfl, rfl, hs.symm⟩

theorem end_spec (x : Intctl) (a : Active) :
    (tkmc_external_interrupt_end x a).s_handlers = x.s_handlers ∧
      Plic.Finished { x.toPlic with threshold := a.threshold } a.intno true (tkmc_external_interrupt_end x a).toPlic :=
  ⟨rfl, Plic.finish_spec _ _ _⟩

theorem ret_nestOk (h : NestOk s) (hs : nest s .ret = some s') : NestOk s' := by
  obtain ⟨a, rest, hactive, -, rfl⟩ := ret_cases hs
  obtain ⟨hhandlers, hspec⟩ := end_spec s.toIntctl a
  have hfalling := h.falling
  have hdistinct := h.distinct
  rw [Nest.thresholds, hactive, List.map_cons] at hfalling
  rw [hactive, List.map_cons] at hdistinct
  obtain ⟨habove, hrest⟩ := List.pairwise_cons.mp hfalling
  have hmem : ∀ b ∈ rest, b ∈ s.active := fun b hb => by rw [hactive]; exact List.mem_cons_of_mem a hb
  refine ⟨?_, ?_, ?_, ?_, (List.nodup_cons.mp hdistinct).2, fun b hb => h.defined b (hmem b hb)⟩
  · rw [hspec.priority]
    exact h.priority
  · rw [Nest.thresholds, hspec.threshold]
    exact hrest
  · have hlt := habove a.threshold List.mem_cons_self
    have hle := h.threshold
    rw [hspec.threshold]
    simp only
    omega
  · intro b hb
    have hne : b.intno.toNat ≠ a.intno.toNat := fun heq =>
      (List.nodup_cons.mp hdistinct).1 (List.mem_map.mpr ⟨b, hb, heq⟩)
    rw [hspec.claimed, Function.update_of_ne hne]
    exact h.claimed b (hmem b hb)

theorem nest_nestOk (h : NestOk s) (hs : nest s a = some s') : NestOk s' := by
  cases a with
  | trap intno => exact trap_nestOk h hs
  | ret => exact ret_nestOk h hs
  | enable intno level =>
    obtain rfl := Option.some.inj hs
    obtain ⟨hthreshold, hclaimed, hhandlers, hpriority⟩ := EnableInt_spec s.toIntctl intno level
    exact h.quiet rfl hthreshold hclaimed hpriority fun _ => hhandlers
  | disable intno =>
    obtain rfl := Option.some.inj hs
    have hdisable : (DisableInt s.toIntctl intno).threshold = s.threshold ∧
        (DisableInt s.toIntctl intno).claimed = s.claimed ∧ (DisableInt s.toIntctl intno).priority = s.priority ∧
        (DisableInt s.toIntctl intno).s_handlers = s.s_handlers := by
      unfold DisableInt
      split <;> exact ⟨rfl, rfl, rfl, rfl⟩
    obtain ⟨hthreshold, hclaimed, hpriority, hhandlers⟩ := hdisable
    exact h.quiet rfl hthreshold hclaimed (fun src => .inl (congrFun hpriority src)) fun _ => hhandlers
  | def_int k intno pk_dint =>
    simp only [nest, Option.ite_none_right_eq_some, Option.some.injEq] at hs
    obtain ⟨⟨-, hisr⟩, rfl⟩ := hs
    have hplic := def_int_plic k s.toIntctl intno pk_dint
    refine h.quiet rfl (congrArg Plic.threshold hplic) (congrArg Plic.claimed hplic)
      (fun src => .inl (congrFun (congrArg Plic.priority hplic) src)) fun hne => ?_
    exact congrArg Intctl.s_handlers (def_int_in_isr (hisr hne) s.toIntctl intno pk_dint)
  | ei | di | device src pending =>
    obtain rfl := Option.some.inj hs
    exact h.quiet rfl rfl rfl (fun _ => .inl rfl) fun _ => rfl

theorem NestReachable.ok (h : NestReachable s) : NestOk s := by
  refine Paths.Reach.invariant (I := NestOk) ?_ ?_ h
  · rintro s₀ ⟨⟨x, hx⟩, hactive⟩
    exact init_nestOk hx hactive
  · intro s a s' hok hs
    exact nest_nestOk hok hs

/-! ## Whole calls -/

/-- A step with at least `depth` calls active behind it. -/
def Inside (depth : Nat) (s : Nest) (a : IntAct) (s' : Nest) : Prop := NestSteps s a s' ∧ depth ≤ s'.active.length

theorem nest_suffix {base : List Active} (hs : Inside base.length s a s') (hbase : base <:+ s.active) :
    base <:+ s'.active := by
  obtain ⟨hstep, hdepth⟩ := hs
  cases a with
  | trap intno =>
    obtain ⟨-, -, ⟨-, rfl⟩ | ⟨-, -, rfl⟩ | ⟨-, -, rfl⟩⟩ := trap_cases hstep
    · exact hbase
    · exact hbase
    · exact hbase.trans (List.suffix_cons _ _)
  | ret =>
    obtain ⟨a, rest, hactive, -, rfl⟩ := ret_cases hstep
    rw [hactive, List.suffix_cons_iff] at hbase
    rcases hbase with rfl | hrest
    · simp only [List.length_cons] at hdepth
      omega
    · exact hrest
  | def_int k intno pk_dint =>
    simp only [NestSteps, nest, Option.ite_none_right_eq_some, Option.some.injEq] at hstep
    obtain ⟨-, rfl⟩ := hstep
    exact hbase
  | _ =>
    obtain rfl := Option.some.inj hstep
    exact hbase

/-- When the call that a trap began returns, the calls active are those that were active at the trap. -/
theorem call_active {as : List IntAct} {a₀ : Active} (h₁ : s₁.active = a₀ :: s.active)
    (hrun : Paths.Path (Inside (s.active.length + 1)) s₁ as s₂) (h₂ : s₂.active.length = s.active.length + 1) :
    s₂.active = a₀ :: s.active := by
  have hsuffix : (a₀ :: s.active) <:+ s₂.active := by
    refine hrun.invariant (I := fun s' => (a₀ :: s.active) <:+ s'.active) ?_ (by rw [h₁])
    intro s' a s'' hbase hs
    exact nest_suffix hs hbase
  exact (hsuffix.eq_of_length (by rw [h₂, List.length_cons])).symm

/-- **The interrupt controller under nesting.** `s₂` is where the handler returns, after whatever it and the
handlers nested in it did. -/
theorem external_interrupts_nest (h : NestReachable s) :
    (s.thresholds.Pairwise (fun inner outer => outer.toNat < inner.toNat) ∧
      s.active.length ≤ PLIC_MAX_PRIORITY) ∧
    (∀ intno s₁ as s₂ s₃, nest s (.trap intno) = some s₁ → s₁.active.length = s.active.length + 1 →
      Paths.Path (Inside (s.active.length + 1)) s₁ as s₂ → s₂.active.length = s.active.length + 1 →
      nest s₂ .ret = some s₃ →
      s.handler intno ≠ NULL ∧ s.threshold.toNat < s₁.threshold.toNat ∧ s₃.active = s.active ∧
      s₃.threshold = s.threshold ∧ s₃.claimed intno.toNat = false ∧
      ∀ src, s₃.is_enabled src = s₂.is_enabled src) ∧
    (∀ intno s₁, nest s (.trap intno) = some s₁ → intno ≠ 0 → s.handler intno = NULL →
      s₁.active = s.active ∧ s₁.threshold = s.threshold ∧ s₁.claimed intno.toNat = false ∧
      s₁.is_enabled intno = false ∧ ∀ src, src ≠ intno → s₁.is_enabled src = s.is_enabled src) ∧
    ∀ s₁, nest s (.trap 0) = some s₁ → s₁ = s := by
  have hok := h.ok
  refine ⟨⟨hok.falling, ?_⟩, ?_, ?_, ?_⟩
  · have hlength := falling_length hok.falling
    rw [List.length_map] at hlength
    exact hlength.trans hok.threshold
  · intro intno s₁ as s₂ s₃ htrap hdepth hrun hlength hret
    obtain ⟨-, hclaim, ⟨-, rfl⟩ | ⟨-, -, rfl⟩ | ⟨h0, hdefined, rfl⟩⟩ := trap_cases htrap
    · omega
    · simp at hdepth
    have hactive := call_active rfl hrun hlength
    obtain ⟨a, rest, hcons, -, rfl⟩ := ret_cases hret
    obtain ⟨rfl, rfl⟩ : a = ⟨intno, s.threshold⟩ ∧ rest = s.active := List.cons_eq_cons.mp (hcons.symm.trans hactive)
    obtain ⟨-, hspec⟩ := end_spec s₂.toIntctl ⟨intno, s.threshold⟩
    obtain ⟨-, -, -, -, -, habove⟩ := Plic.raises_iff.mp (Plic.raises_of_may_claim hclaim h0)
    refine ⟨hdefined, habove, rfl, hspec.threshold, ?_, fun src => ?_⟩
    · rw [hspec.claimed, Function.update_self]
    · rw [hspec.enabled, Bool.true_and]
      split
      · rename_i heq
        rw [heq]
        rfl
      · rfl
  · intro intno s₁ htrap h0 hnull
    obtain ⟨-, -, ⟨heq, -⟩ | ⟨-, -, rfl⟩ | ⟨-, hdefined, -⟩⟩ := trap_cases htrap
    · exact absurd heq h0
    · have hspec := Plic.finish_spec (s.toPlic.claim intno) intno false
      refine ⟨rfl, hspec.threshold.trans (Plic.claim_threshold _ _), ?_, ?_, fun src hne => ?_⟩
      · rw [hspec.claimed, Function.update_self]
      · rw [hspec.enabled, if_pos rfl, Bool.false_and]
      · rw [hspec.enabled, if_neg hne, Plic.claim_enabled]
    · exact absurd hnull hdefined
  · intro s₁ htrap
    obtain ⟨-, -, ⟨-, rfl⟩ | ⟨h0, -⟩ | ⟨h0, -⟩⟩ := trap_cases htrap
    · rfl
    · exact absurd rfl h0
    · exact absurd rfl h0

/-! ## A run -/

/-- The state after `as`, if `depth` calls stay active all along. -/
def nestRun (depth : Nat) : Nest → List IntAct → Option Nest
  | s, [] => some s
  | s, a :: as => (nest s a).bind fun s' => if depth ≤ s'.active.length then nestRun depth s' as else none

theorem nestRun_path {depth : Nat} {as : List IntAct} (h : nestRun depth s as = some s') :
    Paths.Path (Inside depth) s as s' := by
  induction as generalizing s with
  | nil =>
    obtain rfl := Option.some.inj h
    exact .nil _
  | cons a as ih =>
    simp only [nestRun, Option.bind_eq_some_iff, Option.ite_none_right_eq_some] at h
    obtain ⟨s'', hs, hdepth, hrest⟩ := h
    exact .cons ⟨hs, hdepth⟩ (ih hrest)

/-- A task with interrupts on. -/
def taskKernel : Kernel := { tkmc_init_tcb, init_objects, { init_machine with mie := true } with }

def resetNest : Nest :=
  { toIntctl := tkmc_init_intctl
      { priority := fun _ => 0, enable := fun _ => 0, threshold := 0, pending := fun _ => false,
        claimed := fun _ => false, s_handlers := fun _ => NULL }
    mie := true, active := [] }

/-- Two sources with handlers, of the priorities 2 and 5, and a third one without. -/
def nestSetup : List IntAct :=
  [.def_int taskKernel 10 (some { intatr := TA_HLNG, inthdr := 0x80005000 }),
    .def_int taskKernel 11 (some { intatr := TA_HLNG, inthdr := 0x80006000 }),
    .enable 10 2, .enable 11 5, .enable 12 6, .device 10 true]

/-- What happens in the handler of the first: the second one interrupts it, and the third is switched off. It
switches its own source off. -/
def nestBody : List IntAct := [.ei, .device 11 true, .trap 11, .ret, .device 12 true, .trap 12, .disable 10, .di]

theorem external_interrupts_nest_sample : ∃ s s₁ s₂ s₃, NestReachable s ∧ nest s (.trap 10) = some s₁ ∧
    Paths.Path (Inside 1) s₁ nestBody s₂ ∧ nest s₂ .ret = some s₃ ∧ s₁.threshold = 2 ∧
    s₃.threshold = s.threshold ∧ s₃.claimed 10 = false ∧ s₃.is_enabled 10 = false ∧ s₃.is_enabled 11 = true := by
  have hrun : (nestRun 0 resetNest nestSetup).any (fun s => decide (s.active.length = 0) &&
      (nest s (.trap 10)).any (fun s₁ => decide (s₁.active.length = 1 ∧ s₁.threshold = 2) &&
      (nestRun 1 s₁ nestBody).any (fun s₂ => decide (s₂.active.length = 1 ∧ s₂.is_enabled 10 = false ∧
        s₂.is_enabled 11 = true) && (nest s₂ .ret).isSome))) = true := by decide +kernel
  obtain ⟨s, hs, hrest⟩ := (Option.any_eq_true _ _).mp hrun
  obtain ⟨h0, hrest⟩ := Bool.and_eq_true_iff.mp hrest
  obtain ⟨s₁, hs₁, hrest⟩ := (Option.any_eq_true _ _).mp hrest
  obtain ⟨h1, hrest⟩ := Bool.and_eq_true_iff.mp hrest
  obtain ⟨s₂, hs₂, hrest⟩ := (Option.any_eq_true _ _).mp hrest
  obtain ⟨h2, hret⟩ := Bool.and_eq_true_iff.mp hrest
  obtain ⟨s₃, hs₃⟩ := Option.isSome_iff_exists.mp hret
  have hactive : s.active.length = 0 := of_decide_eq_true h0
  obtain ⟨hdepth₁, hthreshold⟩ := of_decide_eq_true h1
  obtain ⟨hdepth₂, hoff, hon⟩ := of_decide_eq_true h2
  have hreach : NestReachable s :=
    ⟨resetNest, nestSetup, ⟨⟨_, rfl⟩, rfl⟩, (nestRun_path hs).mono fun _ _ _ hi => hi.1⟩
  have hbody := nestRun_path hs₂
  have hnest := (external_interrupts_nest hreach).2.1 10 s₁ nestBody s₂ s₃ hs₁ (by rw [hactive, hdepth₁])
    (by rw [hactive]; exact hbody) (by rw [hactive, hdepth₂]) hs₃
  obtain ⟨-, -, -, hsame, hclaimed, henabled⟩ := hnest
  exact ⟨s, s₁, s₂, s₃, hreach, hs₁, hbody, hs₃, hthreshold, hsame, hclaimed, by rw [henabled, hoff],
    by rw [henabled, hon]⟩

end TsukumoCore
