import TsukumoCore.System.Boot
import TsukumoCore.Trap.Nesting

/-!
# The board

The hart with its traps, and beside it the data of the kernel. The entries of `start.S` are run as they are.
The functions they call do what the kernel model says they do, and in between tasks and handlers make kernel
calls. What the model takes as one step, a trap of the timer or a switch, is several here.
-/

namespace TsukumoCore

open Memory Trap
open Rv32 (Reg Hart)

/-- The interrupt stack is in memory, not over the CLINT. -/
structure MemoryMap extends IsrStack where
  stack_msip : Apart _isr_stack_start (_isr_stack_end.toNat - _isr_stack_start.toNat) MSIP 4

/-- The kernel with the interrupt flag, the request and the count that the hart has. -/
def Kernel.seen (k : Kernel) (x : MemoryMap) (h : Hart) : Kernel :=
  { k with mie := h.on, msip := decide (load h.mem MSIP ≠ 0), isr_depth := (load h.mem x.tkmc_isr_depth).toNat }

structure Board where
  kernel : Kernel
  traps : Traps

/-- A task runs, or a handler that `tkmc_external_interrupt` called. -/
def Traps.inCode (s : Traps) : Prop := ∀ t ∈ s.active.head?, t.callee = .tkmc_external_interrupt

/-- The steps of the model that code makes. The others are traps. -/
def Act.ofCode : Act → Bool
  | .external_enter | .external_leave _ | .timer_interrupt _ _ | .software_interrupt _ => false
  | _ => true

/-- Code may run and leave the hart at `h` and the kernel in `k'`. A handler leaves `MPIE` alone, besides what
`MayRun` says. -/
structure CodeRuns (x : MemoryMap) (s : Traps) (k' : Kernel) (h : Hart) : Prop where
  may : MayRun x.toIsrStack s h
  seen : k'.seen x h = k'
  mpie : s.active ≠ [] → h.csr .mstatus &&& Rv32.MPIE = s.hart.csr .mstatus &&& Rv32.MPIE

/-- `h` is the hart when the code stops. -/
inductive BoardAct where
  | run (a : Act) (h : Hart)
  | code (h : Hart)
  | trap (v : TrapEntry)
  | ret (h : Hart)

inductive BoardSteps (x : MemoryMap) (e : Entries) : Board → BoardAct → Board → Prop where
  /-- A step of the kernel model. -/
  | run {m : Board} {a : Act} {k' : Kernel} {h : Hart} :
      m.traps.inCode → a.ofCode = true → step e m.kernel a = some k' → CodeRuns x m.traps k' h →
      BoardSteps x e m (.run a h) ⟨k', { m.traps with hart := h }⟩
  /-- Anything else. -/
  | code {m : Board} {h : Hart} :
      m.traps.inCode → CodeRuns x m.traps m.kernel h →
      BoardSteps x e m (.code h) ⟨m.kernel, { m.traps with hart := h }⟩
  | trap {m : Board} {v : TrapEntry} {s' : Traps} :
      TrapSteps x.toIsrStack m.traps (.trap v) s' → (v = .mtrap_handler → m.kernel.msip = true) →
      BoardSteps x e m (.trap v) ⟨m.kernel.seen x s'.hart, s'⟩
  | external_ret {m : Board} {t : ActiveTrap} {ts : List ActiveTrap} {s' : Traps} :
      m.traps.active = t :: ts → t.callee = .tkmc_external_interrupt → TrapSteps x.toIsrStack m.traps .ret s' →
      BoardSteps x e m (.ret m.traps.hart) ⟨m.kernel.seen x s'.hart, s'⟩
  /-- `tkmc_timer_handler` runs and returns. -/
  | timer_ret {m : Board} {t : ActiveTrap} {times : List Nat} {k₁ : Kernel} {h : Hart} {s' : Traps} :
      m.traps.active = [t] → t.callee = .tkmc_timer_handler → tkmc_timer_handler m.kernel times = some k₁ →
      CodeRuns x m.traps k₁ h → TrapSteps x.toIsrStack { m.traps with hart := h } .ret s' →
      BoardSteps x e m (.ret h) ⟨k₁.seen x s'.hart, s'⟩
  /-- `schedule` runs, and returns the `sp` of the task that is now `current`. -/
  | schedule_ret {m : Board} {t : ActiveTrap} {old new : TskId} {k₁ : Kernel} {h : Hart} {s' : Traps} :
      m.traps.active = [t] → t.callee = .schedule → schedule m.kernel (t.called.get .a0) = k₁ →
      m.kernel.current = some old → k₁.current = some new → h.get .a0 = (k₁.tcbs new).sp →
      CodeRuns x m.traps k₁ h → TrapSteps x.toIsrStack { m.traps with hart := h } .ret s' →
      BoardSteps x e m (.ret h) ⟨k₁.seen x s'.hart, s'⟩

/-- The kernel has booted, and the first task runs. -/
def BoardReachable (b : Boot) (x : MemoryMap) : Board → Prop :=
  Paths.Reach (fun m => tkmc_start b = some m.kernel ∧ m.traps.active = [] ∧
    load m.traps.hart.mem x.tkmc_isr_depth = 0 ∧ m.kernel.seen x m.traps.hart = m.kernel) (BoardSteps x b.entries)

variable {b : Boot} {x : MemoryMap} {m m' : Board} {k k' : Kernel} {s s' : Traps} {t : ActiveTrap}
  {ts : List ActiveTrap} {v : TrapEntry} {h h' : Hart} {frame mie : Word}

/-! ## What the entries do to the variables of the kernel -/

theorem seen_left {n : Nat} (hleft : Left x.toSymbols frame mie h h')
    (hmpie : h.csr .mstatus &&& Rv32.MPIE ≠ 0) (hdepth : load h.mem x.tkmc_isr_depth = BitVec.ofNat 32 (n + 1))
    (hn : n < 2 ^ 32) (k : Kernel) : k.seen x h' = { k.seen x h with mie := true, isr_depth := n } := by
  have hon : h'.on = true := by
    rw [hleft.on]
    exact decide_eq_true hmpie
  have hmsip : load h'.mem MSIP = load h.mem MSIP := by
    rw [hleft.mem, load_store_apart x.msip]
  have hcount : (load h'.mem x.tkmc_isr_depth).toNat = n := by
    rw [hleft.mem, load_store, hdepth, ofNat_succ_pred, BitVec.toNat_ofNat, Nat.mod_eq_of_lt hn]
  simp only [Kernel.seen, hon, hmsip, hcount]

theorem seen_switching (hs : Switching h h') (k : Kernel) : k.seen x h' = { k.seen x h with msip := false } := by
  have hon : h'.on = h.on := on_of_mstatus (congrFun hs.csr _)
  have hmsip : load h'.mem MSIP = 0 := by
    rw [hs.mem, load_store]
  have hcount : load h'.mem x.tkmc_isr_depth = load h.mem x.tkmc_isr_depth := by
    rw [hs.mem, load_store_apart x.msip.symm]
  unfold Kernel.seen
  rw [hon, hmsip, hcount]
  rfl

/-- What a trap leaves of them, and where it is. -/
structure Trapped (x : MemoryMap) (s : Traps) (v : TrapEntry) (s' : Traps) : Prop where
  off : s'.hart.on = false
  mpie : s'.hart.csr .mstatus &&& Rv32.MPIE ≠ 0
  seen : ∀ k : Kernel, k.seen x s'.hart =
    { k.seen x s.hart with
      mie := false, isr_depth := (k.seen x s.hart).isr_depth + 1
      msip := if v = .mtrap_handler then false else (k.seen x s.hart).msip }
  active : ∃ t, s'.active = t :: s.active ∧ t.entry = v ∧ t.before = s.hart ∧ t.callee = v.handler
  other : ∀ a, Apart (s.hart.get .sp - 128) 128 a 4 → Apart x.tkmc_isr_depth 4 a 4 → Apart MSIP 4 a 4 →
    load s'.hart.mem a = load s.hart.mem a
  holds : Holds s'.hart.mem (s.hart.get .sp - 128) (Rv32.trap s.hart)

theorem depth_succ {d : Word} {n : Nat} (hd : d = BitVec.ofNat 32 n) (hn : n + 1 < 2 ^ 32) :
    (d + 1).toNat = d.toNat + 1 := by
  rw [hd]
  bv_omega

theorem TrapsOk.trapped (hok : TrapsOk x.toIsrStack s) (hs : TrapSteps x.toIsrStack s (.trap v) s') :
    Trapped x s v s' := by
  obtain ⟨htrap, hroom, f, rest, hrun, hactive⟩ := trap_inv hs
  have hlt := hok.stacked.length_lt
  have hmpie := Rv32.mpie_trap htrap.1
  have hoff := trap_off hok hs
  rcases hok.trap_cases htrap hroom with ⟨hnil, g, hrun', hentered⟩ | ⟨hne, rfl, g, hrun', hentered⟩
  · obtain ⟨rfl, rfl, rfl⟩ := Rv32.Stop.call.inj (hrun.symm.trans hrun')
    unfold Room at hroom
    rw [hnil] at hroom
    have hcount : (load s'.hart.mem x.tkmc_isr_depth).toNat = (load s.hart.mem x.tkmc_isr_depth).toNat + 1 := by
      rw [hentered.depth]
      exact depth_succ hok.depth (by omega)
    refine ⟨hoff, by rwa [hentered.mstatus], fun k => ?_, ⟨_, hactive, rfl, rfl, rfl⟩, ?_, hentered.holds hroom.2.1⟩
    · unfold Kernel.seen
      by_cases hv : v = .mtrap_handler
      · rw [hoff, hcount, (hentered.switch hv).2, if_pos hv]
        rfl
      · have hmsip : load s'.hart.mem MSIP = load s.hart.mem MSIP :=
          hentered.other MSIP hroom.2.1 x.msip fun heq => absurd heq hv
        rw [hoff, hcount, hmsip, if_neg hv]
    · intro a hframe hdepth hmsip
      exact hentered.other a hframe hdepth fun _ => hmsip
  · obtain ⟨rfl, rfl, rfl⟩ := Rv32.Stop.call.inj (hrun.symm.trans hrun')
    obtain ⟨t, ts, hcons⟩ := List.exists_cons_of_ne_nil hne
    obtain ⟨hstart, hbelow⟩ := hroom.nested hcons
    have hstacked := hok.stacked
    rw [hcons] at hstacked
    have hcount : (load s'.hart.mem x.tkmc_isr_depth).toNat = (load s.hart.mem x.tkmc_isr_depth).toNat + 1 := by
      rw [hentered.depth]
      exact depth_succ hok.depth (by omega)
    have hmsip : load s'.hart.mem MSIP = load s.hart.mem MSIP :=
      hentered.other MSIP (x.frame_apart hstart (hbelow.trans hstacked.le_end) x.stack_msip) x.msip
    refine ⟨hoff, by rwa [hentered.csr], fun k => ?_, ⟨_, hactive, rfl, rfl, rfl⟩, ?_, hentered.holds⟩
    · unfold Kernel.seen
      rw [hoff, hcount, hmsip, if_neg (by decide)]
    · intro a hframe hdepth _
      exact hentered.other a hframe hdepth

/-! ## The hart and the kernel agree -/

structure Matches (x : MemoryMap) (k : Kernel) (s : Traps) : Prop where
  traps : TrapsOk x.toIsrStack s
  seen : k.seen x s.hart = k
  mpie : s.active ≠ [] → s.hart.csr .mstatus &&& Rv32.MPIE ≠ 0

theorem Matches.depth (h : Matches x k s) : k.isr_depth = s.active.length := by
  have hlt := h.traps.stacked.length_lt
  have hdepth := congrArg (fun k : Kernel => k.isr_depth) h.seen
  rw [← hdepth]
  show (load s.hart.mem x.tkmc_isr_depth).toNat = _
  rw [h.traps.depth, BitVec.toNat_ofNat, Nat.mod_eq_of_lt (by omega)]

theorem Matches.msip (h : Matches x k s) : k.msip = decide (load s.hart.mem MSIP ≠ 0) :=
  (congrArg (fun k : Kernel => k.msip) h.seen).symm

theorem Matches.on (h : Matches x k s) : k.mie = s.hart.on := (congrArg (fun k : Kernel => k.mie) h.seen).symm

theorem Matches.run (hmatch : Matches x m.kernel m.traps) (hruns : CodeRuns x m.traps k h) :
    Matches x k { m.traps with hart := h } := by
  refine ⟨code_trapsOk hmatch.traps (.code hruns.may), hruns.seen, fun hne => ?_⟩
  rw [hruns.mpie hne]
  exact hmatch.mpie hne

theorem Matches.trap (hmatch : Matches x k s) (hs : TrapSteps x.toIsrStack s (.trap v) s') :
    Matches x (k.seen x s'.hart) s' :=
  ⟨trap_trapsOk hmatch.traps hs, rfl, fun _ => (hmatch.traps.trapped hs).mpie⟩

theorem Matches.ret (hmatch : Matches x k s) (hs : TrapSteps x.toIsrStack s .ret s') :
    Matches x (k.seen x s'.hart) s' := by
  refine ⟨ret_trapsOk hmatch.traps hs, rfl, fun hne => ?_⟩
  obtain ⟨t, ts, hactive, -, hexits⟩ := hmatch.traps.ret_cases hs
  cases hexits with
  | nested hleft _ => exact hleft.mpie
  | leave _ _ => exact absurd rfl hne
  | schedule _ _ hswitching =>
    simp only
    rw [hswitching.csr]
    exact hmatch.mpie (by rw [hactive]; simp)

/-- What a return leaves of the variables of the kernel. -/
inductive Returned (x : MemoryMap) (k : Kernel) (t : ActiveTrap) (s' : Traps) : List ActiveTrap → Prop where
  | leave {ts : List ActiveTrap} : (ts = [] → t.callee = .schedule ∨ k.msip = false) → s'.active = ts →
      s'.inCode → k.seen x s'.hart = { k with mie := true, isr_depth := ts.length } → Returned x k t s' ts
  | switch {u : ActiveTrap} : t.callee ≠ .schedule → k.msip = true → s'.active = [u] → u.callee = .schedule →
      k.seen x s'.hart = { k with msip := false } → Returned x k t s' []

theorem Matches.returned (hmatch : Matches x k s) (hactive : s.active = t :: ts)
    (hs : TrapSteps x.toIsrStack s .ret s') : Returned x k t s' ts := by
  obtain ⟨t', ts', hcons, -, hexits⟩ := hmatch.traps.ret_cases hs
  obtain ⟨rfl, rfl⟩ := List.cons_eq_cons.mp (hcons.symm.trans hactive)
  have hlt := hmatch.traps.stacked.length_lt
  have hdepth := hmatch.traps.depth
  have hstacked := hmatch.traps.stacked
  have hmpie := hmatch.mpie (by rw [hactive]; simp)
  rw [hactive] at hdepth hstacked hlt
  have hleave : ∀ {frame mie : Word} {h : Hart}, Left x.toSymbols frame mie s.hart h →
      k.seen x h = { k with mie := true, isr_depth := ts'.length } := by
    intro frame mie h hleft
    rw [seen_left hleft hmpie hdepth (by simp at hlt; omega), hmatch.seen]
  cases hexits with
  | nested hleft _ =>
    refine .leave (fun hnil => by cases hnil) rfl ?_ (hleave hleft)
    cases hstacked with
    | nested hin _ =>
      rintro v hv
      obtain rfl := Option.some.inj hv
      exact hin.under
  | leave hno hleft =>
    refine .leave (fun _ => hno.imp_right fun hzero => ?_) rfl (fun v hv => by cases hv) (hleave hleft)
    rw [hmatch.msip, hzero]
    rfl
  | schedule hcallee hmsip hswitching =>
    refine .switch hcallee ?_ rfl rfl ?_
    · rw [hmatch.msip]
      exact decide_eq_true hmsip
    · rw [seen_switching hswitching, hmatch.seen]

/-! ## The board follows the model -/

/-- The state of the model while the board is at `m`. It takes a trap of the timer and a switch in one step,
when they end. -/
inductive Shows (m : Board) : Kernel → Prop where
  | code : m.traps.inCode → Shows m m.kernel
  | timer {t : ActiveTrap} {k : Kernel} : m.traps.active = [t] → t.callee = .tkmc_timer_handler →
      canTrap k = true → m.kernel = { k with mie := false, isr_depth := k.isr_depth + 1 } → Shows m k
  | timer_switch {t : ActiveTrap} {k k₁ : Kernel} {times : List Nat} : m.traps.active = [t] →
      t.callee = .schedule → canTrap k = true →
      tkmc_timer_handler { k with mie := false, isr_depth := k.isr_depth + 1 } times = some k₁ → k₁.msip = true →
      m.kernel = { k₁ with msip := false } → Shows m k
  | external_switch {t : ActiveTrap} {k : Kernel} : m.traps.active = [t] → t.callee = .schedule →
      k.mie = false → k.isr_depth = 1 → k.msip = true → m.kernel = { k with msip := false } → Shows m k
  | software {t : ActiveTrap} {k : Kernel} : m.traps.active = [t] → t.callee = .schedule → canTrap k = true →
      k.msip = true → m.kernel = { k with mie := false, isr_depth := k.isr_depth + 1, msip := false } → Shows m k

variable {e : Entries}

theorem schedule_machine (k : Kernel) (sp : UINT) :
    (schedule k sp).mie = k.mie ∧ (schedule k sp).msip = k.msip ∧ (schedule k sp).isr_depth = k.isr_depth := by
  unfold schedule
  split <;> exact ⟨rfl, rfl, rfl⟩

theorem inCode_of_nil (hnil : s.active = []) : s.inCode := by
  intro v hv
  rw [hnil] at hv
  cases hv

theorem Traps.inCode.callee (hcode : s.inCode) (hactive : s.active = t :: ts) :
    t.callee = .tkmc_external_interrupt :=
  hcode t (by rw [hactive]; rfl)

theorem callee_unique {u : ActiveTrap} (ht : s.active = [t]) (hu : s.active = [u]) : u.callee = t.callee := by
  obtain ⟨rfl, -⟩ := List.cons_eq_cons.mp (ht.symm.trans hu)
  rfl

theorem Shows.inCode (hshows : Shows m k) (hcode : m.traps.inCode) : k = m.kernel := by
  cases hshows with
  | code _ => rfl
  | timer hactive hcallee => cases hcallee.symm.trans (hcode.callee hactive)
  | timer_switch hactive hcallee => cases hcallee.symm.trans (hcode.callee hactive)
  | external_switch hactive hcallee => cases hcallee.symm.trans (hcode.callee hactive)
  | software hactive hcallee => cases hcallee.symm.trans (hcode.callee hactive)

theorem Matches.inCode (hmatch : Matches x k s) (hon : s.hart.on = true) : s.inCode :=
  fun t ht => (hmatch.traps.on hon t ht).1

theorem trap_follows (hmatch : Matches x m.kernel m.traps) (hs : TrapSteps x.toIsrStack m.traps (.trap v) s')
    (hmsip : v = .mtrap_handler → m.kernel.msip = true) (hshows : Shows m k) :
    ∃ as k', Paths.Path (Steps e) k as k' ∧
      Shows ⟨m.kernel.seen x s'.hart, s'⟩ k' := by
  obtain ⟨htrap, -⟩ := trap_inv hs
  have htrapped := hmatch.traps.trapped hs
  obtain ⟨t, hactive, -, -, hcallee⟩ := htrapped.active
  obtain rfl := hshows.inCode (hmatch.inCode htrap.1)
  have hon : m.kernel.mie = true := hmatch.on.trans htrap.1
  have hseen := htrapped.seen m.kernel
  rw [hmatch.seen] at hseen
  have hcan : v ≠ .external_interrupt → m.traps.active = [] ∧ canTrap m.kernel = true := by
    intro hv
    have hnil : m.traps.active = [] := by
      by_contra hne
      exact hv (hmatch.traps.trap_entry htrap hne)
    refine ⟨hnil, ?_⟩
    unfold canTrap
    rw [hon, hmatch.depth, hnil]
    rfl
  cases v with
  | external_interrupt =>
    rw [if_neg (by decide)] at hseen
    refine ⟨[.external_enter], m.kernel.seen x s'.hart, .single ?_, ?_⟩
    · unfold Steps step
      simp only
      rw [if_pos hon, hseen]
    · refine .code fun u hu => ?_
      simp only [hactive, List.head?_cons] at hu
      obtain rfl := Option.some.inj hu
      exact hcallee
  | timer_interrupt =>
    obtain ⟨hnil, htimer⟩ := hcan (by decide)
    rw [if_neg (by decide)] at hseen
    exact ⟨[], _, .nil _, .timer (by rw [hactive, hnil]) hcallee htimer hseen⟩
  | mtrap_handler =>
    obtain ⟨hnil, hsoftware⟩ := hcan (by decide)
    rw [if_pos rfl] at hseen
    exact ⟨[], _, .nil _, .software (by rw [hactive, hnil]) hcallee hsoftware (hmsip rfl) hseen⟩

theorem external_leave_steps {n : Nat} (hoff : k.mie = false) (hdepth : k.isr_depth = n + 1) (sp : UINT) :
    Steps e k (.external_leave sp) { (if n = 0 then serve_msip k sp else k) with mie := true, isr_depth := n } := by
  have hin : tkmc_in_isr k = true := by
    unfold tkmc_in_isr
    rw [hdepth]
    simp
  unfold Steps step
  rw [hoff, hin]
  by_cases hn : n = 0
  · subst hn
    simp only [hdepth, Bool.not_true, Bool.or_self, Bool.false_eq_true, if_false, Nat.zero_add, if_true]
    have hserve : (serve_msip k sp).isr_depth = 1 := by
      unfold serve_msip
      split
      · rw [(schedule_machine _ sp).2.2]
        exact hdepth
      · exact hdepth
    rw [hserve]
  · simp [hdepth, hn]

theorem external_ret_follows (hmatch : Matches x m.kernel m.traps) (hactive : m.traps.active = t :: ts)
    (hcallee : t.callee = .tkmc_external_interrupt) (hs : TrapSteps x.toIsrStack m.traps .ret s')
    (hshows : Shows m k) : ∃ as k', Paths.Path (Steps e) k as k' ∧
      Shows ⟨m.kernel.seen x s'.hart, s'⟩ k' := by
  have hcode : m.traps.inCode := by
    intro u hu
    rw [hactive] at hu
    obtain rfl := Option.some.inj hu
    exact hcallee
  obtain rfl := hshows.inCode hcode
  have hdepth := hmatch.depth
  rw [hactive, List.length_cons] at hdepth
  have hoff : m.kernel.mie = false := by
    obtain ⟨t', ts', -, hret⟩ := ret_inv hs
    rw [hmatch.on, hret.off]
  cases hmatch.returned hactive hs with
  | leave hno hleft hcode' hseen =>
    refine ⟨[.external_leave 0], m.kernel.seen x s'.hart, .single ?_, .code hcode'⟩
    have hserve : (if ts.length = 0 then serve_msip m.kernel 0 else m.kernel) = m.kernel := by
      split
      · rename_i hlength
        have hmsip := (hno (List.eq_nil_of_length_eq_zero hlength)).resolve_left (by simp [hcallee])
        unfold serve_msip
        rw [hmsip]
        rfl
      · rfl
    have hsteps := external_leave_steps (e := e) hoff hdepth 0
    rw [hserve] at hsteps
    rwa [hseen]
  | switch hne hmsip hactive' hcallee' hseen =>
    exact ⟨[], _, .nil _, .external_switch hactive' hcallee' hoff hdepth hmsip hseen⟩

theorem timer_steps {times : List Nat} {k₁ : Kernel} (hcan : canTrap k = true)
    (hhandler : tkmc_timer_handler { k with mie := false, isr_depth := k.isr_depth + 1 } times = some k₁)
    (hdepth : k₁.isr_depth = 1) (sp : UINT) :
    Steps e k (.timer_interrupt times sp) { serve_msip k₁ sp with mie := true, isr_depth := 0 } := by
  unfold Steps step
  simp only
  rw [if_pos hcan, hhandler, Option.map_some, hdepth]

theorem timer_ret_follows {times : List Nat} {k₁ : Kernel} (hmatch : Matches x k₁ s) (hactive : s.active = [t])
    (hcallee : t.callee = .tkmc_timer_handler) (hm : m.traps.active = [t])
    (hhandler : tkmc_timer_handler m.kernel times = some k₁) (hs : TrapSteps x.toIsrStack s .ret s')
    (hshows : Shows m k) : ∃ as k', Paths.Path (Steps e) k as k' ∧
      Shows ⟨k₁.seen x s'.hart, s'⟩ k' := by
  cases hshows with
  | code hcode => cases hcallee.symm.trans (hcode.callee hm)
  | timer_switch hu hsched => cases hcallee.symm.trans ((callee_unique hu hm).trans hsched)
  | external_switch hu hsched => cases hcallee.symm.trans ((callee_unique hu hm).trans hsched)
  | software hu hsched => cases hcallee.symm.trans ((callee_unique hu hm).trans hsched)
  | timer _ _ hcan hkernel =>
    rw [hkernel] at hhandler
    have hdepth : k₁.isr_depth = 1 := by rw [hmatch.depth, hactive]; rfl
    cases hmatch.returned hactive hs with
    | leave hno hleft hcode' hseen =>
      refine ⟨[.timer_interrupt times 0], k₁.seen x s'.hart, .single ?_, .code hcode'⟩
      have hmsip := (hno rfl).resolve_left (by simp [hcallee])
      have hsteps := timer_steps (e := e) hcan hhandler hdepth 0
      unfold serve_msip at hsteps
      rw [hmsip] at hsteps
      rwa [hseen]
    | switch hne hmsip hactive' hcallee' hseen =>
      exact ⟨[], _, .nil _, .timer_switch hactive' hcallee' hcan hhandler hmsip hseen⟩

theorem software_steps (hcan : canTrap k = true) (hmsip : k.msip = true) (sp : UINT) :
    Steps e k (.software_interrupt sp)
      { schedule { k with mie := false, isr_depth := k.isr_depth + 1, msip := false } sp with
        mie := true, isr_depth := 0 } := by
  have hdepth : k.isr_depth = 0 := by
    unfold canTrap at hcan
    exact of_decide_eq_true (Bool.and_eq_true_iff.mp hcan).2
  unfold Steps step
  simp only
  rw [hcan, hmsip, Bool.and_self, if_pos rfl, hdepth]

theorem schedule_ret_follows {sp : UINT} (hmatch : Matches x m.kernel m.traps)
    (hsched : Matches x (schedule m.kernel sp) s) (hactive : s.active = [t]) (hcallee : t.callee = .schedule)
    (hm : m.traps.active = [t]) (hs : TrapSteps x.toIsrStack s .ret s') (hshows : Shows m k) :
    ∃ as k', Paths.Path (Steps e) k as k' ∧
      Shows ⟨(schedule m.kernel sp).seen x s'.hart, s'⟩ k' := by
  have hdepth : m.kernel.isr_depth = 1 := by rw [hmatch.depth, hm]; rfl
  cases hsched.returned hactive hs with
  | switch hne _ _ _ _ => exact absurd hcallee hne
  | leave _ hleft hcode' hseen =>
    rw [hseen]
    cases hshows with
    | code hcode => cases hcallee.symm.trans (hcode.callee hm)
    | timer hu htimer => cases hcallee.symm.trans ((callee_unique hu hm).trans htimer)
    | @timer_switch _ _ k₁ times _ _ hcan hhandler hmsip hkernel =>
      refine ⟨[.timer_interrupt times sp], _, .single ?_, .code hcode'⟩
      have hsteps := timer_steps (e := e) hcan hhandler (by rw [hkernel] at hdepth; exact hdepth) sp
      unfold serve_msip at hsteps
      rwa [if_pos hmsip, ← hkernel] at hsteps
    | external_switch _ _ hoff hone hmsip hkernel =>
      refine ⟨[.external_leave sp], _, .single ?_, .code hcode'⟩
      have hsteps := external_leave_steps (e := e) hoff hone sp
      unfold serve_msip at hsteps
      rwa [if_pos rfl, if_pos hmsip, ← hkernel] at hsteps
    | software _ _ hcan hmsip hkernel =>
      refine ⟨[.software_interrupt sp], _, .single ?_, .code hcode'⟩
      have hsteps := software_steps (e := e) hcan hmsip sp
      rwa [← hkernel] at hsteps

theorem step_matches {a : BoardAct} (hmatch : Matches x m.kernel m.traps) (hs : BoardSteps x e m a m') :
    Matches x m'.kernel m'.traps := by
  cases hs with
  | run _ _ _ hruns => exact hmatch.run hruns
  | code _ hruns => exact hmatch.run hruns
  | trap hs _ => exact hmatch.trap hs
  | external_ret _ _ hs => exact hmatch.ret hs
  | timer_ret _ _ _ hruns hs => exact (hmatch.run hruns).ret hs
  | schedule_ret _ _ _ _ _ _ hruns hs => exact (hmatch.run hruns).ret hs

theorem BoardReachable.matches (h : BoardReachable b x m) : Matches x m.kernel m.traps := by
  refine Paths.Reach.invariant (I := fun m => Matches x m.kernel m.traps) ?_ ?_ h
  · rintro m₀ ⟨-, hactive, hdepth, hseen⟩
    have hreach : TrapsReachable x.toIsrStack m₀.traps := ⟨_, [], ⟨hactive, hdepth⟩, .nil _⟩
    exact ⟨hreach.ok, hseen, fun hne => absurd hactive hne⟩
  · intro m a m' hmatch hs
    exact step_matches hmatch hs

theorem step_follows {a : BoardAct} (hmatch : Matches x m.kernel m.traps) (hs : BoardSteps x e m a m')
    (hshows : Shows m k) : ∃ as k', Paths.Path (Steps e) k as k' ∧ Shows m' k' := by
  cases hs with
  | run hcode _ hstep _ =>
    obtain rfl := hshows.inCode hcode
    exact ⟨[_], _, .single hstep, .code hcode⟩
  | code hcode _ =>
    obtain rfl := hshows.inCode hcode
    exact ⟨[], _, .nil _, .code hcode⟩
  | trap hs hmsip => exact trap_follows hmatch hs hmsip hshows
  | external_ret hactive hcallee hs => exact external_ret_follows hmatch hactive hcallee hs hshows
  | timer_ret hactive hcallee hhandler hruns hs =>
    exact timer_ret_follows (hmatch.run hruns) hactive hcallee hactive hhandler hs hshows
  | schedule_ret hactive hcallee hsched _ _ _ hruns hs =>
    subst hsched
    exact schedule_ret_follows hmatch (hmatch.run hruns) hactive hcallee hactive hs hshows

theorem BoardReachable.shows (h : BoardReachable b x m) : ∃ k, Reachable b k ∧ Shows m k := by
  refine Paths.Reach.simulation ?_ ?_ h
  · rintro m₀ ⟨hstart, hactive, -⟩
    exact ⟨_, hstart, .code (inCode_of_nil hactive)⟩
  · intro m a m' k hm _ hshows hs
    exact step_follows (BoardReachable.matches hm) hs hshows

/-- **The board follows the kernel model.** While code runs, the kernel of the board is one that the model
reaches. -/
theorem board_follows_model (h : BoardReachable b x m) :
    (∃ k, Reachable b k ∧ Shows m k) ∧ (m.traps.inCode → Reachable b m.kernel) ∧
      m.kernel.seen x m.traps.hart = m.kernel ∧ m.kernel.isr_depth = m.traps.active.length := by
  refine ⟨h.shows, fun hcode => ?_, h.matches.seen, h.matches.depth⟩
  obtain ⟨k, hk, hshows⟩ := h.shows
  rwa [← hshows.inCode hcode]

/-! ## A run -/

def sampleMap : MemoryMap where
  toIsrStack := sampleIsr
  stack_msip := by decide

theorem seen_eq (hon : h.on = k.mie) (hmsip : decide (load h.mem MSIP ≠ 0) = k.msip)
    (hdepth : (load h.mem x.tkmc_isr_depth).toNat = k.isr_depth) : k.seen x h = k := by
  unfold Kernel.seen
  rw [hon, hmsip, hdepth]

theorem sampleBoard_reachable : ∃ m, BoardReachable sampleBoot sampleMap m ∧ m.traps = ⟨sampleTask, []⟩ ∧
    sampleRun [] = some m.kernel := by
  obtain ⟨k, hk, hmie, hmsip, hdepth⟩ := sampleRun_of_any []
    (fun k => k.mie = true ∧ k.msip = false ∧ k.isr_depth = 0) (by decide)
  have hstart : tkmc_start sampleBoot = some k := by
    simpa [sampleRun, run] using hk
  have hseen : k.seen sampleMap sampleTask = k := by
    refine seen_eq ?_ ?_ ?_
    · rw [hmie]; decide
    · rw [hmsip]; decide
    · rw [hdepth]; decide
  have hzero : load sampleTask.mem sampleMap.tkmc_isr_depth = 0 := by decide
  exact ⟨⟨k, ⟨sampleTask, []⟩⟩, ⟨⟨k, ⟨sampleTask, []⟩⟩, [], ⟨hstart, rfl, hzero, hseen⟩, .nil _⟩, rfl, hk⟩

/-- It is interrupted. -/
theorem board_follows_model_sample : ∃ m, BoardReachable sampleBoot sampleMap m ∧ m.traps.active.length = 1 ∧
    Reachable sampleBoot m.kernel ∧ m.kernel.isr_depth = 1 ∧ m.kernel.mie = false := by
  obtain ⟨m, hreach, htraps, -⟩ := sampleBoard_reachable
  have hroom : Room sampleIsr m.traps := by
    rw [htraps]
    unfold Room
    decide
  have hmay : MayTrap m.traps .external_interrupt := by
    rw [htraps]
    exact ⟨by decide, .inl rfl⟩
  rcases hreach.matches.traps.trap_cases hmay hroom with ⟨hnil, g, hrun, -⟩ | ⟨hne, -⟩
  · have hstep : BoardSteps sampleMap sampleBoot.entries m (.trap .external_interrupt) _ :=
      .trap (.trap hmay hroom hrun) fun hv => by cases hv
    obtain ⟨-, hcode, hseen, hdepth⟩ := board_follows_model (hreach.step hstep)
    refine ⟨_, hreach.step hstep, by simp [hnil], hcode ?_, by rw [hdepth]; simp [hnil], ?_⟩
    · intro t ht
      obtain rfl := Option.some.inj ht
      rfl
    · have hoff := (hreach.matches.traps.trapped (.trap hmay hroom hrun)).off
      exact hoff
  · exact absurd (by rw [htraps]) hne

end TsukumoCore
