import TsukumoCore.Trap.Frames

/-!
# What the trap entries do

Each entry up to its first call, and from the return of a function up to the next call or to `mret`.
-/

namespace TsukumoCore.Trap

open Memory
open Rv32 (Reg Csr Instr Line Hart Stop ops SameBut execAll run_ops run_skip_ops get_set csr_setCsr afterCall)

/-- `MSIE` and `MTIE` in `mie`. -/
def MASKED : Word := 1 <<< 3 ||| 1 <<< 7

abbrev MSIP : Word := CLINT_BASE_ADDRESS + CLINT_MSIP_OFFSET

variable {x : Symbols} {h h' g : Hart}

/-! ## Leaving -/

/-- The end of an entry, and the lines that stand behind it. -/
def leave (x : Symbols) (more : List (Line Callee)) : List (Line Callee) :=
  ops (LEAVE_ISR x) ++ (ops RESTORE_FRAME ++ .mret :: more)

theorem run_skip_leave (n : Nat) (more : List (Line Callee)) (h : Hart) :
    Rv32.run (some n) (leave x more) h = Rv32.run (some n) more h := by
  unfold leave
  rw [run_skip_ops, run_skip_ops]
  rfl

/-- What a trap leaves behind that ends with the frame at `frame`. -/
structure Left (x : Symbols) (frame mie : Word) (h h' : Hart) : Prop where
  mem : h'.mem = store h.mem x.tkmc_isr_depth (load h.mem x.tkmc_isr_depth + -1)
  regs : ∀ p ∈ registers.zipIdx, h'.get p.1 = load h'.mem (word frame p.2)
  sp : h'.get .sp = frame + 128
  pc : h'.pc = load h'.mem (word frame 28)
  mie : h'.csr .mie = mie
  on : h'.on = decide (h.csr .mstatus &&& Rv32.MPIE ≠ 0)
  mpie : h'.csr .mstatus &&& Rv32.MPIE ≠ 0

theorem leaves (x : Symbols) (h g : Hart) (frame mie : Word) (more : List (Line Callee)) (hmem : g.mem = h.mem)
    (hsp : g.get .sp = frame) (hmie : g.csr .mie = mie)
    (hmpie : g.csr .mstatus &&& Rv32.MPIE = h.csr .mstatus &&& Rv32.MPIE) :
    ∃ h', Rv32.run none (leave x more) g = .left h' ∧ Left x frame mie h h' ∧
      h'.priv = (g.csr .mstatus >>> 11).setWidth 2 := by
  have hcount := left x g
  have hrest := restored (execAll (LEAVE_ISR x) g)
  have hrun : Rv32.run none (leave x more) g = .left (Rv32.mret (execAll RESTORE_FRAME (execAll (LEAVE_ISR x) g))) := by
    unfold leave
    rw [run_ops, run_ops]
    rfl
  generalize execAll (LEAVE_ISR x) g = g₁ at hcount hrest hrun
  generalize execAll RESTORE_FRAME g₁ = g₂ at hrest hrun
  have hframe : g₁.get .sp = frame := (hcount.regs .sp (by decide)).trans hsp
  refine ⟨Rv32.mret g₂, hrun, ⟨?_, ?_, ?_, ?_, ?_, ?_, Rv32.mpie_mret g₂⟩, ?_⟩
  · rw [Rv32.mem_mret, hrest.mem, hcount.mem, hmem]
  · intro p hp
    rw [Rv32.get_mret, Rv32.mem_mret, hrest.regs p hp, hrest.mem, hframe]
  · rw [Rv32.get_mret, hrest.sp, hframe]
  · rw [Rv32.pc_mret, Rv32.mem_mret, hrest.mepc, hrest.mem, hframe]
  · rw [Rv32.mie_mret, hrest.csr .mie (by decide), hcount.csr, hmie]
  · rw [Rv32.on_mret, hrest.csr .mstatus (by decide), hcount.csr, hmpie]
  · rw [Rv32.priv_mret, hrest.csr .mstatus (by decide), hcount.csr]

/-- At the call of `schedule` for the frame in `s0`. -/
structure Switching (h h' : Hart) : Prop where
  mem : h'.mem = store h.mem MSIP 0
  regs : ∀ r, r ≠ .t0 → r ≠ .t1 → r ≠ .a0 → h'.get r = h.get r
  a0 : h'.get .a0 = h.get .s0
  csr : h'.csr = h.csr

/-- `MSIP` is read, and if it is up, cleared and served. The lines at `n` are run otherwise. -/
def serve (n : Nat) (rest : List (Line Callee)) : List (Line Callee) :=
  ops [.li .t0 MSIP, .lw .t1 0 .t0] ++
    (.beqz .t1 n :: (ops [.sw .zero 0 .t0, .mv .a0 .s0] ++ (.call .schedule :: rest)))

theorem run_serve (hsame : SameBut [.t0, .t1] h g) (n : Nat) (rest : List (Line Callee)) :
    (load h.mem MSIP = 0 → ∃ g', Rv32.run none (serve n rest) g = Rv32.run (some n) rest g' ∧
      SameBut [.t0, .t1] h g') ∧
    (load h.mem MSIP ≠ 0 → ∃ g', Rv32.run none (serve n rest) g = .call .schedule rest g' ∧ Switching h g') := by
  let g₁ := execAll [.li .t0 MSIP, .lw .t1 0 .t0] g
  have hregs : ∀ r, r ≠ .t0 → r ≠ .t1 → g₁.get r = h.get r := by
    intro r h0 h1
    rw [← hsame.reg r (by simp [h0, h1])]
    simp [g₁, execAll, Instr.exec, get_set, h0, h1]
  have hmem : g₁.mem = h.mem := hsame.mem
  have hcsr : g₁.csr = h.csr := hsame.csr
  have ht0 : g₁.get .t0 = MSIP := by simp [g₁, execAll, Instr.exec, get_set]
  have ht1 : g₁.get .t1 = load h.mem MSIP := by
    simp [g₁, execAll, Instr.exec, get_set, Hart.addr, hsame.mem]
  have hrun : Rv32.run none (serve n rest) g = Rv32.run (if g₁.get .t1 = 0 then some n else none)
      (ops [.sw .zero 0 .t0, .mv .a0 .s0] ++ (.call .schedule :: rest)) g₁ := by
    unfold serve
    rw [run_ops]
    rfl
  have hpriv : g₁.priv = h.priv := hsame.priv
  have hpc : g₁.pc = h.pc := hsame.pc
  clear_value g₁
  refine ⟨fun h0 => ?_, fun h0 => ?_⟩
  · rw [ht1, if_pos h0, run_skip_ops] at hrun
    exact ⟨g₁, hrun, ⟨fun r hr => hregs r (by grind) (by grind), hcsr, hmem, hpc, hpriv⟩⟩
  · rw [ht1, if_neg h0, run_ops] at hrun
    refine ⟨_, hrun, ⟨?_, fun r h0 h1 ha => ?_, ?_, ?_⟩⟩
    · simp [execAll, Instr.exec, Hart.addr, ht0, hmem]
    · rw [← hregs r h0 h1]
      simp [execAll, Instr.exec, get_set, ha]
    · rw [← hregs .s0 (by decide) (by decide)]
      simp [execAll, Instr.exec, get_set]
    · exact hcsr

/-! ## The exits of `external_interrupt` -/

/-- At the label 4. -/
def backToFrame : List Instr := [.mv .sp .s0, .li .t0 (3 <<< 11), .csrs .mstatus .t0]

/-- At the label 3. -/
def unmask : List Instr :=
  [.lw .t0 (29 * 4) .s0, .andi .t0 .t0 (1 <<< 3 ||| 1 <<< 7 : Nat), .csrs .mie .t0,
   .li .t0 (3 <<< 11), .csrs .mstatus .t0]

def leaveOutermost (x : Symbols) : List (Line Callee) :=
  ops unmask ++ leave x (.label 4 :: (ops backToFrame ++ leave x []))

theorem external_after_schedule : afterCall .schedule (external_interrupt x) =
    .op (.mv .sp .a0) :: .j 3 :: .label 2 :: .op (.mv .sp .s0) :: .label 3 :: leaveOutermost x := rfl

theorem external_after : afterCall .tkmc_external_interrupt (external_interrupt x) =
    ops [.li .t0 x.tkmc_isr_depth, .lw .t1 0 .t0, .li .t0 1] ++
      (.bne .t1 .t0 4 :: serve 2 (afterCall .schedule (external_interrupt x))) := rfl

theorem mpp_and_mpie (v : Word) : (v ||| 6144#32) &&& Rv32.MPIE = v &&& Rv32.MPIE := by
  have hapart : 6144#32 &&& Rv32.MPIE = 0 := by decide
  rw [BitVec.and_or_distrib_right, hapart]
  exact BitVec.or_zero

theorem leaveOutermost_spec (x : Symbols) (h g : Hart) (frame : Word) (hmem : g.mem = h.mem)
    (hsp : g.get .sp = frame) (hs0 : g.get .s0 = h.get .s0) (hcsr : g.csr = h.csr) :
    ∃ h', Rv32.run none (leaveOutermost x) g = .left h' ∧
      Left x frame (h.csr .mie ||| (load h.mem (word (h.get .s0) 29) &&& MASKED)) h h' := by
  have hword : g.addr 116 .s0 = word (h.get .s0) 29 := by
    rw [← hs0]
    exact Rv32.addr_word g .s0 29
  obtain ⟨h', hrun, hleft, -⟩ := leaves x h (execAll unmask g) frame
    (h.csr .mie ||| (load h.mem (word (h.get .s0) 29) &&& MASKED)) (.label 4 :: (ops backToFrame ++ leave x [])) hmem
    (by simp [unmask, execAll, Instr.exec, get_set, hsp])
    (by simp [unmask, execAll, Instr.exec, get_set, csr_setCsr, hword, hmem, hcsr, MASKED])
    (by simp [unmask, execAll, Instr.exec, get_set, csr_setCsr, hcsr, mpp_and_mpie])
  refine ⟨h', ?_, hleft⟩
  unfold leaveOutermost
  rw [run_ops, hrun]

theorem run_external_after (x : Symbols) (h : Hart) :
    ∃ g, Rv32.run none (afterCall .tkmc_external_interrupt (external_interrupt x)) h =
        Rv32.run (if load h.mem x.tkmc_isr_depth ≠ 1 then some 4 else none)
          (serve 2 (afterCall .schedule (external_interrupt x))) g ∧ SameBut [.t0, .t1] h g := by
  let g := execAll [.li .t0 x.tkmc_isr_depth, .lw .t1 0 .t0, .li .t0 1] h
  have ht1 : g.get .t1 = load h.mem x.tkmc_isr_depth := by simp [g, execAll, Instr.exec, get_set, Hart.addr]
  have ht0 : g.get .t0 = 1 := by simp [g, execAll, Instr.exec, get_set]
  have hrun : Rv32.run none (afterCall .tkmc_external_interrupt (external_interrupt x)) h =
      Rv32.run (if g.get .t1 ≠ g.get .t0 then some 4 else none)
        (serve 2 (afterCall .schedule (external_interrupt x))) g := by
    rw [external_after, run_ops]
    rfl
  rw [ht1, ht0] at hrun
  refine ⟨g, hrun, ⟨fun r hr => ?_, rfl, rfl, rfl, rfl⟩⟩
  simp only [List.mem_cons, List.not_mem_nil, or_false, not_or] at hr
  simp [g, execAll, Instr.exec, get_set, hr]

theorem external_nested (hdepth : load h.mem x.tkmc_isr_depth ≠ 1) :
    ∃ h', Rv32.run none (afterCall .tkmc_external_interrupt (external_interrupt x)) h = .left h' ∧
      Left x (h.get .s0) (h.csr .mie) h h' ∧ h'.priv = 3 := by
  obtain ⟨g, hrun, hsame⟩ := run_external_after x h
  have hmpp : ∀ s : Word, ((s ||| 3 <<< 11) >>> 11).setWidth 2 = (3 : BitVec 2) := by
    intro s
    ext i hi
    have hi' : i = 0 ∨ i = 1 := by omega
    rcases hi' with rfl | rfl <;> simp
  obtain ⟨h', hleave, hleft, hpriv⟩ := leaves x h (execAll backToFrame g) (h.get .s0) (h.csr .mie) [] hsame.mem
    (by simp [backToFrame, execAll, Instr.exec, get_set, hsame.reg])
    (by simp [backToFrame, execAll, Instr.exec, csr_setCsr, hsame.csr])
    (by simp [backToFrame, execAll, Instr.exec, get_set, csr_setCsr, hsame.csr, mpp_and_mpie])
  refine ⟨h', ?_, hleft, ?_⟩
  · rw [hrun, if_pos hdepth, serve, run_skip_ops, external_after_schedule]
    simp only [Rv32.run]
    rw [run_skip_ops]
    simp only [Rv32.run, Nat.reduceEqDiff, if_false]
    rw [leaveOutermost, run_skip_ops, run_skip_leave]
    simp only [Rv32.run, if_true]
    rw [run_ops]
    exact hleave
  · rw [hpriv]
    simp only [backToFrame, execAll, Instr.exec, csr_setCsr, List.foldl]
    rw [get_set (by decide)]
    exact hmpp _

theorem external_outermost (hdepth : load h.mem x.tkmc_isr_depth = 1) :
    (load h.mem MSIP = 0 → ∃ h',
      Rv32.run none (afterCall .tkmc_external_interrupt (external_interrupt x)) h = .left h' ∧
        Left x (h.get .s0) (h.csr .mie ||| (load h.mem (word (h.get .s0) 29) &&& MASKED)) h h') ∧
    (load h.mem MSIP ≠ 0 → ∃ g,
      Rv32.run none (afterCall .tkmc_external_interrupt (external_interrupt x)) h =
        .call .schedule (afterCall .schedule (external_interrupt x)) g ∧ Switching h g) := by
  obtain ⟨g, hrun, hsame⟩ := run_external_after x h
  obtain ⟨hzero, hone⟩ := run_serve hsame 2 (afterCall .schedule (external_interrupt x))
  rw [if_neg (by simp [hdepth])] at hrun
  refine ⟨fun h0 => ?_, fun h0 => ?_⟩
  · obtain ⟨g', hskip, hsame'⟩ := hzero h0
    obtain ⟨h', hleave, hleft⟩ := leaveOutermost_spec x h (g'.set .sp (g'.get .s0)) (h.get .s0) hsame'.mem
      (by rw [get_set (by decide), if_pos rfl, hsame'.reg .s0 (by decide)])
      (by rw [get_set (by decide), if_neg (by decide), hsame'.reg .s0 (by decide)])
      (by rw [Rv32.csr_set, hsame'.csr])
    refine ⟨h', ?_, hleft⟩
    rw [hrun, hskip, external_after_schedule]
    simp only [Rv32.run, if_true]
    exact hleave
  · obtain ⟨g', hcall, hswitching⟩ := hone h0
    exact ⟨g', hrun.trans hcall, hswitching⟩

theorem external_scheduled (h : Hart) :
    ∃ h', Rv32.run none (afterCall .schedule (external_interrupt x)) h = .left h' ∧
      Left x (h.get .a0) (h.csr .mie ||| (load h.mem (word (h.get .s0) 29) &&& MASKED)) h h' := by
  obtain ⟨h', hleave, hleft⟩ := leaveOutermost_spec x h (h.set .sp (h.get .a0)) (h.get .a0) rfl
    (by rw [get_set (by decide), if_pos rfl]) (by rw [get_set (by decide), if_neg (by decide)]) rfl
  refine ⟨h', ?_, hleft⟩
  rw [external_after_schedule]
  simp only [Rv32.run, Nat.reduceEqDiff, if_false, if_true]
  exact hleave

/-! ## The exits of the other two -/

theorem timer_after_schedule : afterCall .schedule (timer_interrupt x) =
    .op (.mv .sp .a0) :: .j 2 :: .label 1 :: .op (.mv .sp .s0) :: .label 2 :: leave x [] := rfl

theorem timer_after : afterCall .tkmc_timer_handler (timer_interrupt x) =
    serve 1 (afterCall .schedule (timer_interrupt x)) := rfl

theorem mtrap_after : afterCall .schedule (mtrap_handler x) = .op (.mv .sp .a0) :: leave x [] := rfl

theorem leaves_a0 (x : Symbols) (h : Hart) :
    ∃ h', Rv32.run none (leave x []) (h.set .sp (h.get .a0)) = .left h' ∧ Left x (h.get .a0) (h.csr .mie) h h' := by
  obtain ⟨h', hrun, hleft, -⟩ := leaves x h (h.set .sp (h.get .a0)) (h.get .a0) (h.csr .mie) [] rfl
    (by rw [get_set (by decide), if_pos rfl]) rfl rfl
  exact ⟨h', hrun, hleft⟩

/-! ## The entries together -/

/-- The vectors that call C functions. -/
inductive TrapEntry where
  | mtrap_handler
  | timer_interrupt
  | external_interrupt
  deriving DecidableEq

namespace TrapEntry

def code (x : Symbols) : TrapEntry → List (Line Callee)
  | mtrap_handler => TsukumoCore.mtrap_handler x
  | timer_interrupt => TsukumoCore.timer_interrupt x
  | external_interrupt => TsukumoCore.external_interrupt x

/-- The function that is called first. -/
def handler : TrapEntry → Callee
  | mtrap_handler => .schedule
  | timer_interrupt => .tkmc_timer_handler
  | external_interrupt => .tkmc_external_interrupt

/-- What the outermost trap masks in `mie`. -/
def masked : TrapEntry → Word
  | external_interrupt => MASKED
  | _ => 0

/-- The bit in `mie` that the interrupt needs. -/
def bit : TrapEntry → Word
  | mtrap_handler => 1 <<< 3
  | timer_interrupt => 1 <<< 7
  | external_interrupt => 1 <<< 11

end TrapEntry

/-- `mie` as the outermost trap leaves it. -/
def unmasked (e : TrapEntry) (h : Hart) : Word := h.csr .mie ||| (load h.mem (word (h.get .s0) 29) &&& e.masked)

theorem unmasked_of_zero {e : TrapEntry} (he : e.masked = 0) (h : Hart) : unmasked e h = h.csr .mie := by
  simp [unmasked, he]

theorem scheduled (x : Symbols) (e : TrapEntry) (h : Hart) :
    ∃ h', Rv32.run none (afterCall .schedule (e.code x)) h = .left h' ∧ Left x (h.get .a0) (unmasked e h) h h' := by
  cases e with
  | external_interrupt => exact external_scheduled h
  | timer_interrupt =>
    obtain ⟨h', hrun, hleft⟩ := leaves_a0 x h
    refine ⟨h', ?_, by rwa [unmasked_of_zero rfl]⟩
    simp only [TrapEntry.code]
    rw [timer_after_schedule]
    simp only [Rv32.run, Nat.reduceEqDiff, if_false, if_true]
    exact hrun
  | mtrap_handler =>
    obtain ⟨h', hrun, hleft⟩ := leaves_a0 x h
    refine ⟨h', ?_, by rwa [unmasked_of_zero rfl]⟩
    simp only [TrapEntry.code]
    rw [mtrap_after]
    simp only [Rv32.run]
    exact hrun

theorem handled {e : TrapEntry} (he : e.handler ≠ .schedule) (hdepth : load h.mem x.tkmc_isr_depth = 1) :
    (load h.mem MSIP = 0 → ∃ h', Rv32.run none (afterCall e.handler (e.code x)) h = .left h' ∧
      Left x (h.get .s0) (unmasked e h) h h') ∧
    (load h.mem MSIP ≠ 0 → ∃ g, Rv32.run none (afterCall e.handler (e.code x)) h =
      .call .schedule (afterCall .schedule (e.code x)) g ∧ Switching h g) := by
  cases e with
  | mtrap_handler => exact absurd rfl he
  | external_interrupt => exact external_outermost hdepth
  | timer_interrupt =>
    simp only [TrapEntry.code, TrapEntry.handler]
    rw [timer_after]
    obtain ⟨hzero, hone⟩ := run_serve (h := h) (g := h) ⟨fun _ _ => rfl, rfl, rfl, rfl, rfl⟩ 1
      (afterCall .schedule (timer_interrupt x))
    refine ⟨fun h0 => ?_, fun h0 => hone h0⟩
    obtain ⟨g, hskip, hsame⟩ := hzero h0
    obtain ⟨h', hrun, hleft, -⟩ := leaves x h (g.set .sp (g.get .s0)) (h.get .s0) (h.csr .mie) [] hsame.mem
      (by rw [get_set (by decide), if_pos rfl, hsame.reg .s0 (by decide)])
      (by rw [Rv32.csr_set, hsame.csr]) (by rw [Rv32.csr_set, hsame.csr])
    refine ⟨h', ?_, by rwa [unmasked_of_zero rfl]⟩
    rw [hskip, timer_after_schedule]
    simp only [Rv32.run, if_true]
    exact hrun

/-! ## Entering -/

/-- `external_interrupt` up to its branch. -/
def count (x : Symbols) : List Instr :=
  [.li .t0 x.tkmc_isr_depth, .lw .t1 0 .t0, .addi .t1 .t1 1, .sw .t1 0 .t0, .mv .s0 .sp, .li .t0 1]

def mask (x : Symbols) : List Instr :=
  [.li .sp x._isr_stack_end, .li .t1 (1 <<< 3 ||| 1 <<< 7), .csrrc .t1 .mie .t1, .sw .t1 (29 * 4) .s0]

theorem external_eq : external_interrupt x =
    ops SAVE_FRAME ++ (ops (count x) ++ (.bne .t1 .t0 1 :: (ops (mask x) ++ (.label 1 ::
      .call .tkmc_external_interrupt :: afterCall .tkmc_external_interrupt (external_interrupt x))))) := rfl

theorem timer_eq : timer_interrupt x =
    ops SAVE_FRAME ++ (ops (ENTER_ISR x) ++
      (.call .tkmc_timer_handler :: afterCall .tkmc_timer_handler (timer_interrupt x))) := rfl

theorem mtrap_eq : mtrap_handler x =
    ops SAVE_FRAME ++ (ops (ENTER_ISR x) ++ (ops [.li .t0 MSIP, .sw .zero 0 .t0, .mv .a0 .s0] ++
      (.call .schedule :: afterCall .schedule (mtrap_handler x)))) := rfl

theorem counted_external (x : Symbols) (h : Hart) :
    Counted x 1 [.t0, .t1, .s0] h (execAll (count x) h) ∧ (execAll (count x) h).get .s0 = h.get .sp ∧
      (execAll (count x) h).get .t0 = 1 ∧
      (execAll (count x) h).get .t1 = load h.mem x.tkmc_isr_depth + 1 := by
  refine ⟨⟨?_, ?_, rfl, rfl, rfl⟩, ?_, ?_, ?_⟩
  · simp [count, execAll, Instr.exec, get_set, Hart.addr]
  · intro r hr
    simp only [List.mem_cons, List.not_mem_nil, or_false, not_or] at hr
    simp [count, execAll, Instr.exec, get_set, hr]
  all_goals simp [count, execAll, Instr.exec, get_set, Hart.addr]

/-- The frame is saved and the trap is counted. The first call of a trap inside another finds this. -/
structure Entered (x : Symbols) (h h' : Hart) : Prop where
  s0 : h'.get .s0 = h.get .sp - 128
  sp : h'.get .sp = h.get .sp - 128
  depth : load h'.mem x.tkmc_isr_depth = load h.mem x.tkmc_isr_depth + 1
  holds : Holds h'.mem (h.get .sp - 128) h
  other : ∀ a, Apart (h.get .sp - 128) 128 a 4 → Apart x.tkmc_isr_depth 4 a 4 → load h'.mem a = load h.mem a
  csr : h'.csr = h.csr

theorem run_external (hroom : Apart (h.get .sp - 128) 128 x.tkmc_isr_depth 4) :
    ∃ g, Rv32.run none (external_interrupt x) h =
        Rv32.run (if load h.mem x.tkmc_isr_depth + 1 ≠ 1 then some 1 else none) (ops (mask x) ++ (.label 1 ::
          .call .tkmc_external_interrupt :: afterCall .tkmc_external_interrupt (external_interrupt x))) g ∧
      Entered x h g := by
  have hs := saved h
  obtain ⟨hcount, hs0, ht0, ht1⟩ := counted_external x (execAll SAVE_FRAME h)
  have hrun : Rv32.run none (external_interrupt x) h = Rv32.run none (.bne .t1 .t0 1 :: (ops (mask x) ++ (.label 1 ::
      .call .tkmc_external_interrupt :: afterCall .tkmc_external_interrupt (external_interrupt x))))
      (execAll (count x) (execAll SAVE_FRAME h)) := by
    rw [external_eq, run_ops, run_ops]
    rfl
  generalize execAll SAVE_FRAME h = h₁ at hs hcount hs0 ht0 ht1 hrun
  generalize execAll (count x) h₁ = g at hcount hs0 ht0 ht1 hrun
  have hold : load h₁.mem x.tkmc_isr_depth = load h.mem x.tkmc_isr_depth := hs.other _ hroom
  rw [hold] at ht1
  refine ⟨g, ?_, ⟨?_, ?_, ?_, ?_, ?_, ?_⟩⟩
  · rw [hrun, ← ht1, ← ht0]
    rfl
  · rw [hs0, hs.sp]
  · rw [hcount.regs .sp (by decide), hs.sp]
  · rw [hcount.mem, load_store, hold]
  · exact hs.holds.same fun i hi => hcount.same hroom (by omega)
  · intro a hframe hdepth
    rw [hcount.mem, load_store_apart hdepth, hs.other a hframe]
  · rw [hcount.csr, hs.csr]

theorem entered_nested (hroom : Apart (h.get .sp - 128) 128 x.tkmc_isr_depth 4)
    (hdepth : load h.mem x.tkmc_isr_depth ≠ 0) :
    ∃ g, Rv32.run none (external_interrupt x) h =
        .call .tkmc_external_interrupt (afterCall .tkmc_external_interrupt (external_interrupt x)) g ∧
      Entered x h g := by
  obtain ⟨g, hrun, hentered⟩ := run_external hroom
  refine ⟨g, ?_, hentered⟩
  rw [hrun, if_pos (by bv_omega), run_skip_ops]
  simp only [Rv32.run, if_true]

/-- At the first call of a trap that interrupts a task. -/
structure EnteredOutermost (x : Symbols) (e : TrapEntry) (h h' : Hart) : Prop where
  s0 : h'.get .s0 = h.get .sp - 128
  sp : h'.get .sp = x._isr_stack_end
  depth : load h'.mem x.tkmc_isr_depth = load h.mem x.tkmc_isr_depth + 1
  mie : h'.csr .mie = h.csr .mie &&& ~~~e.masked
  mstatus : h'.csr .mstatus = h.csr .mstatus
  saved : e = .external_interrupt → load h'.mem (word (h.get .sp - 128) 29) = h.csr .mie
  switch : e = .mtrap_handler → h'.get .a0 = h.get .sp - 128 ∧ load h'.mem MSIP = 0
  holds : Apart (h.get .sp - 128) 128 MSIP 4 → Holds h'.mem (h.get .sp - 128) h
  other : ∀ a, Apart (h.get .sp - 128) 128 a 4 → Apart x.tkmc_isr_depth 4 a 4 →
    (e = .mtrap_handler → Apart MSIP 4 a 4) → load h'.mem a = load h.mem a

theorem external_entered (hroom : Apart (h.get .sp - 128) 128 x.tkmc_isr_depth 4)
    (hdepth : load h.mem x.tkmc_isr_depth = 0) :
    ∃ g, Rv32.run none (external_interrupt x) h =
        .call .tkmc_external_interrupt (afterCall .tkmc_external_interrupt (external_interrupt x)) g ∧
      EnteredOutermost x .external_interrupt h g := by
  obtain ⟨g, hrun, hentered⟩ := run_external hroom
  rw [if_neg (by simp [hdepth]), run_ops] at hrun
  have hmem : (execAll (mask x) g).mem = store g.mem (word (h.get .sp - 128) 29) (h.csr .mie) := by
    simp [mask, execAll, Instr.exec, get_set, Hart.addr, word, hentered.s0, hentered.csr]
  refine ⟨execAll (mask x) g, hrun, ⟨?_, ?_, ?_, ?_, ?_, ?_, ?_, ?_, ?_⟩⟩
  · simp [mask, execAll, Instr.exec, get_set, hentered.s0]
  · simp [mask, execAll, Instr.exec, get_set]
  · rw [hmem, load_store_apart (frame_words_apart hroom (by omega)), hentered.depth]
  · simp [mask, execAll, Instr.exec, get_set, csr_setCsr, hentered.csr, TrapEntry.masked, MASKED]
  · simp [mask, execAll, Instr.exec, csr_setCsr, hentered.csr]
  · intro _
    rw [hmem, load_store]
  · intro he
    exact absurd he (by decide)
  · intro _
    rw [hmem]
    exact hentered.holds.same fun i hi => load_store_apart (apart_words (by omega) (by omega) (by omega))
  · intro a hframe hdepth _
    rw [hmem, load_store_apart (frame_words_apart hframe (by omega)), hentered.other a hframe hdepth]

theorem and_not_zero (v : Word) : v &&& ~~~0 = v := BitVec.and_allOnes

theorem entered_isr (hroom : Apart (h.get .sp - 128) 128 x.tkmc_isr_depth 4) :
    ∃ g, execAll (ENTER_ISR x) (execAll SAVE_FRAME h) = g ∧ g.get .s0 = h.get .sp - 128 ∧
      g.get .sp = x._isr_stack_end ∧ load g.mem x.tkmc_isr_depth = load h.mem x.tkmc_isr_depth + 1 ∧
      g.csr = h.csr ∧ Holds g.mem (h.get .sp - 128) h ∧
      ∀ a, Apart (h.get .sp - 128) 128 a 4 → Apart x.tkmc_isr_depth 4 a 4 → load g.mem a = load h.mem a := by
  have hs := saved h
  obtain ⟨hcount, hs0, hsp⟩ := entered x (execAll SAVE_FRAME h)
  refine ⟨_, rfl, by rw [hs0, hs.sp], hsp, ?_, by rw [hcount.csr, hs.csr], ?_, ?_⟩
  · rw [hcount.mem, load_store, hs.other _ hroom]
  · exact hs.holds.same fun i hi => hcount.same hroom (by omega)
  · intro a hframe hdepth
    rw [hcount.mem, load_store_apart hdepth, hs.other a hframe]

theorem entered_outermost (e : TrapEntry) (hroom : Apart (h.get .sp - 128) 128 x.tkmc_isr_depth 4)
    (hmsip : Apart x.tkmc_isr_depth 4 MSIP 4) (hdepth : load h.mem x.tkmc_isr_depth = 0) :
    ∃ g, Rv32.run none (e.code x) h = .call e.handler (afterCall e.handler (e.code x)) g ∧
      EnteredOutermost x e h g := by
  cases e with
  | external_interrupt => exact external_entered hroom hdepth
  | timer_interrupt =>
    obtain ⟨g, hg, hs0, hsp, hcount, hcsr, hholds, hother⟩ := entered_isr hroom
    refine ⟨g, ?_, ⟨hs0, hsp, hcount, ?_, by rw [hcsr], fun he => absurd he (by decide),
      fun he => absurd he (by decide), fun _ => hholds, fun a hframe hdepth _ => hother a hframe hdepth⟩⟩
    · simp only [TrapEntry.code]
      rw [timer_eq, run_ops, run_ops, hg]
      rfl
    · rw [hcsr]
      exact (and_not_zero _).symm
  | mtrap_handler =>
    obtain ⟨g, hg, hs0, hsp, hcount, hcsr, hholds, hother⟩ := entered_isr hroom
    let g₁ := execAll [.li .t0 MSIP, .sw .zero 0 .t0, .mv .a0 .s0] g
    have hmem : g₁.mem = store g.mem MSIP 0 := by simp [g₁, execAll, Instr.exec, get_set, Hart.addr]
    refine ⟨g₁, ?_, ⟨?_, ?_, ?_, ?_, ?_, fun he => absurd he (by decide), fun _ => ⟨?_, ?_⟩, ?_, ?_⟩⟩
    · simp only [TrapEntry.code]
      rw [mtrap_eq, run_ops, run_ops, hg, run_ops]
      rfl
    · simp [g₁, execAll, Instr.exec, get_set, hs0]
    · simp [g₁, execAll, Instr.exec, get_set, hsp]
    · rw [hmem, load_store_apart hmsip.symm, hcount]
    · rw [show g₁.csr = h.csr from hcsr]
      exact (and_not_zero _).symm
    · rw [show g₁.csr = h.csr from hcsr]
    · simp [g₁, execAll, Instr.exec, get_set, hs0]
    · rw [hmem, load_store]
    · intro hframe
      rw [hmem]
      exact hholds.same fun i hi => load_store_apart (frame_words_apart hframe (by omega)).symm
    · intro a hframe hdepth hmsip
      rw [hmem, load_store_apart (hmsip rfl), hother a hframe hdepth]

end TsukumoCore.Trap
