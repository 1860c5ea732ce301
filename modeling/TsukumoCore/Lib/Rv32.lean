import TsukumoCore.Lib.Memory

/-!
# RV32 assembly

The instructions that hand-written entry code is made of, with the pseudo-instructions of the assembler,
and what a trap and `mret` do in machine mode. A routine is a list of lines: it jumps forward only, and
runs up to the next call of a function or until it leaves.
-/

namespace Rv32

open Memory

inductive Reg where
  | zero | ra | sp | gp | tp | t0 | t1 | t2 | s0 | s1 | a0 | a1 | a2 | a3 | a4 | a5 | a6 | a7
  | s2 | s3 | s4 | s5 | s6 | s7 | s8 | s9 | s10 | s11 | t3 | t4 | t5 | t6
  deriving DecidableEq

inductive Csr where
  | mstatus | mie | mepc
  deriving DecidableEq

/-- `priv` is the privilege mode: 3 is machine mode, 0 is user mode. -/
structure Hart where
  reg : Reg → Word
  csr : Csr → Word
  mem : Mem
  pc : Word
  priv : BitVec 2

inductive Instr where
  | addi (rd rs : Reg) (imm : Int)
  | andi (rd rs : Reg) (imm : Int)
  /-- Also `la`. -/
  | li (rd : Reg) (imm : Word)
  | mv (rd rs : Reg)
  | lw (rd : Reg) (offset : Int) (rs : Reg)
  | sw (rt : Reg) (offset : Int) (rs : Reg)
  | csrr (rd : Reg) (c : Csr)
  | csrw (c : Csr) (rs : Reg)
  | csrs (c : Csr) (rs : Reg)
  | csrrc (rd : Reg) (c : Csr) (rs : Reg)
  deriving DecidableEq

namespace Hart

def get (h : Hart) (r : Reg) : Word := if r = .zero then 0 else h.reg r

def set (h : Hart) (r : Reg) (v : Word) : Hart := { h with reg := Function.update h.reg r v }

def setCsr (h : Hart) (c : Csr) (v : Word) : Hart := { h with csr := Function.update h.csr c v }

def setMem (h : Hart) (m : Mem) : Hart := { h with mem := m }

/-- The word a load with this base and offset finds. -/
def addr (h : Hart) (offset : Int) (rs : Reg) : Word := h.get rs + BitVec.ofInt 32 offset

end Hart

def Instr.exec (h : Hart) : Instr → Hart
  | addi rd rs imm => h.set rd (h.get rs + BitVec.ofInt 32 imm)
  | andi rd rs imm => h.set rd (h.get rs &&& BitVec.ofInt 32 imm)
  | li rd imm => h.set rd imm
  | mv rd rs => h.set rd (h.get rs)
  | lw rd offset rs => h.set rd (load h.mem (h.addr offset rs))
  | sw rt offset rs => h.setMem (store h.mem (h.addr offset rs) (h.get rt))
  | csrr rd c => h.set rd (h.csr c)
  | csrw c rs => h.setCsr c (h.get rs)
  | csrs c rs => h.setCsr c (h.csr c ||| h.get rs)
  -- Both operands are read before either is written.
  | csrrc rd c rs => (h.setCsr c (h.csr c &&& ~~~h.get rs)).set rd (h.csr c)

def execAll (is : List Instr) (h : Hart) : Hart := is.foldl Instr.exec h

variable {h h' : Hart} {r r' : Reg} {c c' : Csr} {v : Word} {m : Mem}

section Fields

@[simp] theorem get_zero : h.get .zero = 0 := rfl
theorem get_set (hr : r ≠ .zero) : (h.set r v).get r' = if r' = r then v else h.get r' := by
  unfold Hart.get Hart.set
  by_cases h0 : r' = .zero
  · simp [h0, hr.symm]
  · simp [h0, Function.update_apply]
@[simp] theorem get_setCsr : (h.setCsr c v).get r = h.get r := rfl
@[simp] theorem get_setMem : (h.setMem m).get r = h.get r := rfl
@[simp] theorem csr_set : (h.set r v).csr = h.csr := rfl
@[simp] theorem csr_setMem : (h.setMem m).csr = h.csr := rfl
theorem csr_setCsr : (h.setCsr c v).csr c' = if c' = c then v else h.csr c' := by
  simp [Hart.setCsr, Function.update_apply]
@[simp] theorem mem_set : (h.set r v).mem = h.mem := rfl
@[simp] theorem mem_setCsr : (h.setCsr c v).mem = h.mem := rfl
@[simp] theorem mem_setMem : (h.setMem m).mem = m := rfl
@[simp] theorem pc_set : (h.set r v).pc = h.pc := rfl
@[simp] theorem pc_setCsr : (h.setCsr c v).pc = h.pc := rfl
@[simp] theorem pc_setMem : (h.setMem m).pc = h.pc := rfl
@[simp] theorem priv_set : (h.set r v).priv = h.priv := rfl
@[simp] theorem priv_setCsr : (h.setCsr c v).priv = h.priv := rfl
@[simp] theorem priv_setMem : (h.setMem m).priv = h.priv := rfl

end Fields

theorem execAll_cons (i : Instr) (is : List Instr) (h : Hart) : execAll (i :: is) h = execAll is (i.exec h) := rfl

theorem execAll_append (is js : List Instr) (h : Hart) : execAll (is ++ js) h = execAll js (execAll is h) :=
  List.foldl_append

/-! ## Registers saved to a block of words, and loaded from it -/

def saves (base : Reg) (rs : List (Reg × Nat)) : List Instr := rs.map fun p => .sw p.1 (p.2 * 4) base

def loads (base : Reg) (rs : List (Reg × Nat)) : List Instr := rs.map fun p => .lw p.1 (p.2 * 4) base

theorem addr_word (h : Hart) (base : Reg) (i : Nat) : h.addr (i * 4) base = word (h.get base) i := by
  have hcast : ((i : Int) * 4) = ((i * 4 : Nat) : Int) := by push_cast; rfl
  unfold Hart.addr word
  rw [hcast, BitVec.ofInt_natCast]

theorem execAll_saves (base : Reg) (rs : List (Reg × Nat)) (h : Hart) :
    execAll (saves base rs) h = h.setMem (storeWords h.mem (h.get base) (rs.map fun p => (p.2, h.get p.1))) := by
  induction rs generalizing h with
  | nil => rfl
  | cons p rs ih =>
    simp only [saves, List.map_cons] at ih ⊢
    rw [execAll_cons, ih]
    simp only [Instr.exec, addr_word, get_setMem, mem_setMem]
    rfl

/-- `h'` is `h` with other values in these registers. -/
structure SameBut (rs : List Reg) (h h' : Hart) : Prop where
  reg : ∀ r ∉ rs, h'.get r = h.get r
  csr : h'.csr = h.csr
  mem : h'.mem = h.mem
  pc : h'.pc = h.pc
  priv : h'.priv = h.priv

theorem execAll_loads {base : Reg} {rs : List (Reg × Nat)} (hnodup : (rs.map Prod.fst).Nodup)
    (hbase : base ∉ rs.map Prod.fst) (hzero : .zero ∉ rs.map Prod.fst) (h : Hart) :
    SameBut (rs.map Prod.fst) h (execAll (loads base rs) h) ∧
      ∀ p ∈ rs, (execAll (loads base rs) h).get p.1 = load h.mem (word (h.get base) p.2) := by
  induction rs generalizing h with
  | nil => exact ⟨⟨fun _ _ => rfl, rfl, rfl, rfl, rfl⟩, by simp⟩
  | cons p rs ih =>
    simp only [List.map_cons, List.nodup_cons, List.mem_cons, not_or] at hnodup hbase hzero
    have hstep : (Instr.lw p.1 (p.2 * 4) base).exec h = h.set p.1 (load h.mem (word (h.get base) p.2)) := by
      simp only [Instr.exec, addr_word]
    have hget : ∀ r, (h.set p.1 (load h.mem (word (h.get base) p.2))).get r =
        if r = p.1 then load h.mem (word (h.get base) p.2) else h.get r :=
      fun r => get_set (Ne.symm hzero.1)
    obtain ⟨hsame, hloaded⟩ := ih hnodup.2 hbase.2 hzero.2 (h.set p.1 (load h.mem (word (h.get base) p.2)))
    have hexec : execAll (loads base (p :: rs)) h =
        execAll (loads base rs) (h.set p.1 (load h.mem (word (h.get base) p.2))) := by
      rw [← hstep]
      rfl
    rw [hexec]
    refine ⟨⟨?_, hsame.csr, hsame.mem, hsame.pc, hsame.priv⟩, ?_⟩
    · intro r hr
      simp only [List.map_cons, List.mem_cons, not_or] at hr
      rw [hsame.reg r hr.2, hget, if_neg hr.1]
    · intro p' hp'
      rcases List.mem_cons.mp hp' with rfl | hp'
      · rw [hsame.reg _ hnodup.1, hget, if_pos rfl]
      · rw [hloaded p' hp', hget, if_neg hbase.1]
        rfl

/-! ## Routines -/

inductive Line (σ : Type) where
  | op (i : Instr)
  | label (n : Nat)
  | bne (rs rt : Reg) (n : Nat)
  | beqz (rs : Reg) (n : Nat)
  | j (n : Nat)
  | call (f : σ)
  | jr (rs : Reg)
  | mret

/-- `MIE`, `MPIE` and `MPP` in `mstatus`. -/
def MIE : Word := 1 <<< 3
def MPIE : Word := 1 <<< 7
def MPP : Word := 3 <<< 11

/-- Interrupts are on. -/
def Hart.on (h : Hart) : Bool := decide (h.csr .mstatus &&& MIE ≠ 0)

theorem on_setCsr (h : Hart) (v : Word) : (h.setCsr .mstatus v).on = decide (v &&& MIE ≠ 0) := by
  unfold Hart.on
  rw [csr_setCsr, if_pos rfl]

/-- A trap is taken: `MPIE` has what `MIE` was, and `MPP` the mode. -/
def trap (h : Hart) : Hart :=
  let s := h.csr .mstatus &&& ~~~(MIE ||| MPIE ||| MPP)
  let s := s ||| (if h.on then MPIE else 0) ||| h.priv.setWidth 32 <<< 11
  { (h.setCsr .mstatus s).setCsr .mepc h.pc with priv := 3 }

def mret (h : Hart) : Hart :=
  let s := h.csr .mstatus &&& ~~~(MIE ||| MPIE ||| MPP)
  let s := s ||| (if h.csr .mstatus &&& MPIE ≠ 0 then MIE else 0) ||| MPIE
  { h.setCsr .mstatus s with pc := h.csr .mepc, priv := (h.csr .mstatus >>> 11).setWidth 2 }

section Fields

@[simp] theorem get_trap : (trap h).get r = h.get r := rfl
@[simp] theorem mem_trap : (trap h).mem = h.mem := rfl
@[simp] theorem mepc_trap : (trap h).csr .mepc = h.pc := rfl
@[simp] theorem mie_trap : (trap h).csr .mie = h.csr .mie := rfl
@[simp] theorem get_mret : (mret h).get r = h.get r := rfl
@[simp] theorem mem_mret : (mret h).mem = h.mem := rfl
@[simp] theorem pc_mret : (mret h).pc = h.csr .mepc := rfl
@[simp] theorem mie_mret : (mret h).csr .mie = h.csr .mie := rfl
@[simp] theorem priv_mret : (mret h).priv = (h.csr .mstatus >>> 11).setWidth 2 := rfl

end Fields

theorem on_trap (h : Hart) : (trap h).on = false := by
  have hpriv : ∀ p : BitVec 2, p.setWidth 32 <<< 11 &&& MIE = 0 := by decide
  have hstatus : (trap h).csr .mstatus &&& MIE = 0 := by
    show (h.csr .mstatus &&& ~~~(MIE ||| MPIE ||| MPP) ||| (if h.on then MPIE else 0) |||
      h.priv.setWidth 32 <<< 11) &&& MIE = 0
    rw [BitVec.and_or_distrib_right, BitVec.and_or_distrib_right, BitVec.and_assoc, hpriv]
    split <;> simp [MIE, MPIE, MPP]
  unfold Hart.on
  rw [hstatus]
  rfl

theorem or_ne_zero {a b : Word} (hb : b ≠ 0) : a ||| b ≠ 0 := by
  intro h0
  exact hb (BitVec.or_eq_zero_iff.mp h0).2

theorem on_mret (h : Hart) : (mret h).on = decide (h.csr .mstatus &&& MPIE ≠ 0) := by
  have hstatus : (mret h).csr .mstatus = h.csr .mstatus &&& ~~~(MIE ||| MPIE ||| MPP) |||
      (if h.csr .mstatus &&& MPIE ≠ 0 then MIE else 0) ||| MPIE := rfl
  have hclear : ~~~(MIE ||| MPIE ||| MPP) &&& MIE = 0 := by decide
  have hother : MPIE &&& MIE = 0 := by decide
  unfold Hart.on
  rw [hstatus, BitVec.and_or_distrib_right, BitVec.and_or_distrib_right, BitVec.and_assoc, hclear, hother]
  by_cases hmpie : h.csr .mstatus &&& MPIE ≠ 0
  · rw [if_pos hmpie, decide_eq_true hmpie]
    simp [MIE]
  · rw [if_neg hmpie, decide_eq_false hmpie]
    simp

theorem mpie_mret (h : Hart) : (mret h).csr .mstatus &&& MPIE ≠ 0 := by
  have hstatus : (mret h).csr .mstatus = h.csr .mstatus &&& ~~~(MIE ||| MPIE ||| MPP) |||
      (if h.csr .mstatus &&& MPIE ≠ 0 then MIE else 0) ||| MPIE := rfl
  rw [hstatus, BitVec.and_or_distrib_right, BitVec.and_self]
  exact or_ne_zero (by decide)

theorem mpie_trap (hon : h.on = true) : (trap h).csr .mstatus &&& MPIE ≠ 0 := by
  have hstatus : (trap h).csr .mstatus = h.csr .mstatus &&& ~~~(MIE ||| MPIE ||| MPP) |||
      (if h.on then MPIE else 0) ||| h.priv.setWidth 32 <<< 11 := rfl
  rw [hstatus, if_pos hon, BitVec.or_assoc, BitVec.or_comm MPIE, ← BitVec.or_assoc, BitVec.and_or_distrib_right,
    BitVec.and_self]
  exact or_ne_zero (by decide)

/-- Where a routine stops: at a call, with the lines after it, outside the routine, or past its end. -/
inductive Stop (σ : Type) where
  | call (f : σ) (rest : List (Line σ)) (h : Hart)
  | left (h : Hart)
  | ended (h : Hart)

variable {σ : Type}

/-- With `some n`, the lines up to the label `n` are passed over. -/
def run : Option Nat → List (Line σ) → Hart → Stop σ
  | _, [], h => .ended h
  | some n, .label n' :: ls, h => run (if n' = n then none else some n) ls h
  | some n, _ :: ls, h => run (some n) ls h
  | none, .op i :: ls, h => run none ls (i.exec h)
  | none, .label _ :: ls, h => run none ls h
  | none, .bne rs rt n :: ls, h => run (if h.get rs ≠ h.get rt then some n else none) ls h
  | none, .beqz rs n :: ls, h => run (if h.get rs = 0 then some n else none) ls h
  | none, .j n :: ls, h => run (some n) ls h
  | none, .call f :: ls, h => .call f ls h
  | none, .jr rs :: _, h => .left { h with pc := h.get rs }
  | none, .mret :: _, h => .left (mret h)

/-- The lines after the first call of `f`. -/
def afterCall [DecidableEq σ] (f : σ) : List (Line σ) → List (Line σ)
  | [] => []
  | .call g :: ls => if g = f then ls else afterCall f ls
  | _ :: ls => afterCall f ls

def ops (is : List Instr) : List (Line σ) := is.map .op

theorem run_ops (is : List Instr) (ls : List (Line σ)) (h : Hart) :
    run none (ops is ++ ls) h = run none ls (execAll is h) := by
  induction is generalizing h with
  | nil => rfl
  | cons i is ih => exact ih (i.exec h)

theorem run_skip_ops (n : Nat) (is : List Instr) (ls : List (Line σ)) (h : Hart) :
    run (some n) (ops is ++ ls) h = run (some n) ls h := by
  induction is with
  | nil => rfl
  | cons i is ih => exact ih

end Rv32
