import TsukumoCore.Kernel.Types

/-!
# The interrupt controller: `kernel/intctl.c`

The registers of the PLIC are words. What the device does with them is at the end: which sources it raises,
what a claim returns, and when a completion is accepted.
-/

namespace TsukumoCore

abbrev CFN_MAX_INTNO : Nat := 32
abbrev PLIC_SOURCE_COUNT : Nat := 96
abbrev PLIC_MAX_PRIORITY : Nat := 7

structure T_DINT where
  intatr : ATR
  inthdr : UINT
  deriving DecidableEq

/-- The registers, by source or by word of 32 sources, and what the gateways of the sources hold. -/
structure Plic where
  priority : Nat → UINT
  enable : Nat → UINT
  threshold : UINT
  pending : Nat → Bool
  claimed : Nat → Bool

/-- `s_handlers` has the handler of each interrupt number, NULL where none is defined. -/
structure Intctl extends Plic where
  s_handlers : Fin CFN_MAX_INTNO → UINT

/-- `is_intno`, with the entry of the table. -/
def is_intno (intno : UINT) : Option (Fin CFN_MAX_INTNO) :=
  if h : 1 ≤ intno.toNat ∧ intno.toNat < CFN_MAX_INTNO then some ⟨intno.toNat, h.2⟩ else none

namespace Plic

def is_enabled (p : Plic) (src : UINT) : Bool :=
  decide ((p.enable (src.toNat / 32) >>> (src.toNat % 32)) &&& 1 ≠ 0)

def set_enabled (p : Plic) (src : UINT) (on : Bool) : Plic :=
  let word := p.enable (src.toNat / 32)
  let bit : UINT := 1 <<< (src.toNat % 32)
  { p with enable := Function.update p.enable (src.toNat / 32) (if on then word ||| bit else word &&& ~~~bit) }

end Plic

def tkmc_init_intctl (x : Intctl) : Intctl :=
  { x with
    s_handlers := fun _ => NULL
    priority := fun src => if 1 ≤ src ∧ src < PLIC_SOURCE_COUNT then 0 else x.priority src
    enable := fun word => if word < (PLIC_SOURCE_COUNT + 31) / 32 then 0 else x.enable word
    threshold := 0 }

/-! ## The calls -/

def tk_def_int (k : Kernel) (x : Intctl) (intno : UINT) (pk_dint : Option T_DINT) : ER × Kernel × Intctl :=
  let intsts := k.mie
  let k := k.DI
  let (ercd, x) : ER × Intctl :=
    if !intsts || tkmc_in_isr k then (.E_CTX, x)
    else match is_intno intno with
      | none => (.E_PAR, x)
      | some i => match pk_dint with
        | none => (.E_OK, { x with s_handlers := Function.update x.s_handlers i NULL })
        | some pk =>
          if pk.intatr ≠ TA_HLNG then (.E_RSATR, x)
          else if pk.inthdr = NULL then (.E_PAR, x)
          else (.E_OK, { x with s_handlers := Function.update x.s_handlers i pk.inthdr })
  (ercd, k.EI intsts, x)

def EnableInt (x : Intctl) (intno : UINT) (level : Int) : Intctl :=
  match is_intno intno with
  | none => x
  | some _ =>
    if level < 1 ∨ level > PLIC_MAX_PRIORITY then x
    else
      let p := { x.toPlic with priority := Function.update x.priority intno.toNat (BitVec.ofInt 32 level) }
      let p := p.set_enabled intno true
      { x with toPlic := { p with threshold := p.threshold } }

def DisableInt (x : Intctl) (intno : UINT) : Intctl :=
  match is_intno intno with
  | none => x
  | some _ => { x with toPlic := x.toPlic.set_enabled intno false }

/-! ## The device -/

namespace Plic

/-- The source asks for an interrupt: it is enabled, pending and unclaimed, and its priority is above the
threshold. -/
def raises (p : Plic) (src : UINT) : Bool :=
  decide (1 ≤ src.toNat ∧ src.toNat < PLIC_SOURCE_COUNT ∧ p.is_enabled src ∧ p.pending src.toNat ∧
    p.claimed src.toNat = false ∧ p.threshold.toNat < (p.priority src.toNat).toNat)

/-- A claim may return `intno`: one of the highest priority that ask, or 0 if there is none. -/
def may_claim (p : Plic) (intno : UINT) : Bool :=
  if intno = 0 then decide (∀ src : Fin PLIC_SOURCE_COUNT, p.raises (BitVec.ofNat 32 src) = false)
  else p.raises intno && decide (∀ src : Fin PLIC_SOURCE_COUNT, p.raises (BitVec.ofNat 32 src) →
    (p.priority src).toNat ≤ (p.priority intno.toNat).toNat)

/-- `in_w(PLIC_CLAIM)`, when it returns `intno`. -/
def claim (p : Plic) (intno : UINT) : Plic :=
  if intno = 0 then p
  else { p with
    pending := Function.update p.pending intno.toNat false
    claimed := Function.update p.claimed intno.toNat true }

/-- `out_w(PLIC_CLAIM, intno)`. It is ignored for a source that is not enabled. -/
def complete (p : Plic) (intno : UINT) : Plic :=
  if p.is_enabled intno then { p with claimed := Function.update p.claimed intno.toNat false } else p

end Plic

/-! ## The trap

`tkmc_external_interrupt`, cut where it calls the handler: other traps may come before the handler returns. -/

/-- `is_intno(intno) ? s_handlers[intno] : NULL` -/
def Intctl.handler (x : Intctl) (intno : UINT) : UINT :=
  match is_intno intno with
  | some i => x.s_handlers i
  | none => NULL

/-- The local variables of a call whose handler runs. -/
structure Active where
  intno : UINT
  threshold : UINT
  deriving DecidableEq

/-- From `BOOL stays_on = ...` on. -/
def Plic.finish (p : Plic) (intno : UINT) (defined : Bool) : Plic :=
  let stays_on := defined && p.is_enabled intno
  let p := p.set_enabled intno true
  let p := p.complete intno
  if !stays_on then p.set_enabled intno false else p

/-- From the claim of `intno` to the call of the handler. With no handler to call, the function has returned. -/
def tkmc_external_interrupt_begin (x : Intctl) (intno : UINT) : Option Active × Intctl :=
  let x := { x with toPlic := x.toPlic.claim intno }
  if intno = 0 then (none, x)
  else if x.handler intno ≠ NULL then
    let threshold := x.threshold
    (some { intno, threshold }, { x with threshold := x.priority intno.toNat })
  else (none, { x with toPlic := x.toPlic.finish intno false })

/-- From the return of the handler on. -/
def tkmc_external_interrupt_end (x : Intctl) (a : Active) : Intctl :=
  { x with toPlic := Plic.finish { x.toPlic with threshold := a.threshold } a.intno true }

end TsukumoCore
