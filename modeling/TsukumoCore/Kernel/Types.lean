import Mathlib.Data.Fintype.Basic
import Mathlib.Data.Fintype.Pi
import Mathlib.Logic.Function.Basic

/-!
# The data of the kernel

Constants, control blocks and tables, from `include/` and the headers of `kernel/`.

A queue is the sequence of its members. A `tkmc_list_head` inside a TCB is a `Link`, which says if
it is on a queue, points at itself or was left poisoned by `tkmc_list_del`. `INT` and the types made
from it (`ID`, `PRI`, `SZ`, `TMO`) are integers, and arithmetic that leaves 32 bits raises an alarm.
Bit patterns and addresses are `BitVec 32`. Tick counts and machine times are natural numbers that
wrap where the code's do.
-/

namespace TsukumoCore

/-! ## Configuration and basic types -/

abbrev CFN_MAX_PRI : Nat := 16
abbrev CFN_MAX_TSKID : Nat := 32
abbrev CFN_MAX_SEMID : Nat := 16
abbrev CFN_MAX_FLGID : Nat := 16
abbrev CFN_MAX_MBXID : Nat := 8

abbrev TK_WAKEUP_MAXCNT : Nat := 4095
abbrev TK_SEMAPHORE_MAXCNT : Int := 32767

abbrev UINT := BitVec 32
abbrev ATR := UINT
abbrev RELTIM := UINT

instance : LawfulBEq UINT := inferInstance

def TMO_POL : Int := 0
def TMO_FEVR : Int := -1

def NULL : UINT := 0

/-- The table entries. The ID of an entry is its index plus one. -/
abbrev TskId := Fin CFN_MAX_TSKID
abbrev SemId := Fin CFN_MAX_SEMID
abbrev FlgId := Fin CFN_MAX_FLGID
abbrev MbxId := Fin CFN_MAX_MBXID

instance : @NeZero Nat Zero.ofOfNat0 CFN_MAX_TSKID := ⟨by decide⟩
instance : @NeZero Nat Zero.ofOfNat0 CFN_MAX_SEMID := ⟨by decide⟩
instance : @NeZero Nat Zero.ofOfNat0 CFN_MAX_FLGID := ⟨by decide⟩
instance : @NeZero Nat Zero.ofOfNat0 CFN_MAX_MBXID := ⟨by decide⟩

def tkmc_id_in_range (id max : Int) : Bool := decide (1 ≤ id ∧ id ≤ max)

/-- The table entry `id - 1`, which a call forms only after its range check. -/
def tableEntry (max : Nat) (id : Int) : Option (Fin max) :=
  if h : tkmc_id_in_range id max = true then
    some ⟨(id - 1).toNat, by simp only [tkmc_id_in_range, decide_eq_true_eq] at h; omega⟩
  else none

def inINT (x : Int) : Prop := -2 ^ 31 ≤ x ∧ x < 2 ^ 31

instance (x : Int) : Decidable (inINT x) := by unfold inINT; infer_instance

/-! ## Attributes and modes -/

def TA_HLNG : ATR := 0x1
def TA_USERBUF : ATR := 0x20
def TA_RNG1 : ATR := 0x100
def TA_RNG2 : ATR := 0x200
def TA_RNG3 : ATR := 0x300

def TA_TPRI : ATR := 0x1
def TA_WMUL : ATR := 0x8
def TA_CNT : ATR := 0x2
def TA_MPRI : ATR := 0x2

def TWF_ORW : UINT := 0x1
def TWF_CLR : UINT := 0x10
def TWF_BITCLR : UINT := 0x20

/-- Marks the ID of a control block that is not allocated. -/
def NOEXS_MASK : UINT := 0x80000000

/-- The error codes the kernel returns. -/
inductive ER where
  | E_OK | E_RSATR | E_PAR | E_ID | E_CTX | E_LIMIT | E_OBJ | E_NOEXS | E_QOVR
  | E_RLWAI | E_TMOUT | E_DLT
  deriving DecidableEq, Repr

/-- The task states, `TTS_*`. -/
inductive TTS where
  | NOEXS | RUN | RDY | WAI | DMT
  deriving DecidableEq, Repr

/-- What a task waits for, `TTW_*`. `NONE` is the 0 of a task that does not wait. -/
inductive TTW where
  | NONE | SLP | DLY | SEM | FLG | MBX
  deriving DecidableEq, Repr

/-! ## Creation packets -/

structure T_CTSK where
  exinf : UINT
  tskatr : ATR
  task : UINT
  itskpri : Int
  stksz : Int
  bufptr : UINT
  deriving DecidableEq

structure T_CSEM where
  exinf : UINT
  sematr : ATR
  isemcnt : Int
  maxsem : Int
  deriving DecidableEq

structure T_CFLG where
  exinf : UINT
  flgatr : ATR
  iflgptn : UINT
  deriving DecidableEq

structure T_CMBX where
  exinf : UINT
  mbxatr : ATR
  deriving DecidableEq

/-! ## The calls -/

/-- The calls that can put their task in the waiting state. -/
inductive WaitCall where
  | slp (tmout : Int)
  | dly (dlytm : RELTIM)
  | sem (semid : Int) (cnt : Int) (tmout : Int)
  | flg (flgid : Int) (waiptn wfmode p_flgptn : UINT) (tmout : Int)
  | mbx (mbxid : Int) (ppk_msg : UINT) (tmout : Int)
  deriving DecidableEq

/-- The objects a task can wait on. -/
inductive Obj where
  | sem (s : SemId)
  | flg (f : FlgId)
  | mbx (m : MbxId)
  deriving DecidableEq

def WaitCall.kind : WaitCall → TTW
  | .slp _ => .SLP
  | .dly _ => .DLY
  | .sem .. => .SEM
  | .flg .. => .FLG
  | .mbx .. => .MBX

/-- The object whose wait queue the call uses. -/
def WaitCall.obj : WaitCall → Option Obj
  | .slp _ => none
  | .dly _ => none
  | .sem semid _ _ => (tableEntry CFN_MAX_SEMID semid).map .sem
  | .flg flgid _ _ _ _ => (tableEntry CFN_MAX_FLGID flgid).map .flg
  | .mbx mbxid _ _ => (tableEntry CFN_MAX_MBXID mbxid).map .mbx

/-- The time limit of the call in ms, if it has one. -/
def WaitCall.limit : WaitCall → Option Nat
  | .dly dlytm => if dlytm = 0 then none else some dlytm.toNat
  | .slp tmout => if 0 < tmout then some tmout.toNat else none
  | .sem _ _ tmout => if 0 < tmout then some tmout.toNat else none
  | .flg _ _ _ _ tmout => if 0 < tmout then some tmout.toNat else none
  | .mbx _ _ tmout => if 0 < tmout then some tmout.toNat else none

inductive Call where
  | cre_tsk (pk_ctsk : Option T_CTSK)
  | sta_tsk (tskid : Int) (stacd : Int)
  | ext_tsk
  | exd_tsk
  | rel_wai (tskid : Int)
  | wup_tsk (tskid : Int)
  | cre_sem (pk_csem : Option T_CSEM)
  | sig_sem (semid : Int) (cnt : Int)
  | del_sem (semid : Int)
  | cre_flg (pk_cflg : Option T_CFLG)
  | set_flg (flgid : Int) (setptn : UINT)
  | clr_flg (flgid : Int) (clrptn : UINT)
  | cre_mbx (pk_cmbx : Option T_CMBX)
  | snd_mbx (mbxid : Int) (pk_msg : UINT)
  | del_mbx (mbxid : Int)
  | wait (w : WaitCall)
  deriving DecidableEq

/-- What a call gives its caller: the code, the ID of a creation, and what it wrote to
`*p_flgptn` or `*ppk_msg`, if it wrote. -/
structure Ret where
  ercd : ER
  id : Int := 0
  flgptn : Option UINT := none
  msg : Option UINT := none
  deriving DecidableEq

/-- Where the first part of a call leaves its caller: back from the call, waiting inside it, or
about to yield inside it. -/
inductive Flow where
  | ret (r : Ret)
  | wait
  | yield
  deriving DecidableEq

/-- The point inside a call where a suspended task goes on. -/
inductive Pending where
  | wait (w : WaitCall)
  | yield
  deriving DecidableEq

/-! ## Task control blocks -/

inductive Link where
  | self | linked | poisoned
  deriving DecidableEq, Repr

/-- The union of `WaitInfo`: the member that was written last. -/
inductive WaitInfo where
  | zero
  | event_flag (waiptn wfmode flgptn : UINT)
  | semaphore (semcnt : Int) (semcb : SemId)
  | mailbox (msg : UINT)
  deriving DecidableEq

/-- `head` and `wait_link` are the task's two list links; the second is `winfo.wait_queue`. -/
structure TCB where
  head : Link
  tskid : Int
  itskpri : Int
  tskstat : TTS
  tskwait : TTW
  sp : UINT
  initial_sp : UINT
  task : UINT
  exinf : UINT
  delay_ticks : Nat
  wupcause : ER
  wupcnt : Nat
  wait_link : Link
  winfo : WaitInfo
  deriving DecidableEq

/-- The index of the ready queue of a task, `itskpri - 1`. -/
def TCB.level (c : TCB) : Nat := (c.itskpri - 1).toNat

abbrev StashedRegisters := Fin 32 → UINT

/-! ## What a run leaves on record

None of this is in the C code. The log says what happened, for the properties that speak about a
whole run, and the alarms say where the C code would have left its domain. -/

inductive Delivery where
  | pattern (flgptn : UINT)
  | message (msg : UINT)
  deriving DecidableEq

inductive Event where
  | enqueue (t : TskId)
  | complete (t : TskId) (p : Option Pending) (cause : ER) (winfo : WaitInfo)
  | deliver (t : TskId) (d : Delivery)
  | dispatch (t : TskId)
  | block (t : TskId) (w : WaitCall)
  | finish (t : TskId) (w : WaitCall) (r : Ret)
  | ret (c : Call) (r : Ret)
  deriving DecidableEq

inductive Alarm where
  /-- A list operation on a link it may not be used on. -/
  | badLink
  /-- `tkmc_complete_wait` on a task that does not wait. -/
  | notWaiting
  /-- A NULL task pointer followed. -/
  | nullTask
  /-- Signed arithmetic out of the range of `INT`. -/
  | intOverflow
  /-- `delay_ticks` subtracted below 0. -/
  | tickUnderflow
  /-- The tick count of a new wait wrapped at 2^32. -/
  | tickOverflow
  deriving DecidableEq, Repr

/-! ## The state -/

/-- The task tables: `tkmc_tcbs`, `tkmc_free_tcb`, `tkmc_ready_queue`, `tkmc_timer_queue`, and the
wait queue of each object. `stack t` is the 32 words at `initial_sp` of the task, and `pending t`
is where it is inside a wait call, which the C code keeps on the task's stack. -/
@[ext]
structure Tasks where
  tcbs : TskId → TCB
  free_tcb : List TskId
  ready_queue : Nat → List TskId
  timer_queue : List TskId
  wait_queue : Obj → List TskId
  stack : TskId → StashedRegisters
  pending : TskId → Option Pending
  log : List Event
  alarms : List Alarm

structure SEMCB where
  semid : UINT
  exinf : UINT
  sematr : ATR
  semcnt : Int
  maxsem : Int
  deriving DecidableEq

structure FLGCB where
  flgid : UINT
  exinf : UINT
  flgatr : ATR
  flgptn : UINT
  deriving DecidableEq

structure MBXCB where
  mbx_queue : List UINT
  mbxid : UINT
  exinf : UINT
  mbxatr : ATR
  deriving DecidableEq

/-- The object tables, and the `msgpri` the application keeps in each of its messages. -/
structure Objects where
  semcbs : SemId → SEMCB
  free_semcb : List SemId
  flgcbs : FlgId → FLGCB
  free_flbcb : List FlgId
  mbxcbs : MbxId → MBXCB
  free_mbxcb : List MbxId
  msgpri : UINT → Int

/-- What decides which code runs: `current`, `next`, the MSIP word, `mstatus.MIE`,
`tkmc_isr_depth`, and the timer's compare value with its register. -/
structure Machine where
  current : Option TskId
  next : Option TskId
  msip : Bool
  mie : Bool
  isr_depth : Nat
  s_mtimecmp : Nat
  mtimecmp : Nat

structure Kernel extends Tasks, Objects, Machine

/-- Runs `f` on the task tables. -/
def Kernel.tasks (k : Kernel) (f : Tasks → Tasks) : Kernel := { k with toTasks := f k.toTasks }

/-! ## Interrupts and the switch request -/

/-- `DI(intsts)`; the saved status is `k.mie` of the state before. -/
def Kernel.DI (k : Kernel) : Kernel := { k with mie := false }

def Kernel.EI (k : Kernel) (intsts : Bool) : Kernel := { k with mie := k.mie || intsts }

def Kernel.dispatch (k : Kernel) : Kernel := { k with msip := true }

def tkmc_in_isr (k : Kernel) : Bool := decide (k.isr_depth ≠ 0)

def tkmc_can_block (k : Kernel) (intsts : Bool) : Bool :=
  intsts && k.current.isSome && !tkmc_in_isr k

/-- An object's ID says it is not allocated. -/
def noexs (id : UINT) : Bool := decide (id &&& NOEXS_MASK ≠ 0)

def Kernel.setSem (k : Kernel) (s : SemId) (cb : SEMCB) : Kernel :=
  { k with semcbs := Function.update k.semcbs s cb }

def Kernel.setFlg (k : Kernel) (f : FlgId) (cb : FLGCB) : Kernel :=
  { k with flgcbs := Function.update k.flgcbs f cb }

def Kernel.setMbx (k : Kernel) (m : MbxId) (cb : MBXCB) : Kernel :=
  { k with mbxcbs := Function.update k.mbxcbs m cb }

end TsukumoCore
