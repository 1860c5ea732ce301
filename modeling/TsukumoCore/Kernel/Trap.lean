import TsukumoCore.Kernel.Types
import TsukumoCore.Lib.Rv32

/-!
# The trap entries: `asm/rv32/start.S`, `asm/rv32/launch_task.S`

Numeric labels are kept: `1f` is `1`. Constants that the assembler computes are written as there.
-/

namespace TsukumoCore

open Rv32 (Reg Instr Line Hart ops execAll)
open Memory (Mem load store word)

/-- The addresses that the linker decides. -/
structure Symbols where
  tkmc_isr_depth : UINT
  _isr_stack_end : UINT

abbrev CLINT_BASE_ADDRESS : UINT := 0x2000000
abbrev CLINT_MSIP_OFFSET : UINT := 0x0

/-- The C functions that the entries call. -/
inductive Callee where
  | tkmc_timer_handler
  | tkmc_external_interrupt
  | schedule
  deriving DecidableEq

/-! ## Frames -/

/-- Pushes the registers and `mepc` on the stack of the code that was interrupted. -/
def SAVE_FRAME : List Instr :=
  [.addi .sp .sp (-32 * 4),
   .sw .ra (0 * 4) .sp, .sw .t0 (1 * 4) .sp, .sw .t1 (2 * 4) .sp, .sw .t2 (3 * 4) .sp,
   .sw .s0 (4 * 4) .sp, .sw .s1 (5 * 4) .sp,
   .sw .a0 (6 * 4) .sp, .sw .a1 (7 * 4) .sp, .sw .a2 (8 * 4) .sp, .sw .a3 (9 * 4) .sp,
   .sw .a4 (10 * 4) .sp, .sw .a5 (11 * 4) .sp, .sw .a6 (12 * 4) .sp, .sw .a7 (13 * 4) .sp,
   .sw .s2 (14 * 4) .sp, .sw .s3 (15 * 4) .sp, .sw .s4 (16 * 4) .sp, .sw .s5 (17 * 4) .sp,
   .sw .s6 (18 * 4) .sp, .sw .s7 (19 * 4) .sp, .sw .s8 (20 * 4) .sp, .sw .s9 (21 * 4) .sp,
   .sw .s10 (22 * 4) .sp, .sw .s11 (23 * 4) .sp,
   .sw .t3 (24 * 4) .sp, .sw .t4 (25 * 4) .sp, .sw .t5 (26 * 4) .sp, .sw .t6 (27 * 4) .sp,
   .csrr .t0 .mepc, .sw .t0 (28 * 4) .sp]

/-- Pops the frame at `sp`, `mepc` included. -/
def RESTORE_FRAME : List Instr :=
  [.lw .t0 (28 * 4) .sp, .csrw .mepc .t0,
   .lw .t6 (27 * 4) .sp, .lw .t5 (26 * 4) .sp, .lw .t4 (25 * 4) .sp, .lw .t3 (24 * 4) .sp,
   .lw .s11 (23 * 4) .sp, .lw .s10 (22 * 4) .sp,
   .lw .s9 (21 * 4) .sp, .lw .s8 (20 * 4) .sp, .lw .s7 (19 * 4) .sp, .lw .s6 (18 * 4) .sp,
   .lw .s5 (17 * 4) .sp, .lw .s4 (16 * 4) .sp, .lw .s3 (15 * 4) .sp, .lw .s2 (14 * 4) .sp,
   .lw .a7 (13 * 4) .sp, .lw .a6 (12 * 4) .sp, .lw .a5 (11 * 4) .sp, .lw .a4 (10 * 4) .sp,
   .lw .a3 (9 * 4) .sp, .lw .a2 (8 * 4) .sp, .lw .a1 (7 * 4) .sp, .lw .a0 (6 * 4) .sp,
   .lw .s1 (5 * 4) .sp, .lw .s0 (4 * 4) .sp,
   .lw .t2 (3 * 4) .sp, .lw .t1 (2 * 4) .sp, .lw .t0 (1 * 4) .sp, .lw .ra (0 * 4) .sp,
   .addi .sp .sp (32 * 4)]

/-- Up to the jump at its end. `a0` has the address of the `sp` of the task. -/
def launch_frame : List Instr :=
  [.lw .sp 0 .a0,
   .lw .t6 (27 * 4) .sp, .lw .t5 (26 * 4) .sp, .lw .t4 (25 * 4) .sp, .lw .t3 (24 * 4) .sp,
   .lw .s11 (23 * 4) .sp, .lw .s10 (22 * 4) .sp,
   .lw .s9 (21 * 4) .sp, .lw .s8 (20 * 4) .sp, .lw .s7 (19 * 4) .sp, .lw .s6 (18 * 4) .sp,
   .lw .s5 (17 * 4) .sp, .lw .s4 (16 * 4) .sp, .lw .s3 (15 * 4) .sp, .lw .s2 (14 * 4) .sp,
   .lw .a7 (13 * 4) .sp, .lw .a6 (12 * 4) .sp, .lw .a5 (11 * 4) .sp, .lw .a4 (10 * 4) .sp,
   .lw .a3 (9 * 4) .sp, .lw .a2 (8 * 4) .sp, .lw .a1 (7 * 4) .sp, .lw .a0 (6 * 4) .sp,
   .lw .s1 (5 * 4) .sp, .lw .s0 (4 * 4) .sp,
   .lw .t2 (3 * 4) .sp, .lw .t1 (2 * 4) .sp, .lw .t0 (1 * 4) .sp, .lw .ra (0 * 4) .sp,
   .lw .a3 (28 * 4) .sp, .addi .sp .sp (4 * 32)]

/-- `__launch_task`. -/
def launch_task : List (Line Callee) := ops launch_frame ++ [.jr .a3]

/-- The members of `registers` in the union `StashedRegisters`, before `mepc` and the padding. -/
def registers : List Reg :=
  [.ra, .t0, .t1, .t2, .s0, .s1, .a0, .a1, .a2, .a3, .a4, .a5, .a6, .a7,
   .s2, .s3, .s4, .s5, .s6, .s7, .s8, .s9, .s10, .s11, .t3, .t4, .t5, .t6]

/-- The frame is in memory at `sp`. -/
def InMemory (m : Mem) (sp : UINT) (frame : StashedRegisters) : Prop :=
  ∀ i : Fin 32, load m (word sp i) = frame i

/-- What `tk_sta_tsk` writes at `sp`: the array of the union first, then four members. -/
def write_frame (m : Mem) (sp ext task exinf : UINT) (stacd : Int) : Mem :=
  let m := (List.range 32).foldl (fun m i => store m (word sp i) 0xdeadbeef) m
  let m := store m (word sp (registers.idxOf .ra)) ext
  let m := store m (word sp registers.length) task
  let m := store m (word sp (registers.idxOf .a0)) (BitVec.ofInt 32 stacd)
  store m (word sp (registers.idxOf .a1)) exinf

/-! ## Entries -/

section Entries

variable (x : Symbols)

def ENTER_ISR : List Instr :=
  [.li .t0 x.tkmc_isr_depth, .lw .t1 0 .t0, .addi .t1 .t1 1, .sw .t1 0 .t0,
   .mv .s0 .sp, .li .sp x._isr_stack_end]

def LEAVE_ISR : List Instr :=
  [.li .t0 x.tkmc_isr_depth, .lw .t1 0 .t0, .addi .t1 .t1 (-1), .sw .t1 0 .t0]

def mtrap_handler : List (Line Callee) := List.flatten
  [ops SAVE_FRAME, ops (ENTER_ISR x),
   [.op (.li .t0 (CLINT_BASE_ADDRESS + CLINT_MSIP_OFFSET)),
    .op (.sw .zero 0 .t0),
    .op (.mv .a0 .s0),
    .call .schedule,
    .op (.mv .sp .a0)],
   ops (LEAVE_ISR x), ops RESTORE_FRAME, [.mret]]

def timer_interrupt : List (Line Callee) := List.flatten
  [ops SAVE_FRAME, ops (ENTER_ISR x),
   [.call .tkmc_timer_handler,
    .op (.li .t0 (CLINT_BASE_ADDRESS + CLINT_MSIP_OFFSET)),
    .op (.lw .t1 0 .t0),
    .beqz .t1 1,
    .op (.sw .zero 0 .t0),
    .op (.mv .a0 .s0),
    .call .schedule,
    .op (.mv .sp .a0),
    .j 2,
    .label 1,
    .op (.mv .sp .s0),
    .label 2],
   ops (LEAVE_ISR x), ops RESTORE_FRAME, [.mret]]

def external_interrupt : List (Line Callee) := List.flatten
  [ops SAVE_FRAME,
   [.op (.li .t0 x.tkmc_isr_depth),
    .op (.lw .t1 0 .t0),
    .op (.addi .t1 .t1 1),
    .op (.sw .t1 0 .t0),
    .op (.mv .s0 .sp),
    .op (.li .t0 1),
    .bne .t1 .t0 1,
    .op (.li .sp x._isr_stack_end),
    .op (.li .t1 (1 <<< 3 ||| 1 <<< 7)),
    .op (.csrrc .t1 .mie .t1),
    .op (.sw .t1 (29 * 4) .s0),
    .label 1,
    .call .tkmc_external_interrupt,
    .op (.li .t0 x.tkmc_isr_depth),
    .op (.lw .t1 0 .t0),
    .op (.li .t0 1),
    .bne .t1 .t0 4,
    .op (.li .t0 (CLINT_BASE_ADDRESS + CLINT_MSIP_OFFSET)),
    .op (.lw .t1 0 .t0),
    .beqz .t1 2,
    .op (.sw .zero 0 .t0),
    .op (.mv .a0 .s0),
    .call .schedule,
    .op (.mv .sp .a0),
    .j 3,
    .label 2,
    .op (.mv .sp .s0),
    .label 3,
    .op (.lw .t0 (29 * 4) .s0),
    .op (.andi .t0 .t0 (1 <<< 3 ||| 1 <<< 7 : Nat)),
    .op (.csrs .mie .t0),
    .op (.li .t0 (3 <<< 11)),
    .op (.csrs .mstatus .t0)],
   ops (LEAVE_ISR x), ops RESTORE_FRAME,
   [.mret,
    .label 4,
    .op (.mv .sp .s0),
    .op (.li .t0 (3 <<< 11)),
    .op (.csrs .mstatus .t0)],
   ops (LEAVE_ISR x), ops RESTORE_FRAME, [.mret]]

end Entries

end TsukumoCore
