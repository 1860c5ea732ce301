import TsukumoCore.System.Created
import TsukumoCore.Trap.Frames

/-!
# Contexts

A context that a trap saves comes back, whatever runs meanwhile, and the frame that `tk_sta_tsk` builds is
one that both loaders start the task from.
-/

namespace TsukumoCore

open Memory Trap
open Rv32 (Reg Hart Stop ops execAll execAll_cons execAll_append run_ops get_set)

variable {b : Boot} {k k' : Kernel} {t : TskId} {tskid stacd : Int} {pk : T_CTSK} {h h' : Hart}

/-- `h'` has the registers of a frame, `sp` and `mepc` as `h`. -/
def Resumes (h h' : Hart) : Prop := (∀ r ∈ .sp :: registers, h'.get r = h.get r) ∧ h'.csr .mepc = h.csr .mepc

theorem resumes_of_holds (hh : Holds h'.mem (h'.get .sp) h) (hsp : h'.get .sp = h.get .sp - 128) :
    Resumes h (execAll RESTORE_FRAME h') := by
  have hrest := restored h'
  refine ⟨?_, hrest.mepc.trans hh.mepc⟩
  intro r hr
  rcases List.mem_cons.mp hr with rfl | hr
  · rw [hrest.sp, hsp, BitVec.sub_add_cancel]
  · exact (hh.restored hr).1

theorem resumes_of_same (hsp : h'.get .sp = (execAll SAVE_FRAME h).get .sp)
    (hsame : ∀ i < 29, load h'.mem (word (h'.get .sp) i) = load (execAll SAVE_FRAME h).mem (word (h'.get .sp) i)) :
    Resumes h (execAll RESTORE_FRAME h') := by
  have hs := saved h
  rw [hs.sp] at hsp
  rw [hsp] at hsame
  exact resumes_of_holds (hsp ▸ hs.holds.same hsame) hsp

theorem resumes_of_isr {x : Symbols} {r : Reg}
    (hroom : Apart (h.get .sp - 128) 128 x.tkmc_isr_depth 4) (hframe : h'.get r = h.get .sp - 128)
    (hsame : ∀ i < 29, load h'.mem (word (h.get .sp - 128) i) =
      load (execAll (SAVE_FRAME ++ ENTER_ISR x) h).mem (word (h.get .sp - 128) i)) :
    Resumes h (execAll (.mv .sp r :: (LEAVE_ISR x ++ RESTORE_FRAME)) h') := by
  have hs := saved h
  have hin := (entered x (execAll SAVE_FRAME h)).1
  let h₁ := h'.set .sp (h'.get r)
  have hout := left x h₁
  have hget : (execAll (LEAVE_ISR x) h₁).get .sp = h.get .sp - 128 := by
    rw [hout.regs .sp (by decide), get_set (by decide), if_pos rfl, hframe]
  rw [execAll_cons, execAll_append]
  apply resumes_of_holds
  · show Holds (execAll (LEAVE_ISR x) h₁).mem ((execAll (LEAVE_ISR x) h₁).get .sp) h
    rw [hget]
    apply hs.holds.same
    intro i hi
    calc load (execAll (LEAVE_ISR x) h₁).mem (word (h.get .sp - 128) i)
        = load h'.mem (word (h.get .sp - 128) i) := hout.same hroom (by omega)
      _ = load (execAll (ENTER_ISR x) (execAll SAVE_FRAME h)).mem (word (h.get .sp - 128) i) := by
        rw [hsame i hi, execAll_append]
      _ = load (execAll SAVE_FRAME h).mem (word (h.get .sp - 128) i) := hin.same hroom (by omega)
  · exact hget

/-! ## The first frame of a task -/

/-- The state in which a task begins. -/
structure Begins (e : Entries) (pk : T_CTSK) (stacd : Int) (h : Hart) : Prop where
  pc : h.pc = pk.task
  a0 : h.get .a0 = BitVec.ofInt 32 stacd
  a1 : h.get .a1 = pk.exinf
  ra : h.get .ra = e.tk_ext_tsk
  sp : h.get .sp = pk.stackEnd

/-- The frame of `t` starts the task, at the end of a trap that finds `sp` at it and from `__launch_task` that
finds the address of `sp` in `a0`. Neither loads `gp` and `tp`. -/
def Starts (e : Entries) (k : Kernel) (t : TskId) (pk : T_CTSK) (stacd : Int) : Prop :=
  ∀ h₁ h₂ : Hart, InMemory h₁.mem (k.tcbs t).sp (k.stack t) → h₁.get .sp = (k.tcbs t).sp →
    InMemory h₂.mem (k.tcbs t).sp (k.stack t) → load h₂.mem (h₂.get .a0) = (k.tcbs t).sp →
    ∃ h₁' h₂' : Hart, Rv32.run none (ops RESTORE_FRAME ++ [.mret]) h₁ = (.left h₁' : Stop Callee) ∧
      Rv32.run none launch_task h₂ = .left h₂' ∧ Begins e pk stacd h₁' ∧ Begins e pk stacd h₂' ∧
      ∀ r, r ≠ .a3 → (r = .gp ∨ r = .tp → h₁.get r = h₂.get r) → h₁'.get r = h₂'.get r

theorem run_restore (h : Hart) : Rv32.run none (ops RESTORE_FRAME ++ [.mret]) h =
    (.left (Rv32.mret (execAll RESTORE_FRAME h)) : Stop Callee) := by
  rw [run_ops]
  simp only [Rv32.run]

theorem run_launch (h : Hart) : Rv32.run none launch_task h =
    .left { execAll launch_frame h with pc := (execAll launch_frame h).get .a3 } := by
  unfold launch_task
  rw [run_ops]
  simp only [Rv32.run]

theorem begin_both {e : Entries} {h₁ h₂ g₁ g₂ : Hart} (hrest : Restored h₁ g₁) (hlaunch : Launched (h₁.get .sp) h₂ g₂)
    (hsp : h₁.get .sp + 128 = pk.stackEnd)
    (hmem₁ : InMemory h₁.mem (h₁.get .sp) (initialFrame e.tk_ext_tsk pk.task pk.exinf stacd))
    (hmem₂ : InMemory h₂.mem (h₁.get .sp) (initialFrame e.tk_ext_tsk pk.task pk.exinf stacd)) :
    Begins e pk stacd (Rv32.mret g₁) ∧ Begins e pk stacd { g₂ with pc := g₂.get .a3 } ∧
      ∀ r, r ≠ .a3 → (r = .gp ∨ r = .tp → h₁.get r = h₂.get r) →
        (Rv32.mret g₁).get r = ({ g₂ with pc := g₂.get .a3 } : Hart).get r := by
  refine ⟨?_, ?_, ?_⟩
  · refine ⟨?_, ?_, ?_, ?_, ?_⟩
    · exact hrest.mepc.trans (hmem₁ 28)
    · exact (hrest.regs (.a0, 6) (by decide)).trans (hmem₁ 6)
    · exact (hrest.regs (.a1, 7) (by decide)).trans (hmem₁ 7)
    · exact (hrest.regs (.ra, 0) (by decide)).trans (hmem₁ 0)
    · exact hrest.sp.trans hsp
  · refine ⟨?_, ?_, ?_, ?_, ?_⟩
    · exact hlaunch.a3.trans (hmem₂ 28)
    · exact (hlaunch.regs (.a0, 6) (by decide) (by decide)).trans (hmem₂ 6)
    · exact (hlaunch.regs (.a1, 7) (by decide) (by decide)).trans (hmem₂ 7)
    · exact (hlaunch.regs (.ra, 0) (by decide) (by decide)).trans (hmem₂ 0)
    · exact hlaunch.sp.trans hsp
  · intro r hr hglobal
    show g₁.get r = g₂.get r
    by_cases hreg : r ∈ registers
    · obtain ⟨i, hi⟩ := exists_index hreg
      have hlt := registers_lt (r, i) hi
      calc g₁.get r = load h₁.mem (word (h₁.get .sp) i) := hrest.regs (r, i) hi
        _ = load h₂.mem (word (h₁.get .sp) i) := (hmem₁ ⟨i, by omega⟩).trans (hmem₂ ⟨i, by omega⟩).symm
        _ = g₂.get r := (hlaunch.regs (r, i) hi hr).symm
    · by_cases hrsp : r = .sp
      · rw [hrsp, hrest.sp, hlaunch.sp]
      · rw [hrest.other r hrsp hreg, hlaunch.other r hrsp hreg]
        -- `zero`, `gp` and `tp` are left.
        cases r with
        | zero => rfl
        | gp => exact hglobal (.inl rfl)
        | tp => exact hglobal (.inr rfl)
        | sp => exact absurd rfl hrsp
        | _ => exact absurd hreg (by decide)

theorem starts_of_frame {e : Entries} (hsp : (k.tcbs t).sp = pk.stackEnd - sizeofStashedRegisters)
    (hstack : k.stack t = initialFrame e.tk_ext_tsk pk.task pk.exinf stacd) : Starts e k t pk stacd := by
  intro h₁ h₂ hmem₁ hsp₁ hmem₂ hsp₂
  have hend : (k.tcbs t).sp + 128 = pk.stackEnd := by
    rw [hsp]
    exact BitVec.sub_add_cancel _ _
  have hlaunch := launched h₂
  rw [hsp₂] at hlaunch
  rw [hstack, ← hsp₁] at hmem₁ hmem₂
  rw [← hsp₁] at hend hlaunch
  obtain ⟨hbegin₁, hbegin₂, hagree⟩ := begin_both (restored h₁) hlaunch hend hmem₁ hmem₂
  exact ⟨_, _, run_restore h₁, run_launch h₂, hbegin₁, hbegin₂, hagree⟩

theorem starts_of_sta_tsk (h : Reachable b k) (ht : tableEntry CFN_MAX_TSKID tskid = some t)
    (hok : tk_sta_tsk b.entries k tskid stacd = (.E_OK, k')) :
    ∃ pk, packet b k.log t = some pk ∧ Starts b.entries k' t pk stacd := by
  have hinv := h.inv
  obtain ⟨u, hu⟩ := hinv.sched.current
  have hcur : k.current ≠ none := by simp [hu]
  have hdmt := tk_sta_tsk_dormant (congrArg Prod.fst hok) ht
  obtain ⟨pk, hpk, hmade⟩ := h.createdOk t (by rw [hdmt]; simp)
  have htasks : k'.toTasks = (Move.start t
      (initialFrame b.entries.tk_ext_tsk (k.tcbs t).task (k.tcbs t).exinf stacd)).effect k.toTasks := by
    rw [tk_sta_tsk_eq hinv.core.tasks.toPlaced ht hdmt, dispatch_if_needed_eq (k := k.DI.tasks _) hcur] at hok
    obtain rfl := (Prod.mk.inj hok).2
    rw [EI_toTasks, request_switch_toTasks]
    rfl
  refine ⟨pk, hpk, starts_of_frame ?_ ?_⟩
  · rw [htasks, ← hmade.initial_sp]
    simp [Move.effect]
  · rw [htasks, hmade.task, hmade.exinf]
    simp [Move.effect]

theorem starts_of_boot (hk : tkmc_start b = some k) (hpk : bootCreation b t = some pk) :
    Starts b.entries k t pk b.a0 := by
  obtain ⟨stack_end, stack_end', hini, hidl, -, -, rfl⟩ := boot_eq hk
  obtain rfl := check_ctsk_ok hini
  obtain rfl := check_ctsk_ok hidl
  unfold bootCreation at hpk
  split at hpk
  · rename_i h0
    obtain rfl := h0
    obtain rfl := Option.some.inj hpk
    apply starts_of_frame <;>
      simp [Kernel.EI, tkmc_start_timer, write_mtimecmp, Tasks.setTcb, bootTasks, Move.effect, iniPacket, bootPacket]
  · split at hpk
    · rename_i h1
      obtain rfl := h1
      obtain rfl := Option.some.inj hpk
      apply starts_of_frame <;>
        simp [Kernel.EI, tkmc_start_timer, write_mtimecmp, Tasks.setTcb, bootTasks, Move.effect, idlPacket,
          bootPacket, idl_tsk]
    · exact absurd hpk (by simp)

/-- The code that writes frames and the code that loads them agree. A frame that nobody changed brings back
the context it was saved from, whatever ran meanwhile; and the first frame of a task starts it. -/
theorem frames_agree :
    (∀ h h' : Hart, h'.get .sp = (execAll SAVE_FRAME h).get .sp →
      (∀ i < 29, load h'.mem (word (h'.get .sp) i) = load (execAll SAVE_FRAME h).mem (word (h'.get .sp) i)) →
      Resumes h (execAll RESTORE_FRAME h')) ∧
    (∀ (x : Symbols) (h h' : Hart) (r : Reg), Apart (h.get .sp - 128) 128 x.tkmc_isr_depth 4 →
      h'.get r = h.get .sp - 128 →
      (∀ i < 29, load h'.mem (word (h.get .sp - 128) i) =
        load (execAll (SAVE_FRAME ++ ENTER_ISR x) h).mem (word (h.get .sp - 128) i)) →
      (execAll (SAVE_FRAME ++ ENTER_ISR x) h).get .s0 = h.get .sp - 128 ∧
        Resumes h (execAll (.mv .sp r :: (LEAVE_ISR x ++ RESTORE_FRAME)) h')) ∧
    (∀ b k k' tskid t stacd, Reachable b k → tableEntry CFN_MAX_TSKID tskid = some t →
      tk_sta_tsk b.entries k tskid stacd = (.E_OK, k') →
      ∃ pk, packet b k.log t = some pk ∧ Starts b.entries k' t pk stacd) ∧
    (∀ b k t pk, tkmc_start b = some k → bootCreation b t = some pk → Starts b.entries k t pk b.a0) := by
  refine ⟨?_, ?_, ?_, ?_⟩
  · intro h h' hsp hsame
    exact resumes_of_same hsp hsame
  · intro x h h' r hroom hframe hsame
    refine ⟨?_, resumes_of_isr hroom hframe hsame⟩
    rw [execAll_append, (entered x _).2.1]
    exact (saved h).sp
  · intro b k k' tskid t stacd h ht hok
    exact starts_of_sta_tsk h ht hok
  · intro b k t pk hk hpk
    exact starts_of_boot hk hpk

/-- The words of a frame, and after it the address of the frame. -/
def sampleWords (sp : UINT) (frame : StashedRegisters) : List (Nat × UINT) :=
  (32, sp) :: (List.finRange 32).map fun i => (i.val, frame i)

/-- A hart with a frame at `sp`, and with the address of a word that has `sp` in `a0`. -/
def sampleHart (sp : UINT) (frame : StashedRegisters) : Hart where
  reg r := if r = .sp then sp else if r = .a0 then word sp 32 else 0
  csr _ := 0
  mem := storeWords (fun _ => 0) sp (sampleWords sp frame)
  pc := 0
  priv := 3

theorem sampleHart_load (sp : UINT) (frame : StashedRegisters) :
    InMemory (sampleHart sp frame).mem sp frame ∧ load (sampleHart sp frame).mem (word sp 32) = sp := by
  have hfst : (sampleWords sp frame).map Prod.fst = 32 :: (List.finRange 32).map Fin.val := by
    simp [sampleWords, Function.comp_def]
  have hlt : ∀ w ∈ sampleWords sp frame, w.1 < 2 ^ 30 := by
    intro w hw
    have hmem : w.1 ∈ 32 :: (List.finRange 32).map Fin.val := hfst ▸ List.mem_map_of_mem hw
    have hall : ∀ n ∈ 32 :: (List.finRange 32).map Fin.val, n < 33 := by decide
    have := hall _ hmem
    omega
  have hload : ∀ w ∈ sampleWords sp frame, load (sampleHart sp frame).mem (word sp w.1) = w.2 :=
    fun w hw => load_storeWords (by rw [hfst]; decide) hlt _ hw
  constructor
  · intro i
    exact hload (i.val, frame i) (List.mem_cons_of_mem _ (List.mem_map_of_mem (List.mem_finRange i)))
  · exact hload (32, sp) List.mem_cons_self

theorem frames_agree_samplePacket : ∃ k k', sampleRun [.call (.cre_tsk (some samplePacket)) []] = some k ∧
    tk_sta_tsk sampleBoot.entries k 3 7 = (.E_OK, k') ∧
    ∃ h' : Hart, Rv32.run none launch_task (sampleHart (k'.tcbs 2).sp (k'.stack 2)) = .left h' ∧
      h'.pc = 0x80004000 ∧ h'.get .a0 = 7 ∧ h'.get .a1 = 5 ∧ h'.get .sp = 0x80020200 := by
  obtain ⟨k, hk, hok, hpk⟩ := sampleRun_of_any [.call (.cre_tsk (some samplePacket)) []]
    (fun k => (tk_sta_tsk sampleBoot.entries k 3 7).1 = .E_OK ∧ packet sampleBoot k.log 2 = some samplePacket)
    (by decide +kernel)
  have hsta : tk_sta_tsk sampleBoot.entries k 3 7 = (.E_OK, (tk_sta_tsk sampleBoot.entries k 3 7).2) :=
    Prod.ext hok rfl
  generalize (tk_sta_tsk sampleBoot.entries k 3 7).2 = k' at hsta
  obtain ⟨pk, hpk', hstarts⟩ := frames_agree.2.2.1 sampleBoot k k' 3 2 7 (sampleRun_reachable hk) (by decide) hsta
  obtain rfl : samplePacket = pk := Option.some.inj (hpk.symm.trans hpk')
  have hframe := sampleHart_load (k'.tcbs 2).sp (k'.stack 2)
  obtain ⟨h₁', h₂', -, hrun, -, hbegins, -⟩ := hstarts _ _ hframe.1 rfl hframe.1 hframe.2
  exact ⟨k, k', hk, hsta, h₂', hrun, hbegins.pc, hbegins.a0, hbegins.a1, hbegins.sp⟩

end TsukumoCore
