import TsukumoCore.Kernel.Trap

/-!
# What the frame code does

The union, the two macros and `__launch_task` have one layout: `registers` in this order, then `mepc`.
-/

namespace TsukumoCore.Trap

open Memory
open Rv32 (Reg Csr Instr Hart execAll execAll_cons execAll_append execAll_saves execAll_loads saves loads
  addr_word get_set csr_setCsr)

variable {h h' : Hart} {m : Mem} {sp a : Word} {r : Reg} {i : Nat}

/-! ## One layout -/

theorem save_frame_eq : SAVE_FRAME =
    .addi .sp .sp (-32 * 4) :: (saves .sp registers.zipIdx ++ [.csrr .t0 .mepc, .sw .t0 (28 * 4) .sp]) := by
  decide

theorem restore_frame_eq : RESTORE_FRAME =
    .lw .t0 (28 * 4) .sp :: .csrw .mepc .t0 ::
      (loads .sp registers.zipIdx.reverse ++ [.addi .sp .sp (32 * 4)]) := by
  decide

theorem launch_frame_eq : launch_frame =
    .lw .sp 0 .a0 ::
      (loads .sp registers.zipIdx.reverse ++ [.lw .a3 (28 * 4) .sp, .addi .sp .sp (4 * 32)]) := by
  decide

/-- The frame at `sp` has the registers and the `mepc` of `h`. -/
structure Holds (m : Mem) (sp : Word) (h : Hart) : Prop where
  regs : ∀ p ∈ registers.zipIdx, load m (word sp p.2) = h.get p.1
  mepc : load m (word sp 28) = h.csr .mepc

theorem ne_sp_of_mem {p : Reg × Nat} (hp : p ∈ registers.zipIdx) : p.1 ≠ .sp := by
  intro heq
  have hmem : Reg.sp ∈ registers := heq ▸ List.fst_mem_of_mem_zipIdx hp
  exact absurd hmem (by decide)

theorem registers_lt : ∀ p ∈ registers.zipIdx, p.2 < 28 := by decide

theorem exists_index (hr : r ∈ registers) : ∃ i, (r, i) ∈ registers.zipIdx := by
  obtain ⟨i, hi, rfl⟩ := List.mem_iff_getElem.mp hr
  exact ⟨i, List.mk_mem_zipIdx_iff_getElem?.mpr (List.getElem?_eq_getElem hi)⟩

theorem Holds.same {m' : Mem} (hh : Holds m sp h) (hsame : ∀ i < 29, load m' (word sp i) = load m (word sp i)) :
    Holds m' sp h := by
  constructor
  · intro p hp
    have hlt := registers_lt p hp
    rw [hsame p.2 (by omega)]
    exact hh.regs p hp
  · rw [hsame 28 (by omega)]
    exact hh.mepc

/-! ## Saving -/

/-- What `SAVE_FRAME` leaves. -/
structure Saved (h h' : Hart) : Prop where
  holds : Holds h'.mem (h.get .sp - 128) h
  sp : h'.get .sp = h.get .sp - 128
  other : ∀ a, Apart (h.get .sp - 128) 128 a 4 → load h'.mem a = load h.mem a
  regs : ∀ r, r ≠ .sp → r ≠ .t0 → h'.get r = h.get r
  csr : h'.csr = h.csr
  pc : h'.pc = h.pc
  priv : h'.priv = h.priv

theorem frame_words_apart (ha : Apart sp 128 a 4) (hi : i < 32) : Apart (word sp i) 4 a 4 :=
  ha.word_of_block (by omega)

theorem saved (h : Hart) : Saved h (execAll SAVE_FRAME h) := by
  -- The stores run with `sp` moved and everything else as it was; `t0` is in the frame before it has `mepc`.
  let h₁ := h.set .sp (h.get .sp - 128)
  have hget : ∀ r, h₁.get r = if r = .sp then h.get .sp - 128 else h.get r := fun r => get_set (by decide)
  have hsp : h₁.get .sp = h.get .sp - 128 := hget .sp
  let ws := registers.zipIdx.map fun p => (p.2, h₁.get p.1)
  have hexec : execAll SAVE_FRAME h =
      ((h₁.setMem (storeWords h₁.mem (h₁.get .sp) ws)).set .t0 (h.csr .mepc)).setMem
        (store (storeWords h₁.mem (h₁.get .sp) ws) (word (h₁.get .sp) 28) (h.csr .mepc)) := by
    rw [save_frame_eq, execAll_cons, execAll_append]
    have haddi : Instr.exec h (.addi .sp .sp (-32 * 4)) = h₁ := by
      have himm : BitVec.ofInt 32 (-32 * 4) = -(128 : Word) := by decide
      simp only [Instr.exec, himm, ← BitVec.sub_eq_add_neg, h₁]
    rw [haddi, execAll_saves]
    rfl
  rw [hexec]
  have hnodup : (ws.map Prod.fst).Nodup := by
    have hfst : ws.map Prod.fst = registers.zipIdx.map Prod.snd := by simp [ws, Function.comp_def]
    rw [hfst]
    decide
  have hlt : ∀ w ∈ ws, w.1 < 28 := by
    intro w hw
    obtain ⟨p, hp, rfl⟩ := List.mem_map.mp hw
    exact registers_lt p hp
  refine ⟨⟨?_, ?_⟩, ?_, ?_, ?_, rfl, rfl, rfl⟩
  · intro p hp
    have hlast := registers_lt p hp
    have hmem : (p.2, h₁.get p.1) ∈ ws := List.mem_map_of_mem hp
    have hstored := @load_storeWords (h₁.get .sp) ws hnodup (fun w hw => by have := hlt w hw; omega) h₁.mem _ hmem
    have hother : Apart (word (h₁.get .sp) 28) 4 (word (h₁.get .sp) p.2) 4 :=
      apart_words (by omega) (by omega) (by omega)
    simp only [Rv32.mem_setMem, ← hsp]
    rw [load_store_apart hother, hstored, hget, if_neg (ne_sp_of_mem hp)]
  · simp only [Rv32.mem_setMem, ← hsp]
    exact load_store _ _ _
  · rw [Rv32.get_setMem, get_set (by decide)]
    exact hsp
  · intro a ha
    rw [← hsp] at ha
    simp only [Rv32.mem_setMem]
    rw [load_store_apart (frame_words_apart ha (by omega)), storeWords_apart]
    · rfl
    · intro w hw
      have := hlt w hw
      exact frame_words_apart ha (by omega)
  · intro r hr ht
    rw [Rv32.get_setMem, get_set (by decide), if_neg ht, Rv32.get_setMem, hget, if_neg hr]

/-! ## Loading -/

theorem frame_loaded (h : Hart) :
    Rv32.SameBut registers h (execAll (loads .sp registers.zipIdx.reverse) h) ∧
      ∀ p ∈ registers.zipIdx, (execAll (loads .sp registers.zipIdx.reverse) h).get p.1 =
        load h.mem (word (h.get .sp) p.2) := by
  have hfst : (registers.zipIdx.reverse).map Prod.fst = registers.reverse := by
    rw [List.map_reverse, List.zipIdx_map_fst]
  have hnodup : ((registers.zipIdx.reverse).map Prod.fst).Nodup := by
    rw [hfst]
    decide
  obtain ⟨hsame, hload⟩ := execAll_loads hnodup (show Reg.sp ∉ _ by rw [hfst]; decide) (by rw [hfst]; decide) h
  refine ⟨⟨?_, hsame.csr, hsame.mem, hsame.pc, hsame.priv⟩, ?_⟩
  · intro r hr
    apply hsame.reg
    rw [hfst, List.mem_reverse]
    exact hr
  · intro p hp
    exact hload p (List.mem_reverse.mpr hp)

/-- What `RESTORE_FRAME` leaves. -/
structure Restored (h h' : Hart) : Prop where
  regs : ∀ p ∈ registers.zipIdx, h'.get p.1 = load h.mem (word (h.get .sp) p.2)
  mepc : h'.csr .mepc = load h.mem (word (h.get .sp) 28)
  sp : h'.get .sp = h.get .sp + 128
  other : ∀ r, r ≠ .sp → r ∉ registers → h'.get r = h.get r
  csr : ∀ c, c ≠ .mepc → h'.csr c = h.csr c
  mem : h'.mem = h.mem
  priv : h'.priv = h.priv

theorem restored (h : Hart) : Restored h (execAll RESTORE_FRAME h) := by
  let mepc := load h.mem (word (h.get .sp) 28)
  let h₁ := (h.set .t0 mepc).setCsr .mepc mepc
  have hget : ∀ r, r ≠ .t0 → h₁.get r = h.get r := by
    intro r hr
    rw [Rv32.get_setCsr, get_set (by decide), if_neg hr]
  obtain ⟨hsame, hload⟩ := frame_loaded h₁
  have hexec : execAll RESTORE_FRAME h = (execAll (loads .sp registers.zipIdx.reverse) h₁).set .sp
      ((execAll (loads .sp registers.zipIdx.reverse) h₁).get .sp + 128) := by
    rw [restore_frame_eq, execAll_cons, execAll_cons, execAll_append]
    have hfirst : Instr.exec (Instr.exec h (.lw .t0 (28 * 4) .sp)) (.csrw .mepc .t0) = h₁ := by
      have hword : h.addr (28 * 4) .sp = word (h.get .sp) 28 := addr_word h .sp 28
      simp only [Instr.exec, hword]
      rw [get_set (by decide)]
      rfl
    rw [hfirst]
    rfl
  generalize execAll (loads .sp registers.zipIdx.reverse) h₁ = h₂ at hsame hload hexec
  have hget₂ : ∀ r, (execAll RESTORE_FRAME h).get r = if r = .sp then h₂.get .sp + 128 else h₂.get r := by
    intro r
    rw [hexec]
    exact get_set (by decide)
  have hsp : h₂.get .sp = h.get .sp := (hsame.reg .sp (by decide)).trans (hget .sp (by decide))
  refine ⟨?_, ?_, ?_, ?_, ?_, ?_, ?_⟩
  · intro p hp
    rw [hget₂, if_neg (ne_sp_of_mem hp), hload p hp, hget .sp (by decide)]
    rfl
  · rw [hexec, Rv32.csr_set, hsame.csr, csr_setCsr, if_pos rfl]
  · rw [hget₂, if_pos rfl, hsp]
  · intro r hr hreg
    have ht : r ≠ .t0 := by
      rintro rfl
      exact absurd hreg (by decide)
    rw [hget₂, if_neg hr, hsame.reg r hreg, hget r ht]
  · intro c hc
    rw [hexec, Rv32.csr_set, hsame.csr, csr_setCsr, if_neg hc, Rv32.csr_set]
  · rw [hexec, Rv32.mem_set, hsame.mem]
    rfl
  · rw [hexec, Rv32.priv_set, hsame.priv]
    rfl

theorem Holds.restored {h₀ : Hart} (hh : Holds h.mem (h.get .sp) h₀) (hr : r ∈ registers) :
    (execAll RESTORE_FRAME h).get r = h₀.get r ∧ (execAll RESTORE_FRAME h).csr .mepc = h₀.csr .mepc := by
  obtain ⟨i, hi⟩ := exists_index hr
  have hrest := Trap.restored h
  exact ⟨(hrest.regs (r, i) hi).trans (hh.regs (r, i) hi), hrest.mepc.trans hh.mepc⟩

/-- What `__launch_task` leaves before its jump. -/
structure Launched (sp : Word) (h h' : Hart) : Prop where
  regs : ∀ p ∈ registers.zipIdx, p.1 ≠ .a3 → h'.get p.1 = load h.mem (word sp p.2)
  a3 : h'.get .a3 = load h.mem (word sp 28)
  sp : h'.get .sp = sp + 128
  other : ∀ r, r ≠ .sp → r ∉ registers → h'.get r = h.get r

theorem launched (h : Hart) : Launched (load h.mem (h.get .a0)) h (execAll launch_frame h) := by
  let sp := load h.mem (h.get .a0)
  let h₁ := h.set .sp sp
  have hget : ∀ r, h₁.get r = if r = .sp then sp else h.get r := fun r => get_set (by decide)
  obtain ⟨hsame, hload⟩ := frame_loaded h₁
  generalize hh₂ : execAll (loads .sp registers.zipIdx.reverse) h₁ = h₂ at hsame hload
  have hsp : h₂.get .sp = sp := (hsame.reg .sp (by decide)).trans (hget .sp)
  have hexec : execAll launch_frame h =
      (h₂.set .a3 (load h.mem (word sp 28))).set .sp (sp + 128) := by
    rw [launch_frame_eq, execAll_cons, execAll_append]
    have hfirst : Instr.exec h (.lw .sp 0 .a0) = h₁ := by
      have haddr : h.addr 0 .a0 = h.get .a0 := by simp [Hart.addr]
      simp only [Instr.exec, haddr]
      rfl
    have hword : h₂.addr (28 * 4) .sp = word sp 28 := (addr_word h₂ .sp 28).trans (by rw [hsp])
    rw [hfirst, hh₂]
    simp only [execAll_cons, Instr.exec, hword, hsame.mem]
    rw [get_set (by decide), if_neg (by decide), hsp]
    rfl
  have hget₂ : ∀ r, (execAll launch_frame h).get r =
      if r = .sp then sp + 128 else if r = .a3 then load h.mem (word sp 28) else h₂.get r := by
    intro r
    rw [hexec, get_set (by decide), get_set (by decide)]
  refine ⟨?_, ?_, ?_, ?_⟩
  · intro p hp ha
    rw [hget₂, if_neg (ne_sp_of_mem hp), if_neg ha, hload p hp, hget, if_pos rfl]
    rfl
  · rw [hget₂, if_neg (by decide), if_pos rfl]
  · rw [hget₂, if_pos rfl]
  · intro r hr hreg
    have ha : r ≠ .a3 := by
      rintro rfl
      exact absurd hreg (by decide)
    rw [hget₂, if_neg hr, if_neg ha, hsame.reg r hreg, hget, if_neg hr]

/-! ## The count of traps -/

section Count

variable {x : Symbols}

/-- `h'` differs from `h` in some registers and in the count. -/
structure Counted (x : Symbols) (n : Word) (scratch : List Reg) (h h' : Hart) : Prop where
  mem : h'.mem = store h.mem x.tkmc_isr_depth (load h.mem x.tkmc_isr_depth + n)
  regs : ∀ r ∉ scratch, h'.get r = h.get r
  csr : h'.csr = h.csr
  pc : h'.pc = h.pc
  priv : h'.priv = h.priv

theorem entered (x : Symbols) (h : Hart) :
    Counted x 1 [.t0, .t1, .s0, .sp] h (execAll (ENTER_ISR x) h) ∧
      (execAll (ENTER_ISR x) h).get .s0 = h.get .sp ∧
      (execAll (ENTER_ISR x) h).get .sp = x._isr_stack_end := by
  refine ⟨⟨?_, ?_, rfl, rfl, rfl⟩, ?_, ?_⟩
  · simp [ENTER_ISR, execAll, Instr.exec, get_set, Hart.addr]
  · intro r hr
    simp only [List.mem_cons, List.not_mem_nil, or_false, not_or] at hr
    simp [ENTER_ISR, execAll, Instr.exec, get_set, hr]
  · simp [ENTER_ISR, execAll, Instr.exec, get_set]
  · simp [ENTER_ISR, execAll, Instr.exec, get_set]

theorem left (x : Symbols) (h : Hart) : Counted x (-1) [.t0, .t1] h (execAll (LEAVE_ISR x) h) := by
  let n := load h.mem x.tkmc_isr_depth
  have hexec : execAll (LEAVE_ISR x) h =
      (((h.set .t0 x.tkmc_isr_depth).set .t1 n).set .t1 (n + -1)).setMem (store h.mem x.tkmc_isr_depth (n + -1)) := by
    have himm : BitVec.ofInt 32 (-1) = -(1 : Word) := by decide
    have haddr : x.tkmc_isr_depth + BitVec.ofInt 32 0 = x.tkmc_isr_depth := BitVec.add_zero _
    simp only [LEAVE_ISR, execAll, List.foldl_cons, List.foldl_nil, Instr.exec, himm, Hart.addr, Rv32.mem_set]
    repeat rw [get_set (by decide)]
    simp only [reduceCtorEq, if_true, if_false, haddr]
    rfl
  refine ⟨?_, ?_, ?_, ?_, ?_⟩
  · rw [hexec, Rv32.mem_setMem]
  · intro r hr
    simp only [List.mem_cons, List.not_mem_nil, or_false, not_or] at hr
    rw [hexec, Rv32.get_setMem, get_set (by decide), get_set (by decide), get_set (by decide), if_neg hr.2,
      if_neg hr.2, if_neg hr.1]
  all_goals rw [hexec]; rfl

theorem Counted.same {n : Word} {scratch : List Reg} (hc : Counted x n scratch h h')
    (ha : Apart sp 128 x.tkmc_isr_depth 4) (hi : i < 32) : load h'.mem (word sp i) = load h.mem (word sp i) := by
  rw [hc.mem, load_store_apart (frame_words_apart ha hi).symm]

end Count

end TsukumoCore.Trap
