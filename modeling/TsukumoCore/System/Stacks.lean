import TsukumoCore.Kernel.Trap
import TsukumoCore.System.Created

/-!
# Stacks

The buffer that `tk_cre_tsk` accepts has room for the frame that `tk_sta_tsk` writes.
-/

namespace TsukumoCore

open Memory

variable {b : Boot} {k k' : Kernel} {t : TskId} {tskid stacd : Int} {pk : T_CTSK} {m : Mem} {sp : UINT}

/-! ## The writes -/

theorem fill_outside {n : Nat} {v x : Word} (hx : 128 ≤ (x - sp).toNat) (hn : n ≤ 32) (m : Mem) :
    (List.range n).foldl (fun m i => store m (word sp i) v) m x = m x := by
  induction n with
  | zero => rfl
  | succ n ih =>
    rw [List.range_succ, List.foldl_append]
    exact (store_word_outside (by omega) hx).trans (ih (by omega))

theorem load_fill {n i : Nat} {v : Word} (hi : i < n) (hn : n ≤ 32) (m : Mem) :
    load ((List.range n).foldl (fun m i => store m (word sp i) v) m) (word sp i) = v := by
  induction n with
  | zero => omega
  | succ n ih =>
    rw [List.range_succ, List.foldl_append]
    refine (load_store_word (by omega) (by omega)).trans ?_
    split
    · rfl
    · exact ih (by omega) (by omega)

theorem write_frame_load (m : Mem) (sp ext task exinf : UINT) (stacd : Int) :
    InMemory (write_frame m sp ext task exinf stacd) sp (initialFrame ext task exinf stacd) := by
  intro i
  have hi := i.isLt
  have hra : registers.idxOf .ra = 0 := by decide
  have ha0 : registers.idxOf .a0 = 6 := by decide
  have ha1 : registers.idxOf .a1 = 7 := by decide
  have hlen : registers.length = 28 := by decide
  unfold write_frame initialFrame
  simp only [hra, ha0, ha1, hlen]
  repeat rw [load_store_word (by omega) (by omega)]
  rw [load_fill hi (by omega)]
  have h0 : i = 0 ↔ i.val = 0 := Fin.ext_iff
  have h6 : i = 6 ↔ i.val = 6 := Fin.ext_iff
  have h7 : i = 7 ↔ i.val = 7 := Fin.ext_iff
  have h28 : i = 28 ↔ i.val = 28 := Fin.ext_iff
  simp only [h0, h6, h7, h28]
  split_ifs <;> first | rfl | omega

theorem write_frame_outside {ext task exinf x : UINT} (hx : 128 ≤ (x - sp).toNat) :
    write_frame m sp ext task exinf stacd x = m x := by
  unfold write_frame
  have hra : registers.idxOf .ra = 0 := by decide
  have ha0 : registers.idxOf .a0 = 6 := by decide
  have ha1 : registers.idxOf .a1 = 7 := by decide
  have hlen : registers.length = 28 := by decide
  simp only [hra, ha0, ha1, hlen]
  rw [store_word_outside (by omega) hx, store_word_outside (by omega) hx, store_word_outside (by omega) hx,
    store_word_outside (by omega) hx]
  exact fill_outside hx (by omega) m

/-! ## The buffer -/

/-- What the checks of `tk_cre_tsk` make sure of. -/
structure Roomy (pk : T_CTSK) : Prop where
  atr : pk.tskatr &&& ~~~VALID_TSKATR = 0
  userbuf : pk.tskatr &&& TA_USERBUF ≠ 0
  task : pk.task ≠ NULL
  bufptr : pk.bufptr ≠ NULL
  priority : 1 ≤ pk.itskpri ∧ pk.itskpri ≤ CFN_MAX_PRI
  size : 128 < pk.stksz
  fits : pk.bufptr.toNat + pk.stksz ≤ 2 ^ 32 - 1
  aligned : (pk.bufptr.toNat + pk.stksz) % 16 = 0

theorem stksz_toNat (hpos : 0 ≤ pk.stksz) (hsz : pk.stksz < 2 ^ 31) :
    (BitVec.ofInt 32 pk.stksz).toNat = pk.stksz.toNat := by
  rw [BitVec.toNat_ofInt]
  omega

theorem stackEnd_toNat (h : Roomy pk) (hsz : pk.stksz < 2 ^ 31) :
    (pk.stackEnd.toNat : Int) = pk.bufptr.toNat + pk.stksz := by
  have hsize := h.size
  have hfits := h.fits
  have htoNat := stksz_toNat (by omega) hsz
  unfold T_CTSK.stackEnd
  rw [BitVec.toNat_add, htoNat]
  omega

theorem wraps_iff (hpos : 0 ≤ pk.stksz) (hsz : pk.stksz < 2 ^ 31) :
    BitVec.ofInt 32 pk.stksz > BitVec.allOnes 32 - pk.bufptr ↔ 2 ^ 32 - 1 < pk.bufptr.toNat + pk.stksz := by
  have htoNat := stksz_toNat hpos hsz
  have hlt := pk.bufptr.isLt
  have hsub : (BitVec.allOnes 32 - pk.bufptr).toNat = 2 ^ 32 - 1 - pk.bufptr.toNat := by
    rw [BitVec.toNat_sub, BitVec.toNat_allOnes]
    omega
  rw [gt_iff_lt, BitVec.lt_def, hsub, htoNat]
  omega

theorem check_ctsk_iff (hsz : pk.stksz < 2 ^ 31) : check_ctsk pk = .ok pk.stackEnd ↔ Roomy pk := by
  have haligned : 128 < pk.stksz → pk.bufptr.toNat + pk.stksz ≤ 2 ^ 32 - 1 →
      (pk.stackEnd % STACK_ALIGN = 0 ↔ (pk.bufptr.toNat + pk.stksz) % 16 = 0) := by
    intro hsize hfits
    have htoNat := stksz_toNat (by omega) hsz
    unfold T_CTSK.stackEnd STACK_ALIGN
    rw [← BitVec.toNat_inj, BitVec.toNat_umod, BitVec.toNat_add, htoNat]
    show (pk.bufptr.toNat + pk.stksz.toNat) % 2 ^ 32 % 16 = 0 ↔ _
    omega
  have h128 : (sizeofStashedRegisters.toNat : Int) = 128 := rfl
  unfold check_ctsk
  simp only [h128]
  constructor
  · intro h
    split at h
    · exact absurd h (by simp)
    rename_i hatr
    split at h
    · exact absurd h (by simp)
    rename_i huser
    split at h
    · exact absurd h (by simp)
    rename_i hnull
    split at h
    · exact absurd h (by simp)
    rename_i hpri
    split at h
    · exact absurd h (by simp)
    rename_i hsize
    split at h
    · exact absurd h (by simp)
    rename_i hfits
    rw [wraps_iff (by omega) hsz] at hfits
    split at h
    · exact absurd h (by simp)
    rename_i hal
    refine ⟨by simpa using hatr, huser, fun hz => hnull (.inl hz), fun hz => hnull (.inr hz), ?_, by omega,
      by omega, ?_⟩
    · simp only [CFN_MAX_PRI] at *
      omega
    · exact (haligned (by omega) (by omega)).mp (not_not.mp hal)
  · intro h
    have hpri := h.priority
    have hsize := h.size
    have hfits := h.fits
    have hal : pk.bufptr + BitVec.ofInt 32 pk.stksz = pk.stackEnd := rfl
    rw [hal, if_neg (by rw [h.atr]; simp), if_neg h.userbuf,
      if_neg (by rintro (hz | hz); exacts [h.task hz, h.bufptr hz]), if_neg (by omega), if_neg (by omega),
      if_neg (by rw [wraps_iff (by omega) hsz]; omega),
      if_neg (not_not.mpr ((haligned hsize hfits).mpr h.aligned))]

theorem frame_inside (h : Roomy pk) (hsz : pk.stksz < 2 ^ 31) {x : UINT}
    (hx : (x.toNat : Int) < pk.bufptr.toNat ∨ pk.bufptr.toNat + pk.stksz ≤ x.toNat) :
    128 ≤ (x - (pk.stackEnd - sizeofStashedRegisters)).toNat := by
  have hend := stackEnd_toNat h hsz
  have hsize := h.size
  have hfits := h.fits
  unfold sizeofStashedRegisters
  bv_omega

/-! ## The calls -/

theorem cre_tsk_stack (h : Reachable b k) (hsz : pk.stksz < 2 ^ 31) {id : Int}
    (hok : tk_cre_tsk k (some pk) = ({ ercd := .E_OK, id := id }, k')) :
    ∃ t : TskId, id = t + 1 ∧ Roomy pk ∧ MadeFrom (k'.tcbs t) pk := by
  obtain ⟨t, pk', stack_end, hpk, hcheck, heq⟩ := tk_cre_tsk_ok h.inv.core (congrArg (·.1.ercd) hok)
  obtain rfl := Option.some.inj hpk
  obtain rfl := check_ctsk_ok hcheck
  obtain ⟨hret, rfl⟩ := Prod.mk.inj (heq.symm.trans hok)
  refine ⟨t, (congrArg Ret.id hret).symm, (check_ctsk_iff hsz).mp hcheck, ?_⟩
  constructor <;> simp [Kernel.tasks, Move.effect, hcheck]

theorem sta_tsk_stack (h : Reachable b k) (ht : tableEntry CFN_MAX_TSKID tskid = some t)
    (hpk : packet b k.log t = some pk) (hok : tk_sta_tsk b.entries k tskid stacd = (.E_OK, k')) :
    MadeFrom (k.tcbs t) pk ∧ (k'.tcbs t).sp = (k.tcbs t).initial_sp ∧
      k'.stack = Function.update k.stack t
        (initialFrame b.entries.tk_ext_tsk (k.tcbs t).task (k.tcbs t).exinf stacd) := by
  obtain ⟨u, hu⟩ := h.inv.sched.current
  have hcur : k.current ≠ none := by simp [hu]
  have hdmt := tk_sta_tsk_dormant (congrArg Prod.fst hok) ht
  obtain ⟨pk', hpk', hmade⟩ := h.createdOk t (by rw [hdmt]; simp)
  obtain rfl : pk = pk' := Option.some.inj (hpk.symm.trans hpk')
  rw [tk_sta_tsk_eq h.inv.core.tasks.toPlaced ht hdmt, dispatch_if_needed_eq (k := k.DI.tasks _) hcur] at hok
  obtain rfl := (Prod.mk.inj hok).2
  rw [EI_toTasks, request_switch_toTasks]
  exact ⟨hmade, by simp [Kernel.tasks, Move.effect], rfl⟩

/-- A stack that is accepted holds the first frame. The size is one that an `SZ` holds. -/
theorem accepted_stack_holds_frame (h : Reachable b k) (pk : T_CTSK) (hsz : pk.stksz < 2 ^ 31) :
    (∀ id k', tk_cre_tsk k (some pk) = ({ ercd := .E_OK, id := id }, k') →
      ∃ t : TskId, id = t + 1 ∧ (k'.tcbs t).initial_sp.toNat % 16 = 0 ∧
        pk.bufptr.toNat < (k'.tcbs t).initial_sp.toNat ∧
        ((k'.tcbs t).initial_sp.toNat : Int) + 128 = pk.bufptr.toNat + pk.stksz ∧
        (k'.tcbs t).initial_sp.toNat + 128 < 2 ^ 32 ∧
        1 ≤ (k'.tcbs t).itskpri ∧ (k'.tcbs t).itskpri ≤ CFN_MAX_PRI) ∧
    (∀ tskid t stacd k', tableEntry CFN_MAX_TSKID tskid = some t → packet b k.log t = some pk →
      tk_sta_tsk b.entries k tskid stacd = (.E_OK, k') →
      (∀ u, u ≠ t → k'.stack u = k.stack u) ∧
      ∀ m : Mem, ∃ m', m' = write_frame m (k'.tcbs t).sp b.entries.tk_ext_tsk (k.tcbs t).task (k.tcbs t).exinf stacd ∧
        InMemory m' (k'.tcbs t).sp (k'.stack t) ∧
        ∀ x : UINT, (x.toNat : Int) < pk.bufptr.toNat ∨ pk.bufptr.toNat + pk.stksz ≤ x.toNat → m' x = m x) ∧
    (Roomy pk → k.free_tcb ≠ [] → (tk_cre_tsk k (some pk)).1.ercd = .E_OK ∧ 0 < (tk_cre_tsk k (some pk)).1.id) := by
  refine ⟨?_, ?_, ?_⟩
  · intro id k' hok
    obtain ⟨t, hid, hroomy, hmade⟩ := cre_tsk_stack h hsz hok
    have hend := stackEnd_toNat hroomy hsz
    have hsize := hroomy.size
    have hfits := hroomy.fits
    have haligned := hroomy.aligned
    have hsp : ((k'.tcbs t).initial_sp.toNat : Int) + 128 = pk.bufptr.toNat + pk.stksz := by
      rw [hmade.initial_sp]
      unfold sizeofStashedRegisters
      bv_omega
    refine ⟨t, hid, by omega, by omega, hsp, by omega, ?_⟩
    rw [hmade.itskpri]
    exact hroomy.priority
  · intro tskid t stacd k' ht hpk hok
    obtain ⟨hmade, hsp, hstack⟩ := sta_tsk_stack h ht hpk hok
    have hroomy := (check_ctsk_iff hsz).mp hmade.accepted
    refine ⟨?_, ?_⟩
    · intro u hu
      rw [hstack, Function.update_of_ne hu]
    · intro m
      refine ⟨_, rfl, ?_, ?_⟩
      · rw [hstack, Function.update_self]
        exact write_frame_load _ _ _ _ _ _
      · intro x hx
        apply write_frame_outside
        rw [hsp, hmade.initial_sp]
        exact frame_inside hroomy hsz hx
  · intro hroomy hfree
    obtain ⟨t, rest, hfree⟩ := List.exists_cons_of_ne_nil hfree
    rw [cre_tsk_eq h.inv.core.tasks.toPlaced hfree ((check_ctsk_iff hsz).mpr hroomy)]
    refine ⟨rfl, ?_⟩
    show 0 < (t : Int) + 1
    omega

theorem accepted_stack_holds_frame_samplePacket : ∃ k k', sampleRun [] = some k ∧
    tk_cre_tsk k (some samplePacket) = ({ ercd := .E_OK, id := 3 }, k') ∧
    ((k'.tcbs 2).initial_sp.toNat : Int) + 128 = 0x80020000 + 512 := by
  obtain ⟨k, hk, hok⟩ := sampleRun_of_any []
    (fun k => (tk_cre_tsk k (some samplePacket)).1 = { ercd := .E_OK, id := 3 }) (by decide +kernel)
  have hcre : tk_cre_tsk k (some samplePacket) =
      ({ ercd := .E_OK, id := 3 }, (tk_cre_tsk k (some samplePacket)).2) := Prod.ext hok rfl
  obtain ⟨t, hid, -, -, hsp, -⟩ :=
    (accepted_stack_holds_frame (sampleRun_reachable hk) samplePacket (by decide)).1 _ _ hcre
  obtain rfl : t = 2 := by
    rw [Fin.ext_iff]
    have htwo : (2 : TskId).val = 2 := rfl
    omega
  exact ⟨k, _, hk, hcre, hsp⟩

end TsukumoCore
