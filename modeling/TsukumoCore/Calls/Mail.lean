import TsukumoCore.Calls.Attributes

/-!
# What the calls do to the message queues

`tk_snd_mbx` puts the message in the queue of `mailTo`, and `tk_rcv_mbx` takes the first one out of the queue
of `mailFrom`. In every other case they leave the table of mailboxes as it is.
-/

namespace TsukumoCore

variable {e : Entries} {k k' : Kernel} {m : MbxId} {mbxid tmout : Int} {pk_msg ppk_msg : UINT} {times : List Nat}

/-- The message is accepted and nobody waits for it. -/
def Kernel.mailTo (k : Kernel) (mbxid : Int) (pk_msg : UINT) : Option MbxId :=
  (tableEntry CFN_MAX_MBXID mbxid).filter fun m => decide (pk_msg ≠ NULL ∧ noexs (k.mbxcbs m).mbxid = false ∧
    ¬ ((k.mbxcbs m).mbxatr &&& TA_MPRI ≠ 0 ∧ k.msgpri pk_msg ≤ 0) ∧ k.wait_queue (.mbx m) = [])

/-- The call is accepted. -/
def Kernel.mailFrom (k : Kernel) (mbxid : Int) (ppk_msg : UINT) (tmout : Int) : Option MbxId :=
  (tableEntry CFN_MAX_MBXID mbxid).filter fun m => decide (ppk_msg ≠ NULL ∧ TMO_FEVR ≤ tmout ∧
    tkmc_can_block k k.mie = true ∧ noexs (k.mbxcbs m).mbxid = false)

/-- The queue with the message in its place. -/
def MBXCB.insert (cb : MBXCB) (msgpri : UINT → Int) (msg : UINT) : List UINT :=
  if cb.mbxatr &&& TA_MPRI ≠ 0 then insert_msg_pri msgpri cb.mbx_queue msg else insert_msg_fifo cb.mbx_queue msg

def Standing.setQueue (x : Standing) (m : MbxId) (queue : List UINT) : Standing :=
  { x with mbxcbs := Function.update x.mbxcbs m { x.mbxcbs m with mbx_queue := queue } }

theorem mbxcbs_setQueue {queue : List UINT} (h : k'.standing = k.standing.setQueue m queue) :
    k'.mbxcbs m = { k.mbxcbs m with mbx_queue := queue } ∧ (∀ m', m' ≠ m → k'.mbxcbs m' = k.mbxcbs m') ∧
      k'.msgpri = k.msgpri := by
  have hcbs : k'.mbxcbs = Function.update k.mbxcbs m { k.mbxcbs m with mbx_queue := queue } :=
    congrArg Standing.mbxcbs h
  refine ⟨by rw [hcbs, Function.update_self], fun m' hm => ?_, congrArg Standing.msgpri h⟩
  rw [hcbs, Function.update_of_ne hm]

theorem mailTo_eq_some : k.mailTo mbxid pk_msg = some m ↔ tableEntry CFN_MAX_MBXID mbxid = some m ∧
    pk_msg ≠ NULL ∧ noexs (k.mbxcbs m).mbxid = false ∧
    ¬ ((k.mbxcbs m).mbxatr &&& TA_MPRI ≠ 0 ∧ k.msgpri pk_msg ≤ 0) ∧ k.wait_queue (.mbx m) = [] := by
  unfold Kernel.mailTo
  rw [Option.filter_eq_some_iff, decide_eq_true_iff]

theorem mailFrom_eq_some : k.mailFrom mbxid ppk_msg tmout = some m ↔ tableEntry CFN_MAX_MBXID mbxid = some m ∧
    ppk_msg ≠ NULL ∧ TMO_FEVR ≤ tmout ∧ tkmc_can_block k k.mie = true ∧ noexs (k.mbxcbs m).mbxid = false := by
  unfold Kernel.mailFrom
  rw [Option.filter_eq_some_iff, decide_eq_true_iff]

theorem mailTo_eq_none (he : tableEntry CFN_MAX_MBXID mbxid = some m)
    (h : pk_msg = NULL ∨ noexs (k.mbxcbs m).mbxid = true ∨
      (k.mbxcbs m).mbxatr &&& TA_MPRI ≠ 0 ∧ k.msgpri pk_msg ≤ 0 ∨ k.wait_queue (.mbx m) ≠ []) :
    k.mailTo mbxid pk_msg = none := by
  rw [Option.eq_none_iff_forall_ne_some]
  intro m' hm'
  obtain ⟨he', hnull, hexs, hpri, hq⟩ := mailTo_eq_some.mp hm'
  obtain rfl : m = m' := Option.some.inj (he.symm.trans he')
  rcases h with h | h | h | h
  · exact hnull h
  · exact absurd (h.symm.trans hexs) (by simp)
  · exact hpri h
  · exact h hq

theorem mailFrom_eq_none (he : tableEntry CFN_MAX_MBXID mbxid = some m)
    (h : ppk_msg = NULL ∨ tmout < TMO_FEVR ∨ tkmc_can_block k k.mie = false ∨ noexs (k.mbxcbs m).mbxid = true) :
    k.mailFrom mbxid ppk_msg tmout = none := by
  rw [Option.eq_none_iff_forall_ne_some]
  intro m' hm'
  obtain ⟨he', hnull, htmo, hblock, hexs⟩ := mailFrom_eq_some.mp hm'
  obtain rfl : m = m' := Option.some.inj (he.symm.trans he')
  rcases h with h | h | h | h
  · exact hnull h
  · omega
  · exact absurd (h.symm.trans hblock) (by simp)
  · exact absurd (h.symm.trans hexs) (by simp)

theorem tk_snd_mbx_standing (h : Core k.toTasks k.toObjects) (mbxid : Int) (pk_msg : UINT) :
    (tk_snd_mbx k mbxid pk_msg).2.standing =
      match k.mailTo mbxid pk_msg with
      | none => k.standing
      | some m => k.standing.setQueue m ((k.mbxcbs m).insert k.msgpri pk_msg) := by
  unfold tk_snd_mbx
  cases he : tableEntry CFN_MAX_MBXID mbxid with
  | none => simp [Kernel.mailTo, he]
  | some m =>
    dsimp only
    split
    · rename_i hnull
      rw [mailTo_eq_none he (.inl hnull)]
    rename_i hnull
    split
    · rename_i hexs
      rw [mailTo_eq_none (k := k) he (.inr (.inl hexs))]
      rfl
    rename_i hexs
    split
    · rename_i hpri
      rw [mailTo_eq_none (k := k) he (.inr (.inr (.inl hpri)))]
      rfl
    rename_i hpri
    cases hq : k.wait_queue (.mbx m) with
    | nil =>
      have hto : k.mailTo mbxid pk_msg = some m := mailTo_eq_some.mpr ⟨he, hnull, Bool.eq_false_iff.mpr hexs, hpri, hq⟩
      rw [hto, pop_none (k := k.DI) hq]
      rfl
    | cons t rest =>
      rw [mailTo_eq_none he (.inr (.inr (.inr (by simp [hq])))), pop_some (k := k.DI) h hq]
      simp

theorem tk_rcv_mbx_standing (k : Kernel) (mbxid : Int) (ppk_msg : UINT) (tmout : Int) (times : List Nat) :
    (tk_rcv_mbx k mbxid ppk_msg tmout times).2.standing =
      match k.mailFrom mbxid ppk_msg tmout with
      | none => k.standing
      | some m => k.standing.setQueue m (k.mbxcbs m).mbx_queue.tail := by
  have hsame : ∀ m, (k.mbxcbs m).mbx_queue = [] → k.standing = k.standing.setQueue m (k.mbxcbs m).mbx_queue.tail := by
    intro m hq
    have hcb : { k.mbxcbs m with mbx_queue := [] } = k.mbxcbs m := by rw [← hq]
    simp only [Standing.setQueue, Kernel.standing, hq, List.tail_nil, hcb, Function.update_eq_self]
  unfold tk_rcv_mbx
  cases he : tableEntry CFN_MAX_MBXID mbxid with
  | none => simp [Kernel.mailFrom, he]
  | some m =>
    dsimp only
    split
    · rename_i hpar
      rw [mailFrom_eq_none he (by tauto)]
    rename_i hpar
    split
    · rename_i hblock
      have hblock' : tkmc_can_block k.DI k.mie = false := by simpa using hblock
      rw [mailFrom_eq_none (k := k) he (.inr (.inr (.inl hblock')))]
      rfl
    rename_i hblock
    have hblock' : tkmc_can_block k.DI k.mie = true := by simpa using hblock
    split
    · rename_i hexs
      rw [mailFrom_eq_none (k := k) he (.inr (.inr (.inr hexs)))]
      rfl
    rename_i hexs
    have hfrom : k.mailFrom mbxid ppk_msg tmout = some m :=
      mailFrom_eq_some.mpr ⟨he, by tauto, by omega, hblock', Bool.eq_false_iff.mpr hexs⟩
    rw [hfrom]
    dsimp only
    split
    · rename_i msg rest hq
      have hq' : (k.mbxcbs m).mbx_queue = msg :: rest := hq
      rw [hq']
      rfl
    · rename_i hq
      rw [← hsame m hq]
      split
      · rfl
      split
      · rfl
      · simp

/-! ## Creation and deletion -/

def Standing.setMbx (x : Standing) (m : MbxId) (cb : MBXCB) : Standing :=
  { x with mbxcbs := Function.update x.mbxcbs m cb }

theorem tk_cre_mbx_standing (h : Core k.toTasks k.toObjects) (pk_cmbx : Option T_CMBX) :
    ((tk_cre_mbx k pk_cmbx).1.ercd ≠ .E_OK ∧ (tk_cre_mbx k pk_cmbx).2 = k) ∨
    ∃ m rest cb, k.free_mbxcb = m :: rest ∧ (tk_cre_mbx k pk_cmbx).1.ercd = .E_OK ∧
      (tk_cre_mbx k pk_cmbx).1.id = m + 1 ∧ cb.mbx_queue = [] ∧
      (tk_cre_mbx k pk_cmbx).2.standing = k.standing.setMbx m cb ∧
      (tk_cre_mbx k pk_cmbx).2.wait_queue (.mbx m) = [] := by
  unfold tk_cre_mbx
  split
  · exact .inl ⟨by simp, rfl⟩
  rename_i pk
  split
  · exact .inl ⟨by simp, rfl⟩
  dsimp only
  split
  · exact .inl ⟨by simp, DI_EI k⟩
  · rename_i m rest hfree
    have hid : ((k.mbxcbs m).mbxid &&& ~~~NOEXS_MASK).toInt = m + 1 := by
      have := id_toInt (.mbx m)
      rw [← h.tables.id (.mbx m)] at this
      exact this
    refine .inr ⟨m, rest, { mbx_queue := [], mbxid := _, exinf := pk.exinf, mbxatr := pk.mbxatr }, hfree, rfl, hid,
      rfl, rfl, ?_⟩
    simp [Kernel.EI, Kernel.setMbx]

theorem tk_del_mbx_standing (h : Core k.toTasks k.toObjects) (mbxid : Int) :
    ((tk_del_mbx k mbxid).1 ≠ .E_OK ∧ (tk_del_mbx k mbxid).2 = k) ∨
    ∃ m, tableEntry CFN_MAX_MBXID mbxid = some m ∧ k.Live (.mbx m) ∧ (tk_del_mbx k mbxid).1 = .E_OK ∧
      (tk_del_mbx k mbxid).2.standing = k.standing.setMbx m
        { mbx_queue := [], mbxid := BitVec.ofInt 32 mbxid ||| NOEXS_MASK, exinf := NULL, mbxatr := 0 } ∧
      (tk_del_mbx k mbxid).2.wait_queue (.mbx m) = [] := by
  unfold tk_del_mbx
  split
  · exact .inl ⟨by simp, rfl⟩
  rename_i m he
  dsimp only
  split
  · exact .inl ⟨by simp, DI_EI k⟩
  rename_i hexs
  have hlive : k.Live (.mbx m) := by simpa [Objects.Live, Objects.cb, CB.id] using hexs
  obtain ⟨-, hempty, -, hobj⟩ := delete_walk_spec (k := k.DI) (m := m)
    ((k.DI.wait_queue (.mbx m)).length + 1) h (by omega)
  generalize delete_walk m ((k.DI.wait_queue (.mbx m)).length + 1) k.DI = k1 at *
  have hk1 : k1.standing = k.standing := standing_of_objects hobj
  refine .inr ⟨m, he, hlive, rfl, ?_, ?_⟩
  · rw [EI_standing, dispatch_if_needed_standing, ← hk1]
    rfl
  · unfold dispatch_if_needed
    split
    · simp [Kernel.EI]
    · rw [EI_toTasks]
      simp [request_switch_toTasks]

/-! ## The attributes over a step -/

def Standing.atr (x : Standing) : Obj → ATR
  | .sem s => x.sematr s
  | .flg f => x.flgatr f
  | .mbx m => (x.mbxcbs m).mbxatr

theorem standing_atr (k : Kernel) (o : Obj) : k.standing.atr o = k.atr o := by
  cases o <;> rfl

theorem Standing.atr_setQueue (x : Standing) (m : MbxId) (queue : List UINT) (o : Obj) :
    (x.setQueue m queue).atr o = x.atr o := by
  cases o with
  | mbx m' =>
    by_cases hm : m' = m
    · subst hm; simp [Standing.atr, Standing.setQueue]
    · simp [Standing.atr, Standing.setQueue, hm]
  | _ => rfl

theorem Standing.atr_setMbx (x : Standing) (cb : MBXCB) {o : Obj} (ho : o ≠ .mbx m) :
    (x.setMbx m cb).atr o = x.atr o := by
  cases o with
  | mbx m' =>
    have hm : m' ≠ m := fun heq => ho (by rw [heq])
    simp [Standing.atr, Standing.setMbx, hm]
  | _ => rfl

theorem exec_atr (h : Core k.toTasks k.toObjects) {c : Call} {flow : Flow} (hx : exec e k times c = some (flow, k'))
    (o : Obj) : k'.atr o = k.atr o ∨ k'.wait_queue o = [] := by
  by_cases hc : c.rearranges = false
  · left
    rw [← standing_atr, exec_standing hc hx, standing_atr]
  cases c with
  | cre_sem pk =>
    obtain ⟨-, rfl⟩ : _ ∧ (tk_cre_sem k pk).2 = k' := by simpa [exec] using hx
    cases o with
    | sem s => exact tk_cre_sem_sematrs k pk s
    | _ =>
      left
      rw [← standing_atr, tk_cre_sem_standing]
      rfl
  | del_sem semid =>
    obtain ⟨-, rfl⟩ : _ ∧ (tk_del_sem k semid).2 = k' := by simpa [exec] using hx
    cases o with
    | sem s => exact tk_del_sem_sematrs h semid s
    | _ =>
      left
      rw [← standing_atr, tk_del_sem_standing h]
      rfl
  | cre_flg pk =>
    obtain ⟨-, rfl⟩ : _ ∧ (tk_cre_flg k pk).2 = k' := by simpa [exec] using hx
    cases o with
    | flg f => exact tk_cre_flg_flgatr k pk f
    | _ =>
      left
      rw [← standing_atr, tk_cre_flg_standing]
      rfl
  | cre_mbx pk =>
    obtain ⟨-, rfl⟩ : _ ∧ (tk_cre_mbx k pk).2 = k' := by simpa [exec] using hx
    rcases tk_cre_mbx_standing h pk with ⟨-, hsame⟩ | ⟨m, rest, cb, -, -, -, -, hst, hempty⟩
    · exact .inl (by rw [hsame])
    · by_cases ho : o = .mbx m
      · exact .inr (ho ▸ hempty)
      · left
        rw [← standing_atr, hst, Standing.atr_setMbx _ _ ho, standing_atr]
  | del_mbx mbxid =>
    obtain ⟨-, rfl⟩ : _ ∧ (tk_del_mbx k mbxid).2 = k' := by simpa [exec] using hx
    rcases tk_del_mbx_standing h mbxid with ⟨-, hsame⟩ | ⟨m, -, -, -, hst, hempty⟩
    · exact .inl (by rw [hsame])
    · by_cases ho : o = .mbx m
      · exact .inr (ho ▸ hempty)
      · left
        rw [← standing_atr, hst, Standing.atr_setMbx _ _ ho, standing_atr]
  | snd_mbx mbxid pk_msg =>
    obtain ⟨-, rfl⟩ : _ ∧ (tk_snd_mbx k mbxid pk_msg).2 = k' := by simpa [exec] using hx
    left
    rw [← standing_atr, tk_snd_mbx_standing h]
    split
    · exact standing_atr k o
    · rw [Standing.atr_setQueue, standing_atr]
  | wait w =>
    cases w with
    | mbx mbxid ppk_msg tmout =>
      obtain ⟨-, rfl⟩ : _ ∧ (tk_rcv_mbx k mbxid ppk_msg tmout times).2 = k' := by
        simpa [exec, Prod.ext_iff] using hx
      left
      rw [← standing_atr, tk_rcv_mbx_standing]
      split
      · exact standing_atr k o
      · rw [Standing.atr_setQueue, standing_atr]
    | _ => exact absurd rfl hc
  | _ => exact absurd rfl hc

theorem step_atr (h : Core k.toTasks k.toObjects) {a : Act} (hk : step e k a = some k') (o : Obj) :
    k'.atr o = k.atr o ∨ k'.wait_queue o = [] := by
  by_cases ha : a.rearranges = false
  · left
    rw [← standing_atr, step_standing ha hk, standing_atr]
  cases a with
  | call c times =>
    simp only [step, Option.ite_none_right_eq_some, Option.map_eq_some_iff] at hk
    obtain ⟨-, ⟨flow, k1⟩, hx, rfl⟩ := hk
    rw [leave_call_queue, ← standing_atr, leave_call_standing, standing_atr]
    exact exec_atr h hx o
  | set_msgpri msg msgpri =>
    left
    rw [← Option.some.inj hk]
    cases o <;> rfl
  | _ => exact absurd rfl ha

end TsukumoCore
