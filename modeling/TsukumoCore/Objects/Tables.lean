import TsukumoCore.Objects.Serve

/-! # Allocating and freeing a control block -/

namespace TsukumoCore

variable {q : Tasks} {x x' : Objects} {o : Obj}

/-! ## IDs -/

theorem noexs_id (o : Obj) : noexs (BitVec.ofNat 32 o.id) = false := by
  cases o with
  | sem s => revert s; decide
  | flg f => revert f; decide
  | mbx m => revert m; decide

theorem id_toInt (o : Obj) : (BitVec.ofNat 32 o.id).toInt = o.id := by
  cases o with
  | sem s => revert s; decide
  | flg f => revert f; decide
  | mbx m => revert m; decide

theorem id_and (o : Obj) : BitVec.ofNat 32 o.id &&& ~~~NOEXS_MASK = BitVec.ofNat 32 o.id := by
  cases o with
  | sem s => revert s; decide
  | flg f => revert f; decide
  | mbx m => revert m; decide

theorem or_mask_and (id : UINT) : (id ||| NOEXS_MASK) &&& ~~~NOEXS_MASK = id &&& ~~~NOEXS_MASK := by
  ext i hi
  simp only [BitVec.getElem_and, BitVec.getElem_or, BitVec.getElem_not]
  cases id[i] <;> cases NOEXS_MASK[i] <;> rfl

theorem noexs_or_mask (id : UINT) : noexs (id ||| NOEXS_MASK) = true := by
  have h : (id ||| NOEXS_MASK) &&& NOEXS_MASK = NOEXS_MASK := by
    ext i hi
    simp only [BitVec.getElem_and, BitVec.getElem_or]
    cases id[i] <;> cases NOEXS_MASK[i] <;> rfl
  unfold noexs
  rw [h]
  decide

theorem tableEntry_succ {max : Nat} (i : Fin max) (id : Int) :
    tableEntry max id = some i ↔ id = i + 1 := by
  unfold tableEntry tkmc_id_in_range
  have hi := i.isLt
  split
  · rename_i h
    simp only [decide_eq_true_eq] at h
    simp only [Option.some.injEq, Fin.ext_iff]
    omega
  · rename_i h
    simp only [decide_eq_true_eq] at h
    simp only [reduceCtorEq, false_iff]
    omega

/-! ## Allocation -/

theorem Core.alloc (h : Core q x) (hfree : x.Free o)
    (hid : (x'.cb o).id = (x.cb o).id &&& ~~~NOEXS_MASK) (hother : ∀ o', o' ≠ o → x'.cb o' = x.cb o')
    (hfree' : ∀ o', x'.Free o' ↔ x.Free o' ∧ o' ≠ o) (hsem : x'.free_semcb.Nodup)
    (hflg : x'.free_flbcb.Nodup) (hmbx : x'.free_mbxcb.Nodup) (hrange : (x'.cb o).Range [])
    (hserved : (x'.cb o).Served []) :
    Core q x' ∧ ((∀ o', Served q x o') → ∀ o', Served q x' o') := by
  have hdead : ¬ x.Live o := (h.tables.free o).mp hfree
  have hempty : q.wait_queue o = [] := h.tables.empty o hdead
  have hnone : infos q o = [] := by simp [infos, waiters, hempty]
  have hid' : (x'.cb o).id = BitVec.ofNat 32 o.id := hid.trans (h.tables.id o)
  have hlive : x'.Live o := by rw [Objects.Live, hid']; exact noexs_id o
  have hsame : ∀ o', o' ≠ o → (x'.Live o' ↔ x.Live o') := by
    intro o' ho; simp only [Objects.Live, hother o' ho]
  refine ⟨⟨h.tasks, ⟨?_, ?_, hsem, hflg, hmbx, ?_⟩, ?_⟩, ?_⟩
  · intro o'
    by_cases ho : o' = o
    · subst ho; rw [hid', id_and]
    · rw [hother o' ho]; exact h.tables.id o'
  · intro o'
    rw [hfree']
    by_cases ho : o' = o
    · subst ho; simp [hlive]
    · rw [hsame o' ho, h.tables.free o']; simp [ho]
  · intro o' hdead'
    by_cases ho : o' = o
    · subst ho; exact hempty
    · exact h.tables.empty o' fun hl => hdead' ((hsame o' ho).mpr hl)
  · intro o' hl
    by_cases ho : o' = o
    · subst ho; rw [hnone]; exact hrange
    · rw [hother o' ho]; exact h.range o' ((hsame o' ho).mp hl)
  · intro hall o' hl
    by_cases ho : o' = o
    · subst ho; rw [hnone]; exact hserved
    · rw [hother o' ho]; exact hall o' ((hsame o' ho).mp hl)

theorem Core.dealloc (h : Core q x) (hempty : q.wait_queue o = [])
    (hid : (x'.cb o).id &&& ~~~NOEXS_MASK = BitVec.ofNat 32 o.id) (hdead : noexs (x'.cb o).id = true)
    (hother : ∀ o', o' ≠ o → x'.cb o' = x.cb o') (hfree' : ∀ o', x'.Free o' ↔ x.Free o' ∨ o' = o)
    (hsem : x'.free_semcb.Nodup) (hflg : x'.free_flbcb.Nodup) (hmbx : x'.free_mbxcb.Nodup) :
    Core q x' ∧ ((∀ o', o' ≠ o → Served q x o') → ∀ o', Served q x' o') := by
  have hnot : ¬ x'.Live o := by simp [Objects.Live, hdead]
  have hsame : ∀ o', o' ≠ o → (x'.Live o' ↔ x.Live o') := by
    intro o' ho; simp only [Objects.Live, hother o' ho]
  refine ⟨⟨h.tasks, ⟨?_, ?_, hsem, hflg, hmbx, ?_⟩, ?_⟩, ?_⟩
  · intro o'
    by_cases ho : o' = o
    · subst ho; exact hid
    · rw [hother o' ho]; exact h.tables.id o'
  · intro o'
    rw [hfree']
    by_cases ho : o' = o
    · subst ho; simp [hnot]
    · rw [hsame o' ho, h.tables.free o']; simp [ho]
  · intro o' hdead'
    by_cases ho : o' = o
    · subst ho; exact hempty
    · exact h.tables.empty o' fun hl => hdead' ((hsame o' ho).mpr hl)
  · intro o' hl
    by_cases ho : o' = o
    · subst ho; exact absurd hl hnot
    · rw [hother o' ho]; exact h.range o' ((hsame o' ho).mp hl)
  · intro hall o' hl
    by_cases ho : o' = o
    · subst ho; exact absurd hl hnot
    · rw [hother o' ho]; exact hall o' ho ((hsame o' ho).mp hl)

end TsukumoCore
