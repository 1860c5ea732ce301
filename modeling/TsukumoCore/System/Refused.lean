import TsukumoCore.Calls.Refused
import TsukumoCore.Either.Order
import TsukumoCore.System.Boot

/-! # A refused call changes nothing -/

namespace TsukumoCore

variable {b : Boot} {k : Kernel}

/-- **A refused call changes nothing**, in any context, and every call leaves the interrupt flag as it found it.
A call of the kernel cannot reach the table of interrupt handlers, and `tk_def_int` nothing else. -/
theorem refused_changes_nothing (h : Reachable b k) (c : Context) :
    (∀ call times flow k', exec b.entries (k.within c) times call = some (flow, k') →
      Answers (k.within c) flow k') ∧
    (∀ t w, (exec_end (k.within c) t w).2.mie = (k.within c).mie) ∧
    (tkmc_yield (k.within c)).mie = (k.within c).mie ∧
    ∀ x intno pk_dint, (tk_def_int (k.within c) x intno pk_dint).2.1 = k.within c ∧
      ((tk_def_int (k.within c) x intno pk_dint).1 ≠ .E_OK →
        (tk_def_int (k.within c) x intno pk_dint).2.2 = x) := by
  refine ⟨?_, exec_end_mie _, tkmc_yield_mie _, tk_def_int_answers _⟩
  intro call times flow k' hx
  exact exec_answers (k := k.within c) h.inv.core hx

/-- A handler that asks for a unit is refused. -/
theorem refused_changes_nothing_handler : ∃ k k', sampleRun
      [.call (.cre_sem (some { exinf := 0, sematr := 0, isemcnt := 1, maxsem := 1 })) []] = some k ∧
    exec sampleBoot.entries (k.within ⟨true, 1, some 0⟩) [] (.wait (.sem 1 1 TMO_FEVR)) =
      some (.ret { ercd := .E_CTX }, k') ∧
    k' = k.within ⟨true, 1, some 0⟩ := by
  obtain ⟨k, hk, hflow⟩ := sampleRun_of_any
    [.call (.cre_sem (some { exinf := 0, sematr := 0, isemcnt := 1, maxsem := 1 })) []] (fun k =>
      (tk_wai_sem (k.within ⟨true, 1, some 0⟩) 1 1 TMO_FEVR []).1 = .ret { ercd := .E_CTX }) (by decide +kernel)
  have hx : exec sampleBoot.entries (k.within ⟨true, 1, some 0⟩) [] (.wait (.sem 1 1 TMO_FEVR)) =
      some (.ret { ercd := .E_CTX }, (tk_wai_sem (k.within ⟨true, 1, some 0⟩) 1 1 TMO_FEVR []).2) :=
    congrArg some (Prod.ext hflow rfl)
  have hanswers := (refused_changes_nothing (sampleRun_reachable hk) ⟨true, 1, some 0⟩).1 _ _ _ _ hx
  exact ⟨k, _, hk, hx, (hanswers.refused _ rfl (by simp)).1⟩

end TsukumoCore
