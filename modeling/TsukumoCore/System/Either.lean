import TsukumoCore.Either.EventFlags
import TsukumoCore.Either.Mailboxes
import TsukumoCore.Either.Semaphores
import TsukumoCore.System.Immediate

/-! # Producer and consumer in either order -/

namespace TsukumoCore

variable {b : Boot} {k kW : Kernel} {t : TskId} {w : WaitCall} {p : Call} {c : Context}

/-- A wait for ever that would be queued last, and the call that can satisfy it, from a handler or another
task: the two may come in either order. -/
theorem either_order (h : Reachable b k) (hcan : canCall k = true) (hblock : tkmc_can_block k k.mie = true)
    (ht : k.current = some t) (hp : Pairs t w p) (hc : c.Other t) (hlast : QueuedLast k t w)
    (hw : Performs b.entries k (.wait w) .wait kW) : EitherOrder b.entries k t w p c kW := by
  have hcaller := Caller.of_good h.inv.toGood hcan hblock ht
  cases hp with
  | sem => exact sem_either hcaller hlast hw
  | flg => exact flg_either hcaller hlast hw
  | mbx => exact mbx_either hcaller hlast hw
  | slp => exact slp_either hcaller hc hw

/-- A second request for two units, and a handler that signals one. -/
theorem either_order_requestRun : ∃ k kW, sampleRun (requestRun TA_CNT) = some k ∧
    Performs sampleBoot.entries k (.wait (.sem 1 2 TMO_FEVR)) .wait kW ∧
      EitherOrder sampleBoot.entries k 0 (.sem 1 2 TMO_FEVR) (.sig_sem 1 1) ⟨false, 1, some 0⟩ kW := by
  obtain ⟨k, hk, hcan, hblock, hcur, hatr, hflow⟩ := sampleRun_of_any (requestRun TA_CNT) (fun k =>
    canCall k = true ∧ tkmc_can_block k k.mie = true ∧ k.current = some 0 ∧ k.atr (.sem 0) = TA_CNT ∧
      (tk_wai_sem k 1 2 TMO_FEVR []).1 = .wait) (by decide +kernel)
  have hlast : QueuedLast k 0 (.sem 1 2 TMO_FEVR) := by
    intro o ho hpri
    obtain rfl : Obj.sem 0 = o := Option.some.inj ho
    exact absurd (show TA_CNT &&& TA_TPRI = 0 by decide) (hatr ▸ hpri)
  have hw : Performs sampleBoot.entries k (.wait (.sem 1 2 TMO_FEVR)) .wait
      (leave_call (tk_wai_sem k 1 2 TMO_FEVR []).2 (.wait (.sem 1 2 TMO_FEVR)) .wait) :=
    ⟨_, congrArg some (Prod.ext hflow rfl), rfl⟩
  exact ⟨k, _, hk, hw, either_order (sampleRun_reachable hk) hcan hblock hcur (.sem 1 2 1) (.inl (by decide))
    hlast hw⟩

end TsukumoCore
