import TsukumoCore.Tasks.Frames
import TsukumoCore.Lib.Ledger

/-!
# What the log says about units and messages

The units of a semaphore and the copies of a message in a mailbox, as the calls and the ends of waits on
record leave them.
-/

namespace TsukumoCore

/-! ## The units of a semaphore -/

/-- What a signal that succeeded adds. -/
def signalled (s : SemId) : Event → Int
  | .ret (.sig_sem semid cnt) r =>
    if r.ercd = .E_OK ∧ tableEntry CFN_MAX_SEMID semid = some s then cnt else 0
  | _ => 0

/-- What a request that was granted takes, at once or at the end of its wait. -/
def granted (s : SemId) : Event → Int
  | .ret (.wait (.sem semid cnt _)) r =>
    if r.ercd = .E_OK ∧ tableEntry CFN_MAX_SEMID semid = some s then cnt else 0
  | .complete _ (some (.wait (.sem semid cnt _))) cause _ =>
    if cause = .E_OK ∧ tableEntry CFN_MAX_SEMID semid = some s then cnt else 0
  | _ => 0

/-- The count a creation gives the semaphore. -/
def createdSem (s : SemId) : Event → Option Int
  | .ret (.cre_sem (some pk)) r => if r.ercd = .E_OK ∧ r.id = s + 1 then some pk.isemcnt else none
  | _ => none

theorem createdSem_self {s : SemId} (pk : T_CSEM) {r : Ret} (hr : r.ercd = .E_OK) (hid : r.id = s + 1) :
    createdSem s (.ret (.cre_sem (some pk)) r) = some pk.isemcnt := by simp [createdSem, hr, hid]

theorem createdSem_other {s s' : SemId} (pk : T_CSEM) {r : Ret} (hid : r.id = s + 1) (hs : s' ≠ s) :
    createdSem s' (.ret (.cre_sem (some pk)) r) = none := by
  have : (s : Int) ≠ s' := fun heq => hs (Fin.ext (by omega))
  simp [createdSem, hid, this]

def unitsDelta (s : SemId) (e : Event) : Int := signalled s e - granted s e

def units (s : SemId) (log : List Event) : Int := Ledger.balance (createdSem s) (unitsDelta s) log

/-! ## The messages of a mailbox -/

/-- A send of `msg` that succeeded. -/
def sent (m : MbxId) (msg : UINT) : Event → Int
  | .ret (.snd_mbx mbxid pk_msg) r =>
    if r.ercd = .E_OK ∧ tableEntry CFN_MAX_MBXID mbxid = some m ∧ pk_msg = msg then 1 else 0
  | _ => 0

/-- A receive that got `msg`, at once or at the end of its wait. -/
def received (m : MbxId) (msg : UINT) : Event → Int
  | .ret (.wait (.mbx mbxid _ _)) r =>
    if r.ercd = .E_OK ∧ tableEntry CFN_MAX_MBXID mbxid = some m ∧ r.msg = some msg then 1 else 0
  | .complete _ (some (.wait (.mbx mbxid _ _))) cause winfo =>
    if cause = .E_OK ∧ tableEntry CFN_MAX_MBXID mbxid = some m ∧ winfo.msg = msg then 1 else 0
  | _ => 0

/-- A mailbox has no messages when it is created. -/
def createdMbx (m : MbxId) : Event → Option Int
  | .ret (.cre_mbx (some _)) r => if r.ercd = .E_OK ∧ r.id = m + 1 then some 0 else none
  | _ => none

theorem createdMbx_self {m : MbxId} (pk : T_CMBX) {r : Ret} (hr : r.ercd = .E_OK) (hid : r.id = m + 1) :
    createdMbx m (.ret (.cre_mbx (some pk)) r) = some 0 := by simp [createdMbx, hr, hid]

theorem createdMbx_other {m m' : MbxId} (pk : T_CMBX) {r : Ret} (hid : r.id = m + 1) (hm : m' ≠ m) :
    createdMbx m' (.ret (.cre_mbx (some pk)) r) = none := by
  have : (m : Int) ≠ m' := fun heq => hm (Fin.ext (by omega))
  simp [createdMbx, hid, this]

def mailDelta (m : MbxId) (msg : UINT) (e : Event) : Int := sent m msg e - received m msg e

def mail (m : MbxId) (msg : UINT) (log : List Event) : Int :=
  Ledger.balance (createdMbx m) (mailDelta m msg) log

/-! ## What a move puts on record -/

/-- The events of the move. -/
def Move.events (q : Tasks) : Move → List Event
  | wake t _ cause => [.complete t (q.pending t) cause (q.tcbs t).winfo, .enqueue t]
  | give t w d => [.deliver t d, .complete t (q.pending t) .E_OK (d.info w), .enqueue t]
  | block t w _ _ => [.block t w]
  | start t _ => [.enqueue t]
  | yield t => [.enqueue t]
  | dispatch _ new _ => [.dispatch new]
  | finish t w => [.finish t w (w.result (q.tcbs t))]
  | note c r => [.ret c r]
  | create .. | exit _ | exitDelete _ | launch _ | queueWakeup _ | useWakeup _ | tick _ | park _
  | unpark _ | stackWrite .. | overflow => []

theorem Move.log_effect (q : Tasks) (m : Move) : (m.effect q).log = q.log ++ m.events q := by
  cases m <;> simp [effect, events, wakeEffect, setInfo, Tasks.setTcb, Tasks.note, Tasks.setPending]

theorem Does.log {P : Move → Prop} {q q' : Tasks} (hd : Does P q q') : ∃ post, q'.log = q.log ++ post := by
  refine hd.keeps (I := fun q' => ∃ post, q'.log = q.log ++ post) ?_ ⟨[], by simp⟩
  rintro m q' - - ⟨post, hpost⟩
  exact ⟨post ++ m.events q', by rw [Move.log_effect, hpost, List.append_assoc]⟩

theorem Does.event {P : Move → Prop} {q q' : Tasks} (hd : Does P q q') {post : List Event}
    (hlog : q'.log = q.log ++ post) {ev : Event} (hev : ev ∈ post) : ∃ m q₁, P m ∧ m.Allowed q₁ ∧ ev ∈ m.events q₁ := by
  have hkeep := hd.keeps (I := fun q' => ∃ post, q'.log = q.log ++ post ∧
    ∀ ev ∈ post, ∃ m q₁, P m ∧ m.Allowed q₁ ∧ ev ∈ m.events q₁) ?_ ⟨[], by simp, by simp⟩
  · obtain ⟨post', hlog', hall⟩ := hkeep
    obtain rfl : post' = post := List.append_cancel_left (hlog'.symm.trans hlog)
    exact hall ev hev
  · rintro m q' hP ha ⟨post, hlog, hall⟩
    refine ⟨post ++ m.events q', by rw [Move.log_effect, hlog, List.append_assoc], fun ev hev => ?_⟩
    rcases List.mem_append.mp hev with hev | hev
    · exact hall ev hev
    · exact ⟨m, q', hP, ha, hev⟩

theorem Does.balance {P : Move → Prop} {q q' : Tasks} {reset : Event → Option Int}
    {delta : Event → Int} (hd : Does P q q')
    (hP : ∀ m q, P m → m.Allowed q → ∀ e ∈ m.events q, Ledger.Silent reset delta e) :
    Ledger.balance reset delta q'.log = Ledger.balance reset delta q.log := by
  refine hd.keeps (I := fun q' => Ledger.balance reset delta q'.log = Ledger.balance reset delta q.log)
    ?_ rfl
  intro m q' hm ha heq
  rw [Move.log_effect, Ledger.balance_silent (hP m q' hm ha), heq]

end TsukumoCore
