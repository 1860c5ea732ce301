import TsukumoCore.Calls.Mail
import TsukumoCore.Lib.StableSort
import TsukumoCore.Support.Insertion
import TsukumoCore.System.Mailboxes

/-!
# The order of the messages

Beside the kernel runs a plain record of each mailbox: the messages that were sent to it and queued, in the
order of the sends, less those received. The message queue is that record, or its stable sort by `msgpri`.
-/

namespace TsukumoCore

variable {b : Boot} {e : Entries} {k k' : Kernel} {m : MbxId} {msg : UINT} {mbxid tmout : Int} {ppk_msg : UINT}
  {times : List Nat}

/-! ## Insertion by priority -/

section Insertion

variable {msgpri : UINT → Int} {queue : List UINT}

theorem scan_msg_pri_eq (msgpri : UINT → Int) (queue : List UINT) (msg : UINT) :
    scan_msg_pri msgpri queue msg = queue.takeWhile (msgpri · ≤ msgpri msg) ++
      msg :: queue.dropWhile (msgpri · ≤ msgpri msg) := by
  have hnot : (fun queued => decide (msgpri queued ≤ msgpri msg)) =
      fun queued => !decide (msgpri msg < msgpri queued) := by
    funext queued
    simp [← decide_not]
  rw [hnot, scan_msg_pri_split]

/-- On a sorted queue, a message that is not ahead of the last one is ahead of none. -/
theorem insert_msg_pri_eq_scan (hsorted : queue.Pairwise fun a b => msgpri a ≤ msgpri b) (msg : UINT) :
    insert_msg_pri msgpri queue msg = scan_msg_pri msgpri queue msg := by
  unfold insert_msg_pri
  split
  · rename_i last hlast
    split
    · rename_i hge
      obtain ⟨front, rfl⟩ := List.getLast?_eq_some_iff.mp hlast
      have hnone : (front ++ [last]).find? (fun queued => decide (msgpri msg < msgpri queued)) = none := by
        rw [List.find?_eq_none]
        intro queued hqueued
        have hle : msgpri queued ≤ msgpri last := by
          rcases List.mem_append.mp hqueued with hfront | hlast'
          · exact (List.pairwise_append.mp hsorted).2.2 queued hfront last (by simp)
          · rw [List.mem_singleton.mp hlast']
        simp only [decide_eq_true_eq]
        omega
      rw [scan_msg_pri, hnone]
    · rfl
  · rfl

end Insertion

/-! ## The record beside the kernel -/

/-- The message a receive returns at once. -/
def Flow.taken : Flow → Option UINT
  | .ret r => if r.ercd = .E_OK then r.msg else none
  | _ => none

/-- The record of `m` after `a`. -/
def sendOrder (k : Kernel) (a : Act) (m : MbxId) (l : List UINT) : List UINT :=
  match a with
  | .call (.cre_mbx pk_cmbx) _ =>
    if (tk_cre_mbx k pk_cmbx).1.ercd = .E_OK ∧ (tk_cre_mbx k pk_cmbx).1.id = m + 1 then [] else l
  | .call (.snd_mbx mbxid pk_msg) _ =>
    if tableEntry CFN_MAX_MBXID mbxid = some m ∧ (tk_snd_mbx k mbxid pk_msg).1 = .E_OK ∧ k.wait_queue (.mbx m) = []
    then l ++ [pk_msg] else l
  | .call (.wait (.mbx mbxid ppk_msg tmout)) times =>
    match (tk_rcv_mbx k mbxid ppk_msg tmout times).1.taken with
    | some msg => if tableEntry CFN_MAX_MBXID mbxid = some m then l.erase msg else l
    | none => l
  | _ => l

/-- The step changes the priority of no message that is in a queue. -/
def KeepsPri (k : Kernel) : Act → Prop
  | .set_msgpri msg _ => ∀ m, msg ∉ (k.mbxcbs m).mbx_queue
  | _ => True

/-- A step of an application that keeps to both rules, with the record. -/
def MailSteps (e : Entries) (s : Kernel × (MbxId → List UINT)) (a : Act) (s' : Kernel × (MbxId → List UINT)) :
    Prop :=
  FreshSteps e s.1 a s'.1 ∧ KeepsPri s.1 a ∧ s'.2 = fun m => sendOrder s.1 a m (s.2 m)

def MailReachable (b : Boot) : Kernel × (MbxId → List UINT) → Prop :=
  Paths.Reach (fun s => tkmc_start b = some s.1 ∧ s.2 = fun _ => []) (MailSteps b.entries)

/-- The queue of every mailbox that exists, by its attributes. -/
def MailOrder (k : Kernel) (l : MbxId → List UINT) : Prop :=
  ∀ m, noexs (k.mbxcbs m).mbxid = false →
    if (k.mbxcbs m).mbxatr &&& TA_MPRI ≠ 0 then IsStableSort k.msgpri (l m) (k.mbxcbs m).mbx_queue
    else (k.mbxcbs m).mbx_queue = l m

/-! ## The calls return what they did -/

theorem tk_snd_mbx_ok_iff : k.mailTo mbxid msg = some m ↔
    tableEntry CFN_MAX_MBXID mbxid = some m ∧ (tk_snd_mbx k mbxid msg).1 = .E_OK ∧ k.wait_queue (.mbx m) = [] := by
  rw [mailTo_eq_some]
  constructor
  · rintro ⟨he, hnull, hexs, hpri, hq⟩
    refine ⟨he, ?_, hq⟩
    have hpop := pop_none (k := k.DI) (m := m) hq
    unfold tk_snd_mbx
    simp only [he, hnull, if_false]
    rw [if_neg (show ¬ noexs (k.DI.mbxcbs m).mbxid = true by simpa using hexs),
      if_neg (show ¬ ((k.DI.mbxcbs m).mbxatr &&& TA_MPRI ≠ 0 ∧ k.DI.msgpri msg ≤ 0) from hpri), hpop]
  · rintro ⟨he, hok, hq⟩
    unfold tk_snd_mbx at hok
    simp only [he] at hok
    split at hok
    · cases hok
    rename_i hnull
    split at hok
    · cases hok
    rename_i hexs
    split at hok
    · cases hok
    rename_i hpri
    exact ⟨he, hnull, Bool.eq_false_iff.mpr hexs, hpri, hq⟩

theorem tk_rcv_mbx_taken (hfrom : k.mailFrom mbxid ppk_msg tmout = some m) :
    (tk_rcv_mbx k mbxid ppk_msg tmout times).1.taken = (k.mbxcbs m).mbx_queue.head? := by
  obtain ⟨he, hnull, htmo, hblock, hexs⟩ := mailFrom_eq_some.mp hfrom
  have hpar : ¬ (ppk_msg = NULL ∨ tmout < TMO_FEVR) := not_or.mpr ⟨hnull, by omega⟩
  unfold tk_rcv_mbx
  simp only [he, hpar, if_false]
  have hblock' : tkmc_can_block k.DI k.mie = true := hblock
  rw [if_neg (by simp [hblock']), if_neg (show ¬ noexs (k.DI.mbxcbs m).mbxid = true by simpa using hexs)]
  cases hq : (k.mbxcbs m).mbx_queue with
  | nil =>
    simp only [show (k.DI.mbxcbs m).mbx_queue = [] from hq]
    split
    · rfl
    split <;> rfl
  | cons msg rest =>
    simp only [show (k.DI.mbxcbs m).mbx_queue = msg :: rest from hq]
    rfl

theorem tk_rcv_mbx_refused (hfrom : k.mailFrom mbxid ppk_msg tmout = none) :
    (tk_rcv_mbx k mbxid ppk_msg tmout times).1.taken = none := by
  unfold tk_rcv_mbx
  split
  · rfl
  rename_i m he
  split
  · rfl
  rename_i hpar
  dsimp only
  split
  · rfl
  rename_i hblock
  split
  · rfl
  rename_i hexs
  have hblock' : tkmc_can_block k.DI k.mie = true := by simpa using hblock
  have hsome : k.mailFrom mbxid ppk_msg tmout = some m :=
    mailFrom_eq_some.mpr ⟨he, by tauto, by omega, hblock', Bool.eq_false_iff.mpr hexs⟩
  exact absurd (hfrom.symm.trans hsome) (by simp)

/-! ## Every step -/

variable {l : MbxId → List UINT} {a : Act}

theorem MailOrder.same (h : MailOrder k l) (hk : k'.mbxcbs = k.mbxcbs) (hpri : k'.msgpri = k.msgpri) :
    MailOrder k' l := by
  unfold MailOrder
  rw [hk, hpri]
  exact h

theorem sendOrder_same (ha : a.rearranges = false) (k : Kernel) (m : MbxId) (l : List UINT) :
    sendOrder k a m l = l := by
  cases a with
  | call c times =>
    cases c with
    | cre_mbx | snd_mbx => cases ha
    | wait w =>
      cases w with
      | mbx => cases ha
      | _ => rfl
    | _ => rfl
  | _ => rfl

theorem MailOrder.setQueue (h : MailOrder k l) {queue record : List UINT}
    (hst : k'.standing = k.standing.setQueue m queue)
    (hnew : noexs (k.mbxcbs m).mbxid = false → if (k.mbxcbs m).mbxatr &&& TA_MPRI ≠ 0
      then IsStableSort k.msgpri record queue else queue = record) :
    MailOrder k' (Function.update l m record) := by
  obtain ⟨hself, hother, hpri⟩ := mbxcbs_setQueue hst
  intro m' hlive
  rw [hpri]
  by_cases hm : m' = m
  · subst hm
    rw [hself] at hlive ⊢
    rw [Function.update_self]
    exact hnew hlive
  · rw [hother m' hm] at hlive ⊢
    rw [Function.update_of_ne hm]
    exact h m' hlive

theorem MailOrder.send (h : MailOrder k l)
    (hst : k'.standing = k.standing.setQueue m ((k.mbxcbs m).insert k.msgpri msg)) :
    MailOrder k' (Function.update l m (l m ++ [msg])) := by
  refine h.setQueue hst fun hlive => ?_
  have hold := h m hlive
  unfold MBXCB.insert
  split at hold
  · rename_i hatr
    rw [if_pos hatr, if_pos hatr, insert_msg_pri_eq_scan hold.sorted, scan_msg_pri_eq]
    exact hold.insert msg
  · rename_i hatr
    rw [if_neg hatr, if_neg hatr, ← hold, insert_msg_fifo]

theorem MailOrder.receive (h : MailOrder k l) {rest : List UINT} (hq : (k.mbxcbs m).mbx_queue = msg :: rest)
    (hst : k'.standing = k.standing.setQueue m rest) :
    MailOrder k' (Function.update l m ((l m).erase msg)) := by
  refine h.setQueue hst fun hlive => ?_
  have hold := h m hlive
  rw [hq] at hold
  split at hold
  · rename_i hatr
    rw [if_pos hatr]
    exact hold.tail
  · rename_i hatr
    rw [if_neg hatr, ← hold, List.erase_cons_head]

theorem MailOrder.setMbx (h : MailOrder k l) {cb : MBXCB} {record : List UINT}
    (hst : k'.standing = k.standing.setMbx m cb) (hnew : noexs cb.mbxid = true ∨ cb.mbx_queue = [] ∧ record = []) :
    MailOrder k' (Function.update l m record) := by
  have hcbs : k'.mbxcbs = Function.update k.mbxcbs m cb := congrArg Standing.mbxcbs hst
  have hpri : k'.msgpri = k.msgpri := congrArg Standing.msgpri hst
  intro m' hlive
  rw [hpri]
  by_cases hm : m' = m
  · subst hm
    rw [hcbs, Function.update_self] at hlive ⊢
    rw [Function.update_self]
    rcases hnew with hexs | ⟨hq, hrec⟩
    · exact absurd (hexs.symm.trans hlive) (by simp)
    · rw [hq, hrec]
      split
      · exact .nil
      · rfl
  · rw [hcbs, Function.update_of_ne hm] at hlive ⊢
    rw [Function.update_of_ne hm]
    exact h m' hlive

theorem record_update {f : MbxId → List UINT} {record : List UINT} (hself : f m = record)
    (hother : ∀ m', m' ≠ m → f m' = l m') : f = Function.update l m record := by
  funext m'
  by_cases hm : m' = m
  · rw [hm, Function.update_self, hself]
  · rw [Function.update_of_ne hm, hother m' hm]

theorem cre_mbx_order (h : Core k.toTasks k.toObjects) (ho : MailOrder k l) (pk_cmbx : Option T_CMBX) :
    MailOrder (tk_cre_mbx k pk_cmbx).2 fun m => sendOrder k (.call (.cre_mbx pk_cmbx) times) m (l m) := by
  rcases tk_cre_mbx_standing h pk_cmbx with ⟨hercd, hsame⟩ | ⟨m, rest, cb, -, hercd, hid, hq, hst, -⟩
  · simp only [sendOrder, hercd, false_and, if_false, hsame]
    exact ho
  · have hrecord : (fun m => sendOrder k (.call (.cre_mbx pk_cmbx) times) m (l m)) = Function.update l m [] := by
      refine record_update ?_ fun m' hm => ?_
      · simp [sendOrder, hercd, hid]
      · have hne : ¬ ((m : Int) + 1 = m' + 1) := fun heq => hm (Fin.ext (by omega))
        simp [sendOrder, hercd, hid, hne]
    rw [hrecord]
    exact ho.setMbx hst (.inr ⟨hq, rfl⟩)

theorem del_mbx_order (h : Core k.toTasks k.toObjects) (ho : MailOrder k l) (mbxid : Int) :
    MailOrder (tk_del_mbx k mbxid).2 l := by
  rcases tk_del_mbx_standing h mbxid with ⟨-, hsame⟩ | ⟨m, -, -, -, hst, -⟩
  · rw [hsame]
    exact ho
  · have hset : MailOrder _ (Function.update l m (l m)) := ho.setMbx hst (.inl (noexs_or_mask _))
    rwa [Function.update_eq_self] at hset

theorem snd_mbx_order (h : Core k.toTasks k.toObjects) (ho : MailOrder k l) (mbxid : Int) (msg : UINT) :
    MailOrder (tk_snd_mbx k mbxid msg).2 fun m => sendOrder k (.call (.snd_mbx mbxid msg) times) m (l m) := by
  have hst := tk_snd_mbx_standing h mbxid msg
  have hrecord : ∀ m, sendOrder k (.call (.snd_mbx mbxid msg) times) m (l m) =
      if k.mailTo mbxid msg = some m then l m ++ [msg] else l m := by
    intro m
    simp only [sendOrder, ← tk_snd_mbx_ok_iff]
  simp only [hrecord]
  cases hto : k.mailTo mbxid msg with
  | none =>
    rw [hto] at hst
    simpa using ho.same (congrArg Standing.mbxcbs hst) (congrArg Standing.msgpri hst)
  | some m =>
    rw [hto] at hst
    have hupdate : (fun m' => if some m = some m' then l m' ++ [msg] else l m') = Function.update l m (l m ++ [msg]) :=
      record_update (by simp) fun m' hm => by simp [Ne.symm hm]
    rw [hupdate]
    exact ho.send hst

theorem rcv_mbx_order (ho : MailOrder k l) (mbxid : Int) (ppk_msg : UINT) (tmout : Int) :
    MailOrder (tk_rcv_mbx k mbxid ppk_msg tmout times).2 fun m =>
      sendOrder k (.call (.wait (.mbx mbxid ppk_msg tmout)) times) m (l m) := by
  have hst := tk_rcv_mbx_standing k mbxid ppk_msg tmout times
  cases hfrom : k.mailFrom mbxid ppk_msg tmout with
  | none =>
    rw [hfrom] at hst
    simp only [sendOrder, tk_rcv_mbx_refused hfrom]
    exact ho.same (congrArg Standing.mbxcbs hst) (congrArg Standing.msgpri hst)
  | some m =>
    rw [hfrom] at hst
    obtain ⟨he, -⟩ := mailFrom_eq_some.mp hfrom
    simp only [sendOrder, tk_rcv_mbx_taken hfrom, he]
    cases hq : (k.mbxcbs m).mbx_queue with
    | nil =>
      have hset : MailOrder _ (Function.update l m (l m)) := ho.setQueue hst fun hlive => by
        have hold := ho m hlive
        rwa [hq] at hold ⊢
      rwa [Function.update_eq_self] at hset
    | cons msg rest =>
      simp only [hq, List.tail_cons] at hst
      have hupdate : (fun m' => if some m = some m' then (l m').erase msg else l m') =
          Function.update l m ((l m).erase msg) :=
        record_update (by simp) fun m' hm => by simp [Ne.symm hm]
      simp only [List.head?_cons]
      rw [hupdate]
      exact ho.receive hq hst

theorem exec_mailOrder (h : Core k.toTasks k.toObjects) (ho : MailOrder k l) {c : Call} {flow : Flow}
    (hx : exec e k times c = some (flow, k')) : MailOrder k' fun m => sendOrder k (.call c times) m (l m) := by
  by_cases hc : c.rearranges = false
  · have hst := exec_standing hc hx
    simp only [sendOrder_same (a := .call c times) hc]
    exact ho.same (congrArg Standing.mbxcbs hst) (congrArg Standing.msgpri hst)
  cases c with
  | cre_sem pk =>
    obtain ⟨-, rfl⟩ : _ ∧ (tk_cre_sem k pk).2 = k' := by simpa [exec] using hx
    have hst := tk_cre_sem_standing k pk
    exact ho.same (congrArg Standing.mbxcbs hst) (congrArg Standing.msgpri hst)
  | del_sem semid =>
    obtain ⟨-, rfl⟩ : _ ∧ (tk_del_sem k semid).2 = k' := by simpa [exec] using hx
    have hst := tk_del_sem_standing h semid
    exact ho.same (congrArg Standing.mbxcbs hst) (congrArg Standing.msgpri hst)
  | cre_flg pk =>
    obtain ⟨-, rfl⟩ : _ ∧ (tk_cre_flg k pk).2 = k' := by simpa [exec] using hx
    have hst := tk_cre_flg_standing k pk
    exact ho.same (congrArg Standing.mbxcbs hst) (congrArg Standing.msgpri hst)
  | cre_mbx pk =>
    obtain ⟨-, rfl⟩ : _ ∧ (tk_cre_mbx k pk).2 = k' := by simpa [exec] using hx
    exact cre_mbx_order h ho pk
  | del_mbx mbxid =>
    obtain ⟨-, rfl⟩ : _ ∧ (tk_del_mbx k mbxid).2 = k' := by simpa [exec] using hx
    exact del_mbx_order h ho mbxid
  | snd_mbx mbxid pk_msg =>
    obtain ⟨-, rfl⟩ : _ ∧ (tk_snd_mbx k mbxid pk_msg).2 = k' := by simpa [exec] using hx
    exact snd_mbx_order h ho mbxid pk_msg
  | wait w =>
    cases w with
    | mbx mbxid ppk_msg tmout =>
      obtain ⟨-, rfl⟩ : _ ∧ (tk_rcv_mbx k mbxid ppk_msg tmout times).2 = k' := by
        simpa [exec, Prod.ext_iff] using hx
      exact rcv_mbx_order ho mbxid ppk_msg tmout
    | _ => exact absurd rfl hc
  | _ => exact absurd rfl hc

theorem step_mailOrder (h : Core k.toTasks k.toObjects) (ho : MailOrder k l) (hpri : KeepsPri k a)
    (hk : step e k a = some k') : MailOrder k' fun m => sendOrder k a m (l m) := by
  by_cases ha : a.rearranges = false
  · have hst := step_standing ha hk
    simp only [sendOrder_same ha]
    exact ho.same (congrArg Standing.mbxcbs hst) (congrArg Standing.msgpri hst)
  cases a with
  | call c times =>
    simp only [step, Option.ite_none_right_eq_some, Option.map_eq_some_iff] at hk
    obtain ⟨-, ⟨flow, k1⟩, hx, rfl⟩ := hk
    have hst := leave_call_standing k1 c flow
    exact (exec_mailOrder h ho hx).same (congrArg Standing.mbxcbs hst) (congrArg Standing.msgpri hst)
  | set_msgpri msg msgpri =>
    obtain rfl := Option.some.inj hk
    intro m hlive
    have hold := ho m hlive
    split at hold
    · rename_i hatr
      rw [if_pos hatr]
      refine hold.congr fun queued hqueued => ?_
      have hne : queued ≠ msg := fun he => hpri m (he ▸ hqueued)
      simp [hne]
    · rename_i hatr
      rw [if_neg hatr]
      exact hold
  | _ => exact absurd rfl ha

theorem MailReachable.order {s : Kernel × (MbxId → List UINT)} (h : MailReachable b s) :
    Reachable b s.1 ∧ MailOrder s.1 s.2 := by
  refine Paths.Reach.invariant (I := fun s => Reachable b s.1 ∧ MailOrder s.1 s.2) ?_ ?_ h
  · rintro ⟨k, l⟩ ⟨hk, rfl⟩
    refine ⟨⟨k, [], hk, .nil k⟩, fun m hlive => ?_⟩
    obtain ⟨-, hobj, -⟩ := start_tasks hk
    have hdead : ¬ k.Live (.mbx m) := by rw [hobj]; exact init_dead (.mbx m)
    exact absurd hlive hdead
  · rintro ⟨k, l⟩ a ⟨k', l'⟩ ⟨hreach, ho⟩ ⟨hfresh, hpri, rfl⟩
    exact ⟨hreach.step hfresh.1, step_mailOrder hreach.inv.core ho hpri hfresh.1⟩

/-- **Messages keep their order**: the queue is the record of the sends, or its stable sort. A receive takes
the first message, and the shortcut to the tail puts a message where the scan would. -/
theorem messages_in_order {l : MbxId → List UINT} (h : MailReachable b (k, l)) :
    (∀ m, noexs (k.mbxcbs m).mbxid = false → (k.mbxcbs m).mbx_queue =
      if (k.mbxcbs m).mbxatr &&& TA_MPRI ≠ 0 then (l m).mergeSort fun a b => k.msgpri a ≤ k.msgpri b else l m) ∧
    (∀ m mbxid ppk_msg tmout times, k.mailFrom mbxid ppk_msg tmout = some m →
      (tk_rcv_mbx k mbxid ppk_msg tmout times).1.taken = (k.mbxcbs m).mbx_queue.head? ∧
      ((tk_rcv_mbx k mbxid ppk_msg tmout times).2.mbxcbs m).mbx_queue = (k.mbxcbs m).mbx_queue.tail) ∧
    (∀ m msg, noexs (k.mbxcbs m).mbxid = false → (k.mbxcbs m).mbxatr &&& TA_MPRI ≠ 0 →
      insert_msg_pri k.msgpri (k.mbxcbs m).mbx_queue msg = scan_msg_pri k.msgpri (k.mbxcbs m).mbx_queue msg) := by
  have ho := h.order.2
  refine ⟨fun m hlive => ?_, ?_, fun m msg hlive hatr => ?_⟩
  · have hm := ho m hlive
    split
    · rename_i hatr
      rw [if_pos hatr] at hm
      exact hm.eq_mergeSort
    · rename_i hatr
      rw [if_neg hatr] at hm
      exact hm
  · intro m mbxid ppk_msg tmout times hfrom
    have hst := tk_rcv_mbx_standing k mbxid ppk_msg tmout times
    rw [hfrom] at hst
    exact ⟨tk_rcv_mbx_taken hfrom, congrArg MBXCB.mbx_queue (mbxcbs_setQueue hst).1⟩
  · have hm := ho m hlive
    rw [if_pos hatr] at hm
    exact insert_msg_pri_eq_scan hm.sorted msg

/-! ## A run -/

/-- The step keeps to both rules. -/
def keepsRules (k : Kernel) : Act → Bool
  | .call (.snd_mbx _ pk_msg) _ => decide (∀ m, pk_msg ∉ (k.mbxcbs m).mbx_queue)
  | .set_msgpri msg _ => decide (∀ m, msg ∉ (k.mbxcbs m).mbx_queue)
  | _ => true

theorem keepsRules_sound (h : keepsRules k a = true) : SendsFresh k a ∧ KeepsPri k a := by
  cases a with
  | call c times =>
    cases c with
    | snd_mbx mbxid pk_msg =>
      have hfresh : ∀ m, pk_msg ∉ (k.mbxcbs m).mbx_queue := of_decide_eq_true h
      exact ⟨hfresh, trivial⟩
    | _ => exact ⟨trivial, trivial⟩
  | set_msgpri msg msgpri =>
    have hfree : ∀ m, msg ∉ (k.mbxcbs m).mbx_queue := of_decide_eq_true h
    exact ⟨trivial, hfree⟩
  | _ => exact ⟨trivial, trivial⟩

/-- The run of `as` with the record, as long as it keeps to the rules. -/
def mailRun (e : Entries) : Kernel → (MbxId → List UINT) → List Act → Option (Kernel × (MbxId → List UINT))
  | k, l, [] => some (k, l)
  | k, l, a :: as =>
    if keepsRules k a then (step e k a).bind fun k' => mailRun e k' (fun m => sendOrder k a m (l m)) as else none

theorem mailRun_path {as : List Act} {s : Kernel × (MbxId → List UINT)} (h : mailRun e k l as = some s) :
    Paths.Path (MailSteps e) (k, l) as s := by
  induction as generalizing k l with
  | nil =>
    obtain rfl := Option.some.inj h
    exact .nil _
  | cons a as ih =>
    simp only [mailRun, Option.ite_none_right_eq_some, Option.bind_eq_some_iff] at h
    obtain ⟨hrules, k', hstep, hrest⟩ := h
    obtain ⟨hfresh, hpri⟩ := keepsRules_sound hrules
    exact .cons (show MailSteps e (k, l) a (k', _) from ⟨⟨hstep, hfresh⟩, hpri, rfl⟩) (ih hrest)

/-- Two messages are sent to a mailbox that orders them by priority, the second with the higher one. -/
def letterRun : List Act :=
  [.call (.cre_mbx (some { exinf := 0, mbxatr := TA_MPRI })) [], .set_msgpri 0x80020000 2, .set_msgpri 0x80030000 1,
    .call (.snd_mbx 1 0x80020000) [], .call (.snd_mbx 1 0x80030000) []]

theorem messages_in_order_letterRun : ∃ k l, MailReachable sampleBoot (k, l) ∧
    l 0 = [0x80020000, 0x80030000] ∧ (k.mbxcbs 0).mbx_queue = [0x80030000, 0x80020000] ∧
    (k.mbxcbs 0).mbx_queue = (l 0).mergeSort fun a b => k.msgpri a ≤ k.msgpri b := by
  have hrun : ((tkmc_start sampleBoot).bind fun k => mailRun sampleBoot.entries k (fun _ => []) letterRun).any
      (fun s => decide (s.2 0 = [0x80020000, 0x80030000] ∧ (s.1.mbxcbs 0).mbx_queue = [0x80030000, 0x80020000] ∧
        noexs (s.1.mbxcbs 0).mbxid = false ∧ (s.1.mbxcbs 0).mbxatr &&& TA_MPRI ≠ 0)) = true := by decide +kernel
  obtain ⟨⟨k, l⟩, hs, hfacts⟩ := (Option.any_eq_true _ _).mp hrun
  obtain ⟨hl, hq, hlive, hatr⟩ := of_decide_eq_true hfacts
  obtain ⟨k₀, hk₀, hpath⟩ := Option.bind_eq_some_iff.mp hs
  have hreach : MailReachable sampleBoot (k, l) := ⟨(k₀, fun _ => []), letterRun, ⟨hk₀, rfl⟩, mailRun_path hpath⟩
  have hsort := (messages_in_order hreach).1 0 hlive
  rw [if_pos hatr] at hsort
  exact ⟨k, l, hreach, hl, hq, hsort⟩

end TsukumoCore
