import TsukumoCore.System.Boot
import Mathlib.Data.List.FinRange

/-! # The control blocks over a run -/

namespace TsukumoCore

variable {b : Boot} {k : Kernel} {n : Nat}

/-- How many of the `n` entries of a table exist. -/
def existing (gone : Fin n → Bool) : Nat := (List.finRange n).countP fun i => !gone i

/-- The free list of a table holds the entries that do not exist, each once. -/
def FreeList (free : List (Fin n)) (gone : Fin n → Bool) : Prop :=
  ∀ i, free.count i = if gone i then 1 else 0

/-- What a valid creation gives its caller: the ID of an entry that does not exist, or `E_LIMIT`. -/
structure Allocates (gone : Fin n → Bool) (r : Ret) : Prop where
  succeeds : r.ercd = .E_OK ↔ existing gone < n
  fresh : r.ercd = .E_OK → ∃ i, gone i = true ∧ r.id = i + 1
  limit : r.ercd ≠ .E_OK → r.ercd = .E_LIMIT

/-- After enough creations, the next one hands out the ID `i + 1`. -/
def HandsOut (create : Kernel → Ret × Kernel) (k : Kernel) (i : Fin n) : Prop :=
  ∃ times, ((create ((fun k => (create k).2)^[times] k)).1.ercd = .E_OK) ∧
    (create ((fun k => (create k).2)^[times] k)).1.id = i + 1

theorem freeList_of_nodup {free : List (Fin n)} {gone : Fin n → Bool} (hnodup : free.Nodup)
    (hmem : ∀ i, i ∈ free ↔ gone i = true) : FreeList free gone := by
  intro i
  by_cases hi : i ∈ free
  · rw [List.count_eq_one_of_mem hnodup hi, if_pos ((hmem i).mp hi)]
  · rw [List.count_eq_zero_of_not_mem hi, if_neg fun hgone => hi ((hmem i).mpr hgone)]

theorem existing_lt_iff (gone : Fin n → Bool) : existing gone < n ↔ ∃ i, gone i = true := by
  have hle : existing gone ≤ n := by
    have := List.countP_le_length (p := fun i => !gone i) (l := List.finRange n)
    rwa [List.length_finRange] at this
  have hall : existing gone = n ↔ ∀ i, gone i = false := by
    have := List.countP_eq_length (p := fun i => !gone i) (l := List.finRange n)
    rw [List.length_finRange] at this
    unfold existing
    rw [this]
    simp
  constructor
  · intro hlt
    by_contra hnone
    apply absurd (hall.mpr fun i => ?_) (Nat.ne_of_lt hlt)
    exact Bool.eq_false_iff.mpr fun hi => hnone ⟨i, hi⟩
  · rintro ⟨i, hi⟩
    refine Nat.lt_of_le_of_ne hle fun heq => ?_
    rw [hall.mp heq i] at hi
    exact absurd hi (by simp)

theorem allocates_of_free {free : List (Fin n)} {gone : Fin n → Bool} {r : Ret}
    (hmem : ∀ i, i ∈ free ↔ gone i = true) (hnil : free = [] → r.ercd = .E_LIMIT)
    (hcons : ∀ i rest, free = i :: rest → r.ercd = .E_OK ∧ r.id = i + 1) : Allocates gone r := by
  cases hfree : free with
  | nil =>
    have hercd := hnil hfree
    refine ⟨?_, by simp [hercd], fun _ => hercd⟩
    rw [existing_lt_iff, hercd]
    refine ⟨by simp, fun ⟨i, hi⟩ => ?_⟩
    have := (hmem i).mpr hi
    rw [hfree] at this
    exact absurd this List.not_mem_nil
  | cons i rest =>
    obtain ⟨hercd, hid⟩ := hcons i rest hfree
    have hi : gone i = true := (hmem i).mp (by simp [hfree])
    refine ⟨?_, fun _ => ⟨i, hi, hid⟩, fun hne => absurd hercd hne⟩
    rw [existing_lt_iff, hercd]
    exact ⟨fun _ => ⟨i, hi⟩, fun _ => rfl⟩

/-! ## The four tables -/

def goneTsk (k : Kernel) (t : TskId) : Bool := decide ((k.tcbs t).tskstat = .NOEXS)
def goneSem (k : Kernel) (s : SemId) : Bool := noexs (k.semcbs s).semid
def goneFlg (k : Kernel) (f : FlgId) : Bool := noexs (k.flgcbs f).flgid
def goneMbx (k : Kernel) (m : MbxId) : Bool := noexs (k.mbxcbs m).mbxid

/-- The packets that the creations accept. -/
def validTsk (pk : T_CTSK) : Prop := ∃ stack_end, check_ctsk pk = .ok stack_end

def validSem (pk : T_CSEM) : Prop :=
  pk.sematr &&& ~~~VALID_SEMATR = 0 ∧ 1 ≤ pk.maxsem ∧ pk.maxsem ≤ TK_SEMAPHORE_MAXCNT ∧
    0 ≤ pk.isemcnt ∧ pk.isemcnt ≤ pk.maxsem

instance (pk : T_CSEM) : Decidable (validSem pk) := by unfold validSem; infer_instance

def validFlg (pk : T_CFLG) : Prop := pk.flgatr &&& ~~~VALID_FLGATR = 0

def validMbx (pk : T_CMBX) : Prop := pk.mbxatr &&& ~~~VALID_MBXATR = 0

theorem Core.sem_free (h : Core k.toTasks k.toObjects) (s : SemId) :
    s ∈ k.free_semcb ↔ goneSem k s = true := by
  have hfree := h.tables.free (.sem s)
  unfold goneSem
  rw [← Bool.not_eq_false]
  exact hfree

theorem Core.flg_free (h : Core k.toTasks k.toObjects) (f : FlgId) :
    f ∈ k.free_flbcb ↔ goneFlg k f = true := by
  have hfree := h.tables.free (.flg f)
  unfold goneFlg
  rw [← Bool.not_eq_false]
  exact hfree

theorem Core.mbx_free (h : Core k.toTasks k.toObjects) (m : MbxId) :
    m ∈ k.free_mbxcb ↔ goneMbx k m = true := by
  have hfree := h.tables.free (.mbx m)
  unfold goneMbx
  rw [← Bool.not_eq_false]
  exact hfree

theorem Core.tsk_free (h : Core k.toTasks k.toObjects) (t : TskId) :
    t ∈ k.free_tcb ↔ goneTsk k t = true := by
  unfold goneTsk
  rw [decide_eq_true_eq]
  exact (h.tasks.task t).free

/-! ## Creations -/

/-- What a creation needs to be one that allocates: it takes the first entry of the free list. -/
structure Takes (create : Kernel → Ret × Kernel) (free : Kernel → List (Fin n)) : Prop where
  none : ∀ k, Good k → free k = [] → (create k).1.ercd = .E_LIMIT
  some : ∀ k i rest, Good k → free k = i :: rest →
    (create k).1.ercd = .E_OK ∧ (create k).1.id = i + 1 ∧ free (create k).2 = rest
  good : ∀ k, Good k → Good (create k).2

variable {create : Kernel → Ret × Kernel} {free : Kernel → List (Fin n)}

theorem Takes.allocates (h : Takes create free) (hgood : Good k) {gone : Fin n → Bool}
    (hmem : ∀ i, i ∈ free k ↔ gone i = true) : Allocates gone (create k).1 := by
  apply allocates_of_free hmem
  · exact h.none k hgood
  · intro i rest hfree
    obtain ⟨hercd, hid, -⟩ := h.some k i rest hgood hfree
    exact ⟨hercd, hid⟩

/-- The entry that is `times` places behind the head is handed out after `times` creations. -/
theorem Takes.handsOut (h : Takes create free) (hgood : Good k) {i : Fin n} (hi : i ∈ free k) :
    HandsOut create k i := by
  generalize hl : free k = l at hi
  induction l generalizing k with
  | nil => exact absurd hi List.not_mem_nil
  | cons j rest ih =>
    obtain ⟨hercd, hid, hrest⟩ := h.some k j rest hgood hl
    rcases List.mem_cons.mp hi with rfl | hi
    · exact ⟨0, hercd, hid⟩
    · obtain ⟨times, hok⟩ := ih (h.good k hgood) hrest hi
      exact ⟨times + 1, hok⟩

theorem Good.of_returns {e : Entries} {c : Call} {r : Ret} {k' : Kernel} (h : Returns e k c [] r k') :
    Good k' := ⟨h.core, h.sched⟩

theorem cre_tsk_takes (e : Entries) {pk : T_CTSK} (hpk : validTsk pk) :
    Takes (tk_cre_tsk · (some pk)) (·.free_tcb) := by
  obtain ⟨stack_end, hcheck⟩ := hpk
  refine ⟨?_, ?_, fun k hgood => .of_returns (tk_cre_tsk_returns (e := e) hgood _)⟩
  · intro k hgood hfree
    simp [tk_cre_tsk, hcheck, Kernel.DI, hfree]
  · intro k t rest hgood hfree
    rw [cre_tsk_eq hgood.core.tasks.toPlaced hfree hcheck]
    refine ⟨rfl, rfl, ?_⟩
    simp [Kernel.tasks, Move.effect, hfree]

theorem cre_sem_takes (e : Entries) {pk : T_CSEM} (hpk : validSem pk) :
    Takes (tk_cre_sem · (some pk)) (·.free_semcb) := by
  obtain ⟨hatr, hmax, hmax', hcnt, hcnt'⟩ := hpk
  have hpar : ¬ (pk.maxsem < 1 ∨ pk.maxsem > TK_SEMAPHORE_MAXCNT ∨ pk.isemcnt < 0 ∨
      pk.isemcnt > pk.maxsem) := by omega
  refine ⟨?_, ?_, fun k hgood => .of_returns (tk_cre_sem_returns (e := e) hgood _)⟩
  · intro k hgood hfree
    simp [tk_cre_sem, hatr, hpar, Kernel.DI, hfree]
  · intro k s rest hgood hfree
    have hint := id_toInt (.sem s)
    rw [← hgood.core.tables.id (.sem s)] at hint
    unfold tk_cre_sem
    dsimp only
    rw [if_neg (by simp [hatr]), if_neg hpar]
    simp only [show k.DI.free_semcb = s :: rest from hfree]
    exact ⟨trivial, hint, rfl⟩

theorem cre_flg_takes (e : Entries) {pk : T_CFLG} (hpk : validFlg pk) :
    Takes (tk_cre_flg · (some pk)) (·.free_flbcb) := by
  unfold validFlg at hpk
  refine ⟨?_, ?_, fun k hgood => .of_returns (tk_cre_flg_returns (e := e) hgood _)⟩
  · intro k hgood hfree
    simp [tk_cre_flg, hpk, Kernel.DI, hfree]
  · intro k f rest hgood hfree
    have hint := id_toInt (.flg f)
    rw [← hgood.core.tables.id (.flg f)] at hint
    unfold tk_cre_flg
    dsimp only
    rw [if_neg (by simp [hpk])]
    simp only [show k.DI.free_flbcb = f :: rest from hfree]
    exact ⟨trivial, hint, rfl⟩

theorem cre_mbx_takes (e : Entries) {pk : T_CMBX} (hpk : validMbx pk) :
    Takes (tk_cre_mbx · (some pk)) (·.free_mbxcb) := by
  unfold validMbx at hpk
  refine ⟨?_, ?_, fun k hgood => .of_returns (tk_cre_mbx_returns (e := e) hgood _)⟩
  · intro k hgood hfree
    simp [tk_cre_mbx, hpk, Kernel.DI, hfree]
  · intro k m rest hgood hfree
    have hint := id_toInt (.mbx m)
    rw [← hgood.core.tables.id (.mbx m)] at hint
    unfold tk_cre_mbx
    dsimp only
    rw [if_neg (by simp [hpk])]
    simp only [show k.DI.free_mbxcb = m :: rest from hfree]
    exact ⟨trivial, hint, rfl⟩

/-! ## Every reachable state -/

/-- The table of one kind: its free list, the IDs of the entries that exist, and what a valid creation
does. -/
structure TableOk (k : Kernel) (free : List (Fin n)) (gone : Fin n → Bool) (id : Fin n → Int)
    (creations : (Kernel → Ret × Kernel) → Prop) : Prop where
  free : FreeList free gone
  ids : ∀ i, gone i = false → id i = i + 1
  allocates : ∀ create, creations create → Allocates gone (create k).1
  reissues : ∀ create, creations create → ∀ i, gone i = true → HandsOut create k i

theorem tableOk {gone : Fin n → Bool} {id : Fin n → Int} {creations : (Kernel → Ret × Kernel) → Prop}
    (hgood : Good k) (hnodup : (free k).Nodup) (hmem : ∀ i, i ∈ free k ↔ gone i = true)
    (hids : ∀ i, gone i = false → id i = i + 1) (htakes : ∀ create, creations create → Takes create free) :
    TableOk k (free k) gone id creations := by
  refine ⟨freeList_of_nodup hnodup hmem, hids, ?_, ?_⟩
  · intro create hcreate
    exact (htakes create hcreate).allocates hgood hmem
  · intro create hcreate i hi
    exact (htakes create hcreate).handsOut hgood ((hmem i).mpr hi)

theorem live_id (h : Core k.toTasks k.toObjects) {o : Obj} (hlive : noexs (k.cb o).id = false) :
    (k.cb o).id.toInt = o.id := by
  have hmask : (k.cb o).id &&& NOEXS_MASK = 0 := by simpa [noexs] using hlive
  have hsplit : (k.cb o).id = ((k.cb o).id &&& NOEXS_MASK) ||| ((k.cb o).id &&& ~~~NOEXS_MASK) := by
    rw [← BitVec.and_or_distrib_left, BitVec.or_not_self, BitVec.and_allOnes]
  rw [hsplit, hmask, h.tables.id o, show (0 : UINT) ||| BitVec.ofNat 32 o.id = BitVec.ofNat 32 o.id from
    BitVec.zero_or]
  exact id_toInt o

/-- Control blocks are neither leaked nor shared, whatever was created and deleted before. A block on its
free list has no waiters, so its link serves one purpose at a time. -/
theorem blocks_accounted (h : Reachable b k) :
    TableOk k k.free_tcb (goneTsk k) (fun t => (k.tcbs t).tskid)
        (fun create => ∃ pk, validTsk pk ∧ create = (tk_cre_tsk · (some pk))) ∧
      TableOk k k.free_semcb (goneSem k) (fun s => (k.semcbs s).semid.toInt)
        (fun create => ∃ pk, validSem pk ∧ create = (tk_cre_sem · (some pk))) ∧
      TableOk k k.free_flbcb (goneFlg k) (fun f => (k.flgcbs f).flgid.toInt)
        (fun create => ∃ pk, validFlg pk ∧ create = (tk_cre_flg · (some pk))) ∧
      TableOk k k.free_mbxcb (goneMbx k) (fun m => (k.mbxcbs m).mbxid.toInt)
        (fun create => ∃ pk, validMbx pk ∧ create = (tk_cre_mbx · (some pk))) ∧
      ∀ o, ¬ k.Live o → k.wait_queue o = [] := by
  have hgood := h.inv.toGood
  have hcore := hgood.core
  refine ⟨?_, ?_, ?_, ?_, hcore.tables.empty⟩
  · apply tableOk hgood hcore.tasks.free_nodup hcore.tsk_free
    · intro t _
      exact (hcore.tasks.task t).id
    · rintro create ⟨pk, hpk, rfl⟩
      exact cre_tsk_takes b.entries hpk
  · apply tableOk hgood hcore.tables.sem_nodup hcore.sem_free
    · intro s hs
      exact live_id hcore (o := .sem s) hs
    · rintro create ⟨pk, hpk, rfl⟩
      exact cre_sem_takes b.entries hpk
  · apply tableOk hgood hcore.tables.flg_nodup hcore.flg_free
    · intro f hf
      exact live_id hcore (o := .flg f) hf
    · rintro create ⟨pk, hpk, rfl⟩
      exact cre_flg_takes b.entries hpk
  · apply tableOk hgood hcore.tables.mbx_nodup hcore.mbx_free
    · intro m hm
      exact live_id hcore (o := .mbx m) hm
    · rintro create ⟨pk, hpk, rfl⟩
      exact cre_mbx_takes b.entries hpk

/-- A semaphore is deleted while a task waits on it with a time limit. -/
def deleteRun : List Act :=
  [.call (.cre_tsk (some { exinf := 0, tskatr := TA_USERBUF, task := 0x80004000, itskpri := 1, stksz := 512,
                           bufptr := 0x80020000 })) [],
    .call (.cre_sem (some { exinf := 0, sematr := 0, isemcnt := 0, maxsem := 1 })) [],
    .call (.sta_tsk 3 0) [], .call (.wait (.dly 0)) [], .resume, .software_interrupt 0,
    .call (.wait (.sem 1 1 50)) [], .software_interrupt 0, .call (.del_sem 1) []]

theorem blocks_accounted_deleteRun : ∃ k, sampleRun deleteRun = some k ∧
    k.free_semcb.count 0 = 1 ∧ k.wait_queue (.sem 0) = [] ∧
      HandsOut (tk_cre_sem · (some { exinf := 0, sematr := 0, isemcnt := 0, maxsem := 1 })) k
        (0 : SemId) := by
  obtain ⟨k, hk, hgone⟩ := sampleRun_of_any deleteRun (fun k => goneSem k 0 = true) (by decide +kernel)
  obtain ⟨-, hsem, -, -, hempty⟩ := blocks_accounted (sampleRun_reachable hk)
  refine ⟨k, hk, ?_, ?_, ?_⟩
  · rw [hsem.free 0, hgone]
    rfl
  · apply hempty
    rw [live_sem_iff]
    exact fun hlive => absurd (hlive.symm.trans hgone) (by simp)
  · exact hsem.reissues _ ⟨_, by decide, rfl⟩ 0 hgone

end TsukumoCore
