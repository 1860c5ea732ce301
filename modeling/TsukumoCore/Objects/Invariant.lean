import TsukumoCore.Tasks.Frames

/-!
# What holds of the objects

The control block of an object together with the tasks that wait on it. `CB.Range` holds at every point
inside a call, `CB.Served` where a call has ended.
-/

namespace TsukumoCore

/-! ## The control block of an object -/

inductive CB where
  | sem (cb : SEMCB)
  | flg (cb : FLGCB)
  | mbx (cb : MBXCB)

def CB.id : CB → UINT
  | .sem cb => cb.semid
  | .flg cb => cb.flgid
  | .mbx cb => cb.mbxid

namespace Objects

def cb (x : Objects) : Obj → CB
  | .sem s => .sem (x.semcbs s)
  | .flg f => .flg (x.flgcbs f)
  | .mbx m => .mbx (x.mbxcbs m)

/-- The attributes of an object. -/
def atr (x : Objects) : Obj → ATR
  | .sem s => (x.semcbs s).sematr
  | .flg f => (x.flgcbs f).flgatr
  | .mbx m => (x.mbxcbs m).mbxatr

/-- The object exists. -/
def Live (x : Objects) (o : Obj) : Prop := noexs (x.cb o).id = false

/-- The control block is on the free list of its kind. -/
def Free (x : Objects) : Obj → Prop
  | .sem s => s ∈ x.free_semcb
  | .flg f => f ∈ x.free_flbcb
  | .mbx m => m ∈ x.free_mbxcb

end Objects

/-- The ID of an object that exists. -/
def Obj.id : Obj → Nat
  | .sem s => s + 1
  | .flg f => f + 1
  | .mbx m => m + 1

/-- What one semaphore guarantees, given the requests of its waiters in order. -/
structure SemRange (cb : SEMCB) (reqs : List Int) : Prop where
  max : 1 ≤ cb.maxsem ∧ cb.maxsem ≤ TK_SEMAPHORE_MAXCNT
  cnt : 0 ≤ cb.semcnt ∧ cb.semcnt ≤ cb.maxsem
  req : ∀ r ∈ reqs, 1 ≤ r ∧ r ≤ cb.maxsem

/-- No waiter that its rule would serve is left: `TA_FIRST` serves the first one only. -/
def SemServed (cb : SEMCB) (reqs : List Int) : Prop :=
  if cb.sematr &&& TA_CNT = 0 then ∀ r, reqs.head? = some r → cb.semcnt < r
  else ∀ r ∈ reqs, cb.semcnt < r

def CB.Range : CB → List WaitInfo → Prop
  | .sem cb, infos => SemRange cb (infos.map WaitInfo.semcnt)
  | .flg cb, infos => cb.flgatr &&& TA_WMUL = 0 → infos.length ≤ 1
  | .mbx _, _ => True

def CB.Served : CB → List WaitInfo → Prop
  | .sem cb, infos => SemServed cb (infos.map WaitInfo.semcnt)
  | .flg cb, infos => ∀ i ∈ infos, check_ptn cb.flgptn i.waiptn i.wfmode = false
  | .mbx cb, infos => infos ≠ [] → cb.mbx_queue = []

/-- What the tasks that wait on `o` asked for. -/
def infos (q : Tasks) (o : Obj) : List WaitInfo := (waiters q o).map Prod.snd

/-! ## The invariant -/

structure TablesOk (q : Tasks) (x : Objects) : Prop where
  id : ∀ o, (x.cb o).id &&& ~~~NOEXS_MASK = BitVec.ofNat 32 o.id
  free : ∀ o, x.Free o ↔ ¬ x.Live o
  sem_nodup : x.free_semcb.Nodup
  flg_nodup : x.free_flbcb.Nodup
  mbx_nodup : x.free_mbxcb.Nodup
  empty : ∀ o, ¬ x.Live o → q.wait_queue o = []

structure Core (q : Tasks) (x : Objects) : Prop where
  tasks : Ok q
  tables : TablesOk q x
  range : ∀ o, x.Live o → (x.cb o).Range (infos q o)

def Served (q : Tasks) (x : Objects) (o : Obj) : Prop := x.Live o → (x.cb o).Served (infos q o)

/-! ## Moves -/

variable {q q' : Tasks} {x : Objects} {o : Obj} {m : Move}

theorem infos_eq (h : waiters q' o = waiters q o) : infos q' o = infos q o := by rw [infos, h, infos]

theorem CB.Range.sublist {cb : CB} {l l' : List WaitInfo} (h : cb.Range l) (hl : l'.Sublist l) :
    cb.Range l' := by
  cases cb with
  | sem cb =>
    have hmap := hl.map WaitInfo.semcnt
    exact ⟨h.max, h.cnt, fun r hr => h.req r (hmap.subset hr)⟩
  | flg cb => exact fun hatr => hl.length_le.trans (h hatr)
  | mbx cb => trivial

theorem Core.live_of_waiter (h : Core q x) {t : TskId} (ht : t ∈ q.wait_queue o) : x.Live o := by
  by_contra hlive
  rw [h.tables.empty o hlive] at ht
  exact List.not_mem_nil ht

/-- A move keeps the invariant if it leaves the object it touches in range. -/
theorem Core.move (h : Core q x) (ha : m.Allowed q)
    (htouch : ∀ o, m.touches = some o → x.Live o ∧ (x.cb o).Range (infos (m.effect q) o)) :
    Core (m.effect q) x := by
  have hother := fun o ho => Move.waiters_other (o := o) h.tasks.toPlaced ha ho
  refine ⟨Move.ok h.tasks ha, { h.tables with empty := ?_ }, ?_⟩
  · intro o hdead
    have ho : m.touches ≠ some o := fun ho => hdead (htouch o ho).1
    rw [← waiters_eq_nil, hother o ho, waiters_eq_nil]
    exact h.tables.empty o hdead
  · intro o hlive
    by_cases ho : m.touches = some o
    · exact (htouch o ho).2
    · rw [infos_eq (hother o ho)]; exact h.range o hlive

theorem Served.move (hs : Served q x o) (h : Core q x) (ha : m.Allowed q) (ho : m.touches ≠ some o) :
    Served (m.effect q) x o := by
  unfold Served
  rw [infos_eq (Move.waiters_other h.tasks.toPlaced ha ho)]
  exact hs

theorem Core.does {P : Move → Prop} (h : Core q x) (hd : Does P q q')
    (hP : ∀ m, P m → m.touches = none) : Core q' x ∧ ∀ o, Served q x o → Served q' x o := by
  refine hd.keeps (I := fun q' => Core q' x ∧ ∀ o, Served q x o → Served q' x o) ?_ ⟨h, fun _ hs => hs⟩
  rintro m q' hm ha ⟨hc, hs⟩
  have hnone := hP m hm
  refine ⟨hc.move ha (by simp [hnone]), fun o ho => (hs o ho).move hc ha (by simp [hnone])⟩

theorem infos_filter (t : TskId) (h : waiters q' o = (waiters q o).filter fun p => p.1 ≠ t) :
    (infos q' o).Sublist (infos q o) := by
  unfold infos
  rw [h]
  exact List.filter_sublist.map _

theorem Core.wake (h : Core q x) {t : TskId} {w : WaitCall} {cause : ER}
    (ha : (Move.wake t w cause).Allowed q) : Core (Move.wakeEffect q t cause) x := by
  refine h.move (m := .wake t w cause) ha fun o ho => ?_
  have hlive := h.live_of_waiter ((h.tasks.mem_wait ha.1 ha.2.1).mpr ho)
  exact ⟨hlive, (h.range o hlive).sublist (infos_filter t (waiters_wake h.tasks.toPlaced cause))⟩

theorem Core.give (h : Core q x) {t : TskId} {w : WaitCall} {d : Delivery}
    (ha : (Move.give t w d).Allowed q) : Core ((Move.give t w d).effect q) x := by
  refine h.move (m := .give t w d) ha fun o ho => ?_
  have hlive := h.live_of_waiter ((h.tasks.mem_wait ha.1 ha.2.1).mpr ho)
  exact ⟨hlive, (h.range o hlive).sublist (infos_filter t (waiters_give h.tasks.toPlaced))⟩

theorem CB.Served.sublist {cb : CB} {l l' : List WaitInfo} (h : cb.Served l) (hl : l'.Sublist l)
    (hcb : ∀ c, cb ≠ .sem c) : cb.Served l' := by
  cases cb with
  | sem c => exact absurd rfl (hcb c)
  | flg c => exact fun i hi => h i (hl.subset hi)
  | mbx c =>
    intro hne
    refine h fun hnil => hne ?_
    rw [hnil] at hl
    exact List.sublist_nil.mp hl

end TsukumoCore
