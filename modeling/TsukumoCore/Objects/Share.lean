import TsukumoCore.Objects.Serve
import TsukumoCore.Lib.Grant

/-!
# What the walk grants

The walk of `tkmc_sem_serve_waiters` is the walk of `Lib/Grant.lean` over the requests of the waiters.
-/

namespace TsukumoCore

variable {q : Tasks} {k : Kernel} {s : SemId} {t u : TskId} {granted : List TskId}

/-- The units a waiter asked for. -/
def request (q : Tasks) (t : TskId) : Int := (q.tcbs t).winfo.semcnt

/-- The semaphore serves whoever can be served, not only the first waiter. -/
def SEMCB.servesAll (cb : SEMCB) : Bool := decide (cb.sematr &&& TA_CNT ≠ 0)

/-- What the waiters in `rest` are to get. -/
def share (k : Kernel) (s : SemId) (rest : List TskId) : Grant.Share TskId :=
  Grant.walk (k.semcbs s).servesAll (request k.toTasks) (k.semcbs s).semcnt rest

/-! ## Several waits that end -/

/-- `F` ends the waits of `ended`, and looks at no other TCB to change one. -/
structure EndsWaits (F : Tasks → Tasks) (ended : List TskId) : Prop where
  congr : ∀ q q' u, q.tcbs u = q'.tcbs u → (F q).tcbs u = (F q').tcbs u
  other : ∀ q u, u ∉ ended → (F q).tcbs u = q.tcbs u
  queue : ∀ q o, (F q).wait_queue o = (q.wait_queue o).diff ended
  pending : ∀ q, (F q).pending = q.pending
  itskpri : ∀ q u, ((F q).tcbs u).itskpri = (q.tcbs u).itskpri

theorem endsWaits_none : EndsWaits id [] :=
  ⟨fun _ _ _ h => h, fun _ _ _ => rfl, fun _ _ => rfl, fun _ => rfl, fun _ _ => rfl⟩

theorem endsWaits_wake (t : TskId) : EndsWaits (Move.wakeEffect · t .E_OK) [t] := by
  refine ⟨?_, ?_, fun q o => (List.diff_cons (q.wait_queue o) [] t).symm, fun _ => rfl, ?_⟩
  · intro q q' u h
    by_cases hu : u = t
    · subst hu; simp [Move.wakeEffect, h]
    · simp [Move.wakeEffect, hu, h]
  · intro q u hu
    simp [Move.wakeEffect, List.mem_singleton.not.mp hu]
  · intro q u
    by_cases hu : u = t
    · subst hu; simp [Move.wakeEffect]
    · simp [Move.wakeEffect, hu]

theorem EndsWaits.comp {F G : Tasks → Tasks} {ended ended' : List TskId} (hF : EndsWaits F ended)
    (hG : EndsWaits G ended') : EndsWaits (fun q => G (F q)) (ended ++ ended') := by
  refine ⟨?_, ?_, ?_, ?_, ?_⟩
  · intro q q' u h
    exact hG.congr _ _ u (hF.congr q q' u h)
  · intro q u hu
    rw [List.mem_append, not_or] at hu
    rw [hG.other _ u hu.2, hF.other q u hu.1]
  · intro q o
    rw [hG.queue, hF.queue, List.diff_append]
  · intro q
    rw [hG.pending, hF.pending]
  · intro q u
    rw [hG.itskpri, hF.itskpri]

theorem EndsWaits.foldl {α : Type} {F : α → Tasks → Tasks} {g : α → TskId} (hF : ∀ x, EndsWaits (F x) [g x])
    (l : List α) : EndsWaits (fun q => l.foldl (fun q x => F x q) q) (l.map g) := by
  induction l with
  | nil => exact endsWaits_none
  | cons x rest ih => exact (hF x).comp ih

/-! ## Several grants -/

def wakeAll (q : Tasks) (granted : List TskId) : Tasks :=
  granted.foldl (fun q t => Move.wakeEffect q t .E_OK) q

theorem request_wake (q : Tasks) (t : TskId) (cause : ER) : request (Move.wakeEffect q t cause) = request q := by
  funext u
  unfold request Move.wakeEffect
  by_cases hu : u = t
  · subst hu; simp
  · simp [hu]

theorem endsWaits_wakeAll (granted : List TskId) : EndsWaits (wakeAll · granted) granted := by
  have h := EndsWaits.foldl (g := id) endsWaits_wake granted
  rw [List.map_id] at h
  exact h

/-- What a grant leaves on record. -/
def grantEvents (q : Tasks) (t : TskId) : List Event :=
  [.complete t (q.pending t) .E_OK (q.tcbs t).winfo, .enqueue t]

theorem wakeAll_log (q : Tasks) (granted : List TskId) :
    (wakeAll q granted).log = q.log ++ granted.flatMap (grantEvents q) := by
  induction granted generalizing q with
  | nil => simp [wakeAll]
  | cons t rest ih =>
    have hsame : grantEvents (Move.wakeEffect q t .E_OK) = grantEvents q := by
      funext u
      unfold grantEvents
      by_cases hu : u = t
      · subst hu; simp [Move.wakeEffect]
      · simp [Move.wakeEffect, hu]
    have hrest := ih (Move.wakeEffect q t .E_OK)
    unfold wakeAll at hrest ⊢
    rw [List.foldl_cons, hrest, hsame, List.flatMap_cons, ← List.append_assoc]
    rfl

/-! ## The walk -/

theorem share_cons (k : Kernel) (s : SemId) (pos : TskId) (rest : List TskId) :
    share k s (pos :: rest) =
      if (k.semcbs s).semcnt < request k.toTasks pos then
        if (k.semcbs s).servesAll then (share k s rest).pass pos
        else ⟨(k.semcbs s).semcnt, [], pos :: rest⟩
      else if (k.semcbs s).semcnt - request k.toTasks pos ≤ 0 then
        ⟨(k.semcbs s).semcnt - request k.toTasks pos, [pos], rest⟩
      else
        (Grant.walk (k.semcbs s).servesAll (request k.toTasks)
          ((k.semcbs s).semcnt - request k.toTasks pos) rest).grant pos := rfl

/-- The state after the grants. -/
def granting (k : Kernel) (s : SemId) (r : Grant.Share TskId) : Kernel :=
  (k.tasks (wakeAll · r.granted)).setSem s { k.semcbs s with semcnt := r.units }

theorem granting_nothing (k : Kernel) (s : SemId) (left : List TskId) :
    granting k s ⟨(k.semcbs s).semcnt, [], left⟩ = k := by
  simp [granting, wakeAll, Kernel.tasks, Kernel.setSem]

/-- The state after one grant. -/
def grantOne (k : Kernel) (s : SemId) (t : TskId) : Kernel :=
  (k.tasks (Move.wakeEffect · t .E_OK)).setSem s
    { k.semcbs s with semcnt := (k.semcbs s).semcnt - request k.toTasks t }

theorem granting_cons (k : Kernel) (s : SemId) (t : TskId) (r : Grant.Share TskId) :
    granting (grantOne k s t) s r = granting k s (r.grant t) := by
  simp [granting, grantOne, wakeAll, Kernel.tasks, Kernel.setSem, Grant.Share.grant]

theorem share_grantOne (k : Kernel) (s : SemId) (t : TskId) (rest : List TskId) :
    share (grantOne k s t) s rest = Grant.walk (k.semcbs s).servesAll (request k.toTasks)
      ((k.semcbs s).semcnt - request k.toTasks t) rest := by
  have hreq : request (grantOne k s t).toTasks = request k.toTasks := request_wake k.toTasks t .E_OK
  unfold share
  rw [hreq]
  simp [grantOne, Kernel.setSem, SEMCB.servesAll]

theorem serve_walk_cons (h : Core k.toTasks k.toObjects) (ht : t ∈ k.wait_queue (.sem s)) (rest : List TskId) :
    serve_walk s (t :: rest) k =
      if (k.semcbs s).semcnt < request k.toTasks t then
        if (k.semcbs s).servesAll then serve_walk s rest k else k
      else if (k.semcbs s).semcnt - request k.toTasks t ≤ 0 then grantOne k s t
      else serve_walk s rest (grantOne k s t) := by
  rw [serve_walk]
  split
  · rename_i hless
    rw [if_pos (show (k.semcbs s).semcnt < request k.toTasks t from hless)]
    unfold SEMCB.servesAll
    split <;> simp_all
  · rename_i hge
    have heq := (serve_one h ht (by omega)).2
    have hcnt : ((grantOne k s t).semcbs s).semcnt = (k.semcbs s).semcnt - request k.toTasks t := by
      simp [grantOne, Kernel.setSem]
    rw [if_neg (show ¬ (k.semcbs s).semcnt < request k.toTasks t from hge), ← hcnt]
    dsimp only
    rw [heq]
    rfl

theorem grantOne_core (h : Core k.toTasks k.toObjects) (ht : t ∈ k.wait_queue (.sem s))
    (hreq : request k.toTasks t ≤ (k.semcbs s).semcnt) :
    Core (grantOne k s t).toTasks (grantOne k s t).toObjects := by
  obtain ⟨hone, heq⟩ := serve_one h ht hreq
  have hcore := hone.core
  rw [heq] at hcore
  exact hcore

theorem grantOne_queue (h : Core k.toTasks k.toObjects) {ahead rest : List TskId}
    (hq : k.wait_queue (.sem s) = ahead ++ t :: rest) :
    (grantOne k s t).wait_queue (.sem s) = ahead ++ rest := by
  have hnodup : (ahead ++ t :: rest).Nodup := hq ▸ h.tasks.wait_nodup (.sem s)
  have ht : t ∉ ahead := fun hin =>
    (List.nodup_append.mp hnodup).2.2 t hin t List.mem_cons_self rfl
  simp only [grantOne, Kernel.setSem, Kernel.tasks, Move.wakeEffect, hq]
  rw [List.erase_append_right _ ht, List.erase_cons_head]

theorem serve_walk_eq (ahead rest : List TskId) (h : Core k.toTasks k.toObjects)
    (hq : k.wait_queue (.sem s) = ahead ++ rest) :
    serve_walk s rest k = granting k s (share k s rest) ∧
      (serve_walk s rest k).wait_queue (.sem s) = ahead ++ (share k s rest).left := by
  induction rest generalizing k ahead with
  | nil => exact ⟨(granting_nothing k s []).symm, hq⟩
  | cons pos rest ih =>
    have hpos : pos ∈ k.wait_queue (.sem s) := by simp [hq]
    rw [share_cons, serve_walk_cons h hpos]
    split
    · split
      · obtain ⟨heq, hqueue⟩ := ih (ahead ++ [pos]) h (by simp [hq])
        exact ⟨heq, by simpa [Grant.Share.pass] using hqueue⟩
      · exact ⟨(granting_nothing k s _).symm, hq⟩
    · rename_i hge
      split
      · exact ⟨rfl, grantOne_queue h hq⟩
      · obtain ⟨heq, hqueue⟩ := ih ahead (grantOne_core h hpos (by omega)) (grantOne_queue h hq)
        rw [heq, granting_cons, share_grantOne]
        rw [share_grantOne] at hqueue
        rw [heq, granting_cons, share_grantOne] at hqueue
        exact ⟨rfl, hqueue⟩

theorem serve_waiters_eq (h : Core k.toTasks k.toObjects) :
    tkmc_sem_serve_waiters k s = granting k s (share k s (k.wait_queue (.sem s))) ∧
      (tkmc_sem_serve_waiters k s).wait_queue (.sem s) = (share k s (k.wait_queue (.sem s))).left :=
  serve_walk_eq [] _ h rfl

/-- Where no waiter can be served, the walk has nothing to do. -/
theorem stuck_of_served (hs : SemServed (k.semcbs s) (reqs k.toTasks s)) :
    Grant.Stuck (k.semcbs s).servesAll (request k.toTasks) (k.semcbs s).semcnt (k.wait_queue (.sem s)) := by
  rw [reqs_eq] at hs
  unfold SemServed at hs
  unfold Grant.Stuck SEMCB.servesAll
  split at hs
  · rename_i hatr
    rw [if_neg (by simp [hatr])]
    intro u hu
    exact hs (request k.toTasks u) (by rw [List.head?_map, Option.mem_def.mp hu]; rfl)
  · rename_i hatr
    rw [if_pos (decide_eq_true hatr)]
    intro u hu
    exact hs (request k.toTasks u) (List.mem_map.mpr ⟨u, hu, rfl⟩)

end TsukumoCore
