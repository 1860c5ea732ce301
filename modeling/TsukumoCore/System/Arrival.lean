import TsukumoCore.Support.Insertion
import TsukumoCore.System.Rank

/-!
# The order of arrival

What the wait queue of an object is, and that the three codes that insert a task in one agree.
-/

namespace TsukumoCore

open Ring

variable {b : Boot} {k : Kernel} {q : Tasks} {t : TskId} {h : Heap} {A : Rings UINT} {head offset : UINT}

/-- The queue of `o` holds the tasks that wait on it: in their order of arrival, or by their priority and, where
it is the same, in their order of arrival. -/
structure InArrivalOrder (k : Kernel) (o : Obj) : Prop where
  waiters : ∀ t, t ∈ k.wait_queue o ↔
    (k.tcbs t).tskstat = .WAI ∧ ∃ w, k.pending t = some (.wait w) ∧ w.obj = some o
  once : (k.wait_queue o).Nodup
  fifo : k.atr o &&& TA_TPRI = 0 → (k.wait_queue o).Pairwise (Turn.Earlier joins k.log)
  priority : k.atr o &&& TA_TPRI ≠ 0 → (k.wait_queue o).Pairwise fun u t =>
    (k.tcbs u).itskpri < (k.tcbs t).itskpri ∨
      (k.tcbs u).itskpri = (k.tcbs t).itskpri ∧ Turn.Earlier joins k.log u t

theorem Reachable.inArrivalOrder (h : Reachable b k) (o : Obj) : InArrivalOrder k o := by
  have hcore := h.inv.core
  have hrank := h.ranked.rank o
  refine ⟨fun t => ⟨fun ht => ?_, ?_⟩, ?_, fun hatr => ?_, fun hatr => ?_⟩
  · exact hcore.tasks.pending_of_mem ht
  · rintro ⟨hs, w, hp, hobj⟩
    exact (hcore.tasks.mem_wait hs hp).mpr hobj
  · refine hrank.imp fun {u t} hahead heq => ?_
    subst heq
    exact hahead.asymm hahead
  · refine hrank.imp fun {u t} hahead => ?_
    unfold Ahead at hahead
    rwa [if_neg (by simpa using hatr)] at hahead
  · refine hrank.imp fun {u t} hahead => ?_
    unfold Ahead at hahead
    rwa [if_pos hatr] at hahead

/-! ## The three insertions -/

theorem queueBy_links {itskpri : UINT → Int} {tcb : TskId → UINT}
    (hpri : ∀ u, itskpri (tcb u) = (q.tcbs u).itskpri) (atr : ATR) (queue : List TskId) :
    (if atr &&& TA_TPRI ≠ 0 then
        ((queue.map fun u => tcb u + offset).takeWhile
          fun x => !decide (itskpri (tcb t) < itskpri (tkmc_list_entry x offset))) ++
          (tcb t + offset) :: (queue.map fun u => tcb u + offset).dropWhile
            fun x => !decide (itskpri (tcb t) < itskpri (tkmc_list_entry x offset))
      else (queue.map fun u => tcb u + offset) ++ [tcb t + offset]) =
      (queueBy q t atr queue).map fun u => tcb u + offset := by
  have hkey : ((fun x => !decide (itskpri (tcb t) < itskpri (tkmc_list_entry x offset))) ∘
      fun u => tcb u + offset) = fun u => decide ((q.tcbs u).itskpri ≤ (q.tcbs t).itskpri) := by
    funext u
    have hentry : tkmc_list_entry (tcb u + offset) offset = tcb u := (entry_eq_iff.mp rfl).symm
    simp only [Function.comp_apply, hentry, hpri, ← decide_not, Int.not_lt]
  unfold queueBy
  split
  · rw [List.takeWhile_map, List.dropWhile_map, hkey, List.map_append, List.map_cons]
  · rw [List.map_append, List.map_singleton]

/-- From the same ring and the same task, whose link is on no ring, the three codes leave the same links. The
ring is then the queue with the task in its place. -/
theorem insertions_agree {itskpri : UINT → Int} {tcb : TskId → UINT} {queue : List TskId} (hR : Represents h A)
    (hl : A head = some (queue.map fun u => tcb u + offset)) (hd : Detached A (tcb t + offset))
    (hpri : ∀ u, itskpri (tcb u) = (q.tcbs u).itskpri) (atr : ATR) {fuel : Nat} (hfuel : queue.length < fuel) :
    ∃ h', Heap.insert_sem itskpri head offset (tcb t) h atr fuel = some h' ∧
      Heap.insert_flg itskpri head offset (tcb t) h atr fuel = some h' ∧
      Heap.insert_waiter itskpri head offset (tcb t) (tkmc_init_list_head h (tcb t + offset)) atr fuel = some h' ∧
      Becomes h A h' head ((queueBy q t atr queue).map fun u => tcb u + offset) := by
  have hR₀ := init_represents hR hd
  have hr := hR₀.ring hl
  have hfuel' : (queue.map fun u => tcb u + offset).length < fuel := by rwa [List.length_map]
  refine ⟨_, insert_sem_eq hr atr hfuel', insert_flg_eq hr atr hfuel', insert_waiter_links_eq hr atr hfuel', ?_⟩
  have hbecomes := lower_becomes itskpri offset (tcb t) hR₀ hl hd atr
  rw [queueBy_links hpri] at hbecomes
  refine ⟨hbecomes.represents, @fun head' l' x hl' hne hx => ?_⟩
  have hsame := (hR.ring hl').same_links (hR₀.ring hl') hx
  have hothers := hbecomes.others hl' hne hx
  rwa [hsame.1, hsame.2] at hothers

theorem insert_by_atr_queue (q : Tasks) (t : TskId) (o : Obj) (atr : ATR) :
    (insert_by_atr q t o atr).wait_queue o = queueBy q t atr (q.wait_queue o) := by
  unfold insert_by_atr
  by_cases hatr : atr &&& TA_TPRI ≠ 0
  · rw [if_pos hatr, queueBy_first_lower hatr]
    split
    · rename_i hempty
      have hnone : first_lower q t (q.wait_queue o) = none := by rw [hempty]; rfl
      rw [hnone]
      simp [Tasks.add_wait_tail]
    · cases first_lower q t (q.wait_queue o) <;> simp [Tasks.add_wait_tail, Tasks.add_wait_before]
  · rw [if_neg hatr, queueBy, if_neg hatr]
    simp [Tasks.add_wait_tail]

theorem insert_waiter_queue (q : Tasks) (t : TskId) (m : MbxId) (atr : ATR) :
    (insert_waiter q t m atr).wait_queue (.mbx m) = queueBy q t atr (q.wait_queue (.mbx m)) := by
  unfold insert_waiter
  by_cases hatr : atr &&& TA_TPRI ≠ 0
  · rw [if_pos hatr, queueBy_first_lower hatr]
    cases first_lower q t (q.wait_queue (.mbx m)) <;> simp [Tasks.add_wait_tail, Tasks.add_wait_before]
  · rw [if_neg hatr, queueBy, if_neg hatr]
    simp [Tasks.add_wait_tail]

/-! ## The whole -/

/-- **Wait queues keep their declared order**, and the three codes that insert in them agree: on the links, and
with the queues of the tasks that the order is about. -/
theorem wait_queues_ordered (hk : Reachable b k) :
    (∀ o, k.Live o → InArrivalOrder k o) ∧
    (∀ (h : Heap) (A : Rings UINT) (head offset : UINT) (itskpri : UINT → Int) (tcb : TskId → UINT) (q : Tasks)
      (t : TskId) (queue : List TskId) (atr : ATR) (fuel : Nat), Represents h A →
      A head = some (queue.map fun u => tcb u + offset) → Detached A (tcb t + offset) →
      (∀ u, itskpri (tcb u) = (q.tcbs u).itskpri) → queue.length < fuel →
      ∃ h', Heap.insert_sem itskpri head offset (tcb t) h atr fuel = some h' ∧
        Heap.insert_flg itskpri head offset (tcb t) h atr fuel = some h' ∧
        Heap.insert_waiter itskpri head offset (tcb t) (tkmc_init_list_head h (tcb t + offset)) atr fuel = some h' ∧
        Becomes h A h' head ((queueBy q t atr queue).map fun u => tcb u + offset)) ∧
    (∀ (q : Tasks) (t : TskId) (o : Obj) (m : MbxId) (atr : ATR),
      (insert_by_atr q t o atr).wait_queue o = queueBy q t atr (q.wait_queue o) ∧
      (insert_waiter q t m atr).wait_queue (.mbx m) = queueBy q t atr (q.wait_queue (.mbx m))) := by
  refine ⟨fun o _ => hk.inArrivalOrder o, ?_, ?_⟩
  · intro h A head offset itskpri tcb q t queue atr fuel hR hl hd hpri hfuel
    exact insertions_agree hR hl hd hpri atr hfuel
  · exact fun q t o m atr => ⟨insert_by_atr_queue q t o atr, insert_waiter_queue q t m atr⟩

/-- Two tasks of the same priority wait on a `TA_TPRI` semaphore. -/
def arrivalRun : List Act :=
  [.call (.cre_tsk (some { exinf := 0, tskatr := TA_USERBUF, task := 0x80004000, itskpri := 1, stksz := 512,
                           bufptr := 0x80020000 })) [],
    .call (.cre_sem (some { exinf := 0, sematr := TA_TPRI, isemcnt := 0, maxsem := 2 })) [],
    .call (.sta_tsk 3 0) [], .call (.wait (.sem 1 2 TMO_FEVR)) [], .software_interrupt 0,
    .call (.wait (.sem 1 1 TMO_FEVR)) [], .software_interrupt 0]

/-- The tasks that `twoRings` holds the links of, and a third one. -/
def threeTasks : Tasks :=
  { tkmc_init_tcb with
    tcbs := fun u => { tkmc_init_tcb.tcbs u with itskpri := if u = 0 then 1 else if u = 1 then 3 else 2 } }

def threeTcbs (u : TskId) : UINT := if u = 0 then 0x200 else if u = 1 then 0x300 else 0x500

def threePris (a : UINT) : Int := if a = 0x200 then 1 else if a = 0x300 then 3 else 2

theorem wait_queues_ordered_arrivalRun :
    (∃ k, sampleRun arrivalRun = some k ∧ k.wait_queue (.sem 0) = [0, 2] ∧ InArrivalOrder k (.sem 0)) ∧
    ∃ h', Heap.insert_sem threePris 0x100 8 0x500 twoRings TA_TPRI 3 = some h' ∧
      Becomes twoRings twoSequences h' 0x100 [0x208, 0x508, 0x308] := by
  obtain ⟨k, hk, hlive, hqueue⟩ := sampleRun_of_any arrivalRun
    (fun k => noexs (k.semcbs 0).semid = false ∧ k.wait_queue (.sem 0) = [0, 2]) (by decide +kernel)
  obtain ⟨horder, hinsert, -⟩ := wait_queues_ordered (sampleRun_reachable hk)
  refine ⟨⟨k, hk, hqueue, horder (.sem 0) hlive⟩, ?_⟩
  have hl : twoSequences 0x100 = some ([0, 1].map fun u => threeTcbs u + 8) := by simp [twoSequences, threeTcbs]
  have hd : Detached twoSequences (threeTcbs 2 + 8) := by
    intro head l hhead
    obtain ⟨rfl, rfl⟩ | ⟨rfl, rfl⟩ := twoSequences_cases hhead <;> simp [threeTcbs]
  have hpri : ∀ u, threePris (threeTcbs u) = (threeTasks.tcbs u).itskpri := by
    intro u
    unfold threeTcbs threePris threeTasks
    by_cases h0 : u = 0
    · simp [h0]
    · by_cases h1 : u = 1 <;> simp [h0, h1]
  obtain ⟨h', hsem, -, -, hbecomes⟩ := hinsert twoRings twoSequences 0x100 8 threePris threeTcbs threeTasks 2 [0, 1]
    TA_TPRI 3 twoRings_represents hl hd hpri (by decide)
  exact ⟨h', hsem, hbecomes⟩

end TsukumoCore
