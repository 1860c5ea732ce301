import Mathlib.Algebra.Order.BigOperators.Group.List
import Mathlib.Algebra.Order.Ring.Int
import Mathlib.Data.List.Nodup

/-!
# Those in front

The part of a queue up to one that waits in it, and what they ask for together.
-/

namespace Front

variable {ι : Type*} [DecidableEq ι] {queue queue' : List ι} {u t : ι} {f : ι → Int}

/-- Those in front of `t`, and `t`. -/
def upTo (t : ι) (queue : List ι) : List ι := queue.takeWhile (· ≠ t) ++ [t]

theorem upTo_cons_self (t : ι) (queue : List ι) : upTo t (t :: queue) = [t] := by simp [upTo]

theorem upTo_cons_of_ne (h : u ≠ t) (queue : List ι) : upTo t (u :: queue) = u :: upTo t queue := by
  simp [upTo, h]

theorem upTo_split {ahead behind : List ι} (ht : t ∉ ahead) : upTo t (ahead ++ t :: behind) = ahead ++ [t] := by
  induction ahead with
  | nil => exact upTo_cons_self t behind
  | cons u rest ih =>
    obtain ⟨hne, hrest⟩ := not_or.mp (mt List.mem_cons.mpr ht)
    rw [List.cons_append, upTo_cons_of_ne (Ne.symm hne), ih hrest]
    rfl

theorem upTo_concat (ht : t ∈ queue) (u : ι) : upTo t (queue ++ [u]) = upTo t queue := by
  obtain ⟨ahead, behind, rfl, hahead⟩ := List.eq_append_cons_of_mem ht
  rw [List.append_assoc, List.cons_append, upTo_split hahead, upTo_split hahead]

theorem upTo_erase (hu : u ≠ t) (queue : List ι) : upTo t (queue.erase u) = (upTo t queue).erase u := by
  induction queue with
  | nil => simp [upTo, hu.symm]
  | cons v rest ih =>
    by_cases hvu : v = u
    · subst hvu
      rw [List.erase_cons_head, upTo_cons_of_ne hu, List.erase_cons_head]
    · rw [List.erase_cons_tail (by simpa using hvu)]
      by_cases hvt : v = t
      · subst hvt
        rw [upTo_cons_self, upTo_cons_self, List.erase_of_not_mem (by simpa using hu)]
      · rw [upTo_cons_of_ne hvt, upTo_cons_of_ne hvt, List.erase_cons_tail (by simpa using hvu), ih]

/-- In an order that the queue has, whoever `t` is not ahead of is in front. -/
theorem mem_upTo_of_not {R : ι → ι → Prop} (h : queue.Pairwise R) (hu : u ∈ queue) (ht : t ∈ queue) (hnot : ¬ R t u) :
    u ∈ upTo t queue := by
  obtain ⟨ahead, behind, rfl, hahead⟩ := List.eq_append_cons_of_mem ht
  rw [upTo_split hahead]
  rcases List.mem_append.mp hu with hmem | hmem
  · exact List.mem_append_left _ hmem
  · rcases List.mem_cons.mp hmem with rfl | hmem
    · simp
    · obtain ⟨-, hcons, -⟩ := List.pairwise_append.mp h
      exact absurd ((List.pairwise_cons.mp hcons).1 u hmem) hnot

theorem mem_upTo_of_sublist (hnodup : queue.Nodup) (hsub : queue'.Sublist queue) (hu : u ∈ queue') (ht : t ∈ queue')
    (hfront : u ∈ upTo t queue) : u ∈ upTo t queue' := by
  induction hsub with
  | slnil => cases ht
  | cons v hsub ih =>
    obtain ⟨hv, hrest⟩ := List.nodup_cons.mp hnodup
    have hvt : v ≠ t := by
      rintro rfl
      exact hv (hsub.subset ht)
    have hvu : u ≠ v := by
      rintro rfl
      exact hv (hsub.subset hu)
    rw [upTo_cons_of_ne hvt] at hfront
    exact ih hrest hu ht ((List.mem_cons.mp hfront).resolve_left hvu)
  | cons_cons v hsub ih =>
    by_cases hvt : v = t
    · subst hvt
      rwa [upTo_cons_self] at hfront ⊢
    · rw [upTo_cons_of_ne hvt] at hfront ⊢
      by_cases huv : u = v
      · rw [huv]
        exact List.mem_cons_self
      · have hu' := (List.mem_cons.mp hu).resolve_left huv
        have ht' := (List.mem_cons.mp ht).resolve_left (Ne.symm hvt)
        have hfront' := (List.mem_cons.mp hfront).resolve_left huv
        exact List.mem_cons_of_mem v (ih (List.nodup_cons.mp hnodup).2 hu' ht' hfront')

/-- What those up to `t` ask for. -/
def asked (f : ι → Int) (t : ι) (queue : List ι) : Int := ((upTo t queue).map f).sum

theorem asked_erase_of_mem (hu : u ≠ t) (hfront : u ∈ upTo t queue) :
    asked f t (queue.erase u) + f u = asked f t queue := by
  unfold asked
  have hsum := ((List.perm_cons_erase hfront).map f).sum_eq
  rw [List.map_cons, List.sum_cons] at hsum
  rw [upTo_erase hu, hsum, Int.add_comm]

theorem asked_erase_le (hu : u ≠ t) (hf : ∀ v ∈ queue, 0 ≤ f v) : asked f t (queue.erase u) ≤ asked f t queue := by
  by_cases hfront : u ∈ upTo t queue
  · have hsum := asked_erase_of_mem (f := f) hu hfront
    have hmem : u ∈ queue := by
      rcases List.mem_append.mp hfront with hmem | hmem
      · exact (List.takeWhile_sublist _).subset hmem
      · exact absurd (List.mem_singleton.mp hmem) hu
    have hnonneg := hf u hmem
    omega
  · unfold asked
    rw [upTo_erase hu, List.erase_of_not_mem hfront]

theorem asked_concat (ht : t ∈ queue) (u : ι) : asked f t (queue ++ [u]) = asked f t queue := by
  unfold asked
  rw [upTo_concat ht]

theorem asked_congr {g : ι → Int} (ht : t ∈ queue) (h : ∀ u ∈ queue, f u = g u) :
    asked f t queue = asked g t queue := by
  unfold asked
  congr 1
  refine List.map_congr_left fun u hu => ?_
  rcases List.mem_append.mp hu with hmem | hmem
  · exact h u ((List.takeWhile_sublist _).subset hmem)
  · rw [List.mem_singleton.mp hmem]
    exact h t ht

theorem first_le_asked (ht : t ∈ queue) (hf : ∀ v ∈ queue, 0 ≤ f v) : ∃ u ∈ queue.head?, f u ≤ asked f t queue := by
  cases queue with
  | nil => cases ht
  | cons u rest =>
    refine ⟨u, rfl, ?_⟩
    unfold asked
    by_cases hut : u = t
    · subst hut
      rw [upTo_cons_self]
      simp
    · rw [upTo_cons_of_ne hut, List.map_cons, List.sum_cons]
      have hrest : 0 ≤ ((upTo t rest).map f).sum := by
        refine List.sum_nonneg fun n hn => ?_
        obtain ⟨v, hv, rfl⟩ := List.mem_map.mp hn
        rcases List.mem_append.mp hv with hmem | hmem
        · exact hf v (List.mem_cons_of_mem u ((List.takeWhile_sublist _).subset hmem))
        · rw [List.mem_singleton.mp hmem]
          exact hf t ht
      omega

end Front
