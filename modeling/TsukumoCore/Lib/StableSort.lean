import Mathlib.Data.List.TakeWhile
import Mathlib.Order.Lattice

/-!
# Stable sorting by a key

A list is the stable sort of another one if it is sorted and has, for each key, the same elements in the same
order. There is one such list, and it is what `List.mergeSort` computes.
-/

variable {α β : Type*} [LinearOrder β]

structure IsStableSort (key : α → β) (l s : List α) : Prop where
  sorted : s.Pairwise fun a b => key a ≤ key b
  stable : ∀ p, (s.filter fun a => key a = p) = l.filter fun a => key a = p

variable {key key' : α → β} {l s s' : List α} {a x : α}

/-- What a sorted list is, key by key, is what it is. -/
theorem sorted_ext (hs : s.Pairwise fun a b => key a ≤ key b) (hs' : s'.Pairwise fun a b => key a ≤ key b)
    (h : ∀ p, (s.filter fun a => key a = p) = s'.filter fun a => key a = p) : s = s' := by
  have hmem : ∀ {s s' : List α}, (∀ p, (s.filter fun a => key a = p) = s'.filter fun a => key a = p) →
      ∀ a ∈ s, a ∈ s' := by
    intro s s' h a ha
    have ha' : a ∈ s.filter fun b => key b = key a := by simp [ha]
    rw [h] at ha'
    exact (List.mem_filter.mp ha').1
  induction s generalizing s' with
  | nil =>
    rw [eq_comm, List.eq_nil_iff_forall_not_mem]
    exact fun a ha => List.not_mem_nil (hmem (fun p => (h p).symm) a ha)
  | cons a s ih =>
    cases s' with
    | nil => exact absurd (hmem h a (by simp)) List.not_mem_nil
    | cons b s' =>
      obtain ⟨hle, hrest⟩ := List.pairwise_cons.mp hs
      obtain ⟨hle', hrest'⟩ := List.pairwise_cons.mp hs'
      -- both begin with the least key, and with the first element of that key
      have hkey : key a = key b := by
        apply le_antisymm
        · rcases List.mem_cons.mp (hmem (fun p => (h p).symm) b (by simp)) with rfl | hb
          · exact le_refl _
          · exact hle b hb
        · rcases List.mem_cons.mp (hmem h a (by simp)) with rfl | ha
          · exact le_refl _
          · exact hle' a ha
      have hab : a = b := by
        have hfirst := h (key a)
        rw [List.filter_cons_of_pos (by simp), List.filter_cons_of_pos (by simp [hkey])] at hfirst
        exact (List.cons.inj hfirst).1
      subst hab
      have htails : ∀ p, (s.filter fun b => key b = p) = s'.filter fun b => key b = p := by
        intro p
        have hp := h p
        by_cases hap : key a = p
        · rw [List.filter_cons_of_pos (by simp [hap]), List.filter_cons_of_pos (by simp [hap])] at hp
          exact (List.cons.inj hp).2
        · rwa [List.filter_cons_of_neg (by simp [hap]), List.filter_cons_of_neg (by simp [hap])] at hp
      rw [ih hrest hrest' htails]

theorem lt_of_mem_dropWhile (hs : s.Pairwise fun a b => key a ≤ key b) {p : β} (ha : a ∈ s.dropWhile (key · ≤ p)) :
    p < key a := by
  induction s with
  | nil => simp at ha
  | cons b s ih =>
    obtain ⟨hle, hs⟩ := List.pairwise_cons.mp hs
    by_cases hb : key b ≤ p
    · rw [List.dropWhile_cons_of_pos (by simpa using hb)] at ha
      exact ih hs ha
    · rw [List.dropWhile_cons_of_neg (by simpa using hb)] at ha
      rcases List.mem_cons.mp ha with rfl | ha
      · exact lt_of_not_ge hb
      · exact lt_of_lt_of_le (lt_of_not_ge hb) (hle a ha)

namespace IsStableSort

theorem nil : IsStableSort key [] [] := ⟨.nil, fun _ => rfl⟩

theorem mem_iff (h : IsStableSort key l s) : a ∈ s ↔ a ∈ l := by
  have hiff : ∀ l : List α, a ∈ l ↔ a ∈ l.filter fun b => key b = key a := by simp
  rw [hiff s, hiff l, h.stable]

theorem congr (h : IsStableSort key l s) (hkey : ∀ a ∈ s, key' a = key a) : IsStableSort key' l s := by
  have hfilter : ∀ l : List α, (∀ a ∈ l, key' a = key a) → ∀ p,
      (l.filter fun a => key' a = p) = l.filter fun a => key a = p := by
    intro l hl p
    exact List.filter_congr fun a ha => by rw [hl a ha]
  refine ⟨h.sorted.imp_of_mem fun {a b} ha hb hle => ?_, fun p => ?_⟩
  · rwa [hkey a ha, hkey b hb]
  · rw [hfilter s hkey, hfilter l fun a ha => hkey a (h.mem_iff.mpr ha), h.stable]

theorem insert (h : IsStableSort key l s) (x : α) :
    IsStableSort key (l ++ [x]) (s.takeWhile (key · ≤ key x) ++ x :: s.dropWhile (key · ≤ key x)) := by
  have hsplit : s.takeWhile (key · ≤ key x) ++ s.dropWhile (key · ≤ key x) = s := List.takeWhile_append_dropWhile
  have hfront : ∀ a ∈ s.takeWhile (key · ≤ key x), key a ≤ key x := by
    intro a ha
    simpa using List.mem_takeWhile_imp ha
  have hback : ∀ a ∈ s.dropWhile (key · ≤ key x), key x < key a := fun a ha => lt_of_mem_dropWhile h.sorted ha
  refine ⟨?_, fun p => ?_⟩
  · have hsorted := h.sorted
    rw [← hsplit, List.pairwise_append] at hsorted
    obtain ⟨h₁, h₂, h₃⟩ := hsorted
    refine List.pairwise_append.mpr ⟨h₁, List.pairwise_cons.mpr ⟨fun a ha => (hback a ha).le, h₂⟩, ?_⟩
    intro a ha b hb
    rcases List.mem_cons.mp hb with rfl | hb
    · exact hfront a ha
    · exact h₃ a ha b hb
  · have hstable := h.stable p
    rw [← hsplit, List.filter_append] at hstable
    rw [List.filter_append, List.filter_append, ← hstable]
    by_cases hp : key x = p
    · subst hp
      have hnone : (s.dropWhile (key · ≤ key x)).filter (fun a => key a = key x) = [] := by
        rw [List.filter_eq_nil_iff]
        intro a ha
        simpa using (hback a ha).ne'
      simp [hnone]
    · simp [hp]

theorem tail [DecidableEq α] (h : IsStableSort key l (a :: s)) : IsStableSort key (l.erase a) s := by
  refine ⟨(List.pairwise_cons.mp h.sorted).2, fun p => ?_⟩
  rw [← List.erase_filter, ← h.stable]
  by_cases hp : key a = p
  · rw [List.filter_cons_of_pos (by simp [hp]), List.erase_cons_head]
  · rw [List.filter_cons_of_neg (by simp [hp]), List.erase_of_not_mem (by simp [hp])]

theorem mergeSort (key : α → β) (l : List α) : IsStableSort key l (l.mergeSort fun a b => key a ≤ key b) := by
  have htrans : ∀ a b c : α, decide (key a ≤ key b) → decide (key b ≤ key c) → decide (key a ≤ key c) := by
    intro a b c hab hbc
    simp only [decide_eq_true_eq] at *
    exact hab.trans hbc
  have htotal : ∀ a b : α, (decide (key a ≤ key b) || decide (key b ≤ key a)) = true := by
    intro a b
    simpa using le_total (key a) (key b)
  have hsorted : (l.mergeSort fun a b => key a ≤ key b).Pairwise fun a b => decide (key a ≤ key b) :=
    List.pairwise_mergeSort htrans htotal l
  refine ⟨hsorted.imp fun h => of_decide_eq_true h, fun p => ?_⟩
  -- the elements of one key are a sorted part of the list, and there are as many of them after it is sorted
  have hpart : ((l.filter fun a => key a = p).Pairwise fun a b => decide (key a ≤ key b)) := by
    refine List.Pairwise.imp_of_mem ?_ (List.pairwise_of_forall (R := fun _ _ => True) fun _ _ => trivial)
    intro a b ha hb _
    have ha' := (List.mem_filter.mp ha).2
    have hb' := (List.mem_filter.mp hb).2
    simp only [decide_eq_true_eq] at *
    exact (ha'.trans hb'.symm).le
  have hsub := List.sublist_mergeSort htrans htotal hpart List.filter_sublist
  have hsub' : (l.filter fun a => key a = p).Sublist
      ((l.mergeSort fun a b => key a ≤ key b).filter fun a => key a = p) := by
    have := hsub.filter fun a => key a = p
    rwa [List.filter_filter, show (fun a => decide (key a = p) && decide (key a = p)) = fun a => decide (key a = p)
      from funext fun a => Bool.and_self _] at this
  have hlen := ((List.mergeSort_perm l fun a b => key a ≤ key b).filter fun a => key a = p).length_eq
  exact (hsub'.eq_of_length hlen.symm).symm

theorem eq_mergeSort (h : IsStableSort key l s) : s = l.mergeSort fun a b => key a ≤ key b :=
  sorted_ext h.sorted (mergeSort key l).sorted fun p => by rw [h.stable, (mergeSort key l).stable]

end IsStableSort
