import Mathlib.Algebra.BigOperators.Group.List.Basic
import Mathlib.Algebra.Order.Ring.Int

/-!
# Sharing units among requests

A walk over requests in order. It grants a request if enough units are left. At one that asks for more it
stops, or passes it by if `all` is set, and it stops when no unit is left.
-/

namespace Grant

variable {α : Type*}

/-- What a walk leaves: units, the requests it granted, and those it did not. -/
structure Share (α : Type*) where
  units : Int
  granted : List α
  left : List α

def Share.grant (x : α) (r : Share α) : Share α := { r with granted := x :: r.granted }

def Share.pass (x : α) (r : Share α) : Share α := { r with left := x :: r.left }

def walk (all : Bool) (req : α → Int) : Int → List α → Share α
  | n, [] => ⟨n, [], []⟩
  | n, x :: rest =>
    if n < req x then
      if all then (walk all req n rest).pass x else ⟨n, [], x :: rest⟩
    else if n - req x ≤ 0 then ⟨n - req x, [x], rest⟩
    else (walk all req (n - req x) rest).grant x

/-- No request can be granted as things stand. -/
def Stuck (all : Bool) (req : α → Int) (n : Int) (l : List α) : Prop :=
  if all then ∀ x ∈ l, n < req x else ∀ x ∈ l.head?, n < req x

variable {all : Bool} {req : α → Int} {n : Int} {l : List α}

theorem walk_stuck (h : Stuck all req n l) : walk all req n l = ⟨n, [], l⟩ := by
  induction l with
  | nil => rfl
  | cons x rest ih =>
    unfold Stuck at h ih
    unfold walk
    cases all with
    | false =>
      have hx : n < req x := h x rfl
      rw [if_pos hx]
      rfl
    | true =>
      have hx : n < req x := h x List.mem_cons_self
      rw [if_pos hx, if_pos rfl, ih fun y hy => h y (List.mem_cons_of_mem x hy)]
      rfl

theorem Stuck.congr {req' : α → Int} (h : Stuck all req n l) (hreq : ∀ x ∈ l, req x = req' x) :
    Stuck all req' n l := by
  unfold Stuck at h ⊢
  split at h
  · rename_i hall
    rw [if_pos hall]
    intro x hx
    rw [← hreq x hx]
    exact h x hx
  · rename_i hall
    rw [if_neg hall]
    intro x hx
    rw [← hreq x (List.mem_of_mem_head? hx)]
    exact h x hx

theorem Stuck.less {m : Int} (h : Stuck all req n l) (hm : m ≤ n) : Stuck all req m l := by
  unfold Stuck at h ⊢
  split at h
  · rename_i hall
    rw [if_pos hall]
    intro x hx
    have := h x hx
    omega
  · rename_i hall
    rw [if_neg hall]
    intro x hx
    have := h x hx
    omega

/-- A new request among some that cannot be granted: it is granted if there is enough for it and if nobody
in front of it stops the walk. -/
theorem walk_insert {ahead behind : List α} {x : α} (h : Stuck all req n (ahead ++ behind)) (hx : 0 ≤ req x) :
    walk all req n (ahead ++ x :: behind) =
      if req x ≤ n ∧ (all ∨ ahead = []) then ⟨n - req x, [x], ahead ++ behind⟩
      else ⟨n, [], ahead ++ x :: behind⟩ := by
  induction ahead with
  | nil =>
    simp only [List.nil_append, or_true, and_true] at h ⊢
    by_cases hfits : req x ≤ n
    · have hge : ¬ n < req x := by omega
      have hrest := walk_stuck (h.less (show n - req x ≤ n by omega))
      simp [walk, hge, hfits, hrest, Share.grant]
    · have hless : n < req x := by omega
      simp [walk, hless, hfits, walk_stuck h, Share.pass]
  | cons y rest ih =>
    rw [List.cons_append] at h ⊢
    unfold Stuck at h ih
    unfold walk
    cases all with
    | false =>
      have hy : n < req y := h y rfl
      simp [hy]
    | true =>
      have hy : n < req y := h y List.mem_cons_self
      rw [if_pos hy, if_pos rfl, ih fun z hz => h z (List.mem_cons_of_mem y hz)]
      by_cases hfits : req x ≤ n
      · simp [hfits, Share.pass]
      · simp [hfits, Share.pass]

theorem walk_congr {req' : α → Int} (h : ∀ x ∈ l, req x = req' x) : walk all req n l = walk all req' n l := by
  induction l generalizing n with
  | nil => rfl
  | cons x rest ih =>
    have hrest : ∀ m, walk all req m rest = walk all req' m rest :=
      fun m => ih fun y hy => h y (List.mem_cons_of_mem x hy)
    simp only [walk, h x List.mem_cons_self, hrest]

theorem walk_left_sublist : (walk all req n l).left.Sublist l := by
  induction l generalizing n with
  | nil => exact List.Sublist.refl _
  | cons x rest ih =>
    unfold walk
    split
    · split
      · exact ih.cons_cons x
      · exact List.Sublist.refl _
    · split
      · exact List.sublist_cons_self x rest
      · exact ih.cons x

theorem walk_granted_sublist : (walk all req n l).granted.Sublist l := by
  induction l generalizing n with
  | nil => exact List.Sublist.refl _
  | cons x rest ih =>
    unfold walk
    split
    · split
      · exact ih.cons x
      · exact List.nil_sublist _
    · split
      · exact List.Sublist.cons_cons x (List.nil_sublist rest)
      · exact ih.cons_cons x

theorem walk_first : l = (walk false req n l).granted ++ (walk false req n l).left := by
  induction l generalizing n with
  | nil => rfl
  | cons x rest ih =>
    unfold walk
    split
    · rfl
    · split
      · rfl
      · exact congrArg (x :: ·) ih

theorem walk_units_le (hreq : ∀ x ∈ l, 0 ≤ req x) : (walk all req n l).units ≤ n := by
  induction l generalizing n with
  | nil => exact le_rfl
  | cons x rest ih =>
    have hx := hreq x List.mem_cons_self
    have hrest : ∀ m, (walk all req m rest).units ≤ m := fun m => ih fun y hy => hreq y (List.mem_cons_of_mem x hy)
    unfold walk
    split
    · split
      · exact hrest n
      · exact le_rfl
    · split
      · simp only
        omega
      · have := hrest (n - req x)
        simp only [Share.grant]
        omega

/-- A walk that goes on with `m` units more has granted what one walk with all of them grants. -/
theorem walk_add {m : Int} (hm : 1 ≤ m) :
    walk false req (n + m) l =
      let r := walk false req n l
      let r' := walk false req (r.units + m) r.left
      ⟨r'.units, r.granted ++ r'.granted, r'.left⟩ := by
  induction l generalizing n with
  | nil => rfl
  | cons x rest ih =>
    have hstep : walk false req n (x :: rest) =
        if n < req x then ⟨n, [], x :: rest⟩
        else if n - req x ≤ 0 then ⟨n - req x, [x], rest⟩
        else (walk false req (n - req x) rest).grant x := rfl
    rw [hstep]
    by_cases hless : n < req x
    · -- the first walk stops at once, and the second one does all
      simp [hless]
    · have hmore : ¬ n + m < req x := by omega
      have hunits : ¬ n + m - req x ≤ 0 := by omega
      have hnext : walk false req (n + m) (x :: rest) = (walk false req (n - req x + m) rest).grant x := by
        rw [walk, if_neg hmore, if_neg hunits, show n + m - req x = n - req x + m by omega]
      rw [hnext, if_neg hless]
      by_cases hnone : n - req x ≤ 0
      · -- it grants this one and has no unit left
        simp [hnone, Share.grant]
      · simp only [hnone, if_false, ih, Share.grant, List.cons_append]

theorem walk_concat {x : α} (hx : 1 ≤ req x) :
    walk all req n (l ++ [x]) =
      if (all ∨ (walk all req n l).left = []) ∧ req x ≤ (walk all req n l).units then
        ⟨(walk all req n l).units - req x, (walk all req n l).granted ++ [x], (walk all req n l).left⟩
      else { walk all req n l with left := (walk all req n l).left ++ [x] } := by
  induction l generalizing n with
  | nil =>
    by_cases hless : n < req x
    · have hnot : ¬ req x ≤ n := by omega
      simp [walk, hless, hnot, Share.pass]
    · have hle : req x ≤ n := by omega
      simp [walk, hless, hle, Share.grant]
  | cons y rest ih =>
    simp only [List.cons_append]
    unfold walk
    by_cases hless : n < req y
    · cases all with
      | false => simp [hless]
      | true =>
        simp only [hless, if_true, ih, Share.pass, true_or, true_and]
        split <;> rfl
    · simp only [hless, if_false]
      by_cases hnone : n - req y ≤ 0
      · have hnot : ¬ req x ≤ n - req y := by omega
        simp [hnone, hnot]
      · simp only [hnone, if_false, ih, Share.grant]
        split <;> rfl

/-- What is left of `n` units for `x`: those of the granted requests in front of it are gone. -/
def availableTo [DecidableEq α] (req : α → Int) (n : Int) (l granted : List α) (x : α) : Int :=
  n - (((l.takeWhile (· ≠ x)).filter (· ∈ granted)).map req).sum

theorem sublist_of_cons_ne {x y z : α} (h : [x, y].Sublist (z :: l)) (hne : x ≠ z) : [x, y].Sublist l := by
  cases h with
  | cons _ h => exact h
  | cons_cons _ _ => exact absurd rfl hne

theorem availableTo_cons_passed [DecidableEq α] {granted : List α} {x z : α} (hxz : x ≠ z)
    (hz : z ∉ granted) : availableTo req n (z :: l) granted x = availableTo req n l granted x := by
  simp [availableTo, Ne.symm hxz, hz]

theorem availableTo_cons_granted [DecidableEq α] {granted : List α} {x z : α} (hxz : x ≠ z) (hz : z ∉ l) :
    availableTo req n (z :: l) (z :: granted) x = availableTo req (n - req z) l granted x := by
  have hfilter : (l.takeWhile (· ≠ x)).filter (· ∈ z :: granted) =
      (l.takeWhile (· ≠ x)).filter (· ∈ granted) := by
    apply List.filter_congr
    intro y hy
    have hyz : y ≠ z := by
      rintro rfl
      exact hz ((List.takeWhile_sublist _).subset hy)
    simp [hyz]
  unfold availableTo
  rw [List.takeWhile_cons_of_pos (by simpa using Ne.symm hxz), List.filter_cons_of_pos (by simp), hfilter]
  simp only [List.map_cons, List.sum_cons]
  omega

theorem walk_passed [DecidableEq α] (hnodup : l.Nodup) {x y : α} (hxy : [x, y].Sublist l)
    (hy : y ∈ (walk true req n l).granted) (hx : x ∉ (walk true req n l).granted) :
    availableTo req n l (walk true req n l).granted x < req x := by
  induction l generalizing n with
  | nil => exact absurd (hxy.subset List.mem_cons_self) List.not_mem_nil
  | cons z rest ih =>
    obtain ⟨hz, hrest⟩ := List.nodup_cons.mp hnodup
    unfold walk at hx hy ⊢
    by_cases hless : n < req z
    · simp only [hless, if_true, Share.pass] at hx hy ⊢
      by_cases hxz : x = z
      · subst hxz
        simpa [availableTo] using hless
      · rw [availableTo_cons_passed hxz fun hmem => hz (walk_granted_sublist.subset hmem)]
        exact ih hrest (sublist_of_cons_ne hxy hxz) hy hx
    · simp only [hless, if_false] at hx hy ⊢
      by_cases hnone : n - req z ≤ 0
      · simp only [hnone, if_true, List.mem_singleton] at hx hy
        subst hy
        exact absurd ((sublist_of_cons_ne hxy hx).subset (by simp)) hz
      · simp only [hnone, if_false, Share.grant, List.mem_cons, not_or] at hx hy ⊢
        have hxy' := sublist_of_cons_ne hxy hx.1
        have hyz : y ≠ z := by
          rintro rfl
          exact hz (hxy'.subset (by simp))
        rw [availableTo_cons_granted hx.1 hz]
        exact ih hrest hxy' (hy.resolve_left hyz) hx.2

end Grant
