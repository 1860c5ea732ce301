import Mathlib.Data.List.Basic

/-!
# Offering a value in turn

Each of some takers is offered the value in turn. One that takes it leaves what is left of it to those
behind, and keeps what it was offered.
-/

namespace Offer

variable {α σ : Type*}

structure Outcome (α σ : Type*) where
  value : σ
  taken : List (α × σ)
  left : List α

/-- `take x v` is what is left of `v` after `x` took it, if it does. -/
def walk (take : α → σ → Option σ) : σ → List α → Outcome α σ
  | v, [] => ⟨v, [], []⟩
  | v, x :: rest =>
    match take x v with
    | some v' => { walk take v' rest with taken := (x, v) :: (walk take v' rest).taken }
    | none => { walk take v rest with left := x :: (walk take v rest).left }

variable {take : α → σ → Option σ} {v v' : σ} {x : α}

theorem walk_cons_some {rest : List α} (h : take x v = some v') :
    walk take v (x :: rest) = { walk take v' rest with taken := (x, v) :: (walk take v' rest).taken } := by
  simp only [walk, h]

theorem walk_cons_none {rest : List α} (h : take x v = none) :
    walk take v (x :: rest) = { walk take v rest with left := x :: (walk take v rest).left } := by
  simp only [walk, h]

theorem walk_concat (take : α → σ → Option σ) (v : σ) (l : List α) (x : α) :
    walk take v (l ++ [x]) =
      match take x (walk take v l).value with
      | some v' => ⟨v', (walk take v l).taken ++ [(x, (walk take v l).value)], (walk take v l).left⟩
      | none => ⟨(walk take v l).value, (walk take v l).taken, (walk take v l).left ++ [x]⟩ := by
  induction l generalizing v with
  | nil =>
    rw [List.nil_append]
    cases h : take x v with
    | some v' => simp [walk, h]
    | none => simp [walk, h]
  | cons y rest ih =>
    rw [List.cons_append]
    cases hy : take y v with
    | some v' =>
      rw [walk_cons_some hy, walk_cons_some hy, ih v']
      dsimp only
      split <;> rfl
    | none =>
      rw [walk_cons_none hy, walk_cons_none hy, ih v]
      dsimp only
      split <;> rfl

theorem walk_left_sublist (take : α → σ → Option σ) (v : σ) (l : List α) :
    (walk take v l).left.Sublist l := by
  induction l generalizing v with
  | nil => exact List.Sublist.refl _
  | cons x rest ih =>
    cases h : take x v with
    | some v' =>
      rw [walk_cons_some h]
      exact (ih v').cons x
    | none =>
      rw [walk_cons_none h]
      exact (ih v).cons_cons x

theorem walk_taken_subset (take : α → σ → Option σ) (v : σ) (l : List α) :
    ∀ y ∈ (walk take v l).taken, y.1 ∈ l := by
  induction l generalizing v with
  | nil => simp [walk]
  | cons x rest ih =>
    intro y hy
    cases h : take x v with
    | some v' =>
      rw [walk_cons_some h] at hy
      rcases List.mem_cons.mp hy with rfl | hy
      · exact List.mem_cons_self
      · exact List.mem_cons_of_mem x (ih v' y hy)
    | none =>
      rw [walk_cons_none h] at hy
      exact List.mem_cons_of_mem x (ih v y hy)

theorem walk_congr {take' : α → σ → Option σ} {l : List α} (h : ∀ x ∈ l, take x = take' x) (v : σ) :
    walk take v l = walk take' v l := by
  induction l generalizing v with
  | nil => rfl
  | cons x rest ih =>
    have hrest := ih fun y hy => h y (List.mem_cons_of_mem x hy)
    simp only [walk, h x List.mem_cons_self, hrest]

end Offer
