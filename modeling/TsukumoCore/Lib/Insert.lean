import Mathlib.Data.List.TakeDrop
import Mathlib.Data.List.TakeWhile

/-!
# Insertion at the first place that fits

A scan that stops at the first element that satisfies `p` and inserts in front of it splits the list
there.
-/

/-- The list with `new` put in front of the first `pos`. -/
def insertBefore {α : Type*} [DecidableEq α] (new pos : α) : List α → List α
  | [] => []
  | x :: rest => if x = pos then new :: x :: rest else x :: insertBefore new pos rest

namespace List

variable {α : Type*}

theorem insertBefore_find [DecidableEq α] {p : α → Bool} {new pos : α} {l : List α} (h : l.find? p = some pos) :
    insertBefore new pos l = (l.takeWhile fun x => !p x) ++ new :: l.dropWhile fun x => !p x := by
  induction l with
  | nil => simp at h
  | cons x rest ih =>
    by_cases hp : p x
    · have hx : x = pos := by simpa [hp] using h
      subst hx
      simp [insertBefore, hp]
    · have hrest : rest.find? p = some pos := by simpa [hp] using h
      have hx : x ≠ pos := by
        rintro rfl
        exact hp (find?_some h)
      simp [insertBefore, hx, hp, ih hrest]

theorem concat_of_find_none {p : α → Bool} {new : α} {l : List α} (h : l.find? p = none) :
    l ++ [new] = (l.takeWhile fun x => !p x) ++ new :: l.dropWhile fun x => !p x := by
  have hall : ∀ x ∈ l, (!p x) = true := by
    intro x hx
    simpa using find?_eq_none.mp h x hx
  rw [takeWhile_eq_self_iff.mpr hall, dropWhile_eq_nil_iff.mpr hall]

end List
