import Mathlib.Algebra.BigOperators.Group.List.Basic
import Mathlib.Algebra.Order.Ring.Int
import Mathlib.Data.List.DropRight

/-!
# Balances of a log

An event can set a balance anew or change it by an amount. Since the last time it was set, the balance is
what it was set to and the sum of the amounts.

An event can also say to whom the events after it are charged.
-/

namespace Ledger

variable {ε : Type*} (reset : ε → Option Int) (delta : ε → Int)

def step (n : Int) (e : ε) : Int := (reset e).getD (n + delta e)

def balance (log : List ε) : Int := log.foldl (step reset delta) 0

/-- The event neither sets the balance nor changes it. -/
def Silent (e : ε) : Prop := reset e = none ∧ delta e = 0

variable {reset delta}

theorem balance_note (log : List ε) (e : ε) :
    balance reset delta (log ++ [e]) = step reset delta (balance reset delta log) e := by
  simp [balance]

theorem balance_silent {log events : List ε} (h : ∀ e ∈ events, Silent reset delta e) :
    balance reset delta (log ++ events) = balance reset delta log := by
  induction events generalizing log with
  | nil => simp
  | cons e rest ih =>
    have he := h e List.mem_cons_self
    rw [← List.singleton_append, ← List.append_assoc,
      ih fun e' he' => h e' (List.mem_cons_of_mem _ he'), balance_note, step, he.1, he.2]
    simp

/-- Since the balance was last set, it is the sum of the amounts. -/
theorem balance_since {log post : List ε} (h : ∀ e ∈ post, reset e = none) :
    balance reset delta (log ++ post) = balance reset delta log + (post.map delta).sum := by
  induction post generalizing log with
  | nil => simp
  | cons e rest ih =>
    have he := h e List.mem_cons_self
    rw [← List.singleton_append, ← List.append_assoc,
      ih fun e' he' => h e' (List.mem_cons_of_mem _ he'), balance_note, step, he]
    simp [Int.add_assoc]

theorem sum_sub (gain loss : ε → Int) (log : List ε) :
    (log.map fun e => gain e - loss e).sum = (log.map gain).sum - (log.map loss).sum := by
  induction log with
  | nil => rfl
  | cons e rest ih =>
    simp only [List.map_cons, List.sum_cons, ih]
    omega

/-! ## Counts -/

/-- The events after the last one with `p`. -/
def since (p : ε → Bool) (log : List ε) : List ε := log.rtakeWhile fun e => !p e

theorem balance_eq_since (h : ∀ e n, reset e = some n → n = 0) (log : List ε) :
    balance reset delta log = ((since (fun e => (reset e).isSome) log).map delta).sum := by
  induction log using List.reverseRecOn with
  | nil => rfl
  | append_singleton log e ih =>
    unfold since at ih ⊢
    rw [balance_note, step]
    cases hr : reset e with
    | none =>
      rw [List.rtakeWhile_concat_pos _ _ _ (by simp [hr])]
      simp [ih]
    | some n =>
      rw [List.rtakeWhile_concat_neg _ _ _ (by simp [hr]), h e n hr]
      rfl

theorem sum_count (p : ε → Bool) (log : List ε) :
    (log.map fun e => if p e then (1 : Int) else 0).sum = log.countP p := by
  induction log with
  | nil => rfl
  | cons e rest ih =>
    rw [List.map_cons, List.sum_cons, ih, List.countP_cons]
    split <;> simp [Int.add_comm]

/-! ## Charges -/

section

variable {ι : Type*} (owner : ε → Option ι)

/-- Who is charged after the events. -/
def ownerAfter (o : ι) (log : List ε) : ι := log.foldl (fun o e => (owner e).getD o) o

/-- Each event with the one it is charged to. -/
def charged (o : ι) : List ε → List (ι × ε)
  | [] => []
  | e :: rest => (o, e) :: charged ((owner e).getD o) rest

variable {owner}

theorem charged_append (o : ι) (log post : List ε) :
    charged owner o (log ++ post) = charged owner o log ++ charged owner (ownerAfter owner o log) post := by
  induction log generalizing o with
  | nil => rfl
  | cons e rest ih => exact congrArg ((o, e) :: ·) (ih _)

theorem mem_charged {o : ι} {log : List ε} {x : ι × ε} (h : x ∈ charged owner o log) : x.2 ∈ log := by
  induction log generalizing o with
  | nil => exact absurd h List.not_mem_nil
  | cons e rest ih =>
    rcases List.mem_cons.mp h with rfl | h
    · exact List.mem_cons_self
    · exact List.mem_cons_of_mem _ (ih h)

theorem ownerAfter_of_all {u : ι} {post : List ε} (h : ∀ e ∈ post, ∀ v, owner e = some v → v = u) (o : ι) :
    ownerAfter owner o post = u ∨ ownerAfter owner o post = o ∧ ∀ e ∈ post, owner e = none := by
  induction post generalizing o with
  | nil => exact .inr ⟨rfl, by simp⟩
  | cons e rest ih =>
    have hrest := ih (fun e' he' => h e' (List.mem_cons_of_mem _ he')) ((owner e).getD o)
    cases he : owner e with
    | none =>
      rw [he] at hrest
      rcases hrest with hu | ⟨hsame, hnone⟩
      · exact .inl (by simpa [ownerAfter, he] using hu)
      · exact .inr ⟨by simpa [ownerAfter, he] using hsame, by simpa [he] using hnone⟩
    | some v =>
      obtain rfl := h e List.mem_cons_self v he
      rw [he] at hrest
      left
      rcases hrest with hu | ⟨hsame, -⟩
      · simpa [ownerAfter, he] using hu
      · simpa [ownerAfter, he] using hsame

end

end Ledger
