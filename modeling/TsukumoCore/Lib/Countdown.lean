import Mathlib.Tactic.Basic

/-!
# Loops that count down

The loops of C code over a counter that ends at zero. In the rules an invariant says what holds with so
much left to do.
-/

namespace Countdown

variable {σ : Type*}

/-- `while (n--) body` -/
def times (body : σ → σ) : Nat → σ → σ
  | 0, s => s
  | n + 1, s => times body n (body s)

/-- `while (p && n) { body; n--; }` -/
def timesWhile (p : σ → Bool) (body : σ → σ) : Nat → σ → Nat × σ
  | 0, s => (0, s)
  | n + 1, s => if p s then timesWhile p body n (body s) else (n + 1, s)

/-- `while (n >= k) { body; n -= k; }` -/
def timesBy (k : Nat) (body : σ → σ) (n : Nat) (s : σ) : Nat × σ :=
  if _ : 0 < k ∧ k ≤ n then timesBy k body (n - k) (body s) else (n, s)
termination_by n
decreasing_by omega

variable {I : Nat → σ → Prop} {body : σ → σ} {p : σ → Bool} {n k : Nat} {s : σ}

theorem times_spec (hbody : ∀ n s, I (n + 1) s → I n (body s)) (hI : I n s) : I 0 (times body n s) := by
  induction n generalizing s with
  | zero => exact hI
  | succ n ih => exact ih (hbody n s hI)

theorem timesWhile_spec (hbody : ∀ n s, I (n + 1) s → I n (body s)) (hI : I n s) :
    I (timesWhile p body n s).1 (timesWhile p body n s).2 ∧
      ((timesWhile p body n s).1 = 0 ∨ p (timesWhile p body n s).2 = false) := by
  induction n generalizing s with
  | zero => exact ⟨hI, .inl rfl⟩
  | succ n ih =>
    unfold timesWhile
    split
    · exact ih (hbody n s hI)
    · rename_i hp
      exact ⟨hI, .inr (by simpa using hp)⟩

theorem timesBy_spec (hk : 0 < k) (hbody : ∀ n s, I (n + k) s → I n (body s)) (hI : I n s) :
    I (timesBy k body n s).1 (timesBy k body n s).2 ∧ (timesBy k body n s).1 < k := by
  induction n using Nat.strongRecOn generalizing s with
  | _ n ih =>
    unfold timesBy
    split
    · rename_i hn
      apply ih (n - k) (by omega)
      apply hbody
      rwa [Nat.sub_add_cancel hn.2]
    · rename_i hn
      exact ⟨hI, by omega⟩

end Countdown
