import TsukumoCore.Kernel.System

/-!
# 64-bit accesses to the timer

Two words for each: the machine time that is read is one that was, and no compare value on the way is below
both the old one and the new one.
-/

namespace TsukumoCore

variable {α : Type}

/-! ## Reading -/

theorem join_words {high low : Nat} (hlow : low < 2 ^ 32) : high <<< 32 ||| low = high * 2 ^ 32 + low := by
  rw [← Nat.shiftLeft_add_eq_or_of_lt hlow, Nat.shiftLeft_eq]

theorem read_round {time₁ time₂ time₃ : Nat} (h₁₂ : time₁ ≤ time₂) (h₂₃ : time₂ ≤ time₃) (hlt : time₃ < 2 ^ 64)
    (hsame : in_high time₁ = in_high time₃) : in_high time₁ <<< 32 ||| in_low time₂ = time₂ := by
  unfold in_high in_low at *
  rw [join_words (by omega)]
  omega

theorem read_mtime_spec {times : List Nat} {value reads : Nat} (hsorted : times.Pairwise (· ≤ ·))
    (hlt : ∀ time ∈ times, time < 2 ^ 64) (hread : read_mtime times = some (value, reads)) :
    2 ≤ reads ∧ times[reads - 2]? = some value := by
  induction times using read_mtime.induct generalizing value reads with
  | case1 time₁ time₂ time₃ rest =>
    rename_i high next_high hne ih
    simp only [List.pairwise_cons] at hsorted
    unfold read_mtime at hread
    rw [if_pos hne] at hread
    obtain ⟨⟨value', reads'⟩, hrest, heq⟩ := Option.map_eq_some_iff.mp hread
    obtain ⟨rfl, rfl⟩ := Prod.mk.inj heq
    have hlt' : ∀ time ∈ rest, time < 2 ^ 64 := by
      intro time htime
      exact hlt time (by simp [htime])
    obtain ⟨htwo, hget⟩ := ih hsorted.2.2.2 hlt' hrest
    refine ⟨by omega, ?_⟩
    show (time₁ :: time₂ :: time₃ :: rest)[reads' + 3 - 2]? = some value'
    rw [show reads' + 3 - 2 = reads' - 2 + 1 + 1 + 1 by omega]
    exact hget
  | case2 time₁ time₂ time₃ rest =>
    rename_i high next_high hsame
    simp only [List.pairwise_cons, List.mem_cons, forall_eq_or_imp] at hsorted
    unfold read_mtime at hread
    rw [if_neg hsame] at hread
    obtain ⟨rfl, rfl⟩ := Prod.mk.inj (Option.some.inj hread)
    refine ⟨by omega, ?_⟩
    have hround := read_round hsorted.1.1 hsorted.2.1.1 (hlt time₃ (by simp)) (not_not.mp hsame)
    exact congrArg some hround.symm
  | case3 times hshort =>
    unfold read_mtime at hread
    split at hread
    · exact absurd rfl (hshort _ _ _ _)
    · exact absurd hread (by simp)

/-! ## Writing -/

/-- The compare register after the first `n` writes of `write_mtimecmp`. -/
def mtimecmp_after (k : Kernel) (new n : Nat) : Nat := ((mtimecmp_writes new).take n).foldl out_w k.mtimecmp

theorem foldl_take_three {P : Nat → Prop} {f : Nat → α → Nat} {reg : Nat} {w₁ w₂ w₃ : α} (h₀ : P reg)
    (h₁ : P (f reg w₁)) (h₂ : P (f (f reg w₁) w₂)) (h₃ : P (f (f (f reg w₁) w₂) w₃)) (n : Nat) :
    P (([w₁, w₂, w₃].take n).foldl f reg) := by
  rcases n with _ | _ | _ | n
  · exact h₀
  · exact h₁
  · exact h₂
  · rw [List.take_of_length_le (by simp)]
    exact h₃

theorem mtimecmp_after_above {k : Kernel} {new : Nat} (hold : k.mtimecmp < 2 ^ 64) (hnew : new < 2 ^ 64) (n : Nat) :
    min k.mtimecmp new ≤ mtimecmp_after k new n := by
  unfold mtimecmp_after mtimecmp_writes
  apply foldl_take_three (P := fun reg => min k.mtimecmp new ≤ reg)
  · exact Nat.min_le_left _ _
  · simp only [out_w]
    omega
  · simp only [out_w]
    omega
  · simp only [out_w]
    omega

theorem write_mtimecmp_spec (k : Kernel) {new : Nat} (hnew : new < 2 ^ 64) : (write_mtimecmp k new).mtimecmp = new := by
  simp only [write_mtimecmp, mtimecmp_writes, List.foldl_cons, List.foldl_nil, out_w]
  omega

/-- The two words of the timer registers are never torn. -/
theorem timer_words_whole :
    (∀ (times : List Nat) (value reads : Nat), times.Pairwise (· ≤ ·) → (∀ time ∈ times, time < 2 ^ 64) →
      read_mtime times = some (value, reads) → 2 ≤ reads ∧ times[reads - 2]? = some value) ∧
    ∀ (k : Kernel) (new : Nat), k.mtimecmp < 2 ^ 64 → new < 2 ^ 64 →
      (mtimecmp_writes new).length = 3 ∧
      (∀ n, min k.mtimecmp new ≤ mtimecmp_after k new n) ∧
      (write_mtimecmp k new).mtimecmp = mtimecmp_after k new 3 ∧
      (write_mtimecmp k new).mtimecmp = new ∧
      ∀ n now, mtimecmp_after k new n ≤ now → k.mtimecmp ≤ now ∨ new ≤ now := by
  refine ⟨?_, ?_⟩
  · intro times value reads hsorted hlt hread
    exact read_mtime_spec hsorted hlt hread
  · intro k new hold hnew
    refine ⟨rfl, mtimecmp_after_above hold hnew, rfl, write_mtimecmp_spec k hnew, ?_⟩
    intro n now hnow
    have habove := mtimecmp_after_above hold hnew n
    omega

/-- A carry between the first two reads: the loop goes round again. -/
def carryTimes : List Nat := [0xffffffff, 0x100000000, 0x100000001, 0x100000002, 0x100000003, 0x100000004]

/-- The compare register one count before the carry. -/
def carryKernel : Kernel := { tkmc_init_tcb, init_objects, init_machine with mtimecmp := 0xffffffff }

theorem timer_words_whole_carry : (read_mtime carryTimes = some (0x100000003, 6) ∧
      carryTimes[6 - 2]? = some 0x100000003) ∧
    (∀ n, 0xffffffff ≤ mtimecmp_after carryKernel 0x10001869f n) ∧
    (write_mtimecmp carryKernel 0x10001869f).mtimecmp = 0x10001869f := by
  have hread : read_mtime carryTimes = some (0x100000003, 6) := by decide
  obtain ⟨-, habove, -, hlast, -⟩ := timer_words_whole.2 carryKernel 0x10001869f (by decide) (by decide)
  exact ⟨⟨hread, (timer_words_whole.1 carryTimes _ _ (by decide) (by decide) hread).2⟩, habove, hlast⟩

end TsukumoCore
