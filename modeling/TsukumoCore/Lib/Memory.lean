import Mathlib.Data.BitVec

/-!
# Words in a byte memory

A 32-bit address space of bytes, with words in little-endian order. Addresses wrap.
-/

namespace Memory

abbrev Word := BitVec 32

abbrev Mem := Word → BitVec 8

def load (m : Mem) (a : Word) : Word := m (a + 3) ++ m (a + 2) ++ m (a + 1) ++ m a

def store (m : Mem) (a v : Word) : Mem := fun x =>
  if x = a then v.extractLsb' 0 8
  else if x = a + 1 then v.extractLsb' 8 8
  else if x = a + 2 then v.extractLsb' 16 8
  else if x = a + 3 then v.extractLsb' 24 8
  else m x

/-- The block of `n` bytes at `a` and the one of `l` bytes at `b` have no byte in common: neither begins
inside the other. -/
def Apart (a : Word) (n : Nat) (b : Word) (l : Nat) : Prop := n ≤ (b - a).toNat ∧ l ≤ (a - b).toNat

instance (a : Word) (n : Nat) (b : Word) (l : Nat) : Decidable (Apart a n b l) := by unfold Apart; infer_instance

/-- The word with the index `i` of a block. -/
def word (base : Word) (i : Nat) : Word := base + BitVec.ofNat 32 (i * 4)

variable {m m' : Mem} {a b v base : Word} {n l i j : Nat}

theorem Apart.symm (h : Apart a n b l) : Apart b l a n := ⟨h.2, h.1⟩

theorem apart_of_le (hn : 0 < n) (hab : a.toNat + n ≤ b.toNat) (hl : b.toNat + l ≤ 2 ^ 32) : Apart a n b l := by
  unfold Apart
  constructor <;> bv_omega

theorem Apart.part (h : Apart a n b l) (hj : 0 < j) (hij : i + j ≤ n) : Apart (a + BitVec.ofNat 32 i) j b l := by
  obtain ⟨hba, hab⟩ := h
  have hlt : (b - a).toNat < 2 ^ 32 := (b - a).isLt
  have hi : (BitVec.ofNat 32 i).toNat = i := by rw [BitVec.toNat_ofNat, Nat.mod_eq_of_lt (by omega)]
  generalize BitVec.ofNat 32 i = x at hi
  subst hi
  unfold Apart
  constructor <;> bv_omega

theorem Apart.word_of_block (h : Apart a n b l) (hi : i * 4 + 4 ≤ n) : Apart (word a i) 4 b l :=
  h.part (by omega) hi

theorem apart_words (hi : i < 2 ^ 30) (hj : j < 2 ^ 30) (hij : i ≠ j) : Apart (word base i) 4 (word base j) 4 := by
  have hi' : (BitVec.ofNat 32 (i * 4)).toNat = i * 4 := by rw [BitVec.toNat_ofNat, Nat.mod_eq_of_lt (by omega)]
  have hj' : (BitVec.ofNat 32 (j * 4)).toNat = j * 4 := by rw [BitVec.toNat_ofNat, Nat.mod_eq_of_lt (by omega)]
  unfold Apart word
  generalize BitVec.ofNat 32 (i * 4) = x at hi'
  generalize BitVec.ofNat 32 (j * 4) = y at hj'
  constructor <;> bv_omega

/-! ## Loads after stores -/

theorem join_bytes (v : Word) :
    v.extractLsb' 24 8 ++ v.extractLsb' 16 8 ++ v.extractLsb' 8 8 ++ v.extractLsb' 0 8 = v := by
  rw [BitVec.extractLsb'_append_extractLsb'_eq_extractLsb' (by omega),
    BitVec.extractLsb'_append_extractLsb'_eq_extractLsb' (by omega),
    BitVec.extractLsb'_append_extractLsb'_eq_extractLsb' (by omega)]
  simp

theorem load_store (m : Mem) (a v : Word) : load (store m a v) a = v := by
  have h1 : a + 1 ≠ a := by simp
  have h2 : a + 2 ≠ a := by simp
  have h3 : a + 3 ≠ a := by simp
  have h21 : a + 2 ≠ a + 1 := by simp
  have h31 : a + 3 ≠ a + 1 := by simp
  have h32 : a + 3 ≠ a + 2 := by simp
  simp only [load, store, h1, h2, h3, h21, h31, h32, if_true, if_false]
  exact join_bytes v

theorem store_outside {x : Word} (hx : 4 ≤ (x - a).toNat) : store m a v x = m x := by
  have h0 : x ≠ a := by bv_omega
  have h1 : x ≠ a + 1 := by bv_omega
  have h2 : x ≠ a + 2 := by bv_omega
  have h3 : x ≠ a + 3 := by bv_omega
  simp only [store, h0, h1, h2, h3, if_false]

theorem load_store_apart (h : Apart a 4 b 4) : load (store m a v) b = load m b := by
  obtain ⟨hba, hab⟩ := h
  unfold load
  rw [store_outside (by bv_omega), store_outside (by bv_omega), store_outside (by bv_omega),
    store_outside (by bv_omega)]

theorem load_store_word (hi : i < 2 ^ 30) (hj : j < 2 ^ 30) :
    load (store m (word base j) v) (word base i) = if i = j then v else load m (word base i) := by
  by_cases hij : i = j
  · rw [if_pos hij, hij]
    exact load_store _ _ _
  · rw [if_neg hij]
    exact load_store_apart (apart_words hj hi (Ne.symm hij))

theorem store_word_outside {x : Word} (hi : i * 4 + 4 ≤ n) (hx : n ≤ (x - base).toNat) :
    store m (word base i) v x = m x := by
  apply store_outside
  have hlt := (x - base).isLt
  have hi' : (BitVec.ofNat 32 (i * 4)).toNat = i * 4 := by rw [BitVec.toNat_ofNat, Nat.mod_eq_of_lt (by omega)]
  unfold word
  generalize BitVec.ofNat 32 (i * 4) = y at hi'
  bv_omega

theorem load_byte (m : Mem) (a : Word) {i : Nat} (hi : i < 4) :
    (load m a).extractLsb' (8 * i) 8 = m (a + BitVec.ofNat 32 i) := by
  have hcases : i = 0 ∨ i = 1 ∨ i = 2 ∨ i = 3 := by omega
  unfold load
  rcases hcases with rfl | rfl | rfl | rfl
  · rw [BitVec.extractLsb'_append_eq_of_add_le (by omega), show a + BitVec.ofNat 32 0 = a from BitVec.add_zero a]
    exact BitVec.extractLsb'_eq_self
  · rw [BitVec.extractLsb'_append_eq_of_le (by omega), BitVec.extractLsb'_append_eq_of_add_le (by omega)]
    exact BitVec.extractLsb'_eq_self
  · rw [BitVec.extractLsb'_append_eq_of_le (by omega), BitVec.extractLsb'_append_eq_of_le (by omega),
      BitVec.extractLsb'_append_eq_of_add_le (by omega)]
    exact BitVec.extractLsb'_eq_self
  · rw [BitVec.extractLsb'_append_eq_of_le (by omega), BitVec.extractLsb'_append_eq_of_le (by omega),
      BitVec.extractLsb'_append_eq_of_le (by omega)]
    exact BitVec.extractLsb'_eq_self

/-! ## A block of words -/

/-- The values go to the words with their indices, in this order. -/
def storeWords (m : Mem) (base : Word) (ws : List (Nat × Word)) : Mem :=
  ws.foldl (fun m w => store m (word base w.1) w.2) m

theorem storeWords_apart {ws : List (Nat × Word)} (h : ∀ w ∈ ws, Apart (word base w.1) 4 b 4) (m : Mem) :
    load (storeWords m base ws) b = load m b := by
  induction ws generalizing m with
  | nil => rfl
  | cons w ws ih =>
    have hrest := ih (fun w' hw' => h w' (List.mem_cons_of_mem _ hw')) (store m (word base w.1) w.2)
    exact hrest.trans (load_store_apart (h w List.mem_cons_self))

theorem load_storeWords {ws : List (Nat × Word)} (hnodup : (ws.map Prod.fst).Nodup) (hlt : ∀ w ∈ ws, w.1 < 2 ^ 30)
    (m : Mem) {w : Nat × Word} (hw : w ∈ ws) : load (storeWords m base ws) (word base w.1) = w.2 := by
  induction ws generalizing m with
  | nil => exact absurd hw List.not_mem_nil
  | cons w' ws ih =>
    obtain ⟨hnot, hnodup⟩ := List.nodup_cons.mp hnodup
    rcases List.mem_cons.mp hw with rfl | hw
    · have hrest : ∀ w' ∈ ws, Apart (word base w'.1) 4 (word base w.1) 4 := by
        intro w' hw'
        have hne : w'.1 ≠ w.1 := fun heq => hnot (heq ▸ List.mem_map_of_mem hw')
        exact apart_words (hlt w' (List.mem_cons_of_mem _ hw')) (hlt w List.mem_cons_self) hne
      exact (storeWords_apart hrest _).trans (load_store _ _ _)
    · exact ih hnodup (fun w' hw' => hlt w' (List.mem_cons_of_mem _ hw')) _ hw

/-! ## A block written byte by byte or word by word -/

/-- `m` is `m₀` with the bytes `f 0`, `f 1` and so on, `n` of them, at `a`. -/
def Written (f : Nat → BitVec 8) (m₀ m : Mem) (a : Word) (n : Nat) : Prop :=
  ∀ x, m x = if (x - a).toNat < n then f (x - a).toNat else m₀ x

theorem written_zero (f : Nat → BitVec 8) (m : Mem) (a : Word) : Written f m m a 0 := by
  intro x
  simp

theorem Written.byte {f : Nat → BitVec 8} {m₀ : Mem} (h : Written f m₀ m a n) (hn : n < 2 ^ 32) :
    Written f m₀ (Function.update m (a + BitVec.ofNat 32 n) (f n)) a (n + 1) := by
  intro x
  have hoff : (BitVec.ofNat 32 n).toNat = n := by rw [BitVec.toNat_ofNat, Nat.mod_eq_of_lt hn]
  rw [Function.update_apply, h x]
  generalize BitVec.ofNat 32 n = y at hoff
  by_cases hx : x = a + y
  · have hxn : (x - a).toNat = n := by bv_omega
    rw [if_pos hx, hxn, if_pos (by omega)]
  · have hxn : (x - a).toNat ≠ n := by bv_omega
    rw [if_neg hx]
    exact if_congr (by omega) rfl rfl

theorem store_eq_updates (m : Mem) (a v : Word) : store m a v =
    Function.update (Function.update (Function.update (Function.update m a (v.extractLsb' 0 8))
      (a + 1) (v.extractLsb' 8 8)) (a + 2) (v.extractLsb' 16 8)) (a + 3) (v.extractLsb' 24 8) := by
  funext x
  have h1 : a + 1 ≠ a := by simp
  have h2 : a + 2 ≠ a := by simp
  have h3 : a + 3 ≠ a := by simp
  have h21 : a + 2 ≠ a + 1 := by simp
  have h31 : a + 3 ≠ a + 1 := by simp
  have h32 : a + 3 ≠ a + 2 := by simp
  simp only [store, Function.update_apply]
  split_ifs <;> simp_all

theorem Written.word {f : Nat → BitVec 8} {m₀ : Mem} (h : Written f m₀ m a n) (hn : n + 4 ≤ 2 ^ 32)
    (h0 : v.extractLsb' 0 8 = f n) (h1 : v.extractLsb' 8 8 = f (n + 1)) (h2 : v.extractLsb' 16 8 = f (n + 2))
    (h3 : v.extractLsb' 24 8 = f (n + 3)) : Written f m₀ (store m (a + BitVec.ofNat 32 n) v) a (n + 4) := by
  have hnext : ∀ i, a + BitVec.ofNat 32 n + BitVec.ofNat 32 i = a + BitVec.ofNat 32 (n + i) := by
    intro i
    rw [BitVec.add_assoc, ← BitVec.ofNat_add]
  have hbytes := (((h.byte (by omega)).byte (by omega)).byte (by omega)).byte (by omega)
  rw [store_eq_updates, h0, h1, h2, h3]
  rw [← hnext 1, ← hnext 2, ← hnext 3] at hbytes
  exact hbytes

end Memory
