import TsukumoCore.Kernel.Bytes

/-!
# Blocks of bytes, filled and copied

Both functions write the bytes of the destination from its first to its last, each loop from where the one
before it stopped. The counter says how much is left.
-/

namespace TsukumoCore

open Countdown Memory

variable {f : Nat → BitVec 8} {b₀ b : Bus} {dest src : UINT} {ok : UINT → Prop} {N n k : Nat} {v : UINT}

/-- With `n` of `N` bytes left: those before are written, with `f` the bytes, and every word access since
`b₀` was `ok`. -/
structure Progress (f : Nat → BitVec 8) (b₀ : Bus) (dest : UINT) (ok : UINT → Prop) (N n : Nat) (b : Bus) :
    Prop where
  left : n ≤ N
  mem : Written f b₀.mem b.mem dest (N - n)
  words : ∃ ws, b.words = b₀.words ++ ws ∧ ∀ a ∈ ws, ok a

/-- Where the next byte goes. -/
def next (dest : UINT) (N n : Nat) : UINT := dest + BitVec.ofNat 32 (N - n)

theorem next_add (h : n + k ≤ N) : next dest N (n + k) + BitVec.ofNat 32 k = next dest N n := by
  unfold next
  rw [BitVec.add_assoc, ← BitVec.ofNat_add]
  congr 2
  omega

namespace Progress

theorem start (f : Nat → BitVec 8) (b : Bus) (dest : UINT) (ok : UINT → Prop) (N : Nat) :
    Progress f b dest ok N N b := by
  refine ⟨Nat.le_refl N, ?_, [], by simp, by simp⟩
  rw [Nat.sub_self]
  exact written_zero f b.mem dest

theorem byte (h : Progress f b₀ dest ok N (n + 1) b) (hN : N ≤ 2 ^ 32) {v : BitVec 8} (hv : v = f (N - (n + 1))) :
    Progress f b₀ dest ok N n (b.out_b (next dest N (n + 1)) v) := by
  have hle := h.left
  refine ⟨by omega, ?_, h.words⟩
  have hwritten := h.mem.byte (by omega)
  rw [← hv, show N - (n + 1) + 1 = N - n by omega] at hwritten
  exact hwritten

theorem read (h : Progress f b₀ dest ok N n b) {a : UINT} (ha : ok a) : Progress f b₀ dest ok N n (b.in_w a).2 := by
  obtain ⟨ws, hws, hall⟩ := h.words
  refine ⟨h.left, h.mem, ws ++ [a], ?_, ?_⟩
  · simp [Bus.in_w, hws]
  · intro a' ha'
    rcases List.mem_append.mp ha' with ha' | ha'
    · exact hall a' ha'
    · rw [List.mem_singleton.mp ha']
      exact ha

theorem word (h : Progress f b₀ dest ok N (n + 4) b) (hN : N ≤ 2 ^ 32) (hok : ok (next dest N (n + 4)))
    (hv : ∀ i < 4, v.extractLsb' (8 * i) 8 = f (N - (n + 4) + i)) :
    Progress f b₀ dest ok N n (b.out_w (next dest N (n + 4)) v) := by
  have hle := h.left
  obtain ⟨ws, hws, hall⟩ := (h.read hok).words
  refine ⟨by omega, ?_, ws, hws, hall⟩
  have hwritten := h.mem.word (by omega) (hv 0 (by omega)) (hv 1 (by omega)) (hv 2 (by omega)) (hv 3 (by omega))
  rw [show N - (n + 4) + 4 = N - n by omega] at hwritten
  exact hwritten

theorem block {step : Bus → Nat → Bus} (h : Progress f b₀ dest ok N (n + 32) b)
    (hstep : ∀ b i, i < 8 → Progress f b₀ dest ok N (n + 32 - 4 * i) b →
      Progress f b₀ dest ok N (n + 32 - 4 * (i + 1)) (step b i)) :
    Progress f b₀ dest ok N n ((List.range 8).foldl step b) := by
  have hall : ∀ j, j ≤ 8 → Progress f b₀ dest ok N (n + 32 - 4 * j) ((List.range j).foldl step b) := by
    intro j hj
    induction j with
    | zero => exact h
    | succ j ih =>
      rw [List.range_succ, List.foldl_append]
      exact hstep _ j (by omega) (ih (by omega))
  exact hall 8 (by omega)

end Progress

/-- The word at `a` is aligned, and inside the block of `N` bytes. -/
def WordIn (dest : UINT) (N : Nat) (a : UINT) : Prop :=
  a.toNat % 4 = 0 ∧ dest.toNat ≤ a.toNat ∧ a.toNat + 4 ≤ dest.toNat + N

theorem next_toNat (hfit : dest.toNat + N ≤ 2 ^ 32) (hn : 0 < n) (hle : n ≤ N) :
    (next dest N n).toNat = dest.toNat + (N - n) := by
  unfold next
  rw [BitVec.toNat_add, BitVec.toNat_ofNat]
  omega

theorem wordIn_next (hfit : dest.toNat + N ≤ 2 ^ 32) (hle : n + 4 ≤ N) (hal : (next dest N (n + 4)).toNat % 4 = 0) :
    WordIn dest N (next dest N (n + 4)) := by
  have hnat := next_toNat hfit (by omega) hle
  exact ⟨hal, by omega, by omega⟩

theorem word_next (a : UINT) {i : Nat} (hi : i < 8) (hle : n + 32 ≤ N) :
    Memory.word (next a N (n + 32)) i = next a N (n + 32 - 4 * (i + 1) + 4) := by
  have hnext : next a N (n + 32 - 4 * (i + 1) + 4 + i * 4) + BitVec.ofNat 32 (i * 4) = _ := next_add (by omega)
  rw [show n + 32 - 4 * (i + 1) + 4 + i * 4 = n + 32 by omega] at hnext
  exact hnext

theorem aligned_iff (a : UINT) : a &&& 0x3 = 0 ↔ a.toNat % 4 = 0 := by
  rw [← BitVec.toNat_inj, BitVec.toNat_and]
  have hand : a.toNat &&& 3 = a.toNat % 4 := Nat.and_two_pow_sub_one_eq_mod a.toNat 2
  exact Eq.congr_left hand

theorem aligned_add {a : UINT} (ha : a.toNat % 4 = 0) (hk : k % 4 = 0) : (a + BitVec.ofNat 32 k).toNat % 4 = 0 := by
  rw [BitVec.toNat_add, BitVec.toNat_ofNat]
  omega

theorem written_iff {m₀ m : Mem} (h : Written f m₀ m dest N) (hfit : dest.toNat + N ≤ 2 ^ 32) (x : UINT) :
    m x = if dest.toNat ≤ x.toNat ∧ x.toNat < dest.toNat + N then f (x.toNat - dest.toNat) else m₀ x := by
  have hx := x.isLt
  rw [h x]
  split
  · rename_i hlt
    have hsub : (x - dest).toNat = x.toNat - dest.toNat := by bv_omega
    rw [hsub, if_pos (by bv_omega)]
  · rename_i hlt
    rw [if_neg (by bv_omega)]

/-! ## `tkmc_memset` -/

section Memset

variable {value : BitVec 8} {s : Fill}

theorem word_value_byte (value : BitVec 8) {i : Nat} (hi : i < 4) :
    (value.setWidth 32 * 0x01010101 : UINT).extractLsb' (8 * i) 8 = value := by
  have hlt := value.isLt
  have hword : (value.setWidth 32 * 0x01010101 : UINT).toNat = value.toNat * 0x01010101 := by
    rw [BitVec.toNat_mul, BitVec.toNat_setWidth]
    show value.toNat % 2 ^ 32 * 0x01010101 % 2 ^ 32 = _
    omega
  rw [← BitVec.toNat_inj, BitVec.extractLsb'_toNat, hword, Nat.shiftRight_eq_div_pow]
  have hcases : i = 0 ∨ i = 1 ∨ i = 2 ∨ i = 3 := by omega
  rcases hcases with rfl | rfl | rfl | rfl
  · show value.toNat * 0x01010101 / 1 % 256 = _
    omega
  · have hdiv : value.toNat * 0x01010101 / 256 = value.toNat * 0x010101 := by omega
    show value.toNat * 0x01010101 / 256 % 256 = _
    omega
  · have hdiv : value.toNat * 0x01010101 / 65536 = value.toNat * 0x0101 := by omega
    show value.toNat * 0x01010101 / 65536 % 256 = _
    omega
  · have hdiv : value.toNat * 0x01010101 / 16777216 = value.toNat := by omega
    show value.toNat * 0x01010101 / 16777216 % 256 = _
    omega

/-- With `n` bytes left to fill. -/
def Filling (b : Bus) (dest : UINT) (value : BitVec 8) (N n : Nat) (s : Fill) : Prop :=
  Progress (fun _ => value) b dest (WordIn dest N) N n s.bus ∧ s.d8 = next dest N n

theorem Filling.byte (h : Filling b dest value N (n + 1) s) (hN : N ≤ 2 ^ 32) :
    Filling b dest value N n (s.byte value) := by
  have hd8 := h.2
  refine ⟨?_, ?_⟩
  · unfold Fill.byte
    rw [hd8]
    exact h.1.byte hN rfl
  · unfold Fill.byte
    rw [hd8]
    exact next_add h.1.left

theorem Filling.word (h : Filling b dest value N (n + 4) s ∧ s.d8.toNat % 4 = 0) (hfit : dest.toNat + N ≤ 2 ^ 32) :
    Filling b dest value N n (s.word (value.setWidth 32 * 0x01010101)) ∧
      (s.word (value.setWidth 32 * 0x01010101)).d8.toNat % 4 = 0 := by
  obtain ⟨⟨hp, hd8⟩, hal⟩ := h
  refine ⟨⟨?_, ?_⟩, aligned_add (k := 4) hal rfl⟩
  · rw [hd8] at hal
    unfold Fill.word
    rw [hd8]
    exact hp.word (by omega) (wordIn_next hfit hp.left hal) fun i hi => word_value_byte value hi
  · unfold Fill.word
    rw [hd8]
    exact next_add hp.left

theorem Filling.block (h : Filling b dest value N (n + 32) s ∧ s.d8.toNat % 4 = 0) (hfit : dest.toNat + N ≤ 2 ^ 32) :
    Filling b dest value N n (s.block (value.setWidth 32 * 0x01010101)) ∧
      (s.block (value.setWidth 32 * 0x01010101)).d8.toNat % 4 = 0 := by
  obtain ⟨⟨hp, hd8⟩, hal⟩ := h
  have hle := hp.left
  refine ⟨⟨?_, ?_⟩, aligned_add (k := 32) hal rfl⟩
  · unfold Fill.block
    dsimp only
    apply hp.block
    intro b' i hi hb
    have hal' : (Memory.word s.d8 i).toNat % 4 = 0 := aligned_add hal (by omega)
    rw [hd8, word_next dest hi hle] at hal' ⊢
    rw [show n + 32 - 4 * i = n + 32 - 4 * (i + 1) + 4 by omega] at hb
    exact hb.word (by omega) (wordIn_next hfit hb.left hal') fun j hj => word_value_byte value hj
  · unfold Fill.block
    rw [hd8]
    exact next_add hle

/-- Everything is filled, byte by byte, in blocks and in words, wherever the block begins. -/
theorem memset_progress (b : Bus) (dest : UINT) (c : Int) (n : UINT) (hfit : dest.toNat + n.toNat ≤ 2 ^ 32) :
    (tkmc_memset b dest c n).1 = dest ∧
      Progress (fun _ => BitVec.ofInt 8 c) b dest (WordIn dest n.toNat) n.toNat 0 (tkmc_memset b dest c n).2 := by
  generalize hvalue : BitVec.ofInt 8 c = value
  let N := n.toNat
  have hN : N ≤ 2 ^ 32 := by omega
  have hbyte : ∀ m s, Filling b dest value N (m + 1) s → Filling b dest value N m (s.byte value) :=
    fun m s h => h.byte hN
  have hstart : Filling b dest value N N ⟨dest, b⟩ := by
    refine ⟨.start _ b dest _ N, ?_⟩
    simp [next]
  unfold tkmc_memset
  simp only [hvalue]
  split
  · exact ⟨rfl, (times_spec hbyte hstart).1⟩
  · obtain ⟨hfilling, hstop⟩ :=
      timesWhile_spec (p := fun s : Fill => s.d8 &&& 0x3 ≠ 0) hbyte hstart
    generalize timesWhile (fun s : Fill => s.d8 &&& 0x3 ≠ 0) (Fill.byte value) N ⟨dest, b⟩ = r at hfilling hstop
    obtain ⟨m, s⟩ := r
    refine ⟨rfl, ?_⟩
    dsimp only at hfilling hstop ⊢
    split
    · rename_i hm
      have hal : s.d8.toNat % 4 = 0 := by
        rcases hstop with hzero | hstop
        · omega
        · exact (aligned_iff s.d8).mp (by simpa using hstop)
      have hblocks := timesBy_spec (I := fun m s => Filling b dest value N m s ∧ s.d8.toNat % 4 = 0) (k := 32)
        (by omega) (fun m s h => Filling.block h hfit) ⟨hfilling, hal⟩
      have hwords := timesBy_spec (I := fun m s => Filling b dest value N m s ∧ s.d8.toNat % 4 = 0) (k := 4)
        (by omega) (fun m s h => Filling.word h hfit) hblocks.1
      exact (times_spec hbyte hwords.1.1).1
    · exact (times_spec hbyte hfilling).1

theorem clear_bss_zero (b : Bus) {start stop : UINT} (h : start.toNat ≤ stop.toNat) (x : UINT) :
    (clear_bss b start stop).mem x = if start.toNat ≤ x.toNat ∧ x.toNat < stop.toNat then 0 else b.mem x := by
  have hlt := stop.isLt
  have hsize : (stop - start).toNat = stop.toNat - start.toNat := by bv_omega
  obtain ⟨-, hmem⟩ := memset_progress b start 0 (stop - start) (by omega)
  have hx := written_iff hmem.mem (by omega) x
  rw [Nat.sub_zero, hsize, show start.toNat + (stop.toNat - start.toNat) = stop.toNat by omega] at hx
  exact hx

/-- `tkmc_memset` is a fill byte by byte, and clears `.bss`. -/
theorem memset_fills (b : Bus) (dest : UINT) (c : Int) (n : UINT) (hfit : dest.toNat + n.toNat ≤ 2 ^ 32) :
    (tkmc_memset b dest c n).1 = dest ∧
      (∀ x, (tkmc_memset b dest c n).2.mem x =
        if dest.toNat ≤ x.toNat ∧ x.toNat < dest.toNat + n.toNat then BitVec.ofInt 8 c else b.mem x) ∧
      (∃ ws, (tkmc_memset b dest c n).2.words = b.words ++ ws ∧ ∀ a ∈ ws, WordIn dest n.toNat a) ∧
      ∀ start stop : UINT, start.toNat ≤ stop.toNat → ∀ x, (clear_bss b start stop).mem x =
        if start.toNat ≤ x.toNat ∧ x.toNat < stop.toNat then 0 else b.mem x := by
  obtain ⟨hret, hp⟩ := memset_progress b dest c n hfit
  exact ⟨hret, written_iff hp.mem hfit, hp.words, fun _ _ => clear_bss_zero b⟩

theorem memset_fills_unaligned :
    (tkmc_memset ⟨fun _ => 7, []⟩ 0x80000002 300 40).2.mem 0x80000005 = 44 ∧
      (tkmc_memset ⟨fun _ => 7, []⟩ 0x80000002 300 40).2.mem 0x80000001 = 7 := by
  obtain ⟨-, hmem, -⟩ := memset_fills ⟨fun _ => 7, []⟩ 0x80000002 300 40 (by decide)
  exact ⟨(hmem _).trans (by decide), (hmem _).trans (by decide)⟩

end Memset

/-! ## `tkmc_memcpy` -/

section Memcpy

variable {s : Copy}

/-- Neither block wraps, and they do not overlap. -/
structure Separate (dest src : UINT) (N : Nat) : Prop where
  fits : dest.toNat + N ≤ 2 ^ 32
  fits_src : src.toNat + N ≤ 2 ^ 32
  apart : src.toNat + N ≤ dest.toNat ∨ dest.toNat + N ≤ src.toNat

/-- The bytes to copy. -/
def source (b : Bus) (src : UINT) (i : Nat) : BitVec 8 := b.mem (src + BitVec.ofNat 32 i)

/-- With `n` bytes left to copy. -/
structure Copying (b : Bus) (dest src : UINT) (N n : Nat) (s : Copy) : Prop where
  progress : Progress (source b src) b dest (fun a => WordIn dest N a ∨ WordIn src N a) N n s.bus
  d8 : s.d8 = next dest N n
  s8 : s.s8 = next src N n

theorem Progress.unread (h : Progress f b₀ dest ok N n b) (hsep : Separate dest src N) {i : Nat} (hi : i < N) :
    b.mem (src + BitVec.ofNat 32 i) = source b₀ src i := by
  obtain ⟨hd, hs, hapart⟩ := hsep
  have hnat : (src + BitVec.ofNat 32 i).toNat = src.toNat + i := by
    rw [BitVec.toNat_add, BitVec.toNat_ofNat]
    omega
  rw [h.mem, if_neg]
  · rfl
  · generalize src + BitVec.ofNat 32 i = x at hnat
    bv_omega

theorem Copying.byte (h : Copying b dest src N (n + 1) s) (hsep : Separate dest src N) :
    Copying b dest src N n s.byte := by
  obtain ⟨hp, hd8, hs8⟩ := h
  have hle := hp.left
  have hN := hsep.fits
  refine ⟨?_, ?_, ?_⟩
  · unfold Copy.byte
    dsimp only
    rw [hd8]
    apply hp.byte (by omega)
    rw [hs8]
    exact hp.unread hsep (by omega)
  · unfold Copy.byte
    rw [hd8]
    exact next_add hle
  · unfold Copy.byte
    rw [hs8]
    exact next_add hle

theorem Progress.copy_w (h : Progress (source b₀ src) b₀ dest (fun a => WordIn dest N a ∨ WordIn src N a) N (n + 4) b)
    (hsep : Separate dest src N) (hd : (next dest N (n + 4)).toNat % 4 = 0) (hs : (next src N (n + 4)).toNat % 4 = 0) :
    Progress (source b₀ src) b₀ dest (fun a => WordIn dest N a ∨ WordIn src N a) N n
      (Copy.copy_w b (next dest N (n + 4)) (next src N (n + 4))) := by
  have hle := h.left
  have hN := hsep.fits
  have hread := h.read (.inr (wordIn_next hsep.fits_src hle hs))
  refine hread.word (by omega) (.inl (wordIn_next hsep.fits hle hd)) ?_
  intro i hi
  have haddr : next src N (n + 4) + BitVec.ofNat 32 i = src + BitVec.ofNat 32 (N - (n + 4) + i) := by
    unfold next
    rw [BitVec.add_assoc, ← BitVec.ofNat_add]
  rw [← h.unread hsep (by omega), ← haddr]
  exact load_byte _ _ hi

def Copy.Aligned (s : Copy) : Prop := s.d8.toNat % 4 = 0 ∧ s.s8.toNat % 4 = 0

theorem Copying.word (h : Copying b dest src N (n + 4) s ∧ s.Aligned) (hsep : Separate dest src N) :
    Copying b dest src N n s.word ∧ s.word.Aligned := by
  obtain ⟨⟨hp, hd8, hs8⟩, hd, hs⟩ := h
  refine ⟨⟨?_, ?_, ?_⟩, aligned_add (k := 4) hd rfl, aligned_add (k := 4) hs rfl⟩
  · unfold Copy.word
    dsimp only
    rw [hd8] at hd ⊢
    rw [hs8] at hs ⊢
    exact hp.copy_w hsep hd hs
  · unfold Copy.word
    rw [hd8]
    exact next_add hp.left
  · unfold Copy.word
    rw [hs8]
    exact next_add hp.left

theorem Copying.block (h : Copying b dest src N (n + 32) s ∧ s.Aligned) (hsep : Separate dest src N) :
    Copying b dest src N n s.block ∧ s.block.Aligned := by
  obtain ⟨⟨hp, hd8, hs8⟩, hd, hs⟩ := h
  have hle := hp.left
  refine ⟨⟨?_, ?_, ?_⟩, aligned_add (k := 32) hd rfl, aligned_add (k := 32) hs rfl⟩
  · unfold Copy.block
    dsimp only
    apply hp.block
    intro b' i hi hb
    have hd' : (Memory.word s.d8 i).toNat % 4 = 0 := aligned_add hd (by omega)
    have hs' : (Memory.word s.s8 i).toNat % 4 = 0 := aligned_add hs (by omega)
    rw [hd8, word_next dest hi hle] at hd' ⊢
    rw [hs8, word_next src hi hle] at hs' ⊢
    rw [show n + 32 - 4 * i = n + 32 - 4 * (i + 1) + 4 by omega] at hb
    exact hb.copy_w hsep hd' hs'
  · unfold Copy.block
    rw [hd8]
    exact next_add hle
  · unfold Copy.block
    rw [hs8]
    exact next_add hle

theorem same_alignment (h : (dest ^^^ src) &&& 0x3 = 0) : dest.toNat % 4 = src.toNat % 4 := by
  have hmod : ∀ a : UINT, (a &&& 0x3).toNat = a.toNat % 4 := by
    intro a
    rw [BitVec.toNat_and]
    exact Nat.and_two_pow_sub_one_eq_mod a.toNat 2
  have hdistrib : (dest ^^^ src) &&& 0x3 = (dest &&& 0x3) ^^^ (src &&& 0x3) := by
    ext i hi
    simp only [BitVec.getElem_and, BitVec.getElem_xor, Bool.and_xor_distrib_right]
  have hand : dest &&& 0x3 = src &&& 0x3 := BitVec.xor_eq_zero_iff.mp (hdistrib.symm.trans h)
  rw [← hmod, ← hmod, hand]

theorem next_aligned (h : dest.toNat % 4 = src.toNat % 4) (hd : (next dest N n).toNat % 4 = 0) :
    (next src N n).toNat % 4 = 0 := by
  unfold next at hd ⊢
  rw [BitVec.toNat_add] at hd ⊢
  omega

theorem memcpy_progress (b : Bus) (dest src n : UINT) (hsep : Separate dest src n.toNat) :
    (tkmc_memcpy b dest src n).1 = dest ∧
      Progress (source b src) b dest (fun a => WordIn dest n.toNat a ∨ WordIn src n.toNat a) n.toNat 0
        (tkmc_memcpy b dest src n).2 := by
  let N := n.toNat
  have hbyte : ∀ m s, Copying b dest src N (m + 1) s → Copying b dest src N m s.byte := fun m s h => h.byte hsep
  have hstart : Copying b dest src N N ⟨dest, src, b⟩ := by
    refine ⟨.start _ b dest _ N, ?_, ?_⟩ <;> simp [next]
  unfold tkmc_memcpy
  split
  · exact ⟨rfl, (times_spec hbyte hstart).progress⟩
  split
  · exact ⟨rfl, (times_spec hbyte hstart).progress⟩
  · rename_i hsame
    obtain ⟨hcopying, hstop⟩ := timesWhile_spec (p := fun s : Copy => s.d8 &&& 0x3 ≠ 0) hbyte hstart
    generalize timesWhile (fun s : Copy => s.d8 &&& 0x3 ≠ 0) Copy.byte N ⟨dest, src, b⟩ = r at hcopying hstop
    obtain ⟨m, s⟩ := r
    refine ⟨rfl, ?_⟩
    dsimp only at hcopying hstop ⊢
    -- Only with something left do the loops over words run.
    let J : Nat → Copy → Prop := fun m s => Copying b dest src N m s ∧ (m = 0 ∨ s.Aligned)
    have hal : m = 0 ∨ s.Aligned := by
      rcases hstop with hzero | hstop
      · exact .inl hzero
      · have hd : s.d8.toNat % 4 = 0 := (aligned_iff s.d8).mp (by simpa using hstop)
        refine .inr ⟨hd, ?_⟩
        rw [hcopying.d8] at hd
        rw [hcopying.s8]
        exact next_aligned (same_alignment (by simpa using hsame)) hd
    have hblocks := timesBy_spec (I := J) (k := 32) (by omega) (fun m s h => by
      have hcopied := Copying.block ⟨h.1, h.2.resolve_left (by omega)⟩ hsep
      exact ⟨hcopied.1, .inr hcopied.2⟩) ⟨hcopying, hal⟩
    have hwords := timesBy_spec (I := J) (k := 4) (by omega) (fun m s h => by
      have hcopied := Copying.word ⟨h.1, h.2.resolve_left (by omega)⟩ hsep
      exact ⟨hcopied.1, .inr hcopied.2⟩) hblocks.1
    exact (times_spec hbyte hwords.1.1).progress

/-- `tkmc_memcpy` is a copy byte by byte. -/
theorem memcpy_copies (b : Bus) (dest src n : UINT) (hsep : Separate dest src n.toNat) :
    (tkmc_memcpy b dest src n).1 = dest ∧
      (∀ i < n.toNat, (tkmc_memcpy b dest src n).2.mem (dest + BitVec.ofNat 32 i) = b.mem (src + BitVec.ofNat 32 i)) ∧
      (∀ x, x.toNat < dest.toNat ∨ dest.toNat + n.toNat ≤ x.toNat → (tkmc_memcpy b dest src n).2.mem x = b.mem x) ∧
      ∃ ws, (tkmc_memcpy b dest src n).2.words = b.words ++ ws ∧
        ∀ a ∈ ws, WordIn dest n.toNat a ∨ WordIn src n.toNat a := by
  obtain ⟨hret, hp⟩ := memcpy_progress b dest src n hsep
  have hall := written_iff hp.mem hsep.fits
  refine ⟨hret, ?_, ?_, hp.words⟩
  · intro i hi
    have hfits := hsep.fits
    have hnat : (dest + BitVec.ofNat 32 i).toNat = dest.toNat + i := by
      rw [BitVec.toNat_add, BitVec.toNat_ofNat]
      omega
    rw [hall, hnat, if_pos (by omega), show dest.toNat + i - dest.toNat = i by omega]
    rfl
  · intro x hx
    rw [hall, if_neg (by omega)]

theorem memcpy_copies_words :
    (tkmc_memcpy ⟨fun a => a.setWidth 8, []⟩ 0x80000002 0x80000106 40).2.mem (0x80000002 + 39) = 0x2d := by
  have hsep : Separate 0x80000002 0x80000106 (40 : UINT).toNat := ⟨by decide, by decide, by decide⟩
  obtain ⟨-, hmem, -⟩ := memcpy_copies ⟨fun a => a.setWidth 8, []⟩ 0x80000002 0x80000106 40 hsep
  exact (hmem 39 (by decide)).trans (by decide)

end Memcpy

end TsukumoCore
