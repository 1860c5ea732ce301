import TsukumoCore.Kernel.Insertion
import TsukumoCore.Kernel.Mailbox
import TsukumoCore.Lib.Insert
import TsukumoCore.Support.Lists

/-!
# Insertion by priority, as an operation on the sequence

Each of the loops finds the first entry of a lower priority and puts the new one in front of it, or at the
tail. They read the links of the ring they walk and no other.
-/

namespace TsukumoCore

open Ring

variable {h : Heap} {A : Rings UINT} {head offset tcb new : UINT} {l kept todo : List UINT} {fuel : Nat}

/-- In front of the entry found, or at the tail. -/
def insert_at (h : Heap) (new head : UINT) : Option UINT → Heap
  | some pos => tkmc_list_add h new (h.prev pos)
  | none => tkmc_list_add_tail h new head

theorem insert_at_becomes (hR : Represents h A) (hl : A head = some l) (hd : Detached A new) (p : UINT → Bool) :
    Becomes h A (insert_at h new head (l.find? p)) head
      ((l.takeWhile fun x => !p x) ++ new :: l.dropWhile fun x => !p x) := by
  cases hfind : l.find? p with
  | none =>
    rw [← List.concat_of_find_none hfind]
    exact list_add_tail_becomes hR hl hd
  | some pos =>
    rw [List.find?_eq_head?_dropWhile_not] at hfind
    obtain ⟨rest, hrest⟩ : ∃ rest, (l.dropWhile fun x => !p x) = pos :: rest := List.head?_eq_some_iff.mp hfind
    have hsplit : l = (l.takeWhile fun x => !p x) ++ pos :: rest := by
      rw [← hrest, List.takeWhile_append_dropWhile]
    rw [hsplit] at hl
    rw [hrest]
    exact list_add_prev_becomes hR hl hd

/-! ## The three loops -/

theorem entry_eq_iff {pos x : UINT} : pos + offset = x ↔ pos = tkmc_list_entry x offset := by
  unfold tkmc_list_entry
  constructor
  · rintro rfl
    exact (BitVec.add_sub_cancel pos offset).symm
  · rintro rfl
    exact BitVec.sub_add_cancel x offset

variable {itskpri : UINT → Int} {pos n : UINT}

theorem IsRing.at_node {x : UINT} (hr : IsRing h head (kept ++ x :: todo)) : x ≠ head :=
  fun he => hr.head_not_mem (by simp [he])

theorem scan_links_eq {key : UINT → Int} {pri : Int} (hr : IsRing h head (kept ++ todo)) (hfuel : todo.length < fuel) :
    Heap.scan_links key head new pri h fuel (todo.headD head) =
      some (insert_at h new head (todo.find? fun x => decide (pri < key x))) := by
  induction todo generalizing kept fuel with
  | nil =>
    obtain ⟨fuel, rfl⟩ := Nat.exists_eq_succ_of_ne_zero (Nat.ne_zero_of_lt hfuel)
    simp [Heap.scan_links, insert_at]
  | cons x todo ih =>
    obtain ⟨fuel, rfl⟩ := Nat.exists_eq_succ_of_ne_zero (Nat.ne_zero_of_lt hfuel)
    have hx : x ≠ head := IsRing.at_node hr
    have hnext : h.next x = todo.headD head := hr.next_of_mem
    unfold Heap.scan_links
    rw [List.headD_cons, if_pos hx, hnext]
    by_cases hlt : pri < key x
    · simp [hlt, insert_at]
    · have hr' : IsRing h head ((kept ++ [x]) ++ todo) := by rwa [List.append_assoc]
      rw [if_neg hlt, ih hr' (Nat.lt_of_succ_lt_succ hfuel)]
      simp [hlt]

theorem flg_scan_eq (hr : IsRing h head (kept ++ todo)) (hfuel : todo.length < fuel)
    (hpos : pos + offset = todo.headD head) :
    Heap.flg_scan itskpri head offset tcb h fuel pos =
      some (insert_at h (tcb + offset) head
        (todo.find? fun x => decide (itskpri tcb < itskpri (tkmc_list_entry x offset)))) := by
  induction todo generalizing kept fuel pos with
  | nil =>
    obtain ⟨fuel, rfl⟩ := Nat.exists_eq_succ_of_ne_zero (Nat.ne_zero_of_lt hfuel)
    simp [Heap.flg_scan, insert_at, hpos]
  | cons x todo ih =>
    obtain ⟨fuel, rfl⟩ := Nat.exists_eq_succ_of_ne_zero (Nat.ne_zero_of_lt hfuel)
    have hx : x ≠ head := IsRing.at_node hr
    have hpx : pos + offset = x := hpos
    have hnext : tkmc_list_next_entry h pos offset + offset = todo.headD head := by
      rw [next_entry_add, hpx, hr.next_of_mem]
    unfold Heap.flg_scan
    rw [hpx, if_neg hx, entry_eq_iff.mp hpx]
    by_cases hlt : itskpri tcb < itskpri (tkmc_list_entry x offset)
    · simp [hlt, insert_at]
    · have hr' : IsRing h head ((kept ++ [x]) ++ todo) := by rwa [List.append_assoc]
      rw [if_neg hlt, ← entry_eq_iff.mp hpx, ih hr' (Nat.lt_of_succ_lt_succ hfuel) hnext]
      simp [hlt]

theorem sem_scan_eq (hr : IsRing h head (kept ++ todo)) (hfuel : todo.length < fuel)
    (hpos : pos + offset = todo.headD head) (hn : todo ≠ [] → n + offset = todo.tail.headD head) :
    Heap.sem_scan itskpri head offset tcb h fuel pos n =
      some (insert_at h (tcb + offset) head
        (todo.find? fun x => decide (itskpri tcb < itskpri (tkmc_list_entry x offset)))) := by
  induction todo generalizing kept fuel pos n with
  | nil =>
    obtain ⟨fuel, rfl⟩ := Nat.exists_eq_succ_of_ne_zero (Nat.ne_zero_of_lt hfuel)
    simp [Heap.sem_scan, insert_at, hpos]
  | cons x todo ih =>
    obtain ⟨fuel, rfl⟩ := Nat.exists_eq_succ_of_ne_zero (Nat.ne_zero_of_lt hfuel)
    have hx : x ≠ head := IsRing.at_node hr
    have hpx : pos + offset = x := hpos
    have hn₁ : n + offset = todo.headD head := hn (by simp)
    unfold Heap.sem_scan
    rw [hpx, if_neg hx, entry_eq_iff.mp hpx]
    by_cases hlt : itskpri tcb < itskpri (tkmc_list_entry x offset)
    · simp [hlt, insert_at]
    · have hr' : IsRing h head ((kept ++ [x]) ++ todo) := by rwa [List.append_assoc]
      have hn₂ : todo ≠ [] → tkmc_list_next_entry h n offset + offset = todo.tail.headD head := by
        intro hne
        obtain ⟨y, todo, rfl⟩ := List.exists_cons_of_ne_nil hne
        rw [next_entry_add, hn₁]
        exact hr'.next_of_mem
      rw [if_neg hlt, ih hr' (Nat.lt_of_succ_lt_succ hfuel) hn₁ hn₂]
      simp [hlt]

/-! ## The three insertions -/

/-- The entry that the new one goes in front of, on an object with the attributes `atr`. -/
def lower (itskpri : UINT → Int) (offset tcb : UINT) (atr : ATR) (l : List UINT) : Option UINT :=
  if atr &&& TA_TPRI ≠ 0 then l.find? fun x => decide (itskpri tcb < itskpri (tkmc_list_entry x offset)) else none

/-- The links of the new entry are reset first. It is on no ring, so every ring stays. -/
theorem init_represents (hR : Represents h A) (hd : Detached A new) :
    Represents (tkmc_init_list_head h new) A := by
  have hne : ∀ {head' l' x}, A head' = some l' → x ∈ head' :: l' → x ≠ new :=
    fun hl' hx he => hd _ _ hl' (he ▸ hx)
  exact hR.congr (fun hl' hx => Links.link_next (hne hl' hx)) (fun hl' hx => Links.link_prev (hne hl' hx))

theorem insert_sem_eq (hr : IsRing (tkmc_init_list_head h (tcb + offset)) head l) (atr : ATR)
    (hfuel : l.length < fuel) :
    Heap.insert_sem itskpri head offset tcb h atr fuel =
      some (insert_at (tkmc_init_list_head h (tcb + offset)) (tcb + offset) head
        (lower itskpri offset tcb atr l)) := by
  unfold Heap.insert_sem lower
  dsimp only
  split
  · split
    · rename_i hempty
      rw [(list_empty_iff hr).mp hempty]
      rfl
    · have hpos : tkmc_list_first_entry (tkmc_init_list_head h (tcb + offset)) head offset + offset =
          l.headD head := by
        rw [tkmc_list_first_entry, entry_add, hr.next_head]
      refine sem_scan_eq hr.at_head hfuel hpos fun hne => ?_
      obtain ⟨x, l, rfl⟩ := List.exists_cons_of_ne_nil hne
      rw [next_entry_add, hpos]
      exact hr.at_head.next_of_mem
  · rfl

theorem insert_flg_eq (hr : IsRing (tkmc_init_list_head h (tcb + offset)) head l) (atr : ATR)
    (hfuel : l.length < fuel) :
    Heap.insert_flg itskpri head offset tcb h atr fuel =
      some (insert_at (tkmc_init_list_head h (tcb + offset)) (tcb + offset) head
        (lower itskpri offset tcb atr l)) := by
  unfold Heap.insert_flg lower
  dsimp only
  split
  · split
    · rename_i hempty
      rw [(list_empty_iff hr).mp hempty]
      rfl
    · have hpos : tkmc_list_first_entry (tkmc_init_list_head h (tcb + offset)) head offset + offset =
          l.headD head := by
        rw [tkmc_list_first_entry, entry_add, hr.next_head]
      exact flg_scan_eq hr.at_head hfuel hpos
  · rfl

theorem insert_waiter_links_eq (hr : IsRing h head l) (atr : ATR) (hfuel : l.length < fuel) :
    Heap.insert_waiter itskpri head offset tcb h atr fuel =
      some (insert_at h (tcb + offset) head (lower itskpri offset tcb atr l)) := by
  unfold Heap.insert_waiter lower
  dsimp only
  split
  · rw [hr.next_head]
    exact scan_links_eq hr.at_head hfuel
  · rfl

theorem lower_becomes (itskpri : UINT → Int) (offset tcb : UINT) (hR : Represents h A) (hl : A head = some l)
    (hd : Detached A new) (atr : ATR) :
    Becomes h A (insert_at h new head (lower itskpri offset tcb atr l)) head
      (if atr &&& TA_TPRI ≠ 0 then
        (l.takeWhile fun x => !decide (itskpri tcb < itskpri (tkmc_list_entry x offset))) ++
          new :: l.dropWhile fun x => !decide (itskpri tcb < itskpri (tkmc_list_entry x offset))
      else l ++ [new]) := by
  unfold lower
  split
  · exact insert_at_becomes hR hl hd _
  · exact list_add_tail_becomes hR hl hd

/-! ## Messages -/

variable {msgpri : UINT → Int} {msg : UINT}

theorem msg_from_link_eq (link : UINT) : Heap.msg_from_link link = link := BitVec.sub_zero link

theorem insert_msg_fifo_becomes (hR : Represents h A) (hl : A head = some l) (hd : Detached A msg) :
    Becomes h A (Heap.insert_msg_fifo h head msg) head (insert_msg_fifo l msg) :=
  list_add_tail_becomes hR hl hd

theorem scan_msg_pri_split (msgpri : UINT → Int) (l : List UINT) (msg : UINT) :
    scan_msg_pri msgpri l msg = (l.takeWhile fun x => !decide (msgpri msg < msgpri x)) ++
      msg :: l.dropWhile fun x => !decide (msgpri msg < msgpri x) := by
  unfold scan_msg_pri
  cases hf : l.find? fun queued => msgpri msg < msgpri queued with
  | some pos => exact List.insertBefore_find hf
  | none => exact List.concat_of_find_none hf

theorem scan_msg_pri_becomes (hR : Represents h A) (hl : A head = some l) (hd : Detached A msg) :
    Becomes h A (insert_at h msg head (l.find? fun x => decide (msgpri msg < msgpri x))) head
      (scan_msg_pri msgpri l msg) := by
  have hplace := insert_at_becomes hR hl hd fun x => decide (msgpri msg < msgpri x)
  rwa [scan_msg_pri_split]

theorem insert_msg_pri_becomes (hR : Represents h A) (hl : A head = some l) (hd : Detached A msg) :
    ∃ h', (∀ fuel, l.length < fuel → Heap.insert_msg_pri msgpri h head msg fuel = some h') ∧
      Becomes h A h' head (insert_msg_pri msgpri l msg) := by
  have hr := hR.ring hl
  have hscan : ∀ fuel, l.length < fuel → Heap.scan_links msgpri head msg (msgpri msg) h fuel (h.next head) =
      some (insert_at h msg head (l.find? fun x => decide (msgpri msg < msgpri x))) := by
    intro fuel hfuel
    rw [hr.next_head]
    exact scan_links_eq hr.at_head hfuel
  unfold Heap.insert_msg_pri insert_msg_pri Heap.msg_link
  simp only [msg_from_link_eq, hr.prev_head]
  cases hlast : l.getLast? with
  | none =>
    obtain rfl := List.getLast?_eq_none_iff.mp hlast
    have hempty : tkmc_list_empty h head = true := (list_empty_iff hr).mpr rfl
    simp only [hempty, Bool.not_true, Bool.false_eq_true, false_and, if_false]
    exact ⟨_, hscan, scan_msg_pri_becomes hR hl hd⟩
  | some last =>
    have hne : l ≠ [] := fun he => by simp [he] at hlast
    have hempty : tkmc_list_empty h head = false := by
      rw [Bool.eq_false_iff]
      exact fun he => hne ((list_empty_iff hr).mp he)
    have hlastD : l.getLastD head = last := by rw [List.getLastD_eq_getLast?, hlast]; rfl
    simp only [hempty, Bool.not_false, true_and, hlastD]
    split
    · exact ⟨_, fun _ _ => rfl, list_add_tail_becomes hR hl hd⟩
    · exact ⟨_, hscan, scan_msg_pri_becomes hR hl hd⟩

end TsukumoCore
