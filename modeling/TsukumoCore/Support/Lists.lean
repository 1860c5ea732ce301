import TsukumoCore.Kernel.List

/-!
# The linked list is a sequence

`Represents` relates a heap to the sequences of its rings. Each operation on one ring is the operation on its
sequence, and the traversal that fetches its next node ahead walks the sequence it started on.
-/

namespace TsukumoCore

open Ring

variable {h h₁ h₂ : Heap} {A : Rings UINT} {head n pos : UINT} {l l₁ l₂ : List UINT}

/-! ## The operations -/

theorem list_add_between_eq {prev next : UINT} :
    tkmc_list_add_between h n prev next = (h.link n next).link prev n := rfl

theorem list_empty_iff (hr : IsRing h head l) : tkmc_list_empty h head ↔ l = [] := by
  rw [← hr.next_head_eq_iff]
  simp [tkmc_list_empty, eq_comm]

theorem list_add_becomes (hR : Represents h A) (hl : A head = some l) (hd : Detached A n) :
    Becomes h A (tkmc_list_add h n head) head (n :: l) := by
  have hl' : A head = some ([] ++ l) := hl
  have hins := hR.insert hl' hd
  rw [tkmc_list_add, list_add_between_eq, (hR.ring hl).next_head]
  exact hins

theorem list_add_tail_becomes (hR : Represents h A) (hl : A head = some l) (hd : Detached A n) :
    Becomes h A (tkmc_list_add_tail h n head) head (l ++ [n]) := by
  have hl' : A head = some (l ++ []) := by rw [hl, List.append_nil]
  have hins := hR.insert hl' hd
  rw [tkmc_list_add_tail, list_add_between_eq, (hR.ring hl).prev_head]
  exact hins

theorem list_add_prev_becomes (hR : Represents h A) (hl : A head = some (l₁ ++ pos :: l₂)) (hd : Detached A n) :
    Becomes h A (tkmc_list_add h n (h.prev pos)) head (l₁ ++ n :: pos :: l₂) := by
  have hins := hR.insert hl hd
  have hnext : h.next (l₁.getLastD head) = pos := (hR.ring hl).joined.1
  rw [tkmc_list_add, list_add_between_eq, (hR.ring hl).prev_of_mem, hnext]
  exact hins

theorem list_del_links {x : UINT} (hx : x ≠ n) :
    (tkmc_list_del h n).next x = (h.link (h.prev n) (h.next n)).next x ∧
    (tkmc_list_del h n).prev x = (h.link (h.prev n) (h.next n)).prev x := by
  simp [tkmc_list_del, Heap.set_next, Heap.set_prev, Links.link, hx]

theorem list_del_becomes (hR : Represents h A) (hl : A head = some (l₁ ++ n :: l₂)) :
    Becomes h A (tkmc_list_del h n) head (l₁ ++ l₂) := by
  have hrem := hR.remove hl
  rw [← (hR.ring hl).prev_of_mem, ← (hR.ring hl).next_of_mem] at hrem
  exact hrem.congr (hR.detached_of_remove hl) fun x hx => list_del_links hx

/-! ## The traversal -/

section Traversal

variable {σ : Type*}

/-- What the body of a safe traversal may do at a node: leave the ring of `head` as it is, or take that node
out of it (`gone`). `Good` is whatever it needs of the state and the rings. The other rings may change, so
that it may put the node on one of them. -/
structure SafeBody (heap : σ → Heap) (head offset : UINT) (body : UINT → σ → σ) (gone : UINT → σ → Bool)
    (Good : σ → Rings UINT → Prop) : Prop where
  represents : ∀ {s A}, Good s A → Represents (heap s) A
  keeps : ∀ {s A l pos}, Good s A → A head = some l → pos + offset ∈ l →
    ∃ A', Good (body pos s) A' ∧ A' head = some (if gone pos s then l.erase (pos + offset) else l)

/-- The nodes that were not taken out when they were visited. -/
def undeleted (offset : UINT) (gone : UINT → σ → Bool) (visits : List (UINT × σ)) : List UINT :=
  (visits.filter fun v => !gone v.1 v.2).map fun v => v.1 + offset

variable {heap : σ → Heap} {offset : UINT} {body : UINT → σ → σ} {gone : UINT → σ → Bool}
  {Good : σ → Rings UINT → Prop}

theorem entry_add (ptr offset : UINT) : tkmc_list_entry ptr offset + offset = ptr :=
  BitVec.sub_add_cancel ptr offset

theorem next_entry_add : tkmc_list_next_entry h pos offset + offset = h.next (pos + offset) :=
  entry_add _ _

/-- The nodes still to visit are `todo`. The node at `pos` is the first of them and `n` the one after it, or
the head. -/
theorem for_each_entry_safe_spec (hb : SafeBody heap head offset body gone Good) {fuel : Nat} {n : UINT} {s : σ}
    {kept todo : List UINT} (hg : Good s A) (hl : A head = some (kept ++ todo)) (hfuel : todo.length < fuel)
    (hpos : pos + offset = todo.headD head) (hn : todo ≠ [] → n + offset = todo.tail.headD head) :
    ∃ visits last A', for_each_entry_safe heap head offset body fuel pos n s = some (visits, last) ∧
      visits.map (fun v => v.1 + offset) = todo ∧ Good last A' ∧
      A' head = some (kept ++ undeleted offset gone visits) := by
  induction todo generalizing fuel pos n s A kept with
  | nil =>
    obtain ⟨fuel, rfl⟩ := Nat.exists_eq_succ_of_ne_zero (Nat.ne_zero_of_lt hfuel)
    exact ⟨[], s, A, by simp [for_each_entry_safe, hpos], rfl, hg, hl⟩
  | cons x todo ih =>
    obtain ⟨fuel, rfl⟩ := Nat.exists_eq_succ_of_ne_zero (Nat.ne_zero_of_lt hfuel)
    have hr := (hb.represents hg).ring hl
    have hx : pos + offset = x := hpos
    have hxh : x ≠ head := fun he => hr.head_not_mem (by simp [← he])
    have hmem : pos + offset ∈ kept ++ x :: todo := by simp [hx]
    obtain ⟨A', hg', hl'⟩ := hb.keeps hg hl hmem
    -- `x` stays or goes; what is behind it stays either way
    have hxk : x ∉ kept := by
      have hnd := (List.nodup_cons.mp hr.nodup).2
      exact fun hm => List.disjoint_of_nodup_append hnd hm (by simp)
    have hl' : A' head = some ((kept ++ if gone pos s then [] else [x]) ++ todo) := by
      rw [hl', hx]
      cases gone pos s with
      | false => simp
      | true => simp [List.erase_append_right _ hxk]
    have hn' : todo ≠ [] →
        tkmc_list_next_entry (heap (body pos s)) n offset + offset = todo.tail.headD head := by
      intro hne
      obtain ⟨y, todo, rfl⟩ := List.exists_cons_of_ne_nil hne
      have hny : n + offset = y := hn (by simp)
      rw [next_entry_add, hny]
      exact ((hb.represents hg').ring hl').next_of_mem
    obtain ⟨visits, last, A'', hrun, hvisits, hg'', hl''⟩ :=
      ih hg' hl' (Nat.lt_of_succ_lt_succ hfuel) (hn (by simp)) hn'
    refine ⟨(pos, s) :: visits, last, A'', ?_, by simp [hx, hvisits], hg'', ?_⟩
    · simp [for_each_entry_safe, hx, hxh, hrun]
    · rw [hl'']
      cases hgone : gone pos s <;> simp [undeleted, hgone, hx]

theorem list_for_each_entry_safe_spec (hb : SafeBody heap head offset body gone Good) {fuel : Nat} {s : σ}
    (hg : Good s A) (hl : A head = some l) (hfuel : l.length < fuel) :
    ∃ visits last A', tkmc_list_for_each_entry_safe heap head offset body fuel s = some (visits, last) ∧
      visits.map (fun v => v.1 + offset) = l ∧ Good last A' ∧
      A' head = some (undeleted offset gone visits) := by
  have hr := (hb.represents hg).ring hl
  have hpos : tkmc_list_first_entry (heap s) head offset + offset = l.headD head := by
    rw [tkmc_list_first_entry, entry_add, hr.next_head]
  have hl' : A head = some ([] ++ l) := hl
  refine for_each_entry_safe_spec hb hg hl' hfuel hpos fun hne => ?_
  obtain ⟨x, l, rfl⟩ := List.exists_cons_of_ne_nil hne
  rw [next_entry_add, hpos]
  exact hr.at_head.next_of_mem

/-! ### Bodies made of the list operations -/

/-- What a body does with the node it is at. -/
inductive Fate where
  | stays
  | goes
  | moves (other : UINT)

def Fate.apply (node : UINT) (h : Heap) : Fate → Heap
  | .stays => h
  | .goes => tkmc_list_del h node
  | .moves other => tkmc_list_add_tail (tkmc_list_del h node) node other

theorem list_move_represents {other : UINT} {l' : List UINT} (hR : Represents h A)
    (hl : A head = some (l₁ ++ n :: l₂)) (ho : A other = some l') (hne : other ≠ head) :
    Represents (tkmc_list_add_tail (tkmc_list_del h n) n other)
      (Function.update (Function.update A head (some (l₁ ++ l₂))) other (some (l' ++ [n]))) := by
  have hdel := (list_del_becomes hR hl).represents
  have ho' : Function.update A head (some (l₁ ++ l₂)) other = some l' := by rwa [Function.update_of_ne hne]
  exact (list_add_tail_becomes hdel ho' (hR.detached_of_remove hl)).represents

def Fate.deletes : Fate → Bool
  | .stays => false
  | _ => true

/-- A body that at each node leaves it, deletes it or moves it to a different ring, one of `heads`. -/
theorem safeBody_fate {heads : List UINT} {fate : UINT → σ → Fate}
    (hbody : ∀ pos s, heap (body pos s) = (fate pos s).apply (pos + offset) (heap s))
    (hheads : ∀ pos s other, fate pos s = .moves other → other ∈ heads ∧ other ≠ head) :
    SafeBody heap head offset body (fun pos s => (fate pos s).deletes)
      (fun s A => Represents (heap s) A ∧ ∀ other ∈ heads, (A other).isSome) := by
  refine ⟨And.left, @fun s A l pos ⟨hR, hsome⟩ hl hmem => ?_⟩
  obtain ⟨l₁, l₂, rfl⟩ := List.append_of_mem hmem
  have hne : pos + offset ∉ l₁ := by
    have hnd := (List.nodup_cons.mp (hR.ring hl).nodup).2
    exact fun hm => List.disjoint_of_nodup_append hnd hm (by simp)
  have herase : (l₁ ++ (pos + offset) :: l₂).erase (pos + offset) = l₁ ++ l₂ := by
    rw [List.erase_append_right _ hne, List.erase_cons_head]
  -- the heads are those of before
  have hstay : ∀ other ∈ heads, (Function.update A head (some (l₁ ++ l₂)) other).isSome := by
    intro other ho
    by_cases he : other = head
    · simp [he]
    · rw [Function.update_of_ne he]
      exact hsome other ho
  rw [hbody]
  cases hf : fate pos s with
  | stays => exact ⟨A, ⟨hR, hsome⟩, by simpa [Fate.deletes] using hl⟩
  | goes =>
    have hdel := (list_del_becomes hR hl).represents
    exact ⟨_, ⟨hdel, hstay⟩, by simp [Fate.deletes, herase]⟩
  | moves other =>
    obtain ⟨ho, hne'⟩ := hheads pos s other hf
    obtain ⟨l', hl'⟩ := Option.isSome_iff_exists.mp (hsome other ho)
    refine ⟨_, ⟨list_move_represents hR hl hl' hne', fun x hx => ?_⟩, ?_⟩
    · by_cases he : x = other
      · simp [he]
      · rw [Function.update_of_ne he]
        exact hstay x hx
    · rw [Function.update_of_ne hne'.symm, Function.update_self]
      simp [Fate.deletes, herase]

end Traversal

/-! ## The whole -/

/-- On every heap of disjoint rings the operations are those on the sequences. The first four conjuncts say
what becomes of the one ring, and `Becomes` that all others keep their sequences and their links. The last is
the traversal: with fuel for one test more than there are elements it ends, it has visited the elements it
started with in their order, and those not taken out are the ring it leaves. -/
theorem lists_refine_sequences (hR : Represents h A) :
    (∀ head l n, A head = some l → Detached A n →
      Becomes h A (tkmc_list_add h n head) head (n :: l) ∧
      Becomes h A (tkmc_list_add_tail h n head) head (l ++ [n])) ∧
    (∀ head l₁ pos l₂ n, A head = some (l₁ ++ pos :: l₂) → Detached A n →
      Becomes h A (tkmc_list_add h n (h.prev pos)) head (l₁ ++ n :: pos :: l₂)) ∧
    (∀ head l₁ n l₂, A head = some (l₁ ++ n :: l₂) →
      Becomes h A (tkmc_list_del h n) head (l₁ ++ l₂) ∧
      Detached (Function.update A head (some (l₁ ++ l₂))) n) ∧
    (∀ head l, A head = some l → (tkmc_list_empty h head ↔ l = [])) ∧
    (∀ (σ : Type*) (heap : σ → Heap) head offset body gone Good, SafeBody heap head offset body gone Good →
      ∀ s l fuel, Good s A → A head = some l → l.length < fuel →
        ∃ visits last A', tkmc_list_for_each_entry_safe heap head offset body fuel s = some (visits, last) ∧
          visits.map (fun v => v.1 + offset) = l ∧ Good last A' ∧
          A' head = some (undeleted offset gone visits)) := by
  refine ⟨fun head l n hl hd => ⟨list_add_becomes hR hl hd, list_add_tail_becomes hR hl hd⟩,
    fun head l₁ pos l₂ n hl hd => list_add_prev_becomes hR hl hd,
    fun head l₁ n l₂ hl => ⟨list_del_becomes hR hl, hR.detached_of_remove hl⟩,
    fun head l hl => list_empty_iff (hR.ring hl), ?_⟩
  intro σ heap head offset body gone Good hb s l fuel hg hl hfuel
  exact list_for_each_entry_safe_spec hb hg hl hfuel

/-- Two rings, at `0x100` and `0x400`, the first with two elements. -/
def twoRings : Heap :=
  let h := tkmc_init_list_head ⟨id, id⟩ 0x100
  let h := tkmc_init_list_head h 0x400
  let h := tkmc_list_add_tail h 0x208 0x100
  tkmc_list_add_tail h 0x308 0x100

def twoSequences : Rings UINT := fun x => if x = 0x100 then some [0x208, 0x308] else if x = 0x400 then some [] else none

theorem twoSequences_cases (hl : twoSequences head = some l) :
    head = 0x100 ∧ l = [0x208, 0x308] ∨ head = 0x400 ∧ l = [] := by
  unfold twoSequences at hl
  split at hl
  · rename_i he
    exact .inl ⟨he, (Option.some.inj hl).symm⟩
  · split at hl
    · rename_i he
      exact .inr ⟨he, (Option.some.inj hl).symm⟩
    · cases hl

theorem twoRings_represents : Represents twoRings twoSequences := by
  refine ⟨@fun head l hl => ?_, @fun head head' l l' hl hl' hne => ?_⟩
  · obtain ⟨rfl, rfl⟩ | ⟨rfl, rfl⟩ := twoSequences_cases hl
    · exact ⟨by decide, by decide +kernel⟩
    · exact ⟨by decide, by decide +kernel⟩
  · obtain ⟨rfl, rfl⟩ | ⟨rfl, rfl⟩ := twoSequences_cases hl <;> obtain ⟨rfl, rfl⟩ | ⟨rfl, rfl⟩ := twoSequences_cases hl'
    · exact absurd rfl hne
    · simp
    · simp
    · exact absurd rfl hne

/-- The first element goes to the other ring, the second stays. -/
def moveFirst (pos : UINT) : Fate := if pos = 0x200 then .moves 0x400 else .stays

theorem lists_refine_sequences_move : ∃ visits last A',
    tkmc_list_for_each_entry_safe id 0x100 0x8 (fun pos h => (moveFirst pos).apply (pos + 0x8) h) 3 twoRings =
      some (visits, last) ∧
    visits.map (fun v => v.1 + 0x8) = [0x208, 0x308] ∧ Represents last A' ∧ A' 0x100 = some [0x308] := by
  have hbody : SafeBody id 0x100 0x8 (fun pos h => (moveFirst pos).apply (pos + 0x8) h)
      (fun pos _ => (moveFirst pos).deletes)
      (fun s A => Represents s A ∧ ∀ other ∈ [0x400], (A other).isSome) := by
    refine safeBody_fate (fun _ _ => rfl) fun pos _ other ho => ?_
    unfold moveFirst at ho
    split at ho <;> cases ho
    decide
  have hheads : ∀ other ∈ [0x400], (twoSequences other).isSome := by simp [twoSequences]
  have hl : twoSequences 0x100 = some [0x208, 0x308] := by simp [twoSequences]
  obtain ⟨-, -, -, -, htraversal⟩ := lists_refine_sequences twoRings_represents
  obtain ⟨visits, last, A', hrun, hvisits, hg, hl'⟩ :=
    htraversal Heap id 0x100 0x8 _ _ _ hbody twoRings _ 3 ⟨twoRings_represents, hheads⟩ hl (by simp)
  refine ⟨visits, last, A', hrun, hvisits, hg.1, ?_⟩
  rw [hl']
  obtain ⟨v, w, rfl⟩ : ∃ v w, visits = [v, w] := List.length_eq_two.mp (by simpa using congrArg List.length hvisits)
  obtain ⟨hv, hw⟩ : v.1 + 0x8 = 0x208 ∧ w.1 + 0x8 = 0x308 := by simpa using hvisits
  have hv : v.1 = 0x200 := by bv_omega
  have hw : w.1 = 0x300 := by bv_omega
  simp [undeleted, hv, hw, moveFirst, Fate.deletes]

end TsukumoCore
