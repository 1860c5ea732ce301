import Mathlib.Data.List.Chain
import Mathlib.Data.List.Nodup

/-!
# Rings of doubly linked nodes

A ring starts at its head, passes its elements in order and comes back to the head, with every `next`
matched by a `prev`. A heap holds any number of rings, and no two have a node in common.
-/

namespace Ring

structure Links (α : Type*) where
  next : α → α
  prev : α → α

variable {α : Type*}

def Links.Joined (h : Links α) (a b : α) : Prop := h.next a = b ∧ h.prev b = a

instance [DecidableEq α] (h : Links α) (a b : α) : Decidable (h.Joined a b) :=
  inferInstanceAs (Decidable (h.next a = b ∧ h.prev b = a))

/-- The ring of `head` has the elements `l`. -/
structure IsRing (h : Links α) (head : α) (l : List α) : Prop where
  nodup : (head :: l).Nodup
  chain : (head :: (l ++ [head])).IsChain h.Joined

/-! ## One ring -/

section Chain

variable {h h' : Links α}

theorem chain_congr {p : List α} (hc : p.IsChain h.Joined) (hnext : ∀ x ∈ p.dropLast, h'.next x = h.next x)
    (hprev : ∀ x ∈ p.tail, h'.prev x = h.prev x) : p.IsChain h'.Joined := by
  induction p with
  | nil => exact .nil
  | cons a p ih =>
    cases p with
    | nil => exact .singleton a
    | cons b p =>
      obtain ⟨⟨hab, hba⟩, hrest⟩ := List.isChain_cons_cons.mp hc
      have hna : h'.next a = b := by rw [hnext a (by simp), hab]
      have hpb : h'.prev b = a := by rw [hprev b (by simp), hba]
      refine List.isChain_cons_cons.mpr ⟨⟨hna, hpb⟩, ih hrest ?_ ?_⟩
      · exact fun x hx => hnext x (by simp [hx])
      · exact fun x hx => hprev x (List.mem_cons_of_mem b hx)

variable {head a b n : α} {l l₁ l₂ : List α}

theorem getLast_path : (head :: l).getLast? = some (l.getLastD head) := by
  rw [List.getLast?_cons, List.getLastD_eq_getLast?]

theorem head_path : (l ++ [head]).head? = some (l.headD head) := by
  cases l <;> rfl

theorem chain_cut : (head :: (l₁ ++ l₂ ++ [head])).IsChain h.Joined ↔
    (head :: l₁).IsChain h.Joined ∧ (l₂ ++ [head]).IsChain h.Joined ∧ h.Joined (l₁.getLastD head) (l₂.headD head) := by
  have hsplit : head :: (l₁ ++ l₂ ++ [head]) = (head :: l₁) ++ (l₂ ++ [head]) := by simp
  rw [hsplit, List.isChain_append, getLast_path, head_path]
  simp

theorem headD_mem (l : List α) (head : α) : l.headD head ∈ head :: l := by
  cases l <;> simp

theorem getLastD_mem (l : List α) (head : α) : l.getLastD head ∈ head :: l := by
  rw [List.getLastD_eq_getLast?]
  cases hl : l.getLast? with
  | none => simp
  | some x => simp [List.mem_of_getLast? hl]

theorem neighbours_mem (head : α) (l₁ l₂ : List α) :
    l₁.getLastD head ∈ head :: (l₁ ++ l₂) ∧ l₂.headD head ∈ head :: (l₁ ++ l₂) := by
  have hlast := getLastD_mem l₁ head
  have hfirst := headD_mem l₂ head
  simp only [List.mem_cons, List.mem_append] at hlast hfirst ⊢
  tauto

theorem perm_middle : (head :: (l₁ ++ n :: l₂)).Perm (n :: head :: (l₁ ++ l₂)) :=
  (List.perm_middle.cons head).trans (.swap n head _)

/-- The two paths of a cut ring stay when only the `next` of the last node before the cut and the `prev` of
the first one after it change. -/
theorem chain_relink (h' : Links α) (hnodup : (head :: (l₁ ++ l₂)).Nodup)
    (hc : (head :: l₁).IsChain h.Joined) (hc' : (l₂ ++ [head]).IsChain h.Joined)
    (hnext : ∀ x ∈ head :: (l₁ ++ l₂), x ≠ l₁.getLastD head → h'.next x = h.next x)
    (hprev : ∀ x ∈ head :: (l₁ ++ l₂), x ≠ l₂.headD head → h'.prev x = h.prev x) :
    (head :: l₁).IsChain h'.Joined ∧ (l₂ ++ [head]).IsChain h'.Joined := by
  obtain ⟨hout, hnodup₁, hnodup₂, hdisj⟩ : head ∉ l₁ ++ l₂ ∧ l₁.Nodup ∧ l₂.Nodup ∧ l₁.Disjoint l₂ := by
    rw [List.nodup_cons, List.nodup_append'] at hnodup
    exact hnodup
  rw [List.mem_append, not_or] at hout
  constructor
  · have hpath : head :: l₁ = (head :: l₁).dropLast ++ [l₁.getLastD head] := by
      rw [List.dropLast_append_getLast? _ (by rw [getLast_path]; rfl)]
    have hlast : l₁.getLastD head ∉ (head :: l₁).dropLast := by
      have hn : ((head :: l₁).dropLast ++ [l₁.getLastD head]).Nodup := by
        rw [← hpath]
        exact List.nodup_cons.mpr ⟨hout.1, hnodup₁⟩
      exact fun hx => List.disjoint_of_nodup_append hn hx (by simp)
    refine chain_congr hc (fun x hx => hnext x ?_ ?_) (fun x hx => hprev x ?_ ?_)
    · rw [← List.cons_append]
      exact List.mem_append_left l₂ (List.dropLast_subset _ hx)
    · exact fun he => hlast (he ▸ hx)
    · simp [show x ∈ l₁ from hx]
    · rintro rfl
      rcases List.mem_cons.mp (headD_mem l₂ head) with he | hm
      · exact hout.1 (he ▸ hx)
      · exact hdisj hx hm
  · have hback : l₂ ++ [head] = l₂.headD head :: (l₂ ++ [head]).tail := by
      cases l₂ <;> rfl
    have hfirst : l₂.headD head ∉ (l₂ ++ [head]).tail := by
      have hn : (l₂ ++ [head]).Nodup := by
        simpa [List.nodup_append', hnodup₂] using hout.2
      rw [hback] at hn
      exact (List.nodup_cons.mp hn).1
    refine chain_congr hc' (fun x hx => hnext x ?_ ?_) (fun x hx => hprev x ?_ ?_)
    · rw [List.dropLast_concat] at hx
      simp [hx]
    · rw [List.dropLast_concat] at hx
      rintro rfl
      rcases List.mem_cons.mp (getLastD_mem l₁ head) with he | hm
      · exact hout.2 (he ▸ hx)
      · exact hdisj hm hx
    · have hx' := List.mem_of_mem_tail hx
      rw [List.mem_append, List.mem_singleton] at hx'
      rcases hx' with hx' | rfl <;> simp [*]
    · exact fun he => hfirst (he ▸ hx)

namespace IsRing

theorem joined (hr : IsRing h head (l₁ ++ l₂)) : h.Joined (l₁.getLastD head) (l₂.headD head) :=
  (chain_cut.mp hr.chain).2.2

theorem at_head (hr : IsRing h head l) : IsRing h head ([] ++ l) := hr

theorem next_head (hr : IsRing h head l) : h.next head = l.headD head := hr.at_head.joined.1

theorem prev_head (hr : IsRing h head l) : h.prev head = l.getLastD head := by
  have hl : IsRing h head (l ++ []) := by rwa [List.append_nil]
  exact hl.joined.2

theorem next_of_mem (hr : IsRing h head (l₁ ++ n :: l₂)) : h.next n = l₂.headD head := by
  have hl : IsRing h head ((l₁ ++ [n]) ++ l₂) := by rwa [List.append_cons] at hr
  simpa using hl.joined.1

theorem prev_of_mem (hr : IsRing h head (l₁ ++ n :: l₂)) : h.prev n = l₁.getLastD head :=
  hr.joined.2

theorem head_not_mem (hr : IsRing h head l) : head ∉ l := (List.nodup_cons.mp hr.nodup).1

theorem next_head_eq_iff (hr : IsRing h head l) : h.next head = head ↔ l = [] := by
  rw [hr.next_head]
  cases l with
  | nil => simp
  | cons a l =>
    have ha : a ≠ head := fun he => hr.head_not_mem (by simp [he])
    simpa using ha

/-- The two ends of the ring are the same on a ring of one node, and on the empty one. -/
theorem next_head_eq_prev_iff (hr : IsRing h head l) : h.next head = h.prev head ↔ l.head? = l.getLast? := by
  rw [hr.next_head, hr.prev_head]
  cases l with
  | nil => simp
  | cons x rest =>
    rw [List.headD_cons, List.getLastD_cons, List.head?_cons, List.getLast?_cons, Option.some.injEq,
      List.getLastD_eq_getLast?]

theorem congr (hr : IsRing h head l) (hnext : ∀ x ∈ head :: l, h'.next x = h.next x)
    (hprev : ∀ x ∈ head :: l, h'.prev x = h.prev x) : IsRing h' head l := by
  refine ⟨hr.nodup, chain_congr hr.chain (fun x hx => hnext x ?_) (fun x hx => hprev x ?_)⟩
  · rw [← List.cons_append, List.dropLast_concat] at hx
    exact hx
  · rw [List.tail_cons] at hx
    simpa [or_comm] using hx

/-- The elements of a ring in their order decide the links of all its nodes. -/
theorem same_links (hr : IsRing h head l) (hr' : IsRing h' head l) {x : α} (hx : x ∈ head :: l) :
    h'.next x = h.next x ∧ h'.prev x = h.prev x := by
  rcases List.mem_cons.mp hx with rfl | hx
  · exact ⟨by rw [hr.next_head, hr'.next_head], by rw [hr.prev_head, hr'.prev_head]⟩
  · obtain ⟨l₁, l₂, rfl⟩ := List.append_of_mem hx
    exact ⟨by rw [hr.next_of_mem, hr'.next_of_mem], by rw [hr.prev_of_mem, hr'.prev_of_mem]⟩

end IsRing

/-! ## A heap of rings -/

/-- The elements of the ring of each head; `none` for a node that is no head. -/
abbrev Rings (α : Type*) := α → Option (List α)

/-- Every ring of `A` is closed in the heap, and no two have a node in common. -/
structure Represents (h : Links α) (A : Rings α) : Prop where
  ring : ∀ {head l}, A head = some l → IsRing h head l
  apart : ∀ {head head' l l'}, A head = some l → A head' = some l' → head ≠ head' →
    (head :: l).Disjoint (head' :: l')

/-- The node is on no ring, as its head or as an element. -/
def Detached (A : Rings α) (n : α) : Prop := ∀ head l, A head = some l → n ∉ head :: l

variable {A : Rings α}

theorem Represents.not_mem (hR : Represents h A) (hl : A head = some l) {head' l' x} (hl' : A head' = some l')
    (hne : head' ≠ head) (hx : x ∈ head' :: l') : x ∉ head :: l :=
  fun hx' => hR.apart hl' hl hne hx hx'

theorem Represents.congr (hR : Represents h A)
    (hnext : ∀ {head l x}, A head = some l → x ∈ head :: l → h'.next x = h.next x)
    (hprev : ∀ {head l x}, A head = some l → x ∈ head :: l → h'.prev x = h.prev x) : Represents h' A :=
  ⟨fun hl => (hR.ring hl).congr (fun _ hx => hnext hl hx) (fun _ hx => hprev hl hx), hR.apart⟩

end Chain

/-! ## Linking two nodes -/

variable [DecidableEq α] {h h' : Links α} {head a b n : α} {l l₁ l₂ : List α}

/-- `b` becomes the node after `a`. -/
def Links.link (h : Links α) (a b : α) : Links α :=
  { next := Function.update h.next a b, prev := Function.update h.prev b a }

theorem Links.joined_link : (h.link a b).Joined a b := by simp [Links.Joined, Links.link]

theorem Links.link_next {x : α} (hx : x ≠ a) : (h.link a b).next x = h.next x := by simp [Links.link, hx]

theorem Links.link_prev {x : α} (hx : x ≠ b) : (h.link a b).prev x = h.prev x := by simp [Links.link, hx]

namespace IsRing

theorem single (h : Links α) (head : α) : IsRing (h.link head head) head [] :=
  ⟨by simp, List.isChain_cons_cons.mpr ⟨Links.joined_link, .singleton head⟩⟩

theorem insert (hr : IsRing h head (l₁ ++ l₂)) (hn : n ∉ head :: (l₁ ++ l₂)) :
    IsRing ((h.link n (l₂.headD head)).link (l₁.getLastD head) n) head (l₁ ++ n :: l₂) := by
  have hnodup : (head :: (l₁ ++ n :: l₂)).Nodup :=
    perm_middle.nodup_iff.mpr (List.nodup_cons.mpr ⟨hn, hr.nodup⟩)
  have hne : ∀ x ∈ head :: (l₁ ++ l₂), x ≠ n := fun x hx he => hn (he ▸ hx)
  obtain ⟨hlast, hfirst⟩ := neighbours_mem head l₁ l₂
  obtain ⟨hc, hc', -⟩ := chain_cut.mp hr.chain
  obtain ⟨hc, hc'⟩ := chain_relink ((h.link n (l₂.headD head)).link (l₁.getLastD head) n) hr.nodup hc hc'
    (fun x hx he => by rw [Links.link_next he, Links.link_next (hne x hx)])
    (fun x hx he => by rw [Links.link_prev (hne x hx), Links.link_prev he])
  refine ⟨hnodup, chain_cut.mpr ⟨hc, List.isChain_cons.mpr ⟨?_, hc'⟩, Links.joined_link⟩⟩
  intro b hb
  obtain rfl : l₂.headD head = b := by simpa [head_path] using hb
  have hj : (h.link n (l₂.headD head)).Joined n (l₂.headD head) := Links.joined_link
  exact ⟨by rw [Links.link_next (hne _ hlast).symm, hj.1], by rw [Links.link_prev (hne _ hfirst), hj.2]⟩

theorem remove (hr : IsRing h head (l₁ ++ n :: l₂)) :
    IsRing (h.link (l₁.getLastD head) (l₂.headD head)) head (l₁ ++ l₂) := by
  have hsub : (head :: (l₁ ++ l₂)).Sublist (head :: (l₁ ++ n :: l₂)) :=
    ((List.sublist_cons_self n l₂).append_left l₁).cons_cons head
  have hnodup : (head :: (l₁ ++ l₂)).Nodup := hr.nodup.sublist hsub
  obtain ⟨hc, hc', -⟩ := chain_cut.mp hr.chain
  obtain ⟨hc, hc'⟩ := chain_relink (h.link (l₁.getLastD head) (l₂.headD head)) hnodup hc
    (List.isChain_cons.mp hc').2 (fun x _ he => Links.link_next he) (fun x _ he => Links.link_prev he)
  exact ⟨hnodup, chain_cut.mpr ⟨hc, hc', Links.joined_link⟩⟩

end IsRing

/-! ## One ring of many -/

/-- The ring of `head` becomes `l`. No link of a node of another ring changes. -/
structure Becomes (h : Links α) (A : Rings α) (h' : Links α) (head : α) (l : List α) : Prop where
  represents : Represents h' (Function.update A head (some l))
  others : ∀ {head' l' x}, A head' = some l' → head' ≠ head → x ∈ head' :: l' →
    h'.next x = h.next x ∧ h'.prev x = h.prev x

variable {A : Rings α}

/-- A heap that changed on the nodes of one ring and on detached nodes alone. -/
theorem Represents.becomes (hR : Represents h A) (hr : IsRing h' head l)
    (hout : ∀ {head' l' x}, A head' = some l' → head' ≠ head → x ∈ head' :: l' → x ∉ head :: l)
    (hframe : ∀ {head' l' x}, A head' = some l' → head' ≠ head → x ∈ head' :: l' →
      h'.next x = h.next x ∧ h'.prev x = h.prev x) : Becomes h A h' head l := by
  refine ⟨⟨?_, ?_⟩, hframe⟩
  · intro head' l' hl'
    by_cases he : head' = head
    · subst he
      rw [Function.update_self, Option.some.injEq] at hl'
      exact hl' ▸ hr
    · rw [Function.update_of_ne he] at hl'
      exact (hR.ring hl').congr (fun x hx => (hframe hl' he hx).1) (fun x hx => (hframe hl' he hx).2)
  · intro head₁ head₂ l₁ l₂ h₁ h₂ hne
    by_cases he₁ : head₁ = head
    · subst he₁
      rw [Function.update_self, Option.some.injEq] at h₁
      rw [Function.update_of_ne hne.symm] at h₂
      exact fun x hx₁ hx₂ => hout h₂ hne.symm hx₂ (h₁ ▸ hx₁)
    · rw [Function.update_of_ne he₁] at h₁
      by_cases he₂ : head₂ = head
      · subst he₂
        rw [Function.update_self, Option.some.injEq] at h₂
        exact fun x hx₁ hx₂ => hout h₁ hne hx₁ (h₂ ▸ hx₂)
      · rw [Function.update_of_ne he₂] at h₂
        exact hR.apart h₁ h₂ hne

theorem Becomes.congr {h₁ h₂ : Links α} (hb : Becomes h A h₁ head l)
    (hd : Detached (Function.update A head (some l)) n)
    (hframe : ∀ x ≠ n, h₂.next x = h₁.next x ∧ h₂.prev x = h₁.prev x) : Becomes h A h₂ head l := by
  refine ⟨hb.represents.congr ?_ ?_, @fun head' l' x hl' hne hx => ?_⟩
  · exact @fun head' l' x hl' hx => (hframe x fun he => hd _ _ hl' (he ▸ hx)).1
  · exact @fun head' l' x hl' hx => (hframe x fun he => hd _ _ hl' (he ▸ hx)).2
  · have hl'' : Function.update A head (some l) head' = some l' := by rwa [Function.update_of_ne hne]
    have hx' := hframe x fun he => hd _ _ hl'' (he ▸ hx)
    rw [hx'.1, hx'.2]
    exact hb.others hl' hne hx

theorem Represents.forget (hR : Represents h A) (head : α) : Represents h (Function.update A head none) := by
  have hof : ∀ {head' l'}, Function.update A head none head' = some l' → A head' = some l' := by
    intro head' l' hl'
    by_cases he : head' = head
    · rw [he, Function.update_self] at hl'
      cases hl'
    · rwa [Function.update_of_ne he] at hl'
  exact ⟨fun hl => hR.ring (hof hl), fun hl hl' => hR.apart (hof hl) (hof hl')⟩

theorem Represents.reset (hR : Represents h A)
    (hout : ∀ head' l', A head' = some l' → head' ≠ head → head ∉ head' :: l') :
    Becomes h A (h.link head head) head [] := by
  have hne : ∀ {head' l' x}, A head' = some l' → head' ≠ head → x ∈ head' :: l' → x ≠ head :=
    fun hl' hne hx he => hout _ _ hl' hne (he ▸ hx)
  refine hR.becomes (.single h head) (fun hl' hh hx => ?_) (fun hl' hh hx => ?_)
  · simpa using hne hl' hh hx
  · exact ⟨Links.link_next (hne hl' hh hx), Links.link_prev (hne hl' hh hx)⟩

theorem Represents.insert (hR : Represents h A) (hl : A head = some (l₁ ++ l₂)) (hd : Detached A n) :
    Becomes h A ((h.link n (l₂.headD head)).link (l₁.getLastD head) n) head (l₁ ++ n :: l₂) := by
  obtain ⟨hlast, hfirst⟩ := neighbours_mem head l₁ l₂
  refine hR.becomes ((hR.ring hl).insert (hd head _ hl)) (@fun head' l' x hl' hne hx => ?_)
    (@fun head' l' x hl' hne hx => ?_)
  · have hout := hR.not_mem hl hl' hne hx
    have hxn : x ≠ n := fun he => hd _ _ hl' (he ▸ hx)
    simp only [List.mem_cons, List.mem_append] at hout ⊢
    tauto
  · have hout := hR.not_mem hl hl' hne hx
    have hxn : x ≠ n := fun he => hd _ _ hl' (he ▸ hx)
    have hxl : x ≠ l₁.getLastD head := fun he => hout (he ▸ hlast)
    have hxf : x ≠ l₂.headD head := fun he => hout (he ▸ hfirst)
    exact ⟨by rw [Links.link_next hxl, Links.link_next hxn], by rw [Links.link_prev hxn, Links.link_prev hxf]⟩

theorem Represents.remove (hR : Represents h A) (hl : A head = some (l₁ ++ n :: l₂)) :
    Becomes h A (h.link (l₁.getLastD head) (l₂.headD head)) head (l₁ ++ l₂) := by
  obtain ⟨hlast, hfirst⟩ := neighbours_mem head l₁ l₂
  have hsub : ∀ x ∈ head :: (l₁ ++ l₂), x ∈ head :: (l₁ ++ n :: l₂) := by
    intro x hx
    simp only [List.mem_cons, List.mem_append] at hx ⊢
    tauto
  refine hR.becomes (hR.ring hl).remove (@fun head' l' x hl' hne hx => ?_) (@fun head' l' x hl' hne hx => ?_)
  · exact fun hx' => hR.not_mem hl hl' hne hx (hsub _ hx')
  · have hout := hR.not_mem hl hl' hne hx
    have hxl : x ≠ l₁.getLastD head := fun he => hout (hsub _ (he ▸ hlast))
    have hxf : x ≠ l₂.headD head := fun he => hout (hsub _ (he ▸ hfirst))
    exact ⟨Links.link_next hxl, Links.link_prev hxf⟩

theorem Represents.detached_of_remove (hR : Represents h A) (hl : A head = some (l₁ ++ n :: l₂)) :
    Detached (Function.update A head (some (l₁ ++ l₂))) n := by
  intro head' l' hl'
  by_cases he : head' = head
  · subst he
    rw [Function.update_self, Option.some.injEq] at hl'
    rw [← hl']
    exact (List.nodup_cons.mp (perm_middle.nodup_iff.mp (hR.ring hl).nodup)).1
  · rw [Function.update_of_ne he] at hl'
    exact fun hx => hR.not_mem hl hl' he hx (by simp)

end Ring
