import Mathlib.Data.List.Nodup
import Mathlib.Data.List.Sublists

/-!
# Turns

A log says who joins a queue, who leaves it, and who leaves it with what it waited for.
-/

namespace Turn

variable {ε ι : Type*}

/-! ## Who came first -/

section Arrivals

variable (joins : ε → Option ι)

/-- `u` came, and after it `t`: of each the last time counts. -/
def Earlier (log : List ε) (u t : ι) : Prop :=
  ∃ pre e post, log = pre ++ e :: post ∧ joins e = some u ∧ (∀ e' ∈ post, joins e' ≠ some u) ∧
    ∃ e' ∈ post, joins e' = some t

/-- `u` came at some time. -/
def Came (log : List ε) (u : ι) : Prop := ∃ e ∈ log, joins e = some u

variable {joins} {log post : List ε} {u t : ι}

theorem Came.append (h : Came joins log u) (post : List ε) : Came joins (log ++ post) u := by
  obtain ⟨e, he, hu⟩ := h
  exact ⟨e, List.mem_append_left post he, hu⟩

theorem Came.last (h : Came joins log u) :
    ∃ pre e post, log = pre ++ e :: post ∧ joins e = some u ∧ ∀ e' ∈ post, joins e' ≠ some u := by
  induction log with
  | nil =>
    obtain ⟨e, he, -⟩ := h
    exact absurd he List.not_mem_nil
  | cons e rest ih =>
    by_cases hrest : Came joins rest u
    · obtain ⟨pre, e', post, rfl, he', hpost⟩ := ih hrest
      exact ⟨e :: pre, e', post, rfl, he', hpost⟩
    · obtain ⟨e', he', hu⟩ := h
      rcases List.mem_cons.mp he' with rfl | he'
      · exact ⟨[], e', rest, rfl, hu, fun e'' he'' hu'' => hrest ⟨e'', he'', hu''⟩⟩
      · exact absurd ⟨e', he', hu⟩ hrest

theorem Earlier.append (h : Earlier joins log u t) (hpost : ∀ e ∈ post, joins e ≠ some u) :
    Earlier joins (log ++ post) u t := by
  obtain ⟨pre, e, mid, rfl, he, hmid, e', he', ht⟩ := h
  refine ⟨pre, e, mid ++ post, by simp, he, ?_, e', List.mem_append_left post he', ht⟩
  intro e'' he''
  rcases List.mem_append.mp he'' with he'' | he''
  · exact hmid e'' he''
  · exact hpost e'' he''

theorem Came.earlier (h : Came joins log u) {e : ε} (he : joins e = some t) (hne : u ≠ t) :
    Earlier joins (log ++ [e]) u t := by
  obtain ⟨pre, e', mid, rfl, hu, hmid⟩ := h.last
  refine ⟨pre, e', mid ++ [e], by simp, hu, ?_, e, by simp, he⟩
  intro e'' he''
  rcases List.mem_append.mp he'' with he'' | he''
  · exact hmid e'' he''
  · rw [List.mem_singleton.mp he'', he]
    exact fun heq => hne (Option.some.inj heq).symm

theorem Earlier.asymm (h : Earlier joins log u t) : ¬ Earlier joins log t u := by
  rintro ⟨pre', e', post', hlog, he', hpost', f', hf', hu⟩
  obtain ⟨pre, e, post, rfl, he, hpost, f, hf, ht⟩ := h
  rcases List.append_eq_append_iff.mp hlog with ⟨mid, rfl, hmid⟩ | ⟨mid, rfl, hmid⟩
  · -- the last time of `t` is not before that of `u`, so what follows it does not hold `u`
    cases mid with
    | nil =>
      obtain ⟨rfl, rfl⟩ := List.cons.inj hmid
      exact hpost f' hf' hu
    | cons g mid =>
      obtain ⟨rfl, rfl⟩ := List.cons.inj hmid
      exact hpost f' (List.mem_append_right mid (List.mem_cons_of_mem e' hf')) hu
  · cases mid with
    | nil =>
      obtain ⟨rfl, rfl⟩ := List.cons.inj hmid
      exact hpost f' hf' hu
    | cons g mid =>
      obtain ⟨rfl, rfl⟩ := List.cons.inj hmid
      exact hpost' f (List.mem_append_right mid (List.mem_cons_of_mem e hf)) ht

end Arrivals

/-! ## Who gets it first -/

section Leaving

variable (leaves gets : ε → Option ι)

/-- Some of the queue leave it, as the events say, and nobody gets what it waited for before those in front
of it left. -/
structure InTurn (queue queue' : List ι) (post : List ε) : Prop where
  sublist : queue'.Sublist queue
  left : ∀ u ∈ queue, u ∉ queue' → ∃ e ∈ post, leaves e = some u
  turn : ∀ pre e suf t, post = pre ++ e :: suf → gets e = some t → t ∈ queue ∧
    ∀ u, [u, t].Sublist queue → ∃ e' ∈ pre, leaves e' = some u

variable {leaves gets} {queue queue' queue'' : List ι} {post post' : List ε} {t : ι}

theorem sublist_pair {u : ι} (hnodup : queue.Nodup) (hsub : queue'.Sublist queue)
    (h : [u, t].Sublist queue) (hu : u ∈ queue') (ht : t ∈ queue') : [u, t].Sublist queue' := by
  induction hsub with
  | slnil => exact absurd hu List.not_mem_nil
  | cons x hsub ih =>
    obtain ⟨hx, hrest⟩ := List.nodup_cons.mp hnodup
    have hne : u ≠ x := by
      rintro rfl
      exact hx (hsub.subset hu)
    cases h with
    | cons _ h => exact ih hrest h hu ht
    | cons_cons _ h => exact absurd rfl hne
  | cons_cons x hsub ih =>
    obtain ⟨hx, hrest⟩ := List.nodup_cons.mp hnodup
    cases h with
    | cons _ h =>
      have hux : u ≠ x := by
        rintro rfl
        exact hx (h.subset (by simp))
      have htx : t ≠ x := by
        rintro rfl
        exact hx (h.subset (by simp))
      exact (ih hrest h ((List.mem_cons.mp hu).resolve_left hux) ((List.mem_cons.mp ht).resolve_left htx)).cons x
    | cons_cons _ h =>
      have hne : t ≠ u := by
        rintro rfl
        exact hx (List.singleton_sublist.mp h)
      exact (List.singleton_sublist.mpr ((List.mem_cons.mp ht).resolve_left hne)).cons_cons u

theorem InTurn.trans (hnodup : queue.Nodup) (h : InTurn leaves gets queue queue' post)
    (h' : InTurn leaves gets queue' queue'' post') : InTurn leaves gets queue queue'' (post ++ post') := by
  refine ⟨h'.sublist.trans h.sublist, ?_, ?_⟩
  · intro u hu hu''
    by_cases hu' : u ∈ queue'
    · obtain ⟨e, he, hleave⟩ := h'.left u hu' hu''
      exact ⟨e, List.mem_append_right post he, hleave⟩
    · obtain ⟨e, he, hleave⟩ := h.left u hu hu'
      exact ⟨e, List.mem_append_left post' he, hleave⟩
  · intro pre e suf t hsplit hget
    rcases List.append_eq_append_iff.mp hsplit with ⟨mid, rfl, hmid⟩ | ⟨mid, rfl, hmid⟩
    · -- in the second part, where those that left in the first are not in the queue any more
      obtain ⟨ht, hahead⟩ := h'.turn mid e suf t hmid hget
      refine ⟨h.sublist.subset ht, fun u hu => ?_⟩
      by_cases hu' : u ∈ queue'
      · obtain ⟨e', he', hleave⟩ := hahead u (sublist_pair hnodup h.sublist hu hu' ht)
        exact ⟨e', List.mem_append_right post he', hleave⟩
      · obtain ⟨e', he', hleave⟩ := h.left u (hu.subset (by simp)) hu'
        exact ⟨e', List.mem_append_left mid he', hleave⟩
    · cases mid with
      | nil =>
        obtain ⟨ht, hahead⟩ := h'.turn [] e suf t hmid.symm hget
        refine ⟨h.sublist.subset ht, fun u hu => ?_⟩
        by_cases hu' : u ∈ queue'
        · obtain ⟨e', he', -⟩ := hahead u (sublist_pair hnodup h.sublist hu hu' ht)
          exact absurd he' List.not_mem_nil
        · simpa using h.left u (hu.subset (by simp)) hu'
      | cons e' mid =>
        obtain ⟨rfl, rfl⟩ := List.cons.inj hmid
        exact h.turn pre _ mid t rfl hget

theorem inTurn_quiet (h : ∀ e ∈ post, gets e = none) : InTurn leaves gets queue queue post := by
  refine ⟨.refl _, fun u hu hu' => absurd hu hu', ?_⟩
  rintro pre e suf t rfl hget
  rw [h e (by simp)] at hget
  cases hget

theorem inTurn_erase [DecidableEq ι] (h : ∀ e ∈ post, gets e = none) (ht : ∃ e ∈ post, leaves e = some t) :
    InTurn leaves gets queue (queue.erase t) post := by
  have hquiet : InTurn leaves gets queue queue post := inTurn_quiet h
  refine ⟨List.erase_sublist, ?_, hquiet.turn⟩
  intro u hu hu'
  by_cases hut : u = t
  · rw [hut]
    exact ht
  · exact absurd ((List.mem_erase_of_ne hut).mpr hu) hu'

theorem inTurn_head (hnodup : (t :: queue).Nodup) (h : ∀ e ∈ post, ∀ u, gets e = some u → u = t)
    (ht : ∃ e ∈ post, leaves e = some t) : InTurn leaves gets (t :: queue) queue post := by
  refine ⟨List.sublist_cons_self t queue, ?_, ?_⟩
  · intro u hu hu'
    rw [(List.mem_cons.mp hu).resolve_right hu']
    exact ht
  · rintro pre e suf u rfl hget
    obtain rfl := h e (by simp) u hget
    refine ⟨List.mem_cons_self, fun v hv => ?_⟩
    have hu := (List.nodup_cons.mp hnodup).1
    cases hv with
    | cons _ hv => exact absurd (hv.subset (by simp)) hu
    | cons_cons _ hv => exact absurd (hv.subset (by simp)) hu

theorem inTurn_front {got left : List ι} {events : ι → List ε} (hnodup : (got ++ left).Nodup)
    (h : ∀ t ∈ got, ∀ e ∈ events t, ∀ u, gets e = some u → u = t)
    (ht : ∀ t ∈ got, ∃ e ∈ events t, leaves e = some t) :
    InTurn leaves gets (got ++ left) left (got.flatMap events) := by
  induction got with
  | nil => exact inTurn_quiet (by simp)
  | cons t rest ih =>
    have hhead : InTurn leaves gets (t :: (rest ++ left)) (rest ++ left) (events t) :=
      inTurn_head hnodup (h t List.mem_cons_self) (ht t List.mem_cons_self)
    have hrest := ih (List.nodup_cons.mp hnodup).2 (fun u hu => h u (List.mem_cons_of_mem t hu))
      (fun u hu => ht u (List.mem_cons_of_mem t hu))
    exact hhead.trans hnodup hrest

end Leaving

end Turn
