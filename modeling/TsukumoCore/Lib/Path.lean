import Mathlib.Logic.Relation

/-!
# Paths of a labelled transition relation

A path lists the labels of its steps. An invariant is shown for one step and then holds along every
path; a property of a stretch of a path is shown the same way, from where the stretch begins.
-/

namespace Paths

variable {σ α : Type*} {R S : σ → α → σ → Prop}

inductive Path (R : σ → α → σ → Prop) : σ → List α → σ → Prop where
  | nil (s : σ) : Path R s [] s
  | cons {s s' s'' : σ} {a : α} {as : List α} :
      R s a s' → Path R s' as s'' → Path R s (a :: as) s''

namespace Path

theorem single {s s' : σ} {a : α} (h : R s a s') : Path R s [a] s' := .cons h (.nil s')

theorem append {s s' s'' : σ} {as bs : List α} (h : Path R s as s') (h' : Path R s' bs s'') :
    Path R s (as ++ bs) s'' := by
  induction h with
  | nil => exact h'
  | cons hr _ ih => exact .cons hr (ih h')

theorem of_foldlM {f : σ → α → Option σ} {s s' : σ} {as : List α} (h : as.foldlM f s = some s') :
    Path (fun s a s' => f s a = some s') s as s' := by
  induction as generalizing s with
  | nil =>
    obtain rfl : s = s' := by simpa using h
    exact .nil s
  | cons a as ih =>
    simp only [List.foldlM_cons, Option.bind_eq_bind, Option.bind_eq_some_iff] at h
    obtain ⟨s₁, hstep, hrest⟩ := h
    exact .cons hstep (ih hrest)

theorem invariant {I : σ → Prop} (hstep : ∀ s a s', I s → R s a s' → I s') {s s' : σ} {as : List α}
    (h : Path R s as s') (hI : I s) : I s' := by
  induction h with
  | nil => exact hI
  | cons hr _ ih => exact ih (hstep _ _ _ hI hr)

theorem mono (hRS : ∀ s a s', R s a s' → S s a s') {s s' : σ} {as : List α} (h : Path R s as s') :
    Path S s as s' := by
  induction h with
  | nil => exact .nil _
  | cons hr _ ih => exact .cons (hRS _ _ _ hr) ih

/-- A condition on the steps that their labels alone decide. -/
theorem guard {P : σ → α → Prop} {s s' : σ} {as : List α} (h : Path R s as s')
    (hP : ∀ a ∈ as, ∀ s, P s a) : Path (fun s a s' => R s a s' ∧ P s a) s as s' := by
  induction h with
  | nil => exact .nil _
  | cons hr _ ih =>
    exact .cons ⟨hr, hP _ List.mem_cons_self _⟩ (ih fun a ha => hP a (List.mem_cons_of_mem _ ha))

end Path

/-- Reached from a state in `init`. -/
def Reach (init : σ → Prop) (R : σ → α → σ → Prop) (s : σ) : Prop :=
  ∃ s₀ as, init s₀ ∧ Path R s₀ as s

theorem Reach.step {init : σ → Prop} {s s' : σ} {a : α} (h : Reach init R s) (hr : R s a s') :
    Reach init R s' := by
  obtain ⟨s₀, as, h₀, hp⟩ := h
  exact ⟨s₀, as ++ [a], h₀, hp.append (.single hr)⟩

theorem Reach.path {init : σ → Prop} {s s' : σ} {as : List α} (h : Reach init R s)
    (hp : Path R s as s') : Reach init R s' := by
  obtain ⟨s₀, bs, h₀, hp₀⟩ := h
  exact ⟨s₀, bs ++ as, h₀, hp₀.append hp⟩

theorem Reach.mono {init : σ → Prop} {s : σ} (hRS : ∀ s a s', R s a s' → S s a s') (h : Reach init R s) :
    Reach init S s := by
  obtain ⟨s₀, as, h₀, hp⟩ := h
  exact ⟨s₀, as, h₀, hp.mono hRS⟩

theorem Reach.invariant {init : σ → Prop} {I : σ → Prop} (hinit : ∀ s, init s → I s)
    (hstep : ∀ s a s', I s → R s a s' → I s') {s : σ} (h : Reach init R s) : I s := by
  obtain ⟨s₀, as, h₀, hp⟩ := h
  exact hp.invariant hstep (hinit _ h₀)

/-- Every step of a run is matched by a stretch of a run of another system, which may be empty. -/
theorem Reach.simulation {τ β : Type*} {init : σ → Prop} {init' : τ → Prop} {R' : τ → β → τ → Prop}
    {Q : σ → τ → Prop} (hinit : ∀ s, init s → ∃ k, init' k ∧ Q s k)
    (hstep : ∀ s a s' k, Reach init R s → Reach init' R' k → Q s k → R s a s' → ∃ bs k', Path R' k bs k' ∧ Q s' k')
    {s : σ} (h : Reach init R s) : ∃ k, Reach init' R' k ∧ Q s k := by
  have hboth := h.invariant (I := fun s => Reach init R s ∧ ∃ k, Reach init' R' k ∧ Q s k) ?_ ?_
  · exact hboth.2
  · intro s hs
    obtain ⟨k, hk, hQ⟩ := hinit s hs
    exact ⟨⟨s, [], hs, .nil s⟩, k, ⟨k, [], hk, .nil k⟩, hQ⟩
  · rintro s a s' ⟨hs, k, hk, hQ⟩ hr
    obtain ⟨bs, k', hpath, hQ'⟩ := hstep s a s' k hs hk hQ hr
    exact ⟨hs.step hr, k', hk.path hpath, hQ'⟩

end Paths
