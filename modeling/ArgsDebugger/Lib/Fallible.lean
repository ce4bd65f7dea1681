import Mathlib.Data.List.Forall2

/-!
# Computations that may fail

When a sequence, a map or a fold in `Except` has a result. A fold stops at the first step that
raises: what every successful step keeps, a successful fold keeps; a fold that succeeds has
taken every step in some state; and where a step's success does not depend on the state, the
fold succeeds exactly when each of its steps would.
-/

namespace Lib

universe u v w

section Except

variable {ε : Type u} {α β : Type v}

theorem isOk_iff_exists {x : Except ε α} : x.isOk = true ↔ ∃ a, x = .ok a := by
  cases x with
  | error e => simp [Except.isOk, Except.toBool]
  | ok a => simp [Except.isOk, Except.toBool]

theorem isOk_map {x : Except ε α} (g : α → β) : (x.map g).isOk = x.isOk := by
  cases x <;> rfl

theorem ok_bind (a : α) (g : α → Except ε β) : ((.ok a : Except ε α) >>= g) = g a := rfl

/-- A computation in two steps has a result when both steps have. -/
theorem bind_eq_ok {x : Except ε α} {g : α → Except ε β} {b : β} :
    (x >>= g) = .ok b ↔ ∃ a, x = .ok a ∧ g a = .ok b := by
  cases x with
  | error e =>
    constructor
    · intro h
      cases h
    · rintro ⟨a, h, -⟩
      cases h
  | ok a =>
    constructor
    · intro h
      exact ⟨a, rfl, h⟩
    · rintro ⟨a', h, hg⟩
      cases h
      exact hg

/-- Computations that go on alike from every result are the same. -/
theorem bind_congr_ok {x : Except ε α} {g g' : α → Except ε β} (h : ∀ a, x = .ok a → g a = g' a) :
    (x >>= g) = (x >>= g') := by
  cases x with
  | error e => exact (rfl : (Except.error e : Except ε β) = .error e)
  | ok a => exact h a rfl

theorem map_eq_ok {x : Except ε α} {k : α → β} {b : β} :
    x.map k = .ok b ↔ ∃ a, x = .ok a ∧ k a = b := by
  cases x <;> simp [Except.map]

/-- A computation that ends by putting its result into something. -/
theorem bind_pure_eq_map (x : Except ε α) (k : α → β) : (x >>= fun a ↦ pure (k a)) = x.map k := by
  cases x <;> rfl

/-- A computation for each element of a list has a result when each of them has one. -/
theorem mapM_eq_ok_iff {f : α → Except ε β} {l : List α} {results : List β} :
    l.mapM f = .ok results ↔ List.Forall₂ (fun x y ↦ f x = .ok y) l results := by
  induction l generalizing results with
  | nil =>
    rw [List.mapM_nil, List.forall₂_nil_left_iff]
    constructor
    · intro h
      cases h
      rfl
    · rintro rfl
      rfl
  | cons x l ih =>
    rw [List.mapM_cons, bind_eq_ok, List.forall₂_cons_left_iff]
    constructor
    · rintro ⟨y, hy, h⟩
      obtain ⟨ys, hys, h⟩ := bind_eq_ok.mp h
      cases h
      exact ⟨y, ys, hy, ih.mp hys, rfl⟩
    · rintro ⟨y, ys, hy, hys, rfl⟩
      exact ⟨y, hy, bind_eq_ok.mpr ⟨ys, ih.mpr hys, rfl⟩⟩

/-- Computations that are the same for each element are the same for the list. -/
theorem mapM_congr {f g : α → Except ε β} {l : List α} (h : ∀ x ∈ l, f x = g x) :
    l.mapM f = l.mapM g := by
  induction l with
  | nil => rfl
  | cons x l ih =>
    rw [List.mapM_cons, List.mapM_cons, h x List.mem_cons_self,
      ih fun y hy ↦ h y (List.mem_cons_of_mem x hy)]

end Except

/-- Two computations raise the same, or have related results. -/
inductive Agree {ε : Type u} {α β : Type v} (R : α → β → Prop) :
    Except ε α → Except ε β → Prop
  | ok {a : α} {b : β} (h : R a b) : Agree R (.ok a) (.ok b)
  | error (e : ε) : Agree R (.error e) (.error e)

namespace Agree

variable {ε : Type u} {α β γ δ : Type v} {R : α → β → Prop} {S : γ → δ → Prop}
  {x : Except ε α} {y : Except ε β}

theorem refl (x : Except ε α) : Agree Eq x x := by
  cases x with
  | error e => exact .error e
  | ok a => exact .ok rfl

/-- Computations with equal results are equal. -/
theorem eq {y : Except ε α} (h : Agree Eq x y) : x = y := by
  cases h with
  | ok h => rw [h]
  | error e => rfl

/-- Sequences agree when what follows related results agrees. -/
theorem bind (h : Agree R x y) {f : α → Except ε γ} {g : β → Except ε δ}
    (hfg : ∀ a b, R a b → Agree S (f a) (g b)) : Agree S (x >>= f) (y >>= g) := by
  cases h with
  | ok h => exact hfg _ _ h
  | error e => exact .error e

/-- Computations for the elements of related lists have related lists of results. -/
theorem mapM {l : List α} {m : List β} {f : α → Except ε γ} {g : β → Except ε δ}
    (h : List.Forall₂ (fun a b ↦ Agree S (f a) (g b)) l m) :
    Agree (List.Forall₂ S) (l.mapM f) (m.mapM g) := by
  induction h with
  | nil =>
    rw [List.mapM_nil, List.mapM_nil]
    exact .ok .nil
  | cons hab _ ih =>
    rw [List.mapM_cons, List.mapM_cons]
    exact hab.bind fun _ _ hS ↦ ih.bind fun _ _ hall ↦ .ok (.cons hS hall)

end Agree

section Fold

variable {ε : Type u} {α : Type v} {σ : Type w} {f : σ → α → Except ε σ} {l : List α} {s t : σ}

/-- The first step of a fold that succeeds has succeeded. -/
theorem foldlM_cons_eq_ok {a : α} (h : (a :: l).foldlM f s = .ok t) :
    ∃ s', f s a = .ok s' ∧ l.foldlM f s' = .ok t := by
  rw [List.foldlM_cons] at h
  exact bind_eq_ok.mp h

/-- What every successful step keeps, a successful fold keeps. -/
theorem foldlM_invariant (inv : σ → Prop)
    (keep : ∀ a ∈ l, ∀ s t, inv s → f s a = .ok t → inv t) (hs : inv s)
    (h : l.foldlM f s = .ok t) : inv t := by
  induction l generalizing s with
  | nil =>
    cases h
    exact hs
  | cons a l ih =>
    obtain ⟨s', hstep, hrest⟩ := foldlM_cons_eq_ok h
    exact ih (fun b hb ↦ keep b (List.mem_cons_of_mem a hb))
      (keep a List.mem_cons_self s s' hs hstep) hrest

/-- What every successful step does to an image of the state, a successful fold does. -/
theorem foldlM_map {τ : Type w} (k : σ → τ) {g : τ → α → τ}
    (step : ∀ s a t, f s a = .ok t → k t = g (k s) a) (h : l.foldlM f s = .ok t) :
    k t = l.foldl g (k s) := by
  induction l generalizing s with
  | nil =>
    cases h
    rfl
  | cons a l ih =>
    obtain ⟨s', hstep, hrest⟩ := foldlM_cons_eq_ok h
    rw [ih hrest, step s a s' hstep, List.foldl_cons]

/-- A relation that every two successful steps at one element keep is kept by two folds. -/
theorem foldlM_rel (R : σ → σ → Prop) {s' t' : σ}
    (keep : ∀ a s s' t t', R s s' → f s a = .ok t → f s' a = .ok t' → R t t') (hs : R s s')
    (h : l.foldlM f s = .ok t) (h' : l.foldlM f s' = .ok t') : R t t' := by
  induction l generalizing s s' with
  | nil =>
    cases h
    cases h'
    exact hs
  | cons a l ih =>
    obtain ⟨s₁, hstep, hrest⟩ := foldlM_cons_eq_ok h
    obtain ⟨s₁', hstep', hrest'⟩ := foldlM_cons_eq_ok h'
    exact ih (keep a s s' s₁ s₁' hs hstep hstep') hrest hrest'

/-- If the steps at one of the elements make it hold, it holds behind two folds. -/
theorem foldlM_rel_of_mem (R : σ → σ → Prop) {s' t' : σ} {a : α}
    (keep : ∀ a s s' t t', R s s' → f s a = .ok t → f s' a = .ok t' → R t t')
    (set : ∀ s s' t t', f s a = .ok t → f s' a = .ok t' → R t t') (ha : a ∈ l)
    (h : l.foldlM f s = .ok t) (h' : l.foldlM f s' = .ok t') : R t t' := by
  induction l generalizing s s' with
  | nil => cases ha
  | cons b l ih =>
    obtain ⟨s₁, hstep, hrest⟩ := foldlM_cons_eq_ok h
    obtain ⟨s₁', hstep', hrest'⟩ := foldlM_cons_eq_ok h'
    rcases List.mem_cons.mp ha with rfl | ha
    · exact foldlM_rel R keep (set s s' s₁ s₁' hstep hstep') hrest hrest'
    · exact ih ha hrest hrest'

/-- A fold that succeeds has taken every step, in some state. -/
theorem exists_of_foldlM (h : l.foldlM f s = .ok t) : ∀ a ∈ l, ∃ s₁ s₂, f s₁ a = .ok s₂ := by
  induction l generalizing s with
  | nil => exact fun _ ha ↦ absurd ha List.not_mem_nil
  | cons b l ih =>
    obtain ⟨s', hstep, hrest⟩ := foldlM_cons_eq_ok h
    intro a ha
    rcases List.mem_cons.mp ha with rfl | ha
    · exact ⟨s, s', hstep⟩
    · exact ih hrest a ha

/-- Where success does not depend on the state, the fold succeeds when every step does. -/
theorem foldlM_isOk_iff {p : α → Prop} (hp : ∀ s a, (f s a).isOk = true ↔ p a) :
    (l.foldlM f s).isOk = true ↔ ∀ a ∈ l, p a := by
  constructor
  · intro h a ha
    obtain ⟨t, ht⟩ := isOk_iff_exists.mp h
    obtain ⟨s₁, s₂, hstep⟩ := exists_of_foldlM ht a ha
    exact (hp s₁ a).mp (isOk_iff_exists.mpr ⟨s₂, hstep⟩)
  · intro h
    induction l generalizing s with
    | nil => rfl
    | cons a l ih =>
      obtain ⟨s', hs'⟩ := isOk_iff_exists.mp ((hp s a).mpr (h a List.mem_cons_self))
      rw [List.foldlM_cons, hs']
      exact ih fun b hb ↦ h b (List.mem_cons_of_mem a hb)

end Fold

end Lib
