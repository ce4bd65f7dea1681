import Mathlib.Data.List.Basic
import Mathlib.Data.Set.Defs
import Mathlib.Logic.Function.Iterate

/-!
# Fuelled loops

A `while (true)` loop is a body `σ → ρ ⊕ σ`: `inl` leaves the loop with a result and
`inr` starts the next iteration. `run` executes it on a budget of iterations; a loop
ends when some budget is enough. The rules below reason about the budget once:
results do not depend on it, and an ending loop is left by an induction over its
iterations. A loop that only advances an index is left at the first index that stops it, and
comes to no others than those before it. What an iteration records is collected over any number
of them.
-/

namespace Lib.Loop

universe u v

variable {σ : Type u} {ρ : Type v}

/-- Run at most `fuel` iterations; `none` when the budget is used up inside the loop. -/
def run (body : σ → ρ ⊕ σ) : Nat → σ → Option ρ
  | 0, _ => none
  | fuel + 1, s =>
    match body s with
    | .inl r => some r
    | .inr s' => run body fuel s'

/-- The loop started at `s` leaves with the result `r`. -/
def Ends (body : σ → ρ ⊕ σ) (s : σ) (r : ρ) : Prop := ∃ fuel, run body fuel s = some r

/-- The loop started at `s` is left after finitely many iterations. -/
def Halts (body : σ → ρ ⊕ σ) (s : σ) : Prop := ∃ r, Ends body s r

variable {body : σ → ρ ⊕ σ} {s s' : σ} {r r' : ρ}

/-- An iteration that leaves the loop returns its result on any positive budget. -/
theorem run_succ_inl (h : body s = .inl r) (fuel : Nat) : run body (fuel + 1) s = some r := by
  simp only [run, h]

/-- An iteration that continues passes the rest of the budget on. -/
theorem run_succ_inr (h : body s = .inr s') (fuel : Nat) :
    run body (fuel + 1) s = run body fuel s' := by
  simp only [run, h]

/-- A result found within a budget is found within every larger one. -/
theorem run_mono {fuel fuel' : Nat} (hle : fuel ≤ fuel') (h : run body fuel s = some r) :
    run body fuel' s = some r := by
  induction fuel generalizing s fuel' with
  | zero => cases h
  | succ fuel ih =>
    obtain ⟨k, rfl⟩ : ∃ k, fuel' = k + 1 := ⟨fuel' - 1, by omega⟩
    cases hb : body s with
    | inl r' => rw [run_succ_inl hb] at h ⊢; exact h
    | inr s' =>
      rw [run_succ_inr hb] at h ⊢
      exact ih (by omega) h

/-- The result of a loop does not depend on the budget. -/
theorem ends_unique (h : Ends body s r) (h' : Ends body s r') : r = r' := by
  obtain ⟨n, hn⟩ := h
  obtain ⟨m, hm⟩ := h'
  have hl := run_mono (Nat.le_max_left n m) hn
  have hr := run_mono (Nat.le_max_right n m) hm
  exact Option.some.inj (hl.symm.trans hr)

/-- A loop whose body leaves at once ends with that result only. -/
theorem ends_inl (h : body s = .inl r) : Ends body s r' ↔ r' = r := by
  constructor
  · intro he
    exact ends_unique he ⟨1, run_succ_inl h 0⟩
  · rintro rfl
    exact ⟨1, run_succ_inl h 0⟩

/-- A loop whose body continues ends as the loop started at the next state. -/
theorem ends_inr (h : body s = .inr s') : Ends body s r ↔ Ends body s' r := by
  constructor
  · rintro ⟨fuel, hf⟩
    cases fuel with
    | zero => cases hf
    | succ fuel => exact ⟨fuel, by rwa [run_succ_inr h] at hf⟩
  · rintro ⟨fuel, hf⟩
    exact ⟨fuel + 1, by rwa [run_succ_inr h]⟩

/-- Halting is inherited backwards along an iteration. -/
theorem halts_inr (h : body s = .inr s') : Halts body s ↔ Halts body s' :=
  exists_congr fun _ ↦ ends_inr h

/-- Induction over an ending loop: prove the motive where the loop is left and
carry it back over each iteration. -/
theorem ends_induction {motive : σ → Prop} (h : Ends body s r)
    (leave : ∀ s, body s = .inl r → motive s)
    (next : ∀ s s', body s = .inr s' → Ends body s' r → motive s' → motive s) : motive s := by
  obtain ⟨fuel, hf⟩ := h
  induction fuel generalizing s with
  | zero => cases hf
  | succ fuel ih =>
    cases hb : body s with
    | inl r' =>
      rw [run_succ_inl hb] at hf
      cases hf
      exact leave s hb
    | inr s' =>
      rw [run_succ_inr hb] at hf
      exact next s s' hb ⟨fuel, hf⟩ (ih hf)

/-- Two loops in lockstep: while their bodies keep a relation of the states and leave together
with related results, they do the same on every budget. -/
theorem run_rel {τ : Type u} {ρ' : Type v} {body' : τ → ρ' ⊕ τ} {R : σ → τ → Prop}
    {Q : ρ → ρ' → Prop} (h : ∀ s t, R s t → Sum.LiftRel Q R (body s) (body' t)) {t : τ}
    (hst : R s t) (fuel : Nat) : Option.Rel Q (run body fuel s) (run body' fuel t) := by
  induction fuel generalizing s t with
  | zero => exact .none
  | succ fuel ih =>
    have hbody := h s t hst
    cases hs : body s with
    | inl r =>
      rw [hs] at hbody
      cases ht : body' t with
      | inl r' =>
        rw [ht] at hbody
        rw [run_succ_inl hs, run_succ_inl ht]
        exact .some (Sum.liftRel_inl_inl.mp hbody)
      | inr t' =>
        rw [ht] at hbody
        cases hbody
    | inr s' =>
      rw [hs] at hbody
      cases ht : body' t with
      | inl r' =>
        rw [ht] at hbody
        cases hbody
      | inr t' =>
        rw [ht] at hbody
        rw [run_succ_inr hs, run_succ_inr ht]
        exact ih (Sum.liftRel_inr_inr.mp hbody)

section Traced

universe w

variable {α : Type w}

/-- What the first iterations of a loop record, each of them some list. -/
def trace (body : σ → List α × (ρ ⊕ σ)) : Nat → σ → List α
  | 0, _ => []
  | n + 1, s =>
    match body s with
    | (records, .inl _) => records
    | (records, .inr s') => records ++ trace body n s'

/-- A loop that is left at once records what its first iteration does. -/
theorem trace_inl {body : σ → List α × (ρ ⊕ σ)} (h : (body s).2 = .inl r) (n : Nat) :
    trace body (n + 1) s = (body s).1 := by
  rw [trace]
  split
  · next records r' hb => rw [hb]
  · next records s' hb =>
    rw [hb] at h
    cases h

/-- What the first iteration records is recorded. -/
theorem mem_trace_succ {body : σ → List α × (ρ ⊕ σ)} {a : α} (h : a ∈ (body s).1) (n : Nat) :
    a ∈ trace body (n + 1) s := by
  rw [trace]
  split
  · next records r' hb => rwa [hb] at h
  · next records s' hb =>
    rw [hb] at h
    exact List.mem_append_left _ h

end Traced

section Indexed

universe w

variable {ι : Type w} {stop : ι → Bool} {next : ι → ι}

/-- A loop that is left depending on an index of its state, and advances it otherwise, halts
exactly when the index reaches one that stops it. -/
theorem halts_iff_exists_iterate (index : σ → ι) (stop : ι → Bool)
    (hstop : ∀ s, stop (index s) = true ↔ ∃ r, body s = .inl r)
    (hnext : ∀ s s', body s = .inr s' → index s' = next (index s)) :
    Halts body s ↔ ∃ k, stop (next^[k] (index s)) = true := by
  constructor
  · rintro ⟨r, h⟩
    refine ends_induction (motive := fun s ↦ ∃ k, stop (next^[k] (index s)) = true) h ?_ ?_
    · intro s hb
      exact ⟨0, (hstop s).mpr ⟨r, hb⟩⟩
    · intro s s' hb _ ih
      obtain ⟨k, hk⟩ := ih
      rw [hnext s s' hb] at hk
      exact ⟨k + 1, hk⟩
  · rintro ⟨k, hk⟩
    induction k generalizing s with
    | zero =>
      obtain ⟨r, hb⟩ := (hstop s).mp hk
      exact ⟨r, (ends_inl hb).mpr rfl⟩
    | succ k ih =>
      cases hb : body s with
      | inl r => exact ⟨r, (ends_inl hb).mpr rfl⟩
      | inr s' =>
        rw [Function.iterate_succ_apply, ← hnext s s' hb] at hk
        exact (halts_inr hb).mpr (ih hk)

/-- The indices that such a loop comes to: those up to the first that stops it. -/
def indices (stop : ι → Bool) (next : ι → ι) (i : ι) : Set ι :=
  {x | ∃ k, x = next^[k] i ∧ ∀ j < k, stop (next^[j] i) = false}

theorem mem_indices_self (i : ι) : i ∈ indices stop next i :=
  ⟨0, rfl, fun j hj ↦ absurd hj (Nat.not_lt_zero j)⟩

theorem indices_next {i : ι} (hi : stop i = false) :
    indices stop next (next i) ⊆ indices stop next i := by
  rintro x ⟨k, rfl, hbefore⟩
  refine ⟨k + 1, rfl, ?_⟩
  intro j hj
  cases j with
  | zero => exact hi
  | succ j => exact hbefore j (by omega)

/-- Two such loops that do the same at the indices they come to are the same. -/
theorem run_congr_indices {body' : σ → ρ ⊕ σ} (index : σ → ι) (stop : ι → Bool) (next : ι → ι)
    (hnext : ∀ s s', body s = .inr s' → stop (index s) = false ∧ index s' = next (index s))
    (h : ∀ s', index s' ∈ indices stop next (index s) → body' s' = body s') (fuel : ℕ) :
    run body' fuel s = run body fuel s := by
  induction fuel generalizing s with
  | zero => rfl
  | succ fuel ih =>
    have hs := h s (mem_indices_self _)
    cases hb : body s with
    | inl r => rw [run_succ_inl hb, run_succ_inl (hs.trans hb)]
    | inr s' =>
      obtain ⟨hstop, hindex⟩ := hnext s s' hb
      rw [run_succ_inr hb, run_succ_inr (hs.trans hb)]
      refine ih fun s'' hs'' ↦ h s'' (indices_next hstop ?_)
      rwa [hindex] at hs''

variable {α : Type v} {f : ι → α}

/-- The body of a loop that collects a value of each index up to one that stops it. -/
def collect (stop : ι → Bool) (next : ι → ι) (f : ι → α) (s : ι × List α) :
    List α ⊕ (ι × List α) :=
  if stop s.1 then .inl s.2 else .inr (next s.1, s.2 ++ [f s.1])

/-- A collecting loop depends on the indices that it comes to. -/
theorem run_collect_congr {stop' : ι → Bool} {f' : ι → α} {i : ι} {values : List α}
    (h : ∀ x ∈ indices stop next i, stop' x = stop x ∧ f' x = f x) (fuel : ℕ) :
    run (collect stop' next f') fuel (i, values) = run (collect stop next f) fuel (i, values) := by
  apply run_congr_indices Prod.fst stop next
  · intro s s' hb
    unfold collect at hb
    split at hb
    · cases hb
    · next hstop =>
      cases hb
      exact ⟨by simpa using hstop, rfl⟩
  · intro s hs
    obtain ⟨hstop, hf⟩ := h s.1 hs
    rw [collect, collect, hstop, hf]

/-- A collecting loop ends with the values of the indices before the first that stops it. -/
theorem ends_collect {i : ι} {values result : List α} :
    Ends (collect stop next f) (i, values) result ↔
      ∃ k, stop (next^[k] i) = true ∧ (∀ j < k, stop (next^[j] i) = false) ∧
        result = values ++ (List.range k).map fun j ↦ f (next^[j] i) := by
  constructor
  · intro h
    refine ends_induction (motive := fun s ↦ ∃ k, stop (next^[k] s.1) = true ∧
      (∀ j < k, stop (next^[j] s.1) = false) ∧
        result = s.2 ++ (List.range k).map fun j ↦ f (next^[j] s.1)) h ?_ ?_
    · intro s hb
      unfold collect at hb
      split at hb
      · next hs =>
        cases hb
        exact ⟨0, hs, by simp, by simp⟩
      · cases hb
    · intro s s' hb _ ih
      unfold collect at hb
      split at hb
      · cases hb
      · next hs =>
        cases hb
        obtain ⟨k, hk, hbefore, hr⟩ := ih
        refine ⟨k + 1, hk, ?_, ?_⟩
        · intro j hj
          cases j with
          | zero => simpa using hs
          | succ j => exact hbefore j (by omega)
        · rw [hr, List.range_succ_eq_map, List.map_cons, List.map_map, List.append_assoc]
          rfl
  · rintro ⟨k, hk, hbefore, rfl⟩
    induction k generalizing i values with
    | zero =>
      have hb : collect stop next f (i, values) = .inl values := if_pos hk
      rw [ends_inl hb]
      exact List.append_nil values
    | succ k ih =>
      have hi : ¬ stop i = true := by simpa using hbefore 0 (by omega)
      have hb : collect stop next f (i, values) = .inr (next i, values ++ [f i]) := if_neg hi
      rw [ends_inr hb, List.range_succ_eq_map, List.map_cons, List.map_map]
      have hsplit := List.append_cons values (f i)
        ((List.range k).map fun j ↦ f (next^[j] (next i)))
      exact hsplit ▸ ih hk fun j hj ↦ hbefore (j + 1) (by omega)

/-- A collecting loop is left at the first index that stops it. -/
theorem ends_collect_of_first {i : ι} {values result : List α} {k : ℕ}
    (hk : stop (next^[k] i) = true) (hbefore : ∀ j < k, stop (next^[j] i) = false) :
    Ends (collect stop next f) (i, values) result ↔
      result = values ++ (List.range k).map fun j ↦ f (next^[j] i) := by
  have hfirst : Ends (collect stop next f) (i, values)
      (values ++ (List.range k).map fun j ↦ f (next^[j] i)) :=
    ends_collect.mpr ⟨k, hk, hbefore, rfl⟩
  constructor
  · intro h
    exact ends_unique h hfirst
  · rintro rfl
    exact hfirst

/-- A collecting loop halts exactly when its index reaches one that stops it. -/
theorem halts_collect {i : ι} {values : List α} :
    Halts (collect stop next f) (i, values) ↔ ∃ k, stop (next^[k] i) = true := by
  refine halts_iff_exists_iterate Prod.fst stop ?_ ?_
  · intro s
    unfold collect
    split <;> simp [*]
  · intro s s' hb
    unfold collect at hb
    split at hb
    · cases hb
    · cases hb
      rfl

end Indexed

end Lib.Loop
