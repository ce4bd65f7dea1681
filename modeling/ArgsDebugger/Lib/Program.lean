import Mathlib.Control.Monad.Basic

/-!
# Interaction programs

A program over a signature of requests either is done or issues one request and continues
with its answer. Answers are left open: a handler gives them a meaning over a state, and
may refuse a request, which ends the run without a result. The rules here carry `bind`
through a run.
-/

namespace Lib

universe u

/-- Programs with results in `α` whose request `r` is answered by an `Ans r`. -/
inductive Program (Req : Type u) (Ans : Req → Type u) (α : Type u) where
  | done (a : α)
  | call (r : Req) (k : Ans r → Program Req Ans α)

namespace Program

variable {Req : Type u} {Ans : Req → Type u} {α β γ σ : Type u}

/-- Continue with `f` where the first program is done. -/
def bind : Program Req Ans α → (α → Program Req Ans β) → Program Req Ans β
  | .done a, f => f a
  | .call r k, f => .call r fun x ↦ bind (k x) f

instance : Monad (Program Req Ans) where
  pure := .done
  bind := bind

/-- Sequences can be regrouped. -/
theorem bind_assoc (p : Program Req Ans α) (f : α → Program Req Ans β)
    (g : β → Program Req Ans γ) : p >>= f >>= g = p >>= fun a ↦ f a >>= g := by
  change bind (bind p f) g = bind p fun a ↦ bind (f a) g
  induction p with
  | done a => rfl
  | call r k ih =>
    simp only [bind]
    congr 1
    funext x
    exact ih x

/-- Run a program on a handler of single requests. -/
def run (handle : (r : Req) → σ → Option (Ans r × σ)) : Program Req Ans α → σ → Option (α × σ)
  | .done a, s => some (a, s)
  | .call r k, s =>
    match handle r s with
    | none => none
    | some (x, s') => run handle (k x) s'

/-- The requests that a program issues on a handler, with the one that is refused. -/
def requests (handle : (r : Req) → σ → Option (Ans r × σ)) : Program Req Ans α → σ → List Req
  | .done _, _ => []
  | .call r k, s =>
    r :: match handle r s with
      | none => []
      | some (x, s') => requests handle (k x) s'

/-- The requests that a program issues on a handler, each with the state it is made in. -/
def visits (handle : (r : Req) → σ → Option (Ans r × σ)) :
    Program Req Ans α → σ → List (Req × σ)
  | .done _, _ => []
  | .call r k, s =>
    (r, s) :: match handle r s with
      | none => []
      | some (x, s') => visits handle (k x) s'

variable {handle : (r : Req) → σ → Option (Ans r × σ)}

@[simp] theorem run_pure (a : α) (s : σ) :
    run handle (pure a : Program Req Ans α) s = some (a, s) := rfl

/-- Running a sequence runs the first program, then the second on its result and state. -/
theorem run_bind (p : Program Req Ans α) (f : α → Program Req Ans β) (s : σ) :
    run handle (p >>= f) s = (run handle p s).bind fun r ↦ run handle (f r.1) r.2 := by
  change run handle (bind p f) s = _
  induction p generalizing s with
  | done a => rfl
  | call r k ih =>
    simp only [bind, run]
    cases handle r s with
    | none => rfl
    | some x => exact ih x.1 x.2

/-- A sequence whose first program is known to finish continues from there. -/
theorem run_bind_of_run {p : Program Req Ans α} {f : α → Program Req Ans β} {s s' : σ} {a : α}
    (h : run handle p s = some (a, s')) :
    run handle (p >>= f) s = run handle (f a) s' := by
  rw [run_bind, h]
  rfl

/-- A sequence issues the requests of its first program, then those of the second. -/
theorem requests_bind (p : Program Req Ans α) (f : α → Program Req Ans β) (s : σ) :
    requests handle (p >>= f) s = requests handle p s ++
      ((run handle p s).elim [] fun r ↦ requests handle (f r.1) r.2) := by
  change requests handle (bind p f) s = _
  induction p generalizing s with
  | done a => rfl
  | call r k ih =>
    simp only [bind, requests, run, List.cons_append]
    cases handle r s with
    | none => rfl
    | some x => simp only [ih x.1 x.2]

/-- A sequence whose first program is known to finish goes on with the requests of the second. -/
theorem requests_bind_of_run {p : Program Req Ans α} {f : α → Program Req Ans β} {s s' : σ}
    {a : α} (h : run handle p s = some (a, s')) :
    requests handle (p >>= f) s = requests handle p s ++ requests handle (f a) s' := by
  rw [requests_bind, h]
  rfl

/-- A sequence whose first program is known to finish visits the states of the second behind
those of the first. -/
theorem visits_bind_of_run {p : Program Req Ans α} {f : α → Program Req Ans β} {s s' : σ}
    {a : α} (h : run handle p s = some (a, s')) :
    visits handle (p >>= f) s = visits handle p s ++ visits handle (f a) s' := by
  change visits handle (bind p f) s = _
  induction p generalizing s with
  | done b =>
    cases h
    rfl
  | call r k ih =>
    simp only [bind, visits, run, List.cons_append] at h ⊢
    cases hr : handle r s with
    | none =>
      rw [hr] at h
      cases h
    | some x =>
      rw [hr] at h
      simp only [ih x.1 h]

end Program

end Lib
