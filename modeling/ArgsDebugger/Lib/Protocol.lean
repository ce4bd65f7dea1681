import ArgsDebugger.Lib.Dialogue
import Mathlib.Data.List.Induction

/-!
# Protocols for interaction programs

A protocol says in each of its states which requests may be issued, and how a request with its
answer moves it. A program obeys the protocol when every request it can come to is allowed,
whatever the answers have been. `Obeys` is given by recursion on the program, with what holds
of its results and of the states it ends in; what a protocol promises about dialogues is then
proved about the protocol alone, from `Legal`.
-/

namespace Lib

open Program

universe u v

/-- The events `front` occur in a row, and no event of the kind `E` behind them. -/
def Program.Since {Req : Type u} {Ans : Req → Type u} (front : List (Event Req Ans))
    (E : Event Req Ans → Prop) (l : List (Event Req Ans)) : Prop :=
  ∃ l₁ l₂, l = l₁ ++ front ++ l₂ ∧ ∀ e ∈ l₂, ¬ E e

section Since

variable {Req : Type u} {Ans : Req → Type u} {front l : List (Event Req Ans)}
  {E : Event Req Ans → Prop} {e : Event Req Ans}

theorem Program.Since.concat (h : Since front E l) (he : ¬ E e) : Since front E (l ++ [e]) := by
  obtain ⟨l₁, l₂, rfl, hl₂⟩ := h
  refine ⟨l₁, l₂ ++ [e], by rw [List.append_assoc _ l₂ [e]], ?_⟩
  intro e' he'
  rcases List.mem_append.mp he' with hmem | hmem
  · exact hl₂ e' hmem
  · rwa [List.mem_singleton.mp hmem]

theorem Program.since_of_suffix (E : Event Req Ans → Prop) (h : front <:+ l) :
    Since front E l := by
  obtain ⟨l₁, rfl⟩ := h
  exact ⟨l₁, [], (List.append_nil _).symm, nofun⟩

end Since

/-- The requests that each state allows, and the state behind a request and its answer. -/
structure Protocol (Req : Type u) (Ans : Req → Type u) (σ : Type v) where
  allows : σ → Req → Prop
  next : σ → (r : Req) → Ans r → σ

namespace Protocol

variable {Req : Type u} {Ans : Req → Type u} {σ : Type v} {α β : Type u}

/-- The state behind a dialogue. -/
def track (P : Protocol Req Ans σ) (c : σ) (l : List (Event Req Ans)) : σ :=
  l.foldl (fun c e ↦ P.next c e.1 e.2) c

/-- Every request of the dialogue is allowed in the state before it. -/
def Legal (P : Protocol Req Ans σ) : σ → List (Event Req Ans) → Prop
  | _, [] => True
  | c, e :: l => P.allows c e.1 ∧ Legal P (P.next c e.1 e.2) l

/-- The program keeps to the protocol, and where it is done, result and state are in `Q`. -/
def Obeys (P : Protocol Req Ans σ) (Q : α → σ → Prop) : Program Req Ans α → σ → Prop
  | .done a, c => Q a c
  | .call r k, c => P.allows c r ∧ ∀ x, Obeys P Q (k x) (P.next c r x)

variable {P : Protocol Req Ans σ} {Q : α → σ → Prop} {p q : Program Req Ans α} {c : σ}
  {l : List (Event Req Ans)}

@[simp] theorem track_nil (c : σ) : P.track c [] = c := rfl

@[simp] theorem track_cons (c : σ) (e : Event Req Ans) (l : List (Event Req Ans)) :
    P.track c (e :: l) = P.track (P.next c e.1 e.2) l := rfl

theorem track_concat (c : σ) (l : List (Event Req Ans)) (e : Event Req Ans) :
    P.track c (l ++ [e]) = P.next (P.track c l) e.1 e.2 := by
  simp only [track, List.foldl_append, List.foldl_cons, List.foldl_nil]

/-- A dialogue with one more event is legal when that event is allowed at its end. -/
theorem legal_concat {e : Event Req Ans} :
    P.Legal c (l ++ [e]) ↔ P.Legal c l ∧ P.allows (P.track c l) e.1 := by
  induction l generalizing c with
  | nil => simp only [List.nil_append, Legal, track_nil, and_true, true_and]
  | cons e' l ih => simp only [List.cons_append, Legal, track_cons, ih, and_assoc]

/-- Induction over legal dialogues, event after event: what holds at the start and is kept by
an allowed event holds behind every legal dialogue. -/
theorem Legal.induction {motive : List (Event Req Ans) → σ → Prop} (h : P.Legal c l)
    (start : motive [] c)
    (step : ∀ l c' e, motive l c' → P.allows c' e.1 → motive (l ++ [e]) (P.next c' e.1 e.2)) :
    motive l (P.track c l) := by
  induction l using List.reverseRecOn with
  | nil => exact start
  | append_singleton l e ih =>
    obtain ⟨hl, he⟩ := legal_concat.mp h
    rw [track_concat]
    exact step l _ e (ih hl) he

/-- A sequence obeys where its parts do, the second from all that the first can leave. -/
theorem Obeys.bind {f : α → Program Req Ans β} {Q' : β → σ → Prop} (h : P.Obeys Q p c)
    (hf : ∀ a c', Q a c' → P.Obeys Q' (f a) c') : P.Obeys Q' (p >>= f) c := by
  change P.Obeys Q' (Program.bind p f) c
  induction p generalizing c with
  | done a => exact hf a c h
  | call r k ih => exact ⟨h.1, fun x ↦ ih x (h.2 x)⟩

/-- What is known of the results and final states may be weakened. -/
theorem Obeys.mono {Q' : α → σ → Prop} (h : P.Obeys Q p c) (hQ : ∀ a c', Q a c' → Q' a c') :
    P.Obeys Q' p c := by
  induction p generalizing c with
  | done a => exact hQ a c h
  | call r k ih => exact ⟨h.1, fun x ↦ ih x (h.2 x)⟩

/-- Every dialogue of a program that obeys is legal, and what is left obeys behind it. -/
theorem Obeys.follows (h : P.Obeys Q p c) (hl : Follows p l q) :
    P.Legal c l ∧ P.Obeys Q q (P.track c l) := by
  induction hl generalizing c with
  | here p => exact ⟨trivial, h⟩
  | answer _ ih =>
    obtain ⟨hlegal, hrest⟩ := ih (h.2 _)
    exact ⟨⟨h.1, hlegal⟩, hrest⟩

/-- The request that a dialogue comes to is allowed there. -/
theorem Obeys.next_allowed (h : P.Obeys Q p c) (hl : Follows p l q) {r : Req}
    (hr : q.next? = some r) : P.allows (P.track c l) r := by
  obtain ⟨-, hq⟩ := h.follows hl
  cases q with
  | done a => cases hr
  | call r' k =>
    cases hr
    exact hq.1

end Protocol

end Lib
