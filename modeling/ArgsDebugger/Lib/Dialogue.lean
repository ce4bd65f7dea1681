import ArgsDebugger.Lib.Program

/-!
# Dialogues of interaction programs

A dialogue is what a program has asked so far and what it was told, with nothing assumed about
the answers. `Follows p l q` says that the dialogue `l` turns `p` into `q`. Two properties of
all dialogues are given by recursion on the program, with rules for sequences: every request
is of a kind, and after every event of a kind the program goes on in some way.
-/

namespace Lib.Program

universe u

variable {Req : Type u} {Ans : Req → Type u} {α β : Type u}

/-- A request with its answer. -/
abbrev Event (Req : Type u) (Ans : Req → Type u) := (r : Req) × Ans r

/-- After these requests and answers the first program has become the second. -/
inductive Follows : Program Req Ans α → List (Event Req Ans) → Program Req Ans α → Prop
  | here (p : Program Req Ans α) : Follows p [] p
  | answer {r : Req} {k : Ans r → Program Req Ans α} {x : Ans r} {l : List (Event Req Ans)}
      {q : Program Req Ans α} (h : Follows (k x) l q) : Follows (.call r k) (⟨r, x⟩ :: l) q

/-- The request that the program waits for an answer to, if it is not done. -/
def next? : Program Req Ans α → Option Req
  | .done _ => none
  | .call r _ => some r

/-- Every request the program can come to satisfies `P`. -/
def AllRequests (P : Req → Prop) : Program Req Ans α → Prop
  | .done _ => True
  | .call r k => P r ∧ ∀ x, AllRequests P (k x)

/-- After every event that satisfies `E`, the program that is left satisfies `P`. -/
def AllAfter (E : Event Req Ans → Prop) (P : Program Req Ans α → Prop) :
    Program Req Ans α → Prop
  | .done _ => True
  | .call r k => ∀ x, (E ⟨r, x⟩ → P (k x)) ∧ AllAfter E P (k x)

variable {p q : Program Req Ans α} {f : α → Program Req Ans β} {P : Req → Prop}
  {l l' : List (Event Req Ans)}

theorem Follows.eq_of_nil (h : Follows p [] q) : q = p := by
  cases h
  rfl

/-- A dialogue begins with the program's first request. -/
theorem Follows.exists_call {e : Event Req Ans} (h : Follows p (e :: l) q) :
    ∃ k, p = .call e.1 k ∧ Follows (k e.2) l q := by
  cases h with
  | answer h => exact ⟨_, rfl, h⟩

/-- A dialogue can be cut at any point. -/
theorem Follows.split (h : Follows p (l ++ l') q) : ∃ p', Follows p l p' ∧ Follows p' l' q := by
  induction l generalizing p with
  | nil => exact ⟨p, .here p, h⟩
  | cons e l ih =>
    obtain ⟨k, rfl, hrest⟩ := h.exists_call
    obtain ⟨p', hfirst, hlast⟩ := ih hrest
    exact ⟨p', .answer hfirst, hlast⟩

@[simp] theorem allRequests_pure (a : α) : (pure a : Program Req Ans α).AllRequests P := trivial

theorem allRequests_bind (hp : p.AllRequests P) (hf : ∀ a, (f a).AllRequests P) :
    (p >>= f).AllRequests P := by
  change (bind p f).AllRequests P
  induction p with
  | done a => exact hf a
  | call r k ih => exact ⟨hp.1, fun x ↦ ih x (hp.2 x)⟩

theorem AllRequests.mono {Q : Req → Prop} (h : p.AllRequests P) (hPQ : ∀ r, P r → Q r) :
    p.AllRequests Q := by
  induction p with
  | done a => trivial
  | call r k ih => exact ⟨hPQ r h.1, fun x ↦ ih x (h.2 x)⟩

/-- In every dialogue the next request is of the kind. -/
theorem AllRequests.next (h : p.AllRequests P) (hl : Follows p l q) {r : Req}
    (hr : q.next? = some r) : P r := by
  induction hl with
  | here p =>
    cases p with
    | done a => cases hr
    | call r' k =>
      cases hr
      exact h.1
  | answer _ ih => exact ih (h.2 _) hr

/-- After an event of the kind at the end of a dialogue, the rest of the program is as said. -/
theorem AllAfter.next {E : Event Req Ans → Prop} {C : Program Req Ans α → Prop}
    (h : p.AllAfter E C) {e : Event Req Ans} (hl : Follows p (l ++ [e]) q) (he : E e) : C q := by
  induction l generalizing p with
  | nil =>
    obtain ⟨k, rfl, hrest⟩ := hl.exists_call
    rw [hrest.eq_of_nil]
    exact (h e.2).1 he
  | cons e' l ih =>
    obtain ⟨k, rfl, hrest⟩ := hl.exists_call
    exact ih (h e'.2).2 hrest

/-- Without events of the kind there is nothing to show. -/
theorem AllRequests.allAfter {E : Event Req Ans → Prop} (C : Program Req Ans α → Prop)
    (h : p.AllRequests fun r ↦ ∀ x, ¬ E ⟨r, x⟩) : p.AllAfter E C := by
  induction p with
  | done a => trivial
  | call r k ih => exact fun x ↦ ⟨fun he ↦ absurd he (h.1 x), ih x (h.2 x)⟩

/-- What is said of the first part holds of the sequence, if it survives the sequencing. -/
theorem allAfter_bind {E : Event Req Ans → Prop} {C : Program Req Ans α → Prop}
    {D : Program Req Ans β → Prop} (hCD : ∀ q, C q → D (q >>= f)) (hp : p.AllAfter E C)
    (hf : ∀ a, (f a).AllAfter E D) : (p >>= f).AllAfter E D := by
  change (bind p f).AllAfter E D
  induction p with
  | done a => exact hf a
  | call r k ih => exact fun x ↦ ⟨fun he ↦ hCD (k x) ((hp x).1 he), ih x (hp x).2⟩

end Lib.Program
