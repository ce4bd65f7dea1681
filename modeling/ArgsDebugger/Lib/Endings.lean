import ArgsDebugger.Lib.Dialogue

/-!
# How interaction programs end

A program has ended where it is done with a result that counts as an ending, or waits for the
answer to a request that has none. `EndsAs` says that whether a program ends, and how, is told by
the last answer alone. It is given by recursion on the program, with a rule for sequences.
-/

namespace Lib.Program

universe u v

variable {Req : Type u} {Ans : Req → Type u} {α β : Type u} {ε : Type v}

/-- The ending of a program that has ended: `asked` gives those of its requests, and `returned`
those of its results. -/
def ending (asked : Req → Option ε) (returned : α → Option ε) : Program Req Ans α → Option ε
  | .done a => returned a
  | .call r _ => asked r

/-- After every answer the program ends as the answer says, or goes on where it says nothing. -/
def EndsAs (asked : Req → Option ε) (returned : α → Option ε)
    (fate : (r : Req) → Ans r → Option ε) : Program Req Ans α → Prop
  | .done _ => True
  | .call r k => ∀ x, (k x).ending asked returned = fate r x ∧ EndsAs asked returned fate (k x)

variable {asked : Req → Option ε} {returned : α → Option ε} {returned' : β → Option ε}
  {fate : (r : Req) → Ans r → Option ε} {p q : Program Req Ans α} {f : α → Program Req Ans β}
  {l : List (Event Req Ans)} {e : Event Req Ans}

@[simp] theorem ending_pure (a : α) :
    (pure a : Program Req Ans α).ending asked returned = returned a := rfl

/-- A sequence ends where its first part does, if the second passes the first one's endings on. -/
theorem ending_bind (hf : ∀ a, (f a).ending asked returned' = returned a) :
    (p >>= f).ending asked returned' = p.ending asked returned := by
  cases p with
  | done a => exact hf a
  | call r k => rfl

theorem EndsAs.bind (hp : p.EndsAs asked returned fate)
    (hf : ∀ a, (f a).ending asked returned' = returned a ∧ (f a).EndsAs asked returned' fate) :
    (p >>= f).EndsAs asked returned' fate := by
  change (Program.bind p f).EndsAs asked returned' fate
  induction p with
  | done a => exact (hf a).2
  | call r k ih =>
    intro x
    obtain ⟨hends, hrest⟩ := hp x
    exact ⟨(ending_bind fun a ↦ (hf a).1).trans hends, ih x hrest⟩

/-- Behind every dialogue the program has ended as the last answer says. -/
theorem EndsAs.follows (h : p.EndsAs asked returned fate) (hl : Follows p (l ++ [e]) q) :
    q.ending asked returned = fate e.1 e.2 := by
  induction l generalizing p with
  | nil =>
    obtain ⟨k, rfl, hrest⟩ := hl.exists_call
    rw [hrest.eq_of_nil]
    exact (h e.2).1
  | cons e' l ih =>
    obtain ⟨k, rfl, hrest⟩ := hl.exists_call
    exact ih (h e'.2).2 hrest

end Lib.Program
