import Mathlib.Data.List.Basic
import Mathlib.Data.List.Infix

/-!
# Prefix codes

The words of a prefix code can be written one behind the other without anything between them:
no word begins another one, so that at every place at most one word stands. A text of such words
is read symbol by symbol, with what stands behind its last word left over.
-/

namespace Lib

universe u v

variable {α : Type u} {β : Type v}

/-- No word of the symbols is empty, and none begins the word of another symbol. -/
structure PrefixCode (code : α → List β) (symbols : List α) : Prop where
  ne_nil : ∀ a ∈ symbols, code a ≠ []
  eq_of_prefix : ∀ a ∈ symbols, ∀ b ∈ symbols, code a <+: code b → a = b

section Decode

variable [DecidableEq β]

/-- At most `n` symbols of a text, up to where no word stands. -/
def decodeWords (code : α → List β) (symbols : List α) : Nat → List β → List α
  | 0, _ => []
  | n + 1, text =>
    match symbols.find? fun a ↦ (code a).isPrefixOf text with
    | none => []
    | some a => a :: decodeWords code symbols n (text.drop (code a).length)

/-- The symbols of a text. No text has more of them than characters. -/
def decode (code : α → List β) (symbols : List α) (text : List β) : List α :=
  decodeWords code symbols text.length text

variable {code : α → List β} {symbols : List α}

namespace PrefixCode

/-- The symbol of a word is found, whatever stands behind the word. -/
theorem find_append (h : PrefixCode code symbols) {a : α} (ha : a ∈ symbols) (rest : List β) :
    symbols.find? (fun b ↦ (code b).isPrefixOf (code a ++ rest)) = some a := by
  cases hfind : symbols.find? fun b ↦ (code b).isPrefixOf (code a ++ rest) with
  | none =>
    have hnot := List.find?_eq_none.mp hfind a ha
    exact absurd (List.isPrefixOf_iff_prefix.mpr (List.prefix_append _ _)) hnot
  | some b =>
    have hb := List.mem_of_find?_eq_some hfind
    have hword : code b <+: code a ++ rest := by
      apply List.isPrefixOf_iff_prefix.mp
      exact List.find?_some (p := fun b ↦ (code b).isPrefixOf (code a ++ rest)) hfind
    -- both words stand at the beginning of the text, so that one begins the other
    rcases List.prefix_or_prefix_of_prefix hword (List.prefix_append (code a) rest) with hba | hab
    · rw [h.eq_of_prefix b hb a ha hba]
    · rw [h.eq_of_prefix a ha b hb hab]

theorem decodeWords_flatMap (h : PrefixCode code symbols) {l : List α} (hl : ∀ a ∈ l, a ∈ symbols)
    {n : Nat} (hn : (l.flatMap code).length ≤ n) :
    decodeWords code symbols n (l.flatMap code) = l := by
  induction l generalizing n with
  | nil =>
    cases n with
    | zero => rfl
    | succ n =>
      have hnone : symbols.find? (fun a ↦ (code a).isPrefixOf []) = none := by
        apply List.find?_eq_none.mpr
        intro a ha hword
        exact h.ne_nil a ha (List.prefix_nil.mp (List.isPrefixOf_iff_prefix.mp hword))
      rw [List.flatMap_nil, decodeWords, hnone]
  | cons a l ih =>
    have ha := hl a List.mem_cons_self
    have hpos := List.length_pos_iff.mpr (h.ne_nil a ha)
    rw [List.flatMap_cons, List.length_append] at hn
    cases n with
    | zero => omega
    | succ n =>
      rw [List.flatMap_cons, decodeWords, h.find_append ha]
      simp only [List.drop_left]
      rw [ih (fun b hb ↦ hl b (List.mem_cons_of_mem a hb)) (by omega)]

/-- A text made of words is read back. -/
theorem decode_flatMap (h : PrefixCode code symbols) {l : List α} (hl : ∀ a ∈ l, a ∈ symbols) :
    decode code symbols (l.flatMap code) = l :=
  h.decodeWords_flatMap hl le_rfl

end PrefixCode

end Decode

end Lib
