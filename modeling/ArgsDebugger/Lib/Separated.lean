import Mathlib.Data.List.Infix

/-!
# Texts put together with separators

A word without the separator in it is found in a text exactly when it is found on one side of the
separator. Entries without the separator in them are told apart again when they were joined by it.
-/

namespace Lib

universe u

variable {α : Type u} {c : α} {word l m : List α}

/-- A word without the separator lies on one side of it. -/
theorem infix_separated_iff (hc : c ∉ word) (hne : word ≠ []) :
    word <:+: l ++ c :: m ↔ word <:+: l ∨ word <:+: m := by
  constructor
  · rintro ⟨before, after, h⟩
    rw [List.append_assoc] at h
    rcases List.append_eq_append_iff.mp h with ⟨rest, rfl, hrest⟩ | ⟨rest, rfl, hrest⟩
    · -- the word begins in front of the separator, and does not reach it
      left
      rcases List.append_eq_append_iff.mp hrest with ⟨rest', rfl, -⟩ | ⟨tail, rfl, htail⟩
      · exact ⟨before, rest', List.append_assoc ..⟩
      · cases tail with
        | nil => exact ⟨before, [], by simp⟩
        | cons d tail =>
          rw [(List.cons.inj htail).1] at hc
          exact absurd (by simp) hc
    · right
      cases rest with
      | nil =>
        cases word with
        | nil => exact absurd rfl hne
        | cons d word =>
          rw [(List.cons.inj hrest).1] at hc
          exact absurd List.mem_cons_self hc
      | cons d rest =>
        refine ⟨rest, after, ?_⟩
        rw [List.append_assoc]
        exact (List.cons.inj hrest).2.symm
  · rintro (h | h)
    · exact h.trans (List.prefix_append l (c :: m)).isInfix
    · exact h.trans ((List.suffix_cons c m).trans (List.suffix_append l (c :: m))).isInfix

/-- Nonempty lists of entries without the separator are equal when joined by it they are. -/
theorem intercalate_inj [DecidableEq α] {ls ms : List (List α)} (hl : ∀ w ∈ ls, c ∉ w)
    (hm : ∀ w ∈ ms, c ∉ w) (hls : ls ≠ []) (hms : ms ≠ [])
    (h : List.intercalate [c] ls = List.intercalate [c] ms) : ls = ms := by
  rw [← List.splitOn_intercalate c hl hls, h, List.splitOn_intercalate c hm hms]

end Lib
