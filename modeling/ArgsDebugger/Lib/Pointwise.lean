import Mathlib.Data.List.Forall2

/-!
# Pointwise related lists

A list that was computed element by element from another is related to it by
`List.Forall₂`. What is known of one list is carried to the other by place and by membership.
-/

namespace Lib

universe u v

variable {α : Type u} {β : Type v} {R : α → β → Prop} {l : List α} {m : List β}

/-- Elements at one place are related. -/
theorem forall₂_getElem? (h : List.Forall₂ R l m) {i : Nat} {a : α} (ha : l[i]? = some a) :
    ∃ b, m[i]? = some b ∧ R a b := by
  induction h generalizing i with
  | nil => cases ha
  | @cons a' b' l m hR h ih =>
    cases i with
    | zero =>
      cases ha
      exact ⟨b', rfl, hR⟩
    | succ i => exact ih ha

/-- What stands at one place in either list is related, if anything. -/
theorem forall₂_getElem?_rel (h : List.Forall₂ R l m) (i : Nat) : Option.Rel R l[i]? m[i]? := by
  induction h generalizing i with
  | nil => exact .none
  | cons hR _ ih =>
    cases i with
    | zero => exact .some hR
    | succ i => exact ih i

/-- The last elements are related, if there are any. -/
theorem forall₂_getLast? (h : List.Forall₂ R l m) : Option.Rel R l.getLast? m.getLast? := by
  rw [List.getLast?_eq_getElem?, List.getLast?_eq_getElem?, h.length_eq]
  exact forall₂_getElem?_rel h _

/-- Every element of either list is related to one of the other. -/
theorem forall₂_mem (h : List.Forall₂ R l m) :
    (∀ a ∈ l, ∃ b ∈ m, R a b) ∧ ∀ b ∈ m, ∃ a ∈ l, R a b := by
  induction h with
  | nil => exact ⟨fun _ h ↦ absurd h List.not_mem_nil, fun _ h ↦ absurd h List.not_mem_nil⟩
  | @cons a b l m hR h ih =>
    constructor
    · intro x hx
      rcases List.mem_cons.mp hx with rfl | hx
      · exact ⟨b, List.mem_cons_self, hR⟩
      · obtain ⟨y, hy, hxy⟩ := ih.1 x hx
        exact ⟨y, List.mem_cons_of_mem b hy, hxy⟩
    · intro y hy
      rcases List.mem_cons.mp hy with rfl | hy
      · exact ⟨a, List.mem_cons_self, hR⟩
      · obtain ⟨x, hx, hxy⟩ := ih.2 y hy
        exact ⟨x, List.mem_cons_of_mem a hx, hxy⟩

/-- Related elements come from the list. -/
theorem forall₂_with_mem (h : List.Forall₂ R l m) :
    List.Forall₂ (fun a b ↦ a ∈ l ∧ R a b) l m := by
  induction h with
  | nil => exact .nil
  | @cons a b l m hR h ih =>
    refine .cons ⟨List.mem_cons_self, hR⟩ (ih.imp ?_)
    rintro a' b' ⟨ha', hR'⟩
    exact ⟨List.mem_cons_of_mem a ha', hR'⟩

/-- The first elements that satisfy corresponding tests are related. -/
theorem forall₂_find? (h : List.Forall₂ R l m) {p : α → Bool} {q : β → Bool}
    (hpq : ∀ a b, R a b → p a = q b) : Option.Rel R (l.find? p) (m.find? q) := by
  induction h with
  | nil => exact .none
  | @cons a b l m hR h ih =>
    rw [List.find?_cons, List.find?_cons, hpq a b hR]
    cases q b with
    | true => exact .some hR
    | false => exact ih

/-- Related options are related the other way round. -/
theorem optionRel_flip {x : Option α} {y : Option β} (h : Option.Rel R x y) :
    Option.Rel (flip R) y x := by
  cases h with
  | none => exact .none
  | some h => exact .some h

/-- Functions of related options are related. -/
theorem optionRel_map {α' : Type u} {β' : Type v} {S : α' → β' → Prop} {f : α → α'} {g : β → β'}
    {x : Option α} {y : Option β} (h : Option.Rel R x y) (hfg : ∀ a b, R a b → S (f a) (g b)) :
    Option.Rel S (x.map f) (y.map g) := by
  cases h with
  | none => exact .none
  | some h => exact .some (hfg _ _ h)

/-- Two lists that are related to one are related to each other, through its elements. -/
theorem forall₂_span {γ : Type v} {S : α → γ → Prop} {n : List γ} (h : List.Forall₂ R l m)
    (h' : List.Forall₂ S l n) : List.Forall₂ (fun b c ↦ ∃ a ∈ l, R a b ∧ S a c) m n := by
  induction h generalizing n with
  | nil =>
    cases h'
    exact .nil
  | @cons a b l m hR h ih =>
    cases h' with
    | cons hS h' =>
      refine .cons ⟨a, List.mem_cons_self, hR, hS⟩ ((ih h').imp ?_)
      rintro b c ⟨a', ha', hrel⟩
      exact ⟨a', List.mem_cons_of_mem a ha', hrel⟩

/-- Three lists that are related pairwise: each element of one stands in a triangle. -/
theorem forall₂_triangle {γ : Type v} {S : α → γ → Prop} {Q : β → γ → Prop} {n : List γ}
    (h : List.Forall₂ R l m) (h' : List.Forall₂ S l n) (hQ : List.Forall₂ Q m n) :
    ∀ a ∈ l, ∃ b c, R a b ∧ S a c ∧ Q b c := by
  induction h generalizing n with
  | nil => exact fun _ h ↦ absurd h List.not_mem_nil
  | @cons a b l m hR h ih =>
    cases h' with
    | @cons _ c _ n hS h' =>
      cases hQ with
      | cons hbc hQ =>
        intro x hx
        rcases List.mem_cons.mp hx with rfl | hx
        · exact ⟨b, c, hR, hS, hbc⟩
        · exact ih h' hQ x hx

/-- A list of pairs, each of a key and what is related to it, is a list of keys zipped with a
list that is related to them. -/
theorem forall₂_pair_iff {γ : Type v} {S : β → γ → Prop} {key : α → β} {items : List (β × γ)} :
    List.Forall₂ (fun a item ↦ ∃ c, S (key a) c ∧ (key a, c) = item) l items ↔
      ∃ cs, List.Forall₂ S (l.map key) cs ∧ items = (l.map key).zip cs := by
  induction l generalizing items with
  | nil => simp
  | cons a l ih =>
    rw [List.forall₂_cons_left_iff, List.map_cons]
    constructor
    · rintro ⟨_, rest, ⟨c, hc, rfl⟩, hrest, rfl⟩
      obtain ⟨cs, hcs, rfl⟩ := ih.mp hrest
      exact ⟨c :: cs, .cons hc hcs, rfl⟩
    · rintro ⟨_, hcs, rfl⟩
      cases hcs with
      | @cons _ c _ cs hc hcs => exact ⟨(key a, c), _, ⟨c, hc, rfl⟩, ih.mpr ⟨cs, hcs, rfl⟩, rfl⟩

/-- Related lists are related when they are numbered. -/
theorem forall₂_zipIdx (h : List.Forall₂ R l m) (n : Nat) :
    List.Forall₂ (fun a b ↦ R a.1 b.1 ∧ a.2 = b.2) (l.zipIdx n) (m.zipIdx n) := by
  induction h generalizing n with
  | nil => exact .nil
  | cons hR _ ih => exact .cons ⟨hR, rfl⟩ (ih (n + 1))

end Lib
