import Mathlib.Data.Set.Finite.Basic
import Mathlib.Data.List.Perm.Subperm
import Mathlib.Logic.Relation
import Mathlib.Order.WellFounded

/-!
# Chasing a partial successor

A linked table is walked by a partial successor `next : α → Option α`. `Trail next x l`
says that the sequence `next x, next (next x), …` is finite and lists it as `l`. A trail
is unique, never repeats an element, and is therefore no longer than any list that holds
every successor. Among the links of a finite table an element has a trail exactly when no
cycle is reached from it.
-/

namespace Lib

universe u

variable {α : Type u}

/-- The successors of `x`, in order, end and are the elements of the list. -/
inductive Trail (next : α → Option α) : α → List α → Prop
  | stop {x : α} (h : next x = none) : Trail next x []
  | step {x y : α} {l : List α} (h : next x = some y) (t : Trail next y l) :
      Trail next x (y :: l)

namespace Trail

variable {next : α → Option α} {x y : α} {l l' : List α}

/-- An element without successor has the empty trail only. -/
theorem iff_nil (h : next x = none) : Trail next x l ↔ l = [] := by
  constructor
  · intro t
    cases t with
    | stop => rfl
    | step h' => rw [h] at h'; cases h'
  · rintro rfl
    exact .stop h

/-- The trail of an element with a successor is that successor and its trail. -/
theorem iff_cons (h : next x = some y) : Trail next x l ↔ ∃ l', l = y :: l' ∧ Trail next y l' := by
  constructor
  · intro t
    cases t with
    | stop h' => rw [h] at h'; cases h'
    | step h' t =>
      rw [h] at h'
      cases h'
      exact ⟨_, rfl, t⟩
  · rintro ⟨l', rfl, t⟩
    exact .step h t

/-- An element has at most one trail. -/
theorem unique (t : Trail next x l) (t' : Trail next x l') : l = l' := by
  induction t generalizing l' with
  | stop h => exact ((iff_nil h).mp t').symm
  | step h _ ih =>
    obtain ⟨l₂, rfl, t₂⟩ := (iff_cons h).mp t'
    rw [ih t₂]

/-- Every element of a trail starts a trail of its own, which is what follows it. -/
theorem split (t : Trail next x l) {pre post : List α} (hl : l = pre ++ y :: post) :
    Trail next y post := by
  induction t generalizing pre with
  | stop => simp at hl
  | step h t ih =>
    cases pre with
    | nil =>
      simp only [List.nil_append, List.cons.injEq] at hl
      obtain ⟨rfl, rfl⟩ := hl
      exact t
    | cons z pre =>
      simp only [List.cons_append, List.cons.injEq] at hl
      exact ih hl.2

/-- A finite trail visits no element twice: a repeated element would be followed by two
trails of different lengths. -/
theorem nodup (t : Trail next x l) : l.Nodup := by
  induction t with
  | stop => exact List.nodup_nil
  | @step x y l h t ih =>
    refine List.nodup_cons.mpr ⟨?_, ih⟩
    intro hm
    obtain ⟨pre, post, hl⟩ := List.append_of_mem hm
    have hu := unique t (split t hl)
    have hlen := congrArg List.length (hu.symm.trans hl)
    simp only [List.length_append, List.length_cons] at hlen
    omega

/-- Every element of a trail is the successor of some element. -/
theorem exists_prev (t : Trail next x l) (hy : y ∈ l) : ∃ z, next z = some y := by
  induction t with
  | stop => cases hy
  | step h _ ih =>
    rcases List.mem_cons.mp hy with rfl | hy
    · exact ⟨_, h⟩
    · exact ih hy

/-- Pigeonhole bound: a trail is no longer than a list that holds every successor. -/
theorem length_le {table : List α} (hmem : ∀ x y, next x = some y → y ∈ table)
    (t : Trail next x l) : l.length ≤ table.length := by
  apply List.Subperm.length_le
  apply t.nodup.subperm
  intro y hy
  obtain ⟨z, hz⟩ := t.exists_prev hy
  exact hmem z y hz

/-- Related elements with related successors have related trails. -/
theorem rel {β : Type u} {next' : β → Option β} {R : α → β → Prop}
    (h : ∀ a b, R a b → Option.Rel R (next a) (next' b)) {b : β} (hx : R x b)
    (t : Trail next x l) : ∃ m, Trail next' b m ∧ List.Forall₂ R l m := by
  induction t generalizing b with
  | @stop x hnone =>
    have hnext := h x b hx
    rw [hnone] at hnext
    cases hb : next' b with
    | none => exact ⟨[], .stop hb, .nil⟩
    | some b' =>
      rw [hb] at hnext
      cases hnext
  | @step x y l hsome _ ih =>
    have hnext := h x b hx
    rw [hsome] at hnext
    cases hb : next' b with
    | none =>
      rw [hb] at hnext
      cases hnext
    | some b' =>
      rw [hb] at hnext
      cases hnext with
      | some hy =>
        obtain ⟨m, hm, hall⟩ := ih hy
        exact ⟨b' :: m, .step hb hm, .cons hy hall⟩

/-- Along some of the links the trail of all of them is followed to where one is missing. -/
theorem prefix_of_le {next' : α → Option α} (h : ∀ x y, next' x = some y → next x = some y)
    (t : Trail next x l) : ∃ l', Trail next' x l' ∧ l' <+: l := by
  induction t with
  | @stop x hnone =>
    cases hx : next' x with
    | none => exact ⟨[], .stop hx, List.prefix_refl _⟩
    | some y =>
      have hy := h x y hx
      rw [hnone] at hy
      cases hy
  | @step x y l hsome _ ih =>
    cases hx : next' x with
    | none => exact ⟨[], .stop hx, List.nil_prefix⟩
    | some z =>
      have hz := h x z hx
      rw [hsome] at hz
      cases hz
      obtain ⟨l', ht, hl⟩ := ih
      exact ⟨y :: l', .step hx ht, List.cons_prefix_cons.mpr ⟨rfl, hl⟩⟩

end Trail

/-- Whatever is reached from the start of a trail is on it. -/
theorem Trail.mem_of_transGen {next : α → Option α} {x y : α} {l : List α} (t : Trail next x l)
    (h : Relation.TransGen (fun a b ↦ next a = some b) x y) : y ∈ l := by
  induction h with
  | single h =>
    obtain ⟨l', rfl, -⟩ := (Trail.iff_cons h).mp t
    exact List.mem_cons_self
  | tail _ h ih =>
    obtain ⟨pre, post, hl⟩ := List.append_of_mem ih
    obtain ⟨post', rfl, -⟩ := (Trail.iff_cons h).mp (t.split hl)
    rw [hl]
    simp

/-- An element with a trail is not reached again from itself. -/
theorem Trail.not_transGen_self {next : α → Option α} {x : α} {l : List α} (t : Trail next x l) :
    ¬ Relation.TransGen (fun a b ↦ next a = some b) x x := by
  intro hcycle
  obtain ⟨pre, post, hl⟩ := List.append_of_mem (t.mem_of_transGen hcycle)
  have hsame := congrArg List.length ((t.split hl).unique t)
  rw [hl, List.length_append, List.length_cons] at hsame
  omega

/-- What is reached from an element with a trail has one too. -/
theorem Trail.exists_of_reflTransGen {next : α → Option α} {x y : α} {l : List α}
    (t : Trail next x l) (h : Relation.ReflTransGen (fun a b ↦ next a = some b) x y) :
    ∃ l', Trail next y l' := by
  induction h with
  | refl => exact ⟨l, t⟩
  | tail _ h ih =>
    obtain ⟨l', t'⟩ := ih
    obtain ⟨l₂, -, t₂⟩ := (Trail.iff_cons h).mp t'
    exact ⟨l₂, t₂⟩

/-- No element that is reached from `x` is reached again from itself. -/
def NoCycle (next : α → Option α) (x : α) : Prop :=
  ∀ y, Relation.ReflTransGen (fun a b ↦ next a = some b) x y →
    ¬ Relation.TransGen (fun a b ↦ next a = some b) y y

/-- No element of the table is reached again by following links from it. -/
def Acyclic (next : α → Option α) (table : List α) : Prop :=
  ∀ x ∈ table, ¬ Relation.TransGen (fun a b ↦ next a = some b) x x

section Finite

variable {next next' : α → Option α} {table : List α} {x : α}

/-- Fewer links have fewer cycles. -/
theorem NoCycle.mono (h : NoCycle next x) (hle : ∀ a b, next' a = some b → next a = some b) :
    NoCycle next' x := by
  intro y hreach hcycle
  exact h y (Relation.ReflTransGen.mono hle _ _ hreach) (Relation.TransGen.mono hle _ _ hcycle)

/-- Acyclic links have no cycle behind any element, as every link leads into the table. -/
theorem Acyclic.noCycle (hac : Acyclic next table)
    (hmem : ∀ a b, next a = some b → b ∈ table) (x : α) : NoCycle next x := by
  intro y _ hcycle
  obtain ⟨z, -, hlink⟩ := Relation.TransGen.tail'_iff.mp hcycle
  exact hac y (hmem z y hlink) hcycle

/-- Where every element has a trail, the links are acyclic. -/
theorem Acyclic.of_trails (h : ∀ x ∈ table, ∃ l, Trail next x l) : Acyclic next table := by
  intro x hx
  obtain ⟨l, t⟩ := h x hx
  exact t.not_transGen_self

/-- Without a cycle behind an element its successors end: those reached from it are finitely
many, and the links among them are well founded. -/
theorem NoCycle.exists_trail (h : NoCycle next x)
    (hmem : ∀ a b, next a = some b → b ∈ table) : ∃ l, Trail next x l := by
  let Reached := {y // y ∈ table ∧ Relation.ReflTransGen (fun a b ↦ next a = some b) x y}
  have hfinite : Finite Reached := by
    apply Set.Finite.to_subtype
    exact (List.finite_toSet table).subset fun y hy ↦ hy.1
  have hwf : WellFounded fun b a : Reached ↦
      Relation.TransGen (fun a b ↦ next a = some b) a.val b.val := by
    refine @Finite.wellFounded_of_trans_of_irrefl _ hfinite _ ⟨?_⟩ ⟨?_⟩
    · intro a b c hab hbc
      exact hbc.trans hab
    · intro a
      exact h a.val a.property.2
  have inside : ∀ a : Reached, ∃ l, Trail next a.val l := by
    intro a
    induction a using hwf.induction with
    | h a ih =>
      cases hn : next a.val with
      | none => exact ⟨[], .stop hn⟩
      | some y =>
        obtain ⟨l, hl⟩ := ih ⟨y, hmem _ _ hn, a.property.2.tail hn⟩ (.single hn)
        exact ⟨y :: l, .step hn hl⟩
  cases hn : next x with
  | none => exact ⟨[], .stop hn⟩
  | some y =>
    obtain ⟨l, hl⟩ := inside ⟨y, hmem _ _ hn, .single hn⟩
    exact ⟨y :: l, .step hn hl⟩

/-- The successors of an element end exactly when no cycle is reached from it. -/
theorem exists_trail_iff (hmem : ∀ a b, next a = some b → b ∈ table) :
    (∃ l, Trail next x l) ↔ NoCycle next x := by
  constructor
  · rintro ⟨l, t⟩ y hreach
    obtain ⟨l', t'⟩ := t.exists_of_reflTransGen hreach
    exact t'.not_transGen_self
  · intro h
    exact h.exists_trail hmem

/-- Acyclic links among a finite table give every element a trail. -/
theorem Acyclic.exists_trail (hac : Acyclic next table)
    (hmem : ∀ a b, next a = some b → b ∈ table) (x : α) : ∃ l, Trail next x l :=
  (hac.noCycle hmem x).exists_trail hmem

end Finite

end Lib
