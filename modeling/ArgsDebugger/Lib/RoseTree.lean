import Mathlib.Data.List.Forall2

/-!
# Rose trees and streaming walks

A recursive visitor that threads one mutable state through a tree, visiting a node before
its children, is a left fold over the pre-order listing of the tree. `walk` is the
recursion, `preorder` the listing with depths; `walk_eq_foldlM` identifies them in any
monad, so that an invariant of the state is proved by induction on a list. Trees of one shape
whose labels are related have related listings.
-/

namespace Lib

universe u v w

/-- A tree whose nodes carry a label and any number of children, in order. -/
inductive RoseTree (α : Type u) where
  | node (label : α) (children : List (RoseTree α))

namespace RoseTree

variable {α : Type u} {σ : Type v} {m : Type v → Type w}

/-- The label of the root. -/
def label : RoseTree α → α
  | .node a _ => a

/-- The subtrees below the root. -/
def children : RoseTree α → List (RoseTree α)
  | .node _ ts => ts

mutual

/-- The labels with their depths, each node before its children. -/
def preorder (depth : Nat) : RoseTree α → List (Nat × α)
  | .node a ts => (depth, a) :: preorderForest (depth + 1) ts

/-- The listing of a forest: its trees' listings one after the other. -/
def preorderForest (depth : Nat) : List (RoseTree α) → List (Nat × α)
  | [] => []
  | t :: ts => preorder depth t ++ preorderForest depth ts

end

mutual

/-- Visit a node, then each of its children, threading one state through all visits. -/
def walk [Monad m] (visit : Nat → α → σ → m σ) (depth : Nat) (s : σ) : RoseTree α → m σ
  | .node a ts => do
    let s ← visit depth a s
    walkForest visit (depth + 1) s ts

/-- Walk the trees of a forest one after the other. -/
def walkForest [Monad m] (visit : Nat → α → σ → m σ) (depth : Nat) (s : σ) :
    List (RoseTree α) → m σ
  | [] => pure s
  | t :: ts => do
    let s ← walk visit depth s t
    walkForest visit depth s ts

end

mutual

/-- A streaming walk is the left fold of its visitor over the pre-order listing. -/
theorem walk_eq_foldlM [Monad m] [LawfulMonad m] (visit : Nat → α → σ → m σ) (depth : Nat)
    (s : σ) (t : RoseTree α) :
    walk visit depth s t = (preorder depth t).foldlM (fun s e ↦ visit e.1 e.2 s) s := by
  cases t with
  | node a ts =>
    simp only [walk, preorder, List.foldlM_cons]
    exact bind_congr fun s ↦ walkForest_eq_foldlM visit (depth + 1) s ts

/-- The forest version of `walk_eq_foldlM`. -/
theorem walkForest_eq_foldlM [Monad m] [LawfulMonad m] (visit : Nat → α → σ → m σ)
    (depth : Nat) (s : σ) (ts : List (RoseTree α)) :
    walkForest visit depth s ts =
      (preorderForest depth ts).foldlM (fun s e ↦ visit e.1 e.2 s) s := by
  cases ts with
  | nil => simp only [walkForest, preorderForest, List.foldlM_nil]
  | cons t ts =>
    simp only [walkForest, preorderForest, List.foldlM_append]
    rw [walk_eq_foldlM visit depth s t]
    exact bind_congr fun s ↦ walkForest_eq_foldlM visit depth s ts

end

mutual

/-- Every listed depth is at least the depth of the root. -/
theorem le_depth_of_mem_preorder {depth : Nat} {t : RoseTree α} {e : Nat × α}
    (h : e ∈ preorder depth t) : depth ≤ e.1 := by
  cases t with
  | node a ts =>
    simp only [preorder, List.mem_cons] at h
    rcases h with rfl | h
    · exact Nat.le_refl _
    · exact Nat.le_of_succ_le (le_depth_of_mem_preorderForest h)

/-- Every depth listed for a forest is at least the depth of its roots. -/
theorem le_depth_of_mem_preorderForest {depth : Nat} {ts : List (RoseTree α)} {e : Nat × α}
    (h : e ∈ preorderForest depth ts) : depth ≤ e.1 := by
  cases ts with
  | nil => cases h
  | cons t ts =>
    simp only [preorderForest, List.mem_append] at h
    rcases h with h | h
    · exact le_depth_of_mem_preorder h
    · exact le_depth_of_mem_preorderForest h

end

/-- The listing of a forest in two parts. -/
theorem preorderForest_append (depth : Nat) (ts us : List (RoseTree α)) :
    preorderForest depth (ts ++ us) = preorderForest depth ts ++ preorderForest depth us := by
  induction ts with
  | nil => simp only [List.nil_append, preorderForest]
  | cons t ts ih => simp only [List.cons_append, preorderForest, ih, List.append_assoc]

/-- A node is listed before the nodes below it. -/
theorem preorder_eq_cons (depth : Nat) (t : RoseTree α) :
    preorder depth t = (depth, t.label) :: preorderForest (depth + 1) t.children := by
  cases t
  simp only [preorder, label, children]

/-- The roots of a forest are listed in their order. -/
theorem map_label_sublist (depth : Nat) (ts : List (RoseTree α)) :
    (ts.map label).Sublist ((preorderForest depth ts).map Prod.snd) := by
  induction ts with
  | nil => exact .slnil
  | cons t ts ih =>
    rw [preorderForest, preorder_eq_cons, List.map_append, List.map_cons, List.map_cons,
      List.cons_append]
    exact .cons_cons _ (ih.trans (List.sublist_append_right _ _))

/-- The nodes listed at the depth of a forest's roots are its roots. -/
theorem filter_depth_eq (depth : Nat) (ts : List (RoseTree α)) :
    ((preorderForest depth ts).filter fun e ↦ e.1 == depth).map Prod.snd = ts.map label := by
  induction ts with
  | nil => simp only [preorderForest, List.filter_nil, List.map_nil]
  | cons t ts ih =>
    have hbelow : (preorderForest (depth + 1) t.children).filter (fun e ↦ e.1 == depth) = [] := by
      rw [List.filter_eq_nil_iff]
      intro e he
      have hdepth := le_depth_of_mem_preorderForest he
      simp only [beq_iff_eq]
      omega
    rw [preorderForest, preorder_eq_cons, List.filter_append, List.map_append, ih,
      List.filter_cons_of_pos (by simp), hbelow]
    simp only [List.map_cons, List.map_nil, List.singleton_append]

section Splice

variable (p : α → Bool)

mutual

/-- What is left of a tree when every node outside `p` is taken out and the nodes below it are
put in its place. -/
def spliced : RoseTree α → List (RoseTree α)
  | .node a ts => if p a then [.node a (splicedForest ts)] else splicedForest ts

/-- What is left of a forest. -/
def splicedForest : List (RoseTree α) → List (RoseTree α)
  | [] => []
  | t :: ts => spliced t ++ splicedForest ts

end

mutual

/-- The labels that are left are listed in their order. -/
theorem labels_spliced (t : RoseTree α) (depth depth' : Nat) :
    (preorderForest depth (spliced p t)).map Prod.snd =
      ((preorder depth' t).map Prod.snd).filter p := by
  cases t with
  | node a ts =>
    have hbelow := labels_splicedForest ts
    rw [spliced, preorder, List.map_cons]
    cases ha : p a with
    | true =>
      rw [if_pos rfl, List.filter_cons_of_pos ha, ← hbelow (depth + 1)]
      simp only [preorderForest, preorder, List.append_nil, List.map_cons]
    | false =>
      rw [if_neg Bool.false_ne_true, List.filter_cons_of_neg (by simp [ha])]
      exact hbelow depth (depth' + 1)

/-- The forest version of `labels_spliced`. -/
theorem labels_splicedForest (ts : List (RoseTree α)) (depth depth' : Nat) :
    (preorderForest depth (splicedForest p ts)).map Prod.snd =
      ((preorderForest depth' ts).map Prod.snd).filter p := by
  cases ts with
  | nil => rfl
  | cons t ts =>
    rw [splicedForest, preorderForest_append, List.map_append, labels_spliced t depth depth',
      labels_splicedForest ts depth depth', preorderForest, List.map_append, List.filter_append]

end

/-- A visitor that does not look at the depth walks over the labels. -/
theorem walkForest_eq_foldlM_labels [Monad m] [LawfulMonad m] {visit : Nat → α → σ → m σ}
    {g : α → σ → m σ} {depth : Nat} (hvisit : ∀ d, depth ≤ d → visit d = g) (s : σ)
    (ts : List (RoseTree α)) : walkForest visit depth s ts =
      ((preorderForest depth ts).map Prod.snd).foldlM (fun s a ↦ g a s) s := by
  rw [walkForest_eq_foldlM, List.foldlM_map]
  have hdepth : ∀ e ∈ preorderForest depth ts, visit e.1 = g :=
    fun e he ↦ hvisit e.1 (le_depth_of_mem_preorderForest he)
  generalize preorderForest depth ts = l at hdepth ⊢
  induction l generalizing s with
  | nil => rfl
  | cons e l ih =>
    rw [List.foldlM_cons, List.foldlM_cons, hdepth e List.mem_cons_self]
    exact bind_congr fun s ↦ ih s fun e' he' ↦ hdepth e' (List.mem_cons_of_mem e he')

/-- Visits that do nothing can be left out. -/
theorem foldlM_filter_of_skip [Monad m] [LawfulMonad m] {g : α → σ → m σ}
    (hskip : ∀ a, p a = false → ∀ s, g a s = pure s) (s : σ) (l : List α) :
    (l.filter p).foldlM (fun s a ↦ g a s) s = l.foldlM (fun s a ↦ g a s) s := by
  induction l generalizing s with
  | nil => rfl
  | cons a l ih =>
    cases ha : p a with
    | true =>
      rw [List.filter_cons_of_pos ha, List.foldlM_cons, List.foldlM_cons]
      exact bind_congr ih
    | false =>
      rw [List.filter_cons_of_neg (by simp [ha]), List.foldlM_cons, hskip a ha, pure_bind]
      exact ih s

/-- A walk that neither looks at the depth nor does anything at the nodes outside `p` is the same
without them. -/
theorem walkForest_splicedForest [Monad m] [LawfulMonad m] {visit : Nat → α → σ → m σ}
    {g : α → σ → m σ} {depth : Nat} (hvisit : ∀ d, depth ≤ d → visit d = g)
    (hskip : ∀ a, p a = false → ∀ s, g a s = pure s) (s : σ) (ts : List (RoseTree α)) :
    walkForest visit depth s (splicedForest p ts) = walkForest visit depth s ts := by
  rw [walkForest_eq_foldlM_labels hvisit, walkForest_eq_foldlM_labels hvisit,
    labels_splicedForest p ts depth depth, foldlM_filter_of_skip p hskip]

end Splice

section Related

variable {β : Type w} (R : α → β → Prop)

mutual

/-- Two trees of one shape, with related labels at the same places. -/
def Related : RoseTree α → RoseTree β → Prop
  | .node a ts, .node b us => R a b ∧ RelatedForest ts us

/-- The trees of two forests are related one by one. -/
def RelatedForest : List (RoseTree α) → List (RoseTree β) → Prop
  | [], [] => True
  | t :: ts, u :: us => Related t u ∧ RelatedForest ts us
  | [], _ :: _ => False
  | _ :: _, [] => False

end

end Related

mutual

/-- Related trees are listed at the same depths with related labels. -/
theorem Related.preorder {β : Type w} {R : α → β → Prop} {t : RoseTree α} {u : RoseTree β}
    (h : Related R t u) (depth : Nat) :
    List.Forall₂ (fun e e' ↦ e.1 = e'.1 ∧ R e.2 e'.2) (t.preorder depth) (u.preorder depth) := by
  cases t with
  | node a ts =>
    cases u with
    | node b us =>
      rw [Related] at h
      rw [RoseTree.preorder, RoseTree.preorder]
      exact .cons ⟨rfl, h.1⟩ (RelatedForest.preorderForest h.2 (depth + 1))

/-- The forest version of `Related.preorder`. -/
theorem RelatedForest.preorderForest {β : Type w} {R : α → β → Prop} {ts : List (RoseTree α)}
    {us : List (RoseTree β)} (h : RelatedForest R ts us) (depth : Nat) :
    List.Forall₂ (fun e e' ↦ e.1 = e'.1 ∧ R e.2 e'.2) (preorderForest depth ts)
      (preorderForest depth us) := by
  cases ts with
  | nil =>
    cases us with
    | nil =>
      rw [RoseTree.preorderForest, RoseTree.preorderForest]
      exact .nil
    | cons u us =>
      rw [RelatedForest] at h
      exact h.elim
  | cons t ts =>
    cases us with
    | nil =>
      rw [RelatedForest] at h
      exact h.elim
    | cons u us =>
      rw [RelatedForest] at h
      rw [RoseTree.preorderForest, RoseTree.preorderForest]
      exact List.rel_append (Related.preorder h.1 depth)
        (RelatedForest.preorderForest h.2 depth)

end

end RoseTree

end Lib
