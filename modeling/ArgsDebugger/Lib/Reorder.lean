import ArgsDebugger.Lib.Fallible
import Mathlib.Data.List.Nodup

/-!
# Folds in another order

A fold whose steps commute takes them in any order, in any monad. In `Except` two steps that both
raise rarely commute, since the first one decides what is raised; `Except.toOption` forgets it and
respects sequences and folds, so that steps need to commute up to what is raised only. Where each
element has a key of its own, elements with different keys are the only ones that matter.
-/

namespace Lib

universe u v w

section Order

variable {m : Type u → Type v} [Monad m] {α β : Type w} {σ : Type u}

/-- Folds over related lists, whose steps are the same, are the same. -/
theorem foldlM_congr {f : σ → α → m σ} {g : σ → β → m σ} {l : List α} {l' : List β}
    (h : List.Forall₂ (fun a b ↦ ∀ s, f s a = g s b) l l') (s : σ) :
    l.foldlM f s = l'.foldlM g s := by
  induction h generalizing s with
  | nil => rfl
  | cons hab _ ih =>
    rw [List.foldlM_cons, List.foldlM_cons, hab]
    exact congrArg _ (funext ih)

variable [LawfulMonad m] {f : σ → α → m σ} {l l' : List α}

/-- Steps that commute are taken in any order. -/
theorem foldlM_perm (hperm : l.Perm l')
    (hcomm : ∀ a ∈ l, ∀ b ∈ l, ∀ s, (f s a >>= fun t ↦ f t b) = (f s b >>= fun t ↦ f t a))
    (s : σ) : l.foldlM f s = l'.foldlM f s := by
  rw [List.foldlM_eq_foldl, List.foldlM_eq_foldl]
  apply hperm.foldl_eq'
  intro a ha b hb x
  rw [bind_assoc, bind_assoc]
  exact bind_congr fun s ↦ hcomm a ha b hb s

/-- Where each element has its own key, steps with different keys need to commute only. -/
theorem foldlM_perm_of_nodup {κ : Type*} (key : α → κ) (hperm : l.Perm l')
    (hnodup : (l.map key).Nodup)
    (hcomm : ∀ a b, key a ≠ key b → ∀ s,
      (f s a >>= fun t ↦ f t b) = (f s b >>= fun t ↦ f t a))
    (s : σ) : l.foldlM f s = l'.foldlM f s := by
  apply foldlM_perm hperm
  intro a ha b hb
  by_cases hkey : key a = key b
  · have hab : a = b := List.inj_on_of_nodup_map hnodup ha hb hkey
    intro s
    rw [hab]
  · exact hcomm a b hkey

end Order

section Result

variable {ε : Type v} {α β : Type u}

theorem toOption_bind (x : Except ε α) (g : α → Except ε β) :
    (x >>= g).toOption = x.toOption >>= fun a ↦ (g a).toOption := by
  cases x <;> rfl

theorem toOption_map (x : Except ε α) (k : α → β) : (x.map k).toOption = x.toOption.map k := by
  cases x <;> rfl

/-- A fold forgets what its steps forget. -/
theorem toOption_foldlM {γ : Type w} (f : α → γ → Except ε α) (l : List γ) (s : α) :
    (l.foldlM f s).toOption = l.foldlM (fun s a ↦ (f s a).toOption) s := by
  induction l generalizing s with
  | nil => rfl
  | cons a l ih =>
    rw [List.foldlM_cons, List.foldlM_cons, toOption_bind]
    exact bind_congr ih

/-- Equal up to what is raised: both raise, or both have the same result. -/
theorem toOption_eq_iff {x y : Except ε α} :
    x.toOption = y.toOption ↔
      (∃ e e', x = .error e ∧ y = .error e') ∨ ∃ a, x = .ok a ∧ y = .ok a := by
  cases x <;> cases y <;> simp [Except.toOption, eq_comm]

end Result

end Lib
