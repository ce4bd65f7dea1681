import Mathlib.Logic.Function.Basic

/-!
# Overlays of a store

A store `f : α → β` is seen through an overlay that shows one mark at the armed positions
and `f` elsewhere. Arming and disarming a position and writing outside the armed positions
are updates of the visible store; the laws below say which overlay results.
-/

namespace Lib

universe u v

variable {α : Type u} {β : Type v}

/-- Show `mark` at the armed positions and the store elsewhere. -/
def overlay (mark : β) (armed : α → Bool) (f : α → β) : α → β :=
  fun x ↦ if armed x then mark else f x

/-- Write to the positions where `w` gives a value. -/
def applyWrite (w : α → Option β) (f : α → β) : α → β := fun x ↦ (w x).getD (f x)

variable {mark : β} {armed : α → Bool} {f g : α → β} {w : α → Option β} {a : α}

/-- An armed position shows the mark. -/
theorem overlay_of_armed (h : armed a = true) : overlay mark armed f a = mark := by
  simp only [overlay, h, ite_true]

/-- A position that is not armed shows the store. -/
theorem overlay_of_not_armed (h : armed a = false) : overlay mark armed f a = f a := by
  simp only [overlay, h, Bool.false_eq_true, ite_false]

/-- Without armed positions the store itself is seen. -/
theorem overlay_of_none (h : ∀ x, armed x = false) : overlay mark armed f = f :=
  funext fun x ↦ overlay_of_not_armed (h x)

/-- A position where nothing is written keeps its value. -/
theorem applyWrite_of_none (h : w a = none) : applyWrite w f a = f a := by
  simp only [applyWrite, h, Option.getD_none]

variable [DecidableEq α]

/-- Putting the mark at a position arms it. -/
theorem update_overlay_arm :
    Function.update (overlay mark armed f) a mark =
      overlay mark (Function.update armed a true) f := by
  funext x
  by_cases h : x = a
  · subst h
    simp [overlay]
  · simp [overlay, h]

/-- Putting the store's value back at a position disarms it. -/
theorem update_overlay_disarm :
    Function.update (overlay mark armed f) a (f a) =
      overlay mark (Function.update armed a false) f := by
  funext x
  by_cases h : x = a
  · subst h
    simp [overlay]
  · simp [overlay, h]

omit [DecidableEq α] in
/-- Writing outside the armed positions writes to the store below. -/
theorem applyWrite_overlay (h : ∀ x, armed x = true → w x = none) :
    applyWrite w (overlay mark armed f) = overlay mark armed (applyWrite w f) := by
  funext x
  cases hx : armed x with
  | true => rw [applyWrite_of_none (h x hx), overlay_of_armed hx, overlay_of_armed hx]
  | false => simp only [applyWrite, overlay_of_not_armed hx]

end Lib
