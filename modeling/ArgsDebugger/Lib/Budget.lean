import ArgsDebugger.Lib.Fallible
import ArgsDebugger.Lib.Loop
import Mathlib.Order.Filter.AtTopBot.Basic

/-!
# Computations on a budget

A fallible computation with fuelled loops in it is a function of the budget. `EndsIff f P`
says that its result does not depend on the budget and that there is one exactly when `P`
holds; a failure and a budget that is never enough both count as no result. The rules follow
the computation: what each part needs to end is found once, and the parts are joined without
a word about budgets.
-/

namespace Lib.Budget

open Filter

universe u v

variable {ε : Type u} {α β ρ : Type v}

/-- From some budget on the computation returns `a`. -/
def Settles (f : Nat → Except ε α) (a : α) : Prop := ∀ᶠ fuel in atTop, f fuel = .ok a

/-- A result on some budget is the result on all large ones, and there is one exactly
under the condition. -/
structure EndsIff (f : Nat → Except ε α) (P : Prop) : Prop where
  settles : ∀ fuel a, f fuel = .ok a → Settles f a
  ends : (∃ fuel a, f fuel = .ok a) ↔ P

/-- The result of a loop, or the given failure where its budget was too small. -/
def within (failure : ε) : Option α → Except ε α
  | none => .error failure
  | some a => .ok a

theorem within_eq_ok {failure : ε} {x : Option α} {a : α} :
    within failure x = .ok a ↔ x = some a := by
  cases x <;> simp [within]

/-- Related results of two loops on one budget. -/
theorem agree_within {failure : ε} {R : α → β → Prop} {x : Option α} {y : Option β}
    (h : Option.Rel R x y) : Agree R (within failure x) (within failure y) := by
  cases h with
  | none => exact .error failure
  | some h => exact .ok h

namespace EndsIff

variable {f : Nat → Except ε α} {g : Nat → α → Except ε β} {P Q : Prop}

/-- The result does not depend on the budget. -/
theorem unique (h : EndsIff f P) {n m : Nat} {a b : α} (ha : f n = .ok a) (hb : f m = .ok b) :
    a = b := by
  obtain ⟨k, hka, hkb⟩ := ((h.settles n a ha).and (h.settles m b hb)).exists
  rw [hka] at hkb
  exact Except.ok.inj hkb

/-- The condition may be replaced by an equivalent one. -/
theorem congr (h : EndsIff f P) (hPQ : P ↔ Q) : EndsIff f Q := ⟨h.settles, h.ends.trans hPQ⟩

/-- A computation without loops. -/
theorem const (x : Except ε α) : EndsIff (fun _ ↦ x) (∃ a, x = .ok a) where
  settles := fun _ _ h ↦ Eventually.of_forall fun _ ↦ h
  ends := exists_const Nat

/-- A computation that returns at once. -/
theorem ok (a : α) : EndsIff (fun _ ↦ (.ok a : Except ε α)) True :=
  (const _).congr ⟨fun _ ↦ trivial, fun _ ↦ ⟨a, rfl⟩⟩

/-- A loop on its budget. -/
theorem run (failure : ε) (body : β → α ⊕ β) (s : β) :
    EndsIff (fun fuel ↦ within failure (Loop.run body fuel s)) (Loop.Halts body s) where
  settles := by
    intro fuel r h
    rw [within_eq_ok] at h
    filter_upwards [eventually_ge_atTop fuel] with fuel' hle
    rw [within_eq_ok]
    exact Loop.run_mono hle h
  ends := by
    rw [exists_comm]
    exact exists_congr fun r ↦ exists_congr fun fuel ↦ within_eq_ok

/-- Two steps, where what the second needs may depend on the result of the first. -/
theorem bind {Q : α → Prop} (hf : EndsIff f P)
    (hg : ∀ fuel a, f fuel = .ok a → EndsIff (fun n ↦ g n a) (Q a)) :
    EndsIff (fun fuel ↦ f fuel >>= g fuel) (∃ fuel a, f fuel = .ok a ∧ Q a) where
  settles := by
    intro fuel b h
    obtain ⟨a, ha, hb⟩ := bind_eq_ok.mp h
    filter_upwards [hf.settles fuel a ha, (hg fuel a ha).settles fuel b hb] with n hna hnb
    rw [hna]
    exact hnb
  ends := by
    constructor
    · rintro ⟨fuel, b, h⟩
      obtain ⟨a, ha, hb⟩ := bind_eq_ok.mp h
      exact ⟨fuel, a, ha, (hg fuel a ha).ends.mp ⟨fuel, b, hb⟩⟩
    · rintro ⟨fuel, a, ha, hQ⟩
      obtain ⟨fuel', b, hb⟩ := (hg fuel a ha).ends.mpr hQ
      obtain ⟨n, hna, hnb⟩ :=
        ((hf.settles fuel a ha).and ((hg fuel a ha).settles fuel' b hb)).exists
      exact ⟨n, b, bind_eq_ok.mpr ⟨a, hna, hnb⟩⟩

/-- Two steps, where what the second needs is known beforehand. -/
theorem seq (hf : EndsIff f P) (hg : ∀ fuel a, f fuel = .ok a → EndsIff (fun n ↦ g n a) Q) :
    EndsIff (fun fuel ↦ f fuel >>= g fuel) (P ∧ Q) := by
  apply (hf.bind hg).congr
  rw [← hf.ends]
  simp only [exists_and_right]

/-- A function of the result. -/
theorem map (hf : EndsIff f P) (k : α → β) : EndsIff (fun fuel ↦ (f fuel).map k) P := by
  have hseq := hf.seq (g := fun _ a ↦ .ok (k a)) fun _ a _ ↦ ok (k a)
  rw [and_true] at hseq
  have heq : (fun fuel ↦ (f fuel).map k) = fun fuel ↦ f fuel >>= fun a ↦ .ok (k a) := by
    ext1 fuel
    cases f fuel <;> rfl
  rw [heq]
  exact hseq

/-- A computation for each element of a list, in order. -/
theorem mapM {f : Nat → ρ → Except ε α} {P : ρ → Prop} {l : List ρ}
    (h : ∀ x ∈ l, EndsIff (fun fuel ↦ f fuel x) (P x)) :
    EndsIff (fun fuel ↦ l.mapM (f fuel)) (∀ x ∈ l, P x) := by
  induction l with
  | nil => exact (ok []).congr (by simp)
  | cons x l ih =>
    have hx := h x List.mem_cons_self
    have hl := ih fun y hy ↦ h y (List.mem_cons_of_mem x hy)
    simp only [List.mapM_cons, List.forall_mem_cons]
    exact hx.seq fun _ y _ ↦ (hl.seq fun _ ys _ ↦ ok (y :: ys)).congr (Iff.of_eq (and_true _))

/-- A computation for what an option has, if anything. -/
theorem elim {f : ρ → Nat → Except ε α} {P : ρ → Prop} {o : Option ρ} (a : α)
    (h : ∀ x, o = some x → EndsIff (f x) (P x)) :
    EndsIff (fun fuel ↦ o.elim (.ok a) (f · fuel)) (∀ x, o = some x → P x) := by
  cases o with
  | none =>
    apply (ok a).congr
    simp only [reduceCtorEq, false_implies, implies_true]
  | some x =>
    apply (h x rfl).congr
    constructor
    · intro hx x' hx'
      cases hx'
      exact hx
    · intro hall
      exact hall x rfl

/-- One budget is enough for all elements of a list when each of them has one. -/
theorem exists_forall_iff {f : ρ → Nat → Except ε α} {P : ρ → Prop} {l : List ρ}
    (h : ∀ x ∈ l, EndsIff (f x) (P x)) :
    (∃ fuel, ∀ x ∈ l, ∃ a, f x fuel = .ok a) ↔ ∀ x ∈ l, P x := by
  constructor
  · rintro ⟨fuel, hall⟩ x hx
    exact (h x hx).ends.mp ⟨fuel, hall x hx⟩
  · intro hall
    have hsettles : ∀ᶠ fuel in atTop, ∀ x ∈ l, ∃ a, f x fuel = .ok a := by
      induction l with
      | nil => exact Eventually.of_forall fun _ _ hx ↦ absurd hx List.not_mem_nil
      | cons x l ih =>
        obtain ⟨fuel, a, ha⟩ := (h x List.mem_cons_self).ends.mpr (hall x List.mem_cons_self)
        have hrest := ih (fun y hy ↦ h y (List.mem_cons_of_mem x hy))
          fun y hy ↦ hall y (List.mem_cons_of_mem x hy)
        filter_upwards [(h x List.mem_cons_self).settles fuel a ha, hrest] with n hn hrestn
        rw [List.forall_mem_cons]
        exact ⟨⟨a, hn⟩, hrestn⟩
    exact hsettles.exists

/-- The results of two steps are those of the second behind a result of the first. -/
theorem exists_bind_eq_ok_iff {Q : α → Prop} {b : β} (hf : EndsIff f P)
    (hg : ∀ a, EndsIff (fun n ↦ g n a) (Q a)) :
    (∃ fuel, (f fuel >>= g fuel) = .ok b) ↔
      ∃ a, (∃ fuel, f fuel = .ok a) ∧ ∃ fuel, g fuel a = .ok b := by
  constructor
  · rintro ⟨fuel, h⟩
    obtain ⟨a, ha, hb⟩ := bind_eq_ok.mp h
    exact ⟨a, ⟨fuel, ha⟩, fuel, hb⟩
  · rintro ⟨a, ⟨fuel, ha⟩, fuel', hb⟩
    obtain ⟨n, hna, hnb⟩ := ((hf.settles fuel a ha).and ((hg a).settles fuel' b hb)).exists
    exact ⟨n, bind_eq_ok.mpr ⟨a, hna, hnb⟩⟩

/-- The results of a computation for each element are lists of results for each of them. -/
theorem exists_mapM_eq_ok_iff {f : Nat → ρ → Except ε α} {P : ρ → Prop} {l : List ρ}
    {results : List α} (h : ∀ x, EndsIff (fun fuel ↦ f fuel x) (P x)) :
    (∃ fuel, l.mapM (f fuel) = .ok results) ↔
      List.Forall₂ (fun x y ↦ ∃ fuel, f fuel x = .ok y) l results := by
  constructor
  · rintro ⟨fuel, hall⟩
    exact (mapM_eq_ok_iff.mp hall).imp fun _ _ hxy ↦ ⟨fuel, hxy⟩
  · intro hall
    induction hall with
    | nil => exact ⟨0, rfl⟩
    | @cons x y l results hxy _ ih =>
      simp only [List.mapM_cons]
      apply ((h x).exists_bind_eq_ok_iff fun y ↦ (mapM fun x _ ↦ h x).seq fun _ ys _ ↦
        ok (y :: ys)).mpr
      obtain ⟨fuel, hfuel⟩ := ih
      exact ⟨y, hxy, fuel, bind_eq_ok.mpr ⟨results, hfuel, rfl⟩⟩

end EndsIff

end Lib.Budget
