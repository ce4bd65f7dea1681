import Mathlib.Data.Nat.Digits.Defs

/-!
# Little-endian numbers

The number that the first bytes of a sequence spell, the lowest byte first. The bytes of a bit
vector spell its number; a longer number is split where a shorter one ends.
-/

namespace Lib

/-- The number spelled by the first `n` bytes of a sequence. -/
def leNat (f : ℕ → BitVec 8) (n : ℕ) : ℕ :=
  Nat.ofDigits 256 ((List.range n).map fun i ↦ (f i).toNat)

variable {f g : ℕ → BitVec 8} {a b n : ℕ}

@[simp] theorem leNat_zero : leNat f 0 = 0 := rfl

/-- A number is its low bytes and, above them, the bytes that follow. -/
theorem leNat_add : leNat f (a + b) = leNat f a + 256 ^ a * leNat (fun i ↦ f (a + i)) b := by
  simp only [leNat, List.range_add, List.map_append, List.map_map, Nat.ofDigits_append,
    List.length_map, List.length_range, Function.comp_def]

theorem leNat_one : leNat f 1 = (f 0).toNat := by
  simp [leNat]

theorem leNat_lt : leNat f n < 256 ^ n := by
  have hlt := Nat.ofDigits_lt_base_pow_length (b := 256)
    (l := (List.range n).map fun i ↦ (f i).toNat) (by omega) (by
      intro x hx
      obtain ⟨i, -, rfl⟩ := List.mem_map.mp hx
      exact (f i).isLt)
  rwa [List.length_map, List.length_range] at hlt

/-- The low bytes are the remainder. -/
theorem leNat_add_mod : leNat f (a + b) % 256 ^ a = leNat f a := by
  rw [leNat_add, Nat.add_mul_mod_self_left, Nat.mod_eq_of_lt leNat_lt]

theorem leNat_congr (h : ∀ i < n, f i = g i) : leNat f n = leNat g n := by
  unfold leNat
  congr 1
  apply List.map_congr_left
  intro i hi
  rw [h i (List.mem_range.mp hi)]

/-- Zero bytes spell zero. -/
theorem leNat_of_zero (h : ∀ i < n, f i = 0) : leNat f n = 0 := by
  induction n with
  | zero => rfl
  | succ n ih =>
    rw [leNat_add, ih fun i hi ↦ h i (by omega), leNat_one, Nat.add_zero, h n (by omega)]
    rfl

/-- The bytes of a bit vector spell its number, as far as they reach. -/
theorem leNat_extractLsb' {w : ℕ} (v : BitVec w) (n : ℕ) :
    leNat (fun i ↦ v.extractLsb' (8 * i) 8) n = v.toNat % 256 ^ n := by
  induction n with
  | zero => simp [Nat.mod_one]
  | succ n ih =>
    rw [leNat_add, ih, leNat_one, pow_succ, Nat.mod_mul, Nat.add_zero, BitVec.extractLsb'_toNat,
      Nat.shiftRight_eq_div_pow, pow_mul]
    rfl

/-- The bytes of a bit vector spell its number. -/
theorem leNat_extractLsb'_self (v : BitVec (8 * n)) :
    leNat (fun i ↦ v.extractLsb' (8 * i) 8) n = v.toNat := by
  have hlt : v.toNat < 256 ^ n := by
    have hfits := v.isLt
    rwa [pow_mul] at hfits
  rw [leNat_extractLsb', Nat.mod_eq_of_lt hlt]

end Lib
