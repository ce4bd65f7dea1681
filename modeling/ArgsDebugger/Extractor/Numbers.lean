import ArgsDebugger.ParameterExtractor
import ArgsDebugger.Lib.Separated

/-!
# Numbers read out of the debuggee

`get_number_data`, `src/parameter_extractor.cc:62–106`, reads every element through a word of
eight bytes at its address. The word's low half is the value, and its hexadecimal text decides
whether the elements end. What that makes of elements of one, two, four and eight bytes is
computed here from the elements and their neighbours.
-/

namespace ArgsDebugger

open Lib Lib.Budget

section Ends

theorem length_longToHexString {word : Word} (h : word ≠ 0) :
    (longToHexString word).length = (Nat.toDigits 16 word.toNat).length + 2 := by
  rw [longToHexString, if_neg h, List.length_cons, List.length_cons]

/-- A hexadecimal text has as many digits as its number needs. -/
theorem length_longToHexString_eq_iff (word : Word) {digits : Nat} (hdigits : 1 < digits)
    (hne : digits ≠ 2) :
    (longToHexString word).length = digits + 2 ↔
      16 ^ (digits - 1) ≤ word.toNat ∧ word.toNat < 16 ^ digits := by
  by_cases hword : word = 0
  · subst hword
    have hlength : (longToHexString 0).length = 4 := by decide
    have hpow : 0 < 16 ^ (digits - 1) := Nat.pow_pos (by omega)
    rw [hlength]
    simp only [BitVec.ofNat_eq_ofNat, BitVec.toNat_zero]
    omega
  · have hle := Nat.length_toDigits_le_iff (n := word.toNat) (k := digits) (b := 16) (by omega)
      (by omega)
    have hlt := Nat.length_toDigits_le_iff (n := word.toNat) (k := digits - 1) (b := 16) (by omega)
      (by omega)
    rw [length_longToHexString hword]
    omega

/-- A word ends the elements when its low half is zero, or it has 8 or 16 hexadecimal digits. -/
theorem endsNumbers_iff (word : Word) :
    endsNumbers word = true ↔ word.toNat % 0x100000000 = 0 ∨
      (0x10000000 ≤ word.toNat ∧ word.toNat < 0x100000000) ∨ 0x1000000000000000 ≤ word.toNat := by
  have hlow : word.setWidth 32 = 0#32 ↔ word.toNat % 0x100000000 = 0 := by
    rw [← BitVec.toNat_inj, BitVec.toNat_setWidth]
    simp
  have height := @length_longToHexString_eq_iff word 8 (by omega) (by omega)
  have hsixteen := @length_longToHexString_eq_iff word 16 (by omega) (by omega)
  have hlt := word.isLt
  norm_num at height hsixteen hlt
  simp only [endsNumbers, Bool.or_eq_true, beq_iff_eq, hlow, height, hsixteen]
  by_cases hones : word = allOnes
  · subst hones
    decide
  · simp only [hones, false_or]
    omega

end Ends

section Texts

/-- The text of an array of numbers. -/
def arrayText (values : List Int) : Text :=
  '[' :: (List.intercalate [','] (values.map decimal) ++ [']'])

/-- Different lists of numbers have different texts. -/
theorem numbersText_eq_arrayText_iff {values values' : List Int} (hne : values' ≠ []) :
    numbersText values = arrayText values' ↔ values = values' := by
  have hcomma : ∀ (l : List Int), ∀ w ∈ l.map decimal, ',' ∉ w := by
    intro l w hw
    obtain ⟨v, -, rfl⟩ := List.mem_map.mp hw
    exact notMem_decimal (by decide) (by decide) v
  constructor
  · intro h
    unfold numbersText arrayText at h
    split at h
    · cases h
    · next hvalues =>
      have hjoined := List.append_cancel_right (List.cons.inj h).2
      have hmaps := intercalate_inj (hcomma values) (hcomma values') (by simpa using hvalues)
        (by simpa using hne) hjoined
      exact List.map_injective_iff.mpr (fun v w ↦ decimal_inj) hmaps
  · rintro rfl
    exact if_neg hne

end Texts

section Elements

variable {k : Nat}

/-- Elements of `k` bytes stand at the address one behind the other, with a zero element behind
them, and the words at all of these can be read. -/
structure StoresNumbers (mem : Memory) (addr : Word) (values : List (BitVec (8 * k))) : Prop where
  byte : ∀ i, ∀ h : i < values.length, ∀ b < k,
    mem.bytes (addr + BitVec.ofNat 64 (i * k + b)) =
      (values.get ⟨i, h⟩).extractLsb' (8 * b) 8
  zero : ∀ b < k, mem.bytes (addr + BitVec.ofNat 64 (values.length * k + b)) = 0
  readable : ∀ i ≤ values.length, mem.wordReadable (addr + BitVec.ofNat 64 (i * k)) = true

/-- The word that the loop reads for an element. -/
def elementWord (mem : Memory) (addr : Word) (k j : Nat) : Word :=
  numberWord mem addr k (toInt32 j)

/-- The loop goes on at the word, and takes its low half for the value. -/
def Seen {w : Nat} (word : Word) (v : BitVec w) : Prop :=
  endsNumbers word = false ∧ (word.setWidth 32).toInt = v.toInt

/-- Each element is seen at its word, and the word behind the elements ends them. -/
structure ElementsSeen (mem : Memory) (addr : Word) (values : List (BitVec (8 * k))) : Prop where
  element : ∀ j, ∀ h : j < values.length, Seen (elementWord mem addr k j) (values.get ⟨j, h⟩)
  behind : endsNumbers (elementWord mem addr k values.length) = true

variable {mem : Memory} {addr : Word} {values : List (BitVec (8 * k))}

/-- The text of numbers is that of the elements exactly when all of them are seen. -/
theorem exists_getNumberData_iff (hne : values ≠ []) :
    (∃ fuel, getNumberData fuel mem addr k = .ok (arrayText (values.map (·.toInt)))) ↔
      ElementsSeen mem addr values := by
  have htext (data : List Int) : numbersText data = arrayText (values.map (·.toInt)) ↔
      data = values.map (·.toInt) := numbersText_eq_arrayText_iff (by simpa using hne)
  simp only [getNumberData, withinFuel, map_eq_ok, within_eq_ok, htext, exists_eq_right]
  refine Loop.ends_collect.trans ?_
  simp only [nextInt_iterate, List.nil_append]
  constructor
  · rintro ⟨n, hend, hbefore, hvalues⟩
    have hlen := congrArg List.length hvalues
    rw [List.length_map, List.length_map, List.length_range] at hlen
    subst hlen
    refine ⟨fun j hj ↦ ⟨hbefore j hj, ?_⟩, hend⟩
    have hat := congrArg (·[j]?) hvalues
    simp only [List.getElem?_map, List.getElem?_range hj, List.getElem?_eq_getElem hj,
      Option.map_some, Option.some.injEq] at hat
    exact hat.symm
  · intro h
    refine ⟨values.length, h.behind, fun j hj ↦ (h.element j hj).1, ?_⟩
    apply List.ext_getElem
    · simp
    · intro j hj hj'
      rw [List.length_map] at hj
      simp only [List.getElem_map, List.getElem_range]
      exact (h.element j hj).2.symm

end Elements

section Neighbours

variable {k : Nat} {mem : Memory} {addr : Word} {values : List (BitVec (8 * k))}

/-- The number spelled by some bytes from an element on. -/
def bytesFrom (mem : Memory) (addr : Word) (k j n : Nat) : Nat :=
  leNat (fun b ↦ mem.bytes (addr + BitVec.ofNat 64 (j * k + b))) n

/-- Behind the bytes of an element come those of the next one. -/
theorem bytesFrom_add (mem : Memory) (addr : Word) (k j n : Nat) :
    bytesFrom mem addr k j (k + n) =
      bytesFrom mem addr k j k + 256 ^ k * bytesFrom mem addr k (j + 1) n := by
  simp only [bytesFrom, leNat_add, Nat.succ_mul, Nat.add_assoc]

/-- The low bytes of a number are those of the element. -/
theorem bytesFrom_mod (mem : Memory) (addr : Word) (k j m n : Nat) :
    bytesFrom mem addr k j (m + n) % 256 ^ m = bytesFrom mem addr k j m := leNat_add_mod

theorem bytesFrom_lt (mem : Memory) (addr : Word) (k j n : Nat) :
    bytesFrom mem addr k j n < 256 ^ n := leNat_lt

namespace StoresNumbers

variable (h : StoresNumbers mem addr values)

include h

theorem bytesFrom_eq {j : Nat} (hj : j < values.length) :
    bytesFrom mem addr k j k = (values.get ⟨j, hj⟩).toNat := by
  rw [← leNat_extractLsb'_self (values.get ⟨j, hj⟩)]
  exact leNat_congr fun b hb ↦ h.byte j hj b hb

theorem bytesFrom_length : bytesFrom mem addr k values.length k = 0 :=
  leNat_of_zero h.zero

/-- The word of an element is the one stored at its address. -/
theorem elementWord_eq (hk : k ≠ 0) {j : Nat} (hj : j ≤ values.length) (hlt : j < 0x80000000) :
    elementWord mem addr k j = mem.word (addr + BitVec.ofNat 64 (j * k)) := by
  have haddress : numberAddress addr k (toInt32 j) = addr + BitVec.ofNat 64 (j * k) := by
    rw [numberAddress, if_neg (by omega), toInt32_of_lt hlt, ← Int.natCast_mul,
      BitVec.ofInt_natCast]
  rw [elementWord, numberWord, haddress, Memory.peekData, if_pos (h.readable j hj)]

/-- The number of an element's word: the bytes from the element on. -/
theorem toNat_elementWord (hk : k ≠ 0) {j : Nat} (hj : j ≤ values.length)
    (hlt : j < 0x80000000) :
    (elementWord mem addr k j).toNat = bytesFrom mem addr k j 8 := by
  rw [h.elementWord_eq hk hj hlt, Memory.toNat_word]
  apply leNat_congr
  intro b _
  rw [BitVec.ofNat_add, BitVec.add_assoc]

end StoresNumbers

/-- When a value is seen at a word, in numbers. -/
theorem seen_iff {w : Nat} {word : Word} {v : BitVec w} :
    Seen word v ↔ word.toNat % 0x100000000 ≠ 0 ∧
      (word.toNat < 0x10000000 ∨ 0x100000000 ≤ word.toNat) ∧ word.toNat < 0x1000000000000000 ∧
      v.toInt = if word.toNat % 0x100000000 < 0x80000000 then (word.toNat % 0x100000000 : Int)
        else (word.toNat % 0x100000000 : Int) - 0x100000000 := by
  have hlow : (word.setWidth 32).toInt =
      if word.toNat % 0x100000000 < 0x80000000 then (word.toNat % 0x100000000 : Int)
      else (word.toNat % 0x100000000 : Int) - 0x100000000 := by
    rw [BitVec.toInt_eq_toNat_cond, BitVec.toNat_setWidth]
    norm_num
    split_ifs <;> omega
  rw [Seen, ← Bool.not_eq_true, endsNumbers_iff, hlow, eq_comm (b := v.toInt), not_or, not_or,
    not_and_or, not_le, not_lt, not_le, and_assoc, and_assoc]

/-- An element of eight bytes, which is its own word. -/
theorem seen_eight_iff {v : BitVec (8 * 8)} {word : Word} (hword : word.toNat = v.toNat)
    (hne : v.toNat ≠ 0) : Seen word v ↔ v.toNat < 0x10000000 := by
  have hfits := v.isLt
  rw [seen_iff, hword, BitVec.toInt_eq_toNat_cond]
  norm_num at hfits ⊢
  split_ifs <;> omega

/-- An element of four bytes, with the next one in the high half of its word: the higher one of the
two that is not zero must be small. -/
theorem seen_four_iff {v : BitVec (8 * 4)} {word : Word} {next : Nat}
    (hword : word.toNat = v.toNat + 0x100000000 * next) (hne : v.toNat ≠ 0) :
    Seen word v ↔ if next = 0 then v.toNat < 0x10000000 else next < 0x10000000 := by
  have hfits := v.isLt
  rw [seen_iff, hword, BitVec.toInt_eq_toNat_cond]
  norm_num at hfits ⊢
  split_ifs <;> omega

/-- An element of one or two bytes: what stands above it in the low half of its word only extends
its sign. -/
theorem extends_of_seen (hk : k = 1 ∨ k = 2) {v : BitVec (8 * k)} {word : Word} {above : Nat}
    (hword : word.toNat % 0x100000000 = v.toNat + 256 ^ k * above) (habove : above < 256 ^ (4 - k))
    (h : Seen word v) :
    0 ≤ v.toInt ∧ above = 0 ∨ v.toInt < 0 ∧ above % 256 ^ k = 256 ^ k - 1 := by
  have hfits := v.isLt
  rw [seen_iff, hword, BitVec.toInt_eq_toNat_cond] at h
  rw [BitVec.toInt_eq_toNat_cond]
  rcases hk with rfl | rfl
  all_goals
    norm_num at hfits habove h ⊢
    split_ifs at h ⊢ <;> omega

/-- A positive element of one or two bytes with zeros above it. -/
theorem seen_of_positive (hk : k = 1 ∨ k = 2) {v : BitVec (8 * k)} {word : Word}
    (hpos : 0 < v.toInt) (hword : word.toNat % 0x100000000 = v.toNat)
    (hlt : word.toNat < 0x1000000000000000) : Seen word v := by
  have hfits := v.isLt
  rw [BitVec.toInt_eq_toNat_cond] at hpos
  rw [seen_iff, hword, BitVec.toInt_eq_toNat_cond]
  rcases hk with rfl | rfl
  all_goals
    norm_num at hfits hpos ⊢
    split_ifs at hpos ⊢ <;> omega

/-- All ones are a negative number. -/
theorem toInt_neg_of_ones (hk : k = 1 ∨ k = 2) {v : BitVec (8 * k)}
    (h : v.toNat = 256 ^ k - 1) : v.toInt < 0 := by
  rw [BitVec.toInt_eq_toNat_cond]
  rcases hk with rfl | rfl
  all_goals
    norm_num at h ⊢
    split_ifs <;> omega

/-- A number that is not zero. -/
theorem toNat_ne_zero (hvalues : ∀ v ∈ values, v ≠ 0) {j : Nat} (hj : j < values.length) :
    (values.get ⟨j, hj⟩).toNat ≠ 0 := by
  intro hzero
  exact hvalues _ (List.get_mem ..) (BitVec.eq_of_toNat_eq hzero)

/-- Elements of eight bytes are seen when all of them are small. -/
theorem StoresNumbers.elementsSeen_eight_iff {values : List (BitVec (8 * 8))}
    (h : StoresNumbers mem addr values) (hvalues : ∀ v ∈ values, v ≠ 0)
    (hlen : values.length < 0x80000000) :
    ElementsSeen mem addr values ↔ ∀ v ∈ values, v.toNat < 0x10000000 := by
  have hword : ∀ j, ∀ hj : j < values.length,
      (elementWord mem addr 8 j).toNat = (values.get ⟨j, hj⟩).toNat := by
    intro j hj
    rw [h.toNat_elementWord (by omega) (by omega) (by omega), h.bytesFrom_eq hj]
  constructor
  · intro hseen v hv
    obtain ⟨⟨j, hj⟩, rfl⟩ := List.mem_iff_get.mp hv
    exact (seen_eight_iff (hword j hj) (toNat_ne_zero hvalues hj)).mp (hseen.element j hj)
  · intro hsmall
    constructor
    · intro j hj
      apply (seen_eight_iff (hword j hj) (toNat_ne_zero hvalues hj)).mpr
      exact hsmall _ (List.get_mem ..)
    · rw [endsNumbers_iff, h.toNat_elementWord (by omega) le_rfl hlen, h.bytesFrom_length]
      exact .inl rfl

section Four

variable {values : List (BitVec (8 * 4))} (h : StoresNumbers mem addr values)
  (hlen : values.length < 0x80000000)

include h hlen

/-- The word of an element of four bytes: the element, and above it the next one. -/
theorem StoresNumbers.toNat_elementWord_four {j : Nat} (hj : j ≤ values.length) :
    (elementWord mem addr 4 j).toNat =
      bytesFrom mem addr 4 j 4 + 0x100000000 * bytesFrom mem addr 4 (j + 1) 4 := by
  rw [h.toNat_elementWord (by omega) hj (by omega)]
  exact bytesFrom_add mem addr 4 j 4

/-- An element of four bytes is seen when the next one is small, or, behind the last one, when it
is small itself. -/
theorem StoresNumbers.seen_element_iff (hvalues : ∀ v ∈ values, v ≠ 0) {j : Nat}
    (hj : j < values.length) :
    Seen (elementWord mem addr 4 j) (values.get ⟨j, hj⟩) ↔
      if hnext : j + 1 < values.length then (values.get ⟨j + 1, hnext⟩).toNat < 0x10000000
      else (values.get ⟨j, hj⟩).toNat < 0x10000000 := by
  have hword := h.toNat_elementWord_four hlen (Nat.le_of_lt hj)
  rw [h.bytesFrom_eq hj] at hword
  rw [seen_four_iff hword (toNat_ne_zero hvalues hj)]
  by_cases hnext : j + 1 < values.length
  · rw [dif_pos hnext, h.bytesFrom_eq hnext, if_neg (toNat_ne_zero hvalues hnext)]
  · have hend : j + 1 = values.length := by omega
    rw [dif_neg hnext, hend, h.bytesFrom_length, if_pos rfl]

/-- Elements of four bytes are seen when the last one and all but the first are small. -/
theorem StoresNumbers.elementsSeen_four_iff (hvalues : ∀ v ∈ values, v ≠ 0) :
    ElementsSeen mem addr values ↔ (∀ v ∈ values.tail, v.toNat < 0x10000000) ∧
      ∀ v ∈ values.getLast?, v.toNat < 0x10000000 := by
  constructor
  · intro hall
    constructor
    · intro v hv
      obtain ⟨⟨j, hj⟩, rfl⟩ := List.mem_iff_get.mp hv
      have hnext : j + 1 < values.length := by
        rw [List.length_tail] at hj
        omega
      have hsmall := (h.seen_element_iff hlen hvalues (by omega)).mp (hall.element j (by omega))
      rw [dif_pos hnext] at hsmall
      rwa [List.get_eq_getElem, List.getElem_tail]
    · intro v hv
      rw [List.getLast?_eq_getElem?] at hv
      obtain ⟨hj, rfl⟩ := List.getElem?_eq_some_iff.mp hv
      have hsmall := (h.seen_element_iff hlen hvalues hj).mp (hall.element _ hj)
      rwa [dif_neg (by omega)] at hsmall
  · rintro ⟨htail, hlast⟩
    constructor
    · intro j hj
      apply (h.seen_element_iff hlen hvalues hj).mpr
      split
      · next hnext =>
        apply htail
        rw [List.mem_iff_get]
        refine ⟨⟨j, by rw [List.length_tail]; omega⟩, ?_⟩
        rw [List.get_eq_getElem, List.getElem_tail]
        rfl
      · next hnext =>
        apply hlast
        have hend : values.length - 1 = j := by omega
        rw [List.getLast?_eq_getElem?, hend]
        exact List.getElem?_eq_getElem hj
    · rw [endsNumbers_iff, h.toNat_elementWord_four hlen le_rfl, h.bytesFrom_length, Nat.zero_add]
      exact .inl (Nat.mul_mod_right ..)

end Four

/-- The first element's word. -/
theorem StoresNumbers.elementWord_zero (h : StoresNumbers mem addr values) (hk : k ≠ 0) :
    elementWord mem addr k 0 = mem.word addr := by
  rw [h.elementWord_eq hk (Nat.zero_le _) (by omega), Nat.zero_mul]
  exact congrArg mem.word (BitVec.add_zero addr)

section Short

variable (hk : k = 1 ∨ k = 2)

include hk

/-- The low half of a word holds more than one element. -/
theorem bytesFrom_above (mem : Memory) (addr : Word) (j : Nat) :
    bytesFrom mem addr k j (4 - k) % 256 ^ k = bytesFrom mem addr k j k := by
  rw [show 4 - k = k + (4 - 2 * k) by omega]
  exact bytesFrom_mod mem addr k j k _

variable (h : StoresNumbers mem addr values) (hlen : values.length < 0x80000000)

include h hlen

/-- The low half of an element's word: its bytes, and above them those behind it. -/
theorem StoresNumbers.lowHalf_elementWord {j : Nat} (hj : j ≤ values.length) :
    (elementWord mem addr k j).toNat % 0x100000000 =
      bytesFrom mem addr k j k + 256 ^ k * bytesFrom mem addr k (j + 1) (4 - k) := by
  rw [h.toNat_elementWord (by omega) hj (by omega), ← bytesFrom_add,
    show k + (4 - k) = 4 by omega]
  exact bytesFrom_mod mem addr k j 4 4

/-- Behind a seen element stand zeros when it is not negative, and otherwise ones. -/
theorem StoresNumbers.extends_of_elementsSeen (hall : ElementsSeen mem addr values) {j : Nat}
    (hj : j < values.length) :
    0 ≤ (values.get ⟨j, hj⟩).toInt ∧ bytesFrom mem addr k (j + 1) (4 - k) = 0 ∨
      (values.get ⟨j, hj⟩).toInt < 0 ∧ bytesFrom mem addr k (j + 1) k = 256 ^ k - 1 := by
  have hword := h.lowHalf_elementWord hk hlen (Nat.le_of_lt hj)
  rw [h.bytesFrom_eq hj] at hword
  rw [← bytesFrom_above hk]
  exact extends_of_seen hk hword (bytesFrom_lt ..) (hall.element j hj)

/-- The last element is followed by zeros, so it is not negative. -/
theorem StoresNumbers.nonneg_last (hall : ElementsSeen mem addr values)
    (hpos : 0 < values.length) :
    0 ≤ (values.get ⟨values.length - 1, by omega⟩).toInt ∧
      bytesFrom mem addr k values.length (4 - k) = 0 := by
  have hpow : 1 < 256 ^ k := Nat.one_lt_pow (by omega) (by omega)
  have hend : values.length - 1 + 1 = values.length := by omega
  have hcases := h.extends_of_elementsSeen hk hlen hall (show values.length - 1 < _ by omega)
  rw [hend, h.bytesFrom_length] at hcases
  omega

/-- A seen element cannot stand in front of another: neither zeros nor ones are the last one. -/
theorem StoresNumbers.length_eq_one (hvalues : ∀ v ∈ values, v ≠ 0)
    (hall : ElementsSeen mem addr values) (hpos : 0 < values.length) : values.length = 1 := by
  by_contra hmany
  have hlast := h.nonneg_last hk hlen hall hpos
  have hnext : values.length - 2 + 1 = values.length - 1 := by omega
  have hlastNat := h.bytesFrom_eq (show values.length - 1 < values.length by omega)
  rcases h.extends_of_elementsSeen hk hlen hall (show values.length - 2 < _ by omega) with
    ⟨-, hzeros⟩ | ⟨-, hones⟩
  · have hnat := bytesFrom_above hk mem addr (values.length - 1)
    rw [hnext] at hzeros
    rw [hzeros, Nat.zero_mod, hlastNat] at hnat
    exact toNat_ne_zero hvalues _ hnat.symm
  · rw [hnext, hlastNat] at hones
    exact absurd hlast.1 (not_le.mpr (toInt_neg_of_ones hk hones))

/-- Elements of one or two bytes are seen when there is one of them, it is positive, and what
stands around the zero element behind it fits. -/
theorem StoresNumbers.elementsSeen_short_iff (hne : values ≠ []) (hvalues : ∀ v ∈ values, v ≠ 0) :
    ElementsSeen mem addr values ↔ ∃ v, values = [v] ∧ 0 < v.toInt ∧
      (mem.word addr).toNat % 0x100000000 = v.toNat ∧
      (mem.word addr).toNat < 0x1000000000000000 ∧
      endsNumbers (mem.word (addr + BitVec.ofNat 64 k)) = true := by
  have hzero : k ≠ 0 := by omega
  have hfirst := h.elementWord_zero hzero
  constructor
  · intro hall
    have hpos := List.length_pos_of_ne_nil hne
    have hlast := h.nonneg_last hk hlen hall hpos
    obtain ⟨v, rfl⟩ := List.length_eq_one_iff.mp (h.length_eq_one hk hlen hvalues hall hpos)
    have hvne : v.toInt ≠ 0 := by
      intro hzeroInt
      apply hvalues v (List.mem_singleton.mpr rfl)
      exact BitVec.eq_of_toInt_eq (hzeroInt.trans BitVec.toInt_zero.symm)
    have hvpos : 0 ≤ v.toInt := hlast.1
    have hword := h.lowHalf_elementWord hk hlen (Nat.zero_le _)
    have habove : bytesFrom mem addr k (0 + 1) (4 - k) = 0 := hlast.2
    rw [hfirst, habove, h.bytesFrom_eq Nat.one_pos, Nat.mul_zero, Nat.add_zero] at hword
    have hseen := hall.element 0 Nat.one_pos
    have hbehind := hall.behind
    rw [hfirst] at hseen
    rw [h.elementWord_eq hzero le_rfl hlen, List.length_singleton, Nat.one_mul] at hbehind
    exact ⟨v, rfl, by omega, hword, (seen_iff.mp hseen).2.2.1, hbehind⟩
  · rintro ⟨v, rfl, hpos, hword, hlt, hbehind⟩
    constructor
    · intro j hj
      have hj0 : j = 0 := by
        rw [List.length_singleton] at hj
        omega
      subst hj0
      rw [hfirst]
      exact seen_of_positive hk hpos hword hlt
    · rw [h.elementWord_eq hzero le_rfl hlen, List.length_singleton, Nat.one_mul]
      exact hbehind

end Short

/-- What the elements and the memory behind them must be for the elements to be read: of eight
bytes, all of them below 2²⁸; of four, the last one and all but the first; of one or two bytes, a
single positive one, with zeros above it in the low half of its word, a word below 2⁶⁰, and a word
behind it that ends the elements. -/
def ReadableNumbers (mem : Memory) (addr : Word) (values : List (BitVec (8 * k))) : Prop :=
  if k = 8 then ∀ v ∈ values, v.toNat < 0x10000000
  else if k = 4 then (∀ v ∈ values.tail, v.toNat < 0x10000000) ∧
    ∀ v ∈ values.getLast?, v.toNat < 0x10000000
  else ∃ v, values = [v] ∧ 0 < v.toInt ∧ (mem.word addr).toNat % 0x100000000 = v.toNat ∧
    (mem.word addr).toNat < 0x1000000000000000 ∧
    endsNumbers (mem.word (addr + BitVec.ofNat 64 k)) = true

/-- The elements are seen exactly when they can be read. -/
theorem StoresNumbers.elementsSeen_iff (hk : k ∈ [1, 2, 4, 8])
    (h : StoresNumbers mem addr values) (hne : values ≠ []) (hvalues : ∀ v ∈ values, v ≠ 0)
    (hlen : values.length < 0x80000000) :
    ElementsSeen mem addr values ↔ ReadableNumbers mem addr values := by
  simp only [List.mem_cons, List.not_mem_nil, or_false] at hk
  unfold ReadableNumbers
  by_cases height : k = 8
  · subst height
    rw [if_pos rfl]
    exact h.elementsSeen_eight_iff hvalues hlen
  · rw [if_neg height]
    by_cases hfour : k = 4
    · subst hfour
      rw [if_pos rfl]
      exact h.elementsSeen_four_iff hlen hvalues
    · rw [if_neg hfour]
      exact h.elementsSeen_short_iff (by omega) hlen hne hvalues

end Neighbours

/-- Arrays of numbers: the text is that of the elements exactly when the loop goes on at the word
of each element, takes its value from there, and ends at the word behind them. For fewer than 2³¹
elements, which an `int` counts, that is a condition on the elements and on the memory next to
them. -/
theorem numbers_readBack_iff {k : Nat} (hk : k ∈ [1, 2, 4, 8]) {mem : Memory} {addr : Word}
    {values : List (BitVec (8 * k))} (hne : values ≠ []) (hvalues : ∀ v ∈ values, v ≠ 0)
    (h : StoresNumbers mem addr values) :
    ((∃ fuel, getNumberData fuel mem addr k = .ok (arrayText (values.map (·.toInt)))) ↔
      ElementsSeen mem addr values) ∧
    (values.length < 0x80000000 →
      (ElementsSeen mem addr values ↔ ReadableNumbers mem addr values)) :=
  ⟨exists_getNumberData_iff hne, h.elementsSeen_iff hk hne hvalues⟩

/-- A memory of zeros but for some bytes from address 16 on. -/
def bytesMemory (bytes : List Byte) : Memory where
  bytes := fun a ↦ bytes.getD (a - 16).toNat 0
  readable := fun _ ↦ true

/-- The four-byte numbers `-1, 5`: the sign of the first is not seen. -/
theorem numbers_readBack_iff_sample :
    ∃ fuel, getNumberData fuel (bytesMemory [0xff, 0xff, 0xff, 0xff, 5]) 16 4 =
      .ok "[-1,5]".toList := by
  have hstores : StoresNumbers (k := 4) (bytesMemory [0xff, 0xff, 0xff, 0xff, 5]) 16
      [0xffffffff, 5] := ⟨by decide +kernel, by decide +kernel, by decide +kernel⟩
  have hiff := numbers_readBack_iff (k := 4) (by decide) (by simp)
    (by simp) hstores
  exact hiff.1.mpr ((hiff.2 (by simp)).mpr ⟨by simp, by simp⟩)

/-- The four-byte number `-1`, alone, is not shown at all. -/
theorem not_numbers_readBack :
    ¬ ∀ k ∈ [1, 2, 4, 8], ∀ (mem : Memory) (addr : Word) (values : List (BitVec (8 * k))),
      values ≠ [] → (∀ v ∈ values, v ≠ 0) → StoresNumbers mem addr values →
      ∃ fuel, getNumberData fuel mem addr k = .ok (arrayText (values.map (·.toInt))) := by
  intro h
  have hstores : StoresNumbers (k := 4) (bytesMemory [0xff, 0xff, 0xff, 0xff]) 16
      [0xffffffff] := ⟨by decide +kernel, by decide +kernel, by decide +kernel⟩
  have hread := h 4 (by decide) _ 16 [0xffffffff] (by simp) (by simp) hstores
  have hseen := (exists_getNumberData_iff (by simp)).mp hread
  have hsmall := (hstores.elementsSeen_four_iff (by simp) (by simp)).mp hseen
  exact absurd (hsmall.2 _ rfl) (by decide)

end ArgsDebugger
