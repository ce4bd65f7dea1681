import ArgsDebugger.Common
import ArgsDebugger.Lib.Budget

/-!
# Rendering values out of the debuggee

`src/parameter_extractor.cc` and `src/helpers.cc:8–15`. A number, a character or an address is
shown with what it points to, which is read word by word until a word ends it. The loops run
on a budget. The debuggee stands still, so that memory does not change between two words. For
each reader stands, beside it, when its words end.
-/

namespace ArgsDebugger

open Lib Lib.Budget

/-- The result of a loop, unless it used up its budget. -/
def withinFuel {α : Type} (result : Option α) : Except Failure α := within .outOfFuel result

/-- `++index` on an `int`. -/
def nextInt (index : Int) : Int := toInt32 (index + 1)

/-- Counting up from zero. -/
theorem nextInt_iterate (n : Nat) : nextInt^[n] 0 = toInt32 n := by
  induction n with
  | zero => rfl
  | succ n ih =>
    rw [Function.iterate_succ_apply', ih, nextInt, toInt32_toInt32_add, Int.natCast_succ]

theorem nextInt_iterate_of_lt {n : Nat} (h : n < 0x80000000) : nextInt^[n] 0 = n := by
  rw [nextInt_iterate, toInt32_of_lt h]

/-- `poc::helpers::long_to_hex_string`, `src/helpers.cc:8–15`. -/
def longToHexString (value : Word) : Text :=
  if value = 0 then "*0x0".toList else '0' :: 'x' :: Nat.toDigits 16 value.toNat

/-- `string_types`, `src/parameter_extractor.hpp:14–16`. -/
def stringTypes : List Text := ["signed char".toList, "char".toList, "unsigned char".toList]

/-- `number_types`, `src/parameter_extractor.hpp:18–26`. -/
def numberTypes : List Text :=
  ["short".toList, "bool".toList, "int".toList, "long".toList, "float".toList, "double".toList,
    "long long".toList, "long int".toList, "unsigned short".toList, "signed int".toList,
    "signed long".toList, "signed long long".toList, "signed short".toList,
    "long double".toList, "long unsigned int".toList, "unsigned int".toList, "signed".toList,
    "long double".toList, "unsigned".toList]

/-- `is_number_value`, `src/parameter_extractor.cc:131–138`. -/
def isNumberValue (typeName : Text) : Bool := numberTypes.any (containsString typeName)

/-- `is_string_value`, `src/parameter_extractor.cc:187–194`. -/
def isStringValue (typeName : Text) : Bool := stringTypes.any (containsString typeName)

/-- The address of an element in `get_number_data`: elements without a size lie four bytes
apart (`src/parameter_extractor.cc:73–75`). -/
def numberAddress (addr : Word) (byteSize index : Int) : Word :=
  if byteSize = 0 then addr + BitVec.ofInt 64 index * 8 / 2
  else addr + BitVec.ofInt 64 (index * byteSize)

/-- The word of an element. -/
def numberWord (mem : Memory) (addr : Word) (byteSize index : Int) : Word :=
  mem.peekData (numberAddress addr byteSize index)

/-- A word that ends the elements: unreadable, zero in its low half, or of 8 or 16 digits
(`src/parameter_extractor.cc:77–88`). -/
def endsNumbers (word : Word) : Bool :=
  word == allOnes || word.setWidth 32 == 0#32 ||
    (longToHexString word).length == 18 || (longToHexString word).length == 10

/-- The text of the elements (`src/parameter_extractor.cc:94–105`). -/
def numbersText (values : List Int) : Text :=
  if values = [] then [] else '[' :: (List.intercalate [','] (values.map decimal) ++ [']'])

/-- `get_number_data`, `src/parameter_extractor.cc:62–106`. -/
def getNumberData (fuel : Nat) (mem : Memory) (addr : Word) (byteSize : Int) :
    Except Failure Text :=
  (withinFuel (Loop.run (Loop.collect (fun index ↦ endsNumbers (numberWord mem addr byteSize index))
    nextInt fun index ↦ ((numberWord mem addr byteSize index).setWidth 32).toInt)
    fuel (0, []))).map numbersText

/-- `isprint` in the C locale, on the byte of a `char`. -/
def isPrint (c : Byte) : Bool := decide (0x20#8 ≤ c) && decide (c ≤ 0x7e#8)

/-- The inner loop of `get_char_data` over the characters of a word: the text so far and
whether it was left, by a newline or a character that cannot be shown. -/
def charsOf : List Byte → Text → Text × Bool
  | [], result => (result, false)
  | c :: chars, result =>
    if c = 0x0a#8 then (result, true)
    else if isPrint c then charsOf chars (result ++ decimal c.toNat)
    else (result, true)

/-- The characters of a word. -/
def wordChars (word : Word) : List Byte := (List.range 8).map (wordByte word)

/-- The word at an index of `get_char_data` and `get_address_data`. -/
def addressAt (addr : Word) (index : Int) : Word := addr + BitVec.ofInt 64 index * 8

/-- An iteration of the loop of `get_char_data`. When all eight characters were shown, the code
looks at the byte behind them, which is `beyond`. -/
def charBody (mem : Memory) (beyond : Byte) (addr : Word) (s : Int × Text) :
    Text ⊕ (Int × Text) :=
  let word := mem.peekData (addressAt addr s.1)
  if word = allOnes then .inl s.2
  else
    let (result, left) := charsOf (wordChars word) s.2
    if left ∨ beyond = 0x0a#8 then .inl result else .inr (nextInt s.1, result)

/-- `get_char_data`, `src/parameter_extractor.cc:21–60`. Its index is not initialised. -/
def getCharData (fuel : Nat) (mem : Memory) (index : Int) (beyond : Byte) (addr : Word) :
    Except Failure Text :=
  withinFuel (Loop.run (charBody mem beyond addr) fuel (index, []))

/-- A word that ends the addresses (`src/parameter_extractor.cc:115–121`). -/
def endsAddresses (word : Word) : Bool := word == allOnes || word == 0

/-- `get_address_data`, `src/parameter_extractor.cc:108–129`. -/
def getAddressData (fuel : Nat) (mem : Memory) (addr : Word) : Except Failure (List Word) :=
  withinFuel (Loop.run (Loop.collect
    (fun index ↦ endsAddresses (mem.peekData (addressAt addr index))) nextInt (addressAt addr))
    fuel (0, []))

/-- What the debugger reads of its own memory without having written it. -/
structure Uninitialised where
  /-- `index` and `chars[8]` in `get_char_data`, when it runs for an address; where it runs for one
  address twice, it finds the same. -/
  charIndex : Word → Int
  beyond : Word → Byte
  /-- `is_complex` of the parameter with an index. -/
  isComplex : Nat → Bool
  /-- The fields of a member's `sdb_parameter_t` that are no strings and no vectors. -/
  member : SdbEntry

/-- `get_number_value`, `src/parameter_extractor.cc:140–162`. -/
def getNumberValue (fuel : Nat) (mem : Memory) (param : SdbEntry) (value : Word)
    (isArrayType : Bool) : Except Failure SdbEntry :=
  if isArrayType = false then
    if value = 0 then .ok { param with value := "0".toList }
    else .ok { param with value := decimal value.toInt }
  else if value = 0 then .ok { param with value := "0x0".toList }
  else (getNumberData fuel mem value param.byteSize).map fun data ↦
    { param with value := longToHexString value, valueAlias := data }

/-- `get_string_value`, `src/parameter_extractor.cc:196–208`. -/
def getStringValue (fuel : Nat) (mem : Memory) (u : Uninitialised) (param : SdbEntry)
    (value : Word) (isArrayType : Bool) : Except Failure SdbEntry :=
  if isArrayType = false then .ok { param with value := decimal value.toInt }
  else (getCharData fuel mem (u.charIndex value) (u.beyond value) value).map fun data ↦
    { param with value := longToHexString value, valueAlias := data }

/-- The alias of an array of pointers: each pointer with what was read behind it. -/
def multiAlias : List (Word × Text) → Text
  | [] => "]".toList
  | [(addr, data)] => longToHexString addr ++ '=' :: data ++ " ]".toList
  | (addr, data) :: items => longToHexString addr ++ '=' :: data ++ ", ".toList ++ multiAlias items

/-- The pointers that `get_address_data` finds, each with what `read` makes of it. -/
def getMultiValue (fuel : Nat) (mem : Memory) (read : Word → Except Failure Text)
    (param : SdbEntry) (value : Word) : Except Failure SdbEntry := do
  let addrs ← getAddressData fuel mem value
  let items ← addrs.mapM fun address ↦
    (read (mem.peekData address)).map fun data ↦ (mem.peekData address, data)
  .ok { param with valueAlias := "[ ".toList ++ multiAlias items }

/-- `get_multi_number_value`, `src/parameter_extractor.cc:164–184`. -/
def getMultiNumberValue (fuel : Nat) (mem : Memory) (param : SdbEntry) (value : Word) :
    Except Failure SdbEntry :=
  getMultiValue fuel mem (fun addr ↦ getNumberData fuel mem addr param.byteSize) param value

/-- `get_multi_string_value`, `src/parameter_extractor.cc:210–230`. -/
def getMultiStringValue (fuel : Nat) (mem : Memory) (u : Uninitialised) (param : SdbEntry)
    (value : Word) : Except Failure SdbEntry :=
  getMultiValue fuel mem
    (fun addr ↦ getCharData fuel mem (u.charIndex addr) (u.beyond addr) addr) param value

section Ends

variable (mem : Memory) (u : Uninitialised) (param : SdbEntry)

/-- Some element behind the address ends the numbers. -/
def NumberDataEnds (byteSize : Int) (addr : Word) : Prop :=
  ∃ k, endsNumbers (numberWord mem addr byteSize (nextInt^[k] 0)) = true

/-- A word of characters that ends the text: unreadable, or with a character that cannot be
shown, or in front of a newline. -/
def endsChars (beyond : Byte) (word : Word) : Bool :=
  word == allOnes || (wordChars word).any (fun c ↦ !isPrint c) || beyond == 0x0a#8

/-- Some word behind the address ends the characters. -/
def CharDataEnds (addr : Word) : Prop :=
  ∃ k, endsChars (u.beyond addr)
    (mem.peekData (addressAt addr (nextInt^[k] (u.charIndex addr)))) = true

/-- Some word behind the address ends the pointers, and those before it satisfy `inner`. -/
def AddressDataEnds (inner : Word → Prop) (addr : Word) : Prop :=
  ∃ k, endsAddresses (mem.peekData (addressAt addr (nextInt^[k] 0))) = true ∧
    ∀ j < k, endsAddresses (mem.peekData (addressAt addr (nextInt^[j] 0))) = false ∧
      inner (mem.peekData (addressAt addr (nextInt^[j] 0)))

theorem getNumberData_endsIff (addr : Word) (byteSize : Int) :
    EndsIff (fun fuel ↦ getNumberData fuel mem addr byteSize)
      (NumberDataEnds mem byteSize addr) :=
  ((EndsIff.run Failure.outOfFuel _ _).map numbersText).congr Loop.halts_collect

/-- The characters of a word are left at the first one that cannot be shown. -/
theorem charsOf_left (chars : List Byte) (result : Text) :
    (charsOf chars result).2 = chars.any fun c ↦ !isPrint c := by
  induction chars generalizing result with
  | nil => rfl
  | cons c chars ih =>
    unfold charsOf
    rw [List.any_cons]
    split
    · next h =>
      subst h
      rfl
    · split
      · next h => rw [ih, h]; rfl
      · next h => rw [Bool.eq_false_iff.mpr h]; rfl

/-- The loop is left exactly at a word that ends the characters. -/
theorem endsChars_iff (beyond : Byte) (addr : Word) (s : Int × Text) :
    endsChars beyond (mem.peekData (addressAt addr s.1)) = true ↔
      ∃ result, charBody mem beyond addr s = .inl result := by
  simp only [endsChars, charBody, ← charsOf_left _ s.2, Bool.or_eq_true, beq_iff_eq]
  split
  · next h => simp [h]
  · next h =>
    split
    · next hleft => simp [h, hleft]
    · next hleft => simp [h, not_or.mp hleft]

theorem getCharData_endsIff (addr : Word) :
    EndsIff (fun fuel ↦ getCharData fuel mem (u.charIndex addr) (u.beyond addr) addr)
      (CharDataEnds mem u addr) := by
  apply (EndsIff.run Failure.outOfFuel _ _).congr
  refine Loop.halts_iff_exists_iterate Prod.fst
    (fun index ↦ endsChars (u.beyond addr) (mem.peekData (addressAt addr index)))
    (endsChars_iff mem (u.beyond addr) addr) ?_
  intro s s' hb
  simp only [charBody] at hb
  split at hb
  · cases hb
  · split at hb
    · cases hb
    · cases hb
      rfl

/-- The addresses are those of the words before the first that ends them. -/
theorem exists_getAddressData_iff {addr : Word} {addrs : List Word} :
    (∃ fuel, getAddressData fuel mem addr = .ok addrs) ↔
      ∃ k, endsAddresses (mem.peekData (addressAt addr (nextInt^[k] 0))) = true ∧
        (∀ j < k, endsAddresses (mem.peekData (addressAt addr (nextInt^[j] 0))) = false) ∧
        addrs = (List.range k).map fun j ↦ addressAt addr (nextInt^[j] 0) := by
  unfold getAddressData withinFuel
  simp only [within_eq_ok]
  exact Loop.ends_collect

theorem getAddressData_endsIff (addr : Word) :
    EndsIff (fun fuel ↦ getAddressData fuel mem addr)
      (∃ k, endsAddresses (mem.peekData (addressAt addr (nextInt^[k] 0))) = true) :=
  (EndsIff.run Failure.outOfFuel _ _).congr Loop.halts_collect

/-- An array of pointers is shown when the pointers end and what stands behind each of them
ends. -/
theorem getMultiValue_endsIff {read : Nat → Word → Except Failure Text} {inner : Word → Prop}
    (hread : ∀ addr, EndsIff (fun fuel ↦ read fuel addr) (inner addr)) (value : Word) :
    EndsIff (fun fuel ↦ getMultiValue fuel mem (read fuel) param value)
      (AddressDataEnds mem inner value) := by
  have hitems : ∀ addrs : List Word, EndsIff
      (fun fuel ↦ addrs.mapM fun address ↦
        (read fuel (mem.peekData address)).map fun data ↦ (mem.peekData address, data))
      (∀ address ∈ addrs, inner (mem.peekData address)) :=
    fun addrs ↦ EndsIff.mapM fun address _ ↦ (hread (mem.peekData address)).map _
  unfold getMultiValue
  refine ((getAddressData_endsIff mem value).bind fun _ addrs _ ↦
    ((hitems addrs).seq fun _ items _ ↦ EndsIff.ok _).congr (Iff.of_eq (and_true _))).congr ?_
  constructor
  · rintro ⟨fuel, addrs, haddrs, hinner⟩
    obtain ⟨k, hk, hbefore, rfl⟩ := (exists_getAddressData_iff mem).mp ⟨fuel, haddrs⟩
    refine ⟨k, hk, fun j hj ↦ ⟨hbefore j hj, hinner _ ?_⟩⟩
    exact List.mem_map_of_mem (List.mem_range.mpr hj)
  · rintro ⟨k, hk, hbefore⟩
    obtain ⟨fuel, haddrs⟩ := (exists_getAddressData_iff mem).mpr
      ⟨k, hk, fun j hj ↦ (hbefore j hj).1, rfl⟩
    refine ⟨fuel, _, haddrs, ?_⟩
    intro address hmem
    obtain ⟨j, hj, rfl⟩ := List.mem_map.mp hmem
    exact (hbefore j (List.mem_range.mp hj)).2

theorem getNumberValue_endsIff (value : Word) (isArrayType : Bool) :
    EndsIff (fun fuel ↦ getNumberValue fuel mem param value isArrayType)
      (isArrayType = true → value ≠ 0 → NumberDataEnds mem param.byteSize value) := by
  unfold getNumberValue
  cases isArrayType with
  | false =>
    simp only [if_true, Bool.false_eq_true, false_implies]
    split <;> exact EndsIff.ok _
  | true =>
    simp only [Bool.true_eq_false, if_false, true_implies]
    by_cases hvalue : value = 0
    · simp only [if_pos hvalue]
      exact (EndsIff.ok _).congr (by simp only [ne_eq, hvalue, not_true_eq_false, false_implies])
    · simp only [if_neg hvalue]
      exact ((getNumberData_endsIff mem value param.byteSize).map _).congr
        (by simp only [ne_eq, hvalue, not_false_eq_true, true_implies])

theorem getStringValue_endsIff (value : Word) (isArrayType : Bool) :
    EndsIff (fun fuel ↦ getStringValue fuel mem u param value isArrayType)
      (isArrayType = true → CharDataEnds mem u value) := by
  unfold getStringValue
  cases isArrayType with
  | false => exact (EndsIff.ok _).congr (by simp)
  | true => exact ((getCharData_endsIff mem u value).map _).congr (by simp)

end Ends

section Shown

/-- The parameter is shown by the text, with some alias. -/
def ShownAs (param : SdbEntry) (text : Text) (shown : SdbEntry) : Prop :=
  ∃ valueAlias, shown = { param with value := text, valueAlias := valueAlias }

variable {fuel : Nat} {mem : Memory} {u : Uninitialised} {param shown : SdbEntry} {value : Word}

/-- A number itself is shown in decimal. -/
theorem shownAs_of_getNumberValue_false
    (h : getNumberValue fuel mem param value false = .ok shown) :
    ShownAs param (decimal value.toInt) shown := by
  unfold getNumberValue at h
  rw [if_pos rfl] at h
  split at h
  · next hvalue =>
    cases h
    subst hvalue
    exact ⟨param.valueAlias, rfl⟩
  · cases h
    exact ⟨param.valueAlias, rfl⟩

/-- A pointer to numbers is shown in hexadecimal, null in a spelling of its own. -/
theorem shownAs_of_getNumberValue_true
    (h : getNumberValue fuel mem param value true = .ok shown) :
    ShownAs param (if value = 0 then "0x0".toList else longToHexString value) shown := by
  unfold getNumberValue at h
  rw [if_neg (by decide)] at h
  split at h
  · next hvalue =>
    cases h
    rw [if_pos hvalue]
    exact ⟨param.valueAlias, rfl⟩
  · next hvalue =>
    obtain ⟨data, -, rfl⟩ := map_eq_ok.mp h
    rw [if_neg hvalue]
    exact ⟨data, rfl⟩

theorem shownAs_of_getStringValue {isArrayType : Bool}
    (h : getStringValue fuel mem u param value isArrayType = .ok shown) :
    ShownAs param (if isArrayType then longToHexString value else decimal value.toInt) shown := by
  unfold getStringValue at h
  cases isArrayType with
  | false =>
    cases h
    exact ⟨param.valueAlias, rfl⟩
  | true =>
    obtain ⟨data, -, rfl⟩ := map_eq_ok.mp h
    exact ⟨data, rfl⟩

theorem shownAs_of_getMultiValue {read : Word → Except Failure Text}
    (h : getMultiValue fuel mem read param value = .ok shown) :
    ShownAs param param.value shown := by
  obtain ⟨addrs, -, h⟩ := bind_eq_ok.mp h
  obtain ⟨items, -, h⟩ := bind_eq_ok.mp h
  cases h
  exact ⟨_, rfl⟩

/-- The hexadecimal text belongs to one value. -/
theorem longToHexString_eq_iff (n : Nat) :
    longToHexString value = '0' :: 'x' :: Nat.toDigits 16 n ↔ value ≠ 0 ∧ value.toNat = n := by
  unfold longToHexString
  split
  · next hvalue =>
    constructor
    · intro h
      cases h
    · rintro ⟨hne, -⟩
      exact absurd hvalue hne
  · next hvalue =>
    constructor
    · intro h
      exact ⟨hvalue, toDigits_inj (by omega) (by omega) (List.cons.inj (List.cons.inj h).2).2⟩
    · rintro ⟨-, rfl⟩
      rfl

/-- Different values have different hexadecimal texts. -/
theorem longToHexString_inj {value' : Word} (h : longToHexString value = longToHexString value') :
    value = value' := by
  by_cases hvalue' : value' = 0
  · have hzero : longToHexString value' = "*0x0".toList := if_pos hvalue'
    rw [hzero] at h
    unfold longToHexString at h
    split at h
    · next hvalue => rw [hvalue, hvalue']
    · cases h
  · have hhex : longToHexString value' = '0' :: 'x' :: Nat.toDigits 16 value'.toNat :=
      if_neg hvalue'
    rw [hhex, longToHexString_eq_iff] at h
    exact BitVec.eq_of_toNat_eq h.2

theorem longToHexString_eq_allOnes_iff :
    longToHexString value = "0xffffffffffffffff".toList ↔ value = allOnes := by
  have htext : "0xffffffffffffffff".toList = '0' :: 'x' :: Nat.toDigits 16 allOnes.toNat := by
    decide
  rw [htext, longToHexString_eq_iff]
  constructor
  · rintro ⟨-, h⟩
    exact BitVec.eq_of_toNat_eq h
  · rintro rfl
    exact ⟨by decide, rfl⟩

/-- No value is spelled like the null that `datatype_value_to_string` compares with. -/
theorem longToHexString_ne_zero (value : Word) : longToHexString value ≠ "0x0".toList := by
  have htext : "0x0".toList = '0' :: 'x' :: Nat.toDigits 16 0 := rfl
  rw [htext, ne_eq, longToHexString_eq_iff]
  rintro ⟨hne, hzero⟩
  exact hne (BitVec.eq_of_toNat_eq hzero)

/-- A pointer is read back by `stol` unless it is null or has its highest bit set. -/
theorem stol_longToHexString (value : Word) :
    stol (longToHexString value) 0 =
      if value = 0 then .error .invalidArgument
      else if value.toNat < 0x8000000000000000 then .ok value.toNat
      else .error .outOfRange := by
  unfold longToHexString
  split
  · rfl
  · exact stol_hex value.toNat

end Shown

end ArgsDebugger
