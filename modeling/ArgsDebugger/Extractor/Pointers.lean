import ArgsDebugger.ParameterExtractor
import ArgsDebugger.Lib.Pointwise

/-!
# Pointers and their texts

An array of pointers is listed by two loops, `get_address_data` over the slots and
`get_multi_number_value` or `get_multi_string_value` over what it found
(`src/parameter_extractor.cc:108–230`). What an array of pointers is, and how it should be shown,
is stated first. Behind it stands how far the text of a single pointer is read back.
-/

namespace ArgsDebugger

open Lib Lib.Budget

section Arrays

/-- The address of a slot in an array of pointers. -/
def slot (addr : Word) (i : Nat) : Word := addr + BitVec.ofNat 64 (8 * i)

/-- The pointers stand at the address one behind the other, with a null pointer behind them. -/
structure StoresPointers (mem : Memory) (addr : Word) (pointers : List Word) : Prop where
  readable : ∀ i ≤ pointers.length, mem.wordReadable (slot addr i) = true
  pointer : ∀ i, ∀ h : i < pointers.length, mem.word (slot addr i) = pointers.get ⟨i, h⟩
  null : mem.word (slot addr pointers.length) = 0

/-- A pointer with the text of what it points to. -/
def pointerEntry (pointer : Word) (data : Text) : Text := longToHexString pointer ++ '=' :: data

/-- The text of an array of pointers. -/
def pointersText (pointers : List Word) (texts : List Text) : Text :=
  "[ ".toList ++
    (List.intercalate ", ".toList (List.zipWith pointerEntry pointers texts) ++
      ((if 0 < pointers.length then [' '] else []) ++ [']']))

variable {mem : Memory} {addr : Word} {pointers : List Word}

/-- The loops count their slots by an `int`. -/
theorem addressAt_iterate {i : Nat} (h : i < 0x80000000) :
    addressAt addr (nextInt^[i] 0) = slot addr i := by
  rw [nextInt_iterate_of_lt h, addressAt, slot, BitVec.ofInt_natCast, BitVec.ofNat_mul,
    BitVec.mul_comm]
  rfl

namespace StoresPointers

variable (h : StoresPointers mem addr pointers)

include h

theorem peekData_slot {i : Nat} (hi : i < pointers.length) :
    mem.peekData (slot addr i) = pointers.get ⟨i, hi⟩ := by
  rw [Memory.peekData, if_pos (h.readable i (Nat.le_of_lt hi)), h.pointer i hi]

theorem peekData_null : mem.peekData (slot addr pointers.length) = 0 := by
  rw [Memory.peekData, if_pos (h.readable _ le_rfl), h.null]

/-- The words at the slots are the pointers. -/
theorem map_peekData :
    ((List.range pointers.length).map (slot addr)).map mem.peekData = pointers := by
  apply List.ext_getElem
  · simp
  · intro i hi hi'
    simp only [List.getElem_map, List.getElem_range]
    exact h.peekData_slot hi'

/-- `get_address_data` finds the slots of the pointers. -/
theorem exists_getAddressData_iff (hlen : pointers.length < 0x80000000)
    (hvalid : ∀ p ∈ pointers, p ≠ 0 ∧ p ≠ allOnes) {addrs : List Word} :
    (∃ fuel, getAddressData fuel mem addr = .ok addrs) ↔
      addrs = (List.range pointers.length).map (slot addr) := by
  have hend : endsAddresses (mem.peekData (addressAt addr (nextInt^[pointers.length] 0))) =
      true := by
    rw [addressAt_iterate hlen, h.peekData_null]
    rfl
  have hbefore : ∀ j < pointers.length,
      endsAddresses (mem.peekData (addressAt addr (nextInt^[j] 0))) = false := by
    intro j hj
    obtain ⟨hnull, hones⟩ := hvalid _ (List.get_mem pointers ⟨j, hj⟩)
    rw [addressAt_iterate (by omega), h.peekData_slot hj]
    simp only [endsAddresses, Bool.or_eq_false_iff, beq_eq_false_iff_ne]
    exact ⟨hones, hnull⟩
  have hslots : (List.range pointers.length).map (fun j ↦ addressAt addr (nextInt^[j] 0)) =
      (List.range pointers.length).map (slot addr) := by
    apply List.map_congr_left
    intro j hj
    have hlt := List.mem_range.mp hj
    exact addressAt_iterate (by omega)
  unfold getAddressData withinFuel
  simp only [within_eq_ok]
  rw [← hslots]
  exact Loop.ends_collect_of_first hend hbefore

end StoresPointers

/-- The alias of an array of pointers, entry by entry. -/
theorem multiAlias_eq (items : List (Word × Text)) :
    multiAlias items = List.intercalate ", ".toList (items.map fun i ↦ pointerEntry i.1 i.2) ++
      ((if 0 < items.length then [' '] else []) ++ [']']) := by
  induction items with
  | nil => rfl
  | cons item items ih =>
    cases items with
    | nil =>
      rw [List.map_singleton, List.intercalate_singleton]
      rfl
    | cons item' items =>
      rw [multiAlias, ih, List.map_cons, List.map_cons, List.map_cons, List.intercalate_cons_cons]
      · simp [pointerEntry]
      · simp

/-- The alias of pointers with their texts. -/
theorem multiAlias_zip {texts : List Text} (h : pointers.length = texts.length) :
    "[ ".toList ++ multiAlias (pointers.zip texts) = pointersText pointers texts := by
  have hlen : (pointers.zip texts).length = pointers.length := by
    rw [List.length_zip, h, Nat.min_self]
  rw [multiAlias_eq, hlen, List.map_zip_eq_zipWith]
  rfl

/-- An array of pointers is shown with what is read behind each of them. -/
theorem StoresPointers.exists_getMultiValue_iff (h : StoresPointers mem addr pointers)
    (hlen : pointers.length < 0x80000000) (hvalid : ∀ p ∈ pointers, p ≠ 0 ∧ p ≠ allOnes)
    {read : Nat → Word → Except Failure Text} {inner : Word → Prop}
    (hread : ∀ a, EndsIff (fun fuel ↦ read fuel a) (inner a)) (param shown : SdbEntry) :
    (∃ fuel, getMultiValue fuel mem (read fuel) param addr = .ok shown) ↔
      ∃ texts, List.Forall₂ (fun p text ↦ ∃ fuel, read fuel p = .ok text) pointers texts ∧
        shown = { param with valueAlias := pointersText pointers texts } := by
  have hitem : ∀ address, EndsIff
      (fun fuel ↦ (read fuel (mem.peekData address)).map fun data ↦ (mem.peekData address, data))
      (inner (mem.peekData address)) := fun address ↦ (hread _).map _
  have hitems := fun addrs : List Word ↦ EndsIff.mapM (l := addrs) fun address _ ↦ hitem address
  have hpairs : ∀ address item, (∃ fuel, ((read fuel (mem.peekData address)).map
      fun data ↦ (mem.peekData address, data)) = .ok item) ↔
      ∃ text, (∃ fuel, read fuel (mem.peekData address) = .ok text) ∧
        (mem.peekData address, text) = item := by
    intro address item
    simp only [map_eq_ok]
    rw [exists_comm]
    simp only [exists_and_right]
  unfold getMultiValue
  rw [(getAddressData_endsIff mem addr).exists_bind_eq_ok_iff fun addrs ↦
    (hitems addrs).seq fun _ items _ ↦ EndsIff.ok _]
  simp only [h.exists_getAddressData_iff hlen hvalid, exists_eq_left]
  rw [(hitems _).exists_bind_eq_ok_iff fun items ↦ EndsIff.ok _]
  simp only [EndsIff.exists_mapM_eq_ok_iff hitem, hpairs]
  simp only [forall₂_pair_iff (S := fun p text ↦ ∃ fuel, read fuel p = .ok text), h.map_peekData]
  constructor
  · rintro ⟨items, ⟨texts, htexts, rfl⟩, -, hshown⟩
    rw [multiAlias_zip htexts.length_eq] at hshown
    exact ⟨texts, htexts, (Except.ok.inj hshown).symm⟩
  · rintro ⟨texts, htexts, rfl⟩
    refine ⟨pointers.zip texts, ⟨texts, htexts, rfl⟩, 0, ?_⟩
    rw [multiAlias_zip htexts.length_eq]

end Arrays

/-- Arrays of pointers are listed completely: over fewer than 2³¹ pointers, none of them null or
all ones, and a null pointer behind them the first loop finds exactly their slots, and the alias
shows each pointer once, in order, with the text that is read behind it. The text behind a pointer
to characters is that of `get_char_data` with what it finds in its uninitialised variables for that
address. -/
theorem pointers_listed {mem : Memory} {addr : Word} {pointers : List Word}
    (hlen : pointers.length < 0x80000000) (hvalid : ∀ p ∈ pointers, p ≠ 0 ∧ p ≠ allOnes)
    (h : StoresPointers mem addr pointers) (u : Uninitialised) (param : SdbEntry) :
    (∀ addrs, (∃ fuel, getAddressData fuel mem addr = .ok addrs) ↔
      addrs = (List.range pointers.length).map (slot addr)) ∧
    (∀ shown, (∃ fuel, getMultiNumberValue fuel mem param addr = .ok shown) ↔
      ∃ texts, List.Forall₂
          (fun p text ↦ ∃ fuel, getNumberData fuel mem p param.byteSize = .ok text)
          pointers texts ∧
        shown = { param with valueAlias := pointersText pointers texts }) ∧
    ∀ shown, (∃ fuel, getMultiStringValue fuel mem u param addr = .ok shown) ↔
      ∃ texts, List.Forall₂
          (fun p text ↦ ∃ fuel, getCharData fuel mem (u.charIndex p) (u.beyond p) p = .ok text)
          pointers texts ∧
        shown = { param with valueAlias := pointersText pointers texts } := by
  refine ⟨?_, ?_, ?_⟩
  · intro addrs
    exact h.exists_getAddressData_iff hlen hvalid
  · intro shown
    exact h.exists_getMultiValue_iff hlen hvalid
      (fun a ↦ getNumberData_endsIff mem a param.byteSize) param shown
  · intro shown
    exact h.exists_getMultiValue_iff hlen hvalid (fun a ↦ getCharData_endsIff mem u a) param shown

/-- Two pointers at address 0, to a number and to nothing. -/
def pointerMemory : Memory where
  bytes := fun a ↦ if a = 1 then 1 else if a = 9 then 2 else if a = 0x100 then 7 else 0
  readable := fun _ ↦ true

theorem pointers_listed_sample :
    let param : SdbEntry := ⟨0, 0, [], [], [], [], [], 4, false⟩
    ∃ fuel, getMultiNumberValue fuel pointerMemory param 0 =
      .ok { param with valueAlias := "[ 0x100=[7], 0x200= ]".toList } := by
  intro param
  have hstores : StoresPointers pointerMemory 0 [0x100, 0x200] :=
    ⟨by decide +kernel, by decide +kernel, by decide +kernel⟩
  have hvalid : ∀ p ∈ [0x100#64, 0x200#64], p ≠ 0 ∧ p ≠ allOnes := by simp [allOnes]
  have hlisted := pointers_listed (by simp) hvalid hstores
    ⟨fun _ ↦ 0, fun _ ↦ 0, fun _ ↦ false, param⟩ param
  apply (hlisted.2.1 _).mpr
  refine ⟨["[7]".toList, []], .cons ⟨2, ?_⟩ (.cons ⟨1, ?_⟩ .nil), ?_⟩
  · decide +kernel
  · decide +kernel
  · decide +kernel

/-- The text of a pointer is read back as the pointer exactly when it is not null and its highest
bit is clear: null is spelled with a star, and `stol` reads a signed number. -/
theorem pointerText_roundTrip_iff (value : Word) :
    (∃ n, stol (longToHexString value) 0 = .ok n ∧ BitVec.ofInt 64 n = value) ↔
      value ≠ 0 ∧ value.toNat < 0x8000000000000000 := by
  rw [stol_longToHexString]
  split
  · next hvalue => simp [hvalue]
  · next hvalue =>
    split
    · next hsign =>
      apply iff_of_true
      · refine ⟨value.toNat, rfl, ?_⟩
        rw [BitVec.ofInt_natCast, BitVec.ofNat_toNat, BitVec.setWidth_eq]
      · exact ⟨hvalue, hsign⟩
    · next hsign => simp [hsign]

/-- A null pointer is not read back. -/
theorem not_pointerText_roundTrip :
    ¬ ∀ value : Word, ∃ n, stol (longToHexString value) 0 = .ok n ∧ BitVec.ofInt 64 n = value := by
  intro h
  obtain ⟨n, hn, -⟩ := h 0
  have herror : stol (longToHexString 0) 0 = .error .invalidArgument := by rfl
  rw [herror] at hn
  cases hn

end ArgsDebugger
