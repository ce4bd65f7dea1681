import ArgsDebugger.Extractor.Characters
import ArgsDebugger.Extractor.Numbers
import ArgsDebugger.Extractor.Pointers
import ArgsDebugger.Lib.PrefixCode

/-!
# What the aliases tell

The texts that `src/parameter_extractor.cc` makes of the debuggee's memory, read back. A string is
shown as the codes of its characters with nothing between them, which are told apart by their
first digit. The entries of an array of pointers are told apart by the spaces, whatever memory
holds behind the pointers. Each reader is given on texts alone, and finds what the loops came to
in memory, as far as they went.
-/

namespace ArgsDebugger

open Lib Lib.Budget

section Codes

/-- The bytes that `isprint` accepts. -/
def printableBytes : List Byte := (List.range 95).map fun i ↦ BitVec.ofNat 8 (0x20 + i)

/-- The text of a byte's code. -/
def byteCode (c : Byte) : Text := decimal c.toNat

/-- The bytes of an alias that `get_char_data` made. -/
def readCodes (text : Text) : List Byte := decode byteCode printableBytes text

theorem mem_printableBytes {c : Byte} (h : isPrint c = true) : c ∈ printableBytes := by
  simp only [isPrint, BitVec.le_def, Bool.and_eq_true, decide_eq_true_eq] at h
  obtain ⟨hlow, hhigh⟩ := h
  simp only [BitVec.toNat_ofNat] at hlow hhigh
  refine List.mem_map.mpr ⟨c.toNat - 0x20, List.mem_range.mpr (by omega), ?_⟩
  apply BitVec.eq_of_toNat_eq
  rw [BitVec.toNat_ofNat]
  omega

/-- Codes with the digit one in front have three digits, the others two. -/
theorem length_byteCode : ∀ c ∈ printableBytes,
    (byteCode c).length = if (byteCode c).head? = some '1' then 3 else 2 := by
  decide +kernel

theorem byteCode_inj {c d : Byte} (h : byteCode c = byteCode d) : c = d := by
  apply BitVec.eq_of_toNat_eq
  exact Int.natCast_inj.mp (decimal_inj h)

/-- The codes of the printable bytes are told apart by their first digits. -/
theorem prefixCode_byteCode : PrefixCode byteCode printableBytes := by
  constructor
  · intro c _
    exact decimal_ne_nil _
  · intro c hc d hd hprefix
    apply byteCode_inj
    have hhead : (byteCode d).head? = (byteCode c).head? := by
      obtain ⟨rest, hrest⟩ := hprefix
      rw [← hrest, List.head?_append_of_ne_nil _ (show byteCode c ≠ [] from decimal_ne_nil _)]
    apply hprefix.eq_of_length
    rw [length_byteCode c hc, length_byteCode d hd, hhead]

end Codes

section Characters

variable {mem : Memory} {beyond : Byte} {addr : Word} {index : Int} {text : Text}

/-- The word of an iteration of `get_char_data`. -/
def charWord (mem : Memory) (addr : Word) (index : Int) (k : Nat) : Word :=
  mem.peekData (addressAt addr (nextInt^[k] index))

/-- The printable bytes from the address on, up to the first that cannot be shown, in the words
up to the first that ends the loop. -/
def CharsFound (mem : Memory) (beyond : Byte) (addr : Word) (index : Int) (chars : List Byte) :
    Prop :=
  ∃ k, endsChars beyond (charWord mem addr index k) = true ∧
    (∀ j < k, endsChars beyond (charWord mem addr index j) = false) ∧
    chars = ((List.range (k + 1)).flatMap fun j ↦ wordChars (charWord mem addr index j)).takeWhile
      isPrint

/-- Behind the text of a state the codes of the characters from its index on are shown. -/
def ShowsFrom (mem : Memory) (beyond : Byte) (addr : Word) (text : Text) (s : Int × Text) : Prop :=
  ∃ chars, CharsFound mem beyond addr s.1 chars ∧ text = s.2 ++ chars.flatMap byteCode

/-- The inner loop shows the printable characters in front of the first other one. -/
theorem charsOf_result (chars : List Byte) (result : Text) :
    (charsOf chars result).1 = result ++ (chars.takeWhile isPrint).flatMap byteCode := by
  induction chars generalizing result with
  | nil => rw [charsOf, List.takeWhile_nil, List.flatMap_nil, List.append_nil]
  | cons c chars ih =>
    rw [charsOf]
    by_cases hnewline : c = 0x0a#8
    · subst hnewline
      rw [if_pos rfl, List.takeWhile_cons_of_neg (by decide), List.flatMap_nil, List.append_nil]
    · rw [if_neg hnewline]
      by_cases hprint : isPrint c = true
      · rw [if_pos hprint, ih, List.takeWhile_cons_of_pos hprint, List.flatMap_cons,
          List.append_assoc]
        rfl
      · rw [if_neg hprint, List.takeWhile_cons_of_neg hprint, List.flatMap_nil, List.append_nil]

/-- A word that does not end the loop has printable characters only. -/
theorem forall_isPrint_of_endsChars {word : Word} (h : endsChars beyond word = false) :
    ∀ c ∈ wordChars word, isPrint c = true := by
  simp only [endsChars, Bool.or_eq_false_iff, List.any_eq_false] at h
  intro c hc
  have hnot := h.1.2 c hc
  simpa using hnot

theorem charWord_zero : charWord mem addr index 0 = mem.peekData (addressAt addr index) := rfl

theorem charWord_succ (k : Nat) :
    charWord mem addr index (k + 1) = charWord mem addr (nextInt index) k := rfl

/-- An iteration shows the printable beginning of its word. -/
theorem charBody_result (s : Int × Text) :
    charBody mem beyond addr s =
      if endsChars beyond (charWord mem addr s.1 0) = true then
        .inl (s.2 ++ ((wordChars (charWord mem addr s.1 0)).takeWhile isPrint).flatMap byteCode)
      else .inr (nextInt s.1, s.2 ++ (wordChars (charWord mem addr s.1 0)).flatMap byteCode) := by
  rw [charWord_zero]
  by_cases hends : endsChars beyond (mem.peekData (addressAt addr s.1)) = true
  · rw [if_pos hends]
    obtain ⟨result, hresult⟩ := (endsChars_iff mem beyond addr s).mp hends
    rw [hresult]
    simp only [charBody] at hresult
    split at hresult
    · next hones =>
      cases hresult
      rw [hones, show (wordChars allOnes).takeWhile isPrint = [] by decide, List.flatMap_nil,
        List.append_nil]
    · split at hresult
      · cases hresult
        rw [charsOf_result]
      · cases hresult
  · rw [if_neg hends]
    have hprint := forall_isPrint_of_endsChars (Bool.not_eq_true _ ▸ hends)
    cases hresult : charBody mem beyond addr s with
    | inl result => exact absurd ((endsChars_iff mem beyond addr s).mpr ⟨result, hresult⟩) hends
    | inr s' =>
      simp only [charBody] at hresult
      split at hresult
      · cases hresult
      · split at hresult
        · cases hresult
        · cases hresult
          rw [charsOf_result, List.takeWhile_eq_self_iff.mpr hprint]

/-- Characters found at a word that ends the loop. -/
theorem charsFound_of_ends (h : endsChars beyond (charWord mem addr index 0) = true) :
    CharsFound mem beyond addr index
      ((wordChars (charWord mem addr index 0)).takeWhile isPrint) := by
  refine ⟨0, h, fun j hj ↦ absurd hj (Nat.not_lt_zero j), ?_⟩
  rw [List.range_one, List.flatMap_singleton]

/-- Characters found behind a word that does not end the loop. -/
theorem CharsFound.cons {chars : List Byte} (h : CharsFound mem beyond addr (nextInt index) chars)
    (hgoes : endsChars beyond (charWord mem addr index 0) = false) :
    CharsFound mem beyond addr index (wordChars (charWord mem addr index 0) ++ chars) := by
  obtain ⟨k, hends, hbefore, rfl⟩ := h
  refine ⟨k + 1, hends, ?_, ?_⟩
  · intro j hj
    cases j with
    | zero => exact hgoes
    | succ j => exact hbefore j (by omega)
  · rw [List.range_succ_eq_map (n := k + 1), List.flatMap_cons, List.flatMap_map,
      List.takeWhile_append_of_pos (forall_isPrint_of_endsChars hgoes)]
    simp only [Nat.succ_eq_add_one, charWord_succ]

/-- The loop shows the codes of the characters that it comes to. -/
theorem ends_charBody {s : Int × Text} (h : Loop.Ends (charBody mem beyond addr) s text) :
    ShowsFrom mem beyond addr text s := by
  refine Loop.ends_induction (motive := ShowsFrom mem beyond addr text) h ?_ ?_
  · intro s hb
    rw [charBody_result] at hb
    split at hb
    · next hends => exact ⟨_, charsFound_of_ends hends, (Sum.inl.inj hb).symm⟩
    · exact absurd hb (by simp)
  · intro s s' hb _ ih
    rw [charBody_result] at hb
    split at hb
    · exact absurd hb (by simp)
    · next hnot =>
      obtain ⟨chars, hchars, htext⟩ := ih
      rw [← Sum.inr.inj hb] at hchars htext
      refine ⟨_, hchars.cons (Bool.not_eq_true _ ▸ hnot), ?_⟩
      rw [htext, List.append_assoc, List.flatMap_append]

theorem CharsFound.printable {chars : List Byte} (h : CharsFound mem beyond addr index chars) :
    ∀ c ∈ chars, c ∈ printableBytes := by
  obtain ⟨k, -, -, rfl⟩ := h
  intro c hc
  exact mem_printableBytes (List.mem_takeWhile_imp hc)

theorem getCharData_found {fuel : Nat} (h : getCharData fuel mem index beyond addr = .ok text) :
    ∃ chars, CharsFound mem beyond addr index chars ∧ text = chars.flatMap byteCode :=
  (ends_charBody ⟨fuel, within_eq_ok.mp h⟩ : ShowsFrom mem beyond addr text (index, []))

/-- The characters of a string are told from its alias: the codes in it are those of the bytes
that `get_char_data` came to, up to the first that cannot be shown. -/
theorem getCharData_decodes {fuel : Nat} (h : getCharData fuel mem index beyond addr = .ok text) :
    CharsFound mem beyond addr index (readCodes text) := by
  obtain ⟨chars, hchars, rfl⟩ := getCharData_found h
  rw [readCodes, prefixCode_byteCode.decode_flatMap hchars.printable]
  exact hchars

end Characters

section Numbers

variable {mem : Memory} {addr : Word} {byteSize : Int} {fuel : Nat} {text : Text}

/-- The word of an element of `get_number_data`. -/
def elementAt (mem : Memory) (addr : Word) (byteSize : Int) (k : Nat) : Word :=
  numberWord mem addr byteSize (nextInt^[k] 0)

/-- The low halves of the words in front of the first that ends the numbers. -/
def NumbersFound (mem : Memory) (addr : Word) (byteSize : Int) (values : List Int) : Prop :=
  ∃ k, endsNumbers (elementAt mem addr byteSize k) = true ∧
    (∀ j < k, endsNumbers (elementAt mem addr byteSize j) = false) ∧
    values = (List.range k).map fun j ↦ ((elementAt mem addr byteSize j).setWidth 32).toInt

/-- The numbers of an alias that `get_number_data` made. -/
def readNumbers (text : Text) : List Int :=
  ((text.drop 1).dropLast.splitOn ',').filterMap fun number ↦ numeral number 0

/-- The text of numbers is read back, also the empty one. -/
theorem readNumbers_numbersText (values : List Int) :
    readNumbers (numbersText values) = values := by
  unfold numbersText
  split
  · next hnil =>
    rw [hnil]
    decide
  · next hne =>
    have hcomma : ∀ number ∈ values.map decimal, ',' ∉ number := by
      intro number hnumber
      obtain ⟨v, -, rfl⟩ := List.mem_map.mp hnumber
      exact notMem_decimal (by decide) (by decide) v
    have hread : (fun number ↦ numeral number 0) ∘ decimal = some := funext numeral_decimal
    rw [readNumbers, List.drop_succ_cons, List.drop_zero, List.dropLast_concat,
      List.splitOn_intercalate ',' hcomma (by simpa using hne), List.filterMap_map, hread,
      List.filterMap_some]

theorem getNumberData_found (h : getNumberData fuel mem addr byteSize = .ok text) :
    ∃ values, NumbersFound mem addr byteSize values ∧ text = numbersText values := by
  obtain ⟨values, hvalues, rfl⟩ := map_eq_ok.mp h
  obtain ⟨k, hends, hbefore, hcollected⟩ := Loop.ends_collect.mp ⟨fuel, within_eq_ok.mp hvalues⟩
  exact ⟨values, ⟨k, hends, hbefore, hcollected⟩, rfl⟩

theorem getNumberData_decodes (h : getNumberData fuel mem addr byteSize = .ok text) :
    NumbersFound mem addr byteSize (readNumbers text) := by
  obtain ⟨values, hvalues, rfl⟩ := getNumberData_found h
  rw [readNumbers_numbersText]
  exact hvalues

end Numbers

section Entries

variable {mem : Memory} {addr : Word} {pointers : List Word}

/-- The words in front of the first that ends the pointers. -/
def PointersFound (mem : Memory) (addr : Word) (pointers : List Word) : Prop :=
  ∃ k, endsAddresses (mem.peekData (addressAt addr (nextInt^[k] 0))) = true ∧
    (∀ j < k, endsAddresses (mem.peekData (addressAt addr (nextInt^[j] 0))) = false) ∧
    pointers = (List.range k).map fun j ↦ mem.peekData (addressAt addr (nextInt^[j] 0))

/-- A pointer and the text behind it, from a word of an alias. -/
def readEntry (word : Text) : Option (Int × Text) :=
  let entry := if word.getLast? = some ',' then word.dropLast else word
  if '=' ∈ entry then
    (numeral (entry.takeWhile (· != '=')) 0).map fun pointer ↦
      (pointer, (entry.dropWhile (· != '=')).drop 1)
  else none

/-- The entries of an alias that an array of pointers has got. -/
def readEntries (text : Text) : List (Int × Text) := (text.splitOn ' ').filterMap readEntry

/-- A text that does not disturb the entry it stands in. -/
structure Quiet (data : Text) : Prop where
  space : ' ' ∉ data
  last : data.getLast? ≠ some ','

theorem notMem_longToHexString {c : Char} (hdigit : isDigitOf 16 c = false) (hletter : c ≠ 'x')
    (hstar : c ≠ '*') (value : Word) : c ∉ longToHexString value := by
  have hzero : c ≠ '0' := by
    rintro rfl
    cases hdigit
  unfold longToHexString
  split
  · simp [hzero, hletter, hstar]
  · simp only [List.mem_cons, hzero, hletter, false_or]
    intro hmem
    rw [isDigitOf_of_mem_toDigits (by omega) le_rfl hmem] at hdigit
    cases hdigit

theorem numeral_longToHexString {value : Word} (hvalue : value ≠ 0) :
    numeral (longToHexString value) 0 = some (value.toNat : Int) := by
  rw [longToHexString, if_neg hvalue]
  exact numeral_hex value.toNat

/-- Without a comma behind it an entry is split at its first `=`. -/
theorem readEntry_pointerEntry {pointer : Word} {data : Text} (hpointer : pointer ≠ 0)
    (hlast : (pointerEntry pointer data).getLast? ≠ some ',') :
    readEntry (pointerEntry pointer data) = some ((pointer.toNat : Int), data) := by
  have hbefore : ∀ c ∈ longToHexString pointer, (c != '=') = true := by
    intro c hc
    apply bne_iff_ne.mpr
    rintro rfl
    exact notMem_longToHexString (by decide) (by decide) (by decide) pointer hc
  have hmem : '=' ∈ longToHexString pointer ++ '=' :: data := by simp
  rw [readEntry, if_neg hlast, pointerEntry, if_pos hmem,
    List.takeWhile_append_of_pos hbefore, List.dropWhile_append_of_pos hbefore,
    List.takeWhile_cons_of_neg (by decide), List.dropWhile_cons_of_neg (by decide),
    List.append_nil, numeral_longToHexString hpointer]
  rfl

/-- An entry does not end in a comma of its own. -/
theorem Quiet.getLast_pointerEntry {data : Text} (h : Quiet data) (pointer : Word) :
    (pointerEntry pointer data).getLast? ≠ some ',' := by
  rw [pointerEntry, List.getLast?_append_cons, List.getLast?_cons]
  cases hdata : data.getLast? with
  | none => decide
  | some c =>
    rw [Option.getD_some, ← hdata]
    exact h.last

/-- The words of an alias. -/
def aliasWords : List (Word × Text) → List Text
  | [] => [[']']]
  | [(pointer, data)] => [pointerEntry pointer data, [']']]
  | (pointer, data) :: items => (pointerEntry pointer data ++ [',']) :: aliasWords items

theorem aliasWords_ne_nil (items : List (Word × Text)) : aliasWords items ≠ [] := by
  unfold aliasWords
  split <;> simp

/-- An alias is its words with spaces between them. -/
theorem multiAlias_eq_words (items : List (Word × Text)) :
    multiAlias items = List.intercalate [' '] (aliasWords items) := by
  fun_induction aliasWords items with
  | case1 => rfl
  | case2 pointer data =>
    rw [List.intercalate_cons_cons, List.intercalate_singleton]
    simp [multiAlias, pointerEntry]
  | case3 pointer data items hne ih =>
    obtain ⟨word, words, hwords⟩ := List.exists_cons_of_ne_nil (aliasWords_ne_nil items)
    rw [multiAlias, ih, hwords, List.intercalate_cons_cons]
    · simp [pointerEntry]
    · exact hne

theorem Quiet.notMem_pointerEntry {data : Text} (h : Quiet data) (pointer : Word) :
    ' ' ∉ pointerEntry pointer data := by
  have hpointer : ' ' ∉ longToHexString pointer :=
    notMem_longToHexString (by decide) (by decide) (by decide) pointer
  simp [pointerEntry, hpointer, h.space]

/-- The words of an alias have no spaces in them. -/
theorem notMem_aliasWords {items : List (Word × Text)} (h : ∀ i ∈ items, Quiet i.2) :
    ∀ word ∈ aliasWords items, ' ' ∉ word := by
  fun_induction aliasWords items with
  | case1 => simp
  | case2 pointer data =>
    have hdata : Quiet data := h _ List.mem_cons_self
    simpa using hdata.notMem_pointerEntry pointer
  | case3 pointer data items hne ih =>
    have hdata : Quiet data := h _ List.mem_cons_self
    rw [List.forall_mem_cons]
    constructor
    · simpa using hdata.notMem_pointerEntry pointer
    · exact ih fun i hi ↦ h i (List.mem_cons_of_mem _ hi)

/-- A comma behind an entry is not taken for a part of it. -/
theorem readEntry_comma {pointer : Word} {data : Text} (hpointer : pointer ≠ 0)
    (hdata : Quiet data) :
    readEntry (pointerEntry pointer data ++ [',']) = some ((pointer.toNat : Int), data) := by
  have hquiet := hdata.getLast_pointerEntry pointer
  rw [← readEntry_pointerEntry hpointer hquiet, readEntry, readEntry, if_neg hquiet,
    List.getLast?_concat, if_pos rfl, List.dropLast_concat]

/-- The words of an alias are read back as its items. -/
theorem filterMap_aliasWords {items : List (Word × Text)}
    (h : ∀ i ∈ items, i.1 ≠ 0 ∧ Quiet i.2) :
    (aliasWords items).filterMap readEntry = items.map fun i ↦ ((i.1.toNat : Int), i.2) := by
  fun_induction aliasWords items with
  | case1 => decide
  | case2 pointer data =>
    obtain ⟨hpointer, hdata⟩ := h _ List.mem_cons_self
    rw [List.filterMap_cons_some
      (readEntry_pointerEntry hpointer (hdata.getLast_pointerEntry pointer)),
      List.filterMap_cons_none (by decide)]
    rfl
  | case3 pointer data items hne ih =>
    obtain ⟨hpointer, hdata⟩ := h _ List.mem_cons_self
    rw [List.filterMap_cons_some (readEntry_comma hpointer hdata),
      ih fun i hi ↦ h i (List.mem_cons_of_mem _ hi)]
    rfl

/-- The entries of an alias are told apart, whatever quiet texts they have. -/
theorem readEntries_multiAlias {items : List (Word × Text)}
    (h : ∀ i ∈ items, i.1 ≠ 0 ∧ Quiet i.2) :
    readEntries ("[ ".toList ++ multiAlias items) =
      items.map fun i ↦ ((i.1.toNat : Int), i.2) := by
  have hspace := notMem_aliasWords fun i hi ↦ (h i hi).2
  have hwords : "[ ".toList ++ multiAlias items =
      List.intercalate [' '] (['['] :: aliasWords items) := by
    obtain ⟨word, words, hcons⟩ := List.exists_cons_of_ne_nil (aliasWords_ne_nil items)
    rw [multiAlias_eq_words, hcons, List.intercalate_cons_cons]
    rfl
  have hnospace : ∀ word ∈ ['['] :: aliasWords items, ' ' ∉ word := by
    intro word hword
    rcases List.mem_cons.mp hword with rfl | hword
    · decide
    · exact hspace word hword
  rw [readEntries, hwords, List.splitOn_intercalate ' ' hnospace (by simp),
    List.filterMap_cons_none (by decide), filterMap_aliasWords h]

theorem quiet_numbersText (values : List Int) : Quiet (numbersText values) := by
  have hspace : ' ' ∉ List.intercalate [','] (values.map decimal) := by
    induction values with
    | nil => decide
    | cons v values ih =>
      have hv : ' ' ∉ decimal v := notMem_decimal (by decide) (by decide) v
      cases values with
      | nil => simpa using hv
      | cons w values =>
        rw [List.map_cons, List.map_cons, List.intercalate_cons_cons]
        simp only [List.mem_append, not_or]
        exact ⟨⟨hv, by decide⟩, ih⟩
  unfold numbersText
  split
  · exact ⟨by decide, by decide⟩
  · constructor
    · simp [hspace]
    · rw [← List.cons_append, List.getLast?_concat]
      decide

theorem quiet_codes (chars : List Byte) : Quiet (chars.flatMap byteCode) := by
  have hnone : ∀ c, c.isDigit = false → c ≠ '-' → c ∉ chars.flatMap byteCode := by
    intro c hdigit hsign hmem
    obtain ⟨b, -, hb⟩ := List.mem_flatMap.mp hmem
    exact notMem_decimal hdigit hsign _ hb
  constructor
  · exact hnone ' ' (by decide) (by decide)
  · intro hlast
    exact hnone ',' (by decide) (by decide) (List.mem_of_getLast? hlast)

variable {fuel : Nat} {read : Word → Except Failure Text} {param shown : SdbEntry} {value : Word}

/-- An alias of an array of pointers tells the pointers and the texts that were read behind
them. -/
theorem getMultiValue_decodes (hread : ∀ a text, read a = .ok text → Quiet text)
    (h : getMultiValue fuel mem read param value = .ok shown) :
    ∃ pointers, PointersFound mem value pointers ∧ List.Forall₂
      (fun pointer entry ↦ entry.1 = (pointer.toNat : Int) ∧ read pointer = .ok entry.2)
      pointers (readEntries shown.valueAlias) := by
  obtain ⟨addrs, haddrs, h⟩ := bind_eq_ok.mp h
  obtain ⟨items, hitems, h⟩ := bind_eq_ok.mp h
  cases h
  obtain ⟨k, hends, hbefore, rfl⟩ := (exists_getAddressData_iff mem).mp ⟨fuel, haddrs⟩
  have hfound := forall₂_with_mem (mapM_eq_ok_iff.mp hitems)
  have hentry : ∀ address item, address ∈ (List.range k).map (fun j ↦ addressAt value
      (nextInt^[j] 0)) ∧ ((read (mem.peekData address)).map fun data ↦
        (mem.peekData address, data)) = .ok item →
      item.1 = mem.peekData address ∧ item.1 ≠ 0 ∧ read item.1 = .ok item.2 := by
    rintro address item ⟨haddress, hitem⟩
    obtain ⟨data, hdata, rfl⟩ := map_eq_ok.mp hitem
    obtain ⟨j, hj, rfl⟩ := List.mem_map.mp haddress
    refine ⟨rfl, ?_, hdata⟩
    have hgoes := hbefore j (List.mem_range.mp hj)
    simp only [endsAddresses, Bool.or_eq_false_iff, beq_eq_false_iff_ne] at hgoes
    exact hgoes.2
  have hquiet : ∀ item ∈ items, item.1 ≠ 0 ∧ Quiet item.2 := by
    intro item hitem
    obtain ⟨address, -, haddress⟩ := (forall₂_mem hfound).2 item hitem
    obtain ⟨-, hne, hdata⟩ := hentry address item haddress
    exact ⟨hne, hread _ _ hdata⟩
  refine ⟨_, ⟨k, hends, hbefore, rfl⟩, ?_⟩
  rw [readEntries_multiAlias hquiet, List.forall₂_map_right_iff]
  have hpointers := hfound.imp hentry
  rw [List.forall₂_map_left_iff] at hpointers ⊢
  refine hpointers.imp ?_
  rintro j item ⟨hitem, -, hdata⟩
  rw [← hitem]
  exact ⟨rfl, hdata⟩

/-- An alias of pointers to numbers tells the numbers behind each of them. -/
theorem getMultiNumberValue_decodes (h : getMultiNumberValue fuel mem param value = .ok shown) :
    ∃ pointers, PointersFound mem value pointers ∧ List.Forall₂
      (fun pointer entry ↦ entry.1 = (pointer.toNat : Int) ∧
        NumbersFound mem pointer param.byteSize (readNumbers entry.2))
      pointers (readEntries shown.valueAlias) := by
  have hquiet : ∀ a text, getNumberData fuel mem a param.byteSize = .ok text → Quiet text := by
    intro a text htext
    obtain ⟨values, -, rfl⟩ := getNumberData_found htext
    exact quiet_numbersText values
  obtain ⟨pointers, hpointers, hentries⟩ := getMultiValue_decodes hquiet h
  refine ⟨pointers, hpointers, hentries.imp ?_⟩
  intro pointer entry hentry
  exact ⟨hentry.1, getNumberData_decodes hentry.2⟩

/-- An alias of pointers to characters tells the characters behind each of them. -/
theorem getMultiStringValue_decodes {u : Uninitialised}
    (h : getMultiStringValue fuel mem u param value = .ok shown) :
    ∃ pointers, PointersFound mem value pointers ∧ List.Forall₂
      (fun pointer entry ↦ entry.1 = (pointer.toNat : Int) ∧
        CharsFound mem (u.beyond pointer) pointer (u.charIndex pointer) (readCodes entry.2))
      pointers (readEntries shown.valueAlias) := by
  have hquiet : ∀ a text, getCharData fuel mem (u.charIndex a) (u.beyond a) a = .ok text →
      Quiet text := by
    intro a text htext
    obtain ⟨chars, -, rfl⟩ := getCharData_found htext
    exact quiet_codes chars
  obtain ⟨pointers, hpointers, hentries⟩ := getMultiValue_decodes hquiet h
  refine ⟨pointers, hpointers, hentries.imp ?_⟩
  intro pointer entry hentry
  exact ⟨hentry.1, getCharData_decodes hentry.2⟩

end Entries

section Aliases

variable {mem : Memory} {fuel : Nat} {u : Uninitialised} {param shown : SdbEntry} {value : Word}

/-- The alias of a pointer to characters tells the characters. -/
theorem getStringValue_decodes (h : getStringValue fuel mem u param value true = .ok shown) :
    CharsFound mem (u.beyond value) value (u.charIndex value) (readCodes shown.valueAlias) := by
  obtain ⟨text, htext, rfl⟩ := map_eq_ok.mp h
  exact getCharData_decodes htext

/-- The alias of a pointer to numbers tells the numbers. -/
theorem getNumberValue_decodes (hvalue : value ≠ 0)
    (h : getNumberValue fuel mem param value true = .ok shown) :
    NumbersFound mem value param.byteSize (readNumbers shown.valueAlias) := by
  rw [getNumberValue, if_neg (by decide), if_neg hvalue] at h
  obtain ⟨text, htext, rfl⟩ := map_eq_ok.mp h
  exact getNumberData_decodes htext

/-- An alias tells which strings are in memory. That of a pointer to characters is read back as
the bytes that `get_char_data` came to, up to the first that cannot be shown; that of an array of
pointers as the words in front of the one that ends it, each with the characters behind it. -/
theorem string_aliases_decode :
    (getStringValue fuel mem u param value true = .ok shown →
      CharsFound mem (u.beyond value) value (u.charIndex value) (readCodes shown.valueAlias)) ∧
    (getMultiStringValue fuel mem u param value = .ok shown →
      ∃ pointers, PointersFound mem value pointers ∧ List.Forall₂
        (fun pointer entry ↦ entry.1 = (pointer.toNat : Int) ∧
          CharsFound mem (u.beyond pointer) pointer (u.charIndex pointer) (readCodes entry.2))
        pointers (readEntries shown.valueAlias)) :=
  ⟨getStringValue_decodes, getMultiStringValue_decodes⟩

/-- A parameter whose elements have four bytes, before it is shown. -/
def unshownParam : SdbEntry := ⟨0, 0, [], [], [], [], [], 4, false⟩

/-- A loop that begins at its first word, and sees no newline behind a word. -/
def startedLoop : Uninitialised := ⟨fun _ ↦ 0, fun _ ↦ 0, fun _ ↦ false, unshownParam⟩

/-- The two characters at address 16. -/
theorem string_aliases_decode_sample :
    ∃ shown, getStringValue 1 (bytesMemory [0x48, 0x69]) startedLoop unshownParam 16 true =
        .ok shown ∧ readCodes shown.valueAlias = [0x48, 0x69] ∧
      CharsFound (bytesMemory [0x48, 0x69]) (startedLoop.beyond 16) 16 (startedLoop.charIndex 16)
        (readCodes shown.valueAlias) := by
  have hread : getStringValue 1 (bytesMemory [0x48, 0x69]) startedLoop unshownParam 16 true =
      .ok { unshownParam with value := "0x10".toList, valueAlias := "72105".toList } := by
    decide +kernel
  exact ⟨_, hread, by decide +kernel, string_aliases_decode.1 hread⟩

/-- An alias tells which numbers are in memory. That of an array is read back as the low halves
of the words in front of the one that ends it; that of an array of pointers as the pointers, each
with the numbers behind it. -/
theorem number_aliases_decode :
    (value ≠ 0 → getNumberValue fuel mem param value true = .ok shown →
      NumbersFound mem value param.byteSize (readNumbers shown.valueAlias)) ∧
    (getMultiNumberValue fuel mem param value = .ok shown →
      ∃ pointers, PointersFound mem value pointers ∧ List.Forall₂
        (fun pointer entry ↦ entry.1 = (pointer.toNat : Int) ∧
          NumbersFound mem pointer param.byteSize (readNumbers entry.2))
        pointers (readEntries shown.valueAlias)) :=
  ⟨getNumberValue_decodes, getMultiNumberValue_decodes⟩

/-- The two pointers at address 0, to a number and to nothing. -/
theorem number_aliases_decode_sample :
    ∃ shown, getMultiNumberValue 3 pointerMemory unshownParam 0 = .ok shown ∧
      readEntries shown.valueAlias = [(0x100, "[7]".toList), (0x200, [])] ∧
      ∃ pointers, PointersFound pointerMemory 0 pointers ∧ List.Forall₂
        (fun pointer entry ↦ entry.1 = (pointer.toNat : Int) ∧
          NumbersFound pointerMemory pointer unshownParam.byteSize (readNumbers entry.2))
        pointers (readEntries shown.valueAlias) := by
  have hread : getMultiNumberValue 3 pointerMemory unshownParam 0 =
      .ok { unshownParam with valueAlias := "[ 0x100=[7], 0x200= ]".toList } := by
    decide +kernel
  exact ⟨_, hread, by decide +kernel, number_aliases_decode.2 hread⟩

end Aliases

end ArgsDebugger
