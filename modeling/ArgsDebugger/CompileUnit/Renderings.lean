import ArgsDebugger.CompileUnit.Isolation

/-!
# Numbers behind their renderings

`dwarf::to_string` renders a reference into `.debug_info` as `<0x77>`, a location list as
`<loclist 0x10080>`, addresses and unclassified constants in hexadecimal with a prefix, and the
other constants in decimal. Each setter decodes the text of an attribute in one format and stores
the number in the attribute's field (`src/compile_unit.cc:410–636`). What was rendered is stored
again. The other way round not all that is stored was rendered: the three characters in front of a
reference are skipped unread, and so is all that follows the digits.
-/

namespace ArgsDebugger

open Lib

/-- A machine word holds every `long`. -/
theorem toInt_ofInt_of_isLong {v : Int} (hv : IsLong v) : (BitVec.ofInt 64 v).toInt = v := by
  obtain ⟨hlow, hhigh⟩ := hv
  rw [BitVec.toInt_ofInt]
  exact Int.bmod_eq_of_le (by omega) (by omega)

/-- A field that was written is read back. -/
theorem number_store_datatypeFields {r : DatatypeEntry} {first : DwAt} {v : Int}
    (hfield : (datatypeFields.number r first).isSome) (hv : IsLong v) :
    datatypeFields.number (datatypeFields.store r first v) first = some v := by
  cases first
  case lowPc | highPc => exact congrArg some (toInt_ofInt_of_isLong hv)
  all_goals first
    | rfl
    | cases hfield

theorem number_store_unitFields {r : CompileUnit} {first : DwAt} {v : Int}
    (hfield : (unitFields.number r first).isSome) (hv : IsLong v) :
    unitFields.number (unitFields.store r first v) first = some v := by
  cases first
  case lowPc | highPc => exact congrArg some (toInt_ofInt_of_isLong hv)
  all_goals cases hfield

/-- A setter decodes what its table asks for, in the format of the table, and stores it. -/
structure StoresDecoded {ρ : Type} (setter : DwAt → Text → ρ → Except Failure ρ)
    (number : DwAt → Option NumberFormat) (fields : NumberFields ρ) : Prop where
  decodes : ∀ first second r, ∀ format ∈ number first,
    setter first second r = (format.decode second).map (fields.store r first)
  stores : ∀ first r v, (number first).isSome → IsLong v →
    fields.number (fields.store r first v) first = some v

theorem SetsFields.storesDecoded {ρ : Type} {setter : DwAt → Text → ρ → Except Failure ρ}
    {number : DwAt → Option NumberFormat} {write : DwAt → Text → Int → ρ → ρ}
    {fields : NumberFields ρ} (h : SetsFields setter number write)
    (hwrite : ∀ first, first.isText = false → ∀ second v r,
      write first second v r = fields.store r first v)
    (hfield : ∀ first r v, (number first).isSome → IsLong v →
      fields.number (fields.store r first v) first = some v) :
    StoresDecoded setter number fields where
  decodes first second r format hformat := by
    obtain ⟨hnumber, hset⟩ := h.numbers first second r format hformat
    rw [hset]
    congr 1
    funext v
    exact hwrite first hnumber second v r
  stores := hfield

theorem writeDatatype_number (first : DwAt) (hnumber : first.isText = false) (second : Text)
    (v : Int) (r : DatatypeEntry) :
    writeDatatype first second v r = datatypeFields.store r first v := by
  cases first
  case name | location | frameBase | prototyped | external | declaration => cases hnumber
  all_goals rfl

theorem writeUnit_number (first : DwAt) (hnumber : first.isText = false) (second : Text)
    (v : Int) (r : CompileUnit) : writeUnit first second v r = unitFields.store r first v := by
  cases first
  case name | producer | compDir => cases hnumber
  all_goals rfl

theorem storesDecoded_setNewCu : StoresDecoded setNewCu unitNumber unitFields := by
  apply setsFields_setNewCu.storesDecoded writeUnit_number
  intro first r v hfirst
  apply number_store_unitFields
  cases first
  case lowPc | highPc => rfl
  all_goals cases hfirst

theorem storesDecoded_addFunctionField :
    StoresDecoded addFunctionField functionNumber datatypeFields := by
  apply setsFields_addFunctionField.storesDecoded writeDatatype_number
  intro first r v hfirst
  apply number_store_datatypeFields
  cases first
  case declFile | declLine | lowPc | highPc | inline | type | sibling => rfl
  all_goals cases hfirst

theorem storesDecoded_addGlobalVariableField :
    StoresDecoded addGlobalVariableField globalVariableNumber datatypeFields := by
  apply setsFields_addGlobalVariableField.storesDecoded writeDatatype_number
  intro first r v hfirst
  apply number_store_datatypeFields
  cases first
  case declFile | declLine | type => rfl
  all_goals cases hfirst

theorem storesDecoded_addDatatypeField (nodeTag : DwTag) :
    StoresDecoded (addDatatypeField nodeTag) (datatypeNumber nodeTag) datatypeFields := by
  apply (setsFields_addDatatypeField nodeTag).storesDecoded writeDatatype_number
  intro first r v hfirst
  apply number_store_datatypeFields
  cases first
  case byteSize | encoding | declFile | declLine | sibling | type | upperBound |
      dataMemberLocation => rfl
  all_goals cases hfirst

section Texts

variable {s : Text} {n v : Int} {format : NumberFormat}

/-- A text in the form of a reference into `.debug_info`, to the number that its digits spell. -/
def IsReferenceTo (s : Text) (n : Int) : Prop :=
  ∃ digits, digits ≠ [] ∧ (∀ c ∈ digits, isDigitOf 16 c = true) ∧
    s = "<0x".toList ++ digits ++ ['>'] ∧ n = digitsValue 16 digits

/-- The texts that `dwarf::to_string` gives for a number, by the format in which a setter decodes
the attribute. -/
inductive Renders : NumberFormat → Int → Text → Prop
  /-- A signed or unsigned constant. -/
  | constant (v : Int) : Renders .plain v (decimal v)
  /-- An address or an unclassified constant. -/
  | address (n : Nat) : Renders .plain n ("0x".toList ++ Nat.toDigits 16 n)
  | reference (n : Nat) : Renders .reference n ("<0x".toList ++ Nat.toDigits 16 n ++ ['>'])
  | loclist (n : Nat) : Renders .location n ("<loclist 0x".toList ++ Nat.toDigits 16 n ++ ['>'])
  | location {v : Int} {text : Text} (h : Renders .plain v text) : Renders .location v text

/-- What is behind a number of skipped characters is decoded up to the bracket. -/
private theorem stolBehind_bracketed (skipped : Text) {digits : Text}
    (hskip : 0 < skipped.length) (hne : digits ≠ [])
    (hdigits : ∀ c ∈ digits, isDigitOf 16 c = true) :
    stolBehind (skipped ++ digits ++ ['>']) skipped.length =
      if IsLong (digitsValue 16 digits) then .ok (digitsValue 16 digits : Int)
      else .error .outOfRange := by
  have hlen : skipped.length ≤ (skipped ++ digits ++ ['>']).length := by
    simp only [List.length_append]
    omega
  have hdrop : (skipped ++ digits ++ ['>']).drop skipped.length = digits ++ ['>'] := by
    rw [List.append_assoc, List.drop_left]
  rw [stolBehind_of_le hskip hlen, hdrop, stol_eq,
    numeral_hexDigits hne hdigits (by decide) (by decide)]

/-- A reference is decoded when its number is a `long`. -/
theorem decode_of_isReferenceTo (h : IsReferenceTo s n) :
    NumberFormat.reference.decode s = if IsLong n then .ok n else .error .outOfRange := by
  obtain ⟨digits, hne, hdigits, rfl, rfl⟩ := h
  exact stolBehind_bracketed "<0x".toList (by decide) hne hdigits

private theorem hexDigits (n : Nat) : Nat.toDigits 16 n ≠ [] ∧
    (∀ c ∈ Nat.toDigits 16 n, isDigitOf 16 c = true) ∧
      digitsValue 16 (Nat.toDigits 16 n) = n :=
  ⟨Nat.toDigits_ne_nil, fun _ ↦ isDigitOf_of_mem_toDigits (by omega) (by omega),
    digitsValue_toDigits (by omega) (by omega)⟩

/-- A plain number does not look like a location list. -/
private theorem not_loclist_of_renders (h : Renders .plain v s) :
    ¬ "<loclist".toList.isPrefixOf s = true := by
  intro hbegins
  obtain ⟨rest, hrest⟩ : "<loclist".toList <+: s := List.isPrefixOf_iff_prefix.mp hbegins
  have hmem : '<' ∈ s := by
    rw [← hrest]
    exact List.mem_append_left rest (by decide)
  cases h with
  | constant => exact notMem_decimal rfl (by decide) v hmem
  | address n =>
    rw [List.mem_append] at hmem
    rcases hmem with hmem | hmem
    · exact absurd hmem (by decide)
    · exact absurd ((hexDigits n).2.1 '<' hmem) (by decide)

/-- A plain number is read when it is a `long`, and is out of range otherwise. -/
private theorem stol_of_renders (h : Renders .plain v s) :
    stol s 0 = if IsLong v then .ok v else .error .outOfRange := by
  cases h with
  | constant => rw [stol_eq, numeral_decimal]
  | address n =>
    have hread : numeral ("0x".toList ++ Nat.toDigits 16 n) 0 = some (n : Int) := numeral_hex n
    rw [stol_eq, hread]

/-- What was rendered is decoded when it is a `long`, and is out of range otherwise. -/
theorem decode_of_renders (h : Renders format v s) :
    format.decode s = if IsLong v then .ok v else .error .outOfRange := by
  cases h with
  | constant => exact stol_of_renders (.constant v)
  | address n => exact stol_of_renders (.address n)
  | reference n =>
    obtain ⟨hne, hdigits, hvalue⟩ := hexDigits n
    exact decode_of_isReferenceTo ⟨Nat.toDigits 16 n, hne, hdigits, rfl, by rw [hvalue]⟩
  | loclist n =>
    obtain ⟨hne, hdigits, hvalue⟩ := hexDigits n
    have hbegins : "<loclist".toList.isPrefixOf
        ("<loclist 0x".toList ++ Nat.toDigits 16 n ++ ['>']) = true := rfl
    have hread := stolBehind_bracketed "<loclist 0x".toList (by decide) hne hdigits
    rw [hvalue] at hread
    rw [NumberFormat.decode, if_pos hbegins]
    exact hread
  | location h =>
    rw [NumberFormat.decode, if_neg (not_loclist_of_renders h)]
    exact stol_of_renders h

/-- The texts that the format of references takes: those that spell a number of the range of
`long` in hexadecimal behind three characters. -/
theorem fits_reference_iff :
    NumberFormat.reference.Fits s ↔ ∃ v, SpellsHex (s.drop 3) v ∧ IsLong v := by
  unfold NumberFormat.Fits NumberFormat.value
  simp only [Option.mem_def, numeral_sixteen_iff]

end Texts

/-- A setter stores the number that was rendered, when it is a `long`, and raises on a larger
one. -/
def UndoesRendering {ρ : Type} (setter : DwAt → Text → ρ → Except Failure ρ)
    (number : DwAt → Option NumberFormat) (fields : NumberFields ρ) : Prop :=
  ∀ first text r v, ∀ format ∈ number first, Renders format v text →
    (IsLong v → setter first text r = .ok (fields.store r first v) ∧
      fields.number (fields.store r first v) first = some v) ∧
    (0x8000000000000000 ≤ v → setter first text r = .error .outOfRange)

theorem StoresDecoded.undoesRendering {ρ : Type} {setter : DwAt → Text → ρ → Except Failure ρ}
    {number : DwAt → Option NumberFormat} {fields : NumberFields ρ}
    (h : StoresDecoded setter number fields) : UndoesRendering setter number fields := by
  intro first text r v format hformat hrenders
  rw [h.decodes first text r format hformat, decode_of_renders hrenders]
  constructor
  · intro hlong
    have hsome : (number first).isSome := Option.isSome_of_mem hformat
    rw [if_pos hlong]
    exact ⟨rfl, h.stores first r v hsome hlong⟩
  · intro hlarge
    have hlong : ¬ IsLong v := fun hlong ↦ by
      have := hlong.2
      omega
    rw [if_neg hlong]
    rfl

/-- All four setters store what was rendered. -/
theorem setters_undo_rendering :
    UndoesRendering setNewCu unitNumber unitFields ∧
    UndoesRendering addFunctionField functionNumber datatypeFields ∧
    UndoesRendering addGlobalVariableField globalVariableNumber datatypeFields ∧
    ∀ nodeTag, UndoesRendering (addDatatypeField nodeTag) (datatypeNumber nodeTag)
      datatypeFields :=
  ⟨storesDecoded_setNewCu.undoesRendering, storesDecoded_addFunctionField.undoesRendering,
    storesDecoded_addGlobalVariableField.undoesRendering,
    fun nodeTag ↦ (storesDecoded_addDatatypeField nodeTag).undoesRendering⟩

/-- A location list is stored behind the characters that are skipped. -/
theorem setters_undo_rendering_sample :
    addDatatypeField .member .dataMemberLocation "<loclist 0x1f>".toList default =
      .ok { (default : DatatypeEntry) with dataMemberLocation := 31 } := by
  have hrenders : Renders .location 31 "<loclist 0x1f>".toList := .loclist 31
  exact ((setters_undo_rendering.2.2.2 .member .dataMemberLocation _ default 31 .location rfl
    hrenders).1 (by decide)).1

/-- Whatever a setter stores for an attribute from a text, the text is a reference to it. -/
def TakesReferencesOnly (setter : DwAt → Text → DatatypeEntry → Except Failure DatatypeEntry)
    (first : DwAt) (s : Text) (r : DatatypeEntry) : Prop :=
  ∀ r', setter first s r = .ok r' →
    ∃ n, datatypeFields.number r' first = some n ∧ IsReferenceTo s n

/-- A setter that decodes references takes nothing but references on exactly the texts that are
references, or that spell no `long` in hexadecimal behind three characters. -/
theorem StoresDecoded.references_iff
    {setter : DwAt → Text → DatatypeEntry → Except Failure DatatypeEntry}
    {number : DwAt → Option NumberFormat} (h : StoresDecoded setter number datatypeFields)
    {first : DwAt} (hfirst : number first = some .reference) (s : Text) (r : DatatypeEntry) :
    TakesReferencesOnly setter first s r ↔
      (∃ n, IsReferenceTo s n) ∨ ¬ ∃ v, SpellsHex (s.drop 3) v ∧ IsLong v := by
  have hset : setter first s r =
      (NumberFormat.reference.decode s).map (datatypeFields.store r first) :=
    h.decodes first s r .reference hfirst
  rw [← fits_reference_iff]
  constructor
  · intro honly
    by_cases hfits : NumberFormat.reference.Fits s
    · obtain ⟨v, hv⟩ := isOk_iff_exists.mp (NumberFormat.decode_isOk_iff.mpr hfits)
      rw [hv] at hset
      obtain ⟨n, -, hn⟩ := honly _ hset
      exact .inl ⟨n, hn⟩
    · exact .inr hfits
  · intro hs r' hr'
    rw [hset, map_eq_ok] at hr'
    obtain ⟨v, hv, rfl⟩ := hr'
    rcases hs with ⟨n, hn⟩ | hfits
    · rw [decode_of_isReferenceTo hn] at hv
      split at hv
      · next hlong =>
        cases hv
        have hsome : (number first).isSome := Option.isSome_of_mem hfirst
        exact ⟨v, h.stores first r v hsome hlong, hn⟩
      · cases hv
    · exact absurd (NumberFormat.decode_isOk_iff.mp (isOk_iff_exists.mpr ⟨v, hv⟩)) hfits

/-- References only: at an attribute that it decodes as a reference each of the three setters takes
nothing but references on exactly the texts that are references, or that spell no `long` in
hexadecimal behind three characters. -/
theorem takesReferencesOnly_iff (first : DwAt) (s : Text) (r : DatatypeEntry) :
    (functionNumber first = some .reference →
      (TakesReferencesOnly addFunctionField first s r ↔
        (∃ n, IsReferenceTo s n) ∨ ¬ ∃ v, SpellsHex (s.drop 3) v ∧ IsLong v)) ∧
    (globalVariableNumber first = some .reference →
      (TakesReferencesOnly addGlobalVariableField first s r ↔
        (∃ n, IsReferenceTo s n) ∨ ¬ ∃ v, SpellsHex (s.drop 3) v ∧ IsLong v)) ∧
    ∀ nodeTag, datatypeNumber nodeTag first = some .reference →
      (TakesReferencesOnly (addDatatypeField nodeTag) first s r ↔
        (∃ n, IsReferenceTo s n) ∨ ¬ ∃ v, SpellsHex (s.drop 3) v ∧ IsLong v) :=
  ⟨fun hfirst ↦ storesDecoded_addFunctionField.references_iff hfirst s r,
    fun hfirst ↦ storesDecoded_addGlobalVariableField.references_iff hfirst s r,
    fun nodeTag hfirst ↦
      (storesDecoded_addDatatypeField nodeTag).references_iff hfirst s r⟩

/-- Of the text `<0x77>` a function takes a reference. -/
theorem takesReferencesOnly_sample :
    TakesReferencesOnly addFunctionField .type "<0x77>".toList default := by
  apply ((takesReferencesOnly_iff .type "<0x77>".toList default).1 rfl).mpr
  left
  exact ⟨0x77, "77".toList, by decide, by simp [isDigitOf, digitVal], rfl, rfl⟩

/-- A reference into `.debug_types` is stored as the offset 0xeb. -/
theorem takesReferencesOnly_type_unit :
    ¬ ∀ (nodeTag : DwTag) (first : DwAt) (s : Text) (r : DatatypeEntry),
      datatypeNumber nodeTag first = some .reference →
        TakesReferencesOnly (addDatatypeField nodeTag) first s r := by
  intro h
  have hset : addDatatypeField .formalParameter .type "<.debug_types+0x77>".toList default =
      .ok { (default : DatatypeEntry) with type := 0xeb } := by decide
  obtain ⟨n, -, digits, -, -, htext, -⟩ := h .formalParameter .type _ default rfl _ hset
  exact absurd (List.cons.inj (List.cons.inj htext).2).1 (by decide)

end ArgsDebugger
