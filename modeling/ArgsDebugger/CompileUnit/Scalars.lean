import ArgsDebugger.CompileUnit.TypeName

/-!
# Scalars in registers

An integer or a character of one, two, four or eight bytes is passed in the low bytes of a
register, and the convention leaves the bits above them undefined. The debugger renders the whole
register (`src/compile_unit.cc:761–797,854–873`): two runs that pass the same scalar show the same
text only when the bits above happen to extend it.
-/

namespace ArgsDebugger

open Lib Lib.Budget

/-- `DW_ATE_signed` and `DW_ATE_signed_char`. -/
def isSignedEncoding (encoding : Int) : Bool := encoding = 5 || encoding = 6

/-- `DW_ATE_unsigned`, `DW_ATE_unsigned_char` and `DW_ATE_UTF`. -/
def isUnsignedEncoding (encoding : Int) : Bool :=
  encoding = 7 || encoding = 8 || encoding = 0x10

/-- An integer or character type of a width that a register holds. -/
structure IsScalarBase (base : Datatype) : Prop where
  tag : base.typeName = .baseType
  encoding : isSignedEncoding base.encoding = true ∨ isUnsignedEncoding base.encoding = true
  byteSize : base.byteSize ∈ ([1, 2, 4, 8] : List Int)

/-- The low bytes of a register, as many as a type has. -/
def lowBytes (base : Datatype) (value : Word) : BitVec (8 * base.byteSize.toNat) :=
  value.setWidth (8 * base.byteSize.toNat)

/-- The scalar in a register: its low bytes with the signedness of the type. -/
def scalarValue (base : Datatype) (value : Word) : Int :=
  if isSignedEncoding base.encoding then (lowBytes base value).toInt
  else (lowBytes base value).toNat

section Tags

variable {dtName : Text} {tags : List DwTag} {s : TagScan}

/-- A tag that leaves the value in the register: no pointer, no array, no unspecified
parameters. -/
def KeepsValue (i : DwTag) : Prop :=
  i ≠ .pointerType ∧ i ≠ .arrayType ∧ i ≠ .unspecifiedParameters

/-- The last tag of a scan. -/
theorem scanTags_concat (hspecified : ∀ i ∈ tags, i ≠ .unspecifiedParameters) {i : DwTag}
    (hi : i ≠ .unspecifiedParameters) :
    scanTags dtName (tags ++ [i]) s = (scanTags dtName tags s).tag dtName i := by
  induction tags generalizing s with
  | nil =>
    show scanTags dtName [i] s = s.tag dtName i
    exact if_neg hi
  | cons j tags ih =>
    have hj := hspecified j List.mem_cons_self
    rw [List.cons_append, scanTags, if_neg hj, scanTags, if_neg hj]
    apply ih
    exact fun k hk ↦ hspecified k (List.mem_cons_of_mem j hk)

/-- Without pointers and arrays none are counted. -/
theorem pointerCount_scanTags (h : ∀ i ∈ tags, KeepsValue i) :
    (scanTags dtName tags s).pointerCount = s.pointerCount := by
  induction tags generalizing s with
  | nil => rfl
  | cons i tags ih =>
    obtain ⟨hpointer, harray, hspecified⟩ := h i List.mem_cons_self
    have htag : (s.tag dtName i).pointerCount = s.pointerCount := by
      unfold TagScan.tag
      split <;> first | contradiction | rfl | (split_ifs <;> rfl)
    rw [scanTags, if_neg hspecified, ← htag]
    exact ih fun j hj ↦ h j (List.mem_cons_of_mem i hj)

/-- Only a text with a word for characters or numbers makes the value such. -/
theorem named_of_scanTags
    (h : (scanTags dtName tags s).datatypeName = .number ∨
      (scanTags dtName tags s).datatypeName = .string) :
    (s.datatypeName = .number ∨ s.datatypeName = .string) ∨
      (isStringValue dtName = true ∨ isNumberValue dtName = true) := by
  induction tags generalizing s with
  | nil => exact .inl h
  | cons i tags ih =>
    unfold scanTags at h
    split at h
    · exact .inl h
    · apply (ih h).elim _ .inr
      intro hs
      unfold TagScan.tag at hs
      split at hs
      · exact .inl hs
      · exact .inl hs
      · split_ifs at hs with hstring hnumber
        · exact .inr (.inl hstring)
        · exact .inr (.inr hnumber)
        · exact .inl hs
      · simp at hs
      · exact .inl hs

/-- Behind a base type the value is named when the text has a word for it. -/
theorem tag_baseType_named (h : isStringValue dtName = true ∨ isNumberValue dtName = true) :
    (s.tag dtName .baseType).datatypeName = .number ∨
      (s.tag dtName .baseType).datatypeName = .string := by
  unfold TagScan.tag
  cases hstring : isStringValue dtName with
  | true => exact .inr rfl
  | false =>
    rw [hstring] at h
    have hnumber := h.resolve_left Bool.false_ne_true
    rw [hnumber]
    exact .inl rfl

/-- The scan knows of no pointer, and of numbers or characters. -/
def ShowsDecimal (scan : TagScan) : Prop :=
  scan.unspecified = false ∧ scan.pointerCount = 0 ∧
    (scan.datatypeName = .number ∨ scan.datatypeName = .string)

/-- Tags up to a base type show the decimal of a value when none of them hides the value, and the
text has a word for it. -/
theorem scanTags_shows_iff :
    ShowsDecimal (scanTags dtName (tags ++ [.baseType]) .start) ↔
      (∀ i ∈ tags, KeepsValue i) ∧
        (isStringValue dtName = true ∨ isNumberValue dtName = true) := by
  have hbase : KeepsValue .baseType := ⟨by decide, by decide, by decide⟩
  constructor
  · rintro ⟨hunspecified, hcount, hnamed⟩
    have hspecified : ∀ i ∈ tags ++ [.baseType], i ≠ .unspecifiedParameters := by
      rintro i hi rfl
      rw [scanTags_unspecified_of_mem hi] at hunspecified
      cases hunspecified
    have hnone : ¬ ∃ i ∈ tags ++ [.baseType], i = .pointerType ∨ i = .arrayType := by
      intro hsome
      have hlt : TagScan.start.pointerCount <
          (scanTags dtName (tags ++ [.baseType]) .start).pointerCount :=
        (scanTags_of_specified hspecified).2.2 hsome
      rw [hcount] at hlt
      exact Nat.not_lt_zero _ hlt
    constructor
    · intro i hi
      have hmem : i ∈ tags ++ [.baseType] := List.mem_append_left _ hi
      refine ⟨?_, ?_, hspecified i hmem⟩
      · exact fun h ↦ hnone ⟨i, hmem, .inl h⟩
      · exact fun h ↦ hnone ⟨i, hmem, .inr h⟩
    · apply (named_of_scanTags hnamed).resolve_left
      rintro (h | h) <;> cases h
  · rintro ⟨hkeeps, hwords⟩
    have hall : ∀ i ∈ tags ++ [.baseType], KeepsValue i := by
      intro i hi
      rcases List.mem_append.mp hi with hi | hi
      · exact hkeeps i hi
      · rwa [List.mem_singleton.mp hi]
    refine ⟨?_, pointerCount_scanTags hall, ?_⟩
    · exact (scanTags_of_specified fun i hi ↦ (hall i hi).2.2).1
    · rw [scanTags_concat (fun i hi ↦ (hkeeps i hi).2.2) hbase.2.2]
      exact tag_baseType_named hwords

end Tags

section Scalars

variable {funcParam : DatatypeEntry} {pre : List Datatype} {base : Datatype}

/-- A plain text is a decimal for numbers and characters, and then it is that of the whole
register. -/
theorem plainText_eq_decimal_iff (value : Word) (name : DatatypeName) (n : Int) :
    plainText value name = decimal n ↔ (name = .number ∨ name = .string) ∧ value.toInt = n := by
  have hdecimal : decimal value.toInt = decimal n ↔ value.toInt = n :=
    ⟨decimal_inj, congrArg decimal⟩
  cases name with
  | number => exact hdecimal.trans (by simp)
  | string => exact hdecimal.trans (by simp)
  | empty =>
    have hword : plainText value .empty ≠ decimal n := by
      intro h
      exact notMem_decimal (c := 'u') (by decide) (by decide) n (h ▸ List.mem_cons_self)
    simp [hword]
  | struct =>
    have hdots : plainText value .struct ≠ decimal n := by
      intro h
      exact notMem_decimal (c := '.') (by decide) (by decide) n (h ▸ List.mem_cons_self)
    simp [hdots]

theorem longToHexString_ne_decimal (value : Word) (n : Int) :
    longToHexString value ≠ decimal n := by
  intro h
  apply notMem_decimal (c := 'x') (by decide) (by decide) n
  rw [← h, longToHexString]
  split
  · decide
  · exact List.mem_cons_of_mem '0' List.mem_cons_self

/-- Which values are shown as the decimal of a number: those behind no pointer, of numbers and
characters. -/
theorem valueText_eq_decimal_iff (mem : Memory) (value : Word) (scan : TagScan) (n : Int) :
    valueText mem value scan = decimal n ↔
      ShowsDecimal scan ∧ value.toInt = n := by
  have hdots : "...".toList ≠ decimal n := by
    intro h
    exact notMem_decimal (c := '.') (by decide) (by decide) n (h ▸ List.mem_cons_self)
  have hzero : "0x0".toList ≠ decimal n := by
    intro h
    exact notMem_decimal (c := 'x') (by decide) (by decide) n
      (h ▸ List.mem_cons_of_mem '0' List.mem_cons_self)
  unfold valueText ShowsDecimal
  cases scan.unspecified with
  | true =>
    rw [if_pos rfl]
    exact iff_of_false hdots (by simp)
  | false =>
    rw [if_neg Bool.false_ne_true]
    by_cases hcount : scan.pointerCount = 0
    · rw [if_pos hcount, plainText_eq_decimal_iff]
      simp [hcount]
    · rw [if_neg hcount]
      apply iff_of_false
      · split
        · exact hzero
        · exact longToHexString_ne_decimal value n
      · simp [hcount]

/-- The tags of a chain to a base type show its value when none of them hides it, and the types
name it. -/
theorem chainTags_shows_iff (hbase : base.typeName = .baseType) :
    ShowsDecimal (chainTags funcParam (pre ++ [base])) ↔
      (∀ i ∈ pre, KeepsValue i.typeName) ∧
        (isStringValue (typeText funcParam (pre ++ [base])) = true ∨
          isNumberValue (typeText funcParam (pre ++ [base])) = true) := by
  rw [chainTags, List.map_append, List.map_singleton, hbase, scanTags_shows_iff,
    List.forall_mem_map]

/-- The types name the value when the name of one of them has a word for it. -/
theorem typeText_names_iff (chain : List Datatype) :
    (isStringValue (typeText funcParam chain) = true ∨
        isNumberValue (typeText funcParam chain) = true) ↔
      ∃ i ∈ chain, WritesName i ∧
        (stringWord <:+: i.name ∨ ∃ w ∈ numberWords, w <:+: i.name) := by
  rw [typeText, isStringValue_described_iff, isNumberValue_described_iff, ← exists_or]
  simp only [and_or_left]

/-- Registers that agree in the low bytes hold the same scalar. -/
theorem scalarValue_congr {value value' : Word} (h : lowBytes base value = lowBytes base value') :
    scalarValue base value = scalarValue base value' := by
  rw [scalarValue, scalarValue, h]

end Scalars

/-- What two payloads show of the parameter with an index is the same text, the decimal of a
number. -/
def ShowBoth (payload payload' : SdbFunction) (index : Nat) (n : Int) : Prop :=
  ∃ entry entry', payload.paramVars[index]? = some entry ∧
    payload'.paramVars[index]? = some entry' ∧ entry.value = entry'.value ∧
    entry.value = decimal n

/-- Scalars of two runs: with registers that agree in the low bytes of an integer or character
parameter, both payloads show the scalar in them exactly when no type in front of the base type
hides the value, the name of one of the types has a word for numbers or characters, and each
register, as a whole and signed, is the scalar. -/
theorem scalar_payloads_iff {units units' : List CompileUnit} {cu : CompileUnit} {func : Datatype}
    {cuIndex fnIndex : Int} {index : Nat} {funcParam : DatatypeEntry}
    (hparam : func.parameters[index]? = some funcParam)
    (hformal : funcParam.typeName = .formalParameter) {pre : List Datatype} {base : Datatype}
    (ht : Trail (nextType cu.datatypes) funcParam.toDatatype (pre ++ [base]))
    (hbase : IsScalarBase base) {register : ArgRegister}
    (hregister : argRegister (toInt32 (index + 1)) = some register) {fuel fuel' : Nat}
    {mem mem' : Memory} {u u' : Uninitialised} {regs regs' : UserRegs}
    {payload payload' : SdbFunction}
    (h : generateFunctionPayload fuel mem u units cu func regs cuIndex fnIndex = .ok payload)
    (h' : generateFunctionPayload fuel' mem' u' units' cu func regs' cuIndex fnIndex =
      .ok payload')
    (hagree : lowBytes base (regs.get register) = lowBytes base (regs'.get register)) :
    ShowBoth payload payload' index (scalarValue base (regs.get register)) ↔
      ((∀ i ∈ pre, KeepsValue i.typeName) ∧ ∃ i ∈ pre ++ [base], WritesName i ∧
        (stringWord <:+: i.name ∨ ∃ w ∈ numberWords, w <:+: i.name)) ∧
      (regs.get register).toInt = scalarValue base (regs.get register) ∧
      (regs'.get register).toInt = scalarValue base (regs'.get register) := by
  obtain ⟨shown, hshown, hentry⟩ := (entries_of_generateFunctionPayload h).2 index funcParam hparam
  obtain ⟨shown', hshown', hentry'⟩ :=
    (entries_of_generateFunctionPayload h').2 index funcParam hparam
  have hvalue := value_of_parameterEntry hformal ht hregister hshown
  have hvalue' := value_of_parameterEntry hformal ht hregister hshown'
  rw [← typeText_names_iff, ← chainTags_shows_iff hbase.tag, ← scalarValue_congr hagree]
  have hboth : ShowBoth payload payload' index (scalarValue base (regs.get register)) ↔
      shown.value = decimal (scalarValue base (regs.get register)) ∧
        shown'.value = decimal (scalarValue base (regs.get register)) := by
    constructor
    · rintro ⟨entry, entry', hat, hat', hsame, hdecimal⟩
      rw [hentry] at hat
      rw [hentry'] at hat'
      cases hat
      cases hat'
      exact ⟨hdecimal, hsame.symm.trans hdecimal⟩
    · rintro ⟨hdecimal, hdecimal'⟩
      exact ⟨_, _, hentry, hentry', hdecimal.trans hdecimal'.symm, hdecimal⟩
  rw [hboth, hvalue, hvalue', valueText_eq_decimal_iff, valueText_eq_decimal_iff]
  exact and_and_left.symm

/-- The base type `int` of the sample unit. -/
theorem isScalarBase_intType : IsScalarBase intType where
  tag := rfl
  encoding := .inl rfl
  byteSize := by decide

/-- An `int` in `rdi` whose upper half is clean is shown in both runs. -/
theorem scalar_payloads_iff_sample :
    ∃ payload payload',
      generateFunctionPayload 2 zeroMemory zeroUninitialised [binaryUnit 4] (binaryUnit 4)
        (binaryFunction 4) ⟨5, 0, 0, 0, 0, 0, 0⟩ 0 0 = .ok payload ∧
      generateFunctionPayload 2 zeroMemory zeroUninitialised [binaryUnit 4] (binaryUnit 4)
        (binaryFunction 4) ⟨5, 900, 0, 0, 0, 0, 0⟩ 0 0 = .ok payload' ∧
      ShowBoth payload payload' 0 5 := by
  obtain ⟨payload, h⟩ : ∃ payload, generateFunctionPayload 2 zeroMemory zeroUninitialised
      [binaryUnit 4] (binaryUnit 4) (binaryFunction 4) ⟨5, 0, 0, 0, 0, 0, 0⟩ 0 0 =
        .ok payload := ⟨_, rfl⟩
  obtain ⟨payload', h'⟩ : ∃ payload, generateFunctionPayload 2 zeroMemory zeroUninitialised
      [binaryUnit 4] (binaryUnit 4) (binaryFunction 4) ⟨5, 900, 0, 0, 0, 0, 0⟩ 0 0 =
        .ok payload := ⟨_, rfl⟩
  have ht : Trail (nextType (binaryUnit 4).datatypes) (typedParameter 4).toDatatype
      ([] ++ [intType]) := .step rfl (.stop rfl)
  have hnames : ∃ i ∈ [] ++ [intType], WritesName i ∧
      (stringWord <:+: i.name ∨ ∃ w ∈ numberWords, w <:+: i.name) :=
    ⟨intType, List.mem_cons_self, ⟨by decide, by decide⟩,
      .inr ⟨"int".toList, by decide, List.infix_rfl⟩⟩
  have hregister : argRegister (toInt32 ((0 : Nat) + 1)) = some .rdi := rfl
  exact ⟨payload, payload', h, h', (scalar_payloads_iff rfl rfl ht
    isScalarBase_intType hregister h h' rfl).mpr
    ⟨⟨fun i hi ↦ absurd hi List.not_mem_nil, hnames⟩, by decide, by decide⟩⟩

/-- A `mov` to `edi` leaves minus one in `rdi` as 4294967295, and so it is shown. -/
theorem scalar_payloads_upper_half :
    ¬ ∀ (units units' : List CompileUnit) (cu : CompileUnit) (func : Datatype)
      (cuIndex fnIndex : Int) (index : Nat) (funcParam : DatatypeEntry)
      (pre : List Datatype) (base : Datatype) (register : ArgRegister),
      func.parameters[index]? = some funcParam → funcParam.typeName = .formalParameter →
      Trail (nextType cu.datatypes) funcParam.toDatatype (pre ++ [base]) →
      (∀ i ∈ pre, i.typeName ≠ .pointerType) → IsScalarBase base →
      argRegister (toInt32 (index + 1)) = some register →
      ∀ fuel fuel' mem mem' u u' (regs regs' : UserRegs) payload payload',
        generateFunctionPayload fuel mem u units cu func regs cuIndex fnIndex = .ok payload →
        generateFunctionPayload fuel' mem' u' units' cu func regs' cuIndex fnIndex =
          .ok payload' →
        lowBytes base (regs.get register) = lowBytes base (regs'.get register) →
        ShowBoth payload payload' index (scalarValue base (regs.get register)) := by
  intro h
  obtain ⟨payload, hpayload⟩ : ∃ payload, generateFunctionPayload 2 zeroMemory zeroUninitialised
      [binaryUnit 4] (binaryUnit 4) (binaryFunction 4) ⟨0xffffffff, 0, 0, 0, 0, 0, 0⟩ 0 0 =
        .ok payload := ⟨_, rfl⟩
  have ht : Trail (nextType (binaryUnit 4).datatypes) (typedParameter 4).toDatatype
      ([] ++ [intType]) := .step rfl (.stop rfl)
  obtain ⟨entry, entry', hentry, -, -, hvalue⟩ := h _ _ _ _ _ _ 0 (typedParameter 4) [] intType
    .rdi rfl rfl ht (fun i hi ↦ absurd hi List.not_mem_nil) isScalarBase_intType rfl
    _ _ _ _ _ _ _ _ _ _ hpayload hpayload rfl
  obtain ⟨shown, hshown, hat⟩ :=
    (entries_of_generateFunctionPayload hpayload).2 0 (typedParameter 4) rfl
  rw [hat] at hentry
  cases hentry
  have hregister : argRegister (toInt32 ((0 : Nat) + 1)) = some .rdi := rfl
  rw [value_of_parameterEntry rfl ht hregister hshown, valueText_eq_decimal_iff] at hvalue
  exact absurd hvalue.2 (by decide)

end ArgsDebugger
