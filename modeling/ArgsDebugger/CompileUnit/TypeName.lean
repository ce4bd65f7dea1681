import ArgsDebugger.CompileUnit.CallingConvention
import ArgsDebugger.Lib.Separated

/-!
# Words in the name of a type

`get_datatype_metadata` writes the names along a chain of types into one text
(`src/compile_unit.cc:678–711`), and `is_number_value` and `is_string_value` search that text for
words (`src/parameter_extractor.cc:131–138,187–194`). The pieces are put together by blanks,
brackets and stars, none of which is in such a word: a word is found in the text when it is found
in a name. All names count alike, those of typedefs too.
-/

namespace ArgsDebugger

open Lib Lib.Budget

section Keywords

/-- The words that the patterns of `number_types` come down to. -/
def numberWords : List Text :=
  ["short".toList, "bool".toList, "int".toList, "long".toList, "float".toList, "double".toList,
    "signed".toList]

/-- The word that the patterns of `string_types` come down to. -/
def stringWord : Text := "char".toList

/-- Patterns that contain words, which are among them, are found where a word is. -/
theorem any_containsString_iff {patterns words : List Text} {text : Text}
    (hcontain : ∀ p ∈ patterns, ∃ w ∈ words, w <:+: p) (hwords : ∀ w ∈ words, w ∈ patterns) :
    patterns.any (containsString text) = true ↔ ∃ w ∈ words, w <:+: text := by
  simp only [List.any_eq_true, containsString, decide_eq_true_eq]
  constructor
  · rintro ⟨p, hp, htext⟩
    obtain ⟨w, hw, hwp⟩ := hcontain p hp
    exact ⟨w, hw, hwp.trans htext⟩
  · rintro ⟨w, hw, htext⟩
    exact ⟨w, hwords w hw, htext⟩

theorem isNumberValue_iff (text : Text) :
    isNumberValue text = true ↔ ∃ w ∈ numberWords, w <:+: text :=
  any_containsString_iff (by decide +kernel) (by decide +kernel)

theorem isStringValue_iff (text : Text) : isStringValue text = true ↔ stringWord <:+: text := by
  have hany : stringTypes.any (containsString text) = true ↔ ∃ w ∈ [stringWord], w <:+: text :=
    any_containsString_iff (by decide +kernel) (by decide +kernel)
  rw [isStringValue, hany]
  simp only [List.mem_singleton, exists_eq_left]

/-- A word that nothing but a name brings into the text of a type. -/
structure IsKeyword (w : Text) : Prop where
  ne_nil : w ≠ []
  separators : ∀ c ∈ [' ', '(', ')', '*'], c ∉ w
  fixed : ∀ text ∈ ["void".toList, "const".toList, "...".toList], ¬ w <:+: text

/-- All words that the classification looks for are such. -/
theorem isKeyword_words : ∀ w ∈ stringWord :: numberWords, IsKeyword w := by
  have hall : ∀ w ∈ stringWord :: numberWords,
      w ≠ [] ∧ (' ' ∉ w ∧ '(' ∉ w ∧ ')' ∉ w ∧ '*' ∉ w) ∧
        ∀ text ∈ ["void".toList, "const".toList, "...".toList], ¬ w <:+: text := by
    decide +kernel
  intro w hw
  obtain ⟨hne, ⟨hblank, hopen, hclose, hstar⟩, hfixed⟩ := hall w hw
  exact ⟨hne, by simp [hblank, hopen, hclose, hstar], hfixed⟩

theorem isKeyword_numberWords {w : Text} (hw : w ∈ numberWords) : IsKeyword w :=
  isKeyword_words w (List.mem_cons_of_mem stringWord hw)

theorem isKeyword_stringWord : IsKeyword stringWord := isKeyword_words stringWord List.mem_cons_self

end Keywords

section Text

variable {w : Text}

/-- The name of a record is written into the text unless it is a pointer or a const. -/
def WritesName (i : Datatype) : Prop := i.typeName ≠ .pointerType ∧ i.typeName ≠ .constType

namespace IsKeyword

variable (h : IsKeyword w)

include h

theorem infix_cons_iff {c : Char} (hc : c ∈ [' ', '(', ')', '*']) (text : Text) :
    w <:+: c :: text ↔ w <:+: text := by
  have hsplit := infix_separated_iff (l := []) (m := text) (h.separators c hc) h.ne_nil
  rw [List.nil_append] at hsplit
  rw [hsplit, List.infix_nil]
  exact or_iff_right h.ne_nil

theorem infix_append_cons_iff {c : Char} (hc : c ∈ [' ', '(', ')', '*']) (before text : Text) :
    w <:+: before ++ c :: text ↔ w <:+: before ∨ w <:+: text :=
  infix_separated_iff (h.separators c hc) h.ne_nil

/-- A name in brackets in front of a text. -/
theorem infix_bracketed_iff (name text : Text) :
    w <:+: '(' :: name ++ ") ".toList ++ text ↔ w <:+: text ∨ w <:+: name := by
  have htext : '(' :: name ++ ") ".toList ++ text = '(' :: (name ++ ')' :: ' ' :: text) := by simp
  rw [htext, h.infix_cons_iff (by simp), h.infix_append_cons_iff (by simp),
    h.infix_cons_iff (by simp), or_comm]

/-- A name and a blank in front of a text. -/
theorem infix_spaced_iff (name text : Text) :
    w <:+: name ++ ' ' :: text ↔ w <:+: text ∨ w <:+: name := by
  rw [h.infix_append_cons_iff (by simp), or_comm]

/-- A word in the text of a type, one record further: it is in the text before, or in the name. -/
theorem infix_prependType_iff (dt : Text) (tags : List DwTag) (i : Datatype) :
    w <:+: prependType dt tags i ↔ w <:+: dt ∨ WritesName i ∧ w <:+: i.name := by
  have hvoid := h.fixed "void".toList (by simp)
  have hconst := h.fixed "const".toList (by simp)
  unfold prependType
  by_cases hpointer : i.typeName = .pointerType
  · have hwrites : ¬ WritesName i := fun hw ↦ hw.1 hpointer
    simp only [if_pos hpointer, hwrites, false_and, or_false]
    split
    · have htext : "void ".toList ++ ('*' :: dt) = "void".toList ++ ' ' :: '*' :: dt := rfl
      rw [htext, h.infix_spaced_iff, h.infix_cons_iff (by simp)]
      exact or_iff_left hvoid
    · exact h.infix_cons_iff (by simp) dt
  · rw [if_neg hpointer]
    by_cases hconstType : i.typeName = .constType
    · have hwrites : ¬ WritesName i := fun hw ↦ hw.2 hconstType
      have htypedef : i.typeName ≠ .typedef := by
        rw [hconstType]
        decide
      have htext : "const ".toList ++ dt = "const".toList ++ ' ' :: dt := rfl
      simp only [if_neg htypedef, if_pos hconstType, hwrites, false_and, or_false, htext]
      rw [h.infix_spaced_iff]
      exact or_iff_left hconst
    · have hwrites : WritesName i := ⟨hpointer, hconstType⟩
      simp only [if_neg hconstType, hwrites, true_and]
      split
      · split
        · exact h.infix_bracketed_iff i.name dt
        · exact h.infix_spaced_iff i.name dt
      · split
        · exact h.infix_bracketed_iff i.name dt
        · split
          · exact h.infix_spaced_iff i.name dt
          · next hname =>
            have hempty : i.name = [] := not_not.mp hname
            rw [hempty, List.infix_nil]
            exact (or_iff_left h.ne_nil).symm

/-- A word in the text along a chain is in the text before it or in a name on it. -/
theorem infix_foldl_iff (chain : List Datatype) (s : MetadataScan) :
    w <:+: (chain.foldl MetadataScan.visit s).dt ↔
      w <:+: s.dt ∨ ∃ i ∈ chain, WritesName i ∧ w <:+: i.name := by
  induction chain generalizing s with
  | nil => simp
  | cons i chain ih =>
    rw [List.foldl_cons, ih, MetadataScan.visit, h.infix_prependType_iff, or_assoc]
    simp only [List.mem_cons, exists_eq_or_imp]

/-- A word in the text of a record's types is in a name along the chain. -/
theorem infix_described_iff (datatype : Datatype) (chain : List Datatype) (param : SdbEntry) :
    w <:+: (described datatype chain param).dtName ↔
      ∃ i ∈ chain, WritesName i ∧ w <:+: i.name := by
  have hstart : ¬ w <:+: (MetadataScan.start datatype param).dt := by
    unfold MetadataScan.start
    split
    · exact h.fixed "...".toList (by simp)
    · rw [List.infix_nil]
      exact h.ne_nil
  rw [described]
  exact (h.infix_foldl_iff chain _).trans (or_iff_right hstart)

end IsKeyword

theorem isStringValue_described_iff (datatype : Datatype) (chain : List Datatype)
    (param : SdbEntry) :
    isStringValue (described datatype chain param).dtName = true ↔
      ∃ i ∈ chain, WritesName i ∧ stringWord <:+: i.name := by
  rw [isStringValue_iff, isKeyword_stringWord.infix_described_iff]

theorem isNumberValue_described_iff (datatype : Datatype) (chain : List Datatype)
    (param : SdbEntry) :
    isNumberValue (described datatype chain param).dtName = true ↔
      ∃ i ∈ chain, WritesName i ∧ ∃ w ∈ numberWords, w <:+: i.name := by
  rw [isNumberValue_iff]
  constructor
  · rintro ⟨w, hw, htext⟩
    obtain ⟨i, hi, hwrites, hname⟩ :=
      ((isKeyword_numberWords hw).infix_described_iff _ _ _).mp htext
    exact ⟨i, hi, hwrites, w, hw, hname⟩
  · rintro ⟨i, hi, hwrites, w, hw, hname⟩
    exact ⟨w, hw, ((isKeyword_numberWords hw).infix_described_iff _ _ _).mpr
      ⟨i, hi, hwrites, hname⟩⟩

end Text

/-- The words in the name of a type: along a finite chain of types the name is found, and it has a
word for characters in it, or one for numbers, exactly when the name of a record on the chain has,
other than a pointer's or a const's. -/
theorem dtName_keywords (cu : CompileUnit) (datatype : Datatype) (param : SdbEntry)
    {chain : List Datatype} (ht : Trail (nextType cu.datatypes) datatype chain) :
    (∃ fuel, (getDatatypeMetadata fuel cu datatype param).isSome) ∧
    ∀ fuel param', getDatatypeMetadata fuel cu datatype param = some param' →
      (isStringValue param'.dtName = true ↔
        ∃ i ∈ chain, WritesName i ∧ stringWord <:+: i.name) ∧
      (isNumberValue param'.dtName = true ↔
        ∃ i ∈ chain, WritesName i ∧ ∃ w ∈ numberWords, w <:+: i.name) := by
  refine ⟨getDatatypeMetadata_isSome_iff.mpr ⟨chain, ht⟩, ?_⟩
  intro fuel param' h
  have hdescribed : param' = described datatype chain param :=
    described_of_getDatatypeMetadata ht h
  rw [hdescribed]
  exact ⟨isStringValue_described_iff .., isNumberValue_described_iff ..⟩

section Classification

/-- What a name says of a value: characters, a number, or nothing. -/
def nameClass (name : Text) : DatatypeName :=
  if isStringValue name then .string else if isNumberValue name then .number else .empty

/-- Typedefs, const and pointers. -/
def IsModifier (i : Datatype) : Prop := i.typeName ∈ [.typedef, .constType, .pointerType]

/-- Behind typedefs, const and pointers the tag of the base type decides, by the text of all the
types. -/
theorem scanTags_modifiers (dtName : Text) {pre : List Datatype}
    (hpre : ∀ i ∈ pre, IsModifier i) (s : TagScan) (hs : s.datatypeName = .empty) :
    (scanTags dtName (pre.map (·.typeName) ++ [.baseType]) s).datatypeName = nameClass dtName := by
  induction pre generalizing s with
  | nil =>
    simp only [List.map_nil, List.nil_append, scanTags, reduceCtorEq, if_false, TagScan.tag,
      nameClass]
    split_ifs
    · rfl
    · rfl
    · exact hs
  | cons i pre ih =>
    have hi : i.typeName = .typedef ∨ i.typeName = .constType ∨ i.typeName = .pointerType := by
      simpa [IsModifier] using hpre i List.mem_cons_self
    have hspecified : i.typeName ≠ .unspecifiedParameters := by
      rcases hi with hi | hi | hi <;> rw [hi] <;> decide
    have htag : (s.tag dtName i.typeName).datatypeName = .empty := by
      rcases hi with hi | hi | hi <;> rw [hi] <;> exact hs
    rw [List.map_cons, List.cons_append, scanTags, if_neg hspecified]
    exact ih (fun j hj ↦ hpre j (List.mem_cons_of_mem i hj)) _ htag

/-- Only the typedefs among the modifiers write a name. -/
theorem exists_writesName_iff {pre : List Datatype} {base : Datatype}
    (hpre : ∀ i ∈ pre, IsModifier i) (hbase : base.typeName = .baseType) (p : Text → Prop) :
    (∃ i ∈ pre ++ [base], WritesName i ∧ p i.name) ↔
      p base.name ∨ ∃ i ∈ pre, i.typeName = .typedef ∧ p i.name := by
  have hwrites : WritesName base := by
    unfold WritesName
    rw [hbase]
    decide
  have hmodifier : ∀ i ∈ pre, WritesName i ↔ i.typeName = .typedef := by
    intro i hi
    have hcases : i.typeName = .typedef ∨ i.typeName = .constType ∨ i.typeName = .pointerType := by
      simpa [IsModifier] using hpre i hi
    unfold WritesName
    rcases hcases with h | h | h <;> rw [h] <;> decide
  constructor
  · rintro ⟨i, hi, hw, hname⟩
    rcases List.mem_append.mp hi with hi | hi
    · exact .inr ⟨i, hi, (hmodifier i hi).mp hw, hname⟩
    · rw [List.mem_singleton.mp hi] at hname
      exact .inl hname
  · rintro (hname | ⟨i, hi, htypedef, hname⟩)
    · exact ⟨base, by simp, hwrites, hname⟩
    · exact ⟨i, List.mem_append_left _ hi, (hmodifier i hi).mpr htypedef, hname⟩

/-- Two texts say the same of a value, where all words of the one are in the other. -/
theorem nameClass_eq_iff {text name : Text} (hstring : isStringValue name → isStringValue text)
    (hnumber : isNumberValue name → isNumberValue text) :
    nameClass text = nameClass name ↔
      isStringValue name = true ∨ isStringValue text = false ∧
        (isNumberValue name = true ∨ isNumberValue text = false) := by
  unfold nameClass
  cases hs : isStringValue name with
  | true => simp [hstring hs]
  | false =>
    cases isStringValue text with
    | true => cases isNumberValue name <;> simp
    | false =>
      cases hn : isNumberValue name with
      | true => simp [hnumber hn]
      | false => cases isNumberValue text <;> simp

end Classification

/-- Classification of a parameter: it goes by the name of the base type alone exactly when that
name has the word for characters in it, or no typedef in front of it has, and the base type or
else no typedef has a word for numbers. -/
theorem classification_iff (cu : CompileUnit) {funcParam : DatatypeEntry}
    (hformal : funcParam.typeName = .formalParameter) {pre : List Datatype} {base : Datatype}
    (ht : Trail (nextType cu.datatypes) funcParam.toDatatype (pre ++ [base]))
    (hpre : ∀ i ∈ pre, IsModifier i) (hbase : base.typeName = .baseType) (cuIndex fnIndex : Int)
    (isComplex : Bool) :
    (∃ fuel param, getDatatypeMetadata fuel cu funcParam.toDatatype
        (newParameter cuIndex fnIndex isComplex funcParam) = some param ∧
      (tagsOf param).datatypeName = nameClass base.name) ↔
    stringWord <:+: base.name ∨
      (∀ i ∈ pre, i.typeName = .typedef → ¬ stringWord <:+: i.name) ∧
      ((∃ w ∈ numberWords, w <:+: base.name) ∨
        ∀ i ∈ pre, i.typeName = .typedef → ∀ w ∈ numberWords, ¬ w <:+: i.name) := by
  set start := newParameter cuIndex fnIndex isComplex funcParam with hstart
  set described' := described funcParam.toDatatype (pre ++ [base]) start with hdescribed
  have hspecified : funcParam.toDatatype.typeName ≠ .unspecifiedParameters := by
    change funcParam.typeName ≠ _
    rw [hformal]
    decide
  have htags : described'.datatypes = pre.map (·.typeName) ++ [.baseType] := by
    rw [hdescribed, described_datatypes, if_neg hspecified, List.map_append, List.map_singleton,
      hbase]
    rfl
  have hclass : (tagsOf described').datatypeName = nameClass described'.dtName := by
    rw [tagsOf, htags]
    exact scanTags_modifiers described'.dtName hpre .start rfl
  have hstring : isStringValue described'.dtName = true ↔ stringWord <:+: base.name ∨
      ∃ i ∈ pre, i.typeName = .typedef ∧ stringWord <:+: i.name := by
    rw [hdescribed, isStringValue_described_iff,
      exists_writesName_iff hpre hbase fun name ↦ stringWord <:+: name]
  have hnumber : isNumberValue described'.dtName = true ↔
      (∃ w ∈ numberWords, w <:+: base.name) ∨
        ∃ i ∈ pre, i.typeName = .typedef ∧ ∃ w ∈ numberWords, w <:+: i.name := by
    rw [hdescribed, isNumberValue_described_iff,
      exists_writesName_iff hpre hbase fun name ↦ ∃ w ∈ numberWords, w <:+: name]
  rw [exists_getDatatypeMetadata_iff ht, ← hdescribed, hclass, nameClass_eq_iff,
    ← Bool.not_eq_true, ← Bool.not_eq_true, hstring, hnumber, isStringValue_iff,
    isNumberValue_iff]
  · by_cases hchar : stringWord <:+: base.name
    · simp only [hchar, true_or]
    · by_cases hword : ∃ w ∈ numberWords, w <:+: base.name
      · simp only [hchar, hword, false_or, true_or, and_true, not_exists, not_and]
      · simp only [hchar, hword, false_or, not_exists, not_and]
  · intro h
    exact hstring.mpr (.inl ((isStringValue_iff _).mp h))
  · intro h
    exact hnumber.mpr (.inl ((isNumberValue_iff _).mp h))

/-- A typedef of `int` with a word for characters in its name. -/
def charTypedef : Datatype :=
  ⟨{ (default : DatatypeEntry) with
    sectionOffset := 6, typeName := .typedef, name := "charcount".toList, type := 4 }, [], []⟩

/-- A unit with the typedef and `int`. -/
def typedefUnit : CompileUnit := unitOf [intType, charTypedef]

theorem trail_typedefUnit :
    Trail (nextType typedefUnit.datatypes) (typedParameter 6).toDatatype [charTypedef, intType] :=
  .step rfl (.step rfl (.stop rfl))

/-- The name of the typedef has the word for characters in it. -/
theorem dtName_keywords_sample :
    ∃ fuel param, getDatatypeMetadata fuel typedefUnit (typedParameter 6).toDatatype
      (newParameter 0 0 false (typedParameter 6)) = some param ∧
        isStringValue param.dtName = true := by
  obtain ⟨⟨fuel, hsome⟩, hwords⟩ := dtName_keywords typedefUnit (typedParameter 6).toDatatype
    (newParameter 0 0 false (typedParameter 6)) trail_typedefUnit
  obtain ⟨param, hparam⟩ := Option.isSome_iff_exists.mp hsome
  refine ⟨fuel, param, hparam, (hwords fuel param hparam).1.mpr ?_⟩
  exact ⟨charTypedef, by decide, ⟨by decide, by decide⟩, by decide⟩

/-- A typedef of a pointer to a constant `int`. -/
def cursorTypedef : Datatype :=
  ⟨{ (default : DatatypeEntry) with
    sectionOffset := 7, typeName := .typedef, name := "cursor".toList, type := 8 }, [], []⟩

def cursorPointer : Datatype :=
  ⟨{ (default : DatatypeEntry) with sectionOffset := 8, typeName := .pointerType, type := 9 },
    [], []⟩

def cursorConst : Datatype :=
  ⟨{ (default : DatatypeEntry) with sectionOffset := 9, typeName := .constType, type := 4 }, [], []⟩

def cursorUnit : CompileUnit := unitOf [intType, cursorTypedef, cursorPointer, cursorConst]

/-- Behind the typedef, the pointer and `const` an `int` is classified by its own name. -/
theorem classification_iff_sample :
    ∃ fuel param, getDatatypeMetadata fuel cursorUnit (typedParameter 7).toDatatype
        (newParameter 0 0 false (typedParameter 7)) = some param ∧
      (tagsOf param).datatypeName = nameClass "int".toList := by
  have ht : Trail (nextType cursorUnit.datatypes) (typedParameter 7).toDatatype
      ([cursorTypedef, cursorPointer, cursorConst] ++ [intType]) :=
    .step rfl (.step rfl (.step rfl (.step rfl (.stop rfl))))
  have hmodifier : ∀ i ∈ [cursorTypedef, cursorPointer, cursorConst], IsModifier i := by
    simp [IsModifier, cursorTypedef, cursorPointer, cursorConst]
  have hiff := classification_iff cursorUnit rfl ht hmodifier rfl 0 0 false
  apply hiff.mpr
  right
  constructor
  · have hname : ¬ stringWord <:+: "cursor".toList := by decide
    intro i hi htypedef
    simp only [List.mem_cons, List.not_mem_nil, or_false] at hi
    rcases hi with rfl | rfl | rfl
    · exact hname
    · cases htypedef
    · cases htypedef
  · left
    exact ⟨"int".toList, by decide, by decide⟩

/-- An `int` behind the typedef is shown as characters. -/
theorem classification_by_typedef :
    ¬ ∀ (cu : CompileUnit) (funcParam : DatatypeEntry) (pre : List Datatype) (base : Datatype),
      funcParam.typeName = .formalParameter →
      Trail (nextType cu.datatypes) funcParam.toDatatype (pre ++ [base]) →
      (∀ i ∈ pre, IsModifier i) → base.typeName = .baseType →
      ∃ fuel param, getDatatypeMetadata fuel cu funcParam.toDatatype
          (newParameter 0 0 false funcParam) = some param ∧
        (tagsOf param).datatypeName = nameClass base.name := by
  intro h
  have hmodifier : ∀ i ∈ [charTypedef], IsModifier i := by
    intro i hi
    rw [List.mem_singleton.mp hi]
    exact List.mem_cons_self
  obtain ⟨fuel, param, hparam, hname⟩ := h typedefUnit (typedParameter 6) [charTypedef] intType rfl
    trail_typedefUnit hmodifier rfl
  rw [described_of_getDatatypeMetadata trail_typedefUnit hparam] at hname
  exact absurd hname (by decide)

end ArgsDebugger
