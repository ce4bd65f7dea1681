import ArgsDebugger.CompileUnit.TypeName

/-!
# The name of a type as C spells it

Behind pointers and const the name of a type is the name of what they end in, a blank, and the
modifiers in the order of a C declarator, so the last record of the chain comes first. The loop
of `get_datatype_metadata` goes from the outside in and puts each piece in front
(`src/compile_unit.cc:678–711`). Where the chain ends without a type, in `void`, the pointer
writes the name; the const does not.
-/

namespace ArgsDebugger

open Lib

/-- Pointer and const types. -/
def IsPointerOrConst (i : Datatype) : Prop := i.typeName = .pointerType ∨ i.typeName = .constType

instance (i : Datatype) : Decidable (IsPointerOrConst i) := inferInstanceAs (Decidable (_ ∨ _))

/-- A modifier in a declarator. -/
def modifierText (i : Datatype) : Text :=
  if i.typeName = .pointerType then "*".toList else "const ".toList

/-- A name and its modifiers in the order of a C declarator: the one that was found last stands
next to the name. -/
def cSpelling (name : Text) (modifiers : List Datatype) : Text :=
  name ++ ' ' :: modifiers.reverse.flatMap modifierText

/-- The chain consists of modifiers, behind which there is a type of that name. -/
inductive ModifierChain : List Datatype → Text → List Datatype → Prop
  /-- It ends in a type that stores its name. -/
  | named {modifiers : List Datatype} {last : Datatype}
      (hmodifiers : ∀ i ∈ modifiers, IsPointerOrConst i)
      (htag : last.typeName ∈ [.baseType, .structureType, .unionType, .enumerationType])
      (hname : last.name ≠ []) : ModifierChain (modifiers ++ [last]) last.name modifiers
  /-- Its last modifier has no type. -/
  | void {modifiers : List Datatype} {last : Datatype}
      (hmodifiers : ∀ i ∈ modifiers ++ [last], IsPointerOrConst i) (htype : last.type = 0) :
      ModifierChain (modifiers ++ [last]) "void".toList (modifiers ++ [last])

/-- The chain ends in a const of nothing, `const void`. -/
def EndsInConst (chain : List Datatype) : Prop :=
  ∃ last ∈ chain.getLast?, last.typeName = .constType ∧ last.type = 0

instance (chain : List Datatype) : Decidable (EndsInConst chain) :=
  inferInstanceAs (Decidable (∃ last ∈ chain.getLast?, _))

section Spelling

variable {dt : Text} {tags : List DwTag} {i last : Datatype} {modifiers : List Datatype}
  {s : MetadataScan}

/-- A modifier of some type is all that is written for it. -/
theorem prependType_modifier (hi : IsPointerOrConst i) (htype : i.type ≠ 0) :
    prependType dt tags i = modifierText i ++ dt := by
  unfold prependType modifierText
  rcases hi with hi | hi
  · rw [if_pos hi, if_pos hi, if_neg htype]
    rfl
  · simp only [hi, reduceCtorEq, if_false, if_true]

/-- A pointer to nothing has the name `void` in front, a const of nothing has not. -/
theorem prependType_last (hlast : IsPointerOrConst last) (htype : last.type = 0) :
    prependType dt tags last =
      (if last.typeName = .pointerType then "void ".toList else []) ++ modifierText last ++ dt := by
  unfold prependType modifierText
  rcases hlast with hlast | hlast
  · simp only [if_pos hlast, if_pos htype, List.append_assoc]
    rfl
  · simp only [hlast, reduceCtorEq, if_false, if_true, List.nil_append]

/-- A named type has its name and a blank in front, unless it follows a typedef. -/
theorem prependType_named
    (htag : last.typeName ∈ [.baseType, .structureType, .unionType, .enumerationType])
    (hname : last.name ≠ []) (htags : tags.getLast? ≠ some .typedef) :
    prependType dt tags last = last.name ++ ' ' :: dt := by
  unfold prependType
  simp only [List.mem_cons, List.not_mem_nil, or_false] at htag
  rcases htag with h | h | h | h <;> simp [h, hname, htags]

/-- The text along some modifiers. -/
theorem foldl_visit_modifiers (hmodifiers : ∀ i ∈ modifiers, IsPointerOrConst i)
    (htypes : ∀ i ∈ modifiers, i.type ≠ 0) :
    (modifiers.foldl MetadataScan.visit s).dt = modifiers.reverse.flatMap modifierText ++ s.dt := by
  induction modifiers generalizing s with
  | nil => rfl
  | cons i modifiers ih =>
    have hi : (s.visit i).dt = modifierText i ++ s.dt :=
      prependType_modifier (hmodifiers i List.mem_cons_self) (htypes i List.mem_cons_self)
    rw [List.foldl_cons, ih (fun j hj ↦ hmodifiers j (List.mem_cons_of_mem i hj))
      (fun j hj ↦ htypes j (List.mem_cons_of_mem i hj)), hi]
    simp only [List.reverse_cons, List.flatMap_append, List.flatMap_cons, List.flatMap_nil,
      List.append_nil, List.append_assoc]

/-- Every record on a chain but the last has a type. -/
theorem type_ne_zero_of_trail {datatypes : List Datatype} {datatype : Datatype}
    (ht : Trail (nextType datatypes) datatype (modifiers ++ [last])) :
    ∀ i ∈ modifiers, i.type ≠ 0 := by
  intro i hi htype
  obtain ⟨pre, post, rfl⟩ := List.append_of_mem hi
  have hrest : Trail (nextType datatypes) i (post ++ [last]) :=
    ht.split (by rw [List.append_assoc, List.cons_append])
  have hnil := (Trail.iff_nil (nextType_of_type_eq_zero htype)).mp hrest
  exact List.append_ne_nil_of_right_ne_nil post (List.cons_ne_nil last []) hnil

end Spelling

section Description

variable {datatypes : List Datatype} {datatype : Datatype} {param : SdbEntry}
  {chain modifiers : List Datatype} {last : Datatype} {name : Text}

theorem not_endsInConst_named
    (htag : last.typeName ∈ [.baseType, .structureType, .unionType, .enumerationType]) :
    ¬ EndsInConst (modifiers ++ [last]) := by
  rintro ⟨last', hlast, hconst, -⟩
  rw [List.getLast?_concat, Option.mem_some_iff] at hlast
  rw [hlast, hconst] at htag
  exact absurd htag (by decide)

/-- What ends in a const of nothing is a modifier of `void`. -/
theorem name_of_endsInConst (hchain : ModifierChain chain name modifiers)
    (hconst : EndsInConst chain) : name = "void".toList := by
  cases hchain with
  | named hmodifiers htag hname => exact absurd hconst (not_endsInConst_named htag)
  | void hmodifiers htype => rfl

/-- What the text of the types begins with, before the loop. -/
def startText (datatype : Datatype) : Text :=
  if datatype.typeName = .unspecifiedParameters then "...".toList else []

theorem startText_eq_nil_iff :
    startText datatype = [] ↔ datatype.typeName ≠ .unspecifiedParameters := by
  unfold startText
  split
  · next h => exact iff_of_false (by decide) (not_not.mpr h)
  · next h => exact iff_of_true rfl h

/-- The text of the types behind modifiers. -/
theorem described_modifiers (hmodifiers : ∀ i ∈ modifiers, IsPointerOrConst i)
    (ht : Trail (nextType datatypes) datatype (modifiers ++ [last])) :
    ∃ tags, tags = (described datatype modifiers param).datatypes ∧
      (described datatype (modifiers ++ [last]) param).dtName =
        prependType (modifiers.reverse.flatMap modifierText ++ startText datatype) tags last := by
  have hstart : (MetadataScan.start datatype param).dt = startText datatype := by
    unfold MetadataScan.start startText
    split <;> rfl
  have hdt := foldl_visit_modifiers (s := .start datatype param) hmodifiers
    (type_ne_zero_of_trail ht)
  refine ⟨_, rfl, ?_⟩
  unfold described
  rw [List.foldl_append, List.foldl_cons, List.foldl_nil]
  show prependType _ _ last = _
  rw [hdt, hstart]

/-- Behind modifiers no typedef was visited. -/
theorem getLast?_modifiers_ne_typedef (hfresh : param.datatypes = [])
    (hmodifiers : ∀ i ∈ modifiers, IsPointerOrConst i) :
    (described datatype modifiers param).datatypes.getLast? ≠ some .typedef := by
  intro hlast
  have hmem := List.mem_of_getLast? hlast
  rw [described_datatypes, hfresh, List.nil_append, List.mem_append, List.mem_map] at hmem
  rcases hmem with hmem | ⟨i, hi, htypedef⟩
  · split at hmem <;> simp at hmem
  · rcases hmodifiers i hi with h | h <;> rw [h] at htypedef <;> cases htypedef

/-- The text of the types along such a chain: the name is there unless the chain ends in a const
of nothing, and behind the modifiers is what was there before the loop. -/
theorem dtName_modifierChain (hfresh : param.datatypes = [])
    (ht : Trail (nextType datatypes) datatype chain) (hchain : ModifierChain chain name modifiers) :
    (described datatype chain param).dtName =
      (if EndsInConst chain then [] else name ++ [' ']) ++
        modifiers.reverse.flatMap modifierText ++ startText datatype := by
  cases hchain with
  | @named modifiers last hmodifiers htag hname =>
    obtain ⟨tags, htags, htext⟩ := described_modifiers hmodifiers ht
    have htypedef : tags.getLast? ≠ some .typedef :=
      htags ▸ getLast?_modifiers_ne_typedef hfresh hmodifiers
    rw [htext, prependType_named htag hname htypedef, if_neg (not_endsInConst_named htag)]
    simp only [List.append_assoc, List.cons_append, List.nil_append]
  | @void modifiers last hmodifiers htype =>
    have hlast : IsPointerOrConst last :=
      hmodifiers last (List.mem_append_right modifiers List.mem_cons_self)
    obtain ⟨tags, -, htext⟩ :=
      described_modifiers (fun i hi ↦ hmodifiers i (List.mem_append_left [last] hi)) ht
    rw [htext, prependType_last hlast htype]
    rcases hlast with h | h <;> simp [EndsInConst, h, htype]

end Description

/-- C spellings: along a finite chain of modifiers of a name the text of the types is the C
spelling exactly when the record is not that of unspecified parameters and the chain does not
end in a const of nothing. -/
theorem dtName_eq_cSpelling_iff (cu : CompileUnit) (datatype : Datatype) (param : SdbEntry)
    (hfresh : param.datatypes = []) {chain modifiers : List Datatype} {name : Text}
    (ht : Trail (nextType cu.datatypes) datatype chain)
    (hchain : ModifierChain chain name modifiers) :
    (∃ fuel param', getDatatypeMetadata fuel cu datatype param = some param' ∧
      param'.dtName = cSpelling name modifiers) ↔
    datatype.typeName ≠ .unspecifiedParameters ∧ ¬ EndsInConst chain := by
  have hspelling : cSpelling name modifiers =
      (name ++ [' ']) ++ modifiers.reverse.flatMap modifierText := by
    rw [cSpelling, List.append_assoc, List.singleton_append]
  rw [exists_getDatatypeMetadata_iff ht, dtName_modifierChain hfresh ht hchain, hspelling,
    ← startText_eq_nil_iff]
  split
  · next hconst =>
    -- `void` and a blank are more than can be there instead
    refine iff_of_false ?_ fun h ↦ h.2 hconst
    intro heq
    have hlen := congrArg List.length heq
    have hstart : (startText datatype).length ≤ 3 := by
      unfold startText
      split <;> decide
    rw [name_of_endsInConst hchain hconst] at hlen
    simp only [List.nil_append, List.length_append, List.length_singleton] at hlen
    have hvoid : "void".toList.length = 4 := rfl
    omega
  · next hconst =>
    rw [List.append_right_eq_self]
    exact (and_iff_left hconst).symm

/-- The type `const void`. -/
def constVoid : Datatype :=
  ⟨{ (default : DatatypeEntry) with sectionOffset := 8, typeName := .constType }, [], []⟩

/-- A pointer to a type. -/
def pointerTo (sectionOffset type : Int) : Datatype :=
  ⟨{ (default : DatatypeEntry) with
    sectionOffset := sectionOffset, typeName := .pointerType, type := type, byteSize := 8 }, [], []⟩

/-- A pointer to a pointer to nothing is `void **`. -/
theorem dtName_eq_cSpelling_sample :
    ∃ fuel param, getDatatypeMetadata fuel (unitOf [pointerTo 2 0, pointerTo 4 2])
        (typedParameter 4).toDatatype (newParameter 0 0 false (typedParameter 4)) = some param ∧
      param.dtName = cSpelling "void".toList [pointerTo 4 2, pointerTo 2 0] := by
  have ht : Trail (nextType (unitOf [pointerTo 2 0, pointerTo 4 2]).datatypes)
      (typedParameter 4).toDatatype ([pointerTo 4 2] ++ [pointerTo 2 0]) :=
    .step rfl (.step rfl (.stop rfl))
  apply (dtName_eq_cSpelling_iff _ _ _ rfl ht (.void (by decide) rfl)).mpr
  decide

/-- A pointer to `const void` has no name in it. -/
theorem dtName_const_void :
    ¬ ∀ (cu : CompileUnit) (datatype : Datatype) (param : SdbEntry)
        (chain modifiers : List Datatype) (name : Text),
      param.datatypes = [] → datatype.typeName = .formalParameter →
      Trail (nextType cu.datatypes) datatype chain → ModifierChain chain name modifiers →
      ∃ fuel param', getDatatypeMetadata fuel cu datatype param = some param' ∧
        param'.dtName = cSpelling name modifiers := by
  intro h
  have ht : Trail (nextType (unitOf [constVoid, pointerTo 4 8]).datatypes)
      (typedParameter 4).toDatatype ([pointerTo 4 8] ++ [constVoid]) :=
    .step rfl (.step rfl (.stop rfl))
  obtain ⟨fuel, param, hparam, hname⟩ := h _ _ (newParameter 0 0 false (typedParameter 4)) _ _ _
    rfl rfl ht (.void (by decide) rfl)
  rw [described_of_getDatatypeMetadata ht hparam] at hname
  exact absurd hname (by decide)

end ArgsDebugger
