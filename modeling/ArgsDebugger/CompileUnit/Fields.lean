import ArgsDebugger.Common
import ArgsDebugger.Lib.Fallible

/-!
# Decoding the attributes of a DIE

The setters of `src/compile_unit.cc:410–652`. Each attribute of a DIE arrives as the text
that `dwarf::to_string` gives it and is stored in the record of the DIE, or ignored. The
number of a type reference or sibling is cut out of the text by position, as the code does,
and every number goes through `stol`, which may raise.

All four setters write an attribute into the same field of their record, if they do not leave it
out. `SetsFields` says this once for each of them: which attributes it decodes as a number, in
which format, and that nothing else is done. The other modules go by it and do not look into the
setters again.
-/

namespace ArgsDebugger

open Lib

/-- A debugging information entry: what `dwarf::die` tells the walk about a node. -/
structure Die where
  tag : DwTag
  sectionOffset : Int
  attributes : List (DwAt × Text)
  deriving DecidableEq, Repr

/-- The number behind the first `skip` characters, in hexadecimal. -/
def stolBehind (second : Text) (skip : Nat) : Except Failure Int := do
  let addr ← substr second skip (second.length - 1)
  stol addr 16

/-- `CompileUnitManager::set_new_cu`, `src/compile_unit.cc:410–429`. -/
def setNewCu (first : DwAt) (second : Text) (compileUnit : CompileUnit) :
    Except Failure CompileUnit :=
  match first with
  | .name => return { compileUnit with filename := second }
  | .lowPc => return { compileUnit with lowAddr := BitVec.ofInt 64 (← stol second 0) }
  | .highPc => return { compileUnit with highAddr := BitVec.ofInt 64 (← stol second 0) }
  | .producer => return { compileUnit with producer := second }
  | .compDir => return { compileUnit with directory := second }
  | _ => return compileUnit

/-- `CompileUnitManager::add_datatype_field`, `src/compile_unit.cc:431–565`. Each attribute is
stored for the tags of its `switch` only. -/
def addDatatypeField (nodeTag : DwTag) (first : DwAt) (second : Text)
    (datatype : DatatypeEntry) : Except Failure DatatypeEntry :=
  match first with
  | .name =>
    if nodeTag ∈ [.baseType, .typedef, .unionType, .member, .formalParameter, .variable,
        .structureType] then
      return { datatype with name := second }
    else return datatype
  | .byteSize =>
    if nodeTag ∈ [.baseType, .unionType, .pointerType, .structureType, .enumerationType] then
      return { datatype with byteSize := ← stol second 0 }
    else return datatype
  | .encoding =>
    if nodeTag = .baseType then return { datatype with encoding := ← stol second 0 }
    else return datatype
  | .declFile =>
    if nodeTag ∈ [.typedef, .unionType, .structureType, .member, .enumerationType,
        .formalParameter, .variable] then
      return { datatype with declFile := ← stol second 0 }
    else return datatype
  | .declLine =>
    if nodeTag ∈ [.typedef, .unionType, .structureType, .member, .enumerationType,
        .formalParameter, .variable] then
      return { datatype with declLine := ← stol second 0 }
    else return datatype
  | .sibling =>
    if nodeTag ∈ [.arrayType, .unionType, .subroutineType, .structureType,
        .enumerationType] then
      return { datatype with sibling := ← stolBehind second 3 }
    else return datatype
  | .type =>
    if nodeTag ∈ [.typedef, .arrayType, .constType, .subroutineType, .member, .subrangeType,
        .formalParameter, .variable, .pointerType] then
      return { datatype with type := ← stolBehind second 3 }
    else return datatype
  | .prototyped =>
    if nodeTag = .subroutineType then
      return { datatype with prototyped := boolalpha second datatype.prototyped }
    else return datatype
  | .external =>
    if nodeTag = .variable then
      return { datatype with external := boolalpha second datatype.external }
    else return datatype
  | .declaration =>
    if nodeTag = .variable then
      return { datatype with declaration := boolalpha second datatype.declaration }
    else return datatype
  | .upperBound =>
    if nodeTag = .subrangeType then return { datatype with upperBound := ← stol second 0 }
    else return datatype
  | .dataMemberLocation =>
    if nodeTag = .member then
      if "<loclist".toList.isPrefixOf second then
        return { datatype with dataMemberLocation := ← stolBehind second 11 }
      else return { datatype with dataMemberLocation := ← stol second 0 }
    else return datatype
  | .location =>
    if nodeTag ∈ [.member, .formalParameter] then
      return { datatype with location := second }
    else return datatype
  | _ => return datatype

/-- `CompileUnitManager::add_function_field`, `src/compile_unit.cc:567–609`. -/
def addFunctionField (first : DwAt) (second : Text) (func : DatatypeEntry) :
    Except Failure DatatypeEntry :=
  match first with
  | .external => return { func with external := boolalpha second func.external }
  | .name => return { func with name := second }
  | .declFile => return { func with declFile := ← stol second 0 }
  | .declLine => return { func with declLine := ← stol second 0 }
  | .prototyped => return { func with prototyped := boolalpha second func.prototyped }
  | .lowPc => return { func with lowPc := BitVec.ofInt 64 (← stol second 0) }
  | .highPc => return { func with highPc := BitVec.ofInt 64 (← stol second 0) }
  | .frameBase => return { func with frameBase := second }
  | .inline => return { func with inline := ← stol second 0 }
  | .type => return { func with type := ← stolBehind second 3 }
  | .sibling => return { func with sibling := ← stolBehind second 3 }
  | _ => return func

/-- `CompileUnitManager::add_global_variable_field`, `src/compile_unit.cc:611–636`. -/
def addGlobalVariableField (first : DwAt) (second : Text) (globalVariable : DatatypeEntry) :
    Except Failure DatatypeEntry :=
  match first with
  | .name => return { globalVariable with name := second }
  | .declFile => return { globalVariable with declFile := ← stol second 0 }
  | .declLine => return { globalVariable with declLine := ← stol second 0 }
  | .type => return { globalVariable with type := ← stolBehind second 3 }
  | .external =>
    return { globalVariable with external := boolalpha second globalVariable.external }
  | .declaration =>
    return { globalVariable with declaration := boolalpha second globalVariable.declaration }
  | _ => return globalVariable

/-- `CompileUnitManager::set_datatype`, `src/compile_unit.cc:638–652`: the index of the first
recorded type at the offset the record refers to, or 0. -/
def setDatatype (datatypes : List Datatype) (datatype : DatatypeEntry) : DatatypeEntry :=
  match datatypes.findIdx? fun dt ↦ dt.sectionOffset = datatype.type with
  | some idx => { datatype with datatypeIndex := toInt32 idx }
  | none => { datatype with datatypeIndex := 0 }

/-- The record of a DIE before its attributes are decoded. The fields that the code does not
initialise hold whatever `fresh` has for the DIE; strings start empty. -/
def Die.openRecord (fresh : Int → DatatypeEntry) (node : Die) : DatatypeEntry :=
  { fresh node.sectionOffset with
    type := 0
    sectionOffset := node.sectionOffset
    typeName := node.tag
    name := []
    frameBase := []
    location := [] }

/-- The same for a function, with the further fields that are initialised for it. -/
def Die.openFunction (fresh : Int → DatatypeEntry) (node : Die) : DatatypeEntry :=
  { node.openRecord fresh with lowPc := 0, highPc := 0, dynSym := false, inline := 0 }

/-- Decode the attributes of a DIE one after the other by one of the setters. -/
def Die.decode {ρ : Type} (node : Die) (setter : DwAt → Text → ρ → Except Failure ρ) (r : ρ) :
    Except Failure ρ :=
  node.attributes.foldlM (fun r attr ↦ setter attr.1 attr.2 r) r

/-- The index of the record's type is looked up when it refers to one. -/
def linkDatatype (datatypes : List Datatype) (datatype : DatatypeEntry) : DatatypeEntry :=
  if 0 < datatype.type then setDatatype datatypes datatype else datatype

/-- The record of a datatype, a field or a parameter (`src/compile_unit.cc:319–331,377–401`). -/
def readDatatype (fresh : Int → DatatypeEntry) (datatypes : List Datatype) (node : Die) :
    Except Failure DatatypeEntry :=
  (node.decode (addDatatypeField node.tag) (node.openRecord fresh)).map (linkDatatype datatypes)

/-- The record of a global variable (`src/compile_unit.cc:304–315`). -/
def readGlobalVariable (fresh : Int → DatatypeEntry) (datatypes : List Datatype) (node : Die) :
    Except Failure DatatypeEntry :=
  (node.decode addGlobalVariableField (node.openRecord fresh)).map (linkDatatype datatypes)

/-- What happens to a function's record after its attributes. `DW_AT_high_pc` is an offset from
the low address; a function without an address of its own is looked up in the debugger's own
process by `getFuncAddr`. -/
def closeFunction (getFuncAddr : Text → Word) (datatypes : List Datatype)
    (func : DatatypeEntry) : DatatypeEntry :=
  let func := linkDatatype datatypes func
  let func := { func with highPc := func.lowPc + func.highPc }
  if func.lowPc = 0 ∧ func.inline < 1 then
    { func with lowPc := getFuncAddr func.name, dynSym := true }
  else func

/-- The record of a function (`src/compile_unit.cc:276–298`). -/
def readFunction (fresh : Int → DatatypeEntry) (getFuncAddr : Text → Word)
    (datatypes : List Datatype) (node : Die) : Except Failure DatatypeEntry :=
  (node.decode addFunctionField (node.openFunction fresh)).map
    (closeFunction getFuncAddr datatypes)

/-- How a setter turns the text of an attribute into a number. -/
inductive NumberFormat where
  /-- With a base prefix or in decimal. -/
  | plain
  /-- In hexadecimal behind three characters, as in `<0x77>`. -/
  | reference
  /-- In hexadecimal behind eleven characters, as in `<loclist 0x10080>`, or plain. -/
  | location
  deriving DecidableEq, Repr

/-- How a setter gets a number out of a text. -/
def NumberFormat.decode : NumberFormat → Text → Except Failure Int
  | .plain, text => stol text 0
  | .reference, text => stolBehind text 3
  | .location, text =>
    if "<loclist".toList.isPrefixOf text then stolBehind text 11 else stol text 0

/-- The fields of a record in which numbers are stored, by the attributes they come from. -/
structure NumberFields (ρ : Type) where
  store : ρ → DwAt → Int → ρ
  number : ρ → DwAt → Option Int

/-- The fields of `datatype_t`. The addresses are machine words, the other numbers are `long`. -/
def datatypeFields : NumberFields DatatypeEntry where
  store datatype first v :=
    match first with
    | .byteSize => { datatype with byteSize := v }
    | .encoding => { datatype with encoding := v }
    | .declFile => { datatype with declFile := v }
    | .declLine => { datatype with declLine := v }
    | .sibling => { datatype with sibling := v }
    | .type => { datatype with type := v }
    | .upperBound => { datatype with upperBound := v }
    | .dataMemberLocation => { datatype with dataMemberLocation := v }
    | .inline => { datatype with inline := v }
    | .lowPc => { datatype with lowPc := BitVec.ofInt 64 v }
    | .highPc => { datatype with highPc := BitVec.ofInt 64 v }
    | _ => datatype
  number datatype first :=
    match first with
    | .byteSize => some datatype.byteSize
    | .encoding => some datatype.encoding
    | .declFile => some datatype.declFile
    | .declLine => some datatype.declLine
    | .sibling => some datatype.sibling
    | .type => some datatype.type
    | .upperBound => some datatype.upperBound
    | .dataMemberLocation => some datatype.dataMemberLocation
    | .inline => some datatype.inline
    | .lowPc => some datatype.lowPc.toInt
    | .highPc => some datatype.highPc.toInt
    | _ => none

/-- The fields of `compile_unit_t`. -/
def unitFields : NumberFields CompileUnit where
  store compileUnit first v :=
    match first with
    | .lowPc => { compileUnit with lowAddr := BitVec.ofInt 64 v }
    | .highPc => { compileUnit with highAddr := BitVec.ofInt 64 v }
    | _ => compileUnit
  number compileUnit first :=
    match first with
    | .lowPc => some compileUnit.lowAddr.toInt
    | .highPc => some compileUnit.highAddr.toInt
    | _ => none

/-- What `set_new_cu` decodes as a number. -/
def unitNumber : DwAt → Option NumberFormat
  | .lowPc | .highPc => some .plain
  | _ => none

/-- What `add_function_field` decodes as a number. -/
def functionNumber : DwAt → Option NumberFormat
  | .declFile | .declLine | .lowPc | .highPc | .inline => some .plain
  | .type | .sibling => some .reference
  | _ => none

/-- What `add_global_variable_field` decodes as a number. -/
def globalVariableNumber : DwAt → Option NumberFormat
  | .declFile | .declLine => some .plain
  | .type => some .reference
  | _ => none

/-- What `add_datatype_field` decodes as a number for a tag. -/
def datatypeNumber (nodeTag : DwTag) : DwAt → Option NumberFormat
  | .byteSize =>
    if nodeTag ∈ [.baseType, .unionType, .pointerType, .structureType, .enumerationType] then
      some .plain
    else none
  | .encoding => if nodeTag = .baseType then some .plain else none
  | .declFile | .declLine =>
    if nodeTag ∈ [.typedef, .unionType, .structureType, .member, .enumerationType,
        .formalParameter, .variable] then
      some .plain
    else none
  | .sibling =>
    if nodeTag ∈ [.arrayType, .unionType, .subroutineType, .structureType,
        .enumerationType] then
      some .reference
    else none
  | .type =>
    if nodeTag ∈ [.typedef, .arrayType, .constType, .subroutineType, .member, .subrangeType,
        .formalParameter, .variable, .pointerType] then
      some .reference
    else none
  | .upperBound => if nodeTag = .subrangeType then some .plain else none
  | .dataMemberLocation => if nodeTag = .member then some .location else none
  | _ => none

/-- What the attributes do to the fields of `datatype_t`: a number is stored, a text is kept or
read as a flag. -/
def writeDatatype (first : DwAt) (second : Text) (v : Int) (datatype : DatatypeEntry) :
    DatatypeEntry :=
  match first with
  | .name => { datatype with name := second }
  | .location => { datatype with location := second }
  | .frameBase => { datatype with frameBase := second }
  | .prototyped => { datatype with prototyped := boolalpha second datatype.prototyped }
  | .external => { datatype with external := boolalpha second datatype.external }
  | .declaration => { datatype with declaration := boolalpha second datatype.declaration }
  | _ => datatypeFields.store datatype first v

/-- What the attributes do to the fields of `compile_unit_t`. -/
def writeUnit (first : DwAt) (second : Text) (v : Int) (compileUnit : CompileUnit) : CompileUnit :=
  match first with
  | .name => { compileUnit with filename := second }
  | .producer => { compileUnit with producer := second }
  | .compDir => { compileUnit with directory := second }
  | _ => unitFields.store compileUnit first v

/-- The attributes whose text is kept as it is, or read as a flag. -/
def DwAt.isText : DwAt → Bool
  | .name | .location | .frameBase | .prototyped | .external | .declaration | .producer
  | .compDir => true
  | _ => false

/-- What a setter does with an attribute: a number it decodes in the format of its table and
writes; a text it writes or leaves out; everything else it leaves out. -/
structure SetsFields {ρ : Type} (setter : DwAt → Text → ρ → Except Failure ρ)
    (number : DwAt → Option NumberFormat) (write : DwAt → Text → Int → ρ → ρ) : Prop where
  numbers : ∀ first second r, ∀ format ∈ number first, first.isText = false ∧
    setter first second r = (format.decode second).map fun v ↦ write first second v r
  others : ∀ first second, number first = none → (∀ r, setter first second r = .ok r) ∨
    first.isText = true ∧ ∀ r, setter first second r = .ok (write first second 0 r)

theorem setsFields_setNewCu : SetsFields setNewCu unitNumber writeUnit where
  numbers first second r format hformat := by
    cases first
    case lowPc | highPc =>
      cases hformat
      exact ⟨rfl, bind_pure_eq_map _ _⟩
    all_goals cases hformat
  others first second hnone := by
    cases first
    case name | producer | compDir => exact .inr ⟨rfl, fun _ ↦ rfl⟩
    case lowPc | highPc => cases hnone
    all_goals exact .inl fun _ ↦ rfl

theorem setsFields_addFunctionField :
    SetsFields addFunctionField functionNumber writeDatatype where
  numbers first second r format hformat := by
    cases first
    case declFile | declLine | lowPc | highPc | inline | type | sibling =>
      cases hformat
      exact ⟨rfl, bind_pure_eq_map _ _⟩
    all_goals cases hformat
  others first second hnone := by
    cases first
    case name | external | prototyped | frameBase => exact .inr ⟨rfl, fun _ ↦ rfl⟩
    case declFile | declLine | lowPc | highPc | inline | type | sibling => cases hnone
    all_goals exact .inl fun _ ↦ rfl

theorem setsFields_addGlobalVariableField :
    SetsFields addGlobalVariableField globalVariableNumber writeDatatype where
  numbers first second r format hformat := by
    cases first
    case declFile | declLine | type =>
      cases hformat
      exact ⟨rfl, bind_pure_eq_map _ _⟩
    all_goals cases hformat
  others first second hnone := by
    cases first
    case name | external | declaration => exact .inr ⟨rfl, fun _ ↦ rfl⟩
    case declFile | declLine | type => cases hnone
    all_goals exact .inl fun _ ↦ rfl

/-- A text that is written for some tags only. -/
private theorem text_of_tag {ρ : Type} {first : DwAt} (htext : first.isText = true) (p : Prop)
    [Decidable p] (write : ρ → ρ) :
    (∀ r, (if p then .ok (write r) else .ok r : Except Failure ρ) = .ok r) ∨
      first.isText = true ∧
        ∀ r, (if p then .ok (write r) else .ok r : Except Failure ρ) = .ok (write r) := by
  by_cases hp : p
  · exact .inr ⟨htext, fun _ ↦ if_pos hp⟩
  · exact .inl fun _ ↦ if_neg hp

theorem setsFields_addDatatypeField (nodeTag : DwTag) :
    SetsFields (addDatatypeField nodeTag) (datatypeNumber nodeTag) writeDatatype where
  numbers first second r format hformat := by
    cases first <;> simp only [datatypeNumber] at hformat
    case byteSize | encoding | declFile | declLine | sibling | type | upperBound =>
      split at hformat
      · next htag =>
        cases hformat
        exact ⟨rfl, (if_pos htag).trans (bind_pure_eq_map _ _)⟩
      · cases hformat
    case dataMemberLocation =>
      split at hformat
      · next htag =>
        cases hformat
        refine ⟨rfl, (if_pos htag).trans ?_⟩
        rw [NumberFormat.decode]
        split
        · exact bind_pure_eq_map _ _
        · exact bind_pure_eq_map _ _
      · cases hformat
    all_goals cases hformat
  others first second hnone := by
    cases first <;> simp only [datatypeNumber] at hnone
    case name | prototyped | external | declaration | location =>
      exact text_of_tag rfl _ _
    case byteSize | encoding | declFile | declLine | sibling | type | upperBound |
        dataMemberLocation =>
      split at hnone
      · cases hnone
      · next htag => exact .inl fun _ ↦ if_neg htag
    all_goals exact .inl fun _ ↦ rfl

section SetsFields

variable {ρ : Type} {setter : DwAt → Text → ρ → Except Failure ρ}
  {number : DwAt → Option NumberFormat} {write : DwAt → Text → Int → ρ → ρ}
  {first : DwAt} {second : Text} {r r' r₁ r₂ r₁' r₂' : ρ}

/-- Two calls of a setter for one attribute do the same to their records. -/
theorem SetsFields.both (h : SetsFields setter number write) (h₁ : setter first second r₁ = .ok r₁')
    (h₂ : setter first second r₂ = .ok r₂') : (r₁' = r₁ ∧ r₂' = r₂) ∨
      ∃ v, r₁' = write first second v r₁ ∧ r₂' = write first second v r₂ := by
  cases hnumber : number first with
  | none =>
    rcases h.others first second hnumber with hleft | ⟨-, hwrite⟩
    · rw [hleft] at h₁ h₂
      cases h₁
      cases h₂
      exact .inl ⟨rfl, rfl⟩
    · rw [hwrite] at h₁ h₂
      cases h₁
      cases h₂
      exact .inr ⟨0, rfl, rfl⟩
  | some format =>
    rw [(h.numbers first second _ format hnumber).2] at h₁ h₂
    obtain ⟨v, hv, rfl⟩ := map_eq_ok.mp h₁
    rw [hv] at h₂
    cases h₂
    exact .inr ⟨v, rfl, rfl⟩

/-- A setter leaves the record as it is, or writes the attribute. -/
theorem SetsFields.cases (h : SetsFields setter number write)
    (hr : setter first second r = .ok r') : r' = r ∨ ∃ v, r' = write first second v r := by
  rcases h.both hr hr with ⟨hsame, -⟩ | ⟨v, hv, -⟩
  · exact .inl hsame
  · exact .inr ⟨v, hv⟩

/-- What writing the attribute keeps, a setter keeps. -/
theorem SetsFields.keeps {τ : Type} (h : SetsFields setter number write) (k : ρ → τ)
    (hwrite : ∀ v, k (write first second v r) = k r) (hr : setter first second r = .ok r') :
    k r' = k r := by
  rcases h.cases hr with rfl | ⟨v, rfl⟩
  · rfl
  · exact hwrite v

end SetsFields

/-- The record stands for the DIE: it has its section offset and its tag. -/
def DatatypeEntry.IsOf (datatype : DatatypeEntry) (node : Die) : Prop :=
  datatype.sectionOffset = node.sectionOffset ∧ datatype.typeName = node.tag

instance (datatype : DatatypeEntry) (node : Die) : Decidable (datatype.IsOf node) :=
  inferInstanceAs (Decidable (_ ∧ _))

/-- A setter that touches neither section offset nor tag. -/
def KeepsDie (setter : DwAt → Text → DatatypeEntry → Except Failure DatatypeEntry) : Prop :=
  ∀ first second dt dt', setter first second dt = .ok dt' →
    dt'.sectionOffset = dt.sectionOffset ∧ dt'.typeName = dt.typeName

/-- No attribute is written into the section offset or the tag. -/
theorem SetsFields.keepsDie
    {setter : DwAt → Text → DatatypeEntry → Except Failure DatatypeEntry}
    {number : DwAt → Option NumberFormat} (h : SetsFields setter number writeDatatype) :
    KeepsDie setter := by
  intro first second dt dt' hdt
  rcases h.cases hdt with rfl | ⟨v, rfl⟩
  · exact ⟨rfl, rfl⟩
  · cases first <;> exact ⟨rfl, rfl⟩

/-- What every call of a setter keeps, decoding all attributes keeps. -/
theorem Die.decode_invariant {ρ : Type} {setter : DwAt → Text → ρ → Except Failure ρ}
    (inv : ρ → Prop) (keep : ∀ first second r r', inv r → setter first second r = .ok r' → inv r')
    {node : Die} {r r' : ρ} (hr : inv r) (h : node.decode setter r = .ok r') : inv r' :=
  foldlM_invariant inv (fun attr _ r r' ↦ keep attr.1 attr.2 r r') hr h

/-- Decoding all attributes by such a setter leaves the record standing for the DIE. -/
theorem KeepsDie.decode {setter : DwAt → Text → DatatypeEntry → Except Failure DatatypeEntry}
    (hk : KeepsDie setter) {node : Die} {dt dt' : DatatypeEntry} (hdt : dt.IsOf node)
    (h : node.decode setter dt = .ok dt') : dt'.IsOf node := by
  refine Die.decode_invariant (·.IsOf node) ?_ hdt h
  intro first second r r' hr hs
  obtain ⟨hoff, htag⟩ := hk first second r r' hs
  exact ⟨hoff.trans hr.1, htag.trans hr.2⟩

/-- What is decoded by such a setter and then finished stands for the DIE. -/
private theorem KeepsDie.decode_map
    {setter : DwAt → Text → DatatypeEntry → Except Failure DatatypeEntry}
    {finish : DatatypeEntry → DatatypeEntry} {node : Die} {dt dt' : DatatypeEntry}
    (hk : KeepsDie setter) (hdt : dt.IsOf node)
    (hfinish : ∀ dt : DatatypeEntry, dt.IsOf node → (finish dt).IsOf node)
    (h : (node.decode setter dt).map finish = .ok dt') : dt'.IsOf node := by
  obtain ⟨dt₁, hd, rfl⟩ := map_eq_ok.mp h
  exact hfinish dt₁ (hk.decode hdt hd)

section Read

variable {fresh : Int → DatatypeEntry} {getFuncAddr : Text → Word} {datatypes : List Datatype}
  {node : Die} {dt : DatatypeEntry}

theorem isOf_linkDatatype (h : dt.IsOf node) : (linkDatatype datatypes dt).IsOf node := by
  unfold linkDatatype setDatatype
  repeat' split
  all_goals exact h

theorem isOf_closeFunction (h : dt.IsOf node) :
    (closeFunction getFuncAddr datatypes dt).IsOf node := by
  have hl : (linkDatatype datatypes dt).IsOf node := isOf_linkDatatype h
  simp only [closeFunction]
  split
  · exact hl
  · exact hl

/-- The record that is read from a DIE stands for it. -/
theorem isOf_readDatatype (h : readDatatype fresh datatypes node = .ok dt) : dt.IsOf node :=
  (setsFields_addDatatypeField node.tag).keepsDie.decode_map ⟨rfl, rfl⟩
    (fun _ ↦ isOf_linkDatatype) h

theorem isOf_readGlobalVariable (h : readGlobalVariable fresh datatypes node = .ok dt) :
    dt.IsOf node :=
  setsFields_addGlobalVariableField.keepsDie.decode_map ⟨rfl, rfl⟩ (fun _ ↦ isOf_linkDatatype) h

theorem isOf_readFunction (h : readFunction fresh getFuncAddr datatypes node = .ok dt) :
    dt.IsOf node :=
  setsFields_addFunctionField.keepsDie.decode_map ⟨rfl, rfl⟩ (fun _ ↦ isOf_closeFunction) h

end Read

/-- The attributes of a unit leave its vectors alone. -/
theorem setNewCu_vectors {first : DwAt} {second : Text} {cu cu' : CompileUnit}
    (h : setNewCu first second cu = .ok cu') :
    cu'.functions = cu.functions ∧ cu'.globalVariables = cu.globalVariables ∧
      cu'.datatypes = cu.datatypes := by
  rcases setsFields_setNewCu.cases h with rfl | ⟨v, rfl⟩
  · exact ⟨rfl, rfl, rfl⟩
  · cases first <;> exact ⟨rfl, rfl, rfl⟩

end ArgsDebugger
