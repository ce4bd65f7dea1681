import ArgsDebugger.CompileUnit.StructureScan
import ArgsDebugger.ParameterExtractor

/-!
# The value of a parameter

`get_datatype_value`, `datatype_value_to_string` and `complex_value_to_string`,
`src/compile_unit.cc:725–993`. The tags along a parameter's chain of types say how many
pointers lead to what, and from that the value in its register becomes a text. `complex_idx`
goes through all three functions; none of them writes it.
-/

namespace ArgsDebugger

open Lib Lib.Budget

/-- `datatype_name` in `datatype_value_to_string`. -/
inductive DatatypeName where
  | empty | number | string | struct
  deriving DecidableEq, Repr

/-- What `datatype_value_to_string` keeps of the tags. -/
structure TagScan where
  pointerCount : Nat
  datatypeName : DatatypeName
  isComplex : Bool
  unspecified : Bool
  deriving DecidableEq, Repr

/-- The locals before the tags. -/
def TagScan.start : TagScan := ⟨0, .empty, false, false⟩

/-- A tag (`src/compile_unit.cc:826–851`). -/
def TagScan.tag (dtName : Text) (s : TagScan) : DwTag → TagScan
  | .pointerType | .arrayType => { s with pointerCount := s.pointerCount + 1 }
  | .baseType =>
    if isStringValue dtName then { s with datatypeName := .string }
    else if isNumberValue dtName then { s with datatypeName := .number }
    else s
  | .structureType => { s with datatypeName := .struct, isComplex := true }
  | _ => s

/-- The loop over the tags, which unspecified parameters end (`src/compile_unit.cc:821–852`). -/
def scanTags (dtName : Text) : List DwTag → TagScan → TagScan
  | [], s => s
  | i :: tags, s =>
    if i = .unspecifiedParameters then { s with unspecified := true }
    else scanTags dtName tags (s.tag dtName i)

/-- An element of a vector. -/
def vectorAt {α : Type} (l : List α) (index : Int) : Except Failure α :=
  if 0 ≤ index then
    match l[index.toNat]? with
    | some x => .ok x
    | none => .error .badIndex
  else .error .badIndex

/-- A record that was collected below depth 2. -/
def DatatypeEntry.toDatatype (entry : DatatypeEntry) : Datatype := ⟨entry, [], []⟩

/-- A member's `sdb_parameter_t` before its metadata. -/
def newMember (u : Uninitialised) (member : DatatypeEntry) : SdbEntry :=
  { u.member with
    name := member.name, datatypes := [], dtName := [], value := [], valueAlias := [] }

/-- The metadata of a structure's member. -/
def memberMetadata (fuel : Nat) (u : Uninitialised) (cu : CompileUnit) (member : DatatypeEntry) :
    Except Failure SdbEntry :=
  withinFuel (getDatatypeMetadata fuel cu member.toDatatype (newMember u member))

/-- `CompileUnitManager::complex_value_to_string`, `src/compile_unit.cc:923–993`. It prints and
changes nothing. -/
def complexValueToString (fuel : Nat) (u : Uninitialised) (units : List CompileUnit)
    (param : SdbEntry) (datatypeIdx : Int) : Except Failure Unit :=
  if param.value = "0xfffffffffffffff".toList ∨ param.value = "0x0".toList then .ok ()
  else do
    let cu ← vectorAt units param.cuIndex
    let fn ← vectorAt cu.functions param.fnIndex
    let dt ← vectorAt fn.parameters (datatypeIdx - 1)
    match ← withinFuel (structureScan fuel cu dt.toDatatype) with
    | none => .ok ()
    | some complexParam => do
      let _ ← complexParam.members.mapM (memberMetadata fuel u cu)
      .ok ()

/-- A parameter without a pointer in its type (`src/compile_unit.cc:854–873`). -/
def plainValueToString (fuel : Nat) (mem : Memory) (u : Uninitialised)
    (units : List CompileUnit) (param : SdbEntry) (value : Word) (datatypeIdx : Int) :
    DatatypeName → Except Failure SdbEntry
  | .number => getNumberValue fuel mem param value false
  | .string => getStringValue fuel mem u param value false
  | .struct => do
    complexValueToString fuel u units { param with value := "...".toList } datatypeIdx
    .ok { param with value := "...".toList }
  | .empty => .ok param

/-- A parameter with pointers in its type, once it is known to point to something
(`src/compile_unit.cc:896–920`). -/
def pointeeToString (fuel : Nat) (mem : Memory) (u : Uninitialised) (param : SdbEntry)
    (value : Word) : Nat → DatatypeName → Except Failure SdbEntry
  | 1, .number => getNumberValue fuel mem param value true
  | 1, .string => getStringValue fuel mem u param value true
  | 2, .number => getMultiNumberValue fuel mem param value
  | 2, .string => getMultiStringValue fuel mem u param value
  | _, _ => .ok param

/-- A parameter with pointers in its type (`src/compile_unit.cc:875–894`). -/
def pointerValueToString (fuel : Nat) (mem : Memory) (u : Uninitialised) (param : SdbEntry)
    (value : Word) (scan : TagScan) : Except Failure SdbEntry :=
  let text := longToHexString value
  if text = "0xffffffffffffffff".toList then
    .ok { param with value := text, valueAlias := "-1".toList }
  else if text = "0x0".toList then .ok { param with value := text, valueAlias := "0".toList }
  else if mem.peekData value = 0 then
    .ok { param with value := text, valueAlias := "NULL".toList }
  else
    pointeeToString fuel mem u { param with value := text } value scan.pointerCount
      scan.datatypeName

/-- `CompileUnitManager::datatype_value_to_string`, `src/compile_unit.cc:804–921`. -/
def datatypeValueToString (fuel : Nat) (mem : Memory) (u : Uninitialised)
    (units : List CompileUnit) (param : SdbEntry) (value : Word) (datatypeIdx : Int) :
    Except Failure SdbEntry :=
  let scan := scanTags param.dtName param.datatypes .start
  if scan.unspecified then
    .ok { param with isComplex := scan.isComplex, value := "...".toList }
  else
    let param := { param with isComplex := scan.isComplex, value := "unknown".toList }
    if scan.pointerCount = 0 then
      plainValueToString fuel mem u units param value datatypeIdx scan.datatypeName
    else pointerValueToString fuel mem u param value scan

/-- The register of a `switch` label (`src/compile_unit.cc:761–801`). -/
def argRegister (pindex : Int) : Option ArgRegister :=
  if pindex = 1 then some .rdi
  else if pindex = 2 then some .rsi
  else if pindex = 3 then some .rdx
  else if pindex = 4 then some .rcx
  else if pindex = 5 then some .r8
  else if pindex = 6 then some .r9
  else none

/-- `CompileUnitManager::get_datatype_value`, `src/compile_unit.cc:725–802`. -/
def getDatatypeValue (fuel : Nat) (mem : Memory) (u : Uninitialised) (units : List CompileUnit)
    (param : SdbEntry) (regs : UserRegs) (index : Int) (ret isLocal : Bool) (complexIdx : Int) :
    Except Failure SdbEntry :=
  if ret then .ok param
  else if isLocal then .ok param
  else
    match argRegister (toInt32 (index + complexIdx)) with
    | some register => datatypeValueToString fuel mem u units param (regs.get register) index
    | none => .ok param

section Tags

variable {dtName : Text} {tags : List DwTag} {s : TagScan}

/-- What reads as a structure has a structure among its tags. -/
theorem structureType_mem_of_scanTags
    (h : (scanTags dtName tags s).isComplex = true ∨
      (scanTags dtName tags s).datatypeName = .struct) :
    s.isComplex = true ∨ s.datatypeName = .struct ∨ .structureType ∈ tags := by
  induction tags generalizing s with
  | nil => exact h.imp_right .inl
  | cons i tags ih =>
    unfold scanTags at h
    split at h
    · exact h.imp_right .inl
    · have hs := ih h
      by_cases hi : i = .structureType
      · subst hi
        exact .inr (.inr List.mem_cons_self)
      · have hsame : (s.tag dtName i).isComplex = s.isComplex ∧
            ((s.tag dtName i).datatypeName = .struct → s.datatypeName = .struct) := by
          unfold TagScan.tag
          split <;> simp_all
          split_ifs <;> simp
        rw [hsame.1] at hs
        exact hs.imp_right fun h ↦ h.imp hsame.2 (List.mem_cons_of_mem i)

end Tags

section Metadata

variable {cu : CompileUnit} {datatype : Datatype} {param : SdbEntry} {chain : List Datatype}

/-- The parameter that `get_datatype_metadata` leaves behind a chain of types. -/
def described (datatype : Datatype) (chain : List Datatype) (param : SdbEntry) : SdbEntry :=
  let s := chain.foldl MetadataScan.visit (.start datatype param)
  { s.param with dtName := s.dt }

theorem getDatatypeMetadata_endsIff (cu : CompileUnit) (datatype : Datatype)
    (param : SdbEntry) :
    EndsIff (fun fuel ↦ withinFuel (getDatatypeMetadata fuel cu datatype param))
      (∃ chain, Trail (nextType cu.datatypes) datatype chain) := by
  have hscan : EndsIff (fun fuel ↦ withinFuel (metadataScan fuel cu datatype param))
      (∃ chain, Trail (nextType cu.datatypes) datatype chain) := by
    have hcurrent := MetadataScan.start_current datatype param
    unfold metadataScan
    by_cases htype : datatype.type = 0
    · simp only [if_pos htype]
      apply (EndsIff.ok _).congr
      exact ⟨fun _ ↦ ⟨[], .stop (nextType_of_type_eq_zero htype)⟩, fun _ ↦ trivial⟩
    · simp only [if_neg htype]
      apply (EndsIff.run _ _ _).congr
      constructor
      · rintro ⟨s, hs⟩
        rw [← hcurrent]
        exact exists_trail_of_ends hs (by rwa [hcurrent])
      · rintro ⟨chain, ht⟩
        exact ⟨_, ends_metadataBody ht hcurrent htype⟩
  have heq : (fun fuel ↦ withinFuel (getDatatypeMetadata fuel cu datatype param)) = fun fuel ↦
      (withinFuel (metadataScan fuel cu datatype param)).map fun s ↦
        { s.param with dtName := s.dt } := by
    ext1 fuel
    unfold getDatatypeMetadata
    cases metadataScan fuel cu datatype param <;> rfl
  rw [heq]
  exact hscan.map _

theorem described_of_getDatatypeMetadata {fuel : Nat} {param' : SdbEntry}
    (ht : Trail (nextType cu.datatypes) datatype chain)
    (h : getDatatypeMetadata fuel cu datatype param = some param') :
    param' = described datatype chain param := by
  obtain ⟨s, hs, rfl⟩ := Option.map_eq_some_iff.mp h
  obtain ⟨chain', ht', rfl⟩ := metadataScan_eq_some hs
  rw [ht.unique ht']
  rfl

/-- Along a finite chain the metadata are found, and they are the only ones. -/
theorem exists_getDatatypeMetadata_iff (ht : Trail (nextType cu.datatypes) datatype chain)
    {P : SdbEntry → Prop} :
    (∃ fuel param', getDatatypeMetadata fuel cu datatype param = some param' ∧ P param') ↔
      P (described datatype chain param) := by
  constructor
  · rintro ⟨fuel, param', h, hp⟩
    rwa [described_of_getDatatypeMetadata ht h] at hp
  · intro hp
    obtain ⟨fuel, hsome⟩ : ∃ fuel, (getDatatypeMetadata fuel cu datatype param).isSome :=
      getDatatypeMetadata_isSome_iff.mpr ⟨chain, ht⟩
    obtain ⟨param', h⟩ := Option.isSome_iff_exists.mp hsome
    refine ⟨fuel, param', h, ?_⟩
    rwa [described_of_getDatatypeMetadata ht h]

/-- The metadata write the tags, the size and the type name of the parameter only. -/
theorem described_frame (datatype : Datatype) (chain : List Datatype) (param : SdbEntry) :
    ∃ datatypes byteSize dtName, described datatype chain param =
      { param with datatypes := datatypes, byteSize := byteSize, dtName := dtName } := by
  obtain ⟨datatypes, byteSize, hvisited⟩ := foldl_visit_frame chain (.start datatype param)
  obtain ⟨_, hstart⟩ := MetadataScan.start_frame datatype param
  refine ⟨datatypes, byteSize, (chain.foldl MetadataScan.visit (.start datatype param)).dt, ?_⟩
  rw [described, hvisited, hstart]

theorem described_datatypes : (described datatype chain param).datatypes =
    param.datatypes ++
      (if datatype.typeName = .unspecifiedParameters then [.unspecifiedParameters] else []) ++
      chain.map (·.typeName) := by
  rw [← MetadataScan.start_datatypes]
  exact (foldl_visit chain _).1

end Metadata

section Structure

variable {cu : CompileUnit}

/-- With acyclic links the metadata of every member end. -/
theorem memberMetadata_endsIff (u : Uninitialised)
    (hac : Acyclic (nextType cu.datatypes) cu.datatypes) (member : DatatypeEntry) :
    EndsIff (fun fuel ↦ memberMetadata fuel u cu member) True := by
  apply (getDatatypeMetadata_endsIff cu _ _).congr
  exact iff_true_intro (hac.exists_trail (fun _ _ ↦ mem_of_nextType) _)

variable {datatype target : Datatype} {pre post : List Datatype}

/-- Behind a chain with a structure the scan for it ends. -/
theorem structureScan_endsIff (hdist : (cu.datatypes.map (·.sectionOffset)).Nodup)
    (ht : Trail (nextType cu.datatypes) datatype (pre ++ target :: post))
    (htarget : target.typeName = .structureType)
    (hpre : ∀ i ∈ pre, i.typeName ≠ .structureType) :
    EndsIff (fun fuel ↦ withinFuel (structureScan fuel cu datatype)) True :=
  (EndsIff.run _ _ _).congr (iff_true_intro ⟨_, ends_structureBody hdist ht htarget hpre⟩)

theorem eq_of_structureScan (hdist : (cu.datatypes.map (·.sectionOffset)).Nodup)
    (ht : Trail (nextType cu.datatypes) datatype (pre ++ target :: post))
    (htarget : target.typeName = .structureType)
    (hpre : ∀ i ∈ pre, i.typeName ≠ .structureType) {fuel : Nat} {result : Option Datatype}
    (h : withinFuel (structureScan fuel cu datatype) = .ok result) :
    result = if ∃ i ∈ (pre ++ [target]).tail, cu.datatypes.head? = some i then none
      else some target :=
  Loop.ends_unique ⟨fuel, within_eq_ok.mp h⟩ (ends_structureBody hdist ht htarget hpre)

/-- A chain with a structure among its tags has a first one. -/
theorem exists_first_structure {chain : List Datatype}
    (h : .structureType ∈ chain.map (·.typeName)) :
    ∃ pre target post, chain = pre ++ target :: post ∧ target.typeName = .structureType ∧
      ∀ i ∈ pre, i.typeName ≠ .structureType := by
  obtain ⟨i, hi, htype⟩ := List.mem_map.mp h
  have hsome : (chain.find? fun i ↦ i.typeName = .structureType).isSome :=
    List.find?_isSome.mpr ⟨i, hi, by simpa using htype⟩
  obtain ⟨target, hfind⟩ := Option.isSome_iff_exists.mp hsome
  obtain ⟨htarget, pre, post, hchain, hpre⟩ := List.find?_eq_some_iff_append.mp hfind
  exact ⟨pre, target, post, hchain, by simpa using htarget, fun i hi ↦ by simpa using hpre i hi⟩

/-- The record a parameter comes from, as `complex_value_to_string` finds it again. -/
structure LocatedAt (units : List CompileUnit) (param : SdbEntry) (datatypeIdx : Int)
    (cu : CompileUnit) (dt : DatatypeEntry) : Prop where
  unit : vectorAt units param.cuIndex = .ok cu
  function : ∃ fn, vectorAt cu.functions param.fnIndex = .ok fn ∧
    vectorAt fn.parameters (datatypeIdx - 1) = .ok dt

/-- With distinct offsets and acyclic links `complex_value_to_string` ends behind a chain with a
structure. -/
theorem complexValueToString_endsIff {u : Uninitialised} {units : List CompileUnit}
    {param : SdbEntry} {datatypeIdx : Int} {dt : DatatypeEntry} {chain : List Datatype}
    (hdist : (cu.datatypes.map (·.sectionOffset)).Nodup)
    (hac : Acyclic (nextType cu.datatypes) cu.datatypes)
    (hlocated : LocatedAt units param datatypeIdx cu dt)
    (ht : Trail (nextType cu.datatypes) dt.toDatatype chain)
    (hstructure : .structureType ∈ chain.map (·.typeName)) :
    EndsIff (fun fuel ↦ complexValueToString fuel u units param datatypeIdx) True := by
  obtain ⟨fn, hfn, hdt⟩ := hlocated.function
  obtain ⟨pre, target, post, rfl, htarget, hpre⟩ := exists_first_structure hstructure
  unfold complexValueToString
  split
  · exact EndsIff.ok ()
  · simp only [hlocated.unit, hfn, hdt, ok_bind]
    apply ((structureScan_endsIff hdist ht htarget hpre).seq (Q := True) ?_).congr (by simp)
    intro fuel result _
    cases result with
    | none => exact EndsIff.ok ()
    | some complexParam =>
      have hmembers := EndsIff.mapM (l := complexParam.members)
        fun member _ ↦ memberMetadata_endsIff u hac member
      exact (hmembers.seq fun _ _ _ ↦ EndsIff.ok ()).congr (by simp)

end Structure

section Value

variable (mem : Memory) (u : Uninitialised)

/-- The words behind a pointer that are read for it end. -/
def PointeeEnds (byteSize : Int) (value : Word) : Nat → DatatypeName → Prop
  | 1, .number => value ≠ 0 → NumberDataEnds mem byteSize value
  | 1, .string => CharDataEnds mem u value
  | 2, .number => AddressDataEnds mem (NumberDataEnds mem byteSize) value
  | 2, .string => AddressDataEnds mem (CharDataEnds mem u) value
  | _, _ => True

/-- The words that are read for a value end; nothing is read for unspecified parameters, for
plain values, and behind a pointer that is all ones or points to a zero word. -/
def ReadsEnd (byteSize : Int) (value : Word) (scan : TagScan) : Prop :=
  scan.unspecified = false → scan.pointerCount ≠ 0 → value ≠ allOnes → mem.peekData value ≠ 0 →
    PointeeEnds mem u byteSize value scan.pointerCount scan.datatypeName

/-- The text of a value without a pointer in its type. -/
def plainText (value : Word) : DatatypeName → Text
  | .empty => "unknown".toList
  | .struct => "...".toList
  | .number | .string => decimal value.toInt

/-- The text of a value. -/
def valueText (value : Word) (scan : TagScan) : Text :=
  if scan.unspecified then "...".toList
  else if scan.pointerCount = 0 then plainText value scan.datatypeName
  else if scan.pointerCount = 1 ∧ scan.datatypeName = .number ∧ value = 0 ∧ mem.peekData value ≠ 0
    then "0x0".toList
  else longToHexString value

variable {mem u} {param shown : SdbEntry} {value : Word}

theorem pointeeToString_endsIff (count : Nat) (name : DatatypeName) :
    EndsIff (fun fuel ↦ pointeeToString fuel mem u param value count name)
      (PointeeEnds mem u param.byteSize value count name) := by
  unfold pointeeToString PointeeEnds
  split
  · exact (getNumberValue_endsIff mem param value true).congr (by simp)
  · exact (getStringValue_endsIff mem u param value true).congr (by simp)
  · exact getMultiValue_endsIff mem param (fun addr ↦ getNumberData_endsIff mem addr _) value
  · exact getMultiValue_endsIff mem param (fun addr ↦ getCharData_endsIff mem u addr) value
  · exact EndsIff.ok param

theorem shownAs_of_pointeeToString {fuel count : Nat} {name : DatatypeName}
    (hparam : param.value = longToHexString value)
    (h : pointeeToString fuel mem u param value count name = .ok shown) :
    ShownAs param (if count = 1 ∧ name = .number ∧ value = 0 then "0x0".toList
      else longToHexString value) shown := by
  unfold pointeeToString at h
  split at h
  · have hshown := shownAs_of_getNumberValue_true h
    simpa using hshown
  · have hshown := shownAs_of_getStringValue h
    simpa using hshown
  · have hshown := shownAs_of_getMultiValue h
    rw [hparam] at hshown
    simpa using hshown
  · have hshown := shownAs_of_getMultiValue h
    rw [hparam] at hshown
    simpa using hshown
  · next hone _ _ _ =>
    cases h
    have hcond : ¬ (count = 1 ∧ name = .number ∧ value = 0) := fun hc ↦ hone hc.1 hc.2.1
    rw [if_neg hcond, ← hparam]
    exact ⟨param.valueAlias, rfl⟩

theorem pointerValueToString_endsIff (scan : TagScan) :
    EndsIff (fun fuel ↦ pointerValueToString fuel mem u param value scan)
      (value ≠ allOnes → mem.peekData value ≠ 0 →
        PointeeEnds mem u param.byteSize value scan.pointerCount scan.datatypeName) := by
  simp only [pointerValueToString, longToHexString_eq_allOnes_iff,
    if_neg (longToHexString_ne_zero value)]
  split
  · next hvalue => exact (EndsIff.ok _).congr (by simp [hvalue])
  · next hvalue =>
    split
    · next hpeek => exact (EndsIff.ok _).congr (by simp [hpeek])
    · next hpeek =>
      apply (pointeeToString_endsIff scan.pointerCount scan.datatypeName).congr
      simp only [ne_eq, hvalue, hpeek, not_false_eq_true, true_implies]

theorem shownAs_of_pointerValueToString {fuel : Nat} {scan : TagScan}
    (h : pointerValueToString fuel mem u param value scan = .ok shown) :
    ShownAs param (if scan.pointerCount = 1 ∧ scan.datatypeName = .number ∧ value = 0 ∧
      mem.peekData value ≠ 0 then "0x0".toList else longToHexString value) shown := by
  simp only [pointerValueToString, longToHexString_eq_allOnes_iff,
    if_neg (longToHexString_ne_zero value)] at h
  split at h
  · next hvalue =>
    cases h
    have hzero : value ≠ 0 := by
      rw [hvalue]
      decide
    rw [if_neg fun hc ↦ hzero hc.2.2.1]
    exact ⟨_, rfl⟩
  · split at h
    · next hpeek =>
      cases h
      rw [if_neg fun hc ↦ hc.2.2.2 hpeek]
      exact ⟨_, rfl⟩
    · next hpeek =>
      obtain ⟨valueAlias, rfl⟩ := shownAs_of_pointeeToString rfl h
      simp only [hpeek, ne_eq, not_false_eq_true, and_true]
      exact ⟨valueAlias, rfl⟩

theorem shownAs_of_plainValueToString {fuel : Nat} {units : List CompileUnit} {datatypeIdx : Int}
    {name : DatatypeName} (hparam : param.value = "unknown".toList)
    (h : plainValueToString fuel mem u units param value datatypeIdx name = .ok shown) :
    ShownAs param (plainText value name) shown := by
  cases name with
  | empty =>
    cases h
    have htext : plainText value .empty = param.value := hparam.symm
    rw [htext]
    exact ⟨param.valueAlias, rfl⟩
  | number => exact shownAs_of_getNumberValue_false h
  | string => exact shownAs_of_getStringValue h
  | struct =>
    obtain ⟨-, -, h⟩ := bind_eq_ok.mp h
    cases h
    exact ⟨param.valueAlias, rfl⟩

/-- What is shown of a parameter with known tags: its value's text, and whether it is complex. -/
theorem shownAs_of_datatypeValueToString {fuel : Nat} {units : List CompileUnit}
    {datatypeIdx : Int} {scan : TagScan}
    (hscan : scanTags param.dtName param.datatypes .start = scan)
    (h : datatypeValueToString fuel mem u units param value datatypeIdx = .ok shown) :
    ShownAs { param with isComplex := scan.isComplex } (valueText mem value scan) shown := by
  simp only [datatypeValueToString, hscan] at h
  unfold valueText
  split at h
  · next hunspecified =>
    cases h
    rw [if_pos hunspecified]
    exact ⟨param.valueAlias, rfl⟩
  · next hunspecified =>
    rw [if_neg hunspecified]
    split at h
    · next hcount =>
      obtain ⟨valueAlias, rfl⟩ := shownAs_of_plainValueToString rfl h
      rw [if_pos hcount]
      exact ⟨valueAlias, rfl⟩
    · next hcount =>
      obtain ⟨valueAlias, rfl⟩ := shownAs_of_pointerValueToString h
      rw [if_neg hcount]
      exact ⟨valueAlias, rfl⟩

/-- A value is shown when the words that are read for it end, and what is printed of a structure
ends. -/
theorem datatypeValueToString_endsIff {units : List CompileUnit} {datatypeIdx : Int}
    {scan : TagScan} (hscan : scanTags param.dtName param.datatypes .start = scan)
    (hcomplex : scan.pointerCount = 0 → scan.datatypeName = .struct →
      EndsIff (fun fuel ↦ complexValueToString fuel u units
        { param with isComplex := scan.isComplex, value := "...".toList } datatypeIdx) True) :
    EndsIff (fun fuel ↦ datatypeValueToString fuel mem u units param value datatypeIdx)
      (ReadsEnd mem u param.byteSize value scan) := by
  simp only [datatypeValueToString, hscan, ReadsEnd]
  split
  · next hunspecified => exact (EndsIff.ok _).congr (by simp [hunspecified])
  · next hunspecified =>
    rw [Bool.not_eq_true] at hunspecified
    split
    · next hcount =>
      refine EndsIff.congr (P := True) ?_ (by simp [hcount])
      cases hname : scan.datatypeName with
      | empty => exact EndsIff.ok _
      | number => exact (getNumberValue_endsIff mem _ value false).congr (by simp)
      | string => exact (getStringValue_endsIff mem u _ value false).congr (by simp)
      | struct =>
        exact ((hcomplex hcount hname).seq fun _ _ _ ↦ EndsIff.ok _).congr (by simp)
    · next hcount =>
      apply (pointerValueToString_endsIff scan).congr
      simp only [hunspecified, hcount, ne_eq, not_false_eq_true, true_implies]

end Value

end ArgsDebugger
