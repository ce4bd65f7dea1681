import ArgsDebugger.CompileUnit.CallingConvention
import ArgsDebugger.CompileUnit.StructureSearch

/-!
# Pointers that point nowhere

`datatype_value_to_string` compares the text of a pointer with `"0x0"` and with
`"0xffffffffffffffff"` (`src/compile_unit.cc:875–886`), and `generate_complex_payload` compares
it with `"0x0"` and with fifteen digits `f` (`src/compile_unit.cc:177`). The text itself comes from
`long_to_hex_string` (`src/helpers.cc:8–15`), which writes `"*0x0"` for a null pointer.
-/

namespace ArgsDebugger

open Lib Lib.Budget

/-- The pointers that point nowhere. -/
inductive Sentinel where
  | null | minusOne
  deriving DecidableEq, Repr

namespace Sentinel

/-- The contents of the register. -/
def value : Sentinel → Word
  | null => 0
  | minusOne => allOnes

/-- The alias of the comparisons. -/
def valueAlias : Sentinel → Text
  | null => "0".toList
  | minusOne => "-1".toList

end Sentinel

/-- A value is shown under an alias, the same for every memory and without a loop, and what
follows for a structure behind it ends and leaves it as it is. -/
def ShownWithoutReads (units : List CompileUnit) (cu : CompileUnit) (funcParam : DatatypeEntry)
    (param : SdbEntry) (datatypeIdx : Int) (value : Word) (valueAlias : Text) : Prop :=
  ∃ shown, shown.valueAlias = valueAlias ∧
    (∀ fuel mem u, datatypeValueToString fuel mem u units param value datatypeIdx = .ok shown) ∧
    ∀ u, ∃ fuel, generateComplexPayload fuel u cu funcParam ⟨shown, []⟩ = .ok ⟨shown, []⟩

/-- The hops of the scan from a record end, and the first structure among them has no members. -/
def LeadsToNoMembers (cu : CompileUnit) (x : Datatype) : Prop :=
  ∀ i, cu.datatypes.find? (fun j ↦ j.sectionOffset = x.type) = some i →
    ∃ l, Trail (hopType cu.datatypes) i l ∧
      ∀ target, (i :: l).find? (fun j ↦ j.typeName = .structureType) = some target →
        target.members = []

section Scan

variable {cu : CompileUnit} {x : Datatype}

/-- What the scan ends with where it leads to no members. -/
theorem leadsToNoMembers_iff :
    LeadsToNoMembers cu x ↔ ∃ fuel result, structureScan fuel cu x = some result ∧
      ∀ target, result = some target → target.members = [] := by
  constructor
  · intro h
    cases hi : cu.datatypes.find? fun j ↦ j.sectionOffset = x.type with
    | none =>
      obtain ⟨fuel, hrun⟩ := ends_structureBody_of_no_match hi
      exact ⟨fuel, none, hrun, fun target htarget ↦ by cases htarget⟩
    | some i =>
      obtain ⟨l, ht, hmembers⟩ := h i hi
      obtain ⟨fuel, hrun⟩ := ends_structureBody_of_match hi ht
      exact ⟨fuel, _, hrun, hmembers⟩
  · rintro ⟨fuel, result, hrun, hmembers⟩ i hi
    obtain ⟨l, ht⟩ := exists_trail_of_scan ⟨fuel, hrun⟩ hi
    refine ⟨l, ht, fun target htarget ↦ hmembers target ?_⟩
    exact (Loop.ends_unique ⟨fuel, hrun⟩ (ends_structureBody_of_match hi ht)).trans htarget

end Scan

section Payload

variable {cu : CompileUnit} {funcParam : DatatypeEntry} {shown : SdbEntry}

/-- With the text of a pointer that is all ones the members are resolved, and it is none that
`stol` reads. -/
theorem generateComplexPayload_allOnes_iff (u : Uninitialised)
    (hvalue : shown.value = longToHexString allOnes) :
    (∃ fuel, generateComplexPayload fuel u cu funcParam ⟨shown, []⟩ = .ok ⟨shown, []⟩) ↔
      LeadsToNoMembers cu funcParam.toDatatype := by
  have hguard : ¬ (shown.value = "0xfffffffffffffff".toList ∨ shown.value = "0x0".toList) := by
    rw [hvalue]
    decide
  have hstol : stol shown.value 0 = .error .outOfRange := by
    rw [hvalue, stol_longToHexString]
    rfl
  rw [leadsToNoMembers_iff]
  constructor
  · rintro ⟨fuel, h⟩
    simp only [generateComplexPayload, if_neg hguard] at h
    obtain ⟨result, hscan, h⟩ := bind_eq_ok.mp h
    refine ⟨fuel, result, within_eq_ok.mp hscan, ?_⟩
    rintro target rfl
    obtain ⟨members, hmembers, -⟩ := bind_eq_ok.mp h
    cases hlist : target.members with
    | nil => rfl
    | cons member rest =>
      rw [hlist, List.mapM_cons] at hmembers
      obtain ⟨_, hentry, -⟩ := bind_eq_ok.mp hmembers
      obtain ⟨_, -, hparsed⟩ := bind_eq_ok.mp hentry
      obtain ⟨_, hparsed, -⟩ := bind_eq_ok.mp hparsed
      rw [hstol] at hparsed
      cases hparsed
  · rintro ⟨fuel, result, hscan, hmembers⟩
    have hfound : withinFuel (structureScan fuel cu funcParam.toDatatype) = .ok result :=
      within_eq_ok.mpr hscan
    refine ⟨fuel, ?_⟩
    simp only [generateComplexPayload, if_neg hguard, hfound, ok_bind]
    cases result with
    | none => rfl
    | some target =>
      simp only [hmembers target rfl, List.mapM_nil]
      rfl

end Payload

section Pointers

variable {units : List CompileUnit} {param : SdbEntry} {datatypeIdx : Int}

/-- Behind unspecified parameters no value is read. -/
theorem datatypeValueToString_of_unspecified (h : .unspecifiedParameters ∈ param.datatypes)
    (fuel : Nat) (mem : Memory) (u : Uninitialised) (value : Word) {shown : SdbEntry}
    (hshown : datatypeValueToString fuel mem u units param value datatypeIdx = .ok shown) :
    shown.valueAlias = param.valueAlias := by
  simp only [datatypeValueToString, scanTags_unspecified_of_mem h, if_true] at hshown
  cases hshown
  rfl

/-- Any other parameter with a pointer or an array in its type is shown as a pointer. -/
theorem datatypeValueToString_of_pointer (hspecified : .unspecifiedParameters ∉ param.datatypes)
    (hpointer : ∃ i ∈ param.datatypes, i = .pointerType ∨ i = .arrayType) (fuel : Nat)
    (mem : Memory) (u : Uninitialised) (value : Word) :
    let scan := scanTags param.dtName param.datatypes .start
    datatypeValueToString fuel mem u units param value datatypeIdx =
      pointerValueToString fuel mem u
        { param with isComplex := scan.isComplex, value := "unknown".toList } value scan := by
  intro scan
  have hgone : scan.unspecified = false ∧ 0 ≤ scan.pointerCount ∧
      ((∃ i ∈ param.datatypes, i = .pointerType ∨ i = .arrayType) → 0 < scan.pointerCount) :=
    scanTags_of_specified fun i hi ↦ ne_of_mem_of_not_mem hi hspecified
  have hscan : scan.unspecified = false := hgone.1
  have hpos : scan.pointerCount ≠ 0 := Nat.pos_iff_ne_zero.mp (hgone.2.2 hpointer)
  unfold datatypeValueToString
  simp only [show scanTags param.dtName param.datatypes .start = scan from rfl, hscan, if_neg hpos]
  rfl

/-- A null pointer into a memory of zeros is one to a null. -/
theorem pointerValueToString_null (fuel : Nat) (u : Uninitialised) (scan : TagScan) :
    pointerValueToString fuel zeroMemory u param 0 scan =
      .ok { param with value := longToHexString 0, valueAlias := "NULL".toList } := by
  have hones : longToHexString 0 ≠ "0xffffffffffffffff".toList := by decide
  have hpeek : zeroMemory.peekData 0 = 0 := by rfl
  simp only [pointerValueToString, if_neg hones, if_neg (longToHexString_ne_zero 0), if_pos hpeek]

/-- A pointer that is all ones is shown before any memory is read. -/
theorem pointerValueToString_allOnes (fuel : Nat) (mem : Memory) (u : Uninitialised)
    (scan : TagScan) :
    pointerValueToString fuel mem u param allOnes scan =
      .ok { param with value := longToHexString allOnes, valueAlias := "-1".toList } := by
  have hones := longToHexString_eq_allOnes_iff.mpr (rfl : allOnes = allOnes)
  simp only [pointerValueToString, if_pos hones]

variable {cu : CompileUnit} {funcParam : DatatypeEntry}

/-- Which values are shown without reads, for a parameter that is shown as a pointer unless it is
unspecified. -/
theorem shownWithoutReads_iff (hnoAlias : param.valueAlias = [])
    (hpointer : ∃ i ∈ param.datatypes, i = .pointerType ∨ i = .arrayType) (s : Sentinel) :
    ShownWithoutReads units cu funcParam param datatypeIdx s.value s.valueAlias ↔
      s = .minusOne ∧ .unspecifiedParameters ∉ param.datatypes ∧
        LeadsToNoMembers cu funcParam.toDatatype := by
  constructor
  · rintro ⟨shown, halias, hshown, hpayload⟩
    have hfirst := hshown 0 zeroMemory zeroUninitialised
    have hspecified : .unspecifiedParameters ∉ param.datatypes := by
      intro hmem
      have hsame := datatypeValueToString_of_unspecified hmem 0 _ _ _ hfirst
      rw [hsame, hnoAlias] at halias
      cases s with
      | null => cases halias
      | minusOne => cases halias
    rw [datatypeValueToString_of_pointer hspecified hpointer] at hfirst
    cases s with
    | null =>
      rw [Sentinel.value, pointerValueToString_null] at hfirst
      cases hfirst
      have hsame : "NULL".toList = "0".toList := halias
      exact absurd hsame (by decide)
    | minusOne =>
      rw [Sentinel.value, pointerValueToString_allOnes] at hfirst
      cases hfirst
      have hmembers := hpayload zeroUninitialised
      rw [generateComplexPayload_allOnes_iff zeroUninitialised rfl] at hmembers
      exact ⟨rfl, hspecified, hmembers⟩
  · rintro ⟨rfl, hspecified, hmembers⟩
    refine ⟨{ param with
      isComplex := (scanTags param.dtName param.datatypes .start).isComplex
      value := longToHexString allOnes
      valueAlias := "-1".toList }, rfl, ?_, ?_⟩
    · intro fuel mem u
      rw [datatypeValueToString_of_pointer hspecified hpointer, Sentinel.value]
      exact pointerValueToString_allOnes fuel mem u _
    · intro u
      exact (generateComplexPayload_allOnes_iff u rfl).mpr hmembers

end Pointers

/-- Pointers that point nowhere: for every parameter with a pointer or an array in its type, the
value is shown under its alias without a look at the memory, and gets no members, exactly when it
is all ones, no unspecified parameters are among the types, and the scan for a structure ends and
finds none with members. A null pointer never is. -/
theorem sentinels_shown_iff (units : List CompileUnit) (cu : CompileUnit)
    (funcParam : DatatypeEntry) (cuIndex fnIndex : Int) (isComplex : Bool)
    (chain : List Datatype) (ht : Trail (nextType cu.datatypes) funcParam.toDatatype chain)
    (hpointer : ∃ i ∈ chain, i.typeName = .pointerType ∨ i.typeName = .arrayType) (fuel : Nat)
    (param : SdbEntry)
    (hparam : getDatatypeMetadata fuel cu funcParam.toDatatype
      (newParameter cuIndex fnIndex isComplex funcParam) = some param) (datatypeIdx : Int)
    (s : Sentinel) :
    ShownWithoutReads units cu funcParam param datatypeIdx s.value s.valueAlias ↔
      s = .minusOne ∧
        (∀ i ∈ funcParam.toDatatype :: chain, i.typeName ≠ .unspecifiedParameters) ∧
        LeadsToNoMembers cu funcParam.toDatatype := by
  have hdescribed := described_of_getDatatypeMetadata ht hparam
  obtain ⟨_, _, _, hframe⟩ := described_frame funcParam.toDatatype chain
    (newParameter cuIndex fnIndex isComplex funcParam)
  have hnoAlias : param.valueAlias = [] := by
    rw [hdescribed, hframe]
    rfl
  have htags : param.datatypes = [] ++
      (if funcParam.toDatatype.typeName = .unspecifiedParameters then [.unspecifiedParameters]
        else []) ++
      chain.map (·.typeName) := by
    rw [hdescribed]
    exact described_datatypes
  have hpointerTag : ∃ i ∈ param.datatypes, i = .pointerType ∨ i = .arrayType := by
    obtain ⟨i, hi, htype⟩ := hpointer
    refine ⟨i.typeName, ?_, htype⟩
    rw [htags]
    exact List.mem_append_right _ (List.mem_map_of_mem hi)
  have hspecified : .unspecifiedParameters ∉ param.datatypes ↔
      ∀ i ∈ funcParam.toDatatype :: chain, i.typeName ≠ .unspecifiedParameters := by
    rw [htags, List.forall_mem_cons]
    simp [List.mem_map, eq_comm]
  rw [← hspecified]
  exact shownWithoutReads_iff hnoAlias hpointerTag s

/-- The metadata of the sample parameter are found. -/
theorem exists_pointerParameter :
    ∃ param, getDatatypeMetadata 3 (unitOf [samplePointer, sampleStructure])
      (typedParameter 3).toDatatype (newParameter 0 0 false (typedParameter 3)) = some param :=
  ⟨_, rfl⟩

/-- A null pointer is shown as `"*0x0"` and then read through: its alias is `"NULL"`. -/
theorem sentinels_null_not_shown :
    ¬ ∀ (units : List CompileUnit) (cu : CompileUnit) (funcParam : DatatypeEntry)
      (cuIndex fnIndex : Int) (isComplex : Bool) (chain : List Datatype),
      Trail (nextType cu.datatypes) funcParam.toDatatype chain →
      (∃ i ∈ chain, i.typeName = .pointerType ∨ i.typeName = .arrayType) →
      ∀ fuel param, getDatatypeMetadata fuel cu funcParam.toDatatype
        (newParameter cuIndex fnIndex isComplex funcParam) = some param →
      ∀ (datatypeIdx : Int) (s : Sentinel),
        ShownWithoutReads units cu funcParam param datatypeIdx s.value s.valueAlias := by
  intro h
  obtain ⟨param, hparam⟩ := exists_pointerParameter
  obtain ⟨shown, halias, hshown, -⟩ := h [] _ _ 0 0 false _ (trail_sample (.inr rfl))
    ⟨samplePointer, List.mem_cons_self, .inl rfl⟩ 3 param hparam 1 .null
  have hfirst := hshown 0 zeroMemory zeroUninitialised
  cases hparam
  cases hfirst
  exact absurd halias (by decide)

/-- A pointer to a structure without members that is all ones is shown as such. -/
theorem sentinels_shown_iff_sample :
    ∃ param, getDatatypeMetadata 3 (unitOf [samplePointer, sampleStructure])
        (typedParameter 3).toDatatype (newParameter 0 0 false (typedParameter 3)) = some param ∧
      ShownWithoutReads [] (unitOf [samplePointer, sampleStructure]) (typedParameter 3) param 1
        allOnes "-1".toList := by
  obtain ⟨param, hparam⟩ := exists_pointerParameter
  have hmembers : LeadsToNoMembers (unitOf [samplePointer, sampleStructure])
      (typedParameter 3).toDatatype := by
    intro i hi
    cases hi
    refine ⟨[sampleStructure], .step rfl (.stop rfl), ?_⟩
    intro target htarget
    cases htarget
    rfl
  exact ⟨param, hparam, (sentinels_shown_iff [] (unitOf [samplePointer, sampleStructure])
    (typedParameter 3) 0 0 false _ (trail_sample (.inr rfl))
    ⟨samplePointer, List.mem_cons_self, .inl rfl⟩ 3 param hparam 1 .minusOne).mpr
    ⟨rfl, by decide, hmembers⟩⟩

end ArgsDebugger
