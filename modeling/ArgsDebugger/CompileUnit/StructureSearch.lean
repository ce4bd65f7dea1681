import ArgsDebugger.CompileUnit.StructureScan
import ArgsDebugger.CompileUnit.Walk

/-!
# Termination and soundness of the loops over the types

The chain loop of `get_datatype_metadata` (`src/compile_unit.cc:670–722`) and the scans for a
structure (`src/compile_unit.cc:184–199,946–961`) follow section offsets of the program's debug
info, and none of them remembers where it has been. `nextType` is a link of the chain loop,
`hopType` a hop of the scans. Each loop ends exactly when no cycle of its links is reached; where
offsets are distinct and none is 0, a scan hops along the chain only.
-/

namespace ArgsDebugger

open Lib

/-- A hop of the scan: from a record that is no structure to the first match behind the first
slot. -/
def hopType (datatypes : List Datatype) (i : Datatype) : Option Datatype :=
  if i.typeName = .structureType then none
  else (datatypes.drop 1).find? fun j ↦ j.sectionOffset = i.type

section Termination

variable {datatypes : List Datatype}

theorem hopType_of_struct {i : Datatype} (h : i.typeName = .structureType) :
    hopType datatypes i = none := if_pos h

theorem hopType_of_not_struct {i : Datatype} (h : i.typeName ≠ .structureType) :
    hopType datatypes i = (datatypes.drop 1).find? fun j ↦ j.sectionOffset = i.type := if_neg h

/-- Every hop leads to one of the unit's datatypes. -/
theorem mem_of_hopType {i j : Datatype} (h : hopType datatypes i = some j) : j ∈ datatypes := by
  unfold hopType at h
  split at h
  · cases h
  · exact List.mem_of_mem_drop (List.mem_of_find?_eq_some h)

/-- Where the hops from a record end, the scan that has just hopped to it ends, with the first
structure among them. -/
theorem ends_structureBody_of_hops {i : Datatype} {l : List Datatype}
    (ht : Trail (hopType datatypes) i l) (hi : i.typeName ≠ .structureType) :
    Loop.Ends (structureBody datatypes) (i, 1) (l.find? fun j ↦ j.typeName = .structureType) := by
  induction ht with
  | stop h =>
    rw [hopType_of_not_struct hi] at h
    rw [ends_structureBody_iff, h]
    rfl
  | @step i j l h ht ih =>
    rw [hopType_of_not_struct hi] at h
    rw [ends_structureBody_iff, h]
    by_cases hj : j.typeName = .structureType
    · rw [List.find?_cons_of_pos (by simpa using hj)]
      exact (if_pos hj).mpr rfl
    · rw [List.find?_cons_of_neg (by simpa using hj)]
      exact (if_neg hj).mpr (ih hj)

/-- The scan from a record ends where the hops from its first match do. -/
theorem ends_structureBody_of_match {x i : Datatype} {l : List Datatype}
    (hi : datatypes.find? (fun j ↦ j.sectionOffset = x.type) = some i)
    (ht : Trail (hopType datatypes) i l) :
    Loop.Ends (structureBody datatypes) (x, 0)
      ((i :: l).find? fun j ↦ j.typeName = .structureType) := by
  rw [ends_structureBody_iff, List.drop_zero, hi]
  by_cases hstruct : i.typeName = .structureType
  · rw [List.find?_cons_of_pos (by simpa using hstruct)]
    exact (if_pos hstruct).mpr rfl
  · rw [List.find?_cons_of_neg (by simpa using hstruct)]
    exact (if_neg hstruct).mpr (ends_structureBody_of_hops ht hstruct)

theorem ends_structureBody_of_no_match {x : Datatype}
    (hi : datatypes.find? (fun j ↦ j.sectionOffset = x.type) = none) :
    Loop.Ends (structureBody datatypes) (x, 0) none := by
  rw [ends_structureBody_iff, List.drop_zero, hi]

/-- The first match from an index on is at the index or behind it. -/
private theorem find?_drop_of_getElem? {index : Nat} {d : Datatype} {offset : Int}
    (h : datatypes[index]? = some d) :
    (datatypes.drop index).find? (fun j ↦ j.sectionOffset = offset) =
      if d.sectionOffset = offset then some d
      else (datatypes.drop (index + 1)).find? fun j ↦ j.sectionOffset = offset := by
  obtain ⟨hlt, hd⟩ := List.getElem?_eq_some_iff.mp h
  rw [List.drop_eq_getElem_cons hlt, hd, List.find?_cons]
  split <;> simp_all

/-- Where a scan ends, the hops from the next match of its record end. -/
theorem exists_trail_of_scan {s : Datatype × Nat} {r : Option Datatype}
    (h : Loop.Ends (structureBody datatypes) s r) {i : Datatype}
    (hi : (datatypes.drop s.2).find? (fun j ↦ j.sectionOffset = s.1.type) = some i) :
    ∃ l, Trail (hopType datatypes) i l := by
  revert i
  refine Loop.ends_induction (motive := fun s ↦ ∀ {i : Datatype},
    (datatypes.drop s.2).find? (fun j ↦ j.sectionOffset = s.1.type) = some i →
      ∃ l, Trail (hopType datatypes) i l) h ?_ ?_
  · intro s hbody i hi
    rcases structureBody_inl hbody with ⟨hget, -⟩ | ⟨d, hget, hmatch, hstruct, -⟩
    · rw [List.drop_eq_nil_of_le (List.getElem?_eq_none_iff.mp hget)] at hi
      cases hi
    · rw [find?_drop_of_getElem? hget, if_pos hmatch.symm] at hi
      cases hi
      exact ⟨[], .stop (hopType_of_struct hstruct)⟩
  · intro s s' hbody _ ih i hi
    obtain ⟨d, hget, hcases⟩ := structureBody_inr hbody
    rw [find?_drop_of_getElem? hget] at hi
    rcases hcases with ⟨hmatch, hstruct, rfl⟩ | ⟨hmatch, rfl⟩
    · rw [if_pos hmatch.symm] at hi
      cases hi
      have hhop : hopType datatypes i = (datatypes.drop 1).find? fun j ↦ j.sectionOffset = i.type :=
        hopType_of_not_struct hstruct
      cases hnext : hopType datatypes i with
      | none => exact ⟨[], .stop hnext⟩
      | some j =>
        obtain ⟨l, hl⟩ := ih (hhop.symm.trans hnext)
        exact ⟨j :: l, .step hnext hl⟩
    · rw [if_neg (Ne.symm hmatch)] at hi
      exact ih hi

/-- The scan for the structure behind a record ends exactly when the hops from its first match
do. -/
theorem structureScan_isSome_iff {cu : CompileUnit} {x : Datatype} :
    (∃ fuel, (structureScan fuel cu x).isSome) ↔
      ∀ i, cu.datatypes.find? (fun j ↦ j.sectionOffset = x.type) = some i →
        NoCycle (hopType cu.datatypes) i := by
  have hmem := fun a b (h : hopType cu.datatypes a = some b) ↦ mem_of_hopType h
  constructor
  · rintro ⟨fuel, h⟩ i hi
    obtain ⟨r, hr⟩ := Option.isSome_iff_exists.mp h
    apply (exists_trail_iff hmem).mp
    exact exists_trail_of_scan ⟨fuel, hr⟩ hi
  · intro h
    have hhalts : Loop.Halts (structureBody cu.datatypes) (x, 0) := by
      cases hi : cu.datatypes.find? fun j ↦ j.sectionOffset = x.type with
      | none => exact ⟨none, ends_structureBody_of_no_match hi⟩
      | some i =>
        obtain ⟨l, hl⟩ := (h i hi).exists_trail hmem
        exact ⟨_, ends_structureBody_of_match hi hl⟩
    obtain ⟨r, fuel, hr⟩ := hhalts
    exact ⟨fuel, Option.isSome_iff_exists.mpr ⟨r, hr⟩⟩

end Termination

/-- The chain loop and the scans over a unit's types both end for a record exactly when no cycle
of type references is reached from the record, and none of hops from its first match. -/
theorem typeLoops_end_iff (cu : CompileUnit) (x : Datatype) (param : SdbEntry) :
    ((∃ fuel, (getDatatypeMetadata fuel cu x param).isSome) ∧
      ∃ fuel, (structureScan fuel cu x).isSome) ↔
    NoCycle (nextType cu.datatypes) x ∧
      ∀ i, cu.datatypes.find? (fun j ↦ j.sectionOffset = x.type) = some i →
        NoCycle (hopType cu.datatypes) i := by
  rw [getDatatypeMetadata_isSome_iff, structureScan_isSome_iff,
    exists_trail_iff fun _ _ h ↦ mem_of_nextType h]

/-- A unit with a pointer type that refers to itself. -/
def cyclicUnit : RoseTree Die :=
  .node ⟨.compileUnit, 11, []⟩ [.node ⟨.pointerType, 0x2d, [(.type, "<0x2d>".toList)]⟩ []]

/-- The record of the pointer type. -/
def cyclicPointer : Datatype :=
  ⟨{ (default : DatatypeEntry) with
    sectionOffset := 0x2d, typeName := .pointerType, type := 0x2d }, [], []⟩

/-- The debug info of the unit is walked, and then neither loop ends for the pointer type. -/
theorem typeLoops_cycle :
    ¬ ∀ (fresh : Int → DatatypeEntry) (getFuncAddr : Text → Word) (lowAddr highAddr : Word)
      (root : RoseTree Die) (s : WalkState),
      processCuTree fresh getFuncAddr root 1 (WalkState.start lowAddr highAddr) = .ok s →
      ∀ (x : Datatype) (param : SdbEntry),
        (∃ fuel, (getDatatypeMetadata fuel s.compileUnit x param).isSome) ∧
          ∃ fuel, (structureScan fuel s.compileUnit x).isSome := by
  intro h
  obtain ⟨s, hok, hs⟩ : ∃ s, processCuTree (fun _ ↦ default) (fun _ ↦ 0) cyclicUnit 1
      (WalkState.start 0 0) = .ok s ∧ s.compileUnit = unitOf [cyclicPointer] := ⟨_, rfl, rfl⟩
  have hends := (h _ _ _ _ cyclicUnit s hok cyclicPointer
    ⟨0, 0, [], [], [], [], [], 0, false⟩).1
  rw [hs, getDatatypeMetadata_isSome_iff] at hends
  obtain ⟨l, ht⟩ := hends
  have hself : nextType (unitOf [cyclicPointer]).datatypes cyclicPointer = some cyclicPointer := rfl
  exact ht.not_transGen_self (.single hself)

section Soundness

variable {cu : CompileUnit}

/-- Where offsets are distinct and none is 0, a record is the one its offset is looked up for. -/
theorem nextType_of_mem (hdist : (cu.datatypes.map (·.sectionOffset)).Nodup)
    (hpos : ∀ i ∈ cu.datatypes, i.sectionOffset ≠ 0) {x i : Datatype} (hi : i ∈ cu.datatypes)
    (htype : i.sectionOffset = x.type) : nextType cu.datatypes x = some i := by
  have hne : x.type ≠ 0 := htype ▸ hpos i hi
  rw [nextType_of_type_ne_zero hne]
  cases hfind : cu.datatypes.find? fun j ↦ j.sectionOffset = x.type with
  | none =>
    have hnot := List.find?_eq_none.mp hfind i hi
    simp [htype] at hnot
  | some j =>
    have hj : j.sectionOffset = x.type := by simpa using List.find?_some hfind
    have hsame := List.inj_on_of_nodup_map hdist (List.mem_of_find?_eq_some hfind) hi
      (hj.trans htype.symm)
    rw [hsame]

/-- There every hop of the scan is a link of the chain. -/
theorem nextType_of_hopType (hdist : (cu.datatypes.map (·.sectionOffset)).Nodup)
    (hpos : ∀ i ∈ cu.datatypes, i.sectionOffset ≠ 0) {i j : Datatype}
    (h : hopType cu.datatypes i = some j) : nextType cu.datatypes i = some j := by
  apply nextType_of_mem hdist hpos (mem_of_hopType h)
  unfold hopType at h
  split at h
  · cases h
  · simpa using List.find?_some h

/-- There a structure that the scan ends with is the first one on the chain. -/
theorem first_structure_of_ends (hdist : (cu.datatypes.map (·.sectionOffset)).Nodup)
    (hpos : ∀ i ∈ cu.datatypes, i.sectionOffset ≠ 0)
    (hac : Acyclic (nextType cu.datatypes) cu.datatypes) {s : Datatype × Nat} {target : Datatype}
    (h : Loop.Ends (structureBody cu.datatypes) s (some target)) :
    ∃ pre post, Trail (nextType cu.datatypes) s.1 (pre ++ target :: post) ∧
      target.typeName = .structureType ∧ ∀ i ∈ pre, i.typeName ≠ .structureType := by
  refine Loop.ends_induction (motive := fun s ↦ ∃ pre post,
    Trail (nextType cu.datatypes) s.1 (pre ++ target :: post) ∧
      target.typeName = .structureType ∧ ∀ i ∈ pre, i.typeName ≠ .structureType) h ?_ ?_
  · intro s hbody
    rcases structureBody_inl hbody with ⟨-, hnone⟩ | ⟨d, hget, hmatch, hstruct, hd⟩
    · cases hnone
    · cases hd
      have hlink := nextType_of_mem hdist hpos (List.mem_of_getElem? hget) hmatch.symm
      obtain ⟨post, ht⟩ := hac.exists_trail (fun _ _ ↦ mem_of_nextType) target
      exact ⟨[], post, .step hlink ht, hstruct, fun i hi ↦ absurd hi List.not_mem_nil⟩
  · intro s s' hbody _ ih
    obtain ⟨d, hget, hcases⟩ := structureBody_inr hbody
    rcases hcases with ⟨hmatch, hstruct, rfl⟩ | ⟨-, rfl⟩
    · have hlink := nextType_of_mem hdist hpos (List.mem_of_getElem? hget) hmatch.symm
      obtain ⟨pre, post, ht, htarget, hpre⟩ := ih
      exact ⟨d :: pre, post, .step hlink ht, htarget, List.forall_mem_cons.mpr ⟨hstruct, hpre⟩⟩
    · exact ih

end Soundness

/-- The search for a structure: with distinct section offsets, none of them 0, and acyclic
links, the scan from any record ends, and a structure it ends with is the first one on the
chain of types. -/
theorem structureScan_sound (cu : CompileUnit) (x : Datatype)
    (hdist : (cu.datatypes.map (·.sectionOffset)).Nodup)
    (hpos : ∀ i ∈ cu.datatypes, i.sectionOffset ≠ 0)
    (hac : Acyclic (nextType cu.datatypes) cu.datatypes) :
    (∃ fuel, (structureScan fuel cu x).isSome) ∧
      ∀ fuel target, structureScan fuel cu x = some (some target) →
        ∃ pre post, Trail (nextType cu.datatypes) x (pre ++ target :: post) ∧
          target.typeName = .structureType ∧ ∀ i ∈ pre, i.typeName ≠ .structureType := by
  constructor
  · rw [structureScan_isSome_iff]
    intro i _
    have hnone := hac.noCycle (fun _ _ ↦ mem_of_nextType) i
    exact hnone.mono fun _ _ ↦ nextType_of_hopType hdist hpos
  · intro fuel target h
    exact first_structure_of_ends hdist hpos hac ⟨fuel, h⟩

/-- A structure at section offset 0, which a record without a type seems to refer to. -/
def zeroStructure : Datatype :=
  ⟨{ (default : DatatypeEntry) with
    sectionOffset := 0, typeName := .structureType, type := 9 }, [], []⟩

/-- The scan from a record without a type finds the structure at offset 0; the chain of the
record is empty. -/
theorem structureScan_unsound_at_zero :
    ¬ ∀ (cu : CompileUnit) (x : Datatype), (cu.datatypes.map (·.sectionOffset)).Nodup →
      Acyclic (nextType cu.datatypes) cu.datatypes →
      (∃ fuel, (structureScan fuel cu x).isSome) ∧
        ∀ fuel target, structureScan fuel cu x = some (some target) →
          ∃ pre post, Trail (nextType cu.datatypes) x (pre ++ target :: post) ∧
            target.typeName = .structureType ∧ ∀ i ∈ pre, i.typeName ≠ .structureType := by
  intro h
  let x : Datatype := ⟨{ (default : DatatypeEntry) with typeName := .formalParameter }, [], []⟩
  have hac : Acyclic (nextType (unitOf [zeroStructure]).datatypes)
      (unitOf [zeroStructure]).datatypes := by
    apply Acyclic.of_trails
    intro i hi
    rw [List.mem_singleton.mp hi]
    exact ⟨[], .stop rfl⟩
  obtain ⟨pre, post, ht, -⟩ :=
    (h (unitOf [zeroStructure]) x (by decide) hac).2 1 zeroStructure (by decide)
  have hnil := ht.unique (.stop (nextType_of_type_eq_zero (show x.type = 0 from rfl)))
  simp at hnil

/-- The structure behind a pointer is found, in this order of the two types. -/
theorem structureScan_sound_sample :
    ∃ pre post, Trail (nextType [samplePointer, sampleStructure]) samplePointerParameter
      (pre ++ sampleStructure :: post) := by
  have hsound := structureScan_sound (unitOf [samplePointer, sampleStructure])
    samplePointerParameter (by decide) (by decide) (acyclic_sample (.inr rfl))
  obtain ⟨pre, post, ht, -⟩ := hsound.2 10 sampleStructure (by decide)
  exact ⟨pre, post, ht⟩

end ArgsDebugger
