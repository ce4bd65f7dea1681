import ArgsDebugger.Common
import ArgsDebugger.Lib.Loop
import ArgsDebugger.Lib.Trail

/-!
# The chain of types behind a record

`CompileUnitManager::get_datatype_metadata`, `src/compile_unit.cc:654–723`. A record refers to
its type by section offset; the loop looks the offset up among the unit's datatypes, takes
the first match as the next record and goes on until a record has no type or its type is not
recorded. `nextType` is one such link, and the trail along it is all that the loop sees.
-/

namespace ArgsDebugger

open Lib

/-- The record that a record's type refers to: the first one at that section offset. -/
def nextType (datatypes : List Datatype) (x : Datatype) : Option Datatype :=
  if x.type = 0 then none else datatypes.find? fun i ↦ i.sectionOffset = x.type

/-- The locals of `get_datatype_metadata` and the parameter it fills, with the number of
successful look-ups. -/
structure MetadataScan where
  dt : Text
  param : SdbEntry
  current : Datatype
  lookups : Nat
  deriving DecidableEq, Repr

/-- The locals before the loop. -/
def MetadataScan.start (datatype : Datatype) (param : SdbEntry) : MetadataScan :=
  if datatype.typeName = .unspecifiedParameters then
    ⟨"...".toList, { param with datatypes := param.datatypes ++ [.unspecifiedParameters] },
      datatype, 0⟩
  else ⟨[], param, datatype, 0⟩

/-- The text of a type in front of the text so far (`src/compile_unit.cc:681–711`). -/
def prependType (dt : Text) (datatypes : List DwTag) (i : Datatype) : Text :=
  if i.typeName = .pointerType then
    if i.type = 0 then "void ".toList ++ ('*' :: dt) else '*' :: dt
  else if i.typeName = .typedef then
    if datatypes.getLast? = some .typedef then '(' :: i.name ++ ") ".toList ++ dt
    else i.name ++ ' ' :: dt
  else if i.typeName = .constType then "const ".toList ++ dt
  else if i.typeName = .baseType ∧ datatypes.getLast? = some .typedef ∧ i.name ≠ [] then
    '(' :: i.name ++ ") ".toList ++ dt
  else if i.name ≠ [] then i.name ++ ' ' :: dt
  else dt

/-- A record that was looked up. -/
def MetadataScan.visit (s : MetadataScan) (i : Datatype) : MetadataScan where
  dt := prependType s.dt s.param.datatypes i
  param := { s.param with byteSize := i.byteSize, datatypes := s.param.datatypes ++ [i.typeName] }
  current := i
  lookups := s.lookups + 1

/-- An iteration of the loop. -/
def metadataBody (datatypes : List Datatype) (s : MetadataScan) : MetadataScan ⊕ MetadataScan :=
  match datatypes.find? fun i ↦ i.sectionOffset = s.current.type with
  | none => .inl s
  | some i => if i.type = 0 then .inl (s.visit i) else .inr (s.visit i)

/-- `get_datatype_metadata` up to its last line, within a budget of iterations. -/
def metadataScan (fuel : Nat) (cu : CompileUnit) (datatype : Datatype) (param : SdbEntry) :
    Option MetadataScan :=
  if datatype.type = 0 then some (.start datatype param)
  else Loop.run (metadataBody cu.datatypes) fuel (.start datatype param)

/-- `CompileUnitManager::get_datatype_metadata`, `src/compile_unit.cc:654–723`. -/
def getDatatypeMetadata (fuel : Nat) (cu : CompileUnit) (datatype : Datatype)
    (param : SdbEntry) : Option SdbEntry :=
  (metadataScan fuel cu datatype param).map fun s ↦ { s.param with dtName := s.dt }

section Chain

variable {datatypes : List Datatype}

theorem nextType_of_type_eq_zero {x : Datatype} (h : x.type = 0) : nextType datatypes x = none :=
  if_pos h

theorem nextType_of_type_ne_zero {x : Datatype} (h : x.type ≠ 0) :
    nextType datatypes x = datatypes.find? fun i ↦ i.sectionOffset = x.type := if_neg h

theorem find?_of_nextType {x y : Datatype} (h : nextType datatypes x = some y) :
    (datatypes.find? fun i ↦ i.sectionOffset = x.type) = some y := by
  unfold nextType at h
  split at h
  · cases h
  · exact h

/-- Every record on a chain is one of the unit's datatypes. -/
theorem mem_of_nextType {x y : Datatype} (h : nextType datatypes x = some y) : y ∈ datatypes :=
  List.mem_of_find?_eq_some (find?_of_nextType h)

/-- Along a finite chain the loop visits its records in order and ends. -/
theorem ends_metadataBody {x : Datatype} {l : List Datatype} (ht : Trail (nextType datatypes) x l)
    {s : MetadataScan} (hx : s.current = x) (htype : x.type ≠ 0) :
    Loop.Ends (metadataBody datatypes) s (l.foldl MetadataScan.visit s) := by
  induction ht generalizing s with
  | @stop x h =>
    rw [nextType_of_type_ne_zero htype] at h
    have hbody : metadataBody datatypes s = .inl s := by simp only [metadataBody, hx, h]
    exact (Loop.ends_inl hbody).mpr rfl
  | @step x y l h ht ih =>
    rw [nextType_of_type_ne_zero htype] at h
    by_cases hy : y.type = 0
    · have hbody : metadataBody datatypes s = .inl (s.visit y) := by
        simp only [metadataBody, hx, h, if_pos hy]
      have hl : l = [] := (Trail.iff_nil (nextType_of_type_eq_zero hy)).mp ht
      rw [hl]
      exact (Loop.ends_inl hbody).mpr rfl
    · have hbody : metadataBody datatypes s = .inr (s.visit y) := by
        simp only [metadataBody, hx, h, if_neg hy]
      exact (Loop.ends_inr hbody).mpr (ih rfl hy)

/-- Where the loop ends, the chain from its current record is finite. -/
theorem exists_trail_of_ends {s r : MetadataScan}
    (h : Loop.Ends (metadataBody datatypes) s r) (htype : s.current.type ≠ 0) :
    ∃ l, Trail (nextType datatypes) s.current l := by
  revert htype
  refine Loop.ends_induction
    (motive := fun s ↦ s.current.type ≠ 0 → ∃ l, Trail (nextType datatypes) s.current l) h ?_ ?_
  · intro s hbody htype
    have hnext : nextType datatypes s.current =
        datatypes.find? fun i ↦ i.sectionOffset = s.current.type := nextType_of_type_ne_zero htype
    unfold metadataBody at hbody
    cases hf : datatypes.find? fun i ↦ i.sectionOffset = s.current.type with
    | none => exact ⟨[], .stop (hnext.trans hf)⟩
    | some i =>
      simp only [hf] at hbody
      split at hbody
      · next hi => exact ⟨[i], .step (hnext.trans hf) (.stop (nextType_of_type_eq_zero hi))⟩
      · cases hbody
  · intro s s' hbody _ ih htype
    have hnext : nextType datatypes s.current =
        datatypes.find? fun i ↦ i.sectionOffset = s.current.type := nextType_of_type_ne_zero htype
    unfold metadataBody at hbody
    cases hf : datatypes.find? fun i ↦ i.sectionOffset = s.current.type with
    | none =>
      simp only [hf] at hbody
      cases hbody
    | some i =>
      simp only [hf] at hbody
      split at hbody
      · cases hbody
      · next hi =>
        cases hbody
        obtain ⟨l, hl⟩ := ih hi
        exact ⟨i :: l, .step (hnext.trans hf) hl⟩

/-- What visiting a list of records leaves. -/
theorem foldl_visit (l : List Datatype) (s : MetadataScan) :
    (l.foldl MetadataScan.visit s).param.datatypes = s.param.datatypes ++ l.map (·.typeName) ∧
      (l.foldl MetadataScan.visit s).param.byteSize =
        (l.getLast?.map (·.byteSize)).getD s.param.byteSize ∧
      (l.foldl MetadataScan.visit s).lookups = s.lookups + l.length := by
  induction l using List.reverseRecOn with
  | nil => simp
  | append_singleton l i ih =>
    obtain ⟨hnames, -, hcount⟩ := ih
    rw [List.foldl_append, List.foldl_cons, List.foldl_nil]
    refine ⟨?_, ?_, ?_⟩
    · simp only [MetadataScan.visit, hnames, List.map_append, List.map_cons, List.map_nil,
        List.append_assoc]
    · simp [MetadataScan.visit]
    · simp only [MetadataScan.visit, hcount, List.length_append, List.length_singleton]
      omega

end Chain

section Metadata

variable (cu : CompileUnit) (datatype : Datatype) (param : SdbEntry)

theorem MetadataScan.start_current : (MetadataScan.start datatype param).current = datatype := by
  unfold start
  split <;> rfl

/-- The names before the loop. -/
theorem MetadataScan.start_datatypes : (MetadataScan.start datatype param).param.datatypes =
    param.datatypes ++
      if datatype.typeName = .unspecifiedParameters then [.unspecifiedParameters] else [] := by
  unfold start
  split
  · rfl
  · exact (List.append_nil _).symm

/-- Before the loop only the tags are written. -/
theorem MetadataScan.start_frame :
    ∃ datatypes, (MetadataScan.start datatype param).param =
      { param with datatypes := datatypes } := by
  unfold start
  split
  · exact ⟨_, rfl⟩
  · exact ⟨param.datatypes, rfl⟩

/-- A visit writes the tags and the size of the parameter only. -/
theorem foldl_visit_frame (l : List Datatype) (s : MetadataScan) :
    ∃ datatypes byteSize, (l.foldl MetadataScan.visit s).param =
      { s.param with datatypes := datatypes, byteSize := byteSize } := by
  induction l generalizing s with
  | nil => exact ⟨s.param.datatypes, s.param.byteSize, rfl⟩
  | cons i l ih =>
    obtain ⟨datatypes, byteSize, h⟩ := ih (s.visit i)
    exact ⟨datatypes, byteSize, h⟩

theorem MetadataScan.start_byteSize :
    (MetadataScan.start datatype param).param.byteSize = param.byteSize := by
  obtain ⟨datatypes, h⟩ := start_frame datatype param
  rw [h]

variable {cu datatype param}

/-- Along a finite chain the scan ends after visiting it. -/
theorem metadataScan_of_trail {l : List Datatype}
    (ht : Trail (nextType cu.datatypes) datatype l) :
    ∃ fuel, metadataScan fuel cu datatype param =
      some (l.foldl MetadataScan.visit (.start datatype param)) := by
  unfold metadataScan
  by_cases htype : datatype.type = 0
  · have hl := (Trail.iff_nil (nextType_of_type_eq_zero htype)).mp ht
    simp only [if_pos htype, hl]
    exact ⟨0, rfl⟩
  · simp only [if_neg htype]
    exact ends_metadataBody ht (MetadataScan.start_current datatype param) htype

/-- The scans that end are those along a finite chain, and they end after visiting it. -/
theorem metadataScan_eq_some {fuel : Nat} {s : MetadataScan}
    (h : metadataScan fuel cu datatype param = some s) :
    ∃ l, Trail (nextType cu.datatypes) datatype l ∧
      s = l.foldl MetadataScan.visit (.start datatype param) := by
  unfold metadataScan at h
  by_cases htype : datatype.type = 0
  · rw [if_pos htype] at h
    cases h
    exact ⟨[], .stop (nextType_of_type_eq_zero htype), rfl⟩
  · rw [if_neg htype] at h
    have hcurrent := MetadataScan.start_current datatype param
    obtain ⟨l, ht⟩ := exists_trail_of_ends ⟨fuel, h⟩ (by rwa [hcurrent])
    rw [hcurrent] at ht
    exact ⟨l, ht, Loop.ends_unique ⟨fuel, h⟩ (ends_metadataBody ht hcurrent htype)⟩

/-- Metadata that are found are those along a finite chain, with the size of its last record. -/
theorem trail_of_getDatatypeMetadata {fuel : Nat} {param' : SdbEntry}
    (h : getDatatypeMetadata fuel cu datatype param = some param') :
    ∃ l, Trail (nextType cu.datatypes) datatype l ∧
      param'.byteSize = (l.getLast?.map (·.byteSize)).getD param.byteSize ∧
      param'.isComplex = param.isComplex := by
  obtain ⟨s, hs, rfl⟩ := Option.map_eq_some_iff.mp h
  obtain ⟨l, ht, rfl⟩ := metadataScan_eq_some hs
  refine ⟨l, ht, ?_, ?_⟩
  · rw [← MetadataScan.start_byteSize datatype param]
    exact (foldl_visit l _).2.1
  · obtain ⟨_, _, hvisited⟩ := foldl_visit_frame l (.start datatype param)
    obtain ⟨_, hstart⟩ := MetadataScan.start_frame datatype param
    rw [hvisited, hstart]

/-- The metadata of a record are found exactly when the chain of its types is finite. -/
theorem getDatatypeMetadata_isSome_iff :
    (∃ fuel, (getDatatypeMetadata fuel cu datatype param).isSome) ↔
      ∃ l, Trail (nextType cu.datatypes) datatype l := by
  constructor
  · rintro ⟨fuel, h⟩
    rw [getDatatypeMetadata, Option.isSome_map] at h
    obtain ⟨s, hs⟩ := Option.isSome_iff_exists.mp h
    obtain ⟨l, ht, -⟩ := metadataScan_eq_some hs
    exact ⟨l, ht⟩
  · rintro ⟨l, ht⟩
    obtain ⟨fuel, h⟩ := metadataScan_of_trail ht
    exact ⟨fuel, by rw [getDatatypeMetadata, h]; rfl⟩

end Metadata

/-- Resolution of a record's type: the call ends exactly when the chain of types is finite;
then it has looked up one record for each link, at most as many as the unit has, the names
are those along the chain, behind the name of unspecified parameters for such a record, and
the size is that of the last record. -/
theorem getDatatypeMetadata_meaning (cu : CompileUnit) (datatype : Datatype)
    (param : SdbEntry) :
    ((∃ fuel, (getDatatypeMetadata fuel cu datatype param).isSome) ↔
      ∃ l, Trail (nextType cu.datatypes) datatype l) ∧
    ∀ fuel param', getDatatypeMetadata fuel cu datatype param = some param' →
      ∃ l s, Trail (nextType cu.datatypes) datatype l ∧
        metadataScan fuel cu datatype param = some s ∧
        s.lookups = l.length ∧ s.lookups ≤ cu.datatypes.length ∧
        param'.datatypes = param.datatypes ++
          (if datatype.typeName = .unspecifiedParameters then [.unspecifiedParameters] else []) ++
          l.map (·.typeName) ∧
        param'.byteSize = (l.getLast?.map (·.byteSize)).getD param.byteSize := by
  refine ⟨getDatatypeMetadata_isSome_iff, ?_⟩
  intro fuel param' h
  obtain ⟨s, hs, rfl⟩ := Option.map_eq_some_iff.mp h
  obtain ⟨l, ht, rfl⟩ := metadataScan_eq_some hs
  obtain ⟨hnames, hsize, hcount⟩ := foldl_visit l (.start datatype param)
  have hlookups : (l.foldl MetadataScan.visit (.start datatype param)).lookups = l.length := by
    rw [hcount]
    unfold MetadataScan.start
    split <;> simp
  refine ⟨l, _, ht, hs, hlookups, ?_, ?_, ?_⟩
  · rw [hlookups]
    exact ht.length_le fun x y hxy ↦ mem_of_nextType hxy
  · rw [← MetadataScan.start_datatypes]
    exact hnames
  · rw [← MetadataScan.start_byteSize datatype param]
    exact hsize

end ArgsDebugger
