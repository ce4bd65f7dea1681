import ArgsDebugger.CompileUnit.Walk

/-!
# The indices of the types that records refer to

`CompileUnitManager::set_datatype`, `src/compile_unit.cc:638–652`, over a whole walk. A record
keeps the index of the type it refers to among the types that were recorded before it. The vector
of types only grows, so that the index stays that of the same type to the end of the walk.
-/

namespace ArgsDebugger

open Lib

/-- The offsets of recorded types. -/
def offsetsOf (datatypes : List Datatype) : List Int := datatypes.map (·.sectionOffset)

/-- The offsets of the types of a unit. -/
def CompileUnit.offsets (cu : CompileUnit) : List Int := offsetsOf cu.datatypes

/-- A record that refers to a type keeps the index of the first of the offsets that is the
type's, or 0 where none is. -/
def DatatypeEntry.LinkedIn (i : DatatypeEntry) (offsets : List Int) : Prop :=
  0 < i.type →
    i.datatypeIndex = ((offsets.findIdx? (· = i.type)).map fun idx : Nat ↦ toInt32 idx).getD 0

/-- The same for some of the offsets, from the first one on. -/
def DatatypeEntry.LinkedAt (i : DatatypeEntry) (offsets : List Int) : Prop :=
  ∃ front, front <+: offsets ∧ i.LinkedIn front

/-- The records of a unit, with those that were saved to them. -/
def CompileUnit.records (cu : CompileUnit) : List DatatypeEntry :=
  (cu.functions ++ cu.globalVariables ++ cu.datatypes).flatMap fun dt ↦
    dt.toDatatypeEntry :: (dt.parameters ++ dt.members)

theorem offsetsOf_concat (datatypes : List Datatype) (dt : Datatype) :
    offsetsOf (datatypes ++ [dt]) = offsetsOf datatypes ++ [dt.sectionOffset] := List.map_append

section Reading

variable {fresh : Int → DatatypeEntry} {getFuncAddr : Text → Word} {datatypes : List Datatype}
  {node : Die} {i : DatatypeEntry}

theorem linkDatatype_linkedIn (datatypes : List Datatype) (i : DatatypeEntry) :
    (linkDatatype datatypes i).LinkedIn (offsetsOf datatypes) := by
  have hsearch : (offsetsOf datatypes).findIdx? (· = i.type) =
      datatypes.findIdx? fun dt ↦ dt.sectionOffset = i.type := List.findIdx?_map ..
  by_cases htype : 0 < i.type
  · rw [linkDatatype, if_pos htype, setDatatype]
    cases hidx : datatypes.findIdx? fun dt ↦ dt.sectionOffset = i.type with
    | none =>
      intro _
      simp only [hsearch, hidx, Option.map_none, Option.getD_none]
    | some idx =>
      intro _
      simp only [hsearch, hidx, Option.map_some, Option.getD_some]
  · rw [linkDatatype, if_neg htype]
    exact fun h ↦ absurd h htype

theorem readDatatype_linkedIn (h : readDatatype fresh datatypes node = .ok i) :
    i.LinkedIn (offsetsOf datatypes) := by
  obtain ⟨i', -, rfl⟩ := map_eq_ok.mp h
  exact linkDatatype_linkedIn datatypes i'

theorem readGlobalVariable_linkedIn (h : readGlobalVariable fresh datatypes node = .ok i) :
    i.LinkedIn (offsetsOf datatypes) := by
  obtain ⟨i', -, rfl⟩ := map_eq_ok.mp h
  exact linkDatatype_linkedIn datatypes i'

/-- What follows the attributes of a function leaves its link alone. -/
theorem readFunction_linkedIn (h : readFunction fresh getFuncAddr datatypes node = .ok i) :
    i.LinkedIn (offsetsOf datatypes) := by
  obtain ⟨i', -, rfl⟩ := map_eq_ok.mp h
  have hlink := linkDatatype_linkedIn datatypes i'
  unfold closeFunction
  dsimp only
  split
  · exact hlink
  · exact hlink

end Reading

section Saving

variable {s s' : WalkState}

theorem modifyLast_eq_ok {α : Type} {f : α → α} {l l' : List α} (h : modifyLast f l = .ok l') :
    ∃ front a, l = front ++ [a] ∧ l' = front ++ [f a] := by
  unfold modifyLast at h
  split at h
  · next a ha =>
    obtain ⟨front, rfl⟩ := List.getLast?_eq_some_iff.mp ha
    cases h
    exact ⟨front, a, rfl, by rw [List.dropLast_concat]⟩
  · cases h

/-- Saving goes to the last function, to the last type, or nowhere. -/
theorem saveMembers_cases (h : saveMembers s = .ok s') :
    (∃ front func, s.compileUnit.functions = front ++ [func] ∧ s' = ⟨{ s.compileUnit with
      functions := front ++ [func.saveFields s.members] }, [], .none⟩) ∨
    (s.prevTag = .datatype ∧ ∃ front dt, s.compileUnit.datatypes = front ++ [dt] ∧
      s' = ⟨{ s.compileUnit with
        datatypes := front ++ [{ dt with members := s.members }] }, [], .none⟩) ∨
    s' = ⟨s.compileUnit, [], .none⟩ := by
  cases hp : s.prevTag with
  | functions =>
    simp only [saveMembers, hp] at h
    obtain ⟨functions, hfunctions, h⟩ := bind_eq_ok.mp h
    cases h
    obtain ⟨front, func, hlast, rfl⟩ := modifyLast_eq_ok hfunctions
    exact .inl ⟨front, func, hlast, rfl⟩
  | datatype =>
    simp only [saveMembers, hp] at h
    obtain ⟨datatypes, hdatatypes, h⟩ := bind_eq_ok.mp h
    cases h
    obtain ⟨front, dt, hlast, rfl⟩ := modifyLast_eq_ok hdatatypes
    exact .inr (.inl ⟨rfl, front, dt, hlast, rfl⟩)
  | none =>
    simp only [saveMembers, hp] at h
    cases h
    exact .inr (.inr rfl)

end Saving

section Links

variable {fresh : Int → DatatypeEntry} {getFuncAddr : Text → Word} {offsets offsets' : List Int}
  {i : DatatypeEntry}

theorem DatatypeEntry.LinkedAt.mono (h : i.LinkedAt offsets) (hpre : offsets <+: offsets') :
    i.LinkedAt offsets' := by
  obtain ⟨front, hfront, hlink⟩ := h
  exact ⟨front, hfront.trans hpre, hlink⟩

theorem DatatypeEntry.LinkedIn.linkedAt (h : i.LinkedIn offsets) : i.LinkedAt offsets :=
  ⟨offsets, List.prefix_rfl, h⟩

/-- The record and those that were saved to it are linked. -/
def Datatype.Linked (dt : Datatype) (offsets : List Int) : Prop :=
  ∀ i ∈ dt.toDatatypeEntry :: (dt.parameters ++ dt.members), i.LinkedAt offsets

/-- A type is linked among the types before it, and its members among these and the type. -/
def Datatype.LinkedBehind (dt : Datatype) (front : List Int) : Prop :=
  dt.LinkedIn front ∧ dt.parameters = [] ∧
    ∀ i ∈ dt.members, i.LinkedIn (front ++ [dt.sectionOffset])

/-- Every record of the walk is linked among the types that were recorded before it. -/
structure Links (s : WalkState) : Prop where
  functions : ∀ func ∈ s.compileUnit.functions, func.Linked s.compileUnit.offsets
  globalVariables : ∀ v ∈ s.compileUnit.globalVariables, v.Linked s.compileUnit.offsets
  datatypes : ∀ front dt, front ++ [dt] <+: s.compileUnit.datatypes →
    dt.LinkedBehind (offsetsOf front)
  members : ∀ i ∈ s.members, i.LinkedAt s.compileUnit.offsets
  pending : s.prevTag = .datatype → ∀ i ∈ s.members, i.LinkedIn s.compileUnit.offsets

variable {s s' : WalkState} {depth : Nat} {node : Die}

theorem Datatype.Linked.mono {dt : Datatype} (h : dt.Linked offsets) (hpre : offsets <+: offsets') :
    dt.Linked offsets' := fun i hi ↦ (h i hi).mono hpre

/-- Nothing is pending behind a save. -/
theorem links_of_saved {cu : CompileUnit}
    (hfunctions : ∀ func ∈ cu.functions, func.Linked cu.offsets)
    (hglobals : ∀ v ∈ cu.globalVariables, v.Linked cu.offsets)
    (hdatatypes : ∀ front dt, front ++ [dt] <+: cu.datatypes →
      dt.LinkedBehind (offsetsOf front)) : Links ⟨cu, [], .none⟩ :=
  ⟨hfunctions, hglobals, hdatatypes, by simp, by simp⟩

/-- What a function gets when the pending members are saved to it. -/
theorem Datatype.Linked.saveFields {func : Datatype} (h : func.Linked offsets)
    {members : List DatatypeEntry} (hmembers : ∀ i ∈ members, i.LinkedAt offsets) :
    (func.saveFields members).Linked offsets := by
  intro i hi
  simp only [Datatype.saveFields, List.mem_cons, List.mem_append, List.mem_filter] at hi
  rcases hi with rfl | (hi | hi) | hi | hi
  · exact h _ List.mem_cons_self
  · exact h i (by simp [hi])
  · exact hmembers i hi.1
  · exact h i (by simp [hi])
  · exact hmembers i hi.1

/-- Saving the pending members keeps the links. -/
theorem Links.save (h : Links s) (hs : saveMembers s = .ok s') : Links s' := by
  rcases saveMembers_cases hs with ⟨front, func, hlast, rfl⟩ | ⟨hp, front, dt, hlast, rfl⟩ | rfl
  · refine links_of_saved ?_ h.globalVariables h.datatypes
    have hold : ∀ f ∈ front ++ [func], f.Linked s.compileUnit.offsets := hlast ▸ h.functions
    intro f hf
    rcases List.mem_append.mp hf with hf | hf
    · exact hold f (List.mem_append_left _ hf)
    · rw [List.mem_singleton.mp hf]
      exact (hold func (List.mem_append_right _ List.mem_cons_self)).saveFields h.members
  · have hlinked := h.datatypes
    have hpending := h.pending hp
    rw [hlast] at hlinked
    -- only members have changed, so that the offsets are the same
    have hoffsets : offsetsOf (front ++ [{ dt with members := s.members }]) =
        s.compileUnit.offsets := by
      rw [CompileUnit.offsets, hlast, offsetsOf_concat, offsetsOf_concat]
    rw [CompileUnit.offsets, hlast, offsetsOf_concat] at hpending
    refine links_of_saved ?_ ?_ ?_
    · exact (hoffsets ▸ h.functions :)
    · exact (hoffsets ▸ h.globalVariables :)
    · intro front' dt' hpre
      rcases List.prefix_concat_iff.mp hpre with heq | hpre
      · obtain ⟨rfl, hlast'⟩ := List.append_inj' heq rfl
        rw [(List.cons.inj hlast').1]
        obtain ⟨hdt, hparameters, -⟩ := hlinked _ dt List.prefix_rfl
        exact ⟨hdt, hparameters, hpending⟩
      · exact hlinked front' dt' (hpre.trans (List.prefix_append ..))
  · exact links_of_saved h.functions h.globalVariables h.datatypes

theorem Links.flush (h : Links s) (hs : flushMembers s = .ok s') :
    Links s' ∧ s'.members = [] := by
  unfold flushMembers at hs
  split at hs
  · refine ⟨h.save hs, ?_⟩
    rcases saveMembers_cases hs with ⟨_, _, -, rfl⟩ | ⟨-, _, _, -, rfl⟩ | rfl <;> rfl
  · next hnil =>
    cases hs
    exact ⟨h, not_not.mp hnil⟩

/-- A record without saved ones is linked when it is. -/
theorem linked_of_linkedIn (h : i.LinkedIn offsets) : Datatype.Linked ⟨i, [], []⟩ offsets := by
  intro j hj
  rw [List.mem_singleton.mp hj]
  exact h.linkedAt

/-- Recording a DIE of depth 2 keeps the links. -/
theorem Links.record (h : Links s) (hnil : s.members = [])
    (hs : recordNode fresh getFuncAddr node s = .ok s') : Links s' := by
  have hmembers : ∀ i ∈ s.members, i.LinkedAt s.compileUnit.offsets := h.members
  rw [hnil] at hmembers
  rcases recordNode_cases hs with ⟨-, func, hfunc, rfl⟩ | ⟨-, v, hv, rfl⟩ | ⟨-, dt, hdt, rfl⟩
  · refine ⟨?_, h.globalVariables, h.datatypes, h.members, by simp⟩
    intro f hf
    rcases List.mem_append.mp hf with hf | hf
    · exact h.functions f hf
    · rw [List.mem_singleton.mp hf]
      exact linked_of_linkedIn (readFunction_linkedIn hfunc)
  · refine ⟨h.functions, ?_, h.datatypes, h.members, by simp⟩
    intro v' hv'
    rcases List.mem_append.mp hv' with hv' | hv'
    · exact h.globalVariables v' hv'
    · rw [List.mem_singleton.mp hv']
      exact linked_of_linkedIn (readGlobalVariable_linkedIn hv)
  · -- the vector of types grows behind its end
    have hgrows : s.compileUnit.offsets <+:
        offsetsOf (s.compileUnit.datatypes ++ [⟨dt, [], []⟩]) := by
      rw [offsetsOf_concat]
      exact List.prefix_append ..
    refine ⟨fun f hf ↦ (h.functions f hf).mono hgrows,
      fun v hv ↦ (h.globalVariables v hv).mono hgrows, ?_, ?_, ?_⟩
    · intro front dt' hpre
      rcases List.prefix_concat_iff.mp hpre with heq | hpre
      · obtain ⟨rfl, hlast⟩ := List.append_inj' heq rfl
        rw [(List.cons.inj hlast).1]
        exact ⟨readDatatype_linkedIn hdt, rfl, fun i hi ↦ absurd hi List.not_mem_nil⟩
      · exact h.datatypes front dt' hpre
    · exact fun i hi ↦ (h.members i hi).mono hgrows
    · intro _ i hi
      rw [show s.members = [] from hnil] at hi
      exact absurd hi List.not_mem_nil

/-- Collecting a DIE below depth 2 keeps the links. -/
theorem Links.collect (h : Links s) (hs : collectNode fresh node s = .ok s') : Links s' := by
  rcases collectNode_cases hs with ⟨-, i, hi, rfl⟩ | ⟨-, hs | rfl⟩
  · have hlink : i.LinkedIn s.compileUnit.offsets := readDatatype_linkedIn hi
    refine ⟨h.functions, h.globalVariables, h.datatypes, ?_, ?_⟩
    · intro j hj
      rcases List.mem_append.mp hj with hj | hj
      · exact h.members j hj
      · rw [List.mem_singleton.mp hj]
        exact hlink.linkedAt
    · intro hp j hj
      rcases List.mem_append.mp hj with hj | hj
      · exact h.pending hp j hj
      · rw [List.mem_singleton.mp hj]
        exact hlink
  · exact h.save hs
  · exact h

/-- The links of a unit whose vectors are empty. -/
theorem links_of_empty {cu : CompileUnit} (hfunctions : cu.functions = [])
    (hglobals : cu.globalVariables = []) (hdatatypes : cu.datatypes = []) {prevTag : PrevTag} :
    Links ⟨cu, [], prevTag⟩ := by
  refine ⟨?_, ?_, ?_, by simp, by simp⟩
  · rw [hfunctions]
    exact fun f hf ↦ absurd hf List.not_mem_nil
  · rw [hglobals]
    exact fun v hv ↦ absurd hv List.not_mem_nil
  · intro front dt hpre
    rw [hdatatypes, List.prefix_nil] at hpre
    exact absurd hpre (by simp)

/-- The attributes of the unit leave its vectors empty. -/
theorem links_of_startUnit {lowAddr highAddr : Word}
    (hs : startUnit node (WalkState.start lowAddr highAddr) = .ok s) : Links s := by
  unfold startUnit at hs
  split at hs
  · obtain ⟨cu, hcu, hs⟩ := bind_eq_ok.mp hs
    cases hs
    obtain ⟨hfunctions, hglobals, hdatatypes⟩ : cu.functions = [] ∧ cu.globalVariables = [] ∧
        cu.datatypes = [] := by
      refine Die.decode_invariant
        (fun cu ↦ cu.functions = [] ∧ cu.globalVariables = [] ∧ cu.datatypes = []) ?_
        ⟨rfl, rfl, rfl⟩ hcu
      intro first second r r' hr hset
      obtain ⟨hf, hg, hd⟩ := setNewCu_vectors hset
      exact ⟨hf.trans hr.1, hg.trans hr.2.1, hd.trans hr.2.2⟩
    exact links_of_empty hfunctions hglobals hdatatypes
  · cases hs
    exact links_of_empty rfl rfl rfl

/-- Every node of the walk below the root keeps the links. -/
theorem Links.step (h : Links s) (hdepth : 2 ≤ depth)
    (hs : processNode fresh getFuncAddr depth node s = .ok s') : Links s' := by
  cases visit_of_processNode hs with
  | unit hs => omega
  | record hflush hs =>
    obtain ⟨hlinks, hnil⟩ := h.flush hflush
    exact hlinks.record hnil hs
  | collect _ hs => exact h.collect hs
  | outside => omega

variable {root : RoseTree Die} {lowAddr highAddr : Word}

/-- The links hold at the end of every walk that returns. -/
theorem links_of_processCuTree
    (h : processCuTree fresh getFuncAddr root 1 (WalkState.start lowAddr highAddr) = .ok s) :
    Links s := by
  rw [processCuTree, RoseTree.walk_eq_foldlM, RoseTree.preorder_eq_cons] at h
  obtain ⟨s₁, hroot, hbelow⟩ := foldlM_cons_eq_ok h
  have hstart : Links s₁ := by
    cases visit_of_processNode hroot with
    | unit hs => exact links_of_startUnit hs
    | collect hdepth => omega
  refine foldlM_invariant Links ?_ hstart hbelow
  intro e he s t hs ht
  exact hs.step (RoseTree.le_depth_of_mem_preorderForest he) ht

/-- A linked record that refers to a type has 0 as its index, or that of the first type at the
offset. -/
theorem DatatypeEntry.LinkedAt.resolves {cu : CompileUnit} (h : i.LinkedAt cu.offsets)
    (htype : 0 < i.type) (hfits : cu.datatypes.length ≤ 0x80000000) (hindex : i.datatypeIndex ≠ 0) :
    ∃ idx dt, i.datatypeIndex = (idx : Nat) ∧ cu.datatypes[idx]? = some dt ∧
      dt.sectionOffset = i.type ∧
      ∀ j dt', j < idx → cu.datatypes[j]? = some dt' → dt'.sectionOffset ≠ i.type := by
  obtain ⟨front, ⟨back, hfront⟩, hlink⟩ := h
  have hsearch := hlink htype
  cases hidx : front.findIdx? (· = i.type) with
  | none =>
    rw [hidx] at hsearch
    exact absurd hsearch hindex
  | some idx =>
    rw [hidx, Option.map_some, Option.getD_some] at hsearch
    obtain ⟨hlt, hfound, hfirst⟩ := List.findIdx?_eq_some_iff_getElem.mp hidx
    have hlength : front.length + back.length = cu.datatypes.length := by
      rw [← List.length_append, hfront, CompileUnit.offsets, offsetsOf, List.length_map]
    have hoffset (j : Nat) (hj : j < front.length) (dt : Datatype)
        (hdt : cu.datatypes[j]? = some dt) : front[j] = dt.sectionOffset := by
      have hget : (front ++ back)[j]? = some dt.sectionOffset := by
        rw [hfront, CompileUnit.offsets, offsetsOf, List.getElem?_map, hdt]
        rfl
      rw [List.getElem?_append_left hj, List.getElem?_eq_getElem hj] at hget
      exact Option.some.inj hget
    have hdt := List.getElem?_eq_getElem (show idx < cu.datatypes.length by omega)
    refine ⟨idx, _, ?_, hdt, ?_, ?_⟩
    · rw [hsearch, toInt32_of_lt (by omega)]
    · rw [← hoffset idx hlt _ hdt]
      exact of_decide_eq_true hfound
    · intro j dt' hj hdt'
      rw [← hoffset j (by omega) dt' hdt']
      exact fun heq ↦ hfirst j hj (decide_eq_true heq)

/-- No index of a type dangles, and none goes to a later type. In the unit that a walk returns,
every record that refers to a type has the index 0 or, where the types can be counted in an
`int`, that of the first type at the offset; the index of a type is looked up among the types
before it, and that of a member saved to it among these and the type itself. -/
theorem processCuTree_links
    (h : processCuTree fresh getFuncAddr root 1 (WalkState.start lowAddr highAddr) = .ok s) :
    (∀ i ∈ s.compileUnit.records, i.LinkedAt s.compileUnit.offsets ∧
      (0 < i.type → s.compileUnit.datatypes.length ≤ 0x80000000 → i.datatypeIndex ≠ 0 →
        ∃ idx dt, i.datatypeIndex = (idx : Nat) ∧ s.compileUnit.datatypes[idx]? = some dt ∧
          dt.sectionOffset = i.type ∧ ∀ j dt', j < idx →
            s.compileUnit.datatypes[j]? = some dt' → dt'.sectionOffset ≠ i.type)) ∧
      ∀ front dt back, s.compileUnit.datatypes = front ++ dt :: back →
        dt.LinkedIn (offsetsOf front) ∧
          ∀ i ∈ dt.members, i.LinkedIn (offsetsOf (front ++ [dt])) := by
  have hlinks := links_of_processCuTree h
  have hbehind : ∀ front dt back, s.compileUnit.datatypes = front ++ dt :: back →
      dt.LinkedBehind (offsetsOf front) := by
    intro front dt back hsplit
    refine hlinks.datatypes front dt ⟨back, ?_⟩
    rw [hsplit, List.append_assoc]
    rfl
  constructor
  · intro i hi
    obtain ⟨dt, hdt, hi⟩ := List.mem_flatMap.mp hi
    have hlinked : i.LinkedAt s.compileUnit.offsets := by
      rcases List.mem_append.mp hdt with hdt | hdt
      · rcases List.mem_append.mp hdt with hdt | hdt
        · exact hlinks.functions dt hdt i hi
        · exact hlinks.globalVariables dt hdt i hi
      · obtain ⟨front, back, hsplit⟩ := List.append_of_mem hdt
        obtain ⟨hown, hparameters, hmembers⟩ := hbehind front dt back hsplit
        have hpre : offsetsOf front ++ [dt.sectionOffset] <+: s.compileUnit.offsets := by
          rw [← offsetsOf_concat, CompileUnit.offsets, hsplit, List.append_cons front dt back]
          exact (List.prefix_append ..).map _
        rw [hparameters, List.nil_append] at hi
        rcases List.mem_cons.mp hi with rfl | hi
        · exact hown.linkedAt.mono ((List.prefix_append ..).trans hpre)
        · exact (hmembers i hi).linkedAt.mono hpre
    exact ⟨hlinked, hlinked.resolves⟩
  · intro front dt back hsplit
    obtain ⟨hown, -, hmembers⟩ := hbehind front dt back hsplit
    rw [offsetsOf_concat]
    exact ⟨hown, hmembers⟩

/-- A base type, a pointer to it, and one to a type that comes later. -/
def linkedUnit : RoseTree Die :=
  .node ⟨.compileUnit, 11, []⟩
    [.node ⟨.baseType, 0x2d, [(.name, "int".toList)]⟩ [],
      .node ⟨.pointerType, 0x34, [(.type, "<0x2d>".toList)]⟩ [],
      .node ⟨.pointerType, 0x3a, [(.type, "<0x40>".toList)]⟩ [],
      .node ⟨.pointerType, 0x40, [(.type, "<0x34>".toList)]⟩ []]

/-- The indices of the types of the unit. The pointer to a type behind it has 0. -/
theorem processCuTree_links_sample : ∃ s, processCuTree (fun _ ↦ default) (fun _ ↦ 0) linkedUnit 1
    (WalkState.start 0 0) = .ok s ∧ s.compileUnit.datatypes.map (·.datatypeIndex) = [0, 0, 0, 1] ∧
      ∀ i ∈ s.compileUnit.records, i.LinkedAt s.compileUnit.offsets := by
  have hwalk : ((processCuTree (fun _ ↦ default) (fun _ ↦ 0) linkedUnit 1
      (WalkState.start 0 0)).map fun s ↦ s.compileUnit.datatypes.map (·.datatypeIndex)).toOption =
        some [0, 0, 0, 1] := by decide +kernel
  cases hs : processCuTree (fun _ ↦ default) (fun _ ↦ 0) linkedUnit 1 (WalkState.start 0 0) with
  | error e =>
    rw [hs] at hwalk
    cases hwalk
  | ok s =>
    rw [hs] at hwalk
    exact ⟨s, rfl, Option.some.inj hwalk, fun i hi ↦ ((processCuTree_links hs).1 i hi).1⟩

end Links

end ArgsDebugger
