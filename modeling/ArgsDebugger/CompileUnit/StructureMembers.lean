import ArgsDebugger.CompileUnit.Parameters
import ArgsDebugger.CompileUnit.Payload

/-!
# The members of a structure

Once as `process_cu_tree` (`src/compile_unit.cc:228–408`) records them below a structure or
union, and once as `generate_complex_payload` (`src/compile_unit.cc:172–226`) resolves them for
a parameter that points to one. The walk puts every collected DIE below the structure into its
record, at whatever depth; the payload is assembled from a copy of the parameter that was taken
before its members were resolved.
-/

namespace ArgsDebugger

open Lib Lib.Budget

/-- The members of a structure: its own children with the member tag. -/
def directMembers (t : RoseTree Die) : List Die :=
  (t.children.map RoseTree.label).filter (·.tag == .member)

/-- The position of a datatype's record: the datatypes among the DIEs before it. -/
def datatypeIndex (pre : List (RoseTree Die)) : Nat :=
  (pre.filter fun t ↦ t.label.tag != .subprogram && t.label.tag != .variable).length

/-- Every DIE below the structure that is collected is a member of the structure itself. -/
def NoForeignField (t : RoseTree Die) : Prop :=
  ∀ e ∈ RoseTree.preorderForest 3 t.children,
    e.2.tag.isField = true → e.1 = 3 ∧ e.2.tag = .member

instance (t : RoseTree Die) : Decidable (NoForeignField t) :=
  inferInstanceAs (Decidable (∀ e ∈ RoseTree.preorderForest 3 t.children, _))

section Layout

variable {t : RoseTree Die}

/-- A listed DIE is a direct member. -/
def isDirectMember (e : Nat × Die) : Bool := e.1 == 3 && e.2.tag == .member

theorem isField_of_isDirectMember {e : Nat × Die} (h : isDirectMember e = true) :
    e.2.tag.isField = true := by
  have htag : e.2.tag = .member := by simpa using (Bool.and_eq_true_iff.mp h).2
  rw [htag]
  rfl

theorem directMembers_eq (t : RoseTree Die) :
    directMembers t =
      ((RoseTree.preorderForest 3 t.children).filter isDirectMember).map Prod.snd := by
  rw [directMembers, ← RoseTree.filter_depth_eq 3 t.children, List.filter_map, List.filter_filter]
  congr 2
  funext e
  exact Bool.and_comm ..

theorem fields_descendants_eq (t : RoseTree Die) :
    fields (descendants t) =
      ((RoseTree.preorderForest 3 t.children).filter fun e ↦ e.2.tag.isField).map Prod.snd := by
  rw [fields, descendants, List.filter_map]
  rfl

/-- The direct members are among the collected DIEs, and are all of them exactly when no other
DIE is collected. -/
theorem length_directMembers_iff :
    (directMembers t).length = (fields (descendants t)).length ↔ NoForeignField t := by
  rw [directMembers_eq, fields_descendants_eq, List.length_map, List.length_map]
  constructor
  · intro hlen e he hisField
    have hsub := List.monotone_filter_right (RoseTree.preorderForest 3 t.children)
      fun e ↦ isField_of_isDirectMember (e := e)
    have hmem : e ∈ (RoseTree.preorderForest 3 t.children).filter isDirectMember := by
      rw [hsub.eq_of_length hlen]
      exact List.mem_filter.mpr ⟨he, hisField⟩
    simpa [isDirectMember] using (List.mem_filter.mp hmem).2
  · intro h
    congr 1
    apply List.filter_congr
    intro e he
    apply Bool.eq_iff_iff.mpr
    refine ⟨isField_of_isDirectMember, fun hisField ↦ ?_⟩
    simpa [isDirectMember] using h e he hisField

theorem directMembers_sublist_fields (t : RoseTree Die) :
    (directMembers t).Sublist (fields (descendants t)) := by
  rw [directMembers_eq, fields_descendants_eq]
  apply List.Sublist.map
  exact List.monotone_filter_right _ fun e ↦ isField_of_isDirectMember (e := e)

variable {fresh : Int → DatatypeEntry} {dts : List DatatypeEntry}

/-- Records that were read from all collected DIEs are those of the direct members exactly when
no other DIE is collected. -/
theorem fieldsRead_directMembers_iff (h : FieldsRead fresh (fields (descendants t)) dts) :
    FieldsRead fresh (directMembers t) dts ↔ NoForeignField t := by
  rw [← length_directMembers_iff]
  constructor
  · intro hdirect
    exact hdirect.length_eq.trans h.length_eq.symm
  · intro hlen
    rwa [(directMembers_sublist_fields t).eq_of_length hlen]

end Layout

/-- The record of a structure or union that is not the last DIE of its unit: its members are
its direct members, in order, exactly when no other DIE that is collected lies below it. -/
theorem structure_members_iff (fresh : Int → DatatypeEntry) (getFuncAddr : Text → Word)
    (lowAddr highAddr : Word) (root : RoseTree Die)
    (hdec : Decodes fresh lowAddr highAddr root) :
    ∃ s, processCuTree fresh getFuncAddr root 1 (WalkState.start lowAddr highAddr) = .ok s ∧
      ∀ pre t post, root.children = pre ++ t :: post →
        t.label.tag = .structureType ∨ t.label.tag = .unionType → post ≠ [] →
        ∃ dt, s.compileUnit.datatypes[datatypeIndex pre]? = some dt ∧ dt.IsOf t.label ∧
          (FieldsRead fresh (directMembers t) dt.members ↔ NoForeignField t) := by
  obtain ⟨s, hok, ho⟩ := processCuTree_outlines getFuncAddr hdec
  rw [outline_eq_unitOutline] at ho
  refine ⟨s, hok, ?_⟩
  intro pre t post hkids htag hpost
  have hdatatype : (t.label.tag != .subprogram && t.label.tag != .variable) = true := by
    rcases htag with htag | htag <;> rw [htag] <;> rfl
  have hentry : (datatypeEntries (withLater root.children))[datatypeIndex pre]? =
      some (datatypeEntry t (!post.isEmpty)) := by
    rw [hkids]
    exact getElem?_of_withLater
      (fun u ↦ u.label.tag != .subprogram && u.label.tag != .variable)
      (fun e ↦ datatypeEntry e.1 e.2) hdatatype
  obtain ⟨dt, hdt, hread⟩ := forall₂_getElem? ho.datatypes hentry
  have hlater : (!post.isEmpty) = true := by simpa using hpost
  have hmembers := hread.members
  rw [hlater] at hmembers
  exact ⟨dt, hdt, hread.node.1, fieldsRead_directMembers_iff hmembers⟩

/-- A structure with a nested one that has a member, and a type behind it. -/
def nestedStructure : RoseTree Die :=
  .node ⟨.structureType, 45, []⟩
    [.node ⟨.structureType, 50, []⟩ [.node ⟨.member, 60, []⟩ []], .node ⟨.member, 70, []⟩ []]

/-- The member of the nested structure gets into the record of the outer one. -/
theorem structure_members_foreign_of_nested :
    ¬ ∀ (fresh : Int → DatatypeEntry) (getFuncAddr : Text → Word) (lowAddr highAddr : Word)
      (root : RoseTree Die) (s : WalkState), Decodes fresh lowAddr highAddr root →
        processCuTree fresh getFuncAddr root 1 (WalkState.start lowAddr highAddr) = .ok s →
        ∀ pre t post, root.children = pre ++ t :: post →
          t.label.tag = .structureType ∨ t.label.tag = .unionType → post ≠ [] →
          ∀ dt, s.compileUnit.datatypes[datatypeIndex pre]? = some dt →
            FieldsRead fresh (directMembers t) dt.members := by
  intro h
  let root : RoseTree Die :=
    .node ⟨.compileUnit, 11, []⟩ [nestedStructure, .node ⟨.baseType, 90, []⟩ []]
  have hread := h (fun _ ↦ default) (fun _ ↦ 0) 0 0 root _ (by decide) rfl [] nestedStructure
    _ rfl (.inl rfl) (List.cons_ne_nil _ _) _ rfl
  have hlen : 1 = 2 := hread.length_eq
  omega

/-- A structure with one member, followed by a type. -/
theorem structure_members_iff_sample :
    ∃ s dt, s.compileUnit.datatypes[0]? = some dt ∧
      FieldsRead (fun _ ↦ default) [⟨.member, 60, []⟩] dt.members ∧
      processCuTree (fun _ ↦ default) (fun _ ↦ 0)
        (.node ⟨.compileUnit, 11, []⟩
          [.node ⟨.structureType, 50, []⟩ [.node ⟨.member, 60, []⟩ []],
            .node ⟨.baseType, 90, []⟩ []]) 1 (WalkState.start 0 0) = .ok s := by
  obtain ⟨s, hok, hmembers⟩ := structure_members_iff (fun _ ↦ default) (fun _ ↦ 0) 0 0
    (.node ⟨.compileUnit, 11, []⟩ [.node ⟨.structureType, 50, []⟩ [.node ⟨.member, 60, []⟩ []],
      .node ⟨.baseType, 90, []⟩ []]) (by decide)
  obtain ⟨dt, hdt, -, hiff⟩ := hmembers [] _ _ rfl (.inl rfl) (List.cons_ne_nil _ _)
  exact ⟨s, dt, hdt, hiff.mpr (by decide), hok⟩

section Payload

variable {mem : Memory} {u : Uninitialised} {units : List CompileUnit} {cu : CompileUnit}

/-- Each member of the structure has an entry, in order, with its name and its metadata. -/
def MembersResolved (u : Uninitialised) (cu : CompileUnit) (target : Datatype)
    (members : List SdbEntry) : Prop :=
  List.Forall₂ (fun member entry ↦ entry.name = member.name ∧
    ∃ chain, Trail (nextType cu.datatypes) member.toDatatype chain ∧
      entry = described member.toDatatype chain (newMember u member)) target.members members

/-- What is resolved for a member. -/
theorem resolved_of_payloadMember {fuel : Nat} {value : Text} {member : DatatypeEntry}
    {entry : SdbEntry} (h : payloadMember fuel u cu value member = .ok entry) :
    entry.name = member.name ∧
      ∃ chain, Trail (nextType cu.datatypes) member.toDatatype chain ∧
        entry = described member.toDatatype chain (newMember u member) := by
  obtain ⟨param, hparam, h⟩ := bind_eq_ok.mp h
  obtain ⟨-, -, h⟩ := bind_eq_ok.mp h
  cases h
  have hsome := within_eq_ok.mp hparam
  obtain ⟨chain, ht⟩ := getDatatypeMetadata_isSome_iff.mp ⟨fuel, Option.isSome_of_eq_some hsome⟩
  have hdescribed := described_of_getDatatypeMetadata ht hsome
  refine ⟨?_, chain, ht, hdescribed⟩
  rw [hdescribed]
  obtain ⟨_, _, _, hframe⟩ := described_frame member.toDatatype chain (newMember u member)
  exact congrArg SdbEntry.name hframe

/-- The members that `generate_complex_payload` appends to its parameter are those of the
structure that the scan finds. -/
theorem resolved_of_generateComplexPayload {fuel fuel' : Nat} {dataParam : DatatypeEntry}
    {param param' : SdbParameter} {target : Datatype}
    (hvalue : param.value ≠ "0xfffffffffffffff".toList ∧ param.value ≠ "0x0".toList)
    (hscan : structureScan fuel' cu dataParam.toDatatype = some (some target))
    (h : generateComplexPayload fuel u cu dataParam param = .ok param') :
    ∃ members, param' = { param with members := param.members ++ members } ∧
      MembersResolved u cu target members := by
  rw [generateComplexPayload, if_neg (not_or.mpr hvalue)] at h
  obtain ⟨result, hresult, h⟩ := bind_eq_ok.mp h
  have hsame := Loop.ends_unique ⟨fuel, within_eq_ok.mp hresult⟩ ⟨fuel', hscan⟩
  subst hsame
  obtain ⟨members, hmembers, h⟩ := bind_eq_ok.mp h
  cases h
  refine ⟨members, rfl, ?_⟩
  exact (mapM_eq_ok_iff.mp hmembers).imp fun _ _ ↦ resolved_of_payloadMember

end Payload

/-- In a payload that is built, the entry of a parameter for which the scan finds a structure has
the members of the structure exactly when there are none. -/
theorem payload_members_iff (mem : Memory) (u : Uninitialised) (units : List CompileUnit)
    (cu : CompileUnit) (func : Datatype) (regs : UserRegs) (cuIndex fnIndex : Int)
    {fuel index : Nat} {payload : SdbFunction} {funcParam : DatatypeEntry}
    (hok : generateFunctionPayload fuel mem u units cu func regs cuIndex fnIndex = .ok payload)
    (hparam : func.parameters[index]? = some funcParam) :
    ∃ entry, payload.paramVars[index]? = some entry ∧
      ∀ fuel target, structureScan fuel cu funcParam.toDatatype = some (some target) →
        (MembersResolved u cu target entry.members ↔ target.members = []) := by
  obtain ⟨shown, -, hentry⟩ := (entries_of_generateFunctionPayload hok).2 index funcParam hparam
  refine ⟨⟨shown, []⟩, hentry, ?_⟩
  intro _ target _
  exact List.forall₂_nil_right_iff

/-- The payload of the sample function: its parameter points to a structure with a member. -/
def samplePayload : SdbFunction :=
  ⟨[], [], 0, 0, 1, [⟨⟨0, 0, [], [.pointerType, .structureType], "*".toList, "0x1000".toList,
    "NULL".toList, 0, true⟩, []⟩]⟩

theorem generateFunctionPayload_sample :
    generateFunctionPayload 10 zeroMemory zeroUninitialised [unaryUnit 3] (unaryUnit 3)
      (unaryFunction 3) ⟨0x1000, 0, 0, 0, 0, 0, 0⟩ 0 0 = .ok samplePayload := by
  rfl

/-- The member of the structure that the sample parameter points to is missing in its entry. -/
theorem payload_members_lost :
    ¬ ∀ (mem : Memory) (u : Uninitialised) (units : List CompileUnit) (cu : CompileUnit)
      (func : Datatype) (regs : UserRegs) (cuIndex fnIndex : Int) (fuel index : Nat)
      (payload : SdbFunction) (funcParam : DatatypeEntry) (pre post : List Datatype)
      (target : Datatype) (register : ArgRegister),
      generateFunctionPayload fuel mem u units cu func regs cuIndex fnIndex = .ok payload →
      func.parameters[index]? = some funcParam →
      Trail (nextType cu.datatypes) funcParam.toDatatype (pre ++ target :: post) →
      .pointerType ∈ pre.map (·.typeName) →
      structureScan fuel cu funcParam.toDatatype = some (some target) →
      argRegister (index + 1) = some register →
      0 < (regs.get register).toNat → (regs.get register).toNat < 0x8000000000000000 →
      ∃ entry, payload.paramVars[index]? = some entry ∧
        MembersResolved u cu target entry.members := by
  intro h
  obtain ⟨entry, hentry, hmembers⟩ := h zeroMemory zeroUninitialised [unaryUnit 3] (unaryUnit 3)
    (unaryFunction 3) ⟨0x1000, 0, 0, 0, 0, 0, 0⟩ 0 0 10 0 samplePayload (typedParameter 3)
    [samplePointer] [] sampleMemberStructure .rdi generateFunctionPayload_sample rfl
    (.step rfl (.step rfl (.stop rfl))) (by decide) (by decide) rfl (by decide) (by decide)
  cases hentry
  have hlen : 1 = 0 := hmembers.length_eq
  omega

/-- The entry of the sample parameter has no members, although its structure has one. -/
theorem payload_members_iff_sample :
    ∃ entry, samplePayload.paramVars[0]? = some entry ∧
      ¬ MembersResolved zeroUninitialised (unaryUnit 3) sampleMemberStructure entry.members := by
  obtain ⟨entry, hentry, hiff⟩ := payload_members_iff zeroMemory zeroUninitialised [unaryUnit 3]
    (unaryUnit 3) (unaryFunction 3) ⟨0x1000, 0, 0, 0, 0, 0, 0⟩ 0 0
    generateFunctionPayload_sample (show (unaryFunction 3).parameters[0]? = some _ from rfl)
  refine ⟨entry, hentry, ?_⟩
  rw [hiff 10 sampleMemberStructure (by decide)]
  decide

end ArgsDebugger
