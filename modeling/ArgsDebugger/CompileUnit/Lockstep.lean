import ArgsDebugger.CompileUnit.Payload

/-!
# Two units in lockstep

The walks over the types and the rendering of a parameter compare the section offsets, tags,
names and types of the records they meet, and nothing else of them. So on two units whose
records agree on these four fields they take the same steps; of what they write, only the size
of a parameter and `is_complex` can differ.
-/

namespace ArgsDebugger

open Lib Lib.Budget

/-- Two records with the four fields in common. -/
structure Twin (dt dt' : DatatypeEntry) : Prop where
  sectionOffset : dt.sectionOffset = dt'.sectionOffset
  typeName : dt.typeName = dt'.typeName
  name : dt.name = dt'.name
  type : dt.type = dt'.type

/-- Two types in common, member by member. -/
structure TwinType (x x' : Datatype) : Prop where
  entry : Twin x.toDatatypeEntry x'.toDatatypeEntry
  members : List.Forall₂ Twin x.members x'.members

/-- Two units in common, type by type and parameter by parameter. -/
structure TwinUnit (cu cu' : CompileUnit) : Prop where
  datatypes : List.Forall₂ TwinType cu.datatypes cu'.datatypes
  functions : List.Forall₂ (fun func func' ↦ List.Forall₂ Twin func.parameters func'.parameters)
    cu.functions cu'.functions

/-- The second parameter is the first but for its size and `is_complex`. -/
def SameText (param param' : SdbEntry) : Prop :=
  ∃ size flag, param' = { param with byteSize := size, isComplex := flag }

/-- The debugger's memory with other contents where `is_complex` is declared. -/
def Uninitialised.withFlags (u : Uninitialised) (flags : Nat → Bool) : Uninitialised :=
  { u with isComplex := flags }

section Metadata

variable {datatypes datatypes' : List Datatype} {cu cu' : CompileUnit}
  {datatype datatype' : Datatype} {param param' : SdbEntry} {s s' : MetadataScan}

/-- Two states of the loop over the types. -/
structure TwinScan (s s' : MetadataScan) : Prop where
  dt : s.dt = s'.dt
  param : SameText s.param s'.param
  current : Twin s.current.toDatatypeEntry s'.current.toDatatypeEntry

theorem Twin.prependType (h : Twin datatype.toDatatypeEntry datatype'.toDatatypeEntry)
    (dt : Text) (names : List DwTag) :
    prependType dt names datatype = prependType dt names datatype' := by
  simp only [ArgsDebugger.prependType, h.typeName, h.name, h.type]

theorem TwinScan.visit (h : TwinScan s s')
    (hx : Twin datatype.toDatatypeEntry datatype'.toDatatypeEntry) :
    TwinScan (s.visit datatype) (s'.visit datatype') := by
  obtain ⟨size, flag, hparam⟩ := h.param
  refine ⟨?_, ⟨datatype'.byteSize, flag, ?_⟩, hx⟩
  · simp only [MetadataScan.visit, h.dt, hparam, hx.prependType]
  · simp only [MetadataScan.visit, hparam, hx.typeName]

theorem TwinScan.start (hx : Twin datatype.toDatatypeEntry datatype'.toDatatypeEntry)
    (hparam : SameText param param') :
    TwinScan (.start datatype param) (.start datatype' param') := by
  obtain ⟨size, flag, rfl⟩ := hparam
  unfold MetadataScan.start
  rw [hx.typeName]
  split
  · exact ⟨rfl, ⟨size, flag, rfl⟩, hx⟩
  · exact ⟨rfl, ⟨size, flag, rfl⟩, hx⟩

theorem twinScan_metadataBody (hall : List.Forall₂ TwinType datatypes datatypes')
    (h : TwinScan s s') :
    Sum.LiftRel TwinScan TwinScan (metadataBody datatypes s) (metadataBody datatypes' s') := by
  have hfound := forall₂_find? (p := fun i ↦ i.sectionOffset = s.current.type)
    (q := fun i ↦ i.sectionOffset = s'.current.type) hall fun x x' hx ↦ by
      rw [hx.entry.sectionOffset, h.current.type]
  unfold metadataBody
  generalize (datatypes.find? fun i ↦ i.sectionOffset = s.current.type) = found at hfound ⊢
  generalize (datatypes'.find? fun i ↦ i.sectionOffset = s'.current.type) = found' at hfound ⊢
  cases hfound with
  | none => exact .inl h
  | some hx =>
    have hvisit := h.visit hx.entry
    simp only [hx.entry.type]
    split
    · exact .inl hvisit
    · exact .inr hvisit

/-- The metadata of two records end on the same budgets, and differ in the size at most. -/
theorem sameText_getDatatypeMetadata (hcu : TwinUnit cu cu')
    (hx : Twin datatype.toDatatypeEntry datatype'.toDatatypeEntry)
    (hparam : SameText param param') (fuel : Nat) :
    Option.Rel SameText (getDatatypeMetadata fuel cu datatype param)
      (getDatatypeMetadata fuel cu' datatype' param') := by
  have hstart := TwinScan.start hx hparam
  have hscan : Option.Rel TwinScan (metadataScan fuel cu datatype param)
      (metadataScan fuel cu' datatype' param') := by
    unfold metadataScan
    rw [hx.type]
    split
    · exact .some hstart
    · exact Loop.run_rel (fun _ _ ↦ twinScan_metadataBody hcu.datatypes) hstart fuel
  apply optionRel_map hscan
  intro s s' h
  obtain ⟨size, flag, hsame⟩ := h.param
  exact ⟨size, flag, by rw [hsame, h.dt]⟩

end Metadata

section Structure

variable {datatypes datatypes' : List Datatype} {cu cu' : CompileUnit}
  {datatype datatype' : Datatype}

/-- Two places of the scan for a structure. -/
structure TwinPlace (s s' : Datatype × Nat) : Prop where
  temp : Twin s.1.toDatatypeEntry s'.1.toDatatypeEntry
  index : s.2 = s'.2

theorem twinPlace_structureBody (hall : List.Forall₂ TwinType datatypes datatypes')
    {s s' : Datatype × Nat} (hs : TwinPlace s s') :
    Sum.LiftRel (Option.Rel TwinType) TwinPlace (structureBody datatypes s)
      (structureBody datatypes' s') := by
  obtain ⟨temp, index⟩ := s
  obtain ⟨temp', index'⟩ := s'
  obtain ⟨htemp, rfl⟩ := hs
  have hfound := forall₂_getElem?_rel hall index
  unfold structureBody
  dsimp only at htemp ⊢
  generalize datatypes[index]? = found at hfound ⊢
  generalize datatypes'[index]? = found' at hfound ⊢
  cases hfound with
  | none => exact .inl .none
  | some hx =>
    simp only [hx.entry.sectionOffset, hx.entry.typeName, htemp.type]
    split
    · split
      · exact .inl (.some hx)
      · exact .inr ⟨hx.entry, rfl⟩
    · exact .inr ⟨htemp, rfl⟩

/-- The scans for a structure end on the same budgets, with the same structure if any. -/
theorem twin_structureScan (hcu : TwinUnit cu cu')
    (hx : Twin datatype.toDatatypeEntry datatype'.toDatatypeEntry) (fuel : Nat) :
    Option.Rel (Option.Rel TwinType) (structureScan fuel cu datatype)
      (structureScan fuel cu' datatype') := by
  have hstart : TwinPlace (datatype, 0) (datatype', 0) := ⟨hx, rfl⟩
  exact Loop.run_rel (fun _ _ ↦ twinPlace_structureBody hcu.datatypes) hstart fuel

end Structure

section Value

variable {cu cu' : CompileUnit} {units units' : List CompileUnit} {u : Uninitialised}
  {flags flags' : Nat → Bool} {fuel : Nat} {mem : Memory} {param : SdbEntry}

/-- The metadata of two members raise the same. -/
theorem agree_memberMetadata (hcu : TwinUnit cu cu') {member member' : DatatypeEntry}
    (hmember : Twin member member') :
    Agree SameText (memberMetadata fuel (u.withFlags flags) cu member)
      (memberMetadata fuel (u.withFlags flags') cu' member') := by
  apply agree_within
  apply sameText_getDatatypeMetadata hcu hmember
  refine ⟨u.member.byteSize, u.member.isComplex, ?_⟩
  rw [newMember, newMember, hmember.name]
  rfl

theorem agree_vectorAt {α β : Type} {R : α → β → Prop} {l : List α} {m : List β}
    (h : List.Forall₂ R l m) (index : Int) : Agree R (vectorAt l index) (vectorAt m index) := by
  have hfound := forall₂_getElem?_rel h index.toNat
  unfold vectorAt
  generalize l[index.toNat]? = found at hfound ⊢
  generalize m[index.toNat]? = found' at hfound ⊢
  split
  · cases hfound with
    | none => exact .error _
    | some hR => exact .ok hR
  · exact .error _

/-- What is printed of a structure raises the same. -/
theorem complexValueToString_twin (hunits : List.Forall₂ TwinUnit units units')
    (datatypeIdx : Int) :
    complexValueToString fuel (u.withFlags flags) units param datatypeIdx =
      complexValueToString fuel (u.withFlags flags') units' param datatypeIdx := by
  unfold complexValueToString
  split
  · rfl
  · apply Agree.eq
    apply (agree_vectorAt hunits param.cuIndex).bind
    intro cu cu' hcu
    apply (agree_vectorAt hcu.functions param.fnIndex).bind
    intro fn fn' hfn
    apply (agree_vectorAt hfn (datatypeIdx - 1)).bind
    intro dt dt' hdt
    apply (agree_within (twin_structureScan hcu hdt fuel)).bind
    intro found found' hfound
    cases hfound with
    | none => exact .ok rfl
    | some hx =>
      refine (Agree.mapM (S := SameText) (hx.members.imp fun _ _ hmember ↦ ?_)).bind
        fun _ _ _ ↦ .ok rfl
      exact agree_memberMetadata hcu hmember

/-- The value of a parameter is rendered the same, whatever `is_complex` held. -/
theorem datatypeValueToString_twin (hunits : List.Forall₂ TwinUnit units units') (value : Word)
    (datatypeIdx : Int) (flag : Bool) :
    datatypeValueToString fuel mem (u.withFlags flags) units param value datatypeIdx =
      datatypeValueToString fuel mem (u.withFlags flags') units'
        { param with isComplex := flag } value datatypeIdx := by
  have hplain (param : SdbEntry) (name : DatatypeName) :
      plainValueToString fuel mem (u.withFlags flags) units param value datatypeIdx name =
        plainValueToString fuel mem (u.withFlags flags') units' param value datatypeIdx name := by
    cases name with
    | struct =>
      have hcomplex : complexValueToString fuel (u.withFlags flags) units
            { param with value := "...".toList } datatypeIdx =
          complexValueToString fuel (u.withFlags flags') units'
            { param with value := "...".toList } datatypeIdx :=
        complexValueToString_twin hunits datatypeIdx
      rw [plainValueToString, plainValueToString, hcomplex]
    | _ => rfl
  simp only [datatypeValueToString, hplain]
  rfl

/-- The complex payloads of two parameters raise the same. -/
theorem agree_generateComplexPayload (hcu : TwinUnit cu cu') {dataParam dataParam' : DatatypeEntry}
    (hparam : Twin dataParam dataParam') (shown : SdbParameter) :
    Agree (fun _ _ ↦ True) (generateComplexPayload fuel (u.withFlags flags) cu dataParam shown)
      (generateComplexPayload fuel (u.withFlags flags') cu' dataParam' shown) := by
  unfold generateComplexPayload
  split
  · exact .ok trivial
  · apply (agree_within (twin_structureScan hcu hparam fuel)).bind
    intro found found' hfound
    cases hfound with
    | none => exact .ok trivial
    | some hx =>
      refine (Agree.mapM (S := fun _ _ ↦ True) (hx.members.imp fun _ _ hmember ↦ ?_)).bind
        fun _ _ _ ↦ .ok trivial
      apply (agree_memberMetadata hcu hmember).bind
      intro _ _ _
      exact (Agree.refl (stol shown.value 0)).bind fun _ _ _ ↦ .ok trivial

end Value

section Payload

variable {cu cu' : CompileUnit} {units units' : List CompileUnit} {u : Uninitialised}
  {flags flags' : Nat → Bool} {fuel : Nat} {mem : Memory} {regs : UserRegs}
  {cuIndex fnIndex : Int} {index : Nat} {funcParam funcParam' : DatatypeEntry}

/-- Where the metadata of a parameter end in two runs, they have one size, and the parameter is in
a register. -/
def MetadataAgree (cu cu' : CompileUnit) (cuIndex fnIndex : Int) (index : Nat)
    (flag flag' : Bool) (fuel : Nat) (funcParam funcParam' : DatatypeEntry) : Prop :=
  ∀ param param',
    getDatatypeMetadata fuel cu funcParam.toDatatype
      (newParameter cuIndex fnIndex flag funcParam) = some param →
    getDatatypeMetadata fuel cu' funcParam'.toDatatype
      (newParameter cuIndex fnIndex flag' funcParam') = some param' →
    param.byteSize = param'.byteSize ∧ (argRegister (toInt32 (index + 1))).isSome

/-- The metadata of two parameters end on the same budgets, and differ in the size at most. -/
theorem sameText_parameter (hcu : TwinUnit cu cu') (hparam : Twin funcParam funcParam')
    (fuel : Nat) (cuIndex fnIndex : Int) (flag flag' : Bool) :
    Option.Rel SameText
      (getDatatypeMetadata fuel cu funcParam.toDatatype
        (newParameter cuIndex fnIndex flag funcParam))
      (getDatatypeMetadata fuel cu' funcParam'.toDatatype
        (newParameter cuIndex fnIndex flag' funcParam')) := by
  apply sameText_getDatatypeMetadata hcu hparam
  refine ⟨0, flag', ?_⟩
  rw [newParameter, newParameter, hparam.name]

/-- A parameter that is rendered is the same in two runs if its metadata, where they end, have
one size and its place has a register. -/
theorem parameterEntry_twin (hunits : List.Forall₂ TwinUnit units units') (hcu : TwinUnit cu cu')
    (hparam : Twin funcParam funcParam')
    (hmetadata : MetadataAgree cu cu' cuIndex fnIndex index (flags index) (flags' index) fuel
      funcParam funcParam') :
    parameterEntry fuel mem (u.withFlags flags) units cu regs cuIndex fnIndex index funcParam =
      parameterEntry fuel mem (u.withFlags flags') units' cu' regs cuIndex fnIndex index
        funcParam' := by
  have hsame := sameText_parameter hcu hparam fuel cuIndex fnIndex (flags index) (flags' index)
  have hflags (flags : Nat → Bool) : (u.withFlags flags).isComplex = flags := rfl
  unfold parameterEntry
  unfold MetadataAgree at hmetadata
  simp only [hflags]
  generalize getDatatypeMetadata fuel cu funcParam.toDatatype _ = result at hsame hmetadata ⊢
  generalize getDatatypeMetadata fuel cu' funcParam'.toDatatype _ = result' at hsame hmetadata ⊢
  cases hsame with
  | none => rfl
  | @some param param' htext =>
    obtain ⟨hsize, hregister⟩ := hmetadata param param' rfl rfl
    obtain ⟨register, hregister⟩ := Option.isSome_iff_exists.mp hregister
    obtain ⟨size, flag, rfl⟩ := htext
    rw [← toInt32_toInt32] at hregister
    subst hsize
    simp only [withinFuel, within, ok_bind]
    rw [getDatatypeValue_of_register hregister, getDatatypeValue_of_register hregister]
    exact datatypeValueToString_twin hunits (regs.get register) (toInt32 (index + 1)) flag

/-- The same holds of an entry of the payload. -/
theorem payloadEntry_twin (hunits : List.Forall₂ TwinUnit units units') (hcu : TwinUnit cu cu')
    (hparam : Twin funcParam funcParam')
    (hmetadata : MetadataAgree cu cu' cuIndex fnIndex index (flags index) (flags' index) fuel
      funcParam funcParam') :
    payloadEntry fuel mem (u.withFlags flags) units cu regs cuIndex fnIndex (funcParam, index) =
      payloadEntry fuel mem (u.withFlags flags') units' cu' regs cuIndex fnIndex
        (funcParam', index) := by
  unfold payloadEntry
  dsimp only
  rw [parameterEntry_twin hunits hcu hparam hmetadata]
  apply Agree.eq
  apply (Agree.refl _).bind
  rintro param _ rfl
  split
  · exact (agree_generateComplexPayload hcu hparam ⟨param, []⟩).bind fun _ _ _ ↦ .ok rfl
  · exact .ok rfl

end Payload

end ArgsDebugger
