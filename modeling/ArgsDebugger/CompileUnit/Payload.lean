import ArgsDebugger.CompileUnit.Values
import ArgsDebugger.Lib.Pointwise

/-!
# The payload of a function

`generate_function_payload` and `generate_complex_payload`, `src/compile_unit.cc:34–226`. Each
parameter is described by its types and shown by the value of a register; for a parameter with
a structure in its type the text of that value is then parsed again, once for each member.
-/

namespace ArgsDebugger

open Lib Lib.Budget

/-- A parameter before its metadata (`src/compile_unit.cc:61–66`). -/
def newParameter (cuIndex fnIndex : Int) (isComplex : Bool) (funcParam : DatatypeEntry) :
    SdbEntry where
  cuIndex := cuIndex
  fnIndex := fnIndex
  name := funcParam.name
  datatypes := []
  dtName := []
  value := []
  valueAlias := []
  byteSize := 0
  isComplex := isComplex

/-- A parameter with its metadata and its value (`src/compile_unit.cc:61–76`). Nothing writes
`complex_idx`, which stays 0. -/
def parameterEntry (fuel : Nat) (mem : Memory) (u : Uninitialised) (units : List CompileUnit)
    (cu : CompileUnit) (regs : UserRegs) (cuIndex fnIndex : Int) (index : Nat)
    (funcParam : DatatypeEntry) : Except Failure SdbEntry := do
  let param ← withinFuel (getDatatypeMetadata fuel cu funcParam.toDatatype
    (newParameter cuIndex fnIndex (u.isComplex index) funcParam))
  getDatatypeValue fuel mem u units param regs (toInt32 (index + 1)) false false 0

/-- A member of a structure (`src/compile_unit.cc:204–214`). -/
def payloadMember (fuel : Nat) (u : Uninitialised) (cu : CompileUnit) (value : Text)
    (member : DatatypeEntry) : Except Failure SdbEntry := do
  let param ← memberMetadata fuel u cu member
  let _ ← stol value 0
  .ok param

/-- `CompileUnitManager::generate_complex_payload`, `src/compile_unit.cc:172–226`. -/
def generateComplexPayload (fuel : Nat) (u : Uninitialised) (cu : CompileUnit)
    (dataParam : DatatypeEntry) (param : SdbParameter) : Except Failure SdbParameter :=
  if param.value = "0xfffffffffffffff".toList ∨ param.value = "0x0".toList then .ok param
  else do
    match ← withinFuel (structureScan fuel cu dataParam.toDatatype) with
    | none => .ok param
    | some complexParam => do
      let members ← complexParam.members.mapM (payloadMember fuel u cu param.value)
      .ok { param with members := param.members ++ members }

/-- An iteration of the parameter loop (`src/compile_unit.cc:58–84`). The entry is copied before
its members are filled. -/
def payloadEntry (fuel : Nat) (mem : Memory) (u : Uninitialised) (units : List CompileUnit)
    (cu : CompileUnit) (regs : UserRegs) (cuIndex fnIndex : Int)
    (indexed : DatatypeEntry × Nat) : Except Failure SdbParameter := do
  let param ← parameterEntry fuel mem u units cu regs cuIndex fnIndex indexed.2 indexed.1
  if param.isComplex then do
    let _ ← generateComplexPayload fuel u cu indexed.1 ⟨param, []⟩
    .ok ⟨param, []⟩
  else .ok ⟨param, []⟩

/-- `CompileUnitManager::generate_function_payload`, `src/compile_unit.cc:34–101`. -/
def generateFunctionPayload (fuel : Nat) (mem : Memory) (u : Uninitialised)
    (units : List CompileUnit) (cu : CompileUnit) (func : Datatype) (regs : UserRegs)
    (cuIndex fnIndex : Int) : Except Failure SdbFunction := do
  let paramVars ← func.parameters.zipIdx.mapM
    (payloadEntry fuel mem u units cu regs cuIndex fnIndex)
  .ok {
    name := func.name
    filename := cu.filename
    lineNo := toInt32 func.declLine
    address := func.lowPc
    totalParams := toInt32 func.parameters.length
    paramVars := paramVars }

section Parse

variable (mem : Memory)

/-- The text of a value is one that `stol` reads: a number, a pointer that is neither null nor
has its highest bit set, or a null pointer to numbers in a memory whose first word is not
zero. -/
def TextParses (value : Word) (scan : TagScan) : Prop :=
  scan.unspecified = false ∧
    if scan.pointerCount = 0 then scan.datatypeName = .number ∨ scan.datatypeName = .string
    else if value = 0 then
      scan.pointerCount = 1 ∧ scan.datatypeName = .number ∧ mem.peekData 0 ≠ 0
    else value.toNat < 0x8000000000000000

instance (value : Word) (scan : TagScan) : Decidable (TextParses mem value scan) := by
  unfold TextParses
  infer_instance

theorem stol_decimal_toInt (value : Word) : stol (decimal value.toInt) 0 = .ok value.toInt := by
  have hlow := value.le_toInt
  have hhigh := value.toInt_lt
  exact stol_decimal (by simpa using hlow) (by simpa using hhigh)

private theorem parses_of_ok {s : Text} {n : Int} (h : stol s 0 = .ok n) :
    (∃ n, stol s 0 = .ok n) ↔ True := iff_true_intro ⟨n, h⟩

private theorem parses_of_error {s : Text} {e : Failure} (h : stol s 0 = .error e) :
    (∃ n, stol s 0 = .ok n) ↔ False := by
  simp [h]

private theorem stol_plainText_iff (value : Word) (name : DatatypeName) :
    (∃ n, stol (plainText value name) 0 = .ok n) ↔ name = .number ∨ name = .string := by
  cases name with
  | empty =>
    have hunknown : stol (plainText value .empty) 0 = .error .invalidArgument := by rfl
    exact (parses_of_error hunknown).trans (by simp)
  | number => exact (parses_of_ok (stol_decimal_toInt value)).trans (by simp)
  | string => exact (parses_of_ok (stol_decimal_toInt value)).trans (by simp)
  | struct =>
    have hdots : stol (plainText value .struct) 0 = .error .invalidArgument := by rfl
    exact (parses_of_error hdots).trans (by simp)

/-- Which texts of values `stol` reads. -/
theorem stol_valueText_iff (value : Word) (scan : TagScan) :
    (∃ n, stol (valueText mem value scan) 0 = .ok n) ↔ TextParses mem value scan := by
  unfold valueText TextParses
  cases scan.unspecified with
  | true =>
    have hdots : stol "...".toList 0 = .error .invalidArgument := by rfl
    rw [if_pos rfl, parses_of_error hdots]
    simp
  | false =>
    rw [if_neg Bool.false_ne_true]
    by_cases hcount : scan.pointerCount = 0
    · rw [if_pos hcount, if_pos hcount, stol_plainText_iff]
      simp
    · rw [if_neg hcount, if_neg hcount]
      have hpointer := stol_longToHexString value
      by_cases hvalue : value = 0
      · subst hvalue
        rw [if_pos rfl] at hpointer
        by_cases hnull : scan.pointerCount = 1 ∧ scan.datatypeName = .number ∧ mem.peekData 0 ≠ 0
        · have hzero : stol "0x0".toList 0 = .ok 0 := by rfl
          rw [if_pos ⟨hnull.1, hnull.2.1, rfl, hnull.2.2⟩, parses_of_ok hzero, if_pos rfl]
          exact iff_of_true trivial ⟨rfl, hnull⟩
        · rw [if_neg fun h ↦ hnull ⟨h.1, h.2.1, h.2.2.2⟩, parses_of_error hpointer, if_pos rfl]
          exact iff_of_false id fun h ↦ hnull h.2
      · rw [if_neg hvalue] at hpointer
        rw [if_neg fun h ↦ hvalue h.2.2.1, if_neg hvalue]
        by_cases hsign : value.toNat < 0x8000000000000000
        · rw [if_pos hsign] at hpointer
          rw [parses_of_ok hpointer]
          exact iff_of_true trivial ⟨rfl, hsign⟩
        · rw [if_neg hsign] at hpointer
          rw [parses_of_error hpointer]
          exact iff_of_false id fun h ↦ hsign h.2

end Parse

section Payload

variable {mem : Memory} {u : Uninitialised} {units : List CompileUnit} {cu : CompileUnit}
  {regs : UserRegs} {cuIndex fnIndex : Int}

theorem payloadMember_endsIff (hac : Acyclic (nextType cu.datatypes) cu.datatypes) (value : Text)
    (member : DatatypeEntry) :
    EndsIff (fun fuel ↦ payloadMember fuel u cu value member) (∃ n, stol value 0 = .ok n) := by
  refine ((memberMetadata_endsIff u hac member).seq fun _ param _ ↦ ?_).congr
    (Iff.of_eq (true_and _))
  exact ((EndsIff.const (stol value 0)).seq fun _ _ _ ↦ EndsIff.ok param).congr
    (Iff.of_eq (and_true _))

/-- Behind a chain with a structure the complex payload ends, unless the scan finds the
structure, it has members and the text of the value does not parse. -/
theorem generateComplexPayload_endsIff (hdist : (cu.datatypes.map (·.sectionOffset)).Nodup)
    (hac : Acyclic (nextType cu.datatypes) cu.datatypes) {dataParam : DatatypeEntry}
    {pre post : List Datatype} {target : Datatype}
    (ht : Trail (nextType cu.datatypes) dataParam.toDatatype (pre ++ target :: post))
    (htarget : target.typeName = .structureType)
    (hpre : ∀ i ∈ pre, i.typeName ≠ .structureType) (param : SdbParameter) :
    EndsIff (fun fuel ↦ generateComplexPayload fuel u cu dataParam param)
      ((∀ i ∈ (pre ++ [target]).tail, cu.datatypes.head? ≠ some i) → target.members ≠ [] →
        ∃ n, stol param.value 0 = .ok n) := by
  unfold generateComplexPayload
  split
  · next htext =>
    have hparses : ∃ n, stol param.value 0 = .ok n := by
      rcases htext with htext | htext
      · rw [htext]
        exact ⟨0xfffffffffffffff, by rfl⟩
      · rw [htext]
        exact ⟨0, by rfl⟩
    exact (EndsIff.ok param).congr (iff_of_true trivial fun _ _ ↦ hparses)
  · refine ((structureScan_endsIff hdist ht htarget hpre).seq (Q := (∀ i ∈ (pre ++ [target]).tail,
      cu.datatypes.head? ≠ some i) → target.members ≠ [] → ∃ n, stol param.value 0 = .ok n)
      fun fuel result hresult ↦ ?_).congr (Iff.of_eq (true_and _))
    have hscan := eq_of_structureScan hdist ht htarget hpre hresult
    split at hscan
    · next hhead =>
      subst hscan
      obtain ⟨i, hi, hhead⟩ := hhead
      exact (EndsIff.ok param).congr (iff_of_true trivial fun hall ↦ absurd hhead (hall i hi))
    · next hhead =>
      subst hscan
      have hmembers := EndsIff.mapM (l := target.members) fun member _ ↦
        payloadMember_endsIff (u := u) hac param.value member
      refine (hmembers.seq fun _ members _ ↦ EndsIff.ok _).congr ?_
      rw [and_true]
      constructor
      · intro h _ hne
        obtain ⟨member, hmember⟩ := List.exists_mem_of_ne_nil _ hne
        exact h member hmember
      · intro h member hmember
        exact h (fun i hi heq ↦ hhead ⟨i, hi, heq⟩) (List.ne_nil_of_mem hmember)

/-- A chain has one first structure. -/
theorem first_structure_unique {pre post pre' post' : List Datatype} {target target' : Datatype}
    (h : pre ++ target :: post = pre' ++ target' :: post')
    (htarget : target.typeName = .structureType) (hpre : ∀ i ∈ pre, i.typeName ≠ .structureType)
    (htarget' : target'.typeName = .structureType)
    (hpre' : ∀ i ∈ pre', i.typeName ≠ .structureType) : pre = pre' ∧ target = target' := by
  induction pre generalizing pre' with
  | nil =>
    cases pre' with
    | nil => exact ⟨rfl, (List.cons.inj h).1⟩
    | cons i pre' =>
      rw [(List.cons.inj h).1] at htarget
      exact absurd htarget (hpre' i List.mem_cons_self)
  | cons i pre ih =>
    cases pre' with
    | nil =>
      rw [← (List.cons.inj h).1] at htarget'
      exact absurd htarget' (hpre i List.mem_cons_self)
    | cons i' pre' =>
      obtain ⟨rfl, hrest⟩ := List.cons.inj h
      obtain ⟨rfl, htarget⟩ := ih hrest (fun j hj ↦ hpre j (List.mem_cons_of_mem i hj))
        fun j hj ↦ hpre' j (List.mem_cons_of_mem i hj)
      exact ⟨rfl, htarget⟩

/-- The scan over the tags of a described parameter. -/
def tagsOf (param : SdbEntry) : TagScan := scanTags param.dtName param.datatypes .start

/-- A parameter that the payload can be built with: the words that are read for its value end,
and where the scan finds a structure with members the text of the value parses. -/
structure ParameterSafe (mem : Memory) (u : Uninitialised) (cu : CompileUnit) (param : SdbEntry)
    (chain : List Datatype) (value : Word) : Prop where
  reads : ReadsEnd mem u param.byteSize value (tagsOf param)
  parses : (tagsOf param).isComplex = true → ∀ pre target post, chain = pre ++ target :: post →
    target.typeName = .structureType → (∀ i ∈ pre, i.typeName ≠ .structureType) →
    (∀ i ∈ (pre ++ [target]).tail, cu.datatypes.head? ≠ some i) → target.members ≠ [] →
    TextParses mem value (tagsOf param)

/-- The parameter with an index, described by its chain of types. -/
def describedParameter (u : Uninitialised) (cuIndex fnIndex : Int) (index : Nat)
    (funcParam : DatatypeEntry) (chain : List Datatype) : SdbEntry :=
  described funcParam.toDatatype chain
    (newParameter cuIndex fnIndex (u.isComplex index) funcParam)

variable {func : Datatype} {index : Nat} {funcParam : DatatypeEntry} {chain : List Datatype}

theorem vectorAt_natCast {α : Type} {l : List α} {n : Nat} {x : α} (h : l[n]? = some x) :
    vectorAt l n = .ok x := by
  simp only [vectorAt, Int.natCast_nonneg, if_true, Int.toNat_natCast, h]

theorem toInt32_succ (h : index < 6) : toInt32 ((index : Int) + 1) = index + 1 := by
  have hfits : index + 1 < 0x80000000 := by omega
  exact toInt32_of_lt hfits

/-- The value of a parameter is that of the register at its place among the parameters. -/
theorem getDatatypeValue_of_register {place : Int} {register : ArgRegister}
    (hregister : argRegister (toInt32 place) = some register) (fuel : Nat) (param : SdbEntry) :
    getDatatypeValue fuel mem u units param regs place false false 0 =
      datatypeValueToString fuel mem u units param (regs.get register) place := by
  simp only [getDatatypeValue, Bool.false_eq_true, if_false, Int.add_zero, hregister]

/-- Of a parameter without a register the payload has the metadata alone. -/
theorem parameterEntry_of_no_register (hregister : argRegister (toInt32 (index + 1)) = none)
    (fuel : Nat) :
    parameterEntry fuel mem u units cu regs cuIndex fnIndex index funcParam =
      withinFuel (getDatatypeMetadata fuel cu funcParam.toDatatype
        (newParameter cuIndex fnIndex (u.isComplex index) funcParam)) := by
  have hplace : argRegister (toInt32 (toInt32 (index + 1) + 0)) = none := by
    rw [Int.add_zero, toInt32_toInt32, hregister]
  simp only [parameterEntry, getDatatypeValue, Bool.false_eq_true, if_false, hplace]
  exact bind_pure _

/-- A structure among the tags of a described parameter is one of its chain. -/
theorem structureType_mem_chain
    (h : .structureType ∈ (describedParameter u cuIndex fnIndex index funcParam chain).datatypes) :
    .structureType ∈ chain.map (·.typeName) := by
  rw [describedParameter, described_datatypes, List.mem_append, List.mem_append] at h
  rcases h with (h | h) | h
  · cases h
  · split at h
    · simp at h
    · cases h
  · exact h

/-- A parameter in a register is shown when the words that are read for its value end. -/
theorem parameterEntry_endsIff (hdist : (cu.datatypes.map (·.sectionOffset)).Nodup)
    (hac : Acyclic (nextType cu.datatypes) cu.datatypes)
    (hunit : vectorAt units cuIndex = .ok cu) (hfunc : vectorAt cu.functions fnIndex = .ok func)
    (hparam : func.parameters[index]? = some funcParam) (hindex : index < 6)
    (ht : Trail (nextType cu.datatypes) funcParam.toDatatype chain) {register : ArgRegister}
    (hregister : argRegister (index + 1) = some register) :
    EndsIff (fun fuel ↦ parameterEntry fuel mem u units cu regs cuIndex fnIndex index funcParam)
      (ReadsEnd mem u (describedParameter u cuIndex fnIndex index funcParam chain).byteSize
        (regs.get register)
        (tagsOf (describedParameter u cuIndex fnIndex index funcParam chain))) := by
  have hmetadata := (getDatatypeMetadata_endsIff cu funcParam.toDatatype
    (newParameter cuIndex fnIndex (u.isComplex index) funcParam)).congr
    (iff_true_intro ⟨chain, ht⟩)
  refine (hmetadata.seq fun fuel param h ↦ ?_).congr (Iff.of_eq (true_and _))
  have hdescribed : param = describedParameter u cuIndex fnIndex index funcParam chain :=
    described_of_getDatatypeMetadata ht (within_eq_ok.mp h)
  have hint := toInt32_succ hindex
  have hlocated : LocatedAt units param (index + 1) cu funcParam := by
    obtain ⟨_, _, _, hframe⟩ := described_frame funcParam.toDatatype chain
      (newParameter cuIndex fnIndex (u.isComplex index) funcParam)
    rw [← describedParameter, ← hdescribed] at hframe
    have hcu : param.cuIndex = cuIndex := congrArg SdbEntry.cuIndex hframe
    have hfn : param.fnIndex = fnIndex := congrArg SdbEntry.fnIndex hframe
    refine ⟨by rw [hcu]; exact hunit, func, by rw [hfn]; exact hfunc, ?_⟩
    rw [Int.add_sub_cancel]
    exact vectorAt_natCast hparam
  have hregister' : argRegister (toInt32 (index + 1)) = some register := by rwa [hint]
  simp only [hint, getDatatypeValue_of_register hregister']
  rw [hdescribed] at hlocated ⊢
  apply datatypeValueToString_endsIff rfl
  intro _ hname
  have hmem := structureType_mem_of_scanTags (.inr hname)
  simp only [TagScan.start, Bool.false_eq_true, reduceCtorEq, false_or] at hmem
  exact complexValueToString_endsIff hdist hac ⟨hlocated.unit, hlocated.function⟩ ht
    (structureType_mem_chain hmem)

/-- What is shown of a parameter in a register. -/
theorem shownAs_of_parameterEntry (ht : Trail (nextType cu.datatypes) funcParam.toDatatype chain)
    {register : ArgRegister} (hregister : argRegister (toInt32 (index + 1)) = some register)
    {fuel : Nat} {shown : SdbEntry}
    (h : parameterEntry fuel mem u units cu regs cuIndex fnIndex index funcParam = .ok shown) :
    let param := describedParameter u cuIndex fnIndex index funcParam chain
    ShownAs { param with isComplex := (tagsOf param).isComplex }
      (valueText mem (regs.get register) (tagsOf param)) shown := by
  obtain ⟨param, hparam, h⟩ := bind_eq_ok.mp h
  rw [← toInt32_toInt32] at hregister
  rw [described_of_getDatatypeMetadata ht (within_eq_ok.mp hparam),
    getDatatypeValue_of_register hregister] at h
  exact shownAs_of_datatypeValueToString rfl h

/-- An entry of the payload can be built for the safe parameters. -/
theorem payloadEntry_endsIff (hdist : (cu.datatypes.map (·.sectionOffset)).Nodup)
    (hac : Acyclic (nextType cu.datatypes) cu.datatypes)
    (hunit : vectorAt units cuIndex = .ok cu) (hfunc : vectorAt cu.functions fnIndex = .ok func)
    (hparam : func.parameters[index]? = some funcParam) (hindex : index < 6)
    (ht : Trail (nextType cu.datatypes) funcParam.toDatatype chain) {register : ArgRegister}
    (hregister : argRegister (index + 1) = some register) :
    EndsIff (fun fuel ↦ payloadEntry fuel mem u units cu regs cuIndex fnIndex (funcParam, index))
      (ParameterSafe mem u cu (describedParameter u cuIndex fnIndex index funcParam chain) chain
        (regs.get register)) := by
  set param := describedParameter u cuIndex fnIndex index funcParam chain with hdescribed
  have hentry : EndsIff
      (fun fuel ↦ parameterEntry fuel mem u units cu regs cuIndex fnIndex index funcParam)
      (ReadsEnd mem u param.byteSize (regs.get register) (tagsOf param)) :=
    parameterEntry_endsIff hdist hac hunit hfunc hparam hindex ht hregister
  refine (hentry.seq (Q := (tagsOf param).isComplex = true → ∀ pre target post,
    chain = pre ++ target :: post → target.typeName = .structureType →
    (∀ i ∈ pre, i.typeName ≠ .structureType) →
    (∀ i ∈ (pre ++ [target]).tail, cu.datatypes.head? ≠ some i) → target.members ≠ [] →
    TextParses mem (regs.get register) (tagsOf param)) fun fuel shown hshown ↦ ?_).congr
    ⟨fun h ↦ ⟨h.1, h.2⟩, fun h ↦ ⟨h.reads, h.parses⟩⟩
  rw [← toInt32_succ hindex] at hregister
  obtain ⟨valueAlias, rfl⟩ := shownAs_of_parameterEntry ht hregister hshown
  rw [← hdescribed]
  by_cases hcomplex : (tagsOf param).isComplex = true
  · simp only [if_pos hcomplex]
    have hmem : .structureType ∈ param.datatypes := by
      simpa [TagScan.start] using structureType_mem_of_scanTags (.inl hcomplex)
    obtain ⟨pre, target, post, rfl, htarget, hpre⟩ :=
      exists_first_structure (structureType_mem_chain hmem)
    refine ((generateComplexPayload_endsIff hdist hac ht htarget hpre _).seq
      fun _ _ _ ↦ EndsIff.ok _).congr ?_
    rw [and_true, stol_valueText_iff]
    constructor
    · intro h _ pre' target' post' hchain htarget' hpre'
      obtain ⟨rfl, rfl⟩ := first_structure_unique hchain htarget hpre htarget' hpre'
      exact h
    · intro h
      exact h hcomplex pre target post rfl htarget hpre
  · simp only [if_neg hcomplex]
    exact (EndsIff.ok _).congr (iff_of_true trivial fun h ↦ absurd h hcomplex)

theorem payloadEntry_eq_ok {fuel : Nat} {entry : SdbParameter}
    (h : payloadEntry fuel mem u units cu regs cuIndex fnIndex (funcParam, index) = .ok entry) :
    ∃ shown, parameterEntry fuel mem u units cu regs cuIndex fnIndex index funcParam = .ok shown ∧
      entry = ⟨shown, []⟩ := by
  obtain ⟨shown, hshown, h⟩ := bind_eq_ok.mp h
  refine ⟨shown, hshown, ?_⟩
  split at h
  · obtain ⟨-, -, h⟩ := bind_eq_ok.mp h
    cases h
    rfl
  · cases h
    rfl

/-- The entries of a payload are those of the parameters, in their order. -/
theorem entries_of_generateFunctionPayload {fuel : Nat} {payload : SdbFunction}
    (h : generateFunctionPayload fuel mem u units cu func regs cuIndex fnIndex = .ok payload) :
    payload.paramVars.length = func.parameters.length ∧
      ∀ (index : Nat) funcParam, func.parameters[index]? = some funcParam →
        ∃ shown, parameterEntry fuel mem u units cu regs cuIndex fnIndex index funcParam =
          .ok shown ∧ payload.paramVars[index]? = some ⟨shown, []⟩ := by
  obtain ⟨paramVars, hvars, h⟩ := bind_eq_ok.mp h
  cases h
  have hentries := mapM_eq_ok_iff.mp hvars
  refine ⟨?_, ?_⟩
  · rw [← hentries.length_eq, List.length_zipIdx]
  · intro index funcParam hparam
    have hindexed : func.parameters.zipIdx[index]? = some (funcParam, index) := by
      rw [List.getElem?_zipIdx, hparam, Option.map_some, Nat.zero_add]
    obtain ⟨entry, hvar, hentry⟩ := forall₂_getElem? hentries hindexed
    obtain ⟨shown, hshown, rfl⟩ := payloadEntry_eq_ok hentry
    exact ⟨shown, hshown, hvar⟩

theorem exists_argRegister (h : index < 6) :
    ∃ register, argRegister (index + 1) = some register := by
  have hcases : index = 0 ∨ index = 1 ∨ index = 2 ∨ index = 3 ∨ index = 4 ∨ index = 5 := by omega
  rcases hcases with rfl | rfl | rfl | rfl | rfl | rfl
  · exact ⟨.rdi, rfl⟩
  · exact ⟨.rsi, rfl⟩
  · exact ⟨.rdx, rfl⟩
  · exact ⟨.rcx, rfl⟩
  · exact ⟨.r8, rfl⟩
  · exact ⟨.r9, rfl⟩

theorem parameterEntry_name (hac : Acyclic (nextType cu.datatypes) cu.datatypes)
    (hindex : index < 6) {fuel : Nat} {shown : SdbEntry}
    (h : parameterEntry fuel mem u units cu regs cuIndex fnIndex index funcParam = .ok shown) :
    shown.name = funcParam.name := by
  obtain ⟨chain, ht⟩ := hac.exists_trail (fun _ _ ↦ mem_of_nextType) funcParam.toDatatype
  obtain ⟨register, hregister⟩ := exists_argRegister hindex
  rw [← toInt32_succ hindex] at hregister
  obtain ⟨valueAlias, rfl⟩ := shownAs_of_parameterEntry ht hregister h
  obtain ⟨_, _, _, hframe⟩ := described_frame funcParam.toDatatype chain
    (newParameter cuIndex fnIndex (u.isComplex index) funcParam)
  exact congrArg SdbEntry.name hframe

/-- The parameters of a function are safe, each with its register. -/
def ParametersSafe (mem : Memory) (u : Uninitialised) (cu : CompileUnit) (func : Datatype)
    (regs : UserRegs) (cuIndex fnIndex : Int) : Prop :=
  ∀ (index : Nat) funcParam chain register, func.parameters[index]? = some funcParam →
    Trail (nextType cu.datatypes) funcParam.toDatatype chain →
    argRegister (index + 1) = some register →
    ParameterSafe mem u cu (describedParameter u cuIndex fnIndex index funcParam chain) chain
      (regs.get register)

/-- A payload can be built for a function with safe parameters. -/
theorem generateFunctionPayload_endsIff (hdist : (cu.datatypes.map (·.sectionOffset)).Nodup)
    (hac : Acyclic (nextType cu.datatypes) cu.datatypes)
    (hunit : vectorAt units cuIndex = .ok cu) (hfunc : vectorAt cu.functions fnIndex = .ok func)
    (hlen : func.parameters.length ≤ 6) :
    EndsIff (fun fuel ↦ generateFunctionPayload fuel mem u units cu func regs cuIndex fnIndex)
      (ParametersSafe mem u cu func regs cuIndex fnIndex) := by
  have hentries := EndsIff.mapM (l := func.parameters.zipIdx)
    (f := fun fuel ↦ payloadEntry fuel mem u units cu regs cuIndex fnIndex)
    (P := fun indexed ↦ ∀ chain register, Trail (nextType cu.datatypes) indexed.1.toDatatype chain →
      argRegister (indexed.2 + 1) = some register →
      ParameterSafe mem u cu (describedParameter u cuIndex fnIndex indexed.2 indexed.1 chain) chain
        (regs.get register)) ?_
  · refine (hentries.seq fun _ _ _ ↦ EndsIff.ok _).congr ?_
    rw [and_true]
    constructor
    · intro h index funcParam chain register hparam
      exact h (funcParam, index) (List.mk_mem_zipIdx_iff_getElem?.mpr hparam) chain register
    · rintro h ⟨funcParam, index⟩ hmem chain register
      exact h index funcParam chain register (List.mk_mem_zipIdx_iff_getElem?.mp hmem)
  · rintro ⟨funcParam, index⟩ hmem
    have hparam := List.mk_mem_zipIdx_iff_getElem?.mp hmem
    have hindex : index < 6 := by
      have hlt := (List.getElem?_eq_some_iff.mp hparam).1
      omega
    obtain ⟨chain, ht⟩ := hac.exists_trail (fun _ _ ↦ mem_of_nextType) funcParam.toDatatype
    obtain ⟨register, hregister⟩ := exists_argRegister hindex
    apply (payloadEntry_endsIff hdist hac hunit hfunc hparam hindex ht hregister).congr
    constructor
    · intro hsafe chain' register' ht' hregister'
      rw [hregister] at hregister'
      cases hregister'
      rw [ht'.unique ht]
      exact hsafe
    · intro h
      exact h chain register ht hregister

end Payload

/-- Building a payload: for a function of a unit with distinct offsets and acyclic links that
has at most six parameters, a payload is returned exactly when every parameter is safe, and
it then has one entry for each parameter, in order. -/
theorem generateFunctionPayload_returns_iff (mem : Memory) (u : Uninitialised)
    (units : List CompileUnit) (cu : CompileUnit) (func : Datatype) (regs : UserRegs)
    (cuIndex fnIndex : Int) (hunit : vectorAt units cuIndex = .ok cu)
    (hfunc : vectorAt cu.functions fnIndex = .ok func)
    (hdist : (cu.datatypes.map (·.sectionOffset)).Nodup)
    (hac : Acyclic (nextType cu.datatypes) cu.datatypes) (hlen : func.parameters.length ≤ 6) :
    (∃ fuel payload,
      generateFunctionPayload fuel mem u units cu func regs cuIndex fnIndex = .ok payload ∧
        payload.paramVars.map (·.name) = func.parameters.map (·.name)) ↔
      ParametersSafe mem u cu func regs cuIndex fnIndex := by
  rw [← (generateFunctionPayload_endsIff hdist hac hunit hfunc hlen).ends]
  refine exists_congr fun fuel ↦ exists_congr fun payload ↦ and_iff_left_of_imp fun h ↦ ?_
  obtain ⟨hlength, hentries⟩ := entries_of_generateFunctionPayload h
  apply List.ext_getElem?
  intro index
  rw [List.getElem?_map, List.getElem?_map]
  cases hparam : func.parameters[index]? with
  | none =>
    have hnone : payload.paramVars[index]? = none := by
      rw [List.getElem?_eq_none_iff] at hparam ⊢
      rwa [hlength]
    rw [hnone]
    rfl
  | some funcParam =>
    obtain ⟨shown, hshown, hvar⟩ := hentries index funcParam hparam
    have hindex : index < 6 := by
      have hlt := (List.getElem?_eq_some_iff.mp hparam).1
      omega
    rw [hvar, Option.map_some, Option.map_some, ← parameterEntry_name hac hindex hshown]

/-- A structure at section offset 2 with one member. -/
def sampleMemberStructure : Datatype :=
  ⟨{ (default : DatatypeEntry) with sectionOffset := 2, typeName := .structureType },
    [{ (default : DatatypeEntry) with typeName := .member }], []⟩

/-- A parameter with a type. -/
def typedParameter (type : Int) : DatatypeEntry :=
  { (default : DatatypeEntry) with typeName := .formalParameter, type := type }

/-- A function with one parameter of the type. -/
def unaryFunction (type : Int) : Datatype :=
  ⟨{ (default : DatatypeEntry) with typeName := .subprogram }, [], [typedParameter type]⟩

/-- A unit with the function, the structure and a pointer to it. -/
def unaryUnit (type : Int) : CompileUnit :=
  { unitOf [samplePointer, sampleMemberStructure] with functions := [unaryFunction type] }

/-- A memory of zeros. -/
def zeroMemory : Memory := ⟨fun _ ↦ 0, fun _ ↦ true⟩

/-- The debugger's memory, should it hold zeros. -/
def zeroUninitialised : Uninitialised :=
  ⟨fun _ ↦ 0, fun _ ↦ 0, fun _ ↦ false, ⟨0, 0, [], [], [], [], [], 0, false⟩⟩

theorem acyclic_unaryUnit (type : Int) :
    Acyclic (nextType (unaryUnit type).datatypes) (unaryUnit type).datatypes := by
  apply Acyclic.of_trails
  intro x hx
  have hstructure : Trail (nextType (unaryUnit type).datatypes) sampleMemberStructure [] :=
    .stop rfl
  have hcases : x = samplePointer ∨ x = sampleMemberStructure := by
    simpa [unaryUnit, unitOf] using hx
  rcases hcases with rfl | rfl
  · exact ⟨_, .step rfl hstructure⟩
  · exact ⟨_, hstructure⟩

/-- No payload is built for a function whose parameter is a structure with a member, passed
by value. -/
theorem generateFunctionPayload_fails :
    ¬ ∀ (mem : Memory) (u : Uninitialised) (units : List CompileUnit) (cu : CompileUnit)
      (func : Datatype) (regs : UserRegs) (cuIndex fnIndex : Int),
      vectorAt units cuIndex = .ok cu → vectorAt cu.functions fnIndex = .ok func →
      (cu.datatypes.map (·.sectionOffset)).Nodup →
      Acyclic (nextType cu.datatypes) cu.datatypes → func.parameters.length ≤ 6 →
      ∃ fuel payload,
        generateFunctionPayload fuel mem u units cu func regs cuIndex fnIndex = .ok payload ∧
          payload.paramVars.map (·.name) = func.parameters.map (·.name) := by
  intro h
  have hdist : ((unaryUnit 2).datatypes.map (·.sectionOffset)).Nodup := by decide
  obtain ⟨fuel, payload, hok, -⟩ := h zeroMemory zeroUninitialised [unaryUnit 2] _ _
    ⟨0, 0, 0, 0, 0, 0, 0⟩ 0 0 rfl rfl hdist (acyclic_unaryUnit 2) (by decide)
  have hsafe := (generateFunctionPayload_endsIff hdist (acyclic_unaryUnit 2) rfl rfl
    (by decide)).ends.mp ⟨fuel, payload, hok⟩ 0 (typedParameter 2) [sampleMemberStructure] .rdi
    rfl (.step rfl (.stop rfl)) rfl
  have hparses := hsafe.parses (by decide) [] sampleMemberStructure [] rfl rfl (by simp) (by simp)
    (by decide)
  revert hparses
  decide

/-- The payload of a function with a pointer to the structure is built, from a pointer that
`stol` reads. -/
theorem generateFunctionPayload_returns_iff_sample :
    ∃ fuel payload, generateFunctionPayload fuel zeroMemory zeroUninitialised [unaryUnit 3]
      (unaryUnit 3) (unaryFunction 3) ⟨0x1000, 0, 0, 0, 0, 0, 0⟩ 0 0 = .ok payload ∧
        payload.paramVars.map (·.name) = (unaryFunction 3).parameters.map (·.name) := by
  refine (generateFunctionPayload_returns_iff _ _ _ _ _ _ _ _ rfl rfl (by decide)
    (acyclic_unaryUnit 3) (by decide)).mpr ?_
  intro index funcParam chain register hparam ht hregister
  have htrail : Trail (nextType (unaryUnit 3).datatypes) (typedParameter 3).toDatatype
      [samplePointer, sampleMemberStructure] := .step rfl (.step rfl (.stop rfl))
  cases index with
  | zero =>
    cases hparam
    cases hregister
    rw [ht.unique htrail]
    refine ⟨fun _ _ _ hpeek ↦ absurd rfl hpeek, ?_⟩
    intro _ _ _ _ _ _ _ _ _
    decide
  | succ index => cases hparam

end ArgsDebugger
