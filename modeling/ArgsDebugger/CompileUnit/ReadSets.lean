import ArgsDebugger.CompileUnit.Payload

/-!
# The words behind a payload

Which words of the debuggee `generate_function_payload` asks for, at most: that behind each
parameter with a pointer in its type, and what the readers of `src/parameter_extractor.cc` come
to behind it. A payload is the same on all memories that agree on these words.
-/

namespace ArgsDebugger

open Lib Lib.Budget

/-- The second memory reads as the first at the addresses. -/
def Memory.AgreeOn (mem mem' : Memory) (reads : Set Word) : Prop :=
  ∀ a ∈ reads, mem'.peekData a = mem.peekData a

theorem Memory.AgreeOn.mono {mem mem' : Memory} {reads reads' : Set Word}
    (h : mem.AgreeOn mem' reads) (hsub : reads' ⊆ reads) : mem.AgreeOn mem' reads' :=
  fun a ha ↦ h a (hsub ha)

section Extractor

variable (mem : Memory) (u : Uninitialised)

/-- The addresses that `get_number_data` reads. -/
def numberReads (byteSize : Int) (addr : Word) : Set Word :=
  {a | ∃ index ∈ Loop.indices (fun index ↦ endsNumbers (numberWord mem addr byteSize index))
    nextInt 0, a = numberAddress addr byteSize index}

/-- The addresses that `get_char_data` reads. -/
def charReads (addr : Word) : Set Word :=
  {a | ∃ index ∈ Loop.indices
    (fun index ↦ endsChars (u.beyond addr) (mem.peekData (addressAt addr index)))
    nextInt (u.charIndex addr), a = addressAt addr index}

/-- The addresses that `get_address_data` reads. -/
def addressReads (addr : Word) : Set Word :=
  {a | ∃ index ∈ Loop.indices (fun index ↦ endsAddresses (mem.peekData (addressAt addr index)))
    nextInt 0, a = addressAt addr index}

/-- The addresses that are read for an array of pointers, with those behind each of them. -/
def multiReads (inner : Word → Set Word) (addr : Word) : Set Word :=
  addressReads mem addr ∪ {a | ∃ pointer ∈ addressReads mem addr, a ∈ inner (mem.peekData pointer)}

/-- The addresses behind a pointer that are read for it. -/
def pointeeReads (byteSize : Int) (value : Word) : Nat → DatatypeName → Set Word
  | 1, .number => numberReads mem byteSize value
  | 1, .string => charReads mem u value
  | 2, .number => multiReads mem (numberReads mem byteSize) value
  | 2, .string => multiReads mem (charReads mem u) value
  | _, _ => ∅

/-- The addresses that are read for a value; there are none for a value without a pointer in its
type, and one for a pointer to something unknown. -/
def valueReads (byteSize : Int) (value : Word) (scan : TagScan) : Set Word :=
  {a | scan.unspecified = false ∧ scan.pointerCount ≠ 0 ∧ value ≠ allOnes ∧
    (a = value ∨ mem.peekData value ≠ 0 ∧
      a ∈ pointeeReads mem u byteSize value scan.pointerCount scan.datatypeName)}

variable {mem u} {mem' : Memory} {fuel : Nat} {param : SdbEntry} {value addr : Word}

theorem getNumberData_congr {byteSize : Int}
    (h : mem.AgreeOn mem' (numberReads mem byteSize addr)) :
    getNumberData fuel mem' addr byteSize = getNumberData fuel mem addr byteSize := by
  unfold getNumberData
  congr 2
  apply Loop.run_collect_congr
  intro index hindex
  have hword : numberWord mem' addr byteSize index = numberWord mem addr byteSize index :=
    h _ ⟨index, hindex, rfl⟩
  rw [hword]
  exact ⟨rfl, rfl⟩

theorem getCharData_congr (h : mem.AgreeOn mem' (charReads mem u addr)) :
    getCharData fuel mem' (u.charIndex addr) (u.beyond addr) addr =
      getCharData fuel mem (u.charIndex addr) (u.beyond addr) addr := by
  unfold getCharData
  congr 1
  apply Loop.run_congr_indices Prod.fst
    (fun index ↦ endsChars (u.beyond addr) (mem.peekData (addressAt addr index))) nextInt
  · intro s s' hb
    have hstop : ¬ endsChars (u.beyond addr) (mem.peekData (addressAt addr s.1)) = true := by
      intro hends
      obtain ⟨result, hleft⟩ := (endsChars_iff mem (u.beyond addr) addr s).mp hends
      rw [hleft] at hb
      cases hb
    refine ⟨by simpa using hstop, ?_⟩
    simp only [charBody] at hb
    split at hb
    · cases hb
    · split at hb
      · cases hb
      · cases hb
        rfl
  · intro s hs
    have hword : mem'.peekData (addressAt addr s.1) = mem.peekData (addressAt addr s.1) :=
      h _ ⟨s.1, hs, rfl⟩
    rw [charBody, charBody, hword]

theorem getAddressData_congr (h : mem.AgreeOn mem' (addressReads mem addr)) :
    getAddressData fuel mem' addr = getAddressData fuel mem addr := by
  unfold getAddressData
  congr 1
  apply Loop.run_collect_congr
  intro index hindex
  rw [h _ ⟨index, hindex, rfl⟩]
  exact ⟨rfl, rfl⟩

/-- The addresses that `get_address_data` returns are among those it reads. -/
theorem mem_addressReads {addrs : List Word} (h : getAddressData fuel mem addr = .ok addrs) :
    ∀ pointer ∈ addrs, pointer ∈ addressReads mem addr := by
  obtain ⟨k, -, hbefore, rfl⟩ := (exists_getAddressData_iff mem).mp ⟨fuel, h⟩
  intro pointer hmem
  obtain ⟨j, hj, rfl⟩ := List.mem_map.mp hmem
  have hlt := List.mem_range.mp hj
  exact ⟨_, ⟨j, rfl, fun i hi ↦ hbefore i (by omega)⟩, rfl⟩

theorem getMultiValue_congr {read read' : Word → Except Failure Text} {inner : Word → Set Word}
    (h : mem.AgreeOn mem' (multiReads mem inner value))
    (hread : ∀ addr, mem.AgreeOn mem' (inner addr) → read' addr = read addr) :
    getMultiValue fuel mem' read' param value = getMultiValue fuel mem read param value := by
  have haddrs := h.mono (Set.subset_union_left (s := addressReads mem value))
  unfold getMultiValue
  rw [getAddressData_congr haddrs]
  apply bind_congr_ok
  intro addrs hdata
  congr 1
  apply mapM_congr
  intro pointer hpointer
  have hmem := mem_addressReads hdata pointer hpointer
  rw [haddrs pointer hmem, hread _ fun a ha ↦ h a (.inr ⟨pointer, hmem, ha⟩)]

theorem pointeeToString_congr {count : Nat} {name : DatatypeName}
    (h : mem.AgreeOn mem' (pointeeReads mem u param.byteSize value count name)) :
    pointeeToString fuel mem' u param value count name =
      pointeeToString fuel mem u param value count name := by
  unfold pointeeToString
  split
  · rw [getNumberValue, getNumberValue, getNumberData_congr h]
  · rw [getStringValue, getStringValue, getCharData_congr h]
  · exact getMultiValue_congr h fun _ ↦ getNumberData_congr
  · exact getMultiValue_congr h fun _ ↦ getCharData_congr
  · rfl

theorem pointerValueToString_congr {scan : TagScan}
    (h : value ≠ allOnes → mem'.peekData value = mem.peekData value ∧
      (mem.peekData value ≠ 0 → mem.AgreeOn mem'
        (pointeeReads mem u param.byteSize value scan.pointerCount scan.datatypeName))) :
    pointerValueToString fuel mem' u param value scan =
      pointerValueToString fuel mem u param value scan := by
  simp only [pointerValueToString, longToHexString_eq_allOnes_iff]
  split
  · rfl
  · next hvalue =>
    obtain ⟨hword, hpointee⟩ := h hvalue
    rw [hword]
    split
    · rfl
    · split
      · rfl
      · next hpeek => exact pointeeToString_congr (hpointee hpeek)

/-- A plain value is read from its register. -/
theorem plainValueToString_congr {units : List CompileUnit} {datatypeIdx : Int}
    (name : DatatypeName) : plainValueToString fuel mem' u units param value datatypeIdx name =
      plainValueToString fuel mem u units param value datatypeIdx name := by
  cases name with
  | number => simp only [plainValueToString, getNumberValue, if_true]
  | string => simp only [plainValueToString, getStringValue, if_true]
  | empty => rfl
  | struct => rfl

/-- A parameter is shown alike on memories that agree on what is read for it. -/
theorem datatypeValueToString_congr {units : List CompileUnit} {datatypeIdx : Int}
    {scan : TagScan} (hscan : tagsOf param = scan)
    (h : mem.AgreeOn mem' (valueReads mem u param.byteSize value scan)) :
    datatypeValueToString fuel mem' u units param value datatypeIdx =
      datatypeValueToString fuel mem u units param value datatypeIdx := by
  unfold tagsOf at hscan
  simp only [datatypeValueToString, hscan]
  split
  · rfl
  · next hunspecified =>
    rw [Bool.not_eq_true] at hunspecified
    split
    · exact plainValueToString_congr _
    · next hcount =>
      apply pointerValueToString_congr
      intro hvalue
      exact ⟨h value ⟨hunspecified, hcount, hvalue, .inl rfl⟩,
        fun hpeek a ha ↦ h a ⟨hunspecified, hcount, hvalue, .inr ⟨hpeek, ha⟩⟩⟩

end Extractor

section Payload

variable (mem : Memory) (u : Uninitialised) (units : List CompileUnit) (cu : CompileUnit)
  (func : Datatype) (regs : UserRegs) (cuIndex fnIndex : Int)

/-- The addresses that are read for a parameter, if it has a register. -/
def parameterReads (index : Nat) (funcParam : DatatypeEntry) : Set Word :=
  {a | ∃ fuel param register, getDatatypeMetadata fuel cu funcParam.toDatatype
      (newParameter cuIndex fnIndex (u.isComplex index) funcParam) = some param ∧
    argRegister (toInt32 (toInt32 (index + 1))) = some register ∧
    a ∈ valueReads mem u param.byteSize (regs.get register) (tagsOf param)}

/-- The addresses that are read for the parameters of a function. -/
def payloadReads : Set Word :=
  {a | ∃ index funcParam, func.parameters[index]? = some funcParam ∧
    a ∈ parameterReads mem u cu regs cuIndex fnIndex index funcParam}

variable {mem u units cu func regs cuIndex fnIndex} {mem' : Memory} {fuel : Nat}

theorem parameterEntry_congr {index : Nat} {funcParam : DatatypeEntry}
    (h : mem.AgreeOn mem' (parameterReads mem u cu regs cuIndex fnIndex index funcParam)) :
    parameterEntry fuel mem' u units cu regs cuIndex fnIndex index funcParam =
      parameterEntry fuel mem u units cu regs cuIndex fnIndex index funcParam := by
  unfold parameterEntry
  apply bind_congr_ok
  intro param hparam
  simp only [getDatatypeValue, Bool.false_eq_true, if_false, Int.add_zero]
  cases hregister : argRegister (toInt32 (toInt32 (index + 1))) with
  | none => rfl
  | some register =>
    exact datatypeValueToString_congr rfl
      fun a ha ↦ h a ⟨fuel, param, register, within_eq_ok.mp hparam, hregister, ha⟩

/-- A payload is the same on memories that agree on what is read for it. -/
theorem generateFunctionPayload_congr
    (h : mem.AgreeOn mem' (payloadReads mem u cu func regs cuIndex fnIndex)) :
    generateFunctionPayload fuel mem' u units cu func regs cuIndex fnIndex =
      generateFunctionPayload fuel mem u units cu func regs cuIndex fnIndex := by
  unfold generateFunctionPayload
  congr 1
  apply mapM_congr
  rintro ⟨funcParam, index⟩ hmem
  have hparam := List.mk_mem_zipIdx_iff_getElem?.mp hmem
  rw [payloadEntry, payloadEntry,
    parameterEntry_congr fun a ha ↦ h a ⟨index, funcParam, hparam, ha⟩]

end Payload

end ArgsDebugger
