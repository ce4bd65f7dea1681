import ArgsDebugger.CompileUnit.CallingConvention
import ArgsDebugger.Debugger.BreakpointInfo
import ArgsDebugger.Extractor.Decoding

/-!
# What a report tells of the debuggee

From the text that a run writes of a call back to the registers and the memory of the native
process at that call: the value of a parameter is read back as the number in its register, and
its alias as what `src/parameter_extractor.cc` came to in memory. How an alias is to be read
depends on the tags of the parameter's types alone.
-/

namespace ArgsDebugger

open Lib Lib.Budget

/-- What an alias tells of the memory behind a value, by the number of pointers in the type and by
what they lead to. -/
def AliasTells (mem : Memory) (u : Uninitialised) (byteSize : Int) (value : Word) (text : Text) :
    Nat → DatatypeName → Prop
  | 1, .number => NumbersFound mem value byteSize (readNumbers text)
  | 1, .string => CharsFound mem (u.beyond value) value (u.charIndex value) (readCodes text)
  | 2, .number => ∃ pointers, PointersFound mem value pointers ∧ List.Forall₂
      (fun pointer entry ↦ entry.1 = (pointer.toNat : Int) ∧
        NumbersFound mem pointer byteSize (readNumbers entry.2)) pointers (readEntries text)
  | 2, .string => ∃ pointers, PointersFound mem value pointers ∧ List.Forall₂
      (fun pointer entry ↦ entry.1 = (pointer.toNat : Int) ∧
        CharsFound mem (u.beyond pointer) pointer (u.charIndex pointer) (readCodes entry.2))
      pointers (readEntries text)
  | _, _ => text = []

/-- What the value and the alias of a described parameter tell of the number in its register. -/
structure Tells (mem : Memory) (u : Uninitialised) (param : SdbEntry) (value : Word)
    (line : Text × Text) : Prop where
  scalar : (tagsOf param).pointerCount = 0 →
    (tagsOf param).datatypeName = .number ∨ (tagsOf param).datatypeName = .string →
    numeral line.1 0 = some value.toInt
  pointer : (tagsOf param).pointerCount ≠ 0 → value ≠ 0 →
    numeral line.1 0 = some (value.toNat : Int)
  wild : (tagsOf param).pointerCount ≠ 0 → value = allOnes → line.2 = "-1".toList
  nothing : (tagsOf param).pointerCount ≠ 0 → value ≠ allOnes → mem.peekData value = 0 →
    line.2 = "NULL".toList
  pointee : (tagsOf param).pointerCount ≠ 0 → value ≠ 0 → value ≠ allOnes →
    mem.peekData value ≠ 0 → AliasTells mem u param.byteSize value line.2
      (tagsOf param).pointerCount (tagsOf param).datatypeName

section Values

variable {fuel : Nat} {mem : Memory} {u : Uninitialised} {param shown : SdbEntry} {value : Word}
  {units : List CompileUnit} {datatypeIdx : Int}

/-- What a value points to is told by its alias. -/
theorem aliasTells_pointeeToString {count : Nat} {name : DatatypeName} (hvalue : value ≠ 0)
    (halias : param.valueAlias = [])
    (h : pointeeToString fuel mem u param value count name = .ok shown) :
    AliasTells mem u param.byteSize value shown.valueAlias count name := by
  unfold pointeeToString at h
  split at h
  · exact getNumberValue_decodes hvalue h
  · exact getStringValue_decodes h
  · exact getMultiNumberValue_decodes h
  · exact getMultiStringValue_decodes h
  · next hnumber hstring hnumbers hstrings =>
    cases h
    unfold AliasTells
    split
    · exact (hnumber rfl rfl).elim
    · exact (hstring rfl rfl).elim
    · exact (hnumbers rfl rfl).elim
    · exact (hstrings rfl rfl).elim
    · exact halias

/-- The text of a value is read back as the value, with its sign where nothing is pointed to. -/
theorem numeral_valueText (mem : Memory) (value : Word) {scan : TagScan}
    (hspecified : scan.unspecified = false) :
    (scan.pointerCount = 0 → scan.datatypeName = .number ∨ scan.datatypeName = .string →
      numeral (valueText mem value scan) 0 = some value.toInt) ∧
    (scan.pointerCount ≠ 0 → value ≠ 0 →
      numeral (valueText mem value scan) 0 = some (value.toNat : Int)) := by
  unfold valueText
  rw [if_neg (by rw [hspecified]; decide)]
  constructor
  · intro hcount hname
    have hdecimal : plainText value scan.datatypeName = decimal value.toInt := by
      rcases hname with hname | hname
      · rw [hname]
        rfl
      · rw [hname]
        rfl
    rw [if_pos hcount, hdecimal]
    exact numeral_decimal value.toInt
  · intro hcount hvalue
    rw [if_neg hcount, if_neg fun hnull ↦ hvalue hnull.2.2.1]
    exact numeral_longToHexString hvalue

/-- The alias of a pointer tells whether it points to something, and to what. -/
theorem aliasTells_pointerValueToString {scan : TagScan} (halias : param.valueAlias = [])
    (h : pointerValueToString fuel mem u param value scan = .ok shown) :
    (value = allOnes → shown.valueAlias = "-1".toList) ∧
    (value ≠ allOnes → mem.peekData value = 0 → shown.valueAlias = "NULL".toList) ∧
    (value ≠ 0 → value ≠ allOnes → mem.peekData value ≠ 0 →
      AliasTells mem u param.byteSize value shown.valueAlias scan.pointerCount
        scan.datatypeName) := by
  simp only [pointerValueToString, longToHexString_eq_allOnes_iff,
    if_neg (longToHexString_ne_zero value)] at h
  refine ⟨?_, ?_, ?_⟩
  · intro hones
    rw [if_pos hones] at h
    cases h
    rfl
  · intro hones hpeek
    rw [if_neg hones, if_pos hpeek] at h
    cases h
    rfl
  · intro hvalue hones hpeek
    rw [if_neg hones, if_neg hpeek] at h
    apply aliasTells_pointeeToString hvalue ?_ h
    exact halias

/-- What is shown of a described parameter tells of its register and of memory. -/
theorem tells_of_datatypeValueToString (halias : param.valueAlias = [])
    (hspecified : (tagsOf param).unspecified = false)
    (h : datatypeValueToString fuel mem u units param value datatypeIdx = .ok shown) :
    Tells mem u param value (shown.value, shown.valueAlias) := by
  have hshown : shown.value = valueText mem value (tagsOf param) := by
    obtain ⟨valueAlias, rfl⟩ := shownAs_of_datatypeValueToString rfl h
    rfl
  have hnumeral := numeral_valueText mem value hspecified
  rw [← hshown] at hnumeral
  have hpointer : (tagsOf param).pointerCount ≠ 0 → ∃ param', param'.valueAlias = [] ∧
      param'.byteSize = param.byteSize ∧
      pointerValueToString fuel mem u param' value (tagsOf param) = .ok shown := by
    intro hcount
    simp only [datatypeValueToString] at h
    rw [← tagsOf, if_neg (by rw [hspecified]; decide), if_neg hcount] at h
    refine ⟨_, ?_, ?_, h⟩
    · exact halias
    · rfl
  constructor
  · exact hnumeral.1
  · exact hnumeral.2
  · intro hcount
    obtain ⟨param', halias', -, h'⟩ := hpointer hcount
    exact (aliasTells_pointerValueToString halias' h').1
  · intro hcount
    obtain ⟨param', halias', -, h'⟩ := hpointer hcount
    exact (aliasTells_pointerValueToString halias' h').2.1
  · intro hcount
    obtain ⟨param', halias', hsize, h'⟩ := hpointer hcount
    rw [← hsize]
    exact (aliasTells_pointerValueToString halias' h').2.2

end Values

section Report

variable (mem : Memory) (u : Uninitialised) (cu : CompileUnit) (func : Datatype) (regs : UserRegs)
  (cuIndex fnIndex : Int)

/-- The lines that were read from a report tell of the registers of the parameters and of the
memory behind them. -/
def ReportTells (lines : List (Text × Text)) : Prop :=
  ∀ index funcParam register, func.parameters[index]? = some funcParam →
    argRegisters[index]? = some register →
    ∃ chain line, Trail (nextType cu.datatypes) funcParam.toDatatype chain ∧
      lines[index]? = some line ∧
      ((tagsOf (describedParameter u cuIndex fnIndex index funcParam chain)).unspecified = false →
        Tells mem u (describedParameter u cuIndex fnIndex index funcParam chain)
          (regs.get register) line)

variable {mem u cu func regs cuIndex fnIndex} {fuel : Nat} {units : List CompileUnit}

/-- A report that was printed of a payload tells of its parameters. -/
theorem reportTells_of_payload {payload : SdbFunction} {text : Text}
    (h : generateFunctionPayload fuel mem u units cu func regs cuIndex fnIndex = .ok payload)
    (hprint : printFunctionPayload payload = .ok text)
    (hfits : func.parameters.length < 0x80000000) (hnames : NamesOneLine cu func) :
    ReportTells mem u cu func regs cuIndex fnIndex (readReport text) := by
  intro index funcParam register hparam hregister
  obtain ⟨shown, hshown, hvar⟩ := (entries_of_generateFunctionPayload h).2 index funcParam hparam
  obtain ⟨param, hmetadata, hvalue⟩ := bind_eq_ok.mp hshown
  have hparam' := within_eq_ok.mp hmetadata
  obtain ⟨chain, ht⟩ := getDatatypeMetadata_isSome_iff.mp ⟨fuel, Option.isSome_of_eq_some hparam'⟩
  have hdescribed := described_of_getDatatypeMetadata ht hparam'
  have hplace : argRegister (toInt32 (toInt32 (index + 1))) = some register := by
    have hindex : index < 6 := (List.getElem?_eq_some_iff.mp hregister).1
    rw [toInt32_toInt32, toInt32_succ hindex]
    exact (argRegister_eq_iff hregister _).mpr rfl
  rw [getDatatypeValue_of_register hplace] at hvalue
  refine ⟨chain, (shown.value, shown.valueAlias), ht, ?_, ?_⟩
  · rw [readReport_of_payload h hprint hfits hnames, List.getElem?_map, hvar]
    rfl
  · rw [describedParameter, ← hdescribed]
    intro hspecified
    apply tells_of_datatypeValueToString ?_ hspecified hvalue
    obtain ⟨_, _, _, hframe⟩ := described_frame funcParam.toDatatype chain
      (newParameter cuIndex fnIndex (u.isComplex index) funcParam)
    rw [hdescribed, hframe]
    rfl

end Report

section Run

variable {κ : Type} {fuel : Nat} {u : Uninitialised} {units : List CompileUnit} {bp : Breakpoint}
  {t : Tracee κ} {text : Text}

/-- What is written of a function behind the header is the lines about structures and its
report. -/
theorem breakpointFunctionInfo_of_info (htype : bp.breakpointType = "function_call".toList)
    (h : breakpointInfo fuel u units bp t = (breakpointHeader bp ++ text, none)) :
    ∃ report, breakpointFunctionInfo fuel u units bp t = .ok report ∧
      text = linesText (breakpointFunctionLines fuel u units bp t) ++ report := by
  unfold breakpointInfo at h
  rw [if_pos htype] at h
  cases hinfo : breakpointFunctionInfo fuel u units bp t with
  | error raised =>
    rw [hinfo] at h
    cases (Prod.mk.inj h).2
  | ok report =>
    rw [hinfo] at h
    have htext := (Prod.mk.inj h).1
    rw [List.append_assoc] at htext
    exact ⟨report, rfl, (List.append_cancel_left htext).symm⟩

/-- What is written of a process tells of the function with its indexes. -/
theorem reportTells_of_info (htype : bp.breakpointType = "function_call".toList)
    (h : breakpointInfo fuel u units bp t = (breakpointHeader bp ++ text, none)) :
    ∃ cu func, vectorAt units bp.cuIndex = .ok cu ∧ vectorAt cu.functions bp.fnIndex = .ok func ∧
      (func.parameters.length < 0x80000000 → NamesOneLine cu func → MembersOneLine cu →
        ReportTells t.mem u cu func t.regs bp.cuIndex bp.fnIndex (readReport text)) := by
  obtain ⟨report, hreport, rfl⟩ := breakpointFunctionInfo_of_info htype h
  obtain ⟨cu, hcu, hreport⟩ := bind_eq_ok.mp hreport
  obtain ⟨func, hfunc, hreport⟩ := bind_eq_ok.mp hreport
  obtain ⟨payload, hpayload, hprint⟩ := bind_eq_ok.mp hreport
  refine ⟨cu, func, hcu, hfunc, ?_⟩
  intro hfits hnames hmembers
  have hlines : breakpointFunctionLines fuel u units bp t =
      payloadLines fuel t.mem u units cu func t.regs bp.cuIndex bp.fnIndex := by
    simp only [breakpointFunctionLines, hcu, hfunc]
  rw [hlines, readReport_payloadLines hcu hnames hmembers]
  exact reportTells_of_payload hpayload hprint hfits hnames

variable {sections : List ElfSection}

/-- The arguments of the calls of a native run are read back from what a run of the debugger
writes: of each call, in order, whatever is written without an exception is a header and a text,
and from the text the registers of its parameters can be told as they are natively at the call,
and the memory behind them, where the words that are read for it overlap no entry. -/
theorem run_tells_arguments (cpu : Cpu κ) (info : Breakpoint → Tracee κ → Option Failure)
    {n fuel rounds : Nat} {t : Tracee κ}
    (hpatch : Patchable t.mem [] (functionRequests (getSymbols sections).symbolsMap units))
    (hu : ∀ i < n, Undisturbed cpu info (functionTable sections units t.mem) (cpu.native t i))
    (hfuel : n ≤ fuel) (hrounds : rounds ≤ (cpu.callSteps sections units t n).length) :
    List.Forall₂ (fun i v ↦ ∀ fuel u text,
        breakpointInfo fuel u units v.1 v.2 = (breakpointHeader v.1 ++ text, none) →
        InfoClear sections units u v.1 (cpu.native t i) →
        ∃ cu func, vectorAt units v.1.cuIndex = .ok cu ∧
          vectorAt cu.functions v.1.fnIndex = .ok func ∧
          (func.parameters.length < 0x80000000 → NamesOneLine cu func → MembersOneLine cu →
            ReportTells (cpu.native t i).mem u cu func (cpu.native t i).regs v.1.cuIndex
              v.1.fnIndex (readReport text)))
      ((cpu.callSteps sections units t n).take rounds)
      ((cpu.environment info fuel).reported
        (run true (getSymbols sections).symbolsMap units rounds) ⟨t, []⟩) := by
  obtain ⟨i, -, hcalls, -, hstops⟩ := exists_run_to_call hpatch hu hfuel hrounds
  rw [← hcalls, hstops]
  apply (callSteps_stops cpu t.mem t i).imp
  rintro j v ⟨hbp, hstopped⟩ fuel u text htext hclear
  have hsame : breakpointInfo fuel u units v.1 v.2 =
      breakpointInfo fuel u units v.1 (cpu.native t j) := by
    rw [hstopped]
    exact breakpointInfo_stoppedAt t hclear fuel
  rw [hsame] at htext
  obtain ⟨_, _, _, _, _, _, _, htype, _⟩ := reportOf_functionTable hbp
  exact reportTells_of_info htype htext

end Run

section Sample

/-- A unit with a function at address 16 whose parameter is an `int`. -/
def intFunctionUnit : CompileUnit :=
  { unitOf [intType] with
    functions := [⟨{ (default : DatatypeEntry) with
      lowPc := 16, name := "f".toList, declLine := 3 }, [], [typedParameter 4]⟩] }

theorem functionRequests_intFunction :
    functionRequests (getSymbols sampleSections).symbolsMap [intFunctionUnit] =
      [sampleCall] := rfl

theorem trail_intFunction :
    Trail (nextType intFunctionUnit.datatypes) (typedParameter 4).toDatatype [intType] :=
  .step rfl (.stop rfl)

/-- Nothing is read for an `int`. -/
theorem infoClear_intFunction (u : Uninitialised) :
    InfoClear sampleSections [intFunctionUnit] u (sampleCall.record sampleCaller.mem.bytes)
      (sampleCpu.native sampleCaller 0) := by
  rintro a ⟨cu, func, hcu, hfunc, index, funcParam, hparam, fuel, param, _, hmetadata, _, hread⟩
  cases hcu
  cases hfunc
  cases index with
  | succ index => cases hparam
  | zero =>
    cases hparam
    rw [described_of_getDatatypeMetadata trail_intFunction hmetadata] at hread
    exact absurd rfl hread.2.1

/-- The argument 42 of the call is read back from the report. -/
theorem run_tells_arguments_sample :
    ∃ v text line, (sampleCpu.environment (fun _ _ ↦ none) 1).reported
        (run true (getSymbols sampleSections).symbolsMap [intFunctionUnit] 1)
          ⟨sampleCaller, []⟩ = [v] ∧
      breakpointInfo 2 zeroUninitialised [intFunctionUnit] v.1 v.2 =
        (breakpointHeader v.1 ++ text, none) ∧
      (readReport text)[0]? = some line ∧ numeral line.1 0 = some 42 := by
  have hreported := reported_sampleCall functionRequests_intFunction
  have htells := run_tells_arguments sampleCpu (fun _ _ ↦ none)
    (patchable_sampleCall functionRequests_intFunction)
    (undisturbed_sampleCall functionRequests_intFunction) (le_refl 1)
    (one_le_callSteps_sampleCall functionRequests_intFunction)
  rw [callSteps_sampleCall functionRequests_intFunction, hreported] at htells
  obtain ⟨hfirst, -⟩ := List.forall₂_cons.mp htells
  have hinfo : breakpointInfo 2 zeroUninitialised [intFunctionUnit]
      (sampleCall.record sampleCaller.mem.bytes)
      ((functionTable sampleSections [intFunctionUnit] sampleCaller.mem).stoppedAt sampleCaller) =
        (breakpointHeader (sampleCall.record sampleCaller.mem.bytes) ++
          "[*] f(int <42>)\n[*] :3\n".toList, none) := by
    decide +kernel
  obtain ⟨cu, func, hcu, hfunc, hreport⟩ := hfirst 2 _ _ hinfo
    (infoClear_intFunction zeroUninitialised)
  cases hcu
  cases hfunc
  have hmembers : MembersOneLine intFunctionUnit := by
    intro i hi
    rw [List.mem_singleton.mp hi]
    exact fun member hmember ↦ absurd hmember List.not_mem_nil
  obtain ⟨chain, line, ht, hline, hline'⟩ := hreport (by decide)
    ⟨by decide, by decide, by decide, by decide⟩ hmembers 0 (typedParameter 4) .rdi rfl rfl
  rw [ht.unique trail_intFunction] at hline'
  exact ⟨_, _, line, hreported, hinfo, hline, (hline' rfl).scalar rfl (.inl rfl)⟩

end Sample

end ArgsDebugger
