import ArgsDebugger.CompileUnit.FreshFields
import ArgsDebugger.CompileUnit.Lockstep
import ArgsDebugger.Debugger.Functions
import ArgsDebugger.Debugger.PatchInvariant

/-!
# Two runs over one program

The breakpoints that `set_all_function_breakpoints` sets and the payloads that
`generate_function_payload` builds, in two runs that differ in what the memory holds where a
`datatype_t` or an `sdb_parameter_t` is declared and not initialised
(`src/compile_unit.cc:61–66,275–334,377`). Which DIEs leave nothing of it in the result is read
off their attributes.
-/

namespace ArgsDebugger

open Lib Lib.Budget

/-- The debugger with what it holds in uninitialised memory and the units it has read. -/
structure DebuggerRun where
  u : Uninitialised
  units : List CompileUnit

section Same

variable (mem : Memory) (regs : UserRegs) (run run' : DebuggerRun) (cu cu' : CompileUnit)

/-- A parameter with its metadata, but for `is_complex`, which nothing has set yet. -/
def parameterMetadata (fuel : Nat) (run : DebuggerRun) (cu : CompileUnit) (cuIndex fnIndex : Int)
    (indexed : DatatypeEntry × Nat) : Option SdbEntry :=
  (getDatatypeMetadata fuel cu indexed.1.toDatatype
    (newParameter cuIndex fnIndex (run.u.isComplex indexed.2) indexed.1)).map fun param ↦
      { param with isComplex := false }

/-- An iteration of the parameter loop is the same in two runs. It is compared on its own, so
also where an earlier parameter of the function raises and the loop never gets to it. -/
structure SameParameter (i i' : DatatypeEntry × Nat) : Prop where
  metadata : ∀ fuel cuIndex fnIndex, parameterMetadata fuel run cu cuIndex fnIndex i =
    parameterMetadata fuel run' cu' cuIndex fnIndex i'
  entry : ∀ fuel cuIndex fnIndex, payloadEntry fuel mem run.u run.units cu regs cuIndex fnIndex i =
    payloadEntry fuel mem run'.u run'.units cu' regs cuIndex fnIndex i'

/-- The payload of a function is the same in two runs, and so is what is done for it: its
iterations, and its line, also where no payload of it is ever built. -/
structure SameFunction (func func' : Datatype) : Prop where
  name : func.name = func'.name
  filename : cu.filename = cu'.filename
  lineNo : toInt32 func.declLine = toInt32 func'.declLine
  address : func.lowPc = func'.lowPc
  parameters : List.Forall₂ (SameParameter mem regs run run' cu cu') func.parameters.zipIdx
    func'.parameters.zipIdx
  payload : ∀ fuel cuIndex fnIndex,
    generateFunctionPayload fuel mem run.u run.units cu func regs cuIndex fnIndex =
      generateFunctionPayload fuel mem run'.u run'.units cu' func' regs cuIndex fnIndex

/-- Two runs set the same breakpoints and show the same of every function. -/
structure SameRuns (symbolsMap : Word → Option Symbol) : Prop where
  breakpoints : ∀ table, setAllFunctionBreakpoints symbolsMap run.units table =
    setAllFunctionBreakpoints symbolsMap run'.units table
  functions : List.Forall₂ (fun cu cu' ↦ List.Forall₂ (SameFunction mem regs run run' cu cu')
    cu.functions cu'.functions) run.units run'.units

end Same

/-- A parameter leaves nothing to chance: it is in a register, and the last type of its chain
has a size. Nothing is shown of a parameter whose chain does not end. -/
def ParameterDetermined (types : List Die) (i : Die × Nat) : Prop :=
  ∀ chain, Trail (nextDie types) i.1 chain →
    (argRegister (toInt32 (i.2 + 1))).isSome ∧ ∀ last ∈ chain.getLast?, last.storesByteSize = true

/-- A function leaves nothing to chance: it has a line, and its parameters leave nothing. -/
structure FunctionDetermined (types : List Die) (func : Entry) : Prop where
  line : func.node.has .declLine = true
  parameters : ∀ i ∈ func.parameters.zipIdx, ParameterDetermined types i

/-- The functions of a unit leave nothing to chance. -/
def UnitDetermined (root : RoseTree Die) : Prop :=
  ∀ func ∈ functionEntries (withLater root.children), FunctionDetermined (typeDies root) func

section Twins

variable {fresh fresh' : Int → DatatypeEntry} {getFuncAddr : Text → Word}

/-- Two records of one DIE. -/
theorem twin_of_readFrom {node : Die} {dt dt' : DatatypeEntry}
    (h : ReadFrom (readDatatype fresh) node dt) (h' : ReadFrom (readDatatype fresh') node dt') :
    Twin dt dt' := by
  obtain ⟨⟨hoffset, htag⟩, _, hread⟩ := h
  obtain ⟨⟨hoffset', htag'⟩, _, hread'⟩ := h'
  obtain ⟨hname, htype⟩ := sameType_readDatatype hread hread'
  exact ⟨hoffset.trans hoffset'.symm, htag.trans htag'.symm, hname, htype⟩

theorem twin_of_fieldsRead {nodes : List Die} {dts dts' : List DatatypeEntry}
    (h : FieldsRead fresh nodes dts) (h' : FieldsRead fresh' nodes dts') :
    List.Forall₂ Twin dts dts' := by
  apply (forall₂_span h h').imp
  rintro dt dt' ⟨node, -, hdt, hdt'⟩
  exact twin_of_readFrom hdt hdt'

/-- Two units of one tree. -/
theorem twinUnit_of_unitOf {root : RoseTree Die} {cu cu' : CompileUnit}
    (h : UnitOf fresh getFuncAddr root cu) (h' : UnitOf fresh' getFuncAddr root cu') :
    TwinUnit cu cu' := by
  constructor
  · apply (forall₂_span h.datatypes h'.datatypes).imp
    rintro x x' ⟨e, -, hx, hx'⟩
    exact ⟨twin_of_readFrom hx.node hx'.node, twin_of_fieldsRead hx.members hx'.members⟩
  · apply (forall₂_span h.functions h'.functions).imp
    rintro func func' ⟨e, -, hfunc, hfunc'⟩
    exact twin_of_fieldsRead hfunc.parameters hfunc'.parameters

/-- The metadata of a parameter come from a chain of DIEs that ends, and their size is that of
the record of the last one. -/
theorem chain_of_getDatatypeMetadata {root : RoseTree Die} {cu : CompileUnit}
    (h : UnitOf fresh getFuncAddr root cu) {node : Die} {dt : DatatypeEntry}
    (hdt : ReadFrom (readDatatype fresh) node dt) {fuel : Nat} {param param' : SdbEntry}
    (hmeta : getDatatypeMetadata fuel cu dt.toDatatype param = some param') :
    ∃ chain, Trail (nextDie (typeDies root)) node chain ∧
      ∃ last, Option.Rel (OfDie fresh) chain.getLast? last ∧
        param'.byteSize = (last.map (·.byteSize)).getD param.byteSize := by
  obtain ⟨records, ht, hsize, -⟩ := trail_of_getDatatypeMetadata hmeta
  obtain ⟨chain, hchain, hrecords⟩ := OfDie.trail_dies (ofDie_datatypes h)
    (x := dt.toDatatype) hdt ht
  exact ⟨chain, hchain, records.getLast?, forall₂_getLast? hrecords, hsize⟩

end Twins

section Enough

variable {fresh fresh' : Int → DatatypeEntry} {getFuncAddr : Text → Word} {root : RoseTree Die}
  {cu cu' : CompileUnit} {node : Die} {index : Nat} {dt dt' : DatatypeEntry}

/-- The metadata of a parameter that leaves nothing to chance agree. -/
theorem metadataAgree_of_determined (h : UnitOf fresh getFuncAddr root cu)
    (h' : UnitOf fresh' getFuncAddr root cu') (hdt : ReadFrom (readDatatype fresh) node dt)
    (hdt' : ReadFrom (readDatatype fresh') node dt')
    (hdet : ParameterDetermined (typeDies root) (node, index)) (cuIndex fnIndex : Int)
    (flag flag' : Bool) (fuel : Nat) :
    MetadataAgree cu cu' cuIndex fnIndex index flag flag' fuel dt dt' := by
  intro param param' hmeta hmeta'
  obtain ⟨chain, ht, last, hlast, hsize⟩ := chain_of_getDatatypeMetadata h hdt hmeta
  obtain ⟨chain', ht', last', hlast', hsize'⟩ := chain_of_getDatatypeMetadata h' hdt' hmeta'
  cases ht.unique ht'
  obtain ⟨hregister, hstored⟩ := hdet chain ht
  refine ⟨?_, hregister⟩
  rw [hsize, hsize']
  generalize chain.getLast? = die at hlast hlast' hstored
  cases hlast with
  | none =>
    cases hlast'
    rfl
  | @some die x hx =>
    cases hlast' with
    | @some _ x' hx' =>
      obtain ⟨-, _, hread⟩ := hx
      obtain ⟨-, _, hread'⟩ := hx'
      exact sameSize_readDatatype (hstored die rfl) hread hread'

variable {mem : Memory} {regs : UserRegs} {u : Uninitialised} {flags flags' : Nat → Bool}
  {units units' : List CompileUnit}

/-- A parameter that leaves nothing to chance is the same in two runs. -/
theorem sameParameter_of_determined (hunits : List.Forall₂ TwinUnit units units')
    (h : UnitOf fresh getFuncAddr root cu) (h' : UnitOf fresh' getFuncAddr root cu')
    (hdt : ReadFrom (readDatatype fresh) node dt) (hdt' : ReadFrom (readDatatype fresh') node dt')
    (hdet : ParameterDetermined (typeDies root) (node, index)) :
    SameParameter mem regs ⟨u.withFlags flags, units⟩ ⟨u.withFlags flags', units'⟩ cu cu'
      (dt, index) (dt', index) := by
  have hcu := twinUnit_of_unitOf h h'
  have hparam := twin_of_readFrom hdt hdt'
  have hagree := metadataAgree_of_determined h h' hdt hdt' hdet
  constructor
  · intro fuel cuIndex fnIndex
    have hsame := sameText_parameter hcu hparam fuel cuIndex fnIndex (flags index) (flags' index)
    have hsize := hagree cuIndex fnIndex (flags index) (flags' index) fuel
    unfold MetadataAgree at hsize
    change Option.map _ (getDatatypeMetadata fuel cu dt.toDatatype
        (newParameter cuIndex fnIndex (flags index) dt)) =
      Option.map _ (getDatatypeMetadata fuel cu' dt'.toDatatype
        (newParameter cuIndex fnIndex (flags' index) dt'))
    generalize getDatatypeMetadata fuel cu dt.toDatatype _ = result at hsame hsize ⊢
    generalize getDatatypeMetadata fuel cu' dt'.toDatatype _ = result' at hsame hsize ⊢
    cases hsame with
    | none => rfl
    | @some param param' htext =>
      obtain ⟨size, flag, rfl⟩ := htext
      obtain ⟨rfl, -⟩ := hsize _ _ rfl rfl
      rfl
  · intro fuel cuIndex fnIndex
    exact payloadEntry_twin hunits hcu hparam (hagree cuIndex fnIndex _ _ fuel)

/-- A function that leaves nothing to chance is shown the same in two runs. -/
theorem sameFunction_of_determined (hunits : List.Forall₂ TwinUnit units units')
    (h : UnitOf fresh getFuncAddr root cu) (h' : UnitOf fresh' getFuncAddr root cu') {e : Entry}
    {func func' : Datatype} (hfunc : EntryRead fresh (readFunction fresh getFuncAddr) e func)
    (hfunc' : EntryRead fresh' (readFunction fresh' getFuncAddr) e func')
    (hdet : FunctionDetermined (typeDies root) e) :
    SameFunction mem regs ⟨u.withFlags flags, units⟩ ⟨u.withFlags flags', units'⟩ cu cu' func
      func' := by
  obtain ⟨-, _, hread⟩ := hfunc.node
  obtain ⟨-, _, hread'⟩ := hfunc'.node
  obtain ⟨hname, haddress⟩ := samePlace_readFunction hread hread'
  have hfilename : cu.filename = cu'.filename := h.filename.trans h'.filename.symm
  have hline : func.declLine = func'.declLine := sameLine_readFunction hdet.line hread hread'
  have hparameters : List.Forall₂
      (SameParameter mem regs ⟨u.withFlags flags, units⟩ ⟨u.withFlags flags', units'⟩ cu cu')
      func.parameters.zipIdx func'.parameters.zipIdx := by
    apply (forall₂_span (forall₂_zipIdx hfunc.parameters 0)
      (forall₂_zipIdx hfunc'.parameters 0)).imp
    rintro ⟨dt, index⟩ ⟨dt', index'⟩ ⟨⟨node, place⟩, hmem, ⟨hdt, rfl⟩, hdt', rfl⟩
    exact sameParameter_of_determined hunits h h' hdt hdt' (hdet.parameters _ hmem)
  refine ⟨hname, hfilename, by rw [hline], haddress, hparameters, ?_⟩
  intro fuel cuIndex fnIndex
  have hlength : func.parameters.length = func'.parameters.length := by
    have hzip := hparameters.length_eq
    rwa [List.length_zipIdx, List.length_zipIdx] at hzip
  apply Agree.eq
  refine (Agree.mapM (S := Eq) (hparameters.imp fun i i' hi ↦ ?_)).bind fun vars vars' hvars ↦ ?_
  · rw [hi.entry fuel cuIndex fnIndex]
    exact Agree.refl _
  · rw [List.forall₂_eq_eq_eq] at hvars
    rw [hvars, hname, hfilename, hline, haddress, hlength]
    exact .ok rfl

end Enough

section Breakpoints

variable {symbolsMap : Word → Option Symbol}

/-- The inner loop depends on the requests of its functions. -/
theorem setFunctionBreakpoints_congr {cuIdx : Nat} {functions functions' : List (Datatype × Nat)}
    (h : List.Forall₂ (fun f f' ↦ functionRequest symbolsMap cuIdx f.2 f.1 =
      functionRequest symbolsMap cuIdx f'.2 f'.1) functions functions') (table : Table) :
    setFunctionBreakpoints symbolsMap cuIdx table functions =
      setFunctionBreakpoints symbolsMap cuIdx table functions' := by
  induction h generalizing table with
  | nil => rfl
  | cons hf _ ih => simp only [setFunctionBreakpoints, hf, ih]

/-- The outer loop depends on the requests of the functions of its units. -/
theorem setUnitBreakpoints_congr {units units' : List (CompileUnit × Nat)}
    (h : List.Forall₂ (fun c c' ↦ c.2 = c'.2 ∧ List.Forall₂ (fun func func' ↦
      ∀ fnIdx, functionRequest symbolsMap c.2 fnIdx func =
        functionRequest symbolsMap c.2 fnIdx func') c.1.functions c'.1.functions) units units')
    (table : Table) :
    setUnitBreakpoints symbolsMap table units = setUnitBreakpoints symbolsMap table units' := by
  induction h generalizing table with
  | nil => rfl
  | @cons c c' units units' hc _ ih =>
    obtain ⟨cu, cuIdx⟩ := c
    obtain ⟨cu', cuIdx'⟩ := c'
    obtain ⟨rfl, hfunctions⟩ := hc
    have hinner : List.Forall₂ (fun f f' ↦ functionRequest symbolsMap cuIdx f.2 f.1 =
        functionRequest symbolsMap cuIdx f'.2 f'.1) cu.functions.zipIdx cu'.functions.zipIdx := by
      apply (forall₂_zipIdx hfunctions 0).imp
      rintro ⟨func, fnIdx⟩ ⟨func', fnIdx'⟩ ⟨hf, rfl⟩
      exact hf fnIdx
    simp only [setUnitBreakpoints, setFunctionBreakpoints_congr hinner, ih]

end Breakpoints

/-- Memory of zeros below a `datatype_t`. -/
def zeros (_ : Int) : DatatypeEntry := default

/-- Memory that reads as a line and a size. -/
def ones (_ : Int) : DatatypeEntry :=
  { (default : DatatypeEntry) with declLine := 1, byteSize := 1 }

section Needed

variable {getFuncAddr : Text → Word} {root : RoseTree Die} {cu cu' : CompileUnit}
  {mem : Memory} {regs : UserRegs} {u : Uninitialised} {units units' : List CompileUnit}

/-- A function without a line takes it from the memory. -/
theorem line_of_sameFunction {e : Entry} {func func' : Datatype} {run run' : DebuggerRun}
    (hfunc : EntryRead zeros (readFunction zeros getFuncAddr) e func)
    (hfunc' : EntryRead ones (readFunction ones getFuncAddr) e func')
    (hsame : SameFunction mem regs run run' cu cu' func func') : e.node.has .declLine = true := by
  by_contra hnot
  rw [Bool.not_eq_true] at hnot
  obtain ⟨-, _, hread⟩ := hfunc.node
  obtain ⟨-, _, hread'⟩ := hfunc'.node
  have hline := hsame.lineNo
  rw [declLine_readFunction_of_not hnot hread, declLine_readFunction_of_not hnot hread'] at hline
  have hne : toInt32 0 ≠ toInt32 1 := by decide
  exact hne hline

variable {node : Die} {index : Nat} {dt dt' : DatatypeEntry} {chain : List Die}

/-- Along a chain of DIEs that ends, the metadata of a parameter end in two runs that are the
same, on some budget, and agree but for `is_complex`. -/
theorem exists_metadata_of_sameParameter {run run' : DebuggerRun}
    (h : UnitOf zeros getFuncAddr root cu) (hdt : ReadFrom (readDatatype zeros) node dt)
    (ht : Trail (nextDie (typeDies root)) node chain)
    (hsame : SameParameter mem regs run run' cu cu' (dt, index) (dt', index)) :
    ∃ fuel param param',
      getDatatypeMetadata fuel cu dt.toDatatype
        (newParameter 0 0 (run.u.isComplex index) dt) = some param ∧
      getDatatypeMetadata fuel cu' dt'.toDatatype
        (newParameter 0 0 (run'.u.isComplex index) dt') = some param' ∧
      param.byteSize = param'.byteSize := by
  obtain ⟨records, hrecords, -⟩ := OfDie.trail (ofDie_datatypes h) (x := dt.toDatatype) hdt ht
  have hends : ∃ fuel, (getDatatypeMetadata fuel cu dt.toDatatype
      (newParameter 0 0 (run.u.isComplex index) dt)).isSome :=
    getDatatypeMetadata_isSome_iff.mpr ⟨records, hrecords⟩
  obtain ⟨fuel, hsome⟩ := hends
  obtain ⟨param, hparam⟩ := Option.isSome_iff_exists.mp hsome
  have hmetadata := hsame.metadata fuel 0 0
  simp only [parameterMetadata, hparam, Option.map_some] at hmetadata
  obtain ⟨param', hparam', heq⟩ := Option.map_eq_some_iff.mp hmetadata.symm
  exact ⟨fuel, param, param', hparam, hparam', (congrArg SdbEntry.byteSize heq).symm⟩

/-- A last type without a size takes it from the memory. -/
theorem size_of_sameParameter {run run' : DebuggerRun} (h : UnitOf zeros getFuncAddr root cu)
    (h' : UnitOf ones getFuncAddr root cu') (hdt : ReadFrom (readDatatype zeros) node dt)
    (hdt' : ReadFrom (readDatatype ones) node dt')
    (ht : Trail (nextDie (typeDies root)) node chain)
    (hsame : SameParameter mem regs run run' cu cu' (dt, index) (dt', index)) :
    ∀ last ∈ chain.getLast?, last.storesByteSize = true := by
  intro last hlast
  by_contra hnot
  rw [Bool.not_eq_true] at hnot
  obtain ⟨fuel, param, param', hparam, hparam', hsize⟩ :=
    exists_metadata_of_sameParameter h hdt ht hsame
  obtain ⟨chain₁, ht₁, x, hx, hzero⟩ := chain_of_getDatatypeMetadata h hdt hparam
  obtain ⟨chain₂, ht₂, x', hx', hone⟩ := chain_of_getDatatypeMetadata h' hdt' hparam'
  rw [ht₁.unique ht, Option.mem_def.mp hlast] at hx
  rw [ht₂.unique ht, Option.mem_def.mp hlast] at hx'
  cases hx with
  | some hx =>
    cases hx' with
    | some hx' =>
      obtain ⟨-, _, hread⟩ := hx
      obtain ⟨-, _, hread'⟩ := hx'
      rw [hzero, hone, Option.map_some, Option.map_some, Option.getD_some, Option.getD_some,
        byteSize_readDatatype_of_not hnot hread, byteSize_readDatatype_of_not hnot hread'] at hsize
      cases hsize

/-- A parameter without a register keeps what the memory held for `is_complex`. -/
theorem register_of_sameParameter (h : UnitOf zeros getFuncAddr root cu)
    (hdt : ReadFrom (readDatatype zeros) node dt)
    (ht : Trail (nextDie (typeDies root)) node chain)
    (hsame : SameParameter mem regs ⟨u.withFlags fun _ ↦ false, units⟩
      ⟨u.withFlags fun _ ↦ true, units'⟩ cu cu' (dt, index) (dt', index)) :
    (argRegister (toInt32 (index + 1))).isSome := by
  by_contra hnone
  rw [Option.not_isSome_iff_eq_none] at hnone
  obtain ⟨fuel, param, param', hparam, hparam', -⟩ :=
    exists_metadata_of_sameParameter h hdt ht hsame
  obtain ⟨-, -, -, hfalse⟩ := trail_of_getDatatypeMetadata hparam
  obtain ⟨-, -, -, htrue⟩ := trail_of_getDatatypeMetadata hparam'
  have hentry : payloadEntry fuel mem (u.withFlags fun _ ↦ false) units cu regs 0 0 (dt, index) =
      .ok ⟨param, []⟩ := by
    have hflag : param.isComplex = false := hfalse
    have hshown : parameterEntry fuel mem (u.withFlags fun _ ↦ false) units cu regs 0 0 index dt =
        .ok param := by
      rw [parameterEntry_of_no_register hnone, hparam]
      rfl
    rw [payloadEntry, hshown, ok_bind, hflag]
    rfl
  have hentry' := hsame.entry fuel 0 0
  rw [hentry] at hentry'
  obtain ⟨shown, hshown, heq⟩ := payloadEntry_eq_ok hentry'.symm
  rw [parameterEntry_of_no_register hnone, hparam'] at hshown
  cases hshown
  cases heq
  rw [hfalse] at htrue
  cases htrue

end Needed

section Runs

variable (getFuncAddr : Text → Word) (lowAddr highAddr : Word) (u : Uninitialised)
  (roots : List (RoseTree Die))

/-- The run that finds the given contents in uninitialised memory. -/
def runWith (fresh : Int → DatatypeEntry) (flags : Nat → Bool) : DebuggerRun where
  u := u.withFlags flags
  units := getCompileUnits fresh getFuncAddr lowAddr highAddr roots

variable {getFuncAddr lowAddr highAddr u roots} {mem : Memory} {regs : UserRegs}
  {fresh fresh' : Int → DatatypeEntry} {flags flags' : Nat → Bool}

/-- A unit and what two runs have read from its tree. -/
theorem forall₂_unitOf_unitOf :
    List.Forall₂ (fun cu cu' ↦ ∃ root ∈ roots, TextsFit root ∧ UnitOf fresh getFuncAddr root cu ∧
        UnitOf fresh' getFuncAddr root cu')
      (runWith getFuncAddr lowAddr highAddr u roots fresh flags).units
      (runWith getFuncAddr lowAddr highAddr u roots fresh' flags').units := by
  apply (forall₂_span (forall₂_unitOf fresh getFuncAddr lowAddr highAddr roots)
    (forall₂_unitOf fresh' getFuncAddr lowAddr highAddr roots)).imp
  rintro cu cu' ⟨root, hmem, hcu, hcu'⟩
  obtain ⟨hroot, hfit⟩ := List.mem_filter.mp hmem
  exact ⟨root, hroot, of_decide_eq_true hfit, hcu, hcu'⟩

/-- Where nothing is left to chance, two runs are the same. -/
theorem sameRuns_of_determined (symbolsMap : Word → Option Symbol)
    (hdet : ∀ root ∈ roots, TextsFit root → UnitDetermined root) :
    SameRuns mem regs (runWith getFuncAddr lowAddr highAddr u roots fresh flags)
      (runWith getFuncAddr lowAddr highAddr u roots fresh' flags') symbolsMap := by
  have hboth : List.Forall₂ (fun cu cu' ↦ ∃ root ∈ roots, TextsFit root ∧
        UnitOf fresh getFuncAddr root cu ∧ UnitOf fresh' getFuncAddr root cu')
      (runWith getFuncAddr lowAddr highAddr u roots fresh flags).units
      (runWith getFuncAddr lowAddr highAddr u roots fresh' flags').units := forall₂_unitOf_unitOf
  constructor
  · intro table
    apply setUnitBreakpoints_congr
    apply (forall₂_zipIdx hboth 0).imp
    rintro ⟨cu, cuIdx⟩ ⟨cu', cuIdx'⟩ ⟨⟨root, hroot, hfit, hcu, hcu'⟩, rfl⟩
    refine ⟨rfl, (forall₂_span hcu.functions hcu'.functions).imp ?_⟩
    rintro func func' ⟨e, he, hfunc, hfunc'⟩ fnIdx
    obtain ⟨-, _, hread⟩ := hfunc.node
    obtain ⟨-, _, hread'⟩ := hfunc'.node
    obtain ⟨hname, hlow⟩ := samePlace_readFunction hread hread'
    have hline : func.declLine = func'.declLine :=
      sameLine_readFunction (hdet root hroot hfit e he).line hread hread'
    simp only [functionRequest, hname, hlow, hline]
  · apply hboth.imp
    rintro cu cu' ⟨root, hroot, hfit, hcu, hcu'⟩
    apply (forall₂_span hcu.functions hcu'.functions).imp
    rintro func func' ⟨e, he, hfunc, hfunc'⟩
    have hunits := hboth.imp fun _ _ ⟨_, _, _, h, h'⟩ ↦ twinUnit_of_unitOf h h'
    exact sameFunction_of_determined hunits hcu hcu' hfunc hfunc' (hdet root hroot hfit e he)

/-- Where two runs are the same whatever they find, nothing is left to chance. -/
theorem determined_of_sameRuns (symbolsMap : Word → Option Symbol)
    (hsame : SameRuns mem regs
      (runWith getFuncAddr lowAddr highAddr u roots zeros fun _ ↦ false)
      (runWith getFuncAddr lowAddr highAddr u roots ones fun _ ↦ true) symbolsMap) :
    ∀ root ∈ roots, TextsFit root → UnitDetermined root := by
  intro root hroot hfit func hfunc
  obtain ⟨cu, cu', hcu, hcu', hfunctions⟩ := forall₂_triangle
    (forall₂_unitOf zeros getFuncAddr lowAddr highAddr roots)
    (forall₂_unitOf ones getFuncAddr lowAddr highAddr roots) hsame.functions root
    (List.mem_filter.mpr ⟨hroot, decide_eq_true hfit⟩)
  obtain ⟨dt, dt', hdt, hdt', hfunction⟩ := forall₂_triangle hcu.functions hcu'.functions
    hfunctions func hfunc
  refine ⟨line_of_sameFunction hdt hdt' hfunction, ?_⟩
  intro i hi chain ht
  obtain ⟨⟨p, _⟩, ⟨p', _⟩, ⟨hp, rfl⟩, ⟨hp', rfl⟩, hparameter⟩ := forall₂_triangle
    (forall₂_zipIdx hdt.parameters 0) (forall₂_zipIdx hdt'.parameters 0) hfunction.parameters i hi
  exact ⟨register_of_sameParameter hcu hp ht hparameter,
    size_of_sameParameter hcu hcu' hp hp' ht hparameter⟩

end Runs

/-- Uninitialised fields: two runs set the same breakpoints and show the same of every function,
whatever they find in those fields, exactly when in each unit that is read every function has a
line, and each of its parameters whose chain of types ends is in a register and has a chain that
is empty or ends at a type whose size is stored. -/
theorem sameRuns_iff (symbolsMap : Word → Option Symbol) (getFuncAddr : Text → Word)
    (lowAddr highAddr : Word) (roots : List (RoseTree Die)) (mem : Memory) (regs : UserRegs)
    (u : Uninitialised) :
    (∀ fresh fresh' flags flags', SameRuns mem regs
        (runWith getFuncAddr lowAddr highAddr u roots fresh flags)
        (runWith getFuncAddr lowAddr highAddr u roots fresh' flags') symbolsMap) ↔
      ∀ root ∈ roots, TextsFit root → UnitDetermined root := by
  constructor
  · intro h
    exact determined_of_sameRuns symbolsMap (h zeros ones (fun _ ↦ false) fun _ ↦ true)
  · intro h fresh fresh' flags flags'
    exact sameRuns_of_determined symbolsMap h

/-- The symbols of a program with the sample function. -/
def sampleSymbolsMap (a : Word) : Option Symbol :=
  if a = 0x1000 then some ⟨1, 0x1000, "f".toList, 0, [], "global".toList, "func".toList,
    ".symtab".toList⟩
  else none

/-- The sample function has no line: what the memory holds for it decides whether its breakpoint
is set. -/
theorem setAllFunctionBreakpoints_uninitialised :
    ¬ ∀ (symbolsMap : Word → Option Symbol) (getFuncAddr : Text → Word) (lowAddr highAddr : Word)
      (roots : List (RoseTree Die)) (mem : Memory) (regs : UserRegs) (u : Uninitialised)
      (fresh fresh' : Int → DatatypeEntry) (flags flags' : Nat → Bool),
      SameRuns mem regs (runWith getFuncAddr lowAddr highAddr u roots fresh flags)
        (runWith getFuncAddr lowAddr highAddr u roots fresh' flags') symbolsMap := by
  intro h
  have hprograms := (h sampleSymbolsMap (fun _ ↦ 0) 0 0 [sampleUnit] sampleSession.tracee.mem
    sampleSession.tracee.regs zeroUninitialised zeros ones (fun _ ↦ false)
    fun _ ↦ false).breakpoints Table.empty
  have hruns := congrArg (fun p ↦ sampleEnvironment.run p sampleSession) hprograms
  simp only [run_setAllFunctionBreakpoints, runWith] at hruns
  have hnone : functionRequests sampleSymbolsMap
      (getCompileUnits zeros (fun _ ↦ 0) 0 0 [sampleUnit]) = [] := by decide +kernel
  have hone : functionRequests sampleSymbolsMap
      (getCompileUnits ones (fun _ ↦ 0) 0 0 [sampleUnit]) =
        [⟨"f".toList, 0x1000, "function_call".toList, 0, 0⟩] := by decide +kernel
  rw [hnone, hone] at hruns
  have hset := congrArg (Option.map fun r ↦ (r.1.1 0x1000).isSome) hruns
  revert hset
  decide

end ArgsDebugger
