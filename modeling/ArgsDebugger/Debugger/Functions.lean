import ArgsDebugger.CompileUnit.Walk
import ArgsDebugger.Debugger.SetBreakpoints
import Mathlib.Data.List.Find

/-!
# Breakpoints at all functions

`Debugger::get_symbols` and `Debugger::set_all_function_breakpoints`,
`src/debugger_manager.cc:48–75,207–246`. A function of a compile unit gets a breakpoint when a
symbol of type func has its address. The map of symbols keeps the last symbol of an address,
the table of breakpoints the first function of one.
-/

namespace ArgsDebugger

/-- A symbol of a section, by the texts that `elf::to_string` gives its fields. -/
structure ElfSymbol where
  value : Word
  name : Text
  size : Int
  binding : Text
  type : Text
  shnxd : Text
  deriving DecidableEq, Repr

/-- The section types that `get_symbols` tells apart. -/
inductive SectionType where
  | symtab | dynsym | other
  deriving DecidableEq, Repr

/-- A section of the program's file. -/
structure ElfSection where
  type : SectionType
  name : Text
  symtab : List ElfSymbol
  deriving DecidableEq, Repr

/-- `m_symbols` and `m_symbols_map`. -/
structure Symbols where
  symbols : List Symbol
  symbolsMap : Word → Option Symbol

/-- A func symbol with a positive value. -/
def Symbol.isFunc (symbol : Symbol) : Bool :=
  symbol.symbolType == "func".toList && decide (0 < symbol.symbolValue.toInt)

/-- The symbols of a section in order, none for a section of another type. -/
def ElfSection.read (sec : ElfSection) : List Symbol :=
  if sec.type = .symtab ∨ sec.type = .dynsym then
    sec.symtab.zipIdx.map fun (d, index) ↦
      { symbolNum := toInt32 index, symbolValue := d.value, symbolName := d.name,
        symbolSize := toInt32 d.size, symbolIndex := d.shnxd, symbolBinding := d.binding,
        symbolType := d.type, symbolTable := sec.name }
  else []

/-- Enter one symbol. -/
def Symbols.add (st : Symbols) (symbol : Symbol) : Symbols where
  symbols := st.symbols ++ [symbol]
  symbolsMap :=
    if symbol.isFunc then Function.update st.symbolsMap symbol.symbolValue (some symbol)
    else st.symbolsMap

/-- `Debugger::get_symbols`, `src/debugger_manager.cc:48–75`. -/
def getSymbols (sections : List ElfSection) : Symbols :=
  (sections.flatMap ElfSection.read).foldl Symbols.add ⟨[], fun _ ↦ none⟩

/-- The last func symbol of a list with a value. -/
def lastFunc (symbols : List Symbol) (a : Word) : Option Symbol :=
  symbols.reverse.find? fun symbol ↦ symbol.isFunc && symbol.symbolValue == a

/-- The call of `set_breakpoint` for a function, if there is one. -/
def functionRequest (symbolsMap : Word → Option Symbol) (cuIdx fnIdx : Nat) (func : Datatype) :
    Option SetRequest :=
  if func.lowPc = 0 then none
  else if func.name = [] then none
  else if func.declLine = 0 then none
  else (symbolsMap func.lowPc).map fun sym ↦
    ⟨sym.symbolName, func.lowPc, "function_call".toList, toInt32 cuIdx, toInt32 fnIdx⟩

/-- The inner loop of `set_all_function_breakpoints`, from the function `fnIdx` of a unit on. -/
def setFunctionBreakpoints (symbolsMap : Word → Option Symbol) (cuIdx : Nat) (table : Table) :
    List (Datatype × Nat) → Dbg (Table × Option Failure)
  | [] => return (table, none)
  | (func, fnIdx) :: functions => do
    match functionRequest symbolsMap cuIdx fnIdx func with
    | none => setFunctionBreakpoints symbolsMap cuIdx table functions
    | some r =>
      let (table, raised) ←
        setBreakpoint6 table r.bpName r.addr r.breakpointType r.cuIndex r.fnIndex
      match raised with
      | some f => return (table, some f)
      | none => setFunctionBreakpoints symbolsMap cuIdx table functions

/-- The outer loop, from the unit `cuIdx` on. -/
def setUnitBreakpoints (symbolsMap : Word → Option Symbol) (table : Table) :
    List (CompileUnit × Nat) → Dbg (Table × Option Failure)
  | [] => return (table, none)
  | (cu, cuIdx) :: units => do
    let (table, raised) ← setFunctionBreakpoints symbolsMap cuIdx table cu.functions.zipIdx
    match raised with
    | some f => return (table, some f)
    | none => setUnitBreakpoints symbolsMap table units

/-- `Debugger::set_all_function_breakpoints`, `src/debugger_manager.cc:207–246`. -/
def setAllFunctionBreakpoints (symbolsMap : Word → Option Symbol) (units : List CompileUnit)
    (table : Table) : Dbg (Table × Option Failure) :=
  setUnitBreakpoints symbolsMap table units.zipIdx

/-- Every function of the units with its two indices, in the order of the loops. -/
def allFunctions (units : List CompileUnit) : List (Nat × Nat × Datatype) :=
  units.zipIdx.flatMap fun u ↦ u.1.functions.zipIdx.map fun f ↦ (u.2, f.2, f.1)

/-- The calls of `set_breakpoint`, in order. -/
def functionRequests (symbolsMap : Word → Option Symbol) (units : List CompileUnit) :
    List SetRequest :=
  (allFunctions units).filterMap fun c ↦ functionRequest symbolsMap c.1 c.2.1 c.2.2

/-- The unit with the index `cuIdx` has the function with the index `fnIdx`. -/
def FunctionAt (units : List CompileUnit) (cuIdx fnIdx : Nat) (func : Datatype) : Prop :=
  ∃ cu, units[cuIdx]? = some cu ∧ cu.functions[fnIdx]? = some func

/-- The function at an address, with a name and a line, and a func symbol there. -/
structure Qualifies (symbols : List Symbol) (func : Datatype) (a : Word) : Prop where
  lowPc : func.lowPc = a
  address : a ≠ 0
  name : func.name ≠ []
  declLine : func.declLine ≠ 0
  symbol : ∃ sym ∈ symbols, sym.symbolType = "func".toList ∧ sym.symbolValue = a ∧ 0 < a.toInt

/-- The order of the loops on pairs of indices. -/
def LoopLe (p q : Nat × Nat) : Prop := p.1 < q.1 ∨ p.1 = q.1 ∧ p.2 ≤ q.2

section Symbols

/-- The map keeps the last func symbol of an address. -/
theorem getSymbols_symbolsMap (sections : List ElfSection) (a : Word) :
    (getSymbols sections).symbolsMap a = lastFunc (sections.flatMap ElfSection.read) a := by
  unfold getSymbols lastFunc
  induction sections.flatMap ElfSection.read using List.reverseRecOn with
  | nil => rfl
  | append_singleton symbols symbol ih =>
    rw [List.foldl_append, List.foldl_cons, List.foldl_nil, List.reverse_append,
      List.reverse_singleton, List.singleton_append, List.find?_cons, Symbols.add]
    by_cases hfunc : symbol.isFunc = true
    · by_cases ha : symbol.symbolValue = a
      · simp [hfunc, ha]
      · have hbeq : (symbol.symbolValue == a) = false := beq_false_of_ne ha
        simp [hfunc, hbeq, Function.update_of_ne (Ne.symm ha), ih]
    · simp [hfunc, ih]

/-- An address has a last func symbol exactly when a func symbol has it as its value. -/
theorem isSome_lastFunc (symbols : List Symbol) (a : Word) :
    (lastFunc symbols a).isSome ↔ ∃ sym ∈ symbols,
      sym.symbolType = "func".toList ∧ sym.symbolValue = a ∧ 0 < a.toInt := by
  rw [lastFunc, List.isSome_find?, List.any_eq_true]
  constructor
  · rintro ⟨sym, hmem, hsym⟩
    simp only [Symbol.isFunc, Bool.and_eq_true, beq_iff_eq, decide_eq_true_eq] at hsym
    obtain ⟨⟨htype, hpos⟩, hvalue⟩ := hsym
    exact ⟨sym, List.mem_reverse.mp hmem, htype, hvalue, hvalue ▸ hpos⟩
  · rintro ⟨sym, hmem, htype, hvalue, hpos⟩
    refine ⟨sym, List.mem_reverse.mpr hmem, ?_⟩
    simp only [Symbol.isFunc, Bool.and_eq_true, beq_iff_eq, decide_eq_true_eq]
    exact ⟨⟨htype, hvalue ▸ hpos⟩, hvalue⟩

end Symbols

section Run

variable {κ : Type} (env : Environment κ) (symbolsMap : Word → Option Symbol)

/-- Setting two lists of breakpoints one after the other. -/
theorem run_setBreakpoints_append (table : Table) (rs rs' : List SetRequest) (s : Session κ) :
    env.run (setBreakpoints table (rs ++ rs')) s =
      (env.run (setBreakpoints table rs) s).bind fun r ↦
        match r.1.2 with
        | some f => some ((r.1.1, some f), r.2)
        | none => env.run (setBreakpoints r.1.1 rs') r.2 := by
  induction rs generalizing table s with
  | nil => rfl
  | cons r rs ih =>
    simp only [List.cons_append, setBreakpoints, run_seq, Option.bind_assoc]
    apply Option.bind_congr
    rintro ⟨⟨table', raised⟩, s'⟩ -
    cases raised with
    | some f => rfl
    | none => exact ih table' s'

/-- The inner loop sets the breakpoints of its requests. -/
theorem run_setFunctionBreakpoints (cuIdx : Nat) (table : Table)
    (functions : List (Datatype × Nat)) (s : Session κ) :
    env.run (setFunctionBreakpoints symbolsMap cuIdx table functions) s =
      env.run (setBreakpoints table
        (functions.filterMap fun f ↦ functionRequest symbolsMap cuIdx f.2 f.1)) s := by
  induction functions generalizing table s with
  | nil => rfl
  | cons f functions ih =>
    obtain ⟨func, fnIdx⟩ := f
    rw [setFunctionBreakpoints]
    cases hr : functionRequest symbolsMap cuIdx fnIdx func with
    | none =>
      simp only [List.filterMap_cons, hr]
      exact ih table s
    | some r =>
      simp only [List.filterMap_cons, hr, setBreakpoints, run_seq]
      apply Option.bind_congr
      rintro ⟨⟨table', raised⟩, s'⟩ -
      cases raised with
      | some f => rfl
      | none => exact ih table' s'

/-- The two loops set the breakpoints of all requests, in order. -/
theorem run_setAllFunctionBreakpoints (units : List CompileUnit) (table : Table)
    (s : Session κ) :
    env.run (setAllFunctionBreakpoints symbolsMap units table) s =
      env.run (setBreakpoints table (functionRequests symbolsMap units)) s := by
  unfold setAllFunctionBreakpoints functionRequests allFunctions
  induction units.zipIdx generalizing table s with
  | nil => rfl
  | cons u units ih =>
    obtain ⟨cu, cuIdx⟩ := u
    rw [List.flatMap_cons, List.filterMap_append, run_setBreakpoints_append, setUnitBreakpoints,
      run_seq, run_setFunctionBreakpoints, List.filterMap_map]
    apply Option.bind_congr
    rintro ⟨⟨table', raised⟩, s'⟩ -
    cases raised with
    | some f => rfl
    | none => exact ih table' s'

end Run

section Order

/-- The functions of the units are the entries of the list. -/
theorem mem_allFunctions {units : List CompileUnit} {cuIdx fnIdx : Nat} {func : Datatype} :
    (cuIdx, fnIdx, func) ∈ allFunctions units ↔ FunctionAt units cuIdx fnIdx func := by
  simp only [allFunctions, FunctionAt, List.mem_flatMap, List.mem_map, Prod.mk.injEq]
  constructor
  · rintro ⟨u, hu, f, hf, rfl, rfl, rfl⟩
    exact ⟨u.1, List.mem_zipIdx_iff_getElem?.mp hu, List.mem_zipIdx_iff_getElem?.mp hf⟩
  · rintro ⟨cu, hcu, hfunc⟩
    exact ⟨(cu, cuIdx), List.mem_zipIdx_iff_getElem?.mpr hcu, (func, fnIdx),
      List.mem_zipIdx_iff_getElem?.mpr hfunc, rfl, rfl, rfl⟩

private theorem pairwise_zipIdx {α : Type} (l : List α) :
    l.zipIdx.Pairwise fun p q ↦ p.2 < q.2 := by
  rw [← List.pairwise_map, List.zipIdx_map_snd]
  exact List.pairwise_lt_range' ..

/-- The list runs through the functions in the order of the loops. -/
theorem pairwise_allFunctions (units : List CompileUnit) :
    (allFunctions units).Pairwise fun p q ↦ LoopLe (p.1, p.2.1) (q.1, q.2.1) := by
  rw [allFunctions, List.pairwise_flatMap]
  constructor
  · intro u _
    rw [List.pairwise_map]
    exact (pairwise_zipIdx u.1.functions).imp fun h ↦ .inr ⟨rfl, h.le⟩
  · apply (pairwise_zipIdx units).imp
    intro u v h p hp q hq
    obtain ⟨f, -, rfl⟩ := List.mem_map.mp hp
    obtain ⟨g, -, rfl⟩ := List.mem_map.mp hq
    exact .inl h

/-- The first entry of an ordered list with a property is least among those with it. -/
theorem find?_least {α : Type} {R : α → α → Prop} (hrefl : ∀ a, R a a) {l : List α}
    (hl : l.Pairwise R) {p : α → Bool} {a b : α} (ha : l.find? p = some a) (hb : b ∈ l)
    (hpb : p b = true) : R a b := by
  obtain ⟨-, front, back, rfl, hfront⟩ := List.find?_eq_some_iff_append.mp ha
  rcases List.mem_append.mp hb with hmem | hmem
  · have hnot := hfront b hmem
    simp [hpb] at hnot
  · rcases List.mem_cons.mp hmem with rfl | hmem
    · exact hrefl b
    · exact (List.pairwise_cons.mp (List.pairwise_append.mp hl).2.1).1 b hmem

/-- A function has a request exactly when it qualifies, at its address. -/
theorem functionRequest_eq_some {sections : List ElfSection} {cuIdx fnIdx : Nat}
    {func : Datatype} {r : SetRequest} :
    functionRequest (getSymbols sections).symbolsMap cuIdx fnIdx func = some r ↔
      Qualifies (sections.flatMap ElfSection.read) func r.addr ∧
        r.breakpointType = "function_call".toList ∧ r.cuIndex = toInt32 cuIdx ∧
        r.fnIndex = toInt32 fnIdx ∧
        ∃ sym, lastFunc (sections.flatMap ElfSection.read) r.addr = some sym ∧
          r.bpName = sym.symbolName := by
  unfold functionRequest
  constructor
  · intro h
    split at h
    · cases h
    · next haddr =>
      split at h
      · cases h
      · next hname =>
        split at h
        · cases h
        · next hline =>
          obtain ⟨sym, hsym, rfl⟩ := Option.map_eq_some_iff.mp h
          rw [getSymbols_symbolsMap] at hsym
          have hfunc := (isSome_lastFunc _ func.lowPc).mp (by rw [hsym]; rfl)
          exact ⟨⟨rfl, haddr, hname, hline, hfunc⟩, rfl, rfl, rfl, sym, hsym, rfl⟩
  · rintro ⟨hq, htype, hcu, hfn, sym, hsym, hname⟩
    have haddr : func.lowPc ≠ 0 := by
      rw [hq.lowPc]
      exact hq.address
    rw [if_neg haddr, if_neg hq.name, if_neg hq.declLine, getSymbols_symbolsMap, hq.lowPc, hsym,
      Option.map_some, ← htype, ← hcu, ← hfn, ← hname]

end Order

section Result

variable {κ : Type} {sections : List ElfSection} {units : List CompileUnit}

/-- A function that qualifies for an address has a request for it. -/
theorem Qualifies.request {func : Datatype} {a : Word}
    (h : Qualifies (sections.flatMap ElfSection.read) func a) (cuIdx fnIdx : Nat) :
    ∃ r, functionRequest (getSymbols sections).symbolsMap cuIdx fnIdx func = some r ∧
      r.addr = a := by
  obtain ⟨sym, hsym⟩ := Option.isSome_iff_exists.mp ((isSome_lastFunc _ a).mpr h.symbol)
  exact ⟨⟨sym.symbolName, a, "function_call".toList, toInt32 cuIdx, toInt32 fnIdx⟩,
    functionRequest_eq_some.mpr ⟨h, rfl, rfl, rfl, sym, hsym, rfl⟩, rfl⟩

/-- An address is requested exactly when some function qualifies for it. -/
theorem requested_functionRequests (a : Word) :
    requested (functionRequests (getSymbols sections).symbolsMap units) a = true ↔
      ∃ cuIdx fnIdx func, FunctionAt units cuIdx fnIdx func ∧
        Qualifies (sections.flatMap ElfSection.read) func a := by
  simp only [requested, functionRequests, List.any_eq_true, List.mem_filterMap,
    decide_eq_true_eq]
  constructor
  · rintro ⟨r, ⟨⟨cuIdx, fnIdx, func⟩, hmem, hr⟩, rfl⟩
    exact ⟨cuIdx, fnIdx, func, mem_allFunctions.mp hmem, (functionRequest_eq_some.mp hr).1⟩
  · rintro ⟨cuIdx, fnIdx, func, hat, hq⟩
    obtain ⟨r, hr, haddr⟩ := hq.request cuIdx fnIdx
    exact ⟨r, ⟨(cuIdx, fnIdx, func), mem_allFunctions.mpr hat, hr⟩, haddr⟩

/-- The first request for an address comes from the least function that qualifies. -/
theorem find?_functionRequests {a : Word} {r : SetRequest}
    (h : (functionRequests (getSymbols sections).symbolsMap units).find?
      (fun r ↦ r.addr = a) = some r) :
    ∃ cuIdx fnIdx func, FunctionAt units cuIdx fnIdx func ∧
      functionRequest (getSymbols sections).symbolsMap cuIdx fnIdx func = some r ∧
      r.addr = a ∧
      ∀ cuIdx' fnIdx' func', FunctionAt units cuIdx' fnIdx' func' →
        Qualifies (sections.flatMap ElfSection.read) func' a →
        LoopLe (cuIdx, fnIdx) (cuIdx', fnIdx') := by
  have haddr : r.addr = a := by simpa using List.find?_some h
  rw [functionRequests, List.find?_filterMap] at h
  obtain ⟨⟨cuIdx, fnIdx, func⟩, hfind, hr⟩ := Option.bind_eq_some_iff.mp h
  refine ⟨cuIdx, fnIdx, func, mem_allFunctions.mp (List.mem_of_find?_eq_some hfind), hr, haddr, ?_⟩
  intro cuIdx' fnIdx' func' hat hq
  obtain ⟨r', hr', haddr'⟩ := hq.request cuIdx' fnIdx'
  exact find?_least (fun _ ↦ .inr ⟨rfl, le_rfl⟩) (pairwise_allFunctions units) hfind
    (mem_allFunctions.mpr hat) (by simp [hr', haddr'])

end Result

/-- The breakpoints at all functions: from an empty table, over words that can be patched, the
calls raise nothing; a record stands at exactly the addresses for which a function qualifies,
and it carries, as `int`s, the indices of the least such function, and the name of the last
func symbol there. -/
theorem setAllFunctionBreakpoints_table {κ : Type} (env : Environment κ)
    (sections : List ElfSection) (units : List CompileUnit) (s : Session κ)
    (hpatch : Patchable s.tracee.mem []
      (functionRequests (getSymbols sections).symbolsMap units)) :
    ∃ table s', env.run (setAllFunctionBreakpoints (getSymbols sections).symbolsMap units
        Table.empty) s = some ((table, none), s') ∧
      (∀ a, (table a).isSome ↔ ∃ cuIdx fnIdx func, FunctionAt units cuIdx fnIdx func ∧
        Qualifies (sections.flatMap ElfSection.read) func a) ∧
      ∀ a bp, table a = some bp → ∃ cuIdx fnIdx func, FunctionAt units cuIdx fnIdx func ∧
        Qualifies (sections.flatMap ElfSection.read) func a ∧
        (∀ cuIdx' fnIdx' func', FunctionAt units cuIdx' fnIdx' func' →
          Qualifies (sections.flatMap ElfSection.read) func' a →
          LoopLe (cuIdx, fnIdx) (cuIdx', fnIdx')) ∧
        bp.cuIndex = toInt32 cuIdx ∧ bp.fnIndex = toInt32 fnIdx ∧
        (cuIdx < 0x80000000 → bp.cuIndex = cuIdx) ∧ (fnIdx < 0x80000000 → bp.fnIndex = fnIdx) ∧
        ∃ sym, lastFunc (sections.flatMap ElfSection.read) a = some sym ∧
          bp.bpName = sym.symbolName := by
  let rs := functionRequests (getSymbols sections).symbolsMap units
  have hrun := (run_setBreakpoints_iff env s.tracee.mem.patched_nil.symm).mpr
    ⟨hpatch, rfl, rfl⟩
  refine ⟨_, _, (run_setAllFunctionBreakpoints ..).trans hrun, ?_, ?_⟩
  · intro a
    rw [isSome_tableOf]
    exact requested_functionRequests a
  · intro a bp hbp
    obtain ⟨r, hfind, rfl⟩ := Option.map_eq_some_iff.mp hbp
    obtain ⟨cuIdx, fnIdx, func, hat, hr, haddr, hleast⟩ := find?_functionRequests hfind
    obtain ⟨hq, -, hcu, hfn, hsym⟩ := functionRequest_eq_some.mp hr
    rw [haddr] at hq hsym
    exact ⟨cuIdx, fnIdx, func, hat, hq, hleast, hcu, hfn,
      fun h ↦ hcu.trans (toInt32_of_lt h), fun h ↦ hfn.trans (toInt32_of_lt h), hsym⟩

/-- A func symbol at address 16. -/
def sampleSections : List ElfSection :=
  [⟨.symtab, ".symtab".toList, [⟨16, "f".toList, 1, "global".toList, "func".toList, []⟩]⟩]

/-- A unit with a function at address 16. -/
def sampleFunctionUnit : CompileUnit :=
  { CompileUnit.fresh 0 0 with
    functions := [⟨{ (default : DatatypeEntry) with
      lowPc := 16, name := "f".toList, declLine := 3 }, [], []⟩] }

/-- Units without functions put the functions of the next unit behind their number. -/
theorem allFunctions_append {units : List CompileUnit} (h : ∀ cu ∈ units, cu.functions = [])
    (cu : CompileUnit) : allFunctions (units ++ [cu]) =
      cu.functions.zipIdx.map fun f ↦ (units.length, f.2, f.1) := by
  have hnil : units.zipIdx.flatMap
      (fun u ↦ u.1.functions.zipIdx.map fun f ↦ (u.2, f.2, f.1)) = [] := by
    rw [List.flatMap_eq_nil_iff]
    intro u hu
    rw [h u.1 (List.fst_mem_of_mem_zipIdx hu)]
    rfl
  rw [allFunctions, List.zipIdx_append, List.flatMap_append, hnil]
  simp

/-- Behind 2147483648 units the index of a unit does not fit an `int`. -/
theorem setAllFunctionBreakpoints_index_overflow :
    ¬ ∀ (units : List CompileUnit) (table : Table) (s' : Session Unit),
      Patchable sampleSession.tracee.mem []
        (functionRequests (getSymbols sampleSections).symbolsMap units) →
      sampleEnvironment.run (setAllFunctionBreakpoints (getSymbols sampleSections).symbolsMap
        units Table.empty) sampleSession = some ((table, none), s') →
      ∀ a bp, table a = some bp → ∃ (cuIdx fnIdx : Nat) (func : Datatype),
        bp.cuIndex = cuIdx ∧ bp.fnIndex = fnIdx ∧ FunctionAt units cuIdx fnIdx func := by
  intro h
  obtain ⟨units, hlen, hunits⟩ : ∃ units : List CompileUnit, units.length = 0x80000000 ∧
      ∀ cu ∈ units, cu.functions = [] :=
    ⟨List.replicate 0x80000000 (CompileUnit.fresh 0 0), List.length_replicate ..,
      fun cu hcu ↦ by rw [List.eq_of_mem_replicate hcu]; rfl⟩
  have hall := allFunctions_append hunits sampleFunctionUnit
  rw [hlen] at hall
  let r : SetRequest := ⟨"f".toList, 16, "function_call".toList, -0x80000000, 0⟩
  have hreqs : functionRequests (getSymbols sampleSections).symbolsMap
      (units ++ [sampleFunctionUnit]) = [r] := by
    rw [functionRequests, hall]
    rfl
  have hpatch : Patchable sampleSession.tracee.mem [] [r] :=
    patchable_cons.mpr ⟨fun _ ↦ by decide, Patchable.nil _ _⟩
  have hrun := (run_setBreakpoints_iff sampleEnvironment
    sampleSession.tracee.mem.patched_nil.symm).mpr ⟨hpatch, rfl, rfl⟩
  rw [← hreqs] at hpatch hrun
  obtain ⟨cuIdx, -, -, hcu, -⟩ := h _ _ _ hpatch
    ((run_setAllFunctionBreakpoints ..).trans hrun) 16 (r.record sampleSession.tracee.mem.bytes)
    (by rw [hreqs]; rfl)
  have hneg : (-0x80000000 : Int) = cuIdx := hcu
  omega

/-- Two func symbols at address 16, in different sections. -/
def sharedSections : List ElfSection :=
  [⟨.dynsym, ".dynsym".toList, [⟨16, "f".toList, 1, "global".toList, "func".toList, []⟩]⟩,
    ⟨.symtab, ".symtab".toList, [⟨0, [], 0, "local".toList, "notype".toList, []⟩,
      ⟨16, "g".toList, 1, "local".toList, "func".toList, []⟩]⟩]

/-- A function at address 16. -/
def functionOfLine (declLine : Int) : Datatype :=
  ⟨{ (default : DatatypeEntry) with lowPc := 16, name := "f".toList, declLine := declLine }, [], []⟩

/-- Three functions at address 16, the first of which has no line and the last of which is in
another unit. -/
def sharedUnits : List CompileUnit :=
  [{ CompileUnit.fresh 0 0 with functions := [functionOfLine 0, functionOfLine 3] },
    { CompileUnit.fresh 0 0 with functions := [functionOfLine 4] }]

theorem qualifies_shared {declLine : Int} (hline : declLine ≠ 0) :
    Qualifies (sharedSections.flatMap ElfSection.read) (functionOfLine declLine) 16 :=
  ⟨rfl, by decide, (by decide : "f".toList ≠ []), hline, _, List.mem_cons_self, rfl, rfl,
    by decide⟩

/-- The record at a shared address is that of the second function, under the name of the last
symbol. -/
theorem setAllFunctionBreakpoints_table_sample :
    ∃ table s' bp, sampleEnvironment.run (setAllFunctionBreakpoints
        (getSymbols sharedSections).symbolsMap sharedUnits Table.empty) sampleSession =
          some ((table, none), s') ∧
      table 16 = some bp ∧ bp.cuIndex = 0 ∧ bp.fnIndex = 1 ∧ bp.bpName = "g".toList := by
  have hpatch : Patchable sampleSession.tracee.mem []
      (functionRequests (getSymbols sharedSections).symbolsMap sharedUnits) :=
    patchable_cons.mpr ⟨fun _ ↦ by decide, patchable_cons.mpr ⟨fun _ ↦ by decide,
      Patchable.nil _ _⟩⟩
  obtain ⟨table, s', hrun, hiff, hrecord⟩ := setAllFunctionBreakpoints_table sampleEnvironment
    sharedSections sharedUnits sampleSession hpatch
  have hqualifies : Qualifies _ (functionOfLine 3) 16 := qualifies_shared (by decide)
  obtain ⟨bp, hbp⟩ := Option.isSome_iff_exists.mp
    ((hiff 16).mpr ⟨0, 1, _, ⟨_, rfl, rfl⟩, hqualifies⟩)
  obtain ⟨cuIdx, fnIdx, func, ⟨cu, hcu, hfunc⟩, hq, hleast, hcuIndex, hfnIndex, -, -, sym, hsym,
    hname⟩ := hrecord 16 bp hbp
  have hle : LoopLe (cuIdx, fnIdx) (0, 1) := hleast 0 1 _ ⟨_, rfl, rfl⟩ hqualifies
  have hplace : cuIdx = 0 ∧ (fnIdx = 0 ∨ fnIdx = 1) := by
    unfold LoopLe at hle
    dsimp only at hle
    omega
  obtain ⟨rfl, rfl | rfl⟩ := hplace
  · -- the first function has no line
    cases hcu
    cases hfunc
    exact absurd rfl hq.declLine
  · cases hsym
    exact ⟨table, s', bp, hrun, hbp, hcuIndex, hfnIndex, hname⟩

end ArgsDebugger
