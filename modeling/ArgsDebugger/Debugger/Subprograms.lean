import ArgsDebugger.CompileUnit.FreshFields
import ArgsDebugger.Debugger.CallTrace

/-!
# From the debug information to the reports

`get_compile_units` and `Debugger::run` in one. Which addresses get a breakpoint, and which calls
of the native run are reported, is told from the attributes of the DIEs and the symbols alone,
over the records that `process_cu_tree` makes of them on the way.
-/

namespace ArgsDebugger

open Lib

section Attributes

/-- The text of the last attribute with the name. -/
def Die.lastText (node : Die) (attr : DwAt) : Option Text :=
  (node.attributes.filter fun a ↦ a.1 = attr).getLast?.map (·.2)

/-- The number that the last attribute with the name spells, or another one without it. -/
def Die.lastNumber (node : Die) (attr : DwAt) (n : Int) : Int :=
  ((node.lastText attr).bind fun text ↦ numeral text 0).getD n

/-- The name of a function. -/
def Die.functionName (node : Die) : Text := (node.lastText .name).getD []

/-- The line of a function; a record has a line of its own before. -/
def Die.functionLine (fresh : Int → DatatypeEntry) (node : Die) : Int :=
  node.lastNumber .declLine (fresh node.sectionOffset).declLine

/-- The address of a function: its low address, or that of the function with its name in the
debugger's own process. -/
def Die.functionAddress (getFuncAddr : Text → Word) (node : Die) : Word :=
  if BitVec.ofInt 64 (node.lastNumber .lowPc 0) = 0 ∧ node.lastNumber .inline 0 < 1 then
    getFuncAddr node.functionName
  else BitVec.ofInt 64 (node.lastNumber .lowPc 0)

variable {setter : DwAt → Text → DatatypeEntry → Except Failure DatatypeEntry} {node : Die}
  {attr : DwAt} {dt dt' : DatatypeEntry} {second : Text} {τ : Type}

variable (attr) in
/-- The last of the attributes that are stored in a field has the say. -/
theorem decode_last (get : DatatypeEntry → τ) (value : Text → Option τ)
    (hstore : ∀ second dt dt', setter attr second dt = .ok dt' → value second = some (get dt'))
    (hother : ∀ first second dt dt', first ≠ attr → setter first second dt = .ok dt' →
      get dt' = get dt)
    (h : node.decode setter dt = .ok dt') :
    get dt' = ((node.lastText attr).bind value).getD (get dt) := by
  unfold Die.decode at h
  unfold Die.lastText
  generalize node.attributes = attributes at h ⊢
  induction attributes using List.reverseRecOn generalizing dt' with
  | nil =>
    cases h
    rfl
  | append_singleton attributes last ih =>
    rw [List.foldlM_append] at h
    obtain ⟨before, hbefore, h⟩ := bind_eq_ok.mp h
    obtain ⟨after, hlast, h⟩ := foldlM_cons_eq_ok h
    cases h
    rw [List.filter_append]
    by_cases hattr : last.1 = attr
    · have hvalue : value last.2 = some (get dt') := by
        apply hstore last.2 before
        rw [← hattr]
        exact hlast
      rw [List.filter_cons_of_pos (by simpa using hattr), List.filter_nil,
        List.getLast?_concat, Option.map_some, Option.bind_some, hvalue, Option.getD_some]
    · rw [List.filter_cons_of_neg (by simpa using hattr), List.filter_nil, List.append_nil,
        hother _ _ _ _ hattr hlast]
      exact ih hbefore

/-- A number of a function is the one that its last attribute spells. -/
theorem decode_number {n : Int} (get : DatatypeEntry → τ) (store : Int → τ)
    (hnumber : functionNumber attr = some .plain)
    (hget : ∀ second v dt, get (writeDatatype attr second v dt) = store v)
    (hother : ∀ first second v dt, first ≠ attr → get (writeDatatype first second v dt) = get dt)
    (hdt : get dt = store n) (h : node.decode addFunctionField dt = .ok dt') :
    get dt' = store (node.lastNumber attr n) := by
  rw [decode_last attr get (fun text ↦ (numeral text 0).map store) ?_ ?_ h, hdt, Die.lastNumber]
  · cases node.lastText attr with
    | none => rfl
    | some text =>
      rw [Option.bind_some, Option.bind_some]
      cases numeral text 0 <;> rfl
  · intro second dt dt' hset
    rw [(setsFields_addFunctionField.numbers attr second dt _ hnumber).2] at hset
    obtain ⟨v, hv, rfl⟩ := map_eq_ok.mp hset
    have hnumeral : numeral second 0 = some v := (stol_eq_ok_iff.mp hv).1
    rw [hnumeral, Option.map_some, hget]
  · intro first second dt dt' hne
    exact setsFields_addFunctionField.keeps get fun v ↦ hother first second v dt hne

/-- What the attributes of a function make of its name and its numbers. -/
theorem fields_of_decode {low : Int} (hlow : dt.lowPc = BitVec.ofInt 64 low)
    (h : node.decode addFunctionField dt = .ok dt') :
    dt'.name = (node.lastText .name).getD dt.name ∧
      dt'.declLine = node.lastNumber .declLine dt.declLine ∧
      dt'.inline = node.lastNumber .inline dt.inline ∧
      dt'.lowPc = BitVec.ofInt 64 (node.lastNumber .lowPc low) := by
  refine ⟨?_, ?_, ?_, ?_⟩
  · rw [decode_last .name (·.name) some ?_ ?_ h, Option.bind_fun_some]
    · intro second dt dt' hset
      cases hset
      rfl
    · intro first second dt dt' hne hset
      refine setsFields_addFunctionField.keeps (·.name) (fun v ↦ ?_) hset
      cases first <;> first | exact absurd rfl hne | rfl
  · apply decode_number (·.declLine) id rfl (fun _ _ _ ↦ rfl) ?_ rfl h
    intro first second v dt hne
    cases first <;> first | exact absurd rfl hne | rfl
  · apply decode_number (·.inline) id rfl (fun _ _ _ ↦ rfl) ?_ rfl h
    intro first second v dt hne
    cases first <;> first | exact absurd rfl hne | rfl
  · apply decode_number (·.lowPc) (BitVec.ofInt 64) rfl (fun _ _ _ ↦ rfl) ?_ hlow h
    intro first second v dt hne
    cases first <;> first | exact absurd rfl hne | rfl

/-- The name, the line and the address of a function's record are those of its DIE. -/
theorem fields_of_readFunction {fresh : Int → DatatypeEntry} {getFuncAddr : Text → Word}
    {datatypes : List Datatype} (h : readFunction fresh getFuncAddr datatypes node = .ok dt') :
    dt'.name = node.functionName ∧ dt'.declLine = node.functionLine fresh ∧
      dt'.lowPc = node.functionAddress getFuncAddr := by
  obtain ⟨dt, hdt, rfl⟩ := map_eq_ok.mp h
  have hzero : (node.openFunction fresh).lowPc = BitVec.ofInt 64 0 := rfl
  obtain ⟨hname, hline, hinline, hlow⟩ := fields_of_decode hzero hdt
  obtain ⟨hname', hline', hlow'⟩ := closeFunction_fields getFuncAddr datatypes dt
  refine ⟨hname'.trans hname, hline'.trans hline, ?_⟩
  rw [hlow', hlow, hinline, hname]
  rfl

end Attributes

section Entries

variable (fresh : Int → DatatypeEntry) (getFuncAddr : Text → Word) (sections : List ElfSection)

/-- The DIE is that of a function with a name and a line at the address, with a func symbol
there. -/
structure Die.BeginsAt (node : Die) (a : Word) : Prop where
  tag : node.tag = .subprogram
  address : node.functionAddress getFuncAddr = a
  nonzero : a ≠ 0
  name : node.functionName ≠ []
  line : node.functionLine fresh ≠ 0
  symbol : ∃ sym ∈ sections.flatMap ElfSection.read, sym.symbolType = "func".toList ∧
    sym.symbolValue = a ∧ 0 < a.toInt

/-- The subprograms right below the root of a unit. -/
def subprograms (root : RoseTree Die) : List (RoseTree Die) :=
  root.children.filter fun t ↦ t.label.tag == .subprogram

/-- A subprogram begins at the address, in a unit whose texts fit. -/
def SubprogramAt (roots : List (RoseTree Die)) (a : Word) : Prop :=
  ∃ root ∈ roots, TextsFit root ∧ ∃ t ∈ subprograms root,
    t.label.BeginsAt fresh getFuncAddr sections a

/-- The record has the place of such a subprogram: that of its unit among those whose texts fit,
and its own in the unit. -/
def SubprogramOf (roots : List (RoseTree Die)) (a : Word) (bp : Breakpoint) : Prop :=
  ∃ (cuIdx fnIdx : Nat) (root t : RoseTree Die),
    (roots.filter fun root ↦ TextsFit root)[cuIdx]? = some root ∧
    (subprograms root)[fnIdx]? = some t ∧ t.label.BeginsAt fresh getFuncAddr sections a ∧
    bp.bpAddress = a ∧ bp.cuIndex = toInt32 cuIdx ∧ bp.fnIndex = toInt32 fnIdx

variable {fresh getFuncAddr sections}

/-- The entries of the functions are those of the subprograms. -/
theorem map_node_functionEntries (root : RoseTree Die) :
    (functionEntries (withLater root.children)).map (·.node) =
      (subprograms root).map RoseTree.label := by
  have hnode (t : RoseTree Die) (later : Bool) : (functionEntry t later).node = t.label := by
    unfold functionEntry
    split <;> rfl
  unfold subprograms
  conv_rhs => rw [← map_fst_withLater root.children]
  rw [functionEntries, List.map_map, List.filter_map, List.map_map]
  apply List.map_congr_left
  intro t _
  exact hnode t.1 t.2

/-- A record that was read from a DIE qualifies exactly when its DIE says so. -/
theorem qualifies_iff {node : Die} {func : Datatype} (htag : node.tag = .subprogram)
    (hread : ReadFrom (readFunction fresh getFuncAddr) node func.toDatatypeEntry) (a : Word) :
    Qualifies (sections.flatMap ElfSection.read) func a ↔
      node.BeginsAt fresh getFuncAddr sections a := by
  obtain ⟨-, datatypes, hread⟩ := hread
  obtain ⟨hname, hline, hlow⟩ := fields_of_readFunction hread
  constructor
  · intro h
    exact ⟨htag, hlow ▸ h.lowPc, h.address, hname ▸ h.name, hline ▸ h.declLine, h.symbol⟩
  · intro h
    exact ⟨hlow ▸ h.address, h.nonzero, hname ▸ h.name, hline ▸ h.line, h.symbol⟩

variable {lowAddr highAddr : Word} {roots : List (RoseTree Die)}

/-- The functions of the recorded units are read from the subprograms in their places. -/
theorem exists_subprogram {cuIdx fnIdx : Nat} {func : Datatype}
    (h : FunctionAt (getCompileUnits fresh getFuncAddr lowAddr highAddr roots) cuIdx fnIdx func) :
    ∃ root t, (roots.filter fun root ↦ TextsFit root)[cuIdx]? = some root ∧
      (subprograms root)[fnIdx]? = some t ∧
      ReadFrom (readFunction fresh getFuncAddr) t.label func.toDatatypeEntry := by
  obtain ⟨cu, hcu, hfunc⟩ := h
  obtain ⟨root, hroot, hunit⟩ :=
    forall₂_getElem? (forall₂_unitOf fresh getFuncAddr lowAddr highAddr roots).flip hcu
  obtain ⟨e, he, hread⟩ := forall₂_getElem? hunit.functions.flip hfunc
  have hlabel : ((subprograms root).map RoseTree.label)[fnIdx]? = some e.node := by
    rw [← map_node_functionEntries, List.getElem?_map, he]
    rfl
  rw [List.getElem?_map] at hlabel
  obtain ⟨t, ht, hnode⟩ := Option.map_eq_some_iff.mp hlabel
  exact ⟨root, t, hroot, ht, hnode ▸ hread.node⟩

/-- Every subprogram has a function that was read from it. -/
theorem exists_functionAt {root t : RoseTree Die} (hroot : root ∈ roots) (hfit : TextsFit root)
    (ht : t ∈ subprograms root) :
    ∃ cuIdx fnIdx func,
      FunctionAt (getCompileUnits fresh getFuncAddr lowAddr highAddr roots) cuIdx fnIdx func ∧
      ReadFrom (readFunction fresh getFuncAddr) t.label func.toDatatypeEntry := by
  have hmem : root ∈ roots.filter fun root ↦ TextsFit root :=
    List.mem_filter.mpr ⟨hroot, decide_eq_true hfit⟩
  obtain ⟨cu, hcu, hunit⟩ :=
    (forall₂_mem (forall₂_unitOf fresh getFuncAddr lowAddr highAddr roots)).1 root hmem
  have hlabel : t.label ∈ (functionEntries (withLater root.children)).map (·.node) := by
    rw [map_node_functionEntries]
    exact List.mem_map_of_mem ht
  obtain ⟨e, he, hnode⟩ := List.mem_map.mp hlabel
  obtain ⟨func, hfunc, hread⟩ := (forall₂_mem hunit.functions).1 e he
  obtain ⟨cuIdx, hcuIdx⟩ := List.getElem?_of_mem hcu
  obtain ⟨fnIdx, hfnIdx⟩ := List.getElem?_of_mem hfunc
  exact ⟨cuIdx, fnIdx, func, ⟨cu, hcuIdx, hfnIdx⟩, hnode ▸ hread.node⟩

theorem tag_of_mem_subprograms {root t : RoseTree Die} (h : t ∈ subprograms root) :
    t.label.tag = .subprogram := by
  simpa using (List.mem_filter.mp h).2

/-- The entries of the functions are the addresses where subprograms begin. -/
theorem isEntry_iff_subprogramAt (a : Word) :
    IsEntry sections (getCompileUnits fresh getFuncAddr lowAddr highAddr roots) a ↔
      SubprogramAt fresh getFuncAddr sections roots a := by
  constructor
  · rintro ⟨cuIdx, fnIdx, func, hat, hq⟩
    obtain ⟨root, t, hroot, ht, hread⟩ := exists_subprogram hat
    have hmem := List.mem_of_getElem? ht
    obtain ⟨hroot, hfit⟩ := List.mem_filter.mp (List.mem_of_getElem? hroot)
    exact ⟨root, hroot, of_decide_eq_true hfit, t, hmem,
      (qualifies_iff (tag_of_mem_subprograms hmem) hread a).mp hq⟩
  · rintro ⟨root, hroot, hfit, t, ht, hbegins⟩
    obtain ⟨cuIdx, fnIdx, func, hat, hread⟩ := exists_functionAt hroot hfit ht
    exact ⟨cuIdx, fnIdx, func, hat, (qualifies_iff (tag_of_mem_subprograms ht) hread a).mpr hbegins⟩

/-- A record of a function has the place of its subprogram. -/
theorem subprogramOf_of_reportOf {a : Word} {bp : Breakpoint}
    (h : ReportOf sections (getCompileUnits fresh getFuncAddr lowAddr highAddr roots) a bp) :
    SubprogramOf fresh getFuncAddr sections roots a bp := by
  obtain ⟨cuIdx, fnIdx, func, hat, hq, -, haddr, -, hcu, hfn, -⟩ := h
  obtain ⟨root, t, hroot, ht, hread⟩ := exists_subprogram hat
  have htag := tag_of_mem_subprograms (List.mem_of_getElem? ht)
  exact ⟨cuIdx, fnIdx, root, t, hroot, ht, (qualifies_iff htag hread a).mp hq, haddr, hcu, hfn⟩

end Entries

section Run

variable {κ : Type} {fresh : Int → DatatypeEntry} {getFuncAddr : Text → Word}
  {sections : List ElfSection} {lowAddr highAddr : Word} {roots : List (RoseTree Die)}

open Classical in
/-- The calls of subprograms among the first instructions of a native run, by their positions. -/
noncomputable def Cpu.subprogramSteps (fresh : Int → DatatypeEntry) (getFuncAddr : Text → Word)
    (sections : List ElfSection) (roots : List (RoseTree Die)) (cpu : Cpu κ) (t : Tracee κ)
    (n : Nat) : List Nat :=
  (List.range n).filter fun i ↦
    SubprogramAt fresh getFuncAddr sections roots (cpu.native t i).regs.rip

variable (lowAddr highAddr) in
theorem callSteps_eq_subprogramSteps (cpu : Cpu κ) (t : Tracee κ) (n : Nat) :
    cpu.callSteps sections (getCompileUnits fresh getFuncAddr lowAddr highAddr roots) t n =
      cpu.subprogramSteps fresh getFuncAddr sections roots t n := by
  classical
  apply List.filter_congr
  intro i _
  rw [decide_eq_decide]
  exact isEntry_iff_subprogramAt _

/-- A run of the debugger over the units of the debug information reports the calls of
subprograms: where the words at their addresses can be patched and none of the first `n` native
instructions is disturbed, a run of as many rounds as there are calls among these, or of fewer,
raises nothing, stops behind the last of the calls, has reported each of them, in order, by the
place of a subprogram that begins there, and leaves an `int3` where a subprogram begins and the
native memory elsewhere. -/
theorem run_reports_subprograms (cpu : Cpu κ) (info : Breakpoint → Tracee κ → Option Failure)
    {n fuel rounds : Nat} {t : Tracee κ}
    (hpatch : Patchable t.mem [] (functionRequests (getSymbols sections).symbolsMap
      (getCompileUnits fresh getFuncAddr lowAddr highAddr roots)))
    (hu : ∀ i < n, Undisturbed cpu info (functionTable sections
      (getCompileUnits fresh getFuncAddr lowAddr highAddr roots) t.mem) (cpu.native t i))
    (hfuel : n ≤ fuel)
    (hrounds : rounds ≤ (cpu.subprogramSteps fresh getFuncAddr sections roots t n).length) :
    ∃ table s i, (cpu.environment info fuel).run (run true (getSymbols sections).symbolsMap
        (getCompileUnits fresh getFuncAddr lowAddr highAddr roots) rounds) ⟨t, []⟩ =
          some ((table, none), s) ∧ i ≤ n ∧
      List.Forall₂ (fun j bp ↦
          SubprogramOf fresh getFuncAddr sections roots (cpu.native t j).regs.rip bp)
        ((cpu.subprogramSteps fresh getFuncAddr sections roots t n).take rounds) s.reports ∧
      s.tracee.regs = (cpu.native t i).regs ∧
      (∀ x, SubprogramAt fresh getFuncAddr sections roots x → s.tracee.mem.bytes x = int3) ∧
      ∀ x, ¬ SubprogramAt fresh getFuncAddr sections roots x →
        s.tracee.mem.bytes x = (cpu.native t i).mem.bytes x := by
  rw [← callSteps_eq_subprogramSteps lowAddr highAddr] at hrounds
  obtain ⟨i, hin, hcalls, hrun, -⟩ := exists_run_to_call hpatch hu hfuel hrounds
  obtain ⟨hentry, hother⟩ := bytes_shown_functionTable sections _ t (cpu.native t i)
  refine ⟨_, _, i, hrun, hin, ?_, rfl, ?_, ?_⟩
  · rw [← callSteps_eq_subprogramSteps lowAddr highAddr, ← hcalls]
    apply (callSteps_hits cpu t.mem t i).imp
    intro j bp hbp
    exact subprogramOf_of_reportOf (reportOf_functionTable hbp)
  · intro x hx
    exact hentry x ((isEntry_iff_subprogramAt x).mpr hx)
  · intro x hx
    exact hother x fun h ↦ hx ((isEntry_iff_subprogramAt x).mp h)

/-- A unit with a subprogram at address 16. -/
def calledUnit : RoseTree Die :=
  .node ⟨.compileUnit, 11, []⟩
    [.node ⟨.subprogram, 45,
      [(.name, "f".toList), (.declLine, "3".toList), (.lowPc, "0x10".toList)]⟩ []]

/-- The unit that is recorded of it. -/
abbrev calledUnits : List CompileUnit :=
  getCompileUnits (fun _ ↦ default) (fun _ ↦ 0) 0 0 [calledUnit]

theorem functionRequests_called :
    functionRequests (getSymbols sampleSections).symbolsMap calledUnits = [sampleCall] := rfl

/-- The call of the subprogram is reported by its place. -/
theorem run_reports_subprograms_sample :
    ∃ table s bp, (sampleCpu.environment (fun _ _ ↦ none) 1).run
        (run true (getSymbols sampleSections).symbolsMap calledUnits 1) ⟨sampleCaller, []⟩ =
          some ((table, none), s) ∧ s.reports = [bp] ∧
      SubprogramOf (fun _ ↦ default) (fun _ ↦ 0) sampleSections [calledUnit] 16 bp := by
  have hone := one_le_callSteps_sampleCall functionRequests_called
  have hcall := callSteps_sampleCall functionRequests_called
  rw [callSteps_eq_subprogramSteps] at hone hcall
  obtain ⟨table, s, -, hrun, -, hreports, -⟩ := run_reports_subprograms sampleCpu
    (fun _ _ ↦ none) (patchable_sampleCall functionRequests_called)
    (undisturbed_sampleCall functionRequests_called) (le_refl 1) hone
  rw [hcall] at hreports
  obtain ⟨bp, rest, hbp, hrest, hreported⟩ := List.forall₂_cons_left_iff.mp hreports
  rw [List.forall₂_nil_left_iff.mp hrest] at hreported
  exact ⟨table, s, bp, hrun, hreported, hbp⟩

end Run

end ArgsDebugger
