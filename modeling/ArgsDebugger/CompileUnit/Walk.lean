import ArgsDebugger.CompileUnit.Fields
import ArgsDebugger.Lib.RoseTree
import Mathlib.Data.List.Forall2

/-!
# The walk over a compile unit's DIEs

`CompileUnitManager::process_cu_tree`, `src/compile_unit.cc:228–408`. One recursive pass
records the DIEs at depth 2 and collects the fields and parameters below them in a pending
list that all levels share. The list is attached to the last record when the next DIE of
depth 2 begins, and to a function already at an inlined subroutine below it.

`Outline` is the same walk with DIEs in place of their records. `Outlines` relates the two,
so that what the walk collects can be computed on lists of DIEs, apart from decoding.
-/

namespace ArgsDebugger

open Lib

/-- The values of `prev_tag`: the empty string, `"functions"` and `"datatype"`. -/
inductive PrevTag where
  | none | functions | datatype
  deriving DecidableEq, Repr

/-- The state that all calls of `process_cu_tree` share. -/
structure WalkState where
  compileUnit : CompileUnit
  members : List DatatypeEntry
  prevTag : PrevTag
  deriving DecidableEq, Repr

/-- A `compile_unit_t` as `get_compile_units` declares it: its addresses are not initialised. -/
def CompileUnit.fresh (lowAddr highAddr : Word) : CompileUnit :=
  ⟨[], [], lowAddr, highAddr, [], [], [], []⟩

/-- The arguments of the first call of `process_cu_tree`. -/
def WalkState.start (lowAddr highAddr : Word) : WalkState :=
  ⟨CompileUnit.fresh lowAddr highAddr, [], .none⟩

/-- A DIE that becomes a parameter of the function it is saved to. -/
def DwTag.isParameter (tag : DwTag) : Bool :=
  tag == .formalParameter || tag == .unspecifiedParameters

/-- A DIE that is collected below depth 2. -/
def DwTag.isField (tag : DwTag) : Bool :=
  tag.isParameter || tag == .variable || tag == .member

/-- Attach pending members to a function, parameters apart from variables. -/
def Datatype.saveFields (dt : Datatype) (members : List DatatypeEntry) : Datatype :=
  { dt with
    parameters := dt.parameters ++ members.filter fun i ↦ i.typeName.isParameter
    members := dt.members ++ members.filter fun i ↦ i.typeName == .variable }

/-- Change the last record of a vector, which must have one. -/
def modifyLast {α : Type} (f : α → α) (l : List α) : Except Failure (List α) :=
  match l.getLast? with
  | some a => .ok (l.dropLast ++ [f a])
  | none => .error .badIndex

/-- Save the pending members to the record that `prev_tag` names and clear both
(`src/compile_unit.cc:246–272,344–370`). -/
def saveMembers (s : WalkState) : Except Failure WalkState := do
  let compileUnit ← match s.prevTag with
    | .functions => do
      let functions ← modifyLast (·.saveFields s.members) s.compileUnit.functions
      pure { s.compileUnit with functions }
    | .datatype => do
      let datatypes ← modifyLast (fun dt ↦ { dt with members := s.members })
        s.compileUnit.datatypes
      pure { s.compileUnit with datatypes }
    | .none => pure s.compileUnit
  return ⟨compileUnit, [], .none⟩

/-- The flush when a DIE of depth 2 begins, `src/compile_unit.cc:245–273`. -/
def flushMembers (s : WalkState) : Except Failure WalkState :=
  if s.members ≠ [] then saveMembers s else return s

section Walk

variable (fresh : Int → DatatypeEntry) (getFuncAddr : Text → Word)

/-- `process_cu_tree` at depth 1, `src/compile_unit.cc:235–241`. -/
def startUnit (node : Die) (s : WalkState) : Except Failure WalkState := do
  if node.tag = .compileUnit then
    let compileUnit ← node.decode setNewCu s.compileUnit
    return { s with compileUnit, members := [] }
  else return s

/-- `process_cu_tree` at depth 2 behind the flush, `src/compile_unit.cc:275–334`. -/
def recordNode (node : Die) (s : WalkState) : Except Failure WalkState := do
  let cu := s.compileUnit
  if node.tag = .subprogram then
    let func ← readFunction fresh getFuncAddr cu.datatypes node
    return { s with
      compileUnit := { cu with functions := cu.functions ++ [⟨func, [], []⟩] }
      prevTag := .functions }
  else if node.tag = .variable then
    let globalVariable ← readGlobalVariable fresh cu.datatypes node
    return { s with
      compileUnit := { cu with
        globalVariables := cu.globalVariables ++ [⟨globalVariable, [], []⟩] }
      prevTag := .none }
  else
    let datatype ← readDatatype fresh cu.datatypes node
    return { s with
      compileUnit := { cu with datatypes := cu.datatypes ++ [⟨datatype, [], []⟩] }
      prevTag := .datatype }

/-- `process_cu_tree` below depth 2, `src/compile_unit.cc:337–404`. The branch for members does
what the one for parameters and variables does, the one for lexical blocks nothing. -/
def collectNode (node : Die) (s : WalkState) : Except Failure WalkState := do
  if node.tag = .inlinedSubroutine then
    if s.prevTag = .functions ∧ s.members ≠ [] then saveMembers s else return s
  else if node.tag.isField then
    let datatype ← readDatatype fresh s.compileUnit.datatypes node
    return { s with members := s.members ++ [datatype] }
  else return s

/-- `process_cu_tree` without the recursion, `src/compile_unit.cc:235–404`. -/
def processNode (depth : Nat) (node : Die) (s : WalkState) : Except Failure WalkState := do
  if depth = 1 then startUnit node s
  else if depth = 2 then
    let s ← flushMembers s
    recordNode fresh getFuncAddr node s
  else if 2 < depth then collectNode fresh node s
  else return s

/-- `CompileUnitManager::process_cu_tree`, `src/compile_unit.cc:228–408`. -/
def processCuTree (node : RoseTree Die) (depth : Nat) (s : WalkState) :
    Except Failure WalkState :=
  RoseTree.walk (processNode fresh getFuncAddr) depth s node

/-- `CompileUnitManager::get_compile_units`, `src/compile_unit.cc:11–26`. A unit on which the
walk raises is dropped. -/
def getCompileUnits (lowAddr highAddr : Word) (roots : List (RoseTree Die)) :
    List CompileUnit :=
  roots.filterMap fun root ↦
    match processCuTree fresh getFuncAddr root 1 (WalkState.start lowAddr highAddr) with
    | .ok s => some s.compileUnit
    | .error _ => none

/-- No attribute that the walk decodes raises: those of the unit into the fields of the unit,
those of a DIE at depth 2 as its tag asks, and those of the fields below. -/
def DecodesAt (compileUnit : CompileUnit) (depth : Nat) (node : Die) : Prop :=
  if depth = 1 then
    node.tag = .compileUnit → (node.decode setNewCu compileUnit).isOk = true
  else if depth = 2 ∧ node.tag = .subprogram then
    (node.decode addFunctionField (node.openFunction fresh)).isOk = true
  else if depth = 2 ∧ node.tag = .variable then
    (node.decode addGlobalVariableField (node.openRecord fresh)).isOk = true
  else
    depth = 2 ∨ node.tag.isField = true →
      (node.decode (addDatatypeField node.tag) (node.openRecord fresh)).isOk = true

instance (compileUnit : CompileUnit) (depth : Nat) (node : Die) :
    Decidable (DecodesAt fresh compileUnit depth node) :=
  inferInstanceAs (Decidable (ite _ _ _))

/-- No attribute decode of the walk over a unit raises. -/
def Decodes (lowAddr highAddr : Word) (root : RoseTree Die) : Prop :=
  ∀ e ∈ root.preorder 1, DecodesAt fresh (CompileUnit.fresh lowAddr highAddr) e.1 e.2

instance (lowAddr highAddr : Word) (root : RoseTree Die) :
    Decidable (Decodes fresh lowAddr highAddr root) :=
  inferInstanceAs (Decidable (∀ e ∈ root.preorder 1, _))

end Walk

section Inversion

variable {fresh : Int → DatatypeEntry} {getFuncAddr : Text → Word} {depth : Nat} {node : Die}
  {s s' : WalkState}

/-- The visits of a DIE that return, by its depth. -/
inductive Visit (fresh : Int → DatatypeEntry) (getFuncAddr : Text → Word) (node : Die) :
    Nat → WalkState → WalkState → Prop
  | unit {s s' : WalkState} (h : startUnit node s = .ok s') :
      Visit fresh getFuncAddr node 1 s s'
  | record {s s₁ s' : WalkState} (hflush : flushMembers s = .ok s₁)
      (h : recordNode fresh getFuncAddr node s₁ = .ok s') : Visit fresh getFuncAddr node 2 s s'
  | collect {depth : Nat} {s s' : WalkState} (hdepth : 2 < depth)
      (h : collectNode fresh node s = .ok s') : Visit fresh getFuncAddr node depth s s'
  | outside {s : WalkState} : Visit fresh getFuncAddr node 0 s s

theorem visit_of_processNode (h : processNode fresh getFuncAddr depth node s = .ok s') :
    Visit fresh getFuncAddr node depth s s' := by
  unfold processNode at h
  split_ifs at h with h1 h2 h3
  · subst h1
    exact .unit h
  · subst h2
    obtain ⟨s₁, hflush, hrecord⟩ := bind_eq_ok.mp h
    exact .record hflush hrecord
  · exact .collect h3 h
  · cases h
    obtain rfl : depth = 0 := by omega
    exact .outside

/-- A DIE of depth 2 that is recorded was read as a function, a global variable or a datatype. -/
theorem recordNode_cases (h : recordNode fresh getFuncAddr node s = .ok s') :
    let cu := s.compileUnit
    (node.tag = .subprogram ∧ ∃ func, readFunction fresh getFuncAddr cu.datatypes node = .ok func ∧
      s' = { s with
        compileUnit := { cu with functions := cu.functions ++ [⟨func, [], []⟩] }
        prevTag := .functions }) ∨
    (node.tag = .variable ∧ ∃ globalVariable,
      readGlobalVariable fresh cu.datatypes node = .ok globalVariable ∧
      s' = { s with
        compileUnit := { cu with
          globalVariables := cu.globalVariables ++ [⟨globalVariable, [], []⟩] }
        prevTag := .none }) ∨
    ((node.tag ≠ .subprogram ∧ node.tag ≠ .variable) ∧ ∃ datatype,
      readDatatype fresh cu.datatypes node = .ok datatype ∧
      s' = { s with
        compileUnit := { cu with datatypes := cu.datatypes ++ [⟨datatype, [], []⟩] }
        prevTag := .datatype }) := by
  unfold recordNode at h
  dsimp only at h ⊢
  split_ifs at h with hsub hvar
  · obtain ⟨func, hfunc, hs'⟩ := bind_eq_ok.mp h
    cases hs'
    exact .inl ⟨hsub, func, hfunc, rfl⟩
  · obtain ⟨globalVariable, hglobal, hs'⟩ := bind_eq_ok.mp h
    cases hs'
    exact .inr (.inl ⟨hvar, globalVariable, hglobal, rfl⟩)
  · obtain ⟨datatype, hdatatype, hs'⟩ := bind_eq_ok.mp h
    cases hs'
    exact .inr (.inr ⟨⟨hsub, hvar⟩, datatype, hdatatype, rfl⟩)

/-- A DIE below depth 2 is read as a field, or saves the pending members at most. -/
theorem collectNode_cases (h : collectNode fresh node s = .ok s') :
    (node.tag.isField = true ∧ ∃ datatype,
      readDatatype fresh s.compileUnit.datatypes node = .ok datatype ∧
      s' = { s with members := s.members ++ [datatype] }) ∨
    (node.tag.isField = false ∧ (saveMembers s = .ok s' ∨ s' = s)) := by
  unfold collectNode at h
  split_ifs at h with hinl hsave hfield
  · have hnot : node.tag.isField = false := by
      rw [hinl]
      decide
    exact .inr ⟨hnot, .inl h⟩
  · have hnot : node.tag.isField = false := by
      rw [hinl]
      decide
    cases h
    exact .inr ⟨hnot, .inr rfl⟩
  · obtain ⟨datatype, hdatatype, hs'⟩ := bind_eq_ok.mp h
    cases hs'
    exact .inl ⟨hfield, datatype, hdatatype, rfl⟩
  · cases h
    exact .inr ⟨eq_false_of_ne_true hfield, .inr rfl⟩

end Inversion

/-- What the walk has collected at a DIE of depth 2. -/
structure Entry where
  node : Die
  parameters : List Die
  members : List Die
  deriving DecidableEq, Repr

/-- The state of the walk with DIEs in place of their records. -/
structure Outline where
  functions : List Entry
  globalVariables : List Entry
  datatypes : List Entry
  members : List Die
  prevTag : PrevTag
  deriving DecidableEq, Repr

/-- A DIE of depth 2 before anything is attached to it. -/
def Entry.bare (node : Die) : Entry := ⟨node, [], []⟩

/-- Attach pending DIEs to a function. -/
def Entry.saveFields (e : Entry) (members : List Die) : Entry :=
  ⟨e.node, e.parameters ++ members.filter (·.tag.isParameter),
    e.members ++ members.filter (·.tag == .variable)⟩

namespace Outline

def start : Outline := ⟨[], [], [], [], .none⟩

/-- Change the last entry of a list, if there is one. -/
def mapLast (f : Entry → Entry) (l : List Entry) : List Entry :=
  l.dropLast ++ (l.getLast?.map f).toList

/-- `saveMembers` on outlines. -/
def save (o : Outline) : Outline :=
  match o.prevTag with
  | .functions =>
    { o with
      functions := mapLast (·.saveFields o.members) o.functions
      members := []
      prevTag := .none }
  | .datatype =>
    { o with
      datatypes := mapLast (fun e ↦ ⟨e.node, e.parameters, o.members⟩) o.datatypes
      members := []
      prevTag := .none }
  | .none => { o with members := [], prevTag := .none }

/-- `flushMembers` on outlines. -/
def flush (o : Outline) : Outline := if o.members ≠ [] then o.save else o

/-- `recordNode` on outlines. -/
def record (o : Outline) (node : Die) : Outline :=
  if node.tag = .subprogram then
    { o with functions := o.functions ++ [.bare node], prevTag := .functions }
  else if node.tag = .variable then
    { o with globalVariables := o.globalVariables ++ [.bare node], prevTag := .none }
  else { o with datatypes := o.datatypes ++ [.bare node], prevTag := .datatype }

/-- `collectNode` on outlines. -/
def collect (o : Outline) (node : Die) : Outline :=
  if node.tag = .inlinedSubroutine then
    if o.prevTag = .functions ∧ o.members ≠ [] then o.save else o
  else if node.tag.isField then { o with members := o.members ++ [node] }
  else o

/-- `processNode` on outlines. -/
def step (o : Outline) (depth : Nat) (node : Die) : Outline :=
  if depth = 1 then o
  else if depth = 2 then o.flush.record node
  else if 2 < depth then o.collect node
  else o

end Outline

section Simulation

variable (fresh : Int → DatatypeEntry) (getFuncAddr : Text → Word)

/-- The record stands for the DIE and was read from it, over some state of the vector of
types. -/
def ReadFrom (read : List Datatype → Die → Except Failure DatatypeEntry) (node : Die)
    (dt : DatatypeEntry) : Prop :=
  dt.IsOf node ∧ ∃ datatypes, read datatypes node = .ok dt

/-- The records were read from the DIEs of a list of collected DIEs, in order. -/
abbrev FieldsRead (nodes : List Die) (dts : List DatatypeEntry) : Prop :=
  List.Forall₂ (ReadFrom (readDatatype fresh)) nodes dts

/-- The record was read from the DIE of the entry, and its vectors from the DIEs collected
there. -/
structure EntryRead (read : List Datatype → Die → Except Failure DatatypeEntry)
    (e : Entry) (dt : Datatype) : Prop where
  node : ReadFrom read e.node dt.toDatatypeEntry
  parameters : FieldsRead fresh e.parameters dt.parameters
  members : FieldsRead fresh e.members dt.members

/-- The outline of a state of the walk. -/
structure Outlines (o : Outline) (s : WalkState) : Prop where
  functions : List.Forall₂ (EntryRead fresh (readFunction fresh getFuncAddr)) o.functions
    s.compileUnit.functions
  globalVariables : List.Forall₂ (EntryRead fresh (readGlobalVariable fresh))
    o.globalVariables s.compileUnit.globalVariables
  datatypes : List.Forall₂ (EntryRead fresh (readDatatype fresh)) o.datatypes
    s.compileUnit.datatypes
  members : FieldsRead fresh o.members s.members
  prevTag : o.prevTag = s.prevTag
  lastFunction : o.prevTag = .functions → o.functions ≠ []
  lastDatatype : o.prevTag = .datatype → o.datatypes ≠ []

variable {fresh getFuncAddr}

/-- Filtering by tag commutes with reading. -/
theorem FieldsRead.filter {nodes : List Die} {dts : List DatatypeEntry}
    (h : FieldsRead fresh nodes dts) (p : DwTag → Bool) :
    FieldsRead fresh (nodes.filter fun node ↦ p node.tag) (dts.filter fun dt ↦ p dt.typeName) := by
  apply List.rel_filter _ h
  rintro node dt ⟨hof, -⟩
  simp only [hof.2]

private theorem modifyLast_cons_cons {α : Type} (f : α → α) (a b : α) (l : List α) :
    modifyLast f (a :: b :: l) = (modifyLast f (b :: l)).map (a :: ·) := by
  simp only [modifyLast, List.getLast?_cons_cons, List.dropLast_cons_cons]
  cases (b :: l).getLast? <;> rfl

/-- Changing the last entry and the last record by related updates keeps them related. -/
private theorem forall₂_modifyLast {R : Entry → Datatype → Prop} {f : Entry → Entry}
    {g : Datatype → Datatype} (hfg : ∀ e dt, R e dt → R (f e) (g dt)) {es : List Entry}
    {dts : List Datatype} (h : List.Forall₂ R es dts) (hne : es ≠ []) :
    ∃ dts', modifyLast g dts = .ok dts' ∧ List.Forall₂ R (Outline.mapLast f es) dts' := by
  induction h with
  | nil => exact absurd rfl hne
  | @cons e dt es dts hR h ih =>
    cases h with
    | nil => exact ⟨[g dt], rfl, .cons (hfg e dt hR) .nil⟩
    | @cons e₂ dt₂ es dts hR₂ h =>
      obtain ⟨dts', hok, hall⟩ := ih (List.cons_ne_nil e₂ es)
      refine ⟨dt :: dts', by rw [modifyLast_cons_cons, hok]; rfl, ?_⟩
      simp only [Outline.mapLast, List.dropLast_cons_cons, List.getLast?_cons_cons] at hall ⊢
      exact .cons hR hall

theorem Outlines.members_ne_nil {o : Outline} {s : WalkState}
    (h : Outlines fresh getFuncAddr o s) : o.members ≠ [] ↔ s.members ≠ [] := by
  rw [not_iff_not, ← List.length_eq_zero_iff, ← List.length_eq_zero_iff, h.members.length_eq]

/-- Saving the pending members succeeds and follows the outline. -/
theorem Outlines.save {o : Outline} {s : WalkState} (h : Outlines fresh getFuncAddr o s) :
    ∃ s', saveMembers s = .ok s' ∧ Outlines fresh getFuncAddr o.save s' := by
  cases hp : s.prevTag with
  | none =>
    refine ⟨⟨s.compileUnit, [], .none⟩, by simp only [saveMembers, hp]; rfl, ?_⟩
    have ho : o.prevTag = .none := h.prevTag.trans hp
    simp only [Outline.save, ho]
    exact ⟨h.functions, h.globalVariables, h.datatypes, .nil, rfl, by simp, by simp⟩
  | functions =>
    have ho : o.prevTag = .functions := h.prevTag.trans hp
    obtain ⟨fs, hok, hfs⟩ := forall₂_modifyLast (f := (·.saveFields o.members))
      (g := (·.saveFields s.members)) (fun e dt he ↦
        ⟨he.node, List.rel_append he.parameters (h.members.filter DwTag.isParameter),
          List.rel_append he.members (h.members.filter (· == .variable))⟩)
      h.functions (h.lastFunction ho)
    refine ⟨⟨{ s.compileUnit with functions := fs }, [], .none⟩, ?_, ?_⟩
    · simp only [saveMembers, hp, hok]
      rfl
    · simp only [Outline.save, ho]
      exact ⟨hfs, h.globalVariables, h.datatypes, .nil, rfl, by simp, by simp⟩
  | datatype =>
    have ho : o.prevTag = .datatype := h.prevTag.trans hp
    obtain ⟨dts, hok, hdts⟩ := forall₂_modifyLast
      (f := fun e ↦ ⟨e.node, e.parameters, o.members⟩)
      (g := fun dt ↦ { dt with members := s.members }) (fun e dt he ↦
        ⟨he.node, he.parameters, h.members⟩) h.datatypes (h.lastDatatype ho)
    refine ⟨⟨{ s.compileUnit with datatypes := dts }, [], .none⟩, ?_, ?_⟩
    · simp only [saveMembers, hp, hok]
      rfl
    · simp only [Outline.save, ho]
      exact ⟨h.functions, h.globalVariables, hdts, .nil, rfl, by simp, by simp⟩

theorem Outlines.flush {o : Outline} {s : WalkState} (h : Outlines fresh getFuncAddr o s) :
    ∃ s', flushMembers s = .ok s' ∧ Outlines fresh getFuncAddr o.flush s' := by
  simp only [flushMembers, Outline.flush, h.members_ne_nil]
  split
  · exact h.save
  · exact ⟨s, rfl, h⟩

/-- Appending a bare record for a DIE of depth 2. -/
private theorem forall₂_record {read : List Datatype → Die → Except Failure DatatypeEntry}
    {es : List Entry} {dts : List Datatype} (h : List.Forall₂ (EntryRead fresh read) es dts)
    {node : Die} {dt : DatatypeEntry} {datatypes : List Datatype}
    (hr : read datatypes node = .ok dt) (hof : dt.IsOf node) :
    List.Forall₂ (EntryRead fresh read) (es ++ [.bare node]) (dts ++ [⟨dt, [], []⟩]) :=
  List.rel_append h (.cons ⟨⟨hof, datatypes, hr⟩, .nil, .nil⟩ .nil)

/-- Recording a DIE of depth 2 follows the outline. -/
theorem Outlines.record {cu : CompileUnit} {o : Outline} {s : WalkState} {node : Die}
    (h : Outlines fresh getFuncAddr o s) (hdec : DecodesAt fresh cu 2 node) :
    ∃ s', recordNode fresh getFuncAddr node s = .ok s' ∧
      Outlines fresh getFuncAddr (o.record node) s' := by
  have h21 : (2 : Nat) ≠ 1 := by decide
  simp only [DecodesAt, if_neg h21, true_and] at hdec
  by_cases hsub : node.tag = .subprogram
  · simp only [if_pos hsub] at hdec
    obtain ⟨dt, hd⟩ := isOk_iff_exists.mp hdec
    have hr : readFunction fresh getFuncAddr s.compileUnit.datatypes node =
        .ok (closeFunction getFuncAddr s.compileUnit.datatypes dt) := by
      rw [readFunction, hd]
      rfl
    refine ⟨_, by rw [recordNode, if_pos hsub, hr]; rfl, ?_⟩
    simp only [Outline.record, if_pos hsub]
    exact ⟨forall₂_record h.functions hr (isOf_readFunction hr), h.globalVariables,
      h.datatypes, h.members, rfl, by simp, by simp⟩
  · simp only [if_neg hsub] at hdec
    by_cases hvar : node.tag = .variable
    · simp only [if_pos hvar] at hdec
      obtain ⟨dt, hd⟩ := isOk_iff_exists.mp hdec
      have hr : readGlobalVariable fresh s.compileUnit.datatypes node =
          .ok (linkDatatype s.compileUnit.datatypes dt) := by
        rw [readGlobalVariable, hd]
        rfl
      refine ⟨_, by rw [recordNode, if_neg hsub, if_pos hvar, hr]; rfl, ?_⟩
      simp only [Outline.record, if_neg hsub, if_pos hvar]
      exact ⟨h.functions, forall₂_record h.globalVariables hr (isOf_readGlobalVariable hr),
        h.datatypes, h.members, rfl, by simp, by simp⟩
    · simp only [if_neg hvar, true_or, forall_const] at hdec
      obtain ⟨dt, hd⟩ := isOk_iff_exists.mp hdec
      have hr : readDatatype fresh s.compileUnit.datatypes node =
          .ok (linkDatatype s.compileUnit.datatypes dt) := by
        rw [readDatatype, hd]
        rfl
      refine ⟨_, by rw [recordNode, if_neg hsub, if_neg hvar, hr]; rfl, ?_⟩
      simp only [Outline.record, if_neg hsub, if_neg hvar]
      exact ⟨h.functions, h.globalVariables, forall₂_record h.datatypes hr (isOf_readDatatype hr),
        h.members, rfl, by simp, by simp⟩

/-- Collecting a DIE below depth 2 follows the outline. -/
theorem Outlines.collect {cu : CompileUnit} {depth : Nat} {o : Outline} {s : WalkState}
    {node : Die} (h : Outlines fresh getFuncAddr o s) (hdepth : 2 < depth)
    (hdec : DecodesAt fresh cu depth node) :
    ∃ s', collectNode fresh node s = .ok s' ∧
      Outlines fresh getFuncAddr (o.collect node) s' := by
  by_cases hinl : node.tag = .inlinedSubroutine
  · simp only [collectNode, Outline.collect, if_pos hinl, h.prevTag, h.members_ne_nil]
    split
    · exact h.save
    · exact ⟨s, rfl, h⟩
  · by_cases hfield : node.tag.isField = true
    · have h1 : depth ≠ 1 := by omega
      have h2 : depth ≠ 2 := by omega
      simp only [DecodesAt, if_neg h1, h2, false_and, if_false, false_or, hfield,
        forall_const] at hdec
      obtain ⟨dt, hd⟩ := isOk_iff_exists.mp hdec
      have hr : readDatatype fresh s.compileUnit.datatypes node =
          .ok (linkDatatype s.compileUnit.datatypes dt) := by
        rw [readDatatype, hd]
        rfl
      refine ⟨_, by rw [collectNode, if_neg hinl, if_pos hfield, hr]; rfl, ?_⟩
      simp only [Outline.collect, if_neg hinl, if_pos hfield]
      exact ⟨h.functions, h.globalVariables, h.datatypes,
        List.rel_append h.members (.cons ⟨isOf_readDatatype hr, _, hr⟩ .nil), h.prevTag,
        h.lastFunction, h.lastDatatype⟩
    · refine ⟨s, by rw [collectNode, if_neg hinl, if_neg hfield]; rfl, ?_⟩
      simp only [Outline.collect, if_neg hinl, if_neg hfield]
      exact h

/-- One node of the walk follows the outline. -/
theorem Outlines.step {cu : CompileUnit} {depth : Nat} {o : Outline} {s : WalkState}
    {node : Die} (h : Outlines fresh getFuncAddr o s) (hdepth : 2 ≤ depth)
    (hdec : DecodesAt fresh cu depth node) :
    ∃ s', processNode fresh getFuncAddr depth node s = .ok s' ∧
      Outlines fresh getFuncAddr (o.step depth node) s' := by
  have h1 : depth ≠ 1 := by omega
  by_cases h2 : depth = 2
  · subst h2
    simp only [processNode, Outline.step, if_neg h1, if_true]
    obtain ⟨s₁, hflush, h₁⟩ := h.flush
    rw [hflush]
    exact h₁.record hdec
  · have h3 : 2 < depth := by omega
    simp only [processNode, Outline.step, if_neg h1, if_neg h2, if_pos h3]
    exact h.collect h3 hdec

/-- The walk over nodes below the root follows the outline. -/
theorem Outlines.run {cu : CompileUnit} {l : List (Nat × Die)} {o : Outline} {s : WalkState}
    (h : Outlines fresh getFuncAddr o s)
    (hl : ∀ e ∈ l, 2 ≤ e.1 ∧ DecodesAt fresh cu e.1 e.2) :
    ∃ s', l.foldlM (fun s e ↦ processNode fresh getFuncAddr e.1 e.2 s) s = .ok s' ∧
      Outlines fresh getFuncAddr (l.foldl (fun o e ↦ o.step e.1 e.2) o) s' := by
  induction l generalizing o s with
  | nil => exact ⟨s, rfl, h⟩
  | cons e l ih =>
    obtain ⟨hdepth, hdec⟩ := hl e List.mem_cons_self
    obtain ⟨s₁, hok, h₁⟩ := h.step hdepth hdec
    rw [List.foldlM_cons, hok]
    exact ih h₁ fun e' he' ↦ hl e' (List.mem_cons_of_mem e he')

/-- The attributes of the unit change nothing that an outline sees. -/
theorem Outlines.startUnit {lowAddr highAddr : Word} {node : Die}
    (hdec : DecodesAt fresh (CompileUnit.fresh lowAddr highAddr) 1 node) :
    ∃ s', startUnit node (WalkState.start lowAddr highAddr) = .ok s' ∧
      Outlines fresh getFuncAddr Outline.start s' := by
  have hstart : Outlines fresh getFuncAddr Outline.start (WalkState.start lowAddr highAddr) :=
    ⟨.nil, .nil, .nil, .nil, rfl, nofun, nofun⟩
  simp only [DecodesAt, if_true] at hdec
  by_cases htag : node.tag = .compileUnit
  · obtain ⟨cu, hcu⟩ := isOk_iff_exists.mp (hdec htag)
    have hvec : cu.functions = [] ∧ cu.globalVariables = [] ∧ cu.datatypes = [] := by
      refine Die.decode_invariant
        (fun cu ↦ cu.functions = [] ∧ cu.globalVariables = [] ∧ cu.datatypes = []) ?_
        ⟨rfl, rfl, rfl⟩ hcu
      intro first second r r' hr hs
      obtain ⟨hf, hg, hd⟩ := setNewCu_vectors hs
      exact ⟨hf.trans hr.1, hg.trans hr.2.1, hd.trans hr.2.2⟩
    refine ⟨⟨cu, [], .none⟩, ?_, ?_⟩
    · simp only [ArgsDebugger.startUnit, if_pos htag, WalkState.start, hcu]
      rfl
    · obtain ⟨hf, hg, hd⟩ := hvec
      refine ⟨?_, ?_, ?_, .nil, rfl, nofun, nofun⟩
      · rw [hf]
        exact .nil
      · rw [hg]
        exact .nil
      · rw [hd]
        exact .nil
  · exact ⟨_, by rw [ArgsDebugger.startUnit, if_neg htag]; rfl, hstart⟩

/-- The outline of a whole unit. -/
def outline (root : RoseTree Die) : Outline :=
  (RoseTree.preorderForest 2 root.children).foldl (fun o e ↦ o.step e.1 e.2) .start

variable (getFuncAddr) in
/-- Where no decode raises, the walk over a unit returns, and its outline is the walk over the
DIEs alone. -/
theorem processCuTree_outlines {lowAddr highAddr : Word} {root : RoseTree Die}
    (hdec : Decodes fresh lowAddr highAddr root) :
    ∃ s, processCuTree fresh getFuncAddr root 1 (WalkState.start lowAddr highAddr) = .ok s ∧
      Outlines fresh getFuncAddr (outline root) s := by
  cases root with
  | node a ts =>
    simp only [Decodes, RoseTree.preorder, List.forall_mem_cons] at hdec
    obtain ⟨hroot, hts⟩ := hdec
    obtain ⟨s₁, hok, h₁⟩ := Outlines.startUnit hroot
    simp only [processCuTree, RoseTree.walk_eq_foldlM, RoseTree.preorder, List.foldlM_cons]
    rw [show processNode fresh getFuncAddr 1 a (WalkState.start lowAddr highAddr) = .ok s₁
      from hok]
    exact h₁.run fun e he ↦ ⟨RoseTree.le_depth_of_mem_preorderForest he, hts e he⟩

end Simulation

end ArgsDebugger
