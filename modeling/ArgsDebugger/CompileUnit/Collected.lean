import ArgsDebugger.CompileUnit.Walk
import Mathlib.Data.List.Find

/-!
# What the walk collects

The records that `process_cu_tree` leaves for the DIEs at depth 2, stated on the tree: the
fields below a DIE in pre-order, the inlined subroutine at which a function's list is closed,
and whether a later DIE of depth 2 saves what is still pending.
-/

namespace ArgsDebugger

open Lib

/-- The DIEs below a DIE, in pre-order. -/
def descendants (t : RoseTree Die) : List Die :=
  (RoseTree.preorderForest 3 t.children).map Prod.snd

/-- The collected DIEs among some in pre-order. -/
def fields (nodes : List Die) : List Die := nodes.filter (·.tag.isField)

/-- The position of the inlined subroutine at which a function's list is closed: the first one
with a collected DIE before it. -/
def cutIndex (nodes : List Die) : Option Nat :=
  (List.range nodes.length).find? fun i ↦
    nodes[i]?.any (·.tag == .inlinedSubroutine) && (nodes.take i).any (·.tag.isField)

/-- The collected DIEs of a function, cut there. -/
def collected (t : RoseTree Die) : List Die :=
  match cutIndex (descendants t) with
  | some i => fields ((descendants t).take i)
  | none => fields (descendants t)

/-- Each element of a list with whether a later one exists. -/
def withLater {α : Type} : List α → List (α × Bool)
  | [] => []
  | a :: l => (a, !l.isEmpty) :: withLater l

theorem map_fst_withLater {α : Type} (l : List α) : (withLater l).map Prod.fst = l := by
  induction l with
  | nil => rfl
  | cons a l ih => rw [withLater, List.map_cons, ih]

/-- What a function's record keeps: the collected DIEs if the list was closed or a later DIE of
depth 2 saved it, nothing otherwise. -/
def functionEntry (t : RoseTree Die) (later : Bool) : Entry :=
  if (cutIndex (descendants t)).isSome ∨ later then
    (Entry.bare t.label).saveFields (collected t)
  else .bare t.label

/-- What a datatype's record keeps: every field below it if a later DIE of depth 2 saved them,
nothing otherwise. -/
def datatypeEntry (t : RoseTree Die) (later : Bool) : Entry :=
  ⟨t.label, [], if later then fields (descendants t) else []⟩

/-- The functions, global variables and datatypes of a unit. -/
def functionEntries (ts : List (RoseTree Die × Bool)) : List Entry :=
  (ts.filter (·.1.label.tag == .subprogram)).map fun t ↦ functionEntry t.1 t.2

def globalEntries (ts : List (RoseTree Die × Bool)) : List Entry :=
  (ts.filter (·.1.label.tag == .variable)).map fun t ↦ .bare t.1.label

def datatypeEntries (ts : List (RoseTree Die × Bool)) : List Entry :=
  (ts.filter fun t ↦ t.1.label.tag != .subprogram && t.1.label.tag != .variable).map
    fun t ↦ datatypeEntry t.1 t.2

section Cut

variable (nodes : List Die) (node : Die)

theorem fields_append : fields (nodes ++ [node]) =
    fields nodes ++ if node.tag.isField then [node] else [] := by
  rw [fields, List.filter_append]
  cases h : node.tag.isField with
  | true => simp [fields, h]
  | false => simp [fields, h]

theorem any_isField : nodes.any (·.tag.isField) = true ↔ fields nodes ≠ [] := by
  rw [Ne, fields, List.filter_eq_nil_iff, List.any_eq_true]
  simp only [not_forall, not_not, exists_prop]

/-- The cut of a longer list is the earlier one, or the new node if it is the first to close. -/
theorem cutIndex_append :
    cutIndex (nodes ++ [node]) = (cutIndex nodes).or
      (if node.tag = .inlinedSubroutine ∧ fields nodes ≠ [] then some nodes.length else none) := by
  rw [cutIndex, List.length_append, List.length_singleton, List.range_succ, List.find?_append]
  congr 1
  · apply List.find?_congr
    intro i hi
    have hlt : i < nodes.length := List.mem_range.mp hi
    rw [List.getElem?_append_left hlt, List.take_append_of_le_length (by omega)]
  · rw [List.find?_singleton]
    simp only [List.getElem?_concat_length, Option.any_some, List.take_left', Bool.and_eq_true,
      beq_iff_eq, any_isField]

/-- The cut lies inside the list. -/
theorem cutIndex_lt {nodes : List Die} {i : Nat} (h : cutIndex nodes = some i) :
    i < nodes.length := List.mem_range.mp (List.mem_of_find?_eq_some h)

/-- What was collected at the cut of a list that is cut. -/
def closed (nodes : List Die) : List Die :=
  match cutIndex nodes with
  | some i => fields (nodes.take i)
  | none => []

/-- What is pending below a function: everything, or what comes behind the cut. -/
def pending (nodes : List Die) : List Die :=
  match cutIndex nodes with
  | some i => fields (nodes.drop (i + 1))
  | none => fields nodes

/-- A node behind a cut changes what is pending only. -/
theorem closed_append_of_cut {i : Nat} (h : cutIndex nodes = some i) :
    closed (nodes ++ [node]) = closed nodes ∧
      pending (nodes ++ [node]) = pending nodes ++ if node.tag.isField then [node] else [] := by
  have hlt := cutIndex_lt h
  have hc : cutIndex (nodes ++ [node]) = some i := by rw [cutIndex_append, h, Option.some_or]
  simp only [closed, pending, h, hc]
  constructor
  · rw [List.take_append_of_le_length (by omega)]
  · rw [List.drop_append_of_le_length (by omega), fields_append]

/-- A node that closes the list leaves nothing pending. -/
theorem closed_append_of_closes (h : cutIndex nodes = none)
    (hnode : node.tag = .inlinedSubroutine ∧ fields nodes ≠ []) :
    cutIndex (nodes ++ [node]) = some nodes.length ∧
      closed (nodes ++ [node]) = fields nodes ∧ pending (nodes ++ [node]) = [] := by
  have hc : cutIndex (nodes ++ [node]) = some nodes.length := by
    rw [cutIndex_append, h, if_pos hnode, Option.none_or]
  refine ⟨hc, ?_, ?_⟩
  · simp only [closed, hc, List.take_left']
  · simp only [pending, hc]
    rw [List.drop_eq_nil_of_le (by simp)]
    rfl

/-- Any other node on a list that is not cut. -/
theorem closed_append_of_open (h : cutIndex nodes = none)
    (hnode : ¬ (node.tag = .inlinedSubroutine ∧ fields nodes ≠ [])) :
    cutIndex (nodes ++ [node]) = none ∧ closed (nodes ++ [node]) = closed nodes ∧
      pending (nodes ++ [node]) = pending nodes ++ if node.tag.isField then [node] else [] := by
  have hc : cutIndex (nodes ++ [node]) = none := by
    rw [cutIndex_append, h, if_neg hnode, Option.none_or]
  simp only [closed, pending, h, hc, fields_append, true_and]

end Cut

section Segment

namespace Outline

/-- A node that saves nothing is at most collected. -/
theorem collect_of_open {o : Outline} {node : Die}
    (h : ¬ (node.tag = .inlinedSubroutine ∧ o.prevTag = .functions ∧ o.members ≠ [])) :
    o.collect node =
      { o with members := o.members ++ if node.tag.isField then [node] else [] } := by
  by_cases hinl : node.tag = .inlinedSubroutine
  · have hnot : ¬ (o.prevTag = .functions ∧ o.members ≠ []) := fun hc ↦ h ⟨hinl, hc⟩
    have hfield : DwTag.isField .inlinedSubroutine = false := by decide
    simp only [collect, hinl, if_true, if_neg hnot, hfield, Bool.false_eq_true, if_false,
      List.append_nil]
  · simp only [collect, if_neg hinl]
    split
    · rfl
    · rw [List.append_nil]

/-- The nodes below a function: what is collected goes to the function at the cut, or stays
pending. -/
theorem foldl_collect_function (fs gs ds : List Entry) (d : Die) (nodes : List Die) :
    nodes.foldl collect ⟨fs ++ [.bare d], gs, ds, [], .functions⟩ =
      ⟨fs ++ [(Entry.bare d).saveFields (closed nodes)], gs, ds, pending nodes,
        if (cutIndex nodes).isSome then .none else .functions⟩ := by
  induction nodes using List.reverseRecOn with
  | nil => rfl
  | append_singleton nodes node ih =>
    rw [List.foldl_append, ih, List.foldl_cons, List.foldl_nil]
    cases hc : cutIndex nodes with
    | some i =>
      obtain ⟨hclosed, hpending⟩ := closed_append_of_cut nodes node hc
      have hcut : cutIndex (nodes ++ [node]) = some i := by
        rw [cutIndex_append, hc, Option.some_or]
      rw [collect_of_open (by simp), hclosed, hpending, hcut]
    | none =>
      have hpend : pending nodes = fields nodes := by simp only [pending, hc]
      by_cases hnode : node.tag = .inlinedSubroutine ∧ fields nodes ≠ []
      · obtain ⟨hcut, hclosed, hpending⟩ := closed_append_of_closes nodes node hc hnode
        rw [hcut, hclosed, hpending, hpend]
        have hnil : closed nodes = [] := by simp only [closed, hc]
        simp [collect, hnode.1, hnode.2, save, mapLast, hnil, Entry.saveFields, Entry.bare]
      · obtain ⟨hcut, hclosed, hpending⟩ := closed_append_of_open nodes node hc hnode
        rw [collect_of_open (by simpa [hpend] using hnode), hcut, hclosed, hpending]

/-- The nodes below another DIE of depth 2: everything collected stays pending. -/
theorem foldl_collect_other {o : Outline} (hp : o.prevTag ≠ .functions) (nodes : List Die) :
    nodes.foldl collect o = { o with members := o.members ++ fields nodes } := by
  induction nodes using List.reverseRecOn with
  | nil => simp [fields]
  | append_singleton nodes node ih =>
    rw [List.foldl_append, ih, List.foldl_cons, List.foldl_nil,
      collect_of_open (by simp [hp]), fields_append, List.append_assoc]

/-- The walk below a DIE of depth 2 is the collection over its descendants. -/
theorem foldl_step_below (ts : List (RoseTree Die)) (o : Outline) :
    (RoseTree.preorderForest 3 ts).foldl (fun o e ↦ o.step e.1 e.2) o =
      ((RoseTree.preorderForest 3 ts).map Prod.snd).foldl collect o := by
  rw [List.foldl_map]
  apply List.foldl_ext
  intro o e he
  have hdepth : 3 ≤ e.1 := RoseTree.le_depth_of_mem_preorderForest he
  rw [step, if_neg (by omega), if_neg (by omega), if_pos (by omega)]

end Outline

end Segment

/-- What is pending when the DIEs below one of depth 2 have been visited. -/
def pendingAfter (t : RoseTree Die) : List Die :=
  if t.label.tag = .subprogram then pending (descendants t) else fields (descendants t)

/-- The value of `prev_tag` at that point. -/
def prevTagAfter (t : RoseTree Die) : PrevTag :=
  if t.label.tag = .subprogram then
    if (cutIndex (descendants t)).isSome then .none else .functions
  else if t.label.tag = .variable then .none
  else .datatype

/-- The outline of a unit, in closed form. -/
def unitOutline (ts : List (RoseTree Die)) : Outline :=
  ⟨functionEntries (withLater ts), globalEntries (withLater ts), datatypeEntries (withLater ts),
    (ts.getLast?.map pendingAfter).getD [], (ts.getLast?.map prevTagAfter).getD .none⟩

section Unit

theorem withLater_append_cons {α : Type} (pre : List α) (a : α) (post : List α) :
    withLater (pre ++ a :: post) =
      pre.map (·, true) ++ (a, !post.isEmpty) :: withLater post := by
  induction pre with
  | nil => rfl
  | cons b pre ih =>
    rw [List.cons_append, withLater, ih, List.map_cons, List.cons_append]
    cases pre <;> rfl

/-- What is made of the elements with a property stands where as many of them come before. -/
theorem getElem?_of_withLater {α β : Type} (p : α → Bool) (f : α × Bool → β)
    {pre post : List α} {a : α} (ha : p a = true) :
    (((withLater (pre ++ a :: post)).filter fun e ↦ p e.1).map f)[(pre.filter p).length]? =
      some (f (a, !post.isEmpty)) := by
  have hlen : ((pre.map (·, true)).filter fun e ↦ p e.1).length = (pre.filter p).length := by
    rw [List.filter_map, List.length_map]
    rfl
  rw [withLater_append_cons, List.filter_append, List.map_append, ← hlen,
    ← List.length_map f, List.getElem?_append_right le_rfl, Nat.sub_self,
    List.filter_cons_of_pos (by exact ha), List.map_cons, List.getElem?_cons_zero]

theorem withLater_append {α : Type} (l : List α) (a : α) :
    withLater (l ++ [a]) = l.map (·, true) ++ [(a, false)] := withLater_append_cons l a []

variable (l : List (RoseTree Die × Bool)) (t : RoseTree Die) (later : Bool)

theorem functionEntries_append : functionEntries (l ++ [(t, later)]) =
    functionEntries l ++
      if t.label.tag = .subprogram then [functionEntry t later] else [] := by
  by_cases h : t.label.tag = .subprogram
  · simp [functionEntries, List.filter_append, h]
  · simp [functionEntries, List.filter_append, h]

theorem globalEntries_append : globalEntries (l ++ [(t, later)]) =
    globalEntries l ++ if t.label.tag = .variable then [.bare t.label] else [] := by
  by_cases h : t.label.tag = .variable
  · simp [globalEntries, List.filter_append, h]
  · simp [globalEntries, List.filter_append, h]

theorem datatypeEntries_append : datatypeEntries (l ++ [(t, later)]) =
    datatypeEntries l ++
      if t.label.tag ≠ .subprogram ∧ t.label.tag ≠ .variable then [datatypeEntry t later]
      else [] := by
  by_cases h : t.label.tag ≠ .subprogram ∧ t.label.tag ≠ .variable
  · simp [datatypeEntries, List.filter_append, h]
  · simp [datatypeEntries, List.filter_append, h]

@[simp] theorem Outline.mapLast_append (f : Entry → Entry) (es : List Entry) (e : Entry) :
    Outline.mapLast f (es ++ [e]) = es ++ [f e] := by
  simp [Outline.mapLast]

/-- Without a later DIE a function has what was collected at its cut. -/
theorem functionEntry_false :
    functionEntry t false = (Entry.bare t.label).saveFields (closed (descendants t)) := by
  cases hc : cutIndex (descendants t) with
  | some i => simp [functionEntry, closed, collected, hc]
  | none => simp [functionEntry, closed, hc, Entry.saveFields, Entry.bare]

/-- Saving what is pending below a function turns its record into the final one. -/
private theorem flush_function (es gs ds : List Entry) :
    ∃ p, Outline.flush ⟨es ++ [functionEntry t false], gs, ds, pending (descendants t),
        if (cutIndex (descendants t)).isSome then .none else .functions⟩ =
      ⟨es ++ [functionEntry t true], gs, ds, [], p⟩ := by
  cases hc : cutIndex (descendants t) with
  | some i =>
    have hsame : functionEntry t true = functionEntry t false := by simp [functionEntry, hc]
    rw [hsame]
    refine ⟨.none, ?_⟩
    cases pending (descendants t) with
    | nil => rfl
    | cons d l => rfl
  | none =>
    have hpending : pending (descendants t) = fields (descendants t) := by
      simp only [pending, hc]
    have hfalse : functionEntry t false = .bare t.label := by simp [functionEntry, hc]
    have htrue : functionEntry t true =
        (Entry.bare t.label).saveFields (fields (descendants t)) := by
      simp [functionEntry, collected, hc]
    rw [hpending, hfalse, htrue]
    cases fields (descendants t) with
    | nil => exact ⟨.functions, rfl⟩
    | cons d l => exact ⟨.none, by simp [Outline.flush, Outline.save]⟩

/-- Saving what is pending below a datatype turns its record into the final one. -/
private theorem flush_datatype (es fs gs : List Entry) :
    ∃ p, Outline.flush ⟨fs, gs, es ++ [datatypeEntry t false], fields (descendants t),
        .datatype⟩ = ⟨fs, gs, es ++ [datatypeEntry t true], [], p⟩ := by
  unfold datatypeEntry
  cases fields (descendants t) with
  | nil => exact ⟨.datatype, rfl⟩
  | cons d l => exact ⟨.none, by simp [Outline.flush, Outline.save]⟩

/-- The next DIE of depth 2 saves what is pending. -/
theorem flush_unitOutline (ts : List (RoseTree Die)) :
    ∃ p, (unitOutline ts).flush =
      ⟨functionEntries (ts.map (·, true)), globalEntries (ts.map (·, true)),
        datatypeEntries (ts.map (·, true)), [], p⟩ := by
  induction ts using List.reverseRecOn with
  | nil => exact ⟨.none, rfl⟩
  | append_singleton ts t _ =>
    simp only [unitOutline, withLater_append, List.getLast?_concat, Option.map_some,
      Option.getD_some, List.map_append, List.map_cons, List.map_nil, functionEntries_append,
      globalEntries_append, datatypeEntries_append, pendingAfter, prevTagAfter]
    by_cases hsub : t.label.tag = .subprogram
    · have hvar : t.label.tag ≠ .variable := by simp [hsub]
      have hdata : ¬ (t.label.tag ≠ .subprogram ∧ t.label.tag ≠ .variable) := fun h ↦ h.1 hsub
      simp only [if_pos hsub, if_neg hvar, if_neg hdata, List.append_nil]
      exact flush_function t _ _ _
    · by_cases hvar : t.label.tag = .variable
      · have hdata : ¬ (t.label.tag ≠ .subprogram ∧ t.label.tag ≠ .variable) := fun h ↦ h.2 hvar
        simp only [if_neg hsub, if_pos hvar, if_neg hdata, List.append_nil]
        refine ⟨.none, ?_⟩
        cases fields (descendants t) with
        | nil => rfl
        | cons d l => rfl
      · have hdata : t.label.tag ≠ .subprogram ∧ t.label.tag ≠ .variable := ⟨hsub, hvar⟩
        simp only [if_neg hsub, if_neg hvar, if_pos hdata, List.append_nil]
        exact flush_datatype t _ _ _

/-- Visiting one more tree of depth 2 in closed form. -/
theorem foldl_step_preorder (ts : List (RoseTree Die)) (t : RoseTree Die) :
    (RoseTree.preorder 2 t).foldl (fun o e ↦ o.step e.1 e.2) (unitOutline ts) =
      unitOutline (ts ++ [t]) := by
  obtain ⟨p, hflush⟩ := flush_unitOutline ts
  have hstep : (unitOutline ts).step 2 t.label = (unitOutline ts).flush.record t.label := rfl
  rw [RoseTree.preorder_eq_cons, List.foldl_cons, Outline.foldl_step_below, hstep, hflush]
  change (descendants t).foldl _ _ = _
  simp only [unitOutline, withLater_append, List.getLast?_concat, Option.map_some,
    Option.getD_some, functionEntries_append,
    globalEntries_append, datatypeEntries_append, pendingAfter, prevTagAfter]
  by_cases hsub : t.label.tag = .subprogram
  · have hvar : t.label.tag ≠ .variable := by simp [hsub]
    have hdata : ¬ (t.label.tag ≠ .subprogram ∧ t.label.tag ≠ .variable) := fun h ↦ h.1 hsub
    simp only [Outline.record, if_pos hsub, if_neg hvar, if_neg hdata, List.append_nil]
    rw [Outline.foldl_collect_function, functionEntry_false]
  · by_cases hvar : t.label.tag = .variable
    · have hdata : ¬ (t.label.tag ≠ .subprogram ∧ t.label.tag ≠ .variable) := fun h ↦ h.2 hvar
      simp only [Outline.record, if_neg hsub, if_pos hvar, if_neg hdata, List.append_nil]
      refine (Outline.foldl_collect_other ?_ _).trans ?_
      · intro h
        cases h
      · rw [List.nil_append]
    · have hdata : t.label.tag ≠ .subprogram ∧ t.label.tag ≠ .variable := ⟨hsub, hvar⟩
      simp only [Outline.record, if_neg hsub, if_neg hvar, if_pos hdata, List.append_nil]
      refine (Outline.foldl_collect_other ?_ _).trans ?_
      · intro h
        cases h
      · rw [List.nil_append]
        rfl

/-- The outline of a unit is the closed form over the DIEs at depth 2. -/
theorem outline_eq_unitOutline (root : RoseTree Die) :
    outline root = unitOutline root.children := by
  unfold outline
  induction root.children using List.reverseRecOn with
  | nil => rfl
  | append_singleton ts t ih =>
    rw [RoseTree.preorderForest_append, List.foldl_append, ih, RoseTree.preorderForest,
      RoseTree.preorderForest, List.append_nil, foldl_step_preorder]

end Unit

/-- The meaning of the walk: where no attribute decode raises, it returns with the functions,
global variables and datatypes of the unit in the order of its DIEs, each record read from its
DIE, and its parameters and members read from what was collected below it. -/
theorem processCuTree_meaning (fresh : Int → DatatypeEntry) (getFuncAddr : Text → Word)
    (lowAddr highAddr : Word) (root : RoseTree Die)
    (hdec : Decodes fresh lowAddr highAddr root) :
    ∃ s, processCuTree fresh getFuncAddr root 1 (WalkState.start lowAddr highAddr) = .ok s ∧
      List.Forall₂ (EntryRead fresh (readFunction fresh getFuncAddr))
        (functionEntries (withLater root.children)) s.compileUnit.functions ∧
      List.Forall₂ (EntryRead fresh (readGlobalVariable fresh))
        (globalEntries (withLater root.children)) s.compileUnit.globalVariables ∧
      List.Forall₂ (EntryRead fresh (readDatatype fresh))
        (datatypeEntries (withLater root.children)) s.compileUnit.datatypes := by
  obtain ⟨s, hok, ho⟩ := processCuTree_outlines getFuncAddr hdec
  rw [outline_eq_unitOutline] at ho
  exact ⟨s, hok, ho.functions, ho.globalVariables, ho.datatypes⟩

/-- A parameter of the sample function. -/
def sampleParameter : Die := ⟨.formalParameter, 60, [(.name, "x".toList)]⟩

/-- A variable in a block of the sample function. -/
def sampleVariable : Die := ⟨.variable, 80, []⟩

/-- A function with a parameter and a block. -/
def sampleFunction : Die :=
  ⟨.subprogram, 45, [(.name, "f".toList), (.lowPc, "0x1000".toList)]⟩

/-- A unit with the sample function and a type behind it. -/
def sampleUnit : RoseTree Die :=
  .node ⟨.compileUnit, 11, [(.name, "a.c".toList), (.lowPc, "0x1000".toList)]⟩
    [.node sampleFunction
      [.node sampleParameter [], .node ⟨.lexicalBlock, 70, []⟩ [.node sampleVariable []]],
    .node ⟨.baseType, 90, [(.name, "int".toList), (.byteSize, "0x4".toList)]⟩ []]

/-- The sample function keeps its parameter and the variable of its block. -/
theorem processCuTree_meaning_sample :
    ∃ s, processCuTree (fun _ ↦ default) (fun _ ↦ 0) sampleUnit 1 (WalkState.start 0 0) = .ok s ∧
      List.Forall₂ (EntryRead (fun _ ↦ default) (readFunction (fun _ ↦ default) fun _ ↦ 0))
        [⟨sampleFunction, [sampleParameter], [sampleVariable]⟩] s.compileUnit.functions := by
  obtain ⟨s, hok, hfunctions, -, -⟩ :=
    processCuTree_meaning (fun _ ↦ default) (fun _ ↦ 0) 0 0 sampleUnit (by decide)
  exact ⟨s, hok, hfunctions⟩

end ArgsDebugger
