import ArgsDebugger.CompileUnit.Collected
import ArgsDebugger.Lib.Pointwise
import Mathlib.Data.List.Nodup

/-!
# The parameters of a function's record

What `process_cu_tree` (`src/compile_unit.cc:228–408`) makes of the formal parameters of a
function at depth 2. They can be lost, when nothing saves them or the list was closed before
them, and parameters of DIEs nested in the function can slip in. Both are decided by the
shape of the tree alone.
-/

namespace ArgsDebugger

open Lib

/-- The DIEs of a unit stand at different offsets of their section. -/
def DistinctOffsets (root : RoseTree Die) : Prop :=
  ((root.preorder 1).map fun e ↦ e.2.sectionOffset).Nodup

instance (root : RoseTree Die) : Decidable (DistinctOffsets root) :=
  inferInstanceAs (Decidable (List.Nodup _))

/-- The parameters of a function: its own children with one of the two parameter tags. -/
def directParameters (t : RoseTree Die) : List Die :=
  (t.children.map RoseTree.label).filter (·.tag.isParameter)

/-- The position of a function's record: the functions among the DIEs before it. -/
def functionIndex (pre : List (RoseTree Die)) : Nat :=
  (pre.filter (·.label.tag == .subprogram)).length

/-- Every parameter of the function occurs in the record, in order. -/
def KeepsParameters (t : RoseTree Die) (func : Datatype) : Prop :=
  ((directParameters t).map (·.sectionOffset)).Sublist
    (func.parameters.map (·.sectionOffset))

/-- Every parameter in the record is a child of the function. -/
def OwnsParameters (t : RoseTree Die) (func : Datatype) : Prop :=
  ∀ dt ∈ func.parameters, ∃ node ∈ t.children.map RoseTree.label, dt.IsOf node

/-- No parameter of the function comes behind the DIE that closes its list; if no DIE does,
another DIE of depth 2 follows. -/
def ClosedBehindParameters (t : RoseTree Die) (later : Bool) : Prop :=
  directParameters t = [] ∨
    match cutIndex (descendants t) with
    | some i => ∀ node ∈ directParameters t, node ∈ (descendants t).take i
    | none => later = true

/-- The list of the function is never saved, or no parameter lies deeper than its children up
to the DIE that closes the list. -/
def NoNestedParameter (t : RoseTree Die) (later : Bool) : Prop :=
  (cutIndex (descendants t) = none ∧ later = false) ∨
    ∀ node ∈ (descendants t).take ((cutIndex (descendants t)).getD (descendants t).length),
      node.tag.isParameter = true → node ∈ t.children.map RoseTree.label

section Record

variable {fresh : Int → DatatypeEntry} {getFuncAddr : Text → Word} {lowAddr highAddr : Word}
  {root : RoseTree Die} {pre post : List (RoseTree Die)} {t : RoseTree Die}

/-- The entry of a function stands at the function's index. -/
theorem functionEntries_getElem? (hsub : t.label.tag = .subprogram) :
    (functionEntries (withLater (pre ++ t :: post)))[functionIndex pre]? =
      some (functionEntry t (!post.isEmpty)) := by
  exact getElem?_of_withLater (fun u ↦ u.label.tag == .subprogram)
    (fun e ↦ functionEntry e.1 e.2) (beq_iff_eq.mpr hsub)

/-- The record of each function, by its place in the unit. -/
theorem processCuTree_function (getFuncAddr : Text → Word)
    (hdec : Decodes fresh lowAddr highAddr root) :
    ∃ s, processCuTree fresh getFuncAddr root 1 (WalkState.start lowAddr highAddr) = .ok s ∧
      ∀ pre t post, root.children = pre ++ t :: post → t.label.tag = .subprogram →
        ∃ func, s.compileUnit.functions[functionIndex pre]? = some func ∧
          EntryRead fresh (readFunction fresh getFuncAddr) (functionEntry t (!post.isEmpty))
            func := by
  obtain ⟨s, hok, ho⟩ := processCuTree_outlines getFuncAddr hdec
  rw [outline_eq_unitOutline] at ho
  refine ⟨s, hok, ?_⟩
  intro pre t post hkids hsub
  apply forall₂_getElem? ho.functions
  rw [hkids]
  exact functionEntries_getElem? hsub

/-- The parameters that the record of a function gets. -/
theorem functionEntry_parameters (t : RoseTree Die) (later : Bool) :
    (functionEntry t later).parameters =
      if (cutIndex (descendants t)).isSome ∨ later then
        ((descendants t).take ((cutIndex (descendants t)).getD (descendants t).length)).filter
          (·.tag.isParameter)
      else [] := by
  have hfilter (nodes : List Die) : (fields nodes).filter (·.tag.isParameter) =
      nodes.filter (·.tag.isParameter) := by
    rw [fields, List.filter_filter]
    apply List.filter_congr
    intro node _
    cases h : node.tag.isParameter with
    | true => simp [DwTag.isField, h]
    | false => rfl
  have hcollected : collected t =
      fields ((descendants t).take ((cutIndex (descendants t)).getD (descendants t).length)) := by
    unfold collected
    cases cutIndex (descendants t) with
    | some i => rfl
    | none => rw [Option.getD_none, List.take_length]
  unfold functionEntry
  split
  · rw [Entry.saveFields, hcollected, hfilter]
    rfl
  · rfl

theorem functionEntry_node (t : RoseTree Die) (later : Bool) :
    (functionEntry t later).node = t.label := by
  unfold functionEntry
  split <;> rfl

/-- Records and DIEs have the same section offsets. -/
theorem FieldsRead.map_sectionOffset {nodes : List Die} {dts : List DatatypeEntry}
    (h : FieldsRead fresh nodes dts) :
    dts.map (·.sectionOffset) = nodes.map (·.sectionOffset) := by
  induction h with
  | nil => rfl
  | cons hread _ ih => rw [List.map_cons, List.map_cons, ih, hread.1.1]

/-- The DIEs below one of depth 2 are among the DIEs of the unit. -/
theorem descendants_sublist (hkids : root.children = pre ++ t :: post) :
    (descendants t).Sublist ((root.preorder 1).map Prod.snd) := by
  rw [RoseTree.preorder_eq_cons, hkids, RoseTree.preorderForest_append, RoseTree.preorderForest,
    RoseTree.preorder_eq_cons 2 t]
  simp only [List.map_cons, List.map_append]
  have htree : (descendants t).Sublist (t.label :: descendants t) := List.sublist_cons_self _ _
  have hforest := htree.trans (List.sublist_append_left _
    ((RoseTree.preorderForest 2 post).map Prod.snd))
  exact (hforest.trans (List.sublist_append_right _ _)).cons _

theorem DistinctOffsets.nodup_descendants (hoff : DistinctOffsets root)
    (hkids : root.children = pre ++ t :: post) :
    ((descendants t).map (·.sectionOffset)).Nodup := by
  apply List.Nodup.sublist ((descendants_sublist hkids).map _)
  rw [List.map_map]
  exact hoff

/-- The parameters of a function are among the DIEs below it. -/
theorem directParameters_sublist (t : RoseTree Die) :
    (directParameters t).Sublist (descendants t) :=
  List.filter_sublist.trans (RoseTree.map_label_sublist 3 t.children)

/-- The parameters occur among the first DIEs below the function exactly when each is one of
them. -/
private theorem directParameters_sublist_take
    (hoff : ((descendants t).map (·.sectionOffset)).Nodup) (n : Nat) :
    ((directParameters t).map (·.sectionOffset)).Sublist
        ((((descendants t).take n).filter (·.tag.isParameter)).map (·.sectionOffset)) ↔
      ∀ node ∈ directParameters t, node ∈ (descendants t).take n := by
  have hdirect := directParameters_sublist t
  constructor
  · intro h node hnode
    obtain ⟨node', hnode', heq⟩ := List.mem_map.mp (h.subset (List.mem_map_of_mem hnode))
    have htake := (List.mem_filter.mp hnode').1
    have hsame : node' = node := List.inj_on_of_nodup_map hoff (List.mem_of_mem_take htake)
      (hdirect.subset hnode) heq
    rwa [hsame] at htake
  · intro h
    rw [← List.take_append_drop n (descendants t)] at hdirect
    obtain ⟨front, back, hsplit, hfront, hback⟩ := List.sublist_append_iff.mp hdirect
    -- A parameter behind the first DIEs would be listed twice.
    have hnil : back = [] := by
      apply List.eq_nil_iff_forall_not_mem.mpr
      intro node hnode
      have htake := h node (by rw [hsplit]; exact List.mem_append_right _ hnode)
      exact List.disjoint_take_drop (List.Nodup.of_map _ hoff) le_rfl htake (hback.subset hnode)
    rw [hnil, List.append_nil] at hsplit
    have hfilter := hfront.filter (·.tag.isParameter)
    rw [← hsplit, directParameters, List.filter_filter] at hfilter
    simp only [Bool.and_self] at hfilter
    exact hfilter.map _

/-- A record keeps the parameters exactly when no DIE closes the list before them and something
closes or saves it. -/
theorem keepsParameters_iff {later : Bool} {func : Datatype}
    (hoff : ((descendants t).map (·.sectionOffset)).Nodup)
    (hfunc : FieldsRead fresh (functionEntry t later).parameters func.parameters) :
    KeepsParameters t func ↔ ClosedBehindParameters t later := by
  have htake := directParameters_sublist_take hoff
  rw [KeepsParameters, hfunc.map_sectionOffset, functionEntry_parameters, ClosedBehindParameters]
  cases cutIndex (descendants t) with
  | some i =>
    simp only [Option.isSome_some, true_or, if_true, Option.getD_some, htake]
    constructor
    · exact .inr
    · rintro (hnil | hall)
      · simp [hnil]
      · exact hall
  | none =>
    cases later with
    | true =>
      have hall := (htake (descendants t).length).mpr fun node hnode ↦ by
        rw [List.take_length]
        exact (directParameters_sublist t).subset hnode
      simpa using hall
    | false => simp

/-- A record owns its parameters exactly when none of those collected lies deeper than the
children of the function. -/
theorem ownsParameters_iff {later : Bool} {func : Datatype}
    (hoff : ((descendants t).map (·.sectionOffset)).Nodup)
    (hfunc : FieldsRead fresh (functionEntry t later).parameters func.parameters) :
    OwnsParameters t func ↔ NoNestedParameter t later := by
  rw [functionEntry_parameters] at hfunc
  have hchildren := (RoseTree.map_label_sublist 3 t.children).subset
  by_cases hsaved : (cutIndex (descendants t)).isSome ∨ later
  · rw [if_pos hsaved] at hfunc
    obtain ⟨hleft, hright⟩ := forall₂_mem hfunc
    have hnot : ¬ (cutIndex (descendants t) = none ∧ later = false) := by
      rintro ⟨hc, hl⟩
      simp [hc, hl] at hsaved
    rw [NoNestedParameter, or_iff_right hnot]
    constructor
    · intro h node hnode hparam
      obtain ⟨dt, hdt, hof, -⟩ := hleft node (List.mem_filter.mpr ⟨hnode, hparam⟩)
      obtain ⟨child, hchild, hof'⟩ := h dt hdt
      have hsame : child = node := List.inj_on_of_nodup_map hoff (hchildren hchild)
        (List.mem_of_mem_take hnode) (hof'.1.symm.trans hof.1)
      rwa [← hsame]
    · intro h dt hdt
      obtain ⟨node, hnode, hof, -⟩ := hright dt hdt
      obtain ⟨htake, hparam⟩ := List.mem_filter.mp hnode
      exact ⟨node, h node htake hparam, hof⟩
  · rw [if_neg hsaved] at hfunc
    have hnone : cutIndex (descendants t) = none ∧ later = false := by
      simpa using hsaved
    have hnil : func.parameters = [] := List.forall₂_nil_left_iff.mp hfunc
    constructor
    · exact fun _ ↦ .inl hnone
    · intro _ dt hdt
      rw [hnil] at hdt
      cases hdt

end Record

/-- What the parameters of a record tell holds of the record of every function of a unit. -/
private theorem processCuTree_parameters {fresh : Int → DatatypeEntry}
    {lowAddr highAddr : Word} {root : RoseTree Die} (getFuncAddr : Text → Word)
    (hdec : Decodes fresh lowAddr highAddr root) (P : RoseTree Die → Bool → Datatype → Prop)
    (hread : ∀ pre t post func, root.children = pre ++ t :: post →
      FieldsRead fresh (functionEntry t (!post.isEmpty)).parameters func.parameters →
        P t (!post.isEmpty) func) :
    ∃ s, processCuTree fresh getFuncAddr root 1 (WalkState.start lowAddr highAddr) = .ok s ∧
      ∀ pre t post, root.children = pre ++ t :: post → t.label.tag = .subprogram →
        ∃ func, s.compileUnit.functions[functionIndex pre]? = some func ∧
          func.IsOf t.label ∧ P t (!post.isEmpty) func := by
  obtain ⟨s, hok, hfunctions⟩ := processCuTree_function getFuncAddr hdec
  refine ⟨s, hok, ?_⟩
  intro pre t post hkids hsub
  obtain ⟨func, hfunc, hentry⟩ := hfunctions pre t post hkids hsub
  refine ⟨func, hfunc, ?_, hread pre t post func hkids hentry.parameters⟩
  rw [← functionEntry_node t (!post.isEmpty)]
  exact hentry.node.1

/-- The parameters of a function reach its record exactly when no inlined subroutine closes
the list before the last of them, and some DIE closes or saves it. -/
theorem parameters_kept_iff (fresh : Int → DatatypeEntry) (getFuncAddr : Text → Word)
    (lowAddr highAddr : Word) (root : RoseTree Die)
    (hdec : Decodes fresh lowAddr highAddr root) (hoff : DistinctOffsets root) :
    ∃ s, processCuTree fresh getFuncAddr root 1 (WalkState.start lowAddr highAddr) = .ok s ∧
      ∀ pre t post, root.children = pre ++ t :: post → t.label.tag = .subprogram →
        ∃ func, s.compileUnit.functions[functionIndex pre]? = some func ∧
          func.IsOf t.label ∧
          (KeepsParameters t func ↔ ClosedBehindParameters t (!post.isEmpty)) := by
  apply processCuTree_parameters getFuncAddr hdec
    fun t later func ↦ (KeepsParameters t func ↔ ClosedBehindParameters t later)
  intro pre t post func hkids hread
  exact keepsParameters_iff (hoff.nodup_descendants hkids) hread

/-- A unit whose only function has a parameter: nothing follows that would save it. -/
def lastFunctionUnit : RoseTree Die :=
  .node ⟨.compileUnit, 11, []⟩ [.node sampleFunction [.node sampleParameter []]]

/-- The function of a unit's last DIE loses its parameter. -/
theorem parameters_lost_of_last :
    ¬ ∀ (fresh : Int → DatatypeEntry) (getFuncAddr : Text → Word) (lowAddr highAddr : Word)
      (root : RoseTree Die) (s : WalkState), Decodes fresh lowAddr highAddr root →
        processCuTree fresh getFuncAddr root 1 (WalkState.start lowAddr highAddr) = .ok s →
        ∀ pre t post, root.children = pre ++ t :: post → t.label.tag = .subprogram →
          ∀ func, s.compileUnit.functions[functionIndex pre]? = some func →
            KeepsParameters t func := by
  intro h
  have hkeeps := h (fun _ ↦ default) (fun _ ↦ 0) 0 0 lastFunctionUnit _ (by decide) rfl
    [] (.node sampleFunction [.node sampleParameter []]) [] rfl rfl _ rfl
  revert hkeeps
  unfold KeepsParameters
  decide

/-- A function followed by a type keeps its parameter. -/
theorem parameters_kept_iff_sample :
    ∃ s func, s.compileUnit.functions[0]? = some func ∧
      KeepsParameters (sampleUnit.children.head (by decide)) func ∧
      processCuTree (fun _ ↦ default) (fun _ ↦ 0) sampleUnit 1 (WalkState.start 0 0) = .ok s := by
  obtain ⟨s, hok, hfunctions⟩ :=
    parameters_kept_iff (fun _ ↦ default) (fun _ ↦ 0) 0 0 sampleUnit (by decide) (by decide)
  obtain ⟨func, hfunc, -, hiff⟩ := hfunctions [] _ _ rfl rfl
  exact ⟨s, func, hfunc, hiff.mpr (.inr rfl), hok⟩

/-- A record holds no parameter of a DIE nested in the function exactly when none lies deeper
than its children up to the inlined subroutine that closes the list, or when nothing saves the
list at all. -/
theorem parameters_owned_iff (fresh : Int → DatatypeEntry) (getFuncAddr : Text → Word)
    (lowAddr highAddr : Word) (root : RoseTree Die)
    (hdec : Decodes fresh lowAddr highAddr root) (hoff : DistinctOffsets root) :
    ∃ s, processCuTree fresh getFuncAddr root 1 (WalkState.start lowAddr highAddr) = .ok s ∧
      ∀ pre t post, root.children = pre ++ t :: post → t.label.tag = .subprogram →
        ∃ func, s.compileUnit.functions[functionIndex pre]? = some func ∧
          func.IsOf t.label ∧
          (OwnsParameters t func ↔ NoNestedParameter t (!post.isEmpty)) := by
  apply processCuTree_parameters getFuncAddr hdec
    fun t later func ↦ (OwnsParameters t func ↔ NoNestedParameter t later)
  intro pre t post func hkids hread
  exact ownsParameters_iff (hoff.nodup_descendants hkids) hread

/-- A unit whose function begins with an inlined call, so that the parameter of the inlined
function is collected with nothing before it that would close the list. -/
def inlinedUnit : RoseTree Die :=
  .node ⟨.compileUnit, 11, []⟩
    [.node sampleFunction [.node ⟨.inlinedSubroutine, 50, []⟩ [.node sampleParameter []]],
    .node ⟨.baseType, 90, []⟩ []]

/-- The function gets the parameter of the inlined one. -/
theorem parameters_foreign_of_inlined :
    ¬ ∀ (fresh : Int → DatatypeEntry) (getFuncAddr : Text → Word) (lowAddr highAddr : Word)
      (root : RoseTree Die) (s : WalkState), Decodes fresh lowAddr highAddr root →
        processCuTree fresh getFuncAddr root 1 (WalkState.start lowAddr highAddr) = .ok s →
        ∀ pre t post, root.children = pre ++ t :: post → t.label.tag = .subprogram →
          ∀ func, s.compileUnit.functions[functionIndex pre]? = some func →
            OwnsParameters t func := by
  intro h
  obtain ⟨s, hok, hfunctions⟩ :=
    processCuTree_function (fun _ ↦ 0) (by decide : Decodes (fun _ ↦ default) 0 0 inlinedUnit)
  obtain ⟨func, hfunc, hread⟩ := hfunctions [] _ _ rfl rfl
  have howns := h _ _ 0 0 inlinedUnit s (by decide) hok [] _ _ rfl rfl func hfunc
  have hparameter : FieldsRead (fun _ ↦ default) [sampleParameter] func.parameters :=
    hread.parameters
  obtain ⟨dt, hdt, hof, -⟩ := (forall₂_mem hparameter).1 _ List.mem_cons_self
  obtain ⟨node, hnode, hof'⟩ := howns dt hdt
  rw [List.mem_singleton.mp hnode] at hof'
  have hsame : (60 : Int) = 50 := hof.1.symm.trans hof'.1
  omega

/-- The sample function owns its parameter. -/
theorem parameters_owned_iff_sample :
    ∃ s func, s.compileUnit.functions[0]? = some func ∧
      OwnsParameters (sampleUnit.children.head (by decide)) func ∧
      processCuTree (fun _ ↦ default) (fun _ ↦ 0) sampleUnit 1 (WalkState.start 0 0) = .ok s := by
  obtain ⟨s, hok, hfunctions⟩ :=
    parameters_owned_iff (fun _ ↦ default) (fun _ ↦ 0) 0 0 sampleUnit (by decide) (by decide)
  obtain ⟨func, hfunc, -, hiff⟩ := hfunctions [] _ _ rfl rfl
  exact ⟨s, func, hfunc, hiff.mpr (.inr (by decide)), hok⟩

end ArgsDebugger
