import ArgsDebugger.CompileUnit.Walk

/-!
# Which units survive the walk

`get_compile_units` drops a unit on which the walk raises. What a setter decodes as a number,
and in which of the formats of `dwarf::to_string`, depends on the handler of the DIE, on its
tag and on the attribute alone. So whether the walk over a unit returns can be read off its
DIEs, without running it: all those texts spell a `long`.
-/

namespace ArgsDebugger

open Lib

/-- The number that a text spells in a format, however large. -/
def NumberFormat.value : NumberFormat → Text → Option Int
  | .plain, text => numeral text 0
  | .reference, text => numeral (text.drop 3) 16
  | .location, text =>
    if "<loclist".toList.isPrefixOf text then numeral (text.drop 11) 16 else numeral text 0

/-- The text spells a number of the range of `long`. -/
def NumberFormat.Fits (format : NumberFormat) (text : Text) : Prop :=
  ∃ v ∈ format.value text, IsLong v

instance (format : NumberFormat) (text : Text) : Decidable (format.Fits text) :=
  inferInstanceAs (Decidable (∃ v ∈ format.value text, IsLong v))

/-- What the handler of a DIE decodes as a number: one handler for the unit, one each for
functions, global variables and other DIEs at depth 2, and one for the fields below. -/
def handlerNumber (depth : Nat) (tag : DwTag) : DwAt → Option NumberFormat :=
  if depth = 1 then if tag = .compileUnit then unitNumber else fun _ ↦ none
  else if depth = 2 then
    if tag = .subprogram then functionNumber
    else if tag = .variable then globalVariableNumber
    else datatypeNumber tag
  else if 2 < depth ∧ tag.isField then datatypeNumber tag
  else fun _ ↦ none

/-- Every attribute that is decoded as a number spells a `long`. -/
def Die.NumbersFit (node : Die) (number : DwAt → Option NumberFormat) : Prop :=
  ∀ attr ∈ node.attributes, ∀ format ∈ number attr.1, format.Fits attr.2

instance (node : Die) (number : DwAt → Option NumberFormat) : Decidable (node.NumbersFit number) :=
  inferInstanceAs (Decidable (∀ attr ∈ node.attributes, ∀ format ∈ number attr.1, _))

/-- Every text of the unit that its DIE's handler decodes as a number spells a `long`. -/
def TextsFit (root : RoseTree Die) : Prop :=
  ∀ e ∈ root.preorder 1, e.2.NumbersFit (handlerNumber e.1 e.2.tag)

instance (root : RoseTree Die) : Decidable (TextsFit root) :=
  inferInstanceAs (Decidable (∀ e ∈ root.preorder 1, _))

/-- A setter raises on an attribute exactly when the table asks for a number that the text does
not spell. -/
def Reads {ρ : Type} (setter : DwAt → Text → ρ → Except Failure ρ)
    (number : DwAt → Option NumberFormat) : Prop :=
  ∀ first second r,
    (setter first second r).isOk = true ↔ ∀ format ∈ number first, format.Fits second

section Setters

variable {ρ : Type} {text : Text} {r : ρ}

theorem stol_isOk_iff {base : Nat} :
    (stol text base).isOk = true ↔ ∃ v ∈ numeral text base, IsLong v := by
  rw [isOk_iff_exists]
  exact exists_congr fun _ ↦ stol_eq_ok_iff

/-- The substring ends behind the end of the text, so it is all that is left. -/
theorem stolBehind_of_le {skip : Nat} (hskip : 0 < skip) (hlen : skip ≤ text.length) :
    stolBehind text skip = stol (text.drop skip) 16 := by
  have htake : (text.drop skip).take (text.length - 1) = text.drop skip := by
    apply List.take_of_length_le
    rw [List.length_drop]
    omega
  rw [stolBehind, substr, if_neg (Nat.not_lt.mpr hlen), htake]
  rfl

theorem stolBehind_eq_ok_iff {skip : Nat} (hskip : 0 < skip) {v : Int} :
    stolBehind text skip = .ok v ↔ v ∈ numeral (text.drop skip) 16 ∧ IsLong v := by
  by_cases hlen : text.length < skip
  · rw [stolBehind, substr, if_pos hlen, List.drop_eq_nil_of_le (Nat.le_of_lt hlen)]
    simp [numeral, splitSign, splitBase, bind, Except.bind]
  · rw [stolBehind_of_le hskip (Nat.le_of_not_lt hlen)]
    exact stol_eq_ok_iff

theorem stolBehind_isOk_iff {skip : Nat} (hskip : 0 < skip) :
    (stolBehind text skip).isOk = true ↔ ∃ v ∈ numeral (text.drop skip) 16, IsLong v := by
  rw [isOk_iff_exists]
  exact exists_congr fun _ ↦ stolBehind_eq_ok_iff hskip

/-- A text is decoded in a format exactly when it fits it. -/
theorem NumberFormat.decode_isOk_iff {format : NumberFormat} :
    (format.decode text).isOk = true ↔ format.Fits text := by
  cases format with
  | plain => exact stol_isOk_iff
  | reference => exact stolBehind_isOk_iff (by omega)
  | location =>
    by_cases hlist : "<loclist".toList.isPrefixOf text = true
    · simp only [decode, Fits, value, if_pos hlist]
      exact stolBehind_isOk_iff (by omega)
    · simp only [decode, Fits, value, if_neg hlist]
      exact stol_isOk_iff

theorem SetsFields.reads {setter : DwAt → Text → ρ → Except Failure ρ}
    {number : DwAt → Option NumberFormat} {write : DwAt → Text → Int → ρ → ρ}
    (h : SetsFields setter number write) : Reads setter number := by
  intro first second r
  cases hnumber : number first with
  | none =>
    have hok : (setter first second r).isOk = true := by
      rcases h.others first second hnumber with hleft | ⟨-, hwrite⟩
      · rw [hleft]
        rfl
      · rw [hwrite]
        rfl
    exact iff_of_true hok fun _ ↦ nofun
  | some format =>
    rw [(h.numbers first second r format hnumber).2, isOk_map, NumberFormat.decode_isOk_iff]
    simp only [Option.mem_some_iff, forall_eq']

theorem reads_setNewCu : Reads setNewCu unitNumber := setsFields_setNewCu.reads

theorem reads_addFunctionField : Reads addFunctionField functionNumber :=
  setsFields_addFunctionField.reads

theorem reads_addGlobalVariableField : Reads addGlobalVariableField globalVariableNumber :=
  setsFields_addGlobalVariableField.reads

theorem reads_addDatatypeField (nodeTag : DwTag) :
    Reads (addDatatypeField nodeTag) (datatypeNumber nodeTag) :=
  (setsFields_addDatatypeField nodeTag).reads

/-- Decoding the attributes of a DIE raises or not whatever the record holds. -/
theorem Reads.decode_isOk_iff {setter : DwAt → Text → ρ → Except Failure ρ}
    {number : DwAt → Option NumberFormat} (h : Reads setter number) (node : Die) :
    (node.decode setter r).isOk = true ↔ node.NumbersFit number :=
  foldlM_isOk_iff fun r attr ↦ h attr.1 attr.2 r

end Setters

section Walk

variable {fresh : Int → DatatypeEntry} {getFuncAddr : Text → Word} {lowAddr highAddr : Word}
  {depth : Nat} {node : Die} {root : RoseTree Die} {s s' : WalkState}

/-- The decodes of the walk at a DIE succeed when its texts fit. -/
theorem decodesAt_of_numbersFit {cu : CompileUnit} (hdepth : 1 ≤ depth)
    (h : node.NumbersFit (handlerNumber depth node.tag)) : DecodesAt fresh cu depth node := by
  unfold DecodesAt
  unfold handlerNumber at h
  by_cases h1 : depth = 1
  · rw [if_pos h1] at h ⊢
    intro htag
    rw [if_pos htag] at h
    exact (reads_setNewCu.decode_isOk_iff node).mpr h
  · rw [if_neg h1] at h ⊢
    by_cases h2 : depth = 2
    · simp only [h2, true_and, if_true, true_or, forall_const] at h ⊢
      split
      · next htag =>
        rw [if_pos htag] at h
        exact (reads_addFunctionField.decode_isOk_iff node).mpr h
      · next htag =>
        rw [if_neg htag] at h
        split
        · next hvar =>
          rw [if_pos hvar] at h
          exact (reads_addGlobalVariableField.decode_isOk_iff node).mpr h
        · next hvar =>
          rw [if_neg hvar] at h
          exact ((reads_addDatatypeField node.tag).decode_isOk_iff node).mpr h
    · simp only [h2, false_and, if_false, false_or] at h ⊢
      intro hfield
      rw [if_pos ⟨by omega, hfield⟩] at h
      exact ((reads_addDatatypeField node.tag).decode_isOk_iff node).mpr h

/-- A record that was read from a DIE was decoded from it. -/
private theorem decode_isOk_of_map {ρ ρ' : Type} {setter : DwAt → Text → ρ → Except Failure ρ}
    {number : DwAt → Option NumberFormat} (hreads : Reads setter number) {finish : ρ → ρ'}
    {r : ρ} {r' : ρ'} (h : (node.decode setter r).map finish = .ok r') :
    node.NumbersFit number := by
  rw [← hreads.decode_isOk_iff node, ← isOk_map finish, h]
  rfl

/-- A visit of a DIE that returns has decoded what its handler decodes. -/
theorem numbersFit_of_processNode
    (h : processNode fresh getFuncAddr depth node s = .ok s') :
    node.NumbersFit (handlerNumber depth node.tag) := by
  have hnone : node.NumbersFit fun _ ↦ none := fun _ _ ↦ nofun
  unfold handlerNumber
  cases visit_of_processNode h with
  | unit h =>
    rw [startUnit] at h
    rw [if_pos rfl]
    split_ifs at h ⊢
    · obtain ⟨cu, hcu, -⟩ := bind_eq_ok.mp h
      exact (reads_setNewCu.decode_isOk_iff node).mp (isOk_iff_exists.mpr ⟨cu, hcu⟩)
    · exact hnone
  | record _ h =>
    rw [if_neg (by decide), if_pos rfl]
    rcases recordNode_cases h with
      ⟨htag, func, hfunc, -⟩ | ⟨htag, globalVariable, hglobal, -⟩ | ⟨htag, datatype, hdatatype, -⟩
    · rw [if_pos htag]
      exact decode_isOk_of_map reads_addFunctionField hfunc
    · rw [htag, if_neg (by decide), if_pos rfl]
      exact decode_isOk_of_map reads_addGlobalVariableField hglobal
    · rw [if_neg htag.1, if_neg htag.2]
      exact decode_isOk_of_map (reads_addDatatypeField node.tag) hdatatype
  | collect hdepth h =>
    rw [if_neg (by omega), if_neg (by omega)]
    rcases collectNode_cases h with ⟨hfield, datatype, hdatatype, -⟩ | ⟨hfield, -⟩
    · rw [if_pos ⟨hdepth, hfield⟩]
      exact decode_isOk_of_map (reads_addDatatypeField node.tag) hdatatype
    · simp only [hfield, Bool.false_eq_true, and_false, if_false]
      exact hnone
  | outside => exact hnone

/-- The decodes of the walk over a unit whose texts fit succeed. -/
theorem decodes_of_textsFit (h : TextsFit root) : Decodes fresh lowAddr highAddr root := by
  intro e he
  exact decodesAt_of_numbersFit (RoseTree.le_depth_of_mem_preorder he) (h e he)

/-- The walk over a unit returns exactly when the unit's texts fit. -/
theorem processCuTree_isOk_iff :
    (processCuTree fresh getFuncAddr root 1 (WalkState.start lowAddr highAddr)).isOk = true ↔
      TextsFit root := by
  constructor
  · intro h
    obtain ⟨s, hs⟩ := isOk_iff_exists.mp h
    rw [processCuTree, RoseTree.walk_eq_foldlM] at hs
    intro e he
    obtain ⟨s₁, s₂, hstep⟩ := exists_of_foldlM hs e he
    exact numbersFit_of_processNode hstep
  · intro h
    have hdec : Decodes fresh lowAddr highAddr root := decodes_of_textsFit h
    obtain ⟨s, hs, -⟩ := processCuTree_outlines getFuncAddr hdec
    exact isOk_iff_exists.mpr ⟨s, hs⟩

variable (fresh getFuncAddr lowAddr highAddr) in
/-- A unit whose texts fit contributes what its own walk collects. -/
theorem getCompileUnits_cons_of_textsFit (hfit : TextsFit root) :
    ∃ s, processCuTree fresh getFuncAddr root 1 (WalkState.start lowAddr highAddr) = .ok s ∧
      ∀ roots, getCompileUnits fresh getFuncAddr lowAddr highAddr (root :: roots) =
        s.compileUnit :: getCompileUnits fresh getFuncAddr lowAddr highAddr roots := by
  have hok : (processCuTree fresh getFuncAddr root 1 (.start lowAddr highAddr)).isOk = true :=
    processCuTree_isOk_iff.mpr hfit
  obtain ⟨s, hs⟩ := isOk_iff_exists.mp hok
  refine ⟨s, hs, fun roots ↦ ?_⟩
  simp only [getCompileUnits, List.filterMap_cons, hs]

/-- A unit with a text that does not fit contributes nothing. -/
theorem getCompileUnits_cons_of_not_textsFit (hfit : ¬ TextsFit root)
    (roots : List (RoseTree Die)) :
    getCompileUnits fresh getFuncAddr lowAddr highAddr (root :: roots) =
      getCompileUnits fresh getFuncAddr lowAddr highAddr roots := by
  cases hwalk : processCuTree fresh getFuncAddr root 1 (.start lowAddr highAddr) with
  | ok s => exact absurd (processCuTree_isOk_iff.mp (isOk_iff_exists.mpr ⟨s, hwalk⟩)) hfit
  | error e => simp only [getCompileUnits, List.filterMap_cons, hwalk]

variable (fresh getFuncAddr lowAddr highAddr) in
/-- The recorded units are, in order, what the walk collects from the units whose texts fit. -/
theorem forall₂_getCompileUnits (roots : List (RoseTree Die)) :
    List.Forall₂ (fun root compileUnit ↦
        ∃ s, processCuTree fresh getFuncAddr root 1 (WalkState.start lowAddr highAddr) = .ok s ∧
          s.compileUnit = compileUnit)
      (roots.filter fun root ↦ TextsFit root)
      (getCompileUnits fresh getFuncAddr lowAddr highAddr roots) := by
  induction roots with
  | nil => exact .nil
  | cons root roots ih =>
    by_cases hfit : TextsFit root
    · obtain ⟨s, hs, hcons⟩ :=
        getCompileUnits_cons_of_textsFit fresh getFuncAddr lowAddr highAddr hfit
      rw [List.filter_cons_of_pos (by simpa using hfit), hcons]
      exact .cons ⟨s, hs, rfl⟩ ih
    · rw [List.filter_cons_of_neg (by simpa using hfit),
        getCompileUnits_cons_of_not_textsFit hfit]
      exact ih

/-- Without the other units the recorded units are the same. -/
theorem getCompileUnits_filter (roots : List (RoseTree Die)) :
    getCompileUnits fresh getFuncAddr lowAddr highAddr (roots.filter fun root ↦ TextsFit root) =
      getCompileUnits fresh getFuncAddr lowAddr highAddr roots := by
  induction roots with
  | nil => rfl
  | cons root roots ih =>
    by_cases hfit : TextsFit root
    · obtain ⟨s, hs, hcons⟩ :=
        getCompileUnits_cons_of_textsFit fresh getFuncAddr lowAddr highAddr hfit
      rw [List.filter_cons_of_pos (by simpa using hfit), hcons, hcons, ih]
    · rw [List.filter_cons_of_neg (by simpa using hfit),
        getCompileUnits_cons_of_not_textsFit hfit, ih]

end Walk

/-- The recorded units are, in order, what the walk collects from the units whose texts fit;
with the others left out of the input, the result is the same. -/
theorem getCompileUnits_isolated (fresh : Int → DatatypeEntry) (getFuncAddr : Text → Word)
    (lowAddr highAddr : Word) (roots : List (RoseTree Die)) :
    List.Forall₂ (fun root compileUnit ↦
        ∃ s, processCuTree fresh getFuncAddr root 1 (WalkState.start lowAddr highAddr) = .ok s ∧
          s.compileUnit = compileUnit)
      (roots.filter fun root ↦ TextsFit root)
      (getCompileUnits fresh getFuncAddr lowAddr highAddr roots) ∧
    getCompileUnits fresh getFuncAddr lowAddr highAddr roots =
      getCompileUnits fresh getFuncAddr lowAddr highAddr
        (roots.filter fun root ↦ TextsFit root) :=
  ⟨forall₂_getCompileUnits fresh getFuncAddr lowAddr highAddr roots,
    (getCompileUnits_filter roots).symm⟩

end ArgsDebugger
