import ArgsDebugger.CompileUnit.Renderings
import ArgsDebugger.Lib.Reorder

/-!
# The order of attributes

The attributes of a DIE are decoded one after the other into one record, each into a field of its
own, and what is made of several fields is made behind the loop (`src/compile_unit.cc:235–335`).
So a DIE with each attribute once has the same record in any order of them, or raises in any
order, though not always the same; and the walk, which reads a DIE through its record only, does
the same on both trees.
-/

namespace ArgsDebugger

open Lib

section Setters

theorem writeDatatype_comm (a b : DwAt) (hab : a ≠ b) (s t : Text) (v w : Int)
    (r : DatatypeEntry) :
    writeDatatype a s v (writeDatatype b t w r) = writeDatatype b t w (writeDatatype a s v r) := by
  cases a <;> cases b <;> first
    | exact absurd rfl hab
    | rfl

theorem writeUnit_comm (a b : DwAt) (hab : a ≠ b) (s t : Text) (v w : Int) (r : CompileUnit) :
    writeUnit a s v (writeUnit b t w r) = writeUnit b t w (writeUnit a s v r) := by
  cases a <;> cases b <;> first
    | exact absurd rfl hab
    | rfl

/-- A setter leaves an attribute out in every record, or writes some number and the text, which
depend on the text alone. -/
theorem SetsFields.writes {ρ : Type} {setter : DwAt → Text → ρ → Except Failure ρ}
    {number : DwAt → Option NumberFormat} {write : DwAt → Text → Int → ρ → ρ}
    (h : SetsFields setter number write) (first : DwAt) (second : Text) :
    (∀ r, setter first second r = .ok r) ∨
      ∃ x : Except Failure Int, ∀ r,
        setter first second r = x.map fun v ↦ write first second v r := by
  cases hnumber : number first with
  | none =>
    rcases h.others first second hnumber with hleft | ⟨-, hwrite⟩
    · exact .inl hleft
    · exact .inr ⟨.ok 0, hwrite⟩
  | some format =>
    exact .inr ⟨format.decode second, fun r ↦ (h.numbers first second r format hnumber).2⟩

/-- Different attributes are set in either order, up to what is raised. -/
theorem SetsFields.comm {ρ : Type} {setter : DwAt → Text → ρ → Except Failure ρ}
    {number : DwAt → Option NumberFormat} {write : DwAt → Text → Int → ρ → ρ}
    (h : SetsFields setter number write)
    (hcomm : ∀ a b, a ≠ b → ∀ s t v w r,
      write a s v (write b t w r) = write b t w (write a s v r))
    {a b : DwAt × Text} (hab : a.1 ≠ b.1) (r : ρ) :
    ((setter a.1 a.2 r).toOption >>= fun r ↦ (setter b.1 b.2 r).toOption) =
      (setter b.1 b.2 r).toOption >>= fun r ↦ (setter a.1 a.2 r).toOption := by
  rcases h.writes a.1 a.2 with ha | ⟨x, hx⟩
  · rcases h.writes b.1 b.2 with hb | ⟨y, hy⟩
    · simp only [ha, hb]
    · simp only [ha, hy]
      cases y <;> rfl
  · rcases h.writes b.1 b.2 with hb | ⟨y, hy⟩
    · simp only [hx, hb]
      cases x <;> rfl
    · simp only [hx, hy]
      cases x with
      | error e => cases y <;> rfl
      | ok v =>
        cases y with
        | error e => rfl
        | ok w => exact congrArg some (hcomm b.1 a.1 (Ne.symm hab) b.2 a.2 w v r)

end Setters

/-- The same DIE but for the order of its attributes. -/
structure Die.SameUpToOrder (node node' : Die) : Prop where
  tag : node'.tag = node.tag
  sectionOffset : node'.sectionOffset = node.sectionOffset
  attributes : node.attributes.Perm node'.attributes

/-- No attribute is there twice. -/
def Die.EachOnce (node : Die) : Prop := (node.attributes.map Prod.fst).Nodup

instance (node : Die) : Decidable node.EachOnce := inferInstanceAs (Decidable (List.Nodup _))

section Reads

variable {node node' : Die} (hsame : node.SameUpToOrder node') (honce : node.EachOnce)

include hsame honce

/-- Decoding does not depend on the order of the attributes. -/
theorem SetsFields.decode_perm {ρ : Type} {setter : DwAt → Text → ρ → Except Failure ρ}
    {number : DwAt → Option NumberFormat} {write : DwAt → Text → Int → ρ → ρ}
    (h : SetsFields setter number write)
    (hcomm : ∀ a b, a ≠ b → ∀ s t v w r,
      write a s v (write b t w r) = write b t w (write a s v r)) (r : ρ) :
    (node.decode setter r).toOption = (node'.decode setter r).toOption := by
  unfold Die.decode
  rw [toOption_foldlM, toOption_foldlM]
  exact foldlM_perm_of_nodup Prod.fst hsame.attributes honce (fun a b hab ↦ h.comm hcomm hab) r

variable (fresh : Int → DatatypeEntry) (getFuncAddr : Text → Word) (datatypes : List Datatype)

omit honce in
theorem openRecord_eq : node'.openRecord fresh = node.openRecord fresh := by
  unfold Die.openRecord
  rw [hsame.tag, hsame.sectionOffset]

theorem readDatatype_perm : (readDatatype fresh datatypes node).toOption =
    (readDatatype fresh datatypes node').toOption := by
  unfold readDatatype
  rw [toOption_map, toOption_map, hsame.tag, openRecord_eq hsame,
    (setsFields_addDatatypeField node.tag).decode_perm hsame honce writeDatatype_comm]

theorem readGlobalVariable_perm : (readGlobalVariable fresh datatypes node).toOption =
    (readGlobalVariable fresh datatypes node').toOption := by
  unfold readGlobalVariable
  rw [toOption_map, toOption_map, openRecord_eq hsame,
    setsFields_addGlobalVariableField.decode_perm hsame honce writeDatatype_comm]

theorem readFunction_perm : (readFunction fresh getFuncAddr datatypes node).toOption =
    (readFunction fresh getFuncAddr datatypes node').toOption := by
  unfold readFunction Die.openFunction
  rw [toOption_map, toOption_map, openRecord_eq hsame,
    setsFields_addFunctionField.decode_perm hsame honce writeDatatype_comm]

variable (s : WalkState)

theorem startUnit_perm : (startUnit node s).toOption = (startUnit node' s).toOption := by
  unfold startUnit
  rw [hsame.tag]
  split
  · rw [toOption_bind, toOption_bind,
      setsFields_setNewCu.decode_perm hsame honce writeUnit_comm s.compileUnit]
  · rfl

theorem recordNode_perm : (recordNode fresh getFuncAddr node s).toOption =
    (recordNode fresh getFuncAddr node' s).toOption := by
  unfold recordNode
  rw [hsame.tag]
  split
  · rw [toOption_bind, toOption_bind, readFunction_perm hsame honce]
  · split
    · rw [toOption_bind, toOption_bind, readGlobalVariable_perm hsame honce]
    · rw [toOption_bind, toOption_bind, readDatatype_perm hsame honce]

theorem collectNode_perm :
    (collectNode fresh node s).toOption = (collectNode fresh node' s).toOption := by
  unfold collectNode
  rw [hsame.tag]
  split
  · rfl
  · split
    · rw [toOption_bind, toOption_bind, readDatatype_perm hsame honce]
    · rfl

/-- A visit does not depend on the order of the attributes. -/
theorem processNode_perm (depth : Nat) : (processNode fresh getFuncAddr depth node s).toOption =
    (processNode fresh getFuncAddr depth node' s).toOption := by
  unfold processNode
  split
  · exact startUnit_perm hsame honce s
  · split
    · rw [toOption_bind, toOption_bind]
      exact bind_congr fun s ↦ recordNode_perm hsame honce fresh getFuncAddr s
    · split
      · exact collectNode_perm hsame honce fresh s
      · rfl

end Reads

/-- Nor does the walk, from any state. -/
theorem processCuTree_perm (fresh : Int → DatatypeEntry) (getFuncAddr : Text → Word)
    {root root' : RoseTree Die} {depth : Nat} (honce : ∀ e ∈ root.preorder depth, e.2.EachOnce)
    (hsame : RoseTree.Related Die.SameUpToOrder root root') (s : WalkState) :
    (processCuTree fresh getFuncAddr root depth s).toOption =
      (processCuTree fresh getFuncAddr root' depth s).toOption := by
  unfold processCuTree
  rw [RoseTree.walk_eq_foldlM, RoseTree.walk_eq_foldlM, toOption_foldlM, toOption_foldlM]
  apply foldlM_congr
  have hvisited := (List.forall₂_and_left _ _).mpr ⟨honce, hsame.preorder depth⟩
  apply hvisited.imp
  rintro ⟨d, node⟩ ⟨d', node'⟩ ⟨hnode, hdepth, hperm⟩ s
  obtain rfl : d = d' := hdepth
  exact processNode_perm hperm hnode fresh getFuncAddr s d

/-- The order of attributes: over two trees that differ in the order of the attributes of their
DIEs, no attribute being at a DIE twice, the walks both raise or collect the same unit. -/
theorem processCuTree_attribute_order (fresh : Int → DatatypeEntry) (getFuncAddr : Text → Word)
    (lowAddr highAddr : Word) {root root' : RoseTree Die}
    (honce : ∀ e ∈ root.preorder 1, e.2.EachOnce)
    (hsame : RoseTree.Related Die.SameUpToOrder root root') :
    (∃ e e',
      processCuTree fresh getFuncAddr root 1 (WalkState.start lowAddr highAddr) = .error e ∧
      processCuTree fresh getFuncAddr root' 1 (WalkState.start lowAddr highAddr) = .error e') ∨
    ∃ s s',
      processCuTree fresh getFuncAddr root 1 (WalkState.start lowAddr highAddr) = .ok s ∧
      processCuTree fresh getFuncAddr root' 1 (WalkState.start lowAddr highAddr) = .ok s' ∧
      s'.compileUnit = s.compileUnit := by
  have hwalk := processCuTree_perm fresh getFuncAddr honce hsame (WalkState.start lowAddr highAddr)
  rcases toOption_eq_iff.mp hwalk with herror | ⟨s, hs, hs'⟩
  · exact .inl herror
  · exact .inr ⟨s, s, hs, hs', rfl⟩

/-- A unit with a function, the attributes in the order of their names. -/
def orderedUnit : RoseTree Die :=
  .node ⟨.compileUnit, 11, [(.name, "a.c".toList), (.producer, "cc".toList)]⟩
    [.node ⟨.subprogram, 45, [(.highPc, "0x20".toList), (.lowPc, "0x401000".toList),
      (.name, "f".toList)]⟩ []]

/-- The same unit with the attributes in another order. -/
def reorderedUnit : RoseTree Die :=
  .node ⟨.compileUnit, 11, [(.producer, "cc".toList), (.name, "a.c".toList)]⟩
    [.node ⟨.subprogram, 45, [(.name, "f".toList), (.highPc, "0x20".toList),
      (.lowPc, "0x401000".toList)]⟩ []]

/-- Both are read, to the same unit. -/
theorem processCuTree_attribute_order_sample : ∃ s s',
    processCuTree (fun _ ↦ default) (fun _ ↦ 0) orderedUnit 1 (WalkState.start 0 0) = .ok s ∧
    processCuTree (fun _ ↦ default) (fun _ ↦ 0) reorderedUnit 1 (WalkState.start 0 0) = .ok s' ∧
    s'.compileUnit = s.compileUnit := by
  have honce : ∀ e ∈ orderedUnit.preorder 1, e.2.EachOnce := by decide
  have hunit : Die.SameUpToOrder orderedUnit.label reorderedUnit.label :=
    ⟨rfl, rfl, by decide⟩
  have hsame : RoseTree.Related Die.SameUpToOrder orderedUnit reorderedUnit := by
    simp only [orderedUnit, reorderedUnit, RoseTree.Related, RoseTree.RelatedForest, and_true]
    exact ⟨hunit, rfl, rfl, by decide⟩
  rcases processCuTree_attribute_order (fun _ ↦ default) (fun _ ↦ 0) 0 0 honce hsame with
    ⟨e, -, herror, -⟩ | hread
  · have hfit : TextsFit orderedUnit := by decide
    have hok : (processCuTree (fun _ ↦ default) (fun _ ↦ 0) orderedUnit 1 (.start 0 0)).isOk :=
      processCuTree_isOk_iff.mpr hfit
    rw [herror] at hok
    cases hok
  · exact hread

end ArgsDebugger
