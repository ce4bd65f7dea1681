import ArgsDebugger.CompileUnit.Walk

/-!
# What the walk passes over

Below depth 2 `process_cu_tree` records the fields and stops at the inlined subroutines
(`src/compile_unit.cc:337–404`). Every other DIE there, a lexical block as much as a nested type,
a label or a call site, is passed over: neither its tag nor its attributes nor the level that it
adds to what is below it can be told from the result.
-/

namespace ArgsDebugger

open Lib

/-- A DIE that the walk looks at below depth 2. -/
def Die.isSeen (node : Die) : Bool := node.tag.isField || node.tag == .inlinedSubroutine

/-- A unit without the DIEs that the walk passes over: what is below them has come up to their
place. -/
def splicedUnit (root : RoseTree Die) : RoseTree Die :=
  .node root.label (root.children.map fun t ↦
    .node t.label (RoseTree.splicedForest Die.isSeen t.children))

section Splicing

variable (fresh : Int → DatatypeEntry) (getFuncAddr : Text → Word)

/-- The visit of a DIE that is not looked at. -/
theorem collectNode_of_not_seen {node : Die} (h : node.isSeen = false) (s : WalkState) :
    collectNode fresh node s = .ok s := by
  obtain ⟨hfield, hinl⟩ := Bool.or_eq_false_iff.mp h
  have htag : node.tag ≠ .inlinedSubroutine := by simpa using hinl
  unfold collectNode
  rw [if_neg htag, if_neg (Bool.eq_false_iff.mp hfield)]
  rfl

/-- Below depth 2 the walk does not count the levels. -/
theorem processNode_below {depth : Nat} (h : 3 ≤ depth) :
    processNode fresh getFuncAddr depth = collectNode fresh := by
  funext node s
  unfold processNode
  rw [if_neg (show depth ≠ 1 by omega), if_neg (show depth ≠ 2 by omega),
    if_pos (show 2 < depth by omega)]

/-- The DIEs below depth 2 that are neither fields nor inlined subroutines leave no trace: a unit
and the same unit without them, where their children stand in their place, give the same
records in the same order, or the same exception, from every state of the walk. -/
theorem processCuTree_splicedUnit (root : RoseTree Die) (s : WalkState) :
    processCuTree fresh getFuncAddr (splicedUnit root) 1 s =
      processCuTree fresh getFuncAddr root 1 s := by
  cases root with
  | node unit ts =>
    simp only [processCuTree, splicedUnit, RoseTree.label, RoseTree.children, RoseTree.walk]
    apply bind_congr
    intro s
    induction ts generalizing s with
    | nil => rfl
    | cons t ts ih =>
      cases t with
      | node a us =>
        simp only [List.map_cons, RoseTree.walkForest, RoseTree.walk]
        have hbelow (s : WalkState) := RoseTree.walkForest_splicedForest Die.isSeen
          (fun d hd ↦ processNode_below fresh getFuncAddr hd)
          (fun node hnode ↦ collectNode_of_not_seen fresh hnode) s us
        simp only [hbelow]
        exact bind_congr ih

end Splicing

end ArgsDebugger
