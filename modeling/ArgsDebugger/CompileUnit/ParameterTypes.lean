import ArgsDebugger.CompileUnit.CallingConvention
import ArgsDebugger.CompileUnit.FreshFields

/-!
# The types behind a parameter

A parameter's types are what the `DW_AT_type` of its DIE, and of the DIEs behind it, refer to in
the whole tree of the unit. The debugger looks the references up among the types of depth 2 and
keeps those of some tags only (`src/compile_unit.cc:319–334`, `503–518`), so that its chain of
types is the beginning of theirs.
-/

namespace ArgsDebugger

open Lib

/-- The DIEs of a tree. -/
def diesOf (root : RoseTree Die) : List Die := (root.preorder 1).map Prod.snd

/-- The offset in `DW_AT_type`, whatever the tag of the DIE, 0 for none. -/
def Die.reference (node : Die) : Int := node.attributes.foldl (typeBehind .typedef) 0

/-- The type that a DIE refers to. -/
def typeDie (dies : List Die) (x : Die) : Option Die :=
  if x.reference = 0 then none else dies.find? fun i ↦ i.sectionOffset = x.reference

/-- The number of an attribute, 0 for none. -/
def Die.number (node : Die) (attr : DwAt) : Int :=
  ((node.attributes.find? fun a ↦ a.1 = attr).bind fun a ↦ numeral a.2 0).getD 0

/-- The type that a DIE describes. -/
def Die.type (node : Die) : TypeDie := ⟨node.tag, node.number .byteSize, node.number .encoding⟩

section Links

variable {dies types : List Die} {x y : Die}

/-- A record keeps the reference of its DIE or, by its tag, none. -/
theorem typeRef_eq (node : Die) : node.typeRef = 0 ∨ node.typeRef = node.reference := by
  unfold Die.typeRef Die.reference
  by_cases htag : datatypeNumber node.tag .type = none
  · left
    have hkept : ∀ type attr, typeBehind node.tag type attr = type := by
      intro type attr
      rw [typeBehind, htag]
      exact ite_self type
    rw [show typeBehind node.tag = fun type _ ↦ type from funext₂ hkept]
    exact List.foldl_fixed ..
  · right
    have hformat : datatypeNumber node.tag .type = datatypeNumber .typedef .type := by
      simp only [datatypeNumber] at htag ⊢
      split_ifs at htag ⊢ <;> first | rfl | contradiction
    have hsame : typeBehind node.tag = typeBehind .typedef := by
      funext type attr
      rw [typeBehind, typeBehind, hformat]
    rw [hsame]

/-- Where offsets are distinct, a DIE is found at its own. -/
theorem find?_sectionOffset (hdistinct : (dies.map (·.sectionOffset)).Nodup) (hy : y ∈ dies) :
    dies.find? (fun i ↦ i.sectionOffset = y.sectionOffset) = some y := by
  cases hfind : dies.find? fun i ↦ i.sectionOffset = y.sectionOffset with
  | none =>
    have hnone := List.find?_eq_none.mp hfind y hy
    exact absurd (decide_eq_true rfl) hnone
  | some z =>
    have hz := List.find?_some hfind
    rw [decide_eq_true_eq] at hz
    rw [List.inj_on_of_nodup_map hdistinct (List.mem_of_find?_eq_some hfind) hy hz]

/-- The links of the types that are recorded are links of the tree. -/
theorem typeDie_of_nextDie (hsub : ∀ i ∈ types, i ∈ dies)
    (hdistinct : (dies.map (·.sectionOffset)).Nodup) (h : nextDie types x = some y) :
    typeDie dies x = some y := by
  unfold nextDie at h
  split at h
  · cases h
  · next href =>
    have hkept : x.typeRef = x.reference := (typeRef_eq x).resolve_left href
    rw [hkept] at h href
    have hoffset := List.find?_some h
    rw [decide_eq_true_eq] at hoffset
    rw [typeDie, if_neg href, ← hoffset]
    exact find?_sectionOffset hdistinct (hsub y (List.mem_of_find?_eq_some h))

end Links

section Tree

variable {root t : RoseTree Die} {node : Die}

theorem mem_diesOf_of_child (h : t ∈ root.children) : t.label ∈ diesOf root := by
  have hlabel := (RoseTree.map_label_sublist 2 root.children).subset
    (List.mem_map_of_mem (f := RoseTree.label) h)
  rw [diesOf, RoseTree.preorder_eq_cons, List.map_cons]
  exact List.mem_cons_of_mem _ hlabel

theorem mem_diesOf_of_descendant (h : t ∈ root.children) (hnode : node ∈ descendants t) :
    node ∈ diesOf root := by
  obtain ⟨front, back, hsplit⟩ := List.append_of_mem h
  rw [diesOf, RoseTree.preorder_eq_cons, hsplit, RoseTree.preorderForest_append,
    RoseTree.preorderForest, RoseTree.preorder_eq_cons]
  simp only [List.map_cons, List.map_append, List.mem_cons, List.mem_append]
  exact .inr (.inr (.inl (.inr hnode)))

/-- The DIEs of the recorded types are in the tree. -/
theorem mem_diesOf_of_typeDies (h : node ∈ typeDies root) : node ∈ diesOf root := by
  obtain ⟨e, he, rfl⟩ := List.mem_map.mp h
  obtain ⟨⟨t, later⟩, ht, rfl⟩ := List.mem_map.mp he
  have hmem : t ∈ (withLater root.children).map Prod.fst :=
    List.mem_map_of_mem (f := Prod.fst) (List.mem_filter.mp ht).1
  rw [map_fst_withLater] at hmem
  exact mem_diesOf_of_child hmem

theorem mem_descendants_of_collected (h : node ∈ collected t) : node ∈ descendants t := by
  unfold collected at h
  split at h
  · exact List.mem_of_mem_take (List.mem_filter.mp h).1
  · exact (List.mem_filter.mp h).1

/-- The DIEs of a function's parameters are in the tree. -/
theorem mem_diesOf_of_parameters {e : Entry} (he : e ∈ functionEntries (withLater root.children))
    (h : node ∈ e.parameters) : node ∈ diesOf root := by
  obtain ⟨⟨t, later⟩, ht, rfl⟩ := List.mem_map.mp he
  have hmem : t ∈ (withLater root.children).map Prod.fst :=
    List.mem_map_of_mem (f := Prod.fst) (List.mem_filter.mp ht).1
  rw [map_fst_withLater] at hmem
  unfold functionEntry at h
  split at h
  · rw [Entry.saveFields, Entry.bare, List.nil_append] at h
    exact mem_diesOf_of_descendant hmem (mem_descendants_of_collected (List.mem_filter.mp h).1)
  · exact absurd h List.not_mem_nil

end Tree

section Records

variable {fresh : Int → DatatypeEntry} {getFuncAddr : Text → Word} {root : RoseTree Die}
  {cu : CompileUnit} {node : Die} {funcParam : DatatypeEntry} {types : List Die}

/-- Over a tree whose DIEs have offsets of their own, the chain that is followed from a parameter
is the beginning of its types. -/
theorem UnitOf.follows (h : UnitOf fresh getFuncAddr root cu)
    (hdistinct : ((diesOf root).map (·.sectionOffset)).Nodup)
    (hread : ReadFrom (readDatatype fresh) node funcParam)
    (hformal : funcParam.typeName = .formalParameter)
    (ht : Trail (typeDie (diesOf root)) node types) :
    ∃ chain, FollowsTypes cu funcParam (types.map Die.type) chain := by
  obtain ⟨dies, hdies, hprefix⟩ := ht.prefix_of_le fun _ _ hnext ↦
    typeDie_of_nextDie (fun _ hmem ↦ mem_diesOf_of_typeDies hmem) hdistinct hnext
  obtain ⟨chain, hchain, hrecords⟩ := OfDie.trail (ofDie_datatypes h) (x := funcParam.toDatatype)
    hread hdies
  refine ⟨chain, hformal, hchain, ?_⟩
  have htags : chain.map (·.typeName) = dies.map (·.tag) := by
    have htag := hrecords.imp fun _ _ hof ↦ hof.1.2.symm
    exact (List.forall₂_eq_eq_eq ▸ List.forall₂_map_left_iff.mpr
      (List.forall₂_map_right_iff.mpr htag)).symm
  rw [htags, List.map_map]
  exact hprefix.map _

/-- Registers of scalars, from the trees of the units on: for a formal parameter of a function in
a unit that was read, with the types that the references in the tree lead to, the rendering is
that of the register of the convention exactly when the place fits and the types that are
recorded give the scalar away. -/
theorem getCompileUnits_register_iff (fresh : Int → DatatypeEntry) (getFuncAddr : Text → Word)
    (lowAddr highAddr : Word) (roots : List (RoseTree Die))
    (hdistinct : ∀ root ∈ roots, ((diesOf root).map (·.sectionOffset)).Nodup) (cu : CompileUnit)
    (hcu : cu ∈ getCompileUnits fresh getFuncAddr lowAddr highAddr roots) (func : Datatype)
    (hfunc : func ∈ cu.functions) (index : Nat) (funcParam : DatatypeEntry)
    (hparam : func.parameters[index]? = some funcParam)
    (hformal : funcParam.typeName = .formalParameter) :
    ∃ root ∈ roots, ∃ node ∈ diesOf root, funcParam.IsOf node ∧
      ∀ types, Trail (typeDie (diesOf root)) node types →
      ∀ kind, argClass (types.map Die.type) = some (.scalar kind) →
      ∀ hidden classes register, passedIn hidden classes index = some (kind, register) →
        ∃ chain, FollowsTypes cu funcParam (types.map Die.type) chain ∧
          ∀ units cuIndex fnIndex, (∀ fuel mem u regs shown,
            parameterEntry fuel mem u units cu regs cuIndex fnIndex index funcParam = .ok shown →
              ShowsRegister kind (regs.get register) shown.value) ↔
            toInt32 (index + 1) = registersTaken hidden (classes.take index) + 1 ∧
              Recognised kind funcParam chain := by
  obtain ⟨root, hroot, hunit⟩ :=
    (forall₂_mem (forall₂_unitOf fresh getFuncAddr lowAddr highAddr roots)).2 cu hcu
  obtain ⟨hroot, -⟩ := List.mem_filter.mp hroot
  obtain ⟨e, he, hentry⟩ := (forall₂_mem hunit.functions).2 func hfunc
  obtain ⟨node, hnode, hread⟩ := forall₂_getElem? hentry.parameters.flip hparam
  have hmem := mem_diesOf_of_parameters he (List.mem_of_getElem? hnode)
  refine ⟨root, hroot, node, hmem, hread.1, ?_⟩
  intro types ht kind hclass hidden classes register hpassed
  obtain ⟨chain, hfollows⟩ := hunit.follows (hdistinct root hroot) hread hformal ht
  refine ⟨chain, hfollows, ?_⟩
  intro units cuIndex fnIndex
  exact showsRegister_iff hformal hfollows.trail (hfollows.seenAs hclass)
    (register_of_passedIn hpassed)

/-- A unit with a function of a `double` and a `const int`. -/
def typedUnit : RoseTree Die :=
  .node ⟨.compileUnit, 0xb, []⟩
    [.node ⟨.baseType, 0x2d, [(.name, "int".toList), (.byteSize, "4".toList),
        (.encoding, "5".toList)]⟩ [],
      .node ⟨.baseType, 0x34, [(.name, "double".toList), (.byteSize, "8".toList),
        (.encoding, "4".toList)]⟩ [],
      .node ⟨.constType, 0x3b, [(.type, "<0x2d>".toList)]⟩ [],
      .node ⟨.subprogram, 0x40, [(.name, "f".toList), (.lowPc, "0x10".toList)]⟩
        [.node ⟨.formalParameter, 0x50, [(.type, "<0x34>".toList)]⟩ [],
          .node ⟨.formalParameter, 0x58, [(.type, "<0x3b>".toList)]⟩ []],
      .node ⟨.pointerType, 0x61, []⟩ []]

/-- The unit that is recorded of it. -/
def typedCu : CompileUnit :=
  (getCompileUnits (fun _ ↦ default) (fun _ ↦ 0) 0 0 [typedUnit]).headD (unitOf [])

def typedFunction : Datatype := typedCu.functions.headD ⟨default, [], []⟩

def typedConst : DatatypeEntry := typedFunction.parameters[1]?.getD default

def typedType (idx : Nat) : Datatype := typedCu.datatypes[idx]?.getD ⟨default, [], []⟩

theorem trail_typedConst :
    Trail (nextType typedCu.datatypes) typedConst.toDatatype [typedType 2, typedType 0] := by
  apply Trail.step
  · decide +kernel
  · apply Trail.step
    · decide +kernel
    · apply Trail.stop
      decide +kernel

/-- Behind the hidden address of a result the `const int` is passed in `rsi`, and shown from it. -/
theorem getCompileUnits_register_iff_sample : ∃ shown,
    parameterEntry 4 zeroMemory zeroUninitialised [typedCu] typedCu
      ⟨28335728, 900, 0, 0, 0, 0, 0⟩ 0 0 1 typedConst = .ok shown ∧
        ShowsRegister .integer 900 shown.value := by
  have hcu : typedCu ∈ getCompileUnits (fun _ ↦ default) (fun _ ↦ 0) 0 0 [typedUnit] := by
    decide +kernel
  have hfunc : typedFunction ∈ typedCu.functions := by decide +kernel
  have hparam : typedFunction.parameters[1]? = some typedConst := by decide +kernel
  have hof : typedConst.typeName = .formalParameter ∧ typedConst.sectionOffset = 0x58 := by
    decide +kernel
  have hname : Recognised .integer typedConst [typedType 2, typedType 0] :=
    ⟨by decide +kernel, .inl (by decide +kernel)⟩
  obtain ⟨root, hroot, node, hnode, hisOf, hregister⟩ := getCompileUnits_register_iff _ _ _ _ _
    (by decide) typedCu hcu typedFunction hfunc 1 typedConst hparam hof.1
  rw [List.mem_singleton] at hroot
  subst hroot
  have hsame : ∀ node ∈ diesOf typedUnit, node.sectionOffset = 0x58 →
      node = ⟨.formalParameter, 0x58, [(.type, "<0x3b>".toList)]⟩ := by decide
  rw [hsame node hnode (hisOf.1.symm.trans hof.2)] at hregister
  obtain ⟨chain, hfollows, hshows⟩ := hregister _ (.step rfl (.step rfl (.stop rfl))) .integer rfl
    1 [.floating, .scalar .integer] .rsi rfl
  rw [hfollows.trail.unique trail_typedConst] at hshows
  obtain ⟨shown, hshown⟩ := isOk_iff_exists.mp (show (parameterEntry 4 zeroMemory
    zeroUninitialised [typedCu] typedCu ⟨28335728, 900, 0, 0, 0, 0, 0⟩ 0 0 1 typedConst).isOk by
      decide +kernel)
  exact ⟨shown, hshown, (hshows [typedCu] 0 0).mpr ⟨by decide, hname⟩ _ _ _ _ _ hshown⟩

end Records

end ArgsDebugger
