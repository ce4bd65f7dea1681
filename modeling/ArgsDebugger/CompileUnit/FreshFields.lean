import ArgsDebugger.CompileUnit.Collected
import ArgsDebugger.CompileUnit.Isolation
import ArgsDebugger.CompileUnit.TypeChain
import ArgsDebugger.Lib.Pointwise

/-!
# What a record takes from its DIE

`process_cu_tree` declares a `datatype_t` for each DIE and initialises few of its fields
(`src/compile_unit.cc:275–334,372–404`). The others hold the contents of `fresh` until an
attribute is stored. Two walks over one unit with different contents meet the same DIEs; their
records agree on names, types and low addresses, and on a line or a size where the DIE has the
attribute and its tag stores it.
-/

namespace ArgsDebugger

open Lib

/-- The DIE has an attribute with the name. -/
def Die.has (node : Die) (attr : DwAt) : Bool := node.attributes.any fun a ↦ a.1 == attr

/-- `add_datatype_field` stores a byte size for the DIE. -/
def Die.storesByteSize (node : Die) : Bool :=
  node.has .byteSize && decide (node.tag ∈
    [.baseType, .unionType, .pointerType, .structureType, .enumerationType])

/-- Two records with the same name and type. -/
def SameType (dt dt' : DatatypeEntry) : Prop := dt.name = dt'.name ∧ dt.type = dt'.type

/-- Two records with the same name, low address and inline code. -/
def SamePlace (dt dt' : DatatypeEntry) : Prop :=
  dt.name = dt'.name ∧ dt.lowPc = dt'.lowPc ∧ dt.inline = dt'.inline

/-- Two records with the same size. -/
def SameSize (dt dt' : DatatypeEntry) : Prop := dt.byteSize = dt'.byteSize

/-- Two records with the same line. -/
def SameLine (dt dt' : DatatypeEntry) : Prop := dt.declLine = dt'.declLine

/-- What holds of two records before two calls of a setter for one attribute holds behind them. -/
def KeepsBoth (setter : DwAt → Text → DatatypeEntry → Except Failure DatatypeEntry)
    (R : DatatypeEntry → DatatypeEntry → Prop) : Prop :=
  ∀ first second dt₁ dt₂ dt₁' dt₂', R dt₁ dt₂ → setter first second dt₁ = .ok dt₁' →
    setter first second dt₂ = .ok dt₂' → R dt₁' dt₂'

/-- It holds behind two calls for this attribute, whatever was before. -/
def StoresBoth (setter : DwAt → Text → DatatypeEntry → Except Failure DatatypeEntry)
    (attr : DwAt) (R : DatatypeEntry → DatatypeEntry → Prop) : Prop :=
  ∀ second dt₁ dt₂ dt₁' dt₂', setter attr second dt₁ = .ok dt₁' →
    setter attr second dt₂ = .ok dt₂' → R dt₁' dt₂'

section Setters

variable {setter : DwAt → Text → DatatypeEntry → Except Failure DatatypeEntry}
  {number : DwAt → Option NumberFormat} {R : DatatypeEntry → DatatypeEntry → Prop}
  {first : DwAt} {second : Text} {nodeTag : DwTag} {dt dt' : DatatypeEntry}

/-- What writing an attribute into both records keeps, a setter keeps. -/
theorem SetsFields.keepsBoth (h : SetsFields setter number writeDatatype)
    (hwrite : ∀ first second v dt₁ dt₂, R dt₁ dt₂ →
      R (writeDatatype first second v dt₁) (writeDatatype first second v dt₂)) :
    KeepsBoth setter R := by
  intro first second dt₁ dt₂ dt₁' dt₂' hR h₁ h₂
  rcases h.both h₁ h₂ with ⟨rfl, rfl⟩ | ⟨v, rfl, rfl⟩
  · exact hR
  · exact hwrite first second v dt₁ dt₂ hR

/-- What writing a number makes true, a setter that decodes one makes true. -/
theorem SetsFields.storesBoth (h : SetsFields setter number writeDatatype)
    (hnumber : (number first).isSome)
    (hwrite : ∀ second v dt₁ dt₂,
      R (writeDatatype first second v dt₁) (writeDatatype first second v dt₂)) :
    StoresBoth setter first R := by
  obtain ⟨format, hformat⟩ := Option.isSome_iff_exists.mp hnumber
  intro second dt₁ dt₂ dt₁' dt₂' h₁ h₂
  rw [(h.numbers first second _ format hformat).2] at h₁ h₂
  obtain ⟨v, hv, rfl⟩ := map_eq_ok.mp h₁
  rw [hv] at h₂
  cases h₂
  exact hwrite second v dt₁ dt₂

theorem sameType_addDatatypeField (nodeTag : DwTag) :
    KeepsBoth (addDatatypeField nodeTag) SameType := by
  refine (setsFields_addDatatypeField nodeTag).keepsBoth ?_
  intro first second v dt₁ dt₂ hs
  cases first
  case name => exact ⟨rfl, hs.2⟩
  case type => exact ⟨hs.1, rfl⟩
  all_goals exact hs

theorem sameSize_addDatatypeField (nodeTag : DwTag) :
    KeepsBoth (addDatatypeField nodeTag) SameSize := by
  refine (setsFields_addDatatypeField nodeTag).keepsBoth ?_
  intro first second v dt₁ dt₂ hs
  cases first
  case byteSize => rfl
  all_goals exact hs

/-- The attribute with the size of a type that has one is stored. -/
theorem sameSize_addDatatypeField_of_stored
    (htag : nodeTag ∈ [.baseType, .unionType, .pointerType, .structureType, .enumerationType]) :
    StoresBoth (addDatatypeField nodeTag) .byteSize SameSize := by
  have hnumber : (datatypeNumber nodeTag .byteSize).isSome := by
    rw [datatypeNumber, if_pos htag]
    rfl
  exact (setsFields_addDatatypeField nodeTag).storesBoth hnumber fun _ _ _ _ ↦ rfl

/-- No other attribute changes the size. -/
theorem byteSize_addDatatypeField_of_ne
    (hne : ¬ (first = .byteSize ∧ nodeTag ∈
      [.baseType, .unionType, .pointerType, .structureType, .enumerationType]))
    (h : addDatatypeField nodeTag first second dt = .ok dt') : dt'.byteSize = dt.byteSize := by
  by_cases hfirst : first = .byteSize
  · subst hfirst
    rw [addDatatypeField, if_neg fun htag ↦ hne ⟨rfl, htag⟩] at h
    cases h
    rfl
  · refine (setsFields_addDatatypeField nodeTag).keeps (·.byteSize) (fun v ↦ ?_) h
    cases first
    case byteSize => exact absurd rfl hfirst
    all_goals rfl

theorem samePlace_addFunctionField : KeepsBoth addFunctionField SamePlace := by
  refine setsFields_addFunctionField.keepsBoth ?_
  intro first second v dt₁ dt₂ hs
  obtain ⟨hname, hlow, hinline⟩ := hs
  cases first
  case name => exact ⟨rfl, hlow, hinline⟩
  case lowPc => exact ⟨hname, rfl, hinline⟩
  case inline => exact ⟨hname, hlow, rfl⟩
  all_goals exact ⟨hname, hlow, hinline⟩

theorem sameLine_addFunctionField : KeepsBoth addFunctionField SameLine := by
  refine setsFields_addFunctionField.keepsBoth ?_
  intro first second v dt₁ dt₂ hs
  cases first
  case declLine => rfl
  all_goals exact hs

/-- The line of a function is stored. -/
theorem sameLine_addFunctionField_of_stored : StoresBoth addFunctionField .declLine SameLine :=
  setsFields_addFunctionField.storesBoth rfl fun _ _ _ _ ↦ rfl

/-- No other attribute changes the line. -/
theorem declLine_addFunctionField_of_ne (hne : first ≠ .declLine)
    (h : addFunctionField first second dt = .ok dt') : dt'.declLine = dt.declLine := by
  refine setsFields_addFunctionField.keeps (·.declLine) (fun v ↦ ?_) h
  cases first
  case declLine => exact absurd rfl hne
  all_goals rfl

end Setters

section Decode

variable {setter : DwAt → Text → DatatypeEntry → Except Failure DatatypeEntry} {node : Die}
  {dt₁ dt₂ dt₁' dt₂' : DatatypeEntry}

/-- What two calls of a setter keep, two decodes of one DIE keep. -/
theorem KeepsBoth.decode {R : DatatypeEntry → DatatypeEntry → Prop} (hk : KeepsBoth setter R)
    (hR : R dt₁ dt₂) (h₁ : node.decode setter dt₁ = .ok dt₁')
    (h₂ : node.decode setter dt₂ = .ok dt₂') : R dt₁' dt₂' :=
  foldlM_rel R (fun attr ↦ hk attr.1 attr.2) hR h₁ h₂

/-- What the calls for one attribute store, two decodes of a DIE that has it store. -/
theorem KeepsBoth.decode_of_has {R : DatatypeEntry → DatatypeEntry → Prop} {attr : DwAt}
    (hk : KeepsBoth setter R) (hstore : StoresBoth setter attr R) (hattr : node.has attr = true)
    (h₁ : node.decode setter dt₁ = .ok dt₁') (h₂ : node.decode setter dt₂ = .ok dt₂') :
    R dt₁' dt₂' := by
  obtain ⟨⟨first, second⟩, hmem, hfirst⟩ := List.any_eq_true.mp hattr
  cases beq_iff_eq.mp hfirst
  exact foldlM_rel_of_mem R (fun a ↦ hk a.1 a.2) (hstore second) hmem h₁ h₂

end Decode

section Read

variable {fresh₁ fresh₂ : Int → DatatypeEntry} {getFuncAddr : Text → Word}
  {datatypes₁ datatypes₂ : List Datatype} {node : Die} {dt₁ dt₂ : DatatypeEntry}

/-- Linking sets the index alone. -/
theorem linkDatatype_eq (datatypes : List Datatype) (dt : DatatypeEntry) :
    ∃ i, linkDatatype datatypes dt = { dt with datatypeIndex := i } := by
  unfold linkDatatype setDatatype
  split
  · split
    · exact ⟨_, rfl⟩
    · exact ⟨_, rfl⟩
  · exact ⟨dt.datatypeIndex, rfl⟩

theorem decode_of_readDatatype (h : readDatatype fresh₁ datatypes₁ node = .ok dt₁) :
    ∃ dt i, node.decode (addDatatypeField node.tag) (node.openRecord fresh₁) = .ok dt ∧
      dt₁ = { dt with datatypeIndex := i } := by
  obtain ⟨dt, hdt, rfl⟩ := map_eq_ok.mp h
  obtain ⟨i, hi⟩ := linkDatatype_eq datatypes₁ dt
  exact ⟨dt, i, hdt, hi⟩

/-- Two records of one DIE have the same name and type. -/
theorem sameType_readDatatype (h₁ : readDatatype fresh₁ datatypes₁ node = .ok dt₁)
    (h₂ : readDatatype fresh₂ datatypes₂ node = .ok dt₂) : SameType dt₁ dt₂ := by
  obtain ⟨dt, i, hdt, rfl⟩ := decode_of_readDatatype h₁
  obtain ⟨dt', i', hdt', rfl⟩ := decode_of_readDatatype h₂
  have hopen : SameType (node.openRecord fresh₁) (node.openRecord fresh₂) := ⟨rfl, rfl⟩
  have hsame : SameType dt dt' := (sameType_addDatatypeField node.tag).decode hopen hdt hdt'
  exact hsame

/-- They have the same size, if the DIE stores it. -/
theorem sameSize_readDatatype (hs : node.storesByteSize = true)
    (h₁ : readDatatype fresh₁ datatypes₁ node = .ok dt₁)
    (h₂ : readDatatype fresh₂ datatypes₂ node = .ok dt₂) : SameSize dt₁ dt₂ := by
  obtain ⟨dt, i, hdt, rfl⟩ := decode_of_readDatatype h₁
  obtain ⟨dt', i', hdt', rfl⟩ := decode_of_readDatatype h₂
  obtain ⟨hhas, htag⟩ := Bool.and_eq_true_iff.mp hs
  have hsame : SameSize dt dt' := (sameSize_addDatatypeField node.tag).decode_of_has
    (sameSize_addDatatypeField_of_stored (of_decide_eq_true htag)) hhas hdt hdt'
  exact hsame

/-- Otherwise the size is what the record held before. -/
theorem byteSize_readDatatype_of_not (hs : node.storesByteSize = false)
    (h : readDatatype fresh₁ datatypes₁ node = .ok dt₁) :
    dt₁.byteSize = (fresh₁ node.sectionOffset).byteSize := by
  obtain ⟨dt, i, hdt, rfl⟩ := decode_of_readDatatype h
  refine foldlM_invariant (fun dt ↦ dt.byteSize = (fresh₁ node.sectionOffset).byteSize) ?_ rfl hdt
  intro attr hattr r r' hr hstep
  rw [byteSize_addDatatypeField_of_ne ?_ hstep, hr]
  rintro ⟨hfirst, htag⟩
  simp only [Die.storesByteSize, Die.has, Bool.and_eq_false_iff, decide_eq_false_iff_not] at hs
  rcases hs with hs | hs
  · rw [List.any_eq_false] at hs
    exact hs attr hattr (by simp [hfirst])
  · exact hs htag

/-- What is left of a function's record when it is closed. -/
theorem closeFunction_fields (getFuncAddr : Text → Word) (datatypes : List Datatype)
    (dt : DatatypeEntry) :
    let func := closeFunction getFuncAddr datatypes dt
    func.name = dt.name ∧ func.declLine = dt.declLine ∧
      func.lowPc = if dt.lowPc = 0 ∧ dt.inline < 1 then getFuncAddr dt.name else dt.lowPc := by
  obtain ⟨i, hi⟩ := linkDatatype_eq datatypes dt
  simp only [closeFunction, hi]
  split
  · exact ⟨rfl, rfl, rfl⟩
  · exact ⟨rfl, rfl, rfl⟩

/-- Two records of one function have the same name and low address. -/
theorem samePlace_readFunction (h₁ : readFunction fresh₁ getFuncAddr datatypes₁ node = .ok dt₁)
    (h₂ : readFunction fresh₂ getFuncAddr datatypes₂ node = .ok dt₂) :
    dt₁.name = dt₂.name ∧ dt₁.lowPc = dt₂.lowPc := by
  obtain ⟨dt, hdt, rfl⟩ := map_eq_ok.mp h₁
  obtain ⟨dt', hdt', rfl⟩ := map_eq_ok.mp h₂
  have hopen : SamePlace (node.openFunction fresh₁) (node.openFunction fresh₂) := ⟨rfl, rfl, rfl⟩
  have hsame : SamePlace dt dt' := samePlace_addFunctionField.decode hopen hdt hdt'
  obtain ⟨hname, hlow, hinline⟩ := hsame
  obtain ⟨hname₁, -, hlow₁⟩ := closeFunction_fields getFuncAddr datatypes₁ dt
  obtain ⟨hname₂, -, hlow₂⟩ := closeFunction_fields getFuncAddr datatypes₂ dt'
  rw [hname₁, hname₂, hlow₁, hlow₂, hname, hlow, hinline]
  exact ⟨rfl, rfl⟩

/-- They have the same line, if the DIE has one. -/
theorem sameLine_readFunction (hs : node.has .declLine = true)
    (h₁ : readFunction fresh₁ getFuncAddr datatypes₁ node = .ok dt₁)
    (h₂ : readFunction fresh₂ getFuncAddr datatypes₂ node = .ok dt₂) : SameLine dt₁ dt₂ := by
  obtain ⟨dt, hdt, rfl⟩ := map_eq_ok.mp h₁
  obtain ⟨dt', hdt', rfl⟩ := map_eq_ok.mp h₂
  have hsame : SameLine dt dt' := sameLine_addFunctionField.decode_of_has
    sameLine_addFunctionField_of_stored hs hdt hdt'
  rw [SameLine, (closeFunction_fields getFuncAddr datatypes₁ dt).2.1,
    (closeFunction_fields getFuncAddr datatypes₂ dt').2.1]
  exact hsame

/-- Otherwise the line is what the record held before. -/
theorem declLine_readFunction_of_not (hs : node.has .declLine = false)
    (h : readFunction fresh₁ getFuncAddr datatypes₁ node = .ok dt₁) :
    dt₁.declLine = (fresh₁ node.sectionOffset).declLine := by
  obtain ⟨dt, hdt, rfl⟩ := map_eq_ok.mp h
  rw [(closeFunction_fields getFuncAddr datatypes₁ dt).2.1]
  refine foldlM_invariant (fun dt ↦ dt.declLine = (fresh₁ node.sectionOffset).declLine) ?_ rfl hdt
  intro attr hattr r r' hr hstep
  rw [declLine_addFunctionField_of_ne ?_ hstep, hr]
  intro hfirst
  rw [Die.has, List.any_eq_false] at hs
  exact hs attr hattr (by simp [hfirst])

end Read

/-- What an attribute makes of the type that a record of the tag refers to. -/
def typeBehind (nodeTag : DwTag) (type : Int) (attr : DwAt × Text) : Int :=
  if attr.1 = .type then ((datatypeNumber nodeTag .type).bind (·.value attr.2)).getD type
  else type

/-- The type that the attributes of a DIE refer to, 0 for none. -/
def Die.typeRef (node : Die) : Int := node.attributes.foldl (typeBehind node.tag) 0

/-- The first of the types that a DIE refers to. -/
def nextDie (types : List Die) (x : Die) : Option Die :=
  if x.typeRef = 0 then none else types.find? fun i ↦ i.sectionOffset = x.typeRef

section Chain

variable {fresh : Int → DatatypeEntry}

theorem type_addDatatypeField {nodeTag : DwTag} {attr : DwAt × Text} {dt dt' : DatatypeEntry}
    (h : addDatatypeField nodeTag attr.1 attr.2 dt = .ok dt') :
    dt'.type = typeBehind nodeTag dt.type attr := by
  obtain ⟨first, second⟩ := attr
  unfold typeBehind
  by_cases hfirst : first = .type
  · subst hfirst
    simp only [addDatatypeField, if_true, datatypeNumber] at h ⊢
    split_ifs at h ⊢
    · obtain ⟨v, hv, hdt⟩ := bind_eq_ok.mp h
      cases hdt
      have hvalue := (stolBehind_eq_ok_iff (by omega)).mp hv
      rw [Option.bind_some, NumberFormat.value, Option.mem_def.mp hvalue.1, Option.getD_some]
    · cases h
      rfl
  · rw [if_neg hfirst]
    refine (setsFields_addDatatypeField nodeTag).keeps (·.type) (fun v ↦ ?_) h
    cases first
    case type => exact absurd rfl hfirst
    all_goals rfl

/-- The record of a DIE refers to what its attributes refer to. -/
theorem type_eq_typeRef {datatypes : List Datatype} {node : Die} {dt : DatatypeEntry}
    (h : readDatatype fresh datatypes node = .ok dt) : dt.type = node.typeRef := by
  obtain ⟨dt', i, hdt', rfl⟩ := decode_of_readDatatype h
  exact foldlM_map (·.type) (fun _ _ _ hstep ↦ type_addDatatypeField hstep) hdt'

/-- The record was read from the DIE. -/
def OfDie (fresh : Int → DatatypeEntry) (node : Die) (x : Datatype) : Prop :=
  ReadFrom (readDatatype fresh) node x.toDatatypeEntry

/-- The chain of a record follows the chain of its DIE. -/
theorem OfDie.next {types : List Die} {datatypes : List Datatype}
    (hall : List.Forall₂ (OfDie fresh) types datatypes) {node : Die} {x : Datatype}
    (h : OfDie fresh node x) :
    Option.Rel (OfDie fresh) (nextDie types node) (nextType datatypes x) := by
  obtain ⟨-, ds, hread⟩ := h
  have htype := type_eq_typeRef hread
  unfold nextDie nextType
  rw [htype]
  split
  · exact .none
  · apply forall₂_find? hall
    intro d y hy
    rw [hy.1.1]

/-- A chain of DIEs is one of records. -/
theorem OfDie.trail {types : List Die} {datatypes : List Datatype}
    (hall : List.Forall₂ (OfDie fresh) types datatypes) {node : Die} {x : Datatype}
    (h : OfDie fresh node x) {dies : List Die} (ht : Trail (nextDie types) node dies) :
    ∃ chain, Trail (nextType datatypes) x chain ∧ List.Forall₂ (OfDie fresh) dies chain :=
  Trail.rel (fun _ _ ↦ OfDie.next hall) h ht

/-- A chain of records is one of DIEs. -/
theorem OfDie.trail_dies {types : List Die} {datatypes : List Datatype}
    (hall : List.Forall₂ (OfDie fresh) types datatypes) {node : Die} {x : Datatype}
    (h : OfDie fresh node x) {chain : List Datatype} (ht : Trail (nextType datatypes) x chain) :
    ∃ dies, Trail (nextDie types) node dies ∧ List.Forall₂ (OfDie fresh) dies chain := by
  have hflip (y : Datatype) (d : Die) (hd : OfDie fresh d y) :
      Option.Rel (flip (OfDie fresh)) (nextType datatypes y) (nextDie types d) :=
    optionRel_flip (OfDie.next hall hd)
  obtain ⟨dies, hdies, hrel⟩ := Trail.rel hflip h ht
  exact ⟨dies, hdies, hrel.flip⟩

end Chain

/-- What an attribute of a unit makes of its filename. -/
def nameBehind (filename : Text) (attr : DwAt × Text) : Text :=
  if attr.1 = .name then attr.2 else filename

/-- What a DIE makes of the filename of its unit. -/
def filenameBehind (filename : Text) (visited : Nat × Die) : Text :=
  if visited.1 = 1 ∧ visited.2.tag = .compileUnit then
    visited.2.attributes.foldl nameBehind filename
  else filename

section Unit

variable {fresh : Int → DatatypeEntry} {getFuncAddr : Text → Word} {lowAddr highAddr : Word}
  {s s' : WalkState}

theorem filename_setNewCu {attr : DwAt × Text} {cu cu' : CompileUnit}
    (h : setNewCu attr.1 attr.2 cu = .ok cu') : cu'.filename = nameBehind cu.filename attr := by
  obtain ⟨first, second⟩ := attr
  unfold nameBehind
  by_cases hfirst : first = .name
  · subst hfirst
    cases h
    rfl
  · rw [if_neg hfirst]
    refine setsFields_setNewCu.keeps (·.filename) (fun v ↦ ?_) h
    cases first
    case name => exact absurd rfl hfirst
    all_goals rfl

theorem filename_saveMembers (h : saveMembers s = .ok s') :
    s'.compileUnit.filename = s.compileUnit.filename := by
  cases hp : s.prevTag with
  | none =>
    simp only [saveMembers, hp] at h
    cases h
    rfl
  | functions =>
    simp only [saveMembers, hp] at h
    obtain ⟨functions, -, hs'⟩ := bind_eq_ok.mp h
    cases hs'
    rfl
  | datatype =>
    simp only [saveMembers, hp] at h
    obtain ⟨datatypes, -, hs'⟩ := bind_eq_ok.mp h
    cases hs'
    rfl

theorem filename_flushMembers (h : flushMembers s = .ok s') :
    s'.compileUnit.filename = s.compileUnit.filename := by
  unfold flushMembers at h
  split_ifs at h
  · exact filename_saveMembers h
  · cases h
    rfl

/-- A visit changes the filename at the root only. -/
theorem filename_processNode {visited : Nat × Die}
    (h : processNode fresh getFuncAddr visited.1 visited.2 s = .ok s') :
    s'.compileUnit.filename = filenameBehind s.compileUnit.filename visited := by
  obtain ⟨depth, node⟩ := visited
  change processNode fresh getFuncAddr depth node s = .ok s' at h
  have hbelow : depth ≠ 1 → filenameBehind s.compileUnit.filename (depth, node) =
      s.compileUnit.filename := fun hdepth ↦ if_neg fun hroot ↦ hdepth hroot.1
  cases visit_of_processNode h with
  | unit h =>
    unfold startUnit at h
    unfold filenameBehind
    split_ifs at h with htag
    · obtain ⟨cu, hcu, hs'⟩ := bind_eq_ok.mp h
      cases hs'
      rw [if_pos ⟨rfl, htag⟩]
      exact foldlM_map (·.filename) (fun _ _ _ hstep ↦ filename_setNewCu hstep) hcu
    · cases h
      rw [if_neg fun hroot ↦ htag hroot.2]
  | record hflush h =>
    rw [hbelow (by omega), ← filename_flushMembers hflush]
    rcases recordNode_cases h with ⟨-, _, -, rfl⟩ | ⟨-, _, -, rfl⟩ | ⟨-, _, -, rfl⟩
    · rfl
    · rfl
    · rfl
  | collect hdepth h =>
    rw [hbelow (by omega)]
    rcases collectNode_cases h with ⟨-, _, -, rfl⟩ | ⟨-, hsave | rfl⟩
    · rfl
    · exact filename_saveMembers hsave
    · rfl
  | outside => exact (hbelow (by omega)).symm

/-- The unit was read from the tree: its filename is known, and its functions and datatypes were
read from the DIEs at depth 2 and from what is collected below them. -/
structure UnitOf (fresh : Int → DatatypeEntry) (getFuncAddr : Text → Word) (root : RoseTree Die)
    (cu : CompileUnit) : Prop where
  filename : cu.filename = (root.preorder 1).foldl filenameBehind []
  functions : List.Forall₂ (EntryRead fresh (readFunction fresh getFuncAddr))
    (functionEntries (withLater root.children)) cu.functions
  datatypes : List.Forall₂ (EntryRead fresh (readDatatype fresh))
    (datatypeEntries (withLater root.children)) cu.datatypes

/-- The DIEs of the types of a unit. -/
def typeDies (root : RoseTree Die) : List Die :=
  (datatypeEntries (withLater root.children)).map (·.node)

/-- The types of a unit were read from the DIEs of its types. -/
theorem ofDie_datatypes {fresh : Int → DatatypeEntry} {getFuncAddr : Text → Word}
    {root : RoseTree Die} {cu : CompileUnit} (h : UnitOf fresh getFuncAddr root cu) :
    List.Forall₂ (OfDie fresh) (typeDies root) cu.datatypes := by
  rw [typeDies, List.forall₂_map_left_iff]
  exact h.datatypes.imp fun _ _ hx ↦ hx.node

/-- The recorded units were read from the trees whose texts fit. -/
theorem forall₂_unitOf (fresh : Int → DatatypeEntry) (getFuncAddr : Text → Word)
    (lowAddr highAddr : Word) (roots : List (RoseTree Die)) :
    List.Forall₂ (UnitOf fresh getFuncAddr) (roots.filter fun root ↦ TextsFit root)
      (getCompileUnits fresh getFuncAddr lowAddr highAddr roots) := by
  have hunits := forall₂_getCompileUnits fresh getFuncAddr lowAddr highAddr roots
  refine List.Forall₂.imp ?_ (forall₂_with_mem hunits)
  rintro root cu ⟨hmem, s, hs, rfl⟩
  have hfit : TextsFit root := of_decide_eq_true (List.mem_filter.mp hmem).2
  have hdec : Decodes fresh lowAddr highAddr root := decodes_of_textsFit hfit
  obtain ⟨s', hs', houtlines⟩ := processCuTree_outlines getFuncAddr hdec
  rw [outline_eq_unitOutline] at houtlines
  rw [hs] at hs'
  cases hs'
  refine ⟨?_, houtlines.functions, houtlines.datatypes⟩
  rw [processCuTree, RoseTree.walk_eq_foldlM] at hs
  exact foldlM_map (·.compileUnit.filename) (fun _ _ _ hstep ↦ filename_processNode hstep) hs

end Unit

end ArgsDebugger
