import ArgsDebugger.CompileUnit.Payload

/-!
# Registers of the calling convention

The x86-64 System V convention hands the general registers out in order, each argument taking
none, one or two of them, and the debugger reads the register at a parameter's place
(`src/compile_unit.cc:734–802`). The convention is stated here in its own terms, on hidden
arguments and the classes of the others, whatever the debugger has recorded of their types. The
two agree on a scalar exactly when the arguments before it took one register each on balance.
-/

namespace ArgsDebugger

open Lib Lib.Budget

section Convention

/-- What a scalar in a general register is shown as. -/
inductive ScalarKind where
  | integer | pointer
  deriving DecidableEq, Repr

/-- How an argument is passed. A block is a structure of class INTEGER, or an integer of more
than eight bytes, of some size. -/
inductive ArgClass where
  | scalar (kind : ScalarKind)
  | floating
  | block (byteSize : Int)
  deriving DecidableEq, Repr

/-- The general argument registers, in the order of the convention. -/
def argRegisters : List ArgRegister := [.rdi, .rsi, .rdx, .rcx, .r8, .r9]

/-- The general registers an argument takes when some are taken. What needs more than are left,
or more than two, goes to memory and takes none. -/
def ArgClass.takes (taken : Nat) : ArgClass → Nat
  | .scalar _ => if taken + 1 ≤ 6 then 1 else 0
  | .floating => 0
  | .block byteSize =>
    if byteSize ≤ 8 then if taken + 1 ≤ 6 then 1 else 0
    else if byteSize ≤ 16 then if taken + 2 ≤ 6 then 2 else 0
    else 0

/-- The general registers taken behind some arguments. -/
def registersTaken (taken : Nat) (classes : List ArgClass) : Nat :=
  classes.foldl (fun taken c ↦ taken + c.takes taken) taken

/-- The general register in which a scalar argument is passed, when `taken` registers went to
hidden arguments, as the address of a result that is returned in memory. -/
def passedIn (taken : Nat) (classes : List ArgClass) (index : Nat) :
    Option (ScalarKind × ArgRegister) :=
  match classes[index]? with
  | some (.scalar kind) =>
    (argRegisters[registersTaken taken (classes.take index)]?).map fun register ↦ (kind, register)
  | _ => none

end Convention

section Classes

/-- A type as the debugging information has it: the tag of its DIE, its size and, of a base type,
its encoding. -/
structure TypeDie where
  tag : DwTag
  byteSize : Int
  encoding : Int
  deriving DecidableEq, Repr

/-- A type that only renames or qualifies the one behind it: typedef, const, volatile, restrict
and atomic. -/
def TypeDie.isQualifier (i : TypeDie) : Bool :=
  i.tag ∈ [.typedef, .constType, .other 0x35, .other 0x37, .other 0x47]

/-- `DW_ATE_float`. -/
def isFloatEncoding (encoding : Int) : Bool := encoding = 4

/-- `DW_ATE_boolean`, the signed and unsigned integers and characters, and `DW_ATE_UTF`. -/
def isIntegerEncoding (encoding : Int) : Bool :=
  encoding = 2 || encoding = 5 || encoding = 6 || encoding = 7 || encoding = 8 || encoding = 0x10

/-- The class of an argument with the types: a base type ends them, an enumeration ends them or
names its base type, a pointer may point to any type, and structures are those of class
INTEGER. -/
def argClass (types : List TypeDie) : Option ArgClass :=
  match types.dropWhile TypeDie.isQualifier with
  | [] => none
  | i :: rest =>
    if i.tag = .pointerType then
      if rest.all fun j ↦ j.tag ≠ .unspecifiedParameters then some (.scalar .pointer) else none
    else if i.tag = .structureType then some (.block i.byteSize)
    else if i.tag = .enumerationType then
      if rest.all fun j ↦ j.isQualifier || j.tag = .baseType then some (.scalar .integer)
      else none
    else if i.tag = .baseType ∧ rest = [] then
      if isFloatEncoding i.encoding then some .floating
      else if isIntegerEncoding i.encoding then
        if i.byteSize ≤ 8 then some (.scalar .integer) else some (.block i.byteSize)
      else none
    else none

/-- The debugger follows the types of a formal parameter as far as it can: its chain may end
before they do, behind a type that is not recorded at depth 2 or keeps no reference. -/
structure FollowsTypes (cu : CompileUnit) (funcParam : DatatypeEntry) (types : List TypeDie)
    (chain : List Datatype) : Prop where
  formal : funcParam.typeName = .formalParameter
  trail : Trail (nextType cu.datatypes) funcParam.toDatatype chain
  recorded : chain.map (·.typeName) <+: types.map (·.tag)

end Classes

/-- A scalar's text shows the contents of a register: an integer in decimal, a pointer in
hexadecimal, and null in either of its two spellings. -/
def ShowsRegister (kind : ScalarKind) (value : Word) (text : Text) : Prop :=
  match kind with
  | .integer => text = decimal value.toInt
  | .pointer => text = longToHexString value ∨ value = 0 ∧ text = "0x0".toList

/-- The text of a parameter's types, as `get_datatype_metadata` composes it. -/
def typeText (funcParam : DatatypeEntry) (chain : List Datatype) : Text :=
  (described funcParam.toDatatype chain (newParameter 0 0 false funcParam)).dtName

/-- The recorded types of an integer name its value: one of them is a base type, and their text
has a word for numbers or characters in it. -/
def NamesValue (funcParam : DatatypeEntry) (chain : List Datatype) : Prop :=
  .baseType ∈ chain.map (·.typeName) ∧
    (isNumberValue (typeText funcParam chain) = true ∨
      isStringValue (typeText funcParam chain) = true)

/-- The recorded types give a scalar of the kind away. -/
def Recognised (kind : ScalarKind) (funcParam : DatatypeEntry) (chain : List Datatype) : Prop :=
  match kind with
  | .integer => NamesValue funcParam chain
  | .pointer => .pointerType ∈ chain.map (·.typeName)

section Tags

variable {dtName : Text} {tags : List DwTag} {s : TagScan}

/-- A tag that a scan for values passes over, or the base type. -/
def PlainTag (i : DwTag) : Prop :=
  i ≠ .pointerType ∧ i ≠ .arrayType ∧ i ≠ .structureType ∧ i ≠ .unspecifiedParameters

theorem tag_of_plain {i : DwTag} (hplain : PlainTag i) (hbase : i ≠ .baseType) :
    s.tag dtName i = s := by
  obtain ⟨hpointer, harray, hstructure, -⟩ := hplain
  unfold TagScan.tag
  split <;> first | contradiction | rfl

theorem tag_baseType_idem : (s.tag dtName .baseType).tag dtName .baseType =
    s.tag dtName .baseType := by
  simp only [TagScan.tag]
  split_ifs <;> rfl

/-- Over plain tags only a base type counts. -/
theorem scanTags_of_plain (hplain : ∀ i ∈ tags, PlainTag i) :
    scanTags dtName tags s = if .baseType ∈ tags then s.tag dtName .baseType else s := by
  induction tags generalizing s with
  | nil => rfl
  | cons i tags ih =>
    have hi := hplain i List.mem_cons_self
    have htags := fun j hj ↦ hplain j (List.mem_cons_of_mem i hj)
    rw [scanTags, if_neg hi.2.2.2, ih htags]
    by_cases hbase : i = .baseType
    · subst hbase
      rw [tag_baseType_idem, if_pos List.mem_cons_self, ite_self]
    · rw [tag_of_plain hi hbase]
      simp only [List.mem_cons, Ne.symm hbase, false_or]

theorem pointerCount_le_tag (i : DwTag) : s.pointerCount ≤ (s.tag dtName i).pointerCount := by
  unfold TagScan.tag
  split
  · exact Nat.le_succ _
  · exact Nat.le_succ _
  · split_ifs <;> exact le_rfl
  · exact le_rfl
  · exact le_rfl

/-- Without unspecified parameters among the tags the scan goes to their end and counts every
pointer and every array. -/
theorem scanTags_of_specified (hspec : ∀ i ∈ tags, i ≠ .unspecifiedParameters) :
    (scanTags dtName tags s).unspecified = s.unspecified ∧
      s.pointerCount ≤ (scanTags dtName tags s).pointerCount ∧
      ((∃ i ∈ tags, i = .pointerType ∨ i = .arrayType) →
        s.pointerCount < (scanTags dtName tags s).pointerCount) := by
  induction tags generalizing s with
  | nil => exact ⟨rfl, le_rfl, fun ⟨_, h, _⟩ ↦ absurd h List.not_mem_nil⟩
  | cons i tags ih =>
    obtain ⟨hunspecified, hle, hlt⟩ := ih (s := s.tag dtName i)
      fun j hj ↦ hspec j (List.mem_cons_of_mem i hj)
    have htag : s.pointerCount ≤ (s.tag dtName i).pointerCount := pointerCount_le_tag i
    have hsame : (s.tag dtName i).unspecified = s.unspecified := by
      unfold TagScan.tag
      split <;> try rfl
      split_ifs <;> rfl
    rw [scanTags, if_neg (hspec i List.mem_cons_self)]
    refine ⟨hunspecified.trans hsame, htag.trans hle, ?_⟩
    rintro ⟨j, hmem, hj⟩
    rcases List.mem_cons.mp hmem with rfl | hmem
    · have hcounted : s.pointerCount < (s.tag dtName j).pointerCount := by
        rcases hj with rfl | rfl
        · exact Nat.lt_succ_self _
        · exact Nat.lt_succ_self _
      exact Nat.lt_of_lt_of_le hcounted hle
    · exact Nat.lt_of_le_of_lt htag (hlt ⟨j, hmem, hj⟩)

/-- Unspecified parameters anywhere among the tags end the scan of them. -/
theorem scanTags_unspecified_of_mem (h : .unspecifiedParameters ∈ tags) :
    (scanTags dtName tags s).unspecified = true := by
  induction tags generalizing s with
  | nil => exact absurd h List.not_mem_nil
  | cons i tags ih =>
    unfold scanTags
    split
    · rfl
    · next hi => exact ih (List.mem_of_ne_of_mem (Ne.symm hi) h)

end Tags

section Chains

variable {types : List TypeDie} {tags : List DwTag} {cu : CompileUnit} {chain : List Datatype}
  {funcParam : DatatypeEntry}

theorem plainTag_of_isQualifier {i : TypeDie} (h : i.isQualifier = true) :
    PlainTag i.tag ∧ i.tag ≠ .baseType := by
  have hcases : i.tag ∈ [.typedef, .constType, .other 0x35, .other 0x37, .other 0x47] := by
    simpa [TypeDie.isQualifier] using h
  simp only [List.mem_cons, List.not_mem_nil, or_false] at hcases
  rcases hcases with h | h | h | h | h
  all_goals
    rw [h]
    exact ⟨⟨by decide, by decide, by decide, by decide⟩, by decide⟩

/-- The types of an integer have plain tags. -/
theorem plainTag_of_integer (h : argClass types = some (.scalar .integer)) :
    ∀ i ∈ types.map (·.tag), PlainTag i := by
  have hbase : PlainTag .baseType := ⟨by decide, by decide, by decide, by decide⟩
  have henumeration : PlainTag .enumerationType := ⟨by decide, by decide, by decide, by decide⟩
  intro i hi
  obtain ⟨x, hx, rfl⟩ := List.mem_map.mp hi
  rw [← List.takeWhile_append_dropWhile (p := TypeDie.isQualifier) (l := types),
    List.mem_append] at hx
  rcases hx with hx | hx
  · exact (plainTag_of_isQualifier (List.mem_takeWhile_imp hx)).1
  · unfold argClass at h
    split at h
    · cases h
    · next t rest hrest =>
      rw [hrest] at hx
      split at h
      · split at h <;> cases h
      · split at h
        · cases h
        · split at h
          · next henum =>
            split at h
            · next hall =>
              rcases List.mem_cons.mp hx with rfl | hx
              · rw [henum]
                exact henumeration
              · have hx' := List.all_eq_true.mp hall x hx
                rw [Bool.or_eq_true, decide_eq_true_eq] at hx'
                rcases hx' with hq | hb
                · exact (plainTag_of_isQualifier hq).1
                · rw [hb]
                  exact hbase
            · cases h
          · split at h
            · next hend =>
              rw [hend.2, List.mem_singleton] at hx
              rw [hx, hend.1]
              exact hbase
            · cases h

/-- The types of a pointer are qualifiers, the pointer and whatever it points to, which is no
list of unspecified parameters. -/
theorem types_of_pointer (h : argClass types = some (.scalar .pointer)) :
    ∃ qualifiers t rest, types = qualifiers ++ t :: rest ∧
      (∀ i ∈ qualifiers, i.isQualifier = true) ∧ t.tag = .pointerType ∧
        ∀ i ∈ rest, i.tag ≠ .unspecifiedParameters := by
  have hsplit := List.takeWhile_append_dropWhile (p := TypeDie.isQualifier) (l := types)
  unfold argClass at h
  split at h
  · cases h
  · next t rest hrest =>
    split at h
    · next hpointer =>
      split at h
      · next hall =>
        rw [hrest] at hsplit
        refine ⟨_, t, rest, hsplit.symm, fun i hi ↦ List.mem_takeWhile_imp hi, hpointer, ?_⟩
        intro i hi
        simpa using List.all_eq_true.mp hall i hi
      · cases h
    · split at h
      · cases h
      · split at h
        · split at h <;> cases h
        · split at h
          · split at h
            · cases h
            · split at h
              · split at h <;> cases h
              · cases h
          · cases h

/-- A list that begins as another one, with an element in it, has the element or ends before
it. -/
theorem mem_or_isPrefix_of_isPrefix {α : Type} {l front back : List α} {x : α}
    (h : l <+: front ++ x :: back) : x ∈ l ∨ l <+: front := by
  have hsplit : front ++ [x] <+: front ++ x :: back := by
    rw [List.append_cons front x back]
    exact List.prefix_append ..
  rcases List.prefix_or_prefix_of_prefix h hsplit with hshort | hlong
  · rcases List.prefix_concat_iff.mp hshort with rfl | hshort
    · exact .inl (by simp)
    · exact .inr hshort
  · exact .inl (hlong.subset (by simp))

/-- What is recorded of a scalar's types: of an integer's the tags are plain; of a pointer's none
is that of unspecified parameters, and up to the pointer they are plain. -/
def SeenAs (kind : ScalarKind) (chain : List Datatype) : Prop :=
  match kind with
  | .integer => ∀ i ∈ chain.map (·.typeName), PlainTag i
  | .pointer => (∀ i ∈ chain.map (·.typeName), i ≠ .unspecifiedParameters) ∧
    (.pointerType ∉ chain.map (·.typeName) →
      ∀ i ∈ chain.map (·.typeName), PlainTag i ∧ i ≠ .baseType)

theorem FollowsTypes.seenAs {kind : ScalarKind} (h : FollowsTypes cu funcParam types chain)
    (hclass : argClass types = some (.scalar kind)) : SeenAs kind chain := by
  cases kind with
  | integer => exact fun i hi ↦ plainTag_of_integer hclass i (h.recorded.subset hi)
  | pointer =>
    obtain ⟨qualifiers, t, rest, rfl, hqualifiers, hpointer, hrest⟩ := types_of_pointer hclass
    have hrecorded := h.recorded
    rw [List.map_append, List.map_cons, hpointer] at hrecorded
    have hplain : ∀ i ∈ qualifiers.map (·.tag), PlainTag i ∧ i ≠ .baseType := by
      intro i hi
      obtain ⟨x, hx, rfl⟩ := List.mem_map.mp hi
      exact plainTag_of_isQualifier (hqualifiers x hx)
    constructor
    · intro i hi
      rcases List.mem_append.mp (hrecorded.subset hi) with hi | hi
      · exact (hplain i hi).1.2.2.2
      · rcases List.mem_cons.mp hi with rfl | hi
        · decide
        · obtain ⟨x, hx, rfl⟩ := List.mem_map.mp hi
          exact hrest x hx
    · intro hnone i hi
      rcases mem_or_isPrefix_of_isPrefix hrecorded with hmem | hshort
      · exact absurd hmem hnone
      · exact hplain i (hshort.subset hi)

/-- The text of types depends on the names behind which they are appended only. -/
theorem foldl_visit_dt (chain : List Datatype) {s s' : MetadataScan} (hdt : s.dt = s'.dt)
    (hnames : s.param.datatypes = s'.param.datatypes) :
    (chain.foldl MetadataScan.visit s).dt = (chain.foldl MetadataScan.visit s').dt := by
  induction chain generalizing s s' with
  | nil => exact hdt
  | cons i chain ih =>
    apply ih
    · simp only [MetadataScan.visit, hdt, hnames]
    · simp only [MetadataScan.visit, hnames]

/-- The scan over the tags of a formal parameter. -/
theorem tagsOf_describedParameter (chain : List Datatype)
    (hformal : funcParam.typeName = .formalParameter) (u : Uninitialised)
    (cuIndex fnIndex : Int) (index : Nat) :
    tagsOf (describedParameter u cuIndex fnIndex index funcParam chain) =
      scanTags (typeText funcParam chain) (chain.map (·.typeName)) .start := by
  have hspecified : funcParam.toDatatype.typeName ≠ .unspecifiedParameters := by
    change funcParam.typeName ≠ _
    rw [hformal]
    decide
  have hnames : (describedParameter u cuIndex fnIndex index funcParam chain).datatypes =
      chain.map (·.typeName) := by
    rw [describedParameter, described_datatypes, if_neg hspecified]
    rfl
  have htext : (describedParameter u cuIndex fnIndex index funcParam chain).dtName =
      typeText funcParam chain := by
    apply foldl_visit_dt chain
    · simp only [MetadataScan.start, if_neg hspecified]
    · simp only [MetadataScan.start, if_neg hspecified, newParameter]
  rw [tagsOf, hnames, htext]

end Chains

section Shown

variable {chain : List Datatype} (funcParam : DatatypeEntry) {kind : ScalarKind}
  {value value' : Word} {text : Text} {mem : Memory}

/-- The scan over the tags behind a parameter. -/
def chainTags (funcParam : DatatypeEntry) (chain : List Datatype) : TagScan :=
  scanTags (typeText funcParam chain) (chain.map (·.typeName)) .start

/-- Over the types of an integer only a base type with a name counts. -/
theorem chainTags_of_integer (h : SeenAs .integer chain) :
    (chainTags funcParam chain).unspecified = false ∧
      (chainTags funcParam chain).pointerCount = 0 ∧
      (NamesValue funcParam chain → (chainTags funcParam chain).datatypeName = .number ∨
        (chainTags funcParam chain).datatypeName = .string) ∧
      (¬ NamesValue funcParam chain → (chainTags funcParam chain).datatypeName = .empty) := by
  unfold chainTags NamesValue
  rw [scanTags_of_plain h]
  by_cases hbase : .baseType ∈ chain.map (·.typeName)
  · simp only [if_pos hbase, TagScan.tag]
    by_cases hstring : isStringValue (typeText funcParam chain) = true
    · simp [hstring, hbase, TagScan.start]
    · by_cases hnumber : isNumberValue (typeText funcParam chain) = true
      · simp [hstring, hnumber, hbase, TagScan.start]
      · simp [hstring, hnumber, TagScan.start]
  · simp [TagScan.start, hbase]

/-- Over the types of a pointer the pointer counts, when it is recorded. -/
theorem chainTags_of_pointer (h : SeenAs .pointer chain) :
    (chainTags funcParam chain).unspecified = false ∧
      (.pointerType ∈ chain.map (·.typeName) → (chainTags funcParam chain).pointerCount ≠ 0) ∧
      (.pointerType ∉ chain.map (·.typeName) → (chainTags funcParam chain).pointerCount = 0 ∧
        (chainTags funcParam chain).datatypeName = .empty) := by
  obtain ⟨hspecified, hplain⟩ := h
  have hscan : (chainTags funcParam chain).unspecified = TagScan.start.unspecified ∧
      TagScan.start.pointerCount ≤ (chainTags funcParam chain).pointerCount ∧
      ((∃ i ∈ chain.map (·.typeName), i = .pointerType ∨ i = .arrayType) →
        TagScan.start.pointerCount < (chainTags funcParam chain).pointerCount) :=
    scanTags_of_specified hspecified
  refine ⟨hscan.1, ?_, ?_⟩
  · intro hpointer
    exact Nat.pos_iff_ne_zero.mp (hscan.2.2 ⟨_, hpointer, .inl rfl⟩)
  · intro hnone
    have hbase : .baseType ∉ chain.map (·.typeName) := fun hmem ↦ (hplain hnone _ hmem).2 rfl
    rw [chainTags, scanTags_of_plain fun i hi ↦ (hplain hnone i hi).1, if_neg hbase]
    exact ⟨rfl, rfl⟩

/-- A scalar is no structure passed by value. -/
theorem chainTags_of_scalar (h : SeenAs kind chain)
    (hcount : (chainTags funcParam chain).pointerCount = 0) :
    (chainTags funcParam chain).datatypeName ≠ .struct := by
  cases kind with
  | pointer =>
    obtain ⟨-, hcounted, hempty⟩ := chainTags_of_pointer funcParam h
    by_cases hpointer : .pointerType ∈ chain.map (·.typeName)
    · exact absurd hcount (hcounted hpointer)
    · simp [(hempty hpointer).2]
  | integer =>
    obtain ⟨-, -, hnamed, hunnamed⟩ := chainTags_of_integer funcParam h
    by_cases hname : NamesValue funcParam chain
    · rcases hnamed hname with heq | heq <;> simp [heq]
    · simp [hunnamed hname]

/-- A text that `stol` does not read shows no integer. -/
theorem not_showsRegister_of_error {e : Failure} (h : stol text 0 = .error e) :
    ¬ ShowsRegister .integer value text := by
  intro htext
  have hread := stol_decimal_toInt value
  rw [← htext, h] at hread
  cases hread

/-- The text of a value of which nothing is known. -/
theorem not_showsRegister_unknown : ¬ ShowsRegister kind value "unknown".toList := by
  cases kind with
  | integer => exact not_showsRegister_of_error (e := .invalidArgument) rfl
  | pointer =>
    rintro (h | ⟨-, h⟩)
    · unfold longToHexString at h
      split at h <;> cases h
    · cases h

/-- What nothing is known of is shown as such. -/
theorem valueText_of_unrecognised (h : SeenAs kind chain)
    (hkind : ¬ Recognised kind funcParam chain) :
    valueText mem value (chainTags funcParam chain) = "unknown".toList := by
  cases kind with
  | integer =>
    obtain ⟨hunspecified, hcount, -, hempty⟩ := chainTags_of_integer funcParam h
    simp only [valueText, hunspecified, Bool.false_eq_true, if_false, if_pos hcount, hempty hkind,
      plainText]
  | pointer =>
    obtain ⟨hunspecified, -, hempty⟩ := chainTags_of_pointer funcParam h
    obtain ⟨hcount, hname⟩ := hempty hkind
    simp only [valueText, hunspecified, Bool.false_eq_true, if_false, if_pos hcount, hname,
      plainText]

/-- A scalar whose types do not give it away shows no register. -/
theorem not_showsRegister_of_unrecognised (h : SeenAs kind chain)
    (hkind : ¬ Recognised kind funcParam chain) :
    ¬ ShowsRegister kind value (valueText mem value' (chainTags funcParam chain)) := by
  rw [valueText_of_unrecognised funcParam h hkind]
  exact not_showsRegister_unknown

/-- The text of a scalar shows its register, when its types give it away. -/
theorem showsRegister_valueText (h : SeenAs kind chain) (hkind : Recognised kind funcParam chain) :
    ShowsRegister kind value (valueText mem value (chainTags funcParam chain)) := by
  cases kind with
  | pointer =>
    obtain ⟨hunspecified, hcounted, -⟩ := chainTags_of_pointer funcParam h
    simp only [ShowsRegister, valueText, hunspecified, Bool.false_eq_true, if_false,
      if_neg (hcounted hkind)]
    split
    · next hnull => exact .inr ⟨hnull.2.2.1, rfl⟩
    · exact .inl rfl
  | integer =>
    obtain ⟨hunspecified, hcount, hnamed, -⟩ := chainTags_of_integer funcParam h
    simp only [valueText, hunspecified, Bool.false_eq_true, if_false, if_pos hcount]
    rcases hnamed hkind with heq | heq
    · rw [heq]
      rfl
    · rw [heq]
      rfl

/-- A text shows one value at most. -/
theorem eq_of_showsRegister (h : ShowsRegister kind value text)
    (h' : ShowsRegister kind value' text) : value = value' := by
  cases kind with
  | integer =>
    have hread := stol_decimal_toInt value
    rw [← h, h', stol_decimal_toInt value'] at hread
    exact BitVec.eq_of_toInt_eq (Except.ok.inj hread).symm
  | pointer =>
    rcases h with h | ⟨hzero, h⟩
    · rcases h' with h' | ⟨-, h'⟩
      · exact longToHexString_inj (h.symm.trans h')
      · exact absurd (h.symm.trans h') (longToHexString_ne_zero value)
    · rcases h' with h' | ⟨hzero', -⟩
      · exact absurd (h'.symm.trans h) (longToHexString_ne_zero value')
      · rw [hzero, hzero']

theorem not_showsRegister_nil : ¬ ShowsRegister kind value [] := by
  cases kind with
  | integer =>
    have hempty : stol [] 0 = .error .invalidArgument := by rfl
    exact not_showsRegister_of_error hempty
  | pointer =>
    rintro (h | ⟨-, h⟩)
    · unfold longToHexString at h
      split at h <;> cases h
    · cases h

end Shown

section Unreadable

/-- A memory that cannot be read. -/
def unreadableMemory : Memory := ⟨fun _ ↦ 0, fun _ ↦ false⟩

theorem peekData_unreadable (a : Word) : unreadableMemory.peekData a = allOnes := rfl

/-- Whatever is read from a memory that cannot be read ends at once. -/
theorem readsEnd_unreadable (u : Uninitialised) (byteSize : Int) (value : Word) (scan : TagScan) :
    ReadsEnd unreadableMemory u byteSize value scan := by
  intro _ _ _ _
  have hnumbers : ∀ addr, NumberDataEnds unreadableMemory byteSize addr := by
    intro addr
    refine ⟨0, ?_⟩
    simp [numberWord, peekData_unreadable, endsNumbers]
  have hchars : ∀ addr, CharDataEnds unreadableMemory u addr := by
    intro addr
    refine ⟨0, ?_⟩
    simp [peekData_unreadable, endsChars]
  have haddresses : ∀ inner addr, AddressDataEnds unreadableMemory inner addr := by
    intro inner addr
    refine ⟨0, ?_, fun j hj ↦ absurd hj (Nat.not_lt_zero j)⟩
    simp [peekData_unreadable, endsAddresses]
  unfold PointeeEnds
  split
  · exact fun _ ↦ hnumbers value
  · exact hchars value
  · exact haddresses _ value
  · exact haddresses _ value
  · trivial

end Unreadable

section Registers

variable {cu : CompileUnit} {units : List CompileUnit} {cuIndex fnIndex : Int}
  {funcParam : DatatypeEntry} {chain : List Datatype} {kind : ScalarKind} {index : Nat}

/-- Over a memory that cannot be read every scalar is rendered. -/
theorem exists_parameterEntry (u : Uninitialised) (regs : UserRegs)
    (hformal : funcParam.typeName = .formalParameter)
    (ht : Trail (nextType cu.datatypes) funcParam.toDatatype chain)
    (hseen : SeenAs kind chain) :
    ∃ fuel shown, parameterEntry fuel unreadableMemory u units cu regs cuIndex fnIndex index
      funcParam = .ok shown := by
  have hmetadata := (getDatatypeMetadata_endsIff cu funcParam.toDatatype
    (newParameter cuIndex fnIndex (u.isComplex index) funcParam)).congr
    (iff_true_intro ⟨chain, ht⟩)
  refine (hmetadata.seq (Q := True) fun fuel param h ↦ ?_).ends.mpr ⟨trivial, trivial⟩
  cases hregister : argRegister (toInt32 (index + 1)) with
  | none =>
    have hplace : argRegister (toInt32 (toInt32 (index + 1) + 0)) = none := by
      rw [Int.add_zero, toInt32_toInt32, hregister]
    simp only [getDatatypeValue, Bool.false_eq_true, if_false, hplace]
    exact EndsIff.ok param
  | some register =>
    rw [← toInt32_toInt32] at hregister
    have hdescribed := described_of_getDatatypeMetadata ht (within_eq_ok.mp h)
    simp only [getDatatypeValue_of_register hregister, hdescribed]
    have htags := tagsOf_describedParameter chain hformal u cuIndex fnIndex index
    refine (datatypeValueToString_endsIff htags fun hcount hname ↦ ?_).congr
      (iff_true_intro (readsEnd_unreadable _ _ _ _))
    exact absurd hname (chainTags_of_scalar funcParam hseen hcount)

theorem described_of_no_register {fuel : Nat} {mem : Memory} {u : Uninitialised}
    {regs : UserRegs} {shown : SdbEntry}
    (ht : Trail (nextType cu.datatypes) funcParam.toDatatype chain)
    (hregister : argRegister (toInt32 (index + 1)) = none)
    (h : parameterEntry fuel mem u units cu regs cuIndex fnIndex index funcParam = .ok shown) :
    shown = describedParameter u cuIndex fnIndex index funcParam chain := by
  rw [parameterEntry_of_no_register hregister] at h
  exact described_of_getDatatypeMetadata ht (within_eq_ok.mp h)

/-- The text of a scalar in a register. -/
theorem value_of_parameterEntry {fuel : Nat} {mem : Memory} {u : Uninitialised} {regs : UserRegs}
    {shown : SdbEntry} {register : ArgRegister} (hformal : funcParam.typeName = .formalParameter)
    (ht : Trail (nextType cu.datatypes) funcParam.toDatatype chain)
    (hregister : argRegister (toInt32 (index + 1)) = some register)
    (h : parameterEntry fuel mem u units cu regs cuIndex fnIndex index funcParam = .ok shown) :
    shown.value = valueText mem (regs.get register) (chainTags funcParam chain) := by
  obtain ⟨valueAlias, rfl⟩ := shownAs_of_parameterEntry ht hregister h
  rw [tagsOf_describedParameter chain hformal]
  rfl

/-- The debugger reads a register of the convention at one place only, the one behind as many
others as the convention hands out before it. -/
theorem argRegister_eq_iff {taken : Nat} {register : ArgRegister}
    (htaken : argRegisters[taken]? = some register) (place : Int) :
    argRegister place = some register ↔ place = taken + 1 := by
  have hcases : taken = 0 ∨ taken = 1 ∨ taken = 2 ∨ taken = 3 ∨ taken = 4 ∨ taken = 5 := by
    have hlt := (List.getElem?_eq_some_iff.mp htaken).1
    simp only [argRegisters, List.length_cons, List.length_nil] at hlt
    omega
  unfold argRegister
  rcases hcases with rfl | rfl | rfl | rfl | rfl | rfl
  all_goals
    cases htaken
    split_ifs <;> simp <;> omega

/-- Registers of which one is marked. -/
def markedRegs (register : ArgRegister) : UserRegs where
  rdi := if register = .rdi then 1 else 2
  rsi := if register = .rsi then 1 else 2
  rdx := if register = .rdx then 1 else 2
  rcx := if register = .rcx then 1 else 2
  r8 := if register = .r8 then 1 else 2
  r9 := if register = .r9 then 1 else 2
  rip := 0

theorem markedRegs_get (register other : ArgRegister) :
    (markedRegs register).get other = if register = other then 1 else 2 := by
  cases other <;> rfl

theorem register_of_passedIn {taken : Nat} {classes : List ArgClass} {register : ArgRegister}
    (h : passedIn taken classes index = some (kind, register)) :
    argRegisters[registersTaken taken (classes.take index)]? = some register := by
  unfold passedIn at h
  split at h
  · obtain ⟨register', hregister, heq⟩ := Option.map_eq_some_iff.mp h
    cases heq
    exact hregister
  · cases h

end Registers

/-- A scalar is rendered from a register of the convention exactly when its place is the one behind
as many others as were taken before, and its recorded types give it away. -/
theorem showsRegister_iff {units : List CompileUnit} {cu : CompileUnit} {cuIndex fnIndex : Int}
    {index : Nat} {funcParam : DatatypeEntry} {chain : List Datatype} {kind : ScalarKind}
    (hformal : funcParam.typeName = .formalParameter)
    (ht : Trail (nextType cu.datatypes) funcParam.toDatatype chain) (hseen : SeenAs kind chain)
    {taken : Nat} {register : ArgRegister} (htaken : argRegisters[taken]? = some register) :
    (∀ fuel mem u regs shown,
      parameterEntry fuel mem u units cu regs cuIndex fnIndex index funcParam = .ok shown →
        ShowsRegister kind (regs.get register) shown.value) ↔
      toInt32 (index + 1) = taken + 1 ∧ Recognised kind funcParam chain := by
  rw [← argRegister_eq_iff htaken]
  constructor
  · intro h
    obtain ⟨fuel, shown, hshown⟩ := exists_parameterEntry zeroUninitialised
      (markedRegs register) hformal ht hseen
    have hshows := h _ _ _ _ _ hshown
    rw [markedRegs_get, if_pos rfl] at hshows
    cases hplace : argRegister (toInt32 (index + 1)) with
    | none =>
      rw [described_of_no_register ht hplace hshown] at hshows
      obtain ⟨_, _, _, hframe⟩ := described_frame funcParam.toDatatype chain
        (newParameter cuIndex fnIndex (zeroUninitialised.isComplex index) funcParam)
      have hnil : (describedParameter zeroUninitialised cuIndex fnIndex index funcParam
          chain).value = [] := congrArg SdbEntry.value hframe
      rw [hnil] at hshows
      exact absurd hshows not_showsRegister_nil
    | some other =>
      rw [value_of_parameterEntry hformal ht hplace hshown, markedRegs_get] at hshows
      have hkind : Recognised kind funcParam chain := by
        by_contra hkind
        exact not_showsRegister_of_unrecognised funcParam hseen hkind hshows
      refine ⟨?_, hkind⟩
      by_contra hother
      have hne : register ≠ other := by
        rintro rfl
        exact hother rfl
      rw [if_neg hne] at hshows
      have hsame := eq_of_showsRegister hshows (showsRegister_valueText funcParam hseen hkind)
      exact absurd hsame (by decide)
  · rintro ⟨hplace, hkind⟩ fuel mem u regs shown hshown
    rw [value_of_parameterEntry hformal ht hplace hshown]
    exact showsRegister_valueText funcParam hseen hkind

/-- Registers of scalars: a parameter that the convention passes in a general register, behind
hidden arguments and arguments of any classes, is rendered from that register, for every contents
of the registers and the memory, exactly when the registers taken before it are as many as the
parameters before it, and the recorded types give the scalar away. What a payload shows of the
parameter is that rendering. -/
theorem parameterEntry_register_iff (units : List CompileUnit) (cu : CompileUnit)
    (func : Datatype) (cuIndex fnIndex : Int) (index : Nat) (funcParam : DatatypeEntry)
    (hparam : func.parameters[index]? = some funcParam) (types : List TypeDie)
    (chain : List Datatype) (hfollows : FollowsTypes cu funcParam types chain) (kind : ScalarKind)
    (htypes : argClass types = some (.scalar kind)) (hidden : Nat) (classes : List ArgClass)
    (register : ArgRegister) (hpassed : passedIn hidden classes index = some (kind, register)) :
    ((∀ fuel mem u regs shown,
      parameterEntry fuel mem u units cu regs cuIndex fnIndex index funcParam = .ok shown →
        ShowsRegister kind (regs.get register) shown.value) ↔
      toInt32 (index + 1) = registersTaken hidden (classes.take index) + 1 ∧
        Recognised kind funcParam chain) ∧
    ∀ fuel mem u regs payload,
      generateFunctionPayload fuel mem u units cu func regs cuIndex fnIndex = .ok payload →
        ∃ shown,
          parameterEntry fuel mem u units cu regs cuIndex fnIndex index funcParam = .ok shown ∧
            payload.paramVars[index]? = some ⟨shown, []⟩ := by
  have htaken := register_of_passedIn hpassed
  refine ⟨showsRegister_iff hfollows.formal hfollows.trail (hfollows.seenAs htypes) htaken, ?_⟩
  intro fuel mem u regs payload hpayload
  exact (entries_of_generateFunctionPayload hpayload).2 index funcParam hparam

/-- The type `int`. -/
def intType : Datatype :=
  ⟨{ (default : DatatypeEntry) with
    sectionOffset := 4, typeName := .baseType, name := "int".toList, byteSize := 4,
    encoding := 5 }, [], []⟩

/-- The type `double`. -/
def doubleType : Datatype :=
  ⟨{ (default : DatatypeEntry) with
    sectionOffset := 5, typeName := .baseType, name := "double".toList, byteSize := 8,
    encoding := 4 }, [], []⟩

/-- A function of two parameters, the second of which is an `int`. -/
def binaryFunction (type : Int) : Datatype :=
  ⟨{ (default : DatatypeEntry) with typeName := .subprogram }, [],
    [typedParameter type, typedParameter 4]⟩

/-- A unit with the function and the two types. -/
def binaryUnit (type : Int) : CompileUnit :=
  { unitOf [intType, doubleType] with functions := [binaryFunction type] }

/-- The type `int` in the debugging information. -/
def intDie : TypeDie := ⟨.baseType, 4, 5⟩

/-- The type `double` in the debugging information. -/
def doubleDie : TypeDie := ⟨.baseType, 8, 4⟩

theorem follows_binary_double :
    FollowsTypes (binaryUnit 5) (typedParameter 5) [doubleDie] [doubleType] where
  formal := rfl
  trail := .step rfl (.stop rfl)
  recorded := List.prefix_refl _

theorem follows_binary_int : FollowsTypes (binaryUnit 5) (typedParameter 4) [intDie] [intType] where
  formal := rfl
  trail := .step rfl (.stop rfl)
  recorded := List.prefix_refl _

theorem recognised_binary_int : Recognised .integer (typedParameter 4) [intType] :=
  ⟨by decide, .inl (by decide)⟩

/-- Behind a `double` an `int` is passed in `rdi` and shown from `rsi`. -/
theorem generateFunctionPayload_wrong_register :
    List.Forall₂ (fun funcParam types ↦ ∃ chain, FollowsTypes (binaryUnit 5) funcParam types chain)
      (binaryFunction 5).parameters [[doubleDie], [intDie]] ∧
    [[doubleDie], [intDie]].map argClass = [some .floating, some (.scalar .integer)] ∧
    passedIn 0 [.floating, .scalar .integer] 1 = some (.integer, .rdi) ∧
    ∃ payload entry, generateFunctionPayload 2 zeroMemory zeroUninitialised [binaryUnit 5]
      (binaryUnit 5) (binaryFunction 5) ⟨900, 28335728, 0, 0, 0, 0, 0⟩ 0 0 = .ok payload ∧
        payload.paramVars[1]? = some entry ∧ entry.value = decimal 28335728 ∧
          ¬ ShowsRegister .integer 900 entry.value := by
  obtain ⟨payload, hpayload⟩ : ∃ payload, generateFunctionPayload 2 zeroMemory zeroUninitialised
      [binaryUnit 5] (binaryUnit 5) (binaryFunction 5) ⟨900, 28335728, 0, 0, 0, 0, 0⟩ 0 0 =
        .ok payload := ⟨_, rfl⟩
  obtain ⟨shown, hshown, hentry⟩ := (entries_of_generateFunctionPayload hpayload).2 1
    (typedParameter 4) rfl
  have hplace : argRegister (toInt32 ((1 : Nat) + 1)) = some .rsi := rfl
  have hvalue := value_of_parameterEntry follows_binary_int.formal follows_binary_int.trail hplace
    hshown
  have hshows : ShowsRegister .integer 28335728 shown.value := by
    rw [hvalue]
    exact showsRegister_valueText _ (follows_binary_int.seenAs rfl) recognised_binary_int
  refine ⟨.cons ⟨_, follows_binary_double⟩ (.cons ⟨_, follows_binary_int⟩ .nil), rfl, rfl, payload,
    ⟨shown, []⟩, hpayload, hentry, hshows, ?_⟩
  intro hrdi
  exact absurd (eq_of_showsRegister hrdi hshows) (by decide)

/-- With the address of its result in `rdi`, a function takes an `int` behind a `double` in `rsi`,
and it is shown from it. -/
theorem parameterEntry_register_iff_sample :
    ∃ shown, parameterEntry 2 zeroMemory zeroUninitialised [binaryUnit 5] (binaryUnit 5)
      ⟨28335728, 900, 0, 0, 0, 0, 0⟩ 0 0 1 (typedParameter 4) = .ok shown ∧
        ShowsRegister .integer 900 shown.value := by
  have hregister := (parameterEntry_register_iff [binaryUnit 5] (binaryUnit 5) (binaryFunction 5)
    0 0 1 (typedParameter 4) rfl [intDie] [intType] follows_binary_int .integer rfl 1
    [.floating, .scalar .integer] .rsi rfl).1.mpr ⟨by decide, recognised_binary_int⟩
  exact ⟨_, rfl, hregister 2 zeroMemory zeroUninitialised ⟨28335728, 900, 0, 0, 0, 0, 0⟩ _ rfl⟩

end ArgsDebugger
