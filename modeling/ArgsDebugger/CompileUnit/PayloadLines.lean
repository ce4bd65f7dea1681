import ArgsDebugger.CompileUnit.Printing
import ArgsDebugger.CompileUnit.ReadSets

/-!
# The lines before a report

What `generate_function_payload` writes while it goes through the parameters of a function, up to
an exception: itself and in `complex_value_to_string` and `generate_complex_payload` the lines of
parameters with a structure in their types (`src/compile_unit.cc:81`, `216–219`, `933–936`, `972`),
and in the readers of `src/parameter_extractor.cc` those about words that cannot be read. They
stand before the report of the function, and none of them reads as that of a parameter.
-/

namespace ArgsDebugger

open Lib Lib.Budget

/-- The lines that are written over the elements of a list, one after the other, until one of them
raises an exception. -/
def linesOver {α β : Type} (print : α → List Text) (visit : α → Except Failure β) :
    List α → List Text
  | [] => []
  | a :: l => print a ++ match visit a with
    | .ok _ => linesOver print visit l
    | .error _ => []

/-- Lines as they are written. -/
def linesText (lines : List Text) : Text := lines.flatMap fun line ↦ line ++ ['\n']

/-- A `long` as `%llx` shows it. -/
def hexadecimal (n : Int) : Text := Nat.toDigits 16 (BitVec.ofInt 64 n).toNat

section Readers

/-- An iteration of a reader's loop: the word on which the loop ends, or the next index. -/
def lastWordBody (ends : Word → Bool) (read : Int → Word) (index : Int) : Word ⊕ Int :=
  if ends (read index) then .inl (read index) else .inr (nextInt index)

/-- What a reader's loop writes: a message, if it ends on a word that is taken for unreadable. -/
def readerLines (fuel : Nat) (ends : Word → Bool) (read : Int → Word) (message : Text)
    (index : Int) : List Text :=
  match Loop.run (lastWordBody ends read) fuel index with
  | some word => if word = allOnes then [message] else []
  | none => []

variable (fuel : Nat) (mem : Memory) (u : Uninitialised)

/-- What `get_number_data` writes (`src/parameter_extractor.cc:77–80`). -/
def numberLines (byteSize : Int) (addr : Word) : List Text :=
  readerLines fuel endsNumbers (numberWord mem addr byteSize)
    "ptrace error @ get_number_data".toList 0

/-- What `get_char_data` writes (`src/parameter_extractor.cc:38–41`). -/
def charLines (addr : Word) : List Text :=
  readerLines fuel (endsChars (u.beyond addr)) (fun index ↦ mem.peekData (addressAt addr index))
    "ptrace error @ get_char_data".toList (u.charIndex addr)

/-- What `get_address_data` writes (`src/parameter_extractor.cc:115–118`). -/
def addressLines (addr : Word) : List Text :=
  readerLines fuel endsAddresses (fun index ↦ mem.peekData (addressAt addr index))
    "error: ptrace".toList 0

/-- What is written for an array of pointers, when `lines` is written for each of them. -/
def multiLines (lines : Word → List Text) (read : Word → Except Failure Text) (value : Word) :
    List Text :=
  addressLines fuel mem value ++ match getAddressData fuel mem value with
    | .ok addrs => linesOver (fun address ↦ lines (mem.peekData address))
      (fun address ↦ read (mem.peekData address)) addrs
    | .error _ => []

/-- What is written for a value that is known to point to something
(`src/compile_unit.cc:896–920`); nothing is read for a null array of numbers. -/
def pointeeLines (byteSize : Int) (value : Word) : Nat → DatatypeName → List Text
  | 1, .number => if value = 0 then [] else numberLines fuel mem byteSize value
  | 1, .string => charLines fuel mem u value
  | 2, .number => multiLines fuel mem (numberLines fuel mem byteSize)
      (fun addr ↦ getNumberData fuel mem addr byteSize) value
  | 2, .string => multiLines fuel mem (charLines fuel mem u)
      (fun addr ↦ getCharData fuel mem (u.charIndex addr) (u.beyond addr) addr) value
  | _, _ => []

end Readers

section Lines

variable (fuel : Nat) (mem : Memory) (u : Uninitialised) (units : List CompileUnit)
  (cu : CompileUnit) (func : Datatype) (regs : UserRegs) (cuIndex fnIndex : Int)

/-- The line of a member in `complex_value_to_string` (`src/compile_unit.cc:967–972`). -/
def memberLine (member : DatatypeEntry) : List Text :=
  match memberMetadata fuel u cu member with
  | .ok param => ["member= ".toList ++ cStr member.name ++ ' ' :: hexadecimal param.byteSize]
  | .error _ => []

/-- The structure that `complex_value_to_string` finds, with the unit it looks in
(`src/compile_unit.cc:938–961`). -/
def complexParam (param : SdbEntry) (datatypeIdx : Int) :
    Except Failure (CompileUnit × Option Datatype) := do
  let cu ← vectorAt units param.cuIndex
  let fn ← vectorAt cu.functions param.fnIndex
  let dt ← vectorAt fn.parameters (datatypeIdx - 1)
  let found ← withinFuel (structureScan fuel cu dt.toDatatype)
  .ok (cu, found)

/-- What `complex_value_to_string` writes, `src/compile_unit.cc:923–993`. -/
def complexValueLines (param : SdbEntry) (datatypeIdx complexIdx : Int) : List Text :=
  if param.value = "0xfffffffffffffff".toList ∨ param.value = "0x0".toList then []
  else
    ["datatype_idx  = ".toList ++ decimal datatypeIdx,
      "complex_idx   = ".toList ++ decimal complexIdx,
      "fn_index      = ".toList ++ decimal param.fnIndex,
      "cu_index      = ".toList ++ decimal param.cuIndex] ++
    match complexParam fuel units param datatypeIdx with
    | .ok (cu, some found) =>
      linesOver (memberLine fuel u cu) (memberMetadata fuel u cu) found.members
    | _ => []

/-- What `datatype_value_to_string` writes (`src/compile_unit.cc:854–920`). -/
def datatypeValueLines (param : SdbEntry) (value : Word) (datatypeIdx complexIdx : Int) :
    List Text :=
  let scan := scanTags param.dtName param.datatypes .start
  if scan.unspecified then []
  else if scan.pointerCount = 0 then
    if scan.datatypeName = .struct then
      complexValueLines fuel u units { param with value := "...".toList } datatypeIdx complexIdx
    else []
  else if longToHexString value = "0xffffffffffffffff".toList ∨
      longToHexString value = "0x0".toList ∨ mem.peekData value = 0 then []
  else pointeeLines fuel mem u param.byteSize value scan.pointerCount scan.datatypeName

/-- What is written until a parameter has its value (`src/compile_unit.cc:61–76`). -/
def parameterLines (index : Nat) (funcParam : DatatypeEntry) : List Text :=
  match withinFuel (getDatatypeMetadata fuel cu funcParam.toDatatype
      (newParameter cuIndex fnIndex (u.isComplex index) funcParam)) with
  | .ok param =>
    match argRegister (toInt32 (toInt32 (index + 1) + 0)) with
    | some register =>
      datatypeValueLines fuel mem u units param (regs.get register) (toInt32 (index + 1)) 0
    | none => []
  | .error _ => []

/-- The line of a member in `generate_complex_payload` (`src/compile_unit.cc:204–219`). -/
def payloadMemberLine (value : Text) (member : DatatypeEntry) : List Text :=
  match payloadMember fuel u cu value member, stol value 0 with
  | .ok param, .ok n =>
    ["0x".toList ++ hexadecimal (n + member.dataMemberLocation) ++ " = 0x".toList ++
      hexadecimal n ++ " + 0x".toList ++ hexadecimal member.dataMemberLocation ++
      " = (val)".toList ++ cStr param.value ++ " (".toList ++ cStr param.dtName ++
      cStr param.name ++ '(' :: cStr param.valueAlias ++ "))".toList]
  | _, _ => []

/-- What `generate_complex_payload` writes, `src/compile_unit.cc:172–226`. -/
def complexPayloadLines (dataParam : DatatypeEntry) (param : SdbEntry) : List Text :=
  if param.value = "0xfffffffffffffff".toList ∨ param.value = "0x0".toList then []
  else
    match withinFuel (structureScan fuel cu dataParam.toDatatype) with
    | .ok (some found) => linesOver (payloadMemberLine fuel u cu param.value)
      (payloadMember fuel u cu param.value) found.members
    | _ => []

/-- What an iteration of the parameter loop writes (`src/compile_unit.cc:58–84`). -/
def entryLines (indexed : DatatypeEntry × Nat) : List Text :=
  parameterLines fuel mem u units cu regs cuIndex fnIndex indexed.2 indexed.1 ++
    match parameterEntry fuel mem u units cu regs cuIndex fnIndex indexed.2 indexed.1 with
    | .ok param =>
      if param.isComplex then
        ("complex ".toList ++ cStr param.name ++ ' ' :: cStr param.value) ::
          complexPayloadLines fuel u cu indexed.1 param
      else []
    | .error _ => []

/-- What `generate_function_payload` writes, `src/compile_unit.cc:34–101`. -/
def payloadLines : List Text :=
  linesOver (entryLines fuel mem u units cu regs cuIndex fnIndex)
    (payloadEntry fuel mem u units cu regs cuIndex fnIndex) func.parameters.zipIdx

end Lines

section Over

variable {α β : Type} {print print' : α → List Text} {visit visit' : α → Except Failure β}
  {l : List α}

theorem linesOver_congr (h : ∀ a ∈ l, print a = print' a ∧ visit a = visit' a) :
    linesOver print visit l = linesOver print' visit' l := by
  induction l with
  | nil => rfl
  | cons a l ih =>
    obtain ⟨hprint, hvisit⟩ := h a List.mem_cons_self
    rw [linesOver, linesOver, hprint, hvisit, ih fun b hb ↦ h b (List.mem_cons_of_mem a hb)]

theorem forall_linesOver {P : Text → Prop} (h : ∀ a ∈ l, ∀ line ∈ print a, P line) :
    ∀ line ∈ linesOver print visit l, P line := by
  induction l with
  | nil => exact fun line hline ↦ absurd hline List.not_mem_nil
  | cons a l ih =>
    intro line hline
    rw [linesOver, List.mem_append] at hline
    rcases hline with hline | hline
    · exact h a List.mem_cons_self line hline
    · split at hline
      · exact ih (fun b hb ↦ h b (List.mem_cons_of_mem a hb)) line hline
      · exact absurd hline List.not_mem_nil

end Over

section Reads

variable {fuel : Nat} {mem mem' : Memory} {u : Uninitialised} {units : List CompileUnit}
  {cu : CompileUnit} {func : Datatype} {regs : UserRegs} {cuIndex fnIndex : Int}
  {value addr : Word}

theorem readerLines_congr {ends : Word → Bool} {read read' : Int → Word} {message : Text}
    {index : Int}
    (h : ∀ i ∈ Loop.indices (fun i ↦ ends (read i)) nextInt index, read' i = read i) :
    readerLines fuel ends read' message index = readerLines fuel ends read message index := by
  have hrun : Loop.run (lastWordBody ends read') fuel index =
      Loop.run (lastWordBody ends read) fuel index := by
    apply Loop.run_congr_indices id (fun i ↦ ends (read i)) nextInt
    · intro i i' hb
      unfold lastWordBody at hb
      split at hb
      · cases hb
      · next hgoes =>
        cases hb
        exact ⟨Bool.eq_false_of_not_eq_true hgoes, rfl⟩
    · intro i hi
      rw [lastWordBody, lastWordBody, h i hi]
  rw [readerLines, hrun, readerLines]

theorem numberLines_congr {byteSize : Int} (h : mem.AgreeOn mem' (numberReads mem byteSize addr)) :
    numberLines fuel mem' byteSize addr = numberLines fuel mem byteSize addr :=
  readerLines_congr fun index hindex ↦ h _ ⟨index, hindex, rfl⟩

theorem charLines_congr (h : mem.AgreeOn mem' (charReads mem u addr)) :
    charLines fuel mem' u addr = charLines fuel mem u addr :=
  readerLines_congr fun index hindex ↦ h _ ⟨index, hindex, rfl⟩

theorem addressLines_congr (h : mem.AgreeOn mem' (addressReads mem addr)) :
    addressLines fuel mem' addr = addressLines fuel mem addr :=
  readerLines_congr fun index hindex ↦ h _ ⟨index, hindex, rfl⟩

theorem multiLines_congr {lines lines' : Word → List Text}
    {read read' : Word → Except Failure Text} {inner : Word → Set Word}
    (h : mem.AgreeOn mem' (multiReads mem inner value))
    (hread : ∀ addr, mem.AgreeOn mem' (inner addr) →
      lines' addr = lines addr ∧ read' addr = read addr) :
    multiLines fuel mem' lines' read' value = multiLines fuel mem lines read value := by
  have haddrs := h.mono (Set.subset_union_left (s := addressReads mem value))
  unfold multiLines
  rw [addressLines_congr haddrs, getAddressData_congr haddrs]
  cases hdata : getAddressData fuel mem value with
  | error e => rfl
  | ok addrs =>
    congr 1
    apply linesOver_congr
    intro pointer hpointer
    have hmem := mem_addressReads hdata pointer hpointer
    rw [haddrs pointer hmem]
    exact hread _ fun a ha ↦ h a (.inr ⟨pointer, hmem, ha⟩)

theorem pointeeLines_congr {byteSize : Int} {count : Nat} {name : DatatypeName}
    (h : mem.AgreeOn mem' (pointeeReads mem u byteSize value count name)) :
    pointeeLines fuel mem' u byteSize value count name =
      pointeeLines fuel mem u byteSize value count name := by
  unfold pointeeLines
  split
  · rw [numberLines_congr h]
  · exact charLines_congr h
  · exact multiLines_congr h fun _ hinner ↦ ⟨numberLines_congr hinner, getNumberData_congr hinner⟩
  · exact multiLines_congr h fun _ hinner ↦ ⟨charLines_congr hinner, getCharData_congr hinner⟩
  · rfl

theorem datatypeValueLines_congr {param : SdbEntry} {datatypeIdx complexIdx : Int}
    (h : mem.AgreeOn mem' (valueReads mem u param.byteSize value (tagsOf param))) :
    datatypeValueLines fuel mem' u units param value datatypeIdx complexIdx =
      datatypeValueLines fuel mem u units param value datatypeIdx complexIdx := by
  unfold tagsOf at h
  simp only [datatypeValueLines, longToHexString_eq_allOnes_iff]
  split
  · rfl
  · next hunspecified =>
    rw [Bool.not_eq_true] at hunspecified
    split
    · rfl
    · next hcount =>
      by_cases hvalue : value = allOnes
      · rw [if_pos (.inl hvalue), if_pos (.inl hvalue)]
      · have hword : mem'.peekData value = mem.peekData value :=
          h value ⟨hunspecified, hcount, hvalue, .inl rfl⟩
        rw [hword]
        split
        · rfl
        · next hread =>
          have hpeek : mem.peekData value ≠ 0 := fun hzero ↦ hread (.inr (.inr hzero))
          exact pointeeLines_congr
            fun a ha ↦ h a ⟨hunspecified, hcount, hvalue, .inr ⟨hpeek, ha⟩⟩

theorem parameterLines_congr {index : Nat} {funcParam : DatatypeEntry}
    (h : mem.AgreeOn mem' (parameterReads mem u cu regs cuIndex fnIndex index funcParam)) :
    parameterLines fuel mem' u units cu regs cuIndex fnIndex index funcParam =
      parameterLines fuel mem u units cu regs cuIndex fnIndex index funcParam := by
  simp only [parameterLines, Int.add_zero]
  split
  · next param hparam =>
    cases hregister : argRegister (toInt32 (toInt32 (index + 1))) with
    | none => rfl
    | some register =>
      exact datatypeValueLines_congr
        fun a ha ↦ h a ⟨fuel, param, register, within_eq_ok.mp hparam, hregister, ha⟩
  · rfl

/-- The lines are the same on memories that agree on what is read for the payload. -/
theorem payloadLines_congr
    (h : mem.AgreeOn mem' (payloadReads mem u cu func regs cuIndex fnIndex)) :
    payloadLines fuel mem' u units cu func regs cuIndex fnIndex =
      payloadLines fuel mem u units cu func regs cuIndex fnIndex := by
  apply linesOver_congr
  rintro ⟨funcParam, index⟩ hmem
  have hparam := List.mk_mem_zipIdx_iff_getElem?.mp hmem
  have hreads : mem.AgreeOn mem' (parameterReads mem u cu regs cuIndex fnIndex index funcParam) :=
    fun a ha ↦ h a ⟨index, funcParam, hparam, ha⟩
  simp only [entryLines, payloadEntry]
  rw [parameterLines_congr hreads, parameterEntry_congr hreads]
  exact ⟨rfl, rfl⟩

end Reads

section Reading

/-- A line that is not read as that of a parameter. -/
structure Skipped (line : Text) : Prop where
  oneLine : '\n' ∉ line
  unread : readLine line = none

/-- A report is read behind lines that are skipped. -/
theorem readReport_linesText {lines : List Text} (h : ∀ line ∈ lines, Skipped line)
    (rest : Text) : readReport (linesText lines ++ rest) = readReport rest := by
  induction lines with
  | nil => rfl
  | cons line lines ih =>
    obtain ⟨honce, hunread⟩ := h line List.mem_cons_self
    have htail := ih fun line' hline' ↦ h line' (List.mem_cons_of_mem line hline')
    have hread := readReport_cons honce (linesText lines ++ rest)
    rw [hunread, htail] at hread
    simpa [linesText] using hread

/-- What ends behind a blank, without a closing angle bracket, is not read. -/
theorem readLine_blank (front : Text) {last : Text} (hlast : '>' ∉ last) :
    readLine (front ++ ' ' :: last) = none := by
  have hreverse : (front ++ ' ' :: last).reverse = last.reverse ++ ' ' :: front.reverse := by simp
  rw [← List.mem_reverse] at hlast
  rw [readLine, hreverse]
  generalize last.reverse = ending at hlast ⊢
  -- the last character and the one before it
  cases ending with
  | nil =>
    split
    · next heq =>
      rw [← (List.cons.inj heq).1]
      exact if_neg (by decide)
    · rfl
  | cons c rest =>
    cases rest with
    | nil => rfl
    | cons d rest =>
      have hd : d ≠ '>' := by
        rintro rfl
        exact hlast (List.mem_cons_of_mem c List.mem_cons_self)
      split
      · next heq => exact absurd (List.cons.inj (List.cons.inj heq).2).1 hd
      · rfl

theorem hexadecimal_disjoint (n : Int) : (hexadecimal n).Disjoint valueMarks := by
  intro c hc hmark
  have hnone : ∀ c ∈ valueMarks, isDigitOf 16 c = false := by decide
  have hdigit := isDigitOf_of_mem_toDigits (by omega) le_rfl hc
  rw [hnone c hmark] at hdigit
  cases hdigit

/-- A line that ends in a blank and something without marks is skipped. -/
theorem skipped_blank {front last : Text} (hfront : '\n' ∉ front)
    (hlast : last.Disjoint valueMarks) : Skipped (front ++ ' ' :: last) where
  oneLine := by
    have hnewline : '\n' ∉ last := fun hmem ↦ hlast hmem (by decide)
    simp only [List.mem_append, List.mem_cons, not_or]
    exact ⟨hfront, by decide, hnewline⟩
  unread := readLine_blank _ fun hmem ↦ hlast hmem (by decide)

/-- The line of a member of a parameter, which ends in two parentheses. -/
theorem skipped_parentheses {front name dtName value valueAlias : Text} (hfront : '\n' ∉ front)
    (hname : '\n' ∉ name) (hdtName : '\n' ∉ dtName) (hvalue : '\n' ∉ value)
    (halias : '\n' ∉ valueAlias) : Skipped (front ++ " = (val)".toList ++ cStr value ++
      " (".toList ++ cStr dtName ++ cStr name ++ '(' :: cStr valueAlias ++ "))".toList) where
  oneLine := by
    have htexts : '\n' ∉ " = (val)".toList ∧ '\n' ∉ " (".toList ∧ '\n' ∉ "))".toList := by decide
    obtain ⟨hval, hopen, hclose⟩ := htexts
    simp only [List.mem_append, List.mem_cons, not_or]
    exact ⟨⟨⟨⟨⟨⟨⟨hfront, hval⟩, notMem_cStr hvalue⟩, hopen⟩, notMem_cStr hdtName⟩,
      notMem_cStr hname⟩, by decide, notMem_cStr halias⟩, hclose⟩
  unread := by
    rw [readLine, List.reverse_append]
    rfl

end Reading

section Names

variable {fuel : Nat} {mem : Memory} {u : Uninitialised} {units : List CompileUnit}
  {cu : CompileUnit} {func : Datatype} {regs : UserRegs} {cuIndex fnIndex : Int}

/-- No name of a member contains a newline. -/
def MembersOneLine (cu : CompileUnit) : Prop :=
  ∀ i ∈ cu.datatypes, ∀ member ∈ i.members, '\n' ∉ member.name

/-- What the scan finds is a type of the unit. -/
theorem mem_of_structureScan {x found : Datatype}
    (h : withinFuel (structureScan fuel cu x) = .ok (some found)) : found ∈ cu.datatypes := by
  have hends : Loop.Ends (structureBody cu.datatypes) (x, 0) (some found) :=
    ⟨fuel, within_eq_ok.mp h⟩
  apply Loop.ends_induction (motive := fun _ ↦ found ∈ cu.datatypes) hends
  · intro s hleave
    rcases structureBody_inl hleave with ⟨-, hnone⟩ | ⟨d, hget, -, -, hd⟩
    · cases hnone
    · cases hd
      exact List.mem_of_getElem? hget
  · exact fun _ _ _ _ hmem ↦ hmem

theorem skipped_number (front : Text) (hfront : '\n' ∉ front) (n : Int) :
    Skipped (front ++ [' '] ++ decimal n) := by
  rw [List.append_assoc]
  exact skipped_blank hfront (decimal_disjoint n)

theorem skipped_memberLine {member : DatatypeEntry} (hmember : '\n' ∉ member.name) :
    ∀ line ∈ memberLine fuel u cu member, Skipped line := by
  intro line hline
  unfold memberLine at hline
  split at hline
  · next param _ =>
    rw [List.mem_singleton.mp hline]
    apply skipped_blank
    · rw [List.mem_append, not_or]
      exact ⟨by decide, notMem_cStr hmember⟩
    · exact hexadecimal_disjoint param.byteSize
  · exact absurd hline List.not_mem_nil

theorem skipped_complexValueLines {param : SdbEntry} {datatypeIdx complexIdx : Int}
    (hunit : vectorAt units param.cuIndex = .ok cu) (hmembers : MembersOneLine cu) :
    ∀ line ∈ complexValueLines fuel u units param datatypeIdx complexIdx, Skipped line := by
  intro line hline
  unfold complexValueLines at hline
  split at hline
  · exact absurd hline List.not_mem_nil
  · rcases List.mem_append.mp hline with hline | hline
    · simp only [List.mem_cons, List.not_mem_nil, or_false] at hline
      rcases hline with rfl | rfl | rfl | rfl
      · exact skipped_number "datatype_idx  =".toList (by decide) _
      · exact skipped_number "complex_idx   =".toList (by decide) _
      · exact skipped_number "fn_index      =".toList (by decide) _
      · exact skipped_number "cu_index      =".toList (by decide) _
    · split at hline
      · next cu' found hfound =>
        obtain ⟨_, hcu, hrest⟩ := bind_eq_ok.mp hfound
        obtain ⟨fn, -, hrest⟩ := bind_eq_ok.mp hrest
        obtain ⟨dt, -, hrest⟩ := bind_eq_ok.mp hrest
        obtain ⟨result, hscan, hpair⟩ := bind_eq_ok.mp hrest
        rw [hunit] at hcu
        cases hcu
        cases hpair
        have hmem := mem_of_structureScan hscan
        apply forall_linesOver ?_ line hline
        exact fun member hmember ↦ skipped_memberLine (hmembers found hmem member hmember)
      · exact absurd hline List.not_mem_nil

theorem forall_readerLines {P : Text → Prop} {ends : Word → Bool} {read : Int → Word}
    {message : Text} {index : Int} (h : P message) :
    ∀ line ∈ readerLines fuel ends read message index, P line := by
  intro line hline
  unfold readerLines at hline
  split at hline
  · split at hline
    · rwa [List.mem_singleton.mp hline]
    · exact absurd hline List.not_mem_nil
  · exact absurd hline List.not_mem_nil

theorem skipped_numberLines {byteSize : Int} {addr : Word} :
    ∀ line ∈ numberLines fuel mem byteSize addr, Skipped line :=
  forall_readerLines ⟨by decide, by decide⟩

theorem skipped_charLines {addr : Word} : ∀ line ∈ charLines fuel mem u addr, Skipped line :=
  forall_readerLines ⟨by decide, by decide⟩

theorem skipped_multiLines {lines : Word → List Text} {read : Word → Except Failure Text}
    {value : Word} (h : ∀ addr, ∀ line ∈ lines addr, Skipped line) :
    ∀ line ∈ multiLines fuel mem lines read value, Skipped line := by
  intro line hline
  rcases List.mem_append.mp hline with hline | hline
  · exact forall_readerLines ⟨by decide, by decide⟩ line hline
  · split at hline
    · exact forall_linesOver (fun pointer _ ↦ h (mem.peekData pointer)) line hline
    · exact absurd hline List.not_mem_nil

theorem skipped_pointeeLines {byteSize : Int} {value : Word} {count : Nat} {name : DatatypeName} :
    ∀ line ∈ pointeeLines fuel mem u byteSize value count name, Skipped line := by
  intro line hline
  unfold pointeeLines at hline
  split at hline
  · split at hline
    · exact absurd hline List.not_mem_nil
    · exact skipped_numberLines line hline
  · exact skipped_charLines line hline
  · exact skipped_multiLines (fun _ ↦ skipped_numberLines) line hline
  · exact skipped_multiLines (fun _ ↦ skipped_charLines) line hline
  · exact absurd hline List.not_mem_nil

theorem skipped_datatypeValueLines {param : SdbEntry} {value : Word} {datatypeIdx complexIdx : Int}
    (hunit : vectorAt units param.cuIndex = .ok cu) (hmembers : MembersOneLine cu) :
    ∀ line ∈ datatypeValueLines fuel mem u units param value datatypeIdx complexIdx,
      Skipped line := by
  intro line hline
  simp only [datatypeValueLines] at hline
  split at hline
  · exact absurd hline List.not_mem_nil
  · split at hline
    · split at hline
      · apply skipped_complexValueLines ?_ hmembers line hline
        exact hunit
      · exact absurd hline List.not_mem_nil
    · split at hline
      · exact absurd hline List.not_mem_nil
      · exact skipped_pointeeLines line hline

theorem skipped_parameterLines {index : Nat} {funcParam : DatatypeEntry}
    (hunit : vectorAt units cuIndex = .ok cu) (hmembers : MembersOneLine cu) :
    ∀ line ∈ parameterLines fuel mem u units cu regs cuIndex fnIndex index funcParam,
      Skipped line := by
  intro line hline
  unfold parameterLines at hline
  split at hline
  · next param hmetadata =>
    split at hline
    · apply skipped_datatypeValueLines ?_ hmembers line hline
      obtain ⟨chain, ht⟩ := getDatatypeMetadata_isSome_iff.mp
        ⟨fuel, Option.isSome_of_eq_some (within_eq_ok.mp hmetadata)⟩
      obtain ⟨_, _, _, hframe⟩ := described_frame funcParam.toDatatype chain
        (newParameter cuIndex fnIndex (u.isComplex index) funcParam)
      rw [described_of_getDatatypeMetadata ht (within_eq_ok.mp hmetadata), hframe]
      exact hunit
    · exact absurd hline List.not_mem_nil
  · exact absurd hline List.not_mem_nil

theorem skipped_payloadMemberLine {value : Text} {member : DatatypeEntry}
    (hmember : '\n' ∉ member.name) (hcu : ∀ i ∈ cu.datatypes, '\n' ∉ i.name) :
    ∀ line ∈ payloadMemberLine fuel u cu value member, Skipped line := by
  intro line hline
  unfold payloadMemberLine at hline
  split at hline
  · next param n hparam _ =>
    obtain ⟨shown, hmetadata, hrest⟩ := bind_eq_ok.mp hparam
    obtain ⟨_, -, hshown⟩ := bind_eq_ok.mp hrest
    cases hshown
    obtain ⟨hname, hvalue, halias, hdtName⟩ :=
      getDatatypeMetadata_oneLine (within_eq_ok.mp hmetadata) hcu
    rw [List.mem_singleton.mp hline]
    have hnumber : ∀ n, '\n' ∉ hexadecimal n := fun n hmem ↦
      hexadecimal_disjoint n hmem (by decide)
    apply skipped_parentheses
    · have htexts : '\n' ∉ "0x".toList ∧ '\n' ∉ " = 0x".toList ∧ '\n' ∉ " + 0x".toList := by
        decide
      obtain ⟨hfirst, hequal, hplus⟩ := htexts
      simp only [List.mem_append, not_or]
      exact ⟨⟨⟨⟨⟨hfirst, hnumber _⟩, hequal⟩, hnumber _⟩, hplus⟩, hnumber _⟩
    · rw [hname]
      exact hmember
    · exact hdtName
    · rw [hvalue]
      exact List.not_mem_nil
    · rw [halias]
      exact List.not_mem_nil
  · exact absurd hline List.not_mem_nil

theorem skipped_complexPayloadLines {dataParam : DatatypeEntry} {param : SdbEntry}
    (hmembers : MembersOneLine cu) (hcu : ∀ i ∈ cu.datatypes, '\n' ∉ i.name) :
    ∀ line ∈ complexPayloadLines fuel u cu dataParam param, Skipped line := by
  intro line hline
  unfold complexPayloadLines at hline
  split at hline
  · exact absurd hline List.not_mem_nil
  · split at hline
    · next found hscan =>
      have hmem := mem_of_structureScan hscan
      apply forall_linesOver ?_ line hline
      exact fun member hmember ↦ skipped_payloadMemberLine (hmembers found hmem member hmember) hcu
    · exact absurd hline List.not_mem_nil

/-- Where no name contains a newline, every line is skipped. -/
theorem skipped_payloadLines (hunit : vectorAt units cuIndex = .ok cu)
    (hnames : NamesOneLine cu func) (hmembers : MembersOneLine cu) :
    ∀ line ∈ payloadLines fuel mem u units cu func regs cuIndex fnIndex, Skipped line := by
  apply forall_linesOver
  rintro ⟨funcParam, index⟩ hmem line hline
  rcases List.mem_append.mp hline with hline | hline
  · exact skipped_parameterLines hunit hmembers line hline
  · split at hline
    · next param hparam =>
      split at hline
      · have hname := hnames.parameters funcParam (List.fst_mem_of_mem_zipIdx hmem)
        obtain ⟨hlegible, hone⟩ := parameterEntry_legible hparam hnames.datatypes hname
        rcases List.mem_cons.mp hline with rfl | hline
        · have hfront : '\n' ∉ "complex ".toList ++ cStr param.name := by
            rw [List.mem_append, not_or]
            exact ⟨by decide, notMem_cStr hone.name⟩
          exact skipped_blank hfront fun _ hmem hmark ↦
            notMem_cStr (fun hvalue ↦ hlegible.value hvalue hmark) hmem
        · exact skipped_complexPayloadLines hmembers hnames.datatypes line hline
      · exact absurd hline List.not_mem_nil
    · exact absurd hline List.not_mem_nil

/-- The report of a function is read behind the lines before it. -/
theorem readReport_payloadLines (hunit : vectorAt units cuIndex = .ok cu)
    (hnames : NamesOneLine cu func) (hmembers : MembersOneLine cu) (text : Text) :
    readReport (linesText (payloadLines fuel mem u units cu func regs cuIndex fnIndex) ++ text) =
      readReport text :=
  readReport_linesText (skipped_payloadLines hunit hnames hmembers) text

-- A structure by value: its one member is listed, and then the text of the value raises.
example : payloadLines 5 zeroMemory zeroUninitialised [unaryUnit 2] (unaryUnit 2) (unaryFunction 2)
    ⟨0x1000, 0, 0, 0, 0, 0, 0⟩ 0 0 =
      ["datatype_idx  = 1".toList, "complex_idx   = 0".toList, "fn_index      = 0".toList,
        "cu_index      = 0".toList, "member=  0".toList, "complex  ...".toList] := by
  decide +kernel

-- A pointer to the structure.
example : payloadLines 5 zeroMemory zeroUninitialised [unaryUnit 3] (unaryUnit 3) (unaryFunction 3)
    ⟨0x1000, 0, 0, 0, 0, 0, 0⟩ 0 0 =
      ["complex  0x1000".toList, "0x1000 = 0x1000 + 0x0 = (val) (())".toList] := by
  decide +kernel

end Names

end ArgsDebugger
