import ArgsDebugger.CompileUnit.Payload

/-!
# Printing a payload and reading it back

`print_function_payload`, `src/compile_unit.cc:103–170`. A report is a few lines of text. What the
readers of the debuggee make of a value never contains a character that divides such a line, so
that the values and their aliases can be read back from the text, whatever the names in it are,
as long as they are free of newlines.
-/

namespace ArgsDebugger

open Lib Lib.Budget

/-- What `%s` shows of a string: the characters before its first null. -/
def cStr (s : Text) : Text := s.takeWhile (· != '\x00')

/-- An alias as it is printed (`src/compile_unit.cc:122–124,140–142`). -/
def aliasText (param : SdbEntry) : Text :=
  if 0 < param.valueAlias.length then " = '".toList ++ param.valueAlias ++ "'".toList else []

/-- A parameter as it is printed (`src/compile_unit.cc:126–131,144–153`). -/
def paramText (param : SdbEntry) : Text :=
  cStr param.dtName ++ cStr param.name ++
    '<' :: (cStr param.value ++ cStr (aliasText param) ++ ">".toList)

/-- The lines of two or more parameters (`src/compile_unit.cc:137–154`). -/
def paramLines : List SdbParameter → Text
  | [] => []
  | [param] => '\t' :: paramText param.toSdbEntry ++ ")\n".toList
  | param :: params => '\t' :: paramText param.toSdbEntry ++ ",\n".toList ++ paramLines params

/-- The parameters behind a function's name (`src/compile_unit.cc:117–155`). -/
def printParams (func : SdbFunction) : Except Failure Text :=
  if func.totalParams < 1 then .ok "()\n".toList
  else if func.totalParams = 1 then do
    let param ← vectorAt func.paramVars 0
    .ok ('(' :: paramText param.toSdbEntry ++ ")\n".toList)
  else .ok ("(\n".toList ++ paramLines func.paramVars)

/-- `CompileUnitManager::print_function_payload`, `src/compile_unit.cc:103–170`. Nothing fills
`return_var`, whose type is an empty string. -/
def printFunctionPayload (func : SdbFunction) : Except Failure Text := do
  let returnType : Text := []
  let params ← printParams func
  .ok ("[*] ".toList ++ returnType ++ cStr func.name ++ params ++
    ("[*] ".toList ++ cStr func.filename ++ ':' :: decimal func.lineNo ++ "\n".toList))

/-- The value and the alias between the angle brackets of a parameter. -/
def readBody (body : Text) : Text × Text :=
  (body.takeWhile (· != ' '), ((body.dropWhile (· != '\'')).drop 1).dropLast)

/-- The value and the alias in a line, if it is that of a parameter: it ends in a closing angle
bracket with a comma or a parenthesis behind it. -/
def readLine (line : Text) : Option (Text × Text) :=
  match line.reverse with
  | last :: '>' :: rest =>
    if last = ',' ∨ last = ')' then some (readBody (rest.takeWhile (· != '<')).reverse) else none
  | _ => none

/-- The values and the aliases in a report. -/
def readReport (text : Text) : List (Text × Text) := (text.splitOn '\n').filterMap readLine

/-- The characters that end a string or divide a line of a report. -/
def aliasMarks : Text := "\x00\n<>'".toList

/-- These, and the blank that ends a value. -/
def valueMarks : Text := ' ' :: aliasMarks

/-- A parameter whose value and alias are free of the characters that stand around them. -/
structure Legible (param : SdbEntry) : Prop where
  value : param.value.Disjoint valueMarks
  valueAlias : param.valueAlias.Disjoint aliasMarks

/-- A property of the characters of a text is decided by going through the text. -/
instance Text.decidableForall (s : Text) (p : Char → Prop) [DecidablePred p] :
    Decidable (∀ c ∈ s, p c) :=
  List.decidableBAll p s

instance Text.decidableDisjoint (s t : Text) : Decidable (s.Disjoint t) :=
  List.decidableBAll (· ∉ t) s

section Lines

variable {param : SdbEntry} {s : Text}

theorem aliasMarks_subset : aliasMarks ⊆ valueMarks := List.subset_cons_self ..

theorem cStr_eq_self (h : '\x00' ∉ s) : cStr s = s := by
  apply List.takeWhile_eq_self_iff.mpr
  intro c hc
  rw [bne_iff_ne]
  rintro rfl
  exact h hc

theorem notMem_cStr {c : Char} (h : c ∉ s) : c ∉ cStr s :=
  fun hc ↦ h ((List.takeWhile_sublist _).subset hc)

/-- What stands between the brackets is free of newlines and brackets, and complete. -/
theorem Legible.body (h : Legible param) :
    cStr param.value ++ cStr (aliasText param) = param.value ++ aliasText param ∧
      ∀ c ∈ param.value ++ aliasText param, c ≠ '\n' ∧ c ≠ '<' ∧ c ≠ '>' := by
  have hvalue : ∀ c ∈ aliasMarks, c ∉ param.value := fun c hc hmem ↦
    h.value hmem (aliasMarks_subset hc)
  have halias : ∀ c ∈ aliasMarks, c ∉ param.valueAlias := fun c hc hmem ↦ h.valueAlias hmem hc
  have htext : ∀ c ∈ aliasMarks, c ≠ '\'' → c ∉ aliasText param := by
    intro c hc hquote
    have hfront : c ∉ " = '".toList := by
      revert c
      decide
    unfold aliasText
    split
    · simp only [List.mem_append, not_or]
      exact ⟨⟨hfront, halias c hc⟩, fun hmem ↦ hquote (by simpa using hmem)⟩
    · exact List.not_mem_nil
  refine ⟨?_, ?_⟩
  · rw [cStr_eq_self (hvalue _ (by decide)), cStr_eq_self (htext _ (by decide) (by decide))]
  · intro c hc
    have hnone : ∀ d ∈ aliasMarks, d ≠ '\'' → c ≠ d := by
      rintro d hd hquote rfl
      rcases List.mem_append.mp hc with hmem | hmem
      · exact hvalue c hd hmem
      · exact htext c hd hquote hmem
    exact ⟨hnone _ (by decide) (by decide), hnone _ (by decide) (by decide),
      hnone _ (by decide) (by decide)⟩

/-- The value and the alias are read back from between the brackets. -/
theorem readBody_legible (h : Legible param) :
    readBody (param.value ++ aliasText param) = (param.value, param.valueAlias) := by
  have hblank : ∀ c ∈ param.value, (c != ' ') = true := by
    intro c hc
    rw [bne_iff_ne]
    rintro rfl
    exact h.value hc List.mem_cons_self
  have hquote : ∀ c ∈ param.value, (c != '\'') = true := by
    intro c hc
    rw [bne_iff_ne]
    rintro rfl
    exact h.value hc (by decide)
  unfold readBody
  rw [List.takeWhile_append_of_pos hblank, List.dropWhile_append_of_pos hquote]
  unfold aliasText
  split
  · have hfront : " = '".toList = [' ', '=', ' ', '\''] := rfl
    rw [hfront]
    simp
  · next hlength =>
    have hnil : param.valueAlias = [] := List.eq_nil_of_length_eq_zero (by omega)
    simp [hnil]

/-- A parameter is read back from its line. -/
theorem readLine_param (h : Legible param) (front : Text) (last : Char)
    (hlast : last = ',' ∨ last = ')') :
    readLine (front ++ paramText param ++ [last]) = some (param.value, param.valueAlias) := by
  obtain ⟨hcomplete, hmarks⟩ := h.body
  let body := param.value ++ aliasText param
  have hline : (front ++ paramText param ++ [last]).reverse = last :: '>' ::
      (body.reverse ++ '<' :: (front ++ cStr param.dtName ++ cStr param.name).reverse) := by
    rw [paramText, hcomplete]
    simp [body]
  have hopen : ∀ c ∈ body.reverse, (c != '<') = true := by
    intro c hc
    rw [bne_iff_ne]
    exact (hmarks c (List.mem_reverse.mp hc)).2.1
  rw [readLine, hline]
  simp only [if_pos hlast, List.takeWhile_append_of_pos hopen]
  rw [List.takeWhile_cons_of_neg (by simp), List.append_nil, List.reverse_reverse,
    readBody_legible h]

/-- A line that ends neither in a comma nor in a parenthesis is not that of a parameter. -/
theorem readLine_of_last (front : Text) {last : Char} (hlast : ¬ (last = ',' ∨ last = ')')) :
    readLine (front ++ [last]) = none := by
  rw [readLine, List.reverse_append, List.reverse_singleton, List.singleton_append]
  split
  · next heq =>
    rw [if_neg]
    rwa [← (List.cons.inj heq).1]
  · rfl

/-- Nor is a line that ends in two parentheses. -/
theorem readLine_parentheses (front : Text) : readLine (front ++ ['(', ')']) = none := by
  rw [readLine, List.reverse_append]
  rfl

/-- The last line of a report has no parameter. -/
theorem readLine_decimal (front : Text) (n : Int) : readLine (front ++ decimal n) = none := by
  obtain ⟨digits, last, hdecimal⟩ := List.eq_nil_or_concat (decimal n) |>.resolve_left
    (decimal_ne_nil n)
  rw [List.concat_eq_append] at hdecimal
  have hmem : last ∈ decimal n := by
    rw [hdecimal]
    exact List.mem_append_right _ List.mem_cons_self
  rw [hdecimal, ← List.append_assoc]
  apply readLine_of_last
  rintro (rfl | rfl)
  · exact notMem_decimal (by decide) (by decide) n hmem
  · exact notMem_decimal (by decide) (by decide) n hmem

/-- The lines of a report are read one after the other. -/
theorem readReport_cons {line : Text} (hline : '\n' ∉ line) (rest : Text) :
    readReport (line ++ '\n' :: rest) = (readLine line).toList ++ readReport rest := by
  rw [readReport, List.splitOn_append_cons_self_of_not_mem hline, List.filterMap_cons, readReport]
  cases readLine line <;> rfl

/-- A parameter without newlines in its name and its type. -/
structure OneLine (param : SdbEntry) : Prop where
  name : '\n' ∉ param.name
  dtName : '\n' ∉ param.dtName

theorem notMem_paramText (h : Legible param) (hone : OneLine param) : '\n' ∉ paramText param := by
  obtain ⟨hcomplete, hmarks⟩ := h.body
  rw [paramText, hcomplete]
  simp only [List.mem_append, List.mem_cons, not_or]
  refine ⟨⟨notMem_cStr hone.dtName, notMem_cStr hone.name⟩, by decide, ?_, by decide⟩
  rw [← not_or, ← List.mem_append]
  exact fun hmem ↦ (hmarks _ hmem).1 rfl

/-- The parameters are read back from their lines. -/
theorem readReport_paramLines {params : List SdbParameter}
    (hlegible : ∀ p ∈ params, Legible p.toSdbEntry) (hone : ∀ p ∈ params, OneLine p.toSdbEntry)
    (rest : Text) : readReport (paramLines params ++ rest) =
      (params.map fun p ↦ (p.value, p.valueAlias)) ++ readReport rest := by
  -- the line of a parameter, whatever follows it
  have hline (p : SdbParameter) (hp : p ∈ params) (last : Char) (hlast : last = ',' ∨ last = ')')
      (rest : Text) : readReport ((['\t'] ++ paramText p.toSdbEntry ++ [last]) ++ '\n' :: rest) =
        (p.value, p.valueAlias) :: readReport rest := by
    have hnewline : '\n' ∉ ['\t'] ++ paramText p.toSdbEntry ++ [last] := by
      simp only [List.mem_append, List.mem_singleton, not_or]
      refine ⟨⟨by decide, notMem_paramText (hlegible p hp) (hone p hp)⟩, ?_⟩
      rcases hlast with rfl | rfl <;> decide
    rw [readReport_cons hnewline, readLine_param (hlegible p hp) _ last hlast]
    rfl
  induction params with
  | nil => rfl
  | cons p params ih =>
    have htail := ih (fun q hq ↦ hlegible q (List.mem_cons_of_mem p hq))
      (fun q hq ↦ hone q (List.mem_cons_of_mem p hq)) fun q hq ↦ hline q (List.mem_cons_of_mem p hq)
    cases params with
    | nil =>
      have hfirst := hline p List.mem_cons_self ')' (.inr rfl) rest
      simpa [paramLines] using hfirst
    | cons q params =>
      have hfirst := hline p List.mem_cons_self ',' (.inl rfl) (paramLines (q :: params) ++ rest)
      rw [htail] at hfirst
      simpa [paramLines] using hfirst

/-- The last line of a report, and nothing behind it, has no parameter. -/
theorem readReport_footer {filename : Text} (hfilename : '\n' ∉ filename) (n : Int) :
    readReport ("[*] ".toList ++ cStr filename ++ ':' :: decimal n ++ "\n".toList) = [] := by
  have hfront : '\n' ∉ "[*] ".toList := by decide
  have hnewline : '\n' ∉ ("[*] ".toList ++ cStr filename ++ [':']) ++ decimal n := by
    simp only [List.mem_append, List.mem_singleton, not_or]
    exact ⟨⟨⟨hfront, notMem_cStr hfilename⟩, by decide⟩,
      notMem_decimal (by decide) (by decide) n⟩
  have hread := readReport_cons hnewline []
  have hend : readReport [] = [] := rfl
  rw [readLine_decimal, hend] at hread
  simpa using hread

/-- The parameters of a legible payload are read back from its report. -/
theorem readReport_of_print {payload : SdbFunction} {text : Text}
    (hprint : printFunctionPayload payload = .ok text)
    (htotal : payload.totalParams = payload.paramVars.length)
    (hlegible : ∀ p ∈ payload.paramVars, Legible p.toSdbEntry)
    (hone : ∀ p ∈ payload.paramVars, OneLine p.toSdbEntry) (hname : '\n' ∉ payload.name)
    (hfilename : '\n' ∉ payload.filename) :
    readReport text = payload.paramVars.map fun p ↦ (p.value, p.valueAlias) := by
  obtain ⟨params, hparams, htext⟩ := bind_eq_ok.mp hprint
  have hfooter := readReport_footer hfilename payload.lineNo
  have hhead : '\n' ∉ "[*] ".toList ++ ([] : Text) ++ cStr payload.name := by
    have hfront : '\n' ∉ "[*] ".toList := by decide
    rw [List.append_nil, List.mem_append, not_or]
    exact ⟨hfront, notMem_cStr hname⟩
  have hshort (rest : Text) : '\n' ∉ rest →
      '\n' ∉ "[*] ".toList ++ ([] : Text) ++ cStr payload.name ++ rest := by
    intro hrest
    rw [List.mem_append, not_or]
    exact ⟨hhead, hrest⟩
  cases htext
  unfold printParams at hparams
  rw [htotal] at hparams
  split at hparams
  · next hnone =>
    cases hparams
    have hnil : payload.paramVars = [] := List.eq_nil_of_length_eq_zero (by omega)
    have hread := readReport_cons (hshort "()".toList (by decide))
      ("[*] ".toList ++ cStr payload.filename ++ ':' :: decimal payload.lineNo ++ "\n".toList)
    have hline : readLine ("[*] ".toList ++ [] ++ cStr payload.name ++ "()".toList) = none :=
      readLine_parentheses _
    rw [hline, hfooter] at hread
    rw [hnil]
    simpa using hread
  · split at hparams
    · next hsingle =>
      obtain ⟨param, hparam, htext⟩ := bind_eq_ok.mp hparams
      cases htext
      have hsingle : payload.paramVars.length = 1 := by omega
      obtain ⟨first, hvars⟩ := List.length_eq_one_iff.mp hsingle
      rw [hvars] at hparam hlegible hone ⊢
      cases hparam
      have hp := hlegible param List.mem_cons_self
      have hmem : '\n' ∉ ['('] ++ paramText param.toSdbEntry ++ [')'] := by
        simp only [List.mem_append, List.mem_singleton, not_or]
        exact ⟨⟨by decide, notMem_paramText hp (hone param List.mem_cons_self)⟩, by decide⟩
      have hread := readReport_cons (hshort _ hmem)
        ("[*] ".toList ++ cStr payload.filename ++ ':' :: decimal payload.lineNo ++ "\n".toList)
      have hline := readLine_param hp ("[*] ".toList ++ [] ++ cStr payload.name ++ ['(']) ')'
        (.inr rfl)
      rw [hfooter, List.append_nil] at hread
      simp only [List.append_assoc, List.nil_append] at hread hline
      rw [hline] at hread
      simpa using hread
    · next hmany =>
      cases hparams
      have hread := readReport_cons (hshort "(".toList (by decide)) (paramLines payload.paramVars ++
        ("[*] ".toList ++ cStr payload.filename ++ ':' :: decimal payload.lineNo ++ "\n".toList))
      have hline : readLine ("[*] ".toList ++ [] ++ cStr payload.name ++ "(".toList) = none :=
        readLine_of_last _ (by decide)
      rw [hline, readReport_paramLines hlegible hone, hfooter] at hread
      simpa using hread

end Lines

section Readers

variable {fuel : Nat} {mem : Memory} {u : Uninitialised} {s data : Text} {addr : Word}

theorem disjoint_aliasMarks (h : s.Disjoint valueMarks) : s.Disjoint aliasMarks :=
  List.disjoint_of_subset_right aliasMarks_subset h

theorem decimal_disjoint (n : Int) : (decimal n).Disjoint valueMarks := by
  intro c hc hmark
  have hnone : ∀ c ∈ valueMarks, c.isDigit = false ∧ c ≠ '-' := by decide
  obtain ⟨hdigit, hsign⟩ := hnone c hmark
  exact notMem_decimal hdigit hsign n hc

theorem longToHexString_disjoint (value : Word) : (longToHexString value).Disjoint valueMarks := by
  unfold longToHexString
  split
  · decide
  · have hnone : ∀ c ∈ valueMarks, isDigitOf 16 c = false := by decide
    have hprefix : '0' ∉ valueMarks ∧ 'x' ∉ valueMarks := by decide
    simp only [List.disjoint_cons_left, hprefix, not_false_eq_true, true_and]
    intro c hc hmark
    have hdigit := isDigitOf_of_mem_toDigits (by omega) le_rfl hc
    rw [hnone c hmark] at hdigit
    cases hdigit

theorem numbersText_disjoint (values : List Int) : (numbersText values).Disjoint aliasMarks := by
  have hcomma : [','].Disjoint aliasMarks := by decide
  have hopen : '[' ∉ aliasMarks := by decide
  have hclose : [']'].Disjoint aliasMarks := by decide
  have helements : (List.intercalate [','] (values.map decimal)).Disjoint aliasMarks := by
    induction values with
    | nil => exact List.disjoint_nil_left _
    | cons v values ih =>
      have hv := disjoint_aliasMarks (decimal_disjoint v)
      cases values with
      | nil => simpa using hv
      | cons w values =>
        rw [List.map_cons, List.map_cons, List.intercalate_cons_cons, List.append_assoc]
        exact List.disjoint_append_left.mpr ⟨hv, List.disjoint_append_left.mpr ⟨hcomma, ih⟩⟩
  unfold numbersText
  split
  · exact List.disjoint_nil_left _
  · exact List.disjoint_cons_left.mpr
      ⟨hopen, List.disjoint_append_left.mpr ⟨helements, hclose⟩⟩

theorem getNumberData_disjoint {byteSize : Int}
    (h : getNumberData fuel mem addr byteSize = .ok data) : data.Disjoint aliasMarks := by
  obtain ⟨values, -, rfl⟩ := map_eq_ok.mp h
  exact numbersText_disjoint values

theorem charsOf_disjoint (chars : List Byte) {result : Text} (h : result.Disjoint aliasMarks) :
    (charsOf chars result).1.Disjoint aliasMarks := by
  induction chars generalizing result with
  | nil => exact h
  | cons c chars ih =>
    unfold charsOf
    split
    · exact h
    · split
      · exact ih (List.disjoint_append_left.mpr ⟨h, disjoint_aliasMarks (decimal_disjoint _)⟩)
      · exact h

theorem getCharData_disjoint {index : Int} {beyond : Byte}
    (h : getCharData fuel mem index beyond addr = .ok data) : data.Disjoint aliasMarks := by
  have hends : Loop.Ends (charBody mem beyond addr) (index, []) data := ⟨fuel, within_eq_ok.mp h⟩
  refine Loop.ends_induction
    (motive := fun s ↦ s.2.Disjoint aliasMarks → data.Disjoint aliasMarks) hends ?_ ?_
    (List.disjoint_nil_left _)
  · intro s hb hs
    simp only [charBody] at hb
    split at hb
    · cases hb
      exact hs
    · split at hb
      · cases hb
        exact charsOf_disjoint _ hs
      · cases hb
  · intro s s' hb _ ih hs
    simp only [charBody] at hb
    split at hb
    · cases hb
    · split at hb
      · cases hb
      · cases hb
        exact ih (charsOf_disjoint _ hs)

theorem multiAlias_disjoint {items : List (Word × Text)}
    (h : ∀ item ∈ items, item.2.Disjoint aliasMarks) : (multiAlias items).Disjoint aliasMarks := by
  have hequals : '=' ∉ aliasMarks := by decide
  have hend : " ]".toList.Disjoint aliasMarks := by decide
  have hcomma : ", ".toList.Disjoint aliasMarks := by decide
  induction items with
  | nil => decide
  | cons item items ih =>
    obtain ⟨pointer, text⟩ := item
    have hpointer := disjoint_aliasMarks (longToHexString_disjoint pointer)
    have htext : text.Disjoint aliasMarks := h _ List.mem_cons_self
    have hrest := ih fun item' hitem ↦ h item' (List.mem_cons_of_mem _ hitem)
    cases items with
    | nil =>
      simp only [multiAlias, List.disjoint_append_left, List.disjoint_cons_left]
      exact ⟨⟨hpointer, hequals, htext⟩, hend⟩
    | cons item' items =>
      simp only [multiAlias, List.disjoint_append_left, List.disjoint_cons_left]
      exact ⟨⟨⟨hpointer, hequals, htext⟩, hcomma⟩, hrest⟩

variable {param shown : SdbEntry} {value : Word}

theorem legible_getNumberValue {isArrayType : Bool} (hparam : Legible param)
    (h : getNumberValue fuel mem param value isArrayType = .ok shown) : Legible shown := by
  unfold getNumberValue at h
  split at h
  · split at h
    · cases h
      exact ⟨(by decide : "0".toList.Disjoint valueMarks), hparam.valueAlias⟩
    · cases h
      exact ⟨decimal_disjoint _, hparam.valueAlias⟩
  · split at h
    · cases h
      exact ⟨(by decide : "0x0".toList.Disjoint valueMarks), hparam.valueAlias⟩
    · obtain ⟨data, hdata, rfl⟩ := map_eq_ok.mp h
      exact ⟨longToHexString_disjoint value, getNumberData_disjoint hdata⟩

theorem legible_getStringValue {isArrayType : Bool} (hparam : Legible param)
    (h : getStringValue fuel mem u param value isArrayType = .ok shown) : Legible shown := by
  unfold getStringValue at h
  split at h
  · cases h
    exact ⟨decimal_disjoint _, hparam.valueAlias⟩
  · obtain ⟨data, hdata, rfl⟩ := map_eq_ok.mp h
    exact ⟨longToHexString_disjoint value, getCharData_disjoint hdata⟩

theorem legible_getMultiValue {read : Word → Except Failure Text} (hparam : Legible param)
    (hread : ∀ addr data, read addr = .ok data → data.Disjoint aliasMarks)
    (h : getMultiValue fuel mem read param value = .ok shown) : Legible shown := by
  obtain ⟨addrs, -, h⟩ := bind_eq_ok.mp h
  obtain ⟨items, hitems, h⟩ := bind_eq_ok.mp h
  cases h
  have hopen : "[ ".toList.Disjoint aliasMarks := by decide
  refine ⟨hparam.value, List.disjoint_append_left.mpr ⟨hopen, multiAlias_disjoint ?_⟩⟩
  intro item hmem
  obtain ⟨pointer, -, hitem⟩ := (forall₂_mem (mapM_eq_ok_iff.mp hitems)).2 item hmem
  obtain ⟨data, hdata, rfl⟩ := map_eq_ok.mp hitem
  exact hread _ data hdata

theorem legible_pointeeToString {count : Nat} {name : DatatypeName} (hparam : Legible param)
    (h : pointeeToString fuel mem u param value count name = .ok shown) : Legible shown := by
  unfold pointeeToString at h
  split at h
  · exact legible_getNumberValue hparam h
  · exact legible_getStringValue hparam h
  · exact legible_getMultiValue hparam (fun _ _ ↦ getNumberData_disjoint) h
  · exact legible_getMultiValue hparam (fun _ _ ↦ getCharData_disjoint) h
  · cases h
    exact hparam

/-- Whatever is shown of a value is legible. -/
theorem legible_datatypeValueToString {units : List CompileUnit} {datatypeIdx : Int}
    (hparam : Legible param)
    (h : datatypeValueToString fuel mem u units param value datatypeIdx = .ok shown) :
    Legible shown := by
  have hdots : "...".toList.Disjoint valueMarks := by decide
  have hunknown : "unknown".toList.Disjoint valueMarks := by decide
  simp only [datatypeValueToString] at h
  split at h
  · cases h
    exact ⟨hdots, hparam.valueAlias⟩
  · split at h
    · unfold plainValueToString at h
      split at h
      · refine legible_getNumberValue ?_ h
        exact ⟨hunknown, hparam.valueAlias⟩
      · refine legible_getStringValue ?_ h
        exact ⟨hunknown, hparam.valueAlias⟩
      · obtain ⟨-, -, h⟩ := bind_eq_ok.mp h
        cases h
        exact ⟨hdots, hparam.valueAlias⟩
      · cases h
        exact ⟨hunknown, hparam.valueAlias⟩
    · have hvalue := longToHexString_disjoint value
      simp only [pointerValueToString] at h
      split at h
      · cases h
        exact ⟨hvalue, (by decide : "-1".toList.Disjoint aliasMarks)⟩
      · split at h
        · cases h
          exact ⟨hvalue, (by decide : "0".toList.Disjoint aliasMarks)⟩
        · split at h
          · cases h
            exact ⟨hvalue, (by decide : "NULL".toList.Disjoint aliasMarks)⟩
          · refine legible_pointeeToString ?_ h
            exact ⟨hvalue, hparam.valueAlias⟩

end Readers

section Payload

variable {fuel : Nat} {mem : Memory} {u : Uninitialised} {units : List CompileUnit}
  {cu : CompileUnit} {func : Datatype} {regs : UserRegs} {cuIndex fnIndex : Int}

/-- A unit and a function without newlines in the names that a report shows. -/
structure NamesOneLine (cu : CompileUnit) (func : Datatype) : Prop where
  filename : '\n' ∉ cu.filename
  function : '\n' ∉ func.name
  parameters : ∀ i ∈ func.parameters, '\n' ∉ i.name
  datatypes : ∀ i ∈ cu.datatypes, '\n' ∉ i.name

theorem notMem_prependType {dt : Text} (hdt : '\n' ∉ dt) (tags : List DwTag) {i : Datatype}
    (hi : '\n' ∉ i.name) : '\n' ∉ prependType dt tags i := by
  have hvoid : '\n' ∉ "void ".toList := by decide
  have hconst : '\n' ∉ "const ".toList := by decide
  have hclose : '\n' ∉ ") ".toList := by decide
  unfold prependType
  split_ifs <;> simp_all only [List.mem_append, List.mem_cons, not_or, not_false_eq_true, true_and,
    and_true, reduceCtorEq] <;> decide

/-- The name of a type is put together from the names of the chain. -/
theorem notMem_foldl_visit {chain : List Datatype} (hchain : ∀ i ∈ chain, '\n' ∉ i.name)
    {s : MetadataScan} (hs : '\n' ∉ s.dt) : '\n' ∉ (chain.foldl MetadataScan.visit s).dt := by
  induction chain generalizing s with
  | nil => exact hs
  | cons i chain ih =>
    apply ih fun j hj ↦ hchain j (List.mem_cons_of_mem i hj)
    exact notMem_prependType hs _ (hchain i List.mem_cons_self)

/-- The metadata of a parameter keep its name, its value and its alias. -/
theorem getDatatypeMetadata_oneLine {datatype : Datatype} {param param' : SdbEntry}
    (h : getDatatypeMetadata fuel cu datatype param = some param')
    (hcu : ∀ i ∈ cu.datatypes, '\n' ∉ i.name) :
    param'.name = param.name ∧ param'.value = param.value ∧
      param'.valueAlias = param.valueAlias ∧ '\n' ∉ param'.dtName := by
  obtain ⟨s, hs, rfl⟩ := Option.map_eq_some_iff.mp h
  obtain ⟨chain, ht, rfl⟩ := metadataScan_eq_some hs
  have hchain : ∀ i ∈ chain, '\n' ∉ i.name := by
    intro i hi
    obtain ⟨z, hz⟩ := ht.exists_prev hi
    exact hcu i (mem_of_nextType hz)
  have hstart : '\n' ∉ (MetadataScan.start datatype param).dt := by
    unfold MetadataScan.start
    split
    · exact (by decide : '\n' ∉ "...".toList)
    · exact List.not_mem_nil
  obtain ⟨datatypes, byteSize, hvisited⟩ := foldl_visit_frame chain (.start datatype param)
  obtain ⟨_, hframe⟩ := MetadataScan.start_frame datatype param
  refine ⟨?_, ?_, ?_, notMem_foldl_visit hchain hstart⟩
  · rw [hvisited, hframe]
  · rw [hvisited, hframe]
  · rw [hvisited, hframe]

/-- An entry of a payload is legible and on one line. -/
theorem parameterEntry_legible {index : Nat} {funcParam : DatatypeEntry} {shown : SdbEntry}
    (h : parameterEntry fuel mem u units cu regs cuIndex fnIndex index funcParam = .ok shown)
    (hcu : ∀ i ∈ cu.datatypes, '\n' ∉ i.name) (hname : '\n' ∉ funcParam.name) :
    Legible shown ∧ OneLine shown := by
  obtain ⟨param, hparam, h⟩ := bind_eq_ok.mp h
  obtain ⟨hsame, hvalue, halias, hdt⟩ := getDatatypeMetadata_oneLine (within_eq_ok.mp hparam) hcu
  have hlegible : Legible param := by
    refine ⟨?_, ?_⟩
    · rw [hvalue]
      exact List.disjoint_nil_left _
    · rw [halias]
      exact List.disjoint_nil_left _
  have hone : '\n' ∉ param.name := by
    rw [hsame]
    exact hname
  simp only [getDatatypeValue, Bool.false_eq_true, if_false] at h
  split at h
  · refine ⟨legible_datatypeValueToString hlegible h, ?_⟩
    obtain ⟨valueAlias, rfl⟩ := shownAs_of_datatypeValueToString rfl h
    exact ⟨hone, hdt⟩
  · cases h
    exact ⟨hlegible, hone, hdt⟩

/-- The total of a payload is the number of its entries, as an `int`. -/
theorem totalParams_of_generateFunctionPayload {payload : SdbFunction}
    (h : generateFunctionPayload fuel mem u units cu func regs cuIndex fnIndex = .ok payload) :
    payload.totalParams = toInt32 payload.paramVars.length := by
  obtain ⟨hlength, -⟩ := entries_of_generateFunctionPayload h
  obtain ⟨paramVars, -, hpayload⟩ := bind_eq_ok.mp h
  cases hpayload
  rw [hlength]

/-- A payload that was built is printed, however many parameters the function has. -/
theorem exists_printFunctionPayload {payload : SdbFunction}
    (h : generateFunctionPayload fuel mem u units cu func regs cuIndex fnIndex = .ok payload) :
    ∃ text, printFunctionPayload payload = .ok text := by
  have htotal := totalParams_of_generateFunctionPayload h
  unfold printFunctionPayload printParams
  split
  · exact ⟨_, rfl⟩
  · split
    · next hsingle =>
      -- a count of one is that of a list with an entry, even where it has wrapped
      cases hvars : payload.paramVars with
      | nil =>
        rw [htotal, hvars] at hsingle
        cases hsingle
      | cons p paramVars => exact ⟨_, rfl⟩
    · exact ⟨_, rfl⟩

/-- The values and the aliases of a payload are read back from its report. -/
theorem readReport_of_payload {payload : SdbFunction} {text : Text}
    (h : generateFunctionPayload fuel mem u units cu func regs cuIndex fnIndex = .ok payload)
    (hprint : printFunctionPayload payload = .ok text)
    (hfits : func.parameters.length < 0x80000000) (hnames : NamesOneLine cu func) :
    readReport text = payload.paramVars.map fun p ↦ (p.value, p.valueAlias) := by
  obtain ⟨hlength, hentries⟩ := entries_of_generateFunctionPayload h
  have hall : ∀ p ∈ payload.paramVars, Legible p.toSdbEntry ∧ OneLine p.toSdbEntry := by
    intro p hp
    obtain ⟨index, hindex⟩ := List.getElem?_of_mem hp
    have hlt := (List.getElem?_eq_some_iff.mp hindex).1
    rw [hlength] at hlt
    obtain ⟨shown, hshown, hvar⟩ := hentries index _ (List.getElem?_eq_getElem hlt)
    rw [hindex] at hvar
    cases hvar
    exact parameterEntry_legible hshown hnames.datatypes
      (hnames.parameters _ (List.getElem_mem hlt))
  obtain ⟨hname, hfilename⟩ : payload.name = func.name ∧ payload.filename = cu.filename := by
    obtain ⟨paramVars, -, hpayload⟩ := bind_eq_ok.mp h
    cases hpayload
    exact ⟨rfl, rfl⟩
  apply readReport_of_print hprint
  · rw [totalParams_of_generateFunctionPayload h, toInt32_of_lt (by omega)]
  · exact fun p hp ↦ (hall p hp).1
  · exact fun p hp ↦ (hall p hp).2
  · rw [hname]
    exact hnames.function
  · rw [hfilename]
    exact hnames.filename

/-- A payload that was built is printed, however many parameters the function has. Where these
can be counted in an `int`, and no name contains a newline, the values and the aliases of all
parameters can be read back from the text, in their order. -/
theorem printFunctionPayload_reads_back {payload : SdbFunction}
    (h : generateFunctionPayload fuel mem u units cu func regs cuIndex fnIndex = .ok payload) :
    ∃ text, printFunctionPayload payload = .ok text ∧
      (func.parameters.length < 0x80000000 → NamesOneLine cu func →
        readReport text = payload.paramVars.map fun p ↦ (p.value, p.valueAlias)) := by
  obtain ⟨text, hprint⟩ := exists_printFunctionPayload h
  exact ⟨text, hprint, readReport_of_payload h hprint⟩

/-- A parameter without a type is shown as an unknown one, and read back as that. -/
theorem printFunctionPayload_reads_back_sample :
    ∃ payload text, generateFunctionPayload 1 zeroMemory zeroUninitialised [unaryUnit 0]
        (unaryUnit 0) (unaryFunction 0) ⟨0, 0, 0, 0, 0, 0, 0⟩ 0 0 = .ok payload ∧
      printFunctionPayload payload = .ok text ∧
      readReport text = [("unknown".toList, [])] := by
  have hpayload : generateFunctionPayload 1 zeroMemory zeroUninitialised [unaryUnit 0]
    (unaryUnit 0) (unaryFunction 0) ⟨0, 0, 0, 0, 0, 0, 0⟩ 0 0 = .ok _ := rfl
  obtain ⟨text, hprint, hread⟩ := printFunctionPayload_reads_back hpayload
  exact ⟨_, text, hpayload, hprint,
    hread (by decide) ⟨by decide, by decide, by decide, by decide⟩⟩

end Payload

end ArgsDebugger
