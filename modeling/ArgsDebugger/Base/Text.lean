import Mathlib.Data.List.Infix
import Mathlib.Data.List.TakeWhile

/-!
# Strings and the conversions of the C++ library

A `std::string` is the list of its characters. `stol` follows `std::stol` on an LP64
target: white space, a sign, a base prefix, the longest run of digits, and the two
exceptions; `numeral` is its value before that has to fit. `substr` is the substring
constructor, `decimal` is `std::to_string` and `boolalpha` the extraction of a `bool` under
`std::boolalpha`. A number that was written in decimal or hexadecimal is read back by `stol`,
when it fits a `long`. Which texts `stol` takes in base 16 is said by `SpellsHex`, in the terms of
their parts.
-/

namespace ArgsDebugger

/-- The contents of a `std::string`. -/
abbrev Text := List Char

/-- What ends a call of the debugger without a result. -/
inductive Failure where
  /-- `std::invalid_argument`: `stol` found no digits. -/
  | invalidArgument
  /-- `std::out_of_range`: `stol` overflowed, or a substring starts behind the end. -/
  | outOfRange
  /-- `std::runtime_error`: a peek of `breakpoint.cc` returned -1. -/
  | runtimeError
  /-- A vector is indexed outside its bounds, which C++ leaves undefined. -/
  | badIndex
  /-- A loop used up the budget of the model. -/
  | outOfFuel
  deriving DecidableEq, Repr

/-- Conversion of an integer to a 32-bit `int`. -/
def toInt32 (v : Int) : Int := (BitVec.ofInt 32 v).toInt

/-- Conversion to `int` keeps what fits. -/
theorem toInt32_of_lt {n : Nat} (h : n < 0x80000000) : toInt32 n = n := by
  rw [toInt32, BitVec.toInt_ofInt]
  exact Int.bmod_eq_of_le (by omega) (by omega)

theorem toInt32_toInt32 (v : Int) : toInt32 (toInt32 v) = toInt32 v := by
  unfold toInt32
  rw [BitVec.ofInt_toInt]

/-- Adding to a converted integer is adding before the conversion. -/
theorem toInt32_toInt32_add (v w : Int) : toInt32 (toInt32 v + w) = toInt32 (v + w) := by
  unfold toInt32
  rw [BitVec.ofInt_add, BitVec.ofInt_toInt, ← BitVec.ofInt_add]

/-- `isspace` in the C locale. -/
def isSpace (c : Char) : Bool :=
  c == ' ' || c == '\t' || c == '\n' || c == '\r' || c == '\x0b' || c == '\x0c'

/-- The value of a character as a digit of some base up to 36. -/
def digitVal (c : Char) : Option Nat :=
  if '0' ≤ c ∧ c ≤ '9' then some (c.toNat - '0'.toNat)
  else if 'a' ≤ c ∧ c ≤ 'z' then some (c.toNat - 'a'.toNat + 10)
  else if 'A' ≤ c ∧ c ≤ 'Z' then some (c.toNat - 'A'.toNat + 10)
  else none

/-- The character is a digit of the base. -/
def isDigitOf (base : Nat) (c : Char) : Bool :=
  match digitVal c with
  | some d => d < base
  | none => false

/-- The number spelled by a list of digits. -/
def digitsValue (base : Nat) (ds : Text) : Nat :=
  ds.foldl (fun n c ↦ base * n + (digitVal c).getD 0) 0

/-- Drop the sign of a number, and tell whether it was a minus. -/
def splitSign : Text → Bool × Text
  | '-' :: s => (true, s)
  | '+' :: s => (false, s)
  | s => (false, s)

/-- The base of a number and the text after its prefix: base 0 detects `0x` and `0`, base 16
allows `0x`. The prefix counts only before a hexadecimal digit. -/
def splitBase (base : Nat) : Text → Nat × Text
  | '0' :: x :: d :: s =>
    if (base = 0 ∨ base = 16) ∧ (x = 'x' ∨ x = 'X') ∧ isDigitOf 16 d then (16, d :: s)
    else if base = 0 then (8, '0' :: x :: d :: s)
    else (base, '0' :: x :: d :: s)
  | '0' :: s => if base = 0 then (8, '0' :: s) else (base, '0' :: s)
  | s => if base = 0 then (10, s) else (base, s)

/-- `std::stol`: the value of the longest numeric prefix, which must exist and fit a
signed 64-bit `long`. -/
def stol (s : Text) (base : Nat) : Except Failure Int :=
  let (neg, s) := splitSign (s.dropWhile isSpace)
  let (base, s) := splitBase base s
  let ds := s.takeWhile (isDigitOf base)
  if ds = [] then .error .invalidArgument
  else
    let n : Int := digitsValue base ds
    let v := if neg then -n else n
    if -0x8000000000000000 ≤ v ∧ v < 0x8000000000000000 then .ok v else .error .outOfRange

/-- The value of the longest numeric prefix of a text, however large. -/
def numeral (s : Text) (base : Nat) : Option Int :=
  let (neg, s) := splitSign (s.dropWhile isSpace)
  let (base, s) := splitBase base s
  let ds := s.takeWhile (isDigitOf base)
  if ds = [] then none
  else
    let n : Int := digitsValue base ds
    some (if neg then -n else n)

/-- The values of a signed 64-bit `long`. -/
def IsLong (v : Int) : Prop := -0x8000000000000000 ≤ v ∧ v < 0x8000000000000000

instance (v : Int) : Decidable (IsLong v) := inferInstanceAs (Decidable (_ ∧ _))

/-- `stol` computes the numeral of a text, which must exist and be a `long`. -/
theorem stol_eq (s : Text) (base : Nat) :
    stol s base = match numeral s base with
      | none => .error .invalidArgument
      | some v => if IsLong v then .ok v else .error .outOfRange := by
  unfold stol numeral
  dsimp only
  split
  · rfl
  · rfl

theorem stol_eq_ok_iff {s : Text} {base : Nat} {v : Int} :
    stol s base = .ok v ↔ numeral s base = some v ∧ IsLong v := by
  rw [stol_eq]
  cases numeral s base with
  | none => simp
  | some n =>
    simp only [Option.some.injEq]
    by_cases hlong : IsLong n
    · rw [if_pos hlong, Except.ok.injEq]
      exact ⟨fun h ↦ ⟨h, h ▸ hlong⟩, And.left⟩
    · rw [if_neg hlong]
      exact ⟨nofun, fun ⟨h, hv⟩ ↦ absurd (h ▸ hv) hlong⟩

/-- `std::string(s, pos, n)`. -/
def substr (s : Text) (pos n : Nat) : Except Failure Text :=
  if s.length < pos then .error .outOfRange else .ok ((s.drop pos).take n)

/-- `std::istringstream(s) >> std::boolalpha >> b`: the new value of `b`. Nothing but white
space leaves `b` alone, a failed match sets it to false. -/
def boolalpha (s : Text) (b : Bool) : Bool :=
  match s.dropWhile isSpace with
  | [] => b
  | t => "true".toList.isPrefixOf t

/-- `std::to_string` of a signed integer. -/
def decimal (v : Int) : Text :=
  if v < 0 then '-' :: Nat.toDigits 10 v.natAbs else Nat.toDigits 10 v.natAbs

theorem decimal_ne_nil (v : Int) : decimal v ≠ [] := by
  unfold decimal
  split
  · exact List.cons_ne_nil _ _
  · exact Nat.toDigits_ne_nil

/-- `data.find(search) != npos`. -/
def containsString (data search : Text) : Bool := decide (search <:+: data)

section Numerals

variable {base n : Nat}

private theorem digitVal_digitChar : ∀ d < 16, digitVal (Nat.digitChar d) = some d := by decide

private theorem digitChar_ne : ∀ d < 16, isSpace (Nat.digitChar d) = false ∧
    Nat.digitChar d ≠ '-' ∧ Nat.digitChar d ≠ '+' ∧ (0 < d → Nat.digitChar d ≠ '0') := by decide

/-- The characters of a numeral are digits of its base. -/
private theorem exists_digit_of_mem_toDigits (hbase : 1 < base) {c : Char}
    (h : c ∈ Nat.toDigits base n) : ∃ d < base, c = Nat.digitChar d := by
  induction n using Nat.strong_induction_on with
  | h n ih =>
    by_cases hn : n < base
    · rw [Nat.toDigits_of_lt_base hn, List.mem_singleton] at h
      exact ⟨n, hn, h⟩
    · have hle : base ≤ n := Nat.le_of_not_lt hn
      rw [Nat.toDigits_of_base_le hbase hle, List.mem_append, List.mem_singleton] at h
      rcases h with h | h
      · exact ih (n / base) (Nat.div_lt_self (by omega) hbase) h
      · exact ⟨n % base, Nat.mod_lt n (by omega), h⟩

/-- A numeral of a positive number does not begin with a zero. -/
theorem toDigits_eq_cons (hbase : 1 < base) (hn : 0 < n) :
    ∃ d ds, Nat.toDigits base n = Nat.digitChar d :: ds ∧ 0 < d ∧ d < base := by
  induction n using Nat.strong_induction_on with
  | h n ih =>
    by_cases hlt : n < base
    · exact ⟨n, [], Nat.toDigits_of_lt_base hlt, hn, hlt⟩
    · have hle : base ≤ n := Nat.le_of_not_lt hlt
      obtain ⟨d, ds, hd, hpos, hdb⟩ := ih (n / base) (Nat.div_lt_self (by omega) hbase)
        (Nat.div_pos hle (by omega))
      refine ⟨d, ds ++ [Nat.digitChar (n % base)], ?_, hpos, hdb⟩
      rw [Nat.toDigits_of_base_le hbase hle, hd, List.cons_append]

theorem digitsValue_append_singleton (ds : Text) (c : Char) :
    digitsValue base (ds ++ [c]) = base * digitsValue base ds + (digitVal c).getD 0 := by
  simp only [digitsValue, List.foldl_append, List.foldl_cons, List.foldl_nil]

/-- A numeral spells its number. -/
theorem digitsValue_toDigits (hbase : 1 < base) (hbase' : base ≤ 16) :
    digitsValue base (Nat.toDigits base n) = n := by
  induction n using Nat.strong_induction_on with
  | h n ih =>
    by_cases hlt : n < base
    · rw [Nat.toDigits_of_lt_base hlt, ← List.nil_append [n.digitChar],
        digitsValue_append_singleton, digitVal_digitChar n (by omega)]
      simp [digitsValue]
    · have hle : base ≤ n := Nat.le_of_not_lt hlt
      have hmod := Nat.mod_lt n (show base > 0 by omega)
      rw [Nat.toDigits_of_base_le hbase hle, digitsValue_append_singleton,
        ih (n / base) (Nat.div_lt_self (by omega) hbase), digitVal_digitChar _ (by omega)]
      exact Nat.div_add_mod n base

/-- Different numbers have different numerals. -/
theorem toDigits_inj (hbase : 1 < base) (hbase' : base ≤ 16) {m : Nat}
    (h : Nat.toDigits base n = Nat.toDigits base m) : n = m := by
  rw [← digitsValue_toDigits (n := n) hbase hbase', h, digitsValue_toDigits hbase hbase']

/-- Different integers have different decimal texts. -/
theorem decimal_inj {v w : Int} (h : decimal v = decimal w) : v = w := by
  have hsign : ∀ m n : Nat, '-' :: Nat.toDigits 10 m ≠ Nat.toDigits 10 n := by
    intro m n heq
    have hmem : '-' ∈ Nat.toDigits 10 n := heq ▸ List.mem_cons_self
    exact absurd (Nat.isDigit_of_mem_toDigits (by omega) (by omega) hmem) (by decide)
  unfold decimal at h
  split at h
  · next hv =>
    split at h
    · next hw =>
      have habs := toDigits_inj (by omega) (by omega) (List.cons.inj h).2
      omega
    · exact absurd h (hsign _ _)
  · next hv =>
    split at h
    · exact absurd h.symm (hsign _ _)
    · next hw =>
      have habs := toDigits_inj (by omega) (by omega) h
      omega

/-- A decimal text is made of digits and a sign. -/
theorem notMem_decimal {c : Char} (hdigit : c.isDigit = false) (hsign : c ≠ '-') (v : Int) :
    c ∉ decimal v := by
  have hdigits : c ∉ Nat.toDigits 10 v.natAbs := by
    intro hmem
    rw [Nat.isDigit_of_mem_toDigits (by omega) (by omega) hmem] at hdigit
    cases hdigit
  unfold decimal
  split
  · rw [List.mem_cons]
    exact not_or.mpr ⟨hsign, hdigits⟩
  · exact hdigits

/-- A hexadecimal digit is neither a space nor a sign nor the letter of a base prefix. -/
private theorem hexDigit_ne {c : Char} (hc : isDigitOf 16 c = true) :
    isSpace c = false ∧ c ≠ '-' ∧ c ≠ '+' ∧ c ≠ 'x' ∧ c ≠ 'X' := by
  have hne : ∀ d, isDigitOf 16 d = false → c ≠ d := by
    intro d hd h
    rw [h, hd] at hc
    cases hc
  refine ⟨?_, hne _ rfl, hne _ rfl, hne _ rfl, hne _ rfl⟩
  simp only [isSpace, Bool.or_eq_false_iff, beq_eq_false_iff_ne]
  exact ⟨⟨⟨⟨⟨hne _ rfl, hne _ rfl⟩, hne _ rfl⟩, hne _ rfl⟩, hne _ rfl⟩, hne _ rfl⟩

private theorem isDigitOf_sixteen (hbase : base ≤ 16) {c : Char} (hc : isDigitOf base c = true) :
    isDigitOf 16 c = true := by
  unfold isDigitOf at hc ⊢
  split at hc
  · next d hd =>
    simp only [decide_eq_true_eq] at hc ⊢
    omega
  · cases hc

/-- The characters of a numeral count as digits of its base. -/
theorem isDigitOf_of_mem_toDigits (hbase : 1 < base) (hbase' : base ≤ 16) {c : Char}
    (h : c ∈ Nat.toDigits base n) : isDigitOf base c = true := by
  obtain ⟨d, hd, rfl⟩ := exists_digit_of_mem_toDigits hbase h
  simp only [isDigitOf, digitVal_digitChar d (by omega), decide_eq_true_eq, hd]

/-- Digits have neither space nor a sign in front. -/
private theorem splitSign_digits {d : Char} (hd : isDigitOf 16 d = true) (s : Text) :
    splitSign ((d :: s).dropWhile isSpace) = (false, d :: s) := by
  obtain ⟨hspace, hminus, hplus, -⟩ := hexDigit_ne hd
  rw [List.dropWhile_cons_of_neg (by simp [hspace])]
  unfold splitSign
  split
  · next h => exact absurd (List.cons.inj h).1 hminus
  · next h => exact absurd (List.cons.inj h).1 hplus
  · rfl

/-- The numeral of a positive number is not taken for an octal one. -/
private theorem splitBase_numeral (hn : 0 < n) :
    splitBase 0 (Nat.toDigits 10 n) = (10, Nat.toDigits 10 n) := by
  obtain ⟨d, ds, hds, hpos, hd⟩ := toDigits_eq_cons (show 1 < 10 by omega) hn
  have hzero := (digitChar_ne d (by omega)).2.2.2 hpos
  rw [hds]
  unfold splitBase
  split
  · next h => exact absurd (List.cons.inj h).1 hzero
  · next h => exact absurd (List.cons.inj h).1 hzero
  · rfl

/-- Behind the sign and the prefix the digits up to something else are read. -/
private theorem numeral_of_digits {s t ds rest : Text} {neg : Bool} {b : Nat}
    (hsign : splitSign (s.dropWhile isSpace) = (neg, t))
    (hbegin : splitBase b t = (base, ds ++ rest))
    (hne : ds ≠ []) (hds : ∀ c ∈ ds, isDigitOf base c = true)
    (hrest : rest.takeWhile (isDigitOf base) = []) :
    numeral s b = some (if neg then -(digitsValue base ds : Int) else digitsValue base ds) := by
  have htake : (ds ++ rest).takeWhile (isDigitOf base) = ds := by
    rw [List.takeWhile_append_of_pos hds, hrest, List.append_nil]
  simp only [numeral, hsign, hbegin, htake, if_neg hne]

/-- A decimal text is read back, also when the base is detected. -/
theorem numeral_decimal (v : Int) : numeral (decimal v) 0 = some v := by
  unfold decimal
  by_cases hzero : v = 0
  · subst hzero
    rfl
  · have hpos : 0 < v.natAbs := by omega
    have hbegin : splitBase 0 (Nat.toDigits 10 v.natAbs) =
        (10, Nat.toDigits 10 v.natAbs ++ []) := by
      rw [List.append_nil, splitBase_numeral hpos]
    have hdigits : ∀ c ∈ Nat.toDigits 10 v.natAbs, isDigitOf 10 c = true := fun c hc ↦
      isDigitOf_of_mem_toDigits (by omega) (by omega) hc
    have hvalue : digitsValue 10 (Nat.toDigits 10 v.natAbs) = v.natAbs :=
      digitsValue_toDigits (by omega) (by omega)
    split
    · next hneg =>
      have hsign : splitSign (('-' :: Nat.toDigits 10 v.natAbs).dropWhile isSpace) =
          (true, Nat.toDigits 10 v.natAbs) := rfl
      have hv : -(v.natAbs : Int) = v := by omega
      rw [numeral_of_digits hsign hbegin Nat.toDigits_ne_nil hdigits rfl, hvalue, if_pos rfl, hv]
    · next hneg =>
      obtain ⟨d, ds, hds⟩ := List.exists_cons_of_ne_nil
        (Nat.toDigits_ne_nil : Nat.toDigits 10 v.natAbs ≠ [])
      have hd : isDigitOf 10 d = true := hdigits d (by rw [hds]; exact List.mem_cons_self)
      have hsign : splitSign ((Nat.toDigits 10 v.natAbs).dropWhile isSpace) =
          (false, Nat.toDigits 10 v.natAbs) := by
        rw [hds]
        exact splitSign_digits (isDigitOf_sixteen (by omega) hd) ds
      have hv : (v.natAbs : Int) = v := by omega
      rw [numeral_of_digits hsign hbegin Nat.toDigits_ne_nil hdigits rfl, hvalue,
        if_neg Bool.false_ne_true, hv]

/-- A hexadecimal text is read back when the base is detected. -/
theorem numeral_hex (n : Nat) : numeral ('0' :: 'x' :: Nat.toDigits 16 n) 0 = some (n : Int) := by
  have hdigits : ∀ c ∈ Nat.toDigits 16 n, isDigitOf 16 c = true := fun c hc ↦
    isDigitOf_of_mem_toDigits (by omega) (by omega) hc
  have hbegin : splitBase 0 ('0' :: 'x' :: Nat.toDigits 16 n) =
      (16, Nat.toDigits 16 n ++ []) := by
    obtain ⟨d, ds, hds⟩ := List.exists_cons_of_ne_nil
      (Nat.toDigits_ne_nil : Nat.toDigits 16 n ≠ [])
    rw [hds, List.append_nil]
    exact if_pos ⟨.inl rfl, .inl rfl, hdigits d (by rw [hds]; exact List.mem_cons_self)⟩
  have hsign : splitSign (('0' :: 'x' :: Nat.toDigits 16 n).dropWhile isSpace) =
      (false, '0' :: 'x' :: Nat.toDigits 16 n) := rfl
  rw [numeral_of_digits hsign hbegin Nat.toDigits_ne_nil hdigits rfl,
    digitsValue_toDigits (by omega) (by omega), if_neg Bool.false_ne_true]

/-- A decimal text of a `long` is read back, also when the base is detected. -/
theorem stol_decimal {v : Int} (hlow : -0x8000000000000000 ≤ v) (hhigh : v < 0x8000000000000000) :
    stol (decimal v) 0 = .ok v :=
  stol_eq_ok_iff.mpr ⟨numeral_decimal v, hlow, hhigh⟩

/-- A hexadecimal text is read back when it fits a `long`, and overflows otherwise. -/
theorem stol_hex (n : Nat) :
    stol ('0' :: 'x' :: Nat.toDigits 16 n) 0 =
      if n < 0x8000000000000000 then .ok (n : Int) else .error .outOfRange := by
  have hlong : IsLong n ↔ n < 0x8000000000000000 := by
    unfold IsLong
    omega
  simp only [stol_eq, numeral_hex, hlong]

section Hexadecimal

/-- No base prefix of hexadecimal numbers is in front of the text. -/
def Unmarked (s : Text) : Prop :=
  ∀ x d t, s = '0' :: x :: d :: t → x = 'x' ∨ x = 'X' → isDigitOf 16 d = false

/-- The texts in which `stol` finds a hexadecimal number: there are white space, a sign and a base
prefix, each of which may be missing, then digits, as many as there are, then anything. -/
inductive SpellsHex : Text → Int → Prop
  | mk {spaces sign mark digits rest : Text} (hspaces : ∀ c ∈ spaces, isSpace c = true)
      (hsign : sign = [] ∨ sign = ['+'] ∨ sign = ['-'])
      (hmark : mark = [] ∧ Unmarked (digits ++ rest) ∨ mark = ['0', 'x'] ∨ mark = ['0', 'X'])
      (hne : digits ≠ []) (hdigits : ∀ c ∈ digits, isDigitOf 16 c = true)
      (hrest : rest.takeWhile (isDigitOf 16) = []) :
      SpellsHex (spaces ++ (sign ++ (mark ++ (digits ++ rest))))
        (if sign = ['-'] then -(digitsValue 16 digits : Int) else digitsValue 16 digits)

variable {s : Text} {v : Int}

private theorem splitBase_unmarked (h : Unmarked s) : splitBase 16 s = (16, s) := by
  unfold splitBase
  split
  · next x d t =>
    have hdigit := h x d t rfl
    rw [if_neg fun h' ↦ by simp [hdigit h'.2.1] at h']
    rfl
  · rfl
  · rfl

private theorem splitBase_marked {mark : Text} (hmark : mark = ['0', 'x'] ∨ mark = ['0', 'X'])
    {d : Char} (hd : isDigitOf 16 d = true) (t : Text) :
    splitBase 16 (mark ++ d :: t) = (16, d :: t) := by
  rcases hmark with rfl | rfl
  · exact if_pos ⟨.inr rfl, .inl rfl, hd⟩
  · exact if_pos ⟨.inr rfl, .inr rfl, hd⟩

/-- A prefix is in front of a text, or not. -/
private theorem splitBase_sixteen (s : Text) : ∃ mark t, s = mark ++ t ∧
    splitBase 16 s = (16, t) ∧
      (mark = [] ∧ Unmarked t ∨ mark = ['0', 'x'] ∨ mark = ['0', 'X']) := by
  by_cases h : Unmarked s
  · exact ⟨[], s, rfl, splitBase_unmarked h, .inl ⟨rfl, h⟩⟩
  · unfold Unmarked at h
    push Not at h
    obtain ⟨x, d, t, rfl, hx, hd⟩ := h
    rw [ne_eq, Bool.not_eq_false] at hd
    have hmark : ['0', x] = ['0', 'x'] ∨ ['0', x] = ['0', 'X'] := by simpa using hx
    exact ⟨['0', x], d :: t, rfl, splitBase_marked hmark hd t, .inr hmark⟩

private theorem splitSign_signed (s : Text) : ∃ sign, s = sign ++ (splitSign s).2 ∧
    ((splitSign s).1 = true ↔ sign = ['-']) ∧ (sign = [] ∨ sign = ['+'] ∨ sign = ['-']) := by
  unfold splitSign
  split
  · exact ⟨['-'], by simp⟩
  · exact ⟨['+'], by simp⟩
  · exact ⟨[], by simp⟩

/-- Behind white space and a sign comes what begins with a digit. -/
private theorem splitSign_append {spaces sign : Text} (hspaces : ∀ c ∈ spaces, isSpace c = true)
    (hsign : sign = [] ∨ sign = ['+'] ∨ sign = ['-']) {d : Char} (hd : isDigitOf 16 d = true)
    (t : Text) :
    splitSign ((spaces ++ (sign ++ d :: t)).dropWhile isSpace) =
      (decide (sign = ['-']), d :: t) := by
  rw [List.dropWhile_append_of_pos hspaces]
  rcases hsign with rfl | rfl | rfl
  · exact splitSign_digits hd t
  · rfl
  · rfl

/-- What `stol` reads in base 16 is spelled by the text. -/
theorem numeral_sixteen_iff : numeral s 16 = some v ↔ SpellsHex s v := by
  constructor
  · intro h
    obtain ⟨sign, hsigned, hneg, hsign⟩ := splitSign_signed (s.dropWhile isSpace)
    obtain ⟨mark, t, hmarked, hbase, hmark⟩ := splitBase_sixteen (splitSign (s.dropWhile isSpace)).2
    have hs : s = s.takeWhile isSpace ++
        (sign ++ (mark ++ (t.takeWhile (isDigitOf 16) ++ t.dropWhile (isDigitOf 16)))) := by
      rw [List.takeWhile_append_dropWhile, ← hmarked, ← hsigned, List.takeWhile_append_dropWhile]
    have hrest : (t.dropWhile (isDigitOf 16)).takeWhile (isDigitOf 16) = [] :=
      List.takeWhile_eq_nil_iff.mpr fun hl ↦ List.dropWhile_get_zero_not _ t hl
    simp only [numeral, hbase] at h
    split at h
    · cases h
    · next hne =>
      have hunmarked : Unmarked t ↔
          Unmarked (t.takeWhile (isDigitOf 16) ++ t.dropWhile (isDigitOf 16)) := by
        rw [List.takeWhile_append_dropWhile]
      rw [hunmarked] at hmark
      have hspaces : ∀ c ∈ s.takeWhile isSpace, isSpace c = true :=
        fun _ ↦ List.mem_takeWhile_imp
      have hspells := SpellsHex.mk hspaces hsign hmark hne
        (fun _ ↦ List.mem_takeWhile_imp) hrest
      simp only [hneg, Option.some.injEq] at h
      rw [← hs, h] at hspells
      exact hspells
  · intro h
    cases h with
    | @mk spaces sign mark digits rest hspaces hsign hmark hne hdigits hrest =>
      obtain ⟨d, ds, rfl⟩ := List.exists_cons_of_ne_nil hne
      have hd : isDigitOf 16 d = true := hdigits d List.mem_cons_self
      have hread : splitBase 16 (mark ++ (d :: ds ++ rest)) = (16, d :: ds ++ rest) := by
        rcases hmark with ⟨rfl, hunmarked⟩ | hmark
        · exact splitBase_unmarked hunmarked
        · exact splitBase_marked hmark hd (ds ++ rest)
      have hfirst : ∃ c u, isDigitOf 16 c = true ∧ mark ++ (d :: ds ++ rest) = c :: u := by
        rcases hmark with ⟨rfl, -⟩ | rfl | rfl
        · exact ⟨d, ds ++ rest, hd, rfl⟩
        · exact ⟨'0', _, rfl, rfl⟩
        · exact ⟨'0', _, rfl, rfl⟩
      obtain ⟨c, u, hc, hu⟩ := hfirst
      have hsplit := splitSign_append hspaces hsign hc u
      rw [← hu] at hsplit
      rw [numeral_of_digits hsplit hread hne hdigits hrest]
      simp only [decide_eq_true_eq]

/-- Hexadecimal digits are read up to a character that is none. -/
theorem numeral_hexDigits {ds rest : Text} (hne : ds ≠ []) (hds : ∀ c ∈ ds, isDigitOf 16 c = true)
    {c : Char} (hc : isDigitOf 16 c = false) (hletter : c ≠ 'x' ∧ c ≠ 'X') :
    numeral (ds ++ c :: rest) 16 = some (digitsValue 16 ds : Int) := by
  have hunmarked : Unmarked (ds ++ c :: rest) := by
    intro x d t h hx
    obtain ⟨e, ds', rfl⟩ := List.exists_cons_of_ne_nil hne
    have hsecond := (List.cons.inj h).2
    cases ds' with
    | nil =>
      obtain rfl : c = x := (List.cons.inj hsecond).1
      exact absurd hx (not_or.mpr hletter)
    | cons e' ds'' =>
      obtain rfl : e' = x := (List.cons.inj hsecond).1
      have hne' := (hexDigit_ne (hds e' (by simp))).2.2.2
      exact absurd hx (not_or.mpr hne')
  have hrest : (c :: rest).takeWhile (isDigitOf 16) = [] :=
    List.takeWhile_cons_of_neg (by simp [hc])
  have hspaces : ∀ c ∈ ([] : Text), isSpace c = true := fun c hc ↦ absurd hc List.not_mem_nil
  have hspells := SpellsHex.mk hspaces (.inl rfl) (.inl ⟨rfl, hunmarked⟩) hne hds hrest
  exact numeral_sixteen_iff.mpr hspells

end Hexadecimal

end Numerals
end ArgsDebugger
