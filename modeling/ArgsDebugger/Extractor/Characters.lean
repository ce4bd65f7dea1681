import ArgsDebugger.ParameterExtractor

/-!
# Characters read out of the debuggee

`get_char_data`, `src/parameter_extractor.cc:21–60`, reads a string word by word into a union of
eight characters. Its loops are modelled once more with the accesses they make to that buffer.
Then the text of a stored string is computed: `std::to_string` of a character is its code.
-/

namespace ArgsDebugger

open Lib Lib.Budget

section Accesses

/-- The locals of the inner loop of `get_char_data`, with the indices at which the buffer was
accessed so far. -/
structure CharLoop where
  accesses : List Nat
  result : Text
  j : Nat
  quit : Bool
  deriving DecidableEq, Repr

/-- `data.chars[j]` was accessed some times. -/
def CharLoop.access (s : CharLoop) (times : Nat) : CharLoop :=
  { s with accesses := s.accesses ++ List.replicate times s.j }

/-- The inner loop over the rest of the buffer (`src/parameter_extractor.cc:43–50`). A character is
accessed by the condition of the loop, by `isprint`, and either by `std::to_string` or by the
comparison with a blank. -/
def charLoop : List Byte → CharLoop → CharLoop
  | [], s => s
  | c :: chars, s =>
    if c = 0x0a#8 then s.access 1
    else if isPrint c then
      charLoop chars { s.access 3 with result := s.result ++ decimal c.toNat, j := s.j + 1 }
    else { s.access 3 with quit := true }

/-- An iteration of the outer loop with the accesses it makes. The condition behind the inner loop
accesses the buffer unless `quit` is set (`src/parameter_extractor.cc:32–56`). -/
def charIteration (mem : Memory) (beyond : Byte) (addr : Word) (s : Int × Text) :
    List Nat × (Text ⊕ (Int × Text)) :=
  let word := mem.peekData (addressAt addr s.1)
  if word = allOnes then ([], .inl s.2)
  else
    let t := charLoop (wordChars word) ⟨[], s.2, 0, false⟩
    if t.quit then (t.accesses, .inl t.result)
    else ((t.access 1).accesses,
      if ((wordChars word)[t.j]?.getD beyond) = 0x0a#8 then .inl t.result
      else .inr (nextInt s.1, t.result))

/-- The accesses of the first iterations of `get_char_data`. -/
def charAccesses (iterations : Nat) (mem : Memory) (index : Int) (beyond : Byte) (addr : Word) :
    List Nat :=
  Loop.trace (charIteration mem beyond addr) iterations (index, [])

/-- The characters of a word are eight. -/
theorem length_wordChars (word : Word) : (wordChars word).length = 8 := by
  rw [wordChars, List.length_map, List.length_range]

theorem CharLoop.mem_access {s : CharLoop} {times j : Nat} (h : j ∈ (s.access times).accesses) :
    j ∈ s.accesses ∨ j = s.j := by
  rcases List.mem_append.mp h with h | h
  · exact .inl h
  · exact .inr (List.eq_of_mem_replicate h)

/-- The inner loop accesses the rest of the buffer only. -/
theorem mem_charLoop {chars : List Byte} {s : CharLoop} {j : Nat}
    (h : j ∈ (charLoop chars s).accesses) : j ∈ s.accesses ∨ j < s.j + chars.length := by
  induction chars generalizing s with
  | nil => exact .inl h
  | cons c chars ih =>
    have hhere : ∀ times, j ∈ (s.access times).accesses →
        j ∈ s.accesses ∨ j < s.j + (c :: chars).length := by
      intro times hj
      rcases CharLoop.mem_access hj with hj | rfl
      · exact .inl hj
      · exact .inr (Nat.lt_add_of_pos_right (by simp))
    unfold charLoop at h
    split at h
    · exact hhere 1 h
    · split at h
      · rcases ih h with hj | hj
        · exact hhere 3 hj
        · right
          rw [List.length_cons]
          exact Nat.lt_of_lt_of_eq hj (by simp only; omega)
      · exact hhere 3 h

/-- The accesses do not change the text. -/
theorem charLoop_result (chars : List Byte) (s : CharLoop) :
    (charLoop chars s).result = (charsOf chars s.result).1 := by
  induction chars generalizing s with
  | nil => rfl
  | cons c chars ih =>
    unfold charLoop charsOf
    split
    · rfl
    · split
      · exact ih _
      · rfl

/-- Characters that can all be shown are passed to the end of the buffer. -/
theorem charLoop_of_printable {chars : List Byte} {s : CharLoop} (hquit : s.quit = false)
    (h : ∀ c ∈ chars, isPrint c = true) :
    (charLoop chars s).quit = false ∧ (charLoop chars s).j = s.j + chars.length := by
  induction chars generalizing s with
  | nil => exact ⟨hquit, rfl⟩
  | cons c chars ih =>
    have hc := h c List.mem_cons_self
    have hnewline : c ≠ 0x0a#8 := by
      rintro rfl
      exact absurd hc (by decide)
    rw [charLoop, if_neg hnewline, if_pos hc]
    obtain ⟨hq, hj⟩ := ih (s := { s.access 3 with
      result := s.result ++ decimal c.toNat, j := s.j + 1 }) hquit
      fun c' hc' ↦ h c' (List.mem_cons_of_mem c hc')
    refine ⟨hq, hj.trans ?_⟩
    rw [List.length_cons]
    simp only
    omega

/-- At a character that cannot be shown the loop quits, or stands on a newline. -/
theorem charLoop_of_unprintable {chars : List Byte} {s : CharLoop} (hquit : s.quit = false)
    (h : ∃ c ∈ chars, isPrint c = false) :
    (charLoop chars s).quit = true ∨ ∃ i < chars.length,
      (charLoop chars s).j = s.j + i ∧ chars[i]? = some 0x0a#8 := by
  induction chars generalizing s with
  | nil =>
    obtain ⟨c, hc, -⟩ := h
    cases hc
  | cons c chars ih =>
    unfold charLoop
    split
    · next hnewline => exact .inr ⟨0, by simp, rfl, by rw [hnewline]; rfl⟩
    · split
      · next hc =>
        have hrest : ∃ c ∈ chars, isPrint c = false := by
          obtain ⟨c', hc', hunprintable⟩ := h
          rcases List.mem_cons.mp hc' with rfl | hc'
          · rw [hc] at hunprintable
            cases hunprintable
          · exact ⟨c', hc', hunprintable⟩
        rcases ih (s := { s.access 3 with result := s.result ++ decimal c.toNat, j := s.j + 1 })
          hquit hrest with hq | ⟨i, hi, hj, hat⟩
        · exact .inl hq
        · refine .inr ⟨i + 1, Nat.succ_lt_succ hi, hj.trans ?_, hat⟩
          simp only
          omega
      · exact .inl rfl

/-- Both ways of leaving the outer loop: the flag and the character behind the inner loop, and what
`charsOf` tells. -/
theorem charLoop_leaves_iff (chars : List Byte) (result : Text) (beyond : Byte) :
    ((charLoop chars ⟨[], result, 0, false⟩).quit = true ∨
        chars[(charLoop chars ⟨[], result, 0, false⟩).j]?.getD beyond = 0x0a#8) ↔
      (charsOf chars result).2 = true ∨ beyond = 0x0a#8 := by
  rw [charsOf_left]
  by_cases hall : ∀ c ∈ chars, isPrint c = true
  · obtain ⟨hq, hj⟩ := charLoop_of_printable (s := ⟨[], result, 0, false⟩) rfl hall
    have hend : chars[0 + chars.length]? = none := List.getElem?_eq_none (by omega)
    have hshown : (chars.any fun c ↦ !isPrint c) = false := by simpa using hall
    rw [hq, hj, hend, hshown, Option.getD_none]
  · have hsome : ∃ c ∈ chars, isPrint c = false := by simpa using hall
    have hhidden : (chars.any fun c ↦ !isPrint c) = true := by simpa using hsome
    apply iff_of_true _ (.inl hhidden)
    rcases charLoop_of_unprintable (s := ⟨[], result, 0, false⟩) rfl hsome with
      hq | ⟨i, -, hj, hat⟩
    · exact .inl hq
    · right
      rw [hj, Nat.zero_add, hat]
      rfl

/-- Without its accesses the iteration is that of `get_char_data`. -/
theorem charIteration_snd (mem : Memory) (beyond : Byte) (addr : Word) (s : Int × Text) :
    (charIteration mem beyond addr s).2 = charBody mem beyond addr s := by
  simp only [charIteration, charBody, ← charLoop_leaves_iff, charLoop_result]
  split
  · rfl
  · split
    · next hq => rw [if_pos (.inl hq)]
    · next hq => simp only [hq, Bool.false_eq_true, false_or]

/-- An iteration stays within the buffer unless its word is made of characters that can all be
shown; then the condition behind the inner loop accesses the index behind the buffer. -/
theorem charIteration_accesses (mem : Memory) (beyond : Byte) (addr : Word) (s : Int × Text) :
    (∀ j ∈ (charIteration mem beyond addr s).1, j < 8) ↔
      ∃ c ∈ wordChars (mem.peekData (addressAt addr s.1)), isPrint c = false := by
  have hlength := length_wordChars (mem.peekData (addressAt addr s.1))
  constructor
  · intro h
    by_contra hnone
    have hall : ∀ c ∈ wordChars (mem.peekData (addressAt addr s.1)), isPrint c = true := by
      simpa using hnone
    have hword : mem.peekData (addressAt addr s.1) ≠ allOnes := by
      intro heq
      rw [heq] at hall
      exact absurd (hall 0xff#8 (by decide)) (by decide)
    obtain ⟨hq, hj⟩ := charLoop_of_printable (s := ⟨[], s.2, 0, false⟩) rfl hall
    simp only [charIteration, if_neg hword, hq, Bool.false_eq_true, if_false] at h
    have hlast := h _ (List.mem_append_right _ (List.mem_replicate.mpr ⟨Nat.one_ne_zero, rfl⟩))
    rw [hj, hlength] at hlast
    omega
  · intro hsome j hj
    simp only [charIteration] at hj
    split at hj
    · cases hj
    · have hloop : ∀ i ∈ (charLoop (wordChars (mem.peekData (addressAt addr s.1)))
          ⟨[], s.2, 0, false⟩).accesses, i < 8 := by
        intro i hi
        rcases mem_charLoop hi with hi | hi
        · cases hi
        · rwa [hlength, Nat.zero_add] at hi
      split at hj
      · exact hloop j hj
      · next hq =>
        rcases CharLoop.mem_access hj with hj | rfl
        · exact hloop j hj
        · rcases charLoop_of_unprintable (s := ⟨[], s.2, 0, false⟩) rfl hsome with
            hquit | ⟨i, hi, hat, -⟩
          · exact absurd hquit hq
          · rwa [hat, Nat.zero_add, ← hlength]

end Accesses

/-- The accesses to the buffer stay within it, for any number of iterations, exactly when the
first word that is read holds a character that cannot be shown. -/
theorem charAccesses_inBounds_iff (mem : Memory) (index : Int) (beyond : Byte) (addr : Word) :
    (∀ iterations, ∀ j ∈ charAccesses iterations mem index beyond addr, j < 8) ↔
      ∃ c ∈ wordChars (mem.peekData (addressAt addr index)), isPrint c = false := by
  rw [← charIteration_accesses mem beyond addr (index, [])]
  constructor
  · intro h j hj
    exact h 1 j (Loop.mem_trace_succ hj 0)
  · intro h iterations j hj
    cases iterations with
    | zero => cases hj
    | succ n =>
      have hfirst := (charIteration_accesses mem beyond addr (index, [])).mp h
      have hends : endsChars beyond (mem.peekData (addressAt addr index)) = true := by
        obtain ⟨c, hc, hunprintable⟩ := hfirst
        have hany : ((wordChars (mem.peekData (addressAt addr index))).any fun c ↦ !isPrint c) =
            true := List.any_eq_true.mpr ⟨c, hc, by rw [hunprintable]; rfl⟩
        simp only [endsChars, hany, Bool.or_true, Bool.true_or]
      obtain ⟨result, hleft⟩ := (endsChars_iff mem beyond addr (index, [])).mp hends
      rw [← charIteration_snd] at hleft
      rw [charAccesses, Loop.trace_inl hleft] at hj
      exact h j hj

/-- A memory of blanks: behind eight of them the ninth character of the buffer is accessed. -/
theorem charAccesses_outOfBounds :
    ¬ ∀ (mem : Memory) (index : Int) (beyond : Byte) (addr : Word) (iterations : Nat),
      ∀ j ∈ charAccesses iterations mem index beyond addr, j < 8 := by
  intro h
  exact absurd (h ⟨fun _ ↦ 0x20, fun _ ↦ true⟩ 0 0 16 1 8 (by decide +kernel)) (by decide)

section Strings

/-- The texts of the codes of characters, as `std::to_string` writes them. -/
def charCodes (s : Text) : Text := s.flatMap fun c ↦ decimal c.toNat

/-- The byte of a character. -/
def charByte (c : Char) : Byte := BitVec.ofNat 8 c.toNat

/-- Printable ASCII characters. -/
def IsPrintable (c : Char) : Prop := 0x20 ≤ c.toNat ∧ c.toNat ≤ 0x7e

/-- A string of printable characters and a NUL stand at the address, in words that can be read. -/
structure StoresString (mem : Memory) (addr : Word) (s : Text) : Prop where
  printable : ∀ c ∈ s, IsPrintable c
  byte : ∀ i, ∀ h : i < s.length, mem.bytes (addr + BitVec.ofNat 64 i) = charByte (s.get ⟨i, h⟩)
  nul : mem.bytes (addr + BitVec.ofNat 64 s.length) = 0
  readable : ∀ i ≤ s.length / 8, mem.wordReadable (addr + BitVec.ofNat 64 (8 * i)) = true

theorem isPrint_charByte {c : Char} (h : IsPrintable c) : isPrint (charByte c) = true := by
  obtain ⟨hlow, hhigh⟩ := h
  simp only [isPrint, charByte, BitVec.le_def, BitVec.toNat_ofNat, Bool.and_eq_true,
    decide_eq_true_eq]
  omega

theorem toNat_charByte {c : Char} (h : IsPrintable c) : (charByte c).toNat = c.toNat := by
  have hhigh := h.2
  rw [charByte, BitVec.toNat_ofNat]
  omega

/-- A code has at least two digits. -/
theorem one_lt_length_code {c : Char} (h : IsPrintable c) : 1 < (decimal c.toNat).length := by
  have hcodes : ∀ n : Nat, n < 0x7f → 0x20 ≤ n → 1 < (decimal n).length := by decide
  exact hcodes c.toNat (Nat.lt_succ_of_le h.2) h.1

/-- The codes of characters are longer than the characters. -/
theorem length_lt_charCodes {s : Text} (h : ∀ c ∈ s, IsPrintable c) (hne : s ≠ []) :
    s.length < (charCodes s).length := by
  induction s with
  | nil => exact absurd rfl hne
  | cons c s ih =>
    have hc := one_lt_length_code (h c List.mem_cons_self)
    rw [charCodes, List.flatMap_cons, List.length_append, List.length_cons]
    by_cases hs : s = []
    · subst hs
      simp only [List.flatMap_nil, List.length_nil]
      omega
    · have hrest := ih (fun c' hc' ↦ h c' (List.mem_cons_of_mem c hc')) hs
      rw [charCodes] at hrest
      omega

/-- The inner loop over characters that can be shown and what stands behind them. -/
theorem charsOf_append {s : Text} (h : ∀ c ∈ s, IsPrintable c) (chars : List Byte)
    (result : Text) :
    charsOf (s.map charByte ++ chars) result = charsOf chars (result ++ charCodes s) := by
  induction s generalizing result with
  | nil => rw [charCodes, List.flatMap_nil, List.append_nil, List.map_nil, List.nil_append]
  | cons c s ih =>
    have hc := h c List.mem_cons_self
    have hprint := isPrint_charByte hc
    have hnewline : charByte c ≠ 0x0a#8 := by
      intro heq
      rw [heq] at hprint
      exact absurd hprint (by decide)
    rw [List.map_cons, List.cons_append, charsOf, if_neg hnewline, if_pos hprint,
      ih fun c' hc' ↦ h c' (List.mem_cons_of_mem c hc'), toNat_charByte hc, charCodes,
      charCodes, List.flatMap_cons, List.append_assoc]

namespace StoresString

variable {mem : Memory} {addr : Word} {s : Text} (h : StoresString mem addr s)

include h

theorem peekData_eq : mem.peekData addr = mem.word addr := by
  have hr := h.readable 0 (Nat.zero_le _)
  rw [show addr + BitVec.ofNat 64 (8 * 0) = addr from BitVec.add_zero addr] at hr
  rw [Memory.peekData, if_pos hr]

/-- The bytes at the address are those of the string. -/
theorem getElem_wordChars {i : Nat} (hi : i < 8) (hw : i < (wordChars (mem.peekData addr)).length) :
    (wordChars (mem.peekData addr))[i] = mem.bytes (addr + BitVec.ofNat 64 i) := by
  simp only [h.peekData_eq, wordChars, List.getElem_map, List.getElem_range]
  exact mem.wordByte_word addr i hi

/-- The characters of the first word: the first eight of the string, or the string and a NUL. -/
theorem wordChars_peekData :
    ∃ rest, wordChars (mem.peekData addr) = (s.take 8).map charByte ++ rest ∧
      (8 ≤ s.length → rest = []) ∧ (s.length < 8 → ∃ rest', rest = 0 :: rest') := by
  have hlength := length_wordChars (mem.peekData addr)
  have htake : (s.take 8).length = min 8 s.length := List.length_take
  have hfront : (wordChars (mem.peekData addr)).take (s.take 8).length =
      (s.take 8).map charByte := by
    apply List.ext_getElem
    · rw [List.length_take, hlength, List.length_map]
      omega
    · intro i hi hi'
      rw [List.length_map] at hi'
      rw [List.getElem_take, h.getElem_wordChars (by omega), List.getElem_map, List.getElem_take,
        h.byte i (by omega)]
      rfl
  refine ⟨(wordChars (mem.peekData addr)).drop (s.take 8).length, ?_, ?_, ?_⟩
  · rw [← hfront, List.take_append_drop]
  · intro hlong
    apply List.drop_eq_nil_of_le
    omega
  · intro hshort
    have hn : (s.take 8).length = s.length := by omega
    have hlt : s.length < (wordChars (mem.peekData addr)).length := by omega
    rw [hn, List.drop_eq_getElem_cons hlt, h.getElem_wordChars hshort, h.nul]
    exact ⟨_, rfl⟩

/-- The rest of a string behind its first word is stored there. -/
theorem drop_word (hlong : 8 ≤ s.length) : StoresString mem (addr + 8) (s.drop 8) := by
  have hmove : ∀ n, addr + 8 + BitVec.ofNat 64 n = addr + BitVec.ofNat 64 (n + 8) := by
    intro n
    rw [BitVec.ofNat_add, BitVec.add_assoc, BitVec.add_comm (BitVec.ofNat 64 n)]
    rfl
  have hlength : (s.drop 8).length = s.length - 8 := List.length_drop
  constructor
  · intro c hc
    exact h.printable c (List.mem_of_mem_drop hc)
  · intro i hi
    have hi' : i + 8 < s.length := by omega
    rw [hmove, h.byte (i + 8) hi']
    simp only [List.get_eq_getElem, List.getElem_drop, Nat.add_comm]
  · rw [hmove, hlength, Nat.sub_add_cancel hlong]
    exact h.nul
  · intro i hi
    rw [hmove, show 8 * i + 8 = 8 * (i + 1) by omega]
    apply h.readable
    omega

end StoresString

/-- The first word of a string is not all ones. -/
theorem StoresString.peekData_ne_allOnes {mem : Memory} {addr : Word} {s : Text}
    (h : StoresString mem addr s) : mem.peekData addr ≠ allOnes := by
  intro heq
  have hones : ∀ c ∈ wordChars (mem.peekData addr), c = 0xff#8 := by
    rw [heq]
    decide
  obtain ⟨rest, hchars, -, hshort⟩ := h.wordChars_peekData
  rw [hchars] at hones
  cases s with
  | nil =>
    obtain ⟨rest', rfl⟩ := hshort (by simp)
    exact absurd (hones 0 (by simp)) (by decide)
  | cons c s =>
    have hprint := isPrint_charByte (h.printable c List.mem_cons_self)
    rw [hones (charByte c) (by simp)] at hprint
    exact absurd hprint (by decide)

/-- An iteration on the first word of a string, whatever the word's index: the codes of its
characters are appended, and the loop goes on behind a whole word unless a newline follows the
buffer. -/
theorem StoresString.charBody_eq {mem : Memory} {base addr : Word} {s : Text}
    (h : StoresString mem addr s) {index : Int} (haddr : addressAt base index = addr)
    (beyond : Byte) (result : Text) :
    charBody mem beyond base (index, result) =
      if s.length < 8 ∨ beyond = 0x0a#8 then .inl (result ++ charCodes (s.take 8))
      else .inr (nextInt index, result ++ charCodes (s.take 8)) := by
  obtain ⟨rest, hchars, hlong, hshort⟩ := h.wordChars_peekData
  have hprintable : ∀ c ∈ s.take 8, IsPrintable c := fun c hc ↦
    h.printable c (List.mem_of_mem_take hc)
  simp only [charBody, haddr, if_neg h.peekData_ne_allOnes, hchars, charsOf_append hprintable]
  by_cases hlen : s.length < 8
  · obtain ⟨rest', rfl⟩ := hshort hlen
    have hnul : charsOf (0 :: rest') (result ++ charCodes (s.take 8)) =
        (result ++ charCodes (s.take 8), true) := rfl
    rw [hnul, if_pos (.inl rfl), if_pos (.inl hlen)]
  · rw [hlong (by omega)]
    simp only [charsOf, hlen, Bool.false_eq_true, false_or]

/-- The inner loop appends to the text that it starts with. -/
theorem charsOf_prepend (chars : List Byte) (before result : Text) :
    charsOf chars (before ++ result) =
      (before ++ (charsOf chars result).1, (charsOf chars result).2) := by
  induction chars generalizing result with
  | nil => rfl
  | cons c chars ih =>
    unfold charsOf
    split
    · rfl
    · split
      · rw [List.append_assoc]
        exact ih _
      · rfl

/-- An iteration appends to the text that it starts with. -/
theorem charBody_prepend (mem : Memory) (beyond : Byte) (base : Word) (index : Int)
    (before result : Text) :
    charBody mem beyond base (index, before ++ result) =
      (charBody mem beyond base (index, result)).map (before ++ ·) (Prod.map id (before ++ ·)) := by
  simp only [charBody, charsOf_prepend]
  split
  · rfl
  · split <;> rfl

/-- The loop appends to the text that it starts with. -/
theorem ends_charBody_prepend {mem : Memory} {beyond : Byte} {base : Word} {index : Int}
    {before text : Text} (h : Loop.Ends (charBody mem beyond base) (index, before) text) :
    ∃ text', text = before ++ text' ∧ Loop.Ends (charBody mem beyond base) (index, []) text' := by
  obtain ⟨fuel, hfuel⟩ := h
  have hrel : Option.Rel (fun text text' ↦ text = before ++ text')
      (Loop.run (charBody mem beyond base) fuel (index, before))
      (Loop.run (charBody mem beyond base) fuel (index, [])) := by
    apply Loop.run_rel (R := fun s t ↦ s = (t.1, before ++ t.2)) ?_ (by simp) fuel
    rintro s ⟨i, result⟩ rfl
    rw [charBody_prepend]
    cases charBody mem beyond base (i, result) with
    | inl text' => exact .inl rfl
    | inr s' => exact .inr rfl
  rw [hfuel] at hrel
  cases hrest : Loop.run (charBody mem beyond base) fuel (index, []) with
  | none =>
    rw [hrest] at hrel
    cases hrel
  | some text' =>
    rw [hrest] at hrel
    cases hrel with
    | some heq => exact ⟨text', heq, fuel, hrest⟩

theorem addressAt_succ (base : Word) (index : Int) :
    addressAt base (index + 1) = addressAt base index + 8 := by
  unfold addressAt
  rw [BitVec.ofInt_add, BitVec.add_mul, BitVec.add_assoc]
  rfl

/-- A string is read as the codes of its characters, by an index that does not overflow. -/
theorem StoresString.ends_charBody {mem : Memory} {base addr : Word} {s : Text}
    (h : StoresString mem addr s) {index : Nat} (haddr : addressAt base index = addr)
    (hindex : index + s.length / 8 < 0x80000000) {beyond : Byte} (hbeyond : beyond ≠ 0x0a#8)
    (result : Text) :
    Loop.Ends (charBody mem beyond base) ((index : Int), result) (result ++ charCodes s) := by
  have hbody := h.charBody_eq haddr beyond result
  by_cases hlen : s.length < 8
  · rw [if_pos (.inl hlen), List.take_of_length_le (by omega)] at hbody
    exact (Loop.ends_inl hbody).mpr rfl
  · rw [if_neg (not_or.mpr ⟨hlen, hbeyond⟩)] at hbody
    have hnext : nextInt index = (index + 1 : Nat) := by
      rw [nextInt, ← Int.natCast_succ, toInt32_of_lt (by omega)]
    have hstep : addressAt base (index + 1 : Nat) = addr + 8 := by
      rw [← haddr, Int.natCast_succ, addressAt_succ]
    have hdrop : (s.drop 8).length = s.length - 8 := List.length_drop
    rw [hnext] at hbody
    have hrest := (h.drop_word (by omega)).ends_charBody hstep (by omega) hbeyond
      (result ++ charCodes (s.take 8))
    rw [List.append_assoc, charCodes, charCodes, ← List.flatMap_append, List.take_append_drop]
      at hrest
    exact (Loop.ends_inr hbody).mpr hrest
termination_by s.length

/-- `get_char_data` and `get_string_value` give back the string, whatever the debugger finds in the
memory that it has not initialised. -/
def ReadsBack (mem : Memory) (addr : Word) (s : Text) : Prop :=
  ∀ u : Uninitialised, toInt32 (u.charIndex addr) = u.charIndex addr →
    (∃ fuel, getCharData fuel mem (u.charIndex addr) (u.beyond addr) addr = .ok s) ∧
      ∀ param, ∃ fuel shown, getStringValue fuel mem u param addr true = .ok shown ∧
        shown.valueAlias = s

theorem exists_getCharData_iff {mem : Memory} {index : Int} {beyond : Byte} {addr : Word}
    {text : Text} :
    (∃ fuel, getCharData fuel mem index beyond addr = .ok text) ↔
      Loop.Ends (charBody mem beyond addr) (index, []) text := by
  simp only [getCharData, withinFuel, within_eq_ok]
  rfl

/-- A string is given back when the loop ends with it from every index. -/
theorem readsBack_iff_ends {mem : Memory} {addr : Word} {s : Text} :
    ReadsBack mem addr s ↔ ∀ index beyond, toInt32 index = index →
      Loop.Ends (charBody mem beyond addr) (index, []) s := by
  constructor
  · intro h index beyond hindex
    have member : SdbEntry := ⟨0, 0, [], [], [], [], [], 0, false⟩
    exact exists_getCharData_iff.mp
      (h ⟨fun _ ↦ index, fun _ ↦ beyond, fun _ ↦ false, member⟩ hindex).1
  · intro h u hindex
    obtain ⟨fuel, hdata⟩ := exists_getCharData_iff.mpr (h _ (u.beyond addr) hindex)
    refine ⟨⟨fuel, hdata⟩, fun param ↦
      ⟨fuel, { param with value := longToHexString addr, valueAlias := s }, ?_, rfl⟩⟩
    rw [getStringValue, if_neg (by decide), hdata]
    rfl

/-- In front of a character that cannot be shown the loop is left with what it has. -/
theorem charBody_of_unprintable {mem : Memory} {base : Word} {index : Int}
    (h : isPrint (wordByte (mem.peekData (addressAt base index)) 0) = false) (beyond : Byte)
    (result : Text) : charBody mem beyond base (index, result) = .inl result := by
  simp only [charBody]
  split
  · rfl
  · have hfirst : charsOf (wordChars (mem.peekData (addressAt base index))) result =
        (result, true) := by
      simp only [wordChars, List.range_succ_eq_map, List.map_cons, charsOf, h,
        Bool.false_eq_true, if_false, ite_self]
    rw [hfirst, if_pos (.inl rfl)]

/-- Where the loop is left without a text the first character cannot be shown. -/
theorem unprintable_of_charBody {mem : Memory} {beyond : Byte} {base : Word} {index : Int}
    (h : charBody mem beyond base (index, []) = .inl []) :
    isPrint (wordByte (mem.peekData (addressAt base index)) 0) = false := by
  rw [Bool.eq_false_iff]
  intro hprint
  simp only [charBody] at h
  split at h
  · next hones =>
    rw [hones] at hprint
    exact absurd hprint (by decide)
  · have hnewline : wordByte (mem.peekData (addressAt base index)) 0 ≠ 0x0a#8 := by
      intro heq
      rw [heq] at hprint
      exact absurd hprint (by decide)
    have hcode : (charsOf (wordChars (mem.peekData (addressAt base index))) []).1 ≠ [] := by
      rw [wordChars, List.range_succ_eq_map, List.map_cons, charsOf, if_neg hnewline,
        if_pos hprint, List.nil_append, ← List.append_nil (decimal _), charsOf_prepend]
      exact List.append_ne_nil_of_left_ne_nil (decimal_ne_nil _) _
    split at h
    · exact hcode (Sum.inl.inj h)
    · cases h

/-- A stored string with which the loop ends from every index is empty: its codes are longer, and
behind its first word the same text would have to follow those of the word. -/
theorem StoresString.eq_nil_of_ends {mem : Memory} {addr : Word} {s : Text}
    (h : StoresString mem addr s) (hread : ∀ index beyond, toInt32 index = index →
      Loop.Ends (charBody mem beyond addr) (index, []) s) : s = [] := by
  by_contra hne
  have hzero : addressAt addr 0 = addr := BitVec.add_zero addr
  have hbody := h.charBody_eq hzero 0 []
  have hfirst := hread 0 0 rfl
  by_cases hlen : s.length < 8
  · rw [if_pos (.inl hlen), List.take_of_length_le (by omega)] at hbody
    have hsame := (Loop.ends_inl hbody).mp hfirst
    have hlonger := length_lt_charCodes h.printable hne
    rw [List.nil_append] at hsame
    rw [← hsame] at hlonger
    exact Nat.lt_irrefl _ hlonger
  · rw [if_neg (not_or.mpr ⟨hlen, by decide⟩), List.nil_append] at hbody
    obtain ⟨text, hsplit, htext⟩ := ends_charBody_prepend ((Loop.ends_inr hbody).mp hfirst)
    have hsame := Loop.ends_unique htext (hread 1 0 rfl)
    have htake : s.take 8 ≠ [] := by
      rw [ne_eq, List.take_eq_nil_iff]
      simp [hne]
    have hcodes := length_lt_charCodes
      (fun c hc ↦ h.printable c (List.mem_of_mem_take hc)) htake
    have hlength := congrArg List.length hsplit
    rw [List.length_append, hsame] at hlength
    omega

/-- Over a string that is stored the text read is the string exactly when it is empty, and no
index at all leads to a character that can be shown. -/
theorem StoresString.readsBack_iff {mem : Memory} {addr : Word} {s : Text}
    (h : StoresString mem addr s) :
    ReadsBack mem addr s ↔ s = [] ∧ ∀ index, toInt32 index = index →
      isPrint (wordByte (mem.peekData (addressAt addr index)) 0) = false := by
  rw [readsBack_iff_ends]
  constructor
  · intro hread
    have hempty := h.eq_nil_of_ends hread
    subst hempty
    refine ⟨rfl, fun index hindex ↦ ?_⟩
    have hends := hread index 0x0a hindex
    have hleft : ∃ text, charBody mem 0x0a addr (index, []) = .inl text :=
      (endsChars_iff mem 0x0a addr (index, [])).mp (by simp [endsChars])
    obtain ⟨text, htext⟩ := hleft
    have hnil := (Loop.ends_inl htext).mp hends
    exact unprintable_of_charBody (htext.trans (by rw [hnil]))
  · rintro ⟨rfl, hnone⟩ index beyond hindex
    exact (Loop.ends_inl (charBody_of_unprintable (hnone index hindex) beyond [])).mpr rfl

end Strings

/-- Strings are not given back: over a stored string the text read is the string, for every content
of the uninitialised index and of the byte behind the buffer, only if the string is empty and no
index leads to a character that can be shown. With the index at 0 and no newline behind the buffer
the text is that of the characters' codes, which is the string only if it is empty. -/
theorem strings_readBack_iff {mem : Memory} {addr : Word} {s : Text}
    (h : StoresString mem addr s) :
    (ReadsBack mem addr s ↔ s = [] ∧ ∀ index, toInt32 index = index →
      isPrint (wordByte (mem.peekData (addressAt addr index)) 0) = false) ∧
    ∀ beyond, beyond ≠ 0x0a#8 → s.length < 0x400000000 →
      (∀ text, (∃ fuel, getCharData fuel mem 0 beyond addr = .ok text) ↔ text = charCodes s) ∧
      (charCodes s = s ↔ s = []) := by
  refine ⟨h.readsBack_iff, fun beyond hbeyond hlen ↦ ⟨fun text ↦ ?_, ?_⟩⟩
  · have hzero : addressAt addr (0 : Nat) = addr := BitVec.add_zero addr
    have hends := h.ends_charBody hzero (by omega) hbeyond []
    rw [exists_getCharData_iff]
    constructor
    · intro htext
      exact Loop.ends_unique htext hends
    · rintro rfl
      exact hends
  · constructor
    · intro hsame
      by_contra hne
      have hlonger := length_lt_charCodes h.printable hne
      rw [hsame] at hlonger
      exact Nat.lt_irrefl _ hlonger
    · rintro rfl
      rfl

/-- A memory with the string `hi` at address 16. -/
def hiMemory : Memory :=
  ⟨fun a ↦ if a = 16 then 0x68 else if a = 17 then 0x69 else 0, fun _ ↦ true⟩

theorem storesString_hi : StoresString hiMemory 16 "hi".toList :=
  ⟨by simp [IsPrintable], by decide +kernel, by decide, fun _ _ ↦ rfl⟩

/-- An empty string in a memory of zeros is given back, and `hi` is read as `104105`. -/
theorem strings_readBack_iff_sample : ReadsBack ⟨fun _ ↦ 0, fun _ ↦ true⟩ 16 [] ∧
    ∃ fuel, getCharData fuel hiMemory 0 0 16 = .ok "104105".toList := by
  have hstores : StoresString ⟨fun _ ↦ 0, fun _ ↦ true⟩ 16 [] :=
    ⟨nofun, nofun, rfl, fun _ _ ↦ rfl⟩
  have hiff := (strings_readBack_iff hstores).1
  constructor
  · refine hiff.mpr ⟨rfl, fun index _ ↦ ?_⟩
    have hzeros : (⟨fun _ ↦ 0, fun _ ↦ true⟩ : Memory).peekData (addressAt 16 index) =
        leWord fun _ ↦ 0 := by
      simp [Memory.peekData, Memory.wordReadable, Memory.word]
    rw [hzeros]
    decide
  · have hcodes : "104105".toList = charCodes "hi".toList := by decide
    have hread := ((strings_readBack_iff storesString_hi).2 0 (by decide) (by decide)).1
    exact (hread _).mpr hcodes

/-- The string `hi` is not given back. -/
theorem not_strings_readBack :
    ¬ ∀ (mem : Memory) (addr : Word) (s : Text), StoresString mem addr s →
      ReadsBack mem addr s := by
  intro h
  have hnil := (storesString_hi.readsBack_iff.mp (h hiMemory 16 _ storesString_hi)).1
  cases hnil

end ArgsDebugger
