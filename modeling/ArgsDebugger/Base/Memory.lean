import ArgsDebugger.Lib.LittleEndian
import Mathlib.Data.List.Basic
import Mathlib.Logic.Function.Basic

/-!
# Debuggee memory and eight-byte words

The memory of the traced process is a byte at every 64-bit address and the set of readable
addresses. `PTRACE_PEEKDATA` returns the little-endian word at an address, or all ones
where some byte of it cannot be read; `PTRACE_POKEDATA` writes a whole word. Patching
one byte is therefore a read-modify-write of eight (`src/breakpoint.cc:42–73`).
-/

namespace ArgsDebugger

open Lib

/-- Addresses and machine words of the x86-64 debuggee. -/
abbrev Word := BitVec 64

/-- One byte of debuggee memory. -/
abbrev Byte := BitVec 8

/-- What a failed peek returns, `(uint64_t)-1`; a word of eight `0xff` bytes reads the same. -/
def allOnes : Word := 0xFFFFFFFFFFFFFFFF#64

/-- Little-endian word of eight bytes: byte 0 occupies the low eight bits. -/
def leWord (f : Nat → Byte) : Word :=
  f 7 ++ f 6 ++ f 5 ++ f 4 ++ f 3 ++ f 2 ++ f 1 ++ f 0

/-- The byte of a word at a little-endian position. -/
def wordByte (w : Word) (i : Nat) : Byte := w.extractLsb' (8 * i) 8

/-- Every byte of a little-endian word is recovered. -/
theorem wordByte_leWord (f : Nat → Byte) (i : Nat) (hi : i < 8) : wordByte (leWord f) i = f i := by
  apply BitVec.eq_of_getLsbD_eq
  intro j hj
  simp only [wordByte, leWord, BitVec.getLsbD_extractLsb', BitVec.getLsbD_append, hj,
    decide_true, Bool.true_and]
  rcases (by omega : i = 0 ∨ i = 1 ∨ i = 2 ∨ i = 3 ∨ i = 4 ∨ i = 5 ∨ i = 6 ∨ i = 7) with
    rfl | rfl | rfl | rfl | rfl | rfl | rfl | rfl
  all_goals grind

/-- The mask that keeps all but the low byte of a word. -/
def highMask : Word := 0xFFFFFFFFFFFFFF00#64

private theorem highMask_getLsbD (i : Nat) :
    highMask.getLsbD i = (decide (8 ≤ i) && decide (i < 64)) := by
  by_cases h : i < 64
  · revert i
    unfold highMask
    decide +revert
  · grind

/-- Replacing the low byte of a word by mask and or leaves its other bytes alone. -/
theorem wordByte_lowByte (w : Word) (c : Byte) (i : Nat) (hi : i < 8) :
    wordByte ((w &&& highMask) ||| c.setWidth 64) i = if i = 0 then c else wordByte w i := by
  apply BitVec.eq_of_getLsbD_eq
  intro j hj
  simp only [wordByte, BitVec.getLsbD_extractLsb', BitVec.getLsbD_or, BitVec.getLsbD_and,
    highMask_getLsbD, BitVec.getLsbD_setWidth, hj, decide_true, Bool.true_and]
  split
  · next h =>
    subst h
    simp [hj, show ¬ 8 ≤ j by omega, show j < 64 by omega]
  · next h =>
    simp [hj, show 8 ≤ 8 * i + j by omega, show 8 * i + j < 64 by omega]

/-- The memory of the traced process. -/
structure Memory where
  bytes : Word → Byte
  readable : Word → Bool

namespace Memory

/-- Every byte of the word at the address can be read. -/
def wordReadable (m : Memory) (a : Word) : Bool :=
  (List.range 8).all fun i ↦ m.readable (a + BitVec.ofNat 64 i)

/-- The word stored at an address. -/
def word (m : Memory) (a : Word) : Word := leWord fun i ↦ m.bytes (a + BitVec.ofNat 64 i)

/-- `PTRACE_PEEKDATA`, which returns -1 on failure. -/
def peekData (m : Memory) (a : Word) : Word := if m.wordReadable a then m.word a else allOnes

/-- `PTRACE_POKEDATA`; a word that cannot be accessed is left alone. -/
def pokeData (m : Memory) (a : Word) (w : Word) : Memory :=
  if m.wordReadable a then
    { m with bytes := fun x ↦ if (x - a).toNat < 8 then wordByte w (x - a).toNat else m.bytes x }
  else m

/-- Memory with one byte replaced. -/
def setByte (m : Memory) (a : Word) (c : Byte) : Memory :=
  { m with bytes := Function.update m.bytes a c }

@[simp] theorem setByte_readable (m : Memory) (a : Word) (c : Byte) :
    (m.setByte a c).readable = m.readable := rfl

@[simp] theorem setByte_wordReadable (m : Memory) (a b : Word) (c : Byte) :
    (m.setByte a c).wordReadable b = m.wordReadable b := rfl

@[simp] theorem setByte_bytes_self (m : Memory) (a : Word) (c : Byte) :
    (m.setByte a c).bytes a = c := Function.update_self ..

/-- Replacing a byte by itself changes nothing. -/
theorem setByte_bytes (m : Memory) {a : Word} {c : Byte} (h : m.bytes a = c) :
    m.setByte a c = m := by
  subst h
  cases m
  simp only [setByte, Function.update_eq_self]

/-- Replacing a byte leaves every other byte alone. -/
theorem setByte_bytes_of_ne (m : Memory) {a x : Word} (c : Byte) (h : x ≠ a) :
    (m.setByte a c).bytes x = m.bytes x := Function.update_of_ne h ..

/-- Memories are equal when their bytes and their readable addresses agree. -/
theorem ext {m m' : Memory} (hb : ∀ x, m.bytes x = m'.bytes x)
    (hr : ∀ x, m.readable x = m'.readable x) : m = m' := by
  cases m
  cases m'
  congr 1
  · exact funext hb
  · exact funext hr

/-- A peek that differs from all ones succeeded and read the stored word. -/
theorem peekData_of_ne {m : Memory} {a : Word} (h : m.peekData a ≠ allOnes) :
    m.wordReadable a = true ∧ m.peekData a = m.word a := by
  unfold peekData at h ⊢
  split
  · next hr => exact ⟨hr, rfl⟩
  · next hr => simp [hr] at h

/-- The bytes of the stored word are the bytes of memory. -/
theorem wordByte_word (m : Memory) (a : Word) (i : Nat) (hi : i < 8) :
    wordByte (m.word a) i = m.bytes (a + BitVec.ofNat 64 i) := wordByte_leWord _ i hi

/-- Memories with the same eight bytes at an address store the same word there. -/
theorem word_congr {m m' : Memory} {a : Word}
    (h : ∀ i < 8, m'.bytes (a + BitVec.ofNat 64 i) = m.bytes (a + BitVec.ofNat 64 i)) :
    m'.word a = m.word a := by
  simp only [word, leWord]
  rw [h 0 (by omega), h 1 (by omega), h 2 (by omega), h 3 (by omega), h 4 (by omega),
    h 5 (by omega), h 6 (by omega), h 7 (by omega)]

/-- The number of the stored word is that of its bytes. -/
theorem toNat_word (m : Memory) (a : Word) :
    (m.word a).toNat = leNat (fun i ↦ m.bytes (a + BitVec.ofNat 64 i)) 8 := by
  have hbytes := leNat_extractLsb'_self (n := 8) (m.word a)
  rw [← hbytes]
  exact leNat_congr fun i hi ↦ m.wordByte_word a i hi

/-- The low byte of the stored word, as both patching functions cut it out. -/
theorem setWidth_word (m : Memory) (a : Word) :
    (m.word a &&& 0xff#64).setWidth 8 = m.bytes a := by
  have h := m.wordByte_word a 0 (by decide)
  rw [show a + BitVec.ofNat 64 0 = a from BitVec.add_zero a] at h
  rw [← h]
  apply BitVec.eq_of_getLsbD_eq
  intro j hj
  have hm : (0xff#64).getLsbD j = true := by
    revert j
    decide +revert
  simp only [wordByte, BitVec.getLsbD_setWidth, BitVec.getLsbD_and, BitVec.getLsbD_extractLsb',
    hj, hm, decide_true, Bool.true_and, Bool.and_true, Nat.mul_zero, Nat.zero_add]

/-- Frame law of a patch: a read-modify-write of the word at an address that replaces its
low byte changes that one byte of memory and no other, whatever else shares the word. -/
theorem pokeData_lowByte (m : Memory) (a : Word) (c : Byte) (h : m.wordReadable a = true) :
    m.pokeData a ((m.word a &&& highMask) ||| c.setWidth 64) = m.setByte a c := by
  apply Memory.ext
  · intro x
    simp only [pokeData, h, ite_true]
    split
    · next hx =>
      rw [wordByte_lowByte _ _ _ hx]
      split
      · next h0 =>
        have hxa : x = a := by bv_omega
        rw [hxa, setByte_bytes_self]
      · next h0 =>
        have hxa : x ≠ a := by
          rintro rfl
          simp at h0
        rw [wordByte_word _ _ _ hx, setByte_bytes_of_ne _ _ hxa, BitVec.ofNat_toNat,
          BitVec.setWidth_eq, BitVec.add_comm, BitVec.sub_add_cancel]
    · next hx =>
      have hxa : x ≠ a := by
        rintro rfl
        simp at hx
      rw [setByte_bytes_of_ne _ _ hxa]
  · intro x
    simp only [pokeData, h, ite_true, setByte_readable]

end Memory

end ArgsDebugger
