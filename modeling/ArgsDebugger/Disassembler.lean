import ArgsDebugger.Base.Memory
import Mathlib.Data.List.Induction

/-!
# The bytes that are disassembled

`get_text_section`, `src/disassembler.cc:11–60`, on a file that is open and mapped. The window
that `cs_disasm` gets begins at the entry point and is as long as a whole segment: the last one
that is loaded from the beginning of the file. Nothing subtracts from the length what lies in
front of the entry point.
-/

namespace ArgsDebugger

open Lib

/-- A file of the size that `fstat` gives, an `off_t`, mapped at `mem`. Behind its end are the
bytes of whatever is mapped there. -/
structure MappedFile where
  bytes : Word → Byte
  mem : Word
  size : Nat
  size_lt : size < 0x8000000000000000

/-- `PT_LOAD`. -/
def ptLoad : BitVec 32 := 1

/-- `PF_X`. -/
def pfX : BitVec 32 := 1

/-- The fields of `Elf64_Phdr` that are read here or bound what is loaded. -/
structure Phdr where
  pType : BitVec 32
  pFlags : BitVec 32
  pOffset : Word
  pVaddr : Word
  pFilesz : Word
  pMemsz : Word
  deriving DecidableEq, Repr

namespace MappedFile

variable (f : MappedFile)

/-- The little-endian number of `w` bits at an address. -/
def read (w : Nat) (a : Word) : BitVec w :=
  BitVec.ofNat w (leNat (fun i ↦ f.bytes (a + BitVec.ofNat 64 i)) (w / 8))

/-- `e_entry` of the `Elf64_Ehdr` at the beginning of the file. -/
def eEntry : Word := f.read 64 (f.mem + 24)

/-- `e_phoff`. -/
def ePhoff : Word := f.read 64 (f.mem + 32)

/-- `e_phentsize`. -/
def ePhentsize : BitVec 16 := f.read 16 (f.mem + 54)

/-- `e_phnum`. -/
def ePhnum : BitVec 16 := f.read 16 (f.mem + 56)

/-- `phdr[i]`, the program headers being 56 bytes long. -/
def phdr (i : Nat) : Phdr :=
  let a := f.mem + f.ePhoff + BitVec.ofNat 64 (56 * i)
  { pType := f.read 32 a
    pFlags := f.read 32 (a + 4)
    pOffset := f.read 64 (a + 8)
    pVaddr := f.read 64 (a + 16)
    pFilesz := f.read 64 (a + 32)
    pMemsz := f.read 64 (a + 40) }

/-- The program headers, in order. -/
def phdrs : List Phdr := (List.range f.ePhnum.toNat).map f.phdr

end MappedFile

/-- The locals of `get_text_section` that its loop sets. -/
structure TextLocals where
  textVaddr : Word
  textSize : BitVec 32
  deriving DecidableEq, Repr

/-- An iteration of the loop. The memory size is cut to an `ElfW(Word)`. -/
def textBody (locals : TextLocals) (phdr : Phdr) : TextLocals :=
  if phdr.pType = ptLoad then
    if phdr.pOffset = 0 then ⟨phdr.pVaddr, phdr.pMemsz.setWidth 32⟩ else locals
  else locals

/-- `text_section_t`, what `get_disassembled_instructions` passes to `cs_disasm`
(`src/disassembler.cc:73–76`). -/
structure TextSection where
  textSectionEntry : Word
  textSectionSize : BitVec 32
  programTextCode : Word
  deriving DecidableEq, Repr

/-- `get_text_section`, `src/disassembler.cc:34–60`. The locals are not initialised. -/
def getTextSection (f : MappedFile) (uninitialised : TextLocals) : TextSection :=
  let entry := f.eEntry
  let locals := f.phdrs.foldl textBody uninitialised
  let offset := entry - locals.textVaddr
  ⟨entry, locals.textSize, f.mem + offset⟩

/-- The window that is disassembled lies in the mapped file. -/
def WindowInside (f : MappedFile) (handle : TextSection) : Prop :=
  ∀ k < handle.textSectionSize.toNat,
    (handle.programTextCode + BitVec.ofNat 64 k - f.mem).toNat < f.size

/-- A segment that is loaded from the beginning of the file. -/
def Phdr.isTextLoad (phdr : Phdr) : Bool := phdr.pType = ptLoad ∧ phdr.pOffset = 0

/-- The last such segment is the one that the loop keeps. -/
theorem foldl_textBody (phdrs : List Phdr) (locals : TextLocals) :
    phdrs.foldl textBody locals =
      match (phdrs.filter Phdr.isTextLoad).getLast? with
      | some phdr => ⟨phdr.pVaddr, phdr.pMemsz.setWidth 32⟩
      | none => locals := by
  induction phdrs using List.reverseRecOn with
  | nil => rfl
  | append_singleton phdrs phdr ih =>
    rw [List.foldl_append, List.foldl_cons, List.foldl_nil, List.filter_append]
    by_cases hload : phdr.isTextLoad = true
    · have hboth : phdr.pType = ptLoad ∧ phdr.pOffset = 0 := by simpa [Phdr.isTextLoad] using hload
      rw [List.filter_cons_of_pos hload, List.filter_nil, List.getLast?_concat, textBody,
        if_pos hboth.1, if_pos hboth.2]
    · rw [List.filter_cons_of_neg hload, List.filter_nil, List.append_nil, ← ih]
      have hnot : ¬ (phdr.pType = ptLoad ∧ phdr.pOffset = 0) := by
        simpa [Phdr.isTextLoad] using hload
      unfold textBody
      split
      · next htype => exact if_neg fun hoffset ↦ hnot ⟨htype, hoffset⟩
      · rfl

/-- The numbers from a machine word on are below a bound exactly when there are none, or they end
below it. -/
theorem forall_add_lt_iff {w : Nat} (x : BitVec w) {n size : Nat} (hsize : size + n ≤ 2 ^ w) :
    (∀ k < n, (x + BitVec.ofNat w k).toNat < size) ↔ n = 0 ∨ x.toNat + n ≤ size := by
  have hadd : ∀ k < n, x.toNat + k ≤ size → (x + BitVec.ofNat w k).toNat = x.toNat + k := by
    intro k hk hle
    rw [BitVec.toNat_add, BitVec.toNat_ofNat, Nat.mod_eq_of_lt (show k < 2 ^ w by omega),
      Nat.mod_eq_of_lt (by omega)]
  constructor
  · intro h
    by_contra hnot
    obtain ⟨hpos, hend⟩ := not_or.mp hnot
    have hfirst := h 0 (by omega)
    rw [BitVec.add_zero] at hfirst
    -- the word that is the bound itself is among them
    have hbound := h (size - x.toNat) (by omega)
    rw [hadd _ (by omega) (by omega)] at hbound
    omega
  · rintro (rfl | hend) k hk
    · omega
    · rw [hadd k hk (by omega)]
      omega

/-- The window lies in the file exactly when it is empty, or the bytes from the entry point's
offset on are as many as the segment has in memory. -/
theorem windowInside_iff {f : MappedFile} {uninitialised : TextLocals} {phdr : Phdr}
    (hlast : (f.phdrs.filter Phdr.isTextLoad).getLast? = some phdr) :
    WindowInside f (getTextSection f uninitialised) ↔
      phdr.pMemsz.toNat % 0x100000000 = 0 ∨
        (f.eEntry - phdr.pVaddr).toNat + phdr.pMemsz.toNat % 0x100000000 ≤ f.size := by
  have hlocals : f.phdrs.foldl textBody uninitialised =
      ⟨phdr.pVaddr, phdr.pMemsz.setWidth 32⟩ := by
    rw [foldl_textBody, hlast]
  have hoffset : ∀ offset k : Word, f.mem + offset + k - f.mem = offset + k := by
    intro offset k
    rw [BitVec.add_assoc, BitVec.add_comm f.mem, BitVec.add_sub_cancel]
  have hsize := f.size_lt
  have hwindow : f.size + (phdr.pMemsz.setWidth 32).toNat ≤ 2 ^ 64 := by
    have hlt := (phdr.pMemsz.setWidth 32).isLt
    omega
  simp only [WindowInside, getTextSection, hlocals, hoffset]
  rw [forall_add_lt_iff _ hwindow, BitVec.toNat_setWidth]

/-- An ELF64 image: the magic number, the class, and program headers of the size that the
structure has. -/
structure IsElf64 (f : MappedFile) : Prop where
  header : 64 ≤ f.size
  ident : f.read 40 f.mem = 0x02464c457f
  phentsize : f.ePhentsize = 56

/-- An image as an ELF loader takes it: the program headers lie in the file, a segment is loaded
from its beginning, what is loaded of the segments lies in the file, and the entry point is in the
part of an executable segment that is loaded. -/
structure Loadable (f : MappedFile) : Prop where
  elf : IsElf64 f
  phdrs : f.ePhoff.toNat + 56 * f.ePhnum.toNat ≤ f.size
  textLoad : ∃ phdr ∈ f.phdrs, phdr.isTextLoad
  segments : ∀ phdr ∈ f.phdrs, phdr.pType = ptLoad →
    phdr.pOffset.toNat + phdr.pFilesz.toNat ≤ f.size ∧ phdr.pFilesz.toNat ≤ phdr.pMemsz.toNat
  entry : ∃ phdr ∈ f.phdrs, phdr.pType = ptLoad ∧ phdr.pFlags &&& pfX ≠ 0 ∧
    phdr.pVaddr.toNat ≤ f.eEntry.toNat ∧
    f.eEntry.toNat < phdr.pVaddr.toNat + phdr.pFilesz.toNat

/-- The disassembly window of a loadable image lies in the mapped file exactly when, for the last
segment that is loaded from the beginning of the file, the memory size cut to 32 bits is zero or
fits between the entry point's offset from the segment and the end of the file. -/
theorem loadable_windowInside_iff (f : MappedFile) (uninitialised : TextLocals) (h : Loadable f) :
    WindowInside f (getTextSection f uninitialised) ↔
      ∀ phdr ∈ (f.phdrs.filter Phdr.isTextLoad).getLast?,
        phdr.pMemsz.toNat % 0x100000000 = 0 ∨
          (f.eEntry - phdr.pVaddr).toNat + phdr.pMemsz.toNat % 0x100000000 ≤ f.size := by
  obtain ⟨phdr, hphdr, hload⟩ := h.textLoad
  have hne : f.phdrs.filter Phdr.isTextLoad ≠ [] :=
    List.ne_nil_of_mem (List.mem_filter.mpr ⟨hphdr, hload⟩)
  have hlast := List.getLast?_eq_some_getLast hne
  rw [windowInside_iff hlast, hlast]
  simp only [Option.mem_some_iff, forall_eq']

/-- A program of one instruction: the ELF header, one program header, which loads the whole file
to 0x400000, and the instruction behind them. -/
def oneInstruction : List Byte :=
  [0x7f, 0x45, 0x4c, 0x46, 2, 1, 1, 0, 0, 0, 0, 0, 0, 0, 0, 0,
    2, 0, 0x3e, 0, 1, 0, 0, 0, 0x78, 0, 0x40, 0, 0, 0, 0, 0,
    0x40, 0, 0, 0, 0, 0, 0, 0, 0, 0, 0, 0, 0, 0, 0, 0,
    0, 0, 0, 0, 0x40, 0, 0x38, 0, 1, 0, 0, 0, 0, 0, 0, 0,
    1, 0, 0, 0, 5, 0, 0, 0, 0, 0, 0, 0, 0, 0, 0, 0,
    0, 0, 0x40, 0, 0, 0, 0, 0, 0, 0, 0x40, 0, 0, 0, 0, 0,
    0x79, 0, 0, 0, 0, 0, 0, 0, 0x79, 0, 0, 0, 0, 0, 0, 0,
    0, 0x10, 0, 0, 0, 0, 0, 0, 0xf4]

/-- The program in a file of some size, with zeros behind it. -/
def oneInstructionFile (size : Nat) (hsize : size < 0x8000000000000000) : MappedFile where
  bytes a := oneInstruction.getD (a - 0x7f0000000000).toNat 0
  mem := 0x7f0000000000
  size := size
  size_lt := hsize

/-- The only program header of the program. -/
def oneInstructionPhdr : Phdr := ⟨1, 5, 0, 0x400000, 0x79, 0x79⟩

section OneInstruction

variable {size : Nat} (hsize : size < 0x8000000000000000)

/-- What is read of the file is in the program. -/
theorem header_oneInstructionFile :
    let f := oneInstructionFile size hsize
    f.phdrs = [oneInstructionPhdr] ∧ f.eEntry = 0x400078 ∧ f.read 40 f.mem = 0x02464c457f ∧
      f.ePhentsize = 56 ∧ f.ePhoff = 64 ∧ f.ePhnum = 1 := by
  have hread : ∀ hsize',
      (oneInstructionFile size hsize).phdrs = (oneInstructionFile 0x79 hsize').phdrs ∧
      (oneInstructionFile size hsize).read = (oneInstructionFile 0x79 hsize').read ∧
      (oneInstructionFile size hsize).mem = (oneInstructionFile 0x79 hsize').mem :=
    fun _ ↦ ⟨rfl, rfl, rfl⟩
  obtain ⟨hphdrs, hfields, hmem⟩ := hread (by decide)
  simp only [MappedFile.eEntry, MappedFile.ePhentsize, MappedFile.ePhoff, MappedFile.ePhnum,
    hphdrs, hfields, hmem]
  decide +kernel

/-- Any file that has the whole program in it is a loadable image. -/
theorem loadable_oneInstructionFile (hprogram : 0x79 ≤ size) :
    Loadable (oneInstructionFile size hsize) := by
  obtain ⟨hphdrs, hentry, hident, hphentsize, hphoff, hphnum⟩ := header_oneInstructionFile hsize
  have hmem : oneInstructionPhdr ∈ (oneInstructionFile size hsize).phdrs := by
    rw [hphdrs]
    exact List.mem_singleton.mpr rfl
  refine ⟨⟨?_, hident, hphentsize⟩, ?_, ⟨oneInstructionPhdr, hmem, rfl⟩, ?_, ?_⟩
  · exact Nat.le_trans (by decide) hprogram
  · rw [hphoff, hphnum]
    exact Nat.le_trans (by decide) hprogram
  · intro phdr hphdr _
    rw [hphdrs, List.mem_singleton] at hphdr
    subst hphdr
    exact ⟨hprogram, Nat.le_refl _⟩
  · refine ⟨oneInstructionPhdr, hmem, rfl, by decide, ?_⟩
    rw [hentry]
    decide

end OneInstruction

/-- With as many bytes behind the program as there are in front of its entry point, the window
lies in the file. -/
theorem loadable_windowInside_sample : WindowInside (oneInstructionFile 0xf1 (by decide))
    (getTextSection (oneInstructionFile 0xf1 (by decide)) ⟨0, 0⟩) := by
  have hsize : 0xf1 < 0x8000000000000000 := by decide
  obtain ⟨hphdrs, hentry, -⟩ := header_oneInstructionFile hsize
  have hloadable := loadable_oneInstructionFile hsize (by decide)
  apply (loadable_windowInside_iff _ ⟨0, 0⟩ hloadable).mpr
  rw [hphdrs, hentry]
  intro phdr hphdr
  obtain rfl : oneInstructionPhdr = phdr := Option.some.inj hphdr
  right
  show (0x400078 - 0x400000 : Word).toNat + 0x79 % 0x100000000 ≤ 0xf1
  decide

/-- Without them the window goes beyond the end of the file. -/
theorem window_beyond_file : ¬ ∀ (f : MappedFile) (uninitialised : TextLocals), Loadable f →
    WindowInside f (getTextSection f uninitialised) := by
  intro h
  have hsize : 0x79 < 0x8000000000000000 := by decide
  obtain ⟨hphdrs, hentry, -⟩ := header_oneInstructionFile hsize
  have hwindow := h (oneInstructionFile 0x79 hsize) ⟨0, 0⟩
    (loadable_oneInstructionFile hsize (Nat.le_refl _))
  have hlast : ((oneInstructionFile 0x79 hsize).phdrs.filter Phdr.isTextLoad).getLast? =
      some oneInstructionPhdr := by
    rw [hphdrs]
    rfl
  rw [windowInside_iff hlast, hentry] at hwindow
  have hbeyond : ¬ ((0x79 : Nat) % 0x100000000 = 0 ∨
      (0x400078 - 0x400000 : Word).toNat + 0x79 % 0x100000000 ≤ 0x79) := by decide
  exact hbeyond hwindow

end ArgsDebugger
