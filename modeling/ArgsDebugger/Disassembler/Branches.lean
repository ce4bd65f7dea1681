import ArgsDebugger.Disassembler
import ArgsDebugger.Base.Text
import Mathlib.Data.List.Forall2

/-!
# The branches of the disassembled programs

`get_disassembled_instructions` and `filter_branch_instruction`, `src/disassembler.cc:62–101`, with
`branch_type_table` of `src/disassembler.hpp:25–37`. Both fill vectors that outlive the call.
Capstone is a parameter. What its documentation says of `cs_disasm` is a hypothesis where it is
needed: the instructions stand one behind the other from the address that is passed on, and none
goes beyond the code.
-/

namespace ArgsDebugger

/-- The fields of a `cs_insn` that are read here, and its size. -/
structure CsInsn where
  address : Word
  size : BitVec 16
  mnemonic : Text
  opStr : Text
  deriving DecidableEq, Repr

/-- The instructions stand one behind the other from an address on. -/
def Contiguous : Word → List CsInsn → Prop
  | _, [] => True
  | addr, insn :: insns =>
    insn.address = addr ∧ 0 < insn.size.toNat ∧ Contiguous (addr + insn.size.setWidth 64) insns

section Branches

variable {capstone : Capstone} {s : Disassembly}

end Branches

section Windows

variable {base : Word} {insns : List CsInsn} {k : Nat}

/-- How far an address is behind the entry point of a window. -/
def offsetFrom (base addr : Word) : Nat := (addr - base).toNat

theorem offsetFrom_add (base : Word) {k : Nat} (hk : k < 2 ^ 64) :
    offsetFrom base (base + BitVec.ofNat 64 k) = k := by
  rw [offsetFrom, BitVec.add_comm, BitVec.add_sub_cancel, BitVec.toNat_ofNat, Nat.mod_eq_of_lt hk]

/-- Instructions one behind the other have increasing offsets, up to the end of the last one. -/
theorem Contiguous.offsets (h : Contiguous (base + BitVec.ofNat 64 k) insns)
    (hend : k + (insns.map (·.size.toNat)).sum < 2 ^ 64) :
    insns.Pairwise (fun i j ↦ offsetFrom base i.address < offsetFrom base j.address) ∧
      ∀ i ∈ insns, k ≤ offsetFrom base i.address ∧
        offsetFrom base i.address < k + (insns.map (·.size.toNat)).sum := by
  induction insns generalizing k with
  | nil => simp
  | cons insn insns ih =>
    obtain ⟨haddr, hsize, hrest⟩ := h
    rw [List.map_cons, List.sum_cons] at hend ⊢
    have hoffset : offsetFrom base insn.address = k := by
      rw [haddr, offsetFrom_add base (by omega)]
    have hnext : base + BitVec.ofNat 64 k + insn.size.setWidth 64 =
        base + BitVec.ofNat 64 (k + insn.size.toNat) := by
      rw [BitVec.add_assoc, BitVec.ofNat_add, BitVec.ofNat_toNat]
    rw [hnext] at hrest
    obtain ⟨hpairwise, hinside⟩ := ih hrest (by omega)
    constructor
    · rw [List.pairwise_cons]
      refine ⟨?_, hpairwise⟩
      intro j hj
      obtain ⟨hfrom, -⟩ := hinside j hj
      omega
    · intro i hi
      rcases List.mem_cons.mp hi with rfl | hi
      · omega
      · obtain ⟨hfrom, hto⟩ := hinside i hi
        omega

end Windows

section Sample

end Sample

end ArgsDebugger
