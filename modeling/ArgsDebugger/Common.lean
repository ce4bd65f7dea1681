import ArgsDebugger.Base.Memory
import ArgsDebugger.Base.Text

/-!
# Records shared by the debugger

The records of `src/common.hpp`, with the fields that some modelled function reads or
writes. Tags and attribute names are the enumerations behind `dwarf::to_string`, which
spells each constant in its own way, so that comparing constants is comparing spellings.
-/

namespace ArgsDebugger

/-- `dwarf::DW_TAG`: the tags the debugger names, and every other code. -/
inductive DwTag where
  | compileUnit | subprogram | variable | formalParameter | unspecifiedParameters | member
  | lexicalBlock | inlinedSubroutine | baseType | typedef | unionType | structureType
  | pointerType | enumerationType | arrayType | subroutineType | constType | subrangeType
  | other (code : Nat)
  deriving DecidableEq, Inhabited, Repr

/-- `dwarf::DW_AT`: the attributes the debugger decodes, and every other code. -/
inductive DwAt where
  | name | byteSize | encoding | declFile | declLine | sibling | type | prototyped | external
  | declaration | upperBound | dataMemberLocation | location | lowPc | highPc | frameBase
  | inline | producer | compDir
  | other (code : Nat)
  deriving DecidableEq, Repr

/-- `datatype_t` without its vectors (`src/common.hpp:33–148`). A `long` is an integer, an
`intptr_t` a machine word. -/
structure DatatypeEntry where
  sectionOffset : Int
  datatypeIndex : Int
  typeName : DwTag
  name : Text
  byteSize : Int
  encoding : Int
  declFile : Int
  declLine : Int
  sibling : Int
  type : Int
  prototyped : Bool
  upperBound : Int
  dataMemberLocation : Int
  external : Bool
  lowPc : Word
  inline : Int
  highPc : Word
  frameBase : Text
  declaration : Bool
  location : Text
  dynSym : Bool
  deriving DecidableEq, Inhabited, Repr

/-- `datatype_t`. The entries of the two vectors are records of DIEs below depth 2; their own
vectors are empty and never read. -/
structure Datatype extends DatatypeEntry where
  members : List DatatypeEntry
  parameters : List DatatypeEntry
  deriving DecidableEq, Repr

/-- `compile_unit_t` (`src/common.hpp:162–171`). -/
structure CompileUnit where
  filename : Text
  directory : Text
  lowAddr : Word
  highAddr : Word
  producer : Text
  datatypes : List Datatype
  globalVariables : List Datatype
  functions : List Datatype
  deriving DecidableEq, Repr

/-- `sdb_parameter_t` without its vector (`src/common.hpp:173–187`). -/
structure SdbEntry where
  cuIndex : Int
  fnIndex : Int
  name : Text
  datatypes : List DwTag
  dtName : Text
  value : Text
  valueAlias : Text
  byteSize : Int
  isComplex : Bool
  deriving DecidableEq, Repr

/-- `sdb_parameter_t`. A member's own members are never filled. -/
structure SdbParameter extends SdbEntry where
  members : List SdbEntry
  deriving DecidableEq, Repr

/-- `sdb_function_t` (`src/common.hpp:189–200`); the vectors nothing fills are left out. -/
structure SdbFunction where
  name : Text
  filename : Text
  lineNo : Int
  address : Word
  totalParams : Int
  paramVars : List SdbParameter
  deriving DecidableEq, Repr

/-- `symbol_t` (`src/common.hpp:12–21`). -/
structure Symbol where
  symbolNum : Int
  symbolValue : Word
  symbolName : Text
  symbolSize : Int
  symbolIndex : Text
  symbolBinding : Text
  symbolType : Text
  symbolTable : Text
  deriving DecidableEq, Repr

/-- The six general argument registers, in the order of the calling convention. -/
inductive ArgRegister where
  | rdi | rsi | rdx | rcx | r8 | r9
  deriving DecidableEq, Repr

/-- The registers of `user_regs_struct` that the debugger reads or writes. -/
structure UserRegs where
  rdi : Word
  rsi : Word
  rdx : Word
  rcx : Word
  r8 : Word
  r9 : Word
  rip : Word
  deriving DecidableEq, Repr

/-- The contents of an argument register. -/
def UserRegs.get (regs : UserRegs) : ArgRegister → Word
  | .rdi => regs.rdi
  | .rsi => regs.rsi
  | .rdx => regs.rdx
  | .rcx => regs.rcx
  | .r8 => regs.r8
  | .r9 => regs.r9

end ArgsDebugger
