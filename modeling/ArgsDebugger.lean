import ArgsDebugger.Lib.Fallible
import ArgsDebugger.Lib.Loop
import ArgsDebugger.Lib.Budget
import ArgsDebugger.Lib.Trail
import ArgsDebugger.Lib.RoseTree
import ArgsDebugger.Lib.Program
import ArgsDebugger.Lib.Protocol
import ArgsDebugger.Lib.Dialogue
import ArgsDebugger.Lib.Overlay
import ArgsDebugger.Lib.Pointwise
import ArgsDebugger.Lib.LittleEndian
import ArgsDebugger.Lib.Separated
import ArgsDebugger.Lib.PrefixCode
import ArgsDebugger.Lib.Reorder
import ArgsDebugger.Common
import ArgsDebugger.Ptrace
import ArgsDebugger.Breakpoint.Patch
import ArgsDebugger.Debugger.StepOver
import ArgsDebugger.Debugger.PatchInvariant
import ArgsDebugger.Debugger.SetBreakpoints
import ArgsDebugger.Debugger.Transparency
import ArgsDebugger.CompileUnit.Parameters
import ArgsDebugger.Debugger.Functions
import ArgsDebugger.CompileUnit.TypeChain
import ArgsDebugger.CompileUnit.StructureScan
import ArgsDebugger.CompileUnit.Values
import ArgsDebugger.CompileUnit.Payload
import ArgsDebugger.CompileUnit.CallingConvention
import ArgsDebugger.CompileUnit.ParameterTypes
import ArgsDebugger.CompileUnit.StructureSearch
import ArgsDebugger.CompileUnit.StructureMembers
import ArgsDebugger.CompileUnit.Isolation
import ArgsDebugger.CompileUnit.Renderings
import ArgsDebugger.CompileUnit.AttributeOrder
import ArgsDebugger.CompileUnit.FreshFields
import ArgsDebugger.CompileUnit.Lockstep
import ArgsDebugger.Debugger.TwoRuns
import ArgsDebugger.Debugger.Run
import ArgsDebugger.Debugger.Protocol
import ArgsDebugger.Debugger.Dialogues
import ArgsDebugger.Debugger.Pace
import ArgsDebugger.Debugger.Endings
import ArgsDebugger.Debugger.CallTrace
import ArgsDebugger.CompileUnit.ReadSets
import ArgsDebugger.CompileUnit.Splicing
import ArgsDebugger.CompileUnit.Links
import ArgsDebugger.CompileUnit.Printing
import ArgsDebugger.CompileUnit.PayloadLines
import ArgsDebugger.Debugger.BreakpointInfo
import ArgsDebugger.Debugger.Readback
import ArgsDebugger.Debugger.Subprograms
import ArgsDebugger.Debugger.SafeCalls
import ArgsDebugger.Debugger.SetUp
import ArgsDebugger.Debugger.StopCauses
import ArgsDebugger.CompileUnit.TypeName
import ArgsDebugger.CompileUnit.Spelling
import ArgsDebugger.CompileUnit.Scalars
import ArgsDebugger.CompileUnit.Sentinels
import ArgsDebugger.Debugger.Overloads
import ArgsDebugger.Extractor.Pointers
import ArgsDebugger.Extractor.Characters
import ArgsDebugger.Extractor.Numbers
import ArgsDebugger.Extractor.Decoding
import ArgsDebugger.Disassembler
import ArgsDebugger.Disassembler.Branches
