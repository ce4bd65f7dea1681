import ArgsDebugger.CompileUnit.PayloadLines
import ArgsDebugger.Debugger.CallTrace

/-!
# What a report shows

`Debugger::get_breakpoint_info`, `src/debugger_manager.cc:180–207`: the text that a report
writes of the stopped process, whose memory has an `int3` at each breakpoint and whose program
counter is one behind its own. Where nothing that is read for the report lies over a breakpoint,
the text is that of the native process at the call.
-/

namespace ArgsDebugger

open Lib

variable {κ : Type}

section Info

variable (fuel : Nat) (u : Uninitialised) (units : List CompileUnit) (bp : Breakpoint)
  (t : Tracee κ)

/-- `Debugger::get_breakpoint_function_info`, `src/debugger_manager.cc:180–187`. -/
def breakpointFunctionInfo : Except Failure Text := do
  let cu ← vectorAt units bp.cuIndex
  let func ← vectorAt cu.functions bp.fnIndex
  let sdbFunc ← generateFunctionPayload fuel t.mem u units cu func t.regs bp.cuIndex bp.fnIndex
  printFunctionPayload sdbFunc

/-- The lines that `get_breakpoint_function_info` writes before the report. -/
def breakpointFunctionLines : List Text :=
  match vectorAt units bp.cuIndex with
  | .error _ => []
  | .ok cu =>
    match vectorAt cu.functions bp.fnIndex with
    | .error _ => []
    | .ok func => payloadLines fuel t.mem u units cu func t.regs bp.cuIndex bp.fnIndex

/-- What `get_breakpoint_info` writes before anything else (`src/debugger_manager.cc:195–197`). -/
def breakpointHeader : Text :=
  "\n............................................\n[*] 0x".toList ++
    Nat.toDigits 16 bp.bpAddress.toNat ++ "\n".toList

/-- `Debugger::get_breakpoint_info`, `src/debugger_manager.cc:194–205`: the text, and the
exception that ends it. Nothing is written of a branch (`src/debugger_manager.cc:189–192`). -/
def breakpointInfo : Text × Option Failure :=
  if bp.breakpointType = "function_call".toList then
    let written := breakpointHeader bp ++ linesText (breakpointFunctionLines fuel u units bp t)
    match breakpointFunctionInfo fuel u units bp t with
    | .ok text => (written ++ text, none)
    | .error raised => (written, some raised)
  else (breakpointHeader bp, none)

/-- The addresses that are read for the report of a breakpoint. -/
def infoReads : Set Word :=
  {a | ∃ cu func, vectorAt units bp.cuIndex = .ok cu ∧ vectorAt cu.functions bp.fnIndex = .ok func ∧
    a ∈ payloadReads t.mem u cu func t.regs bp.cuIndex bp.fnIndex}

end Info

section Native

variable {armed : Word → Bool} {t : Tracee κ}

/-- A word without an armed byte reads as that of the native memory. -/
theorem peekData_shown {a : Word} (h : ∀ k < 8, armed (a + BitVec.ofNat 64 k) = false) :
    (t.shown armed).mem.peekData a = t.mem.peekData a := by
  have hword : (t.shown armed).mem.word a = t.mem.word a :=
    Memory.word_congr fun k hk ↦ overlay_of_not_armed (h k hk)
  unfold Memory.peekData
  rw [hword]
  rfl

/-- No argument is passed in the program counter. -/
theorem UserRegs.get_rip (regs : UserRegs) (pc : Word) (register : ArgRegister) :
    ({ regs with rip := pc } : UserRegs).get register = regs.get register := by
  cases register <;> rfl

theorem parameterEntry_rip (fuel : Nat) (mem : Memory) (u : Uninitialised)
    (units : List CompileUnit) (cu : CompileUnit) (regs : UserRegs) (pc : Word)
    (cuIndex fnIndex : Int) :
    parameterEntry fuel mem u units cu { regs with rip := pc } cuIndex fnIndex =
      parameterEntry fuel mem u units cu regs cuIndex fnIndex := by
  funext index funcParam
  unfold parameterEntry getDatatypeValue
  simp only [UserRegs.get_rip]

/-- What is written of a function at a call, and what goes wrong there, is that of the native
process, where no word that is read for it has an armed byte. -/
theorem breakpointFunctionInfo_shown {u : Uninitialised} {units : List CompileUnit}
    {bp : Breakpoint}
    (h : ∀ a ∈ infoReads u units bp t, ∀ k < 8, armed (a + BitVec.ofNat 64 k) = false)
    (fuel : Nat) (pc : Word) :
    breakpointFunctionInfo fuel u units bp ((t.shown armed).withRip pc) =
        breakpointFunctionInfo fuel u units bp t ∧
      breakpointFunctionLines fuel u units bp ((t.shown armed).withRip pc) =
        breakpointFunctionLines fuel u units bp t := by
  have hagree : ∀ cu func, vectorAt units bp.cuIndex = .ok cu →
      vectorAt cu.functions bp.fnIndex = .ok func → t.mem.AgreeOn (t.shown armed).mem
        (payloadReads t.mem u cu func t.regs bp.cuIndex bp.fnIndex) :=
    fun cu func hcu hfunc a ha ↦ peekData_shown (h a ⟨cu, func, hcu, hfunc, ha⟩)
  constructor
  · apply bind_congr_ok
    intro cu hcu
    apply bind_congr_ok
    intro func hfunc
    have hpayload : generateFunctionPayload fuel (t.shown armed).mem u units cu func
        { t.regs with rip := pc } bp.cuIndex bp.fnIndex =
          generateFunctionPayload fuel t.mem u units cu func t.regs bp.cuIndex bp.fnIndex := by
      rw [← generateFunctionPayload_congr (hagree cu func hcu hfunc)]
      unfold generateFunctionPayload payloadEntry
      simp only [parameterEntry_rip]
    exact congrArg (· >>= printFunctionPayload) hpayload
  · unfold breakpointFunctionLines
    cases hcu : vectorAt units bp.cuIndex with
    | error e => rfl
    | ok cu =>
      dsimp only
      cases hfunc : vectorAt cu.functions bp.fnIndex with
      | error e => rfl
      | ok func =>
        dsimp only
        rw [← payloadLines_congr (hagree cu func hcu hfunc)]
        change payloadLines fuel (t.shown armed).mem u units cu func { t.regs with rip := pc }
          bp.cuIndex bp.fnIndex = _
        unfold payloadLines entryLines payloadEntry parameterLines
        simp only [parameterEntry_rip, UserRegs.get_rip]

/-- A report of the stopped process is that of the native one, where no word that is read for
it has an armed byte. -/
theorem breakpointInfo_shown {u : Uninitialised} {units : List CompileUnit} {bp : Breakpoint}
    (h : ∀ a ∈ infoReads u units bp t, ∀ k < 8, armed (a + BitVec.ofNat 64 k) = false)
    (fuel : Nat) (pc : Word) :
    breakpointInfo fuel u units bp ((t.shown armed).withRip pc) =
      breakpointInfo fuel u units bp t := by
  obtain ⟨hinfo, hlines⟩ := breakpointFunctionInfo_shown h fuel pc
  unfold breakpointInfo
  rw [hinfo, hlines]

variable {sections : List ElfSection} {units : List CompileUnit}

/-- No word that is read for the report overlaps the entry of a function with a breakpoint. -/
def InfoClear (sections : List ElfSection) (units : List CompileUnit) (u : Uninitialised)
    (bp : Breakpoint) (t : Tracee κ) : Prop :=
  ∀ a ∈ infoReads u units bp t, ∀ k < 8, ¬ IsEntry sections units (a + BitVec.ofNat 64 k)

/-- Where it stops at a breakpoint, the process is shown as it is natively. -/
theorem breakpointInfo_stoppedAt (t₀ : Tracee κ) {u : Uninitialised} {bp : Breakpoint}
    (hclear : InfoClear sections units u bp t) (fuel : Nat) :
    breakpointInfo fuel u units bp ((functionTable sections units t₀.mem).stoppedAt t) =
      breakpointInfo fuel u units bp t := by
  apply breakpointInfo_shown
  intro a ha k hk
  have hinstalled : (functionTable sections units t₀.mem).Installed t₀ := installed_tableOf t₀ _
  rw [hinstalled.armedAt, ← Bool.not_eq_true]
  exact fun hentry ↦ hclear a ha k hk ((isSome_functionTable t₀.mem _).mp hentry)

/-- A run of the debugger shows the calls of the native run as they are: each of the processes
that it reports, in order, is that of a call, under the record of the function that begins
there, and what is written of it, exception or not, is what would be written of the native
process, whatever the readers find in their uninitialised variables, where the words they read
overlap no entry. -/
theorem run_shows_calls (cpu : Cpu κ) (info : Breakpoint → Tracee κ → Option Failure)
    {n fuel rounds : Nat} {t : Tracee κ}
    (hpatch : Patchable t.mem [] (functionRequests (getSymbols sections).symbolsMap units))
    (hu : ∀ i < n, Undisturbed cpu info (functionTable sections units t.mem) (cpu.native t i))
    (hfuel : n ≤ fuel) (hrounds : rounds ≤ (cpu.callSteps sections units t n).length) :
    List.Forall₂ (fun i v ↦ ReportOf sections units (cpu.native t i).regs.rip v.1 ∧
        ∀ fuel u, InfoClear sections units u v.1 (cpu.native t i) →
          breakpointInfo fuel u units v.1 v.2 =
            breakpointInfo fuel u units v.1 (cpu.native t i))
      ((cpu.callSteps sections units t n).take rounds)
      ((cpu.environment info fuel).reported
        (run true (getSymbols sections).symbolsMap units rounds) ⟨t, []⟩) := by
  obtain ⟨i, -, hcalls, -, hstops⟩ := exists_run_to_call hpatch hu hfuel hrounds
  rw [← hcalls, hstops]
  apply (callSteps_stops cpu t.mem t i).imp
  rintro j ⟨bp, stopped⟩ ⟨hbp, rfl⟩
  exact ⟨reportOf_functionTable hbp, fun fuel u hclear ↦ breakpointInfo_stoppedAt t hclear fuel⟩

/-- The report of the sample call, which has no parameters and reads nothing. -/
theorem run_shows_calls_sample : ∃ v, (sampleCpu.environment (fun _ _ ↦ none) 1).reported
      (run true (getSymbols sampleSections).symbolsMap [sampleFunctionUnit] 1)
        ⟨sampleCaller, []⟩ = [v] ∧
    breakpointInfo 1 zeroUninitialised [sampleFunctionUnit] v.1 v.2 =
      (breakpointHeader v.1 ++ "[*] f()\n[*] :3\n".toList, none) := by
  have hreported := reported_sampleCall functionRequests_sample
  have hshows := run_shows_calls sampleCpu (fun _ _ ↦ none)
    (patchable_sampleCall functionRequests_sample)
    (undisturbed_sampleCall functionRequests_sample) (le_refl 1)
    (one_le_callSteps_sampleCall functionRequests_sample)
  rw [callSteps_sampleCall functionRequests_sample, hreported] at hshows
  obtain ⟨⟨-, hsame⟩, -⟩ := List.forall₂_cons.mp hshows
  have hclear : InfoClear sampleSections [sampleFunctionUnit] zeroUninitialised
      (sampleCall.record sampleCaller.mem.bytes) (sampleCpu.native sampleCaller 0) := by
    rintro a ⟨cu, func, hcu, hfunc, index, funcParam, hparam, -⟩
    cases hcu
    cases hfunc
    cases hparam
  refine ⟨_, hreported, (hsame 1 _ hclear).trans ?_⟩
  decide +kernel

end Native

end ArgsDebugger
