import ArgsDebugger.Debugger.Readback

/-!
# The runs that raise nothing

`Debugger::run` with its own report, `src/debugger_manager.cc:180–205`, in the place of the
report that `Debugger.CallTrace` leaves open. The rounds of a run raise nothing exactly when the
reports of its calls do, and these do exactly when the parameters of the calls are safe.
-/

namespace ArgsDebugger

open Lib Lib.Budget

variable {κ : Type}

section Split

variable {env : Environment κ} {s s' : Session κ} {table table' : Table} {rounds₁ rounds₂ : Nat}
  {symbolsMap : Word → Option Symbol} {units : List CompileUnit}

/-- More rounds go on where fewer have raised nothing. -/
theorem run_continueExecution_add
    (h : env.run (continueExecution rounds₁ table) s = some ((table', none), s')) :
    env.run (continueExecution (rounds₁ + rounds₂) table) s =
      env.run (continueExecution rounds₂ table') s' := by
  induction rounds₁ generalizing table s with
  | zero =>
    cases h
    rw [Nat.zero_add]
  | succ rounds₁ ih =>
    obtain ⟨⟨table₁, raised⟩, middle, hround, hrest⟩ := run_seq_eq_some env s h
    rw [Nat.add_right_comm, continueExecution, run_seq_of_run hround]
    cases raised with
    | some f => cases hrest
    | none => exact ih hrest

/-- A run goes on with more rounds where it has raised nothing. -/
theorem run_run_add
    (h : env.run (run true symbolsMap units rounds₁) s = some ((table', none), s')) :
    env.run (run true symbolsMap units (rounds₁ + rounds₂)) s =
      env.run (continueExecution rounds₂ table') s' := by
  obtain ⟨_, waited, hwait, hrest⟩ := run_seq_eq_some env s h
  rw [if_pos rfl] at hrest
  obtain ⟨⟨table₁, raised⟩, armed, hset, hloop⟩ := run_seq_eq_some env waited hrest
  rw [run, run_seq_of_run hwait, if_pos rfl, run_seq_of_run hset]
  cases raised with
  | some f => cases hloop
  | none => exact run_continueExecution_add hloop

end Split

section Quiet

variable {cpu : Cpu κ} {info : Breakpoint → Tracee κ → Option Failure} {table : Table}
  {t : Tracee κ} {reports : List Breakpoint} {fuel : Nat}

/-- With another report an instruction stays undisturbed, where that report raises nothing. -/
theorem Undisturbed.with_info {t' : Tracee κ}
    (h : Undisturbed cpu (fun _ _ ↦ none) table t')
    (hinfo : ∀ bp, table t'.regs.rip = some bp → info bp (table.stoppedAt t') = none) :
    Undisturbed cpu info table t' where
  inside := h.inside
  data := h.data
  noInt3 := h.noInt3
  quiet bp hbp := ⟨hinfo bp hbp, (h.quiet bp hbp).2⟩

variable (reports) in
/-- A round in which the report raises an exception ends by it. -/
theorem run_continueIteration_raises {d : Nat} {bp : Breakpoint} {f : Failure}
    (hi : table.Installed t) (hu : ∀ j < d, Undisturbed cpu info table (cpu.native t j))
    (hfree : ∀ j < d, table (cpu.native t j).regs.rip = none)
    (hhit : table (cpu.native t d).regs.rip = some bp)
    (hinfo : info bp (table.stoppedAt (cpu.native t d)) = some f) (hfuel : d < fuel) :
    ∃ s, (cpu.environment info fuel).run (continueIteration table)
      ⟨t.shown table.armedAt, reports⟩ = some ((table, some f), s) := by
  have hinstalled : table.Installed (cpu.native t d) := (steps_native hi fuel d hu).1
  have hhere : table ((table.stoppedAt (cpu.native t d)).regs.rip - 1) = some bp := by
    rw [stoppedAt_rip]
    exact hhit
  unfold continueIteration
  rw [run_seq_of_run (run_cont_stopped hi hu hfree hhit hfuel),
    run_seq_of_run (run_wait_stopped _)]
  unfold stepOverBreakpoint
  rw [run_seq_of_run (run_getProgramCounter ..)]
  dsimp only
  rw [hhere]
  simp only [if_pos (hinstalled _ bp hhit).2.2]
  rw [run_seq_of_run (run_getBreakpointInfo ..)]
  have hreport : (cpu.environment info fuel).info bp (table.stoppedAt (cpu.native t d)) =
      some f := hinfo
  rw [hreport]
  exact ⟨_, rfl⟩

end Quiet

section Calls

variable {cpu : Cpu κ} {info : Breakpoint → Tracee κ → Option Failure}
  {sections : List ElfSection} {units : List CompileUnit} {t : Tracee κ} {n fuel rounds : Nat}

theorem mem_callSteps {i : Nat} {bp : Breakpoint} (hi : i < n)
    (hbp : functionTable sections units t.mem (cpu.native t i).regs.rip = some bp) :
    i ∈ cpu.callSteps sections units t n := by
  have hentry : IsEntry sections units (cpu.native t i).regs.rip := by
    rw [← isSome_functionTable t.mem, hbp]
    rfl
  exact List.mem_filter.mpr ⟨List.mem_range.mpr hi, by simpa using hentry⟩

theorem lt_of_mem_callSteps {i : Nat} (h : i ∈ cpu.callSteps sections units t n) : i < n :=
  List.mem_range.mp (List.mem_filter.mp h).1

/-- Behind a call there are more calls than before it. -/
theorem length_callSteps_lt {i m : Nat} {bp : Breakpoint} (hi : i < m)
    (hbp : functionTable sections units t.mem (cpu.native t i).regs.rip = some bp) :
    (cpu.callSteps sections units t i).length < (cpu.callSteps sections units t m).length := by
  have htake : cpu.callSteps sections units t i = _ := callSteps_eq_take cpu t hi.le
  by_contra hle
  rw [List.take_of_length_le (not_lt.mp hle)] at htake
  have hmem := mem_callSteps hi hbp
  rw [← htake] at hmem
  exact (lt_of_mem_callSteps hmem).ne rfl

/-- A run raises nothing exactly when the reports of its calls raise nothing. -/
theorem run_quiet_iff
    (hpatch : Patchable t.mem [] (functionRequests (getSymbols sections).symbolsMap units))
    (hu : ∀ i < n, Undisturbed cpu (fun _ _ ↦ none) (functionTable sections units t.mem)
      (cpu.native t i))
    (hfuel : n ≤ fuel) (hrounds : rounds ≤ (cpu.callSteps sections units t n).length) :
    (∃ table s, (cpu.environment info fuel).run
        (run true (getSymbols sections).symbolsMap units rounds) ⟨t, []⟩ =
          some ((table, none), s)) ↔
      ∀ i ∈ (cpu.callSteps sections units t n).take rounds, ∀ bp,
        functionTable sections units t.mem (cpu.native t i).regs.rip = some bp →
          info bp ((functionTable sections units t.mem).stoppedAt (cpu.native t i)) = none := by
  obtain ⟨m, hm, hcalls, -⟩ := exists_run_to_call hpatch hu hfuel hrounds
  have hlength : (cpu.callSteps sections units t m).length = rounds := by
    rw [hcalls, List.length_take, min_eq_left hrounds]
  rw [← hcalls]
  have hinstalled : (functionTable sections units t.mem).Installed t := installed_tableOf t _
  constructor
  · rintro ⟨table, s, hrun⟩ i hi
    have him := lt_of_mem_callSteps hi
    clear hi
    -- the first report that raises something ends the run
    induction i using Nat.strong_induction_on with
    | _ i ih =>
      intro bp hbp
      have hu' : ∀ j < i, Undisturbed cpu info (functionTable sections units t.mem)
          (cpu.native t j) := fun j hj ↦ (hu j (by omega)).with_info (ih j hj (by omega))
      obtain ⟨k, hk, hkcalls, hkrun, -⟩ := exists_run_to_call hpatch hu'
        (show i ≤ fuel by omega) le_rfl
      rw [List.take_length] at hkcalls
      cases hinfo : info bp
          ((functionTable sections units t.mem).stoppedAt (cpu.native t i)) with
      | none => rfl
      | some f =>
        have hmore := length_callSteps_lt him hbp
        obtain ⟨rest, hrest⟩ : ∃ rest,
            rounds = (cpu.callSteps sections units t i).length + (rest + 1) :=
          ⟨rounds - ((cpu.callSteps sections units t i).length + 1), by omega⟩
        have hnative (j : Nat) : cpu.native (cpu.native t k) j = cpu.native t (k + j) := by
          rw [Nat.add_comm]
          exact (Function.iterate_add_apply ..).symm
        have hback : k + (i - k) = i := by omega
        have hfree : ∀ j < i - k, functionTable sections units t.mem
            (cpu.native (cpu.native t k) j).regs.rip = none := by
          intro j hj
          rw [hnative]
          by_contra hsome
          obtain ⟨bp', hbp'⟩ := Option.ne_none_iff_exists'.mp hsome
          have hmem := mem_callSteps (n := i) (show k + j < i by omega) hbp'
          rw [← hkcalls] at hmem
          have hlt := lt_of_mem_callSteps hmem
          omega
        obtain ⟨s', hraises⟩ := run_continueIteration_raises
          (cpu.hits (functionTable sections units t.mem) t k)
          (steps_native hinstalled fuel k fun j hj ↦ hu' j (by omega)).1
          (fun j hj ↦ by rw [hnative]; exact hu' (k + j) (by omega)) hfree
          (by rw [hnative, hback]; exact hbp) (by rw [hnative, hback]; exact hinfo)
          (show i - k < fuel by omega)
        rw [hrest, run_run_add hkrun, continueExecution, run_seq_of_run hraises] at hrun
        cases hrun
  · intro hquiet
    have hu' : ∀ i < m, Undisturbed cpu info (functionTable sections units t.mem)
        (cpu.native t i) := by
      intro i hi
      exact (hu i (by omega)).with_info fun bp hbp ↦ hquiet i (mem_callSteps hi hbp) bp hbp
    obtain ⟨k, -, -, hrun, -⟩ := exists_run_to_call hpatch hu' (show m ≤ fuel by omega) le_rfl
    rw [hlength] at hrun
    exact ⟨_, _, hrun⟩

end Calls

section Report

variable {sections : List ElfSection} {units : List CompileUnit}

/-- The exception of `get_breakpoint_info`, from what each report finds in its uninitialised
variables. -/
def ownInfo (fuel : Nat) (u : Breakpoint → Tracee κ → Uninitialised) (units : List CompileUnit)
    (bp : Breakpoint) (t : Tracee κ) : Option Failure :=
  (breakpointInfo fuel (u bp t) units bp t).2

/-- Units whose functions are found by their numbers, with distinct offsets of the types, chains
of types that end, and at most as many parameters as there are registers for them. -/
structure WellFormed (units : List CompileUnit) : Prop where
  count : units.length ≤ 0x80000000
  functions : ∀ cu ∈ units, cu.functions.length ≤ 0x80000000
  offsets : ∀ cu ∈ units, (cu.datatypes.map (·.sectionOffset)).Nodup
  acyclic : ∀ cu ∈ units, Acyclic (nextType cu.datatypes) cu.datatypes
  parameters : ∀ cu ∈ units, ∀ func ∈ cu.functions, func.parameters.length ≤ 6

/-- The parameters of a call are safe in the process. -/
def CallSafe (u : Uninitialised) (units : List CompileUnit) (bp : Breakpoint) (t : Tracee κ) :
    Prop :=
  ∀ cu func, vectorAt units bp.cuIndex = .ok cu → vectorAt cu.functions bp.fnIndex = .ok func →
    ParametersSafe t.mem u cu func t.regs bp.cuIndex bp.fnIndex

/-- A report of a function is written exactly when its parameters are safe. -/
theorem breakpointFunctionInfo_endsIff (hunits : WellFormed units) {a : Word} {bp : Breakpoint}
    (hreport : ReportOf sections units a bp) (u : Uninitialised) (t : Tracee κ) :
    EndsIff (fun fuel ↦ breakpointFunctionInfo fuel u units bp t) (CallSafe u units bp t) := by
  obtain ⟨cuIdx, fnIdx, func, ⟨cu, hcu, hfunc⟩, -, -, -, -, hcuIndex, hfnIndex, -⟩ := hreport
  have hunit := List.mem_of_getElem? hcu
  have hcuIdx : bp.cuIndex = cuIdx := by
    have hlt := (List.getElem?_eq_some_iff.mp hcu).1
    have hcount := hunits.count
    rw [hcuIndex, toInt32_of_lt (by omega)]
  have hfnIdx : bp.fnIndex = fnIdx := by
    have hlt := (List.getElem?_eq_some_iff.mp hfunc).1
    have hcount := hunits.functions cu hunit
    rw [hfnIndex, toInt32_of_lt (by omega)]
  have hcu' : vectorAt units bp.cuIndex = .ok cu := by
    rw [hcuIdx]
    exact vectorAt_natCast hcu
  have hfunc' : vectorAt cu.functions bp.fnIndex = .ok func := by
    rw [hfnIdx]
    exact vectorAt_natCast hfunc
  unfold breakpointFunctionInfo
  simp only [hcu', hfunc', ok_bind]
  have hpayload : EndsIff (fun fuel ↦ generateFunctionPayload fuel t.mem u units cu func t.regs
      bp.cuIndex bp.fnIndex) (ParametersSafe t.mem u cu func t.regs bp.cuIndex bp.fnIndex) :=
    generateFunctionPayload_endsIff (hunits.offsets cu hunit) (hunits.acyclic cu hunit) hcu' hfunc'
      (hunits.parameters cu hunit func (List.mem_of_getElem? hfunc))
  refine (hpayload.seq (Q := True) fun fuel payload hok ↦ ?_).congr ?_
  · exact (EndsIff.const _).congr (iff_true_intro (exists_printFunctionPayload hok))
  · rw [and_true]
    constructor
    · intro hsafe cu₁ func₁ hcu₁ hfunc₁
      rw [hcu'] at hcu₁
      cases hcu₁
      rw [hfunc'] at hfunc₁
      cases hfunc₁
      exact hsafe
    · intro hsafe
      exact hsafe cu func hcu' hfunc'

/-- A report of a function raises nothing exactly when its text is written. -/
theorem breakpointInfo_quiet_iff {fuel : Nat} {u : Uninitialised} {bp : Breakpoint} {t : Tracee κ}
    (htype : bp.breakpointType = "function_call".toList) :
    (breakpointInfo fuel u units bp t).2 = none ↔
      ∃ text, breakpointFunctionInfo fuel u units bp t = .ok text := by
  unfold breakpointInfo
  rw [if_pos htype]
  cases breakpointFunctionInfo fuel u units bp t with
  | ok text => exact iff_of_true rfl ⟨text, rfl⟩
  | error raised => simp

/-- A run of the debugger with its own report raises nothing, on a budget that is enough for the
readers, exactly when the parameters of every call in it are safe in the native process: where
the functions' words can be patched, none of the native instructions is disturbed, the units are
well formed and the words that are read for the reports overlap no entry. -/
theorem run_survives_iff (cpu : Cpu κ) (u : Breakpoint → Tracee κ → Uninitialised)
    {n fuel rounds : Nat} {t : Tracee κ} (hunits : WellFormed units)
    (hpatch : Patchable t.mem [] (functionRequests (getSymbols sections).symbolsMap units))
    (hu : ∀ i < n, Undisturbed cpu (fun _ _ ↦ none) (functionTable sections units t.mem)
      (cpu.native t i))
    (hclear : ∀ i < n, ∀ bp,
      functionTable sections units t.mem (cpu.native t i).regs.rip = some bp →
      InfoClear sections units
        (u bp ((functionTable sections units t.mem).stoppedAt (cpu.native t i))) bp
        (cpu.native t i))
    (hfuel : n ≤ fuel) (hrounds : rounds ≤ (cpu.callSteps sections units t n).length) :
    (∃ budget table s, (cpu.environment (ownInfo budget u units) fuel).run
        (run true (getSymbols sections).symbolsMap units rounds) ⟨t, []⟩ =
          some ((table, none), s)) ↔
      ∀ i ∈ (cpu.callSteps sections units t n).take rounds, ∀ bp,
        functionTable sections units t.mem (cpu.native t i).regs.rip = some bp →
          CallSafe (u bp ((functionTable sections units t.mem).stoppedAt (cpu.native t i))) units
            bp (cpu.native t i) := by
  let table := functionTable sections units t.mem
  let found (i : Nat) (bp : Breakpoint) : Uninitialised := u bp (table.stoppedAt (cpu.native t i))
  -- the reports of the native process, one for each call
  have hends : ∀ i ∈ (cpu.callSteps sections units t n).take rounds, EndsIff (fun budget ↦
        (table (cpu.native t i).regs.rip).elim (.ok []) fun bp ↦
          breakpointFunctionInfo budget (found i bp) units bp (cpu.native t i))
      (∀ bp, table (cpu.native t i).regs.rip = some bp →
        CallSafe (found i bp) units bp (cpu.native t i)) := by
    intro i _
    apply EndsIff.elim
    intro bp hbp
    exact breakpointFunctionInfo_endsIff hunits (reportOf_functionTable hbp) _ _
  refine Iff.trans (exists_congr fun budget ↦ ?_) (EndsIff.exists_forall_iff hends)
  apply (run_quiet_iff hpatch hu hfuel hrounds).trans
  apply forall₂_congr
  intro i hi
  have hin : i < n := lt_of_mem_callSteps (List.mem_of_mem_take hi)
  have hquiet : ∀ bp, table (cpu.native t i).regs.rip = some bp →
      (ownInfo budget u units bp (table.stoppedAt (cpu.native t i)) = none ↔
        ∃ text, breakpointFunctionInfo budget (found i bp) units bp (cpu.native t i) =
          .ok text) := by
    intro bp hbp
    obtain ⟨_, _, _, _, _, _, _, htype, _⟩ := reportOf_functionTable hbp
    rw [← breakpointInfo_quiet_iff htype, ownInfo, breakpointInfo_stoppedAt t (hclear i hin bp hbp)]
  change (∀ bp, table (cpu.native t i).regs.rip = some bp → _ = none) ↔ _
  cases hbp : table (cpu.native t i).regs.rip with
  | none =>
    refine iff_of_true ?_ ⟨[], rfl⟩
    intro bp hbp
    cases hbp
  | some bp =>
    rw [Option.elim_some, ← hquiet bp hbp]
    constructor
    · intro hall
      exact hall bp rfl
    · intro hnone bp' hbp'
      cases hbp'
      exact hnone

theorem wellFormed_intFunction : WellFormed [intFunctionUnit] where
  count := by decide
  functions := by decide
  offsets := by decide
  acyclic := by
    rintro cu hcu
    rw [List.mem_singleton.mp hcu]
    apply Acyclic.of_trails
    intro x hx
    rw [List.mem_singleton.mp hx]
    exact ⟨[], .stop rfl⟩
  parameters := by decide

/-- The parameters of the sample call are safe. -/
theorem callSafe_intFunction (u : Uninitialised) :
    CallSafe u [intFunctionUnit] (sampleCall.record sampleCaller.mem.bytes)
      (sampleCpu.native sampleCaller 0) := by
  intro cu func hcu hfunc index funcParam chain register hparam ht _
  cases hcu
  cases hfunc
  cases index with
  | succ index => cases hparam
  | zero =>
    cases hparam
    rw [ht.unique trail_intFunction]
    refine ⟨fun _ hcount ↦ absurd rfl hcount, ?_⟩
    intro hcomplex
    cases hcomplex

/-- The run to the sample call raises nothing. -/
theorem run_survives_iff_sample :
    ∃ budget table s, (sampleCpu.environment
        (ownInfo budget (fun _ _ ↦ zeroUninitialised) [intFunctionUnit]) 1).run
      (run true (getSymbols sampleSections).symbolsMap [intFunctionUnit] 1) ⟨sampleCaller, []⟩ =
        some ((table, none), s) := by
  have hbp : ∀ i < 1, ∀ bp, functionTable sampleSections [intFunctionUnit] sampleCaller.mem
      (sampleCpu.native sampleCaller i).regs.rip = some bp →
        i = 0 ∧ bp = sampleCall.record sampleCaller.mem.bytes := by
    intro i hi bp hbp
    obtain rfl : i = 0 := by omega
    cases hbp
    exact ⟨rfl, rfl⟩
  apply (run_survives_iff sampleCpu (fun _ _ ↦ zeroUninitialised) wellFormed_intFunction
    (patchable_sampleCall functionRequests_intFunction)
    (undisturbed_sampleCall functionRequests_intFunction) ?_ (le_refl 1)
    (one_le_callSteps_sampleCall functionRequests_intFunction)).mpr
  · intro i hi bp hsome
    rw [callSteps_sampleCall functionRequests_intFunction] at hi
    obtain ⟨rfl, rfl⟩ := hbp i (by rw [List.mem_singleton.mp hi]; decide) bp hsome
    exact callSafe_intFunction _
  · intro i hi bp hsome
    obtain ⟨rfl, rfl⟩ := hbp i hi bp hsome
    exact infoClear_intFunction _

end Report

end ArgsDebugger
