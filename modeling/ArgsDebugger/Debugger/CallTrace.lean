import ArgsDebugger.Debugger.Run
import ArgsDebugger.Debugger.Transparency

/-!
# The calls of a native run and the reports of a debugged one

`Debugger::run` on the machine of `Debugger.Transparency`: from the first stop of the debuggee
through the set-up and a number of rounds of the loop. The calls of a native run are its
instructions at the entry of a function that qualifies. A debugged run of `k` rounds raises
nothing and stops behind the `k`-th call, with one report for each of the first `k` calls.
-/

namespace ArgsDebugger

open Lib

variable {κ : Type}

section Reported

variable {env : Environment κ} {s s' : Session κ} {α β : Type}

/-- The breakpoint that a request reports. -/
def Request.reported? : Request → Option Breakpoint
  | .getBreakpointInfo bp => some bp
  | _ => none

/-- The breakpoints that a piece of the debugger reports, each with the process as it is then. -/
def Environment.reported (env : Environment κ) (p : Dbg α) (s : Session κ) :
    List (Breakpoint × Tracee κ) :=
  (Program.visits env.handle p s).filterMap fun v ↦ v.1.reported?.map fun bp ↦ (bp, v.2.tracee)

theorem reported_seq_of_run {p : Dbg α} {f : α → Dbg β} {a : α}
    (h : env.run p s = some (a, s')) :
    env.reported (p >>= f) s = env.reported p s ++ env.reported (f a) s' := by
  unfold Environment.reported
  rw [Program.visits_bind_of_run h, List.filterMap_append]

/-- The session keeps the breakpoints that are reported. -/
theorem reports_of_run {p : Dbg α} {a : α} (h : env.run p s = some (a, s')) :
    s'.reports = s.reports ++ (env.reported p s).map Prod.fst := by
  induction p generalizing s with
  | done b =>
    cases h
    exact (List.append_nil _).symm
  | call r k ih =>
    simp only [Environment.run, Program.run] at h
    cases hr : env.handle r s with
    | none =>
      rw [hr] at h
      cases h
    | some x =>
      rw [hr] at h
      have hrest := ih x.1 h
      have hreports : x.2.reports = s.reports ++ r.reported?.toList := by
        cases r with
        | getBreakpointInfo bp =>
          cases hr
          rfl
        | resume how =>
          obtain ⟨t, -, rfl⟩ := Option.map_eq_some_iff.mp hr
          exact (List.append_nil _).symm
        | exit reason => cases hr
        | getRegs | setRegs | peekData | pokeData | waitpid =>
          cases hr
          exact (List.append_nil _).symm
      rw [hrest, hreports, List.append_assoc]
      simp only [Environment.reported, Program.visits, hr, List.filterMap_cons]
      cases hreport : r.reported? <;> rfl

/-- A piece that leaves the reports alone reports nothing. -/
theorem reported_eq_nil {p : Dbg α} {a : α} (h : env.run p s = some (a, s'))
    (hsame : s'.reports = s.reports) : env.reported p s = [] := by
  have hreports := reports_of_run h
  rw [hsame, List.self_eq_append_right, List.map_eq_nil_iff] at hreports
  exact hreports

variable (env) in
/-- Stepping over an enabled breakpoint reports it first. -/
theorem reported_stepOverBreakpoint {table : Table} {bp : Breakpoint}
    (hbp : table (s.tracee.regs.rip - 1) = some bp) (henabled : bp.enabled = true) :
    ∃ rest, env.reported (stepOverBreakpoint table) s = (bp, s.tracee) :: rest := by
  have hpc : env.reported getProgramCounter s = [] :=
    reported_eq_nil (run_getProgramCounter env s) rfl
  unfold stepOverBreakpoint
  rw [reported_seq_of_run (run_getProgramCounter env s), hpc, List.nil_append]
  dsimp only
  rw [hbp]
  simp only [if_pos henabled]
  rw [reported_seq_of_run (run_getBreakpointInfo env s bp)]
  exact ⟨_, rfl⟩

end Reported

section Hits

variable (cpu : Cpu κ) (table : Table) (t : Tracee κ)

/-- The process as it stops at a breakpoint. -/
def Table.stoppedAt (table : Table) (t : Tracee κ) : Tracee κ :=
  (t.shown table.armedAt).withRip (t.regs.rip + 1)

/-- The breakpoints at the first `n` instructions of a native run, each with the process as it
stops there. -/
def Cpu.stops (cpu : Cpu κ) (table : Table) (t : Tracee κ) (n : Nat) :
    List (Breakpoint × Tracee κ) :=
  (List.range n).filterMap fun i ↦
    (table (cpu.native t i).regs.rip).map fun bp ↦ (bp, table.stoppedAt (cpu.native t i))

/-- Up to the next instruction with a breakpoint there is one stop more. -/
theorem Cpu.stops_next {i d : Nat} {bp : Breakpoint}
    (hfree : ∀ j < d, table (cpu.native t (i + j)).regs.rip = none)
    (hhit : table (cpu.native t (i + d)).regs.rip = some bp) :
    cpu.stops table t (i + d + 1) =
      cpu.stops table t i ++ [(bp, table.stoppedAt (cpu.native t (i + d)))] := by
  have hnone : ((List.range d).map (i + ·)).filterMap (fun j ↦
      (table (cpu.native t j).regs.rip).map fun bp ↦ (bp, table.stoppedAt (cpu.native t j))) =
        [] := by
    rw [List.filterMap_eq_nil_iff]
    intro j hj
    obtain ⟨k, hk, rfl⟩ := List.mem_map.mp hj
    rw [hfree k (List.mem_range.mp hk)]
    rfl
  unfold stops
  rw [Nat.add_assoc, List.range_add, List.range_succ, List.map_append, List.filterMap_append,
    List.filterMap_append, hnone, List.nil_append]
  simp only [List.map_cons, List.map_nil, List.filterMap_cons, List.filterMap_nil, hhit,
    Option.map_some]

/-- The breakpoints that are hit first stay the first. -/
theorem Cpu.hits_prefix {i n : Nat} (h : i ≤ n) : cpu.hits table t i <+: cpu.hits table t n := by
  induction n, h using Nat.le_induction with
  | base => exact List.prefix_rfl
  | succ n _ ih =>
    rw [cpu.hits_succ]
    exact ih.trans (List.prefix_append ..)

variable {cpu table t} in
/-- Where more breakpoints are hit later, there is a next one. -/
theorem Cpu.exists_next_hit {i n : Nat}
    (h : (cpu.hits table t i).length < (cpu.hits table t n).length) :
    ∃ d bp, i + d < n ∧ (∀ j < d, table (cpu.native t (i + j)).regs.rip = none) ∧
      table (cpu.native t (i + d)).regs.rip = some bp ∧
      cpu.hits table t (i + d + 1) = cpu.hits table t i ++ [bp] := by
  have hlt : i < n := by
    by_contra hle
    have := (cpu.hits_prefix table t (not_lt.mp hle)).length_le
    omega
  induction hd : n - i generalizing i with
  | zero => omega
  | succ gap ih =>
    have hsucc := cpu.hits_succ table t i
    cases hbp : table (cpu.native t i).regs.rip with
    | some bp =>
      rw [hbp] at hsucc
      exact ⟨0, bp, hlt, fun j hj ↦ absurd hj (Nat.not_lt_zero j), hbp, hsucc⟩
    | none =>
      rw [hbp, Option.toList_none, List.append_nil] at hsucc
      rw [← hsucc] at h
      have hlt' : i + 1 < n := by
        by_contra hle
        have := (cpu.hits_prefix table t (not_lt.mp hle)).length_le
        omega
      obtain ⟨d, bp, hbound, hfree, hhit, hnext⟩ := ih h hlt' (by omega)
      refine ⟨d + 1, bp, by omega, ?_, ?_, ?_⟩
      · intro j hj
        cases j with
        | zero => exact hbp
        | succ j =>
          rw [← Nat.add_assoc, Nat.add_right_comm]
          exact hfree j (by omega)
      · rw [← Nat.add_assoc, Nat.add_right_comm]
        exact hhit
      · rw [← hsucc, ← Nat.add_assoc, Nat.add_right_comm i d 1]
        exact hnext

end Hits

section Rounds

variable {cpu : Cpu κ} {info : Breakpoint → Tracee κ → Option Failure} {table : Table}
  {t : Tracee κ} {reports : List Breakpoint} {fuel : Nat}

/-- A move of the resumed debuggee to the next boundary is an instruction of the hardware. -/
theorem advance_of_step_inr {t t' : Tracee κ} {d : Debugged κ}
    (h : Debugged.step cpu info fuel ⟨⟨t, reports⟩, table, .resumed⟩ = some d)
    (hd : d = ⟨⟨t', reports⟩, table, .resumed⟩) : cpu.advance t = .inr t' := by
  subst hd
  simp only [Debugged.step] at h
  cases hadv : cpu.advance t with
  | inl t₁ =>
    rw [hadv] at h
    cases h
  | inr t₁ =>
    rw [hadv] at h
    cases h
    rfl

/-- A move of the resumed debuggee to its stop is a trap of the hardware. -/
theorem advance_of_step_inl {t t' : Tracee κ} {d : Debugged κ}
    (h : Debugged.step cpu info fuel ⟨⟨t, reports⟩, table, .resumed⟩ = some d)
    (hd : d = ⟨⟨t', reports⟩, table, .stopped⟩) : cpu.advance t = .inl t' := by
  subst hd
  simp only [Debugged.step] at h
  cases hadv : cpu.advance t with
  | inl t₁ =>
    rw [hadv] at h
    cases h
    rfl
  | inr t₁ =>
    rw [hadv] at h
    cases h

/-- A move of the stopped debuggee is a call of `step_over_breakpoint`. -/
theorem run_of_step_stopped {s s' : Session κ} {table' : Table}
    (h : Debugged.step cpu info fuel ⟨s, table, .stopped⟩ = some ⟨s', table', .resumed⟩) :
    (cpu.environment info fuel).run (stepOverBreakpoint table) s = some ((table', none), s') := by
  simp only [Debugged.step] at h
  split at h
  · next heq =>
    cases h
    exact heq
  · cases h

/-- `PTRACE_CONT` runs to the next breakpoint of the native run. -/
theorem run_cont_to_hit {d : Nat} {bp : Breakpoint} (hi : table.Installed t)
    (hu : ∀ j < d, Undisturbed cpu info table (cpu.native t j))
    (hfree : ∀ j < d, table (cpu.native t j).regs.rip = none)
    (hhit : table (cpu.native t d).regs.rip = some bp) (hfuel : d < fuel) :
    Loop.run cpu.advance fuel (t.shown table.armedAt) =
      some (table.stoppedAt (cpu.native t d)) := by
  obtain ⟨fuel, rfl⟩ : ∃ k, fuel = k + 1 := ⟨fuel - 1, by omega⟩
  induction d generalizing t fuel with
  | zero =>
    have hmove : Debugged.step cpu info 0 (table.resumedAt t []) = _ := step_resumed_hit hi hhit 0
    exact Loop.run_succ_inl (advance_of_step_inl hmove rfl) fuel
  | succ d ih =>
    have hmove : Debugged.step cpu info 0 (table.resumedAt t []) = _ :=
      step_resumed_free hi (hu 0 (by omega)) (hfree 0 (by omega)) 0
    rw [Loop.run_succ_inr (advance_of_step_inr hmove rfl)]
    obtain ⟨fuel, rfl⟩ : ∃ k, fuel = k + 1 := ⟨fuel - 1, by omega⟩
    exact ih (hi.exec (hu 0 (by omega))) (fun j hj ↦ hu (j + 1) (by omega))
      (fun j hj ↦ hfree (j + 1) (by omega)) hhit fuel (by omega)

/-- `PTRACE_CONT` stops the process at the next breakpoint of the native run. -/
theorem run_cont_stopped {d : Nat} {bp : Breakpoint} (hi : table.Installed t)
    (hu : ∀ j < d, Undisturbed cpu info table (cpu.native t j))
    (hfree : ∀ j < d, table (cpu.native t j).regs.rip = none)
    (hhit : table (cpu.native t d).regs.rip = some bp) (hfuel : d < fuel) :
    (cpu.environment info fuel).run (resume .cont) ⟨t.shown table.armedAt, reports⟩ =
      some ((), ⟨table.stoppedAt (cpu.native t d), reports⟩) := by
  rw [run_resume]
  change (Loop.run cpu.advance fuel (t.shown table.armedAt)).map _ = _
  rw [run_cont_to_hit hi hu hfree hhit hfuel]
  rfl

/-- The machine stops by `SIGTRAP` only. -/
theorem run_wait_stopped (s : Session κ) :
    (cpu.environment info fuel).run waitForSignal s = some ((), s) :=
  (run_waitForSignal_iff _ _).mpr ⟨fun _ ↦ (by decide : wstopsig sigtrapStop = 5), rfl⟩

/-- Behind the stop the program counter is that of the breakpoint again. -/
theorem stoppedAt_rip (table : Table) (t : Tracee κ) :
    (table.stoppedAt t).regs.rip - 1 = t.regs.rip := BitVec.add_sub_cancel _ _

variable (reports) in
/-- A round of the loop goes on to the next breakpoint of the native run and over it. -/
theorem run_continueIteration_hit {d : Nat} {bp : Breakpoint} (hi : table.Installed t)
    (hu : ∀ j ≤ d, Undisturbed cpu info table (cpu.native t j))
    (hfree : ∀ j < d, table (cpu.native t j).regs.rip = none)
    (hhit : table (cpu.native t d).regs.rip = some bp) (hfuel : d < fuel) :
    (cpu.environment info fuel).run (continueIteration table) ⟨t.shown table.armedAt, reports⟩ =
        some ((table, none), ⟨(cpu.native t (d + 1)).shown table.armedAt, reports ++ [bp]⟩) ∧
      (cpu.environment info fuel).reported (continueIteration table)
        ⟨t.shown table.armedAt, reports⟩ = [(bp, table.stoppedAt (cpu.native t d))] := by
  let stopped : Session κ := ⟨table.stoppedAt (cpu.native t d), reports⟩
  have hcont : (cpu.environment info fuel).run (resume .cont) ⟨t.shown table.armedAt, reports⟩ =
      some ((), stopped) := run_cont_stopped hi (fun j hj ↦ hu j (by omega)) hfree hhit hfuel
  have hwait : (cpu.environment info fuel).run waitForSignal stopped = some ((), stopped) :=
    run_wait_stopped stopped
  have hinstalled : table.Installed (cpu.native t d) :=
    (steps_native hi fuel d fun j hj ↦ hu j (by omega)).1
  have hover : Debugged.step cpu info fuel ⟨stopped, table, .stopped⟩ = _ :=
    step_stopped hinstalled (hu d le_rfl) hhit fuel
  have hhere : table (stopped.tracee.regs.rip - 1) = some bp := by
    rw [stoppedAt_rip]
    exact hhit
  have hrun : (cpu.environment info fuel).run (continueIteration table)
      ⟨t.shown table.armedAt, reports⟩ =
        some ((table, none), ⟨(cpu.native t (d + 1)).shown table.armedAt, reports ++ [bp]⟩) := by
    unfold continueIteration
    rw [run_seq_of_run hcont, run_seq_of_run hwait, cpu.native_succ]
    exact run_of_step_stopped hover
  refine ⟨hrun, ?_⟩
  obtain ⟨rest, hrest⟩ := reported_stepOverBreakpoint (cpu.environment info fuel) hhere
    (hinstalled _ bp hhit).2.2
  have hreported : (cpu.environment info fuel).reported (continueIteration table)
      ⟨t.shown table.armedAt, reports⟩ = (bp, stopped.tracee) :: rest := by
    unfold continueIteration
    rw [reported_seq_of_run hcont, reported_eq_nil hcont rfl, reported_seq_of_run hwait,
      reported_eq_nil hwait rfl]
    exact hrest
  -- there is one report only
  have hone := reports_of_run hrun
  rw [hreported, List.append_cancel_left_eq] at hone
  have hnil : rest = [] := List.map_eq_nil_iff.mp (List.cons.inj hone).2.symm
  rw [hreported, hnil]

/-- The rounds of the loop go through the breakpoints of the native run, one after the other. -/
theorem run_continueExecution_hits {n rounds i : Nat} (hi : table.Installed t)
    (hu : ∀ j < n, Undisturbed cpu info table (cpu.native t j)) (hfuel : n ≤ fuel)
    (hrounds : (cpu.hits table t i).length + rounds ≤ (cpu.hits table t n).length)
    (hin : i ≤ n) : ∃ k ≤ n, (cpu.hits table t k).length = (cpu.hits table t i).length + rounds ∧
      (cpu.environment info fuel).run (continueExecution rounds table)
          ⟨(cpu.native t i).shown table.armedAt, cpu.hits table t i⟩ =
        some ((table, none), ⟨(cpu.native t k).shown table.armedAt, cpu.hits table t k⟩) ∧
      cpu.stops table t i ++ (cpu.environment info fuel).reported (continueExecution rounds table)
          ⟨(cpu.native t i).shown table.armedAt, cpu.hits table t i⟩ = cpu.stops table t k := by
  induction rounds generalizing i with
  | zero => exact ⟨i, hin, rfl, rfl, List.append_nil _⟩
  | succ rounds ih =>
    have hmore : (cpu.hits table t i).length < (cpu.hits table t n).length := by omega
    obtain ⟨d, bp, hbound, hfree, hhit, hnext⟩ := Cpu.exists_next_hit hmore
    have hnative (j : Nat) : cpu.native (cpu.native t i) j = cpu.native t (i + j) := by
      rw [Nat.add_comm]
      exact (Function.iterate_add_apply ..).symm
    have hlength : (cpu.hits table t (i + d + 1)).length = (cpu.hits table t i).length + 1 := by
      rw [hnext, List.length_append, List.length_singleton]
    have hinstalled : table.Installed (cpu.native t i) :=
      (steps_native hi fuel i fun j hj ↦ hu j (by omega)).1
    obtain ⟨hround, hreported⟩ := run_continueIteration_hit (cpu.hits table t i) hinstalled
      (fun j hj ↦ by rw [hnative]; exact hu (i + j) (by omega))
      (fun j hj ↦ by rw [hnative]; exact hfree j hj) (by rw [hnative]; exact hhit)
      (show d < fuel by omega)
    rw [hnative, ← Nat.add_assoc, ← hnext] at hround
    rw [hnative] at hreported
    obtain ⟨k, hk, hcount, hrest, hstops⟩ := ih (i := i + d + 1) (by omega) (by omega)
    rw [cpu.stops_next table t hfree hhit, List.append_assoc] at hstops
    refine ⟨k, hk, by omega, ?_, ?_⟩
    · rw [continueExecution, run_seq_of_run hround]
      exact hrest
    · rw [continueExecution, reported_seq_of_run hround, hreported]
      exact hstops

/-- Rounds of the loop that raise nothing are moves of the debugged machine, at least two for
each. -/
theorem Debugged.steps_of_continueExecution {rounds : Nat} {s s' : Session κ} {table table' : Table}
    (h : (cpu.environment info fuel).run (continueExecution rounds table) s =
      some ((table', none), s')) :
    ∃ k, 2 * rounds ≤ k ∧
      Debugged.steps cpu info fuel k ⟨s, table, .resumed⟩ = some ⟨s', table', .resumed⟩ := by
  induction rounds generalizing s table with
  | zero =>
    cases h
    exact ⟨0, le_rfl, rfl⟩
  | succ rounds ih =>
    obtain ⟨⟨table₁, raised⟩, s₁, hround, hrest⟩ := run_seq_eq_some _ _ h
    cases raised with
    | some f => cases hrest
    | none =>
      obtain ⟨k₁, hk₁, hmoves₁⟩ := Debugged.steps_of_continueIteration cpu info fuel hround
      obtain ⟨k, hk, hmoves⟩ := ih hrest
      refine ⟨k₁ + k, by omega, ?_⟩
      rw [Debugged.steps_add, hmoves₁]
      exact hmoves

/-- One round over the first breakpoint of the sample process is two moves. -/
theorem steps_of_continueExecution_sample : ∃ k s s', 2 ≤ k ∧
    Debugged.steps sampleCpu (fun _ _ ↦ none) 1 k
      ⟨s, tableOf sampleSession.tracee.mem.bytes sampleRequests, .resumed⟩ =
        some ⟨s', tableOf sampleSession.tracee.mem.bytes sampleRequests, .resumed⟩ := by
  let table := tableOf sampleSession.tracee.mem.bytes sampleRequests
  have hundisturbed (j : Nat) (hj : j ≤ 0) :
      Undisturbed sampleCpu (fun _ _ ↦ none) table (sampleCpu.native sampleSession.tracee j) :=
    undisturbed_sample j (by omega)
  have hrun := (run_continueIteration_hit [] (installed_tableOf sampleSession.tracee sampleRequests)
    hundisturbed (fun j hj ↦ absurd hj (Nat.not_lt_zero j)) rfl Nat.one_pos).1
  have hround : (sampleCpu.environment (fun _ _ ↦ none) 1).run (continueExecution 1 table) _ = _ :=
    run_seq_of_run hrun
  obtain ⟨k, hk, hmoves⟩ := Debugged.steps_of_continueExecution hround
  exact ⟨k, _, _, hk, hmoves⟩

end Rounds

section Calls

variable (sections : List ElfSection) (units : List CompileUnit)

/-- A function that gets a breakpoint begins at the address. -/
def IsEntry (a : Word) : Prop := ∃ cuIdx fnIdx func, FunctionAt units cuIdx fnIdx func ∧
  Qualifies (sections.flatMap ElfSection.read) func a

/-- The record is that of the least function at the address, under its last symbol. -/
def ReportOf (a : Word) (bp : Breakpoint) : Prop :=
  ∃ cuIdx fnIdx func, FunctionAt units cuIdx fnIdx func ∧
    Qualifies (sections.flatMap ElfSection.read) func a ∧
    (∀ cuIdx' fnIdx' func', FunctionAt units cuIdx' fnIdx' func' →
      Qualifies (sections.flatMap ElfSection.read) func' a →
      LoopLe (cuIdx, fnIdx) (cuIdx', fnIdx')) ∧
    bp.bpAddress = a ∧ bp.breakpointType = "function_call".toList ∧
    bp.cuIndex = toInt32 cuIdx ∧ bp.fnIndex = toInt32 fnIdx ∧
    ∃ sym, lastFunc (sections.flatMap ElfSection.read) a = some sym ∧ bp.bpName = sym.symbolName

open Classical in
/-- The calls among the first instructions of a native run, by their positions. -/
noncomputable def Cpu.callSteps (cpu : Cpu κ) (t : Tracee κ) (n : Nat) : List Nat :=
  (List.range n).filter fun i ↦ IsEntry sections units (cpu.native t i).regs.rip

/-- The table of the functions over a memory. -/
def functionTable (m : Memory) : Table :=
  tableOf m.bytes (functionRequests (getSymbols sections).symbolsMap units)

variable {sections units}

theorem isSome_functionTable (m : Memory) (a : Word) :
    (functionTable sections units m a).isSome = true ↔ IsEntry sections units a := by
  rw [functionTable, isSome_tableOf]
  exact requested_functionRequests a

/-- Every record of the table is that of a function. -/
theorem reportOf_functionTable {m : Memory} {a : Word} {bp : Breakpoint}
    (h : functionTable sections units m a = some bp) : ReportOf sections units a bp := by
  obtain ⟨r, hfind, rfl⟩ := Option.map_eq_some_iff.mp h
  obtain ⟨cuIdx, fnIdx, func, hat, hr, haddr, hleast⟩ := find?_functionRequests hfind
  obtain ⟨hq, htype, hcu, hfn, hsym⟩ := functionRequest_eq_some.mp hr
  rw [haddr] at hq hsym
  exact ⟨cuIdx, fnIdx, func, hat, hq, hleast, haddr, htype, hcu, hfn, hsym⟩

/-- What a partial function has at the elements of a list, beside those where it has something. -/
theorem forall₂_filterMap {α β : Type} (f : α → Option β) (p : α → Bool)
    (hp : ∀ a, p a = (f a).isSome) (l : List α) :
    List.Forall₂ (fun a b ↦ f a = some b) (l.filter p) (l.filterMap f) := by
  induction l with
  | nil => exact .nil
  | cons a l ih =>
    cases ha : f a with
    | none =>
      rw [List.filter_cons_of_neg (by simp [hp, ha]), List.filterMap_cons_none ha]
      exact ih
    | some b =>
      rw [List.filter_cons_of_pos (by rw [hp, ha]; rfl), List.filterMap_cons_some ha]
      exact .cons ha ih

/-- The breakpoints that a native run passes are those of its calls. -/
theorem callSteps_hits (cpu : Cpu κ) (m : Memory) (t : Tracee κ) (n : Nat) :
    List.Forall₂ (fun i bp ↦ functionTable sections units m (cpu.native t i).regs.rip = some bp)
      (cpu.callSteps sections units t n) (cpu.hits (functionTable sections units m) t n) := by
  classical
  apply forall₂_filterMap
  intro i
  rw [Bool.eq_iff_iff, isSome_functionTable, decide_eq_true_iff]

/-- The calls that are made first stay the first. -/
theorem callSteps_eq_take (cpu : Cpu κ) (t : Tracee κ) {i n : Nat} (h : i ≤ n) :
    cpu.callSteps sections units t i = (cpu.callSteps sections units t n).take
      (cpu.callSteps sections units t i).length := by
  apply List.prefix_iff_eq_take.mp
  apply List.IsPrefix.filter
  obtain ⟨k, rfl⟩ := Nat.exists_eq_add_of_le h
  rw [List.range_add]
  exact List.prefix_append ..

/-- Each stop is that of a call. -/
theorem callSteps_stops (cpu : Cpu κ) (m : Memory) (t : Tracee κ) (n : Nat) :
    List.Forall₂ (fun i v ↦
        functionTable sections units m (cpu.native t i).regs.rip = some v.1 ∧
          v.2 = (functionTable sections units m).stoppedAt (cpu.native t i))
      (cpu.callSteps sections units t n) (cpu.stops (functionTable sections units m) t n) := by
  classical
  have hstops := forall₂_filterMap (fun i ↦
    (functionTable sections units m (cpu.native t i).regs.rip).map fun bp ↦
      (bp, (functionTable sections units m).stoppedAt (cpu.native t i)))
    (fun i ↦ decide (IsEntry sections units (cpu.native t i).regs.rip))
    (fun i ↦ by
      rw [Bool.eq_iff_iff, Option.isSome_map, isSome_functionTable, decide_eq_true_iff])
    (List.range n)
  apply hstops.imp
  intro i v hv
  obtain ⟨bp, hbp, rfl⟩ := Option.map_eq_some_iff.mp hv
  exact ⟨hbp, rfl⟩

section Run

variable {cpu : Cpu κ} {info : Breakpoint → Tracee κ → Option Failure} {n fuel rounds : Nat}
  {t : Tracee κ}

/-- A run of as many rounds as there are calls, or of fewer, stops behind the last of them, and
the states it reports are the stops before. -/
theorem exists_run_to_call
    (hpatch : Patchable t.mem [] (functionRequests (getSymbols sections).symbolsMap units))
    (hu : ∀ i < n, Undisturbed cpu info (functionTable sections units t.mem) (cpu.native t i))
    (hfuel : n ≤ fuel) (hrounds : rounds ≤ (cpu.callSteps sections units t n).length) :
    ∃ i ≤ n, cpu.callSteps sections units t i =
        (cpu.callSteps sections units t n).take rounds ∧
      (cpu.environment info fuel).run (run true (getSymbols sections).symbolsMap units rounds)
          ⟨t, []⟩ = some ((functionTable sections units t.mem, none),
        ⟨(cpu.native t i).shown (functionTable sections units t.mem).armedAt,
          cpu.hits (functionTable sections units t.mem) t i⟩) ∧
      (cpu.environment info fuel).reported
          (run true (getSymbols sections).symbolsMap units rounds) ⟨t, []⟩ =
        cpu.stops (functionTable sections units t.mem) t i := by
  let rs := functionRequests (getSymbols sections).symbolsMap units
  let table := functionTable sections units t.mem
  have hinstalled : table.Installed t := installed_tableOf t rs
  have hset : (cpu.environment info fuel).run (setBreakpoints Table.empty rs) ⟨t, []⟩ =
      some ((table, none), ⟨t.shown table.armedAt, []⟩) := by
    have hmem : (⟨t, []⟩ : Session κ).tracee.mem = t.mem.patched [] := t.mem.patched_nil.symm
    have harmed : table.armedAt = requested rs := funext fun a ↦ armedAt_tableOf t.mem.bytes rs a
    rw [harmed]
    exact (run_setBreakpoints_iff (cpu.environment info fuel) hmem).mpr ⟨hpatch, rfl, rfl⟩
  have hall := (run_setAllFunctionBreakpoints ..).trans hset
  have hlength (j : Nat) : (cpu.hits table t j).length =
      (cpu.callSteps sections units t j).length :=
    (callSteps_hits cpu t.mem t j).length_eq.symm
  obtain ⟨i, hin, hcount, hloop, hstops⟩ := run_continueExecution_hits (i := 0) hinstalled hu
    hfuel (by rw [hlength n]; simpa [Cpu.hits] using hrounds) (Nat.zero_le n)
  have hcalls : (cpu.callSteps sections units t i).length = rounds := by
    rw [← hlength, hcount]
    simp [Cpu.hits]
  have hwait : (cpu.environment info fuel).run waitForSignal ⟨t, []⟩ = some ((), ⟨t, []⟩) :=
    run_wait_stopped _
  refine ⟨i, hin, ?_, ?_, ?_⟩
  · rw [callSteps_eq_take cpu t hin, hcalls]
  · unfold run
    rw [run_seq_of_run hwait, if_pos rfl, run_seq_of_run hall]
    exact hloop
  · unfold run
    rw [reported_seq_of_run hwait, reported_eq_nil hwait rfl, List.nil_append, if_pos rfl,
      reported_seq_of_run hall, reported_eq_nil hall rfl, List.nil_append]
    exact hstops

variable (sections units) in
/-- A process is shown with an `int3` at every entry, and as it is elsewhere. -/
theorem bytes_shown_functionTable (t₀ t : Tracee κ) :
    (∀ x, IsEntry sections units x →
      (t.shown (functionTable sections units t₀.mem).armedAt).mem.bytes x = int3) ∧
    ∀ x, ¬ IsEntry sections units x →
      (t.shown (functionTable sections units t₀.mem).armedAt).mem.bytes x = t.mem.bytes x := by
  have hinstalled : (functionTable sections units t₀.mem).Installed t₀ := installed_tableOf t₀ _
  constructor
  · intro x hx
    apply overlay_of_armed
    rw [hinstalled.armedAt]
    exact (isSome_functionTable t₀.mem x).mpr hx
  · intro x hx
    apply overlay_of_not_armed
    rw [hinstalled.armedAt, ← Bool.not_eq_true, isSome_functionTable]
    exact hx

/-- A run of the debugger goes through the calls of the native run: where the functions' words
can be patched and none of the first `n` native instructions is disturbed, a run of as many
rounds as there are calls among them, or of fewer, raises nothing, stops behind the last of
these calls with the native registers, and with the native memory but for an `int3` at every
entry, and has reported each of the calls, in order, with the record of its function. -/
theorem run_reports_calls (cpu : Cpu κ) (info : Breakpoint → Tracee κ → Option Failure)
    {n fuel rounds : Nat} {t : Tracee κ}
    (hpatch : Patchable t.mem [] (functionRequests (getSymbols sections).symbolsMap units))
    (hu : ∀ i < n, Undisturbed cpu info (functionTable sections units t.mem) (cpu.native t i))
    (hfuel : n ≤ fuel) (hrounds : rounds ≤ (cpu.callSteps sections units t n).length) :
    ∃ table s i, (cpu.environment info fuel).run
        (run true (getSymbols sections).symbolsMap units rounds) ⟨t, []⟩ =
          some ((table, none), s) ∧ i ≤ n ∧
      cpu.callSteps sections units t i = (cpu.callSteps sections units t n).take rounds ∧
      s.tracee.regs = (cpu.native t i).regs ∧ s.tracee.rest = (cpu.native t i).rest ∧
      (∀ x, IsEntry sections units x → s.tracee.mem.bytes x = int3) ∧
      (∀ x, ¬ IsEntry sections units x →
        s.tracee.mem.bytes x = (cpu.native t i).mem.bytes x) ∧
      List.Forall₂ (fun j bp ↦ ReportOf sections units (cpu.native t j).regs.rip bp)
        (cpu.callSteps sections units t i) s.reports := by
  obtain ⟨i, hin, hcalls, hrun, -⟩ := exists_run_to_call hpatch hu hfuel hrounds
  obtain ⟨hentry, hother⟩ := bytes_shown_functionTable sections units t (cpu.native t i)
  exact ⟨functionTable sections units t.mem, _, i, hrun, hin, hcalls, rfl, rfl, hentry, hother,
    (callSteps_hits cpu t.mem t i).imp fun _ _ hbp ↦ reportOf_functionTable hbp⟩

end Run

section Sample

/-- The one request of units with the sample function. -/
def sampleCall : SetRequest := ⟨"f".toList, 16, "function_call".toList, 0, 0⟩

/-- The sample process with an argument for the function. -/
def sampleCaller : Tracee Unit :=
  { sampleSession.tracee with regs := { sampleSession.tracee.regs with rdi := 42 } }

variable {units : List CompileUnit}
  (hreqs : functionRequests (getSymbols sampleSections).symbolsMap units = [sampleCall])
include hreqs

theorem patchable_sampleCall : Patchable sampleCaller.mem []
    (functionRequests (getSymbols sampleSections).symbolsMap units) := by
  rw [hreqs, patchable_cons]
  exact ⟨fun _ ↦ by decide, Patchable.nil _ _⟩

/-- The process begins with a call of the sample function. -/
theorem undisturbed_sampleCall (i : Nat) (hi : i < 1) :
    Undisturbed sampleCpu (fun _ _ ↦ none) (functionTable sampleSections units sampleCaller.mem)
      (sampleCpu.native sampleCaller i) := by
  obtain rfl : i = 0 := by omega
  unfold functionTable
  rw [hreqs]
  refine ⟨?_, fun _ _ ↦ ⟨id, id⟩, by decide, ?_⟩
  · intro k h0 h1
    have hk : k < 1 := h1
    omega
  · intro bp hbp
    cases hbp
    exact ⟨rfl, by decide, by decide⟩

/-- The call is the one instruction of a native run of one. -/
theorem callSteps_sampleCall : sampleCpu.callSteps sampleSections units sampleCaller 1 = [0] := by
  have hentry : IsEntry sampleSections units (sampleCpu.native sampleCaller 0).regs.rip := by
    rw [← isSome_functionTable sampleCaller.mem, functionTable, hreqs]
    rfl
  unfold Cpu.callSteps
  rw [List.range_one, List.filter_cons_of_pos (by simpa using hentry), List.filter_nil]

theorem one_le_callSteps_sampleCall :
    1 ≤ (sampleCpu.callSteps sampleSections units sampleCaller 1).length := by
  rw [callSteps_sampleCall hreqs, List.length_singleton]

/-- The call is the one report of a round. -/
theorem reported_sampleCall : (sampleCpu.environment (fun _ _ ↦ none) 1).reported
    (run true (getSymbols sampleSections).symbolsMap units 1) ⟨sampleCaller, []⟩ =
      [(sampleCall.record sampleCaller.mem.bytes,
        (functionTable sampleSections units sampleCaller.mem).stoppedAt sampleCaller)] := by
  obtain ⟨i, hi, hcalls, -, hstops⟩ := exists_run_to_call (patchable_sampleCall hreqs)
    (undisturbed_sampleCall hreqs) (le_refl 1) (one_le_callSteps_sampleCall hreqs)
  rw [callSteps_sampleCall hreqs] at hcalls
  obtain rfl : i = 1 := by
    by_contra hne
    obtain rfl : i = 0 := by omega
    cases hcalls
  have htable : functionTable sampleSections units sampleCaller.mem 16 =
      some (sampleCall.record sampleCaller.mem.bytes) := by
    rw [functionTable, hreqs]
    rfl
  have hrip : (sampleCpu.native sampleCaller 0).regs.rip = 16 := rfl
  rw [hstops, Cpu.stops, List.range_one, List.filterMap_cons, hrip, htable]
  rfl

omit hreqs

theorem functionRequests_sample :
    functionRequests (getSymbols sampleSections).symbolsMap [sampleFunctionUnit] =
      [sampleCall] := rfl

/-- A run of one round reports the call and stops behind the instruction at its entry. -/
theorem run_reports_calls_sample :
    ∃ table s i, (sampleCpu.environment (fun _ _ ↦ none) 1).run
        (run true (getSymbols sampleSections).symbolsMap [sampleFunctionUnit] 1)
          ⟨sampleCaller, []⟩ = some ((table, none), s) ∧
      s.tracee.regs = (sampleCpu.native sampleCaller i).regs ∧ s.reports.length = 1 := by
  obtain ⟨table, s, i, hrun, -, hcalls, hregs, -, -, -, hreports⟩ :=
    run_reports_calls sampleCpu (fun _ _ ↦ none) (patchable_sampleCall functionRequests_sample)
      (undisturbed_sampleCall functionRequests_sample) (le_refl 1)
      (one_le_callSteps_sampleCall functionRequests_sample)
  refine ⟨table, s, i, hrun, hregs, ?_⟩
  rw [← hreports.length_eq, hcalls, callSteps_sampleCall functionRequests_sample]
  rfl

end Sample

end Calls

end ArgsDebugger
