import ArgsDebugger.Breakpoint.Patch

/-!
# Stops of the debuggee and stepping over a breakpoint

`src/debugger_manager.cc:32–46,123–172` and `src/registers.cc:6–38`. After a stop the
debugger takes the byte before the program counter for the breakpoint that was hit. If an
enabled record is there, it reports, rewinds, disarms, single-steps and re-arms.
`StepOver` is the meaning of one such call; `run_stepOverBreakpoint_iff` says that it is
the whole meaning of the calls that return without an exception.
-/

namespace ArgsDebugger

/-- `poc::reg::get_registers`, `src/registers.cc:6–33`. -/
def getRegisters : Dbg UserRegs := do
  match ← getRegs with
  | some regs => return regs
  | none => exit .getRegsFailed

/-- `Debugger::get_program_counter`, `src/debugger_manager.cc:32–35`. -/
def getProgramCounter : Dbg Word := do
  let regs ← getRegisters
  return regs.rip

/-- `Debugger::set_program_counter`, `src/debugger_manager.cc:37–46`. -/
def setProgramCounter (pc : Word) : Dbg Unit := do
  let regs ← getRegisters
  setRegs { regs with rip := pc }

/-- `Debugger::wait_for_signal`, `src/debugger_manager.cc:131–150`. The test for an ended child
stands inside the branch for stopped ones. -/
def waitForSignal : Dbg Unit := do
  let status ← waitpid
  if wifstopped status then
    if wstopsig status = 5 then
      return ()
    else if wifexited status || (wifsignaled status && wtermsig status == 9) then
      exit .terminated
    else
      exit (.gotSignal (wstopsig status))
  else
    return ()

/-- `Debugger::step_over_breakpoint`, `src/debugger_manager.cc:152–172`. -/
def stepOverBreakpoint (table : Table) : Dbg (Table × Option Failure) := do
  let pc ← getProgramCounter
  let location := pc - 1
  match table location with
  | none => return (table, none)
  | some bp =>
    if bp.enabled then
      match ← getBreakpointInfo bp with
      | some f => return (table, some f)
      | none =>
        setProgramCounter location
        let (bp, raised) ← bp.disableBreakpoint
        match raised with
        | some f => return (table.set location bp, some f)
        | none =>
          resume .singleStep
          waitForSignal
          let (bp, raised) ← bp.enableBreakpoint
          return (table.set location bp, raised)
    else
      return (table, none)

/-- One iteration of `Debugger::continue_execution`, `src/debugger_manager.cc:123–129`. -/
def continueIteration (table : Table) : Dbg (Table × Option Failure) := do
  resume .cont
  waitForSignal
  stepOverBreakpoint table

variable {κ : Type} (env : Environment κ) (s : Session κ)

@[simp] theorem run_getProgramCounter :
    env.run getProgramCounter s = some (s.tracee.regs.rip, s) := rfl

@[simp] theorem run_setProgramCounter (pc : Word) :
    env.run (setProgramCounter pc) s = some ((), s.withRip pc) := rfl

/-- The stops after which `wait_for_signal` returns: a stop by `SIGTRAP`, and every status
that is not a stop. -/
def WaitReturns (status : WaitStatus) : Prop := wifstopped status = true → wstopsig status = 5

/-- Waiting for a signal returns exactly on those stops and changes nothing. -/
theorem run_waitForSignal_iff {r : Unit × Session κ} :
    env.run waitForSignal s = some r ↔ WaitReturns (env.status s.tracee) ∧ r = ((), s) := by
  simp only [waitForSignal, run_seq, run_waitpid, Option.bind_some, WaitReturns]
  split
  · next h =>
    split
    · next h5 =>
      rw [run_done]
      exact ⟨fun hr ↦ ⟨fun _ ↦ h5, (Option.some.inj hr).symm⟩, fun hr ↦ congrArg some hr.2.symm⟩
    · next h5 =>
      split
      · simp [h, h5]
      · simp [h, h5]
  · next h =>
    rw [run_done]
    exact ⟨fun hr ↦ ⟨fun hs ↦ absurd hs h, (Option.some.inj hr).symm⟩,
      fun hr ↦ congrArg some hr.2.symm⟩

/-- The part of `step_over_breakpoint` after the report has an effect: at the record `bp` of
the address `a` the debuggee is disarmed, stepped and re-armed, all without exception. -/
structure Stepped (a : Word) (bp : Breakpoint) (s : Session κ) (t : Tracee κ) : Prop where
  info : env.info bp s.tracee = none
  disarm : s.tracee.mem.peekData bp.bpAddress ≠ allOnes
  step : env.resume .singleStep
    ((s.withRip a).withMem (s.tracee.mem.setByte bp.bpAddress bp.originalData)).tracee = some t
  wait : WaitReturns (env.status t)
  rearm : t.mem.peekData bp.bpAddress ≠ allOnes

/-- The meaning of a call of `step_over_breakpoint` that raises nothing. -/
inductive StepOver (table : Table) (s : Session κ) : Table → Session κ → Prop
  | absent (h : table (s.tracee.regs.rip - 1) = none) : StepOver table s table s
  | disabled {bp : Breakpoint} (h : table (s.tracee.regs.rip - 1) = some bp)
      (hd : bp.enabled = false) : StepOver table s table s
  | hit {bp : Breakpoint} {t : Tracee κ} (h : table (s.tracee.regs.rip - 1) = some bp)
      (he : bp.enabled = true) (hs : Stepped env (s.tracee.regs.rip - 1) bp s t) :
      StepOver table s (table.set (s.tracee.regs.rip - 1) (bp.armed t.mem))
        { tracee := { t with mem := t.mem.setByte bp.bpAddress int3 }
          reports := s.reports ++ [bp] }

/-- Stepping over an enabled record whose whole sequence goes through. -/
private theorem run_hit {table : Table} {bp : Breakpoint} {t : Tracee κ}
    (h : table (s.tracee.regs.rip - 1) = some bp) (he : bp.enabled = true)
    (hs : Stepped env (s.tracee.regs.rip - 1) bp s t) :
    env.run (stepOverBreakpoint table) s =
      some ((table.set (s.tracee.regs.rip - 1) (bp.armed t.mem), none),
        { tracee := { t with mem := t.mem.setByte bp.bpAddress int3 }
          reports := s.reports ++ [bp] }) := by
  let a := s.tracee.regs.rip - 1
  let s₁ := (s.report bp).withRip a
  let s₂ := s₁.withMem (s.tracee.mem.setByte bp.bpAddress bp.originalData)
  let s₃ := s₂.withTracee t
  have hd : env.run bp.disableBreakpoint s₁ = some ((bp.disarmed, none), s₂) :=
    bp.run_disableBreakpoint env s₁ hs.disarm
  have hr : env.run (resume .singleStep) s₂ = some ((), s₃) := by
    rw [run_resume]
    exact congrArg (Option.map fun t ↦ ((), s₂.withTracee t)) hs.step
  have hw : env.run waitForSignal s₃ = some ((), s₃) :=
    (run_waitForSignal_iff env s₃).mpr ⟨hs.wait, rfl⟩
  have hb : env.run bp.disarmed.enableBreakpoint s₃ =
      some ((bp.armed t.mem, none), s₃.withMem (t.mem.setByte bp.bpAddress int3)) :=
    bp.disarmed.run_enableBreakpoint env s₃ hs.rearm
  have hi : env.run (getBreakpointInfo bp) s = some (none, s.report bp) := by
    rw [run_getBreakpointInfo, hs.info]
  unfold stepOverBreakpoint
  rw [run_seq_of_run (run_getProgramCounter env s)]
  simp only [h, he, ite_true]
  rw [run_seq_of_run hi]
  simp only
  rw [run_seq_of_run (run_setProgramCounter env (s.report bp) a), run_seq_of_run hd]
  simp only
  rw [run_seq_of_run hr, run_seq_of_run hw, run_seq_of_run hb]
  rfl

/-- If stepping over an enabled record raises nothing, its whole sequence went through. -/
private theorem stepped_of_run {table table' : Table} {bp : Breakpoint} {s' : Session κ}
    (h : table (s.tracee.regs.rip - 1) = some bp) (he : bp.enabled = true)
    (hr : env.run (stepOverBreakpoint table) s = some ((table', none), s')) :
    ∃ t, Stepped env (s.tracee.regs.rip - 1) bp s t := by
  let s₁ := (s.report bp).withRip (s.tracee.regs.rip - 1)
  let s₂ := s₁.withMem (s.tracee.mem.setByte bp.bpAddress bp.originalData)
  unfold stepOverBreakpoint at hr
  rw [run_seq_of_run (run_getProgramCounter env s)] at hr
  simp only [h, he, ite_true] at hr
  rw [run_seq_of_run (run_getBreakpointInfo env s bp)] at hr
  cases hi : env.info bp s.tracee with
  | some f =>
    simp only [hi, run_done] at hr
    cases hr
  | none =>
    simp only [hi] at hr
    rw [run_seq_of_run (run_setProgramCounter env (s.report bp) _)] at hr
    by_cases hd : s.tracee.mem.peekData bp.bpAddress = allOnes
    · rw [run_seq_of_run (bp.run_disableBreakpoint_raises env s₁ hd)] at hr
      simp at hr
    rw [run_seq_of_run (bp.run_disableBreakpoint env s₁ hd)] at hr
    simp only at hr
    obtain ⟨_, s₃, hs, hr⟩ := run_seq_eq_some env _ hr
    rw [run_resume, Option.map_eq_some_iff] at hs
    obtain ⟨t, ht, hs⟩ := hs
    cases hs
    obtain ⟨_, s₄, hw, hr⟩ := run_seq_eq_some env _ hr
    obtain ⟨hwr, hs⟩ := (run_waitForSignal_iff env _).mp hw
    cases hs
    by_cases hb : t.mem.peekData bp.bpAddress = allOnes
    · have he := bp.disarmed.run_enableBreakpoint_raises env (s₂.withTracee t) hb
      change env.run (bp.disarmed.enableBreakpoint >>= _) (s₂.withTracee t) = _ at hr
      rw [run_seq_of_run he] at hr
      simp at hr
    exact ⟨t, hi, hd, ht, hwr, hb⟩

/-- A call of `step_over_breakpoint` returns without an exception exactly as `StepOver` says:
it does nothing without an enabled record behind the program counter, and otherwise goes
through the whole sequence of report, rewind, disarm, single step and re-arm. -/
theorem run_stepOverBreakpoint_iff {table table' : Table} {s' : Session κ} :
    env.run (stepOverBreakpoint table) s = some ((table', none), s') ↔
      StepOver env table s table' s' := by
  constructor
  · intro hr
    have h := hr
    unfold stepOverBreakpoint at h
    rw [run_seq_of_run (run_getProgramCounter env s)] at h
    cases hl : table (s.tracee.regs.rip - 1) with
    | none =>
      simp only [hl, run_done] at h
      cases h
      exact .absent hl
    | some bp =>
      simp only [hl] at h
      cases he : bp.enabled with
      | false =>
        simp only [he, Bool.false_eq_true, ite_false, run_done] at h
        cases h
        exact .disabled hl he
      | true =>
        obtain ⟨t, hs⟩ := stepped_of_run env s hl he hr
        have hh := (run_hit env s hl he hs).symm.trans hr
        cases hh
        exact .hit hl he hs
  · intro h
    cases h with
    | absent h =>
      unfold stepOverBreakpoint
      rw [run_seq_of_run (run_getProgramCounter env s)]
      simp only [h, run_done]
    | disabled h hd =>
      unfold stepOverBreakpoint
      rw [run_seq_of_run (run_getProgramCounter env s)]
      simp only [h, hd, Bool.false_eq_true, ite_false, run_done]
    | hit h he hs => exact run_hit env s h he hs

end ArgsDebugger
