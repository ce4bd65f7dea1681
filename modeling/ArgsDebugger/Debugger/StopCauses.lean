import ArgsDebugger.Debugger.PatchInvariant

/-!
# What a stop is taken for

`Debugger::step_over_breakpoint`, `src/debugger_manager.cc:152–172`, sees of a stop only the
program counter. `WatchStep` is a debuggee that executes instructions, traps at an `int3`,
and may at any moment be stopped by a `SIGTRAP` from elsewhere; it remembers the cause of its
stop, which the debugger never asks for. A stop is handled as it should be exactly when no
such signal has stopped the debuggee right behind an armed address.
-/

namespace ArgsDebugger

open Lib

variable {κ : Type}

/-- Why the debuggee is stopped by `SIGTRAP`. -/
inductive StopCause where
  /-- It has executed the `int3` at the address. -/
  | int3At (a : Word)
  /-- The signal came from somewhere else. -/
  | foreign
  deriving DecidableEq, Repr

/-- The debuggee, the table, and the cause of the stop, if the debuggee is stopped. -/
structure Watched (κ : Type) where
  session : Session κ
  table : Table
  stop : Option StopCause

/-- One step of the debuggee, by the instructions `exec` where there is no `int3`, or of the
debugger that handles a stop, over surroundings that may be other ones each time. -/
inductive WatchStep (exec : Tracee κ → Tracee κ → Prop) : Watched κ → Watched κ → Prop
  | exec {s : Session κ} {table : Table} {t : Tracee κ}
      (hbyte : s.tracee.mem.bytes s.tracee.regs.rip ≠ int3) (h : exec s.tracee t) :
      WatchStep exec ⟨s, table, none⟩ ⟨s.withTracee t, table, none⟩
  | trap {s : Session κ} {table : Table}
      (hbyte : s.tracee.mem.bytes s.tracee.regs.rip = int3) :
      WatchStep exec ⟨s, table, none⟩
        ⟨s.withRip (s.tracee.regs.rip + 1), table, some (.int3At s.tracee.regs.rip)⟩
  | signal {s : Session κ} {table : Table} :
      WatchStep exec ⟨s, table, none⟩ ⟨s, table, some .foreign⟩
  | handle {s s' : Session κ} {table table' : Table} {cause : StopCause} (env : Environment κ)
      (h : env.run (stepOverBreakpoint table) s = some ((table', none), s')) :
      WatchStep exec ⟨s, table, some cause⟩ ⟨s', table', none⟩

/-- The debuggee has stopped because it executed the `int3` installed behind its program
counter. -/
def RealHit (table : Table) (s : Session κ) (cause : StopCause) : Prop :=
  table.armedAt (s.tracee.regs.rip - 1) = true ∧ cause = .int3At (s.tracee.regs.rip - 1)

/-- What is expected of `step_over_breakpoint` at a stop: a breakpoint is reported and the
program counter moved back at a real hit only, and otherwise nothing changes. -/
structure OnlyRealHits (env : Environment κ) (table : Table) (s : Session κ)
    (cause : StopCause) : Prop where
  reports : (∃ bp, .getBreakpointInfo bp ∈ env.requests (stepOverBreakpoint table) s) ↔
    RealHit table s cause
  rewinds : .setRegs { s.tracee.regs with rip := s.tracee.regs.rip - 1 } ∈
    env.requests (stepOverBreakpoint table) s ↔ RealHit table s cause
  unchanged : ¬ RealHit table s cause →
    env.run (stepOverBreakpoint table) s = some ((table, none), s)

section Handling

variable {env : Environment κ} {table : Table} {s : Session κ} {bp : Breakpoint}

variable (env) in
/-- Without an enabled record behind the program counter the debugger only reads registers. -/
theorem requests_of_not_armedAt (h : table.armedAt (s.tracee.regs.rip - 1) = false) :
    env.requests (stepOverBreakpoint table) s = [.getRegs] ∧
      env.run (stepOverBreakpoint table) s = some ((table, none), s) := by
  unfold stepOverBreakpoint
  rw [requests_seq_of_run (run_getProgramCounter env s),
    run_seq_of_run (run_getProgramCounter env s)]
  unfold Table.armedAt at h
  split at h
  · next bp hbp =>
    simp only [hbp, h]
    exact ⟨rfl, rfl⟩
  · next hnone =>
    simp only [hnone]
    exact ⟨rfl, rfl⟩

variable (env) in
/-- With one it reports it, and rewinds when the report raises nothing. -/
theorem requests_of_enabled (h : table (s.tracee.regs.rip - 1) = some bp)
    (he : bp.enabled = true) :
    ∃ later, env.requests (stepOverBreakpoint table) s =
        .getRegs :: .getBreakpointInfo bp :: later ∧
      (env.info bp s.tracee = none → ∃ rest, later = .getRegs ::
        .setRegs { s.tracee.regs with rip := s.tracee.regs.rip - 1 } :: rest) ∧
      (env.info bp s.tracee ≠ none → later = []) := by
  unfold stepOverBreakpoint
  rw [requests_seq_of_run (run_getProgramCounter env s)]
  simp only [h, he, if_true]
  rw [requests_seq_of_run (run_getBreakpointInfo env s bp)]
  refine ⟨_, rfl, ?_, ?_⟩
  · intro hinfo
    rw [hinfo]
    dsimp only
    rw [requests_seq_of_run (run_setProgramCounter env _ _)]
    exact ⟨_, rfl⟩
  · intro hinfo
    obtain ⟨f, hf⟩ := Option.ne_none_iff_exists'.mp hinfo
    rw [hf]
    rfl

/-- A stop is handled as it should be when an enabled record behind the program counter is
there because its `int3` was executed, and the report raises nothing. -/
theorem onlyRealHits_iff {cause : StopCause} :
    OnlyRealHits env table s cause ↔
      (table.armedAt (s.tracee.regs.rip - 1) = true →
        cause = .int3At (s.tracee.regs.rip - 1) ∧
          ∀ bp, table (s.tracee.regs.rip - 1) = some bp → env.info bp s.tracee = none) := by
  cases harmed : table.armedAt (s.tracee.regs.rip - 1) with
  | false =>
    obtain ⟨hrequests, hrun⟩ := requests_of_not_armedAt env harmed
    have hunreal : ¬ RealHit table s cause := by
      intro hreal
      rw [hreal.1] at harmed
      cases harmed
    simp only [Bool.false_eq_true, false_implies, iff_true]
    refine ⟨?_, ?_, fun _ ↦ hrun⟩
    · simp [hrequests, hunreal]
    · simp [hrequests, hunreal]
  | true =>
    obtain ⟨bp, hbp, he⟩ : ∃ bp, table (s.tracee.regs.rip - 1) = some bp ∧ bp.enabled = true := by
      unfold Table.armedAt at harmed
      split at harmed
      · next bp hbp => exact ⟨bp, hbp, harmed⟩
      · cases harmed
    obtain ⟨later, hrequests, hreturns, hraises⟩ := requests_of_enabled env hbp he
    have hreal : RealHit table s cause ↔ cause = .int3At (s.tracee.regs.rip - 1) := by
      simp only [RealHit, harmed, true_and]
    simp only [forall_const, hbp, Option.some.injEq, forall_eq']
    constructor
    · intro h
      have hcause : RealHit table s cause := h.reports.mp ⟨bp, by simp [hrequests]⟩
      refine ⟨hreal.mp hcause, ?_⟩
      by_contra hinfo
      have hmoved := h.rewinds.mpr hcause
      rw [hrequests, hraises hinfo] at hmoved
      simp at hmoved
    · rintro ⟨hcause, hinfo⟩
      obtain ⟨rest, rfl⟩ := hreturns hinfo
      have hit := hreal.mpr hcause
      refine ⟨?_, ?_, fun hno ↦ absurd hit hno⟩
      · exact iff_of_true ⟨bp, by simp [hrequests]⟩ hit
      · exact iff_of_true (by simp [hrequests]) hit

end Handling

/-- At a stop by an `int3` the program counter is behind it. -/
def Watched.Behind (d : Watched κ) : Prop :=
  ∀ a, d.stop = some (.int3At a) → d.session.tracee.regs.rip = a + 1

/-- One step keeps that. -/
theorem WatchStep.behind {exec : Tracee κ → Tracee κ → Prop} {d d' : Watched κ}
    (h : WatchStep exec d d') : d'.Behind := by
  intro a ha
  cases h with
  | exec => cases ha
  | trap hbyte =>
    cases ha
    rfl
  | signal => cases ha
  | handle => cases ha

/-- Whatever signals the debuggee gets: at every stop of a run the call of
`step_over_breakpoint` reports and rewinds a real hit, and only that, exactly when an enabled
record behind the program counter means that no foreign signal is the cause, and the report of
that record raises nothing. -/
theorem onlyRealHits_of_run_iff (exec : Tracee κ → Tracee κ → Prop) (s₀ : Session κ)
    (table₀ : Table) {d : Watched κ}
    (hrun : Relation.ReflTransGen (WatchStep exec) ⟨s₀, table₀, none⟩ d) {cause : StopCause}
    (hstop : d.stop = some cause) (env : Environment κ) :
    OnlyRealHits env d.table d.session cause ↔
      (d.table.armedAt (d.session.tracee.regs.rip - 1) = true →
        cause ≠ .foreign ∧ ∀ bp, d.table (d.session.tracee.regs.rip - 1) = some bp →
          env.info bp d.session.tracee = none) := by
  have hbehind : d.Behind := by
    cases hrun with
    | refl => cases hstop
    | tail _ hstep => exact hstep.behind
  rw [onlyRealHits_iff]
  have hcause : cause = .int3At (d.session.tracee.regs.rip - 1) ↔ cause ≠ .foreign := by
    cases cause with
    | foreign => simp
    | int3At a =>
      have hpc : d.session.tracee.regs.rip - 1 = a := by
        rw [hbehind a hstop]
        exact BitVec.add_sub_cancel a 1
      rw [hpc]
      simp
  rw [hcause]

/-- The record of the sample process at its first address. -/
def sampleRecord : Breakpoint := ⟨"function_call".toList, "f".toList, 16, 0x90, true, 0, 0⟩

/-- The process with that breakpoint set, inside `waitpid`. -/
def sampleWatched : Watched Unit :=
  ⟨sampleSession.withMem (sampleSession.tracee.mem.setByte 16 int3),
    Table.empty.set 16 sampleRecord, none⟩

/-- The `nop` of the sample process. -/
def sampleExec (t : Tracee Unit) : Tracee Unit :=
  { t with regs := { t.regs with rip := t.regs.rip + 1 } }

/-- The breakpoint is hit and stepped over, and a signal arrives at the address behind it: it is
reported once more. -/
theorem foreign_signal_taken_for_hit :
    ¬ ∀ (exec : Tracee Unit → Tracee Unit → Prop) (s₀ : Session Unit) (table₀ : Table)
      (d : Watched Unit), Relation.ReflTransGen (WatchStep exec) ⟨s₀, table₀, none⟩ d →
      ∀ cause, d.stop = some cause → ∀ env : Environment Unit,
        OnlyRealHits env d.table d.session cause := by
  intro h
  let env : Environment Unit := ⟨fun _ t ↦ some (sampleExec t), fun _ ↦ sigtrapStop, fun _ _ ↦ none⟩
  let s₁ := sampleWatched.session.withRip 17
  let t := sampleExec ((s₁.withRip 16).withMem (s₁.tracee.mem.setByte 16 0x90)).tracee
  have hloc : s₁.tracee.regs.rip - 1 = 16 := by decide
  have hrecord : sampleWatched.table (s₁.tracee.regs.rip - 1) = some sampleRecord := by
    rw [hloc]
    exact Table.empty.set_self 16 sampleRecord
  have hstepped : Stepped env (s₁.tracee.regs.rip - 1) sampleRecord s₁ t := by
    rw [hloc]
    exact ⟨rfl, by decide, rfl, fun _ ↦ by decide, by decide⟩
  have htrap : WatchStep (fun t t' ↦ t' = sampleExec t) sampleWatched
      ⟨s₁, sampleWatched.table, some (.int3At 16)⟩ := .trap rfl
  have hhandle : WatchStep (fun t t' ↦ t' = sampleExec t)
      ⟨s₁, sampleWatched.table, some (.int3At 16)⟩ ⟨_, _, none⟩ :=
    .handle env ((run_stepOverBreakpoint_iff env s₁).mpr (.hit hrecord rfl hstepped))
  have hall := h _ _ _ _ (((Relation.ReflTransGen.single htrap).tail hhandle).tail .signal)
    .foreign rfl env
  have hcause := (onlyRealHits_iff.mp hall (by decide)).1
  cases hcause

/-- A real hit of the sample process is handled as it should be. -/
theorem onlyRealHits_of_run_iff_sample :
    OnlyRealHits sampleEnvironment sampleWatched.table (sampleWatched.session.withRip 17)
      (.int3At 16) := by
  have htrap : WatchStep (fun t t' ↦ t' = sampleExec t) sampleWatched
      ⟨sampleWatched.session.withRip 17, sampleWatched.table, some (.int3At 16)⟩ := .trap rfl
  exact (onlyRealHits_of_run_iff _ _ _ (.single htrap) rfl sampleEnvironment).mpr
    fun _ ↦ ⟨nofun, fun _ _ ↦ rfl⟩

end ArgsDebugger
