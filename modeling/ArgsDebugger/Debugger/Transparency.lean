import ArgsDebugger.Debugger.SetBreakpoints
import ArgsDebugger.Lib.Loop
import Mathlib.Logic.Function.Iterate

/-!
# The debugged run and the native run

`Debugger::continue_execution`, `src/debugger_manager.cc:123–129`, on a debuggee that is
given by one abstract instruction step. The native machine executes instruction after
instruction; the debugged one runs on the patched memory until an `int3` stops it and the
debugger steps over the breakpoint. Under the conditions collected in `Undisturbed` the
debugged machine passes through the native states, shown through the overlay of the table,
and reports exactly the breakpoints at the instructions it passes.
-/

namespace ArgsDebugger

open Lib

variable {κ : Type}

/-- The process with other memory contents. -/
def Tracee.withBytes (t : Tracee κ) (bytes : Word → Byte) : Tracee κ :=
  { t with mem := { t.mem with bytes } }

/-- The process with its program counter moved. -/
def Tracee.withRip (t : Tracee κ) (pc : Word) : Tracee κ :=
  { t with regs := { t.regs with rip := pc } }

/-- One thread of native execution. `exec` executes the instruction at the program counter,
whose encoding has `length` bytes, which reads the bytes `reads` as data and writes the
bytes `writes`. The laws say that these are all the memory it depends on and changes. -/
structure Cpu (κ : Type) where
  exec : Tracee κ → Tracee κ
  length : Tracee κ → Nat
  reads : Tracee κ → Word → Prop
  writes : Tracee κ → Word → Prop
  frame : ∀ t x, ¬ writes t x → (exec t).mem.bytes x = t.mem.bytes x
  footprint : ∀ t bytes,
    (∀ k, k < length t → bytes (t.regs.rip + BitVec.ofNat 64 k) =
      t.mem.bytes (t.regs.rip + BitVec.ofNat 64 k)) →
    (∀ x, reads t x → bytes x = t.mem.bytes x) →
    (exec (t.withBytes bytes)).regs = (exec t).regs ∧
      (exec (t.withBytes bytes)).rest = (exec t).rest ∧
      (exec (t.withBytes bytes)).mem.readable = (exec t).mem.readable ∧
      ∀ x, (writes (t.withBytes bytes) x ↔ writes t x) ∧
        (writes t x → (exec (t.withBytes bytes)).mem.bytes x = (exec t).mem.bytes x)

/-- The process as the debugger leaves it: every armed byte is an `int3`. -/
def Tracee.shown (t : Tracee κ) (armed : Word → Bool) : Tracee κ :=
  t.withBytes (overlay int3 armed t.mem.bytes)

namespace Cpu

variable (cpu : Cpu κ)

/-- Native execution of `n` instructions. -/
def native (t : Tracee κ) (n : Nat) : Tracee κ := cpu.exec^[n] t

theorem native_succ (t : Tracee κ) (n : Nat) :
    cpu.native t (n + 1) = cpu.exec (cpu.native t n) := Function.iterate_succ_apply' ..

/-- An instruction none of whose bytes, read or written, is armed has the same effect below
the overlay. -/
theorem exec_shown {t : Tracee κ} {armed : Word → Bool}
    (hfetch : ∀ k, k < cpu.length t → armed (t.regs.rip + BitVec.ofNat 64 k) = false)
    (hreads : ∀ x, cpu.reads t x → armed x = false)
    (hwrites : ∀ x, cpu.writes t x → armed x = false) :
    cpu.exec (t.shown armed) = (cpu.exec t).shown armed := by
  obtain ⟨hregs, hrest, hreadable, hbytes⟩ :=
    cpu.footprint t (overlay int3 armed t.mem.bytes)
      (fun k hk ↦ overlay_of_not_armed (hfetch k hk))
      (fun x hx ↦ overlay_of_not_armed (hreads x hx))
  have hmem : (cpu.exec (t.shown armed)).mem.bytes =
      overlay int3 armed (cpu.exec t).mem.bytes := by
    funext x
    obtain ⟨hiff, hw⟩ := hbytes x
    by_cases hx : cpu.writes t x
    · rw [overlay_of_not_armed (hwrites x hx)]
      exact hw hx
    · have hframe := cpu.frame (t.shown armed) x (fun h ↦ hx (hiff.mp h))
      rw [hframe]
      change overlay int3 armed t.mem.bytes x = _
      simp only [overlay, cpu.frame t x hx]
  change (⟨(cpu.exec (t.withBytes _)).regs, (cpu.exec (t.withBytes _)).rest,
    ⟨(cpu.exec (t.shown armed)).mem.bytes, (cpu.exec (t.withBytes _)).mem.readable⟩⟩ :
    Tracee κ) = _
  rw [hregs, hrest, hreadable, hmem]
  rfl

/-- The hardware on one instruction: an `int3` traps with the program counter behind it,
everything else is executed. -/
def advance (t : Tracee κ) : Tracee κ ⊕ Tracee κ :=
  if t.mem.bytes t.regs.rip = int3 then .inl (t.withRip (t.regs.rip + 1)) else .inr (cpu.exec t)

/-- The surroundings of the debugger on this machine: `PTRACE_CONT` runs to the next `int3`,
within a budget of instructions, `PTRACE_SINGLESTEP` runs one instruction, and either stops
the process by `SIGTRAP`. -/
def environment (info : Breakpoint → Tracee κ → Option Failure) (fuel : Nat) :
    Environment κ where
  resume
    | .cont, t => Loop.run cpu.advance fuel t
    | .singleStep, t => some ((cpu.advance t).elim id id)
  status _ := sigtrapStop
  info := info

end Cpu

/-- Where the loop of `continue_execution` is: inside `waitpid` after `PTRACE_CONT`, or back
from it with the debuggee stopped. -/
inductive Phase where
  | resumed | stopped
  deriving DecidableEq, Repr

/-- The debugged machine. -/
structure Debugged (κ : Type) where
  session : Session κ
  table : Table
  phase : Phase

/-- One move of the debugged machine: an instruction of the resumed debuggee, or the call of
`step_over_breakpoint` and the next `PTRACE_CONT`. An exception or an exit ends the loop. -/
def Debugged.step (cpu : Cpu κ) (info : Breakpoint → Tracee κ → Option Failure) (fuel : Nat)
    (d : Debugged κ) : Option (Debugged κ) :=
  match d.phase with
  | .resumed =>
    match cpu.advance d.session.tracee with
    | .inl t => some ⟨d.session.withTracee t, d.table, .stopped⟩
    | .inr t => some ⟨d.session.withTracee t, d.table, .resumed⟩
  | .stopped =>
    match (cpu.environment info fuel).run (stepOverBreakpoint d.table) d.session with
    | some ((table, none), s) => some ⟨s, table, .resumed⟩
    | _ => none

/-- Several moves of the debugged machine. -/
def Debugged.steps (cpu : Cpu κ) (info : Breakpoint → Tracee κ → Option Failure) (fuel : Nat) :
    Nat → Debugged κ → Option (Debugged κ)
  | 0, d => some d
  | n + 1, d => (Debugged.steps cpu info fuel n d).bind (Debugged.step cpu info fuel)

/-- The breakpoints at the first `n` instructions of a native run. -/
def Cpu.hits (cpu : Cpu κ) (table : Table) (t : Tracee κ) (n : Nat) : List Breakpoint :=
  (List.range n).filterMap fun i ↦ table (cpu.native t i).regs.rip

/-- What the native instruction at hand must satisfy for the table: no breakpoint inside its
encoding, none among the bytes it reads or writes, not an `int3` of the program's own, and,
at a breakpoint, no exception of the report, the disarming or the re-arming. -/
structure Undisturbed (cpu : Cpu κ) (info : Breakpoint → Tracee κ → Option Failure)
    (table : Table) (t : Tracee κ) : Prop where
  inside : ∀ k, 0 < k → k < cpu.length t → table (t.regs.rip + BitVec.ofNat 64 k) = none
  data : ∀ a, (table a).isSome = true → ¬ cpu.reads t a ∧ ¬ cpu.writes t a
  noInt3 : t.mem.bytes t.regs.rip ≠ int3
  quiet : ∀ bp, table t.regs.rip = some bp →
    info bp ((t.shown table.armedAt).withRip (t.regs.rip + 1)) = none ∧
      (t.shown table.armedAt).mem.peekData t.regs.rip ≠ allOnes ∧
      ((cpu.exec t).shown (table.set t.regs.rip bp.disarmed).armedAt).mem.peekData t.regs.rip ≠
        allOnes

/-- The table as `set_breakpoint` leaves it over the memory of the process: every record is
enabled, keyed by its address, and saves the byte there. -/
def Table.Installed (table : Table) (t : Tracee κ) : Prop :=
  ∀ a bp, table a = some bp →
    bp.bpAddress = a ∧ bp.originalData = t.mem.bytes a ∧ bp.enabled = true

section Simulation

variable {cpu : Cpu κ} {info : Breakpoint → Tracee κ → Option Failure} {table : Table}
  {t : Tracee κ} {reports : List Breakpoint}

/-- The debugged machine inside `waitpid`, over a native state. -/
def Table.resumedAt (table : Table) (t : Tracee κ) (reports : List Breakpoint) : Debugged κ :=
  ⟨⟨t.shown table.armedAt, reports⟩, table, .resumed⟩

theorem Table.Installed.armedAt (h : table.Installed t) (a : Word) :
    table.armedAt a = (table a).isSome := by
  cases ha : table a with
  | none => simp only [Table.armedAt, ha, Option.isSome_none]
  | some bp => rw [Table.armedAt_of_eq ha, (h a bp ha).2.2, Option.isSome_some]

/-- A native instruction that writes no breakpoint byte leaves the table installed. -/
theorem Table.Installed.exec (h : table.Installed t) (hu : Undisturbed cpu info table t) :
    table.Installed (cpu.exec t) := by
  intro a bp ha
  obtain ⟨hk, hs, he⟩ := h a bp ha
  refine ⟨hk, ?_, he⟩
  rw [hs, cpu.frame t a (hu.data a (by rw [ha]; rfl)).2]

/-- With the byte at the program counter and nothing outside the table armed, the native
instruction has its effect below the overlay. -/
private theorem exec_shown_of_undisturbed (hu : Undisturbed cpu info table t)
    {armed : Word → Bool} (hle : ∀ x, armed x = true → (table x).isSome = true)
    (hrip : armed t.regs.rip = false) :
    cpu.exec (t.shown armed) = (cpu.exec t).shown armed := by
  have hnone (x : Word) (hx : table x = none) : armed x = false := by
    by_contra hc
    have hs := hle x (by simpa using hc)
    simp [hx] at hs
  have hdata (x : Word) (hx : cpu.reads t x ∨ cpu.writes t x) : armed x = false := by
    by_contra hc
    have hd := hu.data x (hle x (by simpa using hc))
    exact hx.elim hd.1 hd.2
  apply cpu.exec_shown
  · intro k hk
    cases k with
    | zero => simpa using hrip
    | succ k => exact hnone _ (hu.inside (k + 1) (by omega) hk)
  · exact fun x hx ↦ hdata x (.inl hx)
  · exact fun x hx ↦ hdata x (.inr hx)

/-- Where the byte at the program counter is not armed, the hardware executes the native
instruction below the overlay. -/
private theorem advance_shown (hu : Undisturbed cpu info table t)
    {armed : Word → Bool} (hle : ∀ x, armed x = true → (table x).isSome = true)
    (hrip : armed t.regs.rip = false) :
    cpu.advance (t.shown armed) = .inr ((cpu.exec t).shown armed) := by
  have hbyte : (t.shown armed).mem.bytes t.regs.rip = t.mem.bytes t.regs.rip :=
    overlay_of_not_armed hrip
  rw [← exec_shown_of_undisturbed hu hle hrip]
  exact if_neg (fun h ↦ hu.noInt3 (hbyte.symm.trans h))

/-- Between breakpoints the resumed debuggee executes the native instruction. -/
theorem step_resumed_free (hi : table.Installed t) (hu : Undisturbed cpu info table t)
    (hn : table t.regs.rip = none) (fuel : Nat) :
    Debugged.step cpu info fuel (table.resumedAt t reports) =
      some (table.resumedAt (cpu.exec t) reports) := by
  have hadv : cpu.advance (t.shown table.armedAt) = .inr ((cpu.exec t).shown table.armedAt) :=
    advance_shown hu (fun x hx ↦ by rwa [← hi.armedAt]) (by rw [hi.armedAt, hn]; rfl)
  simp only [Debugged.step, Table.resumedAt, hadv]
  rfl

/-- At a breakpoint the resumed debuggee traps behind the `int3`. -/
theorem step_resumed_hit {bp : Breakpoint} (hi : table.Installed t)
    (hb : table t.regs.rip = some bp) (fuel : Nat) :
    Debugged.step cpu info fuel (table.resumedAt t reports) =
      some ⟨⟨(t.shown table.armedAt).withRip (t.regs.rip + 1), reports⟩, table, .stopped⟩ := by
  have hbyte : (t.shown table.armedAt).mem.bytes t.regs.rip = int3 :=
    overlay_of_armed (by rw [hi.armedAt, hb]; rfl)
  have hadv : cpu.advance (t.shown table.armedAt) =
      .inl ((t.shown table.armedAt).withRip (t.regs.rip + 1)) := if_pos hbyte
  simp only [Debugged.step, Table.resumedAt, hadv]
  rfl

/-- Stepping over the breakpoint executes the native instruction, reports the record, and
leaves the table as it was. -/
theorem step_stopped {bp : Breakpoint} (hi : table.Installed t)
    (hu : Undisturbed cpu info table t) (hb : table t.regs.rip = some bp) (fuel : Nat) :
    Debugged.step cpu info fuel
      ⟨⟨(t.shown table.armedAt).withRip (t.regs.rip + 1), reports⟩, table, .stopped⟩ =
      some (table.resumedAt (cpu.exec t) (reports ++ [bp])) := by
  obtain ⟨hk, hs, he⟩ := hi _ bp hb
  obtain ⟨hinfo, hdisarm, hrearm⟩ := hu.quiet bp hb
  let a := t.regs.rip
  let armed := (table.set a bp.disarmed).armedAt
  let stopped : Session κ := ⟨(t.shown table.armedAt).withRip (a + 1), reports⟩
  have harmed : armed = Function.update table.armedAt a false := table.armedAt_set a bp.disarmed
  have ha : table.armedAt a = true := by rw [hi.armedAt, hb]; rfl
  have hloc : stopped.tracee.regs.rip - 1 = a := BitVec.add_sub_cancel a 1
  -- Rewinding and disarming leave the native state, shown through the other breakpoints.
  have hshown : ((stopped.withRip a).withMem
      (stopped.tracee.mem.setByte bp.bpAddress bp.originalData)).tracee = t.shown armed := by
    change t.withBytes (Function.update (overlay int3 table.armedAt t.mem.bytes)
      bp.bpAddress bp.originalData) = _
    rw [hk, hs, update_overlay_disarm, ← harmed]
    rfl
  have hadv : cpu.advance (t.shown armed) = .inr ((cpu.exec t).shown armed) := by
    apply advance_shown hu
    · intro x hx
      rw [← hi.armedAt]
      by_cases hxa : x = a
      · rw [hxa, ha]
      · rwa [harmed, Function.update_of_ne hxa] at hx
    · rw [harmed, Function.update_self]
  have hstepped : Stepped (cpu.environment info fuel) a bp stopped ((cpu.exec t).shown armed) := by
    refine ⟨hinfo, by rwa [hk], ?_, fun _ ↦ (by decide : wstopsig sigtrapStop = 5), by rwa [hk]⟩
    rw [hshown]
    change some ((cpu.advance (t.shown armed)).elim id id) = _
    rw [hadv]
    rfl
  have hrun := (run_stepOverBreakpoint_iff (cpu.environment info fuel) stopped).mpr
    (.hit (by rw [hloc]; exact hb) he (by rw [hloc]; exact hstepped))
  -- Re-arming restores the record and the overlay of the table.
  have htable : table.set a (bp.armed ((cpu.exec t).shown armed).mem) = table := by
    have hsame : bp.armed ((cpu.exec t).shown armed).mem = bp := by
      have hbyte : ((cpu.exec t).shown armed).mem.bytes bp.bpAddress = bp.originalData := by
        rw [hk, hs, ← cpu.frame t a (hu.data a (by rw [hb]; rfl)).2]
        exact overlay_of_not_armed (by rw [harmed, Function.update_self])
      rw [Breakpoint.armed, hbyte, ← he]
    rw [hsame, Table.set, ← hb]
    exact Function.update_eq_self a table
  have hmem : ((cpu.exec t).shown armed).mem.setByte bp.bpAddress int3 =
      ((cpu.exec t).shown table.armedAt).mem := by
    change (⟨Function.update (overlay int3 armed (cpu.exec t).mem.bytes) bp.bpAddress int3,
      (cpu.exec t).mem.readable⟩ : Memory) = _
    rw [hk, update_overlay_arm, harmed, Function.update_idem, ← ha, Function.update_eq_self]
    rfl
  rw [hloc, htable, hmem] at hrun
  simp only [Debugged.step]
  rw [hrun]
  rfl

/-- One native instruction takes the debugged machine from one boundary to the next, in one
move, or in two when the instruction stands at a breakpoint. -/
theorem steps_boundary (hi : table.Installed t) (hu : Undisturbed cpu info table t)
    (fuel : Nat) :
    Debugged.steps cpu info fuel (1 + (table t.regs.rip).toList.length)
        (table.resumedAt t reports) =
      some (table.resumedAt (cpu.exec t) (reports ++ (table t.regs.rip).toList)) := by
  cases hb : table t.regs.rip with
  | none =>
    simp only [Option.toList_none, List.length_nil, List.append_nil]
    exact step_resumed_free hi hu hb fuel
  | some bp =>
    simp only [Option.toList_some, List.length_singleton]
    change (Debugged.step cpu info fuel (table.resumedAt t reports)).bind _ = _
    rw [step_resumed_hit hi hb fuel]
    exact step_stopped hi hu hb fuel

end Simulation

theorem Debugged.steps_add (cpu : Cpu κ) (info : Breakpoint → Tracee κ → Option Failure)
    (fuel n k : Nat) (d : Debugged κ) :
    steps cpu info fuel (n + k) d = (steps cpu info fuel n d).bind (steps cpu info fuel k) := by
  induction k with
  | zero => simp [steps]
  | succ k ih =>
    rw [Nat.add_succ, steps, ih, Option.bind_assoc]
    rfl

/-- `PTRACE_CONT` is the moves of the resumed debuggee up to its next stop. -/
theorem Debugged.steps_of_cont (cpu : Cpu κ) (info : Breakpoint → Tracee κ → Option Failure)
    (fuel : Nat) {budget : Nat} {t t' : Tracee κ} {table : Table} {reports : List Breakpoint}
    (h : Loop.run cpu.advance budget t = some t') :
    ∃ k, 1 ≤ k ∧ steps cpu info fuel k ⟨⟨t, reports⟩, table, .resumed⟩ =
      some ⟨⟨t', reports⟩, table, .stopped⟩ := by
  induction budget generalizing t with
  | zero => cases h
  | succ budget ih =>
    cases hadv : cpu.advance t with
    | inl t₁ =>
      rw [Loop.run_succ_inl hadv] at h
      cases h
      refine ⟨1, le_rfl, ?_⟩
      simp only [steps, Option.bind_some, step, hadv]
      rfl
    | inr t₁ =>
      rw [Loop.run_succ_inr hadv] at h
      obtain ⟨k, -, hk⟩ := ih h
      refine ⟨1 + k, by omega, ?_⟩
      rw [steps_add]
      simp only [steps, Option.bind_some, step, hadv]
      exact hk

/-- An iteration of `continue_execution` that raises nothing is two moves or more, from one
boundary of the resumed debuggee to a later one: it runs to a stop and steps over it. -/
theorem Debugged.steps_of_continueIteration (cpu : Cpu κ)
    (info : Breakpoint → Tracee κ → Option Failure) (fuel : Nat) {s s' : Session κ}
    {table table' : Table}
    (h : (cpu.environment info fuel).run (continueIteration table) s =
      some ((table', none), s')) :
    ∃ k, 2 ≤ k ∧ steps cpu info fuel k ⟨s, table, .resumed⟩ = some ⟨s', table', .resumed⟩ := by
  obtain ⟨_, s₁, hcont, h⟩ := run_seq_eq_some _ _ h
  obtain ⟨_, s₂, hwait, h⟩ := run_seq_eq_some _ _ h
  have hs₂ := ((run_waitForSignal_iff _ s₁).mp hwait).2
  cases hs₂
  rw [run_resume] at hcont
  obtain ⟨t, hrun, ht⟩ := Option.map_eq_some_iff.mp hcont
  cases ht
  obtain ⟨k, hpos, hk⟩ : ∃ k, 1 ≤ k ∧ steps cpu info fuel k ⟨s, table, .resumed⟩ =
      some ⟨⟨t, s.reports⟩, table, .stopped⟩ := steps_of_cont cpu info fuel hrun
  refine ⟨k + 1, by omega, ?_⟩
  have hstep : step cpu info fuel ⟨⟨t, s.reports⟩, table, .stopped⟩ =
      some ⟨s', table', .resumed⟩ := by
    simp only [step]
    rw [show (⟨t, s.reports⟩ : Session κ) = s.withTracee t from rfl, h]
  rw [steps, hk]
  exact hstep

theorem Cpu.hits_succ (cpu : Cpu κ) (table : Table) (t : Tracee κ) (n : Nat) :
    cpu.hits table t (n + 1) =
      cpu.hits table t n ++ (table (cpu.native t n).regs.rip).toList := by
  rw [hits, List.range_succ, List.filterMap_append, hits]
  congr 1

/-- Simulation of a run: after `n` native instructions the debugged machine is at the `n`-th
boundary, in `n` moves and one more for each hit. -/
theorem steps_native {cpu : Cpu κ} {info : Breakpoint → Tracee κ → Option Failure}
    {table : Table} {t : Tracee κ} (hi : table.Installed t) (fuel n : Nat)
    (hu : ∀ i, i < n → Undisturbed cpu info table (cpu.native t i)) :
    table.Installed (cpu.native t n) ∧
      Debugged.steps cpu info fuel (n + (cpu.hits table t n).length) (table.resumedAt t []) =
        some (table.resumedAt (cpu.native t n) (cpu.hits table t n)) := by
  induction n with
  | zero => exact ⟨hi, rfl⟩
  | succ n ih =>
    obtain ⟨hin, hsteps⟩ := ih fun i h ↦ hu i (by omega)
    have hun := hu n (by omega)
    refine ⟨by rw [cpu.native_succ]; exact hin.exec hun, ?_⟩
    have hcount : n + 1 + (cpu.hits table t (n + 1)).length =
        (n + (cpu.hits table t n).length) +
          (1 + (table (cpu.native t n).regs.rip).toList.length) := by
      rw [cpu.hits_succ, List.length_append]
      omega
    rw [hcount, Debugged.steps_add, hsteps, cpu.native_succ, cpu.hits_succ]
    exact steps_boundary hin hun fuel

/-- The table of a sequence of `set_breakpoint` calls is installed over the memory before. -/
theorem installed_tableOf (t : Tracee κ) (rs : List SetRequest) :
    (tableOf t.mem.bytes rs).Installed t := by
  intro a bp h
  exact tableOf_spec t.mem.bytes rs h

/-- Transparency and exact reporting: let the breakpoints of `rs` be set on a process, and let
each of the first `n` native instructions be undisturbed by the table. Then at every native
boundary `i ≤ n` the debugged run has the native registers and remaining state, the native
memory with `int3` at exactly the addresses of the table, and has reported exactly the
records at the instructions passed, in order. -/
theorem debugged_run_transparent (cpu : Cpu κ)
    (info : Breakpoint → Tracee κ → Option Failure) (fuel : Nat) (rs : List SetRequest)
    (t : Tracee κ) (table : Table) (s : Session κ)
    (hset : (cpu.environment info fuel).run (setBreakpoints Table.empty rs) ⟨t, []⟩ =
      some ((table, none), s))
    (n : Nat) (hu : ∀ i, i < n → Undisturbed cpu info table (cpu.native t i)) :
    ∀ i, i ≤ n → ∃ d : Debugged κ,
      Debugged.steps cpu info fuel (i + (cpu.hits table t i).length) ⟨s, table, .resumed⟩ =
        some d ∧
      d.phase = .resumed ∧ d.table = table ∧
      d.session.tracee.regs = (cpu.native t i).regs ∧
      d.session.tracee.rest = (cpu.native t i).rest ∧
      d.session.tracee.mem.readable = (cpu.native t i).mem.readable ∧
      (∀ x, d.session.tracee.mem.bytes x =
        if (table x).isSome then int3 else (cpu.native t i).mem.bytes x) ∧
      d.session.reports = cpu.hits table t i := by
  intro i hin
  have hmem : (⟨t, []⟩ : Session κ).tracee.mem = t.mem.patched [] := t.mem.patched_nil.symm
  obtain ⟨-, rfl, rfl⟩ :=
    (run_setBreakpoints_iff (cpu.environment info fuel) hmem).mp hset
  simp only [List.nil_append] at hu ⊢
  have hi := installed_tableOf t rs
  have hstart : (tableOf t.mem.bytes rs).resumedAt t [] =
      ⟨(⟨t, []⟩ : Session κ).withMem (t.mem.patched rs), tableOf t.mem.bytes rs, .resumed⟩ := by
    have harmed : (tableOf t.mem.bytes rs).armedAt = requested rs :=
      funext fun a ↦ armedAt_tableOf t.mem.bytes rs a
    rw [Table.resumedAt, harmed]
    rfl
  have hsim := (steps_native hi fuel i fun j hj ↦ hu j (by omega)).2
  refine ⟨_, hstart ▸ hsim, rfl, rfl, rfl, rfl, rfl, ?_, rfl⟩
  intro x
  change overlay int3 _ _ x = _
  rw [overlay, hi.armedAt]

/-- A machine whose one instruction is the one-byte `nop`. -/
def sampleCpu : Cpu Unit where
  exec t := t.withRip (t.regs.rip + 1)
  length _ := 1
  reads _ _ := False
  writes _ _ := False
  frame _ _ _ := rfl
  footprint _ _ _ _ := ⟨rfl, rfl, rfl, fun _ ↦ ⟨Iff.rfl, False.elim⟩⟩

/-- Breakpoints at the first two instructions of the sample process. -/
def sampleRequests : List SetRequest :=
  [⟨"f".toList, 16, "function".toList, 0, 0⟩, ⟨"g".toList, 17, "function".toList, 0, 1⟩]

theorem undisturbed_sample (i : Nat) (hi : i < 3) :
    Undisturbed sampleCpu (fun _ _ ↦ none)
      (tableOf sampleSession.tracee.mem.bytes sampleRequests)
      (sampleCpu.native sampleSession.tracee i) where
  inside k h0 h1 := by
    have hk : k < 1 := h1
    omega
  data _ _ := ⟨id, id⟩
  noInt3 := by
    have h : ∀ j : Fin 3, (sampleCpu.native sampleSession.tracee j).mem.bytes
        (sampleCpu.native sampleSession.tracee j).regs.rip ≠ int3 := by decide
    exact h ⟨i, hi⟩
  quiet bp hb := by
    obtain rfl | rfl | rfl : i = 0 ∨ i = 1 ∨ i = 2 := by omega
    · cases hb
      exact ⟨rfl, by decide, by decide⟩
    · cases hb
      exact ⟨rfl, by decide, by decide⟩
    · cases hb

theorem run_setBreakpoints_sample (fuel : Nat) :
    ∃ s, (sampleCpu.environment (fun _ _ ↦ none) fuel).run
        (setBreakpoints Table.empty sampleRequests) ⟨sampleSession.tracee, []⟩ =
      some ((tableOf sampleSession.tracee.mem.bytes sampleRequests, none), s) := by
  have hpatch : Patchable sampleSession.tracee.mem [] sampleRequests := by
    rw [sampleRequests, patchable_cons, patchable_cons]
    exact ⟨fun _ ↦ by decide, fun _ ↦ by decide, Patchable.nil _ _⟩
  have hmem : sampleSession.tracee.mem = sampleSession.tracee.mem.patched [] := rfl
  exact ⟨_, (run_setBreakpoints_iff (sampleCpu.environment (fun _ _ ↦ none) fuel) hmem).mpr
    ⟨hpatch, rfl, rfl⟩⟩

/-- Two hits in a row: the single step over the first lands on the second. -/
theorem debugged_run_transparent_sample :
    ∃ d : Debugged Unit, d.session.tracee.regs.rip = 19 ∧
      d.session.tracee.mem.bytes 16 = int3 ∧ d.session.tracee.mem.bytes 18 = 0x90 ∧
      d.session.reports.map Breakpoint.bpName = ["f".toList, "g".toList] := by
  obtain ⟨s, hset⟩ := run_setBreakpoints_sample 0
  obtain ⟨d, -, -, -, hregs, -, -, hbytes, hreports⟩ :=
    debugged_run_transparent sampleCpu (fun _ _ ↦ none) 0 sampleRequests sampleSession.tracee
      _ _ hset 3 undisturbed_sample 3 le_rfl
  refine ⟨d, ?_, hbytes 16, hbytes 18, ?_⟩
  · rw [hregs]
    rfl
  · rw [hreports]
    rfl

end ArgsDebugger
