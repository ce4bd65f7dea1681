import ArgsDebugger.Debugger.Functions
import ArgsDebugger.Debugger.StepOver
import ArgsDebugger.Lib.Dialogue

/-!
# A run of the debugger and the end of its child

`Debugger::run` and `Debugger::continue_execution`, `src/debugger_manager.cc:104–129`, against
a kernel that answers anything, in particular any status at any `waitpid`. The test for an
ended child in `wait_for_signal` stands where the status reports a stop, so that no run comes
to it: the debugger never reports the end of its child, and asks for more.
-/

namespace ArgsDebugger

open Lib Lib.Program

/-- `Debugger::continue_execution`, `src/debugger_manager.cc:123–129`, up to a number of rounds
of the loop. -/
def continueExecution : Nat → Table → Dbg (Table × Option Failure)
  | 0, table => return (table, none)
  | rounds + 1, table => do
    let (table, raised) ← continueIteration table
    match raised with
    | some f => return (table, some f)
    | none => continueExecution rounds table

/-- `Debugger::run`, `src/debugger_manager.cc:104–121`, with the symbols and units that are read
from the program's file. -/
def run (debugInfo : Bool) (symbolsMap : Word → Option Symbol) (units : List CompileUnit)
    (rounds : Nat) : Dbg (Table × Option Failure) := do
  waitForSignal
  if debugInfo then
    let (table, raised) ← setAllFunctionBreakpoints symbolsMap units Table.empty
    match raised with
    | some f => return (table, some f)
    | none => continueExecution rounds table
  else
    exit .noSymbols

/-- The status reports that the child has exited, or that a signal has killed it. -/
def Ended (status : WaitStatus) : Prop := wifexited status = true ∨ wifsignaled status = true

instance (status : WaitStatus) : Decidable (Ended status) := inferInstanceAs (Decidable (_ ∨ _))

/-- A request to the kernel about the child. -/
def Request.IsPtrace : Request → Prop
  | .getRegs | .setRegs _ | .peekData _ | .pokeData _ _ | .resume _ => True
  | .waitpid | .getBreakpointInfo _ | .exit _ => False

/-- What is expected of a debugger that is at `q` after a dialogue: if a status has reported the
end of the child, it was the last answer, and now the end is reported. -/
def StopsAtEnd {α : Type} (events : List (Event Request Answer)) (q : Dbg α) : Prop :=
  ∀ pre status post, events = pre ++ ⟨.waitpid, status⟩ :: post → Ended status →
    post = [] ∧ q.next? = some (.exit .terminated)

/-- A child that has ended is not stopped. -/
theorem not_wifstopped_of_ended {status : WaitStatus} (h : Ended status) :
    wifstopped status = false := by
  simp only [Ended, wifexited, wifsignaled, wtermsig, wifstopped, Bool.and_eq_true, bne_iff_ne,
    beq_iff_eq, beq_eq_false_iff_ne] at h ⊢
  omega

/-- A request that neither waits nor reports the end of the child. -/
def Request.Plain (r : Request) : Prop := r ≠ .waitpid ∧ r ≠ .exit .terminated

/-- A status has reported the end of the child. -/
def EndedEvent (e : Event Request Answer) : Prop :=
  ∃ status, e = ⟨.waitpid, status⟩ ∧ Ended status

/-- The next request is about the child. -/
def Asks {α : Type} (q : Dbg α) : Prop := ∃ r, q.next? = some r ∧ r.IsPtrace

section Plain

variable (bp : Breakpoint) (table : Table)

theorem plain_getBreakpointInfo : (getBreakpointInfo bp).AllRequests Request.Plain :=
  ⟨⟨nofun, nofun⟩, fun _ ↦ trivial⟩

theorem plain_resume (how : Resume) : (resume how).AllRequests Request.Plain :=
  ⟨⟨nofun, nofun⟩, fun _ ↦ trivial⟩

theorem plain_getRegisters : getRegisters.AllRequests Request.Plain := by
  refine ⟨⟨nofun, nofun⟩, fun regs ↦ ?_⟩
  cases regs with
  | none => exact ⟨⟨nofun, by simp⟩, fun x ↦ x.elim⟩
  | some regs => trivial

theorem plain_getProgramCounter : getProgramCounter.AllRequests Request.Plain :=
  allRequests_bind plain_getRegisters fun _ ↦ trivial

theorem plain_setProgramCounter (pc : Word) :
    (setProgramCounter pc).AllRequests Request.Plain :=
  allRequests_bind plain_getRegisters fun _ ↦ ⟨⟨nofun, nofun⟩, fun _ ↦ trivial⟩

theorem plain_enableBreakpoint : bp.enableBreakpoint.AllRequests Request.Plain := by
  refine ⟨⟨nofun, nofun⟩, fun data ↦ ?_⟩
  change AllRequests _ (ite _ _ _)
  split
  · trivial
  · exact ⟨⟨nofun, nofun⟩, fun _ ↦ trivial⟩

theorem plain_disableBreakpoint : bp.disableBreakpoint.AllRequests Request.Plain := by
  refine ⟨⟨nofun, nofun⟩, fun data ↦ ?_⟩
  change AllRequests _ (ite _ _ _)
  split
  · trivial
  · exact ⟨⟨nofun, nofun⟩, fun _ ↦ trivial⟩

theorem plain_setBreakpoint6 (bpName : Text) (addr : Word) (breakpointType : Text)
    (cuIndex fnIndex : Int) :
    (setBreakpoint6 table bpName addr breakpointType cuIndex fnIndex).AllRequests
      Request.Plain := by
  unfold setBreakpoint6
  dsimp only
  split
  · trivial
  · apply allRequests_bind (plain_enableBreakpoint _)
    rintro ⟨bp, raised⟩
    cases raised <;> trivial

theorem plain_setFunctionBreakpoints (symbolsMap : Word → Option Symbol) (cuIdx : Nat)
    (functions : List (Datatype × Nat)) :
    (setFunctionBreakpoints symbolsMap cuIdx table functions).AllRequests Request.Plain := by
  induction functions generalizing table with
  | nil => trivial
  | cons func functions ih =>
    unfold setFunctionBreakpoints
    split
    · exact ih table
    · apply allRequests_bind (plain_setBreakpoint6 ..)
      rintro ⟨table, raised⟩
      cases raised with
      | none => exact ih table
      | some f => trivial

theorem plain_setUnitBreakpoints (symbolsMap : Word → Option Symbol)
    (units : List (CompileUnit × Nat)) :
    (setUnitBreakpoints symbolsMap table units).AllRequests Request.Plain := by
  induction units generalizing table with
  | nil => trivial
  | cons cu units ih =>
    unfold setUnitBreakpoints
    apply allRequests_bind (plain_setFunctionBreakpoints ..)
    rintro ⟨table, raised⟩
    cases raised with
    | none => exact ih table
    | some f => trivial

end Plain

section Silence

/-- A piece that reports no end of the child. -/
abbrev Silent {α : Type} (p : Dbg α) : Prop := p.AllRequests (· ≠ .exit .terminated)

variable {α β : Type}

theorem Silent.of_plain {p : Dbg α} (h : p.AllRequests Request.Plain) : Silent p :=
  h.mono fun _ ↦ And.right

/-- The branch that reports the end of the child is behind a test that no such status passes. -/
theorem silent_waitForSignal : Silent waitForSignal := by
  refine ⟨nofun, fun status ↦ ?_⟩
  change AllRequests _ (ite _ _ _)
  split
  · next hstop =>
    have hended : ¬ Ended status := by
      intro h
      rw [not_wifstopped_of_ended h] at hstop
      cases hstop
    split
    · trivial
    · split
      · next htest =>
        simp only [Bool.or_eq_true, Bool.and_eq_true] at htest
        exact absurd (htest.imp_right And.left) hended
      · exact ⟨by simp, fun x ↦ x.elim⟩
  · trivial

theorem silent_stepOverBreakpoint (table : Table) : Silent (stepOverBreakpoint table) := by
  apply allRequests_bind (Silent.of_plain plain_getProgramCounter)
  intro pc
  dsimp only
  split
  · trivial
  · next bp _ =>
    split
    · apply allRequests_bind (Silent.of_plain (plain_getBreakpointInfo bp))
      intro raised
      cases raised with
      | some f => trivial
      | none =>
        apply allRequests_bind (Silent.of_plain (plain_setProgramCounter _))
        intro _
        apply allRequests_bind (Silent.of_plain (plain_disableBreakpoint bp))
        rintro ⟨bp', raised⟩
        cases raised with
        | some f => trivial
        | none =>
          apply allRequests_bind (Silent.of_plain (plain_resume _))
          intro _
          apply allRequests_bind silent_waitForSignal
          intro _
          apply allRequests_bind (Silent.of_plain (plain_enableBreakpoint bp'))
          exact fun _ ↦ trivial
    · trivial

theorem silent_continueExecution (rounds : Nat) (table : Table) :
    Silent (continueExecution rounds table) := by
  induction rounds generalizing table with
  | zero => trivial
  | succ rounds ih =>
    have hround : Silent (continueIteration table) := by
      apply allRequests_bind (Silent.of_plain (plain_resume _))
      intro _
      apply allRequests_bind silent_waitForSignal
      exact fun _ ↦ silent_stepOverBreakpoint table
    apply allRequests_bind hround
    rintro ⟨table', raised⟩
    cases raised with
    | none => exact ih table'
    | some f => trivial

/-- No run of the debugger reports the end of its child. -/
theorem silent_run (debugInfo : Bool) (symbolsMap : Word → Option Symbol)
    (units : List CompileUnit) (rounds : Nat) :
    Silent (run debugInfo symbolsMap units rounds) := by
  apply allRequests_bind silent_waitForSignal
  intro _
  cases debugInfo with
  | false => exact ⟨by simp, fun x ↦ x.elim⟩
  | true =>
    apply allRequests_bind (Silent.of_plain (plain_setUnitBreakpoints ..))
    rintro ⟨table, raised⟩
    cases raised with
    | none => exact silent_continueExecution rounds table
    | some f => trivial

end Silence

section Asking

variable {α β : Type}

/-- The piece asks about the child, or returns the table without asking anything. -/
def AsksOrReturns (p : Dbg (Table × Option Failure)) (table : Table) : Prop :=
  Asks p ∨ p = pure (table, none)

theorem Asks.bind {p : Dbg α} (h : Asks p) (f : α → Dbg β) : Asks (p >>= f) := by
  obtain ⟨r, hr, hask⟩ := h
  cases p with
  | done a => cases hr
  | call r' k =>
    cases hr
    exact ⟨_, rfl, hask⟩

theorem asksOrReturns_setFunctionBreakpoints (symbolsMap : Word → Option Symbol) (cuIdx : Nat)
    (table : Table) (functions : List (Datatype × Nat)) :
    AsksOrReturns (setFunctionBreakpoints symbolsMap cuIdx table functions) table := by
  induction functions with
  | nil => exact .inr rfl
  | cons func functions ih =>
    unfold setFunctionBreakpoints
    split
    · exact ih
    · next r _ =>
      by_cases hpresent : (table r.addr).isSome
      · simp only [setBreakpoint6, if_pos hpresent]
        exact ih
      · have hpatch : Asks (setBreakpoint6 table r.bpName r.addr r.breakpointType r.cuIndex
            r.fnIndex) := by
          simp only [setBreakpoint6, if_neg hpresent]
          exact ⟨.peekData r.addr, rfl, trivial⟩
        exact .inl (hpatch.bind _)

theorem asksOrReturns_setUnitBreakpoints (symbolsMap : Word → Option Symbol) (table : Table)
    (units : List (CompileUnit × Nat)) :
    AsksOrReturns (setUnitBreakpoints symbolsMap table units) table := by
  induction units with
  | nil => exact .inr rfl
  | cons cu units ih =>
    unfold setUnitBreakpoints
    rcases asksOrReturns_setFunctionBreakpoints symbolsMap cu.2 table cu.1.functions.zipIdx with
      hask | hreturn
    · exact .inl (hask.bind _)
    · rw [hreturn]
      exact ih

/-- A piece that goes on asking about a child that has ended. -/
abbrev Deaf {α : Type} (p : Dbg α) : Prop := p.AllAfter EndedEvent Asks

/-- A piece without a wait hears no end of the child. -/
theorem Deaf.of_plain {p : Dbg α} (h : p.AllRequests Request.Plain) : Deaf p := by
  refine (h.mono ?_).allAfter Asks
  rintro r hr x ⟨status, he, -⟩
  cases he
  exact hr.1 rfl

theorem Deaf.bind {p : Dbg α} {f : α → Dbg β} (hp : Deaf p) (hf : ∀ a, Deaf (f a)) :
    Deaf (p >>= f) :=
  allAfter_bind (fun _ h ↦ h.bind f) hp hf

/-- A status that reports the end of the child is passed over by `wait_for_signal`, which is
deaf where what follows asks. -/
theorem deaf_waitForSignal {f : Unit → Dbg α} (hask : Asks (f ())) (hf : Deaf (f ())) :
    Deaf (waitForSignal >>= f) := by
  intro status
  constructor
  · rintro ⟨status', he, hended⟩
    cases he
    have hstop := not_wifstopped_of_ended hended
    change Asks ((ite _ _ _ : Dbg Unit) >>= f)
    rwa [if_neg (by simp [hstop])]
  · change Deaf ((ite _ _ _ : Dbg Unit) >>= f)
    split
    · split
      · exact hf
      · split
        · exact fun x ↦ x.elim
        · exact fun x ↦ x.elim
    · exact hf

theorem deaf_stepOverBreakpoint (table : Table) : Deaf (stepOverBreakpoint table) := by
  apply Deaf.bind (.of_plain plain_getProgramCounter)
  intro pc
  dsimp only
  split
  · trivial
  · next bp _ =>
    split
    · apply Deaf.bind (.of_plain (plain_getBreakpointInfo bp))
      intro raised
      cases raised with
      | some f => trivial
      | none =>
        apply Deaf.bind (.of_plain (plain_setProgramCounter _))
        intro _
        apply Deaf.bind (.of_plain (plain_disableBreakpoint bp))
        rintro ⟨bp', raised⟩
        cases raised with
        | some f => trivial
        | none =>
          apply Deaf.bind (.of_plain (plain_resume _))
          intro _
          -- behind the single step the record is armed again, whatever the status was
          apply deaf_waitForSignal
          · exact ⟨.peekData bp'.bpAddress, rfl, trivial⟩
          · exact Deaf.bind (.of_plain (plain_enableBreakpoint bp')) fun _ ↦ trivial
    · trivial

theorem deaf_continueExecution (rounds : Nat) (table : Table) :
    Deaf (continueExecution rounds table) := by
  induction rounds generalizing table with
  | zero => trivial
  | succ rounds ih =>
    have hround : Deaf (continueIteration table) := by
      apply Deaf.bind (.of_plain (plain_resume _))
      intro _
      apply deaf_waitForSignal
      · exact ⟨.getRegs, rfl, trivial⟩
      · exact deaf_stepOverBreakpoint table
    apply Deaf.bind hround
    rintro ⟨table', raised⟩
    cases raised with
    | none => exact ih table'
    | some f => trivial

/-- A run that gets to its loop asks about an ended child, wherever it hears of the end. -/
theorem deaf_run (symbolsMap : Word → Option Symbol) (units : List CompileUnit) (rounds : Nat) :
    Deaf (run true symbolsMap units (rounds + 1)) := by
  apply deaf_waitForSignal
  · rw [if_pos rfl]
    rcases asksOrReturns_setUnitBreakpoints symbolsMap .empty units.zipIdx with hask | hreturn
    · exact hask.bind _
    · rw [setAllFunctionBreakpoints, hreturn]
      exact ⟨.resume .cont, rfl, trivial⟩
  · rw [if_pos rfl]
    apply Deaf.bind (.of_plain (plain_setUnitBreakpoints ..))
    rintro ⟨table, raised⟩
    cases raised with
    | none => exact deaf_continueExecution (rounds + 1) table
    | some f => trivial

end Asking

/-- A run meets the expectation at the end of its child exactly while no status has reported
that end: then nothing is reported, and a run with debug info asks about the child again. -/
theorem run_stopsAtEnd_iff (debugInfo : Bool) (symbolsMap : Word → Option Symbol)
    (units : List CompileUnit) (rounds : Nat) {events : List (Event Request Answer)}
    {q : Dbg (Table × Option Failure)}
    (h : Follows (run debugInfo symbolsMap units rounds) events q) :
    (StopsAtEnd events q ↔
        ∀ status, (⟨.waitpid, status⟩ : Event Request Answer) ∈ events → ¬ Ended status) ∧
      (debugInfo = true → 0 < rounds → ∀ pre status,
        events = pre ++ [⟨.waitpid, status⟩] → Ended status → Asks q) := by
  constructor
  · constructor
    · intro hstops status hmem hended
      obtain ⟨pre, post, rfl⟩ := List.append_of_mem hmem
      obtain ⟨-, hnext⟩ := hstops pre status post rfl hended
      exact (silent_run debugInfo symbolsMap units rounds).next h hnext rfl
    · rintro hnone pre status post rfl hended
      exact absurd hended (hnone status (by simp))
  · rintro rfl hrounds pre status rfl hended
    obtain ⟨n, rfl⟩ := Nat.exists_eq_add_one.mpr hrounds
    exact (deaf_run symbolsMap units n).next h ⟨status, rfl, hended⟩

/-- A child that exits with code 0 after it was continued: the debugger asks for its registers. -/
theorem run_asks_exited_child :
    ¬ ∀ (debugInfo : Bool) (symbolsMap : Word → Option Symbol) (units : List CompileUnit)
      (rounds : Nat) (events : List (Event Request Answer)) (q : Dbg (Table × Option Failure)),
      Follows (run debugInfo symbolsMap units rounds) events q → StopsAtEnd events q := by
  intro h
  have hfollows : Follows (run true (fun _ ↦ none) [] 1)
      [⟨.waitpid, sigtrapStop⟩, ⟨.resume .cont, ()⟩, ⟨.waitpid, 0⟩] _ :=
    .answer (.answer (.answer (.here _)))
  have hstops := h _ _ _ _ _ _ hfollows
    [⟨.waitpid, sigtrapStop⟩, ⟨.resume .cont, ()⟩] 0 [] rfl (by decide)
  cases hstops.2

/-- The same for a child that dies before its first stop, of which the first wait hears. -/
theorem run_stopsAtEnd_iff_sample :
    ∃ q, Follows (run true (fun _ ↦ none) [] 1) [⟨.waitpid, 0x000b⟩] q ∧
      ¬ StopsAtEnd [⟨.waitpid, 0x000b⟩] q ∧ Asks q := by
  have hfollows : Follows (run true (fun _ ↦ none) [] 1) [⟨.waitpid, 0x000b⟩] _ :=
    .answer (.here _)
  obtain ⟨hiff, hasks⟩ := run_stopsAtEnd_iff true (fun _ ↦ none) [] 1 hfollows
  refine ⟨_, hfollows, fun hstops ↦ ?_, hasks rfl (by omega) [] _ rfl (by decide)⟩
  exact hiff.mp hstops 0x000b List.mem_cons_self (by decide)

end ArgsDebugger
