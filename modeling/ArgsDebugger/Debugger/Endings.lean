import ArgsDebugger.Debugger.Pace
import ArgsDebugger.Lib.Endings

/-!
# How a run of the debugger ends

Nothing in `Debugger::run` returns: the loop of `continue_execution` goes on until `exit(1)` is
called or an exception escapes. Which of them happens, and when, depends on the last answer of
the kernel only, whatever has been said before it.
-/

namespace ArgsDebugger

open Lib Lib.Program

/-- The debugger calls `exit(1)`, or an exception escapes from it. -/
inductive Ending where
  | exits (reason : ExitReason)
  | raises (failure : Failure)
  deriving DecidableEq, Repr

/-- The ending that a request is. -/
def Request.ending : Request → Option Ending
  | .exit reason => some (.exits reason)
  | _ => none

/-- The ending that a result with an exception is. -/
def raisedEnding {α : Type} (result : α × Option Failure) : Option Ending :=
  result.2.map .raises

/-- The ending of a debugger without debug information, once its child has been waited for. -/
def noSymbolsEnding (debugInfo : Bool) : Option Ending :=
  if debugInfo then none else some (.exits .noSymbols)

/-- What an answer makes of the debugger: it ends by a signal that is not `SIGTRAP`, by registers
that cannot be read, by a word that reads as all ones where a byte is to be patched, and by an
exception from the report; and without debug information by any status. -/
def fate (debugInfo : Bool) : (r : Request) → Answer r → Option Ending
  | .waitpid, status =>
    if wifstopped status = true ∧ wstopsig status ≠ 5 then
      some (.exits (.gotSignal (wstopsig status)))
    else noSymbolsEnding debugInfo
  | .getRegs, regs => if regs = none then some (.exits .getRegsFailed) else none
  | .peekData _, w => if w = allOnes then some (.raises .runtimeError) else none
  | .getBreakpointInfo _, raised => raised.map .raises
  | .setRegs _, _ => none
  | .pokeData _ _, _ => none
  | .resume _, _ => none
  | .exit _, x => x.elim

section Pieces

variable {debugInfo : Bool} (bp : Breakpoint) (table : Table)

/-- A piece of the debugger ends as its last answer says. -/
abbrev EndsOnAnswer {α : Type} (debugInfo : Bool) (returned : α → Option Ending) (p : Dbg α) :
    Prop := p.EndsAs Request.ending returned (fate debugInfo)

theorem ends_getRegisters : EndsOnAnswer debugInfo (fun _ ↦ none) getRegisters := by
  intro regs
  cases regs with
  | none => exact ⟨rfl, fun x ↦ x.elim⟩
  | some regs => exact ⟨rfl, trivial⟩

theorem ends_getProgramCounter :
    EndsOnAnswer debugInfo (fun _ ↦ none) getProgramCounter :=
  ends_getRegisters.bind fun _ ↦ ⟨rfl, trivial⟩

theorem ends_setProgramCounter (pc : Word) :
    EndsOnAnswer debugInfo (fun _ ↦ none) (setProgramCounter pc) :=
  ends_getRegisters.bind fun _ ↦ ⟨rfl, fun _ ↦ ⟨rfl, trivial⟩⟩

theorem ends_enableBreakpoint : EndsOnAnswer debugInfo raisedEnding bp.enableBreakpoint := by
  intro data
  change Program.ending _ _ (ite _ _ _ : Dbg _) = ite _ _ _ ∧ EndsOnAnswer _ _ (ite _ _ _)
  by_cases hones : data = allOnes
  · rw [if_pos hones, if_pos hones]
    exact ⟨rfl, trivial⟩
  · rw [if_neg hones, if_neg hones]
    exact ⟨rfl, fun _ ↦ ⟨rfl, trivial⟩⟩

theorem ends_disableBreakpoint : EndsOnAnswer debugInfo raisedEnding bp.disableBreakpoint := by
  intro data
  change Program.ending _ _ (ite _ _ _ : Dbg _) = ite _ _ _ ∧ EndsOnAnswer _ _ (ite _ _ _)
  by_cases hones : data = allOnes
  · rw [if_pos hones, if_pos hones]
    exact ⟨rfl, trivial⟩
  · rw [if_neg hones, if_neg hones]
    exact ⟨rfl, fun _ ↦ ⟨rfl, trivial⟩⟩

/-- No stop gets to the branch for an ended child. -/
theorem ends_waitForSignal :
    EndsOnAnswer debugInfo (fun _ ↦ noSymbolsEnding debugInfo) waitForSignal := by
  intro status
  change Program.ending _ _ (ite _ _ _ : Dbg _) = ite _ _ _ ∧ EndsOnAnswer _ _ (ite _ _ _)
  by_cases hstop : wifstopped status = true
  · by_cases htrap : wstopsig status = 5
    · rw [if_pos hstop, if_pos htrap, if_neg fun h ↦ h.2 htrap]
      exact ⟨rfl, trivial⟩
    · have halive :
          ¬ (wifexited status || (wifsignaled status && wtermsig status == 9)) = true := by
        intro htest
        simp only [Bool.or_eq_true, Bool.and_eq_true] at htest
        have hended : Ended status := htest.imp_right And.left
        rw [not_wifstopped_of_ended hended] at hstop
        cases hstop
      rw [if_pos hstop, if_neg htrap, if_neg halive, if_pos ⟨hstop, htrap⟩]
      exact ⟨rfl, fun x ↦ x.elim⟩
  · rw [if_neg hstop, if_neg fun h ↦ hstop h.1]
    exact ⟨rfl, trivial⟩

/-- What goes on unless an exception was raised passes the exception on. -/
theorem ends_unlessRaised {k : Table → Dbg (Table × Option Failure)}
    (hk : ∀ table, (k table).ending Request.ending raisedEnding = none ∧
      EndsOnAnswer debugInfo raisedEnding (k table)) (result : Table × Option Failure) :
    Program.ending Request.ending raisedEnding
        (match result.2 with
          | some f => (pure (result.1, some f) : Dbg _)
          | none => k result.1) = raisedEnding result ∧
      EndsOnAnswer debugInfo raisedEnding
        (match result.2 with
          | some f => (pure (result.1, some f) : Dbg _)
          | none => k result.1) := by
  obtain ⟨table, raised⟩ := result
  cases raised with
  | some f => exact ⟨rfl, trivial⟩
  | none => exact hk table

theorem ends_setBreakpoint6 (debugInfo : Bool) (bpName : Text) (addr : Word) (breakpointType : Text)
    (cuIndex fnIndex : Int) :
    (setBreakpoint6 table bpName addr breakpointType cuIndex fnIndex).ending Request.ending
        raisedEnding = none ∧
      EndsOnAnswer debugInfo raisedEnding
        (setBreakpoint6 table bpName addr breakpointType cuIndex fnIndex) := by
  unfold setBreakpoint6
  dsimp only
  split
  · exact ⟨rfl, trivial⟩
  · refine ⟨rfl, (ends_enableBreakpoint _).bind ?_⟩
    rintro ⟨bp, raised⟩
    cases raised <;> exact ⟨rfl, trivial⟩

theorem ends_setBreakpoints (rs : List SetRequest) :
    (setBreakpoints table rs).ending Request.ending raisedEnding = none ∧
      EndsOnAnswer debugInfo raisedEnding (setBreakpoints table rs) := by
  induction rs generalizing table with
  | nil => exact ⟨rfl, trivial⟩
  | cons r rs ih =>
    obtain ⟨hbegins, hends⟩ := ends_setBreakpoint6 table debugInfo r.bpName r.addr
      r.breakpointType r.cuIndex r.fnIndex
    have hrest := ends_unlessRaised ih
    exact ⟨(ending_bind fun result ↦ (hrest result).1).trans hbegins, hends.bind hrest⟩

theorem ends_stepOverBreakpoint :
    EndsOnAnswer true raisedEnding (stepOverBreakpoint table) := by
  apply ends_getProgramCounter.bind
  intro pc
  dsimp only
  split
  · exact ⟨rfl, trivial⟩
  · next bp _ =>
    split
    · refine ⟨rfl, ?_⟩
      have hreport : EndsOnAnswer true (fun raised ↦ raised.map .raises) (getBreakpointInfo bp) :=
        fun raised ↦ ⟨rfl, trivial⟩
      apply hreport.bind
      intro raised
      cases raised with
      | some f => exact ⟨rfl, trivial⟩
      | none =>
        refine ⟨rfl, (ends_setProgramCounter _).bind fun _ ↦ ⟨rfl, ?_⟩⟩
        apply (ends_disableBreakpoint bp).bind
        rintro ⟨bp', raised⟩
        cases raised with
        | some f => exact ⟨rfl, trivial⟩
        | none =>
          refine ⟨rfl, fun _ ↦ ⟨rfl, ends_waitForSignal.bind fun _ ↦ ⟨rfl, ?_⟩⟩⟩
          exact (ends_enableBreakpoint bp').bind fun _ ↦ ⟨rfl, trivial⟩
    · exact ⟨rfl, trivial⟩

theorem ends_continueExecution (rounds : Nat) :
    (continueExecution rounds table).ending Request.ending raisedEnding = none ∧
      EndsOnAnswer true raisedEnding (continueExecution rounds table) := by
  induction rounds generalizing table with
  | zero => exact ⟨rfl, trivial⟩
  | succ rounds ih =>
    refine ⟨rfl, ?_⟩
    have hround : EndsOnAnswer true raisedEnding (continueIteration table) :=
      fun _ ↦ ⟨rfl, ends_waitForSignal.bind fun _ ↦ ⟨rfl, ends_stepOverBreakpoint table⟩⟩
    exact hround.bind (ends_unlessRaised ih)

end Pieces

section Endings

variable {debugInfo : Bool} {symbolsMap : Word → Option Symbol} {units : List CompileUnit}
  {rounds : Nat} {l : List PtraceEvent} {e : PtraceEvent} {q : Dbg (Table × Option Failure)}

theorem ends_run (debugInfo : Bool) (symbolsMap : Word → Option Symbol)
    (units : List CompileUnit) (rounds : Nat) :
    EndsOnAnswer debugInfo raisedEnding (run debugInfo symbolsMap units rounds) := by
  apply ends_waitForSignal.bind
  intro _
  cases debugInfo with
  | false => exact ⟨rfl, fun x ↦ x.elim⟩
  | true =>
    rw [if_pos rfl, setAllFunctionBreakpoints_eq]
    have hrest := ends_unlessRaised (ends_continueExecution · rounds)
    obtain ⟨hbegins, hends⟩ := ends_setBreakpoints Table.empty (functionRequests symbolsMap units)
    exact ⟨(ending_bind fun result ↦ (hrest result).1).trans hbegins, hends.bind hrest⟩

/-- The debugger never returns, and ends on nothing but its last answer: it exits or raises where
this is a stop by a signal that is not `SIGTRAP`, registers that cannot be read, a word of ones
where a byte is to be patched, or an exception from a report. After every other answer there is a
next request, as long as the model has rounds for the loop. -/
theorem run_ends (h : Follows (run debugInfo symbolsMap units rounds) (l ++ [e]) q) :
    q.ending Request.ending raisedEnding = fate debugInfo e.1 e.2 ∧
      (fate debugInfo e.1 e.2 = none → count Request.isCont (l ++ [e]) < rounds →
        ∃ r, q.next? = some r ∧ r.ending = none) := by
  have hends := (ends_run debugInfo symbolsMap units rounds).follows h
  refine ⟨hends, ?_⟩
  intro hgoes hrounds
  rw [hgoes] at hends
  cases q with
  | done result =>
    obtain ⟨table, raised⟩ := result
    cases raised with
    | some f => cases hends
    | none =>
      have hall := rounds_of_done h
      omega
  | call r k => exact ⟨r, rfl, hends⟩

/-- A dialogue that comes to a word of ones where the breakpoint is to be set. -/
def sampleUnreadable : List PtraceEvent := [⟨.waitpid, sigtrapStop⟩, ⟨.peekData 16, allOnes⟩]

/-- An exception escapes from the debugger there. -/
theorem run_ends_sample : ∃ q, Follows sampleRun sampleUnreadable q ∧
    q.ending Request.ending raisedEnding = some (.raises .runtimeError) := by
  obtain ⟨q, hfollows⟩ : ∃ q, Follows sampleRun sampleUnreadable q :=
    ⟨_, .answer (.answer (.here _))⟩
  have hlast : Follows sampleRun (sampleUnreadable.take 1 ++ [⟨.peekData 16, allOnes⟩]) q :=
    hfollows
  exact ⟨q, hfollows, (run_ends hlast).1⟩

end Endings

end ArgsDebugger
