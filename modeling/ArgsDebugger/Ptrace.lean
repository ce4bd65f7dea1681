import ArgsDebugger.Common
import ArgsDebugger.Lib.Program

/-!
# Ptrace requests and the traced process

The debugger is a program over `ptrace`, `waitpid` and its own reporting function. Requests
keep the order in which the source issues them; what the traced process does between two
stops is left to an environment. `exit` has no answer: nothing follows it.
-/

namespace ArgsDebugger

open Lib

/-- A status word of `waitpid`. -/
abbrev WaitStatus := BitVec 32

/-- The macros of `<sys/wait.h>`. -/
def wtermsig (s : WaitStatus) : Nat := s.toNat % 128

def wstopsig (s : WaitStatus) : Nat := s.toNat / 256 % 256

def wifexited (s : WaitStatus) : Bool := wtermsig s == 0

def wifstopped (s : WaitStatus) : Bool := s.toNat % 256 == 0x7f

def wifsignaled (s : WaitStatus) : Bool := wtermsig s != 0 && wtermsig s != 0x7f

/-- The status of a stop by `SIGTRAP`. -/
def sigtrapStop : WaitStatus := 0x057f#32

/-- How the debuggee is resumed: `PTRACE_CONT` or `PTRACE_SINGLESTEP`. -/
inductive Resume where
  | cont | singleStep
  deriving DecidableEq, Repr

/-- Why the debugger calls `exit(1)`. -/
inductive ExitReason where
  | terminated | gotSignal (sig : Nat) | getRegsFailed | noSymbols
  deriving DecidableEq, Repr

/-- `poc::bp::Breakpoint` (`src/breakpoint.hpp:9–44`). -/
structure Breakpoint where
  breakpointType : Text
  bpName : Text
  bpAddress : Word
  originalData : Byte
  enabled : Bool
  cuIndex : Int
  fnIndex : Int
  deriving DecidableEq, Repr

/-- What the debugger asks of its surroundings. -/
inductive Request where
  | getRegs
  | setRegs (regs : UserRegs)
  | peekData (a : Word)
  | pokeData (a w : Word)
  | resume (how : Resume)
  | waitpid
  | getBreakpointInfo (bp : Breakpoint)
  | exit (reason : ExitReason)

/-- The answer to a request. `PTRACE_GETREGS` may fail, reporting may raise. -/
@[reducible] def Answer : Request → Type
  | .getRegs => Option UserRegs
  | .setRegs _ => Unit
  | .peekData _ => Word
  | .pokeData _ _ => Unit
  | .resume _ => Unit
  | .waitpid => WaitStatus
  | .getBreakpointInfo _ => Option Failure
  | .exit _ => Empty

/-- A piece of the debugger. -/
abbrev Dbg := Program Request Answer

/-- `ptrace(PTRACE_GETREGS, …)`. -/
def getRegs : Dbg (Option UserRegs) := .call .getRegs .done

/-- `ptrace(PTRACE_SETREGS, …)`. -/
def setRegs (regs : UserRegs) : Dbg Unit := .call (.setRegs regs) .done

/-- `ptrace(PTRACE_PEEKDATA, …)`. -/
def peekData (a : Word) : Dbg Word := .call (.peekData a) .done

/-- `ptrace(PTRACE_POKEDATA, …)`. -/
def pokeData (a w : Word) : Dbg Unit := .call (.pokeData a w) .done

/-- `ptrace(PTRACE_CONT, …)` or `ptrace(PTRACE_SINGLESTEP, …)`. -/
def resume (how : Resume) : Dbg Unit := .call (.resume how) .done

/-- `waitpid(m_child_pid, &wait_status, 0)`. -/
def waitpid : Dbg WaitStatus := .call .waitpid .done

/-- The call of `get_breakpoint_info`, with the exception it raises, if any. -/
def getBreakpointInfo (bp : Breakpoint) : Dbg (Option Failure) :=
  .call (.getBreakpointInfo bp) .done

/-- `exit(1)`. -/
def exit {α : Type} (reason : ExitReason) : Dbg α := .call (.exit reason) Empty.elim

/-- The traced process: the registers the debugger transfers, the rest of the machine and
kernel state, and the memory. -/
structure Tracee (κ : Type) where
  regs : UserRegs
  rest : κ
  mem : Memory

/-- What surrounds the debugger: how far the debuggee runs when it is resumed (`none` when
it never stops), the status of its last stop, and the outcome of `get_breakpoint_info`,
which reads registers and memory and changes neither. -/
structure Environment (κ : Type) where
  resume : Resume → Tracee κ → Option (Tracee κ)
  status : Tracee κ → WaitStatus
  info : Breakpoint → Tracee κ → Option Failure

/-- The traced process and the breakpoints reported so far. -/
structure Session (κ : Type) where
  tracee : Tracee κ
  reports : List Breakpoint

namespace Session

variable {κ : Type}

/-- The session with another traced process. -/
def withTracee (s : Session κ) (t : Tracee κ) : Session κ := { s with tracee := t }

/-- The session with another debuggee memory. -/
def withMem (s : Session κ) (m : Memory) : Session κ :=
  s.withTracee { s.tracee with mem := m }

/-- The session with the debuggee's program counter moved. -/
def withRip (s : Session κ) (pc : Word) : Session κ :=
  s.withTracee { s.tracee with regs := { s.tracee.regs with rip := pc } }

/-- The session after one more report. -/
def report (s : Session κ) (bp : Breakpoint) : Session κ :=
  { s with reports := s.reports ++ [bp] }

end Session

variable {κ : Type}

/-- The answers of a live debuggee that is stopped whenever the debugger asks. -/
def Environment.handle (env : Environment κ) : (r : Request) → Session κ →
    Option (Answer r × Session κ)
  | .getRegs, s => some (some s.tracee.regs, s)
  | .setRegs regs, s => some ((), s.withTracee { s.tracee with regs })
  | .peekData a, s => some (s.tracee.mem.peekData a, s)
  | .pokeData a w, s => some ((), s.withMem (s.tracee.mem.pokeData a w))
  | .resume how, s => (env.resume how s.tracee).map fun t ↦ ((), s.withTracee t)
  | .waitpid, s => some (env.status s.tracee, s)
  | .getBreakpointInfo bp, s => some (env.info bp s.tracee, s.report bp)
  | .exit _, _ => none

/-- Run a piece of the debugger; `none` when it exits or the debuggee never stops. -/
def Environment.run {α : Type} (env : Environment κ) (p : Dbg α) (s : Session κ) :
    Option (α × Session κ) := Program.run env.handle p s

/-- The requests that a piece of the debugger issues. -/
def Environment.requests {α : Type} (env : Environment κ) (p : Dbg α) (s : Session κ) :
    List Request := Program.requests env.handle p s

section Run

variable (env : Environment κ) (s : Session κ) {α β : Type}

@[simp] theorem run_done (a : α) : env.run (pure a) s = some (a, s) := rfl

theorem run_seq (p : Dbg α) (f : α → Dbg β) :
    env.run (p >>= f) s = (env.run p s).bind fun r ↦ env.run (f r.1) r.2 :=
  Program.run_bind p f s

theorem run_seq_of_run {env : Environment κ} {s : Session κ} {p : Dbg α} {f : α → Dbg β}
    {s' : Session κ} {a : α} (h : env.run p s = some (a, s')) :
    env.run (p >>= f) s = env.run (f a) s' :=
  Program.run_bind_of_run h

theorem requests_seq_of_run {env : Environment κ} {s : Session κ} {p : Dbg α} {f : α → Dbg β}
    {s' : Session κ} {a : α} (h : env.run p s = some (a, s')) :
    env.requests (p >>= f) s = env.requests p s ++ env.requests (f a) s' :=
  Program.requests_bind_of_run h

/-- A sequence that finishes did so in two finished runs. -/
theorem run_seq_eq_some {p : Dbg α} {f : α → Dbg β} {r : β × Session κ}
    (h : env.run (p >>= f) s = some r) :
    ∃ a s', env.run p s = some (a, s') ∧ env.run (f a) s' = some r := by
  rw [run_seq] at h
  obtain ⟨⟨a, s'⟩, hp, hf⟩ := Option.bind_eq_some_iff.mp h
  exact ⟨a, s', hp, hf⟩

@[simp] theorem run_getRegs : env.run getRegs s = some (some s.tracee.regs, s) := rfl

@[simp] theorem run_setRegs (regs : UserRegs) :
    env.run (setRegs regs) s = some ((), s.withTracee { s.tracee with regs }) := rfl

@[simp] theorem run_peekData (a : Word) :
    env.run (peekData a) s = some (s.tracee.mem.peekData a, s) := rfl

@[simp] theorem run_pokeData (a w : Word) :
    env.run (pokeData a w) s = some ((), s.withMem (s.tracee.mem.pokeData a w)) := rfl

@[simp] theorem run_resume (how : Resume) :
    env.run (resume how) s = (env.resume how s.tracee).map fun t ↦ ((), s.withTracee t) := by
  simp only [resume, Environment.run, Program.run, Environment.handle]
  cases env.resume how s.tracee <;> rfl

@[simp] theorem run_waitpid : env.run waitpid s = some (env.status s.tracee, s) := rfl

@[simp] theorem run_getBreakpointInfo (bp : Breakpoint) :
    env.run (getBreakpointInfo bp) s = some (env.info bp s.tracee, s.report bp) := rfl

@[simp] theorem run_exit (reason : ExitReason) : env.run (exit reason : Dbg α) s = none := rfl

end Run

end ArgsDebugger
