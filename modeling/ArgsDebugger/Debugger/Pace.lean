import ArgsDebugger.Debugger.Dialogues

/-!
# How fast the debugger goes on

A stopped debuggee waits for the debugger. How many requests that may take is counted by a
protocol that any answers keep up with: a few for each function before the debuggee is first
continued, and seven at most behind every later stop. The rounds of `continue_execution` are
counted along with it.
-/

namespace ArgsDebugger

open Lib Lib.Program

/-- `PTRACE_CONT`. -/
def Request.isCont : Request → Bool
  | .resume .cont => true
  | _ => false

/-- The rounds so far, and the requests that are left before the debuggee is waited for. -/
structure Pace where
  rounds : Nat
  left : Nat
  deriving DecidableEq, Repr

namespace Pace

/-- A wait brings the requests for setting the breakpoints, or those for a later stop. -/
def waited (setUp : Nat) (c : Pace) : Pace :=
  { c with left := if c.rounds = 0 then setUp else 7 }

/-- Some requests have been made. -/
def spend (n : Nat) (c : Pace) : Pace := { c with left := c.left - n }

@[simp] theorem spend_rounds (n : Nat) (c : Pace) : (c.spend n).rounds = c.rounds := rfl

@[simp] theorem spend_left (n : Nat) (c : Pace) : (c.spend n).left = c.left - n := rfl

@[simp] theorem waited_rounds (setUp : Nat) (c : Pace) : (c.waited setUp).rounds = c.rounds := rfl

theorem waited_left {setUp : Nat} {c : Pace} (h : c.rounds ≠ 0) : (c.waited setUp).left = 7 :=
  if_neg h

/-- What a request makes of the pace. -/
def next (setUp : Nat) (c : Pace) : Request → Pace
  | .waitpid => c.waited setUp
  | .resume .cont => { c with rounds := c.rounds + 1, left := c.left - 1 }
  | _ => c.spend 1

/-- Waiting takes none of the requests that are left, nor does an exit. -/
def Allows (c : Pace) : Request → Prop
  | .waitpid => True
  | .exit _ => True
  | _ => 0 < c.left

end Pace

/-- The protocol of a debugger that has so many requests for setting its breakpoints. -/
def paceProtocol (setUp : Nat) : Protocol Request Answer Pace :=
  ⟨Pace.Allows, fun c r _ ↦ c.next setUp r⟩

section Pieces

variable {setUp : Nat} {c : Pace} (bp : Breakpoint) (table : Table)

/-- Whatever a piece of the debugger is told, it keeps the pace. -/
abbrev KeepsPace {α : Type} (setUp : Nat) (Q : α → Pace → Prop) (p : Dbg α) (c : Pace) : Prop :=
  (paceProtocol setUp).Obeys Q p c

theorem pace_waitForSignal : KeepsPace setUp (fun _ c' ↦ c' = c.waited setUp) waitForSignal c := by
  refine ⟨trivial, fun status ↦ ?_⟩
  change Protocol.Obeys _ _ (ite _ _ _) _
  split
  · split
    · rfl
    · split
      · exact ⟨trivial, fun x ↦ x.elim⟩
      · exact ⟨trivial, fun x ↦ x.elim⟩
  · rfl

theorem pace_getRegisters (h : 0 < c.left) :
    KeepsPace setUp (fun _ c' ↦ c' = c.spend 1) getRegisters c := by
  refine ⟨h, fun regs ↦ ?_⟩
  cases regs with
  | none => exact ⟨trivial, fun x ↦ x.elim⟩
  | some regs => rfl

theorem pace_getProgramCounter (h : 0 < c.left) :
    KeepsPace setUp (fun _ c' ↦ c' = c.spend 1) getProgramCounter c :=
  (pace_getRegisters h).bind fun _ _ hc' ↦ hc'

theorem pace_setProgramCounter (h : 1 < c.left) (pc : Word) :
    KeepsPace setUp (fun _ c' ↦ c' = c.spend 2) (setProgramCounter pc) c := by
  apply (pace_getRegisters (Nat.lt_of_succ_lt h)).bind
  rintro regs c' rfl
  exact ⟨Nat.sub_pos_of_lt h, fun _ ↦ rfl⟩

theorem pace_enableBreakpoint (h : 1 < c.left) :
    KeepsPace setUp (fun r c' ↦ r.2 = none → c' = c.spend 2) bp.enableBreakpoint c := by
  refine ⟨Nat.lt_of_succ_lt h, fun data ↦ ?_⟩
  change Protocol.Obeys _ _ (ite _ _ _) _
  split
  · intro hraised
    cases hraised
  · exact ⟨Nat.sub_pos_of_lt h, fun _ _ ↦ rfl⟩

theorem pace_disableBreakpoint (h : 1 < c.left) :
    KeepsPace setUp (fun r c' ↦ r.2 = none → c' = c.spend 2) bp.disableBreakpoint c := by
  refine ⟨Nat.lt_of_succ_lt h, fun data ↦ ?_⟩
  change Protocol.Obeys _ _ (ite _ _ _) _
  split
  · intro hraised
    cases hraised
  · exact ⟨Nat.sub_pos_of_lt h, fun _ _ ↦ rfl⟩

/-- A breakpoint takes two requests, or none where its address has one. -/
theorem pace_setBreakpoint6 (bpName : Text) (addr : Word) (breakpointType : Text)
    (cuIndex fnIndex : Int) (h : 1 < c.left) :
    KeepsPace setUp (fun r c' ↦ r.2 = none → c'.rounds = c.rounds ∧ c.left ≤ c'.left + 2)
      (setBreakpoint6 table bpName addr breakpointType cuIndex fnIndex) c := by
  unfold setBreakpoint6
  dsimp only
  split
  · exact fun _ ↦ ⟨rfl, Nat.le_add_right _ _⟩
  · apply (pace_enableBreakpoint _ h).bind
    rintro ⟨bp, raised⟩ c' hc'
    cases raised with
    | some f =>
      intro hraised
      cases hraised
    | none =>
      intro _
      rw [hc' rfl]
      constructor
      · rfl
      · show c.left ≤ c.left - 2 + 2
        omega

/-- Setting breakpoints takes two requests for each at most. -/
theorem pace_setBreakpoints (rs : List SetRequest) (h : 2 * rs.length ≤ c.left) :
    KeepsPace setUp
      (fun r c' ↦ r.2 = none → c'.rounds = c.rounds ∧ c.left ≤ c'.left + 2 * rs.length)
      (setBreakpoints table rs) c := by
  induction rs generalizing table c with
  | nil => exact fun _ ↦ ⟨rfl, Nat.le_add_right _ _⟩
  | cons r rs ih =>
    rw [List.length_cons] at h ⊢
    apply (pace_setBreakpoint6 table r.bpName r.addr r.breakpointType r.cuIndex r.fnIndex
      (by omega)).bind
    rintro ⟨table', raised⟩ c₁ hc₁
    cases raised with
    | some f =>
      intro hraised
      cases hraised
    | none =>
      obtain ⟨hrounds₁, hleft₁⟩ := hc₁ rfl
      apply Protocol.Obeys.mono (ih table' (c := c₁) (by omega))
      intro result c₂ hc₂ hraised
      obtain ⟨hrounds₂, hleft₂⟩ := hc₂ hraised
      exact ⟨hrounds₂.trans hrounds₁, by omega⟩

/-- Behind a stop a breakpoint takes seven requests until the step, and two to be set again. -/
theorem pace_stepOverBreakpoint (hrounds : c.rounds ≠ 0) (h : c.left = 7) :
    KeepsPace setUp (fun r c' ↦ r.2 = none → c'.rounds = c.rounds ∧ 0 < c'.left)
      (stepOverBreakpoint table) c := by
  apply (pace_getProgramCounter (by omega)).bind
  rintro pc c₁ rfl
  dsimp only
  split
  · exact fun _ ↦ ⟨rfl, by simp [h]⟩
  · next bp _ =>
    split
    · apply Protocol.Obeys.bind (Q := fun _ c' ↦ c' = c.spend 2)
      · exact ⟨by simp [paceProtocol, Pace.Allows, h], fun _ ↦ rfl⟩
      rintro raised c₂ rfl
      cases raised with
      | some f =>
        intro hraised
        cases hraised
      | none =>
        apply (pace_setProgramCounter (by simp [h]) _).bind
        rintro _ c₃ rfl
        apply (pace_disableBreakpoint bp (by simp [h])).bind
        rintro ⟨bp', raised⟩ c₄ hc₄
        cases raised with
        | some f =>
          intro hraised
          cases hraised
        | none =>
          rw [hc₄ rfl]
          apply Protocol.Obeys.bind (Q := fun _ c' ↦ c'.rounds = c.rounds)
          · exact ⟨by simp [paceProtocol, Pace.Allows, h], fun _ ↦ rfl⟩
          rintro _ c₅ hc₅
          apply pace_waitForSignal.bind
          rintro _ c₆ rfl
          have hleft : (c₅.waited setUp).left = 7 := Pace.waited_left (by omega)
          apply (pace_enableBreakpoint bp' (by omega)).bind
          rintro ⟨bp'', raised⟩ c₇ hc₇ hraised
          rw [hc₇ hraised]
          exact ⟨hc₅, by simp [hleft]⟩
    · exact fun _ ↦ ⟨rfl, by simp [h]⟩

/-- The loop is left without an exception after all of its rounds only. -/
theorem pace_continueExecution (rounds : Nat) (h : 0 < c.left) :
    KeepsPace setUp (fun r c' ↦ r.2 = none → c'.rounds = c.rounds + rounds)
      (continueExecution rounds table) c := by
  induction rounds generalizing table c with
  | zero => exact fun _ ↦ rfl
  | succ rounds ih =>
    apply Protocol.Obeys.bind
      (Q := fun r c' ↦ r.2 = none → c'.rounds = c.rounds + 1 ∧ 0 < c'.left)
    · apply Protocol.Obeys.bind (Q := fun _ c' ↦ c'.rounds = c.rounds + 1)
      · exact ⟨h, fun _ ↦ rfl⟩
      rintro _ c₁ hc₁
      apply pace_waitForSignal.bind
      rintro _ c₂ rfl
      have hrounds : (c₁.waited setUp).rounds = c.rounds + 1 := hc₁
      rw [← hrounds]
      exact pace_stepOverBreakpoint table (by omega) (Pace.waited_left (by omega))
    · rintro ⟨table', raised⟩ c₃ hc₃
      cases raised with
      | some f =>
        intro hraised
        cases hraised
      | none =>
        obtain ⟨hrounds, hleft⟩ := hc₃ rfl
        apply (ih table' hleft).mono
        intro result c₄ hc₄ hraised
        rw [hc₄ hraised, hrounds]
        omega

end Pieces

/-- The requests for setting the breakpoints of all functions, and that to continue. -/
def setUpRequests (symbolsMap : Word → Option Symbol) (units : List CompileUnit) : Nat :=
  2 * (functionRequests symbolsMap units).length + 1

/-- The debugger keeps the pace from its first wait on. -/
theorem pace_run (debugInfo : Bool) (symbolsMap : Word → Option Symbol)
    (units : List CompileUnit) (rounds : Nat) :
    KeepsPace (setUpRequests symbolsMap units) (fun r c' ↦ r.2 = none → c'.rounds = rounds)
      (run debugInfo symbolsMap units rounds) ⟨0, 0⟩ := by
  apply pace_waitForSignal.bind
  rintro _ c rfl
  cases debugInfo with
  | false => exact ⟨trivial, fun x ↦ x.elim⟩
  | true =>
    rw [if_pos rfl, setAllFunctionBreakpoints_eq]
    have hleft : ((⟨0, 0⟩ : Pace).waited (setUpRequests symbolsMap units)).left =
        2 * (functionRequests symbolsMap units).length + 1 := rfl
    apply (pace_setBreakpoints Table.empty _ (by omega)).bind
    rintro ⟨table, raised⟩ c₁ hc₁
    cases raised with
    | some f =>
      intro hraised
      cases hraised
    | none =>
      obtain ⟨hrounds, hrest⟩ := hc₁ rfl
      apply (pace_continueExecution table rounds (by omega)).mono
      intro result c₂ hc₂ hraised
      rw [hc₂ hraised, hrounds]
      exact Nat.zero_add rounds

section Dialogues

variable {setUp : Nat} {c : Pace} {l l' : List PtraceEvent}

/-- The rounds are the requests to continue. -/
theorem rounds_track (c : Pace) (l : List PtraceEvent) :
    ((paceProtocol setUp).track c l).rounds = c.rounds + count Request.isCont l := by
  induction l using List.reverseRecOn with
  | nil => rfl
  | append_singleton l e ih =>
    rw [Protocol.track_concat, count_concat, ← Nat.add_assoc, ← ih]
    obtain ⟨r, x⟩ := e
    cases r with
    | resume how => cases how <;> rfl
    | exit reason => exact x.elim
    | getRegs | setRegs | peekData | pokeData | waitpid | getBreakpointInfo => rfl

variable {debugInfo : Bool} {symbolsMap : Word → Option Symbol} {units : List CompileUnit}
  {rounds : Nat} {q : Dbg (Table × Option Failure)}

/-- The loop of the debugger is left without an exception after all of its rounds only. -/
theorem rounds_of_done {table : Table}
    (h : Follows (run debugInfo symbolsMap units rounds) l (.done (table, none))) :
    count Request.isCont l = rounds := by
  obtain ⟨-, hdone⟩ := (pace_run debugInfo symbolsMap units rounds).follows h
  have hrounds := (rounds_track ⟨0, 0⟩ l).symm.trans (hdone rfl)
  rw [Nat.zero_add] at hrounds
  exact hrounds

end Dialogues

end ArgsDebugger
