import ArgsDebugger.Ptrace

/-!
# Breakpoint records and the int3 patch

`src/breakpoint.cc`. A record is armed by replacing the low byte of the word at its address
by `0xcc` and disarmed by putting the saved byte back. Either call raises when its peek
returns all ones, which a failed peek and a word of `0xff` bytes both do. The table is the
static `m_breakpoints`; no code iterates over it, so a partial map stands for it.
-/

namespace ArgsDebugger

/-- The opcode of `int3`. -/
def int3 : Byte := 0xcc#8

/-- `Breakpoint::m_breakpoints`. -/
abbrev Table := Word → Option Breakpoint

/-- `m_breakpoints[a] = bp`. -/
def Table.set (table : Table) (a : Word) (bp : Breakpoint) : Table :=
  Function.update table a (some bp)

/-- The table before any breakpoint is set. -/
def Table.empty : Table := fun _ ↦ none

@[simp] theorem Table.set_self (table : Table) (a : Word) (bp : Breakpoint) :
    table.set a bp a = some bp := Function.update_self ..

theorem Table.set_of_ne (table : Table) {a b : Word} (bp : Breakpoint) (h : b ≠ a) :
    table.set a bp b = table b := Function.update_of_ne h ..

namespace Breakpoint

/-- `Breakpoint::enable_breakpoint`, `src/breakpoint.cc:42–58`. The record is written before
the check of the peeked word; the second component is the exception, if any. -/
def enableBreakpoint (bp : Breakpoint) : Dbg (Breakpoint × Option Failure) := do
  let data ← peekData bp.bpAddress
  let bp := { bp with originalData := (data &&& 0xff#64).setWidth 8 }
  if data = allOnes then
    return (bp, some .runtimeError)
  else
    pokeData bp.bpAddress ((data &&& highMask) ||| 0xcc#64)
    return ({ bp with enabled := true }, none)

/-- `Breakpoint::disable_breakpoint`, `src/breakpoint.cc:60–73`. -/
def disableBreakpoint (bp : Breakpoint) : Dbg (Breakpoint × Option Failure) := do
  let data ← peekData bp.bpAddress
  if data = allOnes then
    return (bp, some .runtimeError)
  else
    pokeData bp.bpAddress ((data &&& highMask) ||| bp.originalData.setWidth 64)
    return ({ bp with enabled := false }, none)

/-- The record after it has been armed over a memory. -/
def armed (bp : Breakpoint) (m : Memory) : Breakpoint :=
  { bp with originalData := m.bytes bp.bpAddress, enabled := true }

/-- The record after it has been disarmed. -/
def disarmed (bp : Breakpoint) : Breakpoint := { bp with enabled := false }

variable {κ : Type} (env : Environment κ) (bp : Breakpoint) (s : Session κ)

/-- Arming a record over a word that is not all ones saves the byte at its address and
puts `int3` there; no other byte changes. -/
theorem run_enableBreakpoint (h : s.tracee.mem.peekData bp.bpAddress ≠ allOnes) :
    env.run bp.enableBreakpoint s =
      some ((bp.armed s.tracee.mem, none),
        s.withMem (s.tracee.mem.setByte bp.bpAddress int3)) := by
  obtain ⟨hr, hw⟩ := Memory.peekData_of_ne h
  have hp := s.tracee.mem.pokeData_lowByte bp.bpAddress int3 hr
  simp only [enableBreakpoint, run_seq, run_peekData, Option.bind_some, if_neg h]
  rw [hw, show 0xcc#64 = int3.setWidth 64 from rfl]
  simp only [run_pokeData, run_done, Option.bind_some, hp, Memory.setWidth_word, armed]

/-- Arming a record over an all-ones word raises, with the record already overwritten. -/
theorem run_enableBreakpoint_raises (h : s.tracee.mem.peekData bp.bpAddress = allOnes) :
    env.run bp.enableBreakpoint s =
      some (({ bp with originalData := 0xff#8 }, some .runtimeError), s) := by
  simp only [enableBreakpoint, run_seq, run_peekData, Option.bind_some, h]
  rfl

/-- Disarming a record over a word that is not all ones puts its saved byte back; no other
byte changes. -/
theorem run_disableBreakpoint (h : s.tracee.mem.peekData bp.bpAddress ≠ allOnes) :
    env.run bp.disableBreakpoint s =
      some ((bp.disarmed, none),
        s.withMem (s.tracee.mem.setByte bp.bpAddress bp.originalData)) := by
  obtain ⟨hr, hw⟩ := Memory.peekData_of_ne h
  have hp := s.tracee.mem.pokeData_lowByte bp.bpAddress bp.originalData hr
  simp only [disableBreakpoint, run_seq, run_peekData, Option.bind_some, if_neg h]
  rw [hw]
  simp only [run_pokeData, run_done, Option.bind_some, hp, disarmed]

/-- Disarming a record over an all-ones word raises and changes nothing. -/
theorem run_disableBreakpoint_raises (h : s.tracee.mem.peekData bp.bpAddress = allOnes) :
    env.run bp.disableBreakpoint s = some ((bp, some .runtimeError), s) := by
  simp only [disableBreakpoint, run_seq, run_peekData, Option.bind_some, h, ite_true, run_done]

/-- What a call of `enable_breakpoint` that raises nothing has done. -/
theorem enableBreakpoint_cases {bp' : Breakpoint} {s' : Session κ}
    (h : env.run bp.enableBreakpoint s = some ((bp', none), s')) :
    s.tracee.mem.peekData bp.bpAddress ≠ allOnes ∧ bp' = bp.armed s.tracee.mem ∧
      s' = s.withMem (s.tracee.mem.setByte bp.bpAddress int3) := by
  by_cases hp : s.tracee.mem.peekData bp.bpAddress = allOnes
  · rw [run_enableBreakpoint_raises env bp s hp] at h
    simp at h
  · rw [run_enableBreakpoint env bp s hp] at h
    cases h
    exact ⟨hp, rfl, rfl⟩

/-- What a call of `disable_breakpoint` that raises nothing has done. -/
theorem disableBreakpoint_cases {bp' : Breakpoint} {s' : Session κ}
    (h : env.run bp.disableBreakpoint s = some ((bp', none), s')) :
    s.tracee.mem.peekData bp.bpAddress ≠ allOnes ∧ bp' = bp.disarmed ∧
      s' = s.withMem (s.tracee.mem.setByte bp.bpAddress bp.originalData) := by
  by_cases hp : s.tracee.mem.peekData bp.bpAddress = allOnes
  · rw [run_disableBreakpoint_raises env bp s hp] at h
    simp at h
  · rw [run_disableBreakpoint env bp s hp] at h
    cases h
    exact ⟨hp, rfl, rfl⟩

/-- Arming raises exactly when the peek returns all ones. -/
theorem raises_enableBreakpoint_iff :
    (∃ bp' f s', env.run bp.enableBreakpoint s = some ((bp', some f), s')) ↔
      s.tracee.mem.peekData bp.bpAddress = allOnes := by
  constructor
  · rintro ⟨bp', f, s', h⟩
    by_contra hp
    rw [run_enableBreakpoint env bp s hp] at h
    simp at h
  · intro hp
    exact ⟨_, _, _, run_enableBreakpoint_raises env bp s hp⟩

/-- Disarming raises exactly when the peek returns all ones. -/
theorem raises_disableBreakpoint_iff :
    (∃ bp' f s', env.run bp.disableBreakpoint s = some ((bp', some f), s')) ↔
      s.tracee.mem.peekData bp.bpAddress = allOnes := by
  constructor
  · rintro ⟨bp', f, s', h⟩
    by_contra hp
    rw [run_disableBreakpoint env bp s hp] at h
    simp at h
  · intro hp
    exact ⟨_, _, _, run_disableBreakpoint_raises env bp s hp⟩

/-- The error path of a patching call: it raises exactly when the word cannot be read, and
then record and memory are as before. -/
def FailsClean (patch : Dbg (Breakpoint × Option Failure)) : Prop :=
  ((∃ bp' f s', env.run patch s = some ((bp', some f), s')) ↔
    s.tracee.mem.wordReadable bp.bpAddress = false) ∧
  ∀ bp' f s', env.run patch s = some ((bp', some f), s') →
    bp' = bp ∧ s'.tracee.mem = s.tracee.mem

/-- The peek tells a word that cannot be read from one that can: the word at the address is
not all ones. -/
theorem peekData_eq_allOnes_iff_unreadable {m : Memory} {a : Word} :
    (m.peekData a = allOnes ↔ m.wordReadable a = false) ↔
      (m.wordReadable a = true → m.word a ≠ allOnes) := by
  unfold Memory.peekData
  cases m.wordReadable a with
  | true => simp
  | false => simp

/-- The error path of `disable_breakpoint` is clean unless the word is all ones. -/
theorem failsClean_disableBreakpoint_iff :
    FailsClean env bp s bp.disableBreakpoint ↔
      (s.tracee.mem.wordReadable bp.bpAddress = true →
        s.tracee.mem.word bp.bpAddress ≠ allOnes) := by
  rw [FailsClean, raises_disableBreakpoint_iff, peekData_eq_allOnes_iff_unreadable]
  apply and_iff_left
  intro bp' f s' h
  have hp := (raises_disableBreakpoint_iff env bp s).mp ⟨bp', f, s', h⟩
  rw [run_disableBreakpoint_raises env bp s hp] at h
  cases h
  exact ⟨rfl, rfl⟩

/-- The error path of `enable_breakpoint` is clean unless the word is all ones, or cannot be
read while the saved byte is not the one that the failed peek overwrites it with. -/
theorem failsClean_enableBreakpoint_iff :
    FailsClean env bp s bp.enableBreakpoint ↔
      if s.tracee.mem.wordReadable bp.bpAddress then s.tracee.mem.word bp.bpAddress ≠ allOnes
      else bp.originalData = 0xff#8 := by
  rw [FailsClean, raises_enableBreakpoint_iff, peekData_eq_allOnes_iff_unreadable]
  cases hr : s.tracee.mem.wordReadable bp.bpAddress with
  | true =>
    simp only [if_true, true_implies]
    apply and_iff_left_of_imp
    intro hw bp' f s' h
    have hp := (raises_enableBreakpoint_iff env bp s).mp ⟨bp', f, s', h⟩
    rw [Memory.peekData, hr, if_pos rfl] at hp
    exact absurd hp hw
  | false =>
    have hp : s.tracee.mem.peekData bp.bpAddress = allOnes := by
      rw [Memory.peekData, hr]
      rfl
    have hrun := run_enableBreakpoint_raises env bp s hp
    simp only [Bool.false_eq_true, if_false, false_implies, true_and]
    constructor
    · intro h
      exact congrArg originalData (h _ _ _ hrun).1.symm
    · intro hff bp' f s' h
      rw [hrun] at h
      cases h
      rw [← hff]
      exact ⟨rfl, rfl⟩

end Breakpoint

/-- Both error paths are clean exactly when the word at the record's address can be read and is
not all ones, or cannot be read and the record's saved byte is `0xff` already. -/
theorem patch_failsClean_iff {κ : Type} (env : Environment κ) (bp : Breakpoint)
    (s : Session κ) :
    (bp.FailsClean env s bp.enableBreakpoint ∧ bp.FailsClean env s bp.disableBreakpoint) ↔
      if s.tracee.mem.wordReadable bp.bpAddress then s.tracee.mem.word bp.bpAddress ≠ allOnes
      else bp.originalData = 0xff#8 := by
  rw [Breakpoint.failsClean_enableBreakpoint_iff, Breakpoint.failsClean_disableBreakpoint_iff]
  apply and_iff_left_of_imp
  intro h hr
  rwa [if_pos hr] at h

/-- A fresh record, a memory of all-ones words, and one that cannot be read: in the first both
calls raise over a word they have read, in the second arming overwrites the record. -/
theorem patch_fails_unclean :
    let env : Environment Unit := ⟨fun _ t ↦ some t, fun _ ↦ sigtrapStop, fun _ _ ↦ none⟩
    let bp : Breakpoint := ⟨"function_call".toList, "f".toList, 16, 0, false, 0, 0⟩
    let session (readable : Bool) : Session Unit :=
      ⟨⟨⟨0, 0, 0, 0, 0, 0, 16⟩, (), ⟨fun _ ↦ 0xff, fun _ ↦ readable⟩⟩, []⟩
    (¬ bp.FailsClean env (session true) bp.enableBreakpoint ∧
      ¬ bp.FailsClean env (session true) bp.disableBreakpoint) ∧
    ¬ bp.FailsClean env (session false) bp.enableBreakpoint := by
  simp only [Breakpoint.failsClean_enableBreakpoint_iff,
    Breakpoint.failsClean_disableBreakpoint_iff]
  decide

/-- `poc::bp::set_breakpoint` with four arguments, `src/breakpoint.cc:10–21`: an existing record
is patched again and replaced. -/
def setBreakpoint4 (table : Table) (bpName : Text) (addr : Word) (breakpointType : Text) :
    Dbg (Table × Option Failure) := do
  let bp : Breakpoint := ⟨breakpointType, bpName, addr, 0, false, 0, 0⟩
  let (bp, raised) ← bp.enableBreakpoint
  match raised with
  | some f => return (table, some f)
  | none => return (table.set addr bp, none)

/-- `poc::bp::set_breakpoint` with six arguments, `src/breakpoint.cc:23–40`: an existing record
is left alone. -/
def setBreakpoint6 (table : Table) (bpName : Text) (addr : Word) (breakpointType : Text)
    (cuIndex fnIndex : Int) : Dbg (Table × Option Failure) := do
  let bp : Breakpoint := ⟨breakpointType, bpName, addr, 0, false, cuIndex, fnIndex⟩
  if (table addr).isSome then
    return (table, none)
  else
    let (bp, raised) ← bp.enableBreakpoint
    match raised with
    | some f => return (table, some f)
    | none => return (table.set addr bp, none)

section SetBreakpoint

variable {κ : Type} (env : Environment κ) (s : Session κ) (table : Table)
  (bpName breakpointType : Text) (addr : Word) (cuIndex fnIndex : Int)

/-- Setting a breakpoint with four arguments arms a fresh record and enters it, whether or not
one exists. -/
theorem run_setBreakpoint4 (h : s.tracee.mem.peekData addr ≠ allOnes) :
    env.run (setBreakpoint4 table bpName addr breakpointType) s =
      some ((table.set addr ⟨breakpointType, bpName, addr, s.tracee.mem.bytes addr, true, 0, 0⟩,
        none), s.withMem (s.tracee.mem.setByte addr int3)) := by
  let bp : Breakpoint := ⟨breakpointType, bpName, addr, 0, false, 0, 0⟩
  have hr := bp.run_enableBreakpoint env s h
  rw [setBreakpoint4, run_seq_of_run hr]
  rfl

/-- Over an all-ones word the four-argument `set_breakpoint` raises and enters nothing. -/
theorem run_setBreakpoint4_raises (h : s.tracee.mem.peekData addr = allOnes) :
    env.run (setBreakpoint4 table bpName addr breakpointType) s =
      some ((table, some .runtimeError), s) := by
  let bp : Breakpoint := ⟨breakpointType, bpName, addr, 0, false, 0, 0⟩
  have hr := bp.run_enableBreakpoint_raises env s h
  rw [setBreakpoint4, run_seq_of_run hr]
  rfl

variable {table bpName breakpointType addr} in
/-- What a call of the four-argument `set_breakpoint` that raises nothing has done. -/
theorem setBreakpoint4_cases {table' : Table} {s' : Session κ}
    (h : env.run (setBreakpoint4 table bpName addr breakpointType) s =
      some ((table', none), s')) :
    s.tracee.mem.peekData addr ≠ allOnes ∧
      table' = table.set addr
        ⟨breakpointType, bpName, addr, s.tracee.mem.bytes addr, true, 0, 0⟩ ∧
      s' = s.withMem (s.tracee.mem.setByte addr int3) := by
  by_cases hp : s.tracee.mem.peekData addr = allOnes
  · rw [run_setBreakpoint4_raises env s _ _ _ _ hp] at h
    simp at h
  · rw [run_setBreakpoint4 env s _ _ _ _ hp] at h
    cases h
    exact ⟨hp, rfl, rfl⟩

/-- Setting a breakpoint where a record exists does nothing. -/
theorem run_setBreakpoint6_of_present (h : (table addr).isSome = true) :
    env.run (setBreakpoint6 table bpName addr breakpointType cuIndex fnIndex) s =
      some ((table, none), s) := by
  simp only [setBreakpoint6, h, ite_true, run_done]

/-- Setting a breakpoint where no record exists arms a fresh record and enters it. -/
theorem run_setBreakpoint6 (ha : table addr = none)
    (h : s.tracee.mem.peekData addr ≠ allOnes) :
    env.run (setBreakpoint6 table bpName addr breakpointType cuIndex fnIndex) s =
      some ((table.set addr ⟨breakpointType, bpName, addr, s.tracee.mem.bytes addr, true,
        cuIndex, fnIndex⟩, none), s.withMem (s.tracee.mem.setByte addr int3)) := by
  let bp : Breakpoint := ⟨breakpointType, bpName, addr, 0, false, cuIndex, fnIndex⟩
  have hr := bp.run_enableBreakpoint env s h
  simp only [setBreakpoint6, ha, Option.isSome_none, Bool.false_eq_true, ite_false]
  rw [run_seq_of_run hr]
  rfl

/-- Setting a breakpoint over an all-ones word raises and enters nothing. -/
theorem run_setBreakpoint6_raises (ha : table addr = none)
    (h : s.tracee.mem.peekData addr = allOnes) :
    env.run (setBreakpoint6 table bpName addr breakpointType cuIndex fnIndex) s =
      some ((table, some .runtimeError), s) := by
  let bp : Breakpoint := ⟨breakpointType, bpName, addr, 0, false, cuIndex, fnIndex⟩
  have hr := bp.run_enableBreakpoint_raises env s h
  simp only [setBreakpoint6, ha, Option.isSome_none, Bool.false_eq_true, ite_false]
  rw [run_seq_of_run hr]
  rfl

variable {table bpName breakpointType addr cuIndex fnIndex} in
/-- What a call of the six-argument `set_breakpoint` that raises nothing has done. -/
theorem setBreakpoint6_cases {table' : Table} {s' : Session κ}
    (h : env.run (setBreakpoint6 table bpName addr breakpointType cuIndex fnIndex) s =
      some ((table', none), s')) :
    ((table addr).isSome = true ∧ table' = table ∧ s' = s) ∨
      (table addr = none ∧ s.tracee.mem.peekData addr ≠ allOnes ∧
        table' = table.set addr ⟨breakpointType, bpName, addr, s.tracee.mem.bytes addr, true,
          cuIndex, fnIndex⟩ ∧
        s' = s.withMem (s.tracee.mem.setByte addr int3)) := by
  cases ha : table addr with
  | some bp =>
    rw [run_setBreakpoint6_of_present env s _ _ _ _ _ _ (by rw [ha]; rfl)] at h
    cases h
    exact .inl ⟨rfl, rfl, rfl⟩
  | none =>
    by_cases hp : s.tracee.mem.peekData addr = allOnes
    · rw [run_setBreakpoint6_raises env s _ _ _ _ _ _ ha hp] at h
      simp at h
    · rw [run_setBreakpoint6 env s _ _ _ _ _ _ ha hp] at h
      cases h
      exact .inr ⟨rfl, hp, rfl, rfl⟩

end SetBreakpoint

end ArgsDebugger
