import ArgsDebugger.Debugger.StepOver
import ArgsDebugger.Lib.Overlay
import Mathlib.Logic.Relation

/-!
# The breakpoint table and the debuggee's memory

Beside the debugged process runs a ghost: the memory the program would have without the
debugger. `Patched` relates the two through the table, whatever the distances between the
records. Each operation of `src/breakpoint.cc:23–73` and a whole `step_over_breakpoint`
keeps it, hence so does every run of them.
-/

namespace ArgsDebugger

open Lib

/-- An enabled record stands at the address. -/
def Table.armedAt (table : Table) (x : Word) : Bool :=
  match table x with
  | some bp => bp.enabled
  | none => false

/-- A record entered at an address arms it exactly when the record is enabled. -/
theorem Table.armedAt_set (table : Table) (a : Word) (bp : Breakpoint) :
    (table.set a bp).armedAt = Function.update table.armedAt a bp.enabled := by
  funext x
  by_cases h : x = a
  · subst h
    simp [armedAt]
  · simp [armedAt, table.set_of_ne bp h, h]

theorem Table.armedAt_of_eq {table : Table} {a : Word} {bp : Breakpoint}
    (h : table a = some bp) : table.armedAt a = bp.enabled := by
  simp only [armedAt, h]

/-- The writes touch no byte at which a record exists. -/
def Table.Avoids (table : Table) (w : Word → Option Byte) : Prop :=
  ∀ a, (table a).isSome = true → w a = none

theorem Table.Avoids.of_armedAt {table : Table} {w : Word → Option Byte} (h : table.Avoids w)
    (a : Word) (ha : table.armedAt a = true) : w a = none := by
  apply h a
  unfold armedAt at ha
  cases ht : table a with
  | none => simp [ht] at ha
  | some bp => rfl

/-- Table, debuggee memory and the memory of the program without the debugger agree. -/
structure Patched (table : Table) (program : Word → Byte) (m : Memory) : Prop where
  keyed : ∀ a bp, table a = some bp → bp.bpAddress = a
  saved : ∀ a bp, table a = some bp → bp.originalData = program a
  bytes : m.bytes = overlay int3 table.armedAt program

namespace Patched

variable {table : Table} {program : Word → Byte} {m m' : Memory} {a : Word} {bp : Breakpoint}

/-- The empty table goes with the program's own memory. -/
theorem empty (m : Memory) : Patched Table.empty m.bytes m where
  keyed a bp h := by cases h
  saved a bp h := by cases h
  bytes := (overlay_of_none fun _ ↦ rfl).symm

/-- A byte without an enabled record is the program's own. -/
theorem bytes_of_not_armed (h : Patched table program m) (ha : table.armedAt a = false) :
    m.bytes a = program a := by
  rw [h.bytes, overlay_of_not_armed ha]

/-- A record entered at its own address with the program's byte keeps the first two clauses. -/
private theorem set_records (h : Patched table program m) (hk : bp.bpAddress = a)
    (hs : bp.originalData = program a) (b : Word) (bp' : Breakpoint)
    (hb : table.set a bp b = some bp') :
    bp'.bpAddress = b ∧ bp'.originalData = program b := by
  by_cases hab : b = a
  · subst hab
    rw [Table.set_self] at hb
    cases hb
    exact ⟨hk, hs⟩
  · rw [table.set_of_ne bp hab] at hb
    exact ⟨h.keyed b bp' hb, h.saved b bp' hb⟩

/-- Arming a record at an address that is not armed: the saved byte is the program's. -/
theorem arm (h : Patched table program m) (hk : bp.bpAddress = a)
    (ha : table.armedAt a = false) :
    Patched (table.set a (bp.armed m)) program (m.setByte a int3) := by
  have hs : (bp.armed m).originalData = program a := by
    change m.bytes bp.bpAddress = program a
    rw [hk, h.bytes_of_not_armed ha]
  have hr := h.set_records (show (bp.armed m).bpAddress = a from hk) hs
  refine ⟨fun b bp' hb ↦ (hr b bp' hb).1, fun b bp' hb ↦ (hr b bp' hb).2, ?_⟩
  change Function.update m.bytes a int3 = _
  rw [h.bytes, update_overlay_arm, Table.armedAt_set]
  rfl

/-- Disarming a record of the table puts the program's byte back. -/
theorem disarm (h : Patched table program m) (ht : table a = some bp) :
    Patched (table.set a bp.disarmed) program (m.setByte a bp.originalData) := by
  have hr := h.set_records (show bp.disarmed.bpAddress = a from h.keyed a bp ht)
    (h.saved a bp ht)
  refine ⟨fun b bp' hb ↦ (hr b bp' hb).1, fun b bp' hb ↦ (hr b bp' hb).2, ?_⟩
  change Function.update m.bytes a bp.originalData = _
  rw [h.bytes, h.saved a bp ht, update_overlay_disarm, Table.armedAt_set]
  rfl

/-- A debuggee write outside the records reaches the program's memory unchanged. -/
theorem write (h : Patched table program m) {w : Word → Option Byte} (hw : table.Avoids w)
    (hm : m'.bytes = applyWrite w m.bytes) : Patched table (applyWrite w program) m' where
  keyed := h.keyed
  saved b bp hb := by
    rw [h.saved b bp hb, applyWrite_of_none (hw b (by rw [hb]; rfl))]
  bytes := by rw [hm, h.bytes, applyWrite_overlay hw.of_armedAt]

/-- Stepping over a record: disarm, a write outside the records, and arming again. -/
theorem stepOver (h : Patched table program m) (ht : table a = some bp)
    {w : Word → Option Byte} (hw : table.Avoids w)
    (hm : m'.bytes = applyWrite w (m.setByte a bp.originalData).bytes) :
    Patched (table.set a (bp.armed m')) (applyWrite w program) (m'.setByte a int3) := by
  have hk := h.keyed a bp ht
  have hw' : (table.set a bp.disarmed).Avoids w := by
    intro b hb
    by_cases hab : b = a
    · exact hw b (by rw [hab, ht]; rfl)
    · rw [table.set_of_ne _ hab] at hb
      exact hw b hb
  have hd := (h.disarm ht).write hw' hm
  have harm := hd.arm (show bp.disarmed.bpAddress = a from hk)
    (by rw [Table.armedAt_of_eq (table.set_self a bp.disarmed)]; rfl)
  have hset : (table.set a bp.disarmed).set a (bp.disarmed.armed m') =
      table.set a (bp.armed m') := Function.update_idem ..
  rwa [hset] at harm

end Patched

/-- A debugged process between two operations, with the ghost memory of the program. -/
structure PatchState (κ : Type) where
  table : Table
  session : Session κ
  program : Word → Byte

variable {κ : Type}

/-- The operations on the table and on the debuggee's memory, each in surroundings of its
own and each raising nothing. -/
inductive PatchStep : PatchState κ → PatchState κ → Prop
  | set (env : Environment κ) {st : PatchState κ} {bpName breakpointType : Text} {addr : Word}
      {cuIndex fnIndex : Int} {table' : Table} {s' : Session κ}
      (h : env.run (setBreakpoint6 st.table bpName addr breakpointType cuIndex fnIndex)
        st.session = some ((table', none), s')) :
      PatchStep st ⟨table', s', st.program⟩
  | disable (env : Environment κ) {st : PatchState κ} {a : Word} {bp bp' : Breakpoint}
      {s' : Session κ} (ht : st.table a = some bp) (he : bp.enabled = true)
      (h : env.run bp.disableBreakpoint st.session = some ((bp', none), s')) :
      PatchStep st ⟨st.table.set a bp', s', st.program⟩
  | enable (env : Environment κ) {st : PatchState κ} {a : Word} {bp bp' : Breakpoint}
      {s' : Session κ} (ht : st.table a = some bp) (he : bp.enabled = false)
      (h : env.run bp.enableBreakpoint st.session = some ((bp', none), s')) :
      PatchStep st ⟨st.table.set a bp', s', st.program⟩
  /-- The single step, if the call gets to it, writes `w`. -/
  | stepOver (env : Environment κ) {st : PatchState κ} {w : Word → Option Byte}
      {table' : Table} {s' : Session κ} (hw : st.table.Avoids w)
      (hstep : ∀ t t', env.resume .singleStep t = some t' →
        t'.mem.bytes = applyWrite w t.mem.bytes)
      (h : env.run (stepOverBreakpoint st.table) st.session = some ((table', none), s')) :
      PatchStep st ⟨table', s',
        if st.table.armedAt (st.session.tracee.regs.rip - 1) then applyWrite w st.program
        else st.program⟩
  /-- The debuggee runs: registers change in any way, memory outside the records too. -/
  | write {st : PatchState κ} {w : Word → Option Byte} {t : Tracee κ}
      (hw : st.table.Avoids w) (hm : t.mem.bytes = applyWrite w st.session.tracee.mem.bytes) :
      PatchStep st ⟨st.table, st.session.withTracee t, applyWrite w st.program⟩

/-- No breakpoint is set, and the program's memory is the debuggee's. -/
def PatchState.start (s : Session κ) : PatchState κ := ⟨Table.empty, s, s.tracee.mem.bytes⟩

/-- The records and the debuggee's memory fit the program's memory. -/
def PatchState.Ok (st : PatchState κ) : Prop :=
  Patched st.table st.program st.session.tracee.mem

/-- Every operation keeps table, memory and program memory in agreement. -/
theorem PatchStep.ok {st st' : PatchState κ} (h : PatchStep st st') (hi : st.Ok) : st'.Ok := by
  cases h with
  | @set env _ _ _ addr _ _ table' s' h =>
    rcases setBreakpoint6_cases env _ h with ⟨-, rfl, rfl⟩ | ⟨ha, -, rfl, rfl⟩
    · exact hi
    · have hfresh : st.table.armedAt addr = false := by simp only [Table.armedAt, ha]
      exact Patched.arm hi
        (show (⟨_, _, addr, 0, false, _, _⟩ : Breakpoint).bpAddress = addr from rfl) hfresh
  | disable env ht he h =>
    obtain ⟨-, rfl, rfl⟩ := Breakpoint.disableBreakpoint_cases env _ _ h
    have hd := Patched.disarm hi ht
    rwa [← hi.keyed _ _ ht] at hd ⊢
  | enable env ht he h =>
    obtain ⟨-, rfl, rfl⟩ := Breakpoint.enableBreakpoint_cases env _ _ h
    have harm := Patched.arm hi (hi.keyed _ _ ht) (by rw [Table.armedAt_of_eq ht, he])
    rwa [← hi.keyed _ _ ht] at harm ⊢
  | stepOver env hw hstep h =>
    cases (run_stepOverBreakpoint_iff env _).mp h with
    | absent ha =>
      simp only [PatchState.Ok, Table.armedAt, ha, Bool.false_eq_true, ite_false]
      exact hi
    | disabled ht hd =>
      simp only [PatchState.Ok, Table.armedAt_of_eq ht, hd, Bool.false_eq_true, ite_false]
      exact hi
    | hit ht he hs =>
      simp only [PatchState.Ok, Table.armedAt_of_eq ht, he, ite_true]
      have hm := hstep _ _ hs.step
      rw [hi.keyed _ _ ht] at hm ⊢
      exact Patched.stepOver hi ht hw hm
  | write hw hm => exact Patched.write hi hw hm

/-- Every state reachable from an empty table is in agreement. -/
theorem PatchState.ok_of_reachable {s : Session κ} {st : PatchState κ}
    (h : Relation.ReflTransGen PatchStep (PatchState.start s) st) : st.Ok := by
  induction h with
  | refl => exact Patched.empty s.tracee.mem
  | tail _ hstep ih => exact hstep.ok ih

/-- In every run of operations from an empty table, each record is keyed by its address and
saves the program's byte there, memory is the program's with `int3` at exactly the enabled
records, and memory is the program's once every record is disabled. -/
theorem memory_eq_program_overlay {s : Session κ} {st : PatchState κ}
    (h : Relation.ReflTransGen PatchStep (PatchState.start s) st) :
    (∀ a bp, st.table a = some bp → bp.bpAddress = a ∧ bp.originalData = st.program a) ∧
      (∀ x, st.session.tracee.mem.bytes x =
        if st.table.armedAt x then int3 else st.program x) ∧
      ((∀ a bp, st.table a = some bp → bp.enabled = false) →
        st.session.tracee.mem.bytes = st.program) := by
  have hi := PatchState.ok_of_reachable h
  refine ⟨fun a bp ha ↦ ⟨hi.keyed a bp ha, hi.saved a bp ha⟩, fun x ↦ congrFun hi.bytes x, ?_⟩
  intro hd
  have hn (x : Word) : st.table.armedAt x = false := by
    cases hx : st.table x with
    | none => simp only [Table.armedAt, hx]
    | some bp => rw [Table.armedAt_of_eq hx, hd x bp hx]
  rw [hi.bytes, overlay_of_none hn]

/-- A process of `nop` instructions, stopped at address 16. -/
def sampleSession : Session Unit :=
  ⟨⟨⟨0, 0, 0, 0, 0, 0, 16⟩, (), ⟨fun _ ↦ 0x90, fun _ ↦ true⟩⟩, []⟩

/-- Surroundings in which a resumed process stops where it is. -/
def sampleEnvironment : Environment Unit := ⟨fun _ t ↦ some t, fun _ ↦ sigtrapStop, fun _ _ ↦ none⟩

/-- Two records in one word, the first of them disabled again. -/
theorem memory_eq_program_overlay_sample :
    ∃ st : PatchState Unit, Relation.ReflTransGen PatchStep (PatchState.start sampleSession) st ∧
      st.session.tracee.mem.bytes 16 = 0x90 ∧ st.session.tracee.mem.bytes 17 = int3 := by
  let f : Breakpoint := ⟨"function".toList, "f".toList, 16, 0x90, true, 0, 0⟩
  let g : Breakpoint := ⟨"function".toList, "g".toList, 17, 0x90, true, 0, 1⟩
  let table := Table.empty.set 16 f
  let middle := sampleSession.withMem (sampleSession.tracee.mem.setByte 16 int3)
  let last := middle.withMem (middle.tracee.mem.setByte 17 int3)
  have hf := run_setBreakpoint6 sampleEnvironment sampleSession Table.empty "f".toList
    "function".toList 16 0 0 rfl (by decide)
  have hg := run_setBreakpoint6 sampleEnvironment middle table "g".toList "function".toList
    17 0 1 rfl (by decide)
  have hoff := f.run_disableBreakpoint sampleEnvironment last (by decide)
  have ht : (table.set 17 g) 16 = some f := by
    rw [Table.set_of_ne _ _ (by decide)]
    exact Table.set_self ..
  have hset : Relation.ReflTransGen PatchStep (PatchState.start sampleSession)
      ⟨table.set 17 g, last, sampleSession.tracee.mem.bytes⟩ :=
    (Relation.ReflTransGen.single (PatchStep.set sampleEnvironment hf)).tail
      (PatchStep.set sampleEnvironment hg)
  have hdisable : PatchStep ⟨table.set 17 g, last, sampleSession.tracee.mem.bytes⟩
      ⟨(table.set 17 g).set 16 f.disarmed, last.withMem (last.tracee.mem.setByte 16 0x90),
        sampleSession.tracee.mem.bytes⟩ := PatchStep.disable sampleEnvironment ht rfl hoff
  have hrun := hset.tail hdisable
  have hmem := (memory_eq_program_overlay hrun).2.1
  exact ⟨_, hrun, hmem 16, hmem 17⟩

/-- Stepping over an enabled breakpoint loses no write of the stepped instruction: whatever it
makes of the memory with the program's byte put back, that memory stays but for the `int3`, and
the record saves the byte the instruction left under it. -/
theorem stepOverBreakpoint_keeps_writes (env : Environment κ) (s : Session κ) (table : Table)
    (program : Word → Byte) (hok : Patched table program s.tracee.mem) {a : Word}
    {bp : Breakpoint} (ht : table a = some bp) (he : bp.enabled = true)
    (hpc : s.tracee.regs.rip = a + 1) (hinfo : env.info bp s.tracee = none)
    (hdisarm : s.tracee.mem.peekData a ≠ allOnes) (g : (Word → Byte) → Word → Byte)
    {t : Tracee κ}
    (hstep : env.resume .singleStep
      ((s.withRip a).withMem (s.tracee.mem.setByte a (program a))).tracee = some t)
    (hg : t.mem.bytes = g (Function.update s.tracee.mem.bytes a (program a)))
    (hwait : WaitReturns (env.status t)) (hrearm : t.mem.peekData a ≠ allOnes) :
    ∃ bp' s', env.run (stepOverBreakpoint table) s = some ((table.set a bp', none), s') ∧
      s'.tracee.mem.bytes =
        Function.update (g (Function.update s.tracee.mem.bytes a (program a))) a int3 ∧
      bp' = { bp with
        originalData := g (Function.update s.tracee.mem.bytes a (program a)) a
        enabled := true } ∧
      ∀ b, b ≠ a → table.set a bp' b = table b := by
  have hloc : s.tracee.regs.rip - 1 = a := by
    rw [hpc]
    exact BitVec.add_sub_cancel a 1
  have hkey : bp.bpAddress = a := hok.keyed a bp ht
  have hsaved : bp.originalData = program a := hok.saved a bp ht
  have hstepped : Stepped env (s.tracee.regs.rip - 1) bp s t := by
    rw [hloc]
    rw [← hsaved] at hstep
    rw [← hkey] at hdisarm hrearm
    refine ⟨hinfo, hdisarm, ?_, hwait, hrearm⟩
    rw [hkey]
    exact hstep
  have hrecord : table (s.tracee.regs.rip - 1) = some bp := by rw [hloc, ht]
  have hrun := (run_stepOverBreakpoint_iff env s).mpr (.hit hrecord he hstepped)
  rw [hloc] at hrun
  refine ⟨_, _, hrun, ?_, ?_, fun b hb ↦ table.set_of_ne _ hb⟩
  · show Function.update t.mem.bytes bp.bpAddress int3 = _
    rw [hkey, hg]
  · show bp.armed t.mem = _
    rw [Breakpoint.armed, hkey, hg]

/-- An instruction that overwrites itself: the new byte is saved, and the `int3` is back. -/
theorem stepOverBreakpoint_keeps_writes_sample :
    ∃ (env : Environment Unit) (s : Session Unit) (table table' : Table) (s' : Session Unit),
      env.run (stepOverBreakpoint table) s = some ((table', none), s') ∧
        s'.tracee.mem.bytes 16 = int3 ∧
        (table' 16).map Breakpoint.originalData = some 0x55 := by
  let bp : Breakpoint := ⟨"function_call".toList, "f".toList, 16, 0x90, true, 0, 0⟩
  let table := Table.empty.set 16 bp
  let env : Environment Unit :=
    ⟨fun _ t ↦ some { t with mem := t.mem.setByte 16 0x55 }, fun _ ↦ sigtrapStop, fun _ _ ↦ none⟩
  let s := (sampleSession.withMem (sampleSession.tracee.mem.setByte 16 int3)).withRip 17
  have hok : Patched table sampleSession.tracee.mem.bytes s.tracee.mem :=
    (Patched.empty sampleSession.tracee.mem).arm (show bp.bpAddress = 16 from rfl) rfl
  have ht : table 16 = some bp := Table.empty.set_self 16 bp
  obtain ⟨bp', s', hrun, hmem, hbp, -⟩ := stepOverBreakpoint_keeps_writes env s table
    sampleSession.tracee.mem.bytes hok ht rfl rfl rfl (by decide)
    (fun f ↦ Function.update f 16 0x55) rfl rfl (fun _ ↦ by decide) (by decide)
  refine ⟨env, s, table, _, s', hrun, ?_, ?_⟩
  · rw [hmem]
    rfl
  · rw [Table.set_self, hbp]
    rfl

end ArgsDebugger
