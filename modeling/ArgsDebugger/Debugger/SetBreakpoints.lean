import ArgsDebugger.Debugger.PatchInvariant

/-!
# Setting a list of breakpoints

Calls of the six-argument `set_breakpoint` one after the other, from an empty table. The
first request for an address wins; `tableOf` is the table that results, and `patched` the
memory. The calls go through exactly when each word that is patched reads as something
other than all ones at that moment.
-/

namespace ArgsDebugger

open Lib

/-- The arguments of one call of the six-argument `set_breakpoint`. -/
structure SetRequest where
  bpName : Text
  addr : Word
  breakpointType : Text
  cuIndex : Int
  fnIndex : Int
  deriving DecidableEq, Repr

/-- Set the breakpoints in order, up to the first exception. -/
def setBreakpoints (table : Table) : List SetRequest → Dbg (Table × Option Failure)
  | [] => return (table, none)
  | r :: rs => do
    let (table, raised) ←
      setBreakpoint6 table r.bpName r.addr r.breakpointType r.cuIndex r.fnIndex
    match raised with
    | some f => return (table, some f)
    | none => setBreakpoints table rs

/-- The enabled record of a request over the program's memory. -/
def SetRequest.record (r : SetRequest) (program : Word → Byte) : Breakpoint :=
  ⟨r.breakpointType, r.bpName, r.addr, program r.addr, true, r.cuIndex, r.fnIndex⟩

/-- The table after the requests: at each address the record of the first one for it. -/
def tableOf (program : Word → Byte) (rs : List SetRequest) : Table :=
  fun a ↦ (rs.find? fun r ↦ r.addr = a).map fun r ↦ r.record program

/-- Some request is for the address. -/
def requested (rs : List SetRequest) (a : Word) : Bool := rs.any fun r ↦ r.addr = a

/-- The memory after the requests. -/
def Memory.patched (m : Memory) (rs : List SetRequest) : Memory :=
  { m with bytes := overlay int3 (requested rs) m.bytes }

variable {κ : Type} (program : Word → Byte) (rs : List SetRequest) (r : SetRequest)

/-- The addresses with a record are the requested ones. -/
theorem isSome_tableOf (a : Word) : (tableOf program rs a).isSome = requested rs a := by
  rw [tableOf, requested, Option.isSome_map, List.isSome_find?]

/-- Every record of the table is enabled. -/
theorem armedAt_tableOf (a : Word) : (tableOf program rs).armedAt a = requested rs a := by
  rw [← isSome_tableOf program]
  unfold Table.armedAt tableOf
  cases rs.find? fun r ↦ r.addr = a <;> rfl

/-- Every record is keyed by its address, enabled, and saves the program's byte. -/
theorem tableOf_spec {a : Word} {bp : Breakpoint} (h : tableOf program rs a = some bp) :
    bp.bpAddress = a ∧ bp.originalData = program a ∧ bp.enabled = true := by
  obtain ⟨r, hr, rfl⟩ := Option.map_eq_some_iff.mp h
  have ha : r.addr = a := by simpa using List.find?_some hr
  exact ⟨ha, congrArg program ha, rfl⟩

/-- A further request for a recorded address changes nothing. -/
theorem tableOf_append_of_present (h : (tableOf program rs r.addr).isSome = true) :
    tableOf program (rs ++ [r]) = tableOf program rs := by
  rw [tableOf, Option.isSome_map] at h
  obtain ⟨q, hq⟩ := Option.isSome_iff_exists.mp h
  funext a
  simp only [tableOf, List.find?_append, List.find?_singleton]
  by_cases ha : r.addr = a
  · subst ha
    rw [hq]
    rfl
  · simp [ha]

/-- A request for a new address enters its record. -/
theorem tableOf_append (h : tableOf program rs r.addr = none) :
    tableOf program (rs ++ [r]) = (tableOf program rs).set r.addr (r.record program) := by
  have hn : (rs.find? fun q ↦ q.addr = r.addr) = none := Option.map_eq_none_iff.mp h
  funext a
  by_cases ha : a = r.addr
  · subst ha
    rw [Table.set_self]
    simp only [tableOf, List.find?_append, hn, List.find?_singleton]
    simp
  · rw [Table.set_of_ne _ _ ha]
    simp only [tableOf, List.find?_append, List.find?_singleton, Ne.symm ha]
    simp

theorem requested_append (a : Word) :
    requested (rs ++ [r]) a = (requested rs a || decide (r.addr = a)) := by
  simp [requested, List.any_append]

theorem Memory.patched_nil (m : Memory) : m.patched [] = m := by
  have hnone : ∀ x, requested [] x = false := fun _ ↦ rfl
  rw [patched, overlay_of_none hnone]

/-- Patching for a requested address again changes nothing. -/
theorem Memory.patched_append_of_present (m : Memory) (h : requested rs r.addr = true) :
    m.patched (rs ++ [r]) = m.patched rs := by
  have hreq : requested (rs ++ [r]) = requested rs := by
    funext a
    rw [requested_append]
    by_cases ha : r.addr = a
    · subst ha
      simp [h]
    · simp [ha]
  rw [patched, patched, hreq]

/-- Patching for a new address replaces its byte. -/
theorem Memory.patched_append (m : Memory) :
    m.patched (rs ++ [r]) = (m.patched rs).setByte r.addr int3 := by
  have hreq : requested (rs ++ [r]) = Function.update (requested rs) r.addr true := by
    funext a
    rw [requested_append]
    by_cases ha : a = r.addr
    · subst ha
      simp
    · simp [ha, Ne.symm ha]
  simp only [patched, setByte, update_overlay_arm, hreq]

/-- Each request of `rs`, coming after `done`, finds a record at its address or a word there
that does not read as all ones when it is patched. -/
def Patchable (m : Memory) (done rs : List SetRequest) : Prop :=
  ∀ pre r post, rs = pre ++ r :: post → requested (done ++ pre) r.addr = false →
    (m.patched (done ++ pre)).peekData r.addr ≠ allOnes

theorem Patchable.nil (m : Memory) (done : List SetRequest) : Patchable m done [] := by
  intro pre r post h
  simp at h

variable {r rs} in
theorem patchable_cons {m : Memory} {done : List SetRequest} :
    Patchable m done (r :: rs) ↔
      (requested done r.addr = false → (m.patched done).peekData r.addr ≠ allOnes) ∧
        Patchable m (done ++ [r]) rs := by
  constructor
  · intro h
    refine ⟨fun hn ↦ ?_, fun pre q post hq hn ↦ ?_⟩
    · simpa using h [] r rs rfl (by simpa using hn)
    · have hp := h (r :: pre) q post (by rw [hq, List.cons_append])
      simp only [List.append_cons done r pre] at hp
      exact hp hn
  · rintro ⟨hr, hrs⟩ pre q post hq hn
    cases pre with
    | nil =>
      simp only [List.nil_append, List.cons.injEq] at hq
      obtain ⟨rfl, -⟩ := hq
      rw [List.append_nil] at hn ⊢
      exact hr hn
    | cons p pre =>
      simp only [List.cons_append, List.cons.injEq] at hq
      obtain ⟨rfl, hq⟩ := hq
      rw [List.append_cons] at hn ⊢
      exact hrs pre q post hq hn

/-- The calls go through exactly when every word is patchable in its turn, and then leave the
table of the requests and the patched memory; registers and reports stay as they were. -/
theorem run_setBreakpoints_iff (env : Environment κ) {m : Memory} {done rs : List SetRequest}
    {s s' : Session κ} {table' : Table} (hm : s.tracee.mem = m.patched done) :
    env.run (setBreakpoints (tableOf m.bytes done) rs) s = some ((table', none), s') ↔
      Patchable m done rs ∧ table' = tableOf m.bytes (done ++ rs) ∧
        s' = s.withMem (m.patched (done ++ rs)) := by
  induction rs generalizing done s with
  | nil =>
    have hs : s.withMem (m.patched done) = s := by
      rw [← hm]
      rfl
    rw [List.append_nil, setBreakpoints, run_done, hs]
    constructor
    · rintro h
      cases h
      exact ⟨Patchable.nil m done, rfl, rfl⟩
    · rintro ⟨-, rfl, rfl⟩
      rfl
  | cons r rs ih =>
    rw [setBreakpoints, patchable_cons, List.append_cons done r rs]
    cases hr : requested done r.addr with
    | true =>
      have hp : (tableOf m.bytes done r.addr).isSome = true := by rw [isSome_tableOf, hr]
      rw [run_seq_of_run (run_setBreakpoint6_of_present env s _ _ _ _ _ _ hp)]
      simp only
      rw [← tableOf_append_of_present _ _ _ hp,
        ih (by rw [hm, Memory.patched_append_of_present done r m hr])]
      simp
    | false =>
      have ha : tableOf m.bytes done r.addr = none :=
        Option.not_isSome_iff_eq_none.mp (by rw [isSome_tableOf, hr]; decide)
      by_cases hpeek : s.tracee.mem.peekData r.addr = allOnes
      · rw [run_seq_of_run (run_setBreakpoint6_raises env s _ _ _ _ _ _ ha hpeek)]
        rw [hm] at hpeek
        simp [hpeek]
      · rw [run_seq_of_run (run_setBreakpoint6 env s _ _ _ _ _ _ ha hpeek)]
        simp only
        have hb : s.tracee.mem.bytes r.addr = m.bytes r.addr := by
          rw [hm]
          exact overlay_of_not_armed hr
        have ht := tableOf_append m.bytes done r ha
        rw [SetRequest.record, ← hb] at ht
        rw [← ht, ih (by rw [Memory.patched_append, ← hm]; rfl), ← hm]
        simp only [hpeek, not_false_eq_true, ne_eq, implies_true, true_and]
        rfl

end ArgsDebugger
