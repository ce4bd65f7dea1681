import ArgsDebugger.Debugger.CallTrace
import ArgsDebugger.Debugger.Protocol

/-!
# The set-up of a run

`Debugger::set_all_function_breakpoints`, `src/debugger_manager.cc:207–246`, on any memory. It
gets to the end, or an exception ends it at the first word that cannot be patched; then the
breakpoints before it stay behind, and the debuggee is not resumed. Where every word can be
patched from the beginning, the order of the units and of their functions is not seen in the
memory, and in the records only by their indices.
-/

namespace ArgsDebugger

open Lib Lib.Program

variable {κ : Type}

section Failure

variable {env : Environment κ} {s : Session κ} {rs pre : List SetRequest} {r : SetRequest}

end Failure

section Order

variable {m : Memory} {rs : List SetRequest}

/-- No word becomes all ones by being patched. -/
theorem peekData_patched {a : Word} (h : (m.patched rs).peekData a = allOnes) :
    m.peekData a = allOnes := by
  have hones : ∀ i < 8, wordByte allOnes i ≠ int3 := by decide
  cases hreadable : m.wordReadable a with
  | false => simp only [Memory.peekData, hreadable, Bool.false_eq_true, if_false]
  | true =>
    have hpatched : (m.patched rs).wordReadable a = true := hreadable
    rw [Memory.peekData, if_pos hpatched] at h
    rw [Memory.peekData, if_pos hreadable, ← h]
    apply Memory.word_congr
    intro i hi
    have hbyte : (m.patched rs).bytes (a + BitVec.ofNat 64 i) = wordByte allOnes i := by
      rw [← h, Memory.wordByte_word _ _ _ hi]
    cases hreq : requested rs (a + BitVec.ofNat 64 i) with
    | true => exact absurd (hbyte.symm.trans (overlay_of_armed hreq)) (hones i hi)
    | false => exact (overlay_of_not_armed hreq).symm

/-- Where no requested word reads as all ones, the requests can be met in any order. -/
theorem patchable_of_peekData (h : ∀ r ∈ rs, m.peekData r.addr ≠ allOnes) (done : List SetRequest) :
    Patchable m done rs := by
  rintro pre r post rfl - hpeek
  exact h r (by simp) (peekData_patched hpeek)

/-- What a record has beside the indices of its function. -/
def Breakpoint.unindexed (bp : Breakpoint) : Breakpoint := { bp with cuIndex := 0, fnIndex := 0 }

variable {sections : List ElfSection} {units units' : List CompileUnit}

/-- The entries do not depend on where in the units a function stands. -/
theorem isEntry_iff_exists_mem (a : Word) : IsEntry sections units a ↔
    ∃ func ∈ units.flatMap (·.functions), Qualifies (sections.flatMap ElfSection.read) func a := by
  constructor
  · rintro ⟨cuIdx, fnIdx, func, ⟨cu, hcu, hfunc⟩, hq⟩
    exact ⟨func, List.mem_flatMap.mpr
      ⟨cu, List.mem_of_getElem? hcu, List.mem_of_getElem? hfunc⟩, hq⟩
  · rintro ⟨func, hmem, hq⟩
    obtain ⟨cu, hcu, hfunc⟩ := List.mem_flatMap.mp hmem
    obtain ⟨cuIdx, hcu⟩ := List.getElem?_of_mem hcu
    obtain ⟨fnIdx, hfunc⟩ := List.getElem?_of_mem hfunc
    exact ⟨cuIdx, fnIdx, func, ⟨cu, hcu, hfunc⟩, hq⟩

/-- A record is determined by its address, but for the indices. -/
theorem unindexed_functionTable {a : Word} {bp : Breakpoint}
    (h : functionTable sections units m a = some bp) :
    ∃ sym, lastFunc (sections.flatMap ElfSection.read) a = some sym ∧ bp.unindexed =
      ⟨"function_call".toList, sym.symbolName, a, m.bytes a, true, 0, 0⟩ := by
  obtain ⟨-, -, -, -, -, -, haddr, htype, -, -, sym, hsym, hname⟩ := reportOf_functionTable h
  obtain ⟨-, hdata, henabled⟩ := tableOf_spec _ _ h
  refine ⟨sym, hsym, ?_⟩
  rw [Breakpoint.unindexed, haddr, htype, hname, hdata, henabled]

/-- Where no function with a breakpoint begins at a word of all ones, the set-up gets to its
end. -/
theorem run_setUp_of_peekData (env : Environment κ) {s : Session κ}
    (h : ∀ a, IsEntry sections units a → s.tracee.mem.peekData a ≠ allOnes) :
    env.run (setAllFunctionBreakpoints (getSymbols sections).symbolsMap units Table.empty) s =
      some ((functionTable sections units s.tracee.mem, none), s.withMem
        (s.tracee.mem.patched (functionRequests (getSymbols sections).symbolsMap units))) := by
  have hpatch : Patchable s.tracee.mem []
      (functionRequests (getSymbols sections).symbolsMap units) := by
    apply patchable_of_peekData
    intro r hr
    have hreq : requested (functionRequests (getSymbols sections).symbolsMap units) r.addr = true :=
      List.any_eq_true.mpr ⟨r, hr, decide_eq_true rfl⟩
    exact h r.addr ((requested_functionRequests r.addr).mp hreq)
  exact (run_setAllFunctionBreakpoints ..).trans
    ((run_setBreakpoints_iff env s.tracee.mem.patched_nil.symm).mpr ⟨hpatch, rfl, rfl⟩)

/-- The order of the units, and of the functions in them, does not matter to the set-up. Where
the functions of two lists of units are the same up to their order, and no function with a
breakpoint begins at a word that reads as all ones, both set-ups get to their end; they leave
the same memory, registers and reports, and records at the same addresses which differ in their
indices only. -/
theorem setUp_any_order (env : Environment κ) {s : Session κ}
    (hperm : (units.flatMap (·.functions)).Perm (units'.flatMap (·.functions)))
    (hpeek : ∀ a, IsEntry sections units a → s.tracee.mem.peekData a ≠ allOnes) :
    ∃ table table' s', env.run (setAllFunctionBreakpoints (getSymbols sections).symbolsMap units
          Table.empty) s = some ((table, none), s') ∧
      env.run (setAllFunctionBreakpoints (getSymbols sections).symbolsMap units'
          Table.empty) s = some ((table', none), s') ∧
      ∀ a, (table a).map Breakpoint.unindexed = (table' a).map Breakpoint.unindexed := by
  let m := s.tracee.mem
  have hsame (a : Word) : IsEntry sections units a ↔ IsEntry sections units' a := by
    simp only [isEntry_iff_exists_mem, hperm.mem_iff]
  have hmem : m.patched (functionRequests (getSymbols sections).symbolsMap units) =
      m.patched (functionRequests (getSymbols sections).symbolsMap units') := by
    have hreq : requested (functionRequests (getSymbols sections).symbolsMap units) =
        requested (functionRequests (getSymbols sections).symbolsMap units') := by
      funext a
      rw [Bool.eq_iff_iff]
      exact ((requested_functionRequests a).trans (hsame a)).trans
        (requested_functionRequests a).symm
    rw [Memory.patched, Memory.patched, hreq]
  have hother := run_setUp_of_peekData env (s := s) fun a ha ↦ hpeek a ((hsame a).mpr ha)
  rw [← hmem] at hother
  refine ⟨_, functionTable sections units' m, _, run_setUp_of_peekData env hpeek, hother, ?_⟩
  intro a
  cases hbp : functionTable sections units m a with
  | none =>
    have hnone : functionTable sections units' m a = none := by
      rw [← Option.not_isSome_iff_eq_none, isSome_functionTable, ← hsame,
        ← isSome_functionTable m, hbp]
      exact Bool.false_ne_true
    rw [hnone]
  | some bp =>
    have hsome : (functionTable sections units' m a).isSome = true := by
      rw [isSome_functionTable, ← hsame, ← isSome_functionTable m, hbp]
      rfl
    obtain ⟨bp', hbp'⟩ := Option.isSome_iff_exists.mp hsome
    obtain ⟨sym, hsym, hrecord⟩ := unindexed_functionTable hbp
    obtain ⟨sym', hsym', hrecord'⟩ := unindexed_functionTable hbp'
    rw [hsym] at hsym'
    cases hsym'
    rw [hbp', Option.map_some, Option.map_some, hrecord, hrecord']

/-- A unit without functions in front of the sample's. -/
theorem setUp_any_order_sample : ∃ table table' s',
    sampleEnvironment.run (setAllFunctionBreakpoints (getSymbols sampleSections).symbolsMap
      [sampleFunctionUnit, CompileUnit.fresh 0 0] Table.empty) sampleSession =
        some ((table, none), s') ∧
    sampleEnvironment.run (setAllFunctionBreakpoints (getSymbols sampleSections).symbolsMap
      [CompileUnit.fresh 0 0, sampleFunctionUnit] Table.empty) sampleSession =
        some ((table', none), s') := by
  have hpeek : ∀ a, IsEntry sampleSections [sampleFunctionUnit, CompileUnit.fresh 0 0] a →
      sampleSession.tracee.mem.peekData a ≠ allOnes := by
    rintro a -
    have hreadable : sampleSession.tracee.mem.wordReadable a = true := rfl
    rw [Memory.peekData, if_pos hreadable]
    exact (by decide : leWord (fun _ ↦ 0x90) ≠ allOnes)
  have hperm : ([sampleFunctionUnit, CompileUnit.fresh 0 0].flatMap (·.functions)).Perm
      ([CompileUnit.fresh 0 0, sampleFunctionUnit].flatMap (·.functions)) := List.Perm.refl _
  obtain ⟨table, table', s', hrun, hrun', -⟩ := setUp_any_order sampleEnvironment hperm hpeek
  exact ⟨table, table', s', hrun, hrun'⟩

end Order

end ArgsDebugger
