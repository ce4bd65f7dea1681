import ArgsDebugger.Debugger.Run
import ArgsDebugger.Lib.Protocol

/-!
# The debugger as a party to the ptrace protocol

What an observer between the debugger and the kernel may rely on, whatever the kernel answers.
`Watch` is what such an observer keeps: whether the debuggee runs, which bytes an `int3` has
replaced, which of them is put back for a step, and the breakpoint that is being handled.
`Watch.Allows` gives the rules of a debugger by software breakpoints in these terms alone: it
talks to a stopped debuggee only, changes one byte of memory and the program counter at most,
and lets the debuggee run only with everything in place. Every dialogue of `Debugger::run`
keeps the rules.
-/

namespace ArgsDebugger

open Lib Lib.Program

/-- The answer to the last request, where the next one may depend on it. -/
inductive Heard where
  | nothing
  | status (status : WaitStatus)
  | regs (regs : Option UserRegs)
  | word (a w : Word)

/-- What an observer of the requests keeps. -/
structure Watch where
  /-- The debuggee has been resumed and not waited for. -/
  running : Bool
  /-- It has been resumed by `PTRACE_CONT`. -/
  begun : Bool
  /-- The bytes that an `int3` has replaced. -/
  planted : Word → Option Byte
  /-- The address where the byte is put back. -/
  lifted : Option Word
  /-- The breakpoint that has been reported and not been stepped over. -/
  hit : Option Breakpoint
  /-- The program counter has been moved back to it. -/
  rewound : Bool
  heard : Heard

/-- A word with its low byte replaced. -/
def patchedWord (w : Word) (b : Byte) : Word := (w &&& highMask) ||| b.setWidth 64

/-- The record of the first request for its address. -/
def Breakpoint.IsFor (bp : Breakpoint) (rs : List SetRequest) : Prop :=
  ∃ r, rs.find? (fun r ↦ r.addr = bp.bpAddress) = some r ∧ bp.breakpointType = r.breakpointType ∧
    bp.bpName = r.bpName ∧ bp.cuIndex = r.cuIndex ∧ bp.fnIndex = r.fnIndex

namespace Watch

/-- Before the first stop of the debuggee. -/
def start : Watch := ⟨true, false, fun _ ↦ none, none, none, false, .nothing⟩

/-- An `int3` has replaced the byte at the address. -/
def plant (c : Watch) (a : Word) (b : Byte) : Watch :=
  { c with planted := Function.update c.planted a (some b), lifted := none, heard := .nothing }

/-- The byte at the address has been put back. -/
def lift (c : Watch) (a : Word) : Watch := { c with lifted := some a, heard := .nothing }

/-- The low byte of the word that has been read. -/
def heardByte (c : Watch) : Byte :=
  match c.heard with
  | .word _ w => wordByte w 0
  | _ => 0

/-- The bytes that may be written at an address: an `int3` at a requested one before the
debuggee has begun, the replaced byte for the step over the breakpoint that was hit, and the
`int3` again behind that step. -/
inductive Patches (rs : List SetRequest) (c : Watch) (a : Word) : Byte → Prop
  | plant (hbegun : c.begun = false) (hlifted : c.lifted = none) (hfresh : c.planted a = none) :
      Patches rs c a int3
  | lift {bp : Breakpoint} {b : Byte} (hhit : c.hit = some bp) (haddr : bp.bpAddress = a)
      (hrewound : c.rewound = true) (hlifted : c.lifted = none) (hsaved : c.planted a = some b) :
      Patches rs c a b
  | replant (hhit : c.hit = none) (hlifted : c.lifted = some a) : Patches rs c a int3

/-- The rules: which request may come next. -/
def Allows (rs : List SetRequest) (c : Watch) : Request → Prop
  | .waitpid => c.running = true
  | .getRegs => c.running = false
  | .setRegs regs => c.rewound = false ∧ ∃ bp regs', c.hit = some bp ∧
      c.heard = .regs (some regs') ∧ regs = { regs' with rip := bp.bpAddress }
  | .peekData a => c.running = false ∧ requested rs a = true
  | .pokeData a v => ∃ w b, c.heard = .word a w ∧ w ≠ allOnes ∧ c.Patches rs a b ∧
      v = patchedWord w b
  | .resume .cont => c.running = false ∧ c.lifted = none ∧ c.hit = none
  | .resume .singleStep => c.running = false ∧ c.rewound = true ∧
      ∃ bp, c.hit = some bp ∧ c.lifted = some bp.bpAddress
  | .getBreakpointInfo bp => c.begun = true ∧ c.lifted = none ∧ c.hit = none ∧
      (∃ regs, c.heard = .regs (some regs) ∧ bp.bpAddress = regs.rip - 1) ∧
      bp.enabled = true ∧ c.planted bp.bpAddress = some bp.originalData ∧ bp.IsFor rs
  | .exit .terminated => False
  | .exit (.gotSignal n) => ∃ status, c.heard = .status status ∧ wifstopped status = true ∧
      n = wstopsig status ∧ n ≠ 5
  | .exit .getRegsFailed => c.heard = .regs none
  | .exit .noSymbols => c.running = false ∧ c.begun = false ∧ ∀ a, c.planted a = none

/-- What the observer keeps of a request and its answer. -/
def next (c : Watch) : (r : Request) → Answer r → Watch
  | .waitpid, status => { c with running := false, heard := .status status }
  | .getRegs, regs => { c with heard := .regs regs }
  | .setRegs _, _ => { c with rewound := true, heard := .nothing }
  | .peekData a, w => { c with heard := .word a w }
  | .pokeData a _, _ =>
    if c.lifted = none ∧ (c.planted a).isSome = true then c.lift a else c.plant a c.heardByte
  | .resume .cont, _ => { c with running := true, begun := true, heard := .nothing }
  | .resume .singleStep, _ =>
    { c with running := true, hit := none, rewound := false, heard := .nothing }
  | .getBreakpointInfo bp, _ => { c with hit := some bp, heard := .nothing }
  | .exit _, x => x.elim

/-- A byte that may be written is either an `int3` over a byte that is in its place, or the
replaced byte of a planted address. -/
theorem Allows.poke_cases {rs : List SetRequest} {c : Watch} {a v : Word}
    (h : c.Allows rs (.pokeData a v)) : ∃ w, c.heard = .word a w ∧ w ≠ allOnes ∧
      ((v = patchedWord w int3 ∧ (c.lifted = none ∧ c.planted a = none ∨ c.lifted = some a) ∧
          c.next (.pokeData a v) () = c.plant a (wordByte w 0)) ∨
        ∃ b, v = patchedWord w b ∧ c.lifted = none ∧ c.planted a = some b ∧
          c.next (.pokeData a v) () = c.lift a) := by
  obtain ⟨w, b, hheard, hw, hpatches, rfl⟩ := h
  have hbyte : c.heardByte = wordByte w 0 := by rw [heardByte, hheard]
  refine ⟨w, hheard, hw, ?_⟩
  cases hpatches with
  | plant _ hlifted hfresh =>
    refine .inl ⟨rfl, .inl ⟨hlifted, hfresh⟩, ?_⟩
    rw [next, if_neg (by rw [hfresh]; exact fun h ↦ nomatch h.2), hbyte]
  | lift _ _ _ hlifted hsaved =>
    exact .inr ⟨b, rfl, hlifted, hsaved, if_pos ⟨hlifted, by rw [hsaved]; rfl⟩⟩
  | replant _ hlifted =>
    refine .inl ⟨rfl, .inr hlifted, ?_⟩
    rw [next, if_neg (by rw [hlifted]; exact fun h ↦ nomatch h.1), hbyte]

end Watch

/-- The protocol of a debugger for the breakpoints of some requests. -/
def ptraceProtocol (rs : List SetRequest) : Protocol Request Answer Watch :=
  ⟨Watch.Allows rs, Watch.next⟩

/-- The table is what the observer knows, between two breakpoints: every record is enabled,
keyed by its address and made for a request, and saves the byte that its `int3` has replaced. -/
structure Watch.Knows (rs : List SetRequest) (table : Table) (c : Watch) : Prop where
  stopped : c.running = false
  lifted : c.lifted = none
  hit : c.hit = none
  rewound : c.rewound = false
  planted : ∀ a, c.planted a = (table a).map Breakpoint.originalData
  keyed : ∀ a bp, table a = some bp → bp.bpAddress = a
  enabled : ∀ a bp, table a = some bp → bp.enabled = true
  made : ∀ a bp, table a = some bp → bp.IsFor rs

theorem lowByte_eq_wordByte (w : Word) : (w &&& 0xff#64).setWidth 8 = wordByte w 0 := by
  apply BitVec.eq_of_getLsbD_eq
  intro j hj
  have hm : (0xff#64).getLsbD j = true := by
    revert j
    decide +revert
  simp only [wordByte, BitVec.getLsbD_setWidth, BitVec.getLsbD_and, BitVec.getLsbD_extractLsb',
    hj, hm, decide_true, Bool.true_and, Bool.and_true, Nat.mul_zero, Nat.zero_add]

theorem Breakpoint.IsFor.requested {rs : List SetRequest} {bp : Breakpoint} (h : bp.IsFor rs) :
    requested rs bp.bpAddress = true := by
  obtain ⟨r, hfind, -⟩ := h
  rw [ArgsDebugger.requested, ← List.isSome_find?, hfind, Option.isSome_some]

section Obeys

variable {rs : List SetRequest} {table : Table} {c : Watch} {bp : Breakpoint}

/-- Arming a record where an `int3` may be planted. -/
theorem obeys_enableBreakpoint {Q : Breakpoint × Option Failure → Watch → Prop}
    (hrunning : c.running = false) (hrequested : requested rs bp.bpAddress = true)
    (hpatches : ∀ w, Watch.Patches rs { c with heard := .word bp.bpAddress w } bp.bpAddress int3)
    (hplants : ¬ (c.lifted = none ∧ (c.planted bp.bpAddress).isSome = true))
    (hraises : ∀ bp' f c', Q (bp', some f) c')
    (harms : ∀ b, Q ({ bp with originalData := b, enabled := true }, none)
      (c.plant bp.bpAddress b)) :
    (ptraceProtocol rs).Obeys Q bp.enableBreakpoint c := by
  refine ⟨⟨hrunning, hrequested⟩, fun w ↦ ?_⟩
  change Protocol.Obeys _ Q (ite _ _ _) _
  split
  · exact hraises _ _ _
  · next hw =>
    refine ⟨⟨w, int3, rfl, hw, hpatches w, rfl⟩, fun _ ↦ ?_⟩
    have hnext : (ptraceProtocol rs).next { c with heard := .word bp.bpAddress w }
        (.pokeData bp.bpAddress (patchedWord w int3)) () = c.plant bp.bpAddress (wordByte w 0) :=
      if_neg hplants
    rw [← lowByte_eq_wordByte] at hnext
    exact hnext ▸ harms _

/-- Disarming the record of the breakpoint that was hit. -/
theorem obeys_disableBreakpoint {Q : Breakpoint × Option Failure → Watch → Prop}
    (hrunning : c.running = false) (hmade : bp.IsFor rs) (hhit : c.hit = some bp)
    (hrewound : c.rewound = true) (hlifted : c.lifted = none)
    (hplanted : c.planted bp.bpAddress = some bp.originalData)
    (hraises : ∀ f c', Q (bp, some f) c') (hdisarms : Q (bp.disarmed, none) (c.lift bp.bpAddress)) :
    (ptraceProtocol rs).Obeys Q bp.disableBreakpoint c := by
  refine ⟨⟨hrunning, hmade.requested⟩, fun w ↦ ?_⟩
  change Protocol.Obeys _ Q (ite _ _ _) _
  split
  · exact hraises _ _
  · next hw =>
    refine ⟨⟨w, bp.originalData, rfl, hw, .lift hhit rfl hrewound hlifted hplanted, rfl⟩,
      fun _ ↦ ?_⟩
    have hnext : (ptraceProtocol rs).next { c with heard := .word bp.bpAddress w }
        (.pokeData bp.bpAddress (patchedWord w bp.originalData)) () = c.lift bp.bpAddress :=
      if_pos ⟨hlifted, by rw [hplanted]; rfl⟩
    exact hnext ▸ hdisarms

/-- Waiting for the running debuggee. -/
theorem obeys_waitForSignal {Q : Unit → Watch → Prop} (hrunning : c.running = true)
    (hQ : ∀ status, Q () { c with running := false, heard := .status status }) :
    (ptraceProtocol rs).Obeys Q waitForSignal c := by
  refine ⟨hrunning, fun status ↦ ?_⟩
  change Protocol.Obeys _ Q (ite _ _ _) _
  split
  · next hstop =>
    split
    · exact hQ status
    · next hsig =>
      split
      · next htest =>
        have hended : Ended status := by
          simp only [Bool.or_eq_true, Bool.and_eq_true] at htest
          exact htest.imp_right And.left
        rw [not_wifstopped_of_ended hended] at hstop
        cases hstop
      · exact ⟨⟨status, rfl, hstop, rfl, hsig⟩, fun x ↦ x.elim⟩
  · exact hQ status

/-- Asking for the registers of the stopped debuggee. -/
theorem obeys_getRegisters {Q : UserRegs → Watch → Prop} (hrunning : c.running = false)
    (hQ : ∀ regs, Q regs { c with heard := .regs (some regs) }) :
    (ptraceProtocol rs).Obeys Q getRegisters c := by
  refine ⟨hrunning, fun regs ↦ ?_⟩
  cases regs with
  | none => exact ⟨rfl, fun x ↦ x.elim⟩
  | some regs => exact hQ regs

end Obeys

section SetUp

/-- Setting two lists of breakpoints one after the other. -/
theorem setBreakpoints_append (table : Table) (rs rs' : List SetRequest) :
    setBreakpoints table (rs ++ rs') = setBreakpoints table rs >>= fun r ↦
      match r.2 with
      | some f => pure (r.1, some f)
      | none => setBreakpoints r.1 rs' := by
  induction rs generalizing table with
  | nil => rfl
  | cons r rs ih =>
    simp only [List.cons_append, setBreakpoints, Program.bind_assoc]
    congr 1
    funext r
    obtain ⟨table', raised⟩ := r
    cases raised with
    | some f => rfl
    | none => exact ih table'

/-- The inner loop sets the breakpoints of its requests. -/
theorem setFunctionBreakpoints_eq (symbolsMap : Word → Option Symbol) (cuIdx : Nat)
    (table : Table) (functions : List (Datatype × Nat)) :
    setFunctionBreakpoints symbolsMap cuIdx table functions = setBreakpoints table
      (functions.filterMap fun f ↦ functionRequest symbolsMap cuIdx f.2 f.1) := by
  induction functions generalizing table with
  | nil => rfl
  | cons f functions ih =>
    obtain ⟨func, fnIdx⟩ := f
    rw [setFunctionBreakpoints]
    cases hr : functionRequest symbolsMap cuIdx fnIdx func with
    | none =>
      simp only [List.filterMap_cons, hr]
      exact ih table
    | some r =>
      simp only [List.filterMap_cons, hr, setBreakpoints]
      congr 1
      funext r
      obtain ⟨table', raised⟩ := r
      cases raised with
      | some f => rfl
      | none => exact ih table'

/-- The two loops are the calls of `set_breakpoint` for all requests, in order. -/
theorem setAllFunctionBreakpoints_eq (symbolsMap : Word → Option Symbol)
    (units : List CompileUnit) (table : Table) :
    setAllFunctionBreakpoints symbolsMap units table =
      setBreakpoints table (functionRequests symbolsMap units) := by
  unfold setAllFunctionBreakpoints functionRequests allFunctions
  induction units.zipIdx generalizing table with
  | nil => rfl
  | cons u units ih =>
    obtain ⟨cu, cuIdx⟩ := u
    rw [List.flatMap_cons, List.filterMap_append, setBreakpoints_append, setUnitBreakpoints,
      setFunctionBreakpoints_eq, List.filterMap_map]
    congr 1
    funext r
    obtain ⟨table', raised⟩ := r
    cases raised with
    | some f => rfl
    | none => exact ih table'

variable {rs done rest : List SetRequest} {table : Table} {c : Watch}

/-- A record that is entered under its own address keeps the observer's knowledge. -/
theorem Watch.Knows.plant (h : c.Knows rs table) {bp : Breakpoint} {b : Byte}
    (hmade : bp.IsFor rs) :
    (c.plant bp.bpAddress b).Knows rs
      (table.set bp.bpAddress { bp with originalData := b, enabled := true }) := by
  let armed : Breakpoint := { bp with originalData := b, enabled := true }
  have hrecord : ∀ {P : Word → Breakpoint → Prop}, P bp.bpAddress armed →
      (∀ a bp', table a = some bp' → P a bp') →
      ∀ a bp', table.set bp.bpAddress armed a = some bp' → P a bp' := by
    intro P hnew hold a bp' ha
    by_cases haddr : a = bp.bpAddress
    · subst haddr
      rw [Table.set_self] at ha
      cases ha
      exact hnew
    · rw [table.set_of_ne _ haddr] at ha
      exact hold a bp' ha
  refine ⟨h.stopped, rfl, h.hit, h.rewound, ?_, hrecord rfl h.keyed, hrecord rfl h.enabled,
    hrecord hmade h.made⟩
  intro a
  by_cases haddr : a = bp.bpAddress
  · subst haddr
    rw [Table.set_self]
    exact Function.update_self ..
  · rw [table.set_of_ne _ haddr, ← h.planted]
    exact Function.update_of_ne haddr ..

/-- The calls of `set_breakpoint` plant what is requested, each address once. -/
theorem obeys_setBreakpoints (hrs : rs = done ++ rest) (h : c.Knows rs table)
    (hbegun : c.begun = false) (hdone : ∀ a, (table a).isSome = requested done a) :
    (ptraceProtocol rs).Obeys (fun r c' ↦ r.2 = none → c'.Knows rs r.1)
      (setBreakpoints table rest) c := by
  induction rest generalizing done table c with
  | nil => exact fun _ ↦ h
  | cons r rest ih =>
    have happend : rs = (done ++ [r]) ++ rest := by rw [hrs, List.append_assoc]; rfl
    unfold setBreakpoints
    by_cases hpresent : (table r.addr).isSome = true
    · have hcall : setBreakpoint6 table r.bpName r.addr r.breakpointType r.cuIndex r.fnIndex =
          pure (table, none) := if_pos hpresent
      rw [hcall]
      apply ih happend h hbegun
      intro a
      rw [hdone a, requested_append]
      by_cases ha : r.addr = a
      · subst ha
        rw [← hdone, hpresent, Bool.true_or]
      · rw [decide_eq_false ha, Bool.or_false]
    · let bp : Breakpoint :=
        ⟨r.breakpointType, r.bpName, r.addr, 0, false, r.cuIndex, r.fnIndex⟩
      have hnone : table r.addr = none := Option.not_isSome_iff_eq_none.mp hpresent
      -- no request before it is for its address, or the table had a record there
      have hfirst : rs.find? (fun q ↦ q.addr = r.addr) = some r := by
        have hbefore : done.find? (fun q ↦ q.addr = r.addr) = none := by
          have hreq := hdone r.addr
          rw [hnone, requested, ← List.isSome_find?] at hreq
          exact Option.not_isSome_iff_eq_none.mp (by rw [← hreq]; decide)
        rw [hrs, List.find?_append, hbefore, Option.none_or, List.find?_cons_of_pos]
        exact decide_eq_true rfl
      have hmade : bp.IsFor rs := ⟨r, hfirst, rfl, rfl, rfl, rfl⟩
      have hfresh : c.planted bp.bpAddress = none := by rw [h.planted, hnone]; rfl
      unfold setBreakpoint6
      rw [if_neg hpresent, Program.bind_assoc]
      apply Protocol.Obeys.bind (Q := fun r' c' ↦ r'.2 = none → ∃ b,
        r'.1 = { bp with originalData := b, enabled := true } ∧ c' = c.plant bp.bpAddress b)
      · apply obeys_enableBreakpoint h.stopped hmade.requested
        · exact fun w ↦ .plant hbegun h.lifted hfresh
        · rw [hfresh]
          intro hplanted
          cases hplanted.2
        · intro _ _ _ hraised
          cases hraised
        · exact fun b _ ↦ ⟨b, rfl, rfl⟩
      · rintro ⟨bp', raised⟩ c' hbp'
        cases raised with
        | some f =>
          intro hraised
          cases hraised
        | none =>
          obtain ⟨b, rfl, rfl⟩ := hbp' rfl
          apply ih happend (h.plant hmade) hbegun
          intro a
          rw [requested_append, ← hdone a]
          by_cases ha : r.addr = a
          · subst ha
            rw [Table.set_self, decide_eq_true rfl, Bool.or_true]
            rfl
          · rw [table.set_of_ne _ (Ne.symm ha), decide_eq_false ha, Bool.or_false]

end SetUp

section Loop

variable {rs : List SetRequest} {table : Table} {c : Watch}

/-- What is heard does not touch the knowledge between two breakpoints. -/
theorem Watch.Knows.hear (h : c.Knows rs table) (heard : Heard) :
    Watch.Knows rs table { c with heard := heard } :=
  ⟨h.stopped, h.lifted, h.hit, h.rewound, h.planted, h.keyed, h.enabled, h.made⟩

/-- Stepping over a breakpoint reports it, lifts it, steps and plants it again. -/
theorem obeys_stepOverBreakpoint (h : c.Knows rs table) (hbegun : c.begun = true) :
    (ptraceProtocol rs).Obeys (fun r c' ↦ r.2 = none → c'.Knows rs r.1)
      (stepOverBreakpoint table) c := by
  apply Protocol.Obeys.bind (Q := fun pc c' ↦ ∃ regs, c' = { c with heard := .regs (some regs) } ∧
    pc = regs.rip)
  · apply Protocol.Obeys.bind (Q := fun regs c' ↦ c' = { c with heard := .regs (some regs) })
    · exact obeys_getRegisters h.stopped fun _ ↦ rfl
    · rintro regs c' rfl
      exact ⟨regs, rfl, rfl⟩
  rintro pc c' ⟨regs, rfl, rfl⟩
  dsimp only
  split
  · exact fun _ ↦ h.hear _
  · next bp hbp =>
    have haddr := h.keyed _ bp hbp
    have hmade := h.made _ bp hbp
    have hplanted : c.planted bp.bpAddress = some bp.originalData := by
      rw [h.planted, haddr, hbp]
      rfl
    rw [if_pos (h.enabled _ bp hbp)]
    let c₁ : Watch := { c with hit := some bp, heard := .nothing }
    let c₂ : Watch := { c₁ with rewound := true }
    let c₃ : Watch := ⟨true, c.begun, c.planted, some bp.bpAddress, none, false, .nothing⟩
    have hback (status : WaitStatus) (b : Byte) :
        Watch.plant { c₃ with running := false, heard := .status status } bp.bpAddress b =
          c.plant bp.bpAddress b := by
      simp only [Watch.plant, c₃, h.stopped, h.hit, h.rewound]
    apply Protocol.Obeys.bind (Q := fun _ c' ↦ c' = c₁)
    · exact ⟨⟨hbegun, h.lifted, h.hit, ⟨regs, rfl, haddr⟩, h.enabled _ bp hbp, hplanted, hmade⟩,
        fun _ ↦ rfl⟩
    rintro raised c' rfl
    cases raised with
    | some f => exact fun hraised ↦ nomatch hraised
    | none =>
      -- the program counter is moved to the breakpoint
      apply Protocol.Obeys.bind (Q := fun _ c' ↦ c' = c₂)
      · apply Protocol.Obeys.bind (Q := fun regs' c' ↦ c' = { c₁ with heard := .regs (some regs') })
        · exact obeys_getRegisters h.stopped fun _ ↦ rfl
        · rintro regs' c' rfl
          exact ⟨⟨h.rewound, bp, regs', rfl, rfl, by rw [haddr]⟩, fun _ ↦ rfl⟩
      rintro _ c' rfl
      apply Protocol.Obeys.bind (Q := fun r c' ↦ r.2 = none →
        r.1 = bp.disarmed ∧ c' = c₂.lift bp.bpAddress)
      · apply obeys_disableBreakpoint (c := c₂) h.stopped hmade rfl rfl h.lifted hplanted
        · exact fun _ _ hraised ↦ nomatch hraised
        · exact fun _ ↦ ⟨rfl, rfl⟩
      rintro ⟨bp', raised⟩ c' hdisarmed
      cases raised with
      | some f => exact fun hraised ↦ nomatch hraised
      | none =>
        obtain ⟨rfl, rfl⟩ := hdisarmed rfl
        apply Protocol.Obeys.bind (Q := fun _ c' ↦ c' = c₃)
        · exact ⟨⟨h.stopped, rfl, bp, rfl, rfl⟩, fun _ ↦ rfl⟩
        rintro _ c' rfl
        apply Protocol.Obeys.bind (Q := fun _ c' ↦ ∃ status,
          c' = { c₃ with running := false, heard := .status status })
        · exact obeys_waitForSignal rfl fun status ↦ ⟨status, rfl⟩
        rintro _ c' ⟨status, rfl⟩
        apply Protocol.Obeys.bind (Q := fun r c' ↦ r.2 = none → ∃ b,
          r.1 = { bp with originalData := b, enabled := true } ∧ c' = c.plant bp.bpAddress b)
        · apply obeys_enableBreakpoint rfl
          · exact hmade.requested
          · exact fun w ↦ .replant rfl rfl
          · exact fun hlifted ↦ nomatch hlifted.1
          · exact fun _ _ _ hraised ↦ nomatch hraised
          · exact fun b _ ↦ ⟨b, rfl, hback status b⟩
        · rintro ⟨bp', raised⟩ c' harmed
          cases raised with
          | some f => exact fun hraised ↦ nomatch hraised
          | none =>
            obtain ⟨b, rfl, rfl⟩ := harmed rfl
            intro _
            rw [← haddr]
            exact h.plant hmade

/-- The rounds of the loop go from knowledge to knowledge. -/
theorem obeys_continueExecution (rounds : Nat) (h : c.Knows rs table) :
    (ptraceProtocol rs).Obeys (fun _ _ ↦ True) (continueExecution rounds table) c := by
  induction rounds generalizing table c with
  | zero => trivial
  | succ rounds ih =>
    apply Protocol.Obeys.bind (Q := fun r c' ↦ r.2 = none → c'.Knows rs r.1)
    · apply Protocol.Obeys.bind (Q := fun _ c' ↦
        c' = { c with running := true, begun := true, heard := .nothing })
      · exact ⟨⟨h.stopped, h.lifted, h.hit⟩, fun _ ↦ rfl⟩
      rintro _ c' rfl
      apply Protocol.Obeys.bind (Q := fun _ c' ↦ c'.Knows rs table ∧ c'.begun = true)
      · apply obeys_waitForSignal rfl
        intro status
        exact ⟨⟨rfl, h.lifted, h.hit, h.rewound, h.planted, h.keyed, h.enabled, h.made⟩, rfl⟩
      · exact fun _ c' hc' ↦ obeys_stepOverBreakpoint hc'.1 hc'.2
    · rintro ⟨table', raised⟩ c' hknows
      cases raised with
      | some f => trivial
      | none => exact ih (hknows rfl)

end Loop

/-- The debugger keeps the rules: in every dialogue of a run each request is one that the
protocol for the functions' breakpoints allows after what has been said before it. -/
theorem run_obeys (debugInfo : Bool) (symbolsMap : Word → Option Symbol)
    (units : List CompileUnit) (rounds : Nat) :
    (ptraceProtocol (functionRequests symbolsMap units)).Obeys (fun _ _ ↦ True)
      (run debugInfo symbolsMap units rounds) .start := by
  apply Protocol.Obeys.bind (Q := fun _ c ↦
    c.Knows (functionRequests symbolsMap units) Table.empty ∧ c.begun = false)
  · apply obeys_waitForSignal rfl
    intro status
    exact ⟨⟨rfl, rfl, rfl, rfl, fun _ ↦ rfl, nofun, nofun, nofun⟩, rfl⟩
  rintro _ c ⟨hknows, hbegun⟩
  cases debugInfo with
  | false => exact ⟨⟨hknows.stopped, hbegun, hknows.planted⟩, fun x ↦ x.elim⟩
  | true =>
    rw [if_pos rfl, setAllFunctionBreakpoints_eq]
    apply Protocol.Obeys.bind
      (obeys_setBreakpoints (List.nil_append _).symm hknows hbegun fun _ ↦ rfl)
    rintro ⟨table, raised⟩ c' hc'
    cases raised with
    | some f => trivial
    | none => exact obeys_continueExecution rounds (hc' rfl)

end ArgsDebugger
