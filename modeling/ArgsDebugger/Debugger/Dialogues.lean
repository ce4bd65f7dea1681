import ArgsDebugger.Debugger.Protocol

/-!
# What every dialogue of the debugger looks like

The rules of `Debugger.Protocol` speak of what an observer keeps. Here they are read back into
the requests and answers themselves, for every dialogue of `Debugger::run` and the request it
comes to: the debuggee is asked about only while it stands still, its memory is changed one
byte at a time and in turns, it runs with every breakpoint in place, and its program counter
moves back to a reported function only.
-/

namespace ArgsDebugger

open Lib Lib.Program

/-- The events of a dialogue with the kernel. -/
abbrev PtraceEvent := Event Request Answer

/-- `waitpid`. -/
def Request.isWait : Request → Bool
  | .waitpid => true
  | _ => false

/-- `PTRACE_CONT` or `PTRACE_SINGLESTEP`. -/
def Request.isResume : Request → Bool
  | .resume _ => true
  | _ => false

/-- `PTRACE_SINGLESTEP`. -/
def Request.isStep : Request → Bool
  | .resume .singleStep => true
  | _ => false

/-- `PTRACE_SETREGS`. -/
def Request.isRewind : Request → Bool
  | .setRegs _ => true
  | _ => false

/-- The call of `get_breakpoint_info`. -/
def Request.isReport : Request → Bool
  | .getBreakpointInfo _ => true
  | _ => false

/-- `PTRACE_POKEDATA` at the address. -/
def Request.isPokeAt (a : Word) : Request → Bool
  | .pokeData b _ => b == a
  | _ => false

/-- How many requests of a kind a dialogue has. -/
def count (kind : Request → Bool) (l : List PtraceEvent) : Nat := l.countP fun e ↦ kind e.1

theorem count_concat (kind : Request → Bool) (l : List PtraceEvent) (e : PtraceEvent) :
    count kind (l ++ [e]) = count kind l + if kind e.1 then 1 else 0 := by
  simp only [count, List.countP_append, List.countP_singleton]

section Turns

/-- Waits and resumes alternate, beginning with a wait. -/
structure InTurn (l : List PtraceEvent) (c : Watch) : Prop where
  turns : count Request.isWait l = count Request.isResume l + if c.running then 0 else 1
  heard : c.heard ≠ .nothing → c.running = false

variable {rs : List SetRequest} {c : Watch} {l : List PtraceEvent}

/-- Every request but a wait is made to a stopped debuggee. -/
theorem InTurn.stopped (h : InTurn l c) {r : Request} (hr : c.Allows rs r) (hwait : r ≠ .waitpid) :
    c.running = false := by
  cases r with
  | getRegs => exact hr
  | setRegs regs =>
    obtain ⟨-, bp, regs', -, hheard, -⟩ := hr
    exact h.heard (by simp [hheard])
  | peekData a => exact hr.1
  | pokeData a v =>
    obtain ⟨w, b, hheard, -⟩ := hr
    exact h.heard (by simp [hheard])
  | resume how => cases how <;> exact hr.1
  | waitpid => exact absurd rfl hwait
  | getBreakpointInfo bp =>
    obtain ⟨-, -, -, ⟨regs, hheard, -⟩, -⟩ := hr
    exact h.heard (by simp [hheard])
  | exit reason =>
    cases reason with
    | terminated => exact hr.elim
    | gotSignal n =>
      obtain ⟨status, hheard, -⟩ := hr
      exact h.heard (by simp [hheard])
    | getRegsFailed => exact h.heard (by simp [show c.heard = .regs none from hr])
    | noSymbols => exact hr.1

/-- One event keeps the turns. -/
theorem InTurn.step (h : InTurn l c) {e : PtraceEvent} (he : c.Allows rs e.1) :
    InTurn (l ++ [e]) (c.next e.1 e.2) := by
  have hturns := h.turns
  obtain ⟨r, x⟩ := e
  by_cases hwait : r = .waitpid
  · subst hwait
    have hrunning : c.running = true := he
    refine ⟨?_, fun _ ↦ rfl⟩
    rw [hrunning] at hturns
    simp only [count_concat, Request.isWait, Request.isResume, Watch.next, hturns, if_true]
    simp
  · have hstopped := h.stopped he hwait
    rw [hstopped] at hturns
    cases r with
    | waitpid => exact absurd rfl hwait
    | resume how =>
      refine ⟨?_, ?_⟩
      · simp only [count_concat, Request.isWait, Request.isResume, hturns]
        cases how <;> simp [Watch.next]
      · cases how <;> exact fun hne ↦ absurd rfl hne
    | pokeData a v =>
      have hkeeps : (c.next (.pokeData a v) x).running = false := by
        simp only [Watch.next]
        split <;> exact hstopped
      refine ⟨?_, fun _ ↦ hkeeps⟩
      simp only [count_concat, Request.isWait, Request.isResume, hturns, hkeeps]
      simp
    | exit reason => exact x.elim
    | getRegs | setRegs | peekData | getBreakpointInfo =>
      refine ⟨?_, fun _ ↦ hstopped⟩
      simp only [count_concat, Request.isWait, Request.isResume, Watch.next, hturns, hstopped]
      simp

theorem inTurn_of_legal (h : (ptraceProtocol rs).Legal .start l) :
    InTurn l ((ptraceProtocol rs).track .start l) :=
  h.induction ⟨rfl, fun hne ↦ absurd rfl hne⟩ fun _ _ _ hl he ↦ hl.step he

end Turns

section Places

/-- The last patch at the address was an `int3`, over a word with the low byte `b`. -/
def PlantedOver (a : Word) (b : Byte) (l : List PtraceEvent) : Prop :=
  ∃ w v, Since [⟨.peekData a, w⟩, ⟨.pokeData a v, ()⟩] (fun e ↦ e.1.isPokeAt a = true) l ∧
    v = patchedWord w int3 ∧ wordByte w 0 = b

/-- At each address the patches take turns: an `int3`, the byte it has replaced, an `int3`. -/
structure InPlace (l : List PtraceEvent) (c : Watch) : Prop where
  word : ∀ a w, c.heard = .word a w → [⟨.peekData a, w⟩] <:+ l
  absent : ∀ a, c.planted a = none → count (Request.isPokeAt a) l = 0
  lifted : ∀ a, c.lifted = some a → c.planted a ≠ none ∧ count (Request.isPokeAt a) l ≠ 0 ∧
    count (Request.isPokeAt a) l % 2 = 0
  planted : ∀ a b, c.planted a = some b → c.lifted ≠ some a →
    count (Request.isPokeAt a) l % 2 = 1 ∧ PlantedOver a b l

variable {rs : List SetRequest} {c c' : Watch} {l : List PtraceEvent} {e : PtraceEvent}

theorem PlantedOver.concat {a : Word} {b : Byte} (h : PlantedOver a b l)
    (he : e.1.isPokeAt a = false) : PlantedOver a b (l ++ [e]) := by
  obtain ⟨w, v, hsince, hv⟩ := h
  exact ⟨w, v, hsince.concat (by rw [he]; decide), hv⟩

theorem Request.isPokeAt_of_ne {a x : Word} (v : Word) (h : a ≠ x) :
    isPokeAt x (.pokeData a v) = false := beq_false_of_ne h

theorem count_poke_self (l : List PtraceEvent) (a v : Word) :
    count (Request.isPokeAt a) (l ++ [⟨.pokeData a v, ()⟩]) = count (Request.isPokeAt a) l + 1 := by
  rw [count_concat]
  simp only [Request.isPokeAt, beq_self_eq_true, if_true]

theorem count_of_not {kind : Request → Bool} (he : kind e.1 = false) :
    count kind (l ++ [e]) = count kind l := by
  rw [count_concat, he]
  rfl

/-- A request that is no poke changes nothing at any address. -/
theorem InPlace.frame (h : InPlace l c) (he : ∀ a, e.1.isPokeAt a = false)
    (hplanted : c'.planted = c.planted) (hlifted : c'.lifted = c.lifted)
    (hword : ∀ a w, c'.heard = .word a w → [⟨.peekData a, w⟩] <:+ l ++ [e]) :
    InPlace (l ++ [e]) c' := by
  refine ⟨hword, ?_, ?_, ?_⟩
  · intro a ha
    rw [count_of_not (he a)]
    exact h.absent a (hplanted ▸ ha)
  · intro a ha
    rw [count_of_not (he a), hplanted]
    exact h.lifted a (hlifted ▸ ha)
  · intro a b ha hnot
    rw [count_of_not (he a)]
    obtain ⟨hodd, hover⟩ := h.planted a b (hplanted ▸ ha) (hlifted ▸ hnot)
    exact ⟨hodd, hover.concat (he a)⟩

/-- Putting a byte back ends the turn of its `int3`. -/
theorem InPlace.lift (h : InPlace l c) {a v : Word} {b : Byte} (hlifted : c.lifted = none)
    (hplanted : c.planted a = some b) : InPlace (l ++ [⟨.pokeData a v, ()⟩]) (c.lift a) := by
  obtain ⟨hodd, -⟩ := h.planted a b hplanted (by rw [hlifted]; nofun)
  refine ⟨nofun, ?_, ?_, ?_⟩
  · intro x hx
    have hne : a ≠ x := by
      rintro rfl
      rw [show (c.lift a).planted a = c.planted a from rfl, hplanted] at hx
      cases hx
    rw [count_of_not (Request.isPokeAt_of_ne v hne)]
    exact h.absent x hx
  · rintro x hx
    cases hx
    rw [count_poke_self]
    refine ⟨?_, by omega, by omega⟩
    rw [show (c.lift a).planted a = c.planted a from rfl, hplanted]
    nofun
  · intro x b' hx hnot
    have hne : a ≠ x := fun heq ↦ hnot (congrArg some heq)
    have hkind := Request.isPokeAt_of_ne v hne
    rw [count_of_not hkind]
    obtain ⟨hodd', hover⟩ := h.planted x b' hx (by rw [hlifted]; nofun)
    exact ⟨hodd', hover.concat hkind⟩

/-- An `int3` at an address that has none begins a turn. -/
theorem InPlace.plant (h : InPlace l c) {a w : Word} (hheard : c.heard = .word a w)
    (hfree : c.lifted = none ∧ c.planted a = none ∨ c.lifted = some a) :
    InPlace (l ++ [⟨.pokeData a (patchedWord w int3), ()⟩]) (c.plant a (wordByte w 0)) := by
  have heven : count (Request.isPokeAt a) l % 2 = 0 := by
    rcases hfree with ⟨-, hfresh⟩ | hlifted
    · rw [h.absent a hfresh]
    · exact (h.lifted a hlifted).2.2
  have hother (x : Word) (hx : x ≠ a) :
      (c.plant a (wordByte w 0)).planted x = c.planted x ∧ c.lifted ≠ some x := by
    refine ⟨Function.update_of_ne hx .., ?_⟩
    rcases hfree with ⟨hlifted, -⟩ | hlifted
    · rw [hlifted]
      nofun
    · rw [hlifted]
      exact fun heq ↦ hx (Option.some.inj heq).symm
  refine ⟨nofun, ?_, nofun, ?_⟩
  · intro x hx
    by_cases hxa : x = a
    · subst hxa
      rw [show (c.plant x (wordByte w 0)).planted x = some _ from Function.update_self ..] at hx
      cases hx
    · rw [(hother x hxa).1] at hx
      rw [count_of_not (Request.isPokeAt_of_ne _ (Ne.symm hxa))]
      exact h.absent x hx
  · intro x b hx _
    by_cases hxa : x = a
    · subst hxa
      rw [show (c.plant x (wordByte w 0)).planted x = some _ from Function.update_self ..] at hx
      cases hx
      rw [count_poke_self]
      refine ⟨by omega, w, patchedWord w int3, since_of_suffix _ ?_, rfl, rfl⟩
      obtain ⟨l₁, rfl⟩ := h.word x w hheard
      exact ⟨l₁, by rw [List.append_assoc]; rfl⟩
    · rw [(hother x hxa).1] at hx
      have hkind := Request.isPokeAt_of_ne (patchedWord w int3) (Ne.symm hxa)
      rw [count_of_not hkind]
      obtain ⟨hodd, hover⟩ := h.planted x b hx (hother x hxa).2
      exact ⟨hodd, hover.concat hkind⟩

/-- One event keeps the patches in turn. -/
theorem InPlace.step (h : InPlace l c) (he : c.Allows rs e.1) :
    InPlace (l ++ [e]) (c.next e.1 e.2) := by
  obtain ⟨r, x⟩ := e
  cases r with
  | pokeData a v =>
    obtain ⟨w, hheard, -, ⟨rfl, hfree, hnext⟩ | ⟨b, rfl, hlifted, hplanted, hnext⟩⟩ :=
      Watch.Allows.poke_cases he
    · exact hnext ▸ h.plant hheard hfree
    · exact hnext ▸ h.lift hlifted hplanted
  | peekData a =>
    refine h.frame (fun _ ↦ rfl) rfl rfl ?_
    rintro a' w hword
    cases hword
    exact ⟨l, rfl⟩
  | resume how => cases how <;> exact h.frame (fun _ ↦ rfl) rfl rfl nofun
  | exit reason => exact x.elim
  | getRegs | setRegs | waitpid | getBreakpointInfo =>
    exact h.frame (fun _ ↦ rfl) rfl rfl nofun

theorem inPlace_of_legal (h : (ptraceProtocol rs).Legal .start l) :
    InPlace l ((ptraceProtocol rs).track .start l) :=
  h.induction ⟨nofun, fun _ _ ↦ rfl, nofun, nofun⟩ fun _ _ _ hl he ↦ hl.step he

end Places

section Hits

/-- The registers showed the program counter behind the breakpoint, it was reported, and the
debuggee has not been resumed since. -/
def ReportedAt (regs : UserRegs) (bp : Breakpoint) (l : List PtraceEvent) : Prop :=
  (∃ raised, Since [⟨.getRegs, some regs⟩, ⟨.getBreakpointInfo bp, raised⟩]
    (fun e ↦ e.1.isResume = true) l) ∧ bp.bpAddress = regs.rip - 1

/-- The program counter was moved to the address, and the debuggee has not been resumed since. -/
def RewoundTo (a : Word) (l : List PtraceEvent) : Prop :=
  ∃ regs, Since [⟨.setRegs regs, ()⟩] (fun e ↦ e.1.isResume = true) l ∧ regs.rip = a

/-- Each hit is reported, rewound and stepped over, in this order and once. -/
structure HitsInOrder (l : List PtraceEvent) (c : Watch) : Prop where
  regs : ∀ regs, c.heard = .regs regs → [⟨.getRegs, regs⟩] <:+ l
  reports : count Request.isReport l = count Request.isStep l + if c.hit.isSome then 1 else 0
  rewinds : count Request.isRewind l = count Request.isStep l + if c.rewound then 1 else 0
  hit : ∀ bp, c.hit = some bp → ∃ regs, ReportedAt regs bp l
  rewound : c.rewound = true → ∃ bp, c.hit = some bp ∧ RewoundTo bp.bpAddress l

variable {rs : List SetRequest} {c c' : Watch} {l : List PtraceEvent} {e : PtraceEvent}

theorem ReportedAt.concat {regs : UserRegs} {bp : Breakpoint} (h : ReportedAt regs bp l)
    (he : e.1.isResume = false) : ReportedAt regs bp (l ++ [e]) := by
  obtain ⟨⟨raised, hsince⟩, haddr⟩ := h
  exact ⟨⟨raised, hsince.concat (by rw [he]; decide)⟩, haddr⟩

theorem RewoundTo.concat {a : Word} (h : RewoundTo a l) (he : e.1.isResume = false) :
    RewoundTo a (l ++ [e]) := by
  obtain ⟨regs, hsince, hrip⟩ := h
  exact ⟨regs, hsince.concat (by rw [he]; decide), hrip⟩

/-- Without a hit the program counter is where the debuggee has left it. -/
theorem HitsInOrder.rewound_of_no_hit (h : HitsInOrder l c) (hhit : c.hit = none) :
    c.rewound = false := by
  by_contra hrewound
  obtain ⟨bp, hbp, -⟩ := h.rewound (by simpa using hrewound)
  rw [hhit] at hbp
  cases hbp

/-- A request that is none of the three, and resumes nothing, changes nothing of a hit. -/
theorem HitsInOrder.frame (h : HitsInOrder l c) (hresume : e.1.isResume = false)
    (hstep : e.1.isStep = false) (hreport : e.1.isReport = false) (hrewind : e.1.isRewind = false)
    (hhit : c'.hit = c.hit) (hrewound : c'.rewound = c.rewound)
    (hregs : ∀ regs, c'.heard = .regs regs → [⟨.getRegs, regs⟩] <:+ l ++ [e]) :
    HitsInOrder (l ++ [e]) c' := by
  refine ⟨hregs, ?_, ?_, ?_, ?_⟩
  · rw [count_of_not hreport, count_of_not hstep, hhit, h.reports]
  · rw [count_of_not hrewind, count_of_not hstep, hrewound, h.rewinds]
  · intro bp hbp
    obtain ⟨regs, hreported⟩ := h.hit bp (hhit ▸ hbp)
    exact ⟨regs, hreported.concat hresume⟩
  · intro htrue
    obtain ⟨bp, hbp, hto⟩ := h.rewound (hrewound ▸ htrue)
    exact ⟨bp, hhit ▸ hbp, hto.concat hresume⟩

/-- A report begins a hit. -/
theorem HitsInOrder.report (h : HitsInOrder l c) {bp : Breakpoint} {regs : UserRegs}
    {raised : Option Failure} (hhit : c.hit = none) (hheard : c.heard = .regs (some regs))
    (haddr : bp.bpAddress = regs.rip - 1) :
    HitsInOrder (l ++ [⟨.getBreakpointInfo bp, raised⟩])
      (c.next (.getBreakpointInfo bp) raised) := by
  have hrewound := h.rewound_of_no_hit hhit
  have hreports := h.reports
  rw [hhit] at hreports
  refine ⟨nofun, ?_, ?_, ?_, ?_⟩
  · simp only [count_concat, Request.isReport, Request.isStep, hreports, Watch.next]
    simp
  · rw [count_of_not rfl, count_of_not rfl]
    exact h.rewinds
  · rintro bp' hbp'
    cases hbp'
    refine ⟨regs, ⟨raised, since_of_suffix _ ?_⟩, haddr⟩
    obtain ⟨l₁, rfl⟩ := h.regs _ hheard
    exact ⟨l₁, by rw [List.append_assoc]; rfl⟩
  · intro htrue
    have hfalse : c.rewound = true := htrue
    rw [hrewound] at hfalse
    cases hfalse

/-- Moving the program counter belongs to the hit that was reported. -/
theorem HitsInOrder.rewind (h : HitsInOrder l c) {bp : Breakpoint} {regs : UserRegs}
    (hhit : c.hit = some bp) (hrewound : c.rewound = false) (hrip : regs.rip = bp.bpAddress) :
    HitsInOrder (l ++ [⟨.setRegs regs, ()⟩]) (c.next (.setRegs regs) ()) := by
  have hrewinds := h.rewinds
  rw [hrewound] at hrewinds
  refine ⟨nofun, ?_, ?_, ?_, ?_⟩
  · rw [count_of_not rfl, count_of_not rfl]
    exact h.reports
  · simp only [count_concat, Request.isRewind, Request.isStep, hrewinds, Watch.next]
    simp
  · intro bp' hbp'
    obtain ⟨regs', hreported⟩ := h.hit bp' hbp'
    exact ⟨regs', hreported.concat rfl⟩
  · exact fun _ ↦ ⟨bp, hhit, regs, since_of_suffix _ ⟨l, rfl⟩, hrip⟩

/-- The single step ends the hit. -/
theorem HitsInOrder.singleStep (h : HitsInOrder l c) {bp : Breakpoint} (hhit : c.hit = some bp)
    (hrewound : c.rewound = true) : HitsInOrder (l ++ [⟨.resume .singleStep, ()⟩])
      (c.next (.resume .singleStep) ()) := by
  have hreports := h.reports
  have hrewinds := h.rewinds
  rw [hhit] at hreports
  rw [hrewound] at hrewinds
  refine ⟨nofun, ?_, ?_, nofun, nofun⟩
  · simp only [count_concat, Request.isReport, Request.isStep, hreports, Watch.next]
    simp
  · simp only [count_concat, Request.isRewind, Request.isStep, hrewinds, Watch.next]
    simp

/-- One event keeps the hits in order. -/
theorem HitsInOrder.step (h : HitsInOrder l c) (he : c.Allows rs e.1) :
    HitsInOrder (l ++ [e]) (c.next e.1 e.2) := by
  obtain ⟨r, x⟩ := e
  cases r with
  | getBreakpointInfo bp =>
    obtain ⟨-, -, hhit, ⟨regs, hheard, haddr⟩, -⟩ := he
    exact h.report hhit hheard haddr
  | setRegs regs =>
    obtain ⟨hrewound, bp, regs', hhit, -, rfl⟩ := he
    exact h.rewind hhit hrewound rfl
  | resume how =>
    cases how with
    | singleStep =>
      obtain ⟨-, hrewound, bp, hhit, -⟩ := he
      exact h.singleStep hhit hrewound
    | cont =>
      obtain ⟨-, -, hhit⟩ := he
      have hrewound := h.rewound_of_no_hit hhit
      refine ⟨nofun, ?_, ?_, ?_, ?_⟩
      · rw [count_of_not rfl, count_of_not rfl]
        exact h.reports
      · rw [count_of_not rfl, count_of_not rfl]
        exact h.rewinds
      · intro bp hbp
        rw [show (c.next (.resume .cont) x).hit = c.hit from rfl, hhit] at hbp
        cases hbp
      · intro htrue
        rw [show (c.next (.resume .cont) x).rewound = c.rewound from rfl, hrewound] at htrue
        cases htrue
  | pokeData a v =>
    obtain ⟨w, -, -, ⟨-, -, hnext⟩ | ⟨b, -, -, -, hnext⟩⟩ := Watch.Allows.poke_cases he
    · exact hnext ▸ h.frame rfl rfl rfl rfl rfl rfl nofun
    · exact hnext ▸ h.frame rfl rfl rfl rfl rfl rfl nofun
  | getRegs =>
    refine h.frame rfl rfl rfl rfl rfl rfl ?_
    rintro regs hregs
    cases hregs
    exact ⟨l, rfl⟩
  | exit reason => exact x.elim
  | peekData | waitpid => exact h.frame rfl rfl rfl rfl rfl rfl nofun

theorem hitsInOrder_of_legal (h : (ptraceProtocol rs).Legal .start l) :
    HitsInOrder l ((ptraceProtocol rs).track .start l) :=
  h.induction ⟨nofun, rfl, rfl, nofun, nofun⟩ fun _ _ _ hl he ↦ hl.step he

end Hits

/-- The request for a breakpoint comes from a function at its address. -/
theorem functionAt_of_isFor {symbolsMap : Word → Option Symbol} {units : List CompileUnit}
    {bp : Breakpoint} (h : bp.IsFor (functionRequests symbolsMap units)) :
    ∃ cuIdx fnIdx func, FunctionAt units cuIdx fnIdx func ∧ func.lowPc = bp.bpAddress ∧
      func.name ≠ [] ∧ bp.cuIndex = toInt32 cuIdx ∧ bp.fnIndex = toInt32 fnIdx := by
  obtain ⟨r, hfind, -, -, hcu, hfn⟩ := h
  have haddr : r.addr = bp.bpAddress := by simpa using List.find?_some hfind
  obtain ⟨⟨cuIdx, fnIdx, func⟩, hmem, hr⟩ := List.mem_filterMap.mp (List.mem_of_find?_eq_some hfind)
  refine ⟨cuIdx, fnIdx, func, mem_allFunctions.mp hmem, ?_⟩
  unfold functionRequest at hr
  split_ifs at hr with _ hname _
  obtain ⟨sym, -, rfl⟩ := Option.map_eq_some_iff.mp hr
  exact ⟨haddr, hname, hcu, hfn⟩

section Sample

/-- The registers of a debuggee whose program counter is behind address 16. -/
def sampleRegs : UserRegs := ⟨0, 0, 0, 0, 0, 0, 17⟩

/-- The record for the function at address 16, over the byte `0x55`. -/
def sampleBp : Breakpoint := ⟨"function_call".toList, "f".toList, 16, 0x55, true, 0, 0⟩

/-- A dialogue up to the hit of the breakpoint. -/
def sampleHit : List PtraceEvent :=
  [⟨.waitpid, sigtrapStop⟩, ⟨.peekData 16, 0x9055⟩, ⟨.pokeData 16 0x90cc, ()⟩,
    ⟨.resume .cont, ()⟩, ⟨.waitpid, sigtrapStop⟩, ⟨.getRegs, some sampleRegs⟩]

/-- The dialogue with the report and the registers behind it. -/
def sampleReported : List PtraceEvent :=
  sampleHit ++ [⟨.getBreakpointInfo sampleBp, none⟩, ⟨.getRegs, some sampleRegs⟩]

/-- The dialogue up to the word that the byte is put back in. -/
def sampleRewound : List PtraceEvent :=
  sampleReported ++ [⟨.setRegs { sampleRegs with rip := 16 }, ()⟩, ⟨.peekData 16, 0x90cc⟩]

/-- A run with one function, at address 16. -/
abbrev sampleRun : Dbg (Table × Option Failure) :=
  run true (getSymbols sampleSections).symbolsMap [sampleFunctionUnit] 1

theorem follows_sampleHit :
    ∃ q, Follows sampleRun sampleHit q ∧ q.next? = some (.getBreakpointInfo sampleBp) :=
  ⟨_, .answer (.answer (.answer (.answer (.answer (.answer (.here _)))))), rfl⟩

theorem follows_sampleReported : ∃ q, Follows sampleRun sampleReported q ∧
    q.next? = some (.setRegs { sampleRegs with rip := 16 }) :=
  ⟨_, .answer (.answer (.answer (.answer (.answer (.answer (.answer (.answer (.here _)))))))), rfl⟩

theorem follows_sampleRewound :
    ∃ q, Follows sampleRun sampleRewound q ∧ q.next? = some (.pokeData 16 0x9055) :=
  ⟨_, .answer (.answer (.answer (.answer (.answer (.answer (.answer (.answer (.answer
    (.answer (.here _)))))))))), rfl⟩

end Sample

section Dialogues

variable (debugInfo : Bool) (symbolsMap : Word → Option Symbol) (units : List CompileUnit)
  (rounds : Nat) {l : List PtraceEvent} {q : Dbg (Table × Option Failure)}

/-- Behind a dialogue of a run stands what an observer keeps of it. -/
theorem legal_of_run (h : Follows (run debugInfo symbolsMap units rounds) l q) :
    (ptraceProtocol (functionRequests symbolsMap units)).Legal .start l :=
  ((run_obeys debugInfo symbolsMap units rounds).follows h).1

/-- The next request of a run is one that the rules allow. -/
theorem allows_of_run (h : Follows (run debugInfo symbolsMap units rounds) l q) {r : Request}
    (hr : q.next? = some r) : Watch.Allows (functionRequests symbolsMap units)
      ((ptraceProtocol (functionRequests symbolsMap units)).track .start l) r :=
  (run_obeys debugInfo symbolsMap units rounds).next_allowed h hr

/-- A status is asked for when each one but the first has been earned by a resume, and every
other request is made to a debuggee that stands still: waits and resumes alternate in every
dialogue of a run. -/
theorem run_waits_resumes (h : Follows (run debugInfo symbolsMap units rounds) l q) {r : Request}
    (hr : q.next? = some r) :
    count Request.isWait l = count Request.isResume l + if r.isWait then 0 else 1 := by
  have hturn := inTurn_of_legal (legal_of_run _ _ _ _ h)
  have hallowed := allows_of_run _ _ _ _ h hr
  rw [hturn.turns]
  by_cases hwait : r = .waitpid
  · subst hwait
    rw [show Watch.running _ = true from hallowed]
    rfl
  · have hkind : r.isWait = false := by
      cases r <;> first | rfl | exact absurd rfl hwait
    rw [hturn.stopped hallowed hwait, hkind]

/-- At the hit the debuggee has been waited for twice and resumed once. -/
theorem run_waits_resumes_sample :
    count Request.isWait sampleHit = count Request.isResume sampleHit + 1 := by
  obtain ⟨q, hfollows, hnext⟩ := follows_sampleHit
  exact run_waits_resumes true _ _ 1 hfollows hnext

/-- Every write to the debuggee is the word that was read there just before, not all ones, with
its low byte replaced: at each address in turns by an `int3` and by the byte that the last
`int3` there has replaced. -/
theorem run_patches (h : Follows (run debugInfo symbolsMap units rounds) l q) {a v : Word}
    (hr : q.next? = some (.pokeData a v)) :
    ∃ w b, [⟨.peekData a, w⟩] <:+ l ∧ w ≠ allOnes ∧
      (∀ i, i < 8 → wordByte v i = if i = 0 then b else wordByte w i) ∧
      if count (Request.isPokeAt a) l % 2 = 0 then b = int3 else PlantedOver a b l := by
  have hplace := inPlace_of_legal (legal_of_run _ _ _ _ h)
  obtain ⟨w, hheard, hw, hcases⟩ := Watch.Allows.poke_cases (allows_of_run _ _ _ _ h hr)
  have hpeek := hplace.word a w hheard
  rcases hcases with ⟨rfl, hfree, -⟩ | ⟨b, rfl, hlifted, hplanted, -⟩
  · have heven : count (Request.isPokeAt a) l % 2 = 0 := by
      rcases hfree with ⟨-, hfresh⟩ | hlifted
      · rw [hplace.absent a hfresh]
      · exact (hplace.lifted a hlifted).2.2
    exact ⟨w, int3, hpeek, hw, fun i hi ↦ wordByte_lowByte w int3 i hi, by rw [if_pos heven]⟩
  · obtain ⟨hodd, hover⟩ := hplace.planted a b hplanted (by rw [hlifted]; nofun)
    refine ⟨w, b, hpeek, hw, fun i hi ↦ wordByte_lowByte w b i hi, ?_⟩
    rw [if_neg (by omega)]
    exact hover

/-- The byte that is put back is the one that the patch of the set-up has replaced. -/
theorem run_patches_sample : PlantedOver 16 0x55 sampleRewound := by
  obtain ⟨q, hfollows, hnext⟩ := follows_sampleRewound
  obtain ⟨w, b, -, -, hbytes, hturn⟩ := run_patches true _ _ 1 hfollows hnext
  have hb : wordByte 0x9055 0 = b := hbytes 0 (by omega)
  rw [← show (0x55 : Byte) = b from hb] at hturn
  exact hturn

/-- Registers are written once for each report, before the debuggee is resumed: they are those
that were just read, with the program counter moved back by one from where it was when the
breakpoint was looked up, to the breakpoint. -/
theorem run_rewinds (h : Follows (run debugInfo symbolsMap units rounds) l q) {regs : UserRegs}
    (hr : q.next? = some (.setRegs regs)) :
    ∃ found bp read, ReportedAt found bp l ∧ [⟨.getRegs, some read⟩] <:+ l ∧
      regs = { read with rip := found.rip - 1 } ∧
      count Request.isReport l = count Request.isRewind l + 1 := by
  have hhits := hitsInOrder_of_legal (legal_of_run _ _ _ _ h)
  obtain ⟨hrewound, bp, read, hhit, hheard, rfl⟩ := allows_of_run _ _ _ _ h hr
  obtain ⟨found, hreported⟩ := hhits.hit bp hhit
  refine ⟨found, bp, read, hreported, hhits.regs _ hheard, by rw [hreported.2], ?_⟩
  rw [hhits.reports, hhits.rewinds, hhit, hrewound]
  rfl

/-- The registers go back to the function that was reported. -/
theorem run_rewinds_sample : ∃ found bp, ReportedAt found bp sampleReported ∧
    found.rip - 1 = 16 := by
  obtain ⟨q, hfollows, hnext⟩ := follows_sampleReported
  obtain ⟨found, bp, read, hreported, -, hregs, -⟩ := run_rewinds true _ _ 1 hfollows hnext
  exact ⟨found, bp, hreported, (congrArg UserRegs.rip hregs).symm⟩

/-- Only functions are reported: the breakpoint stands right behind the program counter that was
just read, it is enabled and saves the byte that the last patch at its address has replaced by
an `int3`, it carries the indices of a function at that address, and every report before it has
had its single step. -/
theorem run_reports (h : Follows (run debugInfo symbolsMap units rounds) l q) {bp : Breakpoint}
    (hr : q.next? = some (.getBreakpointInfo bp)) :
    (∃ regs, [⟨.getRegs, some regs⟩] <:+ l ∧ bp.bpAddress = regs.rip - 1) ∧ bp.enabled = true ∧
      PlantedOver bp.bpAddress bp.originalData l ∧
      count Request.isReport l = count Request.isStep l ∧
      ∃ cuIdx fnIdx func, FunctionAt units cuIdx fnIdx func ∧ func.lowPc = bp.bpAddress ∧
        func.name ≠ [] ∧ bp.cuIndex = toInt32 cuIdx ∧ bp.fnIndex = toInt32 fnIdx := by
  have hlegal := legal_of_run _ _ _ _ h
  have hhits := hitsInOrder_of_legal hlegal
  obtain ⟨-, hlifted, hhit, ⟨regs, hheard, haddr⟩, henabled, hplanted, hmade⟩ :=
    allows_of_run _ _ _ _ h hr
  obtain ⟨-, hover⟩ := (inPlace_of_legal hlegal).planted _ _ hplanted (by rw [hlifted]; nofun)
  refine ⟨⟨regs, hhits.regs _ hheard, haddr⟩, henabled, hover, ?_, functionAt_of_isFor hmade⟩
  rw [hhits.reports, hhit]
  rfl

/-- The function at address 16 is reported over the byte that was patched. -/
theorem run_reports_sample : PlantedOver 16 0x55 sampleHit ∧
    ∃ cuIdx fnIdx func, FunctionAt [sampleFunctionUnit] cuIdx fnIdx func ∧ func.lowPc = 16 := by
  obtain ⟨q, hfollows, hnext⟩ := follows_sampleHit
  obtain ⟨-, -, hover, -, cuIdx, fnIdx, func, hat, haddr, -⟩ :=
    run_reports true _ _ 1 hfollows hnext
  exact ⟨hover, cuIdx, fnIdx, func, hat, haddr⟩

end Dialogues

end ArgsDebugger
