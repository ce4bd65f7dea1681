import ArgsDebugger.Debugger.PatchInvariant

/-!
# The two overloads of set_breakpoint

`src/breakpoint.cc:10–40`. Both overloads patch the same memory and write the same table, and
only the one with six arguments looks into the table first. In whatever order they are called,
every key stands over an `int3`; so the other one saves that `int3` when it patches a key again.
-/

namespace ArgsDebugger

variable {κ : Type}

/-- `m_original_data` of the record under a key. -/
def Table.savedByte (table : Table) (key : Word) : Option Byte :=
  (table key).map fun bp ↦ bp.originalData

/-- The byte saved under an address is that of the record entered last. -/
theorem Table.savedByte_set (table : Table) (a key : Word) (bp : Breakpoint) :
    (table.set a bp).savedByte key =
      if key = a then some bp.originalData else table.savedByte key := by
  unfold savedByte
  split
  · next h =>
    rw [h, Table.set_self]
    rfl
  · next h => rw [table.set_of_ne bp h]

/-- A call of either overload for an address, in any surroundings, that raises nothing. -/
inductive SetBreakpointCall (addr : Word) : Table × Session κ → Table × Session κ → Prop
  | four (env : Environment κ) {table table' : Table} {s s' : Session κ}
      {bpName breakpointType : Text}
      (h : env.run (setBreakpoint4 table bpName addr breakpointType) s =
        some ((table', none), s')) :
      SetBreakpointCall addr (table, s) (table', s')
  | six (env : Environment κ) {table table' : Table} {s s' : Session κ}
      {bpName breakpointType : Text} {cuIndex fnIndex : Int}
      (h : env.run (setBreakpoint6 table bpName addr breakpointType cuIndex fnIndex) s =
        some ((table', none), s')) :
      SetBreakpointCall addr (table, s) (table', s')

/-- A call of either overload for any address. -/
def SetBreakpointStep (st st' : Table × Session κ) : Prop := ∃ addr, SetBreakpointCall addr st st'

/-- Every key stands over an `int3`. -/
def KeysPatched (st : Table × Session κ) : Prop :=
  ∀ key, (st.1 key).isSome = true → st.2.tracee.mem.bytes key = int3

/-- The byte saved under an address, if any, is an `int3` of the program's own, so that saving it
again is saving the same. -/
def SavesInt3 (table : Table) (addr : Word) : Prop :=
  ∀ bp, table addr = some bp → bp.originalData = int3

/-- What a call has done: nothing where a record exists and the overload looks for it, or else an
`int3` and a record of the byte that was there. -/
theorem SetBreakpointCall.cases {addr : Word} {st st' : Table × Session κ}
    (h : SetBreakpointCall addr st st') :
    st' = st ∧ (st.1 addr).isSome = true ∨
      ∃ bp : Breakpoint, bp.originalData = st.2.tracee.mem.bytes addr ∧
        st' = (st.1.set addr bp, st.2.withMem (st.2.tracee.mem.setByte addr int3)) := by
  cases h with
  | four env h =>
    obtain ⟨-, rfl, rfl⟩ := setBreakpoint4_cases env _ h
    exact .inr ⟨_, rfl, rfl⟩
  | six env h =>
    rcases setBreakpoint6_cases env _ h with ⟨hsome, rfl, rfl⟩ | ⟨-, -, rfl, rfl⟩
    · exact .inl ⟨rfl, hsome⟩
    · exact .inr ⟨_, rfl, rfl⟩

/-- A call leaves every key over an `int3`. -/
theorem SetBreakpointCall.keysPatched {addr : Word} {st st' : Table × Session κ}
    (h : SetBreakpointCall addr st st') (hi : KeysPatched st) : KeysPatched st' := by
  rcases h.cases with ⟨rfl, -⟩ | ⟨bp, -, rfl⟩
  · exact hi
  · intro key hkey
    show (st.2.tracee.mem.setByte addr int3).bytes key = int3
    by_cases hka : key = addr
    · rw [hka, Memory.setByte_bytes_self]
    · rw [Memory.setByte_bytes_of_ne _ _ hka]
      apply hi
      have hset : st.1.set addr bp key = st.1 key := Table.set_of_ne _ bp hka
      rw [← hset]
      exact hkey

/-- In every run of calls from an empty table every key stands over an `int3`. -/
theorem keysPatched_of_reachable {s₀ : Session κ} {st : Table × Session κ}
    (h : Relation.ReflTransGen SetBreakpointStep (Table.empty, s₀) st) : KeysPatched st := by
  induction h with
  | refl =>
    intro key hkey
    cases hkey
  | tail _ hstep ih =>
    obtain ⟨addr, hcall⟩ := hstep
    exact hcall.keysPatched ih

/-- Both overloads return for an address, and leave the same memory, the same keys and the same
saved byte under each of them. -/
def OverloadsAgree (env : Environment κ) (table : Table) (s : Session κ) (addr : Word) : Prop :=
  ∀ bpName breakpointType cuIndex fnIndex, ∃ table₄ s₄ table₆ s₆,
    env.run (setBreakpoint4 table bpName addr breakpointType) s = some ((table₄, none), s₄) ∧
      env.run (setBreakpoint6 table bpName addr breakpointType cuIndex fnIndex) s =
        some ((table₆, none), s₆) ∧
      s₄.tracee.mem = s₆.tracee.mem ∧
      (∀ key, (table₄ key).isSome = (table₆ key).isSome) ∧
      ∀ key, table₄.savedByte key = table₆.savedByte key

/-- No call for the address changes the saved byte of a key. -/
def KeepsSavedBytes (table : Table) (s : Session κ) (addr : Word) : Prop :=
  ∀ st', SetBreakpointCall addr (table, s) st' →
    ∀ key, (table key).isSome = true → st'.1.savedByte key = table.savedByte key

section Agree

variable {table : Table} {s : Session κ} {addr : Word}

/-- On an address without a record the overloads agree. -/
theorem overloadsAgree_of_absent (env : Environment κ) (hp : s.tracee.mem.peekData addr ≠ allOnes)
    (ht : table addr = none) : OverloadsAgree env table s addr := by
  intro bpName breakpointType cuIndex fnIndex
  have hfour := run_setBreakpoint4 env s table bpName breakpointType addr hp
  have hsix := run_setBreakpoint6 env s table bpName breakpointType addr cuIndex fnIndex ht hp
  refine ⟨_, _, _, _, hfour, hsix, rfl, ?_, ?_⟩
  · intro key
    by_cases hka : key = addr
    · rw [hka, Table.set_self, Table.set_self]
      rfl
    · rw [Table.set_of_ne _ _ hka, Table.set_of_ne _ _ hka]
  · intro key
    rw [Table.savedByte_set, Table.savedByte_set]

/-- On an address with a record one overload saves the `int3` that stands there, the other one
changes nothing. -/
theorem KeysPatched.overloadsAgree_of_present_iff (hi : KeysPatched (table, s))
    (env : Environment κ) (hp : s.tracee.mem.peekData addr ≠ allOnes) {bp : Breakpoint}
    (ht : table addr = some bp) :
    OverloadsAgree env table s addr ↔ bp.originalData = int3 := by
  have hsome : (table addr).isSome = true := by rw [ht]; rfl
  have hbyte : s.tracee.mem.bytes addr = int3 := hi addr hsome
  have hsaved : table.savedByte addr = some bp.originalData := by rw [Table.savedByte, ht]; rfl
  constructor
  · intro h
    obtain ⟨table₄, s₄, table₆, s₆, h₄, h₆, -, -, hsame⟩ := h [] [] 0 0
    rw [run_setBreakpoint4 env s table _ _ addr hp, Option.some.injEq, Prod.mk.injEq,
      Prod.mk.injEq] at h₄
    rw [run_setBreakpoint6_of_present env s table _ _ _ _ _ hsome, Option.some.injEq,
      Prod.mk.injEq, Prod.mk.injEq] at h₆
    have haddr := hsame addr
    rw [← h₄.1.1, ← h₆.1.1, Table.savedByte_set, if_pos rfl, hsaved, hbyte] at haddr
    exact (Option.some.inj haddr).symm
  · intro h bpName breakpointType cuIndex fnIndex
    have hfour := run_setBreakpoint4 env s table bpName breakpointType addr hp
    have hsix := run_setBreakpoint6_of_present env s table bpName breakpointType addr cuIndex
      fnIndex hsome
    refine ⟨_, _, _, _, hfour, hsix, ?_, ?_, ?_⟩
    · exact Memory.setByte_bytes _ hbyte
    · intro key
      by_cases hka : key = addr
      · rw [hka, Table.set_self, hsome]
        rfl
      · rw [Table.set_of_ne _ _ hka]
    · intro key
      rw [Table.savedByte_set]
      split
      · next hka => rw [hka, hsaved, hbyte, h]
      · rfl

/-- Over patched keys the overloads agree exactly on an address that has no record, or one that
saves an `int3`. -/
theorem KeysPatched.overloadsAgree_iff (hi : KeysPatched (table, s)) (env : Environment κ)
    (hp : s.tracee.mem.peekData addr ≠ allOnes) :
    OverloadsAgree env table s addr ↔ SavesInt3 table addr := by
  unfold SavesInt3
  cases ht : table addr with
  | none =>
    apply iff_of_true (overloadsAgree_of_absent env hp ht)
    intro bp hbp
    cases hbp
  | some bp =>
    rw [hi.overloadsAgree_of_present_iff env hp ht]
    constructor
    · intro h bp' hbp'
      cases hbp'
      exact h
    · intro h
      exact h bp rfl

/-- Over patched keys the saved bytes stay exactly when the overloads agree. -/
theorem KeysPatched.keepsSavedBytes_iff (hi : KeysPatched (table, s)) (env : Environment κ)
    (hp : s.tracee.mem.peekData addr ≠ allOnes) :
    KeepsSavedBytes table s addr ↔ SavesInt3 table addr := by
  constructor
  · intro h bp ht
    have hsome : (table addr).isSome = true := by rw [ht]; rfl
    have hcall := SetBreakpointCall.four env (run_setBreakpoint4 env s table [] [] addr hp)
    have hkept := h _ hcall addr hsome
    rw [Table.savedByte_set, if_pos rfl, hi addr hsome, Table.savedByte, ht] at hkept
    exact (Option.some.inj hkept).symm
  · intro h st' hcall key hkey
    rcases hcall.cases with ⟨rfl, -⟩ | ⟨bp, hbp, rfl⟩
    · rfl
    · rw [Table.savedByte_set]
      split
      · next hka =>
        subst hka
        obtain ⟨old, hold⟩ := Option.isSome_iff_exists.mp hkey
        rw [hbp, hi key hkey, Table.savedByte, hold, Option.map_some, h old hold]
      · rfl

end Agree

/-- A call for an address that has no record, or one that saves an `int3`. -/
def CarefulStep (st st' : Table × Session κ) : Prop :=
  ∃ addr, SavesInt3 st.1 addr ∧ SetBreakpointCall addr st st'

/-- Every key saves the byte that the process had there at the start, and only the bytes under
keys have changed since. -/
structure SavesStart (s₀ : Session κ) (st : Table × Session κ) : Prop where
  saved : ∀ key bp, st.1 key = some bp → bp.originalData = s₀.tracee.mem.bytes key
  unchanged : ∀ key, st.1 key = none → st.2.tracee.mem.bytes key = s₀.tracee.mem.bytes key

/-- A call that meets the condition saves the byte of the start. -/
theorem SavesStart.careful {s₀ : Session κ} {st st' : Table × Session κ} {addr : Word}
    (hs : SavesStart s₀ st) (hi : KeysPatched st) (hsaves : SavesInt3 st.1 addr)
    (hcall : SetBreakpointCall addr st st') : SavesStart s₀ st' := by
  rcases hcall.cases with ⟨rfl, -⟩ | ⟨bp, hbp, rfl⟩
  · exact hs
  · have hbyte : st.2.tracee.mem.bytes addr = s₀.tracee.mem.bytes addr := by
      cases ht : st.1 addr with
      | none => exact hs.unchanged addr ht
      | some old =>
        have hsome : (st.1 addr).isSome = true := by rw [ht]; rfl
        rw [← hs.saved addr old ht, hsaves old ht]
        exact hi addr hsome
    constructor
    · intro key bp' ht
      have ht' : st.1.set addr bp key = some bp' := ht
      by_cases hka : key = addr
      · subst hka
        rw [Table.set_self] at ht'
        cases ht'
        rw [hbp, hbyte]
      · rw [Table.set_of_ne _ _ hka] at ht'
        exact hs.saved key bp' ht'
    · intro key ht
      have ht' : st.1.set addr bp key = none := ht
      by_cases hka : key = addr
      · rw [hka, Table.set_self] at ht'
        cases ht'
      · rw [Table.set_of_ne _ _ hka] at ht'
        rw [← hs.unchanged key ht']
        exact Memory.setByte_bytes_of_ne _ _ hka

/-- In every run of such calls from an empty table the keys save the bytes of the start. -/
theorem savesStart_of_reachable {s₀ : Session κ} {st : Table × Session κ}
    (h : Relation.ReflTransGen CarefulStep (Table.empty, s₀) st) : SavesStart s₀ st := by
  have hinv : KeysPatched st ∧ SavesStart s₀ st := by
    induction h with
    | refl => exact ⟨nofun, nofun, fun key _ ↦ rfl⟩
    | tail _ hstep ih =>
      obtain ⟨addr, hsaves, hcall⟩ := hstep
      exact ⟨hcall.keysPatched ih.1, ih.2.careful ih.1 hsaves hcall⟩
  exact hinv.2

/-- The overloads agree in a reachable state, and setting a breakpoint again keeps the saved bytes,
exactly on the addresses that have no record, or one whose saved byte is `int3` already. In every
run of calls for such addresses the keys save the bytes that the process had before the first. -/
theorem setBreakpoint_overloads_iff (s₀ : Session κ) :
    (∀ table s, Relation.ReflTransGen SetBreakpointStep (Table.empty, s₀) (table, s) →
      ∀ (env : Environment κ) (addr : Word), s.tracee.mem.peekData addr ≠ allOnes →
        ((OverloadsAgree env table s addr ∧ KeepsSavedBytes table s addr) ↔
          SavesInt3 table addr)) ∧
    ∀ st, Relation.ReflTransGen CarefulStep (Table.empty, s₀) st →
      ∀ key bp, st.1 key = some bp → bp.originalData = s₀.tracee.mem.bytes key := by
  constructor
  · intro table s h env addr hp
    have hi := keysPatched_of_reachable h
    rw [hi.overloadsAgree_iff env hp, hi.keepsSavedBytes_iff env hp, and_self]
  · intro st h
    exact (savesStart_of_reachable h).saved

/-- The table and the process after a breakpoint was set on one of the `nop`s. -/
def sampleBreakpoint : Table × Session Unit :=
  (Table.empty.set 16 ⟨"function_call".toList, "f".toList, 16, 0x90, true, 0, 0⟩,
    sampleSession.withMem (sampleSession.tracee.mem.setByte 16 int3))

theorem sampleBreakpoint_reachable :
    Relation.ReflTransGen SetBreakpointStep (Table.empty, sampleSession) sampleBreakpoint := by
  have hrun := run_setBreakpoint6 sampleEnvironment sampleSession Table.empty "f".toList
    "function_call".toList 16 0 0 rfl (by decide)
  exact Relation.ReflTransGen.single ⟨16, .six sampleEnvironment hrun⟩

/-- Behind a call for one of the `nop`s the overloads agree on the next one. -/
theorem setBreakpoint_overloads_iff_sample :
    OverloadsAgree sampleEnvironment sampleBreakpoint.1 sampleBreakpoint.2 17 := by
  have hiff := (setBreakpoint_overloads_iff sampleSession).1 _ _ sampleBreakpoint_reachable
    sampleEnvironment 17 (by decide)
  refine (hiff.mpr ?_).1
  intro bp ht
  cases ht

/-- Setting a breakpoint on a `nop` that has one: with four arguments the `int3` is saved. -/
theorem setBreakpoint_overloads_disagree :
    ¬ ∀ (s₀ s : Session Unit) (table : Table),
      Relation.ReflTransGen SetBreakpointStep (Table.empty, s₀) (table, s) →
      ∀ (env : Environment Unit) (addr : Word), s.tracee.mem.peekData addr ≠ allOnes →
        OverloadsAgree env table s addr := by
  intro h
  have hagree := h _ _ _ sampleBreakpoint_reachable sampleEnvironment 16 (by decide)
  have hi := keysPatched_of_reachable sampleBreakpoint_reachable
  have hsaved := (hi.overloadsAgree_iff sampleEnvironment (by decide)).mp hagree _
    (Table.set_self ..)
  exact absurd hsaved (by decide)

end ArgsDebugger
