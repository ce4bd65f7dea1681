import ArgsDebugger.CompileUnit.TypeChain
import Mathlib.Data.List.Nodup

/-!
# The scan for the structure behind a parameter

The loop that `generate_complex_payload` (`src/compile_unit.cc:184–196`) and
`complex_value_to_string` (`src/compile_unit.cc:946–958`) share. It runs through the unit's
datatypes for the type of the current record; at a hit that is no structure it goes on from
there by setting its index to 0, which the loop header then raises to 1. After the first hop
the scan never sees the first slot.
-/

namespace ArgsDebugger

open Lib

/-- An iteration of the scan: `temp_param` and `index`. The loop is left with the structure,
or with nothing when the index runs out. -/
def structureBody (datatypes : List Datatype) (s : Datatype × Nat) :
    Option Datatype ⊕ (Datatype × Nat) :=
  match datatypes[s.2]? with
  | none => .inl none
  | some i =>
    if s.1.type = i.sectionOffset then
      if i.typeName = .structureType then .inl (some i) else .inr (i, 0 + 1)
    else .inr (s.1, s.2 + 1)

/-- The scan, within a budget of iterations. -/
def structureScan (fuel : Nat) (cu : CompileUnit) (param : Datatype) : Option (Option Datatype) :=
  Loop.run (structureBody cu.datatypes) fuel (param, 0)

section Scan

variable {datatypes : List Datatype}

/-- How the scan is left: behind the last slot, or at a structure that matches. -/
theorem structureBody_inl {s : Datatype × Nat} {r : Option Datatype}
    (h : structureBody datatypes s = .inl r) :
    (datatypes[s.2]? = none ∧ r = none) ∨
      ∃ d, datatypes[s.2]? = some d ∧ s.1.type = d.sectionOffset ∧
        d.typeName = .structureType ∧ r = some d := by
  unfold structureBody at h
  cases hget : datatypes[s.2]? with
  | none =>
    simp only [hget] at h
    cases h
    exact .inl ⟨rfl, rfl⟩
  | some d =>
    simp only [hget] at h
    split at h
    · next hmatch =>
      split at h
      · next hstruct =>
        cases h
        exact .inr ⟨d, rfl, hmatch, hstruct, rfl⟩
      · cases h
    · cases h

/-- How the scan goes on: from any other match behind the first slot, or to the next slot. -/
theorem structureBody_inr {s s' : Datatype × Nat} (h : structureBody datatypes s = .inr s') :
    ∃ d, datatypes[s.2]? = some d ∧
      ((s.1.type = d.sectionOffset ∧ d.typeName ≠ .structureType ∧ s' = (d, 1)) ∨
        (s.1.type ≠ d.sectionOffset ∧ s' = (s.1, s.2 + 1))) := by
  unfold structureBody at h
  cases hget : datatypes[s.2]? with
  | none =>
    simp only [hget] at h
    cases h
  | some d =>
    simp only [hget] at h
    refine ⟨d, rfl, ?_⟩
    split at h
    · next hmatch =>
      split at h
      · cases h
      · next hstruct =>
        cases h
        exact .inl ⟨hmatch, hstruct, rfl⟩
    · next hmatch =>
      cases h
      exact .inr ⟨hmatch, rfl⟩

/-- The scan looks for the first match from its index on. Without one it finds nothing; it ends
at a structure, and goes on behind the first slot from any other record. -/
theorem ends_structureBody_iff {temp : Datatype} {index : Nat} {r : Option Datatype} :
    Loop.Ends (structureBody datatypes) (temp, index) r ↔
      match (datatypes.drop index).find? fun i ↦ i.sectionOffset = temp.type with
      | none => r = none
      | some i =>
        if i.typeName = .structureType then r = some i
        else Loop.Ends (structureBody datatypes) (i, 1) r := by
  generalize hrest : datatypes.drop index = rest
  induction rest generalizing index with
  | nil =>
    have hget : datatypes[index]? = none :=
      List.getElem?_eq_none (List.drop_eq_nil_iff.mp hrest)
    have hbody : structureBody datatypes (temp, index) = .inl none := by
      simp only [structureBody, hget]
    exact Loop.ends_inl hbody
  | cons i rest ih =>
    have hget : datatypes[index]? = some i := by
      rw [← List.head?_drop, hrest]
      rfl
    have hdrop : datatypes.drop (index + 1) = rest := by
      rw [← List.drop_drop, hrest]
      rfl
    by_cases hi : i.sectionOffset = temp.type
    · rw [List.find?_cons_of_pos (by simpa using hi)]
      by_cases hstruct : i.typeName = .structureType
      · have hbody : structureBody datatypes (temp, index) = .inl (some i) := by
          simp only [structureBody, hget, if_pos hi.symm, if_pos hstruct]
        simp only [if_pos hstruct]
        exact Loop.ends_inl hbody
      · have hbody : structureBody datatypes (temp, index) = .inr (i, 1) := by
          simp only [structureBody, hget, if_pos hi.symm, if_neg hstruct]
        simp only [if_neg hstruct]
        exact Loop.ends_inr hbody
    · rw [List.find?_cons_of_neg (by simpa using hi)]
      have hbody : structureBody datatypes (temp, index) = .inr (temp, index + 1) := by
        simp only [structureBody, hget, if_neg (Ne.symm hi)]
      exact (Loop.ends_inr hbody).trans (ih hdrop)

/-- With distinct offsets, a match is lost behind the first slot exactly when it stands there. -/
theorem find?_drop_one (hdist : (datatypes.map (·.sectionOffset)).Nodup) {offset : Int}
    {i : Datatype} (h : datatypes.find? (fun i ↦ i.sectionOffset = offset) = some i) :
    (datatypes.drop 1).find? (fun i ↦ i.sectionOffset = offset) =
      if datatypes.head? = some i then none else some i := by
  cases datatypes with
  | nil => cases h
  | cons d rest =>
    have hi : i.sectionOffset = offset := by simpa using List.find?_some h
    simp only [List.drop_one, List.tail_cons, List.head?_cons, Option.some.injEq]
    by_cases hd : d.sectionOffset = offset
    · rw [List.find?_cons_of_pos (by simpa using hd)] at h
      cases h
      rw [if_pos rfl, List.find?_eq_none]
      intro e he
      have hne : i.sectionOffset ∉ rest.map (·.sectionOffset) := (List.nodup_cons.mp hdist).1
      rw [hd] at hne
      simp only [decide_eq_true_eq]
      exact fun heq ↦ hne (heq ▸ List.mem_map_of_mem he)
    · rw [List.find?_cons_of_neg (by simpa using hd)] at h
      have hdi : d ≠ i := fun heq ↦ hd (heq ▸ hi)
      rw [if_neg hdi, h]

/-- From a record behind which the chain runs to a structure, the scan behind the first slot
ends: at that structure when no record on the way stands in the first slot, and with nothing
otherwise. -/
theorem ends_structureBody_hop (hdist : (datatypes.map (·.sectionOffset)).Nodup)
    {x : Datatype} {pre post : List Datatype} {target : Datatype}
    (ht : Trail (nextType datatypes) x (pre ++ target :: post))
    (htarget : target.typeName = .structureType)
    (hpre : ∀ i ∈ pre, i.typeName ≠ .structureType) :
    Loop.Ends (structureBody datatypes) (x, 1)
      (if ∃ i ∈ pre ++ [target], datatypes.head? = some i then none else some target) := by
  induction pre generalizing x with
  | nil =>
    rw [List.nil_append] at ht
    cases ht with
    | step hnext _ =>
      rw [ends_structureBody_iff, find?_drop_one hdist (find?_of_nextType hnext)]
      by_cases hhead : datatypes.head? = some target
      · simp [hhead]
      · simp [hhead, htarget]
  | cons y pre ih =>
    rw [List.cons_append] at ht
    cases ht with
    | step hnext ht =>
      have hy : y.typeName ≠ .structureType := hpre y List.mem_cons_self
      rw [ends_structureBody_iff, find?_drop_one hdist (find?_of_nextType hnext)]
      by_cases hhead : datatypes.head? = some y
      · simp [hhead]
      · have hih := ih ht fun i hi ↦ hpre i (List.mem_cons_of_mem y hi)
        simp only [hhead, if_false, if_neg hy, List.cons_append, List.mem_cons,
          exists_eq_or_imp, false_or]
        exact hih

/-- The whole scan: the record right behind the parameter is found in any slot, those further
on the way only outside the first one. -/
theorem ends_structureBody (hdist : (datatypes.map (·.sectionOffset)).Nodup)
    {x : Datatype} {pre post : List Datatype} {target : Datatype}
    (ht : Trail (nextType datatypes) x (pre ++ target :: post))
    (htarget : target.typeName = .structureType)
    (hpre : ∀ i ∈ pre, i.typeName ≠ .structureType) :
    Loop.Ends (structureBody datatypes) (x, 0)
      (if ∃ i ∈ (pre ++ [target]).tail, datatypes.head? = some i then none
        else some target) := by
  cases pre with
  | nil =>
    rw [List.nil_append] at ht
    cases ht with
    | step hnext _ =>
      rw [ends_structureBody_iff, List.drop_zero, find?_of_nextType hnext]
      simp [htarget]
  | cons y pre =>
    rw [List.cons_append] at ht
    cases ht with
    | step hnext ht =>
      have hy : y.typeName ≠ .structureType := hpre y List.mem_cons_self
      rw [ends_structureBody_iff, List.drop_zero, find?_of_nextType hnext]
      simp only [if_neg hy, List.cons_append, List.tail_cons]
      exact ends_structureBody_hop hdist ht htarget fun i hi ↦ hpre i (List.mem_cons_of_mem y hi)

end Scan

/-- The two walks over the types: where the chain from a record runs to a first structure, the
scan ends, and it finds that structure exactly when no record behind the first one of the
chain, up to the structure itself, stands in the first slot of the unit's datatypes. -/
theorem structureScan_iff (cu : CompileUnit) (x : Datatype)
    (hdist : (cu.datatypes.map (·.sectionOffset)).Nodup)
    (hac : Acyclic (nextType cu.datatypes) cu.datatypes) :
    ∃ l, Trail (nextType cu.datatypes) x l ∧
      ∀ pre target post, l = pre ++ target :: post → target.typeName = .structureType →
        (∀ i ∈ pre, i.typeName ≠ .structureType) →
        ∃ fuel result, structureScan fuel cu x = some result ∧
          (result = some target ↔
            ∀ i ∈ (pre ++ [target]).tail, cu.datatypes.head? ≠ some i) := by
  obtain ⟨l, ht⟩ := hac.exists_trail (fun _ _ ↦ mem_of_nextType) x
  refine ⟨l, ht, ?_⟩
  rintro pre target post rfl htarget hpre
  obtain ⟨fuel, hrun⟩ := ends_structureBody hdist ht htarget hpre
  refine ⟨fuel, _, hrun, ?_⟩
  split
  · next h =>
    obtain ⟨i, hi, hhead⟩ := h
    constructor
    · intro hnone
      cases hnone
    · intro hall
      exact absurd hhead (hall i hi)
  · next h =>
    simp only [true_iff]
    exact fun i hi hhead ↦ h ⟨i, hi, hhead⟩

/-- A structure at section offset 2. -/
def sampleStructure : Datatype :=
  ⟨{ (default : DatatypeEntry) with sectionOffset := 2, typeName := .structureType }, [], []⟩

/-- A pointer to the structure. -/
def samplePointer : Datatype :=
  ⟨{ (default : DatatypeEntry) with
    sectionOffset := 3, typeName := .pointerType, type := 2 }, [], []⟩

/-- A parameter whose type is the pointer. -/
def samplePointerParameter : Datatype :=
  ⟨{ (default : DatatypeEntry) with typeName := .formalParameter, type := 3 }, [], []⟩

/-- A unit with the given datatypes. -/
def unitOf (datatypes : List Datatype) : CompileUnit :=
  ⟨[], [], 0, 0, [], datatypes, [], []⟩

/-- The chain of the sample parameter, in whichever order the two types are recorded. -/
theorem trail_sample {datatypes : List Datatype}
    (h : datatypes = [sampleStructure, samplePointer] ∨
      datatypes = [samplePointer, sampleStructure]) :
    Trail (nextType datatypes) samplePointerParameter [samplePointer, sampleStructure] := by
  rcases h with rfl | rfl
  · exact .step rfl (.step rfl (.stop rfl))
  · exact .step rfl (.step rfl (.stop rfl))

/-- The links between the two types are acyclic. -/
theorem acyclic_sample {datatypes : List Datatype}
    (h : datatypes = [sampleStructure, samplePointer] ∨
      datatypes = [samplePointer, sampleStructure]) :
    Acyclic (nextType datatypes) datatypes := by
  apply Acyclic.of_trails
  have hstructure : Trail (nextType datatypes) sampleStructure [] := .stop rfl
  have hpointer : Trail (nextType datatypes) samplePointer [sampleStructure] :=
    .step (by rcases h with rfl | rfl <;> rfl) hstructure
  intro x hx
  have hx' : x = sampleStructure ∨ x = samplePointer := by
    rcases h with rfl | rfl
    · simpa using hx
    · simpa [or_comm] using hx
  rcases hx' with rfl | rfl
  · exact ⟨_, hstructure⟩
  · exact ⟨_, hpointer⟩

/-- A structure in the first slot is not found behind a pointer. -/
theorem structureScan_misses_first_slot :
    ¬ ∀ (cu : CompileUnit) (x : Datatype), (cu.datatypes.map (·.sectionOffset)).Nodup →
      Acyclic (nextType cu.datatypes) cu.datatypes →
      ∀ pre target post, Trail (nextType cu.datatypes) x (pre ++ target :: post) →
        target.typeName = .structureType → (∀ i ∈ pre, i.typeName ≠ .structureType) →
        ∀ fuel result, structureScan fuel cu x = some result → result = some target := by
  intro h
  have htarget := h (unitOf [sampleStructure, samplePointer]) samplePointerParameter (by decide)
    (acyclic_sample (.inl rfl)) [samplePointer] sampleStructure [] (trail_sample (.inl rfl)) rfl
    (by decide) 10 none (by decide)
  cases htarget

/-- In the other order of the two types the structure is found. -/
theorem structureScan_iff_sample :
    ∃ fuel, structureScan fuel (unitOf [samplePointer, sampleStructure])
      samplePointerParameter = some (some sampleStructure) := by
  obtain ⟨l, ht, hscan⟩ := structureScan_iff (unitOf [samplePointer, sampleStructure])
    samplePointerParameter (by decide) (acyclic_sample (.inr rfl))
  have hl := ht.unique (trail_sample (.inr rfl))
  obtain ⟨fuel, result, hrun, hiff⟩ := hscan [samplePointer] sampleStructure [] hl rfl (by decide)
  rw [hiff.mpr (by decide)] at hrun
  exact ⟨fuel, hrun⟩

end ArgsDebugger
