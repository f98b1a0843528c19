import Rdbms.Library.Failure
import Rdbms.Sql.Extension

/-!
# The extension registry only grows

A load that succeeds puts the functions of a descriptor next to those that are there, and
the checks before it keep the names apart: a loaded extension exports no name that another
one exports. All other loads, whether they fail or find the extension loaded already, leave
the registry as it is.
-/

namespace Rdbms

namespace Sql

open Library

namespace ExtensionRegistry

/-- Whether an extension of this name is loaded. -/
def isLoaded (registry : ExtensionRegistry) (name : String) : Bool :=
  registry.extensions.contains (normalizeName name)

/-- Load the descriptors one after the other, whether the loads succeed or not. -/
def loadEach : List ExtensionDescriptor → Db ExtensionRegistry (List (DbResult Unit))
  | [] => return []
  | descriptor :: descriptors => do
      let answer ← Exec.attempt (load descriptor)
      let answers ← loadEach descriptors
      return answer :: answers

/-! ## One load -/

/-- The registry with the functions of one more extension. -/
def extended (registry : ExtensionRegistry) (descriptor : ExtensionDescriptor) :
    ExtensionRegistry where
  extensions := registry.extensions.insert (normalizeName descriptor.name) descriptor
  scalarFunctions := insertFunctions registry.scalarFunctions descriptor.scalarFunctions

/-- The name is exported by the descriptor, in some ASCII case. -/
def Exports (descriptor : ExtensionDescriptor) (name : String) : Prop :=
  ∃ function ∈ descriptor.scalarFunctions, normalizeName function.name = normalizeName name

section Load

variable {registry : ExtensionRegistry} {descriptor : ExtensionDescriptor}

/-- What a load does: it fails or finds the extension loaded and changes nothing, or none of
its names is taken and it adds them all. -/
theorem load_cases (registry : ExtensionRegistry) (descriptor : ExtensionDescriptor) :
    (∃ message, load descriptor registry = (DbResult.extension message, registry)) ∨
    (registry.isLoaded descriptor.name ∧ load descriptor registry = (.ok (), registry)) ∨
    (¬ registry.isLoaded descriptor.name ∧
      (∀ function ∈ descriptor.scalarFunctions,
        registry.scalarFunction function.name = none) ∧
      load descriptor registry = (.ok (), registry.extended descriptor)) := by
  by_cases habi : abiVersionSupported descriptor.abiVersion = false
  · left
    exact ⟨_, by rw [load, failIf_of habi, Exec.bind_of_error (Exec.liftM_apply _ _)]⟩
  rw [load, failIf_of_not habi, Exec.bind_of_ok (Exec.liftM_apply _ _),
    Exec.bind_of_ok (Exec.get_apply _)]
  by_cases hloaded : registry.extensions.contains (normalizeName descriptor.name)
  · rw [if_pos hloaded]
    exact Or.inr (Or.inl ⟨hloaded, rfl⟩)
  rw [if_neg hloaded]
  have hchecks := Exec.forM_liftM descriptor.scalarFunctions (fun function =>
    failIf (registry.scalarFunctions.contains (normalizeName function.name))
      (DbResult.extension s!"scalar function already registered: {function.name}")) registry
  cases hcheck : descriptor.scalarFunctions.forM fun function =>
      failIf (registry.scalarFunctions.contains (normalizeName function.name))
        (DbResult.extension s!"scalar function already registered: {function.name}") with
  | error stop =>
      left
      have hfails : FailsIn (fun stop : Stop => ∃ message, stop = .error (.extension message))
          (descriptor.scalarFunctions.forM fun function =>
            failIf (registry.scalarFunctions.contains (normalizeName function.name))
              (DbResult.extension s!"scalar function already registered: {function.name}")) :=
        FailsIn.forM fun _ _ => FailsIn.failIf fun _ => FailsIn.error ⟨_, rfl⟩
      obtain ⟨message, rfl⟩ := hfails stop hcheck
      rw [hcheck] at hchecks
      exact ⟨message, Exec.bind_of_error hchecks⟩
  | ok u =>
      rw [hcheck] at hchecks
      refine Or.inr (Or.inr ⟨hloaded, ?_, Exec.bind_of_ok hchecks⟩)
      intro function hfunction
      have hfree := failIf_eq_ok.1 (except_forM_eq_ok.1 hcheck function hfunction)
      rw [scalarFunction, Std.TreeMap.getElem?_eq_none (by rwa [Std.TreeMap.mem_iff_contains])]

theorem extensions_extended (key : String) :
    (registry.extended descriptor).extensions[key]? =
      if normalizeName descriptor.name = key then some descriptor
      else registry.extensions[key]? := by
  rw [extended, Std.TreeMap.getElem?_insert]
  simp only [Std.LawfulEqOrd.compare_eq_iff_eq]

/-- The last function of a name that is put in, or else what was there. -/
theorem lookup_insertFunctions (functions : Std.TreeMap String ScalarFunction)
    (new : List ScalarFunction) (name : String) :
    (∃ function ∈ new, normalizeName function.name = name ∧
      (insertFunctions functions new)[name]? = some function) ∨
    ((∀ function ∈ new, normalizeName function.name ≠ name) ∧
      (insertFunctions functions new)[name]? = functions[name]?) := by
  induction new generalizing functions with
  | nil => exact Or.inr ⟨nofun, rfl⟩
  | cons first rest ih =>
      have hstep : insertFunctions functions (first :: rest) =
          insertFunctions (functions.insert (normalizeName first.name) first) rest := rfl
      rw [hstep]
      rcases ih (functions.insert (normalizeName first.name) first) with
        ⟨function, hmem, hname, hlookup⟩ | ⟨hrest, hlookup⟩
      · exact Or.inl ⟨function, List.mem_cons_of_mem _ hmem, hname, hlookup⟩
      · rw [hlookup, Std.TreeMap.getElem?_insert]
        simp only [Std.LawfulEqOrd.compare_eq_iff_eq]
        by_cases hfirst : normalizeName first.name = name
        · rw [if_pos hfirst]
          exact Or.inl ⟨first, List.mem_cons_self, hfirst, rfl⟩
        · rw [if_neg hfirst]
          exact Or.inr ⟨List.forall_mem_cons.2 ⟨hfirst, hrest⟩, rfl⟩

end Load

/-! ## The invariant -/

/-- Every function that resolves is exported by a loaded extension, every exported name
resolves, and no two loaded extensions export the same name. -/
structure WellFormed (registry : ExtensionRegistry) : Prop where
  owned : ∀ (name : String) function, registry.scalarFunctions[name]? = some function →
    normalizeName function.name = name ∧
      ∃ (key : String) (descriptor : ExtensionDescriptor),
        registry.extensions[key]? = some descriptor ∧ function ∈ descriptor.scalarFunctions
  resolves : ∀ (key : String) descriptor, registry.extensions[key]? = some descriptor →
    ∀ name, Exports descriptor name → registry.scalarFunction name ≠ none
  apart : ∀ (key key' : String) descriptor descriptor',
    registry.extensions[key]? = some descriptor → registry.extensions[key']? = some descriptor' →
    ∀ name, Exports descriptor name → Exports descriptor' name → key = key'

theorem new_wellFormed : new.WellFormed where
  owned name function h := by
    rw [show new.scalarFunctions = ∅ from rfl, Std.TreeMap.getElem?_emptyc] at h
    cases h
  resolves key descriptor h := by
    rw [show new.extensions = ∅ from rfl, Std.TreeMap.getElem?_emptyc] at h
    cases h
  apart key key' descriptor descriptor' h := by
    rw [show new.extensions = ∅ from rfl, Std.TreeMap.getElem?_emptyc] at h
    cases h

section Extend

variable {registry : ExtensionRegistry} {descriptor : ExtensionDescriptor}

/-- A name of the new extension is not exported by the loaded ones. -/
theorem WellFormed.fresh (h : registry.WellFormed)
    (hfree : ∀ function ∈ descriptor.scalarFunctions,
      registry.scalarFunction function.name = none) {key name : String}
    {loaded : ExtensionDescriptor} (hloaded : registry.extensions[key]? = some loaded)
    (hnew : Exports descriptor name) : ¬ Exports loaded name := by
  obtain ⟨function, hmem, hname⟩ := hnew
  intro hold
  have hresolves := h.resolves key loaded hloaded name hold
  have hnone := hfree function hmem
  rw [scalarFunction, hname] at hnone
  exact hresolves hnone

theorem WellFormed.extended (h : registry.WellFormed)
    (hnew : ¬ registry.isLoaded descriptor.name)
    (hfree : ∀ function ∈ descriptor.scalarFunctions,
      registry.scalarFunction function.name = none) :
    (registry.extended descriptor).WellFormed := by
  have hkey : ∀ (key : String) loaded, registry.extensions[key]? = some loaded →
      normalizeName descriptor.name ≠ key := by
    rintro key loaded hloaded rfl
    apply hnew
    rw [isLoaded, Std.TreeMap.contains_eq_isSome_getElem?, hloaded]
    rfl
  constructor
  case owned =>
    intro name function hlookup
    rcases lookup_insertFunctions registry.scalarFunctions descriptor.scalarFunctions name with
      ⟨function', hmem, hname, hlookup'⟩ | ⟨-, hlookup'⟩
    · cases hlookup.symm.trans hlookup'
      refine ⟨hname, normalizeName descriptor.name, descriptor, ?_, hmem⟩
      rw [extensions_extended, if_pos rfl]
    · obtain ⟨hname, key, loaded, hloaded, hmem⟩ := h.owned name function
        (hlookup'.symm.trans hlookup)
      refine ⟨hname, key, loaded, ?_, hmem⟩
      rw [extensions_extended, if_neg (hkey key loaded hloaded), hloaded]
  case resolves =>
    intro key loaded hloaded name hexports
    rw [scalarFunction]
    rcases lookup_insertFunctions registry.scalarFunctions descriptor.scalarFunctions
      (normalizeName name) with ⟨function, -, -, hlookup⟩ | ⟨hnone, hlookup⟩
    · exact ne_of_eq_of_ne hlookup nofun
    · refine ne_of_eq_of_ne hlookup ?_
      rw [extensions_extended] at hloaded
      split at hloaded
      · cases hloaded
        obtain ⟨function, hmem, hname⟩ := hexports
        exact absurd hname (hnone function hmem)
      · exact h.resolves key loaded hloaded name hexports
  case apart =>
    intro key key' loaded loaded' hloaded hloaded' name hexports hexports'
    rw [extensions_extended] at hloaded hloaded'
    split at hloaded
    · cases hloaded
      split at hloaded'
      · rename_i hk hk'
        exact hk.symm.trans hk'
      · exact absurd hexports' (h.fresh hfree hloaded' hexports)
    · split at hloaded'
      · cases hloaded'
        exact absurd hexports (h.fresh hfree hloaded hexports')
      · exact h.apart key key' loaded loaded' hloaded hloaded' name hexports hexports'

end Extend

/-! ## Runs -/

/-- What resolved before resolves to the same afterwards. -/
def FunctionsGrow (registry registry' : ExtensionRegistry) : Prop :=
  ∀ (name : String) function, registry.scalarFunctions[name]? = some function →
    registry'.scalarFunctions[name]? = some function

instance : IsPreorder ExtensionRegistry FunctionsGrow where
  refl _ _ _ h := h
  trans _ _ _ h h' name function hlookup := h' name function (h name function hlookup)

theorem grows_extended {registry : ExtensionRegistry} {descriptor : ExtensionDescriptor}
    (hfree : ∀ function ∈ descriptor.scalarFunctions,
      registry.scalarFunction function.name = none) :
    FunctionsGrow registry (registry.extended descriptor) := by
  intro name function hlookup
  rcases lookup_insertFunctions registry.scalarFunctions descriptor.scalarFunctions name with
    ⟨function', hmem, hname, -⟩ | ⟨-, hlookup'⟩
  · have hnone := hfree function' hmem
    rw [scalarFunction, hname, hlookup] at hnone
    cases hnone
  · exact hlookup'.trans hlookup

theorem load_grows (descriptor : ExtensionDescriptor) :
    Exec.Preserves FunctionsGrow (load descriptor) := by
  intro registry
  rcases load_cases registry descriptor with ⟨message, h⟩ | ⟨-, h⟩ | ⟨-, hfree, h⟩
  · rw [h]
    exact refl_of FunctionsGrow registry
  · rw [h]
    exact refl_of FunctionsGrow registry
  · rw [h]
    exact grows_extended hfree

theorem WellFormed.load {registry : ExtensionRegistry} (h : registry.WellFormed)
    (descriptor : ExtensionDescriptor) :
    (ExtensionRegistry.load descriptor registry).2.WellFormed := by
  rcases load_cases registry descriptor with ⟨message, hload⟩ | ⟨-, hload⟩ | ⟨hnew, hfree, hload⟩
  · rw [hload]
    exact h
  · rw [hload]
    exact h
  · rw [hload]
    exact h.extended hnew hfree

theorem loadEach_cons (descriptor : ExtensionDescriptor) (descriptors : List ExtensionDescriptor)
    (registry : ExtensionRegistry) :
    (loadEach (descriptor :: descriptors) registry).2 =
      (loadEach descriptors (load descriptor registry).2).2 := by
  rw [loadEach, Exec.bind_of_ok (Exec.attempt_apply _ _), Exec.bind_apply]
  rcases loadEach descriptors (load descriptor registry).2 with ⟨stop | answers, after⟩
  · rfl
  · rfl

theorem WellFormed.loadEach {descriptors : List ExtensionDescriptor} :
    ∀ {registry : ExtensionRegistry}, registry.WellFormed →
      (ExtensionRegistry.loadEach descriptors registry).2.WellFormed := by
  induction descriptors with
  | nil => exact fun h => h
  | cons descriptor descriptors ih =>
      intro registry h
      rw [loadEach_cons]
      exact ih (h.load descriptor)

/-- After any loads, whatever the next load is: if it fails, the registry is unchanged; what
resolved before it resolves to the same function after it, in every ASCII case; loading the
name of a loaded extension changes nothing; and a function that resolves is a function of
the descriptor of exactly one loaded extension. -/
theorem registry_only_grows (descriptors : List ExtensionDescriptor)
    (descriptor : ExtensionDescriptor) (registry after : ExtensionRegistry)
    (result : DbResult Unit) (hrun : (loadEach descriptors new).2 = registry)
    (hload : load descriptor registry = (result, after)) :
    (∀ stop, result = .error stop → after = registry) ∧
    (∀ name name' function, eqIgnoreAsciiCase name' name →
      registry.scalarFunction name = some function →
      after.scalarFunction name' = some function) ∧
    (registry.isLoaded descriptor.name → after = registry) ∧
    ∀ name function, registry.scalarFunction name = some function →
      eqIgnoreAsciiCase function.name name ∧ ∃! key : String, ∃ loaded : ExtensionDescriptor,
        registry.extensions[key]? = some loaded ∧ function ∈ loaded.scalarFunctions := by
  have hwf : registry.WellFormed := hrun ▸ WellFormed.loadEach new_wellFormed
  have hgrows := (load_grows descriptor).rel hload
  refine ⟨?_, ?_, ?_, ?_⟩
  · rintro stop rfl
    rcases load_cases registry descriptor with ⟨message, h⟩ | ⟨-, h⟩ | ⟨-, -, h⟩
    · cases hload.symm.trans h
      rfl
    · cases hload.symm.trans h
    · cases hload.symm.trans h
  · intro name name' function hcase hlookup
    have hname : normalizeName name' = normalizeName name := beq_iff_eq.1 hcase
    rw [scalarFunction, hname]
    exact hgrows _ function hlookup
  · intro hloaded
    rcases load_cases registry descriptor with ⟨message, h⟩ | ⟨-, h⟩ | ⟨hnew, -, -⟩
    · cases hload.symm.trans h
      rfl
    · cases hload.symm.trans h
      rfl
    · exact absurd hloaded hnew
  · intro name function hlookup
    obtain ⟨hname, key, loaded, hloaded, hmem⟩ := hwf.owned _ function hlookup
    refine ⟨beq_iff_eq.2 hname, key, ⟨loaded, hloaded, hmem⟩, ?_⟩
    rintro key' ⟨loaded', hloaded', hmem'⟩
    exact hwf.apart key' key loaded' loaded hloaded' hloaded function.name ⟨function, hmem', rfl⟩
      ⟨function, hmem, rfl⟩

/-- The standard extension is loaded a second time. -/
theorem registry_only_grows_twice :
    (load stdlibExtension (loadEach [stdlibExtension] new).2).2 =
      (loadEach [stdlibExtension] new).2 := by
  have hloaded : (loadEach [stdlibExtension] new).2.isLoaded "stdlib" := by decide
  exact (registry_only_grows [stdlibExtension] stdlibExtension _ _ _ rfl rfl).2.2.1 hloaded

end ExtensionRegistry

end Sql

end Rdbms
