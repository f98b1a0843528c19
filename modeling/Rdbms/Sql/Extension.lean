import Std.Data.TreeMap
import Rdbms.Library.Hoare
import Rdbms.Sql.Syntax

/-!
# Static extensions

The registry of scalar functions and the one extension that is linked into the
engine. A registry that is built from the catalog holds functions of that extension
only, and these refuse arguments of the wrong kind with a user error.
-/

namespace Rdbms

namespace Sql

open Library

/-- Extension loading kind. -/
inductive ExtensionKind where
  | static
  deriving DecidableEq, Repr

/-- Text persisted in the extension metadata of the catalog. -/
def ExtensionKind.asStr : ExtensionKind → String
  | static => "static"

/-- Function arity accepted by a scalar function. -/
inductive ScalarArity where
  | exact (expected : Nat)
  deriving DecidableEq, Repr

namespace ScalarArity

def accepts : ScalarArity → Nat → Bool
  | exact expected, len => expected == len

def describe : ScalarArity → String
  | exact expected => toString expected

end ScalarArity

/-- Scalar function descriptor. -/
structure ScalarFunction where
  name : String
  arity : ScalarArity
  returnType : String
  eval : List Value → DbResult Value

/-- Static extension descriptor. -/
structure ExtensionDescriptor where
  name : String
  abiVersion : UInt32
  kind : ExtensionKind
  scalarFunctions : List ScalarFunction

/-- Runtime registry of loaded static extension functions. -/
structure ExtensionRegistry where
  extensions : Std.TreeMap String ExtensionDescriptor
  scalarFunctions : Std.TreeMap String ScalarFunction

def rdbmsExtAbiVersion : UInt32 := 1

def abiVersionSupported (version : UInt32) : Bool := version == rdbmsExtAbiVersion

/-- Name normalization shared by registry and parser. -/
def normalizeName (name : String) : String := toAsciiLowercase name

/-! ## The standard extension -/

def length (args : List Value) : DbResult Value := do
  let value ← DbResult.index args 0
  match value with
  | .null => .ok .null
  | .text value =>
      if value.length < 2 ^ 63 then .ok (.integer (Int64.ofNat value.length))
      else DbResult.user "text length does not fit into INT"
  | _ => DbResult.user "length() expects TEXT"

def lower (args : List Value) : DbResult Value := do
  let value ← DbResult.index args 0
  match value with
  | .null => .ok .null
  | .text value => .ok (.text (toAsciiLowercase value))
  | _ => DbResult.user "lower() expects TEXT"

def upper (args : List Value) : DbResult Value := do
  let value ← DbResult.index args 0
  match value with
  | .null => .ok .null
  | .text value => .ok (.text (toAsciiUppercase value))
  | _ => DbResult.user "upper() expects TEXT"

/-- The absolute value; that of a double has its sign bit cleared. -/
def absValue (args : List Value) : DbResult Value := do
  let value ← DbResult.index args 0
  match value with
  | .null => .ok .null
  | .integer value =>
      if value = Int64.minValue then DbResult.user "abs(INT) overflow" else .ok (.integer value.abs)
  | .double bits => .ok (.double (bits &&& 0x7FFFFFFFFFFFFFFF))
  | _ => DbResult.user "abs() expects INT or DOUBLE"

def typeofValue (args : List Value) : DbResult Value := do
  let value ← DbResult.index args 0
  match value with
  | .null => .ok (.text "NULL")
  | .integer _ => .ok (.text "INT")
  | .text _ => .ok (.text "TEXT")
  | .double _ => .ok (.text "DOUBLE")

def rdbmsVersion (args : List Value) : DbResult Value := do
  failIf (args ≠ []) (DbResult.internalInvariant "arity check did not run")
  return .text "rdbms-stage9-extension-v0"

def stdlibFunctions : List ScalarFunction :=
  [⟨"length", .exact 1, "INT", length⟩,
    ⟨"lower", .exact 1, "TEXT", lower⟩,
    ⟨"upper", .exact 1, "TEXT", upper⟩,
    ⟨"abs", .exact 1, "DYNAMIC", absValue⟩,
    ⟨"typeof", .exact 1, "TEXT", typeofValue⟩,
    ⟨"rdbms_version", .exact 0, "TEXT", rdbmsVersion⟩]

def stdlibExtension : ExtensionDescriptor :=
  ⟨"stdlib", rdbmsExtAbiVersion, .static, stdlibFunctions⟩

/-- Lookup a built-in extension descriptor by name. -/
def builtinExtensionDescriptor (name : String) : DbResult ExtensionDescriptor :=
  let other := normalizeName name
  if other = "stdlib" then .ok stdlibExtension
  else DbResult.extension s!"unknown static extension: {other}"

/-! ## The registry -/

namespace ExtensionRegistry

def new : ExtensionRegistry := ⟨∅, ∅⟩

/-- The functions of an extension, put into the map one after the other. -/
def insertFunctions (functions : Std.TreeMap String ScalarFunction) (new : List ScalarFunction) :
    Std.TreeMap String ScalarFunction :=
  new.foldl (fun functions function => functions.insert (normalizeName function.name) function)
    functions

/-- Load a static descriptor after validating its ABI version. -/
def load (descriptor : ExtensionDescriptor) : Db ExtensionRegistry Unit := do
  let name := descriptor.name
  let abiVersion := descriptor.abiVersion
  failIf (abiVersionSupported abiVersion = false)
    (DbResult.extension s!"extension '{name}' requires unsupported ABI version {abiVersion}")
  let registry ← Exec.get
  if registry.extensions.contains (normalizeName name) then return ()
  else do
    descriptor.scalarFunctions.forM fun function =>
      let functionName := function.name
      failIf (registry.scalarFunctions.contains (normalizeName functionName))
        (DbResult.extension s!"scalar function already registered: {functionName}")
    Exec.modify fun registry => {
      extensions := registry.extensions.insert (normalizeName name) descriptor
      scalarFunctions := insertFunctions registry.scalarFunctions descriptor.scalarFunctions }

/-- A scalar function descriptor by its name in SQL. -/
def scalarFunction (registry : ExtensionRegistry) (name : String) : Option ScalarFunction :=
  registry.scalarFunctions[normalizeName name]?

/-- Call a registered scalar function. -/
def callScalar (registry : ExtensionRegistry) (name : String) (args : List Value) :
    DbResult Value := do
  let function ← DbResult.okOr (registry.scalarFunction name)
    (DbResult.user s!"unknown scalar function: {name}")
  let functionName := function.name
  let arity := function.arity.describe
  let given := args.length
  failIf (function.arity.accepts given = false)
    (DbResult.user s!"scalar function '{functionName}' expects {arity} argument(s), got {given}")
  function.eval args

end ExtensionRegistry

/-- Load the extensions that the catalog lists, one after the other. -/
def loadInstalled : List ExtensionInfo → Db ExtensionRegistry Unit
  | [] => pure ()
  | extension :: extensions => do
      let name := extension.name
      let kind := extension.kind
      let installed := extension.abiVersion
      failIf (kind ≠ ExtensionKind.asStr .static)
        (DbResult.extension s!"unsupported extension kind for '{name}': {kind}")
      let descriptor ← builtinExtensionDescriptor name
      let runtime := descriptor.abiVersion
      failIf (runtime ≠ installed) (DbResult.extension
        s!"installed extension '{name}' ABI mismatch: catalog={installed}, runtime={runtime}")
      ExtensionRegistry.load descriptor
      loadInstalled extensions

/-- Build a registry from persisted catalog extension names. -/
def registryFromInstalledExtensions (installed : List ExtensionInfo) :
    DbResult ExtensionRegistry := do
  let (_, registry) ← Exec.toExcept (loadInstalled installed) ExtensionRegistry.new
  return registry

/-! ## What a registry holds -/

/-- An exit with a user error or an error of an extension. -/
def IsRefusal (stop : Stop) : Prop := stop.IsUser ∨ ∃ message, stop = .error (.extension message)

/-- All functions are those of the standard extension. -/
def ExtensionRegistry.Standard (registry : ExtensionRegistry) : Prop :=
  ∀ (name : String) (function : ScalarFunction),
    registry.scalarFunctions[name]? = some function → function ∈ stdlibFunctions

theorem ensures_refusal {σ : Type} {s : σ} {c : Prop} [Decidable c] {message : String}
    {Q : Unit → σ → Prop} (h : ¬ c → Q () s) :
    Exec.Ensures (failIf c (DbResult.extension message) : Db σ Unit) s IsRefusal Q := by
  refine Exec.Ensures.liftM (fun _ hok => h (failIf_eq_ok.1 hok)) ?_
  intro stop hstop
  rw [failIf] at hstop
  split at hstop
  · cases hstop
    exact Or.inr ⟨_, rfl⟩
  · cases hstop

theorem getElem?_insertFunctions {functions : Std.TreeMap String ScalarFunction}
    {new : List ScalarFunction} {name : String} {function : ScalarFunction}
    (h : (ExtensionRegistry.insertFunctions functions new)[name]? = some function) :
    function ∈ new ∨ functions[name]? = some function := by
  induction new generalizing functions with
  | nil => exact Or.inr h
  | cons first rest ih =>
      rcases ih h with hrest | hfirst
      · exact Or.inl (List.mem_cons_of_mem _ hrest)
      · rw [Std.TreeMap.getElem?_insert] at hfirst
        split at hfirst
        · cases hfirst
          exact Or.inl List.mem_cons_self
        · exact Or.inr hfirst

theorem load_ensures {registry : ExtensionRegistry} (h : registry.Standard) :
    Exec.Ensures (ExtensionRegistry.load stdlibExtension) registry IsRefusal fun _ registry' =>
      registry'.Standard := by
  refine Exec.Ensures.bind (ensures_refusal fun _ => ?_)
  refine Exec.Ensures.bind (Exec.Ensures.get ?_)
  split
  · exact Exec.Ensures.pure h
  · have hchecks : Exec.Ensures (stdlibExtension.scalarFunctions.forM fun function => (failIf
        (registry.scalarFunctions.contains (normalizeName function.name))
        (DbResult.extension s!"scalar function already registered: {function.name}") :
          Db ExtensionRegistry Unit)) registry IsRefusal fun _ r => r = registry :=
      Exec.Ensures.forM (fun function _ r hr => ensures_refusal fun _ => hr) rfl
    refine Exec.Ensures.bind (hchecks.imp ?_)
    rintro ⟨⟩ _ rfl
    refine Exec.Ensures.modify ?_
    intro name function hfunction
    rcases getElem?_insertFunctions hfunction with hnew | hold
    · exact hnew
    · exact h name function hold

theorem builtinExtensionDescriptor_eq_ok {name : String} {descriptor : ExtensionDescriptor}
    (h : builtinExtensionDescriptor name = .ok descriptor) : descriptor = stdlibExtension := by
  rw [builtinExtensionDescriptor] at h
  split at h
  · cases h
    rfl
  · cases h

theorem builtinExtensionDescriptor_refusal {name : String} {stop : Stop}
    (h : builtinExtensionDescriptor name = .error stop) : IsRefusal stop := by
  rw [builtinExtensionDescriptor] at h
  split at h
  · cases h
  · cases h
    exact Or.inr ⟨_, rfl⟩

theorem loadInstalled_ensures (installed : List ExtensionInfo) :
    ∀ {registry : ExtensionRegistry}, registry.Standard →
      Exec.Ensures (loadInstalled installed) registry IsRefusal fun _ registry' =>
        registry'.Standard := by
  induction installed with
  | nil =>
      intro registry h
      exact Exec.Ensures.pure h
  | cons extension installed ih =>
      intro registry h
      refine Exec.Ensures.bind (ensures_refusal fun _ => ?_)
      refine Exec.Ensures.bind (Exec.Ensures.liftM ?_ fun _ => builtinExtensionDescriptor_refusal)
      intro descriptor hdescriptor
      obtain rfl := builtinExtensionDescriptor_eq_ok hdescriptor
      refine Exec.Ensures.bind (ensures_refusal fun _ => ?_)
      exact Exec.Ensures.bind ((load_ensures h).imp fun _ _ => ih)

theorem new_standard : ExtensionRegistry.new.Standard := by
  intro name function h
  rw [show ExtensionRegistry.new.scalarFunctions = ∅ from rfl, Std.TreeMap.getElem?_emptyc] at h
  cases h

/-- A registry is built from the catalog, or the catalog is refused. -/
theorem registryFromInstalledExtensions_cases (installed : List ExtensionInfo) :
    (∃ registry, registryFromInstalledExtensions installed = .ok registry ∧ registry.Standard) ∨
    (∃ stop, registryFromInstalledExtensions installed = .error stop ∧ IsRefusal stop) := by
  have hload := loadInstalled_ensures installed new_standard
  rw [registryFromInstalledExtensions, Exec.toExcept]
  rcases hrun : loadInstalled installed ExtensionRegistry.new with ⟨stop | ⟨⟩, registry⟩
  · exact Or.inr ⟨stop, rfl, hload.error hrun⟩
  · exact Or.inl ⟨registry, rfl, hload.ok hrun⟩

/-! ## Calls -/

/-- With the arguments they ask for, the functions fail with user errors only. -/
theorem eval_onlyUser {function : ScalarFunction} (h : function ∈ stdlibFunctions)
    {args : List Value} (hargs : function.arity.accepts args.length = true) :
    DbResult.OnlyUser (function.eval args) := by
  have hone : ∀ {f : Value → DbResult Value}, ScalarArity.accepts (.exact 1) args.length = true →
      (∀ value, DbResult.OnlyUser (f value)) → DbResult.OnlyUser (DbResult.index args 0 >>= f) := by
    intro f hlength hf
    obtain ⟨value, rfl⟩ := List.length_eq_one_iff.1 (beq_iff_eq.1 hlength).symm
    exact hf value
  simp only [stdlibFunctions, List.mem_cons, List.not_mem_nil, or_false] at h
  rcases h with rfl | rfl | rfl | rfl | rfl | rfl
  · refine hone hargs fun value => ?_
    cases value with
    | null => exact DbResult.onlyUser_ok _
    | text value =>
        dsimp only
        split
        · exact DbResult.onlyUser_ok _
        · exact DbResult.onlyUser_user _
    | integer value => exact DbResult.onlyUser_user _
    | double bits => exact DbResult.onlyUser_user _
  · refine hone hargs fun value => ?_
    cases value with
    | null => exact DbResult.onlyUser_ok _
    | text value => exact DbResult.onlyUser_ok _
    | integer value => exact DbResult.onlyUser_user _
    | double bits => exact DbResult.onlyUser_user _
  · refine hone hargs fun value => ?_
    cases value with
    | null => exact DbResult.onlyUser_ok _
    | text value => exact DbResult.onlyUser_ok _
    | integer value => exact DbResult.onlyUser_user _
    | double bits => exact DbResult.onlyUser_user _
  · refine hone hargs fun value => ?_
    cases value with
    | null => exact DbResult.onlyUser_ok _
    | text value => exact DbResult.onlyUser_user _
    | integer value =>
        dsimp only
        split
        · exact DbResult.onlyUser_user _
        · exact DbResult.onlyUser_ok _
    | double bits => exact DbResult.onlyUser_ok _
  · refine hone hargs fun value => ?_
    cases value with
    | null => exact DbResult.onlyUser_ok _
    | text value => exact DbResult.onlyUser_ok _
    | integer value => exact DbResult.onlyUser_ok _
    | double bits => exact DbResult.onlyUser_ok _
  · have hnil : args = [] := List.length_eq_zero_iff.1 (beq_iff_eq.1 hargs).symm
    subst hnil
    exact DbResult.onlyUser_ok _

theorem callScalar_onlyUser {registry : ExtensionRegistry} (h : registry.Standard) (name : String)
    (args : List Value) : DbResult.OnlyUser (registry.callScalar name args) := by
  refine (DbResult.onlyUser_okOr _ _).bind fun function hfunction => ?_
  refine (DbResult.onlyUser_failIf _).bind fun _ haccepts => ?_
  refine eval_onlyUser (h (normalizeName name) function (DbResult.okOr_eq_ok hfunction)) ?_
  simpa using failIf_eq_ok.1 haccepts

/-- A function that has been called is there. -/
theorem scalarFunction_of_callScalar {registry : ExtensionRegistry} {name : String}
    {args : List Value} {value : Value} (h : registry.callScalar name args = .ok value) :
    ∃ function, registry.scalarFunction name = some function := by
  obtain ⟨function, hfunction, -⟩ := except_bind_eq_ok.1 h
  exact ⟨function, DbResult.okOr_eq_ok hfunction⟩

end Sql

end Rdbms
