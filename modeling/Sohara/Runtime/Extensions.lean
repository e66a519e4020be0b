import Mathlib.Data.List.DropRight
import Sohara.Config.Flow
import Sohara.Transition.Tables

/-! # Stdio extensions

Manifests of subprocess extensions are validated and registered one after the other: the
trusted ones that ship with the program first, then those of the user. Steps go into the
component registry; triggers, state stores and event buses into tables of the host.
-/

namespace Sohara

/-- What an extension subprocess serves asynchronously. -/
inductive AsyncKind where
  | source
  | transform
  | sink
  | trigger
  deriving DecidableEq, Repr

/-- What an extension subprocess serves to blocking callers. -/
inductive BlockingKind where
  | stateStore
  | eventBus
  deriving DecidableEq, Repr

/-- A registration of an extension, with the subprocess that serves it. -/
structure ExtensionSpec (Kind : Type) where
  extensionName : String
  extensionVersion : String
  protocol : String
  command : String
  cwd : Option String
  args : List String
  kind : Kind
  typeName : String
  deriving DecidableEq, Repr

/-- The registration of a step or a trigger. -/
abbrev AsyncSpec : Type := ExtensionSpec AsyncKind

/-- The registration of a state store or an event bus. -/
abbrev BlockingSpec : Type := ExtensionSpec BlockingKind

/-- A step type that a manifest declares. -/
structure StdioStepRegistration where
  kind : StepKind
  stepType : String
  deriving DecidableEq, Repr

/-- A type of another kind that a manifest declares. -/
structure NamedRegistration where
  typeName : String
  deriving DecidableEq, Repr

/-- The protocol of the stdio host. -/
def Stdio.protocol : String := "sohara.stdio/v1"

/-- An extension manifest. -/
structure StdioExtensionManifest where
  name : String
  version : String
  builtin : Bool := false
  protocol : String := Stdio.protocol
  command : String
  cwd : Option String := none
  args : List String := []
  steps : List StdioStepRegistration := []
  triggers : List NamedRegistration := []
  stateStores : List NamedRegistration := []
  eventBuses : List NamedRegistration := []
  deriving DecidableEq, Repr

/-- A manifest as it is loaded: its file, and whether that is on a trusted path. -/
structure ManifestFile where
  path : String
  trusted : Bool
  manifest : StdioExtensionManifest
  deriving DecidableEq, Repr

/-- What builds the steps of a type: code of the program, or an extension. -/
inductive StepFactory where
  | compiled (build : Value → BuildContext → Except Error BuiltStep)
  | stdio (spec : AsyncSpec)

/-- Builds a step. -/
def StepFactory.build (factory : StepFactory) (config : Value) (ctx : BuildContext) :
    Except Error BuiltStep :=
  match factory with
  | .compiled build => build config ctx
  | .stdio spec =>
      match ctx.step with
      | none => .error (.config ("stdio extension '" ++ spec.typeName ++
          "' requires step metadata during build"))
      | some _ =>
          match spec.kind with
          | .source => .ok .source
          | .transform => .ok .transform
          | .sink => .ok .sink
          | .trigger => .error (.config ("trigger '" ++ spec.typeName ++
              "' must be declared under flow.triggers, not steps"))

/-- Step factories by kind and type. -/
structure ComponentRegistry where
  factories : StepKind × String → Option StepFactory

namespace ComponentRegistry

/-- Registers a factory for a kind and type. -/
def register (registry : ComponentRegistry) (kind : StepKind) (stepType : String)
    (factory : StepFactory) : ComponentRegistry where
  factories key := if key = (kind, stepType) then some factory else registry.factories key

/-- Whether a factory is registered. -/
def contains (registry : ComponentRegistry) (kind : StepKind) (stepType : String) : Bool :=
  (registry.factories (kind, stepType)).isSome

end ComponentRegistry

/-- One loaded extension manifest. -/
structure LoadedExtension where
  name : String
  version : String
  registrations : List String

/-- The loaded extensions, beyond their step factories. -/
structure StdioExtensionHost where
  loaded : List LoadedExtension := []
  triggers : Assoc AsyncSpec := []
  stateStores : Assoc BlockingSpec := []
  eventBuses : Assoc BlockingSpec := []

section Loading

/-- The registrations of a manifest, each as its kind and type. -/
def manifestRegistrations (manifest : StdioExtensionManifest) : List String :=
  manifest.steps.map (fun step => step.kind.text ++ ":" ++ step.stepType) ++
    manifest.triggers.map (fun trigger => "trigger:" ++ trigger.typeName) ++
    manifest.stateStores.map (fun store => "state_store:" ++ store.typeName) ++
    manifest.eventBuses.map (fun bus => "event_bus:" ++ bus.typeName)

/-- What follows the last colon of a text. -/
def afterLastColon (text : String) : String :=
  String.ofList (text.toList.rtakeWhile (· ≠ ':'))

/-- Whether a name is in the namespace of the builtin extensions. -/
def isBuiltinName (name : String) : Bool := "builtin-".toList.isPrefixOf name.toList

/-- Checks the use of the builtin namespace. -/
def validateBuiltinPrefixes (manifest : StdioExtensionManifest) (trusted : Bool) :
    Except Error Unit :=
  match (manifestRegistrations manifest).find? fun registration =>
      isBuiltinName (afterLastColon registration) with
  | none => .ok ()
  | some reserved =>
      if !trusted || !manifest.builtin then
        .error (.config ("registration '" ++ reserved ++
          "' is reserved for Sohara builtin extensions"))
      else .ok ()

/-- Checks that the step types of a manifest are new. -/
def validateStepDuplicates (manifest : StdioExtensionManifest) (registry : ComponentRegistry)
    (seen : List (StepKind × String)) : List StdioStepRegistration → Except Error Unit
  | [] => .ok ()
  | step :: rest =>
      if (step.kind, step.stepType) ∈ seen then
        .error (.config ("extension '" ++ manifest.name ++ "' declares duplicate kind='" ++
          step.kind.text ++ "' type='" ++ step.stepType ++ "'"))
      else if registry.contains step.kind step.stepType then
        .error (.config ("extension '" ++ manifest.name ++
          "' duplicates existing registration for kind='" ++ step.kind.text ++ "' type='" ++
          step.stepType ++ "'"))
      else validateStepDuplicates manifest registry ((step.kind, step.stepType) :: seen) rest

/-- Checks that other types of a manifest are new. -/
def validateNamedDuplicates (manifest : StdioExtensionManifest) (kind : String)
    (taken : String → Bool) (seen : List String) : List NamedRegistration → Except Error Unit
  | [] => .ok ()
  | registration :: rest =>
      if registration.typeName ∈ seen then
        .error (.config ("extension '" ++ manifest.name ++ "' declares duplicate " ++ kind ++
          " type='" ++ registration.typeName ++ "'"))
      else if taken registration.typeName then
        .error (.config ("extension '" ++ manifest.name ++ "' duplicates existing " ++ kind ++
          " type='" ++ registration.typeName ++ "'"))
      else validateNamedDuplicates manifest kind taken (registration.typeName :: seen) rest

/-- Whether a manifest declares nothing. -/
def StdioExtensionManifest.isEmpty (manifest : StdioExtensionManifest) : Bool :=
  manifest.steps.isEmpty && manifest.triggers.isEmpty && manifest.stateStores.isEmpty &&
    manifest.eventBuses.isEmpty

/-- Validates a manifest against what is registered so far. -/
def validateManifest (manifest : StdioExtensionManifest) (registry : ComponentRegistry)
    (host : StdioExtensionHost) (trusted : Bool) : Except Error Unit := do
  if manifest.builtin && !trusted then
    .error (.config ("extension '" ++ manifest.name ++
      "' declares builtin=true outside Sohara's trusted builtin path"))
  else if manifest.protocol ≠ Stdio.protocol then
    .error (.config ("extension '" ++ manifest.name ++ "' uses unsupported protocol '" ++
      manifest.protocol ++ "'; expected '" ++ Stdio.protocol ++ "'"))
  else if manifest.isEmpty then
    .error (.config ("extension '" ++ manifest.name ++
      "' must declare at least one registration"))
  else
    validateBuiltinPrefixes manifest trusted
    validateStepDuplicates manifest registry [] manifest.steps
    validateNamedDuplicates manifest "trigger" (fun name => (host.triggers.get? name).isSome) []
      manifest.triggers
    validateNamedDuplicates manifest "state_store"
      (fun name => (host.stateStores.get? name).isSome) [] manifest.stateStores
    validateNamedDuplicates manifest "event_bus" (fun name => (host.eventBuses.get? name).isSome)
      [] manifest.eventBuses

/-- The kind under which an extension serves steps. -/
def AsyncKind.ofStep : StepKind → AsyncKind
  | .source => .source
  | .transform => .transform
  | .sink => .sink
  -- control steps are rejected before
  | .control => .trigger

-- how a command or a directory of a manifest is found, given the manifest's path
variable (resolveCommand : String → String → String)

/-- A registration of a manifest. -/
def ManifestFile.spec {Kind : Type} (file : ManifestFile) (kind : Kind) (typeName : String) :
    ExtensionSpec Kind where
  extensionName := file.manifest.name
  extensionVersion := file.manifest.version
  protocol := file.manifest.protocol
  command := resolveCommand file.path file.manifest.command
  cwd := file.manifest.cwd.map (resolveCommand file.path)
  args := file.manifest.args
  kind := kind
  typeName := typeName

/-- The factory of a step type that a manifest declares. -/
def ManifestFile.factory (file : ManifestFile) (key : StepKind × String) : StepFactory :=
  .stdio (file.spec resolveCommand (AsyncKind.ofStep key.1) key.2)

/-- Registers one step type of a manifest. -/
def registerStep (file : ManifestFile) (registry : ComponentRegistry)
    (step : StdioStepRegistration) : Except Error ComponentRegistry :=
  if step.kind = .control then
    .error (.config ("extension '" ++ file.manifest.name ++ "' step '" ++ step.stepType ++
      "': control steps are not supported in the stdio host"))
  else .ok (registry.register step.kind step.stepType
    (file.factory resolveCommand (step.kind, step.stepType)))

/-- Enters the types of one table. -/
def registerNamed {Kind : Type} (file : ManifestFile) (kind : Kind)
    (table : Assoc (ExtensionSpec Kind)) (registrations : List NamedRegistration) :
    Assoc (ExtensionSpec Kind) :=
  registrations.foldl (fun table registration =>
    table.insert registration.typeName
      (file.spec resolveCommand kind registration.typeName)) table

/-- The host with the registrations of a manifest that are not steps. -/
def hostWith (host : StdioExtensionHost) (file : ManifestFile) : StdioExtensionHost where
  loaded := host.loaded ++ [{
    name := file.manifest.name
    version := file.manifest.version
    registrations := manifestRegistrations file.manifest }]
  triggers := registerNamed resolveCommand file .trigger host.triggers file.manifest.triggers
  stateStores :=
    registerNamed resolveCommand file .stateStore host.stateStores file.manifest.stateStores
  eventBuses :=
    registerNamed resolveCommand file .eventBus host.eventBuses file.manifest.eventBuses

/-- Registers all that a manifest declares. -/
def registerManifest (registry : ComponentRegistry) (host : StdioExtensionHost)
    (file : ManifestFile) : Except Error (ComponentRegistry × StdioExtensionHost) := do
  let registry ← file.manifest.steps.foldlM (registerStep resolveCommand file) registry
  return (registry, hostWith resolveCommand host file)

/-- Validates and registers one manifest. -/
def loadManifest (loaded : ComponentRegistry × StdioExtensionHost) (file : ManifestFile) :
    Except Error (ComponentRegistry × StdioExtensionHost) := do
  validateManifest file.manifest loaded.1 loaded.2 file.trusted
  registerManifest resolveCommand loaded.1 loaded.2 file

/-- Loads manifests after each other, each with its path. -/
def loadManifests (trusted : Bool) (loaded : ComponentRegistry × StdioExtensionHost)
    (manifests : List (String × StdioExtensionManifest)) :
    Except Error (ComponentRegistry × StdioExtensionHost) :=
  (manifests.map fun entry => ⟨entry.1, trusted, entry.2⟩).foldlM (loadManifest resolveCommand)
    loaded

/-- Loads trusted builtin manifests first, then those of the user. -/
def loadStdioExtensionsWithTrusted (registry : ComponentRegistry)
    (trusted manifests : List (String × StdioExtensionManifest)) :
    Except Error (ComponentRegistry × StdioExtensionHost) := do
  let loaded ← loadManifests resolveCommand true (registry, {}) trusted
  loadManifests resolveCommand false loaded manifests

end Loading

section Registered

variable {resolveCommand : String → String → String}
variable {registry registered : ComponentRegistry} {host : StdioExtensionHost}
variable {loaded after : ComponentRegistry × StdioExtensionHost} {file : ManifestFile}

/-- The declared names. -/
def declaredNames (registrations : List NamedRegistration) : List String :=
  registrations.map (·.typeName)

/-- The step types that a manifest declares. -/
def ManifestFile.stepKeys (file : ManifestFile) : List (StepKind × String) :=
  file.manifest.steps.map fun step => (step.kind, step.stepType)

theorem factories_registerSteps {steps : List StdioStepRegistration}
    (registers : steps.foldlM (registerStep resolveCommand file) registry = .ok registered)
    (key : StepKind × String) : registered.factories key =
      if key ∈ steps.map (fun step => (step.kind, step.stepType)) then
        some (file.factory resolveCommand key)
      else registry.factories key := by
  induction steps generalizing registry with
  | nil =>
      cases registers
      rfl
  | cons step rest ih =>
      rw [List.foldlM_cons] at registers
      obtain ⟨next, first, others⟩ := Except.bind_eq_ok.mp registers
      unfold registerStep at first
      split at first
      case isTrue => cases first
      case isFalse =>
        cases first
        rw [ih others, List.map_cons]
        by_cases inside : key ∈ rest.map fun step => (step.kind, step.stepType)
        · rw [if_pos inside, if_pos (List.mem_cons_of_mem _ inside)]
        · rw [if_neg inside]
          by_cases same : key = (step.kind, step.stepType)
          · subst same
            rw [if_pos List.mem_cons_self]
            exact if_pos rfl
          · rw [if_neg (List.not_mem_cons_of_ne_of_not_mem same inside)]
            exact if_neg same

theorem get?_registerNamed {Kind : Type} (kind : Kind) (table : Assoc (ExtensionSpec Kind))
    (registrations : List NamedRegistration) (name : String) :
    Assoc.get? name (registerNamed resolveCommand file kind table registrations) =
      if name ∈ declaredNames registrations then some (file.spec resolveCommand kind name)
      else Assoc.get? name table := by
  unfold registerNamed declaredNames
  induction registrations generalizing table with
  | nil => rfl
  | cons registration rest ih =>
      rw [List.foldl_cons, ih, List.map_cons, Assoc.get?_insert]
      by_cases inside : name ∈ rest.map (·.typeName)
      · rw [if_pos inside, if_pos (List.mem_cons_of_mem _ inside)]
      · rw [if_neg inside]
        by_cases same : registration.typeName = name
        · subst same
          rw [if_pos rfl, if_pos List.mem_cons_self]
        · rw [if_neg same, if_neg (List.not_mem_cons_of_ne_of_not_mem (Ne.symm same) inside)]

theorem fresh_of_validateStepDuplicates {manifest : StdioExtensionManifest}
    {seen : List (StepKind × String)} {steps : List StdioStepRegistration}
    (valid : validateStepDuplicates manifest registry seen steps = .ok ()) :
    ∀ key ∈ steps.map (fun step => (step.kind, step.stepType)), registry.factories key = none := by
  induction steps generalizing seen with
  | nil => exact fun _ member => nomatch member
  | cons step rest ih =>
      unfold validateStepDuplicates at valid
      split at valid
      case isTrue => cases valid
      case isFalse =>
        split at valid
        case isTrue => cases valid
        case isFalse unknown =>
          refine List.forall_mem_cons.mpr ⟨?_, ih valid⟩
          exact Option.not_isSome_iff_eq_none.mp unknown

theorem fresh_of_validateNamedDuplicates {manifest : StdioExtensionManifest} {kind : String}
    {taken : String → Bool} {seen : List String} {registrations : List NamedRegistration}
    (valid : validateNamedDuplicates manifest kind taken seen registrations = .ok ()) :
    ∀ name ∈ declaredNames registrations, taken name = false := by
  induction registrations generalizing seen with
  | nil => exact fun _ member => nomatch member
  | cons registration rest ih =>
      unfold validateNamedDuplicates at valid
      split at valid
      case isTrue => cases valid
      case isFalse =>
        split at valid
        case isTrue => cases valid
        case isFalse free => exact List.forall_mem_cons.mpr ⟨Bool.not_eq_true _ ▸ free, ih valid⟩

/-- What a manifest that loads has passed, and what it leaves behind. -/
structure Loads (resolveCommand : String → String → String)
    (loaded : ComponentRegistry × StdioExtensionHost) (file : ManifestFile)
    (after : ComponentRegistry × StdioExtensionHost) : Prop where
  trusted : file.manifest.builtin = true → file.trusted = true
  prefixes : validateBuiltinPrefixes file.manifest file.trusted = .ok ()
  newSteps : ∀ key ∈ file.stepKeys, loaded.1.factories key = none
  newTriggers : ∀ name ∈ declaredNames file.manifest.triggers, loaded.2.triggers.get? name = none
  newStores : ∀ name ∈ declaredNames file.manifest.stateStores,
      loaded.2.stateStores.get? name = none
  newBuses : ∀ name ∈ declaredNames file.manifest.eventBuses, loaded.2.eventBuses.get? name = none
  steps : ∀ key, after.1.factories key =
    if key ∈ file.stepKeys then some (file.factory resolveCommand key)
    else loaded.1.factories key
  triggers : ∀ name, after.2.triggers.get? name =
    if name ∈ declaredNames file.manifest.triggers then some
      (file.spec resolveCommand .trigger name)
    else loaded.2.triggers.get? name
  stateStores : ∀ name, after.2.stateStores.get? name =
    if name ∈ declaredNames file.manifest.stateStores then
      some (file.spec resolveCommand .stateStore name)
    else loaded.2.stateStores.get? name
  eventBuses : ∀ name, after.2.eventBuses.get? name =
    if name ∈ declaredNames file.manifest.eventBuses then some
      (file.spec resolveCommand .eventBus name)
    else loaded.2.eventBuses.get? name

theorem loads_of_loadManifest (loads : loadManifest resolveCommand loaded file = .ok after) :
    Loads resolveCommand loaded file after := by
  obtain ⟨_, valid, registers⟩ := Except.bind_eq_ok.mp loads
  obtain ⟨registry, steps, rfl⟩ := Except.map_eq_ok.mp registers
  unfold validateManifest at valid
  split at valid
  case isTrue => cases valid
  case isFalse unclaimed =>
    split at valid
    case isTrue => cases valid
    case isFalse =>
      split at valid
      case isTrue => cases valid
      case isFalse =>
        obtain ⟨_, prefixes, valid⟩ := Except.bind_eq_ok.mp valid
        obtain ⟨_, newSteps, valid⟩ := Except.bind_eq_ok.mp valid
        obtain ⟨_, newTriggers, valid⟩ := Except.bind_eq_ok.mp valid
        obtain ⟨_, newStores, newBuses⟩ := Except.bind_eq_ok.mp valid
        have absent : ∀ {V : Type} {table : Assoc V} {name : String},
            (Assoc.get? name table).isSome = false → Assoc.get? name table = none :=
          fun absent => Option.isSome_eq_false_iff.mp absent |> Option.isNone_iff_eq_none.mp
        exact {
          trusted := fun builtin => by
            rw [builtin] at unclaimed
            simpa using unclaimed
          prefixes := prefixes
          newSteps := fresh_of_validateStepDuplicates newSteps
          newTriggers := fun name member =>
            absent (fresh_of_validateNamedDuplicates newTriggers name member)
          newStores := fun name member =>
            absent (fresh_of_validateNamedDuplicates newStores name member)
          newBuses := fun name member =>
            absent (fresh_of_validateNamedDuplicates newBuses name member)
          steps := factories_registerSteps steps
          triggers := get?_registerNamed _ _ _
          stateStores := get?_registerNamed _ _ _
          eventBuses := get?_registerNamed _ _ _ }

open Transition

theorem enters_steps : Enters (loadManifest resolveCommand)
    (fun loaded key => loaded.1.factories key) ManifestFile.stepKeys
    (fun file key => file.factory resolveCommand key) :=
  ⟨fun loads => (loads_of_loadManifest loads).newSteps,
    fun loads key member => ((loads_of_loadManifest loads).steps key).trans (if_pos member),
    fun loads key absent => ((loads_of_loadManifest loads).steps key).trans (if_neg absent)⟩

theorem enters_triggers : Enters (loadManifest resolveCommand)
    (fun loaded name => loaded.2.triggers.get? name)
    (fun file => declaredNames file.manifest.triggers)
    (fun file name => file.spec resolveCommand .trigger name) :=
  ⟨fun loads => (loads_of_loadManifest loads).newTriggers,
    fun loads key member => ((loads_of_loadManifest loads).triggers key).trans (if_pos member),
    fun loads key absent => ((loads_of_loadManifest loads).triggers key).trans (if_neg absent)⟩

theorem enters_stateStores : Enters (loadManifest resolveCommand)
    (fun loaded name => loaded.2.stateStores.get? name)
    (fun file => declaredNames file.manifest.stateStores)
    (fun file name => file.spec resolveCommand .stateStore name) :=
  ⟨fun loads => (loads_of_loadManifest loads).newStores,
    fun loads key member => ((loads_of_loadManifest loads).stateStores key).trans (if_pos member),
    fun loads key absent => ((loads_of_loadManifest loads).stateStores key).trans (if_neg absent)⟩

theorem enters_eventBuses : Enters (loadManifest resolveCommand)
    (fun loaded name => loaded.2.eventBuses.get? name)
    (fun file => declaredNames file.manifest.eventBuses)
    (fun file name => file.spec resolveCommand .eventBus name) :=
  ⟨fun loads => (loads_of_loadManifest loads).newBuses,
    fun loads key member => ((loads_of_loadManifest loads).eventBuses key).trans (if_pos member),
    fun loads key absent => ((loads_of_loadManifest loads).eventBuses key).trans (if_neg absent)⟩

end Registered

/-! ## The builtin namespace -/

section Builtin

/-- A manifest on a trusted path that declares itself builtin. -/
def ManifestFile.IsBuiltin (file : ManifestFile) : Prop :=
  file.trusted = true ∧ file.manifest.builtin = true

/-- The files of a load, in order. -/
def manifestFiles (trusted manifests : List (String × StdioExtensionManifest)) :
    List ManifestFile :=
  (trusted.map fun entry => ⟨entry.1, true, entry.2⟩) ++
    manifests.map fun entry => ⟨entry.1, false, entry.2⟩

/-- All type names that a manifest declares. -/
def ManifestFile.typeNames (file : ManifestFile) : List String :=
  file.manifest.steps.map (·.stepType) ++ declaredNames file.manifest.triggers ++
    declaredNames file.manifest.stateStores ++ declaredNames file.manifest.eventBuses

/-- Each builtin name in a table was there before, or is a registration of a builtin file. -/
def TableReserved {K V : Type} (files : List ManifestFile) (name : K → String)
    (keys : ManifestFile → List K) (value : ManifestFile → K → V) (before after : K → Option V) :
    Prop :=
  ∀ key found, after key = some found → isBuiltinName (name key) = true →
    before key = some found ∨
      ∃ file ∈ files, file.IsBuiltin ∧ key ∈ keys file ∧ found = value file key

/-- **The builtin namespace is reserved**: the builtin names that a load has registered come
from builtin files. -/
structure BuiltinReserved (resolveCommand : String → String → String) (files : List ManifestFile)
    (before after : ComponentRegistry × StdioExtensionHost) : Prop where
  steps : TableReserved files Prod.snd ManifestFile.stepKeys
    (fun file => file.factory resolveCommand) before.1.factories after.1.factories
  triggers : TableReserved files id (fun file => declaredNames file.manifest.triggers)
    (fun file => file.spec resolveCommand .trigger) (before.2.triggers.get? ·)
    (after.2.triggers.get? ·)
  stateStores : TableReserved files id (fun file => declaredNames file.manifest.stateStores)
    (fun file => file.spec resolveCommand .stateStore) (before.2.stateStores.get? ·)
    (after.2.stateStores.get? ·)
  eventBuses : TableReserved files id (fun file => declaredNames file.manifest.eventBuses)
    (fun file => file.spec resolveCommand .eventBus) (before.2.eventBuses.get? ·)
    (after.2.eventBuses.get? ·)

variable {resolveCommand : String → String → String} {registry : ComponentRegistry}
variable {before loaded after : ComponentRegistry × StdioExtensionHost} {file : ManifestFile}
variable {trusted manifests : List (String × StdioExtensionManifest)}

/-- The part of a registration behind its last colon is that of the type name. -/
theorem afterLastColon_registration (kind typeName : String) :
    afterLastColon (kind ++ ":" ++ typeName) = afterLastColon typeName := by
  unfold afterLastColon
  have split : (kind ++ ":" ++ typeName).toList = kind.toList ++ ':' :: typeName.toList := by
    simp
  rw [split]
  congr 1
  induction typeName.toList using List.reverseRecOn with
  | nil => exact List.rtakeWhile_concat_neg _ _ _ (by simp)
  | append_singleton chars last ih =>
      rw [← List.cons_append, ← List.append_assoc, List.rtakeWhile_concat, List.rtakeWhile_concat,
        ih]

theorem registration_mem {name : String} (member : name ∈ file.typeNames) :
    ∃ kind, kind ++ ":" ++ name ∈ manifestRegistrations file.manifest := by
  unfold ManifestFile.typeNames declaredNames at member
  unfold manifestRegistrations
  simp only [List.mem_append, List.mem_map] at member ⊢
  rcases member with ((⟨step, inside, rfl⟩ | ⟨trigger, inside, rfl⟩) | ⟨store, inside, rfl⟩) |
    ⟨bus, inside, rfl⟩
  · exact ⟨_, .inl (.inl (.inl ⟨step, inside, rfl⟩))⟩
  · exact ⟨"trigger", .inl (.inl (.inr ⟨trigger, inside, rfl⟩))⟩
  · exact ⟨"state_store", .inl (.inr ⟨store, inside, rfl⟩)⟩
  · exact ⟨"event_bus", .inr ⟨bus, inside, rfl⟩⟩

/-- A file that loads without being builtin has no name that is builtin behind its last
colon. -/
theorem Loads.not_builtin (loads : Loads resolveCommand before file after)
    (foreign : ¬file.IsBuiltin) {name : String} (member : name ∈ file.typeNames) :
    isBuiltinName (afterLastColon name) = false := by
  have prefixes := loads.prefixes
  unfold validateBuiltinPrefixes at prefixes
  split at prefixes
  case h_1 none =>
    obtain ⟨kind, declared⟩ := registration_mem member
    have plain := List.find?_eq_none.mp none _ declared
    rw [afterLastColon_registration] at plain
    exact Bool.not_eq_true _ ▸ plain
  case h_2 =>
    split at prefixes
    case isTrue => cases prefixes
    case isFalse allowed =>
      refine absurd ?_ foreign
      simpa [ManifestFile.IsBuiltin] using allowed

/-- A load goes through all files in turn. -/
theorem foldlM_manifestFiles
    (loads : loadStdioExtensionsWithTrusted resolveCommand registry trusted manifests = .ok after) :
    (manifestFiles trusted manifests).foldlM (loadManifest resolveCommand) (registry, {}) =
      .ok after := by
  unfold manifestFiles
  rw [List.foldlM_append]
  exact loads

/-- A table is reserved when no other file has a builtin name for it. -/
theorem tableReserved_iff {K V : Type} {files : List ManifestFile} {name : K → String}
    {keys : ManifestFile → List K} {value : ManifestFile → K → V}
    {lookup : ComponentRegistry × StdioExtensionHost → K → Option V}
    (enters : Transition.Enters (loadManifest resolveCommand) lookup keys value)
    (loads : files.foldlM (loadManifest resolveCommand) before = .ok after) :
    TableReserved files name keys value (lookup before) (lookup after) ↔
      ∀ file ∈ files, ¬file.IsBuiltin → ∀ key ∈ keys file, isBuiltinName (name key) = false := by
  constructor
  · intro reserved file member foreign key isKey
    obtain ⟨absent, present⟩ := enters.entered loads member isKey
    cases builtin : isBuiltinName (name key) with
    | false => rfl
    | true =>
        rcases reserved key _ present builtin with old | ⟨other, inside, isBuiltin, shared, -⟩
        · rw [absent] at old
          cases old
        · cases enters.eq_of_shared loads member inside isKey shared
          exact absurd isBuiltin foreign
  · intro plain key found present builtin
    rcases enters.origin loads present with old | ⟨file, member, isKey, same⟩
    · exact .inl old
    · by_cases foreign : file.IsBuiltin
      · exact .inr ⟨file, member, foreign, isKey, same⟩
      · rw [plain file member foreign key isKey] at builtin
        cases builtin

/-- **The builtin namespace is reserved** unless the part of a builtin name behind its last
colon, which is all that is checked, is no builtin name. -/
theorem builtinReserved_iff
    (loads : loadStdioExtensionsWithTrusted resolveCommand registry trusted manifests = .ok after) :
    BuiltinReserved resolveCommand (manifestFiles trusted manifests) (registry, {}) after ↔
      ∀ file ∈ manifestFiles trusted manifests, ¬file.IsBuiltin → ∀ name ∈ file.typeNames,
        isBuiltinName name = true → isBuiltinName (afterLastColon name) = true := by
  have folded := foldlM_manifestFiles loads
  have steps := @tableReserved_iff resolveCommand _ _ _ _ _ Prod.snd _ _ _ enters_steps folded
  have triggers := @tableReserved_iff resolveCommand _ _ _ _ _ id _ _ _ enters_triggers folded
  have stores := @tableReserved_iff resolveCommand _ _ _ _ _ id _ _ _ enters_stateStores folded
  have buses := @tableReserved_iff resolveCommand _ _ _ _ _ id _ _ _ enters_eventBuses folded
  constructor
  · intro reserved file member foreign name declared builtin
    unfold ManifestFile.typeNames at declared
    simp only [List.mem_append] at declared
    have plain : isBuiltinName name = false := by
      rcases declared with ((typed | trigger) | store) | bus
      · obtain ⟨step, inside, rfl⟩ := List.mem_map.mp typed
        exact steps.mp reserved.steps file member foreign (step.kind, step.stepType)
          (List.mem_map.mpr ⟨step, inside, rfl⟩)
      · exact triggers.mp reserved.triggers file member foreign name trigger
      · exact stores.mp reserved.stateStores file member foreign name store
      · exact buses.mp reserved.eventBuses file member foreign name bus
    rw [plain] at builtin
    cases builtin
  · intro checked
    have plain : ∀ file ∈ manifestFiles trusted manifests, ¬file.IsBuiltin →
        ∀ name ∈ file.typeNames, isBuiltinName name = false := by
      intro file member foreign name declared
      obtain ⟨state, next, loaded⟩ := Except.exists_step_of_foldlM folded member
      have unseen := (loads_of_loadManifest loaded).not_builtin foreign declared
      cases builtin : isBuiltinName name with
      | false => rfl
      | true =>
          rw [checked file member foreign name declared builtin] at unseen
          cases unseen
    refine ⟨steps.mpr fun file member foreign key isKey => ?_,
      triggers.mpr fun file member foreign name isKey => ?_,
      stores.mpr fun file member foreign name isKey => ?_,
      buses.mpr fun file member foreign name isKey => ?_⟩
    · obtain ⟨step, inside, rfl⟩ := List.mem_map.mp isKey
      exact plain file member foreign step.stepType (by
        simp only [ManifestFile.typeNames, List.mem_append]
        exact .inl (.inl (.inl (List.mem_map.mpr ⟨step, inside, rfl⟩))))
    · exact plain file member foreign name (by simp [ManifestFile.typeNames, isKey])
    · exact plain file member foreign name (by simp [ManifestFile.typeNames, isKey])
    · exact plain file member foreign name (by simp [ManifestFile.typeNames, isKey])

end Builtin

/-! ## Resolution -/

section Resolution

variable {resolveCommand : String → String → String} {registry : ComponentRegistry}
variable {before loaded after : ComponentRegistry × StdioExtensionHost} {file : ManifestFile}

/-- What the compiled-in triggers make of their configs. -/
structure CompiledTriggers (T : Type) where
  http : Fields → Except Error T
  cron : Fields → Except Error T
  queue : Fields → Except Error T

/-- A trigger as serve mode runs it. -/
inductive ServedTrigger (T : Type) where
  | compiled (trigger : T)
  | stdio (name : String) (spec : AsyncSpec) (config : Value) (id triggerType : String)

variable {T : Type} (compiled : CompiledTriggers T)

/-- Builds a compiled-in trigger. -/
def buildTrigger (config : TriggerConfig) : Except Error T :=
  match config.config with
  | .error error => .error (.config error.text)
  | .ok raw =>
      if config.triggerType = "http" then compiled.http raw
      else if config.triggerType = "cron" then compiled.cron raw
      else if config.triggerType = "queue" then compiled.queue raw
      else .error (.config ("unknown trigger type '" ++ config.triggerType ++
        "' (supported: http | cron | queue)"))

/-- Builds a trigger of an extension, if one has its type. -/
def StdioExtensionHost.buildTrigger (host : StdioExtensionHost) (config : TriggerConfig) :
    Except Error (Option (ServedTrigger T)) :=
  match host.triggers.get? config.triggerType with
  | none => .ok none
  | some spec =>
      match config.config with
      | .error error => .error (.config error.text)
      | .ok raw => .ok (some (.stdio (spec.extensionName ++ "::" ++ spec.typeName) spec
          (.object raw) config.id config.triggerType))

/-- Builds one trigger of a flow: from an extension, or else compiled in. -/
def buildServedTrigger (extensionHost : Option StdioExtensionHost) (config : TriggerConfig) :
    Except Error (ServedTrigger T) := do
  let compiledIn := do
    let trigger ← buildTrigger compiled config
    return .compiled trigger
  match extensionHost with
  | none => compiledIn
  | some host =>
      match ← host.buildTrigger config with
      | some trigger => return trigger
      | none => compiledIn

/-- Builds the triggers of a flow. -/
def buildTriggers (flow : FlowConfig) (extensionHost : Option StdioExtensionHost) :
    Except Error (List (ServedTrigger T)) :=
  flow.triggers.mapM (buildServedTrigger compiled extensionHost)

/-- What implements a trigger type. -/
inductive TriggerImplementation where
  | http
  | cron
  | queue
  | stdio (spec : AsyncSpec)
  deriving DecidableEq, Repr

/-- The compiled-in trigger types. -/
def compiledTrigger (triggerType : String) : Option TriggerImplementation :=
  if triggerType = "http" then some .http
  else if triggerType = "cron" then some .cron
  else if triggerType = "queue" then some .queue
  else none

/-- The implementation of a trigger type in serve mode. -/
def resolveTrigger (host : StdioExtensionHost) (triggerType : String) :
    Option TriggerImplementation :=
  match host.triggers.get? triggerType with
  | some spec => some (.stdio spec)
  | none => compiledTrigger triggerType

/-- Builds a trigger by its implementation. -/
def TriggerImplementation.build (config : TriggerConfig) (raw : Fields) :
    TriggerImplementation → Except Error (ServedTrigger T)
  | .http => compiled.http raw >>= fun trigger => .ok (.compiled trigger)
  | .cron => compiled.cron raw >>= fun trigger => .ok (.compiled trigger)
  | .queue => compiled.queue raw >>= fun trigger => .ok (.compiled trigger)
  | .stdio spec => .ok (.stdio (spec.extensionName ++ "::" ++ spec.typeName) spec (.object raw)
      config.id config.triggerType)

/-- Serve mode builds a trigger by the implementation of its type. -/
theorem buildServedTrigger_eq (host : StdioExtensionHost) (config : TriggerConfig) :
    buildServedTrigger compiled (some host) config =
      match config.config with
      | .error error => .error (.config error.text)
      | .ok raw =>
          match resolveTrigger host config.triggerType with
          | some implementation => implementation.build compiled config raw
          | none => .error (.config ("unknown trigger type '" ++ config.triggerType ++
              "' (supported: http | cron | queue)")) := by
  unfold buildServedTrigger StdioExtensionHost.buildTrigger resolveTrigger buildTrigger
  cases found : Assoc.get? config.triggerType host.triggers with
  | some spec =>
      cases parsed : config.config with
      | error error =>
          simp only [found]
          rfl
      | ok raw =>
          simp only [found]
          rfl
  | none =>
      cases parsed : config.config with
      | error error =>
          simp only [found]
          rfl
      | ok raw =>
          simp only [found, compiledTrigger]
          by_cases http : config.triggerType = "http"
          · simp only [if_pos http]
            rfl
          by_cases cron : config.triggerType = "cron"
          · simp only [if_neg http, if_pos cron]
            rfl
          by_cases queue : config.triggerType = "queue"
          · simp only [if_neg http, if_neg cron, if_pos queue]
            rfl
          · simp only [if_neg http, if_neg cron, if_neg queue]
            rfl

/-- Where a flow keeps its state. -/
inductive StoreConfig where
  | path (path : String)
  | component (componentType : String)
  deriving DecidableEq, Repr

/-- What implements a state store. -/
inductive StoreImplementation where
  | jsonFile (path : String)
  | stdio (spec : BlockingSpec)
  deriving DecidableEq, Repr

/-- The implementation of a state store. -/
def resolveStore (host : StdioExtensionHost) : StoreConfig → Option StoreImplementation
  | .path path => some (.jsonFile path)
  | .component componentType => (host.stateStores.get? componentType).map .stdio

/-- The implementation of an event bus. -/
def resolveEventBus (host : StdioExtensionHost) (componentType : String) : Option BlockingSpec :=
  host.eventBuses.get? componentType

/-- **Extensions are conservative**: what resolved before a load resolves to the same
implementation afterwards. -/
structure Conservative (before after : ComponentRegistry × StdioExtensionHost) : Prop where
  steps : ∀ key factory, before.1.factories key = some factory →
      after.1.factories key = some factory
  triggers : ∀ triggerType implementation,
    resolveTrigger before.2 triggerType = some implementation →
    resolveTrigger after.2 triggerType = some implementation
  stateStores : ∀ config implementation, resolveStore before.2 config = some implementation →
    resolveStore after.2 config = some implementation
  eventBuses : ∀ componentType spec, resolveEventBus before.2 componentType = some spec →
    resolveEventBus after.2 componentType = some spec

theorem compiledTrigger_ne_stdio {name : String} {spec : AsyncSpec} :
    compiledTrigger name ≠ some (.stdio spec) := by
  unfold compiledTrigger
  split
  case isTrue => simp
  case isFalse =>
    split
    case isTrue => simp
    case isFalse => split <;> simp

/-- A resolved trigger type stays resolved when the manifests name none that is compiled in. -/
theorem resolveTrigger_kept {manifests : List (String × StdioExtensionManifest)}
    (loads : loadManifests resolveCommand false before manifests = .ok after)
    (apart : ∀ entry ∈ manifests, ∀ trigger ∈ entry.2.triggers,
      compiledTrigger trigger.typeName = none) {triggerType : String}
    {implementation : TriggerImplementation}
    (resolved : resolveTrigger before.2 triggerType = some implementation) :
    resolveTrigger after.2 triggerType = some implementation := by
  unfold loadManifests at loads
  unfold resolveTrigger at resolved ⊢
  cases old : before.2.triggers.get? triggerType with
  | some spec =>
      rw [enters_triggers.kept loads old]
      simp only [old] at resolved
      exact resolved
  | none =>
      simp only [old] at resolved
      cases new : after.2.triggers.get? triggerType with
      | none => exact resolved
      | some spec =>
          rcases enters_triggers.origin loads new with kept | ⟨file, isFile, isKey, -⟩
          · rw [old] at kept
            cases kept
          · obtain ⟨entry, member, rfl⟩ := List.mem_map.mp isFile
            obtain ⟨trigger, declared, rfl⟩ := List.mem_map.mp isKey
            rw [apart entry member trigger declared] at resolved
            cases resolved

/-- **A load is conservative** unless a manifest takes the type of a compiled-in trigger. -/
theorem conservative_iff {manifests : List (String × StdioExtensionManifest)}
    (loads : loadManifests resolveCommand false before manifests = .ok after) :
    Conservative before after ↔ ∀ entry ∈ manifests, ∀ trigger ∈ entry.2.triggers,
      compiledTrigger trigger.typeName = none := by
  have folded := loads
  unfold loadManifests at folded
  constructor
  · intro conservative entry member trigger declared
    obtain ⟨absent, present⟩ := enters_triggers.entered folded
      (List.mem_map.mpr ⟨entry, member, rfl⟩) (List.mem_map.mpr ⟨trigger, declared, rfl⟩)
    cases resolved : compiledTrigger trigger.typeName with
    | none => rfl
    | some implementation =>
        have kept := conservative.triggers trigger.typeName implementation (by
          simp only [resolveTrigger, absent]
          exact resolved)
        simp only [resolveTrigger, present] at kept
        cases kept
        exact absurd resolved compiledTrigger_ne_stdio
  · intro apart
    refine ⟨fun key factory => enters_steps.kept folded,
      fun triggerType implementation => resolveTrigger_kept loads apart,
      fun config implementation resolved => ?_, fun name spec => enters_eventBuses.kept folded⟩
    cases config with
    | path path => exact resolved
    | component componentType =>
        obtain ⟨spec, found, rfl⟩ := Option.map_eq_some_iff.mp resolved
        exact Option.map_eq_some_iff.mpr ⟨spec, enters_stateStores.kept folded found, rfl⟩

end Resolution

namespace Sample

/-- A manifest that hides a builtin name before a colon. -/
def disguised : StdioExtensionManifest where
  name := "third-party"
  version := "0.1.0"
  command := "python3"
  steps := [⟨.transform, "builtin-csv:fast"⟩]

/-- A manifest that takes the type of a compiled-in trigger. -/
def taking : StdioExtensionManifest where
  name := "webhooks"
  version := "0.1.0"
  command := "python3"
  triggers := [⟨"http"⟩]

/-- A registry without steps. -/
def noSteps : ComponentRegistry := ⟨fun _ => none⟩

/-- Commands are taken as they are. -/
def plainCommand (_path command : String) : String := command

theorem disguised_loads : ∃ after, loadStdioExtensionsWithTrusted plainCommand noSteps []
    [("third-party.yaml", disguised)] = .ok after := ⟨_, rfl⟩

theorem disguised_reserved_iff : ∃ after, loadStdioExtensionsWithTrusted plainCommand noSteps []
    [("third-party.yaml", disguised)] = .ok after ∧
    (BuiltinReserved plainCommand (manifestFiles [] [("third-party.yaml", disguised)])
        (noSteps, {}) after ↔
      ∀ file ∈ manifestFiles [] [("third-party.yaml", disguised)], ¬file.IsBuiltin →
        ∀ name ∈ file.typeNames,
          isBuiltinName name = true → isBuiltinName (afterLastColon name) = true) := by
  obtain ⟨after, loads⟩ := disguised_loads
  exact ⟨after, loads, builtinReserved_iff loads⟩

/-- A manifest of a user registers a builtin name. -/
theorem builtin_name_taken : ∃ after, loadStdioExtensionsWithTrusted plainCommand noSteps []
    [("third-party.yaml", disguised)] = .ok after ∧
      ¬BuiltinReserved plainCommand (manifestFiles [] [("third-party.yaml", disguised)])
        (noSteps, {}) after := by
  refine ⟨_, rfl, fun reserved => ?_⟩
  have origin := reserved.steps (.transform, "builtin-csv:fast") _ rfl (by decide)
  rcases origin with old | ⟨file, member, isBuiltin, -⟩
  · cases old
  · cases List.mem_singleton.mp member
    cases isBuiltin.1

theorem taking_loads : ∃ after, loadManifests plainCommand false (noSteps, {})
    [("webhooks.yaml", taking)] = .ok after := ⟨_, rfl⟩

theorem taking_conservative_iff : ∃ after, loadManifests plainCommand false (noSteps, {})
    [("webhooks.yaml", taking)] = .ok after ∧
    (Conservative (noSteps, {}) after ↔
      ∀ entry ∈ [("webhooks.yaml", taking)], ∀ trigger ∈ entry.2.triggers,
        compiledTrigger trigger.typeName = none) := by
  obtain ⟨after, loads⟩ := taking_loads
  exact ⟨after, loads, conservative_iff loads⟩

/-- An extension shadows the compiled-in HTTP trigger. -/
theorem http_shadowed : ∃ after, loadManifests plainCommand false (noSteps, {})
    [("webhooks.yaml", taking)] = .ok after ∧ ¬Conservative (noSteps, {}) after := by
  refine ⟨_, rfl, fun conservative => ?_⟩
  have kept := conservative.triggers "http" .http rfl
  cases kept

end Sample

end Sohara
