import Sohara.Runtime.Extensions
import Sohara.Transition.Attempts

/-! # Loads that fail

Manifests are registered one after the other, each after it has been validated. When one of them
cannot be read, parsed or validated, nothing of it is registered, and those before it stay
registered.
-/

namespace Sohara

open Transition

/-- The registry and the host of extensions, as manifests are registered. -/
abbrev ExtensionState : Type := ComponentRegistry × StdioExtensionHost

/-- What paths lead to: the manifest files, each with what parsing it gives. -/
abbrev ManifestPaths : Type := Except Error (List (String × Except Error StdioExtensionManifest))

section Loading

variable (resolveCommand : String → String → String)

/-- Registers one step type of a manifest in the registry. -/
def registerStepInto (file : ManifestFile) (registry : ComponentRegistry)
    (step : StdioStepRegistration) : ComponentRegistry × Except Error Unit :=
  match registerStep resolveCommand file registry step with
  | .ok registered => (registered, .ok ())
  | .error error => (registry, .error error)

/-- Registers a manifest: its steps up to one that is refused, and the rest after all steps. -/
def registerInto (state : ExtensionState) (file : ManifestFile) :
    ExtensionState × Except Error Unit :=
  match attempt (registerStepInto resolveCommand file) file.manifest.steps state.1 with
  | (registry, .ok _) => ((registry, hostWith resolveCommand state.2 file), .ok ())
  | (registry, .error error) => ((registry, state.2), .error error)

/-- Parses, validates and registers a manifest. -/
def loadInto (state : ExtensionState) (parsed : Except Error ManifestFile) :
    ExtensionState × Except Error Unit :=
  match parsed with
  | .error error => (state, .error error)
  | .ok file =>
      match validateManifest file.manifest state.1 state.2 file.trusted with
      | .error error => (state, .error error)
      | .ok _ => registerInto resolveCommand state file

/-- The manifests that paths lead to, in order; paths that cannot be listed are one failure. -/
def manifestsOf (trusted : Bool) : ManifestPaths → List (Except Error ManifestFile)
  | .error error => [.error error]
  | .ok files => files.map fun file => file.2.map fun manifest => ⟨file.1, trusted, manifest⟩

/-- Loads the trusted manifests into a registry, and then those of the user. -/
def loadIntoRegistry (registry : ComponentRegistry) (trusted paths : ManifestPaths) :
    ExtensionState × Except Error Unit :=
  match attempt (loadInto resolveCommand) (manifestsOf true trusted) (registry, {}) with
  | (state, .ok _) => attempt (loadInto resolveCommand) (manifestsOf false paths) state
  | (state, .error error) => (state, .error error)

end Loading

section Mirroring

variable {resolveCommand : String → String → String}

theorem mirrors_registerStep (file : ManifestFile) :
    Mirrors (registerStepInto resolveCommand file) (registerStep resolveCommand file) := by
  constructor
  · intro registry step after registers
    unfold registerStepInto at registers
    split at registers
    · next registered same =>
      cases registers
      exact same
    · cases registers
  · intro registry step after error registers
    unfold registerStepInto at registers
    split at registers
    · cases registers
    · next failure same =>
      cases registers
      exact same

/-- Loading into a registry is loading a manifest, once it is parsed. -/
theorem mirrors_loadInto : Mirrors (loadInto resolveCommand)
    fun state parsed => parsed >>= loadManifest resolveCommand state := by
  have registered : ∀ {state : ExtensionState} {file : ManifestFile},
      validateManifest file.manifest state.1 state.2 file.trusted = .ok () →
        loadInto resolveCommand state (.ok file) = registerInto resolveCommand state file ∧
          loadManifest resolveCommand state file =
            registerManifest resolveCommand state.1 state.2 file := by
    intro state file valid
    unfold loadInto loadManifest
    dsimp only
    rw [valid]
    exact ⟨rfl, rfl⟩
  constructor
  · intro state parsed after loads
    cases parsed with
    | error error => cases loads
    | ok file =>
        change loadManifest resolveCommand state file = _
        cases valid : validateManifest file.manifest state.1 state.2 file.trusted with
        | error error =>
            unfold loadInto at loads
            dsimp only at loads
            rw [valid] at loads
            cases loads
        | ok =>
            rw [(registered valid).1] at loads
            rw [(registered valid).2]
            unfold registerInto at loads
            split at loads
            · next registry _ registers =>
              cases loads
              unfold registerManifest
              rw [(mirrors_registerStep file).attempt_ok registers]
              rfl
            · cases loads
  · intro state parsed after error fails
    cases parsed with
    | error failure =>
        cases fails
        rfl
    | ok file =>
        change loadManifest resolveCommand state file = _
        cases valid : validateManifest file.manifest state.1 state.2 file.trusted with
        | error failure =>
            unfold loadInto at fails
            dsimp only at fails
            rw [valid] at fails
            cases fails
            unfold loadManifest
            rw [valid]
            rfl
        | ok =>
            rw [(registered valid).1] at fails
            rw [(registered valid).2]
            unfold registerInto at fails
            split at fails
            · cases fails
            · next registry failure registers =>
              cases fails
              unfold registerManifest
              rw [(mirrors_registerStep file).attempt_error registers]
              rfl

theorem loadIntoRegistry_eq (registry : ComponentRegistry) (trusted paths : ManifestPaths) :
    loadIntoRegistry resolveCommand registry trusted paths =
      attempt (loadInto resolveCommand) (manifestsOf true trusted ++ manifestsOf false paths)
        (registry, {}) := by
  rw [attempt_append]
  unfold loadIntoRegistry
  generalize attempt (loadInto resolveCommand) (manifestsOf true trusted) (registry, {}) = first
  obtain ⟨state, error | loaded⟩ := first <;> rfl

/-- Manifests that are parsed load into a registry as they load. -/
theorem loads_of_loadIntoRegistry {registry : ComponentRegistry} {after : ExtensionState}
    {result : Except Error Unit} {trusted manifests : List (String × StdioExtensionManifest)}
    (loads : loadIntoRegistry resolveCommand registry
      (.ok (trusted.map fun file => (file.1, .ok file.2)))
      (.ok (manifests.map fun file => (file.1, .ok file.2))) = (after, result)) :
    loadStdioExtensionsWithTrusted resolveCommand registry trusted manifests =
      result.map fun _ => after := by
  have whole : loadStdioExtensionsWithTrusted resolveCommand registry trusted manifests =
      (manifestFiles trusted manifests).foldlM (loadManifest resolveCommand) (registry, {}) := by
    unfold manifestFiles
    rw [List.foldlM_append]
    rfl
  have items : manifestsOf true (.ok (trusted.map fun file => (file.1, .ok file.2))) ++
      manifestsOf false (.ok (manifests.map fun file => (file.1, .ok file.2))) =
        (manifestFiles trusted manifests).map .ok := by
    unfold manifestFiles manifestsOf
    dsimp only
    rw [List.map_append, List.map_map, List.map_map, List.map_map, List.map_map]
    rfl
  rw [loadIntoRegistry_eq, items] at loads
  rw [whole]
  cases result with
  | ok =>
      have folds := mirrors_loadInto.attempt_ok loads
      rw [List.foldlM_map] at folds
      exact folds
  | error error =>
      have folds := mirrors_loadInto.attempt_error loads
      rw [List.foldlM_map] at folds
      exact folds

/-- Items of a fold that succeeds are values. -/
theorem values_of_foldlM {items : List (Except Error ManifestFile)} {state after : ExtensionState}
    (loads : items.foldlM (fun state parsed => parsed >>= loadManifest resolveCommand state)
      state = .ok after) :
    ∃ files : List ManifestFile, items = files.map .ok ∧
      files.foldlM (loadManifest resolveCommand) state = .ok after := by
  induction items generalizing state with
  | nil => exact ⟨[], rfl, loads⟩
  | cons item rest ih =>
      rw [List.foldlM_cons] at loads
      obtain ⟨next, first, others⟩ := Except.bind_eq_ok.mp loads
      obtain ⟨file, rfl, loaded⟩ := Except.bind_eq_ok.mp first
      obtain ⟨files, rfl, folds⟩ := ih others
      refine ⟨file :: files, rfl, ?_⟩
      rw [List.foldlM_cons, loaded]
      exact folds

end Mirroring

section Failing

/-- A manifest that cannot be read or parsed, or is not valid. -/
def Refused (state : ExtensionState) (parsed : Except Error ManifestFile) (error : Error) : Prop :=
  parsed = .error error ∨ ∃ file, parsed = .ok file ∧
    validateManifest file.manifest state.1 state.2 file.trusted = .error error

/-- A valid manifest with a control step, which only registering refuses. -/
def ControlRefused (state : ExtensionState) (parsed : Except Error ManifestFile) : Prop :=
  ∃ file, parsed = .ok file ∧
    validateManifest file.manifest state.1 state.2 file.trusted = .ok () ∧
    ∃ step ∈ file.manifest.steps, step.kind = .control

/-- **What loaded manifests add to a registry**: each step type that one of them declares is
resolved to its factory, and all others as before. -/
def Added (resolveCommand : String → String → String) (registry : ComponentRegistry)
    (files : List ManifestFile) (after : ComponentRegistry) : Prop :=
  (∀ file ∈ files, ∀ key ∈ file.stepKeys,
    registry.factories key = none ∧
      after.factories key = some (file.factory resolveCommand key)) ∧
    ∀ key, (∀ file ∈ files, key ∉ file.stepKeys) → after.factories key = registry.factories key

variable {resolveCommand : String → String → String} {registry : ComponentRegistry}
  {host : StdioExtensionHost} {state : ExtensionState} {files : List ManifestFile}

theorem added_of_foldlM (loads : files.foldlM (loadManifest resolveCommand) (registry, host) =
    .ok state) : Added resolveCommand registry files state.1 := by
  constructor
  · intro file member key declared
    exact enters_steps.entered loads member declared
  · intro key undeclared
    cases found : registry.factories key with
    | some factory => exact enters_steps.kept loads found
    | none =>
        cases later : state.1.factories key with
        | none => rfl
        | some factory =>
            rcases enters_steps.origin loads later with before | ⟨file, member, declared, -⟩
            · exact absurd (found.symm.trans before) (fun same => nomatch same)
            · exact absurd declared (undeclared file member)

/-- Nothing is added just in case no step types are declared. -/
theorem Added.unchanged_iff {after : ComponentRegistry}
    (added : Added resolveCommand registry files after) :
    (∀ key, after.factories key = registry.factories key) ↔
      ∀ file ∈ files, file.manifest.steps = [] := by
  constructor
  · intro same file member
    by_contra some_
    obtain ⟨step, rest, steps⟩ := List.exists_cons_of_ne_nil some_
    have declared : (step.kind, step.stepType) ∈ file.stepKeys :=
      List.mem_map.mpr ⟨step, steps ▸ List.mem_cons_self, rfl⟩
    obtain ⟨new, registered⟩ := added.1 file member _ declared
    rw [same, new] at registered
    cases registered
  · intro none_ key
    refine added.2 key fun file member declared => ?_
    unfold ManifestFile.stepKeys at declared
    rw [none_ file member] at declared
    cases declared

/-- A manifest that is valid is not refused. -/
theorem not_refused_of_valid {file : ManifestFile} {error : Error}
    (valid : validateManifest file.manifest state.1 state.2 file.trusted = .ok ()) :
    ¬Refused state (.ok file) error := by
  rintro (unread | ⟨other, same, invalid⟩)
  · cases unread
  · cases same
    rw [valid] at invalid
    cases invalid

/-- Registering a manifest fails at a control step only. -/
theorem control_of_registerInto {file : ManifestFile} {after : ExtensionState} {error : Error}
    (fails : registerInto resolveCommand state file = (after, .error error)) :
    ∃ step ∈ file.manifest.steps, step.kind = .control := by
  unfold registerInto at fails
  split at fails
  · cases fails
  · next registry failure registers =>
    obtain ⟨_, step, _, _, steps, -, refused⟩ := exists_failure registers
    refine ⟨step, by rw [steps]; exact List.mem_append_right _ List.mem_cons_self, ?_⟩
    unfold registerStepInto registerStep at refused
    by_contra plain
    rw [if_neg plain] at refused
    cases refused

end Failing

/-- **What a load that fails leaves behind.** Some manifests have loaded, and the next one has
not: it cannot be read or parsed, or is not valid, or it is valid and has a control step. Unless
it is valid, the registry has gained just what those before it declare, so it is as before just in
case they declare no steps. -/
theorem failed_load_keeps {resolveCommand : String → String → String}
    {registry : ComponentRegistry} {trusted paths : ManifestPaths} {after : ExtensionState}
    {error : Error}
    (failed : loadIntoRegistry resolveCommand registry trusted paths = (after, .error error)) :
    ∃ (files : List ManifestFile) (next : Except Error ManifestFile)
      (rest : List (Except Error ManifestFile)) (state : ExtensionState),
      manifestsOf true trusted ++ manifestsOf false paths = files.map .ok ++ next :: rest ∧
      files.foldlM (loadManifest resolveCommand) (registry, {}) = .ok state ∧
      (Refused state next error ∨ ControlRefused state next) ∧
      (Refused state next error → Added resolveCommand registry files after.1 ∧
        ((∀ key, after.1.factories key = registry.factories key) ↔
          ∀ file ∈ files, file.manifest.steps = [])) := by
  rw [loadIntoRegistry_eq] at failed
  obtain ⟨before, next, rest, state, split, succeeds, fails⟩ := exists_failure failed
  obtain ⟨files, rfl, loads⟩ := values_of_foldlM (mirrors_loadInto.attempt_ok succeeds)
  refine ⟨files, next, rest, state, split, loads, ?_⟩
  have added := added_of_foldlM loads
  cases next with
  | error failure =>
      cases fails
      exact ⟨.inl (.inl rfl), fun _ => ⟨added, added.unchanged_iff⟩⟩
  | ok file =>
      unfold loadInto at fails
      dsimp only at fails
      cases valid : validateManifest file.manifest state.1 state.2 file.trusted with
      | error failure =>
          rw [valid] at fails
          cases fails
          exact ⟨.inl (.inr ⟨file, rfl, valid⟩), fun _ => ⟨added, added.unchanged_iff⟩⟩
      | ok =>
          rw [valid] at fails
          dsimp only at fails
          refine ⟨.inr ⟨file, rfl, valid, control_of_registerInto fails⟩, ?_⟩
          intro refused
          exact absurd refused (not_refused_of_valid valid)

namespace Sample

/-- A manifest with a step. -/
def slugs : StdioExtensionManifest where
  name := "slugs"
  version := "0.1.0"
  command := "python3"
  steps := [⟨.transform, "slugify"⟩]

/-- The paths of a user: a manifest with a step, and a file that cannot be parsed. -/
def brokenPaths : ManifestPaths :=
  .ok [("slugs.yaml", .ok slugs), ("typo.yaml", .error (.config "parse"))]

/-- The load fails, and the step of the first manifest stays registered. -/
theorem brokenPaths_registered : ∃ after error,
    loadIntoRegistry plainCommand noSteps (.ok []) brokenPaths = (after, .error error) ∧
      noSteps.factories (.transform, "slugify") = none ∧
      (after.1.factories (.transform, "slugify")).isSome = true :=
  ⟨_, _, rfl, rfl, rfl⟩

theorem brokenPaths_keeps : ∃ (after : ExtensionState) (error : Error)
    (files : List ManifestFile) (next : Except Error ManifestFile)
    (rest : List (Except Error ManifestFile)) (state : ExtensionState),
    manifestsOf true (.ok []) ++ manifestsOf false brokenPaths =
        files.map .ok ++ next :: rest ∧
      files.foldlM (loadManifest plainCommand) (noSteps, {}) = .ok state ∧
      (Refused state next error ∨ ControlRefused state next) ∧
      (Refused state next error → Added plainCommand noSteps files after.1 ∧
        ((∀ key, after.1.factories key = noSteps.factories key) ↔
          ∀ file ∈ files, file.manifest.steps = [])) := by
  have failed : loadIntoRegistry plainCommand noSteps (.ok []) brokenPaths =
    (_, .error (.config "parse")) := rfl
  exact ⟨_, _, failed_load_keeps failed⟩

end Sample

end Sohara
