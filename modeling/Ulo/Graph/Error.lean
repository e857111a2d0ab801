import Ulo.Graph.Basic

/-!
# Wiring errors

What `wire` and `load` report. An error holds what the source's error holds –
keys, module names, positions – and where the source formats a text, the data
the text is formatted from: who reads (`Consumer`), and the steps of a path to
execution data (`PathStep`). Spelling hints (`near`) are left out.
-/

namespace Ulo

/-- A closure with declared reads, as a report names it. -/
inductive Owner
  | readiness (binding : BindingId)
  | hook (kind : HookKind) (binding : BindingId)
  | moduleHook (kind : HookKind) (module : ModuleId)
  | metadata (ty : TypeId) (module : ModuleId)
  | handler (controller : BindingId) (name : String)
  | enhancerClosure (controller : BindingId) (name : String)
deriving DecidableEq, Inhabited

/-- Who makes a read. -/
inductive Consumer
  | construction (binding : BindingId) (dependency : ℕ)
  | alias (binding : BindingId)
  | point (owner : Owner) (label : DependencyLabel)
  | controller (controller : BindingId) (name : String)
  | enhancer (controller : BindingId) (name : String) (key : Key)
  | noModule
deriving DecidableEq, Inhabited

/-- One step of a path to execution data. -/
inductive PathStep
  | label (binding : BindingId)
  | scopedLabel (binding : BindingId) (scope : Effective)
  | point (label : Option DependencyLabel)
  | input (key : Key)
  | enhancerClosure
deriving DecidableEq, Inhabited

/-- A site as a report names it. -/
inductive ModuleSite
  | root
  | load (location : Location)
  | import_ (importer : ModuleName) (location : Location)
deriving DecidableEq, Inhabited

/-- Which bound is written. -/
inductive BoundItem
  | construction
  | readinessWhole
  | readinessAttempt
  | hook (kind : HookKind)
deriving DecidableEq, Inhabited

/-- **A wiring error.** -/
inductive WiringError
  | importCycle (path : List ModuleName)
  | differingSettings (module : ModuleName) (first second : ModuleSite)
      (settings : List (String × Option String × Option String))
  | duplicateSetting (setting : String) (module : ModuleName)
      (first second : Location)
  | replacementMissingExports (original replacement : ModuleName)
      (missing : List KeyName)
  | duplicateReplacement (original : ModuleName) (first second : Location)
  | replacementUnmatched (original : ModuleName) (location : Location)
  | valueFailed (module : ModuleName) (key : KeyName) (location : Location)
  | nestedKeyed (module : ModuleName) (outer inner : TypeId)
  | unreadPrefix (controller : KeyName) (module : ModuleName) (path : String)
      (transports : List TypeId) (location : Location)
  | timerOverride (location : Location)
  | runtimeOverride (location : Location)
  | overrideUnmatched (key : KeyName) (keyed : Option ModuleName)
      (location : Location)
  | overrideKind (key : KeyName) (expected found : BindingKind)
      (location : Location)
  | overrideAmbiguous (key : KeyName) (found : List ModuleName)
      (location : Location)
  | overrideModuleAmbiguous (module : TypeId) (candidates : List ModuleName)
      (location : Location)
  | qualifiedRoleContribution (key : KeyName) (module : ModuleName)
      (location : Location)
  | singleRoleBinding (key : KeyName) (module : ModuleName) (location : Location)
  | reexportAmbiguous (module : ModuleName) (key : KeyName)
      (sources : List ModuleName) (location : Location)
  | reexportNotVisible (module : ModuleName) (key : KeyName) (location : Location)
  | exportNotBound (module : ModuleName) (key : KeyName) (imported : Bool)
      (location : Location)
  | keyedInput (module : ModuleName) (key : KeyName) (location : Location)
  | duplicateBinding (key : KeyName) (module : ModuleName) (first second : Location)
  | kindMix (key : KeyName) (module : ModuleName) (single collection : Location)
  | controllerProvided (key : KeyName) (controller : TypeId) (module : ModuleName)
      (location : Location)
  | ambiguous (key : KeyName) (consumer : Consumer) (module : ModuleName)
      (sources : List (ModuleName × Location))
  | danglingAlias (source target : KeyName) (module : ModuleName)
      (location : Location)
  | duplicateReadiness (key : KeyName) (module : ModuleName)
      (first second : Location)
  | inputConflict (key : KeyName) (first second : InputOrigin)
  | missing (key : KeyName) (consumer : Consumer) (module : ModuleName)
  | controllerRead (controller : KeyName) (consumer : Consumer)
      (module controllerModule : ModuleName)
  | cycle (path : List (KeyName × ModuleName))
  | scopeViolation (binding : KeyName) (declared : ScopeKind) (byClosure : Bool)
      (controller : Bool) (module : ModuleName) (path : List PathStep)
  | hooksOnPerExecution (binding : KeyName) (module : ModuleName)
  | closureScopeViolation (closure : ClosureDep) (handler : Owner)
      (transport : TypeId) (path : List PathStep) (location : Location)
  | closureNeedsExecution (closure : Owner) (path : List PathStep)
      (location : Option Location)
  | inputNotSeeded (handler : Owner) (transport : TypeId) (input : KeyName)
      (seeder : TypeId) (steps : List PathStep)
  | knobWithoutTimer (knob : String)
  | zeroDefault (knob : String) (location : Location)
  | zeroBound (item : BoundItem) (binding : Option KeyName) (module : ModuleName)
      (location : Location)
  | boundWithoutTimer (item : BoundItem) (binding : Option BindingId)
      (module : ModuleId) (location : Location)
  | backoffWithoutTimer (binding : BindingId) (location : Location)

/-- **Why a lazy load is refused** before it is wired. -/
inductive LoadRefusal
  | controllers (module : ModuleName)
  | middleware (module : ModuleName)
  | input (module : ModuleName) (key : KeyName)
  | globalExport (module : ModuleName) (key : KeyName)
  | contribution (module : ModuleName) (key : KeyName)
deriving DecidableEq, Inhabited

/-- The source list of an ambiguity, as a report names it. -/
def ambiguousSources (g : Graph) (list : List (ModuleId × BindingId)) :
    List (ModuleName × Location) :=
  list.map fun (m, id) => (g.moduleName m, (g.binding id).record.location)

/-- `handler_name` as the owner of a handler's parameters. -/
def handlerOwner (h : HandlerRecord) : Owner := .handler h.controller h.decl.name

end Ulo
