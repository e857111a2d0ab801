import Ulo.Graph.Freeze

/-!
# Wiring

`wire` registers the root and all it imports, freezes them into a graph and
runs the checks, collecting every error; a graph without errors gets its
connect order. `wireLazy` does the same for a module loaded into a wired graph:
it refuses what would change the base graph's own readers, and extends the base
by the modules that are new.
-/

namespace Ulo

/-- What the builder was given beside the root module. -/
structure WireEnv where
  timer : Option ℕ := none
  runtime : Option ℕ := none
  knobsSet : List String := []
  zeroDefaults : List (String × Location) := []
deriving DecidableEq, Inhabited

/-! ## Modules and bindings -/

/-- What `check_modules` reports of one export. -/
def exportError (g : Graph) (e : ModuleId × ExportRecord) : Option WiringError :=
  let name := g.moduleName e.1
  let key : KeyName := ⟨e.2.key, .single⟩
  if e.2.reexport then
    match g.lookup e.1 e.2.key with
    | some (.binding _) => none
    | some (.ambiguous list) => some (.reexportAmbiguous name key
        (list.map fun (source, _) => g.moduleName source) e.2.location)
    | some (.input _) | none => some (.reexportNotVisible name key e.2.location)
  else if (ownBinding g e.1 e.2.key).isNone then
    let imported := match g.lookup e.1 e.2.key with
      | some (.binding _) | some (.ambiguous _) => true
      | _ => false
    some (.exportNotBound name key imported e.2.location)
  else none

/-- **`check_modules`.** -/
def checkModules (g : Graph) (d : Declared) : List WiringError :=
  d.exports.filterMap (exportError g) ++
    d.inputs.filterMap fun (m, input) =>
      if (g.module m).keyed.isSome then
        some (.keyedInput (g.moduleName m) ⟨input.key, .single⟩ input.location)
      else none

/-- The state of the search for keys bound twice in one module. -/
structure DuplicateSearch where
  first : Map Key BindingId := ∅
  pairs : List (BindingId × BindingId) := []
  errors : List WiringError := []

/-- One key of one single binding of a module. -/
def duplicateKey (g : Graph) (module : FrozenModule) (s : DuplicateSearch)
    (entry : BindingId × Key) : DuplicateSearch :=
  match s.first.lookup entry.2 with
  | some earlier =>
    if earlier = entry.1 ∨ (earlier, entry.1) ∈ s.pairs then s
    else
      let error := WiringError.duplicateBinding ⟨entry.2, .single⟩ module.name
        (g.binding earlier).record.location (g.binding entry.1).record.location
      { s with pairs := (earlier, entry.1) :: s.pairs, errors := s.errors ++ [error] }
  | none => { s with first := s.first.insert entry.2 entry.1 }

/-- The keys of a module's single bindings, in order. -/
def singleKeys (g : Graph) (module : FrozenModule) : List (BindingId × Key) :=
  module.bindings.flatMap fun id =>
    if (g.binding id).record.kind = .single then
      (g.binding id).record.keys.map fun key => (id, key)
    else []

/-- The keys bound twice in one module. -/
def duplicateErrors (g : Graph) (module : FrozenModule) : List WiringError :=
  ((singleKeys g module).foldl (duplicateKey g module) {}).errors

/-- A single binding under the key of a collection, where either side is new:
once for each key, role types apart. -/
def kindMixErrors (g : Graph) (d : Declared) : List WiringError :=
  let roles := roleTypes g g.bindings
  let singles := g.bindings.filter (·.record.kind = .single)
  let entries := singles.flatMap fun b => b.record.keys.map fun key => (b, key)
  (entries.foldl (fun (s : List Key × List WiringError) (b, key) =>
    if key.ty ∈ roles ∨ key ∈ s.1 then s
    else
      match g.collections.lookup key with
      | none => s
      | some contributions =>
        if d.firstBinding ≤ b.id ∨ contributions.any (d.firstBinding ≤ ·) then
          (key :: s.1, s.2 ++ (contributions.head?.map fun first =>
            WiringError.kindMix ⟨key, .single⟩ (g.moduleName b.origin) b.record.location
              (g.binding first).record.location).toList)
        else s) ([], [])).2

/-- What `check_bindings` reports of an alias. -/
def aliasError (g : Graph) (b : FrozenBinding) : Option WiringError :=
  match b.record.recipe with
  | .alias target =>
    match g.lookup b.origin target with
    | some (.binding _) => none
    | some (.ambiguous list) => some (.ambiguous ⟨target, .single⟩ (.alias b.id)
        (g.moduleName b.origin) (ambiguousSources g list))
    | some (.input _) | none => some (.danglingAlias (g.keyName b.id) ⟨target, .single⟩
        (g.moduleName b.origin) b.record.location)
  | _ => none

/-- A readiness check written over another. -/
def readinessError (g : Graph) (b : FrozenBinding) : Option WiringError :=
  b.record.replacedReady.head?.bind fun first =>
    ((b.record.replacedReady[1]?).or (b.record.ready.map (·.location))).map fun second =>
      .duplicateReadiness (g.keyName b.id) (g.moduleName b.origin) first second

/-- What `check_bindings` reports of one binding. -/
def bindingErrors (g : Graph) (b : FrozenBinding) : List WiringError :=
  (if b.record.controller then none
   else b.record.controllerType.map fun controller =>
    WiringError.controllerProvided (g.keyName b.id) controller (g.moduleName b.origin)
      b.record.location).toList ++
    (aliasError g b).toList ++ (readinessError g b).toList

/-- The single bindings under a key. -/
def singlesUnder (g : Graph) (key : Key) : List FrozenBinding :=
  g.bindings.filter fun b => b.record.kind = .single ∧ key ∈ b.record.keys

/-- What `check_bindings` reports of a module's input: another declaration of
its key, and any binding under it. -/
def inputErrors (g : Graph) (d : Declared) : List WiringError :=
  d.inputs.zipIdx.flatMap fun ((m, input), i) =>
    let key : KeyName := ⟨input.key, .single⟩
    (((d.inputs.take i).find? (·.2.key = input.key)).map fun (_, first) =>
      WiringError.duplicateBinding key (g.moduleName m) first.location
        input.location).toList ++
    (singlesUnder g input.key).map fun b =>
      .duplicateBinding key (g.moduleName b.origin) input.location b.record.location

/-- What `check_bindings` reports of a transport's input: a module's or another
transport's declaration with other seeders, and any binding under its key. -/
def transportInputErrors (g : Graph) (d : Declared) : List WiringError :=
  d.transportInputs.zipIdx.flatMap fun (input, i) =>
    let key : KeyName := ⟨input.key, .single⟩
    let earlier := d.transportInputs.take i
    ((d.inputs.filter fun (_, other) =>
        other.key = input.key ∧ other.seeder ∉ input.seeders).map fun (m, other) =>
      WiringError.inputConflict key input.origin
        (.module (g.moduleName m) [other.seeder] other.location)) ++
    ((earlier.filter fun other =>
        other.key = input.key ∧ other.sameSeeders input.seeders = false).map fun other =>
      .inputConflict key other.origin input.origin) ++
    if d.inputs.any (·.2.key = input.key) ∨ earlier.any (·.key = input.key) then []
    else (singlesUnder g input.key).map fun b =>
      .inputConflict key input.origin (.binding (g.moduleName b.origin) b.record.location)

/-- **`check_bindings`.** -/
def checkBindings (g : Graph) (d : Declared) : List WiringError :=
  (g.modules.drop d.firstModule).flatMap (duplicateErrors g) ++ kindMixErrors g d ++
    (g.bindings.drop d.firstBinding).flatMap (bindingErrors g) ++ inputErrors g d ++
    transportInputErrors g d

/-! ## Reads of controllers -/

/-- The controller a single read in `m` leads to. -/
def controllerOf (g : Graph) (m : ModuleId) (key : Key) : Option BindingId :=
  match g.lookup m key with
  | some (.binding id) => if (g.binding id).record.controller then some id else none
  | _ => none

/-- A controller read by anything but its transport. -/
def controllerReadError (g : Graph) (m : ModuleId) (consumer : Consumer)
    (controller : BindingId) : WiringError :=
  .controllerRead (g.keyName controller) consumer (g.moduleName m)
    (g.moduleName (g.binding controller).origin)

/-- The controllers a closure reads. -/
def closureControllerReads (g : Graph) (m : ModuleId) (owner : Owner) (d : Dependencies) :
    List WiringError :=
  d.list.flatMap fun dep => dep.reads.filterMap fun r =>
    match r.kind with
    | .single key =>
      (controllerOf g m key).map (controllerReadError g m (.point owner dep.label))
    | _ => none

/-- The controllers a binding that is none reads. -/
def bindingControllerReads (g : Graph) (b : FrozenBinding) : List WiringError :=
  (b.edges.filterMap fun e =>
    match e.target with
    | .binding id =>
      if (g.binding id).record.controller then
        some (controllerReadError g b.origin (.construction b.id e.dependency) id)
      else none
    | _ => none) ++
  (match b.record.recipe with
    | .alias target =>
      ((controllerOf g b.origin target).map
        (controllerReadError g b.origin (.alias b.id))).toList
    | _ => []) ++
  (b.record.ready.toList.flatMap fun ready =>
    closureControllerReads g b.origin (.readiness b.id) ready.dependencies) ++
  b.record.hooks.flatMap fun hook =>
    closureControllerReads g b.origin (.hook hook.kind b.id) hook.dependencies

/-- **`check_controller_reads`.** -/
def checkControllerReads (g : Graph) (d : Declared) : List WiringError :=
  ((g.bindings.drop d.firstBinding).filter fun b => !b.record.controller).flatMap
    (bindingControllerReads g) ++
  ((g.modules.drop d.firstModule).flatMap fun m => m.hooks.flatMap fun hook =>
    closureControllerReads g m.id (.moduleHook hook.kind m.id) hook.dependencies) ++
  (g.handlers.drop d.firstHandler).flatMap fun h => h.closureDeps.flatMap fun c =>
    closureControllerReads g h.module (.enhancerClosure h.controller h.decl.name)
      c.dependencies

/-! ## Bounds and the timer -/

/-- `written_bound`: a bound of zero, and a bound without a timer to hold it. -/
def writtenBound (bound : Bound) (timed : Bool) (zero untimed : WiringError) :
    Option WiringError :=
  match bound with
  | .after ms => if ms = 0 then some zero else if timed then none else some untimed
  | .default | .unbounded => none

/-- One written bound of a binding. -/
def bindingBound (g : Graph) (timed : Bool) (b : FrozenBinding) (item : BoundItem)
    (bound : Bound) (location : Location) : Option WiringError :=
  writtenBound bound timed
    (.zeroBound item (some (g.keyName b.id)) (g.moduleName b.origin) location)
    (.boundWithoutTimer item (some b.id) b.origin location)

/-- The bounds of a readiness check, and its backoff without a timer. -/
def readyBounds (g : Graph) (timed : Bool) (b : FrozenBinding) (ready : ReadyRecord) :
    List WiringError :=
  (if !timed && ready.backoff ≠ 0 then
    [.backoffWithoutTimer b.id (ready.backoffLocation.getD ready.location)] else []) ++
  (bindingBound g timed b .readinessWhole ready.whole
    (ready.wholeAt.getD ready.location)).toList ++
  (bindingBound g timed b .readinessAttempt ready.attempt
    (ready.attemptAt.getD ready.location)).toList

/-- The bounds one binding writes. -/
def bindingBounds (g : Graph) (timed : Bool) (b : FrozenBinding) : List WiringError :=
  (bindingBound g timed b .construction b.record.constructBound
    (b.record.constructBoundAt.getD b.record.location)).toList ++
  b.record.ready.toList.flatMap (readyBounds g timed b) ++
  b.record.hooks.filterMap fun hook =>
    bindingBound g timed b (.hook hook.kind) hook.bound (hook.boundAt.getD hook.location)

/-- **`check_environment`**: the builder's knobs and defaults when the
application is wired, and every bound the wiring adds. -/
def checkEnvironment (g : Graph) (env : WireEnv) (d : Declared) : List WiringError :=
  let timed := env.timer.isSome
  (if !timed && d.firstModule = 0 then env.knobsSet.map .knobWithoutTimer else []) ++
  (if d.firstModule = 0 then
    env.zeroDefaults.map fun (knob, location) => .zeroDefault knob location else []) ++
  (g.bindings.drop d.firstBinding).flatMap (bindingBounds g timed) ++
  (g.modules.drop d.firstModule).flatMap fun m => m.hooks.filterMap fun hook =>
    writtenBound hook.bound timed
      (.zeroBound (.hook hook.kind) none m.name (hook.boundAt.getD hook.location))
      (.boundWithoutTimer (.hook hook.kind) none m.id (hook.boundAt.getD hook.location))

/-- A binding of the timer module. -/
def timerRecord (ty : TypeId) (object : ℕ) : BindingRecord :=
  { primary := ⟨ty, unitType⟩, scope := .singleton, recipe := .value ⟨object, ty⟩ }

/-- The module the builder adds for its timer: a global one that binds and
exports the timer, and the runtime when there is one. -/
def timerNode (timer : ℕ) (runtime : Option ℕ) : ModuleNode :=
  let bound := (timerType, timer) :: (runtime.map fun object => (runtimeType, object)).toList
  { identity := { ty := timerModuleType }
    global := true
    bindings := bound.map fun (ty, object) => timerRecord ty object
    exports := bound.map fun (ty, _) => { key := ⟨ty, unitType⟩ } }

/-- **`add_timer_module`**: the node comes last and is collected first. -/
def addTimerModule (r : Registry) (timer : ℕ) (runtime : Option ℕ) : Registry :=
  { r with
    nodes := r.nodes ++ [timerNode timer runtime]
    imports := r.imports ++ [[]]
    postOrder := r.nodes.length :: r.postOrder }

/-! ## Wiring -/

/-- The graph with its tables and edges. -/
def resolvedGraph (g : Graph) (d : Declared) : Graph :=
  (resolveDependencies (buildTables g d) d).1

/-- The graph with its roles, and the scopes they decide. -/
def decidedGraph (g : Graph) (d : Declared) : Graph :=
  needsExecution (assignRoles (resolvedGraph g d))

/-- **The graph the checks leave behind**, with the scopes of its closures. -/
def settledGraph (g : Graph) (d : Declared) : Graph :=
  (closureScopes (decidedGraph g d) d).1

/-- **`check`**: the passes in the source's order. Each one reads the graph as
the passes before it left it. -/
def check (g : Graph) (d : Declared) (env : WireEnv) (steps : Steps) : Graph × Steps :=
  let tabled := buildTables g d
  let resolved := resolvedGraph g d
  let decided := decidedGraph g d
  let settled := settledGraph g d
  (settled,
    { modules := steps.modules ++ checkModules tabled d
      bindings := steps.bindings ++ checkBindings tabled d
      dependencies := steps.dependencies ++ (resolveDependencies tabled d).2 ++
        checkControllerReads resolved d
      cycles := steps.cycles ++ dependencyCycles resolved
      scopes := steps.scopes ++ checkScopes decided ++ (closureScopes decided d).2 ++
        checkClosures settled d ++ checkInputs settled
      environment := steps.environment ++ checkEnvironment settled env d })

/-- The registry of an application: what its root reaches, and the timer. -/
def registerApp (cat : Catalog) (root : Fin cat.size) (env : WireEnv)
    (plan : Option (TestPlan cat.size)) : Registry :=
  let r := registerAll cat root plan
  match env.timer with
  | some timer => addTimerModule r timer env.runtime
  | none => r

/-- **`wire`**: the graph of an application with its connect order, or every
error the steps found. -/
def wire (cat : Catalog) (root : Fin cat.size) (env : WireEnv)
    (plan : Option (TestPlan cat.size)) : Except (List WiringError) Graph :=
  let (frozen, d, steps) := freeze {} (registerApp cat root env plan) none plan
  let (g, steps) := check { frozen with root := d.root } d env steps
  if steps.errors.isEmpty then .ok { g with connectOrder := connectOrder g }
  else .error steps.errors

/-! ## Lazy loads -/

/-- Whether a declaration reads a key as a collection. -/
def Dependencies.readsCollection (d : Dependencies) (key : Key) : Bool :=
  d.reads.any (·.kind = .collection key)

/-- **`reads_collection`**: whether the base graph reads a key as a collection,
as far as the source looks – constructions, readiness checks, hooks and
handlers. -/
def readsCollection (base : Graph) (key : Key) : Bool :=
  (base.bindings.any fun b =>
    b.edges.any (·.target = .collection key) ||
      b.record.ready.any (·.dependencies.readsCollection key) ||
      b.record.hooks.any (·.dependencies.readsCollection key)) ||
  (base.modules.any fun m => m.hooks.any (·.dependencies.readsCollection key)) ||
  base.handlers.any fun h =>
    h.decl.roleKeys.contains key || h.decl.dependencies.readsCollection key ||
      h.closureDeps.any (·.dependencies.readsCollection key)

/-- The first contribution of a node that the base graph would see. -/
def contributionRefusal (base : Graph) (name : ModuleName) (node : ModuleNode) :
    Option LoadRefusal :=
  (node.bindings.find? fun record => record.kind = .collection ∧
      (recordKey record ∈ base.collections ∨ readsCollection base (recordKey record))).map
    fun record => .contribution name ⟨recordKey record, .collection⟩

/-- Why one node of a load is refused. -/
def nodeRefusal (base : Graph) (name : ModuleName) (node : ModuleNode) :
    Option LoadRefusal :=
  if node.controllers ≠ [] then some (.controllers name)
  else if node.metas ≠ [] then some (.middleware name)
  else
    (node.inputs.head?.map fun input => LoadRefusal.input name ⟨input.key, .single⟩).or <|
    (if node.global then node.exports.head?.map fun e =>
        .globalExport name ⟨boundaryKey node.keyed e.key, .single⟩
      else none).or <|
    contributionRefusal base name node

/-- **`refusal`**: the first node, in collection order, that a load may not
bring. -/
def refusal (base : Graph) (r : Registry) : Option LoadRefusal :=
  r.postOrder.findSome? fun index =>
    nodeRefusal base (Registry.nameOf (r.names base) index) (r.node index)

/-- **`reload_differs`**: a load of a module the graph has compares its
settings with those it was wired with. -/
def reloadDiffers {n : ℕ} (base : Graph) (existing : ModuleId) (m : ModuleDecl n)
    (location : Location) : List WiringError :=
  let frozen := base.module existing
  ((Differing.of (.existing existing) (frozen.settings, frozen.site)
      (m.settings, .load location)).map (Differing.toError [] base)).toList ++
    (laterRepeats [] (.existing existing) frozen.settings m.settings).map fun (_, r) =>
      .duplicateSetting r.name frozen.name r.first r.second

/-- **A wired load**: the extended graph, the loaded module, and the singletons
that connecting it builds. -/
structure LazyWiring where
  graph : Graph
  module : ModuleId
  singletons : List BindingId

/-- Why a load was not wired. -/
inductive LazyFailure
  | wiring (errors : List WiringError)
  | refused (refusal : LoadRefusal)

/-- The number of the next load. -/
def nextLoad (base : Graph) : ℕ :=
  ((base.modules.filterMap (·.loaded)).max?.map (· + 1)).getD 0

/-- The extended graph of a load, with what its checks found. -/
def extend (base : Graph) (r : Registry) (env : WireEnv) : Graph × Declared × Steps :=
  let (frozen, d, steps) := freeze (n := 0) base r (some (nextLoad base)) none
  let (g, steps) := check frozen d env steps
  (g, d, steps)

/-- **`wire_lazy`.** -/
def wireLazy (cat : Catalog) (base : Graph) (m : Fin cat.size) (env : WireEnv)
    (location : Location) : Except LazyFailure LazyWiring :=
  match base.byIdentity (cat.module m).identity with
  | some existing =>
    let errors := reloadDiffers base existing (cat.module m) location
    if errors.isEmpty then .ok ⟨base, existing, []⟩ else .error (.wiring errors)
  | none =>
    let r := registerLazy cat base m location
    match refusal base r with
    | some refusal => .error (.refused refusal)
    | none =>
      let (g, d, steps) := extend base r env
      if steps.errors.isEmpty then
        let order := connectOrder g
        .ok ⟨{ g with connectOrder := order }, d.root, order.filter (d.firstBinding ≤ ·)⟩
      else .error (.wiring steps.errors)

end Ulo
