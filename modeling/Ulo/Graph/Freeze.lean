import Ulo.Graph.Order

/-!
# Freezing a registry

Freezing turns the registered nodes into modules and bindings of the graph, in
collection order and under the next free ids. Before that it settles what a
test plan changes – overridden recipes, replaced collections – and reports what
registration alone can tell: settings that differ, values that failed,
replacements that do not fit.

A failed `try_value` is paired with its record before any override runs, and
reported when the record still fails afterwards and its collection is not one
that the plan replaces as a whole.
-/

namespace Ulo

/-- The type of `dyn Timer`. -/
def timerType : TypeId := 1

/-- The type of `dyn Runtime`. -/
def runtimeType : TypeId := 2

/-- The type of the module the builder adds for its timer. -/
def timerModuleType : TypeId := 3

/-! ## What registration alone can tell -/

section Reports

variable (names : List ModuleName) (base : Graph)

/-- The name of what an import led to. -/
def importName : Import → ModuleName
  | .new node => Registry.nameOf names node
  | .existing id => base.moduleName id

/-- A site as a report names it. -/
def siteName : Site → ModuleSite
  | .root => .root
  | .load location => .load location
  | .import_ importer location => .import_ (importName names base importer) location

/-- `Differing::into_error`. -/
def Differing.toError (d : Differing) : WiringError :=
  .differingSettings (importName names base d.module) (siteName names base d.first)
    (siteName names base d.second) d.settings

/-- A setting that a later naming of a module wrote twice. -/
def repeatError (r : Import × Repeat) : WiringError :=
  .duplicateSetting r.2.name (importName names base r.1) r.2.first r.2.second

end Reports

/-- The exports of a replaced module that its replacement does not offer. -/
def replacedErrors (names : List ModuleName) (r : Registry) : List WiringError :=
  r.replaced.filterMap fun replaced =>
    r.nodes[replaced.replacement]?.bind fun node =>
      let offered := node.exports.map fun e => boundaryKey node.keyed e.key
      let missing := replaced.exports.filter (· ∉ offered)
      if missing.isEmpty then none
      else some (.replacementMissingExports ⟨replaced.original, 0⟩
        (Registry.nameOf names replaced.replacement) (missing.map (⟨·, .single⟩)))

/-- A second replacement of one identity, and one that matched no module. -/
def replacementErrors {n : ℕ} (r : Registry) (replacements : List (Replacement n)) :
    List WiringError :=
  replacements.zipIdx.filterMap fun (replacement, position) =>
    match (replacements.take position).find? (·.original = replacement.original) with
    | some first => some (.duplicateReplacement ⟨replacement.original, 0⟩ first.location
        replacement.location)
    | none =>
      if r.replaced.any (·.original = replacement.original) then none
      else some (.replacementUnmatched ⟨replacement.original, 0⟩ replacement.location)

/-- Each failed record with the failure its `try_value` recorded. -/
def failures (r : Registry) : List (ℕ × ℕ × ValueFailure) :=
  r.nodes.zipIdx.flatMap fun (node, index) =>
    let failed := node.bindings.zipIdx.filterMap fun (record, position) =>
      if record.recipe.isFailed then some position else none
    (failed.zip node.failures).map fun (position, failure) => (index, position, failure)

/-- The failures to report: those whose record still fails and that no
replaced collection removes. -/
def failureErrors (names : List ModuleName) (r : Registry) (replacedKeys : List Key)
    (found : List (ℕ × ℕ × ValueFailure)) : List WiringError :=
  found.filterMap fun (index, position, failure) =>
    (r.node index).bindings[position]?.bind fun record =>
      if record.recipe.isFailed = false then none
      else if record.kind = .collection ∧ recordKey record ∈ replacedKeys then none
      else some (.valueFailed (Registry.nameOf names index)
        ⟨recordKey record, record.kind⟩ failure.location)

/-! ## Overrides -/

/-- The record with the override's recipe in place of its own. -/
def BindingRecord.override (r : BindingRecord) (ov : Override) : BindingRecord :=
  { r with
    recipe := ov.recipe.toRecipe
    dependencies := ov.dependencies
    aliasShape := by cases ov.recipe <;> simp [OverrideRecipe.toRecipe] }

/-- The record of an overridden `also_as` key, split off from its binding. -/
def Override.splitRecord (ov : Override) (r : BindingRecord) : BindingRecord :=
  { primary := unqualified ov.key
    qualifier := r.qualifier
    scope := r.scope
    recipe := ov.recipe.toRecipe
    dependencies := ov.dependencies
    location := ov.location
    aliasShape := by cases ov.recipe <;> simp [OverrideRecipe.toRecipe] }

/-- The record without one of its second keys. -/
def BindingRecord.withoutAlso (r : BindingRecord) (key : Key) : BindingRecord :=
  { r with also := r.also.filter fun a => a.key.withQualifier r.qualifier ≠ key }

/-- **`replace_recipe`**: an override of the primary key replaces the recipe,
one of a second key gets a binding of its own. -/
def replaceRecipe (node : ModuleNode) (position : ℕ) (ov : Override) : ModuleNode :=
  match node.bindings[position]? with
  | none => node
  | some record =>
    if recordKey record = ov.key then
      { node with bindings := node.bindings.set position (record.override ov) }
    else
      { node with bindings :=
          node.bindings.set position (record.withoutAlso ov.key) ++ [ov.splitRecord record] }

/-- `one_instance`: the only node of a module type, or the error. -/
def oneInstance (r : Registry) (names : List ModuleName) (ty : TypeId)
    (qualifier : Option TypeId) (ov : Override) : WiringError ⊕ List ℕ :=
  let found := r.postOrder.filter fun node =>
    (r.node node).identity.ty = ty ∧
      (qualifier = none ∨ (r.node node).identity.qualifier = qualifier)
  match found with
  | [one] => .inr [one]
  | [] => .inl (.overrideUnmatched ⟨ov.key, .single⟩ none ov.location)
  | several =>
    .inl (.overrideModuleAmbiguous ty (several.map (Registry.nameOf names)) ov.location)

/-- The nodes an override names, or the error. -/
def overrideModules (r : Registry) (names : List ModuleName) (ov : Override) :
    WiringError ⊕ List ℕ :=
  match ov.target with
  | .unscoped | .everywhere => .inr r.postOrder
  | .moduleType ty => oneInstance r names ty none ov
  | .moduleKeyed ty qualifier => oneInstance r names ty (some qualifier) ov
  | .module identity =>
    match r.byIdentity identity with
    | some node => .inr [node]
    | none => .inl (.overrideUnmatched ⟨ov.key, .single⟩ none ov.location)

/-- The single records under a key among some nodes. -/
def overrideMatches (r : Registry) (modules : List ℕ) (key : Key) : List (ℕ × ℕ) :=
  modules.flatMap fun module =>
    (r.node module).bindings.zipIdx.filterMap fun (record, position) =>
      if record.kind = .single ∧ key ∈ record.keys then some (module, position) else none

/-- `keyed_binder`: the keyed module whose own binding an override by its
qualified key would miss. -/
def keyedBinder (r : Registry) (names : List ModuleName) (modules : List ℕ) (key : Key) :
    Option ModuleName :=
  if key.isUnqualified then none
  else
    (modules.find? fun module =>
      (r.node module).keyed = some key.qualifier ∧
        (r.node module).bindings.any fun record =>
          record.kind = .single ∧ unqualified key ∈ record.keys).map
      (Registry.nameOf names)

/-- The error of an override that matches no single binding. -/
def unmatchedError (r : Registry) (names : List ModuleName) (modules : List ℕ)
    (ov : Override) : WiringError :=
  if modules.any fun module => (r.node module).bindings.any fun record =>
      record.kind = .collection ∧ recordKey record = ov.key then
    .overrideKind ⟨ov.key, .single⟩ .collection .single ov.location
  else
    .overrideUnmatched ⟨ov.key, .single⟩ (keyedBinder r names modules ov.key) ov.location

/-- `Vec::dedup`: drops an element that equals the one before it. -/
def dedup (names : List ModuleName) : List ModuleName := names.destutter (· ≠ ·)

/-- One override of the plan. -/
def applyOverride (names : List ModuleName) (s : Registry × List WiringError)
    (ov : Override) : Registry × List WiringError :=
  let (r, errors) := s
  if ov.key = ⟨timerType, unitType⟩ then (r, errors ++ [.timerOverride ov.location])
  else if ov.key = ⟨runtimeType, unitType⟩ then (r, errors ++ [.runtimeOverride ov.location])
  else
    match overrideModules r names ov with
    | .inl error => (r, errors ++ [error])
    | .inr modules =>
      let found := overrideMatches r modules ov.key
      if found.isEmpty then (r, errors ++ [unmatchedError r names modules ov])
      else if 1 < found.length ∧ ov.target = .unscoped then
        (r, errors ++ [.overrideAmbiguous ⟨ov.key, .single⟩
          (dedup (found.map fun (module, _) => Registry.nameOf names module)) ov.location])
      else
        (found.foldl (fun r (module, position) =>
          { r with nodes := r.nodes.modify module (replaceRecipe · position ov) }) r, errors)

/-- **`apply_overrides`.** -/
def applyOverrides (r : Registry) (names : List ModuleName) (overrides : List Override) :
    Registry × List WiringError :=
  overrides.foldl (applyOverride names) (r, [])

/-- Whether a record contributes to a key. -/
def contributesTo (key : Key) (record : BindingRecord) : Bool :=
  record.kind = .collection ∧ recordKey record = key

/-- **`remove_contributions`**: the records that stay, with the controllers and
the enhancer marks moved along. -/
def removeContributions (node : ModuleNode) (key : Key) : ModuleNode :=
  let shift (position : ℕ) : ℕ :=
    if position < node.bindings.length then
      position - (node.bindings.take position).countP (contributesTo key)
    else position
  let gone (position : ℕ) : Bool := (node.bindings[position]?.map (contributesTo key)).getD false
  { node with
    bindings := node.bindings.filter fun r => !contributesTo key r
    controllers := node.controllers.map fun c => { c with binding := shift c.binding }
    enhancers := (node.enhancers.filter fun position => !gone position).map shift }

/-- An item of a replaced collection, a value of the collection's type. -/
def CollectionOverride.itemRecord (co : CollectionOverride) (item : Instance) :
    BindingRecord :=
  { primary := unqualified co.key
    qualifier := co.key.qualifier
    kind := .collection
    scope := .singleton
    recipe := .value item
    location := co.location }

/-- One replaced collection of the plan: its contributions go, and its items
become contributions of the root. -/
def applyCollection (s : Registry × List WiringError) (co : CollectionOverride) :
    Registry × List WiringError :=
  let (r, errors) := s
  let removed := (r.nodes.map fun node => node.bindings.countP (contributesTo co.key)).sum
  let nodes := r.nodes.map (removeContributions · co.key)
  if removed = 0 then
    let single := nodes.any fun node => node.bindings.any fun record =>
      record.kind = .single ∧ co.key ∈ record.keys
    ({ r with nodes := nodes }, errors ++ [
      if single then .overrideKind ⟨co.key, .collection⟩ .single .collection co.location
      else .overrideUnmatched ⟨co.key, .collection⟩ none co.location])
  else
    ({ r with nodes := nodes.modify 0 fun node =>
        { node with bindings := node.bindings ++ co.items.map co.itemRecord } }, errors)

/-- **`apply_collections`.** -/
def applyCollections (r : Registry) (collections : List CollectionOverride) :
    Registry × List WiringError :=
  collections.foldl applyCollection (r, [])

/-! ## Freezing the nodes -/

/-- The errors of the six steps of `wire`, in the order they are reported. -/
structure Steps where
  modules : List WiringError := []
  bindings : List WiringError := []
  dependencies : List WiringError := []
  cycles : List WiringError := []
  scopes : List WiringError := []
  environment : List WiringError := []

/-- `into_errors`. -/
def Steps.errors (s : Steps) : List WiringError :=
  s.modules ++ s.bindings ++ s.dependencies ++ s.cycles ++ s.scopes ++ s.environment

/-- The graph as far as it is frozen. -/
structure Freezing where
  graph : Graph
  declared : Declared
  contributions : Map Key (List BindingId) := ∅
  /-- The transports whose inputs are declared. -/
  transports : List TypeId := []
  moduleErrors : List WiringError := []
  bindingErrors : List WiringError := []

/-- The declaration a transport makes of one of its inputs. -/
def transportInput (decl : HandlerDecl) (input : InputKey) : InputDecl where
  key := input.key
  seeders := decl.transport :: input.also.filter (· ≠ decl.transport)
  origin := .transport decl.transport input.location

/-- Merges a transport's declaration: an earlier module's declaration naming
only seeders of this one is this one, and carries every seeder. -/
def mergeInput (declaration : InputDecl) (inputs : Map Key InputDecl) :
    Map Key InputDecl :=
  let entry := (inputs.lookup declaration.key).getD declaration
  let named := entry.seeders.all (declaration.seeders.contains ·)
  inputs.insert declaration.key
    (if named && entry.origin.isModule then { entry with seeders := declaration.seeders }
     else entry)

/-- **`declare_transport_inputs`**: the inputs of a transport, once. -/
def declareTransportInputs (s : Freezing) (decl : HandlerDecl) : Freezing :=
  if decl.transport ∈ s.transports then s
  else
    let declarations := decl.inputs.map (transportInput decl)
    let inputs := declarations.foldl (fun inputs d => mergeInput d inputs) s.graph.inputs
    let transportInputs := s.declared.transportInputs ++ declarations
    { s with
      transports := s.transports ++ [decl.transport]
      graph := { s.graph with inputs := inputs }
      declared := { s.declared with transportInputs := transportInputs } }

/-- The role a record is registered with. -/
def initialRole (node : ModuleNode) (slot : ℕ) (record : BindingRecord) : Role :=
  if record.controller then .controller
  else if slot ∈ node.enhancers then .enhancer
  else .provider

/-- The binding frozen from the record in `slot` of a node. -/
def frozenBinding (node : ModuleNode) (id : ModuleId) (first slot : ℕ)
    (record : BindingRecord) : FrozenBinding where
  id := first + slot
  origin := id
  record := record
  role := initialRole node slot record

/-- A node's bindings under the ids from `first` on. -/
def frozenBindings (node : ModuleNode) (id : ModuleId) (first : ℕ) : List FrozenBinding :=
  node.bindings.mapIdx (frozenBinding node id first)

/-- Adds a contribution to those of this wiring. -/
def addContribution (contributions : Map Key (List BindingId)) (b : FrozenBinding) :
    Map Key (List BindingId) :=
  if b.record.kind = .collection then
    let key := recordKey b.record
    contributions.insert key ((contributions.lookup key).getD [] ++ [b.id])
  else contributions

/-- A prefix that no mounted transport reads. -/
def prefixErrors (g : Graph) (name : ModuleName) (binding : BindingId)
    (c : ControllerRecord) (decls : List HandlerDecl) : List WiringError :=
  match c.mountPrefix with
  | some (path, location) =>
    if decls.any (·.readsPrefix) then []
    else [.unreadPrefix (g.keyName binding) name path (decls.map (·.transport)).eraseDups location]
  | none => []

/-- Mounts one controller of the node `id`, whose bindings start at `first`. -/
def mountController (name : ModuleName) (id : ModuleId) (first count : ℕ) (s : Freezing)
    (c : ControllerRecord × ℕ) : Freezing :=
  if c.1.binding < count then
    let binding := first + c.1.binding
    let decls := c.1.mount.decls id c.2
    let s := decls.foldl declareTransportInputs s
    let mounted := decls.map fun decl =>
      (⟨binding, id, c.1.mountPrefix.map Prod.fst, decl⟩ : HandlerRecord)
    { s with
      bindingErrors := s.bindingErrors ++ prefixErrors s.graph name binding c.1 decls
      graph := { s.graph with handlers := s.graph.handlers ++ mounted } }
  else s

/-- The declaration a module makes of an input, unless the key has one. -/
def declareInput (name : ModuleName) (id : ModuleId) (s : Freezing) (input : InputRecord) :
    Freezing :=
  let origin := InputOrigin.module name [input.seeder] input.location
  let inputs := s.graph.inputs.orInsert input.key ⟨input.key, [input.seeder], origin⟩
  { s with
    graph := { s.graph with inputs := inputs }
    declared := { s.declared with inputs := s.declared.inputs ++ [(id, input)] } }

/-- What a node's own settings and qualifier report. -/
def nodeErrors (name : ModuleName) (node : ModuleNode) : List WiringError :=
  (node.settings.repeats.map fun r => .duplicateSetting r.name name r.first r.second) ++
    (node.nestedKeyed.map fun (outer, inner) => .nestedKeyed name outer inner).toList

/-- The module ids of the nodes: consecutive, in collection order. -/
def moduleOf (r : Registry) (first : ℕ) (node : ℕ) : ModuleId :=
  if node ∈ r.postOrder then first + r.postOrder.idxOf node else first

/-- The module an import led to. -/
def importedModule (r : Registry) (first : ℕ) : Import → ModuleId
  | .new node => moduleOf r first node
  | .existing module => module

/-- A site with the importer's id in place of its node. -/
def frozenSite (r : Registry) (first : ℕ) : Site → Site
  | .import_ (.new node) location => .import_ (.existing (moduleOf r first node)) location
  | other => other

/-- The module frozen from a node, with the ids of its bindings. -/
def frozenModule (r : Registry) (name : ModuleName) (load : Option ℕ) (firstModule : ℕ)
    (index : ℕ) (id : ModuleId) (ids : List BindingId) (node : ModuleNode) : FrozenModule where
  id := id
  identity := node.identity
  name := name
  global := node.global
  keyed := node.keyed
  imports := (r.imports.getD index []).map (importedModule r firstModule)
  bindings := ids
  hooks := node.hooks
  metas := node.metas
  loaded := load
  settings := node.settings
  site := frozenSite r firstModule node.site

/-- Adds a node's bindings to the graph. -/
def freezeBindings (node : ModuleNode) (id : ModuleId) (s : Freezing) : Freezing :=
  let bindings := frozenBindings node id s.graph.bindings.length
  { s with
    graph := { s.graph with bindings := s.graph.bindings ++ bindings }
    contributions := bindings.foldl addContribution s.contributions }

/-- **Freezes one node** as the module `id`: its bindings, its controllers, its
inputs, its metadata and exports, and the module itself. -/
def freezeNode (r : Registry) (names : List ModuleName) (load : Option ℕ)
    (firstModule : ℕ) (s : Freezing) (index position : ℕ) (node : ModuleNode) : Freezing :=
  let id := firstModule + position
  let name := Registry.nameOf names index
  let first := s.graph.bindings.length
  let s := { s with moduleErrors := s.moduleErrors ++ nodeErrors name node }
  let s := freezeBindings node id s
  let s := node.controllers.zipIdx.foldl
    (mountController name id first node.bindings.length) s
  let s := node.inputs.foldl (declareInput name id) s
  let ids := List.range' first node.bindings.length
  let module := frozenModule r name load firstModule index id ids node
  { s with
    declared := { s.declared with
      metas := s.declared.metas ++ node.metas.map fun entry => (id, entry)
      exports := s.declared.exports ++ node.exports.map fun e => (id, e) }
    graph := { s.graph with modules := s.graph.modules ++ [module] } }

/-- The node at `place.1`, which becomes the module at position `place.2`. No
index occurs twice in the order, so the source's `take` always finds the node. -/
def freezeStep (r : Registry) (names : List ModuleName) (load : Option ℕ)
    (firstModule : ℕ) (s : Freezing) (place : ℕ × ℕ) : Freezing :=
  match r.nodes[place.1]? with
  | some node => freezeNode r names load firstModule s place.1 place.2 node
  | none => s

/-- The nodes in collection order. -/
def freezeNodes (r : Registry) (names : List ModuleName) (load : Option ℕ)
    (firstModule : ℕ) (s : Freezing) : Freezing :=
  r.postOrder.zipIdx.foldl (freezeStep r names load firstModule) s

/-- Adds the contributions of this wiring to the collections. -/
def mergeContributions (collections contributions : Map Key (List BindingId)) :
    Map Key (List BindingId) :=
  contributions.foldl (fun t key ids => t.insert key ((t.lookup key).getD [] ++ ids)) collections

/-- What freezing starts from. -/
def startFreezing (g : Graph) (r : Registry) : Freezing where
  graph := g
  declared :=
    { root := if r.nodes.isEmpty then g.modules.length else moduleOf r g.modules.length 0
      firstModule := g.modules.length
      firstBinding := g.bindings.length
      firstHandler := g.handlers.length }
  transports := g.handlers.map (·.decl.transport)

/-- The registry after the plan's overrides and replaced collections, with what
they and the failed values report. -/
def applyPlan {n : ℕ} (r : Registry) (names : List ModuleName)
    (plan : Option (TestPlan n)) : Registry × List WiringError :=
  let overrides := (plan.map (·.overrides)).getD []
  let collections := (plan.map (·.collections)).getD []
  let found := failures r
  let (r, overrideErrors) := applyOverrides r names overrides
  let failed := failureErrors names r (collections.map (·.key)) found
  let (r, collectionErrors) := applyCollections r collections
  (r, overrideErrors ++ failed ++ collectionErrors)

/-- **`freeze`**: the graph with the registry's modules, what the checks read of
them, and the errors of the first two steps. -/
def freeze {n : ℕ} (g : Graph) (r : Registry) (load : Option ℕ)
    (plan : Option (TestPlan n)) : Graph × Declared × Steps :=
  let names := r.names g
  let replacements := (plan.map (·.replacements)).getD []
  let (planned, planErrors) := applyPlan r names plan
  let s := freezeNodes planned names load g.modules.length (startFreezing g planned)
  let collections := mergeContributions s.graph.collections s.contributions
  let merged := { s.graph with collections := collections }
  let (marked, roleErrors) := markRoleContributions merged s.declared.firstBinding
  (marked, s.declared,
    { modules := selfImports r names ++ r.differing.map (Differing.toError names g) ++
        r.repeats.map (repeatError names g) ++ s.moduleErrors
      bindings := replacedErrors names r ++ replacementErrors r replacements ++ planErrors ++
        s.bindingErrors ++ roleErrors })

end Ulo
