import Ulo.Graph.Cycles
import Ulo.Lib.Propagate

/-!
# Roles, scopes and the need for an execution

A binding needs an execution if it is scoped to one, if it reads execution
data, or if something it reads hands the need on: a binding built per execution
always does, a transient one when it needs an execution itself, a singleton
never. `needsExecution` propagates the need from where it arises to the
readers; an `Auto` controller or enhancer that needs an execution becomes
per-execution, and everything else that needs one and is not scoped for it is
refused by `checkScopes`.

Enhancers declared by closure follow the same rule without being bindings
(`closureScopes`), closures that run outside of any execution may not need one
(`checkClosures`), and a handler may only read inputs that its transport seeds
(`checkInputs`).
-/

namespace Ulo

/-! ## Roles -/

/-- `role_types`: the types under which enhancers are contributed – those of
the mounted transports and those of the marked contributions. -/
def roleTypes (g : Graph) (bindings : List FrozenBinding) : List TypeId :=
  (g.handlers.flatMap (·.decl.roleKeys)).map (·.ty) ++
    (bindings.filter fun b =>
      b.record.kind = .collection ∧ b.role = .enhancer).map (·.record.primary.ty)

/-- Marks a contribution to a role type as an enhancer. -/
def markRole (roles : List TypeId) (b : FrozenBinding) : FrozenBinding :=
  if b.record.kind = .collection ∧ b.role = .provider ∧ b.record.primary.ty ∈ roles then
    { b with role := .enhancer }
  else b

/-- What `mark_role_contributions` reports of one binding. A key is reported
where the binding is new or its type became a role type in this wiring. -/
def roleErrors (g : Graph) (first : ℕ) (roles checked : List TypeId)
    (b : FrozenBinding) : List WiringError :=
  let reported (key : Key) : Bool :=
    key.ty ∈ roles ∧ (first ≤ b.id ∨ key.ty ∉ checked)
  match b.record.kind with
  | .collection =>
    let key := recordKey b.record
    if !key.isUnqualified && reported key then
      [.qualifiedRoleContribution ⟨key, .collection⟩ (g.moduleName b.origin)
        b.record.location]
    else []
  | .single =>
    (b.record.keysLocated.filter fun (key, _) => reported key).map fun (key, location) =>
      .singleRoleBinding ⟨key, .single⟩ (g.moduleName b.origin) location

/-- **`mark_role_contributions`.** -/
def markRoleContributions (g : Graph) (first : ℕ) : Graph × List WiringError :=
  let roles := roleTypes g g.bindings
  let checked := roleTypes g (g.bindings.take first)
  ({ g with bindings := g.bindings.map (markRole roles) },
    g.bindings.flatMap (roleErrors g first roles checked))

/-- `through_aliases`: the binding at the end of a chain of aliases. -/
def throughAliases (g : Graph) : ℕ → BindingId → BindingId
  | 0, id => id
  | fuel + 1, id =>
    match g.aliasTarget id with
    | some target => throughAliases g fuel target
    | none => id

/-- The bindings that handlers name as enhancers by type. -/
def namedEnhancers (g : Graph) : List BindingId :=
  g.handlers.flatMap fun h => h.decl.enhancerDeps.filterMap fun dep =>
    match dep with
    | .type key =>
      match g.lookup h.module key with
      | some (.binding id) => some (throughAliases g g.bindings.length id)
      | _ => none
    | .closure _ => none

/-- **`assign_roles`**: a provider named as an enhancer is one. -/
def assignRoles (g : Graph) : Graph :=
  { g with bindings := g.bindings.mapIdx fun i b =>
      if i ∈ namedEnhancers g ∧ b.role = .provider then { b with role := .enhancer }
      else b }

/-! ## The need for an execution -/

/-- Whether an edge reads execution data. -/
def Edge.readsExecution (e : Edge) : Bool :=
  match e.target with
  | .execution | .input _ => true
  | _ => false

/-- Whether the need arises at a binding itself. -/
def FrozenBinding.ownNeed (b : FrozenBinding) : Bool :=
  b.record.scope = .perExecution || b.edges.any Edge.readsExecution

/-- **The effective scope**, by the declared scope, the role and the need:
`promote` makes an `Auto` binding that is no provider per-execution. -/
def FrozenBinding.effectiveOf (b : FrozenBinding) (needs : Bool) : Effective :=
  match b.record.scope with
  | .singleton => .singleton
  | .perExecution => .perExecution
  | .transient => .transient
  | .auto => if needs ∧ b.role ≠ .provider then .perExecution else .singleton

/-- Whether a binding that needs an execution hands the need on. -/
def FrozenBinding.handsOn (b : FrozenBinding) : Bool :=
  b.effectiveOf true ≠ .singleton

/-- `readers`: the bindings whose construction reads `dep`. -/
def readers (g : Graph) (dep : BindingId) : List BindingId :=
  (List.range g.bindings.length).flatMap fun reader =>
    (g.constructionDeps reader).filterMap fun d => if d = dep then some reader else none

/-- The graph with the flags of `marked` set, and the effective scope that comes
with each. -/
def Graph.flagged (g : Graph) (marked : List BindingId) : Graph :=
  { g with bindings := g.bindings.mapIdx fun i b =>
      { b with needsExecution := decide (i ∈ marked)
               effective := b.effectiveOf (decide (i ∈ marked)) } }

/-- The bindings that need an execution, as the queue of `needs_execution`
finds them: those at which the need arises, then their readers. Where it asks
`passes_execution` of a binding it has flagged, this asks whether the binding
hands on (`passesExecution_flagged`). -/
def needing (g : Graph) : List BindingId :=
  let ids := List.range g.bindings.length
  (Propagate.run ids (readers g) (fun id => (g.binding id).handsOn)
    (ids.filter fun id => (g.binding id).ownNeed)).marked

/-- **`needs_execution`**: the flag of every binding, and the effective scope
that comes with it. -/
def needsExecution (g : Graph) : Graph := g.flagged (needing g)

/-! ## Paths to execution data -/

/-- The state of the search for a path to execution data. -/
structure PathSearch where
  queue : List BindingId
  parent : Map BindingId BindingId := ∅
  found : Option (List BindingId) := none

/-- The way back from `current` to `start`, the last step first. -/
def pathBack (parent : Map BindingId BindingId) (start : BindingId) :
    ℕ → BindingId → List BindingId
  | 0, current => [current]
  | fuel + 1, current =>
    match parent.lookup current with
    | some previous =>
      if previous = start then [current, previous]
      else current :: pathBack parent start fuel previous
    | none => [current]

/-- Whether the search ends at a binding. -/
def pathEnds (g : Graph) (start id : BindingId) : Bool :=
  (g.directExecutionEdge id).isSome ||
    (id ≠ start && (g.binding id).effective = .perExecution)

/-- One dependency of `node` in the search. -/
def pathDep (g : Graph) (start node : BindingId) (s : PathSearch) (dep : BindingId) :
    PathSearch :=
  if s.found.isSome ∨ dep = start ∨ dep ∈ s.parent ∨ g.passesExecution dep = false then s
  else
    let parent := s.parent.insert dep node
    if pathEnds g start dep then
      let back := pathBack parent start g.bindings.length dep
      { s with parent := parent, found := some back.reverse }
    else { s with parent := parent, queue := s.queue ++ [dep] }

/-- One iteration of the search. -/
def pathStep (g : Graph) (start : BindingId) (s : PathSearch) : Option PathSearch :=
  if s.found.isSome then none
  else
    match s.queue with
    | [] => none
    | node :: queue =>
      some ((g.constructionDeps node).foldl (pathDep g start node)
        { s with queue := queue })

/-- **`execution_path`**: the bindings from `start` to execution data. -/
def executionPath (g : Graph) (start : BindingId) : List BindingId :=
  if pathEnds g start start then [start]
  else
    let s := Loop.run (pathStep g start) (g.bindings.length + 1) { queue := [start] }
    s.found.getD [start]

/-- The label of one injection point of a binding. -/
def dependencyStep (g : Graph) (id : BindingId) (index : ℕ) : PathStep :=
  .point ((g.binding id).record.dependencies.list[index]?.map (·.label))

/-- The binding's label with its scope. -/
def scopedLabel (g : Graph) (id : BindingId) : PathStep :=
  .scopedLabel id (g.binding id).effective

/-- The last step of a path: the point that reads execution data. -/
def lastStep (g : Graph) (ids : List BindingId) : List PathStep :=
  match ids.getLast? with
  | some last =>
    ((g.directExecutionEdge last).map fun e => dependencyStep g last e.dependency).toList
  | none => []

/-- `execution_steps`: a path with every binding's scope. -/
def executionSteps (g : Graph) (id : BindingId) : List PathStep :=
  (executionPath g id).map (scopedLabel g) ++ lastStep g (executionPath g id)

/-- `printed_path`: a path whose first binding stands without its scope. -/
def printedPath (g : Graph) (id : BindingId) : List PathStep :=
  ((executionPath g id).mapIdx fun i step =>
    if i = 0 then .label step else scopedLabel g step) ++ lastStep g (executionPath g id)

/-! ## Scope checks -/

/-- Whether a binding needs an execution that its scope does not give it. -/
def FrozenBinding.refused (b : FrozenBinding) : Bool :=
  b.needsExecution && match b.record.scope with
    | .singleton => true
    | .auto => b.role = .provider
    | .perExecution | .transient => false

/-- What `check_scopes` reports of one binding. -/
def scopeErrors (g : Graph) (b : FrozenBinding) : List WiringError :=
  match b.record.recipe with
  | .alias _ | .failed => []
  | _ =>
    if b.refused then
      [.scopeViolation (g.keyName b.id) b.record.scope b.record.byClosure
        (b.role = .controller) (g.moduleName b.origin) (printedPath g b.id)]
    else if b.effective = .perExecution ∧ (b.record.hooks ≠ [] ∨ b.record.ready.isSome) then
      [.hooksOnPerExecution (g.keyName b.id) (g.moduleName b.origin)]
    else []

/-- **`check_scopes`.** -/
def checkScopes (g : Graph) : List WiringError := g.bindings.flatMap (scopeErrors g)

/-! ## Closures -/

/-- `execution_read` for one read: the path by which it reads execution data,
if it does. A closure's own binding is exempt. -/
def readSteps (g : Graph) (m : ModuleId) (owner : Option BindingId) (r : Read) :
    Option (List PathStep) :=
  let through (id : BindingId) : Bool := some id ≠ owner && g.passesExecution id
  match r.kind with
  | .extension _ | .execution => some []
  | .single key =>
    match g.lookup m key with
    | some (.input input) => some [.input input]
    | some (.binding id) => if through id then some (executionSteps g id) else none
    | _ => none
  | .collection key => ((g.collection key).find? through).map (executionSteps g)
  | .module => none

/-- **`execution_read`**: the first read of an injection point that needs an
execution. -/
def executionRead (g : Graph) (m : ModuleId) (owner : Option BindingId)
    (d : DependencyRecord) : Option (List PathStep) :=
  d.reads.findSome? (readSteps g m owner)

/-- The first injection point that needs an execution, with its path. -/
def closureRead (g : Graph) (m : ModuleId) (d : Dependencies) : Option (List PathStep) :=
  d.list.findSome? fun dep =>
    (executionRead g m none dep).map fun steps => .point (some dep.label) :: steps

/-- The scope an enhancer closure gets. -/
def closureEffective (g : Graph) (m : ModuleId) (c : ClosureDep) : Effective :=
  match c.scope with
  | .auto => if (closureRead g m c.dependencies).isSome then .perExecution else .singleton
  | .singleton => .singleton
  | .perExecution => .perExecution
  | .transient => .transient

/-- What `closure_scopes` reports of one closure. -/
def closureScopeErrors (g : Graph) (h : HandlerRecord) (c : ClosureDep) :
    List WiringError :=
  match c.scope, closureRead g h.module c.dependencies with
  | .singleton, some path =>
    [.closureScopeViolation c (handlerOwner h) h.decl.transport path c.location]
  | _, _ => []

/-- The enhancer closures of a handler. -/
def HandlerRecord.closureDeps (h : HandlerRecord) : List ClosureDep :=
  h.decl.enhancerDeps.filterMap fun dep =>
    match dep with
    | .closure c => some c
    | .type _ => none

/-- **`closure_scopes`**: the scope of every closure the wiring adds. -/
def closureScopes (g : Graph) (d : Declared) : Graph × List WiringError :=
  let new := g.handlers.drop d.firstHandler
  let decided := new.flatMap fun h =>
    h.closureDeps.map fun c => (c.id, closureEffective g h.module c)
  ({ g with closures := decided.foldl (fun t (id, e) => t.insert id e) g.closures },
    new.flatMap fun h => h.closureDeps.flatMap (closureScopeErrors g h))

/-- `Closure::check`: the points of a closure that need an execution. -/
def closureErrors (g : Graph) (m : ModuleId) (owner : Option BindingId) (name : Owner)
    (location : Option Location) (d : Dependencies) : List WiringError :=
  d.list.filterMap fun dep => (executionRead g m owner dep).map fun steps =>
    .closureNeedsExecution name (.point (some dep.label) :: steps) location

/-- What `check_closures` reports of one binding's readiness check and hooks. -/
def bindingClosureErrors (g : Graph) (b : FrozenBinding) : List WiringError :=
  (b.record.ready.toList.flatMap fun ready =>
    closureErrors g b.origin (some b.id) (.readiness b.id) (some ready.location)
      ready.dependencies) ++
  b.record.hooks.flatMap fun hook =>
    closureErrors g b.origin (some b.id) (.hook hook.kind b.id) (some hook.location)
      hook.dependencies

/-- **`check_closures`**: readiness checks, hooks and metadata run outside of
any execution. -/
def checkClosures (g : Graph) (d : Declared) : List WiringError :=
  (g.bindings.drop d.firstBinding).flatMap (bindingClosureErrors g) ++
  ((g.modules.drop d.firstModule).flatMap fun m => m.hooks.flatMap fun hook =>
    closureErrors g m.id none (.moduleHook hook.kind m.id) (some hook.location)
      hook.dependencies) ++
  d.metas.flatMap fun (m, entry) =>
    closureErrors g m none (.metadata entry.ty m) none entry.dependencies

/-! ## Inputs -/

/-- Whether a binding is built inside of an execution. -/
def inExecution (g : Graph) (id : BindingId) : Bool :=
  (g.binding id).effective ≠ .singleton

/-- A read of an input that the walk of a handler found. -/
structure InputRead where
  input : Key
  reader : Option BindingId
  steps : List PathStep
deriving DecidableEq, Inhabited

/-- The inputs a closure of the handler reads itself, optional reads apart. -/
def directInputs (g : Graph) (m : ModuleId) (via : List PathStep) (d : Dependencies) :
    List InputRead :=
  d.list.flatMap fun dep => dep.reads.filterMap fun r =>
    match r.kind with
    | .single key =>
      match g.lookup m key with
      | some (.input input) =>
        if r.optional then none else some ⟨input, none, via ++ [.point (some dep.label)]⟩
      | _ => none
    | _ => none

/-- What one enhancer of a handler adds to the roots of the walk: a closure
built once reads no execution data, or `closureScopes` refused it. -/
def enhancerRoots (g : Graph) (m : ModuleId) : EnhancerDep → List BindingId
  | .type key =>
    match g.lookup m key with
    | some (.binding id) => [id]
    | _ => []
  | .closure c =>
    if g.closures.lookup c.id = some .singleton then [] else g.closureDeps m c.dependencies

/-- The inputs one enhancer closure reads itself. -/
def enhancerInputs (g : Graph) (m : ModuleId) : EnhancerDep → List InputRead
  | .type _ => []
  | .closure c =>
    if g.closures.lookup c.id = some .singleton then []
    else directInputs g m [.enhancerClosure] c.dependencies

/-- The bindings a call of the handler starts from: its controller, the global
enhancers, its parameters and its own enhancers. -/
def handlerRoots (g : Graph) (h : HandlerRecord) : List BindingId :=
  [h.controller] ++ h.decl.roleKeys.flatMap g.collection ++
    g.closureDeps h.module h.decl.dependencies ++
    h.decl.enhancerDeps.flatMap (enhancerRoots g h.module)

/-- What building a binding inside of an execution builds there too. -/
def builtInside (g : Graph) (id : BindingId) : List BindingId :=
  (g.constructionDeps id).filter (inExecution g)

/-- The bindings a call may build inside of its execution, in the order the
walk reaches them. -/
def builtByCall (g : Graph) (h : HandlerRecord) : List BindingId :=
  (Propagate.run (List.range g.bindings.length) (builtInside g) (fun _ => true)
    ((handlerRoots g h).filter (inExecution g))).marked

/-- The binding the walk reached `id` from: the first one reached that builds
it, none for a root. -/
def walkParent (g : Graph) (h : HandlerRecord) (id : BindingId) : Option BindingId :=
  if id ∈ handlerRoots g h then none
  else (builtByCall g h).find? fun node => id ∈ g.constructionDeps node

/-- `chain`: the way from a root to `id`. -/
def walkChain (g : Graph) (h : HandlerRecord) : ℕ → BindingId → List BindingId
  | 0, id => [id]
  | fuel + 1, id =>
    match walkParent g h id with
    | some previous => walkChain g h fuel previous ++ [id]
    | none => [id]

/-- The inputs a binding's own edges read, optional reads apart. -/
def edgeInputs (g : Graph) (h : HandlerRecord) (id : BindingId) : List InputRead :=
  (g.binding id).edges.filterMap fun e =>
    match e.target with
    | .input input =>
      if e.optional then none
      else some ⟨input, some id,
        (walkChain g h g.bindings.length id).map (scopedLabel g) ++
          [dependencyStep g id e.dependency]⟩
    | _ => none

/-- Each input once for each reader. -/
def recordInputs (reads : List InputRead) : List InputRead :=
  reads.foldl (fun seen r =>
    if seen.any fun s => s.input = r.input ∧ s.reader = r.reader then seen
    else seen ++ [r]) []

/-- **`input_reads`**: the inputs a call of the handler may read. -/
def inputReads (g : Graph) (h : HandlerRecord) : List InputRead :=
  recordInputs (directInputs g h.module [] h.decl.dependencies ++
    h.decl.enhancerDeps.flatMap (enhancerInputs g h.module) ++
    (builtByCall g h).flatMap (edgeInputs g h))

/-- What `check_inputs` reports of one read. -/
def inputError (g : Graph) (h : HandlerRecord) (r : InputRead) : Option WiringError :=
  match g.inputs.lookup r.input with
  | none => none
  | some decl =>
    if h.decl.transport ∈ decl.seeders then none
    else decl.seeders.head?.map fun seeder =>
      .inputNotSeeded (handlerOwner h) h.decl.transport ⟨r.input, .single⟩ seeder r.steps

/-- **`check_inputs`**: a handler reads only inputs its transport seeds. -/
def checkInputs (g : Graph) : List WiringError :=
  g.handlers.flatMap fun h => (inputReads g h).filterMap (inputError g h)

end Ulo
