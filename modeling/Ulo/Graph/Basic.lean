import Mathlib.Data.List.AList
import Ulo.Module

/-!
# The graph

Wiring freezes every registered module into a `Graph`: modules and bindings
under consecutive ids, one visibility table for each module, the collections
of the whole application, the declared inputs, the mounted handlers, and the
order in which `connect` builds the singletons.

This module has the graph's data and the questions its passes ask of it –
where a key leads from a module (`lookup`), what a binding's construction
reads (`constructionDeps`), what its readiness check reads
(`readinessDeps`), and whether it hands the need for an execution on to its
readers (`passesExecution`).

The source indexes its vectors and would panic on an id outside of them. The
model reads a default there; the wiring proofs show that no id of a wired
graph is outside of its bounds, and where a foreign id can reach the graph –
a shutdown plan made for another one – the lookup is modelled with its bound.
-/

namespace Ulo

/-- A hash map, as an association list without repeated keys. -/
abbrev Map (κ β : Type) := AList (fun _ : κ => β)

/-- What a binding is used as. -/
inductive Role
  | provider
  | controller
  | enhancer
deriving DecidableEq, Inhabited

/-- The scope a binding is built in, once `Auto` is decided. -/
inductive Effective
  | singleton
  | perExecution
  | transient
deriving DecidableEq, Inhabited

/-- What one declared read of a binding resolved to. -/
inductive EdgeTarget
  | binding (id : BindingId)
  | collection (key : Key)
  | input (key : Key)
  | execution
  | module
deriving DecidableEq, Inhabited

/-- A resolved read, with the position of its injection point. -/
structure Edge where
  target : EdgeTarget
  dependency : ℕ
  optional : Bool
deriving DecidableEq, Inhabited

/-- What a module sees under a key. -/
inductive Visible
  | binding (id : BindingId)
  | input (key : Key)
  | ambiguous (sources : List (ModuleId × BindingId))
deriving DecidableEq, Inhabited

/-- Where an input, or what conflicts with it, was declared. -/
inductive InputOrigin
  | module (module : ModuleName) (seeders : List TypeId) (location : Location)
  | transport (name : TypeId) (location : Location)
  | binding (module : ModuleName) (location : Location)
deriving DecidableEq, Inhabited

/-- Whether the input was declared by a module. -/
def InputOrigin.isModule : InputOrigin → Bool
  | .module .. => true
  | _ => false

/-- An execution input and the transports that seed it. -/
structure InputDecl where
  key : Key
  seeders : List TypeId
  origin : InputOrigin
deriving DecidableEq, Inhabited

/-- Equal seeders, as sets. -/
def InputDecl.sameSeeders (d : InputDecl) (other : List TypeId) : Bool :=
  d.seeders.length == other.length && d.seeders.all (other.contains ·)

/-- A module of the graph. `loaded` numbers the lazy load that brought it. -/
structure FrozenModule where
  id : ModuleId
  identity : ModuleIdentity
  name : ModuleName
  global : Bool := false
  keyed : Option TypeId := none
  imports : List ModuleId := []
  bindings : List BindingId := []
  hooks : List HookRecord := []
  metas : List MetaEntry := []
  loaded : Option ℕ := none
  settings : ModuleSettings := {}
  site : Site := .root
deriving DecidableEq, Inhabited

/-- A binding of the graph. -/
structure FrozenBinding where
  id : BindingId
  origin : ModuleId
  record : BindingRecord
  role : Role
  effective : Effective := .singleton
  needsExecution : Bool := false
  edges : List Edge := []
deriving DecidableEq

instance : Inhabited FrozenBinding :=
  ⟨{ id := 0, origin := 0, record := default, role := .provider }⟩

/-- **The graph** `wire` builds and `load` extends. -/
structure Graph where
  modules : List FrozenModule := []
  bindings : List FrozenBinding := []
  visibility : List (Map Key Visible) := []
  collections : Map Key (List BindingId) := ∅
  inputs : Map Key InputDecl := ∅
  root : ModuleId := 0
  connectOrder : List BindingId := []
  handlers : List HandlerRecord := []
  closures : Map ClosureId Effective := ∅
  /-- For each module, the keys it exports with the bindings behind them. -/
  exported : List (List (Key × BindingId)) := []

instance : Inhabited Graph := ⟨{}⟩

namespace Graph

variable (g : Graph)

/-- The binding under `id`. -/
def binding (id : BindingId) : FrozenBinding := g.bindings.getD id default

/-- The module under `id`. -/
def module (id : ModuleId) : FrozenModule := g.modules.getD id default

/-- `by_identity`: identities are registered once, so the map holds the only
module of each. -/
def byIdentity (identity : ModuleIdentity) : Option ModuleId :=
  (g.modules.find? (·.identity = identity)).map (·.id)

/-- What `module` sees under `key`. -/
def lookup (module : ModuleId) (key : Key) : Option Visible :=
  (g.visibility.getD module ∅).lookup key

/-- The contributions under `key`, of the whole application. -/
def collection (key : Key) : List BindingId := (g.collections.lookup key).getD []

/-- The module's name. -/
def moduleName (id : ModuleId) : ModuleName := (g.module id).name

/-- The key and kind a report names the binding by. -/
def keyName (id : BindingId) : KeyName :=
  ⟨recordKey (g.binding id).record, (g.binding id).record.kind⟩

/-- The binding an alias reads. -/
def aliasTarget (id : BindingId) : Option BindingId :=
  match (g.binding id).record.recipe with
  | .alias target =>
    match g.lookup (g.binding id).origin target with
    | some (.binding t) => some t
    | _ => none
  | _ => none

/-- The bindings one edge leads to. -/
def edgeDeps (e : Edge) : List BindingId :=
  match e.target with
  | .binding dep => [dep]
  | .collection key => g.collection key
  | .input _ | .execution | .module => []

/-- **What building `id` reads**: its edges, and an alias's target. -/
def constructionDeps (id : BindingId) : List BindingId :=
  (g.binding id).edges.flatMap g.edgeDeps ++ (g.aliasTarget id).toList

/-- The bindings one read of a closure in `module` leads to. -/
def readDeps (module : ModuleId) (r : Read) : List BindingId :=
  match r.kind with
  | .single key =>
    match g.lookup module key with
    | some (.binding dep) => [dep]
    | _ => []
  | .collection key => g.collection key
  | .extension _ | .execution | .module => []

/-- What a closure in `module` reads. -/
def closureDeps (module : ModuleId) (d : Dependencies) : List BindingId :=
  d.reads.flatMap (g.readDeps module)

/-- What the readiness check of `id` reads, `id` itself apart. -/
def readinessDeps (id : BindingId) : List BindingId :=
  match (g.binding id).record.ready with
  | some ready =>
    (g.closureDeps (g.binding id).origin ready.dependencies).filter (· ≠ id)
  | none => []

/-- **Whether a reader of `id` needs an execution because of it.** -/
def passesExecution (id : BindingId) : Bool :=
  match (g.binding id).effective with
  | .perExecution => true
  | .transient => (g.binding id).needsExecution
  | .singleton => false

/-- The binding's first read of execution data. -/
def directExecutionEdge (id : BindingId) : Option Edge :=
  (g.binding id).edges.find? fun e =>
    match e.target with
    | .execution | .input _ => true
    | _ => false

end Graph

/-- `boundary_key`: a keyed module requalifies its unqualified exports. -/
def boundaryKey (keyed : Option TypeId) (key : Key) : Key :=
  match keyed with
  | some q => if key.isUnqualified then key.withQualifier q else key
  | none => key

end Ulo
