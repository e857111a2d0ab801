import Ulo.Binding

/-!
# Handlers and their enhancers as a controller mounts them

A controller mounts handlers. Each handler belongs to a transport, which
names the three role keys of its global enhancers and the inputs it seeds,
and carries two tiers of enhancers of its own, the controller's and the
method's. An enhancer is declared by type (obtained from the container), by
value, or by a closure that the pipeline builds from the closure's own reads.

A closure declaration has an id of its own, taken from one process-wide
counter when the declaration is written; a clone of the declaration keeps
it. Declarations are written while `mount` runs, once for each registered
controller, so the model takes the id to be the mount it was written in
together with a serial number within that mount (`Mount.decls`). That equal
serials mean one declaration is a field of `Mount`.
-/

namespace Ulo

/-- `ClosureId`: the mounted controller and the declaration within it. -/
structure ClosureId where
  module : ModuleId := 0
  slot : ℕ := 0
  serial : ℕ
deriving DecidableEq, Inhabited

/-- The three kinds of enhancer. -/
inductive EnhancerRole
  | guard
  | interceptor
  | errorHandler
deriving DecidableEq, Inhabited

/-- The tier a handler's own enhancer is declared at. -/
inductive Tier
  | controller
  | method
deriving DecidableEq, Inhabited

/-- An enhancer declared by closure. -/
structure ClosureDecl where
  id : ClosureId
  scope : ScopeKind := .auto
  dependencies : Dependencies := {}
  location : Location := 0
deriving DecidableEq, Inhabited

/-- One enhancer declaration of a handler. -/
inductive Decl
  | type (key : Key) (coerce : Coercion)
  | value (object : ℕ)
  | closure (decl : ClosureDecl)
deriving DecidableEq, Inhabited

/-- One tier of enhancers. -/
structure EnhancerSpec where
  guards : List Decl := []
  interceptors : List Decl := []
  errorHandlers : List Decl := []
deriving DecidableEq, Inhabited

/-- A closure declaration as the graph keeps it, with where it was written. -/
structure ClosureDep where
  id : ClosureId
  scope : ScopeKind
  dependencies : Dependencies
  role : EnhancerRole
  tier : Tier
  position : ℕ
  location : Location
deriving DecidableEq, Inhabited

/-- What a declared enhancer asks of the graph. -/
inductive EnhancerDep
  | type (key : Key)
  | closure (dep : ClosureDep)
deriving DecidableEq, Inhabited

/-- A value asks nothing of the graph. -/
def Decl.dep (role : EnhancerRole) (tier : Tier) (position : ℕ) :
    Decl → Option EnhancerDep
  | .type key _ => some (.type key)
  | .value _ => none
  | .closure c => some (.closure ⟨c.id, c.scope, c.dependencies, role, tier,
      position, c.location⟩)

/-- `deps_of`: the dependencies of one list of declarations. -/
def depsOf (role : EnhancerRole) (tier : Tier) (decls : List Decl) :
    List EnhancerDep :=
  decls.zipIdx.filterMap fun (d, i) => d.dep role tier (i + 1)

/-- `EnhancerSpec::deps`: guards, then interceptors, then error handlers. -/
def EnhancerSpec.deps (s : EnhancerSpec) (tier : Tier) : List EnhancerDep :=
  depsOf .guard tier s.guards ++ depsOf .interceptor tier s.interceptors ++
    depsOf .errorHandler tier s.errorHandlers

/-- Every declaration of a tier. -/
def EnhancerSpec.all (s : EnhancerSpec) : List Decl :=
  s.guards ++ s.interceptors ++ s.errorHandlers

/-- One input a transport declares, with the other transports seeding it. -/
structure InputKey where
  key : Key
  also : List TypeId := []
  location : Location := 0
  /-- `Inputs::input` takes a `Sized` type. -/
  sized : key.ty.dyn = false := by rfl
deriving DecidableEq

instance : Inhabited InputKey := ⟨{ key := default, sized := Key.default_sized }⟩

/-- **A handler as `mount` declares it.** The role types are those of the
transport's guards, interceptors and error handlers. -/
structure HandlerDecl where
  transport : TypeId
  readsPrefix : Bool := false
  inputs : List InputKey := []
  name : String := ""
  guardRole : TypeId
  interceptorRole : TypeId
  errorHandlerRole : TypeId
  controller : EnhancerSpec := {}
  method : EnhancerSpec := {}
  dependencies : Dependencies := {}
  /-- `AnyGuard`, `AnyInterceptor` and `AnyErrorHandler` are trait objects. -/
  rolesDyn : guardRole.dyn = true ∧ interceptorRole.dyn = true ∧
    errorHandlerRole.dyn = true := by decide
deriving DecidableEq

instance : Inhabited HandlerDecl :=
  ⟨{ transport := default, guardRole := ⟨0, true⟩, interceptorRole := ⟨1, true⟩
     errorHandlerRole := ⟨2, true⟩ }⟩

namespace HandlerDecl

/-- The keys the transport's global enhancers are contributed under. -/
def roleKeys (d : HandlerDecl) : List Key :=
  [⟨d.guardRole, unitType⟩, ⟨d.interceptorRole, unitType⟩,
    ⟨d.errorHandlerRole, unitType⟩]

/-- What the handler's own enhancers ask, controller tier first. -/
def enhancerDeps (d : HandlerDecl) : List EnhancerDep :=
  d.controller.deps .controller ++ d.method.deps .method

/-- The closures the handler's enhancers are declared by. -/
def closures (d : HandlerDecl) : List ClosureDecl :=
  (d.controller.all ++ d.method.all).filterMap fun
    | .closure c => some c
    | _ => none

end HandlerDecl

/-- The declaration as written by the mount of `slot` in `module`. -/
def Decl.stamp (module : ModuleId) (slot : ℕ) : Decl → Decl
  | .closure c => .closure { c with id := ⟨module, slot, c.id.serial⟩ }
  | d => d

/-- A tier as written by the mount of `slot` in `module`. -/
def EnhancerSpec.stamp (module : ModuleId) (slot : ℕ) (s : EnhancerSpec) :
    EnhancerSpec :=
  { guards := s.guards.map (Decl.stamp module slot)
    interceptors := s.interceptors.map (Decl.stamp module slot)
    errorHandlers := s.errorHandlers.map (Decl.stamp module slot) }

/-- **What one `mount` declares**, with one declaration for each serial. -/
structure Mount where
  handlers : List HandlerDecl
  coherent : ∀ c₁ ∈ handlers.flatMap (·.closures), ∀ c₂ ∈ handlers.flatMap (·.closures),
    c₁.id.serial = c₂.id.serial → c₁ = c₂ := by decide

instance : Inhabited Mount := ⟨{ handlers := [] }⟩

/-- **`(controller.mount)(..)`**: the handlers, with the ids of their closures. -/
def Mount.decls (m : Mount) (module : ModuleId) (slot : ℕ) : List HandlerDecl :=
  m.handlers.map fun d =>
    { d with controller := d.controller.stamp module slot
             method := d.method.stamp module slot }

/-- A registered controller: its record's position and what it mounts. -/
structure ControllerRecord where
  binding : ℕ
  mount : Mount := default
  mountPrefix : Option (String × Location) := none

instance : Inhabited ControllerRecord := ⟨{ binding := 0 }⟩

/-- A mounted handler in the graph. -/
structure HandlerRecord where
  controller : BindingId
  module : ModuleId
  mountPrefix : Option String
  decl : HandlerDecl
deriving DecidableEq, Inhabited

end Ulo
