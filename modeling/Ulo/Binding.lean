import Ulo.Key

/-!
# Bindings as a module declares them

A `BindingRecord` is one registration: the keys it answers to, the recipe
that builds it, the scope, the declared reads, the readiness check and the
hooks. The records are the leaves of everything that follows – the graph
freezes them, the wiring checks read them, the container builds from them.

Of the closures a record holds the model keeps what the container sees: the
type a constructor builds, the reads it declares. An **instance** is an
object together with the type it is held at, and a coercion re-types an
instance of the one type it was written for and leaves every other alone.

An alias is registered by one call that fixes its kind and its scope and
writes nothing else, so `BindingRecord` carries that as a field
(`aliasShape`) and no record of another shape can be built.
-/

namespace Ulo

/-- **A built instance**: an object, held at the type `ty`. -/
structure Instance where
  object : ℕ
  ty : TypeId
deriving DecidableEq, Inhabited

/-- `Arc<source>` to `Arc<target>`. -/
structure Coercion where
  source : TypeId
  target : TypeId
deriving DecidableEq, Inhabited

/-- A coercion handed an instance of another type passes it through. -/
def Coercion.apply (c : Coercion) (i : Instance) : Instance :=
  if i.ty = c.source then { i with ty := c.target } else i

/-- A time bound as a declaration writes it, in milliseconds. -/
inductive Bound
  | default
  | after (ms : ℕ)
  | unbounded
deriving DecidableEq, Inhabited

/-- The five lifecycle hooks. -/
inductive HookKind
  | onModuleInit
  | onApplicationBootstrap
  | onModuleDestroy
  | beforeApplicationShutdown
  | onApplicationShutdown
deriving DecidableEq, Inhabited

/-- One hook of a binding or of a module. -/
structure HookRecord where
  kind : HookKind
  bound : Bound := .default
  boundAt : Option Location := none
  dependencies : Dependencies := {}
  location : Location := 0
deriving DecidableEq, Inhabited

/-- A readiness check with its retries and bounds. -/
structure ReadyRecord where
  dependencies : Dependencies := {}
  retries : ℕ := 0
  backoff : ℕ := 0
  backoffLocation : Option Location := none
  whole : Bound := .default
  wholeAt : Option Location := none
  attempt : Bound := .default
  attemptAt : Option Location := none
  location : Location := 0
deriving DecidableEq, Inhabited

/-- How a binding is obtained. A constructor and a factory are kept as the
type they build. -/
inductive Recipe
  | construct (built : TypeId)
  | factory (built : TypeId)
  | value (instance_ : Instance)
  | alias (target : Key)
  | failed
deriving DecidableEq, Inhabited

/-- Whether the recipe is a `try_value` whose expression failed. -/
def Recipe.isFailed : Recipe → Bool
  | .failed => true
  | _ => false

/-- Whether the recipe runs a constructor or a factory. -/
def Recipe.isBuilt : Recipe → Bool
  | .construct _ | .factory _ => true
  | _ => false

theorem Recipe.isFailed_of_isBuilt {r : Recipe} (h : r.isBuilt = true) : r.isFailed = false := by
  cases r <;> first | rfl | cases h

/-- A second key reaching the same object. -/
structure AlsoAs where
  key : Key
  coerce : Coercion
  location : Location := 0
deriving DecidableEq, Inhabited

/-- **One binding as `register` declared it.** Keys are written unqualified
and `qualifier` is applied to all of them. -/
structure BindingRecord where
  primary : Key
  qualifier : TypeId := unitType
  /-- For a contribution, the built type to the collection's type. -/
  intoPrimary : Option Coercion := none
  also : List AlsoAs := []
  kind : BindingKind := .single
  scope : ScopeKind := .auto
  /-- Registered through `ModuleDef::controller`. -/
  controller : Bool := false
  /-- The type is a `Controller`, however it was registered. -/
  controllerType : Option TypeId := none
  recipe : Recipe
  dependencies : Dependencies := {}
  constructBound : Bound := .default
  constructBoundAt : Option Location := none
  ready : Option ReadyRecord := none
  replacedReady : List Location := []
  hooks : List HookRecord := []
  /-- Registered as a `Construct` type, so `hooks` starts with the type's. -/
  constructs : Bool := false
  location : Location := 0
  /-- `Alias::of` writes a single transient record with nothing of its own. -/
  aliasShape : ∀ target, recipe = .alias target →
      kind = .single ∧ scope = .transient ∧ dependencies = {} ∧ ready = none ∧
        hooks = [] ∧ controller = false := by simp
deriving DecidableEq

instance : Inhabited BindingRecord := ⟨{ primary := default, recipe := .failed }⟩

namespace BindingRecord

/-- `keys_located`: each key with the call that wrote it. -/
def keysLocated (r : BindingRecord) : List (Key × Location) :=
  ((r.primary, r.location) :: r.also.map fun a => (a.key, a.location)).map
    fun (k, at_) => (k.withQualifier r.qualifier, at_)

/-- Every key the record answers to, with the qualifier applied. -/
def keys (r : BindingRecord) : List Key := r.keysLocated.map Prod.fst

/-- Built by a factory closure rather than by a `Construct` type. -/
def byClosure (r : BindingRecord) : Bool :=
  match r.recipe with
  | .factory _ => !r.constructs
  | _ => false

end BindingRecord

/-- `record_key`: the primary key with the qualifier applied. -/
def recordKey (r : BindingRecord) : Key := r.primary.withQualifier r.qualifier

end Ulo
