import Ulo.Transport.Decl

/-!
# Modules

A module has an identity and settings, and its `register` writes a node:
imports, bindings, contributions, controllers, exports, inputs, hooks and
metadata. Modules may import one another in any shape, cycles included, so
the modules of a program are a finite **catalog** and an import is an index
into it (`Catalog`).

`register` reads one thing of its surroundings, the qualifier inherited from
the nearest keyed importer, and the model has it as the argument of
`ModuleDecl.register`. What it returns comes with the facts that the calls
of `ModuleDef` guarantee (`ModuleContent.WellFormed`): one recorded failure
for each `try_value` that failed, and controller and enhancer marks that
point at records of their own kind.
-/

namespace Ulo

/-- **A module's identity**; equality reads the type, the qualifier and the
configuration. -/
structure ModuleIdentity where
  ty : TypeId
  config : Option ℕ := none
  qualifier : Option TypeId := none
deriving DecidableEq, Inhabited

/-- A module's name: its identity and the number of its equals before it. -/
structure ModuleName where
  identity : ModuleIdentity
  instance_ : ℕ
deriving DecidableEq, Inhabited

/-- One written setting, with the value as printed. -/
structure Setting where
  name : String
  value : String
  location : Location := 0
deriving DecidableEq, Inhabited

/-- A setting name written twice. -/
structure Repeat where
  name : String
  first : Location
  second : Location
deriving DecidableEq, Inhabited

/-- A module's settings and the names it wrote twice. -/
structure ModuleSettings where
  entries : List Setting := []
  repeats : List Repeat := []
deriving DecidableEq, Inhabited

namespace ModuleSettings

/-- The value written under `name`. -/
def value (s : ModuleSettings) (name : String) : Option String :=
  (s.entries.find? (·.name = name)).map (·.value)

/-- The settings whose values differ, this one's names first. -/
def differences (s other : ModuleSettings) :
    List (String × Option String × Option String) :=
  let names := s.entries.map (·.name) ++
    (other.entries.map (·.name)).filter fun n => (s.value n).isNone
  names.filterMap fun n =>
    if s.value n = other.value n then none
    else some (n, s.value n, other.value n)

end ModuleSettings

/-- What an import led to: a node of this registration or a module of the
base graph. -/
inductive Import
  | new (node : ℕ)
  | existing (module : ModuleId)
deriving DecidableEq, Inhabited

/-- Where a module was named. -/
inductive Site
  | root
  | load (location : Location)
  | import_ (importer : Import) (location : Location)
deriving DecidableEq, Inhabited

/-- An exported or re-exported key. -/
structure ExportRecord where
  key : Key
  reexport : Bool := false
  location : Location := 0
deriving DecidableEq, Inhabited

/-- An execution input a module declares for a transport. -/
structure InputRecord where
  key : Key
  seeder : TypeId
  location : Location := 0
  /-- `ModuleDef::input` takes a `Sized` type. -/
  sized : key.ty.dyn = false := by rfl

instance : Inhabited InputRecord :=
  ⟨{ key := default, seeder := default, sized := Key.default_sized }⟩

/-- A `try_value` that failed. -/
structure ValueFailure where
  location : Location := 0
deriving DecidableEq, Inhabited

/-- A metadata value: its type and what its `Meta::dependencies` declares. -/
structure MetaEntry where
  ty : TypeId
  dependencies : Dependencies := {}
deriving DecidableEq, Inhabited

/-- **What `Module::register` writes.** Metadata stands in the order of the
types' names. -/
structure ModuleContent where
  global : Bool := false
  keyed : Option TypeId := none
  nestedKeyed : Option (TypeId × TypeId) := none
  bindings : List BindingRecord := []
  enhancers : List ℕ := []
  exports : List ExportRecord := []
  controllers : List ControllerRecord := []
  inputs : List InputRecord := []
  hooks : List HookRecord := []
  metas : List MetaEntry := []
  failures : List ValueFailure := []

/-- **What the calls of `ModuleDef` guarantee of a node.** -/
structure ModuleContent.WellFormed (c : ModuleContent) : Prop where
  /-- A `try_value` writes the record and the failure in one call. -/
  failures_paired : c.failures.length = c.bindings.countP (·.recipe.isFailed)
  /-- `controller` pushes the record it marks, a `Construct` type. -/
  controllers_bound : ∀ k ∈ c.controllers, ∃ r, c.bindings[k.binding]? = some r ∧
    r.controller = true ∧ r.kind = .single ∧ r.recipe.isBuilt = true
  /-- `enhancer` marks the contribution it pushes. -/
  enhancers_bound : ∀ e ∈ c.enhancers, ∃ r, c.bindings[e]? = some r ∧
    r.kind = .collection

/-- A registered module: what it wrote, where it was named and its settings. -/
structure ModuleNode extends ModuleContent where
  identity : ModuleIdentity
  settings : ModuleSettings := {}
  site : Site := .root

instance : Inhabited ModuleNode := ⟨{ identity := default }⟩

/-- One call of `register` among a catalog of `n` modules. -/
structure Registration (n : ℕ) where
  content : ModuleContent := {}
  imports : List (Fin n × Location) := []
  wellFormed : content.WellFormed

/-- **A module** among a catalog of `n`. -/
structure ModuleDecl (n : ℕ) where
  identity : ModuleIdentity
  settings : ModuleSettings := {}
  /-- `register`, given the qualifier inherited from the importers. -/
  register : Option TypeId → Registration n

/-- **The modules of a program.** -/
structure Catalog where
  size : ℕ
  module : Fin size → ModuleDecl size

/-- The recipe a test override writes: a value or a factory. -/
inductive OverrideRecipe
  | value (instance_ : Instance)
  | factory (built : TypeId)
deriving DecidableEq, Inhabited

/-- The override's recipe as a binding's. -/
def OverrideRecipe.toRecipe : OverrideRecipe → Recipe
  | .value i => .value i
  | .factory t => .factory t

/-- Which modules an override names. -/
inductive OverrideTarget
  | unscoped
  | moduleType (ty : TypeId)
  | moduleKeyed (ty : TypeId) (qualifier : TypeId)
  | module (identity : ModuleIdentity)
  | everywhere
deriving DecidableEq, Inhabited

/-- A single binding replaced by a test. -/
structure Override where
  key : Key
  recipe : OverrideRecipe
  dependencies : Dependencies := {}
  target : OverrideTarget := .unscoped
  location : Location := 0
deriving DecidableEq, Inhabited

/-- A collection replaced by a test. -/
structure CollectionOverride where
  key : Key
  items : List Instance
  location : Location := 0
deriving DecidableEq, Inhabited

/-- A module replaced by a test. -/
structure Replacement (n : ℕ) where
  original : ModuleIdentity
  replacement : Fin n
  location : Location := 0

/-- **What a test changes of the program it wires.** -/
structure TestPlan (n : ℕ) where
  overrides : List Override := []
  collections : List CollectionOverride := []
  replacements : List (Replacement n) := []

end Ulo
