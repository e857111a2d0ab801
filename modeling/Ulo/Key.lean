import Mathlib.Data.List.Basic

/-!
# Keys, scopes and declared reads

A binding is stored under a **key**: a type and a qualifier, `()` standing
for none. Keys compare on the two type ids alone, so beside an id the model
keeps of a type only whether it is a trait object; the names a report prints
are left out.

A **read** is what one injection point asks of the container: the single
binding or the collection under a key, a value of the running execution, the
execution itself, or the module handle. What a constructor, a readiness
check, a hook or a handler declares is a list of such reads, grouped by the
field or parameter that makes them (`Dependencies`).
-/

namespace Ulo

/-- **The id of a Rust type**, and whether the type is a trait object: the
container takes an execution input at a `Sized` type only, and the enhancers of
a transport are contributed under trait objects. -/
structure TypeId where
  number : ℕ
  dyn : Bool := false
deriving DecidableEq, Inhabited

instance (n : ℕ) : OfNat TypeId n := ⟨⟨n, false⟩⟩

/-- `()`, the qualifier of an unqualified key. -/
def unitType : TypeId := 0

/-- The source position of a declaration. -/
abbrev Location := ℕ

/-- A module's index in the graph. -/
abbrev ModuleId := ℕ

/-- A binding's index in the graph; `BindingId` order is collection order. -/
abbrev BindingId := ℕ

/-- **A key**: the type and the qualifier a binding is stored under. -/
structure Key where
  ty : TypeId
  qualifier : TypeId := unitType
deriving DecidableEq, Inhabited

namespace Key

/-- The same type under the qualifier `q`. -/
def withQualifier (k : Key) (q : TypeId) : Key := { k with qualifier := q }

/-- Whether the key has no qualifier. -/
def isUnqualified (k : Key) : Bool := k.qualifier == unitType

/-- The default key is one of a `Sized` type. -/
theorem default_sized : (default : Key).ty.dyn = false := rfl

end Key

/-- `unqualified`: the key without its qualifier. -/
def unqualified (k : Key) : Key := k.withQualifier unitType

/-- Whether a key holds one binding or a collection of contributions. -/
inductive BindingKind
  | single
  | collection
deriving DecidableEq, Inhabited

/-- A key as the errors name it, with its kind. -/
structure KeyName where
  key : Key
  kind : BindingKind
deriving DecidableEq, Inhabited

/-- A scope as a declaration writes it. -/
inductive ScopeKind
  | singleton
  | perExecution
  | transient
  | auto
deriving DecidableEq, Inhabited

/-- What one read asks for. -/
inductive ReadKind
  | single (key : Key)
  | collection (key : Key)
  | extension (ty : TypeId)
  | execution
  | module
deriving DecidableEq, Inhabited

/-- One read of an injection point, `optional` when it sits under `Option`. -/
structure Read where
  kind : ReadKind
  optional : Bool := false
deriving DecidableEq, Inhabited

/-- How a report names an injection point. -/
inductive DependencyLabel
  | field (name : String)
  | param (name : String)
  | position (index : ℕ)
deriving DecidableEq, Inhabited

/-- One injection point: its label and the reads of its `Requirement`. -/
structure DependencyRecord where
  label : DependencyLabel := .position 0
  reads : List Read
deriving DecidableEq, Inhabited

/-- The injection points of one constructor, closure or handler. -/
structure Dependencies where
  list : List DependencyRecord := []
deriving DecidableEq, Inhabited

/-- Every read the injection points make, in order. -/
def Dependencies.reads (d : Dependencies) : List Read :=
  d.list.flatMap (·.reads)

/-- A declaration whose points are single reads, one each. -/
def Dependencies.of (reads : List Read) : Dependencies :=
  ⟨reads.zipIdx.map fun (r, i) => { label := .position i, reads := [r] }⟩

theorem Dependencies.mem_reads {d : Dependencies} {r : Read} :
    r ∈ d.reads ↔ ∃ rec ∈ d.list, r ∈ rec.reads := List.mem_flatMap

end Ulo
