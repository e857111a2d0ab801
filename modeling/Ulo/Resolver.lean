import Ulo.Graph.Error
import Ulo.Lib.Map
import Ulo.Lib.Prog

/-!
# The resolver

What an injection point reads, at run time. A `Resolver` is a view of the graph:
the module whose visibility applies, the execution when there is one, and who is
reading. `obtain` answers an instance of a binding in that view – a singleton
from the store, an execution-scoped binding from the execution's cache, a
transient built fresh, an alias through its target – and building one makes the
reads its declaration lists, in its own module, which come back to `obtain`.

The recursion follows the graph as the source's does, and nothing in it is
structural, so it runs on fuel; that a wired graph needs no more of it than it
has bindings is part of what the proofs show.

Everything the container waits for, or shares with other tasks, is the `World`:
how a piece of the application's own code ends, the phase of the application,
whether the execution is over, what its extensions hold. It is read moment by
moment, and a moment passes with every look. Constructors and closures are taken
to read what they declare, in order and each once, and to hand on the first
error, which is what the generated ones do; `Resolver::declared` then refuses
none of their reads. A read under `Option` answers `None` for a `NotFound` and
hands on any other error.
-/

namespace Ulo

open Prog

/-! ## Errors -/

/-- What was not found. -/
inductive LookupKind
  | binding
  | extension
  | input
  | module
deriving DecidableEq, Inhabited

/-- Why code of the application did not do its work. An error is `permanent`
when it carries a `Permanent`, as the one for a refused bound does. -/
inductive FailureReason
  | panicked
  | timedOut
  | skipped
  | errored (permanent : Bool)
deriving DecidableEq, Inhabited

/-- **Why a read failed.** -/
inductive LookupError
  | notFound (key : KeyName) (kind : LookupKind)
  | notReady (key : KeyName)
  | wrongType (key : KeyName) (requested : TypeId)
  | wrongKind (key : KeyName) (expected found : BindingKind)
  | executionRequired (key : KeyName)
  | executionEnded (key : KeyName)
  | ambiguous (key : KeyName) (sources : List ModuleName)
  | construct (key : KeyName) (reason : FailureReason)
  | closed (key : KeyName)
deriving DecidableEq

/-- Whether `Option` reads the error as `None`. -/
def LookupError.isNotFound : LookupError → Bool
  | .notFound .. => true
  | _ => false

/-- `lookup_permanent`. -/
def LookupError.permanent : LookupError → Bool
  | .construct _ (.errored permanent) => permanent
  | _ => false

/-! ## The world -/

/-- The phases of an application, in order. -/
inductive Phase
  | wired
  | connecting
  | running
  | stopping
  | draining
  | destroying
  | closed
deriving DecidableEq, Inhabited

/-- The position of a phase. -/
def Phase.rank : Phase → ℕ
  | .wired => 0
  | .connecting => 1
  | .running => 2
  | .stopping => 3
  | .draining => 4
  | .destroying => 5
  | .closed => 6

/-- `allows_singleton_lookup`. -/
def Phase.allowsSingletonLookup (p : Phase) : Bool := p.rank < Phase.destroying.rank

/-- How a piece of the application's code ends: `run`'s outcomes, and the drop
of the future that waits for it. -/
inductive Ending
  | done
  | failed (permanent : Bool)
  | panicked
  | timedOut
  | refused
  | dropped
deriving DecidableEq, Inhabited

/-- **What the container does not decide**, at each moment. -/
structure World where
  ends : ℕ → Ending
  phase : ℕ → Phase
  /-- Whether the execution is over. -/
  ended : ℕ → Bool
  extensions : ℕ → TypeId → Option Instance

/-- A world in which all code does its work. -/
def calm : World where
  ends _ := .done
  phase _ := .connecting
  ended _ := false
  extensions _ _ := none

/-- What a cell of a cache holds the instance of. -/
inductive Slot
  | binding (id : BindingId)
  | closure (id : ClosureId)
deriving DecidableEq, Inhabited

/-- What owns a hook: a singleton, or a module through its own `on_*` calls. -/
inductive HookOwner
  | binding (id : BindingId)
  | module (id : ModuleId)
deriving DecidableEq, Inhabited

/-- What happened: a declared read was answered, with an error or without; a
readiness check passed; a hook of an owner, by its position, passed. -/
inductive Event
  | read (module : ModuleId) (read : Read) (error : Option LookupError)
  | ready (id : BindingId)
  | hook (owner : HookOwner) (position : ℕ)
deriving DecidableEq

/-- **What the container holds**: the singletons, the current execution's
instances and the closures built once, the moment, and what happened so far. -/
structure Memory where
  singletons : Map BindingId Instance := ∅
  cache : Map Slot Instance := ∅
  closures : Map Slot Instance := ∅
  clock : ℕ := 0
  events : List Event := []

/-- Whether an event is a read. -/
def Event.isRead : Event → Bool
  | .read .. => true
  | _ => false

/-- The checks and the hooks that passed, in order. -/
def Memory.marks (m : Memory) : List Event := m.events.filter fun e => !e.isRead

/-- A program of the container that may fail with a lookup error. -/
abbrev Lookup := Prog LookupError Memory

/-- The moment, which passes. -/
def now {ε : Type} : Prog ε Memory ℕ := fun m => (.done m.clock, { m with clock := m.clock + 1 })

/-- Notes what happened. -/
def note {ε : Type} (e : Event) : Prog ε Memory Unit :=
  modify fun m => { m with events := m.events ++ [e] }

/-- An answer computed at once. -/
def ofExcept {ε σ α : Type} : Except ε α → Prog ε σ α
  | .ok a => pure a
  | .error e => fail e

/-! ## The view -/

/-- Who is reading: the lifecycle's own hooks read while the application is
being destroyed. -/
inductive Purpose
  | lookup
  | lifecycle
deriving DecidableEq, Inhabited

/-- An execution, as a read sees it: the inputs its transport seeded. -/
structure Execution where
  inputs : Map TypeId Instance := ∅

/-- **The view an injection point reads through.** -/
structure Resolver where
  module : ModuleId
  exec : Option Execution := none
  purpose : Purpose := .lookup

/-- `in_module`. -/
def Resolver.inModule (r : Resolver) (module : ModuleId) : Resolver := { r with module := module }

/-- What an injection point is handed. -/
inductive Injected
  | one (i : Instance)
  | many (items : List Instance)
  | extension (i : Instance)
  | execution
  | module (id : ModuleId)
  | absent
deriving DecidableEq

/-- The type of the handle to the current execution. -/
def executionRefType : TypeId := 4

section Read

variable (g : Graph) (w : World)

/-- What a key names in a module. -/
inductive Found
  | binding (id : BindingId)
  | input (key : Key)
deriving DecidableEq

/-- **`locate`**: what `key` names in the module's table. -/
def locate (m : ModuleId) (key : Key) : Except LookupError Found :=
  match g.lookup m key with
  | some (.binding id) => .ok (.binding id)
  | some (.input input) => .ok (.input input)
  | some (.ambiguous sources) =>
    .error (.ambiguous ⟨key, .single⟩ (sources.map fun s => g.moduleName s.1))
  | none =>
    if g.collection key ≠ [] then
      .error (.wrongKind ⟨key, .collection⟩ .single .collection)
    else .error (.notFound ⟨key, .single⟩ .binding)

/-- **`contributions`**: every contribution to `key`; none is an error where the
module sees a single binding or an input under the key. -/
def contributions (m : ModuleId) (key : Key) : Except LookupError (List BindingId) :=
  if g.collection key = [] ∧ (g.lookup m key).isSome then
    .error (.wrongKind ⟨key, .single⟩ .collection .single)
  else .ok (g.collection key)

/-- `exec_for`. -/
def execFor (r : Resolver) (key : Key) : Lookup Execution :=
  match r.exec with
  | none => fail (.executionRequired ⟨key, .single⟩)
  | some exec => do
    let t ← now
    if w.ended t then fail (.executionEnded ⟨key, .single⟩) else pure exec

/-- `seeded`: the input as the transport seeded it. -/
def seeded (r : Resolver) (input : Key) (ty : TypeId) : Lookup Instance := do
  let exec ← execFor w r input
  match exec.inputs.lookup input.ty with
  | some i => if i.ty = ty then pure i else fail (.wrongType ⟨input, .single⟩ ty)
  | none => fail (.notFound ⟨input, .single⟩ .input)

/-- `coercion_to`: the coercion from what `id` builds to `ty`, an alias's being
its target's. The loop is bounded by the number of bindings. -/
def coercionTo (ty : TypeId) : ℕ → BindingId → Option Coercion
  | 0, _ => none
  | left + 1, id =>
    let record := (g.binding id).record
    if record.primary.ty = ty ∧ record.intoPrimary.isSome then record.intoPrimary
    else
      match record.also.find? (·.key.ty = ty) with
      | some also => some also.coerce
      | none =>
        match record.recipe with
        | .alias target =>
          match g.lookup (g.binding id).origin target with
          | some (.binding next) => coercionTo ty left next
          | _ => none
        | _ => none

/-- `widen`: the instance as `ty`. -/
def widen (id : BindingId) (ty : TypeId) (i : Instance) : Option Instance :=
  if i.ty = ty then some i
  else
    (coercionTo g ty g.bindings.length id).bind fun c =>
      if (c.apply i).ty = ty then some (c.apply i) else none

/-- `as_key`: an answer in the primary key's type as `key` names it. -/
def asKey (source : FrozenBinding) (key : Key) (i : Instance) : Instance :=
  if key.ty = source.record.primary.ty then i
  else
    match source.record.also.find? (·.key.ty = key.ty) with
    | some also => also.coerce.apply i
    | none => i

/-- One item of a read under `key`, in the type that was asked for. -/
def typed (id : BindingId) (key : KeyName) (ty : TypeId) (i : Instance) : Lookup Instance :=
  match widen g id ty i with
  | some i => pure i
  | none => fail (.wrongType key ty)

section Recursive

/-! The reads, given how a binding is obtained. -/

variable (instanceOf : Resolver → BindingId → Lookup Instance)

/-- **`single`**: the binding or the input under `key`, as `ty`. Nothing is built
for a wrong `ty`. -/
def single (r : Resolver) (key : Key) (ty : TypeId) : Lookup Instance := do
  let found ← ofExcept (locate g r.module key)
  if key.ty ≠ ty then fail (.wrongType ⟨key, .single⟩ ty)
  else
    match found with
    | .binding id => do
      let i ← instanceOf r id
      typed g id ⟨key, .single⟩ ty i
    | .input input => seeded w r input ty

/-- **`many`**: every contribution, one at a time and in order. -/
def many (r : Resolver) (key : Key) : Lookup (List Instance) := do
  let ids ← ofExcept (contributions g r.module key)
  each (fun id => do
    let i ← instanceOf r id
    typed g id ⟨key, .collection⟩ key.ty i) ids

/-- `ext`: an extension of the execution. -/
def ext (r : Resolver) (ty : TypeId) : Lookup Instance := do
  let _ ← execFor w r ⟨ty, unitType⟩
  let t ← now
  match w.extensions t ty with
  | some i => pure i
  | none => fail (.notFound ⟨⟨ty, unitType⟩, .single⟩ .extension)

/-- What an injection point reads, whatever it is under. -/
def readKind (r : Resolver) : ReadKind → Lookup Injected
  | .single key => do
    let i ← single g w instanceOf r key key.ty
    pure (.one i)
  | .collection key => do
    let items ← many g instanceOf r key
    pure (.many items)
  | .extension ty => do
    let i ← ext w r ty
    pure (.extension i)
  | .execution => do
    let _ ← execFor w r ⟨executionRefType, unitType⟩
    pure .execution
  | .module => pure (.module r.module)

/-- **One declared read**, answered. -/
def readOne (r : Resolver) (read : Read) : Lookup Injected := do
  let answer ← (readKind g w instanceOf r read.kind).attempt
  match answer with
  | .ok value => do
    note (.read r.module read none)
    pure value
  | .error e => do
    note (.read r.module read (some e))
    if read.optional ∧ e.isNotFound then pure .absent else fail e

/-- What a declaration reads, in order. -/
def readAll (r : Resolver) (d : Dependencies) : Lookup (List Injected) :=
  each (readOne g w instanceOf r) d.reads

/-- What `run` reports of the code it waited for. -/
inductive Outcome
  | done (moment : ℕ)
  | failed (permanent : Bool)
  | dependency (e : LookupError)
  | panicked
  | timedOut
  | refused
deriving DecidableEq

/-- **`run`** around a constructor or a closure with declared reads. The reads
are part of what the bound covers: where one of them is dropped, the bound may be
what dropped it. -/
def runCode {ε : Type} (r : Resolver) (d : Dependencies) : Prog ε Memory Outcome :=
  orDropped
    (do
      let read ← (readAll g w instanceOf r d).attempt
      match read with
      | .error e => pure (.dependency e)
      | .ok _ => do
        let t ← now
        match w.ends t with
        | .done => pure (.done t)
        | .failed permanent => pure (.failed permanent)
        | .panicked => pure .panicked
        | .timedOut => pure .timedOut
        | .refused => pure .refused
        | .dropped => drop)
    (do
      let t ← now
      match w.ends t with
      | .timedOut => pure .timedOut
      | .refused => pure .refused
      | _ => drop)

/-- **`build`**: an execution-scoped or transient binding, in its own module. The
object built is named by the moment it is built at. -/
def build (r : Resolver) (id : BindingId) (built : TypeId) : Lookup Instance := do
  let outcome ← runCode g w instanceOf (r.inModule (g.binding id).origin)
    (g.binding id).record.dependencies
  match outcome with
  | .done t => pure ⟨t, built⟩
  | .dependency e => fail e
  | .failed permanent => fail (.construct (g.keyName id) (.errored permanent))
  | .panicked => fail (.construct (g.keyName id) .panicked)
  | .timedOut => fail (.construct (g.keyName id) .timedOut)
  | .refused => fail (.construct (g.keyName id) (.errored true))

/-- `check_singleton_lookup`. -/
def checkSingletonLookup (r : Resolver) (key : KeyName) : Lookup Unit := do
  let t ← now
  if r.purpose = .lookup ∧ ¬ (w.phase t).allowsSingletonLookup then fail (.closed key)
  else pure ()

/-- `get_or_build` on the cache of the execution: a failed build is not kept, and
nothing is built once the execution is over. -/
def getOrBuild (slot : Slot) (key : KeyName) (code : Lookup Instance) : Lookup Instance := do
  let t ← now
  if w.ended t then fail (.executionEnded key)
  else do
    let m ← get
    match m.cache.lookup slot with
    | some i => pure i
    | none => do
      let i ← code
      modify fun m => { m with cache := m.cache.insert slot i }
      pure i

/-- `obtain_alias`. -/
def obtainAlias (r : Resolver) (id : BindingId) (target : Key) : Lookup Instance :=
  match g.lookup (g.binding id).origin target with
  | some (.binding source) => do
    let i ← instanceOf r source
    pure (asKey (g.binding source) target i)
  | some (.input input) =>
    match r.exec with
    | none => fail (.executionRequired ⟨input, .single⟩)
    | some exec =>
      match exec.inputs.lookup input.ty with
      | some i => pure i
      | none => fail (.notFound ⟨input, .single⟩ .input)
  | _ => fail (.notFound ⟨target, .single⟩ .binding)

/-- What a constructor or a factory answers, by the scope of its binding. -/
def obtainBuilt (r : Resolver) (id : BindingId) (built : TypeId) : Lookup Instance :=
  match (g.binding id).effective with
  | .singleton => do
    checkSingletonLookup w r (g.keyName id)
    let m ← get
    match m.singletons.lookup id with
    | some i => pure i
    | none => fail (.notReady (g.keyName id))
  | .perExecution =>
    match r.exec with
    | none => fail (.executionRequired (g.keyName id))
    | some _ => getOrBuild w (.binding id) (g.keyName id) (build g w instanceOf r id built)
  | .transient => build g w instanceOf r id built

/-- The answer in the type of the primary key. -/
def intoPrimary (id : BindingId) (i : Instance) : Instance :=
  match (g.binding id).record.intoPrimary with
  | some c => c.apply i
  | none => i

/-- A read through an execution that is over builds nothing for it. -/
def checkEnded (r : Resolver) (key : KeyName) : Lookup Unit :=
  match r.exec with
  | none => pure ()
  | some _ => do
    let t ← now
    if w.ended t then fail (.executionEnded key) else pure ()

/-- One call of `obtain`, given the ones it makes. -/
def obtainStep (r : Resolver) (id : BindingId) : Lookup Instance := do
  checkEnded w r (g.keyName id)
  match (g.binding id).record.recipe with
  | .alias target => obtainAlias g instanceOf r id target
  | .failed => fail (.notFound (g.keyName id) .binding)
  | .value i => do
    if (g.binding id).effective = .singleton then checkSingletonLookup w r (g.keyName id)
    pure (intoPrimary g id i)
  | .construct built | .factory built => do
    let i ← obtainBuilt g w instanceOf r id built
    pure (intoPrimary g id i)

end Recursive

/-- **`obtain`**: an instance of a binding in the view. -/
def obtain : ℕ → Resolver → BindingId → Lookup Instance
  | 0, _, _ => diverge
  | fuel + 1, r, id => obtainStep g w (obtain fuel) r id

end Read

end Ulo
