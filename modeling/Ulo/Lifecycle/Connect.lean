import Mathlib.Data.List.Sort
import Ulo.Resolver

/-!
# Connecting

`connect` builds the singletons it is given one after another, each followed by
its readiness check, and then runs the two startup hooks over the same order with
each module's own hooks after its providers'. The application connects the whole
graph, a load what it brought. The first failure ends the walk.
-/

namespace Ulo

open Prog

/-! ## Errors -/

/-- What a `ConnectError` holds of a failure: the reason, or the lookup error of
a read. -/
inductive Cause
  | failure (reason : FailureReason)
  | lookup (e : LookupError)
deriving DecidableEq

/-- **Why connecting stopped.** -/
inductive ConnectError
  | construct (key : KeyName) (module : ModuleName) (cause : Cause)
  | readiness (key : KeyName) (module : ModuleName) (attempts : ℕ) (cause : Cause)
  | hook (hook : HookKind) (key : KeyName) (cause : Cause)
deriving DecidableEq

/-! ## Hook order -/

/-- The singletons' index after the last one of `m`, if it has one. -/
def afterLast (g : Graph) (singletons : List BindingId) (m : ModuleId) : Option ℕ :=
  singletons.zipIdx.foldl (fun found p =>
    if (g.binding p.1).origin = m then some (p.2 + 1) else found) none

/-- Where each module's own hooks go: after its last singleton, and for a module
without one after the modules before it, the `floor`. -/
def placeModules (g : Graph) (singletons : List BindingId) :
    ℕ → List ModuleId → List (ℕ × ModuleId)
  | _, [] => []
  | floor, m :: modules =>
    let position := (afterLast g singletons m).getD floor
    (position, m) :: placeModules g singletons (max floor position) modules

/-- The singletons from position `i` on, with the placed modules between them. -/
def mergePlan : ℕ → List BindingId → List (ℕ × ModuleId) → List HookOwner
  | _, [], placed => placed.map fun p => .module p.2
  | i, id :: singletons, placed =>
    (placed.takeWhile (·.1 ≤ i)).map (fun p => .module p.2) ++
      .binding id :: mergePlan (i + 1) singletons (placed.dropWhile (·.1 ≤ i))

/-- **`hook_plan`**: the order hooks run in at startup. The sort is stable. -/
def hookPlan (g : Graph) (singletons : List BindingId) (modules : List ModuleId) :
    List HookOwner :=
  mergePlan 0 singletons
    ((placeModules g singletons 0 modules).insertionSort fun a b => a.1 ≤ b.1)

/-- `hooks_of`. -/
def hooksOf (g : Graph) : HookOwner → List HookRecord
  | .binding id => (g.binding id).record.hooks
  | .module id => (g.module id).hooks

/-- `owner_key`: the key a hook failure names. -/
def ownerKey (g : Graph) : HookOwner → KeyName
  | .binding id => g.keyName id
  | .module id =>
    let identity := (g.module id).identity
    ⟨⟨identity.ty, identity.qualifier.getD unitType⟩, .single⟩

section Connect

variable (g : Graph) (w : World) (fuel : ℕ)

/-- A program of the connect walk. -/
abbrev Connecting := Prog ConnectError Memory

/-! ## Singletons -/

/-- `owner_of`: the module a failed key belongs to. -/
def ownerOf (origin : ModuleId) (key : Key) : Option ModuleId :=
  match g.lookup origin key with
  | some (.binding id) => some (g.binding id).origin
  | _ => (g.bindings.find? fun b => key ∈ b.record.keys).map (·.origin)

/-- `dependency_failure`: a nested construction's failure keeps its own key. -/
def dependencyFailure (id : BindingId) (e : LookupError) : ConnectError :=
  let origin := (g.binding id).origin
  match e with
  | .construct key reason =>
    .construct key (g.moduleName ((ownerOf g origin key.key).getD origin)) (.failure reason)
  | e => .construct (g.keyName id) (g.moduleName origin) (.lookup e)

/-- Stores a singleton as its recipe built it. -/
def storeSingleton (id : BindingId) (i : Instance) : Connecting Unit :=
  modify fun m => { m with singletons := m.singletons.insert id i }

/-- **`build_singleton`.** An alias builds nothing. -/
def buildSingleton (id : BindingId) : Connecting Unit :=
  let failed := fun reason => ConnectError.construct (g.keyName id)
    (g.moduleName (g.binding id).origin) (.failure reason)
  match (g.binding id).record.recipe with
  | .value i => storeSingleton id i
  | .alias _ | .failed => pure ()
  | .construct built | .factory built => do
    let outcome ← runCode g w (obtain g w fuel) { module := (g.binding id).origin }
      (g.binding id).record.dependencies
    match outcome with
    | .done t => storeSingleton id ⟨t, built⟩
    | .dependency e => fail (dependencyFailure g id e)
    | .failed permanent => fail (failed (.errored permanent))
    | .panicked => fail (failed .panicked)
    | .timedOut => fail (failed .timedOut)
    | .refused => fail (failed (.errored true))

/-! ## Readiness -/

/-- A wait of the check under the bound of the whole check. -/
def underWhole {α : Type} (made : ℕ) (p : Prog (ℕ × Cause) Memory α) :
    Prog (ℕ × Cause) Memory α :=
  p.orDropped do
    let t ← now
    match w.ends t with
    | .timedOut => fail (made, .failure .timedOut)
    | .refused => fail (made, .failure (.errored true))
    | _ => drop

/-- The backoff before a retry. Where the timer refuses it the check is over, by
the bound of the whole check if that has passed. -/
def backoff (timed : Bool) (ready : ReadyRecord) (made : ℕ) : Prog (ℕ × Cause) Memory Unit :=
  if timed ∧ ready.backoff ≠ 0 then do
    let t ← now
    match w.ends t with
    | .refused => do
      let t ← now
      match w.ends t with
      | .timedOut => fail (made, .failure .timedOut)
      | _ => fail (made, .failure (.errored true))
    | .dropped => drop
    | _ => pure ()
  else pure ()

/-- Why an attempt that ended so is retried, or else what the check fails with. -/
def retryCause : Outcome → Except Cause (Option Cause)
  | .done _ => .ok none
  | .failed true => .error (.failure (.errored true))
  | .failed false => .ok (some (.failure (.errored false)))
  | .dependency e => if e.permanent then .error (.lookup e) else .ok (some (.lookup e))
  | .panicked => .error (.failure .panicked)
  | .timedOut => .ok (some (.failure .timedOut))
  | .refused => .error (.failure (.errored true))

/-- The attempts of a check, `left` retries after this one. -/
def attempts (timed : Bool) (r : Resolver) (ready : ReadyRecord) :
    ℕ → ℕ → Prog (ℕ × Cause) Memory Unit
  | left, made => do
    let outcome ← underWhole w made (runCode g w (obtain g w fuel) r ready.dependencies)
    match retryCause outcome with
    | .error cause => fail (made, cause)
    | .ok none => pure ()
    | .ok (some cause) =>
      match left with
      | 0 => fail (made, cause)
      | left + 1 => do
        underWhole w made (backoff w timed ready made)
        attempts timed r ready left (made + 1)

/-- **`run_readiness`.** -/
def runReadiness (timed : Bool) (id : BindingId) (ready : ReadyRecord) : Connecting Unit := do
  let checked ← (attempts g w fuel timed { module := (g.binding id).origin } ready ready.retries
    1).attempt
  match checked with
  | .ok () => note (.ready id)
  | .error (made, cause) =>
    fail (.readiness (g.keyName id) (g.moduleName (g.binding id).origin) made cause)

/-- Builds a singleton unless it is there. -/
def buildMissing (id : BindingId) : Connecting Unit := do
  let m ← get
  match m.singletons.lookup id with
  | some _ => pure ()
  | none => buildSingleton g w fuel id

/-- The readiness check of a singleton that has one. -/
def checkReady (timed : Bool) (id : BindingId) : Connecting Unit :=
  match (g.binding id).record.ready with
  | some ready => runReadiness g w fuel timed id ready
  | none => pure ()

/-- One singleton of the walk: it is built unless it is there, then checked. -/
def connectSingleton (timed : Bool) (id : BindingId) : Connecting Unit := do
  buildMissing g w fuel id
  checkReady g w fuel timed id

/-! ## Hooks -/

/-- `run_hook`: nothing for the hook of a singleton that was never built. -/
def runHook (owner : HookOwner) (hook : HookRecord) : Connecting (Option Outcome) := do
  let m ← get
  match owner with
  | .binding id =>
    match m.singletons.lookup id with
    | none => pure none
    | some _ => do
      let outcome ← runCode g w (obtain g w fuel)
        { module := (g.binding id).origin, purpose := .lifecycle } hook.dependencies
      pure (some outcome)
  | .module id => do
    let outcome ← runCode g w (obtain g w fuel) { module := id, purpose := .lifecycle }
      hook.dependencies
    pure (some outcome)

/-- One startup hook of an owner. -/
def startupHook (owner : HookOwner) (hook : HookRecord) (position : ℕ) : Connecting Unit := do
  let failed := fun cause => ConnectError.hook hook.kind (ownerKey g owner) cause
  let outcome ← runHook g w fuel owner hook
  match outcome with
  | none => pure ()
  | some (.done _) => note (.hook owner position)
  | some (.dependency e) => fail (failed (.lookup e))
  | some (.failed permanent) => fail (failed (.failure (.errored permanent)))
  | some .panicked => fail (failed (.failure .panicked))
  | some .timedOut => fail (failed (.failure .timedOut))
  | some .refused => fail (failed (.failure (.errored true)))

/-- The hooks of one kind that an owner has, with their positions. -/
def hooksOfKind (kind : HookKind) (owner : HookOwner) : List (HookRecord × ℕ) :=
  (hooksOf g owner).zipIdx.filter (·.1.kind = kind)

/-- **`run_startup_hooks`.** -/
def runStartupHooks (kind : HookKind) (singletons : List BindingId) (modules : List ModuleId) :
    Connecting Unit := do
  let _ ← each (fun owner => each (fun h => startupHook g w fuel owner h.1 h.2)
    (hooksOfKind g kind owner)) (hookPlan g singletons modules)
  pure ()

/-- The walk over the singletons. -/
def connectSingletons (timed : Bool) (singletons : List BindingId) : Connecting Unit := do
  let _ ← each (connectSingleton g w fuel timed) singletons
  pure ()

/-- **`connect`.** -/
def connect (timed : Bool) (singletons : List BindingId) (modules : List ModuleId) :
    Connecting Unit := do
  connectSingletons g w fuel timed singletons
  runStartupHooks g w fuel .onModuleInit singletons modules
  runStartupHooks g w fuel .onApplicationBootstrap singletons modules

end Connect

end Ulo
