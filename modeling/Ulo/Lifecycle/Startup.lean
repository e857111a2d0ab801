import Ulo.Graph.Conservative
import Ulo.Lifecycle.Connect
import Ulo.Resolver.Rule

/-!
# Startup is sound

Wiring decides, pass by pass, that the singletons can be built one after
another in `connectOrder`: every read resolves (`resolve`), nothing waits for
itself (`cycles`), nothing built once needs an execution (`scopes`), and every
singleton follows those it leads to (`order`). The resolver knows none of this
and looks every key up again.

`Available` is where the two meet. A binding is available once some singletons
are there if it can be obtained without an execution and without any other: it
is a value, one of those singletons, a transient whose reads lead to available
bindings only, or an alias of one that is available. Along the connect order,
what a singleton reads is available from the singletons before it
(`Graph.Wired.construction_available`, `readiness_available`); and available
bindings are a closed set in the sense of `Closed`, so that the walk meets none
of the errors that wiring is there to rule out (`Graph.Wired.connectSingletons`).
-/

namespace Ulo

open List Prog AList Ensures

/-! ## Available bindings -/

/-- A read that resolves and asks for no execution data. -/
def ReadPlain (g : Graph) (m : ModuleId) (r : Read) : Prop :=
  match r.kind with
  | .single key =>
    match g.lookup m key with
    | some (.binding _) => True
    | some (.input _) | some (.ambiguous _) => False
    | none => r.optional = true
  | .collection _ | .module => True
  | .extension _ | .execution => False

/-- **A binding that can be obtained outside of any execution** once the
singletons in `S` are in the store. -/
inductive Available (g : Graph) (S : BindingId → Prop) : BindingId → Prop
  | value {id : BindingId} {i : Instance} (hid : id < g.bindings.length)
      (hrecipe : (g.binding id).record.recipe = .value i) : Available g S id
  | stored {id : BindingId} (hid : id < g.bindings.length)
      (hbuilt : (g.binding id).record.recipe.isBuilt = true)
      (heff : (g.binding id).effective = .singleton) (hstored : S id) : Available g S id
  | transient {id : BindingId} (hid : id < g.bindings.length)
      (hbuilt : (g.binding id).record.recipe.isBuilt = true)
      (heff : (g.binding id).effective = .transient)
      (hplain : ∀ r ∈ (g.binding id).record.dependencies.reads, ReadPlain g (g.binding id).origin r)
      (hreads : ∀ r ∈ (g.binding id).record.dependencies.reads,
        ∀ dep ∈ g.readDeps (g.binding id).origin r, Available g S dep) : Available g S id
  | target {id t : BindingId} {key : Key} (hid : id < g.bindings.length)
      (hrecipe : (g.binding id).record.recipe = .alias key)
      (hlookup : g.lookup (g.binding id).origin key = some (.binding t))
      (htarget : Available g S t) : Available g S id

/-- **A read of available bindings**: it resolves, to none but those. -/
def ReadAvailable (g : Graph) (S : BindingId → Prop) (m : ModuleId) (r : Read) : Prop :=
  ReadPlain g m r ∧ ∀ dep ∈ g.readDeps m r, Available g S dep

variable {S : BindingId → Prop} {ready : ReadyRecord} {id : BindingId} {m : Memory} {g : Graph}

theorem Available.mono {S' : BindingId → Prop} (hsub : ∀ id, S id → S' id) (h : Available g S id) :
    Available g S' id := by
  induction h with
  | value hid hrecipe => exact .value hid hrecipe
  | stored hid hbuilt heff hstored => exact .stored hid hbuilt heff (hsub _ hstored)
  | transient hid hbuilt heff hplain _ ih => exact .transient hid hbuilt heff hplain ih
  | target hid hrecipe hlookup _ ih => exact .target hid hrecipe hlookup ih

/-- A read of available bindings is fine outside of any execution. -/
theorem ReadAvailable.fine {P : Promise}
    (hkinds : ∀ key expected found, ¬ P.bad (.wrongKind key expected found)) {m : ModuleId}
    {r : Read} (h : ReadAvailable g S m r) : ReadFine g none P (Available g S) m r := by
  refine ⟨fun _ => .inr hkinds, ?_⟩
  obtain ⟨hplain, hdeps⟩ := h
  unfold ReadPlain at hplain
  unfold Graph.readDeps at hdeps
  unfold TargetFine
  cases hkind : r.kind with
  | single key =>
    simp only [hkind] at hplain hdeps ⊢
    cases hl : g.lookup m key with
    | none => simpa only [hl] using hplain
    | some v =>
      cases v with
      | binding id =>
        simp only [hl] at hdeps ⊢
        exact hdeps id (mem_singleton_self id)
      | input | ambiguous => simp only [hl] at hplain
  | collection => simpa only [hkind] using hdeps
  | extension | execution => simp only [hkind] at hplain
  | module => trivial

/-! ## What singletons read is available -/

section Static

variable {g : Graph} (hg : g.Wired) {dep id : BindingId}
include hg

section

variable (hid : id < g.bindings.length)
include hid

/-- What a binding without the need reads passes none on. -/
theorem Graph.Wired.not_passes (hneeds : (g.binding id).needsExecution = false)
    (hdep : dep ∈ g.constructionDeps id) : g.passesExecution dep = false := by
  rw [Bool.eq_false_iff]
  intro hpasses
  obtain ⟨hdepNeeds, hands⟩ :=
    (hg.decided.passes_iff (passesExecution_lt hpasses)).mp hpasses
  rw [(hg.decided.needs id hid).mpr (.through hid hdep hdepNeeds hands)] at hneeds
  cases hneeds

/-- The reads of a binding without the need are plain. -/
theorem Graph.Wired.readPlain (hneeds : (g.binding id).needsExecution = false) :
    ∀ r ∈ (g.binding id).record.dependencies.reads, ReadPlain g (g.binding id).origin r := by
  intro r hr
  -- a read of execution data is an edge at which the need arises
  have hedge : ∀ target, readTarget g (g.binding id).origin r = some target →
      target ≠ .execution ∧ ∀ input, target ≠ .input input := by
    intro target htarget
    obtain ⟨e, he, heq⟩ := edge_of_read hr htarget
    rw [← hg.edges id hid] at he
    have hquiet : e.readsExecution = false := by
      rw [Bool.eq_false_iff]
      intro hreads
      have hown : (g.binding id).ownNeed = true := by
        rw [FrozenBinding.ownNeed, any_eq_true.mpr ⟨e, he, hreads⟩, Bool.or_true]
      rw [(hg.decided.needs id hid).mpr (.own hid hown)] at hneeds
      cases hneeds
    unfold Edge.readsExecution at hquiet
    constructor
    · rintro rfl
      simp [heq] at hquiet
    · rintro input rfl
      simp [heq] at hquiet
  have hresolves := hg.resolved.bindings id hid r hr
  unfold ReadPlain
  unfold Resolves at hresolves
  unfold readTarget keyTarget at hedge
  cases hkind : r.kind with
  | single key =>
    simp only [hkind] at hedge hresolves ⊢
    cases hl : g.lookup (g.binding id).origin key with
    | none => simpa only [hl] using hresolves
    | some v =>
      cases v with
      | binding => trivial
      | input input =>
        simp only [hl] at hedge
        exact (hedge _ rfl).2 input rfl
      | ambiguous => simp only [hl] at hresolves
  | collection | module => trivial
  | extension | execution =>
    simp only [hkind] at hedge
    exact (hedge _ rfl).1 rfl

/-- An alias is a transient. -/
theorem Graph.Wired.effective_of_alias {key : Key}
    (hrecipe : (g.binding id).record.recipe = .alias key) :
    (g.binding id).effective = .transient := by
  rw [hg.decided.effective id hid, FrozenBinding.effectiveOf,
    ((g.binding id).record.aliasShape key hrecipe).2.1]

theorem Graph.Wired.needs_of_singleton (heff : (g.binding id).effective = .singleton) :
    (g.binding id).needsExecution = false := by
  rw [Bool.eq_false_iff]
  exact fun h => (hg.scopes _ (binding_mem hid)).needs h heff

end

/-- **What a singleton leads to is available** once those before it in the
connect order are there, unless it passes the need for an execution on. -/
theorem Graph.Wired.leadsTo_available {pre post : List BindingId}
    (hsplit : g.connectOrder = pre ++ id :: post) (hid : id < g.bindings.length)
    (hleads : LeadsTo g id dep) (hpasses : g.passesExecution dep = false) :
    Available g (· ∈ pre) dep := by
  obtain ⟨rank, hrank⟩ := hg.acyclic
  have hbounds := hg.readsInBounds
  rw [hg.connectOrder] at hsplit
  -- along the reads of transients the rank falls, so no such path comes back to the singleton
  induction hn : rank dep using Nat.strong_induction_on generalizing dep with
  | _ n ih =>
    subst hn
    have hdep := hleads.lt hbounds hid
    have hnext : (g.binding dep).effective = .transient → ∀ next ∈ g.constructionDeps dep,
        g.passesExecution next = false → Available g (· ∈ pre) next := by
      intro heff next hmem hnextPasses
      have hlt := constructionDeps_lt hbounds hdep next hmem
      have hfall := hrank dep hdep next (mem_append_left _ hmem) hlt
      have hne : next ≠ id := by
        rintro rfl
        exact Nat.lt_asymm hfall (hleads.rank_lt hbounds hid hrank)
      exact ih _ hfall (.through hleads heff hmem hne) hnextPasses rfl
    have hbuilt : (g.binding dep).record.recipe.isBuilt = true → Available g (· ∈ pre) dep := by
      intro hbuilt
      cases heff : (g.binding dep).effective with
      | singleton =>
        exact .stored hdep hbuilt heff
          (connectOrder_before hbounds hg.acyclic hsplit hleads (by simp [isSingleton, heff]))
      | perExecution => simp [Graph.passesExecution, heff] at hpasses
      | transient =>
        have hneeds : (g.binding dep).needsExecution = false := by
          simpa only [Graph.passesExecution, heff] using hpasses
        refine .transient hdep hbuilt heff (hg.readPlain hdep hneeds) fun r hr next hmem => ?_
        have hmem' := hg.readDeps_subset hdep hr next hmem
        exact hnext heff next hmem' (hg.not_passes hdep hneeds hmem')
    cases hrecipe : (g.binding dep).record.recipe with
    | construct | factory => exact hbuilt (by rw [hrecipe]; rfl)
    | value => exact .value hdep hrecipe
    | «alias» key =>
      have heff := hg.effective_of_alias hdep hrecipe
      have hneeds : (g.binding dep).needsExecution = false := by
        simpa only [Graph.passesExecution, heff] using hpasses
      obtain ⟨t, hl⟩ := hg.aliases dep hdep key hrecipe
      have hmem : t ∈ g.constructionDeps dep :=
        mem_append_right _ (Option.mem_toList.mpr (by simp [Graph.aliasTarget, hrecipe, hl]))
      exact .target hdep hrecipe hl (hnext heff t hmem (hg.not_passes hdep hneeds hmem))
    | failed =>
      have hfailed := hg.built _ (binding_mem hdep)
      rw [hrecipe] at hfailed
      cases hfailed

section Order

variable {pre post : List BindingId} {id : BindingId}
  (hsplit : g.connectOrder = pre ++ id :: post)
include hsplit

theorem Graph.Wired.singleton_of_order :
    id < g.bindings.length ∧ (g.binding id).effective = .singleton := by
  have hmem : id ∈ singletonIds g := by
    rw [hg.connectOrder] at hsplit
    exact (connectOrder_perm hg.readsInBounds).mem_iff.mp (by simp [hsplit])
  simpa [isSingleton] using mem_singletonIds.mp hmem

omit hsplit in
theorem Graph.Wired.waitsFor_ne (hid : id < g.bindings.length) :
    ∀ dep ∈ waitsFor g id, dep ≠ id := by
  rintro dep hdep rfl
  obtain ⟨rank, hrank⟩ := hg.acyclic
  exact Nat.lt_irrefl _ (hrank dep hid dep hdep hid)

/-- **What constructing a singleton reads is available** from those before it. -/
theorem Graph.Wired.construction_available :
    ∀ r ∈ (g.binding id).record.dependencies.reads,
      ReadAvailable g (· ∈ pre) (g.binding id).origin r := by
  obtain ⟨hid, heff⟩ := hg.singleton_of_order hsplit
  have hneeds := hg.needs_of_singleton hid heff
  refine fun r hr => ⟨hg.readPlain hid hneeds r hr, fun dep hdep => ?_⟩
  have hmem := hg.readDeps_subset hid hr dep hdep
  have hwaits : dep ∈ waitsFor g id := mem_append_left _ hmem
  exact hg.leadsTo_available hsplit hid (.read hwaits (hg.waitsFor_ne hid dep hwaits))
    (hg.not_passes hid hneeds hmem)

/-- A singleton is available when it is there. -/
theorem Graph.Wired.self_available : Available g (· ∈ pre ++ [id]) id := by
  obtain ⟨hid, heff⟩ := hg.singleton_of_order hsplit
  have hstored : id ∈ pre ++ [id] := by simp
  cases hrecipe : (g.binding id).record.recipe with
  | construct | factory => exact .stored hid (by rw [hrecipe]; rfl) heff hstored
  | value => exact .value hid hrecipe
  | «alias» key =>
    rw [hg.effective_of_alias hid hrecipe] at heff
    cases heff
  | failed =>
    have hfailed := hg.built _ (binding_mem hid)
    rw [hrecipe] at hfailed
    cases hfailed

/-- **What its readiness check reads is available** from those before it and
itself. -/
theorem Graph.Wired.readiness_available (hready : (g.binding id).record.ready = some ready) :
    ∀ r ∈ ready.dependencies.reads,
      ReadAvailable g (· ∈ pre ++ [id]) (g.binding id).origin r := by
  intro r hr
  obtain ⟨hid, heff⟩ := hg.singleton_of_order hsplit
  have hmem := binding_mem hid
  have hresolves := (hg.resolved.closures _ hmem).ready ready hready r hr
  have houtside := hg.outside.ready _ hmem ready hready r hr
  rw [hg.laid.ids id _ (getElem?_binding hid)] at houtside
  -- the check may read its own singleton, and anything else as the constructor may
  have hdep : ∀ dep ∈ g.readDeps (g.binding id).origin r,
      some dep = some id ∨ g.passesExecution dep = false →
        Available g (· ∈ pre ++ [id]) dep := by
    intro dep hdep hcase
    by_cases hself : dep = id
    · rw [hself]
      exact hg.self_available hsplit
    · have hwaits : dep ∈ waitsFor g id := by
        refine mem_append_right _ ?_
        simp only [Graph.readinessDeps, hready, Graph.closureDeps]
        exact mem_filter.mpr ⟨mem_flatMap.mpr ⟨r, hr, hdep⟩, by simpa using hself⟩
      have hpasses := hcase.resolve_left fun h => hself (Option.some.inj h)
      exact (hg.leadsTo_available hsplit hid (.read hwaits hself) hpasses).mono fun _ h =>
        mem_append_left _ h
  unfold ReadAvailable ReadPlain
  unfold Resolves at hresolves
  unfold ReadOutside at houtside
  unfold Graph.readDeps at hdep ⊢
  cases hkind : r.kind with
  | single key =>
    simp only [hkind] at hresolves houtside hdep ⊢
    cases hl : g.lookup (g.binding id).origin key with
    | none =>
      simp only [hl] at hresolves ⊢
      exact ⟨hresolves, fun dep h => absurd h not_mem_nil⟩
    | some v =>
      cases v with
      | binding =>
        simp only [hl] at houtside hdep ⊢
        refine ⟨trivial, fun dep h => hdep dep h ?_⟩
        rwa [mem_singleton.mp h]
      | input => simp only [hl] at houtside
      | ambiguous => simp only [hl] at hresolves
  | collection =>
    simp only [hkind] at houtside hdep ⊢
    exact ⟨trivial, fun dep h => hdep dep h (houtside dep h)⟩
  | extension | execution => simp only [hkind] at houtside
  | module => exact ⟨trivial, fun dep h => absurd h not_mem_nil⟩

end Order

end Static

/-! ## Available bindings are closed -/

/-- **The errors wiring rules out at startup.** -/
def StartupFault : LookupError → Prop
  | .notReady _ | .executionRequired _ | .ambiguous .. | .notFound _ .binding => True
  | _ => False

/-- What startup promises, once the singletons in `S` are there. -/
def startupPromise (S : BindingId → Prop) : Promise where
  bad := StartupFault
  inv m := ∀ id, S id → id ∈ m.singletons
  stable _ _ hstore _ h id hid := hstore ▸ h id hid

theorem Available.closed (g : Graph) (S : BindingId → Prop) :
    Closed g none (startupPromise S) (Available g S) where
  fault e he := by
    change StartupFault e at he
    unfold StartupFault at he
    split at he <;> first | rfl | cases he
  lt id h := by cases h <;> assumption
  target id h target hrecipe := by
    cases h with
    | value _ h => rw [h] at hrecipe; cases hrecipe
    | stored _ h | transient _ h => rw [hrecipe] at h; cases h
    | target _ h hl ht =>
      rw [h] at hrecipe
      cases hrecipe
      exact ⟨_, hl, ht⟩
  built id h := by
    cases h with
    | value _ h | target _ h => rw [h]; rfl
    | stored _ h | transient _ h => exact Recipe.isFailed_of_isBuilt h
  held id h hbuilt heff := by
    cases h with
    | value _ h | target _ h => rw [h] at hbuilt; cases hbuilt
    | stored _ _ _ hstored => exact .inl fun m hm => hm _ hstored
    | transient _ _ h => rw [heff] at h; cases h
  executed id h hbuilt heff _ := by
    cases h with
    | value _ h | target _ h => rw [h] at hbuilt; cases hbuilt
    | stored _ _ h | transient _ _ h => rw [heff] at h; cases h
  reads id h hbuilt heff r hr := by
    cases h with
    | value _ h | target _ h => rw [h] at hbuilt; cases hbuilt
    | stored _ _ h => exact absurd h heff
    | transient _ _ _ hplain hreads =>
      exact ReadAvailable.fine (fun _ _ _ h => h) ⟨hplain r hr, hreads r hr⟩

/-! ## The walk -/

/-- The cause an error reports. -/
def ConnectError.cause : ConnectError → Cause
  | .construct _ _ cause | .readiness _ _ _ cause | .hook _ _ cause => cause

/-- A cause that is no bad error, but for an excuse. -/
def Promise.cause (P : Promise) (cause : Cause) (m : Memory) : Prop :=
  ∀ e, cause = .lookup e → P.bad e → P.Excused m

/-- How a part of the walk may end early. -/
def Promise.walkExits (P : Promise) : Exits ConnectError Memory where
  failed e m := P.cause e.cause m ∧ P.Holds m
  dropped := P.Holds

/-- How the attempts of a check may. -/
def Promise.checkExits (P : Promise) : Exits (ℕ × Cause) Memory where
  failed e m := P.cause e.2 m ∧ P.Holds m
  dropped := P.Holds

section Walk

variable {g : Graph} {w : World} {fuel : ℕ} {P : Promise} {Fine : BindingId → Prop}

theorem cause_failure (P : Promise) (reason : FailureReason) (m : Memory) :
    P.cause (.failure reason) m := fun _ h => (nomatch h)

theorem underWhole_holds {α : Type} {Q : α → Memory → Prop} {made : ℕ}
    {p : Prog (ℕ × Cause) Memory α} (hp : Ensures P.Holds p Q P.checkExits) :
    Ensures P.Holds (underWhole w made p) Q P.checkExits := by
  refine orDropped (Z := P.checkExits) hp (bind (P.now _) fun t => ?_)
  cases w.ends t with
  | timedOut | refused => exact fail fun m hm => ⟨cause_failure P _ m, hm⟩
  | _ => exact drop fun m hm => hm

theorem backoff_holds (timed : Bool) (ready : ReadyRecord) (made : ℕ) :
    Ensures P.Holds (backoff w timed ready made) (fun _ => P.Holds) P.checkExits := by
  unfold backoff
  split
  · refine bind (P.now _) fun t => ?_
    cases w.ends t with
    | refused =>
      refine bind (P.now _) fun t => ?_
      cases w.ends t <;> exact fail fun m hm => ⟨cause_failure P _ m, hm⟩
    | dropped => exact drop fun m hm => hm
    | _ => exact ret fun m hm => hm
  · exact ret fun m hm => hm

/-- What a check fails with, or is retried for, is what its attempt ended with. -/
theorem retryCause_cause {outcome : Outcome} (h : P.outcome outcome m) {cause : Cause}
    (hcause : retryCause outcome = .error cause ∨ retryCause outcome = .ok (some cause)) :
    P.cause cause m := by
  intro e he hbad
  subst he
  cases outcome with
  | dependency e' =>
    have heq : e' = e := by
      simp only [retryCause] at hcause
      split at hcause <;> simpa using hcause
    exact h.1 e (by rw [heq]) hbad
  | failed permanent => cases permanent <;> simp [retryCause] at hcause
  | _ => simp [retryCause] at hcause

variable (hc : Closed g none P Fine)
  (hobtain : ∀ r id, r.exec = none → Fine id → Harmless P (obtain g w fuel r id)) {timed : Bool}
include hc hobtain

theorem attempts_holds {r : Resolver} (hexec : r.exec = none)
    (hfine : ∀ read ∈ ready.dependencies.reads, ReadFine g none P Fine r.module read)
    (left made : ℕ) : Ensures P.Holds (attempts g w fuel timed r ready left made) (fun _ => P.Holds)
      P.checkExits := by
  induction left generalizing made with
  | zero =>
    unfold attempts
    refine bind (underWhole_holds (hc.runCode hobtain hexec hfine fun m hm => hm))
      fun outcome => ?_
    split
    · rename_i hretry
      exact fail fun m hm => ⟨retryCause_cause hm (.inl hretry), hm.2⟩
    · exact ret fun m hm => hm.2
    · rename_i hretry
      exact fail fun m hm => ⟨retryCause_cause hm (.inr hretry), hm.2⟩
  | succ left ih =>
    unfold attempts
    refine bind (underWhole_holds (hc.runCode hobtain hexec hfine fun m hm => hm))
      fun outcome => ?_
    split
    · rename_i hretry
      exact fail fun m hm => ⟨retryCause_cause hm (.inl hretry), hm.2⟩
    · exact ret fun m hm => hm.2
    · refine pre (P := P.Holds) ?_ fun m hm => hm.2
      exact bind (underWhole_holds (backoff_holds timed ready made)) fun _ => ih (made + 1)

/-- **A readiness check with fine reads** keeps the promise until it has passed. -/
theorem runReadiness_holds {Q : Memory → Prop}
    (hpassed : ∀ m, P.Holds m → Q { m with events := m.events ++ [.ready id] })
    (hfine : ∀ read ∈ ready.dependencies.reads,
      ReadFine g none P Fine (g.binding id).origin read) :
    Ensures P.Holds (runReadiness g w fuel timed id ready) (fun _ => Q) P.walkExits := by
  unfold runReadiness
  refine bind (Q := fun checked m => (∀ e, checked = .error e → P.cause e.2 m) ∧
    P.Holds m) ?_ fun checked => ?_
  · refine attempt ((attempts_holds hc hobtain rfl hfine _ _).mono (fun _ hm => hm) ?_ ?_
      fun _ hm => hm)
    · exact fun _ m hm => ⟨fun e he => (nomatch he), hm⟩
    · intro e m he
      refine ⟨fun e' he' => ?_, he.2⟩
      rw [← Except.error.inj he']
      exact he.1
  · cases checked with
    | ok => exact modify fun m hm => hpassed m hm.2
    | error e => exact fail fun m hm => ⟨hm.1 e rfl, hm.2⟩

end Walk

section Startup

variable {g : Graph} (hg : g.Wired) (w : World) {fuel : ℕ} (hfuel : g.bindings.length ≤ fuel)
  {pre post : List BindingId} {id : BindingId} (hsplit : g.connectOrder = pre ++ id :: post)
  {m : Memory}

/-- A singleton that is there is one of those held. -/
theorem startup_hold (hm : (startupPromise (· ∈ pre)).Holds m) (hid : id ∈ m.singletons) :
    (startupPromise (· ∈ pre ++ [id])).Holds m := by
  refine ⟨fun id' hid' => ?_, hm.events⟩
  rcases mem_snoc.mp hid' with hid' | hid'
  · exact hm.inv id' hid'
  · rwa [hid']

theorem startup_passed {S : BindingId → Prop} (hm : (startupPromise S).Holds m) (id : BindingId) :
    (startupPromise S).Holds { m with events := m.events ++ [.ready id] } := by
  refine ⟨hm.inv, hm.events.imp ?_ fun hkept e he => ?_⟩
  · rintro ⟨e, he, hexcuses⟩
    exact ⟨e, mem_append_left _ he, hexcuses⟩
  · rcases mem_snoc.mp he with he | rfl
    · exact hkept e he
    · trivial

theorem startup_store (hm : (startupPromise (· ∈ pre)).Holds m) (i : Instance) :
    (startupPromise (· ∈ pre ++ [id])).Holds { m with singletons := m.singletons.insert id i } :=
  startup_hold ⟨fun id' hid' => (mem_insert _).mpr (.inr (hm.inv id' hid')), hm.events⟩
    ((mem_insert _).mpr (.inl rfl))

include hg hfuel

theorem Graph.Wired.obtain_available (S : BindingId → Prop) (r : Resolver) (id : BindingId)
    (hexec : r.exec = none) (hid : Available g S id) :
    Harmless (startupPromise S) (obtain g w fuel r id) :=
  (Available.closed g S).obtain hg hfuel hexec hid

include hsplit

/-- **Building a singleton** finds what it reads, and puts it in the store. -/
theorem Graph.Wired.buildSingleton :
    Ensures (startupPromise (· ∈ pre)).Holds (buildSingleton g w fuel id)
      (fun _ => (startupPromise (· ∈ pre ++ [id])).Holds) (startupPromise (· ∈ pre)).walkExits := by
  obtain ⟨hid, heff⟩ := hg.singleton_of_order hsplit
  have hfine : ∀ r ∈ (g.binding id).record.dependencies.reads, ReadFine g none
      (startupPromise (· ∈ pre)) (Available g (· ∈ pre)) (g.binding id).origin r :=
    fun r hr => (hg.construction_available hsplit r hr).fine fun _ _ _ h => h
  have hrun := (Available.closed g (· ∈ pre)).runCode (w := w)
    (X := (startupPromise (· ∈ pre)).walkExits) (r := { module := (g.binding id).origin })
    (hg.obtain_available w hfuel (· ∈ pre)) rfl hfine fun m hm => hm
  have hexit : ∀ (e : ConnectError) (reason : FailureReason), e.cause = .failure reason →
      Ensures (fun m => (startupPromise (· ∈ pre)).Holds m) (fail e : Connecting Unit)
        (fun _ => (startupPromise (· ∈ pre ++ [id])).Holds) (startupPromise (· ∈ pre)).walkExits :=
    fun e reason he => fail fun m hm => ⟨he ▸ cause_failure _ _ m, hm⟩
  unfold Ulo.buildSingleton
  split
  · exact modify fun m hm => startup_store hm _
  · rename_i hrecipe
    rw [hg.effective_of_alias hid hrecipe] at heff
    cases heff
  · rename_i hrecipe
    have hfailed := hg.built _ (binding_mem hid)
    rw [hrecipe] at hfailed
    cases hfailed
  all_goals
    refine bind hrun fun outcome => ?_
    cases outcome with
    | done => exact modify fun m hm => startup_store hm.2 _
    | dependency e =>
      refine fail fun m hm => ⟨fun e' he' hbad => ?_, hm.2⟩
      unfold dependencyFailure at he'
      split at he'
      · cases he'
      · cases he'
        exact hm.1 e rfl hbad
    | _ => exact (hexit _ _ rfl).pre fun m hm => hm.2

theorem Graph.Wired.checkReady (timed : Bool) :
    Ensures (startupPromise (· ∈ pre ++ [id])).Holds (checkReady g w fuel timed id)
      (fun _ => (startupPromise (· ∈ pre ++ [id])).Holds)
      (startupPromise (· ∈ pre ++ [id])).walkExits := by
  unfold Ulo.checkReady
  split
  · rename_i hready
    exact runReadiness_holds (Available.closed g _) (hg.obtain_available w hfuel _)
      (fun m hm => startup_passed hm id) fun r hr =>
        (hg.readiness_available hsplit hready r hr).fine fun _ _ _ h => h
  · exact ret fun m hm => hm

/-- **One singleton of the walk.** -/
theorem Graph.Wired.connectSingleton (timed : Bool) :
    Ensures (startupPromise (· ∈ pre)).Holds (connectSingleton g w fuel timed id)
      (fun _ => (startupPromise (· ∈ pre ++ [id])).Holds)
      (startupPromise (· ∈ [])).walkExits := by
  have hweaken : ∀ {S : BindingId → Prop} {m : Memory}, (startupPromise S).Holds m →
      (startupPromise (· ∈ [])).Holds m := fun hm => ⟨fun _ h => (nomatch h), hm.events⟩
  refine bind (Q := fun _ => (startupPromise (· ∈ pre ++ [id])).Holds) ?_ fun _ =>
    (hg.checkReady w hfuel hsplit timed).mono (fun _ hm => hm) (fun _ _ hm => hm)
      (fun _ _ he => ⟨he.1, hweaken he.2⟩) fun _ hm => hweaken hm
  unfold buildMissing
  refine bind (Q := fun found m => found = m ∧ (startupPromise (· ∈ pre)).Holds m)
    (get fun m hm => ⟨rfl, hm⟩) fun found => ?_
  split
  · rename_i hthere
    refine ret ?_
    rintro m ⟨rfl, hm⟩
    exact startup_hold hm (lookup_isSome.mp (by rw [hthere]; rfl))
  · exact (hg.buildSingleton w hfuel hsplit).mono (fun _ hm => hm.2) (fun _ _ hm => hm)
      (fun _ _ he => ⟨he.1, hweaken he.2⟩) fun _ hm => hweaken hm

omit hsplit in
/-- **The walk over the connect order** keeps what startup promises. -/
theorem Graph.Wired.connectSingletons (timed : Bool) :
    Ensures (startupPromise (· ∈ [])).Holds (connectSingletons g w fuel timed g.connectOrder)
      (fun _ => (startupPromise (· ∈ g.connectOrder)).Holds)
      (startupPromise (· ∈ [])).walkExits :=
  bind (each g.connectOrder (fun pre => (startupPromise (· ∈ pre)).Holds)
    fun _ _ _ hsplit => hg.connectSingleton w hfuel hsplit timed) fun _ =>
      ret fun _ hm => hm

end Startup

/-! ## Wiring is sound for startup -/

/-- **No declared read met an error that wiring rules out**, but that an optional
one missed what it asks for. -/
def Memory.Quiet (m : Memory) : Prop :=
  ∀ module r e, .read module r (some e) ∈ m.events → StartupFault e →
    r.optional = true ∧ e.isNotFound = true

theorem startup_quiet (h : (startupPromise S).Holds m) : m.Quiet := by
  intro module r e he
  rcases h.events with ⟨x, -, hexcuses⟩ | hkept
  · unfold Promise.Excuses at hexcuses
    split at hexcuses
    · exact hexcuses.2.elim
    · exact hexcuses.elim
  · exact hkept _ he

theorem startup_cause {cause : Cause} (h : (startupPromise S).cause cause m) {e : LookupError}
    (he : cause = .lookup e) : ¬ StartupFault e := by
  intro hfault
  obtain ⟨x, -, hexcuses⟩ := h e he hfault
  unfold Promise.Excuses at hexcuses
  split at hexcuses
  · exact hexcuses.2
  · exact hexcuses

/-- **Wiring is sound for connecting.** What a singleton of a wired application
and its readiness check read is available when their turn comes, and so the walk
over the connect order ends without any of the errors that wiring rules out: in a
read on the way, or in what it reports. -/
theorem wire_connect_sound {cat : Catalog} {root : Fin cat.size} {env : WireEnv}
    {plan : Option (TestPlan cat.size)} {g : Graph} (h : wire cat root env plan = .ok g)
    (w : World) (timed : Bool) {fuel : ℕ} (hfuel : g.bindings.length ≤ fuel) :
    (∀ pre id post, g.connectOrder = pre ++ id :: post →
      (∀ r ∈ (g.binding id).record.dependencies.reads,
        ReadAvailable g (· ∈ pre) (g.binding id).origin r) ∧
      ∀ ready, (g.binding id).record.ready = some ready → ∀ r ∈ ready.dependencies.reads,
        ReadAvailable g (· ∈ pre ++ [id]) (g.binding id).origin r) ∧
    Ensures (fun m => m.events = []) (connectSingletons g w fuel timed g.connectOrder)
      (fun _ m => (∀ id ∈ g.connectOrder, id ∈ m.singletons) ∧ m.Quiet)
      ⟨fun e m => (∀ err, e.cause = .lookup err → ¬ StartupFault err) ∧ m.Quiet, Memory.Quiet⟩ := by
  have hg := wire_wired h
  refine ⟨fun pre id post hsplit => ⟨hg.construction_available hsplit, fun ready hready =>
    hg.readiness_available hsplit hready⟩, ?_⟩
  refine (hg.connectSingletons w hfuel timed).mono (fun m hm => ?_) (fun _ m hm => ?_)
    (fun e m he => ?_) fun m hm => startup_quiet hm
  · refine ⟨fun _ h => (nomatch h), .inr fun e he => ?_⟩
    rw [hm] at he
    cases he
  · exact ⟨hm.inv, startup_quiet hm⟩
  · exact ⟨fun err herr => startup_cause he.1 herr, startup_quiet he.2⟩

theorem wire_connect_sound_feature :
    (sampleApp 1).connectOrder = [0, 2, 1] ∧
      (connectSingletons (sampleApp 1) calm 6 false (sampleApp 1).connectOrder {}).1 ≠ .diverged ∧
      (connectSingletons (sampleApp 1) calm 6 false (sampleApp 1).connectOrder {}).2.Quiet :=
  ⟨by decide +kernel, (wire_connect_sound (sampleApp_eq 1) calm false (by decide +kernel)).2.final
    (fun _ _ h => h.2) (fun _ _ h => h.2) (fun _ h => h) rfl⟩

end Ulo
