import Ulo.Graph.Visibility
import Ulo.Lib.Check

/-!
# Resolving the declared reads

Every declared read of a single key is resolved in its reader's module: a
binding's own reads become its edges, and the reads of readiness checks,
hooks, metadata, handlers and enhancers are checked and not kept. An ambiguous
key is an error whoever reads it, a missing key is one unless the read is
optional.

The pass remembers the ambiguities it reported, for two reads that would
report them a second time: the pipeline's lookup of a handler's controller,
and a lookup that names no module, which goes to the root.
-/

namespace Ulo

open List Check

/-- The errors so far, and the ambiguities already reported. -/
structure Report where
  errors : List WiringError := []
  reported : List (ModuleId × Key) := []

/-- What `check_key` answers: the target of a single read. -/
def keyTarget (g : Graph) (m : ModuleId) (key : Key) : Option EdgeTarget :=
  match g.lookup m key with
  | some (.binding id) => some (.binding id)
  | some (.input input) => some (.input input)
  | some (.ambiguous _) | none => none

/-- What `check_key` reports. -/
def checkKey (g : Graph) (m : ModuleId) (key : Key) (optional : Bool)
    (consumer : Consumer) (rep : Report) : Report :=
  match g.lookup m key with
  | some (.binding _) | some (.input _) => rep
  | some (.ambiguous list) =>
    { errors := rep.errors ++ [.ambiguous ⟨key, .single⟩ consumer (g.moduleName m)
        (ambiguousSources g list)]
      reported := (m, key) :: rep.reported }
  | none =>
    if optional then rep
    else { rep with errors := rep.errors ++
      [.missing ⟨key, .single⟩ consumer (g.moduleName m)] }

/-- The target of one declared read. -/
def readTarget (g : Graph) (m : ModuleId) (r : Read) : Option EdgeTarget :=
  match r.kind with
  | .single key => keyTarget g m key
  | .collection key => some (.collection key)
  | .extension _ | .execution => some .execution
  | .module => some .module

/-- The reads of a declaration, each with the position of its point. -/
def Dependencies.points (d : Dependencies) : List (Read × ℕ) :=
  d.list.zipIdx.flatMap fun (dep, i) => dep.reads.map fun r => (r, i)

/-- **`binding_edges`**: the resolved reads of a binding. -/
def bindingEdges (g : Graph) (id : BindingId) : List Edge :=
  (g.binding id).record.dependencies.points.filterMap fun (r, i) =>
    (readTarget g (g.binding id).origin r).map fun target => ⟨target, i, r.optional⟩

/-- What `binding_edges` reports. -/
def checkEdges (g : Graph) (id : BindingId) (rep : Report) : Report :=
  (g.binding id).record.dependencies.points.foldl (fun rep p =>
    match p.1.kind with
    | .single key =>
      checkKey g (g.binding id).origin key p.1.optional (.construction id p.2) rep
    | _ => rep) rep

/-- `check_dependencies`: the single reads of a closure. -/
def checkDependencies (g : Graph) (m : ModuleId) (owner : Owner) (d : Dependencies)
    (rep : Report) : Report :=
  d.list.foldl (fun rep dep =>
    dep.reads.foldl (fun rep r =>
      match r.kind with
      | .single key => checkKey g m key r.optional (.point owner dep.label) rep
      | _ => rep) rep) rep

/-- The readiness check and the hooks of one binding. -/
def checkBindingClosures (g : Graph) (b : FrozenBinding) (rep : Report) : Report :=
  let rep := match b.record.ready with
    | some ready => checkDependencies g b.origin (.readiness b.id) ready.dependencies rep
    | none => rep
  b.record.hooks.foldl (fun rep hook =>
    checkDependencies g b.origin (.hook hook.kind b.id) hook.dependencies rep) rep

/-- The hooks of one module. -/
def checkModuleHooks (g : Graph) (m : FrozenModule) (rep : Report) : Report :=
  m.hooks.foldl (fun rep hook =>
    checkDependencies g m.id (.moduleHook hook.kind m.id) hook.dependencies rep) rep

/-- The pipeline finds the controller by its key in its own module, which
an import exporting the same type would make ambiguous. -/
def checkController (g : Graph) (h : HandlerRecord) (rep : Report) : Report :=
  let key := recordKey (g.binding h.controller).record
  match g.lookup h.module key with
  | some (.ambiguous list) =>
    if (h.module, key) ∈ rep.reported then rep
    else
      { errors := rep.errors ++ [.ambiguous ⟨key, .single⟩
          (.controller h.controller h.decl.name) (g.moduleName h.module)
          (ambiguousSources g list)]
        reported := (h.module, key) :: rep.reported }
  | _ => rep

/-- One enhancer of a handler. -/
def checkEnhancer (g : Graph) (h : HandlerRecord) (dep : EnhancerDep) (rep : Report) :
    Report :=
  match dep with
  | .type key =>
    checkKey g h.module key false (.enhancer h.controller h.decl.name key) rep
  | .closure c =>
    checkDependencies g h.module (.enhancerClosure h.controller h.decl.name)
      c.dependencies rep

/-- A handler: its controller, its parameters and its enhancers. -/
def checkHandler (g : Graph) (h : HandlerRecord) (rep : Report) : Report :=
  let rep := checkController g h rep
  let rep := checkDependencies g h.module (handlerOwner h) h.decl.dependencies rep
  h.decl.enhancerDeps.foldl (fun rep dep => checkEnhancer g h dep rep) rep

/-- The ambiguities of the root's table that no read reported, in the table's
order (the source sorts them by name). -/
def rootAmbiguities (g : Graph) (reported : List (ModuleId × Key)) :
    List WiringError :=
  (g.visibility.getD g.root ∅).entries.filterMap fun ⟨key, visible⟩ =>
    match visible with
    | .ambiguous list =>
      if (g.root, key) ∈ reported then none
      else some (.ambiguous ⟨key, .single⟩ .noModule (g.moduleName g.root)
        (ambiguousSources g list))
    | _ => none

/-- The graph with the edges of the bindings from `first` on. -/
def resolveEdges (g : Graph) (first : ℕ) : Graph :=
  { g with bindings := g.bindings.mapIdx fun i b =>
      if i < first then b else { b with edges := bindingEdges g i } }

/-- The checks of every declared read the wiring adds, in the source's order. -/
def checkReads (g : Graph) (d : Declared) (rep : Report) : Report :=
  let rep := (List.range' d.firstBinding (g.bindings.length - d.firstBinding)).foldl
    (fun rep id => checkEdges g id rep) rep
  let rep := (g.bindings.drop d.firstBinding).foldl
    (fun rep b => checkBindingClosures g b rep) rep
  let rep := (g.modules.drop d.firstModule).foldl
    (fun rep m => checkModuleHooks g m rep) rep
  let rep := d.metas.foldl (fun rep (m, entry) =>
    checkDependencies g m (.metadata entry.ty m) entry.dependencies rep) rep
  (g.handlers.drop d.firstHandler).foldl (fun rep h => checkHandler g h rep) rep

/-- **`resolve_dependencies`**: the graph with its edges, and the errors. The
root's own ambiguities are swept once, when the application is wired. -/
def resolveDependencies (g : Graph) (d : Declared) : Graph × List WiringError :=
  let rep := checkReads g d {}
  (resolveEdges g d.firstBinding,
    if d.firstModule = 0 then rep.errors ++ rootAmbiguities g rep.reported
    else rep.errors)

/-! ## What a clean pass says -/

section Checked

variable (g : Graph) (m : ModuleId)

/-- **A declared read resolves** in its module: a single key is seen as one
binding or as an input, or is absent and the read is optional. -/
def Resolves (r : Read) : Prop :=
  match r.kind with
  | .single key =>
    match g.lookup m key with
    | some (.binding _) | some (.input _) => True
    | some (.ambiguous _) => False
    | none => r.optional = true
  | _ => True

/-- Every read of a declaration resolves. -/
def AllResolve (d : Dependencies) : Prop := ∀ r ∈ d.reads, Resolves g m r

/-- Nothing was reported. -/
def Report.Clean (rep : Report) : Prop := rep.errors = []

/-- A check of the resolution pass worth `P`. -/
abbrev ReportChecks (f : Report → Report) (P : Prop) : Prop := Checks Report.Clean f P

theorem checkKey_checks (key : Key) (optional : Bool) (consumer : Consumer) :
    ReportChecks (checkKey g m key optional consumer)
      (Resolves g m ⟨.single key, optional⟩) := by
  unfold checkKey Resolves
  dsimp only
  cases hl : g.lookup m key with
  | none =>
    cases optional with
    | false => exact fun rep hc => by simp [Report.Clean] at hc
    | true => exact Checks.skip rfl
  | some v =>
    cases v with
    | binding | input => exact Checks.skip trivial
    | ambiguous => exact fun rep hc => by simp [Report.Clean] at hc

/-- The check a loop over reads makes of one read. -/
theorem checkRead_checks (r : Read) (consumer : Consumer) :
    ReportChecks (fun rep => match r.kind with
      | .single key => checkKey g m key r.optional consumer rep
      | _ => rep) (Resolves g m r) := by
  obtain ⟨kind, optional⟩ := r
  cases kind with
  | single key => exact checkKey_checks g m key optional consumer
  | _ => exact Checks.skip trivial

theorem Dependencies.mem_points {d : Dependencies} {r : Read} :
    r ∈ d.reads ↔ ∃ i, (r, i) ∈ d.points := by
  simp only [Dependencies.mem_reads, Dependencies.points, mem_flatMap, mem_map,
    Prod.mk.injEq, Prod.exists]
  constructor
  · rintro ⟨dep, hdep, hr⟩
    obtain ⟨i, hi, rfl⟩ := mem_iff_getElem.mp hdep
    exact ⟨i, d.list[i], i, mem_zipIdx_iff_getElem?.mpr (by simp [hi]), r, hr, rfl, rfl⟩
  · rintro ⟨i, dep, j, hmem, r', hr', rfl, rfl⟩
    exact ⟨dep, (mem_zipIdx hmem).2.2 ▸ getElem_mem _, hr'⟩

theorem checkEdges_checks (id : BindingId) :
    ReportChecks (checkEdges g id)
      (AllResolve g (g.binding id).origin (g.binding id).record.dependencies) := by
  refine (Checks.foldl fun p _ =>
    checkRead_checks g (g.binding id).origin p.1 (.construction id p.2)).mono ?_
  intro h r hr
  obtain ⟨i, hi⟩ := Dependencies.mem_points.mp hr
  exact h (r, i) hi

theorem checkDependencies_checks (owner : Owner) (d : Dependencies) :
    ReportChecks (checkDependencies g m owner d) (AllResolve g m d) := by
  refine (Checks.foldl fun dep _ => Checks.foldl fun r _ =>
    checkRead_checks g m r (.point owner dep.label)).mono ?_
  intro h r hr
  obtain ⟨dep, hdep, hmem⟩ := Dependencies.mem_reads.mp hr
  exact h dep hdep r hmem

/-- The reads of a binding's readiness check and hooks resolve. -/
structure ClosuresResolve (b : FrozenBinding) : Prop where
  ready : ∀ ready, b.record.ready = some ready → AllResolve g b.origin ready.dependencies
  hooks : ∀ hook ∈ b.record.hooks, AllResolve g b.origin hook.dependencies

theorem checkBindingClosures_checks (b : FrozenBinding) :
    ReportChecks (checkBindingClosures g b) (ClosuresResolve g b) := by
  have hready : ReportChecks (fun rep => match b.record.ready with
      | some ready =>
        checkDependencies g b.origin (.readiness b.id) ready.dependencies rep
      | none => rep)
      (∀ ready, b.record.ready = some ready →
        AllResolve g b.origin ready.dependencies) := by
    cases b.record.ready with
    | none => exact Checks.skip fun _ h => nomatch h
    | some ready =>
      refine (checkDependencies_checks g b.origin _ ready.dependencies).mono ?_
      rintro h _ ⟨⟩
      exact h
  have hhooks : ReportChecks (fun rep => b.record.hooks.foldl (fun rep hook =>
        checkDependencies g b.origin (.hook hook.kind b.id) hook.dependencies rep) rep)
      (∀ hook ∈ b.record.hooks, AllResolve g b.origin hook.dependencies) :=
    Checks.foldl fun hook _ => checkDependencies_checks g b.origin _ hook.dependencies
  exact (hready.seq hhooks).mono fun h => ⟨h.1, h.2⟩

theorem checkModuleHooks_checks (module : FrozenModule) :
    ReportChecks (checkModuleHooks g module)
      (∀ hook ∈ module.hooks, AllResolve g module.id hook.dependencies) :=
  Checks.foldl fun hook _ => checkDependencies_checks g module.id _ hook.dependencies

theorem checkController_checks (h : HandlerRecord) : ReportChecks (checkController g h) True := by
  intro rep hc
  refine ⟨?_, trivial⟩
  unfold checkController at hc
  dsimp only at hc
  split at hc
  · split at hc
    · exact hc
    · simp [Report.Clean] at hc
  · exact hc

theorem checkEnhancer_checks (h : HandlerRecord) (dep : EnhancerDep) :
    ReportChecks (checkEnhancer g h dep) True := by
  cases dep with
  | type key => exact (checkKey_checks g h.module key false _).mono fun _ => trivial
  | closure c => exact (checkDependencies_checks g h.module _ c.dependencies).mono fun _ => trivial

/-- **The declared reads of a wiring's bindings and modules resolve.** -/
structure ReadsResolve (d : Declared) : Prop where
  bindings : ∀ id, d.firstBinding ≤ id → id < g.bindings.length →
    AllResolve g (g.binding id).origin (g.binding id).record.dependencies
  closures : ∀ b ∈ g.bindings.drop d.firstBinding, ClosuresResolve g b
  modules : ∀ module ∈ g.modules.drop d.firstModule, ∀ hook ∈ module.hooks,
    AllResolve g module.id hook.dependencies

theorem checkReads_checks (d : Declared) :
    ReportChecks (checkReads g d) (ReadsResolve g d) := by
  refine (((((Checks.foldl fun id _ => checkEdges_checks g id).seq
    (Checks.foldl fun b _ => checkBindingClosures_checks g b)).seq
    (Checks.foldl fun module _ => checkModuleHooks_checks g module)).seq
    (Checks.foldl fun entry _ =>
      checkDependencies_checks g entry.1 _ entry.2.dependencies)).seq
    (Checks.foldl fun h _ => ((checkController_checks g h).seq
      (checkDependencies_checks g h.module _ h.decl.dependencies)).seq
      (Checks.foldl fun dep _ => checkEnhancer_checks g h dep))).mono ?_
  rintro ⟨⟨⟨⟨hbindings, hclosures⟩, hmodules⟩, -⟩, -⟩
  refine ⟨fun id hlo hhi => hbindings id ?_, hclosures, hmodules⟩
  exact mem_range'_1.mpr ⟨hlo, by omega⟩

/-- **A pass without errors resolved every declared read.** -/
theorem resolveDependencies_resolves (d : Declared)
    (h : (resolveDependencies g d).2 = []) : ReadsResolve g d := by
  have hclean : (checkReads g d {}).Clean := by
    unfold resolveDependencies at h
    simp only at h
    split at h
    · exact (append_eq_nil_iff.mp h).1
    · exact h
  exact (checkReads_checks g d {} hclean).2

end Checked

end Ulo
