import Ulo.Graph.Conservative
import Ulo.Resolver.Rule

/-!
# Reads of the other kind

A key is single or a collection by the way it is read, and wiring refuses a
program that binds it both ways. It does not refuse a read of a kind that the
key does not have: a collection without contributions under whose key the module
sees something single, or an optional single read of a key that nothing single
is seen under and that has contributions. The resolver answers these with
`WrongKind` (`Mismatch`), as the comments of `locate` and `contributions` say.

No other declared read answers `WrongKind` of its own: where one hands such an
error on, a read of the wrong kind that was made on the way, to build what it
asked for, answered with that very error (`wire_kinds`). A collection that is
read as one answers what its contributions answered, in their order and each in
the memory that the one before it left.
-/

namespace Ulo

open Prog

/-- **The declared reads** of bindings, readiness checks and hooks, each with the
module it is made in. -/
inductive Graph.Declares (g : Graph) : ModuleId → Read → Prop
  | binding (id : BindingId) {r : Read} (hid : id < g.bindings.length)
      (hr : r ∈ (g.binding id).record.dependencies.reads) : g.Declares (g.binding id).origin r
  | ready (id : BindingId) {ready : ReadyRecord} {r : Read} (hid : id < g.bindings.length)
      (hready : (g.binding id).record.ready = some ready) (hr : r ∈ ready.dependencies.reads) :
      g.Declares (g.binding id).origin r
  | hook (id : BindingId) {hook : HookRecord} {r : Read} (hid : id < g.bindings.length)
      (hhook : hook ∈ (g.binding id).record.hooks) (hr : r ∈ hook.dependencies.reads) :
      g.Declares (g.binding id).origin r
  | moduleHook {m : FrozenModule} {hook : HookRecord} {r : Read} (hm : m ∈ g.modules)
      (hhook : hook ∈ m.hooks) (hr : r ∈ hook.dependencies.reads) : g.Declares m.id r

theorem Graph.Wired.resolves {g : Graph} (hg : g.Wired) {m : ModuleId} {r : Read}
    (h : g.Declares m r) : Resolves g m r := by
  cases h with
  | binding id hid hr => exact hg.resolved.bindings _ hid r hr
  | ready id hid hready hr =>
    exact (hg.resolved.closures _ (binding_mem hid)).ready _ hready r hr
  | hook id hid hhook hr => exact (hg.resolved.closures _ (binding_mem hid)).hooks _ hhook r hr
  | moduleHook hm hhook hr => exact hg.resolved.hooks _ hm _ hhook r hr

/-! ## Where `WrongKind` comes from -/

/-- Whether an error is a `WrongKind`. -/
def LookupError.isWrongKind : LookupError → Bool
  | .wrongKind .. => true
  | _ => false

/-- **A promise about kinds**: at most `WrongKind` is bad, and reads of the other
kind are excused where it is. -/
structure Promise.OfKinds (P : Promise) (g : Graph) : Prop where
  bad : ∀ e, P.bad e → e.isWrongKind = true
  excused : ∀ m r, Mismatch g m r → P.excused m r ∨
    ∀ key expected found, ¬ P.bad (.wrongKind key expected found)

variable {e : LookupError}

theorem Promise.OfKinds.not_bad {P : Promise} {g : Graph} (h : P.OfKinds g)
    (he : e.isWrongKind = false) : ¬ P.bad e :=
  fun hbad => Bool.false_ne_true (he.symm.trans (h.bad e hbad))

section Kinds

variable {g : Graph} (hg : g.Wired) (exec : Option Execution) {P : Promise} (hP : P.OfKinds g)
include hg hP

theorem Graph.Wired.kind_fine {m : ModuleId} {r : Read} (hr : Resolves g m r) :
    ReadFine g exec P (· < g.bindings.length) m r := by
  refine ⟨hP.excused m r, ?_⟩
  unfold Resolves at hr
  unfold TargetFine
  cases hkind : r.kind with
  | single key =>
    simp only [hkind] at hr ⊢
    cases hl : g.lookup m key with
    | none => simpa only [hl] using hr
    | some v =>
      cases v with
      | binding => exact (hg.tabled.binding _ _ _ hl).1
      | input =>
        cases exec with
        | none => exact hP.not_bad rfl
        | some => exact .inr (.inr (hP.not_bad rfl))
      | ambiguous => simp only [hl] at hr
  | collection => exact fun id hid => ((mem_collection hg.laid hg.collected).mp hid).1
  | extension | execution => exact fun _ => hP.not_bad rfl
  | module => trivial

/-- All bindings of a wired graph are fine as to kinds. -/
theorem Graph.Wired.kind_closed : Closed g exec P (· < g.bindings.length) where
  fault e he := by
    have hkind := hP.bad e he
    unfold LookupError.isWrongKind at hkind
    split at hkind
    · rfl
    · cases hkind
  lt _ hid := hid
  target id hid target hrecipe := by
    obtain ⟨t, hl⟩ := hg.aliases id hid target hrecipe
    exact ⟨t, hl, (hg.tabled.binding _ _ _ hl).1⟩
  built id hid := hg.built _ (binding_mem hid)
  held _ _ _ _ := .inr fun _ => hP.not_bad rfl
  executed _ _ _ _ _ _ := hP.not_bad rfl
  reads id hid _ _ r hr := hg.kind_fine exec hP (hg.resolves (.binding id hid hr))

end Kinds

/-- One `WrongKind` is not met but by reads of the other kind. -/
def kindPromise (g : Graph) (e : LookupError) : Promise :=
  { bad := fun e' => e' = e, excused := Mismatch g }

theorem kindPromise_ofKinds (g : Graph) (he : e.isWrongKind = true) : (kindPromise g e).OfKinds g :=
  ⟨fun _ h => h ▸ he, fun _ _ h => .inl h⟩

/-! ## What a read answers -/

section Answers

variable {g : Graph} {w : World} {instanceOf : Resolver → BindingId → Lookup Instance}
  {r : Resolver} {read : Read} {m m' : Memory} {key : Key}

/-- A read of a kind that answers, as a declared one. -/
theorem readOne_done {v : Injected} (h : readKind g w instanceOf r read.kind m = (.done v, m')) :
    (readOne g w instanceOf r read m).1 = .done v := by
  change (andThen _ _ m).1 = _
  simp only [andThen, attempt, h]
  rfl

/-- A failed one. -/
theorem readOne_failed (h : readKind g w instanceOf r read.kind m = (.failed e, m')) :
    (readOne g w instanceOf r read m).1 =
      if read.optional ∧ e.isNotFound then .done .absent else .failed e := by
  change (andThen _ _ m).1 = _
  simp only [andThen, attempt, h]
  change ((ite _ (pure Injected.absent) (fail e) : Lookup Injected) _).1 = _
  split <;> rfl

/-- One that is dropped, or does not end. -/
theorem readOne_exits {o : Prog.Outcome LookupError Injected}
    (h : readKind g w instanceOf r read.kind m = (o, m')) (ho : o = .dropped ∨ o = .diverged) :
    (readOne g w instanceOf r read m).1 = o := by
  change (andThen _ _ m).1 = _
  rcases ho with rfl | rfl <;> simp only [andThen, attempt, h]

/-- **A read of the other kind** answers `WrongKind`. -/
theorem readOne_mismatch (h : Mismatch g r.module read) (m : Memory) :
    ∃ key expected found, (readOne g w instanceOf r read m).1 =
      .failed (.wrongKind key expected found) := by
  obtain ⟨kind, optional⟩ := read
  unfold Mismatch at h
  cases kind with
  | single key =>
    obtain ⟨hlookup, hcontributed⟩ := h
    refine ⟨⟨key, .collection⟩, .single, .collection, ?_⟩
    rw [readOne_failed (e := .wrongKind ⟨key, .collection⟩ .single .collection)]
    · exact if_neg fun hnot => (nomatch hnot.2)
    · simp only [readKind, single, locate, hlookup, if_pos hcontributed]
      rfl
  | collection key =>
    refine ⟨⟨key, .single⟩, .collection, .single, ?_⟩
    rw [readOne_failed (e := .wrongKind ⟨key, .single⟩ .collection .single)]
    · exact if_neg fun hnot => (nomatch hnot.2)
    · simp only [readKind, many, contributions, if_pos h]
      rfl
  | _ => exact h.elim

/-- An optional read of a key that nothing is under answers `None`. -/
theorem readOne_absent (hkind : read.kind = .single key) (hoptional : read.optional = true)
    (hlookup : g.lookup r.module key = none) (hcollection : g.collection key = []) (m : Memory) :
    (readOne g w instanceOf r read m).1 = .done .absent := by
  rw [readOne_failed (e := .notFound ⟨key, .single⟩ .binding)]
  · exact if_pos ⟨hoptional, rfl⟩
  · rw [hkind]
    simp only [readKind, single, locate, hlookup, hcollection, ne_eq, not_true_eq_false, if_false]
    rfl

/-- What `many` asks for each contribution. -/
def manyItem (g : Graph) (instanceOf : Resolver → BindingId → Lookup Instance) (r : Resolver)
    (key : Key) (id : BindingId) : Lookup Instance := do
  let i ← instanceOf r id
  typed g id ⟨key, .collection⟩ key.ty i

/-- **What a read of a collection answers**: its contributions, in order, or the end of
the first that could not be had. -/
inductive Collects (f : BindingId → Lookup Instance) (optional : Bool) (ids : List BindingId)
    (m : Memory) : Prog.Outcome LookupError Injected → Prop
  | all {items m'} (hwalk : Walk f ids m items m') : Collects f optional ids m (.done (.many items))
  | failed {pre id post items m₁ e} (hids : ids = pre ++ id :: post)
      (hwalk : Walk f pre m items m₁) (hfailed : (f id m₁).1 = .failed e) :
      Collects f optional ids m (if optional ∧ e.isNotFound then .done .absent else .failed e)
  | dropped {pre id post items m₁} (hids : ids = pre ++ id :: post)
      (hwalk : Walk f pre m items m₁) (hdropped : (f id m₁).1 = .dropped) :
      Collects f optional ids m .dropped

/-- **A read of a collection that is one** collects its contributions. -/
theorem readOne_collects (hkind : read.kind = .collection key)
    (hmatch : ¬ (g.collection key = [] ∧ (g.lookup r.module key).isSome = true))
    (hends : (readOne g w instanceOf r read m).1 ≠ .diverged) :
    Collects (manyItem g instanceOf r key) read.optional (g.collection key) m
      (readOne g w instanceOf r read m).1 := by
  have hread : readKind g w instanceOf r read.kind m =
      (each (manyItem g instanceOf r key) (g.collection key) >>=
        fun items => (pure (.many items) : Lookup Injected)) m := by
    rw [hkind]
    simp only [readKind, many, contributions, if_neg hmatch]
    rfl
  rcases each_cases (manyItem g instanceOf r key) (g.collection key) m with
    ⟨items, m', hwalk, heach⟩ | ⟨pre, id, post, items, m₁, o, o', m', hids, hwalk, hitem, ho, heach⟩
  · rw [bind_of_done heach] at hread
    rw [readOne_done hread]
    exact .all hwalk
  · cases ho with
    | failed =>
      rw [bind_of_exits heach .failed] at hread
      rw [readOne_failed hread]
      exact .failed hids hwalk (congrArg Prod.fst hitem)
    | dropped =>
      rw [bind_of_exits heach .dropped] at hread
      rw [readOne_exits hread (.inl rfl)]
      exact .dropped hids hwalk (congrArg Prod.fst hitem)
    | diverged =>
      rw [bind_of_exits heach .diverged] at hread
      exact absurd (readOne_exits hread (.inr rfl)) hends

end Answers

/-- **Kinds at run time.** A declared read of a wired application answers
`WrongKind` where it is of the other kind, and where it answers so, a read that is
of the other kind was answered with the same error on the way, or is this one. Any
other read of a collection answers what its contributions answered, in order, or
ends as the first of them that could not be had; and any other optional read of a
key that nothing single is seen under answers `None`. -/
theorem wire_kinds {cat : Catalog} {root : Fin cat.size} {env : WireEnv}
    {plan : Option (TestPlan cat.size)} {g : Graph} (h : wire cat root env plan = .ok g)
    (w : World) {fuel : ℕ} (hfuel : g.bindings.length ≤ fuel) {r : Resolver} {read : Read}
    (hread : g.Declares r.module read) {m : Memory} (hm : m.events = []) :
    let out := readOne g w (obtain g w fuel) r read m
    out.1 ≠ .diverged ∧
    (Mismatch g r.module read → ∃ key expected found,
      out.1 = .failed (.wrongKind key expected found)) ∧
    (∀ key expected found, out.1 = .failed (.wrongKind key expected found) →
      ∃ module other, .read module other (some (.wrongKind key expected found)) ∈ out.2.events ∧
        Mismatch g module other) ∧
    (∀ key, read.kind = .collection key → ¬ Mismatch g r.module read →
      Collects (manyItem g (obtain g w fuel) r key) read.optional (g.collection key) m out.1) ∧
    (∀ key, read.kind = .single key → read.optional = true → g.lookup r.module key = none →
      ¬ Mismatch g r.module read → out.1 = .done .absent) := by
  have hg := wire_wired h
  have hrun (e : LookupError) (he : e.isWrongKind = true) :
      Harmless (kindPromise g e) (readOne g w (obtain g w fuel) r read) := by
    have hP := kindPromise_ofKinds g he
    have hclosed := hg.kind_closed r.exec hP
    exact hclosed.readOne (fun _ _ hexec hid => hclosed.obtain hg hfuel hexec hid) rfl
      (hg.kind_fine r.exec hP (hg.resolves hread))
  have hstart (e : LookupError) : (kindPromise g e).Holds m := ⟨trivial, .inr (by simp [hm])⟩
  have hends := (hrun (.wrongKind default .single .single) rfl).ne_diverged (hstart _)
  dsimp only
  refine ⟨hends, fun hmismatch => readOne_mismatch hmismatch m, ?_, ?_, ?_⟩
  · intro key expected found hfailed
    obtain ⟨x, hx, hexcuses⟩ := ((hrun _ rfl).of_failed (hstart _) hfailed).1 rfl
    unfold Promise.Excuses at hexcuses
    split at hexcuses
    · obtain ⟨rfl, hmismatch⟩ := hexcuses
      exact ⟨_, _, hx, hmismatch⟩
    · exact hexcuses.elim
  · intro key hkind hmismatch
    exact readOne_collects hkind (by simpa only [Mismatch, hkind] using hmismatch) hends
  · intro key hkind hoptional hlookup hmismatch
    refine readOne_absent hkind hoptional hlookup ?_ m
    by_contra hcontributed
    exact hmismatch (by simpa only [Mismatch, hkind] using ⟨hlookup, hcontributed⟩)

/-- A module with a single binding that another reads as a collection, and two
contributions that another reads, optionally, as a single, and a third as they are. -/
def kindModule : Registration 1 where
  content :=
    { bindings := [
        sampleSingleton 1 [],
        sampleSingleton 2 [{ kind := .collection ⟨1, unitType⟩ }],
        sampleSingleton 3 [{ kind := .single ⟨9, unitType⟩, optional := true }],
        sampleContribution 9 4,
        sampleContribution 9 5,
        sampleSingleton 6 [{ kind := .collection ⟨9, unitType⟩ }]] }
  wellFormed := ⟨by decide, by simp, by simp⟩

/-- That module as a program. -/
def kindSample : Catalog where
  size := 1
  module _ := { identity := { ty := 100 }, register := fun _ => kindModule }

/-- The program, wired. -/
def kindGraph : Graph := (wire kindSample ⟨0, by decide⟩ {} none).toOption.getD {}

theorem kindGraph_eq : wire kindSample ⟨0, by decide⟩ {} none = .ok kindGraph :=
  Except.eq_ok_getD _ (by decide +kernel)

theorem kindGraph_collection : kindGraph.Declares 0 { kind := .collection ⟨1, unitType⟩ } :=
  .binding 1 (by decide +kernel) (by decide +kernel)

theorem kindGraph_single :
    kindGraph.Declares 0 { kind := .single ⟨9, unitType⟩, optional := true } :=
  .binding 2 (by decide +kernel) (by decide +kernel)

/-- **The program is wired, and both reads answer `WrongKind`.** -/
theorem kindGraph_wrongKind :
    wire kindSample ⟨0, by decide⟩ {} none = .ok kindGraph ∧
      kindGraph.Declares 0 { kind := .collection ⟨1, unitType⟩ } ∧
      (readOne kindGraph calm (obtain kindGraph calm 6) { module := 0 }
        { kind := .collection ⟨1, unitType⟩ } {}).1 =
          .failed (.wrongKind ⟨⟨1, unitType⟩, .single⟩ .collection .single) ∧
      kindGraph.Declares 0 { kind := .single ⟨9, unitType⟩, optional := true } ∧
      (readOne kindGraph calm (obtain kindGraph calm 6) { module := 0 }
        { kind := .single ⟨9, unitType⟩, optional := true } {}).1 =
          .failed (.wrongKind ⟨⟨9, unitType⟩, .collection⟩ .single .collection) :=
  ⟨kindGraph_eq, kindGraph_collection, by decide +kernel, kindGraph_single, by decide +kernel⟩

/-- What the reads below find: the contributions, built. -/
def kindMemory : Memory :=
  { singletons := ((∅ : Map BindingId Instance).insert 3 ⟨7, 4⟩).insert 4 ⟨8, 5⟩ }

theorem wire_kinds_collection :
    (∃ key expected found, (readOne kindGraph calm (obtain kindGraph calm 6) { module := 0 }
      { kind := .collection ⟨1, unitType⟩ } kindMemory).1 =
        .failed (.wrongKind key expected found)) ∧
    Collects (manyItem kindGraph (obtain kindGraph calm 6) { module := 0 } ⟨9, unitType⟩) false
      [3, 4] kindMemory (.done (.many [⟨7, 9⟩, ⟨8, 9⟩])) := by
  have hfuel : kindGraph.bindings.length ≤ 6 := by decide +kernel
  have hdeclared : kindGraph.Declares 0 { kind := .collection ⟨9, unitType⟩ } :=
    .binding 5 (by decide +kernel) (by decide +kernel)
  have hids : kindGraph.collection ⟨9, unitType⟩ = [3, 4] := by decide +kernel
  have hanswer : (readOne kindGraph calm (obtain kindGraph calm 6) { module := 0 }
      { kind := .collection ⟨9, unitType⟩ } kindMemory).1 =
        .done (.many [⟨7, 9⟩, ⟨8, 9⟩]) := by decide +kernel
  constructor
  · refine (wire_kinds kindGraph_eq calm hfuel (r := { module := 0 }) kindGraph_collection rfl).2.1
      ?_
    unfold Mismatch
    decide +kernel
  · rw [← hids, ← hanswer]
    refine (wire_kinds kindGraph_eq calm hfuel (r := { module := 0 }) hdeclared
      (m := kindMemory) rfl).2.2.2.1 _ rfl fun h => ?_
    cases hids.symm.trans h.1

end Ulo
