import Ulo.Graph.Register
import Ulo.Lib.Map

/-!
# Visibility

A module sees its own single bindings, what its imports and the global
modules export, and below those the declared inputs. `buildTables` resolves
the exports – a re-export reads its module's view, so the re-exports are
resolved in rounds – and writes one table for each module the wiring adds;
the tables of a base graph stay as they are.

`sources` computes what a module sees under one key, and the table is built
for all keys at once; `tableFor_lookup` says that they agree.
-/

namespace Ulo

open AList

/-- What freezing declared beside the graph itself: where the wiring's own
modules, bindings and handlers start, and the records the checks read. -/
structure Declared where
  root : ModuleId := 0
  firstModule : ℕ := 0
  firstBinding : ℕ := 0
  firstHandler : ℕ := 0
  exports : List (ModuleId × ExportRecord) := []
  inputs : List (ModuleId × InputRecord) := []
  transportInputs : List InputDecl := []
  metas : List (ModuleId × MetaEntry) := []

instance : Inhabited Declared := ⟨{}⟩

/-- The module's own single binding under a key, the first one registered. -/
def ownBinding (g : Graph) (m : ModuleId) (key : Key) : Option BindingId :=
  (g.module m).bindings.find? fun id =>
    (g.binding id).record.kind = .single ∧ key ∈ (g.binding id).record.keys

/-- The modules whose exports `m` sees: its imports, then the global ones. -/
def exporters (g : Graph) (m : ModuleId) : List ModuleId :=
  (g.module m).imports ++ (g.modules.filter (·.global)).map (·.id)

/-- The exports `m` sees, exporter by exporter. -/
def offers (g : Graph) (m : ModuleId) : List (ModuleId × Key × BindingId) :=
  (exporters g m).flatMap fun e => (g.exported.getD e []).map fun (k, id) => (e, k, id)

/-- Adds an offer of `key` unless its binding is there already. -/
def addOffer (key : Key) (found : List (ModuleId × BindingId))
    (offer : ModuleId × Key × BindingId) : List (ModuleId × BindingId) :=
  if offer.2.1 = key ∧ ∀ s ∈ found, s.2 ≠ offer.2.2 then
    found ++ [(offer.1, offer.2.2)]
  else found

/-- **What `m` sees under `key`**: its own binding and the exported ones, each
binding once. -/
def sources (g : Graph) (m : ModuleId) (key : Key) : List (ModuleId × BindingId) :=
  (offers g m).foldl (addOffer key) ((ownBinding g m key).toList.map fun id => (m, id))

/-- A list of sources as the table holds it. -/
def visibleOf : List (ModuleId × BindingId) → Visible
  | [(_, id)] => .binding id
  | list => .ambiguous list

/-- The module's own bindings under each of their keys, the first one each. -/
def ownSources (g : Graph) (m : ModuleId) : Map Key (List (ModuleId × BindingId)) :=
  (g.module m).bindings.foldl (fun table id =>
    if (g.binding id).record.kind = .single then
      (g.binding id).record.keys.foldl (fun t key => t.orInsert key [(m, id)]) table
    else table) ∅

/-- One exported key added to the sources of a table. -/
def offerSource (table : Map Key (List (ModuleId × BindingId)))
    (offer : ModuleId × Key × BindingId) : Map Key (List (ModuleId × BindingId)) :=
  table.insert offer.2.1 (addOffer offer.2.1 ((table.lookup offer.2.1).getD []) offer)

/-- **`table_for`**: the module's sources, with the inputs below them. -/
def tableFor (g : Graph) (m : ModuleId) : Map Key Visible :=
  let entries := ((offers g m).foldl offerSource (ownSources g m)).mapVal visibleOf
  g.inputs.keys.foldl (fun t key => t.orInsert key (.input key)) entries

/-- The export of one re-export record, when its module sees the key once. -/
def resolveReexport (g : Graph) (e : ModuleId × ExportRecord) :
    Option (ModuleId × Key × BindingId) :=
  match sources g e.1 e.2.key with
  | [(_, id)] => some (e.1, boundaryKey (g.module e.1).keyed e.2.key, id)
  | _ => none

/-- Writes an export to its module's list. -/
def pushExport (exported : List (List (Key × BindingId)))
    (e : ModuleId × Key × BindingId) : List (List (Key × BindingId)) :=
  exported.modify e.1 (· ++ [(e.2.1, e.2.2)])

/-- One round of re-exports: resolves what the last round made visible, and
stops when that is nothing. -/
def reexportStep (g : Graph)
    (s : List (List (Key × BindingId)) × List (ModuleId × ExportRecord)) :
    Option (List (List (Key × BindingId)) × List (ModuleId × ExportRecord)) :=
  let view := { g with exported := s.1 }
  let resolved := s.2.filterMap (resolveReexport view)
  if resolved.isEmpty then none
  else some (resolved.foldl pushExport s.1,
    s.2.filter fun e => (resolveReexport view e).isNone)

/-- The module's own exports, behind its boundary. -/
def ownExport (g : Graph) (e : ModuleId × ExportRecord) :
    Option (ModuleId × Key × BindingId) :=
  (ownBinding g e.1 e.2.key).map fun id =>
    (e.1, boundaryKey (g.module e.1).keyed e.2.key, id)

/-- The export lists of every module, own exports first. -/
def exportLists (g : Graph) (d : Declared) : List (List (Key × BindingId)) :=
  let resized := g.exported ++
    List.replicate (g.modules.length - g.exported.length) []
  let own := (d.exports.filter fun e => !e.2.reexport).filterMap (ownExport g)
  let pending := d.exports.filter fun e => e.2.reexport
  (Loop.run (reexportStep g) pending.length (own.foldl pushExport resized, pending)).1

/-- **`build_tables`**: the export lists, and a table for each module from
`firstModule` on. -/
def buildTables (g : Graph) (d : Declared) : Graph :=
  let exporting := { g with exported := exportLists g d }
  let resized := g.visibility ++
    List.replicate (g.modules.length - g.visibility.length) ∅
  { exporting with visibility := resized.mapIdx fun i table =>
      if i < d.firstModule then table else tableFor exporting i }

/-! ## The tables -/

section Tables

variable (g : Graph) (m : ModuleId) {α : Type}

/-- A list of sources as the maps hold it: an absent key has none. -/
def present {α : Type} (l : List α) : Option (List α) := if l = [] then none else some l

@[simp] theorem present_nil : present ([] : List α) = none := rfl

@[simp] theorem present_cons (a : α) (l : List α) : present (a :: l) = some (a :: l) := rfl

@[simp] theorem present_getD (l : List α) : (present l).getD [] = l := by
  cases l <;> rfl

theorem foldl_orInsert_lookup {β : Type} (f : Key → β) (keys : List Key)
    (table : Map Key β) (k : Key) :
    (keys.foldl (fun t key => t.orInsert key (f key)) table).lookup k =
      if k ∈ keys then some ((table.lookup k).getD (f k)) else table.lookup k := by
  induction keys generalizing table with
  | nil => simp
  | cons key keys ih =>
    rw [List.foldl_cons, ih, lookup_orInsert]
    by_cases hk : k = key
    · subst hk; simp
    · simp [hk]

theorem ownSources_lookup (k : Key) :
    (ownSources g m).lookup k = (ownBinding g m k).map fun id => [(m, id)] := by
  -- the fold keeps the first source of each key, which is what `find?` answers
  suffices h : ∀ (ids : List BindingId) (table : Map Key (List (ModuleId × BindingId))),
      (ids.foldl (fun table id =>
        if (g.binding id).record.kind = .single then
          (g.binding id).record.keys.foldl (fun t key => t.orInsert key [(m, id)]) table
        else table) table).lookup k =
      (table.lookup k).or ((ids.find? fun id => (g.binding id).record.kind = .single ∧
        k ∈ (g.binding id).record.keys).map fun id => [(m, id)]) by
    rw [ownSources, h, lookup_empty, Option.none_or]
    rfl
  intro ids
  induction ids with
  | nil => simp
  | cons id ids ih =>
    intro table
    rw [List.foldl_cons, ih]
    by_cases hkind : (g.binding id).record.kind = .single
    · rw [if_pos hkind, foldl_orInsert_lookup (fun _ => [(m, id)])]
      by_cases hk : k ∈ (g.binding id).record.keys
      · cases table.lookup k <;> simp [hkind, hk]
      · simp [hkind, hk]
    · simp [hkind]

theorem offerSource_lookup (table : Map Key (List (ModuleId × BindingId)))
    (found : Key → List (ModuleId × BindingId))
    (h : ∀ k, table.lookup k = present (found k))
    (offer : ModuleId × Key × BindingId) (k : Key) :
    (offerSource table offer).lookup k = present (addOffer k (found k) offer) := by
  unfold offerSource
  by_cases hk : k = offer.2.1
  · subst hk
    rw [lookup_insert, h, present_getD]
    cases hf : found offer.2.1 with
    | nil => simp [addOffer]
    | cons =>
      unfold addOffer
      split <;> rfl
  · rw [lookup_insert_ne hk, h, addOffer, if_neg fun hc => hk hc.1.symm]

theorem foldl_offerSource_lookup (k : Key) :
    ((offers g m).foldl offerSource (ownSources g m)).lookup k =
      present (sources g m k) := by
  suffices h : ∀ (l : List (ModuleId × Key × BindingId))
      (table : Map Key (List (ModuleId × BindingId)))
      (found : Key → List (ModuleId × BindingId)),
      (∀ k, table.lookup k = present (found k)) →
      (l.foldl offerSource table).lookup k =
        present (l.foldl (addOffer k) (found k)) by
    refine h (offers g m) (ownSources g m)
      (fun k => (ownBinding g m k).toList.map fun id => (m, id)) fun k => ?_
    rw [ownSources_lookup]
    cases ownBinding g m k <;> rfl
  intro l
  induction l with
  | nil => exact fun table found h => h k
  | cons offer l ih =>
    intro table found h
    exact ih (offerSource table offer) (fun k => addOffer k (found k) offer)
      (offerSource_lookup table found h offer)

/-- **A module's table holds what `sources` computes**: the one binding seen
under a key, the ambiguity of several, and below them the inputs. -/
theorem tableFor_lookup (k : Key) :
    (tableFor g m).lookup k =
      match sources g m k with
      | [] => if k ∈ g.inputs then some (.input k) else none
      | list => some (visibleOf list) := by
  unfold tableFor
  rw [foldl_orInsert_lookup (fun key => Visible.input key), lookup_mapVal,
    foldl_offerSource_lookup]
  by_cases hin : k ∈ g.inputs
  · have hkeys : k ∈ g.inputs.keys := mem_keys.mp hin
    cases hs : sources g m k <;> simp [hin, hkeys]
  · have hkeys : k ∉ g.inputs.keys := fun h => hin (mem_keys.mpr h)
    cases hs : sources g m k <;> simp [hin, hkeys]

/-- **The table of a module agrees with the search for a key's sources**: it holds a binding where
the search finds one source, an ambiguity where it finds several, and an input only where it finds
none. -/
theorem tableFor_agrees (key : Key) :
    (∀ id, (tableFor g m).lookup key = some (.binding id) ↔
      ∃ source, sources g m key = [(source, id)]) ∧
    (∀ list, (tableFor g m).lookup key = some (.ambiguous list) ↔
      sources g m key = list ∧ 2 ≤ list.length) ∧
    ∀ input, (tableFor g m).lookup key = some (.input input) ↔
      sources g m key = [] ∧ input = key ∧ key ∈ g.inputs := by
  rw [tableFor_lookup]
  match sources g m key with
  | [] => by_cases hin : key ∈ g.inputs <;> simp +contextual [hin, eq_comm]
  | [(source, id)] => simp +contextual [visibleOf, eq_comm]
  | _ :: _ :: _ => simp +contextual [visibleOf, eq_comm]

end Tables

end Ulo
