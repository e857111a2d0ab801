import Ulo.Graph.Scopes
import Ulo.Lib.Kahn

/-!
# The connect order

`connect` builds the singletons one after another. A singleton waits for the
singletons its construction and its readiness check lead to: those they read,
and those that the transients among them read in turn, through any number of
transients (`singletonDeps`). Of the singletons that wait for nothing the one
with the smallest id comes next.
-/

namespace Ulo

open List

/-- Whether a binding is built once. -/
def isSingleton (g : Graph) (id : BindingId) : Bool :=
  (g.binding id).effective = .singleton

/-- The state of the walk from a singleton: the pending bindings, top first,
those seen, and the singletons among them. -/
structure DepsState where
  pending : List BindingId
  seen : List BindingId := []
  deps : List BindingId := []

/-- One iteration of `singleton_deps`: a transient is expanded, a singleton is
kept. -/
def depsStep (g : Graph) (id : BindingId) (s : DepsState) : Option DepsState :=
  match s.pending with
  | [] => none
  | dep :: pending =>
    if dep = id ∨ dep ∈ s.seen then some { s with pending := pending }
    else if isSingleton g dep then
      some { pending := pending, seen := dep :: s.seen, deps := s.deps ++ [dep] }
    else if (g.binding dep).effective = .transient then
      some { s with pending := (g.constructionDeps dep).reverse ++ pending
                    seen := dep :: s.seen }
    else some { s with pending := pending, seen := dep :: s.seen }

/-- One iteration for what is pending at first, and for what each binding
adds. -/
def depsFuel (g : Graph) (id : BindingId) : ℕ :=
  (waitsFor g id).length +
    ((List.range g.bindings.length).map fun b => (g.constructionDeps b).length).sum

/-- **`singleton_deps`**: the singletons `id` waits for. -/
def singletonDeps (g : Graph) (id : BindingId) : List BindingId :=
  (Loop.run (depsStep g id) (depsFuel g id) { pending := (waitsFor g id).reverse }).deps

/-- The singletons, by id. -/
def singletonIds (g : Graph) : List BindingId :=
  (List.range g.bindings.length).filter (isSingleton g)

/-- **`connect_order`.** -/
def connectOrder (g : Graph) : List BindingId :=
  Kahn.order (singletonIds g) (singletonDeps g)

/-! ## What a singleton waits for -/

/-- **What a singleton leads to** by its reads, through transients. -/
inductive LeadsTo (g : Graph) (id : BindingId) : BindingId → Prop
  | read {dep : BindingId} (h : dep ∈ waitsFor g id) (hne : dep ≠ id) : LeadsTo g id dep
  | through {t dep : BindingId} (ht : LeadsTo g id t)
      (heff : (g.binding t).effective = .transient) (h : dep ∈ g.constructionDeps t)
      (hne : dep ≠ id) : LeadsTo g id dep

/-- **The graph's ids stay within its bindings** where reads lead. -/
def ReadsInBounds (g : Graph) : Prop :=
  ∀ id < g.bindings.length, ∀ dep ∈ waitsFor g id, dep < g.bindings.length

variable {dep : BindingId}

section Deps

variable {g : Graph} {id : BindingId}

theorem constructionDeps_lt (hb : ReadsInBounds g) {b : BindingId}
    (h : b < g.bindings.length) : ∀ dep ∈ g.constructionDeps b, dep < g.bindings.length :=
  fun dep hdep => hb b h dep (mem_append_left _ hdep)

section

variable (hb : ReadsInBounds g) (hid : id < g.bindings.length)
include hb hid

theorem LeadsTo.lt (h : LeadsTo g id dep) : dep < g.bindings.length := by
  induction h with
  | read h _ => exact hb id hid _ h
  | through _ _ h _ ih => exact constructionDeps_lt hb ih _ h

/-- **The invariant of the walk.** -/
structure DepsState.Inv (g : Graph) (id : BindingId) (s : DepsState) : Prop where
  pending : ∀ d ∈ s.pending, d ≠ id → LeadsTo g id d
  seen : ∀ d ∈ s.seen, LeadsTo g id d
  nodup : s.seen.Nodup
  deps : ∀ d, d ∈ s.deps ↔ d ∈ s.seen ∧ isSingleton g d = true
  deps_nodup : s.deps.Nodup
  start : ∀ d ∈ waitsFor g id, d ≠ id → d ∈ s.seen ∨ d ∈ s.pending
  expanded : ∀ t ∈ s.seen, (g.binding t).effective = .transient →
    ∀ d ∈ g.constructionDeps t, d ≠ id → d ∈ s.seen ∨ d ∈ s.pending

/-- What is left to do: the pending bindings and the reads of the unseen ones. -/
def DepsState.left (g : Graph) (s : DepsState) : ℕ :=
  s.pending.length + (((List.range g.bindings.length).filter fun b => b ∉ s.seen).map
    fun b => (g.constructionDeps b).length).sum

omit hb hid in
theorem left_seen (hd : id < g.bindings.length) (s : DepsState) (hnew : id ∉ s.seen) :
    (((List.range g.bindings.length).filter fun b => b ∉ id :: s.seen).map
      fun b => (g.constructionDeps b).length).sum + (g.constructionDeps id).length =
    (((List.range g.bindings.length).filter fun b => b ∉ s.seen).map
      fun b => (g.constructionDeps b).length).sum := by
  have hmem : id ∈ (range g.bindings.length).filter fun b => b ∉ s.seen := by
    simp [hd, hnew]
  have herase : ((range g.bindings.length).filter fun b => b ∉ id :: s.seen)
      = ((range g.bindings.length).filter fun b => b ∉ s.seen).erase id := by
    rw [(nodup_range.filter _).erase_eq_filter, filter_filter]
    refine filter_congr fun b _ => ?_
    by_cases hb : b = id <;> simp [hb]
  rw [herase, Nat.add_comm]
  exact sum_map_erase (fun b => (g.constructionDeps b).length) hmem

theorem depsStep_inv (s s' : DepsState) (hs : s.Inv g id) (h : depsStep g id s = some s') :
    s'.Inv g id ∧ s'.left g < s.left g := by
  unfold depsStep at h
  split at h
  · cases h
  rename_i dep pending hp
  have hmem : ∀ {d : BindingId}, d ∈ s.pending ↔ d = dep ∨ d ∈ pending := by simp [hp]
  split at h
  · -- skipped: the singleton itself, or seen before
    rename_i hskip
    cases h
    have hrest : ∀ d, d ≠ id → d ∈ s.seen ∨ d ∈ s.pending → d ∈ s.seen ∨ d ∈ pending := by
      rintro d hne (hd | hd)
      · exact .inl hd
      · rcases hmem.mp hd with rfl | hd
        · exact .inl (hskip.resolve_left hne)
        · exact .inr hd
    refine ⟨⟨fun d hd => hs.pending d (hmem.mpr (.inr hd)), hs.seen, hs.nodup, hs.deps,
      hs.deps_nodup, fun d hd hne => hrest d hne (hs.start d hd hne),
      fun t ht heff d hd hne => hrest d hne (hs.expanded t ht heff d hd hne)⟩, ?_⟩
    simp [DepsState.left, hp]
  rename_i hskip
  obtain ⟨hne, hnew⟩ := not_or.mp hskip
  have hleads : LeadsTo g id dep := hs.pending dep (hmem.mpr (.inl rfl)) hne
  have hlt := hleads.lt hb hid
  have hsum := left_seen hlt s hnew
  have hmove : ∀ {d : BindingId} {p : List BindingId}, (∀ x ∈ pending, x ∈ p) →
      d ∈ s.seen ∨ d ∈ s.pending → d ∈ dep :: s.seen ∨ d ∈ p := by
    rintro d p hsub (hd | hd)
    · exact .inl (mem_cons_of_mem _ hd)
    · rcases hmem.mp hd with rfl | hd
      · exact .inl mem_cons_self
      · exact .inr (hsub d hd)
  have hseen : ∀ d ∈ dep :: s.seen, LeadsTo g id d := by
    intro d hd
    rcases mem_cons.mp hd with rfl | hd
    · exact hleads
    · exact hs.seen d hd
  have hnodup : (dep :: s.seen).Nodup := nodup_cons.mpr ⟨hnew, hs.nodup⟩
  -- one that is not expanded adds nothing to be had
  have hexpanded (hnot : (g.binding dep).effective ≠ .transient) : ∀ t ∈ dep :: s.seen,
      (g.binding t).effective = .transient → ∀ d ∈ g.constructionDeps t, d ≠ id →
        d ∈ dep :: s.seen ∨ d ∈ pending := by
    intro t ht heff d hd hne
    rcases mem_cons.mp ht with rfl | ht
    · exact absurd heff hnot
    · exact hmove (fun _ h => h) (hs.expanded t ht heff d hd hne)
  split at h
  · -- a singleton is kept
    rename_i hsing
    cases h
    have heff : ¬ (g.binding dep).effective = .transient := by
      intro heff
      simp [isSingleton, heff] at hsing
    refine ⟨⟨fun d hd => hs.pending d (hmem.mpr (.inr hd)), hseen, hnodup, fun d => ?_, ?_,
      fun d hd hne => hmove (fun _ h => h) (hs.start d hd hne), hexpanded heff⟩, ?_⟩
    · rw [mem_append, hs.deps, mem_singleton, mem_cons]
      constructor
      · rintro (⟨hd, hsd⟩ | rfl)
        · exact ⟨.inr hd, hsd⟩
        · exact ⟨.inl rfl, hsing⟩
      · rintro ⟨rfl | hd, hsd⟩
        · exact .inr rfl
        · exact .inl ⟨hd, hsd⟩
    · exact hs.deps_nodup.snoc fun x hx heq => hnew (heq ▸ ((hs.deps x).mp hx).1)
    · simp only [DepsState.left, hp, length_cons]
      omega
  rename_i hsing
  have hdeps : ∀ d, d ∈ s.deps ↔ d ∈ dep :: s.seen ∧ isSingleton g d = true := by
    intro d
    rw [hs.deps, mem_cons]
    constructor
    · exact fun h => ⟨.inr h.1, h.2⟩
    · rintro ⟨rfl | hd, hsd⟩
      · exact absurd hsd hsing
      · exact ⟨hd, hsd⟩
  split at h
  · -- a transient is expanded
    rename_i heff
    cases h
    have hsub : ∀ x ∈ pending, x ∈ (g.constructionDeps dep).reverse ++ pending :=
      fun x hx => mem_append_right _ hx
    refine ⟨⟨fun d hd hne => ?_, hseen, hnodup, hdeps, hs.deps_nodup,
      fun d hd hne => hmove hsub (hs.start d hd hne), fun t ht htr d hd hne => ?_⟩, ?_⟩
    · rcases mem_append.mp hd with hd | hd
      · exact .through hleads heff (mem_reverse.mp hd) hne
      · exact hs.pending d (hmem.mpr (.inr hd)) hne
    · rcases mem_cons.mp ht with rfl | ht
      · exact .inr (mem_append_left _ (mem_reverse.mpr hd))
      · exact hmove hsub (hs.expanded t ht htr d hd hne)
    · simp only [DepsState.left, hp, length_cons, length_append,
        length_reverse]
      omega
  · rename_i heff
    cases h
    refine ⟨⟨fun d hd => hs.pending d (hmem.mpr (.inr hd)), hseen, hnodup, hdeps,
      hs.deps_nodup, fun d hd hne => hmove (fun _ h => h) (hs.start d hd hne),
      hexpanded heff⟩, ?_⟩
    simp only [DepsState.left, hp, length_cons]
    omega

omit hb hid in
theorem pending_of_depsStep_eq_none {s : DepsState} (h : depsStep g id s = none) :
    s.pending = [] := by
  unfold depsStep at h
  split at h
  · assumption
  · split at h
    · cases h
    · split at h
      · cases h
      · split at h <;> cases h

/-- **`singleton_deps` answers the singletons that `id` leads to**, each once. -/
theorem mem_singletonDeps : (singletonDeps g id).Nodup ∧ ∀ dep, dep ∈ singletonDeps g id ↔
      LeadsTo g id dep ∧ isSingleton g dep = true := by
  have hstart : DepsState.Inv g id { pending := (waitsFor g id).reverse } :=
    ⟨fun d hd hne => .read (mem_reverse.mp hd) hne, by simp, nodup_nil, by simp,
      nodup_nil, fun d hd _ => .inr (mem_reverse.mpr hd), by simp⟩
  have hfuel : DepsState.left g { pending := (waitsFor g id).reverse } ≤ depsFuel g id := by
    simp [DepsState.left, depsFuel]
  obtain ⟨hinv, hend⟩ := Loop.run_spec (depsStep g id) (DepsState.Inv g id) (DepsState.left g)
    (depsStep_inv hb hid) _ _ hstart hfuel
  have hempty := pending_of_depsStep_eq_none hend
  have hcomplete : ∀ d, LeadsTo g id d →
      d ∈ (Loop.run (depsStep g id) (depsFuel g id)
        { pending := (waitsFor g id).reverse }).seen := by
    intro d hd
    induction hd with
    | read h hne =>
      refine (hinv.start _ h hne).resolve_right fun hp => ?_
      rw [hempty] at hp
      cases hp
    | through _ heff h hne ih =>
      refine (hinv.expanded _ ih heff _ h hne).resolve_right fun hp => ?_
      rw [hempty] at hp
      cases hp
  refine ⟨hinv.deps_nodup, fun dep => ?_⟩
  rw [singletonDeps, hinv.deps]
  exact and_congr_left fun _ => ⟨hinv.seen dep, hcomplete dep⟩

end

end Deps

/-! ## The order is topological -/

variable {g : Graph} {id : BindingId}

theorem LeadsTo.rank_lt (hb : ReadsInBounds g) (hid : id < g.bindings.length) {rank : BindingId → ℕ}
    (hrank : ∀ id < g.bindings.length, ∀ dep ∈ waitsFor g id,
      dep < g.bindings.length → rank dep < rank id) (h : LeadsTo g id dep) :
    rank dep < rank id := by
  induction h with
  | read h _ => exact hrank id hid _ h (hb id hid _ h)
  | @through t dep ht _ h _ ih =>
    have htlt := ht.lt hb hid
    have hdep : dep ∈ waitsFor g t := mem_append_left _ h
    exact (hrank t htlt dep hdep (hb t htlt dep hdep)).trans ih

theorem mem_singletonIds :
    id ∈ singletonIds g ↔ id < g.bindings.length ∧ isSingleton g id = true := by
  simp [singletonIds]

theorem singletonIds_nodup (g : Graph) : (singletonIds g).Nodup :=
  nodup_range.filter _

section

variable (hb : ReadsInBounds g)
include hb

theorem singletonDeps_nodup : ∀ i ∈ singletonIds g, (singletonDeps g i).Nodup := fun _ hi =>
  (mem_singletonDeps hb (mem_singletonIds.mp hi).1).1

/-- **The connect order has every singleton once.** -/
theorem connectOrder_perm : (connectOrder g).Perm (singletonIds g) :=
  Kahn.order_perm (singletonIds_nodup g) (singletonDeps_nodup hb)

/-- A rank of the dependencies is one of the singletons' waiting. -/
theorem singletonDeps_rank (hacyclic : Acyclic g) :
    ∃ rank : BindingId → ℕ, ∀ i ∈ singletonIds g, ∀ d ∈ singletonDeps g i,
      d ∈ singletonIds g ∧ rank d < rank i := by
  obtain ⟨rank, hrank⟩ := hacyclic
  refine ⟨rank, fun i hi d hd => ?_⟩
  have hlt := (mem_singletonIds.mp hi).1
  obtain ⟨hleads, hsing⟩ := ((mem_singletonDeps hb hlt).2 d).mp hd
  exact ⟨mem_singletonIds.mpr ⟨hleads.lt hb hlt, hsing⟩, hleads.rank_lt hb hlt hrank⟩

/-- Without cycles the connect order is greedy, and cannot be extended. -/
theorem connectOrder_greedy (hacyclic : Acyclic g) :
    Kahn.Greedy (singletonIds g) (singletonDeps g) (connectOrder g) ∧
      Kahn.Maximal (singletonIds g) (singletonDeps g) (connectOrder g) := by
  obtain ⟨rank, hrank⟩ := singletonDeps_rank hb hacyclic
  have heq : connectOrder g = Kahn.place (singletonIds g) (singletonDeps g) :=
    Kahn.order_eq_place (singletonIds_nodup g) (singletonDeps_nodup hb) rank hrank
  rw [heq]
  exact Kahn.place_spec (singletonIds_nodup g) (singletonDeps_nodup hb)

/-- **Every singleton follows the singletons it leads to.** -/
theorem connectOrder_before (hacyclic : Acyclic g) {pre post : List BindingId}
    (hsplit : connectOrder g = pre ++ id :: post) (hdep : LeadsTo g id dep)
    (hsing : isSingleton g dep = true) : dep ∈ pre := by
  have hgreedy := (connectOrder_greedy hb hacyclic).1
  have hid : id ∈ singletonIds g := hgreedy.mem_nodes (by simp [hsplit])
  refine hgreedy.deps_before hsplit dep ?_
  exact ((mem_singletonDeps hb (mem_singletonIds.mp hid).1).2 dep).mpr ⟨hdep, hsing⟩

end

/-- **An order in which the singletons can be built**: each once, after those it leads to. -/
def Topological (g : Graph) (order : List BindingId) : Prop :=
  order.Perm (singletonIds g) ∧ ∀ pre id post, order = pre ++ id :: post →
    ∀ dep, LeadsTo g id dep → isSingleton g dep = true → dep ∈ pre

/-- **The connect order** has every singleton once; without cycles each one follows those
it leads to, and of all such orders it is the least. -/
theorem connectOrder_canonical (hb : ReadsInBounds g) :
    (connectOrder g).Perm (singletonIds g) ∧ (connectOrder g).Nodup ∧
    (Acyclic g → Topological g (connectOrder g) ∧
      ∀ order, Topological g order → ¬ List.Lex (· < ·) order (connectOrder g)) := by
  have hperm := connectOrder_perm hb
  refine ⟨hperm, hperm.nodup_iff.mpr (singletonIds_nodup g), fun hacyclic => ?_⟩
  refine ⟨⟨hperm, fun pre id post hsplit dep hdep hsing =>
    connectOrder_before hb hacyclic hsplit hdep hsing⟩, fun order horder => ?_⟩
  refine (connectOrder_greedy hb hacyclic).1.not_lex_of_perm (horder.1.trans hperm.symm) ?_
  intro pre id post hsplit dep hdep
  have hid : id ∈ singletonIds g := horder.1.subset (by simp [hsplit])
  obtain ⟨hleads, hsing⟩ := ((mem_singletonDeps hb (mem_singletonIds.mp hid).1).2 dep).mp hdep
  exact horder.2 pre id post hsplit dep hleads hsing

/-- Of two singletons, the first reads the second. -/
def readingBack : Graph where
  bindings := [{ (default : FrozenBinding) with edges := [⟨.binding 1, 0, false⟩] }, default]

theorem connectOrder_canonical_readingBack :
    Acyclic readingBack ∧ connectOrder readingBack = [1, 0] ∧ Topological readingBack [1, 0] := by
  have hb : ReadsInBounds readingBack := by
    unfold ReadsInBounds
    decide
  have hacyclic : Acyclic readingBack := ⟨fun id => 1 - id, by decide⟩
  have horder : connectOrder readingBack = [1, 0] := by decide
  exact ⟨hacyclic, horder, horder ▸ ((connectOrder_canonical hb).2.2 hacyclic).1⟩

end Ulo
