import Ulo.Graph.Wired
import Ulo.Resolver

/-!
# What a read never meets

A rule for `obtain` in a wired graph. A `Promise` names errors that are not met,
and `Fine` is a set of bindings that is **closed** for it: obtaining one of them
meets no such error of its own, and what it reads on the way is fine again. Then
no read that starts in the set meets a bad error, but that an optional one may
miss what it asks for (`Promise.Kept`). A read may also be **excused**; where a
bad error is met all the same, it goes back to such a read.

The rule leaves open what is bad and what is fine, because it is used more than
once: for connecting, outside of any execution, where what is fine depends on the
singletons built so far; for reads of the wrong kind, which are excused where
their key has only the other kind; and for the calls of a handler, where what is
fine is what the wiring pass walked. It also shows that the recursion ends: the
fuel a read needs is bounded by the rank of what it reads, and that by the number
of bindings.
-/

namespace Ulo

open List Prog Ensures

/-! ## Ranks -/

variable {g : Graph} {exec : Option Execution} {e : LookupError} {id : BindingId} {r : Read}
  {ε : Type}

/-- The rank of an acyclic graph can be taken below the number of bindings. -/
theorem Acyclic.bounded (h : Acyclic g) :
    ∃ rank : BindingId → ℕ, (∀ id < g.bindings.length, ∀ dep ∈ waitsFor g id,
      dep < g.bindings.length → rank dep < rank id) ∧
      ∀ id < g.bindings.length, rank id < g.bindings.length := by
  obtain ⟨rank, hrank⟩ := h
  -- the number of bindings of a smaller rank
  refine ⟨fun id => (range g.bindings.length).countP fun j => rank j < rank id,
    fun id hid dep hdep hlt => ?_, fun id hid => ?_⟩
  · have hfall := hrank id hid dep hdep hlt
    refine countP_lt_countP (fun j _ hj => ?_) (mem_range.mpr hlt) (decide_eq_true hfall)
      (decide_eq_false (Nat.lt_irrefl _))
    exact decide_eq_true ((of_decide_eq_true hj).trans hfall)
  · calc (range g.bindings.length).countP (fun j => decide (rank j < rank id))
        < (range g.bindings.length).countP fun _ => true :=
          countP_lt_countP (fun _ _ _ => rfl) (mem_range.mpr hid) rfl
            (decide_eq_false (Nat.lt_irrefl _))
      _ = g.bindings.length := by simp

/-- What a declared read leads to is read by the construction. -/
theorem Graph.Wired.readDeps_subset (hg : g.Wired) (hid : id < g.bindings.length)
    (hr : r ∈ (g.binding id).record.dependencies.reads) :
    ∀ dep ∈ g.readDeps (g.binding id).origin r, dep ∈ g.constructionDeps id := by
  intro dep hdep
  have hedge : ∀ target, readTarget g (g.binding id).origin r = some target →
      ∀ dep ∈ g.edgeDeps ⟨target, 0, false⟩, dep ∈ g.constructionDeps id := by
    intro target htarget dep hdep
    obtain ⟨e, he, rfl⟩ := edge_of_read hr htarget
    rw [← hg.edges id hid] at he
    exact mem_append_left _ (mem_flatMap.mpr ⟨e, he, hdep⟩)
  unfold Graph.readDeps at hdep
  unfold readTarget keyTarget at hedge
  split at hdep
  · rename_i hkind
    split at hdep
    · rename_i hl
      simp only [hkind, hl] at hedge
      exact hedge _ rfl dep hdep
    · cases hdep
  · rename_i hkind
    simp only [hkind] at hedge
    exact hedge _ rfl dep hdep
  all_goals cases hdep

/-! ## Promises -/

/-- **What reads are promised**: errors that they do not meet, apart from the
reads that are excused, as long as an invariant of the memory holds. The
invariant speaks of the store and of what passed, which no read changes. -/
structure Promise where
  bad : LookupError → Prop
  excused : ModuleId → Read → Prop := fun _ _ => False
  inv : Memory → Prop := fun _ => True
  stable : ∀ m m', m'.singletons = m.singletons → m'.marks = m.marks → inv m → inv m' := by
    exact fun _ _ _ _ h => h

namespace Promise

variable (P : Promise)

/-- An event in which no bad error was met, but by an optional read that missed
what it asked for. -/
def Kept : Event → Prop
  | .read _ r (some e) => P.bad e → r.optional = true ∧ e.isNotFound = true
  | _ => True

/-- An event in which an excused read met a bad error. -/
def Excuses : Event → Prop
  | .read m r (some e) => P.bad e ∧ P.excused m r
  | _ => False

/-- There was such an event. -/
def Excused (m : Memory) : Prop := ∃ e ∈ m.events, P.Excuses e

/-- **The promise holds** of what happened so far. -/
structure Holds (m : Memory) : Prop where
  inv : P.inv m
  events : P.Excused m ∨ ∀ e ∈ m.events, P.Kept e

/-- How a program that keeps the promise may end without an answer. -/
def exits : Exits LookupError Memory where
  failed e m := (P.bad e → P.Excused m) ∧ P.Holds m
  dropped := P.Holds

/-- How a declared read may: an optional one may also miss what it asks for, and
an excused one meet a bad error. -/
def readExits (module : ModuleId) (r : Read) : Exits LookupError Memory where
  failed e m := (P.bad e → (r.optional = true ∧ e.isNotFound = true) ∨ P.excused module r ∨
    P.Excused m) ∧ P.Holds m
  dropped := P.Holds

end Promise

variable {P : Promise}

/-- The errors that a promise may be about: any other is no fault of the wiring. -/
def LookupError.isFault : LookupError → Bool
  | .notFound _ .binding | .notFound _ .input => true
  | .notReady _ | .executionRequired _ | .ambiguous .. | .wrongKind .. => true
  | _ => false

/-! ## Fine bindings -/

/-- **A read of a key that has only the other kind**: a collection without
contributions, where the module sees something single under its key, or a single
key that the module does not see, and that has contributions. -/
def Mismatch (g : Graph) (m : ModuleId) (r : Read) : Prop :=
  match r.kind with
  | .single key => g.lookup m key = none ∧ g.collection key ≠ []
  | .collection key => g.collection key = [] ∧ (g.lookup m key).isSome = true
  | _ => False

/-- What a fine read asks of the execution is there, unless the read is optional. -/
def InputFine (exec : Option Execution) (P : Promise) (optional : Bool) (input : Key) : Prop :=
  match exec with
  | none => ¬ P.bad (.executionRequired ⟨input, .single⟩)
  | some exec => (exec.inputs.lookup input.ty).isSome = true ∨ optional = true ∨
      ¬ P.bad (.notFound ⟨input, .single⟩ .input)

/-- What a fine read leads to: fine bindings, and what is asked of the execution. -/
def TargetFine (g : Graph) (exec : Option Execution) (P : Promise) (Fine : BindingId → Prop)
    (m : ModuleId) (r : Read) : Prop :=
  match r.kind with
  | .single key =>
    match g.lookup m key with
    | some (.binding id) => Fine id
    | some (.input input) => InputFine exec P r.optional input
    | some (.ambiguous _) => False
    | none => r.optional = true
  | .collection key => ∀ id ∈ g.collection key, Fine id
  | .extension ty => exec = none → ¬ P.bad (.executionRequired ⟨⟨ty, unitType⟩, .single⟩)
  | .execution => exec = none →
      ¬ P.bad (.executionRequired ⟨⟨executionRefType, unitType⟩, .single⟩)
  | .module => True

/-- **A read that is fine** in the module `m`. -/
structure ReadFine (g : Graph) (exec : Option Execution) (P : Promise) (Fine : BindingId → Prop)
    (m : ModuleId) (r : Read) : Prop where
  kind : Mismatch g m r → P.excused m r ∨
    ∀ key expected found, ¬ P.bad (.wrongKind key expected found)
  target : TargetFine g exec P Fine m r

/-- **A closed set of bindings**, for reads in `exec`. -/
structure Closed (g : Graph) (exec : Option Execution) (P : Promise) (Fine : BindingId → Prop) :
    Prop where
  fault : ∀ e, P.bad e → e.isFault = true
  lt : ∀ id, Fine id → id < g.bindings.length
  target : ∀ id, Fine id → ∀ target, (g.binding id).record.recipe = .alias target →
    ∃ t, g.lookup (g.binding id).origin target = some (.binding t) ∧ Fine t
  built : ∀ id, Fine id → (g.binding id).record.recipe.isFailed = false
  held : ∀ id, Fine id → (g.binding id).record.recipe.isBuilt = true →
    (g.binding id).effective = .singleton →
      (∀ m, P.inv m → id ∈ m.singletons) ∨ ∀ key, ¬ P.bad (.notReady key)
  executed : ∀ id, Fine id → (g.binding id).record.recipe.isBuilt = true →
    (g.binding id).effective = .perExecution → exec = none →
      ∀ key, ¬ P.bad (.executionRequired key)
  reads : ∀ id, Fine id → (g.binding id).record.recipe.isBuilt = true →
    (g.binding id).effective ≠ .singleton → ∀ r ∈ (g.binding id).record.dependencies.reads,
      ReadFine g exec P Fine (g.binding id).origin r

/-! ## The rule -/

/-- The passing of time changes nothing. -/
theorem Promise.now (P : Promise) (X : Exits ε Memory) :
    Ensures P.Holds Ulo.now (fun _ => P.Holds) X :=
  fun m hm => ⟨P.stable m _ rfl rfl hm.inv, hm.events⟩

/-- **A program that keeps a promise.** -/
abbrev Harmless {α : Type} (P : Promise) (p : Lookup α) : Prop :=
  Ensures P.Holds p (fun _ => P.Holds) P.exits

namespace Harmless

variable {P : Promise} {α β : Type} {p : Lookup α}

theorem fail (h : ¬ P.bad e) : Harmless P (Prog.fail e : Lookup α) :=
  Ensures.fail fun _ hm => ⟨fun hbad => absurd hbad h, hm⟩

theorem ret (a : α) : Harmless P (pure a : Lookup α) := Ensures.ret fun _ hm => hm

theorem now : Harmless P Ulo.now := P.now _

theorem bind {f : α → Lookup β} (hp : Harmless P p) (hf : ∀ a, Harmless P (f a)) :
    Harmless P (p >>= f) :=
  Ensures.bind hp hf

/-- A harmless program as a declared read. -/
theorem read (h : Harmless P p) (module : ModuleId) (r : Read) :
    Ensures P.Holds p (fun _ => P.Holds) (P.readExits module r) :=
  h.mono (fun _ hm => hm) (fun _ _ hm => hm) (fun _ _ he => ⟨fun hbad => .inr (.inr (he.1 hbad)),
    he.2⟩) fun _ hm => hm

end Harmless

/-- A read that keeps the promise, or excuses what comes after it, is noted. -/
theorem Promise.Holds.note {m : Memory} (h : P.Holds m) {e : Event} (hread : e.isRead = true)
    (he : P.Kept e ∨ P.Excuses e ∨ P.Excused m) : P.Holds { m with events := m.events ++ [e] } := by
  have hmarks : Memory.marks { m with events := m.events ++ [e] } = m.marks := by
    simp [Memory.marks, hread]
  refine ⟨P.stable m _ rfl hmarks h.inv, ?_⟩
  have hlater : P.Excused m → P.Excused { m with events := m.events ++ [e] } := by
    rintro ⟨x, hx, hexcuses⟩
    exact ⟨x, mem_append_left _ hx, hexcuses⟩
  rcases he with he | he | he
  · refine h.events.imp hlater fun hkept x hx => ?_
    rcases mem_snoc.mp hx with hx | hx
    · exact hkept x hx
    · rwa [hx]
  · exact .inl ⟨e, by simp, he⟩
  · exact .inl (hlater he)

section Rule

variable {g : Graph} {w : World} {exec : Option Execution} {P : Promise} {Fine : BindingId → Prop}

variable (hc : Closed g exec P Fine) {r : Resolver} {read : Read} {id : BindingId} {ty : TypeId}
  {key : Key}
include hc

theorem Closed.not_bad (h : e.isFault = false) : ¬ P.bad e := fun hbad => by
  rw [hc.fault e hbad] at h
  cases h

theorem Closed.execFor (hexec : r.exec = exec)
    (hrequired : exec = none → ¬ P.bad (.executionRequired ⟨key, .single⟩)) :
    Ensures P.Holds (execFor w r key) (fun found m => exec = some found ∧ P.Holds m) P.exits := by
  unfold Ulo.execFor
  rw [hexec]
  split
  · exact fail fun _ hm => ⟨fun hbad => absurd hbad (hrequired rfl), hm⟩
  · refine bind Harmless.now fun t => ?_
    split
    · exact fail fun m hm => ⟨fun hbad => absurd hbad (hc.not_bad rfl), hm⟩
    · exact ret fun m hm => ⟨rfl, hm⟩

theorem Closed.typed (id : BindingId) (key : KeyName) (ty : TypeId) (i : Instance) :
    Harmless P (typed g id key ty i) := by
  unfold Ulo.typed
  split
  · exact Harmless.ret _
  · exact Harmless.fail (hc.not_bad rfl)

theorem Closed.seeded {input : Key} {module : ModuleId} (hexec : r.exec = exec)
    (hinput : InputFine exec P read.optional input) :
    Ensures P.Holds (seeded w r input ty) (fun _ => P.Holds) (P.readExits module read) := by
  unfold Ulo.seeded
  unfold InputFine at hinput
  refine bind ((hc.execFor hexec fun hnone => ?_).mono (fun _ hm => hm) (fun _ _ h => h)
    (fun _ _ he => ⟨fun hbad => .inr (.inr (he.1 hbad)), he.2⟩) fun _ hm => hm) fun found => ?_
  · rwa [hnone] at hinput
  refine of_pre (A := exec = some found) (fun hfound => ?_) fun _ hm => hm.1
  rw [hfound] at hinput
  split
  · refine pre (P := P.Holds) ?_ fun _ hm => hm.2
    split
    · exact (Harmless.ret _).read _ _
    · exact (Harmless.fail (hc.not_bad rfl)).read _ _
  · rename_i hmissing
    refine fail fun m hm => ⟨fun hbad => ?_, hm.2⟩
    rcases hinput with hseeded | hoptional | hharmless
    · rw [hmissing] at hseeded
      cases hseeded
    · exact .inl ⟨hoptional, rfl⟩
    · exact absurd hbad hharmless

/-! The reads, given that the bindings in `Sub` are obtained without harm. -/

variable {instanceOf : Resolver → BindingId → Lookup Instance} {Sub : BindingId → Prop}
  (hinst : ∀ r id, r.exec = exec → Sub id → Harmless P (instanceOf r id)) {d : Dependencies}
  {built : TypeId}
include hinst

omit hc hinst in
/-- A read of the wrong kind fails as an excused one may. -/
theorem ReadFine.wrongKind {m : ModuleId} (hfine : ReadFine g exec P Sub m read)
    (hmismatch : Mismatch g m read) {key : KeyName} {expected found : BindingKind} {mem : Memory}
    (hmem : P.Holds mem) : (P.readExits m read).failed (.wrongKind key expected found) mem :=
  ⟨fun hbad => (hfine.kind hmismatch).elim (fun hexcused => .inr (.inl hexcused))
    fun hharmless => absurd hbad (hharmless _ _ _), hmem⟩

section

variable (hexec : r.exec = exec) {optional : Bool}
include hexec

theorem Closed.single (hfine : ReadFine g exec P Sub r.module ⟨.single key, optional⟩) :
    Ensures P.Holds (single g w instanceOf r key ty) (fun _ => P.Holds)
      (P.readExits r.module ⟨.single key, optional⟩) := by
  unfold Ulo.single locate
  have htarget := hfine.target
  simp only [TargetFine] at htarget
  cases hl : g.lookup r.module key with
  | none =>
    simp only [hl] at htarget ⊢
    split
    · rename_i hcontributed
      exact fail_bind fun m hm => hfine.wrongKind ⟨hl, hcontributed⟩ hm
    · exact fail_bind fun m hm => ⟨fun _ => .inl ⟨htarget, rfl⟩, hm⟩
  | some v =>
    cases v with
    | binding id =>
      simp only [hl] at htarget ⊢
      change Ensures _ (ite _ _ _) _ _
      split
      · exact (Harmless.fail (hc.not_bad rfl)).read _ _
      · exact ((hinst r id hexec htarget).bind fun i => hc.typed id _ ty i).read _ _
    | input =>
      simp only [hl] at htarget ⊢
      change Ensures _ (ite _ _ _) _ _
      split
      · exact (Harmless.fail (hc.not_bad rfl)).read _ _
      · exact hc.seeded hexec htarget
    | ambiguous =>
      simp only [hl] at htarget

theorem Closed.many (hfine : ReadFine g exec P Sub r.module ⟨.collection key, optional⟩) :
    Ensures P.Holds (many g instanceOf r key) (fun _ => P.Holds)
      (P.readExits r.module ⟨.collection key, optional⟩) := by
  unfold Ulo.many contributions
  split
  · rename_i hsingle
    exact fail_bind fun m hm => hfine.wrongKind hsingle hm
  · exact Harmless.read (each_inv fun id hid =>
      (hinst r id hexec (hfine.target id hid)).bind fun i => hc.typed id _ _ i) _ _

theorem Closed.readKind (hfine : ReadFine g exec P Sub r.module read) :
    Ensures P.Holds (readKind g w instanceOf r read.kind) (fun _ => P.Holds)
      (P.readExits r.module read) := by
  obtain ⟨kind, optional⟩ := read
  cases kind with
  | single =>
    exact bind (hc.single hinst hexec hfine) fun i => (Harmless.ret _).read _ _
  | collection =>
    exact bind (hc.many hinst hexec hfine) fun items => (Harmless.ret _).read _ _
  | extension =>
    refine Harmless.read (Harmless.bind ?_ fun i => Harmless.ret _) _ _
    refine bind (hc.execFor hexec hfine.target) fun found => ?_
    refine pre (P := P.Holds) (Harmless.now.bind fun t => ?_) fun _ hm => hm.2
    split
    · exact Harmless.ret _
    · exact Harmless.fail (hc.not_bad rfl)
  | execution =>
    refine Harmless.read (bind (hc.execFor hexec hfine.target) fun found => ?_) _ _
    exact ret fun m hm => hm.2
  | module => exact (Harmless.ret _).read _ _

/-- **One declared read** that is fine keeps the promise. -/
theorem Closed.readOne (hfine : ReadFine g exec P Sub r.module read) :
    Harmless P (readOne g w instanceOf r read) := by
  unfold Ulo.readOne
  refine bind (Q := fun answer m => (∀ e, answer = .error e →
    (P.readExits r.module read).failed e m) ∧ P.Holds m) ?_ fun answer => ?_
  · refine attempt ((hc.readKind hinst hexec hfine).mono (fun _ hm => hm) ?_ ?_ fun _ hm => hm)
    · exact fun a m hm => ⟨fun e he => (nomatch he), hm⟩
    · intro e m he
      refine ⟨fun e' he' => ?_, he.2⟩
      rwa [← Except.error.inj he']
  · cases answer with
    | ok =>
      refine bind (Q := fun _ => P.Holds) ?_ fun _ => Harmless.ret _
      exact modify fun m hm => hm.2.note rfl (.inl trivial)
    | error e =>
      -- what excuses the read excuses the error from now on
      refine bind (Q := fun _ m => (P.bad e → (read.optional = true ∧ e.isNotFound = true) ∨
        P.Excused m) ∧ P.Holds m) ?_ fun _ => ?_
      · refine modify fun m hm => ?_
        have hexit := (hm.1 e rfl).1
        refine ⟨fun hbad => (hexit hbad).imp_right ?_, hm.2.note rfl ?_⟩
        · rintro (hexcused | ⟨x, hx, hexcuses⟩)
          · exact ⟨.read r.module read (some e), by simp, hbad, hexcused⟩
          · exact ⟨x, mem_append_left _ hx, hexcuses⟩
        · by_cases hbad : P.bad e
          · rcases hexit hbad with hmiss | hexcused | hexcused
            · exact .inl fun _ => hmiss
            · exact .inr (.inl ⟨hbad, hexcused⟩)
            · exact .inr (.inr hexcused)
          · exact .inl fun h => absurd h hbad
      · split
        · exact ret fun m hm => hm.2
        · rename_i hnot
          exact fail fun m hm => ⟨fun hbad => (hm.1 hbad).resolve_left hnot, hm.2⟩

theorem Closed.readAll (hfine : ∀ read ∈ d.reads, ReadFine g exec P Sub r.module read) :
    Harmless P (readAll g w instanceOf r d) :=
  each_inv fun read hread => hc.readOne hinst hexec (hfine read hread)

end

omit hc hinst in
/-- What an outcome of code says of the promise. -/
def Promise.outcome (P : Promise) (outcome : Outcome) (m : Memory) : Prop :=
  (∀ e, outcome = .dependency e → P.bad e → P.Excused m) ∧ P.Holds m

/-- **Code run with fine reads** keeps the promise; the error of a failed read is
in the outcome. -/
theorem Closed.runCode {X : Exits ε Memory} (hexec : r.exec = exec)
    (hfine : ∀ read ∈ d.reads, ReadFine g exec P Sub r.module read)
    (hdropped : ∀ m, P.Holds m → X.dropped m) :
    Ensures P.Holds (runCode g w instanceOf r d : Prog ε Memory Outcome) P.outcome X := by
  unfold Ulo.runCode
  refine orDropped (Z := ⟨fun _ _ => True, P.Holds⟩) ?_ ?_
  · refine bind (Q := fun answer m => (∀ e, answer = .error e → P.bad e → P.Excused m) ∧
      P.Holds m) ?_ fun answer => ?_
    · refine attempt ((hc.readAll hinst hexec hfine).mono (fun _ hm => hm) ?_ ?_
        fun _ hm => hm)
      · exact fun a m hm => ⟨fun e he => (nomatch he), hm⟩
      · rintro e m ⟨he, hm⟩
        refine ⟨fun e' he' => ?_, hm⟩
        rwa [← Except.error.inj he']
    · cases answer with
      | error e =>
        refine ret fun m hm => ⟨fun e' he' => ?_, hm.2⟩
        rw [← Outcome.dependency.inj he']
        exact hm.1 e rfl
      | ok =>
        refine bind (pre (P.now _) fun _ hm => hm.2) fun t => ?_
        cases w.ends t with
        | dropped => exact drop fun m hm => hm
        | _ => exact ret fun m hm => ⟨fun e he => (nomatch he), hm⟩
  · refine bind (P.now _) fun t => ?_
    cases w.ends t with
    | timedOut | refused => exact ret fun m hm => ⟨fun e he => (nomatch he), hm⟩
    | _ => exact drop hdropped

theorem Closed.build (hexec : r.exec = exec)
    (hfine : ∀ read ∈ (g.binding id).record.dependencies.reads,
      ReadFine g exec P Sub (g.binding id).origin read) :
    Harmless P (build g w instanceOf r id built) := by
  unfold Ulo.build
  refine bind (hc.runCode hinst (r := r.inModule (g.binding id).origin) hexec hfine
    fun m hm => hm) fun outcome => ?_
  cases outcome with
  | done => exact ret fun m hm => hm.2
  | dependency e => exact fail fun m hm => ⟨hm.1 e rfl, hm.2⟩
  | _ => exact fail fun m hm => ⟨fun hbad => absurd hbad (hc.not_bad rfl), hm.2⟩

omit hinst in
theorem Closed.checkEnded (r : Resolver) (key : KeyName) :
    Harmless P (Ulo.checkEnded w r key) := by
  unfold Ulo.checkEnded
  split
  · exact Harmless.ret _
  · refine Harmless.now.bind fun t => ?_
    split
    · exact Harmless.fail (hc.not_bad rfl)
    · exact Harmless.ret _

omit hinst in
theorem Closed.checkSingletonLookup (r : Resolver) (key : KeyName) :
    Harmless P (Ulo.checkSingletonLookup w r key) := by
  unfold Ulo.checkSingletonLookup
  refine Harmless.now.bind fun t => ?_
  split
  · exact Harmless.fail (hc.not_bad rfl)
  · exact Harmless.ret _

omit hinst in
theorem Closed.getOrBuild {slot : Slot} {key : KeyName} {code : Lookup Instance}
    (hcode : Harmless P code) : Harmless P (Ulo.getOrBuild w slot key code) := by
  unfold Ulo.getOrBuild
  refine Harmless.now.bind fun t => ?_
  split
  · exact Harmless.fail (hc.not_bad rfl)
  · refine bind (Q := fun _ => P.Holds) (get fun m hm => hm) fun m => ?_
    split
    · exact Harmless.ret _
    · refine hcode.bind fun i => Harmless.bind ?_ fun _ => Harmless.ret _
      exact modify fun m hm => ⟨P.stable m _ rfl rfl hm.inv, hm.events⟩

theorem Closed.obtainBuilt (hexec : r.exec = exec) (hid : Fine id)
    (hbuilt : (g.binding id).record.recipe.isBuilt = true)
    (hsub : (g.binding id).effective ≠ .singleton →
      ∀ read ∈ (g.binding id).record.dependencies.reads,
        ReadFine g exec P Sub (g.binding id).origin read) :
    Harmless P (Ulo.obtainBuilt g w instanceOf r id built) := by
  unfold Ulo.obtainBuilt
  cases heff : (g.binding id).effective with
  | singleton =>
    refine (hc.checkSingletonLookup r _).bind fun _ => ?_
    refine bind (Q := fun found m => found = m ∧ P.Holds m)
      (get fun m hm => ⟨rfl, hm⟩) fun found => ?_
    split
    · exact ret fun m hm => hm.2
    · rename_i hmissing
      refine fail fun m hm => ⟨fun hbad => ?_, hm.2⟩
      obtain ⟨rfl, hok⟩ := hm
      rcases hc.held id hid hbuilt heff with hheld | hharmless
      · exact absurd (hheld _ hok.inv) (AList.lookup_eq_none.mp hmissing)
      · exact absurd hbad (hharmless _)
  | perExecution =>
    rw [heff] at hsub
    have hbuild : Harmless P (Ulo.build g w instanceOf r id built) :=
      hc.build hinst hexec (hsub (by decide))
    dsimp only
    split
    · rename_i hnone
      exact Harmless.fail (hc.executed id hid hbuilt heff (hexec ▸ hnone) _)
    · exact hc.getOrBuild hbuild
  | transient =>
    rw [heff] at hsub
    exact hc.build hinst hexec (hsub (by decide))

/-- One call of `obtain`, given that the calls it makes keep the promise. -/
theorem Closed.obtainStep (hexec : r.exec = exec) (hid : Fine id)
    (htarget : ∀ target t, (g.binding id).record.recipe = .alias target →
      g.lookup (g.binding id).origin target = some (.binding t) → Fine t → Sub t)
    (hsub : (g.binding id).record.recipe.isBuilt = true → (g.binding id).effective ≠ .singleton →
      ∀ read ∈ (g.binding id).record.dependencies.reads,
        ReadFine g exec P Sub (g.binding id).origin read) :
    Harmless P (Ulo.obtainStep g w instanceOf r id) := by
  unfold Ulo.obtainStep
  refine (hc.checkEnded r _).bind fun _ => ?_
  have hbuilt : ∀ built, (g.binding id).record.recipe.isBuilt = true → Harmless P
      (Ulo.obtainBuilt g w instanceOf r id built >>= fun i => pure (intoPrimary g id i)) :=
    fun built hb => (hc.obtainBuilt hinst hexec hid hb (hsub hb)).bind fun i => Harmless.ret _
  split
  · rename_i target hrecipe
    obtain ⟨t, hl, ht⟩ := hc.target id hid target hrecipe
    simp only [obtainAlias, hl]
    exact (hinst r t hexec (htarget target t hrecipe hl ht)).bind fun i => Harmless.ret _
  · rename_i hrecipe
    have hfailed := hc.built id hid
    rw [hrecipe] at hfailed
    cases hfailed
  · split
    · exact (hc.checkSingletonLookup r _).bind fun _ => Harmless.ret _
    · exact Harmless.ret _
  · rename_i built hrecipe
    exact hbuilt built (by rw [hrecipe]; rfl)
  · rename_i built hrecipe
    exact hbuilt built (by rw [hrecipe]; rfl)

end Rule

/-- A fine read is fine for every set that holds what it leads to. -/
theorem ReadFine.sub {Fine Sub : BindingId → Prop} {m : ModuleId}
    (hfine : ReadFine g exec P Fine m r) (hsub : ∀ dep ∈ g.readDeps m r, Fine dep → Sub dep) :
    ReadFine g exec P Sub m r := by
  refine ⟨hfine.kind, ?_⟩
  have h := hfine.target
  unfold TargetFine at h ⊢
  unfold Graph.readDeps at hsub
  cases hkind : r.kind with
  | single key =>
    simp only [hkind] at h hsub ⊢
    cases hl : g.lookup m key with
    | none => simpa only [hl] using h
    | some v =>
      cases v with
      | binding id =>
        simp only [hl] at h hsub ⊢
        exact hsub id (mem_singleton_self id) h
      | input => simpa only [hl] using h
      | ambiguous => simp only [hl] at h
  | collection =>
    simp only [hkind] at h hsub ⊢
    exact fun id hid => hsub id hid (h id hid)
  | extension | execution => simpa only [hkind] using h
  | module => trivial

/-- **The rule for `obtain`.** In a wired graph a binding of a closed set keeps
the promise, on as much fuel as there are bindings. -/
theorem Closed.obtain {w : World} {Fine : BindingId → Prop} (hc : Closed g exec P Fine)
    (hg : g.Wired) {fuel : ℕ} (hfuel : g.bindings.length ≤ fuel) {r : Resolver}
    (hexec : r.exec = exec) (hid : Fine id) : Harmless P (obtain g w fuel r id) := by
  obtain ⟨rank, hfall, hbound⟩ := hg.acyclic.bounded
  -- the rank falls along every call that obtaining a binding makes
  have hdep : ∀ id, Fine id → ∀ dep ∈ g.constructionDeps id, Fine dep → rank dep < rank id :=
    fun id hid dep hmem hdep =>
      hfall id (hc.lt id hid) dep (mem_append_left _ hmem) (hc.lt dep hdep)
  suffices h : ∀ fuel r id, r.exec = exec → Fine id → rank id < fuel →
      Harmless P (Ulo.obtain g w fuel r id) from
    h fuel r id hexec hid ((hbound id (hc.lt id hid)).trans_le hfuel)
  intro fuel
  induction fuel with
  | zero => exact fun r id _ _ hrank => absurd hrank (Nat.not_lt_zero _)
  | succ fuel ih =>
    intro r id hexec hid hrank
    have hsub : ∀ dep ∈ g.constructionDeps id, Fine dep → Fine dep ∧ rank dep < fuel :=
      fun dep hmem hfine =>
        ⟨hfine, (hdep id hid dep hmem hfine).trans_le (Nat.le_of_lt_succ hrank)⟩
    have hinst : ∀ r dep, r.exec = exec → Fine dep ∧ rank dep < fuel →
        Harmless P (Ulo.obtain g w fuel r dep) := fun r dep hr h => ih r dep hr h.1 h.2
    refine hc.obtainStep hinst hexec hid (fun target t hrecipe hl ht => ?_)
      fun hbuilt heff read hread => ?_
    · refine hsub t (mem_append_right _ (Option.mem_toList.mpr ?_)) ht
      simp only [Graph.aliasTarget, hrecipe, hl]
    · exact (hc.reads id hid hbuilt heff read hread).sub fun dep hmem =>
        hsub dep (hg.readDeps_subset (hc.lt id hid) hread dep hmem)

end Ulo
