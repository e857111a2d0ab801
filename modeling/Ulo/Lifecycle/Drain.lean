import Ulo.Lifecycle.Release

/-!
# Executions and the drain

`AppShared::open` enters the live set, checks the phase and attaches what it
opened, each on its own; the drain moves the phase, waits, notes its end and
cancels what is live, each on its own too. Any step of one may fall between two
steps of the other. What saves the executions from slipping through is the order:
an entry is there before the phase is read, and a sweep that finds an entry not yet
attached leaves a mark that `attach` reads under the lock that it writes the entry
under.

A call of `open` is followed here to the end of its execution. Ids are handed out in
order, so that the id of a call is its place in the list of all of them.
-/

namespace Ulo

open List Option AList

/-- `CancelReason`. -/
inductive CancelReason
  | disconnected
  | clientCancelled
  | deadline
  | drain
  | explicit
deriving DecidableEq

/-- **Where a call of `open`, and then the execution it returned, stands.**

The check of a terminal call reads the phase and then the end of the drain; a
refusal is counted and drops the entry; `attach` cancels at once what it attaches
after the sweep. The `Execution` drops in three steps: it ends, it lets go of what
its handles share, and its slot leaves the live set. -/
inductive OpenStage
  | entered
  | phaseRead
  | refusing
  | refused
  | closed
  | admitted
  | cancelling
  | firing
  | attached
  | returned
  | ending
  | released
  | left
deriving DecidableEq

namespace OpenStage

/-- `open` answers `Closed`, or will. -/
def refuses : OpenStage → Bool
  | refusing | refused | closed => true
  | _ => false

/-- What `open` opened is in the live set, or was. -/
def opened : OpenStage → Bool
  | cancelling | firing | attached | returned | ending | released | left => true
  | _ => false

/-- `open` has returned the execution. -/
def handed : OpenStage → Bool
  | returned | ending | released | left => true
  | _ => false

/-- The entry of the live set: empty until `attach`. -/
def entry : OpenStage → Option Bool
  | closed | left => none
  | cancelling | firing | attached | returned | ending | released => some true
  | _ => some false

end OpenStage

/-- **A call of `open`** and the state its execution shares: whether it has ended,
its cancellation and the first reason for it, the cancellations that have set their
reason and not fired yet, and whether no handle is left. -/
structure OpenCall where
  terminal : Bool
  stage : OpenStage := .entered
  ended : Bool := false
  reason : Option CancelReason := none
  fired : Bool := false
  fires : ℕ := 0
  gone : Bool := false
deriving DecidableEq

/-- The first half of `cancel_with`: the first reason stays. -/
def OpenCall.setReason (c : OpenCall) (reason : CancelReason) : OpenCall :=
  { c with reason := c.reason <|> some reason }

/-- **Where the drain stands**: before it, in its wait, after the wait, after
`end_drain`; then in `cancel_all`, reading which of the upgraded executions have
ended, and cancelling the live ones, of which `left` are still to be cancelled. -/
inductive DrainStage
  | idle
  | waiting
  | waited
  | ended
  | checking (pending live : List ℕ)
  | cancelling (live left : List ℕ)
  | firing (i : ℕ) (live left : List ℕ)
  | done (abandoned terminal : ℕ)
deriving DecidableEq

namespace DrainStage

/-- The sweep has still to read, or to cancel, the execution. -/
def Holds (d : DrainStage) (i : ℕ) : Prop :=
  match d with
  | checking pending live => i ∈ pending ∨ i ∈ live
  | cancelling _ left => i ∈ left
  | firing j _ left => i = j ∨ i ∈ left
  | _ => False

/-- The execution that `cancel_all` has given its reason. -/
def fires : DrainStage → Option ℕ
  | firing i _ _ => some i
  | _ => none

/-- `cancel_all` has completed. -/
def isDone : DrainStage → Bool
  | done _ _ => true
  | _ => false

/-- The sweep has begun. -/
def swept : DrainStage → Bool
  | checking _ _ | cancelling _ _ | firing _ _ _ | done _ _ => true
  | _ => false

end DrainStage

/-- **What the calls and the drain share.** -/
structure Draining where
  phase : Phase := .wired
  drainEnded : Bool := false
  terminalRefused : ℕ := 0
  executions : Map ℕ Bool := ∅
  cancelled : Bool := false
  calls : List OpenCall := []
  drain : DrainStage := .idle
deriving DecidableEq

/-- A step: of a call (`next`), of whoever else cancels an execution or lets go of
the last handle to it, of the phase, or of the drain. -/
inductive DrainAction
  | enter (terminal : Bool)
  | next (i : ℕ)
  | cancel (i : ℕ) (reason : CancelReason)
  | fire (i : ℕ)
  | forget (i : ℕ)
  | advance (next : Phase)
  | begin
  | resolve
  | expire
  | endDrain
  | sweep
  | load (i : ℕ)
  | loaded
  | give (i : ℕ)
  | fireGiven
  | finish
deriving DecidableEq

namespace Draining

/-- A call has moved. -/
def put (s : Draining) (i : ℕ) (c : OpenCall) : Draining := { s with calls := s.calls.set i c }

/-- `LiveSet::enter`. -/
def enter (s : Draining) (terminal : Bool) : Draining :=
  { s with
    executions := s.executions.insert s.calls.length false
    calls := s.calls ++ [{ terminal }] }

/-- `LiveSet::attach`, under the lock. -/
def attach (s : Draining) (i : ℕ) : Draining :=
  if i ∈ s.executions then { s with executions := s.executions.insert i true } else s

/-- The drop of a slot. -/
def leave (s : Draining) (i : ℕ) : Draining := { s with executions := s.executions.erase i }

/-- `PhaseCell::allows_execution`, up to its read of the phase. -/
def checkPhase (s : Draining) (terminal : Bool) : OpenStage :=
  if terminal then if s.phase.rank ≤ Phase.draining.rank then .phaseRead else .refusing
  else if s.phase.rank < Phase.draining.rank then .admitted else .refused

/-- The next step of a call, up to its `return`, and then of its `Execution`'s drop. -/
def next (s : Draining) (i : ℕ) (c : OpenCall) : Option Draining :=
  match c.stage with
  | .entered => some (s.put i { c with stage := s.checkPhase c.terminal })
  | .phaseRead =>
    some (s.put i { c with stage := if s.drainEnded then .refusing else .admitted })
  | .refusing =>
    some (({ s with terminalRefused := s.terminalRefused + 1 } : Draining).put i
      { c with stage := .refused })
  | .refused => some ((s.leave i).put i { c with stage := .closed })
  | .admitted =>
    some ((s.attach i).put i { c with stage := if s.cancelled then .cancelling else .attached })
  | .cancelling => some (s.put i { c.setReason .drain with stage := .firing })
  | .firing => some (s.put i { c with fired := true, stage := .attached })
  | .attached => some (s.put i { c with stage := .returned })
  | .returned => some (s.put i { c with ended := true, stage := .ending })
  | .ending => some (s.put i { c with stage := .released })
  | .released => some ((s.leave i).put i { c with stage := .left })
  | .closed => none
  | .left => none

/-- `executions.values().filter_map(Weak::upgrade)`. -/
def upgraded (s : Draining) : List ℕ :=
  (List.range s.calls.length).filter fun i =>
    s.executions.lookup i = some true ∧ s.calls[i]?.any (fun c => !c.gone)

/-- Whether an upgraded execution has ended. -/
def hasEnded (s : Draining) (i : ℕ) : Bool := s.calls[i]?.any (·.ended)

/-- How many of the executions are terminal. -/
def terminals (s : Draining) (live : List ℕ) : ℕ :=
  live.countP fun i => s.calls[i]?.any (·.terminal)

/-- One step. The order in which `cancel_all` goes through the executions is that of
a hash map, and left open. -/
def step (s : Draining) : DrainAction → Option Draining
  | .enter terminal => some (s.enter terminal)
  | .next i => s.calls[i]?.bind (s.next i)
  | .cancel i reason => s.calls[i]?.bind fun c =>
    if c.stage.handed then some (s.put i { c.setReason reason with fires := c.fires + 1 }) else none
  | .fire i => s.calls[i]?.bind fun c =>
    if 0 < c.fires then some (s.put i { c with fired := true, fires := c.fires - 1 }) else none
  | .forget i => s.calls[i]?.bind fun c =>
    if c.stage = .released ∨ c.stage = .left then some (s.put i { c with gone := true }) else none
  | .advance next => some { s with phase := s.phase.advance next }
  | .begin =>
    match s.drain with
    | .idle => some { s with phase := s.phase.advance .draining, drain := .waiting }
    | _ => none
  -- `until_empty`
  | .resolve =>
    match s.drain with
    | .waiting => if s.executions.entries.isEmpty then some { s with drain := .waited } else none
    | _ => none
  -- the end of the window
  | .expire =>
    match s.drain with
    | .waiting => some { s with drain := .waited }
    | _ => none
  | .endDrain =>
    match s.drain with
    | .waited => some { s with drainEnded := true, drain := .ended }
    | _ => none
  -- `cancel_all`
  | .sweep =>
    match s.drain with
    | .ended => some { s with cancelled := true, drain := .checking s.upgraded [] }
    | _ => none
  | .load i =>
    match s.drain with
    | .checking pending live =>
      if i ∈ pending then
        some { s with
          drain := .checking (pending.erase i) (if s.hasEnded i then live else i :: live) }
      else none
    | _ => none
  | .loaded =>
    match s.drain with
    | .checking [] live => some { s with drain := .cancelling live live }
    | _ => none
  | .give i =>
    match s.drain with
    | .cancelling live left =>
      if i ∈ left then
        s.calls[i]?.map fun c =>
          ({ s with drain := .firing i live (left.erase i) } : Draining).put i (c.setReason .drain)
      else none
    | _ => none
  | .fireGiven =>
    match s.drain with
    | .firing i live left =>
      s.calls[i]?.map fun c =>
        ({ s with drain := .cancelling live left } : Draining).put i { c with fired := true }
    | _ => none
  | .finish =>
    match s.drain with
    | .cancelling live [] => some { s with drain := .done live.length (s.terminals live) }
    | _ => none

end Draining

/-- **Executions and the drain**, from an application that is wired. -/
def drainMachine : Machine Draining DrainAction where
  init := {}
  step := Draining.step

/-! ## What a step can do -/

namespace Draining

variable {s s' : Draining} {i : ℕ} {c c' : OpenCall} {a : DrainAction}

/-- **The steps of a call**, with what each reads. -/
inductive NextStep (s : Draining) (i : ℕ) (c : OpenCall) : Draining → Prop
  | check (hstage : c.stage = .entered) :
      NextStep s i c (s.put i { c with stage := s.checkPhase c.terminal })
  | checkEnd (hstage : c.stage = .phaseRead) :
      NextStep s i c (s.put i { c with stage := if s.drainEnded then .refusing else .admitted })
  | count (hstage : c.stage = .refusing) :
      NextStep s i c (({ s with terminalRefused := s.terminalRefused + 1 } : Draining).put i
        { c with stage := .refused })
  | close (hstage : c.stage = .refused) :
      NextStep s i c ((s.leave i).put i { c with stage := .closed })
  | attach (hstage : c.stage = .admitted) :
      NextStep s i c ((s.attach i).put i
        { c with stage := if s.cancelled then .cancelling else .attached })
  | give (hstage : c.stage = .cancelling) :
      NextStep s i c (s.put i { c.setReason .drain with stage := .firing })
  | fire (hstage : c.stage = .firing) :
      NextStep s i c (s.put i { c with fired := true, stage := .attached })
  | hand (hstage : c.stage = .attached) : NextStep s i c (s.put i { c with stage := .returned })
  | finish (hstage : c.stage = .returned) :
      NextStep s i c (s.put i { c with ended := true, stage := .ending })
  | release (hstage : c.stage = .ending) : NextStep s i c (s.put i { c with stage := .released })
  | leave (hstage : c.stage = .released) :
      NextStep s i c ((s.leave i).put i { c with stage := .left })

theorem next_spec (h : s.next i c = some s') : NextStep s i c s' := by
  unfold next at h
  split at h
  case h_1 hstage => cases h; exact .check hstage
  case h_2 hstage => cases h; exact .checkEnd hstage
  case h_3 hstage => cases h; exact .count hstage
  case h_4 hstage => cases h; exact .close hstage
  case h_5 hstage => cases h; exact .attach hstage
  case h_6 hstage => cases h; exact .give hstage
  case h_7 hstage => cases h; exact .fire hstage
  case h_8 hstage => cases h; exact .hand hstage
  case h_9 hstage => cases h; exact .finish hstage
  case h_10 hstage => cases h; exact .release hstage
  case h_11 hstage => cases h; exact .leave hstage
  all_goals cases h

/-- **The steps**, with what makes each possible. -/
inductive DrainStep (s : Draining) : DrainAction → Draining → Prop
  | enter {terminal : Bool} : DrainStep s (.enter terminal) (s.enter terminal)
  | next {i : ℕ} {c : OpenCall} {s' : Draining} (hc : s.calls[i]? = some c)
      (hnext : NextStep s i c s') : DrainStep s (.next i) s'
  | cancel {i : ℕ} {c : OpenCall} {reason : CancelReason} (hc : s.calls[i]? = some c)
      (hhanded : c.stage.handed = true) : DrainStep s (.cancel i reason)
        (s.put i { c.setReason reason with fires := c.fires + 1 })
  | fire {i : ℕ} {c : OpenCall} (hc : s.calls[i]? = some c) (hfires : 0 < c.fires) :
      DrainStep s (.fire i) (s.put i { c with fired := true, fires := c.fires - 1 })
  | forget {i : ℕ} {c : OpenCall} (hc : s.calls[i]? = some c)
      (hstage : c.stage = .released ∨ c.stage = .left) :
      DrainStep s (.forget i) (s.put i { c with gone := true })
  | advance {next : Phase} : DrainStep s (.advance next) { s with phase := s.phase.advance next }
  | begin (hdrain : s.drain = .idle) :
      DrainStep s .begin { s with phase := s.phase.advance .draining, drain := .waiting }
  | resolve (hdrain : s.drain = .waiting) (hempty : s.executions.entries.isEmpty = true) :
      DrainStep s .resolve { s with drain := .waited }
  | expire (hdrain : s.drain = .waiting) : DrainStep s .expire { s with drain := .waited }
  | endDrain (hdrain : s.drain = .waited) :
      DrainStep s .endDrain { s with drainEnded := true, drain := .ended }
  | sweep (hdrain : s.drain = .ended) :
      DrainStep s .sweep { s with cancelled := true, drain := .checking s.upgraded [] }
  | load {i : ℕ} {pending live : List ℕ} (hdrain : s.drain = .checking pending live)
      (hi : i ∈ pending) : DrainStep s (.load i)
        { s with drain := .checking (pending.erase i) (if s.hasEnded i then live else i :: live) }
  | loaded {live : List ℕ} (hdrain : s.drain = .checking [] live) :
      DrainStep s .loaded { s with drain := .cancelling live live }
  | give {i : ℕ} {c : OpenCall} {live left : List ℕ} (hdrain : s.drain = .cancelling live left)
      (hi : i ∈ left) (hc : s.calls[i]? = some c) : DrainStep s (.give i)
        (({ s with drain := .firing i live (left.erase i) } : Draining).put i (c.setReason .drain))
  | fireGiven {i : ℕ} {c : OpenCall} {live left : List ℕ} (hdrain : s.drain = .firing i live left)
      (hc : s.calls[i]? = some c) : DrainStep s .fireGiven
        (({ s with drain := .cancelling live left } : Draining).put i { c with fired := true })
  | finish {live : List ℕ} (hdrain : s.drain = .cancelling live []) :
      DrainStep s .finish { s with drain := .done live.length (s.terminals live) }

theorem step_spec (h : s.step a = some s') : DrainStep s a s' := by
  cases a with simp only [step] at h
  | enter =>
    cases h
    exact .enter
  | next =>
    obtain ⟨c, hc, hnext⟩ := bind_eq_some_iff.mp h
    exact .next hc (next_spec hnext)
  | cancel =>
    obtain ⟨c, hc, hstep⟩ := bind_eq_some_iff.mp h
    split at hstep
    · rename_i hhanded
      cases hstep
      exact .cancel hc hhanded
    · cases hstep
  | fire =>
    obtain ⟨c, hc, hstep⟩ := bind_eq_some_iff.mp h
    split at hstep
    · rename_i hfires
      cases hstep
      exact .fire hc hfires
    · cases hstep
  | forget =>
    obtain ⟨c, hc, hstep⟩ := bind_eq_some_iff.mp h
    split at hstep
    · rename_i hstage
      cases hstep
      exact .forget hc hstage
    · cases hstep
  | advance =>
    cases h
    exact .advance
  | begin =>
    split at h
    case h_1 hdrain => cases h; exact .begin hdrain
    case h_2 => cases h
  | resolve =>
    split at h
    case h_1 hdrain =>
      split at h
      · rename_i hempty
        cases h
        exact .resolve hdrain hempty
      · cases h
    case h_2 => cases h
  | expire =>
    split at h
    case h_1 hdrain => cases h; exact .expire hdrain
    case h_2 => cases h
  | endDrain =>
    split at h
    case h_1 hdrain => cases h; exact .endDrain hdrain
    case h_2 => cases h
  | sweep =>
    split at h
    case h_1 hdrain => cases h; exact .sweep hdrain
    case h_2 => cases h
  | load =>
    split at h
    case h_1 hdrain =>
      split at h
      · rename_i hi
        cases h
        exact .load hdrain hi
      · cases h
    case h_2 => cases h
  | loaded =>
    split at h
    case h_1 hdrain => cases h; exact .loaded hdrain
    case h_2 => cases h
  | give =>
    split at h
    case h_1 hdrain =>
      split at h
      · rename_i hi
        obtain ⟨c, hc, rfl⟩ := map_eq_some_iff.mp h
        exact .give hdrain hi hc
      · cases h
    case h_2 => cases h
  | fireGiven =>
    split at h
    case h_1 hdrain =>
      obtain ⟨c, hc, rfl⟩ := map_eq_some_iff.mp h
      exact .fireGiven hdrain hc
    case h_2 => cases h
  | finish =>
    split at h
    case h_1 hdrain => cases h; exact .finish hdrain
    case h_2 => cases h

/-! ## The invariant -/

/-- **What is known of a call**: its entry, that an execution without handles has
ended, that a cancellation has a reason; and, once the sweep has begun, that an
execution in the live set has ended, or is cancelled, or will be, by its own `attach`
or by the sweep. -/
structure Fine (s : Draining) (i : ℕ) (c : OpenCall) : Prop where
  entry : s.executions.lookup i = c.stage.entry
  ending : c.stage = .ending ∨ c.stage = .released ∨ c.stage = .left → c.ended = true
  gone : c.gone = true → c.ended = true
  reason : c.fired = true ∨ c.stage = .firing ∨ 0 < c.fires ∨ s.drain.fires = some i →
    c.reason ≠ none
  swept : s.cancelled = true → c.stage.opened = true → c.ended = false →
    c.fired = true ∨ c.stage = .cancelling ∨ c.stage = .firing ∨ s.drain.Holds i

/-- **The invariant.** -/
structure Inv (s : Draining) : Prop where
  fine : ∀ (i : ℕ) (c : OpenCall), s.calls[i]? = some c → s.Fine i c
  swept : s.drain.swept = true → s.cancelled = true
  given : ∀ i, s.drain.fires = some i → i < s.calls.length

/-- What another actor did. -/
theorem Fine.frame (h : s.Fine i c) (hentry : s'.executions.lookup i = s.executions.lookup i)
    (hcancelled : s'.cancelled = s.cancelled)
    (hfires : s'.drain.fires = some i → s.drain.fires = some i)
    (hholds : s.drain.Holds i → s'.drain.Holds i) : s'.Fine i c where
  entry := hentry.trans h.entry
  ending := h.ending
  gone := h.gone
  reason hreason := h.reason (hreason.imp_right (Or.imp_right (Or.imp_right hfires)))
  swept hswept hopened hended := by
    rw [hcancelled] at hswept
    exact (h.swept hswept hopened hended).imp_right (Or.imp_right (Or.imp_right hholds))

theorem setReason_ne_none (c : OpenCall) (reason : CancelReason) :
    (c.setReason reason).reason ≠ none := by
  unfold OpenCall.setReason
  cases c.reason <;> exact nofun

theorem Inv.init : Inv {} where
  fine i c h := by simp at h
  swept h := by cases h
  given i h := by cases h

/-- A new call has its entry, and nothing else. -/
theorem Inv.enter (hs : s.Inv) (terminal : Bool) : (s.enter terminal).Inv where
  fine i c h := by
    rw [show (s.enter terminal).calls[i]? =
      (s.calls ++ [⟨terminal, _, _, _, _, _, _⟩])[i]? from rfl, getElem?_append] at h
    split at h
    · rename_i hlt
      exact (hs.fine i c h).frame (lookup_insert_ne (Nat.ne_of_lt hlt)) rfl id id
    · rename_i hge
      have hi : i = s.calls.length := by
        have hlt := (List.getElem?_eq_some_iff.mp h).1
        rw [List.length_singleton] at hlt
        omega
      have hfires : s.drain.fires ≠ some i := fun hfires => hge (hs.given i hfires)
      obtain rfl := mem_singleton.mp (mem_of_getElem? h)
      subst hi
      refine ⟨lookup_insert _, by simp, nofun, ?_, fun _ hopened => absurd hopened nofun⟩
      rintro (hfired | hstage | hpos | hgiven)
      · cases hfired
      · cases hstage
      · cases hpos
      · exact absurd hgiven hfires
  swept := hs.swept
  given i hi := by
    show i < (s.calls ++ _).length
    rw [length_append]
    exact (hs.given i hi).trans_le (Nat.le_add_right _ _)

/-- **A step that moves one call**, and leaves the others where they were. -/
theorem Inv.put (hs : s.Inv) (s₁ : Draining) (hcalls : s₁.calls = s.calls)
    (hc : s.calls[i]? = some c) (hcancelled : s₁.cancelled = s.cancelled)
    (hswept : s₁.drain.swept = true → s.drain.swept = true)
    (hentry : ∀ j, j ≠ i → s₁.executions.lookup j = s.executions.lookup j)
    (hfires : ∀ j, s₁.drain.fires = some j → j = i ∨ s.drain.fires = some j)
    (hholds : ∀ j, j ≠ i → s.drain.Holds j → s₁.drain.Holds j) (hfine : s₁.Fine i c') :
    (s₁.put i c').Inv where
  fine j d h := by
    rcases eq_or_of_getElem?_set h with ⟨rfl, rfl⟩ | ⟨hj, h⟩
    · exact hfine.frame rfl rfl id id
    · rw [hcalls] at h
      exact (hs.fine j d h).frame (hentry j hj) hcancelled
        (fun hgiven => (hfires j hgiven).resolve_left hj) (hholds j hj)
  swept hdrain := hcancelled.trans (hs.swept (hswept hdrain))
  given j hgiven := by
    show j < (s₁.calls.set i c').length
    rw [length_set, hcalls]
    rcases hfires j hgiven with rfl | hgiven
    · exact (List.getElem?_eq_some_iff.mp hc).1
    · exact hs.given j hgiven

/-- The same where nothing but a call changes. -/
theorem Inv.put_self (hs : s.Inv) (hc : s.calls[i]? = some c) (hfine : s.Fine i c') :
    (s.put i c').Inv :=
  hs.put s rfl hc rfl id (fun _ _ => rfl) (fun _ h => .inr h) (fun _ _ h => h) hfine

/-- A call that is admitted has its entry, and `attach` finds it. -/
theorem attach_eq (h : s.executions.lookup i = some false) :
    s.attach i = { s with executions := s.executions.insert i true } :=
  if_pos (lookup_isSome.mp (by rw [h]; rfl))

/-- A call moves on, its entry and its cancellation as they were. -/
theorem Fine.move (h : s.Fine i c) {stage : OpenStage} (hentry : stage.entry = c.stage.entry)
    (hover : stage = .ending ∨ stage = .released ∨ stage = .left → c.ended = true)
    (hfiring : stage ≠ .firing) (hopened : stage.opened = true →
      c.stage.opened = true ∧ c.stage ≠ .cancelling ∧ c.stage ≠ .firing) :
    s.Fine i { c with stage } where
  entry := h.entry.trans hentry.symm
  ending := hover
  gone := h.gone
  reason hreason := h.reason (hreason.imp_right fun h => h.elim (absurd · hfiring) .inr)
  swept hswept hnow hended := by
    obtain ⟨hwas, hcancelling, hfiring⟩ := hopened hnow
    rcases h.swept hswept hwas hended with hfired | hstage | hstage | hholds
    · exact .inl hfired
    · exact absurd hstage hcancelling
    · exact absurd hstage hfiring
    · exact .inr (.inr (.inr hholds))

theorem checkPhase_cases (s : Draining) (terminal : Bool) :
    s.checkPhase terminal = .phaseRead ∨ s.checkPhase terminal = .refusing ∨
      s.checkPhase terminal = .admitted ∨ s.checkPhase terminal = .refused := by
  unfold checkPhase
  split <;> split <;> simp

/-- **A step of a call keeps the invariant.** -/
theorem Inv.next (hs : s.Inv) (hc : s.calls[i]? = some c) (h : NextStep s i c s') : s'.Inv := by
  have hfine := hs.fine i c hc
  have hentry := hfine.entry
  cases h with
  | check hstage =>
    refine hs.put_self hc ?_
    rcases s.checkPhase_cases c.terminal with h | h | h | h <;> rw [h] <;>
      exact hfine.move (by rw [hstage]; rfl) (by simp) nofun nofun
  | checkEnd hstage =>
    refine hs.put_self hc ?_
    split <;> exact hfine.move (by rw [hstage]; rfl) (by simp) nofun nofun
  | count hstage =>
    refine hs.put { s with terminalRefused := s.terminalRefused + 1 } rfl hc rfl id
      (fun _ _ => rfl) (fun _ h => .inr h) (fun _ _ h => h) ?_
    have hmoved : s.Fine i { c with stage := .refused } :=
      hfine.move (by rw [hstage]; rfl) (by simp) nofun nofun
    exact hmoved.frame rfl rfl id id
  | close =>
    refine hs.put (s.leave i) rfl hc rfl id (fun j hj => lookup_erase_ne hj)
      (fun _ h => .inr h) (fun _ _ h => h) ?_
    exact ⟨lookup_erase _ _, by simp, hfine.gone, fun hreason => hfine.reason
      (hreason.imp_right fun h => h.elim (fun h => nomatch h) .inr), nofun⟩
  | attach hstage =>
    rw [hstage] at hentry
    rw [attach_eq hentry]
    refine hs.put { s with executions := s.executions.insert i true } rfl hc rfl id
      (fun j hj => lookup_insert_ne hj) (fun _ h => .inr h) (fun _ _ h => h) ?_
    cases hcancelled : s.cancelled with
    | true =>
      exact ⟨lookup_insert _, by simp, hfine.gone, fun hreason => hfine.reason
        (hreason.imp_right fun h => h.elim (fun h => nomatch h) .inr), fun _ _ _ => .inr (.inl rfl)⟩
    | false =>
      exact ⟨lookup_insert _, by simp, hfine.gone, fun hreason => hfine.reason
        (hreason.imp_right fun h => h.elim (fun h => nomatch h) .inr), nofun⟩
  | give hstage =>
    refine hs.put_self hc ?_
    exact ⟨by rw [hentry, hstage]; rfl, by simp, hfine.gone,
      fun _ => setReason_ne_none c .drain, fun _ _ _ => .inr (.inr (.inl rfl))⟩
  | fire hstage =>
    refine hs.put_self hc ?_
    exact ⟨by rw [hentry, hstage]; rfl, by simp, hfine.gone,
      fun _ => hfine.reason (.inr (.inl hstage)), fun _ _ _ => .inl rfl⟩
  | hand hstage =>
    refine hs.put_self hc (hfine.move (by rw [hstage]; rfl) (by simp) nofun fun _ => ?_)
    rw [hstage]
    exact ⟨rfl, nofun, nofun⟩
  | finish hstage =>
    refine hs.put_self hc ?_
    exact ⟨by rw [hentry, hstage]; rfl, fun _ => rfl, fun _ => rfl, fun hreason => hfine.reason
      (hreason.imp_right fun h => h.elim (fun h => nomatch h) .inr), fun _ _ hended =>
        nomatch hended⟩
  | release hstage =>
    refine hs.put_self hc (hfine.move (by rw [hstage]; rfl)
      (fun _ => hfine.ending (.inl hstage)) nofun fun _ => ?_)
    rw [hstage]
    exact ⟨rfl, nofun, nofun⟩
  | leave hstage =>
    have hended := hfine.ending (.inr (.inl hstage))
    refine hs.put (s.leave i) rfl hc rfl id (fun j hj => lookup_erase_ne hj)
      (fun _ h => .inr h) (fun _ _ h => h) ?_
    refine ⟨lookup_erase _ _, fun _ => hended, hfine.gone, fun hreason => hfine.reason
      (hreason.imp_right fun h => h.elim (fun h => nomatch h) .inr), fun _ _ hlive => ?_⟩
    exact absurd (hended.symm.trans hlive) nofun

/-- A step of the drain that changes no call, and drops none from the sweep. -/
theorem Inv.drains (hs : s.Inv) (hcalls : s'.calls = s.calls)
    (hexecutions : s'.executions = s.executions) (hcancelled : s'.cancelled = s.cancelled)
    (hswept : s'.drain.swept = true → s.drain.swept = true) (hfires : s'.drain.fires = none)
    (hholds : ∀ (i : ℕ) (c : OpenCall), s.calls[i]? = some c → c.ended = false →
      s.drain.Holds i → s'.drain.Holds i) : s'.Inv where
  fine i c h := by
    rw [hcalls] at h
    have hfine := hs.fine i c h
    refine ⟨hexecutions ▸ hfine.entry, hfine.ending, hfine.gone, fun hreason => hfine.reason
      (hreason.imp_right (Or.imp_right (Or.imp_right fun h => ?_))), fun hnow hopened hended => ?_⟩
    · rw [hfires] at h
      cases h
    · exact (hfine.swept (hcancelled ▸ hnow) hopened hended).imp_right
        (Or.imp_right (Or.imp_right (hholds i c h hended)))
  swept hnow := hcancelled.trans (hs.swept (hswept hnow))
  given i h := by
    rw [hfires] at h
    cases h

/-- **The sweep finds every execution that is attached and has not ended.** -/
theorem Fine.mem_upgraded (h : s.Fine i c) (hc : s.calls[i]? = some c)
    (hopened : c.stage.opened = true) (hended : c.ended = false) : i ∈ s.upgraded := by
  have hentry : c.stage.entry = some true := by
    have hover := h.ending
    revert hopened hover
    cases c.stage <;> simp [OpenStage.opened, OpenStage.entry, hended]
  have hgone : c.gone = false := by
    cases hgone : c.gone with
    | false => rfl
    | true => exact absurd (hended.symm.trans (h.gone hgone)) nofun
  rw [upgraded, List.mem_filter, List.mem_range]
  refine ⟨(List.getElem?_eq_some_iff.mp hc).1, ?_⟩
  rw [h.entry, hentry, hc]
  simp [hgone]

theorem Inv.sweep (hs : s.Inv) :
    ({ s with cancelled := true, drain := .checking s.upgraded [] } : Draining).Inv where
  fine i c hc := by
    have hfine := hs.fine i c hc
    refine ⟨hfine.entry, hfine.ending, hfine.gone, fun hreason => hfine.reason
      (hreason.imp_right (Or.imp_right (Or.imp_right fun h => nomatch h))), ?_⟩
    intro _ hopened hended
    exact .inr (.inr (.inr (.inl (hfine.mem_upgraded hc hopened hended))))
  swept _ := rfl
  given i h := nomatch h

/-- What is still to be swept stays so, but for an execution that has ended. -/
theorem holds_load {j : ℕ} {pending live : List ℕ} (hc : s.calls[j]? = some c)
    (hended : c.ended = false) (h : (DrainStage.checking pending live).Holds j) :
    (DrainStage.checking (pending.erase i) (if s.hasEnded i then live else i :: live)).Holds j := by
  by_cases hj : j = i
  · subst hj
    have hlive : s.hasEnded j = false := by
      rw [hasEnded, hc]
      exact hended
    rw [hlive]
    exact .inr mem_cons_self
  · rcases h with hpending | hlive
    · exact .inl ((mem_erase_of_ne hj).mpr hpending)
    · right
      split
      · exact hlive
      · exact mem_cons_of_mem _ hlive

/-- **Every step keeps the invariant.** -/
theorem Inv.step (hs : s.Inv) (h : s.step a = some s') : s'.Inv := by
  cases step_spec h with
  | enter => exact hs.enter _
  | next hc hnext => exact hs.next hc hnext
  | @cancel i c reason hc _ =>
    have hfine := hs.fine i c hc
    exact hs.put_self hc ⟨hfine.entry, hfine.ending, hfine.gone,
      fun _ => setReason_ne_none c reason, hfine.swept⟩
  | @fire i c hc hfires =>
    have hfine := hs.fine i c hc
    exact hs.put_self hc ⟨hfine.entry, hfine.ending, hfine.gone,
      fun _ => hfine.reason (.inr (.inr (.inl hfires))), fun _ _ _ => .inl rfl⟩
  | @forget i c hc hstage =>
    have hfine := hs.fine i c hc
    exact hs.put_self hc ⟨hfine.entry, hfine.ending, fun _ => hfine.ending (.inr hstage),
      hfine.reason, hfine.swept⟩
  | advance => exact ⟨fun i c hc => (hs.fine i c hc).frame rfl rfl id id, hs.swept, hs.given⟩
  | begin hdrain | resolve hdrain | expire hdrain | endDrain hdrain =>
    exact hs.drains rfl rfl rfl nofun rfl fun _ _ _ _ => by rw [hdrain]; exact id
  | sweep => exact hs.sweep
  | load hdrain =>
    refine hs.drains rfl rfl rfl (fun _ => by rw [hdrain]; rfl) rfl fun j c hc hended => ?_
    rw [hdrain]
    exact holds_load hc hended
  | loaded hdrain =>
    refine hs.drains rfl rfl rfl (fun _ => by rw [hdrain]; rfl) rfl fun j c hc hended => ?_
    rw [hdrain]
    exact fun h => h.elim (fun h => nomatch h) id
  | @give i c live left hdrain hi hc =>
    have hfine := hs.fine i c hc
    refine hs.put { s with drain := .firing i live (left.erase i) } rfl hc rfl
      (fun _ => by rw [hdrain]; rfl) (fun _ _ => rfl) (fun j hj => .inl (some.inj hj).symm)
      (fun j hj h => ?_) ⟨hfine.entry, hfine.ending, hfine.gone,
        fun _ => setReason_ne_none c .drain, fun _ _ _ => .inr (.inr (.inr (.inl rfl)))⟩
    rw [hdrain] at h
    exact .inr ((mem_erase_of_ne hj).mpr h)
  | @fireGiven i c live left hdrain hc =>
    have hfine := hs.fine i c hc
    refine hs.put { s with drain := .cancelling live left } rfl hc rfl
      (fun _ => by rw [hdrain]; rfl) (fun _ _ => rfl) (fun j hj => nomatch hj)
      (fun j hj h => ?_) ⟨hfine.entry, hfine.ending, hfine.gone,
        fun _ => hfine.reason (.inr (.inr (.inr (by rw [hdrain]; rfl)))), fun _ _ _ => .inl rfl⟩
    rw [hdrain] at h
    exact h.resolve_left hj
  | finish hdrain =>
    refine hs.drains rfl rfl rfl (fun _ => by rw [hdrain]; rfl) rfl fun j c hc hended => ?_
    rw [hdrain]
    exact fun h => nomatch h

/-! ## Refusals -/

theorem calls_put (hc : s.calls[i]? = some c) (c' : OpenCall) (j : ℕ) :
    (s.put i c').calls[j]? = if j = i then some c' else s.calls[j]? :=
  getElem?_set_eq_ite hc

/-- **What a step of a call leaves**, and what its checks and refusals come to. -/
structure Moved (s : Draining) (c : OpenCall) (s₁ : Draining) (c' : OpenCall) : Prop where
  calls : s₁.calls = s.calls
  phase : s₁.phase = s.phase
  drainEnded : s₁.drainEnded = s.drainEnded
  reason : c'.reason = c.reason ∨ c'.reason = (c.setReason .drain).reason
  entered : c.stage = .entered → c'.stage = s.checkPhase c.terminal
  phaseRead : c.stage = .phaseRead → s.drainEnded = true → c'.stage = .refusing
  refuses : c.stage.refuses = true → c'.stage.refuses = true

/-- After the check, and not to a refusal. -/
theorem Moved.of_stage {s₁ : Draining} (hcalls : s₁.calls = s.calls) (hphase : s₁.phase = s.phase)
    (hended : s₁.drainEnded = s.drainEnded)
    (hreason : c'.reason = c.reason ∨ c'.reason = (c.setReason .drain).reason)
    (hstage : c.stage ≠ .entered ∧ c.stage ≠ .phaseRead ∧ c.stage.refuses = false) :
    Moved s c s₁ c' where
  calls := hcalls
  phase := hphase
  drainEnded := hended
  reason := hreason
  entered h := absurd h hstage.1
  phaseRead h := absurd h hstage.2.1
  refuses h := absurd (hstage.2.2.symm.trans h) nofun

theorem NextStep.moved (h : NextStep s i c s') : ∃ s₁ c', s' = s₁.put i c' ∧ Moved s c s₁ c' := by
  cases h with
  | check hstage =>
    exact ⟨_, _, rfl, ⟨rfl, rfl, rfl, .inl rfl, fun _ => rfl, by rw [hstage]; nofun,
      by rw [hstage]; nofun⟩⟩
  | checkEnd hstage =>
    exact ⟨_, _, rfl, ⟨rfl, rfl, rfl, .inl rfl, by rw [hstage]; nofun, fun _ h => if_pos h,
      by rw [hstage]; nofun⟩⟩
  | count hstage | close hstage =>
    exact ⟨_, _, rfl, ⟨rfl, rfl, rfl, .inl rfl, by rw [hstage]; nofun, by rw [hstage]; nofun,
      fun _ => rfl⟩⟩
  | attach hstage =>
    refine ⟨_, _, rfl, .of_stage ?_ ?_ ?_ (.inl rfl) (by rw [hstage]; decide)⟩
    all_goals
      unfold Draining.attach
      split <;> rfl
  | give hstage => exact ⟨_, _, rfl, .of_stage rfl rfl rfl (.inr rfl) (by rw [hstage]; decide)⟩
  | fire hstage | hand hstage | finish hstage | release hstage | leave hstage =>
    exact ⟨_, _, rfl, .of_stage rfl rfl rfl (.inl rfl) (by rw [hstage]; decide)⟩

/-- **What a step does to one call**: its own moves it; any other leaves it where it
stands, and gives it a reason at most. -/
structure CallStep (s : Draining) (a : DrainAction) (i : ℕ) (c c' : OpenCall) : Prop where
  reason : (∃ reason, a = .cancel i reason) ∨ c'.reason = c.reason ∨
    c'.reason = (c.setReason .drain).reason
  stage : c'.stage = c.stage ∨ a = .next i ∧ ∃ s₁, Moved s c s₁ c'

theorem step_call (h : s.step a = some s') (hc : s.calls[i]? = some c) :
    ∃ c', s'.calls[i]? = some c' ∧ s.CallStep a i c c' := by
  have hkept : s.CallStep a i c c := ⟨.inr (.inl rfl), .inl rfl⟩
  have hput (s₁ : Draining) (j : ℕ) (d d' : OpenCall) (hcalls : s₁.calls = s.calls)
      (hd : s.calls[j]? = some d) (hstep : s.CallStep a j d d') :
      ∃ c', (s₁.put j d').calls[i]? = some c' ∧ s.CallStep a i c c' := by
    rw [calls_put (hcalls ▸ hd)]
    split
    · rename_i hj
      subst hj
      cases hd.symm.trans hc
      exact ⟨d', rfl, hstep⟩
    · exact ⟨c, hcalls ▸ hc, hkept⟩
  cases step_spec h with
  | enter => exact ⟨c, getElem?_concat_eq_some.mpr (.inl hc), hkept⟩
  | next hd hnext =>
    obtain ⟨s₁, d', rfl, hmoved⟩ := hnext.moved
    exact hput s₁ _ _ _ hmoved.calls hd ⟨.inr hmoved.reason, .inr ⟨rfl, s₁, hmoved⟩⟩
  | cancel hd => exact hput s _ _ _ rfl hd ⟨.inl ⟨_, rfl⟩, .inl rfl⟩
  | fire hd | forget hd => exact hput s _ _ _ rfl hd ⟨.inr (.inl rfl), .inl rfl⟩
  | give _ _ hd => exact hput _ _ _ _ rfl hd ⟨.inr (.inr rfl), .inl rfl⟩
  | fireGiven _ hd => exact hput _ _ _ _ rfl hd ⟨.inr (.inl rfl), .inl rfl⟩
  | _ => exact ⟨c, hc, hkept⟩

/-- A step enters one call at most. -/
theorem step_length (h : s.step a = some s') :
    (∃ terminal, s' = s.enter terminal) ∨ s'.calls.length = s.calls.length := by
  cases step_spec h with
  | enter => exact .inl ⟨_, rfl⟩
  | next _ hnext =>
    obtain ⟨s₁, c', rfl, hmoved⟩ := hnext.moved
    exact .inr ((length_set).trans (congrArg length hmoved.calls))
  | cancel | fire | forget | give | fireGiven => exact .inr length_set
  | _ => exact .inr rfl

/-- A call that was not there is new. -/
theorem step_new (h : s.step a = some s') (hnone : s.calls[i]? = none)
    (hc' : s'.calls[i]? = some c') : ∃ terminal, c' = { terminal } := by
  rcases step_length h with ⟨terminal, rfl⟩ | hlength
  · rcases getElem?_concat_eq_some.mp hc' with hc | ⟨-, rfl⟩
    · cases hnone.symm.trans hc
    · exact ⟨terminal, rfl⟩
  · have hlt := (List.getElem?_eq_some_iff.mp hc').1
    rw [hlength] at hlt
    exact absurd hlt (Nat.not_lt.mpr (getElem?_eq_none_iff.mp hnone))

theorem NextStep.flags (h : NextStep s i c s') :
    s'.phase = s.phase ∧ s'.drainEnded = s.drainEnded := by
  obtain ⟨s₁, c', rfl, hmoved⟩ := h.moved
  exact ⟨hmoved.phase, hmoved.drainEnded⟩

/-- The end of the drain stays noted. -/
theorem drainEnded_stable (hended : s.drainEnded = true) (h : s.step a = some s') :
    s'.drainEnded = true := by
  cases step_spec h with
  | next _ hnext => exact hnext.flags.2.trans hended
  | endDrain => rfl
  | _ => exact hended

theorem Phase.rank_advance (p next : Phase) : p.rank ≤ (p.advance next).rank := by
  unfold Phase.advance
  split
  · exact Nat.le_of_lt ‹_›
  · exact Nat.le_refl _

/-- The phase does not go back behind the drain. -/
theorem phase_stable (hphase : Phase.draining.rank ≤ s.phase.rank) (h : s.step a = some s') :
    Phase.draining.rank ≤ s'.phase.rank := by
  cases step_spec h with
  | next _ hnext =>
    rw [hnext.flags.1]
    exact hphase
  | advance | begin => exact hphase.trans (Phase.rank_advance _ _)
  | _ => exact hphase

/-- **The call is refused**, or will be by the end of its check. -/
def Refuses (i : ℕ) (s : Draining) : Prop :=
  ∃ c, s.calls[i]? = some c ∧
    (c.stage.refuses = true ∨ c.stage = .phaseRead ∧ s.drainEnded = true)

theorem refuses_stable (hrefuses : s.Refuses i) (h : s.step a = some s') : s'.Refuses i := by
  obtain ⟨c, hc, hcheck⟩ := hrefuses
  obtain ⟨c', hc', -, hstage⟩ := step_call h hc
  refine ⟨c', hc', ?_⟩
  rcases hstage with hstage | ⟨-, s₁, hmoved⟩
  · rw [hstage]
    exact hcheck.imp_right (And.imp_right fun hended => drainEnded_stable hended h)
  · left
    rcases hcheck with hrefuses | ⟨hread, hended⟩
    · exact hmoved.refuses hrefuses
    · rw [hmoved.phaseRead hread hended]
      rfl

section

variable (h : s.step (.next i) = some s') (hc : s.calls[i]? = some c)
include h hc

/-- The own step of a call. -/
theorem step_next : ∃ s₁ c', s'.calls[i]? = some c' ∧ Moved s c s₁ c' := by
  cases step_spec h with
  | next hd hnext =>
    rw [hc] at hd
    cases hd
    obtain ⟨s₁, c', rfl, hmoved⟩ := hnext.moved
    refine ⟨s₁, c', ?_, hmoved⟩
    rw [calls_put (hmoved.calls ▸ hc), if_pos rfl]

/-- An ordinary call that reads `Draining`, or a later phase. -/
theorem Refuses.of_phase (hordinary : c.terminal = false) (hstage : c.stage = .entered)
    (hphase : Phase.draining.rank ≤ s.phase.rank) : s'.Refuses i := by
  obtain ⟨s₁, c', hc', hmoved⟩ := step_next h hc
  refine ⟨c', hc', .inl ?_⟩
  rw [hmoved.entered hstage, checkPhase, hordinary, if_neg nofun, if_neg (Nat.not_lt.mpr hphase)]
  rfl

/-- A terminal call in its check, after the end of the drain. -/
theorem Refuses.of_ended (hterminal : c.terminal = true)
    (hstage : c.stage = .entered ∨ c.stage = .phaseRead) (hended : s.drainEnded = true) :
    s'.Refuses i := by
  obtain ⟨s₁, c', hc', hmoved⟩ := step_next h hc
  refine ⟨c', hc', ?_⟩
  rcases hstage with hstage | hstage
  · rw [hmoved.entered hstage, checkPhase, hterminal, if_pos rfl]
    split
    · exact .inr ⟨rfl, drainEnded_stable hended h⟩
    · exact .inl rfl
  · rw [hmoved.phaseRead hstage hended]
    exact .inl rfl

end

theorem Refuses.opened (hrefuses : s.Refuses i) (hc : s.calls[i]? = some c) :
    c.stage.opened = false := by
  obtain ⟨d, hd, hcheck⟩ := hrefuses
  rw [hc] at hd
  cases hd
  revert hcheck
  cases c.stage <;> simp [OpenStage.refuses, OpenStage.opened]

/-! ## What the invariant comes to -/

/-- After the sweep an execution that `open` returned has ended or is cancelled: its
own `attach` is over, and so is the sweep. -/
theorem Inv.ended_or_fired (hs : s.Inv) (hdone : s.drain.isDone = true) (hc : s.calls[i]? = some c)
    (hhanded : c.stage.handed = true) : c.ended = true ∨ c.fired = true := by
  have hswept : s.drain.swept = true := by
    revert hdone
    cases s.drain <;> simp [DrainStage.isDone, DrainStage.swept]
  have hholds : ¬ s.drain.Holds i := by
    revert hdone
    cases s.drain <;> simp [DrainStage.isDone, DrainStage.Holds]
  have hstage : c.stage.opened = true ∧ c.stage ≠ .cancelling ∧ c.stage ≠ .firing := by
    revert hhanded
    cases c.stage <;> simp [OpenStage.handed, OpenStage.opened]
  cases hended : c.ended with
  | true => exact .inl rfl
  | false =>
    rcases (hs.fine i c hc).swept (hs.swept hswept) hstage.1 hended with h | h | h | h
    · exact .inr h
    · exact absurd h hstage.2.1
    · exact absurd h hstage.2.2
    · exact absurd h hholds

theorem resolve_empty (h : s.step .resolve = some s') : s.executions.entries.isEmpty = true := by
  cases step_spec h with
  | resolve _ hempty => exact hempty

/-- Where the live set is empty, the executions that were in it have ended. -/
theorem Inv.ended_of_empty (hs : s.Inv) (hempty : s.executions.entries.isEmpty = true)
    (hc : s.calls[i]? = some c) (hopened : c.stage.opened = true) : c.ended = true := by
  have hentry : c.stage.entry = none := by
    rw [← (hs.fine i c hc).entry, AList.lookup, isEmpty_iff.mp hempty]
    rfl
  refine (hs.fine i c hc).ending (.inr (.inr ?_))
  revert hopened hentry
  cases c.stage <;> simp [OpenStage.opened, OpenStage.entry]

end Draining

section Runs

variable {t : List DrainAction} {s : Draining} (h : drainMachine.run t = some s)
include h

theorem drain_inv : s.Inv :=
  Machine.invariant Draining.Inv.init (fun _ _ _ hs hstep => hs.step hstep) h

theorem phase_of_begin (hbegin : .begin ∈ t) : Phase.draining.rank ≤ s.phase.rank := by
  refine Machine.holds_after (P := fun s : Draining => Phase.draining.rank ≤ s.phase.rank) ?_
    (fun _ _ _ hs hstep => Draining.phase_stable hs hstep) h hbegin
  intro s₀ s₁ hstep
  have hbegun : Draining.DrainStep s₀ .begin s₁ := Draining.step_spec hstep
  cases hbegun with
  | begin =>
    show _ ≤ (s₀.phase.advance .draining).rank
    cases s₀.phase <;> decide

theorem drainEnded_of_endDrain (hend : .endDrain ∈ t) : s.drainEnded = true := by
  refine Machine.holds_after (P := fun s : Draining => s.drainEnded = true) ?_
    (fun _ _ _ hs hstep => Draining.drainEnded_stable hs hstep) h hend
  intro s₀ s₁ hstep
  have hended : Draining.DrainStep s₀ .endDrain s₁ := Draining.step_spec hstep
  cases hended with
  | endDrain => rfl

/-- **A reason that is not the drain's** was given by somebody else. -/
theorem reason_of_drain {i : ℕ} {c : OpenCall} (hc : s.calls[i]? = some c)
    (hothers : ∀ reason, .cancel i reason ∉ t) : c.reason = none ∨ c.reason = some .drain := by
  refine Machine.run_induction (P := fun t s => ∀ c : OpenCall, s.calls[i]? = some c →
    (∀ reason, .cancel i reason ∉ t) → c.reason = none ∨
      c.reason = some .drain) ?_ ?_ h c hc hothers
  · intro c hc
    exact absurd hc (by simp [drainMachine])
  · intro t s a s' _ ih hstep c' hc' hothers
    cases hc : s.calls[i]? with
    | none =>
      obtain ⟨terminal, rfl⟩ := Draining.step_new hstep hc hc'
      exact .inl rfl
    | some c =>
      obtain ⟨d, hd, hreason, -⟩ := Draining.step_call hstep hc
      rw [hc'] at hd
      cases hd
      have hbefore := ih c hc fun reason hmem =>
        hothers reason (mem_append_left _ hmem)
      rcases hreason with ⟨reason, rfl⟩ | hreason | hreason
      · exact absurd (mem_append_right t (mem_singleton.mpr rfl)) (hothers reason)
      · rw [hreason]
        exact hbefore
      · right
        rw [hreason, OpenCall.setReason]
        rcases hbefore with hnone | hdrain
        · rw [hnone]
          rfl
        · rw [hdrain]
          rfl

end Runs

/-- **No execution outlives the drain uncancelled**, in any interleaving of calls of
`open`, of the ends of their executions and of the drain.

Once `cancel_all` has completed, an execution that `open` returned has ended or is
cancelled. One that nobody else cancels is cancelled with `CancelReason::Drain`. An
ordinary call whose check comes after the advance opens nothing, and neither does a
terminal call that is in its check after `end_drain`. And where `until_empty`
resolves, every execution that was attached has ended. -/
theorem drain_cancels_all {t : List DrainAction} {s : Draining}
    (h : drainMachine.run t = some s) :
    (∀ (i : ℕ) (c : OpenCall), s.calls[i]? = some c → s.drain.isDone = true →
      c.stage.handed = true → c.ended = true ∨ c.fired = true) ∧
    (∀ (i : ℕ) (c : OpenCall), s.calls[i]? = some c → (∀ reason, .cancel i reason ∉ t) →
      c.fired = true → c.reason = some .drain) ∧
    (∀ (i : ℕ) (c : OpenCall), s.calls[i]? = some c → ∀ (pre : List DrainAction) (s₀ : Draining)
      (c₀ : OpenCall), drainMachine.TookAt t pre s₀ (.next i) → s₀.calls[i]? = some c₀ →
      (c₀.terminal = false → c₀.stage = .entered → .begin ∈ pre → c.stage.opened = false) ∧
      (c₀.terminal = true → c₀.stage = .entered ∨ c₀.stage = .phaseRead → .endDrain ∈ pre →
        c.stage.opened = false)) ∧
    (∀ (pre : List DrainAction) (s₀ : Draining), drainMachine.TookAt t pre s₀ .resolve →
      ∀ (i : ℕ) (c : OpenCall), s₀.calls[i]? = some c → c.stage.opened = true →
        c.ended = true) := by
  have hs := drain_inv h
  have hrefused {i : ℕ} {c : OpenCall} {pre : List DrainAction} {s₀ : Draining} {a : DrainAction}
      (hc : s.calls[i]? = some c) (htook : drainMachine.TookAt t pre s₀ a)
      (hstep : ∀ s₁, drainMachine.step s₀ a = some s₁ → s₁.Refuses i) : c.stage.opened = false :=
    (htook.holds_after hstep (fun _ _ _ hs hstep => Draining.refuses_stable hs hstep) h).opened hc
  refine ⟨fun i c hc hdone hhanded => ?_, fun i c hc hothers hfired => ?_,
    fun i c hc pre s₀ c₀ htook hc₀ => ⟨fun hordinary hstage hbegin => ?_,
      fun hterminal hstage hend => ?_⟩, fun pre s₀ htook i c hc hopened => ?_⟩
  · exact hs.ended_or_fired hdone hc hhanded
  · exact (reason_of_drain h hc hothers).resolve_left ((hs.fine i c hc).reason (.inl hfired))
  · refine hrefused hc htook fun s₁ hstep => ?_
    exact .of_phase hstep hc₀ hordinary hstage (phase_of_begin htook.run hbegin)
  · refine hrefused hc htook fun s₁ hstep => ?_
    exact .of_ended hstep hc₀ hterminal hstage (drainEnded_of_endDrain htook.run hend)
  · have hs₀ := drain_inv htook.run
    obtain ⟨s₁, hstep⟩ := htook.step h
    exact hs₀.ended_of_empty (Draining.resolve_empty hstep) hc hopened

/-- An execution that the sweep finds, one that is attached after it, and one that is
refused. -/
def drainedCalls : List DrainAction :=
  [.enter false, .next 0, .next 0, .next 0, .enter false, .next 1, .begin, .enter false, .expire,
    .endDrain, .sweep, .next 1, .load 0, .loaded, .next 1, .give 0, .next 2, .next 1, .fireGiven,
    .next 1, .finish]

/-- The executions of `drainedCalls` at its end. -/
def drainedCallsEnd : Draining where
  phase := .draining
  drainEnded := true
  executions := (((∅ : Map ℕ Bool).insert 0 true).insert 2 false).insert 1 true
  cancelled := true
  calls := [{ terminal := false, stage := .returned, reason := some .drain, fired := true },
    { terminal := false, stage := .returned, reason := some .drain, fired := true },
    { terminal := false, stage := .refused }]
  drain := .done 1 0

theorem drain_cancels_all_drained :
    drainMachine.run drainedCalls = some drainedCallsEnd ∧
      ∀ (i : ℕ) (c : OpenCall), drainedCallsEnd.calls[i]? = some c → c.stage.handed = true →
        c.ended = true ∨ c.fired = true := by
  have hrun : drainMachine.run drainedCalls = some drainedCallsEnd := by rfl
  exact ⟨hrun, fun i c hc => (drain_cancels_all hrun).1 i c hc rfl⟩

end Ulo
