import Ulo.Lib.List
import Ulo.Lib.Machine
import Ulo.Resolver

/-!
# Who lets go of the servers

The shutdown sequence lets go of the application's servers when its close step has
ended. An application that never gets there lets go of them when its `App` value
is dropped, or, while a `close` holds a claim on them, when the last claim is. The
four flags of `Release` are changed under one lock; what follows a change – the
notice, and the servers themselves – is done after the lock, so each is a step of
its own here, and the steps of all actors interleave.

`release_exact` says that the flags record what happened: when the servers go, and
which claims come too late for them.
-/

namespace Ulo

open List Option

/-- `Release`. -/
structure Release where
  appDropped : Bool := false
  closing : ℕ := 0
  released : Bool := false
  serversClosed : Bool := false
deriving DecidableEq

/-- `PhaseCell::advance`: never back. -/
def Phase.advance (p next : Phase) : Phase := if p.rank < next.rank then next else p

/-- Where the `App` value or a claim stands: held; held by the runner of the close
step, which has noted its end and not let go of the servers yet; dropped, with the
notice to give or the servers to let go of; and gone. -/
inductive Hold
  | held
  | ending
  | firing
  | taking
  | gone
deriving DecidableEq

/-- Whether a claim still counts. -/
def Hold.counts : Hold → Bool
  | .held | .ending => true
  | _ => false

/-- Whether an actor has still to let go of the servers. -/
def Hold.releasing : Hold → Bool
  | .ending | .firing | .taking => true
  | _ => false

/-- `Closing`: one `close`'s claim, and whether its future answered `Dropped`. -/
structure Claim where
  dropped : Bool
  answered : Bool := false
  hold : Hold := .held
deriving DecidableEq

/-- **What the `App` value, the claims and the sequence share.** -/
structure Releasing where
  release : Release := {}
  phase : Phase := .running
  draining : Bool := false
  /-- The application has its servers. -/
  servers : Bool := true
  app : Hold := .held
  claims : List Claim := []
deriving DecidableEq

/-- A step of one of them. `none` is the `App` value, `some i` a claim. -/
inductive ReleaseAction
  | claim
  | answer (i : ℕ)
  | endClose (i : ℕ)
  | drop (who : Option ℕ)
  | fire (who : Option ℕ)
  | take (who : Option ℕ)
  | advance (next : Phase)
deriving DecidableEq

namespace Releasing

/-- `Closing::claim`. -/
def claim (s : Releasing) : Releasing :=
  { s with
    release := { s.release with closing := s.release.closing + 1 }
    claims := s.claims ++ [{ dropped := s.release.released && !s.release.serversClosed }] }

/-- `released_by_drop`: `none` while the `App` value lives or a claim is held. -/
def releasedByDrop (s : Releasing) : Releasing × Option Bool :=
  if s.release.appDropped = false ∨ s.release.closing ≠ 0 then (s, none)
  else
    let unclosed := !s.release.serversClosed
    ({ s with
        release := { s.release with released := true }
        phase := if unclosed then s.phase.advance .closed else s.phase }, some unclosed)

/-- What is left to do after the lock. -/
def afterLock : Option Bool → Hold
  | none => .gone
  | some true => .firing
  | some false => .taking

/-- The place of an actor. -/
def setHold (s : Releasing) (who : Option ℕ) (hold : Hold) : Releasing :=
  match who with
  | none => { s with app := hold }
  | some i => { s with claims := s.claims.modify i fun c => { c with hold := hold } }

/-- Where an actor stands. -/
def hold (s : Releasing) : Option ℕ → Hold
  | none => s.app
  | some i => (s.claims[i]?.map (·.hold)).getD .gone

/-- What the drop of the `App` value, or of a claim, changes first. -/
def letGo (s : Releasing) : Option ℕ → Releasing
  | none => { s with release := { s.release with appDropped := true } }
  | some _ => { s with release := { s.release with closing := s.release.closing - 1 } }

/-- `app_dropped`, and the drop of a claim: what changes under the lock. -/
def drop (s : Releasing) (who : Option ℕ) : Releasing :=
  let out := (s.letGo who).releasedByDrop
  out.1.setHold who (afterLock out.2)

/-- One step. -/
def step (s : Releasing) : ReleaseAction → Option Releasing
  | .claim => some s.claim
  -- a poll of a claim that came too late
  | .answer i =>
    match s.claims[i]? with
    | some c =>
      if c.hold = .held ∧ c.dropped = true then
        some { s with claims := s.claims.modify i fun c => { c with answered := true } }
      else none
    | none => none
  -- the end of the close step, which a claim in time may run, once
  | .endClose i =>
    match s.claims[i]? with
    | some c =>
      if c.hold = .held ∧ c.dropped = false ∧ s.release.serversClosed = false then
        some (({ s with release := { s.release with serversClosed := true } } : Releasing).setHold
          (some i) .ending)
      else none
    | none => none
  | .drop who => if s.hold who = .held then some (s.drop who) else none
  | .fire who =>
    if s.hold who = .firing then
      some (({ s with draining := true } : Releasing).setHold who .taking)
    else none
  -- `release_servers`
  | .take who =>
    match s.hold who with
    | .ending => some (({ s with servers := false } : Releasing).setHold who .held)
    | .taking => some (({ s with servers := false } : Releasing).setHold who .gone)
    | _ => none
  | .advance next => some { s with phase := s.phase.advance next }

end Releasing

/-- **The release of the servers**, from an application that serves. -/
def releaseMachine : Machine Releasing ReleaseAction where
  init := {}
  step := Releasing.step

/-! ## What a step can do -/

/-- **The steps**, with what makes each possible. A drop is two of them: it
releases the servers, or it does not. -/
inductive ReleaseStep (s : Releasing) : ReleaseAction → Releasing → Prop
  | claim : ReleaseStep s .claim s.claim
  | answer {i : ℕ} {c : Claim} (hc : s.claims[i]? = some c) (hheld : c.hold = .held)
      (hlate : c.dropped = true) : ReleaseStep s (.answer i)
        { s with claims := s.claims.modify i fun c => { c with answered := true } }
  | endClose {i : ℕ} {c : Claim} (hc : s.claims[i]? = some c) (hheld : c.hold = .held)
      (htime : c.dropped = false) (hopen : s.release.serversClosed = false) :
      ReleaseStep s (.endClose i)
        (({ s with release := { s.release with serversClosed := true } } : Releasing).setHold
          (some i) .ending)
  | dropHeld {who : Option ℕ} (hheld : s.hold who = .held)
      (hkept : (s.letGo who).release.appDropped = false ∨ (s.letGo who).release.closing ≠ 0) :
      ReleaseStep s (.drop who) ((s.letGo who).setHold who .gone)
  | dropReleased {who : Option ℕ} (hheld : s.hold who = .held)
      (hdropped : (s.letGo who).release.appDropped = true)
      (hfree : (s.letGo who).release.closing = 0) :
      ReleaseStep s (.drop who) (({ s.letGo who with
        release := { (s.letGo who).release with released := true }
        phase := if s.release.serversClosed then s.phase else s.phase.advance .closed } :
          Releasing).setHold who (if s.release.serversClosed then .taking else .firing))
  | fire {who : Option ℕ} (hfiring : s.hold who = .firing) :
      ReleaseStep s (.fire who) (({ s with draining := true } : Releasing).setHold who .taking)
  | takeEnding {who : Option ℕ} (hending : s.hold who = .ending) :
      ReleaseStep s (.take who) (({ s with servers := false } : Releasing).setHold who .held)
  | takeTaking {who : Option ℕ} (htaking : s.hold who = .taking) :
      ReleaseStep s (.take who) (({ s with servers := false } : Releasing).setHold who .gone)
  | advance {next : Phase} : ReleaseStep s (.advance next) { s with phase := s.phase.advance next }

theorem Releasing.letGo_phase (s : Releasing) (who : Option ℕ) : (s.letGo who).phase = s.phase := by
  cases who <;> rfl

theorem Releasing.letGo_serversClosed (s : Releasing) (who : Option ℕ) :
    (s.letGo who).release.serversClosed = s.release.serversClosed := by
  cases who <;> rfl

variable {s s' : Releasing} {a : ReleaseAction} {who : Option ℕ} {c : Claim} {i : ℕ}

theorem Releasing.drop_step (hheld : s.hold who = .held) :
    ReleaseStep s (.drop who) (s.drop who) := by
  unfold Releasing.drop Releasing.releasedByDrop
  split
  · rename_i hkept
    exact .dropHeld hheld hkept
  · rename_i hfree
    rw [not_or, Bool.not_eq_false, not_not] at hfree
    have h := ReleaseStep.dropReleased hheld hfree.1 hfree.2
    cases hclosed : s.release.serversClosed with
    | true | false => simpa [hclosed, letGo_serversClosed, letGo_phase, afterLock] using h

theorem Releasing.step_spec (h : s.step a = some s') : ReleaseStep s a s' := by
  cases a with simp only [step] at h
  | claim =>
    cases h
    exact .claim
  | answer =>
    split at h
    · rename_i hc
      split at h
      · rename_i hguard
        cases h
        exact .answer hc hguard.1 hguard.2
      · cases h
    · cases h
  | endClose =>
    split at h
    · rename_i hc
      split at h
      · rename_i hguard
        cases h
        exact .endClose hc hguard.1 hguard.2.1 hguard.2.2
      · cases h
    · cases h
  | drop =>
    split at h
    · rename_i hheld
      cases h
      exact drop_step hheld
    · cases h
  | fire =>
    split at h
    · rename_i hfiring
      cases h
      exact .fire hfiring
    · cases h
  | take =>
    split at h
    · rename_i hending
      cases h
      exact .takeEnding hending
    · rename_i htaking
      cases h
      exact .takeTaking htaking
    · cases h
  | advance =>
    cases h
    exact .advance

theorem Phase.advance_closed (p : Phase) : p.advance .closed = .closed := by
  cases p <;> rfl

namespace Releasing

variable {hold : Hold}

/-! ## The place of an actor -/

theorem getElem?_setHold (s : Releasing) (who : Option ℕ) (hold : Hold) (j : ℕ) :
    (s.setHold who hold).claims[j]? =
      s.claims[j]?.map fun c => if who = some j then { c with hold := hold } else c := by
  cases who with
  | none => simp [setHold]
  | some i =>
    show (s.claims.modify i _)[j]? = _
    rw [getElem?_modify]
    simp only [some.injEq]
    rfl

theorem hold_some (h : s.claims[i]? = some c) : s.hold (some i) = c.hold := by
  rw [hold, h]
  rfl

theorem claim_of_hold (h : s.hold (some i) ≠ .gone) : ∃ c, s.claims[i]? = some c := by
  cases hc : s.claims[i]? with
  | none => simp [hold, hc] at h
  | some c => exact ⟨c, rfl⟩

/-- An actor that is not gone has a place to change. -/
theorem hold_setHold (hwho : s.hold who ≠ .gone) (hold : Hold) (other : Option ℕ) :
    (s.setHold who hold).hold other = if other = who then hold else s.hold other := by
  cases other with
  | none => cases who <;> rfl
  | some j =>
    rw [Releasing.hold, getElem?_setHold, Option.map_map]
    by_cases hj : some j = who
    · subst hj
      cases hc : s.claims[j]? with
      | none => simp [Releasing.hold, hc] at hwho
      | some => simp
    · rw [if_neg hj, Releasing.hold]
      cases hc : s.claims[j]? with
      | none => rfl
      | some => simp [Ne.symm hj]

@[simp] theorem setHold_release (s : Releasing) (who : Option ℕ) (hold : Hold) :
    (s.setHold who hold).release = s.release := by cases who <;> rfl

@[simp] theorem setHold_phase (s : Releasing) (who : Option ℕ) (hold : Hold) :
    (s.setHold who hold).phase = s.phase := by cases who <;> rfl

@[simp] theorem setHold_servers (s : Releasing) (who : Option ℕ) (hold : Hold) :
    (s.setHold who hold).servers = s.servers := by cases who <;> rfl

/-- The number of claims that are held. -/
def heldClaims (s : Releasing) : ℕ := s.claims.countP (·.hold.counts)

/-- What a claim counts for. -/
def countOf (hold : Hold) : ℕ := if hold.counts then 1 else 0

theorem heldClaims_setHold (hc : s.claims[i]? = some c) (hold : Hold) :
    (s.setHold (some i) hold).heldClaims + countOf c.hold = s.heldClaims + countOf hold :=
  countP_modify hc

/-! ## The invariant -/

/-- What a claim was told, by the flags. -/
structure Told (released closed : Bool) (c : Claim) : Prop where
  late : released = true → closed = false → c.hold.counts = true → c.dropped = true
  early : c.dropped = true → released = true ∧ closed = false
  answered : c.answered = true → c.dropped = true

/-- Where an actor may stand, by the flags. -/
def MayStand (released closed : Bool) : Hold → Prop
  | .ending => closed = true
  | .firing | .taking => released = true
  | _ => True

/-- **What the flags say.** -/
structure Inv (s : Releasing) : Prop where
  count : s.release.closing = s.heldClaims
  appDropped : s.release.appDropped = true ↔ s.app ≠ .held
  appEnding : s.app ≠ .ending
  free : s.release.appDropped = true → s.release.closing = 0 → s.release.released = true
  closed : s.release.released = true → s.release.serversClosed = false → s.phase = .closed
  told : ∀ c ∈ s.claims, Told s.release.released s.release.serversClosed c
  places : ∀ who, MayStand s.release.released s.release.serversClosed (s.hold who)
  taken : s.servers = false → s.release.serversClosed = true ∨ s.release.released = true
  taking : s.release.serversClosed = true ∨ s.release.released = true →
    s.servers = false ∨ ∃ who, (s.hold who).releasing = true

/-- A new claim is held, where no actor was. -/
theorem hold_claim (s : Releasing) (who : Option ℕ) :
    s.claim.hold who = s.hold who ∨ s.claim.hold who = .held ∧ s.hold who = .gone := by
  cases who with
  | none => exact .inl rfl
  | some i =>
    simp only [hold, Releasing.claim, getElem?_append]
    split
    · exact .inl rfl
    · rename_i hi
      rw [getElem?_eq_none (Nat.le_of_not_lt hi)]
      cases i - s.claims.length with
      | zero => exact .inr ⟨rfl, rfl⟩
      | succ => exact .inl rfl

/-- A poll moves nobody. -/
theorem hold_answer (s : Releasing) (i : ℕ) (who : Option ℕ) :
    Releasing.hold { s with claims := s.claims.modify i fun c => { c with answered := true } } who =
      s.hold who := by
  cases who with
  | none => rfl
  | some j =>
    simp only [Releasing.hold, getElem?_modify]
    cases s.claims[j]? with
    | none => rfl
    | some c₀ =>
      show (if i = j then { c₀ with answered := true } else c₀ : Claim).hold = _
      split <;> rfl

/-- What claims were told stays as an actor moves, if that holds none anew. -/
theorem told_setHold {released closed : Bool} (h : ∀ c ∈ s.claims, Told released closed c)
    (hcounts : hold.counts = true → (s.hold who).counts = true) :
    ∀ c ∈ (s.setHold who hold).claims, Told released closed c := by
  cases who with
  | none => exact h
  | some i =>
    refine forall_mem_modify h fun c hc htold => { htold with late := fun hr ho hcount => ?_ }
    exact htold.late hr ho (hold_some hc ▸ hcounts hcount)

section Keep

variable (hs : s.Inv) {who : Option ℕ}
include hs

theorem Inv.claim : s.claim.Inv := by
  refine { hs with
    count := ?_
    free := nofun
    told := fun c hc => ?_
    places := fun who => ?_
    taking := fun h => (hs.taking h).imp_right fun ⟨who, hwho⟩ => ⟨who, ?_⟩ }
  · show s.release.closing + 1 = (s.claims ++ _).countP _
    rw [countP_append, hs.count]
    rfl
  · rcases mem_snoc.mp hc with hc | rfl
    · exact hs.told c hc
    · refine ⟨fun hr ho _ => ?_, fun h => ?_, nofun⟩
      · exact Bool.and_eq_true_iff.mpr ⟨hr, (Bool.not_eq_true' _).mpr ho⟩
      · exact (Bool.and_eq_true_iff.mp h).imp_right (Bool.not_eq_true' _).mp
  · rcases s.hold_claim who with heq | ⟨hheld, -⟩
    · exact heq ▸ hs.places who
    · rw [hheld]
      trivial
  · rcases s.hold_claim who with heq | ⟨-, hgone⟩
    · rwa [heq]
    · rw [hgone] at hwho
      cases hwho

theorem Inv.answer (hc : s.claims[i]? = some c) (hlate : c.dropped = true) :
    Inv { s with claims := s.claims.modify i fun c => { c with answered := true } } := by
  have hcount := countP_modify (p := fun c : Claim => c.hold.counts)
    (f := fun c => { c with answered := true }) hc
  refine { hs with
    count := hs.count.trans (Nat.add_right_cancel hcount).symm
    told := forall_mem_modify hs.told fun c' hc' htold => { htold with answered := fun _ => ?_ }
    places := fun who => (s.hold_answer i who).symm ▸ hs.places who
    taking := fun h => (hs.taking h).imp_right fun ⟨who, hwho⟩ =>
      ⟨who, (s.hold_answer i who).symm ▸ hwho⟩ }
  exact some.inj (hc.symm.trans hc') ▸ hlate

/-- What a drop changes first: the count is the number of claims held but this one. -/
theorem Inv.letGo_count (hheld : s.hold who = .held) (hold : Hold) (hgone : hold.counts = false) :
    (s.letGo who).release.closing = (s.setHold who hold).heldClaims := by
  cases who with
  | none => exact hs.count
  | some i =>
    obtain ⟨c, hc⟩ := claim_of_hold (by rw [hheld]; exact nofun)
    have hcount := heldClaims_setHold hc hold
    rw [← hold_some hc, hheld, countOf, countOf, hgone, ← hs.count] at hcount
    show s.release.closing - 1 = _
    simp only [Hold.counts, if_true, Bool.false_eq_true, if_false] at hcount
    omega

/-- Only the drop of the `App` value sets its flag. -/
theorem Inv.letGo_appDropped (hne : hold ≠ .held) :
    (s.letGo who).release.appDropped = true ↔ (s.setHold who hold).app ≠ .held := by
  cases who with
  | none => exact ⟨fun _ => hne, fun _ => rfl⟩
  | some => exact hs.appDropped

/-- **A step of one actor** that changes no claim but its own place. -/
theorem Inv.move {s₁ : Releasing} (hclaims : s₁.claims = s.claims) (happ : s₁.app = s.app)
    (hwho : s.hold who ≠ .gone)
    (hcount : s₁.release.closing = (s.setHold who hold).heldClaims)
    (hdropped : s₁.release.appDropped = true ↔ (s.setHold who hold).app ≠ .held)
    (hending : who = none → hold ≠ .ending)
    (hfree : s₁.release.appDropped = true → s₁.release.closing = 0 → s₁.release.released = true)
    (hphase : s₁.release.released = true → s₁.release.serversClosed = false → s₁.phase = .closed)
    (htold : ∀ c ∈ (s.setHold who hold).claims,
      Told s₁.release.released s₁.release.serversClosed c)
    (hplaces : ∀ other, MayStand s₁.release.released s₁.release.serversClosed (s.hold other))
    (hplace : MayStand s₁.release.released s₁.release.serversClosed hold)
    (htaken : s₁.servers = false → s₁.release.serversClosed = true ∨ s₁.release.released = true)
    (htaking : s₁.release.serversClosed = true ∨ s₁.release.released = true →
      s₁.servers = false ∨ hold.releasing = true ∨
        (s.release.serversClosed = true ∨ s.release.released = true) ∧ s₁.servers = s.servers ∧
          (s.hold who).releasing = false) : Inv (s₁.setHold who hold) := by
  have hsame : ∀ other, s₁.hold other = s.hold other := fun other => by
    cases other with
    | none => exact happ
    | some => rw [Releasing.hold, Releasing.hold, hclaims]
  have hnow : ∀ other, (s₁.setHold who hold).hold other =
      if other = who then hold else s.hold other := fun other => by
    rw [hold_setHold (by rwa [hsame]), hsame]
  have hset : (s₁.setHold who hold).claims = (s.setHold who hold).claims ∧
      (s₁.setHold who hold).app = (s.setHold who hold).app := by
    cases who <;> simp [setHold, hclaims, happ]
  refine ⟨?_, ?_, ?_, ?_, ?_, ?_, fun other => ?_, ?_, ?_⟩
  · rw [setHold_release, hcount, heldClaims, heldClaims, hset.1]
  · rwa [setHold_release, hset.2]
  · rw [hset.2]
    cases who with
    | none => exact hending rfl
    | some => exact hs.appEnding
  · rwa [setHold_release]
  · rwa [setHold_release, setHold_phase]
  · rwa [setHold_release, hset.1]
  · rw [setHold_release, hnow]
    split
    · exact hplace
    · exact hplaces other
  · rwa [setHold_servers, setHold_release]
  · rw [setHold_servers, setHold_release]
    intro h
    rcases htaking h with htaken' | hrel | ⟨hbefore, hservers, hidle⟩
    · exact .inl htaken'
    · exact .inr ⟨who, by rwa [hnow, if_pos rfl]⟩
    · rw [hservers]
      refine (hs.taking hbefore).imp_right fun ⟨other, hother⟩ => ⟨other, ?_⟩
      rw [hnow, if_neg]
      · exact hother
      · rintro rfl
        rw [hidle] at hother
        cases hother

theorem Inv.dropHeld (hheld : s.hold who = .held)
    (hkept : (s.letGo who).release.appDropped = false ∨ (s.letGo who).release.closing ≠ 0) :
    Inv ((s.letGo who).setHold who .gone) := by
  have hfree : (s.letGo who).release.appDropped = true → (s.letGo who).release.closing = 0 →
      s.release.released = true := by
    intro hdropped hfree
    rcases hkept with hkept | hkept
    · cases hkept.symm.trans hdropped
    · exact absurd hfree hkept
  have hcount := hs.letGo_count hheld .gone rfl
  cases who <;> exact hs.move rfl rfl (by rw [hheld]; exact nofun) hcount
    (hs.letGo_appDropped nofun)
    (fun _ => nofun) hfree hs.closed (told_setHold hs.told nofun) hs.places trivial hs.taken
    fun h => .inr (.inr ⟨h, rfl, by rw [hheld]; rfl⟩)

theorem Inv.dropReleased (hheld : s.hold who = .held) (hfree : (s.letGo who).release.closing = 0) :
    Inv (({ s.letGo who with
      release := { (s.letGo who).release with released := true }
      phase := if s.release.serversClosed then s.phase else s.phase.advance .closed } :
        Releasing).setHold who (if s.release.serversClosed then .taking else .firing)) := by
  have hcounts : (if s.release.serversClosed then Hold.taking else .firing).counts = false := by
    split <;> rfl
  have hcount := hs.letGo_count hheld _ hcounts
  have hclosed := s.letGo_serversClosed who
  refine hs.move (by cases who <;> rfl) (by cases who <;> rfl) (by rw [hheld]; exact nofun) hcount
    (hs.letGo_appDropped (by split <;> exact nofun)) (fun _ => by split <;> exact nofun)
    (fun _ _ => rfl) (fun _ hopen => ?_) (fun c hc => ?_) (fun other => ?_) (by split <;> rfl)
    (fun _ => .inr rfl) fun _ => .inr (.inl (by split <;> rfl))
  · have hopen : s.release.serversClosed = false := hclosed.symm.trans hopen
    show (if s.release.serversClosed then s.phase else s.phase.advance .closed) = .closed
    rw [hopen]
    exact s.phase.advance_closed
  · -- no claim is held
    have htold := told_setHold hs.told (fun h => absurd (hcounts.symm.trans h) nofun) c hc
    have hzero := countP_eq_zero.mp (hcount.symm.trans hfree) c hc
    exact ⟨fun _ _ hcount => absurd hcount hzero,
      fun h => ⟨rfl, hclosed.trans (htold.early h).2⟩, htold.answered⟩
  · have hplace := hs.places other
    rw [← hclosed] at hplace
    cases hother : s.hold other with
      rw [hother] at hplace
    | ending => exact hplace
    | firing | taking => rfl
    | held | gone => trivial

/-- A step that leaves the flags of `Release` alone keeps the count, and the `App`
value where it is held. -/
theorem Inv.place (hold : Hold) (hwho : s.hold who ≠ .gone)
    (hcounts : hold.counts = (s.hold who).counts)
    (hheld : who = none → (hold ≠ .held ↔ s.app ≠ .held)) :
    s.release.closing = (s.setHold who hold).heldClaims ∧
      (s.release.appDropped = true ↔ (s.setHold who hold).app ≠ .held) := by
  cases who with
  | none => exact ⟨hs.count, hs.appDropped.trans (hheld rfl).symm⟩
  | some i =>
    refine ⟨?_, hs.appDropped⟩
    obtain ⟨c, hc⟩ := claim_of_hold hwho
    have hcount := heldClaims_setHold hc hold
    rw [countOf, countOf, hcounts, hold_some hc] at hcount
    exact hs.count.trans (Nat.add_right_cancel hcount).symm

theorem Inv.endClose (hc : s.claims[i]? = some c) (hheld : c.hold = .held)
    (htime : c.dropped = false) :
    Inv (({ s with release := { s.release with serversClosed := true } } : Releasing).setHold
      (some i) .ending) := by
  have hhold : s.hold (some i) = .held := (hold_some hc).trans hheld
  have hwho : s.hold (some i) ≠ .gone := by rw [hhold]; exact nofun
  obtain ⟨hcount, happ⟩ := hs.place .ending hwho (by rw [hhold]; rfl) nofun
  refine hs.move rfl rfl hwho hcount happ nofun hs.free nofun (fun c' hc' => ?_) (fun other => ?_)
    rfl (fun _ => .inl rfl) fun _ => .inr (.inl rfl)
  · -- while a claim in time is held, no claim came too late
    have htold := told_setHold hs.told (fun _ => by rw [hhold]; rfl) c' hc'
    refine ⟨nofun, fun hdropped => ?_, htold.answered⟩
    obtain ⟨hreleased, hopen⟩ := htold.early hdropped
    have hlate := (hs.told c (mem_of_getElem? hc)).late hreleased hopen (by rw [hheld]; rfl)
    cases htime.symm.trans hlate
  · have hplace := hs.places other
    cases hother : s.hold other with
      rw [hother] at hplace
    | ending => rfl
    | firing | taking => exact hplace
    | held | gone => trivial

theorem Inv.fire (hfiring : s.hold who = .firing) :
    Inv (({ s with draining := true } : Releasing).setHold who .taking) := by
  have hplace := hs.places who
  have hwho : s.hold who ≠ .gone := by rw [hfiring]; exact nofun
  obtain ⟨hcount, happ⟩ := hs.place .taking hwho (by rw [hfiring]; rfl) fun hnone => by
    subst hnone
    exact iff_of_true nofun (by rw [show s.app = .firing from hfiring]; exact nofun)
  rw [hfiring] at hplace
  exact hs.move rfl rfl hwho hcount happ (fun _ => nofun) hs.free hs.closed
    (told_setHold hs.told nofun) hs.places hplace hs.taken fun _ => .inr (.inl rfl)

theorem Inv.takeEnding (hending : s.hold who = .ending) :
    Inv (({ s with servers := false } : Releasing).setHold who .held) := by
  have hplace := hs.places who
  have hwho : s.hold who ≠ .gone := by rw [hending]; exact nofun
  obtain ⟨hcount, happ⟩ := hs.place .held hwho (by rw [hending]; rfl) fun hnone => by
    subst hnone
    exact absurd hending hs.appEnding
  rw [hending] at hplace
  exact hs.move rfl rfl hwho hcount happ (fun _ => nofun) hs.free hs.closed
    (told_setHold hs.told fun _ => by rw [hending]; rfl) hs.places trivial (fun _ => .inl hplace)
    fun _ => .inl rfl

theorem Inv.takeTaking (htaking : s.hold who = .taking) :
    Inv (({ s with servers := false } : Releasing).setHold who .gone) := by
  have hplace := hs.places who
  have hwho : s.hold who ≠ .gone := by rw [htaking]; exact nofun
  obtain ⟨hcount, happ⟩ := hs.place .gone hwho (by rw [htaking]; rfl) fun hnone => by
    subst hnone
    exact iff_of_true nofun (by rw [show s.app = .taking from htaking]; exact nofun)
  rw [htaking] at hplace
  exact hs.move rfl rfl hwho hcount happ (fun _ => nofun) hs.free hs.closed
    (told_setHold hs.told nofun) hs.places trivial (fun _ => .inr hplace) fun _ => .inl rfl

theorem Inv.advance (next : Phase) : Inv { s with phase := s.phase.advance next } where
  __ := hs
  closed hreleased hopen := by
    show s.phase.advance next = .closed
    rw [hs.closed hreleased hopen]
    cases next <;> rfl

/-- **Every step keeps the invariant.** -/
theorem Inv.step (h : s.step a = some s') : s'.Inv := by
  cases step_spec h with
  | claim => exact hs.claim
  | answer hc _ hlate => exact hs.answer hc hlate
  | endClose hc hheld htime => exact hs.endClose hc hheld htime
  | dropHeld hheld hkept => exact hs.dropHeld hheld hkept
  | dropReleased hheld _ hfree => exact hs.dropReleased hheld hfree
  | fire hfiring => exact hs.fire hfiring
  | takeEnding hending => exact hs.takeEnding hending
  | takeTaking htaking => exact hs.takeTaking htaking
  | advance => exact hs.advance _

end Keep

/-! ## Releases and claims in a run -/

end Releasing

section Runs

variable {s : Releasing} {t : List ReleaseAction} (h : releaseMachine.run t = some s)
include h

end Runs

/-- What a step does to the claims: it takes a new one, or changes none of what they
were told when they were taken. -/
theorem Releasing.step_claims (h : s.step a = some s') :
    (a = .claim ∧ s' = s.claim) ∨ (a ≠ .claim ∧ s'.claims.length = s.claims.length ∧
      ∀ (i : ℕ) (c' : Claim), s'.claims[i]? = some c' →
        ∃ c, s.claims[i]? = some c ∧ c'.dropped = c.dropped) := by
  -- moving an actor
  have hmove : ∀ (s₁ : Releasing) (who : Option ℕ) (hold : Hold), s₁.claims = s.claims →
      (s₁.setHold who hold).claims.length = s.claims.length ∧
        ∀ (i : ℕ) (c' : Claim), (s₁.setHold who hold).claims[i]? = some c' →
          ∃ c, s.claims[i]? = some c ∧ c'.dropped = c.dropped := by
    intro s₁ who hold hclaims
    refine ⟨?_, fun i c' hc' => ?_⟩
    · cases who with
      | none => exact congrArg length hclaims
      | some => exact (length_modify _ _ _).trans (congrArg length hclaims)
    · rw [getElem?_setHold, map_eq_some_iff, hclaims] at hc'
      obtain ⟨c, hc, rfl⟩ := hc'
      refine ⟨c, hc, ?_⟩
      split <;> rfl
  cases step_spec h with
  | claim => exact .inl ⟨rfl, rfl⟩
  | @answer j c =>
    refine .inr ⟨nofun, length_modify _ _ _, fun i c' hc' => ?_⟩
    change (s.claims.modify j fun c => { c with answered := true })[i]? = some c' at hc'
    rw [getElem?_modify, Option.map_eq_map, Option.map_eq_some_iff] at hc'
    obtain ⟨c₀, hc₀, rfl⟩ := hc'
    refine ⟨c₀, hc₀, ?_⟩
    split <;> rfl
  | endClose | fire | takeEnding | takeTaking => exact .inr ⟨nofun, hmove _ _ _ rfl⟩
  | @dropHeld who | @dropReleased who => exact .inr ⟨nofun, hmove _ _ _ (by cases who <;> rfl)⟩
  | advance => exact .inr ⟨nofun, rfl, fun i c' hc' => ⟨c', hc', rfl⟩⟩

/-- The claim `i` was taken after the actions `pre`. -/
def ClaimedAt (t pre : List ReleaseAction) (i : ℕ) : Prop :=
  ∃ s₀, releaseMachine.TookAt t pre s₀ .claim ∧ s₀.claims.length = i

/-- A claim that was taken is in the list. -/
theorem ClaimedAt.lt {t pre : List ReleaseAction} (hclaimed : ClaimedAt t pre i)
    (h : releaseMachine.run t = some s) : i < s.claims.length := by
  refine Machine.run_induction (P := fun t s => ∀ pre i, ClaimedAt t pre i → i < s.claims.length)
    ?_ ?_ h pre i hclaimed
  · rintro pre i ⟨s₀, htook, -⟩
    exact absurd htook Machine.not_tookAt_nil
  · rintro t s a s' hrun ih hstep pre i ⟨s₀, htook, rfl⟩
    rcases (Machine.tookAt_snoc hrun).mp htook with htook | ⟨rfl, rfl, rfl⟩
    · have hlt := ih pre _ ⟨s₀, htook, rfl⟩
      rcases Releasing.step_claims hstep with ⟨-, rfl⟩ | ⟨-, hlen, -⟩
      · show _ < (s.claims ++ _).length
        rw [length_append]
        exact hlt.trans_le (Nat.le_add_right _ _)
      · rwa [hlen]
    · cases hstep
      show _ < (s₀.claims ++ _).length
      rw [length_append]
      exact Nat.lt_succ_self _

end Ulo
