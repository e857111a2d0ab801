import Ulo.Lib.List
import Ulo.Lib.Machine

/-!
# The hooks of a connection, and its slot

A connection of a gateway passes through five functions. `connect` registers it in the
hub and dispatches its connect handler: the guards, a slot under `max_connections`, then
`OnConnect`, inside the interceptors and the error handlers. An admitted connection is
owned by the `Switch` of its handshake or by the task that serves it, and ends in
`Admitted::end`: `on_disconnect`, out of the hub, the slot returned. In the mode
`refuse = close` the phase runs after the 101, in the other before it.

`Visit` is one connection under all of them, with a log of what it did to the hub, the
slots and the hooks; `Fits` says what the log is at every stage, so that the slot and the
registration come back on every path. The hooks do not pair on every path: what
`dispatch` answers is the last word of the interceptors and the error handlers, and it is
that, not the answer of `OnConnect`, that admits; and a hand-written gateway is resolved
after it answered (`unpaired_hooks`). Where the answer is handed on and the gateway
resolves, they pair (`hooks_pair`).
-/

namespace Ulo.Ws

open List Option Bool

/-- What is read of a gateway: the mode of its refusals, whether it is hand-written, whether
it has an `on_disconnect`, and its limit. -/
structure Gateway where
  handshake : Bool
  raw : Bool
  hook : Bool
  maxConnections : Option ℕ
deriving DecidableEq

/-- What the handshake decided about a connection it switches. -/
inductive Decided
  | later
  | admitted
  | full
deriving DecidableEq

/-- Where the call of the connect handler stands. -/
inductive CallStage
  | uncalled
  /-- with a slot, in `admit` -/
  | running
  | answered
  /-- no slot was free -/
  | full
deriving DecidableEq

/-- What `connect` returns. -/
inductive Connected
  | admitted
  | full
  | refused
deriving DecidableEq

/-- Where a connection stands. -/
inductive VisitStage
  /-- a `Switch` nobody has served -/
  | switch (decided : Decided)
  | upgrading (decided : Decided)
  /-- in `connect`, before it is registered, before `dispatch`, and in it -/
  | opening
  | registered
  | dispatching (call : CallStage)
  /-- admitted, before the instance of a hand-written gateway -/
  | resolving
  /-- the instance failed, and the slot goes -/
  | failing
  /-- before it is unregistered, and before the end of `connect` drops the slot -/
  | refusing (full : Bool)
  | dropping (full : Bool)
  | serving
  /-- in `end`: before the hook, before it is unregistered, before the slot goes -/
  | ending
  | left
  | leaving
  | done
deriving DecidableEq

/-- What a connection does to the hub, to the slots and to the hooks. -/
inductive VisitEvent
  | registered
  | guards
  | acquired
  /-- `OnConnect` ran and answered `Ok` -/
  | connected
  | disconnected
  | unregistered
  | returned
deriving DecidableEq

/-- **A connection**, with the slot it holds. -/
structure Visit where
  stage : VisitStage
  holds : Bool := false
  log : List VisitEvent := []
deriving DecidableEq

/-- A step of a connection. -/
inductive VisitAction
  | serve
  /-- the `Switch` is dropped unserved -/
  | drop
  | upgrade (ok : Bool)
  /-- the execution opens and the session is built, or the connection is refused -/
  | openPhase (ok : Bool)
  | guards
  /-- the handler is called -/
  | call
  /-- `admit` answers: `OnConnect` ran with `Ok`, or anything else -/
  | answer (ok : Bool)
  /-- `dispatch` answers, in the end -/
  | reply (admitted : Bool)
  | resolve (ok : Bool)
  /-- the connection's own next step -/
  | advance
  /-- the read loop ends -/
  | ended
  /-- `disconnect`, with the hook run or its gateway not resolved -/
  | disconnect (runs : Bool)
deriving DecidableEq

namespace Visit

/-- Where a connection goes when `connect` returned. -/
def exit (g : Gateway) (v : Visit) (connected : Connected) : Visit :=
  { v with stage :=
    match connected, g.handshake with
    | .admitted, true => .switch .admitted
    | .admitted, false => .serving
    | .full, true => .switch .full
    | .full, false | .refused, _ => .done }

/-- **`ConnectReply::Admitted`** with the slot taken. -/
def onAdmitted (g : Gateway) (v : Visit) : Visit :=
  if g.raw then { v with stage := .resolving } else v.exit g .admitted

/-- A slot is taken. -/
def acquire (v : Visit) : Visit := { v with holds := true, log := v.log ++ [.acquired] }

/-- The slot is dropped, if one is held. -/
def release (v : Visit) : Visit × ℤ :=
  if v.holds then ({ v with holds := false, log := v.log ++ [.returned] }, -1) else (v, 0)

/-- `hub.unregister`. -/
def unregister (v : Visit) : Visit := { v with log := v.log ++ [.unregistered] }

/-- **What `connect` makes of the answer of `dispatch`**, with a slot taken here for one
that was admitted without the call. -/
def onReply (g : Gateway) (full : Bool) (v : Visit) (call : CallStage)
    (admitted : Bool) : Visit × ℤ :=
  if call = .full then ({ v with stage := .refusing true }, 0)
  else if !admitted then ({ v with stage := .refusing false }, 0)
  else if v.holds then (v.onAdmitted g, 0)
  else if full then ({ v with stage := .refusing true }, 0)
  else (v.acquire.onAdmitted g, 1)

/-- One step, and what it does to `live`. `full` is what `Slot::acquire` reads. -/
def step (g : Gateway) (full : Bool) (v : Visit) : VisitAction → Option (Visit × ℤ)
  | .serve =>
    match v.stage with
    | .switch decided => some ({ v with stage := .upgrading decided }, 0)
    | _ => none
  | .drop =>
    match v.stage with
    | .switch .admitted => some ({ v with stage := .ending }, 0)
    | .switch _ => some ({ v with stage := .done }, 0)
    | _ => none
  | .upgrade ok =>
    match v.stage with
    | .upgrading .later => some ({ v with stage := if ok then .opening else .done }, 0)
    | .upgrading .admitted => some ({ v with stage := if ok then .serving else .ending }, 0)
    | .upgrading .full => some ({ v with stage := .done }, 0)
    | _ => none
  | .openPhase ok =>
    match v.stage with
    | .opening =>
      some (if ok then { v with stage := .registered, log := v.log ++ [.registered] }
        else v.exit g .refused, 0)
    | _ => none
  | .guards =>
    match v.stage with
    | .registered => some ({ v with stage := .dispatching .uncalled, log := v.log ++ [.guards] }, 0)
    | _ => none
  | .call =>
    match v.stage with
    | .dispatching .uncalled =>
      if full then some ({ v with stage := .dispatching .full }, 0)
      else some ({ v.acquire with stage := .dispatching .running }, 1)
    | _ => none
  | .answer ok =>
    match v.stage with
    | .dispatching .running =>
      some ({ v with
        stage := .dispatching .answered, log := if ok then v.log ++ [.connected] else v.log }, 0)
    | _ => none
  | .reply admitted =>
    match v.stage with
    | .dispatching call => some (v.onReply g full call admitted)
    | _ => none
  | .resolve ok =>
    match v.stage with
    | .resolving => some (if ok then v.exit g .admitted else { v with stage := .failing }, 0)
    | _ => none
  | .advance =>
    match v.stage with
    | .failing => some ({ v.release.1 with stage := .refusing false }, v.release.2)
    | .refusing full => some ({ v.unregister with stage := .dropping full }, 0)
    | .dropping full => some (v.release.1.exit g (if full then .full else .refused), v.release.2)
    | .left => some ({ v.unregister with stage := .leaving }, 0)
    | .leaving => some ({ v.release.1 with stage := .done }, v.release.2)
    | _ => none
  | .ended =>
    match v.stage with
    | .serving => some ({ v with stage := .ending }, 0)
    | _ => none
  | .disconnect runs =>
    match v.stage with
    | .ending =>
      some ({ v with
        stage := .left, log := if g.hook && runs then v.log ++ [.disconnected] else v.log }, 0)
    | _ => none

/-- A connection of the gateway as it begins. -/
def fresh (g : Gateway) : Visit := { stage := if g.handshake then .opening else .switch .later }

end Visit

/-- **The gateway at run time**: its count of live connections, and all it ever had. -/
structure GatewayRuntime where
  live : ℤ := 0
  visits : List Visit := []
deriving DecidableEq

/-- A connection begins, or one moves. -/
inductive GatewayAction
  | arrive
  | visit (i : ℕ) (action : VisitAction)
deriving DecidableEq

namespace GatewayRuntime

/-- `Slot::acquire` would fail. -/
def full (g : Gateway) (s : GatewayRuntime) : Bool :=
  g.maxConnections.any fun limit => limit ≤ s.live

/-- One step. -/
def step (g : Gateway) (s : GatewayRuntime) : GatewayAction → Option GatewayRuntime
  | .arrive => some { s with visits := s.visits ++ [Visit.fresh g] }
  | .visit i action =>
    s.visits[i]?.bind fun v =>
      (v.step g (s.full g) action).map fun (v', slots) =>
        { live := s.live + slots, visits := s.visits.set i v' }

end GatewayRuntime

/-- **The gateway's machine.** -/
def gatewayMachine (g : Gateway) : Machine GatewayRuntime GatewayAction where
  init := {}
  step := GatewayRuntime.step g

/-! ## The log at every stage -/

/-- The log of a connection that took a slot, and whether `OnConnect` answered `Ok`. -/
def took (connected : Bool) : List VisitEvent :=
  [.registered, .guards, .acquired] ++ if connected then [.connected] else []

/-- The log of one that ended, and whether its hook ran. -/
def ran (connected disconnected : Bool) : List VisitEvent :=
  took connected ++ if disconnected then [.disconnected] else []

/-- **A connection that is turned away**: without a slot, with one, or with one it returned. -/
def TurnedAway (pairs holds : Bool) (log : List VisitEvent) : Prop :=
  holds = false ∧ log = [.registered, .guards] ∨
  ∃ connected, (pairs = true → connected = false) ∧
    (holds = true ∧ log = took connected ∨ holds = false ∧ log = took connected ++ [.returned])

/-- How far a connection is from its end. -/
def VisitStage.rank : VisitStage → ℕ
  | .switch .later => 20
  | .upgrading .later => 19
  | .opening => 18
  | .registered => 17
  | .dispatching .uncalled => 16
  | .dispatching .running => 15
  | .dispatching _ => 14
  | .resolving => 13
  | .failing => 12
  | .refusing _ => 11
  | .dropping _ => 10
  | .switch _ => 9
  | .upgrading _ => 8
  | .serving => 7
  | .ending => 6
  | .left => 5
  | .leaving => 4
  | .done => 0

namespace Visit

variable {g : Gateway} {full pairs : Bool} {v v' : Visit} {a : VisitAction} {change : ℤ}

/-- **The log of a connection fits its stage.** Where the hooks pair, what admits is that
`OnConnect` answered `Ok`, and the hook of the end ran. -/
def Fits (g : Gateway) (pairs : Bool) (v : Visit) : Prop :=
  match v.stage with
  | .switch .later | .upgrading .later | .opening => v.holds = false ∧ v.log = []
  | .registered => v.holds = false ∧ v.log = [.registered]
  | .dispatching .uncalled | .dispatching .full => v.holds = false ∧ v.log = [.registered, .guards]
  | .dispatching .running => v.holds = true ∧ v.log = took false
  | .dispatching .answered => v.holds = true ∧ ∃ connected, v.log = took connected
  | .resolving | .switch .admitted | .upgrading .admitted | .serving | .ending =>
    v.holds = true ∧ ∃ connected, (pairs = true → connected = true) ∧ v.log = took connected
  | .failing => v.holds = true ∧ pairs = false ∧ ∃ connected, v.log = took connected
  | .refusing true => v.holds = false ∧ v.log = [.registered, .guards]
  | .refusing false => TurnedAway pairs v.holds v.log
  | .dropping true | .switch .full | .upgrading .full =>
    v.holds = false ∧ v.log = [.registered, .guards, .unregistered]
  | .dropping false => ∃ log, TurnedAway pairs v.holds log ∧ v.log = log ++ [.unregistered]
  | .left => v.holds = true ∧ ∃ connected disconnected,
      (pairs = true → connected = true ∧ disconnected = g.hook) ∧ v.log = ran connected disconnected
  | .leaving => v.holds = true ∧ ∃ connected disconnected,
      (pairs = true → connected = true ∧ disconnected = g.hook) ∧
        v.log = ran connected disconnected ++ [.unregistered]
  | .done => v.holds = false ∧ (v.log = [] ∨ v.log = [.registered, .guards, .unregistered] ∨
      (∃ connected, (pairs = true → connected = false) ∧
        (v.log = took connected ++ [.unregistered, .returned] ∨
          v.log = took connected ++ [.returned, .unregistered])) ∨
      ∃ connected disconnected, (pairs = true → connected = true ∧ disconnected = g.hook) ∧
        v.log = ran connected disconnected ++ [.unregistered, .returned])

/-- The slots a connection holds. -/
def slots (v : Visit) : ℤ := if v.holds then 1 else 0

theorem slots_bounds (v : Visit) : 0 ≤ v.slots ∧ v.slots ≤ 1 := by
  unfold slots
  split <;> decide

/-- **The answer of `OnConnect` is handed on**: `dispatch` admits a connection whose call
answered `Ok` and no other, the gateway is resolved, and the hook of the end runs. -/
def handsOn (v : Visit) : VisitAction → Bool
  | .reply admitted => v.stage = .dispatching .full || v.log.contains .connected == admitted
  | .resolve ok => ok
  | .disconnect runs => runs
  | _ => true

/-- What a step keeps: the log fits the stage, and `live` is told what the slot did. -/
def Keeps (g : Gateway) (pairs : Bool) (v : Visit) (next : Visit × ℤ) : Prop :=
  next.1.Fits g pairs ∧ next.2 = next.1.slots - v.slots

theorem Keeps.still (hfits : v'.Fits g pairs) (hholds : v'.holds = v.holds) :
    Keeps g pairs v (v', 0) := by
  refine ⟨hfits, ?_⟩
  show 0 = v'.slots - v.slots
  rw [slots, slots, hholds, Int.sub_self]

theorem Keeps.takes (hfits : v'.Fits g pairs) (hholds : v.holds = false)
    (hholds' : v'.holds = true) : Keeps g pairs v (v', 1) := by
  refine ⟨hfits, ?_⟩
  show 1 = v'.slots - v.slots
  rw [slots, slots, hholds, hholds']
  rfl

theorem Keeps.returns (hfits : v'.Fits g pairs) (hholds : v.holds = true)
    (hholds' : v'.holds = false) : Keeps g pairs v (v', -1) := by
  refine ⟨hfits, ?_⟩
  show -1 = v'.slots - v.slots
  rw [slots, slots, hholds, hholds']
  rfl

section

variable (hholds : v.holds = true) (connected : Bool) (hpairs : pairs = true → connected = true)
  (hlog : v.log = took connected)
include hholds connected hpairs hlog

/-- An admitted connection goes where its mode has it. -/
theorem fits_admitted : (v.exit g .admitted).Fits g pairs := by
  unfold exit
  cases g.handshake <;> exact ⟨hholds, connected, hpairs, hlog⟩

theorem fits_onAdmitted : (v.onAdmitted g).Fits g pairs := by
  unfold onAdmitted
  split
  · exact ⟨hholds, connected, hpairs, hlog⟩
  · exact fits_admitted hholds connected hpairs hlog

end

theorem holds_onAdmitted : (v.onAdmitted g).holds = v.holds := by
  unfold onAdmitted
  split <;> rfl

theorem contains_took (connected : Bool) : (took connected).contains .connected = connected := by
  cases connected <;> rfl

theorem release_of_holds (hholds : v.holds = true) :
    v.release = ({ v with holds := false, log := v.log ++ [.returned] }, -1) :=
  if_pos hholds

theorem release_of_not (hholds : v.holds = false) : v.release = (v, 0) :=
  if_neg (by simp [hholds])

/-- **What `connect` makes of the answer of `dispatch`.** -/
theorem Fits.onReply (full : Bool) {call : CallStage} {admitted : Bool} (h : v.Fits g pairs)
    (hstage : v.stage = .dispatching call)
    (hpaired : pairs = true → v.handsOn (.reply admitted) = true) :
    Keeps g pairs v (v.onReply g full call admitted) := by
  -- where the answer is handed on, it is the log's
  have hanswer : pairs = true → call ≠ .full → v.log.contains .connected = admitted :=
    fun hp hcall => by
    have hand := hpaired hp
    simp only [handsOn, hstage, or_eq_true, decide_eq_true_eq, VisitStage.dispatching.injEq,
      beq_iff_eq] at hand
    exact hand.resolve_left hcall
  unfold Fits at h
  rw [hstage] at h
  unfold Visit.onReply
  split
  · subst call
    exact .still h rfl
  · rename_i hcall
    split
    · rename_i hrefused
      rw [not_eq_true'] at hrefused
      show Keeps g pairs v ({ v with stage := .refusing false }, 0)
      refine .still ?_ rfl
      cases call with
      | uncalled => exact .inl h
      | running => exact .inr ⟨false, fun _ => rfl, .inl h⟩
      | answered =>
        obtain ⟨hholds, connected, hlog⟩ := h
        refine .inr ⟨connected, fun hp => ?_, .inl ⟨hholds, hlog⟩⟩
        rw [← contains_took connected, ← hlog, hanswer hp hcall, hrefused]
      | full => exact absurd rfl hcall
    · rename_i hadmitted
      rw [not_eq_true', not_eq_false] at hadmitted
      split
      · rename_i hholds
        refine .still ?_ holds_onAdmitted
        cases call with
        | uncalled => cases h.1.symm.trans hholds
        | running =>
          refine fits_onAdmitted hholds false (fun hp => ?_) h.2
          rw [← contains_took false, ← h.2, hanswer hp hcall, hadmitted]
        | answered =>
          obtain ⟨-, connected, hlog⟩ := h
          refine fits_onAdmitted hholds connected (fun hp => ?_) hlog
          rw [← contains_took connected, ← hlog, hanswer hp hcall, hadmitted]
        | full => exact absurd rfl hcall
      · rename_i hholds
        rw [not_eq_true] at hholds
        -- admitted without the call
        have huncalled : v.log = [.registered, .guards] := by
          cases call with
          | uncalled => exact h.2
          | running | answered => cases h.1.symm.trans hholds
          | full => exact absurd rfl hcall
        split
        · show Keeps g pairs v ({ v with stage := .refusing true }, 0)
          exact .still ⟨hholds, huncalled⟩ rfl
        · refine .takes (fits_onAdmitted rfl false (fun hp => ?_) ?_) hholds holds_onAdmitted
          · have hanswered := hanswer hp hcall
            rw [huncalled, hadmitted] at hanswered
            exact hanswered
          · show v.log ++ [_] = _
            rw [huncalled]
            rfl

section

/-! What the steps do to a connection at its stage. -/

variable {decided : Decided} {holds connected : Bool} {log : List VisitEvent}

/-- A `Switch` that holds no admitted connection is dropped. -/
theorem Fits.drop (hdecided : decided ≠ .admitted)
    (h : Fits g pairs ⟨.switch decided, holds, log⟩) : Fits g pairs ⟨.done, holds, log⟩ := by
  cases decided with
  | later => exact ⟨h.1, .inl h.2⟩
  | admitted => exact absurd rfl hdecided
  | full => exact ⟨h.1, .inr (.inl h.2)⟩

/-- The handler is called. -/
theorem Fits.call (h : Fits g pairs ⟨.dispatching .uncalled, holds, log⟩)
    (hstep : Visit.step g full ⟨.dispatching .uncalled, holds, log⟩ .call = some (v', change)) :
    Keeps g pairs ⟨.dispatching .uncalled, holds, log⟩ (v', change) := by
  simp only [Visit.step] at hstep
  split at hstep <;> cases hstep
  · exact .still h rfl
  · exact .takes ⟨rfl, congrArg (· ++ [_]) h.2⟩ h.1 rfl

/-- The instance of a hand-written gateway is resolved. -/
theorem Fits.resolve {ok : Bool} (hok : pairs = true → ok = true)
    (h : Fits g pairs ⟨.resolving, holds, log⟩) : Keeps g pairs ⟨.resolving, holds, log⟩
      (if ok then exit g ⟨.resolving, holds, log⟩ .admitted else ⟨.failing, holds, log⟩, 0) := by
  obtain ⟨hholds, connected, hpairs, hlog⟩ := h
  cases ok with
  | false =>
    refine .still ⟨hholds, eq_false_iff.mpr fun hp => ?_, connected, hlog⟩ rfl
    cases hok hp
  | true => exact .still (fits_admitted hholds connected hpairs hlog) rfl

/-- It failed, and the slot goes. -/
theorem Fits.fail (h : Fits g pairs ⟨.failing, holds, log⟩) :
    Keeps g pairs ⟨.failing, holds, log⟩
      ({ (release ⟨.failing, holds, log⟩).1 with stage := .refusing false },
        (release ⟨.failing, holds, log⟩).2) := by
  obtain ⟨hholds, hunpaired, connected, hlog⟩ := h
  rw [release_of_holds hholds]
  refine .returns (.inr ⟨connected, fun hp => ?_, .inr ⟨rfl, congrArg (· ++ [_]) hlog⟩⟩) hholds rfl
  cases hunpaired.symm.trans hp

/-- It is unregistered. -/
theorem Fits.refuse (h : Fits g pairs ⟨.refusing full, holds, log⟩) :
    Fits g pairs ⟨.dropping full, holds, log ++ [.unregistered]⟩ := by
  cases full
  · exact ⟨log, h, rfl⟩
  · exact ⟨h.1, congrArg (· ++ [_]) h.2⟩

/-- The end of `connect` drops the slot. -/
theorem Fits.dropSlot (h : Fits g pairs ⟨.dropping full, holds, log⟩) :
    Keeps g pairs ⟨.dropping full, holds, log⟩
      (exit g (release ⟨.dropping full, holds, log⟩).1 (if full then .full else .refused),
        (release ⟨.dropping full, holds, log⟩).2) := by
  cases full with
  | true =>
    rw [release_of_not h.1]
    refine .still ?_ rfl
    unfold exit
    cases g.handshake
    · exact ⟨h.1, .inr (.inl h.2)⟩
    · exact h
  | false =>
    obtain ⟨log, haway, rfl⟩ := h
    rcases haway with ⟨hholds, rfl⟩ | ⟨connected, hpairs, ⟨hholds, rfl⟩ | ⟨hholds, rfl⟩⟩
    · rw [release_of_not hholds]
      exact .still ⟨hholds, .inr (.inl rfl)⟩ rfl
    · rw [release_of_holds hholds]
      exact .returns ⟨rfl, .inr (.inr (.inl ⟨connected, hpairs, .inl (append_assoc ..)⟩))⟩ hholds
        rfl
    · rw [release_of_not hholds]
      exact .still ⟨hholds, .inr (.inr (.inl ⟨connected, hpairs, .inr (append_assoc ..)⟩))⟩ rfl

/-- The hook of the end runs, or its gateway is not resolved. -/
theorem Fits.disconnect {runs : Bool} (hruns : pairs = true → runs = true)
    (h : Fits g pairs ⟨.ending, holds, log⟩) : Fits g pairs
      ⟨.left, holds, if g.hook && runs then log ++ [.disconnected] else log⟩ := by
  obtain ⟨hholds, connected, hpairs, rfl⟩ := h
  refine ⟨hholds, connected, g.hook && runs, fun hp => ⟨hpairs hp, ?_⟩, ?_⟩
  · rw [hruns hp, Bool.and_true]
  · cases g.hook && runs <;> simp [ran]

/-- The slot goes in the end. -/
theorem Fits.leave (h : Fits g pairs ⟨.leaving, holds, log⟩) :
    Keeps g pairs ⟨.leaving, holds, log⟩
      ({ (release ⟨.leaving, holds, log⟩).1 with stage := .done },
        (release ⟨.leaving, holds, log⟩).2) := by
  obtain ⟨hholds, connected, disconnected, hpairs, rfl⟩ := h
  rw [release_of_holds hholds]
  exact .returns ⟨rfl, .inr (.inr (.inr ⟨connected, disconnected, hpairs, append_assoc ..⟩))⟩ hholds
    rfl

end

theorem Fits.step (h : v.Fits g pairs) (hstep : v.step g full a = some (v', change))
    (hpaired : pairs = true → v.handsOn a = true) : Keeps g pairs v (v', change) := by
  obtain ⟨stage, holds, log⟩ := v
  cases a with simp only [Visit.step] at hstep
  | serve =>
    split at hstep <;> cases hstep
    rename_i decided
    cases decided <;> exact .still h rfl
  | drop =>
    split at hstep <;> cases hstep
    · exact .still h rfl
    · rename_i hdecided
      exact .still (h.drop hdecided) rfl
  | upgrade ok =>
    split at hstep <;> cases hstep
    · cases ok
      · exact .still ⟨h.1, .inl h.2⟩ rfl
      · exact .still h rfl
    · cases ok <;> exact .still h rfl
    · exact .still ⟨h.1, .inr (.inl h.2)⟩ rfl
  | openPhase ok =>
    split at hstep <;> cases hstep
    cases ok
    · refine .still ?_ rfl
      unfold exit
      cases g.handshake <;> exact ⟨h.1, .inl h.2⟩
    · exact .still ⟨h.1, congrArg (· ++ [_]) h.2⟩ rfl
  | guards =>
    split at hstep <;> cases hstep
    exact .still ⟨h.1, congrArg (· ++ [_]) h.2⟩ rfl
  | call =>
    split at hstep
    · exact h.call hstep
    · cases hstep
  | answer ok =>
    split at hstep <;> cases hstep
    refine .still ⟨h.1, ok, ?_⟩ rfl
    cases ok
    · exact h.2
    · exact congrArg (· ++ [_]) h.2
  | reply =>
    split at hstep
    · have hkeeps := h.onReply full rfl hpaired
      rw [some.inj hstep] at hkeeps
      exact hkeeps
    · cases hstep
  | resolve ok =>
    split at hstep <;> cases hstep
    exact h.resolve hpaired
  | advance =>
    split at hstep <;> cases hstep
    · exact h.fail
    · exact .still h.refuse rfl
    · exact h.dropSlot
    · obtain ⟨hholds, connected, disconnected, hpairs, hlog⟩ := h
      exact .still ⟨hholds, connected, disconnected, hpairs, congrArg (· ++ [_]) hlog⟩ rfl
    · exact h.leave
  | ended =>
    split at hstep <;> cases hstep
    exact .still h rfl
  | disconnect runs =>
    split at hstep <;> cases hstep
    exact .still (h.disconnect hpaired) rfl

theorem release_change_le : v.release.2 ≤ 0 := by
  unfold release
  split
  · exact Int.le_of_lt (by decide : (-1 : ℤ) < 0)
  · exact Int.le_refl 0

theorem onReply_change_le (call : CallStage) (admitted : Bool) :
    (v.onReply g full call admitted).2 ≤ 0 ∨ full = false := by
  unfold onReply
  split
  · exact .inl (Int.le_refl 0)
  · split
    · exact .inl (Int.le_refl 0)
    · split
      · exact .inl (Int.le_refl 0)
      · split
        · exact .inl (Int.le_refl 0)
        · exact .inr (eq_false_iff.mpr ‹_›)

/-- A slot is taken where `Slot::acquire` finds one. -/
theorem change_le (hstep : v.step g full a = some (v', change)) : change ≤ 0 ∨ full = false := by
  cases a with simp only [Visit.step] at hstep
  | call =>
    split at hstep
    · split at hstep <;> cases hstep
      · exact .inl (Int.le_refl 0)
      · exact .inr (eq_false_iff.mpr ‹_›)
    · cases hstep
  | reply admitted =>
    split at hstep
    · have hchange := @onReply_change_le g full v ‹_› admitted
      rwa [some.inj hstep] at hchange
    · cases hstep
  | advance =>
    split at hstep <;> cases hstep
    · exact .inl release_change_le
    · exact .inl (Int.le_refl 0)
    · exact .inl release_change_le
    · exact .inl (Int.le_refl 0)
    · exact .inl release_change_le
  | _ =>
    split at hstep <;> cases hstep <;> exact .inl (Int.le_refl 0)

/-- What may stand before what in the log of a connection: it is registered first, and only
its slot goes after it is unregistered. -/
abbrev InHub (x y : VisitEvent) : Prop := y ≠ .registered ∧ (x = .unregistered → y = .returned)

/-- **The log of a connection is in order**: it is registered before anything else and
unregistered after everything but its slot, takes one slot at most and returns it once,
and is disconnected once at most – and, where the hooks pair, only if it connected. -/
structure Orderly (pairs holds : Bool) (log : List VisitEvent) : Prop where
  hub : log.Pairwise InHub
  first : log ≠ [] → log.head? = some .registered
  acquired : log.count .acquired ≤ 1
  returned : log.count .acquired = log.count .returned + if holds then 1 else 0
  once : log.count .disconnected ≤ 1
  paired : pairs = true → .disconnected ∈ log → .connected ∈ log

instance (pairs holds : Bool) (log : List VisitEvent) : Decidable (Orderly pairs holds log) :=
  decidable_of_iff (log.Pairwise InHub ∧ (log ≠ [] → log.head? = some .registered) ∧
      log.count .acquired ≤ 1 ∧
        (log.count .acquired = log.count .returned + if holds then 1 else 0) ∧
      log.count .disconnected ≤ 1 ∧ (pairs = true → .disconnected ∈ log → .connected ∈ log))
    ⟨fun ⟨hhub, hfirst, hacquired, hreturned, honce, hpaired⟩ =>
      ⟨hhub, hfirst, hacquired, hreturned, honce, hpaired⟩,
      fun h => ⟨h.hub, h.first, h.acquired, h.returned, h.once, h.paired⟩⟩

/-- Without a slot. -/
theorem orderly_slotless : ∀ pairs, Orderly pairs false [] ∧ Orderly pairs false [.registered] ∧
    Orderly pairs false [.registered, .guards] ∧
    Orderly pairs false [.registered, .guards, .unregistered] := by
  decide

/-- With one, and turned away with it. -/
theorem orderly_took : ∀ pairs connected, Orderly pairs true (took connected) ∧
    Orderly pairs true (took connected ++ [.unregistered]) ∧
    Orderly pairs false (took connected ++ [.returned]) ∧
    Orderly pairs false (took connected ++ [.unregistered, .returned]) ∧
    Orderly pairs false (took connected ++ [.returned, .unregistered]) := by
  decide

/-- With one, from the hook of its end on. -/
theorem orderly_ran : ∀ pairs connected disconnected, (pairs = true → connected = true) →
    Orderly pairs true (ran connected disconnected) ∧
    Orderly pairs true (ran connected disconnected ++ [.unregistered]) ∧
    Orderly pairs false (ran connected disconnected ++ [.unregistered, .returned]) := by
  decide

theorem TurnedAway.orderly {holds : Bool} {log : List VisitEvent} (h : TurnedAway pairs holds log) :
    Orderly pairs holds log ∧ Orderly pairs holds (log ++ [.unregistered]) := by
  rcases h with ⟨rfl, rfl⟩ | ⟨connected, -, ⟨rfl, rfl⟩ | ⟨rfl, rfl⟩⟩
  · exact (orderly_slotless pairs).2.2
  · exact ⟨(orderly_took pairs connected).1, (orderly_took pairs connected).2.1⟩
  · rw [append_assoc]
    exact ⟨(orderly_took pairs connected).2.2.1, (orderly_took pairs connected).2.2.2.2⟩

/-- The logs there are, each in order. -/
theorem Fits.orderly (h : v.Fits g pairs) : Orderly pairs v.holds v.log := by
  obtain ⟨stage, holds, log⟩ := v
  -- the three kinds of connection a `Switch` or its upgrade may have
  have hdecided : ∀ decided : Decided, (Visit.mk (.switch decided) holds log).Fits g pairs →
      Orderly pairs holds log := fun decided h => by
    cases decided with
    | later =>
      obtain ⟨rfl, rfl⟩ := h
      exact (orderly_slotless pairs).1
    | admitted =>
      obtain ⟨rfl, connected, -, rfl⟩ := h
      exact (orderly_took pairs connected).1
    | full =>
      obtain ⟨rfl, rfl⟩ := h
      exact (orderly_slotless pairs).2.2.2
  cases stage with
  | switch decided => exact hdecided decided h
  | upgrading decided => exact hdecided decided (by cases decided <;> exact h)
  | opening =>
    obtain ⟨rfl, rfl⟩ := h
    exact (orderly_slotless pairs).1
  | registered =>
    obtain ⟨rfl, rfl⟩ := h
    exact (orderly_slotless pairs).2.1
  | dispatching call =>
    cases call with
    | uncalled | full =>
      obtain ⟨rfl, rfl⟩ := h
      exact (orderly_slotless pairs).2.2.1
    | running =>
      obtain ⟨rfl, rfl⟩ := h
      exact (orderly_took pairs false).1
    | answered =>
      obtain ⟨rfl, connected, rfl⟩ := h
      exact (orderly_took pairs connected).1
  | resolving | serving | ending =>
    obtain ⟨rfl, connected, -, rfl⟩ := h
    exact (orderly_took pairs connected).1
  | failing =>
    obtain ⟨rfl, -, connected, rfl⟩ := h
    exact (orderly_took pairs connected).1
  | refusing full =>
    cases full with
    | true =>
      obtain ⟨rfl, rfl⟩ := h
      exact (orderly_slotless pairs).2.2.1
    | false => exact (TurnedAway.orderly h).1
  | dropping full =>
    cases full with
    | true =>
      obtain ⟨rfl, rfl⟩ := h
      exact (orderly_slotless pairs).2.2.2
    | false =>
      obtain ⟨log, haway, rfl⟩ := h
      exact (TurnedAway.orderly haway).2
  | left =>
    obtain ⟨rfl, connected, disconnected, hpairs, rfl⟩ := h
    exact (orderly_ran pairs connected disconnected fun hp => (hpairs hp).1).1
  | leaving =>
    obtain ⟨rfl, connected, disconnected, hpairs, rfl⟩ := h
    exact (orderly_ran pairs connected disconnected fun hp => (hpairs hp).1).2.1
  | done =>
    obtain ⟨rfl, rfl | rfl | ⟨connected, -, rfl | rfl⟩ | ⟨connected, disconnected, hpairs, rfl⟩⟩ :=
      h
    · exact (orderly_slotless pairs).1
    · exact (orderly_slotless pairs).2.2.2
    · exact (orderly_took pairs connected).2.2.2.1
    · exact (orderly_took pairs connected).2.2.2.2
    · exact (orderly_ran pairs connected disconnected fun hp => (hpairs hp).1).2.2

/-- **A connection that is over** was unregistered if it ever was registered, holds no slot,
and was disconnected if it had connected. -/
theorem Fits.over (h : v.Fits g pairs) (hdone : v.stage = .done) :
    v.holds = false ∧ (v.log ≠ [] → .unregistered ∈ v.log) ∧
      (pairs = true → .connected ∈ v.log → g.hook = true → .disconnected ∈ v.log) := by
  unfold Fits at h
  rw [hdone] at h
  refine ⟨h.1, fun hne => ?_, fun hp hin hhook => ?_⟩
  · rcases h.2 with hlog | hlog | ⟨connected, -, hlog | hlog⟩ | ⟨connected, disconnected, -, hlog⟩
    · exact absurd hlog hne
    all_goals simp [hlog]
  · rcases h.2 with hlog | hlog | ⟨connected, hpairs, hlog⟩ | ⟨connected, disconnected, hpairs,
      hlog⟩
    · simp [hlog] at hin
    · simp [hlog] at hin
    · rw [hpairs hp] at hlog
      rcases hlog with hlog | hlog <;> simp [hlog, took] at hin
    · obtain ⟨-, hdisconnected⟩ := hpairs hp
      simp [hlog, ran, hdisconnected, hhook]

/-! ## Every connection ends -/

theorem rank_exit_lt (connected : Connected) : (v.exit g connected).stage.rank < 10 := by
  unfold exit
  cases connected <;> cases g.handshake <;> simp [VisitStage.rank]

theorem rank_onAdmitted_lt : (v.onAdmitted g).stage.rank < 14 := by
  unfold onAdmitted
  split
  · simp [VisitStage.rank]
  · exact Nat.lt_trans (rank_exit_lt .admitted) (by decide)

theorem rank_onReply_lt (call : CallStage) (admitted : Bool) :
    (v.onReply g full call admitted).1.stage.rank < 14 := by
  unfold onReply
  split
  · simp [VisitStage.rank]
  · split
    · simp [VisitStage.rank]
    · split
      · exact rank_onAdmitted_lt
      · split
        · simp [VisitStage.rank]
        · exact rank_onAdmitted_lt

theorem le_rank_dispatching (call : CallStage) : 14 ≤ (VisitStage.dispatching call).rank := by
  cases call <;> simp [VisitStage.rank]

/-- **A step brings a connection nearer to its end.** -/
theorem rank_lt (hstep : v.step g full a = some (v', change)) : v'.stage.rank < v.stage.rank := by
  cases a with simp only [Visit.step] at hstep
  | serve =>
    split at hstep <;> cases hstep
    rename_i decided hstage
    rw [hstage]
    cases decided <;> simp [VisitStage.rank]
  | drop =>
    split at hstep <;> cases hstep
    · simp [*, VisitStage.rank]
    · rename_i decided _ hstage
      rw [hstage]
      cases decided <;> simp [VisitStage.rank]
  | upgrade ok =>
    split at hstep <;> cases hstep <;> cases ok <;> simp [*, VisitStage.rank]
  | openPhase ok =>
    split at hstep <;> cases hstep
    rename_i hstage
    rw [hstage]
    cases ok
    · exact Nat.lt_trans (rank_exit_lt (g := g) .refused) (by decide)
    · simp [VisitStage.rank]
  | call =>
    split at hstep
    · split at hstep <;> cases hstep <;> simp [*, VisitStage.rank]
    · cases hstep
  | reply admitted =>
    split at hstep
    · rename_i call hstage
      have hlt := @rank_onReply_lt g full v call admitted
      rw [some.inj hstep] at hlt
      rw [hstage]
      exact Nat.lt_of_lt_of_le hlt (le_rank_dispatching call)
    · cases hstep
  | resolve ok =>
    split at hstep <;> cases hstep
    rename_i hstage
    rw [hstage]
    cases ok
    · simp [VisitStage.rank]
    · exact Nat.lt_trans (rank_exit_lt .admitted) (by decide)
  | advance =>
    split at hstep <;> cases hstep
    · simp [*, VisitStage.rank]
    · simp [*, VisitStage.rank]
    · rename_i hstage
      rw [hstage]
      exact rank_exit_lt _
    · simp [*, VisitStage.rank]
    · simp [*, VisitStage.rank]
  | _ =>
    split at hstep <;> cases hstep
    simp [*, VisitStage.rank]

/-- **A connection that is not over can move.** -/
theorem exists_step (hdone : v.stage ≠ .done) : ∃ a next, v.step g full a = some next := by
  obtain ⟨stage, holds, log⟩ := v
  cases stage with
  | switch => exact ⟨.serve, _, rfl⟩
  | upgrading decided => cases decided <;> exact ⟨.upgrade true, _, rfl⟩
  | opening => exact ⟨.openPhase true, _, rfl⟩
  | registered => exact ⟨.guards, _, rfl⟩
  | dispatching => exact ⟨.reply false, _, rfl⟩
  | resolving => exact ⟨.resolve true, _, rfl⟩
  | failing | refusing | dropping | left | leaving => exact ⟨.advance, _, rfl⟩
  | serving => exact ⟨.ended, _, rfl⟩
  | ending => exact ⟨.disconnect true, _, rfl⟩
  | done => exact absurd rfl hdone

theorem fits_fresh (g : Gateway) (pairs : Bool) : (fresh g).Fits g pairs ∧ (fresh g).slots = 0 := by
  unfold fresh
  cases g.handshake <;> exact ⟨⟨rfl, rfl⟩, rfl⟩

end Visit

namespace GatewayRuntime

variable {g : Gateway} {pairs : Bool} {s s' : GatewayRuntime} {a : GatewayAction}

/-- The answers of `OnConnect` are handed on. -/
def handsOn (s : GatewayRuntime) : GatewayAction → Bool
  | .arrive => true
  | .visit i action => s.visits[i]?.all (·.handsOn action)

/-- **The invariant of a gateway.** -/
structure Inv (g : Gateway) (pairs : Bool) (s : GatewayRuntime) : Prop where
  fits : ∀ v ∈ s.visits, v.Fits g pairs
  live : s.live = (s.visits.map Visit.slots).sum
  limit : ∀ limit : ℕ, g.maxConnections = some limit → s.live ≤ limit

theorem Inv.step (h : s.Inv g pairs) (hstep : (gatewayMachine g).step s a = some s')
    (hpaired : pairs = true → s.handsOn a = true) : s'.Inv g pairs := by
  cases a with
  | arrive =>
    cases hstep
    obtain ⟨hfits, hslots⟩ := Visit.fits_fresh g pairs
    refine ⟨fun v hv => ?_, ?_, h.limit⟩
    · rcases mem_snoc.mp hv with hv | rfl
      · exact h.fits v hv
      · exact hfits
    · show s.live = ((s.visits ++ [Visit.fresh g]).map Visit.slots).sum
      rw [map_append, sum_append, map_singleton, sum_singleton, hslots,
        Int.add_zero, h.live]
  | visit i action =>
    obtain ⟨v, hv, hstep⟩ := bind_eq_some_iff.mp hstep
    obtain ⟨⟨v', change⟩, hvstep, rfl⟩ := map_eq_some_iff.mp hstep
    have hpaired' : pairs = true → v.handsOn action = true := fun hp => by
      simpa only [handsOn, hv, all_some] using hpaired hp
    obtain ⟨hfits, hchange⟩ := (h.fits v (mem_of_getElem? hv)).step hvstep hpaired'
    refine ⟨fun w hw => ?_, ?_, fun limit hlimit => ?_⟩
    · rcases mem_or_eq_of_mem_set hw with hw | rfl
      · exact h.fits w hw
      · exact hfits
    · have hsum := sum_map_set Visit.slots hv v'
      show s.live + change = ((s.visits.set i v').map Visit.slots).sum
      rw [h.live]
      have hchange : change = v'.slots - v.slots := hchange
      omega
    · show s.live + change ≤ limit
      have hlive := h.limit limit hlimit
      rcases Visit.change_le hvstep with hle | hfull
      · omega
      · have hfree : s.live < limit := by simpa [full, hlimit] using hfull
        have hchange : change = v'.slots - v.slots := hchange
        have hslots := v.slots_bounds
        have hslots' := v'.slots_bounds
        omega

theorem Inv.init : (gatewayMachine g).init.Inv g pairs where
  fits := fun _ hv => absurd hv not_mem_nil
  live := rfl
  limit := fun limit _ => Int.natCast_nonneg limit

theorem Inv.countP (h : s.Inv g pairs) : s.live = s.visits.countP (·.holds) := by
  rw [h.live]
  generalize s.visits = visits
  induction visits with
  | nil => rfl
  | cons v visits ih =>
    rw [map_cons, sum_cons, ih, countP_cons, Visit.slots]
    split <;> simp [Int.add_comm]

/-- **The hooks of a connection pair, and its slot and its registration come back.** In
every run `live` counts the slots held, under the limit; each connection takes one at most
and returns it once; it is registered before its guards run and unregistered after
everything but its slot; `on_disconnect` runs once at most; and a connection that is not
over can move, and each move brings it nearer to its end, where it is unregistered and holds no
slot. In every run in which the answers of `OnConnect` are handed on, `on_disconnect` runs
for the connections whose `OnConnect` answered `Ok`, before they are over, and for no
other. -/
theorem hooks_pair {t : List GatewayAction} (h : (gatewayMachine g).run t = some s) :
    (s.live = s.visits.countP (·.holds) ∧
      ∀ limit : ℕ, g.maxConnections = some limit → s.live ≤ limit) ∧
    (∀ v ∈ s.visits,
      (v.log.count .acquired ≤ 1 ∧
        (v.log.count .acquired = v.log.count .returned + if v.holds then 1 else 0) ∧
        (v.stage = .done → v.holds = false)) ∧
      (v.log.Pairwise Visit.InHub ∧ (v.log ≠ [] → v.log.head? = some .registered) ∧
        (v.stage = .done → v.log ≠ [] → .unregistered ∈ v.log)) ∧
      v.log.count .disconnected ≤ 1 ∧
      (v.stage ≠ .done → ∃ a next, v.step g (s.full g) a = some next) ∧
      ∀ full a next, v.step g full a = some next → next.1.stage.rank < v.stage.rank) ∧
    ((∀ pre s₀ a, (gatewayMachine g).TookAt t pre s₀ a → s₀.handsOn a = true) →
      ∀ v ∈ s.visits, (.disconnected ∈ v.log → .connected ∈ v.log) ∧
        (v.stage = .done → .connected ∈ v.log → g.hook = true → .disconnected ∈ v.log)) := by
  have hinv : s.Inv g false := (gatewayMachine g).invariant .init
    (fun _ _ _ hs hstep => hs.step hstep (by simp)) h
  refine ⟨⟨hinv.countP, hinv.limit⟩, fun v hv => ?_, fun hhands v hv => ?_⟩
  · have hfits := hinv.fits v hv
    have hlog := hfits.orderly
    exact ⟨⟨hlog.acquired, hlog.returned, fun hdone => (hfits.over hdone).1⟩,
      ⟨hlog.hub, hlog.first, fun hdone => (hfits.over hdone).2.1⟩, hlog.once, Visit.exists_step,
      fun _ _ _ hstep => Visit.rank_lt hstep⟩
  · have hpaired : s.Inv g true := (gatewayMachine g).invariant_of_steps
      (C := fun s a => s.handsOn a = true) .init
      (fun _ _ _ hs hc hstep => hs.step hstep fun _ => hc) hhands h
    have hfits := hpaired.fits v hv
    exact ⟨hfits.orderly.paired rfl, fun hdone => (hfits.over hdone).2.2 rfl⟩

/-- A connection is registered, its guards admit it, and its handler is called. -/
def calledOne : List GatewayAction :=
  [.arrive, .visit 0 (.openPhase true), .visit 0 .guards, .visit 0 .call]

/-- `OnConnect` answers `Ok`, the connection is switched, and the upgrade fails. -/
theorem hooks_pair_unserved : ∃ s v, (gatewayMachine ⟨true, false, true, some 1⟩).run (calledOne ++
    [.visit 0 (.answer true), .visit 0 (.reply true), .visit 0 .serve, .visit 0 (.upgrade false),
      .visit 0 (.disconnect true), .visit 0 .advance, .visit 0 .advance]) = some s ∧
    s.visits = [v] ∧ v.stage = .done ∧ .connected ∈ v.log ∧ .disconnected ∈ v.log := by
  refine ⟨_, _, rfl, rfl, rfl, by decide, ?_⟩
  exact ((hooks_pair (g := ⟨true, false, true, some 1⟩) (t := calledOne ++
    [.visit 0 (.answer true), .visit 0 (.reply true), .visit 0 .serve, .visit 0 (.upgrade false),
      .visit 0 (.disconnect true), .visit 0 .advance, .visit 0 .advance]) rfl).2.2
    (fun _ _ _ htook => htook.of_checks rfl) _ (mem_singleton_self _)).2 rfl (by decide) rfl

/-- **Three paths on which the hooks do not pair.** `OnConnect` answers `Ok` and an
interceptor refuses behind it; `OnConnect` answers `Ok` and the instance of a hand-written
gateway fails; and an interceptor admits in front of it. -/
theorem unpaired_hooks :
    (∃ s v, (gatewayMachine ⟨false, false, true, none⟩).run
      [.arrive, .visit 0 .serve, .visit 0 (.upgrade true), .visit 0 (.openPhase true),
        .visit 0 .guards, .visit 0 .call, .visit 0 (.answer true), .visit 0 (.reply false),
        .visit 0 .advance, .visit 0 .advance] = some s ∧
      s.visits = [v] ∧ v.stage = .done ∧ .connected ∈ v.log ∧ .disconnected ∉ v.log) ∧
    (∃ s v, (gatewayMachine ⟨true, true, true, none⟩).run (calledOne ++
      [.visit 0 (.answer true), .visit 0 (.reply true), .visit 0 (.resolve false),
        .visit 0 .advance, .visit 0 .advance, .visit 0 .advance]) = some s ∧
      s.visits = [v] ∧ v.stage = .done ∧ .connected ∈ v.log ∧ .disconnected ∉ v.log) ∧
    (∃ s v, (gatewayMachine ⟨true, false, true, none⟩).run
      [.arrive, .visit 0 (.openPhase true), .visit 0 .guards, .visit 0 (.reply true),
        .visit 0 .drop, .visit 0 (.disconnect true)] = some s ∧
      s.visits = [v] ∧ .connected ∉ v.log ∧ .disconnected ∈ v.log) :=
  ⟨⟨_, _, rfl, rfl, rfl, by decide, by decide⟩, ⟨_, _, rfl, rfl, rfl, by decide, by decide⟩,
    _, _, rfl, rfl, by decide, by decide⟩

end GatewayRuntime

end Ulo.Ws
