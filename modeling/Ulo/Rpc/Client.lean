import Ulo.Lib.List
import Ulo.Lib.Machine
import Ulo.Lib.Map
import Ulo.Rpc.Frame

/-!
# One connection of an RPC client

A call registers on its connection, sends its opening frame and reads its replies
from a queue of its own, fed by the connection's reply lane; a streamed request's
items go out from a task of their own, the pump, which reports its failures to the
same queue. A call that is given up – timed out, cancelled, or dropped by its
caller – sends `cancel` as it drops, unless a reply settled it or an overflow of its
queue has sent it already.

Four parties take steps here: the calls, their pumps, their drops, and the reply
lane. What one of them does under a lock, or with one atomic operation, is one step.
The reading of a reply is one step as well, with the room it makes in the queue.
-/

namespace Ulo.Rpc

/-- What a call is failed with on its queue: its overflow, an item of its own request
that could not be encoded, or a frame of its request the link refused. -/
inductive CallFailure
  | overflow
  | item
  | refused
deriving DecidableEq

/-- `Result<Frame, RpcError>`, as a call reads it. -/
inductive Answer
  | frame (f : Frame)
  | failed (e : CallFailure)

/-- Where a call stands: registered; with its opening frame under way; reading its
replies; given up, its queue's reader gone; and, as its `Pending` drops, taken from
the map, marked cancelled with the `cancel` still to send, and gone. -/
inductive CallStage
  | registered
  | sending
  | reading
  | dropping
  | unregistered
  | marked
  | gone
deriving DecidableEq

/-- Whether the reader of the call's queue is there. -/
def CallStage.reads : CallStage → Bool
  | .registered | .sending | .reading => true
  | _ => false

/-- Where a streamed request's pump stands: not started; before the check that ends
it; waiting for the caller's own stream; with an item, or the item's failure; with a
frame under way, `in_end` last; and done. -/
inductive Pump
  | none
  | checking
  | pulling
  | pulled (ok : Bool)
  | sending (last : Bool)
  | done
deriving DecidableEq

/-- Whether the pump holds its producing end of the queue. -/
def Pump.running : Pump → Bool
  | .none | .done => false
  | _ => true

/-- How the lane is done with a call: not yet, with its last frame, or at an overflow. -/
inductive Route
  | live
  | finished
  | overflowed
deriving DecidableEq

/-- **A call**: what it is, its flags, and its queue, with what was accepted on it and
what was read from it. -/
structure ClientCall where
  id : ℕ
  /-- It streams its request. -/
  streams : Bool
  /-- It is answered by one reply. -/
  one : Bool
  limit : Option ℕ
  stage : CallStage := .registered
  settled : Bool := false
  cancelled : Bool := false
  pump : Pump := .none
  held : ℕ := 0
  queue : List Answer := []
  accepted : List Answer := []
  read : List Answer := []
  started : Bool := false
  refused : Bool := false
  route : Route := .live

/-- Where `overflow` stands. -/
inductive Overflow
  | remove
  | mark
  | send
  | fail
deriving DecidableEq

/-- Where `route_replies` stands: waiting for a frame; with a call's last frame, or
another one of its frames, and the call's producing end in hand; in `overflow`; and
past the end. -/
inductive Lane
  | receiving
  | finishing (i : ℕ) (f : Frame)
  | offering (i : ℕ) (f : Frame)
  | overflowing (i : ℕ) (stage : Overflow)
  | ended

/-- The call the lane has in hand. -/
def Lane.call : Lane → Option ℕ
  | .finishing i _ | .offering i _ | .overflowing i _ => some i
  | .receiving | .ended => none

/-- **The connection**, with the calls registered on it so far and the ids under which
a `cancel` was sent. -/
structure Conn where
  nextId : ℕ := 0
  isOpen : Bool := true
  pending : AList fun _ : ℕ => ℕ := ∅
  lane : Lane := .receiving
  calls : List ClientCall := []
  cancels : List ℕ := []

/-- A step of a call, its pump, its drop, or the lane. -/
inductive ConnAction
  /-- a call takes an id on another connection of the client -/
  | elsewhere
  | register (streams one : Bool) (limit : Option ℕ)
  /-- its deadline has passed, and nothing is sent -/
  | unwritten (i : ℕ)
  | send (i : ℕ)
  /-- the link took the opening frame, or refused it -/
  | sent (i : ℕ) (ok : Bool)
  | read (i : ℕ)
  /-- a timeout, a cancellation, or the caller's drop -/
  | abandon (i : ℕ)
  | unregister (i : ℕ)
  | mark (i : ℕ)
  | cancel (i : ℕ)
  | check (i : ℕ)
  /-- the caller's stream ends, or yields an item or its failure -/
  | pull (i : ℕ) (out : Option Bool)
  | pumped (i : ℕ)
  /-- the link took the pump's frame, or refused it -/
  | flushed (i : ℕ) (ok : Bool)
  /-- the lane receives a frame -/
  | reply (f : Frame)
  /-- it goes on with the frame it has -/
  | route
  /-- it ends: `Conn::ended` -/
  | endLane

namespace ClientCall

/-- `Feed::finish`: dropped where the reader is gone. -/
def finish (c : ClientCall) (a : Answer) : ClientCall :=
  if c.stage.reads then
    { c with held := c.held + 1, queue := c.queue ++ [a], accepted := c.accepted ++ [a] }
  else c

/-- `Feed::offer`, `none` where the queue holds its limit. -/
def offer (c : ClientCall) (a : Answer) : Option ClientCall :=
  if c.limit.any (· ≤ c.held) then none else some (c.finish a)

/-- Whether a reply settles the call: `Exchange::single`, and `replies`. -/
def settles (one : Bool) : Answer → Bool
  | .frame (.res _ _) | .frame (.err _ _) => true
  | .frame (.end_ _) => !one
  | _ => false

/-- Whether a reply leaves a stream to go on. -/
def goesOn (one : Bool) : Answer → Bool
  | .frame (.item _ _) => !one
  | _ => false

/-- The call after it has read an answer. -/
def answered (c : ClientCall) (a : Answer) (rest : List Answer) : ClientCall :=
  { c with
    held := c.held - 1
    queue := rest
    read := c.read ++ [a]
    settled := c.settled || settles c.one a
    stage := if goesOn c.one a then c.stage else .dropping }

/-- `pump`'s check: the reader is gone, or the call is cancelled. -/
def pumpEnds (c : ClientCall) : Bool := !c.stage.reads || c.cancelled

end ClientCall

namespace Conn

/-- The connection with a changed call. -/
def put (s : Conn) (i : ℕ) (c : ClientCall) : Conn := { s with calls := s.calls.set i c }

/-- **Whether a producing end of the call's queue is alive**: in the map, in the future
that opens the call, with its pump, or with the lane. -/
def fed (s : Conn) (i : ℕ) (c : ClientCall) : Bool :=
  s.pending.lookup c.id == some i || c.stage == .registered || c.stage == .sending ||
    c.pump.running || s.lane.call == some i

/-- A step of a call. -/
def stepCall (s : Conn) (i : ℕ) (c : ClientCall) : ConnAction → Option Conn
  | .unwritten _ =>
    if c.stage = .registered then some (s.put i { c with settled := true, stage := .dropping })
    else none
  | .send _ =>
    if c.stage = .registered then some (s.put i { c with started := true, stage := .sending })
    else none
  | .sent _ ok =>
    if c.stage = .sending then
      if ok then
        some (s.put i { c with
          stage := .reading
          pump := if c.streams then .checking else .none })
      else some (s.put i { c with settled := true, refused := true, stage := .dropping })
    else none
  | .read _ =>
    if c.stage = .reading then
      match c.queue with
      | a :: rest => some (s.put i (c.answered a rest))
      -- the end of the queue, once no producing end is left
      | [] => if s.fed i c then none else some (s.put i { c with stage := .dropping })
    else none
  | .abandon _ =>
    if c.stage = .sending ∨ c.stage = .reading then some (s.put i { c with stage := .dropping })
    else none
  | .unregister _ =>
    if c.stage = .dropping then
      some { s.put i { c with stage := .unregistered } with pending := s.pending.erase c.id }
    else none
  | .mark _ =>
    if c.stage = .unregistered then
      if c.settled || c.cancelled then some (s.put i { c with stage := .gone })
      else some (s.put i { c with cancelled := true, stage := .marked })
    else none
  | .cancel _ =>
    if c.stage = .marked then
      some { s.put i { c with stage := .gone } with cancels := s.cancels ++ [c.id] }
    else none
  | .check _ =>
    if c.pump = .checking then
      some (s.put i { c with pump := if c.pumpEnds then .done else .pulling })
    else none
  | .pull _ out =>
    if c.pump = .pulling then
      some (s.put i { c with
        pump := match out with
          | none => .sending true
          | some ok => .pulled ok })
    else none
  | .pumped _ =>
    match c.pump with
    | .pulled ok =>
      if c.pumpEnds then some (s.put i { c with pump := .done })
      else if ok then some (s.put i { c with pump := .sending false })
      else some (s.put i { c.finish (.failed .item) with pump := .done })
    | _ => none
  | .flushed _ ok =>
    match c.pump with
    | .sending last =>
      if ok then some (s.put i { c with pump := if last then .done else .checking })
      else some (s.put i { c.finish (.failed .refused) with pump := .done })
    | _ => none
  | _ => none

/-- A frame on the reply lane: `goaway` closes the connection for new calls, and the
others are routed by their id, a last frame with its call taken from the map. -/
def receive (s : Conn) (f : Frame) : Conn :=
  match f with
  | .goaway => { s with isOpen := false }
  | f =>
    match f.id with
    | none => s
    | some id =>
      match (s.pending.lookup id).bind fun i => s.calls[i]?.map (i, ·) with
      | none => s
      | some (i, c) =>
        if f.ends then
          { s.put i { c with route := .finished } with
            lane := .finishing i f
            pending := s.pending.erase id }
        else { s with lane := .offering i f }

/-- The lane's next step with a call. -/
def stepLane (s : Conn) (i : ℕ) (c : ClientCall) : Lane → Conn
  | .finishing _ f => { s.put i (c.finish (.frame f)) with lane := .receiving }
  | .offering _ f =>
    match c.offer (.frame f) with
    | some c' => { s.put i c' with lane := .receiving }
    | none => { s.put i { c with route := .overflowed } with lane := .overflowing i .remove }
  | .overflowing _ .remove =>
    { s with pending := s.pending.erase c.id, lane := .overflowing i .mark }
  | .overflowing _ .mark =>
    if c.cancelled then { s with lane := .overflowing i .fail }
    else { s.put i { c with cancelled := true } with lane := .overflowing i .send }
  | .overflowing _ .send =>
    { s with cancels := s.cancels ++ [c.id], lane := .overflowing i .fail }
  | .overflowing _ .fail =>
    { s.put i (c.finish (.failed .overflow)) with lane := .receiving }
  | .receiving | .ended => s

/-- `Conn::register`, for the client's next id. -/
def register (s : Conn) (streams one : Bool) (limit : Option ℕ) : Conn :=
  if s.isOpen then
    { s with
      nextId := s.nextId + 1
      pending := s.pending.insert s.nextId s.calls.length
      calls := s.calls ++ [{ id := s.nextId, streams := streams, one := one, limit := limit }] }
  else { s with nextId := s.nextId + 1 }

/-- The call an action is a step of. -/
def callOf : ConnAction → Option ℕ
  | .unwritten i | .send i | .sent i _ | .read i | .abandon i | .unregister i | .mark i | .cancel i
  | .check i | .pull i _ | .pumped i | .flushed i _ => some i
  | _ => none

/-- One step. -/
def step (s : Conn) (a : ConnAction) : Option Conn :=
  match callOf a with
  | some i => s.calls[i]?.bind fun c => s.stepCall i c a
  | none =>
    match a with
    | .elsewhere => some { s with nextId := s.nextId + 1 }
    | .register streams one limit => some (s.register streams one limit)
    | .reply f =>
      match s.lane with
      | .receiving => some (s.receive f)
      | _ => none
    | .route => s.lane.call.bind fun i => s.calls[i]?.map fun c => s.stepLane i c s.lane
    | .endLane =>
      match s.lane with
      | .receiving => some { s with lane := .ended, isOpen := false, pending := ∅ }
      | _ => none
    | _ => none

end Conn

/-- **The connection's machine.** -/
def connMachine : Machine Conn ConnAction where
  init := {}
  step := Conn.step

/-! ## What a step does -/

namespace Conn

variable {s s' : Conn} {a : ConnAction} {i : ℕ} {c : ClientCall}

/-- The steps of a call, its pump and its drop. -/
inductive CallStep (s : Conn) (i : ℕ) (c : ClientCall) : ConnAction → Conn → Prop
  | unwritten (hstage : c.stage = .registered) :
      CallStep s i c (.unwritten i) (s.put i { c with settled := true, stage := .dropping })
  | send (hstage : c.stage = .registered) :
      CallStep s i c (.send i) (s.put i { c with started := true, stage := .sending })
  | taken (hstage : c.stage = .sending) (pump : Pump) :
      CallStep s i c (.sent i true) (s.put i { c with stage := .reading, pump := pump })
  | refused (hstage : c.stage = .sending) :
      CallStep s i c (.sent i false)
        (s.put i { c with settled := true, refused := true, stage := .dropping })
  | read {answer : Answer} {rest : List Answer} (hstage : c.stage = .reading)
      (hqueue : c.queue = answer :: rest) :
      CallStep s i c (.read i) (s.put i (c.answered answer rest))
  | lost (hstage : c.stage = .reading) (hqueue : c.queue = []) (hfed : s.fed i c = false) :
      CallStep s i c (.read i) (s.put i { c with stage := .dropping })
  | abandon (hstage : c.stage = .sending ∨ c.stage = .reading) :
      CallStep s i c (.abandon i) (s.put i { c with stage := .dropping })
  | unregister (hstage : c.stage = .dropping) :
      CallStep s i c (.unregister i)
        { s.put i { c with stage := .unregistered } with pending := s.pending.erase c.id }
  | settled (hstage : c.stage = .unregistered) (hsettled : c.settled = true ∨ c.cancelled = true) :
      CallStep s i c (.mark i) (s.put i { c with stage := .gone })
  | marked (hstage : c.stage = .unregistered) (hsettled : c.settled = false)
      (hcancelled : c.cancelled = false) :
      CallStep s i c (.mark i) (s.put i { c with cancelled := true, stage := .marked })
  | cancel (hstage : c.stage = .marked) :
      CallStep s i c (.cancel i)
        { s.put i { c with stage := .gone } with cancels := s.cancels ++ [c.id] }
  | pump {a : ConnAction} (pump : Pump) : CallStep s i c a (s.put i { c with pump := pump })
  | pumpFails {a : ConnAction} (e : CallFailure) (he : e ≠ .overflow) :
      CallStep s i c a (s.put i { c.finish (.failed e) with pump := .done })

theorem stepCall_spec (ha : callOf a = some i) (h : s.stepCall i c a = some s') :
    CallStep s i c a s' := by
  cases a with cases ha <;> simp only [stepCall] at h
  | unwritten =>
    split at h <;> cases h
    exact .unwritten ‹_›
  | send =>
    split at h <;> cases h
    exact .send ‹_›
  | sent j ok =>
    split at h
    · cases ok
      · cases h
        exact .refused ‹_›
      · cases h
        exact .taken ‹_› _
    · cases h
  | read =>
    split at h
    · split at h
      · cases h
        exact .read ‹_› ‹_›
      · split at h <;> cases h
        exact .lost ‹_› ‹_› (Bool.eq_false_iff.mpr ‹_›)
    · cases h
  | abandon =>
    split at h <;> cases h
    exact .abandon ‹_›
  | unregister =>
    split at h <;> cases h
    exact .unregister ‹_›
  | mark =>
    simp only [Bool.or_eq_true] at h
    split at h
    · split at h <;> cases h
      · exact .settled ‹_› ‹_›
      · rename_i hstage hnot
        rw [not_or, Bool.not_eq_true, Bool.not_eq_true] at hnot
        exact .marked hstage hnot.1 hnot.2
    · cases h
  | cancel =>
    split at h <;> cases h
    exact .cancel ‹_›
  | check | pull =>
    split at h <;> cases h
    exact .pump _
  | pumped =>
    split at h
    · split at h
      · cases h
        exact .pump _
      · split at h <;> cases h
        · exact .pump _
        · exact .pumpFails .item nofun
    · cases h
  | flushed =>
    split at h
    · split at h <;> cases h
      · exact .pump _
      · exact .pumpFails .refused nofun
    · cases h

/-- **The steps**, one by one. -/
inductive ConnStep (s : Conn) : ConnAction → Conn → Prop
  | elsewhere : ConnStep s .elsewhere { s with nextId := s.nextId + 1 }
  | register (streams one : Bool) (limit : Option ℕ) :
      ConnStep s (.register streams one limit) (s.register streams one limit)
  | call {i : ℕ} {c : ClientCall} {a : ConnAction} {s' : Conn} (hc : s.calls[i]? = some c)
      (h : CallStep s i c a s') : ConnStep s a s'
  | received (hlane : s.lane = .receiving) (f : Frame) : ConnStep s (.reply f) (s.receive f)
  | routed {i : ℕ} {c : ClientCall} (hi : s.lane.call = some i) (hc : s.calls[i]? = some c) :
      ConnStep s .route (s.stepLane i c s.lane)
  | ended (hlane : s.lane = .receiving) :
      ConnStep s .endLane { s with lane := .ended, isOpen := false, pending := ∅ }

/-- **What a step can do.** -/
theorem step_spec (h : connMachine.step s a = some s') : ConnStep s a s' := by
  have h' : step s a = some s' := h
  cases ha : callOf a with
  | some =>
    simp only [step, ha, Option.bind_eq_some_iff] at h'
    obtain ⟨c, hc, h'⟩ := h'
    exact .call hc (stepCall_spec ha h')
  | none =>
    cases a with simp only [step, callOf] at h'
    | elsewhere => cases h'; exact .elsewhere
    | register streams one limit => cases h'; exact .register streams one limit
    | reply f =>
      split at h' <;> cases h'
      exact .received ‹_› f
    | route =>
      simp only [Option.bind_eq_some_iff, Option.map_eq_some_iff] at h'
      obtain ⟨i, hi, c, hc, rfl⟩ := h'
      exact .routed hi hc
    | endLane =>
      split at h' <;> cases h'
      exact .ended ‹_›
    | _ => cases ha

end Conn

end Ulo.Rpc
