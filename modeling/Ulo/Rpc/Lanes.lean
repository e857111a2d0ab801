import Mathlib.Data.List.AList
import Ulo.Lib.List
import Ulo.Lib.Machine
import Ulo.Rpc.Frame
import Ulo.Rpc.Subscriptions

/-!
# The lanes of a broker's server

A server on NATS, Kafka or RabbitMQ reads its requests on lanes of their own, one a pattern or
one for all, and the frames that continue or cancel a call on one control lane. The lanes are
tasks, and meet in two places: the table of the calls that are held, by the key their control
messages carry, and the inbound stream the RPC server reads. A request is held first, a
streamed one then acknowledged with `opened`, and only then delivered.

Nothing joins those steps. A control message that is handled between them finds its call in
the table and is delivered ahead of the request, and the drain's watcher of the Kafka and
RabbitMQ links can end the stream there (`overtakes`). Where neither happens the stream has
every frame behind the request of its call, no `cancel` of a held call is lost, and every call
that was acknowledged is delivered (`no_frame_overtakes`); that a call's frames keep the order
they were sent in needs no condition, since one task hands them over.
-/

namespace Ulo.Rpc.Lanes

open List Option Function AList

/-- The links whose requests and control messages are read apart. -/
inductive Broker
  | nats
  | kafka
  | rabbitmq
deriving DecidableEq

/-- The value of the `ulo-t` header. -/
inductive Kind
  | open_
  | opened
  | in_
  | inEnd
  | cancel
  | other (name : String)
deriving DecidableEq

/-- What a broker hands to a lane. -/
structure Message where
  reply : Option String := none
  correlation : Option String := none
  kind : Option Kind := none
  pattern : String := ""
  headers : CallHeaders := []
  data : Data := []

namespace Message

/-- The key a request is held under, if it asks for an answer. -/
def callKey (b : Broker) (m : Message) : Option String :=
  match m.reply, m.kind with
  | some reply, none | some reply, some .open_ =>
    match b with
    | .nats => some reply
    | .kafka | .rabbitmq => some (m.correlation.getD reply)
  | _, _ => none

/-- The key a control message names its call by. -/
def controlKey (b : Broker) (m : Message) : Option String :=
  match b with
  | .nats => m.reply
  | .kafka | .rabbitmq => m.correlation

/-- The frame a request is delivered as. -/
def opening (m : Message) (id : ℕ) : Frame :=
  match m.kind with
  | some _ => .open_ id m.pattern m.headers
  | none => .req id m.pattern m.headers m.data

/-- The frame a control message is delivered as. -/
def continuing (m : Message) (id : ℕ) : Option Frame :=
  match m.kind with
  | some .in_ => some (.in_ id m.data)
  | some .inEnd => some (.inEnd id)
  | some .cancel => some (.cancel id)
  | _ => none

/-- The frame a control message is for the call `id` held under `key`. -/
def frameFor (b : Broker) (key : String) (id : ℕ) (m : Message) : Option Frame :=
  if m.controlKey b = some key then m.continuing id else none

end Message

/-- A frame on the inbound stream; its reply path is known by the key of the call. -/
structure Delivery where
  frame : Frame
  reply : Option String

/-- Where a request lane stands in `on_request`. -/
inductive LaneStage
  | idle
  | took (m : Message)
  /-- a streamed request, held and not acknowledged -/
  | held (m : Message) (id : ℕ)
  /-- to be delivered -/
  | ready (m : Message) (id : ℕ)
  | ended

/-- The call that a lane holds and has not delivered. -/
def LaneStage.call : LaneStage → Option ℕ
  | held _ id | ready _ id => some id
  | idle | took _ | ended => none

/-- A request lane, with what the broker has for it. -/
structure Lane where
  queue : List Message := []
  stage : LaneStage := .idle

/-- Where the control lane stands in `on_control`. -/
inductive ControlStage
  | idle
  | found (d : Delivery)
  | ended

/-- What the control lane has found and not delivered. -/
def ControlStage.pending : ControlStage → List Delivery
  | found d => [d]
  | idle | ended => []

/-- What the RPC server has of a call. -/
inductive Served
  | absent
  | refused (key : String)
  | running (key : String)
  | cancelled (key : String)
  | answered

/-- Whether a call runs, not told to stop. -/
def Served.runs : Served → Bool
  | running _ => true
  | _ => false

/-- `cancel_with`, of a call that runs. -/
def Served.cancel : Served → Served
  | running key => cancelled key
  | served => served

theorem Served.runs_cancel (served : Served) : served.cancel.runs = false := by
  cases served <;> rfl

/-- The drain's watcher, of the Kafka and RabbitMQ links. -/
inductive Watcher
  | waiting
  /-- it has seen that no call is held -/
  | seen
  | done
deriving DecidableEq

/-- **The server side of a link**, with what its callers have sent. -/
structure ServerSide where
  phase : LinkPhase := .serving
  /-- `Calls` -/
  next : ℕ := 1
  held : AList fun _ : String => ℕ := ∅
  lanes : List Lane
  controls : List Message := []
  control : ControlStage := .idle
  watcher : Watcher := .waiting
  /-- whether `deliveries` is still there, on Kafka and RabbitMQ -/
  deliveries : Bool := true
  stream : List Delivery := []
  /-- how much of the stream the RPC server has accepted, and what it made of it -/
  accepted : ℕ := 0
  serving : ℕ → Served := fun _ => .absent
  /-- the key each id was held under -/
  keyOf : ℕ → Option String := fun _ => none
  /-- the control messages that were handled -/
  handled : List Message := []
  /-- the calls whose `cancel` was handled while they were held -/
  cancels : List ℕ := []
  /-- the calls `opened` was sent for, and their keys -/
  opened : List ℕ := []
  openedKeys : List String := []
  /-- the keys of the requests that are not streamed -/
  unaryKeys : List String := []

/-- A step of a caller, of a lane, of the drain, of its watcher or of the RPC server. -/
inductive Action
  | request (l : ℕ) (m : Message)
  | send (m : Message)
  | take (l : ℕ)
  /-- an event is delivered, a message of an unknown kind dropped -/
  | pass (l : ℕ)
  | hold (l : ℕ)
  | acknowledge (l : ℕ) (ok : Bool)
  | deliver (l : ℕ)
  | endLane (l : ℕ)
  | control
  | controlDeliver
  | endControl
  | drain
  /-- the watcher sees that no call is held, and then ends the stream -/
  | see
  | endStream
  | accept (admitted : Bool)
  /-- a terminal frame is sent through a call's reply path -/
  | answer (id : ℕ)

namespace ServerSide

/-- Whether a delivery reaches the stream: a NATS lane has a sender of its own. -/
def receives (b : Broker) (s : ServerSide) : Bool :=
  match b with
  | .nats => true
  | .kafka | .rabbitmq => s.deliveries

/-- `deliver` -/
def deliver (b : Broker) (s : ServerSide) (d : Delivery) : ServerSide :=
  if s.receives b then { s with stream := s.stream ++ [d] } else s

/-- A caller sends the frames of a streamed request after it received `opened`, and may cancel
another at any time. -/
def maySend (b : Broker) (s : ServerSide) (m : Message) : Bool :=
  (m.controlKey b).any fun key =>
    key ∈ s.openedKeys || (m.kind = some .cancel && key ∈ s.unaryKeys)

/-- `on_control`, up to the delivery. -/
def onControl (b : Broker) (s : ServerSide) (m : Message) : ServerSide :=
  match m.controlKey b with
  | none => s
  | some key =>
    match s.held.lookup key with
    | none => s
    | some id =>
      match m.continuing id with
      | none => s
      | some frame =>
        let s' := { s with control := .found ⟨frame, some key⟩ }
        if m.kind = some .cancel then
          { s' with held := s.held.erase key, cancels := s.cancels ++ [id] }
        else s'

/-- `accept`: a call is opened, or refused, and a `cancel` reaches one that runs. -/
def serve (serving : ℕ → Served) (admitted : Bool) (d : Delivery) : ℕ → Served :=
  match d.frame with
  | .req id _ _ _ | .open_ id _ _ =>
    let key := d.reply.getD ""
    Function.update serving id (if admitted then .running key else .refused key)
  | .cancel id => Function.update serving id (serving id).cancel
  | _ => serving

/-- **What a step does.** -/
def step (b : Broker) (s : ServerSide) : Action → Option ServerSide
  | .request l m =>
    match s.lanes[l]? with
    | some lane =>
      let unary := if m.kind = none then (m.callKey b).toList else []
      some { s with
        lanes := s.lanes.set l { lane with queue := lane.queue ++ [m] }
        unaryKeys := s.unaryKeys ++ unary }
    | none => none
  | .send m => if s.maySend b m then some { s with controls := s.controls ++ [m] } else none
  | .take l =>
    match s.lanes[l]? with
    | some ⟨m :: queue, .idle⟩ => some { s with lanes := s.lanes.set l ⟨queue, .took m⟩ }
    | _ => none
  | .pass l =>
    match s.lanes[l]? with
    | some ⟨queue, .took m⟩ =>
      let s' := { s with lanes := s.lanes.set l ⟨queue, .idle⟩ }
      match m.reply, m.kind with
      | none, none => some (s'.deliver b ⟨.evt m.pattern m.headers m.data, none⟩)
      | _, _ => if m.callKey b = none then some s' else none
    | _ => none
  | .hold l =>
    match s.lanes[l]? with
    | some ⟨queue, .took m⟩ =>
      match m.callKey b with
      | some key =>
        let stage := if m.kind = none then .ready m s.next else .held m s.next
        some { s with
          next := s.next + 1
          held := s.held.insert key s.next
          keyOf := Function.update s.keyOf s.next (some key)
          lanes := s.lanes.set l ⟨queue, stage⟩ }
      | none => none
    | _ => none
  | .acknowledge l ok =>
    match s.lanes[l]? with
    | some ⟨queue, .held m id⟩ =>
      let s' := { s with lanes := s.lanes.set l ⟨queue, .ready m id⟩ }
      -- a failed publish is logged, and the call delivered all the same
      if ok then
        some { s' with
          opened := s.opened ++ [id]
          openedKeys := s.openedKeys ++ (s.keyOf id).toList }
      else some s'
    | _ => none
  | .deliver l =>
    match s.lanes[l]? with
    | some ⟨queue, .ready m id⟩ =>
      let s' := { s with lanes := s.lanes.set l ⟨queue, .idle⟩ }
      some (s'.deliver b ⟨m.opening id, s.keyOf id⟩)
    | _ => none
  | .endLane l =>
    match s.lanes[l]? with
    | some ⟨queue, .idle⟩ =>
      if s.phase = .draining then some { s with lanes := s.lanes.set l ⟨queue, .ended⟩ } else none
    | _ => none
  | .control =>
    match s.control, s.controls with
    | .idle, m :: controls =>
      some (onControl b { s with controls, handled := s.handled ++ [m] } m)
    | _, _ => none
  | .controlDeliver =>
    match s.control with
    | .found d => some (deliver b { s with control := .idle } d)
    | _ => none
  | .endControl =>
    match s.control with
    | .idle =>
      if b = .nats ∧ s.phase = .draining ∧ s.held.keys = [] then some { s with control := .ended }
      else none
    | _ => none
  | .drain => if s.phase = .serving then some { s with phase := .draining } else none
  | .see =>
    if b ≠ .nats ∧ s.phase = .draining ∧ s.watcher = .waiting ∧ s.held.keys = [] then
      some { s with watcher := .seen }
    else none
  | .endStream =>
    if s.watcher = .seen then some { s with watcher := .done, deliveries := false } else none
  | .accept admitted =>
    match s.stream[s.accepted]? with
    | some d =>
      some { s with accepted := s.accepted + 1, serving := serve s.serving admitted d }
    | none => none
  | .answer id =>
    match s.serving id with
    | .refused key | .running key | .cancelled key =>
      some { s with
        held := s.held.erase key
        serving := Function.update s.serving id .answered }
    | _ => none

/-- Whether the stream has the request of a call. -/
def yields (s : ServerSide) (id : ℕ) : Bool := s.stream.any fun d => d.frame.opens = some id

/-- **The condition on a step**: a control message is handled when the call it finds is
delivered; a call is held while the stream has not ended; and the watcher ends the stream
while still no call is held and no lane has something to deliver. -/
def inTurn (b : Broker) (s : ServerSide) : Action → Bool
  | .control =>
    ((s.controls.head?.bind (·.controlKey b)).bind s.held.lookup).all s.yields
  | .hold _ => s.receives b
  | .endStream =>
    s.held.keys.isEmpty && s.lanes.all (fun lane => lane.stage.call.isNone) &&
      s.control.pending.isEmpty
  | _ => true

end ServerSide

/-- **A server** with `n` request lanes. -/
def serverMachine (b : Broker) (n : ℕ) : Machine ServerSide Action where
  init := { lanes := List.replicate n {} }
  step s a := s.step b a

namespace ServerSide

variable {b : Broker} {s s' : ServerSide} {a : Action} {d : Delivery} {id : ℕ} {l : ℕ} {m : Message}
  {queue : List Message} {key : String} {serving : ℕ → Served} {lane : Lane}

/-- The frames of a call that continue or cancel it, in the order of the stream. -/
def continuing (id : ℕ) (stream : List Delivery) : List Frame :=
  (stream.map Delivery.frame).filter fun f => f.continues = some id

/-- **What holds of every server**: an id names one call, whose request is in the stream once
at most, and the frames of a call are those that were sent under its key, in that order. -/
structure Inv (b : Broker) (s : ServerSide) : Prop where
  known : ∀ id key, s.keyOf id = some key → id < s.next
  held : ∀ key id, s.held.lookup key = some id → s.keyOf id = some key
  waiting : ∀ (l : ℕ) (lane : Lane) (id : ℕ), s.lanes[l]? = some lane → lane.stage.call = some id →
    (s.keyOf id).isSome = true ∧ s.yields id = false
  apart : ∀ (l l' : ℕ) (lane lane' : Lane) (id : ℕ), s.lanes[l]? = some lane →
    s.lanes[l']? = some lane' → lane.stage.call = some id → lane'.stage.call = some id → l = l'
  once : (s.stream.filterMap fun d => d.frame.opens).Nodup
  named : ∀ d ∈ s.stream ++ s.control.pending, ∀ id, d.frame.opens = some id ∨
    d.frame.continues = some id → (s.keyOf id).isSome = true
  pending : ∀ d ∈ s.control.pending, d.frame.opens = none
  order : ∀ id key, s.keyOf id = some key → (continuing id (s.stream ++ s.control.pending)).Sublist
    (s.handled.filterMap (Message.frameFor b key id))
  running : ∀ id, (s.serving id).runs = true →
    id ∈ (s.stream.take s.accepted).filterMap fun d => d.frame.opens

theorem yields_iff : s.yields id = true ↔ id ∈ s.stream.filterMap fun d => d.frame.opens := by
  simp [yields]

theorem Inv.init (b : Broker) (n : ℕ) : Inv b (serverMachine b n).init where
  known _ _ h := by cases h
  held _ _ h := by cases h
  waiting l lane id hlane hcall := by
    rw [eq_of_mem_replicate (mem_of_getElem? hlane)] at hcall
    cases hcall
  apart l l' lane lane' id hlane _ hcall := by
    rw [eq_of_mem_replicate (mem_of_getElem? hlane)] at hcall
    cases hcall
  once := nodup_nil
  named _ h := by cases h
  pending _ h := by cases h
  order _ _ h := by cases h
  running _ h := by cases h

/-- **A lane moves on** with its call, or without one. -/
theorem Inv.setLane (hs : s.Inv b) (lane' : Lane) (hlane : s.lanes[l]? = some lane)
    (hcall : lane'.stage.call = none ∨ lane'.stage.call = lane.stage.call) :
    Inv b { s with lanes := s.lanes.set l lane' } := by
  -- what a lane holds now, it held before
  have hback {k : ℕ} {x : Lane} {id : ℕ} (hx : (s.lanes.set l lane')[k]? = some x)
      (hid : x.stage.call = some id) : ∃ x', s.lanes[k]? = some x' ∧ x'.stage.call = some id := by
    rcases eq_or_of_getElem?_set hx with ⟨rfl, rfl⟩ | ⟨-, hx⟩
    · refine ⟨lane, hlane, ?_⟩
      rcases hcall with hcall | hcall
      · rw [hcall] at hid
        cases hid
      · rw [← hcall, hid]
    · exact ⟨x, hx, hid⟩
  exact { hs with
    waiting := fun k x id hx hid =>
      have ⟨x', hx', hid'⟩ := hback hx hid
      hs.waiting k x' id hx' hid'
    apart := fun k k' x y id hx hy hxid hyid =>
      have ⟨x', hx', hxid'⟩ := hback hx hxid
      have ⟨y', hy', hyid'⟩ := hback hy hyid
      hs.apart k k' x' y' id hx' hy' hxid' hyid' }

/-- **A frame that continues no call** is put on the stream: an event, or the request of a call
that is not there yet and that no lane holds. -/
theorem Inv.push (hs : s.Inv b) (hcontinues : d.frame.continues = none)
    (hopens : ∀ id, d.frame.opens = some id → (s.keyOf id).isSome = true ∧ s.yields id = false ∧
      ∀ lane ∈ s.lanes, lane.stage.call ≠ some id) :
    Inv b { s with stream := s.stream ++ [d] } := by
  refine { hs with waiting := ?_, once := ?_, named := ?_, order := ?_, running := ?_ }
  · intro l lane id hlane hcall
    obtain ⟨hknown, hyields⟩ := hs.waiting l lane id hlane hcall
    refine ⟨hknown, ?_⟩
    show (s.stream ++ [d]).any _ = false
    rw [any_append, Bool.or_eq_false_iff]
    refine ⟨hyields, ?_⟩
    simp only [any_cons, any_nil, Bool.or_false, decide_eq_false_iff_not]
    exact fun h => (hopens id h).2.2 lane (mem_of_getElem? hlane) hcall
  · show ((s.stream ++ [d]).filterMap _).Nodup
    rw [filterMap_append]
    refine nodup_append.mpr ⟨hs.once, ?_, ?_⟩
    · cases h : d.frame.opens <;> simp [h]
    · intro id hid id' hid' heq
      have hd : d.frame.opens = some id' := by simpa using hid'
      have hyields := yields_iff.mpr (heq ▸ hid)
      rw [(hopens id' hd).2.1] at hyields
      cases hyields
  · intro e he id hid
    rcases mem_append.mp he with he | he
    · rcases mem_snoc.mp he with he | he
      · exact hs.named e (mem_append_left _ he) id hid
      · rw [he, hcontinues] at hid
        exact (hopens id (hid.resolve_right nofun)).1
    · exact hs.named e (mem_append_right _ he) id hid
  · intro id key hkey
    have hsame : continuing id (s.stream ++ [d] ++ s.control.pending) =
        continuing id (s.stream ++ s.control.pending) := by
      simp [continuing, hcontinues]
    rw [hsame]
    exact hs.order id key hkey
  · intro id hid
    have hrunning := hs.running id hid
    show id ∈ ((s.stream ++ [d]).take s.accepted).filterMap _
    rw [take_append, filterMap_append]
    exact mem_append_left _ hrunning

/-- `deliver` pushes, or finds the stream ended. -/
theorem Inv.deliver (hs : s.Inv b) (hpush : Inv b { s with stream := s.stream ++ [d] }) :
    Inv b (s.deliver b d) := by
  unfold ServerSide.deliver
  split
  · exact hpush
  · exact hs

theorem opens_opening (m : Message) (id : ℕ) : (m.opening id).opens = some id := by
  unfold Message.opening
  split <;> rfl

theorem continues_opening (m : Message) (id : ℕ) : (m.opening id).continues = none := by
  unfold Message.opening
  split <;> rfl

theorem continues_continuing {f : Frame} (h : m.continuing id = some f) :
    f.continues = some id ∧ f.opens = none := by
  unfold Message.continuing at h
  split at h <;> cases h <;> exact ⟨rfl, rfl⟩

section

variable (hs : s.Inv b)
include hs

/-- **A lane delivers its request.** -/
theorem Inv.deliverRequest (hlane : s.lanes[l]? = some ⟨queue, .ready m id⟩) :
    Inv b (ServerSide.deliver b { s with lanes := s.lanes.set l ⟨queue, .idle⟩ }
      ⟨m.opening id, s.keyOf id⟩) := by
  have hset := hs.setLane ⟨queue, .idle⟩ hlane (.inl rfl)
  obtain ⟨hknown, hyields⟩ := hs.waiting l _ id hlane rfl
  refine hset.deliver (hset.push (continues_opening m id) fun id' hid' => ?_)
  obtain rfl : id = id' := some.inj ((opens_opening m id).symm.trans hid')
  refine ⟨hknown, hyields, fun lane hmem hcall => ?_⟩
  obtain ⟨l', hl'⟩ := mem_iff_getElem?.mp hmem
  rcases eq_or_of_getElem?_set hl' with ⟨-, rfl⟩ | ⟨hne, hl'⟩
  · cases hcall
  · exact hne (hs.apart l' l lane _ id hl' hlane hcall rfl)

/-- **A call is held** under a new id. -/
theorem Inv.hold {lane' : Lane} (hcall : lane'.stage.call = some s.next) : Inv b { s with
      next := s.next + 1
      held := s.held.insert key s.next
      keyOf := update s.keyOf s.next (some key)
      lanes := s.lanes.set l lane' } := by
  have hnew : s.keyOf s.next = none := by
    cases h : s.keyOf s.next with
    | none => rfl
    | some => exact absurd (hs.known _ _ h) (Nat.lt_irrefl _)
  have hkey {id : ℕ} (h : (s.keyOf id).isSome = true) :
      update s.keyOf s.next (some key) id = s.keyOf id :=
    update_of_ne (fun heq => by rw [heq, hnew] at h; cases h) _ _
  have hunyielded : s.yields s.next = false := by
    refine Bool.eq_false_iff.mpr fun h => ?_
    obtain ⟨d, hd, hopens⟩ := any_eq_true.mp h
    have hnamed := hs.named d (mem_append_left _ hd) s.next (.inl (of_decide_eq_true hopens))
    rw [hnew] at hnamed
    cases hnamed
  refine ⟨fun id key' h => ?_, fun key' id h => ?_, fun k lane id hlane hid => ?_,
    fun k k' lane lane'' id hlane hlane'' hid hid'' => ?_, hs.once, fun d hd id hid => ?_,
    hs.pending, fun id key' h => ?_, hs.running⟩
  · have h : update s.keyOf s.next (some key) id = some key' := h
    by_cases hid : id = s.next
    · rw [hid]
      exact Nat.lt_succ_self _
    · rw [update_of_ne hid] at h
      exact Nat.lt_succ_of_lt (hs.known id key' h)
  · have h : (s.held.insert key s.next).lookup key' = some id := h
    show update s.keyOf s.next (some key) id = some key'
    by_cases hk : key' = key
    · subst hk
      rw [lookup_insert] at h
      rw [← some.inj h, update_self]
    · rw [lookup_insert_ne hk] at h
      have hold := hs.held key' id h
      rw [hkey (by rw [hold]; rfl), hold]
  · show (update s.keyOf s.next (some key) id).isSome = true ∧ s.yields id = false
    rcases eq_or_of_getElem?_set hlane with ⟨-, rfl⟩ | ⟨-, hlane⟩
    · obtain rfl : s.next = id := some.inj (hcall.symm.trans hid)
      rw [update_self]
      exact ⟨rfl, hunyielded⟩
    · obtain ⟨hknown, hyields⟩ := hs.waiting k lane id hlane hid
      rw [hkey hknown]
      exact ⟨hknown, hyields⟩
  · -- the lanes before this step hold known calls, so that none holds the new one
    have hother {k : ℕ} {x : Lane} (hx : s.lanes[k]? = some x) : x.stage.call ≠ some s.next := by
      intro h
      have hknown := (hs.waiting k x s.next hx h).1
      rw [hnew] at hknown
      cases hknown
    rcases eq_or_of_getElem?_set hlane with ⟨rfl, rfl⟩ | ⟨-, hx⟩ <;>
      rcases eq_or_of_getElem?_set hlane'' with ⟨rfl, rfl⟩ | ⟨-, hy⟩
    · rfl
    · exact absurd (hid''.trans (hid.symm.trans hcall)) (hother hy)
    · exact absurd (hid.trans (hid''.symm.trans hcall)) (hother hx)
    · exact hs.apart k k' lane lane'' id hx hy hid hid''
  · have hnamed := hs.named d hd id hid
    show (update s.keyOf s.next (some key) id).isSome = true
    rwa [hkey hnamed]
  · have h : update s.keyOf s.next (some key) id = some key' := h
    by_cases hid : id = s.next
    · -- nothing of the new call is in the stream
      have hnone : continuing id (s.stream ++ s.control.pending) = [] := by
        refine filter_eq_nil_iff.mpr fun f hf hcontinues => ?_
        obtain ⟨d, hd, rfl⟩ := mem_map.mp hf
        have hnamed := hs.named d hd id (.inr (of_decide_eq_true hcontinues))
        rw [hid, hnew] at hnamed
        cases hnamed
      rw [hnone]
      exact nil_sublist _
    · rw [update_of_ne hid] at h
      exact hs.order id key' h

/-- A call is let go of. -/
theorem Inv.erase (key : String) : Inv b { s with held := s.held.erase key } :=
  { hs with
    held := fun key' id h => by
      have h : (s.held.erase key).lookup key' = some id := h
      by_cases hk : key' = key
      · rw [hk, lookup_erase] at h
        cases h
      · exact hs.held key' id (by rwa [lookup_erase_ne hk] at h) }

/-- A control message is taken up. -/
theorem Inv.handle (m : Message) (controls : List Message) :
    Inv b { s with controls, handled := s.handled ++ [m] } :=
  { hs with
    order := fun id key h => by
      refine (hs.order id key h).trans ?_
      show (s.handled.filterMap _).Sublist ((s.handled ++ [m]).filterMap _)
      rw [filterMap_append]
      exact sublist_append_left _ _ }

/-- **A control message finds its call**: its frame follows those that were sent before it. -/
theorem Inv.found {frame : Frame} (handled : List Message) (hhandled : s.handled = handled ++ [m])
    (hbefore : ∀ id key, s.keyOf id = some key → (continuing id s.stream).Sublist
      (handled.filterMap (Message.frameFor b key id))) (hcontrol : m.controlKey b = some key)
    (hheld : s.held.lookup key = some id) (hframe : m.continuing id = some frame) :
    Inv b { s with control := .found ⟨frame, some key⟩ } := by
  obtain ⟨hcontinues, hopens⟩ := continues_continuing hframe
  have hkey := hs.held key id hheld
  refine { hs with
    named := fun d hd id' hid' => ?_, pending := fun d hd => ?_, order := fun id' key' h => ?_ }
  · rcases mem_snoc.mp hd with hd | hd
    · exact hs.named d (mem_append_left _ hd) id' hid'
    · obtain rfl : d = ⟨frame, some key⟩ := hd
      rw [hopens, hcontinues] at hid'
      rcases hid' with hid' | hid'
      · cases hid'
      · show (s.keyOf id').isSome = true
        rw [← some.inj hid', hkey]
        rfl
  · rw [mem_singleton.mp hd]
    exact hopens
  · have h : s.keyOf id' = some key' := h
    show (continuing id' (s.stream ++ [⟨frame, some key⟩])).Sublist (s.handled.filterMap _)
    rw [hhandled, filterMap_append, continuing, map_append, filter_append]
    refine (hbefore id' key' h).append ?_
    by_cases hid : id' = id
    · subst hid
      obtain rfl : key = key' := some.inj (hkey.symm.trans h)
      simp [Message.frameFor, hcontrol, hframe, hcontinues]
    · have hne : ¬ id = id' := fun h => hid h.symm
      simp [hcontinues, hne]

/-- **The control lane** takes the next message up. -/
theorem Inv.control (hidle : s.control = .idle) (controls : List Message) :
    Inv b (onControl b { s with controls, handled := s.handled ++ [m] } m) := by
  have hhandle := hs.handle m controls
  unfold onControl
  split
  · exact hhandle
  rename_i key hcontrol
  split
  · exact hhandle
  rename_i id hheld
  split
  · exact hhandle
  rename_i hframe
  have hfound := hhandle.found s.handled rfl (fun id key h => by
    have := hs.order id key h
    rwa [hidle, ControlStage.pending, append_nil] at this) hcontrol hheld hframe
  dsimp only
  split
  · have herase := hfound.erase key
    exact { herase with }
  · exact hfound

/-- **The control lane delivers** what it found: the frames of each call stay as they were, or
the stream has ended and it is lost. -/
theorem Inv.controlDeliver (hfound : s.control = .found d) :
    Inv b (ServerSide.deliver b { s with control := .idle } d) := by
  have hd : d.frame.opens = none := hs.pending d (by rw [hfound]; exact mem_singleton_self d)
  have hpending : s.stream ++ s.control.pending = s.stream ++ [d] := by rw [hfound]; rfl
  unfold ServerSide.deliver
  split
  · have hyields (id : ℕ) : yields { s with stream := s.stream ++ [d], control := .idle } id =
        s.yields id := by
      simp [yields, hd]
    refine { hs with
      waiting := fun l lane id hlane hid => ?_, once := ?_, named := fun e he => ?_,
      pending := fun e he => (by cases he), order := fun id key h => ?_, running := fun id h => ?_ }
    · rw [hyields]
      exact hs.waiting l lane id hlane hid
    · show ((s.stream ++ [d]).filterMap _).Nodup
      rw [filterMap_append]
      simpa [hd] using hs.once
    · refine hs.named e ?_
      rw [hpending]
      simpa [ControlStage.pending] using he
    · have horder := hs.order id key h
      rw [hpending] at horder
      simpa [ControlStage.pending] using horder
    · show id ∈ ((s.stream ++ [d]).take s.accepted).filterMap _
      rw [take_append, filterMap_append]
      exact mem_append_left _ (hs.running id h)
  · refine { hs with
      named := fun e he => hs.named e ?_, pending := fun e he => (by cases he),
      order := fun id key h => ?_ }
    · rw [ControlStage.pending, append_nil] at he
      exact mem_append_left _ he
    · refine List.Sublist.trans ?_ (hs.order id key h)
      rw [ControlStage.pending, append_nil, continuing, continuing, map_append,
        filter_append]
      exact sublist_append_left _ _

end

/-- What runs after a frame is accepted ran before, or the frame asked for it. -/
theorem runs_serve {admitted : Bool} (h : (serve serving admitted d id).runs = true) :
    (serving id).runs = true ∨ d.frame.opens = some id := by
  obtain ⟨frame, reply⟩ := d
  cases frame with
  | req id' | open_ id' =>
    by_cases hid : id = id'
    · exact .inr (congrArg some hid.symm)
    · simp only [serve, update_of_ne hid] at h
      exact .inl h
  | cancel id' =>
    by_cases hid : id = id'
    · simp only [serve, hid, update_self, Served.runs_cancel] at h
      cases h
    · simp only [serve, update_of_ne hid] at h
      exact .inl h
  | _ => exact .inl h

/-- The RPC server accepts the next frame. -/
theorem Inv.accept (hs : s.Inv b) (hd : s.stream[s.accepted]? = some d) (admitted : Bool) :
    Inv b { s with accepted := s.accepted + 1, serving := serve s.serving admitted d } :=
  { hs with
    running := fun id h => by
      show id ∈ (s.stream.take (s.accepted + 1)).filterMap _
      rw [take_succ_of_getElem? hd, filterMap_append]
      rcases runs_serve h with h | h
      · exact mem_append_left _ (hs.running id h)
      · exact mem_append_right _ (by simp [h]) }

/-- A call is answered. -/
theorem runs_answered {id' : ℕ} (h : (Function.update serving id' .answered id).runs = true) :
    (serving id).runs = true := by
  by_cases hid : id = id'
  · rw [hid, update_self] at h
    cases h
  · rwa [update_of_ne hid] at h

theorem Inv.answer (hs : s.Inv b) (id : ℕ) (key : String) :
    Inv b { s with held := s.held.erase key, serving := update s.serving id .answered } :=
  { hs.erase key with running := fun id' h => hs.running id' (runs_answered h) }

/-! ## In turn -/

/-- **What holds where every step is taken in turn**: the frames of a call are behind its
request, and whatever was found or acknowledged is in the stream or will be. -/
structure Turn (b : Broker) (s : ServerSide) : Prop where
  after : ∀ (i : ℕ) (d : Delivery) (id : ℕ), s.stream[i]? = some d → d.frame.continues = some id →
    id ∈ (s.stream.take i).filterMap fun d => d.frame.opens
  found : ∀ d ∈ s.control.pending, ∀ id, d.frame.continues = some id → s.yields id = true
  receiving : s.receives b = false → (∀ key, s.held.lookup key = none) ∧ s.control.pending = [] ∧
    ∀ lane ∈ s.lanes, lane.stage.call = none
  streamed : ∀ lane ∈ s.lanes, ∀ m id, lane.stage = .held m id → m.kind ≠ none
  cancels : ∀ id ∈ s.cancels, ∃ d ∈ s.stream ++ s.control.pending, d.frame = .cancel id
  opened : ∀ id ∈ s.opened, (∃ lane ∈ s.lanes, ∃ m, lane.stage = .ready m id ∧ m.kind ≠ none) ∨
    ∃ d ∈ s.stream, ∃ pattern headers, d.frame = .open_ id pattern headers
  within : s.accepted ≤ s.stream.length
  stopped : ∀ d ∈ s.stream.take s.accepted, ∀ id, d.frame = .cancel id →
    (s.serving id).runs = false

theorem Turn.init (b : Broker) (n : ℕ) : Turn b (serverMachine b n).init where
  after i d id h := by simp [serverMachine] at h
  found _ h := by cases h
  receiving h := by cases b <;> cases h
  streamed lane hlane m id h := by
    rw [eq_of_mem_replicate hlane] at h
    cases h
  cancels _ h := by cases h
  opened _ h := by cases h
  within := Nat.le_refl 0
  stopped _ h := by cases h

/-- With a call on its way, the stream receives. -/
theorem Turn.receives (hs : s.Turn b) (h : ¬ ((∀ key, s.held.lookup key = none) ∧
    s.control.pending = [] ∧ ∀ lane ∈ s.lanes, lane.stage.call = none)) : s.receives b = true :=
  Bool.of_not_eq_false fun hnot => h (hs.receiving hnot)

theorem Turn.setLane (hs : s.Turn b) (lane' : Lane) (hlane : s.lanes[l]? = some lane)
    (hcall : lane'.stage.call = none ∨ lane'.stage.call = lane.stage.call)
    (hheld : ∀ m id, lane'.stage = .held m id → m.kind ≠ none)
    (hready : ∀ m id, lane.stage = .ready m id → lane'.stage = .ready m id) :
    Turn b { s with lanes := s.lanes.set l lane' } := by
  refine { hs with
    receiving := fun h => ?_, streamed := fun x hx => ?_, opened := fun id hid => ?_ }
  · obtain ⟨hnone, hpending, hlanes⟩ := hs.receiving h
    refine ⟨hnone, hpending, fun x hx => ?_⟩
    rcases mem_or_eq_of_mem_set hx with hx | rfl
    · exact hlanes x hx
    · exact hcall.elim (fun hcall => hcall) fun hcall =>
        hcall.trans (hlanes lane (mem_of_getElem? hlane))
  · rcases mem_or_eq_of_mem_set hx with hx | rfl
    · exact hs.streamed x hx
    · exact hheld
  · refine (hs.opened id hid).imp_left fun ⟨x, hx, m, hstage, hkind⟩ => ?_
    by_cases hxl : lane = x
    · subst hxl
      obtain ⟨hlt, -⟩ := List.getElem?_eq_some_iff.mp hlane
      exact ⟨lane', List.mem_set hlt _, m, hready m id hstage, hkind⟩
    · exact ⟨x, mem_set_of_ne hx fun h => hxl (some.inj (hlane.symm.trans h)), m, hstage,
        hkind⟩

/-- **A frame is put on the stream**, behind the request of its call. -/
theorem Turn.push (hs : s.Turn b) (hd : ∀ id, d.frame.continues = some id → s.yields id = true) :
    Turn b { s with stream := s.stream ++ [d] } := by
  have htake {i : ℕ} (hi : i ≤ s.stream.length) : (s.stream ++ [d]).take i = s.stream.take i :=
    take_append_of_le_length hi
  refine { hs with
    after := fun i e id he hid => ?_, found := fun e he id hid => ?_, cancels := fun id hid => ?_,
    opened := fun id hid => ?_, within := ?_, stopped := fun e he => ?_ }
  · show id ∈ ((s.stream ++ [d]).take i).filterMap _
    rcases List.getElem?_concat_eq_some.mp he with he | ⟨rfl, rfl⟩
    · obtain ⟨hlt, -⟩ := List.getElem?_eq_some_iff.mp he
      rw [htake (Nat.le_of_lt hlt)]
      exact hs.after i e id he hid
    · rw [take_left]
      exact yields_iff.mp (hd id hid)
  · have hyields := hs.found e he id hid
    show (s.stream ++ [d]).any _ = true
    rw [any_append]
    exact Bool.or_eq_true_iff.mpr (.inl hyields)
  · obtain ⟨e, he, hframe⟩ := hs.cancels id hid
    refine ⟨e, ?_, hframe⟩
    rcases mem_append.mp he with he | he
    · exact mem_append_left _ (mem_append_left _ he)
    · exact mem_append_right _ he
  · exact (hs.opened id hid).imp_right fun ⟨e, he, hframe⟩ => ⟨e, mem_append_left _ he, hframe⟩
  · show s.accepted ≤ (s.stream ++ [d]).length
    rw [length_append]
    exact Nat.le_add_right_of_le hs.within
  · exact hs.stopped e (by rwa [htake hs.within] at he)

/-- **A lane delivers its request**, which the stream receives. -/
theorem Turn.deliverRequest (hs : s.Turn b) (hlane : s.lanes[l]? = some ⟨queue, .ready m id⟩) :
    Turn b (deliver b { s with lanes := s.lanes.set l ⟨queue, .idle⟩ }
      ⟨m.opening id, s.keyOf id⟩) := by
  have hreceives := hs.receives fun h => by cases h.2.2 _ (mem_of_getElem? hlane)
  have hpush := hs.push (d := ⟨m.opening id, s.keyOf id⟩) fun id' h => by
    rw [continues_opening] at h
    cases h
  show Turn b (if s.receives b then _ else _)
  rw [if_pos hreceives]
  refine { hpush with
    receiving := fun h => ?_, streamed := fun x hx => ?_, opened := fun id' hid' => ?_ }
  · cases hreceives.symm.trans h
  · rcases mem_or_eq_of_mem_set hx with hx | rfl
    · exact hs.streamed x hx
    · exact fun m id h => by cases h
  · rcases hpush.opened id' hid' with ⟨x, hx, m', hstage, hkind⟩ | hopened
    · by_cases hxl : (⟨queue, .ready m id⟩ : Lane) = x
      · -- the request that was acknowledged is the one delivered here
        subst hxl
        cases hstage
        refine .inr ⟨⟨m.opening id, s.keyOf id⟩, mem_concat_self,
          m.pattern, m.headers, ?_⟩
        obtain ⟨kind, hkind⟩ := ne_none_iff_exists'.mp hkind
        show m.opening id = _
        rw [Message.opening, hkind]
      · exact .inl ⟨x, mem_set_of_ne hx fun h => hxl (some.inj (hlane.symm.trans h)), m',
          hstage, hkind⟩
    · exact .inr hopened

/-- A call is held while the stream receives. -/
theorem Turn.hold (hs : s.Turn b) (hlane : s.lanes[l]? = some ⟨queue, .took m⟩)
    (hreceives : s.receives b = true) :
    Turn b { s with
      next := s.next + 1
      held := s.held.insert key s.next
      keyOf := update s.keyOf s.next (some key)
      lanes := s.lanes.set l ⟨queue, if m.kind = none then .ready m s.next
        else .held m s.next⟩ } := by
  refine { hs with
    receiving := fun h => ?_, streamed := fun x hx => ?_, opened := fun id hid => ?_ }
  · cases hreceives.symm.trans h
  · rcases mem_or_eq_of_mem_set hx with hx | rfl
    · exact hs.streamed x hx
    · intro m' id hstage
      dsimp only at hstage
      split at hstage <;> cases hstage
      assumption
  · refine (hs.opened id hid).imp_left fun ⟨x, hx, m', hstage, hkind⟩ => ?_
    refine ⟨x, mem_set_of_ne hx fun h => ?_, m', hstage, hkind⟩
    cases hlane.symm.trans h
    cases hstage

theorem Turn.erase (hs : s.Turn b) (key : String) : Turn b { s with held := s.held.erase key } :=
  { hs with
    receiving := fun h => by
      obtain ⟨hnone, hrest⟩ := hs.receiving h
      refine ⟨fun key' => ?_, hrest⟩
      show (s.held.erase key).lookup key' = none
      by_cases hk : key' = key
      · rw [hk, lookup_erase]
      · rw [lookup_erase_ne hk, hnone key'] }

/-- **A control message finds its call**, which is delivered. -/
theorem Turn.control (hs : s.Turn b) {controls : List Message} (hidle : s.control = .idle)
    (hcontrols : s.controls = m :: controls) (hturn : s.inTurn b .control = true) :
    Turn b (onControl b { s with controls, handled := s.handled ++ [m] } m) := by
  have hpending : s.control.pending = [] := by rw [hidle]; rfl
  have hhandle : Turn b { s with controls, handled := s.handled ++ [m] } := { hs with }
  unfold onControl
  split
  · exact hhandle
  rename_i key hcontrol
  split
  · exact hhandle
  rename_i id hheld
  split
  · exact hhandle
  rename_i frame hframe
  have hyields : s.yields id = true := by
    have hheld : s.held.lookup key = some id := hheld
    rw [inTurn, hcontrols, head?_cons, bind_some, hcontrol, bind_some,
      hheld] at hturn
    exact hturn
  have hreceives := hs.receives fun h => by cases (h.1 key).symm.trans hheld
  have hfound (cancels : List ℕ)
    (hcancels : ∀ id' ∈ cancels, id' ∈ s.cancels ∨ frame = .cancel id') :
      Turn b { s with
        controls
        handled := s.handled ++ [m]
        control := .found ⟨frame, some key⟩
        cancels } := by
    refine { hs with
      found := fun d hd id' hid' => ?_, receiving := fun h => ?_, cancels := fun id' hid' => ?_ }
    · rw [mem_singleton.mp hd, (continues_continuing hframe).1] at hid'
      rw [← some.inj hid']
      exact hyields
    · cases hreceives.symm.trans h
    · rcases hcancels id' hid' with hid' | rfl
      · obtain ⟨d, hd, hframe⟩ := hs.cancels id' hid'
        rw [hpending, append_nil] at hd
        exact ⟨d, mem_append_left _ hd, hframe⟩
      · exact ⟨_, mem_concat_self, rfl⟩
  dsimp only
  split
  · rename_i hkind
    refine (hfound (s.cancels ++ [id]) fun id' hid' => ?_).erase key
    refine (mem_append.mp hid').imp_right fun hid' => ?_
    rw [mem_singleton.mp hid']
    rw [Message.continuing, hkind] at hframe
    exact (some.inj hframe).symm
  · exact hfound s.cancels fun _ => .inl

/-- **The control lane delivers** what it found, which the stream receives. -/
theorem Turn.controlDeliver (hs : s.Turn b) (hfound : s.control = .found d) :
    Turn b (ServerSide.deliver b { s with control := .idle } d) := by
  have hpending : s.control.pending = [d] := by rw [hfound]; rfl
  have hreceives := hs.receives fun h => by cases hpending.symm.trans h.2.1
  have hpush := hs.push (hs.found d (by rw [hpending]; exact mem_singleton_self d))
  show Turn b (if s.receives b then _ else _)
  rw [if_pos hreceives]
  refine { hpush with
    found := fun e he => (by cases he), receiving := fun h => ?_, cancels := fun id hid => ?_ }
  · cases hreceives.symm.trans h
  · obtain ⟨e, he, hframe⟩ := hs.cancels id hid
    rw [hpending] at he
    exact ⟨e, mem_append_left _ he, hframe⟩

/-- **The RPC server accepts the next frame**: a call that is opened here has no `cancel` before
this, and one that is cancelled here stops. -/
theorem Turn.accept (hs : s.Turn b) (hinv : s.Inv b) (hd : s.stream[s.accepted]? = some d)
    (admitted : Bool) :
    Turn b { s with accepted := s.accepted + 1, serving := serve s.serving admitted d } := by
  refine { hs with within := ?_, stopped := fun e he id hframe => ?_ }
  · exact (List.getElem?_eq_some_iff.mp hd).1
  · have he : e ∈ s.stream.take (s.accepted + 1) := he
    rw [take_succ_of_getElem? hd] at he
    rcases mem_append.mp he with he | he
    · refine Bool.eq_false_iff.mpr fun hruns => ?_
      rcases runs_serve hruns with hruns | hopens
      · rw [hs.stopped e he id hframe] at hruns
        cases hruns
      · -- the request of a cancelled call is before the `cancel`, and there is no other
        obtain ⟨i, hi⟩ := mem_iff_getElem?.mp he
        rw [getElem?_take] at hi
        obtain ⟨hlt, hi⟩ := ite_none_right_eq_some.mp hi
        have hbefore := hs.after i e id hi (by rw [hframe]; rfl)
        have hsub : ((s.stream.take (s.accepted + 1)).filterMap fun d => d.frame.opens).Nodup :=
          hinv.once.sublist ((take_sublist _ _).filterMap _)
        rw [take_succ_of_getElem? hd, filterMap_append] at hsub
        refine (nodup_append.mp hsub).2.2 id ?_ id (by simp [hopens]) rfl
        have htake : (s.stream.take i).Sublist (s.stream.take s.accepted) :=
          take_sublist_take_left (Nat.le_of_lt hlt)
        exact (htake.filterMap _).subset hbefore
    · rw [mem_singleton.mp he] at hframe
      show (serve s.serving admitted d id).runs = false
      simp only [serve, hframe, update_self, Served.runs_cancel]

/-- **A call is answered**: it leaves the table, and what was stopped stays so. -/
theorem Turn.answer (hs : s.Turn b) (id : ℕ) (key : String) :
    Turn b { s with
      held := s.held.erase key, serving := update s.serving id .answered } := by
  refine { hs.erase key with stopped := fun d hd id' hframe => ?_ }
  have hstopped := hs.stopped d hd id' hframe
  refine Bool.eq_false_iff.mpr fun hruns => ?_
  rw [runs_answered hruns] at hstopped
  cases hstopped

/-- **Every step keeps the first**, and the second where it is taken in turn. -/
theorem Inv.step (hs : s.Inv b) (h : s.step b a = some s') :
    s'.Inv b ∧ (s.inTurn b a = true → s.Turn b → s'.Turn b) := by
  cases a with simp only [ServerSide.step] at h
  | request l m =>
    split at h <;> cases h
    rename_i lane hlane
    have hset := hs.setLane { lane with queue := lane.queue ++ [m] } hlane (.inr rfl)
    refine ⟨{ hset with }, fun _ ht => ?_⟩
    have hset := ht.setLane { lane with queue := lane.queue ++ [m] } hlane (.inr rfl)
      (ht.streamed lane (mem_of_getElem? hlane)) fun _ _ h => h
    exact { hset with }
  | send | drain | see =>
    obtain ⟨-, h⟩ := ite_none_right_eq_some.mp h
    cases h
    exact ⟨{ hs with }, fun _ ht => { ht with }⟩
  | take =>
    split at h <;> cases h
    rename_i hlane
    exact ⟨hs.setLane _ hlane (.inl rfl), fun _ ht => ht.setLane _ hlane (.inl rfl) nofun nofun⟩
  | pass =>
    split at h
    · rename_i queue m hlane
      have hset := hs.setLane ⟨queue, .idle⟩ hlane (.inl rfl)
      have hturn (ht : s.Turn b) := ht.setLane ⟨queue, .idle⟩ hlane (.inl rfl) nofun nofun
      split at h
      · cases h
        refine ⟨hset.deliver (hset.push rfl nofun), fun _ ht => ?_⟩
        unfold ServerSide.deliver
        split
        · exact (hturn ht).push nofun
        · exact hturn ht
      · obtain ⟨-, h⟩ := ite_none_right_eq_some.mp h
        cases h
        exact ⟨hset, fun _ => hturn⟩
    · cases h
  | hold =>
    split at h
    · rename_i hlane
      split at h <;> cases h
      refine ⟨hs.hold ?_, fun hturn ht => ht.hold hlane hturn⟩
      show (if _ then LaneStage.ready _ _ else LaneStage.held _ _).call = some s.next
      split <;> rfl
    · cases h
  | acknowledge =>
    split at h
    · rename_i queue m id hlane
      have hset := hs.setLane ⟨queue, .ready m id⟩ hlane (.inr rfl)
      have hturn (ht : s.Turn b) := ht.setLane ⟨queue, .ready m id⟩ hlane (.inr rfl) nofun nofun
      split at h <;> cases h
      · refine ⟨{ hset with }, fun _ ht => { hturn ht with opened := fun id' hid' => ?_ }⟩
        rcases mem_snoc.mp hid' with hid' | hid'
        · exact (hturn ht).opened id' hid'
        · obtain ⟨hlt, -⟩ := List.getElem?_eq_some_iff.mp hlane
          rw [hid']
          exact .inl ⟨_, List.mem_set hlt _, m, rfl,
            ht.streamed _ (mem_of_getElem? hlane) m id rfl⟩
      · exact ⟨hset, fun _ => hturn⟩
    · cases h
  | deliver =>
    split at h <;> cases h
    rename_i hlane
    exact ⟨hs.deliverRequest hlane, fun _ ht => ht.deliverRequest hlane⟩
  | endLane =>
    split at h
    · rename_i hlane
      obtain ⟨-, h⟩ := ite_none_right_eq_some.mp h
      cases h
      exact ⟨hs.setLane _ hlane (.inl rfl), fun _ ht => ht.setLane _ hlane (.inl rfl) nofun nofun⟩
    · cases h
  | control =>
    split at h <;> cases h
    rename_i hidle hcontrols
    exact ⟨hs.control hidle _, fun hturn ht => ht.control hidle hcontrols hturn⟩
  | controlDeliver =>
    split at h <;> cases h
    rename_i hfound
    exact ⟨hs.controlDeliver hfound, fun _ ht => ht.controlDeliver hfound⟩
  | endControl =>
    split at h
    · rename_i hidle
      obtain ⟨-, h⟩ := ite_none_right_eq_some.mp h
      cases h
      have hpending : s.control.pending = [] := by rw [hidle]; rfl
      refine ⟨{ hs with
        named := fun d hd => hs.named d (by rw [hpending]; exact hd)
        pending := fun d hd => by cases hd
        order := fun id key h => ?_ }, fun _ ht => { ht with
        found := fun d hd => by cases hd
        receiving := fun h => ⟨(ht.receiving h).1, rfl, (ht.receiving h).2.2⟩
        cancels := fun id hid => ?_ }⟩
      · have horder := hs.order id key h
        rwa [hpending] at horder
      · have hcancels := ht.cancels id hid
        rwa [hpending] at hcancels
    · cases h
  | endStream =>
    obtain ⟨-, h⟩ := ite_none_right_eq_some.mp h
    cases h
    refine ⟨{ hs with }, fun hturn ht => ?_⟩
    simp only [inTurn, Bool.and_eq_true, List.isEmpty_iff, List.all_eq_true,
      isNone_iff_eq_none] at hturn
    obtain ⟨⟨hheld, hlanes⟩, hpending⟩ := hturn
    refine { ht with receiving := fun _ => ⟨fun key => ?_, hpending, hlanes⟩ }
    refine AList.lookup_eq_none.mpr fun hkey => ?_
    have hkey := AList.mem_keys.mp hkey
    rw [hheld] at hkey
    cases hkey
  | accept admitted =>
    split at h <;> cases h
    rename_i hd
    exact ⟨hs.accept hd admitted, fun _ ht => ht.accept hs hd admitted⟩
  | answer id =>
    split at h <;> cases h <;> exact ⟨hs.answer id _, fun _ ht => ht.answer id _⟩

/-- **No frame overtakes its request.** In every run of a server on NATS, Kafka or RabbitMQ the
frames of a call are on the inbound stream in the order they were sent. Where moreover every
step is taken in turn: each frame that continues or cancels a call is behind its request; a
`cancel` that found its call in the table is on the stream, or about to be, and a call the RPC
server has read it for does not run on; and a call that was sent `opened` is on the stream, or
about to be. -/
theorem no_frame_overtakes (b : Broker) (n : ℕ) (t : List Action) (s : ServerSide)
    (h : (serverMachine b n).run t = some s) :
    (∀ id key, s.keyOf id = some key → (continuing id s.stream).Sublist
      ((s.handled ++ s.controls).filterMap (Message.frameFor b key id))) ∧
    ((∀ pre s₀ a, (serverMachine b n).TookAt t pre s₀ a → s₀.inTurn b a = true) →
      (∀ (i : ℕ) (d : Delivery) (id : ℕ), s.stream[i]? = some d → d.frame.continues = some id →
        ∃ (j : ℕ) (d' : Delivery), j < i ∧ s.stream[j]? = some d' ∧ d'.frame.opens = some id) ∧
      (∀ id ∈ s.cancels, ((∃ d, s.control = .found d ∧ d.frame = .cancel id) ∧
        s.receives b = true) ∨
        ∃ (i : ℕ) (d : Delivery), s.stream[i]? = some d ∧ d.frame = .cancel id ∧
          (i < s.accepted → (s.serving id).runs = false)) ∧
      ∀ id ∈ s.opened,
        ((∃ lane ∈ s.lanes, ∃ m, lane.stage = .ready m id ∧ m.kind ≠ none) ∧ s.receives b = true) ∨
        ∃ d ∈ s.stream, ∃ pattern headers, d.frame = .open_ id pattern headers) := by
  have hinv : s.Inv b := Machine.invariant (Inv.init b n)
    (fun _ _ _ hs hstep => (hs.step hstep).1) h
  refine ⟨fun id key hkey => ?_, fun hsteps => ?_⟩
  · have horder := hinv.order id key hkey
    rw [continuing, map_append, filter_append] at horder
    rw [filterMap_append]
    exact ((sublist_append_left _ _).trans horder).trans (sublist_append_left _ _)
  have hturn : s.Inv b ∧ s.Turn b := by
    refine Machine.invariant_of_steps (P := fun s => s.Inv b ∧ s.Turn b)
      (C := fun s a => s.inTurn b a = true) ⟨Inv.init b n, Turn.init b n⟩ ?_ hsteps h
    exact fun s a s' hs hturn hstep => (hs.1.step hstep).imp_right fun h => h hturn hs.2
  obtain ⟨-, hturn⟩ := hturn
  refine ⟨fun i d id hd hid => ?_, fun id hid => ?_, fun id hid => ?_⟩
  · obtain ⟨d', hd', hopens⟩ := mem_filterMap.mp (hturn.after i d id hd hid)
    obtain ⟨j, hj⟩ := mem_iff_getElem?.mp hd'
    rw [getElem?_take] at hj
    obtain ⟨hlt, hj⟩ := ite_none_right_eq_some.mp hj
    exact ⟨j, d', hlt, hj, hopens⟩
  · obtain ⟨d, hd, hframe⟩ := hturn.cancels id hid
    rcases mem_append.mp hd with hd | hd
    · obtain ⟨i, hi⟩ := mem_iff_getElem?.mp hd
      refine .inr ⟨i, d, hi, hframe, fun hlt => hturn.stopped d ?_ id hframe⟩
      refine mem_iff_getElem?.mpr ⟨i, ?_⟩
      rw [getElem?_take, if_pos hlt, hi]
    · refine .inl ⟨?_, hturn.receives fun h => by rw [h.2.1] at hd; cases hd⟩
      cases hcontrol : s.control with
      | found d' =>
        rw [hcontrol] at hd
        exact ⟨d', rfl, by rw [← mem_singleton.mp hd, hframe]⟩
      | idle | ended =>
        rw [hcontrol] at hd
        cases hd
  · refine (hturn.opened id hid).imp_left fun ⟨lane, hlane, m, hstage, hkind⟩ => ?_
    refine ⟨⟨lane, hlane, m, hstage, hkind⟩, hturn.receives fun h => ?_⟩
    have hnone := h.2.2 lane hlane
    rw [hstage] at hnone
    cases hnone

end ServerSide

/-! ## Out of turn -/

/-- A request for an answer, a streamed one, and frames for them. -/
def request : Message := { reply := some "r", correlation := some "r" }
def streamed : Message := { request with kind := some .open_ }
def item : Message := { request with kind := some .in_ }
def cancel : Message := { request with kind := some .cancel }

/-- A streamed call with one item and a `cancel`, each handled once the call is delivered. -/
def inTurnRun : List Action :=
  [.request 0 streamed, .take 0, .hold 0, .acknowledge 0 true, .deliver 0, .send item,
    .send cancel, .control, .controlDeliver, .control, .controlDeliver, .accept true, .accept true,
    .accept true]

theorem no_frame_overtakes_streamed :
    ∃ s, (serverMachine .kafka 1).run inTurnRun = some s ∧ s.cancels = [1] ∧
      ∃ (i : ℕ) (d : Delivery), s.stream[i]? = some d ∧ d.frame = .cancel 1 ∧
        (i < s.accepted → (s.serving 1).runs = false) := by
  obtain ⟨-, hturn⟩ := ServerSide.no_frame_overtakes .kafka 1 inTurnRun _ rfl
  obtain ⟨-, hcancels, -⟩ := hturn fun _ _ _ htook =>
    htook.of_checks (C := fun s a => s.inTurn .kafka a) rfl
  refine ⟨_, rfl, rfl, (hcancels 1 (mem_singleton_self 1)).resolve_left ?_⟩
  rintro ⟨⟨d, hfound, -⟩, -⟩
  cases hfound

/-- The `cancel` of a request, handled between its hold and its delivery. -/
def cancelBetween : List Action :=
  [.request 0 request, .take 0, .send cancel, .hold 0, .control, .controlDeliver, .deliver 0,
    .accept true, .accept true]

/-- The drain ends the stream once the `cancel` of a streamed request is handled. -/
def endedBetween : List Action :=
  [.request 0 streamed, .take 0, .hold 0, .acknowledge 0 true, .send cancel, .drain, .control,
    .see, .endStream, .controlDeliver, .deliver 0]

/-- **A frame that overtakes its request**: on each of the links a `cancel` is yielded ahead of
the call it names, which the RPC server then runs; and on Kafka and RabbitMQ a call that was sent
`opened`, and a `cancel` that found it, are never yielded. -/
theorem overtakes :
    (∃ s, (serverMachine .nats 1).run cancelBetween = some s ∧
      s.stream.map (·.frame.id) = [some 1, some 1] ∧
      s.stream.head?.bind (·.frame.continues) = some 1 ∧ (s.serving 1).runs = true) ∧
    (∃ s, (serverMachine .kafka 1).run cancelBetween = some s ∧
      s.stream.head?.bind (·.frame.continues) = some 1 ∧ (s.serving 1).runs = true) ∧
    (∃ s, (serverMachine .rabbitmq 1).run cancelBetween = some s ∧
      s.stream.head?.bind (·.frame.continues) = some 1 ∧ (s.serving 1).runs = true) ∧
    (∃ s, (serverMachine .kafka 1).run endedBetween = some s ∧
      s.opened = [1] ∧ s.cancels = [1] ∧ s.stream = []) ∧
    ∃ s, (serverMachine .rabbitmq 1).run endedBetween = some s ∧
      s.opened = [1] ∧ s.cancels = [1] ∧ s.stream = [] :=
  ⟨⟨_, rfl, rfl, rfl, rfl⟩, ⟨_, rfl, rfl, rfl⟩, ⟨_, rfl, rfl, rfl⟩, ⟨_, rfl, rfl, rfl, rfl⟩,
    _, rfl, rfl, rfl, rfl⟩

end Ulo.Rpc.Lanes
