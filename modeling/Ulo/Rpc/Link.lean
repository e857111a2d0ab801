import Ulo.Lib.List
import Ulo.Lib.Machine
import Ulo.Lib.Map
import Ulo.Rpc.Frame

/-!
# The server side of a TCP link

Callers number their calls per connection, the server numbers the calls of all
connections together. Each connection keeps the two numberings in `Ids`, under one
lock; the calls in flight of all connections are counted in `held`. A connection's
reader maps a frame's id under the lock and queues the delivery after it; the
server's replies look their caller up under the lock, are encoded and queued for
the wire without it, and take it once more to forget a call they ended. One task,
`forward`, hands the deliveries of all readers on to the server until the link
drains and no call is held, and answers the rest itself.

Each of these is a step of its own, and the steps of all tasks interleave. The
queues are not bounded here: a send that waits for room is a step not taken yet.
The readers' queue lives as long as its readers do, which send into it without
failing; the server may stop receiving at any time.

What holds of the ids in every run is `ids_consistent`.
-/

namespace Ulo.Rpc

/-- `Caller`: whom a call's replies go to. -/
inductive Caller
  | live (id : ℕ)
  | cancelled
deriving DecidableEq

/-- `Ids`: one connection's calls in flight. -/
structure Ids where
  byCaller : AList fun _ : ℕ => ℕ := ∅
  byServer : AList fun _ : ℕ => Caller := ∅

namespace Ids

/-- How many calls are in flight. -/
def count (ids : Ids) : ℕ := ids.byServer.keys.length

/-- `Ids::open`, with the server id taken from the link's counter. -/
def open_ (ids : Ids) (caller server : ℕ) : Ids where
  byCaller := ids.byCaller.insert caller server
  byServer :=
    -- a call still in flight under the same id is forgotten
    (match ids.byCaller.lookup caller with
      | some stale => ids.byServer.erase stale
      | none => ids.byServer).insert server (.live caller)

/-- `Ids::server`. -/
def server (ids : Ids) (caller : ℕ) : Option ℕ := ids.byCaller.lookup caller

/-- `Ids::cancel`, for the call the caller's id names. -/
def cancel (ids : Ids) (caller server : ℕ) : Ids where
  byCaller := ids.byCaller.erase caller
  byServer := ids.byServer.insert server .cancelled

/-- `Ids::caller`. -/
def caller (ids : Ids) (server : ℕ) : Option Caller := ids.byServer.lookup server

/-- `Ids::finish`. -/
def finish (ids : Ids) (server : ℕ) : Ids :=
  match ids.byServer.lookup server with
  | some (.live caller) =>
    { byCaller := ids.byCaller.erase caller, byServer := ids.byServer.erase server }
  | _ => ids

/-- `Ids::release`. -/
def release (ids : Ids) (server : ℕ) : Ids :=
  { ids with byServer := ids.byServer.erase server }

/-- Whether the caller of a call can still address it. -/
def isLive (ids : Ids) (server : ℕ) : Bool :=
  match ids.byServer.lookup server with
  | some (.live _) => true
  | _ => false

/-- The live calls. -/
def live (ids : Ids) : List ℕ := ids.byServer.keys.filter ids.isLive

/-- `Ids::drain`, with the live calls in the order the map gave them. -/
def drain (ids : Ids) (orphaned : List ℕ) : Ids where
  byCaller := ∅
  byServer := ids.byServer.eraseAll orphaned

end Ids

/-- `Ids::counted`: what becomes of `held`. -/
def counted (held before after : ℕ) : ℕ :=
  if after = before then held else held + after - before

/-- `Delivery`: a frame under the server's id, the connection its reply path leads
to, and the cancelled call that its `Ack` forgets, settled or dropped. -/
structure Delivery where
  frame : Frame
  reply : Option ℕ
  ack : Option (ℕ × ℕ) := none

/-- Where the task of a connection stands: reading; with a delivery to queue; done
with reading; with the cancels of its calls to queue, and the number to lower
`held` by; and at its end. -/
inductive Reader
  | reading
  | mapped (d : Delivery)
  | closed
  | draining (orphaned : List ℕ) (count : ℕ)
  | ended

/-- What a connection's task has still to take off `held`. -/
def Reader.owed : Reader → ℕ
  | .draining _ count => count
  | _ => 0

/-- A reply on its way to the wire: as the server sent it, the caller's id that was
looked up for it, and whether it is queued, with the call still to forget. -/
structure Reply where
  frame : Frame
  server : ℕ
  caller : ℕ
  queued : Bool := false

/-- `with_id`. -/
def Frame.withId (f : Frame) (id : ℕ) : Frame :=
  match f with
  | .res _ data => .res id data
  | .err _ error => .err id error
  | .item _ data => .item id data
  | .end_ _ => .end_ id
  | other => other

/-- What goes out. -/
def Reply.sent (r : Reply) : Frame := r.frame.withId r.caller

structure Connection where
  ids : Ids := {}
  reader : Reader := .reading
  replies : List Reply := []
  /-- Whether its writer still takes what is queued for the wire. -/
  writing : Bool := true
  /-- The replies queued for the wire so far. -/
  wire : List Reply := []
  /-- Those that found the writer gone. -/
  unsent : List Reply := []

/-- What a connection has a part of in `held`. -/
def Connection.holds (c : Connection) : ℕ := c.ids.count + c.reader.owed

/-- Where `forward` stands: about to poll its queue; with the queue found empty and
`idle` still to poll; with a delivery in hand; and past the end of the inbound
stream. -/
inductive Forward
  | polling
  | polled
  | holding (d : Delivery)
  | ended

/-- A server id handed out. -/
structure Opening where
  connection : ℕ
  caller : ℕ
  server : ℕ
deriving DecidableEq

/-- **The link**, with what was handed out, queued, handed to the server and refused
in the past. -/
structure Link where
  connections : List Connection := []
  nextId : ℕ := 0
  held : ℕ := 0
  draining : Bool := false
  /-- The server dropped its inbound stream. -/
  left : Bool := false
  queue : List Delivery := []
  forward : Forward := .polling
  /-- The `Ack`s the server has. -/
  acks : List (ℕ × ℕ) := []
  opened : List Opening := []
  queued : List Delivery := []
  inbound : List Delivery := []
  refused : List Delivery := []

/-- A step of one of the tasks. -/
inductive LinkAction
  | accept
  /-- a reader reads a frame and maps its id -/
  | frame (k : ℕ) (f : Frame)
  /-- it queues the delivery -/
  | queue (k : ℕ)
  /-- it stops reading, the connection closed or its frame not one -/
  | close (k : ℕ)
  /-- it takes its live calls, in some order -/
  | drainIds (k : ℕ) (orphaned : List ℕ)
  /-- it queues the cancel of the next one -/
  | orphan (k : ℕ)
  /-- it lowers `held` -/
  | lower (k : ℕ)
  /-- a reply looks its caller up -/
  | reply (k : ℕ) (f : Frame)
  /-- a connection's writer ends, its wire broken -/
  | cut (k : ℕ)
  /-- a reply is encoded and queued for the wire -/
  | write (k j : ℕ)
  /-- the call it ended is forgotten -/
  | finish (k j : ℕ)
  /-- the `Ack` of a cancel the server has settles, or drops -/
  | settle (i : ℕ)
  /-- the phase moves to `DRAINING` -/
  | drain
  | poll
  | idle
  | hand
  | refuse
  /-- the server drops its inbound stream -/
  | leave

namespace Link

/-- The link with a changed connection. -/
def put (s : Link) (k : ℕ) (c : Connection) : Link :=
  { s with connections := s.connections.set k c }

/-- A frame under the server's id, and what it makes of the ids. -/
def inward (ids : Ids) (next : ℕ) : Frame → Ids × Option Frame
  | .req id pattern headers data => (ids.open_ id next, some (.req next pattern headers data))
  | .open_ id pattern headers => (ids.open_ id next, some (.open_ next pattern headers))
  | .evt pattern headers data => (ids, some (.evt pattern headers data))
  | .in_ id data => (ids, (ids.server id).map fun server => .in_ server data)
  | .inEnd id => (ids, (ids.server id).map .inEnd)
  | .cancel id =>
    match ids.server id with
    | some server => (ids.cancel id server, some (.cancel server))
    | none => (ids, none)
  | _ => (ids, none)

/-- The `Ack` of a delivery: `taken` for a cancel, none for the rest. -/
def ackOf (k : ℕ) : Frame → Option (ℕ × ℕ)
  | .cancel server => some (k, server)
  | _ => none

/-- Where a reader goes with a frame. -/
def readerOf (k : ℕ) : Option Frame → Reader
  | some f => .mapped { frame := f, reply := some k, ack := ackOf k f }
  | none => .reading

/-- What an opened call changes of what the connections share. -/
def opening (s : Link) (k : ℕ) (c : Connection) (caller : ℕ) : Link :=
  { s with
    nextId := s.nextId + 1
    held := counted s.held c.ids.count (c.ids.open_ caller s.nextId).count
    opened := s.opened ++ [{ connection := k, caller := caller, server := s.nextId }] }

/-- One turn of a reader: `inward`, and the `Ack` of what it maps. -/
def read (s : Link) (k : ℕ) (c : Connection) (f : Frame) : Link :=
  let out := inward c.ids s.nextId f
  (match f.opens with
    | some caller => s.opening k c caller
    | none => s).put k { c with ids := out.1, reader := readerOf k out.2 }

/-- The drop of an `Ack`. -/
def release (s : Link) : Option (ℕ × ℕ) → Link
  | none => s
  | some (k, server) =>
    match s.connections[k]? with
    | none => s
    | some c =>
      { s.put k { c with ids := c.ids.release server } with
        held := counted s.held c.ids.count (c.ids.release server).count }

/-- `refuse`: the delivery is dropped. A request's or a streamed request's answer is
a reply like any other. -/
def refuse (s : Link) (d : Delivery) : Link :=
  { s with refused := s.refused ++ [d] }.release d.ack

/-- A turn of a reply whose caller was looked up. -/
def write (encodes : Frame → Bool) (c : Connection) (j : ℕ) (r : Reply) : Connection :=
  if encodes r.sent then
    { c with
      -- without its writer the queue refuses the frame, and a call it ends is
      -- forgotten all the same
      wire := if c.writing then c.wire ++ [r] else c.wire
      unsent := if c.writing then c.unsent else c.unsent ++ [r]
      replies :=
        if r.frame.ends then c.replies.set j { r with queued := true }
        else c.replies.eraseIdx j }
  else { c with replies := c.replies.eraseIdx j }

/-- A step of a connection. -/
def stepConnection (encodes : Frame → Bool) (s : Link) (k : ℕ) (c : Connection) :
    LinkAction → Option Link
  | .frame _ f =>
    match c.reader with
    | .reading => some (s.read k c f)
    | _ => none
  | .queue _ =>
    match c.reader with
    | .mapped d =>
      some { s.put k { c with reader := .reading } with
        queue := s.queue ++ [d]
        queued := s.queued ++ [d] }
    | _ => none
  | .close _ =>
    match c.reader with
    | .reading => some (s.put k { c with reader := .closed })
    | _ => none
  | .drainIds _ orphaned =>
    match c.reader with
    | .closed =>
      if orphaned.isPerm c.ids.live then
        some (s.put k { c with
          ids := c.ids.drain orphaned
          reader := .draining orphaned orphaned.length })
      else none
    | _ => none
  | .orphan _ =>
    match c.reader with
    | .draining (server :: orphaned) count =>
      some { s.put k { c with reader := .draining orphaned count } with
        queue := s.queue ++ [{ frame := .cancel server, reply := none }]
        queued := s.queued ++ [{ frame := .cancel server, reply := none }] }
    | _ => none
  | .lower _ =>
    match c.reader with
    | .draining [] count =>
      some { s.put k { c with reader := .ended } with held := s.held - count }
    | _ => none
  | .reply _ f =>
    -- without an id, or with one that is not in flight, the send fails; a cancelled
    -- call's reply is dropped
    match f.id with
    | none => some s
    | some server =>
      match c.ids.caller server with
      | some (.live caller) =>
        some (s.put k { c with
          replies := c.replies ++ [{ frame := f, server := server, caller := caller }] })
      | _ => some s
  | .cut _ => some (s.put k { c with writing := false })
  | .write _ j =>
    match c.replies[j]? with
    | some r => if r.queued then none else some (s.put k (write encodes c j r))
    | none => none
  | .finish _ j =>
    match c.replies[j]? with
    | some r =>
      if r.queued then
        some { s.put k { c with ids := c.ids.finish r.server, replies := c.replies.eraseIdx j } with
          held := counted s.held c.ids.count (c.ids.finish r.server).count }
      else none
    | none => none
  | _ => none

/-- A step of `forward`. -/
def stepForward (s : Link) : LinkAction → Option Link
  | .poll =>
    match s.forward, s.queue with
    | .polling, [] => some { s with forward := .polled }
    | .polling, d :: queue => some { s with forward := .holding d, queue := queue }
    | _, _ => none
  | .idle =>
    match s.forward with
    | .polled =>
      if s.draining = true ∧ s.held = 0 then some { s with forward := .ended }
      else some { s with forward := .polling }
    | _ => none
  | .hand =>
    match s.forward with
    | .holding d =>
      if s.left then some ({ s with forward := .ended }.refuse d)
      else
        some { s with
          forward := .polling
          inbound := s.inbound ++ [d]
          acks := s.acks ++ d.ack.toList }
    | _ => none
  | .refuse =>
    match s.forward, s.queue with
    | .ended, d :: queue => some ({ s with queue := queue }.refuse d)
    | _, _ => none
  | _ => none

/-- The connection an action is a step of. -/
def connectionOf : LinkAction → Option ℕ
  | .frame k _ | .queue k | .close k | .drainIds k _ | .orphan k | .lower k | .reply k _
  | .cut k | .write k _ | .finish k _ => some k
  | _ => none

/-- One step. -/
def step (encodes : Frame → Bool) (s : Link) (a : LinkAction) : Option Link :=
  match connectionOf a with
  | some k => s.connections[k]?.bind fun c => stepConnection encodes s k c a
  | none =>
    match a with
    | .accept => some { s with connections := s.connections ++ [{}] }
    | .settle i => s.acks[i]?.map fun ack => { s with acks := s.acks.eraseIdx i }.release ack
    | .drain => some { s with draining := true }
    | .leave => some { s with left := true }
    | a => stepForward s a

end Link

/-- **The link's machine.** A reply's frame may fail to encode, or be too large. -/
def linkMachine (encodes : Frame → Bool) : Machine Link LinkAction where
  init := {}
  step := Link.step encodes

/-! ## What a step does -/

namespace Link

variable {encodes : Frame → Bool} {s s' : Link} {a : LinkAction} {k : ℕ} {c : Connection}

/-- **The steps**, one by one. -/
inductive LinkStep (encodes : Frame → Bool) (s : Link) : LinkAction → Link → Prop
  | accept : LinkStep encodes s .accept { s with connections := s.connections ++ [{}] }
  | asked {k : ℕ} {c : Connection} {f g : Frame} {id : ℕ} (hc : s.connections[k]? = some c)
      (hr : c.reader = .reading) (hf : f.opens = some id) (hg : g.opens = some s.nextId)
      (hgc : g.continues = none) :
      LinkStep encodes s (.frame k f) ((s.opening k c id).put k
        { c with
          ids := c.ids.open_ id s.nextId, reader := .mapped { frame := g, reply := some k } })
  | event {k : ℕ} {c : Connection} {f g : Frame} (hc : s.connections[k]? = some c)
      (hr : c.reader = .reading) (hf : f.opens = none) (hg : g.opens = none)
      (hgc : g.continues = none) :
      LinkStep encodes s (.frame k f)
        (s.put k { c with reader := .mapped { frame := g, reply := some k } })
  | continued {k : ℕ} {c : Connection} {f g : Frame} {id server : ℕ}
      (hc : s.connections[k]? = some c) (hr : c.reader = .reading) (hf : f.opens = none)
      (hserver : c.ids.byCaller.lookup id = some server) (hg : g.opens = none)
      (hgc : g.continues = some server) :
      LinkStep encodes s (.frame k f)
        (s.put k { c with reader := .mapped { frame := g, reply := some k } })
  | cancelled {k : ℕ} {c : Connection} {id server : ℕ} (hc : s.connections[k]? = some c)
      (hr : c.reader = .reading) (hserver : c.ids.byCaller.lookup id = some server) :
      LinkStep encodes s (.frame k (.cancel id)) (s.put k
        { c with
          ids := c.ids.cancel id server
          reader := .mapped { frame := .cancel server, reply := some k, ack := some (k, server) } })
  | ignored {k : ℕ} {c : Connection} {f : Frame} (hc : s.connections[k]? = some c)
      (hr : c.reader = .reading) (hf : f.opens = none) :
      LinkStep encodes s (.frame k f) (s.put k { c with reader := .reading })
  | queue {k : ℕ} {c : Connection} {d : Delivery} (hc : s.connections[k]? = some c)
      (hr : c.reader = .mapped d) :
      LinkStep encodes s (.queue k) { s.put k { c with reader := .reading } with
        queue := s.queue ++ [d]
        queued := s.queued ++ [d] }
  | close {k : ℕ} {c : Connection} (hc : s.connections[k]? = some c) (hr : c.reader = .reading) :
      LinkStep encodes s (.close k) (s.put k { c with reader := .closed })
  | drainIds {k : ℕ} {c : Connection} {orphaned : List ℕ} (hc : s.connections[k]? = some c)
      (hr : c.reader = .closed) (hperm : orphaned.Perm c.ids.live) :
      LinkStep encodes s (.drainIds k orphaned) (s.put k
        { c with
          ids := c.ids.drain orphaned
          reader := .draining orphaned orphaned.length })
  | orphan {k : ℕ} {c : Connection} {server : ℕ} {orphaned : List ℕ} {count : ℕ}
      (hc : s.connections[k]? = some c) (hr : c.reader = .draining (server :: orphaned) count) :
      LinkStep encodes s (.orphan k) { s.put k { c with reader := .draining orphaned count } with
        queue := s.queue ++ [{ frame := .cancel server, reply := none }]
        queued := s.queued ++ [{ frame := .cancel server, reply := none }] }
  | lower {k : ℕ} {c : Connection} {count : ℕ} (hc : s.connections[k]? = some c)
      (hr : c.reader = .draining [] count) :
      LinkStep encodes s (.lower k)
        { s.put k { c with reader := .ended } with held := s.held - count }
  | replied {k : ℕ} {c : Connection} {f : Frame} {id server : ℕ}
      (hc : s.connections[k]? = some c) (hf : f.id = some server)
      (hserver : c.ids.byServer.lookup server = some (.live id)) :
      LinkStep encodes s (.reply k f) (s.put k
        { c with replies := c.replies ++ [{ frame := f, server := server, caller := id }] })
  | unsent {k : ℕ} {f : Frame} : LinkStep encodes s (.reply k f) s
  | cut {k : ℕ} {c : Connection} (hc : s.connections[k]? = some c) :
      LinkStep encodes s (.cut k) (s.put k { c with writing := false })
  | write {k j : ℕ} {c : Connection} {r : Reply} (hc : s.connections[k]? = some c)
      (hr : c.replies[j]? = some r) (hq : r.queued = false) :
      LinkStep encodes s (.write k j) (s.put k (write encodes c j r))
  | finish {k j : ℕ} {c : Connection} {r : Reply} (hc : s.connections[k]? = some c)
      (hr : c.replies[j]? = some r) (hq : r.queued = true) :
      LinkStep encodes s (.finish k j)
        { s.put k { c with
            ids := c.ids.finish r.server
            replies := c.replies.eraseIdx j } with
          held := counted s.held c.ids.count (c.ids.finish r.server).count }
  | settle {i : ℕ} {ack : ℕ × ℕ} (hack : s.acks[i]? = some ack) :
      LinkStep encodes s (.settle i) ({ s with acks := s.acks.eraseIdx i }.release ack)
  | drain : LinkStep encodes s .drain { s with draining := true }
  | leave : LinkStep encodes s .leave { s with left := true }
  | polled (hforward : s.forward = .polling) (hqueue : s.queue = []) :
      LinkStep encodes s .poll { s with forward := .polled }
  | took {d : Delivery} {queue : List Delivery} (hforward : s.forward = .polling)
      (hqueue : s.queue = d :: queue) :
      LinkStep encodes s .poll { s with forward := .holding d, queue := queue }
  | ended (hforward : s.forward = .polled) (hdraining : s.draining = true) (hheld : s.held = 0) :
      LinkStep encodes s .idle { s with forward := .ended }
  | pending (hforward : s.forward = .polled) :
      LinkStep encodes s .idle { s with forward := .polling }
  | unreceived {d : Delivery} (hforward : s.forward = .holding d) (hleft : s.left = true) :
      LinkStep encodes s .hand ({ s with forward := .ended }.refuse d)
  | handed {d : Delivery} (hforward : s.forward = .holding d) (hleft : s.left = false) :
      LinkStep encodes s .hand { s with
        forward := .polling
        inbound := s.inbound ++ [d]
        acks := s.acks ++ d.ack.toList }
  | refuse {d : Delivery} {queue : List Delivery} (hforward : s.forward = .ended)
      (hqueue : s.queue = d :: queue) :
      LinkStep encodes s .refuse ({ s with queue := queue }.refuse d)

/-- What a reader does with a frame. -/
theorem read_spec {f : Frame} (hc : s.connections[k]? = some c) (hr : c.reader = .reading) :
    LinkStep encodes s (.frame k f) (s.read k c f) := by
  cases f with
  | req | open_ => exact .asked hc hr rfl rfl rfl
  | evt => exact .event hc hr rfl rfl rfl
  | in_ id | inEnd id =>
    cases hserver : c.ids.byCaller.lookup id with
    | none =>
      simp only [read, inward, Ids.server, hserver, Frame.opens, Option.map_none, readerOf]
      exact .ignored hc hr rfl
    | some server =>
      simp only [read, inward, Ids.server, hserver, Frame.opens, Option.map_some, readerOf, ackOf]
      exact .continued hc hr rfl hserver rfl rfl
  | cancel id =>
    cases hserver : c.ids.byCaller.lookup id with
    | none =>
      simp only [read, inward, Ids.server, hserver, Frame.opens, readerOf]
      exact .ignored hc hr rfl
    | some server =>
      simp only [read, inward, Ids.server, hserver, Frame.opens, readerOf, ackOf]
      exact .cancelled hc hr hserver
  | res | err | item | end_ | credit | goaway => exact .ignored hc hr rfl

theorem stepConnection_spec (hc : s.connections[k]? = some c) (ha : connectionOf a = some k)
    (h : stepConnection encodes s k c a = some s') : LinkStep encodes s a s' := by
  cases a with cases ha <;> simp only [stepConnection] at h
  | frame =>
    split at h <;> cases h
    exact read_spec hc ‹_›
  | queue =>
    split at h <;> cases h
    exact .queue hc ‹_›
  | close =>
    split at h <;> cases h
    exact .close hc ‹_›
  | drainIds =>
    split at h
    · split at h <;> cases h
      exact .drainIds hc ‹_› (List.isPerm_iff.mp ‹_›)
    · cases h
  | orphan =>
    split at h <;> cases h
    exact .orphan hc ‹_›
  | lower =>
    split at h <;> cases h
    exact .lower hc ‹_›
  | reply =>
    split at h
    · cases h
      exact .unsent
    · split at h <;> cases h
      · exact .replied hc ‹_› ‹_›
      · exact .unsent
  | cut =>
    cases h
    exact .cut hc
  | write =>
    split at h
    · split at h <;> cases h
      exact .write hc ‹_› (Bool.eq_false_iff.mpr ‹_›)
    · cases h
  | finish =>
    split at h
    · split at h <;> cases h
      exact .finish hc ‹_› ‹_›
    · cases h

theorem stepForward_spec (h : stepForward s a = some s') : LinkStep encodes s a s' := by
  cases a with simp only [stepForward] at h
  | poll =>
    split at h <;> cases h
    · exact .polled ‹_› ‹_›
    · exact .took ‹_› ‹_›
  | idle =>
    split at h
    · split at h <;> cases h
      · exact .ended ‹_› (And.left ‹_›) (And.right ‹_›)
      · exact .pending ‹_›
    · cases h
  | hand =>
    split at h
    · split at h <;> cases h
      · exact .unreceived ‹_› ‹_›
      · exact .handed ‹_› (Bool.eq_false_iff.mpr ‹_›)
    · cases h
  | refuse =>
    split at h <;> cases h
    exact .refuse ‹_› ‹_›
  | _ => cases h

/-- **What a step can do.** -/
theorem step_spec (h : (linkMachine encodes).step s a = some s') : LinkStep encodes s a s' := by
  have h' : step encodes s a = some s' := h
  cases ha : connectionOf a with
  | some =>
    simp only [step, ha, Option.bind_eq_some_iff] at h'
    obtain ⟨c, hc, h'⟩ := h'
    exact stepConnection_spec hc ha h'
  | none =>
    cases a with
    | accept => cases h'; exact .accept
    | settle =>
      obtain ⟨ack, hack, rfl⟩ := Option.map_eq_some_iff.mp h'
      exact .settle hack
    | drain => cases h'; exact .drain
    | leave => cases h'; exact .leave
    | poll | idle | hand | refuse => exact stepForward_spec h'
    | _ => cases ha

/-- What the drop of an `Ack` changes. -/
theorem release_spec (s : Link) (ack : Option (ℕ × ℕ)) :
    s.release ack = s ∨ ∃ k server c, ack = some (k, server) ∧ s.connections[k]? = some c ∧
      s.release ack = { s.put k { c with ids := c.ids.release server } with
        held := counted s.held c.ids.count (c.ids.release server).count } := by
  cases ack with
  | none => exact .inl rfl
  | some ack =>
    obtain ⟨k, server⟩ := ack
    cases hc : s.connections[k]? with
    | none => exact .inl (by simp only [release, hc])
    | some c => exact .inr ⟨k, server, c, rfl, hc, by simp only [release, hc]⟩

end Link

end Ulo.Rpc
