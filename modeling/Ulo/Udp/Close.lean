import Ulo.Lib.List
import Ulo.Lib.Machine
import Ulo.Rpc.Frame
import Ulo.Udp.Ids

/-!
# The close of a UDP server

One task reads the socket. It opens a call for each request, under an id of the server's own, and
hands it to the inbound stream; once the server drains and holds no call it ends the stream and
refuses what still arrives. Replies are queued, and `cancel`s settled, by other tasks, each in one
hold of the table's lock. `close` answers every call that is held, in one hold of the lock, and
marks the table closed, so that the task, which may be anywhere between two awaits, opens nothing
more; it then stops the task and refuses what the socket's buffer still has.

So a call leaves the table in one of four ways – answered by its own, at the close, cancelled, or
superseded by a request under the same address and id –, and no ending datagram is queued for one
that has left (`Held`). A request is refused, or its call opened, in the step that reads it
(`Asked`); and an opened call is on the stream unless the task stopped as it handed it over, in
which case nothing else can have happened to it (`Handed`). `answers_every_call` puts these
together for every run.

The steps are as fine as the awaits and the lock make them: the receive task up to its next await,
a reply in one hold of the lock, `close` in its parts. `Moves` says once what such a step can do,
and each of the three invariants is kept move by move, so that a change to one of the source's
functions is a change to its move and to the lemma of that name.
-/

namespace Ulo.Udp

open List Ulo.Rpc Option Function AList Bool

variable {Addr : Type} [DecidableEq Addr]

/-- `unavailable` -/
def unavailable (id : ℕ) : Frame :=
  .err id { kind := .unavailable, message := "the server is shutting down" }

/-- A sender's frame under the server's id. -/
def inId (id : ℕ) : Frame → Frame
  | .req _ pattern headers data => .req id pattern headers data
  | .open_ _ pattern headers => .open_ id pattern headers
  | .in_ _ data => .in_ id data
  | .inEnd _ => .inEnd id
  | .cancel _ => .cancel id
  | frame => frame

/-- `with_id` -/
def withId (id : ℕ) : Frame → Frame
  | .res _ data => .res id data
  | .err _ error => .err id error
  | .item _ data => .item id data
  | .end_ _ => .end_ id
  | frame => frame

/-- A frame for the inbound stream, with the address its reply path writes to. -/
structure Delivery (Addr : Type) where
  frame : Frame
  peer : Addr

/-- A datagram that was queued, and what it is for. -/
inductive Queued (Addr : Type)
  | reply (server : ℕ) (dest : Addr) (frame : Frame)
  | atClose (server : ℕ) (dest : Addr) (frame : Frame)
  | refusal (request : ℕ) (dest : Addr) (frame : Frame)

namespace Queued

/-- Whether it is a call's own ending reply. -/
def ownEnds (server : ℕ) : Queued Addr → Bool
  | reply s _ frame => s = server && frame.ends
  | _ => false

/-- Whether it is the answer of `close` to a call. -/
def closes (server : ℕ) : Queued Addr → Bool
  | atClose s _ _ => s = server
  | _ => false

/-- Whether it refuses a request. -/
def refuses (request : ℕ) : Queued Addr → Bool
  | refusal n _ _ => n = request
  | _ => false

end Queued

/-- Where the receive task stands: each is an await. -/
inductive Stage (Addr : Type)
  | selecting
  | refusing
  | delivering (d : Delivery Addr)
  | stopped

/-- What became of a request. -/
inductive Fate
  | refused
  | opened (server : ℕ)
deriving DecidableEq

/-- A request or streamed request that was decoded. -/
structure Request (Addr : Type) where
  peer : Addr
  id : ℕ
  fate : Fate

/-- Who sent a request, under which id. -/
def Request.sender (r : Request Addr) : Addr × ℕ := (r.peer, r.id)

/-- Where `close` stands. -/
inductive Closing
  | no
  | swept
  /-- the receive task has ended -/
  | joined
  | done
deriving DecidableEq

/-- **A UDP server.** -/
structure Server (Addr : Type) [DecidableEq Addr] where
  ids : Ids Addr := {}
  next : ℕ := 1
  draining : Bool := false
  stage : Stage Addr := .selecting
  /-- whether the receive task has its sender: it gives it up in a drain -/
  deliveries : Bool := true
  stream : List (Delivery Addr) := []
  /-- the `cancel`s whose `Ack` has not settled or dropped -/
  acks : List ℕ := []
  out : List (Queued Addr) := []
  closing : Closing := .no
  requests : List (Request Addr) := []
  /-- the sender of each call that was opened -/
  calls : ℕ → Option (Addr × ℕ) := fun _ => none
  cancelled : List ℕ := []
  superseded : List ℕ := []

/-- A step of the receive task, of a call's task, of the server or of `close`. -/
inductive Action (Addr : Type)
  | datagram (peer : Addr) (frame : Frame)
  /-- a refusal's send is over -/
  | refused
  | deliver
  /-- the inbound stream was dropped -/
  | gone
  | idle
  | fail
  | reply (frame : Frame) (encodes : Bool)
  /-- a `cancel`'s `Ack` settles, or drops -/
  | settle (server : ℕ)
  | drain
  | sweep
  | stop
  | finalRead (peer : Addr) (frame : Frame)
  | finish

/-- The request that a datagram makes, by its sender and id. -/
def Action.asks : Action Addr → Option (Addr × ℕ)
  | .datagram peer frame | .finalRead peer frame => frame.opens.map fun id => (peer, id)
  | _ => none

namespace Server

variable {s s' : Server Addr} {a : Action Addr} {peer : Addr} {frame : Frame} {server : ℕ}

/-- How many ending replies of its own were queued for a call, answers of `close`, and refusals
of a request. -/
def ownEndings (s : Server Addr) (server : ℕ) : ℕ := s.out.countP (Queued.ownEnds server)

def closeAnswers (s : Server Addr) (server : ℕ) : ℕ := s.out.countP (Queued.closes server)

def refusals (s : Server Addr) (request : ℕ) : ℕ := s.out.countP (Queued.refuses request)

/-- Whether the inbound stream has the request of a call. -/
def yields (s : Server Addr) (server : ℕ) : Bool :=
  s.stream.any fun d => d.frame.opens = some server

/-- `refuse`, and `refuse_after_close` -/
def refuse (s : Server Addr) (peer : Addr) (frame : Frame) : Server Addr :=
  match frame.opens with
  | some id =>
    { s with
      requests := s.requests ++ [⟨peer, id, .refused⟩]
      out := s.out ++ [.refusal s.requests.length peer (unavailable id)] }
  | none => s

/-- A frame is about to be sent to the inbound stream. -/
def handOver (s : Server Addr) (peer : Addr) (frame : Frame) : Server Addr :=
  { s with stage := .delivering ⟨frame, peer⟩ }

/-- A call is opened. -/
def openCall (s : Server Addr) (peer : Addr) (id : ℕ) : Server Addr :=
  { s with
    ids := s.ids.open_ peer id s.next
    next := s.next + 1
    requests := s.requests ++ [⟨peer, id, .opened s.next⟩]
    calls := Function.update s.calls s.next (some (peer, id))
    superseded := s.superseded ++ (s.ids.byCaller.lookup (peer, id)).toList }

/-- A call is cancelled, and the `cancel` has an `Ack` that forgets it. -/
def cancelCall (s : Server Addr) (peer : Addr) (id server : ℕ) : Server Addr :=
  { s with
    ids := s.ids.cancel peer id server
    acks := s.acks ++ [server]
    cancelled := s.cancelled ++ [server] }

/-- `inward`, and what the receive loop does with its answer -/
def inward (s : Server Addr) (peer : Addr) (frame : Frame) : Server Addr :=
  match frame with
  | .req id _ _ _ | .open_ id _ _ =>
    if s.ids.closed then s.refuse peer frame
    else (s.openCall peer id).handOver peer (inId s.next frame)
  | .evt _ _ _ => s.handOver peer frame
  | .in_ id _ | .inEnd id =>
    match s.ids.byCaller.lookup (peer, id) with
    | some server => s.handOver peer (inId server frame)
    | none => s
  | .cancel id =>
    match s.ids.byCaller.lookup (peer, id) with
    | some server => (s.cancelCall peer id server).handOver peer (inId server frame)
    | none => s
  | _ => s

/-- `queue_reply`, through the path of the call's sender -/
def queueReply (s : Server Addr) (server : ℕ) (frame : Frame) (encodes : Bool) : Server Addr :=
  match s.ids.byServer.lookup server, s.calls server with
  | some (.live _ caller), some (peer, _) =>
    if encodes then
      let s' := { s with out := s.out ++ [.reply server peer (withId caller frame)] }
      if frame.ends then { s' with ids := s.ids.finish server } else s'
    else s
  | _, _ => s

/-- `answer_held` -/
def answerHeld (s : Server Addr) : Server Addr :=
  { s with
    ids := s.ids.forgetAll
    out := s.out ++ s.ids.addressed.map fun e => .atClose e.1 e.2.1 (unavailable e.2.2) }

/-- **What a step does.** -/
def step (s : Server Addr) : Action Addr → Option (Server Addr)
  | .datagram peer frame =>
    match s.stage with
    | .selecting =>
      if s.deliveries then some (s.inward peer frame)
      else if frame.opens.isSome then some { s.refuse peer frame with stage := .refusing }
      else some s
    | _ => none
  | .refused =>
    match s.stage with
    | .refusing => some { s with stage := .selecting }
    | _ => none
  | .deliver =>
    match s.stage with
    | .delivering d => some { s with stream := s.stream ++ [d], stage := .selecting }
    | _ => none
  | .gone =>
    match s.stage with
    | .delivering _ => some { s with stage := .stopped }
    | _ => none
  | .idle =>
    match s.stage with
    | .selecting =>
      if s.deliveries && s.draining && s.ids.held = 0 then some { s with deliveries := false }
      else none
    | _ => none
  | .fail =>
    match s.stage with
    | .selecting => some { s with stage := .stopped }
    | _ => none
  | .reply frame encodes =>
    match frame.id with
    | some server => if s.yields server then some (s.queueReply server frame encodes) else none
    | none => some s
  | .settle server =>
    if server ∈ s.acks then
      some { s with ids := s.ids.release server, acks := s.acks.erase server }
    else none
  | .drain => some { s with draining := true }
  | .sweep => if s.closing = .no then some { s.answerHeld with closing := .swept } else none
  | .stop =>
    if s.closing = .swept then some { s with stage := .stopped, closing := .joined } else none
  | .finalRead peer frame => if s.closing = .joined then some (s.refuse peer frame) else none
  | .finish => if s.closing = .joined then some { s with closing := .done } else none

end Server

/-- **A server that listens.** -/
def serverMachine (Addr : Type) [DecidableEq Addr] : Machine (Server Addr) (Action Addr) where
  init := {}
  step s a := s.step a

namespace Server

variable {s s' : Server Addr} {a : Action Addr} {peer : Addr} {frame : Frame} {server : ℕ}

/-- **What a step can do.** -/
inductive Moves (s : Server Addr) : Server Addr → Prop
  | same : Moves s s
  | awake : s.stage = .refusing → Moves s { s with stage := .selecting }
  | deliver (d : Delivery Addr) : s.stage = .delivering d →
      Moves s { s with stream := s.stream ++ [d], stage := .selecting }
  /-- the receive task returns, or is aborted by `close` -/
  | stop (closing : Closing) : closing = s.closing ∨ s.closing = .swept →
      Moves s { s with stage := .stopped, closing }
  | endStream : s.stage = .selecting → s.draining = true → s.ids.held = 0 →
      Moves s { s with deliveries := false }
  | refuse (peer : Addr) (frame : Frame) : Moves s (s.refuse peer frame)
  | refusing (peer : Addr) (frame : Frame) : s.stage = .selecting →
      Moves s { s.refuse peer frame with stage := .refusing }
  | openCall (peer : Addr) (id : ℕ) (frame : Frame) : s.stage = .selecting →
      s.deliveries = true → s.ids.closed = false → frame.opens = some s.next →
      Moves s ((s.openCall peer id).handOver peer frame)
  | handOver (peer : Addr) (frame : Frame) : s.stage = .selecting → s.deliveries = true →
      Moves s (s.handOver peer frame)
  | cancelCall (peer : Addr) (id server : ℕ) : s.stage = .selecting → s.deliveries = true →
      s.ids.byCaller.lookup (peer, id) = some server →
      Moves s ((s.cancelCall peer id server).handOver peer (.cancel server))
  | queueReply (server : ℕ) (frame : Frame) (encodes : Bool) : s.yields server = true →
      Moves s (s.queueReply server frame encodes)
  | settle (server : ℕ) : server ∈ s.acks →
      Moves s { s with ids := s.ids.release server, acks := s.acks.erase server }
  | drain : Moves s { s with draining := true }
  | sweep : s.closing = .no → Moves s { s.answerHeld with closing := .swept }
  | finish : s.closing = .joined → Moves s { s with closing := .done }

theorem moves_inward (hstage : s.stage = .selecting) (hdeliveries : s.deliveries = true) :
    Moves s (s.inward peer frame) := by
  cases frame with
  | req id | open_ id =>
    simp only [inward]
    split
    · exact .refuse peer _
    · rename_i hclosed
      exact .openCall peer id _ hstage hdeliveries (eq_false_iff.mpr hclosed) rfl
  | evt => exact .handOver peer _ hstage hdeliveries
  | in_ | inEnd =>
    simp only [inward]
    split
    · exact .handOver peer _ hstage hdeliveries
    · exact .same
  | cancel id =>
    simp only [inward]
    split
    · rename_i server hserver
      exact .cancelCall peer id server hstage hdeliveries hserver
    · exact .same
  | _ => exact .same

theorem moves_of_step (h : s.step a = some s') : Moves s s' := by
  cases a with simp only [step] at h
  | datagram peer frame =>
    split at h
    · rename_i hstage
      split at h
      · rename_i hdeliveries
        cases h
        exact moves_inward hstage hdeliveries
      · split at h <;> cases h
        · exact .refusing peer frame hstage
        · exact .same
    · cases h
  | refused =>
    split at h <;> cases h
    rename_i hstage
    exact .awake hstage
  | deliver =>
    split at h <;> cases h
    rename_i d hstage
    exact .deliver d hstage
  | gone | fail =>
    split at h <;> cases h
    exact .stop s.closing (.inl rfl)
  | idle =>
    split at h
    · rename_i hstage
      obtain ⟨hguard, h⟩ := ite_none_right_eq_some.mp h
      cases h
      simp only [and_eq_true, decide_eq_true_eq] at hguard
      exact .endStream hstage hguard.1.2 hguard.2
    · cases h
  | reply frame encodes =>
    split at h
    · obtain ⟨hyields, h⟩ := ite_none_right_eq_some.mp h
      cases h
      exact .queueReply _ frame encodes hyields
    · cases h
      exact .same
  | settle server =>
    obtain ⟨hack, h⟩ := ite_none_right_eq_some.mp h
    cases h
    exact .settle server hack
  | drain =>
    cases h
    exact .drain
  | sweep =>
    obtain ⟨hclosing, h⟩ := ite_none_right_eq_some.mp h
    cases h
    exact .sweep hclosing
  | stop =>
    obtain ⟨hclosing, h⟩ := ite_none_right_eq_some.mp h
    cases h
    exact .stop .joined (.inr hclosing)
  | finalRead peer frame =>
    obtain ⟨-, h⟩ := ite_none_right_eq_some.mp h
    cases h
    exact .refuse peer frame
  | finish =>
    obtain ⟨hclosing, h⟩ := ite_none_right_eq_some.mp h
    cases h
    exact .finish hclosing

/-! ## The calls that are held

All that the server knows of a call is a `View`: its sender, its entry in the table, whether it was
cancelled or superseded, and how many ending datagrams were queued for it. A call leaves the table
in one way only, so that a view is one of five (`View.Fine`), and a step changes the views of the
calls it is about and no others. -/

/-- **What is known of a call.** -/
structure View (Addr : Type) where
  call : Option (Addr × ℕ)
  entry : Option (Caller Addr)
  cancelled : Bool
  superseded : Bool
  own : ℕ
  close : ℕ

namespace View

/-- **The life of a call**: not opened, held, or gone in one way. -/
inductive Fine : View Addr → Prop
  | unknown : Fine ⟨none, none, false, false, 0, 0⟩
  | live (peer : Addr) (caller : ℕ) :
      Fine ⟨some (peer, caller), some (.live peer caller), false, false, 0, 0⟩
  | cancelled (call : Addr × ℕ) {entry : Option (Caller Addr)}
      (h : entry = none ∨ entry = some .cancelled) : Fine ⟨some call, entry, true, false, 0, 0⟩
  | superseded (call : Addr × ℕ) : Fine ⟨some call, none, false, true, 0, 0⟩
  | answered (call : Addr × ℕ) {own close : ℕ} (h : own + close = 1) :
      Fine ⟨some call, none, false, false, own, close⟩

variable {v : View Addr} (h : v.Fine)
include h

omit [DecidableEq Addr]

theorem Fine.eq_unknown (hcall : v.call = none) : v = ⟨none, none, false, false, 0, 0⟩ := by
  cases h with
  | unknown => rfl
  | _ => cases hcall

theorem Fine.eq_live {caller : ℕ} (hentry : v.entry = some (.live peer caller)) :
    v = ⟨some (peer, caller), some (.live peer caller), false, false, 0, 0⟩ := by
  cases h with
  | live =>
    cases hentry
    rfl
  | cancelled call hnot => rcases hnot with rfl | rfl <;> cases hentry
  | _ => cases hentry

/-- A call that is not held is forgotten. -/
theorem Fine.forget (hnot : ∀ peer caller, v.entry ≠ some (.live peer caller)) :
    Fine { v with entry := none } := by
  cases h with
  | live peer caller => exact absurd rfl (hnot peer caller)
  | unknown => exact .unknown
  | cancelled call => exact .cancelled call (.inl rfl)
  | superseded call => exact .superseded call
  | answered call hone => exact .answered call hone

theorem Fine.once : v.own + v.close ≤ 1 := by
  cases h with
  | answered call hone => exact Nat.le_of_eq hone
  | _ => exact Nat.zero_le 1

theorem Fine.left (hcall : v.call ≠ none) (hentry : v.entry = none) :
    v.cancelled = true ∨ v.superseded = true ∨ v.own + v.close = 1 := by
  cases h with
  | unknown => exact absurd rfl hcall
  | live => cases hentry
  | cancelled => exact .inl rfl
  | superseded => exact .inr (.inl rfl)
  | answered call hone => exact .inr (.inr hone)

end View

/-- What the server knows of a call. -/
def view (s : Server Addr) (k : ℕ) : View Addr :=
  ⟨s.calls k, s.ids.byServer.lookup k, s.cancelled.contains k, s.superseded.contains k,
    s.ownEndings k, s.closeAnswers k⟩

/-- **Where each call is.** -/
structure Held (s : Server Addr) : Prop where
  ok : s.ids.Ok
  fine : ∀ k, (s.view k).Fine
  fresh : ∀ k, s.next ≤ k → s.calls k = none
  acks : ∀ k ∈ s.acks, k ∈ s.cancelled
  atClose : ∀ k dest frame, .atClose k dest frame ∈ s.out →
    ∃ caller, s.calls k = some (dest, caller) ∧ frame = unavailable caller
  closed : s.ids.closed = true → ∀ k, s.ids.byServer.lookup k = none

theorem Held.init : Held ({} : Server Addr) where
  ok := .init
  fine _ := .unknown
  fresh _ _ := rfl
  acks _ h := by cases h
  atClose _ _ _ h := by cases h
  closed h := by cases h

/-! ### The views after a step -/

theorem view_send {q : Queued Addr} {requests : List (Request Addr)}
    (hown : ∀ k, q.ownEnds k = false) (hclose : ∀ k, q.closes k = false) (k : ℕ) :
    view { s with out := s.out ++ [q], requests } k = s.view k := by
  simp [view, ownEndings, closeAnswers, hown, hclose]

theorem view_openCall (id : ℕ) (hnot : s.ids.byCaller.lookup (peer, id) ≠ some s.next) (k : ℕ) :
    (s.openCall peer id).view k =
      if k = s.next then { s.view k with call := some (peer, id), entry := some (.live peer id) }
      else if s.ids.byCaller.lookup (peer, id) = some k then
        { s.view k with entry := none, superseded := true }
      else s.view k := by
  split_ifs <;> simp [view, Server.openCall, Ids.lookup_open, ownEndings, closeAnswers, *]

theorem view_cancelCall (id k : ℕ) : (s.cancelCall peer id server).view k =
    if k = server then { s.view k with entry := some .cancelled, cancelled := true }
    else s.view k := by
  split_ifs <;> simp [view, Server.cancelCall, Ids.lookup_cancel, ownEndings, closeAnswers, *]

theorem view_release (k : ℕ) {acks : List ℕ} :
    view { s with ids := s.ids.release server, acks } k =
      if k = server then { s.view k with entry := none } else s.view k := by
  split_ifs <;> simp [view, Ids.lookup_release, ownEndings, closeAnswers, *]

theorem view_answer {dest p : Addr} {c : ℕ}
    (hlive : s.ids.byServer.lookup server = some (.live p c)) (hends : frame.ends = true) (k : ℕ) :
    view { s with ids := s.ids.finish server, out := s.out ++ [.reply server dest frame] } k =
      if k = server then { s.view k with entry := none, own := (s.view k).own + 1 }
      else s.view k := by
  split_ifs <;>
    simp [view, Ids.lookup_finish hlive, ownEndings, closeAnswers, Queued.ownEnds, Queued.closes,
      Ne.symm, *]

theorem view_answerHeld (s : Server Addr) (k : ℕ) : s.answerHeld.view k = { s.view k with
    entry := none
    close := (s.view k).close + (s.ids.addressed.map Prod.fst).count k } := by
  simp only [view, Server.answerHeld, ownEndings, closeAnswers, countP_append, countP_map, count]
  refine congr (congrArg _ (Nat.add_eq_left.mpr (countP_eq_zero.mpr fun _ _ => false_ne_true))) ?_
  refine congrArg (_ + ·) (countP_congr fun e _ => ?_)
  simp [Queued.closes]

section Held

variable (hs : s.Held) {k : ℕ}
include hs

theorem Held.view_next : s.view s.next = ⟨none, none, false, false, 0, 0⟩ :=
  (hs.fine s.next).eq_unknown (hs.fresh s.next (Nat.le_refl _))

theorem Held.ne_next (id : ℕ) : s.ids.byCaller.lookup (peer, id) ≠ some s.next := fun h => by
  cases (congrArg View.entry hs.view_next).symm.trans ((hs.ok.both peer id s.next).mp h)

theorem Held.view_live {caller : ℕ} (h : s.ids.byServer.lookup k = some (.live peer caller)) :
    s.view k = ⟨some (peer, caller), some (.live peer caller), false, false, 0, 0⟩ :=
  (hs.fine k).eq_live h

/-- A call whose sender has it in the table is held. -/
theorem Held.view_byCaller {id : ℕ} (h : s.ids.byCaller.lookup (peer, id) = some k) :
    s.view k = ⟨some (peer, id), some (.live peer id), false, false, 0, 0⟩ :=
  hs.view_live ((hs.ok.both peer id k).mp h)

/-- A datagram that is queued and ends no call. -/
theorem Held.send {q : Queued Addr} (requests : List (Request Addr))
    (hown : ∀ k, q.ownEnds k = false) (hclose : ∀ k, q.closes k = false) :
    Held { s with out := s.out ++ [q], requests } := by
  refine { hs with
    fine := fun k => ?_
    atClose := fun k dest frame h => hs.atClose k dest frame ?_ }
  · rw [view_send hown hclose]
    exact hs.fine k
  · refine (mem_snoc.mp h).resolve_right ?_
    rintro rfl
    exact absurd (hclose k) (by simp [Queued.closes])

theorem Held.refuse (peer : Addr) (frame : Frame) : (s.refuse peer frame).Held := by
  unfold Server.refuse
  split
  · exact hs.send _ (fun _ => rfl) fun _ => rfl
  · exact hs

/-- **A call is opened**, and takes the place of an earlier one under the same address and id. -/
theorem Held.openCall (hclosed : s.ids.closed = false) (peer : Addr) (id : ℕ) :
    (s.openCall peer id).Held := by
  have hnew := hs.view_next
  have hnone : s.ids.byServer.lookup s.next = none := congrArg View.entry hnew
  refine ⟨hs.ok.open_ hnone, fun k => ?_, fun k hk => ?_, hs.acks, fun k dest frame h => ?_,
    fun h => ?_⟩
  · rw [view_openCall id (hs.ne_next id)]
    split_ifs with hk hstale
    · rw [hk, hnew]
      exact .live peer id
    · rw [hs.view_byCaller hstale]
      exact .superseded (peer, id)
    · exact hs.fine k
  · have hk : s.next + 1 ≤ k := hk
    have hcall : (s.openCall peer id).calls k = s.calls k := update_of_ne (by omega) _ _
    rw [hcall]
    exact hs.fresh k (by omega)
  · obtain ⟨caller, hcall, hframe⟩ := hs.atClose k dest frame h
    have hk : k ≠ s.next := fun hk => by
      rw [hk, hs.fresh _ (Nat.le_refl _)] at hcall
      cases hcall
    exact ⟨caller, (update_of_ne hk _ _).trans hcall, hframe⟩
  · cases hclosed.symm.trans h

/-- **A call is cancelled** by its sender. -/
theorem Held.cancelCall {id : ℕ} (hserver : s.ids.byCaller.lookup (peer, id) = some server) :
    (s.cancelCall peer id server).Held := by
  have hlive := hs.view_byCaller hserver
  refine ⟨hs.ok.cancel hserver, fun k => ?_, hs.fresh, fun k h => ?_, hs.atClose, fun h => ?_⟩
  · rw [view_cancelCall]
    split_ifs with hk
    · rw [hk, hlive]
      exact .cancelled (peer, id) (.inr rfl)
    · exact hs.fine k
  · exact mem_snoc.mpr ((mem_snoc.mp h).imp_left (hs.acks k))
  · have hnone := hs.closed h server
    cases hnone.symm.trans (congrArg View.entry hlive)

/-- A `cancel` has been taken, or dropped. -/
theorem Held.settle (hack : server ∈ s.acks) :
    Held { s with ids := s.ids.release server, acks := s.acks.erase server } := by
  have hnot (p : Addr) (c : ℕ) : s.ids.byServer.lookup server ≠ some (.live p c) := by
    intro h
    have hcancelled := congrArg View.cancelled (hs.view_live h)
    rw [view, contains_iff_mem.mpr (hs.acks server hack)] at hcancelled
    cases hcancelled
  refine { hs with
    ok := hs.ok.release hnot
    fine := fun k => ?_
    acks := fun k h => hs.acks k (mem_of_mem_erase h)
    closed := fun h k => ?_ }
  · rw [view_release]
    split_ifs with hk
    · exact (hs.fine k).forget (hk ▸ hnot)
    · exact hs.fine k
  · refine (Ids.lookup_release s.ids server k).trans ?_
    rw [hs.closed h k, ite_self]

/-- **A call is answered by its own**, and leaves the table. -/
theorem Held.answer {dest p : Addr} {c : ℕ}
    (hlive : s.ids.byServer.lookup server = some (.live p c)) (hends : frame.ends = true) :
    Held { s with
      ids := s.ids.finish server, out := s.out ++ [.reply server dest frame] } := by
  have hclosed : (s.ids.finish server).closed = s.ids.closed := by
    rw [Ids.finish, hlive]
    rfl
  refine ⟨hs.ok.finish hlive, fun k => ?_, hs.fresh, hs.acks, fun k d f h => ?_, fun h k => ?_⟩
  · rw [view_answer hlive hends]
    split_ifs with hk
    · rw [hk, hs.view_live hlive]
      exact .answered (p, c) rfl
    · exact hs.fine k
  · exact hs.atClose k d f ((mem_snoc.mp h).resolve_right (by simp))
  · refine (Ids.lookup_finish hlive k).trans ?_
    rw [hs.closed (hclosed.symm.trans h) k, ite_self]

omit hs [DecidableEq Addr] in
theorem ends_withId (id : ℕ) (frame : Frame) : (withId id frame).ends = frame.ends := by
  cases frame <;> rfl

theorem Held.queueReply (server : ℕ) (frame : Frame) (encodes : Bool) :
    (s.queueReply server frame encodes).Held := by
  unfold Server.queueReply
  split
  · rename_i hlive _
    split
    · dsimp only
      split
      · rename_i hends
        exact hs.answer hlive (by rwa [ends_withId])
      · rename_i hends
        refine hs.send _ (fun k => ?_) fun _ => rfl
        simp [Queued.ownEnds, ends_withId, hends]
    · exact hs
  · exact hs

/-- **`close` answers every call that is addressed**, and forgets the others. -/
theorem Held.answerHeld : s.answerHeld.Held := by
  refine ⟨.forgetAll _, fun k => ?_, hs.fresh, hs.acks, fun k d f h => ?_, fun _ _ => rfl⟩
  · rw [view_answerHeld]
    by_cases hlive : ∃ p c, s.ids.byServer.lookup k = some (.live p c)
    · obtain ⟨p, c, hlive⟩ := hlive
      have hone : (s.ids.addressed.map Prod.fst).count k = 1 :=
        count_eq_one_of_mem s.ids.nodup_addressed
          (mem_map.mpr ⟨_, Ids.mem_addressed.mpr hlive, rfl⟩)
      rw [hone, hs.view_live hlive]
      exact .answered (p, c) rfl
    · have hzero : (s.ids.addressed.map Prod.fst).count k = 0 := by
        refine count_eq_zero.mpr fun hmem => hlive ?_
        obtain ⟨⟨k', p, c⟩, hentry, rfl⟩ := mem_map.mp hmem
        exact ⟨p, c, Ids.mem_addressed.mp hentry⟩
      rw [hzero]
      exact (hs.fine k).forget fun p c h => hlive ⟨p, c, h⟩
  · rcases mem_append.mp h with h | h
    · exact hs.atClose k d f h
    · obtain ⟨⟨k', p, c⟩, hmem, heq⟩ := mem_map.mp h
      cases heq
      exact ⟨c, congrArg View.call (hs.view_live (Ids.mem_addressed.mp hmem)), rfl⟩

/-- Nothing is in the table of a link that holds no call. -/
theorem Held.lookup_of_idle (hzero : s.ids.held = 0) (server : ℕ) :
    s.ids.byServer.lookup server = none := by
  refine AList.lookup_eq_none.mpr fun hmem => ?_
  have hmem := AList.mem_keys.mp hmem
  rw [hs.ok.held] at hzero
  rw [length_eq_zero_iff.mp hzero] at hmem
  cases hmem

/-- **Every step keeps it.** -/
theorem Held.moves (h : Moves s s') : s'.Held := by
  cases h with
  | same => exact hs
  | awake | deliver | stop | endStream | handOver | drain | finish => exact { hs with }
  | refuse peer frame => exact hs.refuse peer frame
  | refusing peer frame =>
    have hrefuse := hs.refuse peer frame
    exact { hrefuse with }
  | openCall peer id frame _ _ hclosed =>
    have hopen := hs.openCall hclosed peer id
    exact { hopen with }
  | cancelCall peer id server _ _ hserver =>
    have hcancel := hs.cancelCall hserver
    exact { hcancel with }
  | queueReply server frame encodes => exact hs.queueReply server frame encodes
  | settle server hack => exact hs.settle hack
  | sweep =>
    have hanswer := hs.answerHeld
    exact { hanswer with }

end Held

/-! ## The requests that were read -/

/-- Every request that is read is written down, and nothing else. -/
theorem requests_of_step (h : s.step a = some s') :
    s'.requests.map Request.sender = s.requests.map Request.sender ++ a.asks.toList := by
  have hrefuse (peer : Addr) (frame : Frame) : (s.refuse peer frame).requests.map Request.sender =
      s.requests.map Request.sender ++ (frame.opens.map fun id => (peer, id)).toList := by
    unfold Server.refuse
    cases frame.opens <;> simp [Request.sender]
  cases a with simp only [step, Action.asks] at h ⊢
  | datagram peer frame =>
    cases frame <;> grind [inward, Frame.opens, handOver, openCall, cancelCall, Request.sender]
  | reply => grind [queueReply]
  | _ => grind [answerHeld]

/-- **What became of each request**: it was refused once, or its call opened under an id that no
other request has. -/
structure Asked (s : Server Addr) : Prop where
  counted : ∀ n, s.refusals n = if s.requests[n]?.any (·.fate = .refused) then 1 else 0
  refused : ∀ (n : ℕ) (r : Request Addr), s.requests[n]? = some r → r.fate = .refused →
    .refusal n r.peer (unavailable r.id) ∈ s.out
  opened : ∀ (n : ℕ) (r : Request Addr) (server : ℕ), s.requests[n]? = some r →
    r.fate = .opened server → s.calls server = some (r.peer, r.id)
  distinct : ∀ (m n : ℕ) (r r' : Request Addr) (server : ℕ), s.requests[m]? = some r →
    s.requests[n]? = some r' → r.fate = .opened server → r'.fate = .opened server → m = n

theorem Asked.init : Asked ({} : Server Addr) := by
  constructor <;> simp [refusals]

section Asked

variable (hs : s.Asked)
include hs

/-- Datagrams that refuse nothing change nothing. -/
theorem Asked.of_eq (hrequests : s'.requests = s.requests) (hcalls : s'.calls = s.calls)
    (hrefusals : ∀ n, s'.refusals n = s.refusals n) (hout : s.out ⊆ s'.out) : s'.Asked where
  counted n := by
    rw [hrefusals, hrequests]
    exact hs.counted n
  refused n r h hfate := hout (hs.refused n r (hrequests ▸ h) hfate)
  opened n r server h hfate := by
    rw [hcalls]
    exact hs.opened n r server (hrequests ▸ h) hfate
  distinct := by
    rw [hrequests]
    exact hs.distinct

theorem Asked.refuse (peer : Addr) (frame : Frame) : (s.refuse peer frame).Asked := by
  unfold Server.refuse
  split
  · rename_i id _
    refine ⟨fun n => ?_, forall_getElem?_concat (fun n r h hfate => ?_) fun _ => mem_concat_self,
      fun n r server h hfate => ?_, fun m n r r' server hr hr' hfate hfate' => ?_⟩
    · have hcounted := hs.counted n
      simp only [refusals, countP_append, countP_singleton, Queued.refuses] at hcounted ⊢
      rw [hcounted]
      by_cases hn : n = s.requests.length
      · subst hn
        simp
      · rw [getElem?_concat_ne hn]
        simp [Ne.symm hn]
    · exact mem_append_left _ (hs.refused n r h hfate)
    · rcases getElem?_concat_eq_some.mp h with h | ⟨-, rfl⟩
      · exact hs.opened n r server h hfate
      · cases hfate
    · rcases getElem?_concat_eq_some.mp hr with hr | ⟨-, rfl⟩
      · rcases getElem?_concat_eq_some.mp hr' with hr' | ⟨-, rfl⟩
        · exact hs.distinct m n r r' server hr hr' hfate hfate'
        · cases hfate'
      · cases hfate
  · exact hs

theorem Asked.openCall (hnew : s.calls s.next = none) (peer : Addr) (id : ℕ) :
    (s.openCall peer id).Asked := by
  -- no request before this one has the new id
  have hother {n : ℕ} {r : Request Addr} (h : s.requests[n]? = some r) :
      r.fate ≠ .opened s.next := fun hfate => by
    cases hnew.symm.trans (hs.opened n r s.next h hfate)
  refine ⟨fun n => ?_, forall_getElem?_concat hs.refused nofun, fun n r server h hfate => ?_,
    fun m n r r' server hr hr' hfate hfate' => ?_⟩
  · refine (hs.counted n).trans ?_
    by_cases hn : n = s.requests.length
    · subst hn
      simp [Server.openCall]
    · simp only [Server.openCall, getElem?_concat_ne hn]
  · rcases getElem?_concat_eq_some.mp h with h | ⟨rfl, rfl⟩
    · have hne : server ≠ s.next := fun heq => hother h (heq ▸ hfate)
      exact (update_of_ne hne _ _).trans (hs.opened n r server h hfate)
    · cases hfate
      exact update_self _ _ _
  · rcases getElem?_concat_eq_some.mp hr with hr | ⟨hm, rfl⟩ <;>
      rcases getElem?_concat_eq_some.mp hr' with hr' | ⟨hn, rfl⟩
    · exact hs.distinct m n r r' server hr hr' hfate hfate'
    · cases hfate'
      exact absurd hfate (hother hr)
    · cases hfate
      exact absurd hfate' (hother hr')
    · rw [hm, hn]

theorem Asked.queueReply (server : ℕ) (frame : Frame) (encodes : Bool) :
    (s.queueReply server frame encodes).Asked := by
  unfold Server.queueReply
  split
  · split
    · dsimp only
      split <;>
        exact hs.of_eq rfl rfl (fun n => by simp [refusals, Queued.refuses])
          (subset_append_left _ _)
    · exact hs
  · exact hs

theorem Asked.answerHeld : s.answerHeld.Asked := by
  refine hs.of_eq rfl rfl (fun n => ?_) (subset_append_left _ _)
  simp [refusals, Server.answerHeld, countP_map, Function.comp_def, Queued.refuses]

theorem Asked.moves (hheld : s.Held) (h : Moves s s') : s'.Asked := by
  cases h with
  | same => exact hs
  | awake | deliver | stop | endStream | handOver | cancelCall | settle | drain | finish =>
    exact { hs with }
  | refuse peer frame => exact hs.refuse peer frame
  | refusing peer frame =>
    have hrefuse := hs.refuse peer frame
    exact { hrefuse with }
  | openCall peer id =>
    have hopen := hs.openCall (hheld.fresh s.next (Nat.le_refl _)) peer id
    exact { hopen with }
  | queueReply server frame encodes => exact hs.queueReply server frame encodes
  | sweep =>
    have hanswer := hs.answerHeld
    exact { hanswer with }

end Asked

/-! ## What is handed over -/

/-- **A frame on its way to the server**: on the stream or about to be, unless the receive task
stopped as it handed it over. -/
def InHand (s : Server Addr) (P : Frame → Prop) : Prop :=
  (∃ d ∈ s.stream, P d.frame) ∨ (∃ d, s.stage = .delivering d ∧ P d.frame) ∨
    s.stage = .stopped ∧ s.deliveries = true

/-- Neither answered by its own nor cancelled or superseded. -/
def View.Pending (v : View Addr) : Prop :=
  v.cancelled = false ∧ v.superseded = false ∧ v.own = 0

/-- **What is handed over**: every call that was opened and every `cancel` of one, and nothing
happens to a call before; and nothing is held once the stream has ended in a drain. -/
structure Handed (s : Server Addr) : Prop where
  calls : ∀ k, s.calls k ≠ none → s.InHand fun frame => frame.opens = some k
  cancels : ∀ k ∈ s.cancelled, s.InHand (· = .cancel k)
  pending : ∀ k, s.calls k ≠ none → s.yields k = false → (s.view k).Pending
  ended : s.deliveries = false → s.draining = true ∧ s.ids.held = 0
  delivering : ∀ d, s.stage = .delivering d → s.deliveries = true
  swept : s.closing ≠ .no → s.ids.closed = true

theorem Handed.init : Handed ({} : Server Addr) where
  calls _ h := absurd rfl h
  cancels _ h := by cases h
  pending _ h := absurd rfl h
  ended h := by cases h
  delivering _ h := by cases h
  swept h := absurd rfl h

theorem yields_iff : s.yields server = true ↔ ∃ d ∈ s.stream, d.frame.opens = some server := by
  simp [yields]

/-- The receive loop passes on what it has in hand. -/
structure Passes (s s' : Server Addr) : Prop where
  stream : s.stream ⊆ s'.stream
  delivering : ∀ d, s.stage = .delivering d → d ∈ s'.stream ∨ s'.stage = .delivering d ∨
    s'.stage = .stopped ∧ s'.deliveries = true
  stopped : s.stage = .stopped → s'.stage = .stopped ∧ s'.deliveries = s.deliveries

theorem Passes.of_eq (hstream : s'.stream = s.stream) (hstage : s'.stage = s.stage)
    (hdeliveries : s'.deliveries = s.deliveries) : Passes s s' :=
  ⟨by rw [hstream]; exact Subset.refl _, fun d h => .inr (.inl (hstage.trans h)),
    fun h => ⟨hstage.trans h, hdeliveries⟩⟩

/-- Nothing is in hand at the select. -/
theorem Passes.of_selecting (hstage : s.stage = .selecting) (hstream : s.stream ⊆ s'.stream) :
    Passes s s' :=
  ⟨hstream, fun d h => (by cases hstage.symm.trans h), fun h => (by cases hstage.symm.trans h)⟩

theorem InHand.of_passes {P : Frame → Prop} (h : s.InHand P) (hpass : Passes s s') :
    s'.InHand P := by
  rcases h with ⟨d, hd, hP⟩ | ⟨d, hd, hP⟩ | ⟨hstopped, hdeliveries⟩
  · exact .inl ⟨d, hpass.stream hd, hP⟩
  · rcases hpass.delivering d hd with hd | hd | hstopped
    · exact .inl ⟨d, hd, hP⟩
    · exact .inr (.inl ⟨d, hd, hP⟩)
    · exact .inr (.inr hstopped)
  · obtain ⟨hstage, hsame⟩ := hpass.stopped hstopped
    exact .inr (.inr ⟨hstage, hsame.trans hdeliveries⟩)

theorem InHand.of_selecting {P : Frame → Prop} (h : s.InHand P) (hstage : s.stage = .selecting) :
    ∃ d ∈ s.stream, P d.frame := by
  rcases h with h | ⟨d, hd, -⟩ | ⟨hstopped, -⟩
  · exact h
  · cases hstage.symm.trans hd
  · cases hstage.symm.trans hstopped

section Handed

variable (hs : s.Handed)
include hs

theorem Handed.yields_of_selecting (hstage : s.stage = .selecting) (hcall : s.calls server ≠ none) :
    s.yields server = true :=
  yields_iff.mpr ((hs.calls server hcall).of_selecting hstage)

/-- A step that opens and cancels nothing. -/
theorem Handed.of_passes (hpass : Passes s s') (hcalls : s'.calls = s.calls)
    (hcancelled : s'.cancelled = s.cancelled)
    (hpending : ∀ k, s.yields k = false → (s.view k).Pending → (s'.view k).Pending)
    (hended : s'.deliveries = false → s'.draining = true ∧ s'.ids.held = 0)
    (hdelivering : ∀ d, s'.stage = .delivering d → s'.deliveries = true)
    (hswept : s'.closing ≠ .no → s'.ids.closed = true) : s'.Handed where
  calls k hk := (hs.calls k (hcalls ▸ hk)).of_passes hpass
  cancels k hk := (hs.cancels k (hcancelled ▸ hk)).of_passes hpass
  pending k hk hnot := by
    have hnot' : s.yields k = false := by
      refine eq_false_iff.mpr fun h => ?_
      obtain ⟨d, hd, hopens⟩ := yields_iff.mp h
      exact absurd (yields_iff.mpr ⟨d, hpass.stream hd, hopens⟩) (eq_false_iff.mp hnot)
    exact hpending k hnot' (hs.pending k (hcalls ▸ hk) hnot')
  ended := hended
  delivering := hdelivering
  swept := hswept

theorem Handed.refuse (peer : Addr) (frame : Frame) : (s.refuse peer frame).Handed := by
  unfold Server.refuse
  split
  · refine hs.of_passes (.of_eq rfl rfl rfl) rfl rfl
      (fun k _ h => ?_) hs.ended hs.delivering hs.swept
    rwa [view_send (fun _ => rfl) fun _ => rfl]
  · exact hs

/-- A call that is on the stream is sent a reply. -/
theorem Handed.queueReply (hheld : s.Held) (hyields : s.yields server = true) (frame : Frame)
    (encodes : Bool) : (s.queueReply server frame encodes).Handed := by
  unfold Server.queueReply
  split
  · rename_i c peer _ hlive _
    -- a call is held, so that neither the stream has ended nor `close` has swept the table
    have hpos : s.ids.held ≠ 0 := fun hzero => by
      cases (hheld.lookup_of_idle hzero server).symm.trans hlive
    have hopen : s.closing = .no := by
      by_contra h
      cases (hheld.closed (hs.swept h) server).symm.trans hlive
    split
    · dsimp only
      split
      · rename_i hends
        refine hs.of_passes (.of_eq rfl rfl rfl) rfl rfl (fun k hk h => ?_)
          (fun h => absurd (hs.ended h).2 hpos) hs.delivering fun h => absurd hopen h
        rw [view_answer hlive (by rwa [ends_withId]), if_neg]
        · exact h
        · rintro rfl
          cases hyields.symm.trans hk
      · rename_i hends
        refine hs.of_passes (.of_eq rfl rfl rfl) rfl rfl
          (fun k _ h => ?_) hs.ended hs.delivering hs.swept
        rwa [view_send (fun k => by simp [Queued.ownEnds, ends_withId, hends]) fun _ => rfl]
    · exact hs
  · exact hs

theorem Handed.openCall (hheld : s.Held) (hstage : s.stage = .selecting)
    (hdeliveries : s.deliveries = true) {id : ℕ} (hopens : frame.opens = some s.next) :
    ((s.openCall peer id).handOver peer frame).Handed := by
  have hold {k : ℕ} (hk : (s.openCall peer id).calls k ≠ none) (hne : k ≠ s.next) :
      s.calls k ≠ none := (update_of_ne hne (some (peer, id)) s.calls) ▸ hk
  refine ⟨fun k hk => ?_, fun k hk => ?_, fun k hk hnot => ?_, fun h => ?_, fun _ _ => hdeliveries,
    hs.swept⟩
  · by_cases hne : k = s.next
    · exact .inr (.inl ⟨_, rfl, hne ▸ hopens⟩)
    · exact .inl ((hs.calls k (hold hk hne)).of_selecting hstage)
  · exact .inl ((hs.cancels k hk).of_selecting hstage)
  · by_cases hne : k = s.next
    · have hview : ((s.openCall peer id).handOver peer frame).view k =
        (s.openCall peer id).view k := rfl
      rw [hview, view_openCall id (hheld.ne_next id), if_pos hne, hne, hheld.view_next]
      exact ⟨rfl, rfl, rfl⟩
    · cases (hs.yields_of_selecting hstage (hold hk hne)).symm.trans hnot
  · cases hdeliveries.symm.trans h

theorem Handed.cancelCall (hstage : s.stage = .selecting) (hdeliveries : s.deliveries = true)
    (id : ℕ) : ((s.cancelCall peer id server).handOver peer (.cancel server)).Handed := by
  refine ⟨fun k hk => ?_, fun k hk => ?_, fun k hk hnot => ?_, fun h => ?_, fun _ _ => hdeliveries,
    hs.swept⟩
  · exact .inl ((hs.calls k hk).of_selecting hstage)
  · rcases mem_snoc.mp hk with hk | rfl
    · exact .inl ((hs.cancels k hk).of_selecting hstage)
    · exact .inr (.inl ⟨_, rfl, rfl⟩)
  · cases (hs.yields_of_selecting hstage hk).symm.trans hnot
  · cases hdeliveries.symm.trans h

/-- **Every step keeps it.** -/
theorem Handed.moves (hheld : s.Held) (h : Moves s s') : s'.Handed := by
  cases h with
  | same => exact hs
  | awake hstage =>
    refine hs.of_passes ⟨Subset.refl _, fun d h => ?_, fun h => ?_⟩ rfl rfl
      (fun _ _ h => h) hs.ended nofun hs.swept
    · cases hstage.symm.trans h
    · cases hstage.symm.trans h
  | deliver d hstage =>
    refine hs.of_passes ⟨subset_append_left _ _, fun d' h => .inl ?_, fun h => ?_⟩ rfl rfl
      (fun _ _ h => h) hs.ended nofun hs.swept
    · cases hstage.symm.trans h
      exact mem_concat_self
    · cases hstage.symm.trans h
  | stop closing hclosing =>
    refine hs.of_passes ⟨Subset.refl _, fun d h => .inr (.inr ⟨rfl, hs.delivering d h⟩),
      fun _ => ⟨rfl, rfl⟩⟩ rfl rfl (fun _ _ h => h) hs.ended nofun fun h => hs.swept ?_
    rcases hclosing with rfl | hswept
    · exact h
    · rw [hswept]
      exact nofun
  | endStream hstage hdraining hzero =>
    exact hs.of_passes (.of_selecting hstage (Subset.refl _)) rfl rfl (fun _ _ h => h)
      (fun _ => ⟨hdraining, hzero⟩) (fun d h => by cases hstage.symm.trans h) hs.swept
  | refuse peer frame => exact hs.refuse peer frame
  | refusing peer frame hstage =>
    have hrefuse := hs.refuse peer frame
    have hsame : (s.refuse peer frame).stage = .selecting := by
      unfold Server.refuse
      split <;> exact hstage
    exact hrefuse.of_passes (.of_selecting hsame (Subset.refl _)) rfl rfl (fun _ _ h => h)
      hrefuse.ended nofun hrefuse.swept
  | openCall peer id frame hstage hdeliveries _ hopens =>
    exact hs.openCall hheld hstage hdeliveries hopens
  | handOver peer frame hstage hdeliveries =>
    exact hs.of_passes (.of_selecting hstage (Subset.refl _)) rfl rfl (fun _ _ h => h) hs.ended
      (fun _ _ => hdeliveries) hs.swept
  | cancelCall peer id server hstage hdeliveries => exact hs.cancelCall hstage hdeliveries id
  | queueReply server frame encodes hyields => exact hs.queueReply hheld hyields frame encodes
  | settle server =>
    refine hs.of_passes (.of_eq rfl rfl rfl) rfl rfl (fun k _ h => ?_)
      (fun h => ?_) hs.delivering hs.swept
    · rw [view_release]
      split_ifs <;> exact h
    · obtain ⟨hdraining, hzero⟩ := hs.ended h
      rw [hheld.ok.held] at hzero
      refine ⟨hdraining, ?_⟩
      show (s.ids.byServer.erase server).keys.length = 0
      rw [keys_erase, length_eq_zero_iff.mp hzero]
      rfl
  | drain =>
    exact hs.of_passes (.of_eq rfl rfl rfl) rfl rfl (fun _ _ h => h)
      (fun h => ⟨rfl, (hs.ended h).2⟩) hs.delivering hs.swept
  | sweep =>
    refine hs.of_passes (.of_eq rfl rfl rfl) rfl rfl (fun k _ h => ?_)
      (fun h => ⟨(hs.ended h).1, rfl⟩) hs.delivering fun _ => rfl
    have hview : view { s.answerHeld with closing := .swept } k = s.answerHeld.view k := rfl
    rw [hview, view_answerHeld]
    exact h
  | finish hclosing =>
    refine hs.of_passes (.of_eq rfl rfl rfl) rfl rfl (fun _ _ h => h) hs.ended hs.delivering
      fun _ => hs.swept ?_
    rw [hclosing]
    exact nofun

end Handed

/-- **A UDP server answers every call once across its close.** In every run: each request that the
receive task or `close` has read was refused with one `unavailable`, or its call opened under an id
of its own and delivered, or about to be, unless the receive task stopped as it handed it over, in
which case `close` answers it; by the end of `close` each opened call that was not cancelled,
superseded or answered by its own has exactly one `unavailable`, to its sender under the sender's
id; no call has two ending datagrams; `held` is the number of calls in the table; and once the
inbound stream has ended in a drain no call is held, and every call was answered or superseded, or
cancelled with its `cancel` on the stream. -/
theorem answers_every_call (t : List (Action Addr)) (s : Server Addr)
    (h : (serverMachine Addr).run t = some s) :
    (∀ (n : ℕ) (peer : Addr) (id : ℕ), (t.filterMap Action.asks)[n]? = some (peer, id) →
      (s.requests[n]? = some ⟨peer, id, .refused⟩ ∧ s.refusals n = 1 ∧
        .refusal n peer (unavailable id) ∈ s.out) ∨
      ∃ server, s.requests[n]? = some ⟨peer, id, .opened server⟩ ∧
        s.calls server = some (peer, id) ∧ s.refusals n = 0 ∧
        (∀ (m : ℕ) (r' : Request Addr), s.requests[m]? = some r' → r'.fate = .opened server →
          m = n) ∧
        (s.yields server = true ∨ (∃ d, s.stage = .delivering d ∧ d.frame.opens = some server) ∨
          s.stage = .stopped ∧ (s.closing = .done → s.closeAnswers server = 1))) ∧
    (s.closing = .done → ∀ server peer caller, s.calls server = some (peer, caller) →
      server ∉ s.cancelled → server ∉ s.superseded → s.ownEndings server = 0 →
      s.closeAnswers server = 1 ∧ ∀ dest frame, .atClose server dest frame ∈ s.out →
        dest = peer ∧ frame = unavailable caller) ∧
    (∀ server, s.ownEndings server + s.closeAnswers server ≤ 1) ∧
    s.ids.held = s.ids.byServer.keys.length ∧
    (s.deliveries = false → s.draining = true ∧ s.ids.held = 0 ∧
      ∀ server, s.calls server ≠ none → server ∈ s.superseded ∨
        s.ownEndings server + s.closeAnswers server = 1 ∨
        server ∈ s.cancelled ∧ ∃ d ∈ s.stream, d.frame = .cancel server) := by
  have hinv : s.Held ∧ s.Asked ∧ s.Handed := by
    refine Machine.invariant (P := fun s => s.Held ∧ s.Asked ∧ s.Handed)
      ⟨.init, .init, .init⟩ ?_ h
    rintro s a s' ⟨hheld, hasked, hhanded⟩ hstep
    have hmoves := moves_of_step hstep
    exact ⟨hheld.moves hmoves, hasked.moves hheld hmoves, hhanded.moves hheld hmoves⟩
  have hread : s.requests.map Request.sender = t.filterMap Action.asks := by
    refine Machine.run_induction (P := fun t s => s.requests.map Request.sender =
      t.filterMap Action.asks) rfl (fun t s a s' _ ih hstep => ?_) h
    rw [requests_of_step hstep, ih, filterMap_append]
    cases hasks : a.asks <;> simp [hasks]
  obtain ⟨hheld, hasked, hhanded⟩ := hinv
  -- once `close` has swept the table, every call has left it
  have hleft (hdone : s.closing = .done) {server : ℕ} (hcall : s.calls server ≠ none)
      (hpending : (s.view server).Pending) : s.closeAnswers server = 1 := by
    obtain ⟨hcancelled, hsuperseded, hown⟩ := hpending
    have hclosed := hhanded.swept (by rw [hdone]; exact nofun)
    have hone := (((hheld.fine server).left hcall (hheld.closed hclosed server)).resolve_left
      (eq_false_iff.mp hcancelled)).resolve_left (eq_false_iff.mp hsuperseded)
    rw [hown, Nat.zero_add] at hone
    exact hone
  refine ⟨fun n peer id hn => ?_,
    fun hdone server peer caller hcall hcancelled hsuperseded hown => ?_,
    fun server => (hheld.fine server).once, hheld.ok.held, fun hended => ?_⟩
  · rw [← hread, getElem?_map] at hn
    obtain ⟨⟨p, i, fate⟩, hr, hsender⟩ := map_eq_some_iff.mp hn
    cases hsender
    have hcounted := hasked.counted n
    rw [hr] at hcounted
    cases fate with
    | refused => exact .inl ⟨hr, hcounted, hasked.refused n _ hr rfl⟩
    | opened server =>
      have hcall := hasked.opened n _ server hr rfl
      have hne : s.calls server ≠ none := by rw [hcall]; exact nofun
      refine .inr ⟨server, hr, hcall, hcounted, fun m r' hr' hfate => ?_, ?_⟩
      · exact hasked.distinct m n r' _ server hr' hr hfate rfl
      · by_cases hyields : s.yields server = true
        · exact .inl hyields
        · rcases hhanded.calls server hne with hd | hd | ⟨hstopped, -⟩
          · exact .inl (yields_iff.mpr hd)
          · exact .inr (.inl hd)
          · refine .inr (.inr ⟨hstopped, fun hdone => hleft hdone hne ?_⟩)
            exact hhanded.pending server hne (eq_false_iff.mpr hyields)
  · have hne : s.calls server ≠ none := by rw [hcall]; exact nofun
    refine ⟨hleft hdone hne ⟨?_, ?_, hown⟩, fun dest frame hmem => ?_⟩
    · exact eq_false_iff.mpr fun h => hcancelled (contains_iff_mem.mp h)
    · exact eq_false_iff.mpr fun h => hsuperseded (contains_iff_mem.mp h)
    · obtain ⟨caller', hcall', hframe⟩ := hheld.atClose server dest frame hmem
      cases hcall.symm.trans hcall'
      exact ⟨rfl, hframe⟩
  · obtain ⟨hdraining, hzero⟩ := hhanded.ended hended
    refine ⟨hdraining, hzero, fun server hcall => ?_⟩
    have hnone := hheld.lookup_of_idle hzero server
    rcases (hheld.fine server).left hcall hnone with hcancelled | hsuperseded | hone
    · have hcancelled := contains_iff_mem.mp hcancelled
      refine .inr (.inr ⟨hcancelled, ?_⟩)
      rcases hhanded.cancels server hcancelled with h | ⟨d, hd, -⟩ | ⟨-, hdeliveries⟩
      · exact h
      · cases hended.symm.trans (hhanded.delivering d hd)
      · cases hended.symm.trans hdeliveries
    · exact .inl (contains_iff_mem.mp hsuperseded)
    · exact .inr (.inl hone)

end Server

/-- One call answers, one is cancelled and its `cancel` taken, one is superseded, and the last is
answered by `close`; a request then found in the socket is refused. -/
def closedRun : List (Action String) :=
  [.datagram "p" (.req 1 "a" [] []), .deliver, .datagram "p" (.req 2 "a" [] []), .deliver,
    .datagram "q" (.req 1 "a" [] []), .deliver, .reply (.res 1 []) true,
    .datagram "p" (.cancel 2), .deliver, .settle 2, .datagram "q" (.req 1 "a" [] []), .sweep, .stop,
    .finalRead "p" (.req 3 "a" [] []), .finish]

theorem answers_every_call_at_close :
    ∃ s, (serverMachine String).run closedRun = some s ∧ s.closing = .done ∧
      s.closeAnswers 4 = 1 ∧ s.refusals 4 = 1 ∧ s.ids.held = s.ids.byServer.keys.length := by
  obtain ⟨s, hrun, hdone, hcall, hkept, hrefused⟩ :
    ∃ s, (serverMachine String).run closedRun = some s ∧
      s.closing = .done ∧ s.calls 4 = some ("q", 1) ∧
      (4 ∉ s.cancelled ∧ 4 ∉ s.superseded ∧ s.ownEndings 4 = 0) ∧
      s.requests[4]? = some ⟨"p", 3, .refused⟩ :=
    ⟨_, rfl, rfl, rfl, ⟨by decide, by decide, rfl⟩, rfl⟩
  obtain ⟨hread, hclose, -, hheld, -⟩ := Server.answers_every_call closedRun s hrun
  refine ⟨s, hrun, hdone, (hclose hdone 4 _ _ hcall hkept.1 hkept.2.1 hkept.2.2).1, ?_, hheld⟩
  rcases hread 4 "p" 3 rfl with h | ⟨server, h, -⟩
  · exact h.2.1
  · cases hrefused.symm.trans h

end Ulo.Udp
