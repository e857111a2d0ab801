import Ulo.Lifecycle.Drain

/-!
# The operations of a GraphQL connection

The graphql-transport-ws gateway handles a connection's messages one at a time. A
`subscribe` admits an operation: it enters the table of running ones under its id, is
handed to the engine, and runs in a task of its own that writes each response as
`next`, the end as `complete` or `error`, and then leaves the table. A `complete` from
the client takes it out of the table and cancels it; so does every close of the
connection, for all of them.

An operation so leaves the table at another moment than it writes its last message, at
both ends. The client's `complete` frees the id while the task has a response in hand,
which then goes out under an id that belongs to another operation by now. And the task
queues its own end before it leaves the table, so that a client that reuses the id at
once is refused as a duplicate (`reuse_races`). Both need a `subscribe` that is handled
in such a window; without one an operation owns its id from its admission to its end
(`owns_id`).

The log is what the gateway did in the order it did it: what it queued, admitted,
refused and closed.
-/

namespace Ulo.GraphqlWs

open List Option AList

/-- What a client sends, an unparseable message included. -/
inductive ClientMessage (ι : Type)
  | init
  | ping
  | pong
  | subscribe (id : ι)
  | complete (id : ι)
  | invalid
deriving DecidableEq

/-- What an operation writes. -/
inductive Kind
  | next
  | complete
  | error
deriving DecidableEq

/-- Where an operation stands: admitted, at its stream, with a response in hand, before its
`complete`, with its end written or left out, and out of its task. -/
inductive OpStage
  | admitted
  | waiting
  | pulled (executed : Bool)
  | completing
  | finishing
  | done
deriving DecidableEq

/-- The loop of the task is left. -/
def OpStage.past : OpStage → Bool
  | .finishing | .done => true
  | _ => false

/-- **An operation**, with the reason its execution was cancelled for. -/
structure Operation (ι : Type) where
  id : ι
  stage : OpStage := .admitted
  reason : Option CancelReason := none
deriving DecidableEq

/-- `cancel_with`: the first reason stays. -/
def Operation.cancelWith {ι : Type} (reason : CancelReason) (op : Operation ι) : Operation ι :=
  { op with reason := op.reason.or (some reason) }

/-- The steps of `close`: the request, the table taken, and each operation cancelled. -/
inductive Closer
  | request (code : ℕ)
  | sweep
  | cancel (ks : List ℕ)
  | done
deriving DecidableEq

/-- Where `on_message` stands. -/
inductive Handler (ι : Type)
  | idle
  | ack
  | pong
  /-- with an operation admitted, before it is handed to the engine -/
  | hand (k : ℕ)
  /-- with a `subscribe` refused in the drain -/
  | refuse (id : ι)
  /-- with an operation out of the table, before it is cancelled -/
  | cancel (k : ℕ)
  | close (closer : Closer)
deriving DecidableEq

/-- Where the watch of `connection_init` stands. -/
inductive Watch
  | waiting
  | close (closer : Closer)
deriving DecidableEq

/-- What the gateway did. -/
inductive Logged
  | acked
  | admitted (k : ℕ)
  | handed (k : ℕ)
  | sent (k : ℕ) (kind : Kind)
  /-- a `subscribe` is refused for the operation in the table -/
  | duplicate (k : ℕ)
  | closing (code : ℕ)
deriving DecidableEq

/-- **A connection of the gateway.** An operation's place in `ops` is its `seq`. -/
structure Session (ι : Type) where
  acknowledged : Bool := false
  running : AList fun _ : ι => ℕ := ∅
  ops : List (Operation ι) := []
  close : Option ℕ := none
  closed : Bool := false
  handler : Handler ι := .idle
  watch : Watch := .waiting
  hangup : Closer := .sweep
  log : List Logged := []

/-- A step of the handler, of the watch, of the end of the connection, or of a task. -/
inductive SessionAction (ι : Type)
  /-- the next message is handled; whether an execution opens for it -/
  | message (message : ClientMessage ι) (opens : Bool)
  /-- the handler goes on; whether the queue overflows -/
  | handle (full : Bool)
  /-- the wait for `connection_init` is over, passed or refused -/
  | expired (refused : Bool)
  | watch
  /-- the read loop shuts the queue -/
  | shut
  /-- `on_disconnect` goes on -/
  | hangup
  | pull (k : ℕ) (executed : Bool)
  | streamEnd (k : ℕ)
  /-- the task sees the cancellation, or the drain -/
  | stop (k : ℕ)
  | send (k : ℕ) (full : Bool)
  | finish (k : ℕ)

namespace Session

variable {ι : Type} [DecidableEq ι]

/-- **`Connection::send`**: nothing is queued once a close was requested, and an overflow
requests one. -/
def push (s : Session ι) (full : Bool) (entry : List Logged) : Session ι × Bool :=
  if s.closed || s.close.isSome then (s, false)
  else if full then ({ s with close := some 1008 }, false)
  else ({ s with log := s.log ++ entry }, true)

/-- The operation at `k` changes. -/
def setOp (s : Session ι) (k : ℕ) (op : Operation ι) : Session ι := { s with ops := s.ops.set k op }

def cancelOp (s : Session ι) (k : ℕ) (reason : CancelReason) : Session ι :=
  { s with ops := s.ops.modify k (Operation.cancelWith reason) }

/-- One step of `close`, or of `on_disconnect` from its second step on. -/
def closeStep (s : Session ι) (reason : CancelReason) : Closer → Option (Session ι × Closer)
  | .request code =>
    some ({ s with
      close := if s.closed || s.close.isSome then s.close else some code
      log := s.log ++ [.closing code] }, .sweep)
  | .sweep => some ({ s with running := ∅ }, .cancel (s.running.entries.map fun entry => entry.2))
  | .cancel (k :: ks) => some (s.cancelOp k reason, .cancel ks)
  | .cancel [] => some (s, .done)
  | .done => none

/-- An operation opens under a free id, to be handed to its resolver. -/
def subscribe (s : Session ι) (id : ι) : Session ι :=
  { s with
    running := s.running.insert id s.ops.length
    ops := s.ops ++ [{ id }]
    log := s.log ++ [.admitted s.ops.length]
    handler := .hand s.ops.length }

/-- The operation that was admitted is handed over. -/
def handOver (s : Session ι) (k : ℕ) : Session ι :=
  { s with
    ops := s.ops.modify k fun op => { op with stage := .waiting }
    log := s.log ++ [.handed k]
    handler := .idle }

/-- **`on_message`**, up to its first wait. -/
def onMessage (s : Session ι) (opens : Bool) : ClientMessage ι → Session ι
  | .init =>
    if s.acknowledged then { s with handler := .close (.request 4429) }
    else { s with acknowledged := true, log := s.log ++ [.acked], handler := .ack }
  | .ping => { s with handler := .pong }
  | .pong => s
  | .subscribe id =>
    if !s.acknowledged then { s with handler := .close (.request 4401) }
    else
      match s.running.lookup id with
      | some k => { s with log := s.log ++ [.duplicate k], handler := .close (.request 4409) }
      | none =>
        if opens then s.subscribe id
        else { s with handler := .refuse id }
  | .complete id =>
    match s.running.lookup id with
    | some k => { s with running := s.running.erase id, handler := .cancel k }
    | none => s
  | .invalid => { s with handler := .close (.request 4400) }

/-- The handler goes on. -/
def onHandle (s : Session ι) (full : Bool) : Option (Session ι) :=
  match s.handler with
  | .idle => none
  | .ack | .pong | .refuse _ => some { (s.push full []).1 with handler := .idle }
  | .hand k => some (s.handOver k)
  | .cancel k => some { s.cancelOp k .clientCancelled with handler := .idle }
  | .close closer =>
    (s.closeStep .explicit closer).map fun (s, closer) =>
      { s with handler := if closer = .done then .idle else .close closer }

/-- **`run` writes what it has in hand.** -/
def onSend (s : Session ι) (k : ℕ) (op : Operation ι) (full : Bool) : Option (Session ι) :=
  match op.stage with
  | .pulled true =>
    some (match s.push full [.sent k .next] with
      | (s, true) => s.setOp k { op with stage := .waiting }
      | (s, false) => s.setOp k { op with stage := .finishing })
  | .pulled false => some ((s.push full [.sent k .error]).1.setOp k { op with stage := .finishing })
  | .completing =>
    some ((s.push full [.sent k .complete]).1.setOp k { op with stage := .finishing })
  | _ => none

/-- One step. -/
def step (s : Session ι) : SessionAction ι → Option (Session ι)
  | .message message opens => if s.handler = .idle then some (s.onMessage opens message) else none
  | .handle full => s.onHandle full
  | .expired refused =>
    if s.watch = .waiting then
      some { s with watch := .close (if s.acknowledged then .done else
        .request (if refused then 1001 else 4408)) }
    else none
  | .watch =>
    match s.watch with
    | .waiting => none
    | .close closer =>
      (s.closeStep .explicit closer).map fun (s, closer) => { s with watch := .close closer }
  | .shut => some { s with closed := true }
  | .hangup =>
    if s.closed then
      (s.closeStep .disconnected s.hangup).map fun (s, closer) => { s with hangup := closer }
    else none
  | .pull k executed =>
    s.ops[k]?.bind fun op =>
      if op.stage = .waiting then some (s.setOp k { op with stage := .pulled executed }) else none
  | .streamEnd k =>
    s.ops[k]?.bind fun op =>
      if op.stage = .waiting then some (s.setOp k { op with stage := .completing }) else none
  | .stop k =>
    s.ops[k]?.bind fun op =>
      if op.stage = .waiting then
        some (s.setOp k { op with stage := if op.reason.isSome then .finishing else .completing })
      else none
  | .send k full => s.ops[k]?.bind fun op => s.onSend k op full
  | .finish k =>
    s.ops[k]?.bind fun op =>
      if op.stage = .finishing then
        some { s.setOp k { op with stage := .done } with
          running := if s.running.lookup op.id = some k then s.running.erase op.id else s.running }
      else none

end Session

/-- **The connection's machine.** -/
def sessionMachine (ι : Type) [DecidableEq ι] : Machine (Session ι) (SessionAction ι) where
  init := {}
  step := Session.step

/-! ## What a step can do -/

/-- The operations still to be cancelled by a `close`. -/
def Closer.pending : Closer → List ℕ
  | .cancel ks => ks
  | _ => []

def Handler.pending {ι : Type} : Handler ι → List ℕ
  | .cancel k => [k]
  | .close closer => closer.pending
  | _ => []

def Watch.pending : Watch → List ℕ
  | .waiting => []
  | .close closer => closer.pending

/-- An entry that says nothing about one operation's id. -/
def Logged.quiet : Logged → Bool
  | .acked | .handed _ | .closing _ => true
  | _ => false

namespace Session

variable {ι : Type} {s s' : Session ι} {k : ℕ} {op : Operation ι} {a : SessionAction ι}
  {entries : List Logged}

/-- Out of the table, and about to be cancelled. -/
def Pends (s : Session ι) (k : ℕ) : Prop :=
  k ∈ s.handler.pending ∨ k ∈ s.watch.pending ∨ k ∈ s.hangup.pending

/-- Nothing is queued any more. -/
def gone (s : Session ι) : Bool := s.closed || s.close.isSome

/-- What a task wrote when it moved on to `stage`. -/
inductive Wrote (k : ℕ) (op : Operation ι) (stage : OpStage) (gone : Bool) : List Logged → Prop
  | nothing (h : stage.past = true → op.reason.isSome = true ∨ gone = true) :
      Wrote k op stage gone []
  | next (h : stage.past = false) : Wrote k op stage gone [.sent k .next]
  | ending (kind : Kind) (hkind : kind ≠ .next) (h : stage.past = true) :
      Wrote k op stage gone [.sent k kind]

/-- What `push` does: it queues the entry, or the connection is gone. -/
theorem push_spec (s : Session ι) (full : Bool) (entry : List Logged) :
    s.push full entry = ({ s with log := s.log ++ entry }, true) ∨
    ∃ close, s.push full entry = ({ s with close := close }, false) ∧
      (s.closed || close.isSome) = true := by
  unfold push
  split
  · exact .inr ⟨s.close, rfl, ‹_›⟩
  · split
    · exact .inr ⟨some 1008, rfl, by simp⟩
    · exact .inl rfl

/-- What a `close` leaves alone. -/
theorem closeStep_rest {t : Session ι} {reason : CancelReason} {closer closer' : Closer}
    (hstep : s.closeStep reason closer = some (t, closer')) :
    t.handler = s.handler ∧ t.watch = s.watch ∧ t.hangup = s.hangup ∧ t.closed = s.closed ∧
      t.acknowledged = s.acknowledged := by
  unfold closeStep at hstep
  split at hstep <;> cases hstep <;> exact ⟨rfl, rfl, rfl, rfl, rfl⟩

/-- A handler with nothing to cancel moves on. -/
theorem Pends.of_handler (hp : s.Pends k) (hhandler : s.handler.pending = [])
    (hwatch : s'.watch = s.watch) (hhangup : s'.hangup = s.hangup) : s'.Pends k := by
  unfold Pends at hp ⊢
  rw [hhandler] at hp
  rw [hwatch, hhangup]
  exact .inr (hp.resolve_left not_mem_nil)

/-- The messages of one operation, in order. -/
def messagesOf (k : ℕ) (log : List Logged) : List Kind :=
  log.filterMap fun
    | .sent j kind => if j = k then some kind else none
    | _ => none

theorem messagesOf_append (k : ℕ) (log log' : List Logged) :
    messagesOf k (log ++ log') = messagesOf k log ++ messagesOf k log' :=
  filterMap_append

theorem messagesOf_append_of_quiet (k : ℕ) (log : List Logged)
    (hquiet : ∀ entry ∈ entries, entry.quiet = true) :
    messagesOf k (log ++ entries) = messagesOf k log := by
  rw [messagesOf_append, append_right_eq_self]
  refine filterMap_eq_nil_iff.mpr fun entry hentry => ?_
  have hq := hquiet entry hentry
  cases entry <;> simp_all [Logged.quiet]

theorem mem_messagesOf {kind : Kind} {log : List Logged} (h : .sent k kind ∈ log) :
    kind ∈ messagesOf k log :=
  mem_filterMap.mpr ⟨_, h, if_pos rfl⟩

/-- A task's entries name no other operation. -/
theorem Wrote.messagesOf_ne {stage : OpStage} {gone : Bool} {j : ℕ}
    (h : Wrote k op stage gone entries) (hj : j ≠ k) (log : List Logged) :
    messagesOf j (log ++ entries) = messagesOf j log := by
  rw [messagesOf_append, append_right_eq_self]
  cases h <;> simp [messagesOf, Ne.symm hj]

variable [DecidableEq ι] {t : List (SessionAction ι)} {opens full : Bool} {id : ι}

/-- **Operations are withdrawn at most**: some are cancelled, some leave the table to be
cancelled, and nothing is written that names one. -/
structure Withdraws (s s' : Session ι) : Prop where
  ops : ∀ k : ℕ, s'.ops[k]? = s.ops[k]? ∨
    ∃ (op : Operation ι) (reason : CancelReason),
      s.ops[k]? = some op ∧ s'.ops[k]? = some (op.cancelWith reason)
  running : ∀ (id : ι) (k : ℕ), s'.running.lookup id = some k → s.running.lookup id = some k
  held : ∀ (id : ι) (k : ℕ), s.running.lookup id = some k →
    s'.running.lookup id = some k ∨ s'.Pends k
  pends : ∀ k : ℕ, s.Pends k → s'.Pends k ∨ ∀ op, s'.ops[k]? = some op → op.reason.isSome = true
  log : ∃ entries, s'.log = s.log ++ entries ∧ ∀ entry ∈ entries, entry.quiet = true
  gone : s.gone = true → s'.gone = true
  hand : ∀ k, s'.handler = .hand k → s.handler = .hand k

/-- **What a step can do** to the operations. -/
inductive Moves (s : Session ι) : SessionAction ι → Session ι → Prop
  | withdraws {a : SessionAction ι} {s' : Session ι} (h : Withdraws s s') : Moves s a s'
  | admits (id : ι) (hidle : s.handler = .idle) (hnew : s.running.lookup id = none) :
      Moves s (.message (.subscribe id) true) (s.subscribe id)
  | refuses (id : ι) (opens : Bool) (k : ℕ) (hidle : s.handler = .idle)
      (hin : s.running.lookup id = some k) :
      Moves s (.message (.subscribe id) opens)
        { s with log := s.log ++ [.duplicate k], handler := .close (.request 4409) }
  | hands (full : Bool) (k : ℕ) (hhand : s.handler = .hand k) :
      Moves s (.handle full) (s.handOver k)
  | task {a : SessionAction ι} {k : ℕ} {op : Operation ι} (hop : s.ops[k]? = some op)
      (hadmitted : op.stage ≠ .admitted) (hlive : op.stage.past = false) {stage : OpStage}
      (hstage : stage ≠ .done) {close : Option ℕ}
      (hgone : s.gone = true → (s.closed || close.isSome) = true) {entries : List Logged}
      (hwrote : Wrote k op stage (s.closed || close.isSome) entries) :
      Moves s a { s with
        ops := s.ops.set k { op with stage := stage }, close := close, log := s.log ++ entries }
  | finishes {a : SessionAction ι} {k : ℕ} {op : Operation ι} (hop : s.ops[k]? = some op)
      (hfinishing : op.stage = .finishing) :
      Moves s a { s.setOp k { op with stage := .done } with
        running := if s.running.lookup op.id = some k then s.running.erase op.id else s.running }

/-- **One step of `close`**, wherever it is taken from: what it still has to cancel only
shrinks by what it cancels, and grows by what it takes out of the table. -/
theorem Withdraws.of_closeStep {t : Session ι} {reason : CancelReason} {closer closer' : Closer}
    (hstep : s.closeStep reason closer = some (t, closer')) (hops : s'.ops = t.ops)
    (hrunning : s'.running = t.running) (hlog : s'.log = t.log)
    (hgone : t.gone = true → s'.gone = true)
    (hpends : ∀ k, s.Pends k → s'.Pends k ∨ k ∈ closer.pending)
    (hpends' : ∀ k, k ∈ closer'.pending → s'.Pends k)
    (hhand : ∀ k, s'.handler = .hand k → s.handler = .hand k) :
    Withdraws s s' := by
  unfold closeStep at hstep
  split at hstep
  · cases hstep
    refine ⟨fun k => .inl (congrArg (·[k]?) hops), fun id k hin => hrunning ▸ hin,
      fun id k hin => .inl (hrunning ▸ hin), fun k hp => (hpends k hp).imp_right fun hk =>
        absurd hk not_mem_nil,
      ⟨_, hlog, by simp [Logged.quiet]⟩, fun hg => hgone ?_, hhand⟩
    unfold Session.gone at hg ⊢
    rw [if_pos hg]
    exact hg
  · cases hstep
    refine ⟨fun k => .inl (congrArg (·[k]?) hops), fun id k hin => ?_, fun id k hin => .inr ?_,
      fun k hp => (hpends k hp).imp_right fun hk =>
        absurd hk not_mem_nil, ⟨[], by simpa using hlog, by simp⟩, hgone, hhand⟩
    · rw [hrunning] at hin
      simp at hin
    · refine hpends' k (mem_map.mpr ⟨⟨id, k⟩, ?_, rfl⟩)
      exact mem_lookup_iff.mp hin
  · rename_i k₀ ks
    cases hstep
    have hget : ∀ k, s'.ops[k]? =
        if k₀ = k then s.ops[k]?.map (Operation.cancelWith reason) else s.ops[k]? := fun k => by
      rw [hops, cancelOp, getElem?_modify]
      split <;> simp_all
    refine ⟨fun k => ?_, fun id k hin => hrunning ▸ hin, fun id k hin => .inl (hrunning ▸ hin),
      fun k hp => ?_, ⟨[], by simpa [cancelOp] using hlog, by simp⟩, hgone, hhand⟩
    · rw [hget]
      split
      · cases hk : s.ops[k]? with
        | none => exact .inl rfl
        | some op => exact .inr ⟨op, reason, rfl, rfl⟩
      · exact .inl rfl
    · by_cases hk : k₀ = k
      · refine .inr fun op hop => ?_
        rw [hget, if_pos hk, map_eq_some_iff] at hop
        obtain ⟨op, -, rfl⟩ := hop
        simp [Operation.cancelWith]
      · refine .inl ((hpends k hp).elim id fun hk' => hpends' k ?_)
        exact (mem_cons.mp hk').resolve_left (Ne.symm hk)
  · cases hstep
    exact ⟨fun k => .inl (congrArg (·[k]?) hops), fun id k hin => hrunning ▸ hin,
      fun id k hin => .inl (hrunning ▸ hin), fun k hp => (hpends k hp).imp_right fun hk =>
        absurd hk not_mem_nil,
      ⟨[], by simpa using hlog, by simp⟩, hgone, hhand⟩
  · cases hstep

/-- Nothing but the handler, the queue or the log moves. -/
theorem Withdraws.frame (hops : s'.ops = s.ops) (hrunning : s'.running = s.running)
    (hpends : ∀ k, s.Pends k → s'.Pends k)
    (hlog : ∃ entries, s'.log = s.log ++ entries ∧ ∀ entry ∈ entries, entry.quiet = true)
    (hgone : s.gone = true → s'.gone = true)
    (hhand : ∀ k, s'.handler = .hand k → s.handler = .hand k) : Withdraws s s' :=
  ⟨fun k => .inl (congrArg (·[k]?) hops), fun _ _ hin => hrunning ▸ hin,
    fun _ _ hin => .inl (hrunning ▸ hin), fun k hp => .inl (hpends k hp), hlog, hgone, hhand⟩

/-- `on_message` up to its first wait. -/
theorem moves_message {message : ClientMessage ι} (hidle : s.handler = .idle) :
    Moves s (.message message opens) (s.onMessage opens message) := by
  have hpending : s.handler.pending = [] := by rw [hidle]; rfl
  -- a message that only moves the handler
  have hframe : ∀ (handler : Handler ι), (∀ k, handler ≠ .hand k) →
      Moves s (.message message opens) { s with handler := handler } := fun handler hhand =>
    .withdraws (.frame rfl rfl (fun _ hp => hp.of_handler hpending rfl rfl)
      ⟨[], by simp, by simp⟩ (fun hg => hg) fun k hk => absurd hk (hhand k))
  have hsame : Moves s (.message message opens) s :=
    .withdraws (.frame rfl rfl (fun _ hp => hp) ⟨[], by simp, by simp⟩ (fun hg => hg)
      fun _ hk => hk)
  cases message with
  | init =>
    simp only [onMessage]
    split
    · exact hframe _ (by simp)
    · exact .withdraws (.frame rfl rfl (fun _ hp => hp.of_handler hpending rfl rfl)
        ⟨[.acked], rfl, by simp [Logged.quiet]⟩ (fun hg => hg) (by simp))
  | ping | invalid => exact hframe _ (by simp)
  | pong => exact hsame
  | subscribe id =>
    simp only [onMessage]
    split
    · exact hframe _ (by simp)
    · split
      · exact .refuses id opens _ hidle ‹_›
      · split
        · rename_i hopens
          subst hopens
          exact .admits id hidle ‹_›
        · exact hframe _ (by simp)
  | complete id =>
    simp only [onMessage]
    split
    · rename_i k hin
      refine .withdraws ⟨fun _ => .inl rfl, fun id' j hj => ?_, fun id' j hj => ?_,
        fun _ hp => .inl (hp.of_handler hpending rfl rfl), ⟨[], by simp, by simp⟩, fun hg => hg,
        by simp⟩
      · by_cases hid : id' = id
        · subst hid
          simp at hj
        · rwa [lookup_erase_ne hid] at hj
      · by_cases hid : id' = id
        · subst hid
          cases hin.symm.trans hj
          exact .inr (.inl (mem_singleton_self k))
        · exact .inl (by rwa [lookup_erase_ne hid])
    · exact hsame

/-- The handler goes on. -/
theorem moves_handle (hstep : s.onHandle full = some s') : Moves s (.handle full) s' := by
  -- a message of the gateway's own is queued, or is not
  have hpush : s.handler.pending = [] → Moves s (.handle full)
      { (s.push full []).1 with handler := .idle } := fun hpending => by
    rcases push_spec s full [] with hpushed | ⟨close, hpushed, hgone⟩ <;> rw [hpushed]
    · exact .withdraws (.frame rfl rfl (fun _ hp => hp.of_handler hpending rfl rfl)
        ⟨[], rfl, by simp⟩ (fun hg => hg) (by simp))
    · exact .withdraws (.frame rfl rfl (fun _ hp => hp.of_handler hpending rfl rfl)
        ⟨[], by simp, by simp⟩ (fun _ => hgone) (by simp))
  unfold onHandle at hstep
  split at hstep
  · cases hstep
  · rename_i hhandler
    cases hstep
    exact hpush (by rw [hhandler]; rfl)
  · rename_i hhandler
    cases hstep
    exact hpush (by rw [hhandler]; rfl)
  · rename_i hhandler
    cases hstep
    exact hpush (by rw [hhandler]; rfl)
  · cases hstep
    exact .hands full _ ‹_›
  · rename_i k hhandler
    cases hstep
    have hclose : s.closeStep .clientCancelled (.cancel [k]) =
        some (s.cancelOp k .clientCancelled, .cancel []) := rfl
    refine .withdraws (.of_closeStep hclose rfl rfl rfl (fun hg => hg) (fun j hp => ?_)
      (fun j hj => absurd hj not_mem_nil) (by simp))
    unfold Pends at hp ⊢
    rw [hhandler] at hp
    exact hp.symm.imp_left .inr
  · rename_i hhandler
    obtain ⟨⟨t, closer'⟩, hclose, rfl⟩ := map_eq_some_iff.mp hstep
    have hpending : (if closer' = .done then Handler.idle else .close closer' : Handler ι).pending =
        closer'.pending := by
      split
      · rename_i hdone
        rw [hdone]
        rfl
      · rfl
    obtain ⟨-, hwatch, hhangup, -, -⟩ := closeStep_rest hclose
    refine .withdraws (.of_closeStep hclose rfl rfl rfl (fun hg => hg) (fun j hp => ?_)
      (fun j hj => .inl (hpending ▸ hj)) (fun j => ?_))
    · unfold Pends at hp ⊢
      rw [hhandler] at hp
      rw [hwatch, hhangup]
      exact hp.symm.imp_left .inr
    · show (if closer' = .done then Handler.idle else .close closer' : Handler ι) = .hand j → _
      split <;> simp

/-- A task moves on and writes nothing. -/
theorem Moves.silent (hop : s.ops[k]? = some op) (hadmitted : op.stage ≠ .admitted)
    (hlive : op.stage.past = false) (stage : OpStage) (hstage : stage ≠ .done) (close : Option ℕ)
    (hgone : s.gone = true → (s.closed || close.isSome) = true)
    (hpast : stage.past = true → op.reason.isSome = true ∨ (s.closed || close.isSome) = true) :
    Moves s a ({ s with close := close }.setOp k { op with stage := stage }) := by
  have hmove := Moves.task (a := a) hop hadmitted hlive hstage hgone (.nothing hpast)
  rwa [append_nil] at hmove

/-- `run` writes what it has in hand. -/
theorem moves_send (hop : s.ops[k]? = some op) (hstep : s.onSend k op full = some s') :
    Moves s a s' := by
  -- the end of an operation is queued, or is not any more
  have hend : ∀ kind : Kind, kind ≠ .next → op.stage ≠ .admitted → op.stage.past = false →
      Moves s a ((s.push full [.sent k kind]).1.setOp k { op with stage := .finishing }) :=
    fun kind hkind hadmitted hlive => by
      rcases push_spec s full [.sent k kind] with hpushed | ⟨close, hpushed, hgone⟩ <;> rw [hpushed]
      · exact .task hop hadmitted hlive (by simp) (fun hg => hg) (.ending kind hkind rfl)
      · exact .silent hop hadmitted hlive .finishing (by simp) close (fun _ => hgone)
          fun _ => .inr hgone
  unfold onSend at hstep
  split at hstep
  · rename_i hstage
    cases hstep
    have hadmitted : op.stage ≠ .admitted := by simp [hstage]
    have hlive : op.stage.past = false := by simp [hstage, OpStage.past]
    rcases push_spec s full [.sent k .next] with hpushed | ⟨close, hpushed, hgone⟩ <;> rw [hpushed]
    · exact .task hop hadmitted hlive (by simp) (fun hg => hg) (.next rfl)
    · exact .silent hop hadmitted hlive .finishing (by simp) close (fun _ => hgone)
        fun _ => .inr hgone
  · rename_i hstage
    cases hstep
    exact hend .error (by simp) (by simp [hstage]) (by simp [hstage, OpStage.past])
  · rename_i hstage
    cases hstep
    exact hend .complete (by simp) (by simp [hstage]) (by simp [hstage, OpStage.past])
  · cases hstep

/-- **Every step is one of the moves.** -/
theorem moves_of_step (hstep : s.step a = some s') : Moves s a s' := by
  -- a task at its stream moves on without a word
  have hsilent : ∀ (k : ℕ) (op : Operation ι) (stage : OpStage), s.ops[k]? = some op →
      op.stage = .waiting → stage ≠ .done → (stage.past = true → op.reason.isSome = true) →
      Moves s a (s.setOp k { op with stage := stage }) :=
        fun k op stage hop hwaiting hstage hpast =>
    .silent hop (by simp [hwaiting]) (by simp [hwaiting, OpStage.past]) stage hstage s.close
      (fun hg => hg) fun hp => .inl (hpast hp)
  cases a with simp only [step] at hstep
  | message =>
    split at hstep <;> cases hstep
    exact moves_message ‹_›
  | handle => exact moves_handle hstep
  | expired =>
    split at hstep <;> cases hstep
    rename_i hwaiting
    refine .withdraws (.frame rfl rfl (fun k hp => ?_) ⟨[], by simp, by simp⟩ (fun hg => hg)
      fun _ hk => hk)
    unfold Pends at hp ⊢
    rw [hwaiting] at hp
    exact hp.imp_right fun hp => .inr (hp.resolve_left not_mem_nil)
  | watch =>
    split at hstep
    · cases hstep
    · rename_i hwatch
      obtain ⟨⟨t, closer'⟩, hclose, rfl⟩ := map_eq_some_iff.mp hstep
      obtain ⟨hhandler, -, hhangup, -, -⟩ := closeStep_rest hclose
      refine .withdraws (.of_closeStep hclose rfl rfl rfl (fun hg => hg) (fun j hp => ?_)
        (fun j hj => .inr (.inl hj)) fun j hj => hhandler ▸ hj)
      unfold Pends at hp ⊢
      rw [hwatch] at hp
      rw [hhandler, hhangup]
      exact hp.elim (fun hp => .inl (.inl hp)) fun hp => hp.symm.imp_left fun hp => .inr (.inr hp)
  | shut =>
    cases hstep
    exact .withdraws (.frame rfl rfl (fun _ hp => hp) ⟨[], by simp, by simp⟩ (fun _ => rfl)
      fun _ hk => hk)
  | hangup =>
    split at hstep
    · obtain ⟨⟨t, closer'⟩, hclose, rfl⟩ := map_eq_some_iff.mp hstep
      obtain ⟨hhandler, hwatch, -, -, -⟩ := closeStep_rest hclose
      refine .withdraws (.of_closeStep hclose rfl rfl rfl (fun hg => hg) (fun j hp => ?_)
        (fun j hj => .inr (.inr hj)) fun j hj => hhandler ▸ hj)
      unfold Pends at hp ⊢
      rw [hhandler, hwatch]
      exact hp.elim (fun hp => .inl (.inl hp)) fun hp => hp.imp_left fun hp => .inr (.inl hp)
    · cases hstep
  | pull k | streamEnd k =>
    obtain ⟨op, hop, hstep⟩ := bind_eq_some_iff.mp hstep
    split at hstep <;> cases hstep
    exact hsilent k op _ hop ‹_› (by simp) (by simp [OpStage.past])
  | stop k =>
    obtain ⟨op, hop, hstep⟩ := bind_eq_some_iff.mp hstep
    split at hstep <;> cases hstep
    refine hsilent k op _ hop ‹_› ?_ ?_ <;> split <;> simp_all [OpStage.past]
  | send =>
    obtain ⟨op, hop, hstep⟩ := bind_eq_some_iff.mp hstep
    exact moves_send hop hstep
  | finish =>
    obtain ⟨op, hop, hstep⟩ := bind_eq_some_iff.mp hstep
    split at hstep <;> cases hstep
    exact .finishes hop ‹_›

/-! ## What every operation keeps -/

/-- **What is kept of an operation**: until it is done it is in the table, cancelled, or
about to be; and what it wrote is a run of `next` with at most one end, which is there
once its loop is left, unless it was cancelled or the connection closed. -/
structure OpInv (s : Session ι) (k : ℕ) (op : Operation ι) : Prop where
  held : op.stage = .done ∨ s.running.lookup op.id = some k ∨ op.reason.isSome = true ∨ s.Pends k
  written : ∃ n ending, messagesOf k s.log = List.replicate n .next ++ ending ∧
    (ending = [] ∨ ending = [.complete] ∨ ending = [.error]) ∧
    (op.stage.past = false → ending = []) ∧
    (op.stage.past = true → ending ≠ [] ∨ op.reason.isSome = true ∨ s.gone = true)

/-- **The invariant of a connection.** -/
structure Inv (s : Session ι) : Prop where
  ops : ∀ (k : ℕ) (op : Operation ι), s.ops[k]? = some op → OpInv s k op
  table : ∀ (id : ι) (k : ℕ), s.running.lookup id = some k →
    ∃ op, s.ops[k]? = some op ∧ op.id = id ∧ op.stage ≠ .done
  unborn : ∀ k, s.ops[k]? = none → messagesOf k s.log = []
  hand : ∀ k, s.handler = .hand k → ∃ op, s.ops[k]? = some op ∧ op.stage = .admitted

/-- An operation that a step leaves alone, or only cancels. -/
theorem OpInv.mono {op' : Operation ι} (h : OpInv s k op) (hid : op'.id = op.id)
    (hstage : op'.stage = op.stage) (hreason : op.reason.isSome = true → op'.reason.isSome = true)
    (htable : s.running.lookup op.id = some k → s'.running.lookup op.id = some k ∨ s'.Pends k)
    (hpends : s.Pends k → s'.Pends k ∨ op'.reason.isSome = true)
    (hlog : messagesOf k s'.log = messagesOf k s.log) (hgone : s.gone = true → s'.gone = true) :
    OpInv s' k op' := by
  refine ⟨?_, ?_⟩
  · rw [hid, hstage]
    rcases h.held with hdone | hin | hr | hp
    · exact .inl hdone
    · exact (htable hin).elim (fun hin => .inr (.inl hin)) fun hp => .inr (.inr (.inr hp))
    · exact .inr (.inr (.inl (hreason hr)))
    · exact (hpends hp).elim (fun hp => .inr (.inr (.inr hp))) fun hr => .inr (.inr (.inl hr))
  · obtain ⟨n, ending, hwritten, hending, hnone, hpast⟩ := h.written
    rw [hstage]
    refine ⟨n, ending, hlog.trans hwritten, hending, hnone, fun hp => ?_⟩
    exact (hpast hp).imp_right fun hor => hor.imp hreason hgone

section

variable (h : s.Inv)
include h

theorem Inv.withdraws (hw : Withdraws s s') : s'.Inv := by
  obtain ⟨entries, hlog, hquiet⟩ := hw.log
  have hmessages : ∀ k, messagesOf k s'.log = messagesOf k s.log := fun k => by
    rw [hlog, messagesOf_append_of_quiet k s.log hquiet]
  refine ⟨fun k op hop => ?_, fun id k hin => ?_, fun k hk => ?_, fun k hk => ?_⟩
  · have hpends : s.Pends k → s'.Pends k ∨ op.reason.isSome = true := fun hp =>
      (hw.pends k hp).imp_right fun hall => hall op hop
    rcases hw.ops k with hsame | ⟨op₀, reason, hold, hnew⟩
    · exact (h.ops k op (hsame ▸ hop)).mono rfl rfl (fun hr => hr) (hw.held _ k) hpends
        (hmessages k) hw.gone
    · cases hop.symm.trans hnew
      exact (h.ops k op₀ hold).mono rfl rfl (by simp [Operation.cancelWith]) (hw.held _ k) hpends
        (hmessages k) hw.gone
  · obtain ⟨op, hop, hid, hlive⟩ := h.table id k (hw.running id k hin)
    rcases hw.ops k with hsame | ⟨op₀, reason, hold, hnew⟩
    · exact ⟨op, hsame.trans hop, hid, hlive⟩
    · cases hop.symm.trans hold
      exact ⟨_, hnew, hid, hlive⟩
  · rw [hmessages k]
    rcases hw.ops k with hsame | ⟨op₀, reason, hold, hnew⟩
    · exact h.unborn k (hsame ▸ hk)
    · cases hk.symm.trans hnew
  · obtain ⟨op, hop, hstage⟩ := h.hand k (hw.hand k hk)
    rcases hw.ops k with hsame | ⟨op₀, reason, hold, hnew⟩
    · exact ⟨op, hsame.trans hop, hstage⟩
    · cases hop.symm.trans hold
      exact ⟨_, hnew, hstage⟩

/-- **An operation is admitted**, under an id that is not in the table. -/
theorem Inv.admits (hidle : s.handler = .idle) (hnew : s.running.lookup id = none) :
    Inv (s.subscribe id) := by
  unfold subscribe
  have hpending : s.handler.pending = [] := by rw [hidle]; rfl
  have hmessages : ∀ k, messagesOf k (s.log ++ [.admitted s.ops.length]) = messagesOf k s.log :=
    fun k => by rw [messagesOf_append]; exact append_nil _
  have hlast : (s.ops ++ [({ id := id } : Operation ι)])[s.ops.length]? = some { id := id } :=
    getElem?_concat_length
  have hold : ∀ (k : ℕ) (op : Operation ι), s.ops[k]? = some op →
      (s.ops ++ [({ id := id } : Operation ι)])[k]? = some op := fun k op hop =>
    getElem?_concat_eq_some.mpr (.inl hop)
  -- an operation of the table stays in it, for the id is new
  have hin : ∀ (id' : ι) (k : ℕ), s.running.lookup id' = some k →
      (s.running.insert id s.ops.length).lookup id' = some k := fun id' k hk => by
    have hne : id' ≠ id := by
      rintro rfl
      cases hnew.symm.trans hk
    rw [lookup_insert_ne hne, hk]
  refine ⟨fun k op hop => ?_, fun id' k hk => ?_, fun k hk => ?_, fun k hk => ?_⟩
  · rcases getElem?_concat_eq_some.mp hop with hop | ⟨rfl, rfl⟩
    · exact (h.ops k op hop).mono rfl rfl (fun hr => hr) (fun hk => .inl (hin _ k hk))
        (fun hp => .inl (hp.of_handler hpending rfl rfl)) (hmessages k) (fun hg => hg)
    · refine ⟨.inr (.inl (lookup_insert _)), 0, [], ?_, .inl rfl, fun _ => rfl,
        fun hp => by simp [OpStage.past] at hp⟩
      exact (hmessages _).trans (h.unborn _ (getElem?_eq_none le_rfl))
  · by_cases hid : id' = id
    · subst hid
      rw [lookup_insert] at hk
      cases hk
      exact ⟨_, hlast, rfl, by simp⟩
    · rw [lookup_insert_ne hid] at hk
      obtain ⟨op, hop, hid, hlive⟩ := h.table id' k hk
      exact ⟨op, hold k op hop, hid, hlive⟩
  · refine (hmessages k).trans (h.unborn k (getElem?_eq_none ?_))
    have hlength := getElem?_eq_none_iff.mp hk
    rw [length_append] at hlength
    omega
  · cases hk
    exact ⟨_, hlast, rfl⟩

/-- A duplicate is refused. -/
theorem Inv.refuses (hidle : s.handler = .idle) (k : ℕ) :
    Inv { s with log := s.log ++ [.duplicate k], handler := .close (.request 4409) } := by
  have hpending : s.handler.pending = [] := by rw [hidle]; rfl
  have hmessages : ∀ j, messagesOf j (s.log ++ [.duplicate k]) = messagesOf j s.log := fun j => by
    rw [messagesOf_append]
    exact append_nil _
  exact ⟨fun j op hop => (h.ops j op hop).mono rfl rfl (fun hr => hr) .inl
      (fun hp => .inl (hp.of_handler hpending rfl rfl)) (hmessages j) (fun hg => hg),
    h.table, fun j hj => (hmessages j).trans (h.unborn j hj), by simp⟩

section

variable (hop : s.ops[k]? = some op)
include hop

/-- **An operation moves on**, with what it wrote. -/
theorem Inv.change (hdone : op.stage ≠ .done) (stage : OpStage) (hstage : stage ≠ .done)
    (hops : s'.ops = s.ops.set k { op with stage := stage }) (hrunning : s'.running = s.running)
    (hpends : ∀ j, s.Pends j → s'.Pends j)
    (hlog : ∀ j, j ≠ k → messagesOf j s'.log = messagesOf j s.log)
    (hgone : s.gone = true → s'.gone = true)
    (hhand : ∀ j, s'.handler = .hand j → s.handler = .hand j ∧ j ≠ k)
    (hwritten : ∃ n ending, messagesOf k s'.log = replicate n .next ++ ending ∧
      (ending = [] ∨ ending = [.complete] ∨ ending = [.error]) ∧
      (stage.past = false → ending = []) ∧
      (stage.past = true → ending ≠ [] ∨ op.reason.isSome = true ∨ s'.gone = true)) : s'.Inv := by
  refine ⟨fun i x hx => ?_, fun id i hin => ?_, fun i hi => ?_, fun i hi => ?_⟩
  · rw [hops] at hx
    rcases eq_or_of_getElem?_set hx with ⟨rfl, rfl⟩ | ⟨hik, hx⟩
    · refine ⟨?_, hwritten⟩
      have hheld := (h.ops i op hop).held.resolve_left hdone
      rw [hrunning]
      exact .inr (hheld.imp_right fun hor => hor.imp_right (hpends i))
    · exact (h.ops i x hx).mono rfl rfl (fun hr => hr) (fun hin => .inl (hrunning ▸ hin))
        (fun hp => .inl (hpends i hp)) (hlog i hik) hgone
  · rw [hops]
    refine exists_getElem?_set (h.table id i (hrunning ▸ hin)) fun x hx hlive => ?_
    cases hop.symm.trans hx
    exact ⟨hlive.1, hstage⟩
  · have hge : s.ops.length ≤ i := by
      rw [hops] at hi
      simpa using hi
    have hlt : k < s.ops.length := (List.getElem?_eq_some_iff.mp hop).1
    rw [hlog i (by omega)]
    exact h.unborn i (getElem?_eq_none hge)
  · obtain ⟨hold, hik⟩ := hhand i hi
    obtain ⟨x, hx, hadmitted⟩ := h.hand i hold
    exact ⟨x, by rw [hops, getElem?_set_ne (Ne.symm hik), hx], hadmitted⟩

omit hop in
/-- **The operation of the handler is handed on.** -/
theorem Inv.hands (hhand : s.handler = .hand k) : Inv (s.handOver k) := by
  unfold handOver
  obtain ⟨op, hop, hadmitted⟩ := h.hand k hhand
  have hmessages : ∀ j, messagesOf j (s.log ++ [.handed k]) = messagesOf j s.log := fun j =>
    messagesOf_append_of_quiet j s.log (by simp [Logged.quiet])
  refine h.change hop (by simp [hadmitted]) .waiting (by simp) ?_ rfl
    (fun j hp => hp.of_handler (by rw [hhand]; rfl) rfl rfl) (fun j _ => hmessages j)
    (fun hg => hg) (by simp) ?_
  · show s.ops.modify k _ = _
    rw [modify_eq_set_getElem?, hop]
    rfl
  · obtain ⟨n, ending, hwritten, hending, hnone, -⟩ := (h.ops k op hop).written
    exact ⟨n, ending, (hmessages k).trans hwritten, hending,
      fun _ => hnone (by simp [hadmitted, OpStage.past]), fun hp => by simp [OpStage.past] at hp⟩

/-- **A task moves on.** -/
theorem Inv.task (hadmitted : op.stage ≠ .admitted) (hlive : op.stage.past = false)
    {stage : OpStage} (hstage : stage ≠ .done) {close : Option ℕ}
    (hgone : s.gone = true → (s.closed || close.isSome) = true)
    (hwrote : Wrote k op stage (s.closed || close.isSome) entries) : Inv { s with
      ops := s.ops.set k { op with stage := stage }, close := close, log := s.log ++ entries } := by
  have hdone : op.stage ≠ .done := fun hd => by simp [hd, OpStage.past] at hlive
  refine h.change hop hdone stage hstage rfl rfl (fun _ hp => hp)
    (fun j hj => hwrote.messagesOf_ne hj s.log) hgone (fun j hj => ⟨hj, ?_⟩) ?_
  · rintro rfl
    obtain ⟨x, hx, hstage⟩ := h.hand j hj
    cases hop.symm.trans hx
    exact hadmitted hstage
  · obtain ⟨n, ending, hwritten, -, hnone, -⟩ := (h.ops k op hop).written
    rw [hnone hlive, append_nil] at hwritten
    show ∃ n ending, messagesOf k (s.log ++ entries) = _ ∧ _
    rw [messagesOf_append, hwritten]
    cases hwrote with
    | nothing hpast => exact ⟨n, [], rfl, .inl rfl, fun _ => rfl, fun hp => .inr (hpast hp)⟩
    | next hpast =>
      refine ⟨n + 1, [], ?_, .inl rfl, fun _ => rfl, fun hp => by simp [hpast] at hp⟩
      rw [append_nil, replicate_succ']
      simp [messagesOf]
    | ending kind hkind hpast =>
      refine ⟨n, [kind], by simp [messagesOf], ?_, fun hp => by simp [hpast] at hp,
        fun _ => .inl (by simp)⟩
      cases kind with
      | next => exact absurd rfl hkind
      | complete => exact .inr (.inl rfl)
      | error => exact .inr (.inr rfl)

/-- What is in the table when a task ended was in it, and is not its operation. -/
theorem Inv.lookup_finish (id : ι) (i : ℕ) :
    (if s.running.lookup op.id = some k then s.running.erase op.id else s.running).lookup id =
      some i ↔ s.running.lookup id = some i ∧ i ≠ k := by
  -- an operation is in the table under its own id only
  have hown : s.running.lookup id = some k → op.id = id := fun hk => by
    obtain ⟨x, hx, hid, -⟩ := h.table id k hk
    cases hop.symm.trans hx
    exact hid
  split
  · rename_i hin
    by_cases hid : id = op.id
    · subst hid
      rw [lookup_erase, hin]
      simp [eq_comm]
    · rw [lookup_erase_ne hid]
      refine ⟨fun hi => ⟨hi, ?_⟩, And.left⟩
      rintro rfl
      exact hid (hown hi).symm
  · rename_i hout
    refine ⟨fun hi => ⟨hi, ?_⟩, And.left⟩
    rintro rfl
    exact hout (hown hi ▸ hi)

/-- **A task ends**, and its operation leaves the table if it is still its own. -/
theorem Inv.finishes (hfinishing : op.stage = .finishing) :
    Inv { s.setOp k { op with stage := .done } with
      running := if s.running.lookup op.id = some k then s.running.erase op.id
        else s.running } := by
  refine ⟨fun i x hx => ?_, fun id i hin => ?_, fun i hi => h.unborn i ?_, fun i hi => ?_⟩
  · rcases eq_or_of_getElem?_set hx with ⟨rfl, rfl⟩ | ⟨hik, hx⟩
    · refine ⟨.inl rfl, ?_⟩
      obtain ⟨n, ending, hwritten, hending, -, hpast⟩ := (h.ops i op hop).written
      exact ⟨n, ending, hwritten, hending, fun hp => by simp [OpStage.past] at hp,
        fun _ => hpast (by simp [hfinishing, OpStage.past])⟩
    · exact (h.ops i x hx).mono rfl rfl (fun hr => hr)
        (fun hin => .inl ((h.lookup_finish hop _ _).mpr ⟨hin, hik⟩)) .inl rfl (fun hg => hg)
  · obtain ⟨hin, hik⟩ := (h.lookup_finish hop id i).mp hin
    obtain ⟨x, hx, hid, hlive⟩ := h.table id i hin
    exact ⟨x, (getElem?_set_ne (Ne.symm hik)).trans hx, hid, hlive⟩
  · simpa [setOp] using hi
  · obtain ⟨x, hx, hadmitted⟩ := h.hand i hi
    have hik : k ≠ i := by
      rintro rfl
      cases hop.symm.trans hx
      cases hfinishing.symm.trans hadmitted
    exact ⟨x, (getElem?_set_ne hik).trans hx, hadmitted⟩

end

/-- **Every step keeps the invariant.** -/
theorem Inv.step (hstep : s.step a = some s') : s'.Inv := by
  cases moves_of_step hstep with
  | withdraws hw => exact h.withdraws hw
  | admits id hidle hnew => exact h.admits hidle hnew
  | refuses id opens k hidle => exact h.refuses hidle k
  | hands full k hhand => exact h.hands hhand
  | task hop hadmitted hlive hstage hgone hwrote =>
    exact h.task hop hadmitted hlive hstage hgone hwrote
  | finishes hop hfinishing => exact h.finishes hop hfinishing

end

theorem Inv.init : (sessionMachine ι).init.Inv where
  ops := fun k op hop => by cases hop
  table := fun id k hin => by simp [sessionMachine] at hin
  unborn := fun _ _ => rfl
  hand := fun k hk => by cases hk

/-- **In every run.** -/
theorem inv (h : (sessionMachine ι).run t = some s) : s.Inv :=
  (sessionMachine ι).invariant .init (fun _ _ _ hs hstep => hs.step hstep) h

/-! ## Who an id belongs to -/

/-- **A `subscribe` finds the earlier operations of its id settled**: out of the table and
past their last message, or in the table with no end queued. -/
def settled (s : Session ι) : SessionAction ι → Bool
  | .message (.subscribe id) _ =>
    s.ops.zipIdx.all fun (op, k) => op.id ≠ id ||
      if s.running.lookup id = some k then (messagesOf k s.log).all (· = .next) else op.stage.past
  | _ => true

theorem settled_subscribe (h : s.settled (.message (.subscribe id) opens) = true)
    (hop : s.ops[k]? = some op) (hid : op.id = id) :
    (s.running.lookup id = some k → ∀ kind ∈ messagesOf k s.log, kind = .next) ∧
      (s.running.lookup id ≠ some k → op.stage.past = true) := by
  have hall := all_eq_true.mp h (op, k) (mem_zipIdx_iff_getElem?.mpr hop)
  rw [Bool.or_eq_true] at hall
  have hit := hall.resolve_left (by simp [hid])
  refine ⟨fun hin => ?_, fun hout => ?_⟩
  · rw [if_pos hin] at hit
    simpa using hit
  · rwa [if_neg hout] at hit

/-- Two operations under one id. -/
def SameId (ops : List (Operation ι)) (j k : ℕ) : Prop :=
  ∃ x y, ops[j]? = some x ∧ ops[k]? = some y ∧ x.id = y.id

/-- **The order of two entries**: no operation writes after a later one was admitted under its
id, and none that wrote its end is a reason to refuse. -/
def InOrder (ops : List (Operation ι)) : Logged → Logged → Prop
  | .admitted k, .sent j _ => j < k → ¬ SameId ops j k
  | .sent k kind, .duplicate j => kind ≠ .next → j ≠ k
  | _, _ => True

/-- **Each id belongs to its last operation.** -/
structure Owned (s : Session ι) : Prop where
  later : ∀ (j k : ℕ) (x y : Operation ι), j < k → s.ops[j]? = some x → s.ops[k]? = some y →
    x.id = y.id → x.stage.past = true ∧ s.running.lookup x.id ≠ some j
  admitted : ∀ k, .admitted k ∈ s.log → k < s.ops.length
  order : s.log.Pairwise (InOrder s.ops)

omit [DecidableEq ι] in
theorem InOrder.of_quiet {ops : List (Operation ι)} (x : Logged) {y : Logged}
    (hy : y.quiet = true) : InOrder ops x y := by
  cases y <;> cases x <;> trivial

omit [DecidableEq ι] in
theorem InOrder.mono {ops ops' : List (Operation ι)} {x y : Logged} (h : InOrder ops x y)
    (hsame : ∀ j k, j < k → x = .admitted k → SameId ops' j k → SameId ops j k) :
    InOrder ops' x y := by
  unfold InOrder at h ⊢
  split
  · exact fun hlt hids => h hlt (hsame _ _ hlt rfl hids)
  · exact h
  · trivial

section

variable (h : s.Owned)
  (hrunning : ∀ (id : ι) (k : ℕ), s'.running.lookup id = some k → s.running.lookup id = some k)
  (hlog : s'.log = s.log ++ entries) (hadmitted : ∀ k, .admitted k ∉ entries)
  (hentries : entries.Pairwise (InOrder s.ops))
  (hnew : ∀ x ∈ s.log, ∀ y ∈ entries, InOrder s.ops x y)
include h hrunning hlog hadmitted hentries hnew

/-- **No operation is admitted.** -/
theorem Owned.frame
    (hops : ∀ (k : ℕ) (op' : Operation ι), s'.ops[k]? = some op' → ∃ op, s.ops[k]? = some op ∧
      op.id = op'.id ∧ (op.stage.past = true → op'.stage.past = true))
    (hlength : s.ops.length ≤ s'.ops.length) : s'.Owned where
  later := fun j k x' y' hjk hx' hy' hid => by
    obtain ⟨x, hx, hxid, hpast⟩ := hops j x' hx'
    obtain ⟨y, hy, hyid, -⟩ := hops k y' hy'
    obtain ⟨hxpast, hout⟩ := h.later j k x y hjk hx hy (by rw [hxid, hid, hyid])
    exact ⟨hpast hxpast, fun hin => hout (hxid ▸ hrunning _ _ hin)⟩
  admitted := fun k hk => by
    rw [hlog] at hk
    have hold := (mem_append.mp hk).resolve_right (hadmitted k)
    exact Nat.lt_of_lt_of_le (h.admitted k hold) hlength
  order := by
    have hall : (s.log ++ entries).Pairwise (InOrder s.ops) :=
      pairwise_append.mpr ⟨h.order, hentries, hnew⟩
    rw [hlog]
    refine hall.imp fun hxy => hxy.mono fun j k _ _ ⟨x', y', hx', hy', hid⟩ => ?_
    obtain ⟨x, hx, hxid, -⟩ := hops j x' hx'
    obtain ⟨y, hy, hyid, -⟩ := hops k y' hy'
    exact ⟨x, y, hx, hy, by rw [hxid, hid, hyid]⟩

/-- One operation moves on. -/
theorem Owned.set (hop : s.ops[k]? = some op) (stage : OpStage)
    (hpast : op.stage.past = true → stage.past = true)
    (hops : s'.ops = s.ops.set k { op with stage := stage }) : s'.Owned := by
  refine h.frame hrunning hlog hadmitted hentries hnew (fun i x hx => ?_) ?_
  · rw [hops] at hx
    rcases eq_or_of_getElem?_set hx with ⟨rfl, rfl⟩ | ⟨-, hx⟩
    · exact ⟨op, hop, rfl, hpast⟩
    · exact ⟨x, hx, rfl, id⟩
  · rw [hops, length_set]

end

/-- **An operation is admitted**, and the earlier ones of its id have written their last. -/
theorem Owned.admits (h : s.Owned) (hnew : s.running.lookup id = none)
    (hsettled : s.settled (.message (.subscribe id) true) = true) : Owned (s.subscribe id) where
  later := fun j k x y hjk hx hy hid => by
    -- the earlier of the two is an old one, and the table has the new one at most
    have hxold : s.ops[j]? = some x := by
      refine (getElem?_concat_eq_some.mp hx).resolve_right ?_
      rintro ⟨rfl, -⟩
      have hlt := (List.getElem?_eq_some_iff.mp hy).1
      rw [subscribe, length_append, length_singleton] at hlt
      omega
    have hne : j ≠ s.ops.length := fun hj => by simp [hj] at hxold
    have hlast : ∀ id', (s.running.insert id s.ops.length).lookup id' = some j →
        s.running.lookup id' = some j := fun id' hin => by
      by_cases hid' : id' = id
      · subst hid'
        rw [lookup_insert] at hin
        cases hin
        exact absurd rfl hne
      · rwa [lookup_insert_ne hid'] at hin
    rcases getElem?_concat_eq_some.mp hy with hyold | ⟨rfl, rfl⟩
    · obtain ⟨hpast, hout⟩ := h.later j k x y hjk hxold hyold hid
      exact ⟨hpast, fun hin => hout (hlast _ hin)⟩
    · have hid : x.id = id := hid
      have hout : s.running.lookup id ≠ some j := fun hin => by cases hnew.symm.trans hin
      rw [hid]
      exact ⟨(settled_subscribe hsettled hxold hid).2 hout, fun hin => hout (hlast _ hin)⟩
  admitted := fun k hk => by
    rw [subscribe, length_append, length_singleton]
    rcases mem_snoc.mp hk with hk | hk
    · exact Nat.lt_succ_of_lt (h.admitted k hk)
    · cases hk
      exact Nat.lt_succ_self _
  order := by
    have hold : s.log.Pairwise (InOrder (s.ops ++ [{ id := id }])) := by
      refine h.order.imp_of_mem ?_
      rintro x y hx - hxy
      refine hxy.mono ?_
      rintro j k hjk rfl ⟨a, b, ha, hb, hid⟩
      have hlt := h.admitted k hx
      rw [getElem?_append_left (by omega)] at ha
      rw [getElem?_append_left hlt] at hb
      exact ⟨a, b, ha, hb, hid⟩
    refine List.Pairwise.snoc hold fun x _ => ?_
    cases x <;> trivial

theorem Withdraws.length_le (h : Withdraws s s') : s.ops.length ≤ s'.ops.length := by
  by_contra hlt
  rcases h.ops s'.ops.length with hsame | ⟨op, reason, -, hnew⟩
  · rw [getElem?_eq_none le_rfl] at hsame
    exact hlt (getElem?_eq_none_iff.mp hsame.symm)
  · rw [getElem?_eq_none le_rfl] at hnew
    cases hnew

/-- **Every step keeps it** that finds the operations of its id settled. -/
theorem Owned.step (h : s.Owned) (hinv : s.Inv) (hstep : s.step a = some s')
    (hsettled : s.settled a = true) : s'.Owned := by
  cases moves_of_step hstep with
  | withdraws hw =>
    obtain ⟨entries, hlog, hquiet⟩ := hw.log
    refine h.frame hw.running hlog (fun k hk => ?_) ?_
      (fun x _ y hy => .of_quiet x (hquiet y hy)) (fun k op' hop' => ?_) hw.length_le
    · cases hquiet _ hk
    · exact pairwise_of_forall_mem_list fun x _ y hy => .of_quiet x (hquiet y hy)
    · rcases hw.ops k with hsame | ⟨op, reason, hold, hnew⟩
      · exact ⟨op', hsame.symm.trans hop', rfl, id⟩
      · cases hop'.symm.trans hnew
        exact ⟨op, hold, rfl, id⟩
  | admits id hidle hnew => exact h.admits hnew hsettled
  | refuses id opens k hidle hin =>
    obtain ⟨op, hop, hid, -⟩ := hinv.table id k hin
    have hnext := (settled_subscribe hsettled hop hid).1 hin
    refine h.frame (fun _ _ hin => hin) rfl (by simp) (pairwise_singleton ..)
      (fun x hx y hy => ?_) (fun k op' hop' => ⟨op', hop', rfl, fun hp => hp⟩) le_rfl
    cases mem_singleton.mp hy
    cases x with
    | sent j kind =>
      rintro hkind rfl
      exact hkind (hnext kind (mem_messagesOf hx))
    | _ => trivial
  | hands full k hhand =>
    obtain ⟨op, hop, hadmitted⟩ := hinv.hand k hhand
    refine h.set (fun _ _ hin => hin) rfl (by simp) (pairwise_singleton ..)
      (fun x _ y hy => .of_quiet x ?_) hop .waiting (by simp [hadmitted, OpStage.past]) ?_
    · cases mem_singleton.mp hy
      rfl
    · show s.ops.modify k _ = _
      rw [modify_eq_set_getElem?, hop]
      rfl
  | @task a k op hop hadmitted hlive stage hstage close hgone entries hwrote =>
    -- an operation that writes has no later one of its id
    have hnew : ∀ (x : Logged) (kind : Kind), x ∈ s.log → InOrder s.ops x (.sent k kind) :=
      fun x kind hx => by
        cases x with
        | admitted j =>
          rintro hlt ⟨x, y, hx, hy, hid⟩
          cases hop.symm.trans hx
          cases hlive.symm.trans (h.later k j op y hlt hop hy hid).1
        | _ => trivial
    refine h.set (fun _ _ hin => hin) rfl ?_ ?_ ?_ hop stage (fun hp => by simp [hlive] at hp) rfl
    · cases hwrote <;> simp
    · cases hwrote <;> simp
    · intro x hx y hy
      cases hwrote with
      | nothing => cases hy
      | next | ending =>
        cases mem_singleton.mp hy
        exact hnew x _ hx
  | finishes hop =>
    refine h.set (fun id i hin => ?_) (append_nil _).symm (by simp) .nil (by simp) hop .done
      (fun _ => rfl) rfl
    exact ((hinv.lookup_finish hop id i).mp hin).1

theorem Owned.init : (sessionMachine ι).init.Owned where
  later := nofun
  admitted := nofun
  order := .nil

/-- **In every run whose `subscribe`s find their ids settled.** -/
theorem owned (h : (sessionMachine ι).run t = some s)
    (hsettled : ∀ pre s₀ a, (sessionMachine ι).TookAt t pre s₀ a → s₀.settled a = true) :
    s.Owned := by
  have hboth : s.Inv ∧ s.Owned :=
    (sessionMachine ι).invariant_of_steps (P := fun s => s.Inv ∧ s.Owned)
      (C := fun s a => s.settled a = true) ⟨.init, .init⟩
      (fun _ _ _ hs hc hstep => ⟨hs.1.step hstep, hs.2.step hs.1 hstep hc⟩) hsettled h
  exact hboth.2

/-- **An operation owns its id from its admission to its end.** In every run the table has
one operation under each id, and each operation writes a run of `next` and at most one
end, exactly one unless it was cancelled or the connection closed. In every run whose
`subscribe`s find their ids settled, nothing is written after a later operation was
admitted under the id, and no `subscribe` is refused for an operation whose end was
queued. -/
theorem owns_id {t : List (SessionAction ι)} (h : (sessionMachine ι).run t = some s) :
    (∀ (id : ι) (k : ℕ), s.running.lookup id = some k →
      ∃ op, s.ops[k]? = some op ∧ op.id = id ∧ op.stage ≠ .done) ∧
    (∀ (k : ℕ) (op : Operation ι), s.ops[k]? = some op →
      ∃ n ending, messagesOf k s.log = List.replicate n .next ++ ending ∧
        (ending = [] ∨ ending = [.complete] ∨ ending = [.error]) ∧
        (op.stage = .done → ending ≠ [] ∨ op.reason.isSome = true ∨ s.gone = true)) ∧
    ((∀ pre s₀ a, (sessionMachine ι).TookAt t pre s₀ a → s₀.settled a = true) →
      (∀ (j k : ℕ) (kind : Kind), j < k → SameId s.ops j k →
        ¬ [.admitted k, .sent j kind].Sublist s.log) ∧
      ∀ (k : ℕ) (kind : Kind), kind ≠ .next → ¬ [.sent k kind, .duplicate k].Sublist s.log) := by
  have hinv := inv h
  refine ⟨hinv.table, fun k op hop => ?_, fun hsettled => ?_⟩
  · obtain ⟨n, ending, hwritten, hending, -, hpast⟩ := (hinv.ops k op hop).written
    exact ⟨n, ending, hwritten, hending, fun hdone => hpast (by rw [hdone]; rfl)⟩
  · have horder : ∀ x y, [x, y].Sublist s.log → InOrder s.ops x y := fun x y =>
      pairwise_iff_forall_sublist.mp (owned h hsettled).order
    exact ⟨fun j k kind hlt hids hsub => horder _ _ hsub hlt hids,
      fun k kind hkind hsub => horder _ _ hsub hkind rfl⟩

/-- An operation is admitted under the id 1, handed on, and has a response in hand. -/
def pulledOne : List (SessionAction ℕ) :=
  [.message .init true, .handle false, .message (.subscribe 1) true, .handle false, .pull 0 true]

/-- The response is written, the operation completed by its client, and its id used again
when its task is over. -/
theorem owns_id_reused : ∃ s, (sessionMachine ℕ).run (pulledOne ++
    [.send 0 false, .message (.complete 1) true, .handle false, .stop 0, .finish 0,
      .message (.subscribe 1) true, .handle false]) = some s ∧
    SameId s.ops 0 1 ∧ messagesOf 0 s.log = [.next] ∧
    ∀ kind, ¬ [.admitted 1, .sent 0 kind].Sublist s.log := by
  refine ⟨_, rfl, ⟨_, _, rfl, rfl, rfl⟩, rfl, fun kind => ?_⟩
  exact ((owns_id (t := pulledOne ++ [.send 0 false, .message (.complete 1) true, .handle false,
    .stop 0, .finish 0, .message (.subscribe 1) true, .handle false]) rfl).2.2
    (fun _ _ _ htook => htook.of_checks rfl)).1 0 1 kind (by decide) ⟨_, _, rfl, rfl, rfl⟩

/-- **The two windows of an id that is used again.** A response in hand goes out under an id
that was freed and taken by another operation; and an operation whose end is queued still
has its id refused. -/
theorem reuse_races :
    (∃ s, (sessionMachine ℕ).run (pulledOne ++
      [.message (.complete 1) true, .handle false, .message (.subscribe 1) true, .handle false,
        .send 0 false]) = some s ∧
      SameId s.ops 0 1 ∧ s.close = none ∧ [.admitted 1, .sent 0 .next].Sublist s.log) ∧
    (∃ s, (sessionMachine ℕ).run (pulledOne ++
      [.send 0 false, .streamEnd 0, .send 0 false, .message (.subscribe 1) true]) = some s ∧
      [.sent 0 .complete, .duplicate 0].Sublist s.log) :=
  ⟨⟨_, rfl, ⟨_, _, rfl, rfl, rfl⟩, rfl, by decide⟩, _, rfl, by decide⟩

end Session

end Ulo.GraphqlWs
