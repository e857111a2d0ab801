import Mathlib.Algebra.Order.BigOperators.Group.List
import Ulo.Lib.List
import Ulo.Lib.Machine

/-!
# The places in flight of one server

The connections of a WebSocket server share its places in flight: a message takes one
when its handler is to run, as it counts in its own connection's `handling`, and gives
it back once its answer is known. The read loop takes it, and whoever ends the message
gives it back: the guard in its task's future, the inbox's loop of a hand-written
gateway, the loop itself when that inbox is gone, or the drop of the connection's
`Flight` for whatever nobody counted out – a task aborted before its first poll has no
guard yet.

A connection is modelled on its own (`Conn.step`), by what it does to the places
(`Effect`) and what it reads of them: whether they are all taken. The server puts the
connections together, one step of one of them at a time. That a place is held for
every message counted, and by nothing else but a message on its way in or out
(`Conn.step_weight`), then gives the bounds of the server in every run
(`bounds_exact`). The counts are integers: that none is ever below zero is
a result here, not a truncated subtraction.
-/

namespace Ulo.Ws

open List

/-- Where the loop calls `received` from: on a message that waited, or on one just read. -/
inductive Caller
  | retry
  | read
deriving DecidableEq

/-- How the loop waits: reading, or why not. -/
inductive Wait
  | reading
  | draining
  | waiting
  | full
  | inflight
deriving DecidableEq

/-- Where the read loop stands in its turn. -/
inductive LoopStage
  /-- before its first look at the places -/
  | top
  /-- before it registers for `freed` -/
  | listen
  /-- before its second look, for the message that waits -/
  | retry
  /-- in `begin`, before it takes a place, and before it counts the message -/
  | take (caller : Caller)
  | count (caller : Caller)
  /-- with the message counted, before it is handed on -/
  | hand (caller : Caller)
  /-- in `handled`, for a message its inbox did not take -/
  | leave (caller : Caller)
  /-- before its third look, and before it reads `handling` -/
  | decide
  | bound
  | parked (wait : Wait)
  | ended
deriving DecidableEq

/-- A message's task: not polled yet, with its guards, in `handled`, counted out, and
dropped. -/
inductive MessageStage
  | fresh
  | running
  | leaving
  | answered
  | gone
deriving DecidableEq

/-- The loop of a hand-written gateway's inbox: at its queue, in `on_message`, in
`handled`, and dropped, the queue with it. -/
inductive InboxStage
  | idle
  | busy
  | leaving
  | gone
deriving DecidableEq

/-- **A connection**: its read loop with what the loop holds, its counts, and its tasks.
A listener in `freed` has been notified or not. -/
structure Conn where
  maxInflight : ℤ
  raw : Bool
  stage : LoopStage := .top
  draining : Bool := false
  closing : Bool := false
  waiting : Bool := false
  freed : Option Bool := none
  handling : ℤ := 0
  busy : ℤ := 0
  tasks : List MessageStage := []
  inbox : InboxStage := if raw then .idle else .gone
  queue : ℕ := 0
  flight : Bool := true
deriving DecidableEq

/-- What a step of a connection does to the server's places. -/
inductive Effect
  | none
  | take
  | back (places : ℤ)
deriving DecidableEq

def Effect.amount : Effect → ℤ
  | .none => 0
  | .take => 1
  | .back places => -places

/-- A step of a connection, or of one of its tasks. -/
inductive ConnAction
  /-- the loop goes on in its turn -/
  | turn
  | drain
  | close
  /-- a frame is read: a message to be handled, or anything else -/
  | read (message : Bool)
  | heard
  /-- the wait ends for any other reason -/
  | wake
  /-- the loop returns or is dropped -/
  | leave
  | poll (k : ℕ)
  | answer (k : ℕ)
  | giveBack (k : ℕ)
  | finish (k : ℕ)
  /-- a task is dropped before its first poll -/
  | abort (k : ℕ)
  | inboxTake
  | inboxHandled
  | inboxGiveBack
  | inboxDrop
  | dropFlight
deriving DecidableEq

namespace Conn

/-- Where `received` returns to. -/
def returnTo : Caller → LoopStage
  | .retry => .decide
  | .read => .top

/-- **The loop's turn**, one read of the places at a time. `full` is what that read
answers. -/
def turn (c : Conn) (full : Bool) : Option (Conn × Effect) :=
  match c.stage with
  | .top => some ({ c with stage := if c.waiting || full then .listen else .retry }, .none)
  | .listen =>
    -- a listener already there is kept
    some ({ c with freed := some (c.freed.getD false), stage := .retry }, .none)
  | .retry =>
    if !c.closing && !full && c.waiting then
      some ({ c with waiting := false, stage := .take .retry }, .none)
    else some ({ c with stage := .decide }, .none)
  | .take caller =>
    if full then some ({ c with waiting := true, stage := returnTo caller }, .none)
    else some ({ c with stage := .count caller }, .take)
  | .count caller =>
    some ({ c with handling := c.handling + 1, busy := c.busy + 1, stage := .hand caller }, .none)
  | .hand caller =>
    if c.raw then
      if c.inbox = .gone then
        some ({ c with handling := c.handling - 1, stage := .leave caller }, .none)
      else some ({ c with queue := c.queue + 1, stage := returnTo caller }, .none)
    else some ({ c with tasks := c.tasks ++ [.fresh], stage := returnTo caller }, .none)
  | .leave caller => some ({ c with busy := c.busy - 1, stage := returnTo caller }, .back 1)
  | .decide =>
    if c.closing then some ({ c with stage := .parked .reading }, .none)
    else if c.draining then some ({ c with stage := .parked .draining }, .none)
    else if c.waiting then some ({ c with stage := .parked .waiting }, .none)
    else if full then some ({ c with stage := .parked .full }, .none)
    else some ({ c with stage := .bound }, .none)
  | .bound =>
    some ({ c with stage := .parked (if c.handling < c.maxInflight then .reading else .inflight) },
      .none)
  | .parked _ | .ended => none

/-- The message's task moves from one stage to the next. -/
def moveTask (c : Conn) (k : ℕ) (before after : MessageStage) : Option Conn :=
  if c.tasks[k]? = some before then some { c with tasks := c.tasks.set k after } else none

/-- The inbox's loop moves. -/
def moveInbox (c : Conn) (before after : InboxStage) : Option Conn :=
  if c.inbox = before then some { c with inbox := after } else none

/-- A notification of `freed`, for the listener the loop holds. -/
def notify (c : Conn) : Conn := { c with freed := c.freed.map fun _ => true }

/-- **Nobody holds the connection's `Flight`.** -/
def released (c : Conn) : Bool :=
  c.stage = .ended && c.tasks.all (· = .gone) && c.inbox = .gone

/-- One step. -/
def step (c : Conn) (full : Bool) : ConnAction → Option (Conn × Effect)
  | .turn => c.turn full
  | .drain => if c.stage = .top then some ({ c with draining := true }, .none) else none
  | .close =>
    match c.stage with
    | .top | .parked .reading => some ({ c with closing := true, stage := .top }, .none)
    | _ => none
  | .read message =>
    if c.stage = .parked .reading then
      some ({ c with stage := if message && !c.closing then .take .read else .top }, .none)
    else none
  | .heard =>
    match c.stage, c.freed with
    | .parked _, some true => some ({ c with freed := none, stage := .top }, .none)
    | _, _ => none
  | .wake =>
    match c.stage with
    | .parked _ => some ({ c with stage := .top }, .none)
    | _ => none
  | .leave =>
    -- not inside `begin` or `handled`
    match c.stage with
    | .count _ | .leave _ | .ended => none
    | _ => some ({ c with stage := .ended }, .none)
  | .poll k => (c.moveTask k .fresh .running).map (·, .none)
  | .answer k =>
    (c.moveTask k .running .leaving).map fun c => ({ c with handling := c.handling - 1 }, .none)
  | .giveBack k => (c.moveTask k .leaving .answered).map (·, .back 1)
  | .finish k =>
    (c.moveTask k .answered .gone).map fun c => ({ c with busy := c.busy - 1 }, .none)
  | .abort k => (c.moveTask k .fresh .gone).map (·, .none)
  | .inboxTake =>
    if c.queue = 0 then none
    else (c.moveInbox .idle .busy).map fun c => ({ c with queue := c.queue - 1 }, .none)
  | .inboxHandled =>
    (c.moveInbox .busy .leaving).map fun c => ({ c with handling := c.handling - 1 }, .none)
  | .inboxGiveBack =>
    (c.moveInbox .leaving .idle).map fun c => ({ c with busy := c.busy - 1 }, .back 1)
  | .inboxDrop =>
    if c.inbox = .idle ∨ c.inbox = .busy then some ({ c with inbox := .gone, queue := 0 }, .none)
    else none
  | .dropFlight =>
    if c.released && c.flight then some ({ c with flight := false }, .back c.handling) else none

end Conn

/-- **The server**: the places held, and its connections. -/
structure Server where
  held : ℤ := 0
  conns : List Conn := []
deriving DecidableEq

/-- A connection begins, or one moves. -/
inductive ServerAction
  | connect (maxInflight : ℕ) (raw : Bool)
  | conn (i : ℕ) (action : ConnAction)
deriving DecidableEq

namespace Server

/-- **`give_back`**: every listener is notified if all places were taken before. -/
def giveBack (limit : ℕ) (s : Server) (places : ℤ) : Server :=
  if places = 0 then s
  else
    { held := s.held - places
      conns := if limit ≤ s.held then
        s.conns.map Conn.notify else s.conns }

/-- What a step does to the places. -/
def affect (limit : ℕ) (s : Server) : Effect → Server
  | .none => s
  | .take => { s with held := s.held + 1 }
  | .back places => s.giveBack limit places

/-- One step of the server. -/
def step (limit : ℕ) (s : Server) : ServerAction → Option Server
  | .connect maxInflight raw => some { s with conns := s.conns ++ [{ maxInflight, raw }] }
  | .conn i action =>
    match s.conns[i]? with
    | none => none
    | some c =>
      (c.step (limit ≤ s.held) action).map fun (c', effect) =>
        affect limit { s with conns := s.conns.set i c' } effect

end Server

/-- **The server's machine**, under its `server_max_inflight`. -/
def serverMachine (limit : ℕ) : Machine Server ServerAction where
  init := {}
  step := Server.step limit

/-! ## What a connection holds -/

/-- A task's message that is counted in `handling`. -/
def MessageStage.counted : MessageStage → ℤ
  | .fresh | .running => 1
  | _ => 0

/-- A task between its two steps of `handled`. -/
def MessageStage.leaves : MessageStage → ℤ
  | .leaving => 1
  | _ => 0

/-- A task's message that is not finished. -/
def MessageStage.unfinished : MessageStage → ℤ
  | .gone => 0
  | _ => 1

def InboxStage.counted : InboxStage → ℤ
  | .busy => 1
  | _ => 0

def InboxStage.leaves : InboxStage → ℤ
  | .leaving => 1
  | _ => 0

/-- The loop has a message counted and not handed on. -/
def LoopStage.counted : LoopStage → ℤ
  | .hand _ => 1
  | _ => 0

/-- The loop is between the two steps of `begin` or of `handled`. -/
def LoopStage.underway : LoopStage → ℤ
  | .count _ | .leave _ => 1
  | _ => 0

def LoopStage.unfinished : LoopStage → ℤ
  | .hand _ | .leave _ => 1
  | _ => 0

/-- A stage at which the loop has counted nothing and is in no call. -/
def LoopStage.plain : LoopStage → Bool
  | .count _ | .hand _ | .leave _ | .ended => false
  | _ => true

namespace Conn

variable {c c' : Conn} {full : Bool} {a : ConnAction} {effect : Effect} {caller : Caller}
  {before : InboxStage} {k : ℕ} {stage : LoopStage}

/-- The messages of a connection that somebody is to count out. -/
def counted (c : Conn) : ℤ :=
  (c.tasks.map MessageStage.counted).sum + c.queue + c.inbox.counted + c.stage.counted

/-- **The calls of `begin` and `handled` under way**, each with a place and without a count. -/
def underway (c : Conn) : ℤ :=
  (c.tasks.map MessageStage.leaves).sum + c.inbox.leaves + c.stage.underway

/-- The messages somebody is to finish. -/
def unfinished (c : Conn) : ℤ :=
  (c.tasks.map MessageStage.unfinished).sum + c.queue + c.inbox.counted + c.inbox.leaves +
    c.stage.unfinished

/-- The messages counted, as long as there is a `Flight` to count them. -/
def handled (c : Conn) : ℤ := if c.flight then c.handling else 0

/-- **The places of a connection.** -/
def weight (c : Conn) : ℤ := c.handled + c.underway

/-- The loop can still come to count a message it has read, or is about to read. -/
def accepts (c : Conn) : Bool :=
  match c.stage with
  | .take _ | .count _ => true
  | .parked .reading => !c.closing
  | _ => false

/-- **The invariant of a connection.** -/
structure Inv (c : Conn) : Prop where
  counted : c.counted ≤ c.handling
  unfinished : c.unfinished ≤ c.busy
  bound : c.handling ≤ c.maxInflight
  /-- A message on its way in has room under the connection's own bound. -/
  room : c.waiting = true ∨ c.accepts = true → c.handling < c.maxInflight
  /-- Nothing waits while the loop is to read, or counts what it read. -/
  alone : c.stage = .bound ∨ c.accepts = true → c.waiting = false
  dropped : c.flight = false → c.released = true

theorem Inv.flight_of (h : c.Inv) (hlive : c.released = false) : c.flight = true := by
  cases hflight : c.flight with
  | true => rfl
  | false => exact absurd (h.dropped hflight) (by rw [hlive]; exact Bool.false_ne_true)

theorem released_of_stage (hstage : c.stage ≠ .ended) : c.released = false := by
  simp [released, hstage]

theorem released_of_task {stage : MessageStage} (htask : c.tasks[k]? = some stage)
    (hstage : stage ≠ .gone) : c.released = false := by
  have hall : c.tasks.all (· = .gone) = false := by
    rw [all_eq_false]
    exact ⟨stage, mem_of_getElem? htask, by simpa using hstage⟩
  simp [released, hall]

theorem released_of_inbox (hinbox : c.inbox ≠ .gone) : c.released = false := by
  simp [released, hinbox]

/-! ### The loop's steps -/

/-- **A step keeps the invariant**, and what the connection weighs follows its effect. -/
def Keeps (c : Conn) (next : Conn × Effect) : Prop :=
  next.1.Inv ∧ next.1.weight = c.weight + next.2.amount

section

variable (h : c.Inv)
include h

/-- **The counts follow what is counted.** -/
theorem Inv.keeps (hlive : c.released = false) (hmax : c'.maxInflight = c.maxInflight)
    (hflight : c'.flight = c.flight) (hcounted : c'.counted + c.handling ≤ c.counted + c'.handling)
    (hunfinished : c'.unfinished + c.busy ≤ c.unfinished + c'.busy)
    (hbound : c'.handling ≤ c.maxInflight)
    (hroom : c'.waiting = true ∨ c'.accepts = true → c'.handling < c.maxInflight)
    (halone : c'.stage = .bound ∨ c'.accepts = true → c'.waiting = false)
    (heffect : c'.handling + c'.underway = c.handling + c.underway + effect.amount) :
    Keeps c (c', effect) := by
  have hthere : c.flight = true := h.flight_of hlive
  have hcounted₀ := h.counted
  have hunfinished₀ := h.unfinished
  refine ⟨⟨?_, ?_, ?_, ?_, halone, fun hgone => ?_⟩, ?_⟩
  · show c'.counted ≤ c'.handling
    omega
  · show c'.unfinished ≤ c'.busy
    omega
  · rwa [hmax]
  · rwa [hmax]
  · rw [hflight, hthere] at hgone
    cases hgone
  · show c'.weight = c.weight + effect.amount
    rw [weight, weight, handled, handled, hflight, hthere, if_pos rfl, if_pos rfl, heffect]

/-- What the loop's own steps leave alone. -/
def apart (c : Conn) : ℤ × List MessageStage × InboxStage × ℕ × Bool :=
  (c.maxInflight, c.tasks, c.inbox, c.queue, c.flight)

/-- **What the loop does by itself**: the counts follow its stage. -/
theorem Inv.loop (hlive : c.stage ≠ .ended) (hapart : c'.apart = c.apart)
    (hcounted : c'.stage.counted + c.handling ≤ c.stage.counted + c'.handling)
    (hunfinished : c'.stage.unfinished + c.busy ≤ c.stage.unfinished + c'.busy)
    (hbound : c'.handling ≤ c.maxInflight)
    (hroom : c'.waiting = true ∨ c'.accepts = true → c'.handling < c.maxInflight)
    (halone : c'.stage = .bound ∨ c'.accepts = true → c'.waiting = false)
    (heffect : c'.handling + c'.stage.underway = c.handling + c.stage.underway + effect.amount) :
    Keeps c (c', effect) := by
  simp only [apart, Prod.mk.injEq] at hapart
  obtain ⟨hmax, htasks, hinbox, hqueue, hflight⟩ := hapart
  refine h.keeps (released_of_stage hlive) hmax hflight ?_ ?_ hbound hroom halone ?_
  · simp only [Conn.counted, htasks, hinbox, hqueue]
    omega
  · simp only [Conn.unfinished, htasks, hinbox, hqueue]
    omega
  · simp only [underway, htasks, hinbox]
    omega

omit h in
theorem weights_plain (hplain : stage.plain = true) : stage ≠ .ended ∧ stage.counted = 0 ∧
    stage.unfinished = 0 ∧ stage.underway = 0 := by
  cases stage <;> cases hplain <;> exact ⟨nofun, rfl, rfl, rfl⟩

/-- **The loop goes on**, with nothing counted. -/
theorem Inv.goes (hstage : c.stage = stage) (hplain : stage.plain = true)
    (hplain' : c'.stage.plain = true) (hapart : c'.apart = c.apart)
    (hhandling : c'.handling = c.handling) (hbusy : c'.busy = c.busy)
    (hroom : c'.waiting = true ∨ c'.accepts = true → c.handling < c.maxInflight)
    (halone : c'.stage = .bound ∨ c'.accepts = true → c'.waiting = false) :
    Keeps c (c', .none) := by
  subst hstage
  obtain ⟨hlive, hcounted, hunfinished, hunderway⟩ := weights_plain hplain
  obtain ⟨-, hcounted', hunfinished', hunderway'⟩ := weights_plain hplain'
  have hbound := h.bound
  refine h.loop hlive hapart (by omega) (by omega) (by omega) (hhandling ▸ hroom) halone ?_
  rw [hhandling, hunderway, hunderway']
  exact (Int.add_zero _).symm

/-- A step of the loop that only moves it on, to a stage at which it accepts nothing. -/
theorem Inv.to_stage {stage' : LoopStage} (hstage : c.stage = stage) (hplain : stage.plain = true)
    (hplain' : stage'.plain = true) (haccepts : { c with stage := stage' }.accepts = false)
    (hbound : stage' ≠ .bound) : Keeps c ({ c with stage := stage' }, .none) :=
  h.goes hstage hplain hplain' rfl rfl rfl
    (fun hw => h.room (.inl (hw.resolve_right (by simp [haccepts]))))
    (fun hs => by simp [haccepts, hbound] at hs)

omit h in
theorem plain_returnTo (caller : Caller) : (returnTo caller).plain = true := by
  cases caller <;> rfl

omit h in
theorem accepts_returnTo (caller : Caller) (hstage : c.stage = returnTo caller) :
    c.accepts = false := by
  cases caller <;> simp [accepts, hstage, returnTo]

omit h in
theorem returnTo_ne_bound (caller : Caller) : returnTo caller ≠ .bound := by
  cases caller <;> nofun

/-- **The loop takes its place**, and then counts its message. -/
theorem Inv.take (hstage : c.stage = .take caller) :
    Keeps c ({ c with stage := .count caller }, .take) := by
  have haccepts : c.accepts = true := by simp [accepts, hstage]
  refine h.loop (by simp [hstage]) rfl ?_ ?_ h.bound
    (fun _ => h.room (.inr haccepts)) (fun _ => h.alone (.inr haccepts)) ?_
  · simp [hstage, LoopStage.counted]
  · simp [hstage, LoopStage.unfinished]
  · simp [hstage, LoopStage.underway, Effect.amount]

theorem Inv.count (hstage : c.stage = .count caller) :
    Keeps c ({ c with handling := c.handling + 1, busy := c.busy + 1, stage := .hand caller },
      .none) := by
  have haccepts : c.accepts = true := by simp [accepts, hstage]
  have hroom : c.handling < c.maxInflight := h.room (.inr haccepts)
  have halone : c.waiting = false := h.alone (.inr haccepts)
  refine h.loop (by simp [hstage]) rfl ?_ ?_ hroom (by simp [halone, accepts])
    (fun _ => halone) ?_
  · simp only [hstage, LoopStage.counted]
    omega
  · simp only [hstage, LoopStage.unfinished]
    omega
  · simp [hstage, LoopStage.underway, Effect.amount]

/-- The inbox is gone: the loop counts its own message out. -/
theorem Inv.uncount (hstage : c.stage = .hand caller) :
    Keeps c ({ c with handling := c.handling - 1, stage := .leave caller }, .none) := by
  have hbound := h.bound
  have hless : c.handling - 1 < c.maxInflight := by omega
  refine h.loop (by simp [hstage]) rfl ?_ ?_ (Int.le_of_lt hless) (fun _ => hless)
    (by simp [accepts]) ?_
  · simp only [hstage, LoopStage.counted]
    omega
  · simp [hstage, LoopStage.unfinished]
  · simp [hstage, LoopStage.underway, Effect.amount]

/-- **The loop is done with a message**, and returns to where it took it. -/
theorem Inv.returns (hlive : c.stage ≠ .ended) (hmax : c'.maxInflight = c.maxInflight)
    (hflight : c'.flight = c.flight) (hwaiting : c'.waiting = c.waiting)
    (hhandling : c'.handling = c.handling) (hstage : c'.stage = returnTo caller)
    (hcounted : c'.counted ≤ c.counted)
    (hunfinished : c'.unfinished + c.busy ≤ c.unfinished + c'.busy)
    (heffect : c'.underway = c.underway + effect.amount) : Keeps c (c', effect) := by
  have haccepts : c'.accepts = false := accepts_returnTo caller hstage
  have hbound := h.bound
  refine h.keeps (released_of_stage hlive) hmax hflight (by omega) hunfinished (by omega)
    (fun hw => ?_) (fun hs => ?_) (by omega)
  · rw [hhandling]
    exact h.room (.inl (hwaiting ▸ hw.resolve_right (by simp [haccepts])))
  · simp [haccepts, hstage, returnTo_ne_bound] at hs

theorem Inv.leave (hstage : c.stage = .leave caller) :
    Keeps c ({ c with busy := c.busy - 1, stage := returnTo caller }, .back 1) := by
  obtain ⟨-, hcounted, hunfinished, hunderway⟩ := weights_plain (plain_returnTo caller)
  have hleave : c.stage.counted = 0 ∧ c.stage.unfinished = 1 ∧ c.stage.underway = 1 := by
    rw [hstage]
    exact ⟨rfl, rfl, rfl⟩
  refine h.returns (by simp [hstage]) rfl rfl rfl rfl rfl ?_ ?_ ?_
  · simp only [Conn.counted, hcounted, hleave]
    omega
  · simp only [Conn.unfinished, hunfinished, hleave]
    omega
  · simp only [underway, hunderway, hleave, Effect.amount]
    omega

omit h in
/-- What the loop has of a message it is to hand on. -/
theorem weights_hand (hstage : c.stage = .hand caller) :
    c.stage.counted = 1 ∧ c.stage.unfinished = 1 ∧ c.stage.underway = 0 := by
  rw [hstage]
  exact ⟨rfl, rfl, rfl⟩

/-- **The message is handed on**, to a task of its own. -/
theorem Inv.spawn (hstage : c.stage = .hand caller) :
    Keeps c ({ c with tasks := c.tasks ++ [.fresh], stage := returnTo caller }, .none) := by
  obtain ⟨-, hcounted, hunfinished, hunderway⟩ := weights_plain (plain_returnTo caller)
  have hhand := weights_hand hstage
  refine h.returns (by simp [hstage]) rfl rfl rfl rfl rfl ?_ ?_ ?_
  · simp only [Conn.counted, hcounted, hhand, map_append, map_singleton, sum_append,
      sum_singleton, MessageStage.counted]
    omega
  · simp only [Conn.unfinished, hunfinished, hhand, map_append, map_singleton, sum_append,
      sum_singleton, MessageStage.unfinished]
    omega
  · simp only [underway, hunderway, hhand, map_append, map_singleton, sum_append,
      sum_singleton, MessageStage.leaves, Effect.amount]
    omega

/-- … or to the inbox. -/
theorem Inv.enqueue (hstage : c.stage = .hand caller) :
    Keeps c ({ c with queue := c.queue + 1, stage := returnTo caller }, .none) := by
  obtain ⟨-, hcounted, hunfinished, hunderway⟩ := weights_plain (plain_returnTo caller)
  have hhand := weights_hand hstage
  refine h.returns (by simp [hstage]) rfl rfl rfl rfl rfl ?_ ?_ ?_
  · simp only [Conn.counted, hcounted, hhand]
    omega
  · simp only [Conn.unfinished, hunfinished, hhand]
    omega
  · simp only [underway, hunderway, hhand, Effect.amount]
    omega

/-- **A turn keeps the invariant.** -/
theorem Inv.turn (hturn : c.turn full = some (c', effect)) : Keeps c (c', effect) := by
  cases hstage : c.stage with simp only [Conn.turn, hstage] at hturn
  | top =>
    cases hturn
    split <;> exact h.to_stage hstage rfl rfl rfl nofun
  | listen =>
    cases hturn
    exact h.goes hstage rfl rfl rfl rfl rfl
      (fun hw => h.room (.inl (hw.resolve_right nofun))) (by rintro (hs | hs) <;> cases hs)
  | retry =>
    split at hturn <;> cases hturn
    · rename_i hcond
      simp only [Bool.and_eq_true] at hcond
      exact h.goes hstage rfl rfl rfl rfl rfl (fun _ => h.room (.inl hcond.2)) (fun _ => rfl)
    · exact h.to_stage hstage rfl rfl rfl nofun
  | take caller =>
    split at hturn <;> cases hturn
    · have haccepts : Conn.accepts { c with waiting := true, stage := returnTo caller } = false :=
        accepts_returnTo caller rfl
      exact h.goes hstage rfl (plain_returnTo caller) rfl rfl rfl
        (fun _ => h.room (.inr (by simp [accepts, hstage])))
        (fun hs => by simp [haccepts, returnTo_ne_bound] at hs)
    · exact h.take hstage
  | count =>
    cases hturn
    exact h.count hstage
  | hand =>
    split at hturn
    · split at hturn <;> cases hturn
      · exact h.uncount hstage
      · exact h.enqueue hstage
    · cases hturn
      exact h.spawn hstage
  | leave =>
    cases hturn
    exact h.leave hstage
  | decide =>
    split at hturn
    · cases hturn
      rename_i hclosing
      have haccepts : Conn.accepts { c with stage := .parked .reading } = false := by
        simp [accepts, hclosing]
      exact h.to_stage hstage rfl rfl haccepts nofun
    · split at hturn
      · cases hturn
        exact h.to_stage hstage rfl rfl rfl nofun
      · split at hturn
        · cases hturn
          exact h.to_stage hstage rfl rfl rfl nofun
        · rename_i hwaiting
          have hnone : c.waiting = false := Bool.eq_false_iff.mpr hwaiting
          split at hturn <;> cases hturn
          · exact h.to_stage hstage rfl rfl rfl nofun
          · exact h.goes hstage rfl rfl rfl rfl rfl (by simp [hnone, accepts]) (fun _ => hnone)
  | bound =>
    cases hturn
    have halone : c.waiting = false := h.alone (.inl hstage)
    split
    · exact h.goes hstage rfl rfl rfl rfl rfl (fun _ => ‹_›) (fun _ => halone)
    · exact h.to_stage hstage rfl rfl rfl nofun
  | parked | ended =>
    cases hturn

/-! ### The tasks' steps -/

omit h in
theorem moveTask_eq_some {before after : MessageStage} {f : Conn → Conn × Effect}
    {next : Conn × Effect} : (c.moveTask k before after).map f = some next ↔
      c.tasks[k]? = some before ∧ f { c with tasks := c.tasks.set k after } = next := by
  unfold Conn.moveTask
  split <;> simp [*]

/-- **A task moves**, and the counts with it. -/
theorem Inv.moveTask {before after : MessageStage} {f : Conn → Conn} {e : Effect}
    (hstep : (c.moveTask k before after).map (fun c => (f c, e)) = some (c', effect))
    (hbefore : before ≠ .gone) (counts done : ℤ)
    (hf : ∀ c, f c = { c with handling := c.handling - counts, busy := c.busy - done })
    (hcounted : after.counted + counts ≤ before.counted)
    (hunfinished : after.unfinished + done ≤ before.unfinished) (hcounts : 0 ≤ counts)
    (heffect : after.leaves = before.leaves + counts + e.amount) : Keeps c (c', effect) := by
  obtain ⟨htask, heq⟩ := moveTask_eq_some.mp hstep
  rw [hf] at heq
  cases heq
  have hsum₁ := sum_map_set MessageStage.counted htask after
  have hsum₂ := sum_map_set MessageStage.unfinished htask after
  have hsum₃ := sum_map_set MessageStage.leaves htask after
  have hbound := h.bound
  refine h.keeps (released_of_task htask hbefore) rfl rfl ?_ ?_ ?_ (fun hw => ?_) h.alone ?_
  · simp only [Conn.counted]
    omega
  · simp only [Conn.unfinished]
    omega
  · simp only
    omega
  · have hroom := h.room hw
    simp only
    omega
  · simp only [underway]
    omega

/-- **The inbox's loop moves**, and the counts with it. -/
theorem Inv.moveInbox (hinbox : c.inbox = before) (hbefore : before ≠ .gone) (after : InboxStage)
    (queue : ℕ) (counts done : ℤ) (hc' : c' = { c with
      inbox := after, queue := queue, handling := c.handling - counts, busy := c.busy - done })
    (hcounted : after.counted + queue + counts ≤ before.counted + c.queue)
    (hunfinished :
      after.counted + after.leaves + queue + done ≤ before.counted + before.leaves + c.queue)
    (hcounts : 0 ≤ counts) (heffect : after.leaves = before.leaves + counts + effect.amount) :
    Keeps c (c', effect) := by
  subst hc'
  have hbound := h.bound
  refine h.keeps (released_of_inbox (hinbox ▸ hbefore)) rfl rfl ?_ ?_ ?_ (fun hw => ?_) h.alone ?_
  · simp only [Conn.counted, hinbox]
    omega
  · simp only [Conn.unfinished, hinbox]
    omega
  · simp only
    omega
  · have hroom := h.room hw
    simp only
    omega
  · simp only [underway, hinbox]
    omega

/-- The drop of a `Flight` gives back whatever is still counted. -/
theorem Inv.dropFlight (hreleased : c.released = true) (hflight : c.flight = true) :
    Keeps c ({ c with flight := false }, .back c.handling) := by
  refine ⟨{ h with dropped := fun _ => hreleased }, ?_⟩
  show (0 : ℤ) + c.underway = (if c.flight = true then c.handling else 0) + c.underway + -c.handling
  rw [if_pos hflight]
  omega

omit h in
theorem moveInbox_eq_some {after : InboxStage} {f : Conn → Conn × Effect} {next : Conn × Effect} :
    (c.moveInbox before after).map f = some next ↔
      c.inbox = before ∧ f { c with inbox := after } = next := by
  unfold Conn.moveInbox
  split <;> simp [*]

/-- The loop's turn begins anew. -/
theorem Inv.to_top {closing : Bool} {freed : Option Bool} (hstage : c.stage = stage)
    (hplain : stage.plain = true) :
    Keeps c ({ c with closing := closing, freed := freed, stage := .top }, .none) :=
  h.goes hstage hplain rfl rfl rfl rfl
    (fun hw => h.room (.inl (hw.resolve_right nofun))) (by rintro (hs | hs) <;> cases hs)

end

theorem counted_stage_nonneg (stage : LoopStage) : 0 ≤ stage.counted := by
  cases stage <;> simp [LoopStage.counted]

theorem unfinished_stage_nonneg (stage : LoopStage) : 0 ≤ stage.unfinished := by
  cases stage <;> simp [LoopStage.unfinished]

/-- The loop ends, with whatever it had counted and not handed on. -/
theorem Inv.ends (h : c.Inv) (hlive : c.stage ≠ .ended) (hunderway : c.stage.underway = 0) :
    Keeps c ({ c with stage := .ended }, .none) := by
  have hcounted := counted_stage_nonneg c.stage
  have hunfinished := unfinished_stage_nonneg c.stage
  refine h.loop hlive rfl ?_ ?_ h.bound
    (fun hw => h.room (.inl (hw.resolve_right nofun))) (by rintro (hs | hs) <;> cases hs) ?_
  · show 0 + c.handling ≤ c.stage.counted + c.handling
    omega
  · show 0 + c.busy ≤ c.stage.unfinished + c.busy
    omega
  · rw [hunderway]
    exact (Int.add_zero _).symm

/-- **Every step keeps the invariant.** -/
theorem Inv.step (h : c.Inv) (hstep : c.step full a = some (c', effect)) :
    Keeps c (c', effect) := by
  cases a with simp only [Conn.step] at hstep
  | turn => exact h.turn hstep
  | drain =>
    split at hstep <;> cases hstep
    rename_i hstage
    exact h.goes hstage rfl (hstage ▸ rfl) rfl rfl rfl h.room h.alone
  | close =>
    split at hstep <;> cases hstep <;> rename_i hstage <;> exact h.to_top hstage rfl
  | read =>
    split at hstep <;> cases hstep
    rename_i hstage
    split
    · rename_i hcond
      have haccepts : c.accepts = true := by
        rw [Bool.and_eq_true] at hcond
        simpa [accepts, hstage] using hcond.2
      exact h.goes hstage rfl rfl rfl rfl rfl (fun _ => h.room (.inr haccepts))
        (fun _ => h.alone (.inr haccepts))
    · exact h.to_top hstage rfl
  | heard =>
    split at hstep <;> cases hstep
    rename_i hstage _
    exact h.to_top hstage rfl
  | wake =>
    split at hstep <;> cases hstep
    rename_i hstage
    exact h.to_top hstage rfl
  | leave =>
    cases hstage : c.stage <;> simp only [hstage] at hstep <;> cases hstep <;>
      exact h.ends (by simp [hstage]) (hstage ▸ rfl)
  | poll | giveBack | abort =>
    exact h.moveTask hstep nofun 0 0 (by simp) (by decide) (by decide) (by decide) rfl
  | answer =>
    exact h.moveTask hstep nofun 1 0 (by simp) (by decide) (by decide) (by decide) rfl
  | finish =>
    exact h.moveTask hstep nofun 0 1 (by simp) (by decide) (by decide) (by decide) rfl
  | inboxTake =>
    split at hstep
    · cases hstep
    · obtain ⟨hinbox, heq⟩ := moveInbox_eq_some.mp hstep
      cases heq
      refine h.moveInbox hinbox nofun .busy (c.queue - 1) 0 0 ?_ ?_ ?_ (by decide) rfl <;>
        simp only [Int.sub_zero, InboxStage.counted, InboxStage.leaves] <;> omega
  | inboxHandled =>
    obtain ⟨hinbox, heq⟩ := moveInbox_eq_some.mp hstep
    cases heq
    refine h.moveInbox hinbox nofun .leaving c.queue 1 0 ?_ ?_ ?_ (by decide) rfl <;>
      simp only [Int.sub_zero, InboxStage.counted, InboxStage.leaves] <;> omega
  | inboxGiveBack =>
    obtain ⟨hinbox, heq⟩ := moveInbox_eq_some.mp hstep
    cases heq
    refine h.moveInbox hinbox nofun .idle c.queue 0 1 ?_ ?_ ?_ (by decide) rfl <;>
      simp only [Int.sub_zero, InboxStage.counted, InboxStage.leaves] <;> omega
  | inboxDrop =>
    split at hstep <;> cases hstep
    rename_i hinbox
    rcases hinbox with hinbox | hinbox <;>
      refine h.moveInbox hinbox nofun .gone 0 0 0 ?_ ?_ ?_ (by decide) rfl <;>
      simp only [Int.sub_zero, InboxStage.counted, InboxStage.leaves] <;> omega
  | dropFlight =>
    split at hstep <;> cases hstep
    rename_i hcond
    rw [Bool.and_eq_true] at hcond
    exact h.dropFlight hcond.1 hcond.2

theorem sum_tasks_nonneg (c : Conn) {f : MessageStage → ℤ} (hf : ∀ stage, 0 ≤ f stage) :
    0 ≤ (c.tasks.map f).sum := by
  refine sum_nonneg fun n hn => ?_
  obtain ⟨stage, -, rfl⟩ := mem_map.mp hn
  exact hf stage

theorem counted_nonneg (c : Conn) : 0 ≤ c.counted := by
  have htasks := c.sum_tasks_nonneg fun stage : MessageStage =>
    show 0 ≤ stage.counted by cases stage <;> simp [MessageStage.counted]
  have hinbox : 0 ≤ c.inbox.counted := by cases c.inbox <;> simp [InboxStage.counted]
  have hstage := counted_stage_nonneg c.stage
  simp only [counted]
  omega

theorem Inv.handling_nonneg (h : c.Inv) : 0 ≤ c.handling := Int.le_trans c.counted_nonneg h.counted

/-- **A step takes a place only if it found one free**, and gives back no negative number. -/
theorem Inv.places (h : c.Inv) (hstep : c.step full a = some (c', effect)) :
    (effect = .take → full = false) ∧ ∀ places, effect = .back places → 0 ≤ places := by
  have hhandling := h.handling_nonneg
  cases a with
  | turn =>
    simp only [Conn.step, Conn.turn] at hstep
    grind
  | inboxTake =>
    simp only [Conn.step] at hstep
    split at hstep
    · cases hstep
    · rw [Option.map_eq_some_iff] at hstep
      grind
  | _ =>
    simp only [Conn.step, Option.map_eq_some_iff] at hstep
    grind

/-- A connection begins with nothing counted. -/
theorem Inv.new (maxInflight : ℕ) (raw : Bool) : Inv { maxInflight, raw } := by
  refine ⟨?_, ?_, Int.natCast_nonneg _, ?_, ?_, nofun⟩
  · cases raw <;> exact Int.le_refl 0
  · cases raw <;> exact Int.le_refl 0
  · rintro (hs | hs) <;> cases hs
  · rintro (hs | hs) <;> cases hs

theorem weight_new (maxInflight : ℕ) (raw : Bool) : weight { maxInflight, raw } = 0 := by
  cases raw <;> rfl

end Conn

namespace Server

variable {limit : ℕ} {s s' : Server} {a : ServerAction} {effect : Effect}

/-! ## The server's places -/

theorem affect_held (limit : ℕ) (s : Server) (effect : Effect) :
    (s.affect limit effect).held = s.held + effect.amount := by
  cases effect with
  | none => exact (Int.add_zero _).symm
  | take => rfl
  | back =>
    simp only [affect, giveBack, Effect.amount]
    split
    · omega
    · rfl

/-- The connections are as they were, up to what their listeners have heard. -/
theorem affect_conns (limit : ℕ) (s : Server) (effect : Effect) :
    (s.affect limit effect).conns = s.conns ∨
      (s.affect limit effect).conns = s.conns.map Conn.notify := by
  cases effect with
  | none | take => exact .inl rfl
  | back =>
    simp only [affect, giveBack]
    split
    · exact .inl rfl
    · show (if limit ≤ s.held then s.conns.map Conn.notify else s.conns) = s.conns ∨ _
      split
      · exact .inr rfl
      · exact .inl rfl

/-- A sum that does not look at the listeners. -/
theorem affect_sum {f : Conn → ℤ} (hf : ∀ c : Conn, f c.notify = f c) (limit : ℕ) (s : Server)
    (effect : Effect) : ((s.affect limit effect).conns.map f).sum = (s.conns.map f).sum := by
  rcases affect_conns limit s effect with hconns | hconns <;> rw [hconns]
  rw [map_map]
  exact congrArg sum (map_congr_left fun c _ => hf c)

/-- **The invariant of the server**: a place is held for every message counted or on its
way in or out, and for nothing else. -/
structure Inv (limit : ℕ) (s : Server) : Prop where
  conns : ∀ c ∈ s.conns, c.Inv
  held : s.held = (s.conns.map Conn.weight).sum
  bounded : s.held ≤ limit

theorem Inv.affect (effect : Effect) (hconns : ∀ c ∈ s.conns, c.Inv) :
    ∀ c ∈ (s.affect limit effect).conns, c.Inv := by
  intro c hc
  rcases affect_conns limit s effect with heq | heq <;> rw [heq] at hc
  · exact hconns c hc
  · obtain ⟨c₀, hc₀, rfl⟩ := mem_map.mp hc
    exact { hconns c₀ hc₀ with }

theorem step_conn {i : ℕ} {action : ConnAction}
    (hstep : (serverMachine limit).step s (.conn i action) = some s') :
    ∃ c c' effect, s.conns[i]? = some c ∧ c.step (limit ≤ s.held) action = some (c', effect) ∧
      s' = affect limit { s with conns := s.conns.set i c' } effect := by
  have hstep' : Server.step limit s (.conn i action) = some s' := hstep
  simp only [Server.step] at hstep'
  split at hstep'
  · cases hstep'
  · rename_i c hc
    obtain ⟨⟨c', effect⟩, hmoved, rfl⟩ := Option.map_eq_some_iff.mp hstep'
    exact ⟨c, c', effect, hc, hmoved, rfl⟩

theorem Inv.step (h : s.Inv limit) (hstep : (serverMachine limit).step s a = some s') :
    s'.Inv limit := by
  cases a with
  | connect maxInflight raw =>
    cases hstep
    refine ⟨fun c hc => ?_, ?_, h.bounded⟩
    · rcases mem_snoc.mp hc with hc | rfl
      · exact h.conns c hc
      · exact Conn.Inv.new maxInflight raw
    · show s.held = ((s.conns ++ [_]).map Conn.weight).sum
      rw [map_append, sum_append, ← h.held, map_singleton, sum_singleton,
        Conn.weight_new, Int.add_zero]
  | conn i =>
    obtain ⟨c, c', effect, hc, hmoved, rfl⟩ := step_conn hstep
    have hinv : c.Inv := h.conns c (mem_of_getElem? hc)
    obtain ⟨hinv', hweight⟩ := hinv.step hmoved
    obtain ⟨htake, hback⟩ := hinv.places hmoved
    have hheld := h.held
    have hbounded := h.bounded
    refine ⟨Inv.affect effect fun d hd => ?_, ?_, ?_⟩
    · rcases mem_or_eq_of_mem_set hd with hd | rfl
      · exact h.conns d hd
      · exact hinv'
    · have hsum := sum_map_set Conn.weight hc c'
      rw [affect_held, affect_sum (fun _ => rfl)]
      show s.held + effect.amount = ((s.conns.set i c').map Conn.weight).sum
      simp only at hweight
      omega
    · rw [affect_held]
      show s.held + effect.amount ≤ limit
      cases effect with
      | none => exact (Int.add_zero s.held).symm ▸ hbounded
      | take =>
        have hfree : ¬ (limit : ℤ) ≤ s.held := of_decide_eq_false (htake rfl)
        simp only [Effect.amount]
        omega
      | back places =>
        have hplaces := hback places rfl
        simp only [Effect.amount]
        omega

theorem Inv.init : (serverMachine limit).init.Inv limit where
  conns := fun _ hc => absurd hc not_mem_nil
  held := rfl
  bounded := Int.natCast_nonneg limit

end Server

end Ulo.Ws
