import Ulo.Lifecycle.Shared

/-!
# Response bodies

The body of a response is wrapped on its way out. A route with a timeout wraps its answer
in a `TimedBody`; a body of no known length is wrapped in `Tracked`, which reports how the
stream ended as it is dropped; the answer of the error handlers to a passed timeout is read
whole and written as a copy, `Buffered`, which keeps the stream it was read from and reports
for it; and the outermost body, `ExecBody`, cuts a stream at the end of the drain, answers a
panic and tells a peer that left from a body that ended.

What the body of the application answers to a poll, whether it then says that it is at its
end, and what it reports on its own, is the environment's to choose; so is whether a timeout
has passed.
-/

namespace Ulo.Http

/-- A frame of a body. -/
inductive Frame
  | data (bytes : List UInt8)
  | trailers (headers : List (String × String))
deriving DecidableEq

/-- What `poll_frame` answers. -/
inductive Polled
  | pending
  | frame (frame : Frame)
  | error (text : String)
  | end_
deriving DecidableEq

/-- What the outermost body answers: what the body inside does, or the error frame of the
drain's end or of a panic. -/
inductive Given
  | passes (polled : Polled)
  | shuttingDown
  | panicked
deriving DecidableEq

/-- What a body of the application does when it is polled: it answers, and then says whether it
is at its end, or it panics. It may report the end of the stream itself, as the body of an event
stream does where it gives an `error` event (`SseBody::late`) and will then end. -/
inductive Source
  | answers (polled : Polled) (atEnd : Bool) (report : Option StreamOutcome := none)
  | panics (report : Option StreamOutcome := none)
deriving DecidableEq

/-- What it reports. -/
def Source.report : Source → Option StreamOutcome
  | answers _ _ report | panics report => report

/-- **A response body**, under its wrappers. -/
inductive Body
  /-- no body, and what is left in the place of one that was taken -/
  | empty
  /-- a body of the application: whether its length is known, and whether it is at its end -/
  | source (exact atEnd : Bool)
  /-- `TimedBody`: whether its deadline is still to pass -/
  | timed (armed : Bool) (inner : Body)
  /-- `Tracked`: whether the stream returned `None` -/
  | tracked (ended : Bool) (inner : Body)
  /-- `Buffered`, read from a body of known length -/
  | buffered (data : Option (List UInt8)) (trailers : Option (List (String × String)))
  /-- `Buffered`, and the stream it was read from -/
  | copied (data : Option (List UInt8)) (trailers : Option (List (String × String))) (read : Body)

namespace Body

/-- Whether `size_hint` is exact. -/
def exact : Body → Bool
  | empty | buffered _ _ | copied _ _ _ => true
  | source exact _ => exact
  | timed _ inner => inner.exact
  | tracked _ _ => false

/-- `is_end_stream`. -/
def isEndStream : Body → Bool
  | empty => true
  | source _ atEnd => atEnd
  | timed _ inner => inner.isEndStream
  | tracked _ _ => false
  | buffered data trailers | copied data trailers _ => data.isNone && trailers.isNone

/-- The mark of an `HttpBody` that a `Tracked` inside reports the end of. -/
def marked : Body → Bool
  | tracked _ _ => true
  | timed _ inner => inner.marked
  | _ => false

/-- `HttpBody::tracked`. -/
def track (body : Body) : Body := if body.marked || body.exact then body else tracked false body

/-- `HttpBody::streams`. -/
def streams (body : Body) : Bool := body.marked || !body.exact

/-- What a buffered copy answers, and what is left of it. -/
def takeFrame (data : Option (List UInt8)) (trailers : Option (List (String × String))) :
    Polled × Option (List UInt8) × Option (List (String × String)) :=
  match data, trailers with
  | some bytes, trailers => (.frame (.data bytes), none, trailers)
  | none, some headers => (.frame (.trailers headers), none, none)
  | none, none => (.end_, none, none)

/-- **`poll_frame`**, where the body of the application does as `own` says and a timeout has
passed if `due`: what is answered, nothing after a panic, and what is then left. -/
def poll (own : Source) (due : Bool) : Body → ExecShared → Option Polled × Body × ExecShared
  | empty, exec => (some .end_, empty, exec)
  | source exact atEnd, exec =>
    let exec := own.report.elim exec exec.reportStreamEnd
    match own with
    | .answers polled atEnd' _ => (some polled, source exact atEnd', exec)
    | .panics _ => (none, source exact atEnd, exec)
  | timed armed inner, exec =>
    let exec := if armed && due then exec.cancelWith .deadline else exec
    let (polled, inner, exec) := inner.poll own due exec
    let past := polled = some .end_ || inner.isEndStream
    (polled, timed (armed && !due && !past) inner, exec)
  | tracked ended inner, exec =>
    let (polled, inner, exec) := inner.poll own due exec
    (polled, tracked (ended || polled = some .end_) inner, exec)
  | buffered data trailers, exec =>
    let (polled, data, trailers) := takeFrame data trailers
    (some polled, buffered data trailers, exec)
  | copied data trailers read, exec =>
    let (polled, data, trailers) := takeFrame data trailers
    (some polled, copied data trailers read, exec)

/-- What a body reports when it is dropped. -/
def drop : Body → ExecShared → ExecShared
  | empty, exec | source _ _, exec | buffered _ _, exec => exec
  | timed _ inner, exec => inner.drop exec
  | tracked ended inner, exec =>
    inner.drop (exec.reportStreamEnd (if ended then .completed else .cutOff exec.cancelReason))
  | copied data trailers read, exec =>
    let outcome := if data.isNone && trailers.isNone then .completed else .cutOff exec.cancelReason
    read.drop (exec.reportStreamEnd outcome)

end Body

/-- **The outermost body.** Of its listener only what it has told is kept: it resolves once the
execution is cancelled. -/
structure ExecBody where
  inner : Body
  ended : Bool
  settled : Bool := false
  waiting : Bool := false

/-- A poll of the outermost body: what the body inside answered, and what was made of it. -/
structure Asked where
  /-- whether the drain had cancelled the execution as the body inside was polled -/
  drained : Bool
  /-- whether the body had ended before -/
  ended : Bool
  /-- what the body inside answered, nothing after a panic; `none` where it was not polled, or
  nothing is left in its place -/
  inner : Option (Option Polled)
  /-- whether it then said that it was at its end -/
  atEnd : Bool
  gave : Given
deriving DecidableEq

namespace ExecBody

/-- `ExecBody::new`. -/
def new (inner : Body) (unwritten : Bool) : ExecBody where
  inner := inner
  ended := unwritten || inner.isEndStream

/-- Whether a poll that begins watches the drain. -/
def watching (b : ExecBody) : Bool := !b.ended && !b.settled && !b.inner.exact

/-- `cut_off`, and the error frame it ends the body with. -/
def cutOff (b : ExecBody) (exec : ExecShared) : ExecBody × ExecShared :=
  ({ b with inner := .empty, ended := true },
    b.inner.drop (exec.reportStreamEnd (.cutOff (some .drain))))

/-- `recover`: the body that panicked is dropped, and the error frame is the panic's. -/
def recover (b : ExecBody) (panicked : Body) (exec : ExecShared) : ExecBody × ExecShared :=
  ({ b with inner := .empty, ended := true },
    panicked.drop (exec.reportStreamEnd (.cutOff exec.cancelReason)))

/-- Whether a poll begins by cutting the body off: a wait that begins once the drain has
cancelled the call takes no further frame. -/
def cuts (b : ExecBody) (exec : ExecShared) : Bool := b.watching && !b.waiting && exec.byDrain

/-- What `poll_frame` notes of the answer of the body inside, but for its listener. -/
def note (b : ExecBody) (polled : Polled) : ExecBody :=
  { b with
    ended := b.ended || match polled with
      | .pending => false
      | .frame _ => b.inner.isEndStream
      | .error _ | .end_ => true }

/-- The drop of the outermost body, and then of the one inside. -/
def drop (b : ExecBody) (exec : ExecShared) : ExecShared :=
  b.inner.drop (if b.ended then exec else exec.cancelWith .disconnected)

end ExecBody

/-! ## What the wrappers keep -/

namespace Body

variable {own : Source} {due : Bool} {body : Body} {exec : ExecShared}

/-- No wrapper reports anything as it is polled. -/
theorem outcome_poll (hown : own.report = none) :
    (body.poll own due exec).2.2.outcome = exec.outcome := by
  induction body generalizing exec with
  | empty | buffered | copied => rfl
  | source => cases own <;> cases hown <;> rfl
  | timed armed inner ih =>
    refine Eq.trans ih ?_
    split <;> rfl
  | tracked ended inner ih => exact ih

/-- What was reported stays. -/
theorem outcome_drop_of_some {outcome : StreamOutcome} (h : exec.outcome = some outcome) :
    (body.drop exec).outcome = some outcome := by
  induction body generalizing exec with
  | empty | source | buffered => exact h
  | timed armed inner ih => exact ih h
  | tracked ended inner ih | copied data trailers inner ih =>
    refine ih ?_
    rwa [ExecShared.reportStreamEnd_of_some h]

/-- A tracked stream reports its end as it is dropped. -/
theorem outcome_drop_tracked (h : exec.outcome = none) (ended : Bool) :
    ((tracked ended body).drop exec).outcome
      = some (if ended then .completed else .cutOff exec.cancelReason) := by
  rw [drop]
  exact outcome_drop_of_some (ExecShared.reportStreamEnd_of_none h _)

/-- So does the copy of a stream, as its write ended. -/
theorem outcome_drop_copied (h : exec.outcome = none) (data : Option (List UInt8))
    (trailers : Option (List (String × String))) :
    ((copied data trailers body).drop exec).outcome
      = some (if data.isNone && trailers.isNone then .completed
          else .cutOff exec.cancelReason) := by
  rw [drop]
  exact outcome_drop_of_some (ExecShared.reportStreamEnd_of_none h _)

end Body

end Ulo.Http
