import Ulo.Http.Service
import Ulo.Http.Body

/-!
# A call, from its pipeline to the drop of its body

Once a request is admitted its **pipeline** runs: the entries, the handler and, past the
timeout of the route, the error handlers, whose answer is read whole under what remains of the
grace (`completed`). The service waits for it and for the end of the drain
(`until_drained`). The **response** it returns has the answer's body under its wrappers, and
the backend polls that body and drops it.

The execution may be cancelled at any moment, by another task, and its reason is written a
moment before the listeners are fired; so a poll of the outermost body is three steps here: the
look at the drain it begins with, the poll of the body inside, and the poll of the listener
after it. What the pipeline and the body of the application answer, and when timeouts pass, is
the environment's to choose.

For a body of the response everything that was asked of it and given is written down
(`Returned.asked`).
-/

namespace Ulo.Http

/-- What does not change during a call. -/
structure CallConfig where
  /-- the request's method, as it arrived, is `HEAD` -/
  head : Bool
  /-- a `GET` handler answers a `HEAD` -/
  headFromGet : Bool
  /-- the route has a timeout -/
  timeout : Bool
  /-- the error handlers have a grace after it -/
  grace : Bool

/-- Whether a status forbids content. -/
def forbidsBody (status : ℕ) : Bool :=
  100 ≤ status && status < 200 || status = 204 || status = 304

/-- The head of a response. -/
structure Head where
  status : ℕ
  routing : Option Routing := none

/-- What was answered with. -/
structure Made where
  /-- whether the length of the body was known -/
  exact : Bool
  /-- whether the service dropped the stream for the 504 -/
  dropped : Bool := false

/-- An answer on its way out. -/
structure Answer where
  head : Head
  body : Body
  made : Made
  /-- whether its body was taken from a `HEAD` answer -/
  stripped : Bool := false

/-- `completed`, under way. -/
structure Reading where
  head : Head
  exact : Bool
  body : Body
  data : List UInt8 := []
  waited : Bool := false
  /-- the frames read in this poll -/
  frames : ℕ := 0
  /-- this poll reads no more -/
  paused : Bool := false

/-- Where the pipeline stands. -/
inductive Pipe
  | handling
  /-- the timeout has passed, and the error handlers run -/
  | recovering
  | reading (r : Reading)
  /-- an answer passes the unscoped entries -/
  | leaving (a : Answer)
  /-- the answer panicked as it was read -/
  | panicked

/-- Where a poll of the outermost body stands. -/
inductive Polling
  | idle
  | asking (watching : Bool)
  | told (watching drained ended : Bool) (asked : Option Polled) (polled : Polled)

/-- A response that was returned, and its body. -/
structure Returned where
  /-- whether it is the refusal of the drain -/
  shutdown : Bool
  head : Head
  made : Made
  /-- whether it owes the client no body -/
  owes : Bool
  /-- whether its body, as it was returned, has a known length -/
  exact : Bool
  /-- whether it had ended by then -/
  born : Bool
  body : ExecBody
  polling : Polling := .idle
  asked : List Asked := []

/-- Where a call stands. -/
inductive CallStage
  | running (pipe : Pipe) (watching : Bool)
  | answered (a : Answer)
  | returned (r : Returned)
  /-- whether the drop was a peer that left -/
  | dropped (r : Returned) (left : Bool)
  /-- the panic was not caught -/
  | unwound

/-- **A call.** -/
structure Call where
  exec : ExecShared := {}
  /-- what routing decided -/
  routing : Option Routing := none
  stage : CallStage := .running .handling true

/-- A step of the call's task, of the backend, or of whoever cancels the execution. -/
inductive CallAction
  | setReason (reason : CancelReason)
  | fire
  | route (routing : Routing)
  /-- an answer, from the matched route or before it -/
  | answers (found : Bool) (head : Head) (exact atEnd : Bool)
  | expire
  /-- the error handlers answered, or their grace is over -/
  | recovered (answer : Option (Head × Bool × Bool))
  | read (own : Source)
  | pause (graceOver : Bool)
  | pend
  /-- an unscoped entry answers in the place of what it was given, or waits for -/
  | replace (head : Head) (exact atEnd : Bool)
  | unwind
  | answer
  | return_
  | pollStart
  | pollInner (own : Source) (due : Bool)
  | pollEnd
  | drop

/-- `BUFFER_CAP` -/
def bufferCap : ℕ := 1024 * 1024

/-- `FRAMES_PER_POLL` -/
def framesPerPoll : ℕ := 32

/-- `owes_nothing` -/
def owesNothing (body : Body) (exec : ExecShared) : ExecShared :=
  if body.streams then exec.reportStreamEnd .completed else exec

/-- `render::problem` of a timeout, with the fate of the answer it stands for. -/
def timedOut (made : Made) : Answer := { head := ⟨504, none⟩, body := .source true false, made }

namespace Pipe

/-- A pipeline that is dropped drops the body it holds. -/
def drop : Pipe → ExecShared → ExecShared
  | reading r, exec => r.body.drop exec
  | leaving a, exec => a.body.drop exec
  | _, exec => exec

end Pipe

namespace Reading

/-- The answer whose body was read whole. -/
def finish (r : Reading) (body : Body) (data : List UInt8)
    (trailers : Option (List (String × String))) : Answer where
  head := r.head
  body :=
    let data := if data = [] then none else some data
    if r.exact then .buffered data trailers else .copied data trailers body
  made := { exact := r.exact }

end Reading

namespace Call

variable (cfg : CallConfig) (s : Call)

/-- The end of `found`: a `HEAD` answered by a `GET` handler loses its body. -/
def found (a : Answer) (exec : ExecShared) : Answer × ExecShared :=
  if cfg.headFromGet then
    ({ a with body := .empty, stripped := true }, a.body.drop (owesNothing a.body exec))
  else (a, exec)

/-- The pipeline has an answer of the matched route. -/
def leave (watching : Bool) (a : Answer) (exec : ExecShared) : Call :=
  let (a, exec) := found cfg a exec
  { s with exec, stage := .running (.leaving a) watching }

/-- The answer of the error handlers is dropped for the 504. -/
def giveUp (watching : Bool) (r : Reading) (body : Body) (exec : ExecShared) : Call :=
  s.leave cfg watching (timedOut { exact := r.exact, dropped := !r.exact }) (body.drop exec)

/-- One frame of `completed`. -/
def readFrame (watching : Bool) (r : Reading) (own : Source) : Call :=
  let (polled, body, exec) := r.body.poll own false s.exec
  match polled with
  | none => { s with exec := body.drop exec, stage := .running .panicked watching }
  | some .pending =>
    { s with exec, stage := .running (.reading { r with body, paused := true }) watching }
  | some .end_ => s.leave cfg watching (r.finish body r.data none) exec
  | some (.error _) => s.giveUp cfg watching r body exec
  | some (.frame (.trailers headers)) =>
    s.leave cfg watching (r.finish body r.data (some headers)) exec
  | some (.frame (.data bytes)) =>
    if r.waited && bufferCap < r.data.length + bytes.length then s.giveUp cfg watching r body exec
    else
      let data := r.data ++ bytes
      if body.isEndStream then s.leave cfg watching (r.finish body data none) exec
      else
        let frames := r.frames + 1
        let r := { r with body, data, frames, paused := frames = framesPerPoll }
        { s with exec, stage := .running (.reading r) watching }

/-- The tail of `respond`: the response, its body under the outermost wrapper. -/
def ret (shutdown : Bool) (a : Answer) (exec : ExecShared) : Call :=
  let unwritten := cfg.head || forbidsBody a.head.status
  let exec := if unwritten then owesNothing a.body exec else exec
  let body := ExecBody.new (if unwritten then a.body else a.body.track) unwritten
  { s with
    exec
    stage := .returned {
      shutdown
      head := { a.head with routing := a.head.routing.or (some (s.routing.getD .unrouted)) }
      made := a.made
      owes := unwritten || a.stripped
      exact := body.inner.exact
      born := body.ended
      body } }

/-- `render::draining`, without its routing -/
def draining : Answer where
  head := ⟨503, none⟩
  body := .source true false
  made := { exact := true }

/-- The pipeline is pending: `until_drained` looks at its listener. -/
def pend (pipe : Pipe) (watching : Bool) : Call :=
  if watching && s.exec.cancelled then
    if s.exec.byDrain then s.ret cfg true draining (pipe.drop s.exec)
    else { s with stage := .running pipe false }
  else { s with stage := .running pipe watching }

/-- `cut_at_first_poll` -/
def cutAtFirstPoll (a : Answer) : Bool := !a.body.exact && !cfg.head && !forbidsBody a.head.status

/-- One more poll of the body, over. -/
def gives (r : Returned) (body : ExecBody) (asked : Asked) (exec : ExecShared) : Call :=
  { s with
    exec
    stage := .returned { r with body, polling := .idle, asked := r.asked ++ [asked] } }

/-- What the body inside answered, as it is written down. -/
def told (inner : Body) (polled : Option Polled) : Option (Option Polled) :=
  match inner with
  | .empty => none
  | _ => some polled

/-- The poll of the body inside. -/
def pollInner (r : Returned) (watching : Bool) (own : Source) (due : Bool) : Call :=
  let drained := s.exec.byDrain
  let (polled, inner, exec) := r.body.inner.poll own due s.exec
  let asked := told r.body.inner polled
  match polled with
  | none =>
    let (body, exec) := { r.body with inner }.recover inner exec
    s.gives r body ⟨drained, r.body.ended, asked, inner.isEndStream, .panicked⟩ exec
  | some polled =>
    { s with
      exec
      stage := .returned { r with
        body := { r.body with inner }.note polled
        polling := .told watching drained r.body.ended (asked.bind id) polled } }

/-- The end of a poll: a pending one looks at its listener. -/
def pollEnd (r : Returned) (watching drained ended : Bool) (asked : Option Polled)
    (polled : Polled) : Call :=
  let note (gave : Given) : Asked :=
    ⟨drained, ended, asked.map some, r.body.inner.isEndStream, gave⟩
  if polled = .pending && watching && s.exec.cancelled then
    if s.exec.byDrain then
      let (body, exec) := r.body.cutOff s.exec
      s.gives r body (note .shuttingDown) exec
    else s.gives r { r.body with settled := true, waiting := true } (note (.passes .pending)) s.exec
  else s.gives r { r.body with waiting := polled = .pending } (note (.passes polled)) s.exec

/-- What the pipeline does, and what is done to it. -/
def stepRunning (watching : Bool) : Pipe → CallAction → Option Call
  | .handling, .answers found head exact atEnd =>
    let source := Body.source exact atEnd
    if found then
      some (s.leave cfg watching
        { head, body := if cfg.timeout then .timed true source else source, made := { exact } }
        s.exec)
    else
      some { s with
        stage := .running (.leaving { head, body := source, made := { exact } }) watching }
  | .handling, .expire =>
    if cfg.timeout then
      some { s with exec := s.exec.cancelWith .deadline, stage := .running .recovering watching }
    else none
  | .recovering, .recovered (some (head, exact, atEnd)) =>
    let source := Body.source exact atEnd
    if atEnd then some (s.leave cfg watching { head, body := source, made := { exact } } s.exec)
    else
      some { s with stage := .running (.reading { head, exact, body := source.track }) watching }
  | .recovering, .recovered none =>
    if cfg.grace then some (s.leave cfg watching (timedOut { exact := true }) s.exec) else none
  | .reading r, .read own => if r.paused then none else some (s.readFrame cfg watching r own)
  | .reading r, .pause graceOver =>
    if r.paused then
      if bufferCap < r.data.length || cfg.grace && graceOver then
        some (s.giveUp cfg watching r r.body s.exec)
      else
        some (s.pend cfg (.reading { r with waited := true, frames := 0, paused := false })
          watching)
    else none
  | .reading _, .pend => none
  | pipe, .pend => some (s.pend cfg pipe watching)
  | pipe, .replace head exact atEnd =>
    -- what the entry waited for is dropped, wherever it stands
    let a : Answer := { head, body := .source exact atEnd, made := { exact } }
    some { s with exec := pipe.drop s.exec, stage := .running (.leaving a) watching }
  | .panicked, .unwind => some { s with stage := .unwound }
  | .leaving a, .answer => some { s with stage := .answered a }
  | _, _ => none

/-- What the backend does with the response. -/
def stepReturned (r : Returned) : Polling → CallAction → Option Call
  | .idle, .pollStart =>
    if r.body.cuts s.exec then
      let (body, exec) := r.body.cutOff s.exec
      some (s.gives r body ⟨true, r.body.ended, none, true, .shuttingDown⟩ exec)
    else some { s with stage := .returned { r with polling := .asking r.body.watching } }
  | .asking watching, .pollInner own due => some (s.pollInner r watching own due)
  | .told watching drained ended asked polled, .pollEnd =>
    some (s.pollEnd r watching drained ended asked polled)
  | .idle, .drop => some { s with exec := r.body.drop s.exec, stage := .dropped r (!r.body.ended) }
  | _, _ => none

/-- **What a step does.** -/
def step (action : CallAction) : Option Call :=
  match action, s.stage with
  | .setReason reason, _ => some { s with exec := s.exec.setReason reason }
  | .fire, _ => if s.exec.cancelReason.isSome then some { s with exec := s.exec.fire } else none
  | .route routing, .running _ _ => some { s with routing := s.routing.or (some routing) }
  | .return_, .answered a =>
    if s.exec.byDrain && cutAtFirstPoll cfg a then
      some (s.ret cfg true draining (a.body.drop s.exec))
    else some (s.ret cfg false a s.exec)
  | action, .running pipe watching => s.stepRunning cfg watching pipe action
  | action, .returned r => s.stepReturned r r.polling action
  | _, _ => none

end Call

/-- **A call from its admission.** -/
def callMachine (cfg : CallConfig) : Machine Call CallAction where
  init := {}
  step s a := s.step cfg a

end Ulo.Http
