import Ulo.Lib.List
import Ulo.Lib.Machine
import Ulo.Lib.Map
import Ulo.Rpc.Frame

/-!
# The replies of a NATS server and its close

A NATS server holds each call under its reply subject, and has in `unanswered` those whose
terminal frame has not been queued. One lock is taken by every reply, by every poll of a reply
that waits for room in async-nats's channel, and by `close`, which queues an `unavailable` for
each call that is left in the map, marks the replies closed, and queues later what found no room.

Calls meet in that lock alone: what happens to one of them is told from its own lane, its
entries in the two maps and whether the replies are closed (`View`), and a step is a move of one
view, or of all of them at the close (`Moves`). So every call has at most one ending frame,
whatever happens.

That it has one is another matter. A frame over the server's `max_payload` is refused by
async-nats with an error the RPC server does not know as `FrameTooLarge`; the call is out of the
map by then, and nobody answers it (`unanswered_call`). And `opened` is published without the
lock, and a refusal without waiting. Where none of this happens, every held call that is not
cancelled has exactly one (`answered_once`).
-/

namespace Ulo.Nats

open Ulo.Rpc Option Function AList

/-- What a link is given: the size of what `Codec::encode_frame` makes of a frame, if it can, and
the server's `max_payload`. -/
structure Wire where
  encode : Frame → Option ℕ
  maxPayload : ℕ

/-- What a poll of async-nats's `publish` comes to. -/
inductive Polled
  | queued
  | full
  | refused
deriving DecidableEq

/-- `queue` -/
def Wire.publish (w : Wire) (size : ℕ) (room : Bool) : Polled :=
  if w.maxPayload < size then .refused else if room then .queued else .full

/-- Whether a frame is one async-nats takes. -/
def Wire.fits (w : Wire) (frame : Frame) : Bool := (w.encode frame).any (· ≤ w.maxPayload)

/-- `SHUTDOWN_MESSAGE`, as the answer to a call -/
def shuttingDown (id : ℕ) : Frame :=
  .err id { kind := .unavailable, message := "the server is shutting down" }

/-- What a reply path's send fails with, as the RPC server tells them apart. -/
inductive SendError
  | frameTooLarge
  | frameUnencodable
  | other
deriving DecidableEq

/-- The message of the `err` that replaces a frame, or that the caller is gone. -/
def SendError.replacement : SendError → Option String
  | frameTooLarge => some "the reply is larger than the link carries"
  | frameUnencodable => some "the reply could not be encoded"
  | other => none

/-- What was queued for a reply subject, and by whom. -/
inductive Sent
  | opened
  | reply (frame : Frame)
  | atClose (frame : Frame)
  | refusal (frame : Frame)

/-- Whether it ends the call. -/
def Sent.ends : Sent → Bool
  | opened => false
  | reply frame => frame.ends
  | atClose _ | refusal _ => true

/-- Where a request stands, in its request lane and then in the RPC server. -/
inductive Stage
  | absent
  | arrived (streamed : Bool)
  /-- the replies were found closed -/
  | refusing
  | refused
  /-- held, and `opened` not published -/
  | opening (id : ℕ)
  | ready (id : ℕ)
  /-- delivered, and between two sends -/
  | serving (id : ℕ)
  /-- a frame could not be sent, and the `err` that replaces it is to be -/
  | replacing (id : ℕ) (message : String)
  /-- a frame waits for room -/
  | waiting (id : ℕ) (frame : Frame)
  /-- nothing more is sent -/
  | ended (id : ℕ)

namespace Stage

/-- The id a call is held under. -/
def call : Stage → Option ℕ
  | opening id | ready id | serving id | replacing id _ | waiting id _ | ended id => some id
  | absent | arrived _ | refusing | refused => none

/-- Whether the call may still be sent something by its own. -/
def live : Stage → Bool
  | opening _ | ready _ | serving _ | replacing _ _ | waiting _ _ => true
  | absent | arrived _ | refusing | refused | ended _ => false

end Stage

/-- One call's way to its caller. -/
structure Lane where
  stage : Stage := .absent
  /-- a `cancel` was handled while the call was held -/
  cancelled : Bool := false
  delivered : Bool := false
  /-- what was queued for the reply subject, in order -/
  queued : List Sent := []

namespace Lane

def push (l : Lane) (sent : Sent) : Lane := { l with queued := l.queued ++ [sent] }

/-- How many ending frames were queued. -/
def endings (l : Lane) : ℕ := l.queued.countP Sent.ends

end Lane

/-- **The server side**: `Answers`, what `close` has still to queue, and the lanes by their
reply subjects. -/
structure ServerSide where
  next : ℕ := 1
  closed : Bool := false
  unanswered : AList fun _ : String => ℕ := ∅
  unsent : AList fun _ : String => ℕ := ∅
  lanes : String → Lane := fun _ => {}

/-- A step of a request lane, of a call's task, of the control lane or of `close`. -/
inductive Action
  | request (subject : String) (streamed : Bool)
  | hold (subject : String)
  | refuse (subject : String) (room : Bool)
  | opened (subject : String) (ok : Bool)
  | deliver (subject : String)
  | send (subject : String) (frame : Frame) (room : Bool)
  | replace (subject : String) (room : Bool)
  /-- a waiting send is polled -/
  | poll (subject : String) (room : Bool)
  /-- the task, or the send it awaits, is dropped -/
  | drop (subject : String)
  | cancel (subject : String)
  /-- `Replies::close`; some subjects find no room -/
  | close (full : List String)
  | unsent (subject : String)

namespace ServerSide

/-- The call under `subject` with another lane. -/
def setLane (s : ServerSide) (subject : String) (lane : Lane) : ServerSide :=
  { s with lanes := Function.update s.lanes subject lane }

/-- `answered` -/
def answered (s : ServerSide) (subject : String) : ServerSide :=
  { s with unanswered := s.unanswered.erase subject }

/-- A reply is queued. -/
def queue (s : ServerSide) (subject : String) (id : ℕ) (frame : Frame) : ServerSide :=
  let lane := (s.lanes subject).push (.reply frame)
  if frame.ends then (s.setLane subject { lane with stage := .ended id }).answered subject
  else s.setLane subject { lane with stage := .serving id }

/-- **`Lane::send`** of one frame, through `encode_frame`; `failed` is what the task does about an
error. -/
def send (w : Wire) (s : ServerSide) (subject : String) (id : ℕ) (frame : Frame) (room : Bool)
    (failed : SendError → Stage) : ServerSide :=
  let lane := s.lanes subject
  match w.encode frame with
  | none => s.setLane subject { lane with stage := failed .frameUnencodable }
  | some size =>
    if s.closed then s.setLane subject { lane with stage := failed .other }
    else
      match w.publish size room with
      | .queued => s.queue subject id frame
      | .full => s.setLane subject { lane with stage := .waiting id frame }
      -- async-nats's error, boxed as it is
      | .refused => (s.setLane subject { lane with stage := failed .other }).answered subject

/-- What becomes of an answer at `close`. -/
def closing (w : Wire) (full : List String) (subject : String) (id : ℕ) : Polled :=
  match w.encode (shuttingDown id) with
  | none => .refused
  | some size => w.publish size (subject ∉ full)

/-- `Replies::close` -/
def closeReplies (w : Wire) (s : ServerSide) (full : List String) : ServerSide :=
  { s with
    closed := true
    unanswered := ∅
    unsent := s.unanswered.filter fun subject id => closing w full subject id = .full
    lanes := fun subject =>
      match s.unanswered.lookup subject with
      | some id =>
        if closing w full subject id = .queued then
          (s.lanes subject).push (.atClose (shuttingDown id))
        else s.lanes subject
      | none => s.lanes subject }

/-- **What a step does.** -/
def step (w : Wire) (s : ServerSide) : Action → Option ServerSide
  | .request subject streamed =>
    let lane := s.lanes subject
    match lane.stage with
    | .absent => some (s.setLane subject { lane with stage := .arrived streamed })
    | _ => none
  | .hold subject =>
    let lane := s.lanes subject
    match lane.stage with
    | .arrived streamed =>
      if s.closed then some (s.setLane subject { lane with stage := .refusing })
      else
        let stage := if streamed then .opening s.next else .ready s.next
        some { s.setLane subject { lane with stage } with
          next := s.next + 1, unanswered := s.unanswered.insert subject s.next }
    | _ => none
  | .refuse subject room =>
    let lane := s.lanes subject
    match lane.stage with
    | .refusing =>
      let lane' :=
        if w.fits (shuttingDown 0) && room then lane.push (.refusal (shuttingDown 0)) else lane
      some (s.setLane subject { lane' with stage := .refused })
    | _ => none
  | .opened subject ok =>
    let lane := s.lanes subject
    match lane.stage with
    | .opening id =>
      let lane' := if ok then lane.push .opened else lane
      some (s.setLane subject { lane' with stage := .ready id })
    | _ => none
  | .deliver subject =>
    let lane := s.lanes subject
    match lane.stage with
    | .ready id => some (s.setLane subject { lane with stage := .serving id, delivered := true })
    | _ => none
  | .send subject frame room =>
    match (s.lanes subject).stage with
    | .serving id =>
      some (s.send w subject id frame room fun e =>
        (e.replacement.map (.replacing id)).getD (.ended id))
    | _ => none
  | .replace subject room =>
    match (s.lanes subject).stage with
    | .replacing id message =>
      some (s.send w subject id (.err id { kind := .internal, message }) room fun _ => .ended id)
    | _ => none
  | .poll subject room =>
    let lane := s.lanes subject
    match lane.stage with
    | .waiting id frame =>
      if s.closed then some (s.setLane subject { lane with stage := .ended id })
      else if room then some (s.queue subject id frame) else some s
    | _ => none
  | .drop subject =>
    let lane := s.lanes subject
    match lane.stage with
    | .serving id | .replacing id _ | .waiting id _ =>
      some (s.setLane subject { lane with stage := .ended id })
    | _ => none
  | .cancel subject =>
    let lane := s.lanes subject
    if lane.stage.call.isSome then
      some ((s.setLane subject { lane with cancelled := true }).answered subject)
    else some (s.answered subject)
  | .close full => if s.closed then none else some (s.closeReplies w full)
  | .unsent subject =>
    match s.unsent.lookup subject with
    | some id =>
      some { s.setLane subject ((s.lanes subject).push (.atClose (shuttingDown id))) with
        unsent := s.unsent.erase subject }
    | none => none

end ServerSide

/-- **A server** that has bound. -/
def serverMachine (w : Wire) : Machine ServerSide Action where
  init := {}
  step s a := s.step w a

/-! ## One call at a time -/

/-- **What one call can tell**: its lane, its entries in the maps, and whether the replies are
closed. -/
structure View where
  closed : Bool
  unanswered : Option ℕ
  unsent : Option ℕ
  lane : Lane

/-- The view of the call under `subject`. -/
def ServerSide.view (s : ServerSide) (subject : String) : View where
  closed := s.closed
  unanswered := s.unanswered.lookup subject
  unsent := s.unsent.lookup subject
  lane := s.lanes subject

/-- **What a step does to a call.** The first argument says whether it is taken in turn: a frame
is not refused for its size, `opened` is not published after the close, and a refusal finds
room. -/
inductive Moves : Bool → View → View → Prop
  | refl {v : View} : Moves true v v
  | arrive {v : View} (streamed : Bool) : v.lane.stage = .absent →
      Moves true v { v with lane := { v.lane with stage := .arrived streamed } }
  | hold {v : View} {streamed : Bool} (id : ℕ) (stage : Stage) : v.closed = false →
      v.lane.stage = .arrived streamed → stage.call = some id →
      Moves true v { v with unanswered := some id, lane := { v.lane with stage } }
  | refusing {v : View} {streamed : Bool} : v.closed = true → v.lane.stage = .arrived streamed →
      Moves true v { v with lane := { v.lane with stage := .refusing } }
  | refuse {v : View} : v.lane.stage = .refusing →
      Moves true v { v with
        lane := { v.lane.push (.refusal (shuttingDown 0)) with stage := .refused } }
  | unrefused {v : View} : v.lane.stage = .refusing →
      Moves false v { v with lane := { v.lane with stage := .refused } }
  | opened {v : View} {turn : Bool} (id : ℕ) : v.lane.stage = .opening id →
      (turn = true → v.closed = false) →
      Moves turn v { v with lane := { v.lane.push .opened with stage := .ready id } }
  /-- the call's task goes on, or ends, with nothing sent -/
  | go {v : View} (id : ℕ) (stage : Stage) (delivered : Bool) : v.lane.stage.live = true →
      v.lane.stage.call = some id → stage.call = some id →
      Moves true v { v with lane := { v.lane with stage, delivered } }
  | item {v : View} (id : ℕ) (frame : Frame) (stage : Stage) : v.closed = false →
      v.lane.stage.live = true → v.lane.stage.call = some id → stage.call = some id →
      frame.ends = false → Moves true v { v with lane := { v.lane.push (.reply frame) with stage } }
  | last {v : View} (id : ℕ) (frame : Frame) : v.closed = false → v.lane.stage.live = true →
      v.lane.stage.call = some id → frame.ends = true →
      Moves true v { v with
        unanswered := none, lane := { v.lane.push (.reply frame) with stage := .ended id } }
  | oversized {v : View} (id : ℕ) (stage : Stage) : v.lane.stage.live = true →
      v.lane.stage.call = some id → stage.call = some id →
      Moves false v { v with unanswered := none, lane := { v.lane with stage } }
  | cancel {v : View} : v.lane.stage.call.isSome = true →
      Moves true v { v with unanswered := none, lane := { v.lane with cancelled := true } }
  | forget {v : View} : v.lane.stage.call = none → Moves true v { v with unanswered := none }
  | close {v : View} : v.closed = false → v.unanswered = none →
      Moves true v { v with closed := true, unsent := none }
  | answer {v : View} (id : ℕ) : v.closed = false → v.unanswered = some id →
      Moves true v { v with
        closed := true
        unanswered := none
        unsent := none
        lane := v.lane.push (.atClose (shuttingDown id)) }
  | leave {v : View} (id : ℕ) : v.closed = false → v.unanswered = some id →
      Moves true v { v with closed := true, unanswered := none, unsent := some id }
  | lose {v : View} (id : ℕ) : v.closed = false → v.unanswered = some id →
      Moves false v { v with closed := true, unanswered := none, unsent := none }
  | unsent {v : View} (id : ℕ) : v.unsent = some id →
      Moves true v { v with unsent := none, lane := v.lane.push (.atClose (shuttingDown id)) }

variable {id : ℕ}

namespace ServerSide

variable {w : Wire} {s s' : ServerSide} {a : Action} {subject : String} {lane : Lane}
  {turn turn' : Bool} {full : List String} {frame : Frame}

/-- **The condition on a step**: every frame fits the server's `max_payload`, `opened` is
published before the close, and a refusal finds room. -/
def inTurn (w : Wire) (s : ServerSide) : Action → Bool
  | .send _ frame _ => (w.encode frame).all (· ≤ w.maxPayload)
  | .replace subject _ =>
    match (s.lanes subject).stage with
    | .replacing id message => w.fits (.err id { kind := .internal, message })
    | _ => true
  | .opened _ _ => !s.closed
  | .refuse _ room => w.fits (shuttingDown 0) && room
  | .close _ => s.unanswered.entries.all fun e => w.fits (shuttingDown e.2)
  | _ => true

/-- Each call's view moves, and in turn where the step is. -/
def Turns (turn : Bool) (s s' : ServerSide) : Prop :=
  ∀ k, ∃ turn', (turn = true → turn' = true) ∧ Moves turn' (s.view k) (s'.view k)

/-- A step of one call moves its view, and none of another's. -/
theorem Turns.single {v : View} (subject : String) (hturn : turn = true → turn' = true)
    (hmoves : Moves turn' (s.view subject) v) (hview : s'.view subject = v)
    (hother : ∀ k, k ≠ subject → s'.view k = s.view k) : Turns turn s s' := by
  intro k
  by_cases hk : k = subject
  · subst hk
    rw [hview]
    exact ⟨turn', hturn, hmoves⟩
  · rw [hother k hk]
    exact ⟨true, fun _ => rfl, .refl⟩

/-- A call's lane changes. -/
theorem Turns.setLane (hturn : turn = true → turn' = true)
    (hmoves : Moves turn' (s.view subject) { s.view subject with lane }) :
    Turns turn s (s.setLane subject lane) := by
  refine .single subject hturn hmoves ?_ fun k hk => ?_
  · simp [view, ServerSide.setLane]
  · simp [view, ServerSide.setLane, update_of_ne hk]

/-- A call's lane changes, and it is taken out of the map. -/
theorem Turns.answered (hturn : turn = true → turn' = true)
    (hmoves : Moves turn' (s.view subject) { s.view subject with unanswered := none, lane }) :
    Turns turn s ((s.setLane subject lane).answered subject) := by
  refine .single subject hturn hmoves ?_ fun k hk => ?_
  · simp [view, ServerSide.setLane, ServerSide.answered]
  · simp [view, ServerSide.setLane, ServerSide.answered, update_of_ne hk,
      lookup_erase_ne hk]

/-- A reply is queued, before the close. -/
theorem Turns.queue (frame : Frame) (hclosed : s.closed = false)
    (hlive : (s.lanes subject).stage.live = true) (hcall : (s.lanes subject).stage.call = some id) :
    Turns turn s (s.queue subject id frame) := by
  unfold ServerSide.queue
  dsimp only
  split
  · rename_i hends
    exact .answered (fun _ => rfl) (.last id frame hclosed hlive hcall hends)
  · rename_i hends
    exact .setLane (fun _ => rfl)
      (.item id frame (.serving id) hclosed hlive hcall rfl (Bool.eq_false_iff.mpr hends))

/-- **A frame is sent**: it is queued, waits, or fails; where it is refused for its size the call
is out of the map. -/
theorem Turns.send {room : Bool} {failed : SendError → Stage}
    (hlive : (s.lanes subject).stage.live = true) (hcall : (s.lanes subject).stage.call = some id)
    (hfailed : ∀ e, (failed e).call = some id)
    (hturn : turn = true → (w.encode frame).all (· ≤ w.maxPayload) = true) :
    Turns turn s (s.send w subject id frame room failed) := by
  have hgo (stage : Stage) (hstage : stage.call = some id) :
      Turns turn s (s.setLane subject { s.lanes subject with stage }) :=
    .setLane (fun _ => rfl) (.go id stage _ hlive hcall hstage)
  unfold ServerSide.send
  dsimp only
  split
  · exact hgo _ (hfailed _)
  rename_i size hsize
  split
  · exact hgo _ (hfailed _)
  rename_i hclosed
  split
  · exact .queue frame (Bool.eq_false_iff.mpr hclosed) hlive hcall
  · exact hgo _ rfl
  · rename_i hrefused
    refine .answered (fun h => ?_) (.oversized id _ hlive hcall (hfailed _))
    -- a frame is refused only over the limit
    have hfits := hturn h
    rw [hsize, all_some] at hfits
    have hle : size ≤ w.maxPayload := of_decide_eq_true hfits
    rw [Wire.publish, if_neg (Nat.not_lt.mpr hle)] at hrefused
    split at hrefused <;> cases hrefused

theorem fits_all (h : w.fits frame = true) : (w.encode frame).all (· ≤ w.maxPayload) = true := by
  unfold Wire.fits at h
  cases hsize : w.encode frame with
  | none => rfl
  | some =>
    rw [hsize] at h
    exact h

theorem closing_ne_refused (h : w.fits (shuttingDown id) = true) :
    closing w full subject id ≠ .refused := by
  unfold Wire.fits at h
  unfold closing
  cases hsize : w.encode (shuttingDown id) with
  | none =>
    rw [hsize] at h
    cases h
  | some size =>
    rw [hsize, any_some] at h
    have hle : size ≤ w.maxPayload := of_decide_eq_true h
    show w.publish size _ ≠ .refused
    rw [Wire.publish, if_neg (Nat.not_lt.mpr hle)]
    split <;> exact nofun

/-- **`Replies::close`** answers every call that is left, or leaves it to be answered. -/
theorem Turns.close (hclosed : s.closed = false) :
    Turns (s.inTurn w (.close full)) s (s.closeReplies w full) := by
  intro k
  have hunsent : (s.closeReplies w full).unsent.lookup k =
      (s.unanswered.lookup k).filter fun id => closing w full k id = .full :=
    lookup_filter _ _ k
  have hlane : (s.closeReplies w full).lanes k =
      match s.unanswered.lookup k with
      | some id =>
        if closing w full k id = .queued then
          (s.lanes k).push (.atClose (shuttingDown id))
        else s.lanes k
      | none => s.lanes k := rfl
  have hview : (s.closeReplies w full).view k = {
      closed := true
      unanswered := none
      unsent := (s.closeReplies w full).unsent.lookup k
      lane := (s.closeReplies w full).lanes k } := rfl
  rw [hview, hunsent, hlane]
  cases hk : s.unanswered.lookup k with
  | none =>
    have hmoves := Moves.close (v := s.view k) hclosed hk
    exact ⟨true, fun _ => rfl, by simpa [view, hk] using hmoves⟩
  | some id =>
    cases hout : closing w full k id with
    | queued =>
      have hmoves := Moves.answer (v := s.view k) id hclosed hk
      exact ⟨true, fun _ => rfl, by simpa [view, filter_some, hout] using hmoves⟩
    | full =>
      have hmoves := Moves.leave (v := s.view k) id hclosed hk
      exact ⟨true, fun _ => rfl, by simpa [view, filter_some, hout] using hmoves⟩
    | refused =>
      have hmoves := Moves.lose (v := s.view k) id hclosed hk
      refine ⟨false, fun h => ?_, by simpa [view, filter_some, hout] using hmoves⟩
      have hmem : (⟨k, id⟩ : Sigma fun _ : String => ℕ) ∈ s.unanswered.entries :=
        mem_lookup_iff.mp hk
      exact absurd hout (closing_ne_refused (List.all_eq_true.mp h _ hmem))

/-- **What a step does**, call by call. -/
theorem turns_of_step (h : s.step w a = some s') : Turns (s.inTurn w a) s s' := by
  cases a with simp only [step] at h
  | request subject streamed =>
    split at h <;> cases h
    rename_i hstage
    exact .setLane (fun _ => rfl) (.arrive streamed hstage)
  | hold subject =>
    split at h
    · rename_i streamed hstage
      split at h <;> cases h
      · rename_i hclosed
        exact .setLane (fun _ => rfl) (.refusing hclosed hstage)
      · rename_i hclosed
        refine .single subject (fun _ => rfl) (.hold s.next
          (if streamed then .opening s.next else .ready s.next) (Bool.eq_false_iff.mpr hclosed)
          hstage ?_) ?_ fun k hk => ?_
        · split <;> rfl
        · simp [view, ServerSide.setLane]
        · simp [view, ServerSide.setLane, update_of_ne hk, lookup_insert_ne hk]
    · cases h
  | refuse subject room =>
    split at h <;> cases h
    rename_i hstage
    cases hroom : w.fits (shuttingDown 0) && room with
    | true => exact .setLane (fun _ => rfl) (.refuse hstage)
    | false =>
      refine .setLane (fun h => ?_) (.unrefused hstage)
      exact hroom.symm.trans h
  | opened subject ok =>
    split at h <;> cases h
    rename_i id hstage
    cases ok with
    | true =>
      refine .setLane (fun h => h) (.opened id hstage fun h => ?_)
      simpa [inTurn, view] using h
    | false =>
      refine .setLane (fun _ => rfl) (.go id (.ready id) _ ?_ ?_ rfl) <;>
        (show _ = _; simp only [view]; rw [hstage]; rfl)
  | deliver =>
    split at h <;> cases h
    rename_i id hstage
    refine .setLane (fun _ => rfl) (.go id (.serving id) true ?_ ?_ rfl) <;>
      (show _ = _; simp only [view]; rw [hstage]; rfl)
  | send =>
    split at h <;> cases h
    rename_i hstage
    refine .send (by rw [hstage]; rfl) (by rw [hstage]; rfl) (fun e => ?_) fun h => h
    cases e <;> rfl
  | replace =>
    split at h <;> cases h
    rename_i hstage
    refine .send (by rw [hstage]; rfl) (by rw [hstage]; rfl) (fun _ => rfl) fun h => fits_all ?_
    simpa only [inTurn, hstage] using h
  | poll subject =>
    split at h
    · rename_i id frame hstage
      have hlive : (s.lanes subject).stage.live = true := by rw [hstage]; rfl
      have hcall : (s.lanes subject).stage.call = some id := by rw [hstage]; rfl
      split at h
      · cases h
        exact .setLane (fun _ => rfl) (.go id (.ended id) _ hlive hcall rfl)
      · rename_i hclosed
        split at h <;> cases h
        · exact .queue frame (Bool.eq_false_iff.mpr hclosed) hlive hcall
        · exact fun k => ⟨true, fun _ => rfl, .refl⟩
    · cases h
  | drop =>
    split at h <;> cases h <;> rename_i hstage <;>
      exact .setLane (fun _ => rfl) (.go _ (.ended _) _
        (by simp only [view]; rw [hstage]; rfl) (by simp only [view]; rw [hstage]; rfl) rfl)
  | cancel subject =>
    split at h <;> cases h
    · rename_i hcall
      exact .answered (fun _ => rfl) (.cancel hcall)
    · rename_i hcall
      refine .single subject (fun _ => rfl) (.forget ?_) ?_ fun k hk => ?_
      · exact not_isSome_iff_eq_none.mp hcall
      · simp [view, ServerSide.answered]
      · simp [view, ServerSide.answered, lookup_erase_ne hk]
  | close =>
    obtain ⟨hclosed, h⟩ := ite_none_left_eq_some.mp h
    cases h
    exact .close (Bool.eq_false_iff.mpr hclosed)
  | unsent subject =>
    split at h <;> cases h
    rename_i id hunsent
    refine .single subject (fun _ => rfl)
      (.unsent id hunsent) ?_ fun k hk => ?_
    · simp [view, ServerSide.setLane]
    · simp [view, ServerSide.setLane, update_of_ne hk, lookup_erase_ne hk]

end ServerSide

/-! ## Exactly one answer -/

namespace Lane

variable {l : Lane} {sent : Sent}

theorem endings_push : (l.push sent).endings = l.endings + if sent.ends then 1 else 0 := by
  rw [endings, push, List.countP_append, List.countP_singleton]
  rfl

/-- Nothing was queued behind an answer of `close`. -/
def CloseLast (l : Lane) : Prop :=
  ∀ (i : ℕ) (frame : Frame), l.queued[i]? = some (.atClose frame) → i + 1 = l.queued.length

/-- A frame is queued where nothing has ended the call. -/
theorem closeLast_push (h : l.endings = 0) : (l.push sent).CloseLast := by
  intro i frame hi
  rcases List.getElem?_concat_eq_some.mp hi with hi | ⟨rfl, -⟩
  · have hnone := List.countP_eq_zero.mp h _ (List.mem_of_getElem? hi)
    exact absurd rfl hnone
  · show l.queued.length + 1 = (l.queued ++ [sent]).length
    rw [List.length_append]
    rfl

end Lane

/-- **What holds of every call**: it has one ending frame at most, and none while it is in a map
or, before the close, has its own to send. -/
structure View.Inv (v : View) : Prop where
  closed : v.closed = true → v.unanswered = none
  unsent_closed : v.unsent ≠ none → v.closed = true
  unanswered : ∀ id, v.unanswered = some id → v.lane.stage.call = some id ∧ v.lane.endings = 0
  unsent : ∀ id, v.unsent = some id → v.lane.stage.call = some id ∧ v.lane.endings = 0
  live : v.closed = false → v.lane.stage.live = true → v.lane.endings = 0
  fresh : v.lane.stage.call = none → v.lane.stage ≠ .refused → v.lane.queued = []
  once : v.lane.endings ≤ 1
  delivered : v.lane.delivered = true → v.lane.stage.call ≠ none

/-- **What holds where every step is taken in turn**: a held call without an ending frame is in
one of the maps, unless it was cancelled; an answer of `close` is the last of its call; and a
refused request was told so once. -/
structure View.Kept (v : View) : Prop where
  kept : ∀ id, v.lane.stage.call = some id → v.lane.cancelled = false → v.lane.endings = 0 →
    v.unanswered = some id ∨ v.unsent = some id
  last : v.lane.CloseLast
  refused : v.lane.stage = .refused → v.lane.queued = [.refusal (shuttingDown 0)]

namespace View

variable {turn : Bool} {v v' : View}

theorem Inv.init : Inv { closed := false, unanswered := none, unsent := none, lane := {} } :=
  ⟨nofun, fun h => absurd rfl h, nofun, nofun,
    fun _ _ => rfl, fun _ _ => rfl, Nat.zero_le 1, nofun⟩

/-- A call that is not held is in no map. -/
theorem Inv.of_call_none (hv : v.Inv) (hcall : v.lane.stage.call = none) :
    v.unanswered = none ∧ v.unsent = none ∧ v.lane.delivered = false := by
  refine ⟨eq_none_iff_forall_ne_some.mpr fun id h => ?_,
    eq_none_iff_forall_ne_some.mpr fun id h => ?_, ?_⟩
  · rw [(hv.unanswered id h).1] at hcall
    cases hcall
  · rw [(hv.unsent id h).1] at hcall
    cases hcall
  · exact Bool.eq_false_iff.mpr fun h => hv.delivered h hcall

/-- A request that is not held comes to another stage without being held. -/
theorem Inv.stage (hv : v.Inv) {lane : Lane} (hcall : v.lane.stage.call = none)
    (hlive : lane.stage.live = false)
    (hdelivered : lane.delivered = v.lane.delivered) (honce : lane.endings ≤ 1)
    (hfresh : lane.stage ≠ .refused → lane.queued = []) : Inv { v with lane } := by
  obtain ⟨hunanswered, hunsent, hnot⟩ := hv.of_call_none hcall
  refine ⟨hv.closed, hv.unsent_closed, fun id h => ?_, fun id h => ?_, fun _ h => ?_,
    fun _ => hfresh, honce, fun h => ?_⟩
  · rw [hunanswered] at h
    cases h
  · rw [hunsent] at h
    cases h
  · rw [hlive] at h
    cases h
  · rw [hdelivered, hnot] at h
    cases h

/-- A held call goes on to another stage, with nothing sent or something that does not end it. -/
theorem Inv.go (hv : v.Inv) (lane : Lane) (hlive : v.lane.stage.live = true)
    (hcall : v.lane.stage.call = some id) (hcall' : lane.stage.call = some id)
    (hendings : lane.endings = v.lane.endings) : Inv { v with lane } := by
  refine ⟨hv.closed, hv.unsent_closed, fun id' h => ?_, fun id' h => ?_, fun hclosed _ => ?_,
    fun h => ?_, ?_, fun _ h => ?_⟩
  · obtain ⟨hid, hzero⟩ := hv.unanswered id' h
    exact ⟨hcall'.trans (hcall.symm.trans hid), hendings.trans hzero⟩
  · obtain ⟨hid, hzero⟩ := hv.unsent id' h
    exact ⟨hcall'.trans (hcall.symm.trans hid), hendings.trans hzero⟩
  · exact hendings.trans (hv.live hclosed hlive)
  · cases hcall'.symm.trans h
  · show lane.endings ≤ 1
    rw [hendings]
    exact hv.once
  · cases hcall'.symm.trans h

/-- A call is taken out of the map of the unanswered. -/
theorem Inv.forget (hv : v.Inv) : Inv { v with unanswered := none } :=
  { hv with closed := fun _ => rfl, unanswered := fun _ h => by cases h }

/-- **A call is sent its ending frame**, at the close or by its own before it. -/
theorem Inv.ending {l : Lane} {sent : Sent} (hunanswered : v.unanswered = none)
    (hunsent : v.unsent = none) (hqueued : v.lane.queued = (l.push sent).queued)
    (hzero : l.endings = 0) (hsent : sent.ends = true) (hcall : v.lane.stage.call = some id)
    (hlive : v.closed = false → v.lane.stage.live = false) : v.Inv := by
  have hendings : v.lane.endings = 1 := by
    rw [Lane.endings, hqueued]
    show (l.push sent).endings = 1
    rw [Lane.endings_push, hzero, if_pos hsent]
  refine ⟨fun _ => hunanswered, fun h => absurd hunsent h, fun _ h => ?_, fun _ h => ?_,
    fun hclosed h => ?_, fun h => ?_, Nat.le_of_eq hendings, fun _ h => ?_⟩
  · cases hunanswered.symm.trans h
  · cases hunsent.symm.trans h
  · cases (hlive hclosed).symm.trans h
  · cases hcall.symm.trans h
  · cases hcall.symm.trans h

/-- **Every move keeps it.** -/
theorem Inv.moves (hv : v.Inv) (h : Moves turn v v') : v'.Inv := by
  cases h with
  | refl => exact hv
  | arrive streamed hstage | refusing hclosed hstage =>
    have hcall : v.lane.stage.call = none := by rw [hstage]; rfl
    refine hv.stage hcall rfl rfl hv.once fun _ => hv.fresh hcall ?_
    rw [hstage]
    exact nofun
  | hold id stage hclosed hstage hcall' =>
    have hcall : v.lane.stage.call = none := by rw [hstage]; rfl
    have hzero : v.lane.endings = 0 := by
      rw [Lane.endings, hv.fresh hcall (by rw [hstage]; exact nofun)]
      rfl
    obtain ⟨-, hunsent, -⟩ := hv.of_call_none hcall
    refine ⟨fun h => ?_, hv.unsent_closed, fun id' h => ?_, fun id' h => ?_, fun _ _ => hzero,
      fun h => ?_, hv.once, fun _ h => ?_⟩
    · cases hclosed.symm.trans h
    · exact ⟨hcall'.trans h, hzero⟩
    · cases hunsent.symm.trans h
    · cases hcall'.symm.trans h
    · cases hcall'.symm.trans h
  | refuse hstage =>
    have hcall : v.lane.stage.call = none := by rw [hstage]; rfl
    have hqueued := hv.fresh hcall (by rw [hstage]; exact nofun)
    refine hv.stage hcall rfl rfl ?_ fun h => absurd rfl h
    show (v.lane.queued ++ [Sent.refusal _]).countP Sent.ends ≤ 1
    rw [hqueued]
    exact Nat.le_refl 1
  | unrefused hstage =>
    have hcall : v.lane.stage.call = none := by rw [hstage]; rfl
    exact hv.stage hcall rfl rfl hv.once fun h => absurd rfl h
  | opened id hstage _ =>
    refine hv.go _ (by rw [hstage]; rfl) (by rw [hstage]; rfl) rfl ?_
    show (v.lane.push .opened).endings = _
    rw [Lane.endings_push]
    rfl
  | go id stage delivered hlive hcall hcall' => exact hv.go _ hlive hcall hcall' rfl
  | item id frame stage hclosed hlive hcall hcall' hends =>
    refine hv.go _ hlive hcall hcall' ?_
    show (v.lane.push (.reply frame)).endings = _
    rw [Lane.endings_push, if_neg (by rw [Sent.ends, hends]; exact Bool.false_ne_true)]
    rfl
  | last id frame hclosed hlive hcall hends =>
    have hunsent : v.unsent = none := by
      by_contra h
      cases hclosed.symm.trans (hv.unsent_closed h)
    exact .ending (l := v.lane) rfl hunsent rfl (hv.live hclosed hlive) hends rfl fun _ => rfl
  | oversized id stage hlive hcall hcall' =>
    exact (hv.go { v.lane with stage } hlive hcall hcall' rfl).forget
  | cancel => exact { hv.forget with }
  | forget => exact hv.forget
  | close hclosed hnone =>
    exact { hv with
      closed := fun _ => hnone
      unsent_closed := fun h => absurd rfl h
      unsent := nofun
      live := fun h => by cases h }
  | answer id hclosed hid =>
    obtain ⟨hcall, hzero⟩ := hv.unanswered id hid
    exact .ending (l := v.lane) rfl rfl rfl hzero rfl hcall nofun
  | leave id hclosed hid =>
    obtain ⟨hcall, hzero⟩ := hv.unanswered id hid
    exact { hv with
      closed := fun _ => rfl
      unsent_closed := fun _ => rfl
      unanswered := nofun
      unsent := fun id' h => ⟨hcall.trans h, hzero⟩
      live := fun h => by cases h }
  | lose =>
    exact { hv with
      closed := fun _ => rfl
      unsent_closed := fun h => absurd rfl h
      unanswered := nofun
      unsent := nofun
      live := fun h => by cases h }
  | unsent id hid =>
    obtain ⟨hcall, hzero⟩ := hv.unsent id hid
    have hclosed : v.closed = true := hv.unsent_closed (by rw [hid]; exact nofun)
    refine .ending (l := v.lane) (hv.closed hclosed) rfl rfl hzero rfl hcall fun h => ?_
    cases hclosed.symm.trans h

theorem Kept.init : Kept { closed := false, unanswered := none, unsent := none, lane := {} } :=
  ⟨nofun, fun i frame h => (by simp at h), nofun⟩

/-- The answer of `close` is the one that ends its call. -/
theorem Kept.atClose {closed : Bool} {unanswered : Option ℕ}
    (hcall : v.lane.stage.call = some id) (hzero : v.lane.endings = 0) :
    Kept ⟨closed, unanswered, none, v.lane.push (.atClose (shuttingDown id))⟩ := by
  refine ⟨fun id' h hcancelled hendings => ?_, Lane.closeLast_push hzero, fun h => ?_⟩
  · rw [Lane.endings_push] at hendings
    cases hendings
  · have h : v.lane.stage = .refused := h
    rw [h] at hcall
    cases hcall

/-- **Every move in turn keeps it.** -/
theorem Kept.moves (hv : v.Kept) (hinv : v.Inv) (h : Moves true v v') : v'.Kept := by
  cases h with
  | refl => exact hv
  | arrive =>
    exact ⟨nofun, hv.last, nofun⟩
  | hold id stage hclosed hstage hcall' =>
    refine ⟨fun id' h _ _ => .inl (hcall'.symm.trans h), hv.last, fun h => ?_⟩
    rw [show stage = .refused from h] at hcall'
    cases hcall'
  | refusing => exact ⟨nofun, hv.last, nofun⟩
  | refuse hstage =>
    have hqueued := hinv.fresh (by rw [hstage]; rfl) (by rw [hstage]; exact nofun)
    refine ⟨nofun, ?_, fun _ => ?_⟩
    · refine Lane.closeLast_push ?_
      rw [Lane.endings, hqueued]
      rfl
    · show v.lane.queued ++ [Sent.refusal (shuttingDown 0)] = _
      rw [hqueued]
      rfl
  | opened id hstage hclosed =>
    have hzero := hinv.live (hclosed rfl) (by rw [hstage]; rfl)
    refine ⟨fun id' h hcancelled _ => ?_, Lane.closeLast_push hzero, nofun⟩
    exact hv.kept id' (by rw [hstage]; exact h) hcancelled hzero
  | go id stage delivered hlive hcall hcall' =>
    refine ⟨fun id' h => hv.kept id' (hcall.trans (hcall'.symm.trans h)), hv.last, fun h => ?_⟩
    rw [show stage = .refused from h] at hcall'
    cases hcall'
  | item id frame stage hclosed hlive hcall hcall' =>
    have hzero := hinv.live hclosed hlive
    refine ⟨fun id' h hcancelled _ => ?_, Lane.closeLast_push hzero, fun h => ?_⟩
    · exact hv.kept id' (hcall.trans (hcall'.symm.trans h)) hcancelled hzero
    · rw [show stage = .refused from h] at hcall'
      cases hcall'
  | last id frame hclosed hlive hcall hends =>
    have hzero := hinv.live hclosed hlive
    refine ⟨fun id' h hcancelled hendings => ?_, Lane.closeLast_push hzero, nofun⟩
    have hendings : (v.lane.push (.reply frame)).endings = 0 := hendings
    rw [Lane.endings_push, if_pos (by exact hends)] at hendings
    cases hendings
  | cancel =>
    exact ⟨nofun, hv.last, hv.refused⟩
  | forget hcall =>
    refine ⟨fun id h => ?_, hv.last, hv.refused⟩
    cases hcall.symm.trans h
  | close hclosed =>
    refine ⟨fun id h hcancelled hzero => ?_, hv.last, hv.refused⟩
    rcases hv.kept id h hcancelled hzero with h | h
    · exact .inl h
    · have := hinv.unsent_closed (by rw [h]; exact nofun)
      cases hclosed.symm.trans this
  | answer id hclosed hid =>
    obtain ⟨hcall, hzero⟩ := hinv.unanswered id hid
    exact .atClose hcall hzero
  | leave id hclosed hid =>
    obtain ⟨hcall, hzero⟩ := hinv.unanswered id hid
    exact ⟨fun id' h _ _ => .inr (hcall.symm.trans h), hv.last, hv.refused⟩
  | unsent id hid =>
    obtain ⟨hcall, hzero⟩ := hinv.unsent id hid
    exact .atClose hcall hzero

/-- Once refused, a request is not held. -/
theorem refused_moves (h : Moves turn v v')
    (hv : v.lane.stage = .refusing ∨ v.lane.stage = .refused) :
    v'.lane.stage = .refusing ∨ v'.lane.stage = .refused := by
  have hcall : v.lane.stage.call = none := by rcases hv with hv | hv <;> rw [hv] <;> rfl
  have hlive : v.lane.stage.live = false := by rcases hv with hv | hv <;> rw [hv] <;> rfl
  cases h with
  | refl | cancel | forget | close | answer | leave | lose | unsent => exact hv
  | arrive streamed hstage | hold id stage hclosed hstage | refusing hclosed hstage
  | opened id hstage =>
    rw [hstage] at hv
    rcases hv with hv | hv <;> cases hv
  | refuse | unrefused => exact .inr rfl
  | go id stage delivered hlive' | oversized id stage hlive' =>
    cases hlive.symm.trans hlive'
  | item id frame stage hclosed hlive' | last id frame hclosed hlive' =>
    cases hlive.symm.trans hlive'

end View

namespace ServerSide

variable {w : Wire} {s : ServerSide} {t : List Action}

theorem inv_of_run (h : (serverMachine w).run t = some s) (subject : String) :
    (s.view subject).Inv := by
  refine Machine.invariant (P := fun s => (s.view subject).Inv) View.Inv.init ?_ h
  intro s a s' hs hstep
  obtain ⟨_, -, hmoves⟩ := turns_of_step hstep subject
  exact hs.moves hmoves

/-- **Every held call is answered once.** In every run a call has at most one ending frame, and a
request that finds the replies closed is never held nor delivered. Where moreover every step is
taken in turn: once `close` has queued its answers, each call that was held and not cancelled
has exactly one ending frame; nothing of a call is queued behind the answer of `close`; and a
refused request was told `unavailable` once. -/
theorem answered_once (w : Wire) (t : List Action) (s : ServerSide)
    (h : (serverMachine w).run t = some s) :
    (∀ subject, (s.lanes subject).endings ≤ 1) ∧
    (∀ pre s₀ subject, (serverMachine w).TookAt t pre s₀ (.hold subject) → s₀.closed = true →
      (s.lanes subject).stage.call = none ∧ (s.lanes subject).delivered = false) ∧
    ((∀ pre s₀ a, (serverMachine w).TookAt t pre s₀ a → s₀.inTurn w a = true) →
      (s.closed = true → s.unsent.keys = [] → ∀ subject id,
        (s.lanes subject).stage.call = some id → (s.lanes subject).cancelled = false →
        (s.lanes subject).endings = 1) ∧
      (∀ subject, (s.lanes subject).CloseLast) ∧
      ∀ subject, (s.lanes subject).stage = .refused →
        (s.lanes subject).queued = [.refusal (shuttingDown 0)]) := by
  refine ⟨fun subject => (inv_of_run h subject).once, fun pre s₀ subject htook hclosed => ?_,
    fun hsteps => ?_⟩
  · have hrefused : (s.lanes subject).stage = .refusing ∨ (s.lanes subject).stage = .refused := by
      refine htook.holds_after (P := fun s => (s.lanes subject).stage = .refusing ∨
        (s.lanes subject).stage = .refused) (fun s₁ hstep => ?_) (fun s b s' hs hstep => ?_) h
      · simp only [serverMachine, step] at hstep
        split at hstep
        · rw [if_pos hclosed] at hstep
          cases hstep
          exact .inl (by simp [ServerSide.setLane])
        · cases hstep
      · obtain ⟨_, -, hmoves⟩ := turns_of_step hstep subject
        exact View.refused_moves hmoves hs
    have hcall : (s.lanes subject).stage.call = none := by
      rcases hrefused with h | h <;> rw [h] <;> rfl
    exact ⟨hcall, ((inv_of_run h subject).of_call_none hcall).2.2⟩
  · have hkept (subject : String) : (s.view subject).Inv ∧ (s.view subject).Kept := by
      refine Machine.invariant_of_steps
        (P := fun s => (s.view subject).Inv ∧ (s.view subject).Kept)
        (C := fun s a => s.inTurn w a = true) ⟨View.Inv.init, View.Kept.init⟩ ?_ hsteps h
      intro s a s' hs hturn hstep
      obtain ⟨turn, hin, hmoves⟩ := turns_of_step hstep subject
      rw [hin hturn] at hmoves
      exact ⟨hs.1.moves hmoves, hs.2.moves hs.1 hmoves⟩
    refine ⟨fun hclosed hunsent subject id hcall hcancelled => ?_,
      fun subject => (hkept subject).2.last, fun subject => (hkept subject).2.refused⟩
    obtain ⟨hinv, hkept⟩ := hkept subject
    -- a call without an ending frame would be in a map, and both are empty
    have hne : (s.lanes subject).endings ≠ 0 := by
      intro hzero
      rcases hkept.kept id hcall hcancelled hzero with h | h
      · cases (hinv.closed hclosed).symm.trans h
      · have hmem : subject ∈ s.unsent.keys :=
          mem_keys.mp (lookup_isSome.mp (isSome_of_eq_some h))
        rw [hunsent] at hmem
        cases hmem
    have honce : (s.lanes subject).endings ≤ 1 := hinv.once
    omega

end ServerSide

/-- A wire that takes frames up to 64 bytes, where an item is as long as its payload. -/
def shortWire : Wire where
  encode
    | .res _ data | .item _ data => some data.length
    | _ => some 40
  maxPayload := 64

/-- Three calls: one answers, one is answered by `close` at once, and one once there is room. -/
def closedRun : List Action :=
  [.request "a" false, .hold "a", .deliver "a", .send "a" (.res 1 []) true, .request "b" true,
    .hold "b", .opened "b" true, .deliver "b", .send "b" (.item 2 []) false, .request "c" false,
    .hold "c", .close ["c"], .poll "b" true, .unsent "c", .request "d" false, .hold "d",
    .refuse "d" true]

theorem answered_once_at_close :
    ∃ s, (serverMachine shortWire).run closedRun = some s ∧ (s.lanes "a").endings = 1 ∧
      (s.lanes "b").endings = 1 ∧ (s.lanes "c").endings = 1 ∧
      (s.lanes "d").queued = [.refusal (shuttingDown 0)] := by
  obtain ⟨-, -, hturn⟩ := ServerSide.answered_once shortWire closedRun _ rfl
  obtain ⟨hone, -, hrefused⟩ := hturn fun _ _ _ htook =>
    htook.of_checks (C := fun s a => s.inTurn shortWire a) rfl
  exact ⟨_, rfl, hone rfl rfl "a" 1 rfl rfl, hone rfl rfl "b" 2 rfl rfl,
    hone rfl rfl "c" 3 rfl rfl, hrefused "d" rfl⟩

/-- A reply over the server's `max_payload`, and then the close. -/
def oversizedRun : List Action :=
  [.request "a" false, .hold "a", .deliver "a", .send "a" (.res 1 (List.replicate 65 0)) true,
    .close []]

/-- `opened` published once `close` has answered, and a refusal that finds no room. -/
def lateRun : List Action :=
  [.request "a" true, .hold "a", .close [], .opened "a" true, .request "b" false, .hold "b",
    .refuse "b" false]

/-- **A call nobody answers**: its reply is over the limit, the RPC server is told of no
`FrameTooLarge` and sends no replacement, and `close` does not find it; and `opened` behind the
answer of `close`, and a request that is refused without a word. -/
theorem unanswered_call :
    (∃ s, (serverMachine shortWire).run oversizedRun = some s ∧ s.closed = true ∧
      s.unsent.keys = [] ∧ (s.lanes "a").stage = .ended 1 ∧ (s.lanes "a").cancelled = false ∧
      (s.lanes "a").queued = []) ∧
    ∃ s, (serverMachine shortWire).run lateRun = some s ∧
      (s.lanes "a").queued = [.atClose (shuttingDown 1), .opened] ∧
      (s.lanes "b").stage = .refused ∧ (s.lanes "b").queued = [] :=
  ⟨⟨_, rfl, rfl, rfl, rfl, rfl, rfl⟩, _, rfl, rfl, rfl, rfl⟩

end Ulo.Nats
