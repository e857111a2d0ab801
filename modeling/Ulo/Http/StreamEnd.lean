import Ulo.Http.Call

/-!
# A reply stream reports its end once

Which wrapper reports how a stream ended depends on the way its answer took: `Tracked`, where
the backend reads the stream itself; the buffered copy, where the stream answered a passed
timeout and was read by the service; `owes_nothing`, where no body is written; the outermost
body, where it cuts the stream or answers its panic. The first report stays, so that what
matters is which of them comes first, and whether it is about the answer.

Three ways it is not. A stream that answers a passed timeout is read into a copy whose length is
known, and a `HEAD` answer, or one whose status forbids a body, then passes `owes_nothing`
as if it were no stream: the copy, never written, reports the stream cut off
(`cut_off_head`). An unscoped entry that puts a stream of its own in the place of such a
copy, or of an answer whose end was reported, finds its stream's end reported before it began.
And the body of an event stream reports itself cut off where it gives an `error` event, and is
then read to its end like any other. `Call.orderly` asks for none of these.

What is kept of a response depends on six things only, its `View`: what a step does is said
once for the view, and the invariant is about the view alone.
-/

namespace Ulo.Http

open List Option Bool

namespace Body

/-- A body that reports nothing when it is dropped. -/
def silent : Body → Bool
  | tracked _ _ | copied _ _ _ => false
  | timed _ inner => inner.silent
  | _ => true

theorem drop_of_silent {body : Body} (h : body.silent = true) (exec : ExecShared) :
    body.drop exec = exec := by
  induction body with
  | empty | source | buffered => rfl
  | timed armed inner ih => exact ih h
  | tracked | copied => cases h

/-- A copy of which every frame was handed over. -/
def copyDone : Body → Bool
  | copied none none _ => true
  | _ => false

end Body

/-- A pipeline that reports nothing when it is dropped. -/
def Pipe.silent : Pipe → Bool
  | reading r => r.body.silent
  | leaving a => a.body.silent
  | _ => true

theorem Pipe.drop_of_silent {pipe : Pipe} (h : pipe.silent = true) (exec : ExecShared) :
    pipe.drop exec = exec := by
  cases pipe with
  | reading | leaving => exact Body.drop_of_silent h exec
  | _ => rfl

/-- A poll that ended the body against its will: it was cut at the drain's end, or it panicked. -/
def Asked.breaks (a : Asked) : Bool := a.gave = .shuttingDown || a.gave = .panicked

namespace Returned

/-- The body was cut, or panicked. -/
def broken (r : Returned) : Bool := r.asked.any (·.breaks)

/-- The backend was given the end. -/
def gotEnd (r : Returned) : Bool := r.asked.any fun a => a.gave = .passes .end_

/-- **The backend read the answer's body to its end**: it was given the end, of a body that was
not cut and did not panic, or every frame of the copy. -/
def readToEnd (r : Returned) : Bool := !r.broken && (r.gotEnd || r.body.inner.copyDone)

/-- The end is on its way to the backend, or there. -/
def sawEnd (r : Returned) : Bool :=
  r.gotEnd || match r.polling with
    | .told _ _ _ _ polled => polled = .end_
    | _ => false

/-- **What the report of a response depends on.** -/
structure View where
  /-- whether the service dropped the stream for the 504 -/
  dropped : Bool
  owes : Bool
  inner : Body
  broken : Bool
  sawEnd : Bool
  outcome : Option StreamOutcome

/-- The view of a response, with what was reported. -/
def view (r : Returned) (outcome : Option StreamOutcome) : View :=
  ⟨r.made.dropped, r.owes, r.body.inner, r.broken, r.sawEnd, outcome⟩

/-- **What has become of a stream** whose response was returned. -/
inductive View.Fate (v : View) : Prop
  | gone {reason : Option CancelReason} (hdropped : v.dropped = true) (howes : v.owes = false)
      (hsaid : v.outcome = some (.cutOff reason))
  | owes (hdropped : v.dropped = false) (howes : v.owes = true)
      (hsaid : v.outcome = some .completed)
  | streaming {inner : Body} (hdropped : v.dropped = false) (howes : v.owes = false)
      (hnone : v.outcome = none) (hbody : v.inner = .tracked v.sawEnd inner)
      (hfine : v.broken = false)
  | broken {reason : Option CancelReason} (hdropped : v.dropped = false) (howes : v.owes = false)
      (hsaid : v.outcome = some (.cutOff reason)) (hbroken : v.broken = true)
  | copy {data : Option (List UInt8)} {trailers : Option (List (String × String))} {read : Body}
      (hdropped : v.dropped = false) (howes : v.owes = false) (hnone : v.outcome = none)
      (hbody : v.inner = .copied data trailers read) (hfine : v.broken = false)
      (hread : v.sawEnd = true → data = none ∧ trailers = none)

/-- The stream of a dropped body has its one outcome, the right one. -/
def Reported (r : Returned) (outcome : Option StreamOutcome) : Prop :=
  ∃ said, outcome = some said ∧
    (said = .completed ↔ r.made.dropped = false ∧ (r.owes = true ∨ r.readToEnd = true))

end Returned

/-- An answer owes the client no body. -/
def Answer.owed (cfg : CallConfig) (a : Answer) : Bool :=
  cfg.head || forbidsBody a.head.status || a.stripped

/-- What has become of a stream that is on its way out as an answer. -/
inductive Answer.Fate (cfg : CallConfig) (a : Answer) (outcome : Option StreamOutcome) : Prop
  /-- the service dropped it for the 504 -/
  | gone {reason : Option CancelReason} (hdropped : a.made.dropped = true)
      (howed : a.owed cfg = false) (hsaid : outcome = some (.cutOff reason))
  /-- it was taken from a `HEAD` answer -/
  | stripped (hdropped : a.made.dropped = false) (hstripped : a.stripped = true)
      (hsaid : outcome = some .completed)
  | plain (hdropped : a.made.dropped = false) (hstripped : a.stripped = false)
      (hnone : outcome = none) (hexact : a.body.exact = false) (hmarked : a.body.marked = false)
  /-- it was read, and its copy is the answer -/
  | copy {data : Option (List UInt8)} {trailers : Option (List (String × String))} {read : Body}
      (hdropped : a.made.dropped = false) (howed : a.owed cfg = false) (hnone : outcome = none)
      (hbody : a.body = .copied data trailers read)

/-- **What holds where a call stands**, about an answer whose body had no known length. -/
def CallStage.Inv (cfg : CallConfig) (outcome : Option StreamOutcome) : CallStage → Prop
  | .running .handling _ | .running .recovering _ => outcome = none
  | .running (.reading r) _ => r.exact = false → outcome = none ∧
      (∃ inner, r.body = .tracked false inner) ∧
      cfg.head = false ∧ cfg.headFromGet = false ∧ forbidsBody r.head.status = false
  | .running (.leaving a) _ | .answered a => a.made.exact = false → a.Fate cfg outcome
  | .running .panicked _ | .unwound => True
  | .returned r => r.shutdown = false → r.made.exact = false → (r.view outcome).Fate
  | .dropped r _ => r.shutdown = false → r.made.exact = false → r.Reported outcome

namespace Call

/-- **The condition on a step**: a stream does not answer a passed timeout where no body is owed;
an entry puts no stream in the place of a tracked one, of a copy or of an answer that was
reported; and no body of the application reports its own end. -/
def orderly (cfg : CallConfig) (s : Call) : CallAction → Bool
  | .recovered (some (head, false, _)) => !(cfg.head || cfg.headFromGet || forbidsBody head.status)
  | .replace _ false _ =>
    s.exec.outcome.isNone && match s.stage with
      | .running pipe _ => pipe.silent
      | _ => true
  | .read own | .pollInner own _ => own.report.isNone
  | _ => true

/-- The invariant of a call. -/
def Inv (cfg : CallConfig) (s : Call) : Prop := s.stage.Inv cfg s.exec.outcome

end Call

section Outcomes

variable {exec : ExecShared} {body : Body}

/-- `owes_nothing` reports a stream, and changes nothing that was reported. -/
theorem outcome_owesNothing (h : exec.outcome = none) (hexact : body.exact = false) :
    (owesNothing body exec).outcome = some .completed := by
  rw [owesNothing, Body.streams, hexact, Bool.not_false, Bool.or_true, if_pos rfl]
  exact ExecShared.reportStreamEnd_of_none h _

theorem outcome_owesNothing_of_some {outcome : StreamOutcome} (h : exec.outcome = some outcome) :
    (owesNothing body exec).outcome = some outcome := by
  unfold owesNothing
  split
  · rw [ExecShared.reportStreamEnd_of_some h, h]
  · exact h

/-- A report, and the drop of the body it is about: the first report stays. -/
theorem outcome_drop_report_of_some {outcome : StreamOutcome} (h : exec.outcome = some outcome)
    (later : StreamOutcome) : (body.drop (exec.reportStreamEnd later)).outcome = some outcome := by
  rw [ExecShared.reportStreamEnd_of_some h]
  exact Body.outcome_drop_of_some h

theorem outcome_drop_report (h : exec.outcome = none) (outcome : StreamOutcome) :
    (body.drop (exec.reportStreamEnd outcome)).outcome = some outcome :=
  Body.outcome_drop_of_some (ExecShared.reportStreamEnd_of_none h _)

end Outcomes

namespace Call

variable {cfg : CallConfig} {s s' : Call} {a : Answer} {exec : ExecShared} {watching : Bool}
  {r : Reading} {body : Body} {own : Source}

/-! ### The pipeline -/

theorem found_of_not (h : cfg.headFromGet = false) (a : Answer) (exec : ExecShared) :
    found cfg a exec = (a, exec) := by
  rw [found, h, if_neg Bool.false_ne_true]

theorem made_found (a : Answer) (exec : ExecShared) : (found cfg a exec).1.made = a.made := by
  unfold found
  split <;> rfl

theorem Inv.leave_of (h : a.made.exact = false →
      (found cfg a exec).1.Fate cfg (found cfg a exec).2.outcome) :
    (s.leave cfg watching a exec).Inv cfg := by
  show (found cfg a exec).1.made.exact = false → _
  rw [made_found]
  exact h

/-- **The pipeline leaves with an answer of the matched route.** -/
theorem Inv.leave (h : a.made.exact = false → exec.outcome = none ∧ a.made.dropped = false ∧
    a.stripped = false ∧ a.body.exact = false ∧ a.body.marked = false) :
    (s.leave cfg watching a exec).Inv cfg := by
  refine Inv.leave_of fun hmade => ?_
  obtain ⟨houtcome, hdropped, hstripped, hexact, hmarked⟩ := h hmade
  unfold found
  split
  · exact .stripped hdropped rfl (Body.outcome_drop_of_some (outcome_owesNothing houtcome hexact))
  · exact .plain hdropped hstripped houtcome hexact hmarked

section

variable (h : (CallStage.running (.reading r) watching).Inv cfg exec.outcome)
include h

/-- The answer of the error handlers is dropped for the 504. -/
theorem Inv.giveUp (hbody : r.exact = false → ∃ inner, body = .tracked false inner) :
    (s.giveUp cfg watching r body exec).Inv cfg := by
  refine Inv.leave_of fun hexact => ?_
  have hexact : r.exact = false := hexact
  obtain ⟨hnone, -, hhead, hget, -⟩ := h hexact
  obtain ⟨inner, rfl⟩ := hbody hexact
  rw [found_of_not hget]
  refine .gone ?_ ?_ (Body.outcome_drop_tracked hnone false)
  · show (!r.exact) = true
    rw [hexact]
    rfl
  · rw [Answer.owed, hhead]
    rfl

/-- The answer of the error handlers was read whole. -/
theorem Inv.finish (data : List UInt8) (trailers : Option (List (String × String))) :
    (s.leave cfg watching (r.finish body data trailers) exec).Inv cfg := by
  refine Inv.leave_of fun hexact => ?_
  have hexact : r.exact = false := hexact
  obtain ⟨hnone, -, hhead, hget, hforbids⟩ := h hexact
  rw [found_of_not hget]
  have hbody : (r.finish body data trailers).body
      = .copied (if data = [] then none else some data) trailers body := by
    show (if r.exact then _ else _) = _
    rw [hexact, if_neg Bool.false_ne_true]
  refine .copy rfl ?_ hnone hbody
  show (cfg.head || forbidsBody r.head.status || false) = false
  rw [hhead, hforbids]
  rfl

end

/-- **One frame of the answer of the error handlers.** -/
theorem Inv.readFrame (h : (CallStage.running (.reading r) watching).Inv cfg s.exec.outcome)
    (hown : own.report = none) : (s.readFrame cfg watching r own).Inv cfg := by
  have houtcome : (r.body.poll own false s.exec).2.2.outcome = s.exec.outcome :=
    Body.outcome_poll hown
  -- the stream was not read to its end unless it says so
  have hbody (hend : (r.body.poll own false s.exec).1 ≠ some .end_) (hexact : r.exact = false) :
      ∃ inner, (r.body.poll own false s.exec).2.1 = .tracked false inner := by
    obtain ⟨-, ⟨inner, hinner⟩, -⟩ := h hexact
    rw [hinner] at hend ⊢
    have hend : (inner.poll own false s.exec).1 ≠ some .end_ := hend
    refine ⟨(inner.poll own false s.exec).2.1, ?_⟩
    show Body.tracked (false || _) _ = _
    rw [Bool.false_or, decide_eq_false hend]
  unfold Call.readFrame
  generalize r.body.poll own false s.exec = result at *
  obtain ⟨polled, body, exec⟩ := result
  dsimp only at *
  rw [← houtcome] at h
  have hreading (r' : Reading) (hexact : r'.exact = r.exact) (hhead : r'.head = r.head)
      (hr' : r'.body = body) (hend : polled ≠ some .end_) :
      (CallStage.running (.reading r') watching).Inv cfg exec.outcome := by
    intro hstream
    rw [hexact] at hstream
    obtain ⟨hnone, -, hrest⟩ := h hstream
    rw [hr', hhead]
    exact ⟨hnone, hbody hend hstream, hrest⟩
  cases polled with
  | none => trivial
  | some polled =>
    cases polled with
    | pending => exact hreading _ rfl rfl rfl nofun
    | end_ => exact Inv.finish h _ _
    | error => exact Inv.giveUp h (hbody nofun)
    | frame frame =>
      cases frame with
      | trailers => exact Inv.finish h _ _
      | data =>
        dsimp only
        split_ifs
        · exact Inv.giveUp h (hbody nofun)
        · exact Inv.finish h _ _
        · exact hreading _ rfl rfl rfl nofun

/-- **The response is returned.** -/
theorem Inv.ret (h : a.made.exact = false → a.Fate cfg exec.outcome) (shutdown : Bool) :
    (s.ret cfg shutdown a exec).Inv cfg := by
  intro _ hexact
  have hexec : (s.ret cfg shutdown a exec).exec
      = if cfg.head || forbidsBody a.head.status then owesNothing a.body exec else exec := rfl
  cases h hexact with
  | gone hdropped howed hsaid =>
    obtain ⟨hunwritten, hstripped⟩ := or_eq_false_iff.mp howed
    rw [hunwritten, if_neg Bool.false_ne_true] at hexec
    exact .gone hdropped howed (hexec ▸ hsaid)
  | stripped hdropped hstripped houtcome =>
    refine .owes hdropped ?_ ?_
    · show (_ || a.stripped) = true
      rw [hstripped, Bool.or_true]
    · rw [hexec]
      split
      · exact outcome_owesNothing_of_some houtcome
      · exact houtcome
  | plain hdropped hstripped houtcome hexact hmarked =>
    cases hunwritten : (cfg.head || forbidsBody a.head.status) with
    | true =>
      refine .owes hdropped rfl ?_
      rw [hexec, hunwritten, if_pos rfl]
      exact outcome_owesNothing houtcome hexact
    | false =>
      have htrack : a.body.track = .tracked false a.body := by
        rw [Body.track, hexact, hmarked]
        rfl
      refine .streaming hdropped hstripped ?_ htrack rfl
      rwa [hexec, hunwritten, if_neg Bool.false_ne_true]
  | @copy data trailers read hdropped howed houtcome hbody =>
    obtain ⟨hunwritten, hstripped⟩ := or_eq_false_iff.mp howed
    have htrack : (if cfg.head || forbidsBody a.head.status then a.body else a.body.track)
        = .copied data trailers read := by
      rw [hunwritten, if_neg Bool.false_ne_true, hbody]
      rfl
    refine .copy hdropped howed ?_ htrack rfl nofun
    rwa [hexec, hunwritten, if_neg Bool.false_ne_true]

/-- The refusal of the drain is no stream. -/
theorem Inv.refuse : (s.ret cfg true draining exec).Inv cfg := by
  intro hshutdown
  cases hshutdown

theorem Inv.pend {pipe : Pipe} (h : (CallStage.running pipe watching).Inv cfg s.exec.outcome) :
    (s.pend cfg pipe watching).Inv cfg := by
  have hrunning (w : Bool) : (CallStage.running pipe w).Inv cfg s.exec.outcome := by
    cases pipe <;> exact h
  unfold Call.pend
  split_ifs
  · exact Inv.refuse
  · exact hrunning false
  · exact hrunning watching

/-- **What the pipeline does keeps the invariant.** -/
theorem Inv.stepRunning {pipe : Pipe} {action : CallAction}
    (hinv : (CallStage.running pipe watching).Inv cfg s.exec.outcome)
    (hstage : s.stage = .running pipe watching) (horderly : s.orderly cfg action = true)
    (h : s.stepRunning cfg watching pipe action = some s') : s'.Inv cfg := by
  unfold Call.stepRunning at h
  split at h
  · -- an answer, of the matched route or before it
    split at h <;> cases h
    · refine Inv.leave fun hexact => ⟨hinv, rfl, rfl, ?_, ?_⟩
      · split <;> exact hexact
      · split <;> rfl
    · exact fun hexact => .plain rfl rfl hinv hexact rfl
  · -- the timeout passes
    obtain ⟨-, h⟩ := ite_none_right_eq_some.mp h
    cases h
    exact hinv
  · -- the error handlers answer
    rename_i exact _
    split at h <;> cases h
    · exact Inv.leave fun hexact => ⟨hinv, rfl, rfl, hexact, rfl⟩
    · intro hexact
      have hexact : exact = false := hexact
      subst hexact
      simp only [orderly, not_eq_true', or_eq_false_iff] at horderly
      exact ⟨hinv, ⟨_, rfl⟩, horderly.1.1, horderly.1.2, horderly.2⟩
  · -- their grace is over
    obtain ⟨-, h⟩ := ite_none_right_eq_some.mp h
    cases h
    exact Inv.leave nofun
  · -- a frame of their answer
    obtain ⟨-, h⟩ := ite_none_left_eq_some.mp h
    cases h
    exact Inv.readFrame hinv (isNone_iff_eq_none.mp horderly)
  · -- the end of a poll of it
    obtain ⟨-, h⟩ := ite_none_right_eq_some.mp h
    split at h <;> cases h
    · exact Inv.giveUp hinv fun hexact => (hinv hexact).2.1
    · exact Inv.pend hinv
  · cases h
  · -- the pipeline is pending
    cases h
    exact Inv.pend hinv
  · -- an entry answers in its place
    rename_i exact _
    cases h
    intro hexact
    have hexact : exact = false := hexact
    subst hexact
    simp only [orderly, hstage, and_eq_true, isNone_iff_eq_none] at horderly
    refine .plain rfl rfl ?_ rfl rfl
    show (pipe.drop s.exec).outcome = none
    rw [Pipe.drop_of_silent horderly.2, horderly.1]
  · cases h
    trivial
  · cases h
    exact hinv
  · cases h

/-! ### The body of the response -/

end Call

namespace Returned

variable {r : Returned} {v : View} {outcome : Option StreamOutcome} {asked : Asked} {b : ExecBody}

/-- A poll that gives what the body inside answered changes nothing of the view. -/
theorem view_gives {watching drained ended : Bool} {told : Option Polled} {polled : Polled}
    (hpolling : r.polling = .told watching drained ended told polled)
    (hinner : b.inner = r.body.inner) (hgave : asked.gave = .passes polled) :
    view { r with body := b, polling := .idle, asked := r.asked ++ [asked] } outcome
      = r.view outcome := by
  have hbreaks : asked.breaks = false := by rw [Asked.breaks, hgave]; rfl
  simp [view, broken, sawEnd, gotEnd, hinner, hpolling, hbreaks, hgave]

/-- A poll that cut the body, or found it panicked. -/
theorem broken_gives (hasked : asked.breaks = true) :
    broken { r with body := b, polling := .idle, asked := r.asked ++ [asked] } = true := by
  rw [broken, any_append, any_cons, hasked, Bool.true_or, Bool.or_true]

/-- **A stream that is cut or panics** is reported as cut off, unless it was reported before. -/
theorem View.Fate.breaks (h : v.Fate) {inner : Body} {sawEnd : Bool}
    (hkeeps : ∀ said, v.outcome = some said → outcome = some said)
    (hcut : v.outcome = none → ∃ reason, outcome = some (.cutOff reason)) :
    View.Fate { v with inner, broken := true, sawEnd, outcome } := by
  cases h with
  | gone hdropped howes hsaid => exact .gone hdropped howes (hkeeps _ hsaid)
  | owes hdropped howes hsaid => exact .owes hdropped howes (hkeeps _ hsaid)
  | streaming hdropped howes hnone | copy hdropped howes hnone =>
    obtain ⟨reason, hsaid⟩ := hcut hnone
    exact .broken hdropped howes hsaid rfl
  | broken hdropped howes hsaid => exact .broken hdropped howes (hkeeps _ hsaid) rfl

/-- **The body inside is polled**, and does not panic. -/
theorem View.Fate.polled (h : v.Fate) (own : Source) (due : Bool) (exec : ExecShared) :
    View.Fate { v with
      inner := (v.inner.poll own due exec).2.1
      sawEnd := v.sawEnd || (v.inner.poll own due exec).1 = some .end_ } := by
  cases h with
  | gone hdropped howes hsaid => exact .gone hdropped howes hsaid
  | owes hdropped howes hsaid => exact .owes hdropped howes hsaid
  | streaming hdropped howes hnone hbody hfine =>
    rw [hbody]
    exact .streaming hdropped howes hnone rfl hfine
  | broken hdropped howes hsaid hbroken => exact .broken hdropped howes hsaid hbroken
  | @copy data trailers read hdropped howes hnone hbody hfine hread =>
    rw [hbody]
    refine .copy hdropped howes hnone rfl hfine fun hend => ?_
    -- the copy gives its end only once it has nothing left
    cases data with
    | some =>
      have := (hread (by simpa [Body.poll, Body.takeFrame] using hend)).1
      cases this
    | none =>
      cases trailers with
      | some =>
        have := (hread (by simpa [Body.poll, Body.takeFrame] using hend)).2
        cases this
      | none => exact ⟨rfl, rfl⟩

/-- **The body is dropped**: what has not been reported is reported now. -/
theorem View.Fate.dropped {exec : ExecShared} (h : (r.view exec.outcome).Fate)
    (hpolling : r.polling = .idle) : r.Reported (r.body.drop exec).outcome := by
  have hnot : r.sawEnd = r.gotEnd := by rw [Returned.sawEnd, hpolling, Bool.or_false]
  obtain ⟨exec', hexec⟩ : ∃ exec',
      exec' = if r.body.ended then exec else exec.cancelWith .disconnected := ⟨_, rfl⟩
  have houtcome : exec'.outcome = exec.outcome := by
    rw [hexec]
    split <;> rfl
  unfold ExecBody.drop
  rw [← hexec]
  cases h with
  | gone hdropped howes hsaid =>
    refine ⟨_, Body.outcome_drop_of_some (houtcome.trans hsaid), ?_⟩
    simp [show r.made.dropped = true from hdropped]
  | owes hdropped howes hsaid =>
    refine ⟨_, Body.outcome_drop_of_some (houtcome.trans hsaid), ?_⟩
    simp [show r.made.dropped = false from hdropped, show r.owes = true from howes]
  | streaming hdropped howes hnone hbody hfine =>
    have hbody : r.body.inner = .tracked r.sawEnd _ := hbody
    have hread : r.readToEnd = r.sawEnd := by
      rw [readToEnd, show r.broken = false from hfine, hbody, hnot]
      simp [Body.copyDone]
    rw [hbody]
    refine ⟨_, Body.outcome_drop_tracked (houtcome.trans hnone) _, ?_⟩
    rw [hread, show r.owes = false from howes, show r.made.dropped = false from hdropped]
    cases r.sawEnd <;> simp
  | broken hdropped howes hsaid hbroken =>
    refine ⟨_, Body.outcome_drop_of_some (houtcome.trans hsaid), ?_⟩
    simp [show r.made.dropped = false from hdropped, show r.owes = false from howes, readToEnd,
      show r.broken = true from hbroken]
  | @copy data trailers read hdropped howes hnone hbody hfine hcopied =>
    have hbody : r.body.inner = .copied data trailers read := hbody
    have hdone : (Body.copied data trailers read).copyDone = (data.isNone && trailers.isNone) := by
      cases data <;> cases trailers <;> rfl
    have hread : r.readToEnd = (data.isNone && trailers.isNone) := by
      rw [readToEnd, show r.broken = false from hfine, hbody, hdone]
      cases hend : r.gotEnd with
      | false => simp
      | true =>
        obtain ⟨rfl, rfl⟩ := hcopied (hnot.trans hend)
        rfl
    rw [hbody]
    refine ⟨_, Body.outcome_drop_copied (houtcome.trans hnone) data trailers, ?_⟩
    rw [hread, show r.owes = false from howes, show r.made.dropped = false from hdropped]
    cases data <;> cases trailers <;> simp

end Returned

namespace Call

variable {cfg : CallConfig} {s s' : Call} {exec : ExecShared} {own : Source}

section Polls

variable {r : Returned} {asked : Asked} {b : ExecBody}
  (h : r.shutdown = false → r.made.exact = false → (r.view s.exec.outcome).Fate)
include h

/-- A poll that cut the body, or found it panicked, was reported as such. -/
theorem Inv.gives_broken (hasked : asked.breaks = true)
    (hkeeps : ∀ said, s.exec.outcome = some said → exec.outcome = some said)
    (hcut : s.exec.outcome = none → ∃ reason, exec.outcome = some (.cutOff reason)) :
    (s.gives r b asked exec).Inv cfg := by
  intro hshutdown hexact
  show Returned.View.Fate ⟨_, _, _, Returned.broken _, _, _⟩
  rw [Returned.broken_gives hasked]
  exact (h hshutdown hexact).breaks hkeeps hcut

/-- A cut reports the stream. -/
theorem Inv.cutOff (hasked : asked.gave = .shuttingDown) :
    (s.gives r (r.body.cutOff s.exec).1 asked (r.body.cutOff s.exec).2).Inv cfg := by
  refine Inv.gives_broken h ?_ (fun said hsaid => outcome_drop_report_of_some hsaid _)
    fun hnone => ⟨_, outcome_drop_report hnone _⟩
  rw [Asked.breaks, hasked]
  rfl

/-- **The body inside is polled.** -/
theorem Inv.pollInner {watching due : Bool} (hpolling : r.polling = .asking watching)
    (hown : own.report = none) : (s.pollInner r watching own due).Inv cfg := by
  have houtcome : (r.body.inner.poll own due s.exec).2.2.outcome = s.exec.outcome :=
    Body.outcome_poll hown
  have hnot : r.sawEnd = r.gotEnd := by rw [Returned.sawEnd, hpolling, Bool.or_false]
  have hpolled (hshutdown : r.shutdown = false) (hexact : r.made.exact = false) :=
    (h hshutdown hexact).polled own due s.exec
  simp only [Returned.view, hnot, ← houtcome] at hpolled
  unfold Call.pollInner
  generalize r.body.inner.poll own due s.exec = result at *
  obtain ⟨polled, inner, exec⟩ := result
  dsimp only at *
  cases polled with
  | none =>
    exact Inv.gives_broken h rfl
      (fun said hsaid => outcome_drop_report_of_some (houtcome.trans hsaid) _)
      fun hnone => ⟨_, outcome_drop_report (houtcome.trans hnone) _⟩
  | some polled =>
    dsimp only
    intro hshutdown hexact
    have hfate := hpolled hshutdown hexact
    simp only [some.injEq] at hfate
    exact hfate

theorem Inv.pollEnd {watching drained ended : Bool} {told : Option Polled} {polled : Polled}
    (hpolling : r.polling = .told watching drained ended told polled) :
    (s.pollEnd r watching drained ended told polled).Inv cfg := by
  have hgives (b : ExecBody) (asked : Asked) (hinner : b.inner = r.body.inner)
      (hgave : asked.gave = .passes polled) : (s.gives r b asked s.exec).Inv cfg := by
    intro hshutdown hexact
    rw [Returned.view_gives hpolling hinner hgave]
    exact h hshutdown hexact
  unfold Call.pollEnd
  dsimp only
  split
  · rename_i hpending
    split
    · exact Inv.cutOff h rfl
    · refine hgives _ _ rfl ?_
      simp only [and_eq_true, decide_eq_true_eq] at hpending
      rw [hpending.1.1]
  · exact hgives _ _ rfl rfl

/-- **What the backend does keeps the invariant.** -/
theorem Inv.stepReturned {polling : Polling} {action : CallAction} (hpolling : r.polling = polling)
    (horderly : s.orderly cfg action = true) (hstep : s.stepReturned r polling action = some s') :
    s'.Inv cfg := by
  unfold Call.stepReturned at hstep
  split at hstep
  · split at hstep <;> cases hstep
    · exact Inv.cutOff h rfl
    · intro hshutdown hexact
      have hview : Returned.view { r with polling := .asking r.body.watching } s.exec.outcome
          = r.view s.exec.outcome := by
        simp only [Returned.view, Returned.sawEnd, hpolling]
        rfl
      rw [hview]
      exact h hshutdown hexact
  · cases hstep
    exact Inv.pollInner h hpolling (isNone_iff_eq_none.mp horderly)
  · cases hstep
    exact Inv.pollEnd h hpolling
  · cases hstep
    exact fun hshutdown hexact => (h hshutdown hexact).dropped hpolling
  · cases hstep

end Polls

/-- **An orderly step keeps the invariant.** -/
theorem Inv.step {action : CallAction} (hinv : s.Inv cfg) (horderly : s.orderly cfg action = true)
    (h : s.step cfg action = some s') : s'.Inv cfg := by
  have hstage : s.stage.Inv cfg s.exec.outcome := hinv
  unfold Call.step at h
  split at h
  · cases h
    exact hstage
  · obtain ⟨-, h⟩ := ite_none_right_eq_some.mp h
    cases h
    exact hstage
  · cases h
    exact hinv
  · rename_i hanswered
    rw [hanswered] at hstage
    split at h <;> cases h
    · exact Inv.refuse
    · exact Inv.ret hstage false
  · rename_i hrunning
    rw [hrunning] at hstage
    exact Inv.stepRunning hstage hrunning horderly h
  · rename_i hreturned
    rw [hreturned] at hstage
    exact Inv.stepReturned hstage rfl horderly h
  · cases h

/-- **Every reply stream reports its end once and truthfully.** In every run a callback has been
run at most once; and in every run of orderly steps it has been run exactly once by the time the
returned response is dropped, for an answer whose body had no known length and that the drain did
not replace: with `Completed` exactly when the backend read the answer's body to its end or the
answer owes no body, and with `CutOff` in every other case, a late answer that the service
dropped for the 504 among them. -/
theorem stream_end_once (cfg : CallConfig) (t : List CallAction) (s : Call)
    (h : (callMachine cfg).run t = some s) :
    s.exec.received.length ≤ 1 ∧
    ((∀ pre s₀ action, (callMachine cfg).TookAt t pre s₀ action → s₀.orderly cfg action = true) →
      ∀ r left, s.stage = .dropped r left → r.shutdown = false → r.made.exact = false →
        (r.made.dropped = false ∧ (r.owes = true ∨ r.readToEnd = true) ∧
          s.exec.received = [.completed]) ∨
        ((r.made.dropped = true ∨ r.owes = false ∧ r.readToEnd = false) ∧
          ∃ reason, s.exec.received = [.cutOff reason])) := by
  refine ⟨?_, fun hsteps r left hdropped hshutdown hexact => ?_⟩
  · rw [s.exec.once]
    exact length_toList_le
  · have hinv : s.Inv cfg := Machine.invariant_of_steps (P := fun s => s.Inv cfg)
      (C := fun s a => s.orderly cfg a = true) rfl (fun _ _ _ hs ha hstep => hs.step ha hstep)
      hsteps h
    have hstage : s.stage.Inv cfg s.exec.outcome := hinv
    rw [hdropped] at hstage
    obtain ⟨outcome, houtcome, hiff⟩ := hstage hshutdown hexact
    have hreceived : s.exec.received = [outcome] := by rw [s.exec.once, houtcome]; rfl
    rw [hreceived]
    cases outcome with
    | completed =>
      obtain ⟨hmade, hread⟩ := hiff.mp rfl
      exact .inl ⟨hmade, hread, rfl⟩
    | cutOff reason =>
      refine .inr ⟨?_, reason, rfl⟩
      have hnot : ¬ (r.made.dropped = false ∧ (r.owes = true ∨ r.readToEnd = true)) :=
        fun h => by cases hiff.mpr h
      cases hmade : r.made.dropped with
      | true => exact .inl rfl
      | false =>
        refine .inr ⟨eq_false_iff.mpr fun h => ?_, eq_false_iff.mpr fun h => ?_⟩
        · exact hnot ⟨hmade, .inl h⟩
        · exact hnot ⟨hmade, .inr h⟩

end Call

/-- A `GET` on a route with a timeout, and a grace after it. -/
def timedGet : CallConfig := ⟨false, false, true, true⟩

/-- A `HEAD` on it, which the `GET` handler answers. -/
def timedHead : CallConfig := ⟨true, true, true, true⟩

/-- The timeout passes, an error handler answers with a stream of one frame, and the service has
read it. -/
def lateStream : List CallAction :=
  [.expire, .recovered (some (⟨503, none⟩, false, false)),
    .read (.answers (.frame (.data [99])) false), .read (.answers .end_ false), .answer, .return_]

/-- The backend takes the copy's frame, and drops the body. -/
theorem stream_end_once_late : ∃ s, (callMachine timedGet).run
      (lateStream ++ [.pollStart, .pollInner .panics false, .pollEnd, .drop]) = some s ∧
    s.exec.received = [.completed] := by
  refine ⟨_, rfl, ?_⟩
  have h := (Call.stream_end_once timedGet
    (lateStream ++ [.pollStart, .pollInner .panics false, .pollEnd, .drop]) _ rfl).2
    (fun _ _ _ htook => htook.of_checks (C := fun s a => s.orderly timedGet a) rfl) _ _ rfl rfl rfl
  rcases h with h | ⟨h | ⟨-, h⟩, -⟩
  · exact h.2.2
  · cases h
  · cases h

/-- **A timed-out `HEAD` answered by a stream**: no body is owed, and the stream is reported cut
off. -/
theorem cut_off_head : ∃ s r left, (callMachine timedHead).run (lateStream ++ [.drop]) = some s ∧
    s.stage = .dropped r left ∧ r.shutdown = false ∧ r.made.exact = false ∧ r.made.dropped = false ∧
    r.owes = true ∧ s.exec.received = [.cutOff (some .deadline)] :=
  ⟨_, _, _, rfl, rfl, rfl, rfl, rfl, rfl, rfl⟩

end Ulo.Http
