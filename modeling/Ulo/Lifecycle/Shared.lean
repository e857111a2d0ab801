import Ulo.Lifecycle.Drain

/-!
# What the handles of one execution share

A transport and its bodies speak to the execution of a call through handles. Of what
these share, two parts matter to a reply. The **cancellation** keeps the first reason it
was given; the reason is written before the listeners are fired, so that for a moment
there is a reason that no listener has seen. The **end of the reply stream** is kept from
the first report, and a callback runs once, with that one.
-/

namespace Ulo

/-- `StreamOutcome`. -/
inductive StreamOutcome
  | completed
  | cutOff (reason : Option CancelReason)
deriving DecidableEq

/-- **What the handles of an execution share**: its cancellation, and how its reply ended. -/
structure ExecShared where
  cancelReason : Option CancelReason := none
  /-- whether the listeners were fired -/
  cancelled : Bool := false
  outcome : Option StreamOutcome := none
  /-- what an `on_stream_end` callback was run with -/
  received : List StreamOutcome := []
  /-- it is run by the first report, and by no other -/
  once : received = outcome.toList := by rfl

namespace ExecShared

variable {exec : ExecShared}

/-- The first half of `cancel_with`. -/
def setReason (exec : ExecShared) (reason : CancelReason) : ExecShared :=
  { exec with cancelReason := exec.cancelReason.or (some reason) }

/-- The second half of `cancel_with`. -/
def fire (exec : ExecShared) : ExecShared := { exec with cancelled := true }

def cancelWith (exec : ExecShared) (reason : CancelReason) : ExecShared :=
  (exec.setReason reason).fire

/-- `report_stream_end`. -/
def reportStreamEnd (exec : ExecShared) (outcome : StreamOutcome) : ExecShared :=
  match h : exec.outcome with
  | some _ => exec
  | none =>
    { exec with
      outcome := some outcome
      received := exec.received ++ [outcome]
      once := by rw [exec.once, h]; rfl }

/-- `by_drain`. -/
def byDrain (exec : ExecShared) : Bool := exec.cancelReason = some .drain

theorem reportStreamEnd_of_none (h : exec.outcome = none) (outcome : StreamOutcome) :
    (exec.reportStreamEnd outcome).outcome = some outcome := by
  unfold reportStreamEnd
  split
  · rename_i h'
    cases h.symm.trans h'
  · rfl

theorem reportStreamEnd_of_some {outcome : StreamOutcome} (h : exec.outcome = some outcome)
    (later : StreamOutcome) : exec.reportStreamEnd later = exec := by
  unfold reportStreamEnd
  split
  · rfl
  · rename_i h'
    cases h.symm.trans h'

end ExecShared

end Ulo
