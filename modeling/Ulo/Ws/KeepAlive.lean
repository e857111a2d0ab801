import Mathlib.Data.List.Rotate
import Ulo.Lib.Machine

/-!
# The keep-alive of a connection

The read loop of a WebSocket connection pings its peer, and ends the connection `Lost`
when no Pong has been read by `pong_timeout`. The Pong is read by the loop itself, in
the same wait: one `poll_fn` over nine branches, starting at the next branch each turn,
the first that is ready deciding the turn. So a Pong in the socket counts only if its
branch is polled and comes before the expiry's.

Neither is given. The loop does not read while its messages in flight are at their
bound, while the server's places are taken, while a message waits for one, and in the
drain; the clock of the Pong runs on. And in five of nine turns the expiry is polled
before the socket. A peer that answered in time is then ended as lost (`unread_pong`).
The keep-alive is right in the runs in which a due expiry that meets a Pong in the
socket is polled by a loop that reads, after its socket (`ends_only_silent`).
-/

namespace Ulo.Ws

open List Option

/-- A frame that reached the socket and was not read. -/
inductive Incoming
  | message
  | pong
  | close
  /-- a Ping, or a frame refused or answered without a place -/
  | other
  /-- the end of the stream -/
  | eof
deriving DecidableEq

/-- `Expiry`: when it is due on the clock, and whether its wait was refused. -/
structure Expiry where
  due : ℕ
  refused : Bool := false
deriving DecidableEq

/-- Why the loop ended: for a Pong missed, for the peer or the socket, or after the close. -/
inductive Ending
  | missed
  | lost
  | closed
deriving DecidableEq

/-- What the gateway sets. -/
structure KeepAliveLimits where
  maxInflight : ℕ
  pingInterval : Option ℕ
  pongTimeout : Option ℕ

/-- **The read loop**, with the clock, the socket and the runtime beside it. `first` is the
branch the wait starts at, and `reading` what the turn decided. -/
structure ReadLoop where
  now : ℕ := 0
  /-- the runtime has shut down -/
  down : Bool := false
  socket : List Incoming := []
  turn : ℕ := 0
  parked : Bool := false
  first : ℕ := 0
  reading : Bool := false
  /-- the tracker's phase, and what the loop has read of it -/
  phase : Bool := false
  draining : Bool := false
  closing : Bool := false
  shutDown : Bool := false
  waiting : Bool := false
  handling : ℕ := 0
  ping : Option ℕ
  pong : Option Expiry := none
  ending : Option Ending := none
deriving DecidableEq

/-- The branches of the wait, in order. -/
inductive Branch
  | read
  | woken
  | progressed
  | phase
  | ping
  | pong
  | closeDeadline
  | joined
  | freed
deriving DecidableEq

/-- What else is ready at a poll, whether a message read in it gets a place, and whether
what it sends is sent. -/
structure Wakes where
  woken : Bool := false
  progressed : Bool := false
  phase : Bool := false
  closeDeadline : Bool := false
  joined : Bool := false
  freed : Bool := false
  placed : Bool := true
  sent : Bool := true
deriving DecidableEq

/-- What ended a turn of the wait. -/
inductive TurnEvent
  | read (frame : Incoming)
  | woken
  | ping
  | refused
  | pongMissed
  | closeDeadline
deriving DecidableEq

namespace ReadLoop

/-- `Expiry::passed`, of the wait for a Pong. -/
def passed (s : ReadLoop) : Bool := s.pong.any (·.due ≤ s.now)

/-- One branch is polled. -/
def pollBranch (wakes : Wakes) (s : ReadLoop) : Branch → ReadLoop × Option TurnEvent
  | .read => (s, if s.reading then s.socket.head?.map .read else none)
  | .woken => (s, if wakes.woken then some .woken else none)
  | .progressed => (s, if wakes.progressed then some .woken else none)
  | .phase => (s, if !s.draining && wakes.phase then some .woken else none)
  | .ping =>
    (s, if s.closing then none else
      s.ping.bind fun due => if s.down then some .refused else if due ≤ s.now then some .ping
        else none)
  | .pong =>
    match s.pong with
    | none => (s, none)
    | some expiry =>
      if expiry.refused then (s, some .refused)
      else if expiry.due ≤ s.now then (s, some .pongMissed)
      -- a refusal is answered one poll late
      else if s.down then ({ s with pong := some { expiry with refused := true } }, none)
      else (s, none)
  | .closeDeadline => (s, if wakes.closeDeadline then some .closeDeadline else none)
  | .joined => (s, if wakes.joined then some .woken else none)
  | .freed => (s, if wakes.freed then some .woken else none)

/-- **The wait is polled**: the first branch that is ready decides. -/
def pollFrom (wakes : Wakes) : List Branch → ReadLoop → ReadLoop × Option TurnEvent
  | [], s => (s, none)
  | branch :: branches, s =>
    match pollBranch wakes s branch with
    | (s, some event) => (s, some event)
    | (s, none) => pollFrom wakes branches s

/-- The order of a poll. -/
def order (first : ℕ) : List Branch :=
  [.read, .woken, .progressed, .phase, .ping, .pong, .closeDeadline, .joined, .freed].rotate first

/-- The loop ends with the reason of its close, or else as given. -/
def finish (s : ReadLoop) (ending : Ending) : ReadLoop :=
  { s with ending := some (if s.closing then .closed else ending) }

/-- What the loop does about a frame it read. -/
def onRead (wakes : Wakes) (s : ReadLoop) : Incoming → ReadLoop
  | .message =>
    if s.closing then s
    else if wakes.placed then { s with handling := s.handling + 1 } else { s with waiting := true }
  | .pong => { s with pong := none }
  | .close => { s with closing := true }
  | .other => if wakes.sent then s else s.finish .lost
  | .eof => s.finish .lost

/-- **What the turn does about its event.** -/
def onEvent (limits : KeepAliveLimits) (wakes : Wakes) (s : ReadLoop) : TurnEvent → ReadLoop
  | .read frame => onRead wakes { s with socket := s.socket.tail } frame
  | .woken => s
  | .ping =>
    if !wakes.sent then { s with ending := some .lost }
    else { s with
      ping := limits.pingInterval.map (s.now + ·)
      pong := match s.pong with
        | some expiry => some expiry
        | none => limits.pongTimeout.map fun after => { due := s.now + after } }
  | .refused =>
    if s.passed then { s with ending := some .missed }
    else { s with ping := none, pong := none, shutDown := !s.closing }
  | .pongMissed => { s with ending := some .missed }
  | .closeDeadline => s.finish .lost

end ReadLoop

/-- A step of the loop, or of what is around it. -/
inductive LoopAction
  | tick
  | shutDown
  | arrive (frame : Incoming)
  | drain
  /-- the gateway or the drain closes the connection -/
  | close
  /-- a message leaves the count -/
  | answered
  /-- a turn up to its wait: whether a message that waits gets its place, and whether the
  look before the wait finds one free -/
  | turn (placed free : Bool)
  | poll (wakes : Wakes)
deriving DecidableEq

namespace ReadLoop

/-- **A turn, up to its wait.** -/
def toWait (limits : KeepAliveLimits) (s : ReadLoop) (placed free : Bool) : ReadLoop :=
  let s := { s with draining := s.draining || s.phase, closing := s.closing || s.shutDown }
  let s := if !s.closing && placed && s.waiting then
    { s with waiting := false, handling := s.handling + 1 } else s
  { s with
    reading := s.closing || !s.draining && !s.waiting && free && s.handling < limits.maxInflight
    first := s.turn
    turn := s.turn + 1
    parked := true }

/-- One step. -/
def step (limits : KeepAliveLimits) (s : ReadLoop) (a : LoopAction) : Option ReadLoop :=
  if s.ending.isSome then none
  else
    match a with
    | .tick => some { s with now := s.now + 1 }
    | .shutDown => some { s with down := true }
    | .arrive frame => some { s with socket := s.socket ++ [frame] }
    | .drain => some { s with phase := true }
    | .close => if s.parked then none else some { s with closing := true }
    | .answered => some { s with handling := s.handling - 1 }
    | .turn placed free => if s.parked then none else some (s.toWait limits placed free)
    | .poll wakes =>
      if s.parked then
        match pollFrom wakes (order s.first) s with
        | (s, some event) => some (onEvent limits wakes { s with parked := false } event)
        | (s, none) => some s
      else none

end ReadLoop

/-- **The loop's machine.** -/
def loopMachine (limits : KeepAliveLimits) : Machine ReadLoop LoopAction where
  init := { ping := limits.pingInterval }
  step := ReadLoop.step limits

namespace ReadLoop

variable {limits : KeepAliveLimits} {s s' : ReadLoop} {wakes : Wakes} {a : LoopAction}

/-! ## What a poll finds -/

/-- A poll of a branch takes nothing from the socket and moves no clock. -/
theorem pollBranch_frame (wakes : Wakes) (s : ReadLoop) (branch : Branch) :
    (pollBranch wakes s branch).1.socket = s.socket ∧
      (pollBranch wakes s branch).1.ending = s.ending ∧
      (pollBranch wakes s branch).1.passed = s.passed := by
  cases branch with
  | pong =>
    simp only [pollBranch]
    split
    · exact ⟨rfl, rfl, rfl⟩
    · rename_i hpong
      split
      · exact ⟨rfl, rfl, rfl⟩
      · split
        · exact ⟨rfl, rfl, rfl⟩
        · split
          · refine ⟨rfl, rfl, ?_⟩
            simp only [passed, hpong]
            rfl
          · exact ⟨rfl, rfl, rfl⟩
  | _ => exact ⟨rfl, rfl, rfl⟩

/-- Only the expiry reports a Pong as missed, and only when it is due. -/
theorem passed_of_pollBranch {branch : Branch}
    (h : (pollBranch wakes s branch).2 = some .pongMissed) : s.passed = true := by
  cases branch with simp only [pollBranch] at h
  | pong =>
    split at h
    · cases h
    · rename_i hpong
      split at h
      · cases h
      · split at h
        · rename_i hdue
          simpa [passed, hpong] using hdue
        · split at h <;> cases h
  | read =>
    split at h
    · obtain ⟨frame, -, hread⟩ := map_eq_some_iff.mp h
      cases hread
    · cases h
  | ping =>
    split at h
    · cases h
    · obtain ⟨due, -, hping⟩ := bind_eq_some_iff.mp h
      split at hping
      · cases hping
      · split at hping <;> cases hping
  | _ => simp at h

theorem pollFrom_frame (wakes : Wakes) (branches : List Branch) (s : ReadLoop) :
    (pollFrom wakes branches s).1.socket = s.socket ∧
      (pollFrom wakes branches s).1.ending = s.ending ∧
      (pollFrom wakes branches s).1.passed = s.passed := by
  induction branches generalizing s with
  | nil => exact ⟨rfl, rfl, rfl⟩
  | cons branch branches ih =>
    obtain ⟨hsocket, hending, hpassed⟩ := pollBranch_frame wakes s branch
    simp only [pollFrom]
    split
    · rename_i heq
      rw [heq] at hsocket hending hpassed
      exact ⟨hsocket, hending, hpassed⟩
    · rename_i heq
      rw [heq] at hsocket hending hpassed
      obtain ⟨hsocket', hending', hpassed'⟩ := ih _
      exact ⟨hsocket'.trans hsocket, hending'.trans hending, hpassed'.trans hpassed⟩

theorem passed_of_pollFrom {branches : List Branch}
    (h : (pollFrom wakes branches s).2 = some .pongMissed) : s.passed = true := by
  induction branches generalizing s with
  | nil => cases h
  | cons branch branches ih =>
    simp only [pollFrom] at h
    split at h
    · rename_i heq
      exact passed_of_pollBranch ((congrArg Prod.snd heq).trans h)
    · rename_i heq
      have hpassed := (pollBranch_frame wakes s branch).2.2
      rw [heq] at hpassed
      exact hpassed ▸ ih h

/-- The turns whose poll comes to the socket before it comes to a clock of the keep-alive. -/
def readsFirst (first : ℕ) : Bool := first % 9 = 0 || 6 ≤ first % 9

/-- A branch that is no clock of the keep-alive, and not the socket. -/
def Branch.calm (branch : Branch) : Bool :=
  branch = .closeDeadline || branch = .joined || branch = .freed

/-- **A poll that comes to the socket by calm branches** finds its frame, if not one of them
is ready before. -/
theorem pollFrom_calm {before after : List Branch}
    (hcalm : ∀ branch ∈ before, Branch.calm branch = true)
    (hreading : s.reading = true) (hsocket : s.socket ≠ []) :
    (pollFrom wakes (before ++ .read :: after) s).2 ≠ some .pongMissed ∧
      (pollFrom wakes (before ++ .read :: after) s).2 ≠ some .refused := by
  obtain ⟨frame, frames, hcons⟩ := exists_cons_of_ne_nil hsocket
  induction before with
  | nil =>
    simp only [nil_append, pollFrom, pollBranch, hreading, hcons]
    exact ⟨nofun, nofun⟩
  | cons branch before ih =>
    have hrest := ih fun b hb => hcalm b (mem_cons_of_mem _ hb)
    have hbranch := hcalm branch mem_cons_self
    rw [cons_append, pollFrom]
    cases branch with
    | closeDeadline | joined | freed =>
      simp only [pollBranch]
      split
      · rename_i heq
        split at heq <;> cases heq
        exact ⟨nofun, nofun⟩
      · rename_i heq
        split at heq <;> cases heq
        exact hrest
    | _ => cases hbranch

/-- **A loop that reads, and reads first, finds the frame.** -/
theorem pollFrom_of_readsFirst (wakes : Wakes) (hreading : s.reading = true)
    (hfirst : readsFirst s.first = true)
    (hsocket : s.socket ≠ []) : (pollFrom wakes (order s.first) s).2 ≠ some .pongMissed ∧
      (pollFrom wakes (order s.first) s).2 ≠ some .refused := by
  have hsplit : ∃ before after, order s.first = before ++ .read :: after ∧
      ∀ branch ∈ before, Branch.calm branch = true := by
    have hcases : s.first % 9 = 0 ∨ s.first % 9 = 6 ∨ s.first % 9 = 7 ∨ s.first % 9 = 8 := by
      simp only [readsFirst, Bool.or_eq_true, decide_eq_true_eq] at hfirst
      omega
    rw [show order s.first = order (s.first % 9) from (rotate_mod _ _).symm]
    rcases hcases with hr | hr | hr | hr <;> rw [hr]
    · exact ⟨[], _, rfl, by decide⟩
    · exact ⟨[.closeDeadline, .joined, .freed], _, rfl, by decide⟩
    · exact ⟨[.joined, .freed], _, rfl, by decide⟩
    · exact ⟨[.freed], _, rfl, by decide⟩
  obtain ⟨before, after, horder, hcalm⟩ := hsplit
  rw [horder]
  exact pollFrom_calm hcalm hreading hsocket

/-! ## The loop's end -/

/-- Only a Pong missed ends a loop as one, and it was due. -/
theorem passed_of_missed {event : TurnEvent} (hending : s.ending = none)
    (h : (onEvent limits wakes s event).ending = some .missed) :
    (event = .pongMissed ∨ event = .refused ∧ s.passed = true) ∧
      (onEvent limits wakes s event).socket = s.socket := by
  have hfinish : ∀ (s : ReadLoop), (s.finish .lost).ending ≠ some .missed := fun s => by
    simp only [finish]
    split <;> nofun
  cases event with
  | read frame =>
    cases frame with simp only [onEvent, onRead] at h
    | message =>
      split at h
      · cases hending.symm.trans h
      · split at h <;> cases hending.symm.trans h
    | pong | close => cases hending.symm.trans h
    | other =>
      split at h
      · cases hending.symm.trans h
      · exact absurd h (hfinish _)
    | eof => exact absurd h (hfinish _)
  | woken => cases hending.symm.trans h
  | ping =>
    simp only [onEvent] at h
    split at h
    · cases h
    · cases hending.symm.trans h
  | refused =>
    have hsocket : (onEvent limits wakes s .refused).socket = s.socket := by
      simp only [onEvent]
      split <;> rfl
    refine ⟨.inr ⟨rfl, ?_⟩, hsocket⟩
    simp only [onEvent] at h
    split at h
    · assumption
    · cases hending.symm.trans h
  | pongMissed => exact ⟨.inl rfl, rfl⟩
  | closeDeadline => exact absurd h (hfinish _)

/-- **A due expiry that meets a Pong in the socket is polled after it**, by a loop that
reads. -/
def heeds (s : ReadLoop) : LoopAction → Bool
  | .poll _ => !(s.passed && s.socket.contains .pong) || s.reading && readsFirst s.first
  | _ => true

/-- A poll that ends the loop for a missed Pong leaves none in the socket. -/
theorem silent_of_poll (hheeds : s.heeds (.poll wakes) = true) (hending : s.ending = none)
    (hstep : (loopMachine limits).step s (.poll wakes) = some s')
    (hmissed : s'.ending = some .missed) :
    Incoming.pong ∉ s'.socket := by
  have hstep : s.step limits (.poll wakes) = some s' := hstep
  obtain ⟨hsocket, hkept, hpassed⟩ := pollFrom_frame wakes (order s.first) s
  simp only [step, hending] at hstep
  split at hstep
  · cases hstep
  · split at hstep
    · split at hstep
      · rename_i s₁ event hpoll
        cases hstep
        rw [hpoll] at hsocket hkept hpassed
        have hnone : { s₁ with parked := false }.ending = none := hkept.trans hending
        obtain ⟨hevent, hsame⟩ := passed_of_missed hnone hmissed
        rw [hsame]
        show Incoming.pong ∉ s₁.socket
        rw [show s₁.socket = s.socket from hsocket]
        intro hpong
        -- the expiry was due, so the loop read, and read first
        have hdue : s.passed = true := by
          rcases hevent with rfl | ⟨-, hdue⟩
          · exact passed_of_pollFrom (congrArg Prod.snd hpoll)
          · exact hpassed.symm.trans hdue
        have hreads : s.reading = true ∧ readsFirst s.first = true := by
          simpa [heeds, hdue, hpong] using hheeds
        obtain ⟨hmiss, hrefuse⟩ := pollFrom_of_readsFirst wakes hreads.1 hreads.2
          (ne_nil_of_mem hpong)
        rw [hpoll] at hmiss hrefuse
        rcases hevent with rfl | ⟨rfl, -⟩
        · exact hmiss rfl
        · exact hrefuse rfl
      · rename_i hpoll
        cases hstep
        rw [hpoll] at hkept
        cases (hkept.trans hending).symm.trans hmissed
    · cases hstep

theorem going_of_step (hstep : (loopMachine limits).step s a = some s') : s.ending = none := by
  have hstep : s.step limits a = some s' := hstep
  simp only [step] at hstep
  split at hstep
  · cases hstep
  · exact not_isSome_iff_eq_none.mp ‹_›

/-- What else happens ends no loop. -/
theorem ending_of_step (hstep : (loopMachine limits).step s a = some s')
    (ha : ∀ wakes, a ≠ .poll wakes) : s'.ending = none := by
  have hending := going_of_step hstep
  have hstep : s.step limits a = some s' := hstep
  simp only [step] at hstep
  split at hstep
  · cases hstep
  · cases a with
    | tick | shutDown | arrive | drain | answered =>
      cases hstep
      exact hending
    | close =>
      simp only at hstep
      split at hstep <;> cases hstep
      exact hending
    | turn =>
      simp only at hstep
      split at hstep <;> cases hstep
      simp only [toWait]
      split <;> exact hending
    | poll wakes => exact absurd rfl (ha wakes)

/-- **Keep-alive ends only a silent peer**, in the runs in which a due expiry that meets a
Pong in the socket is polled after it by a loop that reads: where the loop has ended for a
Pong missed, no Pong was waiting to be read. -/
theorem ends_only_silent {t : List LoopAction} (h : (loopMachine limits).run t = some s)
    (hheeds : ∀ pre s₀ a, (loopMachine limits).TookAt t pre s₀ a → s₀.heeds a = true)
    (hmissed : s.ending = some .missed) : Incoming.pong ∉ s.socket := by
  revert hmissed
  refine (loopMachine limits).invariant_of_steps
    (P := fun s => s.ending = some .missed → Incoming.pong ∉ s.socket) (fun _ => not_mem_nil)
    (fun s a s' _ ha hstep hmissed => ?_) hheeds h
  cases a with
  | poll => exact silent_of_poll ha (going_of_step hstep) hstep hmissed
  | _ =>
    have hnone : s'.ending = none := ending_of_step hstep (by simp)
    cases hnone.symm.trans hmissed

/-- The Ping of a connection is sent at five, and its Pong due at seven. -/
def pinged : List LoopAction :=
  List.replicate 5 .tick ++ [.turn true true, .poll {}, .turn true true]

theorem ends_only_silent_peer : ∃ s,
    (loopMachine ⟨1, some 5, some 2⟩).run (pinged ++ [.tick, .tick, .poll {}]) = some s ∧
      s.ending = some .missed ∧ Incoming.pong ∉ s.socket := by
  have hrun : (loopMachine ⟨1, some 5, some 2⟩).run (pinged ++ [.tick, .tick, .poll {}]) = some
    { now := 7, turn := 2, first := 1, reading := true, ping := some 10, pong := some { due := 7 },
      ending := some .missed } := rfl
  exact ⟨_, hrun, rfl, ends_only_silent hrun (fun _ _ _ htook => htook.of_checks rfl) rfl⟩

/-- **The loop has its one message in flight, and does not read.** The Pong is in the
socket before it is due, and the peer is ended as lost. -/
theorem unread_pong : ∃ s, (loopMachine ⟨1, some 5, some 2⟩).run
    (pinged ++ [.arrive .message, .poll {}, .turn true true, .arrive .pong, .tick, .tick,
      .poll {}]) = some s ∧ s.ending = some .missed ∧ Incoming.pong ∈ s.socket :=
  ⟨_, rfl, rfl, by decide⟩

end ReadLoop

end Ulo.Ws
