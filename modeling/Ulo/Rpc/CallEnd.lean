import Ulo.Rpc.Client

/-!
# How a client's calls end

Two questions about the calls on a connection: whether they all end when its reply
lane does, and which of them are cancelled at the server.

The lane's end clears the map of waiting calls, and with it the producing ends the
map holds. A streamed request's pump holds one too, and waits for the caller's own
stream with it: a call whose stream is silent then goes on waiting for a reply that
cannot come (`parked_pump`). For the others the queue ends (`lane_end`).

A call's `cancel` is sent by whoever sets its flag first, the drop of the call or the
lane at an overflow, so it is sent once, and the drop leaves a settled call alone
(`cancels_exact`). Neither an `end` that answers a call for one reply nor a refused
opening frame whose call overflows meanwhile is such a case (`stray_cancels`).
-/

namespace Ulo.Rpc

open List Option AList Bool

variable {l : Lane}

namespace Conn

variable {s s' : Conn} {a : ConnAction} {t : List ConnAction} {i : ℕ} {c : ClientCall}

/-! ## The lane's end -/

/-- Past the lane's end no call waits in the map, and none is registered. -/
structure Ended (s : Conn) : Prop where
  lane : s.lane = .ended
  closed : s.isOpen = false
  pending : s.pending = ∅

section

variable (h : CallStep s i c a s')
include h

theorem CallStep.lane_eq : s'.lane = s.lane := by
  cases h <;> rfl

theorem CallStep.isOpen_eq : s'.isOpen = s.isOpen := by
  cases h <;> rfl

theorem CallStep.length_calls : s'.calls.length = s.calls.length := by
  cases h <;> exact length_set

theorem CallStep.pending_eq : s'.pending = s.pending ∨ s'.pending = s.pending.erase c.id := by
  cases h with
  | unregister => exact .inr rfl
  | _ => exact .inl rfl

end

theorem Ended.step (h : s.Ended) (hstep : connMachine.step s a = some s') :
    s'.Ended ∧ s'.calls.length = s.calls.length := by
  have hspec : ConnStep s a s' := step_spec hstep
  cases hspec with
  | elsewhere => exact ⟨⟨h.lane, h.closed, h.pending⟩, rfl⟩
  | register =>
    rw [register, if_neg (by rw [h.closed]; exact false_ne_true)]
    exact ⟨⟨h.lane, h.closed, h.pending⟩, rfl⟩
  | call hc hcall =>
    refine ⟨⟨hcall.lane_eq.trans h.lane, hcall.isOpen_eq.trans h.closed, ?_⟩, hcall.length_calls⟩
    rcases hcall.pending_eq with heq | heq
    · rw [heq, h.pending]
    · rw [heq, h.pending]
      rfl
  | received hlane | ended hlane => cases hlane.symm.trans h.lane
  | routed hi =>
    rw [h.lane] at hi
    cases hi

theorem register_lane {streams one : Bool} {limit : Option ℕ} :
    (s.register streams one limit).lane = s.lane := by
  unfold register
  split <;> rfl

theorem receive_lane {f : Frame} (h : (s.receive f).lane = .ended) : s.lane = .ended := by
  unfold receive at h
  split at h
  · exact h
  · split at h
    · exact h
    · split at h
      · exact h
      · split at h <;> cases h

theorem stepLane_lane (h : (s.stepLane i c l).lane = .ended) : s.lane = .ended := by
  unfold stepLane at h
  split at h
  · cases h
  · split at h <;> cases h
  · cases h
  · split at h <;> cases h
  · cases h
  · cases h
  · exact h
  · exact h

/-- **The lane that has ended** did so by `Conn::ended`. -/
theorem ended_of_lane (h : connMachine.run t = some s) (hended : s.lane = .ended) : s.Ended := by
  refine Machine.invariant (P := fun s => s.lane = .ended → s.Ended) ?_ ?_ h hended
  · exact nofun
  · intro s a s' ih hstep hended
    have hspec : ConnStep s a s' := step_spec hstep
    cases hspec with
    | elsewhere => exact ((ih hended).step hstep).1
    | register => exact ((ih (register_lane ▸ hended)).step hstep).1
    | call hc hcall => exact ((ih (hcall.lane_eq ▸ hended)).step hstep).1
    | received => exact ((ih (receive_lane hended)).step hstep).1
    | routed => exact ((ih (stepLane_lane hended)).step hstep).1
    | ended => exact ⟨rfl, rfl, rfl⟩

/-- Past the lane's end only its pump keeps the queue of a call that reads from
ending. -/
theorem Ended.fed_eq (h : s.Ended) (hstage : c.stage = .reading) : s.fed i c = c.pump.running := by
  rw [fed, h.pending, h.lane, hstage]
  simp [Lane.call]

/-- **Once the lane has ended**, no call is registered on the connection any more; no
call that still reads has a producing end alive exactly if none of them has a pump
that runs; and the reads of a call without one answer at once, with what is queued
and then the end, at which the call is given up as lost. -/
theorem lane_end (h : connMachine.run t = some s) (hended : s.lane = .ended) :
    (∀ t' s', connMachine.run (t ++ t') = some s' →
      s'.lane = .ended ∧ s'.calls.length = s.calls.length) ∧
    ((∀ (i : ℕ) (c : ClientCall), s.calls[i]? = some c → c.stage = .reading → s.fed i c = false) ↔
      ∀ (i : ℕ) (c : ClientCall), s.calls[i]? = some c → c.stage = .reading →
        c.pump.running = false) ∧
    ∀ (i : ℕ) (c : ClientCall), s.calls[i]? = some c → c.stage = .reading →
      c.pump.running = false →
        (∀ answer rest, c.queue = answer :: rest →
          connMachine.step s (.read i) = some (s.put i (c.answered answer rest))) ∧
        (c.queue = [] → connMachine.step s (.read i) =
          some (s.put i { c with stage := .dropping })) := by
  have hs : s.Ended := ended_of_lane h hended
  refine ⟨fun t' s' h' => ?_, ?_, fun i c hc hstage hpump => ?_⟩
  · have hlater := Machine.holds_from
      (P := fun s' => s'.Ended ∧ s'.calls.length = s.calls.length)
      (fun s₁ a s₂ ⟨hs₁, hlength⟩ hstep => ⟨(hs₁.step hstep).1, (hs₁.step hstep).2.trans hlength⟩)
      h ⟨hs, rfl⟩ h'
    exact ⟨hlater.1.lane, hlater.2⟩
  · refine forall_congr' fun i => forall_congr' fun c => imp_congr_right fun _ =>
      imp_congr_right fun hstage => ?_
    rw [hs.fed_eq hstage]
  · have hfed : s.fed i c = false := (hs.fed_eq hstage).trans hpump
    have hread : connMachine.step s (.read i) = s.stepCall i c (.read i) := by
      show (s.calls[i]?.bind fun c => s.stepCall i c (.read i)) = _
      rw [hc]
      rfl
    rw [hread, stepCall, if_pos hstage]
    refine ⟨fun answer rest hqueue => ?_, fun hqueue => ?_⟩
    · rw [hqueue]
    · rw [hqueue, hfed]
      rfl

/-- A streamed request whose lane ends with its pump done. -/
def pumpedCall : List ConnAction :=
  [.register true true none, .send 0, .sent 0 true, .check 0, .pull 0 none, .flushed 0 true,
    .endLane]

/-- The connection after some actions. -/
def connAfter (t : List ConnAction) : Conn := (connMachine.run t).getD {}

theorem lane_end_pumped : ∃ s', connMachine.step (connAfter pumpedCall) (.read 0) = some s' :=
  ⟨_, ((lane_end (t := pumpedCall) rfl rfl).2.2 0 _ rfl rfl rfl).2 rfl⟩

/-- **A call that waits for ever**: the lane has ended, and the call's pump is parked on
the caller's silent stream with a producing end, so that its read does not answer. -/
theorem parked_pump :
    ∃ s c, connMachine.run [.register true true none, .send 0, .sent 0 true, .check 0, .endLane] =
        some s ∧
      s.lane = .ended ∧ s.calls[0]? = some c ∧ c.stage = .reading ∧ c.pump = .pulling ∧
      s.fed 0 c = true ∧ c.queue = [] ∧ (connMachine.step s (.read 0)).isNone = true :=
  ⟨_, _, rfl, rfl, rfl, rfl, rfl, rfl, rfl, rfl⟩

end Conn

/-! ## Which calls are cancelled -/

/-- The lane is about to send the call's `cancel`. -/
def Lane.sends : Option Lane → ℕ
  | some (.overflowing _ .send) => 1
  | _ => 0

/-- The call's drop is about to. -/
def CallStage.sends : CallStage → ℕ
  | .marked => 1
  | _ => 0

/-- What a reply lane with the call in hand knows of it. -/
def Lane.Fits (c : ClientCall) : Lane → Prop
  | .finishing _ f => c.route = .finished ∧ f.id = some c.id
  | .offering _ f => c.route = .live ∧ f.id = some c.id ∧ f.ends = false
  | .overflowing _ stage =>
    c.route = .overflowed ∧ (stage = .send ∨ stage = .fail → c.cancelled = true)
  | .receiving | .ended => False

/-- **What is kept of a call**, given the number of cancels sent under its id, whether
the map has it, and the lane if it has the call in hand. -/
structure CallFit (sent : ℕ) (waits : Bool) (lane : Option Lane) (c : ClientCall) : Prop where
  /-- Whoever sets the flag sends. -/
  sender : sent + Lane.sends lane + c.stage.sends = if c.cancelled then 1 else 0
  /-- A call is gone settled or cancelled. -/
  gone : c.stage = .gone → c.settled = true ∨ c.cancelled = true
  /-- Its drop cancels only a call that is not settled. -/
  own : c.cancelled = true → c.route ≠ .overflowed →
    c.settled = false ∧ (c.stage = .marked ∨ c.stage = .gone)
  unsettled : c.stage.reads = true → c.settled = false
  unstarted : c.stage = .registered → c.started = false
  reason : c.settled = true →
    c.refused = true ∨ c.started = false ∨ ∃ a ∈ c.read, ClientCall.settles c.one a = true
  refused : c.refused = true → c.settled = true
  answered : ∀ a ∈ c.read, ClientCall.settles c.one a = true → c.settled = true
  log : c.accepted = c.read ++ c.queue
  ids : ∀ f, .frame f ∈ c.accepted → f.id = some c.id
  hand : ∀ l, lane = some l → l.Fits c
  /-- The lane takes a call it is done with from the map. -/
  done : c.route ≠ .live → waits = false ∨ ∃ j, lane = some (.overflowing j .remove)
  ending : ∀ f, .frame f ∈ c.accepted → f.ends = true → c.route = .finished
  /-- A call that reads its overflow was sent its `cancel`, and no frame follows. -/
  told : .failed .overflow ∈ c.accepted → c.route = .overflowed ∧ lane = none ∧ sent = 1
  last : c.accepted.Pairwise fun a b => a = .failed .overflow → ∀ f, b ≠ .frame f

variable {a : Answer}

theorem ClientCall.settles_of_goesOn {one : Bool} (h : ClientCall.goesOn one a = true) :
    ClientCall.settles one a = false := by
  cases a with
  | failed => cases h
  | frame f =>
    cases f with
    | item => rfl
    | _ => cases h

namespace CallFit

variable {sent : ℕ} {waits : Bool} {lane : Option Lane} {c : ClientCall} {i : ℕ} {f : Frame}

/-- What the call's stage says of its flags. -/
theorem cancelled_of_reads (h : CallFit sent waits lane c) (hreads : c.stage.reads = true)
    (hroute : c.route ≠ .overflowed) : c.cancelled = false := by
  refine eq_false_iff.mpr fun hcancelled => ?_
  rcases (h.own hcancelled hroute).2 with hstage | hstage <;> rw [hstage] at hreads <;> cases hreads

theorem stage_sends_of_reads (hreads : c.stage.reads = true) : c.stage.sends = 0 := by
  cases hstage : c.stage <;> rw [hstage] at hreads <;> first | rfl | cases hreads

section

variable (h : CallFit sent waits lane c)
include h

section

variable (hreads : c.stage.reads = true)
include hreads

/-- A call that is given up, with the reason if it is settled. -/
theorem drops (settled refused : Bool)
    (hreason : settled = true → refused = true ∨ c.started = false)
    (hrefused : refused = true → settled = true)
    (hanswered : ∀ a ∈ c.read, ClientCall.settles c.one a = true → settled = true) :
    CallFit sent waits lane
      { c with settled := settled, refused := refused, stage := .dropping } :=
  { h with
    sender := by
      rw [← h.sender, stage_sends_of_reads hreads]
      rfl
    gone := nofun
    own := fun hcancelled hroute => by
      rw [h.cancelled_of_reads hreads hroute] at hcancelled
      cases hcancelled
    unsettled := nofun
    unstarted := nofun
    reason := fun hsettled => (hreason hsettled).elim .inl fun hstarted => .inr (.inl hstarted)
    refused := hrefused
    answered := hanswered }

/-- A call given up by its caller. -/
theorem abandoned : CallFit sent waits lane { c with stage := .dropping } := by
  have hsettled := h.unsettled hreads
  have hrefused : c.refused = false := eq_false_iff.mpr fun hr => by
    rw [h.refused hr] at hsettled
    cases hsettled
  exact h.drops hreads c.settled c.refused (fun hs => by rw [hsettled] at hs; cases hs) h.refused
    h.answered

/-- A call that goes on, with no flag changed. -/
theorem goes {stage : CallStage} (hreads' : stage.reads = true) (hstage : stage ≠ .registered)
    (started : Bool) (pump : Pump) :
    CallFit sent waits lane { c with stage := stage, started := started, pump := pump } :=
  { h with
    sender := by
      have hsends : stage.sends = 0 := by
        cases stage <;> first | rfl | cases hreads'
      rw [← h.sender, stage_sends_of_reads hreads]
      exact congrArg _ hsends
    gone := fun hstage => by
      rw [show stage = .gone from hstage] at hreads'
      cases hreads'
    own := fun hcancelled hroute => by
      rw [h.cancelled_of_reads hreads hroute] at hcancelled
      cases hcancelled
    unsettled := fun _ => h.unsettled hreads
    unstarted := fun hregistered => absurd hregistered hstage
    reason := fun hsettled => by
      rw [h.unsettled hreads] at hsettled
      cases hsettled }

end

/-- A call that reads an answer. -/
theorem reads (hstage : c.stage = .reading) {rest : List Answer} (hqueue : c.queue = a :: rest) :
    CallFit sent waits lane (c.answered a rest) := by
  have hreads : c.stage.reads = true := by rw [hstage]; rfl
  have hunsettled := h.unsettled hreads
  have hanswered : ∀ b ∈ c.read ++ [a], ClientCall.settles c.one b = true →
      (c.settled || ClientCall.settles c.one a) = true := by
    intro b hb hsettles
    rcases mem_snoc.mp hb with hb | rfl
    · rw [h.answered b hb hsettles]
      rfl
    · rw [hsettles, Bool.or_true]
  refine { h with
    sender := ?_
    gone := fun hgone => ?_
    own := fun hcancelled hroute => ?_
    unsettled := fun hreads' => ?_
    unstarted := fun hregistered => ?_
    reason := fun hsettled => ?_
    refused := fun hrefused => ?_
    answered := hanswered
    log := ?_ }
  · have hsends : (c.answered a rest).stage.sends = 0 := by
      show (if ClientCall.goesOn c.one a then c.stage else .dropping).sends = 0
      rw [hstage]
      split <;> rfl
    rw [hsends]
    have hsender := h.sender
    rw [hstage] at hsender
    exact hsender
  · rw [ClientCall.answered, hstage] at hgone
    simp only at hgone
    split at hgone <;> cases hgone
  · have hnot : c.cancelled = false := h.cancelled_of_reads hreads hroute
    exact absurd (hnot.symm.trans hcancelled) false_ne_true
  · show (c.settled || ClientCall.settles c.one a) = false
    rw [hunsettled, Bool.false_or]
    rw [ClientCall.answered] at hreads'
    simp only at hreads'
    split at hreads'
    · exact ClientCall.settles_of_goesOn ‹_›
    · cases hreads'
  · rw [ClientCall.answered, hstage] at hregistered
    simp only at hregistered
    split at hregistered <;> cases hregistered
  · have hsettles : (c.settled || ClientCall.settles c.one a) = true := hsettled
    rw [hunsettled, Bool.false_or] at hsettles
    exact .inr (.inr ⟨a, mem_concat_self, hsettles⟩)
  · rw [h.refused hrefused] at hunsettled
    cases hunsettled
  · show c.accepted = c.read ++ [a] ++ rest
    rw [h.log, hqueue, append_assoc]
    rfl

/-- The call's drop takes it from the map. -/
theorem unregisters (hstage : c.stage = .dropping) :
    CallFit sent false lane { c with stage := .unregistered } :=
  { h with
    sender := by
      rw [← h.sender, hstage]
      rfl
    gone := nofun
    own := fun hcancelled hroute => by
      rcases (h.own hcancelled hroute).2 with hs | hs <;> cases hstage.symm.trans hs
    unsettled := nofun
    unstarted := nofun
    done := fun _ => .inl rfl }

/-- A settled or cancelled call goes as it is. -/
theorem leaves (hstage : c.stage = .unregistered)
    (hsettled : c.settled = true ∨ c.cancelled = true) :
    CallFit sent waits lane { c with stage := .gone } :=
  { h with
    sender := by
      rw [← h.sender, hstage]
      rfl
    gone := fun _ => hsettled
    own := fun hcancelled hroute => by
      rcases (h.own hcancelled hroute).2 with hs | hs <;> cases hstage.symm.trans hs
    unsettled := nofun
    unstarted := fun hstage => by cases hstage }

/-- Another call is marked, its `cancel` to send. -/
theorem marks (hstage : c.stage = .unregistered) (hsettled : c.settled = false)
    (hcancelled : c.cancelled = false) :
    CallFit sent waits lane { c with cancelled := true, stage := .marked } := by
  have hsender := h.sender
  rw [hcancelled, hstage] at hsender
  refine { h with
    sender := ?_
    gone := nofun
    own := fun _ _ => ⟨hsettled, .inl rfl⟩
    unsettled := fun hreads => by cases hreads
    unstarted := fun hstage => by cases hstage
    hand := fun l hl => ?_ }
  · show sent + Lane.sends lane + 1 = 1
    exact congrArg (· + 1) hsender
  · have hfits := h.hand l hl
    cases l with
    | overflowing => exact ⟨hfits.1, fun _ => rfl⟩
    | _ => exact hfits

/-- The `cancel` is sent. -/
theorem cancels (hstage : c.stage = .marked) :
    CallFit (sent + 1) waits lane { c with stage := .gone } := by
  have hsender := h.sender
  rw [hstage] at hsender
  have hcancelled : c.cancelled = true := by
    by_contra hnot
    rw [if_neg hnot] at hsender
    cases hsender
  rw [if_pos hcancelled] at hsender
  refine { h with
    sender := ?_
    gone := fun _ => .inr hcancelled
    own := fun hc hroute => ⟨(h.own hc hroute).1, .inr rfl⟩
    unsettled := fun hreads => by cases hreads
    unstarted := fun hstage => by cases hstage
    told := fun hover => ?_ }
  · rw [if_pos hcancelled]
    show sent + 1 + Lane.sends lane + 0 = 1
    have hone : sent + Lane.sends lane + 1 = 1 := hsender
    omega
  · have hsent := (h.told hover).2.2
    have hone : sent + Lane.sends lane + 1 = 1 := hsender
    omega

theorem pumps (pump : Pump) : CallFit sent waits lane { c with pump := pump } := { h with }

/-! ### What the lane does to a call -/

/-- The queue takes an answer: a frame before any overflow, or a failure that is none. -/
theorem finishes (ha : a ≠ .failed .overflow)
    (hframe : ∀ f, a = .frame f → f.id = some c.id ∧ (f.ends = true → c.route = .finished) ∧
      .failed .overflow ∉ c.accepted) : CallFit sent waits lane (c.finish a) := by
  unfold ClientCall.finish
  split
  · refine { h with
      log := ?_
      ids := fun f hf => ?_
      ending := fun f hf hends => ?_
      told := fun hover => ?_
      last := ?_ }
    · show c.accepted ++ [a] = c.read ++ (c.queue ++ [a])
      rw [h.log, append_assoc]
    · rcases mem_snoc.mp hf with hf | hf
      · exact h.ids f hf
      · exact (hframe f hf.symm).1
    · rcases mem_snoc.mp hf with hf | hf
      · exact h.ending f hf hends
      · exact (hframe f hf.symm).2.1 hends
    · rcases mem_snoc.mp hover with hover | hover
      · exact h.told hover
      · exact absurd hover.symm ha
    · refine h.last.snoc fun b hb heq f => ?_
      rintro rfl
      exact (hframe f rfl).2.2 (heq ▸ hb)
  · exact h

/-- A pump's failure. -/
theorem fails {e : CallFailure} (he : e ≠ .overflow) (pump : Pump) :
    CallFit sent waits lane { c.finish (.failed e) with pump := pump } :=
  (h.finishes (fun heq => he (by cases heq; rfl)) fun f hf => by cases hf).pumps pump

end

/-- A call in the lane's hands has not read an overflow. -/
theorem not_told (h : CallFit sent waits (some l) c) : .failed .overflow ∉ c.accepted := by
  intro hover
  cases (h.told hover).2.1

/-- The lane lets go of a call that it is not in the middle of cancelling. -/
theorem letGo (h : CallFit sent waits (some l) c) (hsends : Lane.sends (some l) = 0)
    (hdone : c.route ≠ .live → waits = false) : CallFit sent waits none c :=
  { h with
    sender := by
      rw [← h.sender, hsends]
      rfl
    hand := fun l hl => by cases hl
    done := fun hroute => .inl (hdone hroute)
    told := fun hover => absurd hover h.not_told }

/-- **The last frame** is queued. -/
theorem finished (h : CallFit sent waits (some (.finishing i f)) c) :
    CallFit sent waits none (c.finish (.frame f)) := by
  obtain ⟨hroute, hid⟩ := h.hand _ rfl
  have hwaits : waits = false := by
    rcases h.done (by rw [hroute]; exact nofun) with hwaits | ⟨j, hj⟩
    · exact hwaits
    · cases hj
  refine (h.letGo rfl fun _ => hwaits).finishes nofun fun g hg => ?_
  cases hg
  exact ⟨hid, fun _ => hroute, h.not_told⟩

/-- Another frame is queued. -/
theorem offered (h : CallFit sent waits (some (.offering i f)) c) :
    CallFit sent waits none (c.finish (.frame f)) := by
  obtain ⟨hroute, hid, hends⟩ := h.hand _ rfl
  refine (h.letGo rfl fun hne => absurd hroute hne).finishes nofun fun g hg => ?_
  cases hg
  exact ⟨hid, fun hends' => absurd (hends.symm.trans hends') false_ne_true, h.not_told⟩

/-- **The queue overflows.** -/
theorem overflows (h : CallFit sent waits (some (.offering i f)) c) :
    CallFit sent waits (some (.overflowing i .remove)) { c with route := .overflowed } := by
  obtain ⟨hroute, -, -⟩ := h.hand _ rfl
  exact { h with
    sender := h.sender
    own := fun _ hne => absurd rfl hne
    hand := fun l hl => by
      cases hl
      exact ⟨rfl, fun hstage => by rcases hstage with hs | hs <;> cases hs⟩
    done := fun _ => .inr ⟨i, rfl⟩
    ending := fun f hf hends => by cases hroute.symm.trans (h.ending f hf hends)
    told := fun hover => absurd hover h.not_told }

/-- The call is taken from the map. -/
theorem removed (h : CallFit sent waits (some (.overflowing i .remove)) c) :
    CallFit sent false (some (.overflowing i .mark)) c :=
  { h with
    sender := h.sender
    hand := fun l hl => by
      cases hl
      exact ⟨(h.hand _ rfl).1, fun hstage => by rcases hstage with hs | hs <;> cases hs⟩
    done := fun _ => .inl rfl
    told := fun hover => absurd hover h.not_told }

/-- Past that the map does not have it. -/
theorem not_waits {stage : Overflow} (h : CallFit sent waits (some (.overflowing i stage)) c)
    (hstage : stage ≠ .remove) : waits = false := by
  rcases h.done (by rw [(h.hand _ rfl).1]; exact nofun) with hwaits | ⟨j, hj⟩
  · exact hwaits
  · cases hj
    exact absurd rfl hstage

section

variable (h : CallFit sent waits (some (.overflowing i .mark)) c)
include h

/-- Its drop has marked it first. -/
theorem skipped (hcancelled : c.cancelled = true) :
    CallFit sent waits (some (.overflowing i .fail)) c :=
  { h with
    sender := h.sender
    hand := fun l hl => by
      cases hl
      exact ⟨(h.hand _ rfl).1, fun _ => hcancelled⟩
    done := fun _ => .inl (h.not_waits nofun)
    told := fun hover => absurd hover h.not_told }

/-- The lane marks it, with the `cancel` to send. -/
theorem claimed (hcancelled : c.cancelled = false) :
    CallFit sent waits (some (.overflowing i .send)) { c with cancelled := true } := by
  have hsender := h.sender
  rw [hcancelled] at hsender
  exact { h with
    sender := by
      show sent + 1 + c.stage.sends = 1
      have hzero : sent + 0 + c.stage.sends = 0 := hsender
      omega
    gone := fun _ => .inr rfl
    own := fun _ hne => absurd (h.hand _ rfl).1 hne
    hand := fun l hl => by
      cases hl
      exact ⟨(h.hand _ rfl).1, fun _ => rfl⟩
    done := fun _ => .inl (h.not_waits nofun)
    told := fun hover => absurd hover h.not_told }

end

/-- The lane sends it. -/
theorem laneCancels (h : CallFit sent waits (some (.overflowing i .send)) c) :
    CallFit (sent + 1) waits (some (.overflowing i .fail)) c :=
  { h with
    sender := by
      have hsender : sent + 1 + c.stage.sends = if c.cancelled then 1 else 0 := h.sender
      exact hsender
    hand := fun l hl => by
      cases hl
      exact ⟨(h.hand _ rfl).1, fun _ => (h.hand _ rfl).2 (.inl rfl)⟩
    done := fun _ => .inl (h.not_waits nofun)
    told := fun hover => absurd hover h.not_told }

/-- **The overflow is queued behind what was accepted**, the `cancel` sent. -/
theorem tells (h : CallFit sent waits (some (.overflowing i .fail)) c) :
    CallFit sent waits none (c.finish (.failed .overflow)) := by
  obtain ⟨hroute, hcancelled⟩ := h.hand _ rfl
  have hlet := h.letGo rfl fun _ => h.not_waits nofun
  have hsender := h.sender
  rw [if_pos (hcancelled (.inr rfl))] at hsender
  unfold ClientCall.finish
  split
  · rename_i hreads
    rw [stage_sends_of_reads hreads] at hsender
    refine { hlet with
      log := ?_
      ids := fun f hf => ?_
      ending := fun f hf hends => ?_
      told := fun _ => ⟨hroute, rfl, hsender⟩
      last := ?_ }
    · show c.accepted ++ [_] = c.read ++ (c.queue ++ [_])
      rw [h.log, append_assoc]
    · rcases mem_snoc.mp hf with hf | hf
      · exact h.ids f hf
      · cases hf
    · rcases mem_snoc.mp hf with hf | hf
      · exact h.ending f hf hends
      · cases hf
    · exact h.last.snoc fun _ _ _ _ => nofun
  · exact hlet

section

variable (h : CallFit sent true none c)
include h

/-- A frame for a call that waits finds it live. -/
theorem route_of_waits : c.route = .live := by
  by_contra hne
  rcases h.done hne with hw | ⟨j, hj⟩
  · cases hw
  · cases hj

/-- The lane takes up a call's frame. -/
theorem takesUp (hid : f.id = some c.id) (hends : f.ends = false) :
    CallFit sent true (some (.offering i f)) c :=
  { h with
    sender := h.sender
    hand := fun l hl => by
      cases hl
      exact ⟨h.route_of_waits, hid, hends⟩
    done := fun hne => absurd h.route_of_waits hne
    told := fun hover => by cases h.route_of_waits.symm.trans (h.told hover).1 }

/-- It takes up the last one, and the call from the map. -/
theorem takesLast (hid : f.id = some c.id) :
    CallFit sent false (some (.finishing i f)) { c with route := .finished } :=
  { h with
    sender := h.sender
    own := fun hcancelled _ => h.own hcancelled (by rw [h.route_of_waits]; exact nofun)
    hand := fun l hl => by
      cases hl
      exact ⟨rfl, hid⟩
    done := fun _ => .inl rfl
    ending := fun _ _ _ => rfl
    told := fun hover => by cases h.route_of_waits.symm.trans (h.told hover).1 }

end

/-- The map forgets the call. -/
theorem forgotten (h : CallFit sent waits lane c) : CallFit sent false lane c :=
  { h with done := fun _ => .inl rfl }

end CallFit

namespace Conn

variable {s s' : Conn} {a : ConnAction} {t : List ConnAction} {i j : ℕ} {c : ClientCall}
  {c' : ClientCall} {answer : Answer}

/-- The lane, if it has the call in hand. -/
def laneAt (s : Conn) (i : ℕ) : Option Lane :=
  if s.lane.call = some i then some s.lane else none

/-- **The invariant of the calls.** -/
structure Inv (s : Conn) : Prop where
  fits : ∀ (i : ℕ) (c : ClientCall), s.calls[i]? = some c →
    CallFit (s.cancels.count c.id) (s.pending.lookup c.id).isSome (s.laneAt i) c
  unique : ∀ (i j : ℕ) (c d : ClientCall), s.calls[i]? = some c → s.calls[j]? = some d →
    c.id = d.id → i = j
  below : ∀ c ∈ s.calls, c.id < s.nextId
  sent : ∀ id ∈ s.cancels, id < s.nextId
  pending : ∀ id i, s.pending.lookup id = some i → ∃ c, s.calls[i]? = some c ∧ c.id = id
  hand : ∀ i, s.lane.call = some i → i < s.calls.length

theorem laneAt_of_call (hl : l.call = some i) (hlane : s.lane = l) : s.laneAt i = some l := by
  rw [laneAt, hlane, if_pos hl]

theorem laneAt_of_ne (hi : s.lane.call = some i) (hj : j ≠ i) : s.laneAt j = none := by
  rw [laneAt, hi, if_neg fun heq => hj (some.inj heq).symm]

theorem laneAt_of_none (h : s.lane.call = none) : s.laneAt i = none := by
  rw [laneAt, h, if_neg nofun]

theorem call_of_laneAt (h : s.laneAt i = some l) : s.lane.call = some i := by
  unfold laneAt at h
  split at h
  · assumption
  · cases h

/-- **A changed call**, with nothing of the others' touched. -/
theorem Inv.change (h : s.Inv) (hc : s.calls[i]? = some c) (hcalls : s'.calls = s.calls.set i c')
    (hid : c'.id = c.id) (hnext : s'.nextId = s.nextId)
    (hcancels : ∀ id, id ≠ c.id → s'.cancels.count id = s.cancels.count id)
    (hsent : ∀ id ∈ s'.cancels, id ∈ s.cancels ∨ id = c.id)
    (hpending : ∀ id j, s'.pending.lookup id = some j → s.pending.lookup id = some j)
    (hwaits : ∀ id, id ≠ c.id → s'.pending.lookup id = s.pending.lookup id)
    (hlane : ∀ j, j ≠ i → s'.laneAt j = s.laneAt j)
    (hfit : CallFit (s'.cancels.count c.id) (s'.pending.lookup c.id).isSome (s'.laneAt i) c') :
    s'.Inv := by
  have hget (j : ℕ) (d : ClientCall) (hd : s'.calls[j]? = some d) :=
    eq_or_of_getElem?_set (hcalls ▸ hd)
  -- every call has the id of the one at its place before
  have hold : ∀ (j : ℕ) (d : ClientCall), s'.calls[j]? = some d →
      ∃ d', s.calls[j]? = some d' ∧ d'.id = d.id := by
    intro j d hd
    rcases hget j d hd with ⟨rfl, rfl⟩ | ⟨-, hd⟩
    · exact ⟨c, hc, hid.symm⟩
    · exact ⟨d, hd, rfl⟩
  refine ⟨fun j d hd => ?_, fun j k d e hd he heq => ?_, fun d hd => ?_, fun id hmem => ?_,
    fun id j hj => ?_, fun j hj => ?_⟩
  · rcases hget j d hd with ⟨rfl, rfl⟩ | ⟨hne, hd⟩
    · rw [hid]
      exact hfit
    · have hother : d.id ≠ c.id := fun heq => hne (h.unique j i d c hd hc heq)
      rw [hcancels d.id hother, hwaits d.id hother, hlane j hne]
      exact h.fits j d hd
  · obtain ⟨d', hd', hdid⟩ := hold j d hd
    obtain ⟨e', he', heid⟩ := hold k e he
    exact h.unique j k d' e' hd' he' (hdid.trans (heq.trans heid.symm))
  · obtain ⟨j, hj⟩ := mem_iff_getElem?.mp hd
    obtain ⟨d', hd', hdid⟩ := hold j d hj
    rw [hnext, ← hdid]
    exact h.below d' (mem_of_getElem? hd')
  · rw [hnext]
    rcases hsent id hmem with hmem | rfl
    · exact h.sent id hmem
    · exact h.below c (mem_of_getElem? hc)
  · rw [hcalls]
    refine exists_getElem?_set (h.pending id j (hpending id j hj)) fun d hd hdid => ?_
    cases hc.symm.trans hd
    exact hid.trans hdid
  · rw [hcalls, length_set]
    by_cases hij : j = i
    · subst hij
      exact (List.getElem?_eq_some_iff.mp hc).1
    · have hsome := hlane j hij
      rw [laneAt, if_pos hj] at hsome
      exact h.hand j (call_of_laneAt hsome.symm)

/-- A call that changes by itself. -/
theorem Inv.put (h : s.Inv) (hc : s.calls[i]? = some c) (hid : c'.id = c.id)
    (hfit : CallFit (s.cancels.count c.id) (s.pending.lookup c.id).isSome (s.laneAt i) c') :
    (s.put i c').Inv :=
  h.change hc rfl hid rfl (fun _ _ => rfl) (fun _ => .inl) (fun _ _ hj => hj) (fun _ _ => rfl)
    (fun _ _ => rfl) hfit

theorem lookup_of_erase {id id' : ℕ} (h : (s.pending.erase id').lookup id = some j) :
    s.pending.lookup id = some j := by
  by_cases hid : id = id'
  · subst hid
    rw [lookup_erase] at h
    cases h
  · rwa [lookup_erase_ne hid] at h

theorem count_snoc_ne {id id' : ℕ} (h : id ≠ id') :
    (s.cancels ++ [id']).count id = s.cancels.count id := by
  rw [count_append, count_singleton, if_neg (by simpa using Ne.symm h), Nat.add_zero]

theorem finish_id : (c.finish answer).id = c.id := by
  unfold ClientCall.finish
  split <;> rfl

theorem Inv.call (h : s.Inv) (hc : s.calls[i]? = some c)
    (hstep : CallStep s i c a s') : s'.Inv := by
  have hfit := h.fits i c hc
  cases hstep with
  | unwritten hstage =>
    refine h.put hc rfl (hfit.drops (by rw [hstage]; rfl) true c.refused (fun _ => ?_)
      (fun _ => rfl) fun _ _ _ => rfl)
    exact .inr (hfit.unstarted hstage)
  | send hstage =>
    exact h.put hc rfl (hfit.goes (by rw [hstage]; rfl) rfl (by decide : CallStage.sending ≠ _) true
      c.pump)
  | taken hstage pump =>
    exact h.put hc rfl (hfit.goes (by rw [hstage]; rfl) rfl (by decide : CallStage.reading ≠ _)
      c.started pump)
  | refused hstage =>
    exact h.put hc rfl (hfit.drops (by rw [hstage]; rfl) true true (fun _ => .inl rfl)
      (fun _ => rfl) fun _ _ _ => rfl)
  | read hstage hqueue => exact h.put hc rfl (hfit.reads hstage hqueue)
  | lost hstage => exact h.put hc rfl (hfit.abandoned (by rw [hstage]; rfl))
  | abandon hstage =>
    refine h.put hc rfl (hfit.abandoned ?_)
    rcases hstage with hstage | hstage <;> rw [hstage] <;> rfl
  | unregister hstage =>
    refine h.change hc rfl rfl rfl (fun _ _ => rfl) (fun _ => .inl)
      (fun id j => lookup_of_erase) (fun id hne => lookup_erase_ne hne) (fun _ _ => rfl) ?_
    show CallFit _ ((s.pending.erase c.id).lookup c.id).isSome _ _
    rw [lookup_erase]
    exact hfit.unregisters hstage
  | settled hstage hsettled => exact h.put hc rfl (hfit.leaves hstage hsettled)
  | marked hstage hsettled hcancelled =>
    exact h.put hc rfl (hfit.marks hstage hsettled hcancelled)
  | cancel hstage =>
    refine h.change hc rfl rfl rfl (fun id hne => count_snoc_ne hne) (fun id hid => ?_)
      (fun _ _ hj => hj) (fun _ _ => rfl) (fun _ _ => rfl) ?_
    · exact (mem_append.mp hid).imp_right mem_singleton.mp
    · show CallFit ((s.cancels ++ [c.id]).count c.id) _ _ _
      rw [count_append, count_singleton_self]
      exact hfit.cancels hstage
  | pump pump => exact h.put hc rfl (hfit.pumps pump)
  | pumpFails e he => exact h.put hc finish_id (hfit.fails he .done)

/-- A call the lane leaves as it is. -/
theorem calls_eq_set (hc : s.calls[i]? = some c) : s.calls = s.calls.set i c := by
  obtain ⟨hlt, rfl⟩ := List.getElem?_eq_some_iff.mp hc
  exact (List.set_getElem_self hlt).symm

/-- The lane goes on with the call it has, and with no other. -/
theorem laneAt_of_on (hi : s.lane.call = some i) (hi' : ∀ k, s'.lane.call = some k → k = i)
    (hj : j ≠ i) : s'.laneAt j = s.laneAt j := by
  rw [laneAt_of_ne hi hj, laneAt, if_neg fun heq => hj (hi' j heq)]

theorem finish_of_offer (h : c.offer answer = some c') : c' = c.finish answer := by
  unfold ClientCall.offer at h
  split at h <;> cases h
  rfl

/-- The lane goes on with a call that changes by that alone. -/
theorem Inv.hands (l : Lane) (h : s.Inv) (hi : s.lane.call = some i) (hc : s.calls[i]? = some c)
    (hid : c'.id = c.id) (hl : ∀ k, l.call = some k → k = i)
    (hfit : CallFit (s.cancels.count c.id) (s.pending.lookup c.id).isSome
      (({ s.put i c' with lane := l } : Conn).laneAt i) c') : Inv { s.put i c' with lane := l } :=
  h.change hc rfl hid rfl (fun _ _ => rfl) (fun _ => .inl) (fun _ _ hj => hj) (fun _ _ => rfl)
    (fun _ hj => laneAt_of_on hi hl hj) hfit

/-- **The lane's step with a call.** -/
theorem Inv.routed (h : s.Inv) (hi : s.lane.call = some i) (hc : s.calls[i]? = some c) :
    (s.stepLane i c s.lane).Inv := by
  have hfit := h.fits i c hc
  rw [laneAt_of_call hi rfl] at hfit
  have hnone : ∀ k, Lane.receiving.call = some k → k = i := fun k hk => by cases hk
  have hsame : ∀ stage k, (Lane.overflowing i stage).call = some k → k = i := fun _ k hk => by
    cases hk
    rfl
  cases hlane : s.lane with
  | receiving | ended => rw [hlane] at hi; cases hi
  | finishing j =>
    obtain rfl : j = i := by rw [hlane] at hi; cases hi; rfl
    rw [hlane] at hfit
    exact h.hands .receiving hi hc finish_id hnone hfit.finished
  | offering j f =>
    obtain rfl : j = i := by rw [hlane] at hi; cases hi; rfl
    rw [hlane] at hfit
    cases hoffer : c.offer (.frame f) with
    | none =>
      simp only [stepLane, hoffer]
      refine h.hands _ hi hc rfl (hsame _) ?_
      rw [laneAt_of_call rfl rfl]
      exact hfit.overflows
    | some =>
      simp only [stepLane, hoffer, finish_of_offer hoffer]
      exact h.hands .receiving hi hc finish_id hnone hfit.offered
  | overflowing j stage =>
    obtain rfl : j = i := by rw [hlane] at hi; cases hi; rfl
    rw [hlane] at hfit
    cases stage with
    | remove =>
      refine h.change hc (calls_eq_set hc) rfl rfl (fun _ _ => rfl) (fun _ => .inl)
        (fun id k => lookup_of_erase) (fun id hne => lookup_erase_ne hne)
        (fun _ hk => laneAt_of_on hi (hsame _) hk) ?_
      show CallFit _ ((s.pending.erase c.id).lookup c.id).isSome _ _
      rw [lookup_erase, laneAt_of_call rfl rfl]
      exact hfit.removed
    | mark =>
      unfold stepLane
      by_cases hcancelled : c.cancelled = true
      · rw [if_pos hcancelled]
        refine h.change hc (calls_eq_set hc) rfl rfl (fun _ _ => rfl) (fun _ => .inl)
          (fun _ _ hk => hk) (fun _ _ => rfl) (fun _ hk => laneAt_of_on hi (hsame _) hk) ?_
        rw [laneAt_of_call rfl rfl]
        exact hfit.skipped hcancelled
      · rw [if_neg hcancelled]
        refine h.hands _ hi hc rfl (hsame _) ?_
        rw [laneAt_of_call rfl rfl]
        exact hfit.claimed (eq_false_iff.mpr hcancelled)
    | send =>
      refine h.change hc (calls_eq_set hc) rfl rfl (fun id hne => count_snoc_ne hne)
        (fun id hid => ?_) (fun _ _ hk => hk) (fun _ _ => rfl)
        (fun _ hk => laneAt_of_on hi (hsame _) hk) ?_
      · exact (mem_append.mp hid).imp_right mem_singleton.mp
      · show CallFit ((s.cancels ++ [c.id]).count c.id) _ _ _
        rw [count_append, count_singleton_self, laneAt_of_call rfl rfl]
        exact hfit.laneCancels
    | fail => exact h.hands .receiving hi hc finish_id hnone hfit.tells

/-- **A frame the lane receives.** -/
theorem Inv.received (h : s.Inv) (hlane : s.lane = .receiving) (f : Frame) : (s.receive f).Inv := by
  have hnone : ∀ j, s.laneAt j = none := fun _ => laneAt_of_none (by rw [hlane]; rfl)
  unfold receive
  split
  · exact ⟨h.fits, h.unique, h.below, h.sent, h.pending, h.hand⟩
  · split
    · exact h
    · rename_i id hid
      split
      · exact h
      · rename_i i c hfound
        obtain ⟨j, hj, hmap⟩ := bind_eq_some_iff.mp hfound
        obtain ⟨d, hd, heq⟩ := map_eq_some_iff.mp hmap
        cases heq
        obtain ⟨d, hd', hdid⟩ := h.pending id i hj
        cases hd.symm.trans hd'
        subst hdid
        have hfit := h.fits i c hd
        rw [hj, hnone i] at hfit
        have hother : ∀ (s' : Conn) (k : ℕ), s'.lane.call = some i → k ≠ i →
            s'.laneAt k = s.laneAt k := fun s' k hcall hk => by
          rw [hnone k, laneAt_of_ne hcall hk]
        split
        · refine h.change hd rfl rfl rfl (fun _ _ => rfl) (fun _ => .inl)
            (fun _ _ => lookup_of_erase) (fun id hne => lookup_erase_ne hne)
            (fun k hk => hother _ k rfl hk) ?_
          show CallFit _ ((s.pending.erase c.id).lookup c.id).isSome _ _
          rw [lookup_erase, laneAt_of_call rfl rfl]
          exact hfit.takesLast hid
        · rename_i hends
          refine h.change hd (calls_eq_set hd) rfl rfl (fun _ _ => rfl) (fun _ => .inl)
            (fun _ _ hk => hk) (fun _ _ => rfl) (fun k hk => hother _ k rfl hk) ?_
          show CallFit _ (s.pending.lookup c.id).isSome _ _
          rw [hj, laneAt_of_call rfl rfl]
          exact hfit.takesUp hid (eq_false_iff.mpr hends)

/-- A new call has nothing of its own yet. -/
theorem fits_new (id : ℕ) (streams one : Bool) (limit : Option ℕ) (waits : Bool) :
    CallFit 0 waits none { id := id, streams := streams, one := one, limit := limit } where
  sender := rfl
  gone := nofun
  own := nofun
  unsettled := fun _ => rfl
  unstarted := fun _ => rfl
  reason := nofun
  refused := nofun
  answered := nofun
  log := rfl
  ids := nofun
  hand := nofun
  done := fun hne => absurd rfl hne
  ending := nofun
  told := nofun
  last := List.Pairwise.nil

/-- An id is passed over. -/
theorem Inv.elsewhere (h : s.Inv) : Inv { s with nextId := s.nextId + 1 } where
  fits := h.fits
  unique := h.unique
  below := fun c hc => Nat.lt_succ_of_lt (h.below c hc)
  sent := fun id hid => Nat.lt_succ_of_lt (h.sent id hid)
  pending := h.pending
  hand := h.hand

/-- **A call registers**, under an id that no other call of the connection has had. -/
theorem Inv.register (h : s.Inv) (streams one : Bool) (limit : Option ℕ) :
    (s.register streams one limit).Inv := by
  unfold Conn.register
  split
  · -- an old call at its place, or the new one at the end
    have hget {j : ℕ} {d : ClientCall} {new : ClientCall} (hd : (s.calls ++ [new])[j]? = some d) :=
      getElem?_concat_eq_some.mp hd
    have hold : ∀ (j : ℕ) (d : ClientCall), s.calls[j]? = some d → d.id ≠ s.nextId :=
      fun j d hd => (h.below d (mem_of_getElem? hd)).ne
    refine ⟨fun j d hd => ?_, fun j k d e hd he heq => ?_, fun d hd => ?_, fun id hid => ?_,
      fun id j hj => ?_, fun j hj => ?_⟩
    · rcases hget hd with hd | ⟨rfl, rfl⟩
      · show CallFit _ ((s.pending.insert s.nextId s.calls.length).lookup d.id).isSome _ _
        rw [lookup_insert_ne (hold j d hd)]
        exact h.fits j d hd
      · have hcount : s.cancels.count s.nextId = 0 :=
          count_eq_zero.mpr fun hmem => (h.sent _ hmem).ne rfl
        have hlane : s.laneAt s.calls.length = none := by
          rw [laneAt, if_neg fun heq => (h.hand _ heq).ne rfl]
        show CallFit (s.cancels.count s.nextId) _ (s.laneAt s.calls.length) _
        rw [hcount, hlane]
        exact fits_new _ _ _ _ _
    · rcases hget hd with hd | ⟨rfl, rfl⟩ <;> rcases hget he with he | ⟨rfl, rfl⟩
      · exact h.unique j k d e hd he heq
      · exact absurd heq (hold j d hd)
      · exact absurd heq.symm (hold k e he)
      · rfl
    · rcases mem_snoc.mp hd with hd | rfl
      · exact Nat.lt_succ_of_lt (h.below d hd)
      · exact Nat.lt_succ_self _
    · exact Nat.lt_succ_of_lt (h.sent id hid)
    · by_cases hid : id = s.nextId
      · subst hid
        have hj' : some s.calls.length = some j := (lookup_insert s.pending).symm.trans hj
        cases hj'
        exact ⟨_, getElem?_concat_length, rfl⟩
      · have hj' := (lookup_insert_ne (s := s.pending) hid).symm.trans hj
        obtain ⟨d, hd, hdid⟩ := h.pending id j hj'
        exact ⟨d, getElem?_concat_eq_some.mpr (.inl hd), hdid⟩
    · show j < (s.calls ++ [_]).length
      rw [length_append]
      exact Nat.lt_add_right _ (h.hand j hj)
  · exact h.elsewhere

/-- The lane's end clears the map. -/
theorem Inv.ended (h : s.Inv) (hlane : s.lane = .receiving) :
    Inv { s with lane := .ended, isOpen := false, pending := ∅ } where
  fits := fun j d hd => by
    have hfit := h.fits j d hd
    rw [laneAt_of_none (by rw [hlane]; rfl)] at hfit
    exact hfit.forgotten
  unique := h.unique
  below := h.below
  sent := h.sent
  pending := fun _ _ hi => by cases hi
  hand := fun _ hi => by cases hi

theorem Inv.init : Inv {} where
  fits := fun _ _ hc => by cases hc
  unique := fun _ _ _ _ hc => by cases hc
  below := fun _ hc => by cases hc
  sent := fun _ hid => by cases hid
  pending := fun _ _ hi => by cases hi
  hand := fun _ hi => by cases hi

theorem Inv.step (h : s.Inv) (hstep : connMachine.step s a = some s') : s'.Inv := by
  have hspec : ConnStep s a s' := step_spec hstep
  cases hspec with
  | elsewhere => exact h.elsewhere
  | register streams one limit => exact h.register streams one limit
  | call hc hcall => exact h.call hc hcall
  | received hlane f => exact h.received hlane f
  | routed hi hc => exact h.routed hi hc
  | ended hlane => exact h.ended hlane

theorem inv (hrun : connMachine.run t = some s) : s.Inv :=
  Machine.invariant Inv.init (fun _ _ _ h hstep => h.step hstep) hrun

end Conn

namespace CallFit

variable {sent : ℕ} {waits : Bool} {lane : Option Lane} {c : ClientCall}

section

variable (h : CallFit sent waits lane c)
include h

end

end CallFit

namespace Conn

variable {s s' : Conn} {a : ConnAction} {t : List ConnAction} {i : ℕ} {c : ClientCall}

end Conn

end Ulo.Rpc
