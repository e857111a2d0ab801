import Ulo.Lib.List
import Ulo.Lib.Machine

/-!
# The packet id of a client's publish

A client of the MQTT link learns that nothing listens on a pattern from the broker's
acknowledgment of the request's packet. rumqttc gives the packet its id after `publish` has
returned, so that the link matches the two itself: a publish holds the lock `order` from
before it is queued until the event loop has reported a packet id, and leaves in the single
slot `outgoing` the call the report is for.

A publish whose caller gives up while its packet is queued lets go of the lock and leaves the
packet and the slot behind. The next publish overwrites the slot, and the report of the
abandoned packet is taken for its own: the table `pkids` names the wrong call, the miss of one
call is told to another, and a publish answers before its packet is written (`misreported`).
Where no publish takes the lock while a packet of an earlier one is still to be reported,
every miss is told to the call it belongs to (`reports_own`).

The event loop writes a packet and reports it in one step, since nothing it does between is
shared. A call is still waiting where it is in the table of calls and the DISCONNECT is not
yet written: the calls have ended with it.
-/

namespace Ulo.Mqtt

open List Function

/-- `ClientCall` -/
inductive ClientCall
  | unary
  /-- with whether the server has still to acknowledge its `open` -/
  | streaming (gate : Bool)
  | cancelled
deriving DecidableEq

/-- Where a `publish` stands. -/
inductive PublishStage
  /-- it waits for `order` -/
  | ordering
  /-- it holds `order`, and its `Waiting` is in `outgoing` -/
  | placed
  /-- it was not queued, and its `Waiting` is still to be taken back -/
  | refused
  /-- it waits for its packet id -/
  | waiting
  /-- it failed, and `send` is still to forget the call -/
  | failed
  | done (ok : Bool)
  /-- its future was dropped -/
  | dropped
deriving DecidableEq

namespace PublishStage

/-- Whether a publish holds `order`. -/
def holds : PublishStage → Bool
  | placed | refused | waiting => true
  | _ => false

/-- Whether a publish has placed its `Waiting` and not yet queued its packet. -/
def unqueued : PublishStage → Bool
  | placed | refused => true
  | _ => false

theorem holds_of_unqueued {stage : PublishStage}
    (h : stage.unqueued = true) : stage.holds = true := by
  cases stage <;> first | rfl | cases h

end PublishStage

/-- What became of a publish's packet. -/
inductive Packet
  | none
  | queued
  | written (pkid : ℕ)
  /-- with whether nobody subscribes, and whether its call was still waiting then -/
  | acked (pkid : ℕ) (miss waited : Bool)
deriving DecidableEq

/-- Whether a packet was written. -/
def Packet.out : Packet → Bool
  | written _ | acked _ _ _ => true
  | _ => false

/-- **A publish**: the call whose request it is, and what was sent to its `assigned`. -/
structure Publish where
  call : Option ℕ
  stage : PublishStage := .ordering
  packet : Packet := .none
  assigned : Option Bool := .none
deriving DecidableEq

/-- A publish that has not queued its packet, nor been told that it cannot. -/
def Publish.early (q : Publish) : Bool := q.stage = .ordering || q.stage.unqueued

/-- What rumqttc's channel carries. -/
inductive Request
  | publish (k : ℕ)
  | disconnect
deriving DecidableEq

/-- The publishes in a channel. -/
def queuedOf (channel : List Request) : List ℕ :=
  channel.filterMap fun
    | .publish k => some k
    | .disconnect => none

/-- **The client side**, with the misses it reported. -/
structure Client where
  calls : ℕ → Option ClientCall := fun _ => none
  publishes : List Publish := []
  order : Option ℕ := none
  outgoing : Option ℕ := none
  channel : List Request := []
  pkids : ℕ → Option ℕ := fun _ => none
  closed : Bool := false
  /-- the DISCONNECT is written -/
  disconnected : Bool := false
  /-- the event loop has ended -/
  ended : Bool := false
  missed : List ℕ := []

/-- A step of a caller, of the event loop or of `close`. -/
inductive Action
  /-- `send` of a `req` or an `open` -/
  | request (call : ℕ) (streamed : Bool)
  /-- an event, or a control frame of a pump -/
  | emit
  | cancel (call : ℕ)
  /-- the server's `opened`, a terminal reply, and the end of a held `cancel`'s hold -/
  | openGate (call : ℕ)
  | reply (call : ℕ)
  | expire (call : ℕ)
  /-- a publish takes `order` and places its `Waiting` -/
  | lock (k : ℕ)
  /-- it queues its packet, if the channel has room -/
  | queue (k : ℕ) (room : Bool)
  /-- it takes its `Waiting` back -/
  | giveUp (k : ℕ)
  /-- it is answered -/
  | resume (k : ℕ)
  | forget (k : ℕ)
  /-- its future is dropped at an await -/
  | drop (k : ℕ)
  /-- the event loop writes a packet under an id, and reports it -/
  | write (pkid : ℕ)
  /-- the broker acknowledges the packet of a publish -/
  | ack (k : ℕ) (miss : Bool)
  /-- the connection fails -/
  | fail
  | close
  /-- the event loop writes the DISCONNECT -/
  | disconnect
deriving DecidableEq

namespace Client

/-- A publish is started. -/
def start (s : Client) (call : Option ℕ) : Client :=
  { s with publishes := s.publishes ++ [{ call }] }

/-- A publish goes on. -/
def put (s : Client) (k : ℕ) (q : Publish) : Client :=
  { s with publishes := s.publishes.set k q }

/-- Another entry of a call. -/
def setCall (s : Client) (call : ℕ) (entry : Option ClientCall) : Client :=
  { s with calls := Function.update s.calls call entry }

/-- **`ended`**: the publish waiting for its packet id is failed, and the packets awaiting an
acknowledgment are forgotten. -/
def forgetPackets (s : Client) : Client :=
  { s with
    publishes :=
      match s.outgoing with
      | some j => s.publishes.modify j fun q => { q with assigned := some false }
      | none => s.publishes
    outgoing := none
    pkids := fun _ => none }

/-- The table of packet ids, with the one of a request. -/
def pkidsWith (s : Client) (call : Option ℕ) (pkid : ℕ) : ℕ → Option ℕ :=
  match call with
  | some c => if pkid = 0 then s.pkids else Function.update s.pkids pkid (some c)
  | none => s.pkids

/-- **`Outgoing::Publish`** is handled. -/
def report (s : Client) (pkid : ℕ) : Client :=
  match s.outgoing with
  | some j =>
    { s with
      outgoing := none
      publishes := s.publishes.modify j fun q => { q with assigned := some true }
      pkids := s.pkidsWith (s.publishes[j]?.bind Publish.call) pkid }
  | none => s

/-- **`acknowledged`** -/
def acknowledged (s : Client) (pkid : ℕ) (miss : Bool) : Client :=
  match s.pkids pkid with
  | some c =>
    let s := { s with pkids := Function.update s.pkids pkid none }
    if miss && (s.calls c).isSome then { s.setCall c none with missed := s.missed ++ [c] } else s
  | none => s

/-- Whether a call is waiting. -/
def waits (s : Client) (call : Option ℕ) : Bool :=
  call.any fun c => (s.calls c).isSome && !s.disconnected

/-- **What a step does.** -/
def step (s : Client) : Action → Option Client
  | .request c streamed =>
    some ((s.setCall c (some (if streamed then .streaming true else .unary))).start (some c))
  | .emit => some (s.start none)
  | .cancel c =>
    match s.calls c with
    | some .unary => some ((s.setCall c none).start none)
    | some (.streaming true) => some (s.setCall c (some .cancelled))
    | some (.streaming false) => some (s.setCall c none)
    | some .cancelled | none => some s
  | .openGate c =>
    match s.calls c with
    | some (.streaming _) => some (s.setCall c (some (.streaming false)))
    | some .cancelled => some (s.setCall c none)
    | _ => some s
  | .reply c => some (s.setCall c none)
  | .expire c => if s.calls c = some .cancelled then some (s.setCall c none) else some s
  | .lock k =>
    match s.publishes[k]?, s.order with
    | some q, none =>
      if q.stage = .ordering then
        some { s.put k { q with stage := .placed } with order := some k, outgoing := some k }
      else none
    | _, _ => none
  | .queue k room =>
    match s.publishes[k]? with
    | some q =>
      if q.stage = .placed then
        if s.closed || s.ended || !room then some (s.put k { q with stage := .refused })
        else
          some { s.put k { q with stage := .waiting, packet := .queued } with
            channel := s.channel ++ [.publish k] }
      else none
    | none => none
  | .giveUp k =>
    match s.publishes[k]? with
    | some q =>
      if q.stage = .refused then
        some { s.put k { q with stage := .failed } with order := none, outgoing := none }
      else none
    | none => none
  | .resume k =>
    match s.publishes[k]? with
    | some q =>
      if q.stage = .waiting then
        match q.assigned with
        | some true => some { s.put k { q with stage := .done true } with order := none }
        | some false => some { s.put k { q with stage := .failed } with order := none }
        | none => none
      else none
    | none => none
  | .forget k =>
    match s.publishes[k]? with
    | some q =>
      if q.stage = .failed then
        let s := s.put k { q with stage := .done false }
        match q.call with
        | some c => some (s.setCall c none)
        | none => some s
      else none
    | none => none
  | .drop k =>
    match s.publishes[k]? with
    | some q =>
      if q.stage = .ordering then some (s.put k { q with stage := .dropped })
      else if q.stage = .waiting then
        some { s.put k { q with stage := .dropped } with order := none }
      else none
    | none => none
  | .write pkid =>
    match s.channel with
    | .publish k :: rest =>
      match s.publishes[k]? with
      | some q =>
        -- an id is used again only after its acknowledgment
        if s.ended || (pkid ≠ 0 && s.publishes.any fun q => q.packet = .written pkid) then none
        else some (({ s with channel := rest }.put k { q with packet := .written pkid }).report
          pkid)
      | none => none
    | _ => none
  | .ack k miss =>
    match s.publishes[k]? with
    | some q =>
      match q.packet with
      | .written pkid =>
        if s.ended || pkid = 0 then none
        else
          some ((s.put k { q with packet := .acked pkid miss (s.waits q.call) }).acknowledged
            pkid miss)
      | _ => none
    | none => none
  | .fail =>
    if s.ended then none else some { s.forgetPackets with channel := [], ended := true }
  | .close =>
    if s.closed then none
    else some { s with closed := true, channel := s.channel ++ [.disconnect] }
  | .disconnect =>
    match s.channel with
    | .disconnect :: rest =>
      if s.ended then none
      else some { s.forgetPackets with channel := rest, disconnected := true }
    | _ => none

end Client

/-- **A client of the link**, connected. -/
def clientMachine : Machine Client Action where
  init := {}
  step := Client.step

namespace Client

variable {s s' : Client} {a : Action} {k i pkid c p : ℕ} {q q' x : Publish} {call order : Option ℕ}
  {calls : ℕ → Option ClientCall} {channel rest : List Request}

/-! ## What a step can do -/

/-- **What an action does** to a client. -/
inductive Moves (s : Client) : Action → Client → Prop
  | table {a : Action} (calls : ℕ → Option ClientCall) : Moves s a { s with calls }
  | start {a : Action} (calls : ℕ → Option ClientCall) (call : Option ℕ) :
    Moves s a ({ s with calls }.start call)
  | lock {k : ℕ} {q : Publish} (hq : s.publishes[k]? = some q) (hstage : q.stage = .ordering)
    (horder : s.order = none) :
    Moves s (.lock k)
      { s.put k { q with stage := .placed } with order := some k, outgoing := some k }
  | refuse {a : Action} {k : ℕ} {q : Publish} (hq : s.publishes[k]? = some q)
    (hstage : q.stage = .placed) : Moves s a (s.put k { q with stage := .refused })
  | queue {a : Action} {k : ℕ} {q : Publish} (hq : s.publishes[k]? = some q)
    (hstage : q.stage = .placed) (hclosed : s.closed = false) (hended : s.ended = false) :
    Moves s a { s.put k { q with stage := .waiting, packet := .queued } with
      channel := s.channel ++ [.publish k] }
  | giveUp {a : Action} {k : ℕ} {q : Publish} (hq : s.publishes[k]? = some q)
    (hstage : q.stage = .refused) :
    Moves s a { s.put k { q with stage := .failed } with order := none, outgoing := none }
  | resume {a : Action} {k : ℕ} {q : Publish} (ok : Bool) (hq : s.publishes[k]? = some q)
    (hstage : q.stage = .waiting) (hassigned : q.assigned = some ok) :
    Moves s a { s.put k { q with stage := if ok then .done true else .failed } with order := none }
  | forget {a : Action} {k : ℕ} {q : Publish} (hq : s.publishes[k]? = some q)
    (hstage : q.stage = .failed) (calls : ℕ → Option ClientCall) :
    Moves s a { s.put k { q with stage := .done false } with calls }
  | leave {a : Action} {k : ℕ} {q : Publish} (hq : s.publishes[k]? = some q)
    (hstage : q.stage = .ordering) : Moves s a (s.put k { q with stage := .dropped })
  | drop {a : Action} {k : ℕ} {q : Publish} (hq : s.publishes[k]? = some q)
    (hstage : q.stage = .waiting) :
    Moves s a { s.put k { q with stage := .dropped } with order := none }
  | write {a : Action} {k : ℕ} {q : Publish} {rest : List Request} {pkid : ℕ}
    (hchannel : s.channel = .publish k :: rest) (hq : s.publishes[k]? = some q)
    (hfresh : pkid ≠ 0 → ∀ q ∈ s.publishes, q.packet ≠ .written pkid) :
    Moves s a (({ s with channel := rest }.put k { q with packet := .written pkid }).report pkid)
  | ack {a : Action} {k : ℕ} {q : Publish} {pkid : ℕ} {miss : Bool}
    (hq : s.publishes[k]? = some q) (hpacket : q.packet = .written pkid) (hpkid : pkid ≠ 0)
    (hended : s.ended = false) :
    Moves s a ((s.put k { q with packet := .acked pkid miss (s.waits q.call) }).acknowledged
      pkid miss)
  | fail {a : Action} : Moves s a { s.forgetPackets with channel := [], ended := true }
  | close {a : Action} (hclosed : s.closed = false) :
    Moves s a { s with closed := true, channel := s.channel ++ [.disconnect] }
  | disconnect {a : Action} {rest : List Request} (hchannel : s.channel = .disconnect :: rest) :
    Moves s a { s.forgetPackets with channel := rest, disconnected := true }

/-- **Every step is one of these.** -/
theorem moves_of_step (h : s.step a = some s') : Moves s a s' := by
  cases a with simp only [step] at h
  | request => cases h; exact .start _ _
  | emit => cases h; exact .start s.calls _
  | cancel =>
    split at h <;> cases h
    · exact .start _ _
    · exact .table _
    · exact .table _
    · exact .table s.calls
    · exact .table s.calls
  | openGate =>
    split at h <;> cases h
    · exact .table _
    · exact .table _
    · exact .table s.calls
  | reply => cases h; exact .table _
  | expire =>
    split_ifs at h <;> cases h
    · exact .table _
    · exact .table s.calls
  | lock =>
    split at h
    · rename_i hq horder
      split_ifs at h with hstage
      cases h
      exact .lock hq hstage horder
    · cases h
  | queue =>
    split at h
    · rename_i hq
      split_ifs at h with hstage hshut
      · cases h
        exact .refuse hq hstage
      · cases h
        simp only [Bool.or_eq_true, not_or, Bool.not_eq_true] at hshut
        exact .queue hq hstage hshut.1.1 hshut.1.2
    · cases h
  | giveUp =>
    split at h
    · rename_i hq
      split_ifs at h with hstage
      cases h
      exact .giveUp hq hstage
    · cases h
  | resume =>
    split at h
    · rename_i hq
      split_ifs at h with hstage
      split at h
      · rename_i hassigned
        cases h
        exact .resume true hq hstage hassigned
      · rename_i hassigned
        cases h
        exact .resume false hq hstage hassigned
      · cases h
    · cases h
  | forget =>
    split at h
    · rename_i hq
      split_ifs at h with hstage
      split at h <;> cases h
      · exact .forget hq hstage _
      · exact .forget hq hstage s.calls
    · cases h
  | drop =>
    split at h
    · rename_i hq
      split_ifs at h with hordering hwaiting
      · cases h
        exact .leave hq hordering
      · cases h
        exact .drop hq hwaiting
    · cases h
  | write =>
    split at h
    · rename_i hchannel
      split at h
      · rename_i q hq
        split_ifs at h with hguard
        cases h
        refine .write hchannel hq fun hpkid q hmem hwritten => hguard ?_
        simp only [Bool.or_eq_true, Bool.and_eq_true, any_eq_true, decide_eq_true_eq]
        exact .inr ⟨hpkid, q, hmem, hwritten⟩
      · cases h
    · cases h
  | ack =>
    split at h
    · rename_i hq
      split at h
      · rename_i hpacket
        split_ifs at h with hguard
        cases h
        simp only [Bool.or_eq_true, decide_eq_true_eq, not_or, Bool.not_eq_true] at hguard
        exact .ack hq hpacket hguard.2 hguard.1
      · cases h
    · cases h
  | fail =>
    obtain ⟨-, h⟩ := Option.ite_none_left_eq_some.mp h
    cases h
    exact .fail
  | close =>
    obtain ⟨hclosed, h⟩ := Option.ite_none_left_eq_some.mp h
    cases h
    exact .close (Bool.eq_false_iff.mpr hclosed)
  | disconnect =>
    split at h
    · rename_i hchannel
      obtain ⟨-, h⟩ := Option.ite_none_left_eq_some.mp h
      cases h
      exact .disconnect hchannel
    · cases h

/-! ## The publish that the slot is for -/

/-- **The condition on a step**: a publish takes the lock only while no packet of another is
queued. -/
def inOrder (s : Client) : Action → Bool
  | .lock _ => (queuedOf s.channel).isEmpty
  | _ => true

/-- **The slot names the packet that is queued.** -/
structure Window (s : Client) : Prop where
  holds : ∀ (k : ℕ) (q : Publish), s.publishes[k]? = some q → q.stage.holds = true →
    s.order = some k
  single : queuedOf s.channel = [] ∨ ∃ k, queuedOf s.channel = [k] ∧ s.outgoing = some k
  unqueued : ∀ (k : ℕ) (q : Publish), s.publishes[k]? = some q → q.stage.unqueued = true →
    queuedOf s.channel = []
  slot : ∀ (k : ℕ) (q : Publish), s.publishes[k]? = some q → q.stage = .placed →
    s.outgoing = some k ∨ s.closed = true ∨ s.ended = true
  ahead : ∀ rest, s.channel = .disconnect :: rest → queuedOf rest = []
  closing : .disconnect ∈ s.channel → s.closed = true

theorem queuedOf_append (l l' : List Request) : queuedOf (l ++ l') = queuedOf l ++ queuedOf l' :=
  filterMap_append

/-- A channel with neither is empty. -/
theorem eq_nil_of_queuedOf {l : List Request} (hl : queuedOf l = []) (hd : .disconnect ∉ l) :
    l = [] := by
  cases l with
  | nil => rfl
  | cons r =>
    cases r with
    | publish => cases hl
    | disconnect => exact absurd mem_cons_self hd

/-- The stages of the publishes after one of them went on. -/
theorem put_cases (h : (s.put k q').publishes[i]? = some x) :
    i = k ∧ x = q' ∨ i ≠ k ∧ s.publishes[i]? = some x :=
  eq_or_of_getElem?_set h

/-- A publish lets go of the lock or never held it, and no packet is queued or taken. -/
theorem Window.put (hs : s.Window) (hq : s.publishes[k]? = some q) (hholds : q'.stage.holds = false)
    (hunqueued : q'.stage.unqueued = false) (horder : order = s.order ∨ q.stage.holds = true) :
    Window { s.put k q' with order, calls } where
  holds i x hx hstage := by
    rcases put_cases hx with ⟨-, rfl⟩ | ⟨hi, hx'⟩
    · rw [hholds] at hstage
      cases hstage
    · have hi' := hs.holds i x hx' hstage
      refine horder.elim (fun h => h.trans hi') fun hheld => ?_
      rw [hs.holds k q hq hheld] at hi'
      exact absurd (Option.some.inj hi').symm hi
  single := hs.single
  unqueued := forall_getElem?_set hs.unqueued fun hstage => by
    rw [hunqueued] at hstage
    cases hstage
  slot := forall_getElem?_set hs.slot fun hstage => by
    rw [hstage] at hunqueued
    cases hunqueued
  ahead := hs.ahead
  closing := hs.closing

theorem forgetPackets_cases (h : s.forgetPackets.publishes[i]? = some x) :
    ∃ y, s.publishes[i]? = some y ∧ x.call = y.call ∧ x.stage = y.stage ∧ x.packet = y.packet ∧
      (x.assigned = y.assigned ∨ x.assigned = some false) := by
  unfold forgetPackets at h
  cases hj : s.outgoing with simp only [hj] at h
  | none =>
    exact ⟨x, h, rfl, rfl, rfl, .inl rfl⟩
  | some =>
    rcases eq_or_of_getElem?_modify h with ⟨-, y, hy, rfl⟩ | ⟨-, hx⟩
    · exact ⟨y, hy, rfl, rfl, rfl, .inr rfl⟩
    · exact ⟨x, hx, rfl, rfl, rfl, .inl rfl⟩

/-- The slot is cleared as the connection ends, with no packet queued. -/
theorem Window.forget (hs : s.Window) (hchannel : queuedOf channel = [])
    (hahead : ∀ rest, channel = .disconnect :: rest → queuedOf rest = [])
    {ended disconnected : Bool} (hclosing : .disconnect ∈ channel → s.closed = true)
    (hshut : s.closed = true ∨ ended = true) :
    Window { s.forgetPackets with channel, ended, disconnected } where
  holds i x hx hstage := by
    obtain ⟨y, hy, -, hstage', -, -⟩ := forgetPackets_cases hx
    exact hs.holds i y hy (hstage' ▸ hstage)
  single := .inl hchannel
  unqueued _ _ _ _ := hchannel
  slot _ _ _ _ := .inr hshut
  ahead := hahead
  closing := hclosing

/-- **The report is for the packet that is written.** -/
theorem Window.write_eq (hs : s.Window) (pkid : ℕ) (hchannel : s.channel = .publish k :: rest)
    (hq : s.publishes[k]? = some q) : s.outgoing = some k ∧ queuedOf rest = [] ∧
      ({ s with channel := rest }.put k { q with packet := .written pkid }).report pkid =
        { s.put k { q with packet := .written pkid, assigned := some true } with
          channel := rest
          outgoing := none
          pkids := s.pkidsWith q.call pkid } := by
  have hqueued : queuedOf s.channel = k :: queuedOf rest := by rw [hchannel]; rfl
  rcases hs.single with hnil | ⟨j, hj, hout⟩
  · rw [hqueued] at hnil
    cases hnil
  · rw [hqueued] at hj
    obtain ⟨rfl, hrest⟩ := cons.inj hj
    refine ⟨hout, hrest, ?_⟩
    obtain ⟨hlt, rfl⟩ := List.getElem?_eq_some_iff.mp hq
    simp [report, Client.put, pkidsWith, hout, hlt, List.modify_eq_set_getElem?]

/-- What an acknowledgment leaves. -/
theorem acknowledged_eq (s : Client) (pkid : ℕ) (miss : Bool) :
    ∃ calls pkids missed, s.acknowledged pkid miss = { s with calls, pkids, missed } := by
  unfold acknowledged
  split
  · dsimp only
    split
    · exact ⟨_, _, _, rfl⟩
    · exact ⟨s.calls, _, s.missed, rfl⟩
  · exact ⟨s.calls, s.pkids, s.missed, rfl⟩

/-- **A step in order keeps the window.** -/
theorem Window.step (hs : s.Window) (hC : s.inOrder a = true) (h : Moves s a s') : s'.Window := by
  cases h with
  | table => exact ⟨hs.holds, hs.single, hs.unqueued, hs.slot, hs.ahead, hs.closing⟩
  | start =>
    exact ⟨forall_getElem?_concat hs.holds nofun, hs.single,
      forall_getElem?_concat hs.unqueued nofun, forall_getElem?_concat hs.slot nofun,
      hs.ahead, hs.closing⟩
  | @lock k q hq hstage horder =>
    have hnil : queuedOf s.channel = [] := isEmpty_iff.mp hC
    have hfree (i : ℕ) (x : Publish) (hx : s.publishes[i]? = some x) : x.stage.holds ≠ true :=
      fun hholds => by cases horder.symm.trans (hs.holds i x hx hholds)
    refine ⟨forall_getElem?_set (fun i x hx hholds => absurd hholds (hfree i x hx)) fun _ => rfl,
      .inl hnil, fun _ _ _ _ => hnil, ?_, hs.ahead, hs.closing⟩
    refine forall_getElem?_set (fun i x hx hplaced => absurd ?_ (hfree i x hx)) fun _ => .inl rfl
    rw [hplaced]
    rfl
  | @refuse _ k q hq hstage =>
    refine ⟨forall_getElem?_set hs.holds fun _ => ?_, hs.single,
      forall_getElem?_set hs.unqueued fun _ => ?_, forall_getElem?_set hs.slot nofun,
      hs.ahead, hs.closing⟩
    · exact hs.holds k q hq (by rw [hstage]; rfl)
    · exact hs.unqueued k q hq (by rw [hstage]; rfl)
  | @queue _ k q hq hstage hclosed hended =>
    -- nothing was queued since the lock was taken, and the slot is still its own
    have hnil : s.channel = [] := by
      refine eq_nil_of_queuedOf (hs.unqueued k q hq (by rw [hstage]; rfl)) fun hd => ?_
      rw [hs.closing hd] at hclosed
      cases hclosed
    have hout : s.outgoing = some k := by
      rcases hs.slot k q hq hstage with hout | hshut | hshut
      · exact hout
      · rw [hclosed] at hshut
        cases hshut
      · rw [hended] at hshut
        cases hshut
    have hholds := hs.holds k q hq (by rw [hstage]; rfl)
    have hother {i : ℕ} {x : Publish}
        (hx : (s.put k { q with stage := .waiting, packet := .queued }).publishes[i]? = some x)
        (hx' : x.stage.holds = true) : x.stage = .waiting := by
      rcases put_cases hx with ⟨-, rfl⟩ | ⟨hi, hx⟩
      · rfl
      · exact absurd (Option.some.inj ((hs.holds i x hx hx').symm.trans hholds)) hi
    rw [hnil]
    refine ⟨forall_getElem?_set hs.holds fun _ => hholds, .inr ⟨k, rfl, hout⟩,
      fun i x hx hx' => ?_, fun i x hx hx' => ?_,
      fun rest h => (by cases h), fun h => (by cases mem_singleton.mp h)⟩
    · rw [hother hx (PublishStage.holds_of_unqueued hx')] at hx'
      cases hx'
    · cases hx'.symm.trans (hother hx (by rw [hx']; rfl))
  | @giveUp _ k q hq hstage =>
    have hnil := hs.unqueued k q hq (by rw [hstage]; rfl)
    have hmid : Window { s.put k { q with stage := .failed } with
        order := none, calls := s.calls } :=
      hs.put hq rfl rfl (.inr (by rw [hstage]; rfl))
    refine ⟨hmid.holds, .inl hnil, hmid.unqueued, fun i x hx hplaced => ?_, hs.ahead, hs.closing⟩
    have := hmid.holds i x hx (by rw [hplaced]; rfl)
    cases this
  | @resume _ k q ok hq hstage =>
    refine hs.put hq ?_ ?_ (.inr (by rw [hstage]; rfl)) <;> cases ok <;> rfl
  | forget hq | leave hq => exact hs.put hq rfl rfl (.inl rfl)
  | drop hq hstage => exact hs.put hq rfl rfl (.inr (by rw [hstage]; rfl))
  | @write _ k q rest pkid hchannel hq =>
    obtain ⟨hout, hrest, heq⟩ := hs.write_eq pkid hchannel hq
    have hqueued : queuedOf s.channel ≠ [] := by rw [hchannel]; exact cons_ne_nil _ _
    rw [heq]
    refine ⟨forall_getElem?_set hs.holds (hs.holds k q hq), .inl hrest, fun _ _ _ _ => hrest,
      fun i x hx hx' => ?_,
      fun rest' h => ?_, fun h => hs.closing (by rw [hchannel]; exact mem_cons_of_mem _ h)⟩
    · refine absurd ?_ hqueued
      rcases put_cases hx with ⟨rfl, rfl⟩ | ⟨-, hx⟩
      · exact hs.unqueued i q hq (by rw [show q.stage = .placed from hx']; rfl)
      · exact hs.unqueued i x hx (by rw [hx']; rfl)
    · have h : rest = .disconnect :: rest' := h
      rw [h] at hrest
      exact hrest
  | @ack _ k q pkid miss hq =>
    obtain ⟨calls, pkids, missed, heq⟩ :=
      acknowledged_eq (s.put k { q with packet := .acked pkid miss (s.waits q.call) }) pkid miss
    rw [heq]
    exact ⟨forall_getElem?_set hs.holds (hs.holds k q hq), hs.single,
      forall_getElem?_set hs.unqueued (hs.unqueued k q hq),
      forall_getElem?_set hs.slot (hs.slot k q hq), hs.ahead, hs.closing⟩
  | fail => exact hs.forget rfl (fun _ h => by cases h) (fun h => by cases h) (.inr rfl)
  | close hclosed =>
    have hd : .disconnect ∉ s.channel := fun hd => by
      rw [hs.closing hd] at hclosed
      cases hclosed
    have hsame : queuedOf (s.channel ++ [.disconnect]) = queuedOf s.channel := by
      rw [queuedOf_append]
      exact append_nil _
    refine ⟨hs.holds, ?_, fun i x hx hx' => ?_, fun _ _ _ _ => .inr (.inl rfl), fun rest h => ?_,
      fun _ => rfl⟩
    · show queuedOf (s.channel ++ _) = [] ∨ ∃ k, queuedOf (s.channel ++ _) = [k] ∧ _
      rw [hsame]
      exact hs.single
    · exact hsame.trans (hs.unqueued i x hx hx')
    · cases hc : s.channel with
      | nil =>
        have h : s.channel ++ [.disconnect] = .disconnect :: rest := h
        rw [hc] at h
        cases h
        rfl
      | cons =>
        have h : s.channel ++ [.disconnect] = .disconnect :: rest := h
        rw [hc] at h
        obtain ⟨rfl, -⟩ := cons.inj h
        exact absurd (by rw [hc]; exact mem_cons_self) hd
  | @disconnect _ rest hchannel =>
    have hclosed : s.closed = true := hs.closing (by rw [hchannel]; exact mem_cons_self)
    refine hs.forget (hs.ahead rest hchannel) (fun rest' h => ?_) (fun _ => hclosed) (.inl hclosed)
    have := hs.ahead rest hchannel
    rw [h] at this
    exact this

/-! ## The calls that the packets carry -/

/-- What a publish has sent: its call and its packet. -/
def sent (s : Client) (k : ℕ) : Option (Option ℕ × Packet) :=
  s.publishes[k]?.bind fun q => if q.packet.out then some (q.call, q.packet) else none

/-- **The table names the packets' calls**, and the misses are theirs. -/
structure Packets (s : Client) : Prop where
  early : ∀ (k : ℕ) (q : Publish), s.publishes[k]? = some q → q.early = true → q.packet = .none
  queued : ∀ k ∈ queuedOf s.channel, ∃ q, s.publishes[k]? = some q ∧ q.packet = .queued
  told : ∀ (k : ℕ) (q : Publish), s.publishes[k]? = some q →
    q.assigned = some true ∨ q.stage = .done true → q.packet.out = true
  named : ∀ p c, s.pkids p = some c → ∃ k, s.sent k = some (some c, .written p)
  known : ∀ k p c, s.sent k = some (some c, .written p) → p ≠ 0 →
    s.disconnected = false → s.ended = false → s.pkids p = some c
  unique : ∀ k k' p c c', s.sent k = some (c, .written p) → s.sent k' = some (c', .written p) →
    p ≠ 0 → k = k'
  missed : ∀ c ∈ s.missed, ∃ k p w, s.sent k = some (some c, .acked p true w)
  waited : ∀ k c p, s.sent k = some (some c, .acked p true true) → c ∈ s.missed

theorem sent_of_eq (hq : s.publishes[k]? = some q) :
    s.sent k = if q.packet.out then some (q.call, q.packet) else none := by
  rw [sent, hq]
  rfl

theorem sent_eq_some {packet : Packet} (h : s.sent k = some (call, packet)) :
    ∃ q, s.publishes[k]? = some q ∧ q.call = call ∧ q.packet = packet := by
  obtain ⟨q, hq, h⟩ := Option.bind_eq_some_iff.mp h
  split_ifs at h
  cases h
  exact ⟨q, hq, rfl, rfl⟩

theorem sent_put_ne (hi : i ≠ k) : (s.put k q').sent i = s.sent i := by
  show (s.publishes.set k q')[i]?.bind _ = _
  rw [getElem?_set_ne hi.symm]
  rfl

theorem sent_put_self (hq : s.publishes[k]? = some q) :
    (s.put k q').sent k = if q'.packet.out then some (q'.call, q'.packet) else none := by
  refine sent_of_eq ?_
  show (s.publishes.set k q')[k]? = some q'
  rw [List.getElem?_set_self (List.getElem?_eq_some_iff.mp hq).1]

/-- A publish that sends nothing leaves what was sent. -/
theorem sent_put (hq : s.publishes[k]? = some q) (hcall : q'.call = q.call)
    (hpacket : q'.packet = q.packet ∨ q'.packet.out = false ∧ q.packet.out = false) :
    (s.put k q').sent = s.sent := by
  funext i
  by_cases hi : i = k
  · subst hi
    rw [sent_put_self hq, sent_of_eq hq]
    rcases hpacket with hpacket | ⟨hnew, hold⟩
    · rw [hcall, hpacket]
    · rw [hnew, hold]
      rfl
  · exact sent_put_ne hi

theorem sent_start (call : Option ℕ) : (s.start call).sent = s.sent := by
  funext i
  show (s.publishes ++ [_])[i]?.bind _ = _
  by_cases hi : i = s.publishes.length
  · subst hi
    rw [sent, getElem?_concat_length, getElem?_eq_none (Nat.le_refl _)]
    rfl
  · rw [getElem?_concat_ne hi]
    rfl

theorem sent_forgetPackets : s.forgetPackets.sent = s.sent := by
  funext i
  unfold forgetPackets
  cases s.outgoing with
  | none => rfl
  | some j =>
    show (s.publishes.modify j _)[i]?.bind _ = _
    rw [getElem?_modify, sent]
    cases s.publishes[i]? with
    | none => rfl
    | some q =>
      show (if (if j = i then _ else q : Publish).packet.out then _ else _) = _
      split <;> rfl

/-- Nothing is sent, and nothing acknowledged. -/
theorem Packets.of_sent (hs : s.Packets) (hsent : s'.sent = s.sent) (hpkids : s'.pkids = s.pkids)
    (hmissed : s'.missed = s.missed) (hdisconnected : s'.disconnected = s.disconnected)
    (hended : s'.ended = s.ended)
    (hearly : ∀ (k : ℕ) (q : Publish), s'.publishes[k]? = some q → q.early = true →
      q.packet = .none)
    (hqueued : ∀ k ∈ queuedOf s'.channel, ∃ q, s'.publishes[k]? = some q ∧ q.packet = .queued)
    (htold : ∀ (k : ℕ) (q : Publish), s'.publishes[k]? = some q →
      q.assigned = some true ∨ q.stage = .done true → q.packet.out = true) : s'.Packets where
  early := hearly
  queued := hqueued
  told := htold
  named := by rw [hpkids, hsent]; exact hs.named
  known := by rw [hpkids, hsent, hdisconnected, hended]; exact hs.known
  unique := by rw [hsent]; exact hs.unique
  missed := by rw [hmissed, hsent]; exact hs.missed
  waited := by rw [hmissed, hsent]; exact hs.waited

/-- **A publish goes on and sends nothing.** -/
theorem Packets.stage (hs : s.Packets) (hq : s.publishes[k]? = some q) {stage : PublishStage}
    (hearly : stage = .ordering ∨ stage.unqueued = true → q.early = true)
    (hdone : stage = .done true → q.packet.out = true) {outgoing : Option ℕ} :
    Packets { s.put k { q with stage } with order, outgoing, calls } := by
  have hsent : (s.put k { q with stage }).sent = s.sent := sent_put hq rfl (.inl rfl)
  refine hs.of_sent hsent rfl rfl rfl rfl
    (forall_getElem?_set hs.early fun hx' => hs.early k q hq (hearly ?_)) (fun i hi => ?_)
    (forall_getElem?_set hs.told fun hx' => hx'.elim (fun h => hs.told k q hq (.inl h)) hdone)
  · simpa [Publish.early] using hx'
  · refine exists_getElem?_set (hs.queued i hi) fun x hx hqueued => ?_
    cases hq.symm.trans hx
    exact hqueued

/-- The connection ends. -/
theorem Packets.forget (hs : s.Packets) (hchannel : queuedOf channel = [])
    {ended disconnected : Bool} (hover : ended = true ∨ disconnected = true) :
    Packets { s.forgetPackets with channel, ended, disconnected } := by
  have hsent : s.forgetPackets.sent = s.sent := sent_forgetPackets
  refine ⟨fun i x hx hx' => ?_, fun i hi => ?_, fun i x hx hx' => ?_, fun p c hp => (by cases hp),
    fun i p c hi hp hdisconnected hended => ?_, fun i j p c c' hi hj => ?_, fun c hc => ?_,
    fun i c p hi => ?_⟩
  · obtain ⟨y, hy, -, hstage, hpacket, -⟩ := forgetPackets_cases hx
    rw [hpacket]
    refine hs.early i y hy ?_
    rwa [Publish.early, hstage] at hx'
  · have hi : i ∈ queuedOf channel := hi
    rw [hchannel] at hi
    cases hi
  · obtain ⟨y, hy, -, hstage, hpacket, hassigned⟩ := forgetPackets_cases hx
    rw [hpacket]
    refine hs.told i y hy (hx'.imp (fun h => ?_) fun h => hstage.symm.trans h)
    refine hassigned.elim (fun hsame => hsame.symm.trans h) fun hfalse => ?_
    rw [hfalse] at h
    cases h
  · rcases hover with rfl | rfl
    · cases hended
    · cases hdisconnected
  · exact hs.unique i j p c c' ((congrFun hsent i).symm.trans hi) ((congrFun hsent j).symm.trans hj)
  · obtain ⟨k, p, w, hk⟩ := hs.missed c hc
    exact ⟨k, p, w, (congrFun hsent k).trans hk⟩
  · exact hs.waited i c p ((congrFun hsent i).symm.trans hi)

theorem pkidsWith_self (hpkid : pkid ≠ 0) : s.pkidsWith (some c) pkid pkid = some c := by
  rw [pkidsWith, if_neg hpkid, update_self]

theorem pkidsWith_of_ne (hp : p ≠ pkid) : s.pkidsWith call pkid p = s.pkids p := by
  unfold pkidsWith
  split
  · split
    · rfl
    · exact update_of_ne hp _ _
  · rfl

theorem pkidsWith_cases (h : s.pkidsWith call pkid p = some c) :
    s.pkids p = some c ∨ p = pkid ∧ call = some c := by
  by_cases hp : p = pkid
  · unfold pkidsWith at h
    split at h
    · split at h
      · exact .inl h
      · rw [hp, update_self] at h
        exact .inr ⟨hp, h⟩
    · exact .inl h
  · rw [pkidsWith_of_ne hp] at h
    exact .inl h

/-- A packet is written, under an id that no other waits for an acknowledgment under. -/
theorem Packets.write (hs : s.Packets) (hchannel : s.channel = .publish k :: rest)
    (hrest : queuedOf rest = []) (hq : s.publishes[k]? = some q)
    (hfresh : pkid ≠ 0 → ∀ q ∈ s.publishes, q.packet ≠ .written pkid) :
    Packets { s.put k { q with packet := .written pkid, assigned := some true } with
      channel := rest
      outgoing := none
      pkids := s.pkidsWith q.call pkid } := by
  have hqueued : q.packet = .queued := by
    obtain ⟨x, hx, hx'⟩ := hs.queued k (by rw [hchannel]; exact mem_cons_self)
    rw [hq] at hx
    cases hx
    exact hx'
  have hold : s.sent k = none := by rw [sent_of_eq hq, hqueued]; rfl
  have hnew : (s.put k { q with packet := .written pkid, assigned := some true }).sent k =
      some (q.call, .written pkid) := sent_put_self hq
  have hne {i : ℕ} {z : Option ℕ × Packet} (hi : s.sent i = some z) : i ≠ k := by
    rintro rfl
    rw [hold] at hi
    cases hi
  have hunused {i : ℕ} {call : Option ℕ} (hpkid : pkid ≠ 0) :
      s.sent i ≠ some (call, .written pkid) := fun hi => by
    obtain ⟨x, hx, -, hx'⟩ := sent_eq_some hi
    exact hfresh hpkid x (mem_of_getElem? hx) hx'
  refine ⟨forall_getElem?_set hs.early fun hx' => ?_, fun i hi => ?_,
    forall_getElem?_set hs.told fun _ => rfl, fun p c hp => ?_,
    fun i p c hi hp hdisconnected hended => ?_, fun i j p c c' hi hj hp => ?_, fun c hc => ?_,
    fun i c p hi => ?_⟩
  · cases hqueued.symm.trans (hs.early k q hq hx')
  · have hi : i ∈ queuedOf rest := hi
    rw [hrest] at hi
    cases hi
  · rcases pkidsWith_cases hp with hp | ⟨rfl, hcall⟩
    · obtain ⟨i, hi⟩ := hs.named p c hp
      exact ⟨i, (sent_put_ne (hne hi)).trans hi⟩
    · exact ⟨k, by rw [← hcall]; exact hnew⟩
  · by_cases hik : i = k
    · subst hik
      obtain ⟨hcall, rfl⟩ : q.call = some c ∧ pkid = p := by simpa using hnew.symm.trans hi
      show s.pkidsWith q.call pkid pkid = some c
      rw [hcall, pkidsWith_self hp]
    · have hi' : s.sent i = some (some c, .written p) := (sent_put_ne hik).symm.trans hi
      have hpp : p ≠ pkid := by
        intro hpp
        subst hpp
        exact hunused hp hi'
      exact (pkidsWith_of_ne hpp).trans (hs.known i p c hi' hp hdisconnected hended)
  · by_cases hik : i = k
    · by_cases hjk : j = k
      · rw [hik, hjk]
      · subst hik
        obtain ⟨-, rfl⟩ : q.call = c ∧ pkid = p := by simpa using hnew.symm.trans hi
        exact absurd ((sent_put_ne hjk).symm.trans hj) (hunused hp)
    · have hi' : s.sent i = some (c, .written p) := (sent_put_ne hik).symm.trans hi
      by_cases hjk : j = k
      · subst hjk
        obtain ⟨-, rfl⟩ : q.call = c' ∧ pkid = p := by simpa using hnew.symm.trans hj
        exact absurd hi' (hunused hp)
      · exact hs.unique i j p c c' hi' ((sent_put_ne hjk).symm.trans hj) hp
  · obtain ⟨i, p, w, hi⟩ := hs.missed c hc
    exact ⟨i, p, w, (sent_put_ne (hne hi)).trans hi⟩
  · by_cases hik : i = k
    · subst hik
      have := hnew.symm.trans hi
      simp at this
    · exact hs.waited i c p ((sent_put_ne hik).symm.trans hi)

theorem acknowledged_pkids (s : Client) (pkid : ℕ) (miss : Bool) :
    (s.acknowledged pkid miss).pkids = Function.update s.pkids pkid none := by
  unfold acknowledged
  split
  · dsimp only
    split <;> rfl
  · rename_i h
    rw [← h, update_eq_self]

theorem mem_missed_acknowledged (s : Client) (pkid : ℕ) (miss : Bool)
    (c : ℕ) : c ∈ (s.acknowledged pkid miss).missed ↔
    c ∈ s.missed ∨ miss = true ∧ s.pkids pkid = some c ∧ (s.calls c).isSome = true := by
  unfold acknowledged
  cases hc : s.pkids pkid with
  | none => simp
  | some c₀ =>
    dsimp only
    split_ifs with hmiss
    · obtain ⟨htrue, hcall⟩ := Bool.and_eq_true_iff.mp hmiss
      show c ∈ s.missed ++ [c₀] ↔ _
      rw [mem_append, mem_singleton]
      refine or_congr_right ⟨fun h => ?_, fun h => ?_⟩
      · subst h
        exact ⟨htrue, rfl, hcall⟩
      · exact (Option.some.inj h.2.1).symm
    · show c ∈ s.missed ↔ _
      refine (or_iff_left fun ⟨h₁, h₂, h₃⟩ => hmiss ?_).symm
      cases h₂
      exact Bool.and_eq_true_iff.mpr ⟨h₁, h₃⟩

/-- **A packet is acknowledged**: its call is told of a miss. -/
theorem Packets.ack (hs : s.Packets) {miss : Bool} (hq : s.publishes[k]? = some q)
    (hpacket : q.packet = .written pkid) (hpkid : pkid ≠ 0) (hended : s.ended = false) :
    ((s.put k { q with packet := .acked pkid miss (s.waits q.call) }).acknowledged
      pkid miss).Packets := by
  have hold : s.sent k = some (q.call, .written pkid) := by rw [sent_of_eq hq, hpacket]; rfl
  have hnew : (s.put k { q with packet := .acked pkid miss (s.waits q.call) }).sent k =
      some (q.call, .acked pkid miss (s.waits q.call)) := sent_put_self hq
  obtain ⟨calls, pkids, missed, heq⟩ :=
    acknowledged_eq (s.put k { q with packet := .acked pkid miss (s.waits q.call) }) pkid miss
  have hpkids :=
    acknowledged_pkids (s.put k { q with packet := .acked pkid miss (s.waits q.call) }) pkid miss
  have hmissed :=
    mem_missed_acknowledged (s.put k { q with packet := .acked pkid miss (s.waits q.call) }) pkid
      miss
  rw [heq] at hpkids hmissed ⊢
  have hpkids : pkids = update s.pkids pkid none := hpkids
  have hmissed : ∀ c, c ∈ missed ↔
    c ∈ s.missed ∨ miss = true ∧ s.pkids pkid = some c ∧ (s.calls c).isSome = true := hmissed
  subst hpkids
  refine ⟨forall_getElem?_set hs.early fun hx' => ?_, fun i hi => ?_,
    forall_getElem?_set hs.told fun _ => rfl, fun p c hp => ?_,
    fun i p c hi hp hdisconnected _ => ?_, fun i j p c c' hi hj hp => ?_, fun c hc => ?_,
    fun i c p hi => ?_⟩
  · cases hpacket.symm.trans (hs.early k q hq hx')
  · obtain ⟨x, hx, hx'⟩ := hs.queued i hi
    have hik : i ≠ k := by
      rintro rfl
      rw [hq] at hx
      cases hx
      rw [hpacket] at hx'
      cases hx'
    exact ⟨x, (getElem?_set_ne hik.symm).trans hx, hx'⟩
  · have hpp : p ≠ pkid := by
      rintro rfl
      simp at hp
    have hp : update s.pkids pkid none p = some c := hp
    rw [update_of_ne hpp] at hp
    obtain ⟨i, hi⟩ := hs.named p c hp
    have hik : i ≠ k := by
      rintro rfl
      have := hold.symm.trans hi
      simp only [Option.some.injEq, Prod.mk.injEq, Packet.written.injEq] at this
      exact hpp this.2.symm
    exact ⟨i, (sent_put_ne hik).trans hi⟩
  · by_cases hik : i = k
    · subst hik
      have := hnew.symm.trans hi
      simp at this
    · have hi' : s.sent i = some (some c, .written p) := (sent_put_ne hik).symm.trans hi
      have hpp : p ≠ pkid := by
        intro hpp
        subst hpp
        exact hik (hs.unique i k p _ _ hi' hold hp)
      exact (update_of_ne hpp _ _).trans (hs.known i p c hi' hp hdisconnected hended)
  · by_cases hik : i = k
    · subst hik
      have := hnew.symm.trans hi
      simp at this
    · by_cases hjk : j = k
      · subst hjk
        have := hnew.symm.trans hj
        simp at this
      · exact hs.unique i j p c c' ((sent_put_ne hik).symm.trans hi)
          ((sent_put_ne hjk).symm.trans hj) hp
  · rcases (hmissed c).mp hc with hc | ⟨rfl, hc, -⟩
    · obtain ⟨i, p, w, hi⟩ := hs.missed c hc
      have hik : i ≠ k := by
        rintro rfl
        have := hold.symm.trans hi
        simp at this
      exact ⟨i, p, w, (sent_put_ne hik).trans hi⟩
    · -- the table names the call of this packet
      obtain ⟨i, hi⟩ := hs.named pkid c hc
      have hik : i = k := hs.unique i k pkid _ _ hi hold hpkid
      subst hik
      obtain ⟨hcall, -⟩ : q.call = some c ∧ True := by simpa using hold.symm.trans hi
      exact ⟨i, pkid, s.waits q.call, by rw [← hcall]; exact hnew⟩
  · refine (hmissed c).mpr ?_
    by_cases hik : i = k
    · subst hik
      obtain ⟨hcall, -, hmiss, hwaits⟩ :
          q.call = some c ∧ pkid = p ∧ miss = true ∧ s.waits q.call = true := by
        simpa using hnew.symm.trans hi
      rw [hcall] at hwaits hold
      obtain ⟨hcalls, hdisconnected⟩ := Bool.and_eq_true_iff.mp hwaits
      refine .inr ⟨hmiss, hs.known i pkid c hold hpkid ?_ hended, hcalls⟩
      simpa using hdisconnected
    · exact .inl (hs.waited i c p ((sent_put_ne hik).symm.trans hi))

/-- **A step in the window keeps the table.** -/
theorem Packets.step (hs : s.Packets) (hw : s.Window) (h : Moves s a s') : s'.Packets := by
  cases h with
  | table =>
    exact ⟨hs.early, hs.queued, hs.told, hs.named, hs.known, hs.unique, hs.missed, hs.waited⟩
  | start calls call =>
    have hsent : ({ s with calls }.start call).sent = s.sent := sent_start call
    refine hs.of_sent hsent rfl rfl rfl rfl (forall_getElem?_concat hs.early fun _ => rfl)
      (fun i hi => ?_) (forall_getElem?_concat hs.told fun hx' => hx'.elim nofun nofun)
    obtain ⟨x, hx, hx'⟩ := hs.queued i hi
    exact ⟨x, getElem?_concat_eq_some.mpr (.inl hx), hx'⟩
  | lock hq hstage | refuse hq hstage =>
    exact hs.stage hq (fun _ => by rw [Publish.early, hstage]; rfl) fun h => by cases h
  | @queue _ k q hq hstage =>
    have hnone : q.packet = .none := hs.early k q hq (by rw [Publish.early, hstage]; rfl)
    have hsent : (s.put k { q with stage := .waiting, packet := .queued }).sent = s.sent :=
      sent_put hq rfl (.inr ⟨rfl, by rw [hnone]; rfl⟩)
    refine hs.of_sent hsent rfl rfl rfl rfl (forall_getElem?_set hs.early nofun)
      (fun i hi => ?_) (forall_getElem?_set hs.told fun hx' => ?_)
    · have hi : i ∈ queuedOf (s.channel ++ [.publish k]) := hi
      rw [queuedOf_append] at hi
      by_cases hik : i = k
      · subst hik
        exact ⟨_, List.getElem?_set_self (List.getElem?_eq_some_iff.mp hq).1, rfl⟩
      · obtain ⟨x, hx, hx'⟩ :=
          hs.queued i ((mem_append.mp hi).resolve_right fun h => hik (mem_singleton.mp h))
        exact ⟨x, (getElem?_set_ne (Ne.symm hik)).trans hx, hx'⟩
    · have := hs.told k q hq (hx'.imp_right nofun)
      rw [hnone] at this
      cases this
  | giveUp hq | forget hq | leave hq | drop hq =>
    exact hs.stage hq (fun h => absurd h (by decide)) fun h => by cases h
  | @resume _ k q ok hq hstage hassigned =>
    refine hs.stage hq ?_ fun h => ?_
    · cases ok <;> exact fun h => absurd h (by decide)
    · cases ok with
      | true => exact hs.told k q hq (.inl hassigned)
      | false => cases h
  | @write _ k q rest pkid hchannel hq hfresh =>
    obtain ⟨-, hrest, heq⟩ := hw.write_eq pkid hchannel hq
    rw [heq]
    exact hs.write hchannel hrest hq hfresh
  | ack hq hpacket hpkid hended => exact hs.ack hq hpacket hpkid hended
  | fail => exact hs.forget rfl (.inl rfl)
  | close =>
    refine ⟨hs.early, fun i hi => ?_, hs.told, hs.named, hs.known, hs.unique, hs.missed, hs.waited⟩
    have hi : i ∈ queuedOf (s.channel ++ [.disconnect]) := hi
    rw [queuedOf_append] at hi
    exact hs.queued i ((mem_append.mp hi).resolve_right nofun)
  | @disconnect _ rest hchannel => exact hs.forget (hw.ahead rest hchannel) (.inr rfl)

/-! ## The runs -/

/-- **A miss is reported to its call**: in every run in which no publish takes the lock while a
packet of another is queued, an entry of `pkids` maps a packet id to the call whose request
that packet carries; a call is told `no_destination` only if the acknowledgment of its own
request said so, and is told it if it was still waiting then; and a publish answers `Ok` only
after its own packet was written. -/
theorem reports_own {t : List Action} (h : clientMachine.run t = some s)
    (hsteps : ∀ pre s₀ a, clientMachine.TookAt t pre s₀ a → s₀.inOrder a = true) :
    (∀ p c, s.pkids p = some c →
      ∃ (k : ℕ) (q : Publish), s.publishes[k]? = some q ∧ q.call = some c ∧ q.packet = .written p) ∧
    (∀ c ∈ s.missed, ∃ (k : ℕ) (q : Publish) (p : ℕ) (w : Bool),
      s.publishes[k]? = some q ∧ q.call = some c ∧ q.packet = .acked p true w) ∧
    (∀ (k : ℕ) (q : Publish) p c, s.publishes[k]? = some q → q.call = some c →
      q.packet = .acked p true true → c ∈ s.missed) ∧
    ∀ (k : ℕ) (q : Publish), s.publishes[k]? = some q → q.stage = .done true →
      q.packet.out = true := by
  obtain ⟨-, hs⟩ : s.Window ∧ s.Packets := by
    refine Machine.invariant_of_steps (C := fun s a => s.inOrder a = true)
      (P := fun s => s.Window ∧ s.Packets) ⟨?_, ?_⟩ ?_ hsteps h
    · exact ⟨nofun, .inl rfl, nofun,
        nofun, nofun, nofun⟩
    · exact ⟨nofun, nofun, nofun,
        nofun, nofun, nofun,
        nofun, nofun⟩
    · exact fun s a s' hs hC hstep =>
        ⟨hs.1.step hC (moves_of_step hstep), hs.2.step hs.1 (moves_of_step hstep)⟩
  refine ⟨fun p c hp => ?_, fun c hc => ?_, fun k q p c hq hcall hpacket => ?_,
    fun k q hq hdone => hs.told k q hq (.inr hdone)⟩
  · obtain ⟨k, hk⟩ := hs.named p c hp
    exact ⟨k, sent_eq_some hk⟩
  · obtain ⟨k, p, w, hk⟩ := hs.missed c hc
    obtain ⟨q, hq, hcall, hpacket⟩ := sent_eq_some hk
    exact ⟨k, q, p, w, hq, hcall, hpacket⟩
  · refine hs.waited k c p ?_
    rw [sent_of_eq hq, hpacket, hcall]
    rfl

/-- Two requests, one after the other, the first of which nobody listens to. -/
def inTurn : List Action :=
  [.request 7 false, .request 8 true, .lock 0, .queue 0 true, .write 1, .resume 0, .lock 1,
    .queue 1 true, .ack 0 true, .write 2, .resume 1]

/-- The first call is told. -/
theorem reports_own_in_turn : ∃ s, clientMachine.run inTurn = some s ∧ s.missed = [7] ∧
    s.pkids 2 = some 8 ∧
    (∃ (k : ℕ) (q : Publish), s.publishes[k]? = some q ∧ q.call = some 8 ∧ q.packet = .written 2) ∧
    ∃ (k : ℕ) (q : Publish) (p : ℕ) (w : Bool), s.publishes[k]? = some q ∧ q.call = some 7 ∧
      q.packet = .acked p true w := by
  obtain ⟨hnamed, hmissed, -, -⟩ :=
    reports_own (show clientMachine.run inTurn = some _ from rfl) fun _ _ _ htook =>
      htook.of_checks (C := fun s a => s.inOrder a) rfl
  exact ⟨_, rfl, rfl, rfl, hnamed 2 8 rfl, hmissed 7 (by decide)⟩

/-- The first caller gives up while its packet is queued. -/
def abandoned : List Action :=
  [.request 7 false, .request 8 false, .lock 0, .queue 0 true, .drop 0, .lock 1, .queue 1 true,
    .write 1, .resume 1, .ack 0 true]

/-- **A miss is reported to another call**: the second publish has answered `Ok` with its packet
still queued, and its call is told that nobody listens, by the acknowledgment of the first. -/
theorem misreported : ∃ s, clientMachine.run abandoned = some s ∧
    s.publishes = [⟨some 7, .dropped, .acked 1 true true, none⟩,
      ⟨some 8, .done true, .queued, some true⟩] ∧ s.missed = [8] :=
  ⟨_, rfl, rfl, rfl⟩

end Client

end Ulo.Mqtt
