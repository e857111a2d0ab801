import Ulo.Lib.List
import Ulo.Lib.Machine
import Ulo.Rpc.Subscriptions

/-!
# The drain of a Redis server

A Redis server reads its requests from one Pub/Sub connection, subscribed to its patterns and
to the control channel. When the connection is lost its lane waits, reads the phase, connects
anew and subscribes again, the patterns only while serving; and then replaces the sink that
the drain unsubscribes on.

The drain sets the phase and unsubscribes on the sink it finds. A lane that has read the phase
before that, and whose new connection is not yet the sink, subscribes the patterns behind the
drain's back (`taken_back`). Where the drain does not begin between the two, nothing is taken
back: a connection made later subscribes to the control channel alone
(`Inv.returned`).
-/

namespace Ulo.Redis

open List Ulo.Rpc Option

/-- `CONTROL` -/
def control : String := "ulo:rpc:control"

/-- **`server_channels`** -/
def serverChannels (patterns : List String) (serving : Bool) : List String :=
  (if serving then patterns else []) ++ [control]

/-- **A Pub/Sub connection**, with what the broker has still to handle of it. -/
structure PubSub where
  up : Bool := true
  subs : List String := []
  requests : List Subscription := []
deriving DecidableEq

namespace PubSub

/-- A connection that is lost. -/
def lost : PubSub := { up := false }

/-- What a connection is subscribed to or asks for. -/
def asked (x : PubSub) : List String := x.subs ++ x.requests.flatMap Subscription.channels

end PubSub

/-- Where the lane stands. -/
inductive ServerLane
  | reading (c : ℕ)
  /-- before it looks at the phase -/
  | sleeping
  /-- in `subscribe`: before the connection is made, and before the broker has answered -/
  | connecting (serving : Bool)
  | subscribing (serving : Bool) (c : ℕ)
  /-- before the sink is replaced -/
  | subscribed (serving : Bool) (c : ℕ)
deriving DecidableEq

namespace ServerLane

/-- The phase a resubscription goes by. -/
def serving : ServerLane → Option Bool
  | connecting serving | subscribing serving _ | subscribed serving _ => some serving
  | _ => none

/-- The connection that is not yet the sink. -/
def fresh : ServerLane → Option ℕ
  | subscribing _ c | subscribed _ c => some c
  | _ => none

end ServerLane

/-- Where the drain stands. -/
inductive DrainStage
  | idle
  /-- the phase is set, and the sink is not yet read -/
  | begun
  | unsubscribing (c : ℕ)
  /-- it returned, the unsubscribe accepted or its connection lost, or refused -/
  | returned (ok : Bool)
deriving DecidableEq

/-- **The server side.** -/
structure ServerSide where
  phase : LinkPhase := .serving
  conns : List PubSub
  sink : ℕ := 0
  lane : ServerLane := .reading 0
  drain : DrainStage := .idle
deriving DecidableEq

/-- A step of the lane, of the broker or of the drain. -/
inductive Action
  | lose (c : ℕ)
  /-- the broker handles a request -/
  | handle (c : ℕ)
  /-- the stream ends -/
  | notice
  /-- the lane looks at the phase -/
  | wake
  | connect (ok : Bool)
  /-- `subscribe` answers -/
  | answer (ok : Bool)
  | replace
  | drain
  /-- the drain reads the sink, and unsubscribes on it -/
  | takeSink
  /-- it is answered -/
  | confirm (ok : Bool)
deriving DecidableEq

namespace ServerSide

/-- **What a step does.** -/
def step (patterns : List String) (s : ServerSide) : Action → Option ServerSide
  | .lose c => if c < s.conns.length then some { s with conns := s.conns.set c .lost } else none
  | .handle c =>
    match s.conns[c]? with
    | some { up := true, subs, requests := r :: rest } =>
      some { s with conns := s.conns.set c { subs := r.apply subs, requests := rest } }
    | _ => none
  | .notice =>
    match s.lane with
    | .reading c =>
      if (s.conns[c]?.any (·.up)) then none else some { s with lane := .sleeping }
    | _ => none
  | .wake =>
    if s.lane = .sleeping then some { s with lane := .connecting (s.phase = .serving) } else none
  | .connect ok =>
    match s.lane with
    | .connecting serving =>
      if ok then
        some { s with
          conns := s.conns ++ [{ requests := [.subscribe (serverChannels patterns serving)] }]
          lane := .subscribing serving s.conns.length }
      else some { s with lane := .sleeping }
    | _ => none
  | .answer ok =>
    match s.lane with
    | .subscribing serving c =>
      if ok then
        match s.conns[c]? with
        | some { up := true, requests := [], .. } => some { s with lane := .subscribed serving c }
        | _ => none
      else some { s with conns := s.conns.set c .lost, lane := .sleeping }
    | _ => none
  | .replace =>
    match s.lane with
    | .subscribed _ c => some { s with sink := c, lane := .reading c }
    | _ => none
  | .drain =>
    if s.drain = .idle then some { s with phase := .draining, drain := .begun } else none
  | .takeSink =>
    if s.drain = .begun then
      if patterns = [] then some { s with drain := .returned true }
      else
        match s.conns[s.sink]? with
        | some { up := true, subs, requests } =>
          some { s with
            conns := s.conns.set s.sink
              { subs, requests := requests ++ [.unsubscribe patterns] }
            drain := .unsubscribing s.sink }
        | _ => some { s with drain := .returned true }
    else none
  | .confirm ok =>
    match s.drain with
    | .unsubscribing c =>
      match s.conns[c]? with
      | some { up := true, requests := _ :: _, .. } =>
        if ok then none else some { s with drain := .returned false }
      | _ => some { s with drain := .returned true }
    | _ => none

end ServerSide

/-- **A server that listens**: subscribed to its patterns before `listen` returned. -/
def serverMachine (patterns : List String) : Machine ServerSide Action where
  init := { conns := [{ subs := serverChannels patterns true }] }
  step s a := s.step patterns a

namespace ServerSide

variable {patterns : List String} {s s' : ServerSide} {a : Action} {c : ℕ} {x : PubSub}

/-- **The condition on a step**: the drain does not begin while the lane resubscribes on a phase
it read before. -/
def apart (s : ServerSide) : Action → Bool
  | .drain => s.lane.serving ≠ some true
  | _ => true

/-- Subscribed to the control channel alone, unless a pattern has its name. -/
def Alone (patterns subs : List String) : Prop :=
  (∀ ch ∈ subs, ch = control) ∧ (control ∈ subs ∨ control ∈ patterns)

/-- What the connection of the sink is subscribed to as the drain goes on. -/
def Fits (patterns : List String) (sink : ℕ) (x : PubSub) : DrainStage → Prop
  | .idle | .begun => x.requests = [] ∧ ∃ serving, x.subs = serverChannels patterns serving
  | .unsubscribing c =>
    (x.requests = [.unsubscribe patterns] ∧ c = sink ∧
      ∃ serving, x.subs = serverChannels patterns serving) ∨
    (x.requests = [] ∧ Alone patterns x.subs)
  | .returned true => x.requests = [] ∧ Alone patterns x.subs
  | .returned false => True

/-- **What a connection that is up is**: the sink, while the lane reads it, or the one that the
lane resubscribes on, with what it asked for as it was made. -/
def Role (patterns : List String) (sink : ℕ) (drain : DrainStage) (c : ℕ) (x : PubSub) :
    ServerLane → Prop
  | .reading _ => c = sink ∧ Fits patterns sink x drain
  | .sleeping | .connecting _ => False
  | .subscribing serving c' => c = c' ∧
    ((x.requests = [.subscribe (serverChannels patterns serving)] ∧ x.subs = []) ∨
      (x.requests = [] ∧ x.subs = serverChannels patterns serving))
  | .subscribed serving c' =>
    c = c' ∧ x.requests = [] ∧ x.subs = serverChannels patterns serving

/-- **The connections** of a server whose drain began apart from the resubscriptions. -/
structure Inv (patterns : List String) (s : ServerSide) : Prop where
  sinkLt : s.sink < s.conns.length
  freshLt : ∀ c, s.lane.fresh = some c → s.sink < c ∧ c < s.conns.length
  down : ∀ (c : ℕ) (x : PubSub), s.conns[c]? = some x → x.up = false → x = .lost
  reading : ∀ c, s.lane = .reading c → c = s.sink
  roles : ∀ (c : ℕ) (x : PubSub), s.conns[c]? = some x → x.up = true →
    Role patterns s.sink s.drain c x s.lane
  apart : s.drain ≠ .idle → s.lane.serving ≠ some true
  phase : s.phase = .serving ↔ s.drain = .idle

theorem alone_serverChannels : Alone patterns (serverChannels patterns false) :=
  ⟨fun _ h => mem_singleton.mp h, .inl mem_cons_self⟩

theorem alone_unsubscribe (serving : Bool) :
    Alone patterns ((Subscription.unsubscribe patterns).apply
      (serverChannels patterns serving)) := by
  constructor
  · intro ch h
    obtain ⟨hch, hnot⟩ := mem_filter.mp h
    have hnot : ch ∉ patterns := of_decide_eq_true hnot
    rcases mem_snoc.mp hch with hch | hch
    · cases serving with
      | true => exact absurd hch hnot
      | false => cases hch
    · exact hch
  · by_cases hc : control ∈ patterns
    · exact .inr hc
    · refine .inl (mem_filter.mpr ⟨mem_append_right _ mem_cons_self, ?_⟩)
      exact decide_eq_true hc

section

variable {sink : ℕ} {lane : ServerLane} {drain drain' : DrainStage} {subs : List String}
  {r : Subscription} {rest : List Subscription}

/-- The broker handles a request of the sink's connection. -/
theorem Fits.handle (h : Fits patterns sink { subs, requests := r :: rest } drain) :
    Fits patterns sink { subs := r.apply subs, requests := rest } drain := by
  unfold Fits at h ⊢
  split at h
  · cases h.1
  · cases h.1
  · rcases h with ⟨hrequests, -, serving, hsubs⟩ | ⟨hrequests, -⟩
    · obtain ⟨rfl, rfl⟩ := cons.inj hrequests
      have hsubs : subs = serverChannels patterns serving := hsubs
      subst hsubs
      exact .inr ⟨rfl, alone_unsubscribe serving⟩
    · cases hrequests
  · cases h.1
  · trivial

/-- A connection that went by the phase, once it has all it asked for. -/
theorem Fits.made {serving : Bool} (hrequests : x.requests = [])
    (hsubs : x.subs = serverChannels patterns serving)
    (hserving : drain ≠ .idle → some serving ≠ some true) : Fits patterns sink x drain := by
  have halone (hdrain : drain ≠ .idle) : Alone patterns x.subs := by
    cases serving with
    | true => exact absurd rfl (hserving hdrain)
    | false =>
      rw [hsubs]
      exact alone_serverChannels
  unfold Fits
  split
  · exact ⟨hrequests, serving, hsubs⟩
  · exact ⟨hrequests, serving, hsubs⟩
  · exact .inr ⟨hrequests, halone nofun⟩
  · exact ⟨hrequests, halone nofun⟩
  · trivial

theorem Role.handle (h : Role patterns sink drain c { subs, requests := r :: rest } lane) :
    Role patterns sink drain c { subs := r.apply subs, requests := rest } lane := by
  cases lane with
  | reading => exact ⟨h.1, h.2.handle⟩
  | sleeping | connecting => exact h
  | subscribing =>
    obtain ⟨hc, ⟨hrequests, hsubs⟩ | ⟨hrequests, -⟩⟩ := h
    · obtain ⟨rfl, rfl⟩ := cons.inj hrequests
      have hsubs : subs = [] := hsubs
      subst hsubs
      exact ⟨hc, .inr ⟨rfl, rfl⟩⟩
    · cases hrequests
  | subscribed => cases h.2.1

/-- The drain moves the sink's connection alone. -/
theorem Role.drained (h : Role patterns sink drain c x lane)
    (hfits : c = sink → Fits patterns sink x drain → Fits patterns sink x drain') :
    Role patterns sink drain' c x lane := by
  cases lane with
  | reading => exact ⟨h.1, hfits h.1 h.2⟩
  | _ => exact h

end

section

variable (hs : s.Inv patterns) {serving : Bool}
include hs

/-- Another state of one connection. -/
theorem Inv.set (hdown : x.up = false → x = .lost)
    (hrole : x.up = true → Role patterns s.sink s.drain c x s.lane) :
    Inv patterns { s with conns := s.conns.set c x } :=
  { hs with
    sinkLt := by
      show s.sink < (s.conns.set c x).length
      rw [length_set]
      exact hs.sinkLt
    freshLt := fun i h => by
      show s.sink < i ∧ i < (s.conns.set c x).length
      rw [length_set]
      exact hs.freshLt i h
    down := forall_getElem?_set hs.down hdown
    roles := forall_getElem?_set hs.roles hrole }

/-- A connection is lost. -/
theorem Inv.lose : Inv patterns { s with conns := s.conns.set c .lost } :=
  hs.set (fun _ => rfl) nofun

/-- The sink's connection, while it is up, is read. -/
theorem Inv.sink_read (hx : s.conns[s.sink]? = some x) (hup : x.up = true) :
    s.lane = .reading s.sink ∧ Fits patterns s.sink x s.drain := by
  have hrole := hs.roles _ x hx hup
  cases hlane : s.lane with
  | reading c =>
    rw [hlane] at hrole
    exact ⟨by rw [hs.reading c hlane], hrole.2⟩
  | sleeping | connecting =>
    rw [hlane] at hrole
    exact hrole.elim
  | subscribing serving c | subscribed serving c =>
    rw [hlane] at hrole
    exact absurd hrole.1 (hs.freshLt c (by rw [hlane]; rfl)).1.ne

/-- A lane with no connection of its own, while none is up. -/
theorem Inv.rest {lane : ServerLane}
    (hnone : ∀ (c : ℕ) (x : PubSub), s.conns[c]? = some x → x.up ≠ true)
    (hfresh : lane.fresh = none) (hreading : ∀ c, lane ≠ .reading c)
    (hapart : s.drain ≠ .idle → lane.serving ≠ some true) : Inv patterns { s with lane } :=
  { hs with
    freshLt := fun _ h => nomatch hfresh.symm.trans h
    reading := fun c h => absurd h (hreading c)
    roles := fun c x hx hup => absurd hup (hnone c x hx)
    apart := hapart }

/-- The stream of the connection that is read ends. -/
theorem Inv.notice (hlane : s.lane = .reading c) (hdown : ¬ s.conns[c]?.any (·.up) = true) :
    Inv patterns { s with lane := .sleeping } := by
  refine hs.rest (fun i x hx hup => hdown ?_) rfl nofun nofun
  have hrole := hs.roles i x hx hup
  rw [hlane] at hrole
  rw [hs.reading c hlane, ← hrole.1, hx]
  exact hup

/-- The lane looks at the phase, which is set before the drain stands where it does. -/
theorem Inv.wake (hlane : s.lane = .sleeping) :
    Inv patterns { s with lane := .connecting (s.phase = .serving) } := by
  refine hs.rest (fun i x hx hup => ?_) rfl nofun fun hdrain h => ?_
  · have hrole := hs.roles i x hx hup
    rwa [hlane] at hrole
  · have hphase : decide (s.phase = .serving) = true := some.inj h
    exact hdrain (hs.phase.mp (of_decide_eq_true hphase))

/-- While the lane connects, no connection is up. -/
theorem Inv.none_up (hlane : s.lane = .connecting serving) (i : ℕ) (y : PubSub)
    (hy : s.conns[i]? = some y) : y.up ≠ true := by
  intro hup
  have hrole := hs.roles i y hy hup
  rwa [hlane] at hrole

/-- A connection is made, and asks for its channels. -/
theorem Inv.connect (hlane : s.lane = .connecting serving) : Inv patterns { s with
      conns := s.conns ++ [{ requests := [.subscribe (serverChannels patterns serving)] }]
      lane := .subscribing serving s.conns.length } := by
  have hlength : (s.conns ++ [({ requests := [.subscribe (serverChannels patterns serving)] } :
      PubSub)]).length = s.conns.length + 1 := length_append
  have hapart := hs.apart
  rw [hlane] at hapart
  exact { hs with
    sinkLt := hlength ▸ Nat.lt_succ_of_lt hs.sinkLt
    freshLt := fun _ h => by
      cases h
      exact ⟨hs.sinkLt, hlength ▸ Nat.lt_succ_self _⟩
    down := forall_getElem?_concat hs.down nofun
    reading := nofun
    roles := forall_getElem?_concat (fun i y hy hup => absurd hup (hs.none_up hlane i y hy))
      fun _ => ⟨rfl, .inl ⟨rfl, rfl⟩⟩
    apart := hapart }

/-- The broker has answered it. -/
theorem Inv.answer (hlane : s.lane = .subscribing serving c) {subs : List String}
    (hx : s.conns[c]? = some { subs }) : Inv patterns { s with lane := .subscribed serving c } := by
  have hapart := hs.apart
  have hfresh := hs.freshLt
  rw [hlane] at hapart hfresh
  refine { hs with
    freshLt := hfresh
    reading := nofun
    roles := fun i y hy hup => ?_
    apart := hapart }
  have hrole := hs.roles i y hy hup
  rw [hlane] at hrole
  obtain ⟨rfl, hmade⟩ := hrole
  cases hx.symm.trans hy
  exact ⟨rfl, hmade.resolve_left nofun⟩

/-- It could not be subscribed. -/
theorem Inv.giveUp (hlane : s.lane = .subscribing serving c) :
    Inv patterns { s with conns := s.conns.set c .lost, lane := .sleeping } := by
  refine hs.lose.rest (fun i x hx hup => ?_) rfl nofun nofun
  rcases eq_or_of_getElem?_set hx with ⟨-, rfl⟩ | ⟨hne, hx⟩
  · cases hup
  · have hrole := hs.roles i x hx hup
    rw [hlane] at hrole
    exact hne hrole.1

/-- **The sink is replaced** by a connection that went by the phase. -/
theorem Inv.replace (hlane : s.lane = .subscribed serving c) :
    Inv patterns { s with sink := c, lane := .reading c } := by
  have hapart := hs.apart
  rw [hlane] at hapart
  refine { hs with
    sinkLt := (hs.freshLt c (by rw [hlane]; rfl)).2
    freshLt := nofun
    reading := fun _ h => (ServerLane.reading.inj h).symm
    roles := fun i x hx hup => ?_
    apart := nofun }
  have hrole := hs.roles i x hx hup
  rw [hlane] at hrole
  obtain ⟨rfl, hrequests, hsubs⟩ := hrole
  exact ⟨rfl, .made hrequests hsubs hapart⟩

/-- The drain begins. -/
theorem Inv.drain (hidle : s.drain = .idle) (hapart : s.lane.serving ≠ some true) :
    Inv patterns { s with phase := .draining, drain := .begun } :=
  { hs with
    roles := fun c x hx hup =>
      (hs.roles c x hx hup).drained fun _ hfits => by rwa [hidle] at hfits
    apart := fun _ => hapart
    phase := ⟨nofun, nofun⟩ }

/-- The drain goes on. -/
theorem Inv.drained {drain : DrainStage} (hdrain : drain ≠ .idle) (hidle : s.drain ≠ .idle)
    (hfits : ∀ x, s.conns[s.sink]? = some x → x.up = true → Fits patterns s.sink x s.drain →
      Fits patterns s.sink x drain) : Inv patterns { s with drain } :=
  { hs with
    roles := fun c x hx hup => (hs.roles c x hx hup).drained fun hc => hfits x (hc ▸ hx) hup
    apart := fun _ => hs.apart hidle
    phase := ⟨fun h => absurd (hs.phase.mp h) hidle, fun h => absurd h hdrain⟩ }

/-- It finds nothing to unsubscribe. -/
theorem Inv.skip (hbegun : s.drain = .begun) (hpatterns : patterns = []) :
    Inv patterns { s with drain := .returned true } := by
  refine hs.drained nofun (by rw [hbegun]; exact nofun) fun x _ _ hfits => ?_
  rw [hbegun] at hfits
  obtain ⟨hrequests, serving, hsubs⟩ := hfits
  have hchannels : x.subs = serverChannels patterns false := by
    rw [hsubs, serverChannels, hpatterns]
    cases serving <;> rfl
  exact .made hrequests hchannels nofun

/-- It unsubscribes on the sink's connection. -/
theorem Inv.unsubscribe (hbegun : s.drain = .begun) {x : PubSub}
    (hx : s.conns[s.sink]? = some x) (hup : x.up = true) : Inv patterns { s with
      conns := s.conns.set s.sink
        { subs := x.subs, requests := x.requests ++ [.unsubscribe patterns] }
      drain := .unsubscribing s.sink } := by
  obtain ⟨hlane, hfits⟩ := hs.sink_read hx hup
  rw [hbegun] at hfits
  obtain ⟨hrequests, hsubs⟩ := hfits
  rw [hrequests]
  have hany : Inv patterns { s with drain := .returned false } :=
    hs.drained nofun (by rw [hbegun]; exact nofun) fun _ _ _ _ => trivial
  have hset := hany.set (c := s.sink) (x := { subs := x.subs, requests := [.unsubscribe patterns] })
    nofun fun _ => by
      show Role patterns s.sink _ _ _ s.lane
      rw [hlane]
      exact ⟨rfl, trivial⟩
  refine hset.drained nofun nofun fun y hy _ _ => ?_
  rcases eq_or_of_getElem?_set hy with ⟨-, rfl⟩ | ⟨hne, -⟩
  · exact .inl ⟨rfl, rfl, hsubs⟩
  · exact absurd rfl hne

/-- It is answered, or its connection is lost. -/
theorem Inv.confirm (hdrain : s.drain = .unsubscribing c)
    (hnone : ∀ subs r rest, s.conns[c]? ≠ some { subs, requests := r :: rest }) :
    Inv patterns { s with drain := .returned true } := by
  refine hs.drained nofun (by rw [hdrain]; exact nofun) fun x hx hup hfits => ?_
  rw [hdrain] at hfits
  rcases hfits with ⟨hrequests, rfl, -⟩ | hfits
  · obtain ⟨up, subs, requests⟩ := x
    cases hup
    cases hrequests
    exact absurd hx (hnone _ _ _)
  · exact hfits

/-- **A step apart keeps the connections.** -/
theorem Inv.step (hC : s.apart a = true) (h : s.step patterns a = some s') : s'.Inv patterns := by
  cases a with simp only [ServerSide.step] at h
  | lose =>
    obtain ⟨-, h⟩ := ite_none_right_eq_some.mp h
    cases h
    exact hs.lose
  | handle =>
    split at h
    · rename_i hx
      cases h
      exact hs.set nofun fun _ => (hs.roles _ _ hx rfl).handle
    · cases h
  | notice =>
    split at h
    · rename_i hlane
      obtain ⟨hdown, h⟩ := ite_none_left_eq_some.mp h
      cases h
      exact hs.notice hlane hdown
    · cases h
  | wake =>
    obtain ⟨hlane, h⟩ := ite_none_right_eq_some.mp h
    cases h
    exact hs.wake hlane
  | connect =>
    split at h
    · rename_i hlane
      split_ifs at h
      · cases h
        exact hs.connect hlane
      · cases h
        exact hs.rest (hs.none_up hlane) rfl nofun nofun
    · cases h
  | answer =>
    split at h
    · rename_i hlane
      split_ifs at h
      · split at h
        · rename_i hx
          cases h
          exact hs.answer hlane hx
        · cases h
      · cases h
        exact hs.giveUp hlane
    · cases h
  | replace =>
    split at h
    · rename_i hlane
      cases h
      exact hs.replace hlane
    · cases h
  | drain =>
    obtain ⟨hidle, h⟩ := ite_none_right_eq_some.mp h
    cases h
    exact hs.drain hidle (of_decide_eq_true hC)
  | takeSink =>
    obtain ⟨hbegun, h⟩ := ite_none_right_eq_some.mp h
    split_ifs at h with hpatterns
    · cases h
      exact hs.skip hbegun hpatterns
    · split at h
      · rename_i hx
        cases h
        exact hs.unsubscribe hbegun hx rfl
      · rename_i hx
        cases h
        refine hs.drained nofun (by rw [hbegun]; exact nofun) fun x hx' hup _ => ?_
        obtain ⟨up, subs, requests⟩ := x
        cases hup
        exact absurd hx' (hx _ _)
  | confirm =>
    split at h
    · rename_i hdrain
      split at h
      · obtain ⟨-, h⟩ := ite_none_left_eq_some.mp h
        cases h
        exact hs.drained nofun (by rw [hdrain]; exact nofun) fun _ _ _ _ => trivial
      · rename_i hnone
        cases h
        exact hs.confirm hdrain hnone
    · cases h

/-- **Nothing is taken back**: once the drain has returned with its unsubscribe accepted or its
connection lost, no connection is subscribed to anything but the control channel or asks for
it, and the one that is read is subscribed to that. -/
theorem Inv.returned (hdrain : s.drain = .returned true) :
    (∀ x ∈ s.conns, ∀ ch ∈ x.asked, ch = control) ∧
      ∀ c x, s.lane = .reading c → s.conns[c]? = some x → x.up = true →
        control ∈ x.subs ∨ control ∈ patterns := by
  have hroles := hs.roles
  have hserving := hs.apart (by rw [hdrain]; exact nofun)
  rw [hdrain] at hroles
  constructor
  · intro x hmem ch hch
    obtain ⟨c, hx⟩ := mem_iff_getElem?.mp hmem
    cases hup : x.up with
    | false =>
      rw [hs.down c x hx hup] at hch
      cases hch
    | true =>
      have hrole := hroles c x hx hup
      unfold PubSub.asked at hch
      -- a connection the lane made goes by the phase, and asks for the control channel alone
      have hmade {serving : Bool} (hlane : some serving ≠ some true)
          (hch : ch ∈ serverChannels patterns serving) : ch = control := by
        cases serving with
        | true => exact absurd rfl hlane
        | false => exact mem_singleton.mp hch
      cases hlane : s.lane with
        simp only [hlane] at hrole hserving
      | reading =>
        obtain ⟨-, hrequests, halone⟩ := hrole
        rw [hrequests, flatMap_nil, append_nil] at hch
        exact halone.1 ch hch
      | sleeping | connecting => exact hrole.elim
      | subscribing =>
        obtain ⟨-, ⟨hrequests, hsubs⟩ | ⟨hrequests, hsubs⟩⟩ := hrole <;>
          exact hmade hserving (by simpa [hrequests, hsubs, Subscription.channels] using hch)
      | subscribed =>
        obtain ⟨-, hrequests, hsubs⟩ := hrole
        exact hmade hserving (by simpa [hrequests, hsubs] using hch)
  · intro c x hlane hx hup
    have hrole := hroles c x hx hup
    rw [hlane] at hrole
    exact hrole.2.2.2

end

theorem Inv.init : Inv patterns (serverMachine patterns).init := by
  have hzero (c : ℕ) (x : PubSub) (hx : (serverMachine patterns).init.conns[c]? = some x) :
      c = 0 ∧ x = { subs := serverChannels patterns true } := by
    cases c with
    | zero => exact ⟨rfl, (some.inj hx).symm⟩
    | succ => cases hx
  refine ⟨Nat.zero_lt_one, nofun, fun c x hx hup => ?_, fun _ h => (ServerLane.reading.inj h).symm,
    fun c x hx _ => ?_, fun h => absurd rfl h, ⟨fun _ => rfl, fun _ => rfl⟩⟩
  · rw [(hzero c x hx).2] at hup
    cases hup
  · obtain ⟨rfl, rfl⟩ := hzero c x hx
    exact ⟨rfl, rfl, true, rfl⟩

end ServerSide

end Ulo.Redis
