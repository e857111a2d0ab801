import Ulo.Redis.Drain

/-!
# The drain of an MQTT server

An MQTT server has one client of rumqttc for its whole life: the event loop connects again
when the connection is lost, and on every CONNACK the link subscribes anew, its shared filters
only while serving. What the link asks for goes through the client's one channel, which the
event loop sends on; a clean session drops what was in it when the connection failed.

The drain sets the phase and queues an UNSUBSCRIBE for each shared filter, and returns once
each is acknowledged or forgotten with its session. The link reads the phase and queues its
subscription apart: a drain that begins between the two can have its UNSUBSCRIBEs queued
first, and the filters are taken back (`taken_back`). Where it does not begin there, the
connection in use is the old one, and its UNSUBSCRIBEs are all handled by the time the drain
returns (`Old`), or one that is subscribed to the control topic alone (`Pure`).

`stays_off` says so for this link and for Redis.
-/

namespace Ulo.Mqtt

open List Ulo.Rpc

/-- `CONTROL` -/
def control : String := "ulo/rpc/control"

/-- The filters of a subscription: the shared ones while serving, the control topic always. -/
def serverFilters (shared : List String) (serving : Bool) : List String :=
  (if serving then shared else []) ++ [control]

/-- Where the event loop stands. -/
inductive LoopStage
  | polling
  /-- the connection failed, and it waits to connect again -/
  | sleeping
  /-- a CONNACK is read; the drain's UNSUBSCRIBEs are still to be forgotten -/
  | connack
  /-- before it looks at the phase, and before it subscribes -/
  | forgotten
  | deciding (serving : Bool)
deriving DecidableEq

/-- Where the drain stands, with the filters still to be unsubscribed. -/
inductive DrainStage
  | idle
  | queuing (rest : List String)
  /-- one is announced, and its request not yet queued -/
  | announced (filter : String) (rest : List String)
  | waiting
  | returned
deriving DecidableEq

/-- The filters the drain has not asked to be unsubscribed from. -/
def DrainStage.remaining (shared : List String) : DrainStage → List String
  | idle => shared
  | queuing rest => rest
  | announced filter rest => filter :: rest
  | waiting | returned => []

/-- How many requests are announced and not queued. -/
def DrainStage.announcing : DrainStage → ℕ
  | announced _ _ => 1
  | _ => 0

/-- **The server side** and its connection: what the broker has it subscribed to, what was sent
and not handled, and the UNSUBACKs to be read. -/
structure ServerSide where
  phase : LinkPhase := .serving
  conn : Option (List String)
  wire : List (Subscription × ℕ) := []
  acks : List ℕ := []
  channel : List Subscription := []
  loop : LoopStage := .polling
  /-- `Unsubscribing` -/
  queued : List String := []
  sent : List (ℕ × String) := []
  drain : DrainStage := .idle
  /-- an UNSUBSCRIBE was refused, by the broker or by the client -/
  refused : Bool := false
  /-- a subscription found no room in the channel -/
  short : Bool := false
deriving DecidableEq

/-- A step of the event loop, of the broker or of the drain. -/
inductive DrainAction
  | lose
  /-- the event loop sees the failure -/
  | fail
  | connect
  /-- `session_ended` -/
  | forget
  /-- the phase is read; a broker without shared subscriptions is subscribed to the control
  topic alone -/
  | read (sharing : Bool)
  | subscribe (room : Bool)
  /-- the event loop sends the next request, under an id that is not in flight -/
  | send (pkid : ℕ)
  /-- the broker handles one -/
  | handle (ok : Bool)
  /-- an UNSUBACK is read -/
  | unsuback
  | drain
  /-- `unsubscribe_queued`, and the request itself -/
  | announce
  | queue (ok : Bool)
  | wait
  | confirm
deriving DecidableEq

namespace ServerSide

/-- `unsubscribe_sent` -/
def unsubscribeSent (s : ServerSide) (pkid : ℕ) : ServerSide :=
  match s.queued with
  | filter :: queued =>
    { s with queued, sent := (s.sent.filter fun e => e.1 ≠ pkid) ++ [(pkid, filter)] }
  | [] => s

/-- The packet ids in flight, those that are acknowledged first. -/
def pkids (s : ServerSide) : List ℕ := s.acks ++ s.wire.map Prod.snd

/-- **What a step does.** -/
def step (shared : List String) (s : ServerSide) : DrainAction → Option ServerSide
  | .lose => some { s with conn := none, wire := [], acks := [] }
  | .fail =>
    if s.loop = .polling ∧ s.conn = none then some { s with channel := [], loop := .sleeping }
    else none
  | .connect =>
    if s.loop = .sleeping then some { s with conn := some [], loop := .connack } else none
  | .forget =>
    if s.loop = .connack then some { s with queued := [], sent := [], loop := .forgotten } else none
  | .read sharing =>
    if s.loop = .forgotten then
      some { s with loop := .deciding (sharing && s.phase = .serving) }
    else none
  | .subscribe room =>
    match s.loop with
    | .deciding serving =>
      if room then
        some { s with
          channel := s.channel ++ [.subscribe (serverFilters shared serving)]
          loop := .polling }
      else some { s with loop := .polling, short := true }
    | _ => none
  | .send pkid =>
    match s.loop, s.conn, s.channel with
    | .polling, some _, r :: channel =>
      let s' := { s with channel, wire := s.wire ++ [(r, pkid)] }
      if pkid ∈ s.pkids then none
      else
        match r with
        | .unsubscribe _ => some (s'.unsubscribeSent pkid)
        | .subscribe _ => some s'
    | _, _, _ => none
  | .handle ok =>
    match s.conn, s.wire with
    | some subs, (.subscribe channels, _) :: wire =>
      some { s with conn := some (subs ++ channels), wire }
    | some subs, (.unsubscribe channels, pkid) :: wire =>
      if ok then
        some { s with
          conn := some ((Subscription.unsubscribe channels).apply subs)
          wire
          acks := s.acks ++ [pkid] }
      else some { s with wire, acks := s.acks ++ [pkid], refused := true }
    | _, _ => none
  | .unsuback =>
    match s.loop, s.acks with
    | .polling, pkid :: acks =>
      some { s with acks, sent := s.sent.filter fun e => e.1 ≠ pkid }
    | _, _ => none
  | .drain =>
    if s.drain = .idle then some { s with phase := .draining, drain := .queuing shared } else none
  | .announce =>
    match s.drain with
    | .queuing (filter :: rest) =>
      some { s with queued := s.queued ++ [filter], drain := .announced filter rest }
    | _ => none
  | .queue ok =>
    match s.drain with
    | .announced filter rest =>
      if ok then
        some { s with channel := s.channel ++ [.unsubscribe [filter]], drain := .queuing rest }
      else
        some { s with queued := s.queued.dropLast, drain := .queuing rest, refused := true }
    | _ => none
  | .wait => if s.drain = .queuing [] then some { s with drain := .waiting } else none
  | .confirm =>
    if s.drain = .waiting ∧ s.queued.length + s.sent.length = 0 then
      some { s with drain := .returned }
    else none

end ServerSide

/-- **A server that listens**: subscribed before `listen` returned. -/
def serverMachine (shared : List String) : Machine ServerSide DrainAction where
  init := { conn := some (serverFilters shared true) }
  step s a := s.step shared a

namespace ServerSide

variable {shared : List String} {s s' : ServerSide} {a : DrainAction} {subs : List String}
  {r : Subscription} {wire : List (Subscription × ℕ)} {pkid : ℕ} {filter : String}
  {rest : List String} {channel : List Subscription}

/-- **The condition on a step**: the drain does not begin between the link's look at the phase
and its subscription. -/
def apart (s : ServerSide) : DrainAction → Bool
  | .drain => s.loop ≠ .deciding true
  | _ => true

/-- What is still to be handled on the connection. -/
def requests (s : ServerSide) : List Subscription := s.wire.map Prod.fst ++ s.channel

/-- What a connection is subscribed to once all that was asked for is handled. -/
def final (s : ServerSide) (subs : List String) : List String :=
  s.requests.foldl Subscription.apply subs

/-- **A connection made after the drain began**: it never asks for a shared filter. -/
structure Pure (requests : List Subscription) (subs : List String) : Prop where
  subs : ∀ f ∈ subs, f = control
  requests : ∀ r ∈ requests, ∀ f ∈ r.channels, f = control

/-- **The connection the drain began on**: every UNSUBSCRIBE that is not handled is waited for,
and once all are handled only the filters not yet asked about are left. -/
structure Old (shared : List String) (s : ServerSide) (subs : List String) : Prop where
  polling : s.loop = .polling
  counted : s.channel.countP Subscription.drops + s.drain.announcing ≤ s.queued.length
  named : ∀ e ∈ s.wire, e.1.drops = true → ∃ e' ∈ s.sent, e'.1 = e.2
  final : ∀ f ∈ s.final subs, f = control ∨ f ∈ s.drain.remaining shared
  returned : s.drain = .returned → s.queued = [] ∧ s.sent = []

/-- What holds of a server whose drain began apart from the subscriptions. -/
structure Inv (shared : List String) (s : ServerSide) : Prop where
  busy : s.loop ≠ .polling → (∀ subs, s.conn = some subs → subs = []) ∧ s.wire = [] ∧
    ∀ r ∈ s.channel, r.channels = []
  gone : s.conn = none → s.wire = []
  phase : s.phase = .serving ↔ s.drain = .idle
  apart : s.drain ≠ .idle → s.loop ≠ .deciding true
  rest : ∀ f ∈ s.drain.remaining shared, f ∈ shared
  idle : s.drain = .idle → (∀ r ∈ s.requests, r.drops = false) ∧
    ∀ subs, s.conn = some subs → ∀ f ∈ s.final subs, f ∈ serverFilters shared true
  pkids : s.pkids.Nodup
  split : s.drain ≠ .idle → s.refused = false → ∀ subs, s.conn = some subs →
    Pure s.requests subs ∨ s.Old shared subs
  kept : s.short = false → s.refused = false → s.loop = .polling → ∀ subs, s.conn = some subs →
    control ∈ s.final subs ∨ control ∈ shared

/-- Away from its polls the event loop asks for nothing. -/
theorem Inv.empty (hs : s.Inv shared) (hloop : s.loop ≠ .polling) :
    ∀ r ∈ s.requests, r.channels = [] := by
  obtain ⟨-, hwire, hchannel⟩ := hs.busy hloop
  rw [requests, hwire]
  exact hchannel

/-- And its connection is empty. -/
theorem Inv.pure (hs : s.Inv shared) (hloop : s.loop ≠ .polling) (hconn : s.conn = some subs) :
    Pure s.requests subs := by
  constructor
  · rw [(hs.busy hloop).1 subs hconn]
    exact fun f hf => by cases hf
  · intro r hr f hf
    rw [hs.empty hloop r hr] at hf
    cases hf

/-- **Once the drain has returned**, the connection is subscribed to nothing but the control
topic and asks for nothing else. -/
theorem Inv.returned (hs : s.Inv shared) (hdrain : s.drain = .returned)
    (hrefused : s.refused = false) (hconn : s.conn = some subs) :
    (∀ f ∈ subs, f = control) ∧ ∀ r ∈ s.requests, ∀ f ∈ r.channels, f = control := by
  rcases hs.split (fun h => by rw [hdrain] at h; cases h) hrefused subs hconn with hpure | hold
  · exact ⟨hpure.subs, hpure.requests⟩
  · -- no UNSUBSCRIBE is left to be handled, so that what is asked for is what will be
    obtain ⟨hqueued, hsent⟩ := hold.returned hdrain
    have hdrops : ∀ r ∈ s.requests, r.drops = false := by
      intro r hr
      rcases mem_append.mp hr with hr | hr
      · obtain ⟨e, he, rfl⟩ := mem_map.mp hr
        refine Bool.eq_false_iff.mpr fun hdrop => ?_
        obtain ⟨e', he', -⟩ := hold.named e he hdrop
        rw [hsent] at he'
        cases he'
      · have hcounted := hold.counted
        rw [hqueued] at hcounted
        have hzero : s.channel.countP Subscription.drops = 0 := by
          have : s.channel.countP Subscription.drops + s.drain.announcing ≤ 0 := hcounted
          omega
        exact Bool.eq_false_iff.mpr (countP_eq_zero.mp hzero r hr)
    have hfinal (f : String) (hf : f ∈ s.final subs) : f = control := by
      refine (hold.final f hf).resolve_right fun h => ?_
      rw [hdrain] at h
      cases h
    constructor
    · exact fun f hf => hfinal f ((Subscription.mem_foldl_apply hdrops).mpr (.inl hf))
    · exact fun r hr f hf => hfinal f ((Subscription.mem_foldl_apply hdrops).mpr (.inr ⟨r, hr, hf⟩))

theorem mem_serverFilters {serving : Bool} {f : String} (hf : f ∈ serverFilters shared serving) :
    f ∈ serverFilters shared true := by
  cases serving with
  | true => exact hf
  | false => exact mem_append_right _ hf

/-- One request more, at the end. -/
theorem final_append (h : s'.requests = s.requests ++ [r]) :
    s'.final subs = r.apply (s.final subs) := by
  rw [final, h, foldl_append]
  rfl

/-- The first request, handled. -/
theorem final_handle (hwire : s.wire = (r, pkid) :: wire)
    (h : s'.requests = wire.map Prod.fst ++ s.channel) :
    s'.final (r.apply subs) = s.final subs := by
  rw [final, final, h, requests, hwire]
  rfl

section

variable (hs : s.Inv shared) {sent : List (ℕ × String)} {queued conn : List String}
include hs

/-- The connection is lost. -/
theorem Inv.lose : Inv shared { s with conn := none, wire := [], acks := [] } :=
  { hs with
    busy := fun h => ⟨nofun, rfl, (hs.busy h).2.2⟩
    gone := fun _ => rfl
    idle := fun h => ⟨fun r hr => (hs.idle h).1 r (mem_append_right _ hr), nofun⟩
    pkids := nodup_nil
    split := nofun
    kept := nofun }

/-- The event loop sees it. -/
theorem Inv.fail (hconn : s.conn = none) :
    Inv shared { s with channel := [], loop := .sleeping } :=
  { hs with
    busy := fun _ => ⟨fun _ h => (nomatch hconn.symm.trans h), hs.gone hconn, nofun⟩
    apart := nofun
    idle := fun _ => by
      refine ⟨fun r hr => ?_, fun _ h => nomatch hconn.symm.trans h⟩
      rw [requests, hs.gone hconn] at hr
      cases hr
    split := fun _ _ _ h => nomatch hconn.symm.trans h
    kept := nofun }

/-- It connects again. -/
theorem Inv.connect (hloop : s.loop ≠ .polling) :
    Inv shared { s with conn := some [], loop := .connack } :=
  { hs with
    busy := fun _ => ⟨fun _ h => (Option.some.inj h).symm, (hs.busy hloop).2⟩
    gone := nofun
    apart := nofun
    idle := fun h => by
      refine ⟨(hs.idle h).1, fun subs hsubs f hf => ?_⟩
      cases hsubs
      rcases (Subscription.mem_foldl_apply (hs.idle h).1).mp hf with hf | ⟨r, hr, hf⟩
      · cases hf
      · rw [hs.empty hloop r hr] at hf
        cases hf
    split := fun _ _ subs hsubs => by
      cases hsubs
      exact .inl ⟨nofun, fun r hr f hf => by rw [hs.empty hloop r hr] at hf; cases hf⟩
    kept := nofun }

/-- The event loop moves on away from its polls. -/
theorem Inv.loops (hbusy : s.loop ≠ .polling) {loop : LoopStage} {short : Bool}
    (hapart : s.drain ≠ .idle → loop ≠ .deciding true) (hshort : loop = .polling → short = true) :
    Inv shared { s with queued, sent, loop, short } :=
  { hs with
    busy := fun _ => hs.busy hbusy
    apart := hapart
    split := fun _ _ _ hsubs => .inl (hs.pure hbusy hsubs)
    kept := fun h _ hloop => absurd (hshort hloop) (Bool.eq_false_iff.mp h) }

/-- The link subscribes. -/
theorem Inv.subscribe {serving : Bool} (hloop : s.loop = .deciding serving) :
    Inv shared { s with
      channel := s.channel ++ [.subscribe (serverFilters shared serving)], loop := .polling } := by
  have hbusy : s.loop ≠ .polling := by rw [hloop]; exact nofun
  have hrequests : requests { s with
      channel := s.channel ++ [.subscribe (serverFilters shared serving)], loop := .polling } =
      s.requests ++ [.subscribe (serverFilters shared serving)] := (append_assoc _ _ _).symm
  refine { hs with
    busy := fun h => absurd rfl h
    apart := nofun
    idle := fun hidle => ⟨fun r hr => ?_, fun subs hsubs f hf => ?_⟩
    split := fun hdrain _ subs hsubs => .inl ⟨(hs.pure hbusy hsubs).subs, fun r hr => ?_⟩
    kept := fun _ _ _ subs _ => .inl ?_ }
  · rw [hrequests] at hr
    rcases mem_snoc.mp hr with hr | rfl
    · exact (hs.idle hidle).1 r hr
    · rfl
  · rw [final_append hrequests] at hf
    rcases mem_append.mp hf with hf | hf
    · exact (hs.idle hidle).2 subs hsubs f hf
    · exact mem_serverFilters hf
  · rw [hrequests] at hr
    rcases mem_snoc.mp hr with hr | rfl
    · exact (hs.pure hbusy hsubs).requests r hr
    · cases serving with
      | true => exact absurd hloop (hs.apart hdrain)
      | false => exact fun f hf => mem_singleton.mp hf
  · rw [final_append hrequests]
    exact mem_append_right _ mem_concat_self

/-- The event loop sends the next request. -/
theorem Inv.send (hloop : s.loop = .polling) (hconn : s.conn = some conn)
    (hchannel : s.channel = r :: channel) (hpkid : pkid ∉ s.pkids)
    (hold : ∀ subs, s.Old shared subs →
      channel.countP Subscription.drops + s.drain.announcing ≤ queued.length ∧
      (∀ e ∈ s.wire ++ [(r, pkid)], e.1.drops = true → ∃ e' ∈ sent, e'.1 = e.2) ∧
      (s.drain = .returned → queued = [] ∧ sent = [])) :
    Inv shared { s with channel, wire := s.wire ++ [(r, pkid)], queued, sent } := by
  have hrequests : (s.wire ++ [(r, pkid)]).map Prod.fst ++ channel = s.requests := by
    rw [requests, hchannel]
    simp
  have hfinal (subs : List String) :
      final { s with channel, wire := s.wire ++ [(r, pkid)], queued, sent } subs =
        s.final subs := by
    rw [final, requests, hrequests]
    rfl
  refine { hs with
    busy := fun h => absurd hloop h
    gone := fun h => nomatch hconn.symm.trans h
    idle := fun h => ⟨fun r hr => (hs.idle h).1 r (hrequests ▸ hr), fun subs hsubs f hf => ?_⟩
    pkids := ?_
    split := fun hdrain hrefused subs hsubs => ?_
    kept := fun hshort hrefused _ subs hsubs => ?_ }
  · rw [hfinal] at hf
    exact (hs.idle h).2 subs hsubs f hf
  · rw [ServerSide.pkids, map_append, ← append_assoc]
    exact hs.pkids.snoc fun p hp => (ne_of_mem_of_not_mem hp hpkid :)
  · refine (hs.split hdrain hrefused subs hsubs).imp
      (fun hpure => ⟨hpure.subs, fun r hr => hpure.requests r (hrequests ▸ hr)⟩) fun h => ?_
    obtain ⟨hcounted, hnamed, hreturned⟩ := hold subs h
    exact ⟨h.polling, hcounted, hnamed, fun f hf => h.final f (hfinal subs ▸ hf), hreturned⟩
  · rw [hfinal]
    exact hs.kept hshort hrefused hloop subs hsubs

/-- It sends an UNSUBSCRIBE, the oldest that is announced. -/
theorem Inv.sendUnsubscribe {channels : List String} (hloop : s.loop = .polling)
    (hconn : s.conn = some conn) (hchannel : s.channel = .unsubscribe channels :: channel)
    (hpkid : pkid ∉ s.pkids) : Inv shared
      ({ s with channel, wire := s.wire ++ [(Subscription.unsubscribe channels, pkid)] }
        |>.unsubscribeSent pkid) := by
  have hcount (subs : List String) (hold : s.Old shared subs) :
      channel.countP Subscription.drops + 1 + s.drain.announcing ≤ s.queued.length := by
    have := hold.counted
    rwa [hchannel, countP_cons_of_pos rfl] at this
  unfold unsubscribeSent
  split
  · rename_i filter queued hqueued
    have hqueued : s.queued = filter :: queued := hqueued
    refine hs.send hloop hconn hchannel hpkid fun subs hold =>
      ⟨?_, fun e he hdrop => ?_, fun h => ?_⟩
    · have := hcount subs hold
      rw [hqueued, length_cons] at this
      show channel.countP Subscription.drops + s.drain.announcing ≤ queued.length
      omega
    · rcases mem_snoc.mp he with he | rfl
      · obtain ⟨e', he', heq⟩ := hold.named e he hdrop
        refine ⟨e', mem_append_left _ (mem_filter.mpr ⟨he', decide_eq_true fun h => hpkid ?_⟩), heq⟩
        exact mem_append_right _ (h ▸ heq ▸ mem_map_of_mem he)
      · exact ⟨_, mem_append_right _ mem_cons_self, rfl⟩
    · cases hqueued.symm.trans (hold.returned h).1
  · rename_i hqueued
    have hqueued : s.queued = [] := hqueued
    refine hs.send hloop hconn hchannel hpkid fun subs hold => absurd (hcount subs hold) ?_
    rw [hqueued, length_nil]
    omega

/-- It sends a subscription. -/
theorem Inv.sendSubscribe {channels : List String} (hloop : s.loop = .polling)
    (hconn : s.conn = some conn) (hchannel : s.channel = .subscribe channels :: channel)
    (hpkid : pkid ∉ s.pkids) :
    Inv shared { s with channel, wire := s.wire ++ [(.subscribe channels, pkid)] } := by
  refine hs.send hloop hconn hchannel hpkid fun subs hold =>
    ⟨?_, fun e he hdrop => ?_, hold.returned⟩
  · have := hold.counted
    rwa [hchannel, countP_cons_of_neg (by simp [Subscription.drops])] at this
  · rcases mem_snoc.mp he with he | rfl
    · exact hold.named e he hdrop
    · cases hdrop

/-- The broker handles a request. -/
theorem Inv.handle {conn' : List String} {acks : List ℕ} {refused : Bool}
    (hconn : s.conn = some conn) (hwire : s.wire = (r, pkid) :: wire)
    (hacks : acks = s.acks ∨ acks = s.acks ++ [pkid])
    (hok : refused = false → s.refused = false ∧ conn' = r.apply conn)
    (hidle : s.drain = .idle → conn' = r.apply conn) :
    Inv shared { s with conn := some conn', wire, acks, refused } := by
  have hpolling : s.loop = .polling := by
    by_contra h
    cases hwire.symm.trans (hs.busy h).2.1
  have hfinal (c : List String) : final { s with conn := some c, wire, acks, refused }
      (r.apply conn) = s.final conn := final_handle hwire rfl
  have hsub : ∀ r' ∈ wire.map Prod.fst ++ s.channel, r' ∈ s.requests := by
    intro r' hr'
    rw [requests, hwire]
    exact mem_cons_of_mem _ hr'
  refine { hs with
    busy := fun h => absurd hpolling h
    gone := nofun
    idle := fun h => ⟨fun r' hr' => (hs.idle h).1 r' (hsub r' hr'), fun subs hsubs f hf => ?_⟩
    pkids := hs.pkids.sublist ?_
    split := fun hdrain hrefused subs hsubs => ?_
    kept := fun hshort hrefused _ subs hsubs => ?_ }
  · cases hsubs
    rw [hidle h, hfinal] at hf
    exact (hs.idle h).2 conn hconn f hf
  · rw [ServerSide.pkids, ServerSide.pkids, hwire]
    rcases hacks with rfl | rfl
    · exact List.Sublist.append_left (sublist_cons_self _ _) _
    · rw [append_assoc]
      exact List.Sublist.refl _
  · cases hsubs
    obtain ⟨hrefused, hconn'⟩ := hok hrefused
    rw [hconn']
    rcases hs.split hdrain hrefused conn hconn with hpure | hold
    · refine .inl ⟨fun f hf => ?_, fun r' hr' => hpure.requests r' (hsub r' hr')⟩
      rcases Subscription.mem_apply hf with hf | hf
      · exact hpure.subs f hf
      · exact hpure.requests r (by rw [requests, hwire]; exact mem_cons_self) f hf
    · refine .inr { hold with
        named := fun e he => hold.named e (by rw [hwire]; exact mem_cons_of_mem _ he)
        final := ?_ }
      rw [hfinal]
      exact hold.final
  · cases hsubs
    obtain ⟨hrefused, hconn'⟩ := hok hrefused
    rw [hconn', hfinal]
    exact hs.kept hshort hrefused hpolling conn hconn

/-- The event loop reads an UNSUBACK. -/
theorem Inv.unsuback {acks : List ℕ} (hacks : s.acks = pkid :: acks) :
    Inv shared { s with acks, sent := s.sent.filter fun e => e.1 ≠ pkid } := by
  have hpkids := hs.pkids
  rw [ServerSide.pkids, hacks] at hpkids
  refine { hs with
    pkids := (nodup_cons.mp hpkids).2
    split := fun hdrain hrefused subs hsubs => ?_ }
  refine (hs.split hdrain hrefused subs hsubs).imp_right fun hold => { hold with
    named := fun e he hdrop => ?_
    returned := fun h => ⟨(hold.returned h).1, ?_⟩ }
  · -- what is on the wire has another id than what is acknowledged
    obtain ⟨e', he', heq⟩ := hold.named e he hdrop
    refine ⟨e', mem_filter.mpr ⟨he', decide_eq_true fun h => (nodup_cons.mp hpkids).1 ?_⟩, heq⟩
    exact mem_append_right _ (h ▸ heq ▸ mem_map_of_mem he)
  · show s.sent.filter _ = []
    rw [(hold.returned h).2]
    rfl

/-- The drain begins. -/
theorem Inv.drain (hidle : s.drain = .idle) (hapart : s.loop ≠ .deciding true) :
    Inv shared { s with phase := .draining, drain := .queuing shared } := by
  obtain ⟨hdrops, hwithin⟩ := hs.idle hidle
  refine { hs with
    phase := ⟨nofun, nofun⟩
    apart := fun _ => hapart
    rest := fun _ hf => hf
    idle := nofun
    split := fun _ _ subs hsubs => ?_ }
  by_cases hloop : s.loop = .polling
  · refine .inr ⟨hloop, ?_, fun e he hdrop => ?_, fun f hf => ?_, nofun⟩
    · show s.channel.countP Subscription.drops + 0 ≤ s.queued.length
      rw [countP_eq_zero.mpr fun r hr => Bool.eq_false_iff.mp (hdrops r (mem_append_right _ hr))]
      exact Nat.zero_le _
    · rw [hdrops e.1 (mem_append_left _ (mem_map_of_mem he))] at hdrop
      cases hdrop
    · exact (mem_append.mp (hwithin subs hsubs f hf)).symm.imp_left mem_singleton.mp
  · exact .inl (hs.pure hloop hsubs)

/-- The drain goes on, and what was asked for stays. -/
theorem Inv.drained {drain : DrainStage} (hidle : s.drain ≠ .idle) (hdrain : drain ≠ .idle)
    (hrest : drain.remaining shared = s.drain.remaining shared)
    (hcounted : s.queued.length + drain.announcing ≤ queued.length + s.drain.announcing)
    (hreturned : drain = .returned → queued = [] ∧ s.sent = []) :
    Inv shared { s with queued, drain } := by
  refine { hs with
    phase := ⟨fun h => absurd (hs.phase.mp h) hidle, fun h => absurd h hdrain⟩
    apart := fun _ => hs.apart hidle
    rest := fun f hf => hs.rest f (hrest ▸ hf)
    idle := fun h => absurd h hdrain
    split := fun _ hrefused subs hsubs => (hs.split hidle hrefused subs hsubs).imp_right
      fun hold => { hold with
        counted := ?_
        final := fun f hf => hrest ▸ hold.final f hf
        returned := hreturned } }
  have := hold.counted
  show s.channel.countP Subscription.drops + drain.announcing ≤ queued.length
  omega

/-- The drain queues an UNSUBSCRIBE. -/
theorem Inv.queue (hdrain : s.drain = .announced filter rest) : Inv shared { s with
      channel := s.channel ++ [.unsubscribe [filter]], drain := .queuing rest } := by
  have hidle : s.drain ≠ .idle := by rw [hdrain]; exact nofun
  have hrest := hs.rest
  rw [hdrain] at hrest
  have hrequests : requests { s with
      channel := s.channel ++ [.unsubscribe [filter]], drain := .queuing rest } =
      s.requests ++ [.unsubscribe [filter]] := (append_assoc _ _ _).symm
  refine { hs with
    busy := fun h => ⟨(hs.busy h).1, (hs.busy h).2.1, fun r hr => ?_⟩
    phase := ⟨fun h => absurd (hs.phase.mp h) hidle, nofun⟩
    apart := fun _ => hs.apart hidle
    rest := fun f hf => hrest f (mem_cons_of_mem _ hf)
    idle := nofun
    split := fun _ hrefused subs hsubs => (hs.split hidle hrefused subs hsubs).imp
      (fun hpure => ⟨hpure.subs, fun r hr => ?_⟩) fun hold => ?_
    kept := fun hshort hrefused hloop subs hsubs => ?_ }
  · rcases mem_snoc.mp hr with hr | rfl
    · exact (hs.busy h).2.2 r hr
    · rfl
  · rw [hrequests] at hr
    rcases mem_snoc.mp hr with hr | rfl
    · exact hpure.requests r hr
    · exact fun f hf => by cases hf
  · have hcounted := hold.counted
    have hfinal := hold.final
    rw [hdrain] at hcounted hfinal
    refine ⟨hold.polling, ?_, hold.named, fun f hf => ?_, nofun⟩
    · show (s.channel ++ [_]).countP Subscription.drops + 0 ≤ s.queued.length
      rw [countP_append]
      exact hcounted
    · rw [final_append hrequests] at hf
      obtain ⟨hf, hne⟩ := mem_filter.mp hf
      refine (hfinal f hf).imp_right fun h => (mem_cons.mp h).resolve_left fun h => ?_
      rw [h] at hne
      simp at hne
  · rw [final_append hrequests]
    rcases hs.kept hshort hrefused hloop subs hsubs with hkept | hkept
    · by_cases hc : control = filter
      · exact .inr (hrest control (by rw [hc]; exact mem_cons_self))
      · exact .inl (mem_filter.mpr ⟨hkept, by simpa using hc⟩)
    · exact .inr hkept

/-- The client refuses one. -/
theorem Inv.refuse (hdrain : s.drain = .announced filter rest) :
    Inv shared { s with queued, drain := .queuing rest, refused := true } := by
  have hidle : s.drain ≠ .idle := by rw [hdrain]; exact nofun
  have hrest := hs.rest
  rw [hdrain] at hrest
  exact { hs with
    phase := ⟨fun h => absurd (hs.phase.mp h) hidle, nofun⟩
    apart := fun _ => hs.apart hidle
    rest := fun f hf => hrest f (mem_cons_of_mem _ hf)
    idle := nofun
    split := nofun
    kept := nofun }

/-- **A step apart keeps all this.** -/
theorem Inv.step (hC : s.apart a = true) (h : s.step shared a = some s') : s'.Inv shared := by
  cases a with simp only [ServerSide.step] at h
  | lose =>
    cases h
    exact hs.lose
  | fail =>
    obtain ⟨⟨-, hconn⟩, h⟩ := Option.ite_none_right_eq_some.mp h
    cases h
    exact hs.fail hconn
  | connect =>
    obtain ⟨hloop, h⟩ := Option.ite_none_right_eq_some.mp h
    cases h
    exact hs.connect (by rw [hloop]; exact nofun)
  | forget =>
    obtain ⟨hloop, h⟩ := Option.ite_none_right_eq_some.mp h
    cases h
    exact hs.loops (by rw [hloop]; exact nofun) nofun nofun
  | read sharing =>
    obtain ⟨hloop, h⟩ := Option.ite_none_right_eq_some.mp h
    cases h
    refine hs.loops (by rw [hloop]; exact nofun) (fun hdrain h => ?_) nofun
    have hserving : (sharing && decide (s.phase = .serving)) = true := LoopStage.deciding.inj h
    exact hdrain (hs.phase.mp (of_decide_eq_true (Bool.and_eq_true_iff.mp hserving).2))
  | subscribe =>
    split at h
    · rename_i hloop
      split_ifs at h
      · cases h
        exact hs.subscribe hloop
      · cases h
        exact hs.loops (by rw [hloop]; exact nofun) nofun fun _ => rfl
    · cases h
  | send =>
    split at h
    · rename_i hloop hconn hchannel
      obtain ⟨hpkid, h⟩ := Option.ite_none_left_eq_some.mp h
      split at h
      · cases h
        exact hs.sendUnsubscribe hloop hconn hchannel hpkid
      · cases h
        exact hs.sendSubscribe hloop hconn hchannel hpkid
    · cases h
  | handle =>
    split at h
    · rename_i hconn hwire
      cases h
      exact hs.handle hconn hwire (.inl rfl) (fun h => ⟨h, rfl⟩) fun _ => rfl
    · rename_i channels pkid wire hconn hwire
      split_ifs at h
      · cases h
        exact hs.handle hconn hwire (.inr rfl) (fun h => ⟨h, rfl⟩) fun _ => rfl
      · cases h
        rw [hconn]
        refine hs.handle hconn hwire (.inr rfl) nofun fun hidle => ?_
        cases (hs.idle hidle).1 (.unsubscribe channels)
          (by rw [requests, hwire]; exact mem_cons_self)
    · cases h
  | unsuback =>
    split at h
    · rename_i hacks
      cases h
      exact hs.unsuback hacks
    · cases h
  | drain =>
    obtain ⟨hidle, h⟩ := Option.ite_none_right_eq_some.mp h
    cases h
    exact hs.drain hidle (of_decide_eq_true hC)
  | announce =>
    split at h
    · rename_i filter rest hdrain
      cases h
      refine hs.drained (by rw [hdrain]; exact nofun) nofun (by rw [hdrain]; rfl) ?_ nofun
      rw [hdrain, length_append]
      exact Nat.le_refl _
    · cases h
  | queue =>
    split at h
    · rename_i hdrain
      split_ifs at h
      · cases h
        exact hs.queue hdrain
      · cases h
        exact hs.refuse hdrain
    · cases h
  | wait =>
    obtain ⟨hdrain, h⟩ := Option.ite_none_right_eq_some.mp h
    cases h
    exact hs.drained (by rw [hdrain]; exact nofun) nofun (by rw [hdrain]; rfl)
      (Nat.add_le_add_left (Nat.zero_le _) _) nofun
  | confirm =>
    obtain ⟨⟨hdrain, hzero⟩, h⟩ := Option.ite_none_right_eq_some.mp h
    cases h
    obtain ⟨hqueued, hsent⟩ := Nat.add_eq_zero_iff.mp hzero
    exact hs.drained (by rw [hdrain]; exact nofun) nofun (by rw [hdrain]; rfl)
      (Nat.add_le_add_left (Nat.zero_le _) _) fun _ =>
        ⟨length_eq_zero_iff.mp hqueued, length_eq_zero_iff.mp hsent⟩

end

theorem Inv.init : Inv shared (serverMachine shared).init := by
  refine ⟨fun h => absurd rfl h, nofun, ⟨fun _ => rfl, fun _ => rfl⟩,
    fun h => absurd rfl h, fun f hf => hf, fun _ => ⟨fun r hr => (by cases hr), ?_⟩,
    nodup_nil, fun h => absurd rfl h, ?_⟩
  · rintro subs hsubs f hf
    cases hsubs
    exact hf
  · rintro - - - subs hsubs
    cases hsubs
    exact .inl mem_concat_self

end ServerSide

/-! ## The runs of both links -/

/-- **A draining server does not take its patterns back.** In every run of a Redis server with
some patterns in which the drain does not begin while a resubscription goes by an earlier look at
the phase, in every state after the drain has returned with its unsubscribe accepted or the
connection lost: no connection is subscribed to anything but the control channel or asks for
anything else, and the one in use is subscribed to that. And so in every such run of an MQTT server,
its UNSUBSCRIBEs each accepted or its session lost, where nothing is left to be handled and no
subscription found the channel full. -/
theorem stays_off (patterns shared : List String) :
    (∀ (t : List Redis.Action) (s : Redis.ServerSide),
      (Redis.serverMachine patterns).run t = some s →
      (∀ pre s₀ a, (Redis.serverMachine patterns).TookAt t pre s₀ a → s₀.apart a = true) →
      s.drain = .returned true →
      (∀ x ∈ s.conns, ∀ ch ∈ x.asked, ch = Redis.control) ∧
      ∀ c x, s.lane = .reading c → s.conns[c]? = some x → x.up = true →
        Redis.control ∈ x.subs ∨ Redis.control ∈ patterns) ∧
    ∀ (t : List DrainAction) (s : ServerSide),
      (serverMachine shared).run t = some s →
      (∀ pre s₀ a, (serverMachine shared).TookAt t pre s₀ a → s₀.apart a = true) →
      s.drain = .returned → s.refused = false → ∀ subs, s.conn = some subs →
      ((∀ f ∈ subs, f = control) ∧ ∀ r ∈ s.requests, ∀ f ∈ r.channels, f = control) ∧
      (s.loop = .polling → s.requests = [] → s.short = false →
        control ∈ subs ∨ control ∈ shared) := by
  constructor
  · intro t s h hsteps hdrain
    have hs : s.Inv patterns :=
      Machine.invariant_of_steps (C := fun s a => s.apart a = true) Redis.ServerSide.Inv.init
        (fun _ _ _ hs hC hstep => hs.step hC hstep) hsteps h
    exact hs.returned hdrain
  · intro t s h hsteps hdrain hrefused subs hconn
    have hs : s.Inv shared :=
      Machine.invariant_of_steps (C := fun s a => s.apart a = true) ServerSide.Inv.init
        (fun _ _ _ hs hC hstep => hs.step hC hstep) hsteps h
    refine ⟨hs.returned hdrain hrefused hconn, fun hloop hnone hshort => ?_⟩
    have := hs.kept hshort hrefused hloop subs hconn
    rwa [ServerSide.final, hnone] at this

/-- A Redis server drained, and connected again after a loss. -/
def redisDrained : List Redis.Action :=
  [.drain, .takeSink, .handle 0, .confirm true, .lose 0, .notice, .wake, .connect true, .handle 1,
    .answer true, .replace]

/-- An MQTT server drained on the connection it began on. -/
def mqttDrained : List DrainAction :=
  [.drain, .announce, .queue true, .send 1, .wait, .handle true, .unsuback, .confirm]

/-- Each is left with its control channel. -/
theorem stays_off_drained :
    (∃ s, (Redis.serverMachine ["a"]).run redisDrained = some s ∧ s.lane = .reading 1 ∧
      s.conns[1]? = some { subs := [Redis.control] } ∧
      ∀ x ∈ s.conns, ∀ ch ∈ x.asked, ch = Redis.control) ∧
    ∃ s, (serverMachine ["$share/g/a"]).run mqttDrained = some s ∧ s.conn = some [control] ∧
      ∀ f ∈ [control], f = control := by
  obtain ⟨hredis, hmqtt⟩ := stays_off ["a"] ["$share/g/a"]
  refine ⟨⟨_, rfl, rfl, rfl, (hredis redisDrained _ rfl ?_ rfl).1⟩, _, rfl, rfl,
    (hmqtt mqttDrained _ rfl ?_ rfl rfl _ rfl).1.1⟩
  · exact fun _ _ _ htook => htook.of_checks (C := fun s a => s.apart a) rfl
  · exact fun _ _ _ htook => htook.of_checks (C := fun s a => s.apart a) rfl

/-- The drain begins after the lane has read the phase, and finds the lost connection's sink. -/
def redisRaced : List Redis.Action :=
  [.lose 0, .notice, .wake, .drain, .takeSink, .connect true, .handle 1, .answer true, .replace]

/-- The drain's UNSUBSCRIBE is queued between the look at the phase and the subscription. -/
def mqttRaced : List DrainAction :=
  [.lose, .fail, .connect, .forget, .read true, .drain, .announce, .queue true, .wait,
    .subscribe true, .send 1, .handle true, .unsuback, .confirm, .send 2, .handle true]

/-- **The pattern is taken back** on either link, after the drain has returned. -/
theorem taken_back :
    (∃ s, (Redis.serverMachine ["a"]).run redisRaced = some s ∧ s.drain = .returned true ∧
      s.lane = .reading 1 ∧ s.conns[1]? = some { subs := ["a", Redis.control] }) ∧
    ∃ s, (serverMachine ["$share/g/a"]).run mqttRaced = some s ∧ s.drain = .returned ∧
      s.refused = false ∧ s.loop = .polling ∧ s.requests = [] ∧
      s.conn = some ["$share/g/a", control] :=
  ⟨⟨_, rfl, rfl, rfl, rfl⟩, _, rfl, rfl, rfl, rfl, rfl, rfl⟩

end Ulo.Mqtt
