import Ulo.Rpc.Ids

/-!
# What a link delivers of a call

Two questions about the deliveries of a call: whether those of a call that the
server was handed all reach it, and whether a call whose connection has ended is
told of it.

`forward` ends the inbound stream when the link drains and no call is held. It
polls its queue before it looks at the count, and a call is counted until its
cancel is queued; but the two reads are two steps, and between them a reader may
queue the last cancel and count its call off. The delivery is then behind a stream
that has ended (`late_cancel`). Where no delivery is queued or about to be when
`forward` finds the link idle, nothing of a forwarded call is refused
(`forwarded_in_full`).

A connection's end cancels the calls its ids still hold. A caller that opens a call
under an id in use takes the first call out of them (`reused_id`). So does an ending
reply, also one that finds the connection's writer gone and reaches nobody. Where
neither happens to a forwarded call, and its cancel does not come behind the end of
the stream, the call was answered once its connection has ended, or the server is
told to cancel it (`calls_ended`).
-/

namespace Ulo.Rpc

open List Option AList

/-- A reader with a delivery still to queue that continues or cancels the call. -/
def Reader.mentions (x : ℕ) : Reader → Prop
  | .mapped d => d.frame.continues = some x
  | .draining orphaned _ => x ∈ orphaned
  | _ => False

/-- A reader with the call's cancel still to queue. -/
def Reader.cancelling (x : ℕ) : Reader → Prop
  | .mapped d => d.frame = .cancel x
  | .draining orphaned _ => x ∈ orphaned
  | _ => False

/-- The task of a connection that has taken its live calls out. -/
def Reader.past : Reader → Bool
  | .draining _ _ | .ended => true
  | _ => false

/-- The replies handed to the writer's queue, taken or refused. -/
def Connection.told (c : Connection) : List Reply := c.wire ++ c.unsent

/-- A delivery in the hands of `forward`. -/
def Forward.inHand : Forward → List Delivery
  | .holding d => [d]
  | _ => []

namespace Link

variable {encodes : Frame → Bool} {s s' : Link} {a : LinkAction} {t : List LinkAction}
  {k x j k' : ℕ} {c : Connection} {c' : Connection} {ack : Option (ℕ × ℕ)} {next : ℕ} {o : Opening}

/-! ## What leaves the queue -/

/-- What a step does to the queue, `forward` and what it hands on. -/
inductive FlowStep (s : Link) (a : LinkAction) (s' : Link) : Prop
  | same (hqueue : s'.queue = s.queue) (hqueued : s'.queued = s.queued)
      (hforward : s'.forward = s.forward) (hinbound : s'.inbound = s.inbound)
      (hrefused : s'.refused = s.refused) (hleft : s.left = true → s'.left = true)
  | queued {d : Delivery} (hqueue : s'.queue = s.queue ++ [d])
      (hqueued : s'.queued = s.queued ++ [d]) (hforward : s'.forward = s.forward)
      (hinbound : s'.inbound = s.inbound) (hrefused : s'.refused = s.refused)
      (hleft : s'.left = s.left)
  | took {d : Delivery} {queue : List Delivery} (hforward : s.forward = .polling)
      (hqueue : s.queue = d :: queue) (hs' : s' = { s with forward := .holding d, queue := queue })
  | polled (hforward : s.forward = .polling ∧ s'.forward = .polled ∨
      s.forward = .polled ∧ s'.forward = .polling) (hs' : s' = { s with forward := s'.forward })
  | ended (ha : a = .idle) (hforward : s.forward = .polled) (hdraining : s.draining = true)
      (hheld : s.held = 0) (hs' : s' = { s with forward := .ended })
  | handed {d : Delivery} (hforward : s.forward = .holding d)
      (hs' : s' = { s with
        forward := .polling
        inbound := s.inbound ++ [d]
        acks := s.acks ++ d.ack.toList })
  | refused {d : Delivery} {queue : List Delivery}
      (hd : s.forward = .holding d ∧ s.queue = queue ∧ s.left = true ∨
        s.forward = .ended ∧ s.queue = d :: queue)
      (hqueue : s'.queue = queue) (hqueued : s'.queued = s.queued) (hforward : s'.forward = .ended)
      (hinbound : s'.inbound = s.inbound) (hrefused : s'.refused = s.refused ++ [d])
      (hleft : s'.left = s.left)

theorem release_flow (s : Link) (ack : Option (ℕ × ℕ)) :
    (s.release ack).queue = s.queue ∧ (s.release ack).queued = s.queued ∧
      (s.release ack).forward = s.forward ∧ (s.release ack).inbound = s.inbound ∧
      (s.release ack).refused = s.refused ∧ (s.release ack).left = s.left := by
  rcases s.release_spec ack with heq | ⟨k, x, c, -, -, heq⟩
  · rw [heq]
    exact ⟨rfl, rfl, rfl, rfl, rfl, rfl⟩
  · rw [heq]
    exact ⟨rfl, rfl, rfl, rfl, rfl, rfl⟩

theorem flow_step (h : LinkStep encodes s a s') : FlowStep s a s' := by
  cases h with
  | queue | orphan => exact .queued rfl rfl rfl rfl rfl rfl
  | polled hforward => exact .polled (.inl ⟨hforward, rfl⟩) rfl
  | pending hforward => exact .polled (.inr ⟨hforward, rfl⟩) rfl
  | took hforward hqueue => exact .took hforward hqueue rfl
  | ended hforward hdraining hheld => exact .ended rfl hforward hdraining hheld rfl
  | handed hforward => exact .handed hforward rfl
  | settle =>
    obtain ⟨hqueue, hqueued, hforward, hinbound, hrefused, hleft⟩ := release_flow _ _
    exact .same hqueue hqueued hforward hinbound hrefused fun h => hleft.trans h
  | unreceived hforward hleft =>
    obtain ⟨hqueue, hqueued, hforward', hinbound, hrefused, hleft'⟩ := release_flow _ _
    exact .refused (.inl ⟨hforward, rfl, hleft⟩) hqueue hqueued hforward' hinbound hrefused hleft'
  | refuse hforward hqueue =>
    obtain ⟨hqueue', hqueued, hforward', hinbound, hrefused, hleft'⟩ := release_flow _ _
    exact .refused (.inr ⟨hforward, hqueue⟩) hqueue' hqueued (hforward'.trans hforward) hinbound
      hrefused hleft'
  | leave => exact .same rfl rfl rfl rfl rfl fun _ => rfl
  | accept | asked | event | continued | cancelled | ignored | close | drainIds | lower | replied
  | unsent | cut | write | finish | drain => exact .same rfl rfl rfl rfl rfl fun h => h

/-- **Where every queued delivery is**: handed to the server, refused, in the hands of
`forward`, or still queued, in this order; and none is refused before the end. -/
structure Flow (s : Link) : Prop where
  all : s.queued = s.inbound ++ s.refused ++ s.forward.inHand ++ s.queue
  open_ : s.forward ≠ .ended → s.refused = []

theorem Flow.step (h : s.Flow) (hstep : FlowStep s a s') : s'.Flow := by
  obtain ⟨hall, hopen⟩ := h
  cases hstep with
  | same hqueue hqueued hforward hinbound hrefused =>
    refine ⟨?_, ?_⟩
    · rw [hqueued, hinbound, hrefused, hforward, hqueue, hall]
    · rw [hforward, hrefused]
      exact hopen
  | queued hqueue hqueued hforward hinbound hrefused =>
    refine ⟨?_, ?_⟩
    · rw [hqueued, hinbound, hrefused, hforward, hqueue, hall, append_assoc _ s.queue]
    · rw [hforward, hrefused]
      exact hopen
  | took hforward hqueue hs' =>
    subst hs'
    refine ⟨?_, fun _ => hopen (by rw [hforward]; exact nofun)⟩
    rw [hall, hforward, hqueue]
    simp [Forward.inHand]
  | polled hforward hs' =>
    have hopen' : s.refused = [] := hopen (by
      rcases hforward with ⟨hforward, -⟩ | ⟨hforward, -⟩ <;> rw [hforward] <;> exact nofun)
    rw [hs']
    refine ⟨?_, fun _ => hopen'⟩
    rcases hforward with ⟨hforward, hforward'⟩ | ⟨hforward, hforward'⟩ <;>
      rw [hforward', hall, hforward] <;> rfl
  | ended ha hforward hdraining hheld hs' =>
    subst hs'
    refine ⟨?_, fun hne => absurd rfl hne⟩
    rw [hall, hforward]
    rfl
  | handed hforward hs' =>
    have hopen' : s.refused = [] := hopen (by rw [hforward]; exact nofun)
    subst hs'
    refine ⟨?_, fun _ => hopen'⟩
    rw [hall, hforward, hopen']
    simp [Forward.inHand]
  | refused hd hqueue hqueued hforward hinbound hrefused =>
    refine ⟨?_, fun hne => absurd hforward hne⟩
    rw [hqueued, hinbound, hrefused, hforward, hqueue, hall]
    rcases hd with ⟨hheld, hsame, -⟩ | ⟨hended, hnext⟩
    · have hopen' : s.refused = [] := hopen (by rw [hheld]; exact nofun)
      rw [hheld, hsame, hopen']
      simp [Forward.inHand]
    · rw [hended, hnext]
      simp [Forward.inHand]

/-! ## A call the link has done with -/

/-- Nothing of the call is left on its way. -/
structure Gone (s : Link) (x : ℕ) : Prop where
  known : x < s.nextId
  ids : ∀ (k : ℕ) (c : Connection), s.connections[k]? = some c → x ∉ c.ids.byServer
  readers : ∀ (k : ℕ) (c : Connection), s.connections[k]? = some c → ¬ c.reader.mentions x
  queue : ∀ d ∈ s.queue, d.frame.continues ≠ some x

theorem Gone.of_set (h : s.Gone x) (hconn : s'.connections = s.connections.set k c')
    (hnext : s.nextId ≤ s'.nextId) (hids : x ∉ c'.ids.byServer) (hreader : ¬ c'.reader.mentions x)
    (hqueue : ∀ d ∈ s'.queue, d ∈ s.queue ∨ d.frame.continues ≠ some x) : s'.Gone x where
  known := h.known.trans_le hnext
  ids := hconn ▸ forall_getElem?_set h.ids hids
  readers := hconn ▸ forall_getElem?_set h.readers hreader
  queue d hd := (hqueue d hd).elim (h.queue d) fun hne => hne

/-- The same, with the connections left alone. -/
theorem Gone.of_eq (h : s.Gone x) (hconn : s'.connections = s.connections)
    (hnext : s'.nextId = s.nextId) (hqueue : ∀ d ∈ s'.queue, d ∈ s.queue) : s'.Gone x where
  known := hnext ▸ h.known
  ids k' c' hc := h.ids k' c' (hconn ▸ hc)
  readers k' c' hc := h.readers k' c' (hconn ▸ hc)
  queue d hd := h.queue d (hqueue d hd)

theorem Gone.release (h : s.Gone x) : (s.release ack).Gone x := by
  rcases s.release_spec ack with heq | ⟨k, server, c, -, hc, heq⟩
  · rwa [heq]
  · rw [heq]
    exact h.of_set rfl le_rfl
      (fun hmem => h.ids k c hc (Ids.mem_of_lookup_imp (fun _ => Ids.lookup_of_release) hmem))
      (h.readers k c hc) fun _ => .inl

/-- **What is gone stays gone**: server ids are not handed out again. -/
theorem Gone.step (h : s.Gone x) (hinv : s.Inv) (hstep : LinkStep encodes s a s') : s'.Gone x := by
  -- a call that a caller's id names is in the map
  have hnamed : ∀ {k : ℕ} {c : Connection} {id server : ℕ}, s.connections[k]? = some c →
      c.ids.byCaller.lookup id = some server → server ≠ x := by
    rintro k c id server hc hserver rfl
    exact h.ids k c hc (Ids.mem_byServer_of_lookup (((hinv.fits k c hc).inverse id _).mp hserver))
  cases hstep with
  | accept =>
    exact ⟨h.known, forall_getElem?_concat h.ids (notMem_empty x),
      forall_getElem?_concat h.readers fun hm => hm, h.queue⟩
  | @asked k c f g id hc hr hf hg hgc =>
    refine h.of_set rfl (Nat.le_succ _) (fun hmem => ?_) ?_ fun _ => .inl
    · obtain ⟨v, hv⟩ := isSome_iff_exists.mp (lookup_isSome.mpr hmem)
      rcases Ids.lookup_of_open_ hv with ⟨rfl, -⟩ | ⟨-, hold⟩
      · exact absurd h.known (lt_irrefl _)
      · exact h.ids k c hc (Ids.mem_byServer_of_lookup hold)
    · show ¬ g.continues = some x
      rw [hgc]
      exact nofun
  | @event k c f g hc hr hf hg hgc =>
    refine h.of_set rfl le_rfl (h.ids k c hc) ?_ fun _ => .inl
    show ¬ g.continues = some x
    rw [hgc]
    exact nofun
  | @continued k c f g id server hc hr hf hserver hg hgc =>
    refine h.of_set rfl le_rfl (h.ids k c hc) ?_ fun _ => .inl
    show ¬ g.continues = some x
    rw [hgc]
    exact fun heq => hnamed hc hserver (some.inj heq)
  | @cancelled k c id server hc hr hserver =>
    refine h.of_set rfl le_rfl (fun hmem => ?_) ?_ fun _ => .inl
    · rcases (mem_insert _).mp hmem with rfl | hmem
      · exact hnamed hc hserver rfl
      · exact h.ids k c hc hmem
    · exact fun heq => hnamed hc hserver (some.inj heq)
  | @ignored k c f hc | @close k c hc | @lower k c count hc =>
    exact h.of_set rfl le_rfl (h.ids k c hc) (fun hm => hm) fun _ => .inl
  | @queue k c d hc hr =>
    refine h.of_set rfl le_rfl (h.ids k c hc) (fun hm => hm) fun d' hd' => ?_
    rcases mem_snoc.mp hd' with hd' | hd'
    · exact .inl hd'
    · refine .inr fun hcont => h.readers k c hc ?_
      rw [hd'] at hcont
      rw [hr]
      exact hcont
  | @drainIds k c orphaned hc hr hperm =>
    refine h.of_set rfl le_rfl (fun hmem => ?_) (fun hm => ?_) fun _ => .inl
    · exact h.ids k c hc (Ids.mem_of_lookup_imp (fun _ => Ids.lookup_of_drain) hmem)
    · exact h.ids k c hc (Ids.mem_byServer_of_mem_live (hperm.mem_iff.mp hm))
  | @orphan k c server orphaned count hc hr =>
    have hreader : x ∉ server :: orphaned := by
      have hm := h.readers k c hc
      rw [hr] at hm
      exact hm
    refine h.of_set rfl le_rfl (h.ids k c hc) (fun hm => hreader (mem_cons_of_mem _ hm))
      fun d hd => ?_
    rcases mem_snoc.mp hd with hd | rfl
    · exact .inl hd
    · refine .inr fun heq => hreader ?_
      rw [← some.inj heq]
      exact mem_cons_self
  | @replied k c f id server hc | @cut k c hc =>
    exact h.of_set rfl le_rfl (h.ids k c hc) (h.readers k c hc) fun _ => .inl
  | unsent => exact h
  | write hc =>
    refine h.of_set rfl le_rfl ?_ ?_ fun _ => .inl
    · rw [write_ids]
      exact h.ids _ _ hc
    · rw [write_reader]
      exact h.readers _ _ hc
  | @finish k j c r hc =>
    exact h.of_set rfl le_rfl
      (fun hmem => h.ids k c hc (Ids.mem_of_lookup_imp (fun _ => Ids.lookup_of_finish) hmem))
      (h.readers k c hc) fun _ => .inl
  | settle | unreceived => exact Gone.release (h.of_eq rfl rfl fun _ hd => hd)
  | drain | leave | polled | ended | pending | handed => exact h.of_eq rfl rfl fun _ hd => hd
  | took hforward hqueue =>
    exact h.of_eq rfl rfl fun _ hd => hqueue ▸ mem_cons_of_mem _ hd
  | refuse hforward hqueue =>
    exact Gone.release (h.of_eq rfl rfl fun _ hd => hqueue ▸ mem_cons_of_mem _ hd)

/-! ## Connections in order -/

theorem mem_write_told {r r' : Reply} :
    r' ∈ (write encodes c j r).told ↔ r' ∈ c.told ∨ encodes r.sent = true ∧ r' = r := by
  unfold write Connection.told
  split
  · cases c.writing <;> simp [*] <;> tauto
  · simp [*]

/-- A reply to be forgotten was so before, or is the one just handed to the queue. -/
theorem mem_write_replies {r r' : Reply} (h : r' ∈ (write encodes c j r).replies) :
    r' ∈ c.replies ∨ r' = { r with queued := true } ∧ encodes r.sent = true ∧
      r.frame.ends = true := by
  unfold write at h
  split at h
  · simp only at h
    split at h
    · exact (mem_or_eq_of_mem_set h).imp_right fun h => ⟨h, ‹_›, ‹_›⟩
    · exact .inl (mem_of_mem_eraseIdx h)
  · exact .inl (mem_of_mem_eraseIdx h)

/-- **What is kept of a connection's task and replies**: it owes the cancels it has to
queue; what it has mapped asks for a call with an id that was handed out; past its
reading it has no live call; and a reply that still has to forget its call was handed
to the writer's queue, and ends it. -/
structure Orderly (next : ℕ) (c : Connection) : Prop where
  owed : ∀ orphaned count, c.reader = .draining orphaned count → orphaned.length ≤ count
  mapped : ∀ d, c.reader = .mapped d → ∀ x, d.frame.opens = some x → x < next
  past : c.reader.past = true → ∀ x, c.ids.isLive x = false
  answered : ∀ r ∈ c.replies, r.queued = true →
    ∃ r' ∈ c.told, r'.server = r.server ∧ r'.frame.ends = true

theorem Orderly.later {next' : ℕ} (h : Orderly next c) (hle : next ≤ next') :
    Orderly next' c where
  owed := h.owed
  mapped d hd x hx := (h.mapped d hd x hx).trans_le hle
  past := h.past
  answered := h.answered

theorem Orderly.init : Orderly next {} where
  owed _ _ h := by cases h
  mapped _ h := by cases h
  past h := by cases h
  answered _ h := by cases h

section

variable (h : Orderly next c)
include h

/-- A connection that turns to something else, with fewer live calls. -/
theorem Orderly.turn (hreplies : ∀ r ∈ c'.replies, r ∈ c.replies) (htold : c'.told = c.told)
    (howed : ∀ orphaned count, c'.reader = .draining orphaned count → orphaned.length ≤ count)
    (hmapped : ∀ d, c'.reader = .mapped d → ∀ x, d.frame.opens = some x → x < next)
    (hpast : c'.reader.past = true → ∀ x, c'.ids.isLive x = false) : Orderly next c' where
  owed := howed
  mapped := hmapped
  past := hpast
  answered r hr := by
    rw [htold]
    exact h.answered r (hreplies r hr)

/-- One whose task reads, or has mapped a frame that asks for no call, or has closed. -/
theorem Orderly.idle (hreplies : c'.replies = c.replies) (htold : c'.told = c.told)
    (hmapped : ∀ d, c'.reader = .mapped d → d.frame.opens = none) (hpast : c'.reader.past = false) :
    Orderly next c' := by
  refine h.turn (fun r hr => hreplies ▸ hr) htold (fun _ _ hd => ?_) (fun d hd x hx => ?_)
    fun hpast' => ?_
  · rw [hd] at hpast
    cases hpast
  · rw [hmapped d hd] at hx
    cases hx
  · rw [hpast] at hpast'
    cases hpast'

/-- One with the same task, and ids with fewer live calls. -/
theorem Orderly.fewer (hreader : c'.reader = c.reader) (hreplies : ∀ r ∈ c'.replies, r ∈ c.replies)
    (htold : c'.told = c.told) (hids : ∀ x, c'.ids.isLive x = true → c.ids.isLive x = true) :
    Orderly next c' := by
  refine h.turn hreplies htold ?_ ?_ fun hpast x => ?_
  · rw [hreader]
    exact h.owed
  · rw [hreader]
    exact h.mapped
  · rw [hreader] at hpast
    exact Bool.eq_false_iff.mpr fun hlive => Bool.eq_false_iff.mp (h.past hpast x) (hids x hlive)

theorem Orderly.write {r : Reply} : Orderly next (write encodes c j r) := by
  refine ⟨?_, ?_, ?_, ?_⟩
  · rw [write_reader]
    exact h.owed
  · rw [write_reader]
    exact h.mapped
  · rw [write_reader, write_ids]
    exact h.past
  · intro r' hr' hq
    rcases mem_write_replies hr' with hr' | ⟨rfl, hsent, hends⟩
    · obtain ⟨r₀, hr₀, hends⟩ := h.answered r' hr' hq
      exact ⟨r₀, mem_write_told.mpr (.inl hr₀), hends⟩
    · exact ⟨r, mem_write_told.mpr (.inr ⟨hsent, rfl⟩), rfl, hends⟩

end

/-- All connections are in order, and what was queued asks for calls with ids that
were handed out. -/
structure InOrder (s : Link) : Prop where
  orderly : ∀ (k : ℕ) (c : Connection), s.connections[k]? = some c → Orderly s.nextId c
  queued : ∀ d ∈ s.queued, ∀ x, d.frame.opens = some x → x < s.nextId

theorem InOrder.of_set (h : s.InOrder) (hconn : s'.connections = s.connections.set k c')
    (hnext : s.nextId ≤ s'.nextId) (hc' : Orderly s'.nextId c')
    (hqueued : ∀ d ∈ s'.queued, d ∈ s.queued ∨ ∀ x, d.frame.opens = some x → x < s.nextId) :
    s'.InOrder where
  orderly := hconn ▸ forall_getElem?_set (fun k c hc => (h.orderly k c hc).later hnext) hc'
  queued d hd x hx := by
    rcases hqueued d hd with hd | hd
    · exact (h.queued d hd x hx).trans_le hnext
    · exact (hd x hx).trans_le hnext

theorem InOrder.of_eq (h : s.InOrder) (hconn : s'.connections = s.connections)
    (hnext : s'.nextId = s.nextId) (hqueued : s'.queued = s.queued) : s'.InOrder where
  orderly k c hc := hnext ▸ h.orderly k c (hconn ▸ hc)
  queued := by
    rw [hqueued, hnext]
    exact h.queued

theorem InOrder.release (h : s.InOrder) : (s.release ack).InOrder := by
  rcases s.release_spec ack with heq | ⟨k, server, c, -, hc, heq⟩
  · rwa [heq]
  · rw [heq]
    exact h.of_set rfl le_rfl ((h.orderly k c hc).fewer rfl (fun _ hr => hr) rfl fun _ =>
      Ids.isLive_of_lookup_imp fun _ => Ids.lookup_of_release) fun _ => .inl

theorem InOrder.init : InOrder {} where
  orderly k c hc := by cases hc
  queued d hd := by cases hd

/-- **Every step keeps the connections in order.** -/
theorem InOrder.step (h : s.InOrder) (hstep : LinkStep encodes s a s') : s'.InOrder := by
  cases hstep with
  | accept => exact ⟨forall_getElem?_concat h.orderly .init, h.queued⟩
  | @asked k c f g id hc hr hf hg =>
    refine h.of_set rfl (Nat.le_succ _) ?_ fun _ => .inl
    refine ((h.orderly k c hc).later (Nat.le_succ _)).turn (fun _ hr => hr) rfl ?_ ?_ ?_
    · exact nofun
    · intro d hd x hx
      cases hd
      rw [hg] at hx
      cases hx
      exact Nat.lt_succ_self _
    · exact nofun
  | @event k c f g hc hr hf hg | @continued k c f g id server hc hr hf hserver hg =>
    refine h.of_set rfl le_rfl ((h.orderly k c hc).idle rfl rfl (fun d hd => ?_) rfl) fun _ => .inl
    cases hd
    exact hg
  | @cancelled k c id server hc =>
    refine h.of_set rfl le_rfl ((h.orderly k c hc).idle rfl rfl (fun d hd => ?_) rfl) fun _ => .inl
    cases hd
    rfl
  | @ignored k c f hc | @close k c hc =>
    refine h.of_set rfl le_rfl ((h.orderly k c hc).idle rfl rfl (fun d hd => ?_) rfl) fun _ => .inl
    cases hd
  | @queue k c d hc hr =>
    refine h.of_set rfl le_rfl ((h.orderly k c hc).idle rfl rfl (fun d hd => ?_) rfl)
      fun d' hd' => ?_
    · cases hd
    · rcases mem_snoc.mp hd' with hd' | hd'
      · exact .inl hd'
      · rw [hd']
        exact .inr ((h.orderly k c hc).mapped d hr)
  | @drainIds k c orphaned hc hr hperm =>
    refine h.of_set rfl le_rfl ((h.orderly k c hc).turn (fun _ hr => hr) rfl (fun _ _ hd => ?_)
      (fun d hd => ?_) fun _ x => Ids.isLive_drain hperm) fun _ => .inl
    · cases hd
      exact le_rfl
    · cases hd
  | @orphan k c server orphaned count hc hr =>
    have hold := h.orderly k c hc
    refine h.of_set rfl le_rfl (hold.turn (fun _ hr => hr) rfl (fun _ _ hd => ?_)
      (fun d hd => ?_) fun _ => hold.past (by rw [hr]; rfl)) fun d hd => ?_
    · cases hd
      exact Nat.le_of_succ_le (hold.owed _ _ hr)
    · cases hd
    · rcases mem_snoc.mp hd with hd | rfl
      · exact .inl hd
      · exact .inr fun x hx => by cases hx
  | @lower k c count hc hr =>
    have hold := h.orderly k c hc
    refine h.of_set rfl le_rfl (hold.turn (fun _ hr => hr) rfl (fun _ _ hd => ?_)
      (fun d hd => ?_) fun _ => hold.past (by rw [hr]; rfl)) fun _ => .inl
    · cases hd
    · cases hd
  | @replied k c f id server hc =>
    have hold := h.orderly k c hc
    refine h.of_set rfl le_rfl ⟨hold.owed, hold.mapped, hold.past, fun r hr hq => ?_⟩ fun _ => .inl
    rcases mem_snoc.mp hr with hr | rfl
    · exact hold.answered r hr hq
    · cases hq
  | unsent => exact h
  | @cut k c hc => exact h.of_set rfl le_rfl ((h.orderly k c hc).fewer rfl (fun _ hr => hr) rfl
      fun _ hlive => hlive) fun _ => .inl
  | @write k j c r hc => exact h.of_set rfl le_rfl (h.orderly k c hc).write fun _ => .inl
  | @finish k j c r hc hr =>
    exact h.of_set rfl le_rfl ((h.orderly k c hc).fewer rfl
      (fun _ hr => mem_of_mem_eraseIdx hr) rfl fun _ =>
        Ids.isLive_of_lookup_imp fun _ => Ids.lookup_of_finish) fun _ => .inl
  | settle | unreceived | refuse =>
    exact InOrder.release (h.of_eq rfl rfl rfl)
  | drain | leave | polled | took | ended | pending | handed => exact h.of_eq rfl rfl rfl

/-! ## The calls the server was handed -/

/-- The server was handed the call's request. -/
def Forwarded (s : Link) (x : ℕ) : Prop := ∃ d ∈ s.inbound, d.frame.opens = some x

/-- Where `forward` is about to end the stream, no delivery is queued and no reader is
about to queue one. -/
def Calm (s : Link) (a : LinkAction) : Prop :=
  a = .idle → s.draining = true → s.held = 0 →
    s.queue = [] ∧ ∀ (k : ℕ) (c : Connection), s.connections[k]? = some c →
      ∀ d, c.reader ≠ .mapped d

/-- **The invariant of the deliveries**: past the end of the stream nothing of a
forwarded call is on its way, and none was refused. -/
structure Delivering (s : Link) : Prop where
  inv : s.Inv
  flow : s.Flow
  order : s.InOrder
  gone : s.left = false → s.forward = .ended → ∀ x, s.Forwarded x → s.Gone x
  spared : s.left = false → ∀ d ∈ s.refused, ∀ x, d.frame.continues = some x → ¬ s.Forwarded x

theorem Delivering.known (h : s.Delivering) (hx : s.Forwarded x) : x < s.nextId := by
  obtain ⟨d, hd, hx⟩ := hx
  refine h.order.queued d ?_ x hx
  rw [h.flow.all, append_assoc, append_assoc]
  exact mem_append_left _ hd

/-- **An idle link** has nothing on its way, where no delivery is queued or about to
be: what is held is counted. -/
theorem Delivering.gone_of_idle (h : s.Delivering) (hheld : s.held = 0) (hqueue : s.queue = [])
    (hreaders : ∀ (k : ℕ) (c : Connection), s.connections[k]? = some c → ∀ d, c.reader ≠ .mapped d)
    (hx : x < s.nextId) : s.Gone x where
  known := hx
  ids k c hc hmem := by
    have hle := h.inv.holds_le hc
    rw [hheld, Connection.holds, Ids.count] at hle
    have hnil : c.ids.byServer.keys = [] := length_eq_zero_iff.mp (by omega)
    have hkey := AList.mem_keys.mp hmem
    rw [hnil] at hkey
    cases hkey
  readers k c hc hm := by
    have hle := h.inv.holds_le hc
    cases hr : c.reader with
    | mapped d => exact hreaders k c hc d hr
    | draining orphaned count =>
      have howed := (h.order.orderly k c hc).owed orphaned count hr
      rw [hheld, Connection.holds, hr, Reader.owed] at hle
      have hnil : orphaned = [] := length_eq_zero_iff.mp (by omega)
      rw [hr, hnil] at hm
      cases hm
    | reading | closed | ended =>
      rw [hr] at hm
      exact hm
  queue d hd := by
    rw [hqueue] at hd
    cases hd

/-- **Every calm step keeps the invariant.** -/
theorem Delivering.step (h : s.Delivering) (hcalm : s.Calm a)
    (hstep : (linkMachine encodes).step s a = some s') : s'.Delivering := by
  have hspec : LinkStep encodes s a s' := step_spec hstep
  have hflow : FlowStep s a s' := flow_step hspec
  have hgone : ∀ x, s.Gone x → s'.Gone x := fun x hx => hx.step h.inv hspec
  refine ⟨h.inv.step hstep, h.flow.step hflow, h.order.step hspec, fun hleft hended x hx => ?_,
    fun hleft d hd x hcont hx => ?_⟩
  · -- past the end a call is gone: it was before, or the stream ends in this step
    cases hflow with
    | same hqueue hqueued hforward hinbound hrefused hleft' =>
      refine hgone x (h.gone ?_ (hforward ▸ hended) x ?_)
      · exact Bool.eq_false_iff.mpr fun hl => Bool.eq_false_iff.mp hleft (hleft' hl)
      · rwa [Forwarded, hinbound] at hx
    | queued hqueue hqueued hforward hinbound hrefused hleft' =>
      refine hgone x (h.gone (hleft' ▸ hleft) (hforward ▸ hended) x ?_)
      rwa [Forwarded, hinbound] at hx
    | took hforward hqueue hs' | handed hforward hs' =>
      rw [hs'] at hended
      cases hended
    | polled hforward =>
      rcases hforward with ⟨-, hforward⟩ | ⟨-, hforward⟩ <;> cases hforward.symm.trans hended
    | ended ha hforward hdraining hheld hs' =>
      obtain ⟨hqueue, hreaders⟩ := hcalm ha hdraining hheld
      rw [hs'] at hx
      exact hgone x (h.gone_of_idle hheld hqueue hreaders (h.known hx))
    | refused hd hqueue hqueued hforward hinbound hrefused hleft' =>
      rw [hleft'] at hleft
      rw [Forwarded, hinbound] at hx
      rcases hd with ⟨-, -, hl⟩ | ⟨hended, -⟩
      · cases hl.symm.trans hleft
      · exact hgone x (h.gone hleft hended x hx)
  · cases hflow with
    | same hqueue hqueued hforward hinbound hrefused hleft' =>
      rw [Forwarded, hinbound] at hx
      refine h.spared ?_ d (hrefused ▸ hd) x hcont hx
      exact Bool.eq_false_iff.mpr fun hl => Bool.eq_false_iff.mp hleft (hleft' hl)
    | queued hqueue hqueued hforward hinbound hrefused hleft' =>
      rw [Forwarded, hinbound] at hx
      exact h.spared (hleft' ▸ hleft) d (hrefused ▸ hd) x hcont hx
    | took hforward hqueue hs' | ended ha hforward hdraining hheld hs' =>
      subst hs'
      exact h.spared hleft d hd x hcont hx
    | polled hforward hs' =>
      rw [hs'] at hleft hd hx
      exact h.spared hleft d hd x hcont hx
    | handed hforward hs' =>
      rw [hs', show s.refused = [] from h.flow.open_ (by rw [hforward]; exact nofun)] at hd
      cases hd
    | refused hd' hqueue hqueued hforward hinbound hrefused hleft' =>
      rw [hleft'] at hleft
      rw [Forwarded, hinbound] at hx
      rw [hrefused] at hd
      rcases mem_snoc.mp hd with hd | rfl
      · exact h.spared hleft d hd x hcont hx
      · rcases hd' with ⟨-, -, hl⟩ | ⟨hended, hnext⟩
        · cases hl.symm.trans hleft
        · refine (h.gone hleft hended x hx).queue _ ?_ hcont
          rw [hnext]
          exact mem_cons_self

theorem Delivering.init : Delivering {} where
  inv := .init
  flow := ⟨rfl, fun _ => rfl⟩
  order := .init
  gone _ hended := by cases hended
  spared _ d hd := by cases hd

theorem delivering (h : (linkMachine encodes).run t = some s)
    (hcalm : ∀ pre s₀ a, (linkMachine encodes).TookAt t pre s₀ a → s₀.Calm a) : s.Delivering :=
  Machine.invariant_of_steps (P := Delivering) .init (fun _ _ _ hs hc => hs.step hc) hcalm h

/-- What was queued of a forwarded call is not refused, and where it is. -/
theorem Delivering.handed (h : s.Delivering) (hleft : s.left = false) (hx : s.Forwarded x)
    {d : Delivery} (hd : d ∈ s.queued) (hcont : d.frame.continues = some x) :
    d ∉ s.refused ∧
      (d ∈ s.inbound ∨ s.forward ≠ .ended ∧ (d ∈ s.forward.inHand ∨ d ∈ s.queue)) := by
  have hspared : d ∉ s.refused := fun hd => h.spared hleft d hd x hcont hx
  refine ⟨hspared, ?_⟩
  rw [h.flow.all, mem_append, mem_append, mem_append] at hd
  rcases hd with ((hd | hd) | hd) | hd
  · exact .inl hd
  · exact absurd hd hspared
  · refine .inr ⟨fun hended => ?_, .inl hd⟩
    rw [hended] at hd
    cases hd
  · exact .inr ⟨fun hended => (h.gone hleft hended x hx).queue d hd hcont, .inr hd⟩

/-- **Nothing of a forwarded call is refused**, in every run in which the stream ends
only where no delivery is queued or about to be: while the server receives, what was
queued of a call it was handed has been handed to it as well, or is on its way. -/
theorem forwarded_in_full (h : (linkMachine encodes).run t = some s)
    (hcalm : ∀ pre s₀ a, (linkMachine encodes).TookAt t pre s₀ a → s₀.Calm a)
    (hleft : s.left = false) (hx : s.Forwarded x) {d : Delivery} (hd : d ∈ s.queued)
    (hcont : d.frame.continues = some x) :
    d ∉ s.refused ∧
      (d ∈ s.inbound ∨ s.forward ≠ .ended ∧ (d ∈ s.forward.inHand ∨ d ∈ s.queue)) := by
  exact (delivering h hcalm).handed hleft hx hd hcont

/-- A forwarded call whose connection ends, with its cancel handed on before the link
drains. -/
def drainedCall : List LinkAction :=
  [.accept, .frame 0 (.req 7 "p" [] []), .queue 0, .poll, .hand, .close 0, .drainIds 0 [0],
    .orphan 0, .poll, .hand, .lower 0, .drain, .poll]

/-- The link after some actions. -/
def linkAfter (t : List LinkAction) : Link := ((linkMachine fun _ => true).run t).getD {}

theorem forwarded_in_full_drained :
    (linkAfter (drainedCall ++ [.idle])).forward = .ended ∧
      ({ frame := .cancel 0, reply := none } : Delivery) ∉
        (linkAfter (drainedCall ++ [.idle])).refused := by
  have hrun : (linkMachine fun _ => true).run (drainedCall ++ [.idle]) =
      some (linkAfter (drainedCall ++ [.idle])) := rfl
  have hcalm : ∀ pre s₀ a, (linkMachine fun _ => true).TookAt (drainedCall ++ [.idle]) pre s₀ a →
      s₀.Calm a := by
    rintro pre s₀ a htook rfl - -
    obtain ⟨hqueue, hreaders⟩ := Bool.and_eq_true_iff.mp <| htook.of_checks (C := fun s a =>
      match a with
      | .idle => s.queue.isEmpty && s.connections.all (·.reader matches .ended)
      | _ => true) rfl
    refine ⟨isEmpty_iff.mp hqueue, fun k c hc d hd => ?_⟩
    have hended := all_eq_true.mp hreaders c (mem_of_getElem? hc)
    rw [hd] at hended
    cases hended
  exact ⟨rfl,
    (forwarded_in_full (x := 0) hrun hcalm rfl ⟨_, .head _, rfl⟩ (.tail _ (.head _)) rfl).1⟩

/-- **A cancel behind the end of the stream**: `forward` has polled its empty queue when
the reader queues the cancel of a forwarded call and lowers the count. -/
theorem late_cancel :
    ∃ s d, (linkMachine fun _ => true).run
        [.accept, .frame 0 (.req 7 "p" [] []), .queue 0, .poll, .hand, .drain, .poll, .close 0,
          .drainIds 0 [0], .orphan 0, .lower 0, .idle, .refuse] = some s ∧
      s.left = false ∧ s.Forwarded 0 ∧ d ∈ s.queued ∧ d.frame = .cancel 0 ∧ d ∈ s.refused :=
  ⟨_, { frame := .cancel 0, reply := none }, rfl, rfl, ⟨_, .head _, rfl⟩, .tail _ (.head _), rfl,
    .head _⟩

/-! ## The calls of a connection that has ended -/

/-- A call is accounted for: live, about to be cancelled, answered with an ending
reply, or cancelled. -/
inductive Accounted (queued : List Delivery) (c : Connection) (x : ℕ) : Prop
  | live (h : c.ids.isLive x = true)
  | cancelling (h : c.reader.cancelling x)
  | answered {r : Reply} (hr : r ∈ c.told) (hserver : r.server = x) (hends : r.frame.ends = true)
  | cancelled {d : Delivery} (hd : d ∈ queued) (hframe : d.frame = .cancel x)

theorem Accounted.turn {queued queued' : List Delivery} (h : Accounted queued c x)
    (hqueued : ∀ d ∈ queued, d ∈ queued') (htold : ∀ r ∈ c.told, r ∈ c'.told)
    (hlive : c.ids.isLive x = true → Accounted queued' c' x)
    (hcancelling : c.reader.cancelling x → Accounted queued' c' x) : Accounted queued' c' x := by
  cases h with
  | live h => exact hlive h
  | cancelling h => exact hcancelling h
  | answered hr hserver hends => exact .answered (htold _ hr) hserver hends
  | cancelled hd hframe => exact .cancelled (hqueued _ hd) hframe

/-- **The call is accounted for**, once it is opened. -/
def Tracked (s : Link) (o : Opening) : Prop :=
  o ∈ s.opened → ∃ c, s.connections[o.connection]? = some c ∧ Accounted s.queued c o.server

/-- Whether a frame opens a call in the place of another one, under whose id it comes. -/
def replaces (s : Link) (o : Opening) : LinkAction → Bool
  | .frame k f => k == o.connection &&
      (s.connections[k]?.bind fun c => f.opens.bind c.ids.server) == some o.server
  | _ => false

/-- A changed connection keeps its calls accounted for, or is another one. -/
theorem Tracked.of_set (h : s.Tracked o) (hc : s.connections[k']? = some c)
    (hconn : s'.connections = s.connections.set k' c') (hopened : s'.opened = s.opened)
    (hqueued : ∀ d ∈ s.queued, d ∈ s'.queued)
    (hacc : ∀ x, Accounted s.queued c x → Accounted s'.queued c' x) : s'.Tracked o := by
  intro ho
  rw [hopened] at ho
  obtain ⟨c₀, hc₀, hold⟩ := h ho
  by_cases hkk : k' = o.connection
  · rw [← hkk, hc] at hc₀
    cases hc₀
    refine ⟨c', ?_, hacc _ hold⟩
    rw [hconn, ← hkk, List.getElem?_set_self (List.getElem?_eq_some_iff.mp hc).1]
  · refine ⟨c₀, ?_, hold.turn hqueued (fun _ hr => hr) .live .cancelling⟩
    rw [hconn, getElem?_set_ne hkk, hc₀]

theorem Tracked.of_eq (h : s.Tracked o) (hconn : s'.connections = s.connections)
    (hopened : s'.opened = s.opened) (hqueued : s'.queued = s.queued) : s'.Tracked o := by
  intro ho
  rw [hqueued, hconn]
  exact h (hopened ▸ ho)

theorem Tracked.release (h : s.Tracked o)
    (hack : ∀ k x, ack = some (k, x) → ∀ c, s.connections[k]? = some c → c.ids.isLive x = false) :
    (s.release ack).Tracked o := by
  rcases s.release_spec ack with heq | ⟨k', server, c, hkx, hc, heq⟩
  · rwa [heq]
  · rw [heq]
    refine h.of_set hc rfl rfl (fun _ hd => hd) fun x hx =>
      hx.turn (fun _ hd => hd) (fun _ hr => hr) (fun hlive => .live ?_) fun hcancel =>
        .cancelling hcancel
    obtain ⟨id, hid⟩ := Ids.isLive_iff.mp hlive
    have hne : x ≠ server := by
      rintro rfl
      exact Bool.eq_false_iff.mp (hack k' x hkx c hc) hlive
    refine Ids.isLive_iff.mpr ⟨id, ?_⟩
    rw [Ids.lookup_release, if_neg hne, hid]

/-- A call opens, not in the place of this one. -/
theorem Tracked.asked {id : ℕ} {g : Frame} (h : s.Tracked o) (hc : s.connections[k]? = some c)
    (hr : c.reader = .reading)
    (hother : k = o.connection → c.ids.byCaller.lookup id ≠ some o.server)
    (hknown : ∀ x ∈ c.ids.byServer, x < s.nextId) : Tracked ((s.opening k c id).put k
      { c with
        ids := c.ids.open_ id s.nextId
        reader := .mapped { frame := g, reply := some k } }) o := by
  have hset : ∀ c' : Connection, (s.connections.set k c')[k]? = some c' := fun c' =>
    List.getElem?_set_self (List.getElem?_eq_some_iff.mp hc).1
  intro ho
  rcases mem_snoc.mp ho with ho | rfl
  · obtain ⟨c₀, hc₀, hold⟩ := h ho
    by_cases hk : k = o.connection
    · rw [← hk, hc] at hc₀
      cases hc₀
      rw [← hk]
      refine ⟨_, hset _, hold.turn (fun _ hd => hd) (fun _ hr => hr) (fun hlive => .live ?_)
        fun hcancel => ?_⟩
      · obtain ⟨id', hid⟩ := Ids.isLive_iff.mp hlive
        have hlt := hknown _ (Ids.mem_byServer_of_lookup hid)
        refine Ids.isLive_iff.mpr ⟨id', ?_⟩
        rw [Ids.lookup_open_, if_neg hlt.ne, if_neg (hother hk), hid]
      · rw [hr] at hcancel
        cases hcancel
    · exact ⟨c₀, (getElem?_set_ne hk).trans hc₀, hold⟩
  · refine ⟨_, hset _, .live (Ids.isLive_iff.mpr ⟨id, ?_⟩)⟩
    rw [Ids.lookup_open_, if_pos rfl]

/-- A call accounted for stays so where its connection only turns from reading. -/
theorem Accounted.of_reading {queued queued' : List Delivery} (h : Accounted queued c x)
    (hr : c.reader = .reading) (hqueued : queued' = queued) (htold : c'.told = c.told)
    (hids : c'.ids = c.ids) : Accounted queued' c' x := by
  subst hqueued
  refine h.turn (fun _ hd => hd) (fun r hr => htold ▸ hr) (fun hlive => .live (hids ▸ hlive))
    fun hcancel => ?_
  rw [hr] at hcancel
  cases hcancel

/-- **Every step keeps a call accounted for**, where none is opened in its place. -/
theorem Tracked.step (h : s.Tracked o) (hinv : s.Inv) (horder : s.InOrder)
    (hother : s.replaces o a = false) (hstep : LinkStep encodes s a s') : s'.Tracked o := by
  cases hstep with
  | accept =>
    intro ho
    obtain ⟨c, hc, hold⟩ := h ho
    exact ⟨c, (List.getElem?_append_left (List.getElem?_eq_some_iff.mp hc).1).trans hc, hold⟩
  | @asked k' c f g id hc hr hf =>
    refine h.asked hc hr (fun hk hid => ?_) (hinv.fits k' c hc).known
    simp [replaces, ← hk, hc, hf, Ids.server, hid] at hother
  | @event k' c f g hc hr | @continued k' c f g id server hc hr | @ignored k' c f hc hr
  | @close k' c hc hr =>
    exact h.of_set hc rfl rfl (fun _ hd => hd) fun x hx => hx.of_reading hr rfl rfl rfl
  | @cancelled k' c id server hc hr =>
    refine h.of_set hc rfl rfl (fun _ hd => hd) fun x hx =>
      hx.turn (fun _ hd => hd) (fun _ hr => hr) (fun hlive => ?_) fun hcancel => ?_
    · by_cases hx : x = server
      · rw [hx]
        exact .cancelling rfl
      · obtain ⟨id', hid⟩ := Ids.isLive_iff.mp hlive
        refine .live (Ids.isLive_iff.mpr ⟨id', ?_⟩)
        rw [Ids.lookup_cancel, if_neg hx, hid]
    · rw [hr] at hcancel
      cases hcancel
  | @queue k' c d hc hr =>
    refine h.of_set hc rfl rfl (fun _ hd => mem_append_left _ hd) fun x hx =>
      hx.turn (fun _ hd => mem_append_left _ hd) (fun _ hr => hr) (fun hlive => .live hlive)
        fun hcancel => ?_
    rw [hr] at hcancel
    exact .cancelled (mem_concat_self) hcancel
  | @drainIds k' c orphaned hc hr hperm =>
    refine h.of_set hc rfl rfl (fun _ hd => hd) fun x hx =>
      hx.turn (fun _ hd => hd) (fun _ hr => hr) (fun hlive => ?_) fun hcancel => ?_
    · exact .cancelling (hperm.mem_iff.mpr (Ids.mem_live.mpr hlive))
    · rw [hr] at hcancel
      cases hcancel
  | @orphan k' c server orphaned count hc hr =>
    refine h.of_set hc rfl rfl (fun _ hd => mem_append_left _ hd) fun x hx =>
      hx.turn (fun _ hd => mem_append_left _ hd) (fun _ hr => hr) (fun hlive => .live hlive)
        fun hcancel => ?_
    rw [hr] at hcancel
    rcases mem_cons.mp hcancel with rfl | hcancel
    · exact .cancelled (mem_concat_self) rfl
    · exact .cancelling hcancel
  | @lower k' c count hc hr =>
    refine h.of_set hc rfl rfl (fun _ hd => hd) fun x hx =>
      hx.turn (fun _ hd => hd) (fun _ hr => hr) (fun hlive => .live hlive) fun hcancel => ?_
    rw [hr] at hcancel
    cases hcancel
  | @replied k' c f id server hc | @cut k' c hc =>
    exact h.of_set hc rfl rfl (fun _ hd => hd) fun x hx =>
      hx.turn (fun _ hd => hd) (fun _ hr => hr) (fun hlive => .live hlive)
        fun hcancel => .cancelling hcancel
  | unsent => exact h
  | @write k' j c r hc hr =>
    refine h.of_set hc rfl rfl (fun _ hd => hd) fun x hx =>
      hx.turn (fun _ hd => hd) (fun _ hr => mem_write_told.mpr (.inl hr)) (fun hlive => .live ?_)
        fun hcancel => .cancelling ?_
    · rwa [write_ids]
    · rwa [write_reader]
  | @finish k' j c r hc hr hq =>
    refine h.of_set hc rfl rfl (fun _ hd => hd) fun x hx =>
      hx.turn (fun _ hd => hd) (fun _ hr => hr) (fun hlive => ?_) fun hcancel => .cancelling hcancel
    by_cases hx : x = r.server
    · obtain ⟨r', hr', hserver, hends⟩ :=
        (horder.orderly k' c hc).answered r (mem_of_getElem? hr) hq
      exact .answered hr' (hserver.trans hx.symm) hends
    · exact .live (Ids.isLive_finish hx hlive)
  | @settle i ack hack =>
    refine Tracked.release (h.of_eq rfl rfl rfl) fun k x hkx c hc => ?_
    cases hkx
    exact ((hinv.fits k c hc).acked x (.taken (mem_of_getElem? hack))).2
  | @unreceived d hforward =>
    refine Tracked.release (h.of_eq rfl rfl rfl) fun k x hack c hc => ?_
    exact ((hinv.fits k c hc).acked x (.onWay (.held hforward) hack)).2
  | @refuse d queue hforward hqueue =>
    refine Tracked.release (h.of_eq rfl rfl rfl) fun k x hack c hc => ?_
    refine ((hinv.fits k c hc).acked x (.onWay (.queued ?_) hack)).2
    rw [hqueue]
    exact mem_cons_self
  | drain | leave | polled | took | ended | pending | handed => exact h.of_eq rfl rfl rfl

/-- **A connection that has ended leaves no forwarded call behind**, in every run in
which no call is opened in the place of this one, the stream ends only where no
delivery is queued or about to be, and no ending reply to it finds the writer gone:
while the server receives, an ending reply to the call was queued for the wire, or its
cancel has been handed to the server or is on its way. -/
theorem calls_ended (h : (linkMachine encodes).run t = some s)
    (hsteps : ∀ pre s₀ a, (linkMachine encodes).TookAt t pre s₀ a →
      s₀.Calm a ∧ s₀.replaces o a = false)
    (hleft : s.left = false) (ho : o ∈ s.opened) (hx : s.Forwarded o.server)
    (hc : s.connections[o.connection]? = some c) (hended : c.reader = .ended)
    (hsent : ∀ r ∈ c.unsent, r.server = o.server → r.frame.ends = false) :
    (∃ r ∈ c.wire, r.server = o.server ∧ r.frame.ends = true) ∨
      ∃ d : Delivery, d.frame = .cancel o.server ∧
        (d ∈ s.inbound ∨ s.forward ≠ .ended ∧ (d ∈ s.forward.inHand ∨ d ∈ s.queue)) := by
  have hs : s.Delivering := delivering h fun pre s₀ a htook => (hsteps pre s₀ a htook).1
  have htracked : s.Tracked o := by
    refine (Machine.invariant_of_steps (P := fun s => s.Delivering ∧ s.Tracked o)
      ⟨.init, fun ho => by cases ho⟩ ?_ hsteps h).2
    rintro s a s' ⟨hs, htracked⟩ ⟨hcalm, hother⟩ hstep
    exact ⟨hs.step hcalm hstep, htracked.step hs.inv hs.order hother (step_spec hstep)⟩
  obtain ⟨c', hc', hacc⟩ := htracked ho
  rw [hc] at hc'
  cases hc'
  cases hacc with
  | live hlive =>
    have hdead := (hs.order.orderly _ c hc).past (by rw [hended]; rfl) o.server
    exact absurd hlive (Bool.eq_false_iff.mp hdead)
  | cancelling hcancel =>
    rw [hended] at hcancel
    cases hcancel
  | answered hr hserver hends =>
    rcases mem_append.mp hr with hr | hr
    · exact .inl ⟨_, hr, hserver, hends⟩
    · cases hends.symm.trans (hsent _ hr hserver)
  | cancelled hd hframe =>
    exact .inr ⟨_, hframe, (hs.handed hleft hx hd (by rw [hframe]; rfl)).2⟩

/-- A forwarded call whose connection closes, with its cancel handed on. -/
def closedCall : List LinkAction :=
  [.accept, .frame 0 (.req 7 "p" [] []), .queue 0, .poll, .hand, .close 0, .drainIds 0 [0],
    .orphan 0, .lower 0, .poll, .hand]

theorem calls_ended_closed :
    ∃ d ∈ (linkAfter closedCall).inbound, d.frame = .cancel 0 := by
  have hrun : (linkMachine fun _ => true).run closedCall = some (linkAfter closedCall) := rfl
  have hsteps : ∀ pre s₀ a, (linkMachine fun _ => true).TookAt closedCall pre s₀ a →
      s₀.Calm a ∧ s₀.replaces ⟨0, 7, 0⟩ a = false := by
    refine fun pre s₀ a htook => ⟨?_, ?_⟩
    · rintro rfl
      exact absurd (htook.of_checks (C := fun _ a => !a matches .idle) rfl) (by decide)
    · exact Bool.not_eq_true' _ ▸ htook.of_checks (C := fun s a => !s.replaces ⟨0, 7, 0⟩ a) rfl
  rcases calls_ended (o := ⟨0, 7, 0⟩) hrun hsteps rfl (.head _) ⟨_, .head _, rfl⟩ rfl rfl
      (fun r hr => by cases hr) with ⟨r, hr, -⟩ | ⟨d, hd, hin | ⟨-, hway | hway⟩⟩
  · cases hr
  · exact ⟨d, hin, hd⟩
  · cases hway
  · cases hway

/-- **An orphaned call**: its caller opens another one under the same id, and the
connection's end cancels only that one. -/
theorem reused_id :
    ∃ s c, (linkMachine fun _ => true).run
        [.accept, .frame 0 (.req 7 "p" [] []), .queue 0, .poll, .hand,
          .frame 0 (.req 7 "p" [] []), .queue 0, .poll, .hand, .close 0, .drainIds 0 [1],
          .orphan 0, .lower 0, .poll, .hand] = some s ∧
      s.connections[0]? = some c ∧ c.reader = .ended ∧ s.opened = [⟨0, 7, 0⟩, ⟨0, 7, 1⟩] ∧
      c.wire = [] ∧ c.replies = [] ∧ s.queue = [] ∧ s.left = false ∧
      s.inbound.map (·.frame) = [.req 0 "p" [] [], .req 1 "p" [] [], .cancel 1] :=
  ⟨_, _, rfl, rfl, rfl, rfl, rfl, rfl, rfl, rfl, rfl⟩

end Link

end Ulo.Rpc
