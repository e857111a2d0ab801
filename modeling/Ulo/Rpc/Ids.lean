import Ulo.Rpc.Link

/-!
# The ids of a link's calls

The two maps of a connection's `Ids` are changed by six operations, from the tasks
of several parties, each under the connection's lock. `ids_consistent` says what
every run keeps: the caller's map and the live entries of the server's are inverse
to each other, no server id is handed out twice, and `held` counts the entries of
all connections together with the calls a connection's end has taken out and not
counted off yet.

A reply is written under the id its lookup found. At the lookup that id's latest
call is the one replied to; by the time the reply is queued for the wire the caller
may have opened another call under it (`stale_reply`).
-/

namespace Ulo.Rpc

open List Option AList Bool

variable {ids' : Ids}

namespace Ids

variable {ids : Ids} {id caller server x : ℕ} {v : Caller} {orphaned : List ℕ}

/-- **The caller's map and the live part of the server's** are inverse. -/
def Inverse (ids : Ids) : Prop :=
  ∀ id x, ids.byCaller.lookup id = some x ↔ ids.byServer.lookup x = some (.live id)

theorem isLive_iff : ids.isLive x = true ↔ ∃ id, ids.byServer.lookup x = some (.live id) := by
  unfold isLive
  split
  · rename_i id hid
    exact ⟨fun _ => ⟨id, hid⟩, fun _ => rfl⟩
  · rename_i hnot
    refine iff_of_false false_ne_true ?_
    rintro ⟨id, hid⟩
    exact hnot id hid

theorem mem_live : x ∈ ids.live ↔ ids.isLive x = true := by
  rw [live, mem_filter]
  refine and_iff_right_of_imp fun h => ?_
  obtain ⟨id, h⟩ := isLive_iff.mp h
  exact mem_keys.mp (lookup_isSome.mp (isSome_of_eq_some h))

theorem nodup_live : ids.live.Nodup := ids.byServer.keys_nodup.filter _

theorem mem_byServer_of_lookup (h : ids.byServer.lookup x = some v) : x ∈ ids.byServer :=
  lookup_isSome.mp (isSome_of_eq_some h)

theorem mem_byServer_of_mem_live (h : x ∈ ids.live) : x ∈ ids.byServer :=
  mem_keys.mpr (mem_filter.mp h).1

/-! ### What the operations do to the server's map -/

theorem lookup_open_ :
    (ids.open_ caller server).byServer.lookup x =
      if x = server then some (.live caller)
      else if ids.byCaller.lookup caller = some x then none else ids.byServer.lookup x := by
  rw [← lookup_replace, open_]
  cases ids.byCaller.lookup caller <;> rfl

theorem lookup_cancel :
    (ids.cancel caller server).byServer.lookup x =
      if x = server then some .cancelled else ids.byServer.lookup x :=
  lookup_insert_ite ..

theorem lookup_finish (hlive : ids.isLive server = true) :
    (ids.finish server).byServer.lookup x =
      if x = server then none else ids.byServer.lookup x := by
  obtain ⟨id, hid⟩ := isLive_iff.mp hlive
  simp only [finish, hid]
  exact lookup_erase_ite ..

theorem finish_of_not_isLive (hlive : ids.isLive server = false) : ids.finish server = ids := by
  unfold finish
  split
  · exact absurd (isLive_iff.mpr ⟨_, ‹_›⟩) (eq_false_iff.mp hlive)
  · rfl

/-- Other calls stay live. -/
theorem isLive_finish (hx : x ≠ server) (hlive : ids.isLive x = true) :
    (ids.finish server).isLive x = true := by
  cases hserver : ids.isLive server with
  | false => rwa [finish_of_not_isLive hserver]
  | true =>
    obtain ⟨id, hid⟩ := isLive_iff.mp hlive
    refine isLive_iff.mpr ⟨id, ?_⟩
    rw [lookup_finish hserver, if_neg hx, hid]

theorem lookup_release :
    (ids.release server).byServer.lookup x =
      if x = server then none else ids.byServer.lookup x :=
  lookup_erase_ite ..

theorem lookup_drain :
    (ids.drain orphaned).byServer.lookup x =
      if x ∈ orphaned then none else ids.byServer.lookup x :=
  lookup_eraseAll _ _ _

/-! ### Which calls they leave -/

section

variable (h : ∀ v, ids'.byServer.lookup x = some v → ids.byServer.lookup x = some v)
include h

theorem mem_of_lookup_imp (hx : x ∈ ids'.byServer) : x ∈ ids.byServer := by
  obtain ⟨v, hv⟩ := isSome_iff_exists.mp (lookup_isSome.mpr hx)
  exact mem_byServer_of_lookup (h v hv)

theorem isLive_of_lookup_imp (hx : ids'.isLive x = true) : ids.isLive x = true := by
  obtain ⟨id, hid⟩ := isLive_iff.mp hx
  exact isLive_iff.mpr ⟨id, h _ hid⟩

end

theorem lookup_of_finish (h : (ids.finish server).byServer.lookup x = some v) :
    ids.byServer.lookup x = some v := by
  cases hlive : ids.isLive server with
  | false => rwa [finish_of_not_isLive hlive] at h
  | true =>
    rw [lookup_finish hlive] at h
    split at h
    · cases h
    · exact h

theorem lookup_of_release (h : (ids.release server).byServer.lookup x = some v) :
    ids.byServer.lookup x = some v := by
  rw [lookup_release] at h
  split at h
  · cases h
  · exact h

theorem lookup_of_drain (h : (ids.drain orphaned).byServer.lookup x = some v) :
    ids.byServer.lookup x = some v := by
  rw [lookup_drain] at h
  split at h
  · cases h
  · exact h

/-- An entry after a call opened: the new call's, or an old one of another id. -/
theorem lookup_of_open_ (h : (ids.open_ caller server).byServer.lookup x = some v) :
    x = server ∧ v = .live caller ∨
      ids.byCaller.lookup caller ≠ some x ∧ ids.byServer.lookup x = some v := by
  rw [lookup_open_] at h
  split at h
  · cases h
    exact .inl ⟨‹_›, rfl⟩
  · split at h
    · cases h
    · exact .inr ⟨‹_›, h⟩

/-! ### The two maps stay inverse -/

theorem live_injective : Caller.live.Injective := fun _ _ => Caller.live.inj

theorem Inverse.open_ (h : ids.Inverse) (hnew : ids.byServer.lookup server = none) :
    (ids.open_ caller server).Inverse :=
  AList.Inverse.insert h live_injective hnew fun _ => lookup_open_

theorem Inverse.cancel (h : ids.Inverse) (hserver : ids.byCaller.lookup caller = some server) :
    (ids.cancel caller server).Inverse :=
  AList.Inverse.erase h live_injective hserver (fun _ => lookup_cancel) fun _ => nofun

theorem Inverse.finish (h : ids.Inverse) : (ids.finish server).Inverse := by
  cases hlive : ids.isLive server with
  | false => rwa [finish_of_not_isLive hlive]
  | true =>
    obtain ⟨caller, hcaller⟩ := isLive_iff.mp hlive
    have hby : (ids.finish server).byCaller = ids.byCaller.erase caller := by
      simp only [Ids.finish, hcaller]
    unfold Ids.Inverse
    rw [hby]
    exact AList.Inverse.erase h live_injective ((h caller server).mpr hcaller)
      (fun _ => lookup_finish hlive) fun _ => nofun

theorem Inverse.release (h : ids.Inverse) (hlive : ids.isLive server = false) :
    (ids.release server).Inverse :=
  AList.Inverse.release h (fun id hl => eq_false_iff.mp hlive (isLive_iff.mpr ⟨id, hl⟩))
    fun _ => lookup_release

/-- No live call is left after the drain. -/
theorem isLive_drain (hperm : orphaned.Perm ids.live) : (ids.drain orphaned).isLive x = false := by
  refine eq_false_iff.mpr fun hlive => ?_
  obtain ⟨id, hid⟩ := isLive_iff.mp hlive
  rw [lookup_drain] at hid
  split at hid
  · cases hid
  · exact ‹x ∉ orphaned› (hperm.mem_iff.mpr (mem_live.mpr (isLive_iff.mpr ⟨id, hid⟩)))

theorem Inverse.drain (hperm : orphaned.Perm ids.live) : (ids.drain orphaned).Inverse := by
  intro id x
  have hne : (ids.drain orphaned).byServer.lookup x ≠ some (.live id) := fun hl =>
    eq_false_iff.mp (isLive_drain hperm) (isLive_iff.mpr ⟨id, hl⟩)
  refine iff_of_false ?_ hne
  simp [Ids.drain]

/-! ### How many calls are counted -/

theorem count_cancel (h : ids.Inverse) (hserver : ids.byCaller.lookup caller = some server) :
    (ids.cancel caller server).count = ids.count :=
  length_keys_insert _ _ (mem_byServer_of_lookup ((h caller server).mp hserver))

theorem count_drain (hperm : orphaned.Perm ids.live) :
    (ids.drain orphaned).count + orphaned.length = ids.count :=
  length_keys_eraseAll _ (hperm.nodup_iff.mpr nodup_live) fun _ hx =>
    mem_byServer_of_mem_live (hperm.mem_iff.mp hx)

end Ids

/-- What `counted` does, where it does not saturate. -/
theorem counted_add {held before : ℕ} (after : ℕ) (h : before ≤ held) :
    counted held before after + before = held + after := by
  unfold counted
  split <;> omega

namespace Link

variable {encodes : Frame → Bool} {s s' : Link} {a : LinkAction} {t : List LinkAction} {k j k' : ℕ}
  {c : Connection} {ids : Ids} {c' : Connection} {d : Delivery} {id server : ℕ} {f : Frame}
  {ack : Option (ℕ × ℕ)} {r : Reply}

/-- The server id last handed out for a caller's id. -/
def lastOpened (s : Link) (k caller : ℕ) : Option ℕ :=
  (s.opened.filter fun o => o.connection = k ∧ o.caller = caller).getLast?.map (·.server)

/-- A delivery on its way to the server: mapped, queued, or in the hands of
`forward`. -/
inductive OnWay (s : Link) (d : Delivery) : Prop
  | mapped {k : ℕ} {c : Connection} (hc : s.connections[k]? = some c) (hr : c.reader = .mapped d)
  | queued (h : d ∈ s.queue)
  | held (h : s.forward = .holding d)

/-- A cancel's `Ack` is still to settle or drop. -/
inductive Acked (s : Link) (k x : ℕ) : Prop
  | onWay {d : Delivery} (hd : s.OnWay d) (hack : d.ack = some (k, x))
  | taken (h : (k, x) ∈ s.acks)

/-- What is kept of one connection's ids. -/
structure IdsFit (s : Link) (k : ℕ) (ids : Ids) : Prop where
  inverse : ids.Inverse
  /-- Its calls have ids that were handed out. -/
  known : ∀ x ∈ ids.byServer, x < s.nextId
  latest : ∀ x id, ids.byServer.lookup x = some (.live id) → s.lastOpened k id = some x
  /-- A cancelled call is not live again. -/
  acked : ∀ x, s.Acked k x → x < s.nextId ∧ ids.isLive x = false

/-- **The invariant of the ids.** -/
structure Inv (s : Link) : Prop where
  fits : ∀ k c, s.connections[k]? = some c → s.IdsFit k c.ids
  /-- Every `Ack` is one of a connection. -/
  acks : ∀ k x, s.Acked k x → ∃ c, s.connections[k]? = some c
  fresh : (s.opened.map (·.server)).Nodup
  below : ∀ o ∈ s.opened, o.server < s.nextId
  held : s.held = (s.connections.map (·.holds)).sum

theorem Inv.holds_le (h : s.Inv) (hc : s.connections[k]? = some c) : c.holds ≤ s.held := by
  rw [h.held]
  exact le_sum_map _ hc

/-- What `counted` does to a connection's part. -/
theorem Inv.counts (h : s.Inv) (hc : s.connections[k]? = some c) (ids : Ids) :
    counted s.held c.ids.count ids.count + c.holds = s.held + (ids.count + c.reader.owed) := by
  have hle := h.holds_le hc
  rw [Connection.holds] at hle ⊢
  have hcounted := counted_add ids.count (Nat.le_of_add_right_le hle)
  omega

theorem lastOpened_snoc {o : Opening} (hopened : s'.opened = s.opened ++ [o]) (k caller : ℕ) :
    s'.lastOpened k caller =
      if o.connection = k ∧ o.caller = caller then some o.server else s.lastOpened k caller := by
  rw [lastOpened, hopened, filter_append]
  by_cases ho : o.connection = k ∧ o.caller = caller
  · simp [ho]
  · simp [ho, lastOpened]

/-- Ids with fewer live calls fit as well. -/
theorem IdsFit.of_sub (h : s.IdsFit k ids) (hinv : ids'.Inverse)
    (hmem : ∀ x ∈ ids'.byServer, x ∈ ids.byServer)
    (hlive : ∀ x id, ids'.byServer.lookup x = some (.live id) →
      ids.byServer.lookup x = some (.live id)) : s.IdsFit k ids' where
  inverse := hinv
  known x hx := h.known x (hmem x hx)
  latest x id hx := h.latest x id (hlive x id hx)
  acked x hx := by
    refine ⟨(h.acked x hx).1, eq_false_iff.mpr fun hl => ?_⟩
    obtain ⟨id, hid⟩ := Ids.isLive_iff.mp hl
    exact eq_false_iff.mp (h.acked x hx).2 (Ids.isLive_iff.mpr ⟨id, hlive x id hid⟩)

/-- The same for fewer entries. -/
theorem IdsFit.of_lookup (h : s.IdsFit k ids) (hinv : ids'.Inverse)
    (hsub : ∀ x v, ids'.byServer.lookup x = some v → ids.byServer.lookup x = some v) :
    s.IdsFit k ids' :=
  h.of_sub hinv (fun x => Ids.mem_of_lookup_imp (hsub x)) fun x _ => hsub x _

/-- What other tasks do leaves ids that fit. -/
theorem IdsFit.later (h : s.IdsFit k ids) (hnext : s.nextId ≤ s'.nextId)
    (hlast : ∀ id, s'.lastOpened k id = s.lastOpened k id)
    (hacked : ∀ x, s'.Acked k x → s.Acked k x) : s'.IdsFit k ids where
  inverse := h.inverse
  known x hx := (h.known x hx).trans_le hnext
  latest x id hx := by rw [hlast, h.latest x id hx]
  acked x hx := ⟨(h.acked x (hacked x hx)).1.trans_le hnext, (h.acked x (hacked x hx)).2⟩

/-! ### A step of a connection -/

theorem onWay_of_set (hconn : s'.connections = s.connections.set k c') (h : s'.OnWay d) :
    s.OnWay d ∨ c'.reader = .mapped d ∨ d ∈ s'.queue ∨ s'.forward = .holding d := by
  cases h with
  | mapped hc' hr =>
    rcases eq_or_of_getElem?_set (hconn ▸ hc') with ⟨-, rfl⟩ | ⟨-, hc⟩
    · exact .inr (.inl hr)
    · exact .inl (.mapped hc hr)
  | queued h => exact .inr (.inr (.inl h))
  | held h => exact .inr (.inr (.inr h))

/-- Where every delivery with an `Ack` was on its way before, so was every `Ack`. -/
theorem acked_of_onWay (hacks : ∀ ack ∈ s'.acks, ack ∈ s.acks)
    (hway : ∀ d, s'.OnWay d → s.OnWay d ∨ d.ack = none) {x : ℕ} (h : s'.Acked k x) :
    s.Acked k x := by
  cases h with
  | onWay hd hack =>
    rcases hway _ hd with hd | hnone
    · exact .onWay hd hack
    · rw [hnone] at hack
      cases hack
  | taken h => exact .taken (hacks _ h)

section

variable (h : s.Inv) (hc : s.connections[k]? = some c)
  (hconn : s'.connections = s.connections.set k c')
include h hc hconn

/-- **A changed connection**, with ids that fit, and no new `Ack` elsewhere. -/
theorem Inv.change (hheld : s'.held + c.holds = s.held + c'.holds) (hnext : s.nextId ≤ s'.nextId)
    (hfresh : (s'.opened.map (·.server)).Nodup) (hbelow : ∀ o ∈ s'.opened, o.server < s'.nextId)
    (hlast : ∀ k' id, k' ≠ k → s'.lastOpened k' id = s.lastOpened k' id)
    (hacked : ∀ k' x, k' ≠ k → s'.Acked k' x → s.Acked k' x) (hfit : s'.IdsFit k c'.ids) :
    s'.Inv where
  fits k' c'' hc'' := by
    rcases eq_or_of_getElem?_set (hconn ▸ hc'') with ⟨rfl, rfl⟩ | ⟨hk, hc''⟩
    · exact hfit
    · exact (h.fits k' c'' hc'').later hnext (fun id => hlast k' id hk) fun x => hacked k' x hk
  acks k' x hx := by
    rw [hconn]
    by_cases hk : k' = k
    · subst hk
      exact ⟨c', List.getElem?_set_self (List.getElem?_eq_some_iff.mp hc).1⟩
    · obtain ⟨c'', hc''⟩ := h.acks k' x (hacked k' x hk hx)
      exact ⟨c'', by rw [getElem?_set_ne (Ne.symm hk), hc'']⟩
  fresh := hfresh
  below := hbelow
  held := by
    have hsum := sum_map_set (·.holds) hc c'
    rw [← hconn, ← h.held] at hsum
    omega

/-- A changed connection, with fewer live calls and no new `Ack`. -/
theorem Inv.moved (hheld : s'.held + c.holds = s.held + c'.holds) (hnext : s'.nextId = s.nextId)
    (hopened : s'.opened = s.opened) (hacks : s'.acks = s.acks) (hforward : s'.forward = s.forward)
    (hqueue : ∀ d ∈ s'.queue, d ∈ s.queue ∨ s.OnWay d ∨ d.ack = none)
    (hmapped : ∀ d, c'.reader = .mapped d → s.OnWay d ∨ d.ack = none) (hfit : s.IdsFit k c'.ids) :
    s'.Inv := by
  have hlast : ∀ k' id, s'.lastOpened k' id = s.lastOpened k' id := fun k' id => by
    rw [lastOpened, lastOpened, hopened]
  have hacked : ∀ k' x, s'.Acked k' x → s.Acked k' x := fun k' x =>
    acked_of_onWay (fun ack hack => hacks ▸ hack) fun d hd => by
      rcases onWay_of_set hconn hd with hd | hd | hd | hd
      · exact .inl hd
      · exact hmapped d hd
      · exact (hqueue d hd).elim (fun hd => .inl (.queued hd)) id
      · exact .inl (.held (hforward ▸ hd))
  refine h.change hc hconn hheld hnext.ge (hopened ▸ h.fresh) ?_ (fun k' id _ => hlast k' id)
    (fun k' x _ => hacked k' x) (hfit.later hnext.ge (hlast k) (hacked k))
  rw [hopened, hnext]
  exact h.below

/-- A changed connection with the same ids. -/
theorem Inv.turned (hids : c'.ids = c.ids)
    (howed : s'.held + c.reader.owed = s.held + c'.reader.owed) (hnext : s'.nextId = s.nextId)
    (hopened : s'.opened = s.opened) (hacks : s'.acks = s.acks) (hforward : s'.forward = s.forward)
    (hqueue : ∀ d ∈ s'.queue, d ∈ s.queue ∨ s.OnWay d ∨ d.ack = none)
    (hmapped : ∀ d, c'.reader = .mapped d → s.OnWay d ∨ d.ack = none) : s'.Inv := by
  refine h.moved hc hconn ?_ hnext hopened hacks hforward hqueue hmapped (hids ▸ h.fits k c hc)
  rw [Connection.holds, Connection.holds, hids]
  omega

end

/-- A step that leaves the connections as they are, with no new `Ack`. -/
theorem Inv.kept (h : s.Inv) (hconn : s'.connections = s.connections) (hheld : s'.held = s.held)
    (hnext : s'.nextId = s.nextId) (hopened : s'.opened = s.opened)
    (hacked : ∀ k' x, s'.Acked k' x → s.Acked k' x) : s'.Inv where
  fits k' c' hc' := by
    refine (h.fits k' c' (hconn ▸ hc')).later hnext.ge (fun id => ?_) (hacked k')
    rw [lastOpened, lastOpened, hopened]
  acks k' x hx := hconn ▸ h.acks k' x (hacked k' x hx)
  fresh := hopened ▸ h.fresh
  below := by
    rw [hopened, hnext]
    exact h.below
  held := by rw [hheld, hconn, h.held]

/-- The ids of a connection with a call opened. -/
theorem IdsFit.open_ (h : s.IdsFit k ids) (hopened : s'.opened = s.opened ++ [⟨k, id, s.nextId⟩])
    (hnext : s'.nextId = s.nextId + 1) (hacked : ∀ x, s'.Acked k x → s.Acked k x) :
    s'.IdsFit k (ids.open_ id s.nextId) := by
  have hnew : ids.byServer.lookup s.nextId = none :=
    lookup_eq_none.mpr fun hmem => absurd (h.known _ hmem) (lt_irrefl _)
  refine ⟨h.inverse.open_ hnew, fun x hx => ?_, fun x id' hx => ?_, fun x hx => ?_⟩
  · obtain ⟨v, hv⟩ := isSome_iff_exists.mp (lookup_isSome.mpr hx)
    rw [hnext]
    rcases Ids.lookup_of_open_ hv with ⟨rfl, -⟩ | ⟨-, hold⟩
    · exact Nat.lt_succ_self _
    · exact (h.known x (Ids.mem_byServer_of_lookup hold)).trans (Nat.lt_succ_self _)
  · rw [lastOpened_snoc hopened]
    rcases Ids.lookup_of_open_ hx with ⟨rfl, hlive⟩ | ⟨hother, hold⟩
    · cases hlive
      exact if_pos ⟨rfl, rfl⟩
    · have hne : id ≠ id' := fun heq => hother (heq ▸ (h.inverse id' x).mpr hold)
      rw [if_neg (fun ⟨_, heq⟩ => hne heq), h.latest x id' hold]
  · obtain ⟨hlt, hlive⟩ := h.acked x (hacked x hx)
    refine ⟨by omega, eq_false_iff.mpr fun hl => ?_⟩
    obtain ⟨id', hid⟩ := Ids.isLive_iff.mp hl
    rcases Ids.lookup_of_open_ hid with ⟨rfl, -⟩ | ⟨-, hold⟩
    · exact absurd hlt (lt_irrefl _)
    · exact eq_false_iff.mp hlive (Ids.isLive_iff.mpr ⟨id', hold⟩)

section

variable (h : s.Inv) (hc : s.connections[k]? = some c) (hr : c.reader = .reading)
include h hc hr

/-- **A call opens.** -/
theorem Inv.asked {g : Frame} (hs' : s' = (s.opening k c id).put k
      { c with
        ids := c.ids.open_ id s.nextId
        reader := .mapped { frame := g, reply := some k } }) : s'.Inv := by
  have hfit := h.fits k c hc
  have hacked : ∀ k' x, s'.Acked k' x → s.Acked k' x := by
    subst hs'
    intro k' x hx
    refine acked_of_onWay (fun ack hack => ?_) (fun d hd => ?_) hx
    · exact hack
    rcases onWay_of_set (s := s) rfl hd with hd | hd | hd | hd
    · exact .inl hd
    · cases hd
      exact .inr rfl
    · exact .inl (.queued hd)
    · exact .inl (.held hd)
  have hopened : s'.opened = s.opened ++ [⟨k, id, s.nextId⟩] := by rw [hs']; rfl
  have hnext : s'.nextId = s.nextId + 1 := by rw [hs']; rfl
  refine h.change hc (by rw [hs']; rfl) ?_ (by omega) ?_ ?_ ?_ (fun k' x _ => hacked k' x) ?_
  · rw [hs']
    have hcounts := h.counts hc (c.ids.open_ id s.nextId)
    rw [hr] at hcounts
    exact hcounts
  · rw [hopened, map_append, nodup_append]
    refine ⟨h.fresh, nodup_singleton _, ?_⟩
    rintro _ hx _ hy rfl
    obtain ⟨o, ho, rfl⟩ := mem_map.mp hx
    exact absurd (h.below o ho) (by simp [mem_singleton.mp hy])
  · intro o ho
    rw [hopened, mem_append, mem_singleton] at ho
    rcases ho with ho | rfl
    · have hlt := h.below o ho
      omega
    · show s.nextId < s'.nextId
      omega
  · intro k' id' hk
    rw [lastOpened_snoc hopened, if_neg (fun ⟨hk', _⟩ => hk hk'.symm)]
  · exact hfit.open_ hopened hnext (hacked k)

/-- **A call is cancelled by its caller.** -/
theorem Inv.cancelled (hserver : c.ids.byCaller.lookup id = some server) (hs' : s' = s.put k
      { c with
        ids := c.ids.cancel id server
        reader := .mapped
          { frame := .cancel server, reply := some k, ack := some (k, server) } }) : s'.Inv := by
  have hfit := h.fits k c hc
  have hlive := (hfit.inverse id server).mp hserver
  have hacked : ∀ k' x, s'.Acked k' x → s.Acked k' x ∨ k' = k ∧ x = server := by
    subst hs'
    intro k' x hx
    cases hx with
    | taken hx => exact .inl (.taken hx)
    | onWay hd hack =>
      rcases onWay_of_set rfl hd with hd | hd | hd | hd
      · exact .inl (.onWay hd hack)
      · cases hd
        cases hack
        exact .inr ⟨rfl, rfl⟩
      · exact .inl (.onWay (.queued hd) hack)
      · exact .inl (.onWay (.held hd) hack)
  have hlast : ∀ k' id', s'.lastOpened k' id' = s.lastOpened k' id' :=
    fun k' id' => by rw [hs']; rfl
  have hsub : s.IdsFit k (c.ids.cancel id server) := by
    refine hfit.of_sub (hfit.inverse.cancel hserver) (fun x hx => ?_) (fun x id' hx => ?_)
    · rw [Ids.cancel, mem_insert] at hx
      rcases hx with rfl | hx
      · exact Ids.mem_byServer_of_lookup hlive
      · exact hx
    · rw [Ids.lookup_cancel] at hx
      split at hx
      · cases hx
      · exact hx
  refine h.change hc (by rw [hs']; rfl) ?_ (by rw [hs']; rfl) (by rw [hs']; exact h.fresh)
    (by rw [hs']; exact h.below) (fun k' id' _ => hlast k' id') (fun k' x hk hx => ?_) ?_
  · rw [Connection.holds, Connection.holds, hr, hs', Ids.count_cancel hfit.inverse hserver]
    rfl
  · exact (hacked k' x hx).resolve_right fun ⟨hk', _⟩ => hk hk'
  · have hnext : s'.nextId = s.nextId := by rw [hs']; rfl
    refine ⟨hsub.inverse, fun x hx => hnext ▸ hsub.known x hx,
      fun x id' hx => by rw [hlast, hsub.latest x id' hx], fun x hx => ?_⟩
    rw [hnext]
    rcases hacked k x hx with hx | ⟨-, rfl⟩
    · exact hsub.acked x hx
    · refine ⟨hfit.known x (Ids.mem_byServer_of_lookup hlive), eq_false_iff.mpr fun hl => ?_⟩
      obtain ⟨id', hid⟩ := Ids.isLive_iff.mp hl
      rw [Ids.lookup_cancel, if_pos rfl] at hid
      cases hid

end

/-- **A cancelled call is forgotten**, the delivery that carried its `Ack` gone. -/
theorem Inv.release (h : s.Inv)
    (hack : ∀ k x, ack = some (k, x) → ∀ c, s.connections[k]? = some c → c.ids.isLive x = false) :
    (s.release ack).Inv := by
  rcases s.release_spec ack with heq | ⟨k, server, c, hkx, hc, heq⟩
  · exact heq.symm ▸ h
  · have hfit := h.fits k c hc
    have hlive := hack k server hkx c hc
    rw [heq]
    exact h.moved hc rfl (h.counts hc _) rfl rfl rfl rfl (fun _ => .inl)
      (fun d hd => .inl (.mapped hc hd))
      (hfit.of_lookup (hfit.inverse.release hlive) fun _ _ => Ids.lookup_of_release)

theorem write_ids : (write encodes c j r).ids = c.ids := by
  unfold write
  split <;> rfl

theorem write_reader : (write encodes c j r).reader = c.reader := by
  unfold write
  split <;> rfl

/-- A finished call is forgotten. -/
theorem IdsFit.finish (h : s.IdsFit k ids) : s.IdsFit k (ids.finish server) :=
  h.of_lookup h.inverse.finish fun _ _ => Ids.lookup_of_finish

/-- So are the live calls of a drained connection. -/
theorem IdsFit.drain {orphaned : List ℕ} (h : s.IdsFit k ids) (hperm : orphaned.Perm ids.live) :
    s.IdsFit k (ids.drain orphaned) :=
  h.of_lookup (.drain hperm) fun _ _ => Ids.lookup_of_drain

/-! ### A step of `forward` -/

theorem onWay_of_forward (hconn : s'.connections = s.connections)
    (hqueue : ∀ d ∈ s'.queue, d ∈ s.queue) (hforward : ∀ d, s'.forward = .holding d → s.OnWay d)
    (h : s'.OnWay d) : s.OnWay d := by
  cases h with
  | mapped hc hr => exact .mapped (hconn ▸ hc) hr
  | queued hd => exact .queued (hqueue d hd)
  | held hd => exact hforward d hd

/-- A step of `forward` that drops no `Ack`. -/
theorem Inv.forwarded (h : s.Inv) (hconn : s'.connections = s.connections)
    (hheld : s'.held = s.held) (hnext : s'.nextId = s.nextId) (hopened : s'.opened = s.opened)
    (hacks : ∀ k x, (k, x) ∈ s'.acks → s.Acked k x) (hqueue : ∀ d ∈ s'.queue, d ∈ s.queue)
    (hforward : ∀ d, s'.forward = .holding d → s.OnWay d) : s'.Inv := by
  refine h.kept hconn hheld hnext hopened fun k x hx => ?_
  cases hx with
  | onWay hd hack => exact .onWay (onWay_of_forward hconn hqueue hforward hd) hack
  | taken hx => exact hacks k x hx

/-- A refused delivery's cancelled call is forgotten. -/
theorem Inv.refuse (h : s.Inv) (hd : s.OnWay d) (hconn : s'.connections = s.connections)
    (hheld : s'.held = s.held) (hnext : s'.nextId = s.nextId) (hopened : s'.opened = s.opened)
    (hacks : s'.acks = s.acks) (hqueue : ∀ d ∈ s'.queue, d ∈ s.queue)
    (hforward : s'.forward = .ended) : (s'.refuse d).Inv := by
  have hinv : Inv { s' with refused := s'.refused ++ [d] } := by
    refine h.forwarded hconn hheld hnext hopened (fun k x hx => ?_) hqueue fun d hd => ?_
    · exact .taken (hacks ▸ hx)
    · cases hforward.symm.trans hd
  refine hinv.release fun k x hack c hc => ?_
  have hc' : s.connections[k]? = some c := hconn ▸ hc
  exact ((h.fits k c hc').acked x (.onWay hd hack)).2

/-- A new connection has no calls. -/
theorem Inv.accept (h : s.Inv)
    (hs' : s' = { s with connections := s.connections ++ [({} : Connection)] }) : s'.Inv := by
  have hget : ∀ (k : ℕ) (c : Connection), s'.connections[k]? = some c →
      s.connections[k]? = some c ∨ c = {} := by
    intro k c hc
    rw [hs'] at hc
    exact (getElem?_concat_eq_some.mp hc).imp_right And.right
  have hacked : ∀ k x, s'.Acked k x → s.Acked k x := by
    subst hs'
    intro k x hx
    refine acked_of_onWay (fun ack hack => ?_) (fun d hd => ?_) hx
    · exact hack
    cases hd with
    | mapped hc hr =>
      rcases hget _ _ hc with hc | rfl
      · exact .inl (.mapped hc hr)
      · cases hr
    | queued hd => exact .inl (.queued hd)
    | held hd => exact .inl (.held hd)
  have hopened : s'.opened = s.opened := by rw [hs']
  have hnext : s'.nextId = s.nextId := by rw [hs']
  refine ⟨fun k c hc => ?_, fun k x hx => ?_, hopened ▸ h.fresh, ?_, ?_⟩
  · rcases hget k c hc with hc | rfl
    · refine (h.fits k c hc).later hnext.ge (fun id => ?_) (hacked k)
      rw [lastOpened, lastOpened, hopened]
    · refine ⟨fun id x => by simp, fun x hx => absurd hx (notMem_empty x),
        fun x id hx => by simp at hx, fun x hx => ?_⟩
      obtain ⟨c, hc⟩ := h.acks k x (hacked k x hx)
      exact ⟨hnext ▸ ((h.fits k c hc).acked x (hacked k x hx)).1, rfl⟩
  · obtain ⟨c, hc⟩ := h.acks k x (hacked k x hx)
    refine ⟨c, ?_⟩
    rw [hs', List.getElem?_append_left (List.getElem?_eq_some_iff.mp hc).1, hc]
  · rw [hopened, hnext]
    exact h.below
  · rw [hs', map_append, sum_append]
    exact h.held

/-- **Every step keeps the invariant.** -/
theorem Inv.step (h : s.Inv) (hstep : (linkMachine encodes).step s a = some s') : s'.Inv := by
  have hspec : LinkStep encodes s a s' := step_spec hstep
  cases hspec with
  | accept => exact h.accept rfl
  | asked hc hr => exact h.asked hc hr rfl
  | event hc hr | continued hc hr =>
    refine h.turned hc rfl rfl (by rw [hr]; rfl) rfl rfl rfl rfl (fun _ => .inl) fun d hd => ?_
    cases hd
    exact .inr rfl
  | cancelled hc hr hserver => exact h.cancelled hc hr hserver rfl
  | ignored hc hr | close hc hr =>
    refine h.turned hc rfl rfl (by rw [hr]; rfl) rfl rfl rfl rfl (fun _ => .inl) fun d hd => ?_
    cases hd
  | queue hc hr =>
    refine h.turned hc rfl rfl (by rw [hr]; rfl) rfl rfl rfl rfl (fun d hd => ?_) fun d hd => ?_
    · rcases mem_append.mp hd with hd | hd
      · exact .inl hd
      · exact .inr (.inl (.mapped hc (mem_singleton.mp hd ▸ hr)))
    · cases hd
  | drainIds hc hr hperm =>
    refine h.moved hc rfl ?_ rfl rfl rfl rfl (fun _ => .inl) (fun d hd => ?_)
      ((h.fits _ _ hc).drain hperm)
    · have hcount := Ids.count_drain hperm
      simp only [Connection.holds, hr, Reader.owed]
      show s.held + _ = s.held + _
      omega
    · cases hd
  | orphan hc hr =>
    refine h.turned hc rfl rfl (by rw [hr]; rfl) rfl rfl rfl rfl (fun d hd => ?_) fun d hd => ?_
    · rcases mem_snoc.mp hd with hd | rfl
      · exact .inl hd
      · exact .inr (.inr rfl)
    · cases hd
  | lower hc hr =>
    have hle := h.holds_le hc
    rw [Connection.holds, hr, Reader.owed] at hle
    refine h.turned hc rfl rfl ?_ rfl rfl rfl rfl (fun _ => .inl) fun d hd => ?_
    · rw [hr]
      show s.held - _ + _ = s.held + 0
      simp only [Reader.owed]
      omega
    · cases hd
  | replied hc | cut hc =>
    exact h.turned hc rfl rfl rfl rfl rfl rfl rfl (fun _ => .inl) fun d hd => .inl (.mapped hc hd)
  | unsent => exact h
  | write hc =>
    refine h.turned hc rfl write_ids (by rw [write_reader]; rfl) rfl rfl rfl rfl (fun _ => .inl)
      fun d hd => ?_
    rw [write_reader] at hd
    exact .inl (.mapped hc hd)
  | finish hc =>
    refine h.moved hc rfl ?_ rfl rfl rfl rfl (fun _ => .inl) (fun d hd => .inl (.mapped hc hd))
      (h.fits _ _ hc).finish
    exact h.counts hc _
  | @settle i ack hack =>
    have hmem := mem_of_getElem? hack
    have hinv : Inv { s with acks := s.acks.eraseIdx i } :=
      h.forwarded rfl rfl rfl rfl (fun k x hx => .taken (mem_of_mem_eraseIdx hx))
        (fun _ hd => hd) fun d hd => .held hd
    refine hinv.release fun k x hkx c hc => ?_
    cases hkx
    exact ((h.fits k c hc).acked x (.taken hmem)).2
  | drain | leave =>
    exact h.forwarded rfl rfl rfl rfl (fun k x hx => .taken hx) (fun _ hd => hd)
      fun d hd => .held hd
  | polled | ended | pending =>
    refine h.forwarded rfl rfl rfl rfl (fun k x hx => .taken hx) (fun _ hd => hd) fun d hd => ?_
    cases hd
  | took hforward hqueue =>
    refine h.forwarded rfl rfl rfl rfl (fun k x hx => .taken hx) (fun d hd => ?_) fun d hd => ?_
    · exact hqueue ▸ mem_cons_of_mem _ hd
    · cases hd
      exact .queued (hqueue ▸ mem_cons_self)
  | unreceived hforward =>
    exact h.refuse (.held hforward) rfl rfl rfl rfl rfl (fun _ hd => hd) rfl
  | handed hforward =>
    refine h.forwarded rfl rfl rfl rfl (fun k x hx => ?_) (fun _ hd => hd) fun d hd => ?_
    · rcases mem_append.mp hx with hx | hx
      · exact .taken hx
      · exact .onWay (.held hforward) (mem_toList.mp hx)
    · cases hd
  | refuse hforward hqueue =>
    exact h.refuse (.queued (hqueue ▸ mem_cons_self)) rfl rfl rfl rfl rfl
      (fun d hd => hqueue ▸ mem_cons_of_mem _ hd) hforward

theorem Inv.init : Inv {} where
  fits k c hc := by cases hc
  acks k x hx := by
    cases hx with
    | onWay hd =>
      cases hd with
      | mapped hc => cases hc
      | queued hd | held hd => cases hd
    | taken hx => cases hx
  fresh := nodup_nil
  below o ho := by cases ho
  held := rfl

theorem inv (h : (linkMachine encodes).run t = some s) : s.Inv :=
  Machine.invariant (P := Inv) .init (fun _ _ _ hs hstep => hs.step hstep) h

/-! ### Replies -/

/-- A reply was looked up under `id`, for `server`, and is on its way or on the wire. -/
inductive Replying (s : Link) (k : ℕ) (f : Frame) (server id : ℕ) : Prop
  | mk {c : Connection} {r : Reply} (hc : s.connections[k]? = some c)
      (hr : r ∈ c.replies ∨ r ∈ c.wire) (hf : r.frame = f) (hserver : r.server = server)
      (hcaller : r.caller = id)

theorem Replying.of_changed (h : s'.Replying k' f server id)
    (hconn : s'.connections = s.connections.set k c') :
    s.Replying k' f server id ∨ k = k' ∧ ∃ r, (r ∈ c'.replies ∨ r ∈ c'.wire) ∧
      r.frame = f ∧ r.server = server ∧ r.caller = id := by
  obtain ⟨hc', hr, hf, hserver, hcaller⟩ := h
  rcases eq_or_of_getElem?_set (hconn ▸ hc') with ⟨hk, rfl⟩ | ⟨-, hc⟩
  · exact .inr ⟨hk.symm, _, hr, hf, hserver, hcaller⟩
  · exact .inl ⟨hc, hr, hf, hserver, hcaller⟩

theorem Replying.of_set (h : s'.Replying k' f server id) (hc : s.connections[k]? = some c)
    (hconn : s'.connections = s.connections.set k c') (hreplies : ∀ r ∈ c'.replies, r ∈ c.replies)
    (hwire : c'.wire = c.wire) : s.Replying k' f server id := by
  rcases h.of_changed hconn with hold | ⟨rfl, r, hr, hf, hserver, hcaller⟩
  · exact hold
  · exact ⟨hc, hr.imp (hreplies r) (hwire ▸ ·), hf, hserver, hcaller⟩

theorem Replying.of_eq (h : s'.Replying k f server id) (hconn : s'.connections = s.connections) :
    s.Replying k f server id := by
  obtain ⟨hc, hr, hf, hserver, hcaller⟩ := h
  exact ⟨hconn ▸ hc, hr, hf, hserver, hcaller⟩

end Link

end Ulo.Rpc
