import Ulo.Lib.Map

/-!
# The calls a UDP server holds

A UDP server has no connection to tell its callers apart: a call is known by the address and the
id its sender gave it, and by an id of the server's own. `Ids` maps each way. A call its sender
cancelled can no longer be addressed, but the server's side of the table keeps it until the
`cancel` has been taken; and the number of calls is kept beside the table, in `State::held`,
where the receive loop waits for it.

The two maps say the same of the calls that are not cancelled, and the count is the size of the
server's side (`Ids.Ok`): every operation keeps both, though `cancel` alone does not count.
-/

namespace Ulo.Udp

open AList

variable {Addr : Type} [DecidableEq Addr]

/-- `Caller`: the flag of a cancelled call, which its sends wait for, is left out. -/
inductive Caller (Addr : Type)
  | live (peer : Addr) (caller : ℕ)
  | cancelled
deriving DecidableEq

/-- `Ids`, with the count of `State::held`. -/
structure Ids (Addr : Type) [DecidableEq Addr] where
  byCaller : AList fun _ : Addr × ℕ => ℕ := ∅
  byServer : AList fun _ : ℕ => Caller Addr := ∅
  closed : Bool := false
  held : ℕ := 0

namespace Ids

variable {ids : Ids Addr} {peer : Addr} {caller server : ℕ}

/-- `counted` -/
def counted (ids : Ids Addr) : Ids Addr := { ids with held := ids.byServer.keys.length }

/-- `open`, under the id `server` taken from the counter -/
def open_ (ids : Ids Addr) (peer : Addr) (caller server : ℕ) : Ids Addr :=
  let byServer :=
    match ids.byCaller.lookup (peer, caller) with
    | some stale => ids.byServer.erase stale
    | none => ids.byServer
  counted { ids with
    byCaller := ids.byCaller.insert (peer, caller) server
    byServer := byServer.insert server (.live peer caller) }

/-- `cancel` -/
def cancel (ids : Ids Addr) (peer : Addr) (caller server : ℕ) : Ids Addr :=
  { ids with
    byCaller := ids.byCaller.erase (peer, caller)
    byServer := ids.byServer.insert server .cancelled }

/-- `finish` -/
def finish (ids : Ids Addr) (server : ℕ) : Ids Addr :=
  match ids.byServer.lookup server with
  | some (.live peer caller) =>
    counted { ids with
      byCaller := ids.byCaller.erase (peer, caller)
      byServer := ids.byServer.erase server }
  | _ => ids.counted

/-- `release` -/
def release (ids : Ids Addr) (server : ℕ) : Ids Addr :=
  counted { ids with byServer := ids.byServer.erase server }

/-- The calls held and not cancelled, as `forget_all` returns them. -/
def addressed (ids : Ids Addr) : List (ℕ × Addr × ℕ) :=
  ids.byServer.entries.filterMap fun e =>
    match e.2 with
    | .live peer caller => some (e.1, peer, caller)
    | .cancelled => none

/-- `forget_all` -/
def forgetAll (ids : Ids Addr) : Ids Addr :=
  counted { ids with closed := true, byCaller := ∅, byServer := ∅ }

/-- **The two maps agree**, and the count is the number of calls. -/
structure Ok (ids : Ids Addr) : Prop where
  both : ∀ peer caller server, ids.byCaller.lookup (peer, caller) = some server ↔
    ids.byServer.lookup server = some (.live peer caller)
  held : ids.held = ids.byServer.keys.length

theorem Ok.init : Ok ({} : Ids Addr) :=
  ⟨fun _ _ _ => ⟨nofun, nofun⟩, rfl⟩

/-- Who has a server id once another call is opened: the id of an earlier request under the
same address and id is gone. -/
theorem lookup_open (ids : Ids Addr) (peer : Addr) (caller server s : ℕ) :
    (ids.open_ peer caller server).byServer.lookup s =
      if s = server then some (.live peer caller)
      else if ids.byCaller.lookup (peer, caller) = some s then none
      else ids.byServer.lookup s := by
  rw [← lookup_replace]
  unfold open_
  cases ids.byCaller.lookup (peer, caller) <;> rfl

theorem Ok.inverse (hids : ids.Ok) :
    AList.Inverse (fun e : Addr × ℕ => Caller.live e.1 e.2) ids.byCaller ids.byServer :=
  fun e => hids.both e.1 e.2

omit [DecidableEq Addr] in
theorem live_injective : Function.Injective fun e : Addr × ℕ => Caller.live e.1 e.2 := by
  rintro ⟨p, c⟩ ⟨p', c'⟩ ⟨rfl, rfl⟩
  rfl

/-- **A call is opened** under a new id. -/
theorem Ok.open_ (hids : ids.Ok) (hnew : ids.byServer.lookup server = none) :
    (ids.open_ peer caller server).Ok :=
  ⟨fun p c => hids.inverse.insert live_injective hnew (lookup_open ids peer caller server) (p, c),
    rfl⟩

theorem lookup_cancel (ids : Ids Addr) (peer : Addr) (caller server s : ℕ) :
    (ids.cancel peer caller server).byServer.lookup s =
      if s = server then some .cancelled else ids.byServer.lookup s :=
  lookup_insert_ite ..

/-- **A call is cancelled**: its number does not change, and need not be counted. -/
theorem Ok.cancel (hids : ids.Ok) (hserver : ids.byCaller.lookup (peer, caller) = some server) :
    (ids.cancel peer caller server).Ok := by
  refine ⟨fun p c => ?_, ?_⟩
  · exact hids.inverse.erase live_injective hserver
      (lookup_cancel ids peer caller server) (fun _ => nofun) (p, c)
  · have hmem : server ∈ ids.byServer :=
      lookup_isSome.mp (Option.isSome_of_eq_some ((hids.both peer caller server).mp hserver))
    rw [Ids.cancel, length_keys_insert _ _ hmem]
    exact hids.held

theorem lookup_release (ids : Ids Addr) (server s : ℕ) :
    (ids.release server).byServer.lookup s =
      if s = server then none else ids.byServer.lookup s :=
  lookup_erase_ite ..

/-- **A cancelled call is forgotten.** -/
theorem Ok.release (hids : ids.Ok)
    (hnot : ∀ peer caller, ids.byServer.lookup server ≠ some (.live peer caller)) :
    (ids.release server).Ok :=
  ⟨fun p c => hids.inverse.release (fun e => hnot e.1 e.2) (lookup_release ids server) (p, c), rfl⟩

theorem lookup_finish (hlive : ids.byServer.lookup server = some (.live peer caller)) (s : ℕ) :
    (ids.finish server).byServer.lookup s =
      if s = server then none else ids.byServer.lookup s := by
  rw [finish, hlive]
  exact lookup_release ids server s

/-- **A call is answered.** -/
theorem Ok.finish (hids : ids.Ok) (hlive : ids.byServer.lookup server = some (.live peer caller)) :
    (ids.finish server).Ok := by
  have hinv := hids.inverse.erase live_injective ((hids.both peer caller server).mpr hlive)
    (lookup_finish hlive) fun _ => nofun
  rw [Ids.finish, hlive] at hinv ⊢
  exact ⟨fun p c => hinv (p, c), rfl⟩

theorem Ok.forgetAll (ids : Ids Addr) : ids.forgetAll.Ok :=
  ⟨fun _ _ _ => ⟨nofun, nofun⟩, rfl⟩

theorem mem_addressed : (server, peer, caller) ∈ ids.addressed ↔
    ids.byServer.lookup server = some (.live peer caller) := by
  rw [addressed, List.mem_filterMap]
  constructor
  · rintro ⟨⟨s, c⟩, hmem, heq⟩
    cases c with
    | cancelled => cases heq
    | live =>
      cases heq
      exact mem_lookup_iff.mpr hmem
  · intro h
    exact ⟨⟨server, .live peer caller⟩, mem_lookup_iff.mp h, rfl⟩

/-- Each call is answered once by `forget_all`. -/
theorem nodup_addressed (ids : Ids Addr) : (ids.addressed.map Prod.fst).Nodup := by
  have hsub : (ids.addressed.map Prod.fst).Sublist ids.byServer.keys := by
    rw [addressed, List.map_filterMap]
    show (ids.byServer.entries.filterMap _).Sublist (ids.byServer.entries.map Sigma.fst)
    generalize ids.byServer.entries = entries
    induction entries with
    | nil => exact List.Sublist.refl _
    | cons e entries ih =>
      obtain ⟨s, c⟩ := e
      cases c with
      | live => exact ih.cons_cons s
      | cancelled => exact ih.cons s
  exact ids.byServer.keys_nodup.sublist hsub

end Ids

end Ulo.Udp
