import Mathlib.Data.PNat.Defs
import Ulo.Lib.List
import Ulo.Lib.Machine

/-!
# The offsets a Kafka server stores

The request lane reads the group's records and hands each over with an `Ack`, which stores
the record's offset as it settles. At the server's bound of records in flight it pauses its
assignment (`at_bound`), keeps what a newly assigned partition still brings, and hands that
over first once there is room.

The bound holds in every run: nothing but the lane hands over, and it does so only below
the bound (`Bound.step`). The offsets are another matter. The consumer has one stored
position for a partition, and `store_offset` moves it past the record that settles, whichever
that is: calls run beside each other, so a later record that settles first takes the
position past an earlier one that is still running (`overtaken`), and the next commit makes
a restarted group skip it. The position stays behind every record that has not settled
where the records of a partition settle in their order (`commits_behind`).

What the consumer does is taken from its library. A partition that is assigned has a
position to read from and no stored one, the records of one assignment come in the order of
their offsets, and an offset is stored only for a partition that is assigned.
-/

namespace Ulo.Kafka

open List

/-- A record's place in its topic. -/
structure Message (π : Type) where
  partition : π
  offset : ℕ
deriving DecidableEq

/-- What `on_request` makes of a record. -/
inductive RecordKind
  | evt
  | req
  | open_
  /-- a kind the link does not know, rejected at once -/
  | unknown
deriving DecidableEq

/-- Where a record that was handed over stands. -/
inductive RecordStage
  /-- counted until its `Ack` settles or is dropped -/
  | inFlight
  | settled
  /-- its `Ack` was dropped unsettled, or it was kept aside as the lane ended -/
  | dropped
deriving DecidableEq

/-- **A record the lane let go of.** -/
structure Record (π : Type) where
  message : Message π
  stage : RecordStage
deriving DecidableEq

/-- What the consumer has of a partition. -/
structure Assigned where
  /-- the next offset it reads, of a partition that is assigned -/
  position : Option ℕ := none
  paused : Bool := false
  /-- what the next commit commits -/
  stored : Option ℕ := none
deriving DecidableEq

/-- `Phase` -/
inductive Phase
  | serving
  | draining
  | closed
deriving DecidableEq

/-- Where the request lane stands. -/
inductive RequestLane (π : Type)
  /-- at the `select` of `request_lane` -/
  | reading
  /-- a record was handed over, and `at_bound` is called -/
  | handed
  /-- at the head of the loop of `at_bound`, and at its `select` -/
  | bounded (kept : List (Message π))
  | waiting (kept : List (Message π))
  /-- past that loop, before the assignment is resumed -/
  | resuming
  | stopped
deriving DecidableEq

namespace RequestLane

variable {π : Type}

/-- The records kept aside. -/
@[simp]
def kept : RequestLane π → List (Message π)
  | bounded kept | waiting kept => kept
  | _ => []

/-- A lane that knows the records in flight to be below the bound. -/
def roomy : RequestLane π → Bool
  | reading | resuming => true
  | _ => false

end RequestLane

/-- **The server side**: the consumer's partitions, the records let go of so far and the
count of those in flight. -/
structure Server (π : Type) where
  part : π → Assigned := fun _ => {}
  records : List (Record π) := []
  inflight : ℕ := 0
  lane : RequestLane π := .reading
  phase : Phase := .serving

/-- A step of the lane, of the consumer, of a call's `Ack` or of the shutdown. -/
inductive Action (π : Type)
  /-- a rebalance gives the partition, to be read from `position` on, or takes it -/
  | assign (p : π) (position : ℕ)
  | revoke (p : π)
  /-- `recv` answers -/
  | receive (m : Message π) (kind : RecordKind)
  /-- the first check of `at_bound` -/
  | check
  /-- the head of the loop of `at_bound`; the kind is of the record handed over there -/
  | next (kind : RecordKind)
  /-- its `select` answers with the count or the phase, still serving -/
  | wake
  | resume
  | settle (i : ℕ)
  | drop (i : ℕ)
  /-- `drain` sets the phase, and pauses the partitions -/
  | drain
  | pause
  /-- the lane sees the phase -/
  | stop
  | close

namespace Server

variable {π : Type} [DecidableEq π]

/-- Whether one more record may be handed over. -/
def under (limit : Option ℕ+) (n : ℕ) : Bool := limit.all fun l => n < l

/-- **`pause`**: every partition currently assigned. -/
def pauseAll (s : Server π) : Server π :=
  { s with part := fun p => { s.part p with paused := (s.part p).position.isSome } }

/-- Another state of one partition. -/
def setPart (s : Server π) (p : π) (part : Assigned) : Server π :=
  { s with part := Function.update s.part p part }

/-- `recv` takes a record: the partition's position moves past it. -/
def read (s : Server π) (m : Message π) : Server π :=
  s.setPart m.partition { s.part m.partition with position := some (m.offset + 1) }

/-- `store_offset`, which fails for a partition that is not assigned. -/
def storeOffset (s : Server π) (m : Message π) : Server π :=
  match (s.part m.partition).position with
  | some _ => s.setPart m.partition { s.part m.partition with stored := some (m.offset + 1) }
  | none => s

/-- The `Ack` of a record settles, accepted or rejected, or is dropped; the count falls with
it. -/
def release (s : Server π) (i : ℕ) (stage : RecordStage) : Option (Server π) :=
  match s.records[i]? with
  | some r =>
    if r.stage = .inFlight then
      let s := if stage = .settled then s.storeOffset r.message else s
      some { s with
        records := s.records.set i { r with stage }
        inflight := s.inflight - 1 }
    else none
  | none => none

/-- A record is handed over, with an `InFlight` of its own. -/
def hand (s : Server π) (m : Message π) : Server π :=
  { s with
    records := s.records ++ [{ message := m, stage := .inFlight }]
    inflight := s.inflight + 1 }

/-- **`on_request`**: the record is handed over with its `Ack`, which is rejected at once for
a kind the link does not know. -/
def onRequest (s : Server π) (m : Message π) (kind : RecordKind) : Option (Server π) :=
  if kind = .unknown then (s.hand m).release s.records.length .settled else some (s.hand m)

/-- The lane ends, and what it kept goes. -/
def stopLane (s : Server π) : Server π :=
  { s with
    records := s.records ++ s.lane.kept.map fun m => { message := m, stage := .dropped }
    lane := .stopped }

/-- **What a step does.** -/
def step (limit : Option ℕ+) (s : Server π) : Action π → Option (Server π)
  | .assign p position => some (s.setPart p { position := some position })
  | .revoke p => some (s.setPart p {})
  | .receive m kind =>
    if (s.part m.partition).position.any (· ≤ m.offset) && !(s.part m.partition).paused then
      match s.lane with
      | .reading => ((s.read m).onRequest m kind).map fun s => { s with lane := .handed }
      | .waiting kept => some { (s.read m).pauseAll with lane := .bounded (kept ++ [m]) }
      | _ => none
    else none
  | .check =>
    if s.lane = .handed then
      if under limit s.inflight then some { s with lane := .reading }
      else some { s.pauseAll with lane := .bounded [] }
    else none
  | .next kind =>
    match s.lane with
    | .bounded kept =>
      if under limit s.inflight then
        match kept with
        | [] => some { s with lane := .resuming }
        | m :: kept => (s.onRequest m kind).map fun s => { s with lane := .bounded kept }
      else some { s with lane := .waiting kept }
    | _ => none
  | .wake =>
    match s.lane with
    | .waiting kept => some { s with lane := .bounded kept }
    | _ => none
  | .resume =>
    if s.lane = .resuming then
      some { s with
        part := fun p =>
          if s.phase = .serving then { s.part p with paused := false } else s.part p
        lane := .reading }
    else none
  | .settle i => s.release i .settled
  | .drop i => s.release i .dropped
  | .drain => if s.phase = .serving then some { s with phase := .draining } else none
  | .pause => if s.phase = .draining then some s.pauseAll else none
  | .stop =>
    if s.phase = .serving then none
    else
      match s.lane with
      | .reading | .waiting _ => some s.stopLane
      | _ => none
  | .close => some { s.stopLane with phase := .closed }

end Server

/-- **A server with a bound**, which is not zero: `prepare` refuses that. -/
def serverMachine (π : Type) [DecidableEq π] (limit : Option ℕ+) :
    Machine (Server π) (Action π) where
  init := {}
  step s a := s.step limit a

variable {π : Type} {limit : Option ℕ+} {s s' : Server π} {m : Message π} {i : ℕ}
  {kind : RecordKind} {stage : RecordStage} {a : Action π}

/-! ## The records in flight -/

/-- Whether a record is handed over and neither settled nor dropped. -/
def Record.held (r : Record π) : Bool := r.stage = .inFlight

namespace Server

/-- The records in flight are counted. -/
def Counted (s : Server π) : Prop := s.records.countP Record.held ≤ s.inflight

theorem Counted.hand (hs : s.Counted) (m : Message π) : (s.hand m).Counted := by
  show (s.records ++ [_]).countP Record.held ≤ s.inflight + 1
  rw [countP_append]
  exact Nat.add_le_add_right hs 1

theorem Counted.stopLane (hs : s.Counted) : s.stopLane.Counted := by
  show (s.records ++ _).countP Record.held ≤ s.inflight
  rw [countP_append, countP_map, countP_eq_zero (l := s.lane.kept) |>.mpr]
  · exact hs
  · simp [Record.held]

/-- **The bound**: the lane hands over below it. -/
structure Bound (limit : Option ℕ+) (s : Server π) : Prop where
  counted : s.Counted
  bound : ∀ l ∈ limit, s.inflight ≤ l
  roomy : s.lane.roomy = true → under limit s.inflight = true

theorem le_of_under {n k : ℕ} (h : under limit n = true) (hk : k ≤ n + 1) : ∀ l ∈ limit, k ≤ l := by
  rintro l rfl
  have hlt : n < (l : ℕ) := of_decide_eq_true h
  omega

theorem under_of_le {n k : ℕ} (h : under limit n = true) (hk : k ≤ n) : under limit k = true := by
  cases limit with
  | none => rfl
  | some l =>
    have hlt : n < (l : ℕ) := of_decide_eq_true h
    exact decide_eq_true (by omega)

theorem Bound.init : Bound limit ({} : Server π) where
  counted := Nat.le_refl 0
  bound _ _ := Nat.zero_le _
  roomy _ := by
    cases limit with
    | none => rfl
    | some l => exact decide_eq_true l.pos

/-- The lane goes on, and does not read before it has found room. -/
theorem Bound.lane (hs : s.Bound limit) {lane : RequestLane π} {part : π → Assigned}
    (hroomy : lane.roomy = true → under limit s.inflight = true) :
    Bound limit { s with lane, part } := ⟨hs.counted, hs.bound, hroomy⟩

variable [DecidableEq π]

@[simp]
theorem storeOffset_records : (s.storeOffset m).records = s.records := by
  unfold storeOffset
  split <;> rfl

@[simp]
theorem storeOffset_inflight : (s.storeOffset m).inflight = s.inflight := by
  unfold storeOffset
  split <;> rfl

@[simp]
theorem storeOffset_lane : (s.storeOffset m).lane = s.lane := by
  unfold storeOffset
  split <;> rfl

/-- **What the end of an `Ack` does.** -/
theorem release_eq (h : s.release i stage = some s') :
    ∃ r, s.records[i]? = some r ∧ r.stage = .inFlight ∧
      s' = { (if stage = .settled then s.storeOffset r.message else s) with
        records := s.records.set i { r with stage }
        inflight := s.inflight - 1 } := by
  unfold release at h
  split at h
  · rename_i r hr
    split at h
    · rename_i hheld
      refine ⟨r, hr, hheld, ?_⟩
      cases h
      split_ifs <;> simp
    · cases h
  · cases h

/-- The end of an `Ack` lowers the count with the records. -/
theorem Counted.release (hs : s.Counted) (hstage : stage ≠ .inFlight)
    (h : s.release i stage = some s') : s'.Counted ∧ s'.inflight ≤ s.inflight ∧
      s'.lane = s.lane := by
  obtain ⟨r, hr, hheld, rfl⟩ := release_eq h
  refine ⟨?_, Nat.sub_le _ _, ?_⟩
  · show (s.records.set i _).countP Record.held ≤ s.inflight - 1
    obtain ⟨hi, rfl⟩ := List.getElem?_eq_some_iff.mp hr
    have hs : s.records.countP Record.held ≤ s.inflight := hs
    rw [countP_set hi, if_pos (by simpa [Record.held] using hheld),
      if_neg (by simpa [Record.held] using hstage)]
    omega
  · show (if stage = .settled then s.storeOffset r.message else s).lane = s.lane
    split_ifs
    · exact storeOffset_lane
    · rfl

/-- One record handed over raises the count by one at most. -/
theorem Counted.onRequest (hs : s.Counted) (h : s.onRequest m kind = some s') :
    s'.Counted ∧ s'.inflight ≤ s.inflight + 1 := by
  unfold Server.onRequest at h
  split_ifs at h
  · obtain ⟨hcounted, hle, -⟩ := (hs.hand m).release (by decide) h
    exact ⟨hcounted, hle⟩
  · cases h
    exact ⟨hs.hand m, Nat.le_refl _⟩

theorem Bound.release (hs : s.Bound limit) (hstage : stage ≠ .inFlight)
    (h : s.release i stage = some s') : s'.Bound limit := by
  obtain ⟨hcounted, hle, hlane⟩ := hs.counted.release hstage h
  refine ⟨hcounted, fun l hl => Nat.le_trans hle (hs.bound l hl), fun hroomy => ?_⟩
  rw [hlane] at hroomy
  exact under_of_le (hs.roomy hroomy) hle

end Server

/-! ## The stored positions -/

namespace Server

/-- What was read and has not settled, of the records let go of. -/
def unsettled (rs : List (Record π)) : List (Message π) :=
  (rs.filter fun r => r.stage ≠ .settled).map Record.message

/-- What was read and has not settled. -/
def pending (s : Server π) : List (Message π) := unsettled s.records ++ s.lane.kept

/-- Whether some records are each of another partition than a record or past it. -/
def past [DecidableEq π] (m : Message π) (ms : List (Message π)) : Bool :=
  ms.all fun m' => m'.partition ≠ m.partition || m.offset < m'.offset

/-- Whether the consumer has read past a record. -/
def hasRead (s : Server π) (m : Message π) : Bool :=
  (s.part m.partition).position.all (m.offset < ·)

/-- **The condition on a step**: what settles in it is the next of its partition. The others
read up to its offset have settled, and none is left to be read there. -/
def inTurn [DecidableEq π] (s : Server π) : Action π → Bool
  | .settle i =>
    s.records[i]?.all fun r =>
      past r.message (unsettled (s.records.eraseIdx i) ++ s.lane.kept) && s.hasRead r.message
  | .receive m .unknown => s.lane ≠ .reading || past m (unsettled s.records)
  | .next .unknown =>
    match s.lane with
    | .bounded (m :: kept) => past m (unsettled s.records ++ kept) && s.hasRead m
    | _ => true
  | _ => true

variable {ms : List (Message π)} {rs : List (Record π)}

/-- **The stored positions stay behind** the records that have not settled, and behind those
that are still to be read. -/
structure Behind (s : Server π) : Prop where
  pending : ∀ m ∈ s.pending, ∀ q ∈ (s.part m.partition).stored, q ≤ m.offset
  unread : ∀ p, ∀ q ∈ (s.part p).stored, ∀ n ∈ (s.part p).position, q ≤ n

/-- No position is stored or moved, and what is newly pending is past the stored one. -/
theorem Behind.mono (hs : s.Behind)
    (hpending : ∀ m ∈ s'.pending, m ∈ s.pending ∨ ∀ q ∈ (s.part m.partition).stored, q ≤ m.offset)
    (hpart : ∀ p, (s'.part p).stored = (s.part p).stored ∧
      (s'.part p).position = (s.part p).position) : s'.Behind where
  pending m hm q hq := by
    rw [(hpart m.partition).1] at hq
    exact (hpending m hm).elim (fun hm => hs.pending m hm q hq) fun hle => hle q hq
  unread p q hq n hn := by
    rw [(hpart p).1] at hq
    rw [(hpart p).2] at hn
    exact hs.unread p q hq n hn

/-- A record is read at the position or past it, which the stored one is behind. -/
theorem Behind.stored_le (hs : s.Behind)
    (hat : (s.part m.partition).position.any (· ≤ m.offset) = true) :
    ∀ q ∈ (s.part m.partition).stored, q ≤ m.offset := by
  intro q hq
  cases hn : (s.part m.partition).position with
  | none => simp [hn] at hat
  | some n => exact Nat.le_trans (hs.unread _ q hq n hn) (by simpa [hn] using hat)

theorem unsettled_append (rs rs' : List (Record π)) :
    unsettled (rs ++ rs') = unsettled rs ++ unsettled rs' := by
  rw [unsettled, filter_append, map_append]
  rfl

/-- A record that settles leaves the others. -/
theorem unsettled_set {r : Record π} (hi : i < rs.length) (hr : r.stage = .settled) :
    unsettled (rs.set i r) = unsettled (rs.eraseIdx i) := by
  rw [set_eq_take_append_cons_drop, if_pos hi, eraseIdx_eq_take_drop_succ,
    unsettled_append, unsettled_append]
  simp [unsettled, hr]

theorem mem_unsettled : m ∈ unsettled rs ↔ ∃ r ∈ rs, r.stage ≠ .settled ∧ r.message = m := by
  simp [unsettled, and_assoc]

theorem mem_unsettled_of_eraseIdx (h : m ∈ unsettled (rs.eraseIdx i)) : m ∈ unsettled rs := by
  obtain ⟨r, hr, hstage, rfl⟩ := mem_unsettled.mp h
  exact mem_unsettled.mpr ⟨r, mem_of_mem_eraseIdx hr, hstage, rfl⟩

/-- What the lane kept is dropped, and still pending. -/
theorem Behind.stopLane (hs : s.Behind) : s.stopLane.Behind := by
  refine hs.mono (fun m hm => .inl ?_) fun p => ⟨rfl, rfl⟩
  have hm : m ∈ unsettled (s.records ++ s.lane.kept.map fun m =>
    { message := m, stage := .dropped }) := by
    simpa [Server.pending, Server.stopLane] using hm
  rw [unsettled_append] at hm
  refine mem_append.mpr ((mem_append.mp hm).imp_right fun hm => ?_)
  simpa [unsettled] using hm

/-- The lane goes on, and keeps no more. -/
theorem Behind.lane (hs : s.Behind) {lane : RequestLane π} {part : π → Assigned}
    (hkept : ∀ m ∈ lane.kept, m ∈ s.lane.kept)
    (hpart : ∀ p, (part p).stored = (s.part p).stored ∧ (part p).position = (s.part p).position) :
    Behind { s with lane, part } := by
  refine hs.mono (fun m hm => .inl ?_) hpart
  exact mem_append.mpr ((mem_append.mp hm).imp_right (hkept m))

variable [DecidableEq π]

/-- A partition that is assigned anew, or revoked, has no position stored. -/
theorem Behind.setPart (hs : s.Behind) (p : π) (part : Assigned) (hpart : part.stored = none) :
    (s.setPart p part).Behind where
  pending m hm q hq := by
    by_cases hp : m.partition = p
    · simp [Server.setPart, hp, hpart] at hq
    · exact hs.pending m hm q (by simpa [Server.setPart, hp] using hq)
  unread p' q hq n hn := by
    by_cases hp : p' = p
    · simp [Server.setPart, hp, hpart] at hq
    · exact hs.unread p' q (by simpa [Server.setPart, hp] using hq) n
        (by simpa [Server.setPart, hp] using hn)

theorem Behind.read (hs : s.Behind)
    (hat : (s.part m.partition).position.any (· ≤ m.offset) = true) : (s.read m).Behind where
  pending m' hm' q hq := by
    refine hs.pending m' hm' q ?_
    by_cases hp : m'.partition = m.partition
    · simpa [Server.read, Server.setPart, hp] using hq
    · simpa [Server.read, Server.setPart, hp] using hq
  unread p q hq n hn := by
    by_cases hp : p = m.partition
    · subst hp
      have hq : q ∈ (s.part m.partition).stored := by simpa [Server.read, Server.setPart] using hq
      have hn : m.offset + 1 = n := by simpa [Server.read, Server.setPart] using hn
      have := hs.stored_le hat q hq
      omega
    · exact hs.unread p q (by simpa [Server.read, Server.setPart, hp] using hq) n
        (by simpa [Server.read, Server.setPart, hp] using hn)

/-- **A position is stored** behind what is pending then. -/
theorem Behind.store (hs : s.Behind) (hpast : past m ms = true) (hread : s.hasRead m = true)
    (hms : ∀ m' ∈ ms, m' ∈ s.pending) (hpending : ∀ m' ∈ s'.pending, m' ∈ ms)
    (hpart : s'.part = (s.storeOffset m).part) : s'.Behind := by
  unfold storeOffset at hpart
  split at hpart
  · rename_i n hn
    have hlt : m.offset < n := by simpa [hasRead, hn] using hread
    constructor
    · intro m' hm' q hq
      have hm' := hpending m' hm'
      by_cases hp : m'.partition = m.partition
      · have hq : m.offset + 1 = q := by simpa [hpart, Server.setPart, hp] using hq
        have := all_eq_true.mp hpast m' hm'
        simp only [hp, ne_eq, not_true_eq_false, decide_false, Bool.false_or] at this
        have := of_decide_eq_true this
        omega
      · refine hs.pending m' (hms m' hm') q ?_
        simpa [hpart, Server.setPart, hp] using hq
    · intro p q hq n' hn'
      by_cases hp : p = m.partition
      · subst hp
        have hq : m.offset + 1 = q := by simpa [hpart, Server.setPart] using hq
        have hn' : n' = n := by
          rw [hpart] at hn'
          simpa [Server.setPart, hn, eq_comm] using hn'
        omega
      · exact hs.unread p q (by simpa [hpart, Server.setPart, hp] using hq) n'
          (by simpa [hpart, Server.setPart, hp] using hn')
  · exact hs.mono (fun m' hm' => .inl (hms m' (hpending m' hm'))) fun p => by
      rw [hpart]
      exact ⟨rfl, rfl⟩

/-- What `on_request` does for a kind the link does not know. -/
theorem onRequest_unknown (h : s.onRequest m .unknown = some s') :
    s'.part = (s.storeOffset m).part ∧ unsettled s'.records = unsettled s.records := by
  unfold onRequest at h
  rw [if_pos rfl] at h
  obtain ⟨r, hr, -, rfl⟩ := release_eq h
  have hr : r = { message := m, stage := .inFlight } := by
    rw [hand, getElem?_concat_length] at hr
    exact (Option.some.inj hr).symm
  subst hr
  refine ⟨?_, ?_⟩
  · show (if (RecordStage.settled = .settled) then (s.hand m).storeOffset m else s.hand m).part = _
    rw [if_pos rfl]
    unfold storeOffset
    show (match (s.part m.partition).position with
      | some _ => _
      | none => _ : Server π).part = _
    split <;> rfl
  · show unsettled ((s.records ++ [_]).set s.records.length _) = _
    rw [unsettled_set (by simp) rfl]
    simp [eraseIdx_append]

theorem onRequest_known (hkind : kind ≠ .unknown) (h : s.onRequest m kind = some s') :
    s' = s.hand m := by
  rw [onRequest, if_neg hkind] at h
  exact (Option.some.inj h).symm

/-- **A record is handed over**, which is settled at once if its kind is unknown, and behind it
what the lane keeps is left. -/
theorem Behind.onRequest (hs : s.Behind) {lane : RequestLane π}
    (hturn : kind = .unknown → past m (unsettled s.records ++ lane.kept) = true ∧
      s.hasRead m = true)
    (hkept : ∀ m' ∈ lane.kept, m' ∈ s.pending)
    (hm : m ∈ s.pending ∨ ∀ q ∈ (s.part m.partition).stored, q ≤ m.offset)
    (h : s.onRequest m kind = some s') : Behind { s' with lane } := by
  have hleft : ∀ m' ∈ unsettled s.records ++ lane.kept, m' ∈ s.pending := fun m' hm' =>
    (mem_append.mp hm').elim (mem_append_left _) (hkept m')
  by_cases hkind : kind = .unknown
  · obtain ⟨hpast, hread⟩ := hturn hkind
    subst hkind
    obtain ⟨hpart, hrecords⟩ := onRequest_unknown h
    refine hs.store hpast hread hleft (fun m' hm' => ?_) hpart
    rw [← hrecords]
    exact hm'
  · rw [onRequest_known hkind h]
    refine hs.mono (fun m' hm' => ?_) fun p => ⟨rfl, rfl⟩
    have hm' : m' ∈ unsettled (s.records ++ [{ message := m, stage := .inFlight }]) ++ lane.kept :=
      hm'
    rw [unsettled_append, mem_append, mem_append] at hm'
    rcases hm' with (hm' | hm') | hm'
    · exact .inl (mem_append_left _ hm')
    · rw [show m' = m from mem_singleton.mp hm']
      exact hm
    · exact .inl (hkept m' hm')

/-- **Every step keeps the bound**, and the stored positions behind where it is in turn. -/
theorem Bound.step (hs : s.Bound limit) (h : s.step limit a = some s') :
    s'.Bound limit ∧ (s.inTurn a = true → s.Behind → s'.Behind) := by
  cases a with simp only [Server.step] at h
  | assign p | revoke p =>
    cases h
    exact ⟨{ hs with }, fun _ hb => hb.setPart p _ rfl⟩
  | receive m kind =>
    split_ifs at h with hat
    obtain ⟨hat, -⟩ := Bool.and_eq_true_iff.mp hat
    have hstored (hb : s.Behind) : ∀ q ∈ ((s.read m).part m.partition).stored, q ≤ m.offset := by
      simpa [Server.read, Server.setPart] using hb.stored_le hat
    split at h
    · -- the lane reads below the bound, so that one more is within it
      rename_i hlane
      obtain ⟨s₁, h₁, rfl⟩ := Option.map_eq_some_iff.mp h
      obtain ⟨hcounted, hle⟩ := Counted.onRequest (s := s.read m) hs.counted h₁
      refine ⟨⟨hcounted, le_of_under (hs.roomy (by rw [hlane]; rfl)) hle, nofun⟩,
        fun hturn hb => ?_⟩
      refine (hb.read hat).onRequest (fun hkind => ⟨?_, ?_⟩) (by simp) (.inr (hstored hb)) h₁
      · subst hkind
        simpa [inTurn, hlane, Server.read, Server.setPart] using hturn
      · simp [hasRead, Server.read, Server.setPart]
    · rename_i kept hlane
      cases h
      refine ⟨hs.lane nofun, fun _ hb => (hb.read hat).mono (fun m' hm' => ?_) fun p => ⟨rfl, rfl⟩⟩
      have hm' : m' ∈ unsettled s.records ++ (kept ++ [m]) := hm'
      rw [← append_assoc] at hm'
      refine (mem_snoc.mp hm').imp (fun hm' => ?_) ?_
      · show m' ∈ unsettled s.records ++ s.lane.kept
        rwa [hlane]
      · rintro rfl
        exact hstored hb
    · cases h
  | check =>
    split_ifs at h with _ hunder <;> cases h
    · exact ⟨hs.lane fun _ => hunder, fun _ hb => hb.lane (by simp) fun p => ⟨rfl, rfl⟩⟩
    · exact ⟨hs.lane nofun, fun _ hb => hb.lane (by simp) fun p => ⟨rfl, rfl⟩⟩
  | next kind =>
    split at h
    · rename_i kept hlane
      split_ifs at h with hunder
      · split at h
        · cases h
          exact ⟨hs.lane fun _ => hunder, fun _ hb => hb.lane (by simp) fun p => ⟨rfl, rfl⟩⟩
        · rename_i m kept
          obtain ⟨s₁, h₁, rfl⟩ := Option.map_eq_some_iff.mp h
          obtain ⟨hcounted, hle⟩ := hs.counted.onRequest h₁
          have hkept : ∀ m' ∈ m :: kept, m' ∈ s.pending := fun m' hm' =>
            mem_append_right _ (by rwa [hlane])
          refine ⟨⟨hcounted, le_of_under hunder hle, nofun⟩, fun hturn hb => ?_⟩
          refine hb.onRequest (fun hkind => ?_) (fun m' hm' => hkept m' (mem_cons_of_mem _ hm'))
            (.inl (hkept m mem_cons_self)) h₁
          subst hkind
          simp only [inTurn, hlane] at hturn
          exact Bool.and_eq_true_iff.mp hturn
      · cases h
        exact ⟨hs.lane nofun, fun _ hb => hb.lane (by simp [hlane]) fun p => ⟨rfl, rfl⟩⟩
    · cases h
  | wake =>
    split at h
    · rename_i hlane
      cases h
      exact ⟨hs.lane nofun, fun _ hb => hb.lane (by simp [hlane]) fun p => ⟨rfl, rfl⟩⟩
    · cases h
  | resume =>
    obtain ⟨hlane, h⟩ := Option.ite_none_right_eq_some.mp h
    cases h
    refine ⟨hs.lane fun _ => hs.roomy (by rw [hlane]; rfl), fun _ hb =>
      hb.lane (by simp) fun p => ?_⟩
    split_ifs <;> exact ⟨rfl, rfl⟩
  | settle =>
    refine ⟨hs.release (by decide) h, fun hturn hb => ?_⟩
    obtain ⟨r, hr, -, rfl⟩ := release_eq h
    obtain ⟨hi, -⟩ := List.getElem?_eq_some_iff.mp hr
    simp only [inTurn, hr, Option.all_some] at hturn
    obtain ⟨hpast, hread⟩ := Bool.and_eq_true_iff.mp hturn
    refine hb.store hpast hread (fun m' hm' => ?_) (fun m' hm' => ?_) rfl
    · exact mem_append.mpr ((mem_append.mp hm').imp_left mem_unsettled_of_eraseIdx)
    · rw [← unsettled_set (r := { r with stage := .settled }) hi rfl]
      simpa [Server.pending] using hm'
  | drop =>
    refine ⟨hs.release (by decide) h, fun _ hb => ?_⟩
    obtain ⟨r, hr, hheld, rfl⟩ := release_eq h
    refine hb.mono (fun m' hm' => .inl ?_) fun p => ⟨rfl, rfl⟩
    refine mem_append.mpr ((mem_append.mp hm').imp_left fun hm' => ?_)
    obtain ⟨r', hr', hstage, rfl⟩ := mem_unsettled.mp hm'
    rcases mem_or_eq_of_mem_set hr' with hr' | rfl
    · exact mem_unsettled.mpr ⟨r', hr', hstage, rfl⟩
    · exact mem_unsettled.mpr ⟨r, mem_of_getElem? hr, by simp [hheld], rfl⟩
  | drain | pause =>
    obtain ⟨-, h⟩ := Option.ite_none_right_eq_some.mp h
    cases h
    exact ⟨{ hs with }, fun _ hb => hb.mono (fun m hm => .inl hm) fun p => ⟨rfl, rfl⟩⟩
  | stop =>
    obtain ⟨-, h⟩ := Option.ite_none_left_eq_some.mp h
    split at h <;> cases h <;>
      exact ⟨⟨hs.counted.stopLane, hs.bound, nofun⟩, fun _ hb => hb.stopLane⟩
  | close =>
    cases h
    exact ⟨⟨hs.counted.stopLane, hs.bound, nofun⟩, fun _ hb => { hb.stopLane with }⟩

/-- **Commits behind the unsettled, within the bound**: in every run the records handed over
and neither settled nor dropped are within the bound; and where each record settles in the
turn of its partition, the stored position of a partition is at most the offset of each
record of it that was read and has not settled, kept aside and dropped ones included. -/
theorem commits_behind {t : List (Action π)} (h : (serverMachine π limit).run t = some s) :
    (∀ l ∈ limit, s.records.countP Record.held ≤ l) ∧
      ((∀ pre s₀ a, (serverMachine π limit).TookAt t pre s₀ a → s₀.inTurn a = true) →
        ∀ m ∈ s.pending, ∀ q ∈ (s.part m.partition).stored, q ≤ m.offset) := by
  refine ⟨fun l hl => ?_, fun hturn => ?_⟩
  · have hs : s.Bound limit :=
      Machine.invariant (P := Bound limit) Bound.init (fun _ _ _ hs hstep => (hs.step hstep).1) h
    exact Nat.le_trans hs.counted (hs.bound l hl)
  · refine Behind.pending (And.right (a := s.Bound limit) ?_)
    refine Machine.invariant_of_steps (P := fun s => s.Bound limit ∧ s.Behind)
      (C := fun s a => s.inTurn a = true) ⟨.init, ?_⟩ ?_ hturn h
    · exact ⟨fun m hm => absurd hm not_mem_nil, fun p q hq => by cases hq⟩
    · exact fun _ _ _ hs hC hstep => (hs.1.step hstep).imp_right fun hb => hb hC hs.2

/-- Two records of a partition under a bound of two, settled in their order. -/
def settlesInOrder : List (Action Bool) :=
  [.assign true 5, .receive ⟨true, 5⟩ .req, .check, .receive ⟨true, 6⟩ .evt, .check, .settle 0,
    .next .evt, .resume, .receive ⟨true, 7⟩ .req]

/-- The position is past the first record and at the second. -/
theorem commits_behind_in_order :
    ∃ s, (serverMachine Bool (some 2)).run settlesInOrder = some s ∧
      s.pending = [⟨true, 6⟩, ⟨true, 7⟩] ∧ (s.part true).stored = some 6 ∧
      (∀ l ∈ some (2 : ℕ+), s.records.countP Record.held ≤ l) ∧
      ∀ m ∈ s.pending, ∀ q ∈ (s.part m.partition).stored, q ≤ m.offset := by
  obtain ⟨hbound, hbehind⟩ :=
    commits_behind (show (serverMachine Bool (some 2)).run settlesInOrder = some _ from rfl)
  refine ⟨_, rfl, rfl, rfl, hbound, hbehind fun _ _ _ htook => ?_⟩
  exact htook.of_checks (C := fun s a => s.inTurn a) rfl

/-- The second of two records settles while the first is still running. -/
def settlesFirst : List (Action Bool) :=
  [.assign true 5, .receive ⟨true, 5⟩ .req, .check, .receive ⟨true, 6⟩ .evt, .settle 1]

/-- **The later record takes the position past the earlier one**: the position is 7, and the
record at 5 has not settled. -/
theorem overtaken :
    ∃ s, (serverMachine Bool (some 2)).run settlesFirst = some s ∧
      ∃ m ∈ s.pending, ∃ q ∈ (s.part m.partition).stored, m.offset < q :=
  ⟨_, rfl, ⟨true, 5⟩, by decide, 7, rfl, by decide⟩

end Server

end Ulo.Kafka
