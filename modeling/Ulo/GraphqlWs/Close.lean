import Ulo.GraphqlWs.Operations

/-!
# The closes of a GraphQL connection

The gateway closes a connection for a message it cannot read (4400), for a `subscribe`
before the `connection_init` (4401) or under an id in use (4409), for a second
`connection_init` (4429), and from the watch it spawned with the connection, when the
first one does not arrive in time (4408, or 1001 when the timer has shut down). Each
close requests the end of the connection and cancels what runs on it.

Two things are not ruled out by that. A close is a request: the frames already read go
on being handled, one by one, and a `subscribe` among them is admitted and handed to the
engine of a connection that is closing. And the watch looks at the acknowledgment before
it closes, so that a `connection_init` handled in between is acknowledged and then closed
for being late (`closing_races`). Where no `subscribe` is handled after a close was
requested, and no `connection_init` by the watch's side, an operation starts on an open
and acknowledged connection only, and a close leaves none running (`starts_only_open`).
-/

namespace Ulo.GraphqlWs

open List

namespace Session

variable {ι : Type} {s s' : Session ι} {k : ℕ} {a : SessionAction ι} {entries : List Logged}

/-- A close was requested. -/
def closing (s : Session ι) : Bool :=
  s.log.any fun entry => match entry with
    | .closing _ => true
    | _ => false

/-- **No `subscribe` is handled after a close was requested**, and no `connection_init`
between the watch's check and its close. -/
def inTurn (s : Session ι) : SessionAction ι → Bool
  | .message (.subscribe _) _ => !s.closing
  | .message .init _ =>
    match s.watch with
    | .close (.request _) => false
    | _ => true
  | _ => true

/-- What may stand before what in the log: nothing is handed on after a close, the
acknowledgment does not come after it, and nothing is late once it is acknowledged. -/
def MayFollow : Logged → Logged → Prop
  | .closing _, .handed _ => False
  | .handed _, .acked => False
  | .acked, .closing code => code ≠ 4408
  | _, _ => True

/-- An entry that may stand anywhere. -/
def plain : Logged → Bool
  | .acked | .handed _ | .closing _ => false
  | _ => true

/-- **The invariant of a connection whose messages are handled in turn.** -/
structure Open (s : Session ι) : Prop where
  acked : s.acknowledged = true ↔ .acked ∈ s.log
  admitted : ∀ k, .admitted k ∈ s.log → k < s.ops.length
  handed : ∀ k, .handed k ∈ s.log → s.acknowledged = true
  hand : ∀ k, s.handler = .hand k → s.acknowledged = true ∧ s.closing = false
  watch : ∀ code, s.watch = .close (.request code) → s.acknowledged = false
  code : ∀ code, s.handler = .close (.request code) → code ≠ 4408
  hangup : ∀ code, s.hangup ≠ .request code
  /-- a close takes the table before it is over -/
  swept : s.closing = true → s.running = ∅ ∨ s.handler = .close .sweep ∨ s.watch = .close .sweep
  order : s.log.Pairwise MayFollow

theorem closing_eq_true : s.closing = true ↔ ∃ code, .closing code ∈ s.log := by
  unfold closing
  rw [any_eq_true]
  refine ⟨fun ⟨entry, hentry, hclosing⟩ => ?_, fun ⟨code, hcode⟩ => ⟨_, hcode, rfl⟩⟩
  cases entry <;> first | exact ⟨_, hentry⟩ | cases hclosing

theorem closing_of_append (hlog : s'.log = s.log ++ entries)
    (hentries : ∀ code, .closing code ∉ entries) : s'.closing = s.closing := by
  refine Bool.eq_iff_iff.mpr ?_
  rw [closing_eq_true, closing_eq_true, hlog]
  refine exists_congr fun code => ?_
  rw [mem_append, or_iff_left (hentries code)]

theorem MayFollow.of_plain (x : Logged) {y : Logged} (hy : plain y = true) : MayFollow x y := by
  cases y <;> cases x <;> trivial

section

variable (h : s.Open) (hack : s'.acknowledged = s.acknowledged)
  (hlength : s.ops.length ≤ s'.ops.length) (hlog : s'.log = s.log ++ entries)
  (hplain : ∀ entry ∈ entries, plain entry = true)
include h hack hlength hlog hplain

/-- **Nothing is acknowledged, handed on or closed.** -/
theorem Open.frame (hadmitted : ∀ k, .admitted k ∈ entries → k < s'.ops.length)
    (hhand : ∀ k, s'.handler = .hand k → s.acknowledged = true ∧ s.closing = false)
    (hwatch : ∀ code, s'.watch = .close (.request code) → s.acknowledged = false)
    (hcode : ∀ code, s'.handler = .close (.request code) → code ≠ 4408)
    (hhangup : ∀ code, s'.hangup ≠ .request code) (hswept : s.closing = true →
      s'.running = ∅ ∨ s'.handler = .close .sweep ∨ s'.watch = .close .sweep) : s'.Open := by
  have hclosing : s'.closing = s.closing :=
    closing_of_append hlog fun code hc => by cases hplain _ hc
  refine ⟨?_, fun k hk => ?_, fun k hk => ?_, fun k hk => ?_, fun code hc => ?_, hcode, hhangup,
    fun hc => hswept (hclosing ▸ hc), ?_⟩
  · rw [hack, hlog, mem_append, h.acked]
    exact (or_iff_left fun hk => by cases hplain _ hk).symm
  · rw [hlog] at hk
    rcases mem_append.mp hk with hk | hk
    · exact Nat.lt_of_lt_of_le (h.admitted k hk) hlength
    · exact hadmitted k hk
  · rw [hlog] at hk
    rw [hack]
    exact h.handed k ((mem_append.mp hk).resolve_right fun hk => by cases hplain _ hk)
  · rw [hack, hclosing]
    exact hhand k hk
  · rw [hack]
    exact hwatch code hc
  · rw [hlog]
    exact pairwise_append.mpr ⟨h.order,
      pairwise_of_forall_mem_list fun x _ y hy => .of_plain x (hplain y hy),
      fun x _ y hy => .of_plain x (hplain y hy)⟩

/-- A task moves on: what the handler, the watch and the table say stays. -/
theorem Open.task (hadmitted : ∀ k, .admitted k ∉ entries) (hhandler : s'.handler = s.handler)
    (hwatch : s'.watch = s.watch) (hhangup : s'.hangup = s.hangup)
    (hrunning : s.running = ∅ → s'.running = ∅) : s'.Open := by
  refine h.frame hack hlength hlog hplain (fun k hk => absurd hk (hadmitted k)) ?_ ?_ ?_ ?_ ?_
  · exact hhandler ▸ h.hand
  · exact hwatch ▸ h.watch
  · exact hhandler ▸ h.code
  · exact hhangup ▸ h.hangup
  · rw [hhandler, hwatch]
    exact fun hc => (h.swept hc).imp_left hrunning

end

/-- **A close is requested**, by the handler or by the watch, with the sweep to come. -/
theorem Open.request (h : s.Open) {code : ℕ} (hlate : s.acknowledged = true → code ≠ 4408)
    (hack : s'.acknowledged = s.acknowledged) (hops : s'.ops = s.ops)
    (hlog : s'.log = s.log ++ [.closing code]) (hhand : ∀ k, s'.handler ≠ .hand k)
    (hwatch : ∀ code, s'.watch = .close (.request code) → s.acknowledged = false)
    (hcode : ∀ code, s'.handler = .close (.request code) → code ≠ 4408)
    (hhangup : s'.hangup = s.hangup)
    (hsweep : s'.handler = .close .sweep ∨ s'.watch = .close .sweep) : s'.Open := by
  refine ⟨?_, fun k hk => ?_, fun k hk => ?_, fun k hk => absurd hk (hhand k), hack ▸ hwatch, hcode,
    hhangup ▸ h.hangup, fun _ => .inr hsweep, ?_⟩
  · rw [hack, hlog, h.acked]
    simp
  · rw [hlog] at hk
    rw [hops]
    exact h.admitted k (by simpa using hk)
  · rw [hlog] at hk
    rw [hack]
    exact h.handed k (by simpa using hk)
  · rw [hlog]
    refine h.order.snoc fun x hx => ?_
    cases x with
    | acked => exact hlate (h.acked.mpr hx)
    | _ => trivial

/-- **The first `connection_init` is acknowledged**, away from the watch's close. -/
theorem Open.acknowledge (h : s.Open) (hidle : s.handler = .idle) (hnot : s.acknowledged = false)
    (hwatch : ∀ code, s.watch ≠ .close (.request code)) :
    Open { s with acknowledged := true, log := s.log ++ [.acked], handler := .ack } := by
  have hclosing : closing { s with
      acknowledged := true, log := s.log ++ [.acked], handler := .ack } =
      s.closing := closing_of_append rfl (by simp)
  refine ⟨by simp, fun k hk => h.admitted k (by simpa using hk), fun _ _ => rfl, by simp,
    fun code hc => absurd hc (hwatch code), by simp, h.hangup, fun hc => ?_, ?_⟩
  · have hswept := h.swept (hclosing ▸ hc)
    rw [hidle] at hswept
    simpa using hswept
  · refine h.order.snoc fun x hx => ?_
    cases x with
    | handed k => cases hnot.symm.trans (h.handed k hx)
    | _ => trivial

/-- **The operation of the handler is handed on.** -/
theorem Open.hands (h : s.Open) (hhand : s.handler = .hand k) : Open (s.handOver k) := by
  unfold handOver
  obtain ⟨hack, hclosing⟩ := h.hand k hhand
  refine ⟨by simpa using h.acked, fun j hj => ?_, fun _ _ => hack, by simp, h.watch, by simp,
    h.hangup, fun hc => ?_, ?_⟩
  · show j < (s.ops.modify k _).length
    rw [length_modify]
    exact h.admitted j (by simpa using hj)
  · rw [closing_of_append rfl (by simp), hclosing] at hc
    cases hc
  · refine h.order.snoc fun x hx => ?_
    cases x with
    | closing code => cases hclosing.symm.trans (closing_eq_true.mpr ⟨code, hx⟩)
    | _ => trivial

/-- What a `close` does after its request. -/
theorem closeStep_tail {t : Session ι} {reason : CancelReason} {closer closer' : Closer}
    (hstep : s.closeStep reason closer = some (t, closer'))
    (hrequest : ∀ code, closer ≠ .request code) :
    t.log = s.log ∧ t.ops.length = s.ops.length ∧ closer' ≠ .sweep ∧
      (∀ code, closer' ≠ .request code) ∧
        (t.running = ∅ ∨ closer ≠ .sweep ∧ t.running = s.running) := by
  unfold closeStep at hstep
  split at hstep
  · exact absurd rfl (hrequest _)
  · cases hstep
    exact ⟨rfl, rfl, by simp, by simp, .inl rfl⟩
  · cases hstep
    exact ⟨rfl, length_modify .., by simp, by simp, .inr ⟨by simp, rfl⟩⟩
  · cases hstep
    exact ⟨rfl, rfl, by simp, by simp, .inr ⟨by simp, rfl⟩⟩
  · cases hstep

variable [DecidableEq ι]

theorem Open.message (h : s.Open) (hidle : s.handler = .idle) {message : ClientMessage ι}
    {opens : Bool}
    (hturn : s.inTurn (.message message opens) = true) : (s.onMessage opens message).Open := by
  -- an idle handler has swept
  have hswept : s.closing = true → s.running = ∅ ∨ s.watch = .close .sweep := fun hc => by
    have hswept := h.swept hc
    rw [hidle] at hswept
    simpa using hswept
  -- a message that only moves the handler
  have hframe : ∀ handler : Handler ι, (∀ k, handler ≠ .hand k) →
      (∀ code, handler = .close (.request code) → code ≠ 4408) →
        Open { s with handler := handler } :=
    fun handler hhand hcode => h.frame rfl le_rfl (append_nil _).symm (by simp) (by simp)
      (fun k hk => absurd hk (hhand k)) h.watch hcode h.hangup
      fun hc => (hswept hc).imp_right .inr
  cases message with
  | init =>
    simp only [onMessage]
    split
    · exact hframe _ (by simp) (by simp)
    · rename_i hnot
      refine h.acknowledge hidle (Bool.eq_false_iff.mpr hnot) fun code hc => ?_
      simp [inTurn, hc] at hturn
  | ping | invalid => exact hframe _ (by simp) (by simp)
  | pong => exact h
  | subscribe =>
    have hopen : s.closing = false := by simpa [inTurn] using hturn
    simp only [onMessage]
    split
    · exact hframe _ (by simp) (by simp)
    · rename_i hack
      split
      · exact h.frame rfl le_rfl rfl (by simp [plain]) (by simp) (by simp) h.watch
          (by simp) h.hangup fun hc => by cases hopen.symm.trans hc
      · split
        · unfold subscribe
          refine h.frame rfl (by simp) rfl (by simp [plain]) (by simp)
            (fun _ _ => ⟨?_, hopen⟩) h.watch
            (by simp) h.hangup fun hc => by cases hopen.symm.trans hc
          simpa using hack
        · exact hframe _ (by simp) (by simp)
  | complete =>
    simp only [onMessage]
    split
    · refine h.frame rfl le_rfl (append_nil _).symm (by simp) (by simp) (by simp) h.watch (by simp)
        h.hangup fun hc => (hswept hc).imp (fun hempty => ?_) .inr
      rename_i hin
      rw [hempty] at hin
      simp at hin
    · exact h

omit [DecidableEq ι] in
theorem Open.handle (h : s.Open) {full : Bool} (hstep : s.onHandle full = some s') : s'.Open := by
  -- the handler is idle again, and the table is what it was
  have hback : ∀ t : Session ι, t.acknowledged = s.acknowledged → t.ops.length = s.ops.length →
      t.log = s.log → t.watch = s.watch → t.hangup = s.hangup → t.running = s.running →
      s.handler ≠ .close .sweep → Open { t with handler := .idle } :=
    fun t hack hlength hlog hwatch hhangup hrunning hsweep =>
      h.frame hack hlength.ge (hlog.trans (append_nil _).symm) (by simp) (by simp) (by simp)
        (hwatch ▸ h.watch) (by simp) (hhangup ▸ h.hangup) fun hc => by
          show t.running = ∅ ∨ _ ∨ t.watch = _
          rw [hrunning, hwatch]
          exact (h.swept hc).imp_right fun hor => .inr (hor.resolve_left hsweep)
  have hpush : s.handler ≠ .close .sweep → Open { (s.push full []).1 with handler := .idle } :=
    fun hsweep => by
      rcases push_spec s full [] with hpushed | ⟨close, hpushed, -⟩ <;> rw [hpushed]
      · exact hback _ rfl rfl (append_nil _) rfl rfl rfl hsweep
      · exact hback _ rfl rfl rfl rfl rfl rfl hsweep
  unfold onHandle at hstep
  split at hstep
  · cases hstep
  · cases hstep
    exact hpush (by simp [*])
  · cases hstep
    exact hpush (by simp [*])
  · cases hstep
    exact hpush (by simp [*])
  · cases hstep
    exact h.hands ‹_›
  · cases hstep
    exact hback _ rfl (length_modify ..) rfl rfl rfl rfl (by simp [*])
  · rename_i closer hhandler
    obtain ⟨⟨t, closer'⟩, hclose, rfl⟩ := Option.map_eq_some_iff.mp hstep
    obtain ⟨-, hwatch, hhangup, -, hack⟩ := closeStep_rest hclose
    by_cases hrequest : ∃ code, closer = .request code
    · obtain ⟨code, rfl⟩ := hrequest
      cases hclose
      exact h.request (fun _ => h.code code hhandler) rfl rfl rfl (by simp) h.watch (by simp) rfl
        (.inl (by simp))
    · obtain ⟨hlog, hlength, hsweep', hrequest', hrunning⟩ :=
        closeStep_tail hclose fun code hc => hrequest ⟨code, hc⟩
      refine h.frame hack hlength.ge (hlog.trans (append_nil _).symm) (by simp) (by simp)
        (fun k hk => ?_) (hwatch ▸ h.watch) (fun code hc => ?_) (hhangup ▸ h.hangup) fun hc => ?_
      · simp only at hk
        split at hk <;> cases hk
      · simp only at hc
        split at hc <;> cases hc
        exact absurd rfl (hrequest' code)
      · show t.running = ∅ ∨ _ ∨ t.watch = _
        rw [hwatch]
        rcases hrunning with hempty | ⟨hsweep, hrunning⟩
        · exact .inl hempty
        · rw [hrunning]
          refine (h.swept hc).imp_right fun hor => .inr (hor.resolve_left ?_)
          simpa [hhandler] using hsweep

omit [DecidableEq ι] in
/-- What `run` leaves behind when it writes. -/
theorem onSend_shape {op : Operation ι} {full : Bool} (hstep : s.onSend k op full = some s') :
    ∃ op' close entries, s' = { s with
      ops := s.ops.set k op', close := close, log := s.log ++ entries } ∧
        ∀ entry ∈ entries, ∃ kind, entry = .sent k kind := by
  have hpush : ∀ (kind : Kind) (op' : Operation ι),
      ∃ close entries, (s.push full [.sent k kind]).1.setOp k op' =
        { s with ops := s.ops.set k op', close := close, log := s.log ++ entries } ∧
        ∀ entry ∈ entries, ∃ kind, entry = .sent k kind := fun kind op' => by
    rcases push_spec s full [.sent k kind] with hpushed | ⟨close, hpushed, -⟩ <;> rw [hpushed]
    · exact ⟨s.close, [.sent k kind], rfl, by simp⟩
    · exact ⟨close, [], by simp [setOp], by simp⟩
  unfold onSend at hstep
  split at hstep
  · cases hstep
    split
    · rename_i heq
      have hp := hpush .next { op with stage := .waiting }
      rw [heq] at hp
      exact ⟨_, hp⟩
    · rename_i heq
      have hp := hpush .next { op with stage := .finishing }
      rw [heq] at hp
      exact ⟨_, hp⟩
  · cases hstep
    exact ⟨_, hpush .error _⟩
  · cases hstep
    exact ⟨_, hpush .complete _⟩
  · cases hstep

/-- **Every step keeps it** that is taken in turn. -/
theorem Open.step (h : s.Open) (hstep : s.step a = some s')
    (hturn : s.inTurn a = true) : s'.Open := by
  -- an operation changes
  have hset : ∀ (k : ℕ) (op : Operation ι), (s.setOp k op).Open := fun k op =>
    h.task rfl (by simp [setOp]) (append_nil _).symm (by simp) (by simp) rfl rfl rfl fun hr => hr
  cases a with simp only [Session.step] at hstep
  | message message =>
    split at hstep <;> cases hstep
    exact h.message ‹_› hturn
  | handle => exact h.handle hstep
  | expired =>
    split at hstep <;> cases hstep
    rename_i hwaiting
    refine h.frame rfl le_rfl (append_nil _).symm (by simp) (by simp) h.hand (fun code hc => ?_)
      h.code h.hangup fun hc => ?_
    · simp only [Watch.close.injEq] at hc
      split at hc
      · cases hc
      · rename_i hnot
        exact Bool.eq_false_iff.mpr hnot
    · have hswept := h.swept hc
      rw [hwaiting] at hswept
      exact hswept.imp_right fun hor => .inl (hor.resolve_right (by simp))
  | watch =>
    split at hstep
    · cases hstep
    · rename_i closer hwatch
      obtain ⟨⟨t, closer'⟩, hclose, rfl⟩ := Option.map_eq_some_iff.mp hstep
      obtain ⟨hhandler, -, hhangup, -, hack⟩ := closeStep_rest hclose
      by_cases hrequest : ∃ code, closer = .request code
      · obtain ⟨code, rfl⟩ := hrequest
        cases hclose
        have hnot := h.watch code hwatch
        refine h.request (fun hack => ?_) rfl rfl rfl (fun k hk => ?_) (by simp) h.code rfl
          (.inr rfl)
        · cases hnot.symm.trans hack
        · cases hnot.symm.trans (h.hand k hk).1
      · obtain ⟨hlog, hlength, hsweep', hrequest', hrunning⟩ :=
          closeStep_tail hclose fun code hc => hrequest ⟨code, hc⟩
        refine h.frame hack hlength.ge (hlog.trans (append_nil _).symm) (by simp) (by simp)
          (hhandler ▸ h.hand) (fun code hc => ?_) (hhandler ▸ h.code) (hhangup ▸ h.hangup)
            fun hc => ?_
        · cases hc
          exact absurd rfl (hrequest' code)
        · show t.running = ∅ ∨ t.handler = _ ∨ _
          rw [hhandler]
          rcases hrunning with hempty | ⟨hsweep, hrunning⟩
          · exact .inl hempty
          · rw [hrunning]
            refine (h.swept hc).imp_right fun hor => .inl (hor.resolve_right ?_)
            simpa [hwatch] using hsweep
  | shut =>
    cases hstep
    exact h.task rfl le_rfl (append_nil _).symm (by simp) (by simp) rfl rfl rfl fun hr => hr
  | hangup =>
    split at hstep
    · obtain ⟨⟨t, closer'⟩, hclose, rfl⟩ := Option.map_eq_some_iff.mp hstep
      obtain ⟨hhandler, hwatch, -, -, hack⟩ := closeStep_rest hclose
      obtain ⟨hlog, hlength, -, hrequest', hrunning⟩ := closeStep_tail hclose h.hangup
      refine h.frame hack hlength.ge (hlog.trans (append_nil _).symm) (by simp) (by simp)
        (hhandler ▸ h.hand) (hwatch ▸ h.watch) (hhandler ▸ h.code) hrequest' fun hc => ?_
      show t.running = ∅ ∨ t.handler = _ ∨ t.watch = _
      rw [hhandler, hwatch]
      rcases hrunning with hempty | ⟨-, hrunning⟩
      · exact .inl hempty
      · rw [hrunning]
        exact h.swept hc
    · cases hstep
  | pull k | streamEnd k | stop k =>
    obtain ⟨op, hop, hstep⟩ := Option.bind_eq_some_iff.mp hstep
    split at hstep <;> cases hstep
    exact hset k _
  | send =>
    obtain ⟨op, hop, hstep⟩ := Option.bind_eq_some_iff.mp hstep
    obtain ⟨op', close, entries, rfl, hsent⟩ := onSend_shape hstep
    refine h.task rfl (by simp) rfl (fun entry hentry => ?_) (fun j hj => ?_) rfl rfl rfl
      fun hr => hr
    · obtain ⟨kind, rfl⟩ := hsent entry hentry
      rfl
    · obtain ⟨kind, hkind⟩ := hsent _ hj
      cases hkind
  | finish =>
    obtain ⟨op, hop, hstep⟩ := Option.bind_eq_some_iff.mp hstep
    split at hstep <;> cases hstep
    refine h.task rfl (by simp [setOp]) (append_nil _).symm (by simp) (by simp) rfl rfl rfl
      fun hr => ?_
    show (if _ then _ else _) = _
    rw [hr]
    simp

theorem Open.init : (sessionMachine ι).init.Open where
  acked := by simp [sessionMachine]
  admitted := fun _ hk => absurd hk not_mem_nil
  handed := fun _ hk => absurd hk not_mem_nil
  hand := nofun
  watch := nofun
  code := nofun
  hangup := nofun
  swept := nofun
  order := .nil

/-- Nobody is in the middle of a close, and nothing waits to be cancelled. -/
def atRest (s : Session ι) : Bool :=
  s.handler.pending.isEmpty && s.watch.pending.isEmpty && s.hangup.pending.isEmpty &&
    s.handler ≠ .close .sweep && s.watch ≠ .close .sweep

/-- **An operation starts on an open, acknowledged connection only**, in every run whose
messages are handled in turn: it is handed to the engine after the acknowledgment and not
after a close was requested; every operation admitted before a close is over or cancelled
once the close has run; and no connection is closed as late that was acknowledged. -/
theorem starts_only_open {t : List (SessionAction ι)} (h : (sessionMachine ι).run t = some s)
    (hturn : ∀ pre s₀ a, (sessionMachine ι).TookAt t pre s₀ a → s₀.inTurn a = true) :
    (∀ k, .handed k ∈ s.log → .acked ∈ s.log ∧ ¬ [.handed k, .acked].Sublist s.log) ∧
    (∀ k code, ¬ [.closing code, .handed k].Sublist s.log) ∧
    (∀ k code, [.admitted k, .closing code].Sublist s.log → s.atRest = true →
      ∃ op, s.ops[k]? = some op ∧ (op.stage = .done ∨ op.reason.isSome = true)) ∧
    ¬ [.acked, .closing 4408].Sublist s.log := by
  have hopen : s.Open := (sessionMachine ι).invariant_of_steps (C := fun s a => s.inTurn a = true)
    .init (fun _ _ _ hs hc hstep => hs.step hstep hc) hturn h
  have horder : ∀ x y, [x, y].Sublist s.log → MayFollow x y := fun x y =>
    List.pairwise_iff_forall_sublist.mp hopen.order
  refine ⟨fun k hk => ⟨hopen.acked.mp (hopen.handed k hk), fun hsub => horder _ _ hsub⟩,
    fun k code hsub => horder _ _ hsub, fun k code hsub hrest => ?_, fun hsub =>
      horder _ _ hsub rfl⟩
  have hclosing : s.closing = true := closing_eq_true.mpr ⟨code, hsub.subset (by simp)⟩
  have hlt : k < s.ops.length := hopen.admitted k (hsub.subset (by simp))
  simp only [atRest, Bool.and_eq_true, List.isEmpty_iff, decide_eq_true_eq] at hrest
  obtain ⟨⟨⟨⟨hhandler, hwatch⟩, hhangup⟩, hsweep⟩, hsweep'⟩ := hrest
  have hempty : s.running = ∅ :=
    (hopen.swept hclosing).resolve_right fun hor => hor.elim hsweep hsweep'
  refine ⟨s.ops[k], List.getElem?_eq_getElem hlt, ?_⟩
  rcases ((inv h).ops k _ (List.getElem?_eq_getElem hlt)).held with hdone | hin | hreason | hpends
  · exact .inl hdone
  · rw [hempty] at hin
    simp at hin
  · exact .inr hreason
  · simp [Pends, hhandler, hwatch, hhangup] at hpends

/-- An operation is running when a message that cannot be read closes the connection. -/
theorem starts_only_open_closed : ∃ s, (sessionMachine ℕ).run
    [.message .init true, .handle false, .message (.subscribe 1) true, .handle false,
      .message .invalid true, .handle false, .handle false, .handle false, .handle false] = some s ∧
    [.handed 0, .closing 4400].Sublist s.log ∧
    ∃ op, s.ops[0]? = some op ∧ (op.stage = .done ∨ op.reason.isSome = true) := by
  refine ⟨_, rfl, by decide, ?_⟩
  exact (starts_only_open (t := [.message .init true, .handle false, .message (.subscribe 1) true,
    .handle false, .message .invalid true, .handle false, .handle false, .handle false,
    .handle false]) rfl (fun _ _ _ htook => htook.of_checks rfl)).2.2.1 0 4400 (by decide) rfl

/-- **The two races of a close.** A `subscribe` read behind the message that closed the
connection is handed to the engine; and a `connection_init` handled between the watch's
check and its close is acknowledged, and closed as late. -/
theorem closing_races :
    (∃ s, (sessionMachine ℕ).run
      [.message .init true, .handle false, .message .invalid true, .handle false, .handle false,
        .handle false, .message (.subscribe 1) true, .handle false] = some s ∧
      [.closing 4400, .handed 0].Sublist s.log ∧ s.atRest = true ∧
      ∃ op, s.ops[0]? = some op ∧ op.stage = .waiting ∧ op.reason = none) ∧
    (∃ s, (sessionMachine ℕ).run
      [.expired false, .message .init true, .watch] = some s ∧
      [.acked, .closing 4408].Sublist s.log) :=
  ⟨⟨_, rfl, by decide, rfl, _, rfl, rfl, rfl⟩, _, rfl, by decide⟩

end Session

end Ulo.GraphqlWs
