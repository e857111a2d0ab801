import Ulo.Ws.Places

/-!
# A loop that stopped reading is woken by a free place

A read loop that found every place taken waits for `freed`, which `give_back` notifies
when the places were all taken before. A turn looks at the places three times: to
register a listener, for the message that waits, and to decide whether to read. A loop
that looks again after it registered misses nothing: from then on the places are all
taken, or its listener has been notified.

The first look registers only if it finds every place taken. A place taken by another
connection after it makes the third look stop the loop with no listener at all, and no
`give_back` wakes it (`lost_wakeup`). Without such a place taken in between no loop
stays unread beside a free place (`never_unread`).
-/

namespace Ulo.Ws

open List Option

variable {caller : Caller}

namespace Conn

variable {c c' : Conn} {full full' : Bool} {a : ConnAction} {effect : Effect}

/-- **Parked unread for want of a place**: it found every place taken, or a message it
read waits for one. -/
def stalled (c : Conn) : Bool :=
  match c.stage with
  | .parked wait => wait = .full || c.waiting && !c.closing
  | _ => false

/-- It found a place free at its first look, holds no listener, and is to look again. -/
def exposed (c : Conn) : Bool :=
  (c.stage = .retry || c.stage = .decide) && c.freed.isNone

/-- In `received` for the message that waited. -/
def retries (c : Conn) : Bool :=
  c.stage = .take .retry || c.stage = .count .retry || c.stage = .hand .retry ||
    c.stage = .leave .retry

/-- Stalled, or about to be, for the message that waits. -/
def unread (c : Conn) : Bool :=
  c.stalled || c.stage = .decide && c.waiting && !c.closing

/-- **What a loop knows of the places.** -/
structure Alert (full : Bool) (c : Conn) : Prop where
  exposed : c.exposed = true → full = false ∧ c.waiting = false
  retries : c.retries = true → c.freed.isSome = true ∧ c.waiting = false
  unread : c.unread = true → c.freed.isSome = true ∧ (full = true ∨ c.freed = some true)

/-- At most stages a loop has nothing to know. -/
theorem Alert.of_stage (hexposed : c.exposed = false) (hretries : c.retries = false)
    (hunread : c.unread = false) : c.Alert full :=
  ⟨by simp [hexposed], by simp [hretries], by simp [hunread]⟩

theorem Alert.of_retries (hexposed : c.exposed = false) (hunread : c.unread = false)
    (hretries : c.retries = true → c.freed.isSome = true ∧ c.waiting = false) : c.Alert full :=
  ⟨by simp [hexposed], hretries, by simp [hunread]⟩

theorem Alert.of_unread (hexposed : c.exposed = false) (hretries : c.retries = false)
    (hunread : c.unread = true → c.freed.isSome = true ∧ (full = true ∨ c.freed = some true)) :
    c.Alert full :=
  ⟨by simp [hexposed], by simp [hretries], hunread⟩

/-- Where `received` returns to, for a message that waited: a listener is held, and nothing
waits, or the places are all taken. -/
theorem Alert.returns (hstage : c.stage = returnTo caller)
    (hretry : caller = .retry → c.freed.isSome = true ∧ (c.waiting = true → full = true)) :
    c.Alert full := by
  cases caller with
  | read =>
    have htop : c.stage = .top := hstage
    exact .of_stage (by simp [Conn.exposed, htop]) (by simp [Conn.retries, htop])
      (by simp [Conn.unread, stalled, htop])
  | retry =>
    have hdecide : c.stage = .decide := hstage
    obtain ⟨hfreed, hfull⟩ := hretry rfl
    refine ⟨fun hexposed => ?_, by simp [Conn.retries, hdecide], fun hunread => ⟨hfreed, .inl ?_⟩⟩
    · simp [Conn.exposed, hdecide, ← not_isSome, hfreed] at hexposed
    · simp only [Conn.unread, stalled, hdecide] at hunread
      simp at hunread
      exact hfull hunread.1

/-- **A turn keeps it**, as far as the places stay. -/
theorem Alert.turn (h : c.Alert full) (hinv : c.Inv) (hturn : c.turn full = some (c', effect)) :
    c'.Alert full := by
  have hretries {caller : Caller} (hs : c.stage = .take caller ∨ c.stage = .hand caller ∨
      c.stage = .leave caller) (hcaller : caller = .retry) :
      c.freed.isSome = true ∧ c.waiting = false :=
    h.retries (by rcases hs with hs | hs | hs <;> simp [Conn.retries, hs, hcaller])
  have hreturns {caller : Caller} (hs : c.stage = .hand caller ∨ c.stage = .leave caller)
      (hcaller : caller = .retry) : c.freed.isSome = true ∧ (c.waiting = true → full = true) :=
    (hretries (.inr hs) hcaller).imp_right fun hnone hw => by cases hnone.symm.trans hw
  cases hstage : c.stage with
  | top =>
    simp only [Conn.turn, hstage] at hturn
    cases hturn
    split
    · exact .of_stage rfl rfl rfl
    · rename_i hcond
      simp only [Bool.or_eq_true, not_or, Bool.not_eq_true] at hcond
      exact ⟨fun _ => ⟨hcond.2, hcond.1⟩, by simp [Conn.retries], by simp [Conn.unread, stalled]⟩
  | listen =>
    simp only [Conn.turn, hstage] at hturn
    cases hturn
    exact .of_stage rfl rfl rfl
  | retry =>
    have hlistens : c.waiting = true → c.freed.isSome = true := fun hwaiting => by
      by_contra hnone
      have hexposed : c.exposed = true := by simpa [Conn.exposed, hstage] using hnone
      cases hwaiting.symm.trans (h.exposed hexposed).2
    simp only [Conn.turn, hstage] at hturn
    split at hturn <;> cases hturn <;> rename_i hcond
    · simp only [Bool.and_eq_true] at hcond
      exact .of_retries rfl rfl fun _ => ⟨hlistens hcond.2, rfl⟩
    · refine ⟨fun hexposed => h.exposed ?_, by simp [Conn.retries], fun hunread => ?_⟩
      · simpa [Conn.exposed, hstage] using hexposed
      · simp [Conn.unread, stalled] at hunread
        simp [hunread] at hcond
        exact ⟨hlistens hunread.1, .inl hcond⟩
  | take caller =>
    simp only [Conn.turn, hstage] at hturn
    split at hturn <;> cases hturn
    · exact .returns rfl fun hcaller => ⟨(hretries (.inl hstage) hcaller).1, fun _ => ‹_›⟩
    · exact .of_retries rfl rfl fun hs => hretries (.inl hstage) (by simpa [Conn.retries] using hs)
  | count =>
    simp only [Conn.turn, hstage] at hturn
    cases hturn
    refine .of_retries rfl rfl fun hs => h.retries ?_
    simp [Conn.retries] at hs
    simp [Conn.retries, hstage, hs]
  | hand caller =>
    have hreturns := hreturns (.inl hstage)
    simp only [Conn.turn, hstage] at hturn
    split at hturn
    · split at hturn <;> cases hturn
      · refine .of_retries rfl rfl fun hs => hretries (.inr (.inl hstage)) ?_
        simpa [Conn.retries] using hs
      · exact .returns rfl hreturns
    · cases hturn
      exact .returns rfl hreturns
  | leave caller =>
    simp only [Conn.turn, hstage] at hturn
    cases hturn
    exact .returns rfl (hreturns (.inr hstage))
  | decide =>
    have hunread : c.waiting = true → c.closing = false →
        c.freed.isSome = true ∧ (full = true ∨ c.freed = some true) := fun hwaiting hclosing =>
      h.unread (by simp [Conn.unread, hstage, hwaiting, hclosing])
    simp only [Conn.turn, hstage] at hturn
    split at hturn
    · cases hturn
      rename_i hclosing
      exact .of_stage rfl rfl (by simp [Conn.unread, stalled, hclosing])
    · rename_i hclosing
      have hopen : c.closing = false := Bool.eq_false_iff.mpr hclosing
      split at hturn
      · cases hturn
        refine .of_unread rfl rfl fun hs => hunread ?_ hopen
        simpa [Conn.unread, stalled, hopen] using hs
      · split at hturn
        · cases hturn
          rename_i hwaiting
          exact .of_unread rfl rfl fun _ => hunread hwaiting hopen
        · split at hturn <;> cases hturn
          · rename_i hfull
            -- the first look did not find a place free, or it would be free still
            have hfreed : c.freed.isSome = true := by
              by_contra hnone
              have hexposed : c.exposed = true := by simpa [Conn.exposed, hstage] using hnone
              cases hfull.symm.trans (h.exposed hexposed).1
            exact .of_unread rfl rfl fun _ => ⟨hfreed, .inl hfull⟩
          · exact .of_stage rfl rfl rfl
  | bound =>
    have halone : c.waiting = false := hinv.alone (.inl hstage)
    simp only [Conn.turn, hstage] at hturn
    cases hturn
    refine .of_stage rfl rfl ?_
    split <;> simp [Conn.unread, stalled, halone]
  | parked | ended =>
    simp only [Conn.turn, hstage] at hturn
    cases hturn

/-- What it knows is of its stage, its listener and its message that waits. -/
theorem Alert.congr (h : c.Alert full) (hstage : c'.stage = c.stage) (hfreed : c'.freed = c.freed)
    (hwaiting : c'.waiting = c.waiting) (hclosing : c'.closing = c.closing) : c'.Alert full := by
  obtain ⟨hexposed, hretries, hunread⟩ := h
  constructor
  · simpa only [Conn.exposed, hstage, hfreed, hwaiting] using hexposed
  · simpa only [Conn.retries, hstage, hfreed, hwaiting] using hretries
  · simpa only [Conn.unread, stalled, hstage, hfreed, hwaiting, hclosing] using hunread

/-- **Every step keeps it**, as far as the places stay. -/
theorem Alert.step (h : c.Alert full) (hinv : c.Inv) (hstep : c.step full a = some (c', effect)) :
    c'.Alert full := by
  cases a with simp only [Conn.step] at hstep
  | turn => exact h.turn hinv hstep
  | drain | inboxDrop | dropFlight =>
    split at hstep <;> cases hstep
    exact h.congr rfl rfl rfl rfl
  | close =>
    split at hstep <;> cases hstep <;> exact .of_stage rfl rfl rfl
  | read =>
    split at hstep <;> cases hstep
    split <;> exact .of_stage rfl rfl rfl
  | heard | wake | leave =>
    split at hstep <;> cases hstep
    exact .of_stage rfl rfl rfl
  | poll | answer | giveBack | finish | abort =>
    obtain ⟨-, heq⟩ := moveTask_eq_some.mp hstep
    cases heq
    exact h.congr rfl rfl rfl rfl
  | inboxTake =>
    split at hstep
    · cases hstep
    · obtain ⟨-, heq⟩ := moveInbox_eq_some.mp hstep
      cases heq
      exact h.congr rfl rfl rfl rfl
  | inboxHandled | inboxGiveBack =>
    obtain ⟨-, heq⟩ := moveInbox_eq_some.mp hstep
    cases heq
    exact h.congr rfl rfl rfl rfl

/-- **A place given back wakes whoever knew them all taken.** -/
theorem Alert.notify (h : c.Alert true) : c.notify.Alert full' := by
  have hexposed : c.notify.exposed = c.exposed := by
    show (_ && (c.freed.map _).isNone) = (_ && c.freed.isNone)
    rw [isNone_map]
    rfl
  have hretries : c.notify.retries = c.retries := rfl
  have hunread : c.notify.unread = c.unread := rfl
  refine ⟨fun hs => ?_, fun hs => ?_, fun hs => ?_⟩
  · cases (h.exposed (hexposed ▸ hs)).1
  · obtain ⟨hfreed, hwaiting⟩ := h.retries (hretries ▸ hs)
    exact ⟨by simpa [Conn.notify] using hfreed, hwaiting⟩
  · obtain ⟨hfreed, -⟩ := h.unread (hunread ▸ hs)
    obtain ⟨heard, hheard⟩ := isSome_iff_exists.mp hfreed
    simp [Conn.notify, hheard]

/-- The last place is taken. -/
theorem Alert.filled (h : c.Alert full) (hexposed : c.exposed = false) : c.Alert true :=
  ⟨by simp [hexposed], h.retries, fun hs => ⟨(h.unread hs).1, .inl rfl⟩⟩

/-- Only `begin` takes a place. -/
theorem stage_of_take (hstep : c.step full a = some (c', .take)) :
    a = .turn ∧ full = false ∧ ∃ caller, c.stage = .take caller ∧
      c' = { c with stage := .count caller } := by
  cases a with
  | turn =>
    simp only [Conn.step, Conn.turn] at hstep
    grind
  | inboxTake =>
    simp only [Conn.step] at hstep
    split at hstep
    · cases hstep
    · rw [map_eq_some_iff] at hstep
      grind
  | _ =>
    simp only [Conn.step, map_eq_some_iff] at hstep
    grind

/-- A loop that takes a place has nothing to lose by it. -/
theorem Alert.took (h : c.Alert full) (hstage : c.stage = .take caller) :
    Alert full' { c with stage := .count caller } := by
  refine .of_retries rfl rfl fun hs => h.retries ?_
  simp [Conn.retries] at hs
  simp [Conn.retries, hstage, hs]

end Conn

namespace Server

variable {limit : ℕ} {s s' : Server} {a : ServerAction}

/-- **No place is taken between two looks**: a step that takes the last one finds no loop
that is to look again without a listener. -/
def undisturbed (limit : ℕ) (s : Server) : ServerAction → Bool
  | .conn i .turn =>
    match s.conns[i]?.map Conn.stage with
    | some (.take _) => s.held + 1 ≠ limit || s.conns.all (!·.exposed)
    | _ => true
  | _ => true

theorem not_exposed {i : ℕ} {c : Conn} (h : s.undisturbed limit (.conn i .turn) = true)
    (hc : s.conns[i]? = some c) (hstage : c.stage = .take caller) (hlast : s.held + 1 = limit) :
    ∀ d ∈ s.conns, d.exposed = false := by
  simp only [undisturbed, hc, map_some, hstage, hlast] at h
  simpa using h

/-- `give_back` keeps what the loops know: with every place taken before it, it notifies
them. -/
theorem alert_giveBack {places : ℤ} (hplaces : 0 ≤ places)
    (h : ∀ c ∈ s.conns, c.Alert (limit ≤ s.held)) :
    ∀ c ∈ (s.giveBack limit places).conns, c.Alert (limit ≤ (s.giveBack limit places).held) := by
  by_cases hzero : places = 0
  · rw [giveBack, if_pos hzero]
    exact h
  · rw [giveBack, if_neg hzero]
    intro d hd
    by_cases hfull : limit ≤ s.held
    · rw [if_pos hfull] at hd
      obtain ⟨d₀, hd₀, rfl⟩ := mem_map.mp hd
      exact Conn.Alert.notify (decide_eq_true hfull ▸ h d₀ hd₀)
    · rw [if_neg hfull] at hd
      have hfree : ¬ (limit : ℤ) ≤ s.held - places := by omega
      show d.Alert (limit ≤ s.held - places)
      rw [decide_eq_false hfree, ← decide_eq_false hfull]
      exact h d hd

/-- **Every step keeps what the loops know**, if it disturbs none. -/
theorem alert_step (hinv : s.Inv limit) (h : ∀ c ∈ s.conns, c.Alert (limit ≤ s.held))
    (hundisturbed : s.undisturbed limit a = true)
    (hstep : (serverMachine limit).step s a = some s') :
    ∀ c ∈ s'.conns, c.Alert (limit ≤ s'.held) := by
  cases a with
  | connect =>
    cases hstep
    intro c hc
    rcases mem_snoc.mp hc with hc | rfl
    · exact h c hc
    · exact .of_stage rfl rfl rfl
  | conn i =>
    obtain ⟨c, c', effect, hc, hmoved, rfl⟩ := step_conn hstep
    have hmem := mem_of_getElem? hc
    have halert := (h c hmem).step (hinv.conns c hmem) hmoved
    have hall : ∀ d ∈ s.conns.set i c', d.Alert (limit ≤ s.held) := fun d hd => by
      rcases mem_or_eq_of_mem_set hd with hd | rfl
      · exact h d hd
      · exact halert
    cases effect with
    | none => exact hall
    | take =>
      obtain ⟨rfl, hfree, caller, hstage, rfl⟩ := Conn.stage_of_take hmoved
      intro d hd
      rcases mem_or_eq_of_mem_set hd with hd | rfl
      · show d.Alert (limit ≤ s.held + 1)
        by_cases hlast : s.held + 1 = limit
        · rw [show decide ((limit : ℤ) ≤ s.held + 1) = true by simp [hlast]]
          exact (h d hd).filled (not_exposed hundisturbed hc hstage hlast d hd)
        · have hmore : ¬ (limit : ℤ) ≤ s.held + 1 := by
            have := of_decide_eq_false hfree
            omega
          rw [decide_eq_false hmore, ← hfree]
          exact h d hd
      · exact (h c hmem).took hstage
    | back places =>
      exact alert_giveBack (((hinv.conns c hmem).places hmoved).2 places rfl) hall

theorem alert_init : ∀ c ∈ (serverMachine limit).init.conns,
    c.Alert (limit ≤ (serverMachine limit).init.held) := fun _ hc => absurd hc not_mem_nil

/-- **No connection stays unread while a place is free**, in a run in which no place is
taken between two looks: where a loop is parked for want of a place, every place is
taken, or its listener has been notified. -/
theorem never_unread {t : List ServerAction} (h : (serverMachine limit).run t = some s)
    (hundisturbed : ∀ pre s₀ a, (serverMachine limit).TookAt t pre s₀ a →
      s₀.undisturbed limit a = true) :
    ∀ c ∈ s.conns, c.stalled = true → limit ≤ s.held ∨ c.freed = some true := by
  have hinv : s.Inv limit ∧ ∀ c ∈ s.conns, c.Alert (limit ≤ s.held) :=
    (serverMachine limit).invariant_of_steps (P := fun s => s.Inv limit ∧ ∀ c ∈ s.conns,
      c.Alert (limit ≤ s.held)) ⟨Inv.init, alert_init⟩
      (fun s a s' hs ha hstep => ⟨hs.1.step hstep, alert_step hs.1 hs.2 ha hstep⟩) hundisturbed h
  intro c hc hstalled
  have hunread : c.unread = true := by simp [Conn.unread, hstalled]
  exact ((hinv.2 c hc).unread hunread).2.imp_left of_decide_eq_true

/-- Two connections under one place: the second reads a message and takes the place; the
first registers, and is woken once the message is answered. -/
def wokenUp : List ServerAction :=
  [.connect 1 false, .connect 1 false] ++
  [.turn, .turn, .turn, .turn, .read true, .turn, .turn, .turn].map (.conn 1) ++
  [.turn, .turn, .turn, .turn].map (.conn 0) ++ [.poll 0, .answer 0, .giveBack 0].map (.conn 1)

theorem never_unread_woken : ∃ s c, (serverMachine 1).run wokenUp = some s ∧ c ∈ s.conns ∧
    c.stalled = true ∧ (1 ≤ s.held ∨ c.freed = some true) := by
  have hrun : (serverMachine 1).run wokenUp = some ⟨0, [
    { maxInflight := 1, raw := false, stage := .parked .full, freed := some true },
    { maxInflight := 1, raw := false, busy := 1, tasks := [.answered] }]⟩ := rfl
  refine ⟨_, _, hrun, mem_cons_self, rfl, ?_⟩
  exact never_unread hrun (fun pre s₀ a htook => htook.of_checks rfl) _ mem_cons_self rfl

/-- **The first look of a loop finds the place free, and another connection takes it.** The
loop stops reading with no listener, and stays so with the place free again. -/
theorem lost_wakeup : ∃ s c, (serverMachine 1).run ([.connect 1 false, .connect 1 false] ++
    [.turn].map (.conn 0) ++
    [.turn, .turn, .turn, .turn, .read true, .turn, .turn, .turn].map (.conn 1) ++
    [.turn, .turn].map (.conn 0) ++ [.poll 0, .answer 0, .giveBack 0].map (.conn 1)) = some s ∧
    c ∈ s.conns ∧ c.stalled = true ∧ ¬ (1 ≤ s.held ∨ c.freed = some true) :=
  ⟨_, _, rfl, mem_cons_self, rfl, by decide⟩

end Server

end Ulo.Ws
