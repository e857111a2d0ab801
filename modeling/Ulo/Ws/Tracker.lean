import Ulo.Lib.List
import Ulo.Lib.Machine

/-!
# The tracker of connection tasks

A WebSocket server keeps one tracker of its connections' tasks: a count of the live
ones, which the drain and `close` wait on, and a table of their handles, which `close`
aborts. A task's future owns a guard whose drop takes its entry out of the table and
counts it down. The table is behind a lock, held by `spawn` across the runtime's own
`spawn`, by a guard while it takes out its entry, and by `abort_all` while it takes the
table.

Threads are stacks of frames here, since one of these operations can run inside
another: an abort may drop a task's future on the thread that aborts, and so run its
guard there. So may a runtime's `spawn`: one that has shut down drops the future it is
handed, unrun, inside the call. It is the one place where foreign code runs under the
lock, and there the guard asks for the lock its own thread holds (`refused_spawn`).
Apart from that no thread asks for the lock while it holds it, and the count is exact
(`tracked_exactly`).
-/

namespace Ulo.Ws

open List Function

/-- Where the `spawn` of a task stands: before the lock, before the runtime's call under
it, before the entry is put in, and returned. -/
inductive SpawnStage
  | lock
  | call
  | insert
  | done
deriving DecidableEq

/-- Where a task's future is: with its `spawn`, with the runtime, in the drop of its
guard – before the lock, under it, before the count – and dropped. -/
inductive FutureStage
  | unsent
  | running
  | guardLock
  | guardRemove
  | guardCount
  | dropped
deriving DecidableEq

/-- A tracked task. -/
structure TrackedTask where
  spawn : SpawnStage := .lock
  future : FutureStage := .unsent
  inTable : Bool := false
deriving DecidableEq

/-- Where `abort_all` stands: before the lock, under it, and with the handles it took. -/
inductive AbortStage
  | lock
  | take
  | each (keys : List ℕ)
deriving DecidableEq

/-- Where `close` stands: giving the tasks their turn, in the grace, and waiting. -/
inductive CloseStage
  | give
  | grace
  | wait
deriving DecidableEq

/-- What a thread is in the middle of. -/
inductive Activity
  | spawn (key : ℕ)
  | guard (key : ℕ)
  | drain
  | close (stage : CloseStage)
  | abort (stage : AbortStage)
deriving DecidableEq

/-- Who holds the lock. -/
inductive Owner
  | spawn (key : ℕ)
  | guard (key : ℕ)
  | abort
deriving DecidableEq

/-- **The tracker**, with the tasks spawned so far, each thread's frames, the thread that
holds the lock, and what `live` was when a `drain` or `close` ended its wait. -/
structure Tracker where
  live : ℕ := 0
  draining : Bool := false
  tasks : List TrackedTask := []
  holder : Option (ℕ × Owner) := none
  threads : ℕ → List Activity := fun _ => []
  returns : List ℕ := []

/-- A step of a thread. -/
inductive TrackerAction
  | spawn (j : ℕ)
  | lock (j : ℕ)
  /-- the runtime's `spawn`, which takes the task or refuses it -/
  | launch (j : ℕ) (accepted : Bool)
  | insert (j : ℕ)
  /-- a task's future is dropped, ended or not -/
  | drop (j key : ℕ)
  | remove (j : ℕ)
  | count (j : ℕ)
  | drain (j : ℕ)
  | drained (j : ℕ)
  | close (j : ℕ)
  | given (j : ℕ)
  | graceOver (j : ℕ)
  | closed (j : ℕ)
  /-- a `close` is dropped at an await -/
  | dropClose (j : ℕ)
  | take (j : ℕ)
  /-- one handle is aborted, its future dropped here or later elsewhere -/
  | abort (j : ℕ) (here : Bool)
  | abortDone (j : ℕ)

/-- Foreign code runs on the thread: it is idle, polls tasks, or aborts one. -/
def foreign : List Activity → Bool
  | [] | .close .give :: _ | .abort (.each _) :: _ => true
  | _ => false

namespace Tracker

def setThread (s : Tracker) (j : ℕ) (frames : List Activity) : Tracker :=
  { s with threads := Function.update s.threads j frames }

def setTask (s : Tracker) (key : ℕ) (task : TrackedTask) : Tracker :=
  { s with tasks := s.tasks.set key task }

/-- **The thread asks for the lock.** -/
def requests (s : Tracker) (j : ℕ) : Option Owner :=
  match s.threads j with
  | .spawn key :: _ =>
    match s.tasks[key]? with
    | some task => if task.spawn = .lock then some (.spawn key) else none
    | none => none
  | .guard key :: _ =>
    match s.tasks[key]? with
    | some task => if task.future = .guardLock then some (.guard key) else none
    | none => none
  | .abort .lock :: _ => some .abort
  | _ => none

/-- Past its request. -/
def locked (s : Tracker) (j : ℕ) (owner : Owner) : Tracker :=
  let s := { s with holder := some (j, owner) }
  match owner with
  | .spawn key => { s with tasks := s.tasks.modify key fun task => { task with spawn := .call } }
  | .guard key =>
    { s with tasks := s.tasks.modify key fun task => { task with future := .guardRemove } }
  | .abort => s.setThread j (.abort .take :: (s.threads j).tail)

/-- The keys in the table. -/
def keys (s : Tracker) : List ℕ :=
  (List.range s.tasks.length).filter fun key => (s.tasks[key]?.map (·.inTable)).getD false

/-- One step. -/
def step (s : Tracker) : TrackerAction → Option Tracker
  | .spawn j =>
    if foreign (s.threads j) then
      some { s.setThread j (.spawn s.tasks.length :: s.threads j) with
        tasks := s.tasks ++ [{}]
        live := s.live + 1 }
    else none
  | .lock j =>
    match s.holder with
    | some _ => none
    | none => (s.requests j).map fun owner => s.locked j owner
  | .launch j accepted =>
    match s.threads j with
    | .spawn key :: frames =>
      match s.tasks[key]? with
      | some task =>
        if task.spawn = .call then
          if accepted then some (s.setTask key { task with spawn := .insert, future := .running })
          -- dropped unrun inside the call
          else some ((s.setTask key { task with spawn := .insert, future := .guardLock }).setThread
            j (.guard key :: .spawn key :: frames))
        else none
      | none => none
    | _ => none
  | .insert j =>
    match s.threads j with
    | .spawn key :: frames =>
      match s.tasks[key]? with
      | some task =>
        if task.spawn = .insert then
          some
            { (s.setTask key { task with spawn := .done, inTable := true }).setThread j frames with
              holder := none }
        else none
      | none => none
    | _ => none
  | .drop j key =>
    match s.tasks[key]? with
    | some task =>
      if task.future = .running ∧ foreign (s.threads j) then
        some ((s.setTask key { task with future := .guardLock }).setThread j
          (.guard key :: s.threads j))
      else none
    | none => none
  | .remove j =>
    match s.threads j with
    | .guard key :: _ =>
      match s.tasks[key]? with
      | some task =>
        if task.future = .guardRemove then
          some { s.setTask key { task with future := .guardCount, inTable := false } with
            holder := none }
        else none
      | none => none
    | _ => none
  | .count j =>
    match s.threads j with
    | .guard key :: frames =>
      match s.tasks[key]? with
      | some task =>
        if task.future = .guardCount then
          some { (s.setTask key { task with future := .dropped }).setThread j frames with
            live := s.live - 1 }
        else none
      | none => none
    | _ => none
  | .drain j =>
    if s.threads j = [] then some { s.setThread j [.drain] with draining := true } else none
  | .drained j =>
    match s.threads j with
    | .drain :: frames =>
      if s.live = 0 then some { s.setThread j frames with returns := s.returns ++ [s.live] }
      else none
    | _ => none
  | .close j => if s.threads j = [] then some (s.setThread j [.close .give]) else none
  | .given j =>
    match s.threads j with
    | .close .give :: frames =>
      if s.draining then some (s.setThread j (.close .grace :: frames))
      else some (s.setThread j (.abort .lock :: .close .wait :: frames))
    | _ => none
  | .graceOver j =>
    match s.threads j with
    | .close .grace :: frames => some (s.setThread j (.abort .lock :: .close .wait :: frames))
    | _ => none
  | .closed j =>
    match s.threads j with
    | .close .wait :: frames =>
      if s.live = 0 then
        some { s.setThread j (.abort .lock :: frames) with returns := s.returns ++ [s.live] }
      else none
    | _ => none
  | .dropClose j =>
    match s.threads j with
    | .close .grace :: frames | .close .wait :: frames =>
      some (s.setThread j (.abort .lock :: frames))
    | _ => none
  | .take j =>
    match s.threads j with
    | .abort .take :: frames =>
      some { s.setThread j (.abort (.each s.keys) :: frames) with
        holder := none
        tasks := s.tasks.map fun task => { task with inTable := false } }
    | _ => none
  | .abort j here =>
    match s.threads j with
    | .abort (.each (key :: keys)) :: frames =>
      match s.tasks[key]? with
      | some task =>
        if here ∧ task.future = .running then
          some ((s.setTask key { task with future := .guardLock }).setThread j
            (.guard key :: .abort (.each keys) :: frames))
        else some (s.setThread j (.abort (.each keys) :: frames))
      | none => none
    | _ => none
  | .abortDone j =>
    match s.threads j with
    | .abort (.each []) :: frames => some (s.setThread j frames)
    | _ => none

end Tracker

/-- **The tracker's machine.** -/
def trackerMachine : Machine Tracker TrackerAction where
  init := {}
  step := Tracker.step

/-! ## What a step does -/

/-- A thread that is not in the middle of the lock: it can go on to something else. -/
def Quiet : List Activity → Prop
  | [] | .drain :: _ | .close _ :: _ | .abort (.each _) :: _ => True
  | _ => False

theorem quiet_of_foreign {frames : List Activity} (h : foreign frames = true) : Quiet frames := by
  unfold foreign at h
  split at h
  · trivial
  · trivial
  · trivial
  · cases h

namespace Tracker

variable {s s' : Tracker} {a : TrackerAction} {j key : ℕ} {owner : Owner} {task task' : TrackedTask}
  {frames : List Activity} {tasks : List TrackedTask}

/-- **The steps**, one by one. What moves a thread alone is one of them. -/
inductive Step (s : Tracker) : TrackerAction → Tracker → Prop
  | spawn {j : ℕ} (hquiet : Quiet (s.threads j)) :
      Step s (.spawn j) { s.setThread j (.spawn s.tasks.length :: s.threads j) with
        tasks := s.tasks ++ [{}]
        live := s.live + 1 }
  | lock {j : ℕ} {owner : Owner} (hfree : s.holder = none) (hrequests : s.requests j = some owner) :
      Step s (.lock j) (s.locked j owner)
  | launch {j key : ℕ} {frames : List Activity} {task : TrackedTask}
      (hthread : s.threads j = .spawn key :: frames) (htask : s.tasks[key]? = some task)
      (hcall : task.spawn = .call) :
      Step s (.launch j true) (s.setTask key { task with spawn := .insert, future := .running })
  | refuse {j : ℕ} {s' : Tracker} : Step s (.launch j false) s'
  | insert {j key : ℕ} {frames : List Activity} {task : TrackedTask}
      (hthread : s.threads j = .spawn key :: frames) (htask : s.tasks[key]? = some task)
      (hinsert : task.spawn = .insert) :
      Step s (.insert j)
        { (s.setTask key { task with spawn := .done, inTable := true }).setThread j frames with
          holder := none }
  | drop {a : TrackerAction} {j key : ℕ} {frames : List Activity} {task : TrackedTask}
      (htask : s.tasks[key]? = some task) (hrunning : task.future = .running)
      (hquiet : Quiet (s.threads j))
      (hframes : .abort .take ∈ frames → .abort .take ∈ s.threads j) :
      Step s a ((s.setTask key { task with future := .guardLock }).setThread j
        (.guard key :: frames))
  | remove {j key : ℕ} {frames : List Activity} {task : TrackedTask}
      (hthread : s.threads j = .guard key :: frames) (htask : s.tasks[key]? = some task)
      (hremove : task.future = .guardRemove) :
      Step s (.remove j)
        { s.setTask key { task with future := .guardCount, inTable := false } with holder := none }
  | count {j key : ℕ} {frames : List Activity} {task : TrackedTask}
      (hthread : s.threads j = .guard key :: frames) (htask : s.tasks[key]? = some task)
      (hcount : task.future = .guardCount) :
      Step s (.count j) { (s.setTask key { task with future := .dropped }).setThread j frames with
        live := s.live - 1 }
  | take {j : ℕ} {frames : List Activity} (hthread : s.threads j = .abort .take :: frames) :
      Step s (.take j) { s.setThread j (.abort (.each s.keys) :: frames) with
        holder := none
        tasks := s.tasks.map fun task => { task with inTable := false } }
  | moves {a : TrackerAction} {j : ℕ} {frames : List Activity} {draining : Bool} {returns : List ℕ}
      (hquiet : Quiet (s.threads j))
      (hframes : .abort .take ∈ frames → .abort .take ∈ s.threads j)
      (hreturns : ∀ n ∈ returns, n ∈ s.returns ∨ n = 0) :
      Step s a { s.setThread j frames with draining := draining, returns := returns }

theorem step_spec (h : trackerMachine.step s a = some s') : Step s a s' := by
  have h' : step s a = some s' := h
  have hsame : ∀ {j : ℕ} {frames : List Activity}, s.setThread j frames =
      { s.setThread j frames with draining := s.draining, returns := s.returns } := rfl
  have hkept : ∀ n ∈ s.returns, n ∈ s.returns ∨ n = 0 := fun n hn => .inl hn
  have hzero : s.live = 0 → ∀ n ∈ s.returns ++ [s.live], n ∈ s.returns ∨ n = 0 := fun hlive n hn =>
    (mem_append.mp hn).imp_right fun hn => (mem_singleton.mp hn).trans hlive
  have hreturned : ∀ {a : TrackerAction} {j : ℕ} {frames : List Activity}, Quiet (s.threads j) →
      (.abort .take ∈ frames → .abort .take ∈ s.threads j) → s.live = 0 →
      Step s a { s.setThread j frames with returns := s.returns ++ [s.live] } :=
    fun {a j frames} hquiet hframes hlive =>
      @Step.moves s a j frames s.draining _ hquiet hframes (hzero hlive)
  cases a with simp only [step] at h'
  | spawn =>
    split at h' <;> cases h'
    exact .spawn (quiet_of_foreign ‹_›)
  | lock =>
    split at h'
    · cases h'
    · obtain ⟨owner, howner, rfl⟩ := Option.map_eq_some_iff.mp h'
      exact .lock ‹_› howner
  | launch j accepted =>
    cases accepted with
    | false => exact .refuse
    | true =>
      simp only at h'
      split at h'
      · split at h'
        · split at h' <;> cases h'
          exact .launch ‹_› ‹_› ‹_›
        · cases h'
      · cases h'
  | insert =>
    split at h'
    · split at h'
      · split at h' <;> cases h'
        exact .insert ‹_› ‹_› ‹_›
      · cases h'
    · cases h'
  | drop =>
    split at h'
    · split at h' <;> cases h'
      rename_i hcond
      exact .drop ‹_› hcond.1 (quiet_of_foreign hcond.2) id
    · cases h'
  | remove =>
    split at h'
    · split at h'
      · split at h' <;> cases h'
        exact .remove ‹_› ‹_› ‹_›
      · cases h'
    · cases h'
  | count =>
    split at h'
    · split at h'
      · split at h' <;> cases h'
        exact .count ‹_› ‹_› ‹_›
      · cases h'
    · cases h'
  | drain =>
    split at h' <;> cases h'
    rename_i hidle
    exact .moves (by rw [hidle]; trivial) (by simp) hkept
  | drained | closed =>
    split at h'
    · rename_i hthread
      split at h' <;> cases h'
      exact hreturned (by rw [hthread]; trivial) (by simp [hthread]) ‹_›
    · cases h'
  | close =>
    split at h' <;> cases h'
    rename_i hidle
    rw [hsame]
    exact .moves (by rw [hidle]; trivial) (by simp) hkept
  | given =>
    split at h'
    · rename_i hthread
      split at h' <;> cases h' <;> rw [hsame] <;>
        exact .moves (by rw [hthread]; trivial) (by simp [hthread]) hkept
    · cases h'
  | graceOver | abortDone =>
    split at h' <;> cases h'
    rename_i hthread
    rw [hsame]
    exact .moves (by rw [hthread]; trivial) (by simp [hthread]) hkept
  | dropClose =>
    split at h' <;> cases h' <;> rename_i frames hthread <;> rw [hsame] <;>
      exact .moves (by rw [hthread]; trivial) (by simp [hthread]) hkept
  | take =>
    split at h' <;> cases h'
    exact .take ‹_›
  | abort j =>
    split at h'
    · rename_i hthread
      have hquiet : Quiet (s.threads j) := by rw [hthread]; trivial
      split at h'
      · split at h' <;> cases h'
        · rename_i hcond
          exact .drop ‹_› hcond.2 hquiet (by simp [hthread])
        · rw [hsame]
          exact .moves hquiet (by simp [hthread]) hkept
      · cases h'
    · cases h'

/-! ## The lock and the count -/

/-- **What is kept of a task**: its `spawn` and its future go together, its entry is in
the table from its `spawn`'s return until its guard takes it out. -/
structure Fits (task : TrackedTask) : Prop where
  unsent : task.future = .unsent ↔ task.spawn = .lock ∨ task.spawn = .call
  insert : task.spawn = .insert → task.future = .running ∨ task.future = .guardLock
  inTable : task.inTable = true →
    task.spawn = .done ∧ (task.future = .running ∨ task.future = .guardLock ∨
      task.future = .guardRemove)

/-- Whether a task counts as live. -/
def weight (task : TrackedTask) : ℕ := if task.future = .dropped then 0 else 1

/-- **The thread is in the middle of what it holds the lock for.** -/
def Holds (s : Tracker) (j : ℕ) : Owner → Prop
  | .spawn key => (∃ frames, s.threads j = .spawn key :: frames) ∧
    ∃ task, s.tasks[key]? = some task ∧ (task.spawn = .call ∨ task.spawn = .insert)
  | .guard key => (∃ frames, s.threads j = .guard key :: frames) ∧
    ∃ task, s.tasks[key]? = some task ∧ task.future = .guardRemove
  | .abort => ∃ frames, s.threads j = .abort .take :: frames

/-- **The invariant of the tracker.** -/
structure Inv (s : Tracker) : Prop where
  fits : ∀ (key : ℕ) (task : TrackedTask), s.tasks[key]? = some task → Fits task
  live : s.live = (s.tasks.map weight).sum
  holds : ∀ (j : ℕ) (owner : Owner), s.holder = some (j, owner) → s.Holds j owner
  spawning : ∀ (key : ℕ) (task : TrackedTask), s.tasks[key]? = some task →
    task.spawn = .call ∨ task.spawn = .insert → ∃ j, s.holder = some (j, .spawn key)
  removing : ∀ (key : ℕ) (task : TrackedTask), s.tasks[key]? = some task →
    task.future = .guardRemove → ∃ j, s.holder = some (j, .guard key)
  taking : ∀ j, .abort .take ∈ s.threads j → s.holder = some (j, .abort)
  /-- Nothing is begun on top of an `abort_all` under the lock. -/
  below : ∀ j, .abort .take ∉ (s.threads j).tail
  returns : ∀ n ∈ s.returns, n = 0

/-- **A thread that holds the lock does not ask for it.** -/
theorem Holds.requests_eq_none (h : s.Holds j owner) : s.requests j = none := by
  cases owner with
  | spawn =>
    obtain ⟨⟨frames, hthread⟩, task, htask, hspawn⟩ := h
    simp only [requests, hthread, htask]
    rcases hspawn with hspawn | hspawn <;> rw [hspawn] <;> rfl
  | guard =>
    obtain ⟨⟨frames, hthread⟩, task, htask, hfuture⟩ := h
    simp only [requests, hthread, htask, hfuture]
    rfl
  | abort =>
    obtain ⟨frames, hthread⟩ := h
    simp only [requests, hthread]

theorem Holds.not_quiet (h : s.Holds j owner) : ¬ Quiet (s.threads j) := by
  cases owner with
  | spawn | guard => obtain ⟨⟨frames, hthread⟩, -⟩ := h; rw [hthread]; exact id
  | abort => obtain ⟨frames, hthread⟩ := h; rw [hthread]; exact id

/-- The holder's thread and its task are as they were. -/
theorem Holds.kept (h : s.Holds j owner) (hthread : s'.threads j = s.threads j)
    (htasks : ∀ (key : ℕ) (task : TrackedTask), s.tasks[key]? = some task →
      ∃ task', s'.tasks[key]? = some task' ∧
        (task.spawn = .call ∨ task.spawn = .insert → task'.spawn = .call ∨ task'.spawn = .insert) ∧
        (task.future = .guardRemove → task'.future = .guardRemove)) : s'.Holds j owner := by
  cases owner with
  | spawn key =>
    obtain ⟨⟨frames, hframes⟩, task, htask, hspawn⟩ := h
    obtain ⟨task', htask', hspawn', -⟩ := htasks key task htask
    exact ⟨⟨frames, hthread.trans hframes⟩, task', htask', hspawn' hspawn⟩
  | guard key =>
    obtain ⟨⟨frames, hframes⟩, task, htask, hfuture⟩ := h
    obtain ⟨task', htask', -, hfuture'⟩ := htasks key task htask
    exact ⟨⟨frames, hthread.trans hframes⟩, task', htask', hfuture' hfuture⟩
  | abort =>
    obtain ⟨frames, hframes⟩ := h
    exact ⟨frames, hthread.trans hframes⟩

/-- A thread that can go on to something else is in no `abort_all` under the lock. -/
theorem Inv.not_taking (h : s.Inv) (hquiet : Quiet (s.threads j)) :
    .abort .take ∉ s.threads j := fun hmem =>
  (h.holds j .abort (h.taking j hmem)).not_quiet hquiet

/-- What a thread's frames must be for the lock. -/
theorem Inv.threads_of (h : s.Inv) (hframes : .abort .take ∉ frames) (k : ℕ) :
    (.abort .take ∈ Function.update s.threads j frames k → s.holder = some (k, .abort)) ∧
      .abort .take ∉ (Function.update s.threads j frames k).tail := by
  by_cases hkj : k = j
  · subst hkj
    rw [update_self]
    exact ⟨fun hmem => absurd hmem hframes, fun hmem => hframes (mem_of_mem_tail hmem)⟩
  · rw [update_of_ne hkj]
    exact ⟨h.taking k, h.below k⟩

/-- **A thread moves**, with nothing of the lock's. -/
theorem Inv.moves {draining : Bool} {returns : List ℕ} (h : s.Inv) (hquiet : Quiet (s.threads j))
    (hframes : .abort .take ∈ frames → .abort .take ∈ s.threads j)
    (hreturns : ∀ n ∈ returns, n ∈ s.returns ∨ n = 0) :
    Inv { s.setThread j frames with draining := draining, returns := returns } where
  fits := h.fits
  live := h.live
  holds := fun k owner hk => by
    have hholds := h.holds k owner hk
    have hkj : k ≠ j := fun heq => hholds.not_quiet (heq ▸ hquiet)
    exact hholds.kept (update_of_ne hkj _ _) fun _ task htask => ⟨task, htask, id, id⟩
  spawning := h.spawning
  removing := h.removing
  taking := fun k => (h.threads_of (fun hmem => h.not_taking hquiet (hframes hmem)) k).1
  below := fun k => (h.threads_of (fun hmem => h.not_taking hquiet (hframes hmem)) k).2
  returns := fun n hn => (hreturns n hn).elim (h.returns n) id

/-- A task's change that lets whoever holds the lock for it hold it still. -/
theorem kept_of_set (htask : s.tasks[key]? = some task)
    (hspawn : task.spawn = .call ∨ task.spawn = .insert → task'.spawn = .call ∨
      task'.spawn = .insert)
    (hfuture : task.future = .guardRemove → task'.future = .guardRemove) (k : ℕ) (x : TrackedTask)
    (hx : s.tasks[k]? = some x) : ∃ x', (s.tasks.set key task')[k]? = some x' ∧
      (x.spawn = .call ∨ x.spawn = .insert → x'.spawn = .call ∨ x'.spawn = .insert) ∧
      (x.future = .guardRemove → x'.future = .guardRemove) := by
  refine exists_getElem?_set ⟨x, hx, id, id⟩ fun y hy hkept => ?_
  cases htask.symm.trans hy
  exact ⟨hspawn ∘ hkept.1, hfuture ∘ hkept.2⟩

section

variable (h : s.Inv)
include h

section

variable (htask : s.tasks[key]? = some task)
include htask

/-- **A task changes**, with the lock held by whoever it must be. -/
theorem Inv.change (htasks : s'.tasks = s.tasks.set key task') (hfits : Fits task')
    (hlive : s'.live + weight task = s.live + weight task')
    (hholds : ∀ j owner, s'.holder = some (j, owner) → s'.Holds j owner)
    (hspawning : task'.spawn = .call ∨ task'.spawn = .insert →
      ∃ j, s'.holder = some (j, .spawn key))
    (hremoving : task'.future = .guardRemove → ∃ j, s'.holder = some (j, .guard key))
    (hothers : ∀ j owner, owner ≠ .spawn key → owner ≠ .guard key → s.holder = some (j, owner) →
      s'.holder = some (j, owner))
    (hthreads : ∀ j, (.abort .take ∈ s'.threads j → s'.holder = some (j, .abort)) ∧
      .abort .take ∉ (s'.threads j).tail) (hreturns : s'.returns = s.returns) : s'.Inv where
  fits := fun k x hx => by
    rw [htasks] at hx
    rcases eq_or_of_getElem?_set hx with ⟨-, rfl⟩ | ⟨-, hx⟩
    · exact hfits
    · exact h.fits k x hx
  live := by
    have hsum := sum_map_set weight htask task'
    rw [htasks]
    have := h.live
    omega
  holds := hholds
  spawning := fun k x hx hspawn => by
    rw [htasks] at hx
    rcases eq_or_of_getElem?_set hx with ⟨rfl, rfl⟩ | ⟨hne, hx⟩
    · exact hspawning hspawn
    · obtain ⟨j, hj⟩ := h.spawning k x hx hspawn
      exact ⟨j, hothers j _ (fun heq => hne (Owner.spawn.inj heq)) nofun hj⟩
  removing := fun k x hx hfuture => by
    rw [htasks] at hx
    rcases eq_or_of_getElem?_set hx with ⟨rfl, rfl⟩ | ⟨hne, hx⟩
    · exact hremoving hfuture
    · obtain ⟨j, hj⟩ := h.removing k x hx hfuture
      exact ⟨j, hothers j _ nofun (fun heq => hne (Owner.guard.inj heq)) hj⟩
  taking := fun j => (hthreads j).1
  below := fun j => (hthreads j).2
  returns := fun n hn => h.returns n (hreturns ▸ hn)

/-- The runtime takes the task. -/
theorem Inv.launch (hcall : task.spawn = .call) :
    Inv (s.setTask key { task with spawn := .insert, future := .running }) := by
  have hunsent : task.future = .unsent := (h.fits key task htask).unsent.mpr (.inr hcall)
  refine h.change htask rfl ⟨?_, fun _ => .inl rfl, fun htable => ?_⟩ ?_ (fun j owner hj => ?_)
    (fun _ => h.spawning key task htask (.inl hcall)) nofun (fun _ _ _ _ hj => hj)
    (fun j => ⟨h.taking j, h.below j⟩) rfl
  · exact iff_of_false nofun (by rintro (hs | hs) <;> cases hs)
  · have hdone := ((h.fits key task htask).inTable htable).1
    rw [hcall] at hdone
    cases hdone
  · show s.live + weight task = s.live + 1
    rw [weight, hunsent]
    rfl
  · refine (h.holds j owner hj).kept rfl (kept_of_set htask (fun _ => .inr rfl) fun hfuture => ?_)
    rw [hunsent] at hfuture
    cases hfuture

omit htask in
/-- The entry is put in, and the lock released. -/
theorem Inv.insert (hthread : s.threads j = .spawn key :: frames)
    (htask : s.tasks[key]? = some task) (hinsert : task.spawn = .insert) :
    Inv { (s.setTask key { task with spawn := .done, inTable := true }).setThread j frames with
      holder := none } := by
  have hfits := h.fits key task htask
  obtain ⟨k, hholder⟩ := h.spawning key task htask (.inr hinsert)
  have hframes : .abort .take ∉ frames := by
    have hbelow := h.below j
    rwa [hthread] at hbelow
  refine h.change htask rfl ⟨?_, nofun, fun _ => ⟨rfl, ?_⟩⟩ ?_ nofun
    (by rintro (hs | hs) <;> cases hs) (fun hfuture => ?_) (fun j owner hne _ hj => ?_)
      (fun i => ?_) rfl
  · refine iff_of_false (fun hunsent => ?_) (by rintro (hs | hs) <;> cases hs)
    rcases hfits.unsent.mp hunsent with hs | hs <;> cases hinsert.symm.trans hs
  · exact (hfits.insert hinsert).imp_right .inl
  · rfl
  · rcases hfits.insert hinsert with hf | hf <;> cases hf.symm.trans hfuture
  · cases hholder.symm.trans hj
    exact absurd rfl hne
  · obtain ⟨htaking, hbelow⟩ := h.threads_of (j := j) hframes i
    exact ⟨fun hmem => absurd (hholder.symm.trans (htaking hmem)) nofun, hbelow⟩

/-- **A future is dropped**, with its guard's work to do. -/
theorem Inv.drop (hrunning : task.future = .running) (hquiet : Quiet (s.threads j))
    (hframes : .abort .take ∈ frames → .abort .take ∈ s.threads j) :
    Inv ((s.setTask key { task with future := .guardLock }).setThread j
      (.guard key :: frames)) := by
  have hfits := h.fits key task htask
  have hnot : .abort .take ∉ Activity.guard key :: frames := by
    rw [mem_cons, not_or]
    exact ⟨nofun, fun hmem => h.not_taking hquiet (hframes hmem)⟩
  refine h.change htask rfl ⟨?_, fun _ => .inr rfl, fun htable => ?_⟩ ?_ (fun k owner hk => ?_)
    (h.spawning key task htask) nofun (fun _ _ _ _ hj => hj) (h.threads_of hnot) rfl
  · refine iff_of_false nofun fun hs => ?_
    cases hrunning.symm.trans (hfits.unsent.mpr hs)
  · exact ⟨(hfits.inTable htable).1, .inr (.inl rfl)⟩
  · show s.live + weight task = s.live + 1
    rw [weight, hrunning]
    rfl
  · have hholds := h.holds k owner hk
    have hkj : k ≠ j := fun heq => hholds.not_quiet (heq ▸ hquiet)
    refine hholds.kept (update_of_ne hkj _ _) (kept_of_set htask id fun hfuture => ?_)
    cases hrunning.symm.trans hfuture

/-- A guard takes its entry out, and releases the lock. -/
theorem Inv.remove (hremove : task.future = .guardRemove) :
    Inv { s.setTask key { task with future := .guardCount, inTable := false } with
      holder := none } := by
  have hfits := h.fits key task htask
  obtain ⟨k, hholder⟩ := h.removing key task htask hremove
  have hspawned : ¬ (task.spawn = .lock ∨ task.spawn = .call) := fun hs => by
    cases hremove.symm.trans (hfits.unsent.mpr hs)
  have hnot : task.spawn ≠ .insert := fun hs => by
    rcases hfits.insert hs with hf | hf <;> cases hremove.symm.trans hf
  refine h.change htask rfl ⟨iff_of_false nofun hspawned, fun hs => absurd hs hnot, nofun⟩ ?_ nofun
    (fun hs => ?_) nofun (fun j owner _ hne hj => ?_) (fun i => ⟨fun hmem => ?_, h.below i⟩) rfl
  · show s.live + weight task = s.live + 1
    rw [weight, hremove]
    rfl
  · rcases hs with hs | hs
    · exact absurd (.inr hs) hspawned
    · exact absurd hs hnot
  · cases hholder.symm.trans hj
    exact absurd rfl hne
  · exact absurd (hholder.symm.trans (h.taking i hmem)) nofun

end

/-- **A guard counts its task down.** -/
theorem Inv.count (hthread : s.threads j = .guard key :: frames) (htask : s.tasks[key]? = some task)
    (hcount : task.future = .guardCount) :
    Inv { (s.setTask key { task with future := .dropped }).setThread j frames with
      live := s.live - 1 } := by
  have hfits := h.fits key task htask
  have hweight : weight task = 1 := by
    rw [weight, hcount]
    rfl
  have hpositive : 1 ≤ s.live := by
    rw [h.live, ← hweight]
    exact le_sum_map weight htask
  have hspawned : ¬ (task.spawn = .lock ∨ task.spawn = .call) := fun hs => by
    cases hcount.symm.trans (hfits.unsent.mpr hs)
  have hframes : .abort .take ∉ frames := by
    have hbelow := h.below j
    rwa [hthread] at hbelow
  refine h.change htask rfl ⟨iff_of_false nofun hspawned, fun hs => ?_, fun htable => ?_⟩ ?_
    (fun k owner hk => ?_) (h.spawning key task htask) nofun (fun _ _ _ _ hj => hj)
    (h.threads_of hframes) rfl
  · rcases hfits.insert hs with hf | hf <;> cases hcount.symm.trans hf
  · rcases (hfits.inTable htable).2 with hf | hf | hf <;> cases hcount.symm.trans hf
  · show s.live - 1 + weight task = s.live + 0
    omega
  · have hholds := h.holds k owner hk
    -- the thread that counts holds no lock
    have hkj : k ≠ j := by
      rintro rfl
      cases owner with
      | spawn => obtain ⟨⟨_, hthread'⟩, -⟩ := hholds; cases hthread.symm.trans hthread'
      | guard =>
        obtain ⟨⟨_, hthread'⟩, task', htask', hfuture⟩ := hholds
        cases hthread.symm.trans hthread'
        cases htask.symm.trans htask'
        cases hcount.symm.trans hfuture
      | abort => obtain ⟨_, hthread'⟩ := hholds; cases hthread.symm.trans hthread'
    refine hholds.kept (update_of_ne hkj _ _) (kept_of_set htask id fun hfuture => ?_)
    cases hcount.symm.trans hfuture

/-- A task is spawned, and counted before anything else. -/
theorem Inv.spawn (hquiet : Quiet (s.threads j)) :
    Inv { s.setThread j (.spawn s.tasks.length :: s.threads j) with
      tasks := s.tasks ++ [{}]
      live := s.live + 1 } := by
  have hnot : .abort .take ∉ Activity.spawn s.tasks.length :: s.threads j := by
    rw [mem_cons, not_or]
    exact ⟨nofun, h.not_taking hquiet⟩
  refine
    { fits := forall_getElem?_concat h.fits ⟨iff_of_true rfl (.inl rfl), nofun, nofun⟩
      live := ?_
      holds := fun k owner hk => ?_
      spawning := forall_getElem?_concat h.spawning (by rintro (hs | hs) <;> cases hs)
      removing := forall_getElem?_concat h.removing nofun
      taking := fun k => (h.threads_of hnot k).1
      below := fun k => (h.threads_of hnot k).2
      returns := h.returns }
  · show s.live + 1 = ((s.tasks ++ [({} : TrackedTask)]).map weight).sum
    rw [map_append, sum_append, ← h.live]
    rfl
  · have hholds := h.holds k owner hk
    have hkj : k ≠ j := fun heq => hholds.not_quiet (heq ▸ hquiet)
    exact hholds.kept (update_of_ne hkj _ _) fun key task htask =>
      ⟨task, getElem?_concat_eq_some.mpr (.inl htask), id, id⟩

end

/-- Who asks for the lock, and where it stands. -/
theorem requests_eq_some (h : s.requests j = some owner) :
    (∃ key frames task, owner = .spawn key ∧ s.threads j = .spawn key :: frames ∧
      s.tasks[key]? = some task ∧ task.spawn = .lock) ∨
    (∃ key frames task, owner = .guard key ∧ s.threads j = .guard key :: frames ∧
      s.tasks[key]? = some task ∧ task.future = .guardLock) ∨
    ∃ frames, owner = .abort ∧ s.threads j = .abort .lock :: frames := by
  unfold requests at h
  split at h
  · rename_i key frames hthread
    split at h
    · split at h <;> cases h
      exact .inl ⟨key, frames, _, rfl, hthread, ‹_›, ‹_›⟩
    · cases h
  · rename_i key frames hthread
    split at h
    · split at h <;> cases h
      exact .inr (.inl ⟨key, frames, _, rfl, hthread, ‹_›, ‹_›⟩)
    · cases h
  · cases h
    exact .inr (.inr ⟨_, rfl, ‹_›⟩)
  · cases h

theorem modify_eq_set (f : TrackedTask → TrackedTask) (htask : tasks[key]? = some task) :
    tasks.modify key f = tasks.set key (f task) := by
  rw [modify_eq_set_getElem?, htask]
  rfl

section

variable (h : s.Inv) (hfree : s.holder = none)
include h hfree

/-- A `spawn` takes the lock. -/
theorem Inv.lockSpawn (hthread : s.threads j = .spawn key :: frames)
    (htask : s.tasks[key]? = some task) (hlock : task.spawn = .lock) :
    (s.locked j (.spawn key)).Inv := by
  have hfits := h.fits key task htask
  have hunsent : task.future = .unsent := hfits.unsent.mpr (.inl hlock)
  have hset := modify_eq_set (fun task => { task with spawn := .call }) htask
  refine h.change htask hset ⟨iff_of_true hunsent (.inr rfl), nofun, fun htable => ?_⟩ rfl
    (fun k owner hk => ?_) (fun _ => ⟨j, rfl⟩) (fun hf => ?_) (fun k owner _ _ hk => ?_)
    (fun k => ⟨fun hmem => ?_, h.below k⟩) rfl
  · cases hlock.symm.trans (hfits.inTable htable).1
  · cases hk
    refine ⟨⟨frames, hthread⟩, { task with spawn := .call }, ?_, .inl rfl⟩
    show (s.tasks.modify key _)[key]? = _
    rw [hset, List.getElem?_set_self (List.getElem?_eq_some_iff.mp htask).1]
  · cases hunsent.symm.trans hf
  · cases hfree.symm.trans hk
  · cases hfree.symm.trans (h.taking k hmem)

/-- A guard takes the lock: its task's `spawn` has returned by then. -/
theorem Inv.lockGuard (hthread : s.threads j = .guard key :: frames)
    (htask : s.tasks[key]? = some task) (hlock : task.future = .guardLock) :
    (s.locked j (.guard key)).Inv := by
  have hfits := h.fits key task htask
  have hset := modify_eq_set (fun task => { task with future := .guardRemove }) htask
  have hspawned : ¬ (task.spawn = .lock ∨ task.spawn = .call) := fun hs => by
    cases hlock.symm.trans (hfits.unsent.mpr hs)
  have hnot : ¬ (task.spawn = .call ∨ task.spawn = .insert) := fun hs => by
    obtain ⟨k, hk⟩ := h.spawning key task htask hs
    cases hfree.symm.trans hk
  refine h.change htask hset
    ⟨iff_of_false nofun hspawned, fun hs => absurd (.inr hs) hnot, fun htable => ?_⟩ ?_
    (fun k owner hk => ?_) (fun hs => absurd hs hnot) (fun _ => ⟨j, rfl⟩) (fun k owner _ _ hk => ?_)
    (fun k => ⟨fun hmem => ?_, h.below k⟩) rfl
  · exact ⟨(hfits.inTable htable).1, .inr (.inr rfl)⟩
  · show s.live + weight task = s.live + 1
    rw [weight, hlock]
    rfl
  · cases hk
    refine ⟨⟨frames, hthread⟩, { task with future := .guardRemove }, ?_, rfl⟩
    show (s.tasks.modify key _)[key]? = _
    rw [hset, List.getElem?_set_self (List.getElem?_eq_some_iff.mp htask).1]
  · cases hfree.symm.trans hk
  · cases hfree.symm.trans (h.taking k hmem)

/-- An `abort_all` takes the lock. -/
theorem Inv.lockAbort (hthread : s.threads j = .abort .lock :: frames) :
    (s.locked j .abort).Inv := by
  have hself : (s.locked j .abort).threads j = .abort .take :: frames := by
    show update s.threads j (.abort .take :: (s.threads j).tail) j = _
    rw [update_self, hthread]
    rfl
  have hother : ∀ k, k ≠ j → (s.locked j .abort).threads k = s.threads k := fun k hk =>
    update_of_ne hk _ _
  have hnone : ∀ k, .abort .take ∉ s.threads k := fun k hmem => by
    cases hfree.symm.trans (h.taking k hmem)
  refine
    { h with
      holds := fun k owner hk => ?_, spawning := fun key task htask hs => ?_,
      removing := fun key task htask hf => ?_, taking := fun k hmem => ?_, below := fun k => ?_ }
  · cases hk
    exact ⟨frames, hself⟩
  · obtain ⟨k, hk⟩ := h.spawning key task htask hs
    cases hfree.symm.trans hk
  · obtain ⟨k, hk⟩ := h.removing key task htask hf
    cases hfree.symm.trans hk
  · by_cases hkj : k = j
    · rw [hkj]
      rfl
    · exact absurd (hother k hkj ▸ hmem) (hnone k)
  · by_cases hkj : k = j
    · subst hkj
      rw [hself]
      have hnot := hnone k
      rw [hthread] at hnot
      exact fun hmem => hnot (mem_cons_of_mem _ hmem)
    · rw [hother k hkj]
      exact h.below k

/-- **The lock is taken.** -/
theorem Inv.lock (hrequests : s.requests j = some owner) : (s.locked j owner).Inv := by
  obtain ⟨key, frames, task, rfl, hthread, htask, hlock⟩ |
    ⟨key, frames, task, rfl, hthread, htask, hlock⟩ | ⟨frames, rfl, hthread⟩ :=
    requests_eq_some hrequests
  · exact h.lockSpawn hfree hthread htask hlock
  · exact h.lockGuard hfree hthread htask hlock
  · exact h.lockAbort hfree hthread

end

/-- `abort_all` takes the table, and releases the lock. -/
theorem Inv.take (h : s.Inv) (hthread : s.threads j = .abort .take :: frames) :
    Inv { s.setThread j (.abort (.each s.keys) :: frames) with
      holder := none
      tasks := s.tasks.map fun task => { task with inTable := false } } := by
  have hholder : s.holder = some (j, .abort) := h.taking j (hthread ▸ mem_cons_self)
  have hget : ∀ {key : ℕ} {task : TrackedTask},
      (s.tasks.map fun task => { task with inTable := false })[key]? = some task →
        ∃ task₀, s.tasks[key]? = some task₀ ∧ { task₀ with inTable := false } = task :=
    fun {key task} htask => by rwa [getElem?_map, Option.map_eq_some_iff] at htask
  have hframes : .abort .take ∉ Activity.abort (.each s.keys) :: frames := by
    have hbelow := h.below j
    rw [hthread] at hbelow
    rw [mem_cons, not_or]
    exact ⟨nofun, hbelow⟩
  refine
    { fits := fun key task htask => ?_, live := ?_, holds := nofun,
      spawning := fun key task htask hs => ?_, removing := fun key task htask hf => ?_,
      taking := fun k hmem => ?_, below := fun k => (h.threads_of hframes k).2,
      returns := h.returns }
  · obtain ⟨task₀, htask₀, rfl⟩ := hget htask
    have hfits := h.fits key task₀ htask₀
    exact ⟨hfits.unsent, hfits.insert, nofun⟩
  · show s.live = _
    rw [h.live, map_map]
    rfl
  · obtain ⟨task₀, htask₀, rfl⟩ := hget htask
    obtain ⟨k, hk⟩ := h.spawning key task₀ htask₀ hs
    cases hholder.symm.trans hk
  · obtain ⟨task₀, htask₀, rfl⟩ := hget htask
    obtain ⟨k, hk⟩ := h.removing key task₀ htask₀ hf
    cases hholder.symm.trans hk
  · -- the lock was this thread's, and its other frames are below
    have hk : s.holder = some (k, .abort) := (h.threads_of hframes k).1 hmem
    cases hholder.symm.trans hk
    rw [show ({ s.setThread j (.abort (.each s.keys) :: frames) with
      holder := none
      tasks := s.tasks.map fun task => { task with inTable := false } } : Tracker).threads j =
        .abort (.each s.keys) :: frames from update_self ..] at hmem
    exact absurd hmem hframes

theorem Inv.init : trackerMachine.init.Inv where
  fits := nofun
  live := rfl
  holds := nofun
  spawning := nofun
  removing := nofun
  taking := fun _ h => absurd h not_mem_nil
  below := fun _ h => absurd h not_mem_nil
  returns := fun _ h => absurd h not_mem_nil

/-- **A step keeps the invariant**, unless the runtime refuses a task. -/
theorem Inv.step (h : s.Inv) (ha : ∀ j, a ≠ .launch j false)
    (hstep : trackerMachine.step s a = some s') : s'.Inv := by
  cases step_spec hstep with
  | spawn hquiet => exact h.spawn hquiet
  | lock hfree hrequests => exact h.lock hfree hrequests
  | launch _ htask hcall => exact h.launch htask hcall
  | refuse => exact absurd rfl (ha _)
  | insert hthread htask hinsert => exact h.insert hthread htask hinsert
  | drop htask hrunning hquiet hframes => exact h.drop htask hrunning hquiet hframes
  | remove _ htask hremove => exact h.remove htask hremove
  | count hthread htask hcount => exact h.count hthread htask hcount
  | take hthread => exact h.take hthread
  | moves hquiet hframes hreturns => exact h.moves hquiet hframes hreturns

/-- The spawned tasks whose futures have not been dropped. -/
def undropped (s : Tracker) : ℕ := s.tasks.countP fun task => task.future ≠ .dropped

theorem sum_weight (tasks : List TrackedTask) :
    (tasks.map weight).sum = tasks.countP fun task => task.future ≠ .dropped := by
  induction tasks with
  | nil => rfl
  | cons task tasks ih =>
    rw [map_cons, sum_cons, ih, countP_cons, weight, Nat.add_comm]
    by_cases hdropped : task.future = .dropped <;> simp [hdropped]

/-- **The tracker counts exactly, and never locks against itself**, as long as the runtime
refuses no task: no thread asks for the lock it holds, `live` is the number of tasks whose
futures have not been dropped, no entry is left of a task whose future has been, and what
`drain` and `close` return at is zero. -/
theorem tracked_exactly {t : List TrackerAction} (h : trackerMachine.run t = some s)
    (haccepts : ∀ j, .launch j false ∉ t) :
    (∀ j owner, s.holder = some (j, owner) → s.requests j = none) ∧
    s.live = s.undropped ∧
    (∀ (key : ℕ) (task : TrackedTask), s.tasks[key]? = some task → task.inTable = true →
      task.spawn = .done ∧ task.future ≠ .dropped) ∧
    ∀ n ∈ s.returns, n = 0 := by
  have hinv : s.Inv := trackerMachine.invariant_of_steps (C := fun _ a => ∀ j, a ≠ .launch j false)
    Inv.init (fun s a s' hs ha hstep => hs.step ha hstep)
    (fun pre s₀ a htook j ha => haccepts j (htook.taken.subset (by simp [ha]))) h
  refine ⟨fun j owner hj => (hinv.holds j owner hj).requests_eq_none,
    hinv.live.trans (sum_weight _), fun key task htask htable => ?_, hinv.returns⟩
  obtain ⟨hdone, hfuture⟩ := (hinv.fits key task htask).inTable htable
  refine ⟨hdone, fun hdropped => ?_⟩
  rcases hfuture with hf | hf | hf <;> cases hdropped.symm.trans hf

/-- A task is spawned, ends, and the drain returns. -/
theorem tracked_exactly_drained : ∃ s, trackerMachine.run [.spawn 0, .lock 0, .launch 0 true,
    .insert 0, .drop 1 0, .lock 1, .remove 1, .count 1, .drain 2, .drained 2] = some s ∧
      s.returns = [0] ∧ s.live = s.undropped ∧ ∀ n ∈ s.returns, n = 0 := by
  refine ⟨_, rfl, rfl, ?_⟩
  obtain ⟨-, hlive, -, hreturns⟩ := tracked_exactly (t := [.spawn 0, .lock 0, .launch 0 true,
    .insert 0, .drop 1 0, .lock 1, .remove 1, .count 1, .drain 2, .drained 2]) rfl (by simp)
  exact ⟨hlive, hreturns⟩

/-- **A runtime that has shut down drops the future inside its `spawn`**: the guard asks
for the lock its own thread holds. -/
theorem refused_spawn : ∃ s, trackerMachine.run [.spawn 0, .lock 0, .launch 0 false] = some s ∧
    s.holder = some (0, .spawn 0) ∧ s.requests 0 = some (.guard 0) :=
  ⟨_, rfl, rfl, rfl⟩

end Tracker

end Ulo.Ws
