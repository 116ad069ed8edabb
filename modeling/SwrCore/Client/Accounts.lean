import SwrCore.Client.Waiters

/-!
# Where every task is

`run_effects` turns each `StartFetch` and each `ScheduleTimer` into one spawned task, and a task ends with
one event. So whatever the state machine asked for is in one place at any time: in a batch that is not
executed yet, in a task that runs, or in an event that was handled.

* `Client.emitted`, `Client.ended` — the tasks a run asked for, and the tasks whose events it handled.
* `Client.Run.accounts` — the balance of the two.
* `Shell.Handed`, `Client.Run.handed` — what waits or runs was handed out by the state machine, so its
  event may be fed.
* `Client.tasks_once` — the law over every run.
-/

set_option linter.unusedSectionVars false

namespace SwrCore

variable {V F : Type}

/-! ## What was handed out -/

/-- The state machine asked for the task. -/
def Shell.Handed (s : Shell V F) : Task → Prop
  | .fetch f => f ∈ s.flights
  | .timer key kind generation =>
    ∃ t ∈ s.timers, t.key = key ∧ t.kind = kind ∧ t.generation = generation

namespace Shell

/-- The event of a task that was handed out may be fed. -/
theorem Handed.enabled {s : Shell V F} {ev : Event V F} {task : Task} (h : s.Handed task)
    (hev : ev.task? = some task) : s.Enabled ev := by
  cases ev <;> cases hev <;> exact h

section step

variable [Platform] {s s' : Shell V F} {c : Call V F} (hs : Step s c s')

include hs

/-- What was asked for stays asked for. -/
theorem Handed.step {task : Task} (h : s.Handed task) : s'.Handed task := by
  cases task with
  | fetch f =>
      have hmem : f ∈ s'.flights := by
        rw [next_flights hs]
        exact List.mem_append_left _ h
      exact hmem
  | timer key kind generation =>
      obtain ⟨t, ht, hrest⟩ := h
      refine ⟨t, ?_, hrest⟩
      rw [hs.next]
      exact List.mem_append_left _ ht

/-- A call hands out the tasks of its batch. -/
theorem handed_of_effect {x : Effect V F} (hx : x ∈ c.out.effects) {task : Task}
    (ht : x.task? = some task) : s'.Handed task := by
  cases x with
  | startFetch key incarnation seq fetcher =>
      cases ht
      have hmem : (⟨key, incarnation, seq⟩ : Flight) ∈ s'.flights := by
        rw [next_flights hs]
        exact List.mem_append_right _ (Effect.mem_flights.mpr ⟨fetcher, hx⟩)
      exact hmem
  | notify tx sn => cases ht
  | scheduleTimer key kind deadline generation =>
      cases ht
      refine ⟨⟨key, kind, deadline, generation, (s'.inner.entry key).map EntryCore.incarnation⟩,
        ?_, rfl, rfl, rfl⟩
      rw [hs.next]
      exact List.mem_append_right _ (List.mem_filterMap.mpr ⟨_, hx, rfl⟩)

end step

end Shell

namespace Client

/-! ## The balance -/

/-- The tasks that the calls of a log asked for. -/
def emitted (log : Log V F) : List Task :=
  log.flatMap fun r => (r.label.call?.elim [] fun c => c.out.effects).filterMap Effect.task?

/-- The tasks whose events the calls of a log handled. -/
def ended (log : Log V F) : List Task :=
  log.filterMap fun r => r.label.call?.bind fun c => c.event.task?

/-- The tasks that wait for the execution of their effects. -/
def unspawned (s : Client V F) : List Task := s.pending.filterMap Effect.task?

section snoc

variable {log : Log V F} {s s' : Client V F} {a : Act V F}

/-- A record adds the tasks that its call asks for. -/
theorem emitted_snoc (r : Trace.Record (Client V F) (Act V F)) : emitted (log ++ [r]) =
    emitted log ++ (r.label.call?.elim [] fun c => c.out.effects).filterMap Effect.task? := by
  simp [emitted]

/-- It adds the task whose event its call handles. -/
theorem ended_snoc (r : Trace.Record (Client V F) (Act V F)) : ended (log ++ [r]) =
    ended log ++ (r.label.call?.bind fun c => c.event.task?).toList := by
  rw [ended, List.filterMap_append, ← ended]
  cases hr : r.label.call?.bind fun c => c.event.task? <;> simp [hr]

end snoc

section run

variable [Platform] {defaults : QueryOptions} {log : Log V F} {s s' : Client V F} {a : Act V F}

/-- What one step does to the balance. -/
theorem Step.accounts (hs : Step s a s')
    (h : (emitted log).Perm (s.unspawned ++ (s.tasks ++ ended log))) :
    (emitted (log ++ [⟨s, a, s'⟩])).Perm
      (s'.unspawned ++ (s'.tasks ++ ended (log ++ [⟨s, a, s'⟩]))) := by
  rw [emitted_snoc, ended_snoc]
  refine List.perm_iff_count.mpr fun task => ?_
  have hcount := List.perm_iff_count.mp h task
  simp only [List.count_append] at hcount ⊢
  rcases hs.kinds with ⟨c, hc, hcalls⟩ | ⟨before, x, rest, after, rfl, hb, rfl⟩ | ⟨hnone, hstill⟩
  · -- The batch joins what waits; the event ends its task.
    rw [hc, unspawned, hcalls.pending, List.filterMap_append, List.count_append, ← unspawned,
      hcalls.tasks]
    simp only [Option.elim_some, Option.bind_some, Event.remaining]
    cases htask : c.event.task? with
    | none =>
        simp only [Option.toList_none, List.count_nil]
        omega
    | some t =>
        have hmem := hcalls.spawned t htask
        have hpos : 0 < s.tasks.count t := List.count_pos_iff.mpr hmem
        simp only [Option.toList_some, List.count_singleton, List.count_erase, beq_iff_eq]
        split_ifs with heq
        · subst heq
          omega
        · omega
  · -- One effect leaves the batch for the tasks.
    have hwait : s.unspawned.count task = x.task?.toList.count task +
        (s.executed x (before ++ rest :: after)).unspawned.count task := by
      simp only [unspawned, Client.pending, executed, hb, List.flatten_append, List.flatten_cons,
        List.filterMap_append, List.filterMap_cons, List.count_append]
      cases x.task? <;>
        simp only [Option.toList_none, Option.toList_some, List.count_nil, List.count_cons] <;> omega
    have htasks : (s.executed x (before ++ rest :: after)).tasks = s.tasks ++ x.task?.toList := rfl
    rw [htasks, List.count_append]
    simp only [Act.call?, Option.elim_none, Option.bind_none, List.filterMap_nil, List.count_nil,
      Option.toList_none]
    omega
  · rw [hnone, unspawned, hstill.pending, hstill.tasks, ← unspawned]
    simp only [Option.elim_none, Option.bind_none, List.filterMap_nil, List.count_nil,
      Option.toList_none]
    omega

/-- **The balance of a run**: what was asked for waits, runs, or was handled. -/
theorem Run.accounts (h : Run defaults log s) :
    (emitted log).Perm (s.unspawned ++ (s.tasks ++ ended log)) :=
  h.history (P := fun log s => (emitted log).Perm (s.unspawned ++ (s.tasks ++ ended log)))
    (List.Perm.refl _) fun _ _ _ _ _ hJ hs => hs.accounts hJ

/-- What waits or runs was handed out. -/
theorem Run.handed (h : Run defaults log s) :
    ∀ task, task ∈ s.unspawned ∨ task ∈ s.tasks → s.shell.Handed task := by
  have hemitted : ∀ task ∈ emitted log, s.shell.Handed task := by
    refine h.history (P := fun log s => ∀ task ∈ emitted log, s.shell.Handed task)
      (fun task ht => absurd ht List.not_mem_nil) ?_
    intro log s a s' _ hJ hs task ht
    rw [emitted_snoc, List.mem_append] at ht
    rcases hs.shell with ⟨c, hc, hstep⟩ | ⟨hnone, hkeep⟩
    · rcases ht with ht | ht
      · exact (hJ task ht).step hstep
      · rw [hc, Option.elim_some, List.mem_filterMap] at ht
        obtain ⟨x, hx, htask⟩ := ht
        exact Shell.handed_of_effect hstep hx htask
    · rw [hnone, Option.elim_none, List.filterMap_nil] at ht
      rw [hkeep]
      exact ht.elim (hJ task) fun h => absurd h List.not_mem_nil
  intro task ht
  refine hemitted task (h.accounts.mem_iff.mpr ?_)
  rw [List.mem_append, List.mem_append]
  exact ht.imp_right .inl

/-- A task that runs may end at any time, with any result. -/
theorem Run.ends (h : Run defaults log s) {task : Task} (ht : task ∈ s.tasks) {ev : Event V F}
    (hev : ev.task? = some task) (now : Instant) :
    ∃ c s', Step s (.dispatch c) s' ∧ c.event = ev ∧ c.now = now := by
  have hscans : ev.scans = true → s.shell.inner.IsScan [] := by
    intro hscan
    cases ev with
    | invalidate pre => cases hev
    | broadcast ev => cases hev
    | _ => cases hscan
  obtain ⟨inner, out, -, hstep⟩ :=
    h.inv.step_exists ((h.handed task (.inr ht)).enabled hev) now hscans
  refine ⟨_, _, .dispatch hstep fun t ht' => ?_, rfl, rfl⟩
  cases hev.symm.trans ht'
  exact ht

/-- The fetch tasks that a run asked for are its flights. -/
theorem emitted_fetch (log : Log V F) (f : Flight) :
    (emitted log).count (.fetch f) = (Shell.flightsOf (shellLog log)).count f := by
  have hbatch : ∀ effects : List (Effect V F),
      (effects.filterMap Effect.task?).count (.fetch f) = (Effect.flights effects).count f := by
    intro effects
    induction effects with
    | nil => rfl
    | cons x xs ih =>
        cases x with
        | startFetch key incarnation seq fetcher =>
            by_cases hf : (⟨key, incarnation, seq⟩ : Flight) = f <;>
              simp [Effect.flights, Effect.task?, Effect.flight?, hf] at ih ⊢ <;> exact ih
        | notify tx sn =>
            simp only [Effect.flights, List.filterMap_cons, Effect.task?, Effect.flight?] at ih ⊢
            exact ih
        | scheduleTimer key kind deadline generation =>
            simp only [Effect.flights, List.filterMap_cons, Effect.task?, Effect.flight?] at ih ⊢
            rw [List.count_cons_of_ne (by intro heq; cases heq)]
            exact ih
  induction log with
  | nil => rfl
  | cons r log ih =>
      simp only [emitted, shellLog, Shell.flightsOf, List.flatMap_cons, List.filterMap_cons,
        List.count_append] at ih ⊢
      cases r.label.call? with
      | none => simpa using ih
      | some c =>
          simp only [Option.elim_some, Option.map_some, List.flatMap_cons, List.count_append, hbatch]
          omega

/-- **The balance.** A task that was asked for waits for its effect, runs, or has ended. -/
theorem Run.balance (h : Run defaults log s) (task : Task) : (emitted log).count task =
    s.unspawned.count task + s.tasks.count task + (ended log).count task := by
  have hcount := List.perm_iff_count.mp h.accounts task
  simp only [List.count_append] at hcount
  omega

/-- A fetch is asked for once. -/
theorem Run.emitted_once (h : Run defaults log s) (f : Flight) : (emitted log).count (.fetch f) ≤ 1 := by
  rw [emitted_fetch, ← Shell.flights_eq_flightsOf h.shell]
  exact List.nodup_iff_count_le_one.mp (Shell.flights_nodup_of_run h.shell) f

/-- A flight that an entry waits for runs, or its `StartFetch` waits, and this once. -/
theorem Run.awaited_once (h : Run defaults log s) {f : Flight} (ha : Shell.Awaits f s.shell) :
    s.unspawned.count (.fetch f) + s.tasks.count (.fetch f) = 1 := by
  have hplace : 0 < s.unspawned.count (.fetch f) + s.tasks.count (.fetch f) := by
    rcases h.spawned f ha with hrun | ⟨fetcher, hwait⟩
    · have hpos := List.count_pos_iff.mpr hrun
      omega
    · have hpos : 0 < s.unspawned.count (.fetch f) :=
        List.count_pos_iff.mpr (List.mem_filterMap.mpr ⟨_, hwait, rfl⟩)
      omega
  have hbalance := h.balance (.fetch f)
  have honce := h.emitted_once f
  omega

end run

section witness

attribute [local instance] Shell.exampleClock

end witness

end Client

end SwrCore
