import Mathlib.Logic.Function.Basic
import SwrCore.Retry.Schedule
import SwrCore.Shell.Flight

/-!
# The tasks behind the flights

Every fetch effect is spawned as a detached task, which awaits the fetcher and then dispatches its
result. Nobody joins the task: if it panics, no result is dispatched. Here all fetchers retry; one that
does not is one with no retries. A task is there from the call on that emits its effect; that the batch
is executed after the lock was released only delays its first poll.

* `RetryTask`, `Tasked` — the spawned tasks beside the shell; `Tasked.Step`, `Tasked.Run`.
* `Tasked.Backed` — every awaited flight has its task: the invariant.
* `Tasked.Overflows` — a task is resumed where its loop overflows.
* `Tasked.Proceeds`, `Tasked.Manned` — every task still retries or can deliver, and every awaited
  flight has one.
* `Tasked.manned_iff` — a run is manned throughout exactly if no loop overflows.
* `Tasked.Stranded` — a flight whose task has panicked; `Tasked.Stranded.stays`: it is awaited for ever.
* `Tasked.flight_killed` — a backoff that kills its flight.
-/

set_option linter.unusedSectionVars false

namespace SwrCore

variable {V : Type}

/-- A spawned task: its fetcher, and where the loop of the fetcher stands. -/
structure RetryTask (V : Type) where
  retry : Retry V
  state : RetryState V V

/-- The task that an effect spawns for the flight. Source: `client.rs`, `Shared::run_effects`. -/
def Effect.spawned (f : Flight) : Effect V (Retry V) → Option (RetryTask V)
  | .startFetch key incarnation seq fetcher =>
    if ⟨key, incarnation, seq⟩ = f then some ⟨fetcher, .fetching 0⟩ else none
  | _ => none

/-- The shell, and the tasks that have not dispatched their results yet. -/
structure Tasked (V : Type) where
  shell : Shell V (Retry V)
  tasks : Flight → Option (RetryTask V)

/-- A move of the system: a call that dispatches no result, a task that is resumed, or one that
dispatches its result. -/
inductive Tasked.Move (V : Type) where
  | call (c : Call V (Retry V))
  | resume (f : Flight) (input : RetryInput V V)
  | deliver (f : Flight) (c : Call V (Retry V))

/-- The event that a move dispatches. -/
def Tasked.Move.event? : Tasked.Move V → Option (Event V (Retry V))
  | .call c => some c.event
  | .resume _ _ => none
  | .deliver _ c => some c.event

namespace Tasked

/-- The task that a call spawns for the flight. -/
def spawned (c : Call V (Retry V)) (f : Flight) : Option (RetryTask V) :=
  c.out.effects.findSome? (Effect.spawned f)

/-- The task of the flight is replaced. -/
def put (s : Tasked V) (f : Flight) (task : RetryTask V) : Tasked V :=
  ⟨s.shell, Function.update s.tasks f (some task)⟩

@[simp] theorem put_self (s : Tasked V) (f : Flight) (task : RetryTask V) :
    (s.put f task).tasks f = some task := Function.update_self f _ _

theorem put_of_ne {f g : Flight} (h : g ≠ f) (s : Tasked V) (task : RetryTask V) :
    (s.put f task).tasks g = s.tasks g := Function.update_of_ne h _ _

def init (defaults : QueryOptions) : Tasked V := ⟨.init defaults, fun _ => none⟩

/-- One step. A task that has its result dispatches it and is gone; one that has panicked makes no step
any more. -/
inductive Step [Platform] (s : Tasked V) : Move V → Tasked V → Prop
  | call {c : Call V (Retry V)} {shell : Shell V (Retry V)} (hs : Shell.Step s.shell c shell)
      (hc : ∀ f, ¬ c.event.delivers f) :
      Step s (.call c) ⟨shell, fun f => (spawned c f).or (s.tasks f)⟩
  | resume {f : Flight} {task : RetryTask V} {input : RetryInput V V} {state : RetryState V V}
      (ht : s.tasks f = some task) (hr : task.retry.Step task.state input state) :
      Step s (.resume f input) (s.put f { task with state := state })
  | deliver {f : Flight} {task : RetryTask V} {result : Except V V} {c : Call V (Retry V)}
      {shell : Shell V (Retry V)} (ht : s.tasks f = some task)
      (hr : task.state = .returned result) (hev : c.event = f.commit result)
      (hs : Shell.Step s.shell c shell) :
      Step s (.deliver f c) ⟨shell, fun g => (spawned c g).or (if g = f then none else s.tasks g)⟩

/-- Runs from the start, with their logs. -/
abbrev Run [Platform] (defaults : QueryOptions) :
    List (Trace.Record (Tasked V) (Move V)) → Tasked V → Prop :=
  Trace.Run Step (init defaults)

/-! ## Spawning -/

theorem spawned_isSome {c : Call V (Retry V)} {f : Flight} :
    (spawned c f).isSome = true ↔ f ∈ Effect.flights c.out.effects := by
  rw [spawned, List.findSome?_isSome_iff, Effect.mem_flights]
  constructor
  · rintro ⟨x, hx, hsome⟩
    cases x with
    | startFetch key incarnation seq fetcher =>
        by_cases hf : (⟨key, incarnation, seq⟩ : Flight) = f
        · exact ⟨fetcher, hf ▸ hx⟩
        · simp [Effect.spawned, hf] at hsome
    | _ => cases hsome
  · rintro ⟨fetcher, hx⟩
    exact ⟨_, hx, by simp [Effect.spawned]⟩

theorem spawned_none {c : Call V (Retry V)} {f : Flight}
    (h : f ∉ Effect.flights c.out.effects) : spawned c f = none := by
  rw [← Option.not_isSome_iff_eq_none, spawned_isSome]
  exact h

/-- A new task has called its fetcher once. -/
theorem spawned_state {c : Call V (Retry V)} {f : Flight} {task : RetryTask V}
    (h : spawned c f = some task) : task.state = .fetching 0 := by
  obtain ⟨x, -, hx⟩ := List.exists_of_findSome?_eq_some h
  cases x with
  | startFetch key incarnation seq fetcher =>
      obtain rfl := Option.some.inj (Option.ite_none_right_eq_some.mp hx).2
      rfl
  | _ => cases hx

/-! ## Every awaited flight has its task -/

/-- Every task belongs to a flight that was started, and every flight that is awaited has one. -/
structure Backed (s : Tasked V) : Prop where
  inv : s.shell.Inv
  known : ∀ f task, s.tasks f = some task → f ∈ s.shell.flights
  awaited : ∀ f, Shell.Awaits f s.shell → ∃ task, s.tasks f = some task

theorem backed_init (defaults : QueryOptions) : (init defaults : Tasked V).Backed := by
  refine ⟨Shell.inv_init defaults, nofun, ?_⟩
  rintro f ⟨e, he, -⟩
  have hnone := Shell.init_entry (V := V) (F := Retry V) defaults f.key
  rw [show (init defaults : Tasked V).shell = Shell.init defaults from rfl, hnone] at he
  cases he

section step

variable [Platform] {s s' : Tasked V} {l : Move V}

/-- The tasks after a call: those it spawned, and those that were there. -/
theorem Backed.call (h : s.Backed) {c : Call V (Retry V)} {shell : Shell V (Retry V)}
    (hs : Shell.Step s.shell c shell) {tasks : Flight → Option (RetryTask V)}
    (hsub : ∀ f task, tasks f = some task → s.tasks f = some task)
    (hkeep : ∀ f, ¬ c.event.delivers f → tasks f = s.tasks f) :
    Backed ⟨shell, fun f => (spawned c f).or (tasks f)⟩ := by
  refine ⟨h.inv.step hs, fun f task ht => ?_, fun f ha => ?_⟩
  · rw [Shell.next_flights hs]
    rcases Option.or_eq_some_iff.mp ht with hnew | ⟨-, hold⟩
    · exact List.mem_append_right _ (spawned_isSome.mp (Option.isSome_of_mem hnew))
    · exact List.mem_append_left _ (h.known f task (hsub f task hold))
  · rcases (h.inv.awaits_step hs f).mp ha with hnew | ⟨hold, hno⟩
    · obtain ⟨task, htask⟩ := Option.isSome_iff_exists.mp (spawned_isSome.mpr hnew)
      exact ⟨task, Option.or_eq_some_iff.mpr (.inl htask)⟩
    · obtain ⟨task, htask⟩ := h.awaited f hold
      rw [← hkeep f fun hd => hno (.inl hd)] at htask
      rw [← Option.isSome_iff_exists, Option.isSome_or, htask]
      exact Bool.or_true _

/-- **The invariant is kept.** -/
theorem Backed.step (h : s.Backed) (hs : Step s l s') : s'.Backed := by
  cases hs with
  | call hs hc => exact h.call hs (fun _ _ ht => ht) fun _ _ => rfl
  | @resume f task input state ht hr =>
      refine ⟨h.inv, fun g task' hg => ?_, fun g ha => ?_⟩
      · by_cases hgf : g = f
        · rw [hgf]
          exact h.known f task ht
        · rw [put_of_ne hgf] at hg
          exact h.known g task' hg
      · by_cases hgf : g = f
        · rw [hgf]
          exact ⟨_, s.put_self f _⟩
        · obtain ⟨task', hg⟩ := h.awaited g ha
          exact ⟨task', (put_of_ne hgf s _).trans hg⟩
  | @deliver f task result c shell ht hr hev hs =>
      refine h.call hs (fun g task' hg => ?_) fun g hno => if_neg ?_
      · exact (Option.ite_none_left_eq_some.mp hg).2
      · rintro rfl
        rw [hev] at hno
        exact hno ((g.commit_delivers g result).mpr rfl)

end step

theorem backed_of_run [Platform] {defaults : QueryOptions}
    {log : List (Trace.Record (Tasked V) (Move V))} {s : Tasked V} (h : Run defaults log s) :
    s.Backed :=
  h.invariant (backed_init defaults) fun _ _ _ hI hs => hI.step hs

/-- **No flight is forgotten.** Every flight that was started has its task, or its result was
dispatched. -/
theorem accounted_of_run [Platform] {defaults : QueryOptions}
    {log : List (Trace.Record (Tasked V) (Move V))} {s : Tasked V} (h : Run defaults log s) :
    ∀ f ∈ s.shell.flights, (∃ task, s.tasks f = some task) ∨
      ∃ x ∈ log, ∃ c, x.label = .deliver f c := by
  refine h.history (P := fun log s => ∀ f ∈ s.shell.flights, (∃ task, s.tasks f = some task) ∨
    ∃ x ∈ log, ∃ c, x.label = .deliver f c) (fun f hf => absurd hf List.not_mem_nil) ?_
  rintro log s l s' - ih hs f hf
  have hkept : (∃ x ∈ log, ∃ c, x.label = .deliver f c) →
      ∃ x ∈ log ++ [⟨s, l, s'⟩], ∃ c, x.label = .deliver f c := by
    rintro ⟨x, hx, hd⟩
    exact ⟨x, List.mem_append_left _ hx, hd⟩
  have hnew : ∀ {c : Call V (Retry V)} {shell : Shell V (Retry V)} {rest : Option (RetryTask V)},
      Shell.Step s.shell c shell → f ∈ shell.flights →
        ((∃ task, s.tasks f = some task) → ∃ task, rest = some task) →
          (∃ task, (spawned c f).or rest = some task) ∨ ∃ x ∈ log, ∃ c, x.label = .deliver f c := by
    intro c shell rest hs hf hrest
    rw [Shell.next_flights hs] at hf
    rcases List.mem_append.mp hf with hold | hfresh
    · rcases ih f hold with hold | hd
      · obtain ⟨task, rfl⟩ := hrest hold
        exact .inl (Option.isSome_iff_exists.mp (by rw [Option.isSome_or]; exact Bool.or_true _))
      · exact .inr hd
    · obtain ⟨task, ht⟩ := Option.isSome_iff_exists.mp (spawned_isSome.mpr hfresh)
      exact .inl ⟨task, Option.or_eq_some_iff.mpr (.inl ht)⟩
  cases hs with
  | call hs hc => exact (hnew hs hf id).imp_right hkept
  | @resume g task input state ht hr =>
      by_cases hfg : f = g
      · rw [hfg]
        exact .inl ⟨_, s.put_self g _⟩
      · rcases ih f hf with ⟨task', hold⟩ | hd
        · exact .inl ⟨task', (put_of_ne hfg s _).trans hold⟩
        · exact .inr (hkept hd)
  | @deliver g task result c shell ht hr hev hs =>
      by_cases hfg : f = g
      · refine .inr ⟨_, List.mem_append_right _ (List.mem_singleton.mpr rfl), c, ?_⟩
        rw [hfg]
      · exact (hnew hs hf fun hold => by rw [if_neg hfg]; exact hold).imp_right hkept

/-! ## Panics -/

/-- No task has panicked. -/
def Alive (s : Tasked V) : Prop :=
  ∀ f task, s.tasks f = some task → ∀ p, task.state ≠ .panicked p

section overflows

variable [Platform]

/-- The step resumes a task where its loop overflows: the counter does, or the deadline. -/
def Overflows (x : Trace.Record (Tasked V) (Move V)) : Prop :=
  ∃ f input task, x.label = .resume f input ∧ x.pre.tasks f = some task ∧
    (Retry.CounterOverflows task.state input ∨ task.retry.DeadlineOverflows task.state input)

/-- The task still retries, or it can dispatch its result at any time. -/
def Proceeds (s : Tasked V) (f : Flight) (task : RetryTask V) : Prop :=
  task.retry.GoesOn task.state ∨ ∀ now, ∃ c s', c.now = now ∧ Step s (.deliver f c) s'

/-- Every task proceeds, and every flight that is awaited has one. -/
structure Manned (s : Tasked V) : Prop where
  proceeds : ∀ f task, s.tasks f = some task → s.Proceeds f task
  awaited : ∀ f, Shell.Awaits f s.shell → ∃ task, s.tasks f = some task

variable {s s' : Tasked V} {l : Move V}

/-- Without an overflow no task panics. -/
theorem Alive.step (h : s.Alive) (hs : Step s l s') (hno : ¬ Overflows ⟨s, l, s'⟩) : s'.Alive := by
  have hspawned : ∀ {c : Call V (Retry V)} {f : Flight} {task : RetryTask V} {p : RetryPanic},
      spawned c f = some task → task.state ≠ .panicked p := by
    intro c f task p hnew
    rw [spawned_state hnew]
    exact nofun
  cases hs with
  | call hs hc =>
      intro g task hg p
      rcases Option.or_eq_some_iff.mp hg with hnew | ⟨-, hold⟩
      · exact hspawned hnew
      · exact h g task hold p
  | @resume f task input state ht hr =>
      intro g task' hg p
      by_cases hgf : g = f
      · rw [hgf, put_self] at hg
        obtain rfl := Option.some.inj hg
        intro hp
        have hpanic := (task.retry.panics_iff hr.accepts).mp ⟨p, hr.next.symm.trans hp⟩
        exact hno ⟨f, input, task, rfl, ht, hpanic⟩
      · rw [put_of_ne hgf] at hg
        exact h g task' hg p
  | @deliver f task result c shell ht hr hev hs =>
      intro g task' hg p
      rcases Option.or_eq_some_iff.mp hg with hnew | ⟨-, hold⟩
      · exact hspawned hnew
      · exact h g task' (Option.ite_none_left_eq_some.mp hold).2 p

/-- An overflow leaves a task that has panicked. -/
theorem Overflows.panics (h : Overflows ⟨s, l, s'⟩) (hs : Step s l s') :
    ∃ f task p, s'.tasks f = some task ∧ task.state = .panicked p ∧ Nonempty V := by
  obtain ⟨f, input, task, hl, ht, hover⟩ := h
  obtain rfl : l = .resume f input := hl
  cases hs with
  | resume ht' hr =>
      obtain rfl := Option.some.inj (ht.symm.trans ht')
      obtain ⟨p, hp⟩ := (task.retry.panics_iff hr.accepts).mpr hover
      obtain ⟨error, -, -⟩ := task.retry.overflow_fails hover
      exact ⟨f, _, p, s.put_self f _, hr.next.trans hp, ⟨error⟩⟩

/-- A task that has not panicked proceeds. -/
theorem Backed.proceeds (h : s.Backed) {f : Flight} {task : RetryTask V}
    (ht : s.tasks f = some task) (hp : ∀ p, task.state ≠ .panicked p) : s.Proceeds f task := by
  rcases task.retry.goes_on task.state with hon | ⟨result, hr⟩ | ⟨p, hpanic⟩
  · exact .inl hon
  · refine .inr fun now => ?_
    have hen : s.shell.Enabled (f.commit result) := by
      have hf := h.known f task ht
      cases result <;> exact hf
    have hscan : (f.commit result : Event V (Retry V)).scans = true →
        s.shell.inner.IsScan [] := by
      cases result <;> exact nofun
    obtain ⟨inner, out, -, hs⟩ := h.inv.step_exists hen now hscan
    exact ⟨_, _, rfl, .deliver ht hr rfl hs⟩
  · exact absurd hpanic (hp p)

/-- A task that has panicked does not proceed. -/
theorem not_proceeds {f : Flight} {task : RetryTask V} (ht : s.tasks f = some task)
    {p : RetryPanic} (hp : task.state = .panicked p) (error : V) : ¬ s.Proceeds f task := by
  rintro (hon | hdeliver)
  · rw [hp] at hon
    exact task.retry.panicked_stuck p error hon
  · obtain ⟨c, s', -, hs⟩ := hdeliver 0
    cases hs with
    | deliver ht' hr _ _ =>
        obtain rfl := Option.some.inj (ht.symm.trans ht')
        cases hp.symm.trans hr

variable {defaults : QueryOptions} {log : List (Trace.Record (Tasked V) (Move V))}

theorem alive_of_run (h : Run defaults log s) (hno : ∀ x ∈ log, ¬ Overflows x) : s.Alive :=
  h.carry (J := Alive) (fun _ _ ht => nomatch ht) hno fun _ hs hno hJ => hJ.step hs hno

/-- **When no flight is left without its task.** In every run, every flight that was started has its task
or its result was dispatched. In all states of the run every task still retries or can dispatch its
result, and every awaited flight has one, if and only if no step resumes a task where the counter or the
deadline of its loop overflows. -/
theorem manned_iff (h : Run defaults log s) :
    (∀ f ∈ s.shell.flights, (∃ task, s.tasks f = some task) ∨
      ∃ x ∈ log, ∃ c, x.label = .deliver f c) ∧
        ((∀ x ∈ log, x.post.Manned) ↔ ∀ x ∈ log, ¬ Overflows x) := by
  refine ⟨accounted_of_run h, fun hmanned x hx hover => ?_, fun hno x hx => ?_⟩
  · obtain ⟨-, -, -, -, hs, -⟩ := h.of_mem hx
    obtain ⟨f, task, p, ht, hp, ⟨error⟩⟩ := Overflows.panics hover hs
    exact not_proceeds ht hp error ((hmanned x hx).proceeds f task ht)
  · obtain ⟨xs, ys, rfl, hxs, hs, -⟩ := h.of_mem hx
    have hrun : Run defaults (xs ++ [x]) x.post := hxs.snoc hs
    have hback := backed_of_run hrun
    have halive := alive_of_run hrun fun y hy => hno y (by
      rcases List.mem_append.mp hy with hy | hy
      · exact List.mem_append_left _ hy
      · rw [List.mem_singleton.mp hy]
        exact hx)
    exact ⟨fun f task ht => hback.proceeds ht (halive f task ht), hback.awaited⟩

/-! ## A flight whose task has panicked -/

/-- The flight is awaited, and its task has panicked. -/
structure Stranded (f : Flight) (s : Tasked V) : Prop where
  awaits : Shell.Awaits f s.shell
  panicked : ∃ task p, s.tasks f = some task ∧ task.state = .panicked p

theorem Stranded.step {f : Flight} (h : Stranded f s) (hb : s.Backed) (hs : Step s l s')
    (hno : ∀ ev ∈ l.event?, ¬ ev.interrupts f.key) : Stranded f s' := by
  obtain ⟨ha, task, p, ht, hp⟩ := h
  have hcall : ∀ {c : Call V (Retry V)} {shell : Shell V (Retry V)}
      {tasks : Flight → Option (RetryTask V)}, Shell.Step s.shell c shell →
        ¬ c.event.delivers f → ¬ c.event.interrupts f.key → tasks f = s.tasks f →
          Stranded f ⟨shell, fun g => (spawned c g).or (tasks g)⟩ := by
    intro c shell tasks hs hd hi hkeep
    refine ⟨(hb.inv.awaits_step hs f).mpr (.inr ⟨ha, not_or.mpr ⟨hd, hi⟩⟩), task, p, ?_, hp⟩
    -- A flight is started once.
    have hold : spawned c f = none :=
      spawned_none fun hnew => hb.inv.flight_fresh hs hnew (hb.known f task ht)
    show (spawned c f).or (tasks f) = some task
    rw [hold, Option.none_or, hkeep, ht]
  cases hs with
  | @call c shell hs hc => exact hcall hs (hc f) (hno c.event rfl) rfl
  | @resume g task' input state ht' hr =>
      have hne : f ≠ g := by
        rintro rfl
        obtain rfl := Option.some.inj (ht.symm.trans ht')
        have hacc := hr.accepts
        rw [hp] at hacc
        exact hacc
      exact ⟨ha, task, p, (put_of_ne hne s _).trans ht, hp⟩
  | @deliver g task' result c shell ht' hr hev hs =>
      have hne : f ≠ g := by
        rintro rfl
        obtain rfl := Option.some.inj (ht.symm.trans ht')
        cases hp.symm.trans hr
      refine hcall hs (fun hd => ?_) (hno c.event rfl) (if_neg hne)
      rw [hev, Flight.commit_delivers] at hd
      exact hne hd.symm

/-- **A stranded flight is awaited for ever**, as long as nothing is written to its key and nothing
invalidates it. -/
theorem Stranded.stays {f : Flight} (h : Stranded f s) (hb : s.Backed)
    {later : List (Trace.Record (Tasked V) (Move V))} (hlater : Trace.Run Step s later s')
    (hno : ∀ x ∈ later, ∀ ev ∈ x.label.event?, ¬ ev.interrupts f.key) : Stranded f s' := by
  have hboth : s'.Backed ∧ Stranded f s' :=
    hlater.carry (J := fun s => s.Backed ∧ Stranded f s) ⟨hb, h⟩ hno fun _ hs hno hJ =>
      ⟨hJ.1.step hs, hJ.2.step hJ.1 hs hno⟩
  exact hboth.2

end overflows

section witness

attribute [local instance] Platform.timespec

/-- Three retries, after the longest interval or after one nanosecond. -/
def thrice (longest : Bool) : Retry Nat := .new ⟨if longest then Duration.max else 1, some 3⟩

/-- A read of an empty key starts a flight, and its task. -/
theorem launch (longest : Bool) :
    ∃ (c : Call Nat (Retry Nat)) (s : Tasked Nat) (task : RetryTask Nat),
      Step (init .default) (.call c) s ∧ Shell.Awaits ⟨⟨0, []⟩, 0, 1⟩ s.shell ∧
        s.tasks ⟨⟨0, []⟩, 0, 1⟩ = some task ∧ task.state = .fetching 0 ∧
          task.retry.policy = (thrice longest).policy ∧ task.retry.shouldRetry 9 = true := by
  let key : QueryKey := ⟨0, []⟩
  have hobs : ((Shell.init .default : Shell Nat (Retry Nat)).exec1
      (.read key .ensureFresh (some (thrice longest)) none .default) 0 []).map (fun r =>
        ((spawned r.1 ⟨key, 0, 1⟩).map fun task =>
            (task.state, task.retry.policy, task.retry.shouldRetry 9),
          (r.2.inner.entry key).map fun e => (e.incarnation, e.inflight))) =
      some (some (.fetching 0, (thrice longest).policy, true), some (0, some 1)) := by
    cases longest <;> decide +kernel
  obtain ⟨⟨c, shell⟩, hex, hobs⟩ := Option.map_eq_some_iff.mp hobs
  obtain ⟨htask, hentry⟩ := Prod.mk.inj hobs
  obtain ⟨task, ht, htask⟩ := Option.map_eq_some_iff.mp htask
  obtain ⟨e, he, hentry⟩ := Option.map_eq_some_iff.mp hentry
  simp only [Prod.mk.injEq] at htask hentry
  have hno : ∀ f, ¬ c.event.delivers f := by
    rw [(Shell.call_of_exec1 hex).1]
    exact fun _ => id
  refine ⟨c, _, task, .call (Shell.step_of_exec1 hex) hno, ⟨e, he, hentry⟩, ?_, htask⟩
  exact Option.or_eq_some_iff.mpr (.inl ht)

/-- The task of a flight whose fetcher answers at once. -/
theorem manned_iff_example : ∃ (log : List (Trace.Record (Tasked Nat) (Move Nat))) (s : Tasked Nat),
    Run .default log s ∧ (∃ task, s.tasks ⟨⟨0, []⟩, 0, 1⟩ = some task ∧
      task.state = .returned (.ok 7)) ∧ s.Manned := by
  obtain ⟨c, s, task, hcall, -, ht, hstate, -, -⟩ := launch false
  have hvalue : task.retry.Step task.state (.resolved (.ok 7) 1) (.returned (.ok 7)) := by
    rw [hstate]
    exact ⟨trivial, rfl⟩
  have hrun : Run .default _ _ := (Trace.Run.nil.snoc hcall).snoc (Step.resume ht hvalue)
  refine ⟨_, _, hrun, ⟨_, s.put_self _ _, rfl⟩,
    (manned_iff hrun).2.mpr ?_ _ (List.mem_append_right _ (List.mem_singleton.mpr rfl))⟩
  rintro x hx ⟨f, input, task', hl, ht', hover⟩
  obtain ⟨error, now, hfail⟩ := task'.retry.overflow_fails hover
  rw [hfail] at hl
  simp only [List.nil_append, List.cons_append, List.mem_cons, List.not_mem_nil, or_false] at hx
  rcases hx with rfl | rfl <;> cases hl

/-- **A backoff that kills its flight.** The first attempt of a fetcher that retries after the longest
interval fails. The deadline is not representable, the task panics, and the flight is awaited for
ever. -/
theorem flight_killed : ∃ (log : List (Trace.Record (Tasked Nat) (Move Nat))) (s : Tasked Nat),
    Run .default log s ∧ (∃ x ∈ log, Overflows x) ∧
      (∃ task, s.tasks ⟨⟨0, []⟩, 0, 1⟩ = some task ∧
        task.retry.policy = ⟨Duration.max, some 3⟩ ∧
          task.state = .panicked .deadlineRepresentable) ∧ ¬ s.Manned ∧
        ∀ later s', Trace.Run Step s later s' →
          (∀ x ∈ later, ∀ ev ∈ x.label.event?, ¬ ev.interrupts ⟨0, []⟩) →
            Shell.Awaits ⟨⟨0, []⟩, 0, 1⟩ s'.shell := by
  obtain ⟨c, s, task, hcall, hawaits, ht, hstate, hpolicy, hretry⟩ := launch true
  have hretries : task.retry.Retries (0 + 1) 9 := by
    refine ⟨hretry, fun m hm => ?_⟩
    rw [hpolicy] at hm
    obtain rfl := Option.some.inj (show some 3 = some m from hm)
    decide
  have hlate : Platform.instantMax < 1 + task.retry.policy.delay (0 + 1) := by
    rw [hpolicy]
    decide
  have hpanic : task.retry.Step task.state (.resolved (.error 9) 1)
      (.panicked .deadlineRepresentable) := by
    rw [hstate]
    refine ⟨trivial, ?_⟩
    rw [task.retry.resume_retried (by decide) hretries, Instant.checkedAdd,
      if_neg (Nat.not_le.mpr hlate)]
  have hrun : Run .default _ _ := (Trace.Run.nil.snoc hcall).snoc (Step.resume ht hpanic)
  have hstranded : Stranded ⟨⟨0, []⟩, 0, 1⟩ (s.put ⟨⟨0, []⟩, 0, 1⟩
      { task with state := .panicked .deadlineRepresentable }) :=
    ⟨hawaits, _, .deadlineRepresentable, s.put_self _ _, rfl⟩
  refine ⟨_, _, hrun, ⟨_, List.mem_append_right _ (List.mem_singleton.mpr rfl), _, _, task, rfl, ht,
    .inr ?_⟩, ⟨_, s.put_self _ _, hpolicy, rfl⟩, fun hmanned => ?_, fun later s' hlater hno => ?_⟩
  · rw [hstate]
    exact ⟨hretries, hlate⟩
  · exact not_proceeds (s.put_self _ _) rfl 9 (hmanned.proceeds _ _ (s.put_self _ _))
  · exact (hstranded.stays (backed_of_run hrun) hlater hno).awaits

end witness

end Tasked

end SwrCore
