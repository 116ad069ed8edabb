import SwrCore.Cell.Handled
import SwrCore.Library.Trace

/-!
# Shell-produced runs of the state machine

`handle` is fed by the async shell of `client.rs`, which never invents an event: a commit answers a
`StartFetch`, a timer event a `ScheduleTimer`, a settlement the token of a `MutateBegin`, and an
unsubscription the handle of a `Subscribe`.

* `Flight`, `Timer` — what identifies an emitted `StartFetch` and an emitted `ScheduleTimer`.
* `Shell` — the state machine with everything it handed out.
* `Shell.Enabled` — the events the shell may feed; `Shell.Step` — one call of `handle`.
* `Shell.Run` — the runs, with their logs; the induction rules are those of `Trace.Run`.
* `Shell.exec` — the same calls, executed.

A result may be delivered any number of times and at any later point, timers may fire late and in any
order: `Enabled` asks only that what is echoed was emitted.
-/

set_option linter.unusedSectionVars false

namespace SwrCore

variable {V F : Type}

/-! ## What the state machine hands out -/

/-- One in-flight fetch: the identity carried by `StartFetch`, `CommitOk` and `CommitErr`. -/
structure Flight where
  key : QueryKey
  incarnation : Nat
  seq : Nat
deriving DecidableEq

/-- One scheduled timer, and the incarnation of the entry that scheduled it. The incarnation is not
part of the effect: it is recorded here to tell leftover timers from current ones. -/
structure Timer where
  key : QueryKey
  kind : TimerKind
  deadline : Instant
  generation : Nat
  incarnation : Option Nat
deriving DecidableEq

/-- The flight a `StartFetch` begins. -/
def Effect.flight? : Effect V F → Option Flight
  | .startFetch key incarnation seq _ => some ⟨key, incarnation, seq⟩
  | _ => none

/-- The flights a batch begins. -/
def Effect.flights (effects : List (Effect V F)) : List Flight := effects.filterMap Effect.flight?

/-- The timer a `ScheduleTimer` of a call that left `inner` starts. -/
def Effect.timer? (inner : Inner V F) : Effect V F → Option Timer
  | .scheduleTimer key kind deadline generation =>
    some ⟨key, kind, deadline, generation, (inner.entry key).map EntryCore.incarnation⟩
  | _ => none

/-- The timers a batch starts. -/
def Effect.timers (inner : Inner V F) (effects : List (Effect V F)) : List Timer :=
  effects.filterMap (Effect.timer? inner)

theorem Effect.mem_flights {effects : List (Effect V F)} {f : Flight} :
    f ∈ Effect.flights effects ↔
      ∃ fetcher, .startFetch f.key f.incarnation f.seq fetcher ∈ effects := by
  rw [Effect.flights, List.mem_filterMap]
  constructor
  · rintro ⟨x, hx, hf⟩
    cases x <;> cases hf
    exact ⟨_, hx⟩
  · rintro ⟨fetcher, hx⟩
    exact ⟨_, hx, rfl⟩

/-! ## The shell -/

/-- The state machine with what it handed out: every flight and every timer ever emitted, the live
subscription handles, and the tokens of the mutations that have not settled. -/
structure Shell (V F : Type) where
  inner : Inner V F
  flights : List Flight
  timers : List Timer
  handles : List (QueryKey × Nat)
  tokens : List MutationToken

/-- One call of `handle`: its event, its time, the table scan it saw, and what it returned. -/
structure Call (V F : Type) where
  event : Event V F
  now : Instant
  scan : List QueryKey
  out : HandleOutput V F

/-- What a call is given: its event, its time, and the order of the table it iterates. -/
def Call.input (c : Call V F) : Event V F × Instant × List QueryKey := (c.event, c.now, c.scan)

/-- The live handles after a call. Source: `QueryHandle::new`, and its `Drop`. -/
def Call.handles (c : Call V F) (handles : List (QueryKey × Nat)) : List (QueryKey × Nat) :=
  match c.event, c.out.outcome with
  | .subscribe key _ _ _, .subscribed subId _ => handles ++ [(key, subId)]
  | .unsubscribe key subId, _ => handles.erase (key, subId)
  | _, _ => handles

/-- The outstanding tokens after a call. Source: `SwrClient::mutate`, and `MutationGuard`. -/
def Call.tokens (c : Call V F) (tokens : List MutationToken) : List MutationToken :=
  match c.event, c.out.outcome with
  | .mutateBegin _ _, .mutation token => tokens ++ [token]
  | .mutateCommit token _ _, _ => tokens.erase token
  | .mutateAbort token _, _ => tokens.erase token
  | _, _ => tokens

namespace Shell

/-- The shell of a fresh client. -/
def init (defaults : QueryOptions) : Shell V F := ⟨.new defaults, [], [], [], []⟩

/-- The events the shell may feed. -/
def Enabled (s : Shell V F) : Event V F → Prop
  | .unsubscribe key subId => (key, subId) ∈ s.handles
  | .commitOk key incarnation seq _ => ⟨key, incarnation, seq⟩ ∈ s.flights
  | .commitErr key incarnation seq _ => ⟨key, incarnation, seq⟩ ∈ s.flights
  | .mutateCommit token _ _ => token ∈ s.tokens
  | .mutateAbort token _ => token ∈ s.tokens
  | .timerFired key kind generation =>
    ∃ t ∈ s.timers, t.key = key ∧ t.kind = kind ∧ t.generation = generation
  | _ => True

instance (s : Shell V F) : (ev : Event V F) → Decidable (s.Enabled ev)
  | .unsubscribe key subId => inferInstanceAs (Decidable ((key, subId) ∈ s.handles))
  | .commitOk key incarnation seq _ =>
    inferInstanceAs (Decidable (⟨key, incarnation, seq⟩ ∈ s.flights))
  | .commitErr key incarnation seq _ =>
    inferInstanceAs (Decidable (⟨key, incarnation, seq⟩ ∈ s.flights))
  | .mutateCommit token _ _ => inferInstanceAs (Decidable (token ∈ s.tokens))
  | .mutateAbort token _ => inferInstanceAs (Decidable (token ∈ s.tokens))
  | .timerFired key kind generation =>
    inferInstanceAs
      (Decidable (∃ t ∈ s.timers, t.key = key ∧ t.kind = kind ∧ t.generation = generation))
  | .read _ _ _ _ _ => isTrue trivial
  | .subscribe _ _ _ _ => isTrue trivial
  | .revalidateRequested _ => isTrue trivial
  | .mutateSet _ _ => isTrue trivial
  | .mutateBegin _ _ => isTrue trivial
  | .invalidate _ => isTrue trivial
  | .broadcast _ => isTrue trivial

/-- The shell after a call that left `inner`. -/
def next (s : Shell V F) (inner : Inner V F) (c : Call V F) : Shell V F where
  inner := inner
  flights := s.flights ++ Effect.flights c.out.effects
  timers := s.timers ++ Effect.timers inner c.out.effects
  handles := c.handles s.handles
  tokens := c.tokens s.tokens

/-- One step of the shell: a call of `handle` with an enabled event. -/
structure Step [Platform] (s : Shell V F) (c : Call V F) (s' : Shell V F) : Prop where
  enabled : s.Enabled c.event
  scan : c.event.scans = true → s.inner.IsScan c.scan
  handle : s.inner.handle c.event c.now c.scan = .ok (s'.inner, c.out)
  next : s' = s.next s'.inner c

/-- Shell-produced runs from a fresh client, with their logs. -/
abbrev Run [Platform] (defaults : QueryOptions) :
    List (Trace.Record (Shell V F) (Call V F)) → Shell V F → Prop :=
  Trace.Run Step (init defaults)

/-- A call is determined by what it is given. -/
theorem Step.unique [Platform] {s s' s'' : Shell V F} {c c' : Call V F} (h : Step s c s')
    (h' : Step s c' s'') (hin : c.input = c'.input) : c = c' ∧ s' = s'' := by
  obtain ⟨ev, now, scan, out⟩ := c
  obtain ⟨ev', now', scan', out'⟩ := c'
  cases hin
  obtain ⟨hinner, rfl⟩ := Prod.mk.inj (Except.ok.inj (h.handle.symm.trans h'.handle))
  exact ⟨rfl, by rw [h.next, h'.next, hinner]⟩

end Shell

/-! ## Execution -/

instance (s : Inner V F) (scan : List QueryKey) : Decidable (s.IsScan scan) :=
  decidable_of_iff (scan.Nodup ∧ scan.toFinset = s.entries.keys) (by
    constructor
    · rintro ⟨hnd, hkeys⟩
      refine ⟨hnd, fun k => ?_⟩
      rw [← List.mem_toFinset, hkeys, Finmap.mem_keys]
    · rintro ⟨hnd, hmem⟩
      refine ⟨hnd, Finset.ext fun k => ?_⟩
      rw [List.mem_toFinset, Finmap.mem_keys, hmem])

namespace Shell

/-- Feed one event, if the shell may. -/
def exec1 [Platform] (s : Shell V F) (ev : Event V F) (now : Instant) (scan : List QueryKey) :
    Option (Call V F × Shell V F) :=
  if s.Enabled ev ∧ (ev.scans = true → s.inner.IsScan scan) then
    match s.inner.handle ev now scan with
    | .ok (inner, out) => some (⟨ev, now, scan, out⟩, s.next inner ⟨ev, now, scan, out⟩)
    | .error _ => none
  else none

/-- Feed a list of events; the log of the run and the last state. -/
def exec [Platform] (s : Shell V F) (evs : List (Event V F × Instant × List QueryKey)) :
    Option (List (Trace.Record (Shell V F) (Call V F)) × Shell V F) :=
  Trace.exec (fun s i => s.exec1 i.1 i.2.1 i.2.2) s evs

theorem step_of_exec1 [Platform] {s s' : Shell V F} {ev : Event V F} {now : Instant}
    {scan : List QueryKey} {c : Call V F} (h : s.exec1 ev now scan = some (c, s')) :
    Step s c s' := by
  unfold exec1 at h
  split_ifs at h with hen
  cases hh : s.inner.handle ev now scan with
  | error p =>
      rw [hh] at h
      cases h
  | ok r =>
      rw [hh] at h
      cases h
      exact ⟨hen.1, hen.2, hh, rfl⟩

theorem call_of_exec1 [Platform] {s s' : Shell V F} {ev : Event V F} {now : Instant}
    {scan : List QueryKey} {c : Call V F} (h : s.exec1 ev now scan = some (c, s')) :
    c.event = ev ∧ c.now = now ∧ c.scan = scan := by
  unfold exec1 at h
  split_ifs at h with hen
  cases hh : s.inner.handle ev now scan with
  | error p =>
      rw [hh] at h
      cases h
  | ok r =>
      rw [hh] at h
      cases h
      exact ⟨rfl, rfl, rfl⟩

/-- An execution is a run. -/
theorem run_of_exec [Platform] {evs : List (Event V F × Instant × List QueryKey)}
    {s s' : Shell V F} {log : List (Trace.Record (Shell V F) (Call V F))}
    (h : s.exec evs = some (log, s')) : Trace.Run Step s log s' := by
  have hstep : ∀ (s : Shell V F) (i : Event V F × Instant × List QueryKey) c s',
      s.exec1 i.1 i.2.1 i.2.2 = some (c, s') → Step s c s' := fun _ _ _ _ h => step_of_exec1 h
  exact Trace.run_of_exec hstep h

/-- The calls of an execution are those that were asked for. -/
theorem exec_calls [Platform] {evs : List (Event V F × Instant × List QueryKey)}
    {s s' : Shell V F} {log : List (Trace.Record (Shell V F) (Call V F))}
    (h : s.exec evs = some (log, s')) :
    log.map (fun r => (r.label.event, r.label.now, r.label.scan)) = evs := by
  have hcall : ∀ (s : Shell V F) (i : Event V F × Instant × List QueryKey) c s',
      s.exec1 i.1 i.2.1 i.2.2 = some (c, s') → (c.event, c.now, c.scan) = id i := by
    intro s i c s' h
    obtain ⟨h₁, h₂, h₃⟩ := call_of_exec1 h
    rw [h₁, h₂, h₃]
    rfl
  have hlabels := Trace.exec_labels hcall h
  rwa [List.map_id] at hlabels

/-- The times of the calls are those that were asked for. -/
theorem exec_times [Platform] {evs : List (Event V F × Instant × List QueryKey)}
    {s s' : Shell V F} {log : List (Trace.Record (Shell V F) (Call V F))}
    (h : s.exec evs = some (log, s')) :
    log.map (fun r => r.label.now) = evs.map fun i => i.2.1 := by
  have htimes := congrArg (List.map fun i => i.2.1) (exec_calls h)
  rwa [List.map_map] at htimes

end Shell

end SwrCore
