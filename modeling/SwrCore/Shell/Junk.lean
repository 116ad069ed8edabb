import SwrCore.Shell.Flight

/-!
# Events that the shell never sends

The random sequences of the property test go beyond the events of `Shell.Enabled`: results of flights that
do not exist, and timers that nobody armed. The guards make the state machine proof against them.

* `Shell.Loose`, `Shell.LooseRun` — a commit or a timer may carry anything; only handles and tokens are
  still owned.
* `Shell.junk` — a result that no entry waits for.
* `Shell.Inv.junk_inert` — such an event is as if it had not been sent.
* `Shell.junk_run` — the assertions of the property test hold after every event of every such run.
-/

set_option linter.unusedSectionVars false

namespace SwrCore

variable {V F : Type}

/-- The event is that of a timer. -/
def Event.fires : Event V F → Bool
  | .timerFired _ _ _ => true
  | _ => false

namespace Shell

/-- A result that no entry waits for. -/
def junk (s : Shell V F) : Event V F → Bool
  | .commitOk key incarnation seq _ => !(s.inner.entry key).any fun e =>
    decide (e.incarnation = incarnation) && decide (e.inflight = some seq)
  | .commitErr key incarnation seq _ => !(s.inner.entry key).any fun e =>
    decide (e.incarnation = incarnation) && decide (e.inflight = some seq)
  | _ => false

theorem junk_iff {s : Shell V F} {ev : Event V F} :
    s.junk ev = true ↔ ∃ f, ev.delivers f ∧ ¬ Awaits f s := by
  have hawaits : ∀ key incarnation seq, (!(s.inner.entry key).any fun e =>
      decide (e.incarnation = incarnation) && decide (e.inflight = some seq)) = true ↔
        ¬ Awaits ⟨key, incarnation, seq⟩ s := by
    intro key incarnation seq
    simp [Awaits, Option.any_eq_false]
  cases ev with
  | commitOk key incarnation seq value =>
      refine (hawaits key incarnation seq).trans ⟨fun hna => ⟨_, rfl, hna⟩, ?_⟩
      rintro ⟨f, rfl, hna⟩
      exact hna
  | commitErr key incarnation seq error =>
      refine (hawaits key incarnation seq).trans ⟨fun hna => ⟨_, rfl, hna⟩, ?_⟩
      rintro ⟨f, rfl, hna⟩
      exact hna
  | _ =>
      constructor
      · intro h
        cases h
      · rintro ⟨_, hd, -⟩
        exact hd.elim

/-- The events of the property test: commits and timers carry anything, a subscription is given up with its
handle, and a mutation is settled with its token. -/
def Loose (s : Shell V F) : Event V F → Prop
  | .unsubscribe key subId => (key, subId) ∈ s.handles
  | .mutateCommit token _ _ => token ∈ s.tokens
  | .mutateAbort token _ => token ∈ s.tokens
  | _ => True

/-- One call of `handle` with such an event. Source: `machine/proptests.rs`. -/
structure LooseStep [Platform] (s : Shell V F) (c : Call V F) (s' : Shell V F) : Prop where
  loose : s.Loose c.event
  scan : c.event.scans = true → s.inner.IsScan c.scan
  handle : s.inner.handle c.event c.now c.scan = .ok (s'.inner, c.out)
  next : s' = s.next s'.inner c

/-- The runs of the property test, over any number of keys. -/
abbrev LooseRun [Platform] (defaults : QueryOptions) :
    List (Trace.Record (Shell V F) (Call V F)) → Shell V F → Prop :=
  Trace.Run LooseStep (init defaults)

/-! ## The books, padded -/

section padded

variable {s : Shell V F} (h : s.Inv)
include h

/-- The books may hold more flights of entries that wait for them, and any timers. -/
theorem Inv.padded {flights : List Flight} (timers : List Timer)
    (hflights : ∀ f ∈ flights, Awaits f s) :
    Inv { s with flights := flights ++ s.flights, timers := timers } where
  tx := h.tx
  incarnation := h.incarnation
  flight_lt f hf := by
    rcases List.mem_append.mp hf with hf | hf
    · obtain ⟨e, he, hinc, -⟩ := hflights f hf
      exact hinc ▸ h.incarnation _ e he
    · exact h.flight_lt f hf
  flight_le f hf e he hinc := by
    rcases List.mem_append.mp hf with hf | hf
    · obtain ⟨e', he', -, hflies⟩ := hflights f hf
      cases he.symm.trans he'
      exact ((h.shape _ e he).flying _ hflies).seq.le
    · exact h.flight_le f hf e he hinc
  handles_nodup := h.handles_nodup
  handle_lt := h.handle_lt
  shape := h.shape
  owned := h.owned
  token_entry := h.token_entry
  handle_entry := h.handle_entry

/-- They may hold fewer as well. -/
theorem Inv.fewer {flights : List Flight} (timers : List Timer) (hsub : flights ⊆ s.flights) :
    Inv { s with flights := flights, timers := timers } :=
  { h with
    flight_lt := fun f hf => h.flight_lt f (hsub hf)
    flight_le := fun f hf => h.flight_le f (hsub hf) }

/-- An event of the property test that is no junk is one that the shell could send, had it another flight
or another timer in its books. -/
theorem Inv.enabled_padded {ev : Event V F} (hl : s.Loose ev) (hj : s.junk ev = false) :
    ∃ flights timers, (∀ f ∈ flights, Awaits f s) ∧
      Enabled { s with flights := flights ++ s.flights, timers := timers } ev := by
  have hawaits : ∀ {f : Flight}, ev.delivers f → ∀ g ∈ [f], Awaits g s := by
    intro f hd g hg
    rw [List.mem_singleton.mp hg]
    by_contra hna
    cases hj.symm.trans (junk_iff.mpr ⟨f, hd, hna⟩)
  cases ev with
  | commitOk key incarnation seq value =>
      exact ⟨[⟨key, incarnation, seq⟩], s.timers, hawaits rfl, List.mem_cons_self⟩
  | commitErr key incarnation seq error =>
      exact ⟨[⟨key, incarnation, seq⟩], s.timers, hawaits rfl, List.mem_cons_self⟩
  | timerFired key kind generation =>
      exact ⟨[], [⟨key, kind, 0, generation, none⟩], fun _ hf => absurd hf List.not_mem_nil,
        _, List.mem_singleton_self _, rfl, rfl, rfl⟩
  | _ => exact ⟨[], s.timers, fun _ hf => absurd hf List.not_mem_nil, hl⟩

end padded

/-! ## Junk -/

section junk

variable {s : Shell V F} {ev : Event V F} {f : Flight}

/-- The guards drop a result that no entry waits for. -/
theorem drops_of_not_awaits (hna : ¬ Awaits f s) {kev : KeyEvent V F}
    (hd : kev.delivers f.incarnation f.seq) {e : EntryCore V F}
    (he : s.inner.subject f.key kev = some e) : e.dropsCommit f.incarnation f.seq = true := by
  by_contra hdr
  obtain ⟨hinc, -, hflies⟩ := EntryCore.dropsCommit_eq_false.mp (Bool.eq_false_of_not_eq_true hdr)
  rw [Inner.subject, KeyEvent.creates_of_delivers hd] at he
  exact hna ⟨e, he, hinc, hflies⟩

/-- No assertion fails on such an event. -/
theorem Inv.loose_accepts (h : s.Inv) (hl : s.Loose ev) : s.inner.Accepts ev := by
  cases hj : s.junk ev with
  | true =>
      obtain ⟨f, hd, hna⟩ := junk_iff.mp hj
      intro k kev hon
      obtain rfl := Event.key_of_delivers hd hon
      have hkd := (Event.delivers_of_on hon).mp hd
      refine ⟨fun hsettles => ?_, fun e he => ?_⟩
      · cases kev <;> first | exact hkd.elim | cases hsettles
      · have hdrops := drops_of_not_awaits hna hkd he
        cases kev <;> try exact hkd.elim
        · obtain ⟨rfl, rfl⟩ := hkd
          intro hlands
          cases hlands.symm.trans hdrops
        · trivial
  | false =>
      obtain ⟨flights, timers, hflights, hen⟩ := h.enabled_padded hl hj
      exact (h.padded timers hflights).accepts hen

variable [Platform]

/-- **Junk is inert.** The event is handled as if it had not been sent. -/
theorem Inv.junk_inert (h : s.Inv) (hj : s.junk ev = true) (now : Instant) (scan : List QueryKey) :
    s.inner.handle ev now scan = .ok (s.inner, ⟨.none, []⟩) := by
  obtain ⟨f, hd, hna⟩ := junk_iff.mp hj
  have hl : s.Loose ev := by
    cases ev <;> first | exact hd.elim | trivial
  have hscan : ev.scans = true → s.inner.IsScan scan := by
    intro hscans
    cases ev <;> first | exact hd.elim | cases hscans
  obtain ⟨inner, out, hhandle, hh⟩ : ∃ inner out, s.inner.handle ev now scan = .ok (inner, out) ∧
      s.inner.Handled ev now inner out := Inner.handle_spec h.tx (h.loose_accepts hl) hscan
  obtain ⟨kev, hon⟩ : ∃ kev, ev.on f.key s.inner.nextSubId = some kev :=
    Option.ne_none_iff_exists'.mp (Event.on_of_delivers hd _)
  have hkd := (Event.delivers_of_on hon).mp hd
  have hquiet : ∀ k, inner.entry k = s.inner.entry k ∧ Effect.of k out.effects = [] := by
    intro k
    by_cases hk : k = f.key
    · subst hk
      cases hsub : s.inner.subject f.key kev with
      | none =>
          have hnone : s.inner.entry f.key = none := by
            rw [Inner.subject, KeyEvent.creates_of_delivers hkd] at hsub
            exact hsub
          rw [hnone]
          exact hh.gone hon fun e he => by cases hsub.symm.trans he
      | some e =>
          obtain ⟨hstays, hreact, hmarks⟩ := KeyEvent.dropped s.inner.defaults now f.key hkd
            (drops_of_not_awaits hna hkd hsub)
          have hat : s.inner.At ev f.key kev e := ⟨hon, hsub, hstays⟩
          rw [Inner.subject, KeyEvent.creates_of_delivers hkd] at hsub
          have hentry : s.inner.entry f.key = some e := hsub
          rw [hat.entry hh, hat.effects hh, Inner.after, hreact, hmarks, hentry]
          exact ⟨rfl, rfl⟩
    · refine hh.off (Option.eq_none_iff_forall_ne_some.mpr fun kev' hon' => hk ?_)
      exact Event.key_of_delivers hd hon'
  obtain ⟨rfl, heffects⟩ := hh.unchanged (by cases ev <;> first | exact hd.elim | exact ⟨rfl, rfl⟩) hquiet
  have houtcome : out.outcome = .none := by
    rw [hh.outcome f.key kev hon, Inner.answer]
    cases s.inner.subject f.key kev <;> cases kev <;> first | exact hkd.elim | rfl
  rw [hhandle]
  obtain ⟨outcome, effects⟩ := out
  cases heffects
  cases houtcome
  rfl

/-! ## Runs -/

variable {s' : Shell V F} {c : Call V F}

/-- Junk leaves the books alone too. -/
theorem LooseStep.junk (hs : LooseStep s c s') (h : s.Inv) (hj : s.junk c.event = true) : s' = s := by
  have hhandle := (h.junk_inert hj c.now c.scan).symm.trans hs.handle
  obtain ⟨hinner, hout⟩ := Prod.mk.inj (Except.ok.inj hhandle)
  obtain ⟨f, hd, -⟩ := junk_iff.mp hj
  rw [hs.next, ← hinner, Shell.next, Call.handles, Call.tokens, ← hout]
  cases hev : c.event <;> rw [hev] at hd <;> try exact hd.elim
  · simp [Effect.flights, Effect.timers]
  · simp [Effect.flights, Effect.timers]

/-- Any other step is one of the shell, with the books padded. -/
theorem LooseStep.padded (hs : LooseStep s c s') (h : s.Inv) (hj : s.junk c.event = false) :
    ∃ flights timers, (∀ f ∈ flights, Awaits f s) ∧
      Step { s with flights := flights ++ s.flights, timers := timers } c
        { s' with
          flights := flights ++ s.flights ++ Effect.flights c.out.effects
          timers := timers ++ Effect.timers s'.inner c.out.effects } := by
  obtain ⟨flights, timers, hflights, hen⟩ := h.enabled_padded hs.loose hj
  refine ⟨flights, timers, hflights, hen, hs.scan, hs.handle, ?_⟩
  have hnext := hs.next
  rw [hnext]
  rfl

/-- The invariant survives such an event. -/
theorem LooseStep.inv (hs : LooseStep s c s') (h : s.Inv) : s'.Inv := by
  cases hj : s.junk c.event with
  | true => exact hs.junk h hj ▸ h
  | false =>
      obtain ⟨flights, timers, hflights, hstep⟩ := hs.padded h hj
      have hflights' : s'.flights = s.flights ++ Effect.flights c.out.effects := by
        rw [hs.next]
        rfl
      refine ((h.padded timers hflights).step hstep).fewer s'.timers fun f hf => ?_
      rw [hflights'] at hf
      rw [List.append_assoc]
      exact List.mem_append_right _ hf

theorem LooseStep.awaited (hs : LooseStep s c s') (h : s.Inv)
    (hbooked : ∀ f, Awaits f s → f ∈ s.flights) : ∀ f, Awaits f s' → f ∈ s'.flights := by
  cases hj : s.junk c.event with
  | true => exact hs.junk h hj ▸ hbooked
  | false =>
      intro f ha
      obtain ⟨flights, timers, hflights, hstep⟩ := hs.padded h hj
      rw [hs.next]
      rcases ((h.padded timers hflights).awaits_step hstep f).mp ha with hnew | ⟨hold, -⟩
      · exact List.mem_append_right _ hnew
      · exact List.mem_append_left _ (hbooked f hold)

/-- A step that is no junk, and no timer that nobody armed, is one of the shell. -/
theorem LooseStep.step (hs : LooseStep s c s') (hbooked : ∀ f, Awaits f s → f ∈ s.flights)
    (hj : s.junk c.event = false) (htimer : c.event.fires = true → s.Enabled c.event) :
    Step s c s' := by
  refine ⟨?_, hs.scan, hs.handle, hs.next⟩
  have hdelivery : ∀ f, c.event.delivers f → f ∈ s.flights := by
    intro f hd
    refine hbooked f ?_
    by_contra hna
    cases hj.symm.trans (junk_iff.mpr ⟨f, hd, hna⟩)
  have hl := hs.loose
  cases hev : c.event <;> rw [hev] at hdelivery htimer hl
  case commitOk key incarnation seq value => exact hdelivery _ rfl
  case commitErr key incarnation seq error => exact hdelivery _ rfl
  case timerFired key kind generation => exact htimer rfl
  all_goals exact hl

variable {defaults : QueryOptions} {log : List (Trace.Record (Shell V F) (Call V F))}

/-- Along every such run. -/
theorem LooseRun.inv (h : LooseRun defaults log s) : s.Inv :=
  h.invariant (inv_init defaults) fun _ _ _ hi hs => hs.inv hi

/-- The log without its junk is a log of the shell. -/
theorem LooseRun.cleared (h : LooseRun defaults log s)
    (htimers : ∀ r ∈ log, r.label.event.fires = true → r.pre.Enabled r.label.event) :
    Run defaults (log.filter fun r => !r.pre.junk r.label.event) s ∧
      ∀ f, Awaits f s → f ∈ s.flights := by
  induction h with
  | nil =>
      refine ⟨.nil, fun f hf => ?_⟩
      obtain ⟨e, he, -⟩ := hf
      cases (init_entry defaults f.key).symm.trans he
  | @snoc log s s' c hr hs ih =>
      obtain ⟨hrun, hbooked⟩ := ih fun r hr => htimers r (List.mem_append_left _ hr)
      have hi := LooseRun.inv hr
      refine ⟨?_, hs.awaited hi hbooked⟩
      rw [List.filter_append]
      cases hj : s.junk c.event with
      | true =>
          rw [hs.junk hi hj]
          simpa [hj] using hrun
      | false =>
          have hstep := hs.step hbooked hj
            (htimers _ (List.mem_append_right _ (List.mem_singleton_self _)))
          simpa [hj] using hrun.snoc hstep

/-- **The property test, for every sequence.** In every run in which commits and timers carry anything, over
any number of keys: the assertions of the test hold of every entry; no event of the test panics; and a
result that no entry waits for changes nothing and emits nothing. If the timers are those that were armed,
the run without its junk is a run of the shell. -/
theorem junk_run (h : LooseRun defaults log s) :
    (∀ k e, s.inner.entry k = some e → e.dataSeq ≤ e.seq ∧ e.errorSeq ≤ e.seq ∧
      (∀ n, e.inflight = some n → n = e.seq ∧ e.mutationActive = 0) ∧
      ∀ o, e.optimistic = some o → o.writtenSeq ≤ e.seq) ∧
    (∀ (ev : Event V F) now scan, s.Loose ev → (ev.scans = true → s.inner.IsScan scan) →
      ∃ r, s.inner.handle ev now scan = .ok r) ∧
    (∀ (ev : Event V F) now scan, s.junk ev = true →
      s.inner.handle ev now scan = .ok (s.inner, ⟨.none, []⟩)) ∧
    ((∀ r ∈ log, r.label.event.fires = true → r.pre.Enabled r.label.event) →
      Run defaults (log.filter fun r => !r.pre.junk r.label.event) s) := by
  have hi := LooseRun.inv h
  refine ⟨fun k e he => ?_, fun ev now scan hl hscan => ?_, fun ev now scan hj => hi.junk_inert hj now scan,
    fun htimers => (LooseRun.cleared h htimers).1⟩
  · have hshape := hi.shape k e he
    refine ⟨hshape.dataSeq, hshape.errorSeq, fun n hn => ?_, fun o ho => (hshape.saved o ho).written⟩
    exact ⟨(hshape.flying n hn).seq, (hshape.flying n hn).mutationActive⟩
  · obtain ⟨inner, out, hhandle, -⟩ := Inner.handle_spec hi.tx (hi.loose_accepts hl) hscan
    exact ⟨_, hhandle⟩

/-- A step of the shell is one of these. -/
theorem Step.loose (hs : Step s c s') : LooseStep s c s' := by
  refine ⟨?_, hs.scan, hs.handle, hs.next⟩
  have hen := hs.enabled
  cases hev : c.event <;> rw [hev] at hen <;> first | exact hen | trivial

/-- Junk can come at any time. -/
theorem Inv.junk_step (h : s.Inv) (hj : s.junk ev = true) (now : Instant) :
    LooseStep s ⟨ev, now, [], ⟨.none, []⟩⟩ s := by
  obtain ⟨f, hd, -⟩ := junk_iff.mp hj
  refine ⟨?_, fun hscans => ?_, h.junk_inert hj now [], ?_⟩
  · cases ev <;> first | exact hd.elim | trivial
  · cases ev <;> first | exact hd.elim | cases hscans
  · cases ev <;> first
      | exact hd.elim
      | simp [Shell.next, Call.handles, Call.tokens, Effect.flights, Effect.timers]

end junk

section witness

attribute [local instance] exampleClock

/-- A result of a flight that was never begun comes in while a flight is awaited. -/
theorem junk_run_example : ∃ (log : List (Trace.Record (Shell Nat Unit) (Call Nat Unit)))
    (s : Shell Nat Unit) (r : Trace.Record (Shell Nat Unit) (Call Nat Unit)),
      LooseRun .default (log ++ [r]) s ∧ r.label.event = .commitOk ⟨0, []⟩ 0 5 9 ∧
        Awaits ⟨⟨0, []⟩, 0, 1⟩ s ∧
        s.inner.handle (.commitErr ⟨0, []⟩ 1 1 9) 3 [] = .ok (s.inner, ⟨.none, []⟩) := by
  have hfacts : ((init .default : Shell Nat Unit).exec
      [(.subscribe ⟨0, []⟩ (some ()) none .default, 0, [])]).map (fun r =>
        (r.2.junk (.commitOk ⟨0, []⟩ 0 5 9), r.2.junk (.commitErr ⟨0, []⟩ 1 1 9),
          (r.2.inner.entry ⟨0, []⟩).map fun e => decide (e.incarnation = 0 ∧ e.inflight = some 1))) =
      some (true, true, some true) := by decide +kernel
  obtain ⟨⟨log, s⟩, hex, hfacts⟩ := Option.map_eq_some_iff.mp hfacts
  simp only [Prod.mk.injEq, Option.map_eq_some_iff, decide_eq_true_eq] at hfacts
  obtain ⟨hj, hj', e, he, hinc, hflies⟩ := hfacts
  have hrun : LooseRun .default log s := (run_of_exec hex).mono fun _ _ _ hs => hs.loose
  have hmore := hrun.snoc ((LooseRun.inv hrun).junk_step hj 2)
  obtain ⟨-, -, hinert, -⟩ := junk_run hmore
  exact ⟨log, s, _, hmore, rfl, ⟨e, he, hinc, hflies⟩, hinert _ 3 [] hj'⟩

end witness

end Shell

end SwrCore
