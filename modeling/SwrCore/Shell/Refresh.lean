import SwrCore.Shell.Subscribers

/-!
# The refresh chain

A refresh timer re-arms itself: the tick that answers it schedules the next one. Old timers are
cancelled by counting the generation up, which the post-rule does unless there are subscribers and
nothing to schedule.

* `Shell.Rebases` — the steps that change the refresh basis of a key.
* `Timed.Lapses` — a step that leaves subscribers without an interval and the old timer valid.
* `Timed.current_timer` — without lapses, a timer of the entry's generation is due one interval after
  the last change of the basis: the invariant of `Timed.ticks_serve_subscribers`.
* `Timed.tick_after_leave` — after a lapse, a tick serves nobody.
* `Timed.Chained` — exactly one timer of the entry is outstanding; `Timed.Chained.off`,
  `Timed.Chained.passed` and `Timed.chained_rearmed` say what a step does to it.
* `Timed.refresh_chain` — an entry with an interval is chained.
-/

set_option linter.unusedSectionVars false

namespace SwrCore

variable {V F : Type}

/-! ## The refresh rule on one entry -/

section entry

variable [Platform]

/-- The deadline of the next tick after an event, if there is one to schedule. -/
def KeyEvent.nextTick (kev : KeyEvent V F) (o : EntryOptions) (now : Instant) : Option Instant :=
  (kev.options o).refreshInterval.bind fun interval => Instant.checkedAdd now interval

theorem KeyEvent.refreshAt_react (defaults : QueryOptions) (now : Instant) (e : EntryCore V F)
    (kev : KeyEvent V F) : (kev.react defaults now e).refreshAt now = kev.nextTick e.opts now := by
  rw [EntryCore.refreshAt, KeyEvent.opts_react]
  rfl

end entry

namespace Shell

/-- The step changes the refresh basis of the key: a subscription, an unsubscription, an applied commit
or a tick. -/
def Rebases [Platform] (k : QueryKey) (r : Trace.Record (Shell V F) (Call V F)) : Prop :=
  ∃ kev e, r.pre.inner.At r.label.event k kev e ∧ kev.rearms e = true

section step

variable [Platform] {s s' : Shell V F} {c : Call V F} {k : QueryKey} {kev : KeyEvent V F}
  {e : EntryCore V F} (h : s.Inv) (hs : Step s c s') (hat : s.inner.At c.event k kev e)

include h hs hat

/-- The subscribers after an event are those whose options are stored. -/
theorem Inv.subscribers_react :
    (kev.react s.inner.defaults c.now e).subscribers = (kev.options e.opts).values.length := by
  have hrec := (h.after hs hat).2.1.records
  rw [Inner.after_opts, Inner.after_of (f := EntryCore.subscribers) fun _ _ _ _ => rfl] at hrec
  rw [hrec, EntryOptions.values, List.length_map]

/-- A change of the basis counts the generation up, unless there are subscribers and no next tick. -/
theorem Inv.after_refreshGen : (s.inner.after c.now k kev e).refreshGen =
    if kev.rearms e = true ∧ ((kev.options e.opts).values = [] ∨
        kev.nextTick e.opts c.now ≠ none) then e.refreshGen + 1 else e.refreshGen := by
  have hgen := (kev.react s.inner.defaults c.now e).refreshGen_settled c.now
    (kev.marks s.inner.defaults c.now k e)
  have hreact : (kev.react s.inner.defaults c.now e).refreshGen = e.refreshGen :=
    (EntryCore.SameFrame.react s.inner.defaults c.now e kev).refreshGen
  rw [KeyEvent.refreshAt_react, h.subscribers_react hs hat, hreact] at hgen
  refine hgen.trans (if_congr ?_ rfl rfl)
  show (kev.rearms e && _) = true ↔ _
  simp only [Bool.and_eq_true, Bool.not_eq_true', Bool.and_eq_false_iff, decide_eq_false_iff_not,
    Option.isNone_eq_false_iff, Option.isSome_iff_ne_none, not_lt, Nat.le_zero,
    List.length_eq_zero_iff]

/-- The refresh timer that a step schedules for the entry. -/
theorem Inv.alarm_refresh : (kev.react s.inner.defaults c.now e).alarm s.inner.defaults c.now
    (kev.marks s.inner.defaults c.now k e) .refresh =
      if kev.rearms e = true then kev.nextTick e.opts c.now else none := by
  have hpos : kev.nextTick e.opts c.now ≠ none →
      0 < (kev.react s.inner.defaults c.now e).subscribers := by
    intro hnext
    rw [h.subscribers_react hs hat, List.length_pos_iff]
    intro hnil
    refine hnext ?_
    rw [KeyEvent.nextTick, EntryOptions.refreshInterval, hnil]
    rfl
  show (if (kev.rearms e && _) = true then _ else none) = _
  rw [KeyEvent.refreshAt_react]
  by_cases hr : kev.rearms e = true
  · by_cases hnext : kev.nextTick e.opts c.now = none
    · simp [hnext]
    · simp [hr, hpos hnext]
  · simp [hr]

end step

end Shell

namespace Timed

/-- The timer is the refresh timer of this entry that a tick would answer. -/
def Current (k : QueryKey) (e : EntryCore V F) (t : Timer) : Bool :=
  t.isOf k .refresh e.incarnation && decide (t.generation = e.refreshGen)

theorem current_iff {k : QueryKey} {e : EntryCore V F} {t : Timer} : Current k e t = true ↔
    t.key = k ∧ t.kind = .refresh ∧ t.incarnation = some e.incarnation ∧
      t.generation = e.refreshGen := by
  simp [Current, Timer.isOf, and_assoc]

theorem filter_current (k : QueryKey) (e : EntryCore V F) (ts : List Timer) :
    ts.filter (Current k e) = (ts.filter (Timer.isOf k .refresh e.incarnation)).filter
      fun t => decide (t.generation = e.refreshGen) := by
  rw [List.filter_filter]
  exact List.filter_congr fun t _ => Bool.and_comm _ _

section step

variable [Platform] {s s' : Timed V F} {l : Tick V F} {k : QueryKey} {kev : KeyEvent V F}
  {e : EntryCore V F} (h : s.shell.Inv) (hs : Move s l s')

include h hs

/-- The refresh timers that a step schedules for the entry it acts on: the next tick, if the step
changes the basis. -/
theorem refresh_timers (hat : s.shell.inner.At l.call.event k kev e) :
    (Effect.timers s'.shell.inner l.call.out.effects).filter (Timer.isOf k .refresh e.incarnation) =
      if kev.rearms e = true then
        (kev.nextTick e.opts l.call.now).toList.map fun deadline =>
          ⟨k, .refresh, deadline, e.refreshGen + 1, some e.incarnation⟩
      else [] := by
  have hgen : (kev.react s.shell.inner.defaults l.call.now e).refreshGen = e.refreshGen :=
    (EntryCore.SameFrame.react s.shell.inner.defaults l.call.now e kev).refreshGen
  have halarm := h.alarm_refresh hs.shell hat
  rcases h.new_timers hs.shell k .refresh e.incarnation with
    ⟨hnil, hno⟩ | ⟨kev', e', deadline, hat', -, hal, hnew⟩
  · rw [hno kev e hat rfl] at halarm
    rw [hnil]
    split_ifs at halarm ⊢
    · rw [← halarm]
      rfl
    · rfl
  · obtain ⟨rfl, rfl⟩ := hat.unique hat'
    rw [hal] at halarm
    rw [hnew]
    split_ifs at halarm ⊢
    rw [← halarm]
    simp [EntryCore.generation, hgen]

/-- A step that does not act on the key schedules no timer for it. -/
theorem no_timers (hoff : l.call.event.on k s.shell.inner.nextSubId = none) (kind : TimerKind)
    (incarnation : Nat) : (Effect.timers s'.shell.inner l.call.out.effects).filter
      (Timer.isOf k kind incarnation) = [] := by
  rcases h.new_timers hs.shell k kind incarnation with ⟨hnil, -⟩ | ⟨_, _, _, hat, -⟩
  · exact hnil
  · exact absurd hoff hat.not_off

end step

/-! ## Whom a tick serves -/

section serve

variable [Platform] {defaults : QueryOptions} {log : List (Trace.Record (Timed V F) (Tick V F))}
  {s : Timed V F}

/-- The step changes the refresh basis of a key, there is no next tick although subscribers are left
(none of them has an interval, or its deadline is not representable), and a timer that the entry would
still answer remains outstanding. -/
def Lapses (r : Trace.Record (Timed V F) (Tick V F)) : Prop :=
  ∃ k kev e t, r.pre.shell.inner.At r.label.call.event k kev e ∧ kev.rearms e = true ∧
    (kev.options e.opts).values ≠ [] ∧ kev.nextTick e.opts r.label.call.now = none ∧
      t ∈ r.pre.pending.diff r.label.fired.toList ∧ Current k e t = true

/-- The timer that fires is left over from another incarnation of its key, and starts a fetch of the
entry now stored there. -/
def Strays (r : Trace.Record (Timed V F) (Tick V F)) : Prop :=
  ∃ t e, r.label.fired = some t ∧ t.kind = .refresh ∧ r.pre.shell.inner.entry t.key = some e ∧
    t.incarnation ≠ some e.incarnation ∧ t.generation = e.refreshGen ∧ 0 < e.subscribers ∧
      e.canStartFetch = true

/-- The timer is due one interval after the last change of the refresh basis of its key. -/
def DueAfter (t : Timer) (d : Duration)
    (log : List (Trace.Record (Shell V F) (Call V F))) : Prop :=
  ∃ q, Trace.Last (Shell.Rebases t.key) q log ∧ t.deadline = q.label.now + d

/-- **The invariant.** Without lapses, every outstanding timer that an entry would answer is due the
entry's interval after the last change of the basis. -/
theorem current_timer (h : Trace.Run Move (init defaults) log s) (hl : ∀ r ∈ log, ¬ Lapses r) :
    ∀ t ∈ s.pending, ∀ e, s.shell.inner.entry t.key = some e → Current t.key e t = true →
      ∃ d, e.opts.refreshInterval = some d ∧ DueAfter t d (log.map untimed) := by
  refine h.history (P := fun log s => (∀ r ∈ log, ¬ Lapses r) → ∀ t ∈ s.pending, ∀ e,
    s.shell.inner.entry t.key = some e → Current t.key e t = true →
      ∃ d, e.opts.refreshInterval = some d ∧ DueAfter t d (log.map untimed)) ?_ ?_ hl
  · intro _ t ht
    exact absurd ht List.not_mem_nil
  rintro log s l s' hrun ih hs hl t ht e' he' hcur
  have hlog : ∀ r ∈ log, ¬ Lapses r := fun r hr => hl r (List.mem_append_left _ hr)
  have hI := Shell.inv_of_run (untimed_moves hrun)
  have hR := Shell.rings_of_run (untimed_moves hrun)
  have hh := hI.handled hs.shell
  have hof : t.isOf t.key .refresh e'.incarnation = true := (Bool.and_eq_true _ _).mp hcur |>.1
  rw [List.map_append, List.map_cons, List.map_nil]
  rw [hs.next] at ht
  rcases hh.inversion he' with ⟨hoff, he⟩ | ⟨kev, e, hat, rfl⟩
  · rcases List.mem_append.mp ht with hold | hnew
    · obtain ⟨d, hd, q, hq, hdue⟩ := ih hlog t (List.diff_subset _ _ hold) e' he hcur
      refine ⟨d, hd, q, hq.extend ?_, hdue⟩
      rintro ⟨kev, e, hat, -⟩
      exact hat.not_off hoff
    · have hmem := List.mem_filter.mpr ⟨hnew, hof⟩
      rw [no_timers hI hs hoff] at hmem
      exact absurd hmem List.not_mem_nil
  rw [Current, (Inner.after_frame t.key kev e).2, hI.after_refreshGen hs.shell hat,
    Bool.and_eq_true, decide_eq_true_eq] at hcur
  obtain ⟨hof, hgen⟩ := hcur
  rw [Inner.after_opts]
  rcases List.mem_append.mp ht with hold | hnew
  · have hsched : t ∈ s.shell.scheduled t.key .refresh e.incarnation :=
      List.mem_filter.mpr ⟨pending_moves hrun t (List.diff_subset _ _ hold), hof⟩
    have hle : t.generation ≤ e.refreshGen := hR.past hI hat.subject hsched
    cases hr : kev.rearms e with
    | true =>
        -- The timer of the generation before is still valid: the step lapses.
        rw [hr] at hgen
        split_ifs at hgen with hcond
        · omega
        · simp only [true_and, not_or, not_not] at hcond
          have hcur : Current t.key e t = true := by
            rw [Current, hof, hgen, Bool.true_and, decide_eq_true_eq]
          exact absurd ⟨t.key, kev, e, t, hat, hr, hcond.1, hcond.2, hold, hcur⟩
            (hl ⟨s, l, s'⟩ (by simp))
    | false =>
        rw [hr, if_neg (by simp)] at hgen
        have he : s.shell.inner.entry t.key = some e := hR.stored hI hat.subject hsched
        have hcur : Current t.key e t = true := by
          rw [Current, hof, hgen, Bool.true_and, decide_eq_true_eq]
        obtain ⟨d, hd, q, hq, hdue⟩ := ih hlog t (List.diff_subset _ _ hold) e he hcur
        refine ⟨d, (KeyEvent.interval_options hr _).trans hd, q, hq.extend ?_, hdue⟩
        rintro ⟨kev', e₁, hat', hr'⟩
        obtain ⟨rfl, rfl⟩ := hat.unique hat'
        rw [hr] at hr'
        cases hr'
  · have hmem := List.mem_filter.mpr ⟨hnew, hof⟩
    rw [refresh_timers hI hs hat] at hmem
    split_ifs at hmem with hr
    · obtain ⟨deadline, hnext, heq⟩ := List.mem_map.mp hmem
      obtain ⟨d, hd, hrep⟩ := Option.bind_eq_some_iff.mp (Option.mem_toList.mp hnext)
      have hdue : t.deadline = l.call.now + d := by
        rw [← heq]
        exact (Option.some.inj (Option.ite_none_right_eq_some.mp hrep).2).symm
      exact ⟨d, hd, untimed ⟨s, l, s'⟩, Trace.Last.snoc _ ⟨kev, e, hat, hr⟩, hdue⟩
    · exact absurd hmem List.not_mem_nil

/-- A tick that starts a fetch comes one interval after the last change of the basis: the least interval
that the current subscribers ask for. -/
def Serves (before : List (Trace.Record (Timed V F) (Tick V F)))
    (r : Trace.Record (Timed V F) (Tick V F)) : Prop :=
  ∀ t, r.label.fired = some t → t.kind = .refresh →
    Effect.flights r.label.call.out.effects ≠ [] →
      ∃ d, Shell.Interval t.key d (before.map untimed) ∧ DueAfter t d (before.map untimed)

/-- A refresh timer that starts a fetch is answered by the entry under its key. -/
theorem tick_answered {s' : Timed V F} {l : Tick V F} (hI : s.shell.Inv) (hs : Move s l s')
    {t : Timer} (hf : l.fired = some t) (hkind : t.kind = .refresh)
    (hfl : Effect.flights l.call.out.effects ≠ []) :
    ∃ e, s.shell.inner.entry t.key = some e ∧ t.generation = e.refreshGen ∧ 0 < e.subscribers ∧
      e.canStartFetch = true := by
  obtain ⟨hev, -, -⟩ := hs.fired_key hf
  obtain ⟨f, hmem⟩ := List.exists_mem_of_ne_nil _ hfl
  obtain ⟨fetcher, hx⟩ := Effect.mem_flights.mp hmem
  obtain ⟨kev, e, hat, hst, -⟩ := (hI.handled hs.shell).startFetch hx
  have hon := hat.on
  rw [hev, hkind] at hon
  obtain ⟨hkey, hkev⟩ := Option.ite_none_right_eq_some.mp hon
  cases hkev
  have hsub : s.shell.inner.entry f.key = some e := hat.subject
  rw [← hkey] at hsub
  simp only [KeyEvent.starts, KeyEvent.wants, KeyEvent.apply, Bool.and_eq_true, decide_eq_true_eq,
    decide_true, true_and, EntryCore.isActive] at hst
  exact ⟨e, hsub, hst.1.1, hst.1.2, hst.2⟩

/-- **Ticks serve current subscribers.** In every run, whatever the clock does, in which no step lapses
and no tick strays, every tick that starts a fetch serves the current subscribers of its key. -/
theorem ticks_serve_subscribers (h : Trace.Run Move (init defaults) log s)
    (hl : ∀ r ∈ log, ¬ Lapses r ∧ ¬ Strays r) :
    ∀ xs r ys, log = xs ++ r :: ys → Serves xs r := by
  rintro xs r ys rfl t hf hkind hfl
  obtain ⟨hpre, hs, -⟩ := h.middle
  have hrun := untimed_moves hpre
  obtain ⟨e, he, hgen, hsubs, hcan⟩ := tick_answered (Shell.inv_of_run hrun) hs hf hkind hfl
  have hinc : t.incarnation = some e.incarnation := by
    by_contra hne
    exact (hl r (by simp)).2 ⟨t, e, hf, hkind, he, hne, hgen, hsubs, hcan⟩
  have hcur : Current t.key e t = true := by
    simp [Current, Timer.isOf, hkind, hinc, hgen]
  obtain ⟨d, hd, hdue⟩ := current_timer hpre (fun x hx => (hl x (by simp [hx])).1) t
    (hs.fired_key hf).2.1 e he hcur
  exact ⟨d, (Shell.interval_iff hrun he d).mp hd, hdue⟩

end serve

/-! ## The chain -/

section chain

variable [Platform] {defaults : QueryOptions} {log : List (Trace.Record (Timed V F) (Tick V F))}
  {s : Timed V F}

/-- Every refresh deadline that the step computes is representable. -/
def RefreshRepresentable (r : Trace.Record (Timed V F) (Tick V F)) : Prop :=
  ∀ k e' d, r.post.shell.inner.entry k = some e' → e'.opts.refreshInterval = some d →
    Shell.Rebases k (untimed r) → r.label.call.now + d ≤ Platform.instantMax

/-- Exactly one outstanding timer is one that the entry would answer, and it is due within `d`. -/
def Chained (s : Timed V F) (k : QueryKey) (e : EntryCore V F) (d : Duration) : Prop :=
  ∃ t, s.pending.filter (Current k e) = [t] ∧ t.deadline ≤ s.clock + d

/-- The clock shows when the last event came. -/
theorem Step.clock_eq {s' : Timed V F} {l : Tick V F} (hs : Step s l s') :
    s'.clock = l.call.now := by
  rw [hs.next]
  rfl

section link

variable {s' : Timed V F} {l : Tick V F} {k : QueryKey} {kev : KeyEvent V F} {e : EntryCore V F}
  {d : Duration}

/-- An event of other keys leaves the timer alone: its tick would be an event of the key. -/
theorem Chained.off (h : Chained s k e d) (hI : s.shell.Inv) (hs : Step s l s')
    (hoff : l.call.event.on k s.shell.inner.nextSubId = none) : Chained s' k e d := by
  obtain ⟨t, ht, hdue⟩ := h
  have hfired : ∀ t, l.fired = some t → Current k e t = false := by
    intro t' hf
    by_contra hcur
    obtain ⟨hk, -⟩ := current_iff.mp (Bool.eq_true_of_not_eq_false hcur)
    rw [(hs.move.fired_key hf).1, hk] at hoff
    simp [Event.on] at hoff
  refine ⟨t, ?_, ?_⟩
  · rw [hs.move.pending_filter hfired, ht, filter_current, no_timers hI hs.move hoff]
    rfl
  · rw [hs.clock_eq]
    exact hdue.trans (Nat.add_le_add_right hs.clock d)

/-- An event that arms the next tick makes it the only one: every earlier timer is of an earlier
generation. -/
theorem chained_rearmed (hrun : Run defaults log s) (hs : Step s l s')
    (hat : s.shell.inner.At l.call.event k kev e) (hr : kev.rearms e = true)
    (hnext : kev.nextTick e.opts l.call.now = some (l.call.now + d)) :
    Chained s' k (s.shell.inner.after l.call.now k kev e) d := by
  have hI := Shell.inv_of_run (untimed_run hrun)
  have hR := Shell.rings_of_run (untimed_run hrun)
  have hgen := hI.after_refreshGen hs.shell hat
  rw [if_pos ⟨hr, .inr (by rw [hnext]; exact Option.some_ne_none _)⟩] at hgen
  have hold : ∀ t ∈ s.pending, Current k (s.shell.inner.after l.call.now k kev e) t = false := by
    intro t ht
    by_contra hcur
    obtain ⟨hk, hkind, hinc, hg⟩ := current_iff.mp (Bool.eq_true_of_not_eq_false hcur)
    rw [(Inner.after_frame k kev e).2] at hinc
    have hle : t.generation ≤ e.refreshGen := hR.past hI hat.subject
      (Shell.mem_scheduled.mpr ⟨pending_subset hrun t ht, hk, hkind, hinc⟩)
    rw [hg, hgen] at hle
    exact absurd hle (by omega)
  have hnew : (Effect.timers s'.shell.inner l.call.out.effects).filter
      (Current k (s.shell.inner.after l.call.now k kev e)) =
        [⟨k, .refresh, l.call.now + d, e.refreshGen + 1, some e.incarnation⟩] := by
    rw [filter_current, (Inner.after_frame k kev e).2, refresh_timers hI hs.move hat, if_pos hr,
      hnext, hgen]
    simp
  refine ⟨⟨k, .refresh, l.call.now + d, e.refreshGen + 1, some e.incarnation⟩, ?_, ?_⟩
  · rw [hs.move.pending_filter fun t hf => hold t (hs.move.fired_key hf).2.1, hnew,
      List.filter_eq_nil_iff.mpr fun t ht => by simp [hold t ht]]
    rfl
  · rw [hs.clock_eq]

/-- Any other event of the key leaves the timer alone: its tick would arm the next one. -/
theorem Chained.passed (h : Chained s k e d) (hI : s.shell.Inv) (hs : Step s l s')
    (hat : s.shell.inner.At l.call.event k kev e) (hr : kev.rearms e = false)
    (hsubs : 0 < e.subscribers) : Chained s' k (s.shell.inner.after l.call.now k kev e) d := by
  obtain ⟨t, ht, hdue⟩ := h
  have hgen := hI.after_refreshGen hs.shell hat
  rw [if_neg (by simp [hr])] at hgen
  have hsame : ∀ t, Current k (s.shell.inner.after l.call.now k kev e) t = Current k e t := by
    intro t
    rw [Current, Current, (Inner.after_frame k kev e).2, hgen]
  have hnew : (Effect.timers s'.shell.inner l.call.out.effects).filter
      (Current k (s.shell.inner.after l.call.now k kev e)) = [] := by
    rw [filter_current, (Inner.after_frame k kev e).2, refresh_timers hI hs.move hat, hr,
      if_neg Bool.false_ne_true, List.filter_nil]
  have hfired : ∀ t, l.fired = some t →
      Current k (s.shell.inner.after l.call.now k kev e) t = false := by
    intro t' hf
    rw [hsame]
    by_contra hcur
    obtain ⟨hk, hkind, -, hg⟩ := current_iff.mp (Bool.eq_true_of_not_eq_false hcur)
    have hon := hat.on
    rw [(hs.move.fired_key hf).1, hk, hkind, hg] at hon
    obtain rfl := Option.some.inj ((if_pos rfl).symm.trans hon)
    simp [KeyEvent.rearms, EntryCore.isActive, hsubs] at hr
  refine ⟨t, ?_, ?_⟩
  · rw [hs.move.pending_filter hfired, hnew, List.append_nil, ← ht]
    exact List.filter_congr fun t _ => hsame t
  · rw [hs.clock_eq]
    exact hdue.trans (Nat.add_le_add_right hs.clock d)

end link

/-- An entry with an interval has a subscriber. -/
theorem subscribed_of_interval (hI : s.shell.Inv) {k : QueryKey} {e : EntryCore V F} {d : Duration}
    (he : s.shell.inner.entry k = some e) (hd : e.opts.refreshInterval = some d) :
    0 < e.subscribers := by
  rw [(hI.owned k e he).records, ← List.length_map (f := Sigma.snd)]
  refine List.length_pos_iff.mpr fun hnil => ?_
  rw [EntryOptions.refreshInterval, EntryOptions.values, hnil] at hd
  cases hd

/-- **The invariant.** An entry with an interval has exactly one outstanding timer that it would answer,
and this timer is due within the interval. -/
theorem chain_of_run (h : Run defaults log s) (hrep : ∀ r ∈ log, RefreshRepresentable r) :
    ∀ k e d, s.shell.inner.entry k = some e → e.opts.refreshInterval = some d →
      Chained s k e d := by
  refine h.history (P := fun log s => (∀ r ∈ log, RefreshRepresentable r) → ∀ k e d,
    s.shell.inner.entry k = some e → e.opts.refreshInterval = some d → Chained s k e d) ?_ ?_ hrep
  · intro _ k e d he
    rw [show (init defaults : Timed V F).shell = Shell.init defaults from rfl,
      Shell.init_entry] at he
    cases he
  rintro log s l s' hrun ih hs hrep k e' d he' hd
  have hI := Shell.inv_of_run (untimed_run hrun)
  have ih := ih fun r hr => hrep r (List.mem_append_left _ hr)
  rcases (hI.handled hs.shell).inversion he' with ⟨hoff, he⟩ | ⟨kev, e, hat, rfl⟩
  · exact (ih k e' d he hd).off hI hs hoff
  cases hr : kev.rearms e with
  | true =>
      refine chained_rearmed hrun hs hat hr ?_
      have hrep' := hrep ⟨s, l, s'⟩ (by simp) k _ d he' hd ⟨kev, e, hat, hr⟩
      rw [Inner.after_opts] at hd
      rw [KeyEvent.nextTick, hd]
      exact if_pos hrep'
  | false =>
      rw [Inner.after_opts, KeyEvent.interval_options hr] at hd
      -- A new entry has no interval yet.
      have he : s.shell.inner.entry k = some e := by
        rcases (hI.subject hat.subject).2.2.2 with he | ⟨-, rfl, -⟩
        · exact he
        · cases hd
      exact (ih k e d he hd).passed hI hs hat hr (subscribed_of_interval hI he hd)

/-- **The refresh chain neither dies nor doubles.** In every run with a non-decreasing clock in which
every refresh deadline is representable, an entry with a subscriber that asks for an interval has exactly
one outstanding refresh timer of its incarnation and generation, and it is due within the least interval
that the current subscribers ask for. -/
theorem refresh_chain (h : Run defaults log s) (hrep : ∀ r ∈ log, RefreshRepresentable r) :
    ∀ k e subId opts interval, s.shell.inner.entry k = some e →
      Shell.Subscriber k subId opts (log.map untimed) → opts.refreshInterval = some interval →
        ∃ t d, s.pending.filter (Current k e) = [t] ∧ Shell.Interval k d (log.map untimed) ∧
          t.deadline ≤ s.clock + d := by
  intro k e subId opts interval he hsub hint
  have hrun := untimed_run h
  obtain ⟨e', he', hlook⟩ := (Shell.subscriber_iff hrun k subId opts).mpr hsub
  rw [he] at he'
  cases he'
  obtain ⟨d, hd⟩ := EntryOptions.refreshInterval_exists hlook hint
  obtain ⟨t, ht, hdue⟩ := chain_of_run h hrep k e d he hd
  exact ⟨t, d, ht, (Shell.interval_iff hrun he d).mp hd, hdue⟩

end chain

/-! ## A lapse -/

section witness

attribute [local instance] Shell.exampleClock

/-- A subscriber with an interval leaves while one without stays, and the timer fires. -/
def lapseRun : List (Event Nat Unit × Instant × List QueryKey × Option Timer) :=
  let key : QueryKey := ⟨0, []⟩
  let ticking : QueryOptions :=
    { QueryOptions.default with refreshInterval := some (Duration.fromSecs 10) }
  [(.subscribe key (some ()) none ticking, 0, [], none),
   (.commitOk key 0 1 5, 0, [], none),
   (.subscribe key none none .default, 1, [], none),
   (.unsubscribe key 0, 2, [], none),
   (.timerFired key .refresh 3, Duration.fromSecs 20, [],
     some ⟨key, .refresh, 1 + Duration.fromSecs 10, 3, some 0⟩)]

/-- **A tick that serves nobody.** The subscriber that asked for an interval has left; the timer still
fires and starts a fetch. -/
theorem tick_after_leave : ∃ (xs : List (Trace.Record (Timed Nat Unit) (Tick Nat Unit)))
    (r : Trace.Record (Timed Nat Unit) (Tick Nat Unit)) (s : Timed Nat Unit),
      Run .default (xs ++ [r]) s ∧ ¬ Serves xs r := by
  let key : QueryKey := ⟨0, []⟩
  have hobs : ((Trace.exec exec1 (init .default) lapseRun).map fun r =>
      (r.1.drop 4).map fun r => (r.label.fired.map fun t => (t.key, t.kind),
        (Effect.flights r.label.call.out.effects).length,
        (r.pre.shell.inner.entry key).map fun e => e.opts.refreshInterval)) =
      some [(some (key, .refresh), 1, some none)] := by decide +kernel
  obtain ⟨⟨log, s⟩, hex, hobs⟩ := Option.map_eq_some_iff.mp hobs
  have hrun : Run .default log s := run_of_exec hex
  clear hex
  obtain ⟨r, rest, hlog, hr, hrest⟩ := List.map_eq_cons_iff.mp hobs
  obtain rfl := List.map_eq_nil_iff.mp hrest
  rw [← List.take_append_drop 4 log, hlog] at hrun
  simp only [Prod.mk.injEq] at hr
  obtain ⟨hfired, hflights, hinterval⟩ := hr
  obtain ⟨t, hf, ht⟩ := Option.map_eq_some_iff.mp hfired
  obtain ⟨e, he, hnone⟩ := Option.map_eq_some_iff.mp hinterval
  rw [Prod.mk.injEq] at ht
  refine ⟨_, r, s, hrun, fun hserves => ?_⟩
  obtain ⟨d, hd, -⟩ := hserves t hf ht.2 (List.ne_nil_of_length_pos (by rw [hflights]; decide))
  rw [ht.1, ← Shell.interval_iff (untimed_run hrun.middle.1) he d, hnone] at hd
  cases hd

/-- A key is subscribed with an interval, its fetch lands, and the tick starts another. -/
def tickRun : List (Event Nat Unit × Instant × List QueryKey × Option Timer) :=
  let key : QueryKey := ⟨0, []⟩
  let ticking : QueryOptions := { QueryOptions.default with refreshInterval := some 10 }
  [(.subscribe key (some ()) none ticking, 0, [], none),
   (.commitOk key 0 1 5, 1, [], none),
   (.timerFired key .refresh 2, 11, [], some ⟨key, .refresh, 11, 2, some 0⟩)]

set_option synthInstance.maxSize 512 in
/-- Every step of the run leaves a next tick, and the last one starts a fetch. -/
theorem tickRun_runs : ∃ (xs : List (Trace.Record (Timed Nat Unit) (Tick Nat Unit)))
    (r : Trace.Record (Timed Nat Unit) (Tick Nat Unit)) (s : Timed Nat Unit),
      Run .default (xs ++ [r]) s ∧ Effect.flights r.label.call.out.effects ≠ [] ∧
        (r.label.fired.map Timer.kind = some .refresh) ∧
        (∃ e, s.shell.inner.entry ⟨0, []⟩ = some e ∧ e.opts.refreshInterval = some 10) ∧
        ∀ x ∈ xs ++ [r], x.label.call.event.key? = some ⟨0, []⟩ ∧ x.label.call.now ≤ 11 ∧
          (∃ e', x.post.shell.inner.entry ⟨0, []⟩ = some e' ∧
            e'.opts.refreshInterval = some 10) ∧
          ∀ t, x.label.fired = some t → ∀ e, x.pre.shell.inner.entry t.key = some e →
            t.incarnation = some e.incarnation := by
  let key : QueryKey := ⟨0, []⟩
  have hobs : ((Trace.exec exec1 (init .default) tickRun).map fun r =>
      (r.1.map fun r => (r.label.call.event.key?, decide (r.label.call.now ≤ 11),
        (r.post.shell.inner.entry key).map fun e => e.opts.refreshInterval,
        r.label.fired.all fun t => (r.pre.shell.inner.entry t.key).all fun e =>
          decide (t.incarnation = some e.incarnation)),
      (r.1.drop 2).map fun r => ((Effect.flights r.label.call.out.effects).length,
        r.label.fired.map Timer.kind),
      (r.2.shell.inner.entry key).map fun e => e.opts.refreshInterval)) =
      some (List.replicate 3 (some key, true, some (some 10), true), [(1, some .refresh)],
        some (some 10)) := by decide +kernel
  obtain ⟨⟨log, s⟩, hex, hobs⟩ := Option.map_eq_some_iff.mp hobs
  have hrun : Run .default log s := run_of_exec hex
  clear hex
  simp only [Prod.mk.injEq] at hobs
  obtain ⟨hall, hlast, hsome⟩ := hobs
  obtain ⟨r, rest, hlog, hr, hrest⟩ := List.map_eq_cons_iff.mp hlast
  obtain rfl := List.map_eq_nil_iff.mp hrest
  rw [Prod.mk.injEq] at hr
  have hsplit : log = log.take 2 ++ [r] := by rw [← hlog, List.take_append_drop]
  refine ⟨log.take 2, r, s, hsplit ▸ hrun, List.ne_nil_of_length_pos (by rw [hr.1]; decide), hr.2,
    Option.map_eq_some_iff.mp hsome, ?_⟩
  rw [← hsplit]
  intro x hx
  have hrow := List.eq_of_mem_replicate (hall ▸ List.mem_map_of_mem hx)
  simp only [Prod.mk.injEq, decide_eq_true_eq, Option.all_eq_true] at hrow
  obtain ⟨hkey, hnow, hentry, hfired⟩ := hrow
  obtain ⟨e', he', hinterval⟩ := Option.map_eq_some_iff.mp hentry
  exact ⟨hkey, hnow, ⟨e', he', hinterval⟩, hfired⟩

/-- The tick comes ten after the commit, for the one subscriber. -/
theorem ticks_serve_subscribers_example :
    ∃ (xs : List (Trace.Record (Timed Nat Unit) (Tick Nat Unit)))
      (r : Trace.Record (Timed Nat Unit) (Tick Nat Unit)) (s : Timed Nat Unit),
        Trace.Run Move (init .default) (xs ++ [r]) s ∧ r.label.fired.map Timer.kind = some .refresh ∧
          Effect.flights r.label.call.out.effects ≠ [] ∧ Serves xs r := by
  obtain ⟨xs, r, s, hrun, hflights, hkind, -, hall⟩ := tickRun_runs
  have hmoves := hrun.mono fun _ _ _ hs => hs.move
  refine ⟨xs, r, s, hmoves, hkind, hflights,
    ticks_serve_subscribers hmoves (fun x hx => ⟨?_, ?_⟩) xs r [] rfl⟩
  · rintro ⟨k, kev, e, t, hat, -, -, hnext, -⟩
    obtain ⟨hkey, hnow, ⟨e', he', hinterval⟩, -⟩ := hall x hx
    obtain ⟨_, _, -, hpre, hs, -⟩ := hrun.of_mem hx
    obtain rfl := Event.on_key hkey hat.on
    have hpost := hat.entry ((Shell.inv_of_run (untimed_run hpre)).handled hs.shell)
    rw [hpost, Option.some.injEq] at he'
    rw [← he', Inner.after_opts] at hinterval
    rw [KeyEvent.nextTick, hinterval] at hnext
    have hle : x.label.call.now + 10 ≤ Platform.instantMax :=
      (Nat.add_le_add_right hnow 10).trans (by decide)
    rw [Option.bind_some, Instant.checkedAdd, if_pos hle] at hnext
    cases hnext
  · rintro ⟨t, e, hf, -, he, hne, -⟩
    exact hne ((hall x hx).2.2.2 t hf e he)

/-- One timer is outstanding for the subscriber, due within ten. -/
theorem refresh_chain_example :
    ∃ (log : List (Trace.Record (Timed Nat Unit) (Tick Nat Unit))) (s : Timed Nat Unit)
      (e : EntryCore Nat Unit) (t : Timer), Run .default log s ∧
        s.shell.inner.entry ⟨0, []⟩ = some e ∧ s.pending.filter (Current ⟨0, []⟩ e) = [t] ∧
          t.deadline ≤ s.clock + 10 := by
  obtain ⟨xs, r, s, hrun, -, -, ⟨e, he, hinterval⟩, hall⟩ := tickRun_runs
  have hrep : ∀ x ∈ xs ++ [r], RefreshRepresentable x := by
    rintro x hx k e' d he' hd ⟨kev, e₀, hat, -⟩
    obtain ⟨hkey, hnow, ⟨e₁, he₁, hinterval⟩, -⟩ := hall x hx
    obtain rfl := Event.on_key hkey hat.on
    rw [he₁, Option.some.injEq] at he'
    rw [he', hd, Option.some.injEq] at hinterval
    subst hinterval
    exact (Nat.add_le_add_right hnow 10).trans (by decide)
  have hint := Shell.interval_iff (untimed_run hrun) he
  obtain ⟨⟨subId, opts, hsub, hopts⟩, -⟩ := (hint 10).mp hinterval
  obtain ⟨t, d, hfilter, hd, hdue⟩ := refresh_chain hrun hrep _ e subId opts 10 he hsub hopts
  rw [← hint, hinterval, Option.some.injEq] at hd
  subst hd
  exact ⟨_, s, e, t, hrun, he, hfilter, hdue⟩

end witness

end Timed

end SwrCore
