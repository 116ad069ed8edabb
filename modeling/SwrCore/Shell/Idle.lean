import SwrCore.Shell.Timers

/-!
# No idle entry is leaked

A GC timer that fires on an entry in use is consumed and ignored. So every event that may leave the
entry idle again has to touch it: the post-rule then schedules the next timer.

* `Shell.recorded` — the `gc_time` of the latest read or subscription of an incarnation;
  `Shell.recorded_of_run`: the entry stores it.
* `Timed.Guarded` — the pending timer of an idle entry: the invariant.
* `Timed.no_idle_leak` — every idle entry has such a timer, and is removed when it fires.
-/

set_option linter.unusedSectionVars false

namespace SwrCore

variable {V F : Type}

/-! ## The recorded `gc_time` -/

/-- The `gc_time` that a read or a subscription of the key hands over. -/
def Event.gcTime? (k : QueryKey) : Event V F → Option Duration
  | .read key _ _ _ opts => if key = k then some opts.gcTime else none
  | .subscribe key _ _ opts => if key = k then some opts.gcTime else none
  | _ => none

theorem Event.gcTime_of_on {k : QueryKey} {subId : Nat} {ev : Event V F} {kev : KeyEvent V F}
    (h : ev.on k subId = some kev) (o : EntryOptions) :
    (kev.options o).lastTouchGcTime = (ev.gcTime? k).or o.lastTouchGcTime := by
  cases Event.on_inv h with
  | read => simp [Event.gcTime?, KeyEvent.options]
  | subscribe => simp [Event.gcTime?, KeyEvent.options]
  | _ => rfl

theorem Event.gcTime_of_off {k : QueryKey} {subId : Nat} {ev : Event V F}
    (h : ev.on k subId = none) : ev.gcTime? k = none := by
  cases ev <;> simp_all [Event.on, Event.gcTime?]

namespace Shell

/-- The `gc_time` that a step hands over to this incarnation of the key. -/
def handover (k : QueryKey) (incarnation : Nat) (r : Trace.Record (Shell V F) (Call V F)) :
    Option Duration :=
  if (r.post.inner.entry k).map EntryCore.incarnation = some incarnation then
    r.label.event.gcTime? k
  else none

/-- The `gc_time` of the latest read or subscription of this incarnation of the key. -/
def recorded (k : QueryKey) (incarnation : Nat)
    (log : List (Trace.Record (Shell V F) (Call V F))) : Option Duration :=
  (log.filterMap (handover k incarnation)).getLast?

theorem recorded_snoc (k : QueryKey) (incarnation : Nat)
    (log : List (Trace.Record (Shell V F) (Call V F))) (r : Trace.Record (Shell V F) (Call V F)) :
    recorded k incarnation (log ++ [r]) =
      (handover k incarnation r).or (recorded k incarnation log) := by
  unfold recorded
  rw [List.filterMap_append]
  cases h : handover k incarnation r with
  | none => simp [h]
  | some d => simp [h]

section run

variable [Platform] {defaults : QueryOptions} {log : List (Trace.Record (Shell V F) (Call V F))}
  {s : Shell V F}

/-- **The recorded `gc_time`.** An entry stores the `gc_time` of the latest read or subscription of its
incarnation, and nothing is recorded for incarnations to come. -/
theorem recorded_of_run (h : Run defaults log s) :
    (∀ k e, s.inner.entry k = some e → e.opts.lastTouchGcTime = recorded k e.incarnation log) ∧
      ∀ k i, s.inner.nextIncarnation ≤ i → recorded k i log = none := by
  refine h.history (P := fun log s =>
    (∀ k e, s.inner.entry k = some e → e.opts.lastTouchGcTime = recorded k e.incarnation log) ∧
      ∀ k i, s.inner.nextIncarnation ≤ i → recorded k i log = none) ⟨?_, fun _ _ _ => rfl⟩ ?_
  · intro k e he
    rw [init_entry] at he
    cases he
  rintro log s c s' hrun ⟨hstored, hfuture⟩ hs
  have hI := inv_of_run hrun
  have hI' := hI.step hs
  have hh := hI.handled hs
  refine ⟨fun k e' he' => ?_, fun k i hi => ?_⟩
  · have hmine : handover k e'.incarnation ⟨s, c, s'⟩ = c.event.gcTime? k := by
      rw [handover, if_pos]
      show (s'.inner.entry k).map EntryCore.incarnation = _
      rw [he']
      rfl
    rw [recorded_snoc, hmine]
    rcases hh.inversion he' with ⟨hoff, he⟩ | ⟨kev, e, hat, rfl⟩
    · rw [Event.gcTime_of_off hoff, Option.none_or]
      exact hstored k e' he
    · rw [Inner.after_opts, Event.gcTime_of_on hat.on, (Inner.after_frame k kev e).2]
      rcases (hI.subject hat.subject).2.2.2 with he | ⟨-, rfl, -⟩
      · rw [hstored k e he]
      · -- A new entry has nothing recorded, and neither has its incarnation.
        rw [show (EntryCore.new k s.inner.nextIncarnation : EntryCore V F).incarnation =
          s.inner.nextIncarnation from rfl, hfuture k _ le_rfl]
        rfl
  · have hnext := hh.nextIncarnation
    have hnone : handover k i ⟨s, c, s'⟩ = none := by
      rw [handover, if_neg]
      intro hinc
      obtain ⟨e', he', hinc⟩ := Option.map_eq_some_iff.mp hinc
      have := hI'.incarnation k e' he'
      omega
    rw [recorded_snoc, hnone, Option.none_or]
    exact hfuture k i (by omega)

/-- An idle entry is kept for the recorded `gc_time`, or for the default. -/
theorem gcTime_idle {s : Shell V F} (h : s.Inv) {k : QueryKey} {e : EntryCore V F}
    (he : s.inner.entry k = some e) (hq : e.isQuiescent = true) (d : Duration) :
    e.opts.gcTime d = e.opts.lastTouchGcTime.getD d := by
  have hvalues : e.opts.values = [] := by
    rw [EntryOptions.values, h.idle_subs he hq]
    rfl
  unfold EntryOptions.gcTime
  rw [hvalues]
  cases e.opts.lastTouchGcTime <;> rfl

end run

end Shell

namespace Timed

/-- Every GC deadline that the step computes is representable. -/
def GcRepresentable [Platform] (r : Trace.Record (Timed V F) (Tick V F)) : Prop :=
  ∀ k e', r.post.shell.inner.entry k = some e' → e'.isQuiescent = true →
    Shell.Touches k (untimed r) →
      r.label.call.now + e'.opts.gcTime r.post.shell.inner.defaults.gcTime ≤ Platform.instantMax

/-- A GC timer of the entry's own generation is pending, with the deadline that the last step to touch
the entry computed from the `gc_time`. -/
def Guarded [Platform] (k : QueryKey) (e : EntryCore V F) (gcTime : Duration)
    (log : List (Trace.Record (Timed V F) (Tick V F))) (s : Timed V F) (t : Timer) : Prop :=
  t ∈ s.pending ∧ t.key = k ∧ t.kind = .gc ∧ t.incarnation = some e.incarnation ∧
    t.generation = e.gcGen ∧ ∃ as q bs, log = as ++ q :: bs ∧ Shell.Touches k (untimed q) ∧
      (∀ x ∈ bs, ¬ Shell.Touches k (untimed x)) ∧ t.deadline = q.label.call.now + gcTime

section run

variable [Platform] {defaults : QueryOptions} {log : List (Trace.Record (Timed V F) (Tick V F))}
  {s : Timed V F}

/-- A step that does not touch an idle entry, and leaves it, does not consume its timer. -/
theorem Guarded.extend {s' : Timed V F} {l : Tick V F} {k : QueryKey} {e e' : EntryCore V F}
    {gcTime : Duration} {t : Timer} (h : Guarded k e gcTime log s t) (hi : s.shell.Inv)
    (hs : Step s l s') (he : s.shell.inner.entry k = some e) (hq : e.isQuiescent = true)
    (he' : s'.shell.inner.entry k = some e') (hinc : e'.incarnation = e.incarnation)
    (hgen : e'.gcGen = e.gcGen) (ht : ¬ Shell.Touches k (untimed ⟨s, l, s'⟩)) :
    Guarded k e' gcTime (log ++ [⟨s, l, s'⟩]) s' t := by
  obtain ⟨hmem, hk, hkind, hi', hg, as, q, bs, rfl, hq', hbs, hd⟩ := h
  refine ⟨?_, hk, hkind, hi'.trans (by rw [hinc]), hg.trans hgen.symm, as, q, bs ++ [⟨s, l, s'⟩],
    by simp, hq', fun x hx => ?_, hd⟩
  · rw [hs.next]
    refine List.mem_append_left _ (List.mem_diff_of_mem hmem fun hfired => ?_)
    -- The timer of an idle entry removes it when it fires.
    obtain ⟨hev, -, -⟩ := hs.move.fired_key (Option.mem_toList.mp hfired)
    rw [hk, hkind, hg] at hev
    have hrem : (KeyEvent.timerFired .gc e.gcGen : KeyEvent V F).removes e = true := by
      simp [KeyEvent.removes, hq]
    have hon : l.call.event.on k s.shell.inner.nextSubId = some (.timerFired .gc e.gcGen) := by
      rw [hev]
      exact if_pos rfl
    have hgone := ((hi.handled hs.shell).gone hon fun e₀ he₀ => by
      obtain rfl : e = e₀ := Option.some.inj (he.symm.trans he₀)
      exact hrem).1
    rw [he'] at hgone
    cases hgone
  · rcases List.mem_append.mp hx with hx | hx
    · exact hbs x hx
    · rw [List.mem_singleton.mp hx]
      exact ht

/-- **The invariant.** Every idle entry is guarded. -/
theorem guarded_of_run (h : Run defaults log s) (hrep : ∀ r ∈ log, GcRepresentable r) :
    ∀ k e, s.shell.inner.entry k = some e → e.isQuiescent = true →
      ∃ t, Guarded k e (e.opts.gcTime defaults.gcTime) log s t := by
  refine h.history (P := fun log s => (∀ r ∈ log, GcRepresentable r) → ∀ k e,
    s.shell.inner.entry k = some e → e.isQuiescent = true →
      ∃ t, Guarded k e (e.opts.gcTime defaults.gcTime) log s t) ?_ ?_ hrep
  · intro _ k e he
    rw [show (init defaults : Timed V F).shell = Shell.init defaults from rfl,
      Shell.init_entry] at he
    cases he
  rintro log s l s' hrun ih hs hrep k e' he' hq
  have hrep' : ∀ r ∈ log, GcRepresentable r := fun r hr => hrep r (List.mem_append_left _ hr)
  have hI := Shell.inv_of_run (untimed_run hrun)
  have hh := hI.handled hs.shell
  rcases hh.inversion he' with ⟨hoff, he⟩ | ⟨kev, e, hat, rfl⟩
  · obtain ⟨t, ht⟩ := ih hrep' k e' he hq
    refine ⟨t, ht.extend hI hs he hq he' rfl rfl ?_⟩
    rintro ⟨kev, e, hat, -⟩
    exact hat.not_off hoff
  have hopts := s.shell.inner.after_opts l.call.now k kev e
  have hgen := s.shell.inner.after_gcGen l.call.now k kev e
  have hquiet := hq
  rw [Inner.after_quiescent] at hquiet
  cases ht : kev.touches s.shell.inner.defaults l.call.now e with
  | true =>
      -- The event schedules the timer.
      have htouch : Shell.Touches k (untimed ⟨s, l, s'⟩) := ⟨kev, e, hat, ht⟩
      have hle := hrep ⟨s, l, s'⟩ (by simp) k _ he' hq htouch
      rw [ht, hquiet, Bool.and_self, if_pos rfl] at hgen
      have hal : (kev.react s.shell.inner.defaults l.call.now e).alarm s.shell.inner.defaults
          l.call.now (kev.marks s.shell.inner.defaults l.call.now k e) .gc =
            some (l.call.now + (s.shell.inner.after l.call.now k kev e).opts.gcTime
              s'.shell.inner.defaults.gcTime) := by
        have hmark : (kev.marks s.shell.inner.defaults l.call.now k e).touched = true := ht
        simp only [EntryCore.alarm, hmark, hquiet, Bool.and_self, if_true, KeyEvent.opts_react]
        rw [hopts, hh.defaults] at hle ⊢
        exact if_pos hle
      have hmem := hI.alarm_mem hs.shell hat hal
      have hdef := Shell.defaults_of_run (untimed_run (hrun.snoc hs))
      have hnew : ∀ t ∈ Effect.timers s'.shell.inner l.call.out.effects, t ∈ s'.pending := by
        intro t ht
        rw [hs.next]
        exact List.mem_append_right _ ht
      refine ⟨_, hnew _ hmem, rfl, rfl, congrArg some (Inner.after_frame k kev e).2.symm,
        hgen.symm, log, ⟨s, l, s'⟩, [], rfl, htouch, fun x hx => absurd hx List.not_mem_nil, ?_⟩
      show _ = l.call.now + _
      rw [show s'.shell.inner.defaults = defaults from hdef]
  | false =>
      have hreact : kev.react s.shell.inner.defaults l.call.now e = e :=
        KeyEvent.react_untouched ht
      rw [hreact] at hquiet hgen
      rw [ht, Bool.false_and, if_neg Bool.false_ne_true] at hgen
      have he : s.shell.inner.entry k = some e := by
        rcases (hI.subject hat.subject).2.2.2 with he | ⟨-, -, hc⟩
        · exact he
        · rw [KeyEvent.touches_of_creates hc] at ht
          cases ht
      obtain ⟨t, hguard⟩ := ih hrep' k e he hquiet
      have hsame : kev.options e.opts = e.opts := by rw [← KeyEvent.opts_react, hreact]
      rw [hopts, hsame]
      refine ⟨t, hguard.extend hI hs he hquiet he' (Inner.after_frame k kev e).2 hgen ?_⟩
      rintro ⟨kev', e₁, hat', ht'⟩
      obtain ⟨rfl, rfl⟩ := hat.unique hat'
      exact Bool.false_ne_true (ht.symm.trans ht')

/-! ## Removal -/

/-- The key has no entry, or an idle one of this GC generation. -/
def Fading (k : QueryKey) (gcGen : Nat) (s : Timed V F) : Prop :=
  ∀ e, s.shell.inner.entry k = some e → e.isQuiescent = true ∧ e.gcGen = gcGen

/-- Without a touch an idle entry stays as it is or is removed, and a missing one stays missing. -/
theorem Fading.step {s s' : Timed V F} {l : Tick V F} {k : QueryKey} {gcGen : Nat}
    (h : Fading k gcGen s) (hi : s.shell.Inv) (hs : Step s l s')
    (ht : ¬ Shell.Touches k (untimed ⟨s, l, s'⟩)) :
    Fading k gcGen s' ∧ (s.shell.inner.entry k = none → s'.shell.inner.entry k = none) := by
  have hh := hi.handled hs.shell
  have hback : ∀ e', s'.shell.inner.entry k = some e' → ∃ e, s.shell.inner.entry k = some e ∧
      e'.isQuiescent = e.isQuiescent ∧ e'.gcGen = e.gcGen := by
    intro e' he'
    rcases hh.inversion he' with ⟨-, he⟩ | ⟨kev, e, hat, rfl⟩
    · exact ⟨e', he, rfl, rfl⟩
    · have hno : kev.touches s.shell.inner.defaults l.call.now e = false :=
        Bool.eq_false_of_not_eq_true fun htrue => ht ⟨kev, e, hat, htrue⟩
      have hreact : kev.react s.shell.inner.defaults l.call.now e = e :=
        KeyEvent.react_untouched hno
      rcases (hi.subject hat.subject).2.2.2 with he | ⟨-, -, hc⟩
      · refine ⟨e, he, ?_, ?_⟩
        · rw [Inner.after_quiescent, hreact]
        · rw [Inner.after_gcGen, hno, Bool.false_and, if_neg Bool.false_ne_true, hreact]
      · rw [KeyEvent.touches_of_creates hc] at hno
        cases hno
  refine ⟨fun e' he' => ?_, fun hnone => ?_⟩
  · obtain ⟨e, he, hq, hg⟩ := hback e' he'
    rw [hq, hg]
    exact h e he
  · rw [Option.eq_none_iff_forall_ne_some]
    intro e' he'
    obtain ⟨e, he, -⟩ := hback e' he'
    rw [hnone] at he
    cases he

/-- An idle entry that is not touched is gone once a timer of its generation fired. -/
theorem Fading.collected {s s' : Timed V F} {l : Tick V F} {k : QueryKey} {gcGen : Nat}
    (h : Fading k gcGen s) (hi : s.shell.Inv) (hs : Step s l s')
    (hev : l.call.event = .timerFired k .gc gcGen) : s'.shell.inner.entry k = none := by
  have hh := hi.handled hs.shell
  have hon : l.call.event.on k s.shell.inner.nextSubId = some (.timerFired .gc gcGen) := by
    rw [hev]
    exact if_pos rfl
  refine (hh.gone hon fun e he => ?_).1
  obtain ⟨hq, hg⟩ := h e he
  simp [KeyEvent.removes, hq, hg]

/-- **No idle entry is leaked.** In every run with a non-decreasing clock in which every GC deadline is
representable, every idle entry has a pending GC timer of its generation, whose deadline is the time of
the last event that touched the entry plus the `gc_time` of the latest read or subscription of its
incarnation, or the default of the client if there was none. If from then on no event touches the key,
its entry is gone once this timer has fired. -/
theorem no_idle_leak (h : Run defaults log s) (hrep : ∀ r ∈ log, GcRepresentable r) :
    ∀ k e, s.shell.inner.entry k = some e → e.isQuiescent = true →
      ∃ t, Guarded k e ((Shell.recorded k e.incarnation (log.map untimed)).getD defaults.gcTime)
          log s t ∧
        ∀ later s', Trace.Run Step s later s' →
          (∀ x ∈ later, ¬ Shell.Touches k (untimed x)) →
            (∃ x ∈ later, x.label.fired = some t) → s'.shell.inner.entry k = none := by
  intro k e he hq
  have hrun := untimed_run h
  have hI := Shell.inv_of_run hrun
  obtain ⟨t, ht⟩ := guarded_of_run h hrep k e he hq
  rw [Shell.gcTime_idle hI he hq, (Shell.recorded_of_run hrun).1 k e he] at ht
  refine ⟨t, ht, ?_⟩
  rintro later s' hlater hquiet ⟨x, hx, hfired⟩
  obtain ⟨-, hk, hkind, -, hg, -⟩ := ht
  have hfading : Fading k e.gcGen s := fun e' he' => by
    obtain rfl : e = e' := Option.some.inj (he.symm.trans he')
    exact ⟨hq, rfl⟩
  obtain ⟨as, bs, rfl⟩ := List.append_of_mem hx
  obtain ⟨has, hstep, hbs⟩ := hlater.middle
  have hbefore : x.pre.shell.Inv ∧ Fading k e.gcGen x.pre :=
    has.carry (J := fun s => s.shell.Inv ∧ Fading k e.gcGen s) ⟨hI, hfading⟩
      (fun y hy => hquiet y (List.mem_append_left _ hy)) fun y hs hno hJ =>
        ⟨hJ.1.step hs.shell, (hJ.2.step hJ.1 hs hno).1⟩
  have hev := (hstep.move.fired_key hfired).1
  rw [hk, hkind, hg] at hev
  have hgone := hbefore.2.collected hbefore.1 hstep hev
  have hafter : s'.shell.Inv ∧ s'.shell.inner.entry k = none :=
    hbs.carry (J := fun s => s.shell.Inv ∧ s.shell.inner.entry k = none)
      ⟨hbefore.1.step hstep.shell, hgone⟩
      (fun y hy => hquiet y (List.mem_append_right _ (List.mem_cons_of_mem _ hy)))
      fun y hs hno hJ => by
        have hfade : Fading k e.gcGen y.pre := fun e₀ he₀ => by
          rw [hJ.2] at he₀
          cases he₀
        exact ⟨hJ.1.step hs.shell, (hfade.step hJ.1 hs hno).2 hJ.2⟩
  exact hafter.2

end run

section witness

attribute [local instance] Shell.exampleClock

/-- A key is set, read and left alone. -/
def idleRun : List (Event Nat Unit × Instant × List QueryKey × Option Timer) :=
  [(.mutateSet ⟨0, []⟩ 1, 0, [], none),
   (.read ⟨0, []⟩ .cacheOnly none none { QueryOptions.default with gcTime := 5 }, 1, [], none)]

set_option synthInstance.maxSize 512 in
/-- The entry is idle, and its timer is due five ticks after the read. -/
theorem no_idle_leak_example :
    ∃ (log : List (Trace.Record (Timed Nat Unit) (Tick Nat Unit))) (s : Timed Nat Unit)
      (e : EntryCore Nat Unit) (t : Timer), Run .default log s ∧
        s.shell.inner.entry ⟨0, []⟩ = some e ∧ e.isQuiescent = true ∧ t ∈ s.pending ∧
          t.generation = e.gcGen ∧ ∃ q ∈ log, t.deadline = q.label.call.now + 5 := by
  let key : QueryKey := ⟨0, []⟩
  have hobs : ((Trace.exec exec1 (init .default) idleRun).map fun r =>
      (r.1.map fun r => r.label.call.event.key?,
        r.1.map fun r => (r.post.shell.inner.entry key).map fun e =>
          r.label.call.now + e.opts.gcTime r.post.shell.inner.defaults.gcTime,
        (r.2.shell.inner.entry key).map EntryCore.isQuiescent,
        Shell.recorded key 0 (r.1.map untimed),
        (r.2.shell.inner.entry key).map EntryCore.incarnation)) =
      some ([some key, some key], [some (Duration.fromSecs 300), some 6], some true, some 5,
        some 0) := by
    decide +kernel
  obtain ⟨⟨log, s⟩, hex, hobs⟩ := Option.map_eq_some_iff.mp hobs
  have hrun : Run .default log s := run_of_exec hex
  simp only [Prod.mk.injEq] at hobs
  obtain ⟨hkeys, hdeadlines, hquiet, hrecorded, hinc⟩ := hobs
  obtain ⟨e, he, hq⟩ := Option.map_eq_some_iff.mp hquiet
  rw [he, Option.map_some, Option.some.injEq] at hinc
  have hrep : ∀ r ∈ log, GcRepresentable r := by
    rintro r hr k e' he' - ⟨kev, e₀, hat, -⟩
    -- Both events are addressed to the one key.
    have hk : key = k := by
      have hcall := List.mem_map_of_mem (f := fun r => r.label.call.event.key?) hr
      rw [hkeys] at hcall
      simp only [List.mem_cons, List.not_mem_nil, or_false, or_self] at hcall
      exact Event.on_key hcall hat.on
    subst hk
    have hd := List.mem_map_of_mem (f := fun r => (r.post.shell.inner.entry key).map fun e =>
      r.label.call.now + e.opts.gcTime r.post.shell.inner.defaults.gcTime) hr
    rw [hdeadlines, he', Option.map_some] at hd
    simp only [List.mem_cons, Option.some.injEq, List.not_mem_nil, or_false] at hd
    rcases hd with hd | hd
    all_goals
      rw [hd]
      decide
  obtain ⟨t, ⟨hmem, -, -, -, hgen, as, q, bs, hlog, -, -, hdue⟩, -⟩ :=
    no_idle_leak hrun hrep key e he hq
  rw [hinc, hrecorded] at hdue
  exact ⟨log, s, e, t, hrun, he, hq, hmem, hgen, q, by simp [hlog], hdue⟩

end witness

end Timed

end SwrCore
