import SwrCore.Shell.Idle
import SwrCore.Shell.Rollback
import SwrCore.Shell.Subscribers

/-!
# What is left of a subscriber's `gc_time`

An entry is kept for the longest `gc_time` of its subscribers and of its latest touch. When the last
subscriber leaves, its own options are gone, and the latest touch is all that is left: the subscription
itself, or a read or another subscription that came after it.

* `Shell.latestGcTime` — the `gc_time` of the latest read or subscription of a key;
  `Shell.lastTouch_of_subscribed`: a subscribed entry stores it.
* `Shell.Leaves` — the last subscriber of a key leaves it idle.
* `Shell.Leaves.countdown` — the countdown that starts then.
* `Timed.Outlives` — the countdown does not expire too early.
* `Timed.retention_iff` — it does not exactly if the latest touch asked for no less, or for ever.
* `Timed.retention_cut` — a read that cuts the retention of a subscriber short.
-/

set_option linter.unusedSectionVars false

namespace SwrCore

variable {V F : Type}

namespace Shell

/-- The `gc_time` of the latest read or subscription of the key. -/
def latestGcTime (k : QueryKey) (log : List (Trace.Record (Shell V F) (Call V F))) :
    Option Duration :=
  (log.filterMap fun r => r.label.event.gcTime? k).getLast?

theorem latestGcTime_snoc (k : QueryKey) (log : List (Trace.Record (Shell V F) (Call V F)))
    (r : Trace.Record (Shell V F) (Call V F)) :
    latestGcTime k (log ++ [r]) = (r.label.event.gcTime? k).or (latestGcTime k log) := by
  unfold latestGcTime
  rw [List.filterMap_append]
  cases h : r.label.event.gcTime? k with
  | none => simp [h]
  | some d => simp [h]

/-- Who is subscribed has handed over a `gc_time`. -/
theorem Subscriber.latest {k : QueryKey} {subId : Nat} {opts : QueryOptions}
    {log : List (Trace.Record (Shell V F) (Call V F))} (h : Subscriber k subId opts log) :
    ∃ d, latestGcTime k log = some d := by
  obtain ⟨xs, r, ys, rfl, ⟨-, fetcher, compare, hev⟩, -⟩ := h
  have hgc : r.label.event.gcTime? k = some opts.gcTime := by
    rw [hev]
    exact if_pos rfl
  have hmem : opts.gcTime ∈ (xs ++ r :: ys).filterMap fun r => r.label.event.gcTime? k :=
    List.mem_filterMap.mpr ⟨r, by simp, hgc⟩
  exact ⟨_, List.getLast?_eq_some_getLast (List.ne_nil_of_mem hmem)⟩

/-- The event takes back the handle of the last subscriber of the key, and nothing else is going on: no
result of a fetch is awaited, and no mutation is active. -/
structure Leaves (k : QueryKey) (subId : Nat) (opts : QueryOptions)
    (log : List (Trace.Record (Shell V F) (Call V F))) (r : Trace.Record (Shell V F) (Call V F)) :
    Prop where
  event : r.label.event = .unsubscribe k subId
  subscriber : Subscriber k subId opts log
  last : ∀ id o, Subscriber k id o log → id = subId
  unawaited : ∀ f, f.key = k → ¬ Awaits f r.pre
  settled : ¬ Mutating k r.pre

theorem timer_incarnation {inner : Inner V F} {effects : List (Effect V F)} {t : Timer}
    (h : t ∈ Effect.timers inner effects) :
    t.incarnation = (inner.entry t.key).map EntryCore.incarnation := by
  obtain ⟨x, -, hx⟩ := List.mem_filterMap.mp h
  cases x with
  | scheduleTimer key kind deadline generation =>
      obtain rfl := Option.some.inj hx
      rfl
  | _ => cases hx

section run

variable [Platform] {defaults : QueryOptions} {log : List (Trace.Record (Shell V F) (Call V F))}
  {s : Shell V F} {k : QueryKey}

/-- A subscribed entry stores the `gc_time` of the latest read or subscription of its key. -/
theorem lastTouch_of_subscribed (h : Run defaults log s) {e : EntryCore V F}
    (he : s.inner.entry k = some e) {id : Nat} {opts : QueryOptions}
    (hlook : e.opts.subs.lookup id = some opts) : e.opts.lastTouchGcTime = latestGcTime k log := by
  refine h.history (P := fun log s => ∀ e, s.inner.entry k = some e → ∀ id opts,
    e.opts.subs.lookup id = some opts → e.opts.lastTouchGcTime = latestGcTime k log) ?_ ?_
      e he id opts hlook
  · intro e he
    rw [init_entry] at he
    cases he
  rintro log s c s' hrun ih hs e' he' id opts hlook
  have hI := inv_of_run hrun
  rw [latestGcTime_snoc]
  rcases (hI.handled hs).inversion he' with ⟨hoff, he⟩ | ⟨kev, e, hat, rfl⟩
  · rw [Event.gcTime_of_off hoff, Option.none_or]
    exact ih e' he id opts hlook
  rw [Inner.after_opts, Event.gcTime_of_on hat.on]
  cases hgc : c.event.gcTime? k with
  | some d => rfl
  | none =>
      rw [Inner.after_opts, KeyEvent.lookup_options] at hlook
      have hold : e.opts.subs.lookup id = some opts := by
        have hon := hat.on
        generalize c.event = ev at hon hgc
        cases Event.on_inv hon with
        | subscribe => simp [Event.gcTime?] at hgc
        | unsubscribe => exact (Option.ite_none_left_eq_some.mp hlook).2
        | _ => exact hlook
      obtain ⟨e₀, he₀, hlook₀⟩ := (hI.stores_subject hat.subject id opts).mpr hold
      obtain rfl := hat.of_entry he₀
      exact ih e he₀ id opts hold

section leaves

variable {subId : Nat} {opts : QueryOptions} {r : Trace.Record (Shell V F) (Call V F)}

/-- The entry that the last subscriber leaves is idle, and stores no options any more. -/
theorem Leaves.idle (h : Run defaults log r.pre) (hs : Step r.pre r.label r.post)
    (hl : Leaves k subId opts log r) : ∃ e, r.pre.inner.entry k = some e ∧
      e.opts.lastTouchGcTime = latestGcTime k log ∧
        r.pre.inner.At r.label.event k (.unsubscribe subId) e ∧
          (r.pre.inner.after r.label.now k (.unsubscribe subId) e).isQuiescent = true := by
  have hI := inv_of_run h
  obtain ⟨e, he, hlook⟩ := (subscriber_iff h k subId opts).mpr hl.subscriber
  have hon : r.label.event.on k r.pre.inner.nextSubId = some (.unsubscribe subId) := by
    rw [hl.event]
    exact if_pos rfl
  have hat : r.pre.inner.At r.label.event k (.unsubscribe subId) e := ⟨hon, he, rfl⟩
  refine ⟨e, he, lastTouch_of_subscribed h he hlook, hat, ?_⟩
  -- The options that are left would be those of another subscriber.
  have hempty : (e.opts.subs.erase subId).entries = [] := by
    rw [List.eq_nil_iff_forall_not_mem]
    rintro ⟨id, o⟩ hmem
    have hleft := AList.mem_lookup_iff.mpr hmem
    by_cases hid : id = subId
    · subst hid
      rw [AList.lookup_erase] at hleft
      cases hleft
    · rw [Option.mem_def, AList.lookup_erase_ne hid] at hleft
      exact hid (hl.last id o ((lookup_iff h he id o).mp hleft))
  have howned := (hI.after hs hat).2.1
  have hnone : (r.pre.inner.after r.label.now k (.unsubscribe subId) e).subscribers = 0 := by
    rw [howned.records, Inner.after_opts]
    exact congrArg List.length hempty
  have hfree : e.mutationActive = 0 := by
    by_contra hne
    exact hl.settled ⟨e, he, Nat.pos_of_ne_zero hne⟩
  have hlanded : e.inflight = none := by
    rw [Option.eq_none_iff_forall_ne_some]
    intro seq hseq
    exact hl.unawaited ⟨k, e.incarnation, seq⟩ rfl ⟨e, he, rfl, hseq⟩
  rw [Inner.after_quiescent]
  rw [Inner.after_of (f := EntryCore.subscribers) fun _ _ _ _ => rfl] at hnone
  simp only [EntryCore.isQuiescent, hnone]
  simp [KeyEvent.react, KeyEvent.starts, KeyEvent.wants, KeyEvent.apply, EntryCore.left, hfree,
    hlanded]

/-- **The countdown.** When the last subscriber leaves, a GC timer is scheduled for the `gc_time` of the
latest touch, and none if its deadline is not representable. -/
theorem Leaves.countdown (h : Run defaults log r.pre) (hs : Step r.pre r.label r.post)
    (hl : Leaves k subId opts log r) {d : Duration} (hd : latestGcTime k log = some d)
    (deadline : Instant) : (∃ t ∈ Effect.timers r.post.inner r.label.out.effects,
      t.key = k ∧ t.kind = .gc ∧ t.deadline = deadline) ↔
        Instant.checkedAdd r.label.now d = some deadline := by
  have hI := inv_of_run h
  obtain ⟨e, he, hlast, hat, hq⟩ := hl.idle h hs
  have hpost := hat.entry (hI.handled hs)
  have hkept : (r.pre.inner.after r.label.now k (.unsubscribe subId) e).opts.gcTime
      r.pre.inner.defaults.gcTime = d := by
    rw [gcTime_idle (hI.step hs) hpost hq, Inner.after_opts]
    show e.opts.lastTouchGcTime.getD _ = d
    rw [hlast, hd, Option.getD_some]
  have halarm : ((KeyEvent.unsubscribe subId).react r.pre.inner.defaults r.label.now e).alarm
      r.pre.inner.defaults r.label.now
        ((KeyEvent.unsubscribe subId).marks r.pre.inner.defaults r.label.now k e) .gc =
          Instant.checkedAdd r.label.now d := by
    have hmark : ((KeyEvent.unsubscribe subId : KeyEvent V F).marks r.pre.inner.defaults
      r.label.now k e).touched = true := rfl
    rw [Inner.after_opts] at hkept
    rw [Inner.after_quiescent] at hq
    simp only [EntryCore.alarm, hmark, hq, Bool.and_self, if_true, KeyEvent.opts_react, hkept]
  constructor
  · rintro ⟨t, ht, hk, hkind, rfl⟩
    have hmine : Timer.isOf k .gc e.incarnation t = true := by
      have hinc := timer_incarnation ht
      rw [hk, hpost, Option.map_some, (Inner.after_frame k _ e).2] at hinc
      simp [Timer.isOf, hk, hkind, hinc]
    have hmem := List.mem_filter.mpr ⟨ht, hmine⟩
    rcases hI.new_timers hs k .gc e.incarnation with ⟨hnil, -⟩ | ⟨kev, e', d', hat', -, hal, hnew⟩
    · rw [hnil] at hmem
      cases hmem
    · obtain ⟨rfl, rfl⟩ := hat.unique hat'
      rw [hnew, List.mem_singleton] at hmem
      rw [← halarm, hal, hmem]
  · intro hdue
    exact ⟨_, hI.alarm_mem hs hat (halarm.trans hdue), rfl, rfl, rfl⟩

end leaves

end run

end Shell

namespace Timed

/-- The step fires the GC timer of the key that `r` scheduled: the countdown of `r` expires. -/
def Expires (k : QueryKey) (r x : Trace.Record (Timed V F) (Tick V F)) : Prop :=
  ∃ t, x.label.fired = some t ∧ t ∈ Effect.timers r.post.shell.inner r.label.call.out.effects ∧
    t.key = k ∧ t.kind = .gc

/-- However the run goes on after `r`, as long as no event touches the key, the countdown of `r` does not
expire before the duration has passed. -/
def Outlives [Platform] (k : QueryKey) (g : Duration) (r : Trace.Record (Timed V F) (Tick V F)) :
    Prop :=
  ∀ later s, Trace.Run Step r.post later s → (∀ x ∈ later, ¬ Shell.Touches k (untimed x)) →
    ∀ x ∈ later, Expires k r x → r.label.call.now + g ≤ x.label.call.now

section run

variable [Platform] {defaults : QueryOptions} {log : List (Trace.Record (Timed V F) (Tick V F))}
  {k : QueryKey}

/-- A countdown that outlives the duration does not expire too early in the next step either. -/
theorem Outlives.next {g : Duration} {r : Trace.Record (Timed V F) (Tick V F)} (h : Outlives k g r)
    {l : Tick V F} {s : Timed V F} (hs : Step r.post l s)
    (hquiet : ¬ Shell.Touches k (untimed ⟨r.post, l, s⟩)) (hexp : Expires k r ⟨r.post, l, s⟩) :
    r.label.call.now + g ≤ l.call.now := by
  refine h [⟨r.post, l, s⟩] s (Trace.Run.single hs) (fun x hx => ?_) _ List.mem_cons_self hexp
  rw [List.mem_singleton.mp hx]
  exact hquiet

/-- A pending GC timer can fire at its deadline, and this touches no key. -/
theorem fires_at_deadline {s : Timed V F} (h : s.shell.Inv) {t : Timer} (ht : t ∈ s.pending)
    (hshell : t ∈ s.shell.timers) (hkind : t.kind = .gc) (hdue : s.clock ≤ t.deadline) :
    ∃ l s', Step s l s' ∧ l.fired = some t ∧ l.call.now = t.deadline ∧
      ∀ k, ¬ Shell.Touches k (untimed ⟨s, l, s'⟩) := by
  let ev : Event V F := .timerFired t.key t.kind t.generation
  have hen : s.shell.Enabled ev := ⟨t, hshell, rfl, rfl, rfl⟩
  have hscan : ev.scans = true → s.shell.inner.IsScan [] := nofun
  obtain ⟨inner, out, -, hs⟩ := h.step_exists hen t.deadline hscan
  let l : Tick V F := ⟨⟨ev, t.deadline, [], out⟩, some t⟩
  have hfires : s.Fires t.deadline ev (some t) := by
    refine ⟨rfl, fun t' ht' => ?_⟩
    obtain rfl := Option.some.inj ht'
    exact ⟨ht, le_rfl⟩
  refine ⟨l, s.next _ l, ⟨hs, hdue, hfires, rfl⟩, rfl, rfl, ?_⟩
  rintro k ⟨kev, e, hat, htouch⟩
  have hon : (if t.key = k then some (.timerFired t.kind t.generation) else none) = some kev :=
    hat.on
  obtain rfl := Option.some.inj (Option.ite_none_right_eq_some.mp hon).2
  rw [hkind] at htouch
  cases htouch

/-- **The retention of a subscriber who left.** In every run with a non-decreasing clock, let the last
subscriber of a key, with its `gc_time`, leave the key idle. The countdown that starts then does not
expire before that `gc_time` has passed if and only if the latest read or subscription of the key asked
for no less, or its own deadline is not representable and there is no countdown. -/
theorem retention_iff {r : Trace.Record (Timed V F) (Tick V F)} (h : Run defaults log r.pre)
    (hs : Step r.pre r.label r.post) {subId : Nat} {opts : QueryOptions}
    (hl : Shell.Leaves k subId opts (log.map untimed) (untimed r)) :
    ∃ d, Shell.latestGcTime k (log.map untimed) = some d ∧ (Outlives k opts.gcTime r ↔
      opts.gcTime ≤ d ∨ Platform.instantMax < r.label.call.now + d) := by
  obtain ⟨d, hd⟩ := hl.subscriber.latest
  have hrun := untimed_run h
  have hcountdown := hl.countdown hrun hs.shell hd
  refine ⟨d, hd, fun hout => ?_, fun hcond later s hlater hquiet x hx hexp => ?_⟩
  · by_contra hcut
    obtain ⟨hless, hfits⟩ := not_or.mp hcut
    have hfits : r.label.call.now + d ≤ Platform.instantMax := Nat.not_lt.mp hfits
    have hdue : Instant.checkedAdd r.label.call.now d = some (r.label.call.now + d) := if_pos hfits
    obtain ⟨t, ht, hk, hkind, hdead⟩ := (hcountdown _).mpr hdue
    -- The timer fires as soon as it may.
    have hI := (Shell.inv_of_run hrun).step hs.shell
    have hpending : t ∈ r.post.pending := by
      rw [hs.next]
      exact List.mem_append_right _ ht
    have hscheduled : t ∈ r.post.shell.timers := by
      rw [Shell.next_timers hs.shell]
      exact List.mem_append_right _ ht
    have hclock : r.post.clock ≤ t.deadline := by
      rw [hs.next, hdead]
      exact Nat.le_add_right _ _
    obtain ⟨l, s, hx, hfired, hnow, hquiet⟩ :=
      fires_at_deadline hI hpending hscheduled hkind hclock
    have hearly := hout.next hx (hquiet k) ⟨t, hfired, ht, hk, hkind⟩
    rw [hnow, hdead] at hearly
    exact hless (Nat.le_of_add_le_add_left hearly)
  · obtain ⟨t, hfired, ht, hk, hkind⟩ := hexp
    have hdue := (hcountdown t.deadline).mp ⟨t, ht, hk, hkind, rfl⟩
    obtain ⟨-, -, -, -, hstep, -⟩ := hlater.of_mem hx
    obtain ⟨-, -, hpast⟩ := hstep.move.fired_key hfired
    rw [Instant.checkedAdd] at hdue
    split_ifs at hdue with hfits
    have hdead : r.label.call.now + d = t.deadline := Option.some.inj hdue
    have hle := hcond.resolve_right (Nat.not_lt.mpr hfits)
    calc r.label.call.now + opts.gcTime ≤ r.label.call.now + d := Nat.add_le_add_left hle _
      _ = t.deadline := hdead
      _ ≤ x.label.call.now := hpast

end run

section witness

attribute [local instance] Shell.exampleClock

theorem exec_ticks {inputs : List (Event V F × Instant × List QueryKey × Option Timer)}
    {s s' : Timed V F} {log : List (Trace.Record (Timed V F) (Tick V F))}
    (h : Trace.exec exec1 s inputs = some (log, s')) :
    log.map (fun r => (r.label.call.event, r.label.call.now, r.label.call.scan, r.label.fired)) =
      inputs := by
  have htick : ∀ (s : Timed V F) i l s', s.exec1 i = some (l, s') →
      (l.call.event, l.call.now, l.call.scan, l.fired) = i := by
    rintro s ⟨ev, now, scan, fired⟩ l s' hx
    unfold exec1 at hx
    split_ifs at hx
    cases hc : s.shell.exec1 ev now scan with
    | none =>
        simp only [hc] at hx
        cases hx
    | some p =>
        simp only [hc] at hx
        obtain ⟨rfl, -⟩ := Prod.mk.inj (Option.some.inj hx)
        obtain ⟨rfl, rfl, rfl⟩ := Shell.call_of_exec1 hc
        rfl
  exact (Trace.exec_labels htick h).trans (List.map_id _)

/-- The options of a subscriber who asks for five ticks. -/
def fiveTicks : QueryOptions := { QueryOptions.default with gcTime := 5 }

/-- A subscription, a read that asks for less or for more, and the end of the subscription. -/
def retentionRun (brief : Bool) : List (Event Nat Unit × Instant × List QueryKey × Option Timer) :=
  let key : QueryKey := ⟨0, []⟩
  [(.subscribe key none none fiveTicks, 0, [], none),
   (.read key .cacheOnly none none
      { QueryOptions.default with gcTime := if brief then 1 else 7 }, 1, [], none),
   (.unsubscribe key 0, 2, [], none)]

set_option synthInstance.maxSize 512 in
/-- The last step of the run, and the timer that it schedules. -/
theorem retentionRun_leaves (brief : Bool) :
    ∃ (a b r : Trace.Record (Timed Nat Unit) (Tick Nat Unit)) (e : EntryCore Nat Unit),
      Run .default [a, b] r.pre ∧ Step r.pre r.label r.post ∧
        Shell.Leaves ⟨0, []⟩ 0 fiveTicks ([a, b].map untimed) (untimed r) ∧
          r.label.call.now = 2 ∧
            Shell.latestGcTime ⟨0, []⟩ ([a, b].map untimed) = some (if brief then 1 else 7) ∧
              ⟨⟨0, []⟩, .gc, if brief then 3 else 9, 2, some 0⟩ ∈
                Effect.timers r.post.shell.inner r.label.call.out.effects ∧
                  r.post.shell.inner.entry ⟨0, []⟩ = some e ∧ e.isQuiescent = true ∧ e.gcGen = 2 := by
  let key : QueryKey := ⟨0, []⟩
  have hobs : ((Trace.exec exec1 (init .default) (retentionRun brief)).map fun r => r.1.map fun r =>
      (r.label.call.subscribed?, (r.pre.shell.inner.entry key).map EntryCore.inflight,
        r.pre.shell.active, Effect.timers r.post.shell.inner r.label.call.out.effects,
          (r.post.shell.inner.entry key).map fun e => (e.isQuiescent, e.gcGen))) =
      some [(some (key, 0), none, 0, [], some (false, 1)), (none, some none, 0, [], some (false, 1)),
        (none, some none, 0, [⟨key, .gc, if brief then 3 else 9, 2, some 0⟩], some (true, 2))] := by
    cases brief <;> decide +kernel
  obtain ⟨⟨log, s⟩, hex, hobs⟩ := Option.map_eq_some_iff.mp hobs
  have hrun : Run .default log s := run_of_exec hex
  have hcalls := exec_ticks hex
  obtain ⟨a, log, rfl, ha, hcalls⟩ := List.map_eq_cons_iff.mp hcalls
  obtain ⟨b, log, rfl, hb, hcalls⟩ := List.map_eq_cons_iff.mp hcalls
  obtain ⟨r, log, rfl, hr, hcalls⟩ := List.map_eq_cons_iff.mp hcalls
  obtain rfl := List.map_eq_nil_iff.mp hcalls
  simp only [Prod.mk.injEq] at ha hb hr
  simp only [List.map_cons, List.map_nil, List.cons.injEq, Prod.mk.injEq] at hobs
  obtain ⟨⟨hjoin, -⟩, -, ⟨-, hfree, hidle, htimer, hpost⟩, -⟩ := hobs
  have hcut : [a, b, r] = [a, b] ++ r :: [] := rfl
  obtain ⟨hbefore, hlast, -⟩ := (hcut ▸ hrun).middle
  obtain ⟨e, he, hq⟩ := Option.map_eq_some_iff.mp hpost
  obtain ⟨hq, hgen⟩ := Prod.mk.inj hq
  refine ⟨a, b, r, e, hbefore, hlast, ⟨hr.1, ?_, ?_, ?_, ?_⟩, hr.2.1, ?_, ?_, he, hq, hgen⟩
  · refine ⟨[], untimed a, [untimed b], rfl, ⟨hjoin, _, _, ha.1⟩, fun x hx => ?_⟩
    rw [List.mem_singleton.mp hx]
    show ¬ b.label.call.event.unsubscribed? = _
    rw [hb.1]
    exact nofun
  · rintro id o ⟨xs, q, ys, hlog, ⟨hjoin', _, _, hev⟩, -⟩
    have hq : q ∈ [a, b].map untimed := by
      rw [hlog]
      simp
    simp only [List.map_cons, List.map_nil, List.mem_cons, List.not_mem_nil, or_false] at hq
    rcases hq with rfl | rfl
    · have hsame := hjoin.symm.trans hjoin'
      rw [Option.some.injEq, Prod.mk.injEq] at hsame
      exact hsame.2.symm
    · cases hb.1.symm.trans hev
  · rintro f hf ⟨e, he, -, hfly⟩
    rw [hf] at he
    have he : r.pre.shell.inner.entry key = some e := he
    rw [he, Option.map_some, hfly] at hfree
    cases hfree
  · rw [Shell.mutating_iff]
    show ¬ 0 < r.pre.shell.active
    rw [hidle]
    exact lt_irrefl 0
  · rw [show [a, b].map untimed = [untimed a] ++ [untimed b] from rfl, Shell.latestGcTime_snoc]
    show (b.label.call.event.gcTime? _).or _ = _
    rw [hb.1]
    rfl
  · rw [htimer]
    exact List.mem_singleton.mpr rfl

/-- The countdown of a subscriber outlives the subscription if the read asked for more. -/
theorem retention_iff_example : ∃ (a b r : Trace.Record (Timed Nat Unit) (Tick Nat Unit)),
    Run .default [a, b] r.pre ∧ Step r.pre r.label r.post ∧
      Shell.Leaves ⟨0, []⟩ 0 fiveTicks ([a, b].map untimed) (untimed r) ∧ Outlives ⟨0, []⟩ 5 r := by
  obtain ⟨a, b, r, e, hrun, hstep, hl, -, hlast, -⟩ := retentionRun_leaves false
  obtain ⟨d, hd, hiff⟩ := retention_iff hrun hstep hl
  rw [hlast] at hd
  obtain rfl := Option.some.inj hd
  exact ⟨a, b, r, hrun, hstep, hl, hiff.mpr (.inl (by decide))⟩

/-- **A retention that is cut short.** A subscriber asks for five ticks; a read asks for one before the
subscriber leaves. The countdown expires after one tick, and the entry is removed. -/
theorem retention_cut : ∃ (a b r x : Trace.Record (Timed Nat Unit) (Tick Nat Unit)),
    Run .default [a, b, r, x] x.post ∧
      Shell.Leaves ⟨0, []⟩ 0 fiveTicks ([a, b].map untimed) (untimed r) ∧ r.label.call.now = 2 ∧
        ¬ Shell.Touches ⟨0, []⟩ (untimed x) ∧ Expires ⟨0, []⟩ r x ∧ x.label.call.now = 3 ∧
          r.post.shell.inner.entry ⟨0, []⟩ ≠ none ∧ x.post.shell.inner.entry ⟨0, []⟩ = none ∧
            ¬ Outlives ⟨0, []⟩ fiveTicks.gcTime r := by
  obtain ⟨a, b, r, e, hrun, hstep, hl, hnow, -, ht, he, hq, hgen⟩ := retentionRun_leaves true
  have hrun' := hrun.snoc hstep
  have hI := Shell.inv_of_run (untimed_run hrun')
  have hpending : ⟨⟨0, []⟩, .gc, 3, 2, some 0⟩ ∈ r.post.pending := by
    rw [hstep.next]
    exact List.mem_append_right _ ht
  have hclock : r.post.clock ≤ 3 := by
    rw [hstep.next]
    show r.label.call.now ≤ 3
    rw [hnow]
    decide
  obtain ⟨l, s, hx, hfired, hdue, hquiet⟩ :=
    fires_at_deadline hI hpending (pending_subset hrun' _ hpending) rfl hclock
  have hexp : Expires ⟨0, []⟩ r ⟨r.post, l, s⟩ := ⟨_, hfired, ht, rfl, rfl⟩
  have hfading : Fading ⟨0, []⟩ 2 r.post := fun e' he' => by
    obtain rfl := Option.some.inj (he.symm.trans he')
    exact ⟨hq, hgen⟩
  have hgone := hfading.collected hI hx (hx.move.fired_key hfired).1
  refine ⟨a, b, r, ⟨r.post, l, s⟩, hrun'.snoc hx, hl, hnow, hquiet _, hexp, hdue, ?_, hgone, ?_⟩
  · rw [he]
    exact Option.some_ne_none e
  · intro hout
    have hearly := hout.next hx (hquiet _) hexp
    rw [hnow, hdue] at hearly
    revert hearly
    decide

end witness

end Timed

end SwrCore
