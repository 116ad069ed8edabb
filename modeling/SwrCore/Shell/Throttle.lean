import SwrCore.Shell.Closing
import SwrCore.Shell.Subscribers

/-!
# The focus throttle

A `Focus` broadcast that starts a fetch closes the window for further ones, until its own time plus the
least throttle that a subscriber asks for. The end of the window is stored as an optional instant: there
is none when the addition overflows, which also means that the window is open.

* `KeyEvent.blocked_react` — only a `Focus` broadcast that starts a fetch moves the window.
* `Shell.Refocuses` — such a step.
* `Shell.Inv.barred_step` — once closed, the window stays closed until its end.
* `Shell.focus_spacing_iff` — two such steps are spaced as the subscribers asked exactly if the end of
  the window is representable.
* `Shell.unthrottled_focus` — a throttle that is too long to be represented throttles nothing.
-/

set_option linter.unusedSectionVars false

namespace SwrCore

variable {V F : Type}

section cell

variable [Platform] {defaults : QueryOptions} {now : Instant} {e : EntryCore V F}

/-- A `Focus` broadcast that starts a fetch finds the window open, and closes it. -/
theorem KeyEvent.blocked_focus
    (h : (KeyEvent.broadcast .focus : KeyEvent V F).starts defaults now e = true) :
    (∀ till, e.focusBlockedUntil = some till → till ≤ now) ∧
      ((KeyEvent.broadcast .focus).react defaults now e).focusBlockedUntil =
        Instant.checkedAdd now (e.opts.minFocusThrottle defaults.focusThrottle) := by
  have hh := h
  rw [starts_broadcast] at hh
  refine ⟨fun till htill => ?_, ?_⟩
  · simp only [EntryCore.heeds, EntryCore.throttled, htill, Bool.and_eq_true] at hh
    obtain ⟨⟨⟨-, hopen⟩, -⟩, -⟩ := hh
    simpa using hopen
  · rw [KeyEvent.react, if_pos h, KeyEvent.apply, if_pos hh]
    rfl

/-- Only a `Focus` broadcast that starts a fetch moves the window, and it starts none while the window
is closed. -/
theorem KeyEvent.blocked_react (kev : KeyEvent V F) :
    (kev.react defaults now e).focusBlockedUntil = e.focusBlockedUntil ∨
      (kev = .broadcast .focus ∧ (∀ till, e.focusBlockedUntil = some till → till ≤ now) ∧
        (kev.react defaults now e).focusBlockedUntil =
          Instant.checkedAdd now (e.opts.minFocusThrottle defaults.focusThrottle)) := by
  have hreact : (kev.react defaults now e).focusBlockedUntil =
      (kev.apply defaults now e).focusBlockedUntil := by
    unfold KeyEvent.react
    split_ifs <;> rfl
  by_cases hb : ∃ ev, kev = .broadcast ev
  · obtain ⟨ev, rfl⟩ := hb
    by_cases hh : e.heeds defaults ev now = true
    · cases ev with
      | online =>
          rw [hreact]
          exact .inl (by simp only [KeyEvent.apply, hh, if_true]; rfl)
      | focus =>
          rw [← starts_broadcast] at hh
          exact .inr ⟨rfl, KeyEvent.blocked_focus hh⟩
    · rw [hreact]
      exact .inl (by simp only [KeyEvent.apply, hh]; rfl)
  · -- No other event writes to it.
    rw [hreact]
    refine .inl (KeyEvent.apply_frame
      (P := fun e' => e'.focusBlockedUntil = e.focusBlockedUntil) ?_ (fun _ => ?_) defaults now)
    · cases kev <;> rfl
    · intro _ _ _ _ _ _ _ _ _ _ b _ hmoved
      exact hmoved.resolve_right hb

end cell

namespace Shell

/-- The step is a `Focus` broadcast that starts a fetch of this incarnation of the key. -/
def Refocuses (k : QueryKey) (incarnation : Nat) (r : Trace.Record (Shell V F) (Call V F)) : Prop :=
  r.label.event = .broadcast .focus ∧ Refetches k incarnation r

theorem refocuses_of {k : QueryKey} {incarnation seq : Nat}
    {r : Trace.Record (Shell V F) (Call V F)} (hev : r.label.event = .broadcast .focus)
    (hf : Effect.flights r.label.out.effects = [⟨k, incarnation, seq⟩]) :
    Refocuses k incarnation r :=
  ⟨hev, seq, by rw [hf]; exact List.mem_singleton.mpr rfl⟩

/-- The end of the window stored in the entry under the key, if there is one. -/
def window (k : QueryKey) (s : Shell V F) : Option (Option Instant) :=
  (s.inner.entry k).map EntryCore.focusBlockedUntil

/-- The window of this incarnation of the key is closed until the instant, or longer. -/
def Barred (k : QueryKey) (incarnation : Nat) (till : Instant) (s : Shell V F) : Prop :=
  ∀ e, s.inner.entry k = some e → e.incarnation = incarnation →
    ∃ b, e.focusBlockedUntil = some b ∧ till ≤ b

section step

variable [Platform] {s s' : Shell V F} {c : Call V F} {k : QueryKey} {incarnation : Nat}
  {till : Instant}

theorem after_blocked (inner : Inner V F) (now : Instant) (k : QueryKey)
    (kev : KeyEvent V F) (e : EntryCore V F) :
    (inner.after now k kev e).focusBlockedUntil =
      (kev.react inner.defaults now e).focusBlockedUntil :=
  Inner.after_of (fun _ _ _ _ => rfl) k kev e

/-- The entry on which such a broadcast starts its fetch. -/
theorem Inv.refocused (h : s.Inv) (hs : Step s c s') (hr : Refocuses k incarnation ⟨s, c, s'⟩) :
    ∃ e, s.inner.entry k = some e ∧ e.incarnation = incarnation ∧
      s.inner.At c.event k (.broadcast .focus) e ∧
      (KeyEvent.broadcast .focus : KeyEvent V F).starts s.inner.defaults c.now e = true := by
  obtain ⟨hev, seq, hf⟩ := hr
  obtain ⟨fetcher, hx⟩ := Effect.mem_flights.mp hf
  obtain ⟨kev, e, hat, hst, hinc, -⟩ := (h.handled hs).startFetch hx
  have hon := hat.on
  rw [hev] at hon
  obtain rfl : KeyEvent.broadcast .focus = kev := Option.some.inj hon
  exact ⟨e, hat.subject, hinc.symm, hat, hst⟩

/-- Once closed, the window stays closed until its end. -/
theorem Inv.barred_step (h : s.Inv) (hs : Step s c s') (hlt : incarnation < s.inner.nextIncarnation)
    (hbar : Barred k incarnation till s) : Barred k incarnation till s' ∨ till ≤ c.now := by
  by_cases hpast : till ≤ c.now
  · exact .inr hpast
  refine .inl fun e' he' hinc => ?_
  rcases (h.handled hs).inversion he' with ⟨-, he⟩ | ⟨kev, e, hat, rfl⟩
  · exact hbar e' he hinc
  · have hinc' : e.incarnation = incarnation := (h.after hs hat).2.2.1.symm.trans hinc
    have hclosed : ∃ b, e.focusBlockedUntil = some b ∧ till ≤ b := by
      rcases (h.subject hat.subject).2.2.2 with he | ⟨-, rfl, -⟩
      · exact hbar e he hinc'
      · have hnew : s.inner.nextIncarnation = incarnation := hinc'
        omega
    obtain ⟨b, hb, hle⟩ := hclosed
    rw [after_blocked]
    rcases KeyEvent.blocked_react kev with hsame | ⟨-, hopen, -⟩
    · exact ⟨b, hsame.trans hb, hle⟩
    · exact absurd (Nat.le_trans hle (hopen b hb)) hpast

/-- An `Online` broadcast does not move the window. -/
theorem Inv.window_online (h : s.Inv) (hs : Step s c s') (hev : c.event = .broadcast .online)
    (k : QueryKey) : window k s' = window k s := by
  have hh := h.handled hs
  have hon : c.event.on k s.inner.nextSubId = some (.broadcast .online) := by
    rw [hev]
    rfl
  rw [window, window]
  cases he : s.inner.entry k with
  | none =>
      have hgone := (hh.gone hon fun e hsub => absurd (he.symm.trans hsub) nofun).1
      rw [hgone]
  | some e =>
      have hat : s.inner.At c.event k (.broadcast .online) e := ⟨hon, he, rfl⟩
      rw [hat.entry hh, Option.map_some, Option.map_some, after_blocked]
      rcases KeyEvent.blocked_react (.broadcast .online : KeyEvent V F) with hsame | ⟨hne, -⟩
      · rw [hsame]
      · cases hne

end step

section run

variable [Platform] {defaults : QueryOptions} {log : List (Trace.Record (Shell V F) (Call V F))}
  {s : Shell V F} {k : QueryKey} {incarnation : Nat}

/-- The window stays closed until its end, over any number of steps. -/
theorem Inv.barred_until {m : Shell V F} (hm : m.Inv) (hlt : incarnation < m.inner.nextIncarnation)
    {till : Instant} (hbar : Barred k incarnation till m)
    {ys : List (Trace.Record (Shell V F) (Call V F))} (hys : Trace.Run Step m ys s) :
    Barred k incarnation till s ∨ ∃ x ∈ ys, till ≤ x.label.now := by
  have hinv : s.Inv ∧ incarnation < s.inner.nextIncarnation ∧
      (Barred k incarnation till s ∨ ∃ x ∈ ys, till ≤ x.label.now) := by
    refine hys.history (P := fun ys s => s.Inv ∧ incarnation < s.inner.nextIncarnation ∧
      (Barred k incarnation till s ∨ ∃ x ∈ ys, till ≤ x.label.now)) ⟨hm, hlt, .inl hbar⟩ ?_
    rintro ys s c s' - ⟨hI, hlt, hstate⟩ hs
    have hnext := (hI.handled hs).nextIncarnation
    refine ⟨hI.step hs, by omega, ?_⟩
    rcases hstate with hbar | ⟨x, hx, hpast⟩
    · rcases hI.barred_step hs hlt hbar with hbar | hpast
      · exact .inl hbar
      · exact .inr ⟨_, List.mem_append_right _ (List.mem_singleton.mpr rfl), hpast⟩
    · exact .inr ⟨x, List.mem_append_left _ hx, hpast⟩
  exact hinv.2.2

/-- After a `Focus` broadcast that starts a fetch the window is closed for the least throttle that a
subscriber asks for, if its end is representable. -/
theorem barred_refocus (h : Run defaults log s) {c : Call V F} {s' : Shell V F}
    (hs : Step s c s') (hq : Refocuses k incarnation ⟨s, c, s'⟩) {d : Duration}
    (hd : Least QueryOptions.focusThrottle k d log) (hmax : c.now + d ≤ Platform.instantMax) :
    incarnation < s'.inner.nextIncarnation ∧ Barred k incarnation (c.now + d) s' := by
  have hI := inv_of_run h
  obtain ⟨e, he, rfl, hat, hst⟩ := hI.refocused hs hq
  refine ⟨(hI.after hs hat).2.2.2.2, fun e' he' _ => ⟨c.now + d, ?_, le_rfl⟩⟩
  have hleast : e.opts.minFocusThrottle s.inner.defaults.focusThrottle = d := by
    rw [EntryOptions.minFocusThrottle, (least_iff h he _ d).mpr hd, Option.getD_some]
  obtain rfl := Option.some.inj ((hat.entry (hI.handled hs)).symm.trans he')
  rw [after_blocked, (KeyEvent.blocked_focus hst).2, hleast, Instant.checkedAdd, if_pos hmax]

/-- **The spacing of focus revalidations.** Let two `Focus` broadcasts start a fetch of the same
incarnation of a key, and let `d` be the least throttle of the subscribers at the first. The second comes
no earlier than `d` after the first, whatever happens in between, with `Online` broadcasts that leave the
window as it is, if and only if the end of the window is representable. -/
theorem focus_spacing_iff (h : Run defaults log s)
    (hclock : log.Pairwise fun x y => x.label.now ≤ y.label.now)
    {xs ys zs : List (Trace.Record (Shell V F) (Call V F))}
    {q r : Trace.Record (Shell V F) (Call V F)} (hlog : log = xs ++ q :: (ys ++ r :: zs))
    (hq : Refocuses k incarnation q) (hr : Refocuses k incarnation r) {d : Duration}
    (hd : Least QueryOptions.focusThrottle k d xs) (hmax : r.label.now ≤ Platform.instantMax) :
    (q.label.now + d ≤ r.label.now ∧
      ∀ x ∈ ys, x.label.event = .broadcast .online → window k x.post = window k x.pre) ↔
        q.label.now + d ≤ Platform.instantMax := by
  subst hlog
  obtain ⟨hxs, hqs, hys, hrs, hbefore⟩ := h.between
  constructor
  · rintro ⟨hspaced, -⟩
    exact Nat.le_trans hspaced hmax
  intro hfits
  have hI := inv_of_run hxs
  have hIq := hI.step hqs
  refine ⟨?_, fun x hx hev => ?_⟩
  · obtain ⟨hlt, hbar⟩ := barred_refocus hxs hqs hq hd hfits
    rcases hIq.barred_until hlt hbar hys with hbar | ⟨x, hx, hpast⟩
    · obtain ⟨e, he, hinc, -, hst⟩ := (inv_of_run hbefore).refocused hrs hr
      obtain ⟨b, hb, hle⟩ := hbar e he hinc
      exact Nat.le_trans hle ((KeyEvent.blocked_focus hst).1 b hb)
    · have htail := (List.pairwise_append.mp hclock).2.1
      have horder := (List.pairwise_append.mp (List.pairwise_cons.mp htail).2).2.2
      exact Nat.le_trans hpast (horder x hx r List.mem_cons_self)
  · obtain ⟨as, bs, -, has, hs, -⟩ := hys.of_mem hx
    have hIx : x.pre.Inv := has.invariant hIq fun _ _ _ hi hs => hi.step hs
    exact hIx.window_online hs hev k

end run

section witness

attribute [local instance] Platform.timespec

/-- A subscriber with a focus throttle whose first fetch comes back, and a `Focus` broadcast whose fetch
comes back too; then some more events. -/
def focusRun (throttle : Duration) (more : List (Event Nat Unit × Instant × List QueryKey)) :
    List (Event Nat Unit × Instant × List QueryKey) :=
  let key : QueryKey := ⟨0, []⟩
  let opts := { QueryOptions.default with staleTime := 0, focusThrottle := throttle }
  [(.subscribe key (some ()) none opts, 0, []),
   (.commitOk key 0 1 5, 1, []),
   (.broadcast .focus, 2, [key]),
   (.commitOk key 0 2 6, 3, [])] ++ more

/-- A `Focus` broadcast inside the window, an `Online` broadcast whose fetch comes back, and a `Focus`
broadcast at the end of the window. -/
def spacedRun : List (Event Nat Unit × Instant × List QueryKey) :=
  let key : QueryKey := ⟨0, []⟩
  focusRun 5 [(.broadcast .focus, 4, [key]),
    (.broadcast .online, 5, [key]),
    (.commitOk key 0 3 7, 6, []),
    (.broadcast .focus, 7, [key])]

/-- A `Focus` broadcast right after the fetch of the first, for the longest throttle in whole seconds. -/
def hastyRun : List (Event Nat Unit × Instant × List QueryKey) :=
  focusRun (.fromSecs (2 ^ 64 - 1)) [(.broadcast .focus, 4, [⟨0, []⟩])]

/-- The two fetches are spaced as the subscriber asked. -/
theorem focus_spacing_iff_example : ∃ (a b q c x y z r : Trace.Record (Shell Nat Unit) (Call Nat Unit))
    (s : Shell Nat Unit), Run .default [a, b, q, c, x, y, z, r] s ∧ Refocuses ⟨0, []⟩ 0 q ∧
      Refocuses ⟨0, []⟩ 0 r ∧ Least QueryOptions.focusThrottle ⟨0, []⟩ 5 [a, b] ∧
        q.label.now + 5 ≤ r.label.now ∧ y.label.event = .broadcast .online ∧
          window ⟨0, []⟩ y.post = window ⟨0, []⟩ y.pre := by
  let key : QueryKey := ⟨0, []⟩
  have hobs : ((init .default : Shell Nat Unit).exec spacedRun).map (fun r =>
      (r.1.map (fun r => Effect.flights r.label.out.effects),
        r.1.map fun r => (r.pre.inner.entry key).map fun e =>
          (e.opts.values.map QueryOptions.focusThrottle).min?)) =
      some ([[⟨key, 0, 1⟩], [], [⟨key, 0, 2⟩], [], [], [⟨key, 0, 3⟩], [], [⟨key, 0, 4⟩]],
        [none, some (some 5), some (some 5), some (some 5), some (some 5), some (some 5),
          some (some 5), some (some 5)]) := by
    decide +kernel
  obtain ⟨⟨log, s⟩, hex, hobs⟩ := Option.map_eq_some_iff.mp hobs
  have hcalls := exec_calls hex
  have hrun : Run .default log s := run_of_exec hex
  have hclock : (log.map fun r => r.label.now).Pairwise fun t t' => t ≤ t' := by
    rw [exec_times hex]
    decide
  obtain ⟨a, log, rfl, -, hcalls⟩ := List.map_eq_cons_iff.mp hcalls
  obtain ⟨b, log, rfl, -, hcalls⟩ := List.map_eq_cons_iff.mp hcalls
  obtain ⟨q, log, rfl, hq, hcalls⟩ := List.map_eq_cons_iff.mp hcalls
  obtain ⟨c, log, rfl, -, hcalls⟩ := List.map_eq_cons_iff.mp hcalls
  obtain ⟨x, log, rfl, -, hcalls⟩ := List.map_eq_cons_iff.mp hcalls
  obtain ⟨y, log, rfl, hy, hcalls⟩ := List.map_eq_cons_iff.mp hcalls
  obtain ⟨z, log, rfl, -, hcalls⟩ := List.map_eq_cons_iff.mp hcalls
  obtain ⟨r, log, rfl, hr, hcalls⟩ := List.map_eq_cons_iff.mp hcalls
  obtain rfl := List.map_eq_nil_iff.mp hcalls
  simp only [Prod.mk.injEq] at hq hy hr
  simp only [List.map_cons, List.map_nil, List.cons.injEq, Prod.mk.injEq] at hobs
  obtain ⟨⟨-, -, hfq, -, -, -, -, hfr, -⟩, -, -, hleast, -⟩ := hobs
  have hq' : Refocuses key 0 q := refocuses_of hq.1 hfq
  have hr' : Refocuses key 0 r := refocuses_of hr.1 hfr
  obtain ⟨e, he, hmin⟩ := Option.map_eq_some_iff.mp hleast
  have hcut : [a, b, q, c, x, y, z, r] = [a, b] ++ q :: ([c, x, y, z] ++ r :: []) := rfl
  have hd : Least QueryOptions.focusThrottle key 5 [a, b] :=
    (least_iff (hcut ▸ hrun).middle.1 he _ 5).mp hmin
  have hmax : r.label.now ≤ Platform.instantMax := by
    rw [hr.2.1]
    decide
  have hfits : q.label.now + 5 ≤ Platform.instantMax := by
    rw [hq.2.1]
    decide
  obtain ⟨hspaced, honline⟩ :=
    (focus_spacing_iff hrun (List.pairwise_map.mp hclock) hcut hq' hr' hd hmax).mpr hfits
  exact ⟨a, b, q, c, x, y, z, r, s, hrun, hq', hr', hd, hspaced, hy.1, honline y (by simp) hy.1⟩

/-- **A throttle that throttles nothing.** The subscriber asks for the longest throttle; its end is not
representable, and the second `Focus` broadcast starts a fetch two nanoseconds after the first. -/
theorem unthrottled_focus : ∃ (a b q c r : Trace.Record (Shell Nat Unit) (Call Nat Unit))
    (s : Shell Nat Unit), Run .default [a, b, q, c, r] s ∧
      [a, b, q, c, r].Pairwise (fun x y => x.label.now ≤ y.label.now) ∧ Refocuses ⟨0, []⟩ 0 q ∧
        Refocuses ⟨0, []⟩ 0 r ∧
          Least QueryOptions.focusThrottle ⟨0, []⟩ (.fromSecs (2 ^ 64 - 1)) [a, b] ∧
            q.label.now = 2 ∧ r.label.now = 4 ∧
              ¬ q.label.now + Duration.fromSecs (2 ^ 64 - 1) ≤ r.label.now := by
  let key : QueryKey := ⟨0, []⟩
  let d := Duration.fromSecs (2 ^ 64 - 1)
  have hobs : ((init .default : Shell Nat Unit).exec hastyRun).map (fun r =>
      (r.1.map (fun r => Effect.flights r.label.out.effects),
        r.1.map fun r => (r.pre.inner.entry key).map fun e =>
          (e.opts.values.map QueryOptions.focusThrottle).min?)) =
      some ([[⟨key, 0, 1⟩], [], [⟨key, 0, 2⟩], [], [⟨key, 0, 3⟩]],
        [none, some (some d), some (some d), some (some d), some (some d)]) := by
    decide +kernel
  obtain ⟨⟨log, s⟩, hex, hobs⟩ := Option.map_eq_some_iff.mp hobs
  have hcalls := exec_calls hex
  have hrun : Run .default log s := run_of_exec hex
  have hclock : (log.map fun r => r.label.now).Pairwise fun t t' => t ≤ t' := by
    rw [exec_times hex]
    decide
  obtain ⟨a, log, rfl, -, hcalls⟩ := List.map_eq_cons_iff.mp hcalls
  obtain ⟨b, log, rfl, -, hcalls⟩ := List.map_eq_cons_iff.mp hcalls
  obtain ⟨q, log, rfl, hq, hcalls⟩ := List.map_eq_cons_iff.mp hcalls
  obtain ⟨c, log, rfl, -, hcalls⟩ := List.map_eq_cons_iff.mp hcalls
  obtain ⟨r, log, rfl, hr, hcalls⟩ := List.map_eq_cons_iff.mp hcalls
  obtain rfl := List.map_eq_nil_iff.mp hcalls
  simp only [Prod.mk.injEq] at hq hr
  simp only [List.map_cons, List.map_nil, List.cons.injEq, Prod.mk.injEq] at hobs
  obtain ⟨⟨-, -, hfq, -, hfr, -⟩, -, -, hleast, -⟩ := hobs
  obtain ⟨e, he, hmin⟩ := Option.map_eq_some_iff.mp hleast
  have hcut : [a, b, q, c, r] = [a, b] ++ q :: [c, r] := rfl
  refine ⟨a, b, q, c, r, s, hrun, List.pairwise_map.mp hclock, refocuses_of hq.1 hfq,
    refocuses_of hr.1 hfr, (least_iff (hcut ▸ hrun).middle.1 he _ _).mp hmin, hq.2.1, hr.2.1, ?_⟩
  rw [hq.2.1, hr.2.1]
  decide

end witness

end Shell

end SwrCore
