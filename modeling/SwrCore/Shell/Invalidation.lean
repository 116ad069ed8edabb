import SwrCore.Shell.Flight

/-!
# Invalidations converge by starting a fetch

`invalidate` marks an entry stale. The mark outlives every event except two: a local write, whose
value is newer than the invalidation, and the start of a fetch, which takes the invalidation over.

* `Event.writes` — the local writes.
* `EntryCore.invalidated_apply` — no other event clears the mark.
* `Shell.FreshHit` — a read that is answered from the cache as fresh.
* `Shell.Converging` — the fate of a fetch that was started: awaited, applied, or discarded by a
  mutation.
* `Shell.fresh_after_invalidate` — after an invalidation, a fresh hit means that a local write was
  applied in between, or a fetch of the entry was started.
* `Shell.fresh_without_refetch` — the started fetch need not have succeeded.
-/

set_option linter.unusedSectionVars false

namespace SwrCore

variable {V F : Type}

/-- The event applies a local write to the key: a `MutateSet`, or a populating `MutateCommit`. -/
def Event.writes (k : QueryKey) : Event V F → Prop
  | .mutateSet key _ => key = k
  | .mutateCommit token (.ok (some _)) flags => token.key = k ∧ flags.populate = true
  | _ => False

/-- The event applies a local write to its key. -/
def KeyEvent.writes : KeyEvent V F → Prop
  | .mutateSet _ => True
  | .mutateCommit _ (.ok (some _)) flags => flags.populate = true
  | _ => False

theorem Event.writes_of_on {k : QueryKey} {subId : Nat} {ev : Event V F} {kev : KeyEvent V F}
    (h : ev.on k subId = some kev) (hw : kev.writes) : ev.writes k := by
  cases Event.on_inv h with
  | mutateSet => rfl
  | @mutateCommit token result flags hk =>
      rcases result with error | _ | value
      · exact hw.elim
      · exact hw.elim
      · exact ⟨hk, hw⟩
  | _ => exact hw.elim

/-! ## The mark of one entry -/

/-- Before any fetch it starts, an event that is no local write keeps the mark. -/
theorem EntryCore.invalidated_apply [Platform] {e : EntryCore V F} (hi : e.invalidated = true)
    (defaults : QueryOptions) (now : Instant) {kev : KeyEvent V F} (hw : ¬ kev.writes) :
    (kev.apply defaults now e).invalidated = true := by
  cases kev with
  | commitOk incarnation seq value =>
      simp only [KeyEvent.apply]
      split_ifs <;> exact hi
  | commitErr incarnation seq error =>
      simp only [KeyEvent.apply]
      split_ifs <;> exact hi
  | mutateSet value => exact absurd trivial hw
  | mutateBegin optimistic => cases optimistic <;> exact hi
  | mutateCommit token result flags =>
      rcases e.released.resolved_cases token result flags now with
        ⟨_, rfl, hp, -⟩ | ⟨_, _, _, _, _, h⟩
      · exact absurd hp hw
      · simp only [KeyEvent.apply, h]
        exact hi
  | mutateAbort token flags =>
      obtain ⟨_, _, _, _, _, h⟩ := e.released.rolledBack_eq token flags.rollbackOnError
      simp only [KeyEvent.apply, h]
      exact hi
  | invalidate =>
      simp only [KeyEvent.apply, EntryCore.dirtied]
      split_ifs <;> rfl
  | broadcast ev =>
      simp only [KeyEvent.apply, EntryCore.refocused]
      split_ifs <;> exact hi
  | _ => exact hi

/-- An invalidation sets the mark. -/
theorem EntryCore.invalidated_invalidate [Platform] (e : EntryCore V F) (defaults : QueryOptions)
    (now : Instant) :
    ((KeyEvent.invalidate : KeyEvent V F).apply defaults now e).invalidated = true := by
  simp only [KeyEvent.apply, EntryCore.dirtied]
  split_ifs <;> rfl

namespace Shell

/-! ## The mark over a run -/

/-- The record starts a fetch of this incarnation of the key. -/
def Refetches (k : QueryKey) (incarnation : Nat) (r : Trace.Record (Shell V F) (Call V F)) :
    Prop :=
  ∃ seq, ⟨k, incarnation, seq⟩ ∈ Effect.flights r.label.out.effects

/-- The entry of this incarnation of the key, if it is still there, is marked stale. -/
def Marked (k : QueryKey) (incarnation : Nat) (s : Shell V F) : Prop :=
  ∀ e, s.inner.entry k = some e → e.incarnation = incarnation → e.invalidated = true

/-- A read of this incarnation of the key that may not use a `CacheOnly` answer, and that finds data
it judges not stale. -/
def FreshHit [Platform] (k : QueryKey) (incarnation : Nat)
    (r : Trace.Record (Shell V F) (Call V F)) : Prop :=
  ∃ policy fetcher compare opts e,
    r.label.event = .read k policy fetcher compare opts ∧ policy ≠ .cacheOnly ∧
      r.pre.inner.entry k = some e ∧ e.incarnation = incarnation ∧ e.data.isSome ∧
      e.isStale opts.staleTime r.label.now = false

section step

variable [Platform] {s s' : Shell V F} {c : Call V F}

/-- A flight that starts in the entry is a refetch. -/
theorem refetches_of_starts (h : s.Inv) (hs : Step s c s') {k : QueryKey} {kev : KeyEvent V F}
    {e : EntryCore V F} (hat : s.inner.At c.event k kev e)
    (hst : kev.starts s.inner.defaults c.now e = true) :
    Refetches k e.incarnation ⟨s, c, s'⟩ := by
  obtain ⟨fetcher, hx⟩ := hat.startFetch (h.handled hs) hst
  exact ⟨_, Effect.mem_flights.mpr ⟨fetcher, hx⟩⟩

theorem after_invalidated (inner : Inner V F) (now : Instant) (k : QueryKey)
    (kev : KeyEvent V F) (e : EntryCore V F) :
    (inner.after now k kev e).invalidated = (kev.react inner.defaults now e).invalidated :=
  Inner.after_of (f := EntryCore.invalidated) (fun _ _ _ _ => rfl) k kev e

/-- A step that starts no fetch of the entry and is no local write keeps the mark. -/
theorem Inv.marked_step (h : s.Inv) (hs : Step s c s') {k : QueryKey} {incarnation : Nat}
    (hlt : incarnation < s.inner.nextIncarnation) (hmark : Marked k incarnation s)
    (hno : ¬ Refetches k incarnation ⟨s, c, s'⟩) (hw : ¬ c.event.writes k) :
    Marked k incarnation s' := by
  intro e' he' hinc
  rcases (h.handled hs).inversion he' with ⟨-, he⟩ | ⟨kev, e, hat, rfl⟩
  · exact hmark e' he hinc
  · have hinc' : e.incarnation = incarnation := (h.after hs hat).2.2.1.symm.trans hinc
    have hmarked : e.invalidated = true := by
      rcases (h.subject hat.subject).2.2.2 with he | ⟨-, rfl, -⟩
      · exact hmark e he hinc'
      · have hnew : s.inner.nextIncarnation = incarnation := hinc'
        omega
    have hst : kev.starts s.inner.defaults c.now e = false := by
      by_contra hst
      refine hno ?_
      rw [← hinc']
      exact refetches_of_starts h hs hat (Bool.eq_true_of_not_eq_false hst)
    rw [after_invalidated, KeyEvent.react, hst]
    exact EntryCore.invalidated_apply hmarked _ _ fun hk => hw (Event.writes_of_on hat.on hk)

/-- An invalidation marks a matching entry, or starts its refetch at once. -/
theorem Inv.marked_invalidate (h : s.Inv) (hs : Step s c s') {pre : List Segment}
    (hev : c.event = .invalidate pre) {k : QueryKey} (hp : k.matchesPrefix pre = true)
    {e : EntryCore V F} (he : s.inner.entry k = some e) :
    Refetches k e.incarnation ⟨s, c, s'⟩ ∨ Marked k e.incarnation s' := by
  have hon : c.event.on k s.inner.nextSubId = some .invalidate := by
    rw [hev]
    exact if_pos hp
  have hat : s.inner.At c.event k .invalidate e := ⟨hon, he, rfl⟩
  cases hst : (KeyEvent.invalidate : KeyEvent V F).starts s.inner.defaults c.now e with
  | true => exact .inl (refetches_of_starts h hs hat hst)
  | false =>
      refine .inr fun e' he' _ => ?_
      rw [hat.entry (h.handled hs)] at he'
      cases he'
      rw [after_invalidated, KeyEvent.react, hst]
      exact e.invalidated_invalidate s.inner.defaults c.now

end step

/-! ## What becomes of an invalidation -/

/-- A fetch of this incarnation of the key was started in the log, and it is still awaited in `s`, or
its result was applied, or a mutation discarded it. -/
def Converging (k : QueryKey) (incarnation : Nat)
    (log : List (Trace.Record (Shell V F) (Call V F))) (s : Shell V F) : Prop :=
  ∃ as r bs f, log = as ++ r :: bs ∧ f ∈ Effect.flights r.label.out.effects ∧ f.key = k ∧
    f.incarnation = incarnation ∧
    (Awaits f s ∨ ∃ x ∈ bs, Awaits f x.pre ∧
      (x.label.event.delivers f ∨ ∃ optimistic, x.label.event = .mutateBegin k optimistic))

section converging

variable [Platform] {s s' : Shell V F} {c : Call V F} {k : QueryKey} {incarnation : Nat}
  {log : List (Trace.Record (Shell V F) (Call V F))}

/-- After a refetch the entry converges. -/
theorem Inv.converging_of_refetches (h : s.Inv) (hs : Step s c s')
    (hr : Refetches k incarnation ⟨s, c, s'⟩)
    (log : List (Trace.Record (Shell V F) (Call V F))) :
    Converging k incarnation (log ++ [⟨s, c, s'⟩]) s' := by
  obtain ⟨seq, hf⟩ := hr
  exact ⟨log, _, [], ⟨k, incarnation, seq⟩, rfl, hf, rfl, rfl,
    .inl ((h.awaits_step hs _).mpr (.inl hf))⟩

/-- A started fetch stays accounted for, unless the event is a local write, or an invalidation that
marks the entry again. -/
theorem Inv.converging_step (h : s.Inv) (hs : Step s c s') (hcon : Converging k incarnation log s) :
    Converging k incarnation (log ++ [⟨s, c, s'⟩]) s' ∨ c.event.writes k ∨
      Marked k incarnation s' := by
  obtain ⟨as, r, bs, f, rfl, hf, hk, hinc, hstate⟩ := hcon
  have hextend : (Awaits f s' ∨ ∃ x ∈ bs ++ [⟨s, c, s'⟩], Awaits f x.pre ∧
      (x.label.event.delivers f ∨ ∃ optimistic, x.label.event = .mutateBegin k optimistic)) →
      Converging k incarnation (as ++ r :: bs ++ [⟨s, c, s'⟩]) s' :=
    fun hstate => ⟨as, r, bs ++ [⟨s, c, s'⟩], f, by simp, hf, hk, hinc, hstate⟩
  rcases hstate with ha | ⟨x, hx, hax, hend⟩
  · by_cases hd : c.event.delivers f
    · exact .inl (hextend (.inr ⟨⟨s, c, s'⟩, by simp, ha, .inl hd⟩))
    by_cases hi : c.event.interrupts k
    · cases hev : c.event <;> rw [hev] at hi
      case mutateSet key value => exact .inr (.inl hi)
      case mutateBegin key optimistic =>
        obtain rfl : key = k := hi
        exact .inl (hextend (.inr ⟨⟨s, c, s'⟩, by simp, ha, .inr ⟨optimistic, hev⟩⟩))
      case invalidate pre =>
        obtain ⟨e, he, hinc', -⟩ := ha
        rw [hk] at he
        have hsame : e.incarnation = incarnation := hinc'.trans hinc
        rcases h.marked_invalidate hs hev hi he with hr | hm
        · exact .inl (h.converging_of_refetches hs (hsame ▸ hr) _)
        · exact .inr (.inr (hsame ▸ hm))
      all_goals exact hi.elim
    · refine .inl (hextend (.inl ((h.awaits_step hs f).mpr (.inr ⟨ha, ?_⟩))))
      rw [hk]
      exact not_or.mpr ⟨hd, hi⟩
  · exact .inl (hextend (.inr ⟨x, List.mem_append_left _ hx, hax, hend⟩))

end converging

/-! ## No invalidation is lost before a fetch is started -/

section run

variable [Platform] {defaults : QueryOptions} {log : List (Trace.Record (Shell V F) (Call V F))}
  {s : Shell V F}

/-- After an invalidation, the entry is marked, or a local write or a started fetch took the mark. -/
theorem Inv.invalidation_accounted {i : Trace.Record (Shell V F) (Call V F)} (h : i.pre.Inv)
    (hi : Step i.pre i.label i.post) {pre : List Segment} (hev : i.label.event = .invalidate pre)
    {k : QueryKey} (hp : k.matchesPrefix pre = true) {e : EntryCore V F}
    (he : i.pre.inner.entry k = some e) (hrun : Trace.Run Step i.post log s) :
    s.Inv ∧ e.incarnation < s.inner.nextIncarnation ∧
      (Marked k e.incarnation s ∨ (∃ r ∈ log, r.label.event.writes k) ∨
        Converging k e.incarnation (i :: log) s) := by
  refine hrun.history (P := fun log s => s.Inv ∧ e.incarnation < s.inner.nextIncarnation ∧
    (Marked k e.incarnation s ∨ (∃ r ∈ log, r.label.event.writes k) ∨
      Converging k e.incarnation (i :: log) s)) ⟨h.step hi, ?_, ?_⟩ ?_
  · have h₁ := h.incarnation k e he
    have h₂ := (h.handled hi).nextIncarnation
    omega
  · rcases h.marked_invalidate hi hev hp he with hr | hm
    · exact .inr (.inr (h.converging_of_refetches hi hr []))
    · exact .inl hm
  · rintro log s c s' - ⟨hI, hlt, hacc⟩ hs
    refine ⟨hI.step hs, ?_, ?_⟩
    · have := (hI.handled hs).nextIncarnation
      omega
    by_cases hw : c.event.writes k
    · exact .inr (.inl ⟨⟨s, c, s'⟩, by simp, hw⟩)
    rcases hacc with hm | ⟨r, hr, hrw⟩ | hcon
    · by_cases hr : Refetches k e.incarnation ⟨s, c, s'⟩
      · exact .inr (.inr (hI.converging_of_refetches hs hr (i :: log)))
      · exact .inl (hI.marked_step hs hlt hm hr hw)
    · exact .inr (.inl ⟨r, List.mem_append_left _ hr, hrw⟩)
    · rcases hI.converging_step hs hcon with hcon | hw' | hm
      · exact .inr (.inr hcon)
      · exact absurd hw' hw
      · exact .inl hm

/-- **Fresh data after an invalidation.** Let an invalidation match an entry, and let a later read of
the same incarnation be answered as a fresh hit. Then a local write was applied to the key in
between, or a fetch of the entry was started at the invalidation or after it which is still in
flight, has had its result applied, or was discarded by a mutation. -/
theorem fresh_after_invalidate (h : Run defaults log s)
    {xs ys zs : List (Trace.Record (Shell V F) (Call V F))}
    {i j : Trace.Record (Shell V F) (Call V F)} (hlog : log = xs ++ i :: (ys ++ j :: zs))
    {pre : List Segment} (hi : i.label.event = .invalidate pre) {k : QueryKey}
    (hp : k.matchesPrefix pre = true) {e : EntryCore V F} (he : i.pre.inner.entry k = some e)
    (hj : FreshHit k e.incarnation j) :
    (∃ r ∈ ys, r.label.event.writes k) ∨ Converging k e.incarnation (i :: ys) j.pre := by
  subst hlog
  obtain ⟨hxs, hstep, hrest⟩ := h.middle
  obtain ⟨hys, -, -⟩ := hrest.middle
  obtain ⟨-, -, hacc⟩ := (inv_of_run hxs).invalidation_accounted hstep hi hp he hys
  refine hacc.resolve_left fun hmark => ?_
  obtain ⟨policy, fetcher, compare, opts, e', -, -, he', hinc, -, hfresh⟩ := hj
  rw [EntryCore.isStale, hmark e' he' hinc] at hfresh
  cases hfresh

end run

section witness

attribute [local instance] exampleClock

/-- A subscription and its fetch, an invalidation that starts a refetch, the failure of the refetch,
and a read inside the stale time of the first fetch. -/
def failedRefetch : List (Event Nat Unit × Instant × List QueryKey) :=
  let key : QueryKey := ⟨0, []⟩
  [(.subscribe key (some ()) none .default, 0, []),
   (.commitOk key 0 1 5, 1, []),
   (.invalidate [], 2, [key]),
   (.commitErr key 0 2 9, 3, []),
   (.read key .ensureFresh (some ()) none .default, 4, [])]

/-- The records of the run, and its fresh hit. -/
theorem failedRefetch_runs : ∃ (a b i y j : Trace.Record (Shell Nat Unit) (Call Nat Unit))
    (s : Shell Nat Unit) (e : EntryCore Nat Unit), Run .default [a, b, i, y, j] s ∧
      i.label.event = .invalidate [] ∧ y.label.event = .commitErr ⟨0, []⟩ 0 2 9 ∧
      i.pre.inner.entry ⟨0, []⟩ = some e ∧ FreshHit ⟨0, []⟩ e.incarnation j := by
  let key : QueryKey := ⟨0, []⟩
  have hobs : ((init .default : Shell Nat Unit).exec failedRefetch).map (fun r => r.1.map fun r =>
      (r.pre.inner.entry key).map fun e =>
        (e.incarnation, e.data, e.isStale QueryOptions.default.staleTime r.label.now)) =
      some [none, some (0, none, true), some (0, some 5, false), some (0, some 5, false),
        some (0, some 5, false)] := by decide +kernel
  obtain ⟨⟨log, s⟩, hex, hobs⟩ := Option.map_eq_some_iff.mp hobs
  have hcalls := exec_calls hex
  have hrun : Run .default log s := run_of_exec hex
  obtain ⟨a, log, rfl, -, hcalls⟩ := List.map_eq_cons_iff.mp hcalls
  obtain ⟨b, log, rfl, -, hcalls⟩ := List.map_eq_cons_iff.mp hcalls
  obtain ⟨i, log, rfl, hi, hcalls⟩ := List.map_eq_cons_iff.mp hcalls
  obtain ⟨y, log, rfl, hy, hcalls⟩ := List.map_eq_cons_iff.mp hcalls
  obtain ⟨j, log, rfl, hj, hcalls⟩ := List.map_eq_cons_iff.mp hcalls
  obtain rfl := List.map_eq_nil_iff.mp hcalls
  simp only [List.map_cons, List.map_nil, List.cons.injEq, Prod.mk.injEq] at hobs hi hy hj
  obtain ⟨-, -, hei, -, hej, -⟩ := hobs
  obtain ⟨ei, hei, hei'⟩ := Option.map_eq_some_iff.mp hei
  obtain ⟨ej, hej, hej'⟩ := Option.map_eq_some_iff.mp hej
  simp only [Prod.mk.injEq] at hei' hej'
  refine ⟨a, b, i, y, j, s, ei, hrun, hi.1, hy.1, hei, _, _, _, _, ej, hj.1, nofun, hej, ?_, ?_, ?_⟩
  · exact hej'.1.trans hei'.1.symm
  · rw [hej'.2.1]
    rfl
  · exact hej'.2.2

/-- **The started fetch need not succeed.** After an invalidation, the failure of the refetch leaves
the data that predates it fresh: a read is answered with it, although no fetch came back with a value
and nothing was written locally. -/
theorem fresh_without_refetch : ∃ (log : List (Trace.Record (Shell Nat Unit) (Call Nat Unit)))
    (s : Shell Nat Unit) (xs ys zs : List (Trace.Record (Shell Nat Unit) (Call Nat Unit)))
    (i j : Trace.Record (Shell Nat Unit) (Call Nat Unit)) (e : EntryCore Nat Unit),
    Run .default log s ∧ log = xs ++ i :: (ys ++ j :: zs) ∧ i.label.event = .invalidate [] ∧
      i.pre.inner.entry ⟨0, []⟩ = some e ∧ FreshHit ⟨0, []⟩ e.incarnation j ∧
      ∀ r ∈ ys, ¬ r.label.event.writes ⟨0, []⟩ ∧
        ∀ incarnation seq value, r.label.event ≠ .commitOk ⟨0, []⟩ incarnation seq value := by
  obtain ⟨a, b, i, y, j, s, e, hrun, hi, hy, he, hj⟩ := failedRefetch_runs
  refine ⟨_, s, [a, b], [y], [], i, j, e, hrun, rfl, hi, he, hj, fun r hr => ?_⟩
  rw [List.mem_singleton.mp hr, hy]
  exact ⟨id, nofun⟩

theorem fresh_after_invalidate_example : ∃ (i y j : Trace.Record (Shell Nat Unit) (Call Nat Unit))
    (e : EntryCore Nat Unit), i.label.event = .invalidate [] ∧
      i.pre.inner.entry ⟨0, []⟩ = some e ∧ FreshHit ⟨0, []⟩ e.incarnation j ∧
      ((∃ r ∈ [y], r.label.event.writes ⟨0, []⟩) ∨
        Converging ⟨0, []⟩ e.incarnation [i, y] j.pre) := by
  obtain ⟨a, b, i, y, j, s, e, hrun, hi, -, he, hj⟩ := failedRefetch_runs
  have hcut : [a, b, i, y, j] = [a, b] ++ i :: ([y] ++ j :: []) := rfl
  exact ⟨i, y, j, e, hi, he, hj, fresh_after_invalidate hrun hcut hi rfl he hj⟩

end witness

end Shell

end SwrCore
