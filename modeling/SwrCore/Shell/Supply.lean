import SwrCore.Shell.Sharing

/-!
# The last supplier wins

Callers share an entry, and each may bring a fetcher and a comparator of its own. The entry keeps those
that were handed over last, for as long as it lives: a `StartFetch` carries the fetcher that the last
supplier of this incarnation brought, and a result is compared by the comparator that came last.

* `Event.fetcher?`, `Event.compareFor?` — what an event hands over to a key.
* `Shell.lastOffered` — what the latest step that had one handed over to an incarnation.
* `Shell.Remembers` — a field of the entries that holds it; `Shell.Remembers.of_run`.
* `Shell.last_supplier_wins` — the law over every run.
-/

set_option linter.unusedSectionVars false

namespace SwrCore

variable {V F α : Type}

/-! ## What events hand over -/

/-- The fetcher that the event hands over to the key. -/
def Event.fetcher? (k : QueryKey) : Event V F → Option F
  | .read key _ fetcher _ _ => if key = k then fetcher else none
  | .subscribe key fetcher _ _ => if key = k then fetcher else none
  | _ => none

/-- The comparator that the event hands over to the key. -/
def Event.compareFor? (k : QueryKey) : Event V F → Option (Compare V)
  | .read key _ _ compare _ => if key = k then compare else none
  | .subscribe key _ compare _ => if key = k then compare else none
  | _ => none

/-- The part of an event that reaches a key hands over what the event does. -/
theorem Event.supply_of_on {k : QueryKey} {subId : Nat} {ev : Event V F} {kev : KeyEvent V F}
    (h : ev.on k subId = some kev) :
    kev.fetcher? = ev.fetcher? k ∧ kev.compare? = ev.compareFor? k := by
  cases Event.on_inv h with
  | read => exact ⟨(if_pos rfl).symm, (if_pos rfl).symm⟩
  | subscribe => exact ⟨(if_pos rfl).symm, (if_pos rfl).symm⟩
  | _ => exact ⟨rfl, rfl⟩

/-- An event of other keys hands nothing over. -/
theorem Event.supply_of_off {k : QueryKey} {subId : Nat} {ev : Event V F}
    (h : ev.on k subId = none) : ev.fetcher? k = none ∧ ev.compareFor? k = none := by
  cases ev <;> simp_all [Event.on, Event.fetcher?, Event.compareFor?]

namespace Shell

/-! ## A field that the last supplier sets -/

/-- What the step hands over to this incarnation of the key. -/
def offered (g : QueryKey → Event V F → Option α) (k : QueryKey) (incarnation : Nat)
    (r : Trace.Record (Shell V F) (Call V F)) : Option α :=
  if (r.post.inner.entry k).map EntryCore.incarnation = some incarnation then
    g k r.label.event
  else none

/-- What the latest step that had something handed over to this incarnation of the key. -/
def lastOffered (g : QueryKey → Event V F → Option α) (k : QueryKey) (incarnation : Nat)
    (log : List (Trace.Record (Shell V F) (Call V F))) : Option α :=
  (log.filterMap (offered g k incarnation)).getLast?

/-- The latest step comes first, if it hands something over. -/
theorem lastOffered_snoc (g : QueryKey → Event V F → Option α) (k : QueryKey) (incarnation : Nat)
    (log : List (Trace.Record (Shell V F) (Call V F))) (r : Trace.Record (Shell V F) (Call V F)) :
    lastOffered g k incarnation (log ++ [r]) =
      (offered g k incarnation r).or (lastOffered g k incarnation log) := by
  unfold lastOffered
  rw [List.filterMap_append]
  cases h : offered g k incarnation r with
  | none => simp [h]
  | some d => simp [h]

/-- Some step handed it over, and no later one handed over anything. -/
theorem lastOffered_eq_some {g : QueryKey → Event V F → Option α} {k : QueryKey} {incarnation : Nat}
    {log : List (Trace.Record (Shell V F) (Call V F))} {x : α}
    (h : lastOffered g k incarnation log = some x) : ∃ as q bs, log = as ++ q :: bs ∧
      offered g k incarnation q = some x ∧ ∀ r ∈ bs, offered g k incarnation r = none := by
  induction log using List.reverseRecOn with
  | nil => cases h
  | append_singleton log r ih =>
      rw [lastOffered_snoc] at h
      cases hr : offered g k incarnation r with
      | some y =>
          rw [hr] at h
          exact ⟨log, r, [], rfl, hr.trans h, fun _ hx => absurd hx List.not_mem_nil⟩
      | none =>
          rw [hr, Option.none_or] at h
          obtain ⟨as, q, bs, rfl, hq, hbs⟩ := ih h
          refine ⟨as, q, bs ++ [r], by simp, hq, fun x hx => ?_⟩
          rcases List.mem_append.mp hx with hx | hx
          · exact hbs x hx
          · rw [List.mem_singleton.mp hx]
            exact hr

/-- A field of the entries that every event keeps, or sets to what it hands over. -/
structure Remembers [Platform] (get : EntryCore V F → Option α)
    (g : QueryKey → Event V F → Option α) : Prop where
  new : ∀ key incarnation, get (.new key incarnation) = none
  off : ∀ {k subId} {ev : Event V F}, ev.on k subId = none → g k ev = none
  after : ∀ {inner : Inner V F} {now k ev kev e}, ev.on k inner.nextSubId = some kev →
    get (inner.after now k kev e) = (g k ev).or (get e)

section run

variable [Platform] {defaults : QueryOptions} {log : List (Trace.Record (Shell V F) (Call V F))}
  {s : Shell V F} {get : EntryCore V F → Option α} {g : QueryKey → Event V F → Option α}

/-- **In every run** such a field is what was handed over last, and new incarnations were handed nothing. -/
theorem Remembers.of_run (hg : Remembers get g) (h : Run defaults log s) :
    (∀ k e, s.inner.entry k = some e → get e = lastOffered g k e.incarnation log) ∧
      ∀ k i, s.inner.nextIncarnation ≤ i → lastOffered g k i log = none := by
  refine h.history (P := fun log s =>
    (∀ k e, s.inner.entry k = some e → get e = lastOffered g k e.incarnation log) ∧
      ∀ k i, s.inner.nextIncarnation ≤ i → lastOffered g k i log = none) ⟨?_, fun _ _ _ => rfl⟩ ?_
  · intro k e he
    rw [init_entry] at he
    cases he
  rintro log s c s' hrun ⟨hstored, hfuture⟩ hs
  have hI := inv_of_run hrun
  have hI' := hI.step hs
  have hh := hI.handled hs
  refine ⟨fun k e' he' => ?_, fun k i hi => ?_⟩
  · have hmine : offered g k e'.incarnation ⟨s, c, s'⟩ = g k c.event := by
      rw [offered, if_pos]
      show (s'.inner.entry k).map EntryCore.incarnation = _
      rw [he']
      rfl
    rw [lastOffered_snoc, hmine]
    rcases hh.inversion he' with ⟨hoff, he⟩ | ⟨kev, e, hat, rfl⟩
    · rw [hg.off hoff, Option.none_or]
      exact hstored k e' he
    · rw [hg.after hat.on, (Inner.after_frame k kev e).2]
      rcases (hI.subject hat.subject).2.2.2 with he | ⟨-, rfl, -⟩
      · rw [hstored k e he]
      · -- A new entry remembers nothing, and nothing was handed over to its incarnation.
        rw [hg.new, show (EntryCore.new k s.inner.nextIncarnation : EntryCore V F).incarnation =
          s.inner.nextIncarnation from rfl, hfuture k _ le_rfl]
  · have hnext := hh.nextIncarnation
    have hnone : offered g k i ⟨s, c, s'⟩ = none := by
      rw [offered, if_neg]
      intro hinc
      obtain ⟨e', he', hinc⟩ := Option.map_eq_some_iff.mp hinc
      have hlt := hI'.incarnation k e' he'
      omega
    rw [lastOffered_snoc, hnone, Option.none_or]
    exact hfuture k i (by omega)

/-- The fetcher is such a field, … -/
theorem remembers_fetcher : Remembers (EntryCore.fetcher : EntryCore V F → Option F) Event.fetcher? where
  new _ _ := rfl
  off h := (Event.supply_of_off h).1
  after {inner now k ev kev e} h := by
    rw [Inner.after_of (f := EntryCore.fetcher) (fun _ _ _ _ => rfl),
      (KeyEvent.supply_react inner.defaults now e kev).1, (Event.supply_of_on h).1]

/-- … and the comparator is one. -/
theorem remembers_compare :
    Remembers (EntryCore.compare : EntryCore V F → Option (Compare V)) Event.compareFor? where
  new _ _ := rfl
  off h := (Event.supply_of_off h).2
  after {inner now k ev kev e} h := by
    rw [Inner.after_of (f := EntryCore.compare) (fun _ _ _ _ => rfl),
      (KeyEvent.supply_react inner.defaults now e kev).2, (Event.supply_of_on h).2]

/-- A fetch is started with the fetcher that its entry has afterwards. -/
theorem Inv.startFetch_fetcher {s s' : Shell V F} {c : Call V F} (h : s.Inv) (hs : Step s c s')
    {k : QueryKey} {incarnation seq : Nat} {fetcher : F}
    (hx : .startFetch k incarnation seq fetcher ∈ c.out.effects) :
    ∃ e, s'.inner.entry k = some e ∧ e.incarnation = incarnation ∧ e.fetcher = some fetcher := by
  have hh := h.handled hs
  obtain ⟨kev, e, hat, hmem⟩ := hh.effect hx
  obtain ⟨hst, -, hinc, -, hf⟩ :=
    Inner.startFetch_mem_marks.mp (Inner.startFetch_mem_batch.mp hmem)
  refine ⟨_, hat.entry hh, (Inner.after_frame k kev e).2.trans hinc.symm, ?_⟩
  rw [Inner.after_of (f := EntryCore.fetcher) (fun _ _ _ _ => rfl), KeyEvent.react, if_pos hst]
  exact hf

/-- **The last supplier wins.** In every run, a `StartFetch` carries the fetcher that was handed over last
to this incarnation of its key, by the step itself or before it. And a result that is awaited replaces the
data, unless the comparator that was handed over last takes the two for equal. -/
theorem last_supplier_wins (h : Run defaults log s)
    {xs ys : List (Trace.Record (Shell V F) (Call V F))} {r : Trace.Record (Shell V F) (Call V F)}
    (hlog : log = xs ++ r :: ys) :
    (∀ k incarnation seq fetcher, .startFetch k incarnation seq fetcher ∈ r.label.out.effects →
      ∃ as q bs, xs ++ [r] = as ++ q :: bs ∧
        offered Event.fetcher? k incarnation q = some fetcher ∧
          ∀ x ∈ bs, offered Event.fetcher? k incarnation x = none) ∧
    ∀ k incarnation seq value, r.label.event = .commitOk k incarnation seq value →
      Awaits ⟨k, incarnation, seq⟩ r.pre →
        ∃ e e', r.pre.inner.entry k = some e ∧ r.post.inner.entry k = some e' ∧ e'.dataSeq = seq ∧
          e'.data = if (lastOffered Event.compareFor? k incarnation xs).any
            (fun compare => e.data.any fun old => compare old value) then e.data else some value := by
  subst hlog
  obtain ⟨hxs, hstep, -⟩ := h.middle
  have hI := inv_of_run hxs
  constructor
  · intro k incarnation seq fetcher hx
    obtain ⟨e, he, rfl, hf⟩ := hI.startFetch_fetcher hstep hx
    exact lastOffered_eq_some (((remembers_fetcher.of_run (hxs.snoc hstep)).1 k e he).symm.trans hf)
  · rintro k incarnation seq value hev ⟨e, he, rfl, hflies⟩
    have hd : e.dropsCommit e.incarnation seq = false :=
      EntryCore.dropsCommit_eq_false.mpr
        ⟨rfl, ((hI.shape k e he).flying seq hflies).mutationActive, hflies⟩
    obtain ⟨e', he', hseq, hdata⟩ := hI.lands hstep hev he hd
    refine ⟨e, e', he, he', hseq, ?_⟩
    rw [hdata, EntryCore.unchanged, (remembers_compare.of_run hxs).1 k e he]

end run

section witness

attribute [local instance] exampleClock

/-- Two callers bring fetchers, one after the other, and the data is invalidated. -/
def rivals : List (Event Nat Nat × Instant × List QueryKey) :=
  let key : QueryKey := ⟨0, []⟩
  [(.subscribe key (some 1) none .default, 0, []),
   (.commitOk key 0 1 5, 1, []),
   (.read key .cacheOnly (some 2) (some fun _ _ => true) .default, 1, []),
   (.invalidate [], 2, [key])]

/-- The refetch is made by the fetcher that came last, although it came with a read from the cache. -/
theorem last_supplier_wins_example : ∃ (xs : List (Trace.Record (Shell Nat Nat) (Call Nat Nat)))
    (r : Trace.Record (Shell Nat Nat) (Call Nat Nat)) (s : Shell Nat Nat),
      Run .default (xs ++ [r]) s ∧ .startFetch ⟨0, []⟩ 0 2 2 ∈ r.label.out.effects ∧
        ∃ as q bs, xs ++ [r] = as ++ q :: bs ∧ offered Event.fetcher? ⟨0, []⟩ 0 q = some 2 ∧
          ∀ x ∈ bs, offered Event.fetcher? ⟨0, []⟩ 0 x = none := by
  let key : QueryKey := ⟨0, []⟩
  have hobs : ((init .default : Shell Nat Nat).exec rivals).map (fun r => r.1.map fun r =>
      (decide ((⟨key, 0, 2⟩ : Flight) ∈ Effect.flights r.label.out.effects),
        (r.post.inner.entry key).bind EntryCore.fetcher)) =
      some [(false, some 1), (false, some 1), (false, some 2), (true, some 2)] := by decide +kernel
  obtain ⟨⟨log, s⟩, hex, hobs⟩ := Option.map_eq_some_iff.mp hobs
  have hrun : Run .default log s := run_of_exec hex
  obtain ⟨a, log, rfl, -, hobs⟩ := List.map_eq_cons_iff.mp hobs
  obtain ⟨b, log, rfl, -, hobs⟩ := List.map_eq_cons_iff.mp hobs
  obtain ⟨c, log, rfl, -, hobs⟩ := List.map_eq_cons_iff.mp hobs
  obtain ⟨r, log, rfl, hr, hobs⟩ := List.map_eq_cons_iff.mp hobs
  obtain rfl := List.map_eq_nil_iff.mp hobs
  rw [Prod.mk.injEq, decide_eq_true_eq] at hr
  obtain ⟨fetcher, hx⟩ := Effect.mem_flights.mp hr.1
  obtain ⟨hxs, hstep, -⟩ : Run .default [a, b, c] r.pre ∧ Step r.pre r.label r.post ∧ _ :=
    Trace.Run.middle (show Run .default ([a, b, c] ++ r :: []) s from hrun)
  obtain ⟨e, he, -, hf⟩ := (inv_of_run hxs).startFetch_fetcher hstep hx
  obtain rfl : fetcher = 2 := by
    rw [show r.post.inner.entry key = some e from he, Option.bind_some, hf] at hr
    exact Option.some.inj hr.2
  obtain ⟨hlast, -⟩ := last_supplier_wins hrun (show [a, b, c, r] = [a, b, c] ++ r :: [] from rfl)
  exact ⟨[a, b, c], r, s, hrun, hx, hlast _ _ _ _ hx⟩

end witness

end Shell

end SwrCore
