import SwrCore.Shell.Invalidation
import SwrCore.Shell.OneFlight
import SwrCore.Shell.Rollback
import SwrCore.Shell.Subscribers
import SwrCore.Shell.Writes

/-!
# The freshness window

An authoritative write dates the entry. For each `stale_time` this opens a window, in which callers
who ask for this freshness are answered from the cache and start nothing. Callers with different
stale times share the entry, and their flights come and go without moving anybody's window.

* `Within` — a time in the window; a deadline that is not representable never passes.
* `EntryCore.Stamped` — the entry keeps its data since a write at this time.
* `EntryCore.Stamped.react` — every event but a write and an invalidation keeps it so.
* `Shell.Undisturbed` — the steps that leave the window alone.
* `Shell.freshness_window` — what readers, subscribers and broadcasts find inside and after the window.
-/

set_option linter.unusedSectionVars false

namespace SwrCore

variable {V F : Type}

/-! ## The window of one entry -/

/-- The time is in the window of length `d` opened at `t`. -/
def Within [Platform] (t : Instant) (d : Duration) (now : Instant) : Prop :=
  now < t + d ∨ Platform.instantMax < t + d

theorem not_within_iff [Platform] {t : Instant} {d : Duration} {now : Instant} :
    ¬ Within t d now ↔ t + d ≤ Platform.instantMax ∧ t + d ≤ now := by
  rw [Within, not_or, Nat.not_lt, Nat.not_lt, and_comm]

/-- A deadline has passed exactly outside the window. -/
theorem checkedAdd_any [Platform] (t : Instant) (d : Duration) (now : Instant) :
    ((Instant.checkedAdd t d).any fun deadline => decide (deadline ≤ now)) = true ↔
      ¬ Within t d now := by
  rw [not_within_iff, Instant.checkedAdd]
  split_ifs with h
  · simp [h]
  · simp [h]

/-- The entry holds the value that an authoritative write left at time `t`, with no rollback slot that
could take it back. -/
structure EntryCore.Stamped (value : V) (t : Instant) (e : EntryCore V F) : Prop where
  data : e.data = some value
  updatedAt : e.updatedAt = some t
  valid : e.invalidated = false
  slot : e.optimistic = none

section cell

variable [Platform] {defaults : QueryOptions} {now t : Instant} {e : EntryCore V F} {v : V}
  {kev : KeyEvent V F}

/-- A stamped entry is stale exactly outside the window. -/
theorem EntryCore.Stamped.isStale (h : e.Stamped v t) (d : Duration) (now : Instant) :
    e.isStale d now = true ↔ ¬ Within t d now := by
  rw [EntryCore.isStale, h.valid, h.updatedAt, Bool.false_or, Option.all_some, checkedAdd_any]

theorem EntryCore.Stamped.fresh (h : e.Stamped v t) {d : Duration} (hd : Within t d now) :
    e.isStale d now = false :=
  Bool.eq_false_of_not_eq_true fun hstale => (h.isStale d now).mp hstale hd

/-- With the slot free no mutation rolls anything back. -/
theorem EntryCore.foreign_of_free (h : e.optimistic = none) (token : MutationToken) :
    e.ownsSlot token = false := by
  rw [EntryCore.ownsSlot, h, Option.any_none]

/-- Before any fetch it starts, an event that neither writes nor invalidates keeps the stamp. -/
theorem EntryCore.Stamped.apply (h : e.Stamped v t) (hw : kev.write? now e = none)
    (hi : kev ≠ .invalidate) : (kev.apply defaults now e).Stamped v t := by
  have hrel : e.released.Stamped v t := ⟨h.data, h.updatedAt, h.valid, h.slot⟩
  have hfree := EntryCore.foreign_of_free hrel.slot
  cases kev with
  | commitOk incarnation seq value =>
      by_cases hd : e.dropsCommit incarnation seq = true
      · rw [KeyEvent.apply, if_pos hd]
        exact h
      · simp [KeyEvent.write?, hd] at hw
  | commitErr incarnation seq error =>
      simp only [KeyEvent.apply]
      split_ifs
      · exact h
      · exact ⟨h.data, h.updatedAt, h.valid, h.slot⟩
  | mutateSet value => cases hw
  | mutateBegin optimistic =>
      cases optimistic with
      | none => exact ⟨h.data, h.updatedAt, h.valid, h.slot⟩
      | some value => cases hw
  | mutateCommit token result flags =>
      simp only [KeyEvent.apply]
      rcases result with error | _ | value
      · have hforeign : ({ e.released with error := some error } : EntryCore V F).ownsSlot token =
            false := hfree token
        rw [EntryCore.resolved, (EntryCore.rolledBack_of_foreign hforeign _).2]
        exact ⟨h.data, h.updatedAt, h.valid, h.slot⟩
      · rw [EntryCore.resolved, (EntryCore.rolledBack_of_foreign (hfree token) true).1]
        exact hrel
      · by_cases hp : flags.populate = true
        · simp [KeyEvent.write?, hp] at hw
        · rw [EntryCore.resolved, if_neg hp, (EntryCore.rolledBack_of_foreign (hfree token) true).1]
          exact hrel
  | mutateAbort token flags =>
      simp only [KeyEvent.apply]
      rw [(EntryCore.rolledBack_of_foreign (hfree token) _).2]
      exact hrel
  | invalidate => exact absurd rfl hi
  | broadcast ev =>
      simp only [KeyEvent.apply, EntryCore.refocused]
      split_ifs <;> exact ⟨h.data, h.updatedAt, h.valid, h.slot⟩
  | _ => exact ⟨h.data, h.updatedAt, h.valid, h.slot⟩

/-- The fetch that an event starts keeps the stamp. -/
theorem EntryCore.Stamped.started (h : e.Stamped v t) : e.started.Stamped v t :=
  ⟨h.data, h.updatedAt, rfl, h.slot⟩

/-- So do the post-rules. -/
theorem EntryCore.Stamped.settled (h : e.Stamped v t) (now : Instant) (m : Marks V F) :
    (e.settled now m).Stamped v t := by
  obtain ⟨_, _, _, heq⟩ := e.settled_eq now m
  rw [heq]
  exact ⟨h.data, h.updatedAt, h.valid, h.slot⟩

/-- **What keeps the window.** Every event that neither writes nor invalidates. -/
theorem EntryCore.Stamped.react (h : e.Stamped v t) (hw : kev.write? now e = none)
    (hi : kev ≠ .invalidate) : (kev.react defaults now e).Stamped v t := by
  unfold KeyEvent.react
  split_ifs
  · exact (h.apply hw hi).started
  · exact h.apply hw hi

/-- **What opens the window.** An authoritative write stamps the entry with its time. -/
theorem KeyEvent.stamped_of_write {w : Write V} (hsafe : kev.Safe e)
    (hw : kev.write? now e = some w) (ha : w.authoritative = true) :
    ∃ v, (kev.react defaults now e).Stamped v now := by
  suffices happly : ∃ v, (kev.apply defaults now e).Stamped v now by
    obtain ⟨v, hv⟩ := happly
    refine ⟨v, ?_⟩
    unfold KeyEvent.react
    split_ifs
    · exact hv.started
    · exact hv
  unfold KeyEvent.write? at hw
  split at hw
  · rename_i incarnation seq value
    split_ifs at hw with hd
    have hvalid := (hsafe (Bool.eq_false_of_not_eq_true hd)).2
    simp only [KeyEvent.apply, hd]
    -- Structural sharing keeps a value that is there.
    by_cases hu : e.unchanged value = true
    · obtain ⟨compare, -, heq⟩ := (Option.any_eq_true _ _).mp hu
      obtain ⟨old, hold, -⟩ := (Option.any_eq_true _ _).mp heq
      exact ⟨old, (if_pos hu).trans hold, rfl, hvalid, rfl⟩
    · exact ⟨value, if_neg hu, rfl, hvalid, rfl⟩
  · exact ⟨_, rfl, rfl, rfl, rfl⟩
  · cases hw
    cases ha
  · split_ifs at hw with hp
    simp only [KeyEvent.apply, EntryCore.resolved, hp, if_true]
    exact ⟨_, rfl, rfl, rfl, rfl⟩
  · cases hw

end cell

/-- The event is an invalidation that matches the key. -/
def Event.invalidates (k : QueryKey) : Event V F → Prop
  | .invalidate pre => k.matchesPrefix pre = true
  | _ => False

theorem Event.invalidates_of_on {k : QueryKey} {subId : Nat} {ev : Event V F}
    (h : ev.on k subId = some .invalidate) : ev.invalidates k := by
  cases Event.on_inv h with
  | invalidate hk => exact hk

namespace Shell

/-! ## The window over a run -/

/-- The key has an entry that keeps this value since a write at this time. -/
def Window (k : QueryKey) (value : V) (t : Instant) (s : Shell V F) : Prop :=
  ∃ e, s.inner.entry k = some e ∧ e.Stamped value t

/-- The step writes nothing into the key, does not invalidate it, and leaves it with an entry. -/
structure Undisturbed (k : QueryKey) (r : Trace.Record (Shell V F) (Call V F)) : Prop where
  unwritten : ∀ incarnation w, ¬ Writes k incarnation r w
  valid : ¬ r.label.event.invalidates k
  kept : r.post.inner.entry k ≠ none

theorem undisturbed_of_on {k : QueryKey} {r : Trace.Record (Shell V F) (Call V F)}
    {kev : KeyEvent V F} (hon : r.label.event.on k r.pre.inner.nextSubId = some kev)
    (hw : ∀ e, kev.write? r.label.now e = none) (hi : ¬ r.label.event.invalidates k)
    (hkept : r.post.inner.entry k ≠ none) : Undisturbed k r := by
  refine ⟨?_, hi, hkept⟩
  rintro incarnation w ⟨kev', e, hat, -, hw'⟩
  obtain rfl : kev = kev' := Option.some.inj (hon.symm.trans hat.on)
  rw [hw e] at hw'
  cases hw'

section step

variable [Platform] {s s' : Shell V F} {c : Call V F} {k : QueryKey} {v : V} {t : Instant}

/-- A step starts a fetch of the key exactly if the event does. -/
theorem Inv.flight_iff (h : s.Inv) (hs : Step s c s') {kev : KeyEvent V F} {e : EntryCore V F}
    (hat : s.inner.At c.event k kev e) :
    (∃ f ∈ Effect.flights c.out.effects, f.key = k) ↔
      kev.starts s.inner.defaults c.now e = true := by
  constructor
  · rintro ⟨f, hf, rfl⟩
    obtain ⟨fetcher, hx⟩ := Effect.mem_flights.mp hf
    obtain ⟨kev', e', hat', hst, -, -⟩ := (h.handled hs).startFetch hx
    obtain ⟨rfl, rfl⟩ := hat.unique hat'
    exact hst
  · intro hst
    obtain ⟨fetcher, hx⟩ := hat.startFetch (h.handled hs) hst
    have hf : (⟨k, e.incarnation, _⟩ : Flight) ∈ Effect.flights c.out.effects :=
      Effect.mem_flights.mpr ⟨fetcher, hx⟩
    exact ⟨_, hf, rfl⟩

/-- An event that is addressed to one key and starts no fetch of it starts none at all. -/
theorem Inv.no_flights (h : s.Inv) (hs : Step s c s') {kev : KeyEvent V F} {e : EntryCore V F}
    (hat : s.inner.At c.event k kev e) (hk : c.event.key? = some k)
    (hst : kev.starts s.inner.defaults c.now e = false) : Effect.flights c.out.effects = [] := by
  rw [List.eq_nil_iff_forall_not_mem]
  intro f hf
  obtain ⟨fetcher, hx⟩ := Effect.mem_flights.mp hf
  obtain ⟨kev', e', hat', -, -, -⟩ := (h.handled hs).startFetch hx
  have hkey : k = f.key := Event.on_key hk hat'.on
  rw [(h.flight_iff hs hat).mp ⟨f, hf, hkey.symm⟩] at hst
  cases hst

/-- An authoritative write opens the window at its time. -/
theorem Inv.window_opens (h : s.Inv) (hs : Step s c s') {incarnation : Nat} {w : Write V}
    (hw : Writes k incarnation ⟨s, c, s'⟩ w) (ha : w.authoritative = true) :
    ∃ v, Window k v c.now s' := by
  obtain ⟨kev, e, hat, -, hw⟩ := hw
  have hat : s.inner.At c.event k kev e := hat
  obtain ⟨v, hv⟩ : ∃ v, (kev.react s.inner.defaults c.now e).Stamped v c.now :=
    KeyEvent.stamped_of_write (h.safe hs hat) hw ha
  refine ⟨v, _, hat.entry (h.handled hs), ?_⟩
  exact hv.settled _ _

/-- A step that leaves the window alone keeps it. -/
theorem Inv.window_step (h : s.Inv) (hs : Step s c s') (hw : Window k v t s)
    (hq : Undisturbed k ⟨s, c, s'⟩) : Window k v t s' := by
  obtain ⟨e, he, hstamp⟩ := hw
  obtain ⟨e', he'⟩ := Option.ne_none_iff_exists'.mp hq.kept
  refine ⟨e', he', ?_⟩
  rcases (h.handled hs).inversion he' with ⟨-, hsame⟩ | ⟨kev, e₀, hat, rfl⟩
  · obtain rfl : e = e' := Option.some.inj (he.symm.trans hsame)
    exact hstamp
  · obtain rfl := hat.of_entry he
    have hno : kev.write? c.now e₀ = none := by
      rw [Option.eq_none_iff_forall_ne_some]
      intro w hw
      exact hq.unwritten _ w ⟨kev, e₀, hat, rfl, hw⟩
    have hi : kev ≠ .invalidate := by
      rintro rfl
      exact hq.valid (Event.invalidates_of_on hat.on)
    have hreact : (kev.react s.inner.defaults c.now e₀).Stamped v t := hstamp.react hno hi
    exact hreact.settled _ _

/-- A read of a key with an entry acts on this entry. -/
theorem read_at {policy : ReadPolicy} {fetcher : Option F} {compare : Option (Compare V)}
    {opts : QueryOptions} (hev : c.event = .read k policy fetcher compare opts)
    {e : EntryCore V F} (he : s.inner.entry k = some e) :
    s.inner.At c.event k (.read policy fetcher compare opts) e := by
  refine ⟨by rw [hev]; exact if_pos rfl, ?_, rfl⟩
  rw [Inner.subject, he]
  split_ifs <;> rfl

/-- **A read in the window** is answered with the value, and starts nothing. -/
theorem Inv.read_within (h : s.Inv) (hs : Step s c s') (hw : Window k v t s) {policy : ReadPolicy}
    {fetcher : Option F} {compare : Option (Compare V)} {opts : QueryOptions}
    (hev : c.event = .read k policy fetcher compare opts) (hp : policy ≠ .cacheOnly)
    (hd : Within t opts.staleTime c.now) :
    (∃ sn, c.out.outcome = .read (.ready sn) ∧ sn.data = some v) ∧
      Effect.flights c.out.effects = [] := by
  obtain ⟨e, he, hstamp⟩ := hw
  have hat := read_at hev he
  have hfresh := hstamp.fresh hd
  have hout := (h.handled hs).outcome k _ hat.on
  rw [Inner.answer, hat.subject, Option.elim_some, KeyEvent.outcome, hfresh] at hout
  have hsome : (e.served fetcher compare opts).data.isSome = true := by
    rw [show (e.served fetcher compare opts).data = e.data from rfl, hstamp.data]
    rfl
  constructor
  · refine ⟨(e.served fetcher compare opts).snapshotNow, ?_, hstamp.data⟩
    rw [hout]
    cases policy with
    | cacheOnly => exact absurd rfl hp
    | staleWhileRevalidate => rw [KeyEvent.readOutcome, hsome]; rfl
    | ensureFresh => rw [KeyEvent.readOutcome, hsome]; rfl
  · refine h.no_flights hs hat (by rw [hev]; rfl) ?_
    simp [KeyEvent.starts, KeyEvent.wants, hfresh, hstamp.data]

/-- **A subscription in the window** starts nothing. -/
theorem Inv.subscribe_within (h : s.Inv) (hs : Step s c s') (hw : Window k v t s)
    {fetcher : Option F} {compare : Option (Compare V)} {opts : QueryOptions}
    (hev : c.event = .subscribe k fetcher compare opts) (hd : Within t opts.staleTime c.now) :
    Effect.flights c.out.effects = [] := by
  obtain ⟨e, he, hstamp⟩ := hw
  have hat : s.inner.At c.event k (.subscribe s.inner.nextSubId fetcher compare opts) e := by
    refine ⟨by rw [hev]; exact if_pos rfl, ?_, rfl⟩
    rw [Inner.subject, he]
    rfl
  refine h.no_flights hs hat (by rw [hev]; rfl) ?_
  simp [KeyEvent.starts, KeyEvent.wants, hstamp.fresh hd, hstamp.data]

/-- **A broadcast in the window** of the least stale time starts no fetch of the key. -/
theorem Inv.broadcast_within (h : s.Inv) (hs : Step s c s') (hw : Window k v t s) {ev : SwrEvent}
    (hev : c.event = .broadcast ev) {e : EntryCore V F} (he : s.inner.entry k = some e)
    (hd : Within t (e.opts.minStaleTime s.inner.defaults.staleTime) c.now) :
    ∀ f ∈ Effect.flights c.out.effects, f.key ≠ k := by
  obtain ⟨e₀, he₀, hstamp⟩ := hw
  obtain rfl : e = e₀ := Option.some.inj (he.symm.trans he₀)
  have hat : s.inner.At c.event k (.broadcast ev) e := ⟨by rw [hev]; rfl, he, rfl⟩
  rintro f hf hk
  have hst := (h.flight_iff hs hat).mp ⟨f, hf, hk⟩
  rw [starts_broadcast, EntryCore.heeds, hstamp.fresh hd] at hst
  simp at hst

/-- **A read past the window** is answered with the value at once, and a flight is on its way, unless a
mutation is active. -/
theorem Inv.read_past (h : s.Inv) (hs : Step s c s') (hw : Window k v t s) {fetcher : F}
    {compare : Option (Compare V)} {opts : QueryOptions}
    (hev : c.event = .read k .staleWhileRevalidate (some fetcher) compare opts)
    (hd : ¬ Within t opts.staleTime c.now) :
    (∃ sn, c.out.outcome = .read (.ready sn) ∧ sn.data = some v) ∧
      (Mutating k s' ∨ ∃ f, f.key = k ∧ Awaits f s') := by
  obtain ⟨e, he, hstamp⟩ := hw
  have hat := read_at hev he
  have hstale := (hstamp.isStale _ _).mpr hd
  have hout := (h.handled hs).outcome k _ hat.on
  rw [Inner.answer, hat.subject, Option.elim_some, KeyEvent.outcome, hstale] at hout
  have hsome : (e.served (some fetcher) compare opts).data.isSome = true := by
    rw [show (e.served (some fetcher) compare opts).data = e.data from rfl, hstamp.data]
    rfl
  have hstarts : (KeyEvent.read .staleWhileRevalidate (some fetcher) compare opts).starts
      s.inner.defaults c.now e = (e.served (some fetcher) compare opts).canStartFetch := by
    simp [KeyEvent.starts, KeyEvent.wants, KeyEvent.apply, hstale]
  have hreact : ((KeyEvent.read .staleWhileRevalidate (some fetcher) compare opts).react
      s.inner.defaults c.now e).Stamped v t := by
    refine hstamp.react rfl fun hev => ?_
    cases hev
  refine ⟨⟨((KeyEvent.read .staleWhileRevalidate (some fetcher) compare opts).react
    s.inner.defaults c.now e).snapshotNow, ?_, hreact.data⟩, ?_⟩
  · rw [hout, KeyEvent.readOutcome, hsome]
    rfl
  have hpost := hat.entry (h.handled hs)
  by_cases hfly : (s.inner.after c.now k
      (.read .staleWhileRevalidate (some fetcher) compare opts) e).inflight.isSome = true
  · obtain ⟨n, hn⟩ := Option.isSome_iff_exists.mp hfly
    exact .inr ⟨⟨k, _, n⟩, rfl, _, hpost, rfl, hn⟩
  · -- Nothing flies after the read, so it could not start a fetch: a mutation is active.
    refine .inl ⟨_, hpost, ?_⟩
    rw [after_inflight, KeyEvent.react, hstarts] at hfly
    rw [Inner.after_of (f := EntryCore.mutationActive) fun _ _ _ _ => rfl, KeyEvent.react, hstarts]
    split_ifs at hfly ⊢ with hc
    · exact absurd rfl hfly
    · by_contra hm
      refine hc (canStartFetch_iff.mpr ⟨rfl, Nat.eq_zero_of_not_pos hm, ?_⟩)
      exact Option.not_isSome_iff_eq_none.mp hfly

end step

section run

variable [Platform] {defaults : QueryOptions} {log : List (Trace.Record (Shell V F) (Call V F))}
  {s : Shell V F} {k : QueryKey}

/-- The window stays open through a part of a run that leaves it alone. -/
theorem Window.carried {m : Shell V F} (hm : m.Inv) {v : V} {t : Instant} (hw : Window k v t m)
    {ys : List (Trace.Record (Shell V F) (Call V F))} (hr : Trace.Run Step m ys s)
    (hys : ∀ x ∈ ys, Undisturbed k x) : Window k v t s := by
  have hboth : s.Inv ∧ Window k v t s :=
    hr.carry (J := fun s => s.Inv ∧ Window k v t s) ⟨hm, hw⟩ hys
      fun r hs hq hJ => ⟨hJ.1.step hs, hJ.1.window_step hs hJ.2 hq⟩
  exact hboth.2

/-- **The freshness window.** Let an authoritative write set the time of an entry, and let the steps
since then neither write into the key nor invalidate it nor leave it without an entry; flights, their
failures, and mutations that write nothing may come and go. Then a later read of the key, other than
from the cache only, whose stale time is not over is answered with the data of the write and starts
nothing; no subscription whose stale time is not over starts anything; and no broadcast starts a fetch
of the key while the least stale time of the current subscribers is not over. A `StaleWhileRevalidate`
read whose stale time is over, and which brings a fetcher, is answered with the same data, and leaves
exactly one live flight of the key, unless a mutation is active. -/
theorem freshness_window (h : Run defaults log s)
    {xs ys zs : List (Trace.Record (Shell V F) (Call V F))}
    {q r : Trace.Record (Shell V F) (Call V F)} (hlog : log = xs ++ q :: (ys ++ r :: zs))
    {incarnation : Nat} {w : Write V} (hw : Writes k incarnation q w) (ha : w.authoritative = true)
    (hys : ∀ x ∈ ys, Undisturbed k x) :
    ∃ v e, q.post.inner.entry k = some e ∧ e.data = some v ∧ e.updatedAt = some q.label.now ∧
      (∀ policy fetcher compare opts, r.label.event = .read k policy fetcher compare opts →
        policy ≠ .cacheOnly → Within q.label.now opts.staleTime r.label.now →
          (∃ sn, r.label.out.outcome = .read (.ready sn) ∧ sn.data = some v) ∧
            Effect.flights r.label.out.effects = []) ∧
      (∀ fetcher compare opts, r.label.event = .subscribe k fetcher compare opts →
        Within q.label.now opts.staleTime r.label.now →
          Effect.flights r.label.out.effects = []) ∧
      (∀ ev d, r.label.event = .broadcast ev →
        Least QueryOptions.staleTime k d (xs ++ q :: ys) → Within q.label.now d r.label.now →
          ∀ f ∈ Effect.flights r.label.out.effects, f.key ≠ k) ∧
      ∀ fetcher compare opts,
        r.label.event = .read k .staleWhileRevalidate (some fetcher) compare opts →
          ¬ Within q.label.now opts.staleTime r.label.now →
            (∃ sn, r.label.out.outcome = .read (.ready sn) ∧ sn.data = some v) ∧
              (Mutating k r.post ∨ ∃! f, f.key = k ∧ Live f (xs ++ q :: (ys ++ [r]))) := by
  subst hlog
  obtain ⟨hxs, hq, hys', hr, hbefore⟩ := h.between
  have hq' := (inv_of_run hxs).step hq
  obtain ⟨v, hopen⟩ := (inv_of_run hxs).window_opens hq hw ha
  have hafter : Run defaults (xs ++ q :: (ys ++ [r])) r.post := by
    have hjoined := hbefore.snoc hr
    rwa [List.append_assoc, List.cons_append] at hjoined
  have hI := inv_of_run hbefore
  have hwin := Window.carried hq' hopen hys' hys
  obtain ⟨e, he, hstamp⟩ := hopen
  refine ⟨v, e, he, hstamp.data, hstamp.updatedAt, ?_, ?_, ?_, ?_⟩
  · exact fun policy fetcher compare opts hev hp hd => hI.read_within hr hwin hev hp hd
  · exact fun fetcher compare opts hev hd => hI.subscribe_within hr hwin hev hd
  · intro ev d hev hleast hd
    obtain ⟨e₁, he₁, hstamp₁⟩ := hwin
    have hmin : e₁.opts.minStaleTime r.pre.inner.defaults.staleTime = d := by
      rw [EntryOptions.minStaleTime, (least_iff hbefore he₁ _ d).mpr hleast]
      rfl
    exact hI.broadcast_within hr ⟨e₁, he₁, hstamp₁⟩ hev he₁ (hmin ▸ hd)
  · intro fetcher compare opts hev hd
    obtain ⟨hready, hmut | ⟨f, hk, hf⟩⟩ := hI.read_past hr hwin hev hd
    · exact ⟨hready, .inl hmut⟩
    · refine ⟨hready, .inr ⟨f, ⟨hk, (live_iff_awaits hafter f).mpr hf⟩, ?_⟩⟩
      rintro f' ⟨hk', hf'⟩
      exact ((live_iff_awaits hafter f').mp hf').unique hf (hk'.trans hk.symm)

end run

section witness

attribute [local instance] exampleClock

/-- A key is set; a subscriber who takes nothing for fresh starts a fetch, which fails; then comes a read
that is content with the value. -/
def patientRun : List (Event Nat Unit × Instant × List QueryKey) :=
  let key : QueryKey := ⟨0, []⟩
  [(.mutateSet key 5, 0, []),
   (.subscribe key (some ()) none { QueryOptions.default with staleTime := 0 }, 1, []),
   (.commitErr key 0 2 9, 2, []),
   (.read key .ensureFresh (some ()) none .default, 3, [])]

/-- The read is answered with the value that was set. -/
theorem freshness_window_example : ∃ (a b c r : Trace.Record (Shell Nat Unit) (Call Nat Unit))
    (s : Shell Nat Unit) (sn : Snapshot Nat), Run .default [a, b, c, r] s ∧
      Effect.flights b.label.out.effects ≠ [] ∧ r.label.out.outcome = .read (.ready sn) ∧
        sn.data = some 5 ∧ Effect.flights r.label.out.effects = [] := by
  let key : QueryKey := ⟨0, []⟩
  have hobs : ((init .default : Shell Nat Unit).exec patientRun).map (fun r => r.1.map fun r =>
      ((r.post.inner.entry key).map EntryCore.data, (Effect.flights r.label.out.effects).length)) =
      some [(some (some 5), 0), (some (some 5), 1), (some (some 5), 0), (some (some 5), 0)] := by
    decide +kernel
  obtain ⟨⟨log, s⟩, hex, hobs⟩ := Option.map_eq_some_iff.mp hobs
  have hcalls := exec_calls hex
  have hrun : Run .default log s := run_of_exec hex
  obtain ⟨a, log, rfl, ha, hcalls⟩ := List.map_eq_cons_iff.mp hcalls
  obtain ⟨b, log, rfl, hb, hcalls⟩ := List.map_eq_cons_iff.mp hcalls
  obtain ⟨c, log, rfl, hc, hcalls⟩ := List.map_eq_cons_iff.mp hcalls
  obtain ⟨r, log, rfl, hr, hcalls⟩ := List.map_eq_cons_iff.mp hcalls
  obtain rfl := List.map_eq_nil_iff.mp hcalls
  simp only [Prod.mk.injEq] at ha hb hc hr
  simp only [List.map_cons, List.map_nil, List.cons.injEq, Prod.mk.injEq] at hobs
  obtain ⟨⟨hdata, -⟩, ⟨hkeptb, hflight⟩, ⟨hkeptc, -⟩, -, -⟩ := hobs
  have hset : Writes key _ a _ :=
    ⟨.mutateSet 5, _, ⟨by rw [ha.1]; rfl, if_pos rfl, rfl⟩, rfl, rfl⟩
  have hb' : Undisturbed key b := by
    refine undisturbed_of_on (by rw [hb.1]; rfl) (fun _ => rfl) (by rw [hb.1]; exact id) ?_
    intro hnone
    rw [hnone] at hkeptb
    cases hkeptb
  have hc' : Undisturbed key c := by
    refine undisturbed_of_on (by rw [hc.1]; rfl) (fun _ => rfl) (by rw [hc.1]; exact id) ?_
    intro hnone
    rw [hnone] at hkeptc
    cases hkeptc
  obtain ⟨v, e, he, hv, -, hread, -⟩ := freshness_window hrun
    (show [a, b, c, r] = [] ++ a :: ([b, c] ++ r :: []) from rfl) hset rfl (by simp [hb', hc'])
  have hin : Within a.label.now QueryOptions.default.staleTime r.label.now := by
    rw [ha.2.1, hr.2.1]
    exact .inl (by decide)
  obtain ⟨⟨sn, hout, hsn⟩, hnone⟩ := hread _ _ _ _ hr.1 nofun hin
  rw [he, Option.map_some, hv] at hdata
  refine ⟨a, b, c, r, s, sn, hrun, ?_, hout, hsn.trans (Option.some.inj hdata), hnone⟩
  intro hnil
  rw [hnil] at hflight
  cases hflight

end witness

end Shell

end SwrCore
