import SwrCore.Client.Session
import SwrCore.Model.Erased
import SwrCore.Shell.Window

/-!
# Stale data stays

While data is fetched again, the old data is shown. Once authoritative data has been there, nothing takes it
away but newer data: not an invalidation or a failed fetch, not the rollback of an optimistic write, and no
notification that arrives late.

* `Client.Rising`, `Client.Lifts` — what never goes down in an entry never goes down in its channel.
* `Client.Furnished` — an entry that authoritative data was written to holds data.
* `Client.stale_while_revalidate` — the law over every run.
-/

set_option linter.unusedSectionVars false

namespace SwrCore

variable {V F : Type}

/-- The time of a snapshot; no time comes before all times. -/
def Snapshot.date (sn : Snapshot V) : WithBot Instant := sn.updatedAt

namespace Client

/-! ## Along a channel -/

section rising

variable [Platform] {β : Type} [Preorder β] {f : Snapshot V → β} {defaults : QueryOptions}
  {log : Log V F} {s s' : Client V F} {a : Act V F}

/-- In no channel, and for nothing on the way to it, `f` goes down where the version goes up. -/
def Rising (f : Snapshot V → β) (s : Client V F) : Prop :=
  ∀ tx, LatestWins.Climbs Snapshot.version f (s.channels tx).value (s.travelling tx)

/-- The call of a step takes `f` down for no entry. -/
def Lifts (f : Snapshot V → β) (r : Trace.Record (Client V F) (Act V F)) : Prop :=
  ∀ c, r.label.call? = some c → ∀ k kev e, r.pre.shell.inner.At c.event k kev e →
    f e.snapshotNow ≤ f (r.pre.shell.inner.after c.now k kev e).snapshotNow

theorem rising_init (defaults : QueryOptions) : Rising f (init defaults : Client V F) := by
  intro tx
  have hnone : (init defaults : Client V F).travelling tx = ∅ :=
    Set.eq_empty_iff_forall_notMem.mpr fun sn hsn => absurd hsn List.not_mem_nil
  rw [hnone]
  exact .refl _

theorem Rising.call (h : Rising f s) (hchan : s.Channels) (hi : s.shell.Inv) {c : Call V F}
    (hc : s.Calls c s') (hup : ∀ k kev e, s.shell.inner.At c.event k kev e →
      f e.snapshotNow ≤ f (s.shell.inner.after c.now k kev e).snapshotNow) : Rising f s' := by
  intro tx
  rw [hc.channels, hc.travelling]
  by_cases hat : ∃ kev e, s.shell.inner.At c.event tx.key kev e
  · obtain ⟨kev, e, hat⟩ := hat
    rw [hi.notices_of_at hc.shell hat]
    cases hn : kev.notifies s.shell.inner.defaults c.now e with
    | false => simpa using h tx
    | true =>
        by_cases htx : e.tx = tx
        · subst htx
          have hset : {sn | (e.tx, sn) ∈ [(e.tx,
              (s.shell.inner.after c.now e.tx.key kev e).snapshotNow)]} ∪ s.travelling e.tx =
              insert (s.shell.inner.after c.now e.tx.key kev e).snapshotNow (s.travelling e.tx) := by
            ext sn
            simp
          rw [if_pos rfl, hset]
          have hversion := (Shell.snapshotNow_after s.shell.inner c.now e.tx.key kev e).1 hn
          refine (h e.tx).publish (hchan.subject hi hat.subject) ?_ (hup _ kev e hat)
          rw [hversion]
          exact Nat.lt_succ_self _
        · have hother : ∀ sn, (tx, sn) ≠
              (e.tx, (s.shell.inner.after c.now tx.key kev e).snapshotNow) := by
            intro sn heq
            exact htx (congrArg Prod.fst heq).symm
          simpa [hother] using h tx
  · push Not at hat
    rw [hi.notices_of_others hc.shell hat]
    simpa using h tx

/-- An effect is executed. -/
theorem Rising.exec (h : Rising f s) {before after : List (List (Effect V F))} {x : Effect V F}
    {rest : List (Effect V F)} (hb : s.batches = before ++ (x :: rest) :: after) :
    Rising f (s.executed x (before ++ rest :: after)) ∧ ∀ tx, f (s.channels tx).value ≤
      f ((s.executed x (before ++ rest :: after)).channels tx).value := by
  have hmem : ∀ tx sn, sn ∈ s.travelling tx ↔
      .notify tx sn = x ∨ sn ∈ (s.executed x (before ++ rest :: after)).travelling tx :=
    fun tx sn => mem_pending_executed hb
  have hsub : ∀ tx, (s.executed x (before ++ rest :: after)).travelling tx ⊆ s.travelling tx :=
    fun tx sn hsn => (hmem tx sn).mpr (.inr hsn)
  constructor
  · intro tx
    rcases executed_channels s x (before ++ rest :: after) tx with ⟨hchan, -⟩ | ⟨sn, rfl, hchan⟩
    · rw [hchan]
      exact fun y hy z hz => h tx y (Set.insert_subset_insert (hsub tx) hy) z
        (Set.insert_subset_insert (hsub tx) hz)
    · rw [hchan, Watch.send_value]
      exact (h tx).deliver ((hmem tx sn).mpr (.inl rfl)) (hsub tx)
  · intro tx
    rcases executed_channels s x (before ++ rest :: after) tx with ⟨hchan, -⟩ | ⟨sn, rfl, hchan⟩
    · rw [hchan]
    · rw [hchan, Watch.send_value]
      exact (h tx).le_offer ((hmem tx sn).mpr (.inl rfl))

/-- **One step** takes `f` down in no channel. -/
theorem Rising.step (h : Rising f s) (hchan : s.Channels) (hi : s.shell.Inv) (hs : Step s a s')
    (hup : Lifts f ⟨s, a, s'⟩) :
    Rising f s' ∧ ∀ tx, f (s.channels tx).value ≤ f (s'.channels tx).value := by
  rcases hs.kinds with ⟨c, hcall, hc⟩ | ⟨_, _, _, _, -, hb, rfl⟩ | ⟨-, hstill⟩
  · exact ⟨h.call hchan hi hc (hup c hcall), fun tx => by rw [hc.channels]⟩
  · exact h.exec hb
  · refine ⟨fun tx => ?_, fun tx => by rw [hstill.channels]⟩
    have htravelling : s'.travelling tx = s.travelling tx := by
      unfold Client.travelling
      rw [hstill.pending]
    rw [hstill.channels, htravelling]
    exact h tx

theorem Run.rising (h : Run defaults log s) (hup : ∀ r ∈ log, Lifts f r) : Rising f s := by
  induction h with
  | nil => exact rising_init defaults
  | snoc hr hs ih =>
      have hrising := ih fun r hmem => hup r (List.mem_append_left _ hmem)
      exact (hrising.step (Run.channels hr) (Run.inv hr) hs (hup _ (by simp))).1

/-- **Along a run** `f` goes down in no channel. -/
theorem Run.climbs (h : Run defaults log s) (hup : ∀ r ∈ log, Lifts f r) {later : Log V F}
    (hr : Trace.Run Step s later s') (hlater : ∀ r ∈ later, Lifts f r) (tx : Channel) :
    f (s.channels tx).value ≤ f (s'.channels tx).value := by
  induction hr with
  | nil => exact le_refl _
  | @snoc later m m' a hr hs ih =>
      have hbefore : ∀ r ∈ log ++ later, Lifts f r := by
        intro r hmem
        rcases List.mem_append.mp hmem with hmem | hmem
        · exact hup r hmem
        · exact hlater r (List.mem_append_left _ hmem)
      have hm := h.trans hr
      refine (ih fun r hmem => hlater r (List.mem_append_left _ hmem)).trans ?_
      exact ((Run.rising hm hbefore).step (Run.channels hm) (Run.inv hm) hs
        (hlater _ (by simp))).2 tx

end rising

/-! ## The time of an entry -/

section dates

variable [Platform] {defaults : QueryOptions} {log : Log V F} {s s' : Client V F} {a : Act V F}
  {k : QueryKey} {kev : KeyEvent V F} {e : EntryCore V F} {c : Call V F}

/-- Only an authoritative write moves the time of an entry. -/
theorem Run.date_after (h : Run defaults log s) (hat : s.shell.inner.At c.event k kev e) :
    (s.shell.inner.after c.now k kev e).updatedAt =
      Write.date e.updatedAt (kev.write? c.now e) := by
  have hdated : e.Dated := ((Shell.tally_of_run (Run.shell h)).subject (Run.inv h) hat.subject).1.1
  rw [Inner.after_of (f := EntryCore.updatedAt) (fun _ _ _ _ => rfl)]
  exact (hdated.react s.shell.inner.defaults c.now kev).2

/-- An entry that has a time keeps one. -/
theorem Run.lifts_written (h : Run defaults log s) :
    Lifts (fun sn => sn.updatedAt.isSome = true) ⟨s, a, s'⟩ := by
  intro c _ k kev e hat hsome
  show (s.shell.inner.after c.now k kev e).updatedAt.isSome = true
  rw [h.date_after hat]
  unfold Write.date
  split
  · split_ifs
    · rfl
    · exact hsome
  · exact hsome

/-- A write takes the time of its call. -/
theorem time_of_write {now : Instant} {w : Write V} (h : kev.write? now e = some w) : w.time = now := by
  unfold KeyEvent.write? at h
  split at h
  · split_ifs at h
    cases h
    rfl
  · cases h
    rfl
  · cases h
    rfl
  · split_ifs at h
    cases h
    rfl
  · cases h

/-- On a clock that does not go back, the time of an entry does not go back. -/
theorem Run.lifts_dated (h : Run defaults log s)
    (hclock : ∀ r ∈ shellLog log, ∀ c, a.call? = some c → r.label.now ≤ c.now) :
    Lifts Snapshot.date ⟨s, a, s'⟩ := by
  intro c hcall k kev e hat
  have hafter := h.date_after hat
  have hstay : (s.shell.inner.after c.now k kev e).updatedAt = e.updatedAt →
      e.snapshotNow.date ≤ (s.shell.inner.after c.now k kev e).snapshotNow.date :=
    fun hsame => le_of_eq hsame.symm
  unfold Write.date at hafter
  split at hafter
  · next w hw =>
      split_ifs at hafter
      · rw [time_of_write hw] at hafter
        have hnew : (s.shell.inner.after c.now k kev e).snapshotNow.date = (c.now : WithBot Instant) :=
          hafter
        show e.snapshotNow.date ≤ (s.shell.inner.after c.now k kev e).snapshotNow.date
        rw [hnew]
        cases ht : e.updatedAt with
        | none =>
            have hbot : e.snapshotNow.date = ⊥ := ht
            rw [hbot]
            exact bot_le
        | some t =>
            have hold : e.snapshotNow.date = (t : WithBot Instant) := ht
            have hby := ((Shell.tally_of_run (Run.shell h)).subject (Run.inv h) hat.subject).1.2.1
            rw [ht] at hby
            obtain ⟨q, w', hlast, ⟨kev', e', -, -, hw'⟩, -, rfl⟩ := hby
            rw [hold, time_of_write hw']
            exact WithBot.coe_le_coe.mpr (hclock q hlast.mem c hcall)
      · exact hstay hafter
  · exact hstay hafter

end dates

/-! ## The data of an entry -/

/-- An entry that authoritative data was written to holds data, and so does its slot. -/
def Furnished (s : Client V F) : Prop :=
  ∀ k e, s.shell.inner.entry k = some e → e.updatedAt.isSome → Retains e.tx s

section furnished

variable [Platform] {defaults : QueryOptions} {log : Log V F} {s s' : Client V F} {k : QueryKey}
  {e : EntryCore V F}

/-- An authoritative write leaves its value alone in the entry. -/
theorem retains_of_stamped {v : V} {t : Instant} (hstamp : e.Stamped v t)
    (he : s.shell.inner.entry e.tx.key = some e) : Retains e.tx s := by
  intro e' he' _ x hx
  obtain rfl : e' = e := Option.some.inj (he'.symm.trans he)
  rcases hx with rfl | ⟨o, ho, -⟩
  · exact Option.isSome_iff_exists.mpr ⟨v, hstamp.data⟩
  · cases hstamp.slot.symm.trans ho

/-- An entry without a time gets one by an authoritative write. -/
theorem written_of_date {u : Option Instant} {w? : Option (Write V)} {u' : Option Instant}
    (h : u' = Write.date u w?) (hnone : u = none) (hsome : u'.isSome) :
    ∃ w, w? = some w ∧ w.authoritative = true := by
  subst hnone
  cases w? with
  | none =>
      rw [h] at hsome
      cases hsome
  | some w =>
      refine ⟨w, rfl, ?_⟩
      by_contra ha
      rw [h, Write.date, if_neg ha] at hsome
      cases hsome

theorem Run.furnished (h : Run defaults log s) : s.Furnished := by
  refine h.history (P := fun _ s => s.Furnished) (fun k e he => ?_) ?_
  · cases (Shell.init_entry defaults k).symm.trans he
  · intro log s a s' hr ih hs k e' he' hsome
    have hi := Run.inv hr
    have hstays : ∀ e, s.shell.inner.entry k = some e → e.updatedAt.isSome → e.tx = e'.tx →
        Retains e'.tx s' := by
      intro e he hup htx
      have hborn : e.tx.incarnation < s.shell.inner.nextIncarnation := by
        rw [hi.tx k e he]
        exact hi.incarnation k e he
      exact htx ▸ (ih k e he hup).step hi hborn hs
    rcases hs.shell with ⟨c, -, hc⟩ | ⟨-, hsame⟩
    · rcases (hi.handled hc).inversion he' with ⟨-, he⟩ | ⟨kev, e, hat, rfl⟩
      · exact hstays e' he hsome rfl
      · have htx : (s.shell.inner.after c.now k kev e).tx = e.tx := (Inner.after_frame k kev e).1
        cases hup : e.updatedAt with
        | some t =>
            rcases (hi.subject hat.subject).2.2.2 with he | ⟨-, rfl, -⟩
            · exact hstays e he (by rw [hup]; rfl) htx.symm
            · cases hup
        | none =>
            -- The event writes authoritative data.
            obtain ⟨w, hw, ha⟩ := written_of_date (Run.date_after hr hat) hup hsome
            obtain ⟨v, hstamp⟩ := KeyEvent.stamped_of_write (hi.safe hc hat) hw ha
            have hkey : (s.shell.inner.after c.now k kev e).tx.key = k := by
              rw [htx, hi.subject_tx hat.subject]
            refine retains_of_stamped (hstamp.settled _ _) ?_
            rw [hkey]
            exact he'
    · rw [hsame] at he'
      exact hstays e' he' hsome rfl

/-- What can be seen of an entry with a time shows data. -/
theorem Run.shown_furnished (h : Run defaults log s) {tx : Channel} {sn : Snapshot V}
    (hsn : s.Visible tx sn) (hsome : sn.updatedAt.isSome) : sn.data.isSome := by
  have hall : s.Furnished ∧ ∀ tx sn, s.Visible tx sn → sn.updatedAt.isSome → sn.data.isSome := by
    refine h.history (P := fun _ s => s.Furnished ∧ ∀ tx sn, s.Visible tx sn →
      sn.updatedAt.isSome → sn.data.isSome) ⟨Run.furnished .nil, ?_⟩ ?_
    · rintro tx sn (rfl | ⟨hsn, -⟩) hsome
      · cases hsome
      · exact absurd hsn List.not_mem_nil
    · rintro log s a s' hr ⟨-, ih⟩ hs
      have hfurnished : s'.Furnished := Run.furnished (hr.snoc hs)
      refine ⟨hfurnished, fun tx sn hsn hsome => ?_⟩
      rcases hs.visible hsn with hsn | ⟨c, hcall, hx⟩
      · exact ih tx sn hsn hsome
      · obtain ⟨e, he, rfl, rfl⟩ := (Run.inv hr).notify_entry (hs.calls hcall).shell hx
        exact hfurnished _ e he hsome e he rfl e.content (.inl rfl)
  exact hall.2 tx sn hsn hsome

end furnished

/-! ## The law -/

section law

variable [Platform] {defaults : QueryOptions} {log : Log V F} {s : Client V F}

/-- A read that does not insist on fresh data is answered with the data that is there. -/
theorem answered_at_once {s s' : Shell V F} {c : Call V F} (h : s.Inv) (hs : s.Step c s')
    {k : QueryKey} {policy : ReadPolicy} {fetcher : Option F} {compare : Option (Compare V)}
    {opts : QueryOptions} (hev : c.event = .read k policy fetcher compare opts)
    (hp : policy ≠ .ensureFresh) {e : EntryCore V F} (he : s.inner.entry k = some e) {v : V}
    (hv : e.data = some v) : pass c.out.outcome = .ok (.done (.ok v)) := by
  have hat := Shell.read_at hev he
  have hout := (h.handled hs).outcome k _ hat.on
  rw [Inner.answer, hat.subject, Option.elim_some, KeyEvent.outcome] at hout
  have hready : ∀ sn : Snapshot V, sn.data = some v →
      pass (.read (.ready sn)) = .ok (.done (.ok v)) := by
    intro sn hsn
    rw [pass, readyResult, hsn]
  have hserved : (e.served fetcher compare opts).data = some v := hv
  have hreact : ((KeyEvent.read policy fetcher compare opts).react s.inner.defaults c.now e).data =
      some v := by
    unfold KeyEvent.react
    split_ifs <;> exact hv
  rw [hout]
  cases policy with
  | cacheOnly => exact hready _ hserved
  | staleWhileRevalidate =>
      simp only [KeyEvent.readOutcome, hserved, Option.isSome_some, Bool.true_and, if_true]
      split_ifs
      · exact hready _ hserved
      · exact hready _ hreact
  | ensureFresh => exact absurd rfl hp

/-- On a clock that does not go back, a call comes after those before it. -/
theorem calls_before {as bs : Log V F} {r : Trace.Record (Client V F) (Act V F)}
    (hclock : (shellLog (as ++ r :: bs)).Pairwise fun x y => x.label.now ≤ y.label.now) :
    ∀ x ∈ shellLog as, ∀ c, r.label.call? = some c → x.label.now ≤ c.now := by
  intro x hx c hc
  rw [shellLog, List.filterMap_append, List.pairwise_append] at hclock
  refine hclock.2.2 x hx ⟨r.pre.shell, c, r.post.shell⟩ (List.mem_filterMap.mpr ⟨r, ?_, ?_⟩)
  · exact List.mem_cons_self ..
  · rw [hc, Option.map_some]

/-- **An entry keeps its time** as long as it is there. -/
theorem Run.keeps_time (h : Run defaults log s) {k : QueryKey} {e : EntryCore V F}
    (he : s.shell.inner.entry k = some e) (hsome : e.updatedAt.isSome) {later : Log V F}
    {s' : Client V F} (hr : Trace.Run Step s later s') {e' : EntryCore V F}
    (he' : s'.shell.inner.entry k = some e') (hinc : e'.incarnation = e.incarnation) :
    e'.updatedAt.isSome := by
  induction hr generalizing e' with
  | nil =>
      obtain rfl : e' = e := Option.some.inj (he'.symm.trans he)
      exact hsome
  | @snoc later m m' a hr hs ih =>
      have hm := h.trans hr
      have hlifts : Lifts (fun sn => sn.updatedAt.isSome = true) ⟨m, a, m'⟩ := Run.lifts_written hm
      have hborn : e.incarnation < s.shell.inner.nextIncarnation := (Run.inv h).incarnation k e he
      have hle := Run.nextIncarnation_le h hr
      rcases hs.shell with ⟨c, hcall, hc⟩ | ⟨-, hsame⟩
      · rcases ((Run.inv hm).handled hc).inversion he' with ⟨-, he'⟩ | ⟨kev, e₁, hat, rfl⟩
        · exact ih he' hinc
        · have hinc₁ : e₁.incarnation = e.incarnation :=
            (Inner.after_frame k kev e₁).2.symm.trans hinc
          rcases ((Run.inv hm).subject hat.subject).2.2.2 with he₁ | ⟨-, rfl, -⟩
          · exact hlifts c hcall k kev e₁ hat (ih he₁ hinc₁)
          · have hnew : m.shell.inner.nextIncarnation = e.incarnation := hinc₁
            omega
      · rw [hsame] at he'
        exact ih he' hinc

/-- **Stale while revalidate.** In every run, once a channel showed data that a fetch brought or that was set
or committed locally, it shows data ever after, and is not loading, whatever is invalidated, fetched in
vain, overwritten optimistically and rolled back, and in whatever order the notifications arrive; and on a
clock that does not go back, the time that it shows does not go back. As long as the entry is there, it
holds data, and every `Read` that does not insist on fresh data is answered with it at once. -/
theorem stale_while_revalidate (h : Run defaults log s) {xs ys : Log V F}
    {q : Trace.Record (Client V F) (Act V F)} (hlog : log = xs ++ q :: ys) :
    (∀ tx, (q.post.channels tx).value.updatedAt.isSome →
      (s.channels tx).value.updatedAt.isSome ∧ (s.channels tx).value.data.isSome ∧
        (s.channels tx).value.isLoading = false) ∧
    ((shellLog log).Pairwise (fun x y => x.label.now ≤ y.label.now) → ∀ tx t,
      (q.post.channels tx).value.updatedAt = some t →
        ∃ t', (s.channels tx).value.updatedAt = some t' ∧ t ≤ t') ∧
    ∀ k e e', q.post.shell.inner.entry k = some e → e.updatedAt.isSome →
      s.shell.inner.entry k = some e' → e'.incarnation = e.incarnation →
        ∃ v, e'.data = some v ∧ ∀ c shell policy fetcher compare opts, s.shell.Step c shell →
          c.event = .read k policy fetcher compare opts → policy ≠ .ensureFresh →
            pass c.out.outcome = .ok (.done (.ok v)) := by
  have hall := h
  subst hlog
  obtain ⟨hxs, hstep, hys⟩ := h.middle
  have hpost : Run defaults (xs ++ [⟨q.pre, q.label, q.post⟩]) q.post := hxs.snoc hstep
  have hjoined : xs ++ q :: ys = (xs ++ [⟨q.pre, q.label, q.post⟩]) ++ ys := by
    rw [List.append_assoc, List.singleton_append]
  have hshown : ∀ {β : Type} [Preorder β] {f : Snapshot V → β},
      (∀ r ∈ xs ++ q :: ys, Lifts f r) → ∀ tx, f (q.post.channels tx).value ≤
        f (s.channels tx).value := by
    intro β _ f hup tx
    rw [hjoined] at hup
    exact hpost.climbs (fun r hr => hup r (List.mem_append_left _ hr)) hys
      (fun r hr => hup r (List.mem_append_right _ hr)) tx
  refine ⟨fun tx hsome => ?_, fun hclock tx t ht => ?_, fun k e e' he hsome he' hinc => ?_⟩
  · have hup : ∀ r ∈ xs ++ q :: ys, Lifts (fun sn => sn.updatedAt.isSome = true) r := by
      intro r hr
      obtain ⟨_, _, -, hpre, -, -⟩ := h.of_mem hr
      exact Run.lifts_written hpre
    have hnow : (s.channels tx).value.updatedAt.isSome = true := hshown hup tx hsome
    have hdata := h.shown_furnished (.inl rfl) hnow
    refine ⟨hnow, hdata, ?_⟩
    rw [Snapshot.isLoading, Option.isNone_eq_false_iff.mpr hdata, Bool.and_false]
  · have hup : ∀ r ∈ xs ++ q :: ys, Lifts Snapshot.date r := by
      intro r hr
      obtain ⟨as, bs, heq, hpre, -, -⟩ := h.of_mem hr
      exact Run.lifts_dated hpre (calls_before (heq ▸ hclock))
    have hdate : (q.post.channels tx).value.date = (t : WithBot Instant) := ht
    have hle := hshown hup tx
    rw [hdate] at hle
    obtain ⟨t', ht', hle⟩ := WithBot.coe_le_iff.mp hle
    exact ⟨t', ht', hle⟩
  · have hnow := hpost.keeps_time he hsome hys he' hinc
    obtain ⟨v, hv⟩ := Option.isSome_iff_exists.mp
      (hall.furnished k e' he' hnow e' (by rw [(Run.inv hall).tx k e' he']; exact he') rfl e'.content
        (.inl rfl))
    refine ⟨v, hv, fun c shell policy fetcher compare opts hs hev hp => ?_⟩
    exact answered_at_once (Run.inv hall) hs hev hp he' hv

end law

section witness

attribute [local instance] Shell.exampleClock

/-- A subscriber is about to be shown its data. -/
def arrived : List (Input Nat Unit) :=
  [.dispatch (.subscribe ⟨0, []⟩ (some ()) none .default) 0 [], .exec 0, .exec 0,
   .dispatch (.commitOk ⟨0, []⟩ 0 1 5) 1 []]

/-- The data is invalidated, and cannot be fetched again. -/
def refetchFails : List (Input Nat Unit) :=
  [.dispatch (.invalidate []) 2 [⟨0, []⟩], .exec 2, .dispatch (.commitErr ⟨0, []⟩ 0 2 7) 3 [], .exec 3]

theorem stale_while_revalidate_example : ∃ (log : Log Nat Unit) (s : Client Nat Unit) (tx : Channel),
    Run .default log s ∧ (s.channels tx).value.error = some 7 ∧ (s.channels tx).value.data.isSome ∧
      (s.channels tx).value.isLoading = false := by
  let tx : Channel := ⟨⟨0, []⟩, 0⟩
  have hfacts : (((init .default : Client Nat Unit).exec arrived).bind fun r =>
      (r.2.exec1 (.exec 1)).bind fun q => (q.2.exec refetchFails).map fun t =>
        ((q.2.channels tx).value.updatedAt.isSome, (t.2.channels tx).value.error)) =
      some (true, some 7) := by decide +kernel
  obtain ⟨⟨xs, m⟩, hxs, hfacts⟩ := Option.bind_eq_some_iff.mp hfacts
  obtain ⟨⟨a, m'⟩, ha, hfacts⟩ := Option.bind_eq_some_iff.mp hfacts
  obtain ⟨⟨ys, s⟩, hys, hfacts⟩ := Option.map_eq_some_iff.mp hfacts
  rw [Prod.mk.injEq] at hfacts
  obtain ⟨hshown, herror⟩ := hfacts
  have hrun : Run .default (xs ++ [⟨m, a, m'⟩] ++ ys) s :=
    ((run_of_exec hxs).snoc (step_of_exec1 ha)).trans (run_of_exec hys)
  have hcut : xs ++ [⟨m, a, m'⟩] ++ ys = xs ++ (⟨m, a, m'⟩ : Trace.Record _ _) :: ys := by
    rw [List.append_assoc, List.singleton_append]
  obtain ⟨-, hdata, hloading⟩ := (stale_while_revalidate hrun hcut).1 tx hshown
  exact ⟨_, s, tx, hrun, herror, hdata, hloading⟩

end witness

end Client

end SwrCore
