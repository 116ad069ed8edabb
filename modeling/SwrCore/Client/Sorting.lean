import SwrCore.Client.Provenance

/-!
# What belongs under a key

The state machine passes values, errors, fetchers and comparators on, and never from one key to another.
So whatever is true of everything that is handed over under a key stays true of everything that is kept
under it, wherever it is kept.

* `Sorting` — what belongs under which key.
* `Event.Fits`, `Request.Fits` — a call hands over what belongs under its key.
* `EntryCore.Fits`, `EntryCore.Fits.react` — an entry, with its rollback slot, keeps what belongs there.
* `Client.Fits` — so do the channels, the effects on their way, and the results of callers.
* `Client.Fits.step` — every step whose call fits keeps all of it.
-/

set_option linter.unusedSectionVars false

namespace SwrCore

variable {V F : Type}

/-- What belongs under which key. -/
structure Sorting (V F : Type) where
  /-- The keys that entries are made for. -/
  key : QueryKey → Prop
  data : QueryKey → V → Prop
  error : QueryKey → V → Prop
  fetcher : QueryKey → F → Prop
  compare : QueryKey → Compare V → Prop

/-! ## What an event hands over -/

/-- The data an event hands over. -/
def KeyEvent.data? : KeyEvent V F → Option V
  | .commitOk _ _ value => some value
  | .mutateSet value => some value
  | .mutateBegin optimistic => optimistic
  | .mutateCommit _ (.ok value) _ => value
  | _ => none

/-- The error an event hands over. -/
def KeyEvent.error? : KeyEvent V F → Option V
  | .commitErr _ _ error => some error
  | .mutateCommit _ (.error error) _ => some error
  | _ => none

/-- An event on a key hands over what belongs there. -/
structure KeyEvent.Fits (R : Sorting V F) (k : QueryKey) (kev : KeyEvent V F) : Prop where
  key : kev.creates = true → R.key k
  data : ∀ v ∈ kev.data?, R.data k v
  error : ∀ v ∈ kev.error?, R.error k v
  fetcher : ∀ f ∈ kev.fetcher?, R.fetcher k f
  compare : ∀ c ∈ kev.compare?, R.compare k c

/-- An event hands over what belongs under each key it is about. -/
def Event.Fits (R : Sorting V F) (ev : Event V F) : Prop :=
  ∀ k subId kev, ev.on k subId = some kev → kev.Fits R k

/-- A `fetch()` call hands over what belongs under its key. -/
structure Request.Fits (R : Sorting V F) (req : Request V F) : Prop where
  key : R.key req.key
  fetcher : R.fetcher req.key req.fetcher
  compare : ∀ c ∈ req.compare, R.compare req.key c

theorem Request.Fits.event {R : Sorting V F} {req : Request V F} (h : req.Fits R)
    (defaults : QueryOptions) : (req.event defaults).Fits R := by
  intro k subId kev hon
  cases Event.on_inv hon with
  | read =>
      refine ⟨fun _ => h.key, nofun, nofun, ?_, h.compare⟩
      rintro f ⟨⟩
      exact h.fetcher

/-- A request for a revalidation hands over nothing. -/
theorem Event.fits_revalidateRequested (R : Sorting V F) (key : QueryKey) :
    (Event.revalidateRequested key : Event V F).Fits R := by
  intro k subId kev hon
  cases Event.on_inv hon with
  | revalidateRequested => exact ⟨nofun, nofun, nofun, nofun, nofun⟩

/-! ## Entries -/

/-- The data and the error of a content belong under the key. -/
structure Content.Fits (R : Sorting V F) (k : QueryKey) (x : Content V) : Prop where
  data : ∀ v ∈ x.data, R.data k v
  error : ∀ v ∈ x.error, R.error k v

theorem Content.fits_empty (R : Sorting V F) (k : QueryKey) :
    (Snapshot.empty.content : Content V).Fits R k := ⟨nofun, nofun⟩

/-- An entry keeps what belongs under its key, also in its rollback slot. -/
structure EntryCore.Fits (R : Sorting V F) (k : QueryKey) (e : EntryCore V F) : Prop where
  key : R.key k
  holds : ∀ x, e.Holds x → x.Fits R k
  fetcher : ∀ f ∈ e.fetcher, R.fetcher k f
  compare : ∀ c ∈ e.compare, R.compare k c

namespace EntryCore

variable {R : Sorting V F} {k : QueryKey} {e : EntryCore V F}

theorem fits_new (hkey : R.key k) (incarnation : Nat) :
    (EntryCore.new k incarnation : EntryCore V F).Fits R k where
  key := hkey
  holds x hx := by
    rw [holds_new k incarnation hx]
    exact Content.fits_empty R k
  fetcher := nofun
  compare := nofun

theorem Fits.content (h : e.Fits R k) : e.content.Fits R k := h.holds _ (.inl rfl)

/-- What an event writes belongs under the key: it was handed over, or it was there. -/
theorem Fits.makes (h : e.Fits R k) {kev : KeyEvent V F} (hkev : kev.Fits R k) {x : Content V}
    (hmade : kev.Makes e x) : x.Fits R k := by
  cases hmade with
  | @landed incarnation seq value hd =>
      refine ⟨?_, nofun⟩
      intro v hv
      by_cases hu : e.unchanged value = true
      · exact h.content.data v ((if_pos hu).symm.trans hv)
      · have hvalue : some value = some v := (if_neg hu).symm.trans hv
        exact hkev.data v hvalue
  | failed hd => exact ⟨h.content.data, hkev.error⟩
  | set => exact ⟨hkev.data, nofun⟩
  | optimistic => exact ⟨hkev.data, h.content.error⟩
  | populated hp => exact ⟨hkev.data, nofun⟩
  | rejected hr => exact ⟨h.content.data, hkev.error⟩

/-- **An event keeps what belongs under the key.** -/
theorem Fits.react [Platform] (h : e.Fits R k) (hslot : e.mutationActive = 0 → e.optimistic = none)
    {kev : KeyEvent V F} (hkev : kev.Fits R k) (defaults : QueryOptions) (now : Instant) :
    (kev.react defaults now e).Fits R k := by
  obtain ⟨hfetcher, hcompare⟩ := KeyEvent.supply_react defaults now e kev
  constructor
  case key => exact h.key
  case holds =>
    intro x hx
    rcases holds_react hslot hx with hold | hmade
    · exact h.holds x hold
    · exact h.makes hkev hmade
  case fetcher =>
    intro f hf
    rw [hfetcher] at hf
    rcases Option.or_eq_some_iff.mp hf with hnew | ⟨-, hold⟩
    · exact hkev.fetcher f hnew
    · exact h.fetcher f hold
  case compare =>
    intro c hc
    rw [hcompare] at hc
    rcases Option.or_eq_some_iff.mp hc with hnew | ⟨-, hold⟩
    · exact hkev.compare c hnew
    · exact h.compare c hold

theorem Fits.settled [Platform] (h : e.Fits R k) (now : Instant) (m : Marks V F) :
    (e.settled now m).Fits R k := by
  have hkeep := EntryCore.settled_of (f := fun e => e.Fits R k)
    (fun e g r v => propext ⟨fun h => ⟨h.key, h.holds, h.fetcher, h.compare⟩,
      fun h => ⟨h.key, h.holds, h.fetcher, h.compare⟩⟩) e now m
  exact hkeep ▸ h

end EntryCore

/-! ## One call of `handle` -/

namespace Shell

/-- Every entry keeps what belongs under its key. -/
def Fits (R : Sorting V F) (s : Shell V F) : Prop :=
  ∀ k e, s.inner.entry k = some e → e.Fits R k

section step

variable [Platform] {R : Sorting V F} {s s' : Shell V F} {c : Call V F}

/-- The entry that an event acts on keeps what belongs under its key, also when the event creates it. -/
theorem Fits.subject (h : s.Fits R) (hi : s.Inv) {k : QueryKey} {kev : KeyEvent V F}
    (hkev : kev.Fits R k) {e : EntryCore V F} (hsub : s.inner.subject k kev = some e) :
    e.Fits R k := by
  rcases (hi.subject hsub).2.2.2 with he | ⟨-, rfl, hcreates⟩
  · exact h k e he
  · exact EntryCore.fits_new (hkev.key hcreates) _

/-- The entry after an event. -/
theorem Fits.after (h : s.Fits R) (hi : s.Inv) (hev : c.event.Fits R) {k : QueryKey}
    {kev : KeyEvent V F} {e : EntryCore V F} (hat : s.inner.At c.event k kev e) :
    (kev.react s.inner.defaults c.now e).Fits R k ∧
      (s.inner.after c.now k kev e).Fits R k := by
  have hkev : kev.Fits R k := hev k s.inner.nextSubId kev hat.on
  have hslot := (hi.subject hat.subject).2.2.1
  have hreact := (h.subject hi hkev hat.subject).react hslot hkev s.inner.defaults c.now
  exact ⟨hreact, hreact.settled c.now _⟩

theorem Fits.step (h : s.Fits R) (hi : s.Inv) (hs : Step s c s') (hev : c.event.Fits R) :
    s'.Fits R := by
  intro k e' he'
  rcases (hi.handled hs).inversion he' with ⟨-, he⟩ | ⟨kev, e, hat, rfl⟩
  · exact h k e' he
  · exact (h.after hi hev hat).2

/-- A published snapshot shows what belongs under the key of its channel. -/
theorem Fits.notify (h : s.Fits R) (hi : s.Inv) (hs : Step s c s') (hev : c.event.Fits R)
    {tx : Channel} {sn : Snapshot V} (hx : .notify tx sn ∈ c.out.effects) :
    sn.content.Fits R tx.key := by
  obtain ⟨e', he', -, rfl⟩ := hi.notify_entry hs hx
  exact (h.step hi hs hev _ e' he').content

/-- A spawned fetch runs a fetcher that belongs under its key. -/
theorem Fits.startFetch (h : s.Fits R) (hi : s.Inv) (hs : Step s c s') (hev : c.event.Fits R)
    {k : QueryKey} {incarnation seq : Nat} {fetcher : F}
    (hx : .startFetch k incarnation seq fetcher ∈ c.out.effects) : R.fetcher k fetcher := by
  obtain ⟨kev, e, hat, hmem⟩ := (hi.handled hs).effect hx
  obtain ⟨hstarts, -, -, -, hf⟩ :=
    Inner.startFetch_mem_marks.mp (Inner.startFetch_mem_batch.mp hmem)
  refine (h.after hi hev hat).1.fetcher fetcher ?_
  rw [KeyEvent.react, hstarts]
  exact hf

end step

end Shell

/-! ## The client -/

/-- What an effect carries belongs under its key. -/
def Effect.Fits (R : Sorting V F) : Effect V F → Prop
  | .startFetch key _ _ fetcher => R.fetcher key fetcher
  | .notify tx snapshot => snapshot.content.Fits R tx.key
  | .scheduleTimer _ _ _ _ => True

/-- The result of a `fetch()` belongs under its key. -/
def Sorting.Result (R : Sorting V F) (k : QueryKey) : Except (FetchError V) V → Prop
  | .ok value => R.data k value
  | .error (.fetch error) => R.error k error
  | .error .noFetcher => True
  | .error .miss => True

/-- The arguments of the call that a caller is in, or was in when it ended. -/
def Phase.request? : Phase V F → Option (Request V F)
  | .reading req => some req
  | .looking w => some w.req
  | .poking w _ => some w.req
  | .parked w _ => some w.req
  | .done req _ => some req
  | .idle => none
  | .dead _ => none

/-- What `ready_result` takes from a snapshot belongs where the snapshot does. -/
theorem Content.Fits.readyResult {R : Sorting V F} {k : QueryKey} {sn : Snapshot V}
    (h : sn.content.Fits R k) : R.Result k (readyResult sn) := by
  unfold SwrCore.readyResult
  split
  · next value hv => exact h.data value hv
  · split
    · next error herr => exact h.error error herr
    · trivial

namespace Client

/-- Everything the client keeps belongs under its key. -/
structure Fits (R : Sorting V F) (s : Client V F) : Prop where
  entries : s.shell.Fits R
  pending : ∀ x ∈ s.pending, x.Fits R
  channels : ∀ tx, (s.channels tx).value.content.Fits R tx.key
  requests : ∀ n req, (s.callers n).request? = some req → req.Fits R
  results : ∀ n req result, s.callers n = .done req result → R.Result req.key result

/-- The call of a step hands over what belongs under its key. -/
def Act.Fits (R : Sorting V F) : Act V F → Prop
  | .dispatch c => c.event.Fits R
  | .call _ req => req.Fits R
  | _ => True

theorem fits_init (R : Sorting V F) (defaults : QueryOptions) :
    (init defaults : Client V F).Fits R where
  entries k e he := by cases (Shell.init_entry defaults k).symm.trans he
  pending x hx := absurd hx List.not_mem_nil
  channels tx := Content.fits_empty R tx.key
  requests n req h := by cases h
  results n req result h := by cases h

section step

variable [Platform] {R : Sorting V F} {s s' : Client V F} {a : Act V F} {n : Nat}

/-- A call keeps its arguments. -/
theorem Step.request (hs : Step s a s') {req : Request V F}
    (h : (s'.callers n).request? = some req) :
    (s.callers n).request? = some req ∨ a = .call n req := by
  rcases hs.caller n with heq | ha
  · rw [heq] at h
    exact .inl h
  · cases hs <;> cases ha <;> simp only [moved_self] at h
    case call.refl req' hn =>
      cases h
      exact .inr rfl
    case read.refl req' shell c hc hev hn =>
      refine .inl ?_
      rw [hn]
      cases hp : pass c.out.outcome with
      | error panic =>
          rw [hp] at h
          cases h
      | ok r =>
          rw [hp] at h
          cases r <;> exact h
    case look.refl w hn =>
      refine .inl ?_
      rw [hn]
      unfold Waiter.looked at h
      split at h
      · cases h
      · exact h
      · exact h
      · split_ifs at h <;> exact h
    case poke.refl w seen shell c hc hev hn =>
      rw [hn]
      exact .inl h
    case wake.refl w seen he hn =>
      rw [hn]
      exact .inl h
    case closed.refl w seen he ho hn =>
      rw [hn]
      exact .inl h
    case drop.refl => cases h

/-- Whatever call of `handle` a step makes, its event hands over what belongs under its key. -/
theorem Fits.event (h : s.Fits R) (ha : a.Fits R) (hs : Step s a s') {c : Call V F}
    (hcall : a.call? = some c) : c.event.Fits R := by
  cases hs <;> cases hcall
  case dispatch => exact ha
  case read n req shell hn hc hev =>
    rw [hev]
    exact (h.requests _ _ (by rw [hn]; rfl)).event _
  case poke n w seen shell hn hc hev =>
    rw [hev]
    exact Event.fits_revalidateRequested R _

/-- The answer of a `Read` shows the entry that was read, or nothing. -/
theorem Fits.read (h : s.Fits R) (hi : s.shell.Inv) {shell : Shell V F} {c : Call V F}
    {req : Request V F} {result : Except (FetchError V) V} (hc : s.shell.Step c shell)
    (hfits : c.event.Fits R) (hev : c.event = req.event s.shell.inner.defaults)
    (hpass : pass c.out.outcome = .ok (.done result)) : R.Result req.key result := by
  cases hout : c.out.outcome with
  | read outcome =>
      rw [hout] at hpass
      cases outcome with
      | ready sn =>
          cases hpass
          refine Content.Fits.readyResult ?_
          rcases hi.read_ready hc hev hout with rfl | ⟨e, hat, hsn⟩
          · exact Content.fits_empty R req.key
          · have hkev := hfits _ _ _ hat.on
            rw [hsn]
            exact (h.entries.subject hi hkev hat.subject).content
      | noFetcher =>
          cases hpass
          trivial
      | wait target rx => cases hpass
  | _ =>
      rw [hout] at hpass
      cases hpass

/-- **Nothing moves from one key to another.** A step whose call hands over what belongs under its key
keeps everything where it belongs. -/
theorem Fits.step (h : s.Fits R) (hi : s.shell.Inv) (hw : s.Waits) (ha : a.Fits R)
    (hs : Step s a s') : s'.Fits R := by
  constructor
  case entries =>
    rcases hs.shell with ⟨c, hcall, hstep⟩ | ⟨-, hsame⟩
    · exact h.entries.step hi hstep (h.event ha hs hcall)
    · rw [hsame]
      exact h.entries
  case pending =>
    intro x hx
    rcases hs.kinds with ⟨c, hcall, hc⟩ | ⟨before, y, rest, after, -, hb, rfl⟩ | ⟨-, hstill⟩
    · rw [hc.pending] at hx
      rcases List.mem_append.mp hx with hold | hnew
      · exact h.pending x hold
      · have hev := h.event ha hs hcall
        cases x with
        | startFetch key incarnation seq fetcher =>
            exact h.entries.startFetch hi hc.shell hev hnew
        | notify tx snapshot => exact h.entries.notify hi hc.shell hev hnew
        | scheduleTimer key kind deadline generation => trivial
    · exact h.pending x ((mem_pending_executed hb).mpr (.inr hx))
    · rw [hstill.pending] at hx
      exact h.pending x hx
  case channels =>
    intro tx
    rcases hs.kinds with ⟨c, -, hc⟩ | ⟨before, y, rest, after, -, hb, rfl⟩ | ⟨-, hstill⟩
    · rw [hc.channels]
      exact h.channels tx
    · rcases executed_channels s y (before ++ rest :: after) tx with
        ⟨hchan, -⟩ | ⟨sn, rfl, hchan⟩
      · rw [hchan]
        exact h.channels tx
      · rw [hchan, Watch.send]
        split_ifs
        · exact h.pending (.notify tx sn) ((mem_pending_executed hb).mpr (.inl rfl))
        · exact h.channels tx
    · rw [hstill.channels]
      exact h.channels tx
  case requests =>
    intro n req hreq
    rcases hs.request hreq with hold | rfl
    · exact h.requests n req hold
    · exact ha
  case results =>
    intro n req result hdone
    rcases hs.result hdone with hold | ⟨c, rfl, hn, hev, hpass⟩ | ⟨w, rfl, hn, hlook⟩
    · exact h.results n req result hold
    · exact h.read hi (hs.calls rfl).shell (h.event ha hs rfl) hev hpass
    · -- A waiter looks at the channel of its own key.
      have hkey := (hw.channel n w (by rw [hn]; rfl)).1
      have hfits := h.channels w.rx
      rw [hkey] at hfits
      obtain ⟨rfl, ⟨value, rfl, hdata, -⟩ | ⟨error, rfl, herror, -, -⟩⟩ :=
        Waiter.looked_done hlook
      · exact hfits.data value hdata
      · exact hfits.error error herror

end step

end Client

end SwrCore
