import SwrCore.Client.Channel
import SwrCore.Shell.Flight
import SwrCore.Shell.Snapshots

/-!
# No waiter is stranded

A parked caller relies on somebody else's `Notify`. It read its snapshot outside the lock, so what it
saw may be outdated, and its poke may find the entry busy and do nothing.

* `Client.Spawned` — the flight an entry waits for runs as a task, or is about to be spawned.
* `Client.Waits` — what the wait loop knows: a caller that saw an idle entry has poked it, and the
  entry has published, or will publish, something newer since.
* `Client.no_waiter_stranded` — a caller that has seen the latest value of an open channel with no
  effect pending waits for a running fetch or an active mutation, whose end notifies it.
-/

set_option linter.unusedSectionVars false

namespace SwrCore

variable {V F : Type}

/-! ## What the wait loop relies on -/

/-- No event takes the fetcher of an entry away. -/
theorem EntryCore.fetcher_react [Platform] {e : EntryCore V F} (h : e.fetcher.isSome)
    (defaults : QueryOptions) (now : Instant) (kev : KeyEvent V F) :
    (kev.react defaults now e).fetcher.isSome := by
  rw [(KeyEvent.supply_react defaults now e kev).1, Option.isSome_or, h, Bool.or_true]

/-- The stages after the handler keep the fetcher. -/
theorem Inner.after_fetcher [Platform] (inner : Inner V F) (now : Instant) (k : QueryKey)
    (kev : KeyEvent V F) (e : EntryCore V F) :
    (inner.after now k kev e).fetcher = (kev.react inner.defaults now e).fetcher :=
  Inner.after_of (f := EntryCore.fetcher) (fun _ _ _ _ => rfl) k kev e

/-- An entry that does not look idle is in flight or under a mutation. -/
theorem EntryCore.busy_of_not_idle {e : EntryCore V F} (h : e.snapshotNow.isIdle = false) :
    (∃ seq, e.inflight = some seq) ∨ 0 < e.mutationActive := by
  have hidle : e.snapshotNow.isIdle = (e.inflight.isNone && !decide (0 < e.mutationActive)) := rfl
  rw [hidle] at h
  cases hi : e.inflight with
  | some seq => exact .inl ⟨seq, rfl⟩
  | none =>
      rw [hi] at h
      exact .inr (by simpa using h)

/-- The task a commit ends is the flight it delivers. -/
theorem Event.delivers_iff_task {ev : Event V F} {f : Flight} :
    ev.delivers f ↔ ev.task? = some (.fetch f) := by
  cases ev <;> simp [Event.delivers, Event.task?]

/-- The event settles the mutation of this token. -/
def Event.settles (t : MutationToken) : Event V F → Prop
  | .mutateCommit token _ _ => token = t
  | .mutateAbort token _ => token = t
  | _ => False

/-- The channel an effect belongs to. -/
def Effect.channel? : Effect V F → Option Channel
  | .startFetch key incarnation _ _ => some ⟨key, incarnation⟩
  | .notify tx _ => some tx
  | .scheduleTimer _ _ _ _ => none

namespace Shell

section step

variable [Platform] {s s' : Shell V F} {c : Call V F} (h : s.Inv) (hs : Step s c s')

include h hs

/-- An entry that is not new was in the table before the call. -/
theorem Inv.older {k : QueryKey} {e' : EntryCore V F} (he' : s'.inner.entry k = some e')
    (hlt : e'.incarnation < s.inner.nextIncarnation) :
    s.inner.entry k = some e' ∨ ∃ kev e, s.inner.At c.event k kev e ∧
      s.inner.entry k = some e ∧ e' = s.inner.after c.now k kev e := by
  rcases (h.handled hs).inversion he' with ⟨-, he⟩ | ⟨kev, e, hat, rfl⟩
  · exact .inl he
  · rcases (h.subject hat.subject).2.2.2 with he | ⟨-, rfl, -⟩
    · exact .inr ⟨kev, e, hat, he, rfl⟩
    · rw [(Inner.after_frame k kev _).2] at hlt
      exact absurd hlt (lt_irrefl _)

end step

/-- An entry that awaits a flight was handed that flight. -/
theorem flight_of_awaits [Platform] {defaults : QueryOptions}
    {log : List (Trace.Record (Shell V F) (Call V F))} {s : Shell V F} (h : Run defaults log s)
    {f : Flight} (ha : Awaits f s) : f ∈ s.flights := by
  obtain ⟨xs, r, ys, rfl, hr, -⟩ := (awaits_iff_since h f).mp ha
  rw [flights_eq_flightsOf h, flightsOf]
  exact List.mem_flatMap.mpr ⟨r, by simp, hr⟩

end Shell

namespace Client

/-! ## Flights run as tasks -/

/-- The flight an entry waits for runs as a task, or its `StartFetch` is not executed yet. -/
def Spawned (s : Client V F) : Prop :=
  ∀ f, Shell.Awaits f s.shell →
    .fetch f ∈ s.tasks ∨ ∃ fetcher, .startFetch f.key f.incarnation f.seq fetcher ∈ s.pending

/-- A new client waits for no flight. -/
theorem spawned_init (defaults : QueryOptions) : (init defaults : Client V F).Spawned := by
  rintro f ⟨e, he, -⟩
  cases (Shell.init_entry defaults f.key).symm.trans he

section step

variable [Platform] {s s' : Client V F} {a : Act V F}

/-- A flight that begins is in the batch; a task that ends was awaited, or its flight is no longer. -/
theorem Spawned.step (h : s.Spawned) (hi : s.shell.Inv) (hs : Step s a s') : s'.Spawned := by
  intro f ha
  rcases hs.kinds with ⟨c, -, hc⟩ | ⟨before, x, rest, after, -, hb, rfl⟩ | ⟨-, hstill⟩
  · rw [hc.pending]
    rcases (hi.awaits_step hc.shell f).mp ha with hnew | ⟨ha, hquiet⟩
    · obtain ⟨fetcher, hx⟩ := Effect.mem_flights.mp hnew
      exact .inr ⟨fetcher, List.mem_append_right _ hx⟩
    · rcases h f ha with htask | ⟨fetcher, hx⟩
      · -- The task of this flight has not ended: that would deliver its result.
        refine .inl ?_
        rw [hc.tasks, Event.remaining]
        cases ht : c.event.task? with
        | none => exact htask
        | some task =>
            refine (List.mem_erase_of_ne ?_).mpr htask
            rintro rfl
            exact hquiet (.inl (Event.delivers_iff_task.mpr ht))
      · exact .inr ⟨fetcher, List.mem_append_left _ hx⟩
  · rcases h f ha with htask | ⟨fetcher, hx⟩
    · exact .inl (List.mem_append_left _ htask)
    · rcases (mem_pending_executed hb).mp hx with rfl | hx
      · exact .inl (List.mem_append_right _ (List.mem_singleton.mpr rfl))
      · exact .inr ⟨fetcher, hx⟩
  · rw [hstill.shell] at ha
    rw [hstill.tasks, hstill.pending]
    exact h f ha

end step

/-! ## What the wait loop knows -/

/-- What the wait loop knows of its entry, as long as the entry lives. -/
structure Waits (s : Client V F) : Prop where
  /-- The channel belongs to the key, and to an entry that was created once. -/
  channel : ∀ n w, (s.callers n).waiter? = some w →
    w.rx.key = w.req.key ∧ w.rx.incarnation < s.shell.inner.nextIncarnation
  /-- The entry has a fetcher: the call brought one. -/
  fetcher : ∀ n w, (s.callers n).waiter? = some w →
    ∀ e, s.shell.inner.entry w.rx.key = some e → e.tx = w.rx → e.fetcher.isSome
  /-- A caller past its look saw a value of the channel that does not meet its target. -/
  seen : ∀ n w seen, (s.callers n).seen? = some (w, seen) →
    seen.Saw (s.channels w.rx) ∧ seen.value.dataSeq < w.target ∧
      seen.value.errorSeq < w.target
  poking : ∀ n w seen, s.callers n = .poking w seen → seen.value.isIdle = true
  /-- A caller parked over an idle snapshot has poked, and the entry has moved on since. -/
  poked : ∀ n w seen, s.callers n = .parked w seen → seen.value.isIdle = true →
    ∀ e, s.shell.inner.entry w.rx.key = some e → e.tx = w.rx →
      seen.value.version < e.snapVersion

/-- A new client has no callers. -/
theorem waits_init (defaults : QueryOptions) : (init defaults : Client V F).Waits := by
  constructor <;> intro n <;> exact nofun

section step

variable [Platform] {s s' : Client V F} {a : Act V F}

/-- A step gives new incarnations only. -/
theorem nextIncarnation_le (hi : s.shell.Inv) (hs : Step s a s') :
    s.shell.inner.nextIncarnation ≤ s'.shell.inner.nextIncarnation := by
  rcases hs.shell with ⟨c, -, hc⟩ | ⟨-, hkeep⟩
  · rw [(hi.handled hc).nextIncarnation]
    exact Nat.le_add_right _ _
  · rw [hkeep]

/-- What holds of an entry and is kept by its events holds as long as the entry lives. -/
theorem Step.entry_keeps (hi : s.shell.Inv) (hs : Step s a s') {P : EntryCore V F → Prop}
    {rx : Channel} (hlt : rx.incarnation < s.shell.inner.nextIncarnation)
    (h : ∀ e, s.shell.inner.entry rx.key = some e → e.tx = rx → P e)
    (hkeep : ∀ c kev e, a.call? = some c → s.shell.inner.At c.event rx.key kev e →
      s.shell.inner.entry rx.key = some e → e.tx = rx → P e →
        P (s.shell.inner.after c.now rx.key kev e)) :
    ∀ e, s'.shell.inner.entry rx.key = some e → e.tx = rx → P e := by
  intro e' he' htx
  rcases hs.shell with ⟨c, hcall, hc⟩ | ⟨-, hsame⟩
  · have hinc : e'.incarnation = rx.incarnation := by
      rw [← htx, (hi.step hc).tx rx.key e' he']
    rcases hi.older hc he' (hinc ▸ hlt) with he | ⟨kev, e, hat, he, rfl⟩
    · exact h e' he htx
    · rw [(Inner.after_frame rx.key kev e).1] at htx
      exact hkeep c kev e hcall hat he htx (h e he htx)
  · rw [hsame] at he'
    exact h e' he' htx

/-- The version of an entry never goes back. -/
theorem snapVersion_le_after (inner : Inner V F) (now : Instant) (k : QueryKey)
    (kev : KeyEvent V F) (e : EntryCore V F) :
    e.snapVersion ≤ (inner.after now k kev e).snapVersion := by
  rw [Inner.after, EntryCore.snapVersion_settled,
    (EntryCore.SameFrame.react inner.defaults now e kev).snapVersion]
  exact Nat.le_add_right _ _

/-- **A poke is not lost.** A caller that saw an idle snapshot pokes its entry: either that starts a
fetch, which publishes a newer version, or the entry is busy and has published one already. -/
theorem Waits.poke (h : s.Waits) (hchan : s.Channels) (hi : s.shell.Inv) {n : Nat}
    {w : Waiter V F} {seen : Watch V} (hn : s.callers n = .poking w seen) {c : Call V F}
    {shell : Shell V F} (hc : s.shell.Step c shell)
    (hev : c.event = .revalidateRequested w.req.key) {e' : EntryCore V F}
    (he' : shell.inner.entry w.rx.key = some e') (htx : e'.tx = w.rx) :
    seen.value.version < e'.snapVersion := by
  have hwaiter : (s.callers n).waiter? = some w := by rw [hn]; rfl
  obtain ⟨hkey, hlt⟩ := h.channel n w hwaiter
  have hidle := h.poking n w seen hn
  obtain ⟨hsaw, -, -⟩ := h.seen n w seen (by rw [hn]; rfl)
  have hinc : e'.incarnation = w.rx.incarnation := by rw [← htx, (hi.step hc).tx _ e' he']
  have hon : c.event.on w.rx.key s.shell.inner.nextSubId = some .revalidateRequested := by
    rw [hev, hkey]
    exact if_pos rfl
  rcases (hi.handled hc).inversion he' with ⟨hoff, -⟩ | ⟨kev, e, hat, rfl⟩
  · rw [hon] at hoff
    cases hoff
  · obtain rfl : KeyEvent.revalidateRequested = kev := Option.some.inj (hon.symm.trans hat.on)
    have he : s.shell.inner.entry w.rx.key = some e := hat.subject
    rw [(Inner.after_frame _ _ e).1] at htx
    have hf := h.fetcher n w hwaiter e he htx
    have htracks := hchan.live w.rx.key e he
    rw [htx] at htracks
    have hle : seen.value.version ≤ e.snapVersion := hsaw.version.trans htracks.reg_le
    cases hst : (KeyEvent.revalidateRequested : KeyEvent V F).starts s.shell.inner.defaults c.now
      e with
    | true =>
        have hversion := (Shell.snapshotNow_after s.shell.inner c.now w.rx.key
          .revalidateRequested e).1 hst
        have hversion : (s.shell.inner.after c.now w.rx.key .revalidateRequested e).snapVersion =
          e.snapVersion + 1 := hversion
        omega
    | false =>
        -- The entry is busy, so what it published last is not the idle snapshot that was seen.
        refine lt_of_lt_of_le (lt_of_le_of_ne hle fun heq => ?_) (snapVersion_le_after _ _ _ _ e)
        have hsame : seen.value = e.snapshotNow := by
          have hlatest : (s.channels w.rx).value = e.snapshotNow :=
            htracks.eq_of_version (heq.ge.trans hsaw.version)
          rcases hsaw with hseen | ⟨-, hold⟩
          · rw [hseen, hlatest]
          · rw [hlatest] at hold
            have hold : seen.value.version < e.snapVersion := hold
            omega
        rw [hsame] at hidle
        simp only [Snapshot.isIdle, EntryCore.snapshotNow, EntryCore.buildSnapshot,
          Bool.and_eq_true, Option.isNone_iff_eq_none, Bool.not_eq_true',
          decide_eq_false_iff_not, not_lt, Nat.le_zero] at hidle
        have hcan : e.canStartFetch = true := canStartFetch_iff.mpr ⟨hf, hidle.2, hidle.1⟩
        simp [KeyEvent.starts, KeyEvent.wants, KeyEvent.apply, hcan] at hst

/-- Every step keeps what the wait loop knows. -/
theorem Waits.step (h : s.Waits) (hchan : s.Channels) (hi : s.shell.Inv) (hs : Step s a s') :
    s'.Waits := by
  have hnext := nextIncarnation_le hi hs
  -- A caller whose `Read` was just answered waits on the channel of the entry it read.
  have hfresh : ∀ n (w : Waiter V F) c, a = .read n c → c.event = w.req.event s.shell.inner.defaults →
      c.out.outcome = .read (.wait w.target w.rx) → w.rx.key = w.req.key ∧
        w.rx.incarnation < s'.shell.inner.nextIncarnation ∧
        ∀ e, s'.shell.inner.entry w.rx.key = some e → e.fetcher.isSome := by
    rintro n w c rfl hev hout
    have hc := (hs.calls rfl).shell
    obtain ⟨e, hat, hrx, hkey, e', he', heq, -⟩ := hi.read_wait hc hev hout
    refine ⟨hkey, ?_, fun e'' he'' => ?_⟩
    · rw [hrx, hi.subject_tx hat.subject]
      exact (hi.after hc hat).2.2.2.2
    · rw [hkey, he'] at he''
      cases he''
      rw [heq, Inner.after_fetcher]
      unfold KeyEvent.react
      split_ifs <;> rfl
  constructor
  case channel =>
    intro n w hw
    rcases hs.waiter hw with hw | ⟨c, ha, -, hev, hout, -⟩
    · obtain ⟨hkey, hlt⟩ := h.channel n w hw
      exact ⟨hkey, hlt.trans_le hnext⟩
    · obtain ⟨hkey, hlt, -⟩ := hfresh n w c ha hev hout
      exact ⟨hkey, hlt⟩
  case fetcher =>
    intro n w hw
    rcases hs.waiter hw with hw | ⟨c, ha, -, hev, hout, -⟩
    · refine hs.entry_keeps hi (h.channel n w hw).2 (h.fetcher n w hw) ?_
      intro c kev e _ _ _ _ hf
      rw [Inner.after_fetcher]
      exact EntryCore.fetcher_react hf _ _ kev
    · obtain ⟨-, -, hf⟩ := hfresh n w c ha hev hout
      exact fun e he _ => hf e he
  case seen =>
    intro n w seen hw
    rcases hs.seen hw with heq | ⟨-, -, rfl, hlook⟩ | ⟨c, -, hn, -, -⟩
    · rw [heq] at hw
      obtain ⟨hsaw, hunmet⟩ := h.seen n w seen hw
      exact ⟨hs.saw hsaw, hunmet⟩
    · rw [hlook] at hw
      obtain ⟨-, -, hd, he, -⟩ := Waiter.looked_seen hw
      exact ⟨hs.saw (Watch.Saw.refl _), hd, he⟩
    · obtain ⟨hsaw, hunmet⟩ := h.seen n w seen (by rw [hn]; rfl)
      exact ⟨hs.saw hsaw, hunmet⟩
  case poking =>
    intro n w seen hn
    have hw : (s'.callers n).seen? = some (w, seen) := by rw [hn]; rfl
    rcases hs.seen hw with heq | ⟨-, -, -, hlook⟩ | ⟨c, -, -, -, hparked⟩
    · rw [heq] at hn
      exact h.poking n w seen hn
    · rw [hlook] at hw hn
      obtain ⟨-, -, -, -, hphase⟩ := Waiter.looked_seen hw
      rw [hphase] at hn
      split_ifs at hn with hidle
      exact hidle
    · rw [hparked] at hn
      cases hn
  case poked =>
    intro n w seen hn hidle
    have hw : (s'.callers n).seen? = some (w, seen) := by rw [hn]; rfl
    rcases hs.seen hw with heq | ⟨-, -, -, hlook⟩ | ⟨c, ha, hpoking, hev, -⟩
    · rw [heq] at hn
      have hlt := (h.channel n w (by rw [hn]; rfl)).2
      refine hs.entry_keeps hi hlt (h.poked n w seen hn hidle) ?_
      intro c kev e _ _ _ _ hv
      exact hv.trans_le (snapVersion_le_after _ _ _ kev e)
    · rw [hlook] at hw hn
      obtain ⟨-, -, -, -, hphase⟩ := Waiter.looked_seen hw
      rw [hphase, if_pos hidle] at hn
      cases hn
    · have hc := (hs.calls (by rw [ha]; rfl)).shell
      exact fun e' he' htx => h.poke hchan hi hpoking hc hev he' htx

end step

/-! ## The theorem -/

section run

variable [Platform] {defaults : QueryOptions} {log : Log V F} {s : Client V F}

/-- In every run the flights that are awaited run, or are about to. -/
theorem Run.spawned (h : Run defaults log s) : s.Spawned :=
  h.keeps (spawned_init defaults) fun _ _ _ hi hJ hs => hJ.step hi hs

/-- In every run the wait loop knows what it relies on. -/
theorem Run.waits (h : Run defaults log s) : s.Waits := by
  have hboth : s.Channels ∧ s.Waits :=
    h.keeps (J := fun s => s.Channels ∧ s.Waits) ⟨channels_init defaults, waits_init defaults⟩
      fun _ _ _ hi hJ hs => ⟨hJ.1.step hi hs, hJ.2.step hJ.1 hi hs⟩
  exact hboth.2

/-- The event, whenever it comes, can be handled and notifies the channel. -/
def Heard (s : Client V F) (rx : Channel) (ev : Event V F) : Prop :=
  ∀ now, ∃ c s', Step s (.dispatch c) s' ∧ c.event = ev ∧ c.now = now ∧
    ∃ sn, .notify rx sn ∈ c.out.effects

/-- An event that its entry marks for a `Notify` is heard. -/
theorem heard_of_notifies (hi : s.shell.Inv) (ev : Event V F) (hen : s.shell.Enabled ev)
    (hscan : ev.scans = false) (htask : ∀ task, ev.task? = some task → task ∈ s.tasks)
    {rx : Channel} {kev : KeyEvent V F} {e : EntryCore V F}
    (hat : s.shell.inner.At ev rx.key kev e) (htx : e.tx = rx)
    (hn : ∀ now, kev.notifies s.shell.inner.defaults now e = true) : s.Heard rx ev := by
  intro now
  have hscans : ev.scans = true → s.shell.inner.IsScan [] := fun h => absurd h (by simp [hscan])
  obtain ⟨inner, out, -, hstep⟩ := hi.step_exists hen now hscans
  have hnotices := hi.notices_of_at hstep hat
  refine ⟨_, _, .dispatch hstep htask, rfl, rfl, ?_⟩
  rw [hn now, if_pos rfl, htx] at hnotices
  have hmem := Effect.mem_notices.mp (hnotices ▸ List.mem_singleton.mpr rfl)
  exact ⟨_, hmem.2⟩

section heard

variable (hi : s.shell.Inv) {rx : Channel} {e : EntryCore V F}
  (he : s.shell.inner.entry rx.key = some e) (htx : e.tx = rx)

include hi he htx

/-- The result of the flight an entry waits for is heard, whatever it is. -/
theorem heard_delivery {seq : Nat} (hseq : e.inflight = some seq)
    (hflown : ⟨rx.key, rx.incarnation, seq⟩ ∈ s.shell.flights)
    (htask : .fetch ⟨rx.key, rx.incarnation, seq⟩ ∈ s.tasks) {ev : Event V F}
    (hev : ev.delivers ⟨rx.key, rx.incarnation, seq⟩) : s.Heard rx ev := by
  have hinc : e.incarnation = rx.incarnation := by rw [← htx, hi.tx _ e he]
  have hdrop : e.dropsCommit rx.incarnation seq = false :=
    EntryCore.dropsCommit_eq_false.mpr
      ⟨hinc, ((hi.shape _ e he).flying seq hseq).mutationActive, hseq⟩
  have hrunning : ∀ task, some (Task.fetch ⟨rx.key, rx.incarnation, seq⟩) = some task →
      task ∈ s.tasks := by
    rintro task ⟨⟩
    exact htask
  cases ev <;> simp only [Event.delivers, Flight.mk.injEq] at hev
  case commitOk key incarnation seq' value =>
    obtain ⟨rfl, rfl, rfl⟩ := hev
    refine heard_of_notifies hi (.commitOk _ _ _ value) hflown rfl hrunning
      ⟨if_pos rfl, he, rfl⟩ htx fun now => ?_
    rw [KeyEvent.notifies, hdrop]
    rfl
  case commitErr key incarnation seq' error =>
    obtain ⟨rfl, rfl, rfl⟩ := hev
    refine heard_of_notifies hi (.commitErr _ _ _ error) hflown rfl hrunning
      ⟨if_pos rfl, he, rfl⟩ htx fun now => ?_
    rw [KeyEvent.notifies, hdrop]
    rfl

/-- The settlement of an outstanding mutation is heard. -/
theorem heard_settlement {t : MutationToken} (ht : t ∈ s.shell.tokens) (hkey : t.key = rx.key)
    {ev : Event V F} (hev : ev.settles t) : s.Heard rx ev := by
  cases ev <;> simp only [Event.settles] at hev
  case mutateCommit token result flags =>
    subst hev
    exact heard_of_notifies hi (.mutateCommit _ result flags) ht rfl (fun task h => by cases h)
      ⟨if_pos hkey, he, rfl⟩ htx fun _ => rfl
  case mutateAbort token flags =>
    subst hev
    exact heard_of_notifies hi (.mutateAbort _ flags) ht rfl (fun task h => by cases h)
      ⟨if_pos hkey, he, rfl⟩ htx fun _ => rfl

end heard

/-- **No waiter is stranded.** Take any reachable configuration and a caller parked in `changed()` that
has seen the latest value of its channel, while the channel is open and no effect of its entry is
pending. What it saw does not meet its target, and the entry has a flight or an active mutation: a
fetch runs as a task and whatever it returns is heard on the channel, or a mutation is outstanding and
its settlement is. -/
theorem no_waiter_stranded (h : Run defaults log s) {n : Nat} {w : Waiter V F} {seen : Watch V}
    (hn : s.callers n = .parked w seen) (hlatest : seen.epoch = (s.channels w.rx).epoch)
    (hopen : s.isOpen w.rx = true) (hquiet : ∀ x ∈ s.pending, x.channel? ≠ some w.rx) :
    seen.value.dataSeq < w.target ∧ seen.value.errorSeq < w.target ∧
      ∃ e, s.shell.inner.entry w.rx.key = some e ∧ e.tx = w.rx ∧
        ((∃ seq, e.inflight = some seq ∧ .fetch ⟨w.rx.key, w.rx.incarnation, seq⟩ ∈ s.tasks ∧
            ∀ ev : Event V F, ev.delivers ⟨w.rx.key, w.rx.incarnation, seq⟩ → s.Heard w.rx ev) ∨
          (0 < e.mutationActive ∧ ∃ t ∈ s.shell.tokens, t.key = w.rx.key ∧
            ∀ ev : Event V F, ev.settles t → s.Heard w.rx ev)) := by
  have hi := h.inv
  have hwaits := h.waits
  obtain ⟨hsaw, hd, he⟩ := hwaits.seen n w seen (by rw [hn]; rfl)
  obtain rfl := hsaw.latest hlatest
  refine ⟨hd, he, ?_⟩
  -- The sender is not held by a pending `Notify`, so the entry is in the table.
  obtain ⟨e, hentry, htx⟩ : ∃ e, s.shell.inner.entry w.rx.key = some e ∧ e.tx = w.rx := by
    rw [isOpen, Bool.or_eq_true, Option.any_eq_true, List.any_eq_true] at hopen
    rcases hopen with ⟨e, hentry, htx⟩ | ⟨x, hx, hnotify⟩
    · exact ⟨e, hentry, of_decide_eq_true htx⟩
    · have hch := hquiet x hx
      cases x with
      | notify tx sn => exact absurd (congrArg some (of_decide_eq_true hnotify)) hch
      | _ => cases hnotify
  refine ⟨e, hentry, htx, ?_⟩
  have hinc : e.incarnation = w.rx.incarnation := by rw [← htx, hi.tx _ e hentry]
  -- Nothing is on the way, so what the caller saw is the state of the entry.
  have hsync : (s.channels w.rx).value = e.snapshotNow := by
    rw [← htx]
    refine (h.channels.live _ e hentry).settled ?_
    refine Set.eq_empty_iff_forall_notMem.mpr fun sn hsn => ?_
    exact hquiet _ hsn (congrArg some htx)
  have hbusy : (s.channels w.rx).value.isIdle = false := by
    by_contra hidle
    have hlt := hwaits.poked n w _ hn (Bool.eq_true_of_not_eq_false hidle) e hentry htx
    rw [hsync] at hlt
    exact lt_irrefl _ hlt
  rw [hsync] at hbusy
  rcases EntryCore.busy_of_not_idle hbusy with ⟨seq, hseq⟩ | hm
  · have hawaits : Shell.Awaits ⟨w.rx.key, w.rx.incarnation, seq⟩ s.shell :=
      ⟨e, hentry, hinc, hseq⟩
    have htask : Task.fetch ⟨w.rx.key, w.rx.incarnation, seq⟩ ∈ s.tasks := by
      refine (h.spawned _ hawaits).resolve_right ?_
      rintro ⟨fetcher, hx⟩
      exact hquiet _ hx rfl
    have hflown := Shell.flight_of_awaits h.shell hawaits
    exact .inl ⟨seq, hseq, htask, fun ev hev => heard_delivery hi hentry htx hseq hflown htask hev⟩
  · have hpos := hm
    rw [(hi.owned _ e hentry).mutations, List.countP_pos_iff] at hpos
    obtain ⟨t, ht, hkey⟩ := hpos
    have hkey := of_decide_eq_true hkey
    exact .inr ⟨hm, t, ht, hkey, fun ev hev => heard_settlement hi hentry htx ht hkey hev⟩

end run

section witness

attribute [local instance] Shell.exampleClock

/-- What a parked caller waits for, and what it has seen. -/
def Phase.parked? : Phase Nat Unit → Option (Waiter Nat Unit × Watch Nat)
  | .parked w seen => some (w, seen)
  | _ => none

/-- A caller of which this is known is parked. -/
theorem Phase.of_parked {p : Phase Nat Unit} {w : Waiter Nat Unit} {seen : Watch Nat}
    (h : parked? p = some (w, seen)) : p = .parked w seen := by
  unfold parked? at h
  split at h
  · cases h
    rfl
  · cases h

/-- A mutation begins under the fetch a caller waits for; the caller wakes, looks again and parks. -/
def interrupted : List (Input Nat Unit) :=
  [.call 0 (exampleRequest .ensureFresh), .read 0 0, .exec 0, .exec 0, .look 0,
   .dispatch (.mutateBegin ⟨0, []⟩ none) 1 [], .exec 1, .wake 0, .look 0]

/-- The caller that parked under the mutation will hear of its end. -/
theorem no_waiter_stranded_example : ∃ (log : Log Nat Unit) (s : Client Nat Unit) (w : _)
    (seen : Watch Nat), Run .default log s ∧ s.callers 0 = .parked w seen ∧ w.target = 1 ∧
      seen.value.dataSeq < w.target ∧ ∃ e, s.shell.inner.entry w.rx.key = some e ∧
        (e.inflight.isSome ∨ ∃ t ∈ s.shell.tokens, ∀ ev : Event Nat Unit,
          ev.settles t → s.Heard w.rx ev) := by
  have hfacts : (((init .default : Client Nat Unit).exec interrupted).bind fun r =>
      (Phase.parked? (r.2.callers 0)).map fun q =>
        (q.1.target, decide (q.2.epoch = (r.2.channels q.1.rx).epoch), r.2.isOpen q.1.rx,
          r.2.pending)) = some (1, true, true, []) := by decide +kernel
  obtain ⟨⟨log, s⟩, hex, hl⟩ := Option.bind_eq_some_iff.mp hfacts
  have hrun : Run .default log s := run_of_exec hex
  obtain ⟨⟨w, seen⟩, hparked, hl⟩ := Option.map_eq_some_iff.mp hl
  have hn : s.callers 0 = .parked w seen := Phase.of_parked hparked
  simp only [Prod.mk.injEq] at hl
  obtain ⟨htarget, hlatest, hopen, hpending⟩ := hl
  obtain ⟨hd, -, e, he, -, hbusy⟩ := no_waiter_stranded hrun hn (of_decide_eq_true hlatest)
    hopen fun x hx => by rw [hpending] at hx; cases hx
  refine ⟨log, s, w, seen, hrun, hn, htarget, hd, e, he, ?_⟩
  rcases hbusy with ⟨seq, hseq, -⟩ | ⟨-, t, ht, -, hheard⟩
  · rw [hseq]
    exact .inl rfl
  · exact .inr ⟨t, ht, hheard⟩

end witness

end Client

end SwrCore
