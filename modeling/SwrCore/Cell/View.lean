import SwrCore.Cell.Handled
import SwrCore.Library.Renaming

/-!
# Entries seen through a view

The handlers never look into a value, and they use incarnations and subscription ids as names. A
`View` says how values and names are looked at: it maps the data, the errors, the incarnations and
the subscription ids, and it may forget the comparators.

* `View`, `View.content`, `View.renamed` — views, and the two that are used: data up to content
  without comparators, and everything up to the names.
* `View.entry`, `View.effect`, `View.keyEvent`, … — entries, effects and events seen through a view.
* `View.react_entry`, `View.settled_entry`, `View.batch_entry`, `View.outcome_entry` — the action of
  an event commutes with the view.
-/

set_option linter.unusedSectionVars false

namespace SwrCore

variable {V W F : Type}

/-! ## Views -/

/-- A way of looking at the values and at the names the machine uses. -/
structure View (V W : Type) where
  data : V → W
  error : V → W
  /-- A view keeps the comparators or forgets them. -/
  compare : Option (Compare V) → Option (Compare W)
  incarnation : Nat → Nat
  subId : Nat → Nat
  /-- The comparators that the view agrees with. -/
  Admits : Compare V → Prop
  incarnation_inj : incarnation.Injective
  subId_inj : subId.Injective
  compare_none : compare none = none
  compare_or : ∀ c c', compare (c.or c') = (compare c).or (compare c')
  /-- Which of two values a commit keeps cannot be seen, unless the comparator can. -/
  shares : ∀ c, (∀ f, c = some f → Admits f) → ∀ old value,
    (if (compare c).any fun f => f (data old) (data value) then data old else data value) =
      data (if c.any fun f => f old value then old else value)

namespace View

/-- Data up to its content, errors as they are, no comparators. The comparators it agrees with hold
only of values with equal content. -/
def content {C : Type} (content : V → C) : View V (C ⊕ V) where
  data v := .inl (content v)
  error := .inr
  compare _ := none
  incarnation := id
  subId := id
  Admits f := ∀ old value, f old value = true → content old = content value
  incarnation_inj := Function.injective_id
  subId_inj := Function.injective_id
  compare_none := rfl
  compare_or _ _ := rfl
  shares c hc old value := by
    cases c with
    | none => rfl
    | some f =>
        cases hf : f old value with
        | false => simp [hf]
        | true => simp [hf, hc f rfl old value hf]

/-- Everything as it is, up to the names. -/
def renamed (ρ σ : Equiv.Perm Nat) : View V V where
  data := id
  error := id
  compare := id
  incarnation := ρ
  subId := σ
  Admits _ := True
  incarnation_inj := ρ.injective
  subId_inj := σ.injective
  compare_none := rfl
  compare_or _ _ := rfl
  shares _ _ _ _ := rfl

/-! ## What is seen -/

section seen

variable (v : View V W)

/-- A channel is named by the incarnation of its entry. -/
def channel (tx : Channel) : Channel := ⟨tx.key, v.incarnation tx.incarnation⟩

/-- The data of a snapshot is data, its error an error. -/
@[simps]
def snapshot (sn : Snapshot V) : Snapshot W where
  data := sn.data.map v.data
  error := sn.error.map v.error
  dataSeq := sn.dataSeq
  errorSeq := sn.errorSeq
  inflight := sn.inflight
  isMutating := sn.isMutating
  updatedAt := sn.updatedAt
  version := sn.version

/-- A rollback slot saves data and an error. -/
@[simps]
def slot (o : OptimisticSnapshot V) : OptimisticSnapshot W where
  prevData := o.prevData.map v.data
  prevError := o.prevError.map v.error
  prevDataSeq := o.prevDataSeq
  prevUpdatedAt := o.prevUpdatedAt
  writtenSeq := o.writtenSeq

/-- The subscribers keep their options, under other ids. -/
@[simps]
def options (o : EntryOptions) : EntryOptions where
  subs := o.subs.rename v.subId v.subId_inj
  lastTouchGcTime := o.lastTouchGcTime

/-- Every other field of an entry is seen as it is. -/
@[simps]
def entry (e : EntryCore V F) : EntryCore W F where
  incarnation := v.incarnation e.incarnation
  data := e.data.map v.data
  error := e.error.map v.error
  dataSeq := e.dataSeq
  errorSeq := e.errorSeq
  updatedAt := e.updatedAt
  seq := e.seq
  inflight := e.inflight
  mutationActive := e.mutationActive
  invalidated := e.invalidated
  optimistic := e.optimistic.map v.slot
  subscribers := e.subscribers
  gcGen := e.gcGen
  refreshGen := e.refreshGen
  focusBlockedUntil := e.focusBlockedUntil
  fetcher := e.fetcher
  compare := v.compare e.compare
  opts := v.options e.opts
  snapVersion := e.snapVersion
  tx := v.channel e.tx

/-- An effect names its entry, or carries a snapshot of it. -/
def effect : Effect V F → Effect W F
  | .startFetch key incarnation seq fetcher =>
    .startFetch key (v.incarnation incarnation) seq fetcher
  | .notify tx snapshot => .notify (v.channel tx) (v.snapshot snapshot)
  | .scheduleTimer key kind deadline generation => .scheduleTimer key kind deadline generation

/-- What a `Read` answers: a snapshot, or the channel to wait on. -/
def readOutcome : ReadOutcome V → ReadOutcome W
  | .ready snapshot => .ready (v.snapshot snapshot)
  | .wait target rx => .wait target (v.channel rx)
  | .noFetcher => .noFetcher

/-- What a call answers. Tokens name keys and seqs, which every view leaves alone. -/
def outcome : Outcome V → Outcome W
  | .none => .none
  | .read outcome => .read (v.readOutcome outcome)
  | .subscribed subId rx => .subscribed (v.subId subId) (v.channel rx)
  | .mutation token => .mutation token

/-- The result of a mutation is data or an error. -/
def result : Except V (Option V) → Except W (Option W)
  | .ok value => .ok (value.map v.data)
  | .error error => .error (v.error error)

/-- An event of one key brings values, and the names that it was handed. -/
def keyEvent : KeyEvent V F → KeyEvent W F
  | .read policy fetcher compare opts => .read policy fetcher (v.compare compare) opts
  | .subscribe subId fetcher compare opts =>
    .subscribe (v.subId subId) fetcher (v.compare compare) opts
  | .unsubscribe subId => .unsubscribe (v.subId subId)
  | .revalidateRequested => .revalidateRequested
  | .commitOk incarnation seq value => .commitOk (v.incarnation incarnation) seq (v.data value)
  | .commitErr incarnation seq error => .commitErr (v.incarnation incarnation) seq (v.error error)
  | .mutateSet value => .mutateSet (v.data value)
  | .mutateBegin optimistic => .mutateBegin (optimistic.map v.data)
  | .mutateCommit token result flags => .mutateCommit token (v.result result) flags
  | .mutateAbort token flags => .mutateAbort token flags
  | .invalidate => .invalidate
  | .broadcast ev => .broadcast ev
  | .timerFired kind generation => .timerFired kind generation

/-- The same for the event as `handle` gets it. -/
def event : Event V F → Event W F
  | .read key policy fetcher compare opts => .read key policy fetcher (v.compare compare) opts
  | .subscribe key fetcher compare opts => .subscribe key fetcher (v.compare compare) opts
  | .unsubscribe key subId => .unsubscribe key (v.subId subId)
  | .revalidateRequested key => .revalidateRequested key
  | .commitOk key incarnation seq value =>
    .commitOk key (v.incarnation incarnation) seq (v.data value)
  | .commitErr key incarnation seq error =>
    .commitErr key (v.incarnation incarnation) seq (v.error error)
  | .mutateSet key value => .mutateSet key (v.data value)
  | .mutateBegin key optimistic => .mutateBegin key (optimistic.map v.data)
  | .mutateCommit token result flags => .mutateCommit token (v.result result) flags
  | .mutateAbort token flags => .mutateAbort token flags
  | .invalidate pre => .invalidate pre
  | .broadcast ev => .broadcast ev
  | .timerFired key kind generation => .timerFired key kind generation

/-- Of the marks of an event only the fetches are seen. -/
@[simps]
def marks (m : Marks V F) : Marks W F where
  effects := m.effects.map v.effect
  touched := m.touched
  notify := m.notify
  refresh := m.refresh

/-- A key reads of an event what it reads of the event seen through the view. -/
theorem on_event (ev : Event V F) (k : QueryKey) (n : Nat) :
    (v.event ev).on k (v.subId n) = (ev.on k n).map v.keyEvent := by
  cases ev <;> simp only [event, Event.on] <;> first | rfl | (split_ifs <;> rfl)

/-- A view does not move an effect to another key. -/
theorem effect_key (x : Effect V F) : (v.effect x).key = x.key := by
  cases x <;> rfl

/-- So the effects of a key are seen one by one. -/
theorem of_effects (k : QueryKey) (effects : List (Effect V F)) :
    Effect.of k (effects.map v.effect) = (Effect.of k effects).map v.effect := by
  unfold Effect.of
  rw [List.filter_map]
  refine congrArg _ (List.filter_congr fun x _ => ?_)
  simp only [Function.comp_apply, v.effect_key]

end seen

/-! ## The action commutes with the view -/

section action

variable [Platform] (v : View V W) (defaults : QueryOptions) (now : Instant) (e : EntryCore V F)

/-- The options of the subscribers do not depend on the names of the subscriptions. -/
theorem values_options (o : EntryOptions) : (v.options o).values = o.values :=
  AList.rename_values v.subId_inj o.subs

/-- A new entry is seen as a new entry. -/
theorem entry_new (key : QueryKey) (n : Nat) :
    v.entry (.new key n : EntryCore V F) = .new key (v.incarnation n) := by
  have hopts : v.options .default = .default := rfl
  simp only [entry, EntryCore.new, Option.map_none, v.compare_none, hopts, channel]

/-- To supply a fetcher, a comparator and options commutes with the view, … -/
theorem entry_served (fetcher : Option F) (compare : Option (Compare V)) (opts : QueryOptions) :
    v.entry (e.served fetcher compare opts) =
      (v.entry e).served fetcher (v.compare compare) opts := by
  simp only [entry, EntryCore.served, EntryCore.provide, EntryCore.touch, v.compare_or, options]

/-- … to add a subscriber, … -/
theorem entry_joined (subId : Nat) (opts : QueryOptions) :
    v.entry (e.joined subId opts) = (v.entry e).joined (v.subId subId) opts := by
  simp only [entry, EntryCore.joined, options, AList.rename_insert]

/-- … and to remove one. -/
theorem entry_left (subId : Nat) :
    v.entry (e.left subId) = (v.entry e).left (v.subId subId) := by
  simp only [entry, EntryCore.left, options, AList.rename_erase]

/-- Incarnations are distinguished by the view, so a commit is dropped alike. -/
theorem dropsCommit_entry (incarnation seq : Nat) :
    (v.entry e).dropsCommit (v.incarnation incarnation) seq = e.dropsCommit incarnation seq := by
  have hne : decide (v.incarnation e.incarnation ≠ v.incarnation incarnation) =
      decide (e.incarnation ≠ incarnation) := decide_eq_decide.mpr v.incarnation_inj.ne_iff
  exact congrArg (· || decide (0 < e.mutationActive) || decide (e.inflight ≠ some seq)) hne

/-- Structural sharing cannot be seen. -/
theorem entry_landed (he : ∀ f, e.compare = some f → v.Admits f) (seq : Nat) (value : V) :
    v.entry (e.landed seq value now) = (v.entry e).landed seq (v.data value) now := by
  have hdata : (if e.unchanged value then e.data else some value).map v.data =
      if (v.entry e).unchanged (v.data value) then e.data.map v.data else some (v.data value) := by
    unfold EntryCore.unchanged
    cases hd : e.data with
    | none => simp [hd]
    | some old =>
        have hshares := v.shares e.compare he old value
        simp only [entry_data, entry_compare, hd, Option.map_some, Option.any_some]
        rw [← apply_ite some, Option.map_some, ← hshares, ← apply_ite some]
  simp only [entry, EntryCore.landed] at hdata ⊢
  rw [hdata]
  rfl

/-- Slots are told apart by the seq that was written. -/
theorem ownsSlot_entry (token : MutationToken) :
    (v.entry e).ownsSlot token = e.ownsSlot token := by
  simp only [EntryCore.ownsSlot, entry, Option.any_map]
  rfl

/-- To give up what was saved commutes with the view, … -/
theorem entry_slotCleared (token : MutationToken) :
    v.entry (e.slotCleared token) = (v.entry e).slotCleared token := by
  simp only [EntryCore.slotCleared, ownsSlot_entry]
  split_ifs <;> rfl

/-- … to restore it, … -/
theorem entry_rolledBack (token : MutationToken) (flag : Bool) :
    v.entry (e.rolledBack token flag) = (v.entry e).rolledBack token flag := by
  have hback : (v.entry e).rollsBack token flag = e.rollsBack token flag := by
    simp only [EntryCore.rollsBack, ownsSlot_entry]
    rfl
  simp only [EntryCore.rolledBack, hback]
  split_ifs
  · simp only [EntryCore.restored, entry_optimistic]
    cases e.optimistic <;> rfl
  · exact v.entry_slotCleared e token

/-- … and to settle a mutation. -/
theorem entry_resolved (token : MutationToken) (result : Except V (Option V))
    (flags : MutateFlags) :
    v.entry (e.resolved token result flags now) =
      (v.entry e).resolved token (v.result result) flags now := by
  rcases result with error | _ | value
  · exact v.entry_rolledBack { e with error := some error } token flags.rollbackOnError
  · exact v.entry_slotCleared e token
  · change v.entry (if flags.populate then e.overwritten value now else e.slotCleared token) =
      if flags.populate then (v.entry e).overwritten (v.data value) now
      else (v.entry e).slotCleared token
    split_ifs
    · rfl
    · exact v.entry_slotCleared e token

/-- Whether an entry heeds a broadcast depends on its times and its options. -/
theorem heeds_entry (ev : SwrEvent) :
    (v.entry e).heeds defaults ev now = e.heeds defaults ev now := by
  have henabled : (v.entry e).enabledOn ev = e.enabledOn ev := by
    cases ev <;>
      simp only [EntryCore.enabledOn, EntryOptions.anyOnFocus, EntryOptions.anyOnOnline,
        entry_opts, values_options]
  simp only [EntryCore.heeds, henabled, EntryOptions.minStaleTime, entry_opts, values_options]
  rfl

/-- What a handler makes of an entry commutes with the view. -/
theorem apply_entry (he : ∀ f, e.compare = some f → v.Admits f) (kev : KeyEvent V F) :
    (v.keyEvent kev).apply defaults now (v.entry e) = v.entry (kev.apply defaults now e) := by
  cases kev with
  | read policy fetcher compare opts => exact (v.entry_served e fetcher compare opts).symm
  | subscribe subId fetcher compare opts =>
      simp only [keyEvent, KeyEvent.apply, entry_joined, entry_served]
  | unsubscribe subId => exact (v.entry_left e subId).symm
  | commitOk incarnation seq value =>
      simp only [keyEvent, KeyEvent.apply, dropsCommit_entry]
      split_ifs
      · rfl
      · exact (v.entry_landed now e he seq value).symm
  | commitErr incarnation seq error =>
      simp only [keyEvent, KeyEvent.apply, dropsCommit_entry]
      split_ifs <;> rfl
  | mutateBegin optimistic => cases optimistic <;> rfl
  | mutateCommit token result flags =>
      exact (v.entry_resolved now e.released token result flags).symm
  | mutateAbort token flags =>
      exact (v.entry_rolledBack e.released token flags.rollbackOnError).symm
  | invalidate =>
      simp only [keyEvent, KeyEvent.apply, EntryCore.dirtied, entry_mutationActive, entry_inflight]
      split_ifs <;> rfl
  | broadcast ev =>
      simp only [keyEvent, KeyEvent.apply, heeds_entry, EntryCore.refocused,
        EntryOptions.minFocusThrottle, entry_opts, values_options]
      split_ifs <;> rfl
  | _ => rfl

/-- A fetch starts alike: no value is looked at. -/
theorem starts_entry (he : ∀ f, e.compare = some f → v.Admits f) (kev : KeyEvent V F) :
    (v.keyEvent kev).starts defaults now (v.entry e) = kev.starts defaults now e := by
  have hwants : (v.keyEvent kev).wants defaults now (v.entry e)
      (v.entry (kev.apply defaults now e)) =
        kev.wants defaults now e (kev.apply defaults now e) := by
    cases kev <;>
      simp only [keyEvent, KeyEvent.wants, entry_data, Option.isNone_map, heeds_entry] <;> rfl
  simp only [KeyEvent.starts, v.apply_entry defaults now e he, hwants]
  rfl

/-- **The action commutes with the view.** -/
theorem react_entry (he : ∀ f, e.compare = some f → v.Admits f) (kev : KeyEvent V F) :
    (v.keyEvent kev).react defaults now (v.entry e) = v.entry (kev.react defaults now e) := by
  simp only [KeyEvent.react, v.starts_entry defaults now e he, v.apply_entry defaults now e he]
  split_ifs <;> rfl

/-- An event leaves the same marks. -/
theorem marks_entry (he : ∀ f, e.compare = some f → v.Admits f) (key : QueryKey)
    (kev : KeyEvent V F) :
    (v.keyEvent kev).marks defaults now key (v.entry e) =
      v.marks (kev.marks defaults now key e) := by
  have hstarts := v.starts_entry defaults now e he
  have hfetch : (v.entry (kev.react defaults now e)).fetchEffect key =
      ((kev.react defaults now e).fetchEffect key).map v.effect := by
    simp only [EntryCore.fetchEffect, List.map_map]
    rfl
  have htouches : (v.keyEvent kev).touches defaults now (v.entry e) =
      kev.touches defaults now e := by
    cases kev <;> simp only [keyEvent, KeyEvent.touches, dropsCommit_entry, heeds_entry] <;> rfl
  have hnotifies : (v.keyEvent kev).notifies defaults now (v.entry e) =
      kev.notifies defaults now e := by
    have hquiet := hstarts kev
    cases kev with
    | commitOk incarnation seq value =>
        simp only [keyEvent, KeyEvent.notifies, dropsCommit_entry]
    | commitErr incarnation seq error =>
        simp only [keyEvent, KeyEvent.notifies, dropsCommit_entry]
    | _ => first | rfl | exact hquiet
  have hrearms : (v.keyEvent kev).rearms (v.entry e) = kev.rearms e := by
    cases kev with
    | commitOk incarnation seq value => simp only [keyEvent, KeyEvent.rearms, dropsCommit_entry]
    | commitErr incarnation seq error => simp only [keyEvent, KeyEvent.rearms, dropsCommit_entry]
    | _ => rfl
  simp only [KeyEvent.marks, marks, hstarts, htouches, hnotifies, hrearms,
    v.react_entry defaults now e he, hfetch]
  split_ifs <;> rfl

/-- A snapshot shows what the view sees of the entry. -/
theorem snapshotNow_entry : (v.entry e).snapshotNow = v.snapshot e.snapshotNow := rfl

/-- **So does the answer.** It is a snapshot of the entry, or names its channel. -/
theorem outcome_entry (he : ∀ f, e.compare = some f → v.Admits f) (key : QueryKey)
    (kev : KeyEvent V F) :
    (v.keyEvent kev).outcome defaults now key (v.entry e) =
      v.outcome (kev.outcome defaults now key e) := by
  have hwait : ∀ e : EntryCore V F, (v.entry e).waitOutcome = v.readOutcome e.waitOutcome := by
    intro e
    simp only [EntryCore.waitOutcome, entry_inflight, entry_mutationActive]
    cases e.inflight with
    | none => split_ifs <;> rfl
    | some s => rfl
  cases kev with
  | read policy fetcher compare opts =>
      have hreact := v.react_entry defaults now e he (.read policy fetcher compare opts)
      simp only [keyEvent] at hreact
      simp only [keyEvent, KeyEvent.outcome, outcome, hreact, ← entry_served]
      have hstale : (v.entry e).isStale opts.staleTime now = e.isStale opts.staleTime now := rfl
      rw [hstale]
      cases policy <;>
        simp only [KeyEvent.readOutcome, entry_data, Option.isSome_map, snapshotNow_entry, hwait]
      · split_ifs <;> rfl
      · split_ifs <;> rfl
      · rfl
  | mutateBegin optimistic => cases optimistic <;> rfl
  | _ => rfl

/-- The answer where there is no entry. -/
theorem missOutcome_entry (kev : KeyEvent V F) :
    (v.keyEvent kev).missOutcome = v.outcome kev.missOutcome := by
  cases kev <;> rfl

/-- An assertion fails alike. -/
theorem safe_entry (kev : KeyEvent V F) : (v.keyEvent kev).Safe (v.entry e) ↔ kev.Safe e := by
  cases kev with
  | commitOk incarnation seq value =>
      simp only [keyEvent, KeyEvent.Safe, dropsCommit_entry]
      exact Iff.rfl
  | _ => exact Iff.rfl

/-! ### The stages after the handler -/

/-- The GC rule counts the generation up alike. -/
theorem gcArmed_entry : (v.entry e).gcArmed = v.entry e.gcArmed := by
  have hquiet : (v.entry e).isQuiescent = e.isQuiescent := rfl
  simp only [EntryCore.gcArmed, hquiet]
  split_ifs <;> rfl

/-- It schedules the same timer. -/
theorem gcTimer_entry (key : QueryKey) :
    (v.entry e).gcTimer defaults now key = (e.gcTimer defaults now key).map v.effect := by
  have hquiet : (v.entry e).isQuiescent = e.isQuiescent := rfl
  simp only [EntryCore.gcTimer, hquiet, EntryOptions.gcTime, entry_opts, values_options]
  split_ifs
  · rw [List.map_map]
    rfl
  · rfl

/-- The next tick is due at the same time, … -/
theorem refreshAt_entry : (v.entry e).refreshAt now = e.refreshAt now := by
  simp only [EntryCore.refreshAt, EntryOptions.refreshInterval, entry_opts, values_options]

/-- … counts the generation up alike, … -/
theorem refreshArmed_entry : (v.entry e).refreshArmed now = v.entry (e.refreshArmed now) := by
  simp only [EntryCore.refreshArmed, entry_subscribers, refreshAt_entry]
  split_ifs <;> rfl

/-- … and is scheduled alike. -/
theorem refreshTimer_entry (key : QueryKey) :
    (v.entry e).refreshTimer now key = (e.refreshTimer now key).map v.effect := by
  simp only [EntryCore.refreshTimer, entry_subscribers, refreshAt_entry]
  split_ifs
  · rw [List.map_map]
    rfl
  · rfl

/-- **The stages after the handler commute with the view.** -/
theorem settled_entry (m : Marks V F) :
    (v.entry e).settled now (v.marks m) = v.entry (e.settled now m) := by
  have hnotified : ∀ e : EntryCore V F, (v.entry e).notified = v.entry e.notified := fun _ => rfl
  simp only [EntryCore.settled, marks_touched, marks_refresh, marks_notify]
  split_ifs <;> simp only [gcArmed_entry, refreshArmed_entry, hnotified]

/-- So does the batch that they leave. -/
theorem batch_entry (key : QueryKey) (m : Marks V F) :
    (v.entry e).batch defaults now key (v.marks m) = (e.batch defaults now key m).map v.effect := by
  have htimers : (v.entry e).timers defaults now key (v.marks m) =
      (e.timers defaults now key m).map v.effect := by
    simp only [EntryCore.timers, marks_touched, marks_refresh, List.map_append, gcTimer_entry]
    split_ifs <;> simp only [gcArmed_entry, refreshTimer_entry, List.map_nil]
  simp only [EntryCore.batch, marks_effects, marks_notify, htimers, settled_entry,
    snapshotNow_entry, List.map_append]
  split_ifs <;> rfl

end action

/-! ## One key of the machine -/

section cell

variable [Platform] (v : View V W) {s : Inner V F} {t : Inner W F} {k : QueryKey}
  {ev : Event V F} {ev' : Event W F}

/-- Two tables that a key cannot tell apart, up to the view, on two events that it cannot tell
apart. Where the event creates the entry, the new incarnations are seen as one. -/
structure Alike (v : View V W) (s : Inner V F) (t : Inner W F) (k : QueryKey) (ev : Event V F)
    (ev' : Event W F) : Prop where
  defaults : t.defaults = s.defaults
  entry : t.entry k = (s.entry k).map v.entry
  admits : ∀ e f, s.entry k = some e → e.compare = some f → v.Admits f
  on : ev'.on k t.nextSubId = (ev.on k s.nextSubId).map v.keyEvent
  fresh : ∀ kev, ev.on k s.nextSubId = some kev → kev.creates = true → s.entry k = none →
    t.nextIncarnation = v.incarnation s.nextIncarnation

variable {v}

/-- An event creates an entry alike. -/
theorem creates_keyEvent (v : View V W) (kev : KeyEvent V F) :
    (v.keyEvent kev).creates = kev.creates := by
  cases kev <;> rfl

/-- It removes one alike. -/
theorem removes_keyEvent (v : View V W) (kev : KeyEvent V F) (e : EntryCore V F) :
    (v.keyEvent kev).removes (v.entry e) = kev.removes e := by
  cases kev with
  | timerFired kind generation => cases kind <;> rfl
  | _ => rfl

/-- The entry that the event acts on is seen as the one that the other event acts on, new or not. -/
theorem Alike.subject (h : v.Alike s t k ev ev') {kev : KeyEvent V F}
    (hon : ev.on k s.nextSubId = some kev) :
    t.subject k (v.keyEvent kev) = (s.subject k kev).map v.entry := by
  simp only [Inner.subject, creates_keyEvent, h.entry]
  split_ifs with hc
  · cases he : s.entry k with
    | none => simp only [Option.map_none, Option.getD_none, Option.map_some, entry_new,
        h.fresh kev hon hc he]
    | some e => rfl
  · rfl

/-- A new entry has no comparator, and one from the table has one that the view agrees with. -/
theorem Alike.subject_admits (h : v.Alike s t k ev ev') {kev : KeyEvent V F} {e : EntryCore V F}
    (hsub : s.subject k kev = some e) : ∀ f, e.compare = some f → v.Admits f := by
  intro f hf
  unfold Inner.subject at hsub
  split_ifs at hsub
  · cases he : s.entry k with
    | none =>
        rw [he] at hsub
        cases hsub
        cases hf
    | some e₀ =>
        rw [he] at hsub
        cases hsub
        exact h.admits _ f he hf
  · exact h.admits e f hsub hf

/-- What the handler leaves to the key, and the marks. -/
theorem Alike.reacted (h : v.Alike s t k ev ev') (now : Instant) :
    t.reacted k ev' now = (s.reacted k ev now).map v.entry ∧
      t.marked k ev' now = v.marks (s.marked k ev now) := by
  simp only [Inner.reacted, Inner.marked, h.on]
  cases hon : ev.on k s.nextSubId with
  | none => exact ⟨h.entry, rfl⟩
  | some kev =>
      simp only [Option.map_some, h.subject hon, h.defaults]
      cases hsub : s.subject k kev with
      | none => exact ⟨rfl, rfl⟩
      | some e =>
          have he := h.subject_admits hsub
          simp only [Option.map_some, Option.bind_some, Option.elim_some, removes_keyEvent,
            v.react_entry _ _ e he, v.marks_entry _ _ e he]
          refine ⟨?_, trivial⟩
          split_ifs <;> rfl

/-- **A key cannot tell the two tables apart after the event either.** -/
theorem Alike.cell (h : v.Alike s t k ev ev') (now : Instant) :
    t.cell k ev' now = (s.cell k ev now).map v.entry ∧
      t.cellEffects k ev' now = (s.cellEffects k ev now).map v.effect := by
  obtain ⟨hreacted, hmarked⟩ := h.reacted now
  simp only [Inner.cell, Inner.cellEffects, hreacted, hmarked, h.defaults]
  cases s.reacted k ev now with
  | none => exact ⟨rfl, rfl⟩
  | some e => exact ⟨congrArg some (v.settled_entry now e _), v.batch_entry _ now e k _⟩

/-- The two calls answer alike. -/
theorem Alike.answer (h : v.Alike s t k ev ev') {kev : KeyEvent V F}
    (hon : ev.on k s.nextSubId = some kev) (now : Instant) :
    t.answer k (v.keyEvent kev) now = v.outcome (s.answer k kev now) := by
  simp only [Inner.answer, h.subject hon, h.defaults]
  cases hsub : s.subject k kev with
  | none => exact v.missOutcome_entry kev
  | some e => exact v.outcome_entry _ now e (h.subject_admits hsub) k kev

end cell

end View

end SwrCore
