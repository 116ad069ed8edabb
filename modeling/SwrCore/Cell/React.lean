import SwrCore.Model.Machine

/-!
# One key: what an event does to one entry

The handlers of the machine act on one entry at a time. This file describes that action as pure
functions of the entry, and proves that the handler bodies compute them:

* `KeyEvent` — an event as one key sees it; `Event.on` is that reading, and `Event.On` lists its cases.
* `KeyEvent.apply` — the entry after the event, before any fetch it starts.
* `KeyEvent.starts` — whether the event then starts a fetch; `EntryCore.started` is the entry after.
* `KeyEvent.marks` — what the event pushes and marks in the working set.
* `KeyEvent.Safe` — the assertions the handler body makes.
* `body_eq`, `safe_of_body` — a handler body ends without a panic exactly on safe entries, and then
  returns `react`, `marks` and `outcome`.
-/

set_option linter.unusedSectionVars false

namespace SwrCore

variable {V F : Type}

/-! ## Events on one key -/

/-- An event as the key it concerns sees it. -/
inductive KeyEvent (V F : Type) where
  | read (policy : ReadPolicy) (fetcher : Option F) (compare : Option (Compare V))
      (opts : QueryOptions)
  | subscribe (subId : Nat) (fetcher : Option F) (compare : Option (Compare V))
      (opts : QueryOptions)
  | unsubscribe (subId : Nat)
  | revalidateRequested
  | commitOk (incarnation seq : Nat) (value : V)
  | commitErr (incarnation seq : Nat) (error : V)
  | mutateSet (value : V)
  | mutateBegin (optimistic : Option V)
  | mutateCommit (token : MutationToken) (result : Except V (Option V)) (flags : MutateFlags)
  | mutateAbort (token : MutationToken) (flags : MutateFlags)
  | invalidate
  | broadcast (ev : SwrEvent)
  | timerFired (kind : TimerKind) (generation : Nat)

/-- The reading of an event by the key `k`; `none` if the event does not concern `k`. -/
def Event.on (k : QueryKey) (subId : Nat) : Event V F → Option (KeyEvent V F)
  | .read key policy fetcher compare opts =>
    if key = k then some (.read policy fetcher compare opts) else none
  | .subscribe key fetcher compare opts =>
    if key = k then some (.subscribe subId fetcher compare opts) else none
  | .unsubscribe key subId => if key = k then some (.unsubscribe subId) else none
  | .revalidateRequested key => if key = k then some .revalidateRequested else none
  | .commitOk key incarnation seq value =>
    if key = k then some (.commitOk incarnation seq value) else none
  | .commitErr key incarnation seq error =>
    if key = k then some (.commitErr incarnation seq error) else none
  | .mutateSet key value => if key = k then some (.mutateSet value) else none
  | .mutateBegin key optimistic => if key = k then some (.mutateBegin optimistic) else none
  | .mutateCommit token result flags =>
    if token.key = k then some (.mutateCommit token result flags) else none
  | .mutateAbort token flags => if token.key = k then some (.mutateAbort token flags) else none
  | .invalidate pre => if k.matchesPrefix pre then some .invalidate else none
  | .broadcast ev => some (.broadcast ev)
  | .timerFired key kind generation =>
    if key = k then some (.timerFired kind generation) else none

/-- The events that concern the key `k`, with its reading of them. -/
inductive Event.On (k : QueryKey) (subId : Nat) : Event V F → KeyEvent V F → Prop
  | read {policy fetcher compare opts} :
      On k subId (.read k policy fetcher compare opts) (.read policy fetcher compare opts)
  | subscribe {fetcher compare opts} :
      On k subId (.subscribe k fetcher compare opts) (.subscribe subId fetcher compare opts)
  | unsubscribe {id} : On k subId (.unsubscribe k id) (.unsubscribe id)
  | revalidateRequested : On k subId (.revalidateRequested k) .revalidateRequested
  | commitOk {incarnation seq value} :
      On k subId (.commitOk k incarnation seq value) (.commitOk incarnation seq value)
  | commitErr {incarnation seq error} :
      On k subId (.commitErr k incarnation seq error) (.commitErr incarnation seq error)
  | mutateSet {value} : On k subId (.mutateSet k value) (.mutateSet value)
  | mutateBegin {optimistic} : On k subId (.mutateBegin k optimistic) (.mutateBegin optimistic)
  | mutateCommit {token result flags} (hk : token.key = k) :
      On k subId (.mutateCommit token result flags) (.mutateCommit token result flags)
  | mutateAbort {token flags} (hk : token.key = k) :
      On k subId (.mutateAbort token flags) (.mutateAbort token flags)
  | invalidate {pre} (hk : k.matchesPrefix pre = true) : On k subId (.invalidate pre) .invalidate
  | broadcast {ev} : On k subId (.broadcast ev) (.broadcast ev)
  | timerFired {kind generation} :
      On k subId (.timerFired k kind generation) (.timerFired kind generation)

/-- The cases of an event that concerns a key. -/
theorem Event.on_inv {k : QueryKey} {subId : Nat} {ev : Event V F} {kev : KeyEvent V F}
    (h : ev.on k subId = some kev) : Event.On k subId ev kev := by
  cases ev with
  | broadcast ev =>
      cases h
      exact .broadcast
  | mutateCommit token result flags =>
      obtain ⟨hk, heq⟩ := Option.ite_none_right_eq_some.mp h
      cases heq
      exact .mutateCommit hk
  | mutateAbort token flags =>
      obtain ⟨hk, heq⟩ := Option.ite_none_right_eq_some.mp h
      cases heq
      exact .mutateAbort hk
  | invalidate pre =>
      obtain ⟨hk, heq⟩ := Option.ite_none_right_eq_some.mp h
      cases heq
      exact .invalidate hk
  | _ =>
      obtain ⟨rfl, heq⟩ := Option.ite_none_right_eq_some.mp h
      cases heq
      constructor

/-! ## The action on the entry -/

/-- What one event adds to the working set for one key. -/
structure Marks (V F : Type) where
  effects : List (Effect V F)
  touched : Bool
  notify : Bool
  refresh : Bool

/-- The working set with the marks of one key added. -/
def Ctx.mark (ctx : Ctx V F) (key : QueryKey) (m : Marks V F) : Ctx V F where
  effects := ctx.effects ++ m.effects
  notify := if m.notify then addKey ctx.notify key else ctx.notify
  touched := if m.touched then addKey ctx.touched key else ctx.touched
  refreshChanged :=
    if m.refresh then addKey ctx.refreshChanged key else ctx.refreshChanged

namespace EntryCore

/-- The entry after `start_fetch`. -/
def started (e : EntryCore V F) : EntryCore V F :=
  { e with seq := e.seq + 1, inflight := some (e.seq + 1), invalidated := false }

/-- The `StartFetch` of the flight an entry just started. -/
def fetchEffect (e : EntryCore V F) (key : QueryKey) : List (Effect V F) :=
  e.fetcher.toList.map fun fetcher => .startFetch key e.incarnation e.seq fetcher

/-- What a read that cannot be answered at once waits for. -/
def waitOutcome (e : EntryCore V F) : ReadOutcome V :=
  match e.inflight with
  | some s => .wait s e.tx
  | none => if 0 < e.mutationActive then .wait e.seq e.tx else .noFetcher

/-- The entry after a read or a subscription handed over its fetcher, comparator and `gc_time`. -/
def served (e : EntryCore V F) (fetcher : Option F) (compare : Option (Compare V))
    (opts : QueryOptions) : EntryCore V F :=
  (e.provide fetcher compare).touch opts

/-- The entry after a subscriber joined. -/
def joined (e : EntryCore V F) (subId : Nat) (opts : QueryOptions) : EntryCore V F :=
  { e with
    opts := { e.opts with subs := e.opts.subs.insert subId opts }
    subscribers := e.subscribers + 1
    gcGen := e.gcGen + 1 }

/-- The entry after a subscriber left. -/
def left (e : EntryCore V F) (subId : Nat) : EntryCore V F :=
  { e with
    subscribers := e.subscribers - 1
    opts := { e.opts with subs := e.opts.subs.erase subId } }

/-- Whether an equal value lets the stored one stay (structural sharing). -/
def unchanged (e : EntryCore V F) (value : V) : Bool :=
  e.compare.any fun compare => e.data.any fun old => compare old value

/-- The entry after its flight landed. -/
def landed (e : EntryCore V F) (seq : Nat) (value : V) (now : Instant) : EntryCore V F :=
  { e with
    data := if e.unchanged value then e.data else some value
    dataSeq := seq
    updatedAt := some now
    error := none
    inflight := none
    optimistic := none }

/-- The entry after its flight failed. -/
def failed (e : EntryCore V F) (seq : Nat) (error : V) : EntryCore V F :=
  { e with error := some error, errorSeq := seq, inflight := none }

/-- The entry after `MutateSet`, or after a populating `MutateCommit`. -/
def overwritten (e : EntryCore V F) (value : V) (now : Instant) : EntryCore V F :=
  { e.localWrite value now with optimistic := none }

/-- The entry after a mutation began without an optimistic value. -/
def entered (e : EntryCore V F) : EntryCore V F :=
  { e with mutationActive := e.mutationActive + 1, seq := e.seq + 1, inflight := none }

/-- The optimistic write of a mutation that just entered. -/
def optimisticWrite (e : EntryCore V F) (value : V) : EntryCore V F :=
  { e with
    seq := e.seq + 1
    optimistic := some {
      prevData := e.data
      prevError := e.error
      prevDataSeq := e.dataSeq
      prevUpdatedAt := e.updatedAt
      writtenSeq := e.seq + 1 }
    data := some value
    dataSeq := e.seq + 1 }

/-- The entry after `MutateBegin`. -/
def begun (e : EntryCore V F) (optimistic : Option V) : EntryCore V F :=
  match optimistic with
  | none => e.entered
  | some value => e.entered.optimisticWrite value

/-- The entry with one active mutation less. -/
def released (e : EntryCore V F) : EntryCore V F :=
  { e with mutationActive := e.mutationActive - 1 }

/-- Whether the rollback slot was taken by the mutation of this token. -/
def ownsSlot (e : EntryCore V F) (token : MutationToken) : Bool :=
  e.optimistic.any fun s => decide (some s.writtenSeq = token.writtenSeq)

/-- The entry with the rollback slot emptied if the mutation of this token owns it. -/
def slotCleared (e : EntryCore V F) (token : MutationToken) : EntryCore V F :=
  if e.ownsSlot token then { e with optimistic := none } else e

/-- Whether the failure of this mutation restores the state before its optimistic write. -/
def rollsBack (e : EntryCore V F) (token : MutationToken) (rollbackOnError : Bool) : Bool :=
  e.ownsSlot token && rollbackOnError && decide (some e.dataSeq = token.writtenSeq)

/-- Restore what the rollback slot saved. -/
def restored (e : EntryCore V F) : EntryCore V F :=
  match e.optimistic with
  | none => e
  | some snap =>
    { e with
      data := snap.prevData
      error := snap.prevError
      dataSeq := snap.prevDataSeq
      updatedAt := snap.prevUpdatedAt
      optimistic := none }

/-- The entry after `rollback_if_unclobbered`. -/
def rolledBack (e : EntryCore V F) (token : MutationToken) (rollbackOnError : Bool) :
    EntryCore V F :=
  if e.rollsBack token rollbackOnError then e.restored else e.slotCleared token

/-- The entry after the result of a mutation was applied. -/
def resolved (e : EntryCore V F) (token : MutationToken) (result : Except V (Option V))
    (flags : MutateFlags) (now : Instant) : EntryCore V F :=
  match result with
  | .ok (some value) => if flags.populate then e.overwritten value now else e.slotCleared token
  | .ok none => e.slotCleared token
  | .error error => { e with error := some error }.rolledBack token flags.rollbackOnError

/-- The entry after an invalidation, before the refetch it may start. -/
def dirtied (e : EntryCore V F) : EntryCore V F :=
  if e.inflight.isSome then { e with invalidated := true, seq := e.seq + 1, inflight := none }
  else { e with invalidated := true }

/-- Whether the throttle window suppresses a broadcast. -/
def throttled (e : EntryCore V F) (ev : SwrEvent) (now : Instant) : Bool :=
  decide (ev = .focus) && (e.focusBlockedUntil.any fun till => decide (now < till))

/-- Whether some subscriber enables revalidation on the event. -/
def enabledOn (e : EntryCore V F) : SwrEvent → Bool
  | .focus => e.opts.anyOnFocus
  | .online => e.opts.anyOnOnline

/-- Whether a broadcast starts a fetch: every condition of `on_broadcast`. -/
def heeds [Platform] (e : EntryCore V F) (defaults : QueryOptions) (ev : SwrEvent)
    (now : Instant) : Bool :=
  e.isActive && e.enabledOn ev && !e.throttled ev now
    && e.isStale (e.opts.minStaleTime defaults.staleTime) now && e.canStartFetch

/-- Re-arming the throttle window. -/
def refocused [Platform] (e : EntryCore V F) (defaults : QueryOptions) (ev : SwrEvent)
    (now : Instant) : EntryCore V F :=
  if ev = .focus then
    { e with
      focusBlockedUntil :=
        Instant.checkedAdd now (e.opts.minFocusThrottle defaults.focusThrottle) }
  else e

end EntryCore

namespace KeyEvent

/-- The entry after the event, before any fetch it starts and before the post-rules. -/
def apply [Platform] (defaults : QueryOptions) (now : Instant) (e : EntryCore V F) :
    KeyEvent V F → EntryCore V F
  | .read _ fetcher compare opts => e.served fetcher compare opts
  | .subscribe subId fetcher compare opts => (e.served fetcher compare opts).joined subId opts
  | .unsubscribe subId => e.left subId
  | .revalidateRequested => e
  | .commitOk incarnation seq value =>
    if e.dropsCommit incarnation seq then e else e.landed seq value now
  | .commitErr incarnation seq error =>
    if e.dropsCommit incarnation seq then e else e.failed seq error
  | .mutateSet value => e.overwritten value now
  | .mutateBegin optimistic => e.begun optimistic
  | .mutateCommit token result flags => e.released.resolved token result flags now
  | .mutateAbort token flags => e.released.rolledBack token flags.rollbackOnError
  | .invalidate => if 0 < e.mutationActive then { e with invalidated := true } else e.dirtied
  | .broadcast ev => if e.heeds defaults ev now then e.refocused defaults ev now else e
  | .timerFired _ _ => e

/-- Whether the event wants a fetch, `e` being the entry before it and `e'` the entry `apply`
made. -/
def wants [Platform] (defaults : QueryOptions) (now : Instant) (e e' : EntryCore V F) :
    KeyEvent V F → Bool
  | .read policy _ _ opts =>
    decide (policy ≠ .cacheOnly) && (e.data.isNone || e.isStale opts.staleTime now)
  | .subscribe _ _ _ opts => e.data.isNone || e.isStale opts.staleTime now
  | .unsubscribe _ => false
  | .revalidateRequested => true
  | .commitOk _ _ _ => false
  | .commitErr _ _ _ => false
  | .mutateSet _ => false
  | .mutateBegin _ => false
  | .mutateCommit _ _ flags => flags.revalidate || e'.invalidated
  | .mutateAbort _ flags => flags.revalidate || e'.invalidated
  | .invalidate => e.isActive
  | .broadcast ev => e.heeds defaults ev now
  | .timerFired kind generation =>
    decide (kind = .refresh) && decide (generation = e.refreshGen) && e.isActive

/-- Whether the event starts a fetch. -/
def starts [Platform] (defaults : QueryOptions) (now : Instant) (e : EntryCore V F)
    (ev : KeyEvent V F) : Bool :=
  ev.wants defaults now e (ev.apply defaults now e) && (ev.apply defaults now e).canStartFetch

/-- The entry after the event, before the post-rules. -/
def react [Platform] (defaults : QueryOptions) (now : Instant) (e : EntryCore V F)
    (ev : KeyEvent V F) : EntryCore V F :=
  if ev.starts defaults now e then (ev.apply defaults now e).started
  else ev.apply defaults now e

/-- Whether the event marks the key as touched. -/
def touches [Platform] (defaults : QueryOptions) (now : Instant) (e : EntryCore V F) :
    KeyEvent V F → Bool
  | .read _ _ _ _ => true
  | .subscribe _ _ _ _ => true
  | .unsubscribe _ => true
  | .revalidateRequested => e.fetcher.isSome
  | .commitOk incarnation seq _ => !e.dropsCommit incarnation seq
  | .commitErr incarnation seq _ => !e.dropsCommit incarnation seq
  | .mutateSet _ => true
  | .mutateBegin _ => true
  | .mutateCommit _ _ _ => true
  | .mutateAbort _ _ => true
  | .invalidate => true
  | .broadcast ev => e.heeds defaults ev now
  | .timerFired kind generation =>
    decide (kind = .refresh) && decide (generation = e.refreshGen) && e.isActive
      && e.canStartFetch

/-- Whether the event marks the key for a `Notify`. -/
def notifies [Platform] (defaults : QueryOptions) (now : Instant) (e : EntryCore V F) :
    KeyEvent V F → Bool
  | .commitOk incarnation seq _ => !e.dropsCommit incarnation seq
  | .commitErr incarnation seq _ => !e.dropsCommit incarnation seq
  | .mutateSet _ => true
  | .mutateBegin _ => true
  | .mutateCommit _ _ _ => true
  | .mutateAbort _ _ => true
  | .invalidate => decide (e.mutationActive = 0)
  | ev => ev.starts defaults now e

/-- Whether the event marks the refresh basis of the key as changed. -/
def rearms (e : EntryCore V F) : KeyEvent V F → Bool
  | .subscribe _ _ _ _ => true
  | .unsubscribe _ => true
  | .commitOk incarnation seq _ => !e.dropsCommit incarnation seq
  | .commitErr incarnation seq _ => !e.dropsCommit incarnation seq
  | .timerFired kind generation =>
    decide (kind = .refresh) && decide (generation = e.refreshGen) && e.isActive
  | _ => false

/-- What the assertions of the handler body demand of the entry. -/
def Safe (e : EntryCore V F) : KeyEvent V F → Prop
  | .unsubscribe _ => 0 < e.subscribers
  | .commitOk incarnation seq _ =>
    e.dropsCommit incarnation seq = false → e.seq = seq ∧ e.invalidated = false
  | .mutateCommit _ _ _ => 0 < e.mutationActive
  | .mutateAbort _ _ => 0 < e.mutationActive
  | _ => True

/-- The token of a settlement names the key. -/
def OfKey (key : QueryKey) : KeyEvent V F → Prop
  | .mutateCommit token _ _ => token.key = key
  | .mutateAbort token _ => token.key = key
  | _ => True

/-- What the event pushes and marks for the key. -/
def marks [Platform] (defaults : QueryOptions) (now : Instant) (key : QueryKey)
    (e : EntryCore V F) (ev : KeyEvent V F) : Marks V F where
  effects := if ev.starts defaults now e then (ev.react defaults now e).fetchEffect key else []
  touched := ev.touches defaults now e
  notify := ev.notifies defaults now e
  refresh := ev.rearms e

/-- What a read answers, `e` being the entry it served and `e'` the entry after the fetch it may
have started. -/
def readOutcome (stale : Bool) (e e' : EntryCore V F) : ReadPolicy → ReadOutcome V
  | .cacheOnly => .ready e.snapshotNow
  | .staleWhileRevalidate =>
    if e.data.isSome && !stale then .ready e.snapshotNow
    else if e.data.isSome then .ready e'.snapshotNow
    else e'.waitOutcome
  | .ensureFresh => if e.data.isSome && !stale then .ready e.snapshotNow else e'.waitOutcome

/-- What the event returns to its caller. -/
def outcome [Platform] (defaults : QueryOptions) (now : Instant) (key : QueryKey)
    (e : EntryCore V F) (ev : KeyEvent V F) : Outcome V :=
  match ev with
  | .read policy fetcher compare opts =>
    .read (readOutcome (e.isStale opts.staleTime now) (e.served fetcher compare opts)
      (ev.react defaults now e) policy)
  | .subscribe subId _ _ _ => .subscribed subId e.tx
  | .mutateBegin none => .mutation ⟨key, none⟩
  | .mutateBegin (some _) => .mutation ⟨key, some (e.seq + 2)⟩
  | _ => .none

/-- The handler body of the event. -/
def body [Platform] (defaults : QueryOptions) (now : Instant) (key : QueryKey)
    (ev : KeyEvent V F) (e : EntryCore V F) (ctx : Ctx V F) :
    Except Panic (EntryCore V F × Ctx V F × Outcome V) :=
  match ev with
  | .read policy fetcher compare opts =>
    if policy = .cacheOnly then e.onReadCacheOnly key fetcher compare opts ctx
    else e.onRead key policy fetcher compare opts now ctx
  | .subscribe subId fetcher compare opts =>
    e.onSubscribe key subId fetcher compare opts now ctx
  | .unsubscribe subId => e.onUnsubscribe key subId ctx
  | .revalidateRequested => e.onRevalidateRequested key ctx
  | .commitOk incarnation seq value => e.onCommitOk key incarnation seq value now ctx
  | .commitErr incarnation seq error => e.onCommitErr key incarnation seq error ctx
  | .mutateSet value => e.onMutateSet key value now ctx
  | .mutateBegin optimistic => e.onMutateBegin key optimistic ctx
  | .mutateCommit token result flags => e.onMutateCommit token result flags now ctx
  | .mutateAbort token flags => e.onMutateAbort token flags ctx
  | .invalidate => do
    let (e, ctx) ← e.onInvalidate key ctx
    .ok (e, ctx, .none)
  | .broadcast ev => do
    let (e, ctx) ← e.onBroadcast defaults ev now key ctx
    .ok (e, ctx, .none)
  | .timerFired .gc _ => .ok (e, ctx, .none)
  | .timerFired .refresh generation => e.onTimerRefresh key generation ctx

end KeyEvent

/-! ## What the action leaves alone -/

section frame

variable (e : EntryCore V F) (token : MutationToken)

theorem EntryCore.slotCleared_eq : ∃ o, e.slotCleared token = { e with optimistic := o } := by
  unfold EntryCore.slotCleared
  split_ifs
  · exact ⟨none, rfl⟩
  · exact ⟨e.optimistic, rfl⟩

/-- A rollback changes the data, what belongs to it, and the slot. -/
theorem EntryCore.rolledBack_eq (flag : Bool) : ∃ d x n t o, e.rolledBack token flag =
    { e with data := d, error := x, dataSeq := n, updatedAt := t, optimistic := o } := by
  unfold EntryCore.rolledBack EntryCore.restored
  split_ifs
  · split
    · exact ⟨_, _, _, _, _, rfl⟩
    · exact ⟨_, _, _, _, _, rfl⟩
  · obtain ⟨o, h⟩ := e.slotCleared_eq token
    exact ⟨_, _, _, _, o, h⟩

/-- The result of a mutation overwrites the data, or changes no more than a rollback. -/
theorem EntryCore.resolved_cases (result : Except V (Option V)) (flags : MutateFlags)
    (now : Instant) :
    (∃ value, result = .ok (some value) ∧ flags.populate = true ∧
        e.resolved token result flags now = e.overwritten value now) ∨
      ∃ d x n t o, e.resolved token result flags now =
        { e with data := d, error := x, dataSeq := n, updatedAt := t, optimistic := o } := by
  have hclear : ∃ d x n t o, e.slotCleared token =
      { e with data := d, error := x, dataSeq := n, updatedAt := t, optimistic := o } := by
    obtain ⟨o, h⟩ := e.slotCleared_eq token
    exact ⟨_, _, _, _, o, h⟩
  rcases result with error | _ | value
  · obtain ⟨d, x, n, t, o, h⟩ :=
      ({ e with error := some error } : EntryCore V F).rolledBack_eq token flags.rollbackOnError
    exact .inr ⟨d, x, n, t, o, h⟩
  · exact .inr hclear
  · by_cases hp : flags.populate = true
    · exact .inl ⟨value, rfl, hp, if_pos hp⟩
    · obtain ⟨d, x, n, t, o, h⟩ := hclear
      exact .inr ⟨d, x, n, t, o, (if_neg hp).trans h⟩

end frame

/-- The entry with what the event hands over: a fetcher, a comparator and options, or the end of a
subscription. -/
def KeyEvent.received (e : EntryCore V F) : KeyEvent V F → EntryCore V F
  | .read _ fetcher compare opts => e.served fetcher compare opts
  | .subscribe subId fetcher compare opts => (e.served fetcher compare opts).joined subId opts
  | .unsubscribe subId => e.left subId
  | _ => e

/-- **The frame of the handlers.** What holds of an entry with what the event hands over holds after
the event, provided that it holds whatever an event that hands over nothing may write. Such an event does
not count the seq down, and only a broadcast moves the throttle window. -/
theorem KeyEvent.apply_frame [Platform] {P : EntryCore V F → Prop} {e : EntryCore V F}
    {ev : KeyEvent V F} (hreceived : P (ev.received e))
    (hwritten : ev.received e = e → ∀ {d x n m t s i a v o b}, e.seq ≤ s →
      (b = e.focusBlockedUntil ∨ ∃ sev, ev = .broadcast sev) → P { e with
        data := d, error := x, dataSeq := n, errorSeq := m, updatedAt := t, seq := s, inflight := i,
        mutationActive := a, invalidated := v, optimistic := o, focusBlockedUntil := b })
    (defaults : QueryOptions) (now : Instant) : P (ev.apply defaults now e) := by
  cases ev with
  | read policy fetcher compare opts => exact hreceived
  | subscribe subId fetcher compare opts => exact hreceived
  | unsubscribe subId => exact hreceived
  | commitOk incarnation seq value =>
      simp only [KeyEvent.apply]
      split_ifs <;> exact hwritten rfl (Nat.le_refl _) (.inl rfl)
  | commitErr incarnation seq error =>
      simp only [KeyEvent.apply]
      split_ifs <;> exact hwritten rfl (Nat.le_refl _) (.inl rfl)
  | mutateSet value => exact hwritten rfl (Nat.le_succ _) (.inl rfl)
  | mutateBegin optimistic =>
      cases optimistic with
      | none => exact hwritten rfl (Nat.le_succ _) (.inl rfl)
      | some value => exact hwritten rfl (Nat.le_add_right _ 2) (.inl rfl)
  | mutateCommit token result flags =>
      rcases e.released.resolved_cases token result flags now with
        ⟨_, -, -, h⟩ | ⟨_, _, _, _, _, h⟩
      · simp only [KeyEvent.apply, h]
        exact hwritten rfl (Nat.le_succ _) (.inl rfl)
      · simp only [KeyEvent.apply, h]
        exact hwritten rfl (Nat.le_refl _) (.inl rfl)
  | mutateAbort token flags =>
      obtain ⟨_, _, _, _, _, h⟩ := e.released.rolledBack_eq token flags.rollbackOnError
      simp only [KeyEvent.apply, h]
      exact hwritten rfl (Nat.le_refl _) (.inl rfl)
  | invalidate =>
      simp only [KeyEvent.apply, EntryCore.dirtied]
      split_ifs
      · exact hwritten rfl (Nat.le_refl _) (.inl rfl)
      · exact hwritten rfl (Nat.le_succ _) (.inl rfl)
      · exact hwritten rfl (Nat.le_refl _) (.inl rfl)
  | broadcast sev =>
      simp only [KeyEvent.apply, EntryCore.refocused]
      split_ifs <;> exact hwritten rfl (Nat.le_refl _) (.inr ⟨sev, rfl⟩)
  | _ => exact hwritten rfl (Nat.le_refl _) (.inl rfl)

/-- Two states of one entry: the same incarnation and watch channel, and the counters that only the
stages after the handler advance. -/
structure EntryCore.SameFrame (e e' : EntryCore V F) : Prop where
  incarnation : e'.incarnation = e.incarnation
  tx : e'.tx = e.tx
  refreshGen : e'.refreshGen = e.refreshGen
  snapVersion : e'.snapVersion = e.snapVersion

namespace EntryCore.SameFrame

variable {e e' e'' : EntryCore V F}

theorem trans (h : e.SameFrame e') (h' : e'.SameFrame e'') : e.SameFrame e'' :=
  ⟨h'.incarnation.trans h.incarnation, h'.tx.trans h.tx, h'.refreshGen.trans h.refreshGen,
    h'.snapVersion.trans h.snapVersion⟩

theorem apply [Platform] (defaults : QueryOptions) (now : Instant) (e : EntryCore V F)
    (ev : KeyEvent V F) : e.SameFrame (ev.apply defaults now e) := by
  refine KeyEvent.apply_frame (P := e.SameFrame) ?_ (fun _ => ?_) defaults now
  · cases ev <;> exact ⟨rfl, rfl, rfl, rfl⟩
  · intros
    exact ⟨rfl, rfl, rfl, rfl⟩

theorem react [Platform] (defaults : QueryOptions) (now : Instant) (e : EntryCore V F)
    (ev : KeyEvent V F) : e.SameFrame (ev.react defaults now e) := by
  unfold KeyEvent.react
  split_ifs
  · exact (apply defaults now e ev).trans ⟨rfl, rfl, rfl, rfl⟩
  · exact apply defaults now e ev

end EntryCore.SameFrame

/-- The fetcher an event hands over. -/
def KeyEvent.fetcher? : KeyEvent V F → Option F
  | .read _ fetcher _ _ => fetcher
  | .subscribe _ fetcher _ _ => fetcher
  | _ => none

/-- The comparator an event hands over. -/
def KeyEvent.compare? : KeyEvent V F → Option (Compare V)
  | .read _ _ compare _ => compare
  | .subscribe _ _ compare _ => compare
  | _ => none

/-- **Last wins.** The fetcher and the comparator of an entry are the ones handed over last. -/
theorem KeyEvent.supply_react [Platform] (defaults : QueryOptions) (now : Instant)
    (e : EntryCore V F) (ev : KeyEvent V F) :
    (ev.react defaults now e).fetcher = ev.fetcher?.or e.fetcher ∧
      (ev.react defaults now e).compare = ev.compare?.or e.compare := by
  have hreceived : (ev.received e).fetcher = ev.fetcher?.or e.fetcher ∧
      (ev.received e).compare = ev.compare?.or e.compare := by
    cases ev <;> exact ⟨rfl, rfl⟩
  have happly : (ev.apply defaults now e).fetcher = ev.fetcher?.or e.fetcher ∧
      (ev.apply defaults now e).compare = ev.compare?.or e.compare := by
    refine KeyEvent.apply_frame (P := fun e' => e'.fetcher = ev.fetcher?.or e.fetcher ∧
      e'.compare = ev.compare?.or e.compare) hreceived (fun hsame => ?_) defaults now
    rw [hsame] at hreceived
    intros
    exact hreceived
  unfold KeyEvent.react
  split_ifs <;> exact happly

/-- The reading of an event by a key only holds tokens of that key. -/
theorem Event.ofKey_of_on {k : QueryKey} {subId : Nat} {ev : Event V F} {kev : KeyEvent V F}
    (h : ev.on k subId = some kev) : kev.OfKey k := by
  cases Event.on_inv h with
  | mutateCommit hk => exact hk
  | mutateAbort hk => exact hk
  | _ => trivial

/-! ## The handler bodies compute it -/

/-- When a flight can start: there is a fetcher, no mutation, and no flight. -/
theorem canStartFetch_iff {e : EntryCore V F} :
    e.canStartFetch = true ↔ e.fetcher.isSome ∧ e.mutationActive = 0 ∧ e.inflight = none := by
  simp [EntryCore.canStartFetch, and_assoc]

/-- The guard some handlers write out instead of calling `can_start_fetch`. -/
theorem canStartFetch_eq (e : EntryCore V F) :
    e.canStartFetch =
      !(e.inflight.isSome || decide (0 < e.mutationActive) || e.fetcher.isNone) := by
  rw [Bool.eq_iff_iff, canStartFetch_iff]
  cases hi : e.inflight <;> cases hf : e.fetcher <;> simp

section bodies

variable [Platform] (defaults : QueryOptions) (now : Instant) (key : QueryKey)

/-- Starting it yields one fetch task, for the next seq. -/
theorem startFetch_eq {e : EntryCore V F} (h : e.canStartFetch = true) (ctx : Ctx V F) :
    startFetch e key ctx =
      .ok (e.started, ctx.mark key ⟨e.started.fetchEffect key, false, false, false⟩, e.seq + 1) := by
  obtain ⟨f, hf⟩ := Option.isSome_iff_exists.mp (canStartFetch_iff.mp h).1
  simp [startFetch, h, hf, EntryCore.started, EntryCore.fetchEffect, Ctx.mark, Ctx.push]

theorem clearOwnOptimistic_eq (e : EntryCore V F) (token : MutationToken) :
    clearOwnOptimistic e token = e.slotCleared token := by
  cases h : token.writtenSeq <;>
    simp [clearOwnOptimistic, EntryCore.slotCleared, EntryCore.ownsSlot, h]

theorem rollbackIfUnclobbered_eq (e : EntryCore V F) (token : MutationToken) (flag : Bool) :
    rollbackIfUnclobbered e token flag = .ok (e.rolledBack token flag) := by
  cases h : token.writtenSeq with
  | none =>
      simp [rollbackIfUnclobbered, EntryCore.rolledBack, EntryCore.rollsBack,
        EntryCore.slotCleared, EntryCore.ownsSlot, h]
  | some ws =>
      cases hs : e.optimistic with
      | none =>
          simp [rollbackIfUnclobbered, EntryCore.rolledBack, EntryCore.rollsBack,
            EntryCore.slotCleared, EntryCore.ownsSlot, h, hs]
      | some snap =>
          by_cases hw : snap.writtenSeq = ws <;> by_cases hd : e.dataSeq = ws <;> cases flag <;>
            simp [rollbackIfUnclobbered, EntryCore.rolledBack, EntryCore.rollsBack,
              EntryCore.slotCleared, EntryCore.ownsSlot, EntryCore.restored, h, hs, hw, hd]

/-- The last mutation that settles starts a flight if it was asked to, or the data is invalid. -/
theorem finishMutation_eq (e : EntryCore V F) (revalidate : Bool) (ctx : Ctx V F) :
    finishMutation e key revalidate ctx =
      if (revalidate || e.invalidated) && e.canStartFetch then
        .ok (e.started, ctx.mark key ⟨e.started.fetchEffect key, false, true, false⟩)
      else .ok (e, ctx) := by
  unfold finishMutation
  by_cases hc : e.canStartFetch = true
  · have hm := (canStartFetch_iff.mp hc).2.1
    simp only [hc, hm, decide_true, Bool.true_and, Bool.and_true, startFetch_eq key hc, ok_bind]
    rfl
  · simp [hc]

@[simp] theorem addKey_addKey (keys : List QueryKey) (k : QueryKey) :
    Ctx.addKey (Ctx.addKey keys k) k = Ctx.addKey keys k := by
  unfold Ctx.addKey
  split_ifs <;> simp_all

theorem onMutateCommit_eq {e : EntryCore V F} (h : 0 < e.mutationActive) (token : MutationToken)
    (result : Except V (Option V)) (flags : MutateFlags) (ctx : Ctx V F) :
    e.onMutateCommit token result flags now ctx =
      let ev : KeyEvent V F := .mutateCommit token result flags
      .ok (ev.react defaults now e, ctx.mark token.key (ev.marks defaults now token.key e),
        .none) := by
  -- `applyResult` marks the key for a `Notify` on some paths; the handler marks it on all.
  have hres : ∀ ctx : Ctx V F, ∃ ctx', e.released.applyResult token result flags now ctx =
      .ok (e.released.resolved token result flags now, ctx') ∧
        (ctx' = ctx ∨ ctx' = ctx.markNotify token.key) := by
    intro ctx
    rcases result with error | _ | value
    · exact ⟨_, by simp [EntryCore.applyResult, EntryCore.resolved, rollbackIfUnclobbered_eq],
        .inr rfl⟩
    · exact ⟨_, by simp [EntryCore.applyResult, EntryCore.resolved, clearOwnOptimistic_eq],
        .inl rfl⟩
    · cases hp : flags.populate
      · exact ⟨_, by simp [EntryCore.applyResult, EntryCore.resolved, clearOwnOptimistic_eq, hp],
          .inl rfl⟩
      · exact ⟨_, by simp [EntryCore.applyResult, EntryCore.resolved, EntryCore.overwritten, hp],
          .inr rfl⟩
  obtain ⟨ctx', hctx, hor⟩ := hres (ctx.markTouched token.key)
  have hrel : { e with mutationActive := e.mutationActive - 1 } = e.released := rfl
  simp only [EntryCore.onMutateCommit, h, decide_true, debugAssert_true, ok_bind, hrel, hctx,
    finishMutation_eq]
  by_cases hs : (KeyEvent.mutateCommit token result flags).starts defaults now e = true
  all_goals
    have hs' := hs
    simp only [KeyEvent.starts, KeyEvent.wants, KeyEvent.apply] at hs'
    rcases hor with rfl | rfl <;> simp [hs, hs', KeyEvent.react, KeyEvent.marks, KeyEvent.apply,
      Ctx.mark, Ctx.markNotify, Ctx.markTouched, KeyEvent.touches, KeyEvent.notifies,
      KeyEvent.rearms]

theorem onMutateAbort_eq {e : EntryCore V F} (h : 0 < e.mutationActive) (token : MutationToken)
    (flags : MutateFlags) (ctx : Ctx V F) :
    e.onMutateAbort token flags ctx =
      let ev : KeyEvent V F := .mutateAbort token flags
      .ok (ev.react defaults now e, ctx.mark token.key (ev.marks defaults now token.key e),
        .none) := by
  have hrel : { e with mutationActive := e.mutationActive - 1 } = e.released := rfl
  simp only [EntryCore.onMutateAbort, h, decide_true, debugAssert_true, ok_bind, hrel,
    rollbackIfUnclobbered_eq, finishMutation_eq]
  by_cases hs : (KeyEvent.mutateAbort token flags : KeyEvent V F).starts defaults now e = true
  all_goals
    have hs' := hs
    simp only [KeyEvent.starts, KeyEvent.wants, KeyEvent.apply] at hs'
    simp [hs, hs', KeyEvent.react, KeyEvent.marks, KeyEvent.apply, Ctx.mark, Ctx.markNotify,
      Ctx.markTouched, KeyEvent.touches, KeyEvent.notifies, KeyEvent.rearms]

/-- A read that has to wait starts a flight if it can. -/
theorem awaitFlight_eq (e : EntryCore V F) (ctx : Ctx V F) :
    e.awaitFlight key ctx =
      if e.canStartFetch then
        .ok (e.started, ctx.mark key ⟨e.started.fetchEffect key, false, true, false⟩,
          .read e.started.waitOutcome)
      else .ok (e, ctx, .read e.waitOutcome) := by
  unfold EntryCore.awaitFlight
  by_cases hc : e.canStartFetch = true
  · have hi := (canStartFetch_iff.mp hc).2.2
    simp only [hi, hc, if_true, startFetch_eq key hc, ok_bind]
    rfl
  · cases hi : e.inflight with
    | some s => simp [hc, EntryCore.waitOutcome, hi]
    | none => by_cases hm : 0 < e.mutationActive <;> simp [hc, EntryCore.waitOutcome, hi, hm]

theorem onRead_eq (e : EntryCore V F) {policy : ReadPolicy} (hp : policy ≠ .cacheOnly)
    (fetcher : Option F) (compare : Option (Compare V)) (opts : QueryOptions) (ctx : Ctx V F) :
    e.onRead key policy fetcher compare opts now ctx =
      let ev : KeyEvent V F := .read policy fetcher compare opts
      .ok (ev.react defaults now e, ctx.mark key (ev.marks defaults now key e),
        ev.outcome defaults now key e) := by
  have hserved : (e.provide fetcher compare).touch opts = e.served fetcher compare opts := rfl
  have hdata : (e.served fetcher compare opts).data = e.data := rfl
  have hstale : (e.served fetcher compare opts).isStale opts.staleTime now =
    e.isStale opts.staleTime now := rfl
  unfold EntryCore.onRead
  simp only [hserved, hdata, hstale]
  cases policy with
  | cacheOnly => exact absurd rfl hp
  | staleWhileRevalidate =>
      cases hd : e.data <;> cases hst : e.isStale opts.staleTime now <;>
        cases hc : (e.served fetcher compare opts).canStartFetch <;>
        simp [hd, hst, hc, hdata, KeyEvent.react, KeyEvent.starts, KeyEvent.wants, KeyEvent.apply,
          startFetch_eq, awaitFlight_eq, KeyEvent.marks, KeyEvent.outcome, KeyEvent.readOutcome,
          KeyEvent.touches, KeyEvent.notifies, KeyEvent.rearms, Ctx.mark, Ctx.markTouched,
          Ctx.markNotify]
  | ensureFresh =>
      cases hd : e.data <;> cases hst : e.isStale opts.staleTime now <;>
        cases hc : (e.served fetcher compare opts).canStartFetch <;>
        simp [hd, hst, hc, hdata, KeyEvent.react, KeyEvent.starts, KeyEvent.wants, KeyEvent.apply,
          awaitFlight_eq, KeyEvent.marks, KeyEvent.outcome, KeyEvent.readOutcome,
          KeyEvent.touches, KeyEvent.notifies, KeyEvent.rearms, Ctx.mark, Ctx.markTouched]

theorem onSubscribe_eq (e : EntryCore V F) (subId : Nat) (fetcher : Option F)
    (compare : Option (Compare V)) (opts : QueryOptions) (ctx : Ctx V F) :
    e.onSubscribe key subId fetcher compare opts now ctx =
      let ev : KeyEvent V F := .subscribe subId fetcher compare opts
      .ok (ev.react defaults now e, ctx.mark key (ev.marks defaults now key e),
        ev.outcome defaults now key e) := by
  change (if (e.data.isNone || e.isStale opts.staleTime now) &&
      ((e.served fetcher compare opts).joined subId opts).canStartFetch then
        startFetch ((e.served fetcher compare opts).joined subId opts) key
          ((ctx.markTouched key).markRefreshChanged key) >>= fun x =>
            Except.ok (x.1, x.2.1.markNotify key, Outcome.subscribed subId x.1.tx)
      else Except.ok ((e.served fetcher compare opts).joined subId opts,
        (ctx.markTouched key).markRefreshChanged key, .subscribed subId e.tx)) = _
  by_cases hs : (KeyEvent.subscribe subId fetcher compare opts).starts defaults now e = true
  all_goals
    have hs' := hs
    simp only [KeyEvent.starts, KeyEvent.wants, KeyEvent.apply] at hs'
  · have hc := (Bool.and_eq_true _ _ ▸ hs').2
    have htx : ((e.served fetcher compare opts).joined subId opts).started.tx = e.tx := rfl
    simp only [hs', if_true, startFetch_eq key hc, ok_bind, htx]
    simp [hs, KeyEvent.react, KeyEvent.marks, KeyEvent.apply, Ctx.mark, Ctx.markNotify,
      Ctx.markTouched, Ctx.markRefreshChanged, KeyEvent.touches, KeyEvent.notifies,
      KeyEvent.rearms, KeyEvent.outcome]
  · rw [if_neg hs']
    simp [hs, KeyEvent.react, KeyEvent.marks, KeyEvent.apply, Ctx.mark, Ctx.markTouched,
      Ctx.markRefreshChanged, KeyEvent.touches, KeyEvent.notifies, KeyEvent.rearms,
      KeyEvent.outcome]

theorem onRevalidateRequested_eq (e : EntryCore V F) (ctx : Ctx V F) :
    e.onRevalidateRequested key ctx =
      let ev : KeyEvent V F := .revalidateRequested
      .ok (ev.react defaults now e, ctx.mark key (ev.marks defaults now key e), .none) := by
  have hstarts : (KeyEvent.revalidateRequested : KeyEvent V F).starts defaults now e =
    e.canStartFetch := by simp [KeyEvent.starts, KeyEvent.wants, KeyEvent.apply]
  have hbusy := canStartFetch_eq e
  cases hf : e.fetcher with
  | none =>
      simp [EntryCore.onRevalidateRequested, hf, KeyEvent.react, KeyEvent.marks, hstarts, hbusy,
        KeyEvent.apply, KeyEvent.touches, KeyEvent.notifies, KeyEvent.rearms, Ctx.mark]
  | some f =>
      simp only [hf, Option.isNone_some, Bool.or_false] at hbusy
      cases hb : e.inflight.isSome || decide (0 < e.mutationActive) with
      | true =>
          simp [EntryCore.onRevalidateRequested, hf, KeyEvent.react, KeyEvent.marks, hstarts, hbusy,
            hb, KeyEvent.apply, KeyEvent.touches, KeyEvent.notifies, KeyEvent.rearms, Ctx.mark,
            Ctx.markTouched]
      | false =>
          rw [hb] at hbusy
          simp [EntryCore.onRevalidateRequested, hf, KeyEvent.react, KeyEvent.marks, hstarts, hbusy,
            hb, startFetch_eq, KeyEvent.apply, KeyEvent.touches, KeyEvent.notifies,
            KeyEvent.rearms, Ctx.mark, Ctx.markTouched, Ctx.markNotify]

theorem onInvalidate_eq (e : EntryCore V F) (ctx : Ctx V F) :
    e.onInvalidate key ctx =
      let ev : KeyEvent V F := .invalidate
      .ok (ev.react defaults now e, ctx.mark key (ev.marks defaults now key e)) := by
  by_cases hm : 0 < e.mutationActive
  · have hne : e.mutationActive ≠ 0 := by omega
    simp [EntryCore.onInvalidate, hm, hne, KeyEvent.react, KeyEvent.starts, KeyEvent.wants,
      KeyEvent.apply, EntryCore.canStartFetch, KeyEvent.marks, KeyEvent.touches,
      KeyEvent.notifies, KeyEvent.rearms, Ctx.mark, Ctx.markTouched]
  · have h0 : e.mutationActive = 0 := by omega
    -- After the discard nothing flies, so an active entry with a fetcher can start.
    have hc : e.dirtied.canStartFetch = e.fetcher.isSome := by
      cases hi : e.inflight <;> simp [EntryCore.canStartFetch, EntryCore.dirtied, hi, h0]
    have hd : (if ({ e with invalidated := true } : EntryCore V F).inflight.isSome then
        ({ e with invalidated := true } : EntryCore V F).discardFlight
        else { e with invalidated := true }) = e.dirtied := rfl
    have ha : e.dirtied.isActive = e.isActive := by
      unfold EntryCore.dirtied
      split_ifs <;> rfl
    have hf : e.dirtied.fetcher = e.fetcher := by
      unfold EntryCore.dirtied
      split_ifs <;> rfl
    unfold EntryCore.onInvalidate
    simp only [hm, if_false, hd, ha, hf]
    cases hgo : e.isActive && e.fetcher.isSome with
    | false =>
        simp [KeyEvent.react, KeyEvent.starts, KeyEvent.wants, KeyEvent.apply, hc, hgo, h0,
          KeyEvent.marks, KeyEvent.touches, KeyEvent.notifies, KeyEvent.rearms, Ctx.mark,
          Ctx.markTouched, Ctx.markNotify]
    | true =>
        have hc' : e.dirtied.canStartFetch = true := by
          rw [hc]
          exact (Bool.and_eq_true _ _ ▸ hgo).2
        simp [KeyEvent.react, KeyEvent.starts, KeyEvent.wants, KeyEvent.apply, hc, hgo, h0,
          startFetch_eq key hc', KeyEvent.marks, KeyEvent.touches, KeyEvent.notifies,
          KeyEvent.rearms, Ctx.mark, Ctx.markTouched, Ctx.markNotify]

/-- A broadcast starts a flight in the entries that heed it. -/
theorem starts_broadcast (e : EntryCore V F) (ev : SwrEvent) :
    (KeyEvent.broadcast ev : KeyEvent V F).starts defaults now e = e.heeds defaults ev now := by
  have hkeep : (e.refocused defaults ev now).canStartFetch = e.canStartFetch := by
    unfold EntryCore.refocused
    split_ifs <;> rfl
  cases hh : e.heeds defaults ev now with
  | false => simp [KeyEvent.starts, KeyEvent.wants, hh]
  | true =>
      have hc : e.canStartFetch = true := by
        simp only [EntryCore.heeds, Bool.and_eq_true] at hh
        exact hh.2
      simp [KeyEvent.starts, KeyEvent.wants, KeyEvent.apply, hh, hkeep, hc]

theorem onBroadcast_eq (e : EntryCore V F) (ev : SwrEvent) (ctx : Ctx V F) :
    e.onBroadcast defaults ev now key ctx =
      let kev : KeyEvent V F := .broadcast ev
      .ok (kev.react defaults now e, ctx.mark key (kev.marks defaults now key e)) := by
  have hkeep : (e.refocused defaults ev now).canStartFetch = e.canStartFetch := by
    unfold EntryCore.refocused
    split_ifs <;> rfl
  -- The guards of the source, one after the other, are the conjuncts of `heeds`.
  have hguard : e.heeds defaults ev now = (e.isActive && e.enabledOn ev && !e.throttled ev now
      && e.isStale (e.opts.minStaleTime defaults.staleTime) now
      && !(e.inflight.isSome || decide (0 < e.mutationActive) || e.fetcher.isNone)) := by
    rw [← canStartFetch_eq]
    rfl
  change (if (!e.isActive) = true then Except.ok (e, ctx)
    else if (!e.enabledOn ev) = true then .ok (e, ctx)
    else if (e.throttled ev now) = true then .ok (e, ctx)
    else if (!e.isStale (e.opts.minStaleTime defaults.staleTime) now) = true then .ok (e, ctx)
    else if (e.inflight.isSome || decide (0 < e.mutationActive) || e.fetcher.isNone) = true then
      .ok (e, ctx)
    else startFetch (e.refocused defaults ev now) key (ctx.markTouched key) >>= fun x =>
      Except.ok (x.1, x.2.1.markNotify key)) = _
  cases hh : e.heeds defaults ev now with
  | false =>
      have hskip : (KeyEvent.broadcast ev : KeyEvent V F).react defaults now e = e ∧
          ctx.mark key ((KeyEvent.broadcast ev).marks defaults now key e) = ctx := by
        simp [KeyEvent.react, starts_broadcast, hh, KeyEvent.apply, KeyEvent.marks,
          KeyEvent.touches, KeyEvent.notifies, KeyEvent.rearms, Ctx.mark]
      simp only [hskip.1, hskip.2]
      rw [hguard] at hh
      split_ifs <;> simp_all
  | true =>
      have hc : (e.refocused defaults ev now).canStartFetch = true := by
        rw [hkeep]
        simp only [EntryCore.heeds, Bool.and_eq_true] at hh
        exact hh.2
      have hgo := hh
      rw [hguard] at hgo
      simp only [Bool.and_eq_true, Bool.not_eq_true'] at hgo
      obtain ⟨⟨⟨⟨h₁, h₂⟩, h₃⟩, h₄⟩, h₅⟩ := hgo
      simp only [h₁, h₂, h₃, h₄, h₅, Bool.not_true, Bool.false_eq_true, if_false,
        startFetch_eq key hc, ok_bind]
      simp [KeyEvent.react, starts_broadcast, hh, KeyEvent.apply, KeyEvent.marks,
        KeyEvent.touches, KeyEvent.notifies, KeyEvent.rearms, Ctx.mark, Ctx.markTouched,
        Ctx.markNotify]

theorem onTimerRefresh_eq (e : EntryCore V F) (generation : Nat) (ctx : Ctx V F) :
    e.onTimerRefresh key generation ctx =
      let ev : KeyEvent V F := .timerFired .refresh generation
      .ok (ev.react defaults now e, ctx.mark key (ev.marks defaults now key e), .none) := by
  have hguard := canStartFetch_eq e
  by_cases hg : generation = e.refreshGen
  · by_cases hs : e.subscribers = 0
    · simp [EntryCore.onTimerRefresh, hg, hs, EntryCore.isActive, KeyEvent.react, KeyEvent.starts,
        KeyEvent.wants, KeyEvent.apply, KeyEvent.marks, KeyEvent.touches, KeyEvent.notifies,
        KeyEvent.rearms, Ctx.mark]
    · have ha : e.isActive = true := decide_eq_true (Nat.pos_of_ne_zero hs)
      cases hb : e.inflight.isSome || decide (0 < e.mutationActive) <;>
        cases hf : e.fetcher.isSome <;>
        simp_all [EntryCore.onTimerRefresh, KeyEvent.react, KeyEvent.starts, KeyEvent.wants,
          KeyEvent.apply, KeyEvent.marks, KeyEvent.touches, KeyEvent.notifies, KeyEvent.rearms,
          Ctx.mark, Ctx.markTouched, Ctx.markNotify, Ctx.markRefreshChanged, startFetch_eq]
  · simp [EntryCore.onTimerRefresh, hg, KeyEvent.react, KeyEvent.starts, KeyEvent.wants,
      KeyEvent.apply, KeyEvent.marks, KeyEvent.touches, KeyEvent.notifies, KeyEvent.rearms,
      Ctx.mark]

/-- **A handler body computes the action.** On a safe entry the handler body of an event ends
without a panic, and returns the pure action of the event on the entry, its marks and its outcome. -/
theorem body_eq {e : EntryCore V F} {ev : KeyEvent V F} (h : ev.Safe e) (ctx : Ctx V F)
    (hkey : ev.OfKey key) :
    ev.body defaults now key e ctx =
      .ok (ev.react defaults now e, ctx.mark key (ev.marks defaults now key e),
        ev.outcome defaults now key e) := by
  cases ev with
  | read policy fetcher compare opts =>
      by_cases hp : policy = .cacheOnly
      · subst hp
        simp [KeyEvent.body, EntryCore.onReadCacheOnly, KeyEvent.react, KeyEvent.starts,
          KeyEvent.wants, KeyEvent.apply, KeyEvent.marks, KeyEvent.touches, KeyEvent.notifies,
          KeyEvent.rearms, KeyEvent.outcome, KeyEvent.readOutcome, Ctx.mark, Ctx.markTouched,
          EntryCore.served]
      · simp only [KeyEvent.body, if_neg hp]
        exact onRead_eq defaults now key e hp fetcher compare opts ctx
  | subscribe subId fetcher compare opts =>
      exact onSubscribe_eq defaults now key e subId fetcher compare opts ctx
  | unsubscribe subId =>
      have hs : 0 < e.subscribers := h
      simp [KeyEvent.body, EntryCore.onUnsubscribe, hs, KeyEvent.react, KeyEvent.starts,
        KeyEvent.wants, KeyEvent.apply, KeyEvent.marks, KeyEvent.touches, KeyEvent.notifies,
        KeyEvent.rearms, KeyEvent.outcome, Ctx.mark, Ctx.markTouched, Ctx.markRefreshChanged,
        EntryCore.left]
  | revalidateRequested => exact onRevalidateRequested_eq defaults now key e ctx
  | commitOk incarnation seq value =>
      cases hd : e.dropsCommit incarnation seq with
      | true =>
          simp [KeyEvent.body, EntryCore.onCommitOk, hd, KeyEvent.react, KeyEvent.starts,
            KeyEvent.wants, KeyEvent.apply, KeyEvent.marks, KeyEvent.touches, KeyEvent.notifies,
            KeyEvent.rearms, KeyEvent.outcome, Ctx.mark]
      | false =>
          obtain ⟨hseq, hinv⟩ := h hd
          have hassert : (decide (e.seq = seq) = true) ∧ (!e.invalidated) = true := by
            simp [hseq, hinv]
          simp only [KeyEvent.body, EntryCore.onCommitOk, hd, Bool.false_eq_true, if_false,
            hassert.1, hassert.2, debugAssert_true, ok_bind]
          simp only [KeyEvent.react, KeyEvent.starts, KeyEvent.wants, KeyEvent.apply,
            KeyEvent.marks, KeyEvent.touches, KeyEvent.notifies, KeyEvent.rearms,
            KeyEvent.outcome, hd, Bool.false_and, Bool.false_eq_true, if_false, Bool.not_false,
            Ctx.mark, Ctx.markTouched, Ctx.markNotify, Ctx.markRefreshChanged, List.append_nil]
          rfl
  | commitErr incarnation seq error =>
      cases hd : e.dropsCommit incarnation seq <;>
        simp [KeyEvent.body, EntryCore.onCommitErr, hd, KeyEvent.react, KeyEvent.starts,
          KeyEvent.wants, KeyEvent.apply, KeyEvent.marks, KeyEvent.touches, KeyEvent.notifies,
          KeyEvent.rearms, KeyEvent.outcome, Ctx.mark, Ctx.markTouched, Ctx.markNotify,
          Ctx.markRefreshChanged, EntryCore.failed]
  | mutateSet value =>
      simp [KeyEvent.body, EntryCore.onMutateSet, KeyEvent.react, KeyEvent.starts, KeyEvent.wants,
        KeyEvent.apply, KeyEvent.marks, KeyEvent.touches, KeyEvent.notifies, KeyEvent.rearms,
        KeyEvent.outcome, Ctx.mark, Ctx.markTouched, Ctx.markNotify, EntryCore.overwritten]
  | mutateBegin optimistic =>
      cases optimistic <;>
        simp [KeyEvent.body, EntryCore.onMutateBegin, KeyEvent.react, KeyEvent.starts,
          KeyEvent.wants, KeyEvent.apply, KeyEvent.marks, KeyEvent.touches, KeyEvent.notifies,
          KeyEvent.rearms, KeyEvent.outcome, Ctx.mark, Ctx.markTouched, Ctx.markNotify,
          EntryCore.begun, EntryCore.entered, EntryCore.optimisticWrite, EntryCore.discardFlight]
  | mutateCommit token result flags =>
      obtain rfl := hkey
      exact onMutateCommit_eq defaults now h token result flags ctx
  | mutateAbort token flags =>
      obtain rfl := hkey
      exact onMutateAbort_eq defaults now h token flags ctx
  | invalidate =>
      simp only [KeyEvent.body, onInvalidate_eq defaults now key e ctx, ok_bind]
      rfl
  | broadcast ev =>
      simp only [KeyEvent.body, onBroadcast_eq defaults now key e ev ctx, ok_bind]
      rfl
  | timerFired kind generation =>
      cases kind with
      | gc =>
          simp [KeyEvent.body, KeyEvent.react, KeyEvent.starts, KeyEvent.wants, KeyEvent.apply,
            KeyEvent.marks, KeyEvent.touches, KeyEvent.notifies, KeyEvent.rearms,
            KeyEvent.outcome, Ctx.mark]
      | refresh => exact onTimerRefresh_eq defaults now key e generation ctx

/-- A handler body that ends without a panic ran on a safe entry. -/
theorem safe_of_body {e e' : EntryCore V F} {ev : KeyEvent V F} {ctx ctx' : Ctx V F}
    {out : Outcome V} (h : ev.body defaults now key e ctx = .ok (e', ctx', out)) : ev.Safe e := by
  cases ev with
  | unsubscribe subId =>
      by_contra hs
      have hs : e.subscribers = 0 := Nat.eq_zero_of_not_pos hs
      simp [KeyEvent.body, EntryCore.onUnsubscribe, hs] at h
  | commitOk incarnation seq value =>
      intro hd
      simp only [KeyEvent.body, EntryCore.onCommitOk, hd, Bool.false_eq_true, if_false] at h
      by_cases hseq : e.seq = seq <;> cases hinv : e.invalidated <;> simp_all
  | mutateCommit token result flags =>
      by_contra hm
      have hm : e.mutationActive = 0 := Nat.eq_zero_of_not_pos hm
      simp [KeyEvent.body, EntryCore.onMutateCommit, hm] at h
  | mutateAbort token flags =>
      by_contra hm
      have hm : e.mutationActive = 0 := Nat.eq_zero_of_not_pos hm
      simp [KeyEvent.body, EntryCore.onMutateAbort, hm] at h
  | _ => trivial

end bodies

end SwrCore
