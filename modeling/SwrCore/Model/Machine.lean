import Mathlib.Data.Finmap
import SwrCore.Model.Entry

/-!
# The state machine `Inner`

* `Inner` — the table of entries, the default options and the two counters.
* `Event` — the input events.
* `EntryCore.onRead`, … — the handler bodies: what a handler does once it holds the entry.
* `Inner.onRead`, … — the handlers, which look the entry up (`withEntry`) or create it
  (`withEntryOrCreate`) and run the body; `onInvalidate` and `onBroadcast` run a body on every key
  of a table scan (`forEntries`).
* `Inner.react`, `postRules`, `flushNotifies`, `handle` — the sole entry point and its stages.

The table is a `Finmap`, which has no order. The order in which a hash table iterates its keys is an
input of `handle`: `scan` is the list of keys that one iteration of the table yields.
-/

namespace SwrCore

variable {V F : Type}

/-! ## Events -/

/-- Input events. Source: `machine.rs`, `Event`. -/
inductive Event (V F : Type) where
  | read (key : QueryKey) (policy : ReadPolicy) (fetcher : Option F)
      (compare : Option (Compare V)) (opts : QueryOptions)
  | subscribe (key : QueryKey) (fetcher : Option F) (compare : Option (Compare V))
      (opts : QueryOptions)
  | unsubscribe (key : QueryKey) (subId : Nat)
  | revalidateRequested (key : QueryKey)
  | commitOk (key : QueryKey) (incarnation seq : Nat) (value : V)
  | commitErr (key : QueryKey) (incarnation seq : Nat) (error : V)
  | mutateSet (key : QueryKey) (value : V)
  | mutateBegin (key : QueryKey) (optimistic : Option V)
  /-- The `result` is `Result<Option<ErasedValue>, ErasedValue>`: its error comes first here. -/
  | mutateCommit (token : MutationToken) (result : Except V (Option V)) (flags : MutateFlags)
  | mutateAbort (token : MutationToken) (flags : MutateFlags)
  | invalidate (pre : List Segment)
  | broadcast (ev : SwrEvent)
  | timerFired (key : QueryKey) (kind : TimerKind) (generation : Nat)

/-- Result of one `handle` call. Source: `machine.rs`, `HandleOutput`. -/
structure HandleOutput (V F : Type) where
  outcome : Outcome V
  effects : List (Effect V F)

/-! ## Handler bodies -/

namespace EntryCore

/-- Last-wins replacement of the fetcher and of the comparator. -/
def provide (e : EntryCore V F) (fetcher : Option F) (compare : Option (Compare V)) :
    EntryCore V F :=
  { e with fetcher := fetcher.or e.fetcher, compare := compare.or e.compare }

/-- `e.opts.last_touch_gc_time = Some(opts.gc_time)`. -/
def touch (e : EntryCore V F) (opts : QueryOptions) : EntryCore V F :=
  { e with opts := { e.opts with lastTouchGcTime := some opts.gcTime } }

/-- The `CacheOnly` read of an existing entry. Source: `Inner::on_read`. -/
def onReadCacheOnly (e : EntryCore V F) (key : QueryKey) (fetcher : Option F)
    (compare : Option (Compare V)) (opts : QueryOptions) (ctx : Ctx V F) :
    Except Panic (EntryCore V F × Ctx V F × Outcome V) :=
  let e := (e.provide fetcher compare).touch opts
  .ok (e, ctx.markTouched key, .read (.ready e.snapshotNow))

/-- Join the in-flight request, else start one and wait for it, else wait for the active mutation:
the arms that end both policies which may wait. Source: `Inner::on_read`. -/
def awaitFlight (e : EntryCore V F) (key : QueryKey) (ctx : Ctx V F) :
    Except Panic (EntryCore V F × Ctx V F × Outcome V) :=
  match e.inflight with
  | some s => .ok (e, ctx, .read (.wait s e.tx))
  | none =>
    if e.canStartFetch then do
      let (e, ctx, s) ← startFetch e key ctx
      .ok (e, ctx.markNotify key, .read (.wait s e.tx))
    else if 0 < e.mutationActive then .ok (e, ctx, .read (.wait e.seq e.tx))
    else .ok (e, ctx, .read .noFetcher)

/-- The other reads. Source: `Inner::on_read`. -/
def onRead [Platform] (e : EntryCore V F) (key : QueryKey) (policy : ReadPolicy)
    (fetcher : Option F) (compare : Option (Compare V)) (opts : QueryOptions) (now : Instant)
    (ctx : Ctx V F) : Except Panic (EntryCore V F × Ctx V F × Outcome V) :=
  let e := (e.provide fetcher compare).touch opts
  let ctx := ctx.markTouched key
  let hasData := e.data.isSome
  let stale := e.isStale opts.staleTime now
  match policy with
  | .staleWhileRevalidate =>
    if hasData && !stale then .ok (e, ctx, .read (.ready e.snapshotNow))
    else if hasData then
      if e.canStartFetch then do
        let (e, ctx, _) ← startFetch e key ctx
        .ok (e, ctx.markNotify key, .read (.ready e.snapshotNow))
      else .ok (e, ctx, .read (.ready e.snapshotNow))
    else e.awaitFlight key ctx
  | .ensureFresh =>
    if hasData && !stale then .ok (e, ctx, .read (.ready e.snapshotNow))
    else e.awaitFlight key ctx
  | .cacheOnly => .error .handledAbove

/-- Source: `Inner::on_subscribe`. -/
def onSubscribe [Platform] (e : EntryCore V F) (key : QueryKey) (subId : Nat)
    (fetcher : Option F) (compare : Option (Compare V)) (opts : QueryOptions) (now : Instant)
    (ctx : Ctx V F) : Except Panic (EntryCore V F × Ctx V F × Outcome V) :=
  let ctx := ctx.markTouched key
  let e := (e.provide fetcher compare).touch opts
  let stale := e.isStale opts.staleTime now
  let e := { e with
    opts := { e.opts with subs := e.opts.subs.insert subId opts }
    subscribers := e.subscribers + 1
    gcGen := e.gcGen + 1 }
  let ctx := ctx.markRefreshChanged key
  if (e.data.isNone || stale) && e.canStartFetch then do
    let (e, ctx, _) ← startFetch e key ctx
    .ok (e, ctx.markNotify key, .subscribed subId e.tx)
  else .ok (e, ctx, .subscribed subId e.tx)

/-- Source: `Inner::on_unsubscribe`. -/
def onUnsubscribe (e : EntryCore V F) (key : QueryKey) (subId : Nat) (ctx : Ctx V F) :
    Except Panic (EntryCore V F × Ctx V F × Outcome V) := do
  debugAssert (decide (0 < e.subscribers)) .unsubscribeUnmatched
  let e := { e with
    subscribers := e.subscribers - 1
    opts := { e.opts with subs := e.opts.subs.erase subId } }
  .ok (e, (ctx.markTouched key).markRefreshChanged key, .none)

/-- Source: `Inner::on_revalidate_requested`. -/
def onRevalidateRequested (e : EntryCore V F) (key : QueryKey) (ctx : Ctx V F) :
    Except Panic (EntryCore V F × Ctx V F × Outcome V) :=
  if e.fetcher.isNone then .ok (e, ctx, .none)
  else
    let ctx := ctx.markTouched key
    -- Deduplicate against an in-flight request or an active mutation.
    if e.inflight.isSome || decide (0 < e.mutationActive) then .ok (e, ctx, .none)
    else do
      let (e, ctx, _) ← startFetch e key ctx
      .ok (e, ctx.markNotify key, .none)

/-- The three drop guards of a commit, after the missing-entry one, in the order of the source:
another incarnation, an active mutation, another flight or none.
Source: `Inner::on_commit_ok`, `Inner::on_commit_err`. -/
def dropsCommit (e : EntryCore V F) (incarnation seq : Nat) : Bool :=
  decide (e.incarnation ≠ incarnation) || decide (0 < e.mutationActive)
    || decide (e.inflight ≠ some seq)

/-- Source: `Inner::on_commit_ok`. -/
def onCommitOk (e : EntryCore V F) (key : QueryKey) (incarnation seq : Nat) (value : V)
    (now : Instant) (ctx : Ctx V F) : Except Panic (EntryCore V F × Ctx V F × Outcome V) :=
  if e.dropsCommit incarnation seq then .ok (e, ctx, .none)
  else do
    debugAssert (decide (e.seq = seq)) .commitSeq
    debugAssert (!e.invalidated) .commitInvalidated
    -- Structural sharing: an equal value keeps the stored one.
    let unchanged := e.compare.any fun compare => e.data.any fun old => compare old value
    let e := { e with
      data := if unchanged then e.data else some value
      dataSeq := seq
      updatedAt := some now
      error := none
      inflight := none
      optimistic := none }
    .ok (e, ((ctx.markTouched key).markNotify key).markRefreshChanged key, .none)

/-- Source: `Inner::on_commit_err`. -/
def onCommitErr (e : EntryCore V F) (key : QueryKey) (incarnation seq : Nat) (error : V)
    (ctx : Ctx V F) : Except Panic (EntryCore V F × Ctx V F × Outcome V) :=
  if e.dropsCommit incarnation seq then .ok (e, ctx, .none)
  else
    let e := { e with error := some error, errorSeq := seq, inflight := none }
    .ok (e, ((ctx.markTouched key).markNotify key).markRefreshChanged key, .none)

/-- Source: `Inner::on_mutate_set`. -/
def onMutateSet (e : EntryCore V F) (key : QueryKey) (value : V) (now : Instant)
    (ctx : Ctx V F) : Except Panic (EntryCore V F × Ctx V F × Outcome V) :=
  let ctx := ctx.markTouched key
  let e := { e.localWrite value now with optimistic := none }
  .ok (e, ctx.markNotify key, .none)

/-- Source: `Inner::on_mutate_begin`. -/
def onMutateBegin (e : EntryCore V F) (key : QueryKey) (optimistic : Option V)
    (ctx : Ctx V F) : Except Panic (EntryCore V F × Ctx V F × Outcome V) :=
  let ctx := ctx.markTouched key
  let e := { e with mutationActive := e.mutationActive + 1 }.discardFlight
  let ctx := ctx.markNotify key
  match optimistic with
  | none => .ok (e, ctx, .mutation ⟨key, none⟩)
  | some value =>
    -- `updated_at` stays put: optimistic values never count as fresh.
    let e := { e with
      seq := e.seq + 1
      optimistic := some {
        prevData := e.data
        prevError := e.error
        prevDataSeq := e.dataSeq
        prevUpdatedAt := e.updatedAt
        writtenSeq := e.seq + 1 }
      data := some value
      dataSeq := e.seq + 1 }
    .ok (e, ctx, .mutation ⟨key, some e.seq⟩)

/-- The `match result` of `Inner::on_mutate_commit`. -/
def applyResult (e : EntryCore V F) (token : MutationToken) (result : Except V (Option V))
    (flags : MutateFlags) (now : Instant) (ctx : Ctx V F) :
    Except Panic (EntryCore V F × Ctx V F) :=
  match result with
  | .ok (some value) =>
    if flags.populate then
      .ok ({ e.localWrite value now with optimistic := none }, ctx.markNotify token.key)
    else .ok (clearOwnOptimistic e token, ctx)
  | .ok none => .ok (clearOwnOptimistic e token, ctx)
  | .error error => do
    let e := { e with error := some error }
    let ctx := ctx.markNotify token.key
    let e ← rollbackIfUnclobbered e token flags.rollbackOnError
    .ok (e, ctx)

/-- Source: `Inner::on_mutate_commit`. -/
def onMutateCommit (e : EntryCore V F) (token : MutationToken) (result : Except V (Option V))
    (flags : MutateFlags) (now : Instant) (ctx : Ctx V F) :
    Except Panic (EntryCore V F × Ctx V F × Outcome V) := do
  let ctx := ctx.markTouched token.key
  debugAssert (decide (0 < e.mutationActive)) .commitUnmatched
  let e := { e with mutationActive := e.mutationActive - 1 }
  let (e, ctx) ← e.applyResult token result flags now ctx
  let (e, ctx) ← finishMutation e token.key flags.revalidate ctx
  .ok (e, ctx.markNotify token.key, .none)

/-- Source: `Inner::on_mutate_abort`. -/
def onMutateAbort (e : EntryCore V F) (token : MutationToken) (flags : MutateFlags)
    (ctx : Ctx V F) : Except Panic (EntryCore V F × Ctx V F × Outcome V) := do
  let ctx := ctx.markTouched token.key
  debugAssert (decide (0 < e.mutationActive)) .abortUnmatched
  let e := { e with mutationActive := e.mutationActive - 1 }
  let e ← rollbackIfUnclobbered e token flags.rollbackOnError
  let (e, ctx) ← finishMutation e token.key flags.revalidate ctx
  .ok (e, ctx.markNotify token.key, .none)

/-- The loop body of `Inner::on_invalidate`. -/
def onInvalidate (e : EntryCore V F) (key : QueryKey) (ctx : Ctx V F) :
    Except Panic (EntryCore V F × Ctx V F) :=
  let ctx := ctx.markTouched key
  if 0 < e.mutationActive then .ok ({ e with invalidated := true }, ctx)
  else
    let e := { e with invalidated := true }
    let e := if e.inflight.isSome then e.discardFlight else e
    let ctx := ctx.markNotify key
    if e.isActive && e.fetcher.isSome then do
      let (e, ctx, _) ← startFetch e key ctx
      .ok (e, ctx.markNotify key)
    else .ok (e, ctx)

/-- The loop body of `Inner::on_broadcast`. -/
def onBroadcast [Platform] (e : EntryCore V F) (defaults : QueryOptions) (ev : SwrEvent)
    (now : Instant) (key : QueryKey) (ctx : Ctx V F) :
    Except Panic (EntryCore V F × Ctx V F) :=
  let enabled := match ev with
    | .focus => e.opts.anyOnFocus
    | .online => e.opts.anyOnOnline
  if !e.isActive then .ok (e, ctx)
  else if !enabled then .ok (e, ctx)
  else if decide (ev = .focus) && (e.focusBlockedUntil.any fun till => decide (now < till)) then
    .ok (e, ctx)
  else if !e.isStale (e.opts.minStaleTime defaults.staleTime) now then .ok (e, ctx)
  else if e.inflight.isSome || decide (0 < e.mutationActive) || e.fetcher.isNone then .ok (e, ctx)
  else do
    let e := if ev = .focus then
        { e with
          focusBlockedUntil :=
            Instant.checkedAdd now (e.opts.minFocusThrottle defaults.focusThrottle) }
      else e
    let ctx := ctx.markTouched key
    let (e, ctx, _) ← startFetch e key ctx
    .ok (e, ctx.markNotify key)

/-- Source: `Inner::on_timer_refresh`. -/
def onTimerRefresh (e : EntryCore V F) (key : QueryKey) (generation : Nat) (ctx : Ctx V F) :
    Except Panic (EntryCore V F × Ctx V F × Outcome V) :=
  if generation ≠ e.refreshGen then .ok (e, ctx, .none)
  else if e.subscribers = 0 then .ok (e, ctx, .none)
  else if e.inflight.isSome || decide (0 < e.mutationActive) then
    -- Busy: only re-arm the next tick.
    .ok (e, ctx.markRefreshChanged key, .none)
  else if e.fetcher.isSome then do
    let ctx := ctx.markTouched key
    let (e, ctx, _) ← startFetch e key ctx
    .ok (e, (ctx.markNotify key).markRefreshChanged key, .none)
  else .ok (e, ctx.markRefreshChanged key, .none)

/-- The loop body of the GC post-rule. Source: `Inner::post_rules`. -/
def gcRule [Platform] (e : EntryCore V F) (defaults : QueryOptions) (now : Instant)
    (key : QueryKey) (ctx : Ctx V F) : Except Panic (EntryCore V F × Ctx V F) :=
  if e.isQuiescent then
    let e := { e with gcGen := e.gcGen + 1 }
    -- An unrepresentable deadline means: never collect.
    match Instant.checkedAdd now (e.opts.gcTime defaults.gcTime) with
    | some deadline => .ok (e, ctx.push (.scheduleTimer key .gc deadline e.gcGen))
    | none => .ok (e, ctx)
  else .ok (e, ctx)

/-- The loop body of the refresh post-rule. Source: `Inner::post_rules`. -/
def refreshRule [Platform] (e : EntryCore V F) (now : Instant) (key : QueryKey)
    (ctx : Ctx V F) : Except Panic (EntryCore V F × Ctx V F) :=
  if 0 < e.subscribers then
    match e.opts.refreshInterval.bind fun interval => Instant.checkedAdd now interval with
    | some deadline =>
      let e := { e with refreshGen := e.refreshGen + 1 }
      .ok (e, ctx.push (.scheduleTimer key .refresh deadline e.refreshGen))
    | none => .ok (e, ctx)
  else
    -- No reschedule, just invalidate old timers.
    .ok ({ e with refreshGen := e.refreshGen + 1 }, ctx)

/-- The loop body of `Inner::flush_notifies`. -/
def flushNotify (e : EntryCore V F) (ctx : Ctx V F) : Except Panic (EntryCore V F × Ctx V F) :=
  let e := { e with snapVersion := e.snapVersion + 1 }
  .ok (e, ctx.push (.notify e.tx (e.buildSnapshot e.snapVersion)))

end EntryCore

/-! ## The machine -/

/-- The state machine. Source: `machine.rs`, `Inner`. -/
structure Inner (V F : Type) where
  entries : Finmap fun _ : QueryKey => EntryCore V F
  defaults : QueryOptions
  nextSubId : Nat
  nextIncarnation : Nat

namespace Inner

/-- Source: `Inner::new`. -/
def new (defaults : QueryOptions) : Inner V F := ⟨∅, defaults, 0, 0⟩

/-- The entry stored under a key: `self.entries.get(key)`. -/
def entry (s : Inner V F) (key : QueryKey) : Option (EntryCore V F) := s.entries.lookup key

/-- Writing back the entry borrowed by `get_mut`. -/
def put (s : Inner V F) (key : QueryKey) (e : EntryCore V F) : Inner V F :=
  { s with entries := s.entries.insert key e }

/-- Fetch-or-create with a fresh incarnation. Source: `Inner::entry_or_create`. -/
def entryOrCreate (s : Inner V F) (key : QueryKey) : Except Panic (Inner V F × EntryCore V F) :=
  let s := if key ∈ s.entries then s else
    { s with
      nextIncarnation := s.nextIncarnation + 1
      entries := s.entries.insert key (EntryCore.new key s.nextIncarnation) }
  match s.entry key with
  | some e => .ok (s, e)
  | none => .error .justEnsured

/-- Run a handler body on the entry under `key`; `missing` is the `else` arm of the lookup. -/
def withEntry (s : Inner V F) (key : QueryKey) (missing : Except Panic (Outcome V))
    (body : EntryCore V F → Ctx V F → Except Panic (EntryCore V F × Ctx V F × Outcome V))
    (ctx : Ctx V F) : Except Panic (Inner V F × Ctx V F × Outcome V) :=
  match s.entry key with
  | none => do
    let outcome ← missing
    .ok (s, ctx, outcome)
  | some e => do
    let (e, ctx, outcome) ← body e ctx
    .ok (s.put key e, ctx, outcome)

/-- Run a handler body on the entry under `key`, created if missing. -/
def withEntryOrCreate (s : Inner V F) (key : QueryKey)
    (body : EntryCore V F → Ctx V F → Except Panic (EntryCore V F × Ctx V F × Outcome V))
    (ctx : Ctx V F) : Except Panic (Inner V F × Ctx V F × Outcome V) := do
  let (s, e) ← s.entryOrCreate key
  let (e, ctx, outcome) ← body e ctx
  .ok (s.put key e, ctx, outcome)

/-- Run a loop body on every key of a list; `missing` is what the loop does with a key that is not
in the table. -/
def forEntries (missing : Except Panic Unit)
    (body : QueryKey → EntryCore V F → Ctx V F → Except Panic (EntryCore V F × Ctx V F)) :
    List QueryKey → Inner V F → Ctx V F → Except Panic (Inner V F × Ctx V F)
  | [], s, ctx => .ok (s, ctx)
  | key :: keys, s, ctx =>
    match s.entry key with
    | none => do
      missing
      forEntries missing body keys s ctx
    | some e => do
      let (e, ctx) ← body key e ctx
      forEntries missing body keys (s.put key e) ctx

/-- The read path. Source: `Inner::on_read`. -/
def onRead [Platform] (s : Inner V F) (key : QueryKey) (policy : ReadPolicy)
    (fetcher : Option F) (compare : Option (Compare V)) (opts : QueryOptions) (now : Instant)
    (ctx : Ctx V F) : Except Panic (Inner V F × Ctx V F × Outcome V) :=
  if policy = .cacheOnly then
    -- A missing entry is not created.
    s.withEntry key (.ok (.read (.ready .empty)))
      (fun e ctx => e.onReadCacheOnly key fetcher compare opts ctx) ctx
  else
    s.withEntryOrCreate key (fun e ctx => e.onRead key policy fetcher compare opts now ctx) ctx

/-- Source: `Inner::on_subscribe`. -/
def onSubscribe [Platform] (s : Inner V F) (key : QueryKey) (fetcher : Option F)
    (compare : Option (Compare V)) (opts : QueryOptions) (now : Instant) (ctx : Ctx V F) :
    Except Panic (Inner V F × Ctx V F × Outcome V) :=
  let subId := s.nextSubId
  let s := { s with nextSubId := s.nextSubId + 1 }
  s.withEntryOrCreate key (fun e ctx => e.onSubscribe key subId fetcher compare opts now ctx) ctx

/-- A GC timer fired: remove the entry if it is idle. Source: `Inner::on_timer_gc`. -/
def onTimerGc (s : Inner V F) (key : QueryKey) (generation : Nat) : Inner V F :=
  match s.entry key with
  | none => s
  | some e =>
    if generation ≠ e.gcGen then s
    else if e.isQuiescent then { s with entries := s.entries.erase key }
    else s

/-- Prefix invalidation: a scan over the table. Source: `Inner::on_invalidate`. -/
def onInvalidate (s : Inner V F) (pre : List Segment) (scan : List QueryKey) (ctx : Ctx V F) :
    Except Panic (Inner V F × Ctx V F) :=
  forEntries (.error .keyCollected) (fun key e ctx => e.onInvalidate key ctx)
    (scan.filter fun k => k.matchesPrefix pre) s ctx

/-- An environment event: a scan over the table. Source: `Inner::on_broadcast`. -/
def onBroadcast [Platform] (s : Inner V F) (ev : SwrEvent) (now : Instant)
    (scan : List QueryKey) (ctx : Ctx V F) : Except Panic (Inner V F × Ctx V F) :=
  forEntries (.error .keyCollected) (fun key e ctx => e.onBroadcast s.defaults ev now key ctx)
    scan s ctx

/-- The `match ev` of `handle`. Source: `Inner::handle`. -/
def react [Platform] (s : Inner V F) (ev : Event V F) (now : Instant) (scan : List QueryKey)
    (ctx : Ctx V F) : Except Panic (Inner V F × Ctx V F × Outcome V) :=
  match ev with
  | .read key policy fetcher compare opts => s.onRead key policy fetcher compare opts now ctx
  | .subscribe key fetcher compare opts => s.onSubscribe key fetcher compare opts now ctx
  | .unsubscribe key subId =>
    s.withEntry key (.ok .none) (fun e ctx => e.onUnsubscribe key subId ctx) ctx
  | .revalidateRequested key =>
    s.withEntry key (.ok .none) (fun e ctx => e.onRevalidateRequested key ctx) ctx
  | .commitOk key incarnation seq value =>
    s.withEntry key (.ok .none) (fun e ctx => e.onCommitOk key incarnation seq value now ctx) ctx
  | .commitErr key incarnation seq error =>
    s.withEntry key (.ok .none) (fun e ctx => e.onCommitErr key incarnation seq error ctx) ctx
  | .mutateSet key value =>
    s.withEntryOrCreate key (fun e ctx => e.onMutateSet key value now ctx) ctx
  | .mutateBegin key optimistic =>
    s.withEntryOrCreate key (fun e ctx => e.onMutateBegin key optimistic ctx) ctx
  | .mutateCommit token result flags =>
    s.withEntry token.key (.error .commitRemoved)
      (fun e ctx => e.onMutateCommit token result flags now ctx) ctx
  | .mutateAbort token flags =>
    s.withEntry token.key (.error .abortRemoved) (fun e ctx => e.onMutateAbort token flags ctx) ctx
  | .invalidate pre => do
    let (s, ctx) ← s.onInvalidate pre scan ctx
    .ok (s, ctx, .none)
  | .broadcast ev => do
    let (s, ctx) ← s.onBroadcast ev now scan ctx
    .ok (s, ctx, .none)
  | .timerFired key .gc generation => .ok (s.onTimerGc key generation, ctx, .none)
  | .timerFired key .refresh generation =>
    s.withEntry key (.ok .none) (fun e ctx => e.onTimerRefresh key generation ctx) ctx

/-- GC and refresh post-rules over the marked keys. Source: `Inner::post_rules`. -/
def postRules [Platform] (s : Inner V F) (now : Instant) (ctx : Ctx V F) :
    Except Panic (Inner V F × Ctx V F) := do
  let touched := ctx.touched
  let (s, ctx) ← forEntries (.ok ()) (fun key e ctx => e.gcRule s.defaults now key ctx)
    touched s { ctx with touched := [] }
  let refresh := ctx.refreshChanged
  forEntries (.ok ()) (fun key e ctx => e.refreshRule now key ctx)
    refresh s { ctx with refreshChanged := [] }

/-- One merged `Notify` per marked key. Source: `Inner::flush_notifies`. -/
def flushNotifies (s : Inner V F) (ctx : Ctx V F) : Except Panic (Inner V F × Ctx V F) :=
  forEntries (.ok ()) (fun _ e ctx => e.flushNotify ctx) ctx.notify s { ctx with notify := [] }

/-- Sole entry point: one event in, the outcome plus effects out. Source: `Inner::handle`. -/
def handle [Platform] (s : Inner V F) (ev : Event V F) (now : Instant) (scan : List QueryKey) :
    Except Panic (Inner V F × HandleOutput V F) := do
  let (s, ctx, outcome) ← s.react ev now scan .empty
  let (s, ctx) ← s.postRules now ctx
  let (s, ctx) ← s.flushNotifies ctx
  .ok (s, ⟨outcome, ctx.effects⟩)

end Inner

end SwrCore
