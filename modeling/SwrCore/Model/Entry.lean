import Mathlib.Data.List.AList
import SwrCore.Model.Data

/-!
# Cache entries and the working set of one event

* `EntryOptions` — the options of the active subscribers plus the latest touch, and the aggregates
  the machine computes from them.
* `EntryCore` — one cache entry, with the methods of the source: `canStartFetch`, `isStale`,
  `discardFlight`, `localWrite`, `isQuiescent`, `buildSnapshot`.
* `Effect`, `Ctx` — the output side effects and the per-event working set.
* `startFetch`, `clearOwnOptimistic`, `rollbackIfUnclobbered`, `finishMutation` — the free functions
  of `machine.rs` that act on one entry.

Assertions are modelled by `Except Panic`: a `debug_assert!`, `expect` or `unreachable!` that fires
ends the computation with the `Panic` naming its place in the source. This is the debug build; the
release build computes the same on every run on which none of them fires.

A watch channel is identified by the key and the incarnation of the entry it was allocated for.
-/

namespace SwrCore

/-! ## Panics -/

/-- The assertion sites of the state machine and of the wait loop. -/
inductive Panic where
  /-- `start_fetch! precondition violated` -/
  | startFetchPrecondition
  /-- `start_fetch! precondition: fetcher present` -/
  | fetcherPresent
  /-- `just ensured above` -/
  | justEnsured
  /-- `handled above` (the `CacheOnly` arm of the second match on the policy) -/
  | handledAbove
  /-- `unsubscribe without matching subscribe` -/
  | unsubscribeUnmatched
  /-- `inflight seq must equal the entry seq` -/
  | commitSeq
  /-- `invalidated must be false on the commit-apply path` -/
  | commitInvalidated
  /-- `MutateCommit on removed entry: active mutations block GC` -/
  | commitRemoved
  /-- `MutateCommit without MutateBegin` -/
  | commitUnmatched
  /-- `MutateAbort on removed entry: active mutations block GC` -/
  | abortRemoved
  /-- `MutateAbort without MutateBegin` -/
  | abortUnmatched
  /-- `key collected from the table above` -/
  | keyCollected
  /-- `checked above` (the slot taken by the rollback) -/
  | checkedAbove
  /-- `data_seq advanced implies data present` -/
  | dataPresent
  /-- `error_seq advanced implies error present` -/
  | errorPresent
  /-- `Read events yield Read outcomes` -/
  | readOutcome
deriving DecidableEq

/-- `debug_assert!`. -/
def debugAssert (c : Bool) (p : Panic) : Except Panic Unit := if c then .ok () else .error p

@[simp] theorem debugAssert_true (p : Panic) : debugAssert true p = .ok () := rfl

@[simp] theorem debugAssert_false (p : Panic) : debugAssert false p = .error p := rfl

@[simp] theorem ok_bind {ε α β : Type} (a : α) (f : α → Except ε β) :
    ((Except.ok a : Except ε α) >>= f) = f a := rfl

@[simp] theorem error_bind {ε α β : Type} (e : ε) (f : α → Except ε β) :
    ((Except.error e : Except ε α) >>= f) = .error e := rfl

/-- A computation that ends in a result has gone through each of its stages. -/
theorem bind_eq_ok {ε α β : Type} {x : Except ε α} {f : α → Except ε β} {b : β} :
    (x >>= f) = .ok b ↔ ∃ a, x = .ok a ∧ f a = .ok b := by
  cases x <;> simp

/-! ## Values, tokens and effects -/

/-- Structural-sharing comparator. Source: `erased.rs`, `ErasedCompare`. -/
abbrev Compare (V : Type) := V → V → Bool

/-- Identity of a watch channel: the entry it was allocated for. -/
structure Channel where
  key : QueryKey
  incarnation : Nat
deriving DecidableEq

/-- Source: `machine.rs`, `TimerKind`. -/
inductive TimerKind where
  | gc
  | refresh
deriving DecidableEq

/-- Ticket of an async mutation. Source: `machine.rs`, `MutationToken`. -/
structure MutationToken where
  key : QueryKey
  /-- Seq consumed by the optimistic write, if there was one. -/
  writtenSeq : Option Nat
deriving DecidableEq

/-- Output side effects. Source: `machine.rs`, `Effect`. -/
inductive Effect (V F : Type) where
  | startFetch (key : QueryKey) (incarnation seq : Nat) (fetcher : F)
  | notify (tx : Channel) (snapshot : Snapshot V)
  | scheduleTimer (key : QueryKey) (kind : TimerKind) (deadline : Instant) (generation : Nat)
deriving DecidableEq

/-- What a `Read` returns. Source: `machine.rs`, `ReadOutcome`. -/
inductive ReadOutcome (V : Type) where
  | ready (snapshot : Snapshot V)
  | wait (target : Nat) (rx : Channel)
  | noFetcher
deriving DecidableEq

/-- Per-event return value. Source: `machine.rs`, `Outcome`. -/
inductive Outcome (V : Type) where
  | none
  | read (outcome : ReadOutcome V)
  | subscribed (subId : Nat) (rx : Channel)
  | mutation (token : MutationToken)
deriving DecidableEq

/-! ## Option aggregation -/

/-- Options of the active subscribers plus the latest touch. Source: `machine.rs`,
`EntryOptions`. -/
structure EntryOptions where
  subs : AList fun _ : Nat => QueryOptions
  /-- `gc_time` of the most recent `Read` or `Subscribe`. -/
  lastTouchGcTime : Option Duration

namespace EntryOptions

/-- `EntryOptions::default()`. -/
def default : EntryOptions := ⟨∅, none⟩

/-- `self.subs.values()`. -/
def values (o : EntryOptions) : List QueryOptions := o.subs.entries.map Sigma.snd

/-- Max of the active subscribers and the latest touch. Source: `EntryOptions::gc_time`. -/
def gcTime (o : EntryOptions) (defaultGc : Duration) : Duration :=
  (o.values.map QueryOptions.gcTime ++ o.lastTouchGcTime.toList).max?.getD defaultGc

/-- Min non-`None` interval. Source: `EntryOptions::refresh_interval`. -/
def refreshInterval (o : EntryOptions) : Option Duration :=
  (o.values.filterMap QueryOptions.refreshInterval).min?

/-- Min `stale_time` among the active subscribers. Source: `EntryOptions::min_stale_time`. -/
def minStaleTime (o : EntryOptions) (defaultStale : Duration) : Duration :=
  (o.values.map QueryOptions.staleTime).min?.getD defaultStale

/-- Source: `EntryOptions::any_on_focus`. -/
def anyOnFocus (o : EntryOptions) : Bool := o.values.any QueryOptions.revalidateOnFocus

/-- Source: `EntryOptions::any_on_online`. -/
def anyOnOnline (o : EntryOptions) : Bool := o.values.any QueryOptions.revalidateOnOnline

/-- Min focus throttle among the active subscribers. Source:
`EntryOptions::min_focus_throttle`. -/
def minFocusThrottle (o : EntryOptions) (defaultThrottle : Duration) : Duration :=
  (o.values.map QueryOptions.focusThrottle).min?.getD defaultThrottle

end EntryOptions

/-! ## Entries -/

/-- Rollback snapshot taken by an optimistic write. Source: `machine.rs`, `OptimisticSnapshot`. -/
structure OptimisticSnapshot (V : Type) where
  prevData : Option V
  prevError : Option V
  prevDataSeq : Nat
  prevUpdatedAt : Option Instant
  /-- Seq the optimistic value was written at. -/
  writtenSeq : Nat

/-- One cache entry. Source: `machine.rs`, `EntryCore`. -/
structure EntryCore (V F : Type) where
  incarnation : Nat
  data : Option V
  error : Option V
  dataSeq : Nat
  errorSeq : Nat
  updatedAt : Option Instant
  seq : Nat
  inflight : Option Nat
  mutationActive : Nat
  invalidated : Bool
  optimistic : Option (OptimisticSnapshot V)
  subscribers : Nat
  gcGen : Nat
  refreshGen : Nat
  focusBlockedUntil : Option Instant
  fetcher : Option F
  compare : Option (Compare V)
  opts : EntryOptions
  snapVersion : Nat
  tx : Channel

namespace EntryCore

variable {V F : Type}

/-- Source: `EntryCore::new`. The key only names the freshly allocated channel. -/
def new (key : QueryKey) (incarnation : Nat) : EntryCore V F where
  incarnation := incarnation
  data := none
  error := none
  dataSeq := 0
  errorSeq := 0
  updatedAt := none
  seq := 0
  inflight := none
  mutationActive := 0
  invalidated := false
  optimistic := none
  subscribers := 0
  gcGen := 0
  refreshGen := 0
  focusBlockedUntil := none
  fetcher := none
  compare := none
  opts := EntryOptions.default
  snapVersion := 0
  tx := ⟨key, incarnation⟩

/-- `start_fetch!` precondition. Source: `EntryCore::can_start_fetch`. -/
def canStartFetch (e : EntryCore V F) : Bool :=
  e.fetcher.isSome && decide (e.mutationActive = 0) && e.inflight.isNone

/-- A deadline that is not representable never passes. Source: `EntryCore::is_stale`. -/
def isStale [Platform] (e : EntryCore V F) (staleTime : Duration) (now : Instant) : Bool :=
  e.invalidated || e.updatedAt.all fun t =>
    (Instant.checkedAdd t staleTime).any fun deadline => decide (deadline ≤ now)

/-- Source: `EntryCore::is_active`. -/
def isActive (e : EntryCore V F) : Bool := decide (0 < e.subscribers)

/-- A future commit of the old flight is dropped as stale. Source: `EntryCore::discard_flight`. -/
def discardFlight (e : EntryCore V F) : EntryCore V F :=
  { e with seq := e.seq + 1, inflight := none }

/-- Source: `EntryCore::local_write`. -/
def localWrite (e : EntryCore V F) (value : V) (now : Instant) : EntryCore V F :=
  { e with
    seq := e.seq + 1
    data := some value
    dataSeq := e.seq + 1
    updatedAt := some now
    error := none
    invalidated := false
    inflight := none }

/-- Idle: eligible for the GC countdown. Source: `EntryCore::is_quiescent`. -/
def isQuiescent (e : EntryCore V F) : Bool :=
  decide (e.subscribers = 0) && decide (e.mutationActive = 0) && e.inflight.isNone

/-- Source: `EntryCore::build_snapshot`. -/
def buildSnapshot (e : EntryCore V F) (version : Nat) : Snapshot V where
  data := e.data
  error := e.error
  dataSeq := e.dataSeq
  errorSeq := e.errorSeq
  inflight := e.inflight
  isMutating := decide (0 < e.mutationActive)
  updatedAt := e.updatedAt
  version := version

/-- Snapshot without consuming a notify version. Source: `EntryCore::snapshot_now`. -/
def snapshotNow (e : EntryCore V F) : Snapshot V := e.buildSnapshot e.snapVersion

end EntryCore

/-! ## The working set of one event -/

/-- Effects plus ordered, deduplicated key marks. Source: `machine.rs`, `Ctx`. -/
structure Ctx (V F : Type) where
  effects : List (Effect V F)
  /-- Keys needing a `Notify`. -/
  notify : List QueryKey
  /-- Keys the event touched. -/
  touched : List QueryKey
  /-- Keys whose refresh scheduling basis changed. -/
  refreshChanged : List QueryKey

namespace Ctx

variable {V F : Type}

/-- `Ctx::default()`. -/
def empty : Ctx V F := ⟨[], [], [], []⟩

/-- `ctx.effects.push(effect)`. -/
def push (ctx : Ctx V F) (effect : Effect V F) : Ctx V F :=
  { ctx with effects := ctx.effects ++ [effect] }

/-- Append a key unless the list has it: the guard of the three `mark_*` methods. -/
def addKey (keys : List QueryKey) (key : QueryKey) : List QueryKey :=
  if key ∈ keys then keys else keys ++ [key]

/-- Source: `Ctx::mark_notify`. -/
def markNotify (ctx : Ctx V F) (key : QueryKey) : Ctx V F :=
  { ctx with notify := addKey ctx.notify key }

/-- Source: `Ctx::mark_touched`. -/
def markTouched (ctx : Ctx V F) (key : QueryKey) : Ctx V F :=
  { ctx with touched := addKey ctx.touched key }

/-- Source: `Ctx::mark_refresh_changed`. -/
def markRefreshChanged (ctx : Ctx V F) (key : QueryKey) : Ctx V F :=
  { ctx with refreshChanged := addKey ctx.refreshChanged key }

end Ctx

/-! ## The free functions on one entry -/

section free

variable {V F : Type}

/-- Consume a seq, mark it in flight, emit `StartFetch`; clears `invalidated`.
Source: `machine.rs`, `start_fetch`. -/
def startFetch (e : EntryCore V F) (key : QueryKey) (ctx : Ctx V F) :
    Except Panic (EntryCore V F × Ctx V F × Nat) := do
  debugAssert e.canStartFetch .startFetchPrecondition
  let e := { e with seq := e.seq + 1, inflight := some (e.seq + 1), invalidated := false }
  match e.fetcher with
  | none => .error .fetcherPresent
  | some fetcher => .ok (e, ctx.push (.startFetch key e.incarnation e.seq fetcher), e.seq)

/-- Drop this mutation's own optimistic snapshot, leaving another mutation's in place.
Source: `machine.rs`, `clear_own_optimistic`. -/
def clearOwnOptimistic (e : EntryCore V F) (token : MutationToken) : EntryCore V F :=
  match token.writtenSeq with
  | none => e
  | some ws =>
    if e.optimistic.any fun s => decide (s.writtenSeq = ws) then { e with optimistic := none }
    else e

/-- Error-path rollback, only while this mutation's optimistic write is still the latest write.
Source: `machine.rs`, `rollback_if_unclobbered`. -/
def rollbackIfUnclobbered (e : EntryCore V F) (token : MutationToken) (rollbackOnError : Bool) :
    Except Panic (EntryCore V F) :=
  match token.writtenSeq with
  | none => .ok e
  | some ws =>
    if !(e.optimistic.any fun s => decide (s.writtenSeq = ws)) then
      -- The slot belongs to a later mutation, or was cleared.
      .ok e
    else
      match e.optimistic with
      | none => .error .checkedAbove
      | some snap =>
        let e := { e with optimistic := none }
        if rollbackOnError && decide (e.dataSeq = ws) then
          .ok { e with
            data := snap.prevData
            error := snap.prevError
            dataSeq := snap.prevDataSeq
            updatedAt := snap.prevUpdatedAt }
        else .ok e

/-- Once the last concurrent mutation is out, revalidate or converge a deferred invalidation.
Source: `machine.rs`, `finish_mutation`. -/
def finishMutation (e : EntryCore V F) (key : QueryKey) (revalidate : Bool) (ctx : Ctx V F) :
    Except Panic (EntryCore V F × Ctx V F) :=
  if decide (e.mutationActive = 0) && (revalidate || e.invalidated) && e.canStartFetch then do
    let (e, ctx, _) ← startFetch e key ctx
    .ok (e, ctx.markNotify key)
  else .ok (e, ctx)

end free

end SwrCore
