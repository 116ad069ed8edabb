import Mathlib.Data.List.Basic
import Mathlib.Order.Basic

/-!
# The data model: time, keys, options, snapshots

* `Instant`, `Duration` — the clock, in nanoseconds. `Instant::checked_add` is partial: the largest
  representable instant is a platform constant, kept as the parameter `Platform.instantMax`.
* `Segment`, `QueryKey` — structured cache keys (`key.rs`). Identity is the pair of the type id and
  the segments; prefix matching reads the segments only.
* `QueryOptions`, `ReadPolicy`, `SwrEvent`, `MutateFlags` — `options.rs`.
* `Snapshot` — what the watch channel of an entry carries (`snapshot.rs`).

Erased values, fetchers and comparators are opaque to the state machine: a value is an element of a
type `V`, a fetcher an element of a type `F`, a comparator a Boolean relation on `V`. The `u64` and
`usize` counters of the source only ever grow by one per event and are natural numbers here.
-/

namespace SwrCore

/-! ## Time -/

/-- A point of the runtime's clock, in nanoseconds. Source: `lib.rs`, `Instant`. -/
abbrev Instant := Nat

/-- A length of time, in nanoseconds. Source: `std::time::Duration`. -/
abbrev Duration := Nat

/-- The platform constant the clock depends on: the largest representable instant.
Source: `std::time::Instant::checked_add`. -/
class Platform where
  /-- The largest representable instant. -/
  instantMax : Nat

/-- A clock that counts seconds in 64 bits with a sign, and nanoseconds. Source: `std::time::Instant`. -/
abbrev Platform.timespec : Platform := ⟨9223372036854775807999999999⟩

/-- Addition that fails past the largest representable instant.
Source: `std::time::Instant::checked_add`. -/
def Instant.checkedAdd [Platform] (t : Instant) (d : Duration) : Option Instant :=
  if t + d ≤ Platform.instantMax then some (t + d) else none

/-- `Duration::from_secs`. -/
def Duration.fromSecs (n : Nat) : Duration := n * 1000000000

/-- `Duration::MAX`: `u64::MAX` seconds and 999,999,999 nanoseconds. -/
def Duration.max : Duration := 18446744073709551615999999999

/-! ## Keys -/

/-- One structured segment of a key. Source: `key.rs`, `Segment`. -/
inductive Segment where
  | str (s : String)
  | u64 (n : UInt64)
  | i64 (n : Int64)
  | bool (b : Bool)
  | bytes (bs : List UInt8)
deriving DecidableEq

/-- A cache key: the id of the value types `(T, E)` plus ordered segments.
Source: `key.rs`, `QueryKey`. -/
structure QueryKey where
  /-- `TypeId` of the value pair, an opaque identity. -/
  typeId : Nat
  /-- The segments, on which prefixes are matched. -/
  segments : List Segment
deriving DecidableEq

/-- Prefix match on the segments only. Source: `key.rs`, `QueryKey::matches_prefix`. -/
def QueryKey.matchesPrefix (k : QueryKey) (pre : List Segment) : Bool :=
  decide (pre.length ≤ k.segments.length) && decide (k.segments.take pre.length = pre)

/-! ## Options -/

/-- Source: `options.rs`, `ReadPolicy`. -/
inductive ReadPolicy where
  | staleWhileRevalidate
  | ensureFresh
  | cacheOnly
deriving DecidableEq

/-- Source: `options.rs`, `QueryOptions`. -/
structure QueryOptions where
  staleTime : Duration
  gcTime : Duration
  refreshInterval : Option Duration
  revalidateOnFocus : Bool
  revalidateOnOnline : Bool
  focusThrottle : Duration
deriving DecidableEq

/-- Source: `options.rs`, `impl Default for QueryOptions`. -/
def QueryOptions.default : QueryOptions where
  staleTime := Duration.fromSecs 2
  gcTime := Duration.fromSecs 300
  refreshInterval := none
  revalidateOnFocus := true
  revalidateOnOnline := true
  focusThrottle := Duration.fromSecs 5

/-- Environment events. Source: `options.rs`, `SwrEvent`. -/
inductive SwrEvent where
  | focus
  | online
deriving DecidableEq

/-- Source: `options.rs`, `MutateFlags`. -/
structure MutateFlags where
  rollbackOnError : Bool
  populate : Bool
  revalidate : Bool
deriving DecidableEq

/-! ## Snapshots -/

/-- The watch-channel-visible state of one entry. Source: `snapshot.rs`, `Snapshot`. -/
structure Snapshot (V : Type) where
  data : Option V
  error : Option V
  dataSeq : Nat
  errorSeq : Nat
  inflight : Option Nat
  isMutating : Bool
  updatedAt : Option Instant
  /-- Monotonic notification version. -/
  version : Nat
deriving DecidableEq

/-- The value every fresh channel starts with. Source: `snapshot.rs`, `Snapshot::empty`. -/
def Snapshot.empty {V : Type} : Snapshot V where
  data := none
  error := none
  dataSeq := 0
  errorSeq := 0
  inflight := none
  isMutating := false
  updatedAt := none
  version := 0

end SwrCore
