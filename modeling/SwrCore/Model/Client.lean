import SwrCore.Model.Machine

/-!
# The read side of the client

* `FetchError`, `readyResult` — the result of `fetch()` and the conversion of an immediate snapshot.
* `look` — one iteration of the wait loop, up to the poke.
* `pass` — what one pass through the loop of `fetch_inner` makes of the outcome of its `Read`.
-/

namespace SwrCore

variable {V : Type}

/-- Source: `error.rs`, `FetchError`. -/
inductive FetchError (V : Type) where
  | fetch (error : V)
  | noFetcher
  | miss
deriving DecidableEq

/-- Stale data wins over a stored error; a truly empty hit is a `Miss`.
Source: `client.rs`, `ready_result`. -/
def readyResult (snapshot : Snapshot V) : Except (FetchError V) V :=
  match snapshot.data with
  | some value => .ok value
  | none =>
    match snapshot.error with
    | some error => .error (.fetch error)
    | none => .error .miss

/-- How one iteration of the wait loop ends: with a result, or before `changed()`, with or without
a poke. Source: `client.rs`, `WaitOutcome` and the local `poke`. -/
inductive Look (V : Type) where
  | data (value : V)
  | error (error : V)
  | park (poke : Bool)
deriving DecidableEq

/-- One look at the latest snapshot. Source: `client.rs`, `SwrClient::wait`. -/
def look (snapshot : Snapshot V) (target : Nat) : Except Panic (Look V) :=
  if target ≤ snapshot.dataSeq then
    match snapshot.data with
    | some value => .ok (.data value)
    | none => .error .dataPresent
  else if target ≤ snapshot.errorSeq then
    match snapshot.error with
    | some error => .ok (.error error)
    | none => .error .errorPresent
  else .ok (.park (snapshot.inflight.isNone && !snapshot.isMutating))

/-- What `fetch()` does with the outcome of its `Read`: return, or wait on a channel for a target.
Source: `client.rs`, `SwrClient::fetch_inner`. -/
inductive Pass (V : Type) where
  | done (result : Except (FetchError V) V)
  | wait (target : Nat) (rx : Channel)
deriving DecidableEq

/-- The `match` of `fetch_inner`. Source: `client.rs`, `SwrClient::fetch_inner`. -/
def pass : Outcome V → Except Panic (Pass V)
  | .read (.ready snapshot) => .ok (.done (readyResult snapshot))
  | .read .noFetcher => .ok (.done (.error .noFetcher))
  | .read (.wait target rx) => .ok (.wait target rx)
  | _ => .error .readOutcome

end SwrCore
