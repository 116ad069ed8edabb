import Mathlib.Algebra.Group.Nat.Defs
import SwrCore.Library.Trace
import SwrCore.Model.Data

/-!
# The retry combinator

A fetcher that runs another one until it succeeds, its error is not worth a retry, or the retries are
used up. The loop is an `async` block: it runs from one `await` to the next, and is polled again when the
future it awaits has resolved.

* `RetryPolicy` — the schedule; `RetryPolicy.delay`.
* `Retry` — the policy and the predicate on errors. The wrapped fetcher and the runtime are the
  environment: their answers are the inputs of the loop.
* `RetryState`, `RetryInput`, `Retry.resume` — the loop between two awaits.
* `Retry.Step`, `Retry.Run` — the loop under a runtime whose timers do not resolve early.

The counter of the loop is a `u32` whose overflow is a panic, as in the debug build.
-/

namespace SwrCore

/-! ## The schedule -/

/-- Multiplication that stops at the longest duration. Source: `Duration::saturating_mul`. -/
def Duration.saturatingMul (d : Duration) (n : Nat) : Duration := min (d * n) Duration.max

/-- Source: `retry.rs`, `RetryPolicy`. -/
structure RetryPolicy where
  interval : Duration
  maxRetries : Option Nat
deriving DecidableEq

/-- Source: `RetryPolicy::default`. -/
def RetryPolicy.default : RetryPolicy := ⟨.fromSecs 5, some 3⟩

/-- The delay before a retry, counted from one. Source: `RetryPolicy::delay`. -/
def RetryPolicy.delay (p : RetryPolicy) (attempt : Nat) : Duration :=
  p.interval.saturatingMul (1 <<< min attempt 8)

/-! ## The loop -/

/-- The places where the loop can panic. -/
inductive RetryPanic where
  /-- `attempt += 1` -/
  | attemptOverflow
  /-- `retry deadline representable` -/
  | deadlineRepresentable
deriving DecidableEq

/-- Source: `retry.rs`, `Retry`. -/
structure Retry (E : Type) where
  policy : RetryPolicy
  shouldRetry : E → Bool

variable {T E : Type}

/-- Retry every error. Source: `Retry::new`. -/
def Retry.new (policy : RetryPolicy) : Retry E := ⟨policy, fun _ => true⟩

/-- Retry only the errors that the predicate accepts. Source: `Retry::retry_if`. -/
def Retry.retryIf (r : Retry E) (pred : E → Bool) : Retry E := { r with shouldRetry := pred }

/-- Where the loop stands: it awaits the wrapped fetcher or the timer, or it has ended. -/
inductive RetryState (T E : Type) where
  | fetching (attempt : Nat)
  | sleeping (attempt : Nat) (deadline : Instant)
  | returned (result : Except E T)
  | panicked (panic : RetryPanic)
deriving DecidableEq

/-- What the loop is polled with: the answer of the wrapped fetcher, and what the clock says when the
loop asks it next; or the timer that has resolved. -/
inductive RetryInput (T E : Type) where
  | resolved (result : Except E T) (now : Instant)
  | woke (now : Instant)

namespace Retry

/-- The loop from one `await` to the next. Source: `Retry::fetch`. -/
def resume [Platform] (r : Retry E) : RetryState T E → RetryInput T E → RetryState T E
  | .fetching _, .resolved (.ok value) _ => .returned (.ok value)
  | .fetching attempt, .resolved (.error error) now =>
    if attempt + 1 < 2 ^ 32 then
      let attempt := attempt + 1
      let exhausted := r.policy.maxRetries.any fun max => decide (max < attempt)
      if exhausted || !r.shouldRetry error then .returned (.error error)
      else
        -- The attempt's result is dropped before the backoff sleep.
        match Instant.checkedAdd now (r.policy.delay attempt) with
        | some deadline => .sleeping attempt deadline
        | none => .panicked .deadlineRepresentable
    else .panicked .attemptOverflow
  | .sleeping attempt _, .woke _ => .fetching attempt
  | s, _ => s

/-- The loop is polled with what it awaits; `sleep_until` does not resolve before its deadline. -/
def Accepts : RetryState T E → RetryInput T E → Prop
  | .fetching _, .resolved _ _ => True
  | .sleeping _ deadline, .woke now => deadline ≤ now
  | _, _ => False

instance : (s : RetryState T E) → (i : RetryInput T E) → Decidable (Accepts s i)
  | .fetching _, .resolved _ _ => isTrue trivial
  | .sleeping _ deadline, .woke now => inferInstanceAs (Decidable (deadline ≤ now))
  | .fetching _, .woke _ => isFalse id
  | .sleeping _ _, .resolved _ _ => isFalse id
  | .returned _, _ => isFalse id
  | .panicked _, _ => isFalse id

/-- One step of the loop. -/
structure Step [Platform] (r : Retry E) (s : RetryState T E) (i : RetryInput T E)
    (s' : RetryState T E) : Prop where
  accepts : Accepts s i
  next : s' = r.resume s i

/-- A run of the loop, from the first call of the wrapped fetcher. -/
abbrev Run [Platform] (r : Retry E) :
    List (Trace.Record (RetryState T E) (RetryInput T E)) → RetryState T E → Prop :=
  Trace.Run r.Step (.fetching 0)

end Retry

end SwrCore
