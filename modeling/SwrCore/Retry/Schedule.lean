import Mathlib.Data.Nat.Basic
import Mathlib.Order.MinMax
import SwrCore.Model.Retry

/-!
# The schedule of the retries

* `RetryPolicy.delay_eq`, `RetryPolicy.delay_mono`, `RetryPolicy.delay_le` — the waits.
* `Retry.Retries` — the failures that are worth another attempt.
* `Retry.CounterOverflows`, `Retry.DeadlineOverflows` — the two overflows;
  `Retry.panics_iff`: the loop panics exactly there.
* `Retry.GoesOn` — the loop has not ended.
* `Retry.OnSchedule` — what the loop has done when it stands at a place: the invariant.
* `Retry.schedule` — how often the wrapped fetcher is called, when, and what the loop returns.
* `Retry.counter_panics` — a loop that counts too many failures.
-/

set_option linter.unusedSectionVars false

namespace SwrCore

variable {T E : Type}

/-! ## The waits -/

/-- The delay in closed form: it doubles eight times at most, and is capped by the longest duration. -/
theorem RetryPolicy.delay_eq (p : RetryPolicy) (n : Nat) :
    p.delay n = min (p.interval * 2 ^ min n 8) Duration.max := by
  rw [RetryPolicy.delay, Duration.saturatingMul, Nat.one_shiftLeft]

/-- The waits never decrease. -/
theorem RetryPolicy.delay_mono (p : RetryPolicy) {n m : Nat} (h : n ≤ m) :
    p.delay n ≤ p.delay m := by
  rw [p.delay_eq, p.delay_eq]
  have hexp : 2 ^ min n 8 ≤ 2 ^ min m 8 :=
    Nat.pow_le_pow_right (by decide) (min_le_min_right 8 h)
  exact min_le_min_right _ (Nat.mul_le_mul_left _ hexp)

/-- No wait is longer than 256 intervals. -/
theorem RetryPolicy.delay_le (p : RetryPolicy) (n : Nat) : p.delay n ≤ 256 * p.interval := by
  rw [p.delay_eq]
  have hexp : 2 ^ min n 8 ≤ 2 ^ 8 := Nat.pow_le_pow_right (by decide) (min_le_right n 8)
  calc min (p.interval * 2 ^ min n 8) Duration.max ≤ p.interval * 2 ^ min n 8 := min_le_left _ _
    _ ≤ p.interval * 2 ^ 8 := Nat.mul_le_mul_left _ hexp
    _ = 256 * p.interval := Nat.mul_comm _ _

/-! ## One step -/

/-- The wrapped fetcher answers with an error. -/
def RetryInput.fails : RetryInput T E → Bool
  | .resolved (.error _) _ => true
  | _ => false

/-- The loop has called the wrapped fetcher. -/
def RetryState.calling : RetryState T E → Bool
  | .fetching _ => true
  | _ => false

/-- The answer of the wrapped fetcher is a value. -/
def RetryInput.Succeeds (i : RetryInput T E) : Prop := ∃ value now, i = .resolved (.ok value) now

namespace Retry

/-- The `n`-th failure is worth another attempt: the predicate accepts its error, and the retries are not
used up. -/
def Retries (r : Retry E) (n : Nat) (error : E) : Prop :=
  r.shouldRetry error = true ∧ ∀ m, r.policy.maxRetries = some m → n ≤ m

/-- A failure that the counter cannot count. -/
def CounterOverflows : RetryState T E → RetryInput T E → Prop
  | .fetching attempt, .resolved (.error _) _ => 2 ^ 32 ≤ attempt + 1
  | _, _ => False

/-- A failure that is worth another attempt, at a deadline that is not representable. -/
def DeadlineOverflows [Platform] (r : Retry E) : RetryState T E → RetryInput T E → Prop
  | .fetching attempt, .resolved (.error error) now =>
    r.Retries (attempt + 1) error ∧ Platform.instantMax < now + r.policy.delay (attempt + 1)
  | _, _ => False

/-- Whether an error is retried, as the code tests it. -/
theorem retries_iff (r : Retry E) (n : Nat) (error : E) : r.Retries n error ↔
    ((r.policy.maxRetries.any fun max => decide (max < n)) || !r.shouldRetry error) = false := by
  unfold Retries
  cases r.policy.maxRetries with
  | none => simp
  | some m => simp [and_comm]

section step

variable [Platform] (r : Retry E) {attempt : Nat} {error : E} {now : Instant}

/-- A failure that is not worth another attempt is returned. -/
theorem resume_rejected (hc : attempt + 1 < 2 ^ 32) (hr : ¬ r.Retries (attempt + 1) error) :
    r.resume (.fetching attempt : RetryState T E) (.resolved (.error error) now) =
      .returned (.error error) := by
  rw [retries_iff, Bool.not_eq_false] at hr
  rw [resume, if_pos hc]
  exact if_pos hr

/-- A retried error is followed by a wait, until the clock cannot represent its end. -/
theorem resume_retried (hc : attempt + 1 < 2 ^ 32) (hr : r.Retries (attempt + 1) error) :
    r.resume (.fetching attempt : RetryState T E) (.resolved (.error error) now) =
      match Instant.checkedAdd now (r.policy.delay (attempt + 1)) with
      | some deadline => .sleeping (attempt + 1) deadline
      | none => .panicked .deadlineRepresentable := by
  rw [retries_iff] at hr
  rw [resume, if_pos hc]
  exact if_neg (ne_true_of_eq_false hr)

/-- After a failure that is worth another attempt the loop sleeps until the deadline. -/
theorem resume_sleeps (hc : attempt + 1 < 2 ^ 32) (hr : r.Retries (attempt + 1) error)
    (hfits : ¬ Platform.instantMax < now + r.policy.delay (attempt + 1)) :
    r.resume (.fetching attempt : RetryState T E) (.resolved (.error error) now) =
      .sleeping (attempt + 1) (now + r.policy.delay (attempt + 1)) := by
  rw [r.resume_retried hc hr, Instant.checkedAdd, if_pos (Nat.not_lt.mp hfits)]

/-- **The panics.** The loop panics where its counter or its deadline overflows, and nowhere else. -/
theorem panics_iff {s : RetryState T E} {i : RetryInput T E} (h : Accepts s i) :
    (∃ p, r.resume s i = .panicked p) ↔ CounterOverflows s i ∨ r.DeadlineOverflows s i := by
  match s, i, h with
  | .sleeping _ _, .woke _, _ => exact iff_of_false (fun ⟨_, h⟩ => nomatch h) (or_self_iff.not.mpr id)
  | .fetching _, .resolved (.ok _) _, _ =>
    exact iff_of_false (fun ⟨_, h⟩ => nomatch h) (or_self_iff.not.mpr id)
  | .fetching attempt, .resolved (.error error) now, _ =>
    show _ ↔ 2 ^ 32 ≤ attempt + 1 ∨ r.Retries (attempt + 1) error ∧ _
    by_cases hc : attempt + 1 < 2 ^ 32
    · by_cases hr : r.Retries (attempt + 1) error
      · rw [r.resume_retried hc hr, Instant.checkedAdd]
        by_cases hfits : now + r.policy.delay (attempt + 1) ≤ Platform.instantMax
        · rw [if_pos hfits]
          refine iff_of_false (fun ⟨_, h⟩ => nomatch h) (not_or.mpr ⟨Nat.not_le.mpr hc, fun h => ?_⟩)
          exact Nat.not_lt.mpr hfits h.2
        · rw [if_neg hfits]
          exact iff_of_true ⟨_, rfl⟩ (.inr ⟨hr, Nat.not_le.mp hfits⟩)
      · rw [r.resume_rejected hc hr]
        refine iff_of_false (fun ⟨_, h⟩ => nomatch h) (not_or.mpr ⟨Nat.not_le.mpr hc, fun h => hr h.1⟩)
    · rw [resume, if_neg hc]
      exact iff_of_true ⟨_, rfl⟩ (.inl (Nat.not_lt.mp hc))

/-- Both overflows happen at an error only. -/
theorem overflow_fails {s : RetryState T E} {i : RetryInput T E}
    (h : CounterOverflows s i ∨ r.DeadlineOverflows s i) :
    ∃ error now, i = .resolved (.error error) now := by
  match s, i with
  | .fetching _, .resolved (.error error) now => exact ⟨error, now, rfl⟩
  | .fetching _, .resolved (.ok _) _ => exact (or_self_iff.mp h).elim
  | .fetching _, .woke _ => exact (or_self_iff.mp h).elim
  | .sleeping _ _, _ => exact (or_self_iff.mp h).elim
  | .returned _, _ => exact (or_self_iff.mp h).elim
  | .panicked _, _ => exact (or_self_iff.mp h).elim

/-- The loop goes on: it awaits the wrapped fetcher, and takes any answer; or it awaits the timer, and
wakes at any time from a deadline on. -/
def GoesOn (s : RetryState T E) : Prop :=
  (∀ result now, ∃ s', r.Step s (.resolved result now) s') ∨
    ∃ deadline, ∀ now, deadline ≤ now → ∃ s', r.Step s (.woke now) s'

/-- The loop goes on, or it has returned, or it has panicked. -/
theorem goes_on (s : RetryState T E) :
    r.GoesOn s ∨ (∃ result, s = .returned result) ∨ ∃ p, s = .panicked p := by
  match s with
  | .fetching _ => exact .inl (.inl fun result now => ⟨_, trivial, rfl⟩)
  | .sleeping _ deadline => exact .inl (.inr ⟨deadline, fun now hdue => ⟨_, hdue, rfl⟩⟩)
  | .returned result => exact .inr (.inl ⟨result, rfl⟩)
  | .panicked p => exact .inr (.inr ⟨p, rfl⟩)

/-- A loop that has panicked does not go on. -/
theorem panicked_stuck (p : RetryPanic) (error : E) :
    ¬ r.GoesOn (.panicked p : RetryState T E) := by
  rintro (h | ⟨deadline, h⟩)
  · obtain ⟨_, hs⟩ := h (.error error) 0
    exact hs.accepts
  · obtain ⟨_, hs⟩ := h deadline (Nat.le_refl deadline)
    exact hs.accepts

end step

/-! ## Runs -/

/-- The failures in the log. -/
def failures (log : List (Trace.Record (RetryState T E) (RetryInput T E))) : Nat :=
  log.countP fun x => x.label.fails

/-- The calls of the wrapped fetcher: the first one, and one whenever the loop comes back to it. -/
def calls (log : List (Trace.Record (RetryState T E) (RetryInput T E))) : Nat :=
  1 + log.countP fun x => x.post.calling

theorem failures_snoc (log : List (Trace.Record (RetryState T E) (RetryInput T E)))
    (x : Trace.Record (RetryState T E) (RetryInput T E)) :
    failures (log ++ [x]) = failures log + if x.label.fails then 1 else 0 := by
  rw [failures, failures, List.countP_append, List.countP_singleton]

theorem calls_snoc (log : List (Trace.Record (RetryState T E) (RetryInput T E)))
    (x : Trace.Record (RetryState T E) (RetryInput T E)) :
    calls (log ++ [x]) = calls log + if x.post.calling then 1 else 0 := by
  rw [calls, calls, List.countP_append, List.countP_singleton, Nat.add_assoc]

/-- What the loop has done when it stands at a place. -/
def OnSchedule (r : Retry E) (log : List (Trace.Record (RetryState T E) (RetryInput T E))) :
    RetryState T E → Prop
  | .fetching n => failures log = n ∧ calls log = n + 1 ∧ log.length = 2 * n ∧
      (∀ m, r.policy.maxRetries = some m → n ≤ m) ∧ ∀ x ∈ log, ¬ x.label.Succeeds
  | .sleeping n _ => failures log = n ∧ calls log = n ∧ log.length + 1 = 2 * n ∧
      (∀ m, r.policy.maxRetries = some m → n ≤ m) ∧ ∀ x ∈ log, ¬ x.label.Succeeds
  | .returned result =>
      (∀ m, r.policy.maxRetries = some m → calls log ≤ m + 1 ∧ log.length ≤ 2 * m + 1) ∧
        ∃ xs x now, log = xs ++ [x] ∧ x.label = .resolved result now ∧
          ∀ y ∈ xs, ¬ y.label.Succeeds
  | .panicked _ => False

section run

variable [Platform] (r : Retry E)
  {log : List (Trace.Record (RetryState T E) (RetryInput T E))} {s : RetryState T E}

/-- A loop that has returned is not polled again. -/
theorem returned_stops {result : Except E T} (h : Trace.Run r.Step (.returned result) log s) :
    log = [] ∧ s = .returned result := by
  cases log with
  | nil =>
      generalize hl : ([] : List (Trace.Record (RetryState T E) (RetryInput T E))) = l at h
      cases h with
      | nil => exact ⟨rfl, rfl⟩
      | snoc _ _ => simp at hl
  | cons x xs =>
      obtain ⟨hpre, hs, -⟩ := h.head
      have hacc := hs.accepts
      rw [hpre] at hacc
      exact hacc.elim

/-- A loop that returns what the wrapped fetcher answered keeps to its schedule. -/
theorem OnSchedule.returned {n : Nat} (h : r.OnSchedule log (.fetching n : RetryState T E))
    (result : Except E T) (now : Instant) :
    r.OnSchedule (log ++ [⟨.fetching n, .resolved result now, .returned result⟩])
      (.returned result) := by
  obtain ⟨-, hcalls, hlen, hmax, hno⟩ := h
  refine ⟨fun m hm => ?_, log, _, now, rfl, rfl, hno⟩
  have hn := hmax m hm
  rw [calls_snoc, List.length_append, List.length_singleton]
  simp only [RetryState.calling, Bool.false_eq_true, if_false]
  omega

/-- **The loop keeps to its schedule**, step by step. -/
theorem OnSchedule.step {i : RetryInput T E} {s' : RetryState T E} (h : r.OnSchedule log s)
    (hs : r.Step s i s') (hfew : failures (log ++ [⟨s, i, s'⟩]) < 2 ^ 32)
    (hrep : ¬ r.DeadlineOverflows s i) : r.OnSchedule (log ++ [⟨s, i, s'⟩]) s' := by
  obtain ⟨hacc, hnext⟩ := hs
  match s, i, hacc with
  | .fetching n, .resolved (.ok value) now, _ =>
    obtain rfl : s' = .returned (.ok value) := hnext
    exact OnSchedule.returned r h (.ok value) now
  | .fetching n, .resolved (.error error) now, _ =>
    obtain ⟨hfail, hcalls, hlen, hmax, hno⟩ := h
    have hcount : n + 1 < 2 ^ 32 := by
      rw [failures_snoc, hfail] at hfew
      exact hfew
    by_cases hr : r.Retries (n + 1) error
    · rw [r.resume_sleeps hcount hr fun hlate => hrep ⟨hr, hlate⟩] at hnext
      subst hnext
      refine ⟨?_, ?_, ?_, hr.2, List.forall_mem_append.mpr ⟨hno, List.forall_mem_singleton.mpr ?_⟩⟩
      · rw [failures_snoc, hfail]
        rfl
      · rw [calls_snoc, hcalls]
        rfl
      · rw [List.length_append, List.length_singleton, hlen]
        omega
      · rintro ⟨_, _, hok⟩
        cases hok
    · rw [r.resume_rejected hcount hr] at hnext
      subst hnext
      exact OnSchedule.returned r ⟨hfail, hcalls, hlen, hmax, hno⟩ (.error error) now
  | .sleeping n deadline, .woke now, _ =>
    obtain ⟨hfail, hcalls, hlen, hmax, hno⟩ := h
    obtain rfl : s' = .fetching n := hnext
    refine ⟨?_, ?_, ?_, hmax, List.forall_mem_append.mpr ⟨hno, List.forall_mem_singleton.mpr ?_⟩⟩
    · rw [failures_snoc, hfail]
      rfl
    · rw [calls_snoc, hcalls]
      rfl
    · rw [List.length_append, List.length_singleton, hlen]
    · rintro ⟨_, _, hok⟩
      cases hok

/-- As long as neither the counter nor a deadline overflows, every run is on schedule. -/
theorem onSchedule_of_run (h : r.Run log s)
    (hrep : ∀ x ∈ log, ¬ r.DeadlineOverflows x.pre x.label) (hfew : failures log < 2 ^ 32) :
    r.OnSchedule log s := by
  refine h.history (P := fun log s => (∀ x ∈ log, ¬ r.DeadlineOverflows x.pre x.label) →
    failures log < 2 ^ 32 → r.OnSchedule log s) ?_ ?_ hrep hfew
  · exact fun _ _ => ⟨rfl, rfl, rfl, fun _ _ => Nat.zero_le _, nofun⟩
  · intro log s i s' _ ih hs hrep hfew
    have hless : failures log < 2 ^ 32 := by
      rw [failures_snoc] at hfew
      omega
    have hbefore := ih (fun x hx => hrep x (List.mem_append_left _ hx)) hless
    exact hbefore.step r hs hfew (hrep _ (List.mem_append_right _ (List.mem_singleton.mpr rfl)))

/-- **What a failure leads to.** The `n`-th failure is slept on until its deadline if it is worth another
attempt, and returned otherwise. -/
theorem failure_cases (h : r.Run log s)
    (hrep : ∀ x ∈ log, ¬ r.DeadlineOverflows x.pre x.label) (hfew : failures log < 2 ^ 32)
    {xs ys : List (Trace.Record (RetryState T E) (RetryInput T E))}
    {x : Trace.Record (RetryState T E) (RetryInput T E)} (hlog : log = xs ++ x :: ys) {error : E}
    {now : Instant} (hx : x.label = .resolved (.error error) now) :
    (r.Retries (failures xs + 1) error ∧ x.post =
        .sleeping (failures xs + 1) (now + r.policy.delay (failures xs + 1))) ∨
      (¬ r.Retries (failures xs + 1) error ∧ x.post = .returned (.error error) ∧ ys = []) := by
  subst hlog
  obtain ⟨hxs, hstep, hys⟩ := h.middle
  have hless : failures xs + 1 < 2 ^ 32 := by
    have hfails : x.label.fails = true := by
      rw [hx]
      rfl
    unfold failures at hfew ⊢
    rw [List.countP_append, List.countP_cons, hfails] at hfew
    simp only [if_true] at hfew
    omega
  have hsched := onSchedule_of_run r hxs (fun y hy => hrep y (List.mem_append_left _ hy))
    (Nat.lt_of_succ_lt hless)
  have hlate := hrep x (List.mem_append_right _ List.mem_cons_self)
  obtain ⟨hacc, hnext⟩ := hstep
  rw [hx] at hacc hnext hlate
  match hpre : x.pre, hacc with
  | .fetching n, _ =>
    rw [hpre] at hnext hsched hlate
    rw [hsched.1] at hless ⊢
    by_cases hr : r.Retries (n + 1) error
    · rw [r.resume_sleeps hless hr fun hpast => hlate ⟨hr, hpast⟩] at hnext
      exact .inl ⟨hr, hnext⟩
    · rw [r.resume_rejected hless hr] at hnext
      rw [hnext] at hys
      exact .inr ⟨hr, hnext, (returned_stops r hys).1⟩

/-- The loop calls the wrapped fetcher again when it wakes, and it does not wake before the deadline. -/
theorem wakes_after (h : r.Run log s)
    {xs ys : List (Trace.Record (RetryState T E) (RetryInput T E))}
    {y : Trace.Record (RetryState T E) (RetryInput T E)} (hlog : log = xs ++ y :: ys) {n : Nat}
    {deadline : Instant} (hy : y.pre = .sleeping n deadline) :
    ∃ now, deadline ≤ now ∧ y.label = .woke now ∧ y.post = .fetching n := by
  subst hlog
  obtain ⟨-, ⟨hacc, hnext⟩, -⟩ := h.middle
  rw [hy] at hacc hnext
  match hlab : y.label, hacc with
  | .woke now, hdue =>
    rw [hlab] at hnext
    exact ⟨now, hdue, rfl, hnext⟩

/-- A value of the wrapped fetcher is returned at once. -/
theorem value_returned (h : r.Run log s)
    {xs ys : List (Trace.Record (RetryState T E) (RetryInput T E))}
    {x : Trace.Record (RetryState T E) (RetryInput T E)} (hlog : log = xs ++ x :: ys) {value : T}
    {now : Instant} (hx : x.label = .resolved (.ok value) now) :
    ys = [] ∧ s = .returned (.ok value) := by
  subst hlog
  obtain ⟨-, ⟨hacc, hnext⟩, hys⟩ := h.middle
  rw [hx] at hacc hnext
  match hpre : x.pre, hacc with
  | .fetching n, _ =>
    rw [hpre] at hnext
    rw [show x.post = .returned (.ok value) from hnext] at hys
    exact returned_stops r hys

/-- A loop on schedule has returned, or it goes on. -/
theorem OnSchedule.goes_on (h : r.OnSchedule log s) :
    (∃ result, s = .returned result) ∨ r.GoesOn s := by
  rcases r.goes_on s with hon | hret | ⟨p, rfl⟩
  · exact .inr hon
  · exact .inl hret
  · exact h.elim

/-- A loop that keeps to its schedule calls the wrapped fetcher no more than once for each retry, and
once before. -/
theorem OnSchedule.bounded (h : r.OnSchedule log s) {m : Nat}
    (hm : r.policy.maxRetries = some m) : calls log ≤ m + 1 ∧ log.length ≤ 2 * m + 1 := by
  match s, h with
  | .fetching n, ⟨_, hcalls, hlen, hmax, _⟩ =>
    have hn := hmax m hm
    omega
  | .sleeping n _, ⟨_, hcalls, hlen, hmax, _⟩ =>
    have hn := hmax m hm
    omega
  | .returned _, ⟨hbound, _⟩ => exact hbound m hm

/-- **The schedule of the retries.** Let the deadlines of a run be representable and its failures fewer
than 2^32. The loop calls the wrapped fetcher again after its `n`-th failure, once the wait is over, if
and only if the failure is worth another attempt; it returns the first value, or else the error of the
last attempt; it goes on until then; with a bound on the retries it makes no more attempts than one for
each retry and the first, in a bounded number of steps; and the waits grow up to 256 intervals. -/
theorem schedule (h : r.Run log s) (hrep : ∀ x ∈ log, ¬ r.DeadlineOverflows x.pre x.label)
    (hfew : failures log < 2 ^ 32) :
    (∀ xs x ys error now, log = xs ++ x :: ys → x.label = .resolved (.error error) now →
      (r.Retries (failures xs + 1) error ∧ x.post =
          .sleeping (failures xs + 1) (now + r.policy.delay (failures xs + 1))) ∨
        (¬ r.Retries (failures xs + 1) error ∧ x.post = .returned (.error error) ∧ ys = [])) ∧
      (∀ xs y ys n deadline, log = xs ++ y :: ys → y.pre = .sleeping n deadline →
        ∃ now, deadline ≤ now ∧ y.label = .woke now ∧ y.post = .fetching n) ∧
      (∀ xs x ys value now, log = xs ++ x :: ys → x.label = .resolved (.ok value) now →
        ys = [] ∧ s = .returned (.ok value)) ∧
      (∀ result, s = .returned result → ∃ xs x now, log = xs ++ [x] ∧
        x.label = .resolved result now ∧ ∀ y ∈ xs, ¬ y.label.Succeeds) ∧
      ((∃ result, s = .returned result) ∨ r.GoesOn s) ∧
      (∀ m, r.policy.maxRetries = some m → calls log ≤ m + 1 ∧ log.length ≤ 2 * m + 1) ∧
      ∀ n m, n ≤ m → r.policy.delay n = min (r.policy.interval * 2 ^ min n 8) Duration.max ∧
        r.policy.delay n ≤ r.policy.delay m ∧ r.policy.delay n ≤ 256 * r.policy.interval := by
  have hsched := onSchedule_of_run r h hrep hfew
  refine ⟨fun xs x ys error now hlog hx => failure_cases r h hrep hfew hlog hx,
    fun xs y ys n deadline hlog hy => wakes_after r h hlog hy,
    fun xs x ys value now hlog hx => value_returned r h hlog hx, ?_, hsched.goes_on r,
    fun m hm => hsched.bounded r hm, fun n m hle => ?_⟩
  · rintro result rfl
    exact hsched.2
  · exact ⟨r.policy.delay_eq n, r.policy.delay_mono hle, r.policy.delay_le n⟩

/-- Retry every error, for ever and without waiting. -/
def restless : Retry E := .new ⟨0, none⟩

/-- A restless loop counts every failure below 2^32. -/
theorem restless_run (error : E) {n : Nat} (hn : n < 2 ^ 32) :
    ∃ log, restless.Run log (.fetching n : RetryState T E) := by
  induction n with
  | zero => exact ⟨[], .nil⟩
  | succ n ih =>
      obtain ⟨log, hrun⟩ := ih (Nat.lt_of_succ_lt hn)
      have hwait : (restless : Retry E).policy.delay (n + 1) = 0 := by
        simp [restless, Retry.new, RetryPolicy.delay_eq]
      have hretry : restless.Retries (n + 1) error :=
        ⟨rfl, fun m hm => nomatch (show none = some m from hm)⟩
      have hfail : restless.Step (.fetching n : RetryState T E) (.resolved (.error error) 0)
          (.sleeping (n + 1) 0) := by
        refine ⟨trivial, ?_⟩
        rw [resume_sleeps restless hn hretry (by rw [hwait]; exact Nat.not_lt_zero _), hwait]
      have hwake : restless.Step (.sleeping (n + 1) 0 : RetryState T E) (.woke 0)
          (.fetching (n + 1)) := ⟨Nat.le_refl 0, rfl⟩
      exact ⟨_, (hrun.snoc hfail).snoc hwake⟩

/-- **The counter overflows.** The failure after that is a panic. -/
theorem counter_panics (error : E) :
    ∃ log, restless.Run log (.panicked .attemptOverflow : RetryState T E) := by
  obtain ⟨log, hrun⟩ := restless_run (T := T) error (n := 2 ^ 32 - 1) (by decide)
  have hpanic : restless.Step (.fetching (2 ^ 32 - 1) : RetryState T E)
      (.resolved (.error error) 0) (.panicked .attemptOverflow) := by
    refine ⟨trivial, ?_⟩
    rw [resume, if_neg (by decide)]
  exact ⟨_, hrun.snoc hpanic⟩

end run

section witness

attribute [local instance] Platform.timespec

/-- One retry after one tick, doubled. -/
def brisk : Retry Nat := .new ⟨1, some 1⟩

/-- The first attempt fails, and the second one has a value. -/
def recovery : List (Trace.Record (RetryState Nat Nat) (RetryInput Nat Nat)) :=
  [⟨.fetching 0, .resolved (.error 9) 0, .sleeping 1 2⟩, ⟨.sleeping 1 2, .woke 2, .fetching 1⟩,
    ⟨.fetching 1, .resolved (.ok 7) 3, .returned (.ok 7)⟩]

theorem recovery_run : brisk.Run recovery (.returned (.ok 7)) := by
  have hfail : brisk.Step (.fetching 0 : RetryState Nat Nat) (.resolved (.error 9) 0)
      (.sleeping 1 2) := ⟨trivial, by decide⟩
  have hwake : brisk.Step (.sleeping 1 2 : RetryState Nat Nat) (.woke 2) (.fetching 1) :=
    ⟨Nat.le_refl 2, rfl⟩
  have hvalue : brisk.Step (.fetching 1 : RetryState Nat Nat) (.resolved (.ok 7) 3)
      (.returned (.ok 7)) := ⟨trivial, rfl⟩
  exact ((Trace.Run.single hfail).snoc hwake).snoc hvalue

/-- The value of the second attempt is returned, after two calls. -/
theorem schedule_example : brisk.Run recovery (.returned (.ok 7)) ∧ calls recovery ≤ 2 ∧
    ∃ xs x now, recovery = xs ++ [x] ∧ x.label = .resolved (.ok 7) now := by
  have hrep : ∀ x ∈ recovery, ¬ brisk.DeadlineOverflows x.pre x.label := by
    intro x hx
    simp only [recovery, List.mem_cons, List.not_mem_nil, or_false] at hx
    rcases hx with rfl | rfl | rfl
    · exact fun h => absurd h.2 (by decide)
    · exact id
    · exact id
  obtain ⟨-, -, -, hreturn, -, hbound, -⟩ := schedule brisk recovery_run hrep (by decide)
  obtain ⟨xs, x, now, hlog, hx, -⟩ := hreturn _ rfl
  exact ⟨recovery_run, (hbound 1 rfl).1, xs, x, now, hlog, hx⟩

end witness

end Retry

end SwrCore
