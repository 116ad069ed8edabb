import SwrCore.Client.Channel
import SwrCore.Shell.Pinned

/-!
# Handles and mutation guards

The two values that carry a use of an entry out of the client: the `QueryHandle` of a subscription and
the guard of a `mutate()` future. Until they give their use back, the entry they were made for stays in the
table.

* `QueryHandle`, `QueryHandle.changed`, `QueryHandle.drop` — the subscription handle, a poll of its
  `changed()`, and its end.
* `MutationGuard` — the token and the flags that a `mutate()` future holds until it ends.
* `Client.handle_watches` — a handle that was not dropped watches the channel of the stored entry.
* `Client.live_use_pins` — the law over every run, for the state machine and for handles.
-/

set_option linter.unusedSectionVars false

namespace SwrCore

variable {V F : Type}

/-! ## Handles -/

/-- A subscription. Source: `handle.rs`, `QueryHandle`. -/
structure QueryHandle where
  rx : Channel
  key : QueryKey
  subId : Nat

/-- How a poll of `changed()` ends. -/
inductive Changed where
  | ready
  | closed
  | pending
deriving DecidableEq

/-- The handle a call of `handle` answers with. Source: `client.rs`, `SwrClient::subscribe_inner`. -/
def Call.handle? (c : Call V F) : Option QueryHandle :=
  match c.event, c.out.outcome with
  | .subscribe key _ _ _, .subscribed subId rx => some ⟨rx, key, subId⟩
  | _, _ => none

/-- A handle comes from a subscription to its key. -/
theorem Call.handle_event {c : Call V F} {handle : QueryHandle} (h : c.handle? = some handle) :
    (∃ fetcher compare opts, c.event = .subscribe handle.key fetcher compare opts) ∧
      c.out.outcome = .subscribed handle.subId handle.rx := by
  unfold Call.handle? at h
  split at h
  · next hev hout =>
      cases h
      exact ⟨⟨_, _, _, hev⟩, hout⟩
  · cases h

/-- One poll of `changed()`, by a handle that last saw `seen`: an unseen value comes first, and only
then the end of the channel. Source: `handle.rs`, `QueryHandle::changed`. -/
def QueryHandle.changed (h : QueryHandle) (s : Client V F) (seen : Watch V) : Changed :=
  if seen.epoch ≠ (s.channels h.rx).epoch then .ready
  else if s.isOpen h.rx then .pending
  else .closed

/-- What dropping a handle dispatches. Source: `handle.rs`, `impl Drop for QueryHandle`. -/
def QueryHandle.drop (h : QueryHandle) : Event V F := .unsubscribe h.key h.subId

/-! ## Mutation guards -/

/-- The guard that a `mutate()` future holds. Source: `client.rs`, `MutationGuard`. -/
structure MutationGuard where
  token : Option MutationToken
  flags : MutateFlags

/-! ## Handles watch the stored entry -/

namespace Client

section run

variable [Platform] {defaults : QueryOptions} {s : Client V F}

/-- **A handle that was not dropped watches the stored entry.** Its channel is the one of the entry
under its key, so it is open, and `changed()` does not report `Closed`. -/
theorem handle_watches {xs ys : Log V F} {r : Trace.Record (Client V F) (Act V F)}
    (h : Run defaults (xs ++ r :: ys) s) {c : Call V F} (hcall : r.label.call? = some c)
    {handle : QueryHandle} (hc : c.handle? = some handle)
    (hkept : ∀ y ∈ ys, ∀ c', y.label.call? = some c' → c'.event ≠ handle.drop) :
    (∃ e, s.shell.inner.entry handle.key = some e ∧ e.tx = handle.rx) ∧
      ∀ seen, handle.changed s seen ≠ .closed := by
  obtain ⟨hxs, hr, hys⟩ := h.middle
  have hstart : (handle.key, handle.subId) ∈ r.post.shell.handles ∧
      ∃ e, r.post.shell.inner.entry handle.key = some e ∧ e.tx = handle.rx := by
    obtain ⟨⟨_, _, _, hev⟩, hout⟩ := Call.handle_event hc
    exact (Run.inv hxs).subscribed (hr.calls hcall).shell hev hout
  have hinv : r.post.shell.Inv := Run.inv (hxs.snoc hr)
  -- The handle stays in the books, so the entry stays, and with it its channel.
  have hall : s.shell.Inv ∧ (handle.key, handle.subId) ∈ s.shell.handles ∧
      ∃ e, s.shell.inner.entry handle.key = some e ∧ e.tx = handle.rx := by
    refine hys.carry (J := fun s => s.shell.Inv ∧ (handle.key, handle.subId) ∈ s.shell.handles ∧
      ∃ e, s.shell.inner.entry handle.key = some e ∧ e.tx = handle.rx) ⟨hinv, hstart⟩ hkept ?_
    rintro y hs hno ⟨hi, hmem, e, he, htx⟩
    rcases hs.shell with ⟨c', hcall', hstep⟩ | ⟨-, hsame⟩
    · obtain ⟨e₀, he₀, hq⟩ := hi.pinned (u := .handle handle.key handle.subId) hmem
      obtain rfl : e = e₀ := Option.some.inj (he.symm.trans he₀)
      obtain ⟨e', he', hinc⟩ := hi.remains hstep he hq
      refine ⟨hi.step hstep, (hi.handle_step hstep _ _).mpr (.inr ⟨hmem, fun hun => ?_⟩), e', he', ?_⟩
      · refine hno c' hcall' ?_
        unfold Event.unsubscribed? at hun
        split at hun
        · next hev =>
            cases hun
            exact hev
        · cases hun
      · rw [(hi.step hstep).tx _ _ he', hinc, ← htx, hi.tx _ _ he]
    · rw [hsame]
      exact ⟨hi, hmem, e, he, htx⟩
  obtain ⟨hi, -, e, he, htx⟩ := hall
  refine ⟨⟨e, he, htx⟩, fun seen hclosed => ?_⟩
  have hkey : handle.rx.key = handle.key := by rw [← htx, hi.tx _ _ he]
  have hopen : s.isOpen handle.rx = true := by
    unfold isOpen
    rw [hkey, he, Bool.or_eq_true]
    exact .inl (decide_eq_true htx)
  unfold QueryHandle.changed at hclosed
  rw [hopen, if_pos rfl] at hclosed
  split_ifs at hclosed

end run

/-- **Live use pins the entry.** In every shell-produced run, from the step that begins a use of a key (a
subscription, a mutation or a fetch) through every step before which it has not ended, the entry of the
key is the one that the use began on: it is there, with the same incarnation, before and after the step,
whatever timers fire. So a mutation is settled on the entry it began on. And in every run of the client a
`QueryHandle` that was not dropped watches the channel of the entry in the table, so that its `changed()`
does not report `Closed`. -/
theorem live_use_pins [Platform] (defaults : QueryOptions) :
    (∀ log (s : Shell V F), Shell.Run defaults log s → ∀ xs q ys zs (u : Shell.Use),
      log = xs ++ q :: (ys ++ zs) → u.Begins q →
        (∀ as x bs, ys = as ++ x :: bs → u.Open (xs ++ q :: as)) →
          ∃ e, q.post.inner.entry u.key = some e ∧ ∀ x ∈ ys, ∃ e₁ e₂,
            x.pre.inner.entry u.key = some e₁ ∧ x.post.inner.entry u.key = some e₂ ∧
              e₁.incarnation = e.incarnation ∧ e₂.incarnation = e.incarnation) ∧
    (∀ log (s : Shell V F), Shell.Run defaults log s → ∀ xs q ys r zs token,
      log = xs ++ q :: (ys ++ r :: zs) → q.label.begun? = some token →
        r.label.event.settled? = some token →
          (∀ as x bs, ys = as ++ x :: bs → (Shell.Use.mutation token).Open (xs ++ q :: as)) →
            ∃ e e₁ e₂, q.post.inner.entry token.key = some e ∧
              r.pre.inner.entry token.key = some e₁ ∧ r.post.inner.entry token.key = some e₂ ∧
                e₁.incarnation = e.incarnation ∧ e₂.incarnation = e.incarnation) ∧
    ∀ log (s : Client V F), Run defaults log s → ∀ xs r ys c handle, log = xs ++ r :: ys →
      r.label.call? = some c → c.handle? = some handle →
        (∀ y ∈ ys, ∀ c', y.label.call? = some c' → c'.event ≠ handle.drop) →
          (∃ e, s.shell.inner.entry handle.key = some e ∧ e.tx = handle.rx) ∧
            ∀ seen, handle.changed s seen ≠ .closed := by
  refine ⟨?_, ?_, ?_⟩
  · intro log s h xs q ys zs u hlog hbegins hopen
    exact Shell.use_pins h hlog hbegins hopen
  · intro log s h xs q ys r zs token hlog hbegun hsettled hopen
    exact Shell.settles_own h hlog hbegun hsettled hopen
  · rintro log s h xs r ys c handle rfl hcall hc hkept
    exact handle_watches h hcall hc hkept

section witness

attribute [local instance] Shell.exampleClock

/-- An entry goes idle, and a mutation begins before its collection timer fires. -/
def pinnedRun : List (Event Nat Unit × Instant × List QueryKey) :=
  [(.mutateSet ⟨0, []⟩ 1, 0, []),
   (.mutateBegin ⟨0, []⟩ (some 7), 1, []),
   (.timerFired ⟨0, []⟩ .gc 1, 300, []),
   (.mutateCommit ⟨⟨0, []⟩, some 3⟩ (.ok none) ⟨true, true, true⟩, 301, [])]

/-- The mutation is settled on the entry that the timer found in use. -/
theorem live_use_pins_example :
    ∃ (log : List (Trace.Record (Shell Nat Unit) (Call Nat Unit))) (s : Shell Nat Unit)
      (q t r : Trace.Record (Shell Nat Unit) (Call Nat Unit)) (e e₁ : EntryCore Nat Unit),
      Shell.Run .default log s ∧ q ∈ log ∧ t ∈ log ∧ r ∈ log ∧
        q.label.begun? = some ⟨⟨0, []⟩, some 3⟩ ∧ t.label.event = .timerFired ⟨0, []⟩ .gc 1 ∧
        r.label.event.settled? = some ⟨⟨0, []⟩, some 3⟩ ∧ q.post.inner.entry ⟨0, []⟩ = some e ∧
        r.pre.inner.entry ⟨0, []⟩ = some e₁ ∧ e₁.incarnation = e.incarnation := by
  have hfacts : ((Shell.init .default : Shell Nat Unit).exec pinnedRun).map (fun r =>
      r.1.map fun r => (r.label.begun?, r.label.event.settled?)) =
        some [(none, none), (some ⟨⟨0, []⟩, some 3⟩, none), (none, none),
          (none, some ⟨⟨0, []⟩, some 3⟩)] := by decide +kernel
  obtain ⟨⟨log, s⟩, hex, hfacts⟩ := Option.map_eq_some_iff.mp hfacts
  have hrun : Shell.Run .default log s := Shell.run_of_exec hex
  have hcalls := Shell.exec_calls hex
  clear hex
  obtain ⟨p, l, rfl, -, hl⟩ := List.map_eq_cons_iff.mp hfacts
  obtain ⟨q, l, rfl, hq, hl⟩ := List.map_eq_cons_iff.mp hl
  obtain ⟨t, l, rfl, ht, hl⟩ := List.map_eq_cons_iff.mp hl
  obtain ⟨r, l, rfl, hr, -⟩ := List.map_eq_cons_iff.mp hl
  simp only [Prod.mk.injEq] at hq ht hr
  simp only [pinnedRun, List.map_cons, List.cons.injEq, Prod.mk.injEq] at hcalls
  -- Nothing is settled before the last step.
  have hset : p.label.event.settled? = none := by
    rw [show p.label.event = .mutateSet ⟨0, []⟩ 1 from hcalls.1.1]
    rfl
  have hopen : ∀ as x bs, [t] = as ++ x :: bs →
      (Shell.Use.mutation ⟨⟨0, []⟩, some 3⟩).Open ([p] ++ q :: as) := by
    intro as x bs hsplit
    cases as with
    | nil => simp [Shell.Use.Open, hset, hq]
    | cons a as =>
        have hlen := congrArg List.length hsplit
        simp at hlen
  obtain ⟨e, e₁, -, he, he₁, -, hinc, -⟩ := (live_use_pins .default).2.1 _ s hrun [p] q [t] r l
    ⟨⟨0, []⟩, some 3⟩ rfl hq.1 hr.2 hopen
  exact ⟨_, s, q, t, r, e, e₁, hrun, by simp, by simp, by simp, hq.1, hcalls.2.2.1.1, hr.2, he,
    he₁, hinc⟩

end witness

end Client

end SwrCore
