import SwrCore.Client.Handles
import SwrCore.Client.Load

/-!
# The public interface: who holds on to the client

The state machine relies on its callers: a subscription is given up once, a mutation is settled once, and
results and timers come from tasks that it asked for. Nothing of this is checked. It follows from who owns
what: a `QueryHandle` unsubscribes when it is dropped, a `mutate()` future owns a guard, the tasks hold
weak references, and the last `SwrClient` takes the cache with it.

* `HostPanic` — the assertion sites of the public interface.
* `Host` — the client together with what the program holds: `SwrClient`s, handles and futures.
* `Host.dispatch`, `Host.dispatchWeak` — the event pipeline, from a strong and from a weak reference.
* `Host.subscribe`, `Host.dropHandle`, `Host.mutate`, … — the calls, the drops and the ends of tasks.
* `Host.Step` — what the program can do. Nothing is assumed of the events: a step may panic.
* `Host.Step.change` — what a step does to what the program holds.

The interleavings are those of `Client.Step`: a batch of effects is executed one by one, and a call of
`fetch()` makes its steps one by one.

One thing is assumed of the program. `Inner::handle` runs under a lock that is not re-entrant, and under it
the cache drops the values, errors, fetchers and comparators that it replaces or collects, and calls
comparators. A `QueryHandle` or a mutation guard that went away with one of these would dispatch under the
lock, and wait for it forever. So nothing that a cache stores owns a `QueryHandle` or a `mutate()` future of
it, or calls it when it is dropped or compared: a drop of a handle or of a guard is a step of its own.
-/

set_option linter.unusedSectionVars false

namespace SwrCore

variable {V F : Type}

/-- The assertion sites of the public interface. -/
inductive HostPanic where
  /-- A panic of the state machine or of the wait loop. -/
  | core (panic : Panic)
  /-- `Subscribe events yield Subscribed outcomes` -/
  | subscribeOutcome
  /-- `MutateBegin events yield Mutation outcomes` -/
  | mutationOutcome
  /-- `guard token taken exactly once` -/
  | guardToken
deriving DecidableEq

deriving instance DecidableEq for QueryHandle
deriving instance DecidableEq for MutationGuard

/-- The client and what the program holds of it. Source: `client.rs`, `SwrClient`, `MutationGuard`;
`handle.rs`, `QueryHandle`. -/
structure Host (V F : Type) where
  /-- `Shared`, the tasks it spawned, and the calls of `fetch()`. -/
  client : Client V F
  /-- A strong reference to `Shared` is left, so that `Weak::upgrade` succeeds. -/
  alive : Bool
  /-- How many `SwrClient`s there are. -/
  clients : Nat
  handles : List QueryHandle
  /-- The guards of the `mutate()` futures that have begun. -/
  guards : List MutationGuard

namespace Host

/-- A client that was just built. Source: `client.rs`, `SwrClientBuilder::build`. -/
def init (defaults : QueryOptions) : Host V F := ⟨Client.init defaults, true, 1, [], []⟩

/-! ## The event pipeline -/

section ops

variable [Platform]

/-- Source: `client.rs`, `Shared::dispatch`; the effects wait for their execution. -/
def dispatch (s : Host V F) (ev : Event V F) (now : Instant) (scan : List QueryKey) :
    Except HostPanic (Outcome V × Host V F) :=
  match s.client.shell.inner.handle ev now scan with
  | .error panic => .error (.core panic)
  | .ok (inner, out) =>
    .ok (out.outcome, { s with
      client := s.client.called (s.client.shell.next inner ⟨ev, now, scan, out⟩) ⟨ev, now, scan, out⟩ })

/-- A call whose outcome nobody looks at. -/
def send (s : Host V F) (ev : Event V F) (now : Instant) (scan : List QueryKey) :
    Except HostPanic (Host V F) :=
  (s.dispatch ev now scan).map Prod.snd

/-- `if let Some(shared) = self.shared.upgrade()`. -/
def dispatchWeak (s : Host V F) (ev : Event V F) (now : Instant) : Except HostPanic (Host V F) :=
  if s.alive then s.send ev now [] else .ok s

/-! ## Subscriptions -/

/-- The fetcher and the options may replace older ones, which are dropped under the lock: they own nothing
that dispatches. Source: `client.rs`, `SwrClient::subscribe_inner`. -/
def subscribe (s : Host V F) (key : QueryKey) (fetcher : Option F) (compare : Option (Compare V))
    (opts : QueryOptions) (now : Instant) : Except HostPanic (Host V F) :=
  match s.dispatch (.subscribe key fetcher compare opts) now [] with
  | .error panic => .error panic
  | .ok (.subscribed subId rx, s') => .ok { s' with handles := s'.handles ++ [⟨rx, key, subId⟩] }
  | .ok _ => .error .subscribeOutcome

/-- The program drops a handle, outside of every other call: the cache stores nothing that owns one.
Source: `handle.rs`, `impl Drop for QueryHandle`. -/
def dropHandle (s : Host V F) (handle : QueryHandle) (now : Instant) : Except HostPanic (Host V F) :=
  { s with handles := s.handles.erase handle }.dispatchWeak handle.drop now

/-- Source: `handle.rs`, `QueryHandle::revalidate`. -/
def revalidateHandle (s : Host V F) (handle : QueryHandle) (now : Instant) :
    Except HostPanic (Host V F) :=
  s.dispatchWeak (.revalidateRequested handle.key) now

/-! ## Mutations -/

/-- A `mutate()` future, up to its `await`. Source: `client.rs`, `SwrClient::mutate`. -/
def mutate (s : Host V F) (key : QueryKey) (optimistic : Option V) (flags : MutateFlags)
    (now : Instant) : Except HostPanic (Host V F) :=
  match s.dispatch (.mutateBegin key optimistic) now [] with
  | .error panic => .error panic
  | .ok (.mutation token, s') => .ok { s' with guards := s'.guards ++ [⟨some token, flags⟩] }
  | .ok _ => .error .mutationOutcome

/-- Its inner future returned: the token is taken out of the guard, the guard is dropped without it, and
the result is committed. Source: `client.rs`, `SwrClient::mutate`. -/
def settle (s : Host V F) (guard : MutationGuard) (result : Except V (Option V)) (now : Instant) :
    Except HostPanic (Host V F) :=
  match guard.token with
  | none => .error .guardToken
  | some token =>
    { s with guards := s.guards.erase guard }.send (.mutateCommit token result guard.flags) now []

/-- The future is dropped before, and its guard with it, outside of every other call: the cache stores
nothing that owns one. Source: `client.rs`, `impl Drop for MutationGuard`. -/
def abandon (s : Host V F) (guard : MutationGuard) (now : Instant) : Except HostPanic (Host V F) :=
  match guard.token with
  | none => .ok { s with guards := s.guards.erase guard }
  | some token =>
    { s with guards := s.guards.erase guard }.dispatchWeak (.mutateAbort token guard.flags) now

/-! ## Calls of `fetch()` -/

/-- The `Read` of one pass. Source: `client.rs`, `SwrClient::fetch_inner`. -/
def read (s : Host V F) (n : Nat) (req : Request V F) (now : Instant) :
    Except HostPanic (Host V F) :=
  match s.dispatch (req.event s.client.shell.inner.defaults) now [] with
  | .error panic => .error panic
  | .ok (outcome, s') =>
    match pass outcome with
    | .error panic => .error (.core panic)
    | .ok p => .ok { s' with client := s'.client.moved n (req.passed (.ok p)) }

/-- A look at the channel. Source: `client.rs`, `SwrClient::wait`. -/
def look (s : Host V F) (n : Nat) (w : Waiter V F) : Except HostPanic (Host V F) :=
  match SwrCore.look (s.client.channels w.rx).value w.target with
  | .error panic => .error (.core panic)
  | .ok _ => .ok { s with client := s.client.moved n (w.looked (s.client.channels w.rx)) }

/-- The poke. Source: `client.rs`, `SwrClient::wait`. -/
def poke (s : Host V F) (n : Nat) (w : Waiter V F) (seen : Watch V) (now : Instant) :
    Except HostPanic (Host V F) :=
  match s.send (.revalidateRequested w.req.key) now [] with
  | .error panic => .error panic
  | .ok s' => .ok { s' with client := s'.client.moved n (.parked w seen) }

/-- The caller goes on without a call of `handle`. -/
def moved (s : Host V F) (n : Nat) (p : Phase V F) : Host V F :=
  { s with client := s.client.moved n p }

/-! ## Tasks -/

/-- A fetch task ends. Source: `client.rs`, `Shared::run_effects`. -/
def land (s : Host V F) (flight : Flight) (result : Except V V) (now : Instant) :
    Except HostPanic (Host V F) :=
  s.dispatchWeak (flight.commit result) now

/-- A timer task wakes up. Source: `client.rs`, `Shared::run_effects`. -/
def fire (s : Host V F) (key : QueryKey) (kind : TimerKind) (generation : Nat) (now : Instant) :
    Except HostPanic (Host V F) :=
  s.dispatchWeak (.timerFired key kind generation) now

end ops

/-! ## References -/

/-- No future borrows an `SwrClient`. -/
def Unborrowed (s : Host V F) : Prop :=
  s.guards = [] ∧ ∀ n, (s.client.callers n).underWay? = none

/-- Source: `client.rs`, `WeakSwrClient::upgrade`. -/
def upgrade (s : Host V F) : Host V F :=
  if s.alive then { s with clients := s.clients + 1 } else s

/-- Source: `handle.rs`, `QueryHandle::changed`: as long as `Shared` lives, its entries and the effects
that wait hold the senders. -/
def changed (s : Host V F) (handle : QueryHandle) (seen : Watch V) : Changed :=
  if s.alive then handle.changed s.client seen
  else if seen.epoch ≠ (s.client.channels handle.rx).epoch then .ready
  else .closed

/-! ## Steps -/

/-- What the program does next. -/
inductive Move (V F : Type) where
  | clone
  | upgrade
  | dropClient
  /-- The last strong reference to `Shared` goes away. -/
  | free
  | subscribe (key : QueryKey) (fetcher : Option F) (compare : Option (Compare V))
      (opts : QueryOptions) (now : Instant)
  | revalidateHandle (handle : QueryHandle) (now : Instant)
  | dropHandle (handle : QueryHandle) (now : Instant)
  | mutate (key : QueryKey) (optimistic : Option V) (flags : MutateFlags) (now : Instant)
  | settle (guard : MutationGuard) (result : Except V (Option V)) (now : Instant)
  | abandon (guard : MutationGuard) (now : Instant)
  | set (key : QueryKey) (value : V) (now : Instant)
  | invalidate (pre : List Segment) (now : Instant) (scan : List QueryKey)
  | revalidate (key : QueryKey) (now : Instant)
  | broadcast (ev : SwrEvent) (now : Instant) (scan : List QueryKey)
  | call (n : Nat) (req : Request V F)
  | read (n : Nat) (now : Instant)
  | look (n : Nat)
  | poke (n : Nat) (now : Instant)
  | wake (n : Nat)
  | closed (n : Nat)
  | cancel (n : Nat)
  | exec (x : Effect V F)
  | land (flight : Flight) (result : Except V V) (now : Instant)
  | fire (key : QueryKey) (kind : TimerKind) (generation : Nat) (now : Instant)

/-- One step of a program, and how it ends. The program can call what it holds, and drop it; a future that
is polled borrows the client it was made from. -/
inductive Step [Platform] : Host V F → Move V F → Except HostPanic (Host V F) → Prop
  | clone {s} (hc : 0 < s.clients) : Step s .clone (.ok { s with clients := s.clients + 1 })
  | upgrade {s} : Step s .upgrade (.ok s.upgrade)
  | dropClient {s} (hc : 0 < s.clients) (hb : s.clients = 1 → s.Unborrowed) :
      Step s .dropClient (.ok { s with clients := s.clients - 1 })
  | free {s} (hc : s.clients = 0) (hp : s.client.pending = []) :
      Step s .free (.ok { s with alive := false })
  | subscribe {s key fetcher compare opts now} (hc : 0 < s.clients) :
      Step s (.subscribe key fetcher compare opts now) (s.subscribe key fetcher compare opts now)
  | revalidateHandle {s handle now} (hh : handle ∈ s.handles) :
      Step s (.revalidateHandle handle now) (s.revalidateHandle handle now)
  | dropHandle {s handle now} (hh : handle ∈ s.handles) :
      Step s (.dropHandle handle now) (s.dropHandle handle now)
  | mutate {s key optimistic flags now} (hc : 0 < s.clients) :
      Step s (.mutate key optimistic flags now) (s.mutate key optimistic flags now)
  | settle {s guard result now} (hg : guard ∈ s.guards) :
      Step s (.settle guard result now) (s.settle guard result now)
  | abandon {s guard now} (hg : guard ∈ s.guards) :
      Step s (.abandon guard now) (s.abandon guard now)
  | set {s key value now} (hc : 0 < s.clients) :
      Step s (.set key value now) (s.send (.mutateSet key value) now [])
  | invalidate {s pre now scan} (hc : 0 < s.clients) (hscan : s.client.shell.inner.IsScan scan) :
      Step s (.invalidate pre now scan) (s.send (.invalidate pre) now scan)
  | revalidate {s key now} (hc : 0 < s.clients) :
      Step s (.revalidate key now) (s.send (.revalidateRequested key) now [])
  | broadcast {s ev now scan} (hc : 0 < s.clients) (hscan : s.client.shell.inner.IsScan scan) :
      Step s (.broadcast ev now scan) (s.send (.broadcast ev) now scan)
  | call {s n req} (hc : 0 < s.clients) (hn : s.client.callers n = .idle) :
      Step s (.call n req) (.ok (s.moved n (.reading req)))
  | read {s n req now} (hn : s.client.callers n = .reading req) :
      Step s (.read n now) (s.read n req now)
  | look {s n w} (hn : s.client.callers n = .looking w) : Step s (.look n) (s.look n w)
  | poke {s n w seen now} (hn : s.client.callers n = .poking w seen) :
      Step s (.poke n now) (s.poke n w seen now)
  | wake {s n w seen} (hn : s.client.callers n = .parked w seen)
      (he : seen.epoch ≠ (s.client.channels w.rx).epoch) :
      Step s (.wake n) (.ok (s.moved n (.looking w)))
  | closed {s n w seen} (hn : s.client.callers n = .parked w seen)
      (he : seen.epoch = (s.client.channels w.rx).epoch) (ho : s.client.isOpen w.rx = false) :
      Step s (.closed n) (.ok (s.moved n (.reading w.req)))
  | cancel {s n} : Step s (.cancel n) (.ok (s.moved n .idle))
  | exec {s before x rest after} (hb : s.client.batches = before ++ (x :: rest) :: after) :
      Step s (.exec x)
        (.ok { s with client := s.client.executed x (before ++ rest :: after) })
  | land {s flight result now} (ht : .fetch flight ∈ s.client.tasks) :
      Step s (.land flight result now) (s.land flight result now)
  | fire {s key kind generation now} (ht : .timer key kind generation ∈ s.client.tasks) :
      Step s (.fire key kind generation now) (s.fire key kind generation now)

/-- A step that does not panic. -/
def Moves [Platform] (s : Host V F) (m : Move V F) (s' : Host V F) : Prop := Step s m (.ok s')

/-- The log of a run of a program. -/
abbrev Log (V F : Type) := List (Trace.Record (Host V F) (Move V F))

/-- Runs of a program from a new client, with their logs. -/
abbrev Run [Platform] (defaults : QueryOptions) : Log V F → Host V F → Prop :=
  Trace.Run Moves (init defaults)

/-! ## What a step leaves alone -/

/-- The move needs an `SwrClient` of the program. -/
def Move.strong : Move V F → Bool
  | .clone => true
  | .dropClient => true
  | .subscribe _ _ _ _ _ => true
  | .mutate _ _ _ _ => true
  | .set _ _ _ => true
  | .invalidate _ _ _ => true
  | .revalidate _ _ => true
  | .broadcast _ _ _ => true
  | .call _ _ => true
  | _ => false

section frame

variable [Platform] {s t s' : Host V F} {m : Move V F} {ev : Event V F} {now : Instant}
  {scan : List QueryKey}

/-- Another client with the same callers. -/
def SameHolder (s s' : Host V F) : Prop :=
  ∃ client, client.callers = s.client.callers ∧ s' = { s with client := client }

/-- A call of `handle` touches nothing that the program holds. -/
theorem dispatch_frame {outcome : Outcome V} (h : s.dispatch ev now scan = .ok (outcome, s')) :
    s.SameHolder s' := by
  unfold Host.dispatch at h
  split at h
  · cases h
  · cases h
    refine ⟨_, ?_, rfl⟩
    rfl

/-- Nor does one whose outcome nobody looks at. -/
theorem send_frame (h : s.send ev now scan = .ok s') : s.SameHolder s' := by
  unfold Host.send at h
  cases hd : s.dispatch ev now scan with
  | error panic =>
      rw [hd] at h
      cases h
  | ok r =>
      rw [hd] at h
      cases h
      exact dispatch_frame hd

/-- Nor does one from a weak reference, whether it leads to the cache or not. -/
theorem dispatchWeak_frame (h : s.dispatchWeak ev now = .ok s') : s.SameHolder s' := by
  unfold Host.dispatchWeak at h
  split_ifs at h
  · exact send_frame h
  · cases h
    exact ⟨s.client, rfl, rfl⟩

/-- A call of `handle` lets nobody borrow a client. -/
theorem Unborrowed.same (h : s.Unborrowed) (hs : s.SameHolder s') : s'.Unborrowed := by
  obtain ⟨client, hcallers, rfl⟩ := hs
  exact ⟨h.1, fun n => by rw [hcallers]; exact h.2 n⟩

/-- What a move makes of what the program holds, if it makes and drops no `SwrClient` and does not end the
cache: a handle that is gone was dropped, and without an `SwrClient` nobody comes to borrow one. -/
structure Rearranged (s : Host V F) (m : Move V F) (s' : Host V F) : Prop where
  alive : s'.alive = s.alive
  clients : s'.clients = s.clients
  handles : ∀ handle ∈ s.handles, (∃ now, m = .dropHandle handle now) ∨ handle ∈ s'.handles
  unborrowed : m.strong = false → s.Unborrowed → s'.Unborrowed

/-- A move that changes nothing but the client, and no caller of it. -/
theorem Rearranged.refl (s : Host V F) (m : Move V F) : s.Rearranged m s :=
  ⟨rfl, rfl, fun _ => .inr, fun _ => id⟩

/-- A call of `handle` comes after what the move does to the holdings. -/
theorem Rearranged.called (h : s.Rearranged m t) (hs : t.SameHolder s') : s.Rearranged m s' where
  alive := by
    obtain ⟨client, -, rfl⟩ := hs
    exact h.alive
  clients := by
    obtain ⟨client, -, rfl⟩ := hs
    exact h.clients
  handles := by
    obtain ⟨client, -, rfl⟩ := hs
    exact h.handles
  unborrowed hm hu := (h.unborrowed hm hu).same hs

/-- A call of the program that takes a client: whatever it hands out, no handle goes. -/
theorem Rearranged.strong (hm : m.strong = true) (ha : t.alive = s.alive) (hc : t.clients = s.clients)
    (hkept : s.handles ⊆ t.handles) : s.Rearranged m t where
  alive := ha
  clients := hc
  handles _ hmem := .inr (hkept hmem)
  unborrowed hweak := by
    rw [hm] at hweak
    cases hweak

/-- A call of `fetch()` that goes on borrows a client. -/
theorem Rearranged.busy {n : Nat} {req : Request V F}
    (hn : (s.client.callers n).underWay? = some req) (client : Client V F) :
    s.Rearranged m { s with client := client } where
  alive := rfl
  clients := rfl
  handles _ := .inr
  unborrowed _ hu := by
    rw [hu.2 n] at hn
    cases hn

/-- A mutation that ends takes its guard along. -/
theorem Rearranged.settled {guard : MutationGuard} (hg : guard ∈ s.guards) :
    s.Rearranged m { s with guards := s.guards.erase guard } where
  alive := rfl
  clients := rfl
  handles _ := .inr
  unborrowed _ hu := by
    rw [hu.1] at hg
    cases hg

/-- A future of a `fetch()` call that is dropped borrows no client any more. -/
theorem Rearranged.cancelled (n : Nat) : s.Rearranged (.cancel n) (s.moved n .idle) where
  alive := rfl
  clients := rfl
  handles _ := .inr
  unborrowed _ hu := by
    refine ⟨hu.1, fun m => ?_⟩
    by_cases hm : n = m
    · subst hm
      rw [Host.moved, Client.moved_self]
      rfl
    · rw [Host.moved, Client.moved_other hm]
      exact hu.2 m

/-! What each call of the program makes of its holdings. -/

/-- A new subscription hands a handle out. -/
theorem subscribe_frame {key : QueryKey} {fetcher : Option F} {compare : Option (Compare V)}
    {opts : QueryOptions} (hm : m.strong = true)
    (h : s.subscribe key fetcher compare opts now = .ok s') : s.Rearranged m s' := by
  unfold Host.subscribe at h
  split at h
  · cases h
  · next heq =>
      cases h
      obtain ⟨client, -, rfl⟩ := dispatch_frame heq
      exact .strong hm rfl rfl (List.subset_append_left _ _)
  · cases h

/-- A drop of a handle takes that handle only. -/
theorem dropHandle_frame {dropped : QueryHandle} (h : s.dropHandle dropped now = .ok s') :
    s.Rearranged (.dropHandle dropped now) s' := by
  have herased : s.Rearranged (.dropHandle dropped now)
      { s with handles := s.handles.erase dropped } := by
    refine ⟨rfl, rfl, fun handle hmem => ?_, fun _ hu => hu⟩
    by_cases heq : handle = dropped
    · exact .inl ⟨now, by rw [heq]⟩
    · exact .inr ((List.mem_erase_of_ne heq).mpr hmem)
  exact herased.called (dispatchWeak_frame h)

/-- A new mutation hands a guard out. -/
theorem mutate_frame {key : QueryKey} {optimistic : Option V} {flags : MutateFlags}
    (hm : m.strong = true) (h : s.mutate key optimistic flags now = .ok s') : s.Rearranged m s' := by
  unfold Host.mutate at h
  split at h
  · cases h
  · next heq =>
      cases h
      obtain ⟨client, -, rfl⟩ := dispatch_frame heq
      exact .strong hm rfl rfl (List.Subset.refl _)
  · cases h

/-- A mutation that returns takes its guard along. -/
theorem settle_frame {guard : MutationGuard} {result : Except V (Option V)} (hg : guard ∈ s.guards)
    (h : s.settle guard result now = .ok s') : s.Rearranged m s' := by
  unfold Host.settle at h
  split at h
  · cases h
  · exact (Rearranged.settled hg).called (send_frame h)

/-- So does one that is dropped. -/
theorem abandon_frame {guard : MutationGuard} (hg : guard ∈ s.guards)
    (h : s.abandon guard now = .ok s') : s.Rearranged m s' := by
  unfold Host.abandon at h
  split at h
  · cases h
    exact .settled hg
  · exact (Rearranged.settled hg).called (dispatchWeak_frame h)

/-- A read is made by a call that borrows a client. -/
theorem read_frame {n : Nat} {req : Request V F} (hn : s.client.callers n = .reading req)
    (h : s.read n req now = .ok s') : s.Rearranged m s' := by
  have hbusy : (s.client.callers n).underWay? = some req := by
    rw [hn]
    rfl
  unfold Host.read at h
  split at h
  · cases h
  · next heq =>
      split at h
      · cases h
      · cases h
        obtain ⟨client, -, rfl⟩ := dispatch_frame heq
        exact .busy hbusy _

/-- So is a look at the channel. -/
theorem look_frame {n : Nat} {w : Waiter V F}
    (hn : (s.client.callers n).underWay? = some w.req) (h : s.look n w = .ok s') :
    s.Rearranged m s' := by
  unfold Host.look at h
  split at h
  · cases h
  · cases h
    exact .busy hn _

/-- And the poke. -/
theorem poke_frame {n : Nat} {w : Waiter V F} {seen : Watch V}
    (hn : (s.client.callers n).underWay? = some w.req) (h : s.poke n w seen now = .ok s') :
    s.Rearranged m s' := by
  unfold Host.poke at h
  split at h
  · cases h
  · next heq =>
      cases h
      obtain ⟨client, -, rfl⟩ := send_frame heq
      exact .busy hn _

/-- What a move does to what the program holds: it ends the cache, gives an `SwrClient` up, makes one, or
does none of this. -/
inductive Change (s : Host V F) : Move V F → Host V F → Prop
  | free : Change s .free { s with alive := false }
  | dropped : Change s .dropClient { s with clients := s.clients - 1 }
  | cloned (m : Move V F) : Change s m { s with clients := s.clients + 1 }
  | rearranged (m : Move V F) (s' : Host V F) (h : s.Rearranged m s') : Change s m s'

/-- **What a step does to what the program holds**: one case per move. -/
theorem Step.change (hs : Step s m (.ok s')) : s.Change m s' := by
  generalize hr : (Except.ok s' : Except HostPanic (Host V F)) = r at hs
  have hsame : s.Rearranged m s := Rearranged.refl s m
  cases hs with
  | clone _ => cases hr; exact .cloned _
  | upgrade =>
      cases hr
      unfold Host.upgrade
      split_ifs
      · exact .cloned _
      · exact .rearranged _ _ hsame
  | dropClient _ _ => cases hr; exact .dropped
  | free _ _ => cases hr; exact .free
  -- The handles and the guards.
  | subscribe _ => exact .rearranged _ _ (subscribe_frame rfl hr.symm)
  | revalidateHandle _ => exact .rearranged _ _ (hsame.called (dispatchWeak_frame hr.symm))
  | dropHandle _ => exact .rearranged _ _ (dropHandle_frame hr.symm)
  | mutate _ => exact .rearranged _ _ (mutate_frame rfl hr.symm)
  | settle hg => exact .rearranged _ _ (settle_frame hg hr.symm)
  | abandon hg => exact .rearranged _ _ (abandon_frame hg hr.symm)
  -- The calls that only dispatch an event.
  | set _ => exact .rearranged _ _ (hsame.called (send_frame hr.symm))
  | invalidate _ _ => exact .rearranged _ _ (hsame.called (send_frame hr.symm))
  | revalidate _ => exact .rearranged _ _ (hsame.called (send_frame hr.symm))
  | broadcast _ _ => exact .rearranged _ _ (hsame.called (send_frame hr.symm))
  -- The calls of `fetch()`.
  | call _ _ =>
      cases hr
      exact .rearranged _ _ (.strong rfl rfl rfl (List.Subset.refl _))
  | read hn => exact .rearranged _ _ (read_frame hn hr.symm)
  | @look n w hn =>
      have hbusy : (s.client.callers n).underWay? = some w.req := by rw [hn]; rfl
      exact .rearranged _ _ (look_frame hbusy hr.symm)
  | @poke n w seen now hn =>
      have hbusy : (s.client.callers n).underWay? = some w.req := by rw [hn]; rfl
      exact .rearranged _ _ (poke_frame hbusy hr.symm)
  | @wake n w seen hn _ =>
      have hbusy : (s.client.callers n).underWay? = some w.req := by rw [hn]; rfl
      cases hr
      exact .rearranged _ _ (.busy hbusy _)
  | @closed n w seen hn _ _ =>
      have hbusy : (s.client.callers n).underWay? = some w.req := by rw [hn]; rfl
      cases hr
      exact .rearranged _ _ (.busy hbusy _)
  | @cancel n =>
      cases hr
      exact .rearranged _ _ (.cancelled n)
  -- The tasks.
  | @exec before x rest after _ =>
      cases hr
      exact .rearranged _ _ (hsame.called ⟨s.client.executed x (before ++ rest :: after), rfl, rfl⟩)
  | land _ => exact .rearranged _ _ (hsame.called (dispatchWeak_frame hr.symm))
  | fire _ => exact .rearranged _ _ (hsame.called (dispatchWeak_frame hr.symm))

/-- Only the loss of the last strong reference ends the cache, and a handle stays until it is dropped. -/
theorem Step.frame (hs : Step s m (.ok s')) :
    (m = .free ∨ s'.alive = s.alive) ∧
      ∀ handle ∈ s.handles, (∃ now, m = .dropHandle handle now) ∨ handle ∈ s'.handles := by
  cases hs.change with
  | free => exact ⟨.inl rfl, fun _ => .inr⟩
  | dropped => exact ⟨.inr rfl, fun _ => .inr⟩
  | cloned _ => exact ⟨.inr rfl, fun _ => .inr⟩
  | rearranged _ _ h => exact ⟨.inr h.alive, h.handles⟩

end frame

end Host

end SwrCore
