import SwrCore.Model.Client
import SwrCore.Library.LatestWins
import SwrCore.Shell.Invariant

/-!
# The client: interleavings of calls, effects and waiting callers

`dispatch` runs `handle` under the lock and executes the batch of effects after it released the lock.
Threads race there: a batch is executed in order, but another thread's calls and batches may come in
between at any point, and a batch may be delayed for as long as one likes.

* `Watch` — a watch channel; `Watch.send` is the version guard of a `Notify`.
* `Request`, `Waiter`, `Phase` — a `fetch()` call and where it stands: at its `Read`, at a look at the
  channel, at the poke, parked in `changed()`, or done.
* `Task` — what `run_effects` spawns: a fetch or a timer.
* `Client`, `Client.Act`, `Client.Step` — the configurations and the atomic steps.
* `Client.Step.kinds`, `Client.Step.waiter`, `Client.Step.result` — what a step does to the shared part
  and to one caller.
* `Client.exec` — the same steps, executed.

A caller may go on before its own batch was executed, a task may end as soon as it was spawned, and a
future may be dropped at any await: the model has every interleaving of the code, and more.
-/

set_option linter.unusedSectionVars false

namespace SwrCore

variable {V F : Type}

/-! ## Watch channels -/

/-- A watch channel: the latest value, and how often it changed.
Source: `tokio::sync::watch::channel`. -/
structure Watch (V : Type) where
  value : Snapshot V
  epoch : Nat
deriving DecidableEq

namespace Watch

/-- `watch::channel(Snapshot::empty())`. -/
def new : Watch V := ⟨.empty, 0⟩

/-- `send_if_modified` with the version guard. Source: `client.rs`, `Shared::run_effects`. -/
def send (w : Watch V) (snapshot : Snapshot V) : Watch V :=
  if w.value.version < snapshot.version then ⟨snapshot, w.epoch + 1⟩ else w

theorem send_value (w : Watch V) (snapshot : Snapshot V) :
    (w.send snapshot).value = LatestWins.offer Snapshot.version w.value snapshot := by
  unfold send LatestWins.offer
  split_ifs <;> rfl

/-- What a receiver saw of a channel: the latest value, or an earlier one. -/
def Saw (seen w : Watch V) : Prop :=
  seen = w ∨ seen.epoch < w.epoch ∧ seen.value.version < w.value.version

namespace Saw

variable {seen w : Watch V}

theorem refl (w : Watch V) : w.Saw w := .inl rfl

theorem send (h : seen.Saw w) (snapshot : Snapshot V) : seen.Saw (w.send snapshot) := by
  unfold Watch.send
  split_ifs with hnew
  · rcases h with rfl | ⟨he, hv⟩
    · exact .inr ⟨Nat.lt_succ_self _, hnew⟩
    · exact .inr ⟨Nat.lt_succ_of_lt he, hv.trans hnew⟩
  · exact h

theorem version (h : seen.Saw w) : seen.value.version ≤ w.value.version := by
  rcases h with rfl | ⟨-, hv⟩
  · exact le_refl _
  · exact hv.le

/-- A channel that did not change since still holds what was seen. -/
theorem latest (h : seen.Saw w) (he : seen.epoch = w.epoch) : seen = w := by
  rcases h with h | ⟨hlt, -⟩
  · exact h
  · omega

end Saw

end Watch

/-! ## Callers of `fetch()` -/

/-- The arguments of one call. Source: `client.rs`, `SwrClient::fetch_inner`. -/
structure Request (V F : Type) where
  key : QueryKey
  policy : ReadPolicy
  fetcher : F
  compare : Option (Compare V)

/-- The `Read` of one pass through the loop. Source: `client.rs`, `SwrClient::fetch_inner`. -/
def Request.event (req : Request V F) (defaults : QueryOptions) : Event V F :=
  .read req.key req.policy (some req.fetcher) req.compare defaults

/-- A call in its wait loop. Source: `client.rs`, `SwrClient::wait`. -/
structure Waiter (V F : Type) where
  req : Request V F
  target : Nat
  rx : Channel

/-- Where a call stands. A caller past its look holds what it saw of the channel. -/
inductive Phase (V F : Type) where
  /-- Not called yet, or the future was dropped. -/
  | idle
  /-- About to dispatch its `Read`. -/
  | reading (req : Request V F)
  /-- About to `borrow_and_update`. -/
  | looking (w : Waiter V F)
  /-- About to dispatch a `RevalidateRequested`. -/
  | poking (w : Waiter V F) (seen : Watch V)
  /-- In `changed()`. -/
  | parked (w : Waiter V F) (seen : Watch V)
  | done (req : Request V F) (result : Except (FetchError V) V)
  | dead (panic : Panic)

/-- The wait loop a call is in. -/
def Phase.waiter? : Phase V F → Option (Waiter V F)
  | .looking w => some w
  | .poking w _ => some w
  | .parked w _ => some w
  | _ => none

/-- What a call has seen of its channel since its last look. -/
def Phase.seen? : Phase V F → Option (Waiter V F × Watch V)
  | .poking w seen => some (w, seen)
  | .parked w seen => some (w, seen)
  | _ => none

/-- The call after its `Read` was answered. Source: `client.rs`, `SwrClient::fetch_inner`. -/
def Request.passed (req : Request V F) : Except Panic (Pass V) → Phase V F
  | .error panic => .dead panic
  | .ok (.done result) => .done req result
  | .ok (.wait target rx) => .looking ⟨req, target, rx⟩

/-- The call after it looked at the channel. Source: `client.rs`, `SwrClient::wait`. -/
def Waiter.looked (w : Waiter V F) (seen : Watch V) : Phase V F :=
  match look seen.value w.target with
  | .error panic => .dead panic
  | .ok (.data value) => .done w.req (.ok value)
  | .ok (.error error) => .done w.req (.error (.fetch error))
  | .ok (.park poke) => if poke then .poking w seen else .parked w seen

/-- Nothing is under way that would change the snapshot: the wait loop pokes. -/
def Snapshot.isIdle (snapshot : Snapshot V) : Bool :=
  snapshot.inflight.isNone && !snapshot.isMutating

section looked

variable {w w' : Waiter V F} {seen seen' : Watch V}

/-- A look that does not end the loop found the target unmet, and pokes an idle entry. -/
theorem Waiter.looked_seen (h : (w.looked seen).seen? = some (w', seen')) :
    w' = w ∧ seen' = seen ∧ seen.value.dataSeq < w.target ∧ seen.value.errorSeq < w.target ∧
      w.looked seen = if seen.value.isIdle then .poking w seen else .parked w seen := by
  unfold Waiter.looked look at h ⊢
  by_cases hd : w.target ≤ seen.value.dataSeq
  · simp only [hd, if_true] at h
    cases hv : seen.value.data <;> rw [hv] at h <;> cases h
  · by_cases he : w.target ≤ seen.value.errorSeq
    · simp only [hd, he, if_true, if_false] at h
      cases hv : seen.value.error <;> rw [hv] at h <;> cases h
    · simp only [hd, he, if_false] at h ⊢
      have hboth : w' = w ∧ seen' = seen := by split_ifs at h <;> cases h <;> exact ⟨rfl, rfl⟩
      exact ⟨hboth.1, hboth.2, not_le.mp hd, not_le.mp he, rfl⟩

/-- A look that ends the loop returns the data or the error of a snapshot that meets the target. -/
theorem Waiter.looked_done {req : Request V F} {result : Except (FetchError V) V}
    (h : w.looked seen = .done req result) :
    w.req = req ∧
      ((∃ value, result = .ok value ∧ seen.value.data = some value ∧
          w.target ≤ seen.value.dataSeq) ∨
        ∃ error, result = .error (.fetch error) ∧ seen.value.error = some error ∧
          seen.value.dataSeq < w.target ∧ w.target ≤ seen.value.errorSeq) := by
  unfold Waiter.looked look at h
  by_cases hd : w.target ≤ seen.value.dataSeq
  · simp only [hd, if_true] at h
    cases hv : seen.value.data with
    | none =>
        rw [hv] at h
        cases h
    | some value =>
        rw [hv] at h
        cases h
        exact ⟨rfl, .inl ⟨value, rfl, rfl, hd⟩⟩
  · by_cases he : w.target ≤ seen.value.errorSeq
    · simp only [hd, he, if_true, if_false] at h
      cases hv : seen.value.error with
      | none =>
          rw [hv] at h
          cases h
      | some error =>
          rw [hv] at h
          cases h
          exact ⟨rfl, .inr ⟨error, rfl, rfl, not_le.mp hd, he⟩⟩
    · simp only [hd, he, if_false] at h
      split_ifs at h

end looked

/-! ## Tasks -/

/-- A spawned task. Source: `client.rs`, `Shared::run_effects`. -/
inductive Task where
  | fetch (flight : Flight)
  | timer (key : QueryKey) (kind : TimerKind) (generation : Nat)
deriving DecidableEq

/-- The task an effect spawns. -/
def Effect.task? : Effect V F → Option Task
  | .startFetch key incarnation seq _ => some (.fetch ⟨key, incarnation, seq⟩)
  | .notify _ _ => none
  | .scheduleTimer key kind _ generation => some (.timer key kind generation)

/-- The task that ends with this event. -/
def Event.task? : Event V F → Option Task
  | .commitOk key incarnation seq _ => some (.fetch ⟨key, incarnation, seq⟩)
  | .commitErr key incarnation seq _ => some (.fetch ⟨key, incarnation, seq⟩)
  | .timerFired key kind generation => some (.timer key kind generation)
  | _ => none

/-- The tasks left after an event. -/
def Event.remaining (ev : Event V F) (tasks : List Task) : List Task :=
  match ev.task? with
  | some task => tasks.erase task
  | none => tasks

/-! ## Configurations -/

/-- A configuration of the client: the state machine with what it handed out, the batches of effects
that are not executed yet, the channels, the running tasks, and the callers of `fetch()`. -/
structure Client (V F : Type) where
  shell : Shell V F
  batches : List (List (Effect V F))
  channels : Channel → Watch V
  tasks : List Task
  callers : Nat → Phase V F

namespace Client

/-- A fresh client. -/
def init (defaults : QueryOptions) : Client V F where
  shell := Shell.init defaults
  batches := []
  channels := fun _ => .new
  tasks := []
  callers := fun _ => .idle

/-- The effects that are not executed yet. -/
def pending (s : Client V F) : List (Effect V F) := s.batches.flatten

/-- The snapshots on their way to a channel. -/
def travelling (s : Client V F) (tx : Channel) : Set (Snapshot V) :=
  fun snapshot => .notify tx snapshot ∈ s.pending

/-- The channel still has a sender: its entry, or a `Notify` that is not executed yet. -/
def isOpen (s : Client V F) (rx : Channel) : Bool :=
  ((s.shell.inner.entry rx.key).any fun e => decide (e.tx = rx)) ||
    s.pending.any fun
      | .notify tx _ => decide (tx = rx)
      | _ => false

/-- The client after a call of `handle` that left `shell`: the batch waits for its execution. -/
def called (s : Client V F) (shell : Shell V F) (c : Call V F) : Client V F :=
  { s with
    shell := shell
    batches := s.batches ++ [c.out.effects]
    tasks := c.event.remaining s.tasks }

/-- The client after one effect was executed. Source: `client.rs`, `Shared::run_effects`. -/
def executed (s : Client V F) (x : Effect V F) (batches : List (List (Effect V F))) :
    Client V F :=
  { s with
    batches := batches
    channels := match x with
      | .notify tx snapshot =>
        Function.update s.channels tx ((s.channels tx).send snapshot)
      | _ => s.channels
    tasks := s.tasks ++ x.task?.toList }

/-- The client after one caller went on. -/
def moved (s : Client V F) (n : Nat) (p : Phase V F) : Client V F :=
  { s with callers := Function.update s.callers n p }

@[simp] theorem moved_self (s : Client V F) (n : Nat) (p : Phase V F) :
    (s.moved n p).callers n = p := by
  unfold moved
  exact Function.update_self n p s.callers

theorem moved_other {s : Client V F} {n m : Nat} (h : m ≠ n) (p : Phase V F) :
    (s.moved m p).callers n = s.callers n := by
  unfold moved
  exact Function.update_of_ne h.symm p s.callers

/-- The atomic steps. -/
inductive Act (V F : Type) where
  /-- A call of `handle` by anyone but a `fetch()` caller. -/
  | dispatch (c : Call V F)
  /-- The next effect of some batch. -/
  | exec (x : Effect V F)
  | call (n : Nat) (req : Request V F)
  | read (n : Nat) (c : Call V F)
  | look (n : Nat)
  | poke (n : Nat) (c : Call V F)
  /-- `changed()` completes. -/
  | wake (n : Nat)
  /-- `changed()` fails. -/
  | closed (n : Nat)
  /-- The future is dropped. -/
  | drop (n : Nat)

/-- The call of `handle` a step makes. -/
def Act.call? : Act V F → Option (Call V F)
  | .dispatch c => some c
  | .read _ c => some c
  | .poke _ c => some c
  | _ => none

/-- The caller a step moves. -/
def Act.caller? : Act V F → Option Nat
  | .dispatch _ => none
  | .exec _ => none
  | .call n _ => some n
  | .read n _ => some n
  | .look n => some n
  | .poke n _ => some n
  | .wake n => some n
  | .closed n => some n
  | .drop n => some n

/-- One atomic step. -/
inductive Step [Platform] : Client V F → Act V F → Client V F → Prop
  | dispatch {s shell c} (hc : s.shell.Step c shell)
      (ht : ∀ task, c.event.task? = some task → task ∈ s.tasks) :
      Step s (.dispatch c) (s.called shell c)
  | exec {s before x rest after} (hb : s.batches = before ++ (x :: rest) :: after) :
      Step s (.exec x) (s.executed x (before ++ rest :: after))
  | call {s n req} (hn : s.callers n = .idle) : Step s (.call n req) (s.moved n (.reading req))
  | read {s n req shell c} (hn : s.callers n = .reading req) (hc : s.shell.Step c shell)
      (hev : c.event = req.event s.shell.inner.defaults) :
      Step s (.read n c) ((s.called shell c).moved n (req.passed (pass c.out.outcome)))
  | look {s n w} (hn : s.callers n = .looking w) :
      Step s (.look n) (s.moved n (w.looked (s.channels w.rx)))
  | poke {s n w seen shell c} (hn : s.callers n = .poking w seen) (hc : s.shell.Step c shell)
      (hev : c.event = .revalidateRequested w.req.key) :
      Step s (.poke n c) ((s.called shell c).moved n (.parked w seen))
  | wake {s n w seen} (hn : s.callers n = .parked w seen)
      (he : seen.epoch ≠ (s.channels w.rx).epoch) : Step s (.wake n) (s.moved n (.looking w))
  | closed {s n w seen} (hn : s.callers n = .parked w seen)
      (he : seen.epoch = (s.channels w.rx).epoch) (ho : s.isOpen w.rx = false) :
      Step s (.closed n) (s.moved n (.reading w.req))
  | drop {s n} : Step s (.drop n) (s.moved n .idle)

/-- The log of a run of the client. -/
abbrev Log (V F : Type) := List (Trace.Record (Client V F) (Act V F))

/-- Runs of a fresh client, with their logs. -/
abbrev Run [Platform] (defaults : QueryOptions) : Log V F → Client V F → Prop :=
  Trace.Run Step (init defaults)

/-! ## What a step does to the shared part -/

/-- A call of `handle`: its batch joins the ones not executed yet. -/
structure Calls [Platform] (s : Client V F) (c : Call V F) (s' : Client V F) : Prop where
  shell : s.shell.Step c s'.shell
  spawned : ∀ task, c.event.task? = some task → task ∈ s.tasks
  batches : s'.batches = s.batches ++ [c.out.effects]
  channels : s'.channels = s.channels
  tasks : s'.tasks = c.event.remaining s.tasks

/-- Only a caller moves. -/
structure Still (s s' : Client V F) : Prop where
  shell : s'.shell = s.shell
  batches : s'.batches = s.batches
  channels : s'.channels = s.channels
  tasks : s'.tasks = s.tasks

section step

variable [Platform] {s s' : Client V F} {a : Act V F}

/-- **The kinds of steps.** A step calls `handle`, executes one effect, or only moves a caller. -/
theorem Step.kinds (h : Step s a s') :
    (∃ c, a.call? = some c ∧ s.Calls c s') ∨
      (∃ before x rest after, a = .exec x ∧ s.batches = before ++ (x :: rest) :: after ∧
        s' = s.executed x (before ++ rest :: after)) ∨
      (a.call? = none ∧ s.Still s') := by
  cases h with
  | dispatch hc ht => exact .inl ⟨_, rfl, hc, ht, rfl, rfl, rfl⟩
  | read hn hc hev =>
      refine .inl ⟨_, rfl, hc, fun task ht => ?_, rfl, rfl, rfl⟩
      rw [hev] at ht
      cases ht
  | poke hn hc hev =>
      refine .inl ⟨_, rfl, hc, fun task ht => ?_, rfl, rfl, rfl⟩
      rw [hev] at ht
      cases ht
  | exec hb => exact .inr (.inl ⟨_, _, _, _, rfl, hb, rfl⟩)
  | call _ => exact .inr (.inr ⟨rfl, rfl, rfl, rfl, rfl⟩)
  | look _ => exact .inr (.inr ⟨rfl, rfl, rfl, rfl, rfl⟩)
  | wake _ _ => exact .inr (.inr ⟨rfl, rfl, rfl, rfl, rfl⟩)
  | closed _ _ _ => exact .inr (.inr ⟨rfl, rfl, rfl, rfl, rfl⟩)
  | drop => exact .inr (.inr ⟨rfl, rfl, rfl, rfl, rfl⟩)

theorem Step.calls (h : Step s a s') {c : Call V F} (hc : a.call? = some c) : s.Calls c s' := by
  rcases h.kinds with ⟨c', hc', hcalls⟩ | ⟨_, _, _, _, rfl, -⟩ | ⟨hnone, -⟩
  · rw [hc] at hc'
    cases hc'
    exact hcalls
  · cases hc
  · rw [hnone] at hc
    cases hc

/-- A step is a call of `handle` or leaves the state machine alone. -/
theorem Step.shell (h : Step s a s') :
    (∃ c, a.call? = some c ∧ s.shell.Step c s'.shell) ∨ a.call? = none ∧ s'.shell = s.shell := by
  rcases h.kinds with ⟨c, hc, hcalls⟩ | ⟨_, _, _, _, rfl, -, rfl⟩ | ⟨hnone, hstill⟩
  · exact .inl ⟨c, hc, hcalls.shell⟩
  · exact .inr ⟨rfl, rfl⟩
  · exact .inr ⟨hnone, hstill.shell⟩

theorem Calls.pending {c : Call V F} (h : s.Calls c s') :
    s'.pending = s.pending ++ c.out.effects := by
  rw [Client.pending, h.batches, List.flatten_append]
  simp [Client.pending]

theorem Still.pending (h : s.Still s') : s'.pending = s.pending := by
  rw [Client.pending, h.batches, Client.pending]

/-- Executing one effect leaves the others where they are. -/
theorem mem_pending_executed {before after : List (List (Effect V F))} {x y : Effect V F}
    {rest : List (Effect V F)} (hb : s.batches = before ++ (x :: rest) :: after) :
    y ∈ s.pending ↔ y = x ∨ y ∈ (s.executed x (before ++ rest :: after)).pending := by
  simp only [Client.pending, executed, hb, List.flatten_append, List.flatten_cons,
    List.mem_append, List.mem_cons]
  grind

/-- An executed effect was not executed before. -/
theorem Step.pending {x : Effect V F} (h : Step s (.exec x) s') : x ∈ s.pending := by
  cases h with
  | exec hb => exact (mem_pending_executed hb).mpr (.inl rfl)

/-- A task was there before a step, or the effect that the step executes spawns it. -/
theorem Step.task (h : Step s a s') {task : Task} (ht : task ∈ s'.tasks) :
    task ∈ s.tasks ∨ ∃ x, a = .exec x ∧ x.task? = some task := by
  rcases h.kinds with ⟨c, -, hc⟩ | ⟨before, x, rest, after, rfl, -, rfl⟩ | ⟨-, hstill⟩
  · rw [hc.tasks, Event.remaining] at ht
    split at ht
    · exact .inl (List.mem_of_mem_erase ht)
    · exact .inl ht
  · rcases List.mem_append.mp ht with hold | hnew
    · exact .inl hold
    · exact .inr ⟨x, rfl, Option.mem_toList.mp hnew⟩
  · rw [hstill.tasks] at ht
    exact .inl ht

end step

/-! ## What a step does to one caller -/

section caller

variable [Platform] {s s' : Client V F} {a : Act V F} {n : Nat}

/-- A step moves one caller at most. -/
theorem Step.caller (h : Step s a s') (n : Nat) :
    s'.callers n = s.callers n ∨ a.caller? = some n := by
  by_cases ha : a.caller? = some n
  · exact .inr ha
  · refine .inl ?_
    cases h <;> first | rfl | exact moved_other (fun hm => ha (congrArg some hm)) _

/-- A caller in the wait loop was there before, or its `Read` was just answered. -/
theorem Step.waiter (h : Step s a s') {w : Waiter V F} (hw : (s'.callers n).waiter? = some w) :
    (s.callers n).waiter? = some w ∨
      ∃ c, a = .read n c ∧ s.callers n = .reading w.req ∧
        c.event = w.req.event s.shell.inner.defaults ∧
        c.out.outcome = .read (.wait w.target w.rx) ∧ s'.callers n = .looking w := by
  rcases h.caller n with heq | ha
  · rw [heq] at hw
    exact .inl hw
  · cases h <;> cases ha <;> simp only [moved_self] at hw ⊢
    case read.refl req shell c hc hev hn =>
      refine .inr ⟨c, rfl, ?_⟩
      cases hout : c.out.outcome with
      | read ro =>
          cases ro <;> rw [hout] at hw <;> cases hw
          exact ⟨hn, hev, rfl, rfl⟩
      | _ =>
          rw [hout] at hw
          cases hw
    case look.refl w' hn =>
      rw [Waiter.looked] at hw
      rw [hn]
      split at hw
      · cases hw
      · cases hw
      · cases hw
      · split_ifs at hw <;> exact .inl hw
    case poke.refl w' seen shell c hc hev hn =>
      rw [hn]
      exact .inl hw
    case wake.refl w' seen he hn =>
      rw [hn]
      exact .inl hw
    all_goals cases hw

/-- A caller past its look stayed where it was, or just looked at the latest value, or just poked. -/
theorem Step.seen (h : Step s a s') {w : Waiter V F} {seen : Watch V}
    (hw : (s'.callers n).seen? = some (w, seen)) :
    s'.callers n = s.callers n ∨
      (a = .look n ∧ s.callers n = .looking w ∧ seen = s.channels w.rx ∧
        s'.callers n = w.looked seen) ∨
      ∃ c, a = .poke n c ∧ s.callers n = .poking w seen ∧
        c.event = .revalidateRequested w.req.key ∧ s'.callers n = .parked w seen := by
  rcases h.caller n with heq | ha
  · exact .inl heq
  · cases h <;> cases ha <;> simp only [moved_self] at hw ⊢
    case read.refl req shell c hc hev hn =>
      cases hp : pass c.out.outcome with
      | error panic =>
          rw [hp] at hw
          cases hw
      | ok r => cases r <;> rw [hp] at hw <;> cases hw
    case look.refl w' hn =>
      obtain ⟨rfl, rfl, -⟩ := Waiter.looked_seen hw
      exact .inr (.inl ⟨trivial, hn, rfl, rfl⟩)
    case poke.refl w' seen' shell c hc hev hn =>
      cases hw
      exact .inr (.inr ⟨c, rfl, hn, hev, rfl⟩)
    all_goals cases hw

/-- A look leaves its caller with what it saw of the channel. -/
theorem Step.looked (h : Step s (.look n) s') :
    ∃ w, s.callers n = .looking w ∧ s'.callers n = w.looked (s.channels w.rx) := by
  cases h with
  | look hn => exact ⟨_, hn, moved_self ..⟩

/-- A result was there before, or it is the answer of the caller's `Read`, or what the caller just
saw in its channel. -/
theorem Step.result (h : Step s a s') {req : Request V F} {result : Except (FetchError V) V}
    (hr : s'.callers n = .done req result) :
    s.callers n = .done req result ∨
      (∃ c, a = .read n c ∧ s.callers n = .reading req ∧
        c.event = req.event s.shell.inner.defaults ∧ pass c.out.outcome = .ok (.done result)) ∨
      ∃ w, a = .look n ∧ s.callers n = .looking w ∧
        w.looked (s.channels w.rx) = .done req result := by
  rcases h.caller n with heq | ha
  · rw [heq] at hr
    exact .inl hr
  · cases h <;> cases ha <;> simp only [moved_self] at hr
    case read.refl req' shell c hc hev hn =>
      refine .inr (.inl ⟨c, rfl, ?_⟩)
      cases hp : pass c.out.outcome with
      | error panic =>
          rw [hp] at hr
          cases hr
      | ok r =>
          rw [hp] at hr
          cases r <;> cases hr
          exact ⟨hn, hev, rfl⟩
    case look.refl w hn => exact .inr (.inr ⟨w, rfl, hn, hr⟩)
    all_goals cases hr

end caller

/-! ## The run of the state machine inside -/

section run

variable [Platform] {defaults : QueryOptions} {log : Log V F} {s : Client V F}

/-- The calls of a log. -/
def shellLog (log : Log V F) : List (Trace.Record (Shell V F) (Call V F)) :=
  log.filterMap fun r => r.label.call?.map fun c => ⟨r.pre.shell, c, r.post.shell⟩

/-- **Every run of the client is a shell-produced run of the state machine.** -/
theorem Run.shell (h : Run defaults log s) : Shell.Run defaults (shellLog log) s.shell := by
  induction h with
  | nil => exact .nil
  | @snoc log s s' a _ hs ih =>
      have happ : shellLog (log ++ [⟨s, a, s'⟩]) = shellLog log ++
          (a.call?.map fun c => (⟨s.shell, c, s'.shell⟩ : Trace.Record _ _)).toList := by
        rw [shellLog, List.filterMap_append]
        cases hc : a.call? <;> simp [shellLog, hc]
      rw [happ]
      rcases hs.shell with ⟨c, hc, hstep⟩ | ⟨hnone, hkeep⟩
      · rw [hc]
        exact ih.snoc hstep
      · rw [hnone, hkeep]
        simpa using ih

theorem Run.inv (h : Run defaults log s) : s.shell.Inv := Shell.inv_of_run h.shell

/-- The induction rule for configurations: the invariant of the state machine is at hand. -/
theorem Run.keeps {J : Client V F → Prop} (h : Run defaults log s) (h₀ : J (init defaults))
    (hstep : ∀ s a s', s.shell.Inv → J s → Step s a s' → J s') : J s :=
  h.history (P := fun _ s => J s) h₀ fun _ s a s' hr hJ hs => hstep s a s' (Run.inv hr) hJ hs

end run

/-! ## Execution -/

/-- What the environment chooses at each step. -/
inductive Input (V F : Type) where
  | dispatch (ev : Event V F) (now : Instant) (scan : List QueryKey)
  /-- The next effect of the batch with this index. -/
  | exec (i : Nat)
  | call (n : Nat) (req : Request V F)
  | read (n : Nat) (now : Instant)
  | look (n : Nat)
  | poke (n : Nat) (now : Instant)
  | wake (n : Nat)
  | closed (n : Nat)
  | drop (n : Nat)

section exec

variable [Platform]

/-- One step, if it is possible. -/
def exec1 (s : Client V F) : Input V F → Option (Act V F × Client V F)
  | .dispatch ev now scan =>
    if ∀ task ∈ ev.task?.toList, task ∈ s.tasks then
      (s.shell.exec1 ev now scan).map fun r => (.dispatch r.1, s.called r.2 r.1)
    else none
  | .exec i =>
    match s.batches[i]? with
    | some (x :: rest) =>
      some (.exec x, s.executed x (s.batches.take i ++ rest :: s.batches.drop (i + 1)))
    | _ => none
  | .call n req =>
    match s.callers n with
    | .idle => some (.call n req, s.moved n (.reading req))
    | _ => none
  | .read n now =>
    match s.callers n with
    | .reading req =>
      (s.shell.exec1 (req.event s.shell.inner.defaults) now []).map fun r =>
        (.read n r.1, (s.called r.2 r.1).moved n (req.passed (pass r.1.out.outcome)))
    | _ => none
  | .look n =>
    match s.callers n with
    | .looking w => some (.look n, s.moved n (w.looked (s.channels w.rx)))
    | _ => none
  | .poke n now =>
    match s.callers n with
    | .poking w seen =>
      (s.shell.exec1 (.revalidateRequested w.req.key) now []).map fun r =>
        (.poke n r.1, (s.called r.2 r.1).moved n (.parked w seen))
    | _ => none
  | .wake n =>
    match s.callers n with
    | .parked w seen =>
      if seen.epoch ≠ (s.channels w.rx).epoch then some (.wake n, s.moved n (.looking w))
      else none
    | _ => none
  | .closed n =>
    match s.callers n with
    | .parked w seen =>
      if seen.epoch = (s.channels w.rx).epoch ∧ s.isOpen w.rx = false then
        some (.closed n, s.moved n (.reading w.req))
      else none
    | _ => none
  | .drop n => some (.drop n, s.moved n .idle)

/-- A list of steps; the log of the run and the last configuration. -/
def exec (s : Client V F) (inputs : List (Input V F)) : Option (Log V F × Client V F) :=
  Trace.exec exec1 s inputs

theorem step_of_exec1 {s s' : Client V F} {i : Input V F} {a : Act V F}
    (h : s.exec1 i = some (a, s')) : Step s a s' := by
  cases i with
  | dispatch ev now scan =>
      simp only [exec1] at h
      split_ifs at h with ht
      obtain ⟨⟨c, shell⟩, hc, h⟩ := Option.map_eq_some_iff.mp h
      cases h
      refine .dispatch (Shell.step_of_exec1 hc) fun task htask => ht task ?_
      rw [(Shell.call_of_exec1 hc).1] at htask
      exact Option.mem_toList.mpr htask
  | exec i =>
      simp only [exec1] at h
      split at h
      · next x rest hb =>
          cases h
          refine .exec ?_
          obtain ⟨hlt, hget⟩ := List.getElem?_eq_some_iff.mp hb
          rw [← hget, List.cons_getElem_drop_succ, List.take_append_drop]
      · cases h
  | call n req =>
      simp only [exec1] at h
      split at h
      · next hn =>
          cases h
          exact .call hn
      · cases h
  | read n now =>
      simp only [exec1] at h
      split at h
      · next req hn =>
          obtain ⟨⟨c, shell⟩, hc, h⟩ := Option.map_eq_some_iff.mp h
          cases h
          exact .read hn (Shell.step_of_exec1 hc) (Shell.call_of_exec1 hc).1
      · cases h
  | look n =>
      simp only [exec1] at h
      split at h
      · next w hn =>
          cases h
          exact .look hn
      · cases h
  | poke n now =>
      simp only [exec1] at h
      split at h
      · next w seen hn =>
          obtain ⟨⟨c, shell⟩, hc, h⟩ := Option.map_eq_some_iff.mp h
          cases h
          exact .poke hn (Shell.step_of_exec1 hc) (Shell.call_of_exec1 hc).1
      · cases h
  | wake n =>
      simp only [exec1] at h
      split at h
      · next w seen hn =>
          split_ifs at h with he
          cases h
          exact .wake hn he
      · cases h
  | closed n =>
      simp only [exec1] at h
      split at h
      · next w seen hn =>
          split_ifs at h with he
          cases h
          exact .closed hn he.1 he.2
      · cases h
  | drop n =>
      cases h
      exact .drop

/-- The labels that an input leads to. -/
def Input.Labels : Input V F → Act V F → Prop
  | .dispatch ev _ _, a => ∃ c, a = .dispatch c ∧ c.event = ev
  | .exec _, a => ∃ x, a = .exec x
  | .call n req, a => a = .call n req
  | .read n _, a => ∃ c, a = .read n c
  | .look n, a => a = .look n
  | .poke n _, a => ∃ c, a = .poke n c
  | .wake n, a => a = .wake n
  | .closed n, a => a = .closed n
  | .drop n, a => a = .drop n

theorem labels_of_exec1 {s s' : Client V F} {i : Input V F} {a : Act V F}
    (h : s.exec1 i = some (a, s')) : i.Labels a := by
  cases i with
  | dispatch ev now scan =>
      simp only [exec1] at h
      split_ifs at h
      obtain ⟨⟨c, shell⟩, hc, h⟩ := Option.map_eq_some_iff.mp h
      cases h
      exact ⟨c, rfl, (Shell.call_of_exec1 hc).1⟩
  | read n now =>
      simp only [exec1] at h
      split at h
      · obtain ⟨⟨c, shell⟩, -, h⟩ := Option.map_eq_some_iff.mp h
        cases h
        exact ⟨c, rfl⟩
      · cases h
  | poke n now =>
      simp only [exec1] at h
      split at h
      · obtain ⟨⟨c, shell⟩, -, h⟩ := Option.map_eq_some_iff.mp h
        cases h
        exact ⟨c, rfl⟩
      · cases h
  | exec i =>
      simp only [exec1] at h
      split at h <;> cases h
      exact ⟨_, rfl⟩
  | drop n =>
      cases h
      rfl
  | _ =>
      simp only [exec1] at h
      repeat' split at h
      all_goals cases h
      all_goals rfl

/-- An execution is a run. -/
theorem run_of_exec {s s' : Client V F} {inputs : List (Input V F)} {log : Log V F}
    (h : s.exec inputs = some (log, s')) : Trace.Run Step s log s' := by
  have hstep : ∀ (s : Client V F) i a s', exec1 s i = some (a, s') → Step s a s' :=
    fun _ _ _ _ h => step_of_exec1 h
  exact Trace.run_of_exec hstep h

end exec

end Client

end SwrCore
