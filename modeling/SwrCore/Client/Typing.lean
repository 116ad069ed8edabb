import Mathlib.Data.Nat.Pairing
import SwrCore.Client.Handles
import SwrCore.Client.Sorting
import SwrCore.Model.Erased

/-!
# The cache is well typed

A program calls the client with types: each call names the value types of its key, and hands over
fetchers, comparators, values and results of those types. The client forgets the types and downcasts on
the way out.

* `Api` — the calls of the public interface with their type arguments, as requests and events.
* `Program`, `Program.Step` — the client with the futures it spawned; a step is a typed call, the end of a
  future with a result of its own fetcher, a timer, or a step that carries nothing in.
* `Program.typing` — the types that a key names, as a sorting of what belongs under it.
* `Program.StoreTyped`, `Program.NeverPanics` — everything stored, published or on its way under a key has
  the types of the key; no downcast and no comparator panics.
* `Program.store_typing` — both hold in every reachable state.
-/

set_option linter.unusedSectionVars false

namespace SwrCore

open SwrCore.Types (Ty El)

/-! ## The typed calls -/

section api

variable [Types]

/-- The calls of the public interface, with their type arguments `(T, E)`; a `mutate()` future calls
twice. Source: `client.rs`, `SwrClient`; `handle.rs`, `QueryHandle`. -/
inductive Api where
  | fetch (n : Nat) (t e : Ty) (key : List Segment) (fetcher : Fetcher (List Segment) t e)
      (policy : ReadPolicy)
  | fetchEq (n : Nat) (t e : Ty) (key : List Segment) (fetcher : Fetcher (List Segment) t e)
      (policy : ReadPolicy) (eq : El t → El t → Bool)
  | subscribe (t e : Ty) (key : List Segment) (fetcher : Fetcher (List Segment) t e)
      (opts : QueryOptions)
  | subscribeEq (t e : Ty) (key : List Segment) (fetcher : Fetcher (List Segment) t e)
      (opts : QueryOptions) (eq : El t → El t → Bool)
  | observe (t e : Ty) (key : List Segment) (opts : QueryOptions)
  | dropHandle (handle : QueryHandle)
  | set (t e : Ty) (key : List Segment) (value : El t)
  /-- A `mutate()` future begins. -/
  | mutate (t e : Ty) (key : List Segment) (optimistic : Option (El t))
  /-- Its inner future returned. -/
  | mutateDone (t e : Ty) (key : List Segment) (writtenSeq : Option Nat)
      (result : Except (El e) (Option (El t))) (flags : MutateFlags)
  /-- It was dropped before. -/
  | mutateDropped (token : MutationToken) (flags : MutateFlags)
  | invalidate (pre : List Segment)
  | revalidateKey (key : QueryKey)
  | broadcast (ev : SwrEvent)

namespace Api

/-- The arguments of a `fetch()` call, erased. Source: `client.rs`, `SwrClient::fetch`,
`SwrClient::fetch_eq`, `SwrClient::fetch_inner`. -/
def request? : Api → Option (Nat × Request ErasedValue ErasedFetcher)
  | .fetch n t e key fetcher policy =>
    some (n, ⟨QueryKey.new t e key, policy, erase key fetcher, none⟩)
  | .fetchEq n t e key fetcher policy eq =>
    some (n, ⟨QueryKey.new t e key, policy, erase key fetcher,
      some (ErasedCompare.answers (erasedEq t eq))⟩)
  | _ => none

/-- The event that any other call dispatches. Source: `client.rs`, `SwrClient`; `handle.rs`,
`QueryHandle`. -/
def event? : Api → Option (Event ErasedValue ErasedFetcher)
  | .fetch _ _ _ _ _ _ => none
  | .fetchEq _ _ _ _ _ _ _ => none
  | .subscribe t e key fetcher opts =>
    some (.subscribe (QueryKey.new t e key) (some (erase key fetcher)) none opts)
  | .subscribeEq t e key fetcher opts eq =>
    some (.subscribe (QueryKey.new t e key) (some (erase key fetcher))
      (some (ErasedCompare.answers (erasedEq t eq))) opts)
  | .observe t e key opts => some (.subscribe (QueryKey.new t e key) none none opts)
  | .dropHandle handle => some handle.drop
  | .set t e key value => some (.mutateSet (QueryKey.new t e key) ⟨t, value⟩)
  | .mutate t e key optimistic =>
    some (.mutateBegin (QueryKey.new t e key) (optimistic.map fun v => ⟨t, v⟩))
  | .mutateDone t e key writtenSeq result flags =>
    some (.mutateCommit ⟨QueryKey.new t e key, writtenSeq⟩
      (match result with
        | .ok value => .ok (value.map fun v => ⟨t, v⟩)
        | .error error => .error ⟨e, error⟩) flags)
  | .mutateDropped token flags => some (.mutateAbort token flags)
  | .invalidate pre => some (.invalidate pre)
  | .revalidateKey key => some (.revalidateRequested key)
  | .broadcast ev => some (.broadcast ev)

/-- The comparator a call brings, with the key it brings it for. -/
def compare? : Api → Option (QueryKey × ErasedCompare)
  | .fetchEq _ t e key _ _ eq => some (QueryKey.new t e key, erasedEq t eq)
  | .subscribeEq t e key _ _ eq => some (QueryKey.new t e key, erasedEq t eq)
  | _ => none

/-- The types of the handle a call returns. -/
def handleTypes? : Api → Option (Ty × Ty)
  | .subscribe t e _ _ _ => some (t, e)
  | .subscribeEq t e _ _ _ _ => some (t, e)
  | .observe t e _ _ => some (t, e)
  | _ => none

end Api

/-- Source: `handle.rs`, `QueryHandle::snapshot`. -/
def QueryHandle.snapshot (t e : Ty) (h : QueryHandle) (s : Client ErasedValue ErasedFetcher) :
    Except Mismatch (QueryState t e) :=
  QueryState.fromSnapshot t e (s.channels h.rx).value

end api

/-! ## Futures -/

/-- The future that an effect spawns. Source: `client.rs`, `Shared::run_effects`. -/
def Effect.future? {V F : Type} : Effect V F → Option (Flight × F)
  | .startFetch key incarnation seq fetcher => some (⟨key, incarnation, seq⟩, fetcher)
  | _ => none

/-- The future that a step spawns. -/
def Client.Act.future? {V F : Type} : Client.Act V F → Option (Flight × F)
  | .exec x => x.future?
  | _ => none

/-- The steps of the client that nothing comes in with. -/
def Client.Act.own {V F : Type} : Client.Act V F → Bool
  | .dispatch _ => false
  | .exec _ => false
  | .call _ _ => false
  | _ => true

/-! ## Programs -/

/-- The client of a program, and the futures it spawned with the fetchers that made them. -/
structure Program [Types] where
  client : Client ErasedValue ErasedFetcher
  futures : List (Flight × ErasedFetcher)

namespace Program

variable [Types]

/-- A step: the call the program makes, if it makes one, and what the client does. -/
structure Move where
  api : Option Api
  act : Client.Act ErasedValue ErasedFetcher

/-- A fresh client. -/
def init (defaults : QueryOptions) : Program := ⟨Client.init defaults, []⟩

/-- One step of a program whose calls are well typed. -/
inductive Step [Platform] : Program → Move → Program → Prop
  | call {s api n req client} (hapi : api.request? = some (n, req))
      (hs : s.client.Step (.call n req) client) :
      Step s ⟨some api, .call n req⟩ ⟨client, s.futures⟩
  | dispatch {s api c client} (hapi : api.event? = some c.event)
      (hs : s.client.Step (.dispatch c) client) :
      Step s ⟨some api, .dispatch c⟩ ⟨client, s.futures⟩
  /-- A future ends, with what its fetcher returned. -/
  | commit {s flight fetcher w c client} (hf : (flight, fetcher) ∈ s.futures)
      (hev : c.event = flight.commit (fetcher flight.key w))
      (hs : s.client.Step (.dispatch c) client) :
      Step s ⟨none, .dispatch c⟩ ⟨client, s.futures⟩
  | timer {s key kind generation c client} (hev : c.event = .timerFired key kind generation)
      (hs : s.client.Step (.dispatch c) client) :
      Step s ⟨none, .dispatch c⟩ ⟨client, s.futures⟩
  | exec {s x client} (hs : s.client.Step (.exec x) client) :
      Step s ⟨none, .exec x⟩ ⟨client, s.futures ++ x.future?.toList⟩
  | own {s a client} (ha : a.own = true) (hs : s.client.Step a client) :
      Step s ⟨none, a⟩ ⟨client, s.futures⟩

/-- The log of a run of a program. -/
abbrev Log := List (Trace.Record Program Move)

/-- Runs of a program from a fresh client, with their logs. -/
abbrev Run [Platform] (defaults : QueryOptions) : Log → Program → Prop :=
  Trace.Run Step (init defaults)

section step

variable [Platform] {s s' : Program} {m : Move}

theorem Step.client (h : Step s m s') : s.client.Step m.act s'.client := by
  cases h <;> assumption

/-- **A program runs the client.** -/
theorem Run.client {defaults : QueryOptions} {log : Log} (h : Run defaults log s) :
    Client.Run defaults (log.map (Trace.Record.map Program.client Move.act)) s.client := by
  have hsteps : ∀ r ∈ log, r.pre.client.Step r.label.act r.post.client := by
    intro r hr
    obtain ⟨xs, ys, -, -, hstep, -⟩ := h.of_mem hr
    exact hstep.client
  exact h.map hsteps

end step

/-! ## The types that a key names -/

/-- A comparator was supplied for a key. -/
def Supplied (log : Log) (k : QueryKey) (p : ErasedCompare) : Prop :=
  ∃ r ∈ log, ∃ api, r.label.api = some api ∧ api.compare? = some (k, p)

/-- Data and errors have the types that the key names, fetchers return such results, and comparators were
supplied for the key. -/
def typing (log : Log) : Sorting ErasedValue ErasedFetcher where
  key k := ∃ t e segments, k = QueryKey.new t e segments
  data k v := ∀ t e segments, k = QueryKey.new t e segments → v.ty = t
  error k v := ∀ t e segments, k = QueryKey.new t e segments → v.ty = e
  fetcher k f := ∀ t e segments, k = QueryKey.new t e segments → f.HasTypes t e k
  compare k c := ∃ p, Supplied log k p ∧ c = p.answers

section typing

variable {log : Log} {t e : Ty} {segments : List Segment}

@[simp] theorem typing_data {v : ErasedValue} :
    (typing log).data (QueryKey.new t e segments) v ↔ v.ty = t := by
  constructor
  · intro h
    exact h t e segments rfl
  · intro h t' e' segments' hkey
    obtain ⟨rfl, -⟩ := QueryKey.new_inj.mp hkey
    exact h

@[simp] theorem typing_error {v : ErasedValue} :
    (typing log).error (QueryKey.new t e segments) v ↔ v.ty = e := by
  constructor
  · intro h
    exact h t e segments rfl
  · intro h t' e' segments' hkey
    obtain ⟨-, rfl, -⟩ := QueryKey.new_inj.mp hkey
    exact h

theorem typing_key : (typing log).key (QueryKey.new t e segments) := ⟨t, e, segments, rfl⟩

theorem typing_erase (key : List Segment) (fetcher : Fetcher (List Segment) t e) :
    (typing log).fetcher (QueryKey.new t e segments) (erase key fetcher) := by
  intro t' e' segments' hkey
  obtain ⟨rfl, rfl, -⟩ := QueryKey.new_inj.mp hkey
  exact erase_hasTypes key fetcher _

/-- What a typed call brings in. -/
def Supplies (log : Log) (api : Api) : Prop :=
  ∀ k p, api.compare? = some (k, p) → Supplied log k p

/-- A typed `fetch` hands over what belongs under its key. -/
theorem request_fits {api : Api} {n : Nat} {req : Request ErasedValue ErasedFetcher}
    (hapi : api.request? = some (n, req)) (hlog : Supplies log api) : req.Fits (typing log) := by
  cases api <;> cases hapi
  case fetch t e key fetcher policy => exact ⟨typing_key, typing_erase key fetcher, nofun⟩
  case fetchEq t e key fetcher policy eq =>
    refine ⟨typing_key, typing_erase key fetcher, ?_⟩
    rintro c ⟨⟩
    exact ⟨erasedEq t eq, hlog _ _ rfl, rfl⟩

/-- A typed call hands over what belongs under its key. -/
theorem event_fits {api : Api} {ev : Event ErasedValue ErasedFetcher}
    (hapi : api.event? = some ev) (hlog : Supplies log api) : ev.Fits (typing log) := by
  intro k subId kev hon
  cases api <;> cases hapi <;> cases Event.on_inv hon
  case subscribe.refl.subscribe t e key fetcher opts =>
    refine ⟨fun _ => typing_key, nofun, nofun, ?_, nofun⟩
    rintro f ⟨⟩
    exact typing_erase key fetcher
  case subscribeEq.refl.subscribe t e key fetcher opts eq =>
    refine ⟨fun _ => typing_key, nofun, nofun, ?_, ?_⟩
    · rintro f ⟨⟩
      exact typing_erase key fetcher
    · rintro c ⟨⟩
      exact ⟨erasedEq t eq, hlog _ _ rfl, rfl⟩
  case observe.refl.subscribe t e key opts =>
    exact ⟨fun _ => typing_key, nofun, nofun, nofun, nofun⟩
  case set.refl.mutateSet t e key value =>
    refine ⟨fun _ => typing_key, ?_, nofun, nofun, nofun⟩
    rintro v ⟨⟩
    exact typing_data.mpr rfl
  case mutate.refl.mutateBegin t e key optimistic =>
    refine ⟨fun _ => typing_key, ?_, nofun, nofun, nofun⟩
    intro v hv
    obtain ⟨x, -, rfl⟩ := Option.map_eq_some_iff.mp hv
    exact typing_data.mpr rfl
  case mutateDone.refl.mutateCommit t e key writtenSeq result flags hk =>
    subst hk
    cases result with
    | ok value =>
        refine ⟨nofun, ?_, nofun, nofun, nofun⟩
        intro v hv
        obtain ⟨x, -, rfl⟩ := Option.map_eq_some_iff.mp hv
        exact typing_data.mpr rfl
    | error error =>
        refine ⟨nofun, nofun, ?_, nofun, nofun⟩
        rintro v ⟨⟩
        exact typing_error.mpr rfl
  all_goals exact ⟨nofun, nofun, nofun, nofun, nofun⟩

/-- What a fetcher returns belongs where the fetcher does. -/
theorem commit_fits {flight : Flight} {fetcher : ErasedFetcher}
    (hfetcher : (typing log).fetcher flight.key fetcher) (w : Types.World) :
    (flight.commit (fetcher flight.key w) : Event ErasedValue ErasedFetcher).Fits (typing log) := by
  intro k subId kev hon
  unfold Flight.commit at hon
  split at hon
  · next value hvalue =>
      cases Event.on_inv hon with
      | commitOk =>
          refine ⟨nofun, ?_, nofun, nofun, nofun⟩
          rintro v ⟨⟩
          exact fun t e segments hkey => (hfetcher t e segments hkey w).1 value hvalue
  · next error herror =>
      cases Event.on_inv hon with
      | commitErr =>
          refine ⟨nofun, nofun, ?_, nofun, nofun⟩
          rintro v ⟨⟩
          exact fun t e segments hkey => (hfetcher t e segments hkey w).2 error herror

end typing

/-! ## Everything is where it belongs -/

/-- Everything the client keeps, and every future, belongs under its key. -/
structure Fits (log : Log) (s : Program) : Prop where
  client : s.client.Fits (typing log)
  futures : ∀ flight fetcher, (flight, fetcher) ∈ s.futures →
    (typing log).fetcher flight.key fetcher

section run

variable [Platform] {defaults : QueryOptions} {log : Log} {s s' : Program} {m : Move}

/-- The client does nothing in a step that does not belong there. -/
theorem Fits.act (h : s.Fits log) (hm : ∀ api, m.api = some api → Supplies log api)
    (hs : Step s m s') : m.act.Fits (typing log) := by
  cases hs with
  | call hapi _ => exact request_fits hapi (hm _ rfl)
  | dispatch hapi _ => exact event_fits hapi (hm _ rfl)
  | @commit flight fetcher w c client hf hev _ =>
      show c.event.Fits (typing log)
      rw [hev]
      exact commit_fits (h.futures flight fetcher hf) w
  | @timer key kind generation c client hev _ =>
      show c.event.Fits (typing log)
      rw [hev]
      intro k subId kev hon
      cases Event.on_inv hon with
      | timerFired => exact ⟨nofun, nofun, nofun, nofun, nofun⟩
  | exec _ => trivial
  | @own a client ha _ => cases a <;> trivial

/-- The futures grow by the one that the step spawns. -/
theorem Step.futures (hs : Step s m s') : s'.futures = s.futures ++ m.act.future?.toList := by
  cases hs with
  | exec _ => rfl
  | @own a client ha _ =>
      have hnone : a.future? = none := by cases a <;> first | rfl | cases ha
      show s.futures = s.futures ++ a.future?.toList
      rw [hnone]
      exact (List.append_nil _).symm
  | _ => exact (List.append_nil _).symm

theorem Fits.step (h : s.Fits log) (hi : s.client.shell.Inv) (hw : s.client.Waits)
    (hm : ∀ api, m.api = some api → Supplies log api) (hs : Step s m s') : s'.Fits log := by
  refine ⟨h.client.step hi hw (h.act hm hs) hs.client, ?_⟩
  intro flight fetcher hf
  rw [hs.futures] at hf
  rcases List.mem_append.mp hf with hold | hnew
  · exact h.futures flight fetcher hold
  · -- The effect was on its way, so its fetcher belongs under its key.
    have hstep := hs.client
    generalize m.act = a at hnew hstep
    rw [Option.mem_toList] at hnew
    cases a with
    | exec x =>
        have hfits := h.client.pending x hstep.pending
        cases x with
        | startFetch key incarnation seq fetcher =>
            cases hnew
            exact hfits
        | _ => cases hnew
    | _ => cases hnew

/-- **The store typing.** In every reachable state everything is where it belongs. -/
theorem Run.fits (h : Run defaults log s) : s.Fits log := by
  have hprefix : ∀ L : Log, (∀ r ∈ log, r ∈ L) → s.Fits L := by
    refine Trace.Run.history (P := fun log s => ∀ L : Log, (∀ r ∈ log, r ∈ L) → s.Fits L) h ?_ ?_
    · intro L _
      exact ⟨Client.fits_init _ defaults, nofun⟩
    · intro log s m s' hr ih hs L hL
      have hold : ∀ r ∈ log, r ∈ L := fun r hmem => hL r (List.mem_append_left _ hmem)
      have hnew : (⟨s, m, s'⟩ : Trace.Record Program Move) ∈ L := hL _ (by simp)
      refine (ih L hold).step (Run.client hr).inv (Run.client hr).waits ?_ hs
      intro api hapi k p hp
      exact ⟨_, hnew, api, hapi, hp⟩
  exact hprefix log fun r hr => hr

/-- A running fetch runs a future that was spawned for it. -/
theorem Run.running (h : Run defaults log s) {flight : Flight}
    (ht : .fetch flight ∈ s.client.tasks) : ∃ fetcher, (flight, fetcher) ∈ s.futures := by
  refine Trace.Run.invariant (I := fun s => ∀ flight, .fetch flight ∈ s.client.tasks →
    ∃ fetcher, (flight, fetcher) ∈ s.futures) h nofun ?_ flight ht
  intro s m s' ih hs flight ht
  rw [hs.futures]
  rcases hs.client.task ht with hold | ⟨x, hact, hx⟩
  · obtain ⟨fetcher, hf⟩ := ih flight hold
    exact ⟨fetcher, List.mem_append_left _ hf⟩
  · rw [hact]
    cases x <;> cases hx
    exact ⟨_, List.mem_append_right _ (List.mem_singleton.mpr rfl)⟩

/-! ## The theorem -/

/-- What is kept under a key has the types `(T, E)` of the key. -/
structure StoreTyped (s : Program) (t e : Ty) (key : QueryKey) : Prop where
  /-- The entry, with what its rollback slot saved. -/
  stored : ∀ en, s.client.shell.inner.entry key = some en →
    HasTypes t e en.data en.error ∧ ∀ o ∈ en.optimistic, HasTypes t e o.prevData o.prevError
  /-- The latest snapshot of every channel the key had. -/
  published : ∀ tx, tx.key = key →
    HasTypes t e (s.client.channels tx).value.data (s.client.channels tx).value.error
  /-- The snapshots on their way there. -/
  travelling : ∀ tx sn, tx.key = key → .notify tx sn ∈ s.client.pending →
    HasTypes t e sn.data sn.error
  /-- The fetchers of the fetches that are not spawned yet. -/
  requested : ∀ incarnation seq fetcher, .startFetch key incarnation seq fetcher ∈ s.client.pending →
    fetcher.HasTypes t e key
  /-- The commits in flight: each is a result of the future that was spawned for it. -/
  flying : ∀ flight, flight.key = key → .fetch flight ∈ s.client.tasks →
    (∃ fetcher, (flight, fetcher) ∈ s.futures) ∧
      ∀ fetcher, (flight, fetcher) ∈ s.futures → fetcher.HasTypes t e key

/-- No downcast and no comparator panics. -/
structure NeverPanics (log : Log) (s : Program) : Prop where
  /-- A `fetch()` that ends downcasts its result. -/
  fetch : ∀ n req result, s.client.callers n = .done req result →
    ∀ t e segments, req.key = QueryKey.new t e segments → ∃ x, typedResult t e result = .ok x
  /-- A handle downcasts the snapshot it reads. -/
  handle : ∀ r ∈ log, ∀ api c t e handle, r.label.api = some api → r.label.act = .dispatch c →
    api.handleTypes? = some (t, e) → c.handle? = some handle →
      ∃ state, handle.snapshot t e s.client = .ok state
  /-- The comparator of an entry is one that was supplied for its key. -/
  supplied : ∀ k en compare, s.client.shell.inner.entry k = some en → en.compare = some compare →
    ∃ p, Supplied log k p ∧ compare = p.answers
  /-- Whatever data a running fetch commits, every such comparator answers. -/
  compare : ∀ k en old flight fetcher w value, s.client.shell.inner.entry k = some en →
    en.data = some old → flight.key = k → (flight, fetcher) ∈ s.futures →
      fetcher k w = .ok value → ∀ p, Supplied log k p → p old value = .ok (p.answers old value)

/-- What belongs under a key has the types of the key. -/
theorem hasTypes_of_fits {t e : Ty} {segments : List Segment} {x : Content ErasedValue}
    (h : x.Fits (typing log) (QueryKey.new t e segments)) : HasTypes t e x.data x.error :=
  ⟨fun v hv => typing_data.mp (h.data v hv), fun v hv => typing_error.mp (h.error v hv)⟩

theorem Fits.storeTyped (h : s.Fits log) (hrun : ∀ flight, .fetch flight ∈ s.client.tasks →
    ∃ fetcher, (flight, fetcher) ∈ s.futures) (t e : Ty) (segments : List Segment) :
    s.StoreTyped t e (QueryKey.new t e segments) := by
  constructor
  case stored =>
    intro en hen
    have hfits := h.client.entries _ en hen
    refine ⟨hasTypes_of_fits hfits.content, fun o ho => ?_⟩
    exact hasTypes_of_fits (hfits.holds _ (.inr ⟨o, ho, rfl⟩))
  case published =>
    intro tx htx
    have hfits := h.client.channels tx
    rw [htx] at hfits
    exact hasTypes_of_fits hfits
  case travelling =>
    intro tx sn htx hx
    have hfits : sn.content.Fits (typing log) tx.key := h.client.pending _ hx
    rw [htx] at hfits
    exact hasTypes_of_fits hfits
  case requested =>
    intro incarnation seq fetcher hx
    exact h.client.pending _ hx t e segments rfl
  case flying =>
    intro flight hkey ht
    refine ⟨hrun flight ht, fun fetcher hf => ?_⟩
    have hfits := h.futures flight fetcher hf
    rw [hkey] at hfits
    exact hfits t e segments rfl

/-- A `fetch()` that ends finds the types it was called with. -/
theorem Fits.typedResult (h : s.Fits log) {n : Nat} {req : Request ErasedValue ErasedFetcher}
    {result : Except (FetchError ErasedValue) ErasedValue}
    (hdone : s.client.callers n = .done req result) {t e : Ty} {segments : List Segment}
    (hkey : req.key = QueryKey.new t e segments) : ∃ x, typedResult t e result = .ok x := by
  have hfits := h.client.results n req result hdone
  rw [hkey] at hfits
  match result, hfits with
  | .ok value, hfits =>
      obtain ⟨x, hx, -⟩ := downcastValue_ok (typing_data.mp hfits)
      exact ⟨.ok x, by rw [SwrCore.typedResult, hx, ok_bind]⟩
  | .error (.fetch error), hfits =>
      obtain ⟨x, hx, -⟩ := downcastValue_ok (typing_error.mp hfits)
      exact ⟨.error (.fetch x), by rw [SwrCore.typedResult, hx, ok_bind]⟩
  | .error .noFetcher, _ => exact ⟨_, rfl⟩
  | .error .miss, _ => exact ⟨_, rfl⟩

/-- The comparators that were supplied for a key answer on data of the key. -/
theorem Supplied.answers {k : QueryKey} {p : ErasedCompare} (h : Supplied log k p)
    {old value : ErasedValue} (hold : (typing log).data k old) (hvalue : (typing log).data k value) :
    p old value = .ok (p.answers old value) := by
  obtain ⟨r, -, api, -, hapi⟩ := h
  cases api <;> cases hapi
  case fetchEq => exact erasedEq_ok (typing_data.mp hold) (typing_data.mp hvalue)
  case subscribeEq => exact erasedEq_ok (typing_data.mp hold) (typing_data.mp hvalue)

/-- A handle watches a channel of the types it was made with. -/
theorem Step.handle_key (hi : s.client.shell.Inv) {api : Api}
    {c : Call ErasedValue ErasedFetcher} (hs : Step s ⟨some api, .dispatch c⟩ s') {t e : Ty}
    (ht : api.handleTypes? = some (t, e)) {handle : QueryHandle} (hc : c.handle? = some handle) :
    ∃ segments, handle.rx.key = QueryKey.new t e segments := by
  obtain ⟨⟨fetcher, compare, opts, hev⟩, hout⟩ := Call.handle_event hc
  have hshell := (hs.client.calls rfl).shell
  obtain ⟨-, en, hen, htx⟩ := hi.subscribed hshell hev hout
  have hrx : handle.rx.key = handle.key := by rw [← htx, (hi.step hshell).tx _ en hen]
  rw [hrx]
  cases hs with
  | dispatch hapi _ =>
      rw [hev] at hapi
      cases api <;> cases ht <;>
        simp only [Api.event?, Option.some.injEq, Event.subscribe.injEq] at hapi <;>
        exact ⟨_, hapi.1.symm⟩

/-- **Store typing.** In every run of a program whose calls are well typed, every key with an entry names
its types, everything kept under a key has these types in every reachable state, and no downcast and no
comparator panics. -/
theorem store_typing (h : Run defaults log s) :
    (∀ k en, s.client.shell.inner.entry k = some en → ∃ t e segments, k = QueryKey.new t e segments) ∧
      (∀ t e segments, s.StoreTyped t e (QueryKey.new t e segments)) ∧ NeverPanics log s := by
  have hfits := h.fits
  refine ⟨fun k en hen => (hfits.client.entries k en hen).key,
    hfits.storeTyped fun flight => h.running, ?_⟩
  constructor
  case fetch =>
    intro n req result hdone t e segments hkey
    exact hfits.typedResult hdone hkey
  case handle =>
    intro r hr api c t e handle hapi hact ht hc
    obtain ⟨xs, ys, -, hxs, hstep, -⟩ := h.of_mem hr
    obtain ⟨pre, ⟨api', act⟩, post⟩ := r
    obtain rfl : api' = some api := hapi
    obtain rfl : act = .dispatch c := hact
    obtain ⟨segments, hkey⟩ := hstep.handle_key (Run.client hxs).inv ht hc
    exact QueryState.fromSnapshot_ok
      ((hfits.storeTyped (fun flight => h.running) t e segments).published handle.rx hkey)
  case supplied =>
    intro k en compare hen hcompare
    exact (hfits.client.entries k en hen).compare compare hcompare
  case compare =>
    intro k en old flight fetcher w value hen hold hkey hf hvalue p hp
    subst hkey
    have hdata := (hfits.client.entries _ en hen).content.data old hold
    refine hp.answers hdata fun t e segments hkey => ?_
    exact (hfits.futures flight fetcher hf t e segments hkey w).1 value hvalue

end run

/-! ## Execution -/

/-- What the program and its environment choose at each step. -/
inductive Input where
  | call (api : Api)
  | dispatch (api : Api) (now : Instant) (scan : List QueryKey)
  /-- The future with this index ends. -/
  | commit (i : Nat) (w : Types.World) (now : Instant)
  | timer (key : QueryKey) (kind : TimerKind) (generation : Nat) (now : Instant)
  | exec (i : Nat)
  | read (n : Nat) (now : Instant)
  | look (n : Nat)
  | poke (n : Nat) (now : Instant)
  | wake (n : Nat)
  | closed (n : Nat)
  | drop (n : Nat)

/-- What an input comes down to: the call, and the input of the client. -/
def Input.client? (s : Program) :
    Input → Option (Option Api × Client.Input ErasedValue ErasedFetcher)
  | .call api => api.request?.map fun r => (some api, .call r.1 r.2)
  | .dispatch api now scan => api.event?.map fun ev => (some api, .dispatch ev now scan)
  | .commit i w now =>
    s.futures[i]?.map fun f => (none, .dispatch (f.1.commit (f.2 f.1.key w)) now [])
  | .timer key kind generation now => some (none, .dispatch (.timerFired key kind generation) now [])
  | .exec i => some (none, .exec i)
  | .read n now => some (none, .read n now)
  | .look n => some (none, .look n)
  | .poke n now => some (none, .poke n now)
  | .wake n => some (none, .wake n)
  | .closed n => some (none, .closed n)
  | .drop n => some (none, .drop n)

section exec

variable [Platform]

/-- One step, if it is possible. -/
def exec1 (s : Program) (i : Input) : Option (Move × Program) :=
  (i.client? s).bind fun j => (s.client.exec1 j.2).map fun r =>
    (⟨j.1, r.1⟩, ⟨r.2, s.futures ++ r.1.future?.toList⟩)

/-- A list of steps; the log of the run and the last state. -/
def exec (s : Program) (inputs : List Input) : Option (Log × Program) :=
  Trace.exec exec1 s inputs

theorem step_of_exec1 {s s' : Program} {i : Input} {m : Move} (h : s.exec1 i = some (m, s')) :
    Step s m s' := by
  obtain ⟨⟨api?, j⟩, hj, h⟩ := Option.bind_eq_some_iff.mp h
  obtain ⟨⟨a, client⟩, hex, h⟩ := Option.map_eq_some_iff.mp h
  cases h
  have hs := Client.step_of_exec1 hex
  have ha := Client.labels_of_exec1 hex
  -- Only the execution of an effect spawns a future.
  have hown : ∀ a : Client.Act ErasedValue ErasedFetcher, a.future? = none →
      s.futures ++ a.future?.toList = s.futures := by
    intro a hnone
    rw [hnone]
    exact List.append_nil _
  cases i with
  | call api =>
      obtain ⟨⟨n, req⟩, hapi, heq⟩ := Option.map_eq_some_iff.mp hj
      cases heq
      obtain rfl : a = .call n req := ha
      rw [hown _ rfl]
      exact .call hapi hs
  | dispatch api now scan =>
      obtain ⟨ev, hapi, heq⟩ := Option.map_eq_some_iff.mp hj
      cases heq
      obtain ⟨c, rfl, rfl⟩ := ha
      rw [hown _ rfl]
      exact .dispatch hapi hs
  | commit i w now =>
      obtain ⟨⟨flight, fetcher⟩, hf, heq⟩ := Option.map_eq_some_iff.mp hj
      cases heq
      obtain ⟨c, rfl, hev⟩ := ha
      rw [hown _ rfl]
      exact .commit (List.mem_of_getElem? hf) hev hs
  | timer key kind generation now =>
      cases hj
      obtain ⟨c, rfl, hev⟩ := ha
      rw [hown _ rfl]
      exact .timer hev hs
  | exec i =>
      cases hj
      obtain ⟨x, rfl⟩ := ha
      exact .exec hs
  | read n now =>
      cases hj
      obtain ⟨c, rfl⟩ := ha
      rw [hown _ rfl]
      exact .own rfl hs
  | poke n now =>
      cases hj
      obtain ⟨c, rfl⟩ := ha
      rw [hown _ rfl]
      exact .own rfl hs
  | _ =>
      cases hj
      cases ha
      rw [hown _ rfl]
      exact .own rfl hs

/-- An execution is a run. -/
theorem run_of_exec {s s' : Program} {inputs : List Input} {log : Log}
    (h : s.exec inputs = some (log, s')) : Trace.Run Step s log s' := by
  have hstep : ∀ (s : Program) i m s', exec1 s i = some (m, s') → Step s m s' :=
    fun _ _ _ _ h => step_of_exec1 h
  exact Trace.run_of_exec hstep h

end exec

end Program

/-! ## A program with two types under equal segments -/

section witness

/-- The types of the example. -/
inductive ExampleTy where
  | nat
  | flag
  | pair (t e : ExampleTy)

namespace ExampleTy

/-- What the types hold. -/
@[reducible] def El : ExampleTy → Type
  | nat => Nat
  | flag => Bool
  | pair t e => t.El × e.El

/-- Their type ids. -/
def typeId : ExampleTy → Nat
  | nat => 0
  | flag => 1
  | pair t e => Nat.pair t.typeId e.typeId + 2

theorem typeId_injective : Function.Injective typeId := by
  intro t
  induction t with
  | nat =>
      intro t' h
      cases t' with
      | nat => rfl
      | _ => simp [typeId] at h
  | flag =>
      intro t' h
      cases t' with
      | flag => rfl
      | _ => simp [typeId] at h
  | pair t e iht ihe =>
      intro t' h
      cases t' with
      | nat => simp [typeId] at h
      | flag => simp [typeId] at h
      | pair t' e' =>
          have hpair : Nat.pair t.typeId e.typeId = Nat.pair t'.typeId e'.typeId := by
            simpa [typeId] using h
          obtain ⟨ht, he⟩ := Nat.pair_eq_pair.mp hpair
          rw [iht ht, ihe he]

end ExampleTy

/-- The result of a future is what it is told. -/
@[reducible] def exampleTypes : Types where
  Ty := ExampleTy
  El := ExampleTy.El
  pair := .pair
  pair_injective _ _ _ _ h := ExampleTy.pair.inj h
  typeId := ExampleTy.typeId
  typeId_injective := ExampleTy.typeId_injective
  World := Nat

namespace Program

attribute [local instance] Shell.exampleClock exampleTypes

/-- A number whose errors are flags. -/
def countKey : QueryKey := QueryKey.new ExampleTy.nat ExampleTy.flag [.bool true]

/-- A flag whose errors are numbers, under the same segments. -/
def flagKey : QueryKey := QueryKey.new ExampleTy.flag ExampleTy.nat [.bool true]

/-- A fetcher that returns what it is told. -/
def told : Fetcher (List Segment) ExampleTy.nat ExampleTy.flag := fun _ w => .ok w

/-- Equal segments carry two types: one is fetched and compared, the other set, and both are invalidated
by a prefix and revalidated. -/
def twoTypes : List Input :=
  [.call (.fetchEq 0 ExampleTy.nat ExampleTy.flag [.bool true] told .ensureFresh
     Nat.beq),
   .read 0 0, .exec 0, .exec 0,
   .dispatch (.set ExampleTy.flag ExampleTy.nat [.bool true] true) 1 [], .exec 1,
   .dispatch (.subscribe ExampleTy.nat ExampleTy.flag [.bool true] told .default) 1 [],
   .commit 0 (5 : Nat) 2, .exec 3, .look 0,
   .dispatch (.invalidate [.bool true]) 3 [countKey, flagKey], .exec 4,
   .dispatch (.revalidateKey flagKey) 4 [],
   .commit 1 (5 : Nat) 5]

/-- What the subscription of the run shows. -/
def shownCount (s : Program) : Option Nat :=
  match QueryHandle.snapshot ExampleTy.nat ExampleTy.flag ⟨⟨countKey, 0⟩, countKey, 0⟩ s.client with
  | .ok state => state.data
  | .error _ => none

/-- The key whose value the caller of the run got. -/
def answeredKey (s : Program) : Option QueryKey :=
  match s.client.callers 0 with
  | .done req _ => some req.key
  | _ => none

theorem store_typing_example : ∃ (log : Log) (s : Program), Run .default log s ∧ log.length = 14 ∧
    shownCount s = some 5 ∧
    (∃ req result x, s.client.callers 0 = .done req result ∧
      typedResult ExampleTy.nat ExampleTy.flag result = .ok x) ∧
    (∃ en, s.client.shell.inner.entry flagKey = some en ∧ en.invalidated = true ∧
      ∀ v ∈ en.data, v.ty = ExampleTy.flag) ∧
    s.StoreTyped ExampleTy.nat ExampleTy.flag countKey ∧ NeverPanics log s := by
  have hfacts : ((init .default).exec twoTypes).map (fun r => (r.1.length, shownCount r.2,
      answeredKey r.2, (r.2.client.shell.inner.entry flagKey).map EntryCore.invalidated)) =
        some (14, some 5, some countKey, some true) := by decide +kernel
  obtain ⟨⟨log, s⟩, hex, hfacts⟩ := Option.map_eq_some_iff.mp hfacts
  have hrun : Run .default log s := run_of_exec hex
  simp only [Prod.mk.injEq] at hfacts
  obtain ⟨hlength, hshown, hanswered, hflag⟩ := hfacts
  obtain ⟨-, htyped, hnever⟩ := store_typing hrun
  obtain ⟨en, hen, hinvalidated⟩ := Option.map_eq_some_iff.mp hflag
  refine ⟨log, s, hrun, hlength, hshown, ?_, ⟨en, hen, hinvalidated, ?_⟩, htyped _ _ _, hnever⟩
  · unfold answeredKey at hanswered
    split at hanswered
    · next req result hdone =>
        obtain ⟨x, hx⟩ := hnever.fetch 0 req result hdone _ _ _ (Option.some.inj hanswered)
        exact ⟨req, result, x, hdone, hx⟩
    · cases hanswered
  · exact ((htyped ExampleTy.flag ExampleTy.nat [.bool true]).stored en hen).1.1

end Program

end witness

end SwrCore
