import SwrCore.Client.Progress
import SwrCore.Host.Run

/-!
# Ownership keeps the contract of the state machine

The books of the state machine are the values that the program holds: a subscription for each `QueryHandle`,
a token for each `mutate()` future. So whatever the program calls and drops, in any order, the event it
dispatches is one that the state machine is prepared for, and nothing panics. The program is one in the
sense of `Host.Run`: nothing that the cache stores owns a handle or a guard of it, or calls it when it is
dropped or compared, since that would happen under the lock of the cache.

* `Host.Holds` — the books and the values, as long as `Shared` lives; `Host.Sound` — with a run of the
  client behind them.
* `Host.Sound.send`, `Host.Sound.dropHandle`, `Host.Sound.mutate`, … — each call keeps them, and ends well.
* `Host.contract` — the law over every program.
-/

set_option linter.unusedSectionVars false

namespace SwrCore

variable {V F : Type}

namespace Host

/-! ## The books -/

/-- What the books list for a handle. -/
def entryOf (handle : QueryHandle) : QueryKey × Nat := (handle.key, handle.subId)

/-- The handle watches the channel of the entry that is stored under its key. -/
def Watches (s : Client V F) (handle : QueryHandle) : Prop :=
  ∃ e, s.shell.inner.entry handle.key = some e ∧ e.tx = handle.rx

/-- The books of the state machine are the handles and the guards that the program holds. -/
structure Books (s : Host V F) : Prop where
  handles : s.client.shell.handles.Perm (s.handles.map entryOf)
  tokens : s.client.shell.tokens.Perm (s.guards.filterMap MutationGuard.token)
  watched : ∀ h ∈ s.handles, Watches s.client h

/-- What the program holds is accounted for. -/
structure Holds (s : Host V F) : Prop where
  books : s.alive = true → s.Books
  /-- A guard loses its token when it is dropped. -/
  armed : ∀ g ∈ s.guards, g.token.isSome
  strong : 0 < s.clients → s.alive = true
  borrowed : s.clients = 0 → s.Unborrowed

/-- The client is one that its runs reach, and what the program holds is accounted for. -/
structure Sound [Platform] (defaults : QueryOptions) (s : Host V F) : Prop where
  reached : ∃ log, Client.Run defaults log s.client
  holds : s.Holds

/-- A step that keeps the books, and is no more than a step of the client. -/
structure Keeps [Platform] (s s' : Host V F) : Prop where
  holds : s'.Holds
  client : s'.client = s.client ∨ ∃ a, s.client.Step a s'.client

theorem Sound.next [Platform] {defaults : QueryOptions} {s s' : Host V F} (h : Sound defaults s)
    (hk : s.Keeps s') : Sound defaults s' := by
  obtain ⟨log, hr⟩ := h.reached
  refine ⟨?_, hk.holds⟩
  rcases hk.client with hsame | ⟨a, hs⟩
  · exact ⟨log, hsame ▸ hr⟩
  · exact ⟨_, hr.snoc hs⟩

theorem sound_init [Platform] (defaults : QueryOptions) :
    Sound defaults (init defaults : Host V F) where
  reached := ⟨[], .nil⟩
  holds :=
    { books := fun _ => ⟨.nil, .nil, fun _ h => absurd h List.not_mem_nil⟩
      armed := fun _ h => absurd h List.not_mem_nil
      strong := fun _ => rfl
      borrowed := fun h => absurd h Nat.one_ne_zero }

/-! ## One call of `handle` -/

section call

variable [Platform] {defaults : QueryOptions} {s : Host V F}

theorem Sound.inv (h : Sound defaults s) : s.client.shell.Inv := by
  obtain ⟨log, hr⟩ := h.reached
  exact hr.inv

/-- An event that the state machine is prepared for does not panic. -/
theorem Sound.handled (h : Sound defaults s) {ev : Event V F} (hen : s.client.shell.Enabled ev)
    (now : Instant) {scan : List QueryKey} (hscan : ev.scans = true → s.client.shell.inner.IsScan scan) :
    ∃ c shell, c.event = ev ∧ s.client.shell.Step c shell ∧ ∀ t : Host V F, t.client = s.client →
      t.dispatch ev now scan =
        .ok (c.out.outcome, { t with client := s.client.called shell c }) := by
  obtain ⟨inner, out, hhandle, hstep⟩ := h.inv.step_exists hen now hscan
  refine ⟨_, _, rfl, hstep, fun t ht => ?_⟩
  rw [Host.dispatch, ht, hhandle]

/-- The same, of an event that scans nothing. -/
theorem Sound.handledAlone (h : Sound defaults s) (ev : Event V F)
    (hen : s.client.shell.Enabled ev) (hscans : ev.scans = false) (now : Instant) :
    ∃ c shell, c.event = ev ∧ s.client.shell.Step c shell ∧ ∀ t : Host V F, t.client = s.client →
      t.dispatch ev now [] =
        .ok (c.out.outcome, { t with client := s.client.called shell c }) :=
  h.handled hen now fun hs => by
    rw [hscans] at hs
    cases hs

/-- A handle that was there still watches its entry: a subscription pins it. -/
theorem Books.watches (h : s.Books) (hi : s.client.shell.Inv) {c : Call V F} (client : Client V F)
    (hstep : s.client.shell.Step c client.shell) {handle : QueryHandle} (hmem : handle ∈ s.handles) :
    Watches client handle := by
  obtain ⟨e, he, htx⟩ := h.watched handle hmem
  have hbooked : (handle.key, handle.subId) ∈ s.client.shell.handles :=
    h.handles.mem_iff.mpr (List.mem_map_of_mem hmem)
  obtain ⟨e₀, he₀, hq⟩ := hi.pinned (u := .handle handle.key handle.subId) hbooked
  obtain rfl : e = e₀ := Option.some.inj (he.symm.trans he₀)
  obtain ⟨e', he', hinc⟩ := hi.remains hstep he hq
  refine ⟨e', he', ?_⟩
  rw [(hi.step hstep).tx _ _ he', hinc, ← htx, hi.tx _ _ he]

/-- The books after a call that subscribes nobody and begins and settles nothing. -/
theorem Books.neutral (h : s.Books) (hi : s.client.shell.Inv) {c : Call V F} {client : Client V F}
    (hstep : s.client.shell.Step c client.shell) (hneutral : c.event.accounts = false) :
    Books { s with client := client } := by
  obtain ⟨hhandles, htokens⟩ :=
    Call.of_neutral hneutral s.client.shell.handles s.client.shell.tokens
  refine ⟨?_, ?_, fun handle hmem => h.watches hi client hstep hmem⟩
  · have hsame : client.shell.handles = s.client.shell.handles :=
      (Shell.next_handles hstep).trans hhandles
    exact hsame ▸ h.handles
  · have hsame : client.shell.tokens = s.client.shell.tokens :=
      (Shell.next_tokens hstep).trans htokens
    exact hsame ▸ h.tokens

/-- A call of `handle` that nobody's books mention. -/
theorem Sound.called (h : Sound defaults s) {c : Call V F} {shell : Shell V F}
    (hstep : s.client.shell.Step c shell) (hneutral : c.event.accounts = false)
    (htask : ∀ task, c.event.task? = some task → task ∈ s.client.tasks) :
    s.Keeps { s with client := s.client.called shell c } where
  holds :=
    { books := fun ha => (h.holds.books ha).neutral h.inv hstep hneutral
      armed := h.holds.armed
      strong := h.holds.strong
      borrowed := h.holds.borrowed }
  client := .inr ⟨_, .dispatch hstep htask⟩

/-- A call whose event nobody's books mention. -/
theorem Sound.send (h : Sound defaults s) {ev : Event V F} (hen : s.client.shell.Enabled ev)
    (hneutral : ev.accounts = false)
    (htask : ∀ task, ev.task? = some task → task ∈ s.client.tasks) (now : Instant)
    {scan : List QueryKey} (hscan : ev.scans = true → s.client.shell.inner.IsScan scan) :
    ∃ s', s.send ev now scan = .ok s' ∧ s.Keeps s' := by
  obtain ⟨c, shell, rfl, hstep, hdispatch⟩ := h.handled hen now hscan
  refine ⟨_, ?_, h.called hstep hneutral htask⟩
  rw [Host.send, hdispatch s rfl]
  rfl

/-- A task or a handle that only holds a weak reference. -/
theorem Sound.dispatchWeak (h : Sound defaults s) (ev : Event V F)
    (hen : s.client.shell.Enabled ev) (hneutral : ev.accounts = false) (hscan : ev.scans = false)
    (htask : ∀ task, ev.task? = some task → task ∈ s.client.tasks) (now : Instant) :
    ∃ s', s.dispatchWeak ev now = .ok s' ∧ s.Keeps s' := by
  unfold Host.dispatchWeak
  split_ifs with ha
  · exact h.send hen hneutral htask now fun h => by
      rw [hscan] at h
      cases h
  · exact ⟨s, rfl, h.holds, .inl rfl⟩

end call

/-! ## Subscriptions and mutations -/

section accounts

variable [Platform] {defaults : QueryOptions} {s : Host V F} {c : Call V F} {client : Client V F}

/-- One subscription leaves the books with its handle. -/
theorem Books.unsubscribe (h : s.Books) (hi : s.client.shell.Inv)
    (hstep : s.client.shell.Step c client.shell) {handle : QueryHandle} (hmem : handle ∈ s.handles)
    (hev : c.event = handle.drop) :
    Books { s with client := client, handles := s.handles.erase handle } := by
  obtain ⟨hhandles, htokens⟩ :=
    Call.unsubscribe s.client.shell.handles s.client.shell.tokens hev
  refine ⟨?_, ?_, fun other hother => h.watches hi client hstep (List.mem_of_mem_erase hother)⟩
  · have hsame : client.shell.handles = s.client.shell.handles.erase (entryOf handle) :=
      (Shell.next_handles hstep).trans hhandles
    have hheld := (h.handles.trans ((List.perm_cons_erase hmem).map entryOf)).erase (entryOf handle)
    rw [List.map_cons, List.erase_cons_head] at hheld
    exact hsame ▸ hheld
  · have hsame : client.shell.tokens = s.client.shell.tokens :=
      (Shell.next_tokens hstep).trans htokens
    exact hsame ▸ h.tokens

/-- One mutation leaves the books with its guard. -/
theorem Books.settled (h : s.Books) (hi : s.client.shell.Inv)
    (hstep : s.client.shell.Step c client.shell) {guard : MutationGuard} (hmem : guard ∈ s.guards)
    {token : MutationToken} (htoken : guard.token = some token)
    (hbooks : c.handles s.client.shell.handles = s.client.shell.handles ∧
      c.tokens s.client.shell.tokens = s.client.shell.tokens.erase token) :
    Books { s with client := client, guards := s.guards.erase guard } := by
  refine ⟨?_, ?_, fun other hother => h.watches hi client hstep hother⟩
  · have hsame : client.shell.handles = s.client.shell.handles :=
      (Shell.next_handles hstep).trans hbooks.1
    exact hsame ▸ h.handles
  · have hsame : client.shell.tokens = s.client.shell.tokens.erase token :=
      (Shell.next_tokens hstep).trans hbooks.2
    have hheld := (h.tokens.trans
      ((List.perm_cons_erase hmem).filterMap MutationGuard.token)).erase token
    rw [List.filterMap_cons_some htoken, List.erase_cons_head] at hheld
    exact hsame ▸ hheld

/-- A subscription is answered with a handle, which joins the books. -/
theorem Sound.subscribe (h : Sound defaults s) (ha : s.alive = true) (key : QueryKey)
    (fetcher : Option F) (compare : Option (Compare V)) (opts : QueryOptions) (now : Instant) :
    ∃ s', s.subscribe key fetcher compare opts now = .ok s' ∧ s.Keeps s' := by
  obtain ⟨log, hr⟩ := h.reached
  obtain ⟨c, shell, hev, hstep, hdispatch⟩ :=
    h.handledAlone (.subscribe key fetcher compare opts) trivial rfl now
  obtain ⟨hhandles, htokens⟩ := h.inv.subscribe_outcome hstep hev
  obtain ⟨subId, rx, hout⟩ : ∃ subId rx, c.out.outcome = .subscribed subId rx := by
    -- Any other outcome would leave the books as they are.
    cases hout : c.out.outcome with
    | subscribed subId rx => exact ⟨subId, rx, rfl⟩
    | _ => simp [Call.handles, hev, hout] at hhandles
  have hjoined : c.handles s.client.shell.handles = s.client.shell.handles ++ [(key, subId)] := by
    simp only [Call.handles, hev, hout]
  have hbooks := h.holds.books ha
  refine ⟨_, by rw [Host.subscribe, hdispatch s rfl, hout], ?_, .inr ⟨_, .dispatch hstep ?_⟩⟩
  · refine ⟨fun _ => ⟨?_, ?_, ?_⟩, h.holds.armed, h.holds.strong, h.holds.borrowed⟩
    · have hsame : shell.handles = s.client.shell.handles ++ [(key, subId)] :=
        (Shell.next_handles hstep).trans hjoined
      have hperm := hbooks.handles.append_right [(key, subId)]
      rw [List.map_append]
      exact hsame ▸ hperm
    · have hsame : shell.tokens = s.client.shell.tokens :=
        (Shell.next_tokens hstep).trans htokens
      exact hsame ▸ hbooks.tokens
    · intro handle hmem
      rcases List.mem_append.mp hmem with hold | hnew
      · exact hbooks.watches h.inv (s.client.called shell c) hstep hold
      · cases List.mem_singleton.mp hnew
        exact (h.inv.subscribed hstep hev hout).2
  · intro task htask
    rw [hev] at htask
    cases htask

/-- A dropped handle gives its subscription back. -/
theorem Sound.dropHandle (h : Sound defaults s) {handle : QueryHandle} (hmem : handle ∈ s.handles)
    (now : Instant) : ∃ s', s.dropHandle handle now = .ok s' ∧ s.Keeps s' := by
  obtain ⟨log, hr⟩ := h.reached
  unfold Host.dropHandle Host.dispatchWeak
  split_ifs with ha
  · have hbooks := h.holds.books ha
    have hbooked : (handle.key, handle.subId) ∈ s.client.shell.handles :=
      hbooks.handles.mem_iff.mpr (List.mem_map_of_mem hmem)
    obtain ⟨c, shell, hev, hstep, hdispatch⟩ :=
      h.handledAlone handle.drop hbooked rfl now
    have hsent := hdispatch { s with handles := s.handles.erase handle } rfl
    refine ⟨_, by rw [Host.send, hsent]; rfl, ?_, .inr ⟨_, .dispatch hstep ?_⟩⟩
    · exact ⟨fun _ => hbooks.unsubscribe h.inv hstep hmem hev, h.holds.armed, h.holds.strong,
        h.holds.borrowed⟩
    · intro task htask
      rw [hev] at htask
      cases htask
  · exact ⟨_, rfl, ⟨fun ha' => absurd ha' ha, h.holds.armed, h.holds.strong, h.holds.borrowed⟩,
      .inl rfl⟩

/-- A mutation is answered with a token, which joins the books with its guard. -/
theorem Sound.mutate (h : Sound defaults s) (ha : s.alive = true) (hc : 0 < s.clients)
    (key : QueryKey) (optimistic : Option V) (flags : MutateFlags) (now : Instant) :
    ∃ s', s.mutate key optimistic flags now = .ok s' ∧ s.Keeps s' := by
  obtain ⟨log, hr⟩ := h.reached
  obtain ⟨c, shell, hev, hstep, hdispatch⟩ :=
    h.handledAlone (.mutateBegin key optimistic) trivial rfl now
  obtain ⟨e, -, hhandles, htokens⟩ := h.inv.begin_outcome hstep hev
  obtain ⟨token, hout⟩ : ∃ token, c.out.outcome = .mutation token := by
    cases hout : c.out.outcome with
    | mutation token => exact ⟨token, rfl⟩
    | _ => simp [Call.tokens, hev, hout] at htokens
  have hjoined : c.tokens s.client.shell.tokens = s.client.shell.tokens ++ [token] := by
    simp only [Call.tokens, hev, hout]
  have hbooks := h.holds.books ha
  refine ⟨_, by rw [Host.mutate, hdispatch s rfl, hout], ?_, .inr ⟨_, .dispatch hstep ?_⟩⟩
  · refine ⟨fun _ => ⟨?_, ?_, ?_⟩, ?_, h.holds.strong, fun hnone => ?_⟩
    · have hsame : shell.handles = s.client.shell.handles :=
        (Shell.next_handles hstep).trans hhandles
      exact hsame ▸ hbooks.handles
    · have hsame : shell.tokens = s.client.shell.tokens ++ [token] :=
        (Shell.next_tokens hstep).trans hjoined
      have hperm := hbooks.tokens.append_right [token]
      rw [List.filterMap_append]
      exact hsame ▸ hperm
    · exact fun handle hmem => hbooks.watches h.inv (s.client.called shell c) hstep hmem
    · intro guard hmem
      rcases List.mem_append.mp hmem with hold | hnew
      · exact h.holds.armed guard hold
      · cases List.mem_singleton.mp hnew
        rfl
    · have hzero : s.clients = 0 := hnone
      omega
  · intro task htask
    rw [hev] at htask
    cases htask

/-- The end of a mutation, by a commit or by an abort, settles its token. -/
theorem Sound.settled (h : Sound defaults s) (ha : s.alive = true) {guard : MutationGuard}
    (hmem : guard ∈ s.guards) {token : MutationToken} (htoken : guard.token = some token)
    {ev : Event V F} (hsettles : ev.settles token) (now : Instant) :
    ∃ s', Host.send { s with guards := s.guards.erase guard } ev now [] = .ok s' ∧
      s.Keeps s' := by
  obtain ⟨log, hr⟩ := h.reached
  have hbooks := h.holds.books ha
  have hbooked : token ∈ s.client.shell.tokens :=
    hbooks.tokens.mem_iff.mpr (List.mem_filterMap.mpr ⟨guard, hmem, htoken⟩)
  have hevent : s.client.shell.Enabled ev ∧ ev.task? = none ∧ ev.scans = false := by
    cases ev <;> cases hsettles <;> exact ⟨hbooked, rfl, rfl⟩
  obtain ⟨c, shell, hev, hstep, hdispatch⟩ := h.handledAlone ev hevent.1 hevent.2.2 now
  have hcall : c.handles s.client.shell.handles = s.client.shell.handles ∧
      c.tokens s.client.shell.tokens = s.client.shell.tokens.erase token := by
    cases ev <;> cases hsettles
    case mutateCommit.refl result flags =>
      exact Call.mutateCommit s.client.shell.handles s.client.shell.tokens hev
    case mutateAbort.refl flags =>
      exact Call.mutateAbort s.client.shell.handles s.client.shell.tokens hev
  have hsent := hdispatch { s with guards := s.guards.erase guard } rfl
  refine ⟨_, by rw [Host.send, hsent]; rfl, ?_, .inr ⟨_, .dispatch hstep ?_⟩⟩
  · refine ⟨fun _ => hbooks.settled h.inv hstep hmem htoken hcall,
      fun other hother => h.holds.armed other (List.mem_of_mem_erase hother), h.holds.strong,
      fun hzero => ?_⟩
    obtain ⟨hnone, -⟩ := h.holds.borrowed hzero
    rw [hnone] at hmem
    cases hmem
  · intro task htask
    rw [hev, hevent.2.1] at htask
    cases htask

end accounts

/-! ## Calls of `fetch()` -/

section callers

variable [Platform] {defaults : QueryOptions} {s : Host V F} {n : Nat}

/-- The books do not mention the callers. -/
theorem Books.same (h : s.Books) {client : Client V F} (hshell : client.shell = s.client.shell) :
    Books { s with client := client } :=
  ⟨hshell ▸ h.handles, hshell ▸ h.tokens, fun handle hmem => by
    obtain ⟨e, he, htx⟩ := h.watched handle hmem
    exact ⟨e, by rw [hshell]; exact he, htx⟩⟩

/-- Somebody's future borrows a client. -/
theorem Holds.busy (h : s.Holds) {req : Request V F}
    (hn : (s.client.callers n).underWay? = some req) : s.clients ≠ 0 := by
  intro hzero
  rw [(h.borrowed hzero).2 n] at hn
  cases hn

/-- A caller goes on without a call of `handle`. -/
theorem Sound.goes (h : Sound defaults s) {a : Client.Act V F} {client : Client V F}
    (hs : s.client.Step a client) (hshell : client.shell = s.client.shell)
    (hborrowed : s.clients = 0 → Unborrowed { s with client := client }) :
    s.Keeps { s with client := client } where
  holds := ⟨fun ha => (h.holds.books ha).same hshell, h.holds.armed, h.holds.strong, hborrowed⟩
  client := .inr ⟨a, hs⟩

/-- A caller goes on with a call of `handle`. -/
theorem Sound.asks (h : Sound defaults s) {a : Client.Act V F} {c : Call V F} {client : Client V F}
    (hs : s.client.Step a client) (hstep : s.client.shell.Step c client.shell)
    (hneutral : c.event.accounts = false) {req : Request V F}
    (hn : (s.client.callers n).underWay? = some req) :
    s.Keeps { s with client := client } where
  holds := ⟨fun ha => (h.holds.books ha).neutral h.inv hstep hneutral, h.holds.armed,
    h.holds.strong, fun hzero => absurd hzero (h.holds.busy hn)⟩
  client := .inr ⟨a, hs⟩

/-- The steps of a call of `fetch()`: its `Read` does not panic. -/
theorem Sound.read (h : Sound defaults s) {req : Request V F}
    (hn : s.client.callers n = .reading req) (now : Instant) :
    ∃ s', s.read n req now = .ok s' ∧ s.Keeps s' := by
  obtain ⟨c, shell, hev, hstep, hdispatch⟩ :=
    h.handledAlone (req.event s.client.shell.inner.defaults) trivial rfl now
  obtain ⟨ro, hout, -⟩ := h.inv.read_outcome hstep hev
  obtain ⟨p, hp⟩ : ∃ p, pass (.read ro) = .ok p := by
    cases ro <;> exact ⟨_, rfl⟩
  have hstep' : s.client.Step (.read n c)
      ((s.client.called shell c).moved n (req.passed (.ok p))) := by
    have hread := Client.Step.read hn hstep hev
    rw [hout, hp] at hread
    exact hread
  refine ⟨_, ?_, h.asks hstep' (c := c) hstep (by rw [hev]; rfl) (by rw [hn]; rfl)⟩
  rw [Host.read, hdispatch s rfl, hout]
  simp only [hp]

/-- Nor does its look at the channel. -/
theorem Sound.look (h : Sound defaults s) {w : Waiter V F} (hn : s.client.callers n = .looking w) :
    ∃ s', s.look n w = .ok s' ∧ s.Keeps s' := by
  obtain ⟨log, hr⟩ := h.reached
  have hsound := hr.visible_sound w.rx _ (.inl rfl)
  obtain ⟨x, hx⟩ := look_of_sound hsound (hr.target_pos n w (by rw [hn]; rfl))
  refine ⟨_, ?_, h.goes (.look hn) rfl fun hzero => ?_⟩
  · rw [Host.look, hx]
  · have hbusy : (s.client.callers n).underWay? = some w.req := by rw [hn]; rfl
    exact absurd hzero (h.holds.busy hbusy)

/-- Nor does the poke. -/
theorem Sound.poke (h : Sound defaults s) {w : Waiter V F} {seen : Watch V}
    (hn : s.client.callers n = .poking w seen) (now : Instant) :
    ∃ s', s.poke n w seen now = .ok s' ∧ s.Keeps s' := by
  obtain ⟨c, shell, hev, hstep, hdispatch⟩ :=
    h.handledAlone (.revalidateRequested w.req.key) trivial rfl now
  refine ⟨_, ?_, h.asks (.poke hn hstep hev) (c := c) hstep (by rw [hev]; rfl) (by rw [hn]; rfl)⟩
  rw [Host.poke, Host.send, hdispatch s rfl]
  rfl

end callers

/-! ## Every step -/

section law

variable [Platform] {defaults : QueryOptions} {s : Host V F}

/-- Another number of clients. -/
theorem Holds.recount (h : s.Holds) {clients : Nat} (hstrong : 0 < clients → s.alive = true)
    (hborrowed : clients = 0 → s.Unborrowed) : Holds { s with clients := clients } where
  books ha := ⟨(h.books ha).handles, (h.books ha).tokens, (h.books ha).watched⟩
  armed := h.armed
  strong := hstrong
  borrowed := hborrowed

/-- The end of a task hands in what the task was asked for. -/
theorem Sound.ends (h : Sound defaults s) {task : Task} (ht : task ∈ s.client.tasks)
    {ev : Event V F} (hev : ev.task? = some task) (now : Instant) :
    ∃ s', s.dispatchWeak ev now = .ok s' ∧ s.Keeps s' := by
  obtain ⟨log, hr⟩ := h.reached
  have hen := (hr.handed task (.inr ht)).enabled hev
  have hkind : ev.accounts = false ∧ ev.scans = false := by
    cases ev <;> cases hev <;> exact ⟨rfl, rfl⟩
  refine h.dispatchWeak ev hen hkind.1 hkind.2 (fun task' htask => ?_) now
  cases hev.symm.trans htask
  exact ht

/-- A `mutate()` future has its token, and borrows a client, so the cache lives. -/
theorem Holds.guarded (h : Holds s) {guard : MutationGuard} (hg : guard ∈ s.guards) :
    ∃ token, guard.token = some token ∧ s.alive = true := by
  obtain ⟨token, htoken⟩ := Option.isSome_iff_exists.mp (h.armed guard hg)
  refine ⟨token, htoken, h.strong (Nat.pos_of_ne_zero fun hzero => ?_)⟩
  rw [(h.borrowed hzero).1] at hg
  cases hg

/-- **Whatever the program does next, it does not panic**, and the books are kept. -/
theorem Sound.step (h : Sound defaults s) {m : Move V F} {r : Except HostPanic (Host V F)}
    (hs : Step s m r) : ∃ s', r = .ok s' ∧ s.Keeps s' := by
  have hplain : ∀ ev : Event V F, s.client.shell.Enabled ev → ev.accounts = false →
      ev.task? = none → ∀ now scan, (ev.scans = true → s.client.shell.inner.IsScan scan) →
        ∃ s', s.send ev now scan = .ok s' ∧ s.Keeps s' := by
    intro ev hen hneutral hnone now scan hscan
    refine h.send hen hneutral (fun task htask => ?_) now hscan
    rw [hnone] at htask
    cases htask
  have hheld := h.holds
  have hcount : ∀ {clients : Nat}, Holds { s with clients := clients } →
      s.Keeps { s with clients := clients } := fun h => ⟨h, .inl rfl⟩
  cases hs with
  | clone hc =>
      exact ⟨_, rfl, hcount (hheld.recount (fun _ => hheld.strong hc)
        fun hzero => absurd hzero (Nat.succ_ne_zero _))⟩
  | upgrade =>
      refine ⟨_, rfl, ?_⟩
      unfold Host.upgrade
      split_ifs with ha
      · exact hcount (hheld.recount (fun _ => ha) fun hzero => absurd hzero (Nat.succ_ne_zero _))
      · exact ⟨hheld, .inl rfl⟩
  | dropClient hc hb =>
      exact ⟨_, rfl, hcount (hheld.recount (fun _ => hheld.strong hc) fun hzero => hb (by omega))⟩
  | free hc hp =>
      have hheld' : Holds { s with alive := false } :=
        ⟨fun ha => (by cases ha), hheld.armed, fun hpos => absurd hc (Nat.ne_of_gt hpos),
          hheld.borrowed⟩
      exact ⟨_, rfl, hheld', .inl rfl⟩
  | subscribe hc => exact h.subscribe (hheld.strong hc) ..
  | @revalidateHandle handle now hh =>
      exact h.dispatchWeak (.revalidateRequested handle.key) trivial rfl rfl
        (fun task htask => by cases htask) now
  | dropHandle hh => exact h.dropHandle hh _
  | mutate hc => exact h.mutate (hheld.strong hc) hc ..
  | @settle guard result now hg =>
      obtain ⟨token, htoken, ha⟩ := hheld.guarded hg
      rw [Host.settle, htoken]
      have hsettles : (Event.mutateCommit token result guard.flags : Event V F).settles token := rfl
      exact h.settled ha hg htoken hsettles now
  | @abandon guard now hg =>
      obtain ⟨token, htoken, ha⟩ := hheld.guarded hg
      rw [Host.abandon, htoken]
      simp only [Host.dispatchWeak]
      rw [if_pos ha]
      have hsettles : (Event.mutateAbort token guard.flags : Event V F).settles token := rfl
      exact h.settled ha hg htoken hsettles now
  | @set key value now hc =>
      exact hplain (.mutateSet key value) trivial rfl rfl _ _ fun hs => by cases hs
  | @invalidate pre now scan hc hscan =>
      exact hplain (.invalidate pre) trivial rfl rfl _ _ fun _ => hscan
  | @revalidate key now hc =>
      exact hplain (.revalidateRequested key) trivial rfl rfl _ _ fun hs => by cases hs
  | @broadcast ev now scan hc hscan =>
      exact hplain (.broadcast ev) trivial rfl rfl _ _ fun _ => hscan
  | call hc hn => exact ⟨_, rfl, h.goes (.call hn) rfl fun hzero => by omega⟩
  | read hn => exact h.read hn _
  | look hn => exact h.look hn
  | poke hn => exact h.poke hn _
  | @wake n w seen hn he =>
      refine ⟨_, rfl, h.goes (.wake hn he) rfl fun hzero => absurd hzero ?_⟩
      have hbusy : (s.client.callers n).underWay? = some w.req := by rw [hn]; rfl
      exact hheld.busy hbusy
  | @closed n w seen hn he ho =>
      refine ⟨_, rfl, h.goes (.closed hn he ho) rfl fun hzero => absurd hzero ?_⟩
      have hbusy : (s.client.callers n).underWay? = some w.req := by rw [hn]; rfl
      exact hheld.busy hbusy
  | @cancel n =>
      exact ⟨_, rfl, h.goes .drop rfl fun hzero =>
        (Rearranged.cancelled n).unborrowed rfl (hheld.borrowed hzero)⟩
  | exec hb => exact ⟨_, rfl, h.goes (.exec hb) rfl hheld.borrowed⟩
  | @land flight result now ht =>
      exact h.ends ht (by cases result <;> rfl) now
  | fire ht => exact h.ends ht rfl _

/-- **Every step** of the program keeps the books. -/
theorem Sound.moves (h : Sound defaults s) {m : Move V F} {s' : Host V F} (hs : s.Moves m s') :
    Sound defaults s' := by
  obtain ⟨s'', heq, hkeeps⟩ := h.step hs
  cases heq
  exact h.next hkeeps

/-- Along every run. -/
theorem Run.sound {log : Log V F} (h : Run defaults log s) : Sound defaults s :=
  h.invariant (I := Sound defaults) (sound_init defaults) fun _ _ _ hJ hs => hJ.moves hs

/-- A handle whose entry is stored is not closed. -/
theorem Watches.not_closed (h : Sound defaults s) (ha : s.alive = true) {handle : QueryHandle}
    (hw : Watches s.client handle) (seen : Watch V) : s.changed handle seen ≠ .closed := by
  obtain ⟨e, he, htx⟩ := hw
  have hkey : handle.rx.key = handle.key := by rw [← htx, h.inv.tx _ _ he]
  have hopen : s.client.isOpen handle.rx = true := by
    rw [Client.isOpen, hkey, he, Bool.or_eq_true]
    exact .inl (decide_eq_true htx)
  rw [Host.changed, if_pos ha, QueryHandle.changed, hopen, if_pos rfl]
  split_ifs
  · intro h
    cases h
  · intro h
    cases h

/-- **What the program holds is what the state machine counts.** Take any program that calls the public
interface, drops what it was handed whenever it likes, and lets tasks end in any order, with any results,
provided that nothing the cache stores, be it a value, an error, a fetcher or a comparator, owns a handle or
a guard of the cache or calls it when it is dropped or compared. No step of it panics, and its client is one
that the runs of the client reach: whatever it dispatches, the state machine is prepared for. As long as
`Shared` lives, an entry counts as many subscribers as there are `QueryHandle`s for its key, and as many
active mutations as there are `mutate()` futures; every handle watches the channel of the stored entry, so
that its `changed()` does not report `Closed`, and every future has its token, and an entry to settle it on.
-/
theorem contract {log : Log V F} (h : Run defaults log s) :
    (∀ m r, Step s m r → ∃ s', r = .ok s') ∧
    (∃ clientLog, Client.Run defaults clientLog s.client) ∧
    (∀ g ∈ s.guards, g.token.isSome) ∧
    (s.alive = true →
      (∀ k e, s.client.shell.inner.entry k = some e →
        e.subscribers = s.handles.countP (fun handle => decide (handle.key = k)) ∧
        e.mutationActive =
          s.guards.countP fun g => g.token.any fun t => decide (t.key = k)) ∧
      (∀ handle ∈ s.handles, Watches s.client handle ∧ ∀ seen, s.changed handle seen ≠ .closed) ∧
      ∀ g ∈ s.guards, ∀ t, g.token = some t → (s.client.shell.inner.entry t.key).isSome) := by
  have hsound := h.sound
  refine ⟨?_, hsound.reached, hsound.holds.armed, fun ha => ⟨?_, ?_, ?_⟩⟩
  · intro m r hs
    obtain ⟨s', hr, -⟩ := hsound.step hs
    exact ⟨s', hr⟩
  · intro k e he
    have hbooks := hsound.holds.books ha
    have howned := hsound.inv.owned k e he
    constructor
    · rw [howned.subscribers, hbooks.handles.countP_eq, List.countP_map]
      rfl
    · rw [howned.mutations, hbooks.tokens.countP_eq, List.countP_filterMap]
      refine List.countP_congr fun g _ => ?_
      cases g.token <;> rfl
  · intro handle hmem
    have hw := (hsound.holds.books ha).watched handle hmem
    exact ⟨hw, hw.not_closed hsound ha⟩
  · intro g hg t ht
    refine hsound.inv.token_entry t ?_
    exact (hsound.holds.books ha).tokens.mem_iff.mpr (List.mem_filterMap.mpr ⟨g, hg, ht⟩)

end law

section witness

attribute [local instance] Shell.exampleClock

/-- A program that subscribes to a key. -/
theorem subscribed : ∃ s : Host Nat Unit,
    (init .default : Host Nat Unit).subscribe ⟨0, []⟩ (some ()) none .default 0 = .ok s ∧
      s.handles.map QueryHandle.key = [⟨0, []⟩] ∧ s.alive = true := by
  have hfacts : ((init .default : Host Nat Unit).subscribe ⟨0, []⟩ (some ()) none .default 0).toOption.map
      (fun s => (s.handles.map QueryHandle.key, s.alive)) = some ([⟨0, []⟩], true) := by
    decide +kernel
  cases hs : (init .default : Host Nat Unit).subscribe ⟨0, []⟩ (some ()) none .default 0 with
  | error panic =>
      rw [hs] at hfacts
      cases hfacts
  | ok s =>
      rw [hs, Except.toOption, Option.map_some, Option.some_inj, Prod.mk.injEq] at hfacts
      exact ⟨s, rfl, hfacts⟩

theorem contract_example : ∃ (log : Log Nat Unit) (s : Host Nat Unit) (e : EntryCore Nat Unit),
    Run .default log s ∧ s.client.shell.inner.entry ⟨0, []⟩ = some e ∧ e.subscribers = 1 := by
  obtain ⟨s, hs, hkeys, halive⟩ := subscribed
  have hstep : Moves (init .default) (.subscribe ⟨0, []⟩ (some ()) none .default 0) s := by
    have hsub : Step (init .default : Host Nat Unit) (.subscribe ⟨0, []⟩ (some ()) none .default 0) _ :=
      .subscribe Nat.one_pos
    rw [hs] at hsub
    exact hsub
  have hrun : Run .default _ s := Trace.Run.single hstep
  obtain ⟨-, -, -, hholds⟩ := contract hrun
  obtain ⟨hcounts, hwatched, -⟩ := hholds halive
  obtain ⟨handle, hhandle⟩ : ∃ handle, s.handles = [handle] := by
    obtain ⟨handle, rest, hcons, -, hrest⟩ := List.map_eq_cons_iff.mp hkeys
    rw [List.map_eq_nil_iff.mp hrest] at hcons
    exact ⟨handle, hcons⟩
  rw [hhandle] at hkeys hcounts hwatched
  have hkey : handle.key = ⟨0, []⟩ := (List.cons.inj hkeys).1
  obtain ⟨⟨e, he, -⟩, -⟩ := hwatched handle (List.mem_singleton_self _)
  rw [hkey] at he
  refine ⟨_, s, e, hrun, he, ?_⟩
  rw [(hcounts _ e he).1, List.countP_singleton, hkey]
  rfl

end witness

end Host

end SwrCore
