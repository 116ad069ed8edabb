import SwrCore.Host.Ownership

/-!
# Browser events for several caches

A web page can have several caches. What the browser reports, that the window got the focus, the document
became visible or the network came back, goes to all of them that are attached, through one set of DOM
listeners that is there as long as somebody is attached.

* `DomEvent`, `DomEvent.forwarded` — the listeners, and what they make of an event.
* `Registry` — who is attached; `Registry.attach`, `Registry.detach`.
* `Page`, `Page.Step` — the caches of a page, the programs that use them, and the registry.
* `Page.Sound`, `Page.Balanced` — the invariant: who holds how many `SwrClient`s.
* `Page.Followed` — one cache in one step of the page.
* `Page.events_delivered` — the law over every run.

A cache is a number. `broadcast_all` copies the attached clients before it calls the first of them, and a
call may attach, detach, or let the browser report another event before the next.

The programs are those of `Host.Run`, and the same is assumed of the registry as of the caches:
`Registry::detach` drops a client while `REGISTRY` is mutably borrowed, and with the last client of a cache
goes what the cache stores. So nothing that a cache stores owns a `WebEventSource`, or attaches or detaches
when it is dropped: it would borrow `REGISTRY` again, and panic.
-/

set_option linter.unusedSectionVars false

namespace SwrCore

variable {V F : Type}

/-! ## DOM events -/

/-- The DOM events that are listened to. Source: `swr-runtime-web/src/lib.rs`, `register_dom_listeners`. -/
inductive DomEvent where
  | focus
  | online
  /-- Whether the document is visible now. -/
  | visibilitychange (visible : Bool)
deriving DecidableEq

/-- What the listener broadcasts. Source: `swr-runtime-web/src/lib.rs`, `register_dom_listeners`. -/
def DomEvent.forwarded : DomEvent → Option SwrEvent
  | .focus => some .focus
  | .online => some .online
  | .visibilitychange visible => if visible then some .focus else none

/-- The assertion sites of the event source. -/
inductive WebPanic where
  /-- A panic of the client. -/
  | host (panic : HostPanic)
  /-- `browser environment: window missing` -/
  | windowMissing
  /-- `browser environment: document missing` -/
  | documentMissing
deriving DecidableEq

/-- What `web_sys` finds where the program runs. -/
structure Environment where
  window : Bool
  document : Bool

/-- Whether the DOM listeners can be registered. Source: `swr-runtime-web/src/lib.rs`,
`register_dom_listeners`. -/
def registerDomListeners (env : Environment) : Except WebPanic Unit :=
  if env.window then
    if env.document then .ok () else .error .documentMissing
  else .error .windowMissing

/-! ## The registry -/

/-- Source: `swr-runtime-web/src/lib.rs`, `Registry`. -/
structure Registry where
  nextId : Nat
  /-- The attachments, and the cache that the attached client is of. -/
  clients : List (Nat × Nat)
  /-- Whether the DOM listeners are registered. -/
  listeners : Bool

namespace Registry

/-- Source: `#[derive(Default)]`. -/
def default : Registry := ⟨0, [], false⟩

/-- Attaching a client of a cache. Source: `swr-runtime-web/src/lib.rs`, `Registry::attach`. -/
def attach (r : Registry) (env : Environment) (cache : Nat) : Except WebPanic (Nat × Registry) :=
  match if r.listeners then .ok () else registerDomListeners env with
  | .error panic => .error panic
  | .ok () => .ok (r.nextId, ⟨r.nextId + 1, r.clients ++ [(r.nextId, cache)], true⟩)

/-- Source: `swr-runtime-web/src/lib.rs`, `Registry::detach`. -/
def detach (r : Registry) (id : Nat) : Registry where
  nextId := r.nextId
  clients := r.clients.filter fun c => decide (c.1 ≠ id)
  listeners := if (r.clients.filter fun c => decide (c.1 ≠ id)).isEmpty then false else r.listeners

/-- The caches that are attached, one for each attachment. -/
def caches (r : Registry) : List Nat := r.clients.map Prod.snd

/-- What holds of the registry, and of the `WebEventSource`s that there are. -/
structure Registered (r : Registry) (sources : List Nat) : Prop where
  listeners : r.listeners = true ↔ r.clients ≠ []
  ids : r.clients.map Prod.fst = sources
  nodup : sources.Nodup
  fresh : ∀ id ∈ sources, id < r.nextId

theorem registered_default : default.Registered [] where
  listeners := by simp [default]
  ids := rfl
  nodup := List.nodup_nil
  fresh id h := absurd h List.not_mem_nil

variable {r r' : Registry} {sources : List Nat}

theorem caches_attach {env : Environment} {cache id : Nat}
    (ha : r.attach env cache = .ok (id, r')) : r'.caches = r.caches ++ [cache] := by
  unfold Registry.attach at ha
  split at ha
  · cases ha
  · cases ha
    exact List.map_append ..

theorem Registered.attach (h : r.Registered sources) {env : Environment} {cache id : Nat}
    (ha : r.attach env cache = .ok (id, r')) : r'.Registered (sources ++ [id]) := by
  unfold Registry.attach at ha
  split at ha
  · cases ha
  · cases ha
    refine ⟨by simp, by rw [List.map_append, h.ids]; rfl, ?_, fun id hid => ?_⟩
    · refine List.nodup_append.mpr ⟨h.nodup, List.nodup_singleton _, fun id hid next hnext => ?_⟩
      rw [List.mem_singleton.mp hnext]
      exact Nat.ne_of_lt (h.fresh id hid)
    · rcases List.mem_append.mp hid with hid | hid
      · exact Nat.lt_succ_of_lt (h.fresh id hid)
      · rw [List.mem_singleton.mp hid]
        exact Nat.lt_succ_self _

theorem Registered.detach (h : r.Registered sources) (id : Nat) :
    (r.detach id).Registered (sources.erase id) where
  listeners := by
    unfold Registry.detach
    split_ifs with hempty
    · exact iff_of_false not_false fun hrest => hrest (List.isEmpty_iff.mp hempty)
    · have hrest := fun hnil => hempty (List.isEmpty_iff.mpr hnil)
      have hclients : r.clients ≠ [] := fun hnil => hrest (by rw [hnil]; rfl)
      exact iff_of_true (h.listeners.mpr hclients) hrest
  ids := by
    rw [h.nodup.erase_eq_filter, ← h.ids, List.filter_map]
    refine congrArg _ (List.filter_congr fun c _ => ?_)
    by_cases hc : c.1 = id <;> simp [hc]
  nodup := h.nodup.erase id
  fresh other hmem := h.fresh other (List.mem_of_mem_erase hmem)

end Registry

/-! ## A page -/

/-- The caches of a page, and the registry that all of them share. -/
structure Page (V F : Type) where
  hosts : Nat → Host V F
  registry : Registry
  /-- The `WebEventSource`s that the program holds. -/
  sources : List Nat
  /-- The calls of `broadcast_all` that are under way, the innermost first: the event, and the caches of the
  clients that it still has to call. -/
  frames : List (SwrEvent × List Nat)

namespace Page

/-- A page whose caches were just built. -/
def init (defaults : Nat → QueryOptions) : Page V F :=
  ⟨fun i => .init (defaults i), .default, [], []⟩

/-- How many of the `SwrClient`s of a cache belong to the registry, or to a call of `broadcast_all`. -/
def kept (p : Page V F) (i : Nat) : Nat :=
  p.registry.caches.count i + (p.frames.map fun frame => frame.2.count i).sum

/-- How many belong to the program. -/
def own (p : Page V F) (i : Nat) : Nat := (p.hosts i).clients - p.kept i

/-- A cache with so many clients more, `SwrClient::clone`. -/
def cloned (s : Host V F) (n : Nat) : Host V F := { s with clients := s.clients + n }

/-- A cache with so many clients less, `impl Drop for SwrClient`. -/
def dropped (s : Host V F) (n : Nat) : Host V F := { s with clients := s.clients - n }

/-- What becomes of the page when something becomes of one cache. -/
def update (p : Page V F) (i : Nat) (r : Except HostPanic (Host V F)) :
    Except WebPanic (Page V F) :=
  match r with
  | .error panic => .error (.host panic)
  | .ok s => .ok { p with hosts := Function.update p.hosts i s }

/-- Source: `swr-runtime-web/src/lib.rs`, `WebEventSource::attach`. -/
def attach (p : Page V F) (env : Environment) (i : Nat) : Except WebPanic (Page V F) :=
  match p.registry.attach env i with
  | .error panic => .error panic
  | .ok (id, registry) =>
    .ok { p with
      hosts := Function.update p.hosts i (cloned (p.hosts i) 1)
      registry := registry
      sources := p.sources ++ [id] }

/-- The client goes under the borrow of the registry. If it is the last one its cache is freed, and what the
cache stored owns no other `WebEventSource`. Source: `swr-runtime-web/src/lib.rs`, `impl Drop for
WebEventSource`. -/
def detach (p : Page V F) (id : Nat) : Page V F :=
  { p with
    hosts := fun i =>
      dropped (p.hosts i) ((p.registry.clients.filter fun c => decide (c.1 = id)).map Prod.snd |>.count i)
    registry := p.registry.detach id
    sources := p.sources.erase id }

/-- A listener is called: `broadcast_all` copies the attached clients. Source:
`swr-runtime-web/src/lib.rs`, `register_dom_listeners`, `broadcast_all`. -/
def report (p : Page V F) (ev : DomEvent) : Page V F :=
  match ev.forwarded with
  | none => p
  | some ev =>
    { p with
      hosts := fun i => cloned (p.hosts i) (p.registry.caches.count i)
      frames := (ev, p.registry.caches) :: p.frames }

/-- One round of its loop: the client is called, and dropped. Source: `swr-runtime-web/src/lib.rs`,
`broadcast_all`. -/
def send [Platform] (p : Page V F) (ev : SwrEvent) (i : Nat) (rest : List Nat)
    (frames : List (SwrEvent × List Nat)) (now : Instant) (scan : List QueryKey) :
    Except WebPanic (Page V F) :=
  { p with frames := (ev, rest) :: frames }.update i
    (((p.hosts i).send (.broadcast ev) now scan).map fun s => dropped s 1)

/-! ## Steps -/

/-- What happens next. -/
inductive Move (V F : Type) where
  /-- The program that uses a cache, or a task of it. -/
  | host (i : Nat) (m : Host.Move V F)
  | attach (i : Nat)
  | detach (id : Nat)
  | report (ev : DomEvent)
  | send (now : Instant) (scan : List QueryKey)
  /-- `broadcast_all` returns. -/
  | finish

/-- One step, and how it ends. The program uses and drops its own clients only, and futures borrow from
these. -/
inductive Step [Platform] (env : Environment) :
    Page V F → Move V F → Except WebPanic (Page V F) → Prop
  | host {p i m r} (hs : (p.hosts i).Step m r) (hown : m.strong = true → 0 < p.own i)
      (hlast : m = .dropClient → p.own i = 1 → (p.hosts i).Unborrowed) :
      Step env p (.host i m) (p.update i r)
  | attach {p i} (hown : 0 < p.own i) : Step env p (.attach i) (p.attach env i)
  | detach {p id} (hid : id ∈ p.sources) : Step env p (.detach id) (.ok (p.detach id))
  | report {p ev} (hl : p.registry.listeners = true) : Step env p (.report ev) (.ok (p.report ev))
  | send {p ev i rest frames now scan} (hf : p.frames = (ev, i :: rest) :: frames)
      (hscan : (p.hosts i).client.shell.inner.IsScan scan) :
      Step env p (.send now scan) (p.send ev i rest frames now scan)
  | finish {p ev frames} (hf : p.frames = (ev, []) :: frames) :
      Step env p .finish (.ok { p with frames := frames })

theorem update_ok {p p' : Page V F} {i : Nat} {r : Except HostPanic (Host V F)} :
    p.update i r = .ok p' ↔
      ∃ s, r = .ok s ∧ p' = { p with hosts := Function.update p.hosts i s } := by
  unfold Page.update
  split
  · simp
  · simp [eq_comm]

/-- A step that does not panic. -/
def Moves [Platform] (env : Environment) (p : Page V F) (m : Move V F) (p' : Page V F) : Prop :=
  Step env p m (.ok p')

/-- The log of a run of a page. -/
abbrev Log (V F : Type) := List (Trace.Record (Page V F) (Move V F))

/-- Runs of a page. -/
abbrev Run [Platform] (env : Environment) (defaults : Nat → QueryOptions) :
    Log V F → Page V F → Prop :=
  Trace.Run (Moves env) (init defaults)

/-! ## What the caches hear -/

/-- The event that a call of `broadcast_all` sends to the cache in this step. -/
def sent (i : Nat) (r : Trace.Record (Page V F) (Move V F)) : Option SwrEvent :=
  match r.label, r.pre.frames with
  | .send _ _, (ev, j :: _) :: _ => if j = i then some ev else none
  | _, _ => none

/-- The event that a step of a program broadcasts. -/
def broadcast? : Host.Move V F → Option SwrEvent
  | .broadcast ev _ _ => some ev
  | _ => none

/-- The event that the cache hears in this step, from the browser or from its program. -/
def heard (i : Nat) (r : Trace.Record (Page V F) (Move V F)) : Option SwrEvent :=
  match r.label with
  | .host j m => if j = i then broadcast? m else none
  | _ => sent i r

/-- How many attachments of the cache there are for this event when a listener is called for it. -/
def reported (ev : SwrEvent) (i : Nat) (r : Trace.Record (Page V F) (Move V F)) : Nat :=
  match r.label with
  | .report dom => if dom.forwarded = some ev then r.pre.registry.caches.count i else 0
  | _ => 0

/-- How often the cache is still to be called with this event. -/
def owed (ev : SwrEvent) (i : Nat) (p : Page V F) : Nat :=
  (p.frames.map fun frame => if frame.1 = ev then frame.2.count i else 0).sum

/-! ## Who holds how many clients -/

/-- What holds of a page. -/
structure Sound [Platform] (defaults : Nat → QueryOptions) (p : Page V F) : Prop where
  hosts : ∀ i, Host.Sound (defaults i) (p.hosts i)
  kept : ∀ i, p.kept i ≤ (p.hosts i).clients
  /-- Futures borrow from clients of the program. -/
  borrowed : ∀ i, (p.hosts i).clients ≤ p.kept i → (p.hosts i).Unborrowed
  registered : p.registry.Registered p.sources

theorem sound_init [Platform] (defaults : Nat → QueryOptions) :
    Sound defaults (init defaults : Page V F) where
  hosts i := Host.sound_init (defaults i)
  kept _ := Nat.zero_le _
  borrowed _ h := absurd h Nat.one_pos.not_ge
  registered := Registry.registered_default

section clients

variable [Platform] {s : Host V F}

/-- Clients that are copied are copied one by one. -/
theorem run_cloned (n : Nat) (h : 0 < n → 0 < s.clients) :
    ∃ log, Trace.Run Host.Moves s log (cloned s n) ∧ ∀ r ∈ log, r.label = .clone := by
  induction n with
  | zero => exact ⟨[], .nil, fun r hr => absurd hr List.not_mem_nil⟩
  | succ n ih =>
      have hpos := h (Nat.succ_pos n)
      obtain ⟨log, hr, hlabels⟩ := ih fun _ => hpos
      refine ⟨_, hr.snoc (.clone (Nat.lt_of_lt_of_le hpos (Nat.le_add_right _ _))), fun r hmem => ?_⟩
      rcases List.mem_append.mp hmem with hmem | hmem
      · exact hlabels r hmem
      · rw [List.mem_singleton.mp hmem]

/-- Clients that are dropped are dropped one by one. -/
theorem run_dropped (n : Nat) (h : n ≤ s.clients) (hlast : s.clients = n → s.Unborrowed) :
    ∃ log, Trace.Run Host.Moves s log (dropped s n) ∧ ∀ r ∈ log, r.label = .dropClient := by
  induction n with
  | zero => exact ⟨[], .nil, fun r hr => absurd hr List.not_mem_nil⟩
  | succ n ih =>
      obtain ⟨log, hr, hlabels⟩ := ih (by omega) fun heq => by omega
      have hpos : 0 < (dropped s n).clients := Nat.sub_pos_of_lt h
      have hb : (dropped s n).clients = 1 → (dropped s n).Unborrowed := by
        intro hone
        have hone : s.clients - n = 1 := hone
        exact hlast (by omega)
      refine ⟨_, hr.snoc (.dropClient hpos hb), fun r hmem => ?_⟩
      rcases List.mem_append.mp hmem with hmem | hmem
      · exact hlabels r hmem
      · rw [List.mem_singleton.mp hmem]

end clients

section step

variable [Platform] {env : Environment} {defaults : Nat → QueryOptions} {p p' : Page V F} {m : Move V F}

/-- The client that is attached is kept from then on. -/
theorem kept_attach {j id : Nat} {registry : Registry}
    (ha : p.registry.attach env j = .ok (id, registry)) (i : Nat) :
    ({ p with registry := registry } : Page V F).kept i = p.kept i + if j = i then 1 else 0 := by
  simp only [kept, Registry.caches_attach ha, List.count_append, List.count_singleton, beq_iff_eq]
  omega

/-- The clients that a detachment drops were kept. -/
theorem kept_detach (id i : Nat) : (p.detach id).kept i +
    ((p.registry.clients.filter fun c => decide (c.1 = id)).map Prod.snd).count i = p.kept i := by
  have hcount : ∀ l : List (Nat × Nat),
      ((l.filter fun c => decide (c.1 ≠ id)).map Prod.snd).count i +
        ((l.filter fun c => decide (c.1 = id)).map Prod.snd).count i = (l.map Prod.snd).count i := by
    intro l
    induction l with
    | nil => rfl
    | cons c l ih =>
        simp only [ne_eq] at ih
        by_cases hc : c.1 = id
        · simp only [List.filter_cons, hc, ne_eq, not_true_eq_false, decide_false, decide_true,
            Bool.false_eq_true, if_false, if_true, List.map_cons, List.count_cons]
          omega
        · simp only [List.filter_cons, hc, ne_eq, not_false_eq_true, decide_true, decide_false,
            Bool.false_eq_true, if_false, if_true, List.map_cons, List.count_cons]
          omega
  have hsame := hcount p.registry.clients
  show ((p.registry.clients.filter fun c => decide (c.1 ≠ id)).map Prod.snd).count i +
    (p.frames.map fun frame => frame.2.count i).sum + _ =
      (p.registry.clients.map Prod.snd).count i + _
  omega

/-- The clients of the page that the next call is made by. -/
theorem kept_send {ev : SwrEvent} {i : Nat} {rest : List Nat} {frames : List (SwrEvent × List Nat)}
    (hf : p.frames = (ev, i :: rest) :: frames) (j : Nat) :
    ({ p with frames := (ev, rest) :: frames } : Page V F).kept j + (if i = j then 1 else 0) =
      p.kept j := by
  simp only [kept, hf, List.map_cons, List.sum_cons, List.count_cons, beq_iff_eq]
  omega

/-- A call of `broadcast_all` goes one client on. -/
theorem sent_of_send {s : Host V F} {ev : SwrEvent} {i : Nat} {now : Instant} {scan : List QueryKey}
    (hsend : ((p.hosts i).send (.broadcast ev) now scan).map (fun s => dropped s 1) = .ok s) :
    ∃ s₁, (p.hosts i).send (.broadcast ev) now scan = .ok s₁ ∧ s = dropped s₁ 1 := by
  cases hs : (p.hosts i).send (.broadcast ev) now scan with
  | error panic =>
      rw [hs] at hsend
      cases hsend
  | ok s₁ =>
      rw [hs] at hsend
      cases hsend
      exact ⟨s₁, rfl, rfl⟩

/-- The client of the page whose turn it is exists, and if it is the last one, no future borrows it. -/
theorem Sound.turn (h : Sound defaults p) {ev : SwrEvent} {i : Nat} {rest : List Nat}
    {frames : List (SwrEvent × List Nat)} (hf : p.frames = (ev, i :: rest) :: frames) :
    0 < (p.hosts i).clients ∧ ((p.hosts i).clients = 1 → (p.hosts i).Unborrowed) := by
  have hkept := kept_send hf i
  rw [if_pos rfl] at hkept
  have hle := h.kept i
  exact ⟨by omega, fun hone => h.borrowed i (by omega)⟩

/-- To the cache, its turn is a call of `broadcast` and the drop of a client. -/
theorem Sound.run_send (h : Sound defaults p) {ev : SwrEvent} {i : Nat} {rest : List Nat}
    {frames : List (SwrEvent × List Nat)} {now : Instant} {scan : List QueryKey} {s : Host V F}
    (hf : p.frames = (ev, i :: rest) :: frames)
    (hscan : (p.hosts i).client.shell.inner.IsScan scan)
    (hs : (p.hosts i).send (.broadcast ev) now scan = .ok s) :
    Trace.Run Host.Moves (p.hosts i)
      ([⟨p.hosts i, .broadcast ev now scan, s⟩] ++ [⟨s, .dropClient, dropped s 1⟩]) (dropped s 1) := by
  obtain ⟨hpos, hlast⟩ := h.turn hf
  have hbroadcast : Host.Step (p.hosts i) (.broadcast ev now scan) _ := .broadcast hpos hscan
  rw [hs] at hbroadcast
  have hframe := Host.send_frame hs
  have hclients : s.clients = (p.hosts i).clients := by
    obtain ⟨client, -, rfl⟩ := hframe
    rfl
  have hdrop : Host.Step s .dropClient (.ok (dropped s 1)) :=
    .dropClient (hclients ▸ hpos) fun hone => (hlast (hclients ▸ hone)).same hframe
  exact (Trace.Run.single hbroadcast).snoc hdrop

/-- In a step of the page, the cache makes moves of its own, and hears what it hears. -/
def Followed (p : Page V F) (m : Move V F) (p' : Page V F) (i : Nat) : Prop :=
  ∃ log, Trace.Run Host.Moves (p.hosts i) log (p'.hosts i) ∧
    log.filterMap (fun r => broadcast? r.label) = (heard i ⟨p, m, p'⟩).toList

/-- A cache that is left alone hears nothing. -/
theorem Followed.stay {i : Nat} (hsame : p'.hosts i = p.hosts i) (hnone : heard i ⟨p, m, p'⟩ = none) :
    Followed p m p' i := by
  unfold Followed
  rw [hsame, hnone]
  exact ⟨[], .nil, rfl⟩

/-- A cache whose clients are only copied, or only dropped, hears nothing either. -/
theorem Followed.quiet {i : Nat} {log : Host.Log V F} {label : Host.Move V F}
    (hrun : Trace.Run Host.Moves (p.hosts i) log (p'.hosts i)) (hlabels : ∀ r ∈ log, r.label = label)
    (hlabel : broadcast? label = none) (hnone : heard i ⟨p, m, p'⟩ = none) : Followed p m p' i := by
  refine ⟨log, hrun, ?_⟩
  rw [hnone]
  refine List.filterMap_eq_nil_iff.mpr fun r hr => ?_
  rw [hlabels r hr, hlabel]

/-- A cache whose program makes a move hears what that move broadcasts. -/
theorem followed_host {j : Nat} {move : Host.Move V F} {s : Host V F}
    (hmove : Host.Step (p.hosts j) move (.ok s)) (i : Nat) :
    Followed p (.host j move) { p with hosts := Function.update p.hosts j s } i := by
  by_cases hj : j = i
  · subst hj
    refine ⟨[⟨p.hosts j, move, s⟩], ?_, ?_⟩
    · show Trace.Run Host.Moves _ _ (Function.update p.hosts j s j)
      rw [Function.update_self]
      exact Trace.Run.single hmove
    · cases hb : broadcast? move <;> simp [heard, hb]
  · exact .stay (Function.update_of_ne (Ne.symm hj) _ _) (if_neg hj)

/-- A cache that is attached gets a client. -/
theorem followed_attach {j : Nat} (hown : 0 < p.own j) (ha : p.attach env j = .ok p') (i : Nat) :
    Followed p (.attach j) p' i := by
  unfold Page.attach at ha
  split at ha
  · cases ha
  · cases ha
    by_cases hj : j = i
    · subst hj
      have hpos : 0 < (p.hosts j).clients := Nat.lt_of_lt_of_le hown (Nat.sub_le _ _)
      obtain ⟨log, hrun, hlabels⟩ := run_cloned 1 fun _ => hpos
      have hstep : Trace.Run Host.Moves (p.hosts j) log
          (Function.update p.hosts j (cloned (p.hosts j) 1) j) := by
        rw [Function.update_self]
        exact hrun
      exact .quiet hstep hlabels rfl rfl
    · exact .stay (Function.update_of_ne (Ne.symm hj) _ _) rfl

/-- One that is detached loses the clients of that source. -/
theorem Sound.followed_detach (h : Sound defaults p) (id i : Nat) :
    Followed p (.detach id) (p.detach id) i := by
  have hkept := kept_detach (p := p) id i
  have hle := h.kept i
  obtain ⟨log, hrun, hlabels⟩ := run_dropped (s := p.hosts i)
    ((p.registry.clients.filter fun c => decide (c.1 = id)).map Prod.snd |>.count i)
    (by omega) fun heq => h.borrowed i (by omega)
  exact .quiet hrun hlabels rfl rfl

/-- A listener that is called copies the clients of all caches. -/
theorem Sound.followed_report (h : Sound defaults p) (ev : DomEvent) (i : Nat) :
    Followed p (.report ev) (p.report ev) i := by
  cases hev : ev.forwarded with
  | none => exact .stay (by rw [Page.report, hev]) rfl
  | some swr =>
      have hpos : 0 < p.registry.caches.count i → 0 < (p.hosts i).clients := fun hcount =>
        Nat.lt_of_lt_of_le hcount ((Nat.le_add_right _ _).trans (h.kept i))
      obtain ⟨log, hrun, hlabels⟩ := run_cloned (p.registry.caches.count i) hpos
      have hstep : Trace.Run Host.Moves (p.hosts i) log ((p.report ev).hosts i) := by
        rw [Page.report, hev]
        exact hrun
      exact .quiet hstep hlabels rfl rfl

/-- The cache whose turn it is hears the event. -/
theorem Sound.followed_send (h : Sound defaults p) {ev : SwrEvent} {j : Nat} {rest : List Nat}
    {frames : List (SwrEvent × List Nat)} {now : Instant} {scan : List QueryKey}
    (hf : p.frames = (ev, j :: rest) :: frames) (hscan : (p.hosts j).client.shell.inner.IsScan scan)
    (hs : p.send ev j rest frames now scan = .ok p') (i : Nat) : Followed p (.send now scan) p' i := by
  obtain ⟨s, hsend, rfl⟩ := update_ok.mp hs
  by_cases hj : j = i
  · subst hj
    obtain ⟨s₁, hs₁, rfl⟩ := sent_of_send hsend
    refine ⟨[⟨p.hosts j, .broadcast ev now scan, s₁⟩] ++ [⟨s₁, .dropClient, dropped s₁ 1⟩], ?_, ?_⟩
    · show Trace.Run Host.Moves _ _ (Function.update p.hosts j _ j)
      rw [Function.update_self]
      exact h.run_send hf hscan hs₁
    · simp [heard, sent, hf, broadcast?]
  · refine .stay (Function.update_of_ne (Ne.symm hj) _ _) ?_
    simp [heard, sent, hf, hj]

/-- **One cache in one step of the page.** It makes moves of its own, and hears what it hears. -/
theorem Sound.project (h : Sound defaults p) (hs : Moves env p m p') (i : Nat) :
    Followed p m p' i := by
  replace hs : Step env p m (.ok p') := hs
  generalize hr : (Except.ok p' : Except WebPanic (Page V F)) = r at hs
  cases hs with
  | host hmove _ _ =>
      obtain ⟨s, rfl, rfl⟩ := update_ok.mp hr.symm
      exact followed_host hmove i
  | attach hown => exact followed_attach hown hr.symm i
  | @detach id _ =>
      cases hr
      exact h.followed_detach id i
  | @report ev _ =>
      cases hr
      exact h.followed_report ev i
  | send hf hscan => exact h.followed_send hf hscan hr.symm i
  | finish _ =>
      cases hr
      exact .stay rfl rfl

/-- The page keeps no more clients of the cache than there are, and futures borrow others. -/
def Balanced (p : Page V F) (i : Nat) : Prop :=
  p.kept i ≤ (p.hosts i).clients ∧ ((p.hosts i).clients ≤ p.kept i → (p.hosts i).Unborrowed)

/-- A step in which a cache gets as many clients as the page keeps more of it. -/
theorem Sound.rebalanced (h : Sound defaults p) (i : Nat)
    (hmoved : p'.kept i + (p.hosts i).clients = p.kept i + (p'.hosts i).clients)
    (hborrowed : (p.hosts i).Unborrowed → (p'.hosts i).Unborrowed) : p'.Balanced i := by
  have hle := h.kept i
  exact ⟨by omega, fun hge => hborrowed (h.borrowed i (by omega))⟩

/-- The same for a step in which one cache changes, and the others are kept as often as before. -/
theorem Sound.rebalanced_at (h : Sound defaults p) {j : Nat} {s : Host V F}
    (hhosts : p'.hosts = Function.update p.hosts j s)
    (hmoved : p'.kept j + (p.hosts j).clients = p.kept j + s.clients)
    (hother : ∀ i, j ≠ i → p'.kept i = p.kept i)
    (hborrowed : (p.hosts j).Unborrowed → s.Unborrowed) (i : Nat) : p'.Balanced i := by
  by_cases hj : j = i
  · subst hj
    refine h.rebalanced j ?_ ?_
    · rw [hhosts, Function.update_self]
      exact hmoved
    · rw [hhosts, Function.update_self]
      exact hborrowed
  · refine h.rebalanced i ?_ ?_
    · rw [hhosts, Function.update_of_ne (Ne.symm hj), hother i hj]
    · rw [hhosts, Function.update_of_ne (Ne.symm hj)]
      exact id

/-- The program that uses a cache leaves the clients of the page alone. -/
theorem Sound.moved (h : Sound defaults p) {i : Nat} {m : Host.Move V F} {s : Host V F}
    (hs : (p.hosts i).Step m (.ok s)) (hown : m.strong = true → 0 < p.own i)
    (hlast : m = .dropClient → p.own i = 1 → (p.hosts i).Unborrowed) :
    p.kept i ≤ s.clients ∧ (s.clients ≤ p.kept i → s.Unborrowed) := by
  have hle := h.kept i
  have hmine : p.own i = (p.hosts i).clients - p.kept i := rfl
  cases hs.change with
  | free => exact ⟨hle, h.borrowed i⟩
  | dropped =>
      have hpos := hown rfl
      refine ⟨?_, fun hge => hlast rfl ?_⟩
      · show p.kept i ≤ (p.hosts i).clients - 1
        omega
      · have hge : (p.hosts i).clients - 1 ≤ p.kept i := hge
        omega
  | cloned _ =>
      have hmore : p.kept i < (p.hosts i).clients + 1 := by omega
      exact ⟨hmore.le, fun hge => absurd hge (Nat.not_le.mpr hmore)⟩
  | rearranged _ _ hrest =>
      refine ⟨hrest.clients ▸ hle, fun hge => ?_⟩
      have hstrong : m.strong = false := by
        refine Bool.eq_false_iff.mpr fun hm => ?_
        have hpos := hown hm
        have hclients := hrest.clients
        omega
      exact hrest.unborrowed hstrong (h.borrowed i (hrest.clients ▸ hge))

/-- So does it leave the books of all caches balanced. -/
theorem Sound.balanced_host (h : Sound defaults p) {j : Nat} {move : Host.Move V F} {s : Host V F}
    (hs : (p.hosts j).Step move (.ok s)) (hown : move.strong = true → 0 < p.own j)
    (hlast : move = .dropClient → p.own j = 1 → (p.hosts j).Unborrowed) (i : Nat) :
    ({ p with hosts := Function.update p.hosts j s } : Page V F).Balanced i := by
  unfold Balanced
  by_cases hj : j = i
  · subst hj
    simp only [Function.update_self]
    exact h.moved hs hown hlast
  · simp only [Function.update_of_ne (Ne.symm hj)]
    exact ⟨h.kept i, h.borrowed i⟩

/-- An attachment makes the client that the page keeps. -/
theorem Sound.balanced_attach (h : Sound defaults p) {j id : Nat} {registry : Registry}
    (ha : p.registry.attach env j = .ok (id, registry))
    (hhosts : p'.hosts = Function.update p.hosts j (cloned (p.hosts j) 1))
    (hregistry : p'.registry = registry) (hframes : p'.frames = p.frames) (i : Nat) :
    p'.Balanced i := by
  have hkept : ∀ i, p'.kept i = p.kept i + if j = i then 1 else 0 := by
    intro i
    rw [← kept_attach ha i, Page.kept, Page.kept, hregistry, hframes]
  refine h.rebalanced_at hhosts ?_ (fun i hj => ?_) (fun hu => hu) i
  · rw [hkept, if_pos rfl]
    show p.kept j + 1 + _ = _ + ((p.hosts j).clients + 1)
    omega
  · rw [hkept, if_neg hj, Nat.add_zero]

/-- A detachment drops the clients that the page kept for the source. -/
theorem Sound.balanced_detach (h : Sound defaults p) (id i : Nat) : (p.detach id).Balanced i := by
  refine h.rebalanced i ?_ fun hu => hu
  have hkept := kept_detach (p := p) id i
  have hle := h.kept i
  show _ + (p.hosts i).clients = _ + ((p.hosts i).clients - _)
  omega

/-- A listener that is called keeps the clients that it copies. -/
theorem Sound.balanced_report (h : Sound defaults p) (ev : DomEvent) (i : Nat) :
    (p.report ev).Balanced i := by
  cases hev : ev.forwarded with
  | none =>
      have hsame : p.report ev = p := by rw [Page.report, hev]
      rw [hsame]
      exact ⟨h.kept i, h.borrowed i⟩
  | some swr =>
      have hreport : p.report ev = { p with
          hosts := fun i => cloned (p.hosts i) (p.registry.caches.count i)
          frames := (swr, p.registry.caches) :: p.frames } := by rw [Page.report, hev]
      rw [hreport]
      refine h.rebalanced i ?_ fun hu => hu
      simp only [Page.kept, cloned, List.map_cons, List.sum_cons]
      omega

/-- A call of `broadcast_all` drops the client that it was made by. -/
theorem Sound.balanced_send (h : Sound defaults p) {ev : SwrEvent} {j : Nat} {rest : List Nat}
    {frames : List (SwrEvent × List Nat)} {now : Instant} {scan : List QueryKey} {s : Host V F}
    (hf : p.frames = (ev, j :: rest) :: frames)
    (hs : (p.hosts j).send (.broadcast ev) now scan = .ok s)
    (hhosts : p'.hosts = Function.update p.hosts j (dropped s 1))
    (hregistry : p'.registry = p.registry) (hframes : p'.frames = (ev, rest) :: frames) (i : Nat) :
    p'.Balanced i := by
  have hkept : ∀ i, p'.kept i + (if j = i then 1 else 0) = p.kept i := by
    intro i
    rw [← kept_send hf i, Page.kept, Page.kept, hregistry, hframes]
  have hframe := Host.send_frame hs
  refine h.rebalanced_at hhosts ?_ (fun i hj => ?_) (fun hu => ?_) i
  · have hmine := hkept j
    rw [if_pos rfl] at hmine
    obtain ⟨hpos, -⟩ := h.turn hf
    obtain ⟨client, -, rfl⟩ := hframe
    show _ + _ = _ + ((p.hosts j).clients - 1)
    omega
  · have hother := hkept i
    rw [if_neg hj] at hother
    exact hother
  · have hsent : s.Unborrowed := hu.same hframe
    exact hsent

/-- **Every step** keeps the books of the page. -/
theorem Sound.keeps (h : Sound defaults p) (hs : Moves env p m p') : Sound defaults p' := by
  have hhosts : ∀ i, Host.Sound (defaults i) (p'.hosts i) := by
    intro i
    obtain ⟨log, hrun, -⟩ := h.project hs i
    exact hrun.invariant (h.hosts i) fun _ _ _ hsound hmove => hsound.moves hmove
  have hbooks : (∀ i, p'.Balanced i) → p'.registry.Registered p'.sources → Sound defaults p' :=
    fun hkept hregistered => ⟨hhosts, fun i => (hkept i).1, fun i => (hkept i).2, hregistered⟩
  replace hs : Step env p m (.ok p') := hs
  generalize hr : (Except.ok p' : Except WebPanic (Page V F)) = r at hs
  cases hs with
  | host hmove hown hlast =>
      obtain ⟨s, rfl, rfl⟩ := update_ok.mp hr.symm
      exact hbooks (h.balanced_host hmove hown hlast) h.registered
  | @attach j hown =>
      unfold Page.attach at hr
      split at hr
      · cases hr
      · next id registry ha =>
          cases hr
          exact hbooks (h.balanced_attach ha rfl rfl rfl) (h.registered.attach ha)
  | @detach id _ =>
      cases hr
      exact hbooks (h.balanced_detach id) (h.registered.detach id)
  | @report ev _ =>
      have hregistered : (p.report ev).registry.Registered (p.report ev).sources := by
        unfold Page.report
        split
        · exact h.registered
        · exact h.registered
      cases hr
      exact hbooks (h.balanced_report ev) hregistered
  | send hf _ =>
      obtain ⟨s, hsend, rfl⟩ := update_ok.mp hr.symm
      obtain ⟨s₁, hs₁, rfl⟩ := sent_of_send hsend
      exact hbooks (h.balanced_send hf hs₁ rfl rfl rfl) h.registered
  | @finish ev frames hf =>
      cases hr
      refine hbooks (fun i => h.rebalanced i ?_ fun hu => hu) h.registered
      simp [Page.kept, hf]

/-- Along every run. -/
theorem Run.sound {log : Log V F} (h : Run env defaults log p) : Sound defaults p :=
  h.invariant (I := Sound defaults) (sound_init defaults) fun _ _ _ hJ hs => hJ.keeps hs

/-! ## Every event, for every client that is attached -/

/-- **A step** settles what it takes off the list. -/
theorem owed_step (ev : SwrEvent) (i : Nat) (hs : Moves env p m p') :
    (sent i ⟨p, m, p'⟩).toList.count ev + owed ev i p' = owed ev i p + reported ev i ⟨p, m, p'⟩ := by
  have hstay : p'.frames = p.frames → sent i ⟨p, m, p'⟩ = none → reported ev i ⟨p, m, p'⟩ = 0 →
      (sent i ⟨p, m, p'⟩).toList.count ev + owed ev i p' =
        owed ev i p + reported ev i ⟨p, m, p'⟩ := by
    intro hframes hsent hreported
    rw [hsent, hreported, owed, owed, hframes]
    exact Nat.zero_add _
  replace hs : Step env p m (.ok p') := hs
  generalize hr : (Except.ok p' : Except WebPanic (Page V F)) = r at hs
  cases hs with
  | host _ _ _ =>
      obtain ⟨s, -, rfl⟩ := update_ok.mp hr.symm
      exact hstay rfl rfl rfl
  | attach _ =>
      unfold Page.attach at hr
      split at hr <;> cases hr
      exact hstay rfl rfl rfl
  | detach _ =>
      cases hr
      exact hstay rfl rfl rfl
  | @report dom hl =>
      cases hr
      cases hdom : dom.forwarded with
      | none => exact hstay (by rw [Page.report, hdom]) rfl (by simp [reported, hdom])
      | some swr =>
          simp only [sent, reported, owed, Page.report, hdom, Option.some.injEq, List.map_cons,
            List.sum_cons, Option.toList_none, List.count_nil]
          omega
  | @send swr j rest frames now scan hf hscan =>
      obtain ⟨s, -, rfl⟩ := update_ok.mp hr.symm
      simp only [sent, reported, owed, hf, List.map_cons, List.sum_cons, List.count_cons, beq_iff_eq]
      by_cases hj : j = i
      · by_cases hev : swr = ev
        · simp [hj, hev]
          omega
        · simp [hj, hev]
      · simp [hj]
  | @finish swr frames hf =>
      cases hr
      simp [sent, reported, owed, hf]

/-- What was taken off the list, and what is still on it. -/
theorem Run.owed {log : Log V F} (h : Run env defaults log p) (ev : SwrEvent) (i : Nat) :
    (log.filterMap (sent i)).count ev + Page.owed ev i p = (log.map (reported ev i)).sum := by
  refine h.history (P := fun log p =>
    (log.filterMap (sent i)).count ev + Page.owed ev i p = (log.map (reported ev i)).sum) rfl ?_
  intro log p m p' _ ih hs
  have hstep := owed_step ev i hs
  have hlast : [(⟨p, m, p'⟩ : Trace.Record (Page V F) (Move V F))].filterMap (sent i) =
      (sent i ⟨p, m, p'⟩).toList := by
    cases hsent : sent i ⟨p, m, p'⟩ <;> simp [hsent]
  rw [List.filterMap_append, List.count_append, List.map_append, List.sum_append, List.map_singleton,
    List.sum_singleton, hlast]
  omega

/-- What a cache goes through, and what it hears. -/
theorem Run.host {log : Log V F} (h : Run env defaults log p) (i : Nat) :
    ∃ hostLog, Host.Run (defaults i) hostLog (p.hosts i) ∧
      hostLog.filterMap (fun r => broadcast? r.label) = log.filterMap (heard i) := by
  refine h.history (P := fun log p => ∃ hostLog, Host.Run (defaults i) hostLog (p.hosts i) ∧
    hostLog.filterMap (fun r => broadcast? r.label) = log.filterMap (heard i)) ⟨[], .nil, rfl⟩ ?_
  rintro log p m p' hr ⟨hostLog, hrun, hheard⟩ hs
  obtain ⟨more, hmore, hnow⟩ := Sound.project (Run.sound hr) hs i
  refine ⟨_, hrun.trans hmore, ?_⟩
  rw [List.filterMap_append, List.filterMap_append, hheard, hnow]
  cases hsent : heard i ⟨p, m, p'⟩ <;> simp [hsent]

/-- **A step panics** only where the listeners cannot be registered. -/
theorem Sound.panics (h : Sound defaults p) {r : Except WebPanic (Page V F)} (hs : Step env p m r) :
    (∃ p', r = .ok p') ∨ ∃ i panic, m = .attach i ∧ p.sources = [] ∧
      registerDomListeners env = .error panic ∧ r = .error panic := by
  cases hs with
  | @host i m r hmove hown hlast =>
      obtain ⟨s, rfl, -⟩ := (h.hosts i).step hmove
      exact .inl ⟨_, rfl⟩
  | @attach i hown =>
      cases hl : p.registry.listeners with
      | true => exact .inl (by simp [Page.attach, Registry.attach, hl])
      | false =>
          have hsources : p.sources = [] := by
            rw [← h.registered.ids, List.map_eq_nil_iff]
            by_contra hne
            rw [h.registered.listeners.mpr hne] at hl
            cases hl
          cases hreg : registerDomListeners env with
          | ok _ => exact .inl (by simp [Page.attach, Registry.attach, hl, hreg])
          | error panic =>
              refine .inr ⟨i, panic, rfl, hsources, rfl, ?_⟩
              simp [Page.attach, Registry.attach, hl, hreg]
  | detach _ => exact .inl ⟨_, rfl⟩
  | report _ => exact .inl ⟨_, rfl⟩
  | @send ev i rest frames now scan hf hscan =>
      have hbroadcast : Host.Step (p.hosts i) (.broadcast ev now scan) _ :=
        .broadcast (h.turn hf).1 hscan
      obtain ⟨s, hs, -⟩ := (h.hosts i).step hbroadcast
      rw [Page.send, hs]
      exact .inl ⟨_, rfl⟩
  | finish _ => exact .inl ⟨_, rfl⟩

/-- **Browser events for several caches.** Take any page, with any number of caches, and any run in which
programs use them, attach clients and detach them, and the browser reports events, also while
`broadcast_all` is under way, provided that nothing a cache stores owns a `WebEventSource`, a `QueryHandle`
or a mutation guard, or attaches, detaches or calls a cache when it is dropped or compared. No step panics,
except the first attachment where there is no window or no document. The listeners are registered as long as
there is a `WebEventSource`. An attached cache is alive, also if the program dropped its clients, and each
cache is one that its program could bring about alone: a run of the public interface in which the browser's
events are calls of `broadcast`. And each of these events is sent to each client that was attached when it
was reported, once for each attachment, and to no other: what was sent and what is still to be sent is what
was reported. -/
theorem events_delivered {log : Log V F} (h : Run env defaults log p) :
    (∀ m r, Step env p m r → (∃ p', r = .ok p') ∨ ∃ i panic, m = .attach i ∧ p.sources = [] ∧
      registerDomListeners env = .error panic ∧ r = .error panic) ∧
    (p.registry.listeners = true ↔ p.sources ≠ []) ∧ p.sources.Nodup ∧
    ∀ i, (0 < p.kept i → (p.hosts i).alive = true) ∧
      (∃ hostLog, Host.Run (defaults i) hostLog (p.hosts i) ∧
        hostLog.filterMap (fun r => broadcast? r.label) = log.filterMap (heard i)) ∧
      ∀ ev, (log.filterMap (sent i)).count ev + owed ev i p = (log.map (reported ev i)).sum := by
  have hsound := h.sound
  refine ⟨fun m r hs => hsound.panics hs, ?_, hsound.registered.nodup, fun i => ⟨?_, h.host i, ?_⟩⟩
  · rw [hsound.registered.listeners, ← hsound.registered.ids, Ne, Ne, List.map_eq_nil_iff]
  · intro hkept
    exact (hsound.hosts i).holds.strong (Nat.lt_of_lt_of_le hkept (hsound.kept i))
  · exact fun ev => h.owed ev i

end step

section witness

attribute [local instance] Shell.exampleClock

/-- A page with one attached client. -/
def attachedPage : Page Nat Unit where
  hosts := Function.update (init (fun _ => .default)).hosts 0 (cloned (.init .default) 1)
  registry := ⟨1, [(0, 0)], true⟩
  sources := [0]
  frames := []

/-- The browser reports to it that it is online. -/
theorem run_attachedPage : ∃ log, Run ⟨true, true⟩ (fun _ => .default) log (attachedPage.report .online) ∧
    (log.map (reported .online 0)).sum = 1 := by
  have hattach : Moves ⟨true, true⟩ (init (fun _ => .default)) (.attach 0) attachedPage :=
    .attach Nat.one_pos
  have hreport : Moves ⟨true, true⟩ attachedPage (.report .online) _ := .report rfl
  exact ⟨_, (Trace.Run.single hattach).snoc hreport, rfl⟩

theorem events_delivered_example : ∃ (log : Log Nat Unit) (p : Page Nat Unit),
    Run ⟨true, true⟩ (fun _ => .default) log p ∧ (log.filterMap (sent 0)).count .online = 1 := by
  obtain ⟨log, hrun, hreported⟩ := run_attachedPage
  obtain ⟨hsteps, -⟩ := events_delivered hrun
  have hstep : Step ⟨true, true⟩ (attachedPage.report .online) (.send 0 []) _ := .send rfl (by decide)
  rcases hsteps _ _ hstep with ⟨p, hp⟩ | ⟨_, _, hm, -⟩
  · rw [hp] at hstep
    obtain ⟨s, -, rfl⟩ := update_ok.mp hp
    obtain ⟨-, -, -, hcaches⟩ := events_delivered (hrun.snoc hstep)
    refine ⟨_, _, hrun.snoc hstep, ?_⟩
    have hbalance := (hcaches 0).2.2 .online
    rw [List.map_append, List.sum_append, hreported] at hbalance
    exact hbalance
  · cases hm

end witness

end Page

end SwrCore
