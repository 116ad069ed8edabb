import SwrCore.Host.Shutdown
import SwrCore.Library.Follower

/-!
# A query bound to a view

`Query` keeps a copy of what its handle watches: a task waits for `changed()`, takes a snapshot, and writes
it where the views read. Between the two the channel may go on, so the copy follows the channel in the
sense of `Follower`.

* `Query`, `Query.Step` — the copy and its task, among the steps of the program.
* `Query.Follows` — the invariant: the handle is held, and the copy is behind the channel.
* `Query.shows_present` — the law over every program.
-/

set_option linter.unusedSectionVars false

namespace SwrCore

variable {V F : Type}

/-! ## Channels only advance -/

theorem Watch.Saw.trans {u v w : Watch V} (h : u.Saw v) (h' : v.Saw w) : u.Saw w := by
  rcases h with rfl | ⟨he, hv⟩
  · exact h'
  · rcases h' with rfl | ⟨he', hv'⟩
    · exact .inr ⟨he, hv⟩
    · exact .inr ⟨he.trans he', hv.trans hv'⟩

/-- Channels are ordered by what came first. -/
instance : PartialOrder (Watch V) where
  le := Watch.Saw
  le_refl := Watch.Saw.refl
  le_trans _ _ _ := Watch.Saw.trans
  le_antisymm u v h h' := by
    rcases h with heq | ⟨he, -⟩
    · exact heq
    · rcases h' with heq | ⟨he', -⟩
      · exact heq.symm
      · exact absurd (he.trans he') (lt_irrefl _)

theorem Watch.epoch_strictMono : StrictMono (Watch.epoch : Watch V → Nat) := by
  intro u v hlt
  rcases hlt.le with rfl | ⟨he, -⟩
  · exact absurd hlt (lt_irrefl _)
  · exact he

/-- A later value of a channel has a later version. -/
theorem Watch.Saw.value {u v : Watch V} (h : u.Saw v) :
    u.value = v.value ∨ u.value.version < v.value.version := by
  rcases h with rfl | ⟨-, hv⟩
  · exact .inl rfl
  · exact .inr hv

/-! ## The query and its task -/

/-- Where the watcher task stands. Source: `swr-gpui/src/lib.rs`, `Query::new`. -/
inductive Watcher where
  /-- At `handle.changed().await`. -/
  | waiting
  /-- Before `handle.snapshot()`. -/
  | updating
  /-- The loop was left, or the task was cancelled: the handle is dropped. -/
  | ended
deriving DecidableEq

/-- A query bound to a view. Source: `swr-gpui/src/lib.rs`, `Query`. -/
structure Query (V : Type) where
  handle : QueryHandle
  /-- What the handle marked as seen. -/
  seen : Watch V
  /-- What the views read. -/
  state : Snapshot V
  watcher : Watcher

namespace Query

/-- Source: `swr-gpui/src/lib.rs`, `Query::new`. -/
def new (s : Host V F) (handle : QueryHandle) (seen : Watch V) : Query V :=
  ⟨handle, seen, (s.client.channels handle.rx).value, .waiting⟩

/-- The steps of the program and those of the watcher task. -/
inductive Act (V F : Type) where
  | host (m : Host.Move V F)
  /-- `changed()` returns `Ok`. -/
  | changed
  /-- The snapshot is taken and written. -/
  | update
  /-- `changed()` returns `Closed`. -/
  | closed (now : Instant)
  /-- The `Query` is dropped, which cancels the task. -/
  | drop (now : Instant)

/-- One step. The handle belongs to the task, so nobody else drops it. -/
inductive Step [Platform] : Host V F × Query V → Act V F → Host V F × Query V → Prop
  | host {s m s' q} (hs : s.Moves m s')
      (hm : q.watcher ≠ .ended → ∀ now, m ≠ .dropHandle q.handle now) : Step (s, q) (.host m) (s', q)
  | changed {s q} (hw : q.watcher = .waiting) (hc : s.changed q.handle q.seen = .ready) :
      Step (s, q) .changed (s, { q with seen := s.client.channels q.handle.rx, watcher := .updating })
  | update {s q} (hw : q.watcher = .updating) :
      Step (s, q) .update
        (s, { q with state := (s.client.channels q.handle.rx).value, watcher := .waiting })
  | closed {s q now s'} (hw : q.watcher = .waiting) (hc : s.changed q.handle q.seen = .closed)
      (hd : s.Moves (.dropHandle q.handle now) s') :
      Step (s, q) (.closed now) (s', { q with watcher := .ended })
  | drop {s q now s'} (hw : q.watcher ≠ .ended) (hd : s.Moves (.dropHandle q.handle now) s') :
      Step (s, q) (.drop now) (s', { q with watcher := .ended })

/-- The log of a run with a query. -/
abbrev Log (V F : Type) := List (Trace.Record (Host V F × Query V) (Act V F))

/-! ## The copy follows the channel -/

/-- The copy is the value of a channel `shown` that is behind the one that is watched. -/
def Shows (w : Watch V) (q : Query V) (shown : Watch V) : Prop :=
  q.state = shown.value ∧ Follower.Behind Watch.epoch w ⟨q.seen, shown, decide (q.watcher ≠ .waiting)⟩

/-- What holds of a program with a query. -/
structure Follows [Platform] (defaults : QueryOptions) (p : Host V F × Query V) : Prop where
  sound : Host.Sound defaults p.1
  held : p.2.watcher ≠ .ended → p.2.handle ∈ p.1.handles
  shows : ∃ shown, Shows (p.1.client.channels p.2.handle.rx) p.2 shown

section step

variable [Platform] {defaults : QueryOptions} {s s' : Host V F} {p p' : Host V F × Query V}
  {a : Act V F} {w : Watch V} {q : Query V} {shown : Watch V}

/-- A step of the program only lets a channel advance. -/
theorem advances (h : Host.Sound defaults s) {m : Host.Move V F} (hs : s.Moves m s') (rx : Channel) :
    Host.Sound defaults s' ∧ s.client.channels rx ≤ s'.client.channels rx := by
  obtain ⟨t, heq, hkeeps⟩ := h.step hs
  cases heq
  refine ⟨h.next hkeeps, ?_⟩
  rcases hkeeps.client with hsame | ⟨a, hstep⟩
  · rw [hsame]
  · exact hstep.saw (Watch.Saw.refl _)

theorem dropped {handle : QueryHandle} {now : Instant} {r : Except HostPanic (Host V F)}
    (hs : Host.Step s (.dropHandle handle now) r) : r = s.dropHandle handle now := by
  cases hs
  rfl

/-- There is something new exactly if the channel went on. -/
theorem changed_ready_iff {handle : QueryHandle} {seen : Watch V} :
    s.changed handle seen = .ready ↔ seen.epoch ≠ (s.client.channels handle.rx).epoch := by
  unfold Host.changed QueryHandle.changed
  split_ifs with h₁ h₂ h₃ <;> simp_all

/-- The watcher leaves its loop, or is cancelled. -/
theorem Follows.ends (h : Follows defaults (s, q)) {now : Instant}
    (hd : s.Moves (.dropHandle q.handle now) s') :
    Follows defaults (s', { q with watcher := .ended }) := by
  obtain ⟨shown, hstate, hbehind⟩ := h.shows
  obtain ⟨hsound, hle⟩ := advances h.sound hd q.handle.rx
  have hmono := (Watch.epoch_strictMono (V := V)).monotone
  exact ⟨hsound, fun hw => absurd rfl hw, shown, hstate, (hbehind.step hmono (.advance hle)).stop⟩

/-- **One step of the follower.** The copy never goes back. -/
theorem Follows.step (h : Follows defaults p) (hs : Step p a p') :
    Follows defaults p' ∧ ∃ shown shown' : Watch V,
      p.2.state = shown.value ∧ p'.2.state = shown'.value ∧ shown ≤ shown' := by
  obtain ⟨shown, hstate, hbehind⟩ := h.shows
  have hmono := (Watch.epoch_strictMono (V := V)).monotone
  cases hs with
  | @host s m s' q hs hm =>
      obtain ⟨hsound, hle⟩ := advances h.sound hs q.handle.rx
      refine ⟨⟨hsound, fun hw => ?_, shown, hstate, hbehind.step hmono (.advance hle)⟩,
        shown, shown, hstate, hstate, le_refl _⟩
      rcases (Host.Step.frame hs).2 _ (h.held hw) with ⟨now, hdrop⟩ | hkept
      · exact absurd hdrop (hm hw now)
      · exact hkept
  | @changed s q hw hc =>
      have hwake : Follower.Step Watch.epoch
          (s.client.channels q.handle.rx, ⟨q.seen, shown, decide (q.watcher ≠ .waiting)⟩)
          (s.client.channels q.handle.rx, ⟨s.client.channels q.handle.rx, shown, true⟩) :=
        .wake (by rw [hw]; rfl) (changed_ready_iff.mp hc)
      refine ⟨⟨h.sound, fun _ => h.held ?_, shown, hstate, hbehind.step hmono hwake⟩,
        shown, shown, hstate, hstate, le_refl _⟩
      rw [hw]
      decide
  | @update s q hw =>
      have hread : Follower.Step Watch.epoch
          (s.client.channels q.handle.rx, ⟨q.seen, shown, decide (q.watcher ≠ .waiting)⟩)
          (s.client.channels q.handle.rx, ⟨q.seen, s.client.channels q.handle.rx, false⟩) :=
        .read (by rw [hw]; rfl)
      refine ⟨⟨h.sound, fun _ => h.held ?_, _, rfl, hbehind.step hmono hread⟩,
        shown, _, hstate, rfl, hread.advances hbehind⟩
      rw [hw]
      decide
  | closed hw hc hd => exact ⟨h.ends hd, shown, shown, hstate, hstate, le_refl _⟩
  | drop hw hd => exact ⟨h.ends hd, shown, shown, hstate, hstate, le_refl _⟩

/-- A watcher that found nothing new shows what the channel holds. -/
theorem Follows.present (h : Follows defaults (s, q)) (hw : q.watcher = .waiting)
    (hc : s.changed q.handle q.seen ≠ .ready) : q.state = (s.client.channels q.handle.rx).value := by
  obtain ⟨shown, hstate, hbehind⟩ := h.shows
  have hsame : q.seen.epoch = (s.client.channels q.handle.rx).epoch := by
    by_contra hne
    exact hc (changed_ready_iff.mpr hne)
  have hup := hbehind.caught_up Watch.epoch_strictMono (by rw [hw]; rfl) hsame
  exact hstate.trans (congrArg Watch.value hup)

end step

/-! ## The law -/

section law

variable [Platform] {defaults : QueryOptions}

/-- The run of a program up to `Query::new`: at `s₁` the handle marked its channel, when it was made or in
a `changed()`; at `s₀` it is bound. -/
structure Opens (defaults : QueryOptions) (handle : QueryHandle) (s₁ s₀ : Host V F) : Prop where
  reached : ∃ log, Host.Run defaults log s₁
  held : handle ∈ s₁.handles
  meanwhile : ∃ log, Trace.Run Host.Moves s₁ log s₀ ∧
    ∀ r ∈ log, ∀ now, r.label ≠ .dropHandle handle now

/-- A `Query` that was just made follows its channel. -/
theorem Opens.follows {handle : QueryHandle} {s₁ s₀ : Host V F} (h : Opens defaults handle s₁ s₀) :
    Follows defaults (s₀, new s₀ handle (s₁.client.channels handle.rx)) := by
  obtain ⟨log, hrun⟩ := h.reached
  obtain ⟨between, hbetween, hkept⟩ := h.meanwhile
  have hall : Host.Sound defaults s₀ ∧ handle ∈ s₀.handles ∧
      s₁.client.channels handle.rx ≤ s₀.client.channels handle.rx := by
    refine hbetween.carry (J := fun s => Host.Sound defaults s ∧ handle ∈ s.handles ∧
      s₁.client.channels handle.rx ≤ s.client.channels handle.rx)
      ⟨hrun.sound, h.held, le_refl _⟩ hkept ?_
    rintro r hs hno ⟨hsound, hmem, hle⟩
    obtain ⟨hsound', hle'⟩ := advances hsound hs handle.rx
    refine ⟨hsound', ?_, hle.trans hle'⟩
    rcases (Host.Step.frame hs).2 _ hmem with ⟨now, hdrop⟩ | hkept
    · exact absurd hdrop (hno now)
    · exact hkept
  obtain ⟨hsound, hmem, hle⟩ := hall
  exact ⟨hsound, fun _ => hmem, _, rfl, .start (Watch.epoch_strictMono (V := V)).monotone hle⟩

/-- It does so along every run. -/
theorem follows_of_run {handle : QueryHandle} {s₁ s₀ : Host V F} (h : Opens defaults handle s₁ s₀)
    {log : Log V F} {p : Host V F × Query V}
    (hr : Trace.Run Step (s₀, new s₀ handle (s₁.client.channels handle.rx)) log p) :
    Follows defaults p :=
  hr.invariant (I := Follows defaults) h.follows fun _ _ _ hJ hs => (hJ.step hs).1

/-- **A view shows the present.** Bind a handle to a `Query` at any time after it marked its channel, and let the
program and the watcher go on in any order. What the views read is never replaced by an older state, nor
by another one of the same version. Whenever the watcher waits and finds nothing new, the views read what
the channel holds; as long as the cache lives and the `Query` is not dropped the watcher does not end, and
with no `Notify` on its way they read the state of the entry that is stored. When the cache is gone the
watcher ends, and leaves the last state that was published. -/
theorem shows_present {handle : QueryHandle} {s₁ s₀ s : Host V F} {q : Query V} {log : Log V F}
    (h : Opens defaults handle s₁ s₀)
    (hr : Trace.Run Step (s₀, new s₀ handle (s₁.client.channels handle.rx)) log (s, q)) :
    (∀ r ∈ log, r.pre.2.state = r.post.2.state ∨
      r.pre.2.state.version < r.post.2.state.version) ∧
    (q.watcher = .waiting → s.changed q.handle q.seen ≠ .ready →
      q.state = (s.client.channels q.handle.rx).value) ∧
    (s.alive = true → q.watcher ≠ .ended → s.changed q.handle q.seen ≠ .closed ∧
      ∃ e, s.client.shell.inner.entry q.handle.key = some e ∧ e.tx = q.handle.rx ∧
        (q.watcher = .waiting → s.changed q.handle q.seen = .pending →
          (∀ sn, .notify e.tx sn ∉ s.client.pending) → q.state = e.snapshotNow)) ∧
    ∀ r ∈ log, ∀ now, r.label = .closed now → r.pre.1.alive = false ∧
      r.post.2.state = (r.post.1.client.channels r.post.2.handle.rx).value := by
  have hfollows := follows_of_run h hr
  have hmem : ∀ r ∈ log, Follows defaults r.pre ∧ Step r.pre r.label r.post := by
    intro r hr'
    obtain ⟨xs, ys, rfl⟩ := List.append_of_mem hr'
    obtain ⟨hxs, hstep, -⟩ := hr.middle
    exact ⟨follows_of_run h hxs, hstep⟩
  refine ⟨fun r hr' => ?_, hfollows.present, fun ha hw => ?_, fun r hr' now hlabel => ?_⟩
  · obtain ⟨hpre, hstep⟩ := hmem r hr'
    obtain ⟨-, shown, shown', hstate, hstate', hle⟩ := hpre.step hstep
    rw [hstate, hstate']
    exact Watch.Saw.value hle
  · have hwatches := (hfollows.sound.holds.books ha).watched _ (hfollows.held hw)
    obtain ⟨e, he, htx⟩ := hwatches
    refine ⟨Host.Watches.not_closed hfollows.sound ha ⟨e, he, htx⟩ q.seen, e, he, htx, ?_⟩
    intro hwaiting hpending hquiet
    obtain ⟨clientLog, hclient⟩ := hfollows.sound.reached
    have hshown := hfollows.present hwaiting (by rw [hpending]; decide)
    rw [hshown, ← htx]
    exact hclient.channels.shown he hquiet
  · obtain ⟨hpre, hstep⟩ := hmem r hr'
    obtain ⟨⟨t, q⟩, label, post⟩ := r
    cases hlabel
    cases hstep with
    | @closed _ _ _ t' hw hc hd =>
        have hdead : t.alive = false := by
          by_contra halive
          have ha := Bool.eq_true_of_not_eq_false halive
          have hwatches := (hpre.sound.holds.books ha).watched _ (hpre.held (by rw [hw]; decide))
          exact hwatches.not_closed hpre.sound ha q.seen hc
        refine ⟨hdead, ?_⟩
        have hquiet := (dropped hd).trans (Host.dropHandle_dead hdead _ _)
        rw [hpre.present hw (by rw [hc]; decide), Except.ok.inj hquiet]

end law

section witness

attribute [local instance] Shell.exampleClock

/-- Steps of the program, with a query that they leave alone. -/
theorem beside {s s' : Host V F} [Platform] {log : Host.Log V F} (hr : Trace.Run Host.Moves s log s')
    {q : Query V} (hkept : ∀ r ∈ log, ∀ now, r.label ≠ .dropHandle q.handle now) :
    ∃ log' : Log V F, Trace.Run Step (s, q) log' (s', q) := by
  refine ⟨_, hr.map (f := fun s => (s, q)) (g := Act.host) fun r hmem => ?_⟩
  obtain ⟨_, _, -, -, hstep, -⟩ := hr.of_mem hmem
  exact .host hstep fun _ => hkept r hmem

/-- The watcher goes on until it finds nothing new. -/
theorem exists_settled [Platform] {s : Host V F} {q : Query V} (hw : q.watcher = .waiting)
    (hopen : ∀ seen, s.changed q.handle seen ≠ .closed) :
    ∃ (log : Log V F) (q' : Query V), Trace.Run Step (s, q) log (s, q') ∧ q'.handle = q.handle ∧
      q'.watcher = .waiting ∧ s.changed q.handle q'.seen = .pending := by
  cases hc : s.changed q.handle q.seen with
  | closed => exact absurd hc (hopen _)
  | pending => exact ⟨[], q, .nil, rfl, hw, hc⟩
  | ready =>
      have hmark : Trace.Run Step (s, q) _ (s, _) := .single (.changed hw hc)
      refine ⟨_, _, hmark.snoc (.update rfl), rfl, rfl, ?_⟩
      cases hc' : s.changed q.handle (s.client.channels q.handle.rx) with
      | closed => exact absurd hc' (hopen _)
      | pending => rfl
      | ready => exact absurd rfl (changed_ready_iff.mp hc')

/-- A value that is set reaches the view. -/
theorem shows_present_example : ∃ (handle : QueryHandle) (s₁ s : Host Nat Unit) (q : Query Nat)
    (log : Log Nat Unit) (e : EntryCore Nat Unit), Opens .default handle s₁ s₁ ∧
      Trace.Run Step (s₁, new s₁ handle (s₁.client.channels handle.rx)) log (s, q) ∧
        s.client.shell.inner.entry ⟨0, []⟩ = some e ∧ e.data = some 5 ∧ q.state = e.snapshotNow := by
  obtain ⟨s₁, hsub, hkeys, halive⟩ := Host.subscribed
  obtain ⟨handle, rest, hhandles, hkey, -⟩ := List.map_eq_cons_iff.mp hkeys
  have hmem : handle ∈ s₁.handles := by
    rw [hhandles]
    exact List.mem_cons_self
  have hfacts : ((Host.init .default : Host Nat Unit).subscribe ⟨0, []⟩ (some ()) none .default 0).toOption.bind
      (fun s => (s.send (.mutateSet ⟨0, []⟩ 5) 0 []).toOption.map fun s' =>
        (s.clients, s'.alive, (s'.client.shell.inner.entry ⟨0, []⟩).bind EntryCore.data)) =
      some (1, true, some 5) := by
    decide +kernel
  rw [hsub, Except.toOption, Option.bind_some] at hfacts
  obtain ⟨s₂, hset, hfacts⟩ := Option.map_eq_some_iff.mp hfacts
  simp only [Prod.mk.injEq, Option.bind_eq_some_iff] at hfacts
  obtain ⟨hclients, halive₂, e, he, hdata⟩ := hfacts
  have hsubscribe : Host.Moves (Host.init .default) (.subscribe ⟨0, []⟩ (some ()) none .default 0) s₁ := by
    have hstep : Host.Step (Host.init .default : Host Nat Unit)
        (.subscribe ⟨0, []⟩ (some ()) none .default 0) _ := .subscribe Nat.one_pos
    rw [hsub] at hstep
    exact hstep
  have hsets : Host.Moves s₁ (.set ⟨0, []⟩ 5 0) s₂ := by
    have hstep : Host.Step s₁ (.set ⟨0, []⟩ 5 0) _ := .set (by omega)
    cases hres : s₁.send (.mutateSet ⟨0, []⟩ 5) 0 [] with
    | error panic =>
        rw [hres] at hset
        cases hset
    | ok s' =>
        rw [hres] at hset hstep
        cases hset
        exact hstep
  have hopens : Opens .default handle s₁ s₁ :=
    ⟨⟨_, .single hsubscribe⟩, hmem, [], .nil, fun r hr => absurd hr List.not_mem_nil⟩
  obtain ⟨later, client, hlater, -, hlabels, hquiet, hshell⟩ := Host.exists_drained s₂
  obtain ⟨log, hlog⟩ := beside ((Trace.Run.single hsets).trans hlater)
    (q := new s₁ handle (s₁.client.channels handle.rx)) fun r hr now heq => by
      rcases List.mem_append.mp hr with hfirst | hlast
      · cases List.mem_singleton.mp hfirst
        cases heq
      · obtain ⟨x, hx⟩ := hlabels r hlast
        rw [hx] at heq
        cases heq
  have hfollows := follows_of_run hopens hlog
  have hwatches := (hfollows.sound.holds.books halive₂).watched handle (hfollows.held fun hended => by cases hended)
  obtain ⟨log', q, hsettled, hhandle, hwaiting, hpending⟩ :=
    exists_settled (q := new s₁ handle (s₁.client.channels handle.rx)) rfl
      fun seen => hwatches.not_closed hfollows.sound halive₂ seen
  obtain ⟨-, -, hlive, -⟩ := shows_present hopens (hlog.trans hsettled)
  obtain ⟨-, e', he', -, hshows⟩ := hlive halive₂ (by rw [hwaiting]; decide)
  have hsame : e' = e := by
    have hentry := he'
    rw [hhandle] at hentry
    have hk : (new s₁ handle (s₁.client.channels handle.rx)).handle.key = ⟨0, []⟩ := hkey
    rw [hk, show ({ s₂ with client := client } : Host Nat Unit).client.shell = s₂.client.shell from hshell,
      he] at hentry
    exact (Option.some.inj hentry).symm
  subst hsame
  refine ⟨handle, s₁, _, q, _, e', hopens, hlog.trans hsettled, ?_, hdata, ?_⟩
  · exact hshell ▸ he
  · refine hshows hwaiting (hhandle ▸ hpending) fun sn hsn => ?_
    have hnone : ({ s₂ with client := client } : Host Nat Unit).client.pending = [] := hquiet
    rw [hnone] at hsn
    cases hsn

end witness

end Query

end SwrCore
