import SwrCore.Shell.OneFlight

/-!
# Live use pins the entry

A subscription, an unsettled mutation and a live flight each keep their entry from being collected.
None of them carries the incarnation through the whole of its life (an unsubscription and a token name
the key only), so they rely on the entry staying where it is.

* `Shell.Use` — the three kinds of use; `Use.Begins`, `Use.Ends` are the steps at its two ends.
* `Use.Open`, `Use.open_iff_held` — a use that began and did not end is one that the shell holds.
* `Shell.Inv.pinned` — a key with a use has an entry that is not idle.
* `Shell.Inv.remains` — an entry that is not idle stays over a step, and keeps its incarnation.
* `Shell.use_pins` — over every stretch of a run during which the use stays open.
-/

namespace SwrCore

variable {V F : Type}

/-- The token of the mutation that a call begins. -/
def Call.begun? (c : Call V F) : Option MutationToken :=
  match c.event, c.out.outcome with
  | .mutateBegin _ _, .mutation token => some token
  | _, _ => none

/-- The token of the mutation that an event settles. -/
def Event.settled? : Event V F → Option MutationToken
  | .mutateCommit token _ _ => some token
  | .mutateAbort token _ => some token
  | _ => none

/-- The handle that a call hands out. -/
def Call.subscribed? (c : Call V F) : Option (QueryKey × Nat) :=
  match c.event, c.out.outcome with
  | .subscribe key _ _ _, .subscribed subId _ => some (key, subId)
  | _, _ => none

/-- The handle that an event returns. -/
def Event.unsubscribed? : Event V F → Option (QueryKey × Nat)
  | .unsubscribe key subId => some (key, subId)
  | _ => none

theorem Call.handles_eq (c : Call V F) (handles : List (QueryKey × Nat)) :
    c.handles handles = match c.subscribed?, c.event.unsubscribed? with
      | some x, _ => handles ++ [x]
      | none, some x => handles.erase x
      | none, none => handles := by
  unfold Call.handles Call.subscribed? Event.unsubscribed?
  cases c.event <;> cases c.out.outcome <;> rfl

theorem Call.tokens_eq (c : Call V F) (tokens : List MutationToken) :
    c.tokens tokens = match c.begun?, c.event.settled? with
      | some t, _ => tokens ++ [t]
      | none, some t => tokens.erase t
      | none, none => tokens := by
  unfold Call.tokens Call.begun? Event.settled?
  cases c.event <;> cases c.out.outcome <;> rfl

theorem Call.unsubscribed_of_subscribed {c : Call V F} {x : QueryKey × Nat}
    (h : c.subscribed? = some x) : c.event.unsubscribed? = none := by
  unfold Call.subscribed? at h
  cases hev : c.event <;> rw [hev] at h <;> first | rfl | cases h

theorem Call.settled_of_begun {c : Call V F} {t : MutationToken} (h : c.begun? = some t) :
    c.event.settled? = none := by
  unfold Call.begun? at h
  cases hev : c.event <;> rw [hev] at h <;> first | rfl | cases h

namespace Shell

/-! ## Uses -/

/-- A use of an entry. -/
inductive Use where
  | handle (key : QueryKey) (subId : Nat)
  | mutation (token : MutationToken)
  | flight (f : Flight)

namespace Use

/-- The key in use. -/
def key : Use → QueryKey
  | .handle key _ => key
  | .mutation token => token.key
  | .flight f => f.key

/-- The step begins the use: it hands out the handle or the token, or starts the fetch. -/
def Begins (r : Trace.Record (Shell V F) (Call V F)) : Use → Prop
  | .handle key subId => r.label.subscribed? = some (key, subId)
  | .mutation token => r.label.begun? = some token
  | .flight f => f ∈ Effect.flights r.label.out.effects

/-- The step ends the use. -/
def Ends (r : Trace.Record (Shell V F) (Call V F)) : Use → Prop
  | .handle key subId => r.label.event.unsubscribed? = some (key, subId)
  | .mutation token => r.label.event.settled? = some token
  | .flight f => r.label.event.delivers f ∨ r.label.event.interrupts f.key

/-- The use has begun and not ended. Mutations without an optimistic value on one key have the same
token, so they are counted. -/
def Open (log : List (Trace.Record (Shell V F) (Call V F))) : Use → Prop
  | .mutation token =>
    log.countP (fun r => decide (r.label.event.settled? = some token)) <
      log.countP fun r => decide (r.label.begun? = some token)
  | u => Trace.Since (fun r => u.Begins r) (fun r => u.Ends r) log

/-- The shell holds the use. -/
def Held (s : Shell V F) : Use → Prop
  | .handle key subId => (key, subId) ∈ s.handles
  | .mutation token => token ∈ s.tokens
  | .flight f => Awaits f s

end Use

/-- A key with a use has an entry, and this entry is not idle. -/
theorem Inv.pinned {s : Shell V F} (h : s.Inv) {u : Use} (hu : u.Held s) :
    ∃ e, s.inner.entry u.key = some e ∧ e.isQuiescent = false := by
  cases u with
  | handle key subId =>
      obtain ⟨e, he⟩ := Option.isSome_iff_exists.mp (h.handle_entry _ hu)
      have hpos := h.subscribers_pos hu he
      exact ⟨e, he, by simp [EntryCore.isQuiescent, hpos.ne']⟩
  | mutation token =>
      obtain ⟨e, he⟩ := Option.isSome_iff_exists.mp (h.token_entry _ hu)
      have hpos := h.mutations_pos hu he
      exact ⟨e, he, by simp [EntryCore.isQuiescent, hpos.ne']⟩
  | flight f =>
      obtain ⟨e, he, -, hi⟩ := hu
      exact ⟨e, he, by simp [EntryCore.isQuiescent, hi]⟩

section step

variable [Platform] {s s' : Shell V F} {c : Call V F}

/-- A token that is settled is outstanding. -/
theorem outstanding_of_settles (hs : Step s c s') {t : MutationToken}
    (hset : c.event.settled? = some t) : t ∈ s.tokens := by
  have hen := hs.enabled
  unfold Event.settled? at hset
  cases hev : c.event <;> rw [hev] at hset hen <;> cases hset <;> exact hen

/-- The books of a token: what is outstanding plus what is settled is what began. -/
theorem token_step (hs : Step s c s') (t : MutationToken) :
    s'.tokens.count t + (if c.event.settled? = some t then 1 else 0) =
      s.tokens.count t + if c.begun? = some t then 1 else 0 := by
  rw [next_tokens hs, Call.tokens_eq]
  cases hbeg : c.begun? with
  | some x =>
      rw [Call.settled_of_begun hbeg]
      simp [List.count_append, List.count_singleton]
  | none =>
      cases hset : c.event.settled? with
      | none => simp
      | some x =>
          have hmem := outstanding_of_settles hs hset
          by_cases hx : x = t
          · subst hx
            have hpos := List.count_pos_iff.mpr hmem
            simp only [List.count_erase_self, if_true, reduceCtorEq, if_false]
            omega
          · simp [hx, List.count_erase_of_ne (Ne.symm hx)]

variable (h : s.Inv) (hs : Step s c s')

include h hs

/-- An entry that is not idle stays, and keeps its incarnation: only the collector removes entries. -/
theorem Inv.remains {k : QueryKey} {e : EntryCore V F} (he : s.inner.entry k = some e)
    (hq : e.isQuiescent = false) :
    ∃ e', s'.inner.entry k = some e' ∧ e'.incarnation = e.incarnation := by
  have hh := h.handled hs
  obtain ⟨e', he'⟩ := Option.isSome_iff_exists.mp (hh.entry_isSome he hq)
  refine ⟨e', he', ?_⟩
  rcases hh.inversion he' with ⟨-, hsame⟩ | ⟨kev, e₀, hat, rfl⟩
  · rw [he] at hsame
    cases hsame
    rfl
  · obtain rfl := hat.of_entry he
    exact (Inner.after_frame k kev e₀).2

/-- A handle is held from the call that hands it out until the call that returns it. -/
theorem Inv.handle_step (key : QueryKey) (subId : Nat) :
    (key, subId) ∈ s'.handles ↔ c.subscribed? = some (key, subId) ∨
      ((key, subId) ∈ s.handles ∧ ¬ c.event.unsubscribed? = some (key, subId)) := by
  rw [next_handles hs, Call.handles_eq]
  cases hsub : c.subscribed? with
  | some x =>
      rw [Call.unsubscribed_of_subscribed hsub]
      simp [or_comm, eq_comm]
  | none =>
      cases hun : c.event.unsubscribed? with
      | none => simp
      | some x =>
          simp only [h.handles_nodup.mem_erase_iff, reduceCtorEq, false_or, Option.some.injEq]
          rw [and_comm, eq_comm, ne_eq]

/-- A call that hands out a handle leaves the entry of its channel under the key. -/
theorem Inv.subscribed {key : QueryKey} {fetcher : Option F} {compare : Option (Compare V)}
    {opts : QueryOptions} {subId : Nat} {rx : Channel}
    (hev : c.event = .subscribe key fetcher compare opts)
    (hout : c.out.outcome = .subscribed subId rx) :
    (key, subId) ∈ s'.handles ∧ ∃ e', s'.inner.entry key = some e' ∧ e'.tx = rx := by
  have hh := h.handled hs
  have hon : c.event.on key s.inner.nextSubId =
      some (.subscribe s.inner.nextSubId fetcher compare opts) := by
    rw [hev]
    exact if_pos rfl
  refine ⟨(h.handle_step hs key subId).mpr (.inl ?_), ?_⟩
  · simp only [Call.subscribed?, hev, hout]
  · have hat : s.inner.At c.event key (.subscribe s.inner.nextSubId fetcher compare opts)
        ((s.inner.entry key).getD (.new key s.inner.nextIncarnation)) := ⟨hon, if_pos rfl, rfl⟩
    have hans := hh.outcome key _ hon
    rw [hout, Inner.answer, hat.subject] at hans
    simp only [Option.elim_some, KeyEvent.outcome, Outcome.subscribed.injEq] at hans
    exact ⟨_, hat.entry hh, (Inner.after_frame key _ _).1.trans hans.2.symm⟩

end step

/-! ## Over a run -/

section run

variable [Platform] {defaults : QueryOptions} {log : List (Trace.Record (Shell V F) (Call V F))}
  {s : Shell V F}

/-- What is outstanding of a token is what began and was not settled. -/
theorem tokens_count (h : Run defaults log s) (t : MutationToken) :
    s.tokens.count t + log.countP (fun r => decide (r.label.event.settled? = some t)) =
      log.countP fun r => decide (r.label.begun? = some t) := by
  refine h.history (P := fun log s => s.tokens.count t +
    log.countP (fun r => decide (r.label.event.settled? = some t)) =
      log.countP fun r => decide (r.label.begun? = some t)) rfl fun log s c s' _ ih hs => ?_
  have hstep := token_step hs t
  simp only [List.countP_append, List.countP_singleton, decide_eq_true_eq]
  omega

/-- **Uses and their records.** A use is open, as the log tells, exactly when the shell holds it. -/
theorem Use.open_iff_held (h : Run defaults log s) (u : Use) : u.Open log ↔ u.Held s := by
  cases u with
  | handle key subId =>
      refine (h.since_iff (Q := fun s => (key, subId) ∈ s.handles) List.not_mem_nil ?_).symm
      intro log r hr hs
      exact (inv_of_run hr).handle_step hs key subId
  | mutation token =>
      have hcount := tokens_count h token
      rw [Use.Open, Use.Held, ← List.count_pos_iff]
      omega
  | flight f => exact (awaits_iff_since h f).symm

/-- An entry stays under its key, with its incarnation, over every stretch of a run in which the key is
in use before each step. -/
theorem pinned_run {m : Shell V F} (hm : m.Inv) {ys : List (Trace.Record (Shell V F) (Call V F))}
    (hr : Trace.Run Step m ys s) {k : QueryKey} {e : EntryCore V F}
    (he : m.inner.entry k = some e) (huse : ∀ x ∈ ys, ∃ u : Use, u.key = k ∧ u.Held x.pre) :
    ∃ e', s.inner.entry k = some e' ∧ e'.incarnation = e.incarnation := by
  have hboth : s.Inv ∧ ∃ e', s.inner.entry k = some e' ∧ e'.incarnation = e.incarnation := by
    refine hr.carry (J := fun s => s.Inv ∧ ∃ e', s.inner.entry k = some e' ∧
      e'.incarnation = e.incarnation) ⟨hm, e, he, rfl⟩ huse ?_
    rintro r hs ⟨u, rfl, hu⟩ ⟨hi, e₁, he₁, hinc⟩
    obtain ⟨e₂, he₂, hq⟩ := hi.pinned hu
    rw [he₁] at he₂
    cases he₂
    obtain ⟨e', he', hsame⟩ := hi.remains hs he₁ hq
    exact ⟨hi.step hs, e', he', hsame.trans hinc⟩
  exact hboth.2

/-- **A use pins its entry.** From the step that begins a use on, as long as the use is open before each
step, the entry of the key is the one the use began on: it is never removed and keeps its incarnation,
also over the step that ends the use. -/
theorem use_pins (h : Run defaults log s) {xs ys zs : List (Trace.Record (Shell V F) (Call V F))}
    {q : Trace.Record (Shell V F) (Call V F)} (hlog : log = xs ++ q :: (ys ++ zs)) {u : Use}
    (hbegins : u.Begins q) (hopen : ∀ as x bs, ys = as ++ x :: bs → u.Open (xs ++ q :: as)) :
    ∃ e, q.post.inner.entry u.key = some e ∧ ∀ x ∈ ys, ∃ e₁ e₂,
      x.pre.inner.entry u.key = some e₁ ∧ x.post.inner.entry u.key = some e₂ ∧
        e₁.incarnation = e.incarnation ∧ e₂.incarnation = e.incarnation := by
  subst hlog
  obtain ⟨hxs, hq, hrest⟩ := h.middle
  obtain ⟨m, hys, -⟩ := hrest.split
  have hinv : q.post.Inv := (inv_of_run hxs).step hq
  have hheld : u.Held q.post := by
    cases u with
    | handle key subId => exact ((inv_of_run hxs).handle_step hq key subId).mpr (.inl hbegins)
    | mutation token =>
        rw [Use.Held, next_tokens hq, Call.tokens_eq, show q.label.begun? = some token from hbegins]
        exact List.mem_append_right _ (List.mem_singleton_self _)
    | flight f => exact ((inv_of_run hxs).awaits_step hq f).mpr (.inl hbegins)
  obtain ⟨e, he, -⟩ := hinv.pinned hheld
  have hall : ∀ y ∈ ys, u.Held y.pre := by
    intro y hy
    obtain ⟨as, bs, rfl⟩ := List.append_of_mem hy
    obtain ⟨hpre, -, -⟩ := hys.middle
    have hwhole : Run defaults (xs ++ q :: as) y.pre := by
      rw [← List.singleton_append, ← List.append_assoc]
      exact (hxs.snoc hq).trans hpre
    exact (Use.open_iff_held hwhole u).mp (hopen as y bs rfl)
  refine ⟨e, he, fun x hx => ?_⟩
  obtain ⟨as, bs, rfl⟩ := List.append_of_mem hx
  obtain ⟨hpre, hstep, -⟩ := hys.middle
  have hbefore : ∀ y ∈ as, ∃ u' : Use, u'.key = u.key ∧ u'.Held y.pre := fun y hy =>
    ⟨u, rfl, hall y (List.mem_append_left _ hy)⟩
  obtain ⟨e₁, he₁, hinc₁⟩ := pinned_run hinv hpre he hbefore
  have hinv' : x.pre.Inv := hpre.invariant (I := Inv) hinv fun _ _ _ hi hs => hi.step hs
  obtain ⟨e', he', hq'⟩ := hinv'.pinned (hall x hx)
  rw [he₁] at he'
  cases he'
  obtain ⟨e₂, he₂, hinc₂⟩ := hinv'.remains hstep he₁ hq'
  exact ⟨e₁, e₂, he₁, he₂, hinc₁, hinc₂.trans hinc₁⟩

/-- A mutation is settled on the entry it began on. -/
theorem settles_own (h : Run defaults log s) {xs ys zs : List (Trace.Record (Shell V F) (Call V F))}
    {q r : Trace.Record (Shell V F) (Call V F)} (hlog : log = xs ++ q :: (ys ++ r :: zs))
    {token : MutationToken} (hbegun : q.label.begun? = some token)
    (hsettled : r.label.event.settled? = some token)
    (hopen : ∀ as x bs, ys = as ++ x :: bs → (Use.mutation token).Open (xs ++ q :: as)) :
    ∃ e e₁ e₂, q.post.inner.entry token.key = some e ∧
      r.pre.inner.entry token.key = some e₁ ∧ r.post.inner.entry token.key = some e₂ ∧
        e₁.incarnation = e.incarnation ∧ e₂.incarnation = e.incarnation := by
  have hlog' : log = xs ++ q :: ((ys ++ [r]) ++ zs) := by simp [hlog]
  have hopen' : ∀ as x bs, ys ++ [r] = as ++ x :: bs →
      (Use.mutation token).Open (xs ++ q :: as) := by
    intro as x bs hsplit
    have hpre : as <+: ys ++ [r] := ⟨x :: bs, hsplit.symm⟩
    rcases List.prefix_concat_iff.mp hpre with rfl | ⟨cs, rfl⟩
    · have hlen := congrArg List.length hsplit
      simp at hlen
    · cases cs with
      | cons y cs => exact hopen as y cs rfl
      | nil =>
          subst hlog
          obtain ⟨hxs, hq, hrest⟩ := h.middle
          obtain ⟨hys, hr, -⟩ := hrest.middle
          have hwhole : Run defaults (xs ++ q :: as) r.pre := by
            rw [← List.singleton_append, ← List.append_assoc]
            rw [List.append_nil] at hys
            exact (hxs.snoc hq).trans hys
          exact (Use.open_iff_held hwhole _).mpr (outstanding_of_settles hr hsettled)
  obtain ⟨e, he, hall⟩ := use_pins h hlog' (u := .mutation token) hbegun hopen'
  obtain ⟨e₁, e₂, hpins⟩ := hall r (by simp)
  exact ⟨e, e₁, e₂, he, hpins⟩

end run

end Shell

end SwrCore
