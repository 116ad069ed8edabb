import SwrCore.Cell.Project

/-!
# `handle`, one key at a time

* `Inner.Handled` — what one call of `handle` does: every entry is the `cell` of the entry before,
  the effects of a key are its `cellEffects`, and a batch has fetches before timers before
  notifications.
* `Inner.Staged` — the stages of one call: the `match` over the event, and three loops over keys.
* `Inner.handle_spec` — unless an assertion fails, `handle` ends without a panic and is `Handled`.
* `Inner.accepts_of_handle` — the assertions are necessary.
* `Inner.Handled.inversion`, `Inner.Handled.effect` — what an entry, or an effect, says about the
  event that left it.
-/

set_option linter.unusedSectionVars false

namespace SwrCore

variable {V F : Type}

namespace Inner

/-! ## The whole of `handle` -/

/-- Every entry knows the channel of its key. -/
def Tx (s : Inner V F) : Prop := ∀ k e, s.entry k = some e → e.tx = ⟨k, e.incarnation⟩

/-- What one call of `handle` does. -/
structure Handled [Platform] (s : Inner V F) (ev : Event V F) (now : Instant) (s' : Inner V F)
    (out : HandleOutput V F) : Prop where
  defaults : s'.defaults = s.defaults
  nextSubId : s'.nextSubId = s.nextSubId + subscribed ev
  nextIncarnation : s'.nextIncarnation = s.nextIncarnation + s.allocated ev
  entry : ∀ k, s'.entry k = s.cell k ev now
  effects : ∀ k, Effect.of k out.effects = s.cellEffects k ev now
  outcome : ∀ k kev, ev.on k s.nextSubId = some kev → out.outcome = s.answer k kev now
  /-- The batch holds the fetches first, then the timers, then the notifications. -/
  shape : ∃ fetches timers notifies, out.effects = fetches ++ timers ++ notifies ∧
    (∀ x ∈ fetches, ∃ key incarnation seq fetcher, x = .startFetch key incarnation seq fetcher) ∧
    (∀ x ∈ timers, ∃ key kind deadline generation,
      x = .scheduleTimer key kind deadline generation) ∧
    ∀ x ∈ notifies, ∃ tx snapshot, x = .notify tx snapshot

section stages

variable [Platform] {s : Inner V F} {ev : Event V F} {now : Instant}

/-- The GC rule schedules GC timers of its key, … -/
theorem gcTimer_eq (defaults : QueryOptions) (key : QueryKey) (e : EntryCore V F) :
    ∀ x ∈ e.gcTimer defaults now key, ∃ deadline generation,
      x = .scheduleTimer key .gc deadline generation := by
  intro x hx
  unfold EntryCore.gcTimer at hx
  split_ifs at hx
  · obtain ⟨deadline, -, rfl⟩ := List.mem_map.mp hx
    exact ⟨deadline, _, rfl⟩
  · cases hx

/-- … and the refresh rule refresh timers. -/
theorem refreshTimer_eq (key : QueryKey) (e : EntryCore V F) :
    ∀ x ∈ e.refreshTimer now key, ∃ deadline generation,
      x = .scheduleTimer key .refresh deadline generation := by
  intro x hx
  unfold EntryCore.refreshTimer at hx
  split_ifs at hx
  · obtain ⟨deadline, -, rfl⟩ := List.mem_map.mp hx
    exact ⟨deadline, _, rfl⟩
  · cases hx

/-- The GC rule keeps the channel and the incarnation, … -/
theorem gcArmed_frame (e : EntryCore V F) : e.gcArmed.tx = e.tx ∧ e.gcArmed.incarnation =
    e.incarnation := by
  unfold EntryCore.gcArmed
  split_ifs <;> exact ⟨rfl, rfl⟩

/-- … the refresh rule does … -/
theorem refreshArmed_frame (e : EntryCore V F) : (e.refreshArmed now).tx = e.tx ∧
    (e.refreshArmed now).incarnation = e.incarnation := by
  unfold EntryCore.refreshArmed
  split_ifs <;> exact ⟨rfl, rfl⟩

/-- … and so do all stages after the handler. -/
theorem settled_frame (e : EntryCore V F) (m : Marks V F) :
    (e.settled now m).tx = e.tx ∧ (e.settled now m).incarnation = e.incarnation := by
  obtain ⟨g, r, v, h⟩ := e.settled_eq now m
  rw [h]
  exact ⟨rfl, rfl⟩

/-- An event keeps the channel and the incarnation of an entry; it gives a new entry its own. -/
theorem tx_reacted (htx : s.Tx) {k : QueryKey} {e : EntryCore V F}
    (h : s.reacted k ev now = some e) : e.tx = ⟨k, e.incarnation⟩ := by
  unfold Inner.reacted at h
  split at h
  · exact htx k e h
  · next kev hon =>
      obtain ⟨e₀, hsub, he⟩ := Option.bind_eq_some_iff.mp h
      split_ifs at he
      cases he
      have hframe := EntryCore.SameFrame.react s.defaults now e₀ kev
      have h₀ : e₀.tx = ⟨k, e₀.incarnation⟩ := by
        unfold subject at hsub
        split_ifs at hsub
        · cases hsub
          cases he₀ : s.entry k with
          | none => rfl
          | some e₁ => exact htx k e₁ he₀
        · exact htx k e₀ hsub
      rw [hframe.tx, hframe.incarnation, h₀]

/-- A key without an entry has no mark. -/
theorem marked_of_none {k : QueryKey} (h : s.reacted k ev now = none) :
    s.marked k ev now = .none := by
  unfold Inner.reacted at h
  unfold Inner.marked
  split at h
  · rfl
  · next kev hon =>
      cases hsub : s.subject k kev with
      | none => rfl
      | some e =>
          rw [hsub, Option.bind_some] at h
          split_ifs at h with hr
          -- Only a GC timer removes, and it marks nothing.
          cases kev with
          | timerFired kind generation =>
              cases kind with
              | gc => rfl
              | refresh => cases hr
          | _ => cases hr

/-! ### Stage by stage -/

/-- What the stages of one call leave behind: the `match` over the event, and then the three loops, each over
the keys that are marked for it. -/
structure Staged (s : Inner V F) (ev : Event V F) (now : Instant) (answer : Outcome V)
    (s₁ : Inner V F) (ctx₁ : Ctx V F) (s₂ : Inner V F) (ctx₂ : Ctx V F) (s₃ : Inner V F)
    (ctx₃ : Ctx V F) (s₄ : Inner V F) (ctx₄ : Ctx V F) : Prop where
  reacted : Reacted s ev now s₁ ctx₁ answer
  gcRules : Looped ctx₁.touched (fun _ e => e.gcArmed)
    (fun key e => ⟨e.gcTimer s₁.defaults now key, false, false, false⟩)
    s₁ { ctx₁ with touched := [] } s₂ ctx₂
  refreshRules : Looped ctx₂.refreshChanged (fun _ e => e.refreshArmed now)
    (fun key e => ⟨e.refreshTimer now key, false, false, false⟩)
    s₂ { ctx₂ with refreshChanged := [] } s₃ ctx₃
  notifies : Looped ctx₃.notify (fun _ e => e.notified)
    (fun _ e => ⟨[.notify e.tx e.notified.snapshotNow], false, false, false⟩)
    s₃ { ctx₃ with notify := [] } s₄ ctx₄

/-- Unless an assertion of a handler fails, `handle` goes through all its stages. -/
theorem handle_staged (htx : s.Tx) (hacc : s.Accepts ev) {scan : List QueryKey}
    (hscan : ev.scans = true → s.IsScan scan) :
    ∃ answer s₁ ctx₁ s₂ ctx₂ s₃ ctx₃ s₄ ctx₄,
      s.handle ev now scan = .ok (s₄, ⟨answer, ctx₄.effects⟩) ∧
        Staged s ev now answer s₁ ctx₁ s₂ ctx₂ s₃ ctx₃ s₄ ctx₄ := by
  obtain ⟨s₁, ctx₁, answer, hrun₁, h₁⟩ := react_ok s now hacc hscan
  have htx₁ : ∀ k e, s₁.entry k = some e → e.tx.key = k := by
    intro k e he
    rw [h₁.entry k] at he
    rw [tx_reacted htx he]
  -- Each loop runs over distinct keys, and passes over those without an entry.
  have hskip : (.ok () : Except Panic Unit) = .ok () := rfl
  obtain ⟨s₂, ctx₂, hrun₂, h₂⟩ := forEntries_spec
    (fun key e ctx => gcRule_eq s₁.defaults now key e ctx) ctx₁.touched h₁.wf.touched s₁
    { ctx₁ with touched := [] }
    (fun key _ e _ x hx => by obtain ⟨_, _, rfl⟩ := gcTimer_eq _ key e x hx; rfl) (.inl hskip)
  have hwf₂ : ctx₂.Wf := h₂.wf ⟨h₁.wf.notify, .nil, h₁.wf.refresh⟩
  have htx₂ := h₂.tx_key (fun _ e => (gcArmed_frame e).1) htx₁
  obtain ⟨s₃, ctx₃, hrun₃, h₃⟩ := forEntries_spec
    (fun key e ctx => refreshRule_eq now key e ctx) ctx₂.refreshChanged hwf₂.refresh s₂
    { ctx₂ with refreshChanged := [] }
    (fun key _ e _ x hx => by obtain ⟨_, _, rfl⟩ := refreshTimer_eq key e x hx; rfl) (.inl hskip)
  have hwf₃ : ctx₃.Wf := h₃.wf ⟨hwf₂.notify, hwf₂.touched, .nil⟩
  have htx₃ := h₃.tx_key (fun _ e => (refreshArmed_frame e).1) htx₂
  obtain ⟨s₄, ctx₄, hrun₄, h₄⟩ := forEntries_spec
    (fun key e ctx => flushNotify_eq key e ctx) ctx₃.notify hwf₃.notify s₃
    { ctx₃ with notify := [] }
    (fun key _ e he x hx => by
      rw [List.mem_singleton.mp hx]
      exact htx₃ key e he) (.inl hskip)
  refine ⟨answer, s₁, ctx₁, s₂, ctx₂, s₃, ctx₃, s₄, ctx₄, ?_, h₁, h₂, h₃, h₄⟩
  simp only [handle, hrun₁, postRules, hrun₂, hrun₃, flushNotifies, hrun₄, ok_bind]

namespace Staged

variable {answer : Outcome V} {s₁ s₂ s₃ s₄ : Inner V F} {ctx₁ ctx₂ ctx₃ ctx₄ : Ctx V F}
  (h : Staged s ev now answer s₁ ctx₁ s₂ ctx₂ s₃ ctx₃ s₄ ctx₄)

include h

/-- The GC rule runs for the keys that the handler marked as touched, … -/
theorem touched_iff (k : QueryKey) : k ∈ ctx₁.touched ↔ (s.marked k ev now).touched = true := by
  rw [← h.reacted.slice k]
  exact decide_eq_true_iff.symm

/-- … the refresh rule for those whose refresh interval it marked, … -/
theorem refresh_iff (k : QueryKey) :
    k ∈ ctx₂.refreshChanged ↔ (s.marked k ev now).refresh = true := by
  have hkeep : decide (k ∈ ctx₂.refreshChanged) = (ctx₁.slice k).refresh :=
    (h.gcRules.marks (fun _ _ => ⟨rfl, rfl⟩) k).1
  rw [← h.reacted.slice k, ← hkeep, decide_eq_true_iff]

/-- … and a snapshot is published for those that it marked for that. -/
theorem notify_iff (k : QueryKey) : k ∈ ctx₃.notify ↔ (s.marked k ev now).notify = true := by
  have hkeep : decide (k ∈ ctx₃.notify) = (ctx₁.slice k).notify :=
    (h.refreshRules.marks (fun _ _ => ⟨rfl, rfl⟩) k).2.trans
      (h.gcRules.marks (fun _ _ => ⟨rfl, rfl⟩) k).2
  rw [← h.reacted.slice k, ← hkeep, decide_eq_true_iff]

/-- The entries after the GC rule. -/
theorem entry_gc (k : QueryKey) : s₂.entry k = (s.reacted k ev now).map fun e =>
    if (s.marked k ev now).touched then e.gcArmed else e := by
  rw [h.gcRules.entry k, h.reacted.entry k]
  simp only [h.touched_iff k]
  cases s.reacted k ev now <;> split_ifs <;> rfl

/-- The entries after the refresh rule. -/
theorem entry_refresh (k : QueryKey) : s₃.entry k = (s.reacted k ev now).map fun e =>
    let e := if (s.marked k ev now).touched then e.gcArmed else e
    if (s.marked k ev now).refresh then e.refreshArmed now else e := by
  rw [h.refreshRules.entry k, h.entry_gc k]
  simp only [h.refresh_iff k]
  cases s.reacted k ev now <;> split_ifs <;> rfl

/-- The entries at the end. -/
theorem entry (k : QueryKey) : s₄.entry k = s.cell k ev now := by
  rw [h.notifies.entry k, h.entry_refresh k, cell]
  simp only [h.notify_iff k, EntryCore.settled]
  cases s.reacted k ev now <;> split_ifs <;> rfl

/-- The effects of a key, in the order in which the stages push them. -/
theorem effects (k : QueryKey) : Effect.of k ctx₄.effects = s.cellEffects k ev now := by
  have he₁ : Effect.of k ctx₁.effects = (s.marked k ev now).effects := by
    rw [← h.reacted.slice k]
    rfl
  have he₂ : Effect.of k ctx₂.effects = Effect.of k ctx₁.effects ++ _ := h.gcRules.effectsOf k
  have he₃ : Effect.of k ctx₃.effects = Effect.of k ctx₂.effects ++ _ := h.refreshRules.effectsOf k
  have he₄ : Effect.of k ctx₄.effects = Effect.of k ctx₃.effects ++ _ := h.notifies.effectsOf k
  rw [he₄, he₃, he₂, he₁, h.entry_refresh k, h.entry_gc k, h.reacted.entry k, h.reacted.defaults]
  simp only [h.touched_iff k, h.refresh_iff k, h.notify_iff k]
  cases he : s.reacted k ev now with
  | none =>
      rw [marked_of_none he, cellEffects, he]
      rfl
  | some e =>
      rw [cellEffects, he]
      simp only [Option.map_some, Option.elim_some, EntryCore.batch, EntryCore.timers,
        EntryCore.settled, List.append_assoc]
      split_ifs <;> simp only [(refreshArmed_frame _).1, (gcArmed_frame _).1]

/-- The handler starts fetches, the two rules schedule timers, and the last loop publishes. -/
theorem shape : ∃ fetches timers notifies, ctx₄.effects = fetches ++ timers ++ notifies ∧
    (∀ x ∈ fetches, ∃ key incarnation seq fetcher, x = .startFetch key incarnation seq fetcher) ∧
    (∀ x ∈ timers, ∃ key kind deadline generation,
      x = .scheduleTimer key kind deadline generation) ∧
    ∀ x ∈ notifies, ∃ tx snapshot, x = .notify tx snapshot := by
  obtain ⟨l₂, hl₂, hmem₂⟩ := h.gcRules.effects
  obtain ⟨l₃, hl₃, hmem₃⟩ := h.refreshRules.effects
  obtain ⟨l₄, hl₄, hmem₄⟩ := h.notifies.effects
  refine ⟨ctx₁.effects, l₂ ++ l₃, l₄, ?_, h.reacted.fetches, ?_, ?_⟩
  · simp only [hl₄, hl₃, hl₂, List.append_assoc]
  · intro x hx
    rcases List.mem_append.mp hx with hx | hx
    · obtain ⟨key, -, e, -, hx⟩ := hmem₂ x hx
      obtain ⟨deadline, generation, rfl⟩ := gcTimer_eq _ key e x hx
      exact ⟨key, _, deadline, generation, rfl⟩
    · obtain ⟨key, -, e, -, hx⟩ := hmem₃ x hx
      obtain ⟨deadline, generation, rfl⟩ := refreshTimer_eq key e x hx
      exact ⟨key, _, deadline, generation, rfl⟩
  · intro x hx
    obtain ⟨key, -, e, -, hx⟩ := hmem₄ x hx
    exact ⟨_, _, List.mem_singleton.mp hx⟩

/-- No loop touches the counters. -/
theorem counters : s₁.SameCounters s₄ := by
  obtain ⟨hd₂, hs₂, hi₂⟩ := h.gcRules.counters
  obtain ⟨hd₃, hs₃, hi₃⟩ := h.refreshRules.counters
  obtain ⟨hd₄, hs₄, hi₄⟩ := h.notifies.counters
  exact ⟨(hd₄.trans hd₃).trans hd₂, (hs₄.trans hs₃).trans hs₂, (hi₄.trans hi₃).trans hi₂⟩

end Staged

/-- **`handle` acts on every key separately.** Unless an assertion of a handler fails, `handle`
ends without a panic, every entry is the `cell` of the entry before, and the effects of a key are
its `cellEffects`. -/
theorem handle_spec (htx : s.Tx) (hacc : s.Accepts ev) {scan : List QueryKey}
    (hscan : ev.scans = true → s.IsScan scan) :
    ∃ s' out, s.handle ev now scan = .ok (s', out) ∧ Handled s ev now s' out := by
  obtain ⟨answer, s₁, ctx₁, s₂, ctx₂, s₃, ctx₃, s₄, ctx₄, hrun, h⟩ := handle_staged htx hacc hscan
  obtain ⟨hdefaults, hnextSubId, hnextIncarnation⟩ := h.counters
  exact ⟨s₄, ⟨answer, ctx₄.effects⟩, hrun, hdefaults.trans h.reacted.defaults,
    hnextSubId.trans h.reacted.nextSubId, hnextIncarnation.trans h.reacted.nextIncarnation,
    h.entry, h.effects, h.reacted.outcome, h.shape⟩

/-! ### The assertions -/

/-- The first stage of a `handle` that ends without a panic. -/
theorem react_of_handle {scan : List QueryKey} {r : Inner V F × HandleOutput V F}
    (h : s.handle ev now scan = .ok r) : ∃ r', s.react ev now scan .empty = .ok r' := by
  unfold handle at h
  cases hr : s.react ev now scan .empty with
  | error p =>
      rw [hr] at h
      cases h
  | ok r' => exact ⟨r', rfl⟩

/-- The assertions of the handlers are necessary: where one fails, `handle` panics. -/
theorem accepts_of_handle {scan : List QueryKey} {r : Inner V F × HandleOutput V F}
    (h : s.handle ev now scan = .ok r) : s.Accepts ev := by
  obtain ⟨r', hrun⟩ := react_of_handle h
  intro k kev hon
  by_cases hs : ev.scans = true
  · cases Event.on_inv hon with
    | invalidate hk => exact ⟨nofun, fun _ _ => trivial⟩
    | broadcast => exact ⟨nofun, fun _ _ => trivial⟩
    | _ => cases hs
  · by_cases hgc : ∃ key generation, ev = .timerFired key .gc generation
    · obtain ⟨key, generation, rfl⟩ := hgc
      cases Event.on_inv hon with
      | timerFired => exact ⟨nofun, fun _ _ => trivial⟩
    · obtain ⟨key, kev', missing, hk⟩ := s.keyed (Bool.eq_false_of_not_eq_true hs)
        fun key generation h => hgc ⟨key, generation, h⟩
      rw [hk.on k] at hon
      split_ifs at hon with hkey
      cases hon
      subst hkey
      rw [hk.act now scan] at hrun
      have hdef : (s.counted ev).defaults = s.defaults := rfl
      have hentry : (s.counted ev).entry key = s.entry key := rfl
      have hinc : (s.counted ev).nextIncarnation = s.nextIncarnation := rfl
      cases hc : kev.creates with
      | true =>
          have hset : kev.settles = false := by cases kev <;> first | rfl | cases hc
          refine ⟨fun h => absurd h (by simp [hset]), fun e he => ?_⟩
          rw [subject, hc, if_pos rfl, Option.some.injEq] at he
          subst he
          simp only [act, hc, if_true, withEntryOrCreate, entryOrCreate_eq, ok_bind, hdef, hentry,
            hinc] at hrun
          by_contra hunsafe
          cases hb : kev.body s.defaults now key
              ((s.entry key).getD (.new key s.nextIncarnation)) .empty with
          | ok x => exact hunsafe (safe_of_body s.defaults now key hb)
          | error p =>
              simp only [hb, error_bind] at hrun
              cases hrun
      | false =>
          have hsub : s.subject key kev = s.entry key := by rw [subject, hc]; rfl
          simp only [act, hc, Bool.false_eq_true, if_false, withEntry, hdef, hentry] at hrun
          rw [hsub]
          cases he : s.entry key with
          | none =>
              refine ⟨fun hset => ?_, fun e he' => by cases he'⟩
              have hm := hk.missing
              rw [hset, if_pos rfl] at hm
              obtain ⟨p, hp⟩ := hm
              simp only [he, hp, error_bind] at hrun
              cases hrun
          | some e =>
              refine ⟨fun _ => rfl, fun e' he' => ?_⟩
              cases he'
              rw [he] at hrun
              by_contra hunsafe
              cases hb : kev.body s.defaults now key e .empty with
              | ok x => exact hunsafe (safe_of_body s.defaults now key hb)
              | error p =>
                  simp only [hb, error_bind] at hrun
                  cases hrun

/-- A `handle` that ends without a panic did what `Handled` says. -/
theorem handled_of_handle (htx : s.Tx) {scan : List QueryKey}
    (hscan : ev.scans = true → s.IsScan scan) {s' : Inner V F} {out : HandleOutput V F}
    (h : s.handle ev now scan = .ok (s', out)) : Handled s ev now s' out := by
  obtain ⟨s'', out', hrun, hh⟩ := handle_spec htx (accepts_of_handle h) hscan
  rw [h] at hrun
  cases hrun
  exact hh

/-- After the call every entry knows its channel again. -/
theorem Handled.tx (htx : s.Tx) {s' : Inner V F} {out : HandleOutput V F}
    (h : Handled s ev now s' out) : s'.Tx := by
  intro k e he
  rw [h.entry k, cell] at he
  obtain ⟨e₀, he₀, rfl⟩ := Option.map_eq_some_iff.mp he
  rw [(settled_frame e₀ _).1, (settled_frame e₀ _).2, tx_reacted htx he₀]

/-! ## Reading a step back -/

/-- The entry of `k` before a handler ran for `kev` on it, and the entry after the event. -/
structure At (s : Inner V F) (ev : Event V F) (k : QueryKey)
    (kev : KeyEvent V F) (e : EntryCore V F) : Prop where
  on : ev.on k s.nextSubId = some kev
  subject : s.subject k kev = some e
  stays : kev.removes e = false

/-- An event acts on a key in one way, and on one entry. -/
theorem At.unique {k : QueryKey} {kev kev' : KeyEvent V F} {e e' : EntryCore V F}
    (h : s.At ev k kev e) (h' : s.At ev k kev' e') : kev = kev' ∧ e = e' := by
  have hkev : kev = kev' := Option.some.inj (h.on.symm.trans h'.on)
  subst hkev
  exact ⟨rfl, Option.some.inj (h.subject.symm.trans h'.subject)⟩

/-- The entry of `k` after the event. -/
def after (s : Inner V F) (now : Instant) (k : QueryKey) (kev : KeyEvent V F)
    (e : EntryCore V F) : EntryCore V F :=
  (kev.react s.defaults now e).settled now (kev.marks s.defaults now k e)

/-- The stages after the handler show in three counters only. -/
theorem after_of {α : Type*} {f : EntryCore V F → α}
    (hf : ∀ (e : EntryCore V F) g r v,
      f { e with gcGen := g, refreshGen := r, snapVersion := v } = f e)
    (k : QueryKey) (kev : KeyEvent V F) (e : EntryCore V F) :
    f (s.after now k kev e) = f (kev.react s.defaults now e) :=
  EntryCore.settled_of hf _ now _

/-- An event acts on no entry of a key that it does not concern. -/
theorem At.not_off {k : QueryKey} {kev : KeyEvent V F} {e : EntryCore V F}
    (h : s.At ev k kev e) : ev.on k s.nextSubId ≠ none :=
  Option.ne_none_iff_exists'.mpr ⟨kev, h.on⟩

/-- The entry in the table is the one an event acts on. -/
theorem At.of_entry {k : QueryKey} {kev : KeyEvent V F} {e e₀ : EntryCore V F}
    (h : s.At ev k kev e) (he₀ : s.entry k = some e₀) : e = e₀ := by
  have hsub := h.subject
  unfold Inner.subject at hsub
  split_ifs at hsub
  · rw [he₀] at hsub
    exact (Option.some.inj hsub).symm
  · exact Option.some.inj (hsub.symm.trans he₀)

/-- Where an event acts on an entry, this is what its handler leaves, and what it marks. -/
theorem At.reacted {k : QueryKey} {kev : KeyEvent V F} {e : EntryCore V F}
    (h : s.At ev k kev e) (now : Instant) :
    s.reacted k ev now = some (kev.react s.defaults now e) ∧
      s.marked k ev now = kev.marks s.defaults now k e := by
  simp [Inner.reacted, marked, h.on, h.subject, h.stays]

/-- The entry is then in the table, … -/
theorem At.entry {k : QueryKey} {kev : KeyEvent V F} {e : EntryCore V F}
    (h : s.At ev k kev e) {s' : Inner V F} {out : HandleOutput V F}
    (hh : Handled s ev now s' out) : s'.entry k = some (s.after now k kev e) := by
  rw [hh.entry k, cell, (h.reacted now).1, (h.reacted now).2]
  rfl

/-- … the effects of its key are its batch, … -/
theorem At.effects {k : QueryKey} {kev : KeyEvent V F} {e : EntryCore V F}
    (h : s.At ev k kev e) {s' : Inner V F} {out : HandleOutput V F}
    (hh : Handled s ev now s' out) : Effect.of k out.effects =
      (kev.react s.defaults now e).batch s.defaults now k (kev.marks s.defaults now k e) := by
  rw [hh.effects k, cellEffects, (h.reacted now).1, (h.reacted now).2]
  rfl

/-- A key that the event does not concern keeps its entry and sees no effect. -/
theorem Handled.off {s' : Inner V F} {out : HandleOutput V F} (hh : Handled s ev now s' out)
    {k : QueryKey} (h : ev.on k s.nextSubId = none) :
    s'.entry k = s.entry k ∧ Effect.of k out.effects = [] := by
  have hr : s.reacted k ev now = s.entry k := by simp [Inner.reacted, h]
  have hm : s.marked k ev now = .none := by simp [marked, h]
  rw [hh.entry k, hh.effects k, cell, cellEffects, hr, hm]
  cases s.entry k <;> exact ⟨rfl, rfl⟩

/-- An event without an entry to act on, or that removes it, leaves none, without an effect. -/
theorem Handled.gone {s' : Inner V F} {out : HandleOutput V F} (hh : Handled s ev now s' out)
    {k : QueryKey} {kev : KeyEvent V F} (hon : ev.on k s.nextSubId = some kev)
    (h : ∀ e, s.subject k kev = some e → kev.removes e = true) :
    s'.entry k = none ∧ Effect.of k out.effects = [] := by
  have hr : s.reacted k ev now = none := by
    simp only [Inner.reacted, hon]
    cases hsub : s.subject k kev with
    | none => rfl
    | some e => simp [h e hsub]
  rw [hh.entry k, hh.effects k, cell, cellEffects, hr]
  exact ⟨rfl, rfl⟩

/-- An event without effect on any key, and without a new subscription or entry, changes nothing. -/
theorem Handled.unchanged {s' : Inner V F} {out : HandleOutput V F} (hh : Handled s ev now s' out)
    (hev : subscribed ev = 0 ∧ s.allocated ev = 0)
    (h : ∀ k, s'.entry k = s.entry k ∧ Effect.of k out.effects = []) :
    s' = s ∧ out.effects = [] := by
  have hentries : s'.entries = s.entries := Finmap.ext_lookup fun k => (h k).1
  have h₁ := hh.defaults
  have h₂ := hh.nextSubId
  have h₃ := hh.nextIncarnation
  rw [hev.1, Nat.add_zero] at h₂
  rw [hev.2, Nat.add_zero] at h₃
  constructor
  · calc s' = ⟨s'.entries, s'.defaults, s'.nextSubId, s'.nextIncarnation⟩ := rfl
      _ = s := by rw [hentries, h₁, h₂, h₃]
  · refine List.eq_nil_iff_forall_not_mem.mpr fun x hx => ?_
    have hmem := Effect.mem_of.mpr ⟨hx, rfl⟩
    rw [(h x.key).2] at hmem
    cases hmem

/-- **Inversion of a step.** An entry after an event is the entry before, or what the event made of
it. -/
theorem Handled.inversion {s' : Inner V F} {out : HandleOutput V F}
    (hh : Handled s ev now s' out) {k : QueryKey} {e' : EntryCore V F}
    (he : s'.entry k = some e') :
    (ev.on k s.nextSubId = none ∧ s.entry k = some e') ∨
      ∃ kev e, s.At ev k kev e ∧ e' = s.after now k kev e := by
  cases hon : ev.on k s.nextSubId with
  | none =>
      rw [(hh.off hon).1] at he
      exact .inl ⟨rfl, he⟩
  | some kev =>
      by_cases hgone : ∀ e, s.subject k kev = some e → kev.removes e = true
      · rw [(hh.gone hon hgone).1] at he
        cases he
      · push Not at hgone
        obtain ⟨e, hsub, hr⟩ := hgone
        have hat : s.At ev k kev e := ⟨hon, hsub, Bool.eq_false_of_not_eq_true hr⟩
        rw [hat.entry hh] at he
        cases he
        exact .inr ⟨kev, e, hat, rfl⟩

/-- **Inversion of an effect.** An effect of a batch belongs to a key that the event concerns. -/
theorem Handled.effect {s' : Inner V F} {out : HandleOutput V F} (hh : Handled s ev now s' out)
    {x : Effect V F} (hx : x ∈ out.effects) :
    ∃ kev e, s.At ev x.key kev e ∧
      x ∈ (kev.react s.defaults now e).batch s.defaults now x.key
        (kev.marks s.defaults now x.key e) := by
  have hof : x ∈ Effect.of x.key out.effects := Effect.mem_of.mpr ⟨hx, rfl⟩
  cases hon : ev.on x.key s.nextSubId with
  | none =>
      rw [(hh.off hon).2] at hof
      cases hof
  | some kev =>
      by_cases hgone : ∀ e, s.subject x.key kev = some e → kev.removes e = true
      · rw [(hh.gone hon hgone).2] at hof
        cases hof
      · push Not at hgone
        obtain ⟨e, hsub, hr⟩ := hgone
        have hat : s.At ev x.key kev e := ⟨hon, hsub, Bool.eq_false_of_not_eq_true hr⟩
        rw [hat.effects hh] at hof
        exact ⟨kev, e, hat, hof⟩

/-- … and all of them are emitted. -/
theorem At.mem_effects {k : QueryKey} {kev : KeyEvent V F} {e : EntryCore V F}
    (h : s.At ev k kev e) {s' : Inner V F} {out : HandleOutput V F}
    (hh : Handled s ev now s' out) {x : Effect V F}
    (hx : x ∈ (kev.react s.defaults now e).batch s.defaults now k
      (kev.marks s.defaults now k e)) : x ∈ out.effects := by
  rw [← h.effects hh] at hx
  exact (Effect.mem_of.mp hx).1

/-- An event keeps the channel and the incarnation of an entry. -/
theorem after_frame (k : QueryKey) (kev : KeyEvent V F) (e : EntryCore V F) :
    (s.after now k kev e).tx = e.tx ∧ (s.after now k kev e).incarnation = e.incarnation := by
  have hf := EntryCore.SameFrame.react s.defaults now e kev
  have hset : (s.after now k kev e).tx = (kev.react s.defaults now e).tx ∧
      (s.after now k kev e).incarnation = (kev.react s.defaults now e).incarnation :=
    settled_frame _ _
  exact ⟨hset.1.trans hf.tx, hset.2.trans hf.incarnation⟩

/-- Only an idle entry is ever removed. -/
theorem Handled.entry_isSome {s' : Inner V F} {out : HandleOutput V F}
    (hh : Handled s ev now s' out) {k : QueryKey} {e : EntryCore V F} (he : s.entry k = some e)
    (hq : e.isQuiescent = false) : (s'.entry k).isSome := by
  cases hon : ev.on k s.nextSubId with
  | none =>
      rw [(hh.off hon).1, he]
      rfl
  | some kev =>
      have hsub : s.subject k kev = some e := by
        unfold subject
        split_ifs
        · rw [he]
          rfl
        · exact he
      have hr : kev.removes e = false := by
        cases kev with
        | timerFired kind generation => cases kind <;> simp [KeyEvent.removes, hq]
        | _ => rfl
      have hat : s.At ev k kev e := ⟨hon, hsub, hr⟩
      rw [hat.entry hh]
      rfl

/-- An event that creates a missing entry takes one incarnation. -/
theorem allocated_of_creates {k : QueryKey} {kev : KeyEvent V F}
    (hon : ev.on k s.nextSubId = some kev) (hc : kev.creates = true)
    (he : s.entry k = none) : s.allocated ev = 1 := by
  simp [allocated, Event.createdKey_of_on hon hc, he]

/-! ## The effects of a step, by kind -/

/-- The timers of a key are timers of that key. -/
theorem timers_eq {defaults : QueryOptions} {k : QueryKey} {e : EntryCore V F} {m : Marks V F}
    {x : Effect V F} (hx : x ∈ e.timers defaults now k m) :
    ∃ kind deadline generation, x = .scheduleTimer k kind deadline generation := by
  unfold EntryCore.timers at hx
  rcases List.mem_append.mp hx with hx | hx
  · split_ifs at hx
    · obtain ⟨_, _, h⟩ := gcTimer_eq _ _ _ _ hx
      exact ⟨_, _, _, h⟩
    · cases hx
  · split_ifs at hx
    · obtain ⟨_, _, h⟩ := refreshTimer_eq _ _ _ hx
      exact ⟨_, _, _, h⟩
    · obtain ⟨_, _, h⟩ := refreshTimer_eq _ _ _ hx
      exact ⟨_, _, _, h⟩
    · cases hx

/-- A batch has the fetch of the handler, the timers, and a snapshot if there is one to publish. -/
theorem mem_batch {defaults : QueryOptions} {k : QueryKey} {e : EntryCore V F} {m : Marks V F}
    {x : Effect V F} : x ∈ e.batch defaults now k m ↔
      x ∈ m.effects ∨ x ∈ e.timers defaults now k m ∨
        (m.notify = true ∧ x = .notify e.tx (e.settled now m).snapshotNow) := by
  unfold EntryCore.batch
  rw [List.mem_append, List.mem_append, or_assoc]
  cases m.notify <;> simp

/-- Only the handler starts fetches. -/
theorem startFetch_mem_batch {defaults : QueryOptions} {k key : QueryKey} {e : EntryCore V F}
    {m : Marks V F} {incarnation seq : Nat} {fetcher : F} :
    .startFetch key incarnation seq fetcher ∈ e.batch defaults now k m ↔
      .startFetch key incarnation seq fetcher ∈ m.effects := by
  rw [mem_batch]
  constructor
  · rintro (hx | hx | ⟨-, hx⟩)
    · exact hx
    · obtain ⟨_, _, _, h⟩ := timers_eq hx
      cases h
    · cases hx
  · exact Or.inl

/-- A fetch starts exactly where `starts` says so, with the next seq of the entry. -/
theorem startFetch_mem_marks {defaults : QueryOptions} {k key : QueryKey} {kev : KeyEvent V F}
    {e : EntryCore V F} {incarnation seq : Nat} {fetcher : F} :
    .startFetch key incarnation seq fetcher ∈ (kev.marks defaults now k e).effects ↔
      kev.starts defaults now e = true ∧ key = k ∧ incarnation = e.incarnation ∧
        seq = (kev.apply defaults now e).seq + 1 ∧
        (kev.apply defaults now e).fetcher = some fetcher := by
  have hinc := (EntryCore.SameFrame.apply defaults now e kev).incarnation
  simp only [KeyEvent.marks, KeyEvent.react]
  cases hs : kev.starts defaults now e with
  | false => simp
  | true =>
      simp only [if_true, EntryCore.fetchEffect, EntryCore.started, List.mem_map,
        Option.mem_toList, true_and]
      constructor
      · rintro ⟨f, hf, hx⟩
        cases hx
        exact ⟨rfl, hinc, rfl, hf⟩
      · rintro ⟨rfl, rfl, rfl, hf⟩
        exact ⟨fetcher, hf, by rw [hinc]⟩

/-- A fetch that is emitted was started by the event, for the entry that it acted on. -/
theorem Handled.startFetch {s' : Inner V F} {out : HandleOutput V F}
    (hh : Handled s ev now s' out) {k : QueryKey} {incarnation seq : Nat} {fetcher : F}
    (hx : .startFetch k incarnation seq fetcher ∈ out.effects) :
    ∃ kev e, s.At ev k kev e ∧ kev.starts s.defaults now e = true ∧
      incarnation = e.incarnation ∧ seq = (kev.apply s.defaults now e).seq + 1 := by
  obtain ⟨kev, e, hat, hmem⟩ := hh.effect hx
  obtain ⟨hs, -, hinc, hseq, -⟩ := startFetch_mem_marks.mp (startFetch_mem_batch.mp hmem)
  exact ⟨kev, e, hat, hs, hinc, hseq⟩

/-- A fetch that the event starts is emitted. -/
theorem At.startFetch {s' : Inner V F} {out : HandleOutput V F} {k : QueryKey}
    {kev : KeyEvent V F} {e : EntryCore V F} (hat : s.At ev k kev e)
    (hh : Handled s ev now s' out) (hs : kev.starts s.defaults now e = true) :
    ∃ fetcher, .startFetch k e.incarnation ((kev.apply s.defaults now e).seq + 1) fetcher ∈
      out.effects := by
  have hc := (Bool.and_eq_true _ _ ▸ hs : _ ∧ _).2
  obtain ⟨fetcher, hf⟩ := Option.isSome_iff_exists.mp (canStartFetch_iff.mp hc).1
  exact ⟨fetcher, hat.mem_effects hh (startFetch_mem_batch.mpr
    (startFetch_mem_marks.mpr ⟨hs, rfl, rfl, rfl, hf⟩))⟩

/-- A `Notify` carries the entry as the event left it. -/
theorem notify_mem_batch {defaults : QueryOptions} {k : QueryKey} {kev : KeyEvent V F}
    {e e' : EntryCore V F} {tx : Channel} {snapshot : Snapshot V} :
    .notify tx snapshot ∈ e'.batch defaults now k (kev.marks defaults now k e) ↔
      kev.notifies defaults now e = true ∧ tx = e'.tx ∧
        snapshot = (e'.settled now (kev.marks defaults now k e)).snapshotNow := by
  rw [mem_batch]
  constructor
  · rintro (hx | hx | ⟨hn, hx⟩)
    · obtain ⟨_, _, _, h⟩ := marks_effects now defaults k e kev _ hx
      cases h
    · obtain ⟨_, _, _, h⟩ := timers_eq hx
      cases h
    · cases hx
      exact ⟨hn, rfl, rfl⟩
  · rintro ⟨hn, rfl, rfl⟩
    exact .inr (.inr ⟨hn, rfl⟩)

/-- A snapshot that is emitted shows the entry that the event left. -/
theorem Handled.notify {s' : Inner V F} {out : HandleOutput V F}
    (hh : Handled s ev now s' out) {tx : Channel} {snapshot : Snapshot V}
    (hx : .notify tx snapshot ∈ out.effects) :
    ∃ kev e, s.At ev tx.key kev e ∧ kev.notifies s.defaults now e = true ∧ tx = e.tx ∧
      snapshot = (s.after now tx.key kev e).snapshotNow := by
  obtain ⟨kev, e, hat, hmem⟩ := hh.effect hx
  obtain ⟨hn, htx, hsn⟩ := notify_mem_batch.mp hmem
  rw [(EntryCore.SameFrame.react s.defaults now e kev).tx] at htx
  exact ⟨kev, e, hat, hn, htx, hsn⟩

end stages

end Inner

end SwrCore
