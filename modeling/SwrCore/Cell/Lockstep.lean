import SwrCore.Cell.View

/-!
# `handle` seen through a view

A view that keeps the names takes one call of `handle` to one call of `handle`: the table, the
outcome and the whole batch of effects, in its order, are those of the machine that works on the
values as they are seen.

* `View.KeepsNames`, `View.Sees` — a machine and the machine seen through a view.
* `View.body_entry` — the handler bodies.
* `View.Sees.forEntries`, `View.Sees.keyed` — the loops and the lookups.
* `View.Sees.handle` — `handle`.
-/

set_option linter.unusedSectionVars false

namespace SwrCore

variable {V W F : Type}

namespace View

/-- The view leaves incarnations and subscription ids as they are. -/
structure KeepsNames (v : View V W) : Prop where
  incarnation : ∀ n, v.incarnation n = n
  subId : ∀ n, v.subId n = n

/-- A view of the content leaves the names alone. -/
theorem content_keepsNames {C : Type} (f : V → C) : (View.content f).KeepsNames :=
  ⟨fun _ => rfl, fun _ => rfl⟩

/-- Every comparator stored in the entry is one that the view agrees with. -/
def Fair (v : View V W) (e : EntryCore V F) : Prop := ∀ f, e.compare = some f → v.Admits f

/-- The machine `t` is the machine `s`, seen through the view. -/
structure Sees (v : View V W) (s : Inner V F) (t : Inner W F) : Prop where
  defaults : t.defaults = s.defaults
  nextSubId : t.nextSubId = s.nextSubId
  nextIncarnation : t.nextIncarnation = s.nextIncarnation
  entry : ∀ k, t.entry k = (s.entry k).map v.entry
  fair : ∀ k e, s.entry k = some e → v.Fair e

/-- The working set seen through the view. -/
def ctx (v : View V W) (ctx : Ctx V F) : Ctx W F where
  effects := ctx.effects.map v.effect
  notify := ctx.notify
  touched := ctx.touched
  refreshChanged := ctx.refreshChanged

section bodies

variable (v : View V W)

/-- To mark a key is seen as to mark it. -/
theorem ctx_mark (ctx : Ctx V F) (key : QueryKey) (m : Marks V F) :
    v.ctx (ctx.mark key m) = (v.ctx ctx).mark key (v.marks m) := by
  simp only [View.ctx, Ctx.mark, marks, List.map_append]
  rfl

/-- A new entry stores no comparator. -/
theorem fair_new (key : QueryKey) (n : Nat) : v.Fair (.new key n : EntryCore V F) := by
  intro f hf
  cases hf

variable [Platform] (defaults : QueryOptions) (now : Instant) {e : EntryCore V F}

/-- An event stores no comparator but the one it brings. -/
theorem fair_react (he : v.Fair e) {kev : KeyEvent V F}
    (hkev : ∀ f, kev.compare? = some f → v.Admits f) : v.Fair (kev.react defaults now e) := by
  intro f hf
  rw [(KeyEvent.supply_react defaults now e kev).2] at hf
  cases hc : kev.compare? with
  | none =>
      rw [hc, Option.none_or] at hf
      exact he f hf
  | some f' =>
      rw [hc, Option.some_or] at hf
      exact hkev f (hc.trans hf)

/-- A handler body that ends without a panic does the same to what is seen. -/
theorem body_entry (he : v.Fair e) {key : QueryKey} {kev : KeyEvent V F} (hkey : kev.OfKey key)
    {ctx ctx₁ : Ctx V F} {e₁ : EntryCore V F} {out : Outcome V}
    (h : kev.body defaults now key e ctx = .ok (e₁, ctx₁, out)) :
    (v.keyEvent kev).body defaults now key (v.entry e) (v.ctx ctx) =
        .ok (v.entry e₁, v.ctx ctx₁, v.outcome out) ∧
      e₁ = kev.react defaults now e := by
  have hsafe := safe_of_body defaults now key h
  have hkey' : (v.keyEvent kev).OfKey key := by cases kev <;> exact hkey
  rw [body_eq defaults now key hsafe ctx hkey] at h
  cases h
  rw [body_eq defaults now key ((v.safe_entry e kev).mpr hsafe) (v.ctx ctx) hkey',
    v.react_entry defaults now e he, v.marks_entry defaults now e he,
    v.outcome_entry defaults now e he, ctx_mark]
  exact ⟨rfl, rfl⟩

end bodies

/-! ## Tables -/

section tables

variable {v : View V W} {s : Inner V F} {t : Inner W F}

/-- A new machine is seen as a new one. -/
theorem Sees.init (v : View V W) (defaults : QueryOptions) :
    v.Sees (.new defaults : Inner V F) (.new defaults) :=
  ⟨rfl, rfl, rfl, fun _ => rfl, fun _ _ h => by cases h⟩

/-- To write an entry back is seen as to write back what is seen of it. -/
theorem Sees.put (h : v.Sees s t) (key : QueryKey) {e : EntryCore V F} (he : v.Fair e) :
    v.Sees (s.put key e) (t.put key (v.entry e)) := by
  refine ⟨h.defaults, h.nextSubId, h.nextIncarnation, fun k => ?_, fun k e' he' => ?_⟩
  · by_cases hk : k = key
    · subst hk
      rw [Inner.entry_put, Inner.entry_put]
      rfl
    · rw [Inner.entry_put_ne _ _ hk, Inner.entry_put_ne _ _ hk]
      exact h.entry k
  · by_cases hk : k = key
    · subst hk
      rw [Inner.entry_put] at he'
      cases he'
      exact he
    · rw [Inner.entry_put_ne _ _ hk] at he'
      exact h.fair k e' he'

/-- The two tables have the same keys. -/
theorem Sees.mem_iff (h : v.Sees s t) (k : QueryKey) : k ∈ t.entries ↔ k ∈ s.entries := by
  rw [Inner.mem_entries, Inner.mem_entries, h.entry k]
  cases s.entry k <;> simp

/-- **The loops in lockstep.** -/
theorem Sees.forEntries {missing : Except Panic Unit}
    {body : QueryKey → EntryCore V F → Ctx V F → Except Panic (EntryCore V F × Ctx V F)}
    {b : QueryKey → EntryCore W F → Ctx W F → Except Panic (EntryCore W F × Ctx W F)}
    {f : QueryKey → EntryCore V F → EntryCore V F} {m : QueryKey → EntryCore V F → Marks V F}
    (hbody : ∀ key e ctx, body key e ctx = .ok (f key e, ctx.mark key (m key e)))
    (hbody' : ∀ key e ctx, v.Fair e → b key (v.entry e) ctx =
      .ok (v.entry (f key e), ctx.mark key (v.marks (m key e))))
    (hfair : ∀ key e, v.Fair e → v.Fair (f key e)) (keys : List QueryKey) (h : v.Sees s t)
    {ctx ctx₁ : Ctx V F} {s₁ : Inner V F}
    (hrun : Inner.forEntries missing body keys s ctx = .ok (s₁, ctx₁)) :
    ∃ t₁, Inner.forEntries missing b keys t (v.ctx ctx) = .ok (t₁, v.ctx ctx₁) ∧
      v.Sees s₁ t₁ := by
  induction keys generalizing s t ctx with
  | nil =>
      cases hrun
      exact ⟨t, rfl, h⟩
  | cons key keys ih =>
      have hentry := h.entry key
      unfold Inner.forEntries at hrun ⊢
      cases he : s.entry key with
      | none =>
          rw [he] at hrun hentry
          obtain ⟨_, hmiss, hrun⟩ := bind_eq_ok.mp hrun
          obtain ⟨t₁, hrun', h₁⟩ := ih h hrun
          refine ⟨t₁, ?_, h₁⟩
          simp only [hentry, Option.map_none]
          exact bind_eq_ok.mpr ⟨_, hmiss, hrun'⟩
      | some e =>
          rw [he] at hrun hentry
          have hfe := h.fair key e he
          simp only [hbody, ok_bind] at hrun
          obtain ⟨t₁, hrun', h₁⟩ := ih (h.put key (hfair key e hfe)) hrun
          refine ⟨t₁, ?_, h₁⟩
          simp only [hentry, Option.map_some, hbody' key e _ hfe, ok_bind, ← ctx_mark]
          exact hrun'

end tables

/-! ## The handlers -/

section handlers

variable [Platform] {v : View V W} {s s₁ : Inner V F} {t : Inner W F} {ev : Event V F}
  {now : Instant} {scan : List QueryKey}

/-- A view does not change which events scan the table. -/
theorem scans_event (v : View V W) (ev : Event V F) : (v.event ev).scans = ev.scans := by
  cases ev <;> rfl

/-- An event that concerns one key only is seen as one that concerns that key only. -/
theorem Sees.keyed (hv : v.KeepsNames) (h : v.Sees s t) {key : QueryKey} {kev : KeyEvent V F}
    {missing : Except Panic (Outcome V)} (hk : s.Keyed ev key kev missing)
    (hs : ev.scans = false) (hgc : ∀ key generation, ev ≠ .timerFired key .gc generation) :
    ∃ missing', t.Keyed (v.event ev) key (v.keyEvent kev) missing' := by
  have hs' : (v.event ev).scans = false := (scans_event v ev).trans hs
  have hgc' : ∀ key generation, v.event ev ≠ .timerFired key .gc generation := by
    intro key generation heq
    cases ev <;> cases heq
    exact hgc key generation rfl
  obtain ⟨key', kev', missing', hk'⟩ := t.keyed hs' hgc'
  have hon := v.on_event ev key' s.nextSubId
  rw [hv.subId, ← h.nextSubId, hk'.on key', if_pos rfl, h.nextSubId, hk.on key'] at hon
  split_ifs at hon with hkey
  · subst hkey
    cases hon
    exact ⟨missing', hk'⟩
  · cases hon

/-- Both machines count subscriptions alike. -/
theorem Sees.counted (h : v.Sees s t) (ev : Event V F) :
    v.Sees (s.counted ev) (t.counted (v.event ev)) := by
  refine ⟨h.defaults, ?_, h.nextIncarnation, h.entry, h.fair⟩
  have hsub : Inner.subscribed (v.event ev) = Inner.subscribed ev := by cases ev <;> rfl
  simp only [Inner.counted, hsub, h.nextSubId]

/-- They create the same entries, under the same incarnations. -/
theorem Sees.created (hv : v.KeepsNames) (h : v.Sees s t) (key : QueryKey) :
    v.Sees (s.created key) (t.created key) := by
  unfold Inner.created
  simp only [h.mem_iff key]
  split_ifs with hmem
  · exact h
  · have hnew : v.entry (.new key s.nextIncarnation : EntryCore V F) =
        .new key t.nextIncarnation := by
      rw [entry_new, hv.incarnation, h.nextIncarnation]
    have hput := h.put key (v.fair_new key s.nextIncarnation)
    rw [hnew] at hput
    exact ⟨hput.defaults, hput.nextSubId, congrArg (· + 1) h.nextIncarnation, hput.entry,
      hput.fair⟩

/-- The entry that a handler gets, stored or new. -/
theorem Sees.subject (hv : v.KeepsNames) (h : v.Sees s t) (key : QueryKey) :
    (t.entry key).getD (.new key t.nextIncarnation) =
        v.entry ((s.entry key).getD (.new key s.nextIncarnation)) ∧
      v.Fair ((s.entry key).getD (.new key s.nextIncarnation)) := by
  rw [h.entry key]
  cases he : s.entry key with
  | none =>
      refine ⟨?_, v.fair_new key _⟩
      rw [Option.map_none, Option.getD_none, Option.getD_none, entry_new, hv.incarnation,
        h.nextIncarnation]
  | some e => exact ⟨rfl, h.fair key e he⟩

/-- **The handlers of one key in lockstep.** -/
theorem Sees.act (hv : v.KeepsNames) (h : v.Sees s t) {key : QueryKey} {kev : KeyEvent V F}
    {missing : Except Panic (Outcome V)} {missing' : Except Panic (Outcome W)}
    (hk : s.Keyed ev key kev missing) (hk' : t.Keyed (v.event ev) key (v.keyEvent kev) missing')
    (hkev : ∀ f, kev.compare? = some f → v.Admits f) {ctx ctx₁ : Ctx V F} {out : Outcome V}
    (hrun : s.react ev now scan ctx = .ok (s₁, ctx₁, out)) :
    ∃ t₁, t.react (v.event ev) now scan (v.ctx ctx) = .ok (t₁, v.ctx ctx₁, v.outcome out) ∧
      v.Sees s₁ t₁ := by
  have hof : kev.OfKey key := Event.ofKey_of_on ((hk.on key).trans (if_pos rfl))
  have hc := h.counted ev
  have hdef : (t.counted (v.event ev)).defaults = (s.counted ev).defaults := hc.defaults
  rw [hk.act now scan] at hrun
  rw [hk'.act now scan]
  unfold Inner.act at hrun ⊢
  rw [creates_keyEvent]
  by_cases hcreate : kev.creates = true
  · simp only [hcreate, if_true, Inner.withEntryOrCreate, Inner.entryOrCreate_eq, ok_bind] at hrun ⊢
    obtain ⟨⟨e₁, ctx', out'⟩, hbody, hrun⟩ := bind_eq_ok.mp hrun
    cases hrun
    obtain ⟨heq, hfair⟩ := hc.subject hv key
    obtain ⟨hbody', rfl⟩ := v.body_entry _ now hfair hof hbody
    have hput := (hc.created hv key).put key (v.fair_react (s.counted ev).defaults now hfair hkev)
    refine ⟨_, ?_, hput⟩
    rw [heq, hdef]
    exact bind_eq_ok.mpr ⟨_, hbody', rfl⟩
  · simp only [hcreate, Bool.false_eq_true, if_false, Inner.withEntry] at hrun ⊢
    have hentry := hc.entry key
    cases he : (s.counted ev).entry key with
    | none =>
        rw [he] at hrun hentry
        obtain ⟨out', hmiss, hrun⟩ := bind_eq_ok.mp hrun
        cases hrun
        have hset : kev.settles = false := by
          by_contra hset
          have hpanic := hk.missing
          rw [if_pos (Bool.eq_true_of_not_eq_false hset), hmiss] at hpanic
          obtain ⟨p, hp⟩ := hpanic
          cases hp
        have hset' : (v.keyEvent kev).settles = false := by
          rw [← hset]
          cases kev <;> rfl
        have hm := hk.missing
        have hm' := hk'.missing
        rw [hset, if_neg Bool.false_ne_true, hmiss] at hm
        rw [hset', if_neg Bool.false_ne_true, missOutcome_entry, ← Except.ok.inj hm] at hm'
        refine ⟨_, ?_, hc⟩
        simp only [hentry, Option.map_none]
        exact bind_eq_ok.mpr ⟨_, hm', rfl⟩
    | some e =>
        rw [he] at hrun hentry
        obtain ⟨⟨e₁, ctx', out'⟩, hbody, hrun⟩ := bind_eq_ok.mp hrun
        cases hrun
        have hfair := hc.fair key e he
        obtain ⟨hbody', rfl⟩ := v.body_entry _ now hfair hof hbody
        refine ⟨_, ?_, hc.put key (v.fair_react _ now hfair hkev)⟩
        simp only [hentry, Option.map_some, hdef]
        exact bind_eq_ok.mpr ⟨_, hbody', rfl⟩

/-- They remove the same entries. -/
theorem Sees.onTimerGc (h : v.Sees s t) (key : QueryKey) (generation : Nat) :
    v.Sees (s.onTimerGc key generation) (t.onTimerGc key generation) := by
  have herase : v.Sees ({ s with entries := s.entries.erase key } : Inner V F)
      { t with entries := t.entries.erase key } := by
    refine ⟨h.defaults, h.nextSubId, h.nextIncarnation, fun k => ?_, fun k e he => ?_⟩
    · by_cases hk : k = key
      · subst hk
        change (t.entries.erase k).lookup k = ((s.entries.erase k).lookup k).map v.entry
        rw [Finmap.lookup_erase, Finmap.lookup_erase]
        rfl
      · change (t.entries.erase key).lookup k = ((s.entries.erase key).lookup k).map v.entry
        rw [Finmap.lookup_erase_ne hk, Finmap.lookup_erase_ne hk]
        exact h.entry k
    · change (s.entries.erase key).lookup k = some e at he
      by_cases hk : k = key
      · subst hk
        rw [Finmap.lookup_erase] at he
        cases he
      · rw [Finmap.lookup_erase_ne hk] at he
        exact h.fair k e he
  have hentry := h.entry key
  unfold Inner.onTimerGc
  cases he : s.entry key with
  | none =>
      rw [he] at hentry
      simp only [hentry, Option.map_none]
      exact h
  | some e =>
      rw [he] at hentry
      simp only [hentry, Option.map_some, entry_gcGen]
      have hquiet : (v.entry e).isQuiescent = e.isQuiescent := rfl
      rw [hquiet]
      split_ifs
      · exact h
      · exact herase
      · exact h

/-- **The handlers in lockstep.** -/
theorem Sees.react (hv : v.KeepsNames) (h : v.Sees s t)
    (hev : ∀ k n kev f, ev.on k n = some kev → kev.compare? = some f → v.Admits f)
    {ctx₁ : Ctx V F} {out : Outcome V} (hrun : s.react ev now scan .empty = .ok (s₁, ctx₁, out)) :
    ∃ t₁, t.react (v.event ev) now scan .empty = .ok (t₁, v.ctx ctx₁, v.outcome out) ∧
      v.Sees s₁ t₁ := by
  have hbroadcast : ∀ kev : KeyEvent V F, kev.compare? = none → ∀ f, kev.compare? = some f →
      v.Admits f := fun kev hnone f hf => by rw [hnone] at hf; cases hf
  by_cases hs : ev.scans = true
  · cases ev with
    | invalidate pre =>
        obtain ⟨⟨s₂, ctx₂⟩, hloop, hrun⟩ := bind_eq_ok.mp hrun
        cases hrun
        obtain ⟨t₁, hloop', h₁⟩ := h.forEntries
          (b := fun key e ctx => e.onInvalidate key ctx)
          (fun key e ctx => onInvalidate_eq s.defaults now key e ctx)
          (fun key e ctx he => by
            rw [onInvalidate_eq s.defaults now key (v.entry e) ctx,
              ← v.react_entry s.defaults now e he, ← v.marks_entry s.defaults now e he]
            rfl)
          (fun key e he => v.fair_react s.defaults now he (hbroadcast _ rfl)) _ hloop
        exact ⟨t₁, bind_eq_ok.mpr ⟨_, hloop', rfl⟩, h₁⟩
    | broadcast ev =>
        obtain ⟨⟨s₂, ctx₂⟩, hloop, hrun⟩ := bind_eq_ok.mp hrun
        cases hrun
        obtain ⟨t₁, hloop', h₁⟩ := h.forEntries
          (b := fun key e ctx => e.onBroadcast t.defaults ev now key ctx)
          (fun key e ctx => onBroadcast_eq s.defaults now key e ev ctx)
          (fun key e ctx he => by
            rw [onBroadcast_eq t.defaults now key (v.entry e) ev ctx, h.defaults,
              ← v.react_entry s.defaults now e he, ← v.marks_entry s.defaults now e he]
            rfl)
          (fun key e he => v.fair_react s.defaults now he (hbroadcast _ rfl)) _ hloop
        exact ⟨t₁, bind_eq_ok.mpr ⟨_, hloop', rfl⟩, h₁⟩
    | _ => cases hs
  · have hs := Bool.eq_false_of_not_eq_true hs
    by_cases hgc : ∃ key generation, ev = .timerFired key .gc generation
    · obtain ⟨key, generation, rfl⟩ := hgc
      cases hrun
      exact ⟨_, rfl, h.onTimerGc key generation⟩
    · have hgc : ∀ key generation, ev ≠ .timerFired key .gc generation :=
        fun key generation heq => hgc ⟨key, generation, heq⟩
      obtain ⟨key, kev, missing, hk⟩ := s.keyed hs hgc
      obtain ⟨missing', hk'⟩ := h.keyed hv hk hs hgc
      have hadmits : ∀ f, kev.compare? = some f → v.Admits f :=
        fun f => hev key s.nextSubId kev f ((hk.on key).trans (if_pos rfl))
      have hact := h.act hv hk hk' hadmits hrun
      exact hact

/-- The post-rules run over the same keys, and end alike. -/
theorem Sees.postRules (h : v.Sees s t) {ctx ctx₁ : Ctx V F}
    (hrun : s.postRules now ctx = .ok (s₁, ctx₁)) :
    ∃ t₁, t.postRules now (v.ctx ctx) = .ok (t₁, v.ctx ctx₁) ∧ v.Sees s₁ t₁ := by
  unfold Inner.postRules at hrun ⊢
  obtain ⟨⟨s₂, ctx₂⟩, hgc, hrun⟩ := bind_eq_ok.mp hrun
  obtain ⟨t₂, hgc', h₂⟩ := h.forEntries
    (b := fun key e ctx => e.gcRule t.defaults now key ctx)
    (fun key e ctx => gcRule_eq s.defaults now key e ctx)
    (fun key e ctx _ => by
      rw [gcRule_eq, h.defaults, gcArmed_entry, gcTimer_entry]
      rfl)
    (fun key e he f hf => he f (by
      unfold EntryCore.gcArmed at hf
      split_ifs at hf <;> exact hf)) _ hgc
  obtain ⟨t₁, hrefresh', h₁⟩ := h₂.forEntries
    (b := fun key e ctx => e.refreshRule now key ctx)
    (fun key e ctx => refreshRule_eq now key e ctx)
    (fun key e ctx _ => by
      rw [refreshRule_eq, refreshArmed_entry, refreshTimer_entry]
      rfl)
    (fun key e he f hf => he f (by
      unfold EntryCore.refreshArmed at hf
      split_ifs at hf <;> exact hf)) _ hrun
  exact ⟨t₁, bind_eq_ok.mpr ⟨_, hgc', hrefresh'⟩, h₁⟩

/-- So does the loop that publishes. -/
theorem Sees.flushNotifies (h : v.Sees s t) {ctx ctx₁ : Ctx V F}
    (hrun : s.flushNotifies ctx = .ok (s₁, ctx₁)) :
    ∃ t₁, t.flushNotifies (v.ctx ctx) = .ok (t₁, v.ctx ctx₁) ∧ v.Sees s₁ t₁ := by
  unfold Inner.flushNotifies at hrun
  exact h.forEntries (b := fun _ e ctx => e.flushNotify ctx)
    (fun key e ctx => flushNotify_eq key e ctx)
    (fun key e ctx _ => by
      rw [flushNotify_eq key]
      rfl)
    (fun _ _ he => he) _ hrun

/-- What a call returned, seen through the view. -/
def output (v : View V W) (out : HandleOutput V F) : HandleOutput W F :=
  ⟨v.outcome out.outcome, out.effects.map v.effect⟩

/-- **`handle` in lockstep.** A call of `handle` is seen through the view as a call of `handle`:
the same outcome and the same effects in the same order, up to the view. -/
theorem Sees.handle (hv : v.KeepsNames) (h : v.Sees s t)
    (hev : ∀ k n kev f, ev.on k n = some kev → kev.compare? = some f → v.Admits f)
    {out : HandleOutput V F} (hrun : s.handle ev now scan = .ok (s₁, out)) :
    ∃ t₁, t.handle (v.event ev) now scan = .ok (t₁, v.output out) ∧ v.Sees s₁ t₁ := by
  unfold Inner.handle at hrun ⊢
  obtain ⟨⟨s₂, ctx₂, out₂⟩, hreact, hrun⟩ := bind_eq_ok.mp hrun
  obtain ⟨⟨s₃, ctx₃⟩, hpost, hrun⟩ := bind_eq_ok.mp hrun
  obtain ⟨⟨s₄, ctx₄⟩, hflush, hrun⟩ := bind_eq_ok.mp hrun
  cases hrun
  obtain ⟨t₂, hreact', h₂⟩ := h.react hv hev hreact
  obtain ⟨t₃, hpost', h₃⟩ := h₂.postRules hpost
  obtain ⟨t₄, hflush', h₄⟩ := h₃.flushNotifies hflush
  exact ⟨t₄, bind_eq_ok.mpr ⟨_, hreact', bind_eq_ok.mpr ⟨_, hpost', bind_eq_ok.mpr
    ⟨_, hflush', rfl⟩⟩⟩, h₄⟩

end handlers

end View

end SwrCore
