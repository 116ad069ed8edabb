import SwrCore.Shell.Undo
import SwrCore.Shell.Window

/-!
# The revalidation that closes a group of mutations

Mutations on a key overlap, and each says when it settles whether the key shall be revalidated. The
source acts on it when the last one settles, and asks that one only.

* `Shell.Group` — mutations on a key from the first that begins to the last that settles.
* `KeyEvent.invalidated_settles` — what a settlement makes of the mark of an invalidation.
* `Shell.Inv.closing_starts` — the last settlement starts a fetch exactly if it asks for one, or the mark
  is still there.
* `Shell.closing_iff` — the closing revalidation is what the group asked for unless an earlier settlement
  asked and the last one does not.
* `Shell.forgotten_request` — a group whose request is forgotten.
-/

set_option linter.unusedSectionVars false

namespace SwrCore

variable {V F : Type}

/-- The event settles a mutation on the key, and asks for its revalidation. -/
def Event.asks (k : QueryKey) : Event V F → Prop
  | .mutateCommit token _ flags => token.key = k ∧ flags.revalidate = true
  | .mutateAbort token flags => token.key = k ∧ flags.revalidate = true
  | _ => False

/-- The event settles a mutation on the key. -/
def Event.closes (k : QueryKey) (ev : Event V F) : Prop :=
  ∃ token, ev.settled? = some token ∧ token.key = k

/-- The settlement asks for a revalidation. -/
def KeyEvent.asks : KeyEvent V F → Bool
  | .mutateCommit _ _ flags => flags.revalidate
  | .mutateAbort _ flags => flags.revalidate
  | _ => false

theorem Event.asks_of_on {k : QueryKey} {subId : Nat} {ev : Event V F} {kev : KeyEvent V F}
    (h : ev.on k subId = some kev) : ev.asks k ↔ kev.asks = true := by
  cases Event.on_inv h with
  | mutateCommit hk => exact and_iff_right hk
  | mutateAbort hk => exact and_iff_right hk
  | _ => exact ⟨False.elim, nofun⟩

theorem Event.writes_iff_on {k : QueryKey} {subId : Nat} {ev : Event V F} {kev : KeyEvent V F}
    (h : ev.on k subId = some kev) : ev.writes k ↔ kev.writes := by
  refine ⟨fun hw => ?_, Event.writes_of_on h⟩
  cases Event.on_inv h with
  | mutateSet => trivial
  | @mutateCommit token result flags hk =>
      rcases result with error | _ | value
      · exact hw
      · exact hw
      · exact hw.2
  | _ => exact hw

/-! ## The settlement of one entry -/

section cell

variable [Platform] {defaults : QueryOptions} {now : Instant} {e : EntryCore V F}
  {kev : KeyEvent V F}

/-- A settlement populates the entry, or writes no more than a rollback does. -/
theorem KeyEvent.settled_cases (h : kev.settles = true) :
    (kev.writes ∧ ∃ value, kev.apply defaults now e = e.released.overwritten value now) ∨
      (¬ kev.writes ∧ ∃ d x n t o, kev.apply defaults now e =
        { e.released with
          data := d, error := x, dataSeq := n, updatedAt := t, optimistic := o }) := by
  cases kev with
  | mutateCommit token result flags =>
      by_cases hw : (KeyEvent.mutateCommit token result flags : KeyEvent V F).writes
      · refine .inl ⟨hw, ?_⟩
        rcases result with error | _ | value
        · exact hw.elim
        · exact hw.elim
        · have hp : flags.populate = true := hw
          exact ⟨value, by simp only [KeyEvent.apply, EntryCore.resolved, hp, if_true]⟩
      · refine .inr ⟨hw, ?_⟩
        rcases e.released.resolved_cases token result flags now with
          ⟨value, rfl, hp, -⟩ | ⟨d, x, n, t, o, heq⟩
        · exact absurd hp hw
        · exact ⟨d, x, n, t, o, heq⟩
  | mutateAbort token flags =>
      exact .inr ⟨id, e.released.rolledBack_eq token flags.rollbackOnError⟩
  | _ => cases h

/-- After a settlement the mark of an invalidation is still there, unless the settlement populates. -/
theorem KeyEvent.invalidated_settles (h : kev.settles = true) :
    (kev.apply defaults now e).invalidated = true ↔ e.invalidated = true ∧ ¬ kev.writes := by
  have hcases : (kev.writes ∧ ∃ value, kev.apply defaults now e = _) ∨ _ :=
    KeyEvent.settled_cases h
  rcases hcases with ⟨hw, value, heq⟩ | ⟨hw, _, _, _, _, _, heq⟩
  · rw [heq]
    exact iff_of_false nofun fun hmark => hmark.2 hw
  · rw [heq]
    exact ⟨fun hmark => ⟨hmark, hw⟩, fun hmark => hmark.1⟩

/-- Only the settlement of its last mutation leaves an entry without one. -/
theorem KeyEvent.settles_of_idle (hm : 0 < e.mutationActive)
    (h : (kev.apply defaults now e).mutationActive = 0) : kev.settles = true := by
  by_cases hacc : kev.accounts = true
  · cases kev with
    | subscribe subId fetcher compare opts => exact absurd h (Nat.ne_of_gt hm)
    | unsubscribe subId => exact absurd h (Nat.ne_of_gt hm)
    | mutateBegin optimistic => cases optimistic <;> cases h
    | mutateCommit token result flags => rfl
    | mutateAbort token flags => rfl
    | _ => cases hacc
  · have hsame := EntryCore.SameOwner.apply e defaults now (Bool.eq_false_of_not_eq_true hacc)
    have hkept := hsame.mutationActive
    omega

/-- The settlement of the last mutation starts a fetch if it asks for one, or finds the mark of an
invalidation that it does not take away. -/
theorem KeyEvent.starts_settles (hshape : e.Shape) (hm : 0 < e.mutationActive)
    (hf : e.fetcher.isSome = true) (hset : kev.settles = true)
    (h : (kev.apply defaults now e).mutationActive = 0) :
    kev.starts defaults now e = true ↔ kev.asks = true ∨ e.invalidated = true ∧ ¬ kev.writes := by
  have hi : e.inflight = none := hshape.inflight_of_mutating hm
  have hready : (kev.apply defaults now e).canStartFetch = true := by
    rw [canStartFetch_iff]
    have hcases : (kev.writes ∧ ∃ value, kev.apply defaults now e = _) ∨ _ :=
      KeyEvent.settled_cases hset
    rcases hcases with ⟨-, value, heq⟩ | ⟨-, _, _, _, _, _, heq⟩
    · rw [heq] at h ⊢
      exact ⟨hf, h, rfl⟩
    · rw [heq] at h ⊢
      exact ⟨hf, h, hi⟩
  have hmark : (kev.apply defaults now e).invalidated = true ↔ _ :=
    KeyEvent.invalidated_settles hset
  rw [KeyEvent.starts, hready, Bool.and_true, ← hmark]
  cases kev with
  | mutateCommit token result flags => exact Bool.or_eq_true_iff
  | mutateAbort token flags => exact Bool.or_eq_true_iff
  | _ => cases hset

end cell

namespace Shell

/-! ## Groups of mutations -/

/-- The step starts a fetch of the key. -/
def Starts (k : QueryKey) (r : Trace.Record (Shell V F) (Call V F)) : Prop :=
  ∃ f ∈ Effect.flights r.label.out.effects, f.key = k

/-- The entry under the key carries the mark of an invalidation, and the event does not populate it. -/
def StillMarked (k : QueryKey) (r : Trace.Record (Shell V F) (Call V F)) : Prop :=
  (∃ e, r.pre.inner.entry k = some e ∧ e.invalidated = true) ∧ ¬ r.label.event.writes k

/-- A group of mutations on the key: a part of a run that leads from a state in which none is active to
one in which none is active again, with one active at every moment in between. Its last step is `r`. -/
structure Group [Platform] (k : QueryKey) (s₀ : Shell V F)
    (ys : List (Trace.Record (Shell V F) (Call V F))) (r : Trace.Record (Shell V F) (Call V F)) :
    Prop where
  run : Trace.Run Step s₀ (ys ++ [r]) r.post
  idle : ¬ Mutating k s₀
  nonempty : ys ≠ []
  busy : ∀ x ∈ ys, Mutating k x.post
  settled : ¬ Mutating k r.post

/-- What the mutations of a group ask for is done when it closes: no settlement but the last starts a
fetch, and the last one does exactly if some settlement asked for a revalidation, or an invalidation is
still to be answered. -/
def Closes (k : QueryKey) (ys : List (Trace.Record (Shell V F) (Call V F)))
    (r : Trace.Record (Shell V F) (Call V F)) : Prop :=
  (∀ x ∈ ys, x.label.event.closes k → ¬ Starts k x) ∧
    (Starts k r ↔ (∃ x ∈ ys ++ [r], x.label.event.asks k) ∨ StillMarked k r)

section step

variable [Platform] {s s' : Shell V F} {c : Call V F} {k : QueryKey}

/-- A step that leaves a mutation active starts no fetch of the key. -/
theorem Inv.not_starts_of_mutating (h : s.Inv) (hs : Step s c s') (hm : Mutating k s') :
    ¬ Starts k ⟨s, c, s'⟩ := by
  rintro ⟨f, hf, rfl⟩
  have hawaits : Awaits f s' := (h.awaits_step hs f).mpr (.inl hf)
  obtain ⟨e, he, -, hfly⟩ := hawaits
  obtain ⟨e', he', hpos⟩ := hm
  obtain rfl : e = e' := Option.some.inj (he.symm.trans he')
  have hzero := (((h.step hs).shape _ e he).flying _ hfly).mutationActive
  omega

/-- The step after which no mutation is active any more acts on the entry as a settlement. -/
theorem Inv.last_settles (h : s.Inv) (hs : Step s c s') (hm : Mutating k s)
    (hm' : ¬ Mutating k s') : ∃ kev e, s.inner.At c.event k kev e ∧ s.inner.entry k = some e ∧
      0 < e.mutationActive ∧ (kev.apply s.inner.defaults c.now e).mutationActive = 0 := by
  have hh := h.handled hs
  obtain ⟨e, he, hpos⟩ := hm
  have hbusy : e.isQuiescent = false := by
    have hne : e.mutationActive ≠ 0 := by omega
    simp [EntryCore.isQuiescent, hne]
  obtain ⟨e', he', -⟩ := h.remains hs he hbusy
  have hzero : e'.mutationActive = 0 := by
    by_contra hne
    exact hm' ⟨e', he', Nat.pos_of_ne_zero hne⟩
  rcases hh.inversion he' with ⟨-, hsame⟩ | ⟨kev, e₀, hat, rfl⟩
  · rw [he] at hsame
    cases hsame
    omega
  · obtain rfl := hat.of_entry he
    refine ⟨kev, e₀, hat, he, hpos, ?_⟩
    rw [Inner.after_of (f := EntryCore.mutationActive) fun _ _ _ _ => rfl] at hzero
    rw [← hzero]
    unfold KeyEvent.react
    split_ifs <;> rfl

/-- **The closing settlement.** It starts a fetch exactly if it asks for one itself, or an invalidation
is still to be answered. -/
theorem Inv.closing_starts (h : s.Inv) (hs : Step s c s') (hm : Mutating k s)
    (hm' : ¬ Mutating k s') (hf : ∀ e, s.inner.entry k = some e → e.fetcher.isSome = true) :
    Starts k ⟨s, c, s'⟩ ↔ c.event.asks k ∨ StillMarked k ⟨s, c, s'⟩ := by
  obtain ⟨kev, e, hat, he, hpos, hzero⟩ := h.last_settles hs hm hm'
  have hset := KeyEvent.settles_of_idle hpos hzero
  have hmark : StillMarked k ⟨s, c, s'⟩ ↔ e.invalidated = true ∧ ¬ kev.writes := by
    refine and_congr ⟨?_, fun hinv => ⟨e, he, hinv⟩⟩ (not_congr (Event.writes_iff_on hat.on))
    rintro ⟨e', he', hinv⟩
    obtain rfl : e = e' := Option.some.inj (he.symm.trans he')
    exact hinv
  rw [hmark, Event.asks_of_on hat.on, ← KeyEvent.starts_settles (h.shape k e he) hpos (hf e he) hset
    hzero]
  exact h.flight_iff hs hat

end step

section run

variable [Platform] {defaults : QueryOptions} {s₀ : Shell V F} {k : QueryKey}
  {before ys : List (Trace.Record (Shell V F) (Call V F))}
  {r : Trace.Record (Shell V F) (Call V F)}

/-- A mutation is active when the last step of a group begins. -/
theorem Group.busy_last (h : Group k s₀ ys r) : Mutating k r.pre := by
  obtain ⟨hrun, -, -⟩ := h.run.middle
  have hne := h.nonempty
  cases hrun with
  | nil => exact absurd rfl hne
  | snoc _ _ => exact h.busy _ (List.mem_append_right _ (List.mem_singleton.mpr rfl))

/-- **When a group closes as its mutations asked.** Let a group of mutations overlap on a key, with a
fetcher stored on its entry. It closes as its mutations asked if and only if, where an earlier
settlement asked for a revalidation, the last one asks too or an invalidation is still to be answered. -/
theorem closing_iff (h₀ : Run defaults before s₀) (h : Group k s₀ ys r)
    (hf : ∀ e, r.pre.inner.entry k = some e → e.fetcher.isSome = true) :
    Closes k ys r ↔ ((∃ x ∈ ys, x.label.event.asks k) →
      r.label.event.asks k ∨ StillMarked k r) := by
  obtain ⟨hrun, hstep, -⟩ := h.run.middle
  have hI₀ := inv_of_run h₀
  have hI : r.pre.Inv := hrun.invariant hI₀ fun _ _ _ hi hs => hi.step hs
  have hearly : ∀ x ∈ ys, ¬ Starts k x := by
    intro x hx
    obtain ⟨as, bs, -, has, hs, -⟩ := hrun.of_mem hx
    have hIx : x.pre.Inv := has.invariant hI₀ fun _ _ _ hi hs => hi.step hs
    exact hIx.not_starts_of_mutating hs (h.busy x hx)
  have hlast : Starts k r ↔ r.label.event.asks k ∨ StillMarked k r :=
    hI.closing_starts hstep h.busy_last h.settled hf
  have hany : (∃ x ∈ ys ++ [r], x.label.event.asks k) ↔
      (∃ x ∈ ys, x.label.event.asks k) ∨ r.label.event.asks k := by
    simp [or_and_right, exists_or]
  rw [Closes, hlast, hany]
  constructor
  · rintro ⟨-, hiff⟩ hasked
    exact hiff.mpr (.inl (.inl hasked))
  · intro hcond
    refine ⟨fun x hx _ => hearly x hx, ?_, ?_⟩
    · rintro (hlast | hmark)
      · exact .inl (.inr hlast)
      · exact .inr hmark
    · rintro ((hasked | hlast) | hmark)
      · exact hcond hasked
      · exact .inl hlast
      · exact .inr hmark

end run

section witness

attribute [local instance] exampleClock

/-- A key with a value and a fetcher; two mutations overlap, the first to settle asks for a revalidation,
and the last one asks for it or not. -/
def closingRun (asks : Bool) : List (Event Nat Unit × Instant × List QueryKey) :=
  let key : QueryKey := ⟨0, []⟩
  [(.mutateSet key 5, 0, []),
   (.read key .staleWhileRevalidate (some ()) none .default, 1, []),
   (.mutateBegin key none, 2, []),
   (.mutateBegin key (some 7), 3, []),
   (.mutateCommit ⟨key, none⟩ (.ok none) ⟨true, true, true⟩, 4, []),
   (.mutateCommit ⟨key, some 4⟩ (.ok none) ⟨true, true, asks⟩, 5, [])]

/-- The two mutations are a group. -/
theorem closingRun_group (asks : Bool) :
    ∃ (a b c d e r : Trace.Record (Shell Nat Unit) (Call Nat Unit)),
      Run .default [a, b] c.pre ∧ Group ⟨0, []⟩ c.pre [c, d, e] r ∧
        e.label.event.asks ⟨0, []⟩ ∧ (r.label.event.asks ⟨0, []⟩ ↔ asks = true) ∧
        ∀ x, r.pre.inner.entry ⟨0, []⟩ = some x → x.fetcher.isSome = true ∧ x.invalidated = false := by
  let key : QueryKey := ⟨0, []⟩
  have hobs : ((init .default : Shell Nat Unit).exec (closingRun asks)).map (fun r =>
      (r.1.map fun r => (r.pre.active, r.post.active),
        r.1.map fun r => (r.pre.inner.entry key).map fun e => (e.fetcher.isSome, e.invalidated))) =
      some ([(0, 0), (0, 0), (0, 1), (1, 2), (2, 1), (1, 0)],
        [none, some (false, false), some (true, false), some (true, false), some (true, false),
          some (true, false)]) := by
    cases asks <;> decide +kernel
  obtain ⟨⟨log, s⟩, hex, hobs⟩ := Option.map_eq_some_iff.mp hobs
  have hcalls := exec_calls hex
  have hrun : Run .default log s := run_of_exec hex
  obtain ⟨a, log, rfl, -, hcalls⟩ := List.map_eq_cons_iff.mp hcalls
  obtain ⟨b, log, rfl, -, hcalls⟩ := List.map_eq_cons_iff.mp hcalls
  obtain ⟨c, log, rfl, -, hcalls⟩ := List.map_eq_cons_iff.mp hcalls
  obtain ⟨d, log, rfl, -, hcalls⟩ := List.map_eq_cons_iff.mp hcalls
  obtain ⟨e, log, rfl, he, hcalls⟩ := List.map_eq_cons_iff.mp hcalls
  obtain ⟨r, log, rfl, hr, hcalls⟩ := List.map_eq_cons_iff.mp hcalls
  obtain rfl := List.map_eq_nil_iff.mp hcalls
  simp only [Prod.mk.injEq] at he hr
  simp only [List.map_cons, List.map_nil, List.cons.injEq, Prod.mk.injEq] at hobs
  obtain ⟨⟨-, -, ⟨hc, hc'⟩, ⟨-, hd'⟩, ⟨-, he'⟩, ⟨-, hr'⟩, -⟩, -, -, -, -, -, hlast, -⟩ := hobs
  have hcut : [a, b, c, d, e, r] = [a, b] ++ c :: [d, e, r] := rfl
  obtain ⟨hbefore, hstep, hrest⟩ := (hcut ▸ hrun).middle
  have hgroup := (Trace.Run.single hstep).trans hrest
  have hend : s = r.post := by
    have hcut' : [a, b, c, d, e, r] = [a, b, c, d, e] ++ r :: [] := rfl
    obtain ⟨-, -, hnil⟩ := (hcut' ▸ hrun).middle
    generalize hl : ([] : List (Trace.Record (Shell Nat Unit) (Call Nat Unit))) = l at hnil
    cases hnil with
    | nil => rfl
    | snoc _ _ => simp at hl
  refine ⟨a, b, c, d, e, r, hbefore, ⟨hend ▸ hgroup, ?_, by simp, ?_, ?_⟩, ?_, ?_, ?_⟩
  · rw [mutating_iff, hc]
    exact lt_irrefl 0
  · simp [mutating_iff, hc', hd', he']
  · rw [mutating_iff, hr']
    exact lt_irrefl 0
  · rw [he.1]
    exact ⟨rfl, rfl⟩
  · rw [hr.1]
    exact and_iff_right rfl
  · intro x hx
    rw [hx, Option.map_some, Option.some.injEq, Prod.mk.injEq] at hlast
    exact hlast

/-- **A forgotten request.** The first of two mutations settles and asks for a revalidation; the last one
does not ask, and the group closes without a fetch. -/
theorem forgotten_request : ∃ (before ys : List (Trace.Record (Shell Nat Unit) (Call Nat Unit)))
    (s₀ : Shell Nat Unit) (r : Trace.Record (Shell Nat Unit) (Call Nat Unit)),
      Run .default before s₀ ∧ Group ⟨0, []⟩ s₀ ys r ∧
        (∀ e, r.pre.inner.entry ⟨0, []⟩ = some e → e.fetcher.isSome = true) ∧
        (∃ x ∈ ys, x.label.event.asks ⟨0, []⟩) ∧ ¬ Starts ⟨0, []⟩ r ∧ ¬ Closes ⟨0, []⟩ ys r := by
  obtain ⟨a, b, c, d, e, r, hbefore, hgroup, he, hr, hentry⟩ := closingRun_group false
  obtain ⟨hrun, hstep, -⟩ := hgroup.run.middle
  have hI : r.pre.Inv :=
    hrun.invariant (inv_of_run hbefore) fun _ _ _ hi hs => hi.step hs
  have hf : ∀ x, r.pre.inner.entry ⟨0, []⟩ = some x → x.fetcher.isSome = true :=
    fun x hx => (hentry x hx).1
  have hno : ¬ Starts ⟨0, []⟩ r := by
    intro hst
    rcases (hI.closing_starts hstep hgroup.busy_last hgroup.settled hf).mp hst with
      hasks | ⟨⟨x, hx, hmark⟩, -⟩
    · exact absurd (hr.mp hasks) nofun
    · rw [(hentry x hx).2] at hmark
      cases hmark
  have hasked : ∃ x ∈ [c, d, e], x.label.event.asks ⟨0, []⟩ := ⟨e, by simp, he⟩
  refine ⟨_, _, _, r, hbefore, hgroup, hf, hasked, hno, fun hcloses => hno (hcloses.2.mpr (.inl ?_))⟩
  exact ⟨e, by simp, he⟩

/-- The group closes as its mutations asked when the last one asks too. -/
theorem closing_iff_example :
    ∃ (before ys : List (Trace.Record (Shell Nat Unit) (Call Nat Unit)))
      (s₀ : Shell Nat Unit) (r : Trace.Record (Shell Nat Unit) (Call Nat Unit)),
        Run .default before s₀ ∧ Group ⟨0, []⟩ s₀ ys r ∧ Starts ⟨0, []⟩ r ∧ Closes ⟨0, []⟩ ys r := by
  obtain ⟨a, b, c, d, e, r, hbefore, hgroup, he, hr, hentry⟩ := closingRun_group true
  have hcloses := (closing_iff hbefore hgroup fun x hx => (hentry x hx).1).mpr
    fun _ => .inl (hr.mpr rfl)
  exact ⟨_, _, _, r, hbefore, hgroup, hcloses.2.mpr (.inl ⟨e, by simp, he⟩), hcloses⟩

end witness

end Shell

end SwrCore
