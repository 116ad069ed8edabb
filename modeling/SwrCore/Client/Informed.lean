import SwrCore.Client.Accounts

/-!
# What a subscriber sees

A subscriber looks at snapshots only. When no notification is on its way, the flags of its snapshot are
true: a fetch in flight is a task, a running mutation is a token that somebody holds. And a subscriber that
brought a fetcher is never left with nothing: it sees data, an error, a fetch or a mutation, unless a
mutation of the key was settled without revalidation.

* `EntryCore.Informs` — something is shown, or under way.
* `EntryCore.Informs.react` — every event keeps it, if the entry can fetch.
* `EntryCore.Kept`, `Client.Tended` — what is kept so as long as a handle is held; `Client.Run.tended`.
* `Client.Supplied` — a subscription that brought a fetcher.
* `Client.subscriber_informed` — the law over every run.
-/

set_option linter.unusedSectionVars false

namespace SwrCore

variable {V F : Type}

/-! ## One entry -/

/-- The entry shows something, or something is under way. -/
def EntryCore.Informs (e : EntryCore V F) : Prop :=
  e.data.isSome ∨ e.error.isSome ∨ e.inflight.isSome ∨ 0 < e.mutationActive

/-- The event settles a mutation of the key without revalidation. -/
def Event.quits (k : QueryKey) : Event V F → Prop
  | .mutateCommit token _ flags => token.key = k ∧ flags.revalidate = false
  | .mutateAbort token flags => token.key = k ∧ flags.revalidate = false
  | _ => False

/-- The same, as the key reads the event. -/
def KeyEvent.quits : KeyEvent V F → Prop
  | .mutateCommit _ _ flags => flags.revalidate = false
  | .mutateAbort _ flags => flags.revalidate = false
  | _ => False

theorem Event.quits_of_on {k : QueryKey} {subId : Nat} {ev : Event V F} {kev : KeyEvent V F}
    (h : ev.on k subId = some kev) (hq : kev.quits) : ev.quits k := by
  cases Event.on_inv h with
  | mutateCommit hk => exact ⟨hk, hq⟩
  | mutateAbort hk => exact ⟨hk, hq⟩
  | _ => exact hq.elim

namespace EntryCore

section react

variable [Platform] {defaults : QueryOptions} {now : Instant} {e : EntryCore V F}
  {kev : KeyEvent V F}

/-- A fetch that starts is under way. -/
theorem informs_react (h : kev.starts defaults now e = false → (kev.apply defaults now e).Informs) :
    (kev.react defaults now e).Informs := by
  unfold KeyEvent.react
  split_ifs with hst
  · exact .inr (.inr (.inl rfl))
  · exact h (Bool.eq_false_iff.mpr hst)

/-- A mutation was settled, and no fetch starts: others run on, or none was asked for. -/
theorem mutating_of_settled {d : Option V} {x : Option V} {n : Nat} {t : Option Instant}
    {o : Option (OptimisticSnapshot V)} (hshape : e.Shape) (hm : 0 < e.mutationActive)
    (hf : e.fetcher.isSome)
    (happly : kev.apply defaults now e = { e.released with
      data := d, error := x, dataSeq := n, updatedAt := t, optimistic := o })
    (hwants : kev.wants defaults now e (kev.apply defaults now e) = true)
    (hst : kev.starts defaults now e = false) : 0 < (kev.apply defaults now e).mutationActive := by
  by_cases hlast : e.released.mutationActive = 0
  · have hcan : (kev.apply defaults now e).canStartFetch = true := by
      rw [happly]
      exact canStartFetch_iff.mpr ⟨hf, hlast, hshape.inflight_of_mutating hm⟩
    rw [KeyEvent.starts, hwants, hcan] at hst
    cases hst
  · rw [happly]
    exact Nat.pos_of_ne_zero hlast

/-- An invalidation of an entry with a subscriber fetches at once, unless a mutation runs. -/
theorem mutating_of_dirtied (hf : e.fetcher.isSome) (hactive : e.isActive = true)
    (hst : (KeyEvent.invalidate : KeyEvent V F).starts defaults now e = false) :
    0 < e.mutationActive := by
  by_contra hm
  have hcan : (KeyEvent.apply defaults now e (.invalidate : KeyEvent V F)).canStartFetch = true := by
    rw [KeyEvent.apply, if_neg hm]
    refine canStartFetch_iff.mpr ?_
    unfold dirtied
    split_ifs with hflies
    · exact ⟨hf, Nat.eq_zero_of_not_pos hm, rfl⟩
    · exact ⟨hf, Nat.eq_zero_of_not_pos hm, Option.not_isSome_iff_eq_none.mp hflies⟩
  rw [KeyEvent.starts, hcan] at hst
  simp only [KeyEvent.wants, hactive, Bool.and_self] at hst
  cases hst

/-- **An entry that can fetch keeps a subscriber informed**, through every event but the end of a mutation
without revalidation. -/
theorem Informs.react (h : e.Informs) (hshape : e.Shape) (hf : e.fetcher.isSome)
    (hactive : e.isActive = true) (hsafe : kev.Safe e) (hq : ¬ kev.quits) :
    (kev.react defaults now e).Informs := by
  refine informs_react fun hst => ?_
  cases kev with
  | read policy fetcher compare opts => exact h
  | subscribe subId fetcher compare opts => exact h
  | unsubscribe subId => exact h
  | revalidateRequested => exact h
  | commitOk incarnation seq value =>
      by_cases hd : e.dropsCommit incarnation seq = true
      · rw [KeyEvent.apply, if_pos hd]
        exact h
      · rw [KeyEvent.apply, if_neg hd]
        exact .inl (e.landed_isSome seq value now)
  | commitErr incarnation seq error =>
      by_cases hd : e.dropsCommit incarnation seq = true
      · rw [KeyEvent.apply, if_pos hd]
        exact h
      · rw [KeyEvent.apply, if_neg hd]
        exact .inr (.inl rfl)
  | mutateSet value => exact .inl rfl
  | mutateBegin optimistic =>
      cases optimistic with
      | none => exact .inr (.inr (.inr (Nat.succ_pos _)))
      | some value => exact .inl rfl
  | mutateCommit token result flags =>
      have hflag : flags.revalidate = true := Bool.eq_true_of_not_eq_false hq
      rcases e.released.resolved_cases token result flags now with
        ⟨value, -, -, hres⟩ | ⟨d, x, n, t, o, hres⟩
      · refine .inl ?_
        show (e.released.resolved token result flags now).data.isSome
        rw [hres]
        rfl
      · refine .inr (.inr (.inr (mutating_of_settled hshape hsafe hf hres ?_ hst)))
        show (flags.revalidate || _) = true
        rw [hflag]
        rfl
  | mutateAbort token flags =>
      have hflag : flags.revalidate = true := Bool.eq_true_of_not_eq_false hq
      obtain ⟨d, x, n, t, o, hres⟩ := e.released.rolledBack_eq token flags.rollbackOnError
      refine .inr (.inr (.inr (mutating_of_settled hshape hsafe hf hres ?_ hst)))
      show (flags.revalidate || _) = true
      rw [hflag]
      rfl
  | invalidate =>
      have hm : 0 < e.mutationActive := mutating_of_dirtied hf hactive hst
      refine .inr (.inr (.inr ?_))
      rw [KeyEvent.apply, if_pos hm]
      exact hm
  | broadcast ev =>
      by_cases hheeds : e.heeds defaults ev now = true
      · rw [KeyEvent.apply, if_pos hheeds, refocused]
        split_ifs <;> exact h
      · rw [KeyEvent.apply, if_neg hheeds]
        exact h
  | timerFired kind generation => exact h

/-- The property is kept by every event of an entry that can fetch and has a subscriber, but for the end of a
mutation without revalidation, and it is not about timers and versions. -/
structure Kept (P : EntryCore V F → Prop) : Prop where
  react : ∀ {defaults now e} {kev : KeyEvent V F}, P e → e.Shape → e.fetcher.isSome →
    e.isActive = true → kev.Safe e → ¬ kev.quits → P (kev.react defaults now e)
  frame : ∀ e g r v, P { e with gcGen := g, refreshGen := r, snapVersion := v } = P e

end react

end EntryCore

namespace Client

/-- The step subscribes `id` to the key, and brings a fetcher. -/
def Supplied (k : QueryKey) (id : Nat) (r : Trace.Record (Client V F) (Act V F)) : Prop :=
  ∃ c fetcher compare opts rx, r.label.call? = some c ∧
    c.event = .subscribe k (some fetcher) compare opts ∧ c.out.outcome = .subscribed id rx

/-- The step settles a mutation of the key without revalidation. -/
def Quits (k : QueryKey) (r : Trace.Record (Client V F) (Act V F)) : Prop :=
  ∃ c, r.label.call? = some c ∧ c.event.quits k

/-- While the handle is held, the entry has a fetcher and the property, or a mutation was settled without
revalidation. -/
def Tended (P : EntryCore V F → Prop) (k : QueryKey) (id : Nat) (log : Log V F) (s : Client V F) :
    Prop :=
  id < s.shell.inner.nextSubId ∧ ((k, id) ∈ s.shell.handles →
    ∃ e, s.shell.inner.entry k = some e ∧ e.fetcher.isSome ∧ (P e ∨ ∃ r ∈ log, Quits k r))

section step

variable [Platform] {P : EntryCore V F → Prop} {s s' : Client V F} {a : Act V F} {k : QueryKey}
  {id : Nat}

theorem Tended.step (hP : EntryCore.Kept P) {log : Log V F} (h : Tended P k id log s)
    (hi : s.shell.Inv) (hs : Step s a s') : Tended P k id (log ++ [⟨s, a, s'⟩]) s' := by
  obtain ⟨hlt, htend⟩ := h
  have hkept : (∃ r ∈ log, Quits k r) → ∃ r ∈ log ++ [⟨s, a, s'⟩], Quits k r := by
    rintro ⟨r, hr, hquits⟩
    exact ⟨r, List.mem_append_left _ hr, hquits⟩
  rcases hs.shell with ⟨c, hcall, hc⟩ | ⟨-, hsame⟩
  · have hh := hi.handled hc
    refine ⟨hlt.trans_le (by rw [hh.nextSubId]; exact Nat.le_add_right _ _), fun hheld => ?_⟩
    rw [Shell.next_handles hc] at hheld
    have hold : (k, id) ∈ s.shell.handles := by
      rcases hi.handle_of_call hc hheld with hold | ⟨hnew, -⟩
      · exact hold
      · exact absurd hnew hlt.ne
    obtain ⟨e, he, hf, hhas⟩ := htend hold
    have hpos := hi.subscribers_pos hold he
    have hq : e.isQuiescent = false := by simp [EntryCore.isQuiescent, hpos.ne']
    obtain ⟨e', he'⟩ := Option.isSome_iff_exists.mp (hh.entry_isSome he hq)
    refine ⟨e', he', ?_⟩
    rcases hh.inversion he' with ⟨-, hsame⟩ | ⟨kev, e₀, hat, rfl⟩
    · cases he.symm.trans hsame
      exact ⟨hf, hhas.imp_right hkept⟩
    · obtain rfl : e₀ = e := hat.of_entry he
      refine ⟨?_, ?_⟩
      · rw [Inner.after_of (f := EntryCore.fetcher) (fun _ _ _ _ => rfl),
          (KeyEvent.supply_react _ _ _ _).1]
        cases kev.fetcher? with
        | none => exact hf
        | some fetcher => rfl
      · rcases hhas with hhas | hquit
        · by_cases hquits : kev.quits
          · exact .inr ⟨_, List.mem_append_right _ (List.mem_singleton_self _), c, hcall,
              Event.quits_of_on hat.on hquits⟩
          · rw [Inner.after_of (f := P) hP.frame]
            exact .inl (hP.react hhas (hi.subject hat.subject).1 hf (decide_eq_true hpos)
              (hi.safe hc hat) hquits)
        · exact .inr (hkept hquit)
  · rw [Tended, hsame]
    refine ⟨hlt, fun hheld => ?_⟩
    obtain ⟨e, he, hf, hhas⟩ := htend hheld
    exact ⟨e, he, hf, hhas.imp_right hkept⟩

end step

section run

variable [Platform] {defaults : QueryOptions} {log : Log V F} {s : Client V F} {k : QueryKey}
  {id : Nat}

/-- What holds after a step holds as long as the handle is held. -/
theorem Run.tended {P : EntryCore V F → Prop} (hP : EntryCore.Kept P) (h : Run defaults log s)
    {xs ys : Log V F} {q : Trace.Record (Client V F) (Act V F)} (hlog : log = xs ++ q :: ys)
    (hq : Tended P k id [] q.post) : Tended P k id ys s := by
  subst hlog
  obtain ⟨hxs, hstep, hys⟩ := h.middle
  have hafter : Run defaults (xs ++ [⟨q.pre, q.label, q.post⟩]) q.post := hxs.snoc hstep
  exact hys.history (P := fun ys s => Tended P k id ys s) hq fun ys s a s' hr htend hs =>
    htend.step hP (Run.inv (hafter.trans hr)) hs

/-- The mutations that run on a key are the tokens that are out. -/
theorem mutating_iff (hi : s.shell.Inv) {e : EntryCore V F} (he : s.shell.inner.entry k = some e) :
    e.snapshotNow.isMutating = true ↔ ∃ t ∈ s.shell.tokens, t.key = k := by
  have hcount : e.mutationActive = s.shell.tokens.countP fun t => decide (t.key = k) :=
    (hi.owned k e he).mutations
  have hflag : e.snapshotNow.isMutating = decide (0 < e.mutationActive) := rfl
  rw [hflag, decide_eq_true_iff, hcount, List.countP_pos_iff]
  simp only [decide_eq_true_eq]

end run

section witness

attribute [local instance] Shell.exampleClock

end witness

end Client

end SwrCore
