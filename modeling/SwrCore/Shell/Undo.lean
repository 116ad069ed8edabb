import SwrCore.Shell.Invalidation
import SwrCore.Shell.Pinned
import SwrCore.Shell.Rollback

/-!
# The rollback of one mutation

An optimistic write saves in the rollback slot what it replaces. Whatever happens before its mutation
fails, the slot is either still its own, with the write still the latest one, or it will never be its
own again. `Shell.Rollback` is about many mutations that all fail; here one is followed through any
events.

* `Event.clobbers` — the events that overwrite the optimistic value or take the slot.
* `EntryCore.Undoable`, `EntryCore.Forgone` — the two states of the write.
* `EntryCore.Undoable.apply`, `EntryCore.Forgone.apply` — what keeps them.
* `Shell.Inv.pledged_step` — one of the two holds as long as the mutation is open.
* `Shell.rollback_dichotomy` — the failure restores everything, or leaves the data alone.
-/

set_option linter.unusedSectionVars false

namespace SwrCore

variable {V F : Type}

/-! ## Events on the slot -/

/-- The event writes a value over an optimistic one on the key, or takes the rollback slot. -/
def Event.clobbers (k : QueryKey) : Event V F → Prop
  | .mutateSet key _ => key = k
  | .mutateBegin key (some _) => key = k
  | .mutateCommit token (.ok (some _)) flags => token.key = k ∧ flags.populate = true
  | _ => False

/-- The event writes a value over an optimistic one, or takes the rollback slot. -/
def KeyEvent.clobbers : KeyEvent V F → Prop
  | .mutateSet _ => True
  | .mutateBegin (some _) => True
  | .mutateCommit _ (.ok (some _)) flags => flags.populate = true
  | _ => False

/-- The token of the mutation that the event settles. -/
def KeyEvent.settled? : KeyEvent V F → Option MutationToken
  | .mutateCommit token _ _ => some token
  | .mutateAbort token _ => some token
  | _ => none

/-- The event settles this mutation as a failure that asks for its rollback: an error, or an abort. -/
def Event.revokes (token : MutationToken) : Event V F → Prop
  | .mutateCommit token' result flags =>
    token' = token ∧ (∃ error, result = .error error) ∧ flags.rollbackOnError = true
  | .mutateAbort token' flags => token' = token ∧ flags.rollbackOnError = true
  | _ => False

theorem Event.clobbers_of_on {k : QueryKey} {subId : Nat} {ev : Event V F} {kev : KeyEvent V F}
    (h : ev.on k subId = some kev) : ev.clobbers k ↔ kev.clobbers := by
  cases Event.on_inv h with
  | mutateSet => exact iff_of_true rfl trivial
  | @mutateBegin optimistic =>
      cases optimistic with
      | none => exact Iff.rfl
      | some value => exact iff_of_true rfl trivial
  | @mutateCommit token result flags hk =>
      rcases result with error | _ | value
      · exact Iff.rfl
      · exact Iff.rfl
      · exact and_iff_right hk
  | _ => exact Iff.rfl

theorem Event.on_of_clobbers {k : QueryKey} {ev : Event V F} (h : ev.clobbers k) (subId : Nat) :
    ev.on k subId ≠ none := by
  intro hoff
  cases ev with
  | mutateSet key value => simp [Event.on, show key = k from h] at hoff
  | mutateBegin key optimistic =>
      cases optimistic with
      | none => exact h
      | some value => simp [Event.on, show key = k from h] at hoff
  | mutateCommit token result flags =>
      rcases result with error | _ | value
      · exact h
      · exact h
      · have hk : token.key = k := h.1
        simp [Event.on, hk] at hoff
  | _ => exact h

theorem Event.settled_of_on {k : QueryKey} {subId : Nat} {ev : Event V F} {kev : KeyEvent V F}
    (h : ev.on k subId = some kev) : kev.settled? = ev.settled? := by
  cases Event.on_inv h <;> rfl

/-! ## The two states of an optimistic write -/

/-- The slot holds what the optimistic write replaced, and the write is still the latest one. -/
structure EntryCore.Undoable (saved : OptimisticSnapshot V) (e : EntryCore V F) : Prop where
  slot : e.optimistic = some saved
  latest : e.dataSeq = saved.writtenSeq

/-- The slot is not the one of the write under this seq, which is in the past. -/
structure EntryCore.Forgone (seq : Nat) (e : EntryCore V F) : Prop where
  past : seq ≤ e.seq
  slot : ∀ o, e.optimistic = some o → o.writtenSeq ≠ seq

section cell

variable [Platform] {defaults : QueryOptions} {now : Instant} {e : EntryCore V F}
  {saved : OptimisticSnapshot V} {seq : Nat} {kev : KeyEvent V F} {token : MutationToken}

theorem EntryCore.Undoable.ownsSlot (h : e.Undoable saved) :
    e.ownsSlot token = decide (token.writtenSeq = some saved.writtenSeq) := by
  rw [EntryCore.ownsSlot, h.slot, Option.any_some, decide_eq_decide, eq_comm]

theorem EntryCore.Forgone.ownsSlot (h : e.Forgone seq) (ht : token.writtenSeq = some seq) :
    e.ownsSlot token = false := by
  rw [EntryCore.ownsSlot]
  cases ho : e.optimistic with
  | none => rfl
  | some o => simp [ht, h.slot o ho]

/-- While a mutation is active, the write stays undoable until it is overwritten, the slot is taken, or
its own mutation settles. -/
theorem EntryCore.Undoable.apply (h : e.Undoable saved) (hm : 0 < e.mutationActive)
    (hc : ¬ kev.clobbers)
    (ht : ∀ t, kev.settled? = some t → t.writtenSeq ≠ some saved.writtenSeq) :
    (kev.apply defaults now e).Undoable saved := by
  have hdrop : ∀ incarnation seq, e.dropsCommit incarnation seq = true := by
    intro incarnation seq
    simp [EntryCore.dropsCommit, hm]
  have hrel : e.released.Undoable saved := ⟨h.slot, h.latest⟩
  cases kev with
  | commitOk incarnation seq value =>
      rw [KeyEvent.apply, if_pos (hdrop _ _)]
      exact h
  | commitErr incarnation seq error =>
      rw [KeyEvent.apply, if_pos (hdrop _ _)]
      exact h
  | mutateSet value => exact absurd trivial hc
  | mutateBegin optimistic =>
      cases optimistic with
      | none => exact ⟨h.slot, h.latest⟩
      | some value => exact absurd trivial hc
  | mutateCommit token result flags =>
      have hforeign : e.released.ownsSlot token = false := by
        rw [hrel.ownsSlot]
        exact decide_eq_false (ht token rfl)
      simp only [KeyEvent.apply]
      rcases result with error | _ | value
      · have hkeep : ({ e.released with error := some error } : EntryCore V F).ownsSlot token =
            false := hforeign
        rw [EntryCore.resolved, (EntryCore.rolledBack_of_foreign hkeep _).2]
        exact ⟨h.slot, h.latest⟩
      · rw [EntryCore.resolved, (EntryCore.rolledBack_of_foreign hforeign true).1]
        exact hrel
      · have hp : ¬ flags.populate = true := hc
        rw [EntryCore.resolved, if_neg hp, (EntryCore.rolledBack_of_foreign hforeign true).1]
        exact hrel
  | mutateAbort token flags =>
      have hforeign : e.released.ownsSlot token = false := by
        rw [hrel.ownsSlot]
        exact decide_eq_false (ht token rfl)
      simp only [KeyEvent.apply]
      rw [(EntryCore.rolledBack_of_foreign hforeign _).2]
      exact hrel
  | invalidate =>
      rw [KeyEvent.apply, if_pos hm]
      exact ⟨h.slot, h.latest⟩
  | broadcast ev =>
      simp only [KeyEvent.apply, EntryCore.refocused]
      split_ifs <;> exact ⟨h.slot, h.latest⟩
  | _ => exact ⟨h.slot, h.latest⟩

/-- An event keeps the slot, empties it, or takes it for a new seq. -/
theorem EntryCore.slot_apply {o : OptimisticSnapshot V}
    (ho : (kev.apply defaults now e).optimistic = some o) :
    e.optimistic = some o ∨ e.seq < o.writtenSeq := by
  cases kev with
  | mutateBegin optimistic =>
      cases optimistic with
      | none => exact .inl ho
      | some value =>
          cases ho
          exact .inr (Nat.lt_add_of_pos_right Nat.two_pos)
  | mutateCommit token result flags =>
      have hsame : e.released.SameOwner (e.released.resolved token result flags now) :=
        .resolved _ token result flags now
      exact .inl (hsame.slot o ho)
  | mutateAbort token flags =>
      have hsame : e.released.SameOwner (e.released.rolledBack token flags.rollbackOnError) :=
        .rolledBack _ token _
      exact .inl (hsame.slot o ho)
  | subscribe subId fetcher compare opts => exact .inl ho
  | unsubscribe subId => exact .inl ho
  | _ => exact .inl ((EntryCore.SameOwner.apply e defaults now rfl).slot o ho)

/-- What is forgone stays forgone. -/
theorem EntryCore.Forgone.apply (h : e.Forgone seq) :
    (kev.apply defaults now e).Forgone seq := by
  refine ⟨h.past.trans (EntryCore.seq_le_apply e defaults now kev), fun o ho => ?_⟩
  rcases EntryCore.slot_apply ho with hold | hnew
  · exact h.slot o hold
  · exact (h.past.trans_lt hnew).ne'

/-- Overwriting the value, or taking the slot, forgoes the rollback. -/
theorem EntryCore.forgone_of_clobbers (hseq : seq ≤ e.seq) (hc : kev.clobbers) :
    (kev.apply defaults now e).Forgone seq := by
  refine ⟨hseq.trans (EntryCore.seq_le_apply e defaults now kev), fun o ho => ?_⟩
  cases kev with
  | mutateSet value => cases ho
  | mutateBegin optimistic =>
      cases optimistic with
      | none => exact hc.elim
      | some value =>
          cases ho
          exact (hseq.trans_lt (Nat.lt_add_of_pos_right Nat.two_pos)).ne'
  | mutateCommit token result flags =>
      rcases result with error | _ | value
      · exact hc.elim
      · exact hc.elim
      · have hp : flags.populate = true := hc
        simp only [KeyEvent.apply, EntryCore.resolved, hp, if_true] at ho
        cases ho
  | _ => exact hc.elim

/-- A failed mutation whose write is undoable restores everything that the slot saved. -/
theorem EntryCore.Undoable.restores (h : e.Undoable saved)
    (ht : token.writtenSeq = some saved.writtenSeq) :
    e.rolledBack token true = { e with
      data := saved.prevData, error := saved.prevError, dataSeq := saved.prevDataSeq,
      updatedAt := saved.prevUpdatedAt, optimistic := none } := by
  have hrolls : e.rollsBack token true = true := by
    simp [EntryCore.rollsBack, h.ownsSlot, ht, h.latest]
  rw [EntryCore.rolledBack, if_pos hrolls, EntryCore.restored, h.slot]

end cell

namespace Shell

/-! ## The write while its mutation is open -/

/-- What is stored under the key: the data, its seq, the error, and the time of the data. -/
def held (k : QueryKey) (s : Shell V F) : Option V × Nat × Option V × Option Instant :=
  (s.inner.entry k).elim (none, 0, none, none) fun e => (e.data, e.dataSeq, e.error, e.updatedAt)

/-- The mutation is open, and its optimistic write, which replaced what is saved, is undoable unless the
log since then clobbered it. -/
structure Pledged (token : MutationToken) (saved : OptimisticSnapshot V)
    (log : List (Trace.Record (Shell V F) (Call V F))) (s : Shell V F) : Prop where
  outstanding : token ∈ s.tokens
  entry : ∃ e, s.inner.entry token.key = some e ∧ saved.writtenSeq ≤ e.seq ∧
    ((∀ x ∈ log, ¬ x.label.event.clobbers token.key) → e.Undoable saved) ∧
    ((∃ x ∈ log, x.label.event.clobbers token.key) → e.Forgone saved.writtenSeq)

section step

variable [Platform] {s s' : Shell V F} {c : Call V F} {token : MutationToken}
  {saved : OptimisticSnapshot V} {log : List (Trace.Record (Shell V F) (Call V F))}

/-- What the stages after the handler leave as the handler made it. -/
theorem after_undoable {inner : Inner V F} {now : Instant} {k : QueryKey} {kev : KeyEvent V F}
    {e : EntryCore V F} (h : (kev.apply inner.defaults now e).Undoable saved) :
    (inner.after now k kev e).Undoable saved := by
  refine ⟨?_, ?_⟩
  · rw [Inner.after_of (f := EntryCore.optimistic) fun _ _ _ _ => rfl]
    unfold KeyEvent.react
    split_ifs <;> exact h.slot
  · rw [Inner.after_of (f := EntryCore.dataSeq) fun _ _ _ _ => rfl]
    unfold KeyEvent.react
    split_ifs <;> exact h.latest

theorem after_forgone {inner : Inner V F} {now : Instant} {k : QueryKey} {kev : KeyEvent V F}
    {e : EntryCore V F} {seq : Nat} (h : (kev.apply inner.defaults now e).Forgone seq) :
    (inner.after now k kev e).Forgone seq := by
  refine ⟨?_, ?_⟩
  · rw [Inner.after, EntryCore.settled_seq]
    exact h.past.trans (EntryCore.seq_le_react e inner.defaults now kev)
  · rw [Inner.after_of (f := EntryCore.optimistic) fun _ _ _ _ => rfl]
    unfold KeyEvent.react
    split_ifs <;> exact h.slot

/-- The start of an optimistic mutation pledges to restore what is held. -/
theorem Inv.pledged_begin (h : s.Inv) (hs : Step s c s') {k : QueryKey} {value : V}
    (hev : c.event = .mutateBegin k (some value)) (htoken : c.begun? = some token) :
    token.key = k ∧ ∃ saved : OptimisticSnapshot V, token.writtenSeq = some saved.writtenSeq ∧
      s.held k = (saved.prevData, saved.prevDataSeq, saved.prevError, saved.prevUpdatedAt) ∧
      Pledged token saved ([] : List (Trace.Record (Shell V F) (Call V F))) s' := by
  have hon : c.event.on k s.inner.nextSubId = some (.mutateBegin (some value)) := by
    rw [hev]
    exact if_pos rfl
  have hat : s.inner.At c.event k (.mutateBegin (some value))
      ((s.inner.entry k).getD (.new k s.inner.nextIncarnation)) := ⟨hon, if_pos rfl, rfl⟩
  have hheld : s.held k =
      (((s.inner.entry k).getD (.new k s.inner.nextIncarnation)).data,
        ((s.inner.entry k).getD (.new k s.inner.nextIncarnation)).dataSeq,
        ((s.inner.entry k).getD (.new k s.inner.nextIncarnation)).error,
        ((s.inner.entry k).getD (.new k s.inner.nextIncarnation)).updatedAt) := by
    unfold held
    cases s.inner.entry k <;> rfl
  generalize (s.inner.entry k).getD (.new k s.inner.nextIncarnation) = e at hat hheld
  have hout := (h.handled hs).outcome k _ hon
  rw [Inner.answer, hat.subject, Option.elim_some, KeyEvent.outcome] at hout
  obtain rfl : token = ⟨k, some (e.seq + 2)⟩ := by
    rw [Call.begun?, hev, hout] at htoken
    exact (Option.some.inj htoken).symm
  have hpost := hat.entry (h.handled hs)
  have hund : ((KeyEvent.mutateBegin (some value)).apply s.inner.defaults c.now e).Undoable
      ⟨e.data, e.error, e.dataSeq, e.updatedAt, e.seq + 2⟩ := ⟨rfl, rfl⟩
  refine ⟨rfl, _, rfl, hheld, ?_, _, hpost, ?_, fun _ => after_undoable hund, ?_⟩
  · obtain ⟨e₁, hsub, -, htokens⟩ := h.begin_outcome hs hev
    rw [hat.subject] at hsub
    cases hsub
    rw [next_tokens hs, htokens]
    exact List.mem_append_right _ (List.mem_singleton.mpr rfl)
  · rw [Inner.after, EntryCore.settled_seq]
    exact EntryCore.seq_le_react e s.inner.defaults c.now (.mutateBegin (some value))
  · rintro ⟨x, hx, -⟩
    exact absurd hx List.not_mem_nil

/-- **The write while its mutation is open.** Any step but its settlement keeps the dichotomy. -/
theorem Inv.pledged_step (h : s.Inv) (hs : Step s c s') (hp : Pledged token saved log s)
    (hw : token.writtenSeq = some saved.writtenSeq) (hopen : c.event.settled? ≠ some token) :
    Pledged token saved (log ++ [⟨s, c, s'⟩]) s' := by
  have hh := h.handled hs
  obtain ⟨hmem, e, he, hseq, hund, hfor⟩ := hp
  have hm := h.mutations_pos hmem he
  constructor
  case outstanding =>
    have hcount := token_step hs token
    rw [if_neg hopen] at hcount
    have hpos := List.count_pos_iff.mpr hmem
    exact List.count_pos_iff.mp (by omega)
  case entry =>
    cases hon : c.event.on token.key s.inner.nextSubId with
    | none =>
        have hno : ¬ c.event.clobbers token.key := fun hc =>
          Event.on_of_clobbers hc _ hon
        refine ⟨e, (hh.off hon).1.trans he, hseq, fun hall => ?_, ?_⟩
        · exact hund fun x hx => hall x (List.mem_append_left _ hx)
        · rintro ⟨x, hx, hc⟩
          rcases List.mem_append.mp hx with hx | hx
          · exact hfor ⟨x, hx, hc⟩
          · rw [List.mem_singleton.mp hx] at hc
            exact absurd hc hno
    | some kev =>
        have hrem : kev.removes e = false := by
          have hbusy : e.isQuiescent = false := by
            have hne : e.mutationActive ≠ 0 := by omega
            simp [EntryCore.isQuiescent, hne]
          cases kev with
          | timerFired kind generation => cases kind <;> simp [KeyEvent.removes, hbusy]
          | _ => rfl
        have hsub : s.inner.subject token.key kev = some e := by
          rw [Inner.subject, he]
          split_ifs <;> rfl
        have hat : s.inner.At c.event token.key kev e := ⟨hon, hsub, hrem⟩
        have hforeign : ∀ t, kev.settled? = some t → t.writtenSeq ≠ some saved.writtenSeq := by
          rintro t ht hwt
          rw [Event.settled_of_on hon] at ht
          -- A token of this key with this seq is the open one.
          have hkey : t.key = token.key := by
            generalize c.event = ev at hon ht
            cases Event.on_inv hon with
            | mutateCommit hk =>
                cases ht
                exact hk
            | mutateAbort hk =>
                cases ht
                exact hk
            | _ => cases ht
          have hsame : t = token := by
            calc t = ⟨t.key, t.writtenSeq⟩ := rfl
              _ = ⟨token.key, token.writtenSeq⟩ := by rw [hkey, hwt, hw]
              _ = token := rfl
          exact hopen (hsame ▸ ht)
        refine ⟨_, hat.entry hh, hseq.trans (h.after hs hat).2.2.2.1, fun hall => ?_, ?_⟩
        · have hno : ¬ kev.clobbers := fun hc =>
            hall ⟨s, c, s'⟩ (by simp) ((Event.clobbers_of_on hon).mpr hc)
          have hbefore := hund fun x hx => hall x (List.mem_append_left _ hx)
          exact after_undoable (hbefore.apply hm hno hforeign)
        · rintro ⟨x, hx, hc⟩
          rcases List.mem_append.mp hx with hx | hx
          · exact after_forgone (hfor ⟨x, hx, hc⟩).apply
          · rw [List.mem_singleton.mp hx] at hc
            exact after_forgone
              (EntryCore.forgone_of_clobbers hseq ((Event.clobbers_of_on hon).mp hc))

/-- What the settlement of an open mutation does to its entry. -/
theorem Inv.revoked (h : s.Inv) (hs : Step s c s') (hp : Pledged token saved log s)
    (hr : c.event.revokes token) :
    ∃ e e₁ : EntryCore V F, s.inner.entry token.key = some e ∧
      (e₁.data = e.data ∧ e₁.dataSeq = e.dataSeq ∧ e₁.updatedAt = e.updatedAt ∧
        e₁.optimistic = e.optimistic ∧ e₁.seq = e.seq) ∧
      s'.held token.key = ((e₁.rolledBack token true).data, (e₁.rolledBack token true).dataSeq,
        (e₁.rolledBack token true).error, (e₁.rolledBack token true).updatedAt) := by
  obtain ⟨-, e, he, -⟩ := hp
  have hheld : ∀ kev, s.inner.At c.event token.key kev e → ∀ e₂,
      kev.apply s.inner.defaults c.now e = e₂ →
        s'.held token.key = (e₂.data, e₂.dataSeq, e₂.error, e₂.updatedAt) := by
    rintro kev hat e₂ rfl
    rw [held, hat.entry (h.handled hs), Option.elim_some,
      Inner.after_of (f := EntryCore.data) fun _ _ _ _ => rfl,
      Inner.after_of (f := EntryCore.dataSeq) fun _ _ _ _ => rfl,
      Inner.after_of (f := EntryCore.error) fun _ _ _ _ => rfl,
      Inner.after_of (f := EntryCore.updatedAt) fun _ _ _ _ => rfl]
    unfold KeyEvent.react
    split_ifs <;> rfl
  cases hev : c.event with
  | mutateCommit token' result flags =>
      rw [hev] at hr
      obtain ⟨rfl, ⟨error, rfl⟩, hflag⟩ := hr
      have hat : s.inner.At c.event token'.key (.mutateCommit token' (.error error) flags) e :=
        ⟨by rw [hev]; exact if_pos rfl, he, rfl⟩
      refine ⟨e, { e.released with error := some error }, he, ⟨rfl, rfl, rfl, rfl, rfl⟩,
        hheld _ hat _ ?_⟩
      rw [KeyEvent.apply, EntryCore.resolved, hflag]
  | mutateAbort token' flags =>
      rw [hev] at hr
      obtain ⟨rfl, hflag⟩ := hr
      have hat : s.inner.At c.event token'.key (.mutateAbort token' flags) e :=
        ⟨by rw [hev]; exact if_pos rfl, he, rfl⟩
      refine ⟨e, e.released, he, ⟨rfl, rfl, rfl, rfl, rfl⟩, hheld _ hat _ ?_⟩
      rw [KeyEvent.apply, hflag]
  | _ =>
      rw [hev] at hr
      exact hr.elim

/-- The failure of an open mutation restores what it saved, or leaves the data alone. -/
theorem Inv.pledged_revoked (h : s.Inv) (hs : Step s c s') (hp : Pledged token saved log s)
    (hw : token.writtenSeq = some saved.writtenSeq) (hr : c.event.revokes token) :
    ((∀ x ∈ log, ¬ x.label.event.clobbers token.key) → s'.held token.key =
      (saved.prevData, saved.prevDataSeq, saved.prevError, saved.prevUpdatedAt)) ∧
    ((∃ x ∈ log, x.label.event.clobbers token.key) →
      s'.stored token.key = s.stored token.key) := by
  obtain ⟨e, e₁, he, ⟨hd, hn, ht, ho, hseq⟩, hheld⟩ := h.revoked hs hp hr
  obtain ⟨-, e', he', -, hund, hfor⟩ := hp
  obtain rfl : e = e' := Option.some.inj (he.symm.trans he')
  constructor
  · intro hall
    have hready : e₁.Undoable saved :=
      ⟨ho.trans (hund hall).slot, hn.trans (hund hall).latest⟩
    rw [hheld, hready.restores hw]
  · intro hsome
    have hlost : e₁.Forgone saved.writtenSeq :=
      ⟨hseq.symm ▸ (hfor hsome).past, ho.symm ▸ (hfor hsome).slot⟩
    have hkeep := (EntryCore.rolledBack_of_foreign (hlost.ownsSlot hw) true).2
    rw [hkeep, hd, hn, ht] at hheld
    have hstored : ∀ s : Shell V F, s.stored token.key =
        ((s.held token.key).1, (s.held token.key).2.1, (s.held token.key).2.2.2) := by
      intro s
      unfold stored held
      cases s.inner.entry token.key <;> rfl
    rw [hstored, hheld, stored, he]
    rfl

end step

section run

variable [Platform] {defaults : QueryOptions} {log : List (Trace.Record (Shell V F) (Call V F))}
  {s : Shell V F}

/-- An optimistic write stays pledged until its mutation settles. -/
theorem Pledged.carried {m : Shell V F} (hm : m.Inv) {token : MutationToken}
    {saved : OptimisticSnapshot V} (hp : Pledged token saved [] m)
    (hw : token.writtenSeq = some saved.writtenSeq)
    {ys : List (Trace.Record (Shell V F) (Call V F))} (hr : Trace.Run Step m ys s)
    (hys : ∀ x ∈ ys, x.label.event.settled? ≠ some token) : s.Inv ∧ Pledged token saved ys s := by
  refine hr.history (P := fun ys s => (∀ x ∈ ys, x.label.event.settled? ≠ some token) →
    s.Inv ∧ Pledged token saved ys s) (fun _ => ⟨hm, hp⟩) ?_ hys
  intro ys s c s' _ ih hs hopen
  obtain ⟨hI, hpledged⟩ := ih fun x hx => hopen x (List.mem_append_left _ hx)
  exact ⟨hI.step hs, hI.pledged_step hs hpledged hw (hopen ⟨s, c, s'⟩ (by simp))⟩

/-- **The rollback dichotomy.** Let a mutation with an optimistic value begin in a run, and let it settle
later by an error or an abort, with its rollback enabled; any events may happen in between. If none of
them sets the key, populates it, or begins another optimistic mutation on it, the settlement restores
the data, its seq, the error and the time that were held just before the mutation began. Otherwise it
leaves the data, its seq and its time as they were just before the settlement. -/
theorem rollback_dichotomy (h : Run defaults log s)
    {xs ys zs : List (Trace.Record (Shell V F) (Call V F))}
    {q r : Trace.Record (Shell V F) (Call V F)} (hlog : log = xs ++ q :: (ys ++ r :: zs))
    {k : QueryKey} {value : V} {token : MutationToken}
    (hq : q.label.event = .mutateBegin k (some value)) (htoken : q.label.begun? = some token)
    (hys : ∀ x ∈ ys, x.label.event.settled? ≠ some token) (hr : r.label.event.revokes token) :
    ((∀ x ∈ ys, ¬ x.label.event.clobbers k) → r.post.held k = q.pre.held k) ∧
      ((∃ x ∈ ys, x.label.event.clobbers k) → r.post.stored k = r.pre.stored k) := by
  subst hlog
  obtain ⟨hxs, hqs, hrun, hrs, -⟩ := h.between
  have hI := inv_of_run hxs
  obtain ⟨rfl, saved, hw, hheld, hpledged⟩ := hI.pledged_begin hqs hq htoken
  obtain ⟨hI', hpledged'⟩ := Pledged.carried (hI.step hqs) hpledged hw hrun hys
  rw [hheld]
  exact hI'.pledged_revoked hrs hpledged' hw hr

end run

section witness

attribute [local instance] exampleClock

set_option synthInstance.maxSize 512 in
/-- The failure of the mutation restores what was held before it began, past a mutation without an
optimistic value that began and was aborted in between. -/
theorem rollback_dichotomy_example :
    ∃ (a b c d e : Trace.Record (Shell Nat Unit) (Call Nat Unit)) (s : Shell Nat Unit),
      Run .default [a, b, c, d, e] s ∧ e.pre.held ⟨0, []⟩ = (some 7, 3, none, some 0) ∧
        e.post.held ⟨0, []⟩ = (some 5, 1, none, some 0) := by
  let key : QueryKey := ⟨0, []⟩
  have hobs : ((init .default : Shell Nat Unit).exec (failingRun none none)).map (fun r =>
      r.1.map fun r => (r.label.begun?, r.pre.held key)) =
      some [(none, none, 0, none, none), (some ⟨key, some 3⟩, some 5, 1, none, some 0),
        (some ⟨key, none⟩, some 7, 3, none, some 0), (none, some 7, 3, none, some 0),
        (none, some 7, 3, none, some 0)] := by decide +kernel
  obtain ⟨⟨log, s⟩, hex, hobs⟩ := Option.map_eq_some_iff.mp hobs
  have hcalls := exec_calls hex
  have hrun : Run .default log s := run_of_exec hex
  obtain ⟨a, log, rfl, -, hcalls⟩ := List.map_eq_cons_iff.mp hcalls
  obtain ⟨b, log, rfl, hb, hcalls⟩ := List.map_eq_cons_iff.mp hcalls
  obtain ⟨c, log, rfl, hc, hcalls⟩ := List.map_eq_cons_iff.mp hcalls
  obtain ⟨d, log, rfl, hd, hcalls⟩ := List.map_eq_cons_iff.mp hcalls
  obtain ⟨e, log, rfl, he, hcalls⟩ := List.map_eq_cons_iff.mp hcalls
  obtain rfl := List.map_eq_nil_iff.mp hcalls
  simp only [Prod.mk.injEq] at hb hc hd he
  simp only [List.map_cons, List.map_nil, List.cons.injEq] at hobs
  obtain ⟨-, htoken, -, -, hlast, -⟩ := hobs
  obtain ⟨htoken, hheld⟩ := Prod.mk.inj htoken
  have hcut : [a, b, c, d, e] = [a] ++ b :: ([c, d] ++ e :: []) := rfl
  have hopen : ∀ x ∈ [c, d], x.label.event.settled? ≠ some ⟨key, some 3⟩ := by
    simp [hc.1, hd.1, Event.settled?]
  have hfails : e.label.event.revokes ⟨key, some 3⟩ := by
    rw [he.1]
    exact ⟨rfl, ⟨9, rfl⟩, rfl⟩
  have hquiet : ∀ x ∈ [c, d], ¬ x.label.event.clobbers key := by
    simp [hc.1, hd.1, Event.clobbers]
  have hback := (rollback_dichotomy hrun hcut hb.1 htoken hopen hfails).1 hquiet
  exact ⟨a, b, c, d, e, s, hrun, (Prod.mk.inj hlast).2, hback.trans hheld⟩

end witness

end Shell

end SwrCore
