import SwrCore.Library.UndoSlot
import SwrCore.Shell.Invariant

/-!
# Overlapping failed mutations

The optimistic writes of all mutations on a key share one rollback slot. Seen through
`Shell.undoSlot`, the data of a key under mutations that fail is the store of `Library.UndoSlot`.

* `EntryCore.undoSlot`, `Call.op` — that reading of an entry and of a call.
* `Shell.Episode` — a part of a run in which mutations on a key begin, overlap and all fail.
* `Shell.Episode.simulates` — every step of an episode is a step of the store.
* `Shell.phantom_free_iff` — the data is restored exactly if no optimistic mutation began while
  another one was outstanding.
* `Shell.phantom_data` — two overlapping optimistic mutations that fail leave a phantom.
-/

set_option linter.unusedSectionVars false

namespace SwrCore

variable {V F : Type}

/-! ## The data of a key as an undoable store -/

/-- The data of an entry with the time it was written at, its seq and its rollback slot. -/
def EntryCore.undoSlot (e : EntryCore V F) (writers : List Nat) :
    UndoSlot (Option V × Option Instant) where
  value := (e.data, e.updatedAt)
  stamp := e.dataSeq
  saved := e.optimistic.map fun o => ⟨(o.prevData, o.prevUpdatedAt), o.prevDataSeq, o.writtenSeq⟩
  writers := writers

/-- The seqs of the optimistic writes on a key whose mutations have not settled. -/
def MutationToken.writers (k : QueryKey) (tokens : List MutationToken) : List Nat :=
  tokens.filterMap fun t => if t.key = k then t.writtenSeq else none

/-- What a call does to the data of the key `k` while mutations that fail are active on it. -/
def Call.op (k : QueryKey) (c : Call V F) : UndoSlot.Op (Option V × Option Instant) :=
  match c.event with
  | .mutateBegin key optimistic =>
    if key = k then
      match optimistic, c.out.outcome with
      | some value, .mutation token =>
        token.writtenSeq.elim .skip (.write fun v => (some value, v.2))
      | _, _ => .skip
    else .skip
  | .mutateCommit token _ _ => if token.key = k then token.writtenSeq.elim .skip .undo else .skip
  | .mutateAbort token _ => if token.key = k then token.writtenSeq.elim .skip .undo else .skip
  | _ => .skip

/-- A failed mutation undoes its optimistic write. -/
theorem EntryCore.undoSlot_rolledBack (e : EntryCore V F) {token : MutationToken} {seq : Nat}
    (h : token.writtenSeq = some seq) (writers : List Nat) :
    (e.rolledBack token true).undoSlot (writers.erase seq) = (e.undoSlot writers).undo seq := by
  unfold rolledBack rollsBack slotCleared ownsSlot restored UndoSlot.undo undoSlot
  cases ho : e.optimistic with
  | none => simp [ho]
  | some o =>
      by_cases hw : o.writtenSeq = seq
      · by_cases hd : e.dataSeq = seq
        · simp [h, hw, hd]
        · simp [h, hw, hd]
      · simp [ho, h, hw]

/-- A mutation that does not own the slot leaves the entry alone. -/
theorem EntryCore.rolledBack_of_foreign {e : EntryCore V F} {token : MutationToken}
    (h : e.ownsSlot token = false) (flag : Bool) :
    e.slotCleared token = e ∧ e.rolledBack token flag = e := by
  simp [EntryCore.rolledBack, EntryCore.rollsBack, EntryCore.slotCleared, h]

/-- A mutation without an optimistic write has nothing to undo. -/
theorem EntryCore.rolledBack_of_none (e : EntryCore V F) {token : MutationToken}
    (h : token.writtenSeq = none) (flag : Bool) : e.rolledBack token flag = e := by
  have howns : e.ownsSlot token = false := by
    cases ho : e.optimistic <;> simp [EntryCore.ownsSlot, ho, h]
  exact (EntryCore.rolledBack_of_foreign howns flag).2

theorem EntryCore.undoSlot_begun (e : EntryCore V F) (value : V) (writers : List Nat) :
    (e.begun (some value)).undoSlot (writers ++ [e.seq + 2]) =
      (e.undoSlot writers).write (fun v => (some value, v.2)) (e.seq + 2) :=
  rfl

/-- While a mutation is active, only local writes and settlements change the data or the slot. -/
theorem EntryCore.undoSlot_apply [Platform] {e : EntryCore V F} (hm : 0 < e.mutationActive)
    (defaults : QueryOptions) (now : Instant) {kev : KeyEvent V F}
    (hset : kev.settles = false) (hwrite : ∀ value, kev ≠ .mutateSet value)
    (hbegin : ∀ value, kev ≠ .mutateBegin (some value)) (writers : List Nat) :
    (kev.apply defaults now e).undoSlot writers = e.undoSlot writers := by
  have hdrop : ∀ incarnation seq, e.dropsCommit incarnation seq = true := by
    intro incarnation seq
    simp [EntryCore.dropsCommit, hm]
  cases kev with
  | commitOk incarnation seq value => rw [KeyEvent.apply, if_pos (hdrop _ _)]
  | commitErr incarnation seq error => rw [KeyEvent.apply, if_pos (hdrop _ _)]
  | mutateSet value => exact absurd rfl (hwrite value)
  | mutateBegin optimistic =>
      cases optimistic with
      | none => rfl
      | some value => exact absurd rfl (hbegin value)
  | mutateCommit token result flags => cases hset
  | mutateAbort token flags => cases hset
  | invalidate => rw [KeyEvent.apply, if_pos hm]; rfl
  | broadcast ev =>
      simp only [KeyEvent.apply, EntryCore.refocused]
      split_ifs <;> rfl
  | _ => rfl

theorem EntryCore.undoSlot_after [Platform] (inner : Inner V F) (now : Instant) (k : QueryKey)
    (kev : KeyEvent V F) (e : EntryCore V F) (writers : List Nat) :
    (inner.after now k kev e).undoSlot writers =
      (kev.apply inner.defaults now e).undoSlot writers := by
  rw [Inner.after_of (f := fun e => e.undoSlot writers) (fun _ _ _ _ => rfl)]
  unfold KeyEvent.react
  split_ifs <;> rfl

/-! ## The open writes of a key -/

theorem MutationToken.writers_append_other {k : QueryKey} (tokens : List MutationToken)
    {t : MutationToken} (h : t.key = k → t.writtenSeq = none) :
    writers k (tokens ++ [t]) = writers k tokens := by
  unfold writers
  by_cases hk : t.key = k
  · simp [hk, h hk]
  · simp [hk]

theorem MutationToken.writers_erase_other {k : QueryKey} (tokens : List MutationToken)
    {t : MutationToken} (h : t.key = k → t.writtenSeq = none) :
    writers k (tokens.erase t) = writers k tokens := by
  unfold writers
  induction tokens with
  | nil => rfl
  | cons a tokens ih =>
      by_cases ha : a = t
      · rw [ha, List.erase_cons_head]
        by_cases hk : t.key = k
        · simp [hk, h hk]
        · simp [hk]
      · rw [List.erase_cons_tail (by simpa using ha), List.filterMap_cons, List.filterMap_cons, ih]

/-- The settlement of an optimistic mutation closes its write. -/
theorem MutationToken.writers_erase (tokens : List MutationToken) {t : MutationToken} {seq : Nat}
    (h : t.writtenSeq = some seq) :
    writers t.key (tokens.erase t) = (writers t.key tokens).erase seq := by
  unfold writers
  induction tokens with
  | nil => rfl
  | cons a tokens ih =>
      by_cases ha : a = t
      · rw [ha, List.erase_cons_head]
        simp [h]
      · rw [List.erase_cons_tail (by simpa using ha), List.filterMap_cons, List.filterMap_cons, ih]
        by_cases hk : a.key = t.key
        · cases hw : a.writtenSeq with
          | none => simp [hk]
          | some w =>
              -- Two tokens of one key with one seq are the same token.
              have hne : w ≠ seq := by
                rintro rfl
                refine ha ?_
                calc a = ⟨a.key, a.writtenSeq⟩ := rfl
                  _ = ⟨t.key, t.writtenSeq⟩ := by rw [hk, hw, h]
                  _ = t := rfl
              simp only [hk, if_true]
              rw [List.erase_cons_tail (by simpa using hne)]
        · simp [hk]

theorem MutationToken.mem_writers {tokens : List MutationToken} {t : MutationToken} {seq : Nat}
    (ht : t ∈ tokens) (h : t.writtenSeq = some seq) : seq ∈ writers t.key tokens :=
  List.mem_filterMap.mpr ⟨t, ht, by rw [if_pos rfl, h]⟩

/-- The event is no local write to the key and does not settle a mutation on it, except as a failure
that asks for its rollback. -/
def Event.fails (k : QueryKey) : Event V F → Prop
  | .mutateSet key _ => key ≠ k
  | .mutateCommit token result flags =>
    token.key = k → (∃ error, result = .error error) ∧ flags.rollbackOnError = true
  | .mutateAbort token flags => token.key = k → flags.rollbackOnError = true
  | _ => True

namespace Shell

/-! ## One step -/

/-- A mutation is active on the key. -/
def Mutating (k : QueryKey) (s : Shell V F) : Prop :=
  ∃ e, s.inner.entry k = some e ∧ 0 < e.mutationActive

/-- The data of a key; a key without an entry has that of a new one. -/
def undoSlot (k : QueryKey) (s : Shell V F) : UndoSlot (Option V × Option Instant) :=
  ((s.inner.entry k).getD (.new k s.inner.nextIncarnation)).undoSlot
    (MutationToken.writers k s.tokens)

section step

variable [Platform] {s s' : Shell V F} {c : Call V F} {k : QueryKey}

/-- The open writes of a key after an event that does not concern its mutations. -/
theorem Inv.writers_quiet (h : s.Inv) (hs : Step s c s')
    (hbegin : ∀ optimistic, c.event ≠ .mutateBegin k optimistic)
    (hcommit : ∀ token result flags, c.event = .mutateCommit token result flags → token.key ≠ k)
    (habort : ∀ token flags, c.event = .mutateAbort token flags → token.key ≠ k) :
    MutationToken.writers k s'.tokens = MutationToken.writers k s.tokens ∧ c.op k = .skip := by
  rw [next_tokens hs]
  cases hev : c.event with
  | mutateBegin key optimistic =>
      have hne : key ≠ k := by
        rintro rfl
        exact hbegin optimistic hev
      obtain ⟨e, -, -, htokens⟩ := h.begin_outcome hs hev
      rw [htokens]
      refine ⟨MutationToken.writers_append_other _ fun hk => absurd hk hne, ?_⟩
      simp only [Call.op, hev, if_neg hne]
  | mutateCommit token result flags =>
      have hne := hcommit token result flags hev
      rw [(Call.mutateCommit s.handles s.tokens hev).2]
      refine ⟨MutationToken.writers_erase_other _ fun hk => absurd hk hne, ?_⟩
      simp only [Call.op, hev, if_neg hne]
  | mutateAbort token flags =>
      have hne := habort token flags hev
      rw [(Call.mutateAbort s.handles s.tokens hev).2]
      refine ⟨MutationToken.writers_erase_other _ fun hk => absurd hk hne, ?_⟩
      simp only [Call.op, hev, if_neg hne]
  | subscribe key fetcher compare opts =>
      rw [(h.subscribe_outcome hs hev).2]
      exact ⟨rfl, by simp only [Call.op, hev]⟩
  | unsubscribe key subId =>
      rw [(Call.unsubscribe s.handles s.tokens hev).2]
      exact ⟨rfl, by simp only [Call.op, hev]⟩
  | _ =>
      rw [(Call.of_neutral (by rw [hev]; rfl) s.handles s.tokens).2]
      exact ⟨rfl, by simp only [Call.op, hev]⟩

/-- The failure of a mutation on the key is an undo. -/
theorem undoSlot_settled {token : MutationToken} (ht : token ∈ s.tokens) (e : EntryCore V F) :
    (e.undoSlot (MutationToken.writers token.key s.tokens)).Step
      (token.writtenSeq.elim .skip .undo)
      ((e.rolledBack token true).undoSlot
        (MutationToken.writers token.key (s.tokens.erase token))) := by
  cases hw : token.writtenSeq with
  | none =>
      rw [EntryCore.rolledBack_of_none _ hw, MutationToken.writers_erase_other _ fun _ => hw]
      exact rfl
  | some seq =>
      refine ⟨MutationToken.mem_writers ht hw, ?_⟩
      rw [MutationToken.writers_erase _ hw, EntryCore.undoSlot_rolledBack _ hw]

/-- The entry a mutation finds: the one stored, or a new one. -/
theorem Inv.mutating_at (h : s.Inv) {kev : KeyEvent V F}
    (hbusy : Mutating k s ∨ ∃ optimistic, c.event = .mutateBegin k optimistic)
    (hon : c.event.on k s.inner.nextSubId = some kev) :
    ∃ e, s.inner.At c.event k kev e ∧
      s.undoSlot k = e.undoSlot (MutationToken.writers k s.tokens) ∧ e.dataSeq ≤ e.seq ∧
      (0 < e.mutationActive ∨ ∃ optimistic, c.event = .mutateBegin k optimistic) := by
  rcases hbusy with ⟨e, he, hm⟩ | ⟨optimistic, hev⟩
  · have hsub : s.inner.subject k kev = some e := by
      unfold Inner.subject
      split_ifs
      · rw [he]
        rfl
      · exact he
    have hr : kev.removes e = false := by
      cases kev with
      | timerFired kind generation =>
          have hq : e.isQuiescent = false := by
            have : e.mutationActive ≠ 0 := by omega
            simp [EntryCore.isQuiescent, this]
          cases kind <;> simp [KeyEvent.removes, hq]
      | _ => rfl
    refine ⟨e, ⟨hon, hsub, hr⟩, ?_, (h.shape k e he).dataSeq, .inl hm⟩
    rw [undoSlot, he]
    rfl
  · have hkev : kev = .mutateBegin optimistic := by
      rw [hev] at hon
      exact (Option.some.inj ((if_pos rfl).symm.trans hon)).symm
    subst hkev
    have hat : s.inner.At c.event k (.mutateBegin optimistic)
        ((s.inner.entry k).getD (.new k s.inner.nextIncarnation)) := ⟨hon, if_pos rfl, rfl⟩
    exact ⟨_, hat, rfl, (h.subject hat.subject).1.dataSeq, .inr ⟨optimistic, hev⟩⟩

/-- A call that does not concern the key changes neither its data nor its writers. -/
theorem Inv.undoSlot_off (h : s.Inv) (hs : Step s c s')
    (hoff : c.event.on k s.inner.nextSubId = none) :
    (s.undoSlot k).Step (c.op k) (s'.undoSlot k) := by
  obtain ⟨hwriters, hop⟩ : MutationToken.writers k s'.tokens = MutationToken.writers k s.tokens ∧
      c.op k = .skip := by
    refine h.writers_quiet hs ?_ ?_ ?_
    · rintro optimistic hev
      simp [hev, Event.on] at hoff
    · rintro token result flags hev rfl
      simp [hev, Event.on] at hoff
    · rintro token flags hev rfl
      simp [hev, Event.on] at hoff
  rw [hop]
  show s'.undoSlot k = s.undoSlot k
  unfold undoSlot
  rw [hwriters, ((h.handled hs).off hoff).1]
  cases s.inner.entry k <;> rfl

/-- A mutation that fails takes its write back. -/
theorem undoSlot_failed (hs : Step s c s') {token : MutationToken} {error : V}
    {flags : MutateFlags} (hev : c.event = .mutateCommit token (.error error) flags)
    (hflag : flags.rollbackOnError = true) (e : EntryCore V F) (now : Instant) :
    (e.undoSlot (MutationToken.writers token.key s.tokens)).Step (c.op token.key)
      ((e.released.resolved token (.error error) flags now).undoSlot
        (MutationToken.writers token.key s'.tokens)) := by
  have hen : token ∈ s.tokens := by
    have hen := hs.enabled
    rwa [hev] at hen
  have hop : c.op token.key = token.writtenSeq.elim .skip .undo := by
    simp only [Call.op, hev, if_true]
  rw [hop, next_tokens hs, (Call.mutateCommit s.handles s.tokens hev).2, EntryCore.resolved, hflag]
  exact undoSlot_settled hen { e.released with error := some error }

/-- So does one that is aborted. -/
theorem undoSlot_aborted (hs : Step s c s') {token : MutationToken} {flags : MutateFlags}
    (hev : c.event = .mutateAbort token flags) (e : EntryCore V F) :
    (e.undoSlot (MutationToken.writers token.key s.tokens)).Step (c.op token.key)
      ((e.released.rolledBack token true).undoSlot
        (MutationToken.writers token.key s'.tokens)) := by
  have hen : token ∈ s.tokens := by
    have hen := hs.enabled
    rwa [hev] at hen
  have hop : c.op token.key = token.writtenSeq.elim .skip .undo := by
    simp only [Call.op, hev, if_true]
  rw [hop, next_tokens hs, (Call.mutateAbort s.handles s.tokens hev).2]
  exact undoSlot_settled hen e.released

/-- A mutation that begins with an optimistic value writes it, on top of everything before. -/
theorem Inv.undoSlot_begun (h : s.Inv) (hs : Step s c s') {optimistic : Option V}
    (hev : c.event = .mutateBegin k optimistic) {e : EntryCore V F}
    (hat : s.inner.At c.event k (.mutateBegin optimistic) e) (hle : e.dataSeq ≤ e.seq) :
    (e.undoSlot (MutationToken.writers k s.tokens)).Step (c.op k)
      ((KeyEvent.apply s.inner.defaults c.now e (.mutateBegin optimistic)).undoSlot
        (MutationToken.writers k s'.tokens)) := by
  obtain ⟨e₁, hsub, -, htokens⟩ := h.begin_outcome hs hev
  have hout := (h.handled hs).outcome k _ hat.on
  rw [hat.subject] at hsub
  cases hsub
  rw [next_tokens hs, htokens]
  cases optimistic with
  | none =>
      have hop : c.op k = .skip := by simp only [Call.op, hev, if_true]
      rw [hop, MutationToken.writers_append_other _ fun _ => rfl]
      exact rfl
  | some value =>
      have hop : c.op k = .write (fun v => (some value, v.2)) (e.seq + 2) := by
        have hans : c.out.outcome = .mutation ⟨k, some (e.seq + 2)⟩ := by
          rw [hout, Inner.answer, hat.subject]
          rfl
        simp only [Call.op, hev, hans, if_true, Option.elim_some]
      have hwriters : MutationToken.writers k (s.tokens ++ [⟨k, some (e.seq + 2)⟩]) =
          MutationToken.writers k s.tokens ++ [e.seq + 2] := by
        simp [MutationToken.writers]
      rw [hop]
      refine ⟨show e.dataSeq < e.seq + 2 by omega, ?_⟩
      exact (congrArg _ hwriters).trans (e.undoSlot_begun value _)

/-- **The simulation of one step.** While mutations are active on a key, and only fail, every call is
a step of the store. -/
theorem Inv.undoSlot_step (h : s.Inv) (hs : Step s c s')
    (hbusy : Mutating k s ∨ ∃ optimistic, c.event = .mutateBegin k optimistic)
    (hf : c.event.fails k) : (s.undoSlot k).Step (c.op k) (s'.undoSlot k) := by
  cases hon : c.event.on k s.inner.nextSubId with
  | none => exact h.undoSlot_off hs hon
  | some kev =>
      obtain ⟨e, hat, hpre, hle, hm⟩ := h.mutating_at hbusy hon
      have hpost : s'.undoSlot k =
          (kev.apply s.inner.defaults c.now e).undoSlot (MutationToken.writers k s'.tokens) := by
        rw [undoSlot, hat.entry (h.handled hs)]
        exact EntryCore.undoSlot_after s.inner c.now k kev e _
      rw [hpre, hpost]
      by_cases hset : ∃ token result flags, c.event = .mutateCommit token result flags ∧
          token.key = k
      · obtain ⟨token, result, flags, hev, rfl⟩ := hset
        rw [hev] at hf hon
        obtain ⟨⟨error, rfl⟩, hflag⟩ := hf rfl
        obtain rfl := Option.some.inj ((if_pos rfl).symm.trans hon)
        exact undoSlot_failed hs hev hflag e c.now
      by_cases habort : ∃ token flags, c.event = .mutateAbort token flags ∧ token.key = k
      · obtain ⟨token, flags, hev, rfl⟩ := habort
        rw [hev] at hf hon
        have hflag := hf rfl
        obtain rfl := Option.some.inj ((if_pos rfl).symm.trans hon)
        rw [KeyEvent.apply, hflag]
        exact undoSlot_aborted hs hev e
      by_cases hbegin : ∃ optimistic, c.event = .mutateBegin k optimistic
      · obtain ⟨optimistic, hev⟩ := hbegin
        rw [hev] at hon
        obtain rfl := Option.some.inj ((if_pos rfl).symm.trans hon)
        exact h.undoSlot_begun hs hev hat hle
      · -- No other event changes the data of the key.
        obtain ⟨hwriters, hop⟩ := h.writers_quiet hs (k := k) (fun o hev => hbegin ⟨o, hev⟩)
          (fun token result flags hev hk => hset ⟨token, result, flags, hev, hk⟩)
          (fun token flags hev hk => habort ⟨token, flags, hev, hk⟩)
        have hkev : kev.settles = false ∧ (∀ value, kev ≠ .mutateSet value) ∧
            ∀ value, kev ≠ .mutateBegin (some value) := by
          generalize hev : c.event = ev at hon hf
          cases Event.on_inv hon with
          | mutateSet => exact absurd rfl hf
          | @mutateBegin optimistic => exact absurd ⟨optimistic, hev⟩ hbegin
          | @mutateCommit token result flags hk =>
              exact absurd ⟨token, result, flags, hev, hk⟩ hset
          | @mutateAbort token flags hk => exact absurd ⟨token, flags, hev, hk⟩ habort
          | _ => refine ⟨rfl, fun value hv => ?_, fun value hv => ?_⟩ <;> cases hv
        rw [hwriters, hop]
        exact EntryCore.undoSlot_apply (hm.resolve_right hbegin) _ _ hkev.1 hkev.2.1 hkev.2.2 _

end step

/-! ## Episodes of failing mutations -/

/-- A part of a run, from a state in which no mutation is active on the key to one in which none is
active again. It begins with a mutation, one is active at every step in between, nothing is set, and
every mutation that settles fails with its rollback enabled. -/
structure Episode [Platform] (k : QueryKey) (s₀ : Shell V F)
    (log : List (Trace.Record (Shell V F) (Call V F))) (s : Shell V F) : Prop where
  run : Trace.Run Step s₀ log s
  idle : ¬ Mutating k s₀
  begins : ∃ r rest optimistic, log = r :: rest ∧ r.label.event = .mutateBegin k optimistic ∧
    ∀ x ∈ rest, Mutating k x.pre
  fails : ∀ r ∈ log, r.label.event.fails k
  settled : ¬ Mutating k s

/-- What is stored under the key: the data, its seq and the time it was written at. -/
def stored (k : QueryKey) (s : Shell V F) : Option V × Nat × Option Instant :=
  (s.inner.entry k).elim (none, 0, none) fun e => (e.data, e.dataSeq, e.updatedAt)

/-- A mutation with an optimistic value begins while the mutation of another optimistic value is
outstanding on the key. -/
def Overlaps (k : QueryKey) (r : Trace.Record (Shell V F) (Call V F)) : Prop :=
  (∃ value, r.label.event = .mutateBegin k (some value)) ∧
    ∃ t ∈ r.pre.tokens, t.key = k ∧ t.writtenSeq.isSome

section episode

variable [Platform] {s s₀ : Shell V F} {k : QueryKey}
  {log : List (Trace.Record (Shell V F) (Call V F))}

theorem stored_eq_iff (s₁ s₂ : Shell V F) :
    s₁.stored k = s₂.stored k ↔
      (s₁.undoSlot k).value = (s₂.undoSlot k).value ∧
        (s₁.undoSlot k).stamp = (s₂.undoSlot k).stamp := by
  have hstored : ∀ s : Shell V F, s.stored k =
      ((s.undoSlot k).value.1, (s.undoSlot k).stamp, (s.undoSlot k).value.2) := by
    intro s
    unfold stored undoSlot
    cases s.inner.entry k <;> rfl
  rw [hstored, hstored]
  simp only [Prod.ext_iff]
  tauto

/-- Where no mutation is active, no write is open. -/
theorem Inv.writers_idle (h : s.Inv) (hidle : ¬ Mutating k s) : (s.undoSlot k).writers = [] := by
  refine List.filterMap_eq_nil_iff.mpr fun t ht => ?_
  split_ifs with hk
  · exfalso
    subst hk
    obtain ⟨e, he⟩ := Option.isSome_iff_exists.mp (h.token_entry t ht)
    exact hidle ⟨e, he, h.mutations_pos ht he⟩
  · rfl

/-- **An episode is a run of the store.** -/
theorem Episode.simulates (h : Episode k s₀ log s) (h₀ : s₀.Inv) :
    Trace.Run UndoSlot.Step (s₀.undoSlot k)
      (log.map (Trace.Record.map (Shell.undoSlot k) (Call.op k))) (s.undoSlot k) := by
  refine h.run.map fun r hr => ?_
  obtain ⟨xs, ys, hlog, hpre, hs, -⟩ := h.run.of_mem hr
  have hinv : r.pre.Inv := hpre.invariant h₀ fun _ _ _ hi hs => hi.step hs
  refine hinv.undoSlot_step hs ?_ (h.fails r hr)
  obtain ⟨b, rest, optimistic, rfl, hev, hbusy⟩ := h.begins
  rcases List.mem_cons.mp hr with rfl | hr
  · exact .inr ⟨optimistic, hev⟩
  · exact .inl (hbusy r hr)

theorem writers_eq_nil (s : Shell V F) :
    (s.undoSlot k).writers = [] ↔ ∀ t ∈ s.tokens, t.key = k → t.writtenSeq = none := by
  show MutationToken.writers k s.tokens = [] ↔ _
  rw [MutationToken.writers, List.filterMap_eq_nil_iff]
  simp only [ite_eq_right_iff]

/-- The writes of the store are the starts of optimistic mutations. -/
theorem Inv.op_write (h : s.Inv) {s' : Shell V F} {c : Call V F} (hs : Step s c s') :
    (∃ edit stamp, c.op k = .write edit stamp) ↔
      ∃ value, c.event = .mutateBegin k (some value) := by
  have helim : ∀ token : MutationToken, ∀ edit stamp,
      token.writtenSeq.elim .skip .undo ≠
        (.write edit stamp : UndoSlot.Op (Option V × Option Instant)) := by
    intro token edit stamp
    cases token.writtenSeq <;> exact nofun
  constructor
  · rintro ⟨edit, stamp, hop⟩
    unfold Call.op at hop
    cases hev : c.event <;> simp only [hev, reduceCtorEq] at hop
    case mutateBegin key optimistic =>
      split_ifs at hop with hk
      cases optimistic with
      | none => simp at hop
      | some value => exact ⟨value, by rw [hk]⟩
    all_goals
      split_ifs at hop
      exact absurd hop (helim _ _ _)
  · rintro ⟨value, hev⟩
    have hon : c.event.on k s.inner.nextSubId = some (.mutateBegin (some value)) := by
      rw [hev]
      exact if_pos rfl
    obtain ⟨e, hat, -, -, -⟩ := h.mutating_at (.inr ⟨_, hev⟩) hon
    have hout : c.out.outcome = .mutation ⟨k, some (e.seq + 2)⟩ := by
      rw [(h.handled hs).outcome k _ hon, Inner.answer, hat.subject]
      rfl
    refine ⟨fun v => (some value, v.2), e.seq + 2, ?_⟩
    simp only [Call.op, hev, hout, if_true, Option.elim_some]

theorem sequential_iff (h : Trace.Run Step s₀ log s) (h₀ : s₀.Inv) :
    UndoSlot.Sequential (log.map (Trace.Record.map (Shell.undoSlot k) (Call.op k))) ↔
      ∀ r ∈ log, ¬ Overlaps k r := by
  unfold UndoSlot.Sequential
  rw [List.forall_mem_map]
  refine forall₂_congr fun r hr => ?_
  obtain ⟨xs, ys, -, hpre, hs, -⟩ := h.of_mem hr
  have hinv : r.pre.Inv := hpre.invariant h₀ fun _ _ _ hi hs => hi.step hs
  have hwrite := hinv.op_write (k := k) hs
  constructor
  · rintro hseq ⟨hbegin, t, ht, hk, hw⟩
    obtain ⟨edit, stamp, hop⟩ := hwrite.mpr hbegin
    rw [(writers_eq_nil r.pre).mp (hseq edit stamp hop) t ht hk] at hw
    cases hw
  · intro hno edit stamp hop
    refine (writers_eq_nil r.pre).mpr fun t ht hk => ?_
    by_contra hw
    exact hno ⟨hwrite.mp ⟨edit, stamp, hop⟩, t, ht, hk, Option.isSome_iff_ne_none.mpr hw⟩

/-- **When overlapping failed mutations leave no phantom.** Let all mutations of an episode have
failed. What is stored under the key is what was stored before the first of them began if and only if
no optimistic mutation began while another one was outstanding. -/
theorem phantom_free_iff {defaults : QueryOptions}
    {before : List (Trace.Record (Shell V F) (Call V F))} (h₀ : Run defaults before s₀)
    (h : Episode k s₀ log s) : s.stored k = s₀.stored k ↔ ∀ r ∈ log, ¬ Overlaps k r := by
  have hinv₀ := inv_of_run h₀
  have hinv : s.Inv := h.run.invariant hinv₀ fun _ _ _ hi hs => hi.step hs
  rw [stored_eq_iff, UndoSlot.restored_iff (h.simulates hinv₀) (hinv₀.writers_idle h.idle)
    (hinv.writers_idle h.settled), sequential_iff h.run hinv₀]

end episode

section witness

attribute [local instance] exampleClock

/-- A value is set and mutated optimistically; a second mutation, with or without an optimistic value
of its own, begins and is aborted before the first one fails. -/
def failingRun (later seq : Option Nat) : List (Event Nat Unit × Instant × List QueryKey) :=
  let key : QueryKey := ⟨0, []⟩
  let flags : MutateFlags := ⟨true, true, true⟩
  [(.mutateSet key 5, 0, []),
   (.mutateBegin key (some 7), 1, []),
   (.mutateBegin key later, 2, []),
   (.mutateAbort ⟨key, seq⟩ flags, 3, []),
   (.mutateCommit ⟨key, some 3⟩ (.error 9) flags, 4, [])]

/-- The number of active mutations on the key of the run. -/
def active (s : Shell Nat Unit) : Nat :=
  (s.inner.entry ⟨0, []⟩).elim 0 EntryCore.mutationActive

theorem mutating_iff (s : Shell Nat Unit) : Mutating ⟨0, []⟩ s ↔ 0 < s.active := by
  unfold Mutating active
  cases s.inner.entry ⟨0, []⟩ <;> simp

/-- Where the run goes through, all but its first step are an episode. -/
theorem failingRun_episode (later seq : Option Nat)
    (hobs : ((init .default : Shell Nat Unit).exec (failingRun later seq)).map (fun r =>
      (r.1.map fun r => r.pre.active, r.2.active)) = some ([0, 0, 1, 2, 1], 0)) :
    ∃ (a b : Trace.Record (Shell Nat Unit) (Call Nat Unit))
      (rest : List (Trace.Record (Shell Nat Unit) (Call Nat Unit))) (s : Shell Nat Unit),
      (init .default : Shell Nat Unit).exec (failingRun later seq) = some (a :: b :: rest, s) ∧
        Run .default [a] b.pre ∧ Episode ⟨0, []⟩ b.pre (b :: rest) s := by
  obtain ⟨⟨log, s⟩, hex, hobs⟩ := Option.map_eq_some_iff.mp hobs
  have hrun : Run .default log s := run_of_exec hex
  have hcalls := exec_calls hex
  obtain ⟨hpre, hpost⟩ := Prod.mk.inj hobs
  obtain ⟨a, log, rfl, -, hpre⟩ := List.map_eq_cons_iff.mp hpre
  obtain ⟨b, log, rfl, hb, hpre⟩ := List.map_eq_cons_iff.mp hpre
  obtain ⟨c, log, rfl, hc, hpre⟩ := List.map_eq_cons_iff.mp hpre
  obtain ⟨d, log, rfl, hd, hpre⟩ := List.map_eq_cons_iff.mp hpre
  obtain ⟨e, log, rfl, he, hpre⟩ := List.map_eq_cons_iff.mp hpre
  obtain rfl := List.map_eq_nil_iff.mp hpre
  have hcut : [a, b, c, d, e] = [a] ++ b :: [c, d, e] := rfl
  obtain ⟨hfirst, hstep, hrest⟩ := (hcut ▸ hrun).middle
  simp only [failingRun, List.map_cons, List.map_nil, List.cons.injEq, Prod.mk.injEq] at hcalls
  obtain ⟨-, ⟨hbev, -⟩, ⟨hcev, -⟩, ⟨hdev, -⟩, ⟨heev, -⟩, -⟩ := hcalls
  refine ⟨a, b, [c, d, e], s, hex, hfirst, (Trace.Run.single hstep).trans hrest, ?_, ?_, ?_, ?_⟩
  · rw [mutating_iff, hb]
    exact lt_irrefl 0
  · refine ⟨b, _, _, rfl, hbev, ?_⟩
    simp only [List.forall_mem_cons, mutating_iff, hc, hd, he]
    simp
  · simp [Event.fails, hbev, hcev, hdev, heev]
  · rw [mutating_iff, hpost]
    exact lt_irrefl 0

/-- **A phantom.** Two overlapping optimistic mutations fail. The rollback of the later one makes the
value of the earlier one the latest write again, but takes the slot with it, so that value stays. -/
theorem phantom_data : ∃ (before log : List (Trace.Record (Shell Nat Unit) (Call Nat Unit)))
    (s₀ s : Shell Nat Unit), Run .default before s₀ ∧ Episode ⟨0, []⟩ s₀ log s ∧
      s₀.stored ⟨0, []⟩ = (some 5, 1, some 0) ∧ s.stored ⟨0, []⟩ = (some 7, 3, some 0) := by
  obtain ⟨a, b, rest, s, hex, h₀, hep⟩ := failingRun_episode (some 8) (some 5) (by decide +kernel)
  have hobs : ((init .default : Shell Nat Unit).exec (failingRun (some 8) (some 5))).map (fun r =>
      (r.1[1]?.map fun r => r.pre.stored ⟨0, []⟩, r.2.stored ⟨0, []⟩)) =
      some (some (some 5, 1, some 0), (some 7, 3, some 0)) := by decide +kernel
  rw [hex] at hobs
  simp only [Option.map_some, Option.some.injEq, Prod.mk.injEq, List.getElem?_cons_succ,
    List.getElem?_cons_zero] at hobs
  exact ⟨_, _, _, s, h₀, hep, hobs.1, hobs.2⟩

/-- The earlier mutation is undone when the later one wrote nothing. -/
theorem phantom_free_example : ∃ (before log : List (Trace.Record (Shell Nat Unit) (Call Nat Unit)))
    (s₀ s : Shell Nat Unit), Run .default before s₀ ∧ Episode ⟨0, []⟩ s₀ log s ∧
      s.stored ⟨0, []⟩ = (some 5, 1, some 0) ∧
      (s.stored ⟨0, []⟩ = s₀.stored ⟨0, []⟩ ↔ ∀ r ∈ log, ¬ Overlaps ⟨0, []⟩ r) := by
  obtain ⟨a, b, rest, s, hex, h₀, hep⟩ := failingRun_episode none none (by decide +kernel)
  have hobs : ((init .default : Shell Nat Unit).exec (failingRun none none)).map (fun r =>
      r.2.stored ⟨0, []⟩) = some (some 5, 1, some 0) := by decide +kernel
  rw [hex, Option.map_some, Option.some.injEq] at hobs
  exact ⟨_, _, _, s, h₀, hep, hobs, phantom_free_iff h₀ hep⟩

end witness

end Shell

end SwrCore
