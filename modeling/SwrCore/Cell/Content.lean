import SwrCore.Cell.Sound

/-!
# What readers see of an entry

* `KeyEvent.react_silent` — an event that marks no `Notify` leaves everything a snapshot shows as it was.
* `Content` — the part of a snapshot that a reader takes its result from: the data and the error, with
  the seqs that date them.
* `EntryCore.Holds` — the contents an entry stores: its own, and the one its rollback slot saved.
* `KeyEvent.Makes`, `EntryCore.holds_react` — the contents an event writes: every content stored after
  an event was stored before it, or the event wrote it.
-/

set_option linter.unusedSectionVars false

namespace SwrCore

variable {V F : Type}

/-! ## Silent events -/

section silent

variable [Platform] {defaults : QueryOptions} {now : Instant} {e : EntryCore V F}

/-- The stages after the handler count a version for each snapshot. -/
theorem EntryCore.snapVersion_settled (e : EntryCore V F) (m : Marks V F) :
    (e.settled now m).snapVersion = e.snapVersion + if m.notify then 1 else 0 := by
  have hgc : ∀ e : EntryCore V F, e.gcArmed.snapVersion = e.snapVersion := by
    intro e
    unfold gcArmed
    split_ifs <;> rfl
  have hrefresh : ∀ e : EntryCore V F, (e.refreshArmed now).snapVersion = e.snapVersion := by
    intro e
    unfold refreshArmed
    split_ifs <;> rfl
  unfold settled
  split_ifs <;> simp only [notified, hrefresh, hgc, Nat.add_zero]

/-- Apart from its version, a snapshot does not show them. -/
theorem EntryCore.buildSnapshot_settled (e : EntryCore V F) (m : Marks V F) (version : Nat) :
    (e.settled now m).buildSnapshot version = e.buildSnapshot version :=
  EntryCore.settled_of (f := fun e => e.buildSnapshot version) (fun _ _ _ _ => rfl) e now m

/-- **No silent change.** An event that marks no `Notify` changes nothing that a snapshot shows. -/
theorem KeyEvent.react_silent {kev : KeyEvent V F} (h : kev.notifies defaults now e = false)
    (version : Nat) :
    (kev.react defaults now e).buildSnapshot version = e.buildSnapshot version := by
  -- Whatever starts a fetch marks a `Notify`, so only the action itself is left.
  have hquiet : ∀ hs : kev.starts defaults now e = false,
      (kev.apply defaults now e).buildSnapshot version = e.buildSnapshot version →
      (kev.react defaults now e).buildSnapshot version = e.buildSnapshot version := by
    intro hs happly
    rw [KeyEvent.react, hs]
    exact happly
  cases kev with
  | commitOk incarnation seq value =>
      have hd : e.dropsCommit incarnation seq = true := by simpa [KeyEvent.notifies] using h
      refine hquiet (by simp [KeyEvent.starts, KeyEvent.wants]) ?_
      simp [KeyEvent.apply, hd]
  | commitErr incarnation seq error =>
      have hd : e.dropsCommit incarnation seq = true := by simpa [KeyEvent.notifies] using h
      refine hquiet (by simp [KeyEvent.starts, KeyEvent.wants]) ?_
      simp [KeyEvent.apply, hd]
  | invalidate =>
      have hm : e.mutationActive ≠ 0 := by simpa [KeyEvent.notifies] using h
      have hpos : 0 < e.mutationActive := Nat.pos_of_ne_zero hm
      refine hquiet ?_ ?_
      · simp [KeyEvent.starts, KeyEvent.apply, EntryCore.canStartFetch, hm, hpos]
      · simp only [KeyEvent.apply, if_pos hpos]
        rfl
  | mutateSet value => cases h
  | mutateBegin optimistic => cases h
  | mutateCommit token result flags => cases h
  | mutateAbort token flags => cases h
  | broadcast ev =>
      refine hquiet h ?_
      simp only [KeyEvent.apply, EntryCore.refocused]
      split_ifs <;> rfl
  | unsubscribe subId => exact hquiet rfl rfl
  | _ => exact hquiet h rfl

end silent

/-! ## Contents -/

/-- What a reader takes its result from. -/
structure Content (V : Type) where
  data : Option V
  error : Option V
  dataSeq : Nat
  errorSeq : Nat

/-- The content of a snapshot. -/
def Snapshot.content (sn : Snapshot V) : Content V := ⟨sn.data, sn.error, sn.dataSeq, sn.errorSeq⟩

namespace EntryCore

/-- The content of an entry. -/
def content (e : EntryCore V F) : Content V := ⟨e.data, e.error, e.dataSeq, e.errorSeq⟩

/-- The content that a rollback to this slot restores. -/
def saved (e : EntryCore V F) (o : OptimisticSnapshot V) : Content V :=
  ⟨o.prevData, o.prevError, o.prevDataSeq, e.errorSeq⟩

/-- The contents an entry stores. -/
def Holds (e : EntryCore V F) (x : Content V) : Prop :=
  x = e.content ∨ ∃ o, e.optimistic = some o ∧ x = e.saved o

/-- A new entry holds the empty content. -/
theorem holds_new (key : QueryKey) (incarnation : Nat) {x : Content V}
    (h : (EntryCore.new key incarnation : EntryCore V F).Holds x) : x = Snapshot.empty.content := by
  rcases h with h | ⟨o, ho, -⟩
  · exact h
  · cases ho

end EntryCore

/-- The contents an event writes into an entry. -/
inductive KeyEvent.Makes (e : EntryCore V F) : KeyEvent V F → Content V → Prop
  | landed {incarnation seq value} (h : e.dropsCommit incarnation seq = false) :
      Makes e (.commitOk incarnation seq value)
        ⟨if e.unchanged value then e.data else some value, none, seq, e.errorSeq⟩
  | failed {incarnation seq error} (h : e.dropsCommit incarnation seq = false) :
      Makes e (.commitErr incarnation seq error) ⟨e.data, some error, e.dataSeq, seq⟩
  | set {value} : Makes e (.mutateSet value) ⟨some value, none, e.seq + 1, e.errorSeq⟩
  | optimistic {value} :
      Makes e (.mutateBegin (some value)) ⟨some value, e.error, e.seq + 2, e.errorSeq⟩
  | populated {token value flags} (h : flags.populate = true) :
      Makes e (.mutateCommit token (.ok (some value)) flags)
        ⟨some value, none, e.seq + 1, e.errorSeq⟩
  /-- A mutation failed without a rollback. -/
  | rejected {token error flags} (h : e.rollsBack token flags.rollbackOnError = false) :
      Makes e (.mutateCommit token (.error error) flags)
        ⟨e.data, some error, e.dataSeq, e.errorSeq⟩

namespace EntryCore

section holds

variable {e : EntryCore V F} {x : Content V}

/-- To give up what was saved adds no content. -/
theorem holds_slotCleared {token : MutationToken} (h : (e.slotCleared token).Holds x) :
    e.Holds x := by
  unfold slotCleared at h
  split_ifs at h
  · rcases h with h | ⟨o, ho, -⟩
    · exact .inl h
    · cases ho
  · exact h

/-- A rollback brings nothing new. -/
theorem holds_restored (h : e.restored.Holds x) : e.Holds x := by
  unfold restored at h
  cases ho : e.optimistic with
  | none =>
      rw [ho] at h
      exact h
  | some o =>
      rw [ho] at h
      rcases h with h | ⟨o', ho', -⟩
      · exact .inr ⟨o, ho, h⟩
      · cases ho'

/-- A rollback brings back what was held. -/
theorem holds_rolledBack {token : MutationToken} {flag : Bool}
    (h : (e.rolledBack token flag).Holds x) : e.Holds x := by
  unfold rolledBack at h
  split_ifs at h
  · exact holds_restored h
  · exact holds_slotCleared h

/-- A mutation that settles stores its value, or its error, or gives up what it saved. -/
theorem holds_resolved [Platform] {now : Instant} {token : MutationToken}
    {result : Except V (Option V)} {flags : MutateFlags}
    (h : (e.released.resolved token result flags now).Holds x) :
    e.Holds x ∨ (KeyEvent.mutateCommit token result flags : KeyEvent V F).Makes e x := by
  have hkeep : ∀ e' : EntryCore V F, e'.content = e.content → e'.optimistic = e.optimistic →
      e'.Holds x → e.Holds x := by
    intro e' hc ho hx
    have herr : e'.errorSeq = e.errorSeq := congrArg Content.errorSeq hc
    unfold Holds saved at hx ⊢
    rwa [hc, ho, herr] at hx
  rcases result with error | _ | value
  · -- The error is written first, and stays unless the rollback replaces it.
    unfold resolved at h
    simp only [rolledBack] at h
    split_ifs at h with hr
    · unfold restored at h
      cases ho : e.optimistic with
      | none =>
          have hown : e.ownsSlot token = true := by
            simp only [rollsBack, Bool.and_eq_true] at hr
            exact hr.1.1
          rw [ownsSlot, ho] at hown
          cases hown
      | some o =>
          rw [show ({ e.released with error := some error } : EntryCore V F).optimistic =
            e.optimistic from rfl, ho] at h
          rcases h with rfl | ⟨o', ho', -⟩
          · exact .inl (.inr ⟨o, ho, rfl⟩)
          · cases ho'
    · have hr := Bool.eq_false_of_not_eq_true hr
      rcases holds_slotCleared h with rfl | ⟨o, ho, rfl⟩
      · exact .inr (.rejected hr)
      · exact .inl (.inr ⟨o, ho, rfl⟩)
  · exact .inl (hkeep e.released rfl rfl (holds_slotCleared h))
  · by_cases hp : flags.populate = true
    · simp only [resolved, hp, if_true] at h
      rcases h with rfl | ⟨o, ho, -⟩
      · exact .inr (.populated hp)
      · cases ho
    · simp only [resolved, hp] at h
      exact .inl (hkeep e.released rfl rfl (holds_slotCleared h))

/-- **Where contents come from.** Every content an entry stores after an event was stored before, or
the event wrote it. -/
theorem holds_apply [Platform] (hslot : e.mutationActive = 0 → e.optimistic = none)
    {defaults : QueryOptions} {now : Instant} {kev : KeyEvent V F}
    (h : (kev.apply defaults now e).Holds x) : e.Holds x ∨ kev.Makes e x := by
  cases kev with
  | commitOk incarnation seq value =>
      simp only [KeyEvent.apply] at h
      split_ifs at h with hd
      · exact .inl h
      · rcases h with rfl | ⟨o, ho, -⟩
        · exact .inr (.landed (Bool.eq_false_of_not_eq_true hd))
        · cases ho
  | commitErr incarnation seq error =>
      simp only [KeyEvent.apply] at h
      split_ifs at h with hd
      · exact .inl h
      · have hd := Bool.eq_false_of_not_eq_true hd
        rcases h with rfl | ⟨o, ho, -⟩
        · exact .inr (.failed hd)
        · -- A fetch only fails while no mutation is active, and then the slot is free.
          have hfree := hslot (dropsCommit_eq_false.mp hd).2.1
          rw [show (e.failed seq error).optimistic = e.optimistic from rfl, hfree] at ho
          cases ho
  | mutateSet value =>
      rcases h with rfl | ⟨o, ho, -⟩
      · exact .inr .set
      · cases ho
  | mutateBegin optimistic =>
      cases optimistic with
      | none => exact .inl h
      | some value =>
          rcases h with rfl | ⟨o, ho, rfl⟩
          · exact .inr .optimistic
          · cases ho
            exact .inl (.inl rfl)
  | mutateCommit token result flags => exact holds_resolved h
  | mutateAbort token flags => exact .inl (holds_rolledBack (e := e.released) h)
  | invalidate =>
      simp only [KeyEvent.apply, dirtied] at h
      split_ifs at h <;> exact .inl h
  | broadcast ev =>
      simp only [KeyEvent.apply, refocused] at h
      split_ifs at h <;> exact .inl h
  | _ => exact .inl h

/-- The fetch that an event starts stores nothing. -/
theorem holds_react [Platform] (hslot : e.mutationActive = 0 → e.optimistic = none)
    {defaults : QueryOptions} {now : Instant} {kev : KeyEvent V F}
    (h : (kev.react defaults now e).Holds x) : e.Holds x ∨ kev.Makes e x := by
  have happly : (kev.apply defaults now e).Holds x := by
    unfold KeyEvent.react at h
    split_ifs at h
    · exact h
    · exact h
  exact holds_apply hslot happly

/-- Nor do the stages after the handler. -/
theorem holds_settled [Platform] {now : Instant} {m : Marks V F}
    (h : (e.settled now m).Holds x) : e.Holds x := by
  rwa [EntryCore.settled_of (f := fun e => e.Holds x) (fun _ _ _ _ => rfl)] at h

end holds

/-- A result that is taken for equal has something it is equal to. -/
theorem landed_isSome (e : EntryCore V F) (seq : Nat) (value : V) (now : Instant) :
    (e.landed seq value now).data.isSome := by
  cases hsame : e.unchanged value with
  | false =>
      simp only [landed, hsame]
      rfl
  | true =>
      simp only [landed, hsame, if_true]
      obtain ⟨eq, -, hdata⟩ := (Option.any_eq_true _ _).mp hsame
      obtain ⟨old, hold, -⟩ := (Option.any_eq_true _ _).mp hdata
      rw [hold]
      rfl

end EntryCore

end SwrCore
