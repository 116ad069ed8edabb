import SwrCore.Cell.Handled

/-!
# The invariant of one entry

* `EntryCore.Flying`, `EntryCore.Saved` — what an entry in flight looks like, and what the rollback
  slot holds.
* `EntryCore.Shape` — the part of the invariant that speaks of the entry alone.
* `EntryCore.Owned` — the part that counts the live handles and the outstanding tokens of the key.
* `EntryCore.Shape.react`, `EntryCore.Owned.react` — every event preserves them.
-/

set_option linter.unusedSectionVars false

namespace SwrCore

variable {V F : Type}

namespace EntryCore

/-! ## The invariant -/

/-- The flight `s` of an entry is its latest attempt, newer than everything stored, and neither a
mutation nor an invalidation has interrupted it. -/
structure Flying (e : EntryCore V F) (s : Nat) : Prop where
  seq : s = e.seq
  dataSeq : e.dataSeq < s
  errorSeq : e.errorSeq < s
  mutationActive : e.mutationActive = 0
  invalidated : e.invalidated = false
  fetcher : e.fetcher.isSome

/-- The rollback slot: what it saved is older than the optimistic write, and is itself well
formed. -/
structure Saved (e : EntryCore V F) (o : OptimisticSnapshot V) : Prop where
  older : o.prevDataSeq < o.writtenSeq
  written : o.writtenSeq ≤ e.seq
  data_iff : o.prevData.isSome ↔ 0 < o.prevDataSeq
  error_of : o.prevDataSeq < e.errorSeq → o.prevError.isSome

/-- The part of the invariant that speaks of the entry alone. -/
structure Shape (e : EntryCore V F) : Prop where
  dataSeq : e.dataSeq ≤ e.seq
  errorSeq : e.errorSeq ≤ e.seq
  flying : ∀ s, e.inflight = some s → e.Flying s
  saved : ∀ o, e.optimistic = some o → e.Saved o
  data_iff : e.data.isSome ↔ 0 < e.dataSeq
  error_of : e.dataSeq < e.errorSeq → e.error.isSome
  mutating : 0 < e.mutationActive → e.errorSeq < e.seq

/-- The part of the invariant that counts the live handles and the outstanding tokens of the key,
and names the owner of the rollback slot. -/
structure Owned (k : QueryKey) (tokens : List MutationToken) (handles : List (QueryKey × Nat))
    (e : EntryCore V F) : Prop where
  records : e.subscribers = e.opts.subs.entries.length
  subs_mem : ∀ id, id ∈ e.opts.subs ↔ (k, id) ∈ handles
  subscribers : e.subscribers = handles.countP fun h => decide (h.1 = k)
  mutations : e.mutationActive = tokens.countP fun t => decide (t.key = k)
  owner : ∀ o, e.optimistic = some o → ⟨k, some o.writtenSeq⟩ ∈ tokens

/-- A new entry is well formed. -/
theorem Shape.new (key : QueryKey) (incarnation : Nat) :
    (EntryCore.new key incarnation : EntryCore V F).Shape :=
  ⟨le_refl _, le_refl _, nofun, nofun, by simp [EntryCore.new], by simp [EntryCore.new],
    by simp [EntryCore.new]⟩

/-! ## The entry alone -/

section shape

variable {e : EntryCore V F}

/-- A mutation discards the flight, and no other starts before it ends. -/
theorem Shape.inflight_of_mutating (h : e.Shape) (hm : 0 < e.mutationActive) :
    e.inflight = none := by
  cases hi : e.inflight with
  | none => rfl
  | some s =>
      have := (h.flying s hi).mutationActive
      omega

/-- The options, the subscriber count, the timer generations, the notification version and the
throttle window have no part in the shape. -/
theorem Shape.bookkept (h : e.Shape) (opts : EntryOptions) (n gcGen refreshGen version : Nat)
    (till : Option Instant) :
    ({ e with
      opts := opts
      subscribers := n
      gcGen := gcGen
      refreshGen := refreshGen
      snapVersion := version
      focusBlockedUntil := till } : EntryCore V F).Shape := by
  refine ⟨h.dataSeq, h.errorSeq, ?_, ?_, h.data_iff, h.error_of, h.mutating⟩
  · intro s hs
    obtain ⟨h₁, h₂, h₃, h₄, h₅, h₆⟩ := h.flying s hs
    exact ⟨h₁, h₂, h₃, h₄, h₅, h₆⟩
  · intro o ho
    obtain ⟨h₁, h₂, h₃, h₄⟩ := h.saved o ho
    exact ⟨h₁, h₂, h₃, h₄⟩

/-- What the flight of an entry needs, it also needs after its fetcher was replaced. -/
theorem Shape.served (h : e.Shape) (fetcher : Option F) (compare : Option (Compare V))
    (opts : QueryOptions) : (e.served fetcher compare opts).Shape := by
  refine ⟨h.dataSeq, h.errorSeq, ?_, ?_, h.data_iff, h.error_of, h.mutating⟩
  · intro s hs
    obtain ⟨h₁, h₂, h₃, h₄, h₅, h₆⟩ := h.flying s hs
    refine ⟨h₁, h₂, h₃, h₄, h₅, ?_⟩
    cases fetcher with
    | none => exact h₆
    | some f => rfl
  · intro o ho
    obtain ⟨h₁, h₂, h₃, h₄⟩ := h.saved o ho
    exact ⟨h₁, h₂, h₃, h₄⟩

/-- A fetch that starts is the latest attempt, and newer than everything stored. -/
theorem Shape.started (h : e.Shape) (hc : e.canStartFetch = true) : e.started.Shape := by
  obtain ⟨hf, hm, hi⟩ := canStartFetch_iff.mp hc
  have hd := h.dataSeq
  have he := h.errorSeq
  refine ⟨?_, ?_, ?_, ?_, h.data_iff, h.error_of, ?_⟩
  · exact Nat.le_succ_of_le hd
  · exact Nat.le_succ_of_le he
  · intro s hs
    cases hs
    exact ⟨rfl, Nat.lt_succ_of_le hd, Nat.lt_succ_of_le he, hm, rfl, hf⟩
  · intro o ho
    obtain ⟨h₁, h₂, h₃, h₄⟩ := h.saved o ho
    exact ⟨h₁, Nat.le_succ_of_le h₂, h₃, h₄⟩
  · intro _
    exact Nat.lt_succ_of_le he

/-- A result that lands is data of the seq of its flight. -/
theorem Shape.landed (h : e.Shape) {s : Nat} (hs : e.inflight = some s) (value : V)
    (now : Instant) : (e.landed s value now).Shape := by
  obtain ⟨hseq, hd, he, hm, -, -⟩ := h.flying s hs
  have hpos : 0 < s := Nat.zero_lt_of_lt hd
  refine ⟨hseq.le, h.errorSeq, nofun, nofun, ?_, ?_, ?_⟩
  · refine iff_of_true ?_ hpos
    simp only [EntryCore.landed]
    split_ifs with hu
    · -- Structural sharing only keeps data that is there.
      cases hdata : e.data with
      | none =>
          unfold EntryCore.unchanged at hu
          cases hc : e.compare <;> simp [hc, hdata] at hu
      | some old => rfl
    · rfl
  · intro hlt
    have hlt : s < e.errorSeq := hlt
    omega
  · intro hpos'
    have hpos' : 0 < e.mutationActive := hpos'
    omega

/-- An error that lands is newer than the data. -/
theorem Shape.failed (h : e.Shape) {s : Nat} (hs : e.inflight = some s)
    (hslot : e.optimistic = none) (error : V) : (e.failed s error).Shape := by
  obtain ⟨hseq, -, -, hm, -, -⟩ := h.flying s hs
  refine ⟨h.dataSeq, hseq.le, nofun, ?_, h.data_iff, fun _ => rfl, ?_⟩
  · intro o ho
    have ho : e.optimistic = some o := ho
    rw [hslot] at ho
    cases ho
  · intro hpos
    have hpos : 0 < e.mutationActive := hpos
    omega

/-- A local write is newer than everything before, and ends the flight and the rollback. -/
theorem Shape.overwritten (h : e.Shape) (value : V) (now : Instant) :
    (e.overwritten value now).Shape := by
  have he := h.errorSeq
  refine ⟨le_refl _, Nat.le_succ_of_le he, nofun, nofun, ?_, ?_,
    fun _ => Nat.lt_succ_of_le he⟩
  · exact iff_of_true rfl (Nat.succ_pos _)
  · intro hlt
    have hlt : e.seq + 1 < e.errorSeq := hlt
    omega

/-- A mutation that begins takes a seq, so no error is as new as it. -/
theorem Shape.entered (h : e.Shape) : e.entered.Shape := by
  refine ⟨Nat.le_succ_of_le h.dataSeq, Nat.le_succ_of_le h.errorSeq, nofun, ?_, h.data_iff,
    h.error_of, fun _ => Nat.lt_succ_of_le h.errorSeq⟩
  intro o ho
  obtain ⟨h₁, h₂, h₃, h₄⟩ := h.saved o ho
  exact ⟨h₁, Nat.le_succ_of_le h₂, h₃, h₄⟩

/-- An optimistic write saves what it replaces. -/
theorem Shape.optimisticWrite (h : e.Shape) (hi : e.inflight = none) (value : V) :
    (e.optimisticWrite value).Shape := by
  have hd := h.dataSeq
  have he := h.errorSeq
  refine ⟨le_refl _, Nat.le_succ_of_le he, ?_, ?_, ?_, ?_, fun _ => Nat.lt_succ_of_le he⟩
  · intro s hs
    have hs : e.inflight = some s := hs
    rw [hi] at hs
    cases hs
  · intro o ho
    cases ho
    exact ⟨Nat.lt_succ_of_le hd, le_refl _, h.data_iff, h.error_of⟩
  · exact iff_of_true rfl (Nat.succ_pos _)
  · intro hlt
    have hlt : e.seq + 1 < e.errorSeq := hlt
    omega

/-- A mutation begins, with an optimistic value or without one. -/
theorem Shape.begun (h : e.Shape) (optimistic : Option V) : (e.begun optimistic).Shape := by
  cases optimistic with
  | none => exact h.entered
  | some value => exact h.entered.optimisticWrite rfl value

/-- A mutation ends, and others may still be active. -/
theorem Shape.released (h : e.Shape) : e.released.Shape := by
  refine ⟨h.dataSeq, h.errorSeq, ?_, ?_, h.data_iff, h.error_of, ?_⟩
  · intro s hs
    obtain ⟨h₁, h₂, h₃, h₄, h₅, h₆⟩ := h.flying s hs
    refine ⟨h₁, h₂, h₃, ?_, h₅, h₆⟩
    simp only [EntryCore.released, h₄]
  · intro o ho
    obtain ⟨h₁, h₂, h₃, h₄⟩ := h.saved o ho
    exact ⟨h₁, h₂, h₃, h₄⟩
  · intro hpos
    have hpos : 0 < e.mutationActive - 1 := hpos
    exact h.mutating (by omega)

/-- An entry may give up what it saved. -/
theorem Shape.unslotted (h : e.Shape) : ({ e with optimistic := none } : EntryCore V F).Shape := by
  refine ⟨h.dataSeq, h.errorSeq, ?_, nofun, h.data_iff, h.error_of, h.mutating⟩
  intro s hs
  obtain ⟨h₁, h₂, h₃, h₄, h₅, h₆⟩ := h.flying s hs
  exact ⟨h₁, h₂, h₃, h₄, h₅, h₆⟩

/-- A mutation clears the slot only if it owns it. -/
theorem Shape.slotCleared (h : e.Shape) (token : MutationToken) : (e.slotCleared token).Shape := by
  unfold EntryCore.slotCleared
  split_ifs
  · exact h.unslotted
  · exact h

/-- A rollback restores a well-formed entry: this is what the saved slot is invariant for. -/
theorem Shape.restored (h : e.Shape) : e.restored.Shape := by
  unfold EntryCore.restored
  cases ho : e.optimistic with
  | none => exact h
  | some o =>
      obtain ⟨holder, hwritten, hdata, herror⟩ := h.saved o ho
      refine ⟨(holder.trans_le hwritten).le, h.errorSeq, ?_, nofun, hdata, herror, h.mutating⟩
      intro s hs
      obtain ⟨h₁, h₂, h₃, h₄, h₅, h₆⟩ := h.flying s hs
      refine ⟨h₁, ?_, h₃, h₄, h₅, h₆⟩
      rw [h₁]
      exact holder.trans_le hwritten

/-- A mutation that fails restores what it saved, or gives it up. -/
theorem Shape.rolledBack (h : e.Shape) (token : MutationToken) (flag : Bool) :
    (e.rolledBack token flag).Shape := by
  unfold EntryCore.rolledBack
  split_ifs
  · exact h.restored
  · exact h.slotCleared token

/-- The error of a mutation has no seq: it is stored beside everything else. -/
theorem Shape.withError (h : e.Shape) (error : V) :
    ({ e with error := some error } : EntryCore V F).Shape := by
  refine ⟨h.dataSeq, h.errorSeq, ?_, ?_, h.data_iff, fun _ => rfl, h.mutating⟩
  · intro s hs
    obtain ⟨h₁, h₂, h₃, h₄, h₅, h₆⟩ := h.flying s hs
    exact ⟨h₁, h₂, h₃, h₄, h₅, h₆⟩
  · intro o ho
    obtain ⟨h₁, h₂, h₃, h₄⟩ := h.saved o ho
    exact ⟨h₁, h₂, h₃, h₄⟩

/-- A mutation settles, whatever its result. -/
theorem Shape.resolved (h : e.Shape) (token : MutationToken) (result : Except V (Option V))
    (flags : MutateFlags) (now : Instant) : (e.resolved token result flags now).Shape := by
  rcases result with error | _ | value
  · exact (h.withError error).rolledBack token _
  · exact h.slotCleared token
  · unfold EntryCore.resolved
    simp only
    split_ifs
    · exact h.overwritten value now
    · exact h.slotCleared token

/-- An invalidation discards the flight with its seq, or only marks the entry. -/
theorem Shape.dirtied (h : e.Shape) : e.dirtied.Shape := by
  unfold EntryCore.dirtied
  split_ifs with hi
  · refine ⟨Nat.le_succ_of_le h.dataSeq, Nat.le_succ_of_le h.errorSeq, nofun, ?_, h.data_iff,
      h.error_of, fun _ => Nat.lt_succ_of_le h.errorSeq⟩
    intro o ho
    obtain ⟨h₁, h₂, h₃, h₄⟩ := h.saved o ho
    exact ⟨h₁, Nat.le_succ_of_le h₂, h₃, h₄⟩
  · refine ⟨h.dataSeq, h.errorSeq, ?_, ?_, h.data_iff, h.error_of, h.mutating⟩
    · intro s hs
      have hs : e.inflight = some s := hs
      rw [hs] at hi
      exact absurd rfl hi
    · intro o ho
      obtain ⟨h₁, h₂, h₃, h₄⟩ := h.saved o ho
      exact ⟨h₁, h₂, h₃, h₄⟩

end shape

/-- The guards a commit must pass: its own incarnation, no active mutation, its own flight. -/
theorem dropsCommit_eq_false {e : EntryCore V F} {incarnation seq : Nat} :
    e.dropsCommit incarnation seq = false ↔
      e.incarnation = incarnation ∧ e.mutationActive = 0 ∧ e.inflight = some seq := by
  simp [EntryCore.dropsCommit, and_assoc]

/-- Every event keeps the shape of the entry. A failed fetch does so because no rollback slot is
taken while no mutation is active. -/
theorem Shape.apply [Platform] {e : EntryCore V F} (h : e.Shape)
    (hslot : e.mutationActive = 0 → e.optimistic = none) (defaults : QueryOptions) (now : Instant)
    (kev : KeyEvent V F) : (kev.apply defaults now e).Shape := by
  cases kev with
  | read policy fetcher compare opts => exact h.served fetcher compare opts
  | subscribe subId fetcher compare opts =>
      exact (h.served fetcher compare opts).bookkept _ _ _ e.refreshGen e.snapVersion
        e.focusBlockedUntil
  | unsubscribe subId =>
      exact h.bookkept _ _ e.gcGen e.refreshGen e.snapVersion e.focusBlockedUntil
  | revalidateRequested => exact h
  | commitOk incarnation seq value =>
      simp only [KeyEvent.apply]
      split_ifs with hd
      · exact h
      · obtain ⟨-, -, hi⟩ := dropsCommit_eq_false.mp (Bool.eq_false_of_not_eq_true hd)
        exact h.landed hi value now
  | commitErr incarnation seq error =>
      simp only [KeyEvent.apply]
      split_ifs with hd
      · exact h
      · obtain ⟨-, hm, hi⟩ := dropsCommit_eq_false.mp (Bool.eq_false_of_not_eq_true hd)
        exact h.failed hi (hslot hm) error
  | mutateSet value => exact h.overwritten value now
  | mutateBegin optimistic => exact h.begun optimistic
  | mutateCommit token result flags => exact h.released.resolved token result flags now
  | mutateAbort token flags => exact h.released.rolledBack token _
  | invalidate =>
      simp only [KeyEvent.apply]
      split_ifs with hm
      · refine ⟨h.dataSeq, h.errorSeq, ?_, ?_, h.data_iff, h.error_of, h.mutating⟩
        · intro s hs
          have hs : e.inflight = some s := hs
          rw [h.inflight_of_mutating hm] at hs
          cases hs
        · intro o ho
          obtain ⟨f₁, f₂, f₃, f₄⟩ := h.saved o ho
          exact ⟨f₁, f₂, f₃, f₄⟩
      · exact h.dirtied
  | broadcast ev =>
      simp only [KeyEvent.apply, EntryCore.refocused]
      split_ifs
      · exact h.bookkept e.opts e.subscribers e.gcGen e.refreshGen e.snapVersion _
      · exact h
      · exact h
  | timerFired kind generation => exact h

/-- The fetch that an event starts keeps the shape as well. -/
theorem Shape.react [Platform] {e : EntryCore V F} (h : e.Shape)
    (hslot : e.mutationActive = 0 → e.optimistic = none) (defaults : QueryOptions) (now : Instant)
    (kev : KeyEvent V F) : (kev.react defaults now e).Shape := by
  have ha := h.apply hslot defaults now kev
  unfold KeyEvent.react
  split_ifs with hs
  · have hc := (Bool.and_eq_true _ _ ▸ hs : _ ∧ _).2
    exact ha.started hc
  · exact ha

/-- The stages after the handler keep it: they only count. -/
theorem Shape.settled [Platform] {e : EntryCore V F} (h : e.Shape) (now : Instant)
    (m : Marks V F) : (e.settled now m).Shape := by
  obtain ⟨g, r, v, heq⟩ := e.settled_eq now m
  rw [heq]
  exact h.bookkept e.opts e.subscribers g r v e.focusBlockedUntil

/-! ## The seq only grows -/

/-- No handler lowers the seq. -/
theorem seq_le_apply [Platform] (e : EntryCore V F) (defaults : QueryOptions) (now : Instant)
    (kev : KeyEvent V F) : e.seq ≤ (kev.apply defaults now e).seq := by
  refine KeyEvent.apply_frame (P := fun e' => e.seq ≤ e'.seq) ?_ (fun _ => ?_) defaults now
  · cases kev <;> exact le_refl e.seq
  · intro _ _ _ _ _ s _ _ _ _ _ hle _
    exact hle

/-- A fetch that starts raises it. -/
theorem seq_le_react [Platform] (e : EntryCore V F) (defaults : QueryOptions) (now : Instant)
    (kev : KeyEvent V F) :
    (kev.apply defaults now e).seq ≤ (kev.react defaults now e).seq := by
  unfold KeyEvent.react
  split_ifs
  · exact Nat.le_succ _
  · exact le_refl _

/-- The stages after the handler leave it. -/
theorem settled_seq [Platform] (e : EntryCore V F) (now : Instant) (m : Marks V F) :
    (e.settled now m).seq = e.seq :=
  EntryCore.settled_of (f := EntryCore.seq) (fun _ _ _ _ => rfl) e now m

/-! ## Handles and tokens -/

section owned

variable {k : QueryKey} {tokens : List MutationToken} {handles : List (QueryKey × Nat)}
  {e e' : EntryCore V F}

/-- A new entry has neither subscribers nor mutations, if its key has no handles and no tokens. -/
theorem Owned.new (ht : ∀ t ∈ tokens, t.key ≠ k) (hh : ∀ h ∈ handles, h.1 ≠ k)
    (incarnation : Nat) : (EntryCore.new k incarnation : EntryCore V F).Owned k tokens handles := by
  refine ⟨rfl, ?_, ?_, ?_, nofun⟩
  · intro id
    constructor
    · intro hid
      cases hid
    · intro hid
      exact absurd rfl (hh _ hid)
  · refine (List.countP_eq_zero.mpr fun h hmem => ?_).symm
    simpa using hh h hmem
  · refine (List.countP_eq_zero.mpr fun t hmem => ?_).symm
    simpa using ht t hmem

/-- Two states of one entry with the same subscribers and mutations, the later one with no other
rollback slot. -/
structure SameOwner (e e' : EntryCore V F) : Prop where
  subs : e'.opts.subs = e.opts.subs
  subscribers : e'.subscribers = e.subscribers
  mutationActive : e'.mutationActive = e.mutationActive
  slot : ∀ o, e'.optimistic = some o → e.optimistic = some o

/-- An entry has its own subscribers and mutations. -/
theorem SameOwner.refl (e : EntryCore V F) : e.SameOwner e := ⟨rfl, rfl, rfl, fun _ => id⟩

/-- Two steps that keep them keep them together. -/
theorem SameOwner.trans {e'' : EntryCore V F} (h : e.SameOwner e') (h' : e'.SameOwner e'') :
    e.SameOwner e'' :=
  ⟨h'.subs.trans h.subs, h'.subscribers.trans h.subscribers,
    h'.mutationActive.trans h.mutationActive, fun o ho => h.slot o (h'.slot o ho)⟩

/-- So the books still match. -/
theorem Owned.same (h : e.Owned k tokens handles) (hs : e.SameOwner e') :
    e'.Owned k tokens handles := by
  obtain ⟨h₁, h₂, h₃, h₄, h₅⟩ := h
  refine ⟨?_, ?_, ?_, ?_, fun o ho => h₅ o (hs.slot o ho)⟩
  · rw [hs.subscribers, hs.subs, h₁]
  · rw [hs.subs]
    exact h₂
  · rw [hs.subscribers, h₃]
  · rw [hs.mutationActive, h₄]

/-- To give up what was saved touches no subscriber and no mutation, … -/
theorem SameOwner.slotCleared (e : EntryCore V F) (token : MutationToken) :
    e.SameOwner (e.slotCleared token) := by
  unfold EntryCore.slotCleared
  split_ifs
  · exact ⟨rfl, rfl, rfl, nofun⟩
  · exact .refl e

/-- … nor does a rollback, … -/
theorem SameOwner.restored (e : EntryCore V F) : e.SameOwner e.restored := by
  unfold EntryCore.restored
  split
  · exact .refl e
  · exact ⟨rfl, rfl, rfl, nofun⟩

/-- … whichever of the two a failure makes, … -/
theorem SameOwner.rolledBack (e : EntryCore V F) (token : MutationToken) (flag : Bool) :
    e.SameOwner (e.rolledBack token flag) := by
  unfold EntryCore.rolledBack
  split_ifs
  · exact .restored e
  · exact .slotCleared e token

/-- … and whatever a mutation settles with. -/
theorem SameOwner.resolved (e : EntryCore V F) (token : MutationToken)
    (result : Except V (Option V)) (flags : MutateFlags) (now : Instant) :
    e.SameOwner (e.resolved token result flags now) := by
  rcases result with error | _ | value
  · have herror : e.SameOwner { e with error := some error } := ⟨rfl, rfl, rfl, fun _ => id⟩
    exact herror.trans (.rolledBack _ token _)
  · exact .slotCleared e token
  · unfold EntryCore.resolved
    simp only
    split_ifs
    · exact ⟨rfl, rfl, rfl, nofun⟩
    · exact .slotCleared e token

/-- The stages after the handler only advance counters. -/
theorem SameOwner.settled [Platform] (e : EntryCore V F) (now : Instant) (m : Marks V F) :
    e.SameOwner (e.settled now m) := by
  obtain ⟨g, r, v, heq⟩ := e.settled_eq now m
  rw [heq]
  exact ⟨rfl, rfl, rfl, fun _ => id⟩

/-- Handles and tokens of other keys do not matter. -/
theorem Owned.others (h : e.Owned k tokens handles) {tokens' : List MutationToken}
    {handles' : List (QueryKey × Nat)}
    (ht : tokens'.countP (fun t => decide (t.key = k)) =
      tokens.countP fun t => decide (t.key = k))
    (hmem : ∀ t ∈ tokens, t.key = k → t ∈ tokens')
    (hh : handles'.countP (fun h => decide (h.1 = k)) =
      handles.countP fun h => decide (h.1 = k))
    (hmem' : ∀ id, (k, id) ∈ handles' ↔ (k, id) ∈ handles) : e.Owned k tokens' handles' :=
  ⟨h.records, fun id => (h.subs_mem id).trans (hmem' id).symm, by rw [hh, h.subscribers],
    by rw [ht, h.mutations], fun o ho => hmem _ (h.owner o ho) rfl⟩

/-- A subscriber that joins has a handle that is new. -/
theorem Owned.joined (h : e.Owned k tokens handles) {subId : Nat} (hfresh : (k, subId) ∉ handles)
    (opts : QueryOptions) : (e.joined subId opts).Owned k tokens (handles ++ [(k, subId)]) := by
  have hnew : subId ∉ e.opts.subs := fun hmem => hfresh ((h.subs_mem subId).mp hmem)
  refine ⟨?_, ?_, ?_, h.mutations, h.owner⟩
  · simp only [EntryCore.joined]
    rw [AList.entries_insert_of_notMem hnew, List.length_cons, h.records]
  · intro id
    simp only [EntryCore.joined]
    rw [AList.mem_insert, h.subs_mem id, List.mem_append, List.mem_singleton, Prod.mk.injEq,
      or_comm]
    simp
  · simp only [EntryCore.joined]
    rw [List.countP_append, h.subscribers]
    simp

/-- One that leaves gives its handle back. -/
theorem Owned.left (h : e.Owned k tokens handles) (hnd : handles.Nodup) {subId : Nat}
    (hmem : (k, subId) ∈ handles) :
    (e.left subId).Owned k tokens (handles.erase (k, subId)) := by
  have hin : subId ∈ e.opts.subs := (h.subs_mem subId).mpr hmem
  refine ⟨?_, ?_, ?_, h.mutations, h.owner⟩
  · simp only [EntryCore.left]
    have hlen : ∀ a : AList fun _ : Nat => QueryOptions, a.keys.length = a.entries.length :=
      fun a => List.length_map _
    rw [← hlen, AList.keys_erase, List.length_erase_of_mem (AList.mem_keys.mp hin), hlen,
      h.records]
  · intro id
    simp only [EntryCore.left]
    rw [AList.mem_erase, hnd.mem_erase_iff, h.subs_mem id]
    simp
  · simp only [EntryCore.left]
    rw [h.subscribers, List.countP_erase]
    simp [hmem]

/-- A mutation that begins gets a token, which names the seq of its optimistic write if it made one. -/
theorem Owned.begun (h : e.Owned k tokens handles) (optimistic : Option V) :
    (e.begun optimistic).Owned k (tokens ++ [⟨k, optimistic.map fun _ => e.seq + 2⟩])
      handles := by
  have hm := h.mutations
  cases optimistic with
  | none =>
      refine ⟨h.records, h.subs_mem, h.subscribers, ?_, fun o ho => ?_⟩
      · simp [EntryCore.begun, EntryCore.entered, hm]
      · exact List.mem_append_left _ (h.owner o ho)
  | some value =>
      refine ⟨h.records, h.subs_mem, h.subscribers, ?_, fun o ho => ?_⟩
      · simp [EntryCore.begun, EntryCore.entered, EntryCore.optimisticWrite, hm]
      · cases ho
        exact List.mem_append_right _ (List.mem_singleton.mpr rfl)

/-- The mutation of a settled token leaves no rollback slot of its own. -/
theorem slot_of_slotCleared (e : EntryCore V F) (token : MutationToken)
    {o : OptimisticSnapshot V} (ho : (e.slotCleared token).optimistic = some o) :
    some o.writtenSeq ≠ token.writtenSeq := by
  unfold EntryCore.slotCleared at ho
  split_ifs at ho with hown
  unfold EntryCore.ownsSlot at hown
  simpa [ho] using hown

/-- The same after a rollback. -/
theorem slot_of_rolledBack (e : EntryCore V F) (token : MutationToken) (flag : Bool)
    {o : OptimisticSnapshot V} (ho : (e.rolledBack token flag).optimistic = some o) :
    some o.writtenSeq ≠ token.writtenSeq := by
  unfold EntryCore.rolledBack at ho
  split_ifs at ho
  · unfold EntryCore.restored at ho
    cases hs : e.optimistic with
    | none =>
        simp only [hs] at ho
        cases ho
    | some o' =>
        simp only [hs] at ho
        cases ho
  · exact slot_of_slotCleared e token ho

/-- The same after a settlement. -/
theorem slot_of_resolved (e : EntryCore V F) (token : MutationToken)
    (result : Except V (Option V)) (flags : MutateFlags) (now : Instant)
    {o : OptimisticSnapshot V} (ho : (e.resolved token result flags now).optimistic = some o) :
    some o.writtenSeq ≠ token.writtenSeq := by
  rcases result with error | _ | value
  · exact slot_of_rolledBack _ token _ ho
  · exact slot_of_slotCleared e token ho
  · unfold EntryCore.resolved at ho
    simp only at ho
    split_ifs at ho
    · cases ho
    · exact slot_of_slotCleared e token ho

/-- A mutation that ends gives its token back, and leaves no slot that the token would own. -/
theorem Owned.released (h : e.Owned k tokens handles) {token : MutationToken}
    (hkey : token.key = k) (hmem : token ∈ tokens) (hs : e.released.SameOwner e')
    (hslot : ∀ o, e'.optimistic = some o → some o.writtenSeq ≠ token.writtenSeq) :
    e'.Owned k (tokens.erase token) handles := by
  refine ⟨?_, ?_, ?_, ?_, fun o ho => ?_⟩
  · rw [hs.subscribers, hs.subs]
    exact h.records
  · rw [hs.subs]
    exact h.subs_mem
  · rw [hs.subscribers]
    exact h.subscribers
  · rw [hs.mutationActive, List.countP_erase]
    simp [EntryCore.released, h.mutations, hmem, hkey]
  · refine (List.mem_erase_of_ne ?_).mpr (h.owner o (hs.slot o ho))
    rintro rfl
    exact hslot o ho rfl

end owned

end EntryCore

/-- Whether the event takes or returns a handle or a token. -/
def KeyEvent.accounts : KeyEvent V F → Bool
  | .subscribe _ _ _ _ => true
  | .unsubscribe _ => true
  | .mutateBegin _ => true
  | .mutateCommit _ _ _ => true
  | .mutateAbort _ _ => true
  | _ => false

namespace EntryCore

/-- An event that touches no books keeps the subscribers and the mutations. -/
theorem SameOwner.apply [Platform] (e : EntryCore V F) (defaults : QueryOptions) (now : Instant)
    {kev : KeyEvent V F} (hk : kev.accounts = false) : e.SameOwner (kev.apply defaults now e) := by
  cases kev with
  | read policy fetcher compare opts => exact ⟨rfl, rfl, rfl, fun _ => id⟩
  | revalidateRequested => exact .refl e
  | commitOk incarnation seq value =>
      simp only [KeyEvent.apply]
      split_ifs
      · exact .refl e
      · refine ⟨rfl, rfl, rfl, fun n hn => ?_⟩
        cases hn
  | commitErr incarnation seq error =>
      simp only [KeyEvent.apply]
      split_ifs
      · exact .refl e
      · exact ⟨rfl, rfl, rfl, fun _ => id⟩
  | mutateSet value =>
      refine ⟨rfl, rfl, rfl, fun n hn => ?_⟩
      cases hn
  | invalidate =>
      simp only [KeyEvent.apply, EntryCore.dirtied]
      split_ifs <;> exact ⟨rfl, rfl, rfl, fun _ => id⟩
  | broadcast ev =>
      simp only [KeyEvent.apply, EntryCore.refocused]
      split_ifs <;> exact ⟨rfl, rfl, rfl, fun _ => id⟩
  | timerFired kind generation => exact .refl e
  | _ => cases hk

/-- So does the fetch that it starts. -/
theorem SameOwner.react [Platform] (e : EntryCore V F) (defaults : QueryOptions) (now : Instant)
    (kev : KeyEvent V F) : (kev.apply defaults now e).SameOwner (kev.react defaults now e) := by
  unfold KeyEvent.react
  split_ifs
  · exact ⟨rfl, rfl, rfl, fun _ => id⟩
  · exact .refl _

end EntryCore

end SwrCore
