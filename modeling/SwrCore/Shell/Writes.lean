import SwrCore.Cell.Content
import SwrCore.Shell.Flight

/-!
# Where the data of an entry comes from

Four events write data: an applied commit, a set, a populating mutation, and the optimistic write of a
mutation. A rollback writes data, seq and time back from the slot.

* `Write`, `KeyEvent.write?` — a write with the seq it consumed, its value and its time.
* `EntryCore.Dated` — the slot saved the time the entry still has; `EntryCore.dated_react`.
* `Shell.Writes` — the write of a step into one incarnation of a key.
* `Shell.Stands` — a value belongs to a seq: the write that consumed the seq wrote it, or a commit with
  an equal value kept it.
* `Shell.Accounts` — data, seq and time as the log accounts for them.
* `Shell.data_provenance` — every entry and every published snapshot is accounted for.
-/

set_option linter.unusedSectionVars false

namespace SwrCore

variable {V F : Type}

/-! ## The writes of one entry -/

/-- A write of data: the seq it consumed, its value, its time, and whether it is authoritative (an
optimistic write is not). -/
structure Write (V : Type) where
  seq : Nat
  value : V
  time : Instant
  authoritative : Bool

/-- The write that an event makes into the entry it acts on. -/
def KeyEvent.write? (now : Instant) (e : EntryCore V F) : KeyEvent V F → Option (Write V)
  | .commitOk incarnation seq value =>
    if e.dropsCommit incarnation seq then none else some ⟨seq, value, now, true⟩
  | .mutateSet value => some ⟨e.seq + 1, value, now, true⟩
  | .mutateBegin (some value) => some ⟨e.seq + 2, value, now, false⟩
  | .mutateCommit _ (.ok (some value)) flags =>
    if flags.populate then some ⟨e.seq + 1, value, now, true⟩ else none
  | _ => none

/-- The time of an entry after a write. -/
def Write.date (updatedAt : Option Instant) : Option (Write V) → Option Instant
  | some w => if w.authoritative then some w.time else updatedAt
  | none => updatedAt

section cell

variable [Platform] {defaults : QueryOptions} {now : Instant} {e : EntryCore V F}
  {kev : KeyEvent V F}

/-- What an event makes of the data: it leaves data and seq, or writes; a commit may keep the data. -/
theorem KeyEvent.Makes.stamped {x : Content V} (hmade : kev.Makes e x) (now : Instant) :
    (x.data = e.data ∧ x.dataSeq = e.dataSeq) ∨
      ∃ w, kev.write? now e = some w ∧ x.dataSeq = w.seq ∧
        (x.data = some w.value ∨ x.data = e.data ∧ e.unchanged w.value = true ∧
          ∃ incarnation, kev = .commitOk incarnation w.seq w.value) := by
  cases hmade with
  | @landed incarnation seq value hd =>
      refine .inr ⟨⟨seq, value, now, true⟩, by simp [KeyEvent.write?, hd], rfl, ?_⟩
      by_cases hu : e.unchanged value = true
      · exact .inr ⟨if_pos hu, hu, incarnation, rfl⟩
      · exact .inl (if_neg hu)
  | failed hd => exact .inl ⟨rfl, rfl⟩
  | set => exact .inr ⟨_, rfl, rfl, .inl rfl⟩
  | optimistic => exact .inr ⟨_, rfl, rfl, .inl rfl⟩
  | populated hp => exact .inr ⟨_, if_pos hp, rfl, .inl rfl⟩
  | rejected hr => exact .inl ⟨rfl, rfl⟩

/-- The seq that a write consumed dates the data after it. -/
theorem KeyEvent.dataSeq_of_write {w : Write V} (h : kev.write? now e = some w) :
    (kev.react defaults now e).dataSeq = w.seq := by
  have hreact : (kev.react defaults now e).dataSeq = (kev.apply defaults now e).dataSeq := by
    unfold KeyEvent.react
    split_ifs <;> rfl
  rw [hreact]
  unfold KeyEvent.write? at h
  split at h
  · split_ifs at h with hd
    cases h
    simp only [KeyEvent.apply, hd]
    rfl
  · cases h
    rfl
  · cases h
    rfl
  · split_ifs at h with hp
    cases h
    simp only [KeyEvent.apply, EntryCore.resolved, hp, if_true]
    rfl
  · cases h

/-- A write is past everything that was written before it. -/
theorem KeyEvent.write_above (hshape : e.Shape) {w : Write V} (h : kev.write? now e = some w)
    {n : Nat} (hle : n ≤ e.seq) (hfly : e.inflight.isSome → n < e.seq) : n < w.seq := by
  unfold KeyEvent.write? at h
  split at h
  · split_ifs at h with hd
    cases h
    -- The flight that lands is the latest attempt.
    have hi := (EntryCore.dropsCommit_eq_false.mp (Bool.eq_false_of_not_eq_true hd)).2.2
    rw [(hshape.flying _ hi).seq]
    exact hfly (by rw [hi]; rfl)
  · cases h
    exact Nat.lt_succ_of_le hle
  · cases h
    exact Nat.lt_add_right 1 (Nat.lt_succ_of_le hle)
  · split_ifs at h
    cases h
    exact Nat.lt_succ_of_le hle
  · cases h

/-- The rollback slot saved the time that the entry still has. -/
def EntryCore.Dated (e : EntryCore V F) : Prop :=
  ∀ o, e.optimistic = some o → o.prevUpdatedAt = e.updatedAt

theorem EntryCore.Dated.slotCleared (h : e.Dated) (token : MutationToken) :
    (e.slotCleared token).Dated ∧ (e.slotCleared token).updatedAt = e.updatedAt := by
  unfold EntryCore.slotCleared
  split_ifs
  · exact ⟨nofun, rfl⟩
  · exact ⟨h, rfl⟩

/-- A rollback restores the time that the entry has. -/
theorem EntryCore.Dated.rolledBack (h : e.Dated) (token : MutationToken) (flag : Bool) :
    (e.rolledBack token flag).Dated ∧ (e.rolledBack token flag).updatedAt = e.updatedAt := by
  unfold EntryCore.rolledBack EntryCore.restored
  split_ifs
  · cases ho : e.optimistic with
    | none => exact ⟨h, rfl⟩
    | some o => exact ⟨nofun, h o ho⟩
  · exact h.slotCleared token

/-- **The time of an entry.** Authoritative writes set it, and nothing else moves it. -/
theorem EntryCore.Dated.react (h : e.Dated) (defaults : QueryOptions) (now : Instant)
    (kev : KeyEvent V F) : (kev.react defaults now e).Dated ∧
      (kev.react defaults now e).updatedAt = Write.date e.updatedAt (kev.write? now e) := by
  have happly : (kev.apply defaults now e).Dated ∧
      (kev.apply defaults now e).updatedAt = Write.date e.updatedAt (kev.write? now e) := by
    cases kev with
    | commitOk incarnation seq value =>
        simp only [KeyEvent.apply, KeyEvent.write?]
        split_ifs
        · exact ⟨h, rfl⟩
        · refine ⟨fun o ho => ?_, rfl⟩
          cases ho
    | commitErr incarnation seq error =>
        simp only [KeyEvent.apply]
        split_ifs <;> exact ⟨h, rfl⟩
    | mutateSet value =>
        refine ⟨fun o ho => ?_, rfl⟩
        cases ho
    | mutateBegin optimistic =>
        cases optimistic with
        | none => exact ⟨h, rfl⟩
        | some value =>
            refine ⟨fun o ho => ?_, rfl⟩
            obtain rfl := Option.some.inj ho
            rfl
    | mutateCommit token result flags =>
        have hrel : e.released.Dated := h
        rcases result with error | _ | value
        · exact EntryCore.Dated.rolledBack (e := { e.released with error := some error }) hrel
            token flags.rollbackOnError
        · exact hrel.slotCleared token
        · simp only [KeyEvent.apply, EntryCore.resolved, KeyEvent.write?]
          split_ifs
          · refine ⟨fun o ho => ?_, rfl⟩
            cases ho
          · exact hrel.slotCleared token
    | mutateAbort token flags =>
        have hrel : e.released.Dated := h
        exact hrel.rolledBack token flags.rollbackOnError
    | invalidate =>
        simp only [KeyEvent.apply, EntryCore.dirtied]
        split_ifs <;> exact ⟨h, rfl⟩
    | broadcast ev =>
        simp only [KeyEvent.apply, EntryCore.refocused]
        split_ifs <;> exact ⟨h, rfl⟩
    | _ => exact ⟨h, rfl⟩
  unfold KeyEvent.react
  split_ifs
  · exact happly
  · exact happly

end cell

/-! ## The writes of a run -/

namespace Shell

/-- The step makes this write into this incarnation of the key. -/
def Writes (k : QueryKey) (incarnation : Nat) (r : Trace.Record (Shell V F) (Call V F))
    (w : Write V) : Prop :=
  ∃ kev e, r.pre.inner.At r.label.event k kev e ∧ e.incarnation = incarnation ∧
    kev.write? r.label.now e = some w

/-- The value belongs to the seq: the write that consumed the seq wrote it; or a commit that consumed the
seq brought a value which the comparator took for equal to it, while it was the data of the entry. -/
inductive Stands (k : QueryKey) (incarnation : Nat)
    (log : List (Trace.Record (Shell V F) (Call V F))) : V → Nat → Prop
  | own {r w} : r ∈ log → Writes k incarnation r w → Stands k incarnation log w.value w.seq
  | kept {r w e compare old} : r ∈ log → Writes k incarnation r w →
      r.label.event = .commitOk k incarnation w.seq w.value → r.pre.inner.entry k = some e →
      e.compare = some compare → e.data = some old → compare old w.value = true →
      Stands k incarnation log old e.dataSeq → Stands k incarnation log old w.seq

/-- The step makes an authoritative write into this incarnation of the key. -/
def Authorizes (k : QueryKey) (incarnation : Nat) (r : Trace.Record (Shell V F) (Call V F)) : Prop :=
  ∃ w, Writes k incarnation r w ∧ w.authoritative = true

/-- The time of the latest authoritative write into this incarnation of the key. -/
def DatedBy (k : QueryKey) (incarnation : Nat) (log : List (Trace.Record (Shell V F) (Call V F))) :
    Option Instant → Prop
  | none => ∀ r ∈ log, ¬ Authorizes k incarnation r
  | some t => ∃ q w, Trace.Last (Authorizes k incarnation) q log ∧ Writes k incarnation q w ∧
      w.authoritative = true ∧ t = w.time

/-- The log accounts for data, seq and time of this incarnation of the key. -/
structure Accounts (k : QueryKey) (incarnation : Nat)
    (log : List (Trace.Record (Shell V F) (Call V F))) (data : Option V) (dataSeq : Nat)
    (updatedAt : Option Instant) : Prop where
  stands : 0 < dataSeq → ∃ v, data = some v ∧ Stands k incarnation log v dataSeq
  dated : DatedBy k incarnation log updatedAt

section log

variable [Platform] {k : QueryKey} {incarnation : Nat} {log : List (Trace.Record (Shell V F) (Call V F))}
  {r : Trace.Record (Shell V F) (Call V F)}

/-- A step writes one value at most. -/
theorem Writes.unique {w w' : Write V} (h : Writes k incarnation r w)
    (h' : Writes k incarnation r w') : w = w' := by
  obtain ⟨kev, e, hat, -, hw⟩ := h
  obtain ⟨kev', e', hat', -, hw'⟩ := h'
  obtain ⟨rfl, rfl⟩ := hat.unique hat'
  exact Option.some.inj (hw.symm.trans hw')

/-- What stands on a log stands on a longer one. -/
theorem Stands.mono {log' : List (Trace.Record (Shell V F) (Call V F))} {v : V} {n : Nat}
    (h : Stands k incarnation log v n) (hsub : log ⊆ log') : Stands k incarnation log' v n := by
  induction h with
  | own hr hw => exact .own (hsub hr) hw
  | kept hr hw hev he hc hd heq _ ih => exact .kept (hsub hr) hw hev he hc hd heq ih

theorem DatedBy.snoc {t : Option Instant} (h : DatedBy k incarnation log t) :
    (∀ w, Writes k incarnation r w → DatedBy k incarnation (log ++ [r]) (Write.date t (some w))) ∧
      ((∀ w, ¬ Writes k incarnation r w) → DatedBy k incarnation (log ++ [r]) t) := by
  have hkeep : ¬ Authorizes k incarnation r → DatedBy k incarnation (log ++ [r]) t := by
    intro hr
    cases t with
    | none =>
        intro x hx
        rcases List.mem_append.mp hx with hx | hx
        · exact h x hx
        · rw [List.mem_singleton.mp hx]
          exact hr
    | some t =>
        obtain ⟨q, w, hq, hw⟩ := h
        exact ⟨q, w, hq.extend hr, hw⟩
  constructor
  · intro w hw
    show DatedBy k incarnation (log ++ [r]) (if w.authoritative then some w.time else t)
    by_cases ha : w.authoritative = true
    · rw [if_pos ha]
      exact ⟨r, w, Trace.Last.snoc log ⟨w, hw, ha⟩, hw, ha, rfl⟩
    · rw [if_neg ha]
      refine hkeep ?_
      rintro ⟨w', hw', ha'⟩
      rw [hw.unique hw'] at ha
      exact ha ha'
  · rintro hno
    refine hkeep ?_
    rintro ⟨w, hw, -⟩
    exact hno w hw

end log

/-- **The invariant.** What the entries of a state store is accounted for by the log, and they are past
every write into them. -/
structure Tally (log : List (Trace.Record (Shell V F) (Call V F))) (s : Shell V F) : Prop where
  entry : ∀ k e, s.inner.entry k = some e → e.Dated ∧ DatedBy k e.incarnation log e.updatedAt ∧
    ∀ x, e.Holds x → ∀ v, x.data = some v → Stands k e.incarnation log v x.dataSeq
  past : ∀ k incarnation, ∀ r ∈ log, ∀ w, Writes k incarnation r w →
    incarnation < s.inner.nextIncarnation ∧ ∀ e, s.inner.entry k = some e →
      e.incarnation = incarnation → w.seq ≤ e.seq ∧ (e.inflight.isSome → w.seq < e.seq)

section step

variable [Platform] {log : List (Trace.Record (Shell V F) (Call V F))} {s s' : Shell V F}
  {c : Call V F} (h : Tally log s) (hi : s.Inv)

include h hi

/-- What the invariant says about the entry an event acts on: a created one holds nothing, and nothing
was written into it. -/
theorem Tally.subject {k : QueryKey} {kev : KeyEvent V F} {e : EntryCore V F}
    (hsub : s.inner.subject k kev = some e) :
    (e.Dated ∧ DatedBy k e.incarnation log e.updatedAt ∧
      ∀ x, e.Holds x → ∀ v, x.data = some v → Stands k e.incarnation log v x.dataSeq) ∧
    ∀ r ∈ log, ∀ w, Writes k e.incarnation r w →
      w.seq ≤ e.seq ∧ (e.inflight.isSome → w.seq < e.seq) := by
  rcases (hi.subject hsub).2.2.2 with he | ⟨-, rfl, -⟩
  · exact ⟨h.entry k e he, fun r hr w hw => (h.past k _ r hr w hw).2 e he rfl⟩
  · have hno : ∀ r ∈ log, ∀ w, ¬ Writes k s.inner.nextIncarnation r w :=
      fun r hr w hw => lt_irrefl _ (h.past k _ r hr w hw).1
    refine ⟨⟨nofun, ?_, fun x hx v hv => ?_⟩, fun r hr w hw => absurd hw (hno r hr w)⟩
    · rintro r hr ⟨w, hw, -⟩
      exact hno r hr w hw
    · rw [EntryCore.holds_new k s.inner.nextIncarnation hx] at hv
      cases hv

/-- What an entry holds after an event is accounted for. -/
theorem Tally.holds {k : QueryKey} {kev : KeyEvent V F} {e : EntryCore V F}
    (hat : s.inner.At c.event k kev e) {x : Content V} (hx : (s.inner.after c.now k kev e).Holds x)
    {v : V} (hv : x.data = some v) :
    Stands k e.incarnation (log ++ [⟨s, c, s'⟩]) v x.dataSeq := by
  have hsub : log ⊆ log ++ [⟨s, c, s'⟩] := List.subset_append_left _ _
  have hholds := (h.subject hi hat.subject).1.2.2
  have hlast : ∀ w, kev.write? c.now e = some w → Writes k e.incarnation ⟨s, c, s'⟩ w :=
    fun w hw => ⟨kev, e, hat, rfl, hw⟩
  rcases EntryCore.holds_react (hi.subject hat.subject).2.2.1 (EntryCore.holds_settled hx) with
    hold | hmade
  · exact (hholds x hold v hv).mono hsub
  · rcases hmade.stamped c.now with ⟨hd, hn⟩ | ⟨w, hw, hn, hd | ⟨hd, hu, incarnation, rfl⟩⟩
    · rw [hn]
      exact (hholds e.content (.inl rfl) v (hd.symm.trans hv)).mono hsub
    · rw [hn]
      rw [hd, Option.some.injEq] at hv
      rw [← hv]
      exact .own (by simp) (hlast w hw)
    · -- The comparator kept the data.
      rw [hn]
      have hdata : e.data = some v := hd.symm.trans hv
      obtain ⟨compare, hc, heq⟩ := (Option.any_eq_true _ _).mp hu
      rw [hdata, Option.any_some] at heq
      have hev : c.event = .commitOk k e.incarnation w.seq w.value := by
        have hdrop : e.dropsCommit incarnation w.seq = false := by
          by_contra hdrop
          simp [KeyEvent.write?, Bool.eq_true_of_not_eq_false hdrop] at hw
        rw [(EntryCore.dropsCommit_eq_false.mp hdrop).1]
        have hon := hat.on
        generalize c.event = ev at hon
        cases Event.on_inv hon with
        | commitOk => rfl
      exact .kept (by simp) (hlast w hw) hev hat.subject hc hdata heq
        ((hholds e.content (.inl rfl) v hdata).mono hsub)

/-- **A step** keeps the tally. -/
theorem Tally.step (hs : Step s c s') : Tally (log ++ [⟨s, c, s'⟩]) s' := by
  have hh := hi.handled hs
  have hsub : log ⊆ log ++ [⟨s, c, s'⟩] := List.subset_append_left _ _
  constructor
  case entry =>
    intro k e' he'
    rcases hh.inversion he' with ⟨hoff, he⟩ | ⟨kev, e, hat, rfl⟩
    · obtain ⟨hdated, hby, hholds⟩ := h.entry k e' he
      refine ⟨hdated, hby.snoc.2 ?_, fun x hx v hv => (hholds x hx v hv).mono hsub⟩
      rintro w ⟨kev, e, hat, -⟩
      exact hat.not_off hoff
    · obtain ⟨⟨hdated, hby, -⟩, -⟩ := h.subject hi hat.subject
      obtain ⟨hdated', htime⟩ := hdated.react s.inner.defaults c.now kev
      rw [(Inner.after_frame k kev e).2, Inner.after_of (f := EntryCore.Dated) fun _ _ _ _ => rfl,
        Inner.after_of (f := EntryCore.updatedAt) fun _ _ _ _ => rfl, htime]
      refine ⟨hdated', ?_, fun x hx v hv => h.holds hi hat hx hv⟩
      cases hw : kev.write? c.now e with
      | some w => exact hby.snoc.1 w ⟨kev, e, hat, rfl, hw⟩
      | none =>
          refine hby.snoc.2 ?_
          rintro w ⟨kev', e', hat', -, hw'⟩
          obtain ⟨rfl, rfl⟩ := hat.unique hat'
          rw [hw] at hw'
          cases hw'
  case past =>
    intro k incarnation r hr w hw
    rcases List.mem_append.mp hr with hr | hr
    · obtain ⟨hlt, hpast⟩ := h.past k incarnation r hr w hw
      have hnext := hh.nextIncarnation
      refine ⟨by omega, fun e' he' hinc => ?_⟩
      rcases hh.inversion he' with ⟨-, he⟩ | ⟨kev, e, hat, rfl⟩
      · exact hpast e' he hinc
      · rw [(Inner.after_frame k kev e).2] at hinc
        subst hinc
        obtain ⟨hle, hfly⟩ := (h.subject hi hat.subject).2 r hr w hw
        exact hi.behind_after hs hat hle hfly
    · obtain rfl := List.mem_singleton.mp hr
      obtain ⟨kev, e, hat, rfl, hw⟩ := hw
      obtain ⟨hshape, -, -, -, hlt⟩ := hi.after hs hat
      refine ⟨hlt, fun e' he' _ => ?_⟩
      rw [hat.entry hh, Option.some.injEq] at he'
      have hseq : (s.inner.after c.now k kev e).dataSeq = w.seq := by
        rw [Inner.after_of (f := EntryCore.dataSeq) fun _ _ _ _ => rfl]
        exact KeyEvent.dataSeq_of_write hw
      rw [← he', ← hseq]
      refine ⟨hshape.dataSeq, fun hfly => ?_⟩
      obtain ⟨n, hn⟩ := Option.isSome_iff_exists.mp hfly
      have hflying := hshape.flying n hn
      rw [← hflying.seq]
      exact hflying.dataSeq

end step

section run

variable [Platform] {defaults : QueryOptions} {log : List (Trace.Record (Shell V F) (Call V F))}
  {s : Shell V F}

/-- So does every run. -/
theorem tally_of_run (h : Run defaults log s) : Tally log s := by
  refine h.history (P := Tally) ⟨fun k e he => ?_, fun k i r hr => absurd hr List.not_mem_nil⟩
    fun log s c s' hrun ht hs => ht.step (inv_of_run hrun) hs
  rw [init_entry] at he
  cases he

/-- Every entry is accounted for. -/
theorem accounts_of_run (h : Run defaults log s) {k : QueryKey} {e : EntryCore V F}
    (he : s.inner.entry k = some e) :
    Accounts k e.incarnation log e.data e.dataSeq e.updatedAt := by
  obtain ⟨-, hdated, hholds⟩ := (tally_of_run h).entry k e he
  refine ⟨fun hpos => ?_, hdated⟩
  obtain ⟨v, hv⟩ := Option.isSome_iff_exists.mp (((inv_of_run h).shape k e he).data_iff.mpr hpos)
  exact ⟨v, hv, hholds e.content (.inl rfl) v hv⟩

/-- **Data provenance.** In every shell-produced run, each write into an incarnation of a key consumes a
seq past those of all writes before it. In every state the data of an entry belongs to its `data_seq`:
the write that consumed this seq wrote it, or it was kept through a chain of commits whose values the
comparator took for equal; its `updated_at` is the time of the latest authoritative write into this
incarnation, or `None`. The same holds of every published snapshot. -/
theorem data_provenance (h : Run defaults log s) :
    (∀ xs q ys r zs, log = xs ++ q :: (ys ++ r :: zs) → ∀ k incarnation w w',
      Writes k incarnation q w → Writes k incarnation r w' → w.seq < w'.seq) ∧
    (∀ k e, s.inner.entry k = some e →
      Accounts k e.incarnation log e.data e.dataSeq e.updatedAt) ∧
    ∀ xs r ys, log = xs ++ r :: ys → ∀ tx snapshot, .notify tx snapshot ∈ r.label.out.effects →
      Accounts tx.key tx.incarnation (xs ++ [r]) snapshot.data snapshot.dataSeq
        snapshot.updatedAt := by
  refine ⟨?_, fun k e he => accounts_of_run h he, ?_⟩
  · rintro xs q ys r zs rfl k incarnation w w' hw ⟨kev, e, hat, rfl, hw'⟩
    rw [← List.cons_append, ← List.append_assoc] at h
    obtain ⟨hpre, -, -⟩ := h.middle
    obtain ⟨hle, hfly⟩ := ((tally_of_run hpre).subject (inv_of_run hpre) hat.subject).2 q (by simp)
      w hw
    exact KeyEvent.write_above ((inv_of_run hpre).subject hat.subject).1 hw' hle hfly
  · rintro xs r ys rfl tx snapshot hx
    obtain ⟨hpre, hs, -⟩ := h.middle
    have hh := (inv_of_run hpre).handled hs
    obtain ⟨kev, e, hat, -, htx, rfl⟩ := hh.notify hx
    have hinc : (r.pre.inner.after r.label.now tx.key kev e).incarnation = tx.incarnation := by
      rw [(Inner.after_frame _ kev e).2, htx, (inv_of_run hpre).subject_tx hat.subject]
    have hacc := accounts_of_run (hpre.snoc hs) (hat.entry hh)
    rwa [hinc] at hacc

end run

section witness

attribute [local instance] exampleClock

/-- The data of the second fetch belongs to its seq. -/
theorem data_provenance_example : ∃ (log : List (Trace.Record (Shell Nat Unit) (Call Nat Unit)))
    (s : Shell Nat Unit) (e : EntryCore Nat Unit), Run .default log s ∧
      s.inner.entry ⟨0, []⟩ = some e ∧ e.dataSeq = 4 ∧
        ∃ v, e.data = some v ∧ Stands ⟨0, []⟩ 0 log v 4 := by
  let key : QueryKey := ⟨0, []⟩
  have hobs : ((init .default : Shell Nat Unit).exec exampleRun).map (fun r =>
      (r.2.inner.entry key).map fun e => (e.incarnation, e.dataSeq)) = some (some (0, 4)) := by
    decide +kernel
  obtain ⟨⟨log, s⟩, hex, hobs⟩ := Option.map_eq_some_iff.mp hobs
  obtain ⟨e, he, hseq⟩ := Option.map_eq_some_iff.mp hobs
  rw [Prod.mk.injEq] at hseq
  have hrun : Run .default log s := run_of_exec hex
  have hacc := ((data_provenance hrun).2.1 key e he).stands (by rw [hseq.2]; decide)
  rw [hseq.1, hseq.2] at hacc
  exact ⟨log, s, e, hrun, he, hseq.2, hacc⟩

end witness

end Shell

end SwrCore
