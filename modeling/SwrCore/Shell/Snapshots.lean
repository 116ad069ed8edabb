import SwrCore.Model.Client
import SwrCore.Shell.Invariant

/-!
# Published snapshots, and the read side of `fetch()`

* `Snapshot.Sound` — data is present exactly when `data_seq` is positive, and an error whenever
  `error_seq` is ahead.
* `look_of_sound` — on a sound snapshot neither `expect` of the wait loop fails.
* `Shell.Inv.notify_sound`, `Shell.Inv.read_outcome` — what one step publishes and returns.
* `Shell.Inv.read_wait` — what a `Read` that is answered by a target leaves behind.
* `Shell.read_side_total` — over every run, a read can neither panic nor come back empty.
-/

set_option linter.unusedSectionVars false

namespace SwrCore

variable {V F : Type}

/-! ## Sound snapshots -/

/-- Data is present exactly when `data_seq` is positive; an error is present whenever `error_seq`
is ahead of `data_seq`. -/
structure Snapshot.Sound (sn : Snapshot V) : Prop where
  data_iff : sn.data.isSome ↔ 0 < sn.dataSeq
  error_of : sn.dataSeq < sn.errorSeq → sn.error.isSome

/-- The empty snapshot shows nothing. -/
theorem Snapshot.sound_empty : (Snapshot.empty : Snapshot V).Sound :=
  ⟨by simp [Snapshot.empty], by simp [Snapshot.empty]⟩

/-- A well-formed entry is shown by a sound snapshot. -/
theorem EntryCore.Shape.sound {e : EntryCore V F} (h : e.Shape) : e.snapshotNow.Sound :=
  ⟨h.data_iff, h.error_of⟩

/-- A sound snapshot answers every positive target: what the wait loop expects is there. -/
theorem Snapshot.Sound.present {sn : Snapshot V} (h : sn.Sound) {target : Nat}
    (ht : 1 ≤ target) :
    (target ≤ sn.dataSeq → sn.data.isSome) ∧
      (sn.dataSeq < target → target ≤ sn.errorSeq → sn.error.isSome) :=
  ⟨fun hd => h.data_iff.mpr (ht.trans hd), fun hd he => h.error_of (hd.trans_le he)⟩

/-- A look at a sound snapshot, for a target that is positive, does not panic. -/
theorem look_of_sound {sn : Snapshot V} (h : sn.Sound) {target : Nat} (ht : 1 ≤ target) :
    ∃ x, look sn target = .ok x := by
  obtain ⟨hdata, herror⟩ := h.present ht
  unfold look
  split_ifs with hd he
  · obtain ⟨value, hv⟩ := Option.isSome_iff_exists.mp (hdata hd)
    rw [hv]
    exact ⟨_, rfl⟩
  · obtain ⟨error, hx⟩ := Option.isSome_iff_exists.mp (herror (not_le.mp hd) he)
    rw [hx]
    exact ⟨_, rfl⟩
  · exact ⟨_, rfl⟩

/-! ## The answer of a read -/

/-- A read that waits has a positive target; it only fails for want of a fetcher. -/
theorem waitOutcome_sound {e : EntryCore V F} (h : e.Shape) :
    match e.waitOutcome with
    | .ready _ => False
    | .wait target _ => 1 ≤ target
    | .noFetcher => e.inflight = none ∧ e.mutationActive = 0 := by
  unfold EntryCore.waitOutcome
  cases hi : e.inflight with
  | some s => exact Nat.one_le_iff_ne_zero.mpr (Nat.ne_zero_of_lt (h.flying s hi).dataSeq)
  | none =>
      by_cases hm : 0 < e.mutationActive
      · simp only [hm, if_true]
        exact Nat.one_le_iff_ne_zero.mpr (Nat.ne_zero_of_lt (h.mutating hm))
      · simp only [hm, if_false]
        exact ⟨trivial, Nat.eq_zero_of_not_pos hm⟩

/-- **What a `Read` answers.** A snapshot is sound, and has data unless only the cache was asked; a target
is positive; and there is no fetcher only if none was brought. -/
theorem readOutcome_sound [Platform] {e : EntryCore V F} (h : e.Shape)
    (hslot : e.mutationActive = 0 → e.optimistic = none) (defaults : QueryOptions) (now : Instant)
    (policy : ReadPolicy) (fetcher : Option F) (compare : Option (Compare V))
    (opts : QueryOptions) :
    match KeyEvent.readOutcome (e.isStale opts.staleTime now) (e.served fetcher compare opts)
      ((KeyEvent.read policy fetcher compare opts).react defaults now e) policy with
    | .ready sn => sn.Sound ∧ (policy ≠ .cacheOnly → sn.data.isSome)
    | .wait target _ => 1 ≤ target
    | .noFetcher => fetcher = none := by
  have hreact := h.react hslot defaults now (.read policy fetcher compare opts)
  have hserved := (h.served fetcher compare opts).sound
  have hdata : ((KeyEvent.read policy fetcher compare opts).react defaults now e).data =
      e.data := by
    unfold KeyEvent.react
    split_ifs <;> rfl
  -- A read that wants a fetch and has a fetcher finds a flight or a mutation, or starts a flight.
  have hwait : policy ≠ .cacheOnly → (e.data.isNone || e.isStale opts.staleTime now) = true →
      match ((KeyEvent.read policy fetcher compare opts).react defaults now e).waitOutcome with
      | .ready sn => sn.Sound ∧ (policy ≠ .cacheOnly → sn.data.isSome)
      | .wait target _ => 1 ≤ target
      | .noFetcher => fetcher = none := by
    intro hp hw
    have hout := waitOutcome_sound hreact
    revert hout
    cases ((KeyEvent.read policy fetcher compare opts).react defaults now e).waitOutcome with
    | ready sn => exact False.elim
    | wait target rx => exact id
    | noFetcher =>
        rintro ⟨hi, hm⟩
        cases fetcher with
        | none => rfl
        | some f =>
            unfold KeyEvent.react at hi hm
            have hwants : (KeyEvent.read policy (some f) compare opts).wants defaults now e
                ((KeyEvent.read policy (some f) compare opts).apply defaults now e) = true := by
              simp only [KeyEvent.wants, hw, Bool.and_true, decide_eq_true_eq]
              exact hp
            split_ifs at hi hm with hst
            · cases hi
            · refine absurd ?_ hst
              rw [KeyEvent.starts, hwants, Bool.true_and]
              exact canStartFetch_iff.mpr ⟨rfl, hm, hi⟩
  cases policy with
  | cacheOnly => exact ⟨hserved, fun hp => absurd rfl hp⟩
  | staleWhileRevalidate =>
      simp only [KeyEvent.readOutcome]
      have hd : (e.served fetcher compare opts).data = e.data := rfl
      cases hdat : e.data with
      | none =>
          simp only [hd, hdat, Option.isSome_none, Bool.false_and, Bool.false_eq_true, if_false]
          exact hwait (by decide) (by rw [hdat]; rfl)
      | some value =>
          cases hst : e.isStale opts.staleTime now with
          | false =>
              simp only [hd, hdat, Option.isSome_some, Bool.not_false, Bool.and_self, if_true]
              refine ⟨hserved, fun _ => ?_⟩
              exact Option.isSome_iff_exists.mpr ⟨value, hdat⟩
          | true =>
              simp only [hd, hdat, Option.isSome_some, Bool.not_true, Bool.and_false,
                Bool.false_eq_true, if_false, if_true]
              refine ⟨hreact.sound, fun _ => ?_⟩
              exact Option.isSome_iff_exists.mpr ⟨value, hdata.trans hdat⟩
  | ensureFresh =>
      simp only [KeyEvent.readOutcome]
      have hd : (e.served fetcher compare opts).data = e.data := rfl
      split_ifs with hfresh
      · rw [hd, Bool.and_eq_true] at hfresh
        exact ⟨hserved, fun _ => hfresh.1⟩
      · refine hwait (by decide) ?_
        rw [hd] at hfresh
        cases hdat : e.data <;> simp_all

namespace Shell

section step

variable [Platform] {s s' : Shell V F} {c : Call V F} (h : s.Inv) (hs : Step s c s')

include h hs

/-- Every published snapshot is sound. -/
theorem Inv.notify_sound {tx : Channel} {sn : Snapshot V}
    (hx : .notify tx sn ∈ c.out.effects) : sn.Sound := by
  obtain ⟨kev, e, hat, -, -, hsn⟩ := (h.handled hs).notify hx
  rw [hsn]
  exact (h.after hs hat).1.sound

/-- A read is answered by a sound snapshot, or by a positive target, or it has no fetcher. -/
theorem Inv.read_outcome {key : QueryKey} {policy : ReadPolicy} {fetcher : Option F}
    {compare : Option (Compare V)} {opts : QueryOptions}
    (hev : c.event = .read key policy fetcher compare opts) :
    ∃ ro, c.out.outcome = .read ro ∧
      match ro with
      | .ready sn => sn.Sound ∧ (policy ≠ .cacheOnly → sn.data.isSome)
      | .wait target _ => 1 ≤ target
      | .noFetcher => fetcher = none := by
  have hon : c.event.on key s.inner.nextSubId = some (.read policy fetcher compare opts) := by
    rw [hev]
    exact if_pos rfl
  have hout := (h.handled hs).outcome key _ hon
  rw [Inner.answer] at hout
  cases hsub : s.inner.subject key (.read policy fetcher compare opts) with
  | none =>
      -- Only a `CacheOnly` read leaves a missing entry missing.
      rw [hsub] at hout
      refine ⟨_, hout, Snapshot.sound_empty, fun hp => ?_⟩
      unfold Inner.subject KeyEvent.creates at hsub
      simp [hp] at hsub
  | some e =>
      rw [hsub] at hout
      obtain ⟨hshape, -, hslot, -⟩ := h.subject hsub
      exact ⟨_, hout, readOutcome_sound hshape hslot s.inner.defaults c.now policy fetcher compare
        opts⟩

/-- A `Read` that waits does so on the channel of its entry, for the current seq of the entry, which is
in flight or under a mutation. -/
theorem Inv.read_wait {key : QueryKey} {policy : ReadPolicy} {fetcher : Option F}
    {compare : Option (Compare V)} {opts : QueryOptions} {target : Nat} {rx : Channel}
    (hev : c.event = .read key policy fetcher compare opts)
    (hout : c.out.outcome = .read (.wait target rx)) :
    ∃ e, s.inner.At c.event key (.read policy fetcher compare opts) e ∧ rx = e.tx ∧
      rx.key = key ∧ ∃ e', s'.inner.entry key = some e' ∧
        e' = s.inner.after c.now key (.read policy fetcher compare opts) e ∧ e'.tx = rx ∧
        e'.Shape ∧ e'.seq = target ∧
        (e'.inflight = some target ∨ e'.inflight = none ∧ 0 < e'.mutationActive) := by
  have hh := h.handled hs
  have hon : c.event.on key s.inner.nextSubId = some (.read policy fetcher compare opts) := by
    rw [hev]
    exact if_pos rfl
  have hans := hh.outcome key _ hon
  rw [hout, Inner.answer] at hans
  cases hsub : s.inner.subject key (.read policy fetcher compare opts) with
  | none =>
      rw [hsub] at hans
      cases hans
  | some e =>
      have hat : s.inner.At c.event key (.read policy fetcher compare opts) e := ⟨hon, hsub, rfl⟩
      refine ⟨e, hat, ?_⟩
      rw [hsub] at hans
      simp only [Option.elim_some, KeyEvent.outcome, Outcome.read.injEq] at hans
      -- Whatever the policy, a target comes from `waitOutcome`, which the post-rules leave alone.
      have hwait : .wait target rx =
          ((KeyEvent.read policy fetcher compare opts).react s.inner.defaults c.now e).waitOutcome := by
        unfold KeyEvent.readOutcome at hans
        cases policy with
        | cacheOnly => cases hans
        | _ =>
            simp only at hans
            split_ifs at hans
            exact hans
      have hkeep : (s.inner.after c.now key (.read policy fetcher compare opts) e).waitOutcome =
          ((KeyEvent.read policy fetcher compare opts).react s.inner.defaults c.now
            e).waitOutcome :=
        Inner.after_of (f := EntryCore.waitOutcome) (fun _ _ _ _ => rfl) key _ e
      have hshape := (h.after hs hat).1
      have htx : (s.inner.after c.now key (.read policy fetcher compare opts) e).tx = e.tx :=
        (Inner.after_frame key (.read policy fetcher compare opts) e).1
      have hkey : e.tx.key = key := by rw [h.subject_tx hsub]
      rw [← hkeep, EntryCore.waitOutcome, htx] at hwait
      cases hi : (s.inner.after c.now key (.read policy fetcher compare opts) e).inflight with
      | some n =>
          rw [hi] at hwait
          cases hwait
          exact ⟨rfl, hkey, _, hat.entry hh, rfl, htx, hshape, (hshape.flying _ hi).seq.symm,
            .inl hi⟩
      | none =>
          rw [hi] at hwait
          simp only at hwait
          split_ifs at hwait with hm
          cases hwait
          exact ⟨rfl, hkey, _, hat.entry hh, rfl, htx, hshape, rfl, .inr ⟨hi, hm⟩⟩

end step

/-- **The read side of `fetch()` is total.** In every shell-produced run every published snapshot is
sound, and every `Read` is answered by a read outcome. A snapshot answered at once is sound, and
unless the read is `CacheOnly` it carries data. A target to wait for is at least one, and on every
snapshot its channel ever holds (the empty one it starts with, or a published one) what the wait loop
expects is present. A read with a fetcher is never told that there is none. So one pass of `fetch()`
under the other policies returns a value or waits, and every look of the wait loop ends with a value,
with the error of a fetch, or before `changed()`. -/
theorem read_side_total [Platform] {defaults : QueryOptions}
    {log : List (Trace.Record (Shell V F) (Call V F))} {s : Shell V F} (h : Run defaults log s) :
    (∀ r ∈ log, ∀ tx sn, .notify tx sn ∈ r.label.out.effects → sn.Sound) ∧
      ∀ r ∈ log, ∀ key policy fetcher compare opts,
        r.label.event = .read key policy fetcher compare opts →
          ∃ ro, r.label.out.outcome = .read ro ∧
            (∀ sn, ro = .ready sn → sn.Sound ∧ (policy ≠ .cacheOnly → sn.data.isSome)) ∧
            (∀ target rx, ro = .wait target rx → 1 ≤ target ∧
              ∀ sn, (sn = .empty ∨ ∃ r' ∈ log, .notify rx sn ∈ r'.label.out.effects) →
                (target ≤ sn.dataSeq → sn.data.isSome) ∧
                (sn.dataSeq < target → target ≤ sn.errorSeq → sn.error.isSome) ∧
                ∃ x, look sn target = .ok x) ∧
            (fetcher.isSome → ro ≠ .noFetcher) ∧
            (policy ≠ .cacheOnly → fetcher.isSome →
              (∃ value, pass r.label.out.outcome = .ok (.done (.ok value))) ∨
                ∃ target rx, pass r.label.out.outcome = .ok (.wait target rx)) := by
  have hpublished : ∀ r ∈ log, ∀ tx sn, .notify tx sn ∈ r.label.out.effects → sn.Sound := by
    intro r hr tx sn hx
    obtain ⟨xs, ys, -, hpre, hstep, -⟩ := h.of_mem hr
    exact (inv_of_run hpre).notify_sound hstep hx
  refine ⟨hpublished, fun r hr key policy fetcher compare opts hev => ?_⟩
  obtain ⟨xs, ys, -, hpre, hstep, -⟩ := h.of_mem hr
  obtain ⟨ro, hout, hro⟩ := (inv_of_run hpre).read_outcome hstep hev
  refine ⟨ro, hout, ?_, ?_, ?_, ?_⟩
  · rintro sn rfl
    exact hro
  · rintro target rx rfl
    refine ⟨hro, fun sn hsn => ?_⟩
    have hsound : sn.Sound := by
      rcases hsn with rfl | ⟨r', hr', hx⟩
      · exact Snapshot.sound_empty
      · exact hpublished r' hr' rx sn hx
    exact ⟨(hsound.present hro).1, (hsound.present hro).2, look_of_sound hsound hro⟩
  · rintro hf rfl
    have hro : fetcher = none := hro
    rw [hro] at hf
    cases hf
  · intro hp hf
    rw [hout]
    cases ro with
    | ready sn =>
        obtain ⟨value, hv⟩ := Option.isSome_iff_exists.mp (hro.2 hp)
        exact .inl ⟨value, by simp only [pass, readyResult, hv]⟩
    | wait target rx => exact .inr ⟨target, rx, rfl⟩
    | noFetcher =>
        have hro : fetcher = none := hro
        rw [hro] at hf
        cases hf

section witness

attribute [local instance] exampleClock

/-- The read of the example run waits for the fetch that the mutation left. -/
theorem read_side_total_example :
    ∃ (log : List (Trace.Record (Shell Nat Unit) (Call Nat Unit))) (s : Shell Nat Unit),
      Run .default log s ∧ (∀ r ∈ log, ∀ tx sn, .notify tx sn ∈ r.label.out.effects → sn.Sound) ∧
        ∃ r ∈ log, ∃ ro, r.label.out.outcome = .read ro ∧ ro ≠ .noFetcher := by
  obtain ⟨log, s, hex, -⟩ := exampleRun_runs
  have hrun : Run .default log s := run_of_exec hex
  have hfifth : (((init .default : Shell Nat Unit).exec exampleRun).bind fun r =>
      r.1[4]?.map fun r => match r.label.event with
        | .read _ _ fetcher _ _ => fetcher
        | _ => none) = some (some ()) := by decide +kernel
  rw [hex, Option.bind_some, Option.map_eq_some_iff] at hfifth
  obtain ⟨r, hr, hev⟩ := hfifth
  obtain ⟨hpublished, hread⟩ := read_side_total hrun
  cases he : r.label.event <;> rw [he] at hev <;> cases hev
  obtain ⟨ro, hout, -, -, hfetcher, -⟩ := hread r (List.mem_of_getElem? hr) _ _ _ _ _ he
  exact ⟨log, s, hrun, hpublished, r, List.mem_of_getElem? hr, ro, hout, hfetcher rfl⟩

end witness

end Shell

end SwrCore
