import SwrCore.Client.Waiters

/-!
# Where results come from

A caller takes its result from a snapshot: one the state machine built from an entry, or one it finds in
a channel. Both show contents that some event wrote.

* `KeyEvent.Makes.content_react` — the content an event writes is the one the entry has after it.
* `Client.Visible`, `Client.Shows` — the snapshots a look may still see, and the contents that the entry
  stores or that may still be seen.
* `Client.Step.shows` — every content shown after a step was shown before, or the step's event wrote it.
* `Client.Bounded` — the seqs of what is shown, against those of the entry.
-/

set_option linter.unusedSectionVars false

namespace SwrCore

variable {V F : Type}

/-! ## What an event writes, and what an answer shows -/

section cell

variable [Platform] {defaults : QueryOptions} {now : Instant} {e : EntryCore V F}

/-- The fetch that an event starts changes no content. -/
theorem EntryCore.content_react (e : EntryCore V F) (kev : KeyEvent V F) :
    (kev.react defaults now e).content = (kev.apply defaults now e).content := by
  unfold KeyEvent.react
  split_ifs <;> rfl

/-- Nor do the stages after the handler. -/
theorem Inner.content_after (inner : Inner V F) (k : QueryKey) (kev : KeyEvent V F) :
    (inner.after now k kev e).content = (kev.react inner.defaults now e).content :=
  Inner.after_of (f := EntryCore.content) (fun _ _ _ _ => rfl) k kev e

/-- The content an event writes is the content of the entry after it. -/
theorem KeyEvent.Makes.content_react {kev : KeyEvent V F} {x : Content V} (h : kev.Makes e x) :
    (kev.react defaults now e).content = x := by
  rw [EntryCore.content_react]
  cases h with
  | landed hd =>
      simp only [KeyEvent.apply, hd, Bool.false_eq_true, if_false]
      rfl
  | failed hd =>
      simp only [KeyEvent.apply, hd, Bool.false_eq_true, if_false]
      rfl
  | set => rfl
  | optimistic => rfl
  | populated hp =>
      simp only [KeyEvent.apply, EntryCore.resolved, hp, if_true]
      rfl
  | @rejected token error flags hr =>
      have hr' : ({ e.released with error := some error } : EntryCore V F).rollsBack token
          flags.rollbackOnError = false := hr
      simp only [KeyEvent.apply, EntryCore.resolved, EntryCore.rolledBack, hr',
        Bool.false_eq_true, if_false, EntryCore.slotCleared]
      split_ifs <;> rfl

/-- The error seq of an entry only grows: an event keeps a stored content, or writes one. -/
theorem EntryCore.Shape.errorSeq_le_react (h : e.Shape)
    (hslot : e.mutationActive = 0 → e.optimistic = none) (kev : KeyEvent V F) :
    e.errorSeq ≤ (kev.react defaults now e).errorSeq := by
  have hholds : (kev.react defaults now e).Holds (kev.react defaults now e).content := .inl rfl
  show e.errorSeq ≤ (kev.react defaults now e).content.errorSeq
  rcases EntryCore.holds_react hslot hholds with (hold | ⟨o, -, hold⟩) | hmade
  · rw [hold]
    exact le_refl _
  · rw [hold]
    exact le_refl _
  · generalize (kev.react defaults now e).content = x at hmade
    cases hmade with
    | failed hd => exact (h.flying _ (EntryCore.dropsCommit_eq_false.mp hd).2.2).errorSeq.le
    | _ => exact le_refl _

end cell

namespace Shell

section step

variable [Platform] {s s' : Shell V F} {c : Call V F} (h : s.Inv) (hs : Step s c s')

include h hs

/-- A snapshot that answers a `Read` at once shows the entry that was read, or nothing. -/
theorem Inv.read_ready {key : QueryKey} {policy : ReadPolicy} {fetcher : Option F}
    {compare : Option (Compare V)} {opts : QueryOptions} {sn : Snapshot V}
    (hev : c.event = .read key policy fetcher compare opts)
    (hout : c.out.outcome = .read (.ready sn)) :
    sn = .empty ∨ ∃ e, s.inner.At c.event key (.read policy fetcher compare opts) e ∧
      sn.content = e.content := by
  have hon : c.event.on key s.inner.nextSubId = some (.read policy fetcher compare opts) := by
    rw [hev]
    exact if_pos rfl
  have hans := (h.handled hs).outcome key _ hon
  rw [hout, Inner.answer] at hans
  cases hsub : s.inner.subject key (.read policy fetcher compare opts) with
  | none =>
      rw [hsub] at hans
      cases hans
      exact .inl rfl
  | some e =>
      rw [hsub] at hans
      simp only [Option.elim_some, KeyEvent.outcome, Outcome.read.injEq] at hans
      have hreact : ((KeyEvent.read policy fetcher compare opts).react s.inner.defaults
          c.now e).snapshotNow.content = e.content :=
        EntryCore.content_react e (.read policy fetcher compare opts)
      have hserved : (e.served fetcher compare opts).snapshotNow.content = e.content := rfl
      have hwait : ∀ e' : EntryCore V F, .ready sn ≠ e'.waitOutcome := by
        intro e' hw
        unfold EntryCore.waitOutcome at hw
        split at hw
        · cases hw
        · split_ifs at hw
      refine .inr ⟨e, ⟨hon, hsub, rfl⟩, ?_⟩
      unfold KeyEvent.readOutcome at hans
      cases policy with
      | cacheOnly =>
          cases hans
          exact hserved
      | staleWhileRevalidate =>
          simp only at hans
          split_ifs at hans
          · cases hans
            exact hserved
          · cases hans
            exact hreact
          · exact absurd hans (hwait _)
      | ensureFresh =>
          simp only at hans
          split_ifs at hans
          · cases hans
            exact hserved
          · exact absurd hans (hwait _)

end step

end Shell

namespace Client

/-! ## What is shown -/

/-- The snapshots a look may still see: the one in the channel, and the newer ones on their way. -/
def Visible (s : Client V F) (tx : Channel) (sn : Snapshot V) : Prop :=
  sn = (s.channels tx).value ∨
    sn ∈ s.travelling tx ∧ (s.channels tx).value.version < sn.version

/-- The contents that the entry of a channel stores, or that a look may still see. -/
def Shows (s : Client V F) (tx : Channel) (x : Content V) : Prop :=
  (∃ e, s.shell.inner.entry tx.key = some e ∧ e.tx = tx ∧ e.Holds x) ∨
    ∃ sn, s.Visible tx sn ∧ x = sn.content

/-- A new client shows the empty content everywhere. -/
theorem shows_init {defaults : QueryOptions} {tx : Channel} {x : Content V}
    (h : (init defaults : Client V F).Shows tx x) : x = Snapshot.empty.content := by
  rcases h with ⟨e, he, -⟩ | ⟨sn, rfl | ⟨hsn, -⟩, rfl⟩
  · cases (Shell.init_entry defaults tx.key).symm.trans he
  · rfl
  · exact absurd hsn List.not_mem_nil

/-- A new channel shows nothing. -/
theorem Channels.shows_unborn {s : Client V F} (h : s.Channels) (hi : s.shell.Inv) {tx : Channel}
    (htx : s.shell.inner.nextIncarnation ≤ tx.incarnation) {x : Content V} (hx : s.Shows tx x) :
    x = Snapshot.empty.content := by
  obtain ⟨hchan, htrav⟩ := h.unborn tx htx
  rcases hx with ⟨e, he, rfl, -⟩ | ⟨sn, rfl | ⟨hsn, -⟩, rfl⟩
  · have hlt := hi.incarnation _ e he
    rw [hi.tx _ e he] at htx
    exact absurd htx hlt.not_ge
  · rw [hchan]
    rfl
  · rw [htrav] at hsn
    exact absurd hsn (Set.notMem_empty sn)

section step

variable [Platform] {s s' : Client V F} {a : Act V F}

/-- A snapshot that becomes visible was just emitted. -/
theorem Step.visible (hs : Step s a s') {tx : Channel} {sn : Snapshot V}
    (h : s'.Visible tx sn) :
    s.Visible tx sn ∨ ∃ c, a.call? = some c ∧ .notify tx sn ∈ c.out.effects := by
  rcases hs.kinds with ⟨c, hcall, hc⟩ | ⟨before, x, rest, after, -, hb, rfl⟩ | ⟨-, hstill⟩
  · rcases h with rfl | ⟨hsn, hlt⟩
    · exact .inl (.inl (by rw [hc.channels]))
    · rw [hc.travelling] at hsn
      rcases hsn with hsn | hsn
      · exact .inr ⟨c, hcall, (Effect.mem_notices.mp hsn).2⟩
      · rw [hc.channels] at hlt
        exact .inl (.inr ⟨hsn, hlt⟩)
  · refine .inl ?_
    have hmem : ∀ sn, sn ∈ s.travelling tx ↔ .notify tx sn = x ∨
        sn ∈ (s.executed x (before ++ rest :: after)).travelling tx :=
      fun sn => mem_pending_executed hb
    rcases executed_channels s x (before ++ rest :: after) tx with
      ⟨hchan, -⟩ | ⟨sn', hx, hchan⟩
    · rcases h with rfl | ⟨hsn, hlt⟩
      · exact .inl (by rw [hchan])
      · rw [hchan] at hlt
        exact .inr ⟨(hmem sn).mpr (.inr hsn), hlt⟩
    · -- The delivered snapshot was on its way, and the channel has not gone back.
      rcases h with rfl | ⟨hsn, hlt⟩
      · rw [hchan, Watch.send]
        split_ifs with hnew
        · exact .inr ⟨(hmem sn').mpr (.inl hx.symm), hnew⟩
        · exact .inl rfl
      · refine .inr ⟨(hmem sn).mpr (.inr hsn), ?_⟩
        have hle : (s.channels tx).value.version ≤
            ((s.executed x (before ++ rest :: after)).channels tx).value.version := by
          rw [hchan, Watch.send_value]
          exact LatestWins.le_offer _ _
        exact hle.trans_lt hlt
  · rcases h with rfl | ⟨hsn, hlt⟩
    · exact .inl (.inl (by rw [hstill.channels]))
    · rw [hstill.channels] at hlt
      have hsn' : .notify tx sn ∈ s'.pending := hsn
      rw [hstill.pending] at hsn'
      exact .inl (.inr ⟨hsn', hlt⟩)

/-- What the entry an event acts on stores is shown, also when the event creates it. -/
theorem Channels.shows_subject (h : s.Channels) (hi : s.shell.Inv) {k : QueryKey}
    {kev : KeyEvent V F} {e : EntryCore V F} (hsub : s.shell.inner.subject k kev = some e)
    {x : Content V} (hx : e.Holds x) : s.Shows e.tx x := by
  have htx := hi.subject_tx hsub
  rcases (hi.subject hsub).2.2.2 with he | ⟨-, rfl, -⟩
  · refine .inl ⟨e, ?_, rfl, hx⟩
    rw [htx]
    exact he
  · obtain ⟨hchan, -⟩ := h.unborn ⟨k, s.shell.inner.nextIncarnation⟩ (le_refl _)
    refine .inr ⟨.empty, .inl ?_, EntryCore.holds_new _ _ hx⟩
    have htx : (EntryCore.new k s.shell.inner.nextIncarnation : EntryCore V F).tx =
      ⟨k, s.shell.inner.nextIncarnation⟩ := rfl
    rw [htx, hchan]
    rfl

/-- **Where what is shown comes from.** Every content shown after a step was shown before it, or the
event of the step wrote it. -/
theorem Step.shows (hs : Step s a s') (hchan : s.Channels) (hi : s.shell.Inv) {tx : Channel}
    {x : Content V} (h : s'.Shows tx x) :
    s.Shows tx x ∨ ∃ c kev e, a.call? = some c ∧ s.shell.inner.At c.event tx.key kev e ∧
      e.tx = tx ∧ kev.Makes e x := by
  -- The contents an entry stores after the step.
  have hentry : ∀ e', s'.shell.inner.entry tx.key = some e' → e'.tx = tx → e'.Holds x →
      s.Shows tx x ∨ ∃ c kev e, a.call? = some c ∧ s.shell.inner.At c.event tx.key kev e ∧
        e.tx = tx ∧ kev.Makes e x := by
    intro e' he' htx hx
    rcases hs.shell with ⟨c, hcall, hc⟩ | ⟨-, hsame⟩
    · rcases (hi.handled hc).inversion he' with ⟨-, he⟩ | ⟨kev, e, hat, rfl⟩
      · exact .inl (.inl ⟨e', he, htx, hx⟩)
      · rw [(Inner.after_frame _ kev e).1] at htx
        have hslot := (hi.subject hat.subject).2.2.1
        rcases EntryCore.holds_react hslot (EntryCore.holds_settled hx) with hx | hx
        · rw [← htx]
          exact .inl (hchan.shows_subject hi hat.subject hx)
        · exact .inr ⟨c, kev, e, hcall, hat, htx, hx⟩
    · rw [hsame] at he'
      exact .inl (.inl ⟨e', he', htx, hx⟩)
  rcases h with ⟨e', he', htx, hx⟩ | ⟨sn, hsn, rfl⟩
  · exact hentry e' he' htx hx
  · rcases hs.visible hsn with hsn | ⟨c, hcall, hx⟩
    · exact .inl (.inr ⟨sn, hsn, rfl⟩)
    · -- A new snapshot shows what its entry stores.
      obtain ⟨e', he', htx, hsn'⟩ := hi.notify_entry (hs.calls hcall).shell hx
      exact hentry e' he' htx (.inl (by rw [hsn']; rfl))

end step

/-! ## The seqs of what is shown -/

/-- What is shown is not newer than the entry: its error is not, and its data is not newer than the
seq, and older while a fetch is in flight. -/
def Bounded (s : Client V F) : Prop :=
  ∀ tx e, s.shell.inner.entry tx.key = some e → e.tx = tx → ∀ x, s.Shows tx x →
    x.errorSeq ≤ e.errorSeq ∧ x.dataSeq ≤ e.seq ∧ (e.inflight.isSome → x.dataSeq < e.seq)

/-- A new client has no entries to bound what is shown. -/
theorem bounded_init (defaults : QueryOptions) : (init defaults : Client V F).Bounded := by
  intro tx e he
  cases (Shell.init_entry defaults tx.key).symm.trans he

section step

variable [Platform] {s s' : Client V F} {a : Act V F}

/-- A step stores, or sends, nothing that is newer than its entry. -/
theorem Bounded.step (h : s.Bounded) (hchan : s.Channels) (hi : s.shell.Inv)
    (hs : Step s a s') : s'.Bounded := by
  intro tx e' he' htx x hx
  rcases hs.shell with ⟨c, hcall, hc⟩ | ⟨hnone, hsame⟩
  · rcases (hi.handled hc).inversion he' with ⟨hoff, he⟩ | ⟨kev, e, hat, rfl⟩
    · rcases hs.shows hchan hi hx with hx | ⟨c', kev, e, hcall', hat, -⟩
      · exact h tx e' he htx x hx
      · rw [hcall] at hcall'
        cases hcall'
        exact absurd hoff hat.not_off
    · have htx' : e.tx = tx := (Inner.after_frame _ kev e).1.symm.trans htx
      obtain ⟨hshape, -⟩ := hi.after hc hat
      have hsub := hi.subject hat.subject
      have hcontent : (s.shell.inner.after c.now tx.key kev e).content =
          (kev.react s.shell.inner.defaults c.now e).content :=
        s.shell.inner.content_after tx.key kev
      rcases hs.shows hchan hi hx with hx | ⟨c', kev', e₁, hcall', hat', -, hmade⟩
      · -- The entry was there with these bounds, or it is new and its channel shows nothing.
        have hold : x.errorSeq ≤ e.errorSeq ∧ x.dataSeq ≤ e.seq ∧
            (e.inflight.isSome → x.dataSeq < e.seq) := by
          rcases hsub.2.2.2 with he | ⟨-, rfl, -⟩
          · exact h tx e he htx' x hx
          · have htx : (EntryCore.new tx.key s.shell.inner.nextIncarnation : EntryCore V F).tx =
              ⟨tx.key, s.shell.inner.nextIncarnation⟩ := rfl
            rw [← htx', htx] at hx
            rw [hchan.shows_unborn hi (le_refl _) hx]
            exact ⟨le_refl _, le_refl _, nofun⟩
        obtain ⟨herr, hdata, hfly⟩ := hold
        have hmono : e.errorSeq ≤ (s.shell.inner.after c.now tx.key kev e).errorSeq := by
          rw [show (s.shell.inner.after c.now tx.key kev e).errorSeq =
            (kev.react s.shell.inner.defaults c.now e).errorSeq from congrArg Content.errorSeq
              hcontent]
          exact hsub.1.errorSeq_le_react hsub.2.2.1 kev
        exact ⟨herr.trans hmono, hi.behind_after hc hat hdata hfly⟩
      · rw [hcall] at hcall'
        cases hcall'
        obtain ⟨rfl, rfl⟩ := hat.unique hat'
        rw [hmade.content_react] at hcontent
        rw [← hcontent]
        refine ⟨le_refl _, hshape.dataSeq, fun hfly => ?_⟩
        obtain ⟨n, hn⟩ := Option.isSome_iff_exists.mp hfly
        obtain ⟨hn', hlt, -⟩ := hshape.flying n hn
        rw [← hn']
        exact hlt
  · rcases hs.shows hchan hi hx with hx | ⟨c, _, _, hcall, -⟩
    · rw [hsame] at he' 
      exact h tx e' he' htx x hx
    · rw [hnone] at hcall
      cases hcall

end step

section run

variable [Platform] {defaults : QueryOptions} {log : Log V F} {s : Client V F}

/-- So in every run nothing is shown that is newer than its entry. -/
theorem Run.bounded (h : Run defaults log s) : s.Bounded := by
  have hboth : s.Channels ∧ s.Bounded :=
    h.keeps (J := fun s => s.Channels ∧ s.Bounded) ⟨channels_init defaults, bounded_init defaults⟩
      fun _ _ _ hi hJ hs => ⟨hJ.1.step hi hs, hJ.2.step hJ.1 hi hs⟩
  exact hboth.2

end run

end Client

end SwrCore
