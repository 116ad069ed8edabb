import SwrCore.Client.Answers

/-!
# Read your writes

A value that was set, or that a mutation committed, is there for every later `Read` of its key: a call of
`fetch()` returns this value, or something that was written after it. Results that were under way, rolled
back values and snapshots that were overtaken do not bring back what was there before.

* `Event.stores` — the local writes.
* `Client.Step.holds` — where what an entry holds comes from.
* `Client.Stored` — the configuration after such a write.
* `Client.Since`, `Client.Retains` — everything that the entry holds was written since.
* `Client.Honours` — the results that respect the write.
* `Client.read_your_writes` — the law over every run.
-/

set_option linter.unusedSectionVars false

namespace SwrCore

variable {V F : Type}

/-! ## Local writes -/

/-- The event stores this value under the key. -/
def Event.stores (k : QueryKey) (v : V) : Event V F → Prop
  | .mutateSet key value => key = k ∧ value = v
  | .mutateCommit token result flags =>
    token.key = k ∧ result = .ok (some v) ∧ flags.populate = true
  | _ => False

/-- The same, as the key reads the event. -/
def KeyEvent.stores (v : V) : KeyEvent V F → Prop
  | .mutateSet value => value = v
  | .mutateCommit _ result flags => result = .ok (some v) ∧ flags.populate = true
  | _ => False

section event

variable {k : QueryKey} {v : V} {ev : Event V F}

/-- An event that stores a value under a key acts on the key. -/
theorem Event.on_of_stores (h : ev.stores k v) (n : Nat) :
    ∃ kev, ev.on k n = some kev ∧ kev.stores v := by
  cases ev with
  | mutateSet key value =>
      obtain ⟨rfl, rfl⟩ := h
      exact ⟨.mutateSet value, if_pos rfl, rfl⟩
  | mutateCommit token result flags =>
      obtain ⟨rfl, hresult, hflag⟩ := h
      exact ⟨.mutateCommit token result flags, if_pos rfl, hresult, hflag⟩
  | _ => exact h.elim

/-- A local write carries its value, and no error. -/
theorem Event.carries_of_stores (h : ev.stores k v) (compare : Option (Compare V)) :
    ev.carries k compare v ∧ ∀ key error, ¬ ev.raises key error := by
  cases ev with
  | mutateSet key value => exact ⟨h, fun _ _ hraises => hraises⟩
  | mutateCommit token result flags =>
      refine ⟨h, fun key error hraises => ?_⟩
      have hresult := h.2.1.symm.trans hraises.2
      cases hresult
  | _ => exact h.elim

end event

section cell

variable [Platform] {kev : KeyEvent V F} {v : V}

/-- **A local write.** The value stands alone under the next seq, and the slot is empty; a fetch that
starts at once takes the seq after it. -/
theorem KeyEvent.react_stores (defaults : QueryOptions) (now : Instant) (e : EntryCore V F)
    (h : kev.stores v) :
    (kev.react defaults now e).content = ⟨some v, none, e.seq + 1, e.errorSeq⟩ ∧
      (kev.react defaults now e).optimistic = none ∧
      ((kev.react defaults now e).inflight.isSome ∨ (kev.react defaults now e).seq = e.seq + 1) ∧
      (kev.react defaults now e).seq ≤ e.seq + 2 := by
  have happly : ∃ e₀ : EntryCore V F, e₀.seq = e.seq ∧ e₀.errorSeq = e.errorSeq ∧
      kev.apply defaults now e = e₀.overwritten v now := by
    cases kev with
    | mutateSet value =>
        cases h
        exact ⟨e, rfl, rfl, rfl⟩
    | mutateCommit token result flags =>
        obtain ⟨rfl, hflag⟩ := h
        exact ⟨e.released, rfl, rfl, if_pos hflag⟩
    | _ => exact h.elim
  obtain ⟨e₀, hseq, herror, happly⟩ := happly
  unfold KeyEvent.react
  rw [happly, ← hseq, ← herror]
  split_ifs
  · exact ⟨rfl, rfl, .inl rfl, le_refl _⟩
  · exact ⟨rfl, rfl, .inr rfl, Nat.le_succ _⟩

end cell

namespace Client

section step

variable [Platform] {s s' : Client V F} {a : Act V F}

/-- An entry was there before, or it is a new incarnation. -/
theorem Step.descends (hs : Step s a s') (hi : s.shell.Inv) {k : QueryKey} {e' : EntryCore V F}
    (he' : s'.shell.inner.entry k = some e') :
    (∃ e, s.shell.inner.entry k = some e ∧ e.tx = e'.tx ∧ e.seq ≤ e'.seq) ∨
      s.shell.inner.nextIncarnation ≤ e'.tx.incarnation := by
  rcases hs.shell with ⟨c, -, hc⟩ | ⟨-, hsame⟩
  · rcases (hi.handled hc).inversion he' with ⟨-, he⟩ | ⟨kev, e, hat, rfl⟩
    · exact .inl ⟨e', he, rfl, le_refl _⟩
    · have htx : (s.shell.inner.after c.now k kev e).tx = e.tx := (Inner.after_frame k kev e).1
      rcases (hi.subject hat.subject).2.2.2 with he | ⟨-, rfl, -⟩
      · exact .inl ⟨e, he, htx.symm, (hi.after hc hat).2.2.2.1⟩
      · exact .inr (by rw [htx]; exact le_refl _)
  · rw [hsame] at he'
    exact .inl ⟨e', he', rfl, le_refl _⟩

/-- **Where what an entry holds comes from.** The entry was there and held it, or it is new and holds
nothing, or the event wrote it. -/
theorem Step.holds (hs : Step s a s') (hi : s.shell.Inv) {k : QueryKey} {e' : EntryCore V F}
    (he' : s'.shell.inner.entry k = some e') {x : Content V} (hx : e'.Holds x) :
    (∃ e, s.shell.inner.entry k = some e ∧ e.tx = e'.tx ∧ e.Holds x) ∨
      x = Snapshot.empty.content ∧ s.shell.inner.nextIncarnation ≤ e'.tx.incarnation ∨
      ∃ c kev e, a.call? = some c ∧ s.shell.inner.At c.event k kev e ∧ e.tx = e'.tx ∧
        kev.Makes e x := by
  rcases hs.shell with ⟨c, hcall, hc⟩ | ⟨-, hsame⟩
  · rcases (hi.handled hc).inversion he' with ⟨-, he⟩ | ⟨kev, e, hat, rfl⟩
    · exact .inl ⟨e', he, rfl, hx⟩
    · obtain ⟨-, -, hslot, horigin⟩ := hi.subject hat.subject
      have htx : (s.shell.inner.after c.now k kev e).tx = e.tx := (Inner.after_frame k kev e).1
      rcases EntryCore.holds_react hslot (EntryCore.holds_settled hx) with hold | hmade
      · rcases horigin with he | ⟨-, rfl, -⟩
        · exact .inl ⟨e, he, htx.symm, hold⟩
        · exact .inr (.inl ⟨EntryCore.holds_new _ _ hold, by rw [htx]; exact le_refl _⟩)
      · exact .inr (.inr ⟨c, kev, e, hcall, hat, htx.symm, hmade⟩)
  · rw [hsame] at he'
    exact .inl ⟨e', he', rfl, hx⟩

/-- What an event makes is written and raised by its step, or was there. -/
theorem Step.makes (hs : Step s a s') (hi : s.shell.Inv) {c : Call V F} (hcall : a.call? = some c)
    {k : QueryKey} {kev : KeyEvent V F} {e : EntryCore V F}
    (hat : s.shell.inner.At c.event k kev e) {x : Content V} (hmade : kev.Makes e x) :
    ((∀ v, x.data = some v → Wrote e.tx v ⟨s, a, s'⟩) ∨ x.data = e.data) ∧
      ((∀ error, x.error = some error → Raised e.tx error ⟨s, a, s'⟩) ∨ x.error = e.error) := by
  obtain ⟨hwrote, hraised⟩ := hmade.written (hi.subject hat.subject).1
  have hkey : e.tx.key = k := congrArg Channel.key (hi.subject_tx hat.subject)
  have hentry := hat.entry (hi.handled (hs.calls hcall).shell)
  have htx : (s.shell.inner.after c.now k kev e).tx = e.tx := (Inner.after_frame k kev e).1
  have hafter : (s.shell.inner.after c.now k kev e).content = x := by
    rw [Inner.content_after, hmade.content_react]
  refine ⟨hwrote.imp (fun hnew v hv => ?_) And.left, hraised.imp (fun hbrings error herr => ?_) And.left⟩
  · obtain ⟨hlt, hcarries⟩ := hnew
    have hcompare := KeyEvent.compare_of_carries (hcarries v hv) s.shell.inner.defaults c.now
    refine ⟨c, _, hcall, by rw [hkey]; exact hentry, htx, ?_, fun e₀ he₀ => ?_, ?_⟩
    · exact (congrArg Content.data hafter).trans hv
    · rw [hkey] at he₀
      rw [← hat.of_entry he₀]
      exact hlt.trans_eq (congrArg Content.dataSeq hafter).symm
    · rw [hkey, Inner.after_of (f := EntryCore.compare) (fun _ _ _ _ => rfl), hcompare]
      exact Event.carries_of_on hat.on (hcarries v hv)
  · refine ⟨c, _, hcall, by rw [hkey]; exact hentry, htx, ?_, ?_⟩
    · exact (congrArg Content.error hafter).trans herr
    · rw [hkey]
      exact Event.raises_of_on hat.on (hbrings error herr)

end step

/-! ## After a local write -/

/-- The configuration after a local write of the value `v` to the entry of the channel `tx`. -/
structure Stored (s : Client V F) (tx : Channel) (v : V) (e : EntryCore V F) : Prop where
  entry : s.shell.inner.entry tx.key = some e
  tx : e.tx = tx
  data : e.data = some v
  error : e.error = none
  slot : e.optimistic = none
  errorSeq : e.errorSeq < e.dataSeq
  latest : e.inflight.isSome ∨ e.seq = e.dataSeq
  seq : e.seq ≤ e.dataSeq + 1

section stored

variable [Platform] {s s' : Client V F} {a : Act V F} {k : QueryKey} {v : V}

/-- After such a call the value is stored, and the call is the write of it. -/
theorem Step.stored (hs : Step s a s') (hi : s.shell.Inv) {c : Call V F} (hcall : a.call? = some c)
    (hstores : c.event.stores k v) :
    ∃ tx e, tx.key = k ∧ s'.Stored tx v e ∧ Wrote tx v ⟨s, a, s'⟩ := by
  have hc := (hs.calls hcall).shell
  obtain ⟨kev, hon, hkev⟩ := Event.on_of_stores hstores s.shell.inner.nextSubId
  -- A token keeps its entry; a value that is set creates one.
  obtain ⟨e, hat⟩ : ∃ e, s.shell.inner.At c.event k kev e := by
    cases kev with
    | mutateSet value => exact ⟨_, hon, if_pos rfl, rfl⟩
    | mutateCommit token result flags =>
        have hkey : token.key = k := Event.ofKey_of_on hon
        have hlive : token ∈ s.shell.tokens := by
          have hen := hc.enabled
          cases hev : c.event <;> rw [hev] at hen hon hstores <;> try exact hstores.elim
          · cases Event.on_inv hon
          · cases Event.on_inv hon
            exact hen
        obtain ⟨e, he⟩ := Option.isSome_iff_exists.mp (hi.token_entry token hlive)
        exact ⟨e, hon, (if_neg Bool.false_ne_true).trans (hkey ▸ he), rfl⟩
    | _ => exact hkev.elim
  have htx := hi.subject_tx hat.subject
  have hkey : e.tx.key = k := congrArg Channel.key htx
  have hshape := (hi.subject hat.subject).1
  obtain ⟨hcontent, hslot, hlatest, hseq⟩ :=
    KeyEvent.react_stores s.shell.inner.defaults c.now e hkev
  rw [← Inner.content_after s.shell.inner k kev] at hcontent
  have hentry : s'.shell.inner.entry e.tx.key = some (s.shell.inner.after c.now k kev e) := by
    rw [hkey]
    exact hat.entry (hi.handled hc)
  have hafter : (s.shell.inner.after c.now k kev e).tx = e.tx := (Inner.after_frame k kev e).1
  have hdata := congrArg Content.data hcontent
  have hdataSeq : (s.shell.inner.after c.now k kev e).dataSeq = e.seq + 1 :=
    congrArg Content.dataSeq hcontent
  have hflies : (s.shell.inner.after c.now k kev e).inflight = _ :=
    Inner.after_of (f := EntryCore.inflight) (fun _ _ _ _ => rfl) k kev e
  have hkeeps : (s.shell.inner.after c.now k kev e).seq = _ :=
    Inner.after_of (f := EntryCore.seq) (fun _ _ _ _ => rfl) k kev e
  have hempty : (s.shell.inner.after c.now k kev e).optimistic = _ :=
    Inner.after_of (f := EntryCore.optimistic) (fun _ _ _ _ => rfl) k kev e
  refine ⟨e.tx, s.shell.inner.after c.now k kev e, hkey, ?_, ?_⟩
  · refine ⟨hentry, hafter, hdata, congrArg Content.error hcontent, ?_, ?_, ?_, ?_⟩
    · exact hempty.trans hslot
    · calc (s.shell.inner.after c.now k kev e).errorSeq = e.errorSeq :=
            congrArg Content.errorSeq hcontent
        _ < e.seq + 1 := Nat.lt_succ_of_le hshape.errorSeq
        _ = _ := hdataSeq.symm
    · rw [hflies, hkeeps, hdataSeq]
      exact hlatest
    · rw [hkeeps, hdataSeq]
      exact hseq
  · refine ⟨c, _, hcall, hentry, hafter, hdata, fun e₀ he₀ => ?_, ?_⟩
    · rw [hkey] at he₀
      rw [← hat.of_entry he₀]
      exact (Nat.lt_succ_of_le hshape.dataSeq).trans_eq hdataSeq.symm
    · rw [hkey]
      exact (Event.carries_of_stores hstores _).1

/-- Everything the entry of the key holds is this value, or was written since; and its errors were raised
since. -/
def Since (k : QueryKey) (v : V) (log : Log V F) (s : Client V F) : Prop :=
  ∀ e, s.shell.inner.entry k = some e → ∀ x, e.Holds x →
    (∀ value, x.data = some value → value = v ∨ ∃ r ∈ log, Wrote e.tx value r) ∧
      ∀ error, x.error = some error → ∃ r ∈ log, Raised e.tx error r

/-- The entry of the channel holds data, for as long as it is there. -/
def Retains (tx : Channel) (s : Client V F) : Prop :=
  ∀ e, s.shell.inner.entry tx.key = some e → e.tx = tx → ∀ x, e.Holds x → x.data.isSome

/-- The write left the entry with one content: there is nothing saved to go back to. -/
theorem Stored.holds {tx : Channel} {e : EntryCore V F} (h : s.Stored tx v e) {x : Content V}
    (hx : e.Holds x) : x = e.content := by
  rcases hx with hx | ⟨o, ho, -⟩
  · exact hx
  · cases h.slot.symm.trans ho

/-- Nothing but the value is held. -/
theorem Stored.since {tx : Channel} {e : EntryCore V F} (h : s.Stored tx v e) :
    Since tx.key v [] s := by
  intro e' he' x hx
  obtain rfl : e' = e := Option.some.inj (he'.symm.trans h.entry)
  rw [h.holds hx]
  refine ⟨fun value hvalue => .inl ?_, fun error herror => ?_⟩
  · exact Option.some.inj (hvalue.symm.trans h.data)
  · cases herror.symm.trans h.error

/-- The entry holds data. -/
theorem Stored.retains {tx : Channel} {e : EntryCore V F} (h : s.Stored tx v e) :
    Retains tx s := by
  intro e' he' _ x hx
  obtain rfl : e' = e := Option.some.inj (he'.symm.trans h.entry)
  rw [h.holds hx]
  exact Option.isSome_iff_exists.mpr ⟨v, h.data⟩

/-- A step stores what it writes, or what was held. -/
theorem Since.step {log : Log V F} (h : Since k v log s) (hi : s.shell.Inv) (hs : Step s a s') :
    Since k v (log ++ [⟨s, a, s'⟩]) s' := by
  have hold : ∀ e, s.shell.inner.entry k = some e → ∀ x, e.Holds x →
      (∀ value, x.data = some value →
          value = v ∨ ∃ r ∈ log ++ [⟨s, a, s'⟩], Wrote e.tx value r) ∧
        ∀ error, x.error = some error → ∃ r ∈ log ++ [⟨s, a, s'⟩], Raised e.tx error r := by
    intro e he x hx
    obtain ⟨hdata, herror⟩ := h e he x hx
    refine ⟨fun value hvalue => (hdata value hvalue).imp_right ?_, fun error he => ?_⟩
    · rintro ⟨r, hr, hwrote⟩
      exact ⟨r, List.mem_append_left _ hr, hwrote⟩
    · obtain ⟨r, hr, hraised⟩ := herror error he
      exact ⟨r, List.mem_append_left _ hr, hraised⟩
  intro e' he' x hx
  rcases hs.holds hi he' hx with ⟨e, he, htx, hx⟩ | ⟨rfl, -⟩ | ⟨c, kev, e, hcall, hat, htx, hmade⟩
  · exact htx ▸ hold e he x hx
  · exact ⟨fun _ hvalue => (by cases hvalue), fun _ herror => (by cases herror)⟩
  · have hnow : (⟨s, a, s'⟩ : Trace.Record (Client V F) (Act V F)) ∈ log ++ [⟨s, a, s'⟩] := by simp
    obtain ⟨hwrote, hraised⟩ := hs.makes hi hcall hat hmade
    -- What the event does not bring was there, or the entry is new.
    have hbefore : (∀ value, e.data = some value →
          value = v ∨ ∃ r ∈ log ++ [⟨s, a, s'⟩], Wrote e'.tx value r) ∧
        ∀ error, e.error = some error → ∃ r ∈ log ++ [⟨s, a, s'⟩], Raised e'.tx error r := by
      rcases (hi.subject hat.subject).2.2.2 with he | ⟨-, rfl, -⟩
      · exact htx ▸ hold e he e.content (.inl rfl)
      · exact ⟨fun _ hvalue => (by cases hvalue), fun _ herror => (by cases herror)⟩
    refine ⟨fun value hvalue => ?_, fun error herror => ?_⟩
    · rcases hwrote with hnew | hsame
      · exact .inr ⟨_, hnow, htx ▸ hnew value hvalue⟩
      · exact hbefore.1 value (hsame.symm.trans hvalue)
    · rcases hraised with hnew | hsame
      · exact ⟨_, hnow, htx ▸ hnew error herror⟩
      · exact hbefore.2 error (hsame.symm.trans herror)

/-- A step takes the data of an entry only together with the entry. -/
theorem Retains.step {tx : Channel} (h : Retains tx s) (hi : s.shell.Inv)
    (hborn : tx.incarnation < s.shell.inner.nextIncarnation) (hs : Step s a s') :
    Retains tx s' := by
  intro e' he' htx' x hx
  rcases hs.holds hi he' hx with ⟨e, he, htx, hx⟩ | ⟨-, hnew⟩ | ⟨c, kev, e, -, hat, htx, hmade⟩
  · exact h e he (htx.trans htx') x hx
  · rw [htx'] at hnew
    exact absurd hborn hnew.not_gt
  · have hdata : e.data.isSome := by
      rcases (hi.subject hat.subject).2.2.2 with he | ⟨-, rfl, -⟩
      · exact h e he (htx.trans htx') e.content (.inl rfl)
      · rw [← htx', ← htx] at hborn
        exact absurd hborn (lt_irrefl _)
    cases hmade with
    | landed _ =>
        show Option.isSome (if _ then _ else _) = true
        split_ifs
        · exact hdata
        · rfl
    | failed _ => exact hdata
    | set => rfl
    | optimistic => rfl
    | populated _ => rfl
    | rejected _ => exact hdata

/-- The value is the newest thing there: whatever is shown and is not older was written here. -/
theorem Stored.late {p : Trace.Record (Client V F) (Act V F)} {tx : Channel} {e : EntryCore V F}
    (h : s.Stored tx v e) (hwrote : Wrote tx v p) (hbound : s.Bounded) (hdated : s.Dated) :
    Late tx e.dataSeq [p] s := by
  intro x hx
  obtain ⟨herr, hle, hfly⟩ := hbound tx e h.entry h.tx x hx
  have hseq := h.seq
  refine ⟨fun ht value hvalue => ⟨p, List.mem_singleton_self p, ?_⟩, fun ht => ?_⟩
  · have hsame : x.dataSeq = e.dataSeq := by
      rcases h.latest with hflies | hlatest
      · have hlt := hfly hflies
        omega
      · omega
    have hdata := hdated tx x e.content hx (.inl ⟨e, h.entry, h.tx, .inl rfl⟩) hsame
    have hv : some v = some value := h.data.symm.trans (hdata.symm.trans hvalue)
    cases hv
    exact hwrote
  · exact absurd (ht.trans herr) h.errorSeq.not_ge

/-- Of a channel to come nothing is shown. -/
theorem late_unborn (hchan : s.Channels) (hi : s.shell.Inv) {rx : Channel} (target : Nat)
    (hborn : s.shell.inner.nextIncarnation ≤ rx.incarnation) (log : Log V F) :
    Late rx target log s := by
  intro x hx
  rw [hchan.shows_unborn hi hborn hx]
  exact ⟨fun _ _ hvalue => (by cases hvalue), fun _ _ herror => (by cases herror)⟩

end stored

section run

variable [Platform] {defaults : QueryOptions} {log : Log V F} {s : Client V F}

/-- Incarnations are not given back. -/
theorem Run.nextIncarnation_le (h : Run defaults log s) {later : Log V F} {s' : Client V F}
    (hr : Trace.Run Step s later s') :
    s.shell.inner.nextIncarnation ≤ s'.shell.inner.nextIncarnation := by
  induction hr with
  | nil => exact le_refl _
  | snoc hr hs ih => exact ih.trans (Client.nextIncarnation_le (Run.inv (h.trans hr)) hs)

/-- The entry of a key is the one that was there, or a later incarnation. -/
theorem Run.descends (h : Run defaults log s) {later : Log V F} {s' : Client V F}
    (hr : Trace.Run Step s later s') {tx : Channel} {e : EntryCore V F}
    (he : s.shell.inner.entry tx.key = some e) {e' : EntryCore V F}
    (he' : s'.shell.inner.entry tx.key = some e') :
    e'.tx = e.tx ∧ e.seq ≤ e'.seq ∨ s.shell.inner.nextIncarnation ≤ e'.tx.incarnation := by
  induction hr generalizing e' with
  | nil =>
      obtain rfl : e' = e := Option.some.inj (he'.symm.trans he)
      exact .inl ⟨rfl, le_refl _⟩
  | snoc hr hs ih =>
      have hm := h.trans hr
      rcases hs.descends (Run.inv hm) he' with ⟨e₁, he₁, htx, hseq⟩ | hnew
      · rcases ih he₁ with ⟨hsame, hle⟩ | hborn
        · exact .inl ⟨htx.symm.trans hsame, hle.trans hseq⟩
        · exact .inr (htx ▸ hborn)
      · exact .inr ((Run.nextIncarnation_le h hr).trans hnew)

/-- At the write already: whatever meets the target of a later wait was written here. -/
theorem Stored.late_wait {p : Trace.Record (Client V F) (Act V F)} (h : Run defaults log p.post)
    {tx : Channel} {v : V} {e : EntryCore V F} (hstored : p.post.Stored tx v e)
    (hwrote : Wrote tx v p) {later : Log V F} (hr : Trace.Run Step p.post later s)
    {e' : EntryCore V F} (he' : s.shell.inner.entry tx.key = some e') :
    Late e'.tx e'.seq [p] p.post := by
  rcases Run.descends h hr hstored.entry he' with ⟨htx, hseq⟩ | hnew
  · have hle : e.dataSeq ≤ e'.seq := ((Run.inv h).shape _ e hstored.entry).dataSeq.trans hseq
    intro x hx
    rw [htx, hstored.tx] at hx ⊢
    obtain ⟨hdata, herror⟩ := hstored.late hwrote (Run.bounded h) (Run.dated h) x hx
    exact ⟨fun ht => hdata (hle.trans ht), fun ht => herror (hle.trans ht)⟩
  · exact late_unborn (Run.channels h) (Run.inv h) _ hnew _

/-- A waiter that came late stays so. -/
theorem Late.runs {rx : Channel} {target : Nat} {ahead : Log V F} (h : Run defaults log s)
    (hlate : Late rx target ahead s) {later : Log V F} {s' : Client V F}
    (hr : Trace.Run Step s later s') : Late rx target (ahead ++ later) s' := by
  induction hr with
  | nil => exact (List.append_nil ahead).symm ▸ hlate
  | snoc hr hs ih =>
      have hm := h.trans hr
      rw [← List.append_assoc]
      exact ih.step (Run.channels hm) (Run.inv hm) hs

/-- Along a run every value is the one that was written, or was written since. -/
theorem Since.run {k : QueryKey} {v : V} (h : Run defaults log s) (hsince : Since k v [] s)
    {later : Log V F} {s' : Client V F} (hr : Trace.Run Step s later s') : Since k v later s' := by
  induction hr with
  | nil => exact hsince
  | snoc hr hs ih => exact ih.step (Run.inv (h.trans hr)) hs

/-- Along a run the entry keeps data as long as it is there. -/
theorem Retains.run {tx : Channel} (h : Run defaults log s) (hretains : Retains tx s)
    (hborn : tx.incarnation < s.shell.inner.nextIncarnation) {later : Log V F} {s' : Client V F}
    (hr : Trace.Run Step s later s') : Retains tx s' := by
  induction hr with
  | nil => exact hretains
  | snoc hr hs ih =>
      exact ih.step (Run.inv (h.trans hr))
        (hborn.trans_le (Run.nextIncarnation_le h hr)) hs

/-- **A caller that waits** was told so by its last `Read`. -/
theorem looking_since {m : Client V F} {n : Nat} {c : Call V F} (hs : Step s (.read n c) m)
    {later : Log V F} {s' : Client V F} (hr : Trace.Run Step m later s')
    (hnone : ∀ y ∈ later, ∀ c, y.label ≠ .read n c) {w : Waiter V F}
    (hw : (s'.callers n).waiter? = some w) : m.callers n = .looking w := by
  refine hr.carry (J := fun t => ∀ w, (t.callers n).waiter? = some w → m.callers n = .looking w)
    (fun w hw => ?_) hnone (fun r hs hno hJ w hw => ?_) w hw
  · rcases hs.waiter hw with hold | ⟨c, -, -, -, -, hlooking⟩
    · cases hs with
      | read hn _ _ =>
          rw [hn] at hold
          cases hold
    · exact hlooking
  · rcases hs.waiter hw with hold | ⟨c, ha, -⟩
    · exact hJ w hold
    · exact absurd ha (hno c)

end run

/-! ## The law -/

/-- A result that respects the write of the value `v` to the entry of `tx`: the value, or one that was
written later; an error that was raised later; a `Miss` only when the entry is gone. -/
def Honours (tx : Channel) (v : V) (req : Request V F) (later : Log V F) :
    Except (FetchError V) V → Prop
  | .ok value => value = v ∨ ∃ r ∈ later, ∃ rx, rx.key = tx.key ∧ Wrote rx value r
  | .error (.fetch error) => ∃ r ∈ later, ∃ rx, rx.key = tx.key ∧ Raised rx error r
  | .error .miss => req.policy = .cacheOnly ∧
    ∃ r ∈ later, ∀ e, r.post.shell.inner.entry tx.key = some e → e.tx ≠ tx
  | .error .noFetcher => False

section law

variable [Platform] {defaults : QueryOptions} {log : Log V F} {s : Client V F} {tx : Channel}
  {v : V} {req : Request V F} {later : Log V F} {result : Except (FetchError V) V}

/-- What respects the write with a log respects it with a longer one. -/
theorem Honours.mono (h : Honours tx v req later result) {later' : Log V F}
    (hsub : ∀ r ∈ later, r ∈ later') : Honours tx v req later' result := by
  cases result with
  | ok value =>
      exact h.imp_right fun hwrote => by
        obtain ⟨r, hr, hwrote⟩ := hwrote
        exact ⟨r, hsub r hr, hwrote⟩
  | error error =>
      cases error with
      | fetch error =>
          obtain ⟨r, hr, hraised⟩ := h
          exact ⟨r, hsub r hr, hraised⟩
      | miss =>
          obtain ⟨hpolicy, r, hr, hgone⟩ := h
          exact ⟨hpolicy, r, hsub r hr, hgone⟩
      | noFetcher => exact h

/-- What the cache offers respects the write. -/
theorem honours_of_offers (hi : s.shell.Inv) (hsince : Since tx.key v later s) (hretains : Retains tx s)
    (hkey : tx.key = req.key) (hnow : ∃ r ∈ later, r.post = s) (h : s.Offers req result) :
    Honours tx v req later result := by
  have htx : ∀ {e : EntryCore V F}, s.shell.inner.entry tx.key = some e → e.tx.key = tx.key := by
    intro e he
    rw [hi.tx _ e he]
  cases result with
  | ok value =>
      obtain ⟨e, he, hdata⟩ := h
      rw [← hkey] at he
      refine ((hsince e he e.content (.inl rfl)).1 value hdata).imp_right ?_
      rintro ⟨r, hr, hwrote⟩
      exact ⟨r, hr, e.tx, htx he, hwrote⟩
  | error error =>
      cases error with
      | fetch error =>
          obtain ⟨e, he, herror⟩ := h
          rw [← hkey] at he
          obtain ⟨r, hr, hraised⟩ := (hsince e he e.content (.inl rfl)).2 error herror
          exact ⟨r, hr, e.tx, htx he, hraised⟩
      | miss =>
          obtain ⟨hpolicy, hempty⟩ := h
          obtain ⟨r, hr, rfl⟩ := hnow
          refine ⟨hpolicy, r, hr, fun e he htx => ?_⟩
          have hsome := hretains e he htx e.content (.inl rfl)
          rw [hkey] at he
          have hnone : e.content.data = none := (hempty e he).1
          rw [hnone] at hsome
          cases hsome
      | noFetcher => exact h

/-- What a look takes from the channel respects the write, if it waits for something later. -/
theorem honours_of_look {p : Trace.Record (Client V F) (Act V F)} {e : EntryCore V F}
    (hstored : p.post.Stored tx v e) {c : Call V F} (hp : p.label.call? = some c)
    (hstores : c.event.stores tx.key v) {w : Waiter V F} (hkey : w.rx.key = tx.key)
    (hlate : Late w.rx w.target (p :: later) s)
    (hlook : w.looked (s.channels w.rx) = .done req result) : Honours tx v req later result := by
  obtain ⟨hdata, herror⟩ := hlate (s.channels w.rx).value.content (.inr ⟨_, .inl rfl, rfl⟩)
  obtain ⟨-, ⟨value, rfl, hvalue, hmet⟩ | ⟨error, rfl, herr, -, hmet⟩⟩ := Waiter.looked_done hlook
  · obtain ⟨r, hr, hwrote⟩ := hdata hmet value hvalue
    rcases List.mem_cons.mp hr with rfl | hr
    · -- It is the write itself.
      obtain ⟨_, e', -, he', -, hdata', -⟩ := hwrote
      rw [hkey, hstored.entry] at he'
      cases he'
      exact .inl (Option.some.inj (hdata'.symm.trans hstored.data))
    · exact .inr ⟨r, hr, w.rx, hkey, hwrote⟩
  · obtain ⟨r, hr, hraised⟩ := herror hmet error herr
    rcases List.mem_cons.mp hr with rfl | hr
    · obtain ⟨c', _, hc', -, -, -, hraises⟩ := hraised
      cases hp.symm.trans hc'
      exact absurd hraises ((Event.carries_of_stores hstores none).2 _ _)
    · exact ⟨r, hr, w.rx, hkey, hraised⟩

/-- **The results of a later `Read`**, by induction on what follows it. -/
theorem Stored.honoured {p q : Trace.Record (Client V F) (Act V F)}
    (h : Run defaults log p.post) {e : EntryCore V F} (hstored : p.post.Stored tx v e)
    (hwrote : Wrote tx v p) {c₀ : Call V F} (hp : p.label.call? = some c₀)
    (hstores : c₀.event.stores tx.key v) {mid : Log V F} (hmid : Trace.Run Step p.post mid q.pre)
    {n : Nat} {c : Call V F} (hq : q.label = .read n c) (hqstep : Step q.pre q.label q.post)
    (hreading : q.pre.callers n = .reading req) (hkey : tx.key = req.key) {since : Log V F}
    (hr : Trace.Run Step q.post since s) (hnone : ∀ y ∈ since, ∀ c, y.label ≠ .read n c)
    (hdone : s.callers n = .done req result) : Honours tx v req (mid ++ q :: since) result := by
  have hread : Trace.Run Step p.post (mid ++ [q]) q.post := hmid.snoc hqstep
  rw [hq] at hqstep
  induction hr generalizing result with
  | nil =>
      rcases hqstep.result hdone with hold | ⟨c', hlabel, -, hev, hpass⟩ | ⟨w, hlabel, -⟩
      · cases hreading.symm.trans hold
      · cases hlabel
        have hborn : tx.incarnation < p.post.shell.inner.nextIncarnation := by
          rw [← hstored.tx, (Run.inv h).tx _ e hstored.entry]
          exact (Run.inv h).incarnation _ e hstored.entry
        have hoffers := offers_of_pass (Run.inv (h.trans hmid)) (hqstep.calls rfl) hev hpass
        refine honours_of_offers (Run.inv (h.trans hread)) (hstored.since.run h hread)
          (hstored.retains.run h hborn hread) hkey ⟨q, ?_, rfl⟩ hoffers
        exact List.mem_append_right _ (List.mem_singleton_self q)
      · cases hlabel
  | @snoc ys t t' a hr hs ih =>
      have hbefore : ∀ y ∈ ys, ∀ c, y.label ≠ .read n c := fun y hy =>
        hnone y (List.mem_append_left _ hy)
      have hsub : ∀ r ∈ mid ++ q :: ys, r ∈ mid ++ q :: (ys ++ [⟨t, a, t'⟩]) := by
        intro r hr
        rw [← List.cons_append, ← List.append_assoc]
        exact List.mem_append_left _ hr
      rcases hs.result hdone with hold | ⟨c', rfl, -⟩ | ⟨w, -, hn, hlook⟩
      · exact (ih hbefore hold).mono hsub
      · exact absurd rfl (hnone _ (List.mem_append_right _ (List.mem_singleton_self _)) c')
      · -- It waits for the seq the entry had at the `Read`, which is not before the write.
        have hw := looking_since hqstep hr hbefore (w := w) (by rw [hn]; rfl)
        obtain ⟨hcalls, hev, hout⟩ := hqstep.told hw
        obtain ⟨-, -, -, hrx, e', he', -, htx, -, hseq, -⟩ :=
          (Run.inv (h.trans hmid)).read_wait hcalls.shell hev hout
        have hreq : w.req = req := (Waiter.looked_done hlook).1
        rw [hreq, ← hkey] at he' hrx
        have hlate := hstored.late_wait h hwrote hread he'
        rw [htx, hseq] at hlate
        have hend := hlate.runs h (hread.trans hr)
        rw [List.append_assoc] at hend
        exact (honours_of_look hstored hp hstores hrx hend hlook).mono hsub

/-- **Read your writes.** In every run, if a step stores a value locally (`set`, or a mutation that commits
and populates) and a call of `fetch()` has its result from a later `Read` of the same key, under any
policy, then the result is that value, or one that was written after it; an error was raised after it; and
a `Miss` means that the entry was collected since. -/
theorem read_your_writes (h : Run defaults log s) {before mid since : Log V F}
    {p q : Trace.Record (Client V F) (Act V F)} (hlog : log = before ++ p :: (mid ++ q :: since))
    {c₀ : Call V F} (hp : p.label.call? = some c₀) (hstores : c₀.event.stores req.key v) {n : Nat}
    {c : Call V F} (hq : q.label = .read n c) (hreading : q.pre.callers n = .reading req)
    (hnone : ∀ y ∈ since, ∀ c, y.label ≠ .read n c) (hdone : s.callers n = .done req result) :
    ∃ tx e, tx.key = req.key ∧ p.post.Stored tx v e ∧
      Honours tx v req (mid ++ q :: since) result := by
  subst hlog
  obtain ⟨hbefore, hpstep, hmid, hqstep, -⟩ := h.between
  have hassoc : Run defaults ((before ++ p :: mid) ++ q :: since) s := by
    rw [List.append_assoc]
    exact h
  obtain ⟨-, -, hsince⟩ := hassoc.middle
  obtain ⟨tx, e, hkey, hstored, hwrote⟩ := hpstep.stored (Run.inv hbefore) hp hstores
  have hafter : Run defaults (before ++ [⟨p.pre, p.label, p.post⟩]) p.post := hbefore.snoc hpstep
  exact ⟨tx, e, hkey, hstored, hstored.honoured hafter hwrote hp (hkey ▸ hstores) hmid hq hqstep
    hreading hkey hsince hnone hdone⟩

end law

section witness

attribute [local instance] Shell.exampleClock

/-- A value is set and goes stale; a caller that wants a fresh one gets what was written after it. -/
theorem read_your_writes_example : ∃ (p q : Trace.Record (Client Nat Unit) (Act Nat Unit))
    (mid since : Log Nat Unit) (s : Client Nat Unit) (c₀ c : Call Nat Unit) (req : Request Nat Unit),
      Run .default (p :: (mid ++ q :: since)) s ∧ p.label.call? = some c₀ ∧
        c₀.event.stores req.key 5 ∧ q.label = .read 0 c ∧ s.callers 0 = .done req (.ok 6) ∧
        ∃ r ∈ mid ++ q :: since, ∃ rx, rx.key = req.key ∧ Wrote rx 6 r := by
  have hfacts : (((init .default : Client Nat Unit).exec1 (.dispatch (.mutateSet ⟨0, []⟩ 5) 0 [])).bind
      fun r => (r.2.exec staleRead.tail).bind fun m => (m.2.exec1 (.read 0 2)).bind fun q =>
        (q.2.exec staleRefetch).map fun t =>
          (Phase.waits? (q.2.callers 0), t.2.nextValue? 0, t.1.all fun r => r.label.caller?.isNone)) =
      some (some (⟨0, []⟩, .ensureFresh, 2), some 6, true) := by decide +kernel
  obtain ⟨⟨a, s₁⟩, hset, hfacts⟩ := Option.bind_eq_some_iff.mp hfacts
  obtain ⟨⟨mid, s₂⟩, hmid, hfacts⟩ := Option.bind_eq_some_iff.mp hfacts
  obtain ⟨⟨b, s₃⟩, hread, hfacts⟩ := Option.bind_eq_some_iff.mp hfacts
  obtain ⟨⟨since, s₄⟩, hsince, hfacts⟩ := Option.map_eq_some_iff.mp hfacts
  simp only [Prod.mk.injEq] at hfacts
  obtain ⟨hwaits, hnext, hall⟩ := hfacts
  obtain ⟨c₀, rfl, hev⟩ := labels_of_exec1 hset
  obtain ⟨c, hs⟩ := read_of_exec1 hread
  obtain ⟨w, hw, hkey, -, -⟩ := Phase.of_waits hwaits
  have hsince : Trace.Run Step s₃ since s₄ := run_of_exec hsince
  have hquiet : ∀ x ∈ since, x.label.caller? = none := by
    intro x hx
    exact Option.isNone_iff_eq_none.mp (List.all_eq_true.mp hall x hx)
  have hkeep : s₄.callers 0 = s₃.callers 0 :=
    hsince.carry (J := fun t => t.callers 0 = s₃.callers 0) rfl hquiet fun r hs hn hJ =>
      (hs.caller 0).elim (fun hsame => hsame.trans hJ) fun hc => by
        rw [hn] at hc
        cases hc
  have hlooking : s₄.callers 0 = .looking w := hkeep.trans hw
  have hlook : Step s₄ (.look 0) (s₄.moved 0 (w.looked (s₄.channels w.rx))) := .look hlooking
  have hdone : (s₄.moved 0 (w.looked (s₄.channels w.rx))).callers 0 = .done w.req (.ok 6) := by
    rw [moved_self, looked_of_nextValue hnext hlooking]
  have hreading : s₂.callers 0 = .reading w.req := by
    rcases hs.waiter (n := 0) (w := w) (by rw [hw]; rfl) with hold | ⟨_, -, hreading, -⟩
    · cases hs with
      | read hn _ _ =>
          rw [hn] at hold
          cases hold
    · exact hreading
  have hrun : Run .default _ _ := ((((Trace.Run.nil.snoc (step_of_exec1 hset)).trans
    (run_of_exec hmid)).snoc hs).trans hsince).snoc hlook
  simp only [List.append_assoc, List.nil_append, List.cons_append] at hrun
  have hstores : c₀.event.stores w.req.key 5 := by
    rw [hev, hkey]
    exact ⟨rfl, rfl⟩
  have hnone : ∀ y ∈ since ++ [⟨s₄, .look 0, s₄.moved 0 (w.looked (s₄.channels w.rx))⟩],
      ∀ c, y.label ≠ .read 0 c := by
    intro y hy c hread
    rcases List.mem_append.mp hy with hy | hy
    · have hcaller := hquiet y hy
      rw [hread] at hcaller
      cases hcaller
    · cases List.mem_singleton.mp hy
      cases hread
  obtain ⟨tx, e, htx, -, hhonours⟩ := read_your_writes hrun (List.nil_append _).symm rfl hstores rfl
    hreading hnone hdone
  rcases hhonours with hsame | ⟨r, hr, rx, hrx, hwrote⟩
  · cases hsame
  · exact ⟨_, _, _, _, _, c₀, c, w.req, hrun, rfl, hstores, rfl, hdone, r, hr, rx, hrx.trans htx,
      hwrote⟩

end witness

end Client

end SwrCore
