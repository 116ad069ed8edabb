import SwrCore.Cell.Content
import SwrCore.Client.Run

/-!
# The channel is a faithful view of its entry

* `Effect.notices` — the notifications of a key in a batch.
* `Shell.Inv.notices_of_at`, `Shell.Inv.snapshotNow_after` — a call notifies a key at most once, with
  the state it leaves, and whenever that state looks different from the one before.
* `Client.Channels` — every channel tracks its entry, in the sense of `LatestWins.Tracks`.
* `Client.channel_faithful` — over every run: the version in a channel never decreases, and a channel
  with nothing on its way shows the current state of the entry.
-/

set_option linter.unusedSectionVars false

namespace SwrCore

variable {V F : Type}

/-! ## The notifications of a batch -/

/-- The notifications of a key in a batch. -/
def Effect.notices (k : QueryKey) (effects : List (Effect V F)) : List (Channel × Snapshot V) :=
  effects.filterMap fun
    | .notify tx snapshot => if tx.key = k then some (tx, snapshot) else none
    | _ => none

/-- The notices of a batch are those of its parts. -/
theorem Effect.notices_append (k : QueryKey) (xs ys : List (Effect V F)) :
    notices k (xs ++ ys) = notices k xs ++ notices k ys :=
  List.filterMap_append

/-- The notices of a key are among the effects of that key. -/
theorem Effect.notices_of (k : QueryKey) (effects : List (Effect V F)) :
    notices k (Effect.of k effects) = notices k effects := by
  induction effects with
  | nil => rfl
  | cons x xs ih =>
      have hcons : Effect.of k (x :: xs) = (if x.key = k then [x] else []) ++ Effect.of k xs := by
        by_cases hk : x.key = k <;> simp [Effect.of, hk]
      have hsplit : x :: xs = [x] ++ xs := rfl
      rw [hcons, hsplit, notices_append, notices_append, ih]
      congr 1
      cases x with
      | notify tx snapshot =>
          by_cases hk : tx.key = k
          · rw [if_pos (show (Effect.notify tx snapshot : Effect V F).key = k from hk)]
          · rw [if_neg (show (Effect.notify tx snapshot : Effect V F).key ≠ k from hk)]
            simp [notices, hk]
      | _ => split_ifs <;> rfl

/-- Effects without a `Notify` hold no notices. -/
theorem Effect.notices_eq_nil {k : QueryKey} {effects : List (Effect V F)}
    (h : ∀ x ∈ effects, ∀ tx snapshot, x ≠ .notify tx snapshot) : notices k effects = [] := by
  rw [notices, List.filterMap_eq_nil_iff]
  intro x hx
  cases x with
  | notify tx snapshot => exact absurd rfl (h _ hx tx snapshot)
  | _ => rfl

/-- A notice is a `Notify` on a channel of the key. -/
theorem Effect.mem_notices {k : QueryKey} {effects : List (Effect V F)} {tx : Channel}
    {snapshot : Snapshot V} :
    (tx, snapshot) ∈ notices k effects ↔ tx.key = k ∧ .notify tx snapshot ∈ effects := by
  rw [notices, List.mem_filterMap]
  constructor
  · rintro ⟨x, hx, h⟩
    cases x with
    | notify tx' snapshot' =>
        simp only [Option.ite_none_right_eq_some, Option.some.injEq, Prod.mk.injEq] at h
        obtain ⟨hk, rfl, rfl⟩ := h
        exact ⟨hk, hx⟩
    | _ => cases h
  · rintro ⟨hk, hx⟩
    exact ⟨_, hx, if_pos hk⟩

namespace Shell

section step

variable [Platform] {s s' : Shell V F} {c : Call V F} (h : s.Inv) (hs : Step s c s')

include h hs

/-- A call notifies the key it acts on once, if the handler marked it, and with the state after the
whole event. -/
theorem Inv.notices_of_at {k : QueryKey} {kev : KeyEvent V F} {e : EntryCore V F}
    (hat : s.inner.At c.event k kev e) :
    Effect.notices k c.out.effects =
      if kev.notifies s.inner.defaults c.now e
        then [(e.tx, (s.inner.after c.now k kev e).snapshotNow)] else [] := by
  have htx : (kev.react s.inner.defaults c.now e).tx = e.tx :=
    (EntryCore.SameFrame.react s.inner.defaults c.now e kev).tx
  have hkey : e.tx.key = k := by rw [h.subject_tx hat.subject]
  have hfetches : Effect.notices k (kev.marks s.inner.defaults c.now k e).effects = [] := by
    refine Effect.notices_eq_nil fun x hx tx snapshot => ?_
    obtain ⟨_, _, _, rfl⟩ := Inner.marks_effects c.now s.inner.defaults k e kev x hx
    exact nofun
  have htimers : Effect.notices k ((kev.react s.inner.defaults c.now e).timers s.inner.defaults
      c.now k (kev.marks s.inner.defaults c.now k e)) = [] := by
    refine Effect.notices_eq_nil fun x hx tx snapshot => ?_
    obtain ⟨_, _, _, rfl⟩ := Inner.timers_eq hx
    exact nofun
  rw [← Effect.notices_of, hat.effects (h.handled hs), EntryCore.batch, Effect.notices_append,
    Effect.notices_append, hfetches, htimers, List.nil_append, List.nil_append]
  have hmark : (kev.marks s.inner.defaults c.now k e).notify =
    kev.notifies s.inner.defaults c.now e := rfl
  rw [hmark]
  cases kev.notifies s.inner.defaults c.now e with
  | false => rfl
  | true => simp [Effect.notices, htx, hkey, Inner.after]

/-- A key that the event does not act on is not notified. -/
theorem Inv.notices_of_others {k : QueryKey}
    (hnone : ∀ kev e, ¬ s.inner.At c.event k kev e) : Effect.notices k c.out.effects = [] := by
  rw [← Effect.notices_of]
  have heffects : Effect.of k c.out.effects = [] := by
    refine List.eq_nil_iff_forall_not_mem.mpr fun x hx => ?_
    obtain ⟨hx, hk⟩ := Effect.mem_of.mp hx
    obtain ⟨kev, e, hat, -⟩ := (h.handled hs).effect hx
    rw [hk] at hat
    exact hnone kev e hat
  rw [heffects]
  rfl

/-- No batch notifies a key twice. -/
theorem Inv.notices_le (k : QueryKey) : (Effect.notices k c.out.effects).length ≤ 1 := by
  by_cases hat : ∃ kev e, s.inner.At c.event k kev e
  · obtain ⟨kev, e, hat⟩ := hat
    rw [h.notices_of_at hs hat]
    split_ifs <;> simp
  · push Not at hat
    rw [h.notices_of_others hs hat]
    exact Nat.zero_le 1

omit h hs in
/-- A marked entry takes the next version; what an unmarked one shows stays as it was. -/
theorem snapshotNow_after (inner : Inner V F) (now : Instant) (k : QueryKey)
    (kev : KeyEvent V F) (e : EntryCore V F) :
    (kev.notifies inner.defaults now e = true →
        (inner.after now k kev e).snapshotNow.version = e.snapVersion + 1) ∧
      (kev.notifies inner.defaults now e = false →
        (inner.after now k kev e).snapshotNow = e.snapshotNow) := by
  have hversion : (inner.after now k kev e).snapVersion =
      e.snapVersion + if kev.notifies inner.defaults now e then 1 else 0 := by
    rw [Inner.after, EntryCore.snapVersion_settled,
      (EntryCore.SameFrame.react inner.defaults now e kev).snapVersion]
    rfl
  refine ⟨fun hn => ?_, fun hn => ?_⟩
  · rw [hn, if_pos rfl] at hversion
    exact hversion
  · rw [hn] at hversion
    rw [EntryCore.snapshotNow, hversion, Inner.after, EntryCore.buildSnapshot_settled,
      KeyEvent.react_silent hn]
    rfl

/-- A notification shows the entry it is for, as the call left it. -/
theorem Inv.notify_entry {tx : Channel} {sn : Snapshot V}
    (hx : .notify tx sn ∈ c.out.effects) :
    ∃ e', s'.inner.entry tx.key = some e' ∧ e'.tx = tx ∧ sn = e'.snapshotNow := by
  obtain ⟨kev, e, hat, -, rfl, hsn⟩ := (h.handled hs).notify hx
  exact ⟨_, hat.entry (h.handled hs), (Inner.after_frame e.tx.key kev e).1, hsn⟩

/-- An entry that stays in the table and looks different is notified, once. -/
theorem Inv.notices_of_change {k : QueryKey} {e e' : EntryCore V F}
    (he : s.inner.entry k = some e) (he' : s'.inner.entry k = some e')
    (hne : e'.buildSnapshot 0 ≠ e.buildSnapshot 0) :
    Effect.notices k c.out.effects = [(e.tx, e'.snapshotNow)] := by
  rcases (h.handled hs).inversion he' with ⟨-, hsame⟩ | ⟨kev, e₀, hat, rfl⟩
  · rw [he] at hsame
    cases hsame
    exact absurd rfl hne
  · obtain rfl : e₀ = e := hat.of_entry he
    rw [h.notices_of_at hs hat]
    cases hn : kev.notifies s.inner.defaults c.now e₀ with
    | true => rfl
    | false =>
        refine absurd ?_ hne
        rw [Inner.after, EntryCore.buildSnapshot_settled, KeyEvent.react_silent hn]

/-- Every notification of a batch comes after every fetch it starts. -/
theorem Inv.fetches_before_notices {xs ys : List (Effect V F)} {tx : Channel} {sn : Snapshot V}
    (hx : c.out.effects = xs ++ .notify tx sn :: ys) (key : QueryKey) (incarnation seq : Nat)
    (fetcher : F) : .startFetch key incarnation seq fetcher ∉ ys := by
  obtain ⟨fetches, timers, notifies, heq, hf, ht, hn⟩ := (h.handled hs).shape
  intro hmem
  -- The notification can only lie in the last part, and what follows it lies there too.
  rw [heq, List.append_eq_append_iff] at hx
  rcases hx with ⟨zs, -, hz⟩ | ⟨zs, hz, hrest⟩
  · have hin : (.startFetch key incarnation seq fetcher : Effect V F) ∈ notifies := by
      rw [hz]
      exact List.mem_append_right _ (List.mem_cons_of_mem _ hmem)
    obtain ⟨_, _, hcontra⟩ := hn _ hin
    cases hcontra
  · cases zs with
    | nil =>
        have hin : (.startFetch key incarnation seq fetcher : Effect V F) ∈ notifies := by
          rw [List.nil_append] at hrest
          rw [← hrest]
          exact List.mem_cons_of_mem _ hmem
        obtain ⟨_, _, hcontra⟩ := hn _ hin
        cases hcontra
    | cons z zs =>
        obtain rfl : .notify tx sn = z := (List.cons_eq_cons.mp hrest).1
        have hin : (.notify tx sn : Effect V F) ∈ fetches ++ timers := by
          rw [hz]
          simp
        rcases List.mem_append.mp hin with hin | hin
        · obtain ⟨_, _, _, _, hcontra⟩ := hf _ hin
          cases hcontra
        · obtain ⟨_, _, _, _, hcontra⟩ := ht _ hin
          cases hcontra

end step

end Shell

namespace Client

/-! ## Channels track their entries -/

/-- Every channel tracks its entry, and the channel of an entry to come is fresh. -/
structure Channels (s : Client V F) : Prop where
  live : ∀ k e, s.shell.inner.entry k = some e →
    LatestWins.Tracks Snapshot.version e.snapshotNow (s.channels e.tx).value (s.travelling e.tx)
  unborn : ∀ tx, s.shell.inner.nextIncarnation ≤ tx.incarnation →
    s.channels tx = .new ∧ s.travelling tx = ∅

/-- With no `Notify` on its way, the channel of a stored entry shows its state. -/
theorem Channels.shown {s : Client V F} (h : s.Channels) {k : QueryKey} {e : EntryCore V F}
    (he : s.shell.inner.entry k = some e) (hquiet : ∀ sn, .notify e.tx sn ∉ s.pending) :
    (s.channels e.tx).value = e.snapshotNow :=
  (h.live k e he).settled (Set.eq_empty_iff_forall_notMem.mpr hquiet)

/-- A new client has nothing on its way, and no entries. -/
theorem channels_init (defaults : QueryOptions) : (init defaults : Client V F).Channels := by
  refine ⟨fun k e he => ?_, fun tx _ => ⟨rfl, ?_⟩⟩
  · cases (Shell.init_entry defaults k).symm.trans he
  · exact Set.eq_empty_iff_forall_notMem.mpr fun sn hsn => absurd hsn List.not_mem_nil

section step

variable [Platform] {s s' : Client V F} {a : Act V F}

/-- A call puts its notices on the way, behind those that are there. -/
theorem Calls.travelling {c : Call V F} (h : s.Calls c s') (tx : Channel) :
    s'.travelling tx = {sn | (tx, sn) ∈ Effect.notices tx.key c.out.effects} ∪
      s.travelling tx := by
  ext sn
  have hmem : sn ∈ s'.travelling tx ↔ .notify tx sn ∈ s'.pending := Iff.rfl
  have hmem' : sn ∈ s.travelling tx ↔ .notify tx sn ∈ s.pending := Iff.rfl
  rw [hmem, h.pending, List.mem_append, or_comm]
  simp only [Set.mem_union, Set.mem_ofPred_eq, Effect.mem_notices, true_and, hmem']

/-- The channel of the entry an event acts on tracks it, also when the event creates it. -/
theorem Channels.subject (h : s.Channels) (hi : s.shell.Inv) {k : QueryKey}
    {kev : KeyEvent V F} {e : EntryCore V F} (hsub : s.shell.inner.subject k kev = some e) :
    LatestWins.Tracks Snapshot.version e.snapshotNow (s.channels e.tx).value
      (s.travelling e.tx) := by
  rcases (hi.subject hsub).2.2.2 with he | ⟨-, rfl, -⟩
  · exact h.live k e he
  · obtain ⟨hchan, htrav⟩ := h.unborn ⟨k, s.shell.inner.nextIncarnation⟩ (le_refl _)
    have htx : (EntryCore.new k s.shell.inner.nextIncarnation : EntryCore V F).tx =
      ⟨k, s.shell.inner.nextIncarnation⟩ := rfl
    rw [htx, hchan, htrav]
    exact .refl _

/-- A call of `handle` keeps the channels in order: what it emits is newer than all before. -/
theorem Channels.call (h : s.Channels) (hi : s.shell.Inv) {c : Call V F} (hc : s.Calls c s') :
    s'.Channels := by
  have hh := hi.handled hc.shell
  refine ⟨fun k e' he' => ?_, fun tx htx => ?_⟩
  · rw [hc.channels, hc.travelling]
    rcases hh.inversion he' with ⟨hoff, he⟩ | ⟨kev, e, hat, rfl⟩
    · -- The event does not concern the key.
      have hnot : ∀ kev e, ¬ s.shell.inner.At c.event k kev e := fun _ _ hat => hat.not_off hoff
      have hkey : e'.tx.key = k := by rw [hi.tx k e' he]
      rw [hkey, hi.notices_of_others hc.shell hnot]
      simpa using h.live k e' he
    · have htracks := h.subject hi hat.subject
      have htx : (s.shell.inner.after c.now k kev e).tx = e.tx := (Inner.after_frame k kev e).1
      have hkey : e.tx.key = k := by rw [hi.subject_tx hat.subject]
      obtain ⟨hmarked, hsilent⟩ := Shell.snapshotNow_after s.shell.inner c.now k kev e
      rw [htx, hkey, hi.notices_of_at hc.shell hat]
      cases hn : kev.notifies s.shell.inner.defaults c.now e with
      | true =>
          have hlt : e.snapshotNow.version <
              (s.shell.inner.after c.now k kev e).snapshotNow.version := by
            rw [hmarked hn]
            exact Nat.lt_succ_self _
          have hset : {sn | (e.tx, sn) ∈ [(e.tx,
              (s.shell.inner.after c.now k kev e).snapshotNow)]} ∪ s.travelling e.tx =
              insert (s.shell.inner.after c.now k kev e).snapshotNow (s.travelling e.tx) := by
            ext sn
            simp
          rw [if_pos rfl, hset]
          exact htracks.publish hlt
      | false =>
          rw [hsilent hn]
          simpa using htracks
  · have hnext := hh.nextIncarnation
    obtain ⟨hchan, htrav⟩ := h.unborn tx (by omega)
    refine ⟨by rw [hc.channels, hchan], ?_⟩
    rw [hc.travelling, htrav, Set.union_empty, Set.eq_empty_iff_forall_notMem]
    intro sn hsn
    obtain ⟨kev, e, hat, -, rfl, -⟩ := hh.notify (Effect.mem_notices.mp hsn).2
    have hlt := (hi.after hc.shell hat).2.2.2.2
    rw [hi.subject_tx hat.subject] at htx
    exact absurd htx hlt.not_ge

/-- Only a `Notify` changes a channel, and only its own. -/
theorem executed_channels (s : Client V F) (x : Effect V F) (batches : List (List (Effect V F)))
    (tx : Channel) :
    ((s.executed x batches).channels tx = s.channels tx ∧ ∀ sn, x ≠ .notify tx sn) ∨
      ∃ sn, x = .notify tx sn ∧
        (s.executed x batches).channels tx = (s.channels tx).send sn := by
  cases x with
  | notify tx' sn =>
      by_cases htx : tx' = tx
      · subst htx
        refine .inr ⟨sn, rfl, ?_⟩
        simp [executed]
      · refine .inl ⟨?_, fun sn' h => htx (by cases h; rfl)⟩
        simp [executed, Function.update_of_ne (Ne.symm htx)]
  | _ =>
      refine .inl ⟨rfl, fun sn h => ?_⟩
      cases h

/-- So the execution of an effect keeps the channels in order. -/
theorem Channels.exec (h : s.Channels) {before after : List (List (Effect V F))}
    {x : Effect V F} {rest : List (Effect V F)} (hb : s.batches = before ++ (x :: rest) :: after) :
    (s.executed x (before ++ rest :: after)).Channels := by
  have hmem : ∀ tx sn, sn ∈ s.travelling tx ↔
      .notify tx sn = x ∨ sn ∈ (s.executed x (before ++ rest :: after)).travelling tx :=
    fun tx sn => mem_pending_executed hb
  have hother : ∀ tx, (∀ sn, x ≠ .notify tx sn) →
      (s.executed x (before ++ rest :: after)).travelling tx = s.travelling tx := by
    intro tx hx
    ext sn
    rw [hmem tx sn]
    exact ⟨.inr, fun h => h.resolve_left fun heq => hx sn heq.symm⟩
  refine ⟨fun k e he => ?_, fun tx htx => ?_⟩
  · have htracks := h.live k e he
    rcases executed_channels s x (before ++ rest :: after) e.tx with
      ⟨hchan, hx⟩ | ⟨sn, rfl, hchan⟩
    · rw [hchan, hother e.tx hx]
      exact htracks
    · rw [hchan, Watch.send_value]
      refine htracks.deliver ((hmem e.tx sn).mpr (.inl rfl)) ?_ ?_
      · exact fun y hy => (hmem e.tx y).mpr (.inr hy)
      · intro y hy
        rcases (hmem e.tx y).mp hy with heq | hy
        · cases heq
          exact Set.mem_insert _ _
        · exact Set.mem_insert_of_mem _ hy
  · obtain ⟨hnew, htrav⟩ := h.unborn tx htx
    have hx : ∀ sn, x ≠ .notify tx sn := by
      intro sn hx
      have hin : sn ∈ s.travelling tx := (hmem tx sn).mpr (.inl hx.symm)
      rw [htrav] at hin
      exact hin
    rcases executed_channels s x (before ++ rest :: after) tx with
      ⟨hchan, -⟩ | ⟨sn, rfl, -⟩
    · exact ⟨hchan.trans hnew, (hother tx hx).trans htrav⟩
    · exact absurd rfl (hx sn)

/-- Every step keeps the channels on the track of their entries. -/
theorem Channels.step (h : s.Channels) (hi : s.shell.Inv) (hs : Step s a s') : s'.Channels := by
  rcases hs.kinds with ⟨c, -, hc⟩ | ⟨_, _, _, _, -, hb, rfl⟩ | ⟨-, hstill⟩
  · exact h.call hi hc
  · exact h.exec hb
  · have htrav : ∀ tx, s'.travelling tx = s.travelling tx := by
      intro tx
      unfold Client.travelling
      rw [hstill.pending]
    refine ⟨fun k e he => ?_, fun tx htx => ?_⟩
    · rw [hstill.shell] at he
      rw [hstill.channels, htrav]
      exact h.live k e he
    · rw [hstill.shell] at htx
      rw [hstill.channels, htrav]
      exact h.unborn tx htx

/-- What a receiver saw stays seen. -/
theorem Step.saw (hs : Step s a s') {seen : Watch V} {tx : Channel}
    (h : seen.Saw (s.channels tx)) : seen.Saw (s'.channels tx) := by
  rcases hs.kinds with ⟨c, -, hc⟩ | ⟨before, x, rest, after, -, -, rfl⟩ | ⟨-, hstill⟩
  · rw [hc.channels]
    exact h
  · rcases executed_channels s x (before ++ rest :: after) tx with
      ⟨hchan, -⟩ | ⟨sn, -, hchan⟩
    · rw [hchan]
      exact h
    · rw [hchan]
      exact h.send sn
  · rw [hstill.channels]
    exact h

end step

section run

variable [Platform] {defaults : QueryOptions} {log : Log V F} {s : Client V F}

/-- In every run the channels are in order. -/
theorem Run.channels (h : Run defaults log s) : s.Channels :=
  h.keeps (channels_init defaults) fun _ _ _ hi hJ hs => hJ.step hi hs

/-- **The watch channel is a faithful, monotone view of the entry.** In every run of the client the
version a channel holds never decreases; and once no `Notify` for an entry is left to execute, its
channel holds exactly what the entry shows, in whatever order they were executed. Every call that
changes what an entry of the table shows emits exactly one `Notify` for it, with the state after the
whole event; it comes after every `StartFetch` of the batch; and no batch notifies a key twice. -/
theorem channel_faithful (h : Run defaults log s) :
    (∀ xs r ys, log = xs ++ r :: ys → ∀ tx,
      (r.pre.channels tx).value.version ≤ (r.post.channels tx).value.version ∧
        (r.post.channels tx).value.version ≤ (s.channels tx).value.version) ∧
    (∀ k e, s.shell.inner.entry k = some e → (∀ sn, .notify e.tx sn ∉ s.pending) →
      (s.channels e.tx).value = e.snapshotNow) ∧
    ∀ r ∈ log, ∀ c, r.label.call? = some c →
      (∀ k e e', r.pre.shell.inner.entry k = some e → r.post.shell.inner.entry k = some e' →
        e'.buildSnapshot 0 ≠ e.buildSnapshot 0 →
          Effect.notices k c.out.effects = [(e.tx, e'.snapshotNow)]) ∧
      (∀ k, (Effect.notices k c.out.effects).length ≤ 1) ∧
      ∀ xs ys tx sn, c.out.effects = xs ++ .notify tx sn :: ys →
        ∀ key incarnation seq fetcher, .startFetch key incarnation seq fetcher ∉ ys := by
  refine ⟨?_, fun k e he hnone => ?_, fun r hr c hc => ?_⟩
  · rintro xs r ys rfl tx
    obtain ⟨-, hstep, hrest⟩ := h.middle
    refine ⟨(hstep.saw (Watch.Saw.refl _)).version, ?_⟩
    have hsaw : (r.post.channels tx).Saw (s.channels tx) :=
      hrest.invariant (I := fun s => (r.post.channels tx).Saw (s.channels tx)) (Watch.Saw.refl _)
        fun _ _ _ hi hs => hs.saw hi
    exact hsaw.version
  · refine (h.channels.live k e he).settled ?_
    exact Set.eq_empty_iff_forall_notMem.mpr hnone
  · obtain ⟨_, _, -, hpre, hstep, -⟩ := h.of_mem hr
    have hcall := (hstep.calls hc).shell
    have hi := Run.inv hpre
    exact ⟨fun k e e' he he' hne => hi.notices_of_change hcall he he' hne,
      hi.notices_le hcall, fun xs ys tx sn hx => hi.fetches_before_notices hcall hx⟩

end run

section witness

attribute [local instance] Shell.exampleClock

/-- A `fetch()` call on a new key. -/
def exampleRequest (policy : ReadPolicy) : Request Nat Unit := ⟨⟨0, []⟩, policy, (), none⟩

/-- The commit of a fetch is published before the `Notify` of its start, which arrives late. -/
def overtaken : List (Input Nat Unit) :=
  [.call 0 (exampleRequest .staleWhileRevalidate), .read 0 0, .exec 0,
   .dispatch (.commitOk ⟨0, []⟩ 0 1 5) 1 [], .exec 1, .exec 1, .exec 0]

/-- A value that is set, published and received. -/
theorem channel_faithful_example : ∃ (log : Log Nat Unit) (s : Client Nat Unit),
    Run .default log s ∧ log.length = 7 ∧ ∃ e, s.shell.inner.entry ⟨0, []⟩ = some e ∧
      e.data = some 5 ∧ (s.channels e.tx).value = e.snapshotNow := by
  have hfacts : (((init .default : Client Nat Unit).exec overtaken).map fun r =>
      (r.1.length, r.2.pending, (r.2.shell.inner.entry ⟨0, []⟩).map EntryCore.data)) =
      some (7, [], some (some 5)) := by decide +kernel
  obtain ⟨⟨log, s⟩, hex, hl⟩ := Option.map_eq_some_iff.mp hfacts
  simp only [Prod.mk.injEq, Option.map_eq_some_iff] at hl
  obtain ⟨hlen, hpending, e, he, hdata⟩ := hl
  have hrun : Run .default log s := run_of_exec hex
  refine ⟨log, s, hrun, hlen, e, he, hdata, (channel_faithful hrun).2.1 _ e he fun sn hsn => ?_⟩
  rw [hpending] at hsn
  cases hsn

end witness

end Client

end SwrCore
