import SwrCore.Client.Errors
import SwrCore.Shell.Snapshots

/-!
# `EnsureFresh` results are no older than the call

An `EnsureFresh` read is told a target seq. A result that meets the target was written after the read as
long as nothing that can still be seen meets it already; but a write under an active mutation has the
seq that the next reader is told to wait for.

* `Event.carries`, `Event.raises`, `Client.Wrote`, `Client.Raised` — the writes of a value and of an
  error.
* `Client.Outrun` — under an active mutation, something that can still be seen already has the seq that
  the read is going to wait for.
* `Client.Late` — whatever meets the target was written since; every step keeps it so.
* `Client.Visible.reach` — whatever can still be seen can be seen next.
* `Client.ensure_fresh` — what the wait loop returns was written after the read, over every
  continuation, exactly when the read was not outrun.
* `Client.optimistic_value_returned` — a read that was outrun.
-/

set_option linter.unusedSectionVars false

namespace SwrCore

variable {V F : Type}

/-! ## Writes -/

/-- The event brings this value to the key. A commit may bring one that the comparator of the entry
takes for equal. -/
def Event.carries (k : QueryKey) (compare : Option (Compare V)) (v : V) : Event V F → Prop
  | .commitOk key _ _ value => key = k ∧ (value = v ∨ (compare.any fun eq => eq v value) = true)
  | .mutateSet key value => key = k ∧ value = v
  | .mutateBegin key optimistic => key = k ∧ optimistic = some v
  | .mutateCommit token result flags =>
    token.key = k ∧ result = .ok (some v) ∧ flags.populate = true
  | _ => False

/-- The event brings this error to the key. -/
def Event.raises (k : QueryKey) (error : V) : Event V F → Prop
  | .commitErr key _ _ error' => key = k ∧ error' = error
  | .mutateCommit token result _ => token.key = k ∧ result = .error error
  | _ => False

/-- An event as its key reads it carries the same. -/
def KeyEvent.carries (compare : Option (Compare V)) (v : V) : KeyEvent V F → Prop
  | .commitOk _ _ value => value = v ∨ (compare.any fun eq => eq v value) = true
  | .mutateSet value => value = v
  | .mutateBegin optimistic => optimistic = some v
  | .mutateCommit _ result flags => result = .ok (some v) ∧ flags.populate = true
  | _ => False

/-- An event as its key reads it brings the same error. -/
def KeyEvent.raises (error : V) : KeyEvent V F → Prop
  | .commitErr _ _ error' => error' = error
  | .mutateCommit _ result _ => result = .error error
  | _ => False

theorem Event.carries_of_on {k : QueryKey} {subId : Nat} {ev : Event V F} {kev : KeyEvent V F}
    (h : ev.on k subId = some kev) {compare : Option (Compare V)} {v : V}
    (hc : kev.carries compare v) : ev.carries k compare v := by
  cases Event.on_inv h with
  | commitOk => exact ⟨rfl, hc⟩
  | mutateSet => exact ⟨rfl, hc⟩
  | mutateBegin => exact ⟨rfl, hc⟩
  | mutateCommit hk => exact ⟨hk, hc⟩
  | _ => exact hc.elim

theorem Event.raises_of_on {k : QueryKey} {subId : Nat} {ev : Event V F} {kev : KeyEvent V F}
    (h : ev.on k subId = some kev) {error : V} (hf : kev.raises error) : ev.raises k error := by
  cases Event.on_inv h with
  | commitErr => exact ⟨rfl, hf⟩
  | mutateCommit hk => exact ⟨hk, hf⟩
  | _ => exact hf.elim

/-- What an event writes: a new value that it carries, or the value that was there; and an error that it
brings, or the error that was there. -/
theorem KeyEvent.Makes.written {e : EntryCore V F} (h : e.Shape) {kev : KeyEvent V F}
    {x : Content V} (hmade : kev.Makes e x) :
    ((e.dataSeq < x.dataSeq ∧ ∀ v, x.data = some v → kev.carries e.compare v) ∨
        x.data = e.data ∧ x.dataSeq = e.dataSeq) ∧
      ((∀ error, x.error = some error → kev.raises error) ∨
        x.error = e.error ∧ x.errorSeq = e.errorSeq) := by
  have hle := h.dataSeq
  cases hmade with
  | @landed incarnation seq value hd =>
      refine ⟨.inl ⟨(h.flying seq (EntryCore.dropsCommit_eq_false.mp hd).2.2).dataSeq,
        fun v hv => ?_⟩, .inl nofun⟩
      simp only at hv
      split_ifs at hv with hu
      · -- The comparator took the stored value for equal.
        refine .inr ?_
        unfold EntryCore.unchanged at hu
        rw [hv] at hu
        exact hu
      · exact .inl (Option.some.inj hv)
  | failed hd =>
      exact ⟨.inr ⟨rfl, rfl⟩, .inl fun error herr => Option.some.inj herr⟩
  | set =>
      refine ⟨.inl ⟨Nat.lt_succ_of_le hle, fun v hv => Option.some.inj hv⟩, .inl nofun⟩
  | optimistic =>
      refine ⟨.inl ⟨?_, fun v hv => hv⟩, .inr ⟨rfl, rfl⟩⟩
      exact Nat.lt_add_right 1 (Nat.lt_succ_of_le hle)
  | populated hp =>
      refine ⟨.inl ⟨Nat.lt_succ_of_le hle, fun v hv => ⟨?_, hp⟩⟩, .inl nofun⟩
      rw [← hv]
  | rejected hr =>
      refine ⟨.inr ⟨rfl, rfl⟩, .inl fun error herr => ?_⟩
      exact congrArg Except.error (Option.some.inj herr)

/-- A write keeps the comparator of the entry. -/
theorem KeyEvent.compare_of_carries [Platform] {e : EntryCore V F} {kev : KeyEvent V F} {v : V}
    (h : kev.carries e.compare v) (defaults : QueryOptions) (now : Instant) :
    (kev.react defaults now e).compare = e.compare := by
  have hnone : kev.compare? = none := by
    cases kev <;> first | rfl | exact h.elim
  rw [(KeyEvent.supply_react defaults now e kev).2, hnone, Option.none_or]

/-- What a read leaves as it was. -/
theorem Inner.after_read [Platform] (inner : Inner V F) (now : Instant) (k : QueryKey)
    (policy : ReadPolicy) (fetcher : Option F) (compare : Option (Compare V)) (opts : QueryOptions)
    (e : EntryCore V F) :
    let e' := inner.after now k (.read policy fetcher compare opts) e
    e'.content = e.content ∧ e'.mutationActive = e.mutationActive ∧
      (0 < e.mutationActive → e'.seq = e.seq) := by
  have hactive : (inner.after now k (.read policy fetcher compare opts) e).mutationActive = _ :=
    Inner.after_of (f := EntryCore.mutationActive) (fun _ _ _ _ => rfl) k _ e
  have hseq : (inner.after now k (.read policy fetcher compare opts) e).seq = _ :=
    Inner.after_of (f := EntryCore.seq) (fun _ _ _ _ => rfl) k _ e
  refine ⟨(inner.content_after k _).trans (EntryCore.content_react e _), ?_, fun hm => ?_⟩
  · rw [hactive]
    unfold KeyEvent.react
    split_ifs <;> rfl
  · rw [hseq]
    unfold KeyEvent.react
    split_ifs with hst
    · -- No fetch starts under a mutation.
      have hc := (canStartFetch_iff.mp (Bool.and_eq_true _ _ ▸ hst : _ ∧ _).2).2.1
      have hc : e.mutationActive = 0 := hc
      omega
    · rfl

namespace Client

/-- The step wrote this value to the entry of the channel: under a new data seq, from its event. -/
def Wrote (rx : Channel) (v : V) (r : Trace.Record (Client V F) (Act V F)) : Prop :=
  ∃ c e', r.label.call? = some c ∧ r.post.shell.inner.entry rx.key = some e' ∧ e'.tx = rx ∧
    e'.data = some v ∧ (∀ e, r.pre.shell.inner.entry rx.key = some e → e.dataSeq < e'.dataSeq) ∧
    c.event.carries rx.key e'.compare v

/-- The step wrote this error to the entry of the channel, from its event. -/
def Raised (rx : Channel) (error : V) (r : Trace.Record (Client V F) (Act V F)) : Prop :=
  ∃ c e', r.label.call? = some c ∧ r.post.shell.inner.entry rx.key = some e' ∧ e'.tx = rx ∧
    e'.error = some error ∧ c.event.raises rx.key error

/-- A mutation is active on the key, and something that can still be seen of its entry has the seq that
an `EnsureFresh` read would wait for. -/
def Outrun (s : Client V F) (key : QueryKey) : Prop :=
  ∃ e, s.shell.inner.entry key = some e ∧ 0 < e.mutationActive ∧
    ∃ sn, s.Visible e.tx sn ∧ sn.dataSeq = e.seq

/-- Whatever is shown and meets the target was written by a step of the log. -/
def Late (rx : Channel) (target : Nat) (log : Log V F) (s : Client V F) : Prop :=
  ∀ x, s.Shows rx x →
    (target ≤ x.dataSeq → ∀ v, x.data = some v → ∃ r ∈ log, Wrote rx v r) ∧
      (target ≤ x.errorSeq → ∀ error, x.error = some error → ∃ r ∈ log, Raised rx error r)

section step

variable [Platform] {s s' : Client V F} {a : Act V F}

/-- The current state of an entry can still be seen. -/
theorem Channels.visible_now (h : s.Channels) {k : QueryKey} {e : EntryCore V F}
    (he : s.shell.inner.entry k = some e) : s.Visible e.tx e.snapshotNow := by
  have htracks := h.live k e he
  rcases htracks.present with hreg | hpending
  · exact .inl hreg.symm
  · rcases htracks.held with hreg | hlt
    · exact .inl hreg.symm
    · exact .inr ⟨hpending, hlt⟩

/-- One step keeps what meets the target accounted for. -/
theorem Late.step {rx : Channel} {target : Nat} {log : Log V F} (h : Late rx target log s)
    (hchan : s.Channels) (hi : s.shell.Inv) (hs : Step s a s') :
    Late rx target (log ++ [⟨s, a, s'⟩]) s' := by
  intro x hx
  have hold : ∀ y, s.Shows rx y →
      (target ≤ y.dataSeq → ∀ v, y.data = some v → ∃ r ∈ log ++ [⟨s, a, s'⟩], Wrote rx v r) ∧
        (target ≤ y.errorSeq → ∀ error, y.error = some error →
          ∃ r ∈ log ++ [⟨s, a, s'⟩], Raised rx error r) := by
    intro y hy
    obtain ⟨hdata, herr⟩ := h y hy
    refine ⟨fun ht v hv => ?_, fun ht error he => ?_⟩
    · obtain ⟨r, hr, hw⟩ := hdata ht v hv
      exact ⟨r, List.mem_append_left _ hr, hw⟩
    · obtain ⟨r, hr, hw⟩ := herr ht error he
      exact ⟨r, List.mem_append_left _ hr, hw⟩
  rcases hs.shows hchan hi hx with hx | ⟨c, kev, e, hcall, hat, rfl, hmade⟩
  · exact hold x hx
  · have hc := (hs.calls hcall).shell
    have hnow : (⟨s, a, s'⟩ : Trace.Record (Client V F) (Act V F)) ∈ log ++ [⟨s, a, s'⟩] := by simp
    obtain ⟨hcontent, herror⟩ := hold e.content (hchan.shows_subject hi hat.subject (.inl rfl))
    obtain ⟨hwrote, hraised⟩ := hmade.written (hi.subject hat.subject).1
    have hentry := hat.entry (hi.handled hc)
    have htx : (s.shell.inner.after c.now e.tx.key kev e).tx = e.tx := (Inner.after_frame _ kev e).1
    have hafter : (s.shell.inner.after c.now e.tx.key kev e).content = x := by
      rw [Inner.content_after, hmade.content_react]
    refine ⟨fun ht v hv => ?_, fun ht error he => ?_⟩
    · rcases hwrote with ⟨hlt, hcarries⟩ | ⟨hdata, hseq⟩
      · refine ⟨_, hnow, c, _, hcall, hentry, htx, ?_, fun e₀ he₀ => ?_, ?_⟩
        · exact (congrArg Content.data hafter).trans hv
        · rw [← hat.of_entry he₀]
          exact hlt.trans_eq (congrArg Content.dataSeq hafter).symm
        · have hcompare := KeyEvent.compare_of_carries (hcarries v hv) s.shell.inner.defaults c.now
          rw [Inner.after_of (f := EntryCore.compare) (fun _ _ _ _ => rfl), hcompare]
          exact Event.carries_of_on hat.on (hcarries v hv)
      · exact hcontent (ht.trans_eq hseq) v (hdata.symm.trans hv)
    · rcases hraised with hfails | ⟨herr, hseq⟩
      · refine ⟨_, hnow, c, _, hcall, hentry, htx, ?_, ?_⟩
        · exact (congrArg Content.error hafter).trans he
        · exact Event.raises_of_on hat.on (hfails error he)
      · exact herror (ht.trans_eq hseq) error (herr.symm.trans he)

/-- A caller that starts to wait was just told its target and its channel. -/
theorem Step.told {n : Nat} {c : Call V F} {w : Waiter V F} (hs : Step s (.read n c) s')
    (hw : s'.callers n = .looking w) :
    s.Calls c s' ∧ c.event = w.req.event s.shell.inner.defaults ∧
      c.out.outcome = .read (.wait w.target w.rx) := by
  have hwaiter : (s'.callers n).waiter? = some w := by
    rw [hw]
    rfl
  refine ⟨hs.calls rfl, ?_⟩
  rcases hs.waiter hwaiter with hold | ⟨c', ha, -, hev, hout, -⟩
  · cases hs with
    | read hn _ _ =>
        rw [hn] at hold
        cases hold
  · cases ha
    exact ⟨hev, hout⟩

/-- **At the read.** Everything shown is older than the target, unless the read was outrun. -/
theorem older_at_read {n : Nat} {c : Call V F} {w : Waiter V F} (hi : s.shell.Inv)
    (hchan : s.Channels) (hbound : s'.Bounded) (hs : Step s (.read n c) s')
    (hw : s'.callers n = .looking w) (hnot : ¬ s.Outrun w.req.key) :
    ∀ x, s'.Shows w.rx x → x.dataSeq < w.target ∧ x.errorSeq < w.target := by
  obtain ⟨hcalls, hev, hout⟩ := hs.told hw
  obtain ⟨e, hat, hrx, hkey, e', he', heq, htx, hshape, hseq, hbusy⟩ :=
    hi.read_wait hcalls.shell hev hout
  intro x hx
  obtain ⟨herr, hle, hfly⟩ := hbound w.rx e' (by rw [hkey]; exact he') htx x hx
  rcases hbusy with hi' | ⟨-, hm⟩
  · have hlt := (hshape.flying _ hi').errorSeq
    have hdata := hfly (by rw [hi']; rfl)
    omega
  · have hlt := hshape.mutating hm
    refine ⟨lt_of_le_of_ne (hle.trans_eq hseq) fun heqs => ?_, by omega⟩
    -- No fetch started under the mutation, so the target is the seq the entry had.
    obtain ⟨-, hactive, hkeep⟩ := Inner.after_read s.shell.inner c.now w.req.key w.req.policy
      (some w.req.fetcher) w.req.compare s.shell.inner.defaults e
    rw [heq, hactive] at hm
    have hold : e.seq = w.target := by rw [← hkeep hm, ← hseq, heq]
    have he : s.shell.inner.entry w.req.key = some e := by
      rcases (hi.subject hat.subject).2.2.2 with he | ⟨-, rfl, -⟩
      · exact he
      · exact absurd hm (lt_irrefl 0)
    have hnone : ∀ sn, s.Visible e.tx sn → sn.dataSeq ≠ e.seq := fun sn hsn hd =>
      hnot ⟨e, he, hm, sn, hsn, hd⟩
    rcases hs.shows hchan hi hx with hx | ⟨c', kev, e₁, hcall, hat', -, hmade⟩
    · rcases hx with ⟨e₀, he₀, -, hx⟩ | ⟨sn, hsn, rfl⟩
      · rw [hkey, he] at he₀
        cases he₀
        rcases hx with rfl | ⟨o, ho, rfl⟩
        · exact hnone _ (hchan.visible_now he) (heqs.trans hold.symm)
        · -- What the slot saved is older than the write that filled it.
          obtain ⟨hprev, hwritten, -⟩ := (hi.subject hat.subject).1.saved o ho
          have hprev' : o.prevDataSeq = w.target := heqs
          omega
      · rw [hrx] at hsn
        exact hnone sn hsn (heqs.trans hold.symm)
    · cases hcall
      rw [hkey] at hat'
      obtain ⟨rfl, rfl⟩ := hat.unique hat'
      cases hmade

/-- A batch that is not executed yet notifies a key once at most. -/
def Single (s : Client V F) : Prop :=
  ∀ b ∈ s.batches, ∀ k, (Effect.notices k b).length ≤ 1

theorem Single.step (h : s.Single) (hi : s.shell.Inv) (hs : Step s a s') : s'.Single := by
  intro b hb k
  rcases hs.kinds with ⟨c, -, hc⟩ | ⟨before, x, rest, after, -, hbatches, rfl⟩ | ⟨-, hstill⟩
  · rw [hc.batches, List.mem_append, List.mem_singleton] at hb
    rcases hb with hb | rfl
    · exact h b hb k
    · exact hi.notices_le hc.shell k
  · have hkeep : ∀ b ∈ before ++ after, (Effect.notices k b).length ≤ 1 := fun b hb =>
      h b (by rw [hbatches]; grind) k
    have hcut : (Effect.notices k (x :: rest)).length ≤ 1 := h _ (by rw [hbatches]; simp) k
    have hsplit : x :: rest = [x] ++ rest := rfl
    rw [hsplit, Effect.notices_append, List.length_append] at hcut
    have hb : b ∈ before ++ rest :: after := hb
    rcases List.mem_append.mp hb with hb | hb
    · exact hkeep b (List.mem_append_left _ hb)
    · rcases List.mem_cons.mp hb with rfl | hb
      · exact (Nat.le_add_left _ _).trans hcut
      · exact hkeep b (List.mem_append_right _ hb)
  · rw [hstill.batches] at hb
    exact h b hb k

/-- A batch can be executed up to any of its notifications, with nothing in between. -/
theorem exec_until {tx : Channel} {sn : Snapshot V} {before after : List (List (Effect V F))}
    {rest : List (Effect V F)} (ahead : List (Effect V F)) {s : Client V F}
    (hb : s.batches = before ++ (ahead ++ .notify tx sn :: rest) :: after)
    (hnone : ∀ sn', .notify tx sn' ∉ ahead) :
    ∃ log s', Trace.Run Step s log s' ∧
      (∀ r ∈ log, r.label.call? = none ∧ r.label.caller? = none) ∧ s'.callers = s.callers ∧
        s'.channels tx = (s.channels tx).send sn := by
  induction ahead generalizing s with
  | nil =>
      refine ⟨_, _, .single (.exec hb), fun r hr => ?_, rfl, Function.update_self _ _ _⟩
      rw [List.mem_singleton.mp hr]
      exact ⟨rfl, rfl⟩
  | cons x ahead ih =>
      obtain ⟨log, s', hrun, hlog, hcallers, hchan⟩ :=
        ih (s := s.executed x (before ++ (ahead ++ .notify tx sn :: rest) :: after)) rfl
          fun sn' hsn' => hnone sn' (List.mem_cons_of_mem _ hsn')
      have hkeep : (s.executed x (before ++ (ahead ++ .notify tx sn :: rest) :: after)).channels
          tx = s.channels tx := by
        rcases executed_channels s x (before ++ (ahead ++ .notify tx sn :: rest) :: after) tx with
          ⟨hkeep, -⟩ | ⟨sn', rfl, -⟩
        · exact hkeep
        · exact absurd (List.mem_cons_self ..) (hnone sn')
      refine ⟨_, s', (Trace.Run.single (.exec hb)).trans hrun, fun r hr => ?_, hcallers, ?_⟩
      · rcases List.mem_append.mp hr with hr | hr
        · rw [List.mem_singleton.mp hr]
          exact ⟨rfl, rfl⟩
        · exact hlog r hr
      · rw [hchan, hkeep]

/-- **What can still be seen can be seen next.** Some order of execution brings a visible snapshot into
its channel before anything else happens. -/
theorem Visible.reach {tx : Channel} {sn : Snapshot V} (h : s.Visible tx sn) (hsingle : s.Single) :
    ∃ log s', Trace.Run Step s log s' ∧
      (∀ r ∈ log, r.label.call? = none ∧ r.label.caller? = none) ∧ s'.callers = s.callers ∧
        (s'.channels tx).value = sn := by
  rcases h with rfl | ⟨hsn, hnew⟩
  · exact ⟨[], s, .nil, fun _ hr => absurd hr List.not_mem_nil, rfl, rfl⟩
  · obtain ⟨b, hb, hx⟩ := List.mem_flatten.mp (show .notify tx sn ∈ s.batches.flatten from hsn)
    obtain ⟨before, after, hbatches⟩ := List.append_of_mem hb
    obtain ⟨ahead, rest, rfl⟩ := List.append_of_mem hx
    -- The batch notifies the key once.
    have hnone : ∀ sn', .notify tx sn' ∉ ahead := by
      intro sn' hsn'
      have hone := hsingle _ hb tx.key
      rw [Effect.notices_append, List.length_append] at hone
      have hfirst := List.length_pos_of_mem (Effect.mem_notices.mpr ⟨rfl, hsn'⟩)
      have hthis := List.length_pos_of_mem (Effect.mem_notices.mpr ⟨rfl, List.mem_cons_self ..⟩ :
        (tx, sn) ∈ Effect.notices tx.key (.notify tx sn :: rest))
      omega
    obtain ⟨log, s', hrun, hlog, hcallers, hchan⟩ := exec_until ahead hbatches hnone
    refine ⟨log, s', hrun, hlog, hcallers, ?_⟩
    rw [hchan, Watch.send, if_pos hnew]

end step

section run

variable [Platform] {defaults : QueryOptions} {log : Log V F} {s : Client V F}

/-- Whatever can still be seen is sound. -/
theorem Run.visible_sound (h : Run defaults log s) :
    ∀ tx sn, s.Visible tx sn → sn.Sound := by
  refine h.keeps (J := fun s => ∀ tx sn, s.Visible tx sn → sn.Sound) ?_ ?_
  · rintro tx sn (rfl | ⟨hsn, -⟩)
    · exact Snapshot.sound_empty
    · exact absurd hsn List.not_mem_nil
  · intro s a s' hi hJ hs tx sn hsn
    rcases hs.visible hsn with hsn | ⟨c, hcall, hx⟩
    · exact hJ tx sn hsn
    · exact hi.notify_sound (hs.calls hcall).shell hx

theorem Run.single_notices (h : Run defaults log s) : s.Single :=
  h.keeps (fun _ hb => absurd hb List.not_mem_nil) fun _ _ _ hi hJ hs => hJ.step hi hs

/-- What meets the target stays accounted for. -/
theorem Late.run {rx : Channel} {target : Nat} (h : Run defaults log s)
    (hlate : Late rx target [] s) {later : Log V F} {s' : Client V F}
    (hr : Trace.Run Step s later s') : Late rx target later s' := by
  induction hr with
  | nil => exact hlate
  | snoc hr hs ih =>
      have hm := h.trans hr
      exact ih.step (Run.channels hm) (Run.inv hm) hs

/-- A caller waits for what it was told, until it reads again. -/
theorem waiter_kept {n : Nat} {w : Waiter V F} (hn : s.callers n = .looking w) {later : Log V F}
    {s' : Client V F} (hr : Trace.Run Step s later s')
    (hno : ∀ x ∈ later, ∀ c, x.label ≠ .read n c) :
    ∀ w', (s'.callers n).waiter? = some w' → w' = w := by
  refine hr.carry (J := fun s => ∀ w', (s.callers n).waiter? = some w' → w' = w) ?_ hno ?_
  · intro w' hw'
    rw [hn] at hw'
    cases hw'
    rfl
  · intro r hs hno hJ w' hw'
    rcases hs.waiter hw' with hold | ⟨c, ha, -⟩
    · exact hJ w' hold
    · exact absurd ha (hno c)

/-- What the wait loop returns was written since: the log goes on from the `Read` that the caller was
answered with a target. -/
def Fresh (n : Nat) (w : Waiter V F) (later : Log V F) : Prop :=
  ∀ xs r ys, later = xs ++ r :: ys → (∀ x ∈ xs, ∀ c, x.label ≠ .read n c) → r.label = .look n →
    (∀ req v, r.post.callers n = .done req (.ok v) → ∃ x ∈ xs, Wrote w.rx v x) ∧
      ∀ req error, r.post.callers n = .done req (.error (.fetch error)) →
        ∃ x ∈ xs, Raised w.rx error x

theorem Late.fresh {n : Nat} {w : Waiter V F} (h : Run defaults log s)
    (hn : s.callers n = .looking w) (hlate : Late w.rx w.target [] s) {later : Log V F}
    {s' : Client V F} (hr : Trace.Run Step s later s') : Fresh n w later := by
  rintro xs r ys rfl hno hlabel
  obtain ⟨hpre, hstep, -⟩ := hr.middle
  have hlate' := hlate.run h hpre
  rw [hlabel] at hstep
  obtain ⟨w', hn', hpost⟩ := hstep.looked
  obtain rfl : w' = w := waiter_kept hn hpre hno w' (by rw [hn']; rfl)
  obtain ⟨hdata, herror⟩ := hlate' (r.pre.channels w'.rx).value.content (.inr ⟨_, .inl rfl, rfl⟩)
  refine ⟨fun req v hdone => ?_, fun req error hdone => ?_⟩
  · obtain ⟨-, ⟨_, hres, hv, hle⟩ | ⟨_, hres, -⟩⟩ :=
      Waiter.looked_done (hpost.symm.trans hdone)
    · cases hres
      exact hdata hle v hv
    · cases hres
  · obtain ⟨-, ⟨_, hres, -⟩ | ⟨_, hres, herr, -, hle⟩⟩ :=
      Waiter.looked_done (hpost.symm.trans hdone)
    · cases hres
    · cases hres
      exact herror hle error herr

/-- **An outrun read.** Some continuation brings what outran the read into the channel and lets the
caller look at it, with no call of `handle` in between. -/
theorem not_fresh_of_outrun {s' : Client V F} {n : Nat} {c : Call V F} {w : Waiter V F}
    (h : Run defaults log s) (hs : Step s (.read n c) s') (hw : s'.callers n = .looking w)
    (hout : s.Outrun w.req.key) :
    ∃ later s'', Trace.Run Step s' later s'' ∧ ¬ Fresh n w later := by
  obtain ⟨e, he, hm, sn, hsn, hd⟩ := hout
  have hi := Run.inv h
  obtain ⟨hcalls, hev, hout⟩ := hs.told hw
  obtain ⟨e₀, hat, hrx, -, e', -, heq, -, -, hseq, -⟩ := hi.read_wait hcalls.shell hev hout
  obtain rfl : e₀ = e := hat.of_entry he
  have htarget : e₀.seq = w.target := by
    obtain ⟨-, -, hkeep⟩ := Inner.after_read s.shell.inner c.now w.req.key w.req.policy
      (some w.req.fetcher) w.req.compare s.shell.inner.defaults e₀
    rw [← hkeep hm, ← hseq, heq]
  -- It can still be seen after the read, and it carries data.
  have hvisible : s'.Visible w.rx sn := by
    rw [Visible, hcalls.channels, hrx]
    refine hsn.imp_right fun hsn => ⟨?_, hsn.2⟩
    show .notify e₀.tx sn ∈ s'.pending
    rw [hcalls.pending]
    exact List.mem_append_left _ hsn.1
  obtain ⟨v, hv⟩ : ∃ v, sn.data = some v := by
    refine Option.isSome_iff_exists.mp ((Run.visible_sound h _ sn hsn).data_iff.mpr ?_)
    have hlt := (hi.subject hat.subject).1.mutating hm
    omega
  obtain ⟨xs, m, hrun, hquiet, hcallers, hvalue⟩ :=
    hvisible.reach (Run.single_notices (h.snoc hs))
  have hlooked : w.looked (m.channels w.rx) = .done w.req (.ok v) := by
    unfold Waiter.looked look
    rw [hvalue, hd, htarget, if_pos (le_refl _), hv]
  have hlook : Step m (.look n) (m.moved n (w.looked (m.channels w.rx))) :=
    .look (by rw [hcallers, hw])
  refine ⟨_, _, hrun.snoc hlook, fun hfresh => ?_⟩
  have hno : ∀ x ∈ xs, ∀ c, x.label ≠ .read n c := by
    intro x hx c hc
    have hcaller := (hquiet x hx).2
    rw [hc] at hcaller
    cases hcaller
  obtain ⟨hok, -⟩ := hfresh xs _ [] rfl hno rfl
  obtain ⟨x, hx, _, _, hcall, -⟩ := hok w.req v (by rw [moved_self, hlooked])
  rw [(hquiet x hx).1] at hcall
  cases hcall

/-- **`EnsureFresh` results are no older than the call.** From every reachable configuration, for every
`Read` that is answered by a target: data seq and error seq of the entry are below the target, and over
every continuation the values and the errors that the wait loop returns were written after the `Read`,
if and only if the `Read` was not outrun. -/
theorem ensure_fresh {s' : Client V F} {n : Nat} {c : Call V F} {w : Waiter V F}
    (h : Run defaults log s) (hs : Step s (.read n c) s') (hw : s'.callers n = .looking w) :
    ((∃ e, s'.shell.inner.entry w.req.key = some e ∧ e.dataSeq < w.target ∧
        e.errorSeq < w.target) ∧
      ∀ later s'', Trace.Run Step s' later s'' → Fresh n w later) ↔ ¬ s.Outrun w.req.key := by
  constructor
  · rintro ⟨-, hfresh⟩ houtrun
    obtain ⟨later, s'', hrun, hnot⟩ := not_fresh_of_outrun h hs hw houtrun
    exact hnot (hfresh later s'' hrun)
  · intro hnot
    have hi := Run.inv h
    have hr' : Run defaults _ s' := h.snoc hs
    obtain ⟨hcalls, hev, hout⟩ := hs.told hw
    obtain ⟨-, -, -, hkey, e', he', -, htx, -⟩ := hi.read_wait hcalls.shell hev hout
    have holder := older_at_read hi (Run.channels h) (Run.bounded hr') hs hw hnot
    refine ⟨⟨e', he', holder e'.content (.inl ⟨e', ?_, htx, .inl rfl⟩)⟩, fun later s'' hr => ?_⟩
    · rw [hkey]
      exact he'
    · refine Late.fresh hr' hw (fun x hx => ?_) hr
      obtain ⟨hdata, herror⟩ := holder x hx
      exact ⟨fun hle => absurd hle hdata.not_ge, fun hle => absurd hle herror.not_ge⟩

end run

section witness

attribute [local instance] Shell.exampleClock

/-- What a caller waits for. -/
def Phase.waits? : Phase Nat Unit → Option (QueryKey × ReadPolicy × Nat)
  | .looking w => some (w.req.key, w.req.policy, w.target)
  | _ => none

theorem Phase.of_waits {p : Phase Nat Unit} {key : QueryKey} {policy : ReadPolicy} {target : Nat}
    (h : waits? p = some (key, policy, target)) :
    ∃ w, p = .looking w ∧ w.req.key = key ∧ w.req.policy = policy ∧ w.target = target := by
  unfold waits? at h
  split at h
  · cases h
    exact ⟨_, rfl, rfl, rfl, rfl⟩
  · cases h

/-- What the next look of a caller returns, if it is a value. -/
def nextValue? (s : Client Nat Unit) (n : Nat) : Option Nat :=
  match s.callers n with
  | .looking w =>
    match w.looked (s.channels w.rx) with
    | .done _ (.ok v) => some v
    | _ => none
  | _ => none

theorem looked_of_nextValue {s : Client Nat Unit} {n v : Nat} (h : s.nextValue? n = some v)
    {w : Waiter Nat Unit} (hn : s.callers n = .looking w) :
    w.looked (s.channels w.rx) = .done w.req (.ok v) := by
  simp only [nextValue?, hn] at h
  split at h
  · next req v' hdone =>
      cases h
      rw [hdone, (Waiter.looked_done hdone).1]
  · cases h

theorem read_of_exec1 [Platform] {s s' : Client V F} {n : Nat} {now : Instant} {a : Act V F}
    (h : s.exec1 (.read n now) = some (a, s')) : ∃ c, Step s (.read n c) s' := by
  obtain ⟨c, rfl⟩ := labels_of_exec1 h
  exact ⟨c, step_of_exec1 h⟩

/-- A value is set and invalidated; then a caller wants a fresh one. -/
def staleRead : List (Input Nat Unit) :=
  [.dispatch (.mutateSet ⟨0, []⟩ 5) 0 [], .exec 0, .exec 0,
   .dispatch (.invalidate []) 1 [⟨0, []⟩], .exec 1, .exec 1,
   .call 0 (exampleRequest .ensureFresh)]

/-- The fetch of the caller lands. -/
def staleRefetch : List (Input Nat Unit) :=
  [.exec 2, .exec 2, .dispatch (.commitOk ⟨0, []⟩ 0 2 6) 3 [], .exec 3, .exec 3]

theorem ensure_fresh_example : ∃ (log : Log Nat Unit) (s s' : Client Nat Unit) (c : _) (w : _)
    (later : Log Nat Unit) (s'' : Client Nat Unit), Run .default log s ∧ Step s (.read 0 c) s' ∧
      s'.callers 0 = .looking w ∧ w.req.policy = .ensureFresh ∧
      Trace.Run Step s' later s'' ∧ s''.callers 0 = .done w.req (.ok 6) ∧
      (∃ e, s'.shell.inner.entry w.req.key = some e ∧ e.dataSeq < w.target ∧
        e.errorSeq < w.target) ∧
      ∃ r ∈ later, Wrote w.rx 6 r := by
  have hfacts : (((init .default : Client Nat Unit).exec staleRead).bind fun r =>
      (r.2.exec1 (.read 0 2)).bind fun q => (q.2.exec staleRefetch).map fun t =>
        ((r.2.shell.inner.entry ⟨0, []⟩).map EntryCore.mutationActive,
          Phase.waits? (q.2.callers 0), t.2.nextValue? 0, t.1.all fun r => r.label.caller?.isNone)) =
      some (some 0, some (⟨0, []⟩, .ensureFresh, 2), some 6, true) := by decide +kernel
  obtain ⟨⟨log, s⟩, hex, hfacts⟩ := Option.bind_eq_some_iff.mp hfacts
  obtain ⟨⟨a, s'⟩, hread, hfacts⟩ := Option.bind_eq_some_iff.mp hfacts
  obtain ⟨⟨mid, m⟩, hmid, hfacts⟩ := Option.map_eq_some_iff.mp hfacts
  simp only [Prod.mk.injEq, Option.map_eq_some_iff] at hfacts
  obtain ⟨⟨e, he, hm⟩, hwaits, hnext, hall⟩ := hfacts
  have hrun : Run .default log s := run_of_exec hex
  have hmid : Trace.Run Step s' mid m := run_of_exec hmid
  obtain ⟨c, hs⟩ := read_of_exec1 hread
  obtain ⟨w, hw, hkey, hpolicy, -⟩ := Phase.of_waits hwaits
  have hquiet : ∀ x ∈ mid, x.label.caller? = none := by
    intro x hx
    exact Option.isNone_iff_eq_none.mp (List.all_eq_true.mp hall x hx)
  have hkeep : m.callers 0 = .looking w := by
    have hcallers : m.callers 0 = s'.callers 0 :=
      hmid.carry (J := fun m => m.callers 0 = s'.callers 0) rfl hquiet fun r hs hn hJ =>
        (hs.caller 0).elim (fun hsame => hsame.trans hJ) fun hc => by
          rw [hn] at hc
          cases hc
    exact hcallers.trans hw
  have hlook : Step m (.look 0) (m.moved 0 (w.looked (m.channels w.rx))) := .look hkeep
  have hlooked := looked_of_nextValue hnext hkeep
  have hnot : ¬ s.Outrun w.req.key := by
    rintro ⟨e', he', hm', -⟩
    rw [hkey, he] at he'
    cases he'
    exact absurd hm hm'.ne'
  obtain ⟨hread, hfresh⟩ := (ensure_fresh hrun hs hw).mpr hnot
  have hlater := hmid.snoc hlook
  obtain ⟨hok, -⟩ := hfresh _ _ hlater mid _ [] rfl
    (fun x hx c hc => by
      have hnone := hquiet x hx
      rw [hc] at hnone
      cases hnone) rfl
  obtain ⟨r, hr, hwrote⟩ := hok w.req 6 (by rw [moved_self, hlooked])
  exact ⟨log, s, s', c, w, _, _, hrun, hs, hw, hpolicy, hlater, by rw [moved_self, hlooked],
    hread, r, List.mem_append_left _ hr, hwrote⟩

/-- A mutation with an optimistic value begins on a new key; then a caller wants a fresh value. -/
def optimisticRead : List (Input Nat Unit) :=
  [.dispatch (.mutateBegin ⟨0, []⟩ (some 7)) 0 [], .exec 0, .call 0 (exampleRequest .ensureFresh)]

/-- **An `EnsureFresh` read returns a value that was there.** The mutation is still running; the caller
is told to wait for the seq that its optimistic value already has, and takes that value. -/
theorem optimistic_value_returned : ∃ (log : Log Nat Unit) (s s' : Client Nat Unit) (c : _) (w : _)
    (e : EntryCore Nat Unit), Run .default log s ∧ Step s (.read 0 c) s' ∧
      s'.callers 0 = .looking w ∧ w.req.policy = .ensureFresh ∧
      s.shell.inner.entry w.req.key = some e ∧ e.data = some 7 ∧ e.dataSeq = w.target ∧
      ∃ s'', Step s' (.look 0) s'' ∧ s''.callers 0 = .done w.req (.ok 7) ∧
        ¬ Fresh 0 w [⟨s', .look 0, s''⟩] := by
  have hfacts : (((init .default : Client Nat Unit).exec optimisticRead).bind fun r =>
      (r.2.exec1 (.read 0 1)).map fun q =>
        ((r.2.shell.inner.entry ⟨0, []⟩).map fun e => decide (e.data = some 7 ∧ e.dataSeq = 2),
          Phase.waits? (q.2.callers 0), q.2.nextValue? 0)) =
      some (some true, some (⟨0, []⟩, .ensureFresh, 2), some 7) := by decide +kernel
  obtain ⟨⟨log, s⟩, hex, hfacts⟩ := Option.bind_eq_some_iff.mp hfacts
  obtain ⟨⟨a, s'⟩, hread, hfacts⟩ := Option.map_eq_some_iff.mp hfacts
  simp only [Prod.mk.injEq, Option.map_eq_some_iff, decide_eq_true_eq] at hfacts
  obtain ⟨⟨e, he, hdata, hseq⟩, hwaits, hnext⟩ := hfacts
  obtain ⟨c, hs⟩ := read_of_exec1 hread
  obtain ⟨w, hw, hkey, hpolicy, htarget⟩ := Phase.of_waits hwaits
  have hlooked := looked_of_nextValue hnext hw
  have hdone : (s'.moved 0 (w.looked (s'.channels w.rx))).callers 0 = .done w.req (.ok 7) := by
    rw [moved_self, hlooked]
  refine ⟨log, s, s', c, w, e, run_of_exec hex, hs, hw, hpolicy, by rw [hkey, he], hdata,
    hseq.trans htarget.symm, _, .look hw, hdone, fun hfresh => ?_⟩
  obtain ⟨x, hx, -⟩ := (hfresh [] _ [] rfl (fun _ hx => absurd hx List.not_mem_nil) rfl).1 _ _ hdone
  exact absurd hx List.not_mem_nil

end witness

end Client

end SwrCore
