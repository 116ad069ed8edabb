import SwrCore.Client.Informed
import SwrCore.Client.Progress

/-!
# Invalidated data is replaced

An invalidation of a key that somebody subscribes to does not only mark it: when the client has come to
rest, the subscriber sees data or an error that is newer than whatever was there, or on its way, when the
key was invalidated. Mutations may discard the refetch, more than once; the last of them starts another
one, unless it was settled without revalidation. The fetcher that runs may have issued calls for keys of a
smaller rank, which a mutation of such a key holds up: at the end none is left of these either.

* `EntryCore.News` — the entry holds something newer than a seq, or it is under way.
* `EntryCore.News.react` — every event keeps it, if the entry can fetch.
* `Client.Invalidates` — an invalidation that matches the key.
* `Client.invalidation_converges` — the law: first every run, then rest.
-/

set_option linter.unusedSectionVars false

namespace SwrCore

variable {V F : Type}

namespace EntryCore

/-! ## One entry -/

/-- The entry holds data or an error that is newer than `n`, or waits for it. -/
def News (n : Nat) (e : EntryCore V F) : Prop :=
  n < e.dataSeq ∨ n < e.errorSeq ∨ (∃ m, e.inflight = some m ∧ n < m) ∨ 0 < e.mutationActive

/-- The entry of this incarnation has news since its seq was `n`. -/
def Renewed (incarnation n : Nat) (e : EntryCore V F) : Prop :=
  e.incarnation = incarnation ∧ n ≤ e.seq ∧ e.News n

section react

variable [Platform] {defaults : QueryOptions} {now : Instant} {e : EntryCore V F}
  {kev : KeyEvent V F} {n m incarnation : Nat}

/-- A flight of an entry with news began late enough. -/
theorem News.lt_flight (h : e.News n) (hshape : e.Shape) (hm : e.inflight = some m) : n < m := by
  have hflying := hshape.flying m hm
  have hdata := hshape.dataSeq
  have herror := hshape.errorSeq
  rcases h with hlt | hlt | ⟨m', hm', hlt⟩ | hpos
  · rw [hflying.seq]
    omega
  · rw [hflying.seq]
    omega
  · cases hm.symm.trans hm'
    exact hlt
  · rw [hflying.mutationActive] at hpos
    exact absurd hpos (lt_irrefl _)

/-- A fetch that starts is newer than everything before. -/
theorem news_react (hn : n ≤ e.seq)
    (h : kev.starts defaults now e = false → (kev.apply defaults now e).News n) :
    (kev.react defaults now e).News n := by
  unfold KeyEvent.react
  split_ifs with hst
  · have hle := e.seq_le_apply defaults now kev
    exact .inr (.inr (.inl ⟨_, rfl, by omega⟩))
  · exact h (Bool.eq_false_iff.mpr hst)

/-- **News is not lost**, but by the end of a mutation without revalidation. -/
theorem News.react (h : e.News n) (hn : n ≤ e.seq) (hshape : e.Shape) (hf : e.fetcher.isSome)
    (hactive : e.isActive = true) (hsafe : kev.Safe e) (hq : ¬ kev.quits) :
    (kev.react defaults now e).News n := by
  refine news_react hn fun hst => ?_
  cases kev with
  | read policy fetcher compare opts => exact h
  | subscribe subId fetcher compare opts => exact h
  | unsubscribe subId => exact h
  | revalidateRequested => exact h
  | commitOk incarnation seq value =>
      by_cases hd : e.dropsCommit incarnation seq = true
      · rw [KeyEvent.apply, if_pos hd]
        exact h
      · rw [KeyEvent.apply, if_neg hd]
        exact .inl (h.lt_flight hshape (dropsCommit_eq_false.mp (Bool.eq_false_of_not_eq_true hd)).2.2)
  | commitErr incarnation seq error =>
      by_cases hd : e.dropsCommit incarnation seq = true
      · rw [KeyEvent.apply, if_pos hd]
        exact h
      · rw [KeyEvent.apply, if_neg hd]
        exact .inr (.inl (h.lt_flight hshape
          (dropsCommit_eq_false.mp (Bool.eq_false_of_not_eq_true hd)).2.2))
  | mutateSet value => exact .inl (Nat.lt_succ_of_le hn)
  | mutateBegin optimistic =>
      cases optimistic <;> exact .inr (.inr (.inr (Nat.succ_pos _)))
  | mutateCommit token result flags =>
      have hflag : flags.revalidate = true := Bool.eq_true_of_not_eq_false hq
      rcases e.released.resolved_cases token result flags now with
        ⟨value, -, -, hres⟩ | ⟨d, x, s, t, o, hres⟩
      · refine .inl ?_
        show n < (e.released.resolved token result flags now).dataSeq
        rw [hres]
        exact Nat.lt_succ_of_le hn
      · refine .inr (.inr (.inr (mutating_of_settled hshape hsafe hf hres ?_ hst)))
        show (flags.revalidate || _) = true
        rw [hflag]
        rfl
  | mutateAbort token flags =>
      have hflag : flags.revalidate = true := Bool.eq_true_of_not_eq_false hq
      obtain ⟨d, x, s, t, o, hres⟩ := e.released.rolledBack_eq token flags.rollbackOnError
      refine .inr (.inr (.inr (mutating_of_settled hshape hsafe hf hres ?_ hst)))
      show (flags.revalidate || _) = true
      rw [hflag]
      rfl
  | invalidate =>
      have hm : 0 < e.mutationActive := mutating_of_dirtied hf hactive hst
      refine .inr (.inr (.inr ?_))
      rw [KeyEvent.apply, if_pos hm]
      exact hm
  | broadcast ev =>
      by_cases hheeds : e.heeds defaults ev now = true
      · rw [KeyEvent.apply, if_pos hheeds, refocused]
        split_ifs <;> exact h
      · rw [KeyEvent.apply, if_neg hheeds]
        exact h
  | timerFired kind generation => exact h

theorem kept_renewed (incarnation n : Nat) :
    Kept (Renewed incarnation n : EntryCore V F → Prop) where
  react := by
    rintro defaults now e kev ⟨hinc, hn, hnews⟩ hshape hf hactive hsafe hq
    have hframe := SameFrame.react defaults now e kev
    have hseq := (e.seq_le_apply defaults now kev).trans (e.seq_le_react defaults now kev)
    exact ⟨hframe.incarnation.trans hinc, hn.trans hseq,
      hnews.react hn hshape hf hactive hsafe hq⟩
  frame _ _ _ _ := rfl

/-- An invalidation is news to come. -/
theorem news_invalidated (hf : e.fetcher.isSome) (hactive : e.isActive = true) :
    ((KeyEvent.invalidate : KeyEvent V F).react defaults now e).News e.seq := by
  refine news_react le_rfl fun hst => ?_
  have hm : 0 < e.mutationActive := mutating_of_dirtied hf hactive hst
  refine .inr (.inr (.inr ?_))
  rw [KeyEvent.apply, if_pos hm]
  exact hm

/-- News that is there: nothing is under way any more. -/
theorem News.arrived (h : e.News n) (hshape : e.Shape) (hflies : e.inflight = none)
    (hm : e.mutationActive = 0) :
    (n < e.dataSeq ∧ e.data.isSome) ∨ (n < e.errorSeq ∧ e.error.isSome) := by
  have hdata : 0 < e.dataSeq → e.data.isSome := hshape.data_iff.mpr
  by_cases hlt : n < e.dataSeq
  · exact .inl ⟨hlt, hdata (Nat.zero_lt_of_lt hlt)⟩
  · rcases h with hd | herror | ⟨m, hm', -⟩ | hpos
    · exact absurd hd hlt
    · exact .inr ⟨herror, hshape.error_of (by omega)⟩
    · cases hflies.symm.trans hm'
    · omega

end react

end EntryCore

namespace Client

/-! ## The law -/

/-- The step invalidates the key. -/
def Invalidates (k : QueryKey) (r : Trace.Record (Client V F) (Act V F)) : Prop :=
  ∃ c pre, r.label.call? = some c ∧ c.event = .invalidate pre ∧ k.matchesPrefix pre = true

section step

variable [Platform] {s s' : Client V F} {a : Act V F} {k : QueryKey} {id : Nat}
  {e : EntryCore V F}

/-- An invalidation under a held handle. -/
theorem tended_invalidated (hi : s.shell.Inv) (hs : Step s a s') (hq : Invalidates k ⟨s, a, s'⟩)
    (hheld : (k, id) ∈ s.shell.handles) (he : s.shell.inner.entry k = some e)
    (hf : e.fetcher.isSome) : Tended (EntryCore.Renewed e.incarnation e.seq) k id [] s' := by
  obtain ⟨c, pre, hcall, hev, hp⟩ := hq
  have hc := (hs.calls hcall).shell
  have hh := hi.handled hc
  have hat : s.shell.inner.At c.event k .invalidate e := by
    refine ⟨?_, he, rfl⟩
    rw [hev]
    exact if_pos hp
  have hactive : e.isActive = true := decide_eq_true (hi.subscribers_pos hheld he)
  refine ⟨(hi.handle_lt _ hheld).trans_le (by rw [hh.nextSubId]; exact Nat.le_add_right _ _),
    fun _ => ⟨_, hat.entry hh, ?_, .inl ?_⟩⟩
  · rw [Inner.after_of (f := EntryCore.fetcher) (fun _ _ _ _ => rfl),
      (KeyEvent.supply_react _ _ _ _).1]
    exact hf
  · rw [Inner.after_of (f := EntryCore.Renewed e.incarnation e.seq) (fun _ _ _ _ => rfl)]
    have hframe := EntryCore.SameFrame.react s.shell.inner.defaults c.now e .invalidate
    have hseq := (e.seq_le_apply s.shell.inner.defaults c.now .invalidate).trans
      (e.seq_le_react s.shell.inner.defaults c.now .invalidate)
    exact ⟨hframe.incarnation, hseq, EntryCore.news_invalidated hf hactive⟩

/-- The client by itself gives up no revalidation. -/
theorem Internal.not_quits {issuer : Nat → Option Flight} (h : Internal issuer s a s') :
    ¬ Quits k ⟨s, a, s'⟩ := by
  rintro ⟨c, hcall, hq⟩
  have hneutral := h.neutral hcall
  generalize c.event = ev at hq hneutral
  cases ev <;> first | exact hq | cases hneutral

end step

section law

variable [Platform] [Inhabited V] {issuer : Nat → Option Flight} {rank : QueryKey → Nat}
  {defaults : QueryOptions} {log : Log V F} {s : Client V F} {k : QueryKey} {id : Nat}
  {e : EntryCore V F}

/-- At rest no fetch is in flight, unless a mutation holds it up. -/
theorem Run.landed_at_rest (h : Run defaults log s) (hrank : Ranked issuer rank s)
    (hrest : Trace.Stuck (Internal issuer) s) (htokens : ∀ t ∈ s.shell.tokens, rank k ≤ rank t.key)
    (he : s.shell.inner.entry k = some e) : e.inflight = none := by
  by_contra hne
  obtain ⟨m, hm⟩ := Option.ne_none_iff_exists'.mp hne
  have hone := h.awaited_once (f := ⟨k, e.incarnation, m⟩) ⟨e, he, rfl, hm⟩
  have hquiet : s.unspawned.count (.fetch ⟨k, e.incarnation, m⟩) = 0 := by
    rw [unspawned, pending_at_rest hrest]
    rfl
  have hmem : .fetch ⟨k, e.incarnation, m⟩ ∈ s.tasks := List.count_pos_iff.mp (by omega)
  obtain ⟨n, req, hn, hreq⟩ := h.task_at_rest hrest hmem
  have hless : rank req.key < rank k := hrank n _ req hn hreq
  obtain ⟨t, ht, hheld⟩ := h.held_at_rest hrank hrest hreq
  have hle := htokens t ht
  rcases hheld with hkey | hlt
  · rw [hkey] at hle
    omega
  · omega

/-- **Invalidated data is replaced.** Let a key be invalidated while a handle of it is held and its entry
can fetch, and let any run follow in which the handle stays and no mutation of the key is settled without
revalidation. Fetchers may have issued calls of their own, for keys of a smaller rank. Once no mutation of
the key or of one of smaller rank is left, and the client goes on by itself, its runs are bounded and come
to rest, and there the entry is the same, nothing of it is in flight, its channel shows its state, and this
has data, or an error, that is newer than anything before the invalidation, or on its way at that time. -/
theorem invalidation_converges (h : Run defaults log s) {xs ys : Log V F}
    {q : Trace.Record (Client V F) (Act V F)} (hlog : log = xs ++ q :: ys) (hq : Invalidates k q)
    (he : q.pre.shell.inner.entry k = some e) (hf : e.fetcher.isSome)
    (hbefore : (k, id) ∈ q.pre.shell.handles) (hheld : (k, id) ∈ s.shell.handles)
    (hquits : ∀ r ∈ ys, ¬ Quits k r) (hrank : Ranked issuer rank s)
    (htokens : ∀ t ∈ s.shell.tokens, t.key ≠ k ∧ rank k ≤ rank t.key) :
    (∃ bound, ∀ later s', Trace.Run (Internal issuer) s later s' → later.length ≤ bound) ∧
    ∀ later s', Trace.Run (Internal issuer) s later s' →
      (∃ more s'', Trace.Run (Internal issuer) s' more s'' ∧ Trace.Stuck (Internal issuer) s'') ∧
      (Trace.Stuck (Internal issuer) s' →
        ∃ e', s'.shell.inner.entry k = some e' ∧ e'.incarnation = e.incarnation ∧
          e'.inflight = none ∧ (s'.channels e'.tx).value = e'.snapshotNow ∧
            ((e.seq < e'.dataSeq ∧ e'.data.isSome) ∨ (e.seq < e'.errorSeq ∧ e'.error.isSome))) := by
  refine ⟨h.exists_bound issuer, fun later s' hr => ?_⟩
  have h' := h.extend hr
  obtain ⟨hhandles, htokens'⟩ := books_of_run hr
  obtain ⟨bound, hbound⟩ := h'.exists_bound issuer
  refine ⟨Trace.exists_stuck hbound, fun hrest => ?_⟩
  have hrank' : Ranked issuer rank s' :=
    fun n f req hn hreq => hrank n f req hn (underWay_of_run hr hreq)
  -- The news is kept up to the configuration at rest.
  have htend : Tended (EntryCore.Renewed e.incarnation e.seq) k id (ys ++ later) s' := by
    obtain ⟨hxs, hstep, -⟩ : Run defaults xs q.pre ∧ Step q.pre q.label q.post ∧ _ := by
      rw [hlog] at h
      exact h.middle
    have hlater : log ++ later = xs ++ q :: (ys ++ later) := by
      rw [hlog, List.append_assoc, List.cons_append]
    exact h'.tended (EntryCore.kept_renewed _ _) hlater
      (tended_invalidated (Run.inv hxs) hstep hq hbefore he hf)
  rw [← hhandles] at hheld
  obtain ⟨e', he', -, hrenewed⟩ := htend.2 hheld
  obtain ⟨hinc, -, hnews⟩ : EntryCore.Renewed e.incarnation e.seq e' := by
    refine hrenewed.resolve_right ?_
    rintro ⟨r, hr', hquit⟩
    rcases List.mem_append.mp hr' with hearlier | hlate
    · exact hquits r hearlier hquit
    · obtain ⟨_, _, -, -, hs, -⟩ := hr.of_mem hlate
      exact hs.not_quits hquit
  have hflies : e'.inflight = none := by
    refine h'.landed_at_rest hrank' hrest (fun t ht => ?_) he'
    rw [htokens'] at ht
    exact (htokens t ht).2
  have hidle : e'.mutationActive = 0 := by
    rw [((Run.inv h').owned k e' he').mutations, htokens', List.countP_eq_zero]
    exact fun t ht => by simp [(htokens t ht).1]
  refine ⟨e', he', hinc, hflies, ?_, hnews.arrived ((Run.inv h').shape k e' he') hflies hidle⟩
  refine (Run.channels h').shown he' fun sn hmem => ?_
  rw [pending_at_rest hrest] at hmem
  cases hmem

end law

section witness

attribute [local instance] Shell.exampleClock

/-- A subscriber gets its data. -/
def fetched : List (Input Nat Unit) :=
  [.dispatch (.subscribe ⟨0, []⟩ (some ()) none .default) 0 [], .exec 0,
   .dispatch (.commitOk ⟨0, []⟩ 0 1 5) 1 []]

/-- The data is invalidated, a mutation overtakes the refetch, and is given up; at rest the data or an error
is newer. -/
theorem invalidation_converges_example : ∃ (xs ys later : Log Nat Unit)
    (q : Trace.Record (Client Nat Unit) (Act Nat Unit)) (s s' : Client Nat Unit)
    (e e' : EntryCore Nat Unit), Run .default (xs ++ q :: ys) s ∧ Invalidates ⟨0, []⟩ q ∧
      q.pre.shell.inner.entry ⟨0, []⟩ = some e ∧ e.data = some 5 ∧
        Trace.Run (Internal fun _ => none) s later s' ∧
          s'.shell.inner.entry ⟨0, []⟩ = some e' ∧ (s'.channels e'.tx).value = e'.snapshotNow ∧
            ((e.seq < e'.dataSeq ∧ e'.data.isSome) ∨ (e.seq < e'.errorSeq ∧ e'.error.isSome)) := by
  let key : QueryKey := ⟨0, []⟩
  have hfacts : (((init .default : Client Nat Unit).exec fetched).bind fun r₀ =>
      (r₀.2.exec1 (.dispatch (.invalidate []) 2 [key])).bind fun r₁ =>
      (r₁.2.exec1 (.dispatch (.mutateBegin key none) 3 [])).bind fun r₂ =>
      (r₂.2.exec1 (.dispatch (.mutateAbort ⟨key, none⟩ ⟨true, true, true⟩) 4 [])).map fun r₃ =>
        ((r₀.2.shell.inner.entry key).map fun e => decide (e.data = some 5 ∧ e.fetcher.isSome),
          decide (r₀.2.shell.handles = [(key, 0)] ∧ r₃.2.shell.handles = [(key, 0)] ∧
            r₃.2.shell.tokens = []))) =
      some (some true, true) := by decide +kernel
  obtain ⟨⟨xs, m⟩, hxs, hfacts⟩ := Option.bind_eq_some_iff.mp hfacts
  obtain ⟨⟨a, s₁⟩, ha, hfacts⟩ := Option.bind_eq_some_iff.mp hfacts
  obtain ⟨⟨b, s₂⟩, hb, hfacts⟩ := Option.bind_eq_some_iff.mp hfacts
  obtain ⟨⟨d, s⟩, hd, hfacts⟩ := Option.map_eq_some_iff.mp hfacts
  simp only [Prod.mk.injEq, Option.map_eq_some_iff, decide_eq_true_eq] at hfacts
  obtain ⟨⟨e, he, hdata, hf⟩, hbefore, hheld, htokens⟩ := hfacts
  obtain ⟨ca, rfl, hca⟩ := labels_of_exec1 ha
  obtain ⟨cb, rfl, hcb⟩ := labels_of_exec1 hb
  obtain ⟨cd, rfl, hcd⟩ := labels_of_exec1 hd
  have hrun : Run .default (((xs ++ [⟨m, .dispatch ca, s₁⟩]) ++ [⟨s₁, .dispatch cb, s₂⟩]) ++
      [⟨s₂, .dispatch cd, s⟩]) s :=
    (((run_of_exec hxs).snoc (step_of_exec1 ha)).snoc (step_of_exec1 hb)).snoc (step_of_exec1 hd)
  have hcut : ((xs ++ [⟨m, .dispatch ca, s₁⟩]) ++ [⟨s₁, .dispatch cb, s₂⟩]) ++
      [⟨s₂, .dispatch cd, s⟩] = xs ++ (⟨m, .dispatch ca, s₁⟩ : Trace.Record _ _) ::
        [⟨s₁, .dispatch cb, s₂⟩, ⟨s₂, .dispatch cd, s⟩] := by simp
  rw [hcut] at hrun
  have hinvalidates : Invalidates key ⟨m, .dispatch ca, s₁⟩ := ⟨ca, [], rfl, hca, rfl⟩
  have hkeeps : ∀ r ∈ [(⟨s₁, .dispatch cb, s₂⟩ : Trace.Record (Client Nat Unit) (Act Nat Unit)),
      ⟨s₂, .dispatch cd, s⟩], ¬ Quits key r := by
    intro r hr
    rcases List.mem_cons.mp hr with rfl | hr
    · rintro ⟨c, hc, hq⟩
      cases hc
      rw [hcb] at hq
      exact hq
    · obtain rfl := List.mem_singleton.mp hr
      rintro ⟨c, hc, hq⟩
      cases hc
      rw [hcd] at hq
      cases hq.2
  have hrank : Ranked (fun _ => none) (fun _ => 0) s := by
    intro n f req hn
    cases hn
  obtain ⟨-, hgoes⟩ := invalidation_converges hrun rfl hinvalidates he hf
    (by rw [hbefore]; exact List.mem_singleton_self _)
    (by rw [hheld]; exact List.mem_singleton_self _) hkeeps hrank
    (by rw [htokens]; exact fun t ht => absurd ht List.not_mem_nil)
  obtain ⟨later, s', hr, hrest⟩ := (hgoes [] s .nil).1
  obtain ⟨e', he', -, -, hshown, hnews⟩ := (hgoes later s' hr).2 hrest
  exact ⟨xs, _, later, _, s, s', e, e', hrun, hinvalidates, he, hdata, hr, he', hshown, hnews⟩

end witness

end Client

end SwrCore
