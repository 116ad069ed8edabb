import SwrCore.Client.Progress

/-!
# Results are of the present

`fetch()` takes its result from a snapshot that may have been overtaken when it returns. It is the present
of some moment of the call nonetheless, with one exception: under an active mutation a caller can be told
to wait for a seq whose value was rolled back before it asked.

* `Client.Offers` — a configuration in which the result is what the cache holds.
* `Client.Withdrawn` — the exception.
* `Client.Dated` — what is shown with the same data seq has the same data.
* `Client.shows_since` — what is shown later was shown before, or an entry held it in between.
* `Client.answers_present` — the law over every run.
-/

set_option linter.unusedSectionVars false

namespace SwrCore

variable {V F : Type}

/-! ## New data has a new seq -/

/-- A content that an event writes has the data that was there, or is newer than everything shown. -/
theorem KeyEvent.Makes.newer {e : EntryCore V F} {kev : KeyEvent V F} {x : Content V}
    (h : kev.Makes e x) (hshape : e.Shape) {n : Nat} (hle : n ≤ e.seq)
    (hfly : e.inflight.isSome → n < e.seq) :
    x.data = e.data ∧ x.dataSeq = e.dataSeq ∨ n < x.dataSeq := by
  cases h with
  | @landed incarnation seq value hd =>
      have hflies := (EntryCore.dropsCommit_eq_false.mp hd).2.2
      have hseq : seq = e.seq := (hshape.flying seq hflies).seq
      exact .inr (hseq ▸ hfly (by rw [hflies]; rfl))
  | failed _ => exact .inl ⟨rfl, rfl⟩
  | set => exact .inr (Nat.lt_succ_of_le hle)
  | optimistic => exact .inr (Nat.lt_add_right 1 (Nat.lt_succ_of_le hle))
  | populated _ => exact .inr (Nat.lt_succ_of_le hle)
  | rejected _ => exact .inl ⟨rfl, rfl⟩

namespace Client

section step

variable [Platform] {s s' : Client V F} {a : Act V F}

/-- The bounds on what is shown of the entry an event acts on, also when the event creates it. -/
theorem Bounded.subject (h : s.Bounded) (hchan : s.Channels) (hi : s.shell.Inv) {k : QueryKey}
    {kev : KeyEvent V F} {e : EntryCore V F} (hsub : s.shell.inner.subject k kev = some e)
    {x : Content V} (hx : s.Shows e.tx x) :
    x.dataSeq ≤ e.seq ∧ (e.inflight.isSome → x.dataSeq < e.seq) := by
  have htx := hi.subject_tx hsub
  rcases (hi.subject hsub).2.2.2 with he | ⟨-, rfl, -⟩
  · refine (h e.tx e ?_ rfl x hx).2
    rw [htx]
    exact he
  · rw [hchan.shows_unborn hi (le_of_eq (congrArg Channel.incarnation htx).symm) hx]
    exact ⟨le_refl _, fun hfly => by cases hfly⟩

/-- What is shown with the same data seq has the same data. -/
def Dated (s : Client V F) : Prop :=
  ∀ tx x y, s.Shows tx x → s.Shows tx y → x.dataSeq = y.dataSeq → x.data = y.data

theorem dated_init (defaults : QueryOptions) : (init defaults : Client V F).Dated := by
  intro tx x y hx hy _
  rw [shows_init hx, shows_init hy]

theorem Dated.step (h : s.Dated) (hbound : s.Bounded) (hchan : s.Channels) (hi : s.shell.Inv)
    (hs : Step s a s') : s'.Dated := by
  -- Something old beside something that the event wrote.
  have hmixed : ∀ {x y : Content V} {c : Call V F} {kev : KeyEvent V F} {e : EntryCore V F},
      s.Shows e.tx x → s.shell.inner.At c.event e.tx.key kev e → kev.Makes e y →
        x.dataSeq = y.dataSeq → x.data = y.data := by
    intro x y c kev e hx hat hmade hseq
    obtain ⟨hle, hfly⟩ := hbound.subject hchan hi hat.subject hx
    rcases hmade.newer (hi.subject hat.subject).1 hle hfly with ⟨hdata, hdataSeq⟩ | hlt
    · rw [hdata]
      exact h e.tx x e.content hx (hchan.shows_subject hi hat.subject (.inl rfl))
        (hseq.trans hdataSeq)
    · omega
  intro tx x y hx hy hseq
  rcases hs.shows hchan hi hx with hx | ⟨c, kev, e, hcall, hat, rfl, hmade⟩
  · rcases hs.shows hchan hi hy with hy | ⟨c, kev, e, -, hat, rfl, hmade⟩
    · exact h tx x y hx hy hseq
    · exact hmixed hx hat hmade hseq
  · rcases hs.shows hchan hi hy with hy | ⟨c', kev', e', hcall', hat', -, hmade'⟩
    · exact (hmixed hy hat hmade hseq.symm).symm
    · -- The event writes one content.
      rw [hcall] at hcall'
      cases hcall'
      obtain ⟨rfl, rfl⟩ := hat.unique hat'
      have hx : (kev.react s.shell.inner.defaults c.now e).content = x := hmade.content_react
      have hy : (kev.react s.shell.inner.defaults c.now e).content = y := hmade'.content_react
      rw [← hx, ← hy]

end step

section run

variable [Platform] {defaults : QueryOptions} {log : Log V F} {s : Client V F}

theorem Run.dated (h : Run defaults log s) : s.Dated := by
  have hall : s.Channels ∧ s.Bounded ∧ s.Dated :=
    h.keeps (J := fun s => s.Channels ∧ s.Bounded ∧ s.Dated)
      ⟨channels_init defaults, bounded_init defaults, dated_init defaults⟩
      fun _ _ _ hi hJ hs => ⟨hJ.1.step hi hs, hJ.2.1.step hJ.1 hi hs,
        hJ.2.2.step hJ.2.1 hJ.1 hi hs⟩
  exact hall.2.2

/-- **What is shown later was shown before, or an entry held it in between.** -/
theorem shows_since (h : Run defaults log s) {later : Log V F} {s' : Client V F}
    (hr : Trace.Run Step s later s') {rx : Channel} {x : Content V} (hx : s'.Shows rx x) :
    s.Shows rx x ∨ ∃ r ∈ later, ∃ e, r.post.shell.inner.entry rx.key = some e ∧ e.tx = rx ∧
      e.content = x := by
  induction hr generalizing x with
  | nil => exact .inl hx
  | snoc hr hs ih =>
      have hm := h.trans hr
      rcases hs.shows (Run.channels hm) (Run.inv hm) hx with hx | ⟨c, kev, e, hcall, hat, rfl, hmade⟩
      · rcases ih hx with hold | ⟨r, hr, hheld⟩
        · exact .inl hold
        · exact .inr ⟨r, List.mem_append_left _ hr, hheld⟩
      · refine .inr ⟨_, List.mem_append_right _ (List.mem_singleton_self _), _,
          hat.entry ((Run.inv hm).handled (hs.calls hcall).shell), (Inner.after_frame _ kev e).1, ?_⟩
        rw [Inner.content_after, hmade.content_react]

end run

/-! ## The result of a call -/

/-- The result is what the cache holds. -/
def Offers (s : Client V F) (req : Request V F) : Except (FetchError V) V → Prop
  | .ok value => ∃ e, s.shell.inner.entry req.key = some e ∧ e.data = some value
  | .error (.fetch error) => ∃ e, s.shell.inner.entry req.key = some e ∧ e.error = some error
  | .error .miss => req.policy = .cacheOnly ∧
    ∀ e, s.shell.inner.entry req.key = some e → e.data = none ∧ e.error = none
  | .error .noFetcher => False

/-- A mutation is active, and the data of the entry is older than its seq; but this value, which has the
seq, can still be seen: it was rolled back. -/
def Withdrawn (s : Client V F) (key : QueryKey) (value : V) : Prop :=
  ∃ e, s.shell.inner.entry key = some e ∧ 0 < e.mutationActive ∧ e.dataSeq < e.seq ∧
    ∃ sn, s.Visible e.tx sn ∧ sn.dataSeq = e.seq ∧ sn.data = some value

section step

variable [Platform] {s s' : Client V F} {a : Act V F}

/-- The answer of a `CacheOnly` read shows the entry, if there is one. -/
theorem cacheOnly_shows (hi : s.shell.Inv) {c : Call V F} (hc : s.Calls c s') {key : QueryKey}
    {fetcher : Option F} {compare : Option (Compare V)} {opts : QueryOptions} {sn : Snapshot V}
    (hev : c.event = .read key .cacheOnly fetcher compare opts)
    (hout : c.out.outcome = .read (.ready sn)) {e' : EntryCore V F}
    (he' : s'.shell.inner.entry key = some e') : sn.content = e'.content := by
  have hh := hi.handled hc.shell
  have hon : c.event.on key s.shell.inner.nextSubId =
      some (.read .cacheOnly fetcher compare opts) := by
    rw [hev]
    exact if_pos rfl
  rcases hh.inversion he' with ⟨hoff, -⟩ | ⟨kev, e, hat, rfl⟩
  · rw [hon] at hoff
    cases hoff
  · cases Option.some.inj (hat.on.symm.trans hon)
    have hans := hh.outcome key _ hon
    rw [hout, Inner.answer, hat.subject] at hans
    cases hans
    rw [Inner.content_after, EntryCore.content_react]
    rfl

/-- **A call that is answered at once** returns what the cache holds. -/
theorem offers_of_pass (hi : s.shell.Inv) {c : Call V F} (hc : s.Calls c s') {req : Request V F}
    (hev : c.event = req.event s.shell.inner.defaults) {result : Except (FetchError V) V}
    (hpass : pass c.out.outcome = .ok (.done result)) : s'.Offers req result := by
  obtain ⟨ro, hout, hro⟩ := hi.read_outcome hc.shell hev
  rw [hout] at hpass
  cases ro with
  | wait target rx => cases hpass
  | noFetcher => cases hro
  | ready sn =>
      cases hpass
      -- An entry that was there is there still, and shows the same.
      have hentry : sn = .empty ∨ ∃ e, s'.shell.inner.entry req.key = some e ∧
          sn.content = e.content := by
        rcases hi.read_ready hc.shell hev hout with hempty | ⟨e, hat, hcontent⟩
        · exact .inl hempty
        · refine .inr ⟨_, hat.entry (hi.handled hc.shell), hcontent.trans ?_⟩
          rw [Inner.content_after, EntryCore.content_react]
          rfl
      cases hdata : sn.data with
      | some value =>
          rw [readyResult, hdata]
          rcases hentry with rfl | ⟨e, he, hcontent⟩
          · cases hdata
          · exact ⟨e, he, (congrArg Content.data hcontent).symm.trans hdata⟩
      | none =>
          cases herror : sn.error with
          | some error =>
              simp only [readyResult, hdata, herror]
              rcases hentry with rfl | ⟨e, he, hcontent⟩
              · cases herror
              · exact ⟨e, he, (congrArg Content.error hcontent).symm.trans herror⟩
          | none =>
              simp only [readyResult, hdata, herror]
              have hpolicy : req.policy = .cacheOnly := by
                by_contra hne
                have hsome := hro.2 hne
                rw [hdata] at hsome
                cases hsome
              refine ⟨hpolicy, fun e he => ?_⟩
              have hcached : c.event = .read req.key .cacheOnly (some req.fetcher) req.compare
                  s.shell.inner.defaults := by
                rw [hev, Request.event, hpolicy]
              have hcontent := cacheOnly_shows hi hc hcached hout he
              exact ⟨(congrArg Content.data hcontent).symm.trans hdata,
                (congrArg Content.error hcontent).symm.trans herror⟩

/-- **At the read.** Errors that can be seen are older than the target; data that meets it is the data of
the entry, or was rolled back. -/
theorem met_at_read {n : Nat} {c : Call V F} {w : Waiter V F} (hi : s.shell.Inv)
    (hbound : s'.Bounded) (hdated : s'.Dated) (hs : Step s (.read n c) s')
    (hw : s'.callers n = .looking w) {x : Content V} (hx : s'.Shows w.rx x) :
    x.errorSeq < w.target ∧ (w.target ≤ x.dataSeq → ∀ value, x.data = some value →
      s'.Offers w.req (.ok value) ∨ s'.Withdrawn w.req.key value) := by
  obtain ⟨hcalls, hev, hout⟩ := hs.told hw
  obtain ⟨-, -, -, hkey, e, he, -, htx, hshape, hseq, hbusy⟩ := hi.read_wait hcalls.shell hev hout
  obtain ⟨herr, hle, hfly⟩ := hbound w.rx e (by rw [hkey]; exact he) htx x hx
  rcases hbusy with hflies | ⟨-, hm⟩
  · have hlt := (hshape.flying _ hflies).errorSeq
    have hdata := hfly (by rw [hflies]; rfl)
    exact ⟨by omega, fun ht => by omega⟩
  · have hlt := hshape.mutating hm
    refine ⟨by omega, fun ht value hvalue => ?_⟩
    have hmet : x.dataSeq = e.seq := by omega
    rcases hshape.dataSeq.eq_or_lt with hsame | hless
    · -- The entry has the seq too, so it has the value.
      have hdata := hdated w.rx x e.content hx (.inl ⟨e, by rw [hkey]; exact he, htx, .inl rfl⟩)
        (hmet.trans hsame.symm)
      exact .inl ⟨e, he, hdata.symm.trans hvalue⟩
    · refine .inr ⟨e, he, hm, hless, ?_⟩
      rcases hx with ⟨e₀, he₀, -, hholds⟩ | ⟨sn, hsn, rfl⟩
      · rw [hkey, he] at he₀
        cases he₀
        rcases hholds with rfl | ⟨o, ho, rfl⟩
        · exact absurd hmet hless.ne
        · -- What the slot saved is older than the write that filled it.
          obtain ⟨hprev, hwritten, -⟩ := hshape.saved o ho
          have hsaved : o.prevDataSeq = e.seq := hmet
          omega
      · exact ⟨sn, htx ▸ hsn, hmet, hvalue⟩

end step

section run

variable [Platform] {defaults : QueryOptions} {log : Log V F} {s : Client V F}

/-- A caller that waits was told so by its last `Read`. -/
theorem Run.last_read (h : Run defaults log s) {n : Nat} {w : Waiter V F}
    (hw : (s.callers n).waiter? = some w) :
    ∃ before q c since, log = before ++ q :: since ∧ q.label = .read n c ∧
      q.pre.callers n = .reading w.req ∧ q.post.callers n = .looking w ∧
        ∀ y ∈ since, ∀ c, y.label ≠ .read n c := by
  refine h.history (P := fun log s => ∀ w, (s.callers n).waiter? = some w →
    ∃ before q c since, log = before ++ q :: since ∧ q.label = .read n c ∧
      q.pre.callers n = .reading w.req ∧ q.post.callers n = .looking w ∧
        ∀ y ∈ since, ∀ c, y.label ≠ .read n c) ?_ ?_ w hw
  · intro w hw
    cases hw
  · intro log s a s' _ hJ hs w hw
    rcases hs.waiter hw with hold | ⟨c, rfl, hreading, -, -, hlooking⟩
    · obtain ⟨before, q, c, since, rfl, hq, hpre, hpost, hnone⟩ := hJ w hold
      refine ⟨before, q, c, since ++ [_], by rw [List.append_assoc]; rfl, hq, hpre, hpost, ?_⟩
      intro y hy c' hread
      rcases List.mem_append.mp hy with hy | hy
      · exact hnone y hy c' hread
      · cases List.mem_singleton.mp hy
        have hread : a = .read n c' := hread
        subst hread
        cases hs with
        | read hn _ _ =>
            rw [hn] at hold
            cases hold
    · exact ⟨log, _, c, [], rfl, rfl, hreading, hlooking, fun _ hy => absurd hy List.not_mem_nil⟩

/-- **A call that waited** returns what the cache held at some moment since its `Read`, or what had been
rolled back before. -/
theorem Run.looked (h : Run defaults log s) {n : Nat} {w : Waiter V F}
    (hn : s.callers n = .looking w) {req : Request V F} {result : Except (FetchError V) V}
    (hdone : w.looked (s.channels w.rx) = .done req result) :
    ∃ before q c since, log = before ++ q :: since ∧ q.label = .read n c ∧
      q.pre.callers n = .reading req ∧ (∀ y ∈ since, ∀ c, y.label ≠ .read n c) ∧
      ((∃ p ∈ q :: since, p.post.Offers req result) ∨
        ∃ value, result = .ok value ∧ q.post.Withdrawn req.key value) := by
  obtain ⟨before, q, c, since, rfl, hq, hpre, hpost, hnone⟩ :=
    h.last_read (n := n) (w := w) (by rw [hn]; rfl)
  obtain ⟨hbefore, hstep, hsince⟩ := h.middle
  rw [hq] at hstep
  have hread : Run defaults (before ++ [⟨q.pre, .read n c, q.post⟩]) q.post := hbefore.snoc hstep
  obtain ⟨hreq, hresult⟩ := Waiter.looked_done hdone
  subst hreq
  have hkey : w.rx.key = w.req.key := (h.waits.channel n w (by rw [hn]; rfl)).1
  have hseen : s.Shows w.rx (s.channels w.rx).value.content := .inr ⟨_, .inl rfl, rfl⟩
  refine ⟨before, q, c, since, rfl, hq, hpre, hnone, ?_⟩
  rcases shows_since hread hsince hseen with hold | ⟨p, hp, e, he, -, hcontent⟩
  · obtain ⟨herror, hdata⟩ := met_at_read (Run.inv hbefore) (Run.bounded hread) (Run.dated hread)
      hstep hpost hold
    rcases hresult with ⟨value, rfl, hvalue, ht⟩ | ⟨error, rfl, -, -, ht⟩
    · rcases hdata ht value hvalue with hoffers | hwithdrawn
      · exact .inl ⟨q, List.mem_cons_self, hoffers⟩
      · exact .inr ⟨value, rfl, hwithdrawn⟩
    · exact absurd ht herror.not_ge
  · refine .inl ⟨p, List.mem_cons_of_mem _ hp, ?_⟩
    rw [hkey] at he
    rcases hresult with ⟨value, rfl, hvalue, -⟩ | ⟨error, rfl, herror, -⟩
    · exact ⟨e, he, (congrArg Content.data hcontent).trans hvalue⟩
    · exact ⟨e, he, (congrArg Content.error hcontent).trans herror⟩

/-- **The exception is real.** The execution of effects alone can bring a value that was rolled back into
the channel, and the caller returns it. -/
theorem withdrawn_returned {s' : Client V F} {n : Nat} {c : Call V F} {w : Waiter V F} {value : V}
    (h : Run defaults log s) (hs : Step s (.read n c) s') (hw : s'.callers n = .looking w)
    (hwithdrawn : s'.Withdrawn w.req.key value) :
    ∃ later s'', Trace.Run Step s' later s'' ∧ s''.callers n = .done w.req (.ok value) ∧
      ∀ p ∈ later, p.post.shell = s'.shell := by
  obtain ⟨e, he, hm, hless, sn, hsn, hmet, hvalue⟩ := hwithdrawn
  obtain ⟨hcalls, hev, hout⟩ := hs.told hw
  obtain ⟨-, -, -, -, e', he', -, htx, -, hseq, -⟩ :=
    (Run.inv h).read_wait hcalls.shell hev hout
  obtain rfl : e' = e := Option.some.inj (he'.symm.trans he)
  obtain ⟨xs, m, hrun, hquiet, hcallers, hchannel⟩ :=
    hsn.reach (Run.single_notices (h.snoc hs))
  have hlooked : w.looked (m.channels w.rx) = .done w.req (.ok value) := by
    unfold Waiter.looked look
    rw [← htx, hchannel, hmet, hseq, if_pos (le_refl _), hvalue]
  have hlook : Step m (.look n) (m.moved n (w.looked (m.channels w.rx))) :=
    .look (by rw [hcallers, hw])
  have hlater := hrun.snoc hlook
  refine ⟨_, _, hlater, by rw [moved_self, hlooked], ?_⟩
  -- No step of these calls the state machine.
  have hcall : ∀ p ∈ xs ++ [⟨m, .look n, m.moved n (w.looked (m.channels w.rx))⟩],
      p.label.call? = none := by
    intro p hp
    rcases List.mem_append.mp hp with hp | hp
    · exact (hquiet p hp).1
    · rw [List.mem_singleton.mp hp]
      rfl
  intro p hp
  obtain ⟨ps, qs, hsplit⟩ := List.append_of_mem hp
  rw [hsplit] at hlater hcall
  obtain ⟨hps, hstep, -⟩ := hlater.middle
  refine (hps.snoc hstep).carry (J := fun t => t.shell = s'.shell) rfl
    (fun r hr => hcall r ?_) fun r hs hnone hJ => ?_
  · rcases List.mem_append.mp hr with hr | hr
    · exact List.mem_append_left _ hr
    · rw [List.mem_singleton.mp hr]
      exact List.mem_append_right _ List.mem_cons_self
  · rcases hs.shell with ⟨c, hc, -⟩ | ⟨-, hsame⟩
    · rw [hc] at hnone
      cases hnone
    · exact hsame.trans hJ

/-- **Results are of the present.** In every run, whatever a call of `fetch()` returns, whether it was
answered at once or had to wait, is what the cache held for the key at some moment between the last `Read`
of the call and its return: a value as the data of the entry, an error as its error, and a `Miss` only
under `CacheOnly` and with nothing there; `NoFetcher` is never returned. There is one exception, and it is
real: if a mutation was active at that `Read`, and an optimistic value that had been rolled back could
still be seen, the call may return that value. -/
theorem answers_present (defaults : QueryOptions) :
    (∀ (log : Log V F) s, Run defaults log s → ∀ xs r ys n req result, log = xs ++ r :: ys →
      r.pre.callers n ≠ .done req result → r.post.callers n = .done req result →
        ∃ before q c since, xs ++ [r] = before ++ q :: since ∧ q.label = .read n c ∧
          q.pre.callers n = .reading req ∧ (∀ y ∈ since, ∀ c, y.label ≠ .read n c) ∧
          ((∃ p ∈ q :: since, p.post.Offers req result) ∨
            ∃ value, result = .ok value ∧ q.post.Withdrawn req.key value)) ∧
    ∀ (log : Log V F) s s' n c w value, Run defaults log s → Step s (.read n c) s' →
      s'.callers n = .looking w → s'.Withdrawn w.req.key value →
        ∃ later s'', Trace.Run Step s' later s'' ∧ s''.callers n = .done w.req (.ok value) ∧
          ∀ p ∈ later, p.post.shell = s'.shell := by
  refine ⟨?_, fun log s s' n c w value h hs hw hwithdrawn => withdrawn_returned h hs hw hwithdrawn⟩
  rintro log s h xs r ys n req result rfl hpre hpost
  obtain ⟨hxs, hstep, -⟩ := h.middle
  rcases hstep.result hpost with hold | ⟨c, hlabel, hreading, hev, hpass⟩ | ⟨w, hlabel, hn, hlook⟩
  · exact absurd hold hpre
  · refine ⟨xs, r, c, [], rfl, hlabel, hreading, fun _ hy => absurd hy List.not_mem_nil, .inl ?_⟩
    have hcalls := hstep.calls (c := c) (by rw [hlabel]; rfl)
    exact ⟨r, List.mem_cons_self, offers_of_pass (Run.inv hxs) hcalls hev hpass⟩
  · obtain ⟨before, q, c, since, rfl, hq, hreading, hnone, hanswer⟩ := Run.looked hxs hn hlook
    refine ⟨before, q, c, since ++ [r], by rw [List.append_assoc]; rfl, hq, hreading, ?_, ?_⟩
    · intro y hy c' hread
      rcases List.mem_append.mp hy with hy | hy
      · exact hnone y hy c' hread
      · rw [List.mem_singleton.mp hy, hlabel] at hread
        cases hread
    · refine hanswer.imp_left ?_
      rintro ⟨p, hp, hoffers⟩
      exact ⟨p, (List.mem_append_left [r] hp : p ∈ (q :: since) ++ [r]), hoffers⟩

end run

section witness

attribute [local instance] Shell.exampleClock

/-- An optimistic value is published and rolled back under another mutation; then a caller wants a fresh
value. -/
def withdrawnRead : List (Input Nat Unit) :=
  [.dispatch (.mutateBegin ⟨0, []⟩ none) 0 [], .dispatch (.mutateBegin ⟨0, []⟩ (some 7)) 1 [],
   .exec 0, .exec 1, .dispatch (.mutateAbort ⟨⟨0, []⟩, some 3⟩ ⟨true, true, true⟩) 2 [],
   .call 0 (exampleRequest .ensureFresh)]

/-- A value that was rolled back is returned, although the cache holds none. -/
theorem answers_present_example : ∃ (log later : Log Nat Unit) (s s' s'' : Client Nat Unit)
    (c : Call Nat Unit) (w : Waiter Nat Unit) (e : EntryCore Nat Unit), Run .default log s ∧
      Step s (.read 0 c) s' ∧ Trace.Run Step s' later s'' ∧
      s''.callers 0 = .done w.req (.ok 7) ∧ s'.shell.inner.entry w.req.key = some e ∧
      e.data = none ∧ ∀ p ∈ later, p.post.shell = s'.shell := by
  have hfacts : (((init .default : Client Nat Unit).exec withdrawnRead).bind fun r =>
      (r.2.exec1 (.read 0 3)).map fun q =>
        ((q.2.shell.inner.entry ⟨0, []⟩).map fun e => (decide (e.mutationActive = 1 ∧ e.seq = 3 ∧
            e.dataSeq = 0 ∧ e.data = none ∧ (q.2.channels e.tx).value.dataSeq = 3),
            (q.2.channels e.tx).value.data),
          Phase.waits? (q.2.callers 0))) =
      some (some (true, some 7), some (⟨0, []⟩, .ensureFresh, 3)) := by decide +kernel
  obtain ⟨⟨log, s⟩, hex, hfacts⟩ := Option.bind_eq_some_iff.mp hfacts
  obtain ⟨⟨a, s'⟩, hread, hfacts⟩ := Option.map_eq_some_iff.mp hfacts
  simp only [Prod.mk.injEq, Option.map_eq_some_iff, decide_eq_true_eq] at hfacts
  obtain ⟨⟨e, he, ⟨hm, hseq, hdataSeq, hdata, hmet⟩, hvalue⟩, hwaits⟩ := hfacts
  obtain ⟨c, hs⟩ := read_of_exec1 hread
  obtain ⟨w, hw, hkey, -, -⟩ := Phase.of_waits hwaits
  have hrun : Run .default log s := run_of_exec hex
  have hwithdrawn : s'.Withdrawn w.req.key 7 :=
    ⟨e, by rw [hkey, he], by omega, by omega, _, .inl rfl, hmet.trans hseq.symm, hvalue⟩
  obtain ⟨later, s'', hlater, hdone, hstill⟩ :=
    (answers_present .default).2 log s s' 0 c w 7 hrun hs hw hwithdrawn
  exact ⟨log, later, s, s', s'', c, w, e, hrun, hs, hlater, hdone, by rw [hkey, he], hdata, hstill⟩

end witness

end Client

end SwrCore
