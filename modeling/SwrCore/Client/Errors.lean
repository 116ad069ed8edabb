import SwrCore.Client.Provenance

/-!
# Whose errors readers get

A failing mutation writes `error` but not `error_seq`; a failed fetch writes both. A reader takes the
error of a snapshot without data, or of one whose `error_seq` meets its target, and cannot tell the two
apart.

* `Client.Delivered` — the result of a flight, an error, was committed.
* `Client.Harmless` — no reader takes the error of a content: it has data, and no caller waits between
  its two seqs.
* `Client.Leaks` — a failing mutation leaves its error where some reader takes it.
* `Client.fetch_errors_delivered` — while no mutation leaks, every error that `fetch()` returns was
  delivered by a flight of its key.
* `Client.mutation_error_returned` — a mutation that leaks.
-/

set_option linter.unusedSectionVars false

namespace SwrCore

variable {V F : Type}

namespace Client

/-! ## Errors of flights and errors of mutations -/

/-- The failure of a flight was committed, with this error. -/
def Delivered (log : Log V F) (f : Flight) (error : V) : Prop :=
  ∃ r ∈ log, ∃ c, r.label.call? = some c ∧
    c.event = .commitErr f.key f.incarnation f.seq error

/-- No reader takes the error of this content: it shows data, and no caller on its channel waits for
a target that only the error meets. -/
def Harmless (s : Client V F) (tx : Channel) (x : Content V) : Prop :=
  x.data.isSome ∧ ∀ n w, (s.callers n).waiter? = some w → w.rx = tx →
    ¬ (x.dataSeq < w.target ∧ w.target ≤ x.errorSeq)

/-- The call ends a mutation whose error stays in the entry, without a rollback, and not harmlessly. -/
def Leaks (s : Client V F) (c : Call V F) : Prop :=
  ∃ token error flags e, c.event = .mutateCommit token (.error error) flags ∧
    s.shell.inner.entry token.key = some e ∧
    e.rollsBack token flags.rollbackOnError = false ∧ ¬ s.Harmless e.tx e.content

/-- The error of a content was delivered by the flight its seq names, or no reader takes it. -/
def Clean (log : Log V F) (s : Client V F) (tx : Channel) (x : Content V) : Prop :=
  ∀ error, x.error = some error →
    Delivered log ⟨tx.key, tx.incarnation, x.errorSeq⟩ error ∨ s.Harmless tx x

theorem Delivered.snoc {log : Log V F} {f : Flight} {error : V} (h : Delivered log f error)
    (r : Trace.Record (Client V F) (Act V F)) : Delivered (log ++ [r]) f error := by
  obtain ⟨r', hr', h⟩ := h
  exact ⟨r', List.mem_append_left _ hr', h⟩

/-- An answer without waiting that is an error shows a snapshot with that error and no data. -/
theorem error_of_pass {out : Outcome V} {error : V}
    (h : pass out = .ok (.done (.error (.fetch error)))) :
    ∃ sn, out = .read (.ready sn) ∧ sn.data = none ∧ sn.error = some error := by
  cases out with
  | read ro =>
      cases ro with
      | ready sn =>
          simp only [pass, Except.ok.injEq, Pass.done.injEq, readyResult] at h
          cases hd : sn.data with
          | some value =>
              rw [hd] at h
              cases h
          | none =>
              rw [hd] at h
              cases he : sn.error with
              | none =>
                  rw [he] at h
                  cases h
              | some error' =>
                  rw [he] at h
                  cases h
                  exact ⟨sn, rfl, hd, he⟩
      | _ => cases h
  | _ => cases h

theorem clean_empty (log : Log V F) (s : Client V F) (tx : Channel) :
    Clean log s tx Snapshot.empty.content := by
  intro error h
  cases h

section step

variable [Platform] {s s' : Client V F} {a : Act V F}

/-- What is harmless stays harmless while it is shown: a new caller waits past every error seq. -/
theorem Harmless.step {tx : Channel} {x : Content V} (h : s.Harmless tx x) (hi : s.shell.Inv)
    (hbound : s'.Bounded) (hs : Step s a s') (hx : s'.Shows tx x) : s'.Harmless tx x := by
  refine ⟨h.1, fun n w hw hrx => ?_⟩
  rcases hs.waiter hw with hw | ⟨c, ha, -, hev, hout, -⟩
  · exact h.2 n w hw hrx
  · rintro ⟨-, hle⟩
    have hc := (hs.calls (by rw [ha]; rfl)).shell
    obtain ⟨-, -, -, hkey, e', he', -, htx, hshape, hseq, hbusy⟩ := hi.read_wait hc hev hout
    rw [hrx] at hkey htx
    have hlt : e'.errorSeq < e'.seq := by
      rcases hbusy with hfly | ⟨-, hm⟩
      · rw [hseq]
        exact (hshape.flying _ hfly).errorSeq
      · exact hshape.mutating hm
    have hbound := (hbound tx e' (hkey ▸ he') htx x hx).1
    omega

/-- The key event behind a failing mutation. -/
theorem mutateCommit_of_on {k : QueryKey} {subId : Nat} {ev : Event V F} {token : MutationToken}
    {result : Except V (Option V)} {flags : MutateFlags}
    (h : ev.on k subId = some (.mutateCommit token result flags)) :
    ev = .mutateCommit token result flags ∧ token.key = k := by
  cases Event.on_inv h with
  | mutateCommit hk => exact ⟨rfl, hk⟩

/-- The key event behind a failed fetch. -/
theorem commitErr_of_on {k : QueryKey} {subId : Nat} {ev : Event V F} {incarnation seq : Nat}
    {error : V} (h : ev.on k subId = some (.commitErr incarnation seq error)) :
    ev = .commitErr k incarnation seq error := by
  cases Event.on_inv h with
  | commitErr => rfl

/-- **What a step writes is clean.** A failed fetch writes an error with the seq of its flight, and a
mutation that does not leak leaves its error where no reader takes it. -/
theorem clean_of_makes {log : Log V F} (hi : s.shell.Inv) (hs : Step s a s') {c : Call V F}
    (hcall : a.call? = some c) (hleak : ¬ s.Leaks c) {tx : Channel} {kev : KeyEvent V F}
    {e : EntryCore V F} (hat : s.shell.inner.At c.event tx.key kev e) (htx : e.tx = tx)
    {x : Content V} (hmade : kev.Makes e x) (hbound : s'.Bounded) (hx : s'.Shows tx x) :
    Clean (log ++ [⟨s, a, s'⟩]) s' tx x := by
  have hsub := hi.subject hat.subject
  have hinc : e.incarnation = tx.incarnation := by rw [← htx, hi.subject_tx hat.subject]
  intro error herr
  cases hmade with
  | landed hd => cases herr
  | set => cases herr
  | populated hp => cases herr
  | @failed incarnation seq error' hd =>
      cases herr
      have hincarnation : incarnation = tx.incarnation :=
        (EntryCore.dropsCommit_eq_false.mp hd).1.symm.trans hinc
      refine .inl ⟨_, List.mem_append_right _ (List.mem_singleton.mpr rfl), c, hcall, ?_⟩
      rw [commitErr_of_on hat.on, hincarnation]
  | optimistic =>
      -- The optimistic value is newer than any error.
      refine .inr ⟨rfl, fun n w _ _ hwait => ?_⟩
      have hle := hsub.1.errorSeq
      have hwait : e.seq + 2 < w.target ∧ w.target ≤ e.errorSeq := hwait
      omega
  | @rejected token error' flags hr =>
      cases herr
      obtain ⟨hev, hkey⟩ := mutateCommit_of_on hat.on
      have hentry : s.shell.inner.entry token.key = some e := by
        rw [hkey]
        exact hat.subject
      have hharmless : s.Harmless tx e.content := by
        by_contra hnot
        rw [← htx] at hnot
        exact hleak ⟨token, error, flags, e, hev, hentry, hr, hnot⟩
      have hsame : s.Harmless tx ⟨e.data, some error, e.dataSeq, e.errorSeq⟩ := hharmless
      exact .inr (hsame.step hi hbound hs hx)

end step

section run

variable [Platform] {defaults : QueryOptions} {log : Log V F} {s : Client V F}

/-- While no mutation leaks, everything shown is clean. -/
theorem Run.clean (h : Run defaults log s)
    (hleak : ∀ r ∈ log, ∀ c, r.label.call? = some c → ¬ r.pre.Leaks c) :
    ∀ tx x, s.Shows tx x → Clean log s tx x := by
  induction h with
  | nil =>
      intro tx x hx
      rw [shows_init hx]
      exact clean_empty _ _ tx
  | @snoc log s s' a hr hs ih =>
      have hi := Run.inv hr
      have hbound : s'.Bounded := Run.bounded (hr.snoc hs)
      have ih := ih fun r hr => hleak r (List.mem_append_left _ hr)
      intro tx x hx
      rcases hs.shows (Run.channels hr) hi hx with hold | ⟨c, kev, e, hcall, hat, htx, hmade⟩
      · intro error herr
        rcases ih tx x hold error herr with hdel | hharm
        · exact .inl (hdel.snoc _)
        · exact .inr (hharm.step hi hbound hs hx)
      · have hnot := hleak ⟨s, a, s'⟩ (by simp) c hcall
        exact clean_of_makes hi hs hcall hnot hat htx hmade hbound hx

/-- What the wait loop takes from a channel was delivered by the flight that its seq names. -/
theorem Run.delivered_of_look (h : Run defaults log s)
    (hleak : ∀ r ∈ log, ∀ c, r.label.call? = some c → ¬ r.pre.Leaks c) {n : Nat} {w : Waiter V F}
    {req : Request V F} {error : V} (hn : s.callers n = .looking w)
    (hlook : w.looked (s.channels w.rx) = .done req (.error (.fetch error))) :
    Delivered log ⟨req.key, w.rx.incarnation, (s.channels w.rx).value.errorSeq⟩ error := by
  obtain ⟨rfl, ⟨value, hres, -⟩ | ⟨error', hres, herr, hd, he⟩⟩ := Waiter.looked_done hlook
  · cases hres
  · cases hres
    have hwaiter : (s.callers n).waiter? = some w := by rw [hn]; rfl
    have hkey := (h.waits.channel n w hwaiter).1
    have hshown : s.Shows w.rx (s.channels w.rx).value.content := .inr ⟨_, .inl rfl, rfl⟩
    rcases h.clean hleak w.rx _ hshown error herr with hdel | ⟨-, hharm⟩
    · rw [hkey] at hdel
      exact hdel
    · exact absurd ⟨hd, he⟩ (hharm n w hwaiter rfl)

/-- What an answer without waiting shows was delivered by a flight of the key: an entry without data
holds no error that is only harmless. -/
theorem Run.delivered_of_pass (h : Run defaults log s)
    (hleak : ∀ r ∈ log, ∀ c, r.label.call? = some c → ¬ r.pre.Leaks c) {s' : Client V F}
    {c : Call V F} (hc : s.Calls c s') {req : Request V F} {error : V}
    (hev : c.event = req.event s.shell.inner.defaults)
    (hpass : pass c.out.outcome = .ok (.done (.error (.fetch error)))) :
    ∃ f, f.key = req.key ∧ Delivered log f error := by
  have hi := Run.inv h
  obtain ⟨sn, hout, hdata, herr⟩ := error_of_pass hpass
  rcases hi.read_ready hc.shell hev hout with rfl | ⟨e, hat, hcontent⟩
  · cases herr
  · have hshown := (Run.channels h).shows_subject hi hat.subject (.inl rfl)
    have hdata : e.content.data = none := by rw [← hcontent]; exact hdata
    have herr : e.content.error = some error := by rw [← hcontent]; exact herr
    rcases h.clean hleak e.tx _ hshown error herr with hdel | ⟨hsome, -⟩
    · exact ⟨_, by rw [hi.subject_tx hat.subject], hdel⟩
    · rw [hdata] at hsome
      cases hsome

/-- Every error a caller was told was delivered by a flight of its key. -/
theorem Run.delivered_of_done (h : Run defaults log s)
    (hleak : ∀ r ∈ log, ∀ c, r.label.call? = some c → ¬ r.pre.Leaks c) {n : Nat}
    {req : Request V F} {error : V} (hdone : s.callers n = .done req (.error (.fetch error))) :
    ∃ f, f.key = req.key ∧ Delivered log f error := by
  induction h with
  | nil => cases hdone
  | @snoc log s s' a hr hs ih =>
      have hleak' : ∀ r ∈ log, ∀ c, r.label.call? = some c → ¬ r.pre.Leaks c :=
        fun r hr => hleak r (List.mem_append_left _ hr)
      have hbefore : ∃ f, f.key = req.key ∧ Delivered log f error := by
        rcases hs.result hdone with hold | ⟨c, ha, -, hev, hpass⟩ | ⟨w, -, hn, hlook⟩
        · exact ih hleak' hold
        · exact Run.delivered_of_pass hr hleak' (hs.calls (by rw [ha]; rfl)) hev hpass
        · exact ⟨_, rfl, Run.delivered_of_look hr hleak' hn hlook⟩
      obtain ⟨f, hkey, hdel⟩ := hbefore
      exact ⟨f, hkey, hdel.snoc _⟩

/-- **Readers get the errors of flights.** In every run of the client in which no failing mutation
leaks, every error that `fetch()` returns, under any policy, was delivered by a flight of its key; one
that the wait loop returns was delivered by the flight of its entry whose seq is the `error_seq` of the
snapshot it was taken from. -/
theorem fetch_errors_delivered (h : Run defaults log s)
    (hleak : ∀ r ∈ log, ∀ c, r.label.call? = some c → ¬ r.pre.Leaks c) :
    (∀ n req error, s.callers n = .done req (.error (.fetch error)) →
      ∃ f, f.key = req.key ∧ Delivered log f error) ∧
    ∀ xs r ys, log = xs ++ r :: ys → ∀ n w req error, r.label = .look n →
      r.pre.callers n = .looking w → r.post.callers n = .done req (.error (.fetch error)) →
        Delivered xs ⟨req.key, w.rx.incarnation, (r.pre.channels w.rx).value.errorSeq⟩ error := by
  refine ⟨fun n req error hdone => h.delivered_of_done hleak hdone, ?_⟩
  rintro xs r ys rfl n w req error hlabel hn hdone
  obtain ⟨hpre, hstep, -⟩ := h.middle
  have hleak' : ∀ x ∈ xs, ∀ c, x.label.call? = some c → ¬ x.pre.Leaks c :=
    fun x hx => hleak x (List.mem_append_left _ hx)
  rw [hlabel] at hstep
  obtain ⟨w', hn', hpost⟩ := hstep.looked
  obtain rfl : w = w' := Phase.looking.inj (hn.symm.trans hn')
  exact Run.delivered_of_look hpre hleak' hn (hpost.symm.trans hdone)

end run

section witness

attribute [local instance] Shell.exampleClock

/-- What a caller was told, if it was told an error. -/
def Phase.errorOf? : Phase Nat Unit → Option (QueryKey × ReadPolicy × Nat)
  | .done req (.error (.fetch error)) => some (req.key, req.policy, error)
  | _ => none

theorem Phase.of_errorOf {p : Phase Nat Unit} {key : QueryKey} {policy : ReadPolicy} {error : Nat}
    (h : errorOf? p = some (key, policy, error)) :
    ∃ req, p = .done req (.error (.fetch error)) ∧ req.key = key ∧ req.policy = policy := by
  unfold errorOf? at h
  split at h
  · cases h
    exact ⟨_, rfl, rfl, rfl⟩
  · cases h

/-- The failing mutation that an event settles: its token, its error and its flags. -/
def failure? : Event Nat Unit → Option (MutationToken × Nat × MutateFlags)
  | .mutateCommit token (.error error) flags => some (token, error, flags)
  | _ => none

theorem of_failure {ev : Event Nat Unit} {token : MutationToken} {error : Nat} {flags : MutateFlags}
    (h : failure? ev = some (token, error, flags)) : ev = .mutateCommit token (.error error) flags := by
  unfold failure? at h
  split at h
  · cases h
    rfl
  · cases h

/-- The event is the failure of a flight. -/
def failsFlight : Event Nat Unit → Bool
  | .commitErr _ _ _ _ => true
  | _ => false

/-- A mutation fails and rolls back; then a fetch that a caller waits for fails. -/
def failedFetch : List (Input Nat Unit) :=
  [.dispatch (.mutateBegin ⟨0, []⟩ (some 7)) 0 [], .exec 0,
   .dispatch (.mutateCommit ⟨⟨0, []⟩, some 2⟩ (.error 8) ⟨true, true, false⟩) 1 [], .exec 1, .exec 1,
   .call 0 (exampleRequest .ensureFresh), .read 0 2, .exec 2, .exec 2,
   .dispatch (.commitErr ⟨0, []⟩ 0 3 9) 3 [], .exec 3, .exec 3, .look 0]

theorem fetch_errors_delivered_example : ∃ (log : Log Nat Unit) (s : Client Nat Unit) (req : _),
    Run .default log s ∧ log.length = 13 ∧ s.callers 0 = .done req (.error (.fetch 9)) ∧
      ∃ f, f.key = req.key ∧ Delivered log f 9 := by
  have hfacts : (((init .default : Client Nat Unit).exec failedFetch).map fun r =>
      (r.1.length, Phase.errorOf? (r.2.callers 0), r.1.all fun r => r.label.call?.all fun c =>
        (failure? c.event).all fun m => (r.pre.shell.inner.entry m.1.key).all fun e =>
          e.rollsBack m.1 m.2.2.rollbackOnError)) =
      some (13, some (⟨0, []⟩, .ensureFresh, 9), true) := by decide +kernel
  obtain ⟨⟨log, s⟩, hex, hl⟩ := Option.map_eq_some_iff.mp hfacts
  simp only [Prod.mk.injEq] at hl
  obtain ⟨hlen, hphase, hrolled⟩ := hl
  have hrun : Run .default log s := run_of_exec hex
  obtain ⟨req, hdone, -, -⟩ := Phase.of_errorOf hphase
  have hleak : ∀ r ∈ log, ∀ c, r.label.call? = some c → ¬ r.pre.Leaks c := by
    rintro r hr c hc ⟨token, error, flags, e, hev, he, hroll, -⟩
    have hall := List.all_eq_true.mp hrolled r hr
    simp only [hc, Option.all_some, hev, failure?, he] at hall
    rw [hall] at hroll
    cases hroll
  exact ⟨log, s, req, hrun, hlen, hdone, (fetch_errors_delivered hrun hleak).1 0 req 9 hdone⟩

/-- A mutation fails on a key without data; then the cache is read. -/
def failedMutation : List (Input Nat Unit) :=
  [.dispatch (.mutateBegin ⟨0, []⟩ none) 0 [], .exec 0,
   .dispatch (.mutateCommit ⟨⟨0, []⟩, none⟩ (.error 9) ⟨true, true, false⟩) 1 [], .exec 1, .exec 1,
   .call 0 (exampleRequest .cacheOnly), .read 0 2]

/-- **A mutation's error reaches a reader.** No flight delivered the error that `fetch()` returns here:
a `mutate()` future ended with it. -/
theorem mutation_error_returned : ∃ (log : Log Nat Unit) (s : Client Nat Unit) (req : _),
    Run .default log s ∧ s.callers 0 = .done req (.error (.fetch 9)) ∧ req.policy = .cacheOnly ∧
      (∀ f, ¬ Delivered log f 9) ∧
      ∃ r ∈ log, ∃ c token flags, r.label.call? = some c ∧ token.key = req.key ∧
        c.event = .mutateCommit token (.error 9) flags := by
  have hfacts : (((init .default : Client Nat Unit).exec failedMutation).map fun r =>
      (Phase.errorOf? (r.2.callers 0),
        (r.1.all fun r => r.label.call?.all fun c => !failsFlight c.event),
        r.1.any fun r => r.label.call?.any fun c => (failure? c.event).any fun m =>
          decide (m.1.key = ⟨0, []⟩ ∧ m.2.1 = 9))) =
      some (some (⟨0, []⟩, .cacheOnly, 9), true, true) := by decide +kernel
  obtain ⟨⟨log, s⟩, hex, hl⟩ := Option.map_eq_some_iff.mp hfacts
  simp only [Prod.mk.injEq] at hl
  obtain ⟨hphase, hnone, hsome⟩ := hl
  obtain ⟨req, hdone, hkey, hpolicy⟩ := Phase.of_errorOf hphase
  refine ⟨log, s, req, run_of_exec hex, hdone, hpolicy, ?_, ?_⟩
  · rintro f ⟨r, hr, c, hc, hev⟩
    have hall := List.all_eq_true.mp hnone r hr
    simp only [hc, Option.all_some, hev, failsFlight, Bool.not_true, Bool.false_eq_true] at hall
  · obtain ⟨r, hr, hany⟩ := List.any_eq_true.mp hsome
    obtain ⟨c, hc, hany⟩ := (Option.any_eq_true _ _).mp hany
    obtain ⟨⟨token, error, flags⟩, hev, hm⟩ := (Option.any_eq_true _ _).mp hany
    obtain ⟨htoken, rfl⟩ := of_decide_eq_true hm
    exact ⟨r, hr, c, token, flags, hc, htoken.trans hkey.symm, of_failure hev⟩

end witness

end Client

end SwrCore
