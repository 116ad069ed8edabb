import SwrCore.Client.Freshness

/-!
# Optimistic values and fresh reads

An optimistic write leaves `updated_at` where the last authoritative write put it, so the value is as
fresh as its predecessor; and it dates the value with a new seq, past the target of everyone who already
waits.

* `Shell.Stamped` — an entry is past the seq of every unsettled optimistic write.
* `Client.Unsettled`, `Client.Returns` — a seq of such a write, and the snapshots that an `EnsureFresh`
  fetch takes its value from.
* `Client.Exposes` — the two kinds of calls that let a fetch take an unsettled value.
* `Client.Ahead` — no waiting fetch is satisfied by an unsettled value: the invariant.
* `Client.optimistic_never_fresh` — where no call exposes it, no fetch returns an unsettled value.
* `Client.optimistic_fresh_hit` — a fresh hit on an optimistic value.
-/

set_option linter.unusedSectionVars false

namespace SwrCore

variable {V F : Type}

namespace Shell

/-- No unsettled optimistic write is past the seq of its entry. -/
def Stamped (s : Shell V F) : Prop :=
  ∀ k seq e, ⟨k, some seq⟩ ∈ s.tokens → s.inner.entry k = some e → seq ≤ e.seq

section step

variable [Platform] {s s' : Shell V F} {c : Call V F} (h : s.Inv) (hs : Step s c s')

include h hs

/-- A token is outstanding before the step, or it is the one of the optimistic write that the step
makes. -/
theorem Inv.token_origin {k : QueryKey} {seq : Nat} (ht : ⟨k, some seq⟩ ∈ s'.tokens) :
    ⟨k, some seq⟩ ∈ s.tokens ∨ ∃ value e, c.event = .mutateBegin k (some value) ∧
      s.inner.At c.event k (.mutateBegin (some value)) e ∧ seq = e.seq + 2 := by
  rw [next_tokens hs] at ht
  rcases h.token_of_call hs ht with hold | ⟨optimistic, hev⟩
  · exact .inl hold
  · obtain ⟨e, hsub, -, htokens⟩ := h.begin_outcome hs hev
    rw [htokens] at ht
    rcases List.mem_append.mp ht with hold | hnew
    · exact .inl hold
    · have hnew := congrArg MutationToken.writtenSeq (List.mem_singleton.mp hnew)
      cases optimistic with
      | none => cases hnew
      | some value =>
          have hon : c.event.on k s.inner.nextSubId = some (.mutateBegin (some value)) := by
            rw [hev]
            exact if_pos rfl
          exact .inr ⟨value, e, hev, ⟨hon, hsub, rfl⟩, Option.some.inj hnew⟩

/-- The entry of an outstanding token is there, and an event acts on it. -/
theorem Inv.token_stored {t : MutationToken} (ht : t ∈ s.tokens) {e' : EntryCore V F}
    (he' : s'.inner.entry t.key = some e') :
    ∃ e, s.inner.entry t.key = some e ∧ e'.tx = e.tx ∧ e.seq ≤ e'.seq := by
  obtain ⟨e, he⟩ := Option.isSome_iff_exists.mp (h.token_entry t ht)
  refine ⟨e, he, ?_⟩
  rcases (h.handled hs).inversion he' with ⟨-, hsame⟩ | ⟨kev, e₀, hat, rfl⟩
  · rw [he] at hsame
    cases hsame
    exact ⟨rfl, le_rfl⟩
  · obtain rfl := hat.of_entry he
    exact ⟨(Inner.after_frame t.key kev e₀).1, (h.after hs hat).2.2.2.1⟩

/-- **A step** keeps the unsettled optimistic writes within the seqs of their entries. -/
theorem Stamped.step (hst : s.Stamped) : s'.Stamped := by
  intro k seq e' ht he'
  rcases h.token_origin hs ht with hold | ⟨value, e, -, hat, rfl⟩
  · obtain ⟨e, he, -, hle⟩ := h.token_stored hs hold he'
    exact (hst k seq e hold he).trans hle
  · rw [hat.entry (h.handled hs), Option.some.injEq] at he'
    rw [← he', Inner.after, EntryCore.settled_seq]
    exact EntryCore.seq_le_react e s.inner.defaults c.now (.mutateBegin (some value))

/-- An `EnsureFresh` read is answered at once only from data that is not stale. -/
theorem Inv.fresh_hit {key : QueryKey} {fetcher : Option F} {compare : Option (Compare V)}
    {opts : QueryOptions} {sn : Snapshot V}
    (hev : c.event = .read key .ensureFresh fetcher compare opts)
    (hout : c.out.outcome = .read (.ready sn)) :
    ∃ e, s.inner.subject key (.read .ensureFresh fetcher compare opts : KeyEvent V F) = some e ∧
      sn.dataSeq = e.dataSeq ∧ e.isStale opts.staleTime c.now = false := by
  have hon : c.event.on key s.inner.nextSubId =
      some (.read .ensureFresh fetcher compare opts) := by
    rw [hev]
    exact if_pos rfl
  have hans := (h.handled hs).outcome key _ hon
  have hsub : s.inner.subject key (.read .ensureFresh fetcher compare opts : KeyEvent V F) =
    some ((s.inner.entry key).getD (.new key s.inner.nextIncarnation)) := if_pos rfl
  refine ⟨_, hsub, ?_⟩
  rw [hout, Inner.answer, hsub] at hans
  simp only [Option.elim_some, KeyEvent.outcome, KeyEvent.readOutcome, Outcome.read.injEq] at hans
  split_ifs at hans with hfresh
  · rw [Bool.and_eq_true, Bool.not_eq_true'] at hfresh
    rw [ReadOutcome.ready.inj hans]
    exact ⟨rfl, hfresh.2⟩
  · unfold EntryCore.waitOutcome at hans
    split at hans
    · cases hans
    · split_ifs at hans

end step

/-- So does every run. -/
theorem stamped_of_run [Platform] {defaults : QueryOptions}
    {log : List (Trace.Record (Shell V F) (Call V F))} {s : Shell V F} (h : Run defaults log s) :
    s.Stamped := by
  have hinit : (init defaults : Shell V F).Stamped :=
    fun _ _ _ ht => absurd ht List.not_mem_nil
  have hboth : s.Inv ∧ s.Stamped :=
    h.invariant (I := fun s => s.Inv ∧ s.Stamped) ⟨inv_init defaults, hinit⟩
      fun _ _ _ hi hs => ⟨hi.1.step hs, hi.2.step hi.1 hs⟩
  exact hboth.2

end Shell

namespace Client

/-- The seq was consumed by an optimistic write into the entry of this channel, and the mutation has
not settled. -/
def Unsettled (s : Client V F) (rx : Channel) (seq : Nat) : Prop :=
  (∃ e, s.shell.inner.entry rx.key = some e ∧ e.tx = rx) ∧ ⟨rx.key, some seq⟩ ∈ s.shell.tokens

/-- An `EnsureFresh` fetch takes its value from this snapshot of the channel: as a fresh hit of its
`Read`, or in its wait loop. -/
def Returns (r : Trace.Record (Client V F) (Act V F)) (rx : Channel) (sn : Snapshot V) : Prop :=
  (∃ c fetcher compare opts, r.label.call? = some c ∧
    c.event = .read rx.key .ensureFresh fetcher compare opts ∧
      c.out.outcome = .read (.ready sn)) ∨
    ∃ n w value, r.label = .look n ∧ r.pre.callers n = .looking w ∧
      w.req.policy = .ensureFresh ∧ w.rx = rx ∧ (r.pre.channels rx).value = sn ∧
        w.looked (r.pre.channels rx) = .done w.req (.ok value)

/-- The call lets an `EnsureFresh` fetch take an unsettled value: it is a `Read` that finds an unsettled
value not stale or whose write was the latest attempt, or it makes an optimistic write while such a fetch
waits on the channel. -/
def Exposes [Platform] (s : Client V F) (c : Call V F) : Prop :=
  (∃ k fetcher compare opts e seq, c.event = .read k .ensureFresh fetcher compare opts ∧
    s.shell.inner.entry k = some e ∧ ⟨k, some seq⟩ ∈ s.shell.tokens ∧
      (e.seq = seq ∨ e.dataSeq = seq ∧ e.isStale opts.staleTime c.now = false)) ∨
    ∃ k value e n w, c.event = .mutateBegin k (some value) ∧ s.shell.inner.entry k = some e ∧
      (s.callers n).waiter? = some w ∧ w.req.policy = .ensureFresh ∧ w.rx = e.tx

/-- **The invariant.** The target of every waiting `EnsureFresh` fetch is past the unsettled optimistic
writes into its entry. -/
def Ahead (s : Client V F) : Prop :=
  ∀ n w, (s.callers n).waiter? = some w → w.req.policy = .ensureFresh →
    ∀ seq, s.Unsettled w.rx seq → seq < w.target

section step

variable [Platform] {s s' : Client V F} {a : Act V F}

/-- A fetch that starts to wait is ahead of the unsettled writes, unless its `Read` exposed one. -/
theorem ahead_of_read (hi : s.shell.Inv) (hst : s.shell.Stamped) {c : Call V F} {shell : Shell V F}
    (hc : s.shell.Step c shell) (hex : ¬ s.Exposes c) {w : Waiter V F}
    (hpolicy : w.req.policy = .ensureFresh) (hev : c.event = w.req.event s.shell.inner.defaults)
    (hout : c.out.outcome = .read (.wait w.target w.rx)) {seq : Nat}
    (htoken : ⟨w.rx.key, some seq⟩ ∈ s.shell.tokens) : seq < w.target := by
  rw [Request.event, hpolicy] at hev
  obtain ⟨e, hat, -, hkey, e', -, rfl, -, -, hseq, -⟩ := hi.read_wait hc hev hout
  rw [hkey] at htoken
  obtain ⟨e₀, he₀⟩ := Option.isSome_iff_exists.mp (hi.token_entry _ htoken)
  obtain rfl := hat.of_entry he₀
  have hle := hst _ seq e htoken he₀
  have hmono := (hi.after hc hat).2.2.2.1
  have hne : e.seq ≠ seq := fun heq =>
    hex (.inl ⟨_, _, _, _, e, seq, hev, he₀, htoken, .inl heq⟩)
  omega

/-- **A step** keeps targets ahead of optimistic values, unless its call exposes one. -/
theorem Ahead.step (h : s.Ahead) (hi : s.shell.Inv) (hst : s.shell.Stamped) (hw : s.Waits)
    (hs : Step s a s') (hex : ∀ c, a.call? = some c → ¬ s.Exposes c) : s'.Ahead := by
  intro n w hn hpolicy seq ⟨⟨e', he', htx⟩, htoken⟩
  rcases hs.shell with ⟨c, hcall, hc⟩ | ⟨hnone, hsame⟩
  · rcases hs.waiter hn with hold | ⟨c', rfl, -, hev, hout, -⟩
    · rcases hi.token_origin hc htoken with ht | ⟨value, e, hev, hat, -⟩
      · obtain ⟨e, he, htx', -⟩ := hi.token_stored hc ht he'
        exact h n w hold hpolicy seq ⟨⟨e, he, htx'.symm.trans htx⟩, ht⟩
      · -- The optimistic write comes while the fetch waits on the channel.
        rw [hat.entry (hi.handled hc), Option.some.injEq] at he'
        have htx : e.tx = w.rx := by
          rw [← htx, ← he']
          exact (Inner.after_frame w.rx.key _ e).1.symm
        rcases (hi.subject hat.subject).2.2.2 with he | ⟨-, rfl, -⟩
        · exact absurd (.inr ⟨_, value, e, n, w, hev, he, hold, hpolicy, htx.symm⟩) (hex c hcall)
        · have hlt := (hw.channel n w hold).2
          rw [← htx] at hlt
          exact absurd hlt (lt_irrefl _)
    · cases hcall
      have htoken : ⟨w.rx.key, some seq⟩ ∈ s.shell.tokens := by
        rcases hi.token_origin hc htoken with ht | ⟨_, _, hev', -⟩
        · exact ht
        · rw [hev] at hev'
          cases hev'
      exact ahead_of_read hi hst hc (hex c rfl) hpolicy hev hout htoken
  · rcases hs.waiter hn with hold | ⟨c, rfl, -⟩
    · rw [hsame] at he' htoken
      exact h n w hold hpolicy seq ⟨⟨e', he', htx⟩, htoken⟩
    · cases hnone

end step

section run

variable [Platform] {defaults : QueryOptions} {log : Log V F} {s : Client V F}

/-- So does a run none of whose calls exposes one. -/
theorem Run.ahead (h : Run defaults log s)
    (hex : ∀ r ∈ log, ∀ c, r.label.call? = some c → ¬ r.pre.Exposes c) : s.Ahead := by
  refine h.history (P := fun log s => (∀ r ∈ log, ∀ c, r.label.call? = some c →
    ¬ r.pre.Exposes c) → s.Ahead) (fun _ n w hn => by cases hn) ?_ hex
  intro log s a s' hrun ih hs hex
  refine (ih fun r hr => hex r (List.mem_append_left _ hr)).step (Run.inv hrun)
    (Shell.stamped_of_run (Run.shell hrun)) (Run.waits hrun) hs fun c hc => ?_
  exact hex ⟨s, a, s'⟩ (by simp) c hc

/-- **Unsettled values are not fresh.** In every run of the client no call of which exposes an unsettled
optimistic value, no `EnsureFresh` fetch takes its value from a snapshot that shows one: its `Read` is
not answered by a fresh hit on it, and its wait loop does not take it. -/
theorem optimistic_never_fresh (h : Run defaults log s)
    (hex : ∀ r ∈ log, ∀ c, r.label.call? = some c → ¬ r.pre.Exposes c) :
    ∀ r ∈ log, ∀ rx sn, Returns r rx sn → ¬ r.pre.Unsettled rx sn.dataSeq := by
  rintro r hr rx sn hret ⟨⟨e, he, htx⟩, htoken⟩
  obtain ⟨xs, ys, rfl, hpre, hs, -⟩ := h.of_mem hr
  have hi := Run.inv hpre
  rcases hret with ⟨c, fetcher, compare, opts, hcall, hev, hout⟩ |
    ⟨n, w, value, hlabel, hn, hpolicy, rfl, rfl, hlook⟩
  · obtain ⟨e₀, hsub, hseq, hstale⟩ := hi.fresh_hit (hs.calls hcall).shell hev hout
    obtain rfl : e = e₀ := by
      rcases (hi.subject hsub).2.2.2 with he₀ | ⟨hnone, -⟩
      · exact Option.some.inj (he.symm.trans he₀)
      · rw [he] at hnone
        cases hnone
    exact hex r hr c hcall (.inl ⟨rx.key, fetcher, compare, opts, e, sn.dataSeq, hev, he, htoken,
      .inr ⟨hseq.symm, hstale⟩⟩)
  · obtain ⟨-, ⟨value', -, -, hle⟩ | ⟨error, hres, -⟩⟩ := Waiter.looked_done hlook
    · have hahead := Run.ahead hpre (fun x hx => hex x (List.mem_append_left _ hx)) n w
        (by rw [hn]; rfl) hpolicy _ ⟨⟨e, he, htx⟩, htoken⟩
      omega
    · cases hres

end run

section witness

attribute [local instance] Shell.exampleClock

/-- A value is set, a mutation with an optimistic value begins, and a caller wants a fresh value. -/
def freshHit : List (Input Nat Unit) :=
  [.dispatch (.mutateSet ⟨0, []⟩ 5) 0 [], .dispatch (.mutateBegin ⟨0, []⟩ (some 7)) 1 [],
   .call 0 (exampleRequest .ensureFresh), .read 0 2]

/-- What a `Read` was answered at once. -/
def hit? (r : Trace.Record (Client Nat Unit) (Act Nat Unit)) : Option (Option Nat × Nat) :=
  match r.label.call? with
  | some c =>
    match c.event, c.out.outcome with
    | .read ⟨0, []⟩ .ensureFresh _ _ _, .read (.ready sn) => some (sn.data, sn.dataSeq)
    | _, _ => none
  | none => none

theorem returns_of_hit {r : Trace.Record (Client Nat Unit) (Act Nat Unit)} {data : Option Nat}
    {seq : Nat} (h : hit? r = some (data, seq)) (incarnation : Nat) :
    ∃ sn, Returns r ⟨⟨0, []⟩, incarnation⟩ sn ∧ sn.data = data ∧ sn.dataSeq = seq := by
  unfold hit? at h
  split at h
  · next c hcall =>
      split at h
      · next fetcher compare opts sn hev hout =>
          simp only [Option.some.injEq, Prod.mk.injEq] at h
          exact ⟨sn, .inl ⟨c, _, _, _, hcall, hev, hout⟩, h⟩
      · cases h
  · cases h

/-- **An optimistic value is fresh.** The value before it was set a moment ago, so the `Read` is answered
with the optimistic one, while the mutation is still running. -/
theorem optimistic_fresh_hit : ∃ (log : Log Nat Unit) (s : Client Nat Unit)
    (r : Trace.Record (Client Nat Unit) (Act Nat Unit)) (rx : Channel) (sn : Snapshot Nat),
      Run .default log s ∧ r ∈ log ∧ Returns r rx sn ∧ sn.data = some 7 ∧
        r.pre.Unsettled rx sn.dataSeq := by
  let key : QueryKey := ⟨0, []⟩
  have hfacts : ((init .default : Client Nat Unit).exec freshHit).map (fun r =>
      (r.1.drop 3).map fun r => (hit? r, (r.pre.shell.inner.entry key).map EntryCore.tx,
        decide (⟨key, some 3⟩ ∈ r.pre.shell.tokens))) =
      some [(some (some 7, 3), some ⟨key, 0⟩, true)] := by decide +kernel
  obtain ⟨⟨log, s⟩, hex, hfacts⟩ := Option.map_eq_some_iff.mp hfacts
  have hrun : Run .default log s := run_of_exec hex
  clear hex
  obtain ⟨r, rest, hlog, hr, -⟩ := List.map_eq_cons_iff.mp hfacts
  have hmem : r ∈ log := List.mem_of_mem_drop (by rw [hlog]; exact List.mem_cons_self)
  simp only [Prod.mk.injEq, decide_eq_true_eq] at hr
  obtain ⟨hhit, htx, htoken⟩ := hr
  obtain ⟨e, he, hetx⟩ := Option.map_eq_some_iff.mp htx
  obtain ⟨sn, hret, hdata, hseq⟩ := returns_of_hit hhit 0
  exact ⟨log, s, r, ⟨key, 0⟩, sn, hrun, hmem, hret, hdata, ⟨e, he, hetx⟩, hseq ▸ htoken⟩

/-- No unsettled write is dated by a seq that a read would take, and mutations begin on new keys. -/
def spares (r : Trace.Record (Client Nat Unit) (Act Nat Unit)) : Bool :=
  r.label.call?.all fun c =>
    match c.event with
    | .read k _ _ _ _ => (r.pre.shell.inner.entry k).all fun e =>
        r.pre.shell.tokens.all fun t =>
          decide (t.writtenSeq ≠ some e.seq ∧ t.writtenSeq ≠ some e.dataSeq)
    | .mutateBegin k _ => (r.pre.shell.inner.entry k).isNone
    | _ => true

theorem not_exposes_of_spares {r : Trace.Record (Client Nat Unit) (Act Nat Unit)}
    (h : spares r = true) {c : Call Nat Unit} (hc : r.label.call? = some c) :
    ¬ r.pre.Exposes c := by
  rw [spares, hc, Option.all_some] at h
  rintro (⟨k, fetcher, compare, opts, e, seq, hev, he, ht, hor⟩ |
    ⟨k, value, e, n, w, hev, he, -⟩)
  · simp only [hev, he, Option.all_some, List.all_eq_true, decide_eq_true_eq] at h
    obtain ⟨h₁, h₂⟩ := h _ ht
    rcases hor with rfl | ⟨rfl, -⟩
    · exact h₁ rfl
    · exact h₂ rfl
  · simp only [hev, he, Option.isNone_some, Bool.false_eq_true] at h

/-- A value is set while a mutation with an optimistic value is running, and a caller wants a fresh
value. -/
def settledHit : List (Input Nat Unit) :=
  [.dispatch (.mutateBegin ⟨0, []⟩ (some 7)) 0 [], .dispatch (.mutateSet ⟨0, []⟩ 5) 1 [],
   .call 0 (exampleRequest .ensureFresh), .read 0 2]

set_option synthInstance.maxSize 512 in
/-- The caller is answered with the value that was set, while the mutation is still running. -/
theorem optimistic_never_fresh_example : ∃ (log : Log Nat Unit) (s : Client Nat Unit)
    (r : Trace.Record (Client Nat Unit) (Act Nat Unit)) (rx : Channel) (sn : Snapshot Nat),
      Run .default log s ∧ r ∈ log ∧ Returns r rx sn ∧ sn.data = some 5 ∧
        ⟨rx.key, some 2⟩ ∈ r.pre.shell.tokens ∧ ¬ r.pre.Unsettled rx sn.dataSeq := by
  let key : QueryKey := ⟨0, []⟩
  have hfacts : ((init .default : Client Nat Unit).exec settledHit).map (fun r =>
      (r.1.all spares, (r.1.drop 3).map fun r => (hit? r,
        decide (⟨key, some 2⟩ ∈ r.pre.shell.tokens)))) =
      some (true, [(some (some 5, 3), true)]) := by decide +kernel
  obtain ⟨⟨log, s⟩, hex, hfacts⟩ := Option.map_eq_some_iff.mp hfacts
  have hrun : Run .default log s := run_of_exec hex
  clear hex
  obtain ⟨hspares, hlast⟩ := Prod.mk.inj hfacts
  obtain ⟨r, rest, hlog, hr, -⟩ := List.map_eq_cons_iff.mp hlast
  have hmem : r ∈ log := List.mem_of_mem_drop (by rw [hlog]; exact List.mem_cons_self)
  simp only [Prod.mk.injEq, decide_eq_true_eq] at hr
  obtain ⟨sn, hret, hdata, -⟩ := returns_of_hit hr.1 0
  refine ⟨log, s, r, ⟨key, 0⟩, sn, hrun, hmem, hret, hdata, hr.2, ?_⟩
  exact optimistic_never_fresh hrun (fun x hx c hc =>
    not_exposes_of_spares (List.all_eq_true.mp hspares x hx) hc) r hmem _ sn hret

end witness

end Client

end SwrCore
