import SwrCore.Client.Accounts
import SwrCore.Client.Draining
import SwrCore.Client.Freshness
import SwrCore.Client.Sorting
import SwrCore.Library.Drain

/-!
# A call of `fetch()` returns

Left to itself, the client comes to rest: nobody calls it, no timer fires, no future is dropped, and the
fetchers that run end. What is at rest has no effect left to execute, and every call has returned, unless a
mutation is outstanding on its key, or on one of a smaller rank.

* `Client.Run.alive` — no call panics.
* `Client.Internal.moves` — what a step of the client makes of a call.
* `Client.Run.call_at_rest`, `Client.Run.held_at_rest` — why a call is still under way at rest.
* `Client.Ranked` — the calls that fetchers may have issued are for keys of a smaller rank.
* `Client.fetch_returns` — the law.
-/

set_option linter.unusedSectionVars false

namespace SwrCore

variable {V F : Type}

namespace Client

/-! ## No call panics -/

section alive

variable [Platform] {defaults : QueryOptions} {log : Log V F} {s s' : Client V F} {a : Act V F}

theorem Run.target_pos (h : Run defaults log s) :
    ∀ n w, (s.callers n).waiter? = some w → 1 ≤ w.target := by
  refine h.keeps (J := fun s => ∀ n w, (s.callers n).waiter? = some w → 1 ≤ w.target)
    (fun n w hw => by cases hw) ?_
  intro s a s' hi hJ hs n w hw
  rcases hs.waiter hw with hold | ⟨c, rfl, -, hev, hout, -⟩
  · exact hJ n w hold
  · obtain ⟨ro, hro, hsound⟩ := hi.read_outcome (hs.calls rfl).shell hev
    rw [hout] at hro
    cases hro
    exact hsound

/-- A look at a sound snapshot does not panic. -/
theorem looked_alive {w : Waiter V F} {seen : Watch V} (hsound : seen.value.Sound)
    (ht : 1 ≤ w.target) (panic : Panic) : w.looked seen ≠ .dead panic := by
  obtain ⟨x, hx⟩ := look_of_sound hsound ht
  rw [Waiter.looked, hx]
  intro hdead
  cases x with
  | data value => cases hdead
  | error error => cases hdead
  | park poke =>
      simp only at hdead
      split_ifs at hdead

/-- The outcome of a `Read` does not panic. -/
theorem passed_alive (req : Request V F) (ro : ReadOutcome V) (panic : Panic) :
    req.passed (pass (.read ro)) ≠ .dead panic := by
  intro hdead
  cases ro <;> cases hdead

/-- **No call panics.** -/
theorem Run.alive (h : Run defaults log s) : ∀ n panic, s.callers n ≠ .dead panic := by
  refine h.history (P := fun _ s => ∀ n panic, s.callers n ≠ .dead panic)
    (fun n panic hdead => by cases hdead) ?_
  intro log s a s' hr hJ hs n panic hdead
  rcases hs.caller n with heq | ha
  · exact hJ n panic (heq ▸ hdead)
  · cases hs <;> cases ha <;> simp only [moved_self] at hdead
    case call.refl => cases hdead
    case read.refl req shell c hc hev hn =>
      obtain ⟨ro, hout, -⟩ := (Run.inv hr).read_outcome hc hev
      rw [hout] at hdead
      exact passed_alive req ro panic hdead
    case look.refl w hn =>
      have hsound := Run.visible_sound hr w.rx _ (.inl rfl)
      exact looked_alive hsound (Run.target_pos hr n w (by rw [hn]; rfl)) panic hdead
    case poke.refl => cases hdead
    case wake.refl => cases hdead
    case closed.refl => cases hdead
    case drop.refl => cases hdead

end alive

/-! ## What a step makes of a call -/

section moves

variable [Platform] {issuer : Nat → Option Flight} {s s' : Client V F} {a : Act V F}

/-- A call under way goes on for the same request, or it returns; all others stay as they are. -/
theorem Internal.moves (h : Internal issuer s a s') (n : Nat) :
    s'.callers n = s.callers n ∨ ∃ req, (s.callers n).underWay? = some req ∧
      ((s'.callers n).underWay? = some req ∨ (∃ result, s'.callers n = .done req result) ∨
        ∃ panic, s'.callers n = .dead panic) := by
  rcases h.step.caller n with heq | ha
  · exact .inl heq
  · refine .inr ?_
    obtain ⟨hs, hint, -⟩ := h
    cases hs <;> cases ha <;> simp only [moved_self]
    case call.refl => cases hint
    case drop.refl => cases hint
    case read.refl req shell c hc hev hn =>
      refine ⟨req, by rw [hn]; rfl, ?_⟩
      cases pass c.out.outcome with
      | error panic => exact .inr (.inr ⟨panic, rfl⟩)
      | ok r =>
          cases r with
          | done result => exact .inr (.inl ⟨result, rfl⟩)
          | wait target rx => exact .inl rfl
    case look.refl w hn =>
      refine ⟨w.req, by rw [hn]; rfl, ?_⟩
      unfold Waiter.looked
      split
      · exact .inr (.inr ⟨_, rfl⟩)
      · exact .inr (.inl ⟨_, rfl⟩)
      · exact .inr (.inl ⟨_, rfl⟩)
      · split_ifs <;> exact .inl rfl
    case poke.refl w seen shell c hc hev hn => exact ⟨w.req, by rw [hn]; rfl, .inl rfl⟩
    case wake.refl w seen he hn => exact ⟨w.req, by rw [hn]; rfl, .inl rfl⟩
    case closed.refl w seen he ho hn => exact ⟨w.req, by rw [hn]; rfl, .inl rfl⟩

/-- A call that is under way was under way before. -/
theorem Internal.underWay_of (h : Internal issuer s a s') {n : Nat} {req : Request V F}
    (hn : (s'.callers n).underWay? = some req) : (s.callers n).underWay? = some req := by
  rcases h.moves n with heq | ⟨req', hbefore, hafter | ⟨result, hafter⟩ | ⟨panic, hafter⟩⟩
  · exact heq ▸ hn
  · rw [hafter] at hn
    exact hbefore.trans hn
  · rw [hafter] at hn
    cases hn
  · rw [hafter] at hn
    cases hn

/-- The client by itself takes and returns no handle and no token. -/
theorem Internal.neutral (h : Internal issuer s a s') {c : Call V F} (hc : a.call? = some c) :
    c.event.accounts = false := by
  obtain ⟨hs, hint, -⟩ := h
  cases hs with
  | dispatch _ _ =>
      cases hc
      obtain ⟨f, hf⟩ := Option.isSome_iff_exists.mp hint
      generalize c.event = ev at hf ⊢
      cases ev <;> cases hf <;> rfl
  | read _ _ hev =>
      cases hc
      rw [hev]
      rfl
  | poke _ _ hev =>
      cases hc
      rw [hev]
      rfl
  | _ => cases hc

theorem Internal.books (h : Internal issuer s a s') :
    s'.shell.handles = s.shell.handles ∧ s'.shell.tokens = s.shell.tokens := by
  rcases h.step.shell with ⟨c, hc, hstep⟩ | ⟨-, hkeep⟩
  · rw [Shell.next_handles hstep, Shell.next_tokens hstep]
    exact Call.of_neutral (h.neutral hc) s.shell.handles s.shell.tokens
  · rw [hkeep]
    exact ⟨rfl, rfl⟩

end moves

section run

variable [Platform] {issuer : Nat → Option Flight} {defaults : QueryOptions} {log later : Log V F}
  {s s' : Client V F}

/-- A stretch that the client makes by itself is part of a run. -/
theorem Run.extend (h : Run defaults log s) (hr : Trace.Run (Internal issuer) s later s') :
    Run defaults (log ++ later) s' :=
  h.trans (hr.mono fun _ _ _ hs => hs.step)

theorem books_of_run (hr : Trace.Run (Internal issuer) s later s') :
    s'.shell.handles = s.shell.handles ∧ s'.shell.tokens = s.shell.tokens :=
  hr.invariant
    (I := fun s' => s'.shell.handles = s.shell.handles ∧ s'.shell.tokens = s.shell.tokens) ⟨rfl, rfl⟩
    fun _ _ _ hJ hs => ⟨hs.books.1.trans hJ.1, hs.books.2.trans hJ.2⟩

theorem underWay_of_run (hr : Trace.Run (Internal issuer) s later s') {n : Nat}
    {req : Request V F} (hn : (s'.callers n).underWay? = some req) :
    (s.callers n).underWay? = some req := by
  induction hr with
  | nil => exact hn
  | snoc _ hs ih => exact ih (hs.underWay_of hn)

/-- What becomes of a call under way. -/
theorem call_of_run (hr : Trace.Run (Internal issuer) s later s') {n : Nat}
    {req : Request V F} (hn : (s.callers n).underWay? = some req) :
    (s'.callers n).underWay? = some req ∨ (∃ result, s'.callers n = .done req result) ∨
      ∃ panic, s'.callers n = .dead panic := by
  induction hr with
  | nil => exact .inl hn
  | snoc _ hs ih =>
      rcases hs.moves n with heq | ⟨req', hbefore, hafter⟩
      · rw [heq]
        exact ih
      · rcases ih with hway | ⟨result, hdone⟩ | ⟨panic, hdead⟩
        · cases hway.symm.trans hbefore
          exact hafter
        · rw [hdone] at hbefore
          cases hbefore
        · rw [hdead] at hbefore
          cases hbefore

/-- Only those who moved are not idle. -/
theorem Run.among (h : Run defaults log s) :
    s.Among (log.filterMap fun r => r.label.caller?).toFinset := by
  refine h.history (P := fun log s => s.Among (log.filterMap fun r => r.label.caller?).toFinset)
    (fun _ _ => rfl) ?_
  intro log s a s' _ hns hs n hn
  rw [List.filterMap_append, List.toFinset_append, Finset.mem_union, not_or] at hn
  rcases hs.caller n with heq | hcaller
  · rw [heq, hns n hn.1]
  · refine absurd ?_ hn.2
    simp [hcaller]

/-- Left to itself, the client makes boundedly many steps. -/
theorem Run.exists_bound (h : Run defaults log s) (issuer : Nat → Option Flight) :
    ∃ bound, ∀ later s', Trace.Run (Internal issuer) s later s' → later.length ≤ bound := by
  obtain ⟨ns, hns⟩ : ∃ ns, s.Among ns := ⟨_, h.among⟩
  refine ⟨Trace.drainBound (growth ns.card) (s.stages ns) (s.load ns), fun later s' hr => ?_⟩
  have hstep : ∀ (s : Client V F) (a : Act V F) (s' : Client V F),
      (∃ log, Run defaults log s) ∧ s.Among ns → Internal issuer s a s' →
      ((∃ log, Run defaults log s') ∧ s'.Among ns) ∧
        ((s'.stages ns ≤ s.stages ns ∧ s'.load ns < s.load ns) ∨
          (s'.stages ns < s.stages ns ∧ s'.load ns ≤ growth ns.card (s.load ns))) := by
    rintro s a s' ⟨⟨log, hr⟩, hns⟩ hs
    exact ⟨⟨⟨_, hr.snoc hs.step⟩, hs.among hns⟩, hs.drains (Run.inv hr) (Run.targets hr) hns⟩
  have hle := hr.length_le_of_stages (growth_mono ns.card) hstep ⟨⟨log, h⟩, hns⟩
  exact (Nat.le_add_right _ _).trans hle.2

end run

/-! ## At rest -/

section rest

/-- An effect that waits is at the head of its batch, or behind one that is. -/
theorem exists_head {s : Client V F} {x : Effect V F} (hx : x ∈ s.pending) :
    ∃ before y rest after, s.batches = before ++ (y :: rest) :: after := by
  obtain ⟨b, hb, hxb⟩ := List.mem_flatten.mp hx
  obtain ⟨before, after, hbatches⟩ := List.append_of_mem hb
  cases b with
  | nil => cases hxb
  | cons y rest => exact ⟨before, y, rest, after, hbatches⟩

variable [Platform] {issuer : Nat → Option Flight} {defaults : QueryOptions} {log : Log V F}
  {s : Client V F}

/-- A caller in `changed()` that nothing wakes. -/
def Sleeps (s : Client V F) (w : Waiter V F) (seen : Watch V) : Prop :=
  seen.epoch = (s.channels w.rx).epoch ∧ s.isOpen w.rx = true

/-- No effect waits at rest. -/
theorem pending_at_rest (hrest : Trace.Stuck (Internal issuer) s) : s.pending = [] := by
  refine List.eq_nil_iff_forall_not_mem.mpr fun x hx => ?_
  obtain ⟨before, y, rest, after, hb⟩ := exists_head hx
  exact hrest _ _ ⟨.exec hb, rfl, by rintro c f hexec; cases hexec⟩

/-- A fetch that runs at rest waits for a call of its own. -/
theorem Run.task_at_rest [Inhabited V] (h : Run defaults log s)
    (hrest : Trace.Stuck (Internal issuer) s) {f : Flight} (hf : .fetch f ∈ s.tasks) :
    ∃ n req, issuer n = some f ∧ (s.callers n).underWay? = some req := by
  by_contra hnone
  let ev : Event V F := .commitErr f.key f.incarnation f.seq default
  have hends : ev.task? = some (.fetch f) := rfl
  obtain ⟨c, s', hs, hev, -⟩ := h.ends hf hends 0
  have hlanding : c.event.landing? = some f := by rw [hev]; rfl
  refine hrest _ _ ⟨hs, by rw [Act.internal, hlanding]; rfl, ?_⟩
  rintro c' f' heq hf' n hn
  cases heq
  cases hlanding.symm.trans hf'
  refine Option.eq_none_iff_forall_ne_some.mpr fun req hreq => hnone ⟨n, req, hn, hreq⟩

/-- A call that is under way at rest sleeps. -/
theorem Run.call_at_rest (h : Run defaults log s) (hrest : Trace.Stuck (Internal issuer) s)
    {n : Nat} {req : Request V F} (hn : (s.callers n).underWay? = some req) :
    ∃ w seen, s.callers n = .parked w seen ∧ w.req = req ∧ s.Sleeps w seen := by
  have hno : ∀ a s', Step s a s' → a.internal = true → (∀ c, a ≠ .dispatch c) → False := by
    intro a s' hs hint hdispatch
    exact hrest _ _ ⟨hs, hint, fun c f ha => absurd ha (hdispatch c)⟩
  have hnone : ∀ {ev : Event V F}, ev.scans = false → ev.scans = true →
      s.shell.inner.IsScan [] := by
    intro ev hno hscan
    cases hno.symm.trans hscan
  cases hp : s.callers n with
  | reading req' =>
      have hen : s.shell.Enabled (req'.event s.shell.inner.defaults) := trivial
      obtain ⟨inner, out, -, hstep⟩ := h.inv.step_exists hen 0 (hnone rfl)
      exact absurd (hno _ _ (.read hp hstep rfl) rfl fun c hc => by cases hc) not_false
  | looking w => exact absurd (hno _ _ (.look hp) rfl fun c hc => by cases hc) not_false
  | poking w seen =>
      have hen : s.shell.Enabled (.revalidateRequested w.req.key) := trivial
      obtain ⟨inner, out, -, hstep⟩ := h.inv.step_exists hen 0 (hnone rfl)
      exact absurd (hno _ _ (.poke hp hstep rfl) rfl fun c hc => by cases hc) not_false
  | parked w seen =>
      rw [hp] at hn
      cases hn
      have hepoch : seen.epoch = (s.channels w.rx).epoch := by
        by_contra he
        exact hno _ _ (.wake hp he) rfl fun c hc => by cases hc
      refine ⟨w, seen, rfl, rfl, hepoch, ?_⟩
      by_contra hopen
      exact hno _ _ (.closed hp hepoch (Bool.eq_false_of_not_eq_true hopen)) rfl
        fun c hc => by cases hc
  | _ =>
      rw [hp] at hn
      cases hn

/-- What a sleeping call waits for, when no effect is left: a fetch that runs, or a mutation. -/
theorem Run.sleeps_for (h : Run defaults log s) (hpending : s.pending = []) {n : Nat}
    {w : Waiter V F} {seen : Watch V} (hn : s.callers n = .parked w seen)
    (hsleeps : s.Sleeps w seen) :
    (∃ t ∈ s.shell.tokens, t.key = w.req.key) ∨ ∃ f, f.key = w.req.key ∧ .fetch f ∈ s.tasks := by
  have hi := h.inv
  have hwaits := h.waits
  obtain ⟨hsaw, -, -⟩ := hwaits.seen n w seen (by rw [hn]; rfl)
  obtain rfl := hsaw.latest hsleeps.1
  have hkey := (hwaits.channel n w (by rw [hn]; rfl)).1
  have hopen := hsleeps.2
  rw [isOpen, hpending, List.any_nil, Bool.or_false, Option.any_eq_true] at hopen
  obtain ⟨e, hentry, htx⟩ := hopen
  have htx := of_decide_eq_true htx
  have hinc : e.incarnation = w.rx.incarnation := by rw [← htx, hi.tx _ e hentry]
  -- What the call saw is the state of the entry, and it has not poked in vain.
  have hsync : (s.channels w.rx).value = e.snapshotNow := by
    rw [← htx]
    refine h.channels.shown hentry fun sn hmem => ?_
    rw [hpending] at hmem
    cases hmem
  have hbusy : e.snapshotNow.isIdle = false := by
    refine Bool.eq_false_of_not_eq_true fun hidle => ?_
    have hlt := hwaits.poked n w _ hn (by rw [hsync]; exact hidle) e hentry htx
    rw [hsync] at hlt
    exact lt_irrefl _ hlt
  rcases EntryCore.busy_of_not_idle hbusy with ⟨seq, hseq⟩ | hm
  · refine .inr ⟨⟨w.rx.key, w.rx.incarnation, seq⟩, hkey, ?_⟩
    refine (h.spawned _ ⟨e, hentry, hinc, hseq⟩).resolve_right ?_
    rintro ⟨fetcher, hx⟩
    rw [hpending] at hx
    cases hx
  · rw [(hi.owned _ e hentry).mutations, List.countP_pos_iff] at hm
    obtain ⟨t, ht, htkey⟩ := hm
    exact .inl ⟨t, ht, (of_decide_eq_true htkey).trans hkey⟩

end rest

/-! ## The law -/

/-- The fetchers that issued a call under way did so for a key of a smaller rank than their own. -/
def Ranked (issuer : Nat → Option Flight) (rank : QueryKey → Nat) (s : Client V F) : Prop :=
  ∀ n f req, issuer n = some f → (s.callers n).underWay? = some req → rank req.key < rank f.key

section law

variable [Platform] [Inhabited V] {issuer : Nat → Option Flight} {rank : QueryKey → Nat}
  {defaults : QueryOptions} {log : Log V F} {s : Client V F}

/-- Whatever call is under way at rest is held up by a mutation: on its key, or on one of a smaller
rank. -/
theorem Run.held_at_rest (h : Run defaults log s) (hrank : Ranked issuer rank s)
    (hrest : Trace.Stuck (Internal issuer) s) {n : Nat} {req : Request V F}
    (hn : (s.callers n).underWay? = some req) :
    ∃ t ∈ s.shell.tokens, t.key = req.key ∨ rank t.key < rank req.key := by
  have hchain : ∀ k, (∃ n req, (s.callers n).underWay? = some req ∧ req.key = k) →
      (∃ t ∈ s.shell.tokens, t.key = k) ∨
        ∃ k', (∃ n req, (s.callers n).underWay? = some req ∧ req.key = k') ∧ rank k' < rank k := by
    rintro _ ⟨n, req, hn, rfl⟩
    obtain ⟨w, seen, hparked, rfl, hsleeps⟩ := h.call_at_rest hrest hn
    refine (h.sleeps_for (pending_at_rest hrest) hparked hsleeps).imp_right ?_
    rintro ⟨f, hkey, htask⟩
    obtain ⟨m, req', hm, hreq'⟩ := h.task_at_rest hrest htask
    exact ⟨req'.key, ⟨m, req', hreq', rfl⟩, hkey ▸ hrank m f req' hm hreq'⟩
  obtain ⟨k, -, ⟨t, ht, rfl⟩, hk⟩ := Trace.exists_least_of_waits hchain ⟨n, req, hn, rfl⟩
  exact ⟨t, ht, hk⟩

/-- **`fetch()` returns.** Take any reachable configuration, and let the client go on by itself: effects
are executed, fetches end with whatever result, and callers move on, in any order. A fetcher may have
issued calls of its own, if only for keys of a smaller rank, and ends after them. Then every such run is
bounded, it goes on until nothing is left to do, and there every call that was under way has returned a
result, unless a mutation is outstanding on its key or on one of a smaller rank. -/
theorem fetch_returns (h : Run defaults log s) (hrank : Ranked issuer rank s) :
    (∃ bound, ∀ later s', Trace.Run (Internal issuer) s later s' → later.length ≤ bound) ∧
    ∀ later s', Trace.Run (Internal issuer) s later s' →
      (∃ more s'', Trace.Run (Internal issuer) s' more s'' ∧
        Trace.Stuck (Internal issuer) s'') ∧
      (Trace.Stuck (Internal issuer) s' →
        s'.pending = [] ∧
        (∀ f, .fetch f ∈ s'.tasks → ∃ t ∈ s.shell.tokens, rank t.key < rank f.key) ∧
        ∀ n req, (s.callers n).underWay? = some req →
          (∃ result, s'.callers n = .done req result) ∨
            ∃ t ∈ s.shell.tokens, t.key = req.key ∨ rank t.key < rank req.key) := by
  refine ⟨h.exists_bound issuer, fun later s' hr => ?_⟩
  have h' := h.extend hr
  have htokens := (books_of_run hr).2
  have hrank' : Ranked issuer rank s' :=
    fun n f req hn hreq => hrank n f req hn (underWay_of_run hr hreq)
  obtain ⟨bound, hbound⟩ := h'.exists_bound issuer
  refine ⟨Trace.exists_stuck hbound, fun hrest => ⟨pending_at_rest hrest, ?_, ?_⟩⟩
  · intro f hf
    obtain ⟨n, req, hn, hreq⟩ := h'.task_at_rest hrest hf
    obtain ⟨t, ht, hheld⟩ := h'.held_at_rest hrank' hrest hreq
    have hlt := hrank' n f req hn hreq
    refine ⟨t, htokens ▸ ht, ?_⟩
    rcases hheld with hkey | hless
    · rw [hkey]
      exact hlt
    · exact hless.trans hlt
  · intro n req hn
    rcases call_of_run hr hn with hway | hdone | ⟨panic, hdead⟩
    · obtain ⟨t, ht, hheld⟩ := h'.held_at_rest hrank' hrest hway
      exact .inr ⟨t, htokens ▸ ht, hheld⟩
    · exact .inl hdone
    · exact absurd hdead (h'.alive n panic)

end law

section witness

attribute [local instance] Shell.exampleClock

/-- The fetcher of the first call calls `fetch()` for another key. -/
def nested : List (Input Nat Unit) :=
  [.call 0 (exampleRequest .ensureFresh), .read 0 0, .exec 0,
   .call 1 ⟨⟨1, []⟩, .ensureFresh, (), none⟩, .read 1 0]

/-- The second call comes from the fetcher of the first. -/
def secondFromFirst (n : Nat) : Option Flight :=
  if n = 1 then some ⟨⟨0, []⟩, 0, 1⟩ else none

/-- The second key is below the first. -/
def firstAbove (k : QueryKey) : Nat := if k = ⟨0, []⟩ then 1 else 0

theorem fetch_returns_example : ∃ (log later : Log Nat Unit) (s s' : Client Nat Unit),
    Run .default log s ∧ (s.callers 0).underWay?.isSome ∧ (s.callers 1).underWay?.isSome ∧
      Trace.Run (Internal secondFromFirst) s later s' ∧
      (∃ req result, s'.callers 0 = .done req result) ∧
      ∃ req result, s'.callers 1 = .done req result := by
  have hfacts : (((init .default : Client Nat Unit).exec nested).map fun r =>
      (((r.2.callers 0).underWay?.map Request.key, (r.2.callers 1).underWay?.map Request.key),
        r.2.shell.tokens)) = some ((some ⟨0, []⟩, some ⟨1, []⟩), []) := by decide +kernel
  obtain ⟨⟨log, s⟩, hex, hl⟩ := Option.map_eq_some_iff.mp hfacts
  have hrun : Run .default log s := run_of_exec hex
  simp only [Prod.mk.injEq, Option.map_eq_some_iff] at hl
  obtain ⟨⟨⟨req₀, hreq₀, -⟩, req₁, hreq₁, hkey₁⟩, htokens⟩ := hl
  have hrank : Ranked secondFromFirst firstAbove s := by
    intro n f req hn hreq
    by_cases h1 : n = 1
    · subst h1
      cases hn
      cases hreq₁.symm.trans hreq
      rw [hkey₁]
      decide
    · rw [secondFromFirst, if_neg h1] at hn
      cases hn
  obtain ⟨-, hgoes⟩ := fetch_returns hrun hrank
  obtain ⟨later, s', hr, hrest⟩ := (hgoes [] s .nil).1
  obtain ⟨-, -, hcalls⟩ := (hgoes later s' hr).2 hrest
  rw [htokens] at hcalls
  have hdone : ∀ n req, (s.callers n).underWay? = some req →
      ∃ req result, s'.callers n = .done req result := by
    intro n req hn
    rcases hcalls n req hn with ⟨result, hdone⟩ | ⟨t, ht, -⟩
    · exact ⟨req, result, hdone⟩
    · cases ht
  exact ⟨log, later, s, s', hrun, by rw [hreq₀]; rfl, by rw [hreq₁]; rfl, hr,
    hdone 0 req₀ hreq₀, hdone 1 req₁ hreq₁⟩

end witness

end Client

end SwrCore
