import SwrCore.Host.Ownership

/-!
# The end of the cache

Handles, guards and tasks hold weak references, and futures borrow the `SwrClient` they were made from. So
once the last `SwrClient` is dropped nothing keeps the cache but the effects that are being executed, and
when the cache is gone nothing that is left over does anything.

* `Host.Step.frozen` — a step after the end changes nothing that is shared.
* `Host.exists_free` — after the last `SwrClient`, the execution of the effects is all that is waited for.
* `Host.shutdown` — the law over every program.
-/

set_option linter.unusedSectionVars false

namespace SwrCore

variable {V F : Type}

namespace Host

section frozen

variable [Platform] {defaults : QueryOptions} {s s' : Host V F} {m : Move V F}

/-- After the end, a weak reference leads nowhere. -/
theorem dispatchWeak_dead (h : s.alive = false) (ev : Event V F) (now : Instant) :
    s.dispatchWeak ev now = .ok s := by
  rw [Host.dispatchWeak, h]
  rfl

theorem dropHandle_dead (h : s.alive = false) (handle : QueryHandle) (now : Instant) :
    s.dropHandle handle now = .ok { s with handles := s.handles.erase handle } :=
  dispatchWeak_dead (s := { s with handles := s.handles.erase handle }) h _ _

/-- **After the end nothing happens.** No step brings the cache back, and none changes the state machine,
the channels or the tasks. -/
theorem Step.frozen (h : Sound defaults s) (hdead : s.alive = false) (hp : s.client.pending = [])
    (hs : Step s m (.ok s')) : s'.alive = false ∧ s.client.Still s'.client := by
  have hzero : s.clients = 0 := by
    by_contra hpos
    rw [h.holds.strong (Nat.pos_of_ne_zero hpos)] at hdead
    cases hdead
  obtain ⟨hguards, hcallers⟩ := h.holds.borrowed hzero
  have hstill : s.client.Still s.client := ⟨rfl, rfl, rfl, rfl⟩
  have hidle : ∀ {n : Nat} {p : Phase V F}, s.client.callers n = p → p.underWay? = none := by
    rintro n p rfl
    exact hcallers n
  have hweak : ∀ {t : Host V F} {ev : Event V F} {now : Instant}, t.alive = false →
      t.client = s.client → t.dispatchWeak ev now = .ok s' →
        s'.alive = false ∧ s.client.Still s'.client := by
    intro t ev now ht hclient heq
    rw [dispatchWeak_dead ht] at heq
    cases heq
    exact ⟨ht, hclient ▸ hstill⟩
  generalize hr : (Except.ok s' : Except HostPanic (Host V F)) = r at hs
  cases hs with
  | clone hc => exact absurd hzero hc.ne'
  | upgrade =>
      cases hr
      rw [Host.upgrade, hdead, if_neg Bool.false_ne_true]
      exact ⟨hdead, hstill⟩
  | dropClient hc _ => exact absurd hzero hc.ne'
  | free _ _ =>
      cases hr
      exact ⟨rfl, hstill⟩
  | subscribe hc => exact absurd hzero hc.ne'
  | revalidateHandle _ => exact hweak hdead rfl hr.symm
  | @dropHandle handle now _ =>
      exact hweak (t := { s with handles := s.handles.erase handle }) hdead rfl hr.symm
  | mutate hc => exact absurd hzero hc.ne'
  | settle hg =>
      rw [hguards] at hg
      cases hg
  | abandon hg =>
      rw [hguards] at hg
      cases hg
  | set hc => exact absurd hzero hc.ne'
  | invalidate hc _ => exact absurd hzero hc.ne'
  | revalidate hc => exact absurd hzero hc.ne'
  | broadcast hc _ => exact absurd hzero hc.ne'
  | call hc _ => exact absurd hzero hc.ne'
  | read hn => cases hidle hn
  | look hn => cases hidle hn
  | poke hn => cases hidle hn
  | wake hn _ => cases hidle hn
  | closed hn _ _ => cases hidle hn
  | cancel =>
      cases hr
      exact ⟨hdead, rfl, rfl, rfl, rfl⟩
  | exec hb =>
      rw [Client.pending, hb] at hp
      simp at hp
  | land _ => exact hweak hdead rfl hr.symm
  | fire _ => exact hweak hdead rfl hr.symm

/-! ## The last strong reference -/

/-- When the cache is gone, no effect waits. -/
theorem Run.quiet {log : Log V F} (h : Run defaults log s) :
    s.alive = false → s.client.pending = [] := by
  refine h.history (P := fun _ s => s.alive = false → s.client.pending = [])
    (fun hdead => by cases hdead) ?_
  intro log s m s' hr hJ hs hdead
  by_cases ha : s.alive = true
  · by_cases hm : m = .free
    · subst hm
      generalize hr : (Except.ok s' : Except HostPanic (Host V F)) = r at hs
      cases hs with
      | free _ hp =>
          cases hr
          exact hp
    · rw [(Step.frame hs).1.resolve_left hm, ha] at hdead
      cases hdead
  · have ha := Bool.eq_false_of_not_eq_true ha
    obtain ⟨-, hstill⟩ := Step.frozen (Run.sound hr) ha (hJ ha) hs
    rw [hstill.pending]
    exact hJ ha

end frozen

section law

variable [Platform] {defaults : QueryOptions} {s : Host V F}

/-- What is left of a run after the end. -/
theorem frozen_of_run {log later : Log V F} {s' : Host V F} (h : Run defaults log s)
    (hdead : s.alive = false) (hr : Trace.Run Moves s later s') :
    s'.alive = false ∧ s.client.Still s'.client := by
  induction hr with
  | nil => exact ⟨hdead, rfl, rfl, rfl, rfl⟩
  | snoc hr hs ih =>
      obtain ⟨hdead', hstill⟩ := ih
      have hm := Run.sound (h.trans hr)
      have hquiet := Run.quiet (h.trans hr) hdead'
      obtain ⟨hend, hstep⟩ := Step.frozen hm hdead' hquiet hs
      exact ⟨hend, hstep.shell.trans hstill.shell, hstep.batches.trans hstill.batches,
        hstep.channels.trans hstill.channels, hstep.tasks.trans hstill.tasks⟩

/-- The effects that wait can always be executed, and with them gone the rest is as it was. -/
theorem exists_drained (s : Host V F) : ∃ later client,
    Trace.Run Moves s later { s with client := client } ∧ later.length = s.client.pending.length ∧
      (∀ r ∈ later, ∃ x, r.label = .exec x) ∧ client.pending = [] ∧
        client.shell = s.client.shell := by
  induction hn : s.client.pending.length generalizing s with
  | zero =>
      exact ⟨[], s.client, .nil, rfl, fun r hr => absurd hr List.not_mem_nil,
        List.length_eq_zero_iff.mp hn, rfl⟩
  | succ n ih =>
      obtain ⟨x, hx⟩ := List.exists_mem_of_length_pos (by omega : 0 < s.client.pending.length)
      obtain ⟨before, y, rest, after, hb⟩ := Client.exists_head hx
      have hexec : Moves s (.exec y)
          { s with client := s.client.executed y (before ++ rest :: after) } := .exec hb
      have hless : (s.client.executed y (before ++ rest :: after)).pending.length = n := by
        simp only [Client.pending, hb, Client.executed, List.flatten_append, List.flatten_cons,
          List.length_append, List.length_cons] at hn ⊢
        omega
      obtain ⟨later, client, hr, hlength, hlabels, hquiet, hshell⟩ :=
        ih { s with client := s.client.executed y (before ++ rest :: after) } hless
      refine ⟨_, client, (Trace.Run.single hexec).trans hr, ?_, ?_, hquiet, hshell⟩
      · rw [List.length_append, List.length_singleton, hlength]
        omega
      · intro r hmem
        rcases List.mem_append.mp hmem with hfirst | hrest
        · cases List.mem_singleton.mp hfirst
          exact ⟨y, rfl⟩
        · exact hlabels r hrest

/-- **After the last `SwrClient` only the effects that are being executed keep the cache.** -/
theorem exists_free (hzero : s.clients = 0) : ∃ later s', Trace.Run Moves s later s' ∧
    later.length = s.client.pending.length + 1 ∧
      (∀ r ∈ later, r.label = .free ∨ ∃ x, r.label = .exec x) ∧ s'.alive = false := by
  obtain ⟨later, client, hr, hlength, hlabels, hquiet, -⟩ := exists_drained s
  have hfree : Moves { s with client := client } .free
      { s with client := client, alive := false } := .free hzero hquiet
  refine ⟨_, _, hr.snoc hfree, ?_, fun r hmem => ?_, rfl⟩
  · rw [List.length_append, List.length_singleton, hlength]
  · rcases List.mem_append.mp hmem with hearlier | hlast
    · exact .inr (hlabels r hearlier)
    · cases List.mem_singleton.mp hlast
      exact .inl rfl

/-- **The cache goes with the last `SwrClient`.** In every program: when the last `SwrClient` is dropped,
no future of the client is left, and the cache is freed after the effects that are being executed, whatever
fetches and timers still run and whatever handles are still held. When it is gone, no weak reference brings
it back, and nothing that is left over changes anything: tasks end and handles are dropped without a call
of the state machine, no effect waits, and a handle that saw the last value of its channel reports
`Closed`. -/
theorem shutdown {log : Log V F} (h : Run defaults log s) :
    (s.clients = 0 → s.Unborrowed ∧ ∃ later s', Trace.Run Moves s later s' ∧
      later.length = s.client.pending.length + 1 ∧
        (∀ r ∈ later, r.label = .free ∨ ∃ x, r.label = .exec x) ∧ s'.alive = false) ∧
    (s.alive = false → s.clients = 0 ∧ s.client.pending = [] ∧
      ∀ later s', Trace.Run Moves s later s' →
        s'.alive = false ∧ s'.clients = 0 ∧ s.client.Still s'.client ∧
          ∀ handle : QueryHandle, s'.changed handle (s.client.channels handle.rx) = .closed) := by
  have hzero : ∀ {log : Log V F} {s : Host V F}, Run defaults log s → s.alive = false →
      s.clients = 0 := by
    intro log s h hdead
    by_contra hpos
    rw [h.sound.holds.strong (Nat.pos_of_ne_zero hpos)] at hdead
    cases hdead
  refine ⟨fun hlast => ⟨h.sound.holds.borrowed hlast, exists_free hlast⟩, fun hdead =>
    ⟨hzero h hdead, h.quiet hdead, fun later s' hr => ?_⟩⟩
  obtain ⟨hdead', hstill⟩ := frozen_of_run h hdead hr
  refine ⟨hdead', hzero (h.trans hr) hdead', hstill, fun handle => ?_⟩
  rw [Host.changed, hdead', if_neg Bool.false_ne_true, hstill.channels, if_neg (not_not.mpr rfl)]

end law

section witness

attribute [local instance] Shell.exampleClock

theorem shutdown_example : ∃ (log later : Log Nat Unit) (s s' : Host Nat Unit)
    (handle : QueryHandle), Run .default log s ∧ handle ∈ s.handles ∧ s.clients = 0 ∧
      Trace.Run Moves s later s' ∧ s'.alive = false ∧
        s'.changed handle (s'.client.channels handle.rx) = .closed := by
  obtain ⟨s, hs, hkeys, halive⟩ := subscribed
  have hstep : Moves (init .default) (.subscribe ⟨0, []⟩ (some ()) none .default 0) s := by
    have hsub : Step (init .default : Host Nat Unit) (.subscribe ⟨0, []⟩ (some ()) none .default 0) _ :=
      .subscribe Nat.one_pos
    rw [hs] at hsub
    exact hsub
  have hfree : s.clients = 1 ∧ s.Unborrowed := by
    unfold Host.subscribe at hs
    split at hs
    · cases hs
    · next heq =>
        cases hs
        unfold Host.dispatch at heq
        split at heq
        · cases heq
        · rw [Except.ok.injEq, Prod.mk.injEq] at heq
          obtain ⟨-, rfl⟩ := heq
          exact ⟨rfl, rfl, fun _ => rfl⟩
    · cases hs
  obtain ⟨handle, rest, hhandles, -, -⟩ := List.map_eq_cons_iff.mp hkeys
  have hdrop : Moves s .dropClient { s with clients := s.clients - 1 } :=
    .dropClient (by omega) fun _ => hfree.2
  have hrun : Run .default _ { s with clients := s.clients - 1 } :=
    (Trace.Run.single hstep).snoc hdrop
  have hzero : s.clients - 1 = 0 := by omega
  obtain ⟨-, later, s', hr, -, -, hdead⟩ := (shutdown hrun).1 hzero
  obtain ⟨-, -, hafter⟩ := (shutdown (hrun.trans hr)).2 hdead
  refine ⟨_, later, _, s', handle, hrun, ?_, hzero, hr, hdead, (hafter [] s' .nil).2.2.2 handle⟩
  rw [hhandles]
  exact List.mem_cons_self

end witness

end Host

end SwrCore
