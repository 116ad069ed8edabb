import Mathlib.Algebra.Group.Action.Defs
import SwrCore.Client.Progress
import SwrCore.Shell.Timers

/-!
# A cache that nobody uses forgets everything

Without handles, `mutate()` futures and calls of `fetch()` nothing starts a fetch any more. What is left is
finite: effects are executed, fetches land, timers fire. Then nothing runs, and an entry is only left if
its GC countdown cannot be represented.

* `Client.Unused`, `Client.Settles` — nobody uses the cache, and what it still does.
* `Client.Settles.cheaper` — every step of it takes something from what remains.
* `Client.Armed`, `Client.Run.armed` — the GC timer of an idle entry waits or runs, unless its deadline
  is not representable.
* `Client.forgets` — the law over every run.
-/

set_option linter.unusedSectionVars false

namespace SwrCore

variable {V F : Type}

/-! ## What remains -/

/-- How many steps a task can still cause: a landing emits four effects at most, and no fetch. -/
def Task.remains : Task → Nat
  | .fetch _ => 9
  | .timer _ _ _ => 1

/-- How many steps an effect can still cause. -/
def Effect.remains : Effect V F → Nat
  | .startFetch _ _ _ _ => 10
  | .notify _ _ => 1
  | .scheduleTimer _ _ _ _ => 2

theorem Effect.task_remains (x : Effect V F) :
    (x.task?.toList.map Task.remains).sum < x.remains := by
  cases x <;> simp [Effect.task?, Task.remains, Effect.remains]

namespace Client

/-- How many steps the cache can still make by itself. -/
def remains (s : Client V F) : Nat :=
  (s.pending.map Effect.remains).sum + (s.tasks.map Task.remains).sum

/-- Nobody uses the cache. -/
structure Unused (s : Client V F) : Prop where
  handles : s.shell.handles = []
  tokens : s.shell.tokens = []
  callers : ∀ n, (s.callers n).underWay? = none

/-- The execution of effects and the ends of tasks. -/
def Act.settles : Act V F → Bool
  | .exec _ => true
  | .dispatch c => c.event.task?.isSome
  | _ => false

/-- A step of a cache that nobody uses. -/
structure Settles [Platform] (s : Client V F) (a : Act V F) (s' : Client V F) : Prop where
  step : Step s a s'
  settles : a.settles = true

end Client

/-! ## Every step takes something away -/

namespace Shell

section step

variable [Platform] {s s' : Shell V F} {c : Call V F} (h : s.Inv) (hs : Step s c s')

include h hs

/-- A landing starts no fetch. -/
theorem Inv.landing_remains {f : Flight} (htask : c.event.task? = some (.fetch f)) :
    ∀ x ∈ c.out.effects, x.remains ≤ 2 := by
  intro x hx
  obtain ⟨kev, e, hat, hbatch⟩ := (h.handled hs).effect hx
  cases x with
  | startFetch key incarnation seq fetcher =>
      have hstarts := (Inner.startFetch_mem_marks.mp (Inner.startFetch_mem_batch.mp hbatch)).1
      have hon := hat.on
      cases hev : c.event <;> rw [hev] at htask hon <;> cases htask
      all_goals
        cases Event.on_inv hon
        cases hstarts
  | notify tx sn => exact Nat.le_succ 1
  | scheduleTimer key kind deadline g => exact le_refl 2

/-- Without subscribers a timer emits nothing. -/
theorem Inv.timer_silent (hnone : s.handles = []) {k : QueryKey} {kind : TimerKind} {g : Nat}
    (hev : c.event = .timerFired k kind g) : c.out.effects = [] := by
  by_contra hne
  obtain ⟨e, he, hg, hanswers⟩ := (h.timer_changes hs hev).mp (.inr hne)
  have hkey : c.event.key? = some k := by
    rw [hev]
    rfl
  have hon : c.event.on k s.inner.nextSubId = some (.timerFired kind g) := by
    rw [hev]
    exact if_pos rfl
  cases kind with
  | gc =>
      refine hne ?_
      rw [← h.effects_of_key hs hkey]
      refine ((h.handled hs).gone hon fun e₀ he₀ => ?_).2
      have hsub : s.inner.entry k = some e₀ := he₀
      rw [he] at hsub
      cases hsub
      have hq : e.isQuiescent = true := hanswers
      simp [KeyEvent.removes, hq, hg, EntryCore.generation]
  | refresh =>
      have hsub : 0 < e.subscribers := by
        have hboth := (Bool.and_eq_true _ _).mp hanswers
        exact of_decide_eq_true hboth.1
      rw [(h.owned k e he).subscribers, hnone] at hsub
      cases hsub

end step

end Shell

namespace Client

section step

variable [Platform] {s s' : Client V F} {a : Act V F}

/-- The effects of the end of a task are cheaper than the task. -/
theorem ends_remains (hi : s.shell.Inv) (hu : s.Unused) {c : Call V F} (hc : s.Calls c s')
    {task : Task} (htask : c.event.task? = some task) :
    (c.out.effects.map Effect.remains).sum < task.remains := by
  cases task with
  | fetch f =>
      have hcheap := hi.landing_remains hc.shell htask
      have hkey : ∃ k, c.event.key? = some k := by
        cases hev : c.event <;> rw [hev] at htask <;> cases htask <;> exact ⟨_, rfl⟩
      obtain ⟨k, hkey⟩ := hkey
      have hlength := hi.batch_length hc.shell hkey
      have hsum := List.sum_le_card_nsmul (c.out.effects.map Effect.remains) 2 fun m hm => by
        obtain ⟨x, hx, rfl⟩ := List.mem_map.mp hm
        exact hcheap x hx
      rw [List.length_map, smul_eq_mul] at hsum
      have hnine : Task.remains (.fetch f) = 9 := rfl
      omega
  | timer k kind g =>
      have hev : c.event = .timerFired k kind g := by
        cases hev : c.event <;> rw [hev] at htask <;> cases htask
        rfl
      rw [hi.timer_silent hc.shell hu.handles hev]
      exact Nat.one_pos

theorem Settles.cheaper (h : Settles s a s') (hi : s.shell.Inv) (hu : s.Unused) :
    s'.remains < s.remains := by
  obtain ⟨hs, hsettles⟩ := h
  cases hs with
  | @dispatch shell c hc ht =>
      obtain ⟨task, htask⟩ := Option.isSome_iff_exists.mp hsettles
      have hcalls : s.Calls c (s.called shell c) := ⟨hc, ht, rfl, rfl, rfl⟩
      have hcheap := ends_remains hi hu hcalls htask
      have htasks : (s.called shell c).tasks = s.tasks.erase task := by
        show c.event.remaining s.tasks = _
        rw [Event.remaining, htask]
      have hsum := ((List.perm_cons_erase (ht task htask)).map Task.remains).sum_eq
      rw [List.map_cons, List.sum_cons] at hsum
      rw [remains, remains, hcalls.pending, htasks, List.map_append, List.sum_append]
      omega
  | @exec before x rest after hb =>
      have hcheap := x.task_remains
      have htasks : (s.executed x (before ++ rest :: after)).tasks = s.tasks ++ x.task?.toList := rfl
      have hbatches : (s.executed x (before ++ rest :: after)).batches = before ++ rest :: after :=
        rfl
      simp only [remains, htasks, Client.pending, hbatches, hb, List.flatten_append,
        List.flatten_cons, List.map_append, List.sum_append, List.map_cons, List.sum_cons]
      omega
  | _ => cases hsettles

/-- A cache that nobody uses stays so. -/
theorem Settles.unused (h : Settles s a s') (hu : s.Unused) : s'.Unused := by
  obtain ⟨hs, hsettles⟩ := h
  cases hs with
  | @dispatch shell c hc ht =>
      have hneutral : c.event.accounts = false := by
        cases hev : c.event <;> simp only [Act.settles, hev] at hsettles <;>
          first | rfl | cases hsettles
      obtain ⟨hhandles, htokens⟩ := Call.of_neutral hneutral s.shell.handles s.shell.tokens
      exact ⟨((Shell.next_handles hc).trans hhandles).trans hu.handles,
        ((Shell.next_tokens hc).trans htokens).trans hu.tokens, hu.callers⟩
  | exec _ => exact ⟨hu.handles, hu.tokens, hu.callers⟩
  | _ => cases hsettles

/-! ## The timers of idle entries -/

/-- The GC timer of this generation waits for its execution, or runs. -/
def Armed (s : Client V F) (k : QueryKey) (generation : Nat) : Prop :=
  .timer k .gc generation ∈ s.tasks ∨ ∃ deadline, .scheduleTimer k .gc deadline generation ∈ s.pending

/-- A timer stays until it fires. -/
theorem Armed.step {k : QueryKey} {g : Nat} (h : s.Armed k g) (hs : Step s a s')
    (hno : ∀ c, a.call? = some c → c.event ≠ .timerFired k .gc g) : s'.Armed k g := by
  rcases hs.kinds with ⟨c, hcall, hc⟩ | ⟨before, x, rest, after, -, hb, rfl⟩ | ⟨-, hstill⟩
  · refine h.imp (fun hrun => ?_) fun ⟨deadline, hwait⟩ => ⟨deadline, ?_⟩
    · rw [hc.tasks]
      unfold Event.remaining
      split
      · next task htask =>
          refine (List.mem_erase_of_ne fun heq => ?_).mpr hrun
          subst heq
          cases hev : c.event <;> rw [hev] at htask <;> cases htask
          exact hno c hcall hev
      · exact hrun
    · rw [hc.pending]
      exact List.mem_append_left _ hwait
  · rcases h with hrun | ⟨deadline, hwait⟩
    · exact .inl (List.mem_append_left _ hrun)
    · rcases (mem_pending_executed hb).mp hwait with rfl | hwait
      · exact .inl (List.mem_append_right _ (List.mem_singleton_self _))
      · exact .inr ⟨deadline, hwait⟩
  · rw [Armed, hstill.tasks, hstill.pending]
    exact h

end step

section run

variable [Platform] {defaults : QueryOptions} {log : Log V F} {s : Client V F}

theorem shellLog_snoc (log : Log V F) (r : Trace.Record (Client V F) (Act V F)) :
    shellLog (log ++ [r]) = shellLog log ++
      (r.label.call?.map fun c => ⟨r.pre.shell, c, r.post.shell⟩).toList := by
  rw [shellLog, List.filterMap_append]
  cases hc : r.label.call? <;> simp [shellLog, hc]

section arming

variable {s' : Client V F} {a : Act V F} {c : Call V F} {k : QueryKey} {kev : KeyEvent V F}
  {e : EntryCore V F} (hi : s.shell.Inv) (hs : Step s a s') (hcall : a.call? = some c)
  (hat : s.shell.inner.At c.event k kev e)

include hi hs hcall hat

/-- An event that touches an entry and leaves it idle schedules its timer, if it can. -/
theorem armed_touched (ht : kev.touches s.shell.inner.defaults c.now e = true)
    (hq : (s.shell.inner.after c.now k kev e).isQuiescent = true) :
    Shell.LastTouch k (s.shell.inner.after c.now k kev e)
        (shellLog log ++ [⟨s.shell, c, s'.shell⟩]) none ∨
      s'.Armed k (s.shell.inner.after c.now k kev e).gcGen := by
  have hh := hi.handled (hs.calls hcall).shell
  have hopts := s.shell.inner.after_opts c.now k kev e
  have hgen := s.shell.inner.after_gcGen c.now k kev e
  rw [Inner.after_quiescent] at hq
  rw [ht, hq, Bool.and_self, if_pos rfl] at hgen
  cases hd : Instant.checkedAdd c.now
      ((s.shell.inner.after c.now k kev e).opts.gcTime s'.shell.inner.defaults.gcTime) with
  | none =>
      exact .inl ⟨shellLog log, _, [], _, rfl, ⟨kev, e, hat, ht⟩,
        fun x hx => absurd hx List.not_mem_nil, hat.entry hh, rfl, hd.symm⟩
  | some deadline =>
      have halarm : (kev.react s.shell.inner.defaults c.now e).alarm s.shell.inner.defaults
          c.now (kev.marks s.shell.inner.defaults c.now k e) .gc = some deadline := by
        have hmark : (kev.marks s.shell.inner.defaults c.now k e).touched = true := ht
        simp only [EntryCore.alarm, hmark, hq, Bool.and_self, if_true, KeyEvent.opts_react]
        rw [hopts, hh.defaults] at hd
        exact hd
      have htimer : (.scheduleTimer k .gc deadline (s.shell.inner.after c.now k kev e).gcGen :
          Effect V F) ∈ (kev.react s.shell.inner.defaults c.now e).timers
            s.shell.inner.defaults c.now k (kev.marks s.shell.inner.defaults c.now k e) := by
        rw [EntryCore.timers_eq_alarms, hgen]
        simp [halarm, EntryCore.generation]
      refine .inr (.inr ⟨deadline, ?_⟩)
      rw [(hs.calls hcall).pending]
      exact List.mem_append_right _ (hat.mem_effects hh (Inner.mem_batch.mpr (.inr (.inl htimer))))

/-- An event that does not touch an idle entry is not the timer of it, which would remove the entry. -/
theorem armed_untouched (ht : kev.touches s.shell.inner.defaults c.now e = false)
    (hq : e.isQuiescent = true) (he : Shell.LastTouch k e (shellLog log) none ∨ s.Armed k e.gcGen) :
    Shell.LastTouch k (s.shell.inner.after c.now k kev e)
        (shellLog log ++ [⟨s.shell, c, s'.shell⟩]) none ∨
      s'.Armed k (s.shell.inner.after c.now k kev e).gcGen := by
  have hgen := s.shell.inner.after_gcGen c.now k kev e
  rw [ht, Bool.false_and, if_neg Bool.false_ne_true, KeyEvent.react_untouched ht] at hgen
  have huntouched : ¬ Shell.Touches k ⟨s.shell, c, s'.shell⟩ := by
    rintro ⟨kev', e₁, hat', ht'⟩
    obtain ⟨rfl, rfl⟩ := hat.unique hat'
    exact Bool.false_ne_true (ht.symm.trans ht')
  rw [hgen]
  refine he.imp (fun hlast => hlast.extend huntouched (Inner.after_frame k kev e).2)
    fun harmed => harmed.step hs fun c' hcall' hev => ?_
  rw [hcall] at hcall'
  cases hcall'
  have hon : kev = .timerFired .gc e.gcGen := by
    have hon := hat.on
    rw [hev] at hon
    simpa [Event.on] using hon.symm
  have hstays := hat.stays
  subst hon
  simp [KeyEvent.removes, hq] at hstays

end arming

/-- An event of other keys touches nothing, and is not the timer of the key. -/
theorem armed_off {s' : Client V F} {a : Act V F} {c : Call V F} {k : QueryKey} {e : EntryCore V F}
    (hs : Step s a s') (hcall : a.call? = some c)
    (hoff : c.event.on k s.shell.inner.nextSubId = none)
    (he : Shell.LastTouch k e (shellLog log) none ∨ s.Armed k e.gcGen) :
    Shell.LastTouch k e (shellLog log ++ [⟨s.shell, c, s'.shell⟩]) none ∨ s'.Armed k e.gcGen := by
  have hquiet : ¬ Shell.Touches k ⟨s.shell, c, s'.shell⟩ := by
    rintro ⟨kev, e, hat, -⟩
    exact hat.not_off hoff
  refine he.imp (fun hlast => hlast.extend hquiet rfl) fun harmed => ?_
  refine harmed.step hs fun c' hcall' hev => ?_
  rw [hcall] at hcall'
  cases hcall'
  rw [hev] at hoff
  simp [Event.on] at hoff

/-- **An idle entry has its timer**, unless the deadline that the last touch computed is not
representable. -/
theorem Run.armed (h : Run defaults log s) :
    ∀ k e, s.shell.inner.entry k = some e → e.isQuiescent = true →
      Shell.LastTouch k e (shellLog log) none ∨ s.Armed k e.gcGen := by
  refine h.history (P := fun log s => ∀ k e, s.shell.inner.entry k = some e →
    e.isQuiescent = true → Shell.LastTouch k e (shellLog log) none ∨ s.Armed k e.gcGen) ?_ ?_
  · intro k e he
    cases (Shell.init_entry defaults k).symm.trans he
  rintro log s a s' hrun ih hs k e' he' hq
  have hi := Run.inv hrun
  rw [shellLog_snoc]
  rcases hs.shell with ⟨c, hcall, hc⟩ | ⟨hnone, hsame⟩
  case inr =>
    rw [hsame] at he'
    simp only [hnone, Option.map_none, Option.toList_none, List.append_nil]
    refine (ih k e' he' hq).imp_right fun harmed => harmed.step hs fun c hcall => ?_
    rw [hnone] at hcall
    cases hcall
  simp only [hcall, Option.map_some, Option.toList_some]
  rcases (hi.handled hc).inversion he' with ⟨hoff, he⟩ | ⟨kev, e, hat, rfl⟩
  · exact armed_off hs hcall hoff (ih k e' he hq)
  cases ht : kev.touches s.shell.inner.defaults c.now e with
  | true => exact armed_touched hi hs hcall hat ht hq
  | false =>
      have he : s.shell.inner.entry k = some e := by
        rcases (hi.subject hat.subject).2.2.2 with he | ⟨-, -, hcreates⟩
        · exact he
        · rw [KeyEvent.touches_of_creates hcreates] at ht
          cases ht
      rw [Inner.after_quiescent, KeyEvent.react_untouched ht] at hq
      exact armed_untouched hi hs hcall hat ht hq (ih k e he hq)

/-- Nothing is left to do: nothing waits and nothing runs. -/
theorem nothing_left [Inhabited V] (h : Run defaults log s) (hrest : Trace.Stuck Settles s) :
    s.pending = [] ∧ s.tasks = [] := by
  constructor
  · refine List.eq_nil_iff_forall_not_mem.mpr fun x hx => ?_
    obtain ⟨before, y, rest, after, hb⟩ := exists_head hx
    exact hrest _ _ ⟨.exec hb, rfl⟩
  · refine List.eq_nil_iff_forall_not_mem.mpr fun task ht => ?_
    have hends : ∀ ev : Event V F, ev.task? = some task → False := by
      intro ev hev
      obtain ⟨c, s', hs, rfl, -⟩ := h.ends ht hev 0
      exact hrest _ _ ⟨hs, by rw [Act.settles, hev]; rfl⟩
    cases task with
    | timer k kind g => exact hends (.timerFired k kind g) rfl
    | fetch f => exact hends (.commitErr f.key f.incarnation f.seq default) rfl

/-- **An unused cache empties itself.** Take any run after which no handle, no `mutate()` future and no
call of `fetch()` is left, and let the effects be executed and the fetches and timers end in any order, with
any results, at any times. They come to an end, after a number of steps that is known in advance; then no
effect waits and no task runs, and every entry that is left is idle, and the deadline its last touch
computed for its collection is not representable. So with representable deadlines the cache is empty. -/
theorem forgets [Inhabited V] (h : Run defaults log s) (hu : s.Unused) :
    (∀ later s', Trace.Run Settles s later s' → later.length ≤ s.remains ∧ s'.Unused) ∧
    (∃ later s', Trace.Run Settles s later s' ∧ Trace.Stuck Settles s') ∧
    ∀ later s', Trace.Run Settles s later s' → Trace.Stuck Settles s' →
      s'.pending = [] ∧ s'.tasks = [] ∧ ∀ k e, s'.shell.inner.entry k = some e →
        e.isQuiescent = true ∧ Shell.LastTouch k e (shellLog (log ++ later)) none := by
  have hbound : ∀ later s', Trace.Run Settles s later s' →
      (s'.Unused ∧ s'.shell.Inv) ∧ later.length + s'.remains ≤ s.remains := by
    intro later s' hr
    induction hr with
    | nil => exact ⟨⟨hu, h.inv⟩, by simp⟩
    | @snoc log' t a t' hr hs ih =>
        obtain ⟨⟨hunused, hi⟩, hle⟩ := ih
        have hless := hs.cheaper hi hunused
        have hrun : Run defaults (log ++ log') t := h.trans (hr.mono fun _ _ _ hs => hs.step)
        refine ⟨⟨hs.unused hunused, Run.inv (hrun.snoc hs.step)⟩, ?_⟩
        rw [List.length_append, List.length_singleton]
        omega
  refine ⟨fun later s' hr => ?_, ?_, fun later s' hr hrest => ?_⟩
  · obtain ⟨⟨hunused, -⟩, hle⟩ := hbound later s' hr
    exact ⟨by omega, hunused⟩
  · refine Trace.exists_stuck (n := s.remains) fun later s' hr => ?_
    obtain ⟨-, hle⟩ := hbound later s' hr
    omega
  · obtain ⟨⟨hunused, hi⟩, -⟩ := hbound later s' hr
    have hrun : Run defaults (log ++ later) s' := h.trans (hr.mono fun _ _ _ hs => hs.step)
    obtain ⟨hpending, htasks⟩ := nothing_left hrun hrest
    refine ⟨hpending, htasks, fun k e he => ?_⟩
    have hquiet : e.isQuiescent = true := by
      have howned := hi.owned k e he
      have hsubs : e.subscribers = 0 := by rw [howned.subscribers, hunused.handles, List.countP_nil]
      have hmutations : e.mutationActive = 0 := by
        rw [howned.mutations, hunused.tokens, List.countP_nil]
      have hidle : e.inflight = none := by
        cases hfly : e.inflight with
        | none => rfl
        | some seq =>
            -- A flight has its task, or the effect that starts it.
            have hawaits : Shell.Awaits ⟨k, e.incarnation, seq⟩ s'.shell := ⟨e, he, rfl, hfly⟩
            rcases hrun.spawned _ hawaits with htask | ⟨fetcher, heffect⟩
            · rw [htasks] at htask
              cases htask
            · rw [hpending] at heffect
              cases heffect
      simp [EntryCore.isQuiescent, hsubs, hmutations, hidle]
    refine ⟨hquiet, (hrun.armed k e he hquiet).resolve_right ?_⟩
    rintro (htask | ⟨deadline, heffect⟩)
    · rw [htasks] at htask
      cases htask
    · rw [hpending] at heffect
      cases heffect

end run

section witness

attribute [local instance] Shell.exampleClock

/-- A subscription is given up while its first fetch runs. -/
def leftRunning : List (Input Nat Unit) :=
  [.dispatch (.subscribe ⟨0, []⟩ (some ()) none .default) 0 [], .exec 0,
   .dispatch (.unsubscribe ⟨0, []⟩ 0) 1 []]

theorem forgets_example : ∃ (log later : Log Nat Unit) (s s' : Client Nat Unit), Run .default log s ∧
    (s.shell.inner.entry ⟨0, []⟩).isSome ∧ s.tasks ≠ [] ∧ Trace.Run Settles s later s' ∧
      later.length ≤ s.remains ∧ s'.pending = [] ∧ s'.tasks = [] := by
  have hfacts : (((init .default : Client Nat Unit).exec leftRunning).map fun r =>
      (r.2.shell.handles, r.2.shell.tokens, (r.2.shell.inner.entry ⟨0, []⟩).isSome,
        r.2.tasks.isEmpty, r.1.all fun r => r.label.caller?.isNone)) =
      some ([], [], true, false, true) := by decide +kernel
  obtain ⟨⟨log, s⟩, hex, hfacts⟩ := Option.map_eq_some_iff.mp hfacts
  simp only [Prod.mk.injEq] at hfacts
  obtain ⟨hhandles, htokens, hentry, htasks, hall⟩ := hfacts
  have hrun : Run .default log s := run_of_exec hex
  have hidle : ∀ n, s.callers n = .idle := by
    refine hrun.carry (J := fun s => ∀ n, s.callers n = .idle) (fun _ => rfl)
      (fun r hr => Option.isNone_iff_eq_none.mp (List.all_eq_true.mp hall r hr)) ?_
    intro r hs hnone hJ n
    refine (hs.caller n).elim (fun hsame => hsame.trans (hJ n)) fun hcaller => ?_
    rw [hnone] at hcaller
    cases hcaller
  have hunused : s.Unused := ⟨hhandles, htokens, fun n => by rw [hidle n]; rfl⟩
  obtain ⟨hbound, ⟨later, s', hlater, hrest⟩, hend⟩ := forgets hrun hunused
  obtain ⟨hpending, hdone, -⟩ := hend later s' hlater hrest
  refine ⟨log, later, s, s', hrun, hentry, fun hnil => ?_, hlater, (hbound later s' hlater).1,
    hpending, hdone⟩
  rw [hnil] at htasks
  cases htasks

end witness

end Client

end SwrCore
