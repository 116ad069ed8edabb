import SwrCore.Cell.Lockstep
import SwrCore.Shell.Flight

/-!
# Structural sharing cannot be observed

A commit whose value the stored comparator calls equal keeps the old value. Whoever looks at contents
only cannot tell: the run whose comparators are removed shows the same tables, outcomes and effects.

* `Event.unshared` — the event without its comparator.
* `Faithful` — a comparator that holds only of values with equal content.
* `EntryCore.Agrees`, `HandleOutput.Agrees` — equal up to the comparator and the identity of data.
* `Shell.Unshared` — two shells that agree, the second without comparators; `Unshared.step` is the
  simulation.
* `Shell.sharing_transparent` — the runs, and what a commit keeps.
-/

set_option linter.unusedSectionVars false

namespace SwrCore

variable {V F C : Type}

/-! ## Comparators -/

/-- The comparator an event hands over. -/
def Event.compare? : Event V F → Option (Compare V)
  | .read _ _ _ compare _ => compare
  | .subscribe _ _ compare _ => compare
  | _ => none

/-- The event with its `compare` argument replaced by `None`. -/
def Event.unshared : Event V F → Event V F
  | .read key policy fetcher _ opts => .read key policy fetcher none opts
  | .subscribe key fetcher _ opts => .subscribe key fetcher none opts
  | ev => ev

/-- The comparator returns true only on values with equal content. -/
def Faithful (content : V → C) (f : Compare V) : Prop :=
  ∀ old value, f old value = true → content old = content value

/-- The two entries agree on every field except the stored comparator and the identity of data,
whose content is equal, also in the rollback slot. -/
def EntryCore.Agrees (content : V → C) (e e' : EntryCore V F) : Prop :=
  (View.content content).entry e = (View.content content).entry e'

/-- The two states agree, entry by entry. -/
structure Inner.Agrees (content : V → C) (s s' : Inner V F) : Prop where
  defaults : s'.defaults = s.defaults
  nextSubId : s'.nextSubId = s.nextSubId
  nextIncarnation : s'.nextIncarnation = s.nextIncarnation
  entry : ∀ k, Option.Rel (EntryCore.Agrees content) (s.entry k) (s'.entry k)

/-- The outcomes agree up to the identity of data, and the effects are the same sequence up to it. -/
def HandleOutput.Agrees (content : V → C) (out out' : HandleOutput V F) : Prop :=
  (View.content content).outcome out.outcome = (View.content content).outcome out'.outcome ∧
    out.effects.map (View.content content).effect = out'.effects.map (View.content content).effect

/-- The part of an event that reaches a key carries the comparator of the event. -/
theorem Event.compare_of_on {k : QueryKey} {n : Nat} {ev : Event V F} {kev : KeyEvent V F}
    (h : ev.on k n = some kev) : kev.compare? = ev.compare? := by
  cases Event.on_inv h <;> rfl

/-- Without sharing, no event carries one. -/
theorem Event.compare_unshared (ev : Event V F) : ev.unshared.compare? = none := by
  cases ev <;> rfl

/-- The same events scan the table. -/
theorem Event.scans_unshared (ev : Event V F) : ev.unshared.scans = ev.scans := by
  cases ev <;> rfl

/-- Without comparators there is nothing more to see. -/
theorem Event.content_unshared (content : V → C) (ev : Event V F) :
    (View.content content).event ev.unshared = (View.content content).event ev := by
  cases ev <;> rfl

/-! ## Effects with equal content -/

section output

variable {content : V → C} {out out' : HandleOutput V F}

/-- Two outputs agree if they are seen alike without comparators, up to the content of the data. -/
theorem HandleOutput.agrees_iff :
    out.Agrees content out' ↔
      (View.content content).output out = (View.content content).output out' := by
  rw [View.output, View.output, HandleOutput.mk.injEq]
  exact Iff.rfl

/-- Content and comparators do not matter to the flights, … -/
theorem Effect.flights_content (content : V → C) (effects : List (Effect V F)) :
    Effect.flights (effects.map (View.content content).effect) = Effect.flights effects := by
  unfold Effect.flights
  rw [List.filterMap_map]
  refine List.filterMap_congr fun x _ => ?_
  cases x <;> rfl

/-- … nor to the timers. -/
theorem Effect.timers_content {inner : Inner V F} {t : Inner (C ⊕ V) F}
    (h : (View.content content).Sees inner t) (effects : List (Effect V F)) :
    Effect.timers t (effects.map (View.content content).effect) = Effect.timers inner effects := by
  unfold Effect.timers
  rw [List.filterMap_map]
  refine List.filterMap_congr fun x _ => ?_
  cases x with
  | scheduleTimer key kind deadline generation =>
      have hinc : (t.entry key).map EntryCore.incarnation =
          (inner.entry key).map EntryCore.incarnation := by
        rw [h.entry key, Option.map_map]
        rfl
      exact congrArg (fun i => some (Timer.mk key kind deadline generation i)) hinc
  | _ => rfl

/-- The outcomes hand out the same subscription and the same token. -/
theorem Call.books_agree (ev : Event V F) (now : Instant) (scan : List QueryKey)
    (h : out.Agrees content out') (handles : List (QueryKey × Nat))
    (tokens : List MutationToken) :
    (Call.mk ev.unshared now scan out').handles handles =
        (Call.mk ev now scan out).handles handles ∧
      (Call.mk ev.unshared now scan out').tokens tokens =
        (Call.mk ev now scan out).tokens tokens := by
  have hout := h.1
  cases ev with
  | subscribe key fetcher compare opts =>
      refine ⟨?_, rfl⟩
      simp only [Event.unshared, Call.handles]
      cases ho : out.outcome <;> cases ho' : out'.outcome <;> rw [ho, ho'] at hout
      case subscribed.subscribed subId _ subId' _ =>
        obtain ⟨hid, -⟩ := Outcome.subscribed.inj hout
        exact congrArg (fun n => handles ++ [(key, n)]) hid.symm
      all_goals first | rfl | cases hout
  | mutateBegin key optimistic =>
      refine ⟨rfl, ?_⟩
      simp only [Event.unshared, Call.tokens]
      cases ho : out.outcome <;> cases ho' : out'.outcome <;> rw [ho, ho'] at hout
      case mutation.mutation token token' =>
        exact congrArg (fun t => tokens ++ [t]) (Outcome.mutation.inj hout).symm
      all_goals first | rfl | cases hout
  | _ => exact ⟨rfl, rfl⟩

end output

namespace Shell

/-! ## Two shells in lockstep -/

/-- The second shell agrees with the first, and none of its entries stores a comparator. -/
structure Unshared (content : V → C) (s s' : Shell V F) : Prop where
  seen : ∃ t, (View.content content).Sees s.inner t ∧ (View.content content).Sees s'.inner t
  bare : ∀ k e, s'.inner.entry k = some e → e.compare = none
  flights : s'.flights = s.flights
  timers : s'.timers = s.timers
  handles : s'.handles = s.handles
  tokens : s'.tokens = s.tokens

section unshared

variable {content : V → C} {s s₁ s' : Shell V F}

/-- The two new clients. -/
theorem Unshared.init (content : V → C) (defaults : QueryOptions) :
    Unshared content (init defaults : Shell V F) (init defaults) :=
  ⟨⟨_, .init _ defaults, .init _ defaults⟩, (fun _ _ h => by cases h), rfl, rfl, rfl, rfl⟩

/-- The states of the two shells agree. -/
theorem Unshared.agrees (h : Unshared content s s') : s.inner.Agrees content s'.inner := by
  obtain ⟨t, hs, hs'⟩ := h.seen
  refine ⟨hs'.defaults.symm.trans hs.defaults, hs'.nextSubId.symm.trans hs.nextSubId,
    hs'.nextIncarnation.symm.trans hs.nextIncarnation, fun k => ?_⟩
  have heq : (s.inner.entry k).map (View.content content).entry =
      (s'.inner.entry k).map (View.content content).entry :=
    (hs.entry k).symm.trans (hs'.entry k)
  cases he : s.inner.entry k <;> cases he' : s'.inner.entry k <;> rw [he, he'] at heq
  · exact .none
  · cases heq
  · cases heq
  · exact .some (Option.some.inj heq)

/-- The two tables are scanned in the same orders. -/
theorem Unshared.isScan (h : Unshared content s s') {scan : List QueryKey}
    (hscan : s.inner.IsScan scan) : s'.inner.IsScan scan := by
  obtain ⟨t, hs, hs'⟩ := h.seen
  refine ⟨hscan.nodup, fun k => ?_⟩
  rw [hscan.mem, ← hs.mem_iff k, hs'.mem_iff k]

/-- What may be fed to the one may be fed to the other. -/
theorem Unshared.enabled (h : Unshared content s s') {ev : Event V F} (hen : s.Enabled ev) :
    s'.Enabled ev.unshared := by
  cases ev <;>
    simp only [Event.unshared, Enabled, h.flights, h.timers, h.handles, h.tokens] at hen ⊢ <;>
    exact hen

/-- The comparators of an event are those of its reading by a key. -/
theorem admits_of_event {ev : Event V F}
    (hev : ∀ f, ev.compare? = some f → Faithful content f) (k : QueryKey) (n : Nat)
    (kev : KeyEvent V F) (f : Compare V) (hon : ev.on k n = some kev)
    (hf : kev.compare? = some f) : (View.content content).Admits f := by
  rw [Event.compare_of_on hon] at hf
  exact hev f hf

variable [Platform] {c : Call V F}

/-- **The simulation.** Removing the comparator from an event changes nothing but which of two equal
values is stored. -/
theorem Unshared.step (h : Unshared content s s') (hi' : s'.Inv) (hs : Step s c s₁)
    (hev : ∀ f, c.event.compare? = some f → Faithful content f) :
    ∃ out' s₁', Step s' ⟨c.event.unshared, c.now, c.scan, out'⟩ s₁' ∧ Unshared content s₁ s₁' ∧
      c.out.Agrees content out' := by
  have hscan : c.event.unshared.scans = true → s'.inner.IsScan c.scan := by
    intro hscans
    rw [Event.scans_unshared] at hscans
    exact h.isScan (hs.scan hscans)
  obtain ⟨inner, out', hrun', hs'⟩ := hi'.step_exists (h.enabled hs.enabled) c.now hscan
  obtain ⟨t, hsees, hsees'⟩ := h.seen
  have hnames := View.content_keepsNames content
  obtain ⟨t₁, ht, hsees₁⟩ := hsees.handle hnames (admits_of_event hev) hs.handle
  obtain ⟨t₁', ht', hsees₁'⟩ := hsees'.handle hnames
    (admits_of_event fun f hf => by rw [Event.compare_unshared] at hf; cases hf) hrun'
  -- The machine that works on contents cannot tell the two events apart.
  rw [Event.content_unshared, ht] at ht'
  obtain ⟨rfl, hout⟩ := Prod.mk.inj (Except.ok.inj ht')
  have hagree : c.out.Agrees content out' := HandleOutput.agrees_iff.mpr hout
  have hnext : s₁ = s.next s₁.inner c := hs.next
  have hbooks := Call.books_agree c.event c.now c.scan hagree s.handles s.tokens
  refine ⟨out', _, hs', ⟨⟨t₁, hsees₁, hsees₁'⟩, ?_, ?_, ?_, ?_, ?_⟩, hagree⟩
  · have hh := hi'.handled hs'
    intro k e' he'
    rcases hh.inversion he' with ⟨-, he⟩ | ⟨kev, e, hat, rfl⟩
    · exact h.bare k e' he
    · have hbare : e.compare = none := by
        rcases (hi'.subject hat.subject).2.2.2 with he | ⟨-, rfl, -⟩
        · exact h.bare k e he
        · rfl
      rw [Inner.after_of (f := EntryCore.compare) (fun _ _ _ _ => rfl),
        (KeyEvent.supply_react _ c.now e kev).2, Event.compare_of_on hat.on,
        Event.compare_unshared, Option.none_or, hbare]
  · rw [hnext]
    change s'.flights ++ Effect.flights out'.effects = s.flights ++ Effect.flights c.out.effects
    rw [h.flights, ← Effect.flights_content content out'.effects, ← hagree.2,
      Effect.flights_content]
  · rw [hnext]
    change s'.timers ++ Effect.timers inner out'.effects =
      s.timers ++ Effect.timers s₁.inner c.out.effects
    rw [h.timers, ← Effect.timers_content hsees₁' out'.effects, ← hagree.2,
      Effect.timers_content hsees₁]
  · rw [hnext]
    change Call.handles ⟨c.event.unshared, c.now, c.scan, out'⟩ s'.handles = c.handles s.handles
    rw [h.handles]
    exact hbooks.1
  · rw [hnext]
    change Call.tokens ⟨c.event.unshared, c.now, c.scan, out'⟩ s'.tokens = c.tokens s.tokens
    rw [h.tokens]
    exact hbooks.2

end unshared

/-! ## What a commit keeps -/

section keeps

variable [Platform] {s s' : Shell V F} {c : Call V F}

/-- A commit that lands stores the old value or the new one, as the comparator says. -/
theorem Inv.lands (hi : s.Inv) (hs : Step s c s') {k : QueryKey} {incarnation seq : Nat} {value : V}
    (hev : c.event = .commitOk k incarnation seq value) {e : EntryCore V F}
    (he : s.inner.entry k = some e) (hd : e.dropsCommit incarnation seq = false) :
    ∃ e', s'.inner.entry k = some e' ∧ e'.dataSeq = seq ∧
      e'.data = if e.unchanged value then e.data else some value := by
  have hat : s.inner.At c.event k (.commitOk incarnation seq value) e := by
    refine ⟨?_, he, rfl⟩
    rw [hev]
    exact if_pos rfl
  have hlanded : KeyEvent.react s.inner.defaults c.now e (.commitOk incarnation seq value) =
      e.landed seq value c.now := by
    simp [KeyEvent.react, KeyEvent.starts, KeyEvent.wants, KeyEvent.apply, hd]
  have hcontent : ∀ {α : Type} (f : EntryCore V F → α)
      (_ : ∀ (e : EntryCore V F) g r v,
        f { e with gcGen := g, refreshGen := r, snapVersion := v } = f e),
      f (s.inner.after c.now k (.commitOk incarnation seq value) e) =
        f (e.landed seq value c.now) := by
    intro α f hf
    rw [Inner.after_of hf, hlanded]
  exact ⟨_, hat.entry (hi.handled hs), hcontent EntryCore.dataSeq fun _ _ _ _ => rfl,
    hcontent EntryCore.data fun _ _ _ _ => rfl⟩

/-- A result is taken for unchanged by a comparator that is there, on data that is there. -/
theorem unchanged_iff {e : EntryCore V F} {value : V} :
    e.unchanged value = true ↔
      ∃ f old, e.compare = some f ∧ e.data = some old ∧ f old value = true := by
  unfold EntryCore.unchanged
  cases e.compare <;> cases e.data <;> simp

end keeps

/-! ## Transparency -/

/-- **Structural sharing is observationally transparent.** Take a shell-produced run whose comparators
return true only on values with equal content. The same calls without comparators are a run, and in
every such run each call leaves a state that agrees with the one the run with comparators has there,
and returns an output that agrees. In the run with comparators, a commit that is applied keeps the
stored value exactly when a comparator is stored, data was present and the comparator says equal; else
it stores the committed one. -/
theorem sharing_transparent [Platform] (content : V → C) {defaults : QueryOptions}
    {log : List (Trace.Record (Shell V F) (Call V F))} {s : Shell V F} (h : Run defaults log s)
    (hsound : ∀ r ∈ log, ∀ f, r.label.event.compare? = some f → Faithful content f) :
    (∃ log' s', Run defaults log' s' ∧ log'.map (fun r => r.label.input) =
      log.map fun r => (r.label.event.unshared, r.label.now, r.label.scan)) ∧
    (∀ log' s', Run defaults log' s' →
      (log'.map (fun r => r.label.input) =
        log.map fun r => (r.label.event.unshared, r.label.now, r.label.scan)) →
      List.Forall₂ (fun r r' => r.post.inner.Agrees content r'.post.inner ∧
        r.label.out.Agrees content r'.label.out) log log') ∧
    ∀ r ∈ log, ∀ k incarnation seq value e,
      r.label.event = .commitOk k incarnation seq value → r.pre.inner.entry k = some e →
      e.dropsCommit incarnation seq = false →
      ∃ e', r.post.inner.entry k = some e' ∧
        ((∃ f old, e.compare = some f ∧ e.data = some old ∧ f old value = true) →
          e'.data = e.data) ∧
        ((¬ ∃ f old, e.compare = some f ∧ e.data = some old ∧ f old value = true) →
          e'.data = some value) := by
  obtain ⟨log₀, s₀, hrun₀, -, hmatch⟩ : ∃ log₀ s₀, Run defaults log₀ s₀ ∧
      (s₀.Inv ∧ Unshared content s s₀) ∧ List.Forall₂ (fun r r' =>
        r'.label.input = (r.label.event.unshared, r.label.now, r.label.scan) ∧
        r.post.inner.Agrees content r'.post.inner ∧ r.label.out.Agrees content r'.label.out)
          log log₀ := by
    refine h.simulate (R := fun s s' => s'.Inv ∧ Unshared content s s')
      ⟨inv_init defaults, .init content defaults⟩ hsound ?_
    rintro r s' hs hev ⟨hi', hun⟩
    obtain ⟨out', s₁', hs', hun', hagree⟩ := hun.step hi' hs hev
    exact ⟨_, s₁', hs', ⟨hi'.step hs', hun'⟩, rfl, hun'.agrees, hagree⟩
  have hcalls : log₀.map (fun r => r.label.input) =
      log.map fun r => (r.label.event.unshared, r.label.now, r.label.scan) := by
    rw [← List.forall₂_eq_eq_eq, List.forall₂_map_left_iff, List.forall₂_map_right_iff]
    exact (hmatch.imp fun _ _ hm => hm.1).flip
  refine ⟨⟨log₀, s₀, hrun₀, hcalls⟩, fun log' s' hrun' hcalls' => ?_, ?_⟩
  · obtain ⟨rfl, -⟩ := Trace.Run.unique (fun _ _ _ _ _ hs hs' hin => hs.unique hs' hin) hrun' hrun₀
      (hcalls'.trans hcalls.symm)
    exact hmatch.imp fun _ _ hm => hm.2
  · intro r hr k incarnation seq value e hev he hd
    obtain ⟨xs, ys, rfl, hpre, hs, -⟩ := h.of_mem hr
    obtain ⟨e', he', -, hdata⟩ := (inv_of_run hpre).lands hs hev he hd
    refine ⟨e', he', fun hkeep => ?_, fun hkeep => ?_⟩
    · rw [hdata, if_pos (unchanged_iff.mpr hkeep)]
    · rw [hdata, if_neg fun hu => hkeep (unchanged_iff.mp hu)]

section witness

attribute [local instance] exampleClock

/-- Values with an identity and a content, compared by content. -/
def sameContent : Compare (Nat × Nat) := fun old value => decide (old.2 = value.2)

/-- A fetch that stores a value, and a refetch that returns an equal one. -/
def equalRun (compare : Option (Compare (Nat × Nat))) :
    List (Event (Nat × Nat) Unit × Instant × List QueryKey) :=
  let key : QueryKey := ⟨0, []⟩
  [(.read key .ensureFresh (some ()) compare .default, 0, []),
   (.commitOk key 0 1 (0, 5), 1, []),
   (.revalidateRequested key, 2, []),
   (.commitOk key 0 2 (1, 5), 3, [])]

/-- Two equal results: with sharing the first value stays, without it the second one is stored. -/
theorem sharing_transparent_example : ∃ log s log' s',
    Run .default log s ∧ Run .default log' s' ∧
    (s.inner.entry ⟨0, []⟩).bind EntryCore.data = some (0, 5) ∧
    (s'.inner.entry ⟨0, []⟩).bind EntryCore.data = some (1, 5) ∧
    List.Forall₂ (fun (r r' : Trace.Record (Shell (Nat × Nat) Unit) (Call (Nat × Nat) Unit)) =>
      r.post.inner.Agrees Prod.snd r'.post.inner ∧
        r.label.out.Agrees Prod.snd r'.label.out) log log' := by
  have hshared : ((init .default : Shell (Nat × Nat) Unit).exec (equalRun (some sameContent))).map
      (fun r => (r.2.inner.entry ⟨0, []⟩).bind EntryCore.data) = some (some (0, 5)) := by
    decide +kernel
  have hunshared : ((init .default : Shell (Nat × Nat) Unit).exec (equalRun none)).map
      (fun r => (r.2.inner.entry ⟨0, []⟩).bind EntryCore.data) = some (some (1, 5)) := by
    decide +kernel
  obtain ⟨⟨log, s⟩, hex, hd⟩ := Option.map_eq_some_iff.mp hshared
  obtain ⟨⟨log', s'⟩, hex', hd'⟩ := Option.map_eq_some_iff.mp hunshared
  have hcalls := exec_calls hex
  have hcalls' := exec_calls hex'
  have hsound : ∀ r ∈ log, ∀ f, r.label.event.compare? = some f → Faithful Prod.snd f := by
    intro r hr f hf old value heq
    have hmem := List.mem_map_of_mem (f := fun r => (r.label.event, r.label.now, r.label.scan)) hr
    rw [hcalls] at hmem
    have hcompare : f = sameContent := by
      simp only [equalRun, List.mem_cons, Prod.mk.injEq, List.not_mem_nil, or_false] at hmem
      rcases hmem with ⟨hev, -⟩ | ⟨hev, -⟩ | ⟨hev, -⟩ | ⟨hev, -⟩ <;> rw [hev] at hf <;> cases hf
      rfl
    rw [hcompare] at heq
    exact of_decide_eq_true heq
  have hsame : log'.map (fun r => r.label.input) =
      log.map fun r => (r.label.event.unshared, r.label.now, r.label.scan) := by
    have hmap : log.map (fun r => (r.label.event.unshared, r.label.now, r.label.scan)) =
        (log.map fun r => (r.label.event, r.label.now, r.label.scan)).map
          fun i => (i.1.unshared, i.2) := by
      rw [List.map_map]
      rfl
    rw [hmap, hcalls]
    exact hcalls'
  exact ⟨log, s, log', s', run_of_exec hex, run_of_exec hex', hd, hd',
    (sharing_transparent Prod.snd (run_of_exec hex) hsound).2.1 log' s' (run_of_exec hex') hsame⟩

end witness

end Shell

end SwrCore
