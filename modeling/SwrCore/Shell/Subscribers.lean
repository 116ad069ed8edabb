import SwrCore.Shell.Pinned
import SwrCore.Shell.Timers

/-!
# The current subscribers of a key

The options of the subscribers live in the entry. Who is subscribed is a fact about the run: a call
handed out the handle, and no later one took it back.

* `Shell.Subscriber` — a handle that was handed out for these options and not dropped since.
* `Shell.subscriber_iff` — the entry stores the options of exactly these.
* `Shell.Interval`, `Shell.Least` — the least interval, or other setting, that they ask for;
  `Shell.interval_iff`, `Shell.least_iff`: the one the source computes.
-/

set_option linter.unusedSectionVars false

namespace SwrCore

variable {V F : Type}

/-! ## The options of one entry -/

/-- The options stored for a handle after an event. -/
theorem KeyEvent.lookup_options (kev : KeyEvent V F) (o : EntryOptions) (id : Nat) :
    (kev.options o).subs.lookup id = match kev with
      | .subscribe subId _ _ opts => if subId = id then some opts else o.subs.lookup id
      | .unsubscribe subId => if subId = id then none else o.subs.lookup id
      | _ => o.subs.lookup id := by
  cases kev with
  | subscribe subId fetcher compare opts =>
      by_cases hid : subId = id
      · subst hid
        simp [KeyEvent.options, AList.lookup_insert]
      · simp [KeyEvent.options, hid, AList.lookup_insert_ne (Ne.symm hid)]
  | unsubscribe subId =>
      by_cases hid : subId = id
      · subst hid
        simp [KeyEvent.options, AList.lookup_erase]
      · simp [KeyEvent.options, hid, AList.lookup_erase_ne (Ne.symm hid)]
  | _ => rfl

/-- Only subscriptions and their ends change the least interval, and they re-arm the timer. -/
theorem KeyEvent.interval_options {kev : KeyEvent V F} {e : EntryCore V F}
    (h : kev.rearms e = false) (o : EntryOptions) :
    (kev.options o).refreshInterval = o.refreshInterval := by
  cases kev <;> first | rfl | cases h

/-- The least value of an optional setting among the stored options. -/
theorem EntryOptions.least_iff {o : EntryOptions} {g : QueryOptions → Option Duration}
    {d : Duration} : (o.values.filterMap g).min? = some d ↔
      (∃ id opts, o.subs.lookup id = some opts ∧ g opts = some d) ∧
        ∀ id opts d', o.subs.lookup id = some opts → g opts = some d' → d ≤ d' := by
  have hmem : ∀ d, d ∈ o.values.filterMap g ↔
      ∃ id opts, o.subs.lookup id = some opts ∧ g opts = some d := by
    intro d
    rw [List.mem_filterMap]
    constructor
    · rintro ⟨opts, hopts, hd⟩
      obtain ⟨⟨id, opts⟩, hent, rfl⟩ := List.mem_map.mp hopts
      exact ⟨id, opts, AList.mem_lookup_iff.mpr hent, hd⟩
    · rintro ⟨id, opts, hlook, hd⟩
      exact ⟨opts, List.mem_map.mpr ⟨⟨id, opts⟩, AList.mem_lookup_iff.mp hlook, rfl⟩, hd⟩
  rw [List.min?_eq_some_iff, hmem]
  refine and_congr_right fun _ => ⟨fun h id opts d' hlook hd => ?_, fun h d' hd => ?_⟩
  · exact h d' ((hmem d').mpr ⟨id, opts, hlook, hd⟩)
  · obtain ⟨id, opts, hlook, hd⟩ := (hmem d').mp hd
    exact h id opts d' hlook hd

/-- The least interval that a subscriber asks for. -/
theorem EntryOptions.refreshInterval_iff {o : EntryOptions} {d : Duration} :
    o.refreshInterval = some d ↔
      (∃ id opts, o.subs.lookup id = some opts ∧ opts.refreshInterval = some d) ∧
        ∀ id opts d', o.subs.lookup id = some opts → opts.refreshInterval = some d' → d ≤ d' :=
  EntryOptions.least_iff

/-- A subscriber with an interval makes the least one exist. -/
theorem EntryOptions.refreshInterval_exists {o : EntryOptions} {id : Nat} {opts : QueryOptions}
    {d : Duration} (hlook : o.subs.lookup id = some opts) (hd : opts.refreshInterval = some d) :
    ∃ d', o.refreshInterval = some d' := by
  rw [← Option.isSome_iff_exists, EntryOptions.refreshInterval, List.isSome_min?_iff]
  refine List.ne_nil_of_mem (a := d) (List.mem_filterMap.mpr ⟨opts, ?_, hd⟩)
  exact List.mem_map.mpr ⟨⟨id, opts⟩, AList.mem_lookup_iff.mp hlook, rfl⟩

namespace Shell

/-! ## The subscribers -/

/-- The call hands out this handle of the key, for these options. -/
def Joins (k : QueryKey) (subId : Nat) (opts : QueryOptions) (c : Call V F) : Prop :=
  c.subscribed? = some (k, subId) ∧ ∃ fetcher compare, c.event = .subscribe k fetcher compare opts

/-- The handle was handed out for these options, and not taken back since. -/
def Subscriber (k : QueryKey) (subId : Nat) (opts : QueryOptions)
    (log : List (Trace.Record (Shell V F) (Call V F))) : Prop :=
  Trace.Since (fun r => Joins k subId opts r.label)
    (fun r => r.label.event.unsubscribed? = some (k, subId)) log

/-- The least interval that the current subscribers of the key ask for. -/
def Interval (k : QueryKey) (d : Duration) (log : List (Trace.Record (Shell V F) (Call V F))) :
    Prop :=
  (∃ subId opts, Subscriber k subId opts log ∧ opts.refreshInterval = some d) ∧
    ∀ subId opts d', Subscriber k subId opts log → opts.refreshInterval = some d' → d ≤ d'

/-- The least value of a setting among the current subscribers of the key. -/
def Least (f : QueryOptions → Duration) (k : QueryKey) (d : Duration)
    (log : List (Trace.Record (Shell V F) (Call V F))) : Prop :=
  (∃ subId opts, Subscriber k subId opts log ∧ f opts = d) ∧
    ∀ subId opts, Subscriber k subId opts log → d ≤ f opts

/-- The entry under the key stores these options for the handle. -/
def Stores (k : QueryKey) (subId : Nat) (opts : QueryOptions) (s : Shell V F) : Prop :=
  ∃ e, s.inner.entry k = some e ∧ e.opts.subs.lookup subId = some opts

section run

variable [Platform] {defaults : QueryOptions} {log : List (Trace.Record (Shell V F) (Call V F))}
  {s s' : Shell V F} {c : Call V F}

/-- The entry that an event acts on stores what the table stores: a created one stores nothing. -/
theorem Inv.stores_subject (h : s.Inv) {k : QueryKey} {kev : KeyEvent V F} {e : EntryCore V F}
    (hsub : s.inner.subject k kev = some e) (subId : Nat) (opts : QueryOptions) :
    Stores k subId opts s ↔ e.opts.subs.lookup subId = some opts := by
  rcases (h.subject hsub).2.2.2 with he | ⟨hnone, rfl, -⟩
  · constructor
    · rintro ⟨e', he', hlook⟩
      rw [he] at he'
      cases he'
      exact hlook
    · exact fun hlook => ⟨e, he, hlook⟩
  · constructor
    · rintro ⟨e', he', -⟩
      rw [hnone] at he'
      cases he'
    · intro hlook
      cases hlook

/-- A handle that is not handed out yet has no options stored. -/
theorem Inv.fresh_handle (h : s.Inv) {k : QueryKey} {kev : KeyEvent V F} {e : EntryCore V F}
    (hsub : s.inner.subject k kev = some e) : e.opts.subs.lookup s.inner.nextSubId = none := by
  rw [AList.lookup_eq_none, (h.subject hsub).2.1.subs_mem]
  exact fun hmem => lt_irrefl _ (h.handle_lt _ hmem)

/-- A call that subscribes hands out the next handle. -/
theorem Inv.joins_iff (h : s.Inv) (hs : Step s c s') (k : QueryKey) (subId : Nat)
    (opts : QueryOptions) : Joins k subId opts c ↔
      subId = s.inner.nextSubId ∧ ∃ fetcher compare, c.event = .subscribe k fetcher compare opts := by
  have hout : ∀ fetcher compare, c.event = .subscribe k fetcher compare opts →
      c.subscribed? = some (k, s.inner.nextSubId) := by
    intro fetcher compare hev
    have hon : c.event.on k s.inner.nextSubId =
        some (.subscribe s.inner.nextSubId fetcher compare opts) := by
      rw [hev]
      exact if_pos rfl
    have hans := (h.handled hs).outcome k _ hon
    rw [Inner.answer, show s.inner.subject k (.subscribe s.inner.nextSubId fetcher compare opts) =
      some _ from if_pos rfl] at hans
    unfold Call.subscribed?
    rw [hev, hans]
    rfl
  constructor
  · rintro ⟨hsub, fetcher, compare, hev⟩
    rw [hout fetcher compare hev, Option.some.injEq, Prod.mk.injEq] at hsub
    exact ⟨hsub.2.symm, fetcher, compare, hev⟩
  · rintro ⟨rfl, fetcher, compare, hev⟩
    exact ⟨hout fetcher compare hev, fetcher, compare, hev⟩

/-- **Subscribers over a step.** The options of a handle are stored by the call that hands it out, and
dropped by the one that takes it back. -/
theorem Inv.stores_step (h : s.Inv) (hs : Step s c s') (k : QueryKey) (subId : Nat)
    (opts : QueryOptions) : Stores k subId opts s' ↔ Joins k subId opts c ∨
      (Stores k subId opts s ∧ ¬ c.event.unsubscribed? = some (k, subId)) := by
  have hh := h.handled hs
  rw [h.joins_iff hs]
  cases hon : c.event.on k s.inner.nextSubId with
  | none =>
      have hjoin : ∀ fetcher compare, c.event ≠ .subscribe k fetcher compare opts := by
        intro fetcher compare hev
        simp [hev, Event.on] at hon
      have hleave : c.event.unsubscribed? ≠ some (k, subId) := by
        intro hun
        cases hev : c.event <;> rw [hev] at hun hon <;> cases hun
        simp [Event.on] at hon
      simp only [Stores, (hh.off hon).1, hjoin, exists_false, and_false, false_or, hleave,
        not_false_eq_true, and_true]
  | some kev =>
      by_cases hstay : ∃ e, s.inner.subject k kev = some e ∧ kev.removes e = false
      · obtain ⟨e, hsub, hrem⟩ := hstay
        have hat : s.inner.At c.event k kev e := ⟨hon, hsub, hrem⟩
        have hpost : Stores k subId opts s' ↔
            (kev.options e.opts).subs.lookup subId = some opts := by
          simp only [Stores, hat.entry hh, Option.some.injEq, exists_eq_left', Inner.after_opts]
        rw [hpost, h.stores_subject hsub, KeyEvent.lookup_options]
        generalize c.event = ev at hon
        cases Event.on_inv hon with
        | subscribe =>
            by_cases hid : s.inner.nextSubId = subId
            · subst hid
              simp [h.fresh_handle hsub]
            · simp [hid, Ne.symm hid, Event.unsubscribed?]
        | @unsubscribe id => by_cases hid : id = subId <;> simp [hid, Event.unsubscribed?]
        | _ => simp [Event.unsubscribed?]
      · -- The table has no entry, or an idle one that the event removes.
        push Not at hstay
        have hgone := (hh.gone hon fun e he => Bool.eq_true_of_not_eq_false (hstay e he)).1
        have hpost : ¬ Stores k subId opts s' := by
          rintro ⟨e', he', -⟩
          rw [hgone] at he'
          cases he'
        refine iff_of_false hpost ?_
        rintro (⟨-, fetcher, compare, hev⟩ | ⟨⟨e, he, hlook⟩, -⟩)
        · rw [hev] at hon
          simp only [Event.on, if_true, Option.some.injEq] at hon
          subst hon
          exact hstay _ (if_pos rfl) rfl
        · obtain ⟨-, hq⟩ := h.removed hs he hgone
          have hmem := AList.mem_lookup_iff.mp hlook
          rw [h.idle_subs he hq] at hmem
          exact absurd hmem List.not_mem_nil

/-- **The subscribers of a key.** The entry stores the options of exactly the current ones. -/
theorem subscriber_iff (h : Run defaults log s) (k : QueryKey) (subId : Nat)
    (opts : QueryOptions) : Stores k subId opts s ↔ Subscriber k subId opts log := by
  refine h.since_iff (Q := Stores k subId opts) ?_ fun log r hrun hs =>
    (inv_of_run hrun).stores_step hs k subId opts
  rintro ⟨e, he, -⟩
  rw [init_entry] at he
  cases he

/-- The options that an entry stores are those of the current subscribers. -/
theorem lookup_iff (h : Run defaults log s) {k : QueryKey} {e : EntryCore V F}
    (he : s.inner.entry k = some e) (subId : Nat) (opts : QueryOptions) :
    e.opts.subs.lookup subId = some opts ↔ Subscriber k subId opts log := by
  rw [← subscriber_iff h]
  refine ⟨fun hlook => ⟨e, he, hlook⟩, ?_⟩
  rintro ⟨e', he', hlook⟩
  rw [he] at he'
  cases he'
  exact hlook

/-- The interval the source computes is the least one of the current subscribers. -/
theorem interval_iff (h : Run defaults log s) {k : QueryKey} {e : EntryCore V F}
    (he : s.inner.entry k = some e) (d : Duration) :
    e.opts.refreshInterval = some d ↔ Interval k d log := by
  simp only [EntryOptions.refreshInterval_iff, lookup_iff h he, Interval]

/-- The minimum the source computes of a setting is the least value of the current subscribers. -/
theorem least_iff (h : Run defaults log s) {k : QueryKey} {e : EntryCore V F}
    (he : s.inner.entry k = some e) (f : QueryOptions → Duration) (d : Duration) :
    (e.opts.values.map f).min? = some d ↔ Least f k d log := by
  have hmap : e.opts.values.map f = e.opts.values.filterMap (some ∘ f) :=
    (congrFun List.filterMap_eq_map e.opts.values).symm
  rw [hmap, EntryOptions.least_iff]
  simp only [lookup_iff h he, Function.comp_apply, Option.some.injEq, Least]
  refine and_congr_right fun _ => ⟨fun hle subId opts hsub => hle subId opts _ hsub rfl, ?_⟩
  rintro hle subId opts d' hsub rfl
  exact hle subId opts hsub

end run

end Shell

end SwrCore
