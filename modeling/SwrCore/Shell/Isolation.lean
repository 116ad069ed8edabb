import SwrCore.Cell.View
import SwrCore.Shell.Pinned
import SwrCore.Shell.Timers

/-!
# Keys do not interfere

What a run does to one key depends on the events addressed to that key and on the two that scan the
table, and on nothing else. Deleting every other event leaves a run that does the same to the key.
Only the names differ: both counters of the machine are shared by all keys, so the incarnations and
subscription ids that the key got come out renumbered.

* `Event.concerns` — the events that stay.
* `born?`, `births`, `joined?`, `joins` — the incarnations and the subscription ids given to a key.
* `Projected` — the shell of the reduced run: everything that belongs to the key, renumbered.
* `Projected.keep`, `Projected.drop` — the simulation; a deleted event is matched by no step.
* `keys_do_not_interfere` — the runs, and the independence of the table scans.
-/

set_option linter.unusedSectionVars false

namespace SwrCore

variable {V F : Type}

/-! ## The events of a key -/

/-- The event is addressed to the key, or scans the table. -/
def Event.concerns (k : QueryKey) (ev : Event V F) : Bool :=
  ev.key?.all fun key => decide (key = k)

/-- An event does not concern the key if it names another one. -/
theorem Event.concerns_iff {k : QueryKey} {ev : Event V F} :
    ev.concerns k = true ↔ ∀ key, ev.key? = some key → key = k := by
  unfold Event.concerns
  cases ev.key? <;> simp

/-- A deleted event is addressed to another key, which is all it concerns. -/
theorem Event.off_of_not_concerns {k : QueryKey} {ev : Event V F} (h : ev.concerns k = false)
    (n : Nat) : ev.on k n = none := by
  by_contra hon
  obtain ⟨kev, hon⟩ := Option.ne_none_iff_exists'.mp hon
  have hself : ev.concerns k = true :=
    Event.concerns_iff.mpr fun key hkey => Event.on_key hkey hon
  rw [h] at hself
  cases hself

/-- The key for which an event may make an entry is the one it names. -/
theorem Event.key_of_createdKey {key : QueryKey} {ev : Event V F} (h : ev.createdKey = some key) :
    ev.key? = some key := by
  cases ev <;> simp only [Event.createdKey, Option.ite_none_left_eq_some, reduceCtorEq] at h <;>
    first | exact h | exact h.2

/-- An event that scans the table creates no entry. -/
theorem Event.creates_of_scan {k : QueryKey} {n : Nat} {ev : Event V F} {kev : KeyEvent V F}
    (h : ev.key? = none) (hon : ev.on k n = some kev) : kev.creates = false := by
  by_contra hc
  have hcreated := Event.createdKey_of_on hon (Bool.eq_true_of_not_eq_false hc)
  rw [Event.key_of_createdKey hcreated] at h
  cases h

theorem View.key_event (v : View V V) (ev : Event V F) : (v.event ev).key? = ev.key? := by
  cases ev <;> rfl

theorem View.createdKey_event (v : View V V) (ev : Event V F) :
    (v.event ev).createdKey = ev.createdKey := by
  cases ev <;> rfl

/-! ## The names of a key -/

/-- The flight under new names. -/
def Flight.renamed (ρ : Equiv.Perm Nat) (f : Flight) : Flight :=
  { f with incarnation := ρ f.incarnation }

/-- The timer under new names. -/
def Timer.renamed (ρ : Equiv.Perm Nat) (t : Timer) : Timer :=
  { t with incarnation := t.incarnation.map ρ }

namespace Shell

/-- The incarnation a call gives to the key. -/
def born? (k : QueryKey) (r : Trace.Record (Shell V F) (Call V F)) : Option Nat :=
  if (r.pre.inner.entry k).isNone ∧ r.label.event.createdKey = some k then
    some r.pre.inner.nextIncarnation
  else none

/-- The subscription id a call gives to the key. -/
def joined? (k : QueryKey) (r : Trace.Record (Shell V F) (Call V F)) : Option Nat :=
  match r.label.event with
  | .subscribe key _ _ _ => if key = k then some r.pre.inner.nextSubId else none
  | _ => none

/-- The incarnations given to the key in a run, in their order. -/
def births (k : QueryKey) (log : List (Trace.Record (Shell V F) (Call V F))) : List Nat :=
  log.filterMap (born? k)

/-- The subscription ids given to the key in a run, in their order. -/
def joins (k : QueryKey) (log : List (Trace.Record (Shell V F) (Call V F))) : List Nat :=
  log.filterMap (joined? k)

theorem births_snoc (k : QueryKey) (log : List (Trace.Record (Shell V F) (Call V F)))
    (r : Trace.Record (Shell V F) (Call V F)) :
    births k (log ++ [r]) = births k log ++ (born? k r).toList := by
  rw [births, List.filterMap_append]
  cases hr : born? k r <;> simp [births, hr]

theorem joins_snoc (k : QueryKey) (log : List (Trace.Record (Shell V F) (Call V F)))
    (r : Trace.Record (Shell V F) (Call V F)) :
    joins k (log ++ [r]) = joins k log ++ (joined? k r).toList := by
  rw [joins, List.filterMap_append]
  cases hr : joined? k r <;> simp [joins, hr]

section names

variable [Platform] {defaults : QueryOptions} {k : QueryKey}
  {log : List (Trace.Record (Shell V F) (Call V F))} {s : Shell V F}

/-- No incarnation is given twice. -/
theorem births_nodup (h : Run defaults log s) : (births k log).Nodup := by
  refine (h.names_nodup (c := fun s => s.inner.nextIncarnation) fun xs r hr hs => ?_).1
  have hnext := ((inv_of_run hr).handled hs).nextIncarnation
  refine ⟨by omega, fun n hn => ?_⟩
  simp only [born?, Option.ite_none_right_eq_some, Option.some.injEq] at hn
  obtain ⟨⟨hnone, hcreated⟩, rfl⟩ := hn
  have halloc : r.pre.inner.allocated r.label.event = 1 := by
    rw [Inner.allocated, hcreated, Option.elim_some, if_pos hnone]
  exact ⟨rfl, by omega⟩

/-- No subscription id is given twice. -/
theorem joins_nodup (h : Run defaults log s) : (joins k log).Nodup := by
  refine (h.names_nodup (c := fun s => s.inner.nextSubId) fun xs r hr hs => ?_).1
  have hnext := ((inv_of_run hr).handled hs).nextSubId
  refine ⟨by omega, fun n hn => ?_⟩
  cases hev : r.label.event with
  | subscribe key fetcher compare opts =>
      simp only [joined?, hev, Option.ite_none_right_eq_some, Option.some.injEq] at hn
      obtain ⟨-, rfl⟩ := hn
      have hsub : Inner.subscribed r.label.event = 1 := by
        rw [hev]
        rfl
      exact ⟨rfl, by omega⟩
  | _ =>
      simp only [joined?, hev] at hn
      cases hn

end names

/-! ## The books of a key -/

section books

variable {α β : Type} [BEq α] [LawfulBEq α] [BEq β] [LawfulBEq β]

/-- A list with one item added, or else one item removed. -/
def booked (added removed : Option α) (l : List α) : List α :=
  match added, removed with
  | some x, _ => l ++ [x]
  | none, some x => l.erase x
  | none, none => l

variable {added removed : Option α} {p : α → Bool}

/-- The part of the books that an item is not in stays as it was. -/
theorem booked_drop (hadded : ∀ x, added = some x → p x = false)
    (hremoved : ∀ x, removed = some x → p x = false) (l : List α) :
    (booked added removed l).filter p = l.filter p := by
  cases added with
  | some x => simp [booked, List.filter_append, hadded x rfl]
  | none =>
      cases removed with
      | some x =>
          have hx : x ∉ l.filter p := by
            rw [List.mem_filter, hremoved x rfl]
            simp
          change (l.erase x).filter p = l.filter p
          rw [← List.erase_filter, List.erase_of_not_mem hx]
      | none => rfl

/-- The part of the books that an item is in is booked by itself, also under other names. -/
theorem booked_project (hadded : ∀ x, added = some x → p x = true)
    (hremoved : ∀ x, removed = some x → p x = true) {g : α → β} (hg : g.Injective) (l : List α) :
    ((booked added removed l).filter p).map g =
      booked (added.map g) (removed.map g) ((l.filter p).map g) := by
  cases added with
  | some x => simp [booked, List.filter_append, hadded x rfl]
  | none =>
      cases removed with
      | some x =>
          change ((l.erase x).filter p).map g = ((l.filter p).map g).erase (g x)
          rw [← List.erase_filter, List.map_erase hg]
      | none => rfl

end books

section items

/-- The subscriptions of a call: what it hands out comes in, what it unsubscribes goes. -/
theorem handles_booked (c : Call V F) (handles : List (QueryKey × Nat)) :
    c.handles handles = booked c.subscribed? c.event.unsubscribed? handles := by
  rw [Call.handles_eq]
  cases c.subscribed? <;> cases c.event.unsubscribed? <;> rfl

/-- Its mutations in the same way. -/
theorem tokens_booked (c : Call V F) (tokens : List MutationToken) :
    c.tokens tokens = booked c.begun? c.event.settled? tokens := by
  rw [Call.tokens_eq]
  cases c.begun? <;> cases c.event.settled? <;> rfl

variable [Platform] {s s' : Shell V F} {c : Call V F}

/-- A subscription is handed out for the key that the event names. -/
theorem key_of_subscribed {x : QueryKey × Nat} (h : c.subscribed? = some x) :
    c.event.key? = some x.1 := by
  unfold Call.subscribed? at h
  cases hev : c.event <;> cases ho : c.out.outcome <;> rw [hev, ho] at h <;> cases h
  rfl

theorem key_of_unsubscribed {ev : Event V F} {x : QueryKey × Nat} (h : ev.unsubscribed? = some x) :
    ev.key? = some x.1 := by
  cases ev <;> cases h
  rfl

theorem key_of_settled {ev : Event V F} {x : MutationToken} (h : ev.settled? = some x) :
    ev.key? = some x.key := by
  cases ev <;> cases h <;> rfl

/-- A mutation begins on the key that the event names. -/
theorem Inv.key_of_begun (hi : s.Inv) (hs : Step s c s') {x : MutationToken}
    (h : c.begun? = some x) : c.event.key? = some x.key := by
  unfold Call.begun? at h
  cases hev : c.event with
  | mutateBegin key optimistic =>
      obtain ⟨e, -, -, htokens⟩ := hi.begin_outcome hs hev
      cases ho : c.out.outcome with
      | mutation token =>
          rw [hev, ho] at h
          cases h
          unfold Call.tokens at htokens
          rw [hev, ho] at htokens
          obtain rfl := List.singleton_inj.mp (List.append_cancel_left htokens)
          rfl
      | _ =>
          rw [hev, ho] at h
          cases h
  | _ =>
      rw [hev] at h
      cases h

end items

/-! ## The shell of the reduced run -/

/-- The handle under new names. -/
def renamedHandle (σ : Equiv.Perm Nat) (h : QueryKey × Nat) : QueryKey × Nat := (h.1, σ h.2)

/-- The shell `t` has everything of `s` that belongs to the key, renumbered, and nothing else. -/
structure Projected (k : QueryKey) (ρ σ : Equiv.Perm Nat)
    (log : List (Trace.Record (Shell V F) (Call V F))) (s t : Shell V F) : Prop where
  inv : t.Inv
  defaults : t.inner.defaults = s.inner.defaults
  nextIncarnation : t.inner.nextIncarnation = (births k log).length
  nextSubId : t.inner.nextSubId = (joins k log).length
  entry : t.inner.entry k = (s.inner.entry k).map (View.renamed ρ σ).entry
  alone : ∀ key, key ≠ k → t.inner.entry key = none
  flights : t.flights = (s.flights.filter fun f => decide (f.key = k)).map (Flight.renamed ρ)
  timers : t.timers = (s.timers.filter fun t => decide (t.key = k)).map (Timer.renamed ρ)
  handles : t.handles = (s.handles.filter fun h => decide (h.1 = k)).map (renamedHandle σ)
  tokens : t.tokens = s.tokens.filter fun t => decide (t.key = k)

/-- A new shell is the projection of a new shell, whatever the renamings. -/
theorem Projected.init (k : QueryKey) (ρ σ : Equiv.Perm Nat) (defaults : QueryOptions) :
    Projected k ρ σ [] (init defaults : Shell V F) (init defaults) :=
  ⟨inv_init defaults, rfl, rfl, rfl, rfl, fun _ _ => rfl, rfl, rfl, rfl, rfl⟩

/-- The timers of a key are those of its effects. -/
theorem timers_of [Platform] (inner : Inner V F) (k : QueryKey) (effects : List (Effect V F)) :
    (Effect.timers inner effects).filter (fun t => decide (t.key = k)) =
      Effect.timers inner (Effect.of k effects) := by
  rw [filter_timers inner k _ (fun t ht => of_decide_eq_true ht), List.filter_eq_self]
  intro t ht
  obtain ⟨x, hx, hxt⟩ := List.mem_filterMap.mp ht
  have hkey := (Effect.mem_of.mp hx).2
  cases x <;> cases hxt
  exact decide_eq_true hkey

section step

variable [Platform] {k : QueryKey} {ρ σ : Equiv.Perm Nat}
  {log : List (Trace.Record (Shell V F) (Call V F))} {s s' t : Shell V F} {c : Call V F}

/-- **A deleted event** leaves the key and everything that belongs to it as it was. -/
theorem Projected.drop (h : Projected k ρ σ log s t) (hi : s.Inv) (hs : Step s c s')
    (hoff : c.event.concerns k = false) : Projected k ρ σ (log ++ [⟨s, c, s'⟩]) s' t := by
  have hh := hi.handled hs
  obtain ⟨hentry, heffects⟩ := hh.off (Event.off_of_not_concerns hoff s.inner.nextSubId)
  have hkey : ∀ key, c.event.key? = some key → decide (key = k) = false := by
    intro key hkey
    rw [Event.concerns, hkey] at hoff
    exact hoff
  have hborn : born? k ⟨s, c, s'⟩ = none := by
    refine if_neg fun hb => ?_
    exact absurd (hkey k (Event.key_of_createdKey hb.2)) (by simp)
  have hjoined : joined? k ⟨s, c, s'⟩ = none := by
    cases hev : c.event with
    | subscribe key fetcher compare opts =>
        have hne := hkey key (by rw [hev]; rfl)
        simp only [joined?, hev]
        exact if_neg (of_decide_eq_false hne)
    | _ => simp only [joined?, hev]
  refine ⟨h.inv, h.defaults.trans (hh.defaults).symm, ?_, ?_, ?_, h.alone, ?_, ?_, ?_, ?_⟩
  · rw [h.nextIncarnation, births_snoc, hborn, Option.toList_none, List.append_nil]
  · rw [h.nextSubId, joins_snoc, hjoined, Option.toList_none, List.append_nil]
  · rw [h.entry, hentry]
  · rw [h.flights, next_flights hs, List.filter_append, flights_of, heffects]
    simp [Effect.flights]
  · rw [h.timers, next_timers hs, List.filter_append, timers_of, heffects]
    simp [Effect.timers]
  · have hbooks : (c.handles s.handles).filter (fun h => decide (h.1 = k)) =
        s.handles.filter fun h => decide (h.1 = k) := by
      rw [handles_booked]
      exact booked_drop (fun x hx => hkey x.1 (key_of_subscribed hx))
        (fun x hx => hkey x.1 (key_of_unsubscribed hx)) s.handles
    rw [h.handles, next_handles hs, hbooks]
  · have hbooks : (c.tokens s.tokens).filter (fun t => decide (t.key = k)) =
        s.tokens.filter fun t => decide (t.key = k) := by
      rw [tokens_booked]
      exact booked_drop (fun x hx => hkey x.key (hi.key_of_begun hs hx))
        (fun x hx => hkey x.key (key_of_settled hx)) s.tokens
    rw [h.tokens, next_tokens hs, hbooks]

/-- An event that stays may be fed to the reduced shell, under the new names. -/
theorem Projected.enabled (h : Projected k ρ σ log s t) {ev : Event V F}
    (hkeep : ev.concerns k = true) (hen : s.Enabled ev) :
    t.Enabled ((View.renamed ρ σ).event ev) := by
  have hkey := Event.concerns_iff.mp hkeep
  have hflight : ∀ f : Flight, f.key = k → f ∈ s.flights → f.renamed ρ ∈ t.flights := by
    intro f hf hmem
    rw [h.flights]
    exact List.mem_map_of_mem (List.mem_filter.mpr ⟨hmem, decide_eq_true hf⟩)
  have htoken : ∀ x : MutationToken, x.key = k → x ∈ s.tokens → x ∈ t.tokens := by
    intro x hx hmem
    rw [h.tokens]
    exact List.mem_filter.mpr ⟨hmem, decide_eq_true hx⟩
  cases ev with
  | unsubscribe key subId =>
      change (key, σ subId) ∈ t.handles
      rw [h.handles]
      exact List.mem_map_of_mem (f := renamedHandle σ)
        (List.mem_filter.mpr ⟨hen, decide_eq_true (hkey key rfl)⟩)
  | commitOk key incarnation seq value => exact hflight _ (hkey key rfl) hen
  | commitErr key incarnation seq error => exact hflight _ (hkey key rfl) hen
  | mutateCommit token result flags => exact htoken token (hkey token.key rfl) hen
  | mutateAbort token flags => exact htoken token (hkey token.key rfl) hen
  | timerFired key kind generation =>
      obtain ⟨x, hx, rfl, hkind, hgen⟩ := hen
      refine ⟨x.renamed ρ, ?_, rfl, hkind, hgen⟩
      rw [h.timers]
      exact List.mem_map_of_mem (List.mem_filter.mpr ⟨hx, decide_eq_true (hkey x.key rfl)⟩)
  | _ => trivial

/-- The one order in which the reduced table can be iterated. -/
theorem Projected.isScan (h : Projected k ρ σ log s t) :
    t.inner.IsScan (if (t.inner.entry k).isSome then [k] else []) := by
  have hmem : ∀ key, key ∈ t.inner.entries ↔ key = k ∧ (t.inner.entry k).isSome := by
    intro key
    rw [Inner.mem_entries]
    by_cases hk : key = k
    · subst hk
      rw [Option.isSome_iff_exists]
      exact ⟨fun hex => ⟨rfl, hex⟩, And.right⟩
    · simp [h.alone key hk, hk]
  refine ⟨?_, fun key => ?_⟩
  · split_ifs <;> simp
  · rw [hmem]
    split_ifs with hsome <;> simp [hsome]

/-- What a call of the reduced run has in common with the call it stands for. -/
structure Mirrors (k : QueryKey) (ρ σ : Equiv.Perm Nat)
    (r r' : Trace.Record (Shell V F) (Call V F)) : Prop where
  event : r'.label.event = (View.renamed ρ σ).event r.label.event
  now : r'.label.now = r.label.now
  outcome : r.label.event.key? = some k →
    r'.label.out.outcome = (View.renamed ρ σ).outcome r.label.out.outcome
  effects : r'.label.out.effects =
    (Effect.of k r.label.out.effects).map (View.renamed ρ σ).effect
  entry : r'.post.inner.entry k = (r.post.inner.entry k).map (View.renamed ρ σ).entry

/-- The key cannot tell the two tables apart, nor the two events. -/
theorem Projected.alike (h : Projected k ρ σ log s t) {ev : Event V F}
    (hkeep : ev.concerns k = true)
    (hborn : ev.createdKey = some k → s.inner.entry k = none →
      ρ s.inner.nextIncarnation = t.inner.nextIncarnation)
    (hjoined : ∀ fetcher compare opts, ev = .subscribe k fetcher compare opts →
      σ s.inner.nextSubId = t.inner.nextSubId) :
    (View.renamed ρ σ).Alike s.inner t.inner k ev ((View.renamed ρ σ).event ev) := by
  refine ⟨h.defaults, h.entry, fun _ _ _ _ => trivial, ?_, ?_⟩
  · rw [← (View.renamed ρ σ).on_event ev k s.inner.nextSubId]
    cases ev with
    | subscribe key fetcher compare opts =>
        obtain rfl := Event.concerns_iff.mp hkeep key rfl
        exact congrArg (fun n => Event.on key n _) (hjoined fetcher compare opts rfl).symm
    | _ => rfl
  · intro kev hon hc he
    exact (hborn (Event.createdKey_of_on hon hc) he).symm

/-- In the reduced table an event acts on the key or on nothing. -/
theorem Projected.at_key (h : Projected k ρ σ log s t) {ev : Event V F}
    (hkeep : ev.concerns k = true) {key : QueryKey} {kev : KeyEvent V F} {e : EntryCore V F}
    (hat : t.inner.At ((View.renamed ρ σ).event ev) key kev e) : key = k := by
  have hkey := View.key_event (View.renamed ρ σ) ev
  cases hk : ev.key? with
  | some key' =>
      rw [hk] at hkey
      obtain rfl := Event.on_key hkey hat.on
      exact Event.concerns_iff.mp hkeep key' hk
  | none =>
      rw [hk] at hkey
      have hsub := hat.subject
      rw [Inner.subject, Event.creates_of_scan hkey hat.on, if_neg Bool.false_ne_true] at hsub
      by_contra hne
      rw [h.alone key hne] at hsub
      cases hsub

/-- Renamed effects start the renamed flights. -/
theorem flights_renamed (ρ σ : Equiv.Perm Nat) (effects : List (Effect V F)) :
    Effect.flights (effects.map (View.renamed ρ σ).effect) =
      (Effect.flights effects).map (Flight.renamed ρ) := by
  unfold Effect.flights
  rw [List.filterMap_map, List.map_filterMap]
  refine List.filterMap_congr fun x _ => ?_
  cases x <;> rfl

/-- The timers of the key, started from the entry of the key. -/
theorem timers_renamed {inner inner' : Inner V F}
    (hentry : inner'.entry k = (inner.entry k).map (View.renamed ρ σ).entry)
    (effects : List (Effect V F)) :
    Effect.timers inner' ((Effect.of k effects).map (View.renamed ρ σ).effect) =
      (Effect.timers inner (Effect.of k effects)).map (Timer.renamed ρ) := by
  unfold Effect.timers
  rw [List.filterMap_map, List.map_filterMap]
  refine List.filterMap_congr fun x hx => ?_
  have hkey := (Effect.mem_of.mp hx).2
  cases x with
  | scheduleTimer key kind deadline generation =>
      obtain rfl : key = k := hkey
      have hinc : (inner'.entry key).map EntryCore.incarnation =
          ((inner.entry key).map EntryCore.incarnation).map ρ := by
        rw [hentry, Option.map_map, Option.map_map]
        rfl
      exact congrArg (fun i => some (Timer.mk key kind deadline generation i)) hinc
  | _ => rfl

/-- What the reduced shell hands out and takes back is what the shell does, under the new names. -/
theorem items_renamed {c' : Call V F} (hev : c'.event = (View.renamed ρ σ).event c.event)
    (hkeep : c.event.concerns k = true) (hout : c.event.key? = some k →
      c'.out.outcome = (View.renamed ρ σ).outcome c.out.outcome) :
    c'.subscribed? = c.subscribed?.map (renamedHandle σ) ∧
      c'.event.unsubscribed? = c.event.unsubscribed?.map (renamedHandle σ) ∧
      c'.begun? = c.begun? ∧ c'.event.settled? = c.event.settled? := by
  have hkey := Event.concerns_iff.mp hkeep
  unfold Call.subscribed? Call.begun?
  rw [hev]
  cases hcev : c.event with
  | subscribe key fetcher compare opts =>
      rw [hcev] at hout hkey
      obtain rfl := hkey key rfl
      rw [hout rfl]
      cases c.out.outcome <;> exact ⟨rfl, rfl, rfl, rfl⟩
  | mutateBegin key optimistic =>
      rw [hcev] at hout hkey
      obtain rfl := hkey key rfl
      rw [hout rfl]
      cases c.out.outcome <;> exact ⟨rfl, rfl, rfl, rfl⟩
  | _ => exact ⟨rfl, rfl, rfl, rfl⟩

/-- A call that creates the entry of the key gives it an incarnation. -/
theorem born_of_creates (hc : c.event.createdKey = some k) (he : s.inner.entry k = none) :
    born? k ⟨s, c, s'⟩ = some s.inner.nextIncarnation :=
  if_pos ⟨by rw [he]; rfl, hc⟩

/-- A call that subscribes to the key gives it a subscription id. -/
theorem joined_of_subscribe {fetcher : Option F} {compare : Option (Compare V)} {opts : QueryOptions}
    (hev : c.event = .subscribe k fetcher compare opts) :
    joined? k ⟨s, c, s'⟩ = some s.inner.nextSubId := by
  simp only [joined?, hev, if_true]

/-- The reduced shell takes an incarnation whenever the key gets one. -/
theorem Projected.allocated (h : Projected k ρ σ log s t) (hkeep : c.event.concerns k = true) :
    t.inner.allocated ((View.renamed ρ σ).event c.event) =
      (born? k ⟨s, c, s'⟩).toList.length := by
  rw [Inner.allocated, View.createdKey_event]
  cases hc : c.event.createdKey with
  | none =>
      have hnone : born? k ⟨s, c, s'⟩ = none := by
        refine if_neg fun hb => ?_
        rw [hc] at hb
        cases hb.2
      rw [hnone]
      rfl
  | some key =>
      obtain rfl := Event.concerns_iff.mp hkeep key (Event.key_of_createdKey hc)
      rw [Option.elim_some, h.entry, Option.isNone_map]
      cases he : s.inner.entry key with
      | none =>
          rw [born_of_creates hc he]
          rfl
      | some e =>
          have hnone : born? key ⟨s, c, s'⟩ = none := by
            refine if_neg fun hb => ?_
            rw [he] at hb
            cases hb.1
          rw [hnone]
          rfl

/-- It takes a subscription id whenever the key gets one. -/
theorem subscribed_renamed (hkeep : c.event.concerns k = true) :
    Inner.subscribed ((View.renamed ρ σ).event c.event) =
      (joined? k ⟨s, c, s'⟩).toList.length := by
  cases hev : c.event with
  | subscribe key fetcher compare opts =>
      obtain rfl := Event.concerns_iff.mp hkeep key (by rw [hev]; rfl)
      rw [joined_of_subscribe hev]
      rfl
  | _ =>
      simp only [joined?, hev]
      rfl

/-- A step of the reduced shell under an event that stays does to the key what the event does to it. -/
theorem Projected.mirrors (h : Projected k ρ σ log s t) (hi : s.Inv) (hs : Step s c s')
    (hkeep : c.event.concerns k = true) {c' : Call V F} {t' : Shell V F} (hs' : Step t c' t')
    (hev : c'.event = (View.renamed ρ σ).event c.event) (hnow : c'.now = c.now)
    (halike : (View.renamed ρ σ).Alike s.inner t.inner k c.event c'.event) :
    Mirrors k ρ σ ⟨s, c, s'⟩ ⟨t, c', t'⟩ := by
  have hh := hi.handled hs
  have hh' := h.inv.handled hs'
  rw [hev] at halike
  rw [hev, hnow] at hh'
  have hcell := halike.cell c.now
  refine ⟨hev, hnow, fun hk => ?_, ?_, ?_⟩
  · change c.event.key? = some k at hk
    obtain ⟨kev, hon⟩ : ∃ kev, c.event.on k s.inner.nextSubId = some kev := by
      cases hcev : c.event <;> rw [hcev] at hk <;> cases hk <;> exact ⟨_, if_pos rfl⟩
    have hon' := halike.on
    rw [hon, Option.map_some] at hon'
    rw [hh'.outcome k _ hon', hh.outcome k kev hon]
    exact halike.answer hon c.now
  · have hself : ∀ x ∈ c'.out.effects, x.key = k := by
      intro x hx
      obtain ⟨kev, e, hat, -⟩ := hh'.effect hx
      exact h.at_key hkeep hat
    rw [← Effect.of_self hself, hh'.effects k, hh.effects k]
    exact hcell.2
  · rw [hh'.entry k, hh.entry k]
    exact hcell.1

/-- After such a step the table has no other entries either. -/
theorem Projected.alone_step (h : Projected k ρ σ log s t) (hkeep : c.event.concerns k = true)
    {c' : Call V F} {t' : Shell V F} (hs' : Step t c' t')
    (hev : c'.event = (View.renamed ρ σ).event c.event) :
    ∀ key, key ≠ k → t'.inner.entry key = none := by
  have hh' := h.inv.handled hs'
  rw [hev] at hh'
  intro key hne
  cases he : t'.inner.entry key with
  | none => rfl
  | some e =>
      rcases hh'.inversion he with ⟨-, hold⟩ | ⟨kev, e₀, hat, -⟩
      · rw [h.alone key hne] at hold
        cases hold
      · exact absurd (h.at_key hkeep hat) hne

/-- The live handles of the key, under their new names. -/
theorem Projected.handles_step (h : Projected k ρ σ log s t) (hs : Step s c s')
    (hkeep : c.event.concerns k = true) {c' : Call V F} {t' : Shell V F} (hs' : Step t c' t')
    (hm : Mirrors k ρ σ ⟨s, c, s'⟩ ⟨t, c', t'⟩) :
    t'.handles = (s'.handles.filter fun h => decide (h.1 = k)).map (renamedHandle σ) := by
  have hkey := Event.concerns_iff.mp hkeep
  obtain ⟨hsub, hunsub, -, -⟩ := items_renamed hm.event hkeep hm.outcome
  have hinj : Function.Injective (renamedHandle σ) := by
    rintro ⟨key, n⟩ ⟨key', n'⟩ heq
    obtain ⟨rfl, hn⟩ := Prod.mk.inj heq
    exact Prod.ext rfl (σ.injective hn)
  rw [next_handles hs', next_handles hs, h.handles, handles_booked, handles_booked, hsub, hunsub]
  exact (booked_project (fun x hx => decide_eq_true (hkey x.1 (key_of_subscribed hx)))
    (fun x hx => decide_eq_true (hkey x.1 (key_of_unsubscribed hx))) hinj s.handles).symm

/-- The outstanding tokens of the key, which name nothing that is renumbered. -/
theorem Projected.tokens_step (h : Projected k ρ σ log s t) (hi : s.Inv) (hs : Step s c s')
    (hkeep : c.event.concerns k = true) {c' : Call V F} {t' : Shell V F} (hs' : Step t c' t')
    (hm : Mirrors k ρ σ ⟨s, c, s'⟩ ⟨t, c', t'⟩) :
    t'.tokens = s'.tokens.filter fun t => decide (t.key = k) := by
  have hkey := Event.concerns_iff.mp hkeep
  obtain ⟨-, -, hbegun, hsettled⟩ := items_renamed hm.event hkeep hm.outcome
  have hbooks := booked_project (g := id) (p := fun x : MutationToken => decide (x.key = k))
    (fun x hx => decide_eq_true (hkey x.key (hi.key_of_begun hs hx)))
    (fun x hx => decide_eq_true (hkey x.key (key_of_settled hx))) Function.injective_id s.tokens
  rw [List.map_id, List.map_id, Option.map_id_fun, id, id] at hbooks
  rw [next_tokens hs', next_tokens hs, h.tokens, tokens_booked, tokens_booked, hbegun, hsettled]
  exact hbooks.symm

/-- **An event that stays** does to the reduced shell what it does to the shell. -/
theorem Projected.keep (h : Projected k ρ σ log s t) (hi : s.Inv) (hs : Step s c s')
    (hkeep : c.event.concerns k = true)
    (hborn : ∀ n, born? k ⟨s, c, s'⟩ = some n → ρ n = (births k log).length)
    (hjoined : ∀ n, joined? k ⟨s, c, s'⟩ = some n → σ n = (joins k log).length) :
    ∃ c' t', Step t c' t' ∧ Projected k ρ σ (log ++ [⟨s, c, s'⟩]) s' t' ∧
      Mirrors k ρ σ ⟨s, c, s'⟩ ⟨t, c', t'⟩ := by
  obtain ⟨inner, out, -, hs'⟩ := h.inv.step_exists (h.enabled hkeep hs.enabled) c.now
    fun _ => h.isScan
  have halike := h.alike hkeep
    (fun hc he => (hborn _ (born_of_creates hc he)).trans h.nextIncarnation.symm)
    (fun fetcher compare opts hev =>
      (hjoined _ (joined_of_subscribe hev)).trans h.nextSubId.symm)
  have hm := h.mirrors hi hs hkeep hs' rfl rfl halike
  have hh := hi.handled hs
  have hh' := h.inv.handled hs'
  refine ⟨_, _, hs', ⟨h.inv.step hs', ?_, ?_, ?_, hm.entry, h.alone_step hkeep hs' rfl, ?_, ?_,
    h.handles_step hs hkeep hs' hm, h.tokens_step hi hs hkeep hs' hm⟩, hm⟩
  · exact (hh'.defaults.trans h.defaults).trans hh.defaults.symm
  · rw [births_snoc, List.length_append, ← h.nextIncarnation]
    exact hh'.nextIncarnation.trans (congrArg _ (h.allocated hkeep))
  · rw [joins_snoc, List.length_append, ← h.nextSubId]
    exact hh'.nextSubId.trans (congrArg _ (subscribed_renamed hkeep))
  · rw [next_flights hs', next_flights hs, h.flights, hm.effects, flights_renamed,
      List.filter_append, List.map_append, flights_of]
  · rw [next_timers hs', next_timers hs, h.timers, hm.effects, timers_renamed hm.entry,
      List.filter_append, List.map_append, timers_of]

end step

/-! ## Isolation -/

/-- The effects that a run emits for the key, in their order. -/
def effectsOf (k : QueryKey) (log : List (Trace.Record (Shell V F) (Call V F))) :
    List (Effect V F) :=
  log.flatMap fun r => Effect.of k r.label.out.effects

section isolation

variable {k : QueryKey} {ρ σ : Equiv.Perm Nat}

/-- Deleted calls emit nothing for the key, so the mirrored calls emit all there is. -/
theorem effectsOf_mirrored {log log' : List (Trace.Record (Shell V F) (Call V F))}
    (hm : List.Forall₂ (Mirrors k ρ σ) (log.filter fun r => r.label.event.concerns k) log')
    (hoff : ∀ r ∈ log, r.label.event.concerns k = false → Effect.of k r.label.out.effects = []) :
    effectsOf k log' = (effectsOf k log).map (View.renamed ρ σ).effect := by
  induction log generalizing log' with
  | nil =>
      cases hm
      rfl
  | cons r log ih =>
      have hoff' := fun x hx => hoff x (List.mem_cons_of_mem r hx)
      cases hc : r.label.event.concerns k with
      | false =>
          rw [List.filter_cons, if_neg (Bool.not_eq_true _ ▸ hc)] at hm
          rw [ih hm hoff']
          simp [effectsOf, hoff r List.mem_cons_self hc]
      | true =>
          rw [List.filter_cons, if_pos hc] at hm
          cases hm with
          | cons hr hm =>
              have htail := ih hm hoff'
              have hself : Effect.of k (Effect.of k r.label.out.effects) =
                  Effect.of k r.label.out.effects :=
                Effect.of_self fun x hx => (Effect.mem_of.mp hx).2
              unfold effectsOf at htail ⊢
              rw [List.flatMap_cons, List.flatMap_cons, List.map_append, htail, hr.effects,
                View.of_effects, hself]

variable [Platform] {defaults : QueryOptions}

/-- A scan does to the key what the entry of the key says, in whatever order it runs, and over
whatever other keys. -/
theorem scan_independent {s₁ s₁' s₂ s₂' : Shell V F} {c₁ c₂ : Call V F} (hi₁ : s₁.Inv)
    (hi₂ : s₂.Inv) (hdef : s₂.inner.defaults = s₁.inner.defaults)
    (hentry : s₂.inner.entry k = s₁.inner.entry k) (hs₁ : Step s₁ c₁ s₁') (hs₂ : Step s₂ c₂ s₂')
    (hscan : c₁.event.scans = true) (hev : c₂.event = c₁.event) (hnow : c₂.now = c₁.now) :
    s₂'.inner.entry k = s₁'.inner.entry k ∧
      Effect.of k c₂.out.effects = Effect.of k c₁.out.effects := by
  have hh₁ := hi₁.handled hs₁
  have hh₂ := hi₂.handled hs₂
  have hon : c₁.event.on k s₂.inner.nextSubId = c₁.event.on k s₁.inner.nextSubId := by
    cases hev₁ : c₁.event <;> rw [hev₁] at hscan <;> cases hscan <;> rfl
  have hsub : ∀ kev, c₁.event.on k s₁.inner.nextSubId = some kev →
      s₂.inner.subject k kev = s₁.inner.subject k kev := by
    intro kev hkev
    have hkey : c₁.event.key? = none := by
      cases hev₁ : c₁.event <;> rw [hev₁] at hscan <;> cases hscan <;> rfl
    rw [Inner.subject, Inner.subject, Event.creates_of_scan hkey hkev, hentry]
    rfl
  have hreacted : s₂.inner.reacted k c₁.event c₁.now = s₁.inner.reacted k c₁.event c₁.now ∧
      s₂.inner.marked k c₁.event c₁.now = s₁.inner.marked k c₁.event c₁.now := by
    unfold Inner.reacted Inner.marked
    rw [hon, hentry, hdef]
    cases hkev : c₁.event.on k s₁.inner.nextSubId with
    | none => exact ⟨rfl, rfl⟩
    | some kev =>
        simp only [hsub kev hkev]
        exact ⟨trivial, trivial⟩
  rw [hh₂.entry k, hh₂.effects k, hh₁.entry k, hh₁.effects k, hev, hnow]
  unfold Inner.cell Inner.cellEffects
  rw [hreacted.1, hreacted.2, hdef]
  exact ⟨rfl, rfl⟩

/-- **Keys do not interfere.** Deleting from a shell-produced run every single-key event addressed to
another key than `k`, and keeping every `Invalidate` and `Broadcast`, yields a run that ends with the
same entry for `k` and emits the same effects for `k` in the same order, up to a renaming of the
incarnations and the subscription ids; each of its calls mirrors the call it stands for. In
particular a scan of the table treats `k` the same in any two states that agree on the entry of `k`,
whichever other keys they have and in whichever order they are iterated. -/
theorem keys_do_not_interfere {log : List (Trace.Record (Shell V F) (Call V F))} {s : Shell V F}
    (h : Run defaults log s) (k : QueryKey) :
    (∃ (ρ σ : Equiv.Perm Nat) (log' : List (Trace.Record (Shell V F) (Call V F)))
        (s' : Shell V F), Run defaults log' s' ∧
      s'.inner.entry k = (s.inner.entry k).map (View.renamed ρ σ).entry ∧
      effectsOf k log' = (effectsOf k log).map (View.renamed ρ σ).effect ∧
      List.Forall₂ (Mirrors k ρ σ) (log.filter fun r => r.label.event.concerns k) log') ∧
    ∀ log₁ log₂ (s₁ s₁' s₂ s₂' : Shell V F) c₁ c₂, Run defaults log₁ s₁ → Run defaults log₂ s₂ →
      s₂.inner.entry k = s₁.inner.entry k → Step s₁ c₁ s₁' → Step s₂ c₂ s₂' →
      c₁.event.scans = true → c₂.event = c₁.event → c₂.now = c₁.now →
      s₂'.inner.entry k = s₁'.inner.entry k ∧
        Effect.of k c₂.out.effects = Effect.of k c₁.out.effects := by
  constructor
  · obtain ⟨ρ, hρ⟩ := Renaming.exists_rank (births_nodup h (k := k))
    obtain ⟨σ, hσ⟩ := Renaming.exists_rank (joins_nodup h (k := k))
    obtain ⟨log', s', hrun', hproj, hmirrors⟩ : ∃ log' s', Run defaults log' s' ∧
        Projected k ρ σ log s s' ∧
        List.Forall₂ (Mirrors k ρ σ) (log.filter fun r => r.label.event.concerns k) log' := by
      refine h.project (R := Projected k ρ σ) (.init k ρ σ defaults) ?_ ?_
      · intro xs r ys t _ hr hs hoff hp
        exact hp.drop (inv_of_run hr) hs hoff
      · intro xs r ys t hlog hr hs hkeep hp
        refine hp.keep (inv_of_run hr) hs hkeep (fun n hn => ?_) fun n hn => ?_
        · have hsplit : births k log = births k xs ++ n :: births k ys := by
            rw [births, hlog, List.filterMap_append, List.filterMap_cons_some hn]
            rfl
          rw [hsplit] at hρ
          exact Renaming.rank_eq hρ
        · have hsplit : joins k log = joins k xs ++ n :: joins k ys := by
            rw [joins, hlog, List.filterMap_append, List.filterMap_cons_some hn]
            rfl
          rw [hsplit] at hσ
          exact Renaming.rank_eq hσ
    refine ⟨ρ, σ, log', s', hrun', hproj.entry, effectsOf_mirrored hmirrors ?_, hmirrors⟩
    intro r hr hoff
    obtain ⟨xs, ys, rfl, hpre, hs, -⟩ := h.of_mem hr
    exact (((inv_of_run hpre).handled hs).off (Event.off_of_not_concerns hoff _)).2
  · intro log₁ log₂ s₁ s₁' s₂ s₂' c₁ c₂ h₁ h₂ hentry hs₁ hs₂ hscan hev hnow
    have hdef := (defaults_of_run h₂).trans (defaults_of_run h₁).symm
    exact scan_independent (inv_of_run h₁) (inv_of_run h₂) hdef hentry hs₁ hs₂ hscan hev hnow

end isolation

section witness

attribute [local instance] exampleClock

/-- Two keys that are read, answered and woken by one focus event. -/
def twoKeyRun : List (Event Nat Unit × Instant × List QueryKey) :=
  let a : QueryKey := ⟨0, []⟩
  let b : QueryKey := ⟨1, []⟩
  [(.subscribe b (some ()) none .default, 0, []),
   (.subscribe a (some ()) none .default, 1, []),
   (.commitOk a 1 1 5, 2, []),
   (.commitOk b 0 1 6, 3, []),
   (.broadcast .focus, Duration.fromSecs 9, [b, a])]

theorem keys_do_not_interfere_example : ∃ (log : List (Trace.Record (Shell Nat Unit)
      (Call Nat Unit))) (s : Shell Nat Unit), Run .default log s ∧ log.length = 5 ∧
    ∃ (ρ σ : Equiv.Perm Nat) (log' : List (Trace.Record (Shell Nat Unit) (Call Nat Unit)))
        (s' : Shell Nat Unit), Run .default log' s' ∧ log'.length = 3 ∧
      s'.inner.entry ⟨0, []⟩ = (s.inner.entry ⟨0, []⟩).map (View.renamed ρ σ).entry ∧
      (effectsOf ⟨0, []⟩ log').length = 5 := by
  have hfacts : ((init .default : Shell Nat Unit).exec twoKeyRun).map (fun r => (r.1.length,
      (r.1.filter fun r => r.label.event.concerns ⟨0, []⟩).length,
      (effectsOf ⟨0, []⟩ r.1).length)) = some (5, 3, 5) := by decide +kernel
  obtain ⟨⟨log, s⟩, hex, hlen⟩ := Option.map_eq_some_iff.mp hfacts
  obtain ⟨hlen, hfilter, heffects⟩ : log.length = 5 ∧ _ ∧ _ := by
    simpa only [Prod.mk.injEq] using hlen
  obtain ⟨⟨ρ, σ, log', s', hrun', hentry, hof, hmirrors⟩, -⟩ :=
    keys_do_not_interfere (run_of_exec hex) ⟨0, []⟩
  refine ⟨log, s, run_of_exec hex, hlen, ρ, σ, log', s', hrun', ?_, hentry, ?_⟩
  · exact hmirrors.length_eq.symm.trans hfilter
  · rw [hof, List.length_map]
    exact heffects

end witness

end Shell

end SwrCore
