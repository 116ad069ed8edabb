import SwrCore.Shell.Invariant

/-!
# The flight race law

A fetch result may come back at any time, late or repeatedly. Three fences decide whether it is
applied: the incarnation, the veto of active mutations, and the flight the entry waits for. Together
they remember the whole history since the flight began.

* `Event.delivers`, `Event.interrupts` — the deliveries of a flight, and the events that end it.
* `EntryCore.inflight_apply` — what each event does to the flight of an entry.
* `Shell.Awaits` — the state predicate that the fences amount to; `Shell.Inv.awaits_step` is its step
  law, `Shell.awaits_iff_since` its history.
* `Shell.flight_law` — the result of a flight is applied exactly on its first delivery, and only if
  no local write, mutation or invalidation interrupted the flight.
-/

set_option linter.unusedSectionVars false

namespace SwrCore

variable {V F : Type}

/-! ## Deliveries and interruptions -/

/-- The event delivers the result of the flight. -/
def Event.delivers (f : Flight) : Event V F → Prop
  | .commitOk key incarnation seq _ => ⟨key, incarnation, seq⟩ = f
  | .commitErr key incarnation seq _ => ⟨key, incarnation, seq⟩ = f
  | _ => False

/-- The event ends every flight of the key. -/
def Event.interrupts (k : QueryKey) : Event V F → Prop
  | .mutateSet key _ => key = k
  | .mutateBegin key _ => key = k
  | .invalidate pre => k.matchesPrefix pre = true
  | _ => False

/-- The event delivers the result of the flight `seq` of this incarnation. -/
def KeyEvent.delivers (incarnation seq : Nat) : KeyEvent V F → Prop
  | .commitOk incarnation' seq' _ => incarnation' = incarnation ∧ seq' = seq
  | .commitErr incarnation' seq' _ => incarnation' = incarnation ∧ seq' = seq
  | _ => False

/-- The event ends every flight of its key. -/
def KeyEvent.interrupts : KeyEvent V F → Prop
  | .mutateSet _ => True
  | .mutateBegin _ => True
  | .invalidate => True
  | _ => False

/-- The event a spawned fetch ends with. Source: `client.rs`, `Shared::run_effects`. -/
def Flight.commit {V F : Type} (flight : Flight) : Except V V → Event V F
  | .ok value => .commitOk flight.key flight.incarnation flight.seq value
  | .error error => .commitErr flight.key flight.incarnation flight.seq error

/-- A result delivers its own flight only. -/
theorem Flight.commit_delivers (f g : Flight) (result : Except V V) :
    (f.commit result : Event V F).delivers g ↔ f = g := by
  cases result <;> rfl

/-- A flight is delivered to the key that it belongs to. -/
theorem Event.delivers_of_on {subId : Nat} {ev : Event V F} {kev : KeyEvent V F} {f : Flight}
    (h : ev.on f.key subId = some kev) : ev.delivers f ↔ kev.delivers f.incarnation f.seq := by
  obtain ⟨k, incarnation, seq⟩ := f
  cases Event.on_inv h with
  | commitOk => simp [Event.delivers, KeyEvent.delivers]
  | commitErr => simp [Event.delivers, KeyEvent.delivers]
  | _ => exact Iff.rfl

/-- Whether an event interrupts the flight of a key is seen in what reaches the key. -/
theorem Event.interrupts_of_on {k : QueryKey} {subId : Nat} {ev : Event V F}
    {kev : KeyEvent V F} (h : ev.on k subId = some kev) :
    ev.interrupts k ↔ kev.interrupts := by
  cases Event.on_inv h with
  | mutateSet => exact iff_of_true rfl trivial
  | mutateBegin => exact iff_of_true rfl trivial
  | invalidate hk => exact iff_of_true hk trivial
  | _ => exact Iff.rfl

/-- An event that delivers to a key, or interrupts it, concerns it. -/
theorem Event.on_of_delivers {ev : Event V F} {f : Flight} (h : ev.delivers f) (subId : Nat) :
    ev.on f.key subId ≠ none := by
  cases ev
  case commitOk key incarnation seq value =>
    cases h
    simp [Event.on]
  case commitErr key incarnation seq error =>
    cases h
    simp [Event.on]
  all_goals exact h.elim

/-- An event that interrupts the flight of a key acts on the key. -/
theorem Event.on_of_interrupts {ev : Event V F} {k : QueryKey} (h : ev.interrupts k)
    (subId : Nat) : ev.on k subId ≠ none := by
  cases ev
  case mutateSet key value =>
    cases h
    simp [Event.on]
  case mutateBegin key optimistic =>
    cases h
    simp [Event.on]
  case invalidate pre =>
    have hp : k.matchesPrefix pre = true := h
    simp [Event.on, hp]
  all_goals exact h.elim

/-- A result reaches no other key. -/
theorem Event.key_of_delivers {ev : Event V F} {f : Flight} (h : ev.delivers f) {k : QueryKey}
    {subId : Nat} {kev : KeyEvent V F} (hon : ev.on k subId = some kev) : k = f.key := by
  cases Event.on_inv hon with
  | commitOk =>
      cases h
      rfl
  | commitErr =>
      cases h
      rfl
  | _ => exact h.elim

/-- A result creates no entry. -/
theorem KeyEvent.creates_of_delivers {incarnation seq : Nat} {kev : KeyEvent V F}
    (h : kev.delivers incarnation seq) : kev.creates = false := by
  cases kev <;> first | rfl | exact h.elim

/-- A dropped result leaves the entry as it is and marks nothing. -/
theorem KeyEvent.dropped [Platform] (defaults : QueryOptions) (now : Instant) (k : QueryKey)
    {incarnation seq : Nat} {kev : KeyEvent V F} (h : kev.delivers incarnation seq)
    {e : EntryCore V F} (hd : e.dropsCommit incarnation seq = true) :
    kev.removes e = false ∧ kev.react defaults now e = e ∧
      kev.marks defaults now k e = Marks.none := by
  cases kev
  case commitOk incarnation' seq' value =>
    obtain ⟨rfl, rfl⟩ := h
    simp [KeyEvent.removes, KeyEvent.react, KeyEvent.starts, KeyEvent.wants, KeyEvent.apply,
      KeyEvent.marks, KeyEvent.touches, KeyEvent.notifies, KeyEvent.rearms, Marks.none, hd]
  case commitErr incarnation' seq' error =>
    obtain ⟨rfl, rfl⟩ := h
    simp [KeyEvent.removes, KeyEvent.react, KeyEvent.starts, KeyEvent.wants, KeyEvent.apply,
      KeyEvent.marks, KeyEvent.touches, KeyEvent.notifies, KeyEvent.rearms, Marks.none, hd]
  all_goals exact h.elim

/-! ## The flight of one entry -/

/-- An event leaves the flight of an entry alone unless it delivers its result or interrupts it. -/
theorem EntryCore.inflight_apply [Platform] {e : EntryCore V F} (h : e.Shape)
    {kev : KeyEvent V F} (hsafe : kev.Safe e) (defaults : QueryOptions) (now : Instant) (n : Nat) :
    (kev.apply defaults now e).inflight = some n ↔
      e.inflight = some n ∧ ¬ (kev.delivers e.incarnation n ∨ kev.interrupts) := by
  have hsettle : 0 < e.mutationActive → e.inflight = none := h.inflight_of_mutating
  have hdrop : ∀ incarnation seq, e.inflight = some n →
      (e.dropsCommit incarnation seq = true ↔ ¬ (incarnation = e.incarnation ∧ seq = n)) := by
    intro incarnation seq hi
    rw [← Bool.not_eq_false, EntryCore.dropsCommit_eq_false, hi, Option.some.injEq]
    have hm := (h.flying n hi).mutationActive
    simp only [hm, true_and, eq_comm]
  have hland : ∀ incarnation seq, ¬ e.dropsCommit incarnation seq = true →
      ¬ (e.inflight = some n ∧ ¬ (incarnation = e.incarnation ∧ seq = n)) :=
    fun _ _ hd h => hd ((hdrop _ _ h.1).mpr h.2)
  have hkeep : ∀ P : Prop, ¬ P → (e.inflight = some n ↔ e.inflight = some n ∧ ¬ P) :=
    fun P hP => ⟨fun h => ⟨h, hP⟩, And.left⟩
  cases kev with
  | commitOk incarnation seq value =>
      simp only [KeyEvent.apply, KeyEvent.delivers, KeyEvent.interrupts, or_false]
      split_ifs with hd
      · refine ⟨fun hi => ⟨hi, (hdrop _ _ hi).mp hd⟩, And.left⟩
      · refine iff_of_false (fun hi => ?_) (hland _ _ hd)
        cases hi
  | commitErr incarnation seq error =>
      simp only [KeyEvent.apply, KeyEvent.delivers, KeyEvent.interrupts, or_false]
      split_ifs with hd
      · refine ⟨fun hi => ⟨hi, (hdrop _ _ hi).mp hd⟩, And.left⟩
      · refine iff_of_false (fun hi => ?_) (hland _ _ hd)
        cases hi
  | mutateSet value =>
      refine ⟨fun hi => ?_, fun h => absurd (.inr trivial) h.2⟩
      cases hi
  | mutateBegin optimistic =>
      refine ⟨fun hi => ?_, fun h => absurd (.inr trivial) h.2⟩
      cases optimistic <;> cases hi
  | mutateCommit token result flags =>
      -- A settlement only comes while a mutation is active, and then nothing flies.
      have hi : e.inflight = none := hsettle hsafe
      have hi' : (e.released.resolved token result flags now).inflight = none := by
        rcases e.released.resolved_cases token result flags now with
          ⟨_, -, -, h⟩ | ⟨_, _, _, _, _, h⟩
        · rw [h]
          rfl
        · rw [h]
          exact hi
      simp only [KeyEvent.apply, hi, hi', reduceCtorEq, false_and]
  | mutateAbort token flags =>
      have hi : e.inflight = none := hsettle hsafe
      obtain ⟨_, _, _, _, _, h⟩ := e.released.rolledBack_eq token flags.rollbackOnError
      have hi' : (e.released.rolledBack token flags.rollbackOnError).inflight = none := by
        rw [h]
        exact hi
      simp only [KeyEvent.apply, hi, hi', reduceCtorEq, false_and]
  | invalidate =>
      refine ⟨fun h => ?_, fun h => absurd (.inr trivial) h.2⟩
      simp only [KeyEvent.apply, EntryCore.dirtied] at h
      split_ifs at h with hm hi
      · rw [hsettle hm] at h
        cases h
      · rw [h] at hi
        exact absurd rfl hi
  | broadcast ev =>
      have hi : (KeyEvent.apply defaults now e (.broadcast ev)).inflight = e.inflight := by
        simp only [KeyEvent.apply, EntryCore.refocused]
        split_ifs <;> rfl
      rw [hi]
      exact hkeep _ (by simp [KeyEvent.delivers, KeyEvent.interrupts])
  | _ => exact hkeep _ (by simp [KeyEvent.delivers, KeyEvent.interrupts])

namespace Shell

/-! ## The flights of a batch -/

section batch

variable [Platform] {s : Inner V F} {ev : Event V F} {now : Instant} {s' : Inner V F}
  {out : HandleOutput V F}

/-- The flights of a key are those of its effects. -/
theorem flights_of (k : QueryKey) (effects : List (Effect V F)) :
    (Effect.flights effects).filter (fun f => decide (f.key = k)) =
      Effect.flights (Effect.of k effects) := by
  induction effects with
  | nil => rfl
  | cons x xs ih =>
      simp only [Effect.flights, Effect.of] at ih ⊢
      cases x with
      | startFetch key incarnation seq fetcher =>
          by_cases hk : key = k <;>
            simp [Effect.flight?, Effect.key, hk, ih]
      | notify tx snapshot =>
          by_cases hk : tx.key = k <;>
            simp [Effect.flight?, Effect.key, List.filterMap_cons, hk, ih]
      | scheduleTimer key kind deadline generation =>
          by_cases hk : key = k <;>
            simp [Effect.flight?, Effect.key, List.filterMap_cons, hk, ih]

/-- A batch begins at most one flight for each key. -/
theorem flights_batch_le (defaults : QueryOptions) (k : QueryKey) (e e' : EntryCore V F)
    (kev : KeyEvent V F) :
    (Effect.flights (e'.batch defaults now k (kev.marks defaults now k e))).length ≤ 1 := by
  have htimers : Effect.flights (e'.timers defaults now k (kev.marks defaults now k e)) = [] := by
    rw [Effect.flights, List.filterMap_eq_nil_iff]
    intro x hx
    obtain ⟨_, _, _, rfl⟩ := Inner.timers_eq hx
    rfl
  have hnotify : ∀ b : Bool, ∀ tx snapshot, Effect.flights
      (if b then [(.notify tx snapshot : Effect V F)] else []) = [] := by
    intro b tx snapshot
    cases b <;> rfl
  have hfetch : (Effect.flights (kev.marks defaults now k e).effects).length ≤ 1 := by
    simp only [KeyEvent.marks]
    split_ifs
    · refine (List.length_filterMap_le _ _).trans ?_
      rw [EntryCore.fetchEffect, List.length_map]
      cases (kev.react defaults now e).fetcher <;> simp
    · exact Nat.zero_le _
  unfold EntryCore.batch
  simp only [Effect.flights, List.filterMap_append] at htimers hnotify hfetch ⊢
  rw [htimers, hnotify, List.append_nil, List.append_nil]
  exact hfetch

/-- The batch of an event begins at most one flight for each key. -/
theorem flights_of_le (hh : s.Handled ev now s' out) (k : QueryKey) :
    ((Effect.flights out.effects).filter fun f => decide (f.key = k)).length ≤ 1 := by
  rw [flights_of]
  cases hon : ev.on k s.nextSubId with
  | none =>
      rw [(hh.off hon).2]
      exact Nat.zero_le _
  | some kev =>
      by_cases hgone : ∀ e, s.subject k kev = some e → kev.removes e = true
      · rw [(hh.gone hon hgone).2]
        exact Nat.zero_le _
      · push Not at hgone
        obtain ⟨e, hsub, hr⟩ := hgone
        have hat : s.At ev k kev e := ⟨hon, hsub, Bool.eq_false_of_not_eq_true hr⟩
        rw [hat.effects hh]
        exact flights_batch_le _ _ _ _ _

/-- A batch starts no flight twice: it starts one at most for a key. -/
theorem flights_nodup (hh : s.Handled ev now s' out) : (Effect.flights out.effects).Nodup := by
  rw [List.nodup_iff_count_le_one]
  intro f
  have hcount : (Effect.flights out.effects).count f =
      ((Effect.flights out.effects).filter fun f' => decide (f'.key = f.key)).count f := by
    rw [List.count_filter (by simp)]
  rw [hcount]
  exact List.count_le_length.trans (flights_of_le hh f.key)

end batch

/-! ## What the fences remember -/

/-- The entry of the flight's key is of the flight's incarnation and waits for this flight. -/
def Awaits (f : Flight) (s : Shell V F) : Prop :=
  ∃ e, s.inner.entry f.key = some e ∧ e.incarnation = f.incarnation ∧ e.inflight = some f.seq

section step

variable [Platform] {s s' : Shell V F} {c : Call V F}

/-- No assertion fails where an enabled event acts. -/
theorem Inv.safe (h : s.Inv) (hs : Step s c s') {k : QueryKey} {kev : KeyEvent V F}
    {e : EntryCore V F} (hat : s.inner.At c.event k kev e) : kev.Safe e :=
  (h.accepts hs.enabled k kev hat.on).2 e hat.subject

/-- The stages after the handler keep the flight. -/
theorem after_inflight (inner : Inner V F) (now : Instant) (k : QueryKey) (kev : KeyEvent V F)
    (e : EntryCore V F) :
    (inner.after now k kev e).inflight = (kev.react inner.defaults now e).inflight :=
  Inner.after_of (f := EntryCore.inflight) (fun _ _ _ _ => rfl) k kev e

/-- What an entry is past it stays past, and a flight is past it too. -/
theorem Inv.behind_after (h : s.Inv) (hs : Step s c s') {k : QueryKey} {kev : KeyEvent V F}
    {e : EntryCore V F} (hat : s.inner.At c.event k kev e) {n : Nat} (hle : n ≤ e.seq)
    (hfly : e.inflight.isSome → n < e.seq) :
    n ≤ (s.inner.after c.now k kev e).seq ∧
      ((s.inner.after c.now k kev e).inflight.isSome → n < (s.inner.after c.now k kev e).seq) := by
  have hseq := (h.after hs hat).2.2.2.1
  refine ⟨hle.trans hseq, fun hfly' => ?_⟩
  obtain ⟨m, hm⟩ := Option.isSome_iff_exists.mp hfly'
  rw [after_inflight] at hm
  cases hst : kev.starts s.inner.defaults c.now e with
  | true =>
      have hlt : e.seq < (s.inner.after c.now k kev e).seq := by
        have := EntryCore.seq_le_apply e s.inner.defaults c.now kev
        rw [Inner.after, EntryCore.settled_seq, KeyEvent.react, hst, if_pos rfl]
        exact Nat.lt_succ_of_le this
      exact hle.trans_lt hlt
  | false =>
      -- No fetch started, so the entry was in flight before.
      rw [KeyEvent.react, hst] at hm
      have hm : (kev.apply s.inner.defaults c.now e).inflight = some m := hm
      have hflying := (EntryCore.inflight_apply (h.subject hat.subject).1 (h.safe hs hat)
        s.inner.defaults c.now m).mp hm
      exact (hfly (by rw [hflying.1]; rfl)).trans_le hseq

/-- A new entry waits for nothing. -/
theorem Inv.awaits_subject (h : s.Inv) {f : Flight} {kev : KeyEvent V F} {e : EntryCore V F}
    (hsub : s.inner.subject f.key kev = some e) :
    Awaits f s ↔ e.incarnation = f.incarnation ∧ e.inflight = some f.seq := by
  rcases (h.subject hsub).2.2.2 with he | ⟨he, rfl, -⟩
  · constructor
    · rintro ⟨e', he', hinc, hi⟩
      rw [he] at he'
      cases he'
      exact ⟨hinc, hi⟩
    · rintro ⟨hinc, hi⟩
      exact ⟨e, he, hinc, hi⟩
  · constructor
    · rintro ⟨e', he', -⟩
      rw [he] at he'
      cases he'
    · rintro ⟨-, hi⟩
      cases hi

/-- Where a key has no effects, no flight of it starts. -/
theorem not_started_of_nil {f : Flight} (heffects : Effect.of f.key c.out.effects = []) :
    ¬ ∃ fetcher, .startFetch f.key f.incarnation f.seq fetcher ∈ c.out.effects := by
  rintro ⟨fetcher, hx⟩
  have hmem := Effect.mem_of.mpr ⟨hx, rfl⟩
  rw [show (Effect.startFetch f.key f.incarnation f.seq fetcher).key = f.key from rfl,
    heffects] at hmem
  cases hmem

/-- A removed entry was idle, so nothing awaited its flight. -/
theorem Inv.awaits_gone (h : s.Inv) (hs : Step s c s') {f : Flight} {kev : KeyEvent V F}
    (hon : c.event.on f.key s.inner.nextSubId = some kev)
    (hgone : ∀ e, s.inner.subject f.key kev = some e → kev.removes e = true) :
    ¬ Awaits f s' ∧ ¬ Awaits f s ∧
      ¬ ∃ fetcher, .startFetch f.key f.incarnation f.seq fetcher ∈ c.out.effects := by
  have hh := h.handled hs
  obtain ⟨hentry, heffects⟩ := hh.gone hon hgone
  refine ⟨?_, ?_, not_started_of_nil heffects⟩
  · rintro ⟨e, he, -⟩
    rw [hentry] at he
    cases he
  · rintro ⟨e, he, -, hi⟩
    have hq : e.isQuiescent = false := by simp [EntryCore.isQuiescent, hi]
    have hsome := hh.entry_isSome he hq
    rw [hentry] at hsome
    cases hsome

/-- The flight awaited by the entry that an event leaves. -/
theorem Inv.awaits_at (h : s.Inv) (hs : Step s c s') {f : Flight} {kev : KeyEvent V F}
    {e : EntryCore V F} (hat : s.inner.At c.event f.key kev e) :
    Awaits f s' ↔ e.incarnation = f.incarnation ∧
      (kev.react s.inner.defaults c.now e).inflight = some f.seq := by
  have hinc : (s.inner.after c.now f.key kev e).incarnation = e.incarnation :=
    (Inner.after_frame f.key kev e).2
  rw [Awaits, hat.entry (h.handled hs)]
  constructor
  · rintro ⟨e', he', hinc', hi'⟩
    cases he'
    exact ⟨hinc.symm.trans hinc', (after_inflight _ _ _ _ _).symm.trans hi'⟩
  · rintro ⟨hinc', hi'⟩
    exact ⟨_, rfl, hinc.trans hinc', (after_inflight _ _ _ _ _).trans hi'⟩

/-- The flight that it starts. -/
theorem Inv.starts_at (h : s.Inv) (hs : Step s c s') {f : Flight} {kev : KeyEvent V F}
    {e : EntryCore V F} (hat : s.inner.At c.event f.key kev e) :
    (∃ fetcher, .startFetch f.key f.incarnation f.seq fetcher ∈ c.out.effects) ↔
      kev.starts s.inner.defaults c.now e = true ∧ e.incarnation = f.incarnation ∧
        f.seq = (kev.apply s.inner.defaults c.now e).seq + 1 := by
  have hh := h.handled hs
  constructor
  · rintro ⟨fetcher, hx⟩
    obtain ⟨kev', e', hat', hst, hinc', hseq⟩ := hh.startFetch hx
    obtain ⟨rfl, rfl⟩ := hat.unique hat'
    exact ⟨hst, hinc'.symm, hseq⟩
  · rintro ⟨hst, hinc', hseq⟩
    rw [← hinc', hseq]
    exact hat.startFetch hh hst

/-- **The step law of the fences.** An entry comes to wait for a flight when the flight begins, and
goes on waiting until its result is delivered or the flight is interrupted. -/
theorem Inv.awaits_step (h : s.Inv) (hs : Step s c s') (f : Flight) :
    Awaits f s' ↔ f ∈ Effect.flights c.out.effects ∨
      (Awaits f s ∧ ¬ (c.event.delivers f ∨ c.event.interrupts f.key)) := by
  rw [Effect.mem_flights]
  cases hon : c.event.on f.key s.inner.nextSubId with
  | none =>
      obtain ⟨hentry, heffects⟩ := (h.handled hs).off hon
      have hquiet : ¬ (c.event.delivers f ∨ c.event.interrupts f.key) := by
        rintro (hd | hi)
        · exact Event.on_of_delivers hd _ hon
        · exact Event.on_of_interrupts hi _ hon
      rw [Awaits, hentry]
      exact ⟨fun ha => .inr ⟨ha, hquiet⟩,
        fun ha => (ha.resolve_left (not_started_of_nil heffects)).1⟩
  | some kev =>
      by_cases hgone : ∀ e, s.inner.subject f.key kev = some e → kev.removes e = true
      · obtain ⟨hpost, hpre, hnew⟩ := h.awaits_gone hs hon hgone
        exact iff_of_false hpost fun ha => ha.elim hnew fun hold => hpre hold.1
      · push Not at hgone
        obtain ⟨e, hsub, hr⟩ := hgone
        have hat : s.inner.At c.event f.key kev e :=
          ⟨hon, hsub, Bool.eq_false_of_not_eq_true hr⟩
        have hkeep := EntryCore.inflight_apply (h.subject hat.subject).1 (h.safe hs hat)
          s.inner.defaults c.now f.seq
        rw [Event.delivers_of_on hon, Event.interrupts_of_on hon, h.awaits_at hs hat,
          h.starts_at hs hat, h.awaits_subject hat.subject]
        by_cases hi : e.incarnation = f.incarnation
        · rw [hi] at hkeep
          simp only [hi, true_and]
          rw [← hkeep, KeyEvent.react]
          cases hst : kev.starts s.inner.defaults c.now e with
          | true =>
              -- A fetch only starts where nothing flies.
              have hc := (Bool.and_eq_true _ _ ▸ hst : _ ∧ _).2
              have hnone := (canStartFetch_iff.mp hc).2.2
              rw [hnone]
              simp [EntryCore.started, eq_comm]
          | false => simp
        · simp [hi]

/-- A new flight was never handed out before. -/
theorem Inv.flight_fresh (h : s.Inv) (hs : Step s c s') {f : Flight}
    (hf : f ∈ Effect.flights c.out.effects) : f ∉ s.flights := by
  intro hold
  obtain ⟨fetcher, hx⟩ := Effect.mem_flights.mp hf
  obtain ⟨kev, e, hat, -, hinc, hseq⟩ := (h.handled hs).startFetch hx
  rcases (h.subject hat.subject).2.2.2 with he | ⟨-, rfl, -⟩
  · have hle := h.flight_le f hold e he hinc.symm
    have := EntryCore.seq_le_apply e s.inner.defaults c.now kev
    omega
  · have hlt := h.flight_lt f hold
    have hinc : f.incarnation = s.inner.nextIncarnation := hinc
    omega

/-- So no flight is handed out twice. -/
theorem Inv.flights_step (h : s.Inv) (hs : Step s c s') (hnd : s.flights.Nodup) :
    s'.flights.Nodup := by
  rw [next_flights hs]
  refine List.Nodup.append hnd (flights_nodup (h.handled hs)) ?_
  intro f hold hnew
  exact h.flight_fresh hs hnew hold

/-- A delivery echoes a flight that was handed out. -/
theorem flight_of_delivers (hs : Step s c s') {f : Flight} (hd : c.event.delivers f) :
    f ∈ s.flights := by
  have hen := hs.enabled
  cases hev : c.event <;> rw [hev] at hd hen
  case commitOk key incarnation seq value =>
    cases hd
    exact hen
  case commitErr key incarnation seq error =>
    cases hd
    exact hen
  all_goals exact hd.elim

/-- **A delivery applies exactly to an entry that awaits it.** Otherwise nothing changes and nothing
is emitted. -/
theorem Inv.deliver (h : s.Inv) (hs : Step s c s') {f : Flight} (hd : c.event.delivers f) :
    (Awaits f s → s'.inner.entry f.key ≠ s.inner.entry f.key) ∧
      (¬ Awaits f s → s'.inner = s.inner ∧ c.out.effects = []) := by
  have hh := h.handled hs
  refine ⟨fun ha => ?_, fun hna => ?_⟩
  · -- The entry stops waiting, and a delivery starts no flight with this seq.
    intro heq
    have ha' : Awaits f s' := by
      rw [Awaits, heq]
      exact ha
    rcases (h.awaits_step hs f).mp ha' with hnew | ⟨-, hnd⟩
    · exact h.flight_fresh hs hnew (flight_of_delivers hs hd)
    · exact hnd (.inl hd)
  · -- The guards drop the result, so the event is without effect on every key.
    have hdrop : ∀ k, s'.inner.entry k = s.inner.entry k ∧ Effect.of k c.out.effects = [] := by
      intro k
      cases hon : c.event.on k s.inner.nextSubId with
      | none => exact hh.off hon
      | some kev =>
          obtain rfl := Event.key_of_delivers hd hon
          have hkd := (Event.delivers_of_on hon).mp hd
          have hsubject : s.inner.subject f.key kev = s.inner.entry f.key := by
            rw [Inner.subject, KeyEvent.creates_of_delivers hkd]
            rfl
          cases he : s.inner.entry f.key with
          | none =>
              rw [he] at hsubject
              obtain ⟨h₁, h₂⟩ := hh.gone hon fun e he => by rw [hsubject] at he; cases he
              exact ⟨h₁, h₂⟩
          | some e =>
              rw [he] at hsubject
              have hdr : e.dropsCommit f.incarnation f.seq = true := by
                by_contra hdr
                have := EntryCore.dropsCommit_eq_false.mp (Bool.eq_false_of_not_eq_true hdr)
                exact hna ⟨e, he, this.1, this.2.2⟩
              obtain ⟨hrem, hreact, hmarks⟩ :=
                KeyEvent.dropped s.inner.defaults c.now f.key hkd hdr
              have hat : s.inner.At c.event f.key kev e := ⟨hon, hsubject, hrem⟩
              rw [hat.entry hh, hat.effects hh, Inner.after, hreact, hmarks]
              exact ⟨rfl, rfl⟩
    have hevent : Inner.subscribed c.event = 0 ∧ s.inner.allocated c.event = 0 := by
      cases hev : c.event <;> rw [hev] at hd <;> first | exact ⟨rfl, rfl⟩ | exact hd.elim
    exact hh.unchanged hevent hdrop

end step

/-! ## The law -/

section law

variable [Platform] {defaults : QueryOptions} {log : List (Trace.Record (Shell V F) (Call V F))}
  {s : Shell V F}

/-- The flights of a run, in the order of their `StartFetch` effects. -/
def flightsOf (log : List (Trace.Record (Shell V F) (Call V F))) : List Flight :=
  log.flatMap fun r => Effect.flights r.label.out.effects

/-- What the books list as flights are the fetches of the log. -/
theorem flights_eq_flightsOf (h : Run defaults log s) : s.flights = flightsOf log := by
  refine h.history (P := fun log s => s.flights = flightsOf log) rfl fun log s c s' _ ih hs => ?_
  rw [next_flights hs, ih, flightsOf, flightsOf, List.flatMap_append]
  simp

/-- In no run is a flight handed out twice. -/
theorem flights_nodup_of_run (h : Run defaults log s) : s.flights.Nodup := by
  have hboth : s.Inv ∧ s.flights.Nodup :=
    h.invariant (I := fun s => s.Inv ∧ s.flights.Nodup) ⟨inv_init defaults, List.nodup_nil⟩
      fun _ _ _ hi hs => ⟨hi.1.step hs, hi.1.flights_step hs hi.2⟩
  exact hboth.2

/-- **The history the fences remember.** An entry awaits a flight exactly when the flight began and
has been neither delivered nor interrupted since. -/
theorem awaits_iff_since (h : Run defaults log s) (f : Flight) :
    Awaits f s ↔ Trace.Since (fun r => f ∈ Effect.flights r.label.out.effects)
      (fun r => r.label.event.delivers f ∨ r.label.event.interrupts f.key) log := by
  refine h.since_iff ?_ fun log r hr hs => (inv_of_run hr).awaits_step hs f
  rintro ⟨e, he, -⟩
  have hnone := init_entry (V := V) (F := F) defaults f.key
  rw [hnone] at he
  cases he

/-- No result is delivered before its flight began. -/
theorem not_delivers_before {xs ys : List (Trace.Record (Shell V F) (Call V F))}
    {q : Trace.Record (Shell V F) (Call V F)} {f : Flight} (h : Run defaults (xs ++ q :: ys) s)
    (hq : f ∈ Effect.flights q.label.out.effects) :
    ∀ x ∈ xs ++ [q], ¬ x.label.event.delivers f := by
  intro x hx hd
  obtain ⟨hpre, hstep, -⟩ := h.middle
  have hfresh := (inv_of_run hpre).flight_fresh hstep hq
  rcases List.mem_append.mp hx with hx | hx
  · obtain ⟨as, bs, rfl, hr, hs, -⟩ := hpre.of_mem hx
    have hmem : f ∈ x.pre.flights := flight_of_delivers hs hd
    rw [flights_eq_flightsOf hr] at hmem
    rw [flights_eq_flightsOf hpre, flightsOf, List.flatMap_append] at hfresh
    exact hfresh (List.mem_append_left _ hmem)
  · rw [List.mem_singleton.mp hx] at hd
    exact hfresh (flight_of_delivers hstep hd)

/-- **The flight race law.** No two `StartFetch` effects of a run carry the same key, incarnation and
seq. The delivery of the result of a flight changes the entry of its key if and only if it is the
first delivery for that flight, and since its `StartFetch` no local write or mutation began on the
key and no invalidation matched it. In every other case the state is left exactly as it was, and the
batch of effects is empty. -/
theorem flight_law (h : Run defaults log s) :
    (flightsOf log).Nodup ∧
      ∀ xs r ys f, log = xs ++ r :: ys → r.label.event.delivers f →
        (r.post.inner.entry f.key ≠ r.pre.inner.entry f.key ↔
          (∀ x ∈ xs, ¬ x.label.event.delivers f) ∧
            ∃ as q bs, xs = as ++ q :: bs ∧ f ∈ Effect.flights q.label.out.effects ∧
              ∀ x ∈ bs, ¬ x.label.event.interrupts f.key) ∧
        (r.post.inner.entry f.key = r.pre.inner.entry f.key →
          r.post.inner = r.pre.inner ∧ r.label.out.effects = []) := by
  refine ⟨flights_eq_flightsOf h ▸ flights_nodup_of_run h, ?_⟩
  rintro xs r ys f rfl hd
  obtain ⟨hpre, hstep, -⟩ := h.middle
  obtain ⟨happlies, hdropped⟩ := (inv_of_run hpre).deliver hstep hd
  have hiff : r.post.inner.entry f.key ≠ r.pre.inner.entry f.key ↔ Awaits f r.pre := by
    refine ⟨fun hne => ?_, happlies⟩
    by_contra hna
    exact hne (by rw [(hdropped hna).1])
  refine ⟨?_, fun heq => hdropped fun ha => happlies ha heq⟩
  rw [hiff, awaits_iff_since hpre f]
  constructor
  · rintro ⟨as, q, bs, rfl, hq, hbs⟩
    refine ⟨fun x hx => ?_, as, q, bs, rfl, hq, fun x hx hi => hbs x hx (.inr hi)⟩
    have hbefore := not_delivers_before hpre hq
    rw [← List.singleton_append, ← List.append_assoc] at hx
    rcases List.mem_append.mp hx with hx | hx
    · exact hbefore x hx
    · exact fun hd => hbs x hx (.inl hd)
  · rintro ⟨hfirst, as, q, bs, rfl, hq, hbs⟩
    refine ⟨as, q, bs, rfl, hq, fun x hx hor => ?_⟩
    rcases hor with hd | hi
    · exact hfirst x (by simp [hx]) hd
    · exact hbs x hx hi

end law

section witness

attribute [local instance] exampleClock

/-- The law on a run whose fetch comes back, twice, after a mutation began. -/
theorem flight_law_example : ∃ (log : List (Trace.Record (Shell Nat Unit) (Call Nat Unit)))
    (s : Shell Nat Unit), Run .default log s ∧ (flightsOf log).Nodup ∧
      ∃ xs r ys, log = xs ++ r :: ys ∧ r.label.event.delivers ⟨⟨0, []⟩, 0, 1⟩ ∧
        (r.post.inner.entry ⟨0, []⟩ = r.pre.inner.entry ⟨0, []⟩ →
          r.post.inner = r.pre.inner ∧ r.label.out.effects = []) := by
  obtain ⟨log, s, hex, -⟩ := exampleRun_runs
  have hrun : Run .default log s := run_of_exec hex
  have hthird : (((init .default : Shell Nat Unit).exec exampleRun).bind fun r =>
      r.1[2]?.map fun r => match r.label.event with
        | .commitOk key incarnation seq _ => some (⟨key, incarnation, seq⟩ : Flight)
        | _ => none) = some (some ⟨⟨0, []⟩, 0, 1⟩) := by decide +kernel
  rw [hex, Option.bind_some, Option.map_eq_some_iff] at hthird
  obtain ⟨r, hr, hev⟩ := hthird
  obtain ⟨hlt, rfl⟩ := List.getElem?_eq_some_iff.mp hr
  have hcut : log = log.take 2 ++ log[2] :: log.drop 3 := by
    rw [List.cons_getElem_drop_succ, List.take_append_drop]
  have hd : log[2].label.event.delivers ⟨⟨0, []⟩, 0, 1⟩ := by
    cases he : log[2].label.event <;> rw [he] at hev <;> cases hev
    exact rfl
  obtain ⟨hnd, hlaw⟩ := flight_law hrun
  exact ⟨log, s, hrun, hnd, _, _, _, hcut, hd, (hlaw _ _ _ _ hcut hd).2⟩

end witness

end Shell

end SwrCore
