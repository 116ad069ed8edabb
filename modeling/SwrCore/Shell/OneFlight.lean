import SwrCore.Shell.Flight
import SwrCore.Shell.Snapshots

/-!
# One live flight per key

Eight handlers may start a fetch, each behind its own guard. Whatever their order, an entry waits for
one flight at a time, and the next one starts only after this one was applied or discarded.

* `Shell.Live` — a flight that began and was neither delivered nor interrupted since.
* `Shell.Applies`, `Shell.Discards` — the two ways in which a flight stops being live.
* `Shell.Inv.ended` — a step that ends a live flight applies or discards it.
* `Shell.one_flight` — the law over every run.
-/

namespace SwrCore

variable {V F : Type}

namespace Shell

/-- The flight began in the log, and since then no result of it was delivered and no event interrupted
the flights of its key. -/
def Live (f : Flight) (log : List (Trace.Record (Shell V F) (Call V F))) : Prop :=
  Trace.Since (fun r => f ∈ Effect.flights r.label.out.effects)
    (fun r => r.label.event.delivers f ∨ r.label.event.interrupts f.key) log

/-- The step delivers the result of the flight to the entry that awaits it, and the entry takes it. -/
def Applies (f : Flight) (r : Trace.Record (Shell V F) (Call V F)) : Prop :=
  Awaits f r.pre ∧ ∃ e', r.post.inner.entry f.key = some e' ∧ e'.incarnation = f.incarnation ∧
    e'.inflight = none ∧
      ((∃ value, r.label.event = .commitOk f.key f.incarnation f.seq value ∧ e'.dataSeq = f.seq ∧
          e'.updatedAt = some r.label.now) ∨
        ∃ error, r.label.event = .commitErr f.key f.incarnation f.seq error ∧
          e'.errorSeq = f.seq ∧ e'.error = some error)

/-- A local write, a mutation or a matching invalidation takes the flight from the entry that awaits
it. -/
def Discards (f : Flight) (r : Trace.Record (Shell V F) (Call V F)) : Prop :=
  Awaits f r.pre ∧ ¬ Awaits f r.post ∧ r.label.event.interrupts f.key

/-- An entry awaits one flight. -/
theorem Awaits.unique {f f' : Flight} {s : Shell V F} (h : Awaits f s) (h' : Awaits f' s)
    (hk : f.key = f'.key) : f = f' := by
  obtain ⟨e, he, hinc, hi⟩ := h
  obtain ⟨e', he', hinc', hi'⟩ := h'
  rw [← hk, he] at he'
  cases he'
  have hseq : f.seq = f'.seq := Option.some.inj (hi.symm.trans hi')
  cases f
  cases f'
  simp_all

section step

variable [Platform] {s s' : Shell V F} {c : Call V F} (h : s.Inv) (hs : Step s c s')

include h hs

/-- A delivery to an entry that awaits it is applied. -/
theorem Inv.applied {f : Flight} (ha : Awaits f s) (hd : c.event.delivers f) :
    Applies f ⟨s, c, s'⟩ := by
  refine ⟨ha, ?_⟩
  obtain ⟨e, he, hinc, hi⟩ := ha
  have hm := ((h.shape _ e he).flying _ hi).mutationActive
  have hkeep : e.dropsCommit f.incarnation f.seq = false :=
    EntryCore.dropsCommit_eq_false.mpr ⟨hinc, hm, hi⟩
  have hinc' : ∀ kev : KeyEvent V F,
      (s.inner.after c.now f.key kev e).incarnation = f.incarnation := fun kev =>
    (Inner.after_frame f.key kev e).2.trans hinc
  cases hev : c.event <;> rw [hev] at hd
  case commitOk key incarnation seq value =>
    obtain rfl : (⟨key, incarnation, seq⟩ : Flight) = f := hd
    have hat : s.inner.At c.event key (.commitOk incarnation seq value) e :=
      ⟨by rw [hev]; exact if_pos rfl, he, rfl⟩
    have hreact : (KeyEvent.commitOk incarnation seq value).react s.inner.defaults c.now e =
        e.landed seq value c.now := by
      simp [KeyEvent.react, KeyEvent.starts, KeyEvent.wants, KeyEvent.apply, hkeep]
    refine ⟨_, hat.entry (h.handled hs), hinc' _, ?_, .inl ⟨value, rfl, ?_, ?_⟩⟩
    · rw [Inner.after_of (f := EntryCore.inflight) (fun _ _ _ _ => rfl), hreact]
      rfl
    · rw [Inner.after_of (f := EntryCore.dataSeq) (fun _ _ _ _ => rfl), hreact]
      rfl
    · rw [Inner.after_of (f := EntryCore.updatedAt) (fun _ _ _ _ => rfl), hreact]
      rfl
  case commitErr key incarnation seq error =>
    obtain rfl : (⟨key, incarnation, seq⟩ : Flight) = f := hd
    have hat : s.inner.At c.event key (.commitErr incarnation seq error) e :=
      ⟨by rw [hev]; exact if_pos rfl, he, rfl⟩
    have hreact : (KeyEvent.commitErr incarnation seq error).react s.inner.defaults c.now e =
        e.failed seq error := by
      simp [KeyEvent.react, KeyEvent.starts, KeyEvent.wants, KeyEvent.apply, hkeep]
    refine ⟨_, hat.entry (h.handled hs), hinc' _, ?_, .inr ⟨error, rfl, ?_, ?_⟩⟩
    · rw [Inner.after_of (f := EntryCore.inflight) (fun _ _ _ _ => rfl), hreact]
      rfl
    · rw [Inner.after_of (f := EntryCore.errorSeq) (fun _ _ _ _ => rfl), hreact]
      rfl
    · rw [Inner.after_of (f := EntryCore.error) (fun _ _ _ _ => rfl), hreact]
      rfl
  all_goals exact hd.elim

/-- **How a flight ends.** A step that delivers or interrupts a flight which the entry awaits applies or
discards it. -/
theorem Inv.ended {f : Flight} (ha : Awaits f s)
    (hend : c.event.delivers f ∨ c.event.interrupts f.key) :
    Applies f ⟨s, c, s'⟩ ∨ Discards f ⟨s, c, s'⟩ := by
  rcases hend with hd | hi
  · exact .inl (h.applied hs ha hd)
  · refine .inr ⟨ha, fun ha' => ?_, hi⟩
    -- A flight that the step itself begins was never handed out, and this one was.
    rcases (h.awaits_step hs f).mp ha' with hnew | ⟨-, hnot⟩
    · obtain ⟨e, he, hinc, hfly⟩ := ha
      obtain ⟨fetcher, hx⟩ := Effect.mem_flights.mp hnew
      obtain ⟨kev, e₁, hat, -, -, hseq⟩ := (h.handled hs).startFetch hx
      obtain rfl := hat.of_entry he
      have hle := EntryCore.seq_le_apply e₁ s.inner.defaults c.now kev
      have hnow := ((h.shape _ e₁ he).flying _ hfly).seq
      omega
    · exact hnot (.inr hi)

/-- A fetch starts only where no mutation is active, before and after the call. -/
theorem Inv.fetch_free {f : Flight} (hf : f ∈ Effect.flights c.out.effects) :
    ∀ t ∈ s'.tokens, t.key ≠ f.key := by
  intro t ht hk
  have hi' := h.step hs
  have ha : Awaits f s' := (h.awaits_step hs f).mpr (.inl hf)
  obtain ⟨e, he, -, hfly⟩ := ha
  have hm := ((hi'.shape _ e he).flying _ hfly).mutationActive
  rw [← hk] at he
  have hpos := hi'.mutations_pos ht he
  omega

/-- A read that waits, while its key awaits a flight, is told the seq of that flight and its channel. -/
theorem Inv.joined {f : Flight} (ha : Awaits f s') {policy : ReadPolicy} {fetcher : Option F}
    {compare : Option (Compare V)} {opts : QueryOptions} {target : Nat} {rx : Channel}
    (hev : c.event = .read f.key policy fetcher compare opts)
    (hout : c.out.outcome = .read (.wait target rx)) :
    target = f.seq ∧ rx = ⟨f.key, f.incarnation⟩ := by
  obtain ⟨e, -, -, -, e', he', -, htx, -, -, hbusy⟩ := h.read_wait hs hev hout
  obtain ⟨e₀, he₀, hinc, hfly⟩ := ha
  rw [he'] at he₀
  cases he₀
  have hchan := (h.step hs).tx _ _ he'
  rw [htx, hinc] at hchan
  rcases hbusy with hi | ⟨hi, -⟩
  · exact ⟨Option.some.inj (hi.symm.trans hfly), hchan⟩
  · rw [hi] at hfly
    cases hfly

end step

section law

variable [Platform] {defaults : QueryOptions} {log : List (Trace.Record (Shell V F) (Call V F))}
  {s : Shell V F}

theorem live_iff_awaits (h : Run defaults log s) (f : Flight) : Live f log ↔ Awaits f s :=
  (awaits_iff_since h f).symm

/-- A flight that no step of a log applies or discards is awaited to its end. -/
theorem awaits_carried {m : Shell V F} (hm : m.Inv) {ys : List (Trace.Record (Shell V F) (Call V F))}
    (hr : Trace.Run Step m ys s) {f : Flight} (ha : Awaits f m)
    (hno : ∀ x ∈ ys, ¬ (Applies f x ∨ Discards f x)) : Awaits f s := by
  have hboth : s.Inv ∧ Awaits f s := by
    refine hr.carry (J := fun s => s.Inv ∧ Awaits f s) ⟨hm, ha⟩ hno ?_
    rintro r hs hnot ⟨hi, ha⟩
    refine ⟨hi.step hs, (hi.awaits_step hs f).mpr (.inr ⟨ha, fun hend => ?_⟩)⟩
    exact hnot (hi.ended hs ha hend)
  exact hboth.2

/-- Between two fetches of a key the flight of the first one ends. -/
theorem ended_between {xs ys zs : List (Trace.Record (Shell V F) (Call V F))}
    {q r : Trace.Record (Shell V F) (Call V F)} (h : Run defaults (xs ++ q :: (ys ++ r :: zs)) s)
    {f f' : Flight} (hf : f ∈ Effect.flights q.label.out.effects)
    (hf' : f' ∈ Effect.flights r.label.out.effects) (hk : f.key = f'.key) :
    ∃ x ∈ ys ++ [r], Applies f x ∨ Discards f x := by
  by_contra hno
  push Not at hno
  obtain ⟨hxs, hq, hrest⟩ := h.middle
  obtain ⟨hys, hr, -⟩ := hrest.middle
  have hinv := (inv_of_run hxs).step hq
  have hbegun : Awaits f q.post := ((inv_of_run hxs).awaits_step hq f).mpr (.inl hf)
  have hstill : Awaits f r.post :=
    awaits_carried hinv (hys.snoc hr) hbegun fun x hx hend => hend.elim (hno x hx).1 (hno x hx).2
  have hinv' : r.pre.Inv := hys.invariant (I := Inv) hinv fun _ _ _ hi hs => hi.step hs
  have hnew : Awaits f' r.post := (hinv'.awaits_step hr f').mpr (.inl hf')
  obtain rfl := hstill.unique hnew hk
  -- The second fetch would begin the same flight again.
  refine hinv'.flight_fresh hr hf' ?_
  have hkept : ∀ {m m' : Shell V F} {log : List (Trace.Record (Shell V F) (Call V F))},
      Trace.Run Step m log m' → f ∈ m.flights → f ∈ m'.flights := fun hrun hmem =>
    hrun.invariant (I := fun s => f ∈ s.flights) hmem fun _ _ _ hmem hs => by
      rw [next_flights hs]
      exact List.mem_append_left _ hmem
  refine hkept hys ?_
  rw [next_flights hq]
  exact List.mem_append_right _ hf

/-- **At most one live flight per key.** In every shell-produced run two live flights of a key are the
same, and whichever two `StartFetch` effects a key has, the flight of the earlier one was applied, or
discarded by a local write, the begin of a mutation or a matching invalidation, before the later one or
by its event. No batch has two `StartFetch` effects for a key, none for a key with a mutation that is
outstanding after the event, and every read that waits while a flight is live waits for the seq of this
flight, on the channel of its incarnation. -/
theorem one_flight (h : Run defaults log s) :
    (∀ f f', Live f log → Live f' log → f.key = f'.key → f = f') ∧
      (∀ xs q ys r zs, log = xs ++ q :: (ys ++ r :: zs) → ∀ f f',
        f ∈ Effect.flights q.label.out.effects → f' ∈ Effect.flights r.label.out.effects →
          f.key = f'.key → ∃ x ∈ ys ++ [r], Applies f x ∨ Discards f x) ∧
      (∀ r ∈ log, ∀ k,
        ((Effect.flights r.label.out.effects).filter fun f => decide (f.key = k)).length ≤ 1) ∧
      (∀ r ∈ log, ∀ f ∈ Effect.flights r.label.out.effects, ∀ t ∈ r.post.tokens, t.key ≠ f.key) ∧
      ∀ xs r ys f policy fetcher compare opts target rx, log = xs ++ r :: ys →
        Live f (xs ++ [r]) → r.label.event = .read f.key policy fetcher compare opts →
          r.label.out.outcome = .read (.wait target rx) →
            target = f.seq ∧ rx = ⟨f.key, f.incarnation⟩ := by
  refine ⟨fun f f' hl hl' hk => ?_, ?_, fun r hr k => ?_, fun r hr f hf => ?_, ?_⟩
  · exact ((live_iff_awaits h f).mp hl).unique ((live_iff_awaits h f').mp hl') hk
  · rintro xs q ys r zs rfl f f' hf hf' hk
    exact ended_between h hf hf' hk
  · obtain ⟨_, _, -, hpre, hs, -⟩ := h.of_mem hr
    exact flights_of_le ((inv_of_run hpre).handled hs) k
  · obtain ⟨_, _, -, hpre, hs, -⟩ := h.of_mem hr
    exact (inv_of_run hpre).fetch_free hs hf
  · rintro xs r ys f policy fetcher compare opts target rx rfl hl hev hout
    obtain ⟨hpre, hs, -⟩ := h.middle
    exact (inv_of_run hpre).joined hs ((live_iff_awaits (hpre.snoc hs) f).mp hl) hev hout

end law

section witness

attribute [local instance] exampleClock

/-- The law on a run in which a mutation discards the first flight, and its settlement begins a
second. -/
theorem one_flight_example : ∃ (log : List (Trace.Record (Shell Nat Unit) (Call Nat Unit)))
    (s : Shell Nat Unit) (q r x : Trace.Record (Shell Nat Unit) (Call Nat Unit)),
      Run .default log s ∧ q ∈ log ∧ r ∈ log ∧ x ∈ log ∧
        ⟨⟨0, []⟩, 0, 1⟩ ∈ Effect.flights q.label.out.effects ∧
        ⟨⟨0, []⟩, 0, 4⟩ ∈ Effect.flights r.label.out.effects ∧
        (Applies ⟨⟨0, []⟩, 0, 1⟩ x ∨ Discards ⟨⟨0, []⟩, 0, 1⟩ x) := by
  obtain ⟨log, s, hex, -⟩ := exampleRun_runs
  have hrun : Run .default log s := run_of_exec hex
  have hflights : (((init .default : Shell Nat Unit).exec exampleRun).map fun r =>
      r.1.map fun r => Effect.flights r.label.out.effects) =
        some [[⟨⟨0, []⟩, 0, 1⟩], [], [], [⟨⟨0, []⟩, 0, 4⟩], [], []] := by decide +kernel
  rw [hex, Option.map_some, Option.some.injEq] at hflights
  clear hex
  obtain ⟨q, l, rfl, hq, hl⟩ := List.map_eq_cons_iff.mp hflights
  obtain ⟨a, l, rfl, -, hl⟩ := List.map_eq_cons_iff.mp hl
  obtain ⟨b, l, rfl, -, hl⟩ := List.map_eq_cons_iff.mp hl
  obtain ⟨r, l, rfl, hr, -⟩ := List.map_eq_cons_iff.mp hl
  have hf : (⟨⟨0, []⟩, 0, 1⟩ : Flight) ∈ Effect.flights q.label.out.effects := by
    rw [hq]
    exact List.mem_singleton_self _
  have hf' : (⟨⟨0, []⟩, 0, 4⟩ : Flight) ∈ Effect.flights r.label.out.effects := by
    rw [hr]
    exact List.mem_singleton_self _
  obtain ⟨x, hx, hend⟩ := (one_flight hrun).2.1 [] q [a, b] r l rfl _ _ hf hf' rfl
  refine ⟨_, s, q, r, x, hrun, List.mem_cons_self, by simp, ?_, hf, hf', hend⟩
  simp only [List.cons_append, List.nil_append, List.mem_cons] at hx ⊢
  grind

end witness

end Shell

end SwrCore
