import SwrCore.Cell.Alarm
import SwrCore.Shell.Invariant

/-!
# Timer fencing

The shell fires the timers it was asked to schedule, late and in any order. A timer names a key and a
generation, not an incarnation, and a rebuilt entry counts its generations from zero again.

* `Timed` — the shell with its pending timers and a clock that never goes back; `Timed.Run`.
* `Shell.scheduled`, `Shell.Latest` — the timers of one entry, and the most recent one.
* `Shell.Rings` — the generations of one entry grow, and none is past the entry's own.
* `Shell.lastTouch_of_run` — the last event that touched an idle entry.
* `Timed.Leftover` — the timer of an earlier incarnation that the rebuilt entry takes for its own.
* `Timed.timer_fencing` — timers are fenced exactly where no leftover is taken.
* `Timed.leftover_removes` — a leftover removes a rebuilt entry before its deadline.
-/

set_option linter.unusedSectionVars false

namespace SwrCore

variable {V F : Type}

namespace Shell

/-! ## The effect of a timer event -/

section fired

variable [Platform] {s s' : Shell V F} {c : Call V F} {key : QueryKey} {kind : TimerKind}
  {generation : Nat}

/-- **What a timer event needs.** It changes something exactly if the entry stored under its key has
its generation and answers it. -/
theorem Inv.timer_changes (h : s.Inv) (hs : Step s c s')
    (hev : c.event = .timerFired key kind generation) :
    (s'.inner ≠ s.inner ∨ c.out.effects ≠ []) ↔
      ∃ e, s.inner.entry key = some e ∧ generation = e.generation kind ∧
        e.answers c.now kind = true := by
  have hh := h.handled hs
  have hon : c.event.on key s.inner.nextSubId = some (.timerFired kind generation) := by
    rw [hev]
    exact if_pos rfl
  have hoff : ∀ k, k ≠ key → c.event.on k s.inner.nextSubId = none := by
    intro k hk
    rw [hev]
    exact if_neg fun hk' => hk hk'.symm
  have hsub : s.inner.subject key (.timerFired kind generation : KeyEvent V F) =
      s.inner.entry key := by
    cases kind <;> rfl
  have hsame : (s'.inner.entry key = s.inner.entry key ∧ Effect.of key c.out.effects = []) →
      s'.inner = s.inner ∧ c.out.effects = [] := by
    intro hkey
    refine hh.unchanged ?_ fun k => ?_
    · rw [hev]
      exact ⟨rfl, rfl⟩
    · by_cases hk : k = key
      · rw [hk]
        exact hkey
      · exact hh.off (hoff k hk)
  cases he : s.inner.entry key with
  | none =>
      rw [he] at hsub
      obtain ⟨h₁, h₂⟩ := hh.gone hon fun e he' => by rw [hsub] at he'; cases he'
      obtain ⟨h₃, h₄⟩ := hsame ⟨h₁.trans he.symm, h₂⟩
      simp [h₃, h₄]
  | some e =>
      rw [he] at hsub
      simp only [Option.some.injEq, exists_eq_left']
      by_cases hans : generation = e.generation kind ∧ e.answers c.now kind = true
      · refine iff_of_true ?_ hans
        cases kind with
        | gc =>
            -- The idle entry is removed.
            have hrem : (KeyEvent.timerFired .gc generation : KeyEvent V F).removes e = true := by
              rw [KeyEvent.removes, Bool.and_eq_true, decide_eq_true_eq]
              exact hans
            obtain ⟨h₁, -⟩ := hh.gone hon fun e' he' => by
              rw [hsub] at he'
              cases he'
              exact hrem
            refine .inl fun heq => ?_
            rw [heq, he] at h₁
            cases h₁
        | refresh =>
            have hat : s.inner.At c.event key (.timerFired .refresh generation) e :=
              ⟨hon, hsub, rfl⟩
            refine .inr fun hnil => ?_
            have heff := hat.effects hh
            rw [hnil] at heff
            exact KeyEvent.timer_answered _ _ hans.1 hans.2 heff.symm
      · refine iff_of_false ?_ hans
        obtain ⟨hrem, hset, hbatch⟩ := KeyEvent.timer_ignored s.inner.defaults key hans
        have hat : s.inner.At c.event key (.timerFired kind generation) e := ⟨hon, hsub, hrem⟩
        have hentry : s'.inner.entry key = some e := (hat.entry hh).trans (congrArg some hset)
        obtain ⟨h₃, h₄⟩ := hsame ⟨hentry.trans he.symm, (hat.effects hh).trans hbatch⟩
        simp [h₃, h₄]

/-- An entry that a step removes was idle, and a GC timer of its generation fired. -/
theorem Inv.removed (h : s.Inv) (hs : Step s c s') {k : QueryKey} {e : EntryCore V F}
    (he : s.inner.entry k = some e) (hgone : s'.inner.entry k = none) :
    c.event = .timerFired k .gc e.gcGen ∧ e.isQuiescent = true := by
  have hh := h.handled hs
  cases hon : c.event.on k s.inner.nextSubId with
  | none =>
      rw [(hh.off hon).1, he] at hgone
      cases hgone
  | some kev =>
      have hsub : s.inner.subject k kev = some e := by
        unfold Inner.subject
        split_ifs
        · rw [he]
          rfl
        · exact he
      have hrem : kev.removes e = true := by
        by_contra hr
        have hat : s.inner.At c.event k kev e := ⟨hon, hsub, Bool.eq_false_of_not_eq_true hr⟩
        rw [hat.entry hh] at hgone
        cases hgone
      generalize c.event = ev at hon
      cases Event.on_inv hon with
      | @timerFired kind generation =>
          cases kind with
          | gc =>
              have hrem : (decide (generation = e.gcGen) && e.isQuiescent) = true := hrem
              rw [Bool.and_eq_true, decide_eq_true_eq] at hrem
              rw [hrem.1]
              exact ⟨rfl, hrem.2⟩
          | refresh => cases hrem
      | _ => cases hrem

end fired

/-! ## The timers of one entry -/

end Shell

/-- The timer is of this kind, and this incarnation of the key scheduled it. -/
def Timer.isOf (k : QueryKey) (kind : TimerKind) (incarnation : Nat) (t : Timer) : Bool :=
  decide (t.key = k) && decide (t.kind = kind) && decide (t.incarnation = some incarnation)

namespace Shell

/-- The timers of a kind that one incarnation of a key scheduled, oldest first. -/
def scheduled (s : Shell V F) (k : QueryKey) (kind : TimerKind) (incarnation : Nat) : List Timer :=
  s.timers.filter fun t =>
    decide (t.key = k) && decide (t.kind = kind) && decide (t.incarnation = some incarnation)

/-- The timer is the most recent one of its kind that its entry scheduled. -/
def Latest (t : Timer) (s : Shell V F) : Prop :=
  ∃ incarnation, t.incarnation = some incarnation ∧
    (s.scheduled t.key t.kind incarnation).getLast? = some t

/-- The generations of the timers of an entry grow, and none is past the entry's own. -/
structure Rings (s : Shell V F) : Prop where
  incarnation : ∀ t ∈ s.timers, ∃ i, t.incarnation = some i ∧ i < s.inner.nextIncarnation
  ordered : ∀ k kind i,
    (s.scheduled k kind i).Pairwise fun t t' => t.generation < t'.generation
  bounded : ∀ k e, s.inner.entry k = some e → ∀ kind,
    ∀ t ∈ s.scheduled k kind e.incarnation, t.generation ≤ e.generation kind

theorem mem_scheduled {s : Shell V F} {k : QueryKey} {kind : TimerKind} {i : Nat} {t : Timer} :
    t ∈ s.scheduled k kind i ↔
      t ∈ s.timers ∧ t.key = k ∧ t.kind = kind ∧ t.incarnation = some i := by
  simp [scheduled, and_assoc]

/-- A timer of the entry's own generation is its most recent one. -/
theorem Rings.latest {s : Shell V F} (h : s.Rings) {t : Timer} (ht : t ∈ s.timers)
    {e : EntryCore V F} (he : s.inner.entry t.key = some e)
    (hinc : t.incarnation = some e.incarnation) (hg : t.generation = e.generation t.kind) :
    Latest t s := by
  refine ⟨e.incarnation, hinc, ?_⟩
  have hmem : t ∈ s.scheduled t.key t.kind e.incarnation := mem_scheduled.mpr ⟨ht, rfl, rfl, hinc⟩
  have hord := h.ordered t.key t.kind e.incarnation
  have hle := h.bounded t.key e he t.kind
  obtain ⟨as, bs, hcut⟩ := List.append_of_mem hmem
  rw [hcut] at hord hle ⊢
  rcases List.eq_nil_or_concat bs with rfl | ⟨cs, b, rfl⟩
  · simp
  · -- A later timer would carry a generation past the entry's own.
    have hlt : t.generation < b.generation :=
      (List.pairwise_cons.mp (List.pairwise_append.mp hord).2.1).1 b (by simp)
    have := hle b (by simp)
    omega

section step

variable [Platform] {s s' : Shell V F} {c : Call V F}

theorem next_timers (hs : Step s c s') :
    s'.timers = s.timers ++ Effect.timers s'.inner c.out.effects := by
  rw [hs.next]
  rfl

/-- The timers of a key are found among the effects of the key. -/
theorem filter_timers (inner : Inner V F) (k : QueryKey) (p : Timer → Bool)
    (hp : ∀ t, p t = true → t.key = k) (effects : List (Effect V F)) :
    (Effect.timers inner effects).filter p = (Effect.timers inner (Effect.of k effects)).filter p := by
  induction effects with
  | nil => rfl
  | cons x xs ih =>
      unfold Effect.timers Effect.of at ih ⊢
      by_cases hk : x.key = k
      · have hd : decide (x.key = k) = true := decide_eq_true hk
        rw [List.filter_cons, if_pos hd, List.filterMap_cons, List.filterMap_cons]
        cases x.timer? inner with
        | none => exact ih
        | some t => simp only [List.filter_cons, ih]
      · have hd : ¬ decide (x.key = k) = true := fun hd => hk (of_decide_eq_true hd)
        rw [List.filter_cons, if_neg hd, List.filterMap_cons, ← ih]
        cases ht : x.timer? inner with
        | none => rfl
        | some t =>
            have hkey : t.key = x.key := by
              cases x <;> cases ht
              rfl
            refine List.filter_cons_of_neg fun hpt => hk ?_
            rw [← hkey, hp t hpt]

/-- The timers of a batch are the alarms of its entry. -/
theorem timers_batch (inner : Inner V F) {k : QueryKey} {i : Nat}
    (hi : (inner.entry k).map EntryCore.incarnation = some i) (defaults : QueryOptions)
    (now : Instant) (kev : KeyEvent V F) (e e' : EntryCore V F) :
    Effect.timers inner (e'.batch defaults now k (kev.marks defaults now k e)) =
      [TimerKind.gc, .refresh].flatMap fun kind =>
        (e'.alarm defaults now (kev.marks defaults now k e) kind).toList.map fun deadline =>
          ⟨k, kind, deadline, e'.generation kind + 1, some i⟩ := by
  have hfetches : Effect.timers inner (kev.marks defaults now k e).effects = [] := by
    refine List.filterMap_eq_nil_iff.mpr fun x hx => ?_
    obtain ⟨_, _, _, rfl⟩ := Inner.marks_effects now defaults k e kev x hx
    rfl
  have hnotify : ∀ b : Bool, ∀ tx (snapshot : Snapshot V), Effect.timers inner
      (if b then [(.notify tx snapshot : Effect V F)] else []) = [] := by
    intro b tx snapshot
    cases b <;> rfl
  unfold EntryCore.batch
  rw [Effect.timers, List.filterMap_append, List.filterMap_append]
  change Effect.timers inner _ ++ Effect.timers inner _ ++ Effect.timers inner _ = _
  rw [hfetches, hnotify, List.nil_append, List.append_nil, e'.timers_eq_alarms, Effect.timers,
    List.filterMap_flatMap]
  simp only [List.filterMap_map, Function.comp_def, Effect.timer?, hi, List.filterMap_eq_map']

/-- The timers of a step: the alarms of what the event made of the entry it acts on, and none for any
other. -/
theorem Inv.new_timers (h : s.Inv) (hs : Step s c s') (k : QueryKey) (kind : TimerKind) (i : Nat) :
    ((Effect.timers s'.inner c.out.effects).filter (Timer.isOf k kind i) = [] ∧
        ∀ kev e, s.inner.At c.event k kev e → e.incarnation = i →
          (kev.react s.inner.defaults c.now e).alarm s.inner.defaults c.now
            (kev.marks s.inner.defaults c.now k e) kind = none) ∨
      ∃ kev e deadline, s.inner.At c.event k kev e ∧ e.incarnation = i ∧
        (kev.react s.inner.defaults c.now e).alarm s.inner.defaults c.now
          (kev.marks s.inner.defaults c.now k e) kind = some deadline ∧
        (Effect.timers s'.inner c.out.effects).filter (Timer.isOf k kind i) =
          [⟨k, kind, deadline, (kev.react s.inner.defaults c.now e).generation kind + 1, some i⟩] := by
  have hh := h.handled hs
  have hkey : ∀ t, Timer.isOf k kind i t = true → t.key = k := by simp +contextual [Timer.isOf]
  rw [filter_timers s'.inner k _ hkey]
  have hnone : (∀ kev e, ¬ s.inner.At c.event k kev e) → Effect.of k c.out.effects = [] := by
    intro hno
    refine List.eq_nil_iff_forall_not_mem.mpr fun x hx => ?_
    obtain ⟨hmem, rfl⟩ := Effect.mem_of.mp hx
    obtain ⟨kev, e, hat, -⟩ := hh.effect hmem
    exact hno kev e hat
  by_cases hno : ∀ kev e, ¬ s.inner.At c.event k kev e
  · rw [hnone hno]
    exact .inl ⟨rfl, fun kev e hat => absurd hat (hno kev e)⟩
  · push Not at hno
    obtain ⟨kev, e, hat⟩ := hno
    have hinc : (s'.inner.entry k).map EntryCore.incarnation = some e.incarnation := by
      rw [hat.entry hh]
      exact congrArg some (Inner.after_frame k kev e).2
    rw [hat.effects hh, timers_batch s'.inner hinc]
    cases hal : (kev.react s.inner.defaults c.now e).alarm s.inner.defaults c.now
        (kev.marks s.inner.defaults c.now k e) kind with
    | none =>
        refine .inl ⟨?_, fun kev' e' hat' _ => ?_⟩
        · cases kind <;> simp [hal, List.filter_map, Function.comp_def, Timer.isOf]
        · obtain ⟨rfl, rfl⟩ := hat.unique hat'
          exact hal
    | some deadline =>
        by_cases hi : e.incarnation = i
        · refine .inr ⟨kev, e, deadline, hat, hi, hal, ?_⟩
          cases kind <;>
            simp [hal, hi, List.filter_append, List.filter_map, Function.comp_def, Timer.isOf]
        · refine .inl ⟨?_, fun kev' e' hat' hi' => ?_⟩
          · simp [hi, List.filter_map, Function.comp_def, Timer.isOf]
          · obtain ⟨rfl, rfl⟩ := hat.unique hat'
            exact absurd hi' hi

/-- The alarm of what the event made of an entry is a new timer. -/
theorem Inv.alarm_mem (h : s.Inv) (hs : Step s c s') {k : QueryKey} {kev : KeyEvent V F}
    {e : EntryCore V F} (hat : s.inner.At c.event k kev e) {kind : TimerKind} {deadline : Instant}
    (hal : (kev.react s.inner.defaults c.now e).alarm s.inner.defaults c.now
      (kev.marks s.inner.defaults c.now k e) kind = some deadline) :
    ⟨k, kind, deadline, (kev.react s.inner.defaults c.now e).generation kind + 1,
      some e.incarnation⟩ ∈ Effect.timers s'.inner c.out.effects := by
  rcases h.new_timers hs k kind e.incarnation with ⟨-, hno⟩ | ⟨kev', e', d, hat', -, hal', hnew⟩
  · rw [hno kev e hat rfl] at hal
    cases hal
  · obtain ⟨rfl, rfl⟩ := hat.unique hat'
    rw [hal, Option.some.injEq] at hal'
    subst hal'
    refine List.mem_of_mem_filter (p := Timer.isOf k kind e.incarnation) ?_
    rw [hnew]
    exact List.mem_singleton_self _

/-- **The timers of a step.** A step schedules at most one timer of a kind for an entry: the alarm of
what the event made of it. -/
theorem Inv.scheduled_step (h : s.Inv) (hs : Step s c s') (k : QueryKey) (kind : TimerKind)
    (i : Nat) : s'.scheduled k kind i = s.scheduled k kind i ∨
      ∃ kev e deadline, s.inner.At c.event k kev e ∧ e.incarnation = i ∧
        (kev.react s.inner.defaults c.now e).alarm s.inner.defaults c.now
          (kev.marks s.inner.defaults c.now k e) kind = some deadline ∧
        s'.scheduled k kind i = s.scheduled k kind i ++
          [⟨k, kind, deadline, (kev.react s.inner.defaults c.now e).generation kind + 1, some i⟩] := by
  have hsplit : s'.scheduled k kind i = s.scheduled k kind i ++
      (Effect.timers s'.inner c.out.effects).filter (Timer.isOf k kind i) := by
    unfold scheduled
    rw [next_timers hs, List.filter_append]
    rfl
  rw [hsplit]
  rcases h.new_timers hs k kind i with ⟨hnil, -⟩ | ⟨kev, e, deadline, hat, hi, hal, hnew⟩
  · rw [hnil]
    exact .inl (List.append_nil _)
  · exact .inr ⟨kev, e, deadline, hat, hi, hal, by rw [hnew]⟩

/-- The entry an event acts on is the stored one if it scheduled a timer: nothing was scheduled yet for
an incarnation to come. -/
theorem Rings.stored (hr : s.Rings) (h : s.Inv) {k : QueryKey} {kev : KeyEvent V F}
    {e : EntryCore V F} (hsub : s.inner.subject k kev = some e) {kind : TimerKind} {t : Timer}
    (ht : t ∈ s.scheduled k kind e.incarnation) : s.inner.entry k = some e := by
  rcases (h.subject hsub).2.2.2 with he | ⟨-, rfl, -⟩
  · exact he
  · obtain ⟨hmem, -, -, hi⟩ := mem_scheduled.mp ht
    obtain ⟨i, hi', hlt⟩ := hr.incarnation t hmem
    rw [hi, Option.some.injEq] at hi'
    exact absurd hlt (by rw [← hi']; exact lt_irrefl _)

/-- The entry an event acts on has reached every generation that it scheduled. -/
theorem Rings.past (hr : s.Rings) (h : s.Inv) {k : QueryKey} {kev : KeyEvent V F}
    {e : EntryCore V F} (hsub : s.inner.subject k kev = some e) {kind : TimerKind} {t : Timer}
    (ht : t ∈ s.scheduled k kind e.incarnation) : t.generation ≤ e.generation kind :=
  hr.bounded k e (hr.stored h hsub ht) kind t ht

theorem Rings.step (hr : s.Rings) (h : s.Inv) (hs : Step s c s') : s'.Rings := by
  have hh := h.handled hs
  have hnext := hh.nextIncarnation
  constructor
  case incarnation =>
    intro t ht
    rw [next_timers hs] at ht
    rcases List.mem_append.mp ht with ht | ht
    · obtain ⟨i, hi, hlt⟩ := hr.incarnation t ht
      exact ⟨i, hi, by omega⟩
    · obtain ⟨x, hx, ht⟩ := List.mem_filterMap.mp ht
      cases x with
      | scheduleTimer key kind deadline generation =>
          obtain ⟨kev, e, hat, -⟩ := hh.effect hx
          have hentry := hat.entry hh
          cases ht
          refine ⟨e.incarnation, ?_, (h.after hs hat).2.2.2.2⟩
          exact (congrArg (Option.map _) hentry).trans
            (congrArg some (Inner.after_frame _ kev e).2)
      | _ => cases ht
  case ordered =>
    intro k kind i
    rcases h.scheduled_step hs k kind i with heq | ⟨kev, e, deadline, hat, rfl, -, heq⟩
    · rw [heq]
      exact hr.ordered k kind i
    · rw [heq]
      refine List.pairwise_append.mpr ⟨hr.ordered k kind _, List.pairwise_singleton _ _, ?_⟩
      intro t ht t' ht'
      rw [List.mem_singleton.mp ht']
      have h₁ := hr.past h hat.subject ht
      have h₂ := e.generation_le_react c.now s.inner.defaults kev kind
      show t.generation < _ + 1
      omega
  case bounded =>
    intro k e' he' kind t ht
    rcases hh.inversion he' with ⟨hoff, he⟩ | ⟨kev, e, hat, rfl⟩
    · rcases h.scheduled_step hs k kind e'.incarnation with heq | ⟨_, _, _, hat, -⟩
      · rw [heq] at ht
        exact hr.bounded k e' he kind t ht
      · exact absurd hoff hat.not_off
    · rw [(Inner.after_frame k kev e).2] at ht
      have h₁ := e.generation_le_react c.now s.inner.defaults kev kind
      have h₂ := (kev.react s.inner.defaults c.now e).generation_le_settled c.now
        (kev.marks s.inner.defaults c.now k e) kind
      have hsettled : (s.inner.after c.now k kev e).generation kind =
        ((kev.react s.inner.defaults c.now e).settled c.now
          (kev.marks s.inner.defaults c.now k e)).generation kind := rfl
      have hkeep : t ∈ s.scheduled k kind e.incarnation →
          t.generation ≤ (s.inner.after c.now k kev e).generation kind := by
        intro ht
        have := hr.past h hat.subject ht
        omega
      rcases h.scheduled_step hs k kind e.incarnation with heq | ⟨kev', e₁, d, hat', -, hal, heq⟩
      · rw [heq] at ht
        exact hkeep ht
      · obtain ⟨rfl, rfl⟩ := hat.unique hat'
        rw [heq] at ht
        rcases List.mem_append.mp ht with ht | ht
        · exact hkeep ht
        · rw [List.mem_singleton.mp ht, hsettled, EntryCore.generation_of_alarm _ _ _ hal]

end step

section run

variable [Platform] {defaults : QueryOptions} {log : List (Trace.Record (Shell V F) (Call V F))}
  {s : Shell V F}

theorem rings_of_run (h : Run defaults log s) : s.Rings := by
  have hinit : (init defaults : Shell V F).Rings := by
    refine ⟨fun t ht => absurd ht List.not_mem_nil, fun _ _ _ => List.Pairwise.nil, ?_⟩
    intro k e he
    rw [init_entry] at he
    cases he
  have hboth : s.Inv ∧ s.Rings :=
    h.invariant (I := fun s => s.Inv ∧ s.Rings) ⟨inv_init defaults, hinit⟩
      fun _ _ _ hi hs => ⟨hi.1.step hs, hi.2.step hi.1 hs⟩
  exact hboth.2

/-! ## The last touch of an idle entry -/

/-- The step touches the entry under the key. -/
def Touches (k : QueryKey) (r : Trace.Record (Shell V F) (Call V F)) : Prop :=
  ∃ kev e, r.pre.inner.At r.label.event k kev e ∧
    kev.touches r.pre.inner.defaults r.label.now e = true

/-- The last touch of the entry `e` in the log: the step, and the deadline it computed. -/
def LastTouch (k : QueryKey) (e : EntryCore V F)
    (log : List (Trace.Record (Shell V F) (Call V F))) (deadline : Option Instant) : Prop :=
  ∃ as q bs e', log = as ++ q :: bs ∧ Touches k q ∧ (∀ x ∈ bs, ¬ Touches k x) ∧
    q.post.inner.entry k = some e' ∧ e'.incarnation = e.incarnation ∧
    deadline = Instant.checkedAdd q.label.now (e'.opts.gcTime q.post.inner.defaults.gcTime)

theorem LastTouch.extend {k : QueryKey} {e e' : EntryCore V F} {deadline : Option Instant}
    {r : Trace.Record (Shell V F) (Call V F)} (h : LastTouch k e log deadline)
    (hr : ¬ Touches k r) (hinc : e'.incarnation = e.incarnation) :
    LastTouch k e' (log ++ [r]) deadline := by
  obtain ⟨as, q, bs, e₀, rfl, hq, hbs, he₀, hinc₀, hd⟩ := h
  refine ⟨as, q, bs ++ [r], e₀, by simp, hq, fun x hx => ?_, he₀, hinc₀.trans hinc.symm, hd⟩
  rcases List.mem_append.mp hx with hx | hx
  · exact hbs x hx
  · rw [List.mem_singleton.mp hx]
    exact hr

/-- The deadline of the timer of an idle entry is the one that its last touch computed. -/
def Dated (s : Shell V F) (log : List (Trace.Record (Shell V F) (Call V F))) (k : QueryKey)
    (e : EntryCore V F) : Prop :=
  ∃ deadline, LastTouch k e log deadline ∧ ∀ t ∈ s.scheduled k .gc e.incarnation,
    t.generation = e.gcGen → deadline = some t.deadline

section touch

variable {s' : Shell V F} {c : Call V F} {k : QueryKey} {kev : KeyEvent V F} {e : EntryCore V F}

/-- An event of other keys touches no entry of the key and schedules nothing for it. -/
theorem Dated.off (h : Dated s log k e) (hI : s.Inv) (hs : Step s c s')
    (hoff : c.event.on k s.inner.nextSubId = none) : Dated s' (log ++ [⟨s, c, s'⟩]) k e := by
  obtain ⟨deadline, hlast, htimers⟩ := h
  refine ⟨deadline, hlast.extend ?_ rfl, ?_⟩
  · rintro ⟨kev, e, hat, -⟩
    exact hat.not_off hoff
  · rcases hI.scheduled_step hs k .gc e.incarnation with heq | ⟨_, _, _, hat, -⟩
    · rw [heq]
      exact htimers
    · exact absurd hoff hat.not_off

/-- An event that touches the entry is its last touch, and every earlier timer is of an earlier
generation. -/
theorem dated_touched (hrun : Run defaults log s) (hs : Step s c s')
    (hat : s.inner.At c.event k kev e) (ht : kev.touches s.inner.defaults c.now e = true)
    (hq : (s.inner.after c.now k kev e).isQuiescent = true) :
    Dated s' (log ++ [⟨s, c, s'⟩]) k (s.inner.after c.now k kev e) := by
  have hI := inv_of_run hrun
  have hh := hI.handled hs
  have hopts : (s.inner.after c.now k kev e).opts = (kev.react s.inner.defaults c.now e).opts :=
    Inner.after_of (f := EntryCore.opts) (fun _ _ _ _ => rfl) k kev e
  have hgen := s.inner.after_gcGen c.now k kev e
  rw [Inner.after_quiescent] at hq
  rw [ht, hq, Bool.and_self, if_pos rfl] at hgen
  have hlast : LastTouch k (s.inner.after c.now k kev e) (log ++ [⟨s, c, s'⟩])
      (Instant.checkedAdd c.now
        ((s.inner.after c.now k kev e).opts.gcTime s'.inner.defaults.gcTime)) :=
    ⟨log, ⟨s, c, s'⟩, [], s.inner.after c.now k kev e, rfl, ⟨kev, e, hat, ht⟩,
      fun x hx => absurd hx List.not_mem_nil, hat.entry hh, rfl, rfl⟩
  have hold : ∀ t ∈ s.scheduled k .gc e.incarnation,
      t.generation ≠ (s.inner.after c.now k kev e).gcGen := by
    intro t hmem
    have h₁ : e.gcGen ≤ (kev.react s.inner.defaults c.now e).gcGen :=
      e.generation_le_react c.now s.inner.defaults kev .gc
    have h₂ : t.generation ≤ e.gcGen := (rings_of_run hrun).past hI hat.subject hmem
    omega
  refine ⟨_, hlast, ?_⟩
  rw [(Inner.after_frame k kev e).2]
  rcases hI.scheduled_step hs k .gc e.incarnation with heq | ⟨kev', e₁, d, hat', -, hal, heq⟩
  · rw [heq]
    exact fun t hmem hg => absurd hg (hold t hmem)
  · obtain ⟨rfl, rfl⟩ := hat.unique hat'
    rw [heq]
    intro t hmem hg
    rcases List.mem_append.mp hmem with hmem | hmem
    · exact absurd hg (hold t hmem)
    · rw [List.mem_singleton.mp hmem, hopts, hh.defaults]
      exact (Option.ite_none_right_eq_some.mp hal).2

/-- An event that does not touch the entry keeps its generation and schedules nothing. -/
theorem Dated.untouched (h : Dated s log k e) (hI : s.Inv) (hs : Step s c s')
    (hat : s.inner.At c.event k kev e) (ht : kev.touches s.inner.defaults c.now e = false) :
    Dated s' (log ++ [⟨s, c, s'⟩]) k (s.inner.after c.now k kev e) := by
  obtain ⟨deadline, hlast, htimers⟩ := h
  have hgen := s.inner.after_gcGen c.now k kev e
  rw [ht, Bool.false_and, if_neg Bool.false_ne_true, KeyEvent.react_untouched ht] at hgen
  refine ⟨deadline, hlast.extend ?_ (Inner.after_frame k kev e).2, ?_⟩
  · rintro ⟨kev', e₁, hat', ht'⟩
    obtain ⟨rfl, rfl⟩ := hat.unique hat'
    rw [ht] at ht'
    cases ht'
  · rw [(Inner.after_frame k kev e).2, hgen]
    rcases hI.scheduled_step hs k .gc e.incarnation with heq | ⟨kev', e₁, d, hat', -, hal, -⟩
    · rw [heq]
      exact htimers
    · obtain ⟨rfl, rfl⟩ := hat.unique hat'
      have htouched := (Option.ite_none_right_eq_some.mp hal).1
      rw [show (kev.marks s.inner.defaults c.now k e).touched = false from ht] at htouched
      cases htouched

end touch

/-- **The timer of an idle entry.** The GC timer that carries the generation of an idle entry was
scheduled by the last event that touched the entry. -/
theorem lastTouch_of_run (h : Run defaults log s) :
    ∀ k e, s.inner.entry k = some e → e.isQuiescent = true → Dated s log k e := by
  refine h.history (P := fun log s => ∀ k e, s.inner.entry k = some e → e.isQuiescent = true →
    Dated s log k e) ?_ ?_
  · intro k e he
    rw [init_entry] at he
    cases he
  rintro log s c s' hrun ih hs k e' he' hq
  have hI := inv_of_run hrun
  rcases (hI.handled hs).inversion he' with ⟨hoff, he⟩ | ⟨kev, e, hat, rfl⟩
  · exact (ih k e' he hq).off hI hs hoff
  cases ht : kev.touches s.inner.defaults c.now e with
  | true => exact dated_touched hrun hs hat ht hq
  | false =>
      have he : s.inner.entry k = some e := by
        rcases (hI.subject hat.subject).2.2.2 with he | ⟨-, -, hc⟩
        · exact he
        · rw [KeyEvent.touches_of_creates hc] at ht
          cases ht
      rw [Inner.after_quiescent, KeyEvent.react_untouched ht] at hq
      exact (ih k e he hq).untouched hI hs hat ht

end run

end Shell

/-! ## Timed runs -/

/-- The shell, the timers that have not fired, and the time of the last call. -/
structure Timed (V F : Type) where
  shell : Shell V F
  pending : List Timer
  clock : Instant

/-- One call of `handle`, and the timer it stems from. -/
structure Tick (V F : Type) where
  call : Call V F
  fired : Option Timer

namespace Timed

/-- What a timer event echoes of its timer. -/
def echo : Event V F → Option (QueryKey × TimerKind × Nat)
  | .timerFired key kind generation => some (key, kind, generation)
  | _ => none

/-- A timer event stems from a pending timer whose deadline has come; no other event stems from a
timer. Source: `client.rs`, `Shared::run_effects`, the `ScheduleTimer` arm. -/
def Fires (s : Timed V F) (now : Instant) (ev : Event V F) (fired : Option Timer) : Prop :=
  echo ev = fired.map (fun t => (t.key, t.kind, t.generation)) ∧
    ∀ t ∈ fired, t ∈ s.pending ∧ t.deadline ≤ now

instance (s : Timed V F) (now : Instant) (ev : Event V F) (fired : Option Timer) :
    Decidable (s.Fires now ev fired) :=
  inferInstanceAs (Decidable (_ ∧ _))

/-- The timed shell after a call. -/
def next (s : Timed V F) (shell : Shell V F) (l : Tick V F) : Timed V F where
  shell := shell
  pending := s.pending.diff l.fired.toList ++ Effect.timers shell.inner l.call.out.effects
  clock := l.call.now

/-- One step: a call whose time is not before the last one; a timer fires at most once. -/
structure Step [Platform] (s : Timed V F) (l : Tick V F) (s' : Timed V F) : Prop where
  shell : Shell.Step s.shell l.call s'.shell
  clock : s.clock ≤ l.call.now
  fires : s.Fires l.call.now l.call.event l.fired
  next : s' = s.next s'.shell l

/-- The same step with a clock that may go back. -/
structure Move [Platform] (s : Timed V F) (l : Tick V F) (s' : Timed V F) : Prop where
  shell : Shell.Step s.shell l.call s'.shell
  fires : s.Fires l.call.now l.call.event l.fired
  next : s' = s.next s'.shell l

theorem Step.move [Platform] {s s' : Timed V F} {l : Tick V F} (hs : Step s l s') : Move s l s' :=
  ⟨hs.shell, hs.fires, hs.next⟩

/-- The start of a fresh client. -/
def init (defaults : QueryOptions) : Timed V F := ⟨.init defaults, [], 0⟩

/-- Shell-produced runs with a non-decreasing clock. -/
abbrev Run [Platform] (defaults : QueryOptions) :
    List (Trace.Record (Timed V F) (Tick V F)) → Timed V F → Prop :=
  Trace.Run Step (init defaults)

/-- A step without its clock and timers. -/
abbrev untimed (r : Trace.Record (Timed V F) (Tick V F)) : Trace.Record (Shell V F) (Call V F) :=
  r.map Timed.shell Tick.call

section fencing

variable [Platform] {defaults : QueryOptions} {log : List (Trace.Record (Timed V F) (Tick V F))}
  {s : Timed V F}

theorem untimed_moves (h : Trace.Run Move (init defaults) log s) :
    Shell.Run defaults (log.map untimed) s.shell := by
  refine h.map (f := Timed.shell) (g := Tick.call) fun r hr => ?_
  obtain ⟨-, -, -, -, hs, -⟩ := h.of_mem hr
  exact hs.shell

theorem untimed_run (h : Run defaults log s) : Shell.Run defaults (log.map untimed) s.shell :=
  untimed_moves (h.mono fun _ _ _ hs => hs.move)

/-- A pending timer was scheduled. -/
theorem pending_moves (h : Trace.Run Move (init defaults) log s) :
    ∀ t ∈ s.pending, t ∈ s.shell.timers := by
  refine h.invariant (I := fun s : Timed V F => ∀ t ∈ s.pending, t ∈ s.shell.timers) nofun ?_
  intro s l s' ih hs t ht
  rw [hs.next] at ht
  rw [Shell.next_timers hs.shell]
  rcases List.mem_append.mp ht with ht | ht
  · exact List.mem_append_left _ (ih t (List.diff_subset _ _ ht))
  · exact List.mem_append_right _ ht

theorem pending_subset (h : Run defaults log s) : ∀ t ∈ s.pending, t ∈ s.shell.timers :=
  pending_moves (h.mono fun _ _ _ hs => hs.move)

/-- What a fired timer says about the event of its step. -/
theorem Fires.event {now : Instant} {ev : Event V F} {t : Timer} (h : s.Fires now ev (some t)) :
    ev = .timerFired t.key t.kind t.generation ∧ t ∈ s.pending ∧ t.deadline ≤ now := by
  obtain ⟨hecho, hmem, hd⟩ := And.imp_right (fun h => h t rfl) h
  cases ev with
  | timerFired key kind generation =>
      cases hecho
      exact ⟨rfl, hmem, hd⟩
  | _ => cases hecho

/-- A step that fires a timer is the event of the timer. -/
theorem Move.fired_key {s' : Timed V F} {l : Tick V F} (hs : Move s l s') {t : Timer}
    (hf : l.fired = some t) :
    l.call.event = .timerFired t.key t.kind t.generation ∧ t ∈ s.pending ∧
      t.deadline ≤ l.call.now :=
  Fires.event (hf ▸ hs.fires)

/-- The timers that do not fire stay pending, and the new ones come after them. -/
theorem Move.pending_filter {s' : Timed V F} {l : Tick V F} (hs : Move s l s') {p : Timer → Bool}
    (hp : ∀ t, l.fired = some t → p t = false) :
    s'.pending.filter p =
      s.pending.filter p ++ (Effect.timers s'.shell.inner l.call.out.effects).filter p := by
  rw [hs.next]
  show (s.pending.diff l.fired.toList ++ Effect.timers _ _).filter p = _
  rw [List.filter_append]
  congr 1
  cases hf : l.fired with
  | none => rfl
  | some t =>
      rw [Option.toList_some, List.diff_cons, List.diff_nil, ← List.erase_filter]
      refine List.erase_of_not_mem fun hmem => ?_
      rw [List.mem_filter, hp t hf] at hmem
      exact Bool.false_ne_true hmem.2

/-- The timer event is without effect, unless its timer was scheduled by the entry now stored under
its key and is the most recent one of its kind that this entry scheduled. -/
def Fenced (r : Trace.Record (Timed V F) (Tick V F)) : Prop :=
  ∀ t, r.label.fired = some t →
    (r.post.shell.inner ≠ r.pre.shell.inner ∨ r.label.call.out.effects ≠ []) →
      (∃ e, r.pre.shell.inner.entry t.key = some e ∧ t.incarnation = some e.incarnation) ∧
        Shell.Latest t r.pre.shell

/-- The timer that fires is left over from another incarnation of its key, while the entry now stored
there has reached the generation of the timer and answers it. -/
def Leftover (r : Trace.Record (Timed V F) (Tick V F)) : Prop :=
  ∃ t e, r.label.fired = some t ∧ r.pre.shell.inner.entry t.key = some e ∧
    t.incarnation ≠ some e.incarnation ∧ t.generation = e.generation t.kind ∧
    e.answers r.label.call.now t.kind = true

/-- **Timer fencing.** In every run with a non-decreasing clock, a timer event is fenced if and only
if its timer is no leftover that the rebuilt entry takes for its own. Where no leftover is taken, an
entry is only removed once the deadline has passed that the last event to touch it computed. -/
theorem timer_fencing (h : Run defaults log s) :
    (∀ r ∈ log, Fenced r ↔ ¬ Leftover r) ∧
      ∀ xs r ys, log = xs ++ r :: ys → ¬ Leftover r → ∀ k e,
        r.pre.shell.inner.entry k = some e → r.post.shell.inner.entry k = none →
          ∃ deadline, Shell.LastTouch k e (xs.map untimed) (some deadline) ∧
            deadline ≤ r.label.call.now := by
  constructor
  · intro r hr
    obtain ⟨xs, ys, -, hpre, hs, -⟩ := h.of_mem hr
    have hrun := untimed_run hpre
    constructor
    · rintro hf ⟨t, e, hfired, he, hinc, hg, hans⟩
      obtain ⟨hev, -, -⟩ := Fires.event (hfired ▸ hs.fires)
      have hchg := ((Shell.inv_of_run hrun).timer_changes hs.shell hev).mpr ⟨e, he, hg, hans⟩
      obtain ⟨⟨e', he', hinc'⟩, -⟩ := hf t hfired hchg
      rw [he] at he'
      cases he'
      exact hinc hinc'
    · intro hl t hfired hchg
      obtain ⟨hev, hmem, -⟩ := Fires.event (hfired ▸ hs.fires)
      obtain ⟨e, he, hg, hans⟩ := ((Shell.inv_of_run hrun).timer_changes hs.shell hev).mp hchg
      have hinc : t.incarnation = some e.incarnation := by
        by_contra hinc
        exact hl ⟨t, e, hfired, he, hinc, hg, hans⟩
      exact ⟨⟨e, he, hinc⟩,
        (Shell.rings_of_run hrun).latest (pending_subset hpre t hmem) he hinc hg⟩
  · rintro xs r ys rfl hl k e he hgone
    obtain ⟨hpre, hs, -⟩ := h.middle
    have hrun := untimed_run hpre
    obtain ⟨hev, hq⟩ := (Shell.inv_of_run hrun).removed hs.shell he hgone
    obtain ⟨t, hfired, -⟩ : ∃ t, r.label.fired = some t ∧ _ := by
      have hecho := hs.fires.1
      rw [hev] at hecho
      exact Option.map_eq_some_iff.mp hecho.symm
    obtain ⟨hev', hmem, hd⟩ := Fires.event (hfired ▸ hs.fires)
    rw [hev] at hev'
    injection hev' with hk hkind hg
    rw [hk] at he
    have hinc : t.incarnation = some e.incarnation := by
      by_contra hinc
      refine hl ⟨t, e, hfired, he, hinc, ?_, ?_⟩
      · rw [← hkind]
        exact hg.symm
      · rw [← hkind]
        exact hq
    obtain ⟨deadline, hlast, htimers⟩ := Shell.lastTouch_of_run hrun t.key e he hq
    have hsched : t ∈ r.pre.shell.scheduled t.key .gc e.incarnation :=
      Shell.mem_scheduled.mpr ⟨pending_subset hpre t hmem, rfl, hkind.symm, hinc⟩
    rw [htimers t hsched hg.symm] at hlast
    rw [hk]
    exact ⟨t.deadline, hlast, hd⟩

end fencing

/-! ## A leftover -/

/-- Feed one event, with the timer it stems from, if the shell may. -/
def exec1 [Platform] (s : Timed V F) (i : Event V F × Instant × List QueryKey × Option Timer) :
    Option (Tick V F × Timed V F) :=
  if s.clock ≤ i.2.1 ∧ s.Fires i.2.1 i.1 i.2.2.2 then
    match s.shell.exec1 i.1 i.2.1 i.2.2.1 with
    | some (c, shell) => some (⟨c, i.2.2.2⟩, s.next shell ⟨c, i.2.2.2⟩)
    | none => none
  else none

theorem step_of_exec1 [Platform] {s s' : Timed V F} {l : Tick V F}
    {i : Event V F × Instant × List QueryKey × Option Timer} (h : s.exec1 i = some (l, s')) :
    Step s l s' := by
  unfold exec1 at h
  split_ifs at h with hen
  cases hh : s.shell.exec1 i.1 i.2.1 i.2.2.1 with
  | none =>
      rw [hh] at h
      cases h
  | some r =>
      rw [hh] at h
      cases h
      obtain ⟨h₁, h₂, -⟩ := Shell.call_of_exec1 hh
      exact ⟨Shell.step_of_exec1 hh, h₂.symm ▸ hen.1, h₁.symm ▸ h₂.symm ▸ hen.2, rfl⟩

/-- An execution is a run. -/
theorem run_of_exec [Platform] {s s' : Timed V F}
    {inputs : List (Event V F × Instant × List QueryKey × Option Timer)}
    {log : List (Trace.Record (Timed V F) (Tick V F))}
    (h : Trace.exec exec1 s inputs = some (log, s')) : Trace.Run Step s log s' := by
  have hstep : ∀ (s : Timed V F) i l s', exec1 s i = some (l, s') → Step s l s' :=
    fun _ _ _ _ h => step_of_exec1 h
  exact Trace.run_of_exec hstep h

section witness

attribute [local instance] Shell.exampleClock

/-- An entry is set, and removed by the timer of its short-lived subscription while the timer of the
set is still pending; it is set again, and the timer of the first set fires. -/
def leftoverRun : List (Event Nat Unit × Instant × List QueryKey × Option Timer) :=
  let key : QueryKey := ⟨0, []⟩
  let brief : QueryOptions := { QueryOptions.default with gcTime := Duration.fromSecs 1 }
  [(.mutateSet key 1, 0, [], none),
   (.subscribe key none none brief, 0, [], none),
   (.unsubscribe key 0, Duration.fromSecs 1, [], none),
   (.timerFired key .gc 3, Duration.fromSecs 2, [],
     some ⟨key, .gc, Duration.fromSecs 2, 3, some 0⟩),
   (.mutateSet key 2, Duration.fromSecs 10, [], none),
   (.timerFired key .gc 1, Duration.fromSecs 300, [],
     some ⟨key, .gc, Duration.fromSecs 300, 1, some 0⟩)]

set_option synthInstance.maxSize 512 in
/-- The records of the run that fire a timer. -/
theorem leftoverRun_runs : ∃ (xs : List (Trace.Record (Timed Nat Unit) (Tick Nat Unit)))
    (d m r : Trace.Record (Timed Nat Unit) (Tick Nat Unit)) (s : Timed Nat Unit)
    (e e' : EntryCore Nat Unit), Run .default (xs ++ [d, m, r]) s ∧
      d.pre.shell.inner.entry ⟨0, []⟩ = some e ∧ d.post.shell.inner.entry ⟨0, []⟩ = none ∧
      e.incarnation = 0 ∧ d.label.fired = some ⟨⟨0, []⟩, .gc, Duration.fromSecs 2, 3, some 0⟩ ∧
      r.pre.shell.inner.entry ⟨0, []⟩ = some e' ∧ r.post.shell.inner.entry ⟨0, []⟩ = none ∧
      e'.incarnation = 1 ∧ r.label.fired = some ⟨⟨0, []⟩, .gc, Duration.fromSecs 300, 1, some 0⟩ ∧
      r.label.call.now = Duration.fromSecs 300 ∧
      (r.pre.shell.scheduled ⟨0, []⟩ .gc 1).getLast? =
        some ⟨⟨0, []⟩, .gc, Duration.fromSecs 310, 1, some 1⟩ := by
  let key : QueryKey := ⟨0, []⟩
  have hobs : ((Trace.exec exec1 (init .default) leftoverRun).map fun r => (r.1.drop 3).map fun r =>
      ((r.pre.shell.inner.entry key).map EntryCore.incarnation,
        (r.post.shell.inner.entry key).isSome, r.label.fired, r.label.call.now,
        (r.pre.shell.scheduled key .gc 1).getLast?)) =
      some [(some 0, false, some ⟨key, .gc, Duration.fromSecs 2, 3, some 0⟩, Duration.fromSecs 2,
          none),
        (none, true, none, Duration.fromSecs 10, none),
        (some 1, false, some ⟨key, .gc, Duration.fromSecs 300, 1, some 0⟩, Duration.fromSecs 300,
          some ⟨key, .gc, Duration.fromSecs 310, 1, some 1⟩)] := by decide +kernel
  obtain ⟨⟨log, s⟩, hex, hobs⟩ := Option.map_eq_some_iff.mp hobs
  have hrun : Run .default log s := run_of_exec hex
  obtain ⟨d, rest, hlog, hd, hobs⟩ := List.map_eq_cons_iff.mp hobs
  obtain ⟨m, rest, rfl, -, hobs⟩ := List.map_eq_cons_iff.mp hobs
  obtain ⟨r, rest, rfl, hr, hobs⟩ := List.map_eq_cons_iff.mp hobs
  obtain rfl := List.map_eq_nil_iff.mp hobs
  simp only [Prod.mk.injEq, Option.isSome_eq_false_iff, Option.isNone_iff_eq_none] at hd hr
  obtain ⟨hde, hdg, hdf, -⟩ := hd
  obtain ⟨hre, hrg, hrf, hrn, hrs⟩ := hr
  obtain ⟨e, he, hi⟩ := Option.map_eq_some_iff.mp hde
  obtain ⟨e', he', hi'⟩ := Option.map_eq_some_iff.mp hre
  rw [← List.take_append_drop 3 log, hlog] at hrun
  exact ⟨_, d, m, r, s, e, e', hrun, he, hdg, hi, hdf, he', hrg, hi', hrf, hrn, hrs⟩

/-- **A leftover removes a rebuilt entry.** The timer of a removed entry fires with the generation of
the entry that was built after it, and removes it ten seconds before its deadline. -/
theorem leftover_removes : ∃ (log : List (Trace.Record (Timed Nat Unit) (Tick Nat Unit)))
    (s : Timed Nat Unit) (r : Trace.Record (Timed Nat Unit) (Tick Nat Unit))
    (e : EntryCore Nat Unit) (t : Timer), Run .default log s ∧ r ∈ log ∧ ¬ Fenced r ∧
      r.pre.shell.inner.entry ⟨0, []⟩ = some e ∧ r.post.shell.inner.entry ⟨0, []⟩ = none ∧
      (r.pre.shell.scheduled ⟨0, []⟩ .gc e.incarnation).getLast? = some t ∧
      r.label.call.now < t.deadline := by
  obtain ⟨xs, d, m, r, s, -, e, hrun, -, -, -, -, he, hgone, hinc, hfired, hnow, hlast⟩ :=
    leftoverRun_runs
  refine ⟨_, s, r, e, _, hrun, by simp, fun hf => ?_, he, hgone, by rw [hinc]; exact hlast, ?_⟩
  · have hchg : r.post.shell.inner ≠ r.pre.shell.inner := by
      intro heq
      rw [heq, he] at hgone
      cases hgone
    obtain ⟨⟨e', he', hinc'⟩, -⟩ := hf _ hfired (.inl hchg)
    rw [he] at he'
    cases he'
    rw [hinc] at hinc'
    cases hinc'
  · rw [hnow]
    decide

theorem timer_fencing_example : ∃ (log : List (Trace.Record (Timed Nat Unit) (Tick Nat Unit)))
    (s : Timed Nat Unit), Run .default log s ∧ (∀ r ∈ log, Fenced r ↔ ¬ Leftover r) ∧
      ∃ xs r ys e deadline, log = xs ++ r :: ys ∧
        r.post.shell.inner.entry ⟨0, []⟩ = none ∧
        Shell.LastTouch ⟨0, []⟩ e (xs.map untimed) (some deadline) ∧
        deadline ≤ r.label.call.now := by
  obtain ⟨xs, d, m, r, s, e, -, hrun, he, hgone, hinc, hfired, -⟩ := leftoverRun_runs
  obtain ⟨hiff, hremoved⟩ := timer_fencing hrun
  have hl : ¬ Leftover d := by
    rintro ⟨t, e', hf, he', hne, -, -⟩
    rw [hfired] at hf
    cases hf
    rw [he] at he'
    cases he'
    exact hne (congrArg some hinc.symm)
  obtain ⟨deadline, hlast, hle⟩ := hremoved xs d [m, r] rfl hl _ e he hgone
  exact ⟨_, s, hrun, hiff, xs, d, _, e, deadline, rfl, hgone, hlast, hle⟩

end witness

end Timed

end SwrCore
