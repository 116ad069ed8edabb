import SwrCore.Cell.Handled

/-!
# The timers of one entry

A timer carries no more than its kind and a generation. The post-rules count the generation of a kind
up whenever they schedule a timer of it, so that only the latest one is still answered.

* `EntryCore.generation` — the generation a timer must carry to be answered.
* `EntryCore.alarm` — the timer the post-rules schedule; `timers_eq_alarms`.
* `EntryCore.answers` — whether the entry does anything about a timer of its generation.
* `KeyEvent.react_untouched` — an event that does not touch the entry leaves it as it is.
* `KeyEvent.options` — what an event makes of the options; `opts_react`.
* `KeyEvent.timer_ignored`, `KeyEvent.timer_answered` — the two ways a timer event can go.
-/

set_option linter.unusedSectionVars false

namespace SwrCore

variable {V F : Type} [Platform]

namespace EntryCore

/-- The generation a timer of this kind must carry to be answered. -/
def generation (e : EntryCore V F) : TimerKind → Nat
  | .gc => e.gcGen
  | .refresh => e.refreshGen

/-- The deadline of the timer of this kind that the post-rules schedule, if they schedule one. -/
def alarm (e : EntryCore V F) (defaults : QueryOptions) (now : Instant) (m : Marks V F) :
    TimerKind → Option Instant
  | .gc =>
    if m.touched && e.isQuiescent then Instant.checkedAdd now (e.opts.gcTime defaults.gcTime)
    else none
  | .refresh => if m.refresh && decide (0 < e.subscribers) then e.refreshAt now else none

/-- Whether the entry does anything about a timer of its generation: an idle entry is removed, a
subscribed one starts a fetch or re-arms. -/
def answers (e : EntryCore V F) (now : Instant) : TimerKind → Bool
  | .gc => e.isQuiescent
  | .refresh => decide (0 < e.subscribers) && (e.canStartFetch || (e.refreshAt now).isSome)

/-! ## The post-rules -/

variable (e : EntryCore V F) (now : Instant) (m : Marks V F)

/-- The GC rule counts the generation up where it runs on an idle entry. -/
theorem gcGen_settled :
    (e.settled now m).gcGen = if m.touched && e.isQuiescent then e.gcGen + 1 else e.gcGen := by
  unfold settled refreshArmed gcArmed notified
  cases m.touched <;> cases e.isQuiescent <;> simp only [Bool.and_true, Bool.and_false,
    Bool.false_eq_true, if_true, if_false] <;> split_ifs <;> rfl

/-- The refresh rule counts it up, unless there are subscribers and nothing to schedule. -/
theorem refreshGen_settled :
    (e.settled now m).refreshGen =
      if m.refresh && !(decide (0 < e.subscribers) && (e.refreshAt now).isNone) then
        e.refreshGen + 1
      else e.refreshGen := by
  have hgc : ∀ b : Bool, ∃ g, (if b then e.gcArmed else e) = { e with gcGen := g } := by
    intro b
    unfold gcArmed
    split_ifs
    · exact ⟨_, rfl⟩
    · exact ⟨e.gcGen, rfl⟩
    · exact ⟨e.gcGen, rfl⟩
  obtain ⟨g, hg⟩ := hgc m.touched
  have hat : ({ e with gcGen := g } : EntryCore V F).refreshAt now = e.refreshAt now := rfl
  unfold settled refreshArmed notified
  simp only [hg, hat]
  cases m.refresh with
  | false =>
      simp only [Bool.false_and, Bool.false_eq_true, if_false]
      split_ifs <;> rfl
  | true =>
      by_cases hs : 0 < e.subscribers ∧ e.refreshAt now = none
      · simp only [hs, and_self, if_true, decide_true, Option.isNone_none, Bool.and_self,
          Bool.not_true, Bool.and_false, Bool.false_eq_true, if_false]
        split_ifs <;> rfl
      · have hn : (decide (0 < e.subscribers) && (e.refreshAt now).isNone) = false := by
          rw [Bool.eq_false_iff]
          intro h
          rw [Bool.and_eq_true, decide_eq_true_eq, Option.isNone_iff_eq_none] at h
          exact hs h
        simp only [if_neg hs, hn, if_true, Bool.not_false, Bool.and_self]
        split_ifs <;> rfl

/-- The post-rules never count a generation down. -/
theorem generation_le_settled (kind : TimerKind) :
    e.generation kind ≤ (e.settled now m).generation kind := by
  cases kind with
  | gc =>
      show e.gcGen ≤ (e.settled now m).gcGen
      rw [gcGen_settled]
      split_ifs <;> omega
  | refresh =>
      show e.refreshGen ≤ (e.settled now m).refreshGen
      rw [refreshGen_settled]
      split_ifs <;> omega

/-- A scheduled timer carries a generation of its own. -/
theorem generation_of_alarm {defaults : QueryOptions} {kind : TimerKind} {deadline : Instant}
    (h : e.alarm defaults now m kind = some deadline) :
    (e.settled now m).generation kind = e.generation kind + 1 := by
  cases kind with
  | gc =>
      simp only [alarm, Option.ite_none_right_eq_some] at h
      show (e.settled now m).gcGen = e.gcGen + 1
      rw [gcGen_settled, if_pos h.1]
  | refresh =>
      simp only [alarm, Option.ite_none_right_eq_some, Bool.and_eq_true] at h
      show (e.settled now m).refreshGen = e.refreshGen + 1
      rw [refreshGen_settled, if_pos]
      simp [h.1.1, h.1.2, h.2]

/-- The timers of the post-rules are the alarms of the two kinds. -/
theorem timers_eq_alarms (defaults : QueryOptions) (k : QueryKey) :
    e.timers defaults now k m = [TimerKind.gc, .refresh].flatMap fun kind =>
      (e.alarm defaults now m kind).toList.map fun deadline =>
        .scheduleTimer k kind deadline (e.generation kind + 1) := by
  have hgc : (if m.touched then e.gcTimer defaults now k else []) =
      (e.alarm defaults now m .gc).toList.map fun deadline =>
        .scheduleTimer k .gc deadline (e.generation .gc + 1) := by
    unfold gcTimer alarm
    cases m.touched <;> cases e.isQuiescent <;> rfl
  have hrefresh : (if m.refresh then (if m.touched then e.gcArmed else e).refreshTimer now k
      else []) = (e.alarm defaults now m .refresh).toList.map fun deadline =>
        .scheduleTimer k .refresh deadline (e.generation .refresh + 1) := by
    have hframe : (if m.touched then e.gcArmed else e).refreshTimer now k =
        e.refreshTimer now k := by
      unfold gcArmed
      split_ifs <;> rfl
    rw [hframe]
    unfold refreshTimer alarm
    cases m.refresh <;> by_cases hs : 0 < e.subscribers <;> simp [hs, generation]
  rw [timers, hgc, hrefresh]
  simp

/-! ## The handlers -/

/-- No handler counts a generation down. -/
theorem generation_le_react (defaults : QueryOptions) (kev : KeyEvent V F) (kind : TimerKind) :
    e.generation kind ≤ (kev.react defaults now e).generation kind := by
  have happly : e.gcGen ≤ (kev.apply defaults now e).gcGen := by
    -- Only a subscription counts it up.
    refine KeyEvent.apply_frame (P := fun e' => e.gcGen ≤ e'.gcGen) ?_ (fun _ => ?_) defaults now
    · cases kev with
      | subscribe subId fetcher compare opts => exact Nat.le_succ _
      | _ => exact le_refl e.gcGen
    · intros
      exact le_refl e.gcGen
  cases kind with
  | gc =>
      show e.gcGen ≤ (kev.react defaults now e).gcGen
      unfold KeyEvent.react
      split_ifs <;> exact happly
  | refresh => exact (SameFrame.react defaults now e kev).refreshGen.ge

end EntryCore

/-- An event that does not touch an entry leaves it as it is. -/
theorem KeyEvent.react_untouched {defaults : QueryOptions} {now : Instant} {e : EntryCore V F}
    {kev : KeyEvent V F} (h : kev.touches defaults now e = false) :
    kev.react defaults now e = e := by
  cases kev with
  | revalidateRequested =>
      have hf : e.canStartFetch = false := by
        have hf : e.fetcher.isSome = false := h
        simp [EntryCore.canStartFetch, hf]
      simp [KeyEvent.react, KeyEvent.starts, KeyEvent.apply, hf]
  | commitOk incarnation seq value =>
      have hd : e.dropsCommit incarnation seq = true := by simpa [KeyEvent.touches] using h
      simp [KeyEvent.react, KeyEvent.starts, KeyEvent.wants, KeyEvent.apply, hd]
  | commitErr incarnation seq error =>
      have hd : e.dropsCommit incarnation seq = true := by simpa [KeyEvent.touches] using h
      simp [KeyEvent.react, KeyEvent.starts, KeyEvent.wants, KeyEvent.apply, hd]
  | broadcast ev =>
      have hh : e.heeds defaults ev now = false := h
      simp [KeyEvent.react, KeyEvent.starts, KeyEvent.wants, KeyEvent.apply, hh]
  | timerFired kind generation =>
      cases kind with
      | gc => rfl
      | refresh =>
          have hs : (KeyEvent.timerFired .refresh generation : KeyEvent V F).starts defaults now e =
              false := by
            rw [← h]
            rfl
          rw [KeyEvent.react, hs]
          rfl
  | _ => cases h

/-! ## The options -/

/-- The options of an entry after an event: only reads, subscriptions and their ends change them. -/
def KeyEvent.options (o : EntryOptions) : KeyEvent V F → EntryOptions
  | .read _ _ _ opts => { o with lastTouchGcTime := some opts.gcTime }
  | .subscribe subId _ _ opts => ⟨o.subs.insert subId opts, some opts.gcTime⟩
  | .unsubscribe subId => { o with subs := o.subs.erase subId }
  | _ => o

/-- The handlers change the options as `KeyEvent.options` says, … -/
theorem KeyEvent.opts_react (defaults : QueryOptions) (now : Instant) (e : EntryCore V F)
    (kev : KeyEvent V F) : (kev.react defaults now e).opts = kev.options e.opts := by
  have hreceived : (kev.received e).opts = kev.options e.opts := by
    cases kev <;> rfl
  have happly : (kev.apply defaults now e).opts = kev.options e.opts := by
    refine KeyEvent.apply_frame (P := fun e' => e'.opts = kev.options e.opts) hreceived
      (fun hsame => ?_) defaults now
    rw [hsame] at hreceived
    intros
    exact hreceived
  unfold KeyEvent.react
  split_ifs <;> exact happly

/-- … and the stages after them not at all. -/
theorem Inner.after_opts (s : Inner V F) (now : Instant) (k : QueryKey) (kev : KeyEvent V F)
    (e : EntryCore V F) : (s.after now k kev e).opts = kev.options e.opts := by
  rw [Inner.after_of (f := EntryCore.opts) (fun _ _ _ _ => rfl), KeyEvent.opts_react]

/-- Whether an entry is idle is decided by the handler. -/
theorem Inner.after_quiescent (s : Inner V F) (now : Instant) (k : QueryKey) (kev : KeyEvent V F)
    (e : EntryCore V F) :
    (s.after now k kev e).isQuiescent = (kev.react s.defaults now e).isQuiescent :=
  Inner.after_of (f := EntryCore.isQuiescent) (fun _ _ _ _ => rfl) k kev e

/-- The GC generation after an event. -/
theorem Inner.after_gcGen (s : Inner V F) (now : Instant) (k : QueryKey) (kev : KeyEvent V F)
    (e : EntryCore V F) : (s.after now k kev e).gcGen =
      if kev.touches s.defaults now e && (kev.react s.defaults now e).isQuiescent then
        (kev.react s.defaults now e).gcGen + 1
      else (kev.react s.defaults now e).gcGen :=
  EntryCore.gcGen_settled _ _ _

/-- An event that creates an entry touches it. -/
theorem KeyEvent.touches_of_creates {kev : KeyEvent V F} (h : kev.creates = true)
    (defaults : QueryOptions) (now : Instant) (e : EntryCore V F) :
    kev.touches defaults now e = true := by
  cases kev <;> first | rfl | cases h

/-! ## Timer events -/

section fired

variable {e : EntryCore V F} (defaults : QueryOptions) {now : Instant} (k : QueryKey)
  {kind : TimerKind} {generation : Nat}

/-- A timer of another generation, or one the entry does not answer, is without effect. -/
theorem KeyEvent.timer_ignored
    (h : ¬ (generation = e.generation kind ∧ e.answers now kind = true)) :
    let kev : KeyEvent V F := .timerFired kind generation
    let m := kev.marks defaults now k e
    kev.removes e = false ∧ (kev.react defaults now e).settled now m = e ∧
      (kev.react defaults now e).batch defaults now k m = [] := by
  intro kev m
  cases kind with
  | gc =>
      refine ⟨?_, rfl, rfl⟩
      by_contra hr
      have hr : (decide (generation = e.gcGen) && e.isQuiescent) = true :=
        Bool.eq_true_of_not_eq_false hr
      rw [Bool.and_eq_true, decide_eq_true_eq] at hr
      exact h hr
  | refresh =>
      -- Either the guards before the busy check fail, or there is nothing to re-arm.
      have hidle : (decide (generation = e.refreshGen) && e.isActive && e.canStartFetch) = false :=
        by
        rw [Bool.eq_false_iff]
        intro hb
        simp only [Bool.and_eq_true, decide_eq_true_eq] at hb
        exact h ⟨hb.1.1, by simp [EntryCore.answers, of_decide_eq_true hb.1.2, hb.2]⟩
      have hst : kev.starts defaults now e = false := by
        simpa [kev, KeyEvent.starts, KeyEvent.wants, KeyEvent.apply] using hidle
      have hreact : kev.react defaults now e = e := by
        rw [KeyEvent.react, hst]
        rfl
      have hm : m = ⟨[], false, false, decide (generation = e.refreshGen) && e.isActive⟩ := by
        simpa [m, kev, KeyEvent.marks, KeyEvent.touches, KeyEvent.notifies, KeyEvent.rearms, hst]
          using hidle
      rw [hreact, hm]
      refine ⟨rfl, ?_⟩
      cases hb : decide (generation = e.refreshGen) && e.isActive with
      | false => exact ⟨rfl, rfl⟩
      | true =>
          rw [Bool.and_eq_true, decide_eq_true_eq] at hb
          have hsub : 0 < e.subscribers := of_decide_eq_true hb.2
          have hnone : e.refreshAt now = none := by
            by_contra hat
            refine h ⟨hb.1, ?_⟩
            simp [EntryCore.answers, hsub, Option.isSome_iff_ne_none.mpr hat]
          simp [EntryCore.settled, EntryCore.batch, EntryCore.timers, EntryCore.refreshArmed,
            EntryCore.refreshTimer, hsub, hnone]

/-- A refresh timer that is answered starts a fetch or schedules its successor. -/
theorem KeyEvent.timer_answered (hg : generation = e.refreshGen)
    (ha : e.answers now .refresh = true) :
    let kev : KeyEvent V F := .timerFired .refresh generation
    (kev.react defaults now e).batch defaults now k (kev.marks defaults now k e) ≠ [] := by
  intro kev
  obtain ⟨hsub, hor⟩ := (Bool.and_eq_true _ _).mp ha
  have hactive : e.isActive = true := hsub
  have hst : kev.starts defaults now e = e.canStartFetch := by
    simp [kev, KeyEvent.starts, KeyEvent.wants, KeyEvent.apply, hg, hactive]
  cases hc : e.canStartFetch with
  | true =>
      obtain ⟨fetcher, hf⟩ := Option.isSome_iff_exists.mp (canStartFetch_iff.mp hc).1
      have hmem : (.startFetch k e.incarnation (e.seq + 1) fetcher : Effect V F) ∈
          (kev.marks defaults now k e).effects :=
        Inner.startFetch_mem_marks.mpr ⟨hst.trans hc, rfl, rfl, rfl, hf⟩
      exact List.ne_nil_of_mem (Inner.mem_batch.mpr (.inl hmem))
  | false =>
      rw [hc, Bool.false_or] at hor
      obtain ⟨deadline, hd⟩ := Option.isSome_iff_exists.mp hor
      have hreact : kev.react defaults now e = e := by
        rw [KeyEvent.react, hst, hc]
        rfl
      have hr : (kev.marks defaults now k e).refresh = true := by
        simp [kev, KeyEvent.marks, KeyEvent.rearms, hg, hactive]
      have halarm : e.alarm defaults now (kev.marks defaults now k e) .refresh = some deadline := by
        simp [EntryCore.alarm, hr, hd, of_decide_eq_true hsub]
      have hmem : (.scheduleTimer k .refresh deadline (e.refreshGen + 1) : Effect V F) ∈
          e.timers defaults now k (kev.marks defaults now k e) := by
        rw [e.timers_eq_alarms]
        simp [halarm, EntryCore.generation]
      rw [hreact]
      exact List.ne_nil_of_mem (Inner.mem_batch.mpr (.inr (.inl hmem)))

end fired

end SwrCore
