import SwrCore.Cell.React

/-!
# Projection to one key: what the handlers do to each entry

The handlers act on every key separately: the entry of a key after an event, and what the event
marks for it, depend on nothing but the entry of that key before the event.

* `Effect.key`, `Effect.of` — the effects of a batch that concern a key.
* `Ctx.slice` — the part of the working set that concerns a key, with its law `slice_mark`.
* `EntryCore.settled`, `EntryCore.batch` — the post-rules and the notify flush on one entry.
* `Inner.forEntries_spec` — a loop over distinct keys runs its body on each of them once.
* `Inner.cell` — an event on one key.
* `Inner.Accepts` — the assertions an event makes.
* `Inner.react_ok` — the stage of the handlers, one key at a time.
-/

set_option linter.unusedSectionVars false

namespace SwrCore

variable {V F : Type}

/-! ## The effects and the marks of one key -/

/-- The key an effect concerns. -/
def Effect.key : Effect V F → QueryKey
  | .startFetch key _ _ _ => key
  | .notify tx _ => tx.key
  | .scheduleTimer key _ _ _ => key

/-- The effects of a batch that concern the key `k`, in their order. -/
def Effect.of (k : QueryKey) (effects : List (Effect V F)) : List (Effect V F) :=
  effects.filter fun x => decide (x.key = k)

theorem Effect.of_append (k : QueryKey) (xs ys : List (Effect V F)) :
    Effect.of k (xs ++ ys) = Effect.of k xs ++ Effect.of k ys :=
  List.filter_append ..

/-- Which effects concern the key. -/
theorem Effect.mem_of {k : QueryKey} {effects : List (Effect V F)} {x : Effect V F} :
    x ∈ Effect.of k effects ↔ x ∈ effects ∧ x.key = k := by
  simp [Effect.of]

theorem Effect.of_self {k : QueryKey} {effects : List (Effect V F)}
    (h : ∀ x ∈ effects, x.key = k) : Effect.of k effects = effects := by
  rw [Effect.of, List.filter_eq_self]
  intro x hx
  exact decide_eq_true (h x hx)

theorem Effect.of_other {k key : QueryKey} {effects : List (Effect V F)}
    (h : ∀ x ∈ effects, x.key = key) (hne : key ≠ k) : Effect.of k effects = [] := by
  rw [Effect.of, List.filter_eq_nil_iff]
  intro x hx
  rw [decide_eq_true_eq, h x hx]
  exact hne

namespace Marks

/-- No mark. -/
def none : Marks V F := ⟨[], false, false, false⟩

/-- Marks added up. -/
def add (m m' : Marks V F) : Marks V F where
  effects := m.effects ++ m'.effects
  touched := m.touched || m'.touched
  notify := m.notify || m'.notify
  refresh := m.refresh || m'.refresh

@[simp] theorem none_add (m : Marks V F) : none.add m = m := by
  simp [none, add]

@[simp] theorem add_none (m : Marks V F) : m.add none = m := by
  simp [none, add]

/-- All effects of the marks concern the key. -/
def Of (key : QueryKey) (m : Marks V F) : Prop := ∀ x ∈ m.effects, x.key = key

end Marks

/-- The part of the working set that concerns the key `k`. -/
def Ctx.slice (ctx : Ctx V F) (k : QueryKey) : Marks V F where
  effects := Effect.of k ctx.effects
  touched := decide (k ∈ ctx.touched)
  notify := decide (k ∈ ctx.notify)
  refresh := decide (k ∈ ctx.refreshChanged)

/-- The key lists of the working set hold no key twice. -/
structure Ctx.Wf (ctx : Ctx V F) : Prop where
  notify : ctx.notify.Nodup
  touched : ctx.touched.Nodup
  refresh : ctx.refreshChanged.Nodup

/-- A key is marked once it was added. -/
theorem Ctx.mem_addKey {keys : List QueryKey} {key k : QueryKey} :
    k ∈ Ctx.addKey keys key ↔ k ∈ keys ∨ k = key := by
  unfold Ctx.addKey
  split_ifs with h
  · constructor
    · exact Or.inl
    · rintro (hk | rfl)
      · exact hk
      · exact h
  · simp

/-- No key is marked twice. -/
theorem Ctx.nodup_addKey {keys : List QueryKey} (h : keys.Nodup) (key : QueryKey) :
    (Ctx.addKey keys key).Nodup := by
  unfold Ctx.addKey
  split_ifs with hk
  · exact h
  · exact List.Nodup.append h (List.nodup_singleton key) (by simpa using hk)

@[simp] theorem Ctx.slice_empty (k : QueryKey) : (Ctx.empty : Ctx V F).slice k = Marks.none := by
  simp [Ctx.slice, Ctx.empty, Marks.none, Effect.of]

/-- A handler starts without marks. -/
theorem Ctx.wf_empty : (Ctx.empty : Ctx V F).Wf := ⟨.nil, .nil, .nil⟩

/-- Marking keeps the lists of keys free of repetitions. -/
theorem Ctx.Wf.mark {ctx : Ctx V F} (h : ctx.Wf) (key : QueryKey) (m : Marks V F) :
    (ctx.mark key m).Wf := by
  unfold Ctx.mark
  refine ⟨?_, ?_, ?_⟩
  · simp only
    split_ifs
    · exact Ctx.nodup_addKey h.notify key
    · exact h.notify
  · simp only
    split_ifs
    · exact Ctx.nodup_addKey h.touched key
    · exact h.touched
  · simp only
    split_ifs
    · exact Ctx.nodup_addKey h.refresh key
    · exact h.refresh

/-- Marks of one key reach the slice of that key only. -/
theorem Ctx.slice_mark (ctx : Ctx V F) {key : QueryKey} {m : Marks V F} (hm : m.Of key)
    (k : QueryKey) :
    (ctx.mark key m).slice k = if key = k then (ctx.slice k).add m else ctx.slice k := by
  split_ifs with hk
  · subst hk
    simp only [Ctx.slice, Ctx.mark, Marks.add, Effect.of_append, Effect.of_self hm]
    congr 1 <;> split_ifs with hb <;> simp [hb, Ctx.mem_addKey]
  · have hk' : k ≠ key := fun h => hk h.symm
    simp only [Ctx.slice, Ctx.mark, Effect.of_append, Effect.of_other hm hk, List.append_nil]
    congr 1 <;> split_ifs <;> simp [Ctx.mem_addKey, hk']

/-! ## The post-rules on one entry -/

namespace EntryCore

/-- The entry after the GC rule. -/
def gcArmed (e : EntryCore V F) : EntryCore V F :=
  if e.isQuiescent then { e with gcGen := e.gcGen + 1 } else e

/-- The GC timer the GC rule schedules. -/
def gcTimer [Platform] (e : EntryCore V F) (defaults : QueryOptions) (now : Instant)
    (key : QueryKey) : List (Effect V F) :=
  if e.isQuiescent then
    (Instant.checkedAdd now (e.opts.gcTime defaults.gcTime)).toList.map fun deadline =>
      .scheduleTimer key .gc deadline (e.gcGen + 1)
  else []

/-- The deadline of the next refresh, if there is to be one. -/
def refreshAt [Platform] (e : EntryCore V F) (now : Instant) : Option Instant :=
  e.opts.refreshInterval.bind fun interval => Instant.checkedAdd now interval

/-- The entry after the refresh rule. -/
def refreshArmed [Platform] (e : EntryCore V F) (now : Instant) : EntryCore V F :=
  if 0 < e.subscribers ∧ e.refreshAt now = none then e
  else { e with refreshGen := e.refreshGen + 1 }

/-- The refresh timer the refresh rule schedules. -/
def refreshTimer [Platform] (e : EntryCore V F) (now : Instant) (key : QueryKey) :
    List (Effect V F) :=
  if 0 < e.subscribers then
    (e.refreshAt now).toList.map fun deadline =>
      .scheduleTimer key .refresh deadline (e.refreshGen + 1)
  else []

/-- The entry after its notify flush. -/
def notified (e : EntryCore V F) : EntryCore V F := { e with snapVersion := e.snapVersion + 1 }

/-- The entry after the stages that follow the handler, given what the handler marked. -/
def settled [Platform] (e : EntryCore V F) (now : Instant) (m : Marks V F) : EntryCore V F :=
  let e := if m.touched then e.gcArmed else e
  let e := if m.refresh then e.refreshArmed now else e
  if m.notify then e.notified else e

/-- The stages after the handler only advance three counters. -/
theorem settled_eq [Platform] (e : EntryCore V F) (now : Instant) (m : Marks V F) :
    ∃ gcGen refreshGen version, e.settled now m =
      { e with gcGen := gcGen, refreshGen := refreshGen, snapVersion := version } := by
  have hgc : ∀ e : EntryCore V F, ∃ g, e.gcArmed = { e with gcGen := g } := by
    intro e
    unfold gcArmed
    split_ifs
    · exact ⟨_, rfl⟩
    · exact ⟨e.gcGen, rfl⟩
  have hrefresh : ∀ e : EntryCore V F, ∃ r, e.refreshArmed now = { e with refreshGen := r } := by
    intro e
    unfold refreshArmed
    split_ifs
    · exact ⟨e.refreshGen, rfl⟩
    · exact ⟨_, rfl⟩
  obtain ⟨_, touched, notify, refresh⟩ := m
  obtain ⟨g, hg⟩ : ∃ g, (if touched then e.gcArmed else e) = { e with gcGen := g } := by
    cases touched
    · exact ⟨e.gcGen, rfl⟩
    · exact hgc e
  obtain ⟨r, hr⟩ : ∃ r, (if refresh then ({ e with gcGen := g } : EntryCore V F).refreshArmed now
      else { e with gcGen := g }) = { e with gcGen := g, refreshGen := r } := by
    cases refresh
    · exact ⟨e.refreshGen, rfl⟩
    · exact hrefresh _
  unfold settled
  simp only [hg, hr]
  cases notify
  · exact ⟨g, r, e.snapVersion, rfl⟩
  · exact ⟨g, r, e.snapVersion + 1, rfl⟩

/-- Whatever does not look at the generations and the version is the same after the post-rules. -/
theorem settled_of [Platform] {α : Type*} {f : EntryCore V F → α}
    (hf : ∀ (e : EntryCore V F) g r v,
      f { e with gcGen := g, refreshGen := r, snapVersion := v } = f e)
    (e : EntryCore V F) (now : Instant) (m : Marks V F) : f (e.settled now m) = f e := by
  obtain ⟨g, r, v, heq⟩ := e.settled_eq now m
  rw [heq]
  exact hf e g r v

/-- The timers the post-rules schedule. -/
def timers [Platform] (e : EntryCore V F) (defaults : QueryOptions) (now : Instant)
    (key : QueryKey) (m : Marks V F) : List (Effect V F) :=
  (if m.touched then e.gcTimer defaults now key else []) ++
    (if m.refresh then (if m.touched then e.gcArmed else e).refreshTimer now key else [])

/-- The effects of one key in the batch, `e` being the entry after the handler. -/
def batch [Platform] (e : EntryCore V F) (defaults : QueryOptions) (now : Instant)
    (key : QueryKey) (m : Marks V F) : List (Effect V F) :=
  m.effects ++ e.timers defaults now key m ++
    (if m.notify then [.notify e.tx (e.settled now m).snapshotNow] else [])

end EntryCore

section rules

variable [Platform] (defaults : QueryOptions) (now : Instant) (key : QueryKey)

theorem gcRule_eq (e : EntryCore V F) (ctx : Ctx V F) :
    e.gcRule defaults now key ctx =
      .ok (e.gcArmed, ctx.mark key ⟨e.gcTimer defaults now key, false, false, false⟩) := by
  unfold EntryCore.gcRule EntryCore.gcArmed EntryCore.gcTimer
  by_cases hq : e.isQuiescent = true
  · simp only [hq, if_true]
    cases Instant.checkedAdd now (e.opts.gcTime defaults.gcTime) <;> simp [Ctx.mark, Ctx.push]
  · simp [hq, Ctx.mark]

theorem refreshRule_eq (e : EntryCore V F) (ctx : Ctx V F) :
    e.refreshRule now key ctx =
      .ok (e.refreshArmed now, ctx.mark key ⟨e.refreshTimer now key, false, false, false⟩) := by
  unfold EntryCore.refreshRule EntryCore.refreshArmed EntryCore.refreshTimer EntryCore.refreshAt
  by_cases hs : 0 < e.subscribers
  · simp only [hs, if_true, true_and]
    cases e.opts.refreshInterval.bind fun interval => Instant.checkedAdd now interval <;>
      simp [Ctx.mark, Ctx.push]
  · simp [hs, Ctx.mark]

theorem flushNotify_eq (e : EntryCore V F) (ctx : Ctx V F) :
    e.flushNotify ctx =
      .ok (e.notified, ctx.mark key ⟨[.notify e.tx e.notified.snapshotNow], false, false, false⟩) :=
  rfl

end rules

/-! ## Loops over distinct keys -/

namespace Inner

@[simp] theorem entry_put (s : Inner V F) (key : QueryKey) (e : EntryCore V F) :
    (s.put key e).entry key = some e :=
  Finmap.lookup_insert s.entries

theorem entry_put_ne (s : Inner V F) {key k : QueryKey} (e : EntryCore V F) (h : k ≠ key) :
    (s.put key e).entry k = s.entry k :=
  Finmap.lookup_insert_of_ne s.entries h

/-- The keys of a scan are the keys of entries. -/
theorem mem_entries {s : Inner V F} {k : QueryKey} :
    k ∈ s.entries ↔ ∃ e, s.entry k = some e :=
  Finmap.mem_iff

/-- Two states with the same options and counters. -/
def SameCounters (s s' : Inner V F) : Prop :=
  s'.defaults = s.defaults ∧ s'.nextSubId = s.nextSubId ∧ s'.nextIncarnation = s.nextIncarnation

/-- What a loop over `keys` leaves when its body maps an entry by `f` and adds the marks `m`. -/
structure Looped (keys : List QueryKey) (f : QueryKey → EntryCore V F → EntryCore V F)
    (m : QueryKey → EntryCore V F → Marks V F) (s : Inner V F) (ctx : Ctx V F) (s' : Inner V F)
    (ctx' : Ctx V F) : Prop where
  counters : s.SameCounters s'
  entry : ∀ k, s'.entry k = if k ∈ keys then (s.entry k).map (f k) else s.entry k
  slice : ∀ k, ctx'.slice k =
    if k ∈ keys then (ctx.slice k).add ((s.entry k).elim Marks.none (m k)) else ctx.slice k
  wf : ctx.Wf → ctx'.Wf
  effects : ∃ l, ctx'.effects = ctx.effects ++ l ∧
    ∀ x ∈ l, ∃ key ∈ keys, ∃ e, s.entry key = some e ∧ x ∈ (m key e).effects

section loops

variable {f : QueryKey → EntryCore V F → EntryCore V F} {m : QueryKey → EntryCore V F → Marks V F}
  {s s' : Inner V F} {ctx ctx' : Ctx V F} {key : QueryKey} {keys : List QueryKey}

/-- A loop passes over a key without an entry. -/
theorem Looped.skip (h : Looped keys f m s ctx s' ctx') (he : s.entry key = none) (hkey : key ∉ keys) :
    Looped (key :: keys) f m s ctx s' ctx' where
  counters := h.counters
  entry k := by
    rw [h.entry k]
    by_cases hk : k = key
    · subst hk
      simp [he]
    · simp [hk]
  slice k := by
    rw [h.slice k]
    by_cases hk : k = key
    · subst hk
      simp [he, hkey]
    · simp [hk]
  wf := h.wf
  effects := by
    obtain ⟨l, hl, hmem⟩ := h.effects
    refine ⟨l, hl, fun x hx => ?_⟩
    obtain ⟨k, hk, he'⟩ := hmem x hx
    exact ⟨k, List.mem_cons_of_mem _ hk, he'⟩

/-- It runs its body on an entry, and then goes on with the other keys. -/
theorem Looped.cons {e : EntryCore V F} (h : Looped keys f m (s.put key (f key e))
    (ctx.mark key (m key e)) s' ctx') (he : s.entry key = some e) (hkey : key ∉ keys)
    (hof : (m key e).Of key) : Looped (key :: keys) f m s ctx s' ctx' where
  counters := h.counters
  entry k := by
    rw [h.entry k]
    by_cases hk : k = key
    · subst hk
      simp [he, hkey]
    · simp [hk, entry_put_ne]
  slice k := by
    rw [h.slice k, Ctx.slice_mark ctx hof]
    by_cases hk : k = key
    · subst hk
      simp [he, hkey]
    · have hk' : key ≠ k := fun h => hk h.symm
      simp [hk, hk', entry_put_ne]
  wf hwf := h.wf (hwf.mark key _)
  effects := by
    obtain ⟨l, hl, hmem⟩ := h.effects
    refine ⟨(m key e).effects ++ l, ?_, ?_⟩
    · rw [hl, Ctx.mark, List.append_assoc]
    · intro x hx
      rcases List.mem_append.mp hx with hx | hx
      · exact ⟨key, List.mem_cons_self, e, he, hx⟩
      · obtain ⟨k, hk, e', he', hx'⟩ := hmem x hx
        have hne : k ≠ key := by
          rintro rfl
          exact hkey hk
        rw [entry_put_ne s _ hne] at he'
        exact ⟨k, List.mem_cons_of_mem _ hk, e', he', hx'⟩

end loops

/-- A loop over distinct keys runs its body on each of them once. -/
theorem forEntries_spec {missing : Except Panic Unit}
    {body : QueryKey → EntryCore V F → Ctx V F → Except Panic (EntryCore V F × Ctx V F)}
    {f : QueryKey → EntryCore V F → EntryCore V F} {m : QueryKey → EntryCore V F → Marks V F}
    (hbody : ∀ key e ctx, body key e ctx = .ok (f key e, ctx.mark key (m key e)))
    (keys : List QueryKey) (hnd : keys.Nodup) (s : Inner V F) (ctx : Ctx V F)
    (hm : ∀ key ∈ keys, ∀ e, s.entry key = some e → (m key e).Of key)
    (hmiss : missing = .ok () ∨ ∀ key ∈ keys, key ∈ s.entries) :
    ∃ s' ctx', forEntries missing body keys s ctx = .ok (s', ctx') ∧
      Looped keys f m s ctx s' ctx' := by
  induction keys generalizing s ctx with
  | nil =>
      refine ⟨s, ctx, rfl, ⟨rfl, rfl, rfl⟩, ?_, ?_, id, [], ?_, ?_⟩ <;> simp
  | cons key keys ih =>
      obtain ⟨hkey, hnd⟩ := List.nodup_cons.mp hnd
      cases he : s.entry key with
      | none =>
          have hok : missing = .ok () := by
            rcases hmiss with h | h
            · exact h
            · obtain ⟨e, he'⟩ := mem_entries.mp (h key List.mem_cons_self)
              rw [he] at he'
              cases he'
          obtain ⟨s', ctx', hrun, hl⟩ := ih hnd s ctx
            (fun k hk => hm k (List.mem_cons_of_mem _ hk)) (.inl hok)
          refine ⟨s', ctx', ?_, hl.skip he hkey⟩
          subst hok
          simp only [forEntries, he, ok_bind]
          exact hrun
      | some e =>
          have hput : ∀ k ∈ keys, (s.put key (f key e)).entry k = s.entry k := by
            intro k hk
            refine entry_put_ne s _ ?_
            rintro rfl
            exact hkey hk
          obtain ⟨s', ctx', hrun, hl⟩ := ih hnd (s.put key (f key e)) (ctx.mark key (m key e))
            (by
              intro k hk e' he'
              rw [hput k hk] at he'
              exact hm k (List.mem_cons_of_mem _ hk) e' he')
            (hmiss.imp_right fun h k hk => by
              obtain ⟨e', he'⟩ := mem_entries.mp (h k (List.mem_cons_of_mem _ hk))
              rw [← hput k hk] at he'
              exact mem_entries.mpr ⟨e', he'⟩)
          refine ⟨s', ctx', ?_, hl.cons he hkey (hm key List.mem_cons_self e he)⟩
          simp only [forEntries, he, hbody, ok_bind]
          exact hrun

namespace Looped

variable {keys : List QueryKey} {f : QueryKey → EntryCore V F → EntryCore V F}
  {m : QueryKey → EntryCore V F → Marks V F} {s s' : Inner V F} {ctx ctx' : Ctx V F}

/-- A loop whose body only pushes effects keeps the marks. -/
theorem marks (h : Looped keys f m s ctx s' ctx')
    (hm : ∀ k e, (m k e).refresh = false ∧ (m k e).notify = false) (k : QueryKey) :
    (ctx'.slice k).refresh = (ctx.slice k).refresh ∧
      (ctx'.slice k).notify = (ctx.slice k).notify := by
  rw [h.slice k]
  split_ifs
  · cases s.entry k with
    | none => simp
    | some e => simp [Marks.add, hm k e]
  · exact ⟨rfl, rfl⟩

/-- A loop whose body keeps the channels leaves every entry with one of its key. -/
theorem tx_key (h : Looped keys f m s ctx s' ctx') (hf : ∀ k e, (f k e).tx = e.tx)
    (hs : ∀ k e, s.entry k = some e → e.tx.key = k) :
    ∀ k e, s'.entry k = some e → e.tx.key = k := by
  intro k e he
  rw [h.entry k] at he
  split_ifs at he
  · obtain ⟨e₀, he₀, rfl⟩ := Option.map_eq_some_iff.mp he
    rw [hf, hs k e₀ he₀]
  · exact hs k e he

/-- The effects of a key are those its loop body pushed. -/
theorem effectsOf (h : Looped keys f m s ctx s' ctx') (k : QueryKey) :
    (ctx'.slice k).effects = (ctx.slice k).effects ++
      if k ∈ keys then (s.entry k).elim [] fun e => (m k e).effects else [] := by
  rw [h.slice k]
  split_ifs
  · cases s.entry k with
    | none => simp
    | some e => rfl
  · rw [List.append_nil]

end Looped

end Inner

/-! ## An event on one key -/

/-- Whether the event creates a missing entry. -/
def KeyEvent.creates : KeyEvent V F → Bool
  | .read policy _ _ _ => decide (policy ≠ .cacheOnly)
  | .subscribe _ _ _ _ => true
  | .mutateSet _ => true
  | .mutateBegin _ => true
  | _ => false

/-- Whether the event settles a mutation. -/
def KeyEvent.settles : KeyEvent V F → Bool
  | .mutateCommit _ _ _ => true
  | .mutateAbort _ _ => true
  | _ => false

/-- Whether the event removes the entry. -/
def KeyEvent.removes (e : EntryCore V F) : KeyEvent V F → Bool
  | .timerFired .gc generation => decide (generation = e.gcGen) && e.isQuiescent
  | _ => false

/-- What the event returns to its caller when the key has no entry. -/
def KeyEvent.missOutcome : KeyEvent V F → Outcome V
  | .read _ _ _ _ => .read (.ready .empty)
  | _ => .none

/-- Whether the handler of the event scans the table. -/
def Event.scans : Event V F → Bool
  | .invalidate _ => true
  | .broadcast _ => true
  | _ => false

/-- The key whose entry the event creates if it is missing. -/
def Event.createdKey : Event V F → Option QueryKey
  | .read key policy _ _ _ => if policy = .cacheOnly then none else some key
  | .subscribe key _ _ _ => some key
  | .mutateSet key _ => some key
  | .mutateBegin key _ => some key
  | _ => none

/-- The key that an event is addressed to; `none` for the two that scan the table. -/
def Event.key? : Event V F → Option QueryKey
  | .read key _ _ _ _ => some key
  | .subscribe key _ _ _ => some key
  | .unsubscribe key _ => some key
  | .revalidateRequested key => some key
  | .commitOk key _ _ _ => some key
  | .commitErr key _ _ _ => some key
  | .mutateSet key _ => some key
  | .mutateBegin key _ => some key
  | .mutateCommit token _ _ => some token.key
  | .mutateAbort token _ => some token.key
  | .invalidate _ => none
  | .broadcast _ => none
  | .timerFired key _ _ => some key

/-- An event that is addressed to a key concerns no other. -/
theorem Event.on_key {ev : Event V F} {key k : QueryKey} {subId : Nat} {kev : KeyEvent V F}
    (h : ev.key? = some key) (hon : ev.on k subId = some kev) : key = k := by
  cases ev <;> cases h <;> exact (Option.ite_none_right_eq_some.mp hon).1

/-- An event that creates a missing entry names the key whose entry it creates. -/
theorem Event.createdKey_of_on {ev : Event V F} {k : QueryKey} {n : Nat} {kev : KeyEvent V F}
    (hon : ev.on k n = some kev) (hc : kev.creates = true) : ev.createdKey = some k := by
  cases Event.on_inv hon with
  | @read policy fetcher compare opts =>
      have hp : policy ≠ .cacheOnly := of_decide_eq_true hc
      simp [Event.createdKey, hp]
  | subscribe => rfl
  | mutateSet => rfl
  | mutateBegin => rfl
  | _ => cases hc

namespace Inner

/-- One iteration of the table: each of its keys once. -/
structure IsScan (s : Inner V F) (scan : List QueryKey) : Prop where
  nodup : scan.Nodup
  mem : ∀ k, k ∈ scan ↔ k ∈ s.entries

/-- The entry the event acts on. -/
def subject (s : Inner V F) (k : QueryKey) (kev : KeyEvent V F) : Option (EntryCore V F) :=
  if kev.creates then some ((s.entry k).getD (.new k s.nextIncarnation)) else s.entry k

/-- The entry of the key `k` after the handler of the event. -/
def reacted [Platform] (s : Inner V F) (k : QueryKey) (ev : Event V F) (now : Instant) :
    Option (EntryCore V F) :=
  match ev.on k s.nextSubId with
  | none => s.entry k
  | some kev => (s.subject k kev).bind fun e =>
    if kev.removes e then none else some (kev.react s.defaults now e)

/-- What the handler of the event marks for the key `k`. -/
def marked [Platform] (s : Inner V F) (k : QueryKey) (ev : Event V F) (now : Instant) :
    Marks V F :=
  match ev.on k s.nextSubId with
  | none => .none
  | some kev => (s.subject k kev).elim .none (kev.marks s.defaults now k)

/-- The entry of the key `k` after the event. -/
def cell [Platform] (s : Inner V F) (k : QueryKey) (ev : Event V F) (now : Instant) :
    Option (EntryCore V F) :=
  (s.reacted k ev now).map fun e => e.settled now (s.marked k ev now)

/-- The effects of the event that concern the key `k`. -/
def cellEffects [Platform] (s : Inner V F) (k : QueryKey) (ev : Event V F) (now : Instant) :
    List (Effect V F) :=
  (s.reacted k ev now).elim [] fun e => e.batch s.defaults now k (s.marked k ev now)

/-- The outcome of an event that concerns the key `k` as `kev`. -/
def answer [Platform] (s : Inner V F) (k : QueryKey) (kev : KeyEvent V F) (now : Instant) :
    Outcome V :=
  (s.subject k kev).elim kev.missOutcome (kev.outcome s.defaults now k)

/-- The number of entries the event creates. -/
def allocated (s : Inner V F) (ev : Event V F) : Nat :=
  ev.createdKey.elim 0 fun k => if (s.entry k).isNone then 1 else 0

/-- The number of subscription ids the event takes. -/
def subscribed : Event V F → Nat
  | .subscribe _ _ _ _ => 1
  | _ => 0

/-- What the assertions of the handlers demand of the table. -/
def Accepts (s : Inner V F) (ev : Event V F) : Prop :=
  ∀ k kev, ev.on k s.nextSubId = some kev →
    (kev.settles = true → (s.entry k).isSome) ∧ ∀ e, s.subject k kev = some e → kev.Safe e

/-- What the `match` of `handle` leaves behind. -/
structure Reacted [Platform] (s : Inner V F) (ev : Event V F) (now : Instant) (s' : Inner V F)
    (ctx : Ctx V F) (out : Outcome V) : Prop where
  defaults : s'.defaults = s.defaults
  nextSubId : s'.nextSubId = s.nextSubId + subscribed ev
  nextIncarnation : s'.nextIncarnation = s.nextIncarnation + s.allocated ev
  entry : ∀ k, s'.entry k = s.reacted k ev now
  slice : ∀ k, ctx.slice k = s.marked k ev now
  wf : ctx.Wf
  fetches : ∀ x ∈ ctx.effects, ∃ key incarnation seq fetcher,
    x = .startFetch key incarnation seq fetcher
  outcome : ∀ k kev, ev.on k s.nextSubId = some kev → out = s.answer k kev now

/-! ## The handlers, one entry at a time -/

/-- The state in which a missing entry has been created. -/
def created (s : Inner V F) (key : QueryKey) : Inner V F :=
  if key ∈ s.entries then s else
    { s with
      nextIncarnation := s.nextIncarnation + 1
      entries := s.entries.insert key (EntryCore.new key s.nextIncarnation) }

/-- What the handler finds under the key: the entry, or a new one with the next incarnation. -/
theorem entryOrCreate_eq (s : Inner V F) (key : QueryKey) :
    s.entryOrCreate key =
      .ok (s.created key, (s.entry key).getD (.new key s.nextIncarnation)) := by
  by_cases h : key ∈ s.entries
  · obtain ⟨e, he⟩ := mem_entries.mp h
    simp [entryOrCreate, created, h, he]
  · have hn : s.entry key = none := Finmap.lookup_eq_none.mpr h
    have hnew : ({ s with
        nextIncarnation := s.nextIncarnation + 1
        entries := s.entries.insert key (EntryCore.new key s.nextIncarnation) } :
          Inner V F).entry key = some (.new key s.nextIncarnation) :=
      Finmap.lookup_insert s.entries
    simp [entryOrCreate, created, h, hn, hnew]

/-- Storing an entry that was found or made changes this key only. -/
theorem entry_put_created (s : Inner V F) (key : QueryKey) (e : EntryCore V F) (k : QueryKey) :
    ((s.created key).put key e).entry k = if key = k then some e else s.entry k := by
  split_ifs with hk
  · subst hk
    exact entry_put _ _ _
  · have hk' : k ≠ key := fun h => hk h.symm
    rw [entry_put_ne _ _ hk', created]
    split_ifs
    · rfl
    · exact Finmap.lookup_insert_of_ne s.entries hk'

/-- An incarnation is used up exactly when there was no entry. -/
theorem nextIncarnation_created (s : Inner V F) (key : QueryKey) :
    (s.created key).nextIncarnation =
      s.nextIncarnation + if (s.entry key).isNone then 1 else 0 := by
  by_cases h : key ∈ s.entries
  · obtain ⟨e, he⟩ := mem_entries.mp h
    simp [created, h, he]
  · have hn : s.entry key = none := Finmap.lookup_eq_none.mpr h
    simp [created, h, hn]

@[simp] theorem defaults_created (s : Inner V F) (key : QueryKey) :
    (s.created key).defaults = s.defaults := by
  unfold created
  split_ifs <;> rfl

@[simp] theorem nextSubId_created (s : Inner V F) (key : QueryKey) :
    (s.created key).nextSubId = s.nextSubId := by
  unfold created
  split_ifs <;> rfl

/-- The table with the subscription id of the event taken. -/
def counted (s : Inner V F) (ev : Event V F) : Inner V F :=
  { s with nextSubId := s.nextSubId + subscribed ev }

/-- Run the handler body of an event that concerns the key only. -/
def act [Platform] (s : Inner V F) (key : QueryKey) (kev : KeyEvent V F)
    (missing : Except Panic (Outcome V)) (now : Instant) (ctx : Ctx V F) :
    Except Panic (Inner V F × Ctx V F × Outcome V) :=
  if kev.creates then s.withEntryOrCreate key (kev.body s.defaults now key) ctx
  else s.withEntry key missing (kev.body s.defaults now key) ctx

/-- An event that concerns the key `key` only, as `kev`. -/
structure Keyed [Platform] (s : Inner V F) (ev : Event V F) (key : QueryKey)
    (kev : KeyEvent V F) (missing : Except Panic (Outcome V)) : Prop where
  on : ∀ k, ev.on k s.nextSubId = if key = k then some kev else none
  act : ∀ now scan ctx, s.react ev now scan ctx = (s.counted ev).act key kev missing now ctx
  missing : if kev.settles then ∃ p, missing = .error p else missing = .ok kev.missOutcome
  created : ev.createdKey = if kev.creates then some key else none
  removes : ∀ e, kev.removes e = false

/-- Every event that neither scans the table nor is a GC timer concerns one key only. -/
theorem keyed [Platform] (s : Inner V F) {ev : Event V F} (hs : ev.scans = false)
    (hgc : ∀ key generation, ev ≠ .timerFired key .gc generation) :
    ∃ key kev missing, s.Keyed ev key kev missing := by
  cases ev with
  | read key policy fetcher compare opts =>
      refine ⟨key, .read policy fetcher compare opts, _, fun _ => rfl, ?_, rfl, ?_, fun _ => rfl⟩
      · intro now scan ctx
        cases policy <;> rfl
      · cases policy <;> rfl
  | subscribe key fetcher compare opts =>
      exact ⟨key, .subscribe s.nextSubId fetcher compare opts, .ok .none, fun _ => rfl,
        fun _ _ _ => rfl, rfl, rfl, fun _ => rfl⟩
  | unsubscribe key subId =>
      exact ⟨key, .unsubscribe subId, _, fun _ => rfl, fun _ _ _ => rfl, rfl, rfl, fun _ => rfl⟩
  | revalidateRequested key =>
      exact ⟨key, .revalidateRequested, _, fun _ => rfl, fun _ _ _ => rfl, rfl, rfl, fun _ => rfl⟩
  | commitOk key incarnation seq value =>
      exact ⟨key, .commitOk incarnation seq value, _, fun _ => rfl, fun _ _ _ => rfl, rfl, rfl,
        fun _ => rfl⟩
  | commitErr key incarnation seq error =>
      exact ⟨key, .commitErr incarnation seq error, _, fun _ => rfl, fun _ _ _ => rfl, rfl, rfl,
        fun _ => rfl⟩
  | mutateSet key value =>
      exact ⟨key, .mutateSet value, .ok .none, fun _ => rfl, fun _ _ _ => rfl, rfl, rfl,
        fun _ => rfl⟩
  | mutateBegin key optimistic =>
      exact ⟨key, .mutateBegin optimistic, .ok .none, fun _ => rfl, fun _ _ _ => rfl, rfl, rfl,
        fun _ => rfl⟩
  | mutateCommit token result flags =>
      exact ⟨token.key, .mutateCommit token result flags, _, fun _ => rfl, fun _ _ _ => rfl,
        ⟨_, rfl⟩, rfl, fun _ => rfl⟩
  | mutateAbort token flags =>
      exact ⟨token.key, .mutateAbort token flags, _, fun _ => rfl, fun _ _ _ => rfl,
        ⟨_, rfl⟩, rfl, fun _ => rfl⟩
  | invalidate pre => cases hs
  | broadcast ev => cases hs
  | timerFired key kind generation =>
      cases kind with
      | gc => exact absurd rfl (hgc key generation)
      | refresh =>
          exact ⟨key, .timerFired .refresh generation, _, fun _ => rfl, fun _ _ _ => rfl, rfl, rfl,
            fun _ => rfl⟩

/-! ## The stage of the handlers -/

section handlers

variable [Platform] (s : Inner V F) (now : Instant)

/-- The only effect of a started flight is the fetch task, for the entry that started it. -/
theorem fetchEffect_key (e : EntryCore V F) (key : QueryKey) :
    ∀ x ∈ e.fetchEffect key, ∃ fetcher, x = .startFetch key e.incarnation e.seq fetcher := by
  intro x hx
  obtain ⟨fetcher, -, rfl⟩ := List.mem_map.mp hx
  exact ⟨fetcher, rfl⟩

/-- The handlers push nothing but the `StartFetch` of the fetch they start. -/
theorem marks_effects (defaults : QueryOptions) (key : QueryKey) (e : EntryCore V F)
    (kev : KeyEvent V F) : ∀ x ∈ (kev.marks defaults now key e).effects,
      ∃ incarnation seq fetcher, x = .startFetch key incarnation seq fetcher := by
  intro x hx
  simp only [KeyEvent.marks] at hx
  split_ifs at hx
  · obtain ⟨fetcher, rfl⟩ := fetchEffect_key _ key x hx
    exact ⟨_, _, fetcher, rfl⟩
  · cases hx

/-- A cell marks nothing but its own key. -/
theorem marks_of (defaults : QueryOptions) (key : QueryKey) (e : EntryCore V F)
    (kev : KeyEvent V F) : (kev.marks defaults now key e).Of key := by
  intro x hx
  obtain ⟨_, _, _, rfl⟩ := marks_effects now defaults key e kev x hx
  rfl

/-- A handler that leaves the one entry `e'` and adds the marks of that entry. -/
theorem Keyed.reacted {s : Inner V F} {ev : Event V F} {key : QueryKey} {kev : KeyEvent V F}
    {missing : Except Panic (Outcome V)} (hk : s.Keyed ev key kev missing) {e : EntryCore V F}
    (he : s.subject key kev = some e) (s' : Inner V F) (hd : s'.defaults = s.defaults)
    (hsub : s'.nextSubId = s.nextSubId + subscribed ev)
    (hinc : s'.nextIncarnation = s.nextIncarnation + s.allocated ev)
    (hentry : ∀ k, s'.entry k =
      if key = k then some (kev.react s.defaults now e) else s.entry k) :
    Reacted s ev now s' (Ctx.empty.mark key (kev.marks s.defaults now key e))
      (kev.outcome s.defaults now key e) := by
  refine ⟨hd, hsub, hinc, ?_, ?_, Ctx.wf_empty.mark key _, ?_, ?_⟩
  · intro k
    rw [hentry k, Inner.reacted, hk.on k]
    split_ifs with hkey
    · subst hkey
      simp [he, hk.removes]
    · rfl
  · intro k
    rw [Ctx.slice_mark _ (marks_of now s.defaults key e kev), marked, hk.on k]
    split_ifs with hkey
    · subst hkey
      simp [he]
    · simp
  · intro x hx
    obtain ⟨incarnation, seq, fetcher, rfl⟩ := marks_effects now s.defaults key e kev x hx
    exact ⟨key, incarnation, seq, fetcher, rfl⟩
  · intro k kev' hon
    rw [hk.on k] at hon
    split_ifs at hon with hkey
    cases hon
    subst hkey
    simp [answer, he]

section keyed

variable {s : Inner V F} {ev : Event V F} {key : QueryKey} {kev : KeyEvent V F}
  {missing : Except Panic (Outcome V)} (hk : s.Keyed ev key kev missing) (hacc : s.Accepts ev)
  (scan : List QueryKey)

include hk hacc

/-- An event that creates entries finds one, or makes it. -/
theorem Keyed.react_create (hc : kev.creates = true) :
    ∃ s' ctx out, s.react ev now scan .empty = .ok (s', ctx, out) ∧
      Reacted s ev now s' ctx out := by
  have hon : ev.on key s.nextSubId = some kev := by rw [hk.on key, if_pos rfl]
  obtain ⟨-, hsafe⟩ := hacc key kev hon
  have hsub : s.subject key kev = some ((s.entry key).getD (.new key s.nextIncarnation)) := by
    rw [subject, hc, if_pos rfl]
  have hbody := body_eq s.defaults now key (hsafe _ hsub) Ctx.empty (Event.ofKey_of_on hon)
  refine ⟨_, _, _, ?_, hk.reacted now hsub (((s.counted ev).created key).put key _)
    (defaults_created _ key) (nextSubId_created _ key) ?_
    (entry_put_created (s.counted ev) key _)⟩
  · rw [hk.act now scan, Inner.act, hc]
    simp only [if_true, withEntryOrCreate, entryOrCreate_eq, ok_bind]
    exact congrArg (· >>= fun x => Except.ok (((s.counted ev).created key).put key x.1, x.2.1,
      x.2.2)) hbody
  · rw [allocated, hk.created, hc]
    exact nextIncarnation_created (s.counted ev) key

/-- Any other event acts on the entry that is there, … -/
theorem Keyed.react_found (hc : kev.creates = false) {e : EntryCore V F} (he : s.entry key = some e) :
    ∃ s' ctx out, s.react ev now scan .empty = .ok (s', ctx, out) ∧
      Reacted s ev now s' ctx out := by
  have hon : ev.on key s.nextSubId = some kev := by rw [hk.on key, if_pos rfl]
  obtain ⟨-, hsafe⟩ := hacc key kev hon
  have hentry : (s.counted ev).entry key = s.entry key := rfl
  have hsub : s.subject key kev = some e := by
    rw [subject, hc]
    exact he
  have hbody := body_eq s.defaults now key (hsafe e hsub) Ctx.empty (Event.ofKey_of_on hon)
  have hinc : s.nextIncarnation = s.nextIncarnation + s.allocated ev := by
    rw [allocated, hk.created, hc]
    rfl
  refine ⟨_, _, _, ?_, hk.reacted now hsub ((s.counted ev).put key (kev.react s.defaults now e)) rfl
    rfl hinc ?_⟩
  · rw [hk.act now scan, Inner.act, hc]
    simp only [Bool.false_eq_true, if_false, withEntry, hentry, he]
    exact congrArg (· >>= fun x => Except.ok ((s.counted ev).put key x.1, x.2.1, x.2.2)) hbody
  · intro k
    split_ifs with hkey
    · subst hkey
      exact entry_put _ _ _
    · exact entry_put_ne _ _ fun h => hkey h.symm

/-- … and leaves the table alone where there is none. -/
theorem Keyed.react_missing (hc : kev.creates = false) (he : s.entry key = none) :
    ∃ s' ctx out, s.react ev now scan .empty = .ok (s', ctx, out) ∧
      Reacted s ev now s' ctx out := by
  have hon : ev.on key s.nextSubId = some kev := by rw [hk.on key, if_pos rfl]
  obtain ⟨hsettles, -⟩ := hacc key kev hon
  have hentry : (s.counted ev).entry key = s.entry key := rfl
  have hsub : s.subject key kev = none := by
    rw [subject, hc]
    exact he
  have hns : kev.settles = false := by
    by_contra hs
    have hsome := hsettles (Bool.eq_true_of_not_eq_false hs)
    rw [he] at hsome
    cases hsome
  have hm : missing = .ok kev.missOutcome := by simpa [hns] using hk.missing
  refine ⟨s.counted ev, .empty, kev.missOutcome, ?_, rfl, rfl, ?_, ?_, ?_, Ctx.wf_empty, ?_, ?_⟩
  · rw [hk.act now scan, Inner.act, hc]
    simp only [Bool.false_eq_true, if_false, withEntry, hentry, he, hm]
    rfl
  · rw [allocated, hk.created, hc]
    rfl
  · intro k
    rw [Inner.reacted, hk.on k]
    split_ifs with hkey
    · subst hkey
      simp only [hsub]
      exact he
    · rfl
  · intro k
    rw [Ctx.slice_empty, marked, hk.on k]
    split_ifs with hkey
    · subst hkey
      simp only [hsub]
      rfl
    · rfl
  · intro x hx
    cases hx
  · intro k kev' hon'
    rw [hk.on k] at hon'
    split_ifs at hon' with hkey
    cases hon'
    subst hkey
    rw [answer, hsub]
    rfl

/-- Unless an assertion fails, an event addressed to one key ends without a panic, and acts on that key only. -/
theorem Keyed.react_ok :
    ∃ s' ctx out, s.react ev now scan .empty = .ok (s', ctx, out) ∧
      Reacted s ev now s' ctx out := by
  cases hc : kev.creates with
  | true => exact hk.react_create now hacc scan hc
  | false =>
      cases he : s.entry key with
      | some e => exact hk.react_found now hacc scan hc he
      | none => exact hk.react_missing now hacc scan hc he

end keyed

/-- A loop whose body is the action of `kev` on every key of the table that `ev` concerns. -/
theorem Looped.reacted {s : Inner V F} {ev : Event V F} {kev : KeyEvent V F} {P : QueryKey → Prop}
    [DecidablePred P] (hon : ∀ k, ev.on k s.nextSubId = if P k then some kev else none)
    (hcreate : kev.creates = false) (hcreated : ev.createdKey = none) (hsub : subscribed ev = 0)
    (hremove : ∀ e, kev.removes e = false)
    (hout : ∀ key e, kev.outcome s.defaults now key e = .none) (hmiss : kev.missOutcome = .none)
    {keys : List QueryKey} (hkeys : ∀ k, k ∈ keys ↔ k ∈ s.entries ∧ P k) {s' : Inner V F}
    {ctx : Ctx V F}
    (h : Looped keys (fun _ e => kev.react s.defaults now e)
      (fun key e => kev.marks s.defaults now key e) s .empty s' ctx) :
    Reacted s ev now s' ctx .none := by
  have hsubject : ∀ k, s.subject k kev = s.entry k := fun k => by
    rw [subject, hcreate]
    rfl
  have habsent : ∀ k, k ∉ s.entries → s.entry k = none := fun k => Finmap.lookup_eq_none.mpr
  obtain ⟨l, hl, hmem⟩ := h.effects
  refine ⟨h.counters.1, by rw [h.counters.2.1, hsub, Nat.add_zero], ?_, ?_, ?_, h.wf Ctx.wf_empty,
    ?_, ?_⟩
  · rw [h.counters.2.2, allocated, hcreated]
    rfl
  · intro k
    rw [h.entry k, Inner.reacted, hon k]
    by_cases hp : P k
    · simp only [hp, if_true, hsubject, hremove, Bool.false_eq_true, if_false]
      by_cases hk : k ∈ s.entries
      · obtain ⟨e, he⟩ := mem_entries.mp hk
        simp [hkeys, hk, hp, he]
      · simp [hkeys, hk, habsent k hk]
    · simp [hkeys, hp]
  · intro k
    rw [h.slice k, marked, hon k, Ctx.slice_empty]
    by_cases hp : P k
    · simp only [hp, if_true, hsubject]
      by_cases hk : k ∈ s.entries
      · simp [hkeys, hk, hp]
      · simp [hkeys, hk, habsent k hk]
    · simp [hkeys, hp]
  · intro x hx
    rw [hl, Ctx.empty, List.nil_append] at hx
    obtain ⟨key, -, e, -, hx⟩ := hmem x hx
    obtain ⟨incarnation, seq, fetcher, rfl⟩ := marks_effects now s.defaults key e kev x hx
    exact ⟨key, incarnation, seq, fetcher, rfl⟩
  · intro k kev' hk
    rw [hon k] at hk
    split_ifs at hk
    cases hk
    rw [answer, hsubject]
    cases s.entry k with
    | none => exact hmiss.symm
    | some e => exact (hout k e).symm

/-- Invalidating a prefix: the entries under it react, in the order of the scan. -/
theorem invalidate_ok (pre : List Segment) {scan : List QueryKey} (hscan : s.IsScan scan) :
    ∃ s' ctx out, s.react (.invalidate pre) now scan .empty = .ok (s', ctx, out) ∧
      Reacted s (.invalidate pre) now s' ctx out := by
  have hkeys : ∀ k, k ∈ scan.filter (fun k => k.matchesPrefix pre) ↔
      k ∈ s.entries ∧ k.matchesPrefix pre = true := by
    intro k
    rw [List.mem_filter, hscan.mem]
  have hmiss : (.error .keyCollected : Except Panic Unit) = .ok () ∨
      ∀ k ∈ scan.filter (fun k => k.matchesPrefix pre), k ∈ s.entries :=
    .inr fun k hk => ((hkeys k).mp hk).1
  obtain ⟨s', ctx, hrun, hl⟩ := forEntries_spec
    (fun key e ctx => onInvalidate_eq s.defaults now key e ctx)
    (scan.filter fun k => k.matchesPrefix pre) (hscan.nodup.filter _) s .empty
    (fun key _ e _ => marks_of now s.defaults key e _) hmiss
  refine ⟨s', ctx, .none, ?_, hl.reacted now (fun _ => rfl) rfl rfl rfl (fun _ => rfl)
    (fun _ _ => rfl) rfl hkeys⟩
  simp only [react, onInvalidate, hrun, ok_bind]

/-- A broadcast: every entry hears it, in the order of the scan. -/
theorem broadcast_ok (ev : SwrEvent) {scan : List QueryKey} (hscan : s.IsScan scan) :
    ∃ s' ctx out, s.react (.broadcast ev) now scan .empty = .ok (s', ctx, out) ∧
      Reacted s (.broadcast ev) now s' ctx out := by
  have hkeys : ∀ k, k ∈ scan ↔ k ∈ s.entries ∧ True := by
    intro k
    rw [hscan.mem, and_true]
  have hmiss : (.error .keyCollected : Except Panic Unit) = .ok () ∨ ∀ k ∈ scan, k ∈ s.entries :=
    .inr fun k hk => (hscan.mem k).mp hk
  obtain ⟨s', ctx, hrun, hl⟩ := forEntries_spec
    (fun key e ctx => onBroadcast_eq s.defaults now key e ev ctx)
    scan hscan.nodup s .empty (fun key _ e _ => marks_of now s.defaults key e _) hmiss
  refine ⟨s', ctx, .none, ?_, hl.reacted now (fun _ => (if_pos trivial).symm) rfl rfl rfl
    (fun _ => rfl) (fun _ _ => rfl) rfl hkeys⟩
  simp only [react, onBroadcast, hrun, ok_bind]

/-- A collection timer removes the entry or leaves it, and marks nothing. -/
theorem onTimerGc_ok (key : QueryKey) (generation : Nat) :
    Reacted s (.timerFired key .gc generation) now (s.onTimerGc key generation) .empty .none := by
  have hkeep : s.SameCounters (s.onTimerGc key generation) := by
    unfold onTimerGc
    split
    · exact ⟨rfl, rfl, rfl⟩
    · split_ifs <;> exact ⟨rfl, rfl, rfl⟩
  have hon : ∀ k, (Event.timerFired key .gc generation : Event V F).on k s.nextSubId =
      if key = k then some (.timerFired .gc generation) else none := fun _ => rfl
  refine ⟨hkeep.1, hkeep.2.1, hkeep.2.2, ?_, ?_, Ctx.wf_empty, ?_, ?_⟩
  · intro k
    rw [Inner.reacted, hon k]
    unfold onTimerGc
    cases he : s.entry key with
    | none =>
        by_cases hk : key = k
        · subst hk
          simp [subject, KeyEvent.creates, he]
        · simp [hk]
    | some e =>
        have herase : ({ s with entries := s.entries.erase key } : Inner V F).entry key = none :=
          Finmap.lookup_erase key s.entries
        by_cases hk : key = k
        · subst hk
          by_cases hg : generation = e.gcGen <;> cases hq : e.isQuiescent <;>
            simp [subject, KeyEvent.creates, he, hg, hq, herase, KeyEvent.removes, KeyEvent.react,
              KeyEvent.starts, KeyEvent.wants, KeyEvent.apply]
        · have hne : ({ s with entries := s.entries.erase key } : Inner V F).entry k =
              s.entry k := Finmap.lookup_erase_ne fun h => hk h.symm
          simp only [hk, if_false]
          split_ifs
          · rfl
          · exact hne
          · rfl
  · intro k
    rw [Ctx.slice_empty, marked, hon k]
    split_ifs with hk
    · subst hk
      cases he : s.entry key <;>
        simp [subject, KeyEvent.creates, he, KeyEvent.marks, KeyEvent.starts, KeyEvent.wants,
          KeyEvent.touches, KeyEvent.notifies, KeyEvent.rearms, Marks.none]
    · rfl
  · intro x hx
    cases hx
  · intro k kev hk
    rw [hon k] at hk
    split_ifs at hk
    cases hk
    rw [answer]
    cases s.subject k (.timerFired .gc generation) <;> rfl

/-- **The stage of the handlers** acts on every key separately. -/
theorem react_ok {ev : Event V F} (hacc : s.Accepts ev) {scan : List QueryKey}
    (hscan : ev.scans = true → s.IsScan scan) :
    ∃ s' ctx out, s.react ev now scan .empty = .ok (s', ctx, out) ∧
      Reacted s ev now s' ctx out := by
  by_cases hs : ev.scans = true
  · cases ev <;> cases hs
    · exact invalidate_ok s now _ (hscan rfl)
    · exact broadcast_ok s now _ (hscan rfl)
  · by_cases hgc : ∃ key generation, ev = .timerFired key .gc generation
    · obtain ⟨key, generation, rfl⟩ := hgc
      exact ⟨_, _, _, rfl, onTimerGc_ok s now key generation⟩
    · obtain ⟨key, kev, missing, hk⟩ := s.keyed (Bool.eq_false_of_not_eq_true hs)
        fun key generation h => hgc ⟨key, generation, h⟩
      exact hk.react_ok now hacc scan

end handlers

end Inner

end SwrCore
