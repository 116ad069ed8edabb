import SwrCore.Cell.Sound
import SwrCore.Shell.Run

/-!
# The invariant of the shell

* `Shell.Inv` — every entry is well formed (`EntryCore.Shape`), its subscribers and mutations are the
  live handles and the outstanding tokens of its key (`EntryCore.Owned`), and what was handed out is
  still backed by an entry.
* `Shell.Inv.accepts` — no assertion of `handle` fails on an enabled event.
* `Shell.Inv.step`, `Shell.inv_of_run` — every step preserves the invariant, so every run has it.
-/

set_option linter.unusedSectionVars false

namespace SwrCore

variable {V F : Type}

namespace Shell

/-- The global invariant of shell-produced runs. -/
structure Inv (s : Shell V F) : Prop where
  tx : s.inner.Tx
  incarnation : ∀ k e, s.inner.entry k = some e → e.incarnation < s.inner.nextIncarnation
  flight_lt : ∀ f ∈ s.flights, f.incarnation < s.inner.nextIncarnation
  flight_le : ∀ f ∈ s.flights, ∀ e, s.inner.entry f.key = some e →
    e.incarnation = f.incarnation → f.seq ≤ e.seq
  handles_nodup : s.handles.Nodup
  handle_lt : ∀ h ∈ s.handles, h.2 < s.inner.nextSubId
  shape : ∀ k e, s.inner.entry k = some e → e.Shape
  owned : ∀ k e, s.inner.entry k = some e → e.Owned k s.tokens s.handles
  token_entry : ∀ t ∈ s.tokens, (s.inner.entry t.key).isSome
  handle_entry : ∀ h ∈ s.handles, (s.inner.entry h.1).isSome

/-- A new client has no entries. -/
theorem init_entry (defaults : QueryOptions) (k : QueryKey) :
    (init defaults : Shell V F).inner.entry k = none :=
  Finmap.lookup_empty k

/-- The invariant holds of a new client, where there is nothing to check. -/
theorem inv_init (defaults : QueryOptions) : (init defaults : Shell V F).Inv := by
  have hnone := init_entry (V := V) (F := F) defaults
  constructor
  case handles_nodup => exact List.nodup_nil
  case flight_lt => exact fun f hf => absurd hf List.not_mem_nil
  case flight_le => exact fun f hf => absurd hf List.not_mem_nil
  case handle_lt => exact fun h hh => absurd hh List.not_mem_nil
  case token_entry => exact fun t ht => absurd ht List.not_mem_nil
  case handle_entry => exact fun h hh => absurd hh List.not_mem_nil
  all_goals
    intro k e he
    rw [hnone k] at he
    cases he

/-! ## What the invariant says about one event -/

section event

variable {s : Shell V F} (h : s.Inv)

include h

/-- A live handle is counted in the entry of its key. -/
theorem Inv.subscribers_pos {k : QueryKey} {id : Nat} (hmem : (k, id) ∈ s.handles)
    {e : EntryCore V F} (he : s.inner.entry k = some e) : 0 < e.subscribers := by
  rw [(h.owned k e he).subscribers, List.countP_pos_iff]
  exact ⟨_, hmem, decide_eq_true rfl⟩

/-- An outstanding token is counted in the entry of its key. -/
theorem Inv.mutations_pos {t : MutationToken} (hmem : t ∈ s.tokens) {e : EntryCore V F}
    (he : s.inner.entry t.key = some e) : 0 < e.mutationActive := by
  rw [(h.owned t.key e he).mutations, List.countP_pos_iff]
  exact ⟨_, hmem, decide_eq_true rfl⟩

/-- No rollback slot is taken while no mutation is active. -/
theorem Inv.slot_free {k : QueryKey} {e : EntryCore V F} (he : s.inner.entry k = some e)
    (hm : e.mutationActive = 0) : e.optimistic = none := by
  cases ho : e.optimistic with
  | none => rfl
  | some o =>
      have hmem := (h.owned k e he).owner o ho
      have := h.mutations_pos hmem he
      omega

/-- An idle entry has no subscriber. -/
theorem Inv.idle_subs {k : QueryKey} {e : EntryCore V F} (he : s.inner.entry k = some e)
    (hq : e.isQuiescent = true) : e.opts.subs.entries = [] := by
  simp only [EntryCore.isQuiescent, Bool.and_eq_true, decide_eq_true_eq] at hq
  rw [← List.length_eq_zero_iff, ← (h.owned k e he).records, hq.1.1]

/-- **No assertion fails** on an event the shell may feed. -/
theorem Inv.accepts {ev : Event V F} (hen : s.Enabled ev) : s.inner.Accepts ev := by
  intro k kev hon
  refine ⟨fun hset => ?_, fun e he => ?_⟩
  · cases Event.on_inv hon with
    | @mutateCommit token result flags hk =>
        subst hk
        exact h.token_entry token hen
    | @mutateAbort token flags hk =>
        subst hk
        exact h.token_entry token hen
    | _ => cases hset
  · cases Event.on_inv hon with
    | unsubscribe => exact h.subscribers_pos hen he
    | @commitOk incarnation seq value =>
        intro hd
        obtain ⟨-, -, hi⟩ := EntryCore.dropsCommit_eq_false.mp hd
        have hfly := (h.shape k e he).flying seq hi
        exact ⟨hfly.seq.symm, hfly.invalidated⟩
    | mutateCommit hk =>
        subst hk
        exact h.mutations_pos hen he
    | mutateAbort hk =>
        subst hk
        exact h.mutations_pos hen he
    | _ => trivial

/-- **No panic.** `handle` ends on every enabled event, and its state is a step of the shell. -/
theorem Inv.step_exists [Platform] {ev : Event V F} (hen : s.Enabled ev) (now : Instant)
    {scan : List QueryKey} (hscan : ev.scans = true → s.inner.IsScan scan) :
    ∃ inner out, s.inner.handle ev now scan = .ok (inner, out) ∧
      Step s ⟨ev, now, scan, out⟩ (s.next inner ⟨ev, now, scan, out⟩) := by
  have hspec : ∃ inner out, s.inner.handle ev now scan = .ok (inner, out) ∧
      s.inner.Handled ev now inner out := Inner.handle_spec h.tx (h.accepts hen) hscan
  obtain ⟨inner, out, hrun, -⟩ := hspec
  exact ⟨inner, out, hrun, ⟨hen, hscan, hrun, rfl⟩⟩

/-- A step did to every entry what the specification of `handle` says. -/
theorem Inv.handled [Platform] {c : Call V F} {s' : Shell V F} (hs : Step s c s') :
    s.inner.Handled c.event c.now s'.inner c.out :=
  Inner.handled_of_handle h.tx hs.scan hs.handle

/-- The entry an event acts on is well formed, also when the event creates it. -/
theorem Inv.subject {k : QueryKey} {kev : KeyEvent V F} {e : EntryCore V F}
    (hsub : s.inner.subject k kev = some e) :
    e.Shape ∧ e.Owned k s.tokens s.handles ∧ (e.mutationActive = 0 → e.optimistic = none) ∧
      (s.inner.entry k = some e ∨
        s.inner.entry k = none ∧ e = .new k s.inner.nextIncarnation ∧ kev.creates = true) := by
  unfold Inner.subject at hsub
  split_ifs at hsub with hc
  · cases hsub
    cases he : s.inner.entry k with
    | some e => exact ⟨h.shape k e he, h.owned k e he, h.slot_free he, .inl rfl⟩
    | none =>
        refine ⟨.new k _, .new ?_ ?_ _, fun _ => rfl, .inr ⟨rfl, rfl, hc⟩⟩
        · rintro t ht rfl
          have := h.token_entry t ht
          rw [he] at this
          cases this
        · rintro hd hh rfl
          have := h.handle_entry hd hh
          rw [he] at this
          cases this
  · exact ⟨h.shape k e hsub, h.owned k e hsub, h.slot_free hsub, .inl hsub⟩

/-- The entry an event acts on knows its channel. -/
theorem Inv.subject_tx {k : QueryKey} {kev : KeyEvent V F} {e : EntryCore V F}
    (hsub : s.inner.subject k kev = some e) : e.tx = ⟨k, e.incarnation⟩ := by
  rcases (h.subject hsub).2.2.2 with he | ⟨-, rfl, -⟩
  · exact h.tx k e he
  · rfl

end event

end Shell

/-! ## Handles and tokens across a call -/

/-- Whether the event takes or returns a handle or a token. -/
def Event.accounts : Event V F → Bool
  | .subscribe _ _ _ _ => true
  | .unsubscribe _ _ => true
  | .mutateBegin _ _ => true
  | .mutateCommit _ _ _ => true
  | .mutateAbort _ _ => true
  | _ => false

/-- The part of an event that reaches an entry touches the books if the event does. -/
theorem Event.accounts_of_on {k : QueryKey} {subId : Nat} {ev : Event V F} {kev : KeyEvent V F}
    (h : ev.on k subId = some kev) : kev.accounts = ev.accounts := by
  cases Event.on_inv h <;> rfl

/-- An event that touches no books leaves both of them as they are. -/
theorem Call.of_neutral {c : Call V F} (h : c.event.accounts = false)
    (handles : List (QueryKey × Nat)) (tokens : List MutationToken) :
    c.handles handles = handles ∧ c.tokens tokens = tokens := by
  unfold Call.handles Call.tokens
  cases hev : c.event <;> rw [hev] at h <;> first | exact ⟨rfl, rfl⟩ | cases h

section calls

variable {c : Call V F} (handles : List (QueryKey × Nat)) (tokens : List MutationToken)

/-- A subscription that ends is taken out of the books. -/
theorem Call.unsubscribe {key : QueryKey} {subId : Nat} (hev : c.event = .unsubscribe key subId) :
    c.handles handles = handles.erase (key, subId) ∧ c.tokens tokens = tokens := by
  simp only [Call.handles, Call.tokens, hev, and_self]

/-- A mutation that settles gives its token back. -/
theorem Call.mutateCommit {token : MutationToken} {result : Except V (Option V)}
    {flags : MutateFlags} (hev : c.event = .mutateCommit token result flags) :
    c.handles handles = handles ∧ c.tokens tokens = tokens.erase token := by
  simp only [Call.handles, Call.tokens, hev, and_self]

/-- So does one that is aborted. -/
theorem Call.mutateAbort {token : MutationToken} {flags : MutateFlags}
    (hev : c.event = .mutateAbort token flags) :
    c.handles handles = handles ∧ c.tokens tokens = tokens.erase token := by
  simp only [Call.handles, Call.tokens, hev, and_self]

end calls

namespace Shell

section next

variable [Platform] {s s' : Shell V F} {c : Call V F}

/-- The live handles after a step are those that its call leaves. -/
theorem next_handles (hs : Step s c s') : s'.handles = c.handles s.handles := by
  rw [hs.next]
  rfl

/-- The outstanding tokens after a step are those that its call leaves. -/
theorem next_tokens (hs : Step s c s') : s'.tokens = c.tokens s.tokens := by
  rw [hs.next]
  rfl

/-- A step adds the flights that its batch starts. -/
theorem next_flights (hs : Step s c s') :
    s'.flights = s.flights ++ Effect.flights c.out.effects := by
  rw [hs.next]
  rfl

end next

section step

variable [Platform] {s s' : Shell V F} {c : Call V F} (h : s.Inv) (hs : Step s c s')

include h hs

/-- What a subscription hands out. -/
theorem Inv.subscribe_outcome {key : QueryKey} {fetcher : Option F}
    {compare : Option (Compare V)} {opts : QueryOptions}
    (hev : c.event = .subscribe key fetcher compare opts) :
    c.handles s.handles = s.handles ++ [(key, s.inner.nextSubId)] ∧
      c.tokens s.tokens = s.tokens := by
  have hon : c.event.on key s.inner.nextSubId =
      some (.subscribe s.inner.nextSubId fetcher compare opts) := by rw [hev]; exact if_pos rfl
  have hout := (h.handled hs).outcome key _ hon
  simp only [Inner.answer, Inner.subject, KeyEvent.creates, if_true, Option.elim_some,
    KeyEvent.outcome] at hout
  simp only [Call.handles, Call.tokens, hev, hout, and_self]

/-- What the start of a mutation hands out. -/
theorem Inv.begin_outcome {key : QueryKey} {optimistic : Option V}
    (hev : c.event = .mutateBegin key optimistic) :
    ∃ e, s.inner.subject key (.mutateBegin optimistic : KeyEvent V F) = some e ∧
      c.handles s.handles = s.handles ∧
      c.tokens s.tokens = s.tokens ++ [⟨key, optimistic.map fun _ => e.seq + 2⟩] := by
  have hon : c.event.on key s.inner.nextSubId = some (.mutateBegin optimistic) := by
    rw [hev]
    exact if_pos rfl
  have hout := (h.handled hs).outcome key _ hon
  refine ⟨_, if_pos rfl, ?_⟩
  cases optimistic <;>
    simp only [Inner.answer, Inner.subject, KeyEvent.creates, if_true, Option.elim_some,
      KeyEvent.outcome] at hout <;>
    simp only [Call.handles, Call.tokens, hev, hout, Option.map_none, Option.map_some, and_self]

/-- The handles and tokens of a key that the event does not concern. -/
theorem Inv.others {k : QueryKey} (hoff : c.event.on k s.inner.nextSubId = none) :
    ((c.tokens s.tokens).countP (fun t => decide (t.key = k)) =
        s.tokens.countP fun t => decide (t.key = k)) ∧
      (∀ t ∈ s.tokens, t.key = k → t ∈ c.tokens s.tokens) ∧
      ((c.handles s.handles).countP (fun h => decide (h.1 = k)) =
        s.handles.countP fun h => decide (h.1 = k)) ∧
      ∀ id, (k, id) ∈ c.handles s.handles ↔ (k, id) ∈ s.handles := by
  have herase : ∀ token : MutationToken, token.key ≠ k →
      ((s.tokens.erase token).countP (fun t => decide (t.key = k)) =
        s.tokens.countP fun t => decide (t.key = k)) ∧
      ∀ t ∈ s.tokens, t.key = k → t ∈ s.tokens.erase token := by
    intro token hne
    refine ⟨?_, fun t ht hk => (List.mem_erase_of_ne ?_).mpr ht⟩
    · rw [List.countP_erase]
      simp [hne]
    · rintro rfl
      exact hne hk
  by_cases hacc : c.event.accounts = true
  · cases hev : c.event <;> rw [hev] at hacc hoff <;>
      simp only [Event.on, ite_eq_right_iff, reduceCtorEq, imp_false] at hoff
    case subscribe key fetcher compare opts =>
      obtain ⟨h₁, h₂⟩ := h.subscribe_outcome hs hev
      rw [h₁, h₂]
      refine ⟨rfl, fun _ ht _ => ht, ?_, fun id => ?_⟩
      · simp [hoff]
      · have hoff' : k ≠ key := fun h => hoff h.symm
        simp [hoff']
    case unsubscribe key subId =>
      obtain ⟨h₁, h₂⟩ := Call.unsubscribe s.handles s.tokens hev
      rw [h₁, h₂]
      refine ⟨rfl, fun _ ht _ => ht, ?_, fun id => ?_⟩
      · rw [List.countP_erase]
        simp [hoff]
      · refine List.mem_erase_of_ne ?_
        rintro ⟨⟩
        exact hoff rfl
    case mutateBegin key optimistic =>
      obtain ⟨e, -, h₁, h₂⟩ := h.begin_outcome hs hev
      rw [h₁, h₂]
      refine ⟨?_, fun _ ht _ => List.mem_append_left _ ht, rfl, fun _ => Iff.rfl⟩
      simp [hoff]
    case mutateCommit token result flags =>
      obtain ⟨h₁, h₂⟩ := Call.mutateCommit s.handles s.tokens hev
      rw [h₁, h₂]
      exact ⟨(herase token hoff).1, (herase token hoff).2, rfl, fun _ => Iff.rfl⟩
    case mutateAbort token flags =>
      obtain ⟨h₁, h₂⟩ := Call.mutateAbort s.handles s.tokens hev
      rw [h₁, h₂]
      exact ⟨(herase token hoff).1, (herase token hoff).2, rfl, fun _ => Iff.rfl⟩
    all_goals cases hacc
  · obtain ⟨h₁, h₂⟩ := Call.of_neutral (Bool.eq_false_of_not_eq_true hacc) s.handles s.tokens
    rw [h₁, h₂]
    exact ⟨rfl, fun _ ht _ => ht, rfl, fun _ => Iff.rfl⟩

/-- Every event keeps the books of the key it acts on. -/
theorem Inv.owned_apply {k : QueryKey} {kev : KeyEvent V F} {e : EntryCore V F}
    (hat : s.inner.At c.event k kev e) :
    (kev.apply s.inner.defaults c.now e).Owned k (c.tokens s.tokens) (c.handles s.handles) := by
  obtain ⟨-, hown, -, -⟩ := h.subject hat.subject
  by_cases hacc : c.event.accounts = true
  · have hon := hat.on
    have hen := hs.enabled
    generalize hev : c.event = ev at hacc hon hen
    cases Event.on_inv hon with
    | @subscribe fetcher compare opts =>
        obtain ⟨h₁, h₂⟩ := h.subscribe_outcome hs hev
        rw [h₁, h₂]
        have hserved : e.SameOwner (e.served fetcher compare opts) := ⟨rfl, rfl, rfl, fun _ => id⟩
        refine (hown.same hserved).joined ?_ opts
        intro hmem
        exact absurd (h.handle_lt _ hmem) (lt_irrefl _)
    | unsubscribe =>
        obtain ⟨h₁, h₂⟩ := Call.unsubscribe s.handles s.tokens hev
        rw [h₁, h₂]
        exact hown.left h.handles_nodup hen
    | @mutateBegin optimistic =>
        obtain ⟨e₁, hsub, h₁, h₂⟩ := h.begin_outcome hs hev
        rw [hat.subject] at hsub
        cases hsub
        rw [h₁, h₂]
        exact hown.begun optimistic
    | @mutateCommit token result flags hk =>
        subst hk
        obtain ⟨h₁, h₂⟩ := Call.mutateCommit s.handles s.tokens hev
        rw [h₁, h₂]
        exact hown.released rfl hen (.resolved _ token result flags c.now) fun o ho =>
          EntryCore.slot_of_resolved _ token result flags c.now ho
    | @mutateAbort token flags hk =>
        subst hk
        obtain ⟨h₁, h₂⟩ := Call.mutateAbort s.handles s.tokens hev
        rw [h₁, h₂]
        exact hown.released rfl hen (.rolledBack _ token _) fun o ho =>
          EntryCore.slot_of_rolledBack _ token _ ho
    | _ => cases hacc
  · have hacc := Bool.eq_false_of_not_eq_true hacc
    obtain ⟨h₁, h₂⟩ := Call.of_neutral hacc s.handles s.tokens
    rw [h₁, h₂]
    exact hown.same (.apply e _ _ ((Event.accounts_of_on hat.on).trans hacc))

/-- A token that is outstanding after a step was so before, or was handed out by it. -/
theorem Inv.token_of_call {t : MutationToken} (ht : t ∈ c.tokens s.tokens) :
    t ∈ s.tokens ∨ ∃ optimistic, c.event = .mutateBegin t.key optimistic := by
  cases hev : c.event with
  | mutateBegin key optimistic =>
      obtain ⟨e, -, -, h₂⟩ := h.begin_outcome hs hev
      rw [h₂] at ht
      rcases List.mem_append.mp ht with ht | ht
      · exact .inl ht
      · rw [List.mem_singleton.mp ht]
        exact .inr ⟨optimistic, rfl⟩
  | mutateCommit token result flags =>
      rw [(Call.mutateCommit s.handles s.tokens hev).2] at ht
      exact .inl (List.mem_of_mem_erase ht)
  | mutateAbort token flags =>
      rw [(Call.mutateAbort s.handles s.tokens hev).2] at ht
      exact .inl (List.mem_of_mem_erase ht)
  | subscribe key fetcher compare opts =>
      rw [(h.subscribe_outcome hs hev).2] at ht
      exact .inl ht
  | unsubscribe key subId =>
      rw [(Call.unsubscribe s.handles s.tokens hev).2] at ht
      exact .inl ht
  | _ =>
      rw [(Call.of_neutral (by rw [hev]; rfl) s.handles s.tokens).2] at ht
      exact .inl ht

/-- A handle that is live after a step was so before, or is the next subscription. -/
theorem Inv.handle_of_call {x : QueryKey × Nat} (hx : x ∈ c.handles s.handles) :
    x ∈ s.handles ∨ (x.2 = s.inner.nextSubId ∧
      ∃ fetcher compare opts, c.event = .subscribe x.1 fetcher compare opts) := by
  cases hev : c.event with
  | subscribe key fetcher compare opts =>
      rw [(h.subscribe_outcome hs hev).1] at hx
      rcases List.mem_append.mp hx with hx | hx
      · exact .inl hx
      · rw [List.mem_singleton.mp hx]
        exact .inr ⟨rfl, fetcher, compare, opts, rfl⟩
  | unsubscribe key subId =>
      rw [(Call.unsubscribe s.handles s.tokens hev).1] at hx
      exact .inl (List.mem_of_mem_erase hx)
  | mutateBegin key optimistic =>
      obtain ⟨e, -, h₁, -⟩ := h.begin_outcome hs hev
      rw [h₁] at hx
      exact .inl hx
  | mutateCommit token result flags =>
      rw [(Call.mutateCommit s.handles s.tokens hev).1] at hx
      exact .inl hx
  | mutateAbort token flags =>
      rw [(Call.mutateAbort s.handles s.tokens hev).1] at hx
      exact .inl hx
  | _ =>
      rw [(Call.of_neutral (by rw [hev]; rfl) s.handles s.tokens).1] at hx
      exact .inl hx

/-- No handle is handed out twice: the id of a new one is above all others. -/
theorem Inv.handles_nodup_step : (c.handles s.handles).Nodup := by
  cases hev : c.event with
  | subscribe key fetcher compare opts =>
      rw [(h.subscribe_outcome hs hev).1]
      refine List.Nodup.append h.handles_nodup (List.nodup_singleton _) ?_
      rintro x hx hx'
      rw [List.mem_singleton.mp hx'] at hx
      exact absurd (h.handle_lt _ hx) (lt_irrefl _)
  | unsubscribe key subId =>
      rw [(Call.unsubscribe s.handles s.tokens hev).1]
      exact h.handles_nodup.erase _
  | mutateBegin key optimistic =>
      obtain ⟨e, -, h₁, -⟩ := h.begin_outcome hs hev
      rw [h₁]
      exact h.handles_nodup
  | mutateCommit token result flags =>
      rw [(Call.mutateCommit s.handles s.tokens hev).1]
      exact h.handles_nodup
  | mutateAbort token flags =>
      rw [(Call.mutateAbort s.handles s.tokens hev).1]
      exact h.handles_nodup
  | _ =>
      rw [(Call.of_neutral (by rw [hev]; rfl) s.handles s.tokens).1]
      exact h.handles_nodup

/-- The entry an event leaves: well formed and accounted for, of the same incarnation, with a seq that did
not fall. -/
theorem Inv.after {k : QueryKey} {kev : KeyEvent V F} {e : EntryCore V F}
    (hat : s.inner.At c.event k kev e) :
    (s.inner.after c.now k kev e).Shape ∧
      (s.inner.after c.now k kev e).Owned k (c.tokens s.tokens) (c.handles s.handles) ∧
      (s.inner.after c.now k kev e).incarnation = e.incarnation ∧
      e.seq ≤ (s.inner.after c.now k kev e).seq ∧
      e.incarnation < s'.inner.nextIncarnation := by
  obtain ⟨hshape, -, hslot, hfrom⟩ := h.subject hat.subject
  have hh := h.handled hs
  refine ⟨?_, ?_, (Inner.after_frame k kev e).2, ?_, ?_⟩
  · exact (hshape.react hslot s.inner.defaults c.now kev).settled c.now _
  · exact ((h.owned_apply hs hat).same (.react e _ _ kev)).same (.settled _ c.now _)
  · have h₁ := EntryCore.seq_le_apply e s.inner.defaults c.now kev
    have h₂ := EntryCore.seq_le_react e s.inner.defaults c.now kev
    rw [Inner.after, EntryCore.settled_seq]
    exact h₁.trans h₂
  · have hnext := hh.nextIncarnation
    rcases hfrom with he | ⟨he, rfl, hc⟩
    · have := h.incarnation k e he
      omega
    · have := Inner.allocated_of_creates hat.on hc he
      have hinc : (EntryCore.new k s.inner.nextIncarnation : EntryCore V F).incarnation =
        s.inner.nextIncarnation := rfl
      omega

/-- An entry whose key has a live handle or an outstanding token is not removed. -/
theorem Inv.kept {k : QueryKey} {e : EntryCore V F} (he : s.inner.entry k = some e)
    (hbusy : 0 < e.subscribers ∨ 0 < e.mutationActive) : (s'.inner.entry k).isSome := by
  refine (h.handled hs).entry_isSome he ?_
  rcases hbusy with hb | hb
  · have : e.subscribers ≠ 0 := by omega
    simp [EntryCore.isQuiescent, this]
  · have : e.mutationActive ≠ 0 := by omega
    simp [EntryCore.isQuiescent, this]

/-- A key on which an event acts that creates entries has one afterwards. -/
theorem Inv.created {k : QueryKey} {kev : KeyEvent V F}
    (hon : c.event.on k s.inner.nextSubId = some kev) (hc : kev.creates = true) :
    (s'.inner.entry k).isSome := by
  have hat : s.inner.At c.event k kev ((s.inner.entry k).getD (.new k s.inner.nextIncarnation)) :=
    ⟨hon, by rw [Inner.subject, if_pos hc], by cases kev <;> first | rfl | cases hc⟩
  rw [hat.entry (h.handled hs)]
  rfl

/-- A flight is an old one, or it starts with the event, for the entry that the event leaves. -/
theorem Inv.flight_of_step {f : Flight} (hf : f ∈ s'.flights) :
    f ∈ s.flights ∨ ∃ kev e, s.inner.At c.event f.key kev e ∧ f.incarnation = e.incarnation ∧
      f.seq = (s.inner.after c.now f.key kev e).seq := by
  rw [next_flights hs] at hf
  rcases List.mem_append.mp hf with hold | hnew
  · exact .inl hold
  · obtain ⟨fetcher, hx⟩ := Effect.mem_flights.mp hnew
    obtain ⟨kev, e, hat, hst, hinc, hseq⟩ := (h.handled hs).startFetch hx
    refine .inr ⟨kev, e, hat, hinc, ?_⟩
    rw [hseq, Inner.after, EntryCore.settled_seq, KeyEvent.react, if_pos hst]
    rfl

/-! Each part of the invariant by itself: an entry is either one that the event does not concern, or the
one that the event leaves. -/

/-- Incarnations are below the next one. -/
theorem Inv.incarnation_step {k : QueryKey} {e' : EntryCore V F} (he' : s'.inner.entry k = some e') :
    e'.incarnation < s'.inner.nextIncarnation := by
  have hh := h.handled hs
  rcases hh.inversion he' with ⟨-, he⟩ | ⟨kev, e, hat, rfl⟩
  · have hlt := h.incarnation k e' he
    have hnext := hh.nextIncarnation
    omega
  · obtain ⟨-, -, hinc, -, hlt⟩ := h.after hs hat
    rw [hinc]
    exact hlt

/-- So are those of the flights that were ever started. -/
theorem Inv.flight_lt_step {f : Flight} (hf : f ∈ s'.flights) :
    f.incarnation < s'.inner.nextIncarnation := by
  rcases h.flight_of_step hs hf with hold | ⟨kev, e, hat, hinc, -⟩
  · have hlt := h.flight_lt f hold
    have hnext := (h.handled hs).nextIncarnation
    omega
  · rw [hinc]
    exact (h.after hs hat).2.2.2.2

/-- No flight is ahead of the entry of its incarnation: an old one is not, because the seq of an entry does
not fall and a new entry has a new incarnation, and one that starts has the seq of its entry. -/
theorem Inv.flight_le_step {f : Flight} (hf : f ∈ s'.flights) {e' : EntryCore V F}
    (he' : s'.inner.entry f.key = some e') (heq : e'.incarnation = f.incarnation) : f.seq ≤ e'.seq := by
  have hh := h.handled hs
  rcases h.flight_of_step hs hf with hold | ⟨kev, e, hat, -, hseq⟩
  · rcases hh.inversion he' with ⟨-, he⟩ | ⟨kev, e, hat, rfl⟩
    · exact h.flight_le f hold e' he heq
    · obtain ⟨-, -, hinc, hseq, -⟩ := h.after hs hat
      rw [hinc] at heq
      rcases (h.subject hat.subject).2.2.2 with he | ⟨-, rfl, -⟩
      · exact (h.flight_le f hold e he heq).trans hseq
      · have hlt := h.flight_lt f hold
        have hfresh : s.inner.nextIncarnation = f.incarnation := heq
        omega
  · rw [hat.entry hh] at he'
    cases he'
    exact hseq.le

/-- The ids of live handles are below the next one. -/
theorem Inv.handle_lt_step {x : QueryKey × Nat} (hx : x ∈ s'.handles) : x.2 < s'.inner.nextSubId := by
  rw [next_handles hs] at hx
  rw [(h.handled hs).nextSubId]
  rcases h.handle_of_call hs hx with hold | ⟨hnew, fetcher, compare, opts, hev⟩
  · exact Nat.lt_add_right _ (h.handle_lt x hold)
  · rw [hnew, hev]
    exact Nat.lt_succ_self _

/-- Every entry is well formed. -/
theorem Inv.shape_step {k : QueryKey} {e' : EntryCore V F} (he' : s'.inner.entry k = some e') :
    e'.Shape := by
  rcases (h.handled hs).inversion he' with ⟨-, he⟩ | ⟨kev, e, hat, rfl⟩
  · exact h.shape k e' he
  · exact (h.after hs hat).1

/-- Every entry counts the handles and the tokens of its key. -/
theorem Inv.owned_step {k : QueryKey} {e' : EntryCore V F} (he' : s'.inner.entry k = some e') :
    e'.Owned k s'.tokens s'.handles := by
  rw [next_tokens hs, next_handles hs]
  rcases (h.handled hs).inversion he' with ⟨hoff, he⟩ | ⟨kev, e, hat, rfl⟩
  · obtain ⟨hcount, hmem, hcount', hmem'⟩ := h.others hs hoff
    exact (h.owned k e' he).others hcount hmem hcount' hmem'
  · exact (h.after hs hat).2.1

/-- An outstanding token has an entry to settle on. -/
theorem Inv.token_entry_step {t : MutationToken} (ht : t ∈ s'.tokens) :
    (s'.inner.entry t.key).isSome := by
  rw [next_tokens hs] at ht
  rcases h.token_of_call hs ht with hold | ⟨optimistic, hev⟩
  · obtain ⟨e, he⟩ := Option.isSome_iff_exists.mp (h.token_entry t hold)
    exact h.kept hs he (.inr (h.mutations_pos hold he))
  · have hon : c.event.on t.key s.inner.nextSubId = some (.mutateBegin optimistic) := by
      rw [hev]
      exact if_pos rfl
    exact h.created hs hon rfl

/-- A live handle has an entry to unsubscribe from. -/
theorem Inv.handle_entry_step {x : QueryKey × Nat} (hx : x ∈ s'.handles) :
    (s'.inner.entry x.1).isSome := by
  rw [next_handles hs] at hx
  rcases h.handle_of_call hs hx with hold | ⟨-, fetcher, compare, opts, hev⟩
  · obtain ⟨e, he⟩ := Option.isSome_iff_exists.mp (h.handle_entry x hold)
    exact h.kept hs he (.inl (h.subscribers_pos hold he))
  · have hon : c.event.on x.1 s.inner.nextSubId =
        some (.subscribe s.inner.nextSubId fetcher compare opts) := by
      rw [hev]
      exact if_pos rfl
    exact h.created hs hon rfl

/-- **Every step preserves the invariant.** -/
theorem Inv.step : s'.Inv where
  tx := (h.handled hs).tx h.tx
  incarnation _ _ he' := h.incarnation_step hs he'
  flight_lt _ hf := h.flight_lt_step hs hf
  flight_le _ hf _ he' heq := h.flight_le_step hs hf he' heq
  handles_nodup := by
    rw [next_handles hs]
    exact h.handles_nodup_step hs
  handle_lt _ hx := h.handle_lt_step hs hx
  shape _ _ he' := h.shape_step hs he'
  owned _ _ he' := h.owned_step hs he'
  token_entry _ ht := h.token_entry_step hs ht
  handle_entry _ hx := h.handle_entry_step hs hx

end step

/-- Every shell-produced run keeps the invariant. -/
theorem inv_of_run [Platform] {defaults : QueryOptions}
    {log : List (Trace.Record (Shell V F) (Call V F))} {s : Shell V F} (h : Run defaults log s) :
    s.Inv :=
  h.invariant (inv_init defaults) fun _ _ _ hi hs => hi.step hs

/-- The options carry the defaults of the client through a run. -/
theorem defaults_of_run [Platform] {defaults : QueryOptions}
    {log : List (Trace.Record (Shell V F) (Call V F))} {s : Shell V F} (h : Run defaults log s) :
    s.inner.defaults = defaults := by
  have hboth : s.Inv ∧ s.inner.defaults = defaults := by
    refine h.invariant (I := fun s => s.Inv ∧ s.inner.defaults = defaults)
      ⟨inv_init defaults, rfl⟩ fun _ _ _ hi hs => ⟨hi.1.step hs, ?_⟩
    rw [(hi.1.handled hs).defaults]
    exact hi.2
  exact hboth.2

/-! ## Assertion safety -/

/-- **Global invariant and assertion safety.** At the end of every shell-produced run, hence after
every event, all entries satisfy the invariant of the source; a live handle and an outstanding token
find their entry; and `handle` ends without a panic on every event the shell may feed next. -/
theorem assertion_safety [Platform] {defaults : QueryOptions}
    {log : List (Trace.Record (Shell V F) (Call V F))} {s : Shell V F} (h : Run defaults log s) :
    (∀ k e, s.inner.entry k = some e →
      e.dataSeq ≤ e.seq ∧ e.errorSeq ≤ e.seq ∧
      (∀ n, e.inflight = some n → n = e.seq ∧ e.dataSeq < n ∧ e.errorSeq < n ∧
        e.mutationActive = 0 ∧ e.invalidated = false ∧ e.fetcher.isSome) ∧
      (∀ o, e.optimistic = some o → o.prevDataSeq < o.writtenSeq ∧ o.writtenSeq ≤ e.seq ∧
        ⟨k, some o.writtenSeq⟩ ∈ s.tokens) ∧
      e.subscribers = e.opts.subs.entries.length ∧
      e.subscribers = s.handles.countP (fun x => decide (x.1 = k)) ∧
      e.mutationActive = s.tokens.countP (fun t => decide (t.key = k))) ∧
    (∀ x ∈ s.handles, (s.inner.entry x.1).isSome) ∧
    (∀ t ∈ s.tokens, (s.inner.entry t.key).isSome) ∧
    ∀ (ev : Event V F) (now : Instant) (scan : List QueryKey), s.Enabled ev →
      (ev.scans = true → s.inner.IsScan scan) → ∃ r, s.inner.handle ev now scan = .ok r := by
  have hi := inv_of_run h
  refine ⟨fun k e he => ?_, hi.handle_entry, hi.token_entry, fun ev now scan hen hscan => ?_⟩
  · have hshape := hi.shape k e he
    have hown := hi.owned k e he
    refine ⟨hshape.dataSeq, hshape.errorSeq, fun n hn => ?_, fun o ho => ?_, hown.records,
      hown.subscribers, hown.mutations⟩
    · obtain ⟨h₁, h₂, h₃, h₄, h₅, h₆⟩ := hshape.flying n hn
      exact ⟨h₁, h₂, h₃, h₄, h₅, h₆⟩
    · obtain ⟨h₁, h₂, -, -⟩ := hshape.saved o ho
      exact ⟨h₁, h₂, hown.owner o ho⟩
  · obtain ⟨inner, out, hrun, -⟩ := hi.step_exists hen now hscan
    exact ⟨_, hrun⟩

section witness

/-- A clock whose instants reach far beyond the times of the example run. -/
local instance exampleClock : Platform := ⟨10 ^ 30⟩

/-- A subscription, an optimistic mutation over the fetch it started, the late answer of that fetch,
the failure of the mutation, and a read that joins the fetch it left. -/
def exampleRun : List (Event Nat Unit × Instant × List QueryKey) :=
  let key : QueryKey := ⟨0, []⟩
  [(.subscribe key (some ()) none .default, 0, []),
   (.mutateBegin key (some 7), 1, []),
   (.commitOk key 0 1 5, 2, []),
   (.mutateCommit ⟨key, some 3⟩ (.error 9) ⟨true, true, true⟩, 3, []),
   (.read key .ensureFresh (some ()) none .default, 4, []),
   (.commitOk key 0 4 6, 5, [])]

theorem exampleRun_runs : ∃ log s,
    (init .default : Shell Nat Unit).exec exampleRun = some (log, s) ∧ log.length = 6 := by
  have hlen : (((init .default : Shell Nat Unit).exec exampleRun).map fun r => r.1.length) =
      some 6 := by decide +kernel
  obtain ⟨⟨log, s⟩, hex, hl⟩ := Option.map_eq_some_iff.mp hlen
  exact ⟨log, s, hex, hl⟩

theorem assertion_safety_example : ∃ log s, Run .default log s ∧ log.length = 6 ∧
    (∀ x ∈ s.handles, (s.inner.entry x.1).isSome) ∧
    ∃ r, s.inner.handle (.mutateSet ⟨0, []⟩ (3 : Nat) : Event Nat Unit) 5 [] = .ok r := by
  obtain ⟨log, s, hex, hlen⟩ := exampleRun_runs
  have hrun : Run .default log s := run_of_exec hex
  have hsafe := assertion_safety hrun
  exact ⟨log, s, hrun, hlen, hsafe.2.1, hsafe.2.2.2 _ _ _ trivial nofun⟩

end witness

end Shell

end SwrCore
