import SwrCore.Client.Load
import SwrCore.Shell.Snapshots
import SwrCore.Shell.Timers

/-!
# Every step of the client takes something away

* `Shell.Inv.batch_cost`, `Shell.Inv.landed` — what a call of `handle` emits, and what a result does.
* `Client.Targets` — no target lies beyond the seq of its entry.
* `Client.load_landing`, `Client.load_revalidated`, `Client.load_read` — the load after a result, a poke
  and a `Read`.
* `Client.Internal.drains` — a step lowers the load, or it is a `Read` or the end of a dead channel.
-/

set_option linter.unusedSectionVars false

namespace SwrCore

variable {V F : Type}

/-! ## What one call of `handle` costs -/

/-- The end of a fetch task delivers its flight, to the key of the flight. -/
theorem Event.landing_delivers {ev : Event V F} {f : Flight} (h : ev.landing? = some f) :
    ev.delivers f ∧ ev.key? = some f.key ∧ ev.task? = some (.fetch f) := by
  cases ev <;> cases h <;> exact ⟨rfl, rfl, rfl⟩

namespace EntryCore

/-- The post-rules schedule one timer of each kind at most. -/
theorem timers_length [Platform] (e : EntryCore V F) (defaults : QueryOptions) (now : Instant)
    (key : QueryKey) (m : Marks V F) : (e.timers defaults now key m).length ≤ 2 := by
  have hgc : ∀ e : EntryCore V F, (e.gcTimer defaults now key).length ≤ 1 := by
    intro e
    unfold gcTimer
    split_ifs
    · rw [List.length_map]
      cases Instant.checkedAdd now (e.opts.gcTime defaults.gcTime) <;> simp
    · exact Nat.zero_le _
  have hrefresh : ∀ e : EntryCore V F, (e.refreshTimer now key).length ≤ 1 := by
    intro e
    unfold refreshTimer
    split_ifs
    · rw [List.length_map]
      cases e.refreshAt now <;> simp
    · exact Nat.zero_le _
  have htouched : (if m.touched then e.gcTimer defaults now key else []).length ≤ 1 := by
    split_ifs
    · exact hgc e
    · exact Nat.zero_le _
  have hmarked : (if m.refresh then (if m.touched then e.gcArmed else e).refreshTimer now key
      else []).length ≤ 1 := by
    split_ifs
    · exact hrefresh _
    · exact hrefresh _
    · exact Nat.zero_le _
  rw [timers, List.length_append]
  omega

end EntryCore

namespace Shell

section step

variable [Platform] {s s' : Shell V F} {c : Call V F} (h : s.Inv) (hs : Step s c s')

include h hs

/-- The batch of an event that is addressed to a key concerns that key. -/
theorem Inv.effects_of_key {k : QueryKey} (hkey : c.event.key? = some k) :
    Effect.of k c.out.effects = c.out.effects := by
  refine Effect.of_self fun x hx => ?_
  obtain ⟨kev, e, hat, -⟩ := (h.handled hs).effect hx
  exact (Event.on_key hkey hat.on).symm

/-- An event that finds nothing to act on emits nothing. -/
theorem Inv.effects_of_none {k : QueryKey} (hkey : c.event.key? = some k)
    (hnone : ∀ kev e, ¬ s.inner.At c.event k kev e) : c.out.effects = [] := by
  refine List.eq_nil_iff_forall_not_mem.mpr fun x hx => ?_
  obtain ⟨kev, e, hat, -⟩ := (h.handled hs).effect hx
  have hk := Event.on_key hkey hat.on
  exact hnone kev e (hk ▸ hat)

/-- Nothing but a collection takes the entry of a channel away. -/
theorem Inv.keeps_channel (hgc : ∀ k g, c.event ≠ .timerFired k .gc g) {k : QueryKey}
    {e : EntryCore V F} (he : s.inner.entry k = some e) :
    ∃ e', s'.inner.entry k = some e' ∧ e'.tx = e.tx := by
  cases he' : s'.inner.entry k with
  | none => exact absurd (h.removed hs he he').1 (hgc _ _)
  | some e' =>
      refine ⟨e', rfl, ?_⟩
      rcases (h.handled hs).inversion he' with ⟨-, hold⟩ | ⟨kev, e₀, hat, rfl⟩
      · rw [he] at hold
        cases hold
        rfl
      · rw [(Inner.after_frame k kev e₀).1, hat.of_entry he]

/-- What a batch costs: a flight if one starts, two timers, and the snapshot if there is one. -/
theorem Inv.batch_cost {k : QueryKey} (hkey : c.event.key? = some k) {kev : KeyEvent V F}
    {e : EntryCore V F} (hat : s.inner.At c.event k kev e) (ns : Finset Nat)
    (callers : Nat → Phase V F) :
    Client.batchCost ns callers c.out.effects ≤
      (if kev.starts s.inner.defaults c.now e then taskCost ns.card + 1 else 0) + 2 +
        if kev.notifies s.inner.defaults c.now e then
          1 + ∑ n ∈ ns, (callers n).noticeCost ns.card e.tx
            (s.inner.after c.now k kev e).snapshotNow else 0 := by
  have htimers : ∀ xs : List (Effect V F), (∀ x ∈ xs, ∃ kind deadline generation,
      x = .scheduleTimer k kind deadline generation) → Client.batchCost ns callers xs = xs.length := by
    intro xs hxs
    induction xs with
    | nil => rfl
    | cons x xs ih =>
        obtain ⟨kind, deadline, generation, rfl⟩ := hxs x List.mem_cons_self
        rw [Client.batchCost_cons, ih fun y hy => hxs y (List.mem_cons_of_mem _ hy),
          List.length_cons]
        simp only [Effect.cost]
        omega
  have hlength := (kev.react s.inner.defaults c.now e).timers_length s.inner.defaults c.now k
    (kev.marks s.inner.defaults c.now k e)
  have htx : (kev.react s.inner.defaults c.now e).tx = e.tx :=
    (EntryCore.SameFrame.react _ _ e kev).tx
  rw [← h.effects_of_key hs hkey, hat.effects (h.handled hs), EntryCore.batch,
    Client.batchCost_append, Client.batchCost_append, htimers _ fun x hx => Inner.timers_eq hx]
  have hfetch : Client.batchCost ns callers (kev.marks s.inner.defaults c.now k e).effects ≤
      if kev.starts s.inner.defaults c.now e then taskCost ns.card + 1 else 0 := by
    simp only [KeyEvent.marks]
    split_ifs
    · unfold EntryCore.fetchEffect
      cases (kev.react s.inner.defaults c.now e).fetcher <;> simp [Effect.cost]
    · exact Nat.zero_le _
  have hnotice : ∀ notify : Bool, Client.batchCost ns callers
      (if notify then [.notify e.tx (s.inner.after c.now k kev e).snapshotNow] else []) ≤
      if notify then 1 + ∑ n ∈ ns, (callers n).noticeCost ns.card e.tx
        (s.inner.after c.now k kev e).snapshotNow else 0 := by
    intro notify
    cases notify <;> simp [Effect.cost]
  rw [htx]
  exact Nat.add_le_add (Nat.add_le_add hfetch hlength) (hnotice _)

/-- A batch of an event that is addressed to a key holds four effects at most. -/
theorem Inv.batch_length {k : QueryKey} (hkey : c.event.key? = some k) :
    c.out.effects.length ≤ 4 := by
  by_cases hat : ∃ kev e, s.inner.At c.event k kev e
  · obtain ⟨kev, e, hat⟩ := hat
    have hlength := (kev.react s.inner.defaults c.now e).timers_length s.inner.defaults c.now k
      (kev.marks s.inner.defaults c.now k e)
    have hfetch : (kev.marks s.inner.defaults c.now k e).effects.length ≤ 1 := by
      simp only [KeyEvent.marks]
      split_ifs
      · unfold EntryCore.fetchEffect
        cases (kev.react s.inner.defaults c.now e).fetcher <;> simp
      · exact Nat.zero_le _
    rw [← h.effects_of_key hs hkey, hat.effects (h.handled hs), EntryCore.batch,
      List.length_append, List.length_append]
    split_ifs <;> simp only [List.length_cons, List.length_nil] <;> omega
  · rw [h.effects_of_none hs hkey fun kev e hat' => hat ⟨kev, e, hat'⟩]
    exact Nat.zero_le _

/-- The result that an entry waits for starts nothing, and takes its seqs to the front. -/
theorem Inv.landed {f : Flight} (hd : c.event.delivers f) (ha : Awaits f s) :
    ∃ kev e, s.inner.At c.event f.key kev e ∧ s.inner.entry f.key = some e ∧
      kev.starts s.inner.defaults c.now e = false ∧
      ((s.inner.after c.now f.key kev e).dataSeq = e.seq ∨
        (s.inner.after c.now f.key kev e).errorSeq = e.seq) := by
  obtain ⟨e, he, hinc, hfly⟩ := ha
  have hflying := (h.shape _ e he).flying _ hfly
  have hdrop : e.dropsCommit f.incarnation f.seq = false :=
    EntryCore.dropsCommit_eq_false.mpr ⟨hinc, hflying.mutationActive, hfly⟩
  generalize c.event = ev at hd
  cases ev <;> simp only [Event.delivers] at hd
  case commitOk key incarnation seq value =>
    subst hd
    have hstarts : (KeyEvent.commitOk incarnation seq value : KeyEvent V F).starts
        s.inner.defaults c.now e = false := rfl
    refine ⟨.commitOk incarnation seq value, e, ⟨if_pos rfl, he, rfl⟩, he, hstarts, .inl ?_⟩
    rw [Inner.after_of (f := EntryCore.dataSeq) fun _ _ _ _ => rfl, KeyEvent.react, hstarts,
      if_neg Bool.false_ne_true, KeyEvent.apply, hdrop, if_neg Bool.false_ne_true]
    exact hflying.seq
  case commitErr key incarnation seq error =>
    subst hd
    have hstarts : (KeyEvent.commitErr incarnation seq error : KeyEvent V F).starts
        s.inner.defaults c.now e = false := rfl
    refine ⟨.commitErr incarnation seq error, e, ⟨if_pos rfl, he, rfl⟩, he, hstarts, .inr ?_⟩
    rw [Inner.after_of (f := EntryCore.errorSeq) fun _ _ _ _ => rfl, KeyEvent.react, hstarts,
      if_neg Bool.false_ne_true, KeyEvent.apply, hdrop, if_neg Bool.false_ne_true]
    exact hflying.seq

end step

end Shell

namespace Client

/-! ## Targets -/

/-- No target lies beyond the seq of the entry it is waited for. -/
def Targets (s : Client V F) : Prop :=
  ∀ n w, (s.callers n).waiter? = some w →
    ∀ e, s.shell.inner.entry w.rx.key = some e → e.tx = w.rx → w.target ≤ e.seq

/-- A `Read` that waits takes a target that its entry has reached or is under way to, and seqs only grow. -/
theorem Targets.step [Platform] {s s' : Client V F} {a : Act V F} (h : s.Targets) (hw : s.Waits)
    (hi : s.shell.Inv) (hs : Step s a s') : s'.Targets := by
  intro n w hwaiter
  rcases hs.waiter hwaiter with hold | ⟨c, rfl, -, hev, hout, -⟩
  · refine hs.entry_keeps hi (hw.channel n w hold).2 (h n w hold) ?_
    intro c kev e hcall hat _ _ hle
    exact hle.trans (hi.after (hs.calls hcall).shell hat).2.2.2.1
  · obtain ⟨-, -, -, hkey, e', he', -, -, -, hseq, -⟩ := hi.read_wait (hs.calls rfl).shell hev hout
    intro e he _
    rw [hkey, he'] at he
    cases he
    exact hseq.ge

/-- So in every run no target lies beyond its entry. -/
theorem Run.targets [Platform] {defaults : QueryOptions} {log : Log V F} {s : Client V F}
    (h : Run defaults log s) : s.Targets := by
  refine h.history (P := fun _ s => s.Targets) (fun n w hw => by cases hw) ?_
  intro log s a s' hr hJ hs
  exact hJ.step (Run.waits hr) (Run.inv hr) hs

/-! ## Calls of `handle` -/

/-- A waiter stalls at an idle entry that does not meet its target. -/
theorem stalls_iff {inner : Inner V F} {w : Waiter V F} :
    inner.stalls w = true ↔ ∃ e, inner.entry w.rx.key = some e ∧ e.tx = w.rx ∧
      e.inflight = none ∧ e.mutationActive = 0 ∧ w.met e.dataSeq e.errorSeq = false := by
  simp only [Inner.stalls, Option.any_eq_true, Bool.and_eq_true, decide_eq_true_eq,
    Option.isNone_iff_eq_none, Bool.not_eq_true', and_assoc]

/-- An entry serves a waiter if it has the channel that the waiter watches. -/
theorem serves_iff {inner : Inner V F} {w : Waiter V F} :
    inner.serves w = true ↔ ∃ e, inner.entry w.rx.key = some e ∧ e.tx = w.rx := by
  simp only [Inner.serves, Option.any_eq_true, decide_eq_true_eq]

/-- An entry owes its waiters no more when nobody is newly stalled. -/
theorem owed_mono {inner inner' : Inner V F} {p : Phase V F} (A : Nat)
    (h : ∀ w, p.waiter? = some w → inner'.stalls w = true → inner.stalls w = true) :
    p.owed A inner' ≤ p.owed A inner := by
  unfold Phase.owed
  cases hw : p.waiter? with
  | none => exact le_refl _
  | some w =>
      simp only [Option.elim_some]
      by_cases hst : inner'.stalls w = true
      · rw [if_pos hst, if_pos (h w hw hst)]
      · rw [if_neg hst]
        exact Nat.zero_le _

/-- A snapshot costs nobody more than one that does not meet its target. -/
theorem notice_le (ns : Finset Nat) (callers : Nat → Phase V F) (tx : Channel) (sn : Snapshot V) :
    ∑ n ∈ ns, (callers n).noticeCost ns.card tx sn ≤ ns.card * unmetCost ns.card := by
  refine Finset.sum_le_card_nsmul _ _ _ fun n _ => ?_
  unfold Phase.noticeCost
  cases (callers n).waiter? with
  | none => exact Nat.zero_le _
  | some w =>
      simp only [Option.elim_some, unmetCost, startCost]
      split_ifs <;> omega

/-- A snapshot that meets everyone on its channel costs each a wake and a look. -/
theorem notice_le_of_met {ns : Finset Nat} {callers : Nat → Phase V F} {tx : Channel} {sn : Snapshot V}
    (hmet : ∀ n ∈ ns, ∀ w, (callers n).waiter? = some w → w.rx = tx →
      w.met sn.dataSeq sn.errorSeq = true) :
    ∑ n ∈ ns, (callers n).noticeCost ns.card tx sn ≤ ns.card * 2 := by
  refine Finset.sum_le_card_nsmul _ _ _ fun n hn => ?_
  unfold Phase.noticeCost
  cases hw : (callers n).waiter? with
  | none => exact Nat.zero_le _
  | some w =>
      simp only [Option.elim_some]
      split_ifs with hrx hm
      · exact le_refl _
      · exact absurd (hmet n hn w hw hrx) hm
      · exact Nat.zero_le _

section calls

variable [Platform] {s : Client V F} {shell : Shell V F} {c : Call V F} {ns : Finset Nat}
  (hi : s.shell.Inv) (hc : s.shell.Step c shell)

/-- The load after a call of `handle`. -/
theorem load_called : (s.called shell c).load ns =
    batchCost ns s.callers s.pending + batchCost ns s.callers c.out.effects +
      tasksCost ns.card (c.event.remaining s.tasks) +
      ((∑ n ∈ ns, (s.callers n).cost ns.card s.channels) +
        ∑ n ∈ ns, (s.callers n).owed ns.card shell.inner) := by
  have hpending : (s.called shell c).pending = s.pending ++ c.out.effects := by
    simp [pending, called]
  rw [load, hpending, batchCost_append]
  rfl

include hi hc

/-- An event of one key makes nobody owe more, if the entry it leaves stalls nobody newly. -/
theorem owed_le_of_kept {k : QueryKey} (hkey : c.event.key? = some k)
    (hkept : ∀ kev e, s.shell.inner.At c.event k kev e → ∀ n w, (s.callers n).waiter? = some w →
      w.rx.key = k → (s.shell.inner.after c.now k kev e).tx = w.rx → shell.inner.stalls w = true →
        s.shell.inner.stalls w = true) (A n : Nat) :
    (s.callers n).owed A shell.inner ≤ (s.callers n).owed A s.shell.inner := by
  refine owed_mono _ fun w hw hst => ?_
  obtain ⟨e', he', htx, hrest⟩ := stalls_iff.mp hst
  rcases (hi.handled hc).inversion he' with ⟨-, hold⟩ | ⟨kev, e, hat, rfl⟩
  · exact stalls_iff.mpr ⟨e', hold, htx, hrest⟩
  · have hk : k = w.rx.key := Event.on_key hkey hat.on
    exact hkept kev e (hk ▸ hat) n w hw hk.symm (hk ▸ htx) hst

/-- A call that collects nothing leaves nobody more `Read`s to come. -/
theorem stages_called (hgc : ∀ k g, c.event ≠ .timerFired k .gc g) :
    (s.called shell c).stages ns ≤ s.stages ns := by
  refine Finset.sum_le_sum fun n _ => ?_
  have hserves : ∀ w : Waiter V F, s.shell.inner.serves w = true →
      shell.inner.serves w = true := by
    intro w hw
    obtain ⟨e, he, htx⟩ := serves_iff.mp hw
    obtain ⟨e', he', htx'⟩ := hi.keeps_channel hc hgc he
    exact serves_iff.mpr ⟨e', he', htx'.trans htx⟩
  change (s.callers n).stage shell.inner ≤ (s.callers n).stage s.shell.inner
  cases hw : (s.callers n).waiter? with
  | none =>
      cases hp : s.callers n <;> rw [hp] at hw <;> first | exact le_refl _ | cases hw
  | some w =>
      rw [stage_of_waiter hw, stage_of_waiter hw]
      by_cases hs : s.shell.inner.serves w = true
      · rw [if_pos hs, if_pos (hserves w hs)]
      · rw [if_neg hs]
        split_ifs <;> omega

/-- The end of a fetch task works off a part of the load. -/
theorem load_landing (ht : s.Targets) {f : Flight} (hl : c.event.landing? = some f)
    (htask : .fetch f ∈ s.tasks) : (s.called shell c).load ns < s.load ns := by
  obtain ⟨hd, hkey, hev⟩ := Event.landing_delivers hl
  have htasks := tasksCost_erase (A := ns.card) htask
  have hremaining : c.event.remaining s.tasks = s.tasks.erase (.fetch f) := by
    unfold Event.remaining
    rw [hev]
  rw [load_called, hremaining, load]
  simp only [Task.cost, taskCost] at htasks
  by_cases ha : Shell.Awaits f s.shell
  · obtain ⟨kev, e, hat, he, hstarts, hfront⟩ := hi.landed hc hd ha
    have hmet : ∀ n w, (s.callers n).waiter? = some w → w.rx = e.tx →
        w.met (s.shell.inner.after c.now f.key kev e).dataSeq
          (s.shell.inner.after c.now f.key kev e).errorSeq = true := by
      intro n w hw hrx
      have hle := ht n w hw e (by rw [hrx, hi.tx _ e he]; exact he) hrx.symm
      exact met_iff.mpr (hfront.imp (fun h => hle.trans h.ge) fun h => hle.trans h.ge)
    have hnotice : ∑ n ∈ ns, (s.callers n).noticeCost ns.card e.tx
        (s.shell.inner.after c.now f.key kev e).snapshotNow ≤ ns.card * 2 :=
      notice_le_of_met fun n _ => hmet n
    have hbatch := hi.batch_cost hc hkey hat ns s.callers
    rw [hstarts, if_neg Bool.false_ne_true] at hbatch
    -- The entry that landed meets everyone, so nobody stalls at it.
    have howed : ∑ n ∈ ns, (s.callers n).owed ns.card shell.inner ≤
        ∑ n ∈ ns, (s.callers n).owed ns.card s.shell.inner := by
      refine Finset.sum_le_sum fun n _ => owed_le_of_kept hi hc hkey ?_ _ n
      intro kev' e₀ hat' n w hw hk htx hst
      obtain ⟨rfl, rfl⟩ := hat.unique hat'
      obtain ⟨e', he', -, -, -, hunmet⟩ := stalls_iff.mp hst
      rw [hk, hat.entry (hi.handled hc)] at he'
      cases he'
      rw [(Inner.after_frame _ _ e).1] at htx
      rw [hmet n w hw htx.symm] at hunmet
      cases hunmet
    have hnotify : (if kev.notifies s.shell.inner.defaults c.now e = true then
        1 + ∑ n ∈ ns, (s.callers n).noticeCost ns.card e.tx
          (s.shell.inner.after c.now f.key kev e).snapshotNow else 0) ≤ 1 + ns.card * 2 := by
      split_ifs <;> omega
    omega
  · obtain ⟨hinner, heffects⟩ := (hi.deliver hc hd).2 ha
    rw [hinner, heffects, batchCost_nil]
    omega

/-- A flight that starts pays for itself out of what its entry owes, or else meets everyone. -/
theorem owed_started {k : QueryKey} (hkey : c.event.key? = some k) {kev : KeyEvent V F}
    {e : EntryCore V F} (hat : s.shell.inner.At c.event k kev e)
    (he : s.shell.inner.entry k = some e) (hidle : e.inflight = none ∧ e.mutationActive = 0)
    (hfly : (s.shell.inner.after c.now k kev e).inflight ≠ none)
    (hseqs : (s.shell.inner.after c.now k kev e).dataSeq = e.dataSeq ∧
      (s.shell.inner.after c.now k kev e).errorSeq = e.errorSeq) :
    batchCost ns s.callers c.out.effects + ∑ n ∈ ns, (s.callers n).owed ns.card shell.inner ≤
      startCost ns.card + ∑ n ∈ ns, (s.callers n).owed ns.card s.shell.inner := by
  have hbatch := hi.batch_cost hc hkey hat ns s.callers
  have hsettled : ∀ n w, (s.callers n).waiter? = some w → w.rx = e.tx →
      shell.inner.stalls w = false := by
    intro n w _ hrx
    refine Bool.eq_false_of_not_eq_true fun hst => ?_
    obtain ⟨e', he', -, hnone, -⟩ := stalls_iff.mp hst
    rw [hrx, hi.tx _ e he, hat.entry (hi.handled hc)] at he'
    cases he'
    exact hfly hnone
  have hnew : ∀ n ∈ ns, (s.callers n).owed ns.card shell.inner ≤
      (s.callers n).owed ns.card s.shell.inner := by
    refine fun n _ => owed_le_of_kept hi hc hkey ?_ _ n
    intro kev' e₀ hat' n w hw _ htx hst
    obtain ⟨rfl, rfl⟩ := hat.unique hat'
    rw [(Inner.after_frame _ _ e).1] at htx
    rw [hsettled n w hw htx.symm] at hst
    cases hst
  have hsum := Finset.sum_le_sum hnew
  by_cases hunmet : ∃ n ∈ ns, ∃ w, (s.callers n).waiter? = some w ∧ w.rx = e.tx ∧
      w.met e.dataSeq e.errorSeq = false
  · -- A waiter with nothing under way pays for the flight that it waits for.
    obtain ⟨n, hn, w, hw, hrx, hm⟩ := hunmet
    have hstalls : s.shell.inner.stalls w = true := by
      refine stalls_iff.mpr ⟨e, ?_, hrx.symm, hidle.1, hidle.2, hm⟩
      rw [hrx, hi.tx _ e he]
      exact he
    have hbefore : (s.callers n).owed ns.card s.shell.inner = stallCost ns.card := by
      rw [Phase.owed, hw, Option.elim_some, if_pos hstalls]
    have hafter : (s.callers n).owed ns.card shell.inner = 0 := by
      rw [Phase.owed, hw, Option.elim_some, hsettled n w hw hrx, if_neg Bool.false_ne_true]
    have hrest : ∑ m ∈ ns.erase n, (s.callers m).owed ns.card shell.inner ≤
        ∑ m ∈ ns.erase n, (s.callers m).owed ns.card s.shell.inner :=
      Finset.sum_le_sum fun m hmem => hnew m (Finset.mem_of_mem_erase hmem)
    have hold := Finset.add_sum_erase ns (fun m => (s.callers m).owed ns.card s.shell.inner) hn
    have hnow := Finset.add_sum_erase ns (fun m => (s.callers m).owed ns.card shell.inner) hn
    have hnotice := notice_le ns s.callers e.tx (s.shell.inner.after c.now k kev e).snapshotNow
    simp only [stallCost] at hbefore
    split_ifs at hbatch <;> omega
  · -- Everyone who waits here is met already, and by the snapshot of the flight as well.
    have hnotice : ∑ m ∈ ns, (s.callers m).noticeCost ns.card e.tx
        (s.shell.inner.after c.now k kev e).snapshotNow ≤ ns.card * 2 := by
      refine notice_le_of_met fun m hm w hw hrx => ?_
      show w.met (s.shell.inner.after c.now k kev e).dataSeq
        (s.shell.inner.after c.now k kev e).errorSeq = true
      rw [hseqs.1, hseqs.2]
      by_contra hno
      exact hunmet ⟨m, hm, w, hw, hrx, Bool.eq_false_of_not_eq_true hno⟩
    unfold startCost
    split_ifs at hbatch <;> omega

/-- A poke costs at most one flight. -/
theorem load_revalidated {k : QueryKey} (hev : c.event = .revalidateRequested k) :
    (s.called shell c).load ns ≤ s.load ns + startCost ns.card := by
  have hkey : c.event.key? = some k := by rw [hev]; rfl
  have hremaining : c.event.remaining s.tasks = s.tasks := by rw [hev]; rfl
  have hon : c.event.on k s.shell.inner.nextSubId = some .revalidateRequested := by
    rw [hev]
    exact if_pos rfl
  rw [load_called, hremaining, load]
  suffices hshare : batchCost ns s.callers c.out.effects +
      ∑ n ∈ ns, (s.callers n).owed ns.card shell.inner ≤
        startCost ns.card + ∑ n ∈ ns, (s.callers n).owed ns.card s.shell.inner by omega
  cases he : s.shell.inner.entry k with
  | none =>
      have hnone : ∀ kev e, ¬ s.shell.inner.At c.event k kev e := by
        intro kev e hat
        cases hon.symm.trans hat.on
        have hsub : s.shell.inner.entry k = some e := hat.subject
        rw [he] at hsub
        cases hsub
      have howed : ∑ n ∈ ns, (s.callers n).owed ns.card shell.inner ≤
          ∑ n ∈ ns, (s.callers n).owed ns.card s.shell.inner :=
        Finset.sum_le_sum fun n _ => owed_le_of_kept hi hc hkey
          (fun kev e hat => absurd hat (hnone kev e)) _ n
      rw [hi.effects_of_none hc hkey hnone, batchCost_nil]
      omega
  | some e =>
      have hat : s.shell.inner.At c.event k .revalidateRequested e := ⟨hon, he, rfl⟩
      cases hst : (KeyEvent.revalidateRequested : KeyEvent V F).starts s.shell.inner.defaults
          c.now e with
      | true =>
          have hcan : e.canStartFetch = true := by
            simpa [KeyEvent.starts, KeyEvent.wants, KeyEvent.apply] using hst
          have hreact : (KeyEvent.revalidateRequested : KeyEvent V F).react
              s.shell.inner.defaults c.now e = e.started := by
            rw [KeyEvent.react, hst, if_pos rfl]
            rfl
          refine owed_started hi hc hkey hat he (canStartFetch_iff.mp hcan).2.symm ?_ ⟨?_, ?_⟩
          · rw [Inner.after_of (f := EntryCore.inflight) fun _ _ _ _ => rfl, hreact]
            simp [EntryCore.started]
          · rw [Inner.after_of (f := EntryCore.dataSeq) fun _ _ _ _ => rfl, hreact]
            rfl
          · rw [Inner.after_of (f := EntryCore.errorSeq) fun _ _ _ _ => rfl, hreact]
            rfl
      | false =>
          -- Nothing starts, so nothing is notified and the entry stays as it is.
          have hreact : (KeyEvent.revalidateRequested : KeyEvent V F).react
              s.shell.inner.defaults c.now e = e := by
            rw [KeyEvent.react, hst, if_neg Bool.false_ne_true]
            rfl
          have hbatch := hi.batch_cost hc hkey hat ns s.callers
          have hquiet : (KeyEvent.revalidateRequested : KeyEvent V F).notifies
              s.shell.inner.defaults c.now e = false := hst
          rw [hst, hquiet, if_neg Bool.false_ne_true, if_neg Bool.false_ne_true] at hbatch
          have howed : ∑ n ∈ ns, (s.callers n).owed ns.card shell.inner ≤
              ∑ n ∈ ns, (s.callers n).owed ns.card s.shell.inner := by
            refine Finset.sum_le_sum fun n _ => owed_le_of_kept hi hc hkey ?_ _ n
            intro kev' e₀ hat' n w _ hk _ hstall
            obtain ⟨rfl, rfl⟩ := hat.unique hat'
            obtain ⟨e', he', htx, hnone, hm, hunmet⟩ := stalls_iff.mp hstall
            rw [hk, hat.entry (hi.handled hc)] at he'
            cases he'
            have hsame : ∀ {α : Type} {g : EntryCore V F → α}, (∀ (e : EntryCore V F) a b v,
                g { e with gcGen := a, refreshGen := b, snapVersion := v } = g e) →
                g (s.shell.inner.after c.now k .revalidateRequested e) = g e := by
              intro α g hg
              rw [Inner.after_of hg, hreact]
            refine stalls_iff.mpr ⟨e, hk ▸ he, ?_, ?_, ?_, ?_⟩
            · rw [← htx, hsame (g := EntryCore.tx) fun _ _ _ _ => rfl]
            · rw [← hnone, hsame (g := EntryCore.inflight) fun _ _ _ _ => rfl]
            · rw [← hm, hsame (g := EntryCore.mutationActive) fun _ _ _ _ => rfl]
            · rw [← hunmet, hsame (g := EntryCore.dataSeq) fun _ _ _ _ => rfl,
                hsame (g := EntryCore.errorSeq) fun _ _ _ _ => rfl]
          unfold startCost
          omega

end calls

/-! ## The growth at the end of a stage -/

/-- The most a `Read` makes of a load. -/
def growth (A m : Nat) : Nat :=
  (taskCost A + A * unmetCost A + 1) * (m + 4) + m +
    A * (startCost A + unmetCost A + stallCost A + 2)

/-- More load leads to more load. -/
theorem growth_mono (A : Nat) : Monotone (growth A) := by
  intro m m' h
  have hmul := Nat.mul_le_mul_left (taskCost A + A * unmetCost A + 1) (Nat.add_le_add_right h 4)
  simp only [growth]
  omega

section growth

variable {ns : Finset Nat}

/-- No effect costs more than a snapshot that meets nobody. -/
theorem cost_le (callers : Nat → Phase V F) (x : Effect V F) :
    x.cost ns callers ≤ taskCost ns.card + ns.card * unmetCost ns.card + 1 := by
  cases x with
  | startFetch key incarnation seq fetcher =>
      simp only [Effect.cost]
      omega
  | scheduleTimer key kind deadline generation =>
      simp only [Effect.cost]
      omega
  | notify tx sn =>
      have hsum := notice_le ns callers tx sn
      simp only [Effect.cost]
      omega

/-- A batch costs at most its length, in such effects. -/
theorem batchCost_le (callers : Nat → Phase V F) (xs : List (Effect V F)) :
    batchCost ns callers xs ≤ (taskCost ns.card + ns.card * unmetCost ns.card + 1) * xs.length := by
  induction xs with
  | nil => exact Nat.zero_le _
  | cons x xs ih =>
      have hx : x.cost ns callers ≤ taskCost ns.card + ns.card * unmetCost ns.card + 1 :=
        cost_le callers x
      rw [batchCost_cons, List.length_cons, Nat.mul_succ]
      omega

/-- No caller costs more than a poke, a snapshot that does not meet it and a stall. -/
theorem phase_cost_le (A : Nat) (channels : Channel → Watch V) (inner : Inner V F)
    (p : Phase V F) :
    p.cost A channels + p.owed A inner ≤ startCost A + unmetCost A + stallCost A + 2 := by
  have howed : p.owed A inner ≤ stallCost A := by
    unfold Phase.owed
    cases p.waiter? with
    | none => exact Nat.zero_le _
    | some w =>
        simp only [Option.elim_some]
        split_ifs <;> omega
  have hunseen : ∀ (w : Waiter V F) seen latest, w.unseenCost A seen latest ≤ unmetCost A := by
    intro w seen latest
    simp only [Waiter.unseenCost, unmetCost, startCost]
    split_ifs <;> omega
  have hcost : p.cost A channels ≤ startCost A + unmetCost A + 2 := by
    cases p with
    | looking w =>
        simp only [Phase.cost]
        split_ifs <;> omega
    | poking w seen =>
        have hle := hunseen w seen (channels w.rx)
        simp only [Phase.cost]
        omega
    | parked w seen =>
        have hle := hunseen w seen (channels w.rx)
        simp only [Phase.cost]
        omega
    | _ => exact Nat.zero_le _
  omega

/-- A `Read` raises the load to a function of what it was. -/
theorem load_read [Platform] {s : Client V F} {shell : Shell V F} {c : Call V F} {n : Nat}
    {p : Phase V F} {req : Request V F} (hi : s.shell.Inv) (hc : s.shell.Step c shell)
    (hev : c.event = req.event s.shell.inner.defaults) :
    ((s.called shell c).moved n p).load ns ≤ growth ns.card (s.load ns) := by
  have hkey : c.event.key? = some req.key := by rw [hev]; rfl
  have hremaining : c.event.remaining s.tasks = s.tasks := by rw [hev]; rfl
  have hlength := hi.batch_length hc hkey
  have hpending : ((s.called shell c).moved n p).pending = s.pending ++ c.out.effects := by
    simp [pending, called, moved]
  have hbatch : batchCost ns (Function.update s.callers n p) (s.pending ++ c.out.effects) ≤
      (taskCost ns.card + ns.card * unmetCost ns.card + 1) * (s.pending ++ c.out.effects).length :=
    batchCost_le _ _
  have hlong : s.pending.length ≤ batchCost ns s.callers s.pending := length_le_batchCost s.pending
  have hold : s.pending.length ≤ s.load ns := by
    unfold load
    omega
  have htasks : tasksCost ns.card s.tasks ≤ s.load ns := by unfold load; omega
  have hcallers : ∑ m ∈ ns, ((Function.update s.callers n p m).cost ns.card s.channels +
      (Function.update s.callers n p m).owed ns.card shell.inner) ≤
        ns.card * (startCost ns.card + unmetCost ns.card + stallCost ns.card + 2) :=
    Finset.sum_le_card_nsmul _ _ _ fun m _ => phase_cost_le _ _ _ _
  rw [Finset.sum_add_distrib] at hcallers
  have hmul : (taskCost ns.card + ns.card * unmetCost ns.card + 1) *
      (s.pending ++ c.out.effects).length ≤
        (taskCost ns.card + ns.card * unmetCost ns.card + 1) * (s.load ns + 4) := by
    refine Nat.mul_le_mul_left _ ?_
    rw [List.length_append]
    omega
  rw [load, hpending]
  simp only [moved, called, hremaining, growth]
  omega

end growth

/-! ## Every step takes something away -/

section steps

variable {s : Client V F} {n : Nat} {w : Waiter V F} {seen : Watch V} {ns : Finset Nat}
  (hin : n ∈ ns)

include hin

/-- A caller that stays in its wait loop pays for the step out of its own costs. -/
theorem load_stays {p : Phase V F} (hsame : p.waiter? = (s.callers n).waiter?)
    (hw : p.waiter? = some w) :
    (s.moved n p).stages ns = s.stages ns ∧
      (s.moved n p).load ns + (s.callers n).cost ns.card s.channels ≤
        s.load ns + p.cost ns.card s.channels := by
  have hload := load_moved hin fun tx sn => (noticeCost_of_waiter hsame ns.card tx sn).le
  have howed := owed_of_waiter hsame ns.card s.shell.inner
  have hstages := stages_moved (s := s) (p := p) hin
  rw [stage_of_waiter hw, stage_of_waiter (hsame ▸ hw)] at hstages
  exact ⟨by omega, by omega⟩

/-- A look works off what it cost. -/
theorem load_look (hn : s.callers n = .looking w) :
    (s.moved n (w.looked (s.channels w.rx))).stages ns ≤ s.stages ns ∧
      (s.moved n (w.looked (s.channels w.rx))).load ns < s.load ns := by
  have hsum : 1 ≤ (s.callers n).cost ns.card s.channels := by
    rw [hn]
    simp only [Phase.cost]
    split_ifs <;> omega
  rcases looked_costs w (s.channels w.rx) ns.card s.channels rfl with
    ⟨hnone, hcost, hstage⟩ | ⟨hmet, hwaiter, hcost⟩
  · have hload := load_moved (s := s) (p := w.looked (s.channels w.rx)) hin fun tx sn => by
      rw [Phase.noticeCost, hnone]
      exact Nat.zero_le _
    have howed : (w.looked (s.channels w.rx)).owed ns.card s.shell.inner = 0 := by
      rw [Phase.owed, hnone]
      rfl
    have hstages := stages_moved (s := s) (p := w.looked (s.channels w.rx)) hin
    rw [hstage] at hstages
    exact ⟨by omega, by omega⟩
  · have hsame : (w.looked (s.channels w.rx)).waiter? = (s.callers n).waiter? := by
      rw [hwaiter, hn]
      rfl
    obtain ⟨hstages, hload⟩ := load_stays hin hsame hwaiter
    have hbefore : (s.callers n).cost ns.card s.channels = startCost ns.card + 2 := by
      rw [hn]
      exact if_neg (by rw [hmet]; exact Bool.false_ne_true)
    exact ⟨hstages.le, by omega⟩

/-- So does a wake. -/
theorem load_wake (hn : s.callers n = .parked w seen)
    (he : seen.epoch ≠ (s.channels w.rx).epoch) :
    (s.moved n (.looking w)).stages ns ≤ s.stages ns ∧
      (s.moved n (.looking w)).load ns < s.load ns := by
  obtain ⟨hstages, hload⟩ := load_stays (p := .looking w) hin (by rw [hn]; rfl) rfl
  have hcost : (Phase.looking w).cost ns.card s.channels <
      (s.callers n).cost ns.card s.channels := by
    rw [hn]
    simp only [Phase.cost, Waiter.unseenCost, if_neg he, unmetCost]
    split_ifs <;> omega
  exact ⟨hstages.le, by omega⟩

/-- A caller whose channel is closed reads once more, which it had to its credit. -/
theorem load_closed (hn : s.callers n = .parked w seen) (ho : s.isOpen w.rx = false) :
    (s.moved n (.reading w.req)).stages ns < s.stages ns ∧
      (s.moved n (.reading w.req)).load ns ≤ growth ns.card (s.load ns) := by
  have hload := load_moved (s := s) (p := .reading w.req) hin fun tx sn => Nat.zero_le _
  have hstages := stages_moved (s := s) (p := .reading w.req) hin
  have hdead : s.shell.inner.serves w = false := by
    refine Bool.eq_false_of_not_eq_true fun hserves => ?_
    obtain ⟨e, hentry, htx⟩ := serves_iff.mp hserves
    rw [isOpen, hentry, Bool.or_eq_false_iff, Option.any_some] at ho
    exact of_decide_eq_false ho.1 htx
  rw [stage_of_waiter (w := w) (by rw [hn]; rfl), hdead, if_neg Bool.false_ne_true] at hstages
  have hafter : (Phase.reading w.req).stage s.shell.inner = 1 := rfl
  have hcost : (Phase.reading w.req).cost ns.card s.channels = 0 := rfl
  have howed : (Phase.reading w.req).owed ns.card s.shell.inner = 0 := rfl
  have hgrow : s.load ns ≤ growth ns.card (s.load ns) := by
    unfold growth
    omega
  exact ⟨by omega, by omega⟩

variable [Platform] {shell : Shell V F} {c : Call V F} (hi : s.shell.Inv)
  (hc : s.shell.Step c shell)

include hi hc

/-- A poke is paid for by the caller that makes it. -/
theorem load_poke (hn : s.callers n = .poking w seen)
    (hev : c.event = .revalidateRequested w.req.key) :
    ((s.called shell c).moved n (.parked w seen)).stages ns ≤ s.stages ns ∧
      ((s.called shell c).moved n (.parked w seen)).load ns < s.load ns := by
  have hcalled : (s.called shell c).load ns ≤ s.load ns + startCost ns.card :=
    load_revalidated hi hc hev
  have hle : (s.called shell c).stages ns ≤ s.stages ns := stages_called hi hc fun k g hev' => by
    rw [hev] at hev'
    cases hev'
  have hcaller : (s.called shell c).callers n = .poking w seen := hn
  obtain ⟨hstages, hload⟩ := load_stays (s := s.called shell c) (p := .parked w seen) hin
    (by rw [hcaller]; rfl) rfl
  have hbefore : ((s.called shell c).callers n).cost ns.card (s.called shell c).channels =
      startCost ns.card + 1 + w.unseenCost ns.card seen (s.channels w.rx) := by
    rw [hcaller]
    rfl
  have hafter : (Phase.parked w seen).cost ns.card (s.called shell c).channels =
      w.unseenCost ns.card seen (s.channels w.rx) := rfl
  exact ⟨hstages.le.trans hle, by omega⟩

/-- A `Read` takes one off the `Read`s to come. -/
theorem stages_read {req : Request V F} (hn : s.callers n = .reading req)
    (hev : c.event = req.event s.shell.inner.defaults) :
    ((s.called shell c).moved n (req.passed (pass c.out.outcome))).stages ns < s.stages ns := by
  have hle : (s.called shell c).stages ns ≤ s.stages ns := stages_called hi hc fun k g hev' => by
    rw [hev] at hev'
    cases hev'
  have hstages := stages_moved (s := s.called shell c) (p := req.passed (pass c.out.outcome)) hin
  have hbefore : ((s.called shell c).callers n).stage (s.called shell c).shell.inner = 1 := by
    change (s.callers n).stage _ = 1
    rw [hn]
    rfl
  have hafter : (req.passed (pass c.out.outcome)).stage (s.called shell c).shell.inner = 0 := by
    cases hp : pass c.out.outcome with
    | error panic => rfl
    | ok r =>
        cases r with
        | done result => rfl
        | wait target rx =>
            -- The channel of the answer is the one of the entry that was read.
            have hout : c.out.outcome = .read (.wait target rx) := by
              unfold pass at hp
              split at hp <;> cases hp
              assumption
            obtain ⟨-, -, -, hkey, e', he', -, htx, -⟩ := hi.read_wait hc hev hout
            have hserves : shell.inner.serves ⟨req, target, rx⟩ = true :=
              serves_iff.mpr ⟨e', by rw [hkey]; exact he', htx⟩
            exact if_pos hserves
  omega

end steps

section internal

variable [Platform] {issuer : Nat → Option Flight} {s s' : Client V F} {a : Act V F}
  {ns : Finset Nat}

/-- Nobody new comes in. -/
theorem Internal.among (h : Internal issuer s a s') (hns : s.Among ns) : s'.Among ns := by
  intro n hn
  have hidle := hns n hn
  rcases h.step.caller n with heq | ha
  · rw [heq, hidle]
  · obtain ⟨hs, hint, -⟩ := h
    cases hs <;> cases ha
    case call.refl => cases hint
    case drop.refl => cases hint
    all_goals
      rename_i hcaller
      rw [hidle] at hcaller
      cases hcaller

/-- **Every step of the client takes something away**: it lowers the load, or one `Read` fewer is left. -/
theorem Internal.drains (h : Internal issuer s a s') (hi : s.shell.Inv) (ht : s.Targets)
    (hns : s.Among ns) :
    (s'.stages ns ≤ s.stages ns ∧ s'.load ns < s.load ns) ∨
      (s'.stages ns < s.stages ns ∧ s'.load ns ≤ growth ns.card (s.load ns)) := by
  have hmem : ∀ {n : Nat} {p : Phase V F}, s.callers n = p → p ≠ .idle → n ∈ ns := by
    intro n p hp hne
    by_contra hn
    exact hne (hp.symm.trans (hns n hn))
  obtain ⟨hs, hint, -⟩ := h
  cases hs with
  | dispatch hc htask =>
      obtain ⟨f, hf⟩ := Option.isSome_iff_exists.mp hint
      have htask := htask _ (Event.landing_delivers hf).2.2
      refine .inl ⟨stages_called hi hc fun k g hev => ?_, load_landing hi hc ht hf htask⟩
      rw [hev] at hf
      cases hf
  | exec hb => exact .inl ⟨le_refl _, load_executed hb⟩
  | call _ => cases hint
  | drop => cases hint
  | read hn hc hev => exact .inr ⟨stages_read (hmem hn (by simp)) hi hc hn hev, load_read hi hc hev⟩
  | look hn => exact .inl (load_look (hmem hn (by simp)) hn)
  | poke hn hc hev => exact .inl (load_poke (hmem hn (by simp)) hi hc hn hev)
  | wake hn he => exact .inl (load_wake (hmem hn (by simp)) hn he)
  | closed hn _ ho => exact .inr (load_closed (hmem hn (by simp)) hn ho)

end internal

end Client

end SwrCore
