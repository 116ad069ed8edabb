import Mathlib.Algebra.GroupWithZero.Nat
import Mathlib.Algebra.BigOperators.Group.Finset.Basic
import Mathlib.Algebra.Order.BigOperators.Group.Finset
import SwrCore.Client.Waiters

/-!
# The work that is left in the client

What the client does when nobody calls it and no timer fires: it executes effects, ends fetch tasks, and
moves the callers of `fetch()` on. Each of these steps takes something away from a finite load.

* `Act.internal`, `Client.Internal` — the steps the client makes by itself; the fetcher of a flight may
  have issued calls of its own, and then ends after them.
* `Client.load` — what effects, tasks and callers can still cost, `Client.stages` — how many `Read`s are
  still to come.
* `Client.load_executed`, `Client.load_moved` — what an effect and the move of a caller do to the load.

A snapshot that meets the target of a waiter costs it a wake and a look. One that does not may cost a poke
as well, and with it a flight: that flight is paid for by the waiter whose target the entry does not
meet and that has nothing under way, or, if there is none, every waiter is met by what the flight
publishes.
-/

set_option linter.unusedSectionVars false

namespace SwrCore

variable {V F : Type}

/-! ## Steps without an environment -/

/-- The flight whose task ends with this event. -/
def Event.landing? (ev : Event V F) : Option Flight :=
  match ev.task? with
  | some (.fetch f) => some f
  | _ => none

/-- The request of a call that has not returned. -/
def Phase.underWay? : Phase V F → Option (Request V F)
  | .reading req => some req
  | .looking w => some w.req
  | .poking w _ => some w.req
  | .parked w _ => some w.req
  | _ => none

namespace Client

/-- The steps that need neither a call from outside, nor a timer, nor a dropped future. -/
def Act.internal : Act V F → Bool
  | .dispatch c => c.event.landing?.isSome
  | .call _ _ => false
  | .drop _ => false
  | _ => true

/-- One step that the client makes by itself. `issuer n` is the flight whose fetcher issued the call
`n`, if one did: its task does not end before the call has returned. -/
structure Internal [Platform] (issuer : Nat → Option Flight) (s : Client V F) (a : Act V F)
    (s' : Client V F) : Prop where
  step : Step s a s'
  internal : a.internal = true
  awaited : ∀ c f, a = .dispatch c → c.event.landing? = some f →
    ∀ n, issuer n = some f → (s.callers n).underWay? = none

end Client

/-! ## What things cost, among `callers` callers -/

/-- A fetch task: its end, two timers, and a notification that meets every target. -/
def taskCost (callers : Nat) : Nat := 2 * callers + 4

/-- A flight that is started where every target is met. -/
def startCost (callers : Nat) : Nat := taskCost callers + 2 * callers + 4

/-- A snapshot that does not meet a target: a wake, a look, and a poke that starts a flight. -/
def unmetCost (callers : Nat) : Nat := startCost callers + 3

/-- A flight that is started where a target is not met. -/
def stallCost (callers : Nat) : Nat := taskCost callers + callers * unmetCost callers + 4

/-- The seqs meet the target. -/
def Waiter.met (w : Waiter V F) (dataSeq errorSeq : Nat) : Bool :=
  decide (w.target ≤ dataSeq) || decide (w.target ≤ errorSeq)

/-- The entry a waiter waits for has nothing under way and does not meet the target. -/
def Inner.stalls (inner : Inner V F) (w : Waiter V F) : Bool :=
  (inner.entry w.rx.key).any fun e => decide (e.tx = w.rx) && e.inflight.isNone &&
    decide (e.mutationActive = 0) && !w.met e.dataSeq e.errorSeq

/-- The channel of a waiter belongs to the entry in the table. -/
def Inner.serves (inner : Inner V F) (w : Waiter V F) : Bool :=
  (inner.entry w.rx.key).any fun e => decide (e.tx = w.rx)

/-- What a snapshot costs a caller. -/
def Phase.noticeCost (callers : Nat) (p : Phase V F) (tx : Channel) (sn : Snapshot V) : Nat :=
  p.waiter?.elim 0 fun w =>
    if w.rx = tx then (if w.met sn.dataSeq sn.errorSeq then 2 else unmetCost callers) else 0

/-- What the present value of its channel costs a caller that saw `seen`. -/
def Waiter.unseenCost (callers : Nat) (w : Waiter V F) (seen latest : Watch V) : Nat :=
  if seen.epoch = latest.epoch then 0
  else if w.met latest.value.dataSeq latest.value.errorSeq then 2 else unmetCost callers

/-- What the present values of the channels cost a caller. -/
def Phase.cost (callers : Nat) (channels : Channel → Watch V) : Phase V F → Nat
  | .looking w =>
    if w.met (channels w.rx).value.dataSeq (channels w.rx).value.errorSeq then 1
    else startCost callers + 2
  | .poking w seen => startCost callers + 1 + w.unseenCost callers seen (channels w.rx)
  | .parked w seen => w.unseenCost callers seen (channels w.rx)
  | _ => 0

/-- What a caller's entry owes it. -/
def Phase.owed (callers : Nat) (inner : Inner V F) (p : Phase V F) : Nat :=
  p.waiter?.elim 0 fun w => if inner.stalls w then stallCost callers else 0

/-- The `Read`s a caller may still dispatch, and the ends of channels it may still meet. -/
def Phase.stage (inner : Inner V F) : Phase V F → Nat
  | .reading _ => 1
  | p => p.waiter?.elim 0 fun w => if inner.serves w then 0 else 2

/-- What an effect that is not executed yet costs. -/
def Effect.cost (ns : Finset Nat) (callers : Nat → Phase V F) : Effect V F → Nat
  | .startFetch _ _ _ _ => taskCost ns.card + 1
  | .notify tx sn => 1 + ∑ n ∈ ns, (callers n).noticeCost ns.card tx sn
  | .scheduleTimer _ _ _ _ => 1

/-- What a running task costs. Timers do not fire by themselves. -/
def Task.cost (callers : Nat) : Task → Nat
  | .fetch _ => taskCost callers
  | .timer _ _ _ => 0

namespace Client

/-- What a batch costs. -/
def batchCost (ns : Finset Nat) (callers : Nat → Phase V F) (effects : List (Effect V F)) : Nat :=
  (effects.map (Effect.cost ns callers)).sum

/-- The tasks' share of the load. -/
def tasksCost (callers : Nat) (tasks : List Task) : Nat := (tasks.map (Task.cost callers)).sum

/-- The work that is left, among the callers `ns`. -/
def load (ns : Finset Nat) (s : Client V F) : Nat :=
  batchCost ns s.callers s.pending + tasksCost ns.card s.tasks +
    ((∑ n ∈ ns, (s.callers n).cost ns.card s.channels) +
      ∑ n ∈ ns, (s.callers n).owed ns.card s.shell.inner)

/-- The `Read`s that are left, among the callers `ns`. -/
def stages (ns : Finset Nat) (s : Client V F) : Nat :=
  ∑ n ∈ ns, (s.callers n).stage s.shell.inner

/-- All other callers are idle. -/
def Among (ns : Finset Nat) (s : Client V F) : Prop := ∀ n, n ∉ ns → s.callers n = .idle

/-! ## Sums -/

section sums

variable {ns : Finset Nat} {callers callers' : Nat → Phase V F}

/-- An empty batch costs nothing. -/
@[simp] theorem batchCost_nil : batchCost ns callers ([] : List (Effect V F)) = 0 := rfl

/-- A batch costs what its effects cost, … -/
@[simp] theorem batchCost_cons (x : Effect V F) (xs : List (Effect V F)) :
    batchCost ns callers (x :: xs) = x.cost ns callers + batchCost ns callers xs := by
  simp [batchCost]

/-- … in whatever parts. -/
@[simp] theorem batchCost_append (xs ys : List (Effect V F)) :
    batchCost ns callers (xs ++ ys) = batchCost ns callers xs + batchCost ns callers ys := by
  simp [batchCost]

/-- So do tasks. -/
@[simp] theorem tasksCost_append (A : Nat) (xs ys : List Task) :
    tasksCost A (xs ++ ys) = tasksCost A xs + tasksCost A ys := by
  simp [tasksCost]

/-- A task that ends takes its cost along. -/
theorem tasksCost_erase {A : Nat} {tasks : List Task} {task : Task} (h : task ∈ tasks) :
    tasksCost A tasks = task.cost A + tasksCost A (tasks.erase task) := by
  have hperm := (List.perm_cons_erase h).map (Task.cost A)
  simpa [tasksCost] using hperm.sum_eq

/-- An effect costs its own execution. -/
theorem one_le_cost (x : Effect V F) : 1 ≤ x.cost ns callers := by
  cases x <;> simp only [Effect.cost] <;> omega

/-- So a batch costs its length at least. -/
theorem length_le_batchCost (xs : List (Effect V F)) : xs.length ≤ batchCost ns callers xs := by
  induction xs with
  | nil => exact le_refl _
  | cons x xs ih =>
      have hone : 1 ≤ x.cost ns callers := one_le_cost x
      rw [List.length_cons, batchCost_cons]
      omega

/-- A batch costs less when its callers have less to fear from snapshots. -/
theorem batchCost_mono
    (h : ∀ n ∈ ns, ∀ tx sn, (callers' n).noticeCost ns.card tx sn ≤
      (callers n).noticeCost ns.card tx sn) (xs : List (Effect V F)) :
    batchCost ns callers' xs ≤ batchCost ns callers xs := by
  refine List.sum_le_sum fun x _ => ?_
  cases x with
  | notify tx sn => exact Nat.add_le_add_left (Finset.sum_le_sum fun n hn => h n hn tx sn) 1
  | _ => exact le_refl _

/-- One caller moved: the sum changes by its share. -/
theorem sum_moved {f g : Nat → Nat} {n : Nat} (hn : n ∈ ns) (h : ∀ m ∈ ns, m ≠ n → g m = f m) :
    (∑ m ∈ ns, g m) + f n = (∑ m ∈ ns, f m) + g n := by
  rw [← Finset.add_sum_erase ns f hn, ← Finset.add_sum_erase ns g hn]
  have hrest : ∑ m ∈ ns.erase n, g m = ∑ m ∈ ns.erase n, f m :=
    Finset.sum_congr rfl fun m hm => h m (Finset.mem_of_mem_erase hm) (Finset.ne_of_mem_erase hm)
  rw [hrest]
  omega

end sums

/-! ## Executing an effect -/

section exec

variable {s : Client V F} {ns : Finset Nat}

/-- A waiter is met by data, or by an error, of its target or a later seq. -/
theorem met_iff {w : Waiter V F} {dataSeq errorSeq : Nat} :
    w.met dataSeq errorSeq = true ↔ w.target ≤ dataSeq ∨ w.target ≤ errorSeq := by
  simp [Waiter.met]

/-- An effect that is executed takes its cost off what is pending. -/
theorem batchCost_pending {before after : List (List (Effect V F))} {x : Effect V F}
    {rest : List (Effect V F)} (hb : s.batches = before ++ (x :: rest) :: after) :
    batchCost ns s.callers s.pending = x.cost ns s.callers +
      batchCost ns s.callers (s.executed x (before ++ rest :: after)).pending := by
  simp only [pending, executed, hb, List.flatten_append, List.flatten_cons, batchCost_append,
    batchCost_cons]
  omega

/-- A snapshot that arrives costs a caller at most what it was expected to. -/
theorem cost_sent (A : Nat) (p : Phase V F) (channels : Channel → Watch V) (tx : Channel)
    (sn : Snapshot V) :
    p.cost A (Function.update channels tx ((channels tx).send sn)) ≤
      p.cost A channels + p.noticeCost A tx sn := by
  -- Only the channel of the caller matters, and it holds what it held, or the new snapshot.
  have hwaiter : ∀ w : Waiter V F, p.waiter? = some w →
      (Function.update channels tx ((channels tx).send sn) w.rx = channels w.rx) ∨
        (w.rx = tx ∧ Function.update channels tx ((channels tx).send sn) w.rx =
          ⟨sn, (channels tx).epoch + 1⟩) := by
    intro w _
    by_cases htx : w.rx = tx
    · rw [htx, Function.update_self, Watch.send]
      split_ifs with hnew
      · exact .inr ⟨rfl, rfl⟩
      · exact .inl rfl
    · exact .inl (Function.update_of_ne htx ..)
  have hunseen : ∀ w : Waiter V F, ∀ seen, p.waiter? = some w →
      w.unseenCost A seen (Function.update channels tx ((channels tx).send sn) w.rx) ≤
        w.unseenCost A seen (channels w.rx) + p.noticeCost A tx sn := by
    intro w seen hw
    rcases hwaiter w hw with heq | ⟨htx, heq⟩
    · rw [heq]
      exact Nat.le_add_right ..
    · rw [heq, Phase.noticeCost, hw, Option.elim_some, if_pos htx]
      unfold Waiter.unseenCost
      split_ifs <;> omega
  cases p with
  | looking w =>
      rcases hwaiter w rfl with heq | ⟨htx, heq⟩
      · simp only [Phase.cost, heq]
        exact Nat.le_add_right ..
      · simp only [Phase.cost, heq, Phase.noticeCost, Phase.waiter?, Option.elim_some,
          if_pos htx, unmetCost]
        split_ifs <;> omega
  | poking w seen =>
      have hle := hunseen w seen rfl
      simp only [Phase.cost]
      omega
  | parked w seen => exact hunseen w seen rfl
  | _ => exact Nat.zero_le _

/-- Executing an effect works off a part of the load. -/
theorem load_executed {before after : List (List (Effect V F))} {x : Effect V F}
    {rest : List (Effect V F)} (hb : s.batches = before ++ (x :: rest) :: after) :
    (s.executed x (before ++ rest :: after)).load ns < s.load ns := by
  have hpending : batchCost ns s.callers s.pending = x.cost ns s.callers +
      batchCost ns s.callers (s.executed x (before ++ rest :: after)).pending :=
    batchCost_pending hb
  unfold load
  rw [hpending]
  cases x with
  | startFetch key incarnation seq fetcher =>
      simp only [executed, Effect.task?, Option.toList_some, tasksCost_append, Effect.cost]
      simp only [tasksCost, Task.cost, List.map_cons, List.map_nil, List.sum_cons, List.sum_nil]
      omega
  | scheduleTimer key kind deadline generation =>
      simp only [executed, Effect.task?, Option.toList_some, tasksCost_append, Effect.cost]
      simp only [tasksCost, Task.cost, List.map_cons, List.map_nil, List.sum_cons, List.sum_nil]
      omega
  | notify tx sn =>
      have hcallers : ∑ n ∈ ns, (s.callers n).cost ns.card
            (Function.update s.channels tx ((s.channels tx).send sn)) ≤
          ∑ n ∈ ns, (s.callers n).cost ns.card s.channels +
            ∑ n ∈ ns, (s.callers n).noticeCost ns.card tx sn := by
        rw [← Finset.sum_add_distrib]
        exact Finset.sum_le_sum fun n _ => cost_sent ns.card (s.callers n) s.channels tx sn
      simp only [executed, Effect.task?, Option.toList_none, List.append_nil, Effect.cost]
      omega

end exec

/-! ## Moving a caller -/

section moved

variable {s : Client V F} {ns : Finset Nat} {n : Nat} {p : Phase V F}

/-- A caller that moved changes the load by its own costs. -/
theorem load_moved (hn : n ∈ ns)
    (hnotice : ∀ tx sn, p.noticeCost ns.card tx sn ≤ (s.callers n).noticeCost ns.card tx sn) :
    (s.moved n p).load ns + ((s.callers n).cost ns.card s.channels +
        (s.callers n).owed ns.card s.shell.inner) ≤
      s.load ns + (p.cost ns.card s.channels + p.owed ns.card s.shell.inner) := by
  have hother : ∀ m ∈ ns, m ≠ n → Function.update s.callers n p m = s.callers m :=
    fun m _ hm => Function.update_of_ne hm ..
  have hcost := sum_moved (f := fun m => (s.callers m).cost ns.card s.channels)
    (g := fun m => (Function.update s.callers n p m).cost ns.card s.channels) hn
    fun m hm hne => by rw [hother m hm hne]
  have howed := sum_moved (f := fun m => (s.callers m).owed ns.card s.shell.inner)
    (g := fun m => (Function.update s.callers n p m).owed ns.card s.shell.inner) hn
    fun m hm hne => by rw [hother m hm hne]
  have hbatch : batchCost ns (Function.update s.callers n p) s.pending ≤
      batchCost ns s.callers s.pending := by
    refine batchCost_mono (fun m _ tx sn => ?_) _
    by_cases hm : m = n
    · rw [hm, Function.update_self]
      exact hnotice tx sn
    · rw [Function.update_of_ne hm]
  have hpending : (s.moved n p).pending = s.pending := rfl
  simp only [Function.update_self] at hcost howed
  unfold load
  rw [hpending]
  simp only [moved] at hcost howed hbatch ⊢
  omega

/-- A caller that moved changes the stages by its own. -/
theorem stages_moved (hn : n ∈ ns) : (s.moved n p).stages ns + (s.callers n).stage s.shell.inner =
    s.stages ns + p.stage s.shell.inner := by
  have hsum := sum_moved (f := fun m => (s.callers m).stage s.shell.inner)
    (g := fun m => (Function.update s.callers n p m).stage s.shell.inner) hn
    fun m _ hne => by rw [Function.update_of_ne hne]
  simp only [Function.update_self] at hsum
  exact hsum

/-- What a caller pays depends on the wait loop it is in. -/
theorem noticeCost_of_waiter {q : Phase V F} (h : p.waiter? = q.waiter?) (A : Nat) (tx : Channel)
    (sn : Snapshot V) : p.noticeCost A tx sn = q.noticeCost A tx sn := by
  rw [Phase.noticeCost, Phase.noticeCost, h]

/-- What an entry owes a caller depends on what it waits for only, … -/
theorem owed_of_waiter {q : Phase V F} (h : p.waiter? = q.waiter?) (A : Nat)
    (inner : Inner V F) : p.owed A inner = q.owed A inner := by
  rw [Phase.owed, Phase.owed, h]

/-- … and so do the `Read`s that it may still make. -/
theorem stage_of_waiter {w : Waiter V F} (h : p.waiter? = some w) (inner : Inner V F) :
    p.stage inner = if inner.serves w then 0 else 2 := by
  cases p <;> cases h <;> rfl

/-- A look ends the loop, or it leaves a caller that has nothing unseen. -/
theorem looked_costs (w : Waiter V F) (latest : Watch V) (A : Nat) (channels : Channel → Watch V)
    (hch : channels w.rx = latest) :
    ((w.looked latest).waiter? = none ∧ (w.looked latest).cost A channels = 0 ∧
        ∀ inner, (w.looked latest).stage inner = 0) ∨
      (w.met latest.value.dataSeq latest.value.errorSeq = false ∧
        (w.looked latest).waiter? = some w ∧
        (w.looked latest).cost A channels ≤ startCost A + 1) := by
  cases hp : w.looked latest with
  | done req result => exact .inl ⟨rfl, rfl, fun _ => rfl⟩
  | dead panic => exact .inl ⟨rfl, rfl, fun _ => rfl⟩
  | poking w' seen =>
      have hseen : (w.looked latest).seen? = some (w', seen) := by rw [hp]; rfl
      obtain ⟨rfl, rfl, hd, he, -⟩ := Waiter.looked_seen hseen
      refine .inr ⟨?_, rfl, ?_⟩
      · simp [Waiter.met, hd, he]
      · simp [Phase.cost, Waiter.unseenCost, hch]
  | parked w' seen =>
      have hseen : (w.looked latest).seen? = some (w', seen) := by rw [hp]; rfl
      obtain ⟨rfl, rfl, hd, he, -⟩ := Waiter.looked_seen hseen
      refine .inr ⟨?_, rfl, ?_⟩
      · simp [Waiter.met, hd, he]
      · simp [Phase.cost, Waiter.unseenCost, hch]
  | idle =>
      unfold Waiter.looked at hp
      split at hp <;> first | cases hp | (split_ifs at hp)
  | reading req =>
      unfold Waiter.looked at hp
      split at hp <;> first | cases hp | (split_ifs at hp)
  | looking w' =>
      unfold Waiter.looked at hp
      split at hp <;> first | cases hp | (split_ifs at hp)

end moved

end Client

end SwrCore
