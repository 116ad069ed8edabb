import SwrCore.Library.Trace

/-!
# One undo slot shared by overlapping writers

A stamped value with a single undo slot. A write saves the value before it in the slot and stays open
until it is undone; a later write takes the slot over. An undo restores what the slot saved, but only
while the slot is its own and its write is still the latest.

* `UndoSlot`, `Op`, `Step` — the store, its operations, and one step; `skip` is a step of the
  environment that does not concern the store.
* `Intact`, `Tainted` — the two kinds of states that undoing all open writes leads back from, or not.
* `UndoSlot.restored_iff` — after every write was undone, the original value is back if and only if no
  write began while another one was open.
-/

/-- What a write saves: the value and the stamp before it, and its own stamp. -/
structure UndoSlot.Saved (α : Type*) where
  value : α
  stamp : Nat
  written : Nat

/-- A stamped value, its undo slot, and the stamps of the writes that have not been undone. -/
structure UndoSlot (α : Type*) where
  value : α
  stamp : Nat
  saved : Option (UndoSlot.Saved α)
  writers : List Nat

namespace UndoSlot

variable {α : Type*}

/-- The operations: a step of the environment, a write with its stamp, and its undo. -/
inductive Op (α : Type*) where
  | skip
  | write (edit : α → α) (stamp : Nat)
  | undo (stamp : Nat)

/-- Write a new value under a stamp and save the old one. -/
def write (s : UndoSlot α) (edit : α → α) (stamp : Nat) : UndoSlot α where
  value := edit s.value
  stamp := stamp
  saved := some ⟨s.value, s.stamp, stamp⟩
  writers := s.writers ++ [stamp]

/-- Give up the slot if it belongs to this write, and restore what it saved if nothing was written
since. -/
def undo (s : UndoSlot α) (stamp : Nat) : UndoSlot α :=
  match s.saved with
  | none => { s with writers := s.writers.erase stamp }
  | some o =>
    if o.written = stamp then
      if s.stamp = stamp then ⟨o.value, o.stamp, none, s.writers.erase stamp⟩
      else { s with saved := none, writers := s.writers.erase stamp }
    else { s with writers := s.writers.erase stamp }

/-- A write takes a stamp past the current one; only an open write is undone. -/
def Step (s : UndoSlot α) : Op α → UndoSlot α → Prop
  | .skip, s' => s' = s
  | .write edit stamp, s' => s.stamp < stamp ∧ s' = s.write edit stamp
  | .undo stamp, s' => stamp ∈ s.writers ∧ s' = s.undo stamp

/-! ## One step -/

/-- Undoing what is open leads back to the value `v` under the stamp `n`: nothing is open, or one
write is, and the slot is its own. -/
def Intact (v : α) (n : Nat) (s : UndoSlot α) : Prop :=
  (s.writers = [] ∧ s.value = v ∧ s.stamp = n) ∨
    (n < s.stamp ∧ s.writers = [s.stamp] ∧ s.saved = some ⟨v, n, s.stamp⟩)

/-- No undo leads back to the stamp `n`. -/
def Tainted (n : Nat) (s : UndoSlot α) : Prop :=
  n < s.stamp ∧ ∀ o, s.saved = some o → n < o.stamp

variable {s s' : UndoSlot α} {v : α} {n : Nat}

/-- A write while nothing is open, and every undo, keeps the way back. -/
theorem Intact.step {op : Op α} (h : s.Intact v n) (hs : s.Step op s')
    (hop : ∀ edit stamp, op = .write edit stamp → s.writers = []) : s'.Intact v n := by
  cases op with
  | skip =>
      obtain rfl : s' = s := hs
      exact h
  | write edit stamp =>
      obtain ⟨hlt, rfl⟩ := hs
      have hw := hop edit stamp rfl
      rcases h with ⟨-, rfl, rfl⟩ | ⟨-, hw', -⟩
      · exact .inr ⟨hlt, by simp [write, hw], rfl⟩
      · rw [hw] at hw'
        cases hw'
  | undo stamp =>
      obtain ⟨hmem, rfl⟩ := hs
      rcases h with ⟨hw, -, -⟩ | ⟨-, hw, hsaved⟩
      · rw [hw] at hmem
        cases hmem
      · -- The only open write owns the slot.
        rw [hw, List.mem_singleton] at hmem
        subst hmem
        refine .inl ?_
        simp [undo, hsaved, hw]

/-- A write while another one is open saves a value that was never the original. -/
theorem Intact.overlap {edit : α → α} {stamp : Nat} (h : s.Intact v n)
    (hs : s.Step (.write edit stamp) s') (hw : s.writers ≠ []) : s'.Tainted n := by
  obtain ⟨hlt, rfl⟩ := hs
  rcases h with ⟨hw', -, -⟩ | ⟨hn, -, -⟩
  · exact absurd hw' hw
  · refine ⟨Nat.lt_trans hn hlt, fun o ho => ?_⟩
    cases ho
    exact hn

/-- There is no way back. -/
theorem Tainted.step {op : Op α} (h : s.Tainted n) (hs : s.Step op s') : s'.Tainted n := by
  obtain ⟨hn, ho⟩ := h
  cases op with
  | skip =>
      obtain rfl : s' = s := hs
      exact ⟨hn, ho⟩
  | write edit stamp =>
      obtain ⟨hlt, rfl⟩ := hs
      refine ⟨Nat.lt_trans hn hlt, fun o ho' => ?_⟩
      cases ho'
      exact hn
  | undo stamp =>
      obtain ⟨-, rfl⟩ := hs
      unfold undo
      split
      · exact ⟨hn, ho⟩
      · next o hsaved =>
          split_ifs
          · exact ⟨ho o hsaved, nofun⟩
          · exact ⟨hn, nofun⟩
          · exact ⟨hn, ho⟩

/-! ## Whole runs -/

variable {log : List (Trace.Record (UndoSlot α) (Op α))}

/-- No write of the log began while another one was open. -/
def Sequential (log : List (Trace.Record (UndoSlot α) (Op α))) : Prop :=
  ∀ r ∈ log, ∀ edit stamp, r.label = .write edit stamp → r.pre.writers = []

theorem intact_or_tainted (h : Trace.Run Step s log s') (hw : s.writers = []) :
    (Sequential log ∧ s'.Intact s.value s.stamp) ∨ (¬ Sequential log ∧ s'.Tainted s.stamp) := by
  induction h with
  | nil => exact .inl ⟨fun r hr => absurd hr List.not_mem_nil, .inl ⟨hw, rfl, rfl⟩⟩
  | @snoc log m m' op hrun hs ih =>
      have hsnoc : Sequential (log ++ [⟨m, op, m'⟩]) ↔ Sequential log ∧
          ∀ edit stamp, op = .write edit stamp → m.writers = [] := by
        unfold Sequential
        simp only [List.forall_mem_append, List.forall_mem_singleton]
      rw [hsnoc]
      rcases ih with ⟨hseq, hint⟩ | ⟨hseq, htaint⟩
      · by_cases hop : ∀ edit stamp, op = .write edit stamp → m.writers = []
        · exact .inl ⟨⟨hseq, hop⟩, hint.step hs hop⟩
        · refine .inr ⟨fun h => hop h.2, ?_⟩
          push Not at hop
          obtain ⟨edit, stamp, rfl, hne⟩ := hop
          exact hint.overlap hs hne
      · exact .inr ⟨fun h => hseq h.1, htaint.step hs⟩

/-- **When a shared undo slot is enough.** After every write was undone, the original value is back
if and only if no write began while another one was open. -/
theorem restored_iff (h : Trace.Run Step s log s') (hw : s.writers = []) (hw' : s'.writers = []) :
    (s'.value = s.value ∧ s'.stamp = s.stamp) ↔ Sequential log := by
  rcases intact_or_tainted h hw with ⟨hseq, hint⟩ | ⟨hseq, hlt, -⟩
  · refine iff_of_true ?_ hseq
    rcases hint with ⟨-, hv⟩ | ⟨-, hopen, -⟩
    · exact hv
    · rw [hw'] at hopen
      cases hopen
  · refine iff_of_false ?_ hseq
    rintro ⟨-, heq⟩
    omega

end UndoSlot
