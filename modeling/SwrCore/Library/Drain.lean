import Mathlib.Order.Monotone.Basic
import SwrCore.Library.Trace

/-!
# Runs that come to an end

* `drainBound` — how many steps a system makes that works off a load in stages: within a stage every
  step lowers the load, and a step that ends a stage may raise it, up to a function of what it was.
* `Run.length_le_of_stages` — the bound, for every run.
* `Stuck`, `exists_stuck` — a system whose runs are bounded runs until no step is possible.
* `exists_least_of_waits` — among finitely many that wait for one another along a rank, one waits for
  nobody.
-/

namespace Trace

variable {S L : Type*} {step : S → L → S → Prop} {s₀ s : S} {log : List (Record S L)}

/-- The number of steps from `stages` open stages and a load of `load`, if the last step of a stage
takes a load `m` to at most `growth m`. -/
def drainBound (growth : ℕ → ℕ) : ℕ → ℕ → ℕ
  | 0, load => load
  | stages + 1, load => load + 1 + drainBound growth stages (growth load)

/-- One stage more takes no fewer steps. -/
theorem drainBound_le_succ (growth : ℕ → ℕ) (stages m : ℕ) :
    drainBound growth stages m ≤ drainBound growth (stages + 1) m := by
  induction stages generalizing m with
  | zero =>
      simp only [drainBound]
      omega
  | succ stages ih =>
      have hrest := ih (growth m)
      simp only [drainBound] at hrest ⊢
      omega

/-- The bound grows with the stages, … -/
theorem drainBound_mono_stages (growth : ℕ → ℕ) {l l' : ℕ} (h : l ≤ l') (m : ℕ) :
    drainBound growth l m ≤ drainBound growth l' m := by
  induction h with
  | refl => exact le_refl _
  | step _ ih => exact ih.trans (drainBound_le_succ growth _ _)

section bound

variable {growth : ℕ → ℕ} (hgrowth : Monotone growth)

include hgrowth

/-- … and with the load. -/
theorem drainBound_mono_load (stages : ℕ) {m m' : ℕ} (h : m ≤ m') :
    drainBound growth stages m ≤ drainBound growth stages m' := by
  induction stages generalizing m m' with
  | zero => exact h
  | succ stages ih =>
      have hrest := ih (hgrowth h)
      simp only [drainBound]
      omega

/-- A step that lowers the load lowers the bound. -/
theorem drainBound_work {l l' m m' : ℕ} (hl : l' ≤ l) (hm : m' < m) :
    drainBound growth l' m' < drainBound growth l m := by
  have hstep : drainBound growth l m' < drainBound growth l m := by
    cases l with
    | zero => exact hm
    | succ l =>
        have hrest := drainBound_mono_load hgrowth l (hgrowth hm.le)
        simp only [drainBound]
        omega
  exact (drainBound_mono_stages growth hl m').trans_lt hstep

/-- A step that ends a stage lowers the bound. -/
theorem drainBound_stage {l l' m m' : ℕ} (hl : l' < l) (hm : m' ≤ growth m) :
    drainBound growth l' m' < drainBound growth l m := by
  obtain ⟨l, rfl⟩ := Nat.exists_eq_add_of_lt hl
  have hstages := drainBound_mono_stages growth (Nat.le_add_right l' l) m'
  have hload := drainBound_mono_load hgrowth (l' + l) hm
  simp only [drainBound]
  omega

/-- **A load worked off in stages.** If every step either lowers the load or ends a stage, and the end
of a stage raises the load to at most a function of what it was, then every run is bounded. -/
theorem Run.length_le_of_stages {J : S → Prop} {stages load : S → ℕ}
    (hstep : ∀ s l s', J s → step s l s' → J s' ∧
      ((stages s' ≤ stages s ∧ load s' < load s) ∨
        (stages s' < stages s ∧ load s' ≤ growth (load s))))
    (h : Run step s₀ log s) (hJ : J s₀) :
    J s ∧ log.length + drainBound growth (stages s) (load s) ≤
      drainBound growth (stages s₀) (load s₀) := by
  induction h with
  | nil => simpa using hJ
  | snoc _ hs ih =>
      obtain ⟨hJs, hle⟩ := ih
      obtain ⟨hJs', hdrop⟩ := hstep _ _ _ hJs hs
      have hlt := hdrop.elim (fun h => drainBound_work hgrowth h.1 h.2)
        (fun h => drainBound_stage hgrowth h.1 h.2)
      refine ⟨hJs', ?_⟩
      rw [List.length_append, List.length_singleton]
      omega

end bound

/-- No step is possible. -/
def Stuck (step : S → L → S → Prop) (s : S) : Prop := ∀ l s', ¬ step s l s'

/-- A system whose runs are bounded runs until no step is possible. -/
theorem exists_stuck {n : ℕ} (hbound : ∀ log s, Run step s₀ log s → log.length ≤ n) :
    ∃ log s, Run step s₀ log s ∧ Stuck step s := by
  by_contra hnone
  have hgo : ∀ m, ∃ log s, Run step s₀ log s ∧ log.length = m := by
    intro m
    induction m with
    | zero => exact ⟨[], s₀, .nil, rfl⟩
    | succ m ih =>
        obtain ⟨log, s, hr, hlen⟩ := ih
        have hgoes : ¬ Stuck step s := fun hstuck => hnone ⟨log, s, hr, hstuck⟩
        simp only [Stuck, not_forall, not_not] at hgoes
        obtain ⟨l, s', hs⟩ := hgoes
        exact ⟨_, s', hr.snoc hs, by rw [List.length_append, hlen, List.length_singleton]⟩
  obtain ⟨log, s, hr, hlen⟩ := hgo (n + 1)
  have hle := hbound log s hr
  omega

/-- If everyone who waits is held up by someone who waits with a smaller rank, or else by nobody, then
whoever waits waits for nobody, or somebody of a smaller rank does. -/
theorem exists_least_of_waits {α : Type*} {waits free : α → Prop} {rank : α → ℕ}
    (h : ∀ a, waits a → free a ∨ ∃ b, waits b ∧ rank b < rank a) {a : α} (ha : waits a) :
    ∃ b, waits b ∧ free b ∧ (b = a ∨ rank b < rank a) := by
  induction hr : rank a using Nat.strong_induction_on generalizing a with
  | _ n ih =>
      rcases h a ha with hfree | ⟨b, hb, hlt⟩
      · exact ⟨a, ha, hfree, .inl rfl⟩
      · obtain ⟨c, hc, hfree, hle⟩ := ih (rank b) (hr ▸ hlt) hb rfl
        refine ⟨c, hc, hfree, .inr ?_⟩
        rcases hle with rfl | hle <;> omega

end Trace
