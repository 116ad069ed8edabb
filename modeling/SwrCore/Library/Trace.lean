import Mathlib.Data.List.Forall2
import Mathlib.Data.List.Induction

/-!
# Runs of a labelled transition system and their logs

* `Record`, `Run` — a run of a step relation together with the log of its steps, newest last.
* `Run.invariant`, `Run.carry` — the induction rules: a predicate every step preserves holds at the
  end of a run; one that only the steps of a class preserve holds at the end of a run of such steps.
* `Run.split`, `Run.middle`, `Run.between` — a run is cut at any point of its log, or at two.
* `Run.map`, `Run.simulate`, `Run.project` — a simulation of one relation by another, on runs; the
  last one may leave out steps.
* `Run.names_nodup` — names taken from a counter that only grows are distinct.
* `Run.unique` — a relation that its inputs determine has one run for each list of inputs.
* `exec` — runs computed by a step function.
* `Last` — the last record of a log that satisfies a predicate.
* `Since` — the temporal operator "some step set it and no later step cleared it", with the law
  `Run.since_iff`: a state predicate that every step sets, clears or keeps is the `Since` of the log.
-/

namespace Trace

variable {S L : Type*}

/-- One step of a run: the state before it, its label, the state after it. -/
structure Record (S L : Type*) where
  pre : S
  label : L
  post : S

/-- Runs of `step` from `s₀`, with their logs. -/
inductive Run (step : S → L → S → Prop) (s₀ : S) : List (Record S L) → S → Prop
  | nil : Run step s₀ [] s₀
  | snoc {log : List (Record S L)} {s s' : S} {l : L} :
      Run step s₀ log s → step s l s' → Run step s₀ (log ++ [⟨s, l, s'⟩]) s'

/-- A record seen through maps of the states and of the labels. -/
def Record.map {S' L' : Type*} (f : S → S') (g : L → L') (r : Record S L) : Record S' L' :=
  ⟨f r.pre, g r.label, f r.post⟩

variable {step : S → L → S → Prop} {s₀ s : S} {log : List (Record S L)}

/-! ## Induction rules -/

/-- A predicate that holds initially and is preserved by every step holds at the end of a run. -/
theorem Run.invariant {I : S → Prop} (h : Run step s₀ log s) (h₀ : I s₀)
    (hstep : ∀ s l s', I s → step s l s' → I s') : I s := by
  induction h with
  | nil => exact h₀
  | snoc _ hs ih => exact hstep _ _ _ ih hs

/-- A relation between the log and the state, extended step by step. -/
theorem Run.history {P : List (Record S L) → S → Prop} (h : Run step s₀ log s) (h₀ : P [] s₀)
    (hstep : ∀ log s l s', Run step s₀ log s → P log s → step s l s' →
      P (log ++ [⟨s, l, s'⟩]) s') : P log s := by
  induction h with
  | nil => exact h₀
  | snoc hr hs ih => exact hstep _ _ _ _ hr ih hs

/-- The shortest nonempty run. -/
theorem Run.single {l : L} {s' : S} (h : step s l s') : Run step s [⟨s, l, s'⟩] s' := by
  simpa using Run.snoc Run.nil h

/-- Runs compose. -/
theorem Run.trans {log' : List (Record S L)} {s' : S} (h : Run step s₀ log s)
    (h' : Run step s log' s') : Run step s₀ (log ++ log') s' := by
  induction h' with
  | nil => simpa using h
  | snoc _ hs ih => simpa [List.append_assoc] using Run.snoc ih hs

/-- A run is cut at any point of its log. -/
theorem Run.split {xs ys : List (Record S L)} (h : Run step s₀ (xs ++ ys) s) :
    ∃ m, Run step s₀ xs m ∧ Run step m ys s := by
  induction ys using List.reverseRecOn generalizing s with
  | nil => exact ⟨s, by simpa using h, .nil⟩
  | append_singleton ys r ih =>
      rw [← List.append_assoc] at h
      generalize hl : xs ++ ys ++ [r] = log at h
      cases h with
      | nil => simp at hl
      | snoc hr hs =>
          obtain ⟨hl', hr'⟩ := List.append_inj' hl rfl
          subst hl'
          cases List.singleton_inj.mp hr'
          obtain ⟨m, h₁, h₂⟩ := ih hr
          exact ⟨m, h₁, .snoc h₂ hs⟩

/-- The first step of a nonempty run. -/
theorem Run.head {r : Record S L} {ys : List (Record S L)} (h : Run step s₀ (r :: ys) s) :
    r.pre = s₀ ∧ step r.pre r.label r.post ∧ Run step r.post ys s := by
  have hcut : Run step s₀ ([r] ++ ys) s := h
  obtain ⟨m, h₁, h₂⟩ := hcut.split
  generalize hl : [r] = log at h₁
  cases h₁ with
  | nil => simp at hl
  | @snoc log' s' _ _ hr hs =>
      obtain ⟨hl', hr'⟩ := List.append_inj' (show [] ++ [r] = _ from hl) rfl
      subst hl'
      cases List.singleton_inj.mp hr'
      generalize hn : ([] : List (Record S L)) = nl at hr
      cases hr with
      | nil => exact ⟨rfl, hs, h₂⟩
      | snoc _ _ => simp at hn

/-- A run is cut around any of its steps. -/
theorem Run.middle {xs ys : List (Record S L)} {r : Record S L}
    (h : Run step s₀ (xs ++ r :: ys) s) :
    Run step s₀ xs r.pre ∧ step r.pre r.label r.post ∧ Run step r.post ys s := by
  obtain ⟨m, h₁, h₂⟩ := h.split
  obtain ⟨rfl, h₃, h₄⟩ := h₂.head
  exact ⟨h₁, h₃, h₄⟩

/-- The step behind a logged record, and the run before it. -/
theorem Run.of_mem {r : Record S L} (h : Run step s₀ log s) (hr : r ∈ log) :
    ∃ xs ys, log = xs ++ r :: ys ∧ Run step s₀ xs r.pre ∧ step r.pre r.label r.post ∧
      Run step r.post ys s := by
  obtain ⟨xs, ys, rfl⟩ := List.append_of_mem hr
  exact ⟨xs, ys, rfl, h.middle⟩

/-- A run is cut around any two of its steps. -/
theorem Run.between {xs ys zs : List (Record S L)} {q r : Record S L}
    (h : Run step s₀ (xs ++ q :: (ys ++ r :: zs)) s) :
    Run step s₀ xs q.pre ∧ step q.pre q.label q.post ∧ Run step q.post ys r.pre ∧
      step r.pre r.label r.post ∧ Run step s₀ (xs ++ q :: ys) r.pre := by
  obtain ⟨hxs, hq, hrest⟩ := h.middle
  obtain ⟨hys, hr, -⟩ := hrest.middle
  have hjoined := (hxs.snoc hq).trans hys
  rw [List.append_assoc, List.singleton_append] at hjoined
  exact ⟨hxs, hq, hys, hr, hjoined⟩

/-- A predicate preserved by the steps of a class holds at the end of a run of such steps. -/
theorem Run.carry {J : S → Prop} {C : Record S L → Prop} (h : Run step s₀ log s) (hJ : J s₀)
    (hC : ∀ r ∈ log, C r)
    (hstep : ∀ r, step r.pre r.label r.post → C r → J r.pre → J r.post) : J s := by
  induction h with
  | nil => exact hJ
  | snoc _ hs ih =>
      have hpre := ih fun r hr => hC r (List.mem_append_left _ hr)
      exact hstep ⟨_, _, _⟩ hs (hC _ (by simp)) hpre

/-- A run of a smaller relation is a run. -/
theorem Run.mono {step' : S → L → S → Prop} (h : Run step s₀ log s)
    (hstep : ∀ s l s', step s l s' → step' s l s') : Run step' s₀ log s := by
  induction h with
  | nil => exact .nil
  | snoc _ hs ih => exact .snoc ih (hstep _ _ _ hs)

/-- A run seen through maps that take each of its steps to a step. -/
theorem Run.map {S' L' : Type*} {step' : S' → L' → S' → Prop} {f : S → S'} {g : L → L'}
    (h : Run step s₀ log s) (hstep : ∀ r ∈ log, step' (f r.pre) (g r.label) (f r.post)) :
    Run step' (f s₀) (log.map (Record.map f g)) (f s) := by
  induction h with
  | nil => exact .nil
  | snoc _ _ ih =>
      rw [List.map_append]
      exact .snoc (ih fun r hr => hstep r (List.mem_append_left _ hr)) (hstep _ (by simp))

/-- **Stuttering simulation.** Where every step that is kept is matched by a step of another
relation, and every other step by none, a run is matched by the run of its kept steps, record by
record. What is related may depend on the log so far. -/
theorem Run.project {S' L' : Type*} {step' : S' → L' → S' → Prop} {t₀ : S'}
    {keep : Record S L → Bool} {R : List (Record S L) → S → S' → Prop}
    {M : Record S L → Record S' L' → Prop} (h : Run step s₀ log s) (h₀ : R [] s₀ t₀)
    (hdrop : ∀ xs r ys t, log = xs ++ r :: ys → Run step s₀ xs r.pre →
      step r.pre r.label r.post → keep r = false → R xs r.pre t → R (xs ++ [r]) r.post t)
    (hkeep : ∀ xs r ys t, log = xs ++ r :: ys → Run step s₀ xs r.pre →
      step r.pre r.label r.post → keep r = true → R xs r.pre t →
      ∃ l' t', step' t l' t' ∧ R (xs ++ [r]) r.post t' ∧ M r ⟨t, l', t'⟩) :
    ∃ log' t, Run step' t₀ log' t ∧ R log s t ∧ List.Forall₂ M (log.filter keep) log' := by
  have hprefix : ∀ xs ys m, log = xs ++ ys → Run step s₀ xs m →
      ∃ log' t, Run step' t₀ log' t ∧ R xs m t ∧ List.Forall₂ M (xs.filter keep) log' := by
    intro xs ys m hlog hrun
    induction hrun generalizing ys with
    | nil => exact ⟨[], t₀, .nil, h₀, .nil⟩
    | snoc hr hs ih =>
        rw [List.append_assoc, List.singleton_append] at hlog
        obtain ⟨log', t, hrun', hR, hM⟩ := ih _ hlog
        cases hk : keep ⟨_, _, _⟩ with
        | false =>
            refine ⟨log', t, hrun', hdrop _ _ _ t hlog hr hs hk hR, ?_⟩
            rw [List.filter_append, List.filter_singleton, hk]
            simpa using hM
        | true =>
            obtain ⟨l', t', hs', hR', hM'⟩ := hkeep _ _ _ t hlog hr hs hk hR
            refine ⟨_, t', .snoc hrun' hs', hR', ?_⟩
            rw [List.filter_append, List.filter_singleton, hk]
            exact List.rel_append hM (.cons hM' .nil)
  exact hprefix log [] s (List.append_nil log).symm h

/-- **Forward simulation.** Where every step of a class is matched by a step of another relation, a
run of such steps is matched by a run, record by record. -/
theorem Run.simulate {S' L' : Type*} {step' : S' → L' → S' → Prop} {t₀ : S'} {R : S → S' → Prop}
    {M : Record S L → Record S' L' → Prop} {C : Record S L → Prop} (h : Run step s₀ log s)
    (h₀ : R s₀ t₀) (hC : ∀ r ∈ log, C r)
    (hstep : ∀ r t, step r.pre r.label r.post → C r → R r.pre t →
      ∃ l' t', step' t l' t' ∧ R r.post t' ∧ M r ⟨t, l', t'⟩) :
    ∃ log' t, Run step' t₀ log' t ∧ R s t ∧ List.Forall₂ M log log' := by
  obtain ⟨log', t, hrun, hR, hM⟩ : ∃ log' t, Run step' t₀ log' t ∧ R s t ∧
      List.Forall₂ M (log.filter fun _ => true) log' :=
    h.project (R := fun _ => R) h₀ (fun _ _ _ _ _ _ _ hdrop => by cases hdrop)
      fun xs r ys t hlog _ hs _ hR => hstep r t hs (hC r (by simp [hlog])) hR
  rw [List.filter_true] at hM
  exact ⟨log', t, hrun, hR, hM⟩

/-- A relation whose steps are determined by their inputs has one run for each list of inputs. -/
theorem Run.unique {α : Type*} {input : L → α}
    (hdet : ∀ s l s' l' s'', step s l s' → step s l' s'' → input l = input l' →
      l = l' ∧ s' = s'')
    {log' : List (Record S L)} {s' : S} (h : Run step s₀ log s) (h' : Run step s₀ log' s')
    (hin : log.map (fun r => input r.label) = log'.map fun r => input r.label) :
    log = log' ∧ s = s' := by
  induction h generalizing log' s' with
  | nil =>
      cases h' with
      | nil => exact ⟨rfl, rfl⟩
      | snoc _ _ => simp at hin
  | snoc _ hs ih =>
      cases h' with
      | nil => simp at hin
      | snoc hr' hs' =>
          rw [List.map_append, List.map_append] at hin
          obtain ⟨hin, hlast⟩ := List.append_inj' hin rfl
          obtain ⟨rfl, rfl⟩ := ih hr' hin
          obtain ⟨rfl, rfl⟩ := hdet _ _ _ _ _ hs hs' (List.singleton_inj.mp hlast)
          exact ⟨rfl, rfl⟩

/-- **Fresh names.** Names taken from a counter that only grows are never given out twice. -/
theorem Run.names_nodup {name : Record S L → Option Nat} {c : S → Nat}
    (h : Run step s₀ log s)
    (hstep : ∀ xs r, Run step s₀ xs r.pre → step r.pre r.label r.post →
      c r.pre ≤ c r.post ∧
        ∀ n, name r = some n → n = c r.pre ∧ n < c r.post) :
    (log.filterMap name).Nodup ∧ ∀ n ∈ log.filterMap name, n < c s := by
  induction h with
  | nil => exact ⟨List.nodup_nil, fun n hn => absurd hn List.not_mem_nil⟩
  | @snoc log s s' l hr hs ih =>
      obtain ⟨hle, hname⟩ := hstep log ⟨s, l, s'⟩ hr hs
      have hold : ∀ n ∈ log.filterMap name, n < c s' := fun n hn =>
        Nat.lt_of_lt_of_le (ih.2 n hn) hle
      rw [List.filterMap_append]
      cases hn : name ⟨s, l, s'⟩ with
      | none =>
          rw [List.filterMap_cons_none hn, List.filterMap_nil, List.append_nil]
          exact ⟨ih.1, hold⟩
      | some m =>
          obtain ⟨rfl, hlt⟩ := hname m hn
          rw [List.filterMap_cons_some hn, List.filterMap_nil]
          refine ⟨List.nodup_append.mpr ⟨ih.1, List.nodup_cons.mpr (by simp), ?_⟩, fun n hmem => ?_⟩
          · intro n hn m hm
            rw [List.mem_singleton.mp hm]
            exact Nat.ne_of_lt (ih.2 n hn)
          · rcases List.mem_append.mp hmem with hmem | hmem
            · exact hold n hmem
            · rw [List.mem_singleton.mp hmem]
              exact hlt

/-! ## Execution -/

section exec

variable {I : Type*} {f : S → I → Option (L × S)}

/-- Feed a list of inputs to a step function that may refuse one; the log and the last state. -/
def exec (f : S → I → Option (L × S)) (s : S) : List I → Option (List (Record S L) × S)
  | [] => some ([], s)
  | i :: inputs =>
    match f s i with
    | none => none
    | some (l, s') =>
      match exec f s' inputs with
      | none => none
      | some (log, s'') => some (⟨s, l, s'⟩ :: log, s'')

/-- An execution of at least one input begins with a step. -/
theorem exec_cons {s s'' : S} {i : I} {inputs : List I} {log : List (Record S L)}
    (h : exec f s (i :: inputs) = some (log, s'')) :
    ∃ l s' log', f s i = some (l, s') ∧ exec f s' inputs = some (log', s'') ∧
      log = ⟨s, l, s'⟩ :: log' := by
  unfold exec at h
  cases h₁ : f s i with
  | none => simp only [h₁, reduceCtorEq] at h
  | some r =>
      cases h₂ : exec f r.2 inputs with
      | none => simp only [h₁, h₂, reduceCtorEq] at h
      | some r' =>
          simp only [h₁, h₂, Option.some.injEq, Prod.mk.injEq] at h
          exact ⟨r.1, r.2, r'.1, rfl, h.2 ▸ h₂, h.1.symm⟩

/-- An execution is a run. -/
theorem run_of_exec (hf : ∀ s i l s', f s i = some (l, s') → step s l s') {s s' : S}
    {inputs : List I} {log : List (Record S L)} (h : exec f s inputs = some (log, s')) :
    Run step s log s' := by
  induction inputs generalizing s log with
  | nil =>
      cases h
      exact .nil
  | cons i inputs ih =>
      obtain ⟨l, s₁, log', h₁, h₂, rfl⟩ := exec_cons h
      exact (Run.single (hf _ _ _ _ h₁)).trans (ih h₂)

/-- What the labels of an execution say about its inputs. -/
theorem exec_labels {α : Type*} {label : L → α} {input : I → α}
    (hf : ∀ s i l s', f s i = some (l, s') → label l = input i) {s s' : S} {inputs : List I}
    {log : List (Record S L)} (h : exec f s inputs = some (log, s')) :
    log.map (fun r => label r.label) = inputs.map input := by
  induction inputs generalizing s log with
  | nil =>
      cases h
      rfl
  | cons i inputs ih =>
      obtain ⟨l, s₁, log', h₁, h₂, rfl⟩ := exec_cons h
      rw [List.map_cons, List.map_cons, hf _ _ _ _ h₁, ih h₂]

end exec

/-! ## The last record of a kind -/

section last

variable {R : Type*} {P : R → Prop} {q r : R} {log : List R}

/-- The last record of the log that satisfies `P`. -/
def Last (P : R → Prop) (q : R) (log : List R) : Prop :=
  ∃ xs ys, log = xs ++ q :: ys ∧ P q ∧ ∀ x ∈ ys, ¬ P x

theorem Last.mem (h : Last P q log) : q ∈ log := by
  obtain ⟨xs, ys, rfl, -, -⟩ := h
  exact List.mem_append_right xs (List.mem_cons_self ..)

theorem Last.snoc (log : List R) (hr : P r) : Last P r (log ++ [r]) :=
  ⟨log, [], rfl, hr, fun _ h => absurd h List.not_mem_nil⟩

theorem Last.extend (h : Last P q log) (hr : ¬ P r) : Last P q (log ++ [r]) := by
  obtain ⟨xs, ys, rfl, hq, hys⟩ := h
  refine ⟨xs, ys ++ [r], by simp, hq, fun x hx => ?_⟩
  rcases List.mem_append.mp hx with hx | hx
  · exact hys x hx
  · rw [List.mem_singleton.mp hx]
    exact hr

end last

/-! ## The operator `Since` -/

section since

variable {R : Type*} {set clear : R → Prop}

/-- Some record of the log satisfies `set`, and no later one satisfies `clear`. -/
def Since (set clear : R → Prop) (log : List R) : Prop :=
  ∃ xs r ys, log = xs ++ r :: ys ∧ set r ∧ ∀ x ∈ ys, ¬ clear x

theorem not_since_nil : ¬ Since set clear [] := by
  rintro ⟨xs, r, ys, h, -, -⟩
  simp at h

/-- `Since` one record later. -/
theorem since_snoc (log : List R) (r : R) :
    Since set clear (log ++ [r]) ↔ set r ∨ (Since set clear log ∧ ¬ clear r) := by
  constructor
  · rintro ⟨xs, a, ys, h, ha, hys⟩
    rcases List.eq_nil_or_concat ys with rfl | ⟨zs, b, rfl⟩
    · have := List.append_inj' h rfl
      exact .inl (List.singleton_inj.mp this.2 ▸ ha)
    · rw [List.concat_eq_append, ← List.cons_append, ← List.append_assoc] at h
      obtain ⟨h₁, h₂⟩ := List.append_inj' h rfl
      obtain rfl := List.singleton_inj.mp h₂
      refine .inr ⟨⟨xs, a, zs, h₁, ha, fun x hx => hys x (by simp [hx])⟩, hys r (by simp)⟩
  · rintro (h | ⟨⟨xs, a, ys, rfl, ha, hys⟩, h⟩)
    · exact ⟨log, r, [], by simp, h, by simp⟩
    · refine ⟨xs, a, ys ++ [r], by simp, ha, fun x hx => ?_⟩
      rcases List.mem_append.mp hx with hx | hx
      · exact hys x hx
      · rw [List.mem_singleton.mp hx]
        exact h

/-- **The since law.** A state predicate that is false initially and that every step sets, clears or
keeps holds exactly when it was set and not cleared since. -/
theorem Run.since_iff {set clear : Record S L → Prop} {Q : S → Prop} (h : Run step s₀ log s)
    (h₀ : ¬ Q s₀)
    (hstep : ∀ log r, Run step s₀ log r.pre → step r.pre r.label r.post →
      (Q r.post ↔ set r ∨ (Q r.pre ∧ ¬ clear r))) :
    Q s ↔ Since set clear log := by
  induction h with
  | nil => exact ⟨fun h => absurd h h₀, fun h => absurd h not_since_nil⟩
  | @snoc log s s' l hr hs ih =>
      rw [since_snoc, hstep log ⟨s, l, s'⟩ hr hs, ih]

end since

end Trace
