import Mathlib.Data.List.AList
import Mathlib.Data.List.Induction
import Mathlib.Logic.Equiv.Basic

/-!
# Renaming

* `AList.rename` — an association list with its keys renamed by an injection; it commutes with
  `insert` and `erase`.
* `Renaming.route` — a permutation that sends one name where it is wanted and moves, besides it,
  only the name that was there.
* `Renaming.exists_rank` — distinct names can be renumbered in the order in which they come.
-/

/-! ## Association lists -/

namespace AList

variable {α α' β : Type*} {f : α → α'}

/-- The association list with its keys renamed. -/
def rename (f : α → α') (hf : f.Injective) (s : AList fun _ : α => β) : AList fun _ : α' => β where
  entries := s.entries.map fun x => ⟨f x.1, x.2⟩
  nodupKeys := by
    rw [List.NodupKeys, List.keys, List.map_map]
    have hkeys : (s.entries.map (Sigma.fst ∘ fun x => (⟨f x.1, x.2⟩ : Σ _ : α', β))) =
        s.keys.map f := by
      rw [AList.keys, List.keys, List.map_map]
      rfl
    rw [hkeys]
    exact s.keys_nodup.map hf

/-- The values, in their order, do not depend on the names. -/
theorem rename_values (hf : f.Injective) (s : AList fun _ : α => β) :
    (s.rename f hf).entries.map Sigma.snd = s.entries.map Sigma.snd := by
  rw [rename, List.map_map]
  rfl

variable [DecidableEq α] [DecidableEq α']

/-- An injection sends a key to the key that is erased only if it is that key. -/
theorem kerase_rename (hf : f.Injective) (a : α) (l : List (Σ _ : α, β)) :
    (l.map fun x => (⟨f x.1, x.2⟩ : Σ _ : α', β)).kerase (f a) =
      (l.kerase a).map fun x => ⟨f x.1, x.2⟩ := by
  induction l with
  | nil => rfl
  | cons x l ih =>
      by_cases h : a = x.1
      · rw [List.map_cons, List.kerase_cons_eq (congrArg f h), List.kerase_cons_eq h]
      · have h' : f a ≠ f x.1 := fun heq => h (hf heq)
        rw [List.map_cons, List.kerase_cons_ne h', List.kerase_cons_ne h, ih, List.map_cons]

/-- Renaming commutes with `erase`. -/
theorem rename_erase (hf : f.Injective) (s : AList fun _ : α => β) (a : α) :
    (s.erase a).rename f hf = (s.rename f hf).erase (f a) := by
  refine AList.ext ?_
  exact (kerase_rename hf a s.entries).symm

/-- Renaming commutes with `insert`. -/
theorem rename_insert (hf : f.Injective) (s : AList fun _ : α => β) (a : α) (b : β) :
    (s.insert a b).rename f hf = (s.rename f hf).insert (f a) b := by
  refine AList.ext ?_
  change ((s.insert a b).entries.map fun x => (⟨f x.1, x.2⟩ : Σ _ : α', β)) = _
  rw [AList.entries_insert, AList.entries_insert, List.map_cons]
  exact congrArg _ (kerase_rename hf a s.entries).symm

end AList

/-! ## Permutations built one name at a time -/

namespace Renaming

variable {α : Type*} [DecidableEq α]

/-- The permutation that sends `n` to `m`, and moves besides it only the name that `ρ` sends to
`m`. -/
def route (ρ : Equiv.Perm α) (n m : α) : Equiv.Perm α := ρ.trans (Equiv.swap (ρ n) m)

/-- The name arrives where it is wanted. -/
theorem route_self (ρ : Equiv.Perm α) (n m : α) : route ρ n m n = m :=
  Equiv.swap_apply_left _ _

/-- Every other name stays, unless it was there. -/
theorem route_other (ρ : Equiv.Perm α) {n m x : α} (hx : x ≠ n) (hm : ρ x ≠ m) :
    route ρ n m x = ρ x :=
  Equiv.swap_apply_of_ne_of_ne (fun h => hx (ρ.injective h)) hm

/-- Distinct numbers can be renumbered in the order in which they come. -/
theorem exists_rank {l : List Nat} (h : l.Nodup) :
    ∃ ρ : Equiv.Perm Nat, l.map ρ = List.range l.length := by
  induction l using List.reverseRecOn with
  | nil => exact ⟨Equiv.refl Nat, rfl⟩
  | append_singleton l n ih =>
      obtain ⟨hl, -, hn⟩ := List.nodup_append.mp h
      obtain ⟨ρ, hρ⟩ := ih hl
      have hkeep : l.map (route ρ n l.length) = l.map ρ := by
        refine List.map_congr_left fun x hx => route_other ρ ?_ ?_
        · exact hn x hx n (List.mem_singleton_self n)
        · have hlt : ρ x ∈ List.range l.length := hρ ▸ List.mem_map_of_mem hx
          exact Nat.ne_of_lt (List.mem_range.mp hlt)
      refine ⟨route ρ n l.length, ?_⟩
      rw [List.map_append, hkeep, hρ, List.length_append, List.length_singleton, List.range_succ,
        List.map_singleton, route_self]

/-- Renumbered in their order, a name has the number of names before it. -/
theorem rank_eq {ρ : Equiv.Perm Nat} {xs ys : List Nat} {n : Nat}
    (h : (xs ++ n :: ys).map ρ = List.range (xs ++ n :: ys).length) : ρ n = xs.length := by
  have hget := congrArg (fun l => l[xs.length]?) h
  simpa using hget

end Renaming
