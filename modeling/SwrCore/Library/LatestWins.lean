import Mathlib.Data.Set.Insert
import Mathlib.Order.Basic

/-!
# A register that keeps the latest of the updates it is offered

A source publishes versioned updates, each newer than the one before. They travel separately and may
overtake one another; the register takes an update only if it is newer than what it holds.

* `offer` — one delivery.
* `Tracks` — the register and the updates on the way, against the last one published: nothing is
  newer, nothing else has its version, and it is either in the register or still on the way.
* `Tracks.publish`, `Tracks.deliver` — publications and deliveries, in any order, keep it.
* `Tracks.settled` — once nothing is on the way, the register holds the last update published.
* `Climbs` — what never goes down from one update to the next never goes down in the register.
-/

namespace LatestWins

variable {α ι : Type*} [LinearOrder ι] {version : α → ι}

/-- The register after an update arrived. -/
def offer (version : α → ι) (reg x : α) : α := if version reg < version x then x else reg

/-- A delivery never takes the register back. -/
theorem le_offer (reg x : α) : version reg ≤ version (offer version reg x) := by
  unfold offer
  split_ifs with h
  · exact h.le
  · exact le_refl _

/-- What the register holds after a delivery. -/
theorem offer_eq (reg x : α) : offer version reg x = reg ∨ offer version reg x = x := by
  unfold offer
  split_ifs
  · exact .inr rfl
  · exact .inl rfl

/-- Every update is the last one published or older; the register and the updates on the way hold
the last one published between them. -/
structure Tracks (version : α → ι) (latest reg : α) (pending : Set α) : Prop where
  held : reg = latest ∨ version reg < version latest
  travelling : ∀ x ∈ pending, x = latest ∨ version x < version latest
  present : reg = latest ∨ latest ∈ pending

namespace Tracks

variable {latest reg : α} {pending : Set α}

theorem refl (x : α) : Tracks version x x ∅ :=
  ⟨.inl rfl, fun _ h => h.elim, .inl rfl⟩

theorem reg_le (h : Tracks version latest reg pending) : version reg ≤ version latest := by
  rcases h.held with h | h
  · rw [h]
  · exact h.le

/-- The version tells the last update published from all others. -/
theorem eq_of_version (h : Tracks version latest reg pending)
    (hv : version latest ≤ version reg) : reg = latest :=
  h.held.resolve_right hv.not_gt

/-- A newer update is published. -/
theorem publish (h : Tracks version latest reg pending) {x : α}
    (hx : version latest < version x) : Tracks version x reg (insert x pending) := by
  refine ⟨.inr (h.reg_le.trans_lt hx), fun y hy => ?_, .inr (Set.mem_insert x pending)⟩
  rcases Set.mem_insert_iff.mp hy with rfl | hy
  · exact .inl rfl
  · rcases h.travelling y hy with rfl | hlt
    · exact .inr hx
    · exact .inr (hlt.trans hx)

/-- One of the updates on the way arrives; the others stay on the way. -/
theorem deliver (h : Tracks version latest reg pending) {x : α} {pending' : Set α}
    (hx : x ∈ pending) (hsub : pending' ⊆ pending) (hrest : pending ⊆ insert x pending') :
    Tracks version latest (offer version reg x) pending' := by
  have hoffer : offer version reg x = latest ∨ version (offer version reg x) < version latest := by
    rcases (offer_eq reg x : offer version reg x = reg ∨ _) with heq | heq
    · rw [heq]
      exact h.held
    · rw [heq]
      exact h.travelling x hx
  refine ⟨hoffer, fun y hy => h.travelling y (hsub hy), ?_⟩
  rcases h.present with rfl | hlatest
  · -- Nothing newer arrives, so the register keeps the latest update.
    refine .inl (hoffer.resolve_right ?_)
    exact (le_offer reg x).not_gt
  · rcases Set.mem_insert_iff.mp (hrest hlatest) with rfl | hlatest
    · exact .inl (hoffer.resolve_right fun hlt => by
        unfold offer at hlt
        split_ifs at hlt with hnew
        · exact lt_irrefl _ hlt
        · exact hnew hlt)
    · exact .inr hlatest

/-- Once nothing is on the way, the register holds the last update published. -/
theorem settled (h : Tracks version latest reg pending) (hp : pending = ∅) : reg = latest := by
  refine h.present.resolve_right fun hlatest => ?_
  rw [hp] at hlatest
  exact hlatest

end Tracks

/-! ## What does not go down -/

section climbs

variable {β : Type*} [Preorder β] {f : α → β} {latest reg x : α} {pending : Set α}

/-- Among the register and the updates on the way, where the version goes up `f` does not go down. -/
def Climbs (version : α → ι) (f : α → β) (reg : α) (pending : Set α) : Prop :=
  ∀ x ∈ insert reg pending, ∀ y ∈ insert reg pending, version x < version y → f x ≤ f y

theorem Climbs.refl (x : α) : Climbs version f x ∅ := by
  intro y hy z hz hlt
  rw [insert_empty_eq, Set.mem_singleton_iff] at hy hz
  rw [hy, hz] at hlt
  exact absurd hlt (lt_irrefl _)

/-- The last update published is at the top. -/
theorem Climbs.le_latest (h : Climbs version f reg pending)
    (ht : Tracks version latest reg pending) (hx : x ∈ insert reg pending) :
    version x ≤ version latest ∧ f x ≤ f latest := by
  have hlatest : latest ∈ insert reg pending := by
    rcases ht.present with rfl | hpending
    · exact Set.mem_insert reg pending
    · exact Set.mem_insert_of_mem reg hpending
  have hold : x = latest ∨ version x < version latest := by
    rcases Set.mem_insert_iff.mp hx with rfl | hpending
    · exact ht.held
    · exact ht.travelling x hpending
  rcases hold with rfl | hlt
  · exact ⟨le_refl _, le_refl _⟩
  · exact ⟨hlt.le, h x hx latest hlatest hlt⟩

/-- An update is published that is newer than the last one, and not below it. -/
theorem Climbs.publish (h : Climbs version f reg pending) (ht : Tracks version latest reg pending)
    (hx : version latest < version x) (hf : f latest ≤ f x) :
    Climbs version f reg (insert x pending) := by
  intro y hy z hz hlt
  rw [Set.insert_comm, Set.mem_insert_iff] at hy hz
  rcases hy with rfl | hy
  · -- Nothing is newer than the update itself.
    rcases hz with rfl | hz
    · exact absurd hlt (lt_irrefl _)
    · exact absurd (hx.trans hlt) (h.le_latest ht hz).1.not_gt
  · rcases hz with rfl | hz
    · exact (h.le_latest ht hy).2.trans hf
    · exact h y hy z hz hlt

/-- One of the updates on the way arrives. -/
theorem Climbs.deliver (h : Climbs version f reg pending) {pending' : Set α} (hx : x ∈ pending)
    (hsub : pending' ⊆ pending) : Climbs version f (offer version reg x) pending' := by
  have hmem : ∀ y ∈ insert (offer version reg x) pending', y ∈ insert reg pending := by
    intro y hy
    rcases Set.mem_insert_iff.mp hy with rfl | hy
    · rcases (offer_eq reg x : offer version reg x = reg ∨ _) with heq | heq
      · rw [heq]
        exact Set.mem_insert reg pending
      · rw [heq]
        exact Set.mem_insert_of_mem reg hx
    · exact Set.mem_insert_of_mem reg (hsub hy)
  exact fun y hy z hz hlt => h y (hmem y hy) z (hmem z hz) hlt

/-- The register does not go down. -/
theorem Climbs.le_offer (h : Climbs version f reg pending) (hx : x ∈ pending) :
    f reg ≤ f (offer version reg x) := by
  unfold offer
  split_ifs with hnew
  · exact h reg (Set.mem_insert reg pending) x (Set.mem_insert_of_mem reg hx) hnew
  · exact le_refl _

end climbs

end LatestWins
