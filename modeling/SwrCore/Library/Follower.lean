import Mathlib.Order.Monotone.Basic

/-!
# Following a register that only advances

A register holds values of an order in which it only goes up, and counts its changes. A follower shows a
copy. It waits until the count differs from the one it marked, marks the register, and then reads it,
later, when the register may have gone on.

* `Follower`, `Follower.Step` — the follower, and its steps among those of the register.
* `Follower.Behind` — the invariant: what was marked and what is shown were in the register.
* `Behind.caught_up` — a follower with nothing left to wait for shows the register.
* `Behind.step`, `Step.advances` — the invariant is kept, and what is shown only goes up.
-/

variable {W : Type*}

/-- What a follower marked, what it shows, and whether it is about to read. -/
structure Follower (W : Type*) where
  marked : W
  shown : W
  woken : Bool

namespace Follower

/-- The register advances; the follower finds it changed, and marks it; it reads. -/
inductive Step [Preorder W] (count : W → ℕ) : W × Follower W → W × Follower W → Prop
  | advance {w w' f} (h : w ≤ w') : Step count (w, f) (w', f)
  | wake {w f} (hf : f.woken = false) (h : count f.marked ≠ count w) :
      Step count (w, f) (w, { f with marked := w, woken := true })
  | read {w f} (hf : f.woken = true) : Step count (w, f) (w, { f with shown := w, woken := false })

/-- What the follower marked and shows was in the register, and a follower that waits shows no less than
it marked. -/
structure Behind [Preorder W] (count : W → ℕ) (w : W) (f : Follower W) : Prop where
  marked : f.marked ≤ w
  shown : f.shown ≤ w
  waiting : f.woken = false → count f.marked ≤ count f.shown

section order

variable [PartialOrder W] {count : W → ℕ} {w w' : W} {f f' : Follower W}

/-- A follower that starts from the register is behind it. -/
theorem Behind.start (hcount : Monotone count) {marked : W} (h : marked ≤ w) :
    Behind count w ⟨marked, w, false⟩ :=
  ⟨h, le_refl w, fun _ => hcount h⟩

theorem Behind.step (hcount : Monotone count) (h : Behind count w f)
    (hs : Step count (w, f) (w', f')) : Behind count w' f' := by
  cases hs with
  | advance hle => exact ⟨h.marked.trans hle, h.shown.trans hle, h.waiting⟩
  | wake hf hne => exact ⟨le_refl w, h.shown, fun hw => by cases hw⟩
  | read hf => exact ⟨h.marked, le_refl w, fun _ => hcount h.marked⟩

/-- A follower that stops waiting is behind no further. -/
theorem Behind.stop (h : Behind count w f) : Behind count w { f with woken := true } :=
  ⟨h.marked, h.shown, fun hw => by cases hw⟩

/-- **Nothing is missed**: when the count is the one that was marked, the register is shown. -/
theorem Behind.caught_up (hcount : StrictMono count) (h : Behind count w f) (hf : f.woken = false)
    (hsame : count f.marked = count w) : f.shown = w := by
  have hle := h.waiting hf
  by_contra hne
  have hlt := hcount (lt_of_le_of_ne h.shown hne)
  omega

/-- What is shown only goes up. -/
theorem Step.advances (h : Behind count w f) (hs : Step count (w, f) (w', f')) :
    f.shown ≤ f'.shown := by
  cases hs with
  | advance hle => exact le_refl _
  | wake hf hne => exact le_refl _
  | read hf => exact h.shown

end order

end Follower
