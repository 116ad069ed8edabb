import SwrCore.Model.Client

/-!
# The typed boundary

One cache stores the values of every query type; the public interface knows the types and forgets them
on the way in, and downcasts on the way out.

* `Types` — the value types of a program with their type ids.
* `ErasedValue`, `ErasedFetcher`, `ErasedCompare` — what the cache stores; `erase` and `erasedEq` make
  fetchers and comparators of typed ones.
* `downcastValue` — the way out, with a panic on a value of another type.
* `QueryKey.new` — a key binds its segments to the value types.
* `QueryState.fromSnapshot`, `typedResult` — every place where the client downcasts.

A comparator may panic, and the state machine's may not: `ErasedCompare.answers` is what the machine is
given, and says `false` where the comparator would panic.
-/

namespace SwrCore

/-! ## Types -/

/-- The value types of a program. -/
class Types where
  Ty : Type
  /-- What an `Arc` of the type is: the value with its identity. -/
  El : Ty → Type
  /-- The pair `(T, E)`. -/
  pair : Ty → Ty → Ty
  pair_injective : Function.Injective2 pair
  /-- `TypeId::of`. -/
  typeId : Ty → Nat
  typeId_injective : Function.Injective typeId
  /-- Everything else that the result of a future may depend on. -/
  World : Type

open SwrCore.Types (Ty El)

/-- The panics of the typed boundary. -/
inductive Mismatch where
  /-- `swr-core internal bug: comparator value type mismatch` -/
  | comparator
  /-- `swr-core internal bug: erased value type mismatch` -/
  | value
deriving DecidableEq

section types

variable [Types] {t t' e e' : Ty}

/-! ## Erased values -/

/-- A value that carries its type. Source: `erased.rs`, `ErasedValue`. -/
structure ErasedValue where
  ty : Ty
  value : El ty

/-- `<dyn Any>::downcast_ref`: the type ids are compared. -/
def ErasedValue.downcastRef (v : ErasedValue) (t : Ty) : Option (El t) :=
  if h : Types.typeId v.ty = Types.typeId t then some (Types.typeId_injective h ▸ v.value) else none

theorem ErasedValue.downcastRef_mk (t : Ty) (x : El t) : (⟨t, x⟩ : ErasedValue).downcastRef t = some x :=
  dif_pos rfl

/-- Source: `erased.rs`, `downcast_value`. -/
def downcastValue (t : Ty) (v : ErasedValue) : Except Mismatch (El t) :=
  match v.downcastRef t with
  | some x => .ok x
  | none => .error .value

/-- A downcast to the type of the value succeeds. -/
theorem downcastValue_ok {v : ErasedValue} (h : v.ty = t) :
    ∃ x, downcastValue t v = .ok x ∧ v = ⟨t, x⟩ := by
  obtain ⟨ty, x⟩ := v
  subst h
  refine ⟨x, ?_, rfl⟩
  rw [downcastValue, ErasedValue.downcastRef_mk]

/-! ## Erased comparators -/

/-- A comparator as its caller wrote it: it may panic. Source: `erased.rs`, `ErasedCompare`. -/
abbrev ErasedCompare := ErasedValue → ErasedValue → Except Mismatch Bool

/-- Source: `erased.rs`, `erased_eq`; `eq` is the `PartialEq` of the type. -/
def erasedEq (t : Ty) (eq : El t → El t → Bool) : ErasedCompare := fun a b =>
  match a.downcastRef t with
  | none => .error .comparator
  | some a =>
    match b.downcastRef t with
    | none => .error .comparator
    | some b => .ok (eq a b)

/-- What the state machine is given of a comparator: an answer to every pair of values. -/
def ErasedCompare.answers (c : ErasedCompare) : Compare ErasedValue := fun a b =>
  match c a b with
  | .ok b => b
  | .error _ => false

theorem erasedEq_ok {eq : El t → El t → Bool} {a b : ErasedValue} (ha : a.ty = t) (hb : b.ty = t) :
    erasedEq t eq a b = .ok ((erasedEq t eq).answers a b) := by
  obtain ⟨ty, x⟩ := a
  obtain ⟨ty', y⟩ := b
  subst ha
  have hb : ty' = ty := hb
  subst hb
  simp only [ErasedCompare.answers, erasedEq, ErasedValue.downcastRef_mk]

/-! ## Erased fetchers -/

/-- A typed fetcher: the result of a future it starts for a key. Source: `fetcher.rs`, `Fetcher`. -/
abbrev Fetcher (K : Type) (t e : Ty) := K → Types.World → Except (El e) (El t)

/-- Source: `erased.rs`, `ErasedFetcher`. -/
abbrev ErasedFetcher := QueryKey → Types.World → Except ErasedValue ErasedValue

/-- The typed key is captured, and the stored one ignored. Source: `fetcher.rs`, `erase`. -/
def erase {K : Type} (key : K) (fetcher : Fetcher K t e) : ErasedFetcher := fun _queryKey w =>
  match fetcher key w with
  | .ok value => .ok ⟨t, value⟩
  | .error error => .error ⟨e, error⟩

/-! ## Keys -/

/-- A key binds its segments to the value types. Source: `key.rs`, `QueryKey::new`. -/
def QueryKey.new (t e : Ty) (segments : List Segment) : QueryKey where
  typeId := Types.typeId (Types.pair t e)
  segments := segments

theorem QueryKey.new_inj {segments segments' : List Segment} :
    QueryKey.new t e segments = QueryKey.new t' e' segments' ↔
      t = t' ∧ e = e' ∧ segments = segments' := by
  constructor
  · intro h
    obtain ⟨hid, hsegments⟩ := QueryKey.mk.inj h
    obtain ⟨ht, he⟩ := Types.pair_injective (Types.typeId_injective hid)
    exact ⟨ht, he, hsegments⟩
  · rintro ⟨rfl, rfl, rfl⟩
    rfl

/-! ## The way out -/

/-- Source: `snapshot.rs`, `Snapshot::is_validating`. -/
def Snapshot.isValidating {V : Type} (sn : Snapshot V) : Bool := sn.inflight.isSome

/-- Source: `snapshot.rs`, `Snapshot::is_loading`. -/
def Snapshot.isLoading {V : Type} (sn : Snapshot V) : Bool := sn.isValidating && sn.data.isNone

/-- Typed view of a snapshot. Source: `snapshot.rs`, `QueryState`. -/
structure QueryState (t e : Ty) where
  data : Option (El t)
  error : Option (El e)
  isLoading : Bool
  isValidating : Bool
  updatedAt : Option Instant

/-- `option.map(downcast_value::<T>)`. -/
def downcastOption (t : Ty) : Option ErasedValue → Except Mismatch (Option (El t))
  | none => .ok none
  | some v => do
    let x ← downcastValue t v
    .ok (some x)

/-- Source: `snapshot.rs`, `QueryState::from_snapshot`. -/
def QueryState.fromSnapshot (t e : Ty) (sn : Snapshot ErasedValue) :
    Except Mismatch (QueryState t e) := do
  let data ← downcastOption t sn.data
  let error ← downcastOption e sn.error
  .ok ⟨data, error, sn.isLoading, sn.isValidating, sn.updatedAt⟩

/-- The downcasts on what `fetch` returns, whether an immediate snapshot or the wait loop gave it.
Source: `client.rs`, `ready_result` and `SwrClient::fetch_inner`. -/
def typedResult (t e : Ty) :
    Except (FetchError ErasedValue) ErasedValue → Except Mismatch (Except (FetchError (El e)) (El t))
  | .ok value => do
    let x ← downcastValue t value
    .ok (.ok x)
  | .error (.fetch error) => do
    let x ← downcastValue e error
    .ok (.error (.fetch x))
  | .error .noFetcher => .ok (.error .noFetcher)
  | .error .miss => .ok (.error .miss)

/-! ## Typed data -/

/-- What the cache stores of a result has the types `(T, E)`. -/
def HasTypes (t e : Ty) (data error : Option ErasedValue) : Prop :=
  (∀ v ∈ data, v.ty = t) ∧ ∀ v ∈ error, v.ty = e

theorem downcastOption_ok {v : Option ErasedValue} (h : ∀ x ∈ v, x.ty = t) :
    ∃ x, downcastOption t v = .ok x := by
  cases v with
  | none => exact ⟨_, rfl⟩
  | some v =>
      obtain ⟨x, hx, -⟩ := downcastValue_ok (h v rfl)
      exact ⟨some x, by rw [downcastOption, hx, ok_bind]⟩

/-- A snapshot of the types of a handle has a typed view. -/
theorem QueryState.fromSnapshot_ok {sn : Snapshot ErasedValue}
    (h : HasTypes t e sn.data sn.error) : ∃ state, QueryState.fromSnapshot t e sn = .ok state := by
  obtain ⟨data, hdata⟩ := downcastOption_ok h.1
  obtain ⟨error, herror⟩ := downcastOption_ok h.2
  refine ⟨⟨data, error, sn.isLoading, sn.isValidating, sn.updatedAt⟩, ?_⟩
  rw [QueryState.fromSnapshot, hdata, ok_bind, herror, ok_bind]

/-- What an erased fetcher returns for a key has the types `(T, E)`. -/
def ErasedFetcher.HasTypes (f : ErasedFetcher) (t e : Ty) (k : QueryKey) : Prop :=
  ∀ w, (∀ v, f k w = .ok v → v.ty = t) ∧ ∀ v, f k w = .error v → v.ty = e

/-- What an erased fetcher returns has the types of the fetcher that was erased. -/
theorem erase_hasTypes {K : Type} (key : K) (fetcher : Fetcher K t e) (k : QueryKey) :
    ErasedFetcher.HasTypes (erase key fetcher) t e k := by
  intro w
  unfold erase
  split
  · exact ⟨fun v h => by cases h; rfl, nofun⟩
  · exact ⟨nofun, fun v h => by cases h; rfl⟩

end types

end SwrCore
