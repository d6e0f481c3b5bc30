import TowerRateLimiter.Common.Time
import Mathlib.Logic.Function.Basic

/-!
# A concurrent cache with per-entry expiry

The part of `moka::sync::Cache` that compare-and-compute on one key rests on. An entry put at cache
time `putAt` with the duration `d` that the expiry policy returned is kept with the deadline
`putAt + d`. From its deadline on the cache may present the entry as absent, or remove it, at any
time of its own choosing; before it, never. `Access` collects what the cache and its clock choose
during one computation and `Access.Lawful` what they may choose.
-/

namespace ExpiringCache

open Rust

/-- A cached value and the time from which it may be gone, if it expires at all. -/
structure Slot (V : Type) where
  value : V
  deadline : Option ℕ

/-- The entries physically in the cache. -/
abbrev Cache (V : Type) := String → Option (Slot V)

/-- `moka::policy::Expiry`: the lifetime of an entry at the time it is created or updated. -/
structure Expiry (V : Type) where
  expireAfterCreate : V → Instant → Option Duration
  expireAfterUpdate : V → Instant → Option Duration

/-- `moka::ops::compute::Op`. -/
inductive Op (V : Type) where
  | nop
  | put (value : V)
  | remove

/-- `moka::ops::compute::CompResult`. -/
inductive CompResult (V : Type) where
  | inserted (value : V)
  | replacedWith (value : V)
  | removed (value : V)
  | stillNone
  | unchanged (value : V)

/-- `CompResult::into_entry`. -/
def CompResult.intoEntry {V : Type} : CompResult V → Option V
  | .inserted v | .replacedWith v | .unchanged v => some v
  | .removed _ | .stillNone => none

/-- What the cache and the clocks do during one computation: whether the entry is presented as
absent and at which cache time, the closure's own clock reading, and the cache time of a put
together with the expiry hook it uses. -/
structure Access where
  hidden : Bool
  lookupAt : Instant
  now : Instant
  putAt : Instant
  asUpdate : Bool

variable {V ε : Type}

/-- An entry may be gone at time `t`. -/
def Slot.MayBeGone (s : Slot V) (t : ℕ) : Prop := ∃ d, s.deadline = some d ∧ d ≤ t

/-- A cache only hides an entry past its deadline, at a time that is not after the closure's clock
reading, and puts at a time that is not before it. -/
structure Access.Lawful (a : Access) (slot : Option (Slot V)) : Prop where
  hidden : a.hidden = true → ∀ s, slot = some s →
    s.MayBeGone a.lookupAt.nanos ∧ a.lookupAt ≤ a.now
  putAt : a.now ≤ a.putAt

/-- The entry the closure is shown. -/
def Access.shown (a : Access) (slot : Option (Slot V)) : Option V :=
  if a.hidden then none else slot.map Slot.value

/-- The slot a put leaves behind. -/
def Access.slot (a : Access) (expiry : Expiry V) (v : V) : Slot V where
  value := v
  deadline :=
    (if a.asUpdate then expiry.expireAfterUpdate v a.putAt
      else expiry.expireAfterCreate v a.putAt).map fun d => a.putAt.nanos + d.nanos

/-- `entry_by_ref(key).and_try_compute_with(f)`: one atomic step on `key`. An error leaves the cache
as it is. -/
def andTryComputeWith (expiry : Expiry V) (cache : Cache V) (key : String) (a : Access)
    (f : Instant → Option V → Except ε (Op V)) : Except ε (CompResult V) × Cache V :=
  let shown := a.shown (cache key)
  match f a.now shown with
  | .error e => (.error e, cache)
  | .ok (.put v) =>
      (.ok (match shown with | none => .inserted v | some _ => .replacedWith v),
        Function.update cache key (some (a.slot expiry v)))
  | .ok .remove =>
      (.ok (match shown with | none => .stillNone | some v => .removed v),
        Function.update cache key none)
  | .ok .nop => (.ok (match shown with | none => .stillNone | some v => .unchanged v), cache)

section Compute

variable {expiry : Expiry V} {cache : Cache V} {key : String} {a : Access}
  {f : Instant → Option V → Except ε (Op V)}

variable (expiry) in
theorem andTryComputeWith_put {v : V} (h : f a.now (a.shown (cache key)) = .ok (.put v)) :
    ∃ result, result.intoEntry = some v ∧ andTryComputeWith expiry cache key a f =
      (.ok result, Function.update cache key (some (a.slot expiry v))) := by
  refine ⟨match a.shown (cache key) with | none => .inserted v | some _ => .replacedWith v, ?_, ?_⟩
  · split <;> rfl
  · simp only [andTryComputeWith, h]

theorem andTryComputeWith_error {e : ε} (h : f a.now (a.shown (cache key)) = .error e) :
    andTryComputeWith expiry cache key a f = (.error e, cache) := by
  simp only [andTryComputeWith, h]

/-- A computation leaves the entries of other keys alone. -/
theorem andTryComputeWith_of_ne {k : String} (h : k ≠ key) :
    (andTryComputeWith expiry cache key a f).2 k = cache k := by
  simp only [andTryComputeWith]
  split
  · rfl
  · exact Function.update_of_ne h _ _
  · exact Function.update_of_ne h _ _
  · rfl

variable (expiry a f) in
/-- A computation depends on the entry of its own key only. -/
theorem andTryComputeWith_congr {cache' : Cache V} (h : cache key = cache' key) :
    (andTryComputeWith expiry cache key a f).1 = (andTryComputeWith expiry cache' key a f).1 ∧
      (andTryComputeWith expiry cache key a f).2 key =
        (andTryComputeWith expiry cache' key a f).2 key := by
  simp only [andTryComputeWith, h]
  split
  · exact ⟨rfl, h⟩
  · exact ⟨rfl, by simp only [Function.update_self]⟩
  · exact ⟨rfl, by simp only [Function.update_self]⟩
  · exact ⟨rfl, h⟩

end Compute

/-- The cache removes an entry on its own. -/
def evict (cache : Cache V) (key : String) : Cache V := Function.update cache key none

end ExpiringCache
