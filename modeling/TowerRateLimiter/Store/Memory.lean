import TowerRateLimiter.Common.ExpiringCache
import TowerRateLimiter.Common.FixedWindow
import TowerRateLimiter.Common.Task
import TowerRateLimiter.Limiter.Policy

/-!
# The in-memory store

`store/memory.rs`. A `MemoryStore` is a cache of counters; `incrementUsage` is the atomic closure
step on the key (`computeEntry` inside `andTryComputeWith`) followed by a read-out of the remaining
time at a second clock reading.
-/

namespace TowerRateLimiter

open Rust ExpiringCache

/-- Errors of the in-memory store. -/
inductive MemoryStoreError where
  | instantOutOfRange
  | failedToCompute
deriving DecidableEq

namespace MemoryStoreError

/-- The `Display` text. -/
def message : MemoryStoreError → String
  | .instantOutOfRange => "instant is out of range"
  | .failedToCompute => "failed to compute entry"

/-- `From<MemoryStoreError> for RateLimitError`. -/
def toRateLimitError (e : MemoryStoreError) : RateLimitError :=
  .store "memory_store_error" e.message

end MemoryStoreError

/-- One counter: the usage of its window and the window's end. -/
@[ext]
structure Entry where
  used : UInt64
  expiresAt : Instant
deriving DecidableEq

/-- `EntryExpiry`: an entry lives until its window ends. -/
def entryExpiry : Expiry Entry where
  expireAfterCreate entry createdAt := some (entry.expiresAt.saturatingDurationSince createdAt)
  expireAfterUpdate entry updatedAt := some (entry.expiresAt.saturatingDurationSince updatedAt)

/-- The counters of a `MemoryStore` and its clones. -/
abbrev MemoryStore := Cache Entry

namespace MemoryStore

/-- `MemoryStore::new`. -/
def new : MemoryStore := fun _ => none

/-- `now.checked_add(window).ok_or(InstantOutOfRange)`. -/
def windowEnd (now : Instant) (window : Duration) : Except MemoryStoreError Instant :=
  match now.checkedAdd window with
  | some t => .ok t
  | none => .error .instantOutOfRange

/-- The closure of `increment_usage`, run atomically on the key. -/
def computeEntry (window : Duration) (now : Instant) (shown : Option Entry) :
    Except MemoryStoreError (Op Entry) := do
  let mut entry ← match shown with
    | some entry => pure entry
    | none => do
        let expiresAt ← windowEnd now window
        pure { used := 0, expiresAt }
  if now ≥ entry.expiresAt then
    let expiresAt ← windowEnd now window
    entry := { used := 0, expiresAt }
  entry := { entry with used := saturatingAdd entry.used 1 }
  return .put entry

/-- The atomic part of `increment_usage`: everything up to the second clock reading. -/
def compute (store : MemoryStore) (key : String) (window : Duration) (a : Access) :
    Except MemoryStoreError Entry × MemoryStore :=
  match andTryComputeWith entryExpiry store key a (computeEntry window) with
  | (.error e, store') => (.error e, store')
  | (.ok result, store') =>
      (match result.intoEntry with
        | some entry => .ok entry
        | none => .error .failedToCompute, store')

/-- The usage read out at a second clock reading. -/
def readOut (entry : Entry) (now : Instant) : Usage where
  used := entry.used
  resetAfter := entry.expiresAt.saturatingDurationSince now

/-- `increment_usage`, with the clock reading `readAt` after the atomic part. -/
def incrementUsage (store : MemoryStore) (key : String) (window : Duration) (a : Access)
    (readAt : Instant) : Except MemoryStoreError Usage × MemoryStore :=
  let (result, store') := store.compute key window a
  (result.map (readOut · readAt), store')

/-! ## The closure -/

/-- The entry of a window that starts now. -/
def freshEntry (window : Duration) (now : Instant) : Except MemoryStoreError Entry :=
  (windowEnd now window).map fun expiresAt => { used := 1, expiresAt }

/-- The closure counts in an active window and starts a window otherwise. -/
theorem computeEntry_eq (window : Duration) (now : Instant) (shown : Option Entry) :
    computeEntry window now shown =
      match shown.filter (now < ·.expiresAt) with
      | some entry => .ok (.put { entry with used := saturatingAdd entry.used 1 })
      | none => (freshEntry window now).map .put := by
  cases shown with
  | none =>
    -- an empty window is restarted at once, with the same end
    cases hend : windowEnd now window with
    | error e => simp [computeEntry, freshEntry, hend, bind, Except.bind, Except.map]
    | ok t =>
      simp only [computeEntry, freshEntry, hend, bind, Except.bind, pure, Except.pure, Except.map,
        Option.filter_none]
      split <;> rfl
  | some entry =>
    by_cases hactive : now < entry.expiresAt
    · have hge : ¬ now ≥ entry.expiresAt := Nat.not_le.mpr hactive
      simp [computeEntry, Option.filter, hactive, hge, bind, Except.bind, pure, Except.pure]
    · have hge : now ≥ entry.expiresAt := Nat.not_lt.mp hactive
      cases hend : windowEnd now window with
      | error e =>
        simp [computeEntry, freshEntry, Option.filter, hactive, hge, hend, bind, Except.bind, pure,
          Except.pure, Except.map]
      | ok t =>
        simp [computeEntry, freshEntry, Option.filter, hactive, hge, hend, bind, Except.bind, pure,
          Except.pure, Except.map]
        rfl

/-- What the closure puts is what the atomic part returns. -/
theorem compute_of_put {store : MemoryStore} {key : String} {window : Duration} {a : Access}
    {entry : Entry} (h : computeEntry window a.now (a.shown (store key)) = .ok (.put entry)) :
    store.compute key window a =
      (.ok entry, Function.update store key (some (a.slot entryExpiry entry))) := by
  obtain ⟨result, hentry, hcompute⟩ := andTryComputeWith_put entryExpiry h
  simp only [compute, hcompute, hentry]

/-- The atomic part of an increment inside an active window. -/
theorem compute_active {store : MemoryStore} {key : String} {window : Duration} {a : Access}
    {entry : Entry} (hshown : a.shown (store key) = some entry) (hactive : a.now < entry.expiresAt) :
    store.compute key window a =
      (.ok { entry with used := saturatingAdd entry.used 1 },
        Function.update store key
          (some (a.slot entryExpiry { entry with used := saturatingAdd entry.used 1 }))) := by
  apply compute_of_put
  rw [computeEntry_eq, hshown]
  simp [Option.filter, hactive]

section Start

variable {store : MemoryStore} {key : String} {window : Duration} {a : Access}
  (hshown : ∀ entry, a.shown (store key) = some entry → entry.expiresAt ≤ a.now)

include hshown in
/-- Without an active window the closure starts one. -/
theorem computeEntry_start :
    computeEntry window a.now (a.shown (store key)) = (freshEntry window a.now).map .put := by
  have hfilter : (a.shown (store key)).filter (a.now < ·.expiresAt) = none := by
    rw [Option.filter_eq_none_iff]
    intro entry hentry
    simpa using hshown entry hentry
  rw [computeEntry_eq, hfilter]

include hshown in
/-- The atomic part of an increment that starts a window. -/
theorem compute_fresh (hrange : a.now.nanos + window.nanos < instantEnd) :
    store.compute key window a =
      (.ok { used := 1, expiresAt := ⟨a.now.nanos + window.nanos, hrange⟩ },
        Function.update store key (some (a.slot entryExpiry
          { used := 1, expiresAt := ⟨a.now.nanos + window.nanos, hrange⟩ }))) := by
  apply compute_of_put
  rw [computeEntry_start hshown]
  simp only [freshEntry, windowEnd, Instant.checkedAdd_of_lt hrange, Except.map]

include hshown in
/-- An increment that would start a window past the end of the clock fails and changes nothing. -/
theorem compute_outOfRange (hrange : instantEnd ≤ a.now.nanos + window.nanos) :
    store.compute key window a = (.error .instantOutOfRange, store) := by
  have hclosure : computeEntry window a.now (a.shown (store key)) = .error .instantOutOfRange := by
    rw [computeEntry_start hshown]
    simp only [freshEntry, windowEnd, Instant.checkedAdd_of_le hrange, Except.map]
  simp only [compute, andTryComputeWith_error hclosure]

end Start

/-! ## Keys are independent -/

section Keys

variable {store : MemoryStore} {key : String} {window : Duration} {a : Access} {readAt : Instant}

/-- The result of the cache's computation, as the increment reads it. -/
def entryOf : Except MemoryStoreError (CompResult Entry) → Except MemoryStoreError Entry
  | .error e => .error e
  | .ok result =>
      match result.intoEntry with
      | some entry => .ok entry
      | none => .error .failedToCompute

/-- An increment is the cache's computation on its key and a read-out. -/
theorem incrementUsage_eq :
    store.incrementUsage key window a readAt =
      ((entryOf (andTryComputeWith entryExpiry store key a (computeEntry window)).1).map
          (readOut · readAt),
        (andTryComputeWith entryExpiry store key a (computeEntry window)).2) := by
  simp only [incrementUsage, compute]
  rcases andTryComputeWith entryExpiry store key a (computeEntry window) with ⟨_ | _, _⟩ <;> rfl

variable (window a readAt)

/-- An increment leaves the counters of other keys alone. -/
theorem incrementUsage_of_ne {k : String} (h : k ≠ key) :
    (store.incrementUsage key window a readAt).2 k = store k := by
  rw [incrementUsage_eq]
  exact andTryComputeWith_of_ne h

/-- An increment depends on the counter of its own key only. -/
theorem incrementUsage_congr {store' : MemoryStore} (h : store key = store' key) :
    (store.incrementUsage key window a readAt).1 = (store'.incrementUsage key window a readAt).1 ∧
      (store.incrementUsage key window a readAt).2 key =
        (store'.incrementUsage key window a readAt).2 key := by
  obtain ⟨hresult, hentry⟩ := andTryComputeWith_congr entryExpiry a (computeEntry window) h
  rw [incrementUsage_eq, incrementUsage_eq, hresult]
  exact ⟨rfl, hentry⟩

end Keys

end MemoryStore

end TowerRateLimiter
