import TowerRateLimiter.Store.Memory
import TowerRateLimiter.System.Story

/-!
# Requests over one in-memory store

`MemoryStore` as the store that the requests of a run share. Its clones are one cache, so a limiter
holds nothing of its own. An increment is complete when it returns: the charge is seen with the
clock reading of its atomic step, and the future holds the result.
-/

namespace TowerRateLimiter

open Rust ExpiringCache

/-- What the cache and the clocks do if the store is charged: the access of the atomic step, and the
reading after it. -/
structure CacheTurn where
  access : Access
  readAt : Instant

/-- A charge, with the clock reading of its atomic step. -/
structure MemoryCharge where
  key : String
  window : Duration
  now : Instant
  result : Except RateLimitError Usage

/-- The cache removes an entry. -/
structure Removal where
  key : String
  at' : Instant

/-- `impl Store for MemoryStore`. -/
@[reducible] def memory : SharedStore where
  Shared := MemoryStore
  initial := MemoryStore.new
  Handle := Unit
  Future := Ready (Except RateLimitError Usage)
  Supply := CacheTurn
  idle := ⟨⟨false, ⟨0, by decide⟩, ⟨0, by decide⟩, ⟨0, by decide⟩, false⟩, ⟨0, by decide⟩⟩
  Charge := MemoryCharge
  result := MemoryCharge.result
  Move := Removal
  move removal store := ExpiringCache.evict store removal.key
  increment _ _ key window turn store :=
    let (result, store) := store.incrementUsage key window turn.access turn.readAt
    let result := result.mapError MemoryStoreError.toRateLimitError
    (⟨some result⟩, store, some ⟨key, window, turn.access.now, result⟩)
  poll _ := Ready.poll
  taken _ := none
  For key window charge := charge.key = key ∧ charge.window = window
  Open key window future seen :=
    ∃ now result, future = ⟨some result⟩ ∧ seen = some ⟨key, window, now, result⟩
  open_increment _ _ _ _ _ _ := ⟨_, _, rfl, rfl⟩
  for_of_open := by
    rintro key window future charge ⟨now, result, -, hseen⟩
    obtain rfl := Option.some.inj hseen
    exact ⟨rfl, rfl⟩
  poll_open := by
    rintro key window future seen ⟨now, result, rfl, rfl⟩ turn store
    exact .inr ⟨⟨none⟩, store, ⟨key, window, now, result⟩, rfl, rfl, rfl, rfl⟩

variable {Head ReqBody ResBody E : Type}

/-- The cache removes the entry of a key at an instant. -/
@[match_pattern] abbrev Event.evict (key : String) (at' : Instant) : Event memory ResBody E :=
  .move (⟨key, at'⟩ : Removal)

/-- The charge of the request at the store. -/
def Job.charge (job : Job memory Head ReqBody ResBody) (store : MemoryStore) (key : String)
    (turn : CacheTurn) : Except RateLimitError Usage × MemoryStore :=
  let (result, store) := store.incrementUsage (job.limiter.storedKey key) job.limiter.window
    turn.access turn.readAt
  (result.mapError MemoryStoreError.toRateLimitError, store)

end TowerRateLimiter
