import TowerRateLimiter.Store.RedisFuture
import TowerRateLimiter.System.Story

/-!
# Replicas over one Redis server

Requests in any number of processes that share nothing but a Redis server. Each limiter has a
`RedisStore` of its own, with its own namespace and implementation. What the server does by itself
in a run is to execute a command: long after it was sent, out of order, or never. Its answer may be
read late or replaced by a failure of the connection. A charge is seen when the request takes its
result.
-/

namespace TowerRateLimiter

open Rust Redis

/-- The store of a replica and the implementation it was built with. -/
structure Replica extends RedisStore where
  implementation : Implementation

/-- The server executes the command of a ticket when its clock reads `now`. -/
structure Serving where
  ticket : ℕ
  now : ℕ

/-- `impl Store for RedisStore`. -/
@[reducible] def redis (backend : Backend) : SharedStore where
  Shared := Cluster
  initial := .start .empty
  Handle := Replica
  Future := RedisFuture
  Supply := Link
  idle := .busy
  Charge := Except RateLimitError Usage
  result answer := answer
  Move := Serving
  move serving cluster := cluster.serve backend serving.ticket serving.now
  increment replica id key window _ cluster :=
    (replica.begin replica.implementation id key window, cluster, none)
  poll := RedisFuture.poll backend
  taken := some
  For _ _ _ := True
  Open _ _ future seen := future ≠ .finished ∧ seen = none
  open_increment replica id key window _ _ := by
    refine ⟨?_, rfl⟩
    unfold RedisStore.begin
    split <;> exact RedisFuture.noConfusion
  for_of_open _ := trivial
  poll_open := by
    rintro key window future seen ⟨hfuture, rfl⟩ link cluster
    rcases RedisFuture.poll_cases backend link future cluster hfuture with
      hpoll | ⟨message, rfl, hpoll⟩ | ⟨result, hpoll, -⟩
    · exact .inl ⟨future, cluster, hpoll, hfuture, rfl⟩
    · exact .inl ⟨_, _, hpoll, RedisFuture.noConfusion, rfl⟩
    · exact .inr ⟨_, _, result, hpoll, rfl, trivial⟩

variable {Head ReqBody ResBody E : Type} {backend : Backend}

/-- The server executes a command. -/
@[match_pattern] abbrev Event.serve (ticket now : ℕ) : Event (redis backend) ResBody E :=
  .move (⟨ticket, now⟩ : Serving)

/-- The request takes the result of its charge. -/
@[match_pattern] abbrev Act.answer (result : Except RateLimitError Usage) :
    Act (redis backend) Head ReqBody :=
  .charge result

end TowerRateLimiter
