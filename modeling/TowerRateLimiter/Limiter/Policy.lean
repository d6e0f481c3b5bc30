import TowerRateLimiter.Common.Time

/-!
# Policies, usage and scoped keys

`limiter/error.rs`, `limiter/store.rs` and `limiter/policy.rs`: the errors of the middleware, what a
store returns for one charge, the policy state built from it and the scoped key a charge is made
under.
-/

namespace TowerRateLimiter

open Rust

/-- A failure produced while resolving or charging a policy: a stable code and a message. -/
inductive RateLimitError where
  | key (code message : String)
  | quota (code message : String)
  | store (code message : String)
deriving DecidableEq

/-- What to do when the store fails. -/
inductive StoreFailureMode where
  | reject
  | allow
deriving DecidableEq

/-- The Rate Limit Fields revision emitted in responses. -/
inductive RateLimitFields where
  | draft7
  | draft11
  | disabled
deriving DecidableEq

/-- The usage and reset duration returned by a store. -/
@[ext]
structure Usage where
  used : UInt64
  resetAfter : Duration
deriving DecidableEq

/-! ## Policy -/

/-- A policy's state for one charged request. -/
@[ext]
structure Policy where
  name : String
  limit : UInt64
  window : Duration
  used : UInt64
  resetAfter : Duration
deriving DecidableEq

namespace Policy

/-- The error a zero usage is turned into. -/
def zeroUsage : RateLimitError := .store "invalid_usage" "rate-limit store returned zero usage"

/-- `Policy::from_usage`. -/
def fromUsage (name : String) (window : Duration) (limit : UInt64) (usage : Usage) :
    Except RateLimitError Policy :=
  if usage.used = 0 then .error zeroUsage
  else .ok { name, limit, window, used := usage.used, resetAfter := usage.resetAfter }

theorem fromUsage_eq_ok {name : String} {window : Duration} {limit : UInt64} {usage : Usage}
    {policy : Policy} (h : fromUsage name window limit usage = .ok policy) :
    policy = ⟨name, limit, window, usage.used, usage.resetAfter⟩ := by
  unfold fromUsage at h
  split at h
  · exact absurd h (by simp)
  · exact (Except.ok.inj h).symm

/-- `Policy::remaining`. -/
def remaining (p : Policy) : UInt64 := saturatingSub p.limit p.used

theorem toNat_remaining (p : Policy) : p.remaining.toNat = p.limit.toNat - p.used.toNat :=
  toNat_saturatingSub _ _

/-- `Policy::is_rate_limited`. -/
def isRateLimited (p : Policy) : Bool := p.used > p.limit

end Policy

/-- Rate-limit state carried in the extensions of an allowed request. -/
@[ext]
structure RateLimitContext where
  policies : List Policy
deriving DecidableEq

/-- Response-field configuration for one charged policy. -/
structure ResponseMetadata where
  policy : Policy
  fields : RateLimitFields
deriving DecidableEq

/-! ## Requests -/

/-- `http::Request`. `head` stands for the method, URI, version, headers and extensions other than
the `RateLimitContext`, which the middleware reads and writes. -/
structure Request (Head Body : Type) where
  head : Head
  context : Option RateLimitContext
  body : Body

variable {Head Body : Type}

/-- The policies in the request's context, none if it has no context. -/
def Request.policies (request : Request Head Body) : List Policy :=
  (request.context.getD ⟨[]⟩).policies

/-- `append_context`: `get_or_insert_default` the context and push the policy. -/
def appendContext (request : Request Head Body) (metadata : ResponseMetadata) :
    Request Head Body :=
  { request with context := some ⟨(request.context.getD ⟨[]⟩).policies ++ [metadata.policy]⟩ }

@[simp] theorem policies_appendContext (request : Request Head Body) (metadata : ResponseMetadata) :
    (appendContext request metadata).policies = request.policies ++ [metadata.policy] := rfl

/-! ## Scoped keys -/

/-- `str::replace` with a single character as the pattern. -/
def replaceChar (c : Char) (by' : List Char) (s : List Char) : List Char :=
  s.flatMap fun d => if d = c then by' else [d]

/-- `escape_key_part`: first every `%`, then every `:`. -/
def escapeKeyPart (value : String) : String :=
  String.ofList (replaceChar ':' "%3A".toList (replaceChar '%' "%25".toList value.toList))

/-- `make_key`: the scoped key passed toward a store. -/
def makeKey (policyName clientKey : String) : String :=
  escapeKeyPart policyName ++ ":" ++ escapeKeyPart clientKey

end TowerRateLimiter
