import TowerRateLimiter.Limiter.Response

/-!
# What responses advertise

A response advertises four numbers of its policy: the limit, what remains of it, the seconds to the
reset and the seconds of the window. A `Report` is what a store returned for one charge, with the
window the charge was counted in. `WindowLaws` says what a fixed-window store guarantees about the
reports of a run, and `WindowLaws.coherent` that the numbers advertised from them are coherent,
whatever the limits and the rounding.
-/

namespace TowerRateLimiter

open Rust

/-! ## One response -/

/-- The numbers that a response advertises. -/
structure Advertised where
  limit : UInt64
  remaining : UInt64
  reset : UInt64
  window : UInt64
deriving DecidableEq

/-- The field values that advertise the numbers. -/
def Advertised.values (a : Advertised) (name : String) :
    RateLimitFields → Option (String × String)
  | .draft7 =>
      some (toString a.limit ++ ";w=" ++ toString a.window,
        "limit=" ++ toString a.limit ++ ", remaining=" ++ toString a.remaining ++ ", reset=" ++
          toString a.reset)
  | .draft11 =>
      some ("\"" ++ name ++ "\";q=" ++ toString a.limit ++ ";w=" ++ toString a.window,
        "\"" ++ name ++ "\";r=" ++ toString a.remaining ++ ";t=" ++ toString a.reset)
  | .disabled => none

namespace Policy

/-- The numbers of a policy. -/
def advertised (p : Policy) : Advertised where
  limit := p.limit
  remaining := p.remaining
  reset := ceilSeconds p.resetAfter
  window := ceilSeconds p.window

/-- The fields of a response advertise the numbers of its policy. -/
theorem formatRateLimitFields_eq (p : Policy) (fields : RateLimitFields) :
    formatRateLimitFields ⟨p, fields⟩ = p.advertised.values p.name fields := by
  cases fields <;> rfl

/-- A coherent policy: the reset is at least a second away and not after a whole window, no more
than the limit remains, and a rate-limited response says that nothing remains and gives the
advertised reset as its `Retry-After`. -/
structure Coherent (p : Policy) : Prop where
  values : ∀ fields, formatRateLimitFields ⟨p, fields⟩ = p.advertised.values p.name fields
  one_le_reset : 1 ≤ p.advertised.reset.toNat
  reset_le_window : p.advertised.reset.toNat ≤ p.advertised.window.toNat
  remaining_le_limit : p.advertised.remaining.toNat ≤ p.advertised.limit.toNat
  rateLimited : p.isRateLimited = true → p.advertised.remaining.toNat = 0 ∧
    ∀ (Body : Type) (response : Response Body) (fields : RateLimitFields),
      (HeaderMap.getAll (appendRateLimitedResponseHeaders response ⟨p, fields⟩).headers
          retryAfter).map HeaderValue.text =
        (HeaderMap.getAll response.headers retryAfter).map HeaderValue.text ++
          [toString p.advertised.reset]

/-- A policy whose reset is not further away than its window is coherent. -/
theorem coherent_of_le {p : Policy} (h : p.resetAfter.nanos ≤ p.window.nanos) : p.Coherent where
  values := p.formatRateLimitFields_eq
  one_le_reset := one_le_ceilSeconds _
  reset_le_window := ceilSeconds_mono h
  remaining_le_limit := by
    show p.remaining.toNat ≤ p.limit.toNat
    rw [toNat_remaining]
    exact Nat.sub_le _ _
  rateLimited hlimited := by
    have hover : p.limit < p.used := of_decide_eq_true hlimited
    refine ⟨?_, fun _ response fields => getAll_retryAfter_rateLimited response ⟨p, fields⟩⟩
    show p.remaining.toNat = 0
    rw [toNat_remaining, Nat.sub_eq_zero_iff_le]
    exact (UInt64.lt_iff_toNat_lt.mp hover).le

end Policy

/-! ## The responses of a run -/

variable {ι : Type}

/-- What a store returned for one charge: the key and the window argument of the charge, which
window of the key it was counted in, the time at which the reset duration was read, and the
usage. -/
structure Report (ι : Type) where
  key : String
  window : Duration
  windowId : ι
  readAt : ℕ
  usage : Usage

namespace Report

/-- Two charges of one window. -/
def SameWindow (r r' : Report ι) : Prop := r.key = r'.key ∧ r.windowId = r'.windowId

/-- A layer that uses the limit advertises `a` for the charge. -/
def Advertises (r : Report ι) (limit : UInt64) (a : Advertised) : Prop :=
  ∃ name policy, Policy.fromUsage name r.window limit r.usage = .ok policy ∧ policy.advertised = a

/-- What is advertised for a charge. -/
theorem Advertises.eq {r : Report ι} {limit : UInt64} {a : Advertised} (h : r.Advertises limit a) :
    a = ⟨limit, saturatingSub limit r.usage.used, ceilSeconds r.usage.resetAfter,
      ceilSeconds r.window⟩ := by
  obtain ⟨name, policy, hpolicy, rfl⟩ := h
  rw [Policy.fromUsage_eq_ok hpolicy]
  rfl

end Report

/-- The responses to the charges of a run, in charge order, are coherent: each of them is, and among
those of one window what remains of a constant limit never grows in charge order, and the reset
never grows in the order in which it was read. -/
structure CoherentRun (reports : List (Report ι)) : Prop where
  each : ∀ r ∈ reports, ∀ name limit policy,
    Policy.fromUsage name r.window limit r.usage = .ok policy → policy.Coherent
  remaining : reports.Pairwise fun r r' => r.SameWindow r' → ∀ limit a a',
    r.Advertises limit a → r'.Advertises limit a' → a'.remaining.toNat ≤ a.remaining.toNat
  reset : ∀ r ∈ reports, ∀ r' ∈ reports, r.SameWindow r' → r.readAt ≤ r'.readAt →
    ∀ limit limit' a a', r.Advertises limit a → r'.Advertises limit' a' →
      a'.reset.toNat ≤ a.reset.toNat

/-- What a fixed-window store guarantees about the charges of a run, in charge order: the time left
is at most the window asked for, and in one window counts never go down and the time left never goes
up. -/
structure WindowLaws (reports : List (Report ι)) : Prop where
  inside : ∀ r ∈ reports, r.usage.resetAfter.nanos ≤ r.window.nanos
  counts : reports.Pairwise fun r r' =>
    r.SameWindow r' → r.usage.used.toNat ≤ r'.usage.used.toNat
  elapses : ∀ r ∈ reports, ∀ r' ∈ reports, r.SameWindow r' → r.readAt ≤ r'.readAt →
    r'.usage.resetAfter.nanos ≤ r.usage.resetAfter.nanos

/-- **What is advertised from a fixed-window store is coherent.** -/
theorem WindowLaws.coherent {reports : List (Report ι)} (h : WindowLaws reports) :
    CoherentRun reports where
  each r hr name limit policy hpolicy := by
    rw [Policy.fromUsage_eq_ok hpolicy]
    exact Policy.coherent_of_le (h.inside r hr)
  remaining := by
    refine h.counts.imp fun {r r'} hcounts hsame limit a a' ha ha' => ?_
    rw [ha.eq, ha'.eq, toNat_saturatingSub, toNat_saturatingSub]
    exact Nat.sub_le_sub_left (hcounts hsame) _
  reset r hr r' hr' hsame hread limit limit' a a' ha ha' := by
    rw [ha.eq, ha'.eq]
    exact ceilSeconds_mono (h.elapses r hr r' hr' hsame hread)

end TowerRateLimiter
