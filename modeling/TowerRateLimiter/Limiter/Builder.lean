import TowerRateLimiter.Limiter.Service

/-!
# The builder

`limiter/builder.rs`, with the fixed limit provider of `limiter/limit.rs`. The setters of the store,
the limit provider and the response factory change the type of the builder, the others its
configuration. `build` checks the configuration: the window has a minimum and the policy name is not
empty (`build_eq_ok_iff`). Nothing else about them is checked.
-/

namespace TowerRateLimiter

open Rust

/-- Errors produced while validating a builder. -/
inductive ConfigError where
  | windowTooShort (window minimum : Duration)
  | emptyPolicyName
deriving DecidableEq

/-- `MINIMUM_WINDOW`. -/
def minimumWindow : Duration := Duration.ofMillis 1

variable {σ Head ReqBody ResBody : Type}

/-- `impl LimitProvider for u64`. -/
def fixedLimit : LimitProvider σ Head ReqBody where
  Self := UInt64
  Future := Ready (Except RateLimitError UInt64)
  limit limit _ := pure ⟨some (.ok limit)⟩
  poll := Ready.poll

/-- `RateLimitBuilder`, generic in the key extractor, the store, the limit provider and the response
factory. -/
structure RateLimitBuilder (σ Head K S P F : Type) where
  keyExtractor : K
  store : S
  limitProvider : P
  responseFactory : F
  config : RateLimitConfig σ Head

namespace RateLimitBuilder

variable {K S P F : Type}

/-- `RateLimitBuilder::new`, with its defaults. -/
def new [Inhabited ResBody] (keyExtractor : K) :
    RateLimitBuilder σ Head K Unit UInt64 (ResponseFactory σ Head ReqBody ResBody) where
  keyExtractor
  store := ()
  limitProvider := 1
  responseFactory request reason := pure (defaultBuild request reason)
  config :=
    { policyName := "default-policy"
      window := Duration.ofSecs 60
      keyEncoder := none
      skipPredicate := none
      storeFailureMode := .reject
      rateLimitFields := .draft11 }

variable (b : RateLimitBuilder σ Head K S P F)

/-! ## Setters -/

/-- `with_store`. -/
def withStore {S₂ : Type} (store : S₂) : RateLimitBuilder σ Head K S₂ P F := { b with store }

/-- `limit`. -/
def limit (limit : UInt64) : RateLimitBuilder σ Head K S UInt64 F :=
  { b with limitProvider := limit }

/-- `limit_provider`, as a setter. -/
def withLimitProvider {P₂ : Type} (limitProvider : P₂) : RateLimitBuilder σ Head K S P₂ F :=
  { b with limitProvider }

/-- `response_factory`, as a setter. -/
def withResponseFactory {F₂ : Type} (responseFactory : F₂) : RateLimitBuilder σ Head K S P F₂ :=
  { b with responseFactory }

/-- `window`. -/
def window (window : Duration) : RateLimitBuilder σ Head K S P F :=
  { b with config := { b.config with window } }

/-- `policy_name`. -/
def policyName (policyName : String) : RateLimitBuilder σ Head K S P F :=
  { b with config := { b.config with policyName } }

/-- `with_key_encoder`. -/
def withKeyEncoder (encoder : String → Eff σ String) : RateLimitBuilder σ Head K S P F :=
  { b with config := { b.config with keyEncoder := some encoder } }

/-- `skip`. -/
def skip (predicate : Request Head Unit → Eff σ Bool) : RateLimitBuilder σ Head K S P F :=
  { b with config := { b.config with skipPredicate := some predicate } }

/-- `store_failure_mode`. -/
def storeFailureMode (mode : StoreFailureMode) : RateLimitBuilder σ Head K S P F :=
  { b with config := { b.config with storeFailureMode := mode } }

/-- `rate_limit_fields`. -/
def rateLimitFields (fields : RateLimitFields) : RateLimitBuilder σ Head K S P F :=
  { b with config := { b.config with rateLimitFields := fields } }

/-! ## Building -/

/-- `validate`. -/
def validate : Except ConfigError Unit :=
  if b.config.window < minimumWindow then
    .error (.windowTooShort b.config.window minimumWindow)
  else if b.config.policyName.isEmpty then .error .emptyPolicyName
  else .ok ()

/-- What `validate` accepts. -/
theorem validate_eq_ok_iff :
    b.validate = .ok () ↔ minimumWindow ≤ b.config.window ∧ b.config.policyName ≠ "" := by
  unfold validate
  split
  next hshort =>
    refine ⟨fun h => absurd h (by simp), fun h => ?_⟩
    exact absurd (show b.config.window.nanos < minimumWindow.nanos from hshort) (Nat.not_lt.mpr h.1)
  next hlong =>
    have hle : minimumWindow ≤ b.config.window := Nat.le_of_not_lt hlong
    simp [hle]

/-- `build`, for components that implement the traits of the crate. -/
def build {S : Store σ} {P : LimitProvider σ Head ReqBody}
    (b : RateLimitBuilder σ Head (KeyExtractor σ Head ReqBody) S.Self P.Self
      (ResponseFactory σ Head ReqBody ResBody)) :
    Except ConfigError (RateLimitLayer σ Head ReqBody ResBody S P) := do
  b.validate
  return { keyExtractor := b.keyExtractor, store := b.store, limitProvider := b.limitProvider,
           responseFactory := b.responseFactory, config := b.config }

variable {S : Store σ} {P : LimitProvider σ Head ReqBody}

/-- `build` accepts a builder exactly if its window has the minimum and its policy name is not
empty, and moves its parts into the layer. -/
theorem build_eq_ok_iff
    (b : RateLimitBuilder σ Head (KeyExtractor σ Head ReqBody) S.Self P.Self
      (ResponseFactory σ Head ReqBody ResBody))
    {layer : RateLimitLayer σ Head ReqBody ResBody S P} :
    b.build = .ok layer ↔
      (minimumWindow ≤ b.config.window ∧ b.config.policyName ≠ "") ∧
        layer = ⟨b.keyExtractor, b.store, b.limitProvider, b.responseFactory, b.config⟩ := by
  rw [← b.validate_eq_ok_iff]
  unfold build
  cases hvalid : b.validate with
  | error e =>
    constructor
    · intro h
      exact absurd h (by simp [bind, Except.bind])
    · intro h
      exact absurd h.1 (by simp)
  | ok _ =>
    constructor
    · intro h
      exact ⟨rfl, (Except.ok.inj h).symm⟩
    · rintro ⟨-, rfl⟩
      rfl

end RateLimitBuilder

end TowerRateLimiter
