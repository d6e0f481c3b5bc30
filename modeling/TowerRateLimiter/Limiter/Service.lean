import TowerRateLimiter.Limiter.Future

/-!
# The Tower service and its layer

`limiter/service.rs` and `limiter/layer.rs`. `RateLimit.call` reserves the instance that
`poll_ready` was called on and leaves a clone of it behind, then decides on the spot between a
skipped request, a key error and a request whose limit has to be resolved. `RateLimitLayer.service`
is the resulting `tower_service::Service`, so that layers nest.

The key extractor, the store, the limit provider and the response factory are values whose clones
are interchangeable with the original, as their traits ask.
-/

namespace TowerRateLimiter

open Rust

variable {σ Head ReqBody ResBody E : Type}

/-! ## Skipping -/

/-- `check_skip_predicate`: the predicate sees the request without its body. -/
def checkSkipPredicate (predicate : Option (Request Head Unit → Eff σ Bool))
    (request : Request Head ReqBody) : Eff σ (Bool × Request Head ReqBody) :=
  match predicate with
  | none => return (false, request)
  | some predicate => do
      let requestHead : Request Head Unit := { request with body := () }
      let shouldSkip ← predicate requestHead
      return (shouldSkip, { requestHead with body := request.body })

/-! ## Services and layers -/

/-- The `KeyExtractor` trait: its `extract` method, with the key as it is displayed. -/
abbrev KeyExtractor (σ Head ReqBody : Type) :=
  Request Head ReqBody → Eff σ (Except RateLimitError String)

/-- Layer that applies `RateLimit`. -/
structure RateLimitLayer (σ Head ReqBody ResBody : Type) (S : Store σ)
    (P : LimitProvider σ Head ReqBody) where
  keyExtractor : KeyExtractor σ Head ReqBody
  store : S.Self
  limitProvider : P.Self
  responseFactory : ResponseFactory σ Head ReqBody ResBody
  config : RateLimitConfig σ Head

/-- Tower service produced by a layer. -/
structure RateLimit (Inner : Service σ (Request Head ReqBody) (Response ResBody) E) (S : Store σ)
    (P : LimitProvider σ Head ReqBody) where
  inner : Inner.Inst
  keyExtractor : KeyExtractor σ Head ReqBody
  store : S.Self
  limitProvider : P.Self
  responseFactory : ResponseFactory σ Head ReqBody ResBody
  config : RateLimitConfig σ Head

variable {Inner : Service σ (Request Head ReqBody) (Response ResBody) E} {S : Store σ}
  {P : LimitProvider σ Head ReqBody}

/-- `ResponseFuture::skipped`: the inner service is called at once. -/
def ResponseFuture.skipped (request : Request Head ReqBody) (inner : Inner.Inst) (store : S.Self)
    (config : RateLimitConfig σ Head) (factory : ResponseFactory σ Head ReqBody ResBody) :
    Eff σ (ResponseFuture Inner S P) := fun w =>
  match Inner.call request (inner, w) with
  | .ok future (inner, w) => .ok { state := .inner future none, inner, store, config, factory } w
  | .error p (_, w) => .error p w

namespace RateLimit

/-- `Clone`. -/
def clone (this : RateLimit Inner S P) : Eff σ (RateLimit Inner S P) := do
  let inner ← Inner.clone this.inner
  return { this with inner }

/-- `poll_ready` delegates to the inner service. -/
def pollReady : Eff (RateLimit Inner S P × σ) (Poll (Except E Unit)) := do
  let this := (← get).1
  onPart (fun inner => { this with inner }) this.inner Inner.pollReady

/-- `call`. -/
def call (request : Request Head ReqBody) :
    Eff (RateLimit Inner S P × σ) (ResponseFuture Inner S P) := do
  let this := (← get).1
  let replacement ← onWorld (Inner.clone this.inner)
  let inner := this.inner
  set (({ this with inner := replacement }, (← get).2) : RateLimit Inner S P × σ)
  match ← onWorld (checkSkipPredicate this.config.skipPredicate request) with
  | (true, request) =>
      onWorld (ResponseFuture.skipped request inner this.store this.config this.responseFactory)
  | (false, request) => do
      match ← onWorld (this.keyExtractor request) with
      | .error error =>
          return { state := .ready (.error request error), inner, store := this.store,
                   config := this.config, factory := this.responseFactory }
      | .ok key => do
          let future ← onWorld (P.limit this.limitProvider request)
          return { state := .limit future request key, inner, store := this.store,
                   config := this.config, factory := this.responseFactory }

end RateLimit

namespace RateLimitLayer

/-- `Layer::layer`. -/
def layer (l : RateLimitLayer σ Head ReqBody ResBody S P) (inner : Inner.Inst) :
    RateLimit Inner S P :=
  { l with inner }

end RateLimitLayer

/-- `RateLimit` as a Tower service over `Inner`. -/
def RateLimit.service (Inner : Service σ (Request Head ReqBody) (Response ResBody) E) (S : Store σ)
    (P : LimitProvider σ Head ReqBody) :
    Service σ (Request Head ReqBody) (Response ResBody) E where
  Inst := RateLimit Inner S P
  Future := ResponseFuture Inner S P
  clone := RateLimit.clone
  pollReady := RateLimit.pollReady
  call := RateLimit.call
  poll := ResponseFuture.poll

/-! ## What a call does -/

/-- `poll_ready` is that of the instance held. -/
theorem RateLimit.pollReady_eq (this : RateLimit Inner S P) (w : σ) :
    RateLimit.pollReady (this, w) =
      match Inner.pollReady (this.inner, w) with
      | .ok r (inner, w) => .ok r ({ this with inner }, w)
      | .error p (inner, w) => .error p ({ this with inner }, w) := by
  simp only [RateLimit.pollReady, bind, EStateM.bind, Eff.get_apply,
    onPart]
  rcases Inner.pollReady (this.inner, w) with ⟨r, inner, w'⟩ | ⟨p, inner, w'⟩ <;> rfl

/-- Every way a call can end. The reserved instance is the one `this` held; once the clone has
been made the service holds the clone, also when a component panics. -/
theorem RateLimit.call_eq (this : RateLimit Inner S P) (request : Request Head ReqBody) (w : σ) :
    RateLimit.call request (this, w) =
      match Inner.clone this.inner w with
      | .error p w => .error p (this, w)
      | .ok replacement w =>
          match checkSkipPredicate this.config.skipPredicate request w with
          | .error p w => .error p ({ this with inner := replacement }, w)
          | .ok (true, request) w =>
              match Inner.call request (this.inner, w) with
              | .error p (_, w) => .error p ({ this with inner := replacement }, w)
              | .ok future (inner, w) =>
                  .ok { state := .inner future none, inner, store := this.store,
                        config := this.config, factory := this.responseFactory }
                    ({ this with inner := replacement }, w)
          | .ok (false, request) w =>
              match this.keyExtractor request w with
              | .error p w => .error p ({ this with inner := replacement }, w)
              | .ok (.error e) w =>
                  .ok { state := .ready (.error request e), inner := this.inner,
                        store := this.store, config := this.config,
                        factory := this.responseFactory }
                    ({ this with inner := replacement }, w)
              | .ok (.ok key) w =>
                  match P.limit this.limitProvider request w with
                  | .error p w => .error p ({ this with inner := replacement }, w)
                  | .ok future w =>
                      .ok { state := .limit future request key, inner := this.inner,
                            store := this.store, config := this.config,
                            factory := this.responseFactory }
                        ({ this with inner := replacement }, w) := by
  simp only [RateLimit.call, bind, EStateM.bind, Eff.get_apply, Eff.set_apply, onWorld]
  rcases Inner.clone this.inner w with ⟨replacement, w₁⟩ | ⟨p, w₁⟩
  · simp only
    rcases checkSkipPredicate this.config.skipPredicate request w₁ with
      ⟨⟨_ | _, request₁⟩, w₂⟩ | ⟨p, w₂⟩
    · simp only [EStateM.bind, onWorld]
      rcases this.keyExtractor request₁ w₂ with ⟨_ | key, w₃⟩ | ⟨p, w₃⟩
      · rfl
      · simp only [EStateM.bind, onWorld]
        rcases P.limit this.limitProvider request₁ w₃ with ⟨future, w₄⟩ | ⟨p, w₄⟩ <;> rfl
      · rfl
    · simp only [onWorld, ResponseFuture.skipped]
      rcases Inner.call request₁ (this.inner, w₂) with ⟨future, inner, w₃⟩ | ⟨p, inner, w₃⟩ <;> rfl
    · rfl
  · rfl

section Call

variable {this : RateLimit Inner S P} {request : Request Head ReqBody} {w w₁ w₂ : σ}
  {replacement : Inner.Inst} (hclone : Inner.clone this.inner w = .ok replacement w₁)

include hclone

/-- A skipped request goes straight to the reserved instance. -/
theorem RateLimit.call_skipped {future : Inner.Future} {inner : Inner.Inst} {w₃ : σ}
    (hskip : checkSkipPredicate this.config.skipPredicate request w₁ = .ok (true, request) w₂)
    (hcall : Inner.call request (this.inner, w₂) = .ok future (inner, w₃)) :
    RateLimit.call request (this, w) =
      .ok { state := .inner future none, inner, store := this.store, config := this.config,
            factory := this.responseFactory } ({ this with inner := replacement }, w₃) := by
  simp only [RateLimit.call_eq, hclone, hskip, hcall]

/-- A key error is answered without resolving a limit. -/
theorem RateLimit.call_error {e : RateLimitError} {w₃ : σ}
    (hskip : checkSkipPredicate this.config.skipPredicate request w₁ = .ok (false, request) w₂)
    (hkey : this.keyExtractor request w₂ = .ok (.error e) w₃) :
    RateLimit.call request (this, w) =
      .ok { state := .ready (.error request e), inner := this.inner, store := this.store,
            config := this.config, factory := this.responseFactory }
        ({ this with inner := replacement }, w₃) := by
  simp only [RateLimit.call_eq, hclone, hskip, hkey]

/-- Any other request starts by resolving its limit. -/
theorem RateLimit.call_limit {key : String} {future : P.Future} {w₃ w₄ : σ}
    (hskip : checkSkipPredicate this.config.skipPredicate request w₁ = .ok (false, request) w₂)
    (hkey : this.keyExtractor request w₂ = .ok (.ok key) w₃)
    (hlimit : P.limit this.limitProvider request w₃ = .ok future w₄) :
    RateLimit.call request (this, w) =
      .ok { state := .limit future request key, inner := this.inner, store := this.store,
            config := this.config, factory := this.responseFactory }
        ({ this with inner := replacement }, w₄) := by
  simp only [RateLimit.call_eq, hclone, hskip, hkey, hlimit]

end Call

end TowerRateLimiter
