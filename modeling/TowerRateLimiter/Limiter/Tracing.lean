import TowerRateLimiter.Common.Coupling
import TowerRateLimiter.Limiter.Observed

/-!
# Tracing store failures

`limiter/future.rs` and `limiter/builder.rs` with the feature `tracing`: a charge that fails is
reported to the tracing subscriber before the failure mode decides about the request. The subscriber
is one more component that runs in the world.

`RateLimit.traced` is the service with the feature. Main result: `traced_transparent`. Whatever the
callers do, they hear the same from a layer with tracing as from one without it, and the events are
the failing answers of the store, one for each of them, in the order in which the store gave them.
-/

namespace TowerRateLimiter

open Rust

/-! ## Events -/

/-- `RateLimitError::code`. -/
def RateLimitError.code : RateLimitError → String
  | .key code _ | .quota code _ | .store code _ => code

/-- `tracing::Level`. -/
inductive Level where
  | error
  | warn
  | info
  | debug
  | trace
deriving DecidableEq

/-- The fields of a tracing event. -/
structure TraceEvent where
  target : String
  level : Level
  event : String
  policyName : String
  failureMode : String
  errorCode : String
  message : String
deriving DecidableEq

variable {σ Head ReqBody ResBody E : Type}

/-- `trace_store_failure`, for a subscriber. -/
def traceStoreFailure (subscriber : TraceEvent → Eff σ Unit) (error : RateLimitError)
    (failureMode : StoreFailureMode) (policyName : String) (level : Level) : Eff σ Unit :=
  let failureMode := match failureMode with
    | .reject => "reject"
    | .allow => "allow"
  let emit (level : Level) : Eff σ Unit :=
    subscriber
      { target := "tower_rate_limiter::store"
        level
        event := "store_failure"
        policyName
        failureMode
        errorCode := error.code
        message := "rate-limit Store failed" }
  match level with
  | .error => emit .error
  | .warn => emit .warn
  | .info => emit .info
  | .debug => emit .debug
  | .trace => emit .trace

/-- `store_failure_tracing_level` as the builder sets it by default. -/
def defaultTracingLevel : Level := .warn

/-! ## The response future with tracing -/

/-- The subscriber and the configured level of store failures. -/
structure Tracing (σ : Type) where
  subscriber : TraceEvent → Eff σ Unit
  level : Level := defaultTracingLevel

namespace ResponseFuture

variable {Inner : Service σ (Request Head ReqBody) (Response ResBody) E} {S : Store σ}
  {P : LimitProvider σ Head ReqBody}

/-- Report a charge if it failed. -/
def traceCharge (tracing : Tracing σ) (config : RateLimitConfig σ Head) (limit : UInt64)
    (result : Except RateLimitError Usage) : Eff σ Unit :=
  match chargedPolicy config limit result with
  | .error error =>
      traceStoreFailure tracing.subscriber error config.storeFailureMode config.policyName
        tracing.level
  | .ok _ => pure ()

/-- One iteration of the `loop` in `poll` with tracing. Only the store's answer is treated
differently. -/
def tracedStep (tracing : Tracing σ) :
    Eff (ResponseFuture Inner S P × σ) (Option (Poll (Except E (Response ResBody)))) := do
  let this := (← get).1
  match this.state with
  | .store future request limit => do
      match ← onPart (fun future => { this with state := .store future request limit }) future
        S.poll with
      | .pending => return some .pending
      | .ready result => do
          replace .done
          onWorld (traceCharge tracing this.config limit result)
          afterStore this.config request limit result
          return none
  | _ => step

/-- Nothing is traced unless the store is polled. -/
theorem tracedStep_of_ne {tracing : Tracing σ} {this : ResponseFuture Inner S P} {w : σ}
    (h : ∀ future request limit, this.state ≠ .store future request limit) :
    tracedStep tracing (this, w) = step (this, w) := by
  simp only [tracedStep, bind, EStateM.bind, Eff.get_apply]

/-- The `loop` in `poll` with tracing, for at most `n` iterations. -/
def tracedLoop (tracing : Tracing σ) :
    ℕ → Eff (ResponseFuture Inner S P × σ) (Poll (Except E (Response ResBody)))
  | 0 => throw .loopBound
  | n + 1 => do
      match ← tracedStep tracing with
      | some result => return result
      | none => tracedLoop tracing n

/-- `Future::poll` with tracing. -/
def tracedPoll (tracing : Tracing σ) :
    Eff (ResponseFuture Inner S P × σ) (Poll (Except E (Response ResBody))) :=
  tracedLoop tracing 3

end ResponseFuture

/-- `RateLimit` with tracing, as a Tower service over `Inner`. -/
def RateLimit.traced (tracing : Tracing σ)
    (Inner : Service σ (Request Head ReqBody) (Response ResBody) E) (S : Store σ)
    (P : LimitProvider σ Head ReqBody) : Service σ (Request Head ReqBody) (Response ResBody) E :=
  { RateLimit.service Inner S P with poll := ResponseFuture.tracedPoll tracing }

/-! ## Coupled components

A layer with tracing whose components run in the world `σ₁`, and one without whose components run in
`σ₂`. The store's answer is the point where the worlds may fall apart: they are related by `answered`
until the answer has been traced. -/

section Coupling

variable {σ₁ σ₂ : Type} (W : σ₁ → σ₂ → Prop)
  (answered : Except RateLimitError Usage → σ₁ → σ₂ → Prop)

/-- Two limit providers do the same. -/
structure LimitProvider.Coupling (P₁ : LimitProvider σ₁ Head ReqBody)
    (P₂ : LimitProvider σ₂ Head ReqBody) where
  Self : P₁.Self → P₂.Self → Prop
  Future : P₁.Future → P₂.Future → Prop
  limit : ∀ p₁ p₂, Self p₁ p₂ → ∀ request, Coupled W (P₁.limit p₁ request) (P₂.limit p₂ request)
    (fun f₁ f₂ w₁ w₂ => Future f₁ f₂ ∧ W w₁ w₂) W
  poll : Coupled (Both Future W) P₁.poll P₂.poll (Same (Both Future W)) (Both Future W)

/-- How the worlds are related once a store future was polled. -/
def AfterPoll : Poll (Except RateLimitError Usage) → σ₁ → σ₂ → Prop
  | .pending => W
  | .ready result => answered result

/-- Two stores do the same, up to what an answer leaves in the worlds. -/
structure Store.Coupling (S₁ : Store σ₁) (S₂ : Store σ₂) where
  Self : S₁.Self → S₂.Self → Prop
  Future : S₁.Future → S₂.Future → Prop
  increment : ∀ s₁ s₂, Self s₁ s₂ → ∀ key window,
    Coupled W (S₁.increment s₁ key window) (S₂.increment s₂ key window)
      (fun f₁ f₂ w₁ w₂ => Future f₁ f₂ ∧ W w₁ w₂) W
  poll : Coupled (Both Future W) S₁.poll S₂.poll
    (fun a₁ a₂ t₁ t₂ => a₁ = a₂ ∧ Both Future (AfterPoll W answered a₁) t₁ t₂) (Both Future W)

/-- Two configurations differ in the worlds of their functions only, and tracing an answer of the
store relates the worlds again. -/
structure RateLimitConfig.Coupled (tracing : Tracing σ₁) (c₁ : RateLimitConfig σ₁ Head)
    (c₂ : RateLimitConfig σ₂ Head) : Prop where
  policyName : c₁.policyName = c₂.policyName
  window : c₁.window = c₂.window
  storeFailureMode : c₁.storeFailureMode = c₂.storeFailureMode
  rateLimitFields : c₁.rateLimitFields = c₂.rateLimitFields
  keyEncoder : Option.Rel (fun e₁ e₂ => ∀ key, Rust.Coupled W (e₁ key) (e₂ key) (Same W) W)
    c₁.keyEncoder c₂.keyEncoder
  skipPredicate : Option.Rel
    (fun p₁ p₂ => ∀ request, Rust.Coupled W (p₁ request) (p₂ request) (Same W) W)
    c₁.skipPredicate c₂.skipPredicate
  settles : ∀ limit result, Rust.Coupled (answered result)
    (ResponseFuture.traceCharge tracing c₁ limit result) (pure ()) (fun _ _ => W) W

/-- Two response factories do the same. -/
def FactoryCoupled (build₁ : ResponseFactory σ₁ Head ReqBody ResBody)
    (build₂ : ResponseFactory σ₂ Head ReqBody ResBody) : Prop :=
  ∀ request reason, Coupled W (build₁ request reason) (build₂ request reason) (Same W) W

/-- Two states differ in the futures they hold only, and these are related. -/
inductive StateCoupled {LimitFut₁ LimitFut₂ StoreFut₁ StoreFut₂ InnerFut₁ InnerFut₂ : Type}
    (L : LimitFut₁ → LimitFut₂ → Prop) (S : StoreFut₁ → StoreFut₂ → Prop)
    (I : InnerFut₁ → InnerFut₂ → Prop) :
    State Head ReqBody LimitFut₁ StoreFut₁ InnerFut₁ →
      State Head ReqBody LimitFut₂ StoreFut₂ InnerFut₂ → Prop where
  | limit {f₁ : LimitFut₁} {f₂ : LimitFut₂} (h : L f₁ f₂) (request : Request Head ReqBody)
      (key : String) : StateCoupled L S I (.limit f₁ request key) (.limit f₂ request key)
  | store {f₁ : StoreFut₁} {f₂ : StoreFut₂} (h : S f₁ f₂) (request : Request Head ReqBody)
      (limit : UInt64) : StateCoupled L S I (.store f₁ request limit) (.store f₂ request limit)
  | inner {f₁ : InnerFut₁} {f₂ : InnerFut₂} (h : I f₁ f₂) (metadata : Option ResponseMetadata) :
      StateCoupled L S I (.inner f₁ metadata) (.inner f₂ metadata)
  | ready (response : MiddlewareResponse Head ReqBody) :
      StateCoupled L S I (.ready response) (.ready response)
  | done : StateCoupled L S I .done .done

variable {W answered}
variable {Inner₁ : Service σ₁ (Request Head ReqBody) (Response ResBody) E}
  {Inner₂ : Service σ₂ (Request Head ReqBody) (Response ResBody) E}
  {S₁ : Store σ₁} {S₂ : Store σ₂} {P₁ : LimitProvider σ₁ Head ReqBody}
  {P₂ : LimitProvider σ₂ Head ReqBody}
  (I : Service.Coupling W Inner₁ Inner₂) (C : Store.Coupling W answered S₁ S₂)
  (Q : LimitProvider.Coupling W P₁ P₂) (tracing : Tracing σ₁)

/-- Two response futures differ in their components only, and these are coupled. -/
structure ResponseFuture.Coupled (f₁ : ResponseFuture Inner₁ S₁ P₁)
    (f₂ : ResponseFuture Inner₂ S₂ P₂) : Prop where
  state : StateCoupled Q.Future C.Future I.Future f₁.state f₂.state
  inner : I.Inst f₁.inner f₂.inner
  store : C.Self f₁.store f₂.store
  config : RateLimitConfig.Coupled W answered tracing f₁.config f₂.config
  factory : FactoryCoupled W f₁.factory f₂.factory

/-- Two service values differ in their components only, and these are coupled. -/
structure RateLimit.Coupled (l₁ : RateLimit Inner₁ S₁ P₁) (l₂ : RateLimit Inner₂ S₂ P₂) : Prop where
  inner : I.Inst l₁.inner l₂.inner
  keyExtractor : ∀ request, Rust.Coupled W (l₁.keyExtractor request) (l₂.keyExtractor request)
    (Same W) W
  store : C.Self l₁.store l₂.store
  limitProvider : Q.Self l₁.limitProvider l₂.limitProvider
  config : RateLimitConfig.Coupled W answered tracing l₁.config l₂.config
  responseFactory : FactoryCoupled W l₁.responseFactory l₂.responseFactory

/-! ## Coupled futures -/

namespace ResponseFuture

variable {I C Q tracing} {request : Request Head ReqBody}
  {f₁ : ResponseFuture Inner₁ S₁ P₁} {f₂ : ResponseFuture Inner₂ S₂ P₂}

theorem Coupled.with_state (h : Coupled I C Q tracing f₁ f₂)
    {state₁ : State Head ReqBody P₁.Future S₁.Future Inner₁.Future}
    {state₂ : State Head ReqBody P₂.Future S₂.Future Inner₂.Future}
    (hstate : StateCoupled Q.Future C.Future I.Future state₁ state₂) :
    Coupled I C Q tracing { f₁ with state := state₁ } { f₂ with state := state₂ } :=
  { h with state := hstate }

theorem coupled_replace {V unwound : _ → _ → Prop}
    {state₁ : State Head ReqBody P₁.Future S₁.Future Inner₁.Future}
    {state₂ : State Head ReqBody P₂.Future S₂.Future Inner₂.Future}
    (hstate : StateCoupled Q.Future C.Future I.Future state₁ state₂) :
    Rust.Coupled (Both (Coupled I C Q tracing) V) (replace state₁) (replace state₂)
      (fun _ _ => Both (Coupled I C Q tracing) V) unwound :=
  fun _ _ h => .ok ⟨h.1.with_state hstate, h.2⟩

theorem coupled_callInner :
    Rust.Coupled (Both (Coupled I C Q tracing) W) (callInner request) (callInner request)
      (fun future₁ future₂ t₁ t₂ => I.Future future₁ future₂ ∧ Both (Coupled I C Q tracing) W t₁ t₂)
      (Both (Coupled I C Q tracing) W) := by
  intro t₁ t₂ h
  have hput : ∀ i₁ i₂, I.Inst i₁ i₂ →
      Coupled I C Q tracing { t₁.1 with inner := i₁ } { t₂.1 with inner := i₂ } :=
    fun _ _ hinst => { h.1 with inner := hinst }
  refine (Rust.Coupled.onPart (I.call request) h.1.inner hput t₁ t₂ h.2).mono ?_ fun _ _ h => h
  rintro future₁ future₂ ⟨_, w₁⟩ ⟨_, w₂⟩ ⟨i₁, i₂, rfl, rfl, hfuture, hinst, hw⟩
  exact ⟨hfuture, hput _ _ hinst, hw⟩

theorem coupled_encodeKey {c₁ : RateLimitConfig σ₁ Head} {c₂ : RateLimitConfig σ₂ Head}
    (h : RateLimitConfig.Coupled W answered tracing c₁ c₂) (key : String) :
    Rust.Coupled W (encodeKey c₁ key) (encodeKey c₂ key) (Same W) W := by
  have hencoder := h.keyEncoder
  unfold encodeKey
  generalize c₁.keyEncoder = e₁ at hencoder ⊢
  generalize c₂.keyEncoder = e₂ at hencoder ⊢
  cases hencoder with
  | none => exact .pure fun _ _ hw => ⟨rfl, hw⟩
  | some hencoder => exact hencoder key

theorem chargedPolicy_congr {c₁ : RateLimitConfig σ₁ Head} {c₂ : RateLimitConfig σ₂ Head}
    (h : RateLimitConfig.Coupled W answered tracing c₁ c₂) (limit : UInt64)
    (result : Except RateLimitError Usage) :
    chargedPolicy c₁ limit result = chargedPolicy c₂ limit result := by
  unfold chargedPolicy
  rw [h.policyName, h.window]

theorem coupled_finalize {build₁ : ResponseFactory σ₁ Head ReqBody ResBody}
    {build₂ : ResponseFactory σ₂ Head ReqBody ResBody} (h : FactoryCoupled W build₁ build₂)
    (response : MiddlewareResponse Head ReqBody) :
    Rust.Coupled W (response.finalize build₁) (response.finalize build₂) (Same W) W := by
  cases response with
  | rateLimited request metadata =>
    refine .bind (h request _) fun r₁ r₂ => ?_
    rintro w₁ w₂ ⟨rfl, hw⟩
    exact .ok ⟨rfl, hw⟩
  | error request e => exact h request _

/-- What follows on the store's answer. -/
theorem coupled_afterStore {c₁ : RateLimitConfig σ₁ Head} {c₂ : RateLimitConfig σ₂ Head}
    (h : RateLimitConfig.Coupled W answered tracing c₁ c₂) (limit : UInt64)
    (result : Except RateLimitError Usage) :
    Rust.Coupled (Both (Coupled I C Q tracing) W) (afterStore c₁ request limit result)
      (afterStore c₂ request limit result) (fun _ _ => Both (Coupled I C Q tracing) W)
      (Both (Coupled I C Q tracing) W) := by
  have hforward : ∀ request metadata, Rust.Coupled (Both (Coupled I C Q tracing) W)
      (do let future ← callInner request; replace (.inner future metadata))
      (do let future ← callInner request; replace (.inner future metadata))
      (fun _ _ => Both (Coupled I C Q tracing) W) (Both (Coupled I C Q tracing) W) := by
    intro request metadata
    refine .bind coupled_callInner fun future₁ future₂ t₁ t₂ ⟨hfuture, ht⟩ => ?_
    exact coupled_replace (.inner hfuture metadata) t₁ t₂ ht
  unfold afterStore
  rw [chargedPolicy_congr h, h.storeFailureMode, h.rateLimitFields]
  cases chargedPolicy c₂ limit result with
  | error e =>
    dsimp only
    split
    · exact hforward _ _
    · exact coupled_replace (.ready _)
  | ok policy =>
    dsimp only
    split
    · exact coupled_replace (.ready _)
    · exact hforward _ _

/-- What one iteration leaves: the same result, in coupled futures and related worlds. -/
def StepCoupled (I : Service.Coupling W Inner₁ Inner₂) (C : Store.Coupling W answered S₁ S₂)
    (Q : LimitProvider.Coupling W P₁ P₂) (tracing : Tracing σ₁) {α : Type}
    (op₁ : Eff (ResponseFuture Inner₁ S₁ P₁ × σ₁) α)
    (op₂ : Eff (ResponseFuture Inner₂ S₂ P₂ × σ₂) α)
    (t₁ : ResponseFuture Inner₁ S₁ P₁ × σ₁) (t₂ : ResponseFuture Inner₂ S₂ P₂ × σ₂) : Prop :=
  Alike (Same (Both (Coupled I C Q tracing) W)) (Both (Coupled I C Q tracing) W) (op₁ t₁) (op₂ t₂)

theorem coupled_step_limit {w₁ : σ₁} {w₂ : σ₂} (h : Both (Coupled I C Q tracing) W (f₁, w₁) (f₂, w₂))
    {future₁ : P₁.Future} {future₂ : P₂.Future} {key : String}
    (hs₁ : f₁.state = .limit future₁ request key) (hs₂ : f₂.state = .limit future₂ request key)
    (hfuture : Q.Future future₁ future₂) :
    StepCoupled I C Q tracing step step (f₁, w₁) (f₂, w₂) := by
  have hput : ∀ g₁ g₂, Q.Future g₁ g₂ → Coupled I C Q tracing
      { f₁ with state := .limit g₁ request key } { f₂ with state := .limit g₂ request key } :=
    fun _ _ hg => h.1.with_state (.limit hg request key)
  have hpolled := Rust.Coupled.onPart Q.poll hfuture hput
  simp only [StepCoupled, step, bind, EStateM.bind, Eff.get_apply, hs₁, hs₂]
  refine Rust.Coupled.bind hpolled (fun a₁ a₂ => ?_) (f₁, w₁) (f₂, w₂) h.2
  rintro ⟨_, v₁⟩ ⟨_, v₂⟩ ⟨g₁, g₂, rfl, rfl, rfl, hg, hw⟩
  have hthis : Both (Coupled I C Q tracing) W (_, v₁) (_, v₂) := ⟨hput _ _ hg, hw⟩
  rcases a₁ with _ | ⟨e | limit⟩
  · exact .ok ⟨rfl, hthis⟩
  · exact .ok ⟨rfl, hthis.1.with_state (.ready _), hthis.2⟩
  · -- the key is encoded and the store called with the state already `done`
    refine Rust.Coupled.bind (coupled_replace .done) (fun _ _ => ?_) _ _ hthis
    rw [h.1.config.policyName, h.1.config.window]
    refine .bind (.onWorld (coupled_encodeKey h.1.config _)) fun key₁ key₂ => ?_
    rintro t₁ t₂ ⟨ht, rfl, hw⟩
    refine Rust.Coupled.bind (.onWorld (C.increment _ _ h.1.store key₁ f₂.config.window))
      (fun g₁ g₂ => ?_) t₁ t₂ ⟨ht, hw⟩
    rintro t₁ t₂ ⟨ht, hg, hw⟩
    exact .ok ⟨rfl, ht.with_state (.store hg request limit), hw⟩

theorem coupled_tracedStep_store {w₁ : σ₁} {w₂ : σ₂}
    (h : Both (Coupled I C Q tracing) W (f₁, w₁) (f₂, w₂))
    {future₁ : S₁.Future} {future₂ : S₂.Future} {limit : UInt64}
    (hs₁ : f₁.state = .store future₁ request limit) (hs₂ : f₂.state = .store future₂ request limit)
    (hfuture : C.Future future₁ future₂) :
    StepCoupled I C Q tracing (tracedStep tracing) step (f₁, w₁) (f₂, w₂) := by
  have hput : ∀ g₁ g₂, C.Future g₁ g₂ → Coupled I C Q tracing
      { f₁ with state := .store g₁ request limit } { f₂ with state := .store g₂ request limit } :=
    fun _ _ hg => h.1.with_state (.store hg request limit)
  have hpolled := Rust.Coupled.onPart C.poll hfuture hput
  simp only [StepCoupled, tracedStep, step, bind, EStateM.bind, Eff.get_apply, hs₁, hs₂]
  refine Rust.Coupled.bind hpolled (fun a₁ a₂ => ?_) (f₁, w₁) (f₂, w₂) h.2
  rintro ⟨_, v₁⟩ ⟨_, v₂⟩ ⟨g₁, g₂, rfl, rfl, rfl, hg, hw⟩
  have hthis := hput _ _ hg
  rcases a₁ with _ | result
  · exact .ok ⟨rfl, hthis, hw⟩
  · -- the subscriber hears of a failed charge before the failure mode decides
    refine Rust.Coupled.bind (coupled_replace .done) (fun _ _ => ?_) _ _ ⟨hthis, hw⟩
    refine .left (.onWorld (h.1.config.settles limit result)) fun _ => ?_
    refine .bind (coupled_afterStore h.1.config limit result) fun _ _ => ?_
    exact .pure fun _ _ ht => ⟨rfl, ht⟩

theorem coupled_step_inner {w₁ : σ₁} {w₂ : σ₂}
    (h : Both (Coupled I C Q tracing) W (f₁, w₁) (f₂, w₂))
    {future₁ : Inner₁.Future} {future₂ : Inner₂.Future} {metadata : Option ResponseMetadata}
    (hs₁ : f₁.state = .inner future₁ metadata) (hs₂ : f₂.state = .inner future₂ metadata)
    (hfuture : I.Future future₁ future₂) :
    StepCoupled I C Q tracing step step (f₁, w₁) (f₂, w₂) := by
  have hput : ∀ g₁ g₂, I.Future g₁ g₂ → Coupled I C Q tracing
      { f₁ with state := .inner g₁ metadata } { f₂ with state := .inner g₂ metadata } :=
    fun _ _ hg => h.1.with_state (.inner hg metadata)
  have hpolled := Rust.Coupled.onPart I.poll hfuture hput
  simp only [StepCoupled, step, bind, EStateM.bind, Eff.get_apply, hs₁, hs₂]
  refine Rust.Coupled.bind hpolled (fun a₁ a₂ => ?_) (f₁, w₁) (f₂, w₂) h.2
  rintro ⟨_, v₁⟩ ⟨_, v₂⟩ ⟨g₁, g₂, rfl, rfl, rfl, hg, hw⟩
  rcases a₁ with _ | result
  · exact .ok ⟨rfl, hput _ _ hg, hw⟩
  · exact .ok ⟨rfl, (hput _ _ hg).with_state .done, hw⟩

theorem coupled_step_ready {w₁ : σ₁} {w₂ : σ₂}
    (h : Both (Coupled I C Q tracing) W (f₁, w₁) (f₂, w₂))
    {response : MiddlewareResponse Head ReqBody} (hs₁ : f₁.state = .ready response)
    (hs₂ : f₂.state = .ready response) :
    StepCoupled I C Q tracing step step (f₁, w₁) (f₂, w₂) := by
  have hop := coupled_finalize h.1.factory response w₁ w₂ h.2
  rw [StepCoupled, step_ready hs₁, step_ready hs₂]
  generalize response.finalize f₁.factory w₁ = r₁ at hop ⊢
  generalize response.finalize f₂.factory w₂ = r₂ at hop ⊢
  cases hop with
  | ok hpost => exact .ok ⟨congrArg _ (congrArg _ (congrArg _ hpost.1)), h.1.with_state .done, hpost.2⟩
  | error hw => exact .error ⟨h.1.with_state .done, hw⟩

/-- One iteration with tracing does what one without it does. -/
theorem coupled_tracedStep :
    Rust.Coupled (Both (Coupled I C Q tracing) W) (tracedStep tracing) step
      (Same (Both (Coupled I C Q tracing) W)) (Both (Coupled I C Q tracing) W) := by
  rintro ⟨f₁, w₁⟩ ⟨f₂, w₂⟩ h
  -- the states are of the same kind
  have hstate := h.1.state
  generalize hs₁ : f₁.state = state₁ at hstate
  generalize hs₂ : f₂.state = state₂ at hstate
  cases hstate with
  | limit hfuture request key =>
    rw [tracedStep_of_ne (by simp [hs₁])]
    exact coupled_step_limit h hs₁ hs₂ hfuture
  | store hfuture request limit => exact coupled_tracedStep_store h hs₁ hs₂ hfuture
  | inner hfuture metadata =>
    rw [tracedStep_of_ne (by simp [hs₁])]
    exact coupled_step_inner h hs₁ hs₂ hfuture
  | ready response =>
    rw [tracedStep_of_ne (by simp [hs₁])]
    exact coupled_step_ready h hs₁ hs₂
  | done =>
    rw [tracedStep_of_ne (by simp [hs₁]), step_done hs₁, step_done hs₂]
    exact .error h

theorem coupled_tracedLoop (n : ℕ) :
    Rust.Coupled (Both (Coupled I C Q tracing) W) (tracedLoop tracing n) (loop n)
      (Same (Both (Coupled I C Q tracing) W)) (Both (Coupled I C Q tracing) W) := by
  induction n with
  | zero =>
    intro t₁ t₂ h
    exact .error h
  | succ n ih =>
    refine .bind coupled_tracedStep fun r₁ r₂ => ?_
    rintro t₁ t₂ ⟨rfl, ht⟩
    cases r₁ with
    | none => exact ih t₁ t₂ ht
    | some result => exact .ok ⟨rfl, ht⟩

end ResponseFuture

/-! ## Coupled service values -/

namespace RateLimit

variable {I C Q tracing}

theorem coupled_checkSkipPredicate {c₁ : RateLimitConfig σ₁ Head} {c₂ : RateLimitConfig σ₂ Head}
    (h : RateLimitConfig.Coupled W answered tracing c₁ c₂) (request : Request Head ReqBody) :
    Rust.Coupled W (checkSkipPredicate c₁.skipPredicate request)
      (checkSkipPredicate c₂.skipPredicate request) (Same W) W := by
  have hskip := h.skipPredicate
  unfold checkSkipPredicate
  generalize c₁.skipPredicate = p₁ at hskip ⊢
  generalize c₂.skipPredicate = p₂ at hskip ⊢
  cases hskip with
  | none => exact .pure fun _ _ hw => ⟨rfl, hw⟩
  | some hskip =>
    refine .bind (hskip _) fun b₁ b₂ => ?_
    rintro w₁ w₂ ⟨rfl, hw⟩
    exact .ok ⟨rfl, hw⟩

theorem Coupled.with_inner {l₁ : RateLimit Inner₁ S₁ P₁} {l₂ : RateLimit Inner₂ S₂ P₂}
    (h : Coupled I C Q tracing l₁ l₂) {i₁ : Inner₁.Inst} {i₂ : Inner₂.Inst} (hi : I.Inst i₁ i₂) :
    Coupled I C Q tracing { l₁ with inner := i₁ } { l₂ with inner := i₂ } :=
  { h with inner := hi }

theorem coupled_clone {l₁ : RateLimit Inner₁ S₁ P₁} {l₂ : RateLimit Inner₂ S₂ P₂}
    (h : Coupled I C Q tracing l₁ l₂) :
    Rust.Coupled W l₁.clone l₂.clone (fun l₁ l₂ w₁ w₂ => Coupled I C Q tracing l₁ l₂ ∧ W w₁ w₂) W := by
  refine .bind (I.clone _ _ h.inner) fun i₁ i₂ => ?_
  exact .pure fun _ _ ⟨hi, hw⟩ => ⟨h.with_inner hi, hw⟩

theorem coupled_pollReady :
    Rust.Coupled (Both (Coupled I C Q tracing) W) pollReady pollReady
      (Same (Both (Coupled I C Q tracing) W)) (Both (Coupled I C Q tracing) W) := by
  intro t₁ t₂ h
  refine (Rust.Coupled.onPart I.pollReady h.1.inner (fun _ _ hi => h.1.with_inner hi) t₁ t₂
    h.2).mono ?_ fun _ _ h => h
  rintro a₁ a₂ ⟨_, w₁⟩ ⟨_, w₂⟩ ⟨i₁, i₂, rfl, rfl, rfl, hi, hw⟩
  exact ⟨rfl, h.1.with_inner hi, hw⟩

theorem coupled_call (request : Request Head ReqBody) :
    Rust.Coupled (Both (Coupled I C Q tracing) W) (call request) (call request)
      (fun f₁ f₂ t₁ t₂ => ResponseFuture.Coupled I C Q tracing f₁ f₂ ∧
        Both (Coupled I C Q tracing) W t₁ t₂)
      (Both (Coupled I C Q tracing) W) := by
  rintro ⟨l₁, w₁⟩ ⟨l₂, w₂⟩ ⟨h, hw⟩
  have hfuture : ∀ {state₁ state₂ i₁ i₂}, StateCoupled Q.Future C.Future I.Future state₁ state₂ →
      I.Inst i₁ i₂ → ResponseFuture.Coupled I C Q tracing
        ⟨state₁, i₁, l₁.store, l₁.config, l₁.responseFactory⟩
        ⟨state₂, i₂, l₂.store, l₂.config, l₂.responseFactory⟩ :=
    fun hstate hi => ⟨hstate, hi, h.store, h.config, h.responseFactory⟩
  rw [call_eq, call_eq]
  have hclone := I.clone _ _ h.inner w₁ w₂ hw
  generalize Inner₁.clone l₁.inner w₁ = r₁ at hclone ⊢
  generalize Inner₂.clone l₂.inner w₂ = r₂ at hclone ⊢
  rcases hclone with @⟨i₁, i₂, w₁, w₂, ⟨hi, hw⟩⟩ | hw
  swap
  · exact .error ⟨h, hw⟩
  have hskip := coupled_checkSkipPredicate h.config request w₁ w₂ hw
  dsimp only
  generalize checkSkipPredicate l₁.config.skipPredicate request w₁ = r₁ at hskip ⊢
  generalize checkSkipPredicate l₂.config.skipPredicate request w₂ = r₂ at hskip ⊢
  rcases hskip with @⟨⟨skip, request⟩, _, w₁, w₂, ⟨rfl, hw⟩⟩ | hw
  swap
  · exact .error ⟨h.with_inner hi, hw⟩
  cases skip with
  | true =>
    -- a skipped request calls the reserved instance at once
    have hcall := I.call request (l₁.inner, w₁) (l₂.inner, w₂) ⟨h.inner, hw⟩
    dsimp only
    generalize Inner₁.call request (l₁.inner, w₁) = r₁ at hcall ⊢
    generalize Inner₂.call request (l₂.inner, w₂) = r₂ at hcall ⊢
    rcases hcall with ⟨hf, hinst, hw⟩ | ⟨-, hw⟩
    · exact .ok ⟨hfuture (.inner hf none) hinst, h.with_inner hi, hw⟩
    · exact .error ⟨h.with_inner hi, hw⟩
  | false =>
    have hkey := h.keyExtractor request w₁ w₂ hw
    dsimp only
    generalize l₁.keyExtractor request w₁ = r₁ at hkey ⊢
    generalize l₂.keyExtractor request w₂ = r₂ at hkey ⊢
    rcases hkey with @⟨key, _, w₁, w₂, ⟨rfl, hw⟩⟩ | hw
    swap
    · exact .error ⟨h.with_inner hi, hw⟩
    cases key with
    | error e => exact .ok ⟨hfuture (.ready _) h.inner, h.with_inner hi, hw⟩
    | ok key =>
      have hlimit := Q.limit _ _ h.limitProvider request w₁ w₂ hw
      dsimp only
      generalize P₁.limit l₁.limitProvider request w₁ = r₁ at hlimit ⊢
      generalize P₂.limit l₂.limitProvider request w₂ = r₂ at hlimit ⊢
      rcases hlimit with ⟨hf, hw⟩ | hw
      · exact .ok ⟨hfuture (.limit hf request key) h.inner, h.with_inner hi, hw⟩
      · exact .error ⟨h.with_inner hi, hw⟩

variable (I C Q tracing) in
/-- A layer with tracing and one without do the same if their components do. -/
def tracedCoupling :
    Service.Coupling W (traced tracing Inner₁ S₁ P₁) (service Inner₂ S₂ P₂) where
  Inst := Coupled I C Q tracing
  Future := ResponseFuture.Coupled I C Q tracing
  clone _ _ h := coupled_clone h
  pollReady := coupled_pollReady
  call := coupled_call
  poll := ResponseFuture.coupled_tracedLoop 3

end RateLimit

end Coupling

/-! ## Transparency -/

/-- A subscriber that writes every event down. -/
def recorder (level : Level) : Tracing (σ × List TraceEvent) where
  subscriber event := fun s => .ok () (s.1, s.2 ++ [event])
  level := level

/-- Nothing is noted of any component. -/
def unobserved {L : Type} : Notes L := ⟨unnoted, unnoted, unnoted, unnoted, unnoted⟩

/-- An answer of a store, out of what a poll returned. -/
def answerOf : Option (Poll (Except RateLimitError Usage)) → List (Except RateLimitError Usage)
  | some (.ready result) => [result]
  | _ => []

/-- A store whose answers are written down. -/
def Store.answering (S : Store σ) : Store (σ × List (Except RateLimitError Usage)) where
  Self := S.Self
  Future := S.Future
  increment this key window := noted unnoted (S.increment this key window)
  poll := loggedPart (fun outcome answers => answers ++ answerOf outcome) S.poll

variable {S : Store σ} {P : LimitProvider σ Head ReqBody}

/-- A layer whose store's answers are written down. -/
def RateLimitLayer.answering (l : RateLimitLayer σ Head ReqBody ResBody S P) :
    RateLimitLayer (σ × List (Except RateLimitError Usage)) Head ReqBody ResBody S.answering
      (unobserved.provider P) :=
  let u := unobserved.layer l
  { keyExtractor := u.keyExtractor
    store := l.store
    limitProvider := u.limitProvider
    responseFactory := u.responseFactory
    config := u.config }

/-- The event that reports an error. -/
def failureEvent (config : RateLimitConfig σ Head) (level : Level) (error : RateLimitError) :
    TraceEvent where
  target := "tower_rate_limiter::store"
  level := level
  event := "store_failure"
  policyName := config.policyName
  failureMode := if config.storeFailureMode = .allow then "allow" else "reject"
  errorCode := error.code
  message := "rate-limit Store failed"

/-- The event of an answer that is an error or a usage of zero. -/
def answerEvent (config : RateLimitConfig σ Head) (level : Level) :
    Except RateLimitError Usage → Option TraceEvent
  | .error error => some (failureEvent config level error)
  | .ok usage =>
      if usage.used = 0 then some (failureEvent config level Policy.zeroUsage) else none

/-- The record gets the event of the answer, if it has one. -/
theorem traceCharge_recorder (c : RateLimitConfig σ Head) (level : Level) (limit : UInt64)
    (result : Except RateLimitError Usage) (w : σ) (events : List TraceEvent) :
    ResponseFuture.traceCharge (recorder level) (unobserved.config c) limit result (w, events) =
      .ok () (w, events ++ (answerEvent c level result).toList) := by
  have hevent : ∀ error, traceStoreFailure (recorder (σ := σ) level).subscriber error
      c.storeFailureMode c.policyName level (w, events) =
      .ok () (w, events ++ [failureEvent c level error]) := by
    intro error
    unfold traceStoreFailure failureEvent
    cases c.storeFailureMode <;> cases level <;> rfl
  unfold ResponseFuture.traceCharge ResponseFuture.chargedPolicy
  cases result with
  | error error => exact hevent error
  | ok usage =>
    simp only [Except.bind, Policy.fromUsage, answerEvent]
    split
    · exact hevent _
    · simp [pure, EStateM.pure]

section

variable (config : RateLimitConfig σ Head) (level : Level)

/-- The events are those of the answers. -/
def Reported (events : List TraceEvent) (answers : List (Except RateLimitError Usage)) : Prop :=
  events = answers.filterMap (answerEvent config level)

/-- The last answer has not been reported yet. -/
def Unreported (result : Except RateLimitError Usage) (events : List TraceEvent)
    (answers : List (Except RateLimitError Usage)) : Prop :=
  ∃ before, answers = before ++ [result] ∧ Reported config level events before

/-- The answers are written down one poll before the events. -/
def answeringCoupling (S : Store σ) :
    Store.Coupling (SameWorld (Reported config level))
      (fun result => SameWorld (Unreported config level result)) (unobserved.store S)
      S.answering where
  Self := Eq
  Future := Eq
  increment := by
    rintro this _ rfl key window
    exact coupled_unnoted _ (S.increment this key window)
  poll := by
    rintro ⟨f, w, events⟩ ⟨_, _, answers⟩ ⟨rfl, rfl, hreported⟩
    have hsame : Reported config level events (answers ++ []) := by rwa [List.append_nil]
    simp only [Notes.store, Store.answering, notedPart, loggedPart]
    rcases S.poll (f, w) with ⟨_ | result, f', w'⟩ | ⟨p, f', w'⟩
    · exact .ok ⟨rfl, rfl, rfl, hsame⟩
    · exact .ok ⟨rfl, rfl, rfl, answers, rfl, hreported⟩
    · exact .error ⟨rfl, rfl, hsame⟩

/-- A limit provider does not care which record is kept. -/
def unobservedProviderCoupling (P : LimitProvider σ Head ReqBody) :
    LimitProvider.Coupling (SameWorld (Reported config level)) (unobserved.provider P)
      (unobserved.provider P) where
  Self := Eq
  Future := Eq
  limit := by
    rintro this _ rfl request
    exact coupled_unnoted _ (P.limit this request)
  poll := coupled_unnotedPart _ P.poll

theorem unobserved_config_coupled :
    RateLimitConfig.Coupled (SameWorld (Reported config level))
      (fun result => SameWorld (Unreported config level result)) (recorder level)
      (unobserved.config config) (unobserved.config config) where
  policyName := rfl
  window := rfl
  storeFailureMode := rfl
  rateLimitFields := rfl
  keyEncoder := by
    unfold Notes.config
    cases config.keyEncoder with
    | none => exact .none
    | some encoder => exact .some fun key => coupled_unnoted _ (encoder key)
  skipPredicate := by
    unfold Notes.config
    cases config.skipPredicate with
    | none => exact .none
    | some predicate => exact .some fun request => coupled_unnoted _ (predicate request)
  settles := by
    rintro limit result ⟨w, events⟩ ⟨_, _⟩ ⟨rfl, answers, rfl, hreported⟩
    rw [traceCharge_recorder]
    refine .ok ⟨rfl, ?_⟩
    rw [Reported, List.filterMap_append, ← hreported]
    cases hevent : answerEvent config level result with
    | none => simp [hevent]
    | some event => simp [hevent]

end

/-- **Tracing is transparent and complete.** Callers of a layer with tracing and of the same layer
without it, whose store's answers are written down, do the same things in any order, on any clones
and requests, while the world changes as it likes. They hear the same, panics included, and the world
ends the same. The events are those of the store's failing answers, each reported exactly once and in
the order of the answers. -/
theorem traced_transparent {ω : Type} (l : RateLimitLayer σ Head ReqBody ResBody S P)
    (level : Level) (Inner : Service σ (Request Head ReqBody) (Response ResBody) E)
    (inner : Inner.Inst) (change : ω → σ → σ) (ops : List (CallerOp ω (Request Head ReqBody)))
    (w : σ) :
    let traced : RateLimit (Inner.unwatched _) (unobserved.store S) (unobserved.provider P) :=
      (unobserved.layer l).layer inner
    let plain : RateLimit (Inner.unwatched _) S.answering (unobserved.provider P) :=
      l.answering.layer inner
    let with_tracing := Callers.run (beside change) ops
      (Callers.start traced (w, []) : Callers (RateLimit.traced (recorder level) _ _ _))
    let without := Callers.run (beside change) ops
      (Callers.start plain (w, []) : Callers (RateLimit.service _ _ _))
    with_tracing.1 = without.1 ∧ with_tracing.2.world.1 = without.2.world.1 ∧
      with_tracing.2.world.2 = without.2.world.2.filterMap (answerEvent l.config level) := by
  intro traced plain with_tracing without
  let C := RateLimit.tracedCoupling (Inner.unwatchedCoupling (Reported l.config level))
    (answeringCoupling l.config level S) (unobservedProviderCoupling l.config level P)
    (recorder level)
  have hservice : C.Inst traced plain :=
    { inner := rfl
      keyExtractor := fun request => coupled_unnoted _ (l.keyExtractor request)
      store := rfl
      limitProvider := rfl
      config := unobserved_config_coupled l.config level
      responseFactory := fun request reason => coupled_unnoted _ (l.responseFactory request reason) }
  have hstart : Callers.Coupled C (Callers.start traced (w, [])) (Callers.start plain (w, [])) :=
    .start hservice ⟨rfl, rfl⟩
  obtain ⟨hheard, hend⟩ := hstart.run (sameWorld_beside change) ops
  exact ⟨hheard, hend.world.1, hend.world.2⟩

end TowerRateLimiter
