import TowerRateLimiter.Limiter.Decoration
import TowerRateLimiter.Limiter.Service

/-!
# The request lifecycle

What one request makes a limiter do. A `Behaviour` says what the components of a layer answer, with
any number of pending polls for each future; every component is called at most once per request, so
a function of its arguments covers whatever it does in one run. `Behaviour.layer` turns the answers
into components that record each of their calls, and `Behaviour.respond` is the decision tree the
documentation describes, written over the answers alone: the requests, errors, policies and header
texts in it are spelled out, and of the code's functions only `makeKey` stands in it. `layer_serves`
says that the service built from the components does what the tree says, over any inner service, so
that it also applies to stacks of limiters.
-/

namespace TowerRateLimiter

open Rust

variable {ω Head ReqBody ResBody E : Type}

/-! ## Runs of a response future

The run of a response future from each of its states, in terms of the runs of the futures it
polls. -/

namespace ResponseFuture

variable {Inner : Service (List ω) (Request Head ReqBody) (Response ResBody) E}
  {S : Store (List ω)} {P : LimitProvider (List ω) Head ReqBody} {this : ResponseFuture Inner S P}
  {request : Request Head ReqBody} {n m : ℕ} {w w₁ w₂ w₃ w₄ : List ω}
  {a : Except E (Response ResBody)}

theorem completes_ready {response : MiddlewareResponse Head ReqBody} {r : Response ResBody}
    (hs : this.state = .ready response) (h : response.finalize this.factory w = .ok r w₁)
    (hgrows : w <+: w₁) : Completes poll 0 this w (.ok r) w₁ := by
  have hpoll : poll (this, w) = .ok (.ready (.ok r)) ({ this with state := .done }, w₁) := by
    apply poll_of_some
    rw [step_ready hs]
    simp only [h]
  exact .ready hpoll hgrows

theorem completes_inner {future : Inner.Future} {metadata : Option ResponseMetadata}
    {result : Except E (Response ResBody)} (hs : this.state = .inner future metadata)
    (h : Completes Inner.poll n future w result w₁) :
    Completes poll n this w (result.map (appendInnerResponseHeaders · metadata)) w₁ := by
  induction h generalizing this with
  | @ready _ _ w w' result h hgrows =>
    have hpoll : poll (this, w) =
        .ok (.ready (result.map (appendInnerResponseHeaders · metadata)))
          ({ this with state := .done }, w') := by
      apply poll_of_some
      rw [step_inner hs]
      simp only [h]
    exact .ready hpoll hgrows
  | @pending _ _ f' w w' _ _ h hgrows _ ih =>
    have hpoll : poll (this, w) = .ok .pending ({ this with state := .inner f' metadata }, w') := by
      apply poll_of_some
      rw [step_inner hs]
      simp only [h]
    exact .pending hpoll hgrows (ih rfl)

theorem completes_store {future : S.Future} {limit : UInt64} {result : Except RateLimitError Usage}
    {this' : ResponseFuture Inner S P} (hs : this.state = .store future request limit)
    (h : Completes S.poll n future w result w₁)
    (hafter : afterStore this.config request limit result
      (({ this with state := .done } : ResponseFuture Inner S P), w₁) = .ok () (this', w₂))
    (hgrows : w₁ <+: w₂) (hrest : Completes poll m this' w₂ a w₃) :
    Completes poll (n + m) this w a w₃ := by
  induction h generalizing this with
  | ready h hgrows' =>
    rw [Nat.zero_add]
    exact hrest.congr (poll_of_none (step_store_ready hs h hafter)) (hgrows'.trans hgrows)
  | @pending _ _ f' w w' _ _ h hgrows' _ ih =>
    have hpoll : poll (this, w) =
        .ok .pending ({ this with state := .store f' request limit }, w') := by
      apply poll_of_some
      rw [step_store hs]
      simp only [h]
    rw [Nat.add_right_comm]
    exact .pending hpoll hgrows' (ih rfl hafter hgrows)

theorem completes_limit_error {future : P.Future} {key : String} {e : RateLimitError}
    (hs : this.state = .limit future request key) (h : Completes P.poll n future w (.error e) w₁)
    (hrest : Completes poll m ({ this with state := .ready (.error request e) } :
      ResponseFuture Inner S P) w₁ a w₂) : Completes poll (n + m) this w a w₂ := by
  generalize hout : (.error e : Except RateLimitError UInt64) = out at h
  induction h generalizing this with
  | ready h hgrows =>
    subst hout
    rw [Nat.zero_add]
    refine hrest.congr (poll_of_none ?_) hgrows
    rw [step_limit hs]
    simp only [h]
  | @pending _ _ f' w w' _ _ h hgrows _ ih =>
    have hpoll : poll (this, w) =
        .ok .pending ({ this with state := .limit f' request key }, w') := by
      apply poll_of_some
      rw [step_limit hs]
      simp only [h]
    rw [Nat.add_right_comm]
    exact .pending hpoll hgrows (ih rfl hrest hout)

theorem completes_limit_ok {future : P.Future} {key key' : String} {limit : UInt64}
    {storeFuture : S.Future} (hs : this.state = .limit future request key)
    (h : Completes P.poll n future w (.ok limit) w₁)
    (hencode : encodeKey this.config (makeKey this.config.policyName key) w₁ = .ok key' w₂)
    (hincrement : S.increment this.store key' this.config.window w₂ = .ok storeFuture w₃)
    (hgrows : w₁ <+: w₃)
    (hrest : Completes poll m ({ this with state := .store storeFuture request limit } :
      ResponseFuture Inner S P) w₃ a w₄) : Completes poll (n + m) this w a w₄ := by
  generalize hout : (.ok limit : Except RateLimitError UInt64) = out at h
  induction h generalizing this with
  | ready h hgrows' =>
    subst hout
    rw [Nat.zero_add]
    refine hrest.congr (poll_of_none ?_) (hgrows'.trans hgrows)
    rw [step_limit hs]
    simp only [h, hencode, hincrement]
  | @pending _ _ f' w w' _ _ h hgrows' _ ih =>
    have hpoll : poll (this, w) =
        .ok .pending ({ this with state := .limit f' request key }, w') := by
      apply poll_of_some
      rw [step_limit hs]
      simp only [h]
    rw [Nat.add_right_comm]
    exact .pending hpoll hgrows' (ih rfl hencode hincrement hgrows hrest hout)

end ResponseFuture

/-! ## Recorded components -/

/-- A call of one of the components. -/
inductive Effect (Head ReqBody : Type) where
  | skip (head : Request Head Unit)
  | extract (request : Request Head ReqBody)
  | limit (request : Request Head ReqBody)
  | encode (key : String)
  | increment (key : String) (window : Duration)
  | call (request : Request Head ReqBody)
  | build (request : Request Head ReqBody) (reason : ResponseReason)

/-- A layer as plain data: its configuration, and the functions its callbacks compute. -/
structure Limiter (Head ReqBody ResBody : Type) where
  policyName : String
  window : Duration
  storeFailureMode : StoreFailureMode
  rateLimitFields : RateLimitFields
  skip : Option (Request Head Unit → Bool)
  extract : Request Head ReqBody → Except RateLimitError String
  encode : Option (String → String)
  build : Request Head ReqBody → ResponseReason → Response ResBody

/-- A layer together with what its limit provider and its store answer. -/
structure Behaviour (Head ReqBody ResBody : Type) extends Limiter Head ReqBody ResBody where
  limit : Request Head ReqBody → Delayed (Except RateLimitError UInt64)
  increment : String → Duration → Delayed (Except RateLimitError Usage)

namespace Limiter

variable (l : Limiter Head ReqBody ResBody)

/-- The request is skipped. -/
def skips (request : Request Head ReqBody) : Bool :=
  match l.skip with
  | some skip => skip { request with body := () }
  | none => false

/-- The stored key of a client key. -/
def storedKey (key : String) : String :=
  match l.encode with
  | some encode => encode (makeKey l.policyName key)
  | none => makeKey l.policyName key

/-- The policy of a usage. -/
def policy (limit : UInt64) (usage : Usage) : Policy :=
  ⟨l.policyName, limit, l.window, usage.used, usage.resetAfter⟩

/-- The metadata of a usage. -/
def metadata (limit : UInt64) (usage : Usage) : ResponseMetadata :=
  ⟨l.policy limit usage, l.rateLimitFields⟩

end Limiter

namespace Behaviour

variable (label : Effect Head ReqBody → ω) (b : Behaviour Head ReqBody ResBody)

/-- The limit provider. -/
def provider : LimitProvider (List ω) Head ReqBody where
  Self := Unit
  Future := Delayed (Except RateLimitError UInt64)
  limit _ request := record (label (.limit request)) (b.limit request)
  poll := Delayed.poll

/-- The store. -/
def store : Store (List ω) where
  Self := Unit
  Future := Delayed (Except RateLimitError Usage)
  increment _ key window := record (label (.increment key window)) (b.increment key window)
  poll := Delayed.poll

/-- The configuration. -/
def config : RateLimitConfig (List ω) Head where
  policyName := b.policyName
  window := b.window
  keyEncoder := b.encode.map fun encode key => record (label (.encode key)) (encode key)
  skipPredicate := b.skip.map fun skip head => record (label (.skip head)) (skip head)
  storeFailureMode := b.storeFailureMode
  rateLimitFields := b.rateLimitFields

/-- The layer. -/
def layer : RateLimitLayer (List ω) Head ReqBody ResBody (b.store label) (b.provider label) where
  keyExtractor request := record (label (.extract request)) (b.extract request)
  store := ()
  limitProvider := ()
  responseFactory request reason := record (label (.build request reason)) (b.build request reason)
  config := b.config label

/-! ## The decision tree -/

/-- The evaluation of the skip predicate, if there is one. -/
def skipEffects (request : Request Head ReqBody) : List ω :=
  match b.skip with
  | some _ => [label (.skip { request with body := () })]
  | none => []

/-- The evaluation of the key encoder, if there is one. -/
def encodeEffects (key : String) : List ω :=
  match b.encode with
  | some _ => [label (.encode (makeKey b.policyName key))]
  | none => []

/-- The factory answers with an error. -/
def erroring (request : Request Head ReqBody) (e : RateLimitError) : Reply ω (Response ResBody) E :=
  ⟨0, .ok (b.build request (.error e)), [label (.build request (.error e))]⟩

/-- The factory answers with the exhausted policy, and the fields and `Retry-After` follow. -/
def rejecting (request : Request Head ReqBody) (m : ResponseMetadata) :
    Reply ω (Response ResBody) E :=
  ⟨0, .ok ((b.build request (.rateLimited m.policy)).withLines
      (textLines (m.policy.fieldTexts m.fields ++ [m.policy.retryAfterText]))),
    [label (.build request (.rateLimited m.policy))]⟩

/-- The inner service answers the request with the policy at the end of its context, and the fields
follow a successful response. -/
def admitting (inner : Request Head ReqBody → Reply ω (Response ResBody) E)
    (request : Request Head ReqBody) (m : ResponseMetadata) : Reply ω (Response ResBody) E :=
  let reply := inner (request.withPolicy m.policy)
  { reply with
    result := reply.result.map (·.withLines (textLines (m.policy.fieldTexts m.fields))) }

/-- A charge that failed. -/
def failing (inner : Request Head ReqBody → Reply ω (Response ResBody) E)
    (request : Request Head ReqBody) (e : RateLimitError) : Reply ω (Response ResBody) E :=
  match b.storeFailureMode with
  | .reject => b.erroring label request e
  | .allow => inner request

/-- What follows the store's answer. -/
def charged (inner : Request Head ReqBody → Reply ω (Response ResBody) E)
    (request : Request Head ReqBody) (limit : UInt64) :
    Except RateLimitError Usage → Reply ω (Response ResBody) E
  | .error e => b.failing label inner request e
  | .ok usage =>
      if usage.used = 0 then
        b.failing label inner request
          (.store "invalid_usage" "rate-limit store returned zero usage")
      else if usage.used > limit then b.rejecting label request (b.metadata limit usage)
      else admitting inner request (b.metadata limit usage)

/-- What follows the limit provider's answer. -/
def limited (inner : Request Head ReqBody → Reply ω (Response ResBody) E)
    (request : Request Head ReqBody) (key : String) :
    Except RateLimitError UInt64 → Reply ω (Response ResBody) E
  | .error e => b.erroring label request e
  | .ok limit =>
      let usage := b.increment (b.storedKey key) b.window
      (b.charged label inner request limit usage.output).after usage.pending
        (b.encodeEffects label key ++ [label (.increment (b.storedKey key) b.window)])

/-- The decision tree of one request over an inner service that answers with `inner`. -/
def respond (inner : Request Head ReqBody → Reply ω (Response ResBody) E)
    (request : Request Head ReqBody) : Reply ω (Response ResBody) E :=
  if b.skips request then (inner request).after 0 (b.skipEffects label request)
  else
    match b.extract request with
    | .error e =>
        (b.erroring label request e).after 0
          (b.skipEffects label request ++ [label (.extract request)])
    | .ok key =>
        (b.limited label inner request key (b.limit request).output).after (b.limit request).pending
          (b.skipEffects label request ++ [label (.extract request), label (.limit request)])

/-! ## The service follows the tree -/

section Serves

variable {label} {b} {Inner : Service (List ω) (Request Head ReqBody) (Response ResBody) E}
  {inst : Inner.Inst} {inner : Request Head ReqBody → Reply ω (Response ResBody) E}
  {request : Request Head ReqBody} {w : List ω}

/-- A response future of the layer that has reserved `inst`. -/
def future (label : Effect Head ReqBody → ω) (b : Behaviour Head ReqBody ResBody)
    (inst : Inner.Inst) (state : State Head ReqBody (b.provider label).Future
      (b.store label).Future Inner.Future) :
    ResponseFuture Inner (b.store label) (b.provider label) where
  state := state
  inner := inst
  store := ()
  config := b.config label
  factory := (b.layer label).responseFactory

theorem completes_erroring (e : RateLimitError) :
    Completes ResponseFuture.poll 0 (b.future label inst (.ready (.error request e))) w
      (b.erroring (E := E) label request e).result
      (w ++ (b.erroring (E := E) label request e).effects) :=
  ResponseFuture.completes_ready rfl rfl (List.prefix_append _ _)

theorem completes_rejecting (m : ResponseMetadata) :
    Completes ResponseFuture.poll 0 (b.future label inst (.ready (.rateLimited request m))) w
      (b.rejecting (E := E) label request m).result
      (w ++ (b.rejecting (E := E) label request m).effects) := by
  refine ResponseFuture.completes_ready rfl ?_ (List.prefix_append _ _)
  simp only [rejecting, ← appendRateLimitedResponseHeaders_texts]
  rfl

theorem encodeKey_eq (key : String) :
    ResponseFuture.encodeKey (b.config label) (makeKey b.policyName key) w =
      .ok (b.storedKey key) (w ++ b.encodeEffects label key) := by
  unfold ResponseFuture.encodeKey config Limiter.storedKey encodeEffects
  cases b.encode with
  | none => simp [pure, EStateM.pure]
  | some encode => rfl

theorem checkSkipPredicate_eq :
    checkSkipPredicate (b.config label).skipPredicate request w =
      .ok (b.skips request, request) (w ++ b.skipEffects label request) := by
  unfold checkSkipPredicate config Limiter.skips skipEffects
  cases b.skip with
  | none => simp [pure, EStateM.pure]
  | some skip => rfl

theorem respond_of_skips (h : b.skips request = true) :
    b.respond label inner request = (inner request).after 0 (b.skipEffects label request) := by
  rw [respond, if_pos h]

theorem respond_of_error {e : RateLimitError} (h : b.skips request = false)
    (hkey : b.extract request = .error e) :
    b.respond label inner request = (b.erroring label request e).after 0
      (b.skipEffects label request ++ [label (.extract request)]) := by
  rw [respond, if_neg (by simp [h]), hkey]

theorem respond_of_ok {key : String} (h : b.skips request = false)
    (hkey : b.extract request = .ok key) :
    b.respond label inner request =
      (b.limited label inner request key (b.limit request).output).after (b.limit request).pending
        (b.skipEffects label request ++ [label (.extract request), label (.limit request)]) := by
  rw [respond, if_neg (by simp [h]), hkey]

variable (hinner : ∀ r, Inner.Serves inst r (inner r))

include hinner

/-- A store future whose answer is a failed charge. -/
theorem completes_failing {limit : UInt64} {usage : Delayed (Except RateLimitError Usage)}
    {e : RateLimitError}
    (h : ResponseFuture.chargedPolicy (b.config label) limit usage.output = .error e) :
    Completes ResponseFuture.poll (usage.pending + (b.failing label inner request e).pending)
      (b.future label inst (.store usage request limit)) w (b.failing label inner request e).result
      (w ++ (b.failing label inner request e).effects) := by
  have hafter := ResponseFuture.afterStore_error (b.future label inst .done) request w h
  cases hmode : b.storeFailureMode with
  | reject =>
    have hready : ResponseFuture.afterStore (b.config label) request limit usage.output
        (b.future label inst .done, w) =
        .ok () (b.future label inst (.ready (.error request e)), w) := by
      refine hafter.trans ?_
      simp only [future, config, hmode]
      rfl
    simp only [failing, hmode]
    exact ResponseFuture.completes_store rfl (usage.completes w) hready List.prefix_rfl
      (completes_erroring e)
  | allow =>
    -- the inner call happens inside the poll that takes the store's answer
    obtain ⟨future', inst', w₁, hcall, hgrows, hrun⟩ := (hinner request).call w
    have hcalled : ResponseFuture.afterStore (b.config label) request limit usage.output
        (b.future label inst .done, w) =
        .ok () (b.future label inst' (.inner future' none), w₁) := by
      refine hafter.trans ?_
      simp only [future, config, hmode, hcall]
      rfl
    simp only [failing, hmode]
    refine ResponseFuture.completes_store rfl (usage.completes w) hcalled hgrows ?_
    rw [← map_appendInnerResponseHeaders_none (inner request).result]
    exact ResponseFuture.completes_inner rfl hrun

/-- A store future whose answer is within the limit. -/
theorem completes_admitting {limit : UInt64} {usage : Delayed (Except RateLimitError Usage)}
    {p : Policy} (h : ResponseFuture.chargedPolicy (b.config label) limit usage.output = .ok p)
    (hp : ¬ p.isRateLimited = true) :
    Completes ResponseFuture.poll
      (usage.pending + (admitting inner request ⟨p, b.rateLimitFields⟩).pending)
      (b.future label inst (.store usage request limit)) w
      (admitting inner request ⟨p, b.rateLimitFields⟩).result
      (w ++ (admitting inner request ⟨p, b.rateLimitFields⟩).effects) := by
  obtain ⟨future', inst', w₁, hcall, hgrows, hrun⟩ := (hinner (request.withPolicy p)).call w
  have hafter : ResponseFuture.afterStore (b.config label) request limit usage.output
      (b.future label inst .done, w) =
      .ok () (b.future label inst' (.inner future' (some ⟨p, b.rateLimitFields⟩)), w₁) := by
    refine (ResponseFuture.afterStore_ok (b.future label inst .done) request w h).trans ?_
    rw [if_neg hp]
    simp only [future, config, appendContext_eq, hcall]
  refine ResponseFuture.completes_store rfl (usage.completes w) hafter hgrows ?_
  have hlines : fieldLines ⟨p, b.rateLimitFields⟩ = textLines (p.fieldTexts b.rateLimitFields) :=
    fieldLines_eq _
  simp only [admitting]
  rw [← hlines, ← map_appendInnerResponseHeaders_some]
  exact ResponseFuture.completes_inner rfl hrun

/-- A store future. -/
theorem completes_charged (limit : UInt64) (usage : Delayed (Except RateLimitError Usage)) :
    Completes ResponseFuture.poll
      (usage.pending + (b.charged label inner request limit usage.output).pending)
      (b.future label inst (.store usage request limit)) w
      (b.charged label inner request limit usage.output).result
      (w ++ (b.charged label inner request limit usage.output).effects) := by
  cases hresult : usage.output with
  | error e =>
    refine completes_failing hinner ?_
    simp only [ResponseFuture.chargedPolicy, hresult, Except.bind]
  | ok u =>
    simp only [charged]
    split
    next hzero =>
      -- a usage of zero counts as a store failure
      refine completes_failing hinner ?_
      simp only [ResponseFuture.chargedPolicy, hresult, Except.bind, Policy.fromUsage, if_pos hzero,
        Policy.zeroUsage]
    next hzero =>
      have hpolicy : ResponseFuture.chargedPolicy (b.config label) limit usage.output =
          .ok (b.policy limit u) := by
        simp only [ResponseFuture.chargedPolicy, hresult, Except.bind, Policy.fromUsage,
          if_neg hzero]
        rfl
      split
      next hover =>
        have hlimited : (b.policy limit u).isRateLimited = true := decide_eq_true hover
        have hafter := (ResponseFuture.afterStore_ok (b.future label inst .done) request w
          hpolicy).trans (if_pos hlimited)
        exact ResponseFuture.completes_store rfl (usage.completes w) hafter List.prefix_rfl
          (completes_rejecting _)
      next hover =>
        have hlimited : ¬ (b.policy limit u).isRateLimited = true := by
          simpa [Policy.isRateLimited, Limiter.policy] using hover
        exact completes_admitting hinner hpolicy hlimited

/-- A limit future. -/
theorem completes_limited (key : String) (limit : Delayed (Except RateLimitError UInt64)) :
    Completes ResponseFuture.poll
      (limit.pending + (b.limited label inner request key limit.output).pending)
      (b.future label inst (.limit limit request key)) w
      (b.limited label inner request key limit.output).result
      (w ++ (b.limited label inner request key limit.output).effects) := by
  have hrun := limit.completes w
  cases hresult : limit.output with
  | error e =>
    rw [hresult] at hrun
    exact ResponseFuture.completes_limit_error rfl hrun (completes_erroring e)
  | ok l =>
    rw [hresult] at hrun
    have heffects : w ++ (b.limited label inner request key (.ok l)).effects =
        (w ++ b.encodeEffects label key ++ [label (.increment (b.storedKey key) b.window)]) ++
          (b.charged label inner request l
            (b.increment (b.storedKey key) b.window).output).effects := by
      simp only [limited, Reply.after, List.append_assoc]
    have hgrows : w <+: w ++ b.encodeEffects label key ++
        [label (.increment (b.storedKey key) b.window)] := by
      rw [List.append_assoc]
      exact List.prefix_append _ _
    rw [heffects]
    exact ResponseFuture.completes_limit_ok rfl hrun (encodeKey_eq key) rfl hgrows
      (completes_charged hinner l _)

variable (label b) in
/-- **A layer does what its decision tree says**, over any inner service. -/
theorem layer_serves (request : Request Head ReqBody) :
    (RateLimit.service Inner (b.store label) (b.provider label)).Serves
      ((b.layer label).layer inst) request (b.respond label inner request) := by
  refine ⟨fun w => ?_, fun w => ?_⟩
  · obtain ⟨inst', hclone⟩ := (hinner request).clone w
    refine ⟨(b.layer label).layer inst', ?_⟩
    simp only [RateLimit.service, RateLimit.clone, RateLimitLayer.layer, bind, EStateM.bind, hclone]
    rfl
  · obtain ⟨inst', hclone⟩ := (hinner request).clone w
    have hskip : checkSkipPredicate ((b.layer label).layer inst).config.skipPredicate request w =
        .ok (b.skips request, request) (w ++ b.skipEffects label request) := checkSkipPredicate_eq
    have hgrows : ∀ l, w <+: w ++ b.skipEffects label request ++ l := fun l => by
      rw [List.append_assoc]
      exact List.prefix_append _ _
    cases hskips : b.skips request with
    | true =>
      -- a skipped request calls the inner service before its future is polled
      rw [hskips] at hskip
      obtain ⟨future', inst₁, w₁, hcall, hgrows₁, hrun⟩ :=
        (hinner request).call (w ++ b.skipEffects label request)
      refine ⟨_, _, w₁, RateLimit.call_skipped hclone hskip hcall,
        (List.prefix_append _ _).trans hgrows₁, ?_⟩
      rw [respond_of_skips hskips]
      simp only [Reply.after, Nat.zero_add, ← List.append_assoc]
      rw [← map_appendInnerResponseHeaders_none (inner request).result]
      exact ResponseFuture.completes_inner rfl hrun
    | false =>
      rw [hskips] at hskip
      cases hkey : b.extract request with
      | error e =>
        have hextract : ((b.layer label).layer inst).keyExtractor request
            (w ++ b.skipEffects label request) =
            .ok (.error e) (w ++ b.skipEffects label request ++ [label (.extract request)]) := by
          rw [← hkey]
          rfl
        refine ⟨_, _, _, RateLimit.call_error hclone hskip hextract, hgrows _, ?_⟩
        rw [respond_of_error hskips hkey]
        simp only [Reply.after, ← List.append_assoc]
        exact completes_erroring e
      | ok key =>
        have hextract : ((b.layer label).layer inst).keyExtractor request
            (w ++ b.skipEffects label request) =
            .ok (.ok key) (w ++ b.skipEffects label request ++ [label (.extract request)]) := by
          rw [← hkey]
          rfl
        refine ⟨_, _, _, RateLimit.call_limit hclone hskip hextract rfl, ?_, ?_⟩
        · rw [List.append_assoc]
          exact hgrows _
        · have heffects : ∀ l, w ++ (b.skipEffects label request ++
              [label (.extract request), label (.limit request)] ++ l) =
              w ++ b.skipEffects label request ++ [label (.extract request)] ++
                [label (.limit request)] ++ l := fun l => by simp
          rw [respond_of_ok hskips hkey]
          simp only [Reply.after, heffects]
          exact completes_limited hinner key (b.limit request)

end Serves

/-- **The lifecycle of a request.** Whatever the components answer and however often their futures
are pending, `call` and any number of polls record the effects of the decision tree in its order and
no others: a future that is dropped early leaves an initial part of them, and one that is polled
often enough returns the tree's result with all of them. -/
theorem lifecycle_follows_tree (b : Behaviour Head ReqBody ResBody)
    (answer : Request Head ReqBody → Delayed (Except E (Response ResBody)))
    (request : Request Head ReqBody) (w : List (Effect Head ReqBody)) :
    let limiter : RateLimit (Service.recorded Effect.call answer) (b.store id) (b.provider id) :=
      (b.layer id).layer ()
    let reply := b.respond id
      (fun r => ⟨(answer r).pending, (answer r).output, [Effect.call r]⟩) request
    ∃ future limiter' w₁, RateLimit.call request (limiter, w) = .ok future (limiter', w₁) ∧
      w <+: w₁ ∧ w₁ <+: w ++ reply.effects ∧
      (∀ m ≤ reply.pending, ∃ future' w₂,
        drive ResponseFuture.poll m (future, w₁) = .ok none (future', w₂) ∧
          w₁ <+: w₂ ∧ w₂ <+: w ++ reply.effects) ∧
      ∀ m > reply.pending, ∃ future',
        drive ResponseFuture.poll m (future, w₁) =
          .ok (some reply.result) (future', w ++ reply.effects) := by
  intro limiter reply
  have hserves := layer_serves id b (fun r => Service.recorded_serves Effect.call answer r) request
  obtain ⟨future, limiter', w₁, hcall, hgrows, hrun⟩ := hserves.call w
  refine ⟨future, limiter', w₁, hcall, hgrows, hrun.grows, fun m hm => ?_, fun m hm => ?_⟩
  · obtain ⟨future', w₂, hdrive, hgrows₂, hrest⟩ := hrun.drive_of_le hm
    exact ⟨future', w₂, hdrive, hgrows₂, hrest.grows⟩
  · exact hrun.drive_of_lt hm

/-- The example of the documentation, with a key encoder: a quota of 100 in 60 seconds, of which the
store has counted `used` after it was pending twice. -/
def publicApi (used : UInt64) : Behaviour Unit Unit Unit where
  policyName := "public-api"
  window := Duration.ofSecs 60
  storeFailureMode := .reject
  rateLimitFields := .draft11
  skip := none
  extract _ := .ok "10.0.0.1"
  encode := some ("v1:" ++ ·)
  build := defaultBuild
  limit _ := ⟨1, .ok 100⟩
  increment _ _ := ⟨2, .ok ⟨used, Duration.ofMillis 41500⟩⟩

/-- A policy that an outer layer has charged. -/
def outerPolicy : Policy := ⟨"tenant", 1000, Duration.ofSecs 3600, 7, Duration.ofSecs 1800⟩

/-- The policy of the example. -/
def publicPolicy (used : UInt64) : Policy :=
  ⟨"public-api", 100, Duration.ofSecs 60, used, Duration.ofMillis 41500⟩

/-- A request that the outer layer has admitted is admitted as the first and refused as the 101st,
each time after every pending result. -/
theorem lifecycle_follows_tree_publicApi :
    let request : Request Unit Unit := ⟨(), some ⟨[outerPolicy]⟩, ()⟩
    let answer : Request Unit Unit → Delayed (Except Empty (Response Unit)) :=
      fun _ => ⟨1, .ok ⟨200, [], ()⟩⟩
    let limiter (used : UInt64) : RateLimit (Service.recorded Effect.call answer)
      ((publicApi used).store id) ((publicApi used).provider id) := ((publicApi used).layer id).layer ()
    let charge : List (Effect Unit Unit) := [.extract request, .limit request,
      .encode "public-api:10.0.0.1", .increment "v1:public-api:10.0.0.1" (Duration.ofSecs 60)]
    (∃ future limiter' w future',
      RateLimit.call request (limiter 1, []) = .ok future (limiter', w) ∧
      drive ResponseFuture.poll 5 (future, w) = .ok
        (some (.ok ⟨200, [("ratelimit-policy", ⟨"\"public-api\";q=100;w=60", by decide⟩),
          ("ratelimit", ⟨"\"public-api\";r=99;t=42", by decide⟩)], ()⟩))
        (future', charge ++ [.call ⟨(), some ⟨[outerPolicy, publicPolicy 1]⟩, ()⟩])) ∧
    ∃ future limiter' w future',
      RateLimit.call request (limiter 101, []) = .ok future (limiter', w) ∧
      drive ResponseFuture.poll 4 (future, w) = .ok
        (some (.ok ⟨429, [("ratelimit-policy", ⟨"\"public-api\";q=100;w=60", by decide⟩),
          ("ratelimit", ⟨"\"public-api\";r=0;t=42", by decide⟩),
          ("retry-after", ⟨"42", by decide⟩)], ()⟩))
        (future', charge ++ [.build request (.rateLimited (publicPolicy 101))]) := by
  intro request answer limiter charge
  refine ⟨?_, ?_⟩
  · obtain ⟨future, limiter', w, hcall, -, -, -, hdone⟩ :=
      lifecycle_follows_tree (publicApi 1) answer request []
    obtain ⟨future', hdrive⟩ := hdone 5 (by decide)
    exact ⟨future, limiter', w, future', hcall, hdrive⟩
  · obtain ⟨future, limiter', w, hcall, -, -, -, hdone⟩ :=
      lifecycle_follows_tree (publicApi 101) answer request []
    obtain ⟨future', hdrive⟩ := hdone 4 (by decide)
    exact ⟨future, limiter', w, future', hcall, hdrive⟩

end Behaviour

end TowerRateLimiter
