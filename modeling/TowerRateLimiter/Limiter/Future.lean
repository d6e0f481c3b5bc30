import TowerRateLimiter.Limiter.Response

/-!
# The response future

`limiter/future.rs`: the state machine behind one request. `ResponseFuture.step` is one iteration of
the `loop` in `poll`. Every transition first puts `State.done` in place of the old state, so a
component that panics after that leaves the future finished, while one that panics while it is
polled leaves it where it was.

The components are the traits of the crate: `LimitProvider` and `Store` here, Tower's `Service` for
the inner service, and plain functions for the key encoder, the skip predicate and the response
factory. All of them run in a world `σ` and may panic.
-/

namespace TowerRateLimiter

open Rust

/-! ## Components -/

/-- The `LimitProvider` trait for one provider type. -/
structure LimitProvider (σ Head ReqBody : Type) where
  Self : Type
  Future : Type
  limit : Self → Request Head ReqBody → Eff σ Future
  poll : Eff (Future × σ) (Poll (Except RateLimitError UInt64))

/-- The `Store` trait for one store type. -/
structure Store (σ : Type) where
  Self : Type
  Future : Type
  increment : Self → String → Duration → Eff σ Future
  poll : Eff (Future × σ) (Poll (Except RateLimitError Usage))

/-- The `ResponseFactory` trait: its `build` method. -/
abbrev ResponseFactory (σ Head ReqBody ResBody : Type) :=
  Request Head ReqBody → ResponseReason → Eff σ (Response ResBody)

/-- Immutable configuration shared by every service produced from a layer. -/
structure RateLimitConfig (σ Head : Type) where
  policyName : String
  window : Duration
  keyEncoder : Option (String → Eff σ String)
  skipPredicate : Option (Request Head Unit → Eff σ Bool)
  storeFailureMode : StoreFailureMode
  rateLimitFields : RateLimitFields

/-! ## States -/

/-- The states of a response future. -/
inductive State (Head ReqBody LimitFut StoreFut InnerFut : Type) where
  | limit (future : LimitFut) (request : Request Head ReqBody) (key : String)
  | store (future : StoreFut) (request : Request Head ReqBody) (limit : UInt64)
  | inner (future : InnerFut) (metadata : Option ResponseMetadata)
  | ready (response : MiddlewareResponse Head ReqBody)
  | done

variable {σ Head ReqBody ResBody E : Type}

/-- `ResponseFuture`: its state, the inner service instance reserved for the request and the clones
of the layer's store, configuration and factory. -/
structure ResponseFuture (Inner : Service σ (Request Head ReqBody) (Response ResBody) E)
    (S : Store σ) (P : LimitProvider σ Head ReqBody) where
  state : State Head ReqBody P.Future S.Future Inner.Future
  inner : Inner.Inst
  store : S.Self
  config : RateLimitConfig σ Head
  factory : ResponseFactory σ Head ReqBody ResBody

namespace ResponseFuture

variable {Inner : Service σ (Request Head ReqBody) (Response ResBody) E} {S : Store σ}
  {P : LimitProvider σ Head ReqBody}

/-- `project_replace`: put a new state in place. -/
def replace (state : State Head ReqBody P.Future S.Future Inner.Future) :
    Eff (ResponseFuture Inner S P × σ) Unit :=
  modify fun s => ({ s.1 with state }, s.2)

/-- `this.inner.call(request)` on the reserved instance. -/
def callInner (request : Request Head ReqBody) :
    Eff (ResponseFuture Inner S P × σ) Inner.Future := do
  let this := (← get).1
  onPart (fun inner => { this with inner }) this.inner (Inner.call request)

/-- The scoped key, encoded if the configuration has a key encoder. -/
def encodeKey (config : RateLimitConfig σ Head) (key : String) : Eff σ String :=
  match config.keyEncoder with
  | some encoder => encoder key
  | none => pure key

/-- The policy of a store result, or the error it stands for. -/
def chargedPolicy (config : RateLimitConfig σ Head) (limit : UInt64)
    (result : Except RateLimitError Usage) : Except RateLimitError Policy :=
  result.bind (Policy.fromUsage config.policyName config.window limit)

/-- The next state after a store result. -/
def afterStore (config : RateLimitConfig σ Head) (request : Request Head ReqBody) (limit : UInt64)
    (result : Except RateLimitError Usage) : Eff (ResponseFuture Inner S P × σ) Unit :=
  match chargedPolicy config limit result with
  | .error error =>
      if config.storeFailureMode = .allow then do
        -- an open failure forwards the request without context or header fields
        let future ← callInner request
        replace (.inner future none)
      else replace (.ready (.error request error))
  | .ok policy =>
      let metadata : ResponseMetadata := ⟨policy, config.rateLimitFields⟩
      if policy.isRateLimited then replace (.ready (.rateLimited request metadata))
      else do
        let future ← callInner (appendContext request metadata)
        replace (.inner future (some metadata))

/-- One iteration of the `loop` in `poll`: `none` goes around again, `some` returns. -/
def step : Eff (ResponseFuture Inner S P × σ) (Option (Poll (Except E (Response ResBody)))) := do
  let this := (← get).1
  match this.state with
  | .limit future request key => do
      match ← onPart (fun future => { this with state := .limit future request key }) future
        P.poll with
      | .pending => return some .pending
      | .ready result => do
          replace .done
          match result with
          | .error error => do
              replace (.ready (.error request error))
              return none
          | .ok limit => do
              -- a panic of the encoder or of `increment` finds the state already `done`
              let key ← onWorld (encodeKey this.config (makeKey this.config.policyName key))
              let future ← onWorld (S.increment this.store key this.config.window)
              replace (.store future request limit)
              return none
  | .store future request limit => do
      match ← onPart (fun future => { this with state := .store future request limit }) future
        S.poll with
      | .pending => return some .pending
      | .ready result => do
          replace .done
          afterStore this.config request limit result
          return none
  | .inner future metadata => do
      match ← onPart (fun future => { this with state := .inner future metadata }) future
        Inner.poll with
      | .pending => return some .pending
      | .ready result => do
          replace .done
          return some (.ready (result.map (appendInnerResponseHeaders · metadata)))
  | .ready response => do
      replace .done
      let response ← onWorld (response.finalize this.factory)
      return some (.ready (.ok response))
  | .done => throw .polledAfterCompletion

/-- The `loop` in `poll`, for at most `n` iterations. -/
def loop : ℕ → Eff (ResponseFuture Inner S P × σ) (Poll (Except E (Response ResBody)))
  | 0 => throw .loopBound
  | n + 1 => do
      match ← step with
      | some result => return result
      | none => loop n

/-- `Future::poll`. Three iterations are always enough (`loop_eq_poll`). -/
def poll : Eff (ResponseFuture Inner S P × σ) (Poll (Except E (Response ResBody))) := loop 3

/-! ## What one iteration does

One equation for each state, in terms of the component calls it makes. Everything about whole polls
and whole runs is derived from these. -/

variable {this : ResponseFuture Inner S P} {w : σ} {request : Request Head ReqBody}

theorem step_limit {future : P.Future} {key : String}
    (hs : this.state = .limit future request key) :
    step (this, w) =
      match P.poll (future, w) with
      | .error p (future, w) => .error p ({ this with state := .limit future request key }, w)
      | .ok .pending (future, w) =>
          .ok (some .pending) ({ this with state := .limit future request key }, w)
      | .ok (.ready (.error e)) (_, w) =>
          .ok none ({ this with state := .ready (.error request e) }, w)
      | .ok (.ready (.ok limit)) (_, w) =>
          match encodeKey this.config (makeKey this.config.policyName key) w with
          | .error p w => .error p ({ this with state := .done }, w)
          | .ok key w =>
              match S.increment this.store key this.config.window w with
              | .error p w => .error p ({ this with state := .done }, w)
              | .ok future w => .ok none ({ this with state := .store future request limit }, w) := by
  simp only [step, bind, EStateM.bind, Eff.get_apply, hs, onPart]
  rcases P.poll (future, w) with ⟨_ | ⟨_ | limit⟩, f, w₁⟩ | ⟨p, f, w₁⟩
  · rfl
  · rfl
  · simp only [replace, Eff.modify_apply, EStateM.bind,
      onWorld]
    rcases encodeKey this.config (makeKey this.config.policyName key) w₁ with ⟨key', w₂⟩ | ⟨p, w₂⟩
    · simp only
      rcases S.increment this.store key' this.config.window w₂ with ⟨future', w₃⟩ | ⟨p, w₃⟩ <;> rfl
    · rfl
  · rfl

theorem step_store {future : S.Future} {limit : UInt64}
    (hs : this.state = .store future request limit) :
    step (this, w) =
      match S.poll (future, w) with
      | .error p (future, w) => .error p ({ this with state := .store future request limit }, w)
      | .ok .pending (future, w) =>
          .ok (some .pending) ({ this with state := .store future request limit }, w)
      | .ok (.ready result) (_, w) =>
          match afterStore this.config request limit result ({ this with state := .done }, w) with
          | .error p s => .error p s
          | .ok () s => .ok none s := by
  simp only [step, bind, EStateM.bind, Eff.get_apply, hs, onPart]
  rcases S.poll (future, w) with ⟨_ | result, f, w₁⟩ | ⟨p, f, w₁⟩
  · rfl
  · simp only [replace, Eff.modify_apply, EStateM.bind]
    rcases afterStore this.config request limit result ({ this with state := .done }, w₁) with
      ⟨_, s⟩ | ⟨p, s⟩ <;> rfl
  · rfl

/-- A store future that answers leads to the state after the answer. -/
theorem step_store_ready {future future' : S.Future} {limit : UInt64}
    {result : Except RateLimitError Usage} {w₁ : σ} {s : ResponseFuture Inner S P × σ}
    (hs : this.state = .store future request limit)
    (hpoll : S.poll (future, w) = .ok (.ready result) (future', w₁))
    (hafter : afterStore this.config request limit result
      (({ this with state := .done } : ResponseFuture Inner S P), w₁) = .ok () s) :
    step (this, w) = .ok none s := by
  rw [step_store hs]
  simp only [hpoll, hafter]

theorem step_inner {future : Inner.Future} {metadata : Option ResponseMetadata}
    (hs : this.state = .inner future metadata) :
    step (this, w) =
      match Inner.poll (future, w) with
      | .error p (future, w) => .error p ({ this with state := .inner future metadata }, w)
      | .ok .pending (future, w) =>
          .ok (some .pending) ({ this with state := .inner future metadata }, w)
      | .ok (.ready result) (_, w) =>
          .ok (some (.ready (result.map (appendInnerResponseHeaders · metadata))))
            ({ this with state := .done }, w) := by
  simp only [step, bind, EStateM.bind, Eff.get_apply, hs, onPart]
  rcases Inner.poll (future, w) with ⟨_ | result, f, w₁⟩ | ⟨p, f, w₁⟩ <;> rfl

theorem step_ready {response : MiddlewareResponse Head ReqBody}
    (hs : this.state = .ready response) :
    step (this, w) =
      match response.finalize this.factory w with
      | .error p w => .error p ({ this with state := .done }, w)
      | .ok response w => .ok (some (.ready (.ok response))) ({ this with state := .done }, w) := by
  simp only [step, bind, EStateM.bind, Eff.get_apply, hs, onWorld,
    replace, Eff.modify_apply]
  rcases response.finalize this.factory w with ⟨response, w₁⟩ | ⟨p, w₁⟩ <;> rfl

theorem step_done (hs : this.state = .done) :
    step (this, w) = .error .polledAfterCompletion (this, w) := by
  simp only [step, bind, EStateM.bind, Eff.get_apply, hs]
  rfl

theorem callInner_eq :
    callInner request (this, w) =
      match Inner.call request (this.inner, w) with
      | .error p (inner, w) => .error p ({ this with inner }, w)
      | .ok future (inner, w) => .ok future ({ this with inner }, w) := by
  simp only [callInner, bind, EStateM.bind, Eff.get_apply, onPart]
  rcases Inner.call request (this.inner, w) with ⟨future, s⟩ | ⟨p, s⟩ <;> rfl

/-- A failed charge: the failure mode decides. -/
theorem afterStore_error (this : ResponseFuture Inner S P) (request : Request Head ReqBody) (w : σ)
    {limit : UInt64} {result : Except RateLimitError Usage} {e : RateLimitError}
    (h : chargedPolicy this.config limit result = .error e) :
    afterStore this.config request limit result
        (({ this with state := .done } : ResponseFuture Inner S P), w) =
      if this.config.storeFailureMode = .allow then
        match Inner.call request (this.inner, w) with
        | .error p (inner, w) => .error p ({ this with inner, state := .done }, w)
        | .ok future (inner, w) => .ok () ({ this with inner, state := .inner future none }, w)
      else .ok () ({ this with state := .ready (.error request e) }, w) := by
  simp only [afterStore, h]
  split
  · simp only [bind, EStateM.bind, callInner_eq]
    rcases Inner.call request (this.inner, w) with ⟨future, s⟩ | ⟨p, s⟩ <;> rfl
  · rfl

/-- A successful charge: the policy decides. -/
theorem afterStore_ok (this : ResponseFuture Inner S P) (request : Request Head ReqBody) (w : σ)
    {limit : UInt64} {result : Except RateLimitError Usage} {policy : Policy}
    (h : chargedPolicy this.config limit result = .ok policy) :
    afterStore this.config request limit result
        (({ this with state := .done } : ResponseFuture Inner S P), w) =
      if policy.isRateLimited then
        .ok () ({ this with
          state := .ready (.rateLimited request ⟨policy, this.config.rateLimitFields⟩) }, w)
      else
        match Inner.call (appendContext request ⟨policy, this.config.rateLimitFields⟩)
          (this.inner, w) with
        | .error p (inner, w) => .error p ({ this with inner, state := .done }, w)
        | .ok future (inner, w) =>
            .ok () ({ this with
              inner, state := .inner future (some ⟨policy, this.config.rateLimitFields⟩) }, w) := by
  simp only [afterStore, h]
  split
  · rfl
  · simp only [bind, EStateM.bind, callInner_eq]
    rcases Inner.call (appendContext request ⟨policy, this.config.rateLimitFields⟩) (this.inner, w)
      with ⟨future, s⟩ | ⟨p, s⟩ <;> rfl

/-! ## The iteration bound -/

/-- The iterations a poll can still make from a state. -/
def rank (s : ResponseFuture Inner S P × σ) : ℕ :=
  match s.1.state with
  | .limit _ _ _ => 3
  | .store _ _ _ => 2
  | .inner _ _ | .ready _ | .done => 1

theorem rank_pos (s : ResponseFuture Inner S P × σ) : 0 < rank s := by
  unfold rank
  split <;> decide

theorem rank_le (s : ResponseFuture Inner S P × σ) : rank s ≤ 3 := by
  unfold rank
  split <;> decide

/-- The state a store result leads to returns in the next iteration. -/
theorem rank_afterStore {limit : UInt64} {result : Except RateLimitError Usage} {u : Unit}
    {s : ResponseFuture Inner S P × σ}
    (h : afterStore this.config request limit result
      (({ this with state := .done } : ResponseFuture Inner S P), w) = .ok u s) :
    rank s = 1 := by
  cases hp : chargedPolicy this.config limit result with
  | error e =>
    rw [afterStore_error this _ _ hp] at h
    split at h
    · split at h
      · exact absurd h (by simp)
      · cases h
        rfl
    · cases h
      rfl
  | ok policy =>
    rw [afterStore_ok this _ _ hp] at h
    split at h
    · cases h
      rfl
    · split at h
      · exact absurd h (by simp)
      · cases h
        rfl

/-- An iteration that goes around again comes closer to returning. -/
theorem rank_step {s s' : ResponseFuture Inner S P × σ} (h : step s = .ok none s') :
    rank s' < rank s := by
  obtain ⟨this, w⟩ := s
  cases hs : this.state with
  | limit future request key =>
    rw [step_limit hs] at h
    split at h
    · exact absurd h (by simp)
    · exact absurd h (by simp)
    · cases h
      simp only [rank, hs]
      decide
    · split at h
      · exact absurd h (by simp)
      · split at h
        · exact absurd h (by simp)
        · cases h
          simp only [rank, hs]
          decide
  | store future request limit =>
    rw [step_store hs] at h
    split at h
    · exact absurd h (by simp)
    · exact absurd h (by simp)
    · split at h
      · exact absurd h (by simp)
      · rename_i hafter
        cases h
        rw [rank_afterStore hafter]
        simp only [rank, hs]
        decide
  | inner future metadata =>
    rw [step_inner hs] at h
    split at h <;> exact absurd h (by simp)
  | ready response =>
    rw [step_ready hs] at h
    split at h <;> exact absurd h (by simp)
  | done =>
    rw [step_done hs] at h
    exact absurd h (by simp)

/-- The iteration bound does not matter once it covers the rank of the state. -/
theorem loop_congr {n m : ℕ} {s : ResponseFuture Inner S P × σ} (hn : rank s ≤ n)
    (hm : rank s ≤ m) : loop n s = loop m s := by
  have hpos := rank_pos s
  induction n generalizing m s with
  | zero => omega
  | succ n ih =>
    obtain ⟨m, rfl⟩ : ∃ k, m = k + 1 := ⟨m - 1, by omega⟩
    simp only [loop, bind, EStateM.bind]
    rcases hstep : step s with ⟨_ | result, s'⟩ | ⟨p, s'⟩
    · have hrank := rank_step hstep
      exact ih (by omega) (by omega) (rank_pos s')
    · rfl
    · rfl

/-- Three iterations are always enough: a poll never runs out of its bound. -/
theorem loop_eq_poll {n : ℕ} (hn : 3 ≤ n) (s : ResponseFuture Inner S P × σ) :
    loop n s = poll s :=
  loop_congr ((rank_le s).trans hn) (rank_le s)

/-- An iteration that goes around again continues the poll. -/
theorem poll_of_none {s s' : ResponseFuture Inner S P × σ} (h : step s = .ok none s') :
    poll s = poll s' := by
  have hloop : loop 4 s = loop 3 s' := by
    simp only [loop, bind, EStateM.bind, h]
  rw [← loop_eq_poll (show 3 ≤ 4 by decide) s, hloop, poll]

/-- An iteration that returns ends the poll. -/
theorem poll_of_some {s s' : ResponseFuture Inner S P × σ} {r : Poll (Except E (Response ResBody))}
    (h : step s = .ok (some r) s') : poll s = .ok r s' := by
  simp only [poll, loop, bind, EStateM.bind, h, pure, EStateM.pure]

/-- An iteration that panics ends the poll. -/
theorem poll_of_error {s s' : ResponseFuture Inner S P × σ} {p : Panic}
    (h : step s = .error p s') : poll s = .error p s' := by
  simp only [poll, loop, bind, EStateM.bind, h]

end ResponseFuture

end TowerRateLimiter
