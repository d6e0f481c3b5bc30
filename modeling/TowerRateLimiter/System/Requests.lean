import TowerRateLimiter.Limiter.Lifecycle

/-!
# Concurrent requests over a shared store

Any number of requests, each with its own limiter and its own response future, over one store that
they share. A run interleaves calls, single iterations of the futures' poll loops, dropped futures
and what the store does by itself, in any order. What a component outside the limiter answers in an
iteration is part of the iteration's `Turn`, so limit and inner futures may be pending any number of
times and answer anything.

`SharedStore` is what a run has to know of the store; `memory` and `redis` are the two that there
are. `System.step` runs the code's `RateLimit.call` and `ResponseFuture.step`. `Job.iterate` says
what an iteration does without mentioning them (`step_poll`), and later proofs are about
`Job.iterate`.
-/

namespace TowerRateLimiter

open Rust

/-! ## Shared stores -/

/-- A store that the requests of a run share. A charge is seen once, when its increment is begun or
when its result is taken, and a future that has not returned can be polled without a panic. -/
structure SharedStore where
  /-- What is shared. -/
  Shared : Type
  initial : Shared
  /-- What a limiter holds of the store. -/
  Handle : Type
  /-- The futures of increments. -/
  Future : Type
  /-- What the environment supplies to the store in one iteration of a request. -/
  Supply : Type
  idle : Supply
  /-- What is seen of a charge. -/
  Charge : Type
  result : Charge → Except RateLimitError Usage
  /-- What happens to the store by itself. -/
  Move : Type
  move : Move → Shared → Shared
  /-- `Store::increment`, for the request with the given number. -/
  increment : Handle → ℕ → String → Duration → Supply → Shared → Future × Shared × Option Charge
  poll : Supply → Eff (Future × Shared) (Poll (Except RateLimitError Usage))
  /-- What is seen when a result is taken. -/
  taken : Except RateLimitError Usage → Option Charge
  /-- The charge is one for the key and the window. -/
  For : String → Duration → Charge → Prop
  /-- The future is one for the key and the window that has not returned, with what has been seen of
  its charge. -/
  Open : String → Duration → Future → Option Charge → Prop
  open_increment : ∀ handle id key window supply shared,
    Open key window (increment handle id key window supply shared).1
      (increment handle id key window supply shared).2.2
  for_of_open : ∀ {key window future charge}, Open key window future (some charge) →
    For key window charge
  poll_open : ∀ {key window future seen}, Open key window future seen → ∀ supply shared,
    (∃ future' shared', poll supply (future, shared) = .ok .pending (future', shared') ∧
      Open key window future' seen) ∨
    ∃ future' shared' charge, poll supply (future, shared) =
        .ok (.ready (result charge)) (future', shared') ∧
      seen.toList ++ (taken (result charge)).toList = [charge] ∧ For key window charge

variable {S : SharedStore} {Head ReqBody ResBody E : Type}

/-! ## The world of an iteration -/

/-- What the environment supplies to one iteration: the answers of the limit and the inner future if
they are polled, and what the store needs if it is used. -/
structure Turn (S : SharedStore) (ResBody E : Type) where
  limit : Poll (Except RateLimitError UInt64)
  inner : Poll (Except E (Response ResBody))
  store : S.Supply

/-- The turn of a step in which no future is polled. -/
def Turn.idle : Turn S ResBody E := ⟨.pending, .pending, S.idle⟩

/-- What a request is seen to do: a limit resolved for it, its charge at the store, its call of the
inner service and its response from the factory. -/
inductive Act (S : SharedStore) (Head ReqBody : Type) where
  | limit (limit : UInt64)
  | charge (charge : S.Charge)
  | call (request : Request Head ReqBody)
  | build (request : Request Head ReqBody) (reason : ResponseReason)

/-- The store, the answers of the turn, the request it belongs to and what has been done in it. -/
structure World (S : SharedStore) (Head ReqBody ResBody E : Type) where
  store : S.Shared
  turn : Turn S ResBody E
  id : ℕ
  acts : List (Act S Head ReqBody)

namespace World

/-- Note acts. -/
def note (w : World S Head ReqBody ResBody E) (acts : List (Act S Head ReqBody)) :
    World S Head ReqBody ResBody E :=
  { w with acts := w.acts ++ acts }

@[simp] theorem note_nil (w : World S Head ReqBody ResBody E) : w.note [] = w := by
  rw [note, List.append_nil]

variable (S Head ReqBody ResBody E)

/-- The limit provider: its futures answer from the turn. -/
def provider : LimitProvider (World S Head ReqBody ResBody E) Head ReqBody where
  Self := Unit
  Future := Unit
  limit _ _ := pure ()
  poll s :=
    match s.2.turn.limit with
    | .ready (.ok limit) => .ok (.ready (.ok limit)) (s.1, s.2.note [.limit limit])
    | answer => .ok answer s

/-- The store. -/
def sharedStore : Store (World S Head ReqBody ResBody E) where
  Self := S.Handle
  Future := S.Future
  increment this key window w :=
    let (future, store, seen) := S.increment this w.id key window w.turn.store w.store
    .ok future (({ w with store }).note (seen.toList.map .charge))
  poll s :=
    match S.poll s.2.turn.store (s.1, s.2.store) with
    | .ok (.ready result) (future, store) =>
        .ok (.ready result)
          (future, ({ s.2 with store }).note ((S.taken result).toList.map .charge))
    | .ok .pending (future, store) => .ok .pending (future, { s.2 with store })
    | .error p (future, store) => .error p (future, { s.2 with store })

/-- The inner service: its futures answer from the turn. -/
def inner : Service (World S Head ReqBody ResBody E) (Request Head ReqBody) (Response ResBody)
    E where
  Inst := Unit
  Future := Unit
  clone inst := pure inst
  pollReady := pure (.ready (.ok ()))
  call request s := .ok () (s.1, s.2.note [.call request])
  poll s := .ok s.2.turn.inner s

end World

/-! ## Requests and runs -/

/-- A request, the limiter it is sent to and what that limiter holds of the store. -/
structure Job (S : SharedStore) (Head ReqBody ResBody : Type) where
  limiter : Limiter Head ReqBody ResBody
  store : S.Handle
  request : Request Head ReqBody

/-- The response futures of a run. -/
abbrev RunFuture (S : SharedStore) (Head ReqBody ResBody E : Type) :=
  ResponseFuture (World.inner S Head ReqBody ResBody E) (World.sharedStore S Head ReqBody ResBody E)
    (World.provider S Head ReqBody ResBody E)

/-- Their states. -/
abbrev RunState (S : SharedStore) (Head ReqBody : Type) := State Head ReqBody Unit S.Future Unit

/-- The layer of a request's limiter. -/
def Job.layer (job : Job S Head ReqBody ResBody) :
    RateLimitLayer (World S Head ReqBody ResBody E) Head ReqBody ResBody
      (World.sharedStore S Head ReqBody ResBody E) (World.provider S Head ReqBody ResBody E) where
  keyExtractor request := pure (job.limiter.extract request)
  store := job.store
  limitProvider := ()
  responseFactory request reason w :=
    .ok (job.limiter.build request reason) (w.note [.build request reason])
  config :=
    { policyName := job.limiter.policyName
      window := job.limiter.window
      keyEncoder := job.limiter.encode.map fun encode key => pure (encode key)
      skipPredicate := job.limiter.skip.map fun skip head => pure (skip head)
      storeFailureMode := job.limiter.storeFailureMode
      rateLimitFields := job.limiter.rateLimitFields }

/-- Where a request is: not sent yet, in progress, answered, dropped by its caller or ended by a
panic. -/
inductive Phase (S : SharedStore) (Head ReqBody ResBody E : Type) where
  | unused
  | live (future : RunFuture S Head ReqBody ResBody E)
  | finished (result : Except E (Response ResBody))
  | dropped
  | panicked

/-- What one step of a request leads to. -/
structure Outcome (S : SharedStore) (Head ReqBody ResBody E : Type) where
  phase : Phase S Head ReqBody ResBody E
  store : S.Shared
  acts : List (Act S Head ReqBody)

/-- One step of a run. `poll` is one iteration of the loop in the future's `poll`, and `move` is
what the store does by itself. -/
inductive Event (S : SharedStore) (ResBody E : Type) where
  | call (id : ℕ)
  | poll (id : ℕ) (turn : Turn S ResBody E)
  | drop (id : ℕ)
  | move (move : S.Move)

/-- The store, all requests and everything that they have been seen to do, in order. -/
structure System (S : SharedStore) (Head ReqBody ResBody E : Type) where
  store : S.Shared
  phases : ℕ → Phase S Head ReqBody ResBody E
  history : List (ℕ × Act S Head ReqBody)

namespace System

/-- No requests yet. -/
def start : System S Head ReqBody ResBody E := ⟨S.initial, fun _ => .unused, []⟩

/-- Take over what request `id` did. -/
def commit (s : System S Head ReqBody ResBody E) (id : ℕ) (o : Outcome S Head ReqBody ResBody E) :
    System S Head ReqBody ResBody E where
  store := o.store
  phases := Function.update s.phases id o.phase
  history := s.history ++ o.acts.map (id, ·)

/-- One step. A request is sent once, and only a future in progress is polled or dropped. -/
def step (jobs : ℕ → Job S Head ReqBody ResBody) (s : System S Head ReqBody ResBody E) :
    Event S ResBody E → System S Head ReqBody ResBody E
  | .call id =>
      match s.phases id with
      | .unused =>
          match RateLimit.call (jobs id).request
            ((jobs id).layer.layer (), ⟨s.store, .idle, id, []⟩) with
          | .ok future (_, w) => s.commit id ⟨.live future, w.store, w.acts⟩
          | .error _ (_, w) => s.commit id ⟨.panicked, w.store, w.acts⟩
      | _ => s
  | .poll id turn =>
      match s.phases id with
      | .live future =>
          match ResponseFuture.step (future, ⟨s.store, turn, id, []⟩) with
          | .ok (some (.ready result)) (_, w) => s.commit id ⟨.finished result, w.store, w.acts⟩
          | .ok _ (future, w) => s.commit id ⟨.live future, w.store, w.acts⟩
          | .error _ (_, w) => s.commit id ⟨.panicked, w.store, w.acts⟩
      | _ => s
  | .drop id =>
      match s.phases id with
      | .live _ => { s with phases := Function.update s.phases id .dropped }
      | _ => s
  | .move move => { s with store := S.move move s.store }

/-- A whole run. -/
def after (jobs : ℕ → Job S Head ReqBody ResBody) (s : System S Head ReqBody ResBody E)
    (events : List (Event S ResBody E)) : System S Head ReqBody ResBody E :=
  events.foldl (step jobs) s

theorem after_append (jobs : ℕ → Job S Head ReqBody ResBody) (s : System S Head ReqBody ResBody E)
    (before later : List (Event S ResBody E)) :
    s.after jobs (before ++ later) = (s.after jobs before).after jobs later :=
  List.foldl_append

end System

/-! ## What the steps do -/

namespace Job

variable (job : Job S Head ReqBody ResBody)

/-- The response future of the request in a given state. -/
def future (state : RunState S Head ReqBody) : RunFuture S Head ReqBody ResBody E where
  state := state
  inner := ()
  store := job.store
  config := job.layer.config
  factory := job.layer.responseFactory

/-- The request is sent. -/
def send (store : S.Shared) : Outcome S Head ReqBody ResBody E :=
  if job.limiter.skips job.request then
    ⟨.live (job.future (.inner () none)), store, [.call job.request]⟩
  else
    match job.limiter.extract job.request with
    | .error e => ⟨.live (job.future (.ready (.error job.request e))), store, []⟩
    | .ok key => ⟨.live (job.future (.limit () job.request key)), store, []⟩

/-- The request's increment of a client key. -/
def increment (id : ℕ) (key : String) (supply : S.Supply) (store : S.Shared) :
    S.Future × S.Shared × Option S.Charge :=
  S.increment job.store id (job.limiter.storedKey key) job.limiter.window supply store

/-- The inner service is called. -/
def callInner (request : Request Head ReqBody) (metadata : Option ResponseMetadata) :
    Phase S Head ReqBody ResBody E × List (Act S Head ReqBody) :=
  (.live (job.future (.inner () metadata)), [.call request])

/-- The charge failed. -/
def fail (request : Request Head ReqBody) (e : RateLimitError) :
    Phase S Head ReqBody ResBody E × List (Act S Head ReqBody) :=
  match job.limiter.storeFailureMode with
  | .reject => (.live (job.future (.ready (.error request e))), [])
  | .allow => job.callInner request none

/-- The result of the charge is taken. -/
def settle (request : Request Head ReqBody) (limit : UInt64) :
    Except RateLimitError Usage → Phase S Head ReqBody ResBody E × List (Act S Head ReqBody)
  | .error e => job.fail request e
  | .ok usage =>
      if usage.used = 0 then job.fail request Policy.zeroUsage
      else if usage.used > limit then
        (.live (job.future (.ready (.rateLimited request (job.limiter.metadata limit usage)))), [])
      else
        job.callInner (appendContext request (job.limiter.metadata limit usage))
          (some (job.limiter.metadata limit usage))

/-- The middleware's own response is built. -/
def respond (store : S.Shared) :
    MiddlewareResponse Head ReqBody → Outcome S Head ReqBody ResBody E
  | .rateLimited request metadata =>
      ⟨.finished (.ok (appendRateLimitedResponseHeaders
          (job.limiter.build request (.rateLimited metadata.policy)) metadata)), store,
        [.build request (.rateLimited metadata.policy)]⟩
  | .error request e =>
      ⟨.finished (.ok (job.limiter.build request (.error e))), store, [.build request (.error e)]⟩

/-- One iteration of the request's future. -/
def iterate (id : ℕ) (store : S.Shared) (turn : Turn S ResBody E) :
    RunState S Head ReqBody → Outcome S Head ReqBody ResBody E
  | .limit future request key =>
      match turn.limit with
      | .pending => ⟨.live (job.future (.limit future request key)), store, []⟩
      | .ready (.error e) => ⟨.live (job.future (.ready (.error request e))), store, []⟩
      | .ready (.ok limit) =>
          let (future, store, seen) := job.increment id key turn.store store
          ⟨.live (job.future (.store future request limit)), store,
            .limit limit :: seen.toList.map .charge⟩
  | .store future request limit =>
      match S.poll turn.store (future, store) with
      | .ok .pending (future, store) =>
          ⟨.live (job.future (.store future request limit)), store, []⟩
      | .ok (.ready result) (_, store) =>
          ⟨(job.settle request limit result).1, store,
            (S.taken result).toList.map .charge ++ (job.settle (E := E) request limit result).2⟩
      | .error _ (_, store) => ⟨.panicked, store, []⟩
  | .inner _ metadata =>
      match turn.inner with
      | .pending => ⟨.live (job.future (.inner () metadata)), store, []⟩
      | .ready result =>
          ⟨.finished (result.map (appendInnerResponseHeaders · metadata)), store, []⟩
  | .ready response => job.respond store response
  | .done => ⟨.panicked, store, []⟩

/-- A request that is sent leaves the store alone. -/
theorem store_send (store : S.Shared) : (job.send (E := E) store).store = store := by
  unfold send
  split
  · rfl
  · split <;> rfl

/-- No charge is seen when a request is sent. -/
theorem charge_notMem_send (store : S.Shared) (charge : S.Charge) :
    Act.charge charge ∉ (job.send (E := E) store).acts := by
  unfold send
  split
  · simp
  · split <;> simp

/-- Nor when a result is taken and the inner service is called. -/
theorem charge_notMem_settle (request : Request Head ReqBody) (limit : UInt64)
    (result : Except RateLimitError Usage) (charge : S.Charge) :
    Act.charge charge ∉ (job.settle (E := E) request limit result).2 := by
  have hfail : ∀ e, Act.charge charge ∉ (job.fail (E := E) request e).2 := by
    intro e
    unfold fail
    split
    · simp
    · simp [callInner]
  cases result with
  | error e => exact hfail e
  | ok u =>
    simp only [settle]
    split
    · exact hfail _
    · split
      · simp
      · simp [callInner]

/-- The result of the charge, taken by the code. -/
theorem afterStore_eq (w : World S Head ReqBody ResBody E) (request : Request Head ReqBody)
    (limit : UInt64) (result : Except RateLimitError Usage) :
    ∃ future, (job.settle (E := E) request limit result).1 = .live future ∧
      ResponseFuture.afterStore (job.future (E := E) .done).config request limit result
        (job.future .done, w) =
        .ok () (future, w.note (job.settle (E := E) request limit result).2) := by
  have hfail : ∀ e, ResponseFuture.chargedPolicy (job.future (E := E) .done).config limit result =
      .error e → ∃ future, (job.fail (E := E) request e).1 = .live future ∧
        ResponseFuture.afterStore (job.future (E := E) .done).config request limit result
          (job.future .done, w) =
          .ok () (future, w.note (job.fail (E := E) request e).2) := by
    intro e he
    have hafter := ResponseFuture.afterStore_error (job.future (E := E) .done) request w he
    unfold fail
    cases hmode : job.limiter.storeFailureMode with
    | reject =>
      refine ⟨_, rfl, hafter.trans ?_⟩
      simp only [future, Job.layer, hmode, World.note_nil]
      rfl
    | allow =>
      refine ⟨_, rfl, hafter.trans ?_⟩
      simp only [future, Job.layer, hmode]
      rfl
  cases result with
  | error e => exact hfail e rfl
  | ok usage =>
    simp only [settle]
    split
    next hzero =>
      refine hfail _ ?_
      simp only [ResponseFuture.chargedPolicy, Except.bind, Policy.fromUsage, if_pos hzero]
    next hzero =>
      have hpolicy : ResponseFuture.chargedPolicy (job.future (E := E) .done).config limit
          (.ok usage) = .ok (job.limiter.policy limit usage) := by
        simp only [ResponseFuture.chargedPolicy, Except.bind, Policy.fromUsage, if_neg hzero]
        rfl
      have hafter := ResponseFuture.afterStore_ok (job.future (E := E) .done) request w hpolicy
      split
      next hover =>
        have hlimited : (job.limiter.policy limit usage).isRateLimited = true :=
          decide_eq_true hover
        rw [World.note_nil]
        exact ⟨_, rfl, hafter.trans (if_pos hlimited)⟩
      next hover =>
        have hlimited : ¬ (job.limiter.policy limit usage).isRateLimited = true := by
          simpa [Policy.isRateLimited, Limiter.policy] using hover
        exact ⟨_, rfl, hafter.trans (if_neg hlimited)⟩

theorem encodeKey_future (state : RunState S Head ReqBody) (key : String)
    (w : World S Head ReqBody ResBody E) :
    ResponseFuture.encodeKey (job.future (E := E) state).config
      (makeKey (job.future (E := E) state).config.policyName key) w =
      .ok (job.limiter.storedKey key) w := by
  unfold ResponseFuture.encodeKey Job.future Job.layer Limiter.storedKey
  cases job.limiter.encode <;> rfl

theorem checkSkipPredicate_layer (w : World S Head ReqBody ResBody E) :
    checkSkipPredicate (job.layer (E := E)).config.skipPredicate job.request w =
      .ok (job.limiter.skips job.request, job.request) w := by
  unfold checkSkipPredicate Job.layer Limiter.skips
  cases job.limiter.skip <;> rfl

end Job

namespace System

variable {jobs : ℕ → Job S Head ReqBody ResBody} {s : System S Head ReqBody ResBody E} {id : ℕ}

/-- Sending a request. -/
theorem step_call (h : s.phases id = .unused) :
    s.step jobs (.call id) = s.commit id ((jobs id).send s.store) := by
  have hclone : (World.inner S Head ReqBody ResBody E).clone
      ((jobs id).layer.layer () : RateLimit (World.inner S Head ReqBody ResBody E) _ _).inner
      ⟨s.store, .idle, id, []⟩ = .ok () ⟨s.store, .idle, id, []⟩ := rfl
  have hskip := (jobs id).checkSkipPredicate_layer
    (⟨s.store, .idle, id, []⟩ : World S Head ReqBody ResBody E)
  simp only [step, h, Job.send]
  cases hskips : (jobs id).limiter.skips (jobs id).request with
  | true =>
    rw [hskips] at hskip
    rw [RateLimit.call_skipped hclone hskip rfl]
    rfl
  | false =>
    rw [hskips] at hskip
    have hextract : ((jobs id).layer.layer () :
        RateLimit (World.inner S Head ReqBody ResBody E) _ _).keyExtractor (jobs id).request
        ⟨s.store, .idle, id, []⟩ =
          .ok ((jobs id).limiter.extract (jobs id).request) ⟨s.store, .idle, id, []⟩ := rfl
    cases hkey : (jobs id).limiter.extract (jobs id).request with
    | error e =>
      rw [hkey] at hextract
      rw [RateLimit.call_error hclone hskip hextract]
      rfl
    | ok key =>
      rw [hkey] at hextract
      rw [RateLimit.call_limit hclone hskip hextract rfl]
      rfl

/-- One iteration of a request in progress. -/
theorem step_poll {state : RunState S Head ReqBody} {turn : Turn S ResBody E}
    (h : s.phases id = .live ((jobs id).future state)) :
    s.step jobs (.poll id turn) = s.commit id ((jobs id).iterate id s.store turn state) := by
  simp only [step, h]
  cases state with
  | limit future request key =>
    rw [ResponseFuture.step_limit rfl]
    simp only [World.provider, Job.iterate]
    rcases turn.limit with _ | ⟨_ | limit⟩
    · rfl
    · rfl
    · simp only [Job.encodeKey_future]
      rfl
  | store future request limit =>
    rcases hpoll : S.poll turn.store (future, s.store) with
      ⟨_ | result, future', store⟩ | ⟨p, future', store⟩
    case ok.ready =>
      let w : World S Head ReqBody ResBody E :=
        ⟨store, turn, id, (S.taken result).toList.map .charge⟩
      have hstore : (World.sharedStore S Head ReqBody ResBody E).poll
          (future, ⟨s.store, turn, id, []⟩) = .ok (.ready result) (future', w) := by
        simp only [World.sharedStore, hpoll]
        rfl
      obtain ⟨next, hphase, hafter⟩ := (jobs id).afterStore_eq w request limit result
      have hstep : ResponseFuture.step ((jobs id).future (.store future request limit),
          ⟨s.store, turn, id, []⟩) =
            .ok none (next, w.note ((jobs id).settle (E := E) request limit result).2) :=
        ResponseFuture.step_store_ready rfl hstore hafter
      simp only [hstep, Job.iterate, hpoll, hphase]
      rfl
    case ok.pending =>
      rw [ResponseFuture.step_store rfl]
      simp only [World.sharedStore, Job.iterate, hpoll]
      rfl
    case error =>
      rw [ResponseFuture.step_store rfl]
      simp only [World.sharedStore, Job.iterate, hpoll]
  | inner future metadata =>
    rw [ResponseFuture.step_inner rfl]
    simp only [World.inner, Job.iterate]
    cases turn.inner with
    | pending => rfl
    | ready result => rfl
  | ready response =>
    rw [ResponseFuture.step_ready rfl]
    cases response <;> rfl
  | done =>
    rw [ResponseFuture.step_done rfl]
    rfl

end System

/-! ## Dropped requests -/

/-- The event is one of request `id`. -/
def Event.concerns (id : ℕ) : Event S ResBody E → Bool
  | .call other | .poll other _ | .drop other => decide (other = id)
  | .move _ => false

namespace System

/-- The system with another phase of request `id`. -/
def withPhase (s : System S Head ReqBody ResBody E) (id : ℕ)
    (phase : Phase S Head ReqBody ResBody E) : System S Head ReqBody ResBody E :=
  { s with phases := Function.update s.phases id phase }

variable {jobs : ℕ → Job S Head ReqBody ResBody} {s : System S Head ReqBody ResBody E} {id : ℕ}
  {phase : Phase S Head ReqBody ResBody E}

theorem commit_withPhase {other : ℕ} (hne : other ≠ id) (o : Outcome S Head ReqBody ResBody E) :
    (s.withPhase id phase).commit other o = (s.commit other o).withPhase id phase := by
  simp only [commit, withPhase]
  rw [Function.update_comm hne]

/-- What happens to the others does not depend on the phase of a request. -/
theorem step_withPhase {event : Event S ResBody E} (hevent : event.concerns id = false) :
    (s.withPhase id phase).step jobs event = (s.step jobs event).withPhase id phase := by
  have hphase : ∀ other, other ≠ id → (s.withPhase id phase).phases other = s.phases other :=
    fun other hne => Function.update_of_ne hne _ _
  have hstore : (s.withPhase id phase).store = s.store := rfl
  cases event with
  | call other =>
    have hne : other ≠ id := of_decide_eq_false hevent
    simp only [step, hphase other hne]
    cases s.phases other with
    | unused =>
      simp only [hstore, commit_withPhase hne]
      split <;> rfl
    | _ => rfl
  | poll other turn =>
    have hne : other ≠ id := of_decide_eq_false hevent
    simp only [step, hphase other hne]
    cases s.phases other with
    | live future =>
      simp only [hstore, commit_withPhase hne]
      split <;> rfl
    | _ => rfl
  | move move => rfl
  | drop other =>
    have hne : other ≠ id := of_decide_eq_false hevent
    simp only [step, hphase other hne]
    cases s.phases other with
    | live future =>
      simp only [withPhase]
      rw [Function.update_comm hne]
    | _ => rfl

/-- A dropped request takes part in nothing. -/
theorem step_dropped {event : Event S ResBody E} (hevent : event.concerns id = true) :
    (s.withPhase id .dropped).step jobs event = s.withPhase id .dropped := by
  have hphase : (s.withPhase id .dropped).phases id = .dropped := Function.update_self ..
  cases event with
  | call other =>
    obtain rfl : other = id := of_decide_eq_true hevent
    simp only [step, hphase]
  | poll other turn =>
    obtain rfl : other = id := of_decide_eq_true hevent
    simp only [step, hphase]
  | move move => exact absurd hevent Bool.false_ne_true
  | drop other =>
    obtain rfl : other = id := of_decide_eq_true hevent
    simp only [step, hphase]

/-- A run with a dropped request is the run without its events. -/
theorem after_dropped (s : System S Head ReqBody ResBody E) (events : List (Event S ResBody E)) :
    (s.withPhase id .dropped).after jobs events =
      (s.after jobs (events.filter fun event => !event.concerns id)).withPhase id .dropped := by
  induction events generalizing s with
  | nil => rfl
  | cons event events ih =>
    cases hevent : event.concerns id with
    | true =>
      rw [List.filter_cons_of_neg (by simp [hevent]), ← ih s]
      exact congrArg (System.after jobs · events) (step_dropped hevent)
    | false =>
      rw [List.filter_cons_of_pos (by simp [hevent])]
      refine (congrArg (System.after jobs · events) (step_withPhase hevent)).trans ?_
      exact ih (s.step jobs event)

end System

end TowerRateLimiter
