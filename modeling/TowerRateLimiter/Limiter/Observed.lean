import TowerRateLimiter.Common.Observe
import TowerRateLimiter.Limiter.Service

/-!
# Layers under observation

A layer whose components keep a record `L` next to their world. `Notes` says what each invocation a
response future makes leaves in the record; the components themselves are those of the given layer
and never see it. The inner service is a parameter and may write to the record on its own account.

Main results:

* `Notes.Kept.poll`: a property of state, reserved instance and record that every transition keeps
  (`Notes.Kept`) is kept by every poll, whether it returns or panics;
* `Notes.call_cases`: how a call of an observed layer can end.
-/

namespace TowerRateLimiter

open Rust

variable {σ L Head ReqBody ResBody E : Type}

/-- What an invocation of each component leaves in the record, given whether it panicked. -/
structure Notes (L : Type) where
  limitPoll : Bool → L → L
  encode : Bool → L → L
  increment : Bool → L → L
  storePoll : Bool → L → L
  build : Bool → L → L

namespace Notes

variable (n : Notes L)

/-- A limit provider under observation. -/
def provider (P : LimitProvider σ Head ReqBody) : LimitProvider (σ × L) Head ReqBody where
  Self := P.Self
  Future := P.Future
  limit this request := noted unnoted (P.limit this request)
  poll := notedPart n.limitPoll P.poll

/-- A store under observation. -/
def store (S : Store σ) : Store (σ × L) where
  Self := S.Self
  Future := S.Future
  increment this key window :=
    noted n.increment (S.increment this key window)
  poll := notedPart n.storePoll S.poll

/-- A response factory under observation. -/
def factory (build : ResponseFactory σ Head ReqBody ResBody) :
    ResponseFactory (σ × L) Head ReqBody ResBody :=
  fun request reason => noted n.build (build request reason)

/-- A configuration whose key encoder is under observation. -/
def config (c : RateLimitConfig σ Head) : RateLimitConfig (σ × L) Head where
  policyName := c.policyName
  window := c.window
  keyEncoder := c.keyEncoder.map fun encoder key =>
    noted n.encode (encoder key)
  skipPredicate := c.skipPredicate.map fun predicate request => noted unnoted (predicate request)
  storeFailureMode := c.storeFailureMode
  rateLimitFields := c.rateLimitFields

/-- A layer under observation. -/
def layer {S : Store σ} {P : LimitProvider σ Head ReqBody}
    (l : RateLimitLayer σ Head ReqBody ResBody S P) :
    RateLimitLayer (σ × L) Head ReqBody ResBody (n.store S) (n.provider P) where
  keyExtractor request := noted unnoted (l.keyExtractor request)
  store := l.store
  limitProvider := l.limitProvider
  responseFactory := n.factory l.responseFactory
  config := n.config l.config

/-! ## What the record shows -/

/-- The skip predicate leaves no trace. -/
theorem checkSkipPredicate_cases (c : RateLimitConfig σ Head) (request : Request Head ReqBody)
    (w : σ) (l : L) :
    (∃ skip request' w', checkSkipPredicate (n.config c).skipPredicate request (w, l) =
        .ok (skip, request') (w', l)) ∨
      ∃ p w', checkSkipPredicate (n.config c).skipPredicate request (w, l) = .error p (w', l) := by
  unfold Notes.config
  cases c.skipPredicate with
  | none => exact .inl ⟨false, request, w, rfl⟩
  | some predicate =>
    simp only [Option.map_some, checkSkipPredicate, bind, EStateM.bind]
    rcases unnoted_cases (predicate { request with body := () }) w l with
      ⟨skip, w', heq⟩ | ⟨p, w', heq⟩
    · rw [heq]
      exact .inl ⟨skip, _, w', rfl⟩
    · rw [heq]
      exact .inr ⟨p, w', rfl⟩

/-- The key encoder leaves its note if there is one. -/
theorem encodeKey_cases (c : RateLimitConfig σ Head) (key : String) (w : σ) (l : L) :
    (∃ key' w' l', ResponseFuture.encodeKey (n.config c) key (w, l) = .ok key' (w', l') ∧
        (l' = l ∨ l' = n.encode false l)) ∨
      ∃ p w', ResponseFuture.encodeKey (n.config c) key (w, l) =
        .error p (w', n.encode true l) := by
  unfold ResponseFuture.encodeKey Notes.config
  cases c.keyEncoder with
  | none => exact .inl ⟨key, w, l, rfl, .inl rfl⟩
  | some encoder =>
    rcases noted_cases n.encode (encoder key) w l with
      ⟨key', w', heq⟩ | ⟨p, w', heq⟩
    · exact .inl ⟨key', w', _, heq, .inr rfl⟩
    · exact .inr ⟨p, w', heq⟩

/-- The factory is invoked exactly once to finalize a response. -/
theorem finalize_cases (build : ResponseFactory σ Head ReqBody ResBody)
    (response : MiddlewareResponse Head ReqBody) (w : σ) (l : L) :
    (∃ r w', response.finalize (n.factory build) (w, l) = .ok r (w', n.build false l)) ∨
      ∃ p w', response.finalize (n.factory build) (w, l) = .error p (w', n.build true l) := by
  cases response with
  | rateLimited request metadata =>
    rcases noted_cases n.build
      (build request (.rateLimited metadata.policy)) w l with ⟨r, w', heq⟩ | ⟨p, w', heq⟩
    · refine .inl ⟨appendRateLimitedResponseHeaders r metadata, w', ?_⟩
      simp only [MiddlewareResponse.finalize, Notes.factory, bind, EStateM.bind, heq]
      rfl
    · refine .inr ⟨p, w', ?_⟩
      simp only [MiddlewareResponse.finalize, Notes.factory, bind, EStateM.bind, heq]
  | error request e =>
    exact noted_cases n.build (build request (.error e)) w l

/-! ## Transitions -/

variable {Inner : Service (σ × L) (Request Head ReqBody) (Response ResBody) E}
  {S : Store σ} {P : LimitProvider σ Head ReqBody}

/-- The record after the key encoder has run, if there is one. -/
def Encoded (l l₁ : L) : Prop :=
  l₁ = n.limitPoll false l ∨ l₁ = n.encode false (n.limitPoll false l)

/-- `I` is kept by every transition of a response future: one field for each way in which an
iteration of its loop can go on, return or panic. -/
structure Kept {LimitFut StoreFut : Type}
    (Inner : Service (σ × L) (Request Head ReqBody) (Response ResBody) E)
    (I : State Head ReqBody LimitFut StoreFut Inner.Future → Inner.Inst → L → Prop) : Prop where
  limitPoll : ∀ {f f' r k i l} b, I (.limit f r k) i l → I (.limit f' r k) i (n.limitPoll b l)
  limitError : ∀ {f r k i l e}, I (.limit f r k) i l →
    I (.ready (.error r e)) i (n.limitPoll false l)
  encodePanic : ∀ {f r k i l}, I (.limit f r k) i l →
    I .done i (n.encode true (n.limitPoll false l))
  incrementPanic : ∀ {f r k i l l₁}, I (.limit f r k) i l → n.Encoded l l₁ →
    I .done i (n.increment true l₁)
  increment : ∀ {f f' r k i l l₁ limit}, I (.limit f r k) i l → n.Encoded l l₁ →
    I (.store f' r limit) i (n.increment false l₁)
  storePoll : ∀ {f f' r limit i l} b, I (.store f r limit) i l →
    I (.store f' r limit) i (n.storePoll b l)
  refuse : ∀ {f r limit i l response}, I (.store f r limit) i l →
    I (.ready response) i (n.storePoll false l)
  forward : ∀ {f r limit i l r' w f' i' w' l' m}, I (.store f r limit) i l →
    Inner.call r' (i, w, n.storePoll false l) = .ok f' (i', w', l') → I (.inner f' m) i' l'
  forwardPanic : ∀ {f r limit i l r' w p i' w' l'}, I (.store f r limit) i l →
    Inner.call r' (i, w, n.storePoll false l) = .error p (i', w', l') → I .done i' l'
  innerPoll : ∀ {f m i l w f' w' l'}, I (.inner f m) i l →
    final (Inner.poll (f, w, l)) = (f', w', l') → I (.inner f' m) i l'
  innerReady : ∀ {f m i l w a f' w' l'}, I (.inner f m) i l →
    Inner.poll (f, w, l) = .ok (.ready a) (f', w', l') → I .done i l'
  build : ∀ {response i l} b, I (.ready response) i l → I .done i (n.build b l)

/-- A response future with observed components. -/
structure Observes (this : ResponseFuture Inner (n.store S) (n.provider P)) : Prop where
  config : ∃ c, this.config = n.config c
  factory : ∃ g, this.factory = n.factory g

namespace Kept

variable {n}
variable {I : State Head ReqBody (n.provider P).Future (n.store S).Future Inner.Future →
  Inner.Inst → L → Prop} {this : ResponseFuture Inner (n.store S) (n.provider P)}
  {request : Request Head ReqBody} {w : σ} {l : L}

/-- The property holds of what a call leaves, and the components are still observed. -/
def Holds (n : Notes L) {α : Type}
    (I : State Head ReqBody (n.provider P).Future (n.store S).Future Inner.Future →
      Inner.Inst → L → Prop)
    (result : EStateM.Result Panic (ResponseFuture Inner (n.store S) (n.provider P) × σ × L) α) :
    Prop :=
  n.Observes (final result).1 ∧ I (final result).1.state (final result).1.inner (final result).2.2

theorem step_limit (hkept : n.Kept Inner I) (hthis : n.Observes this)
    (h : I this.state this.inner l)
    {future : (n.provider P).Future} {key : String} (hs : this.state = .limit future request key) :
    Holds n I (ResponseFuture.step (this, w, l)) := by
  rw [hs] at h
  rw [ResponseFuture.step_limit hs]
  rcases notedPart_cases n.limitPoll P.poll future w l with
    ⟨a, future', w', heq⟩ | ⟨p, future', w', heq⟩
  · have hpoll : (n.provider P).poll (future, w, l) = _ := heq
    rw [hpoll]
    rcases a with _ | ⟨e | limit⟩
    · exact ⟨⟨hthis.config, hthis.factory⟩, hkept.limitPoll false h⟩
    · exact ⟨⟨hthis.config, hthis.factory⟩, hkept.limitError h⟩
    · -- from here on the state is `done`
      obtain ⟨c, hc⟩ := hthis.config
      simp only
      rcases n.encodeKey_cases c (makeKey this.config.policyName key) w' (n.limitPoll false l) with
        ⟨key', w₁, l₁, hencode, hl₁⟩ | ⟨p, w₁, hencode⟩
      · rw [← hc] at hencode
        rw [hencode]
        simp only
        rcases noted_cases n.increment
          (S.increment this.store key' this.config.window) w₁ l₁ with ⟨f', w₂, heq⟩ | ⟨p, w₂, heq⟩
        · have hincrement : (n.store S).increment this.store key' this.config.window (w₁, l₁) =
            _ := heq
          rw [hincrement]
          exact ⟨⟨hthis.config, hthis.factory⟩, hkept.increment h hl₁⟩
        · have hincrement : (n.store S).increment this.store key' this.config.window (w₁, l₁) =
            _ := heq
          rw [hincrement]
          exact ⟨⟨hthis.config, hthis.factory⟩, hkept.incrementPanic h hl₁⟩
      · rw [← hc] at hencode
        rw [hencode]
        exact ⟨⟨hthis.config, hthis.factory⟩, hkept.encodePanic h⟩
  · have hpoll : (n.provider P).poll (future, w, l) = _ := heq
    rw [hpoll]
    exact ⟨⟨hthis.config, hthis.factory⟩, hkept.limitPoll true h⟩

theorem afterStore (hkept : n.Kept Inner I) (hthis : n.Observes this)
    {future : (n.store S).Future} {limit : UInt64}
    (h : I (.store future request limit) this.inner l)
    (result : Except RateLimitError Usage) :
    Holds n I (ResponseFuture.afterStore this.config request limit result
      (({ this with state := .done } : ResponseFuture Inner (n.store S) (n.provider P)), w,
        n.storePoll false l)) := by
  cases hpolicy : ResponseFuture.chargedPolicy this.config limit result with
  | error e =>
    rw [ResponseFuture.afterStore_error this _ _ hpolicy]
    split
    · rcases heq : Inner.call request (this.inner, w, n.storePoll false l) with
        ⟨future', inner, w', l'⟩ | ⟨p, inner, w', l'⟩
      · exact ⟨⟨hthis.config, hthis.factory⟩, hkept.forward h heq⟩
      · exact ⟨⟨hthis.config, hthis.factory⟩, hkept.forwardPanic h heq⟩
    · exact ⟨⟨hthis.config, hthis.factory⟩, hkept.refuse h⟩
  | ok policy =>
    rw [ResponseFuture.afterStore_ok this _ _ hpolicy]
    split
    · exact ⟨⟨hthis.config, hthis.factory⟩, hkept.refuse h⟩
    · rcases heq : Inner.call (appendContext request ⟨policy, this.config.rateLimitFields⟩)
        (this.inner, w, n.storePoll false l) with ⟨future', inner, w', l'⟩ | ⟨p, inner, w', l'⟩
      · exact ⟨⟨hthis.config, hthis.factory⟩, hkept.forward h heq⟩
      · exact ⟨⟨hthis.config, hthis.factory⟩, hkept.forwardPanic h heq⟩

theorem step_store (hkept : n.Kept Inner I) (hthis : n.Observes this)
    (h : I this.state this.inner l)
    {future : (n.store S).Future} {limit : UInt64}
    (hs : this.state = .store future request limit) :
    Holds n I (ResponseFuture.step (this, w, l)) := by
  rw [hs] at h
  rw [ResponseFuture.step_store hs]
  rcases notedPart_cases n.storePoll S.poll future w l with
    ⟨a, future', w', heq⟩ | ⟨p, future', w', heq⟩
  · have hpoll : (n.store S).poll (future, w, l) = _ := heq
    rw [hpoll]
    rcases a with _ | result
    · exact ⟨⟨hthis.config, hthis.factory⟩, hkept.storePoll false h⟩
    · have hafter := hkept.afterStore (w := w') hthis h result
      simp only
      split
      · rename_i heq'
        rwa [heq'] at hafter
      · rename_i heq'
        rwa [heq'] at hafter
  · have hpoll : (n.store S).poll (future, w, l) = _ := heq
    rw [hpoll]
    exact ⟨⟨hthis.config, hthis.factory⟩, hkept.storePoll true h⟩

theorem step_inner (hkept : n.Kept Inner I) (hthis : n.Observes this)
    (h : I this.state this.inner l)
    {future : Inner.Future} {metadata : Option ResponseMetadata}
    (hs : this.state = .inner future metadata) :
    Holds n I (ResponseFuture.step (this, w, l)) := by
  rw [hs] at h
  rw [ResponseFuture.step_inner hs]
  rcases heq : Inner.poll (future, w, l) with ⟨_ | result, future', w', l'⟩ | ⟨p, future', w', l'⟩
  · exact ⟨⟨hthis.config, hthis.factory⟩, hkept.innerPoll h (by rw [heq]; rfl)⟩
  · exact ⟨⟨hthis.config, hthis.factory⟩, hkept.innerReady h heq⟩
  · exact ⟨⟨hthis.config, hthis.factory⟩, hkept.innerPoll h (by rw [heq]; rfl)⟩

theorem step_ready (hkept : n.Kept Inner I) (hthis : n.Observes this)
    (h : I this.state this.inner l)
    {response : MiddlewareResponse Head ReqBody} (hs : this.state = .ready response) :
    Holds n I (ResponseFuture.step (this, w, l)) := by
  rw [hs] at h
  obtain ⟨g, hg⟩ := hthis.factory
  rw [ResponseFuture.step_ready hs]
  rcases n.finalize_cases g response w l with ⟨r, w', heq⟩ | ⟨p, w', heq⟩
  · rw [← hg] at heq
    rw [heq]
    exact ⟨⟨hthis.config, hthis.factory⟩, hkept.build false h⟩
  · rw [← hg] at heq
    rw [heq]
    exact ⟨⟨hthis.config, hthis.factory⟩, hkept.build true h⟩

/-- One iteration of the loop keeps the property. -/
theorem step (hkept : n.Kept Inner I) (hthis : n.Observes this) (h : I this.state this.inner l) :
    Holds n I (ResponseFuture.step (this, w, l)) := by
  cases hs : this.state with
  | limit future request key => exact hkept.step_limit hthis h hs
  | store future request limit => exact hkept.step_store hthis h hs
  | inner future metadata => exact hkept.step_inner hthis h hs
  | ready response => exact hkept.step_ready hthis h hs
  | done =>
    rw [ResponseFuture.step_done hs]
    exact ⟨hthis, h⟩

theorem loop (hkept : n.Kept Inner I) (hthis : n.Observes this) (h : I this.state this.inner l)
    (k : ℕ) : Holds n I (ResponseFuture.loop k (this, w, l)) := by
  induction k generalizing this w l with
  | zero => exact ⟨hthis, h⟩
  | succ k ih =>
    have hstep := hkept.step (w := w) hthis h
    simp only [ResponseFuture.loop, bind, EStateM.bind]
    rcases heq : ResponseFuture.step (this, w, l) with ⟨_ | result, s⟩ | ⟨p, s⟩
    · rw [heq] at hstep
      exact ih hstep.1 hstep.2
    · rw [heq] at hstep
      exact hstep
    · rw [heq] at hstep
      exact hstep

/-- A poll keeps the property, whether it returns or panics. -/
theorem poll (hkept : n.Kept Inner I) (hthis : n.Observes this) (h : I this.state this.inner l) :
    Holds n I (ResponseFuture.poll (this, w, l)) :=
  hkept.loop hthis h 3

end Kept

/-! ## Calls -/

/-- A service value with observed components. -/
structure ObservesService (this : RateLimit Inner (n.store S) (n.provider P)) : Prop where
  config : ∃ c, this.config = n.config c
  factory : ∃ g, this.responseFactory = n.factory g
  extractor : ∃ extract : KeyExtractor σ Head ReqBody,
    this.keyExtractor = fun request => noted unnoted (extract request)

variable {n}

theorem observesService_layer (l : RateLimitLayer σ Head ReqBody ResBody S P) (inner : Inner.Inst) :
    n.ObservesService ((n.layer l).layer inner : RateLimit Inner (n.store S) (n.provider P)) :=
  ⟨⟨l.config, rfl⟩, ⟨l.responseFactory, rfl⟩, ⟨l.keyExtractor, rfl⟩⟩

/-- The future a service value makes, in some state. -/
def futureIn (this : RateLimit Inner (n.store S) (n.provider P)) (inner : Inner.Inst)
    (state : State Head ReqBody (n.provider P).Future (n.store S).Future Inner.Future) :
    ResponseFuture Inner (n.store S) (n.provider P) :=
  { state, inner, store := this.store, config := this.config, factory := this.responseFactory }

theorem ObservesService.observes {this : RateLimit Inner (n.store S) (n.provider P)}
    (h : n.ObservesService this) (inner : Inner.Inst)
    (state : State Head ReqBody (n.provider P).Future (n.store S).Future Inner.Future) :
    n.Observes (futureIn this inner state) :=
  ⟨h.config, h.factory⟩

/-- How a call can end once the clone has been made: a component panics, the inner service is called
at once for a skipped request, or the reserved instance waits in the future. -/
inductive CallEnds (this : RateLimit Inner (n.store S) (n.provider P)) (l : L) :
    EStateM.Result Panic (Inner.Inst × σ × L) (ResponseFuture Inner (n.store S) (n.provider P)) →
    Prop where
  | panic (p : Panic) (replacement : Inner.Inst) (w : σ) :
      CallEnds this l (.error p (replacement, w, l))
  | skippedPanic {request : Request Head ReqBody} {w w' : σ} {p : Panic} {inner : Inner.Inst}
      {l' : L} (replacement : Inner.Inst)
      (h : Inner.call request (this.inner, w, l) = .error p (inner, w', l')) :
      CallEnds this l (.error p (replacement, w', l'))
  | skipped {request : Request Head ReqBody} {w w' : σ} {future : Inner.Future}
      {inner : Inner.Inst} {l' : L} (replacement : Inner.Inst)
      (h : Inner.call request (this.inner, w, l) = .ok future (inner, w', l')) :
      CallEnds this l (.ok (futureIn this inner (.inner future none)) (replacement, w', l'))
  | error (request : Request Head ReqBody) (e : RateLimitError) (replacement : Inner.Inst)
      (w : σ) :
      CallEnds this l (.ok (futureIn this this.inner (.ready (.error request e)))
        (replacement, w, l))
  | limit (future : P.Future) (request : Request Head ReqBody) (key : String)
      (replacement : Inner.Inst) (w : σ) :
      CallEnds this l (.ok (futureIn this this.inner (.limit future request key))
        (replacement, w, l))

/-- A call of an observed service value either panics in the clone of the inner service or ends as
`CallEnds` says, with the clone in place of the reserved instance. -/
theorem call_cases {this : RateLimit Inner (n.store S) (n.provider P)}
    (hthis : n.ObservesService this) (request : Request Head ReqBody) (w : σ) (l : L) :
    (∃ p w' l', Inner.clone this.inner (w, l) = .error p (w', l') ∧
        RateLimit.call request (this, w, l) = .error p (this, w', l')) ∨
      ∃ replacement w₁ l₁, Inner.clone this.inner (w, l) = .ok replacement (w₁, l₁) ∧
        ((∃ p w' l', RateLimit.call request (this, w, l) =
            .error p ({ this with inner := replacement }, w', l') ∧
            CallEnds this l₁ (.error p (replacement, w', l'))) ∨
          ∃ future w' l', RateLimit.call request (this, w, l) =
            .ok future ({ this with inner := replacement }, w', l') ∧
            CallEnds this l₁ (.ok future (replacement, w', l'))) := by
  obtain ⟨c, hc⟩ := hthis.config
  obtain ⟨extract, hextract⟩ := hthis.extractor
  rw [RateLimit.call_eq]
  rcases hclone : Inner.clone this.inner (w, l) with ⟨replacement, w₁, l₁⟩ | ⟨p, w₁, l₁⟩
  · refine .inr ⟨replacement, w₁, l₁, rfl, ?_⟩
    simp only
    rcases n.checkSkipPredicate_cases c request w₁ l₁ with
      ⟨_ | _, request', w₂, hskip⟩ | ⟨p, w₂, hskip⟩
    · rw [← hc] at hskip
      simp only [hskip]
      rcases unnoted_cases (extract request') w₂ l₁ with
        ⟨_ | key, w₃, hkey⟩ | ⟨p, w₃, hkey⟩
      · simp only [hextract, hkey]
        exact .inr ⟨_, w₃, l₁, rfl, .error request' _ replacement w₃⟩
      · simp only [hextract, hkey]
        rcases unnoted_cases (P.limit this.limitProvider request') w₃ l₁ with
          ⟨future, w₄, heq⟩ | ⟨p, w₄, heq⟩
        · have hlimit : (n.provider P).limit this.limitProvider request' (w₃, l₁) = _ := heq
          rw [hlimit]
          exact .inr ⟨_, w₄, l₁, rfl, .limit future request' key replacement w₄⟩
        · have hlimit : (n.provider P).limit this.limitProvider request' (w₃, l₁) = _ := heq
          rw [hlimit]
          exact .inl ⟨p, w₄, l₁, rfl, .panic p replacement w₄⟩
      · simp only [hextract, hkey]
        exact .inl ⟨p, w₃, l₁, rfl, .panic p replacement w₃⟩
    · rw [← hc] at hskip
      simp only [hskip]
      rcases hcall : Inner.call request' (this.inner, w₂, l₁) with
        ⟨future, inner, w₃, l₃⟩ | ⟨p, inner, w₃, l₃⟩
      · exact .inr ⟨_, w₃, l₃, rfl, .skipped replacement hcall⟩
      · exact .inl ⟨p, w₃, l₃, rfl, .skippedPanic replacement hcall⟩
    · rw [← hc] at hskip
      simp only [hskip]
      exact .inl ⟨p, w₂, l₁, rfl, .panic p replacement w₂⟩
  · exact .inl ⟨p, w₁, l₁, rfl, rfl⟩

end Notes

end TowerRateLimiter
