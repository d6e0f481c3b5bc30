import TowerRateLimiter.Limiter.Observed

/-!
# Panicking components

Any component a response future invokes may panic, at any invocation; the panic is caught outside
and the future is polled again. What then happens depends on the state in place when the component
ran: `poll` puts `State.done` there before it runs the key encoder, `Store::increment`,
`Inner::call` or the response factory, and leaves the old state there while it polls a future.

Here every invocation is recorded, the panicking ones too. `Recorded` says which records belong to
which state; every transition keeps it (`recorded_kept`), hence so does any number of polls.

Main result: `charged_and_called_at_most_once`.
-/

namespace TowerRateLimiter

open Rust

variable {σ Head ReqBody ResBody E : Type}

/-! ## Recorded invocations -/

/-- The invocations `ResponseFuture::poll` makes. -/
inductive Component where
  | limitPoll
  | encode
  | increment
  | storePoll
  | call
  | innerPoll
  | build
deriving DecidableEq

/-- The invocations made so far, oldest first. -/
abbrev Record := List (Invocation Component)

/-- Every invocation is recorded. -/
def recording : Notes Record where
  limitPoll := entered .limitPoll
  encode := entered .encode
  increment := entered .increment
  storePoll := entered .storePoll
  build := entered .build

/-- An inner service whose calls and whose futures' polls are recorded. -/
abbrev watchedInner (Inner : Service σ (Request Head ReqBody) (Response ResBody) E) :=
  Inner.watched Component.call Component.innerPoll

variable {Inner : Service σ (Request Head ReqBody) (Response ResBody) E} {S : Store σ}
  {P : LimitProvider σ Head ReqBody}

/-- A service value of a recorded layer. -/
abbrev WatchedService (Inner : Service σ (Request Head ReqBody) (Response ResBody) E)
    (S : Store σ) (P : LimitProvider σ Head ReqBody) :=
  RateLimit (watchedInner Inner) (recording.store S) (recording.provider P)

/-- The future of a request to a recorded layer. -/
abbrev WatchedFuture (Inner : Service σ (Request Head ReqBody) (Response ResBody) E) (S : Store σ)
    (P : LimitProvider σ Head ReqBody) :=
  ResponseFuture (watchedInner Inner) (recording.store S) (recording.provider P)

/-- Poll a future once for each of the worlds, catching every panic. Each poll finds a world of its
own: what else happened since the last one is not restricted. -/
def repoll : List σ → WatchedFuture Inner S P × Record → WatchedFuture Inner S P × Record
  | [], s => s
  | w :: worlds, (future, record) =>
      let (future, _, record) := final (ResponseFuture.poll (future, w, record))
      repoll worlds (future, record)

/-- A panic after which nothing more may be invoked. -/
def Fatal (i : Invocation Component) : Prop :=
  i.panicked = true ∧ (i.component = .encode ∨ i.component = .increment ∨ i.component = .call ∨
    i.component = .build)

/-- What holds of every record: no component with an effect is invoked twice, the inner service and
the factory are not both invoked, and a fatal panic is the last entry. -/
structure AtMostOnce (record : Record) : Prop where
  increment : invocations .increment record ≤ 1
  call : invocations .call record ≤ 1
  build : invocations .build record ≤ 1
  exclusive : invocations .call record = 0 ∨ invocations .build record = 0
  fatal : ∀ before i after, record = before ++ i :: after → Fatal i → after = []

/-! ## Tallies -/

/-- A record without a fatal panic and with given numbers of increments, calls and builds. -/
structure Tally (record : Record) (increments calls builds : ℕ) : Prop where
  increments : invocations .increment record = increments
  calls : invocations .call record = calls
  builds : invocations .build record = builds
  calm : ∀ i ∈ record, ¬ Fatal i

/-- Numbers of increments, calls and builds that are allowed together. -/
def Within (increments calls builds : ℕ) : Prop :=
  increments ≤ 1 ∧ calls ≤ 1 ∧ builds ≤ 1 ∧ (calls = 0 ∨ builds = 0)

instance (a b c : ℕ) : Decidable (Within a b c) := inferInstanceAs (Decidable (_ ∧ _))

namespace Tally

variable {record : Record} {a b c : ℕ}

theorem nil : Tally [] 0 0 0 := ⟨rfl, rfl, rfl, by simp⟩

/-- One more invocation that is not a fatal panic. -/
theorem snoc (h : Tally record a b c) {i : Invocation Component} (hi : ¬ Fatal i) :
    Tally (record ++ [i]) (a + invocations .increment [i]) (b + invocations .call [i])
      (c + invocations .build [i]) where
  increments := by rw [invocations, List.countP_append, ← h.increments]; rfl
  calls := by rw [invocations, List.countP_append, ← h.calls]; rfl
  builds := by rw [invocations, List.countP_append, ← h.builds]; rfl
  calm := by
    intro j hj
    rcases List.mem_append.mp hj with hj | hj
    · exact h.calm j hj
    · rw [List.mem_singleton.mp hj]
      exact hi

/-- One more invocation that returned. -/
theorem returned (h : Tally record a b c) (x : Component) :
    Tally (entered x false record) (a + invocations .increment [⟨x, false⟩])
      (b + invocations .call [⟨x, false⟩]) (c + invocations .build [⟨x, false⟩]) :=
  h.snoc (by simp [Fatal])

/-- A tally within the bounds. -/
theorem atMostOnce (h : Tally record a b c) (hw : Within a b c) : AtMostOnce record := by
  obtain ⟨ha, hb, hc, hex⟩ := hw
  refine ⟨by rwa [h.increments], by rwa [h.calls], by rwa [h.builds],
    by rwa [h.calls, h.builds], ?_⟩
  intro before i after heq hfatal
  exact absurd hfatal (h.calm i (heq ▸ List.mem_append_right _ List.mem_cons_self))

/-- A tally within the bounds and one last invocation, fatal or not. -/
theorem last (h : Tally record a b c) (x : Component) (panicked : Bool)
    (hw : Within (a + invocations .increment [⟨x, panicked⟩])
      (b + invocations .call [⟨x, panicked⟩]) (c + invocations .build [⟨x, panicked⟩])) :
    AtMostOnce (entered x panicked record) := by
  have hcount : ∀ y : Component, invocations y (entered x panicked record) =
      invocations y record + invocations y [⟨x, panicked⟩] := fun y => List.countP_append
  obtain ⟨ha, hb, hc, hex⟩ := hw
  refine ⟨by rwa [hcount, h.increments], by rwa [hcount, h.calls], by rwa [hcount, h.builds],
    by rwa [hcount, hcount, h.calls, h.builds], ?_⟩
  -- a fatal entry with something after it would lie in `record`
  intro before j after heq hfatal
  rcases concat_eq_split heq with ⟨-, -, hafter⟩ | ⟨rest, hrecord⟩
  · exact hafter
  · exact absurd hfatal (h.calm j (hrecord ▸ List.mem_append_right _ List.mem_cons_self))

end Tally

/-! ## Transitions -/

/-- The records that go with a state. -/
def Recorded {LimitFut StoreFut InnerFut : Type} (record : Record) :
    State Head ReqBody LimitFut StoreFut InnerFut → Prop
  | .limit _ _ _ => Tally record 0 0 0
  | .store _ _ _ => Tally record 1 0 0
  | .inner _ _ => ∃ n ≤ 1, Tally record n 1 0
  | .ready _ => ∃ n ≤ 1, Tally record n 0 0
  | .done => AtMostOnce record

/-- The records in which the key encoder has run, if there is one. -/
theorem tally_of_encoded {record record' : Record} (h : Tally record 0 0 0)
    (hencoded : recording.Encoded record record') : Tally record' 0 0 0 := by
  rcases hencoded with rfl | rfl
  · exact h.returned .limitPoll
  · exact (h.returned .limitPoll).returned .encode

/-- Every transition of a response future keeps the record in step with the state. -/
theorem recorded_kept {LimitFut StoreFut : Type} :
    recording.Kept (watchedInner Inner)
      fun (state : State Head ReqBody LimitFut StoreFut _) _ record => Recorded record state where
  limitPoll b h := Tally.snoc h (by simp [Fatal])
  limitError h := ⟨0, Nat.zero_le 1, Tally.returned h .limitPoll⟩
  encodePanic h := (Tally.returned h .limitPoll).last .encode true (by decide)
  incrementPanic h hencoded := (tally_of_encoded h hencoded).last .increment true (by decide)
  increment h hencoded := (tally_of_encoded h hencoded).returned .increment
  storePoll b h := Tally.snoc h (by simp [Fatal])
  refuse h := ⟨1, le_rfl, Tally.returned h .storePoll⟩
  forward := by
    intro f r limit i record r' w f' i' w' record' m h hcall
    have hpolled : Tally _ 1 0 0 := Tally.returned h .storePoll
    rcases notedPart_cases (entered Component.call) (Inner.call r') i w
      (entered .storePoll false record) with ⟨future, inner, w₁, heq⟩ | ⟨p, inner, w₁, heq⟩
    · cases heq.symm.trans hcall
      exact ⟨1, le_rfl, hpolled.returned .call⟩
    · exact absurd (heq.symm.trans hcall) (by simp)
  forwardPanic := by
    intro f r limit i record r' w p i' w' record' h hcall
    have hpolled : Tally _ 1 0 0 := Tally.returned h .storePoll
    rcases notedPart_cases (entered Component.call) (Inner.call r') i w
      (entered .storePoll false record) with ⟨future, inner, w₁, heq⟩ | ⟨p, inner, w₁, heq⟩
    · exact absurd (heq.symm.trans hcall) (by simp)
    · cases heq.symm.trans hcall
      exact hpolled.last .call true (by decide)
  innerPoll := by
    rintro f m i record w f' w' record' ⟨n, hn, h⟩ hpoll
    rcases notedPart_cases (entered Component.innerPoll) Inner.poll f w record with
      ⟨a, f₁, w₁, heq⟩ | ⟨p, f₁, w₁, heq⟩
    · cases (congrArg final heq).symm.trans hpoll
      exact ⟨n, hn, h.returned .innerPoll⟩
    · cases (congrArg final heq).symm.trans hpoll
      exact ⟨n, hn, h.snoc (by simp [Fatal])⟩
  innerReady := by
    rintro f m i record w a f' w' record' ⟨n, hn, h⟩ hpoll
    rcases notedPart_cases (entered Component.innerPoll) Inner.poll f w record with
      ⟨a, f₁, w₁, heq⟩ | ⟨p, f₁, w₁, heq⟩
    · cases heq.symm.trans hpoll
      exact (h.returned .innerPoll).atMostOnce ⟨hn, le_rfl, Nat.zero_le 1, .inr rfl⟩
    · exact absurd (heq.symm.trans hpoll) (by simp)
  build := by
    rintro response i record b ⟨n, hn, h⟩
    exact h.last .build b ⟨hn, Nat.zero_le 1, le_rfl, .inl rfl⟩

/-- A record that goes with a state is within the bounds. -/
theorem Recorded.atMostOnce {LimitFut StoreFut InnerFut : Type} {record : Record}
    {state : State Head ReqBody LimitFut StoreFut InnerFut} (h : Recorded record state) :
    AtMostOnce record := by
  cases state with
  | limit future request key => exact Tally.atMostOnce h (by decide)
  | store future request limit => exact Tally.atMostOnce h (by decide)
  | inner future metadata =>
    obtain ⟨n, hn, h⟩ := h
    exact h.atMostOnce ⟨hn, le_rfl, Nat.zero_le 1, .inr rfl⟩
  | ready response =>
    obtain ⟨n, hn, h⟩ := h
    exact h.atMostOnce ⟨hn, Nat.zero_le 1, Nat.zero_le 1, .inl rfl⟩
  | done => exact h

/-! ## Whole runs -/

/-- The future a call returns has a record that goes with its state. -/
theorem recorded_of_call {this service : WatchedService Inner S P}
    (hthis : recording.ObservesService this) {request : Request Head ReqBody} {w w' : σ}
    {future : WatchedFuture Inner S P} {record : Record}
    (hcall : RateLimit.call request (this, w, []) = .ok future (service, w', record)) :
    recording.Observes future ∧ Recorded record future.state := by
  rcases Notes.call_cases hthis request w [] with
    ⟨p, w₁, l₁, -, heq⟩ | ⟨replacement, w₁, record₁, hclone, hends⟩
  · exact absurd (heq.symm.trans hcall) (by simp)
  · -- the clone leaves no trace, so that a skipped request's call is the only entry
    obtain rfl : record₁ = [] := by
      rcases unnoted_cases (Inner.clone this.inner) w ([] : Record) with
        ⟨a, w₂, heq⟩ | ⟨p, w₂, heq⟩
      · cases heq.symm.trans hclone
        rfl
      · exact absurd (heq.symm.trans hclone) (by simp)
    rcases hends with ⟨p, w₂, record₂, heq, -⟩ | ⟨future', w₂, record₂, heq, hends⟩
    · exact absurd (heq.symm.trans hcall) (by simp)
    · cases heq.symm.trans hcall
      cases hends with
      | @skipped request' w₃ _ inner' inner _ _ h =>
        rcases notedPart_cases (entered Component.call) (Inner.call request') this.inner w₃ []
          with ⟨a, i₁, w₄, heq'⟩ | ⟨p, i₁, w₄, heq'⟩
        · cases heq'.symm.trans h
          exact ⟨hthis.observes _ _, 0, Nat.zero_le 1, Tally.nil.returned .call⟩
        · exact absurd (heq'.symm.trans h) (by simp)
      | error => exact ⟨hthis.observes _ _, 0, Nat.zero_le 1, Tally.nil⟩
      | limit => exact ⟨hthis.observes _ _, Tally.nil⟩

/-- Any number of polls keeps the record in step with the state. -/
theorem recorded_repoll {future : WatchedFuture Inner S P} {record : Record}
    (hfuture : recording.Observes future) (h : Recorded record future.state) (worlds : List σ) :
    Recorded (repoll worlds (future, record)).2 (repoll worlds (future, record)).1.state := by
  induction worlds generalizing future record with
  | nil => exact h
  | cons w worlds ih =>
    have hpoll := recorded_kept.poll (w := w) hfuture h
    exact ih hpoll.1 hpoll.2

/-- Whatever panics and however often the future is polled again: the store is charged at most once,
the inner service called at most once, the factory invoked at most once and only without the inner
service, and nothing is invoked after a panic of the key encoder, the increment, the inner call or
the factory. -/
theorem charged_and_called_at_most_once (l : RateLimitLayer σ Head ReqBody ResBody S P)
    (inner : Inner.Inst) (request : Request Head ReqBody) (w : σ) {w' : σ}
    {future : WatchedFuture Inner S P} {service : WatchedService Inner S P} {record : Record}
    (hcall : RateLimit.call request
      (((recording.layer l).layer inner : WatchedService Inner S P), w, []) =
        .ok future (service, w', record))
    (worlds : List σ) :
    AtMostOnce (repoll worlds (future, record)).2 := by
  obtain ⟨hfuture, hrecorded⟩ := recorded_of_call (Notes.observesService_layer l inner) hcall
  exact (recorded_repoll hfuture hrecorded worlds).atMostOnce

/-! A store whose future panics while the world is `true`, with the components around it. -/

/-- A limit provider that allows one request. -/
def oneAllowed : LimitProvider Bool Unit Unit where
  Self := Unit
  Future := Unit
  limit _ _ := pure ()
  poll := pure (.ready (.ok 1))

/-- A store whose futures panic while the world says so. -/
def faultyStore : Store Bool where
  Self := Unit
  Future := Unit
  increment _ _ _ := pure ()
  poll := fun s =>
    if s.2 then .error .component s else .ok (.ready (.ok ⟨1, Duration.ofMillis 1000⟩)) s

/-- An inner service that answers at once. -/
def emptyService : Service Bool (Request Unit Unit) (Response Unit) Unit where
  Inst := Unit
  Future := Unit
  clone _ := pure ()
  pollReady := pure (.ready (.ok ()))
  call _ := pure ()
  poll := pure (.ready (.ok ⟨200, [], ()⟩))

/-- A layer over the faulty store. -/
def faultyLayer : RateLimitLayer Bool Unit Unit Unit faultyStore oneAllowed where
  keyExtractor _ := pure (.ok "client")
  store := ()
  limitProvider := ()
  responseFactory _ reason := pure ⟨reason.statusCode, [], ()⟩
  config := ⟨"policy", Duration.ofMillis 1000, none, none, .reject, .disabled⟩

/-- The future of a first request to the faulty layer. -/
def faultyFuture : WatchedFuture emptyService faultyStore oneAllowed where
  state := .limit () ⟨(), none, ()⟩ "client"
  inner := ()
  store := ()
  config := recording.config faultyLayer.config
  factory := recording.factory faultyLayer.responseFactory

theorem call_faultyLayer :
    RateLimit.call ⟨(), none, ()⟩
        (((recording.layer faultyLayer).layer () :
          WatchedService emptyService faultyStore oneAllowed), true, []) =
      .ok faultyFuture ((recording.layer faultyLayer).layer (), true, []) := by
  rw [RateLimit.call_eq]
  rfl

/-- The store future panics once; the next poll charges nothing again, calls the inner service and
completes, and a further poll invokes nothing. -/
theorem charged_and_called_at_most_once_retried :
    (repoll [true, false, false] (faultyFuture, [])).2 =
        [⟨.limitPoll, false⟩, ⟨.increment, false⟩, ⟨.storePoll, true⟩, ⟨.storePoll, false⟩,
          ⟨.call, false⟩, ⟨.innerPoll, false⟩] ∧
      AtMostOnce (repoll [true, false, false] (faultyFuture, [])).2 :=
  ⟨by decide +kernel,
    charged_and_called_at_most_once faultyLayer () ⟨(), none, ()⟩ true call_faultyLayer
      [true, false, false]⟩

end TowerRateLimiter
