import TowerRateLimiter.Common.Session
import TowerRateLimiter.Limiter.Observed

/-!
# Readiness through stacks of limiters

`RateLimit::call` hands the instance that was ready to the request and leaves a clone in its place;
the request's future calls that instance once the request is admitted, and drops it otherwise. So a
limiter passes a `Lease` of its inner service on to its own callers (`limiterLease`), and by
induction any stack of limiters has one.

Main result: `readiness_kept`.
-/

namespace TowerRateLimiter

open Rust

variable {σ Head ReqBody ResBody E : Type}

/-- Only the responses that a limiter builds itself are written down. -/
def answering : Notes Ledger where
  limitPoll := unnoted
  encode := unnoted
  increment := unnoted
  storePoll := unnoted
  build := fun _ => Ledger.note .answered

variable {Inner : Service (σ × Ledger) (Request Head ReqBody) (Response ResBody) E} {S : Store σ}
  {P : LimitProvider σ Head ReqBody}

/-! ## One limiter -/

/-- The status of a request in some state of its future. -/
def requestStatus (L : Lease Inner) {LimitFut StoreFut : Type} (inner : Inner.Inst) :
    State Head ReqBody LimitFut StoreFut Inner.Future → Status
  | .limit _ _ _ | .store _ _ _ => .waiting (L.leaf inner)
  | .inner future _ => L.status future
  | .ready _ => .refused
  | .done => .spent

/-- How far a request has got since it had status `s` and the ledger was `l`. -/
structure Progress (L : Lease Inner) {LimitFut StoreFut : Type} (l : Ledger) (s : Status)
    (state : State Head ReqBody LimitFut StoreFut Inner.Future) (inner : Inner.Inst)
    (l' : Ledger) : Prop where
  sound : L.Sound inner
  future : ∀ f m, state = .inner f m → L.SoundFuture f
  moves : ∃ new, l.Extends l' new ∧ Moves s new (requestStatus L inner state)

namespace Progress

variable {L : Lease Inner} {LimitFut StoreFut : Type} {l l₁ l₂ : Ledger} {s : Status}
  {state state' : State Head ReqBody LimitFut StoreFut Inner.Future} {inner inner' : Inner.Inst}

/-- A further transition, with the deeds it adds. -/
theorem next (h : Progress L l s state inner l₁) {new : List Deed} (hext : l₁.Extends l₂ new)
    (hmoves : Moves (requestStatus L inner state) new (requestStatus L inner' state'))
    (hsound : L.Sound inner') (hfuture : ∀ f m, state' = .inner f m → L.SoundFuture f) :
    Progress L l s state' inner' l₂ := by
  obtain ⟨before, hbefore, hstart⟩ := h.moves
  exact ⟨hsound, hfuture, before ++ new, hbefore.trans hext, hstart.trans hmoves⟩

/-- A transition that only changes the state of the limiter. -/
theorem change (h : Progress L l s state inner l₁)
    (hmoves : Moves (requestStatus L inner state) [] (requestStatus L inner state'))
    (hfuture : ∀ f m, state' ≠ .inner f m) : Progress L l s state' inner l₁ :=
  h.next (.refl _) hmoves h.sound fun f m heq => absurd heq (hfuture f m)

/-- Every transition of a response future is progress. -/
theorem kept (L : Lease Inner) (LimitFut StoreFut : Type) (l : Ledger) (s : Status) :
    answering.Kept Inner fun (state : State Head ReqBody LimitFut StoreFut _) inner l' =>
      Progress L l s state inner l' where
  limitPoll _ h := h.change (.stay _) nofun
  limitError h := h.change (.refuse _) nofun
  encodePanic h := h.change (.lapse _) nofun
  incrementPanic := by
    rintro f r k i l₁ _ h (rfl | rfl)
    · exact h.change (.lapse _) nofun
    · exact h.change (.lapse _) nofun
  increment := by
    rintro f f' r k i l₁ _ limit h (rfl | rfl)
    · exact h.change (.stay _) nofun
    · exact h.change (.stay _) nofun
  storePoll _ h := h.change (.stay _) nofun
  refuse h := h.change (.refuse _) nofun
  forward := by
    intro f r limit i l₁ r' w f' i' w' l₂ m h hcall
    obtain ⟨hsound, hfuture, -, new, hext, hmoves⟩ := L.call_ok h.sound hcall
    refine h.next hext hmoves hsound ?_
    intro f₁ m₁ heq
    cases heq
    exact hfuture
  forwardPanic := by
    intro f r limit i l₁ r' w p i' w' l₂ h hcall
    obtain ⟨hsound, -, new, hext, hmoves⟩ := L.call_error h.sound hcall
    exact h.next hext hmoves hsound nofun
  innerPoll := by
    intro f m i l₁ w f' w' l₂ h hpoll
    obtain ⟨hfuture, new, hext, hmoves⟩ := L.poll (h.future f m rfl) hpoll
    refine h.next hext hmoves h.sound ?_
    intro f₁ m₁ heq
    cases heq
    exact hfuture
  innerReady := by
    intro f m i l₁ w a f' w' l₂ h hpoll
    obtain ⟨-, new, hext, hmoves⟩ := L.poll (h.future f m rfl) (congrArg final hpoll)
    have hdone := hmoves.trans (.lapse _)
    rw [List.append_nil] at hdone
    exact h.next hext hdone h.sound nofun
  build _ h := h.next ⟨rfl, le_rfl⟩ .build h.sound nofun

end Progress

/-- A service value of a limiter over a service with a ledger. -/
abbrev LimiterService (Inner : Service (σ × Ledger) (Request Head ReqBody) (Response ResBody) E)
    (S : Store σ) (P : LimitProvider σ Head ReqBody) :=
  RateLimit Inner (answering.store S) (answering.provider P)

/-- The future of a request to it. -/
abbrev LimiterFuture (Inner : Service (σ × Ledger) (Request Head ReqBody) (Response ResBody) E)
    (S : Store σ) (P : LimitProvider σ Head ReqBody) :=
  ResponseFuture Inner (answering.store S) (answering.provider P)

/-- A service value of a limiter is in order. -/
structure SoundService (L : Lease Inner) (this : LimiterService Inner S P) : Prop where
  inner : L.Sound this.inner
  observes : answering.ObservesService this

/-- A response future of a limiter is in order. -/
structure SoundResponse (L : Lease Inner) (this : LimiterFuture Inner S P) : Prop where
  inner : L.Sound this.inner
  future : ∀ f m, this.state = .inner f m → L.SoundFuture f
  observes : answering.Observes this

section Laws

variable {L : Lease Inner} {this this' : LimiterService Inner S P} {w w' : σ} {l l' : Ledger}

theorem limiter_clone_ok (hthis : SoundService L this)
    (h : RateLimit.clone this (w, l) = .ok this' (w', l')) :
    SoundService L this' ∧ l.Extends l' [] ∧ l.Made l' (L.leaf this'.inner) := by
  simp only [RateLimit.clone, bind, EStateM.bind] at h
  rcases hclone : Inner.clone this.inner (w, l) with ⟨copy, s⟩ | ⟨p, s⟩
  · rw [hclone] at h
    cases h
    obtain ⟨hsound, hext, hmade⟩ := L.clone_ok hthis.inner hclone
    exact ⟨⟨hsound, hthis.observes.config, hthis.observes.factory, hthis.observes.extractor⟩,
      hext, hmade⟩
  · rw [hclone] at h
    exact absurd h (by simp)

theorem limiter_clone_error (hthis : SoundService L this) {p : Panic}
    (h : RateLimit.clone this (w, l) = .error p (w', l')) : l.Extends l' [] := by
  simp only [RateLimit.clone, bind, EStateM.bind] at h
  rcases hclone : Inner.clone this.inner (w, l) with ⟨copy, s⟩ | ⟨p, s⟩
  · rw [hclone] at h
    exact absurd h (by simp [pure, EStateM.pure])
  · rw [hclone] at h
    cases h
    exact L.clone_error hthis.inner hclone

theorem limiter_pollReady_ok (hthis : SoundService L this) {r : Poll (Except E Unit)}
    (h : RateLimit.pollReady (this, w, l) = .ok r (this', w', l')) :
    SoundService L this' ∧ L.leaf this'.inner = L.leaf this.inner ∧
      (l.Extends l' [.readied (L.leaf this.inner)] ∨ l.Extends l' [] ∧ r ≠ .ready (.ok ())) := by
  rw [RateLimit.pollReady_eq] at h
  rcases hready : Inner.pollReady (this.inner, w, l) with ⟨r₁, inner, s⟩ | ⟨p, inner, s⟩
  · rw [hready] at h
    cases h
    obtain ⟨hsound, hleaf, hdeeds⟩ := L.pollReady_ok hthis.inner hready
    exact ⟨⟨hsound, hthis.observes.config, hthis.observes.factory, hthis.observes.extractor⟩,
      hleaf, hdeeds⟩
  · rw [hready] at h
    exact absurd h (by simp)

theorem limiter_pollReady_error (hthis : SoundService L this) {p : Panic}
    (h : RateLimit.pollReady (this, w, l) = .error p (this', w', l')) :
    SoundService L this' ∧ L.leaf this'.inner = L.leaf this.inner ∧ l.Extends l' [] := by
  rw [RateLimit.pollReady_eq] at h
  rcases hready : Inner.pollReady (this.inner, w, l) with ⟨r₁, inner, s⟩ | ⟨p, inner, s⟩
  · rw [hready] at h
    exact absurd h (by simp)
  · rw [hready] at h
    cases h
    obtain ⟨hsound, hleaf, hext⟩ := L.pollReady_error hthis.inner hready
    exact ⟨⟨hsound, hthis.observes.config, hthis.observes.factory, hthis.observes.extractor⟩,
      hleaf, hext⟩

/-- A call leaves the clone, which is a new instance, and hands the instance that was held to the
request. -/
theorem limiter_call_ok (hthis : SoundService L this) {request : Request Head ReqBody}
    {future : LimiterFuture Inner S P}
    (h : RateLimit.call request (this, w, l) = .ok future (this', w', l')) :
    SoundService L this' ∧ SoundResponse L future ∧ l.Made l' (L.leaf this'.inner) ∧
      ∃ new, l.Extends l' new ∧
        Moves (.waiting (L.leaf this.inner)) new (requestStatus L future.inner future.state) := by
  have hobserves := hthis.observes
  rcases Notes.call_cases hobserves request w l with
    ⟨p, w₁, l₁, -, heq⟩ | ⟨replacement, w₁, l₁, hclone, hends⟩
  · exact absurd (heq.symm.trans h) (by simp)
  · obtain ⟨hsound, hext, hmade⟩ := L.clone_ok hthis.inner hclone
    have hservice :
        SoundService L ({ this with inner := replacement } : LimiterService Inner S P) :=
      ⟨hsound, hobserves.config, hobserves.factory, hobserves.extractor⟩
    rcases hends with ⟨p, w₂, l₂, heq, -⟩ | ⟨future', w₂, l₂, heq, hends⟩
    · exact absurd (heq.symm.trans h) (by simp)
    · cases heq.symm.trans h
      cases hends with
      | @skipped request' w₃ _ f inner _ _ hcall =>
        obtain ⟨hinner, hfuture, -, new, hext', hmoves⟩ := L.call_ok hthis.inner hcall
        refine ⟨hservice, ⟨hinner, ?_, hobserves.observes _ _⟩,
          ⟨hmade.1, lt_of_lt_of_le hmade.2 hext'.next⟩, new, hext.trans hext', hmoves⟩
        intro f₁ m₁ heq₁
        cases heq₁
        exact hfuture
      | error =>
        exact ⟨hservice, ⟨hthis.inner, nofun, hobserves.observes _ _⟩, hmade, [], hext, .refuse _⟩
      | limit =>
        exact ⟨hservice, ⟨hthis.inner, nofun, hobserves.observes _ _⟩, hmade, [], hext, .stay _⟩

theorem limiter_call_error (hthis : SoundService L this) {request : Request Head ReqBody}
    {p : Panic} (h : RateLimit.call request (this, w, l) = .error p (this', w', l')) :
    SoundService L this' ∧
      (L.leaf this'.inner = L.leaf this.inner ∨ l.Made l' (L.leaf this'.inner)) ∧
      ∃ new, l.Extends l' new ∧ Moves (.waiting (L.leaf this.inner)) new .spent := by
  have hobserves := hthis.observes
  rcases Notes.call_cases hobserves request w l with
    ⟨p, w₁, l₁, hclone, heq⟩ | ⟨replacement, w₁, l₁, hclone, hends⟩
  · cases heq.symm.trans h
    exact ⟨hthis, .inl rfl, [], L.clone_error hthis.inner hclone, .lapse _⟩
  · obtain ⟨hsound, hext, hmade⟩ := L.clone_ok hthis.inner hclone
    have hservice :
        SoundService L ({ this with inner := replacement } : LimiterService Inner S P) :=
      ⟨hsound, hobserves.config, hobserves.factory, hobserves.extractor⟩
    rcases hends with ⟨p, w₂, l₂, heq, hends⟩ | ⟨future', w₂, l₂, heq, -⟩
    · cases heq.symm.trans h
      cases hends with
      | panic => exact ⟨hservice, .inr hmade, [], hext, .lapse _⟩
      | @skippedPanic request' w₃ _ _ inner _ _ hcall =>
        obtain ⟨-, -, new, hext', hmoves⟩ := L.call_error hthis.inner hcall
        exact ⟨hservice, .inr ⟨hmade.1, lt_of_lt_of_le hmade.2 hext'.next⟩, new, hext.trans hext',
          hmoves⟩
    · exact absurd (heq.symm.trans h) (by simp)

/-- A poll continues the request from the status it had. -/
theorem limiter_poll {future future' : LimiterFuture Inner S P} (hfuture : SoundResponse L future)
    (h : final (ResponseFuture.poll (future, w, l)) = (future', w', l')) :
    SoundResponse L future' ∧
      ∃ new, l.Extends l' new ∧
        Moves (requestStatus L future.inner future.state) new
          (requestStatus L future'.inner future'.state) := by
  have hstart :
      Progress L l (requestStatus L future.inner future.state) future.state future.inner l :=
    ⟨hfuture.inner, hfuture.future, [], .refl l, .stay _⟩
  have hpoll := (Progress.kept L _ _ l _).poll (w := w) hfuture.observes hstart
  simp only [Notes.Kept.Holds, h] at hpoll
  obtain ⟨hobserves, hsound, hinner, hmoves⟩ := hpoll
  exact ⟨⟨hsound, hinner, hobserves⟩, hmoves⟩

end Laws

/-- A limiter passes the lease of its inner service on. -/
def limiterLease (L : Lease Inner) (S : Store σ) (P : LimitProvider σ Head ReqBody) :
    Lease (RateLimit.service Inner (answering.store S) (answering.provider P)) where
  leaf := fun (this : LimiterService Inner S P) => L.leaf this.inner
  status := fun (future : LimiterFuture Inner S P) => requestStatus L future.inner future.state
  Sound := fun (this : LimiterService Inner S P) => SoundService L this
  SoundFuture := fun (future : LimiterFuture Inner S P) => SoundResponse L future
  clone_ok hthis h := limiter_clone_ok hthis h
  clone_error hthis h := limiter_clone_error hthis h
  pollReady_ok hthis h := limiter_pollReady_ok hthis h
  pollReady_error hthis h := limiter_pollReady_error hthis h
  call_ok hthis h := by
    obtain ⟨hservice, hfuture, hmade, hmoves⟩ := limiter_call_ok hthis h
    exact ⟨hservice, hfuture, .inr hmade, hmoves⟩
  call_error hthis h := limiter_call_error hthis h
  poll hfuture h := limiter_poll hfuture h

theorem limiterLease_reserves (L : Lease Inner) (S : Store σ) (P : LimitProvider σ Head ReqBody) :
    (limiterLease L S P).Reserves := by
  intro request inst inst' future w w' l l' hthis h
  exact (limiter_call_ok hthis h).2.2.1

/-! ## Stacks -/

/-- A layer with its store and limit provider. -/
structure AnyLayer (σ Head ReqBody ResBody : Type) where
  S : Store σ
  P : LimitProvider σ Head ReqBody
  layer : RateLimitLayer σ Head ReqBody ResBody S P

section Stacks

variable (Inner : Service σ (Request Head ReqBody) (Response ResBody) E)

/-- The service of a stack of layers, the first one outermost, around a tracked inner service. -/
def limiters : List (AnyLayer σ Head ReqBody ResBody) →
    Service (σ × Ledger) (Request Head ReqBody) (Response ResBody) E
  | [] => Inner.tracked
  | a :: layers =>
      RateLimit.service (limiters layers) (answering.store a.S) (answering.provider a.P)

/-- The service value the layers make of an instance of the inner service. -/
def layered (inner : Inner.Inst) :
    (layers : List (AnyLayer σ Head ReqBody ResBody)) → (limiters Inner layers).Inst
  | [] => (0, inner)
  | a :: layers =>
      ((answering.layer a.layer).layer (layered inner layers) :
        LimiterService (limiters Inner layers) a.S a.P)

/-- The lease of a stack: the instance in its innermost hands. -/
def limitersLease :
    (layers : List (AnyLayer σ Head ReqBody ResBody)) → Lease (limiters Inner layers)
  | [] => Inner.trackedLease
  | a :: layers => limiterLease (limitersLease layers) a.S a.P

theorem sound_layered (inner : Inner.Inst) (layers : List (AnyLayer σ Head ReqBody ResBody)) :
    (limitersLease Inner layers).Sound (layered Inner inner layers) ∧
      (limitersLease Inner layers).leaf (layered Inner inner layers) = 0 := by
  induction layers with
  | nil => exact ⟨trivial, rfl⟩
  | cons a layers ih =>
    exact ⟨⟨ih.1, Notes.observesService_layer a.layer _⟩, ih.2⟩

/-- Whatever callers do with a stack of limiters and its clones within Tower's contract, in any
order: every call of the inner service is made on an instance that is ready, no readiness serves two
calls, and each request calls nothing but the instance reserved for it, at most once, and not at all
if a limiter answered it or it was dropped before. -/
theorem readiness_kept (a : AnyLayer σ Head ReqBody ResBody)
    (layers : List (AnyLayer σ Head ReqBody ResBody)) (inner : Inner.Inst)
    (ops : List (SessionOp (Request Head ReqBody) × σ)) {s : Session (limiters Inner (a :: layers))}
    (hrun : Session.run (limitersLease Inner (a :: layers)).leaf ops
      (Session.start (layered Inner inner (a :: layers))) = some s) :
    Proper s.ledger.deeds ∧
      (∀ before between after id,
        s.ledger.deeds = before ++ .called id :: between ++ .called id :: after →
          .readied id ∈ between) ∧
      ∀ k t, s.requests k = some t → t.Honoured s.ledger.deeds := by
  obtain ⟨hsound, hleaf⟩ := sound_layered Inner inner (a :: layers)
  have haccounts := (Accounts.start (limitersLease Inner (a :: layers)) hsound hleaf).run
    (limiterLease_reserves (limitersLease Inner layers) a.S a.P) hrun
  refine ⟨haccounts.proper, ?_, fun k t ht => haccounts.honoured ht⟩
  intro before between after id heq
  have hproper := haccounts.proper
  rw [heq] at hproper
  exact hproper.readied_between

end Stacks

/-! Two limiters around a service that is always ready. The world says whether a charge exceeds the
limit of one. -/

/-- A limit of one. -/
def singleLimit : LimitProvider Bool Unit Unit where
  Self := Unit
  Future := Unit
  limit _ _ := pure ()
  poll := pure (.ready (.ok 1))

/-- A store that reports the second charge of a window while the world says so. -/
def worldStore : Store Bool where
  Self := Unit
  Future := Unit
  increment _ _ _ := pure ()
  poll := fun s => .ok (.ready (.ok ⟨if s.2 then 2 else 1, Duration.ofMillis 1000⟩)) s

/-- A layer over them. -/
def worldLayer : AnyLayer Bool Unit Unit Unit where
  S := worldStore
  P := singleLimit
  layer :=
    { keyExtractor := fun _ => pure (.ok "client")
      store := ()
      limitProvider := ()
      responseFactory := fun _ reason => pure ⟨reason.statusCode, [], ()⟩
      config := ⟨"policy", Duration.ofMillis 1000, none, none, .reject, .disabled⟩ }

/-- A service that is always ready and answers at once. -/
def readyService : Service Bool (Request Unit Unit) (Response Unit) Unit where
  Inst := Unit
  Future := Unit
  clone _ := pure ()
  pollReady := pure (.ready (.ok ()))
  call _ := pure ()
  poll := pure (.ready (.ok ⟨200, [], ()⟩))

/-- Two requests are made before either is polled; the first is admitted, the second rejected. -/
def twoRequestOps : List (SessionOp (Request Unit Unit) × Bool) :=
  [(.pollReady 0, false), (.call 0 0 ⟨(), none, ()⟩, false), (.pollReady 0, false),
    (.call 0 1 ⟨(), none, ()⟩, false), (.poll 0, false), (.poll 1, true), (.drop 1, true)]

/-- The session of the two requests: the admitted one calls the instance that was ready when it was
made, although a clone has been made ready since. -/
theorem readiness_kept_twoRequests :
    ∃ s, Session.run (limitersLease readyService [worldLayer, worldLayer]).leaf twoRequestOps
        (Session.start (layered readyService () [worldLayer, worldLayer])) = some s ∧
      s.ledger.deeds = [.readied 0, .readied 1, .called 0, .answered] ∧
      Proper s.ledger.deeds := by
  have hdeeds : (Session.run (limitersLease readyService [worldLayer, worldLayer]).leaf
      twoRequestOps (Session.start (layered readyService () [worldLayer, worldLayer]))).map
        (·.ledger.deeds) = some [.readied 0, .readied 1, .called 0, .answered] := by
    decide +kernel
  obtain ⟨s, hrun, hs⟩ := Option.map_eq_some_iff.mp hdeeds
  exact ⟨s, hrun, hs,
    (readiness_kept readyService worldLayer [worldLayer] () twoRequestOps hrun).1⟩

end TowerRateLimiter
