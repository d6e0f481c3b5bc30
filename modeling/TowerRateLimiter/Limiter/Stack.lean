import TowerRateLimiter.Limiter.Lifecycle

/-!
# Stacks of limiters

Any number of layers around a service. A request goes through the layers from the outside in; each
of them lets it pass (skipped, failed open or admitted) or refuses it (rejected or with an error),
and the outermost refusal ends it. The response comes back through the admitting layers from the
inside out. The record of a stack is labelled with the position of the layer, counted from the
outside; the innermost position is the service's.
-/

namespace TowerRateLimiter

open Rust

variable {ω Head ReqBody ResBody E : Type}

/-! ## What one layer decides -/

/-- How a layer lets a request pass. -/
inductive Passage where
  | skipped
  | failedOpen
  | admitted (metadata : ResponseMetadata)
deriving DecidableEq

/-- How a layer refuses a request. -/
inductive Refusal where
  | rejected (metadata : ResponseMetadata)
  | errored (error : RateLimitError)

namespace Passage

/-- The request handed on. -/
def pass (request : Request Head ReqBody) : Passage → Request Head ReqBody
  | .admitted metadata => request.withPolicy metadata.policy
  | .skipped | .failedOpen => request

/-- The policies added to the context. -/
def policies : Passage → List Policy
  | .admitted metadata => [metadata.policy]
  | .skipped | .failedOpen => []

/-- The names and texts of the header lines added to a successful response. -/
def texts : Passage → List (String × String)
  | .admitted metadata => metadata.policy.fieldTexts metadata.fields
  | .skipped | .failedOpen => []

/-- The header lines added to a successful response. -/
def lines (p : Passage) : HeaderMap := textLines p.texts

@[simp] theorem lines_skipped : skipped.lines = [] := rfl

@[simp] theorem lines_failedOpen : failedOpen.lines = [] := rfl

/-- Whether the layer charges its store. -/
def charges : Passage → ℕ
  | .skipped => 0
  | .failedOpen | .admitted _ => 1

theorem policies_pass (p : Passage) (request : Request Head ReqBody) :
    (p.pass request).policies = request.policies ++ p.policies := by
  cases p <;> simp [pass, policies]

theorem head_pass (p : Passage) (request : Request Head ReqBody) :
    (p.pass request).head = request.head ∧ (p.pass request).body = request.body := by
  cases p with
  | admitted metadata => exact request.head_withPolicy metadata.policy
  | skipped | failedOpen => exact ⟨rfl, rfl⟩

end Passage

namespace Refusal

/-- The reason passed to the response factory. -/
def reason : Refusal → ResponseReason
  | .rejected metadata => .rateLimited metadata.policy
  | .errored e => .error e

/-- The names and texts of the header lines added to the factory's response. -/
def texts : Refusal → List (String × String)
  | .rejected metadata =>
      metadata.policy.fieldTexts metadata.fields ++ [metadata.policy.retryAfterText]
  | .errored _ => []

/-- The header lines added to the factory's response. -/
def lines (refusal : Refusal) : HeaderMap := textLines refusal.texts

@[simp] theorem lines_errored (e : RateLimitError) : (errored e).lines = [] := rfl

end Refusal

/-- A charge of a store. -/
def Effect.isCharge : Effect Head ReqBody → Bool
  | .increment _ _ => true
  | _ => false

/-- The request of a call of the inner service. -/
def Effect.call? : Effect Head ReqBody → Option (Request Head ReqBody)
  | .call request => some request
  | _ => none

namespace Behaviour

variable (label : Effect Head ReqBody → ω) (b : Behaviour Head ReqBody ResBody)

/-- A failed charge. -/
def failure (e : RateLimitError) : Except Refusal Passage :=
  match b.storeFailureMode with
  | .reject => .error (.errored e)
  | .allow => .ok .failedOpen

/-- What the layer decides after the store's answer. -/
def chargeOutcome (limit : UInt64) : Except RateLimitError Usage → Except Refusal Passage
  | .error e => b.failure e
  | .ok usage =>
      if usage.used = 0 then
        b.failure (.store "invalid_usage" "rate-limit store returned zero usage")
      else if usage.used > limit then .error (.rejected (b.metadata limit usage))
      else .ok (.admitted (b.metadata limit usage))

/-- What the layer decides about a request that reaches it. -/
def outcome (request : Request Head ReqBody) : Except Refusal Passage :=
  if b.skips request then .ok .skipped
  else
    match b.extract request with
    | .error e => .error (.errored e)
    | .ok key =>
        match (b.limit request).output with
        | .error e => .error (.errored e)
        | .ok limit => b.chargeOutcome limit (b.increment (b.storedKey key) b.window).output

/-- What the layer records before it hands the request on or builds a response. -/
def evaluation (request : Request Head ReqBody) : List ω :=
  b.skipEffects label request ++
    if b.skips request then []
    else label (.extract request) ::
      match b.extract request with
      | .error _ => []
      | .ok key => label (.limit request) ::
          match (b.limit request).output with
          | .error _ => []
          | .ok _ => b.encodeEffects label key ++ [label (.increment (b.storedKey key) b.window)]

/-- The reply of a layer that has made its decision. -/
def settle (inner : Request Head ReqBody → Reply ω (Response ResBody) E)
    (request : Request Head ReqBody) : Except Refusal Passage → Reply ω (Response ResBody) E
  | .error refusal =>
      ⟨0, .ok ((b.build request refusal.reason).withLines refusal.lines),
        [label (.build request refusal.reason)]⟩
  | .ok passage =>
      let reply := inner (passage.pass request)
      { reply with result := reply.result.map (·.withLines passage.lines) }

variable {label b}

theorem map_withLines_nil (result : Except E (Response ResBody)) :
    result.map (·.withLines []) = result := by
  cases result <;> simp [Except.map]

section Settle

variable (inner : Request Head ReqBody → Reply ω (Response ResBody) E)
  (request : Request Head ReqBody)

theorem settle_errored (e : RateLimitError) :
    b.settle label inner request (.error (.errored e)) = b.erroring label request e := by
  simp only [settle, erroring, Refusal.reason, Refusal.lines_errored, Response.withLines_nil]

theorem settle_skipped : b.settle label inner request (.ok .skipped) = inner request := by
  simp only [settle, Passage.pass, Passage.lines_skipped, map_withLines_nil]

theorem settle_failure (e : RateLimitError) :
    b.settle label inner request (b.failure e) = b.failing label inner request e := by
  unfold failure failing
  cases b.storeFailureMode with
  | reject => exact settle_errored inner request e
  | allow => simp only [settle, Passage.pass, Passage.lines_failedOpen, map_withLines_nil]

theorem settle_chargeOutcome (limit : UInt64) (result : Except RateLimitError Usage) :
    b.settle label inner request (b.chargeOutcome limit result) =
      b.charged label inner request limit result := by
  cases result with
  | error e => exact settle_failure inner request e
  | ok usage =>
    simp only [chargeOutcome, charged]
    split
    · exact settle_failure inner request _
    · split <;> rfl

variable (label b) in
/-- The decision tree evaluates the layer and then does what the layer decided. -/
theorem respond_eq_settle :
    ∃ n, b.respond label inner request =
      (b.settle label inner request (b.outcome request)).after n (b.evaluation label request) := by
  unfold outcome evaluation
  cases hskips : b.skips request with
  | true =>
    refine ⟨0, ?_⟩
    rw [respond_of_skips hskips]
    simp [settle_skipped]
  | false =>
    cases hkey : b.extract request with
    | error e =>
      refine ⟨0, ?_⟩
      rw [respond_of_error hskips hkey]
      simp [settle_errored]
    | ok key =>
      rw [respond_of_ok hskips hkey]
      cases hlimit : (b.limit request).output with
      | error e =>
        refine ⟨(b.limit request).pending, ?_⟩
        simp [settle_errored, limited]
      | ok limit =>
        refine ⟨(b.limit request).pending + (b.increment (b.storedKey key) b.window).pending, ?_⟩
        simp [settle_chargeOutcome, limited, Reply.after, Nat.add_assoc]

end Settle

/-! ## What a layer records -/

theorem evaluation_map (request : Request Head ReqBody) :
    b.evaluation label request = (b.evaluation id request).map label := by
  unfold evaluation skipEffects encodeEffects
  cases b.skip <;> cases b.skips request <;> cases b.extract request <;>
    cases (b.limit request).output <;> cases b.encode <;> rfl

/-- A layer does not call the inner service before it has decided. -/
theorem call?_of_mem_evaluation {request : Request Head ReqBody} {e : Effect Head ReqBody}
    (h : e ∈ b.evaluation id request) : e.call? = none := by
  revert e
  unfold evaluation skipEffects encodeEffects
  cases b.skip <;> cases b.skips request <;> cases b.extract request <;>
    cases (b.limit request).output <;> cases b.encode <;> simp [Effect.call?]

theorem charges_of_chargeOutcome {limit : UInt64} {result : Except RateLimitError Usage}
    {p : Passage} (h : b.chargeOutcome limit result = .ok p) : p.charges = 1 := by
  have hfailure : ∀ e, b.failure e = .ok p → p.charges = 1 := by
    intro e he
    unfold failure at he
    split at he
    · exact absurd he (by simp)
    · rw [← Except.ok.inj he]
      rfl
  cases result with
  | error e => exact hfailure e h
  | ok usage =>
    simp only [chargeOutcome] at h
    split at h
    · exact hfailure _ h
    · split at h
      · exact absurd h (by simp)
      · rw [← Except.ok.inj h]
        rfl

/-- A passing layer charges its store once, unless it skips the request. -/
theorem countP_evaluation {request : Request Head ReqBody} {p : Passage}
    (h : b.outcome request = .ok p) :
    (b.evaluation id request).countP Effect.isCharge = p.charges := by
  have hskip : (b.skipEffects id request).countP Effect.isCharge = 0 := by
    unfold skipEffects
    cases b.skip <;> rfl
  have hencode : ∀ key, (b.encodeEffects id key).countP Effect.isCharge = 0 := by
    intro key
    unfold encodeEffects
    cases b.encode <;> rfl
  unfold outcome at h
  rw [evaluation, List.countP_append, hskip, Nat.zero_add]
  cases hskips : b.skips request with
  | true =>
    rw [hskips, if_pos rfl] at h
    rw [← Except.ok.inj h]
    rfl
  | false =>
    rw [hskips, if_neg (by decide)] at h
    cases hkey : b.extract request with
    | error e => simp [hkey] at h
    | ok key =>
      cases hlimit : (b.limit request).output with
      | error e => simp [hkey, hlimit] at h
      | ok limit =>
        simp only [hkey, hlimit] at h
        have hcharges : p.charges = 1 := charges_of_chargeOutcome h
        simp [hencode, hcharges, Effect.isCharge]

end Behaviour

/-! ## The stack -/

section Stack

variable (answer : Request Head ReqBody → Delayed (Except E (Response ResBody)))

/-- A service that answers with `answer` under the layers `bs`, outermost first; the outermost layer
has position `i`. -/
def stack (i : ℕ) : List (Behaviour Head ReqBody ResBody) →
    Service (List (ℕ × Effect Head ReqBody)) (Request Head ReqBody) (Response ResBody) E
  | [] => Service.recorded (fun r => (i, .call r)) answer
  | b :: bs => RateLimit.service (stack (i + 1) bs) (b.store (i, ·)) (b.provider (i, ·))

/-- The layers applied one after the other. -/
def stackInst (i : ℕ) : (bs : List (Behaviour Head ReqBody ResBody)) → (stack answer i bs).Inst
  | [] => ()
  | b :: bs => (b.layer (i, ·)).layer (stackInst (i + 1) bs)

/-- The decision trees of the layers applied one after the other. -/
def stackReply (i : ℕ) : List (Behaviour Head ReqBody ResBody) → Request Head ReqBody →
    Reply (ℕ × Effect Head ReqBody) (Response ResBody) E
  | [], r => ⟨(answer r).pending, (answer r).output, [(i, .call r)]⟩
  | b :: bs, r => b.respond (i, ·) (stackReply (i + 1) bs) r

theorem stack_serves (i : ℕ) (bs : List (Behaviour Head ReqBody ResBody))
    (request : Request Head ReqBody) :
    (stack answer i bs).Serves (stackInst answer i bs) request (stackReply answer i bs request) := by
  induction bs generalizing i request with
  | nil => exact Service.recorded_serves _ answer request
  | cons b bs ih => exact Behaviour.layer_serves _ b (ih (i + 1)) request

end Stack

/-- How far a request gets: how the layers outside the first refusal let it pass, the request as it
is then, and the refusing layer, if there is one. -/
structure Path (Head ReqBody ResBody : Type) where
  passages : List Passage
  request : Request Head ReqBody
  refusal : Option (Behaviour Head ReqBody ResBody × Refusal)

/-- The way of a request through layers. -/
def descend : List (Behaviour Head ReqBody ResBody) → Request Head ReqBody →
    Path Head ReqBody ResBody
  | [], request => ⟨[], request, none⟩
  | b :: bs, request =>
      match b.outcome request with
      | .error refusal => ⟨[], request, some (b, refusal)⟩
      | .ok passage =>
          let path := descend bs (passage.pass request)
          { path with passages := passage :: path.passages }

/-! ## Retry-After -/

/-- The number of `Retry-After` lines. -/
def retryAfters (lines : HeaderMap) : ℕ := (HeaderMap.getAll lines retryAfter).length

theorem retryAfters_append (l₁ l₂ : HeaderMap) :
    retryAfters (l₁ ++ l₂) = retryAfters l₁ + retryAfters l₂ := by
  simp [retryAfters]

theorem retryAfters_admitted (metadata : ResponseMetadata) :
    retryAfters (Passage.admitted metadata).lines = 0 := by
  rw [Passage.lines, Passage.texts, ← fieldLines_eq, retryAfters, getAll_fieldLines_retryAfter,
    List.length_nil]

/-- A rejecting layer adds one `Retry-After` line. -/
theorem retryAfters_rejected (metadata : ResponseMetadata) :
    retryAfters (Refusal.rejected metadata).lines = 1 := by
  obtain ⟨v, hv, -⟩ := exists_retryAfterLine metadata
  rw [Refusal.lines, Refusal.texts, textLines_append, ← fieldLines_eq, ← retryAfterLine_eq,
    retryAfters_append, hv, retryAfters, getAll_fieldLines_retryAfter]
  rfl

/-- Only a rejecting layer adds a `Retry-After` line. -/
theorem retryAfters_passages (passages : List Passage) :
    retryAfters (passages.flatMap Passage.lines) = 0 := by
  induction passages with
  | nil => rfl
  | cons p passages ih =>
    have hp : retryAfters p.lines = 0 := by
      cases p with
      | admitted metadata => exact retryAfters_admitted metadata
      | skipped | failedOpen => rfl
    rw [List.flatMap_cons, retryAfters_append, hp, ih]

/-! ## The way through the stack -/

section Descend

variable {answer : Request Head ReqBody → Delayed (Except E (Response ResBody))}

/-- The lines the layers outside the first refusal append, innermost first. -/
def Path.lines (path : Path Head ReqBody ResBody) : HeaderMap :=
  path.passages.reverse.flatMap Passage.lines

/-- The lines of the layers outside the first refusal have their texts. -/
theorem Path.map_lines (path : Path Head ReqBody ResBody) :
    path.lines.map (fun line => (line.1, line.2.text)) =
      (path.passages.reverse.flatMap Passage.texts).filter fun t => t.2.toList.all isHeaderChar := by
  have htexts : path.lines = textLines (path.passages.reverse.flatMap Passage.texts) :=
    List.flatMap_assoc.symm
  rw [htexts, map_textLines]

/-- The response that comes out of the stack. -/
def Path.result (answer : Request Head ReqBody → Delayed (Except E (Response ResBody)))
    (path : Path Head ReqBody ResBody) : Except E (Response ResBody) :=
  match path.refusal with
  | none => (answer path.request).output.map (·.withLines path.lines)
  | some (b, refusal) =>
      .ok ((b.build path.request refusal.reason).withLines (refusal.lines ++ path.lines))

variable {i : ℕ} {b : Behaviour Head ReqBody ResBody} {bs : List (Behaviour Head ReqBody ResBody)}
  {request : Request Head ReqBody}

theorem descend_error {refusal : Refusal} (h : b.outcome request = .error refusal) :
    descend (b :: bs) request = ⟨[], request, some (b, refusal)⟩ := by
  simp only [descend, h]

theorem descend_ok {p : Passage} (h : b.outcome request = .ok p) :
    descend (b :: bs) request =
      { descend bs (p.pass request) with
        passages := p :: (descend bs (p.pass request)).passages } := by
  simp only [descend, h]

/-- What a refusing layer adds to the record and returns. -/
theorem stackReply_error {refusal : Refusal} (h : b.outcome request = .error refusal) :
    (stackReply answer i (b :: bs) request).effects =
        (b.evaluation id request).map (i, ·) ++ [(i, .build request refusal.reason)] ∧
      (stackReply answer i (b :: bs) request).result =
        .ok ((b.build request refusal.reason).withLines refusal.lines) := by
  obtain ⟨n, hn⟩ := b.respond_eq_settle (i, ·) (stackReply answer (i + 1) bs) request
  rw [stackReply, hn, h, Behaviour.evaluation_map]
  exact ⟨rfl, rfl⟩

/-- What a passing layer adds to the record and to the response. -/
theorem stackReply_ok {p : Passage} (h : b.outcome request = .ok p) :
    (stackReply answer i (b :: bs) request).effects =
        (b.evaluation id request).map (i, ·) ++
          (stackReply answer (i + 1) bs (p.pass request)).effects ∧
      (stackReply answer i (b :: bs) request).result =
        (stackReply answer (i + 1) bs (p.pass request)).result.map (·.withLines p.lines) := by
  obtain ⟨n, hn⟩ := b.respond_eq_settle (i, ·) (stackReply answer (i + 1) bs) request
  rw [stackReply, hn, h, Behaviour.evaluation_map]
  exact ⟨rfl, rfl⟩

/-- Refused or not, the response is the one of the way through the stack. -/
theorem stackReply_result (i : ℕ) (bs : List (Behaviour Head ReqBody ResBody))
    (request : Request Head ReqBody) :
    (stackReply answer i bs request).result = (descend bs request).result answer := by
  induction bs generalizing i request with
  | nil => exact (Behaviour.map_withLines_nil _).symm
  | cons b bs ih =>
    cases h : b.outcome request with
    | error refusal =>
      rw [(stackReply_error h).2, descend_error h]
      simp [Path.result, Path.lines]
    | ok p =>
      -- responses come back through the layers, so the outermost lines are appended last
      have hlines : ({ descend bs (p.pass request) with
          passages := p :: (descend bs (p.pass request)).passages } :
            Path Head ReqBody ResBody).lines = (descend bs (p.pass request)).lines ++ p.lines := by
        simp [Path.lines]
      rw [(stackReply_ok h).2, ih, descend_ok h]
      simp only [Path.result, hlines]
      cases (descend bs (p.pass request)).refusal with
      | none => cases (answer (descend bs (p.pass request)).request).output <;> simp [Except.map]
      | some refused => simp [Except.map]

/-- The context grows by the policies of the admitting layers, outermost first, and nothing else of
the request changes. -/
theorem descend_request (bs : List (Behaviour Head ReqBody ResBody))
    (request : Request Head ReqBody) :
    (descend bs request).request.policies =
        request.policies ++ (descend bs request).passages.flatMap Passage.policies ∧
      (descend bs request).request.head = request.head ∧
      (descend bs request).request.body = request.body := by
  induction bs generalizing request with
  | nil => simp [descend]
  | cons b bs ih =>
    cases h : b.outcome request with
    | error refusal => simp [descend_error h]
    | ok p =>
      obtain ⟨hpolicies, hhead, hbody⟩ := ih (p.pass request)
      rw [descend_ok h]
      refine ⟨?_, hhead.trans (p.head_pass request).1, hbody.trans (p.head_pass request).2⟩
      rw [hpolicies, p.policies_pass, List.flatMap_cons, List.append_assoc]

/-- A layer's own effects carry its position. -/
theorem fst_of_mem_evaluation {e : ℕ × Effect Head ReqBody}
    (h : e ∈ (b.evaluation id request).map (i, ·)) : e.1 = i := by
  obtain ⟨e', -, rfl⟩ := List.mem_map.mp h
  rfl

/-- The effects of a stack belong to its own positions, up to the refusing layer's. -/
theorem position_of_mem (i : ℕ) (bs : List (Behaviour Head ReqBody ResBody))
    (request : Request Head ReqBody) {e : ℕ × Effect Head ReqBody}
    (h : e ∈ (stackReply answer i bs request).effects) :
    i ≤ e.1 ∧ e.1 ≤ i + (descend bs request).passages.length := by
  induction bs generalizing i request with
  | nil =>
    obtain rfl := List.mem_singleton.mp h
    simp
  | cons b bs ih =>
    cases ho : b.outcome request with
    | error refusal =>
      rw [(stackReply_error ho).1] at h
      have hfst : e.1 = i := by
        rcases List.mem_append.mp h with h | h
        · exact fst_of_mem_evaluation h
        · obtain rfl := List.mem_singleton.mp h
          rfl
      omega
    | ok p =>
      rw [(stackReply_ok ho).1] at h
      rw [descend_ok ho]
      simp only [List.length_cons]
      rcases List.mem_append.mp h with h | h
      · have hfst := fst_of_mem_evaluation h
        omega
      · have hbounds := ih (i + 1) (p.pass request) h
        omega

variable (answer) in
/-- Each layer outside the first refusal charges its store once, unless it skips the request. -/
theorem countP_stackReply (i : ℕ) (bs : List (Behaviour Head ReqBody ResBody))
    (request : Request Head ReqBody) {j : ℕ} {p : Passage}
    (h : (descend bs request).passages[j]? = some p) :
    (stackReply answer i bs request).effects.countP
      (fun e => e.1 = i + j ∧ e.2.isCharge) = p.charges := by
  induction bs generalizing i j request with
  | nil => exact absurd h (by simp [descend])
  | cons b bs ih =>
    cases ho : b.outcome request with
    | error refusal => exact absurd h (by simp [descend_error ho])
    | ok q =>
      rw [descend_ok ho] at h
      rw [(stackReply_ok ho).1, List.countP_append]
      cases j with
      | zero =>
        -- the layer's own effects, and none of those inside it
        have hinside : (stackReply answer (i + 1) bs (q.pass request)).effects.countP
            (fun e => e.1 = i + 0 ∧ e.2.isCharge) = 0 := by
          rw [List.countP_eq_zero]
          intro e he
          have hbounds := position_of_mem (i + 1) bs (q.pass request) he
          simp only [decide_eq_true_eq]
          omega
        have hown : ((b.evaluation id request).map (i, ·)).countP
            (fun e => e.1 = i + 0 ∧ e.2.isCharge) = q.charges := by
          rw [List.countP_map, ← Behaviour.countP_evaluation ho]
          congr 1
          funext e
          simp
        rw [hinside, hown, Nat.add_zero]
        exact congrArg Passage.charges (Option.some.inj h)
      | succ j =>
        -- a layer further in: none of this layer's own effects carry its position
        have hown : ((b.evaluation id request).map (i, ·)).countP
            (fun e => e.1 = i + (j + 1) ∧ e.2.isCharge) = 0 := by
          rw [List.countP_eq_zero]
          intro e he
          have hfst := fst_of_mem_evaluation he
          simp only [decide_eq_true_eq]
          omega
        have hrest := ih (i + 1) (q.pass request) h
        rw [hown, Nat.zero_add, ← hrest]
        congr 1
        funext e
        have : i + (j + 1) = i + 1 + j := by omega
        rw [this]

variable (answer) in
/-- The service is called once if no layer refuses, and not at all otherwise. -/
theorem calls_stackReply (i : ℕ) (bs : List (Behaviour Head ReqBody ResBody))
    (request : Request Head ReqBody) :
    (stackReply answer i bs request).effects.filterMap (·.2.call?) =
      match (descend bs request).refusal with
      | none => [(descend bs request).request]
      | some _ => [] := by
  -- deciding on a request never calls the service
  have hown : ∀ (b : Behaviour Head ReqBody ResBody) (i : ℕ) (r : Request Head ReqBody),
      ((b.evaluation id r).map (i, ·)).filterMap (·.2.call?) = [] := by
    intro b i r
    rw [List.filterMap_map, List.filterMap_eq_nil_iff]
    exact fun e he => Behaviour.call?_of_mem_evaluation he
  induction bs generalizing i request with
  | nil => rfl
  | cons b bs ih =>
    cases ho : b.outcome request with
    | error refusal =>
      rw [(stackReply_error ho).1, descend_error ho, List.filterMap_append, hown]
      rfl
    | ok p =>
      rw [(stackReply_ok ho).1, descend_ok ho, List.filterMap_append, hown, List.nil_append, ih]

/-- Where the way ends: at the service under all layers, or at the layer that refuses. -/
theorem descend_end (bs : List (Behaviour Head ReqBody ResBody)) (request : Request Head ReqBody) :
    match (descend bs request).refusal with
    | none => (descend bs request).passages.length = bs.length
    | some (b, refusal) => bs[(descend bs request).passages.length]? = some b ∧
        b.outcome (descend bs request).request = .error refusal := by
  induction bs generalizing request with
  | nil => rfl
  | cons b bs ih =>
    cases ho : b.outcome request with
    | error refusal =>
      rw [descend_error ho]
      exact ⟨rfl, ho⟩
    | ok p =>
      have hrest := ih (p.pass request)
      rw [descend_ok ho]
      cases hr : (descend bs (p.pass request)).refusal with
      | none =>
        simp only [hr] at hrest
        simp only [List.length_cons, hrest]
      | some refused =>
        simp only [hr] at hrest
        simpa using hrest

end Descend

/-- **Composition of nested limiters.** A request passes the layers outside the first refusal, each
of which charges its store exactly once unless it skips the request. Without a refusal the service
is called once, with the policies of the admitting layers in the context, outermost first, and its
response is returned with the fields of the admitting layers, innermost first. With a refusal the
service is not called, nothing inside the refusing layer is evaluated, and the response is the
factory's, with the fields and one `Retry-After` of the refusing layer if it rejects, followed by
the fields of the admitting layers outside it. The lines carry the documented texts of their
policies, as far as these are header values. -/
theorem nested_limiters_compose (bs : List (Behaviour Head ReqBody ResBody))
    (answer : Request Head ReqBody → Delayed (Except E (Response ResBody)))
    (request : Request Head ReqBody) (w : List (ℕ × Effect Head ReqBody)) :
    let path := descend bs request
    ∃ future inst w₁ n effects,
      (stack answer 0 bs).call request (stackInst answer 0 bs, w) = .ok future (inst, w₁) ∧
      (∀ m > n, ∃ future', drive (stack answer 0 bs).poll m (future, w₁) =
        .ok (some (path.result answer)) (future', w ++ effects)) ∧
      path.request.policies = request.policies ++ path.passages.flatMap Passage.policies ∧
      path.request.head = request.head ∧ path.request.body = request.body ∧
      (∀ j p, path.passages[j]? = some p →
        effects.countP (fun e => e.1 = j ∧ e.2.isCharge) = p.charges) ∧
      path.lines.map (fun line => (line.1, line.2.text)) =
        (path.passages.reverse.flatMap Passage.texts).filter (fun t => t.2.toList.all isHeaderChar) ∧
      match path.refusal with
      | none => path.passages.length = bs.length ∧
          effects.filterMap (·.2.call?) = [path.request]
      | some (b, refusal) => bs[path.passages.length]? = some b ∧
          b.outcome path.request = .error refusal ∧
          effects.filterMap (·.2.call?) = [] ∧
          (∀ e ∈ effects, e.1 ≤ path.passages.length) ∧
          refusal.lines.map (fun line => (line.1, line.2.text)) =
            refusal.texts.filter (fun t => t.2.toList.all isHeaderChar) ∧
          retryAfters (refusal.lines ++ path.lines) =
            match refusal with
            | .rejected _ => 1
            | .errored _ => 0 := by
  intro path
  obtain ⟨future, inst, w₁, hcall, -, hrun⟩ := (stack_serves answer 0 bs request).call w
  have hresult : (stackReply answer 0 bs request).result = path.result answer :=
    stackReply_result 0 bs request
  have hcalls := calls_stackReply answer 0 bs request
  have hend := descend_end bs request
  obtain ⟨hpolicies, hhead, hbody⟩ := descend_request bs request
  refine ⟨future, inst, w₁, (stackReply answer 0 bs request).pending,
    (stackReply answer 0 bs request).effects, hcall, fun m hm => ?_, hpolicies, hhead, hbody,
    fun j p hp => ?_, path.map_lines, ?_⟩
  · rw [← hresult]
    exact hrun.drive_of_lt hm
  · simpa using countP_stackReply answer 0 bs request hp
  · cases hr : path.refusal with
    | none =>
      have hr' : (descend bs request).refusal = none := hr
      simp only [hr'] at hcalls hend
      exact ⟨hend, hcalls⟩
    | some refused =>
      obtain ⟨b, refusal⟩ := refused
      have hr' : (descend bs request).refusal = some (b, refusal) := hr
      simp only [hr'] at hcalls hend
      refine ⟨hend.1, hend.2, hcalls, fun e he => ?_, map_textLines _, ?_⟩
      · exact (position_of_mem 0 bs request he).2.trans_eq (Nat.zero_add _)
      · rw [retryAfters_append, Path.lines, retryAfters_passages]
        cases refusal with
        | rejected metadata => rw [retryAfters_rejected]
        | errored e => rfl

end TowerRateLimiter
