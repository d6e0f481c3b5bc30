import TowerRateLimiter.Common.Task
import TowerRateLimiter.Limiter.Policy

/-!
# Middleware responses and Rate Limit Fields

`limiter/response.rs`: the response the middleware builds before the inner service is called, and
the fields it appends to it or to the inner service's response. `appendRateLimitFields_eq` and
`appendRateLimitedResponseHeaders_eq` say what is appended as lists of header lines, so that later
results about stacks of layers are about appending lists.
-/

namespace TowerRateLimiter

open Rust

/-! ## Headers -/

/-- `http::HeaderName`, in its canonical lower-case spelling. -/
abbrev HeaderName := String

/-- The `RateLimit` header name. -/
def rateLimit : HeaderName := "ratelimit"

/-- The `RateLimit-Policy` header name. -/
def rateLimitPolicy : HeaderName := "ratelimit-policy"

/-- The `Retry-After` header name. -/
def retryAfter : HeaderName := "retry-after"

/-- A character all of whose UTF-8 bytes `HeaderValue` accepts: bytes from 32 on other than 127, and
the tab. Bytes of characters beyond ASCII are all at least 128. -/
def isHeaderChar (c : Char) : Bool := (32 ≤ c.toNat && c.toNat != 127) || c = '\t'

/-- `http::HeaderValue`: text that passed the byte check. -/
@[ext]
structure HeaderValue where
  text : String
  valid : text.toList.all isHeaderChar = true
deriving DecidableEq

/-- `HeaderValue::from_str`. -/
def HeaderValue.fromStr (text : String) : Option HeaderValue :=
  if h : text.toList.all isHeaderChar = true then some ⟨text, h⟩ else none

/-- `http::HeaderMap`: header lines in the order in which they were appended. -/
abbrev HeaderMap := List (HeaderName × HeaderValue)

/-- The values of one header, in order. -/
def HeaderMap.getAll (headers : HeaderMap) (name : HeaderName) : List HeaderValue :=
  (headers.filter (·.1 = name)).map Prod.snd

@[simp] theorem HeaderMap.getAll_append (h₁ h₂ : HeaderMap) (name : HeaderName) :
    HeaderMap.getAll (h₁ ++ h₂) name = HeaderMap.getAll h₁ name ++ HeaderMap.getAll h₂ name := by
  simp [HeaderMap.getAll]

/-- `http::Response`, with the parts the middleware reads or writes. -/
@[ext]
structure Response (Body : Type) where
  status : ℕ
  headers : HeaderMap
  body : Body

/-! ## Reasons and the default factory -/

/-- The structured reason passed to a response factory. -/
inductive ResponseReason where
  | rateLimited (policy : Policy)
  | error (error : RateLimitError)
deriving DecidableEq

/-- `ResponseReason::status_code`. -/
def ResponseReason.statusCode : ResponseReason → ℕ
  | .rateLimited _ => 429
  | .error (.key _ _) | .error (.quota _ _) => 500
  | .error (.store _ _) => 503

/-- `DefaultResponseFactory::build`: an empty body with the reason's status. -/
def defaultBuild {Head ReqBody ResBody : Type} [Inhabited ResBody] (_request : Request Head ReqBody)
    (reason : ResponseReason) : Response ResBody where
  status := reason.statusCode
  headers := []
  body := default

/-! ## Fields -/

/-- `ceil_seconds`: whole seconds rounded up, at least one. -/
def ceilSeconds (d : Duration) : UInt64 :=
  max (saturatingAdd d.asSecs (if d.subsecNanos ≠ 0 then 1 else 0)) 1

theorem toNat_max (a b : UInt64) : (max a b).toNat = max a.toNat b.toNat := by
  show (if a ≤ b then b else a).toNat = max a.toNat b.toNat
  have hle : a ≤ b ↔ a.toNat ≤ b.toNat := UInt64.le_iff_toNat_le
  split
  next h => rw [max_eq_right (hle.mp h)]
  next h => rw [max_eq_left (Nat.le_of_not_le (h ∘ hle.mpr))]

theorem toNat_asSecs (d : Duration) : d.asSecs.toNat = d.nanos / nanosPerSec := by
  have hlt : d.nanos / nanosPerSec < 2 ^ 64 :=
    Nat.div_lt_of_lt_mul (by rw [Nat.mul_comm]; exact d.inRange)
  rw [Duration.asSecs, UInt64.toNat_ofNat', Nat.mod_eq_of_lt hlt]

/-- Rounding up, as a number: saturated at `u64::MAX` and at least one. -/
theorem toNat_ceilSeconds (d : Duration) : (ceilSeconds d).toNat =
    max (min ((d.nanos + (nanosPerSec - 1)) / nanosPerSec) u64Max) 1 := by
  have hround : d.nanos / nanosPerSec + (if d.subsecNanos ≠ 0 then (1 : UInt64) else 0).toNat =
      (d.nanos + (nanosPerSec - 1)) / nanosPerSec := by
    by_cases hsub : d.subsecNanos ≠ 0
    · rw [if_pos hsub, UInt64.toNat_one]
      simp only [Duration.subsecNanos, nanosPerSec] at hsub ⊢
      omega
    · rw [if_neg hsub, UInt64.toNat_zero]
      simp only [Duration.subsecNanos, nanosPerSec] at hsub ⊢
      omega
  rw [ceilSeconds, toNat_max, toNat_saturatingAdd, toNat_asSecs, hround]
  rfl

theorem one_le_ceilSeconds (d : Duration) : 1 ≤ (ceilSeconds d).toNat := by
  rw [toNat_ceilSeconds]
  exact le_max_right _ _

/-- A longer duration is not rounded to fewer seconds. -/
theorem ceilSeconds_mono {d d' : Duration} (h : d.nanos ≤ d'.nanos) :
    (ceilSeconds d).toNat ≤ (ceilSeconds d').toNat := by
  rw [toNat_ceilSeconds, toNat_ceilSeconds]
  have hdiv : (d.nanos + (nanosPerSec - 1)) / nanosPerSec ≤
      (d'.nanos + (nanosPerSec - 1)) / nanosPerSec :=
    Nat.div_le_div_right (Nat.add_le_add_right h _)
  exact max_le_max_right _ (min_le_min_right _ hdiv)

/-- Between two instants nothing saturates: the rounded seconds cover the duration, and one second
less does not, unless it is the only one. -/
theorem ceilSeconds_tight {d : Duration} (h : d.nanos < instantEnd) :
    d.nanos ≤ (ceilSeconds d).toNat * nanosPerSec ∧
      ((ceilSeconds d).toNat = 1 ∨ ((ceilSeconds d).toNat - 1) * nanosPerSec < d.nanos) := by
  rw [toNat_ceilSeconds]
  simp only [instantEnd, nanosPerSec, u64Max] at h ⊢
  omega

/-- `format_rate_limit_fields`: the `RateLimit-Policy` and `RateLimit` values of the configured
revision. -/
def formatRateLimitFields (metadata : ResponseMetadata) : Option (String × String) :=
  let limit := toString metadata.policy.limit
  let remaining := toString metadata.policy.remaining
  let resetAfter := toString (ceilSeconds metadata.policy.resetAfter)
  let window := toString (ceilSeconds metadata.policy.window)
  match metadata.fields with
  | .draft7 =>
      some (limit ++ ";w=" ++ window,
        "limit=" ++ limit ++ ", remaining=" ++ remaining ++ ", reset=" ++ resetAfter)
  | .draft11 =>
      some ("\"" ++ metadata.policy.name ++ "\";q=" ++ limit ++ ";w=" ++ window,
        "\"" ++ metadata.policy.name ++ "\";r=" ++ remaining ++ ";t=" ++ resetAfter)
  | .disabled => none

variable {Body : Type}

/-- `append_header`: a value the header type refuses is dropped. -/
def appendHeader (response : Response Body) (name : HeaderName) (value : String) : Response Body :=
  match HeaderValue.fromStr value with
  | some value => { response with headers := response.headers ++ [(name, value)] }
  | none => response

/-- `append_rate_limit_fields`. -/
def appendRateLimitFields (response : Response Body) (metadata : ResponseMetadata) :
    Response Body :=
  match formatRateLimitFields metadata with
  | none => response
  | some (policy, fields) =>
      appendHeader (appendHeader response rateLimitPolicy policy) rateLimit fields

/-- `append_rate_limited_response_headers`. -/
def appendRateLimitedResponseHeaders (response : Response Body) (metadata : ResponseMetadata) :
    Response Body :=
  appendHeader (appendRateLimitFields response metadata) retryAfter
    (toString (ceilSeconds metadata.policy.resetAfter))

/-- `append_inner_response_headers`. -/
def appendInnerResponseHeaders (response : Response Body) (metadata : Option ResponseMetadata) :
    Response Body :=
  match metadata with
  | some metadata => appendRateLimitFields response metadata
  | none => response

/-! ## Responses produced before the inner service is called -/

/-- A response produced by the middleware, built only in the future's ready state. -/
inductive MiddlewareResponse (Head ReqBody : Type) where
  | rateLimited (request : Request Head ReqBody) (metadata : ResponseMetadata)
  | error (request : Request Head ReqBody) (error : RateLimitError)

variable {σ Head ReqBody ResBody : Type}

/-- `MiddlewareResponse::finalize`: build the response and decorate it. -/
def MiddlewareResponse.finalize
    (build : Request Head ReqBody → ResponseReason → Eff σ (Response ResBody)) :
    MiddlewareResponse Head ReqBody → Eff σ (Response ResBody)
  | .rateLimited request metadata => do
      let response ← build request (.rateLimited metadata.policy)
      return appendRateLimitedResponseHeaders response metadata
  | .error request e => build request (.error e)

/-! ## What is appended -/

/-- The header line of a value, unless the header type refuses it. -/
def headerLine (name : HeaderName) (value : String) : HeaderMap :=
  (HeaderValue.fromStr value).toList.map fun value => (name, value)

/-- The field lines a layer appends for one charged policy. -/
def fieldLines (metadata : ResponseMetadata) : HeaderMap :=
  match formatRateLimitFields metadata with
  | none => []
  | some (policy, fields) => headerLine rateLimitPolicy policy ++ headerLine rateLimit fields

theorem getAll_headerLine_of_ne {name name' : HeaderName} (value : String) (h : name ≠ name') :
    HeaderMap.getAll (headerLine name value) name' = [] := by
  unfold headerLine HeaderMap.getAll
  cases HeaderValue.fromStr value <;> simp [h]

/-- The field lines bring no `Retry-After`. -/
theorem getAll_fieldLines_retryAfter (metadata : ResponseMetadata) :
    HeaderMap.getAll (fieldLines metadata) retryAfter = [] := by
  unfold fieldLines
  split
  · rfl
  · rw [HeaderMap.getAll_append, getAll_headerLine_of_ne _ (by decide),
      getAll_headerLine_of_ne _ (by decide), List.append_nil]

/-- A response with header lines appended. -/
def Response.withLines (response : Response Body) (lines : HeaderMap) : Response Body :=
  { response with headers := response.headers ++ lines }

@[simp] theorem Response.withLines_nil (response : Response Body) :
    response.withLines [] = response := by
  simp [Response.withLines]

@[simp] theorem Response.withLines_withLines (response : Response Body) (l₁ l₂ : HeaderMap) :
    (response.withLines l₁).withLines l₂ = response.withLines (l₁ ++ l₂) := by
  simp [Response.withLines]

theorem appendHeader_eq (response : Response Body) (name : HeaderName) (value : String) :
    appendHeader response name value = response.withLines (headerLine name value) := by
  unfold appendHeader headerLine
  split
  · rename_i h
    simp [h, Response.withLines]
  · rename_i h
    simp [h]

/-- A layer appends exactly its field lines. -/
theorem appendRateLimitFields_eq (response : Response Body) (metadata : ResponseMetadata) :
    appendRateLimitFields response metadata = response.withLines (fieldLines metadata) := by
  unfold appendRateLimitFields fieldLines
  split
  · simp
  · simp [appendHeader_eq]

/-- Decimal digits pass the header check. -/
theorem isHeaderChar_of_isDigit {c : Char} (h : c.isDigit = true) : isHeaderChar c = true := by
  simp only [Char.isDigit, Bool.and_eq_true, decide_eq_true_eq, UInt32.le_iff_toNat_le,
    ge_iff_le] at h
  have hle : 48 ≤ c.toNat ∧ c.toNat ≤ 57 := h
  simp only [isHeaderChar, Bool.or_eq_true, Bool.and_eq_true, decide_eq_true_eq, bne_iff_ne]
  omega

/-- A decimal number is a header value. -/
theorem fromStr_toString (n : UInt64) : ∃ v, HeaderValue.fromStr (toString n) = some v ∧
    v.text = toString n := by
  have hvalid : (toString n).toList.all isHeaderChar = true := by
    rw [List.all_eq_true]
    intro c hc
    have htext : (toString n).toList = Nat.toDigits 10 n.toNat := Nat.toList_repr
    rw [htext] at hc
    exact isHeaderChar_of_isDigit (Nat.isDigit_of_mem_toDigits (by decide) (by decide) hc)
  exact ⟨⟨toString n, hvalid⟩, dif_pos hvalid, rfl⟩

/-- The `Retry-After` line of a rate-limited response. -/
def retryAfterLine (metadata : ResponseMetadata) : HeaderMap :=
  headerLine retryAfter (toString (ceilSeconds metadata.policy.resetAfter))

/-- There is always exactly one `Retry-After` line, whatever the reset duration. -/
theorem exists_retryAfterLine (metadata : ResponseMetadata) : ∃ v : HeaderValue,
    retryAfterLine metadata = [(retryAfter, v)] ∧
      v.text = toString (ceilSeconds metadata.policy.resetAfter) := by
  obtain ⟨v, hv, htext⟩ := fromStr_toString (ceilSeconds metadata.policy.resetAfter)
  exact ⟨v, by simp [retryAfterLine, headerLine, hv], htext⟩

/-- A rate-limited response gets the field lines and then the `Retry-After` line. -/
theorem appendRateLimitedResponseHeaders_eq (response : Response Body)
    (metadata : ResponseMetadata) :
    appendRateLimitedResponseHeaders response metadata =
      response.withLines (fieldLines metadata ++ retryAfterLine metadata) := by
  rw [appendRateLimitedResponseHeaders, appendHeader_eq, appendRateLimitFields_eq,
    Response.withLines_withLines, retryAfterLine]

/-- A rate-limited response gets one more `Retry-After`, with the rounded reset duration. -/
theorem getAll_retryAfter_rateLimited (response : Response Body) (metadata : ResponseMetadata) :
    (HeaderMap.getAll (appendRateLimitedResponseHeaders response metadata).headers
        retryAfter).map HeaderValue.text =
      (HeaderMap.getAll response.headers retryAfter).map HeaderValue.text ++
        [toString (ceilSeconds metadata.policy.resetAfter)] := by
  obtain ⟨v, hline, htext⟩ := exists_retryAfterLine metadata
  have hself : HeaderMap.getAll [(retryAfter, v)] retryAfter = [v] := rfl
  rw [appendRateLimitedResponseHeaders_eq, Response.withLines, HeaderMap.getAll_append,
    HeaderMap.getAll_append, getAll_fieldLines_retryAfter, hline, hself, List.nil_append,
    List.map_append, List.map_singleton, htext]

/-- Without metadata the inner response is returned as it is. -/
theorem map_appendInnerResponseHeaders_none {E : Type} (result : Except E (Response Body)) :
    result.map (appendInnerResponseHeaders · none) = result := by
  cases result <;> rfl

/-- With metadata a successful inner response gets the field lines. -/
theorem map_appendInnerResponseHeaders_some {E : Type} (result : Except E (Response Body))
    (metadata : ResponseMetadata) :
    result.map (appendInnerResponseHeaders · (some metadata)) =
      result.map (·.withLines (fieldLines metadata)) := by
  have hfun : (appendInnerResponseHeaders · (some metadata)) =
      fun response : Response Body => response.withLines (fieldLines metadata) := by
    funext response
    exact appendRateLimitFields_eq response metadata
  rw [hfun]

end TowerRateLimiter
