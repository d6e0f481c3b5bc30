import TowerRateLimiter.Limiter.Response

/-!
# What a layer adds

An admitted request gains a policy in its context, a response to a charged request gains header
lines. Here both are said without the functions that compute them, from the numbers and texts that
`docs/rate-limit-fields.md` shows: natural numbers in place of the code's saturating `u64`s, and the
lines of a response as names and texts. `appendContext_eq`, `fieldLines_eq` and `retryAfterLine_eq`
say that the code adds just that.
-/

namespace TowerRateLimiter

open Rust

/-! ## Requests -/

/-- The request an admitting layer hands on: the policies it came with, if any, and then the policy,
with nothing else changed. -/
def Request.withPolicy {Head Body : Type} (request : Request Head Body) (policy : Policy) :
    Request Head Body :=
  match request.context with
  | none => ⟨request.head, some ⟨[policy]⟩, request.body⟩
  | some context => ⟨request.head, some ⟨context.policies ++ [policy]⟩, request.body⟩

/-- The code pushes the policy to the context. -/
theorem appendContext_eq {Head Body : Type} (request : Request Head Body)
    (metadata : ResponseMetadata) :
    appendContext request metadata = request.withPolicy metadata.policy := by
  unfold appendContext Request.withPolicy
  cases request.context <;> rfl

@[simp] theorem Request.policies_withPolicy {Head Body : Type} (request : Request Head Body)
    (policy : Policy) : (request.withPolicy policy).policies = request.policies ++ [policy] := by
  rw [← appendContext_eq request ⟨policy, .disabled⟩, policies_appendContext]

theorem Request.head_withPolicy {Head Body : Type} (request : Request Head Body)
    (policy : Policy) : (request.withPolicy policy).head = request.head ∧
      (request.withPolicy policy).body = request.body := by
  unfold Request.withPolicy
  cases request.context <;> exact ⟨rfl, rfl⟩

/-! ## Header texts -/

/-- Whole seconds, rounded up, at least one and at most the largest `u64`. -/
def wholeSeconds (d : Duration) : ℕ :=
  max 1 (min 18446744073709551615 ((d.nanos + 999999999) / 1000000000))

theorem toNat_ceilSeconds_eq (d : Duration) :
    (ceilSeconds d).toNat = wholeSeconds d := by
  rw [toNat_ceilSeconds, wholeSeconds, max_comm 1, min_comm 18446744073709551615]
  rfl

namespace Policy

/-- What is left of the limit. -/
def left (p : Policy) : ℕ := p.limit.toNat - p.used.toNat

/-- The names and texts of the fields that advertise a policy. -/
def fieldTexts (p : Policy) : RateLimitFields → List (String × String)
  | .draft7 =>
      [("ratelimit-policy", toString p.limit.toNat ++ ";w=" ++ toString (wholeSeconds p.window)),
        ("ratelimit", "limit=" ++ toString p.limit.toNat ++ ", remaining=" ++ toString p.left ++
          ", reset=" ++ toString (wholeSeconds p.resetAfter))]
  | .draft11 =>
      [("ratelimit-policy", "\"" ++ p.name ++ "\";q=" ++ toString p.limit.toNat ++ ";w=" ++
          toString (wholeSeconds p.window)),
        ("ratelimit", "\"" ++ p.name ++ "\";r=" ++ toString p.left ++ ";t=" ++
          toString (wholeSeconds p.resetAfter))]
  | .disabled => []

/-- The name and text of the line that tells a refused client when to come back. -/
def retryAfterText (p : Policy) : String × String :=
  ("retry-after", toString (wholeSeconds p.resetAfter))

end Policy

/-- The header line of a name and a text. A text that is no header value has no line. -/
def textLine : String × String → HeaderMap
  | (name, text) => if h : text.toList.all isHeaderChar = true then [(name, ⟨text, h⟩)] else []

/-- The header lines of names and texts. -/
def textLines (texts : List (String × String)) : HeaderMap := texts.flatMap textLine

theorem textLines_append (t₁ t₂ : List (String × String)) :
    textLines (t₁ ++ t₂) = textLines t₁ ++ textLines t₂ :=
  List.flatMap_append

/-- Read as names and texts, the lines are the texts that are header values. -/
theorem map_textLines (texts : List (String × String)) :
    (textLines texts).map (fun line => (line.1, line.2.text)) =
      texts.filter fun t => t.2.toList.all isHeaderChar := by
  induction texts with
  | nil => rfl
  | cons t texts ih =>
    rw [textLines, List.flatMap_cons, List.map_append, ← textLines, ih, textLine]
    split
    next h => rw [List.filter_cons, if_pos h, List.map_singleton, List.singleton_append]
    next h => rw [List.filter_cons, if_neg h, List.map_nil, List.nil_append]

theorem headerLine_eq (name text : String) : headerLine name text = textLine (name, text) := by
  by_cases h : text.toList.all isHeaderChar = true
  · simp only [headerLine, HeaderValue.fromStr, textLine, dif_pos h]
    rfl
  · simp only [headerLine, HeaderValue.fromStr, textLine, dif_neg h]
    rfl

-- A `u64` is printed as the number it is, so the texts can be compared number by number.
theorem toString_eq_of_toNat {n : UInt64} {m : ℕ} (h : n.toNat = m) : toString n = toString m := by
  rw [← h]
  rfl

/-- **The fields have the documented texts.** -/
theorem fieldLines_eq (metadata : ResponseMetadata) :
    fieldLines metadata = textLines (metadata.policy.fieldTexts metadata.fields) := by
  have hlimit := toString_eq_of_toNat (rfl : metadata.policy.limit.toNat = _)
  have hleft := toString_eq_of_toNat metadata.policy.toNat_remaining
  have hreset := toString_eq_of_toNat (toNat_ceilSeconds_eq metadata.policy.resetAfter)
  have hwindow := toString_eq_of_toNat (toNat_ceilSeconds_eq metadata.policy.window)
  unfold fieldLines formatRateLimitFields Policy.fieldTexts
  cases metadata.fields with
  | draft7 =>
    simp only [hlimit, hleft, hreset, hwindow, headerLine_eq, textLines, List.flatMap_cons,
      List.flatMap_nil, List.append_nil]
    rfl
  | draft11 =>
    simp only [hlimit, hleft, hreset, hwindow, headerLine_eq, textLines, List.flatMap_cons,
      List.flatMap_nil, List.append_nil]
    rfl
  | disabled => rfl

/-- The `Retry-After` line has the documented text. -/
theorem retryAfterLine_eq (metadata : ResponseMetadata) :
    retryAfterLine metadata = textLines [metadata.policy.retryAfterText] := by
  have hreset := toString_eq_of_toNat (toNat_ceilSeconds_eq metadata.policy.resetAfter)
  rw [retryAfterLine, headerLine_eq, hreset, textLines, List.flatMap_singleton]
  rfl

/-! ## Responses -/

/-- The response of the inner service to an admitted request gets the fields. -/
theorem appendInnerResponseHeaders_texts {Body : Type} (response : Response Body)
    (metadata : ResponseMetadata) :
    appendInnerResponseHeaders response (some metadata) =
      response.withLines (textLines (metadata.policy.fieldTexts metadata.fields)) := by
  rw [← fieldLines_eq]
  exact appendRateLimitFields_eq response metadata

/-- A rate-limited response gets the fields and then `Retry-After`. -/
theorem appendRateLimitedResponseHeaders_texts {Body : Type} (response : Response Body)
    (metadata : ResponseMetadata) :
    appendRateLimitedResponseHeaders response metadata =
      response.withLines (textLines
        (metadata.policy.fieldTexts metadata.fields ++ [metadata.policy.retryAfterText])) := by
  rw [appendRateLimitedResponseHeaders_eq, textLines_append, ← fieldLines_eq, ← retryAfterLine_eq]

end TowerRateLimiter
