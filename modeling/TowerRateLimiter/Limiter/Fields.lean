import TowerRateLimiter.Common.StructuredFields
import TowerRateLimiter.Limiter.Builder

/-!
# Rate Limit Fields, read back

What a client reads from the fields of a charged request, with the grammar of structured fields.
The policy name is written between quotes as it is, numbers are written with all their digits, and
`append_header` drops a line that is no header value. `build` bounds none of this, so a client reads
the policy back exactly under `Representable`:

* `chargedResponse_decodes_iff`: both fields are there and are read as the policy exactly if the
  numbers have at most 15 digits and, in Draft 11, every character of the name stands for itself in
  a string.
-/

namespace TowerRateLimiter

open Rust StructuredFields ResponseFuture

variable {σ Head ReqBody ResBody Body : Type}

/-! ## The response to a charged request -/

/-- The response to a charged request: the factory's if it is rate limited, the inner service's
otherwise. -/
def chargedResponse (response : Response Body) (metadata : ResponseMetadata) : Response Body :=
  if metadata.policy.isRateLimited then appendRateLimitedResponseHeaders response metadata
  else appendInnerResponseHeaders response (some metadata)

section Future

variable {E : Type} {Inner : Service σ (Request Head ReqBody) (Response ResBody) E} {S : Store σ}
  {P : LimitProvider σ Head ReqBody} {this this' : ResponseFuture Inner S P}
  {metadata : ResponseMetadata} {w w' : σ}

/-- The request was charged with the metadata and its future has not returned. -/
def AwaitsResponse (this : ResponseFuture Inner S P) (metadata : ResponseMetadata) : Prop :=
  (metadata.policy.isRateLimited = true ∧
      ∃ request, this.state = .ready (.rateLimited request metadata)) ∨
    (metadata.policy.isRateLimited = false ∧ ∃ future, this.state = .inner future (some metadata))

/-- A successful charge leads to such a state. -/
theorem awaitsResponse_of_afterStore {request : Request Head ReqBody} {limit : UInt64}
    {result : Except RateLimitError Usage} {policy : Policy}
    (h : chargedPolicy this.config limit result = .ok policy)
    (hafter : afterStore this.config request limit result
      (({ this with state := .done } : ResponseFuture Inner S P), w) = .ok () (this', w')) :
    AwaitsResponse this' ⟨policy, this.config.rateLimitFields⟩ := by
  rw [afterStore_ok this _ _ h] at hafter
  split at hafter
  next hlimited =>
    cases hafter
    exact .inl ⟨hlimited, request, rfl⟩
  next hallowed =>
    split at hafter
    · exact absurd hafter (by simp)
    · cases hafter
      exact .inr ⟨Bool.eq_false_of_not_eq_true hallowed, _, rfl⟩

/-- A charged request is answered with its charged response, unless the inner service fails. -/
theorem AwaitsResponse.poll (h : AwaitsResponse this metadata)
    {result : Poll (Except E (Response ResBody))}
    (hpoll : ResponseFuture.poll (this, w) = .ok result (this', w')) :
    (result = .pending ∧ AwaitsResponse this' metadata) ∨ (∃ e, result = .ready (.error e)) ∨
      ∃ response, result = .ready (.ok (chargedResponse response metadata)) := by
  rcases h with ⟨hlimited, request, hs⟩ | ⟨hallowed, future, hs⟩
  · have hstep := step_ready (w := w) hs
    rcases hbuild : this.factory request (.rateLimited metadata.policy) w with
      ⟨response, w₁⟩ | ⟨p, w₁⟩
    · have hfinal : (MiddlewareResponse.rateLimited request metadata).finalize this.factory w =
          .ok (chargedResponse response metadata) w₁ := by
        simp only [MiddlewareResponse.finalize, bind, EStateM.bind, hbuild, chargedResponse,
          if_pos hlimited]
        rfl
      rw [hfinal] at hstep
      rw [poll_of_some hstep] at hpoll
      cases hpoll
      exact .inr (.inr ⟨response, rfl⟩)
    · have hfinal : (MiddlewareResponse.rateLimited request metadata).finalize this.factory w =
          .error p w₁ := by
        simp only [MiddlewareResponse.finalize, bind, EStateM.bind, hbuild]
      rw [hfinal] at hstep
      exact absurd ((poll_of_error hstep).symm.trans hpoll) (by simp)
  · have hstep := step_inner (w := w) hs
    rcases hinner : Inner.poll (future, w) with ⟨_ | _ | response, future', w₁⟩ | ⟨p, future', w₁⟩
    · rw [hinner] at hstep
      rw [poll_of_some hstep] at hpoll
      cases hpoll
      exact .inl ⟨rfl, .inr ⟨hallowed, future', rfl⟩⟩
    · rw [hinner] at hstep
      rw [poll_of_some hstep] at hpoll
      cases hpoll
      exact .inr (.inl ⟨_, rfl⟩)
    · rw [hinner] at hstep
      rw [poll_of_some hstep] at hpoll
      cases hpoll
      refine .inr (.inr ⟨response, ?_⟩)
      rw [chargedResponse, if_neg (by rw [hallowed]; decide)]
      rfl
    · rw [hinner] at hstep
      exact absurd ((poll_of_error hstep).symm.trans hpoll) (by simp)

end Future

/-- The lines that a charged request adds to a response. -/
theorem chargedResponse_headers (response : Response Body) (metadata : ResponseMetadata) :
    (chargedResponse response metadata).headers =
      response.headers ++ (fieldLines metadata ++
        if metadata.policy.isRateLimited then retryAfterLine metadata else []) := by
  unfold chargedResponse
  split
  · rw [appendRateLimitedResponseHeaders_eq]
    rfl
  · rw [List.append_nil]
    show (appendRateLimitFields response metadata).headers = _
    rw [appendRateLimitFields_eq]
    rfl

theorem getAll_headerLine (name : HeaderName) (value : String) :
    HeaderMap.getAll (headerLine name value) name = (HeaderValue.fromStr value).toList := by
  unfold headerLine HeaderMap.getAll
  cases HeaderValue.fromStr value <;> simp

/-- The values of the two fields in the response to a charged request. -/
theorem getAll_chargedResponse {metadata : ResponseMetadata} {policy fields : String}
    (h : formatRateLimitFields metadata = some (policy, fields)) (response : Response Body) :
    HeaderMap.getAll (chargedResponse response metadata).headers rateLimitPolicy =
        HeaderMap.getAll response.headers rateLimitPolicy ++ (HeaderValue.fromStr policy).toList ∧
      HeaderMap.getAll (chargedResponse response metadata).headers rateLimit =
        HeaderMap.getAll response.headers rateLimit ++ (HeaderValue.fromStr fields).toList := by
  have hretry : ∀ name, retryAfter ≠ name → HeaderMap.getAll
      (if metadata.policy.isRateLimited then retryAfterLine metadata else []) name = [] := by
    intro name hname
    split
    · exact getAll_headerLine_of_ne _ hname
    · rfl
  have hlines : fieldLines metadata =
      headerLine rateLimitPolicy policy ++ headerLine rateLimit fields := by
    rw [fieldLines, h]
  rw [chargedResponse_headers, hlines]
  constructor
  · rw [HeaderMap.getAll_append, HeaderMap.getAll_append, HeaderMap.getAll_append,
      hretry _ (by decide), getAll_headerLine, getAll_headerLine_of_ne _ (by decide),
      List.append_nil, List.append_nil]
  · rw [HeaderMap.getAll_append, HeaderMap.getAll_append, HeaderMap.getAll_append,
      hretry _ (by decide), getAll_headerLine, getAll_headerLine_of_ne _ (by decide),
      List.append_nil, List.nil_append]

/-! ## Reading the fields -/

namespace Policy

variable (p : Policy)

/-- The two fields are read as the policy: in Draft 11 as one named item each, in Draft 7 as the
limit with its window and as a dictionary. -/
def ReadFrom (policy fields : String) : RateLimitFields → Prop
  | .draft11 =>
      parseListField policy = some [.item ⟨.string p.name,
        [("q", .integer p.limit.toNat), ("w", .integer (ceilSeconds p.window).toNat)]⟩] ∧
      parseListField fields = some [.item ⟨.string p.name,
        [("r", .integer p.remaining.toNat), ("t", .integer (ceilSeconds p.resetAfter).toNat)]⟩]
  | .draft7 =>
      parseItemField policy = some ⟨.integer p.limit.toNat,
        [("w", .integer (ceilSeconds p.window).toNat)]⟩ ∧
      parseDictionaryField fields = some
        [("limit", .item ⟨.integer p.limit.toNat, []⟩),
         ("remaining", .item ⟨.integer p.remaining.toNat, []⟩),
         ("reset", .item ⟨.integer (ceilSeconds p.resetAfter).toNat, []⟩)]
  -- nothing is written
  | .disabled => False

/-- The numbers of a policy have at most 15 digits. -/
def Fits : Prop :=
  p.limit.toNat < integerEnd ∧ (ceilSeconds p.window).toNat < integerEnd ∧
    (ceilSeconds p.resetAfter).toNat < integerEnd

end Policy

/-! ## What the fields look like -/

theorem toList_toString (n : UInt64) : (toString n).toList = digits n.toNat := Nat.toList_repr

namespace Policy

variable {p : Policy}

theorem Fits.remaining (h : p.Fits) : p.remaining.toNat < integerEnd := by
  rw [toNat_remaining]
  exact Nat.lt_of_le_of_lt (Nat.sub_le _ _) h.1

/-- Draft 11 fields are read as the policy exactly if it fits and its name needs no escapes. -/
theorem readFrom_draft11_iff {policy fields : String}
    (h : formatRateLimitFields ⟨p, .draft11⟩ = some (policy, fields)) :
    p.ReadFrom policy fields .draft11 ↔ p.Fits ∧ p.name.toList.all isPlain = true := by
  obtain ⟨hpolicy, hfields⟩ := Prod.mk.inj (Option.some.inj h)
  have hpolicyText : policy.toList = '\"' :: (p.name.toList ++ '\"' ::
      parametersText [("q", p.limit.toNat), ("w", (ceilSeconds p.window).toNat)]) := by
    simp [← hpolicy, toList_toString, parametersText, NumericEntry.text]
  have hfieldsText : fields.toList = '\"' :: (p.name.toList ++ '\"' ::
      parametersText [("r", p.remaining.toNat), ("t", (ceilSeconds p.resetAfter).toNat)]) := by
    simp [← hfields, toList_toString, parametersText, NumericEntry.text]
  have hpolicyRead := parseListField_string_iff hpolicyText
    (isKey_of_mem (show ["q", "w"].all isKey = true by decide))
  have hfieldsRead := parseListField_string_iff hfieldsText
    (isKey_of_mem (show ["r", "t"].all isKey = true by decide))
  rw [List.forall_mem_cons, List.forall_mem_singleton] at hpolicyRead hfieldsRead
  constructor
  · rintro ⟨hreadPolicy, hreadFields⟩
    obtain ⟨hplain, hlimit, hwindow⟩ := hpolicyRead.mp hreadPolicy
    obtain ⟨-, -, hreset⟩ := hfieldsRead.mp hreadFields
    exact ⟨⟨hlimit, hwindow, hreset⟩, hplain⟩
  · rintro ⟨hfits, hplain⟩
    exact ⟨hpolicyRead.mpr ⟨hplain, hfits.1, hfits.2.1⟩,
      hfieldsRead.mpr ⟨hplain, hfits.remaining, hfits.2.2⟩⟩

/-- Draft 7 fields are read as the policy exactly if it fits. -/
theorem readFrom_draft7_iff {policy fields : String}
    (h : formatRateLimitFields ⟨p, .draft7⟩ = some (policy, fields)) :
    p.ReadFrom policy fields .draft7 ↔ p.Fits := by
  obtain ⟨hpolicy, hfields⟩ := Prod.mk.inj (Option.some.inj h)
  have hpolicyText : policy.toList =
      digits p.limit.toNat ++ parametersText [("w", (ceilSeconds p.window).toNat)] := by
    simp [← hpolicy, toList_toString, parametersText, NumericEntry.text]
  have hfieldsText : fields.toList = NumericEntry.text ("limit", p.limit.toNat) ++
      furtherText [("remaining", p.remaining.toNat),
        ("reset", (ceilSeconds p.resetAfter).toNat)] := by
    simp [← hfields, toList_toString, furtherText, NumericEntry.text]
  have hpolicyRead := parseItemField_digits hpolicyText
    (isKey_of_mem (show ["w"].all isKey = true by decide))
  have hfieldsRead := parseDictionaryField_entries hfieldsText
    (isKey_of_mem (show ["limit", "remaining", "reset"].all isKey = true by decide))
  simp only [List.forall_mem_cons, List.not_mem_nil, false_implies, implies_true, and_true]
    at hpolicyRead hfieldsRead
  constructor
  · rintro ⟨hreadPolicy, hreadFields⟩
    rw [hpolicyRead, Option.ite_none_right_eq_some] at hreadPolicy
    rw [hfieldsRead, Option.ite_none_right_eq_some] at hreadFields
    obtain ⟨⟨hlimit, hwindow⟩, -⟩ := hreadPolicy
    obtain ⟨⟨-, -, hreset⟩, -⟩ := hreadFields
    exact ⟨hlimit, hwindow, hreset⟩
  · intro hfits
    exact ⟨hpolicyRead.trans (if_pos ⟨hfits.1, hfits.2.1⟩),
      hfieldsRead.trans (if_pos ⟨hfits.1, hfits.remaining, hfits.2.2⟩)⟩

end Policy

/-! ## Which lines are written -/

/-- A line is written if its text is a header value. -/
theorem fromStr_eq_some_iff {text : String} {v : HeaderValue} :
    HeaderValue.fromStr text = some v ↔ v.text = text := by
  unfold HeaderValue.fromStr
  split
  next hvalid =>
    constructor
    · intro h
      rw [← Option.some.inj h]
    · rintro rfl
      rfl
  next hvalid =>
    constructor
    · intro h
      exact absurd h (by simp)
    · rintro rfl
      exact absurd v.valid hvalid

theorem isHeaderChar_of_isPlain {c : Char} (h : isPlain c = true) : isHeaderChar c = true := by
  simp only [isPlain, isPrintable, Bool.and_eq_true, decide_eq_true_eq] at h
  simp only [isHeaderChar, Bool.or_eq_true, Bool.and_eq_true, decide_eq_true_eq, bne_iff_ne]
  omega

theorem all_isHeaderChar_digits (n : ℕ) : (digits n).all isHeaderChar = true := by
  rw [List.all_eq_true]
  intro c hc
  exact isHeaderChar_of_isDigit (isDigit_of_mem_digits hc)

/-- Fields are written if the name, where it is written, needs no escapes. -/
theorem exists_fromStr {p : Policy} {fields : RateLimitFields} {policy rateLimit : String}
    (h : formatRateLimitFields ⟨p, fields⟩ = some (policy, rateLimit))
    (hname : fields = .draft11 → p.name.toList.all isPlain = true) :
    ∃ v v' : HeaderValue, v.text = policy ∧ v'.text = rateLimit := by
  have hvalid : policy.toList.all isHeaderChar = true ∧
      rateLimit.toList.all isHeaderChar = true := by
    cases fields with
    | draft7 =>
      obtain ⟨rfl, rfl⟩ := Prod.mk.inj (Option.some.inj h)
      simp [toList_toString, all_isHeaderChar_digits, isHeaderChar]
    | draft11 =>
      obtain ⟨rfl, rfl⟩ := Prod.mk.inj (Option.some.inj h)
      have hplain : p.name.toList.all isHeaderChar = true := by
        rw [List.all_eq_true]
        intro c hc
        exact isHeaderChar_of_isPlain (List.all_eq_true.mp (hname rfl) c hc)
      simp [toList_toString, all_isHeaderChar_digits, hplain, isHeaderChar]
    | disabled => exact absurd h (by simp [formatRateLimitFields])
  exact ⟨⟨policy, hvalid.1⟩, ⟨rateLimit, hvalid.2⟩, rfl, rfl⟩

/-! ## Reading the policy back -/

/-- The policy that a charge is about. -/
def policyOf (config : RateLimitConfig σ Head) (limit : UInt64) (usage : Usage) : Policy where
  name := config.policyName
  limit
  window := config.window
  used := usage.used
  resetAfter := usage.resetAfter

/-- A charge can be read back from its response: whatever the response was, the charge adds one
value to each of the two fields, and the values are read as the policy. -/
def Decodes (config : RateLimitConfig σ Head) (limit : UInt64) (usage : Usage) : Prop :=
  ∃ p, chargedPolicy config limit (.ok usage) = .ok p ∧ ∃ policy fields : HeaderValue,
    (∀ (Body : Type) (response : Response Body),
      HeaderMap.getAll (chargedResponse response ⟨p, config.rateLimitFields⟩).headers
          rateLimitPolicy = HeaderMap.getAll response.headers rateLimitPolicy ++ [policy] ∧
        HeaderMap.getAll (chargedResponse response ⟨p, config.rateLimitFields⟩).headers rateLimit =
          HeaderMap.getAll response.headers rateLimit ++ [fields]) ∧
    (policyOf config limit usage).ReadFrom policy.text fields.text config.rateLimitFields

/-- The longest duration whose rounded seconds have 15 digits. -/
def longestWritten : ℕ := (10 ^ 15 - 1) * nanosPerSec

/-- What structured fields can represent of a charge: a limit of at most 15 digits, durations of at
most that many seconds and, in Draft 11, a name of characters that stand for themselves in a
string. -/
structure Representable (config : RateLimitConfig σ Head) (limit : UInt64) (usage : Usage) :
    Prop where
  limit : limit.toNat < 10 ^ 15
  window : config.window.nanos ≤ longestWritten
  resetAfter : usage.resetAfter.nanos ≤ longestWritten
  name : config.rateLimitFields = .draft11 → config.policyName.toList.all isPlain = true

theorem ceilSeconds_lt_iff (d : Duration) :
    (ceilSeconds d).toNat < integerEnd ↔ d.nanos ≤ longestWritten := by
  rw [toNat_ceilSeconds]
  simp only [integerEnd, longestWritten, nanosPerSec, u64Max]
  omega

/-- The fields are written and read back exactly if the policy fits and its name needs no
escapes. -/
theorem readFrom_iff {p : Policy} {fields : RateLimitFields} {policy rateLimit : String}
    (h : formatRateLimitFields ⟨p, fields⟩ = some (policy, rateLimit)) :
    p.ReadFrom policy rateLimit fields ↔
      p.Fits ∧ (fields = .draft11 → p.name.toList.all isPlain = true) := by
  cases fields with
  | draft7 => rw [Policy.readFrom_draft7_iff h]; simp
  | draft11 => rw [Policy.readFrom_draft11_iff h]; simp
  | disabled => exact absurd h (by simp [formatRateLimitFields])

theorem exists_formatRateLimitFields {p : Policy} {fields : RateLimitFields}
    (h : fields ≠ .disabled) :
    ∃ policy rateLimit, formatRateLimitFields ⟨p, fields⟩ = some (policy, rateLimit) := by
  cases fields with
  | draft7 => exact ⟨_, _, rfl⟩
  | draft11 => exact ⟨_, _, rfl⟩
  | disabled => exact absurd rfl h

/-- A charge is read back exactly if its fields are. -/
theorem decodes_iff_readFrom {config : RateLimitConfig σ Head} {limit : UInt64} {usage : Usage}
    (hused : 1 ≤ usage.used) {policy fields : String}
    (hformat : formatRateLimitFields ⟨policyOf config limit usage, config.rateLimitFields⟩ =
      some (policy, fields)) :
    Decodes config limit usage ↔
      (policyOf config limit usage).ReadFrom policy fields config.rateLimitFields := by
  have hcharged : chargedPolicy config limit (.ok usage) = .ok (policyOf config limit usage) :=
    if_neg (fun hzero => absurd hused (by rw [hzero]; decide))
  constructor
  · rintro ⟨p, hp, v, v', hlines, hread⟩
    obtain rfl : policyOf config limit usage = p := Except.ok.inj (hcharged.symm.trans hp)
    -- a response without headers shows what was written
    have hempty := hlines Unit ⟨200, [], ()⟩
    have hwritten := getAll_chargedResponse hformat (⟨200, [], ()⟩ : Response Unit)
    have hpolicy : HeaderValue.fromStr policy = some v :=
      Option.toList_eq_singleton_iff.mp (hwritten.1.symm.trans hempty.1)
    have hfields : HeaderValue.fromStr fields = some v' :=
      Option.toList_eq_singleton_iff.mp (hwritten.2.symm.trans hempty.2)
    rwa [fromStr_eq_some_iff.mp hpolicy, fromStr_eq_some_iff.mp hfields] at hread
  · intro hread
    obtain ⟨v, v', rfl, rfl⟩ := exists_fromStr hformat ((readFrom_iff hformat).mp hread).2
    refine ⟨_, hcharged, v, v', fun Body response => ?_, hread⟩
    have hwritten := getAll_chargedResponse hformat response
    rwa [fromStr_eq_some_iff.mpr rfl, fromStr_eq_some_iff.mpr rfl] at hwritten

variable {S : Store σ} {P : LimitProvider σ Head ReqBody}

/-- **The policy is read back from the response of a charge exactly if structured fields can
represent it.** -/
theorem chargedResponse_decodes_iff
    {b : RateLimitBuilder σ Head (KeyExtractor σ Head ReqBody) S.Self P.Self
      (ResponseFactory σ Head ReqBody ResBody)}
    {layer : RateLimitLayer σ Head ReqBody ResBody S P} (hbuild : b.build = .ok layer)
    (hfields : b.config.rateLimitFields ≠ .disabled) (limit : UInt64) {usage : Usage}
    (hused : 1 ≤ usage.used) :
    Decodes layer.config limit usage ↔ Representable b.config limit usage := by
  obtain ⟨-, rfl⟩ := b.build_eq_ok_iff.mp hbuild
  obtain ⟨policy, fields, hformat⟩ :=
    exists_formatRateLimitFields (p := policyOf b.config limit usage) hfields
  rw [decodes_iff_readFrom hused hformat, readFrom_iff hformat]
  constructor
  · rintro ⟨⟨hlimit, hwindow, hreset⟩, hname⟩
    exact ⟨hlimit, (ceilSeconds_lt_iff _).mp hwindow, (ceilSeconds_lt_iff _).mp hreset, hname⟩
  · intro h
    exact ⟨⟨h.limit, (ceilSeconds_lt_iff _).mpr h.window, (ceilSeconds_lt_iff _).mpr h.resetAfter⟩,
      h.name⟩

/-! ## Two policy names -/

/-- A store that has counted one request. -/
def oneCounted : Store Unit where
  Self := Unit
  Future := Unit
  increment _ _ _ := pure ()
  poll := pure (.ready (.ok ⟨1, Duration.ofSecs 60⟩))

/-- A builder with the defaults, a limit of 100 and a policy name. -/
def named (name : String) :
    RateLimitBuilder Unit Unit (KeyExtractor Unit Unit Unit) oneCounted.Self
      (fixedLimit : LimitProvider Unit Unit Unit).Self (ResponseFactory Unit Unit Unit Unit) :=
  (((RateLimitBuilder.new fun _ => pure (.ok "client")).withStore ()).limit 100).policyName name

/-- The policy of `docs/rate-limit-fields.md` is read back. -/
theorem chargedResponse_decodes_publicApi :
    ∃ layer, (named "public-api").build = .ok layer ∧
      Decodes layer.config 100 ⟨1, Duration.ofSecs 60⟩ := by
  have hbuild := (named "public-api").build_eq_ok_iff.mpr ⟨⟨by decide, by decide⟩, rfl⟩
  have hiff := chargedResponse_decodes_iff hbuild (by decide) 100
    (show 1 ≤ (⟨1, Duration.ofSecs 60⟩ : Usage).used by decide)
  exact ⟨_, hbuild, hiff.mpr ⟨by decide, by decide, by decide, fun _ => by decide⟩⟩

/-- A name with quotes in it is accepted, and its fields are read as two items. -/
theorem quoted_name_misread :
    ∃ layer, (named "a\", \"b").build = .ok layer ∧
      ¬ Decodes layer.config 100 ⟨1, Duration.ofSecs 60⟩ ∧
      formatRateLimitFields ⟨policyOf layer.config 100 ⟨1, Duration.ofSecs 60⟩,
          layer.config.rateLimitFields⟩ =
        some ("\"a\", \"b\";q=100;w=60", "\"a\", \"b\";r=99;t=60") ∧
      parseListField "\"a\", \"b\";q=100;w=60" = some [.item ⟨.string "a", []⟩,
        .item ⟨.string "b", [("q", .integer 100), ("w", .integer 60)]⟩] := by
  refine ⟨_, (named _).build_eq_ok_iff.mpr ⟨⟨by decide, by decide⟩, rfl⟩, ?_, by decide, by decide⟩
  intro hdecodes
  obtain ⟨policy, fields, hformat⟩ : ∃ policy fields, formatRateLimitFields
      ⟨policyOf (named "a\", \"b").config 100 ⟨1, Duration.ofSecs 60⟩, .draft11⟩ =
        some (policy, fields) := exists_formatRateLimitFields (by decide)
  have hread := (decodes_iff_readFrom (by decide) hformat).mp hdecodes
  exact absurd (((readFrom_iff hformat).mp hread).2 rfl) (by decide)

end TowerRateLimiter
