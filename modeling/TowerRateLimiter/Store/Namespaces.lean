import TowerRateLimiter.Limiter.ScopedKey
import TowerRateLimiter.Store.RedisKeyspace

/-!
# Redis namespaces

`format_redis_key` puts `rl:`, or a namespace and `:rl:`, in front of a key. Neither part is
escaped.

Main results:

* `transportKey_inj`: with the scoped keys the limiter makes itself, the transport key determines
  namespace, policy and client. A scoped key has exactly one colon, so the transport key can be read
  from the right.
* `namespaces_separate_iff`: with arbitrary keys, as a key encoder may produce them, two namespaces
  share no transport key exactly when neither of them goes on where the marker of the other ends.
-/

namespace TowerRateLimiter

open Rust Redis

/-! ## Transport keys -/

/-- The namespace as `format_redis_key` sees it: an empty one counts as none. -/
def effective (nameSpace : Option String) : Option String := nameSpace.filter (· ≠ "")

/-- What stands before the last colon that `format_redis_key` adds. -/
def transportMarker (nameSpace : Option String) : List Char :=
  match effective nameSpace with
  | some nameSpace => nameSpace.toList ++ ":rl".toList
  | none => "rl".toList

theorem toList_formatRedisKey (nameSpace : Option String) (key : String) :
    (formatRedisKey nameSpace key).toList = transportMarker nameSpace ++ ':' :: key.toList := by
  cases h : effective nameSpace with
  | none =>
    have hnone : nameSpace.filter (· ≠ "") = none := h
    simp only [formatRedisKey, transportMarker, h, hnone]
    simp [redisPrefix]
  | some a =>
    have hsome : nameSpace.filter (· ≠ "") = some a := h
    simp only [formatRedisKey, transportMarker, h, hsome]
    simp [redisPrefix]

/-- The marker determines the effective namespace. -/
theorem transportMarker_inj {n m : Option String} :
    transportMarker n = transportMarker m ↔ effective n = effective m := by
  constructor
  · intro h
    unfold transportMarker at h
    cases hn : effective n with
    | none =>
      cases hm : effective m with
      | none => rfl
      | some b =>
        rw [hn, hm] at h
        have hlength := congrArg List.length h
        simp at hlength
    | some a =>
      cases hm : effective m with
      | none =>
        rw [hn, hm] at h
        have hlength := congrArg List.length h
        simp at hlength
      | some b =>
        rw [hn, hm] at h
        rw [String.toList_inj.mp (List.append_cancel_right h)]
  · intro h
    unfold transportMarker
    rw [h]

/-- Two texts that end in a colon and something without one agree on both parts. -/
theorem append_colon_inj {a b u v : List Char} (hu : ':' ∉ u) (hv : ':' ∉ v)
    (h : a ++ ':' :: u = b ++ ':' :: v) : a = b ∧ u = v := by
  rcases List.append_eq_append_iff.mp h with ⟨m, rfl, hm⟩ | ⟨m, rfl, hm⟩
  · cases m with
    | nil => exact ⟨by simp, (List.cons.inj hm).2⟩
    | cons c m =>
      rw [(List.cons.inj hm).2] at hu
      exact absurd (List.mem_append_right _ List.mem_cons_self) hu
  · cases m with
    | nil => exact ⟨by simp, (List.cons.inj hm).2.symm⟩
    | cons c m =>
      rw [(List.cons.inj hm).2] at hv
      exact absurd (List.mem_append_right _ List.mem_cons_self) hv

/-- The transport key of a scoped key determines policy, client and effective namespace. -/
theorem transportKey_inj (n₁ n₂ : Option String) (p₁ p₂ c₁ c₂ : String) :
    formatRedisKey n₁ (makeKey p₁ c₁) = formatRedisKey n₂ (makeKey p₂ c₂) ↔
      p₁ = p₂ ∧ c₁ = c₂ ∧ effective n₁ = effective n₂ := by
  have hread : ∀ n p c, (formatRedisKey n (makeKey p c)).toList =
      (transportMarker n ++ ':' :: (escapeKeyPart p).toList) ++
        ':' :: (escapeKeyPart c).toList := by
    intro n p c
    rw [toList_formatRedisKey]
    simp [makeKey]
  rw [← String.toList_inj, hread, hread]
  constructor
  · intro h
    -- read from the right: first the client, then the policy, and the marker is left
    obtain ⟨hrest, hclient⟩ := append_colon_inj (colon_notMem_escapeKeyPart c₁)
      (colon_notMem_escapeKeyPart c₂) h
    obtain ⟨hmarker, hpolicy⟩ := append_colon_inj (colon_notMem_escapeKeyPart p₁)
      (colon_notMem_escapeKeyPart p₂) hrest
    exact ⟨escapeKeyPart_injective (String.toList_inj.mp hpolicy),
      escapeKeyPart_injective (String.toList_inj.mp hclient), transportMarker_inj.mp hmarker⟩
  · rintro ⟨rfl, rfl, hn⟩
    rw [transportMarker_inj.mpr hn]

/-! ## Arbitrary keys -/

/-- Namespace `m` goes on where the marker of `n` ends: it is that marker, or the marker, a colon
and something more. -/
def Continues (n m : Option String) : Prop :=
  ∃ b ∈ effective m, b.toList = transportMarker n ∨ transportMarker n ++ [':'] <+: b.toList

instance (n m : Option String) : Decidable (Continues n m) :=
  inferInstanceAs (Decidable (∃ b ∈ effective m, _))

/-- What stands before the key of one namespace starts what stands before the key of the other only
if the second one goes on where the first one ends. -/
theorem prefix_iff_continues {n m : Option String} (hne : effective n ≠ effective m) :
    transportMarker n ++ [':'] <+: transportMarker m ++ [':'] ↔ Continues n m := by
  constructor
  · intro h
    cases hm : effective m with
    | none =>
      -- the marker of `n` is too long
      have hlength := h.length_le
      cases hn : effective n with
      | none => exact absurd (hn.trans hm.symm) hne
      | some a => simp [transportMarker, hn, hm] at hlength
    | some b =>
      have hmarker : transportMarker m = b.toList ++ ":rl".toList := by rw [transportMarker, hm]
      obtain ⟨rest, hrest⟩ := h
      rw [hmarker, List.append_assoc b.toList] at hrest
      rcases List.append_eq_append_iff.mp hrest with ⟨more, hb, -⟩ | ⟨more, hb, hmore⟩
      · exact ⟨b, hm, .inr ⟨more, hb.symm⟩⟩
      · -- `b` ends inside the marker of `n`; only a colon can follow it there
        rcases more with _ | ⟨c₁, _ | ⟨c₂, _ | ⟨c₃, _ | ⟨c₄, more⟩⟩⟩⟩
        · refine ⟨b, hm, .inr ⟨[], ?_⟩⟩
          simpa using hb
        · refine ⟨b, hm, .inl ?_⟩
          exact (List.append_inj' hb rfl).1.symm
        · obtain ⟨rfl, rfl, -⟩ : ':' = c₁ ∧ 'r' = c₂ ∧ ['l', ':'] = rest := by simpa using hmore
          exact absurd (congrArg List.getLast? hb) (by simp)
        · obtain ⟨rfl, rfl, rfl, -⟩ : ':' = c₁ ∧ 'r' = c₂ ∧ 'l' = c₃ ∧ [':'] = rest := by
            simpa using hmore
          exact absurd (congrArg List.getLast? hb) (by simp)
        · have hlength := congrArg List.length hmore
          obtain ⟨rfl, rfl⟩ : more = [] ∧ rest = [] := by
            simpa using hlength
          have hsame : transportMarker n ++ [':'] = transportMarker m ++ [':'] := by
            rw [hb, hmarker, List.append_assoc, hmore, List.append_nil]
          exact absurd (transportMarker_inj.mp (List.append_cancel_right hsame)) hne
  · rintro ⟨b, hm, h⟩
    have hmarker : transportMarker m = b.toList ++ ":rl".toList := by rw [transportMarker, hm]
    rw [hmarker]
    rcases h with heq | hstarts
    · rw [heq]
      exact ⟨"rl:".toList, by simp⟩
    · exact (hstarts.trans (List.prefix_append _ _)).trans (List.prefix_append _ _)

/-- Two namespaces share a transport key exactly if one of them continues the other. -/
theorem exists_shared_iff {n m : Option String} (hne : effective n ≠ effective m) :
    (∃ k₁ k₂, formatRedisKey n k₁ = formatRedisKey m k₂) ↔ Continues n m ∨ Continues m n := by
  have hread : ∀ n k, (formatRedisKey n k).toList = (transportMarker n ++ [':']) ++ k.toList := by
    intro n k
    rw [toList_formatRedisKey]
    simp
  rw [← prefix_iff_continues hne, ← prefix_iff_continues (Ne.symm hne)]
  constructor
  · rintro ⟨k₁, k₂, h⟩
    have hlist := congrArg String.toList h
    rw [hread, hread] at hlist
    exact List.prefix_or_prefix_of_prefix ⟨k₁.toList, hlist⟩ (List.prefix_append _ _)
  · rintro (⟨rest, h⟩ | ⟨rest, h⟩)
    · refine ⟨String.ofList rest, "", String.toList_inj.mp ?_⟩
      rw [hread, hread, String.toList_ofList, h, String.toList_empty, List.append_nil]
    · refine ⟨"", String.ofList rest, String.toList_inj.mp ?_⟩
      rw [hread, hread, String.toList_ofList, String.toList_ofList, h, List.append_nil]

/-! ## Interleavings -/

/-- What a client reads from the result of a script. -/
def scriptAnswer : Except CommandError (List Reply) → Except ClientError (ℤ × ℤ)
  | .ok replies => readPair replies
  | .error e => .error (.command e)

/-- What a client reads from the replies of a transaction. -/
def transactionAnswer (replies : List (Except CommandError Reply)) : Except ClientError (ℤ × ℤ) :=
  match collectReplies replies with
  | .ok replies => readPair (replies.drop 1)
  | .error e => .error e

/-- One increment reads and writes its own transport key only. -/
theorem runCounter_local (backend : Backend) (implementation : Implementation) (now : ℕ)
    (key : String) (windowMillis : ℕ) :
    LocalTo key (runCounter backend implementation now key windowMillis) := by
  cases implementation with
  | lua =>
    have hread : ∀ count : Reply, LocalTo key
        (do return [count, ← backend.call now (.pttl key)] : Script String (List Reply)) := by
      intro count
      exact Script.bind_local (call_local backend now (.pttl key)) fun ttl =>
        LocalTo.pure (Except.ok [count, ttl])
    have hscript : LocalTo key (incrementScript backend now key windowMillis) := by
      refine Script.bind_local (call_local backend now (.incr key)) fun count => ?_
      by_cases hone : count = .integer 1
      · simp only [hone, if_true]
        exact Script.bind_local (call_local backend now (.pexpire key windowMillis)) fun _ =>
          hread _
      · simp only [hone, if_false]
        exact hread count
    exact hscript.map scriptAnswer
  | multiExec =>
    have hexec : LocalTo key fun ks =>
        backend.exec now ks (incrementTransaction key windowMillis) := by
      refine exec_local backend now _ ?_
      intro command hcommand
      simp only [incrementTransaction, List.mem_cons, List.not_mem_nil, or_false] at hcommand
      rcases hcommand with rfl | rfl | rfl <;> rfl
    exact hexec.map transactionAnswer

theorem Call.run_local (backend : Backend) (c : Call) :
    LocalTo c.redisKey fun ks => c.run backend ks := by
  simp only [Call.run, RedisStore.increment]
  cases checkedWindowMillis c.window with
  | error e => exact LocalTo.pure _
  | ok windowMillis =>
    have hcounter := runCounter_local backend c.implementation c.now c.redisKey windowMillis
    have hincrement : LocalTo c.redisKey fun ks => incrementCounter backend c.implementation
        c.delivery c.now c.redisKey windowMillis ks := by
      cases c.delivery with
      | answered => exact hcounter.map (Except.mapError (RedisStoreError.ofClientError backend))
      | requestLost => exact LocalTo.pure _
      | replyLost =>
        exact hcounter.map fun _ => Except.error (RedisStoreError.ofClientError backend .connection)
    exact hincrement.map fun result =>
      (result.bind usageFromIncrementResult).mapError (·.toRateLimitError)

/-- The call goes through the namespace `n`. -/
def usesNamespace (n : Option String) (c : Call) : Bool := effective c.store.nameSpace = effective n

/-- What the calls of a run that go through `n` return. -/
def resultsThrough (backend : Backend) (n : Option String) (ks : Keyspace String)
    (calls : List Call) : List (Except RateLimitError Usage) :=
  ((calls.zip (callResults backend ks calls)).filter (usesNamespace n ·.1)).map Prod.snd

/-- The calls through `n` make no difference to the results through `m`, whatever else runs. -/
def Undisturbed (n m : Option String) : Prop :=
  ∀ backend ks calls, resultsThrough backend m ks calls =
    resultsThrough backend m ks (calls.filter (!usesNamespace n ·))

theorem resultsThrough_cons (backend : Backend) (n : Option String) (ks : Keyspace String)
    (c : Call) (calls : List Call) :
    resultsThrough backend n ks (c :: calls) =
      if usesNamespace n c then
        (c.run backend ks).1 :: resultsThrough backend n (c.run backend ks).2 calls
      else resultsThrough backend n (c.run backend ks).2 calls := by
  simp only [resultsThrough, callResults, List.zip_cons_cons, List.filter_cons]
  split <;> rfl

/-- The namespace of a call determines its transport key. -/
theorem Call.redisKey_of_usesNamespace {n : Option String} {c : Call}
    (h : usesNamespace n c = true) :
    c.redisKey = formatRedisKey n c.key := by
  have heffective : effective c.store.nameSpace = effective n := of_decide_eq_true h
  refine String.toList_inj.mp ?_
  rw [Call.redisKey, RedisStore.redisKey, toList_formatRedisKey, toList_formatRedisKey,
    transportMarker_inj.mpr heffective]

/-- The calls through `n` make no difference to the results through `m`, also when the two runs
start from keyspaces that only agree on the keys of `m`. -/
theorem resultsThrough_filter {backend : Backend} {n m : Option String}
    (hkeys : ∀ k₁ k₂, formatRedisKey n k₁ ≠ formatRedisKey m k₂) {ks ks' : Keyspace String}
    (hks : ∀ k, ks (formatRedisKey m k) = ks' (formatRedisKey m k)) (calls : List Call) :
    resultsThrough backend m ks calls =
      resultsThrough backend m ks' (calls.filter (!usesNamespace n ·)) := by
  induction calls generalizing ks ks' with
  | nil => rfl
  | cons c calls ih =>
    have hlocal := c.run_local backend
    by_cases hn : usesNamespace n c = true
    · -- the call writes a key of `n`, and so no key of `m`
      have hm : ¬ usesNamespace m c = true := by
        intro hm
        refine hkeys c.key c.key ?_
        rw [← Call.redisKey_of_usesNamespace hn, ← Call.redisKey_of_usesNamespace hm]
      rw [resultsThrough_cons, if_neg hm, List.filter_cons_of_neg (by simp [hn])]
      refine ih ?_
      intro k
      rw [← hks k]
      refine hlocal.other ks ?_
      rw [Call.redisKey_of_usesNamespace hn]
      exact Ne.symm (hkeys c.key k)
    · rw [List.filter_cons_of_pos (by simp [hn]), resultsThrough_cons, resultsThrough_cons]
      have hrest : ∀ k, (c.run backend ks).2 (formatRedisKey m k) =
          (c.run backend ks').2 (formatRedisKey m k) := by
        intro k
        by_cases hk : formatRedisKey m k = c.redisKey
        · rw [hk]
          exact (hlocal.congr (hk ▸ hks k)).2
        · rw [hlocal.other ks hk, hlocal.other ks' hk]
          exact hks k
      split
      · rename_i hm
        have hkey := Call.redisKey_of_usesNamespace hm
        rw [(hlocal.congr (hkey ▸ hks c.key)).1, ih hrest]
      · exact ih hrest

/-- Two stores on one database whose effective namespaces differ have no transport key in common, so
that neither disturbs the other, exactly if neither namespace continues the other. -/
theorem namespaces_separate_iff (n m : Option String) (hne : effective n ≠ effective m) :
    (∀ k₁ k₂, formatRedisKey n k₁ ≠ formatRedisKey m k₂) ∧ Undisturbed n m ∧ Undisturbed m n ↔
      ¬ Continues n m ∧ ¬ Continues m n := by
  have hshared := exists_shared_iff hne
  constructor
  · rintro ⟨hkeys, -, -⟩
    refine not_or.mp ?_
    rw [← hshared]
    rintro ⟨k₁, k₂, h⟩
    exact hkeys k₁ k₂ h
  · intro hnot
    have hkeys : ∀ k₁ k₂, formatRedisKey n k₁ ≠ formatRedisKey m k₂ := by
      intro k₁ k₂ h
      exact (not_or.mpr hnot) (hshared.mp ⟨k₁, k₂, h⟩)
    refine ⟨hkeys, ?_, ?_⟩
    · intro backend ks calls
      exact resultsThrough_filter hkeys (fun _ => rfl) calls
    · intro backend ks calls
      exact resultsThrough_filter (fun k₁ k₂ => (hkeys k₂ k₁).symm) (fun _ => rfl) calls

/-- A store without a namespace and one with an ordinary namespace do not meet. -/
theorem namespaces_separate_iff_app :
    effective none ≠ effective (some "app") ∧
      (∀ k₁ k₂, formatRedisKey none k₁ ≠ formatRedisKey (some "app") k₂) ∧
      Undisturbed none (some "app") ∧ Undisturbed (some "app") none :=
  ⟨by decide, (namespaces_separate_iff none (some "app") (by decide)).mpr (by decide)⟩

/-- An increment through the namespace `nameSpace` when the server's clock reads 1. -/
def callIn (nameSpace key : String) : Call :=
  ⟨⟨some nameSpace⟩, .multiExec, .answered, key, tenMillis, 1⟩

/-- The namespaces `app` and `app:rl:eu` differ, and the key `eu:rl:user` of the first is the key
`user` of the second: an increment of the one counts in the other. -/
theorem namespaces_collide :
    effective (some "app") ≠ effective (some "app:rl:eu") ∧
      formatRedisKey (some "app") "eu:rl:user" = formatRedisKey (some "app:rl:eu") "user" ∧
      resultsThrough (Backend.exact true) (some "app:rl:eu") Keyspace.empty
          [callIn "app" "eu:rl:user", callIn "app:rl:eu" "user"] = [.ok ⟨2, tenMillis⟩] ∧
      resultsThrough (Backend.exact true) (some "app:rl:eu") Keyspace.empty
          [callIn "app:rl:eu" "user"] = [.ok ⟨1, tenMillis⟩] := by
  refine ⟨by decide, by decide, ?_, ?_⟩
  · decide +kernel
  · decide +kernel

end TowerRateLimiter
