import TowerRateLimiter.Common.Redis
import TowerRateLimiter.Limiter.Policy

/-!
# The Redis store

`store/redis.rs`. An increment checks its window, asks the server to increment the counter and to
read its remaining time as one operation, and turns the pair into a `Usage`. The Cargo feature
`redis-lua` decides whether that operation is a script or a transaction; both are here, as the two
values of `Implementation`.
-/

namespace TowerRateLimiter

open Rust Redis

/-- Errors of the Redis store. -/
inductive RedisStoreError where
  | windowTooShort
  | windowTooLarge
  | commandFailed (message : String)
  | invalidUsage (used : ℤ)
  | invalidResetAfter (millis : ℤ)
deriving DecidableEq

namespace RedisStoreError

/-- The `Display` text. -/
def message : RedisStoreError → String
  | .windowTooShort => "window must be at least one millisecond"
  | .windowTooLarge => "window is too large"
  | .commandFailed message => "redis command failed: " ++ message
  | .invalidUsage used => "redis returned invalid usage " ++ toString used
  | .invalidResetAfter millis =>
      "redis returned invalid reset-after milliseconds " ++ toString millis

/-- `From<RedisStoreError> for RateLimitError`. -/
def toRateLimitError (e : RedisStoreError) : RateLimitError :=
  .store "redis_store_error" e.message

/-- `From<redis::RedisError> for RedisStoreError`. -/
def ofClientError (backend : Backend) (e : ClientError) : RedisStoreError :=
  .commandFailed (backend.errorText e)

end RedisStoreError

/-- `REDIS_PREFIX`. -/
def redisPrefix : String := "rl:"

/-- `format_redis_key`. An empty namespace counts as none. -/
def formatRedisKey (nameSpace : Option String) (key : String) : String :=
  match nameSpace.filter (· ≠ "") with
  | some nameSpace => nameSpace ++ ":" ++ redisPrefix ++ key
  | none => redisPrefix ++ key

/-- `checked_window_millis`. The result is an `i64` in Rust and never negative. -/
def checkedWindowMillis (window : Duration) : Except RedisStoreError ℕ :=
  if window.asMillis = 0 then .error .windowTooShort
  else if i64Max < window.asMillis then .error .windowTooLarge
  else .ok window.asMillis

/-- `usage_from_increment_result`, on a count and a `PTTL`. -/
def usageFromIncrementResult : ℤ × ℤ → Except RedisStoreError Usage
  | (used, resetAfterMillis) =>
      if used < 1 then .error (.invalidUsage used)
      else if resetAfterMillis ≤ 0 then .error (.invalidResetAfter resetAfterMillis)
      else .ok
        { used := UInt64.ofNat used.toNat
          resetAfter := .ofMillis (UInt64.ofNat resetAfterMillis.toNat) }

/-! ## Incrementing a counter -/

/-- The two bodies of `increment_counter`: with the feature `redis-lua` and without it. -/
inductive Implementation where
  | lua
  | multiExec
deriving DecidableEq

/-- `INCREMENT_SCRIPT`. -/
def incrementScript (backend : Backend) (now : ℕ) (key : String) (windowMillis : ℕ) :
    Script String (List Reply) := do
  let count ← backend.call now (.incr key)
  if count = .integer 1 then
    -- `ARGV[1]` goes to the command as it came and is never a Lua number
    let _ ← backend.call now (.pexpire key windowMillis)
  return [count, ← backend.call now (.pttl key)]

/-- The commands of the transaction; the reply to the first is ignored. -/
def incrementTransaction (key : String) (windowMillis : ℕ) : List (Command String) :=
  [.setPxNx key 0 windowMillis, .incr key, .pttl key]

/-- What the client makes of the replies of a transaction: any error is the error of the whole. -/
def collectReplies : List (Except CommandError Reply) → Except ClientError (List Reply)
  | [] => .ok []
  | .error e :: _ => .error (.command e)
  | .ok reply :: replies => (collectReplies replies).map (reply :: ·)

/-- The conversion of a reply to `(i64, i64)`. -/
def readPair : List Reply → Except ClientError (ℤ × ℤ)
  | [.integer count, .integer ttl] => .ok (count, ttl)
  | _ => .error .unexpectedReply

/-- What the server does for one `increment_counter`, and what it answers. -/
def runCounter (backend : Backend) (implementation : Implementation) (now : ℕ) (key : String)
    (windowMillis : ℕ) (ks : Keyspace String) :
    Except ClientError (ℤ × ℤ) × Keyspace String :=
  match implementation with
  | .lua =>
      let (result, ks') := incrementScript backend now key windowMillis ks
      (match result with
        | .ok replies => readPair replies
        | .error e => .error (.command e), ks')
  | .multiExec =>
      let (replies, ks') := backend.exec now ks (incrementTransaction key windowMillis)
      -- `.ignore()` drops the reply to `SET`
      (match collectReplies replies with
        | .ok replies => readPair (replies.drop 1)
        | .error e => .error e, ks')

/-- What becomes of a request: it is answered, or the connection fails before or after the server
runs it. -/
inductive Delivery where
  | answered
  | requestLost
  | replyLost
deriving DecidableEq

/-- `increment_counter`. -/
def incrementCounter (backend : Backend) (implementation : Implementation) (delivery : Delivery)
    (now : ℕ) (key : String) (windowMillis : ℕ) (ks : Keyspace String) :
    Except RedisStoreError (ℤ × ℤ) × Keyspace String :=
  match delivery with
  | .answered =>
      let (result, ks') := runCounter backend implementation now key windowMillis ks
      (result.mapError (.ofClientError backend), ks')
  | .requestLost => (.error (.ofClientError backend .connection), ks)
  | .replyLost =>
      let (_, ks') := runCounter backend implementation now key windowMillis ks
      (.error (.ofClientError backend .connection), ks')

/-- A `RedisStore`, apart from its connection. -/
structure RedisStore where
  nameSpace : Option String

namespace RedisStore

/-- `RedisStore::new`. -/
def new : RedisStore := ⟨none⟩

/-- `RedisStore::with_namespace`. -/
def withNamespace (_ : RedisStore) (nameSpace : String) : RedisStore := ⟨some nameSpace⟩

/-- `RedisStore::redis_key`. -/
def redisKey (store : RedisStore) (key : String) : String := formatRedisKey store.nameSpace key

/-- `Store::increment` for `RedisStore`, when the server's clock reads `now`. -/
def increment (store : RedisStore) (backend : Backend) (implementation : Implementation)
    (delivery : Delivery) (now : ℕ) (key : String) (window : Duration) (ks : Keyspace String) :
    Except RateLimitError Usage × Keyspace String :=
  match checkedWindowMillis window with
  | .error e => (.error e.toRateLimitError, ks)
  | .ok windowMillis =>
      let (result, ks') :=
        incrementCounter backend implementation delivery now (store.redisKey key) windowMillis ks
      ((result.bind usageFromIncrementResult).mapError (·.toRateLimitError), ks')

end RedisStore

/-! ## What the server does for one increment -/

/-- A number of a reply, as `increment_counter` reads it. -/
def Implementation.shown (backend : Backend) : Implementation → ℤ → ℤ
  | .lua, n => backend.luaNumber n
  | .multiExec, n => n

/-- Both implementations read small numbers as they are. -/
theorem Implementation.shown_exact {backend : Backend} (implementation : Implementation) {n : ℤ}
    (h : |n| ≤ 2 ^ 53) : implementation.shown backend n = n := by
  cases implementation with
  | lua => exact backend.luaNumber_exact n h
  | multiExec => rfl

section RunCounter

variable {backend : Backend} {now : ℕ} {key : String} {windowMillis : ℕ} {ks ks' : Keyspace String}
  {c : Counter}

/-- The script, from the reply to its `INCR` on. -/
theorem incrementScript_counted {n : ℤ}
    (hincr : backend.execute now ks (.incr key) = (.ok (.integer n), ks')) (hn : n ≠ 1)
    (hlive : ks'.lookup now key = some c) :
    incrementScript backend now key windowMillis ks =
      (.ok [.integer (backend.luaNumber n), .integer (backend.luaNumber (c.ttl now))], ks') := by
  have hcount : backend.luaReply (.integer n) ≠ .integer 1 := by
    intro h
    exact hn (backend.luaNumber_eq_one n (Reply.integer.inj h))
  unfold incrementScript
  rw [call_bind_ok _ hincr]
  simp only [if_neg hcount]
  rw [call_bind_ok _ (execute_pttl_live hlive)]
  rfl

/-- The script, when its `INCR` has created the counter. -/
theorem incrementScript_created
    (hincr : backend.execute now ks (.incr key) = (.ok (.integer 1), ks'))
    (hlive : ks'.lookup now key = some c) (hpos : 0 < windowMillis) :
    incrementScript backend now key windowMillis ks =
      if ExpiryRefused now windowMillis then (.error .invalidExpireTime, ks')
      else (.ok [.integer 1, .integer (backend.luaNumber windowMillis)],
        Function.update ks' key (some { c with deadline := some (now + windowMillis) })) := by
  have hone : backend.luaReply (.integer 1) = .integer 1 :=
    congrArg Reply.integer (backend.luaNumber_exact 1 (by decide))
  unfold incrementScript
  rw [call_bind_ok _ hincr]
  simp only [if_pos hone]
  split
  next hrefused => rw [call_bind_error _ (execute_pexpire_refused hrefused)]
  next haccepted =>
    have hwritten : Keyspace.lookup (Function.update ks' key
        (some { c with deadline := some (now + windowMillis) })) now key = some _ :=
      Keyspace.lookup_update_self (by simp)
    rw [call_bind_ok _ (execute_pexpire_live hlive hpos haccepted),
      call_bind_ok _ (execute_pttl_live hwritten), hone]
    simp only [Counter.ttl, Nat.cast_add, add_sub_cancel_left]
    rfl

variable (backend) (implementation : Implementation)

/-- An increment of a free key opens a window. -/
theorem runCounter_opened (hfree : ks.lookup now key = none) (hpos : 0 < windowMillis)
    (haccepted : ¬ ExpiryRefused now windowMillis) :
    runCounter backend implementation now key windowMillis ks =
      (.ok (1, implementation.shown backend windowMillis),
        Function.update ks key (some ⟨1, some (now + windowMillis)⟩)) := by
  cases implementation with
  | lua =>
    -- `INCR` creates the counter and `PEXPIRE` gives it its deadline
    have hcreated : Keyspace.lookup (Function.update ks key (some ⟨1, none⟩)) now key = some _ :=
      Keyspace.lookup_update_self (by simp)
    simp only [runCounter, incrementScript_created (execute_incr_free hfree) hcreated hpos,
      if_neg haccepted, Function.update_idem]
    rfl
  | multiExec =>
    -- `SET` creates the counter with its deadline and `INCR` keeps that
    have hset : Keyspace.lookup (Function.update ks key (some ⟨0, some (now + windowMillis)⟩)) now key
        = some _ := Keyspace.lookup_update_self (by simp)
    have hincr : Keyspace.lookup (Function.update ks key (some ⟨1, some (now + windowMillis)⟩)) now key
        = some _ := Keyspace.lookup_update_self (by simp)
    simp only [runCounter, incrementTransaction, Backend.exec,
      execute_setPxNx_free hfree hpos haccepted,
      execute_incr_live hset (show (0 : ℤ) ≠ i64Max by decide), Function.update_idem, zero_add,
      execute_pttl_live hincr, Counter.ttl, Nat.cast_add, add_sub_cancel_left]
    rfl

/-- An increment of a free key whose window the server refuses fails, and leaves a counter without
a deadline. -/
theorem runCounter_refused (hfree : ks.lookup now key = none) (hpos : 0 < windowMillis)
    (hrefused : ExpiryRefused now windowMillis) :
    runCounter backend implementation now key windowMillis ks =
      (.error (.command .invalidExpireTime), Function.update ks key (some ⟨1, none⟩)) := by
  cases implementation with
  | lua =>
    have hcreated : Keyspace.lookup (Function.update ks key (some ⟨1, none⟩)) now key = some _ :=
      Keyspace.lookup_update_self (by simp)
    simp only [runCounter, incrementScript_created (execute_incr_free hfree) hcreated hpos,
      if_pos hrefused]
  | multiExec =>
    -- `EXEC` goes on after the refused `SET`
    simp only [runCounter, incrementTransaction, Backend.exec,
      execute_setPxNx_refused hfree hrefused, execute_incr_free hfree, execute_pttl_keyspace,
      collectReplies]

/-- An increment of a live key counts, when the server does not test its expiry time first and
refuse it. -/
theorem runCounter_counted (hlive : ks.lookup now key = some c) (hpos : 0 < windowMillis)
    (hvalue : 1 ≤ c.value) (hmax : c.value ≠ i64Max)
    (haccepted : implementation = .multiExec → backend.expiryFirst →
      ¬ ExpiryRefused now windowMillis) :
    runCounter backend implementation now key windowMillis ks =
      (.ok (implementation.shown backend (c.value + 1), implementation.shown backend (c.ttl now)),
        Function.update ks key (some { c with value := c.value + 1 })) := by
  have hcounted : Keyspace.lookup (Function.update ks key (some { c with value := c.value + 1 }))
      now key = some _ := Keyspace.lookup_update_self (Keyspace.lookup_eq_some.mp hlive).2
  have hincr : backend.execute now ks (.incr key) = _ := execute_incr_live hlive hmax
  cases implementation with
  | lua =>
    simp only [runCounter, incrementScript_counted hincr (by omega) hcounted]
    rfl
  | multiExec =>
    simp only [runCounter, incrementTransaction, Backend.exec,
      execute_setPxNx_live hlive hpos (haccepted rfl), hincr, execute_pttl_live hcounted]
    rfl

/-- A transaction whose `SET` the server refuses on a live key fails and counts all the same. -/
theorem runCounter_rejected (hlive : ks.lookup now key = some c) (hmax : c.value ≠ i64Max)
    (hfirst : backend.expiryFirst) (hrefused : ExpiryRefused now windowMillis) :
    runCounter backend .multiExec now key windowMillis ks =
      (.error (.command .invalidExpireTime),
        Function.update ks key (some { c with value := c.value + 1 })) := by
  have hincr : backend.execute now ks (.incr key) = _ := execute_incr_live hlive hmax
  simp only [runCounter, incrementTransaction, Backend.exec,
    execute_setPxNx_expiryFirst hfirst hrefused, hincr, execute_pttl_keyspace, collectReplies]

/-- An increment of a full counter fails and changes nothing. -/
theorem runCounter_overflow (hlive : ks.lookup now key = some c) (hmax : c.value = i64Max) :
    ∃ e, runCounter backend implementation now key windowMillis ks = (.error e, ks) := by
  have hincr : backend.execute now ks (.incr key) = _ := execute_incr_overflow hlive hmax
  cases implementation with
  | lua =>
    refine ⟨.command .incrementOverflow, ?_⟩
    simp only [runCounter, incrementScript]
    rw [call_bind_error _ hincr]
  | multiExec =>
    have hset := execute_setPxNx_taken backend 0 windowMillis hlive
    simp only [runCounter, incrementTransaction, Backend.exec, hset, hincr, execute_pttl_keyspace]
    -- the reply to `SET` only decides which error comes first
    rcases (backend.execute now ks (.setPxNx key 0 windowMillis)).1 with e | reply
    · exact ⟨.command e, rfl⟩
    · exact ⟨.command .incrementOverflow, rfl⟩

/-- What an increment of a live key can do: fail at the top of the counter's range, fail because the
transaction's `SET` is refused, or count. -/
theorem runCounter_live_cases (hlive : ks.lookup now key = some c) (hpos : 0 < windowMillis)
    (hvalue : 1 ≤ c.value) :
    (c.value = i64Max ∧
        ∃ e, runCounter backend implementation now key windowMillis ks = (.error e, ks)) ∨
      (c.value ≠ i64Max ∧ implementation = .multiExec ∧ backend.expiryFirst ∧
        ExpiryRefused now windowMillis ∧
        runCounter backend implementation now key windowMillis ks =
          (.error (.command .invalidExpireTime),
            Function.update ks key (some { c with value := c.value + 1 }))) ∨
      (c.value ≠ i64Max ∧
        (implementation = .multiExec → backend.expiryFirst → ¬ ExpiryRefused now windowMillis) ∧
        runCounter backend implementation now key windowMillis ks =
          (.ok (implementation.shown backend (c.value + 1),
              implementation.shown backend (c.ttl now)),
            Function.update ks key (some { c with value := c.value + 1 }))) := by
  by_cases hmax : c.value = i64Max
  · exact Or.inl ⟨hmax, runCounter_overflow backend implementation hlive hmax⟩
  · by_cases haccepted : implementation = .multiExec → backend.expiryFirst →
        ¬ ExpiryRefused now windowMillis
    · exact Or.inr (Or.inr ⟨hmax, haccepted,
        runCounter_counted backend implementation hlive hpos hvalue hmax haccepted⟩)
    · simp only [Classical.not_imp, not_not] at haccepted
      obtain ⟨rfl, hfirst, hrefused⟩ := haccepted
      exact Or.inr (Or.inl ⟨hmax, rfl, hfirst, hrefused,
        runCounter_rejected backend hlive hmax hfirst hrefused⟩)

/-! ## The keyspace after an increment -/

/-- The counter that an increment leaves, given the live counter of its key. -/
def counted (now windowMillis : ℕ) : Option Counter → Counter
  | none => ⟨1, if ExpiryRefused now windowMillis then none else some (now + windowMillis)⟩
  | some c => if c.value = i64Max then c else { c with value := c.value + 1 }

/-- The keyspace after an increment, by either implementation and whatever its result. -/
def counterAfter (now : ℕ) (key : String) (windowMillis : ℕ) (ks : Keyspace String) :
    Keyspace String :=
  Function.update ks key (some (counted now windowMillis (ks.lookup now key)))

/-- Every stored counter has counted something. -/
def Positive (ks : Keyspace String) : Prop := ∀ key c, ks key = some c → 1 ≤ c.value

theorem runCounter_keyspace (hks : Positive ks) (hpos : 0 < windowMillis) :
    (runCounter backend implementation now key windowMillis ks).2 =
      counterAfter now key windowMillis ks := by
  cases hlookup : ks.lookup now key with
  | none =>
    by_cases hrefused : ExpiryRefused now windowMillis
    · rw [runCounter_refused backend implementation hlookup hpos hrefused]
      simp only [counterAfter, hlookup, counted, if_pos hrefused]
    · rw [runCounter_opened backend implementation hlookup hpos hrefused]
      simp only [counterAfter, hlookup, counted, if_neg hrefused]
  | some c =>
    have hstored : ks key = some c := (Keyspace.lookup_eq_some.mp hlookup).1
    have hvalue : 1 ≤ c.value := hks key c hstored
    rcases runCounter_live_cases backend implementation hlookup hpos hvalue with
      ⟨hmax, e, he⟩ | ⟨hmax, -, -, -, he⟩ | ⟨hmax, -, he⟩
    · rw [he, counterAfter, hlookup, counted, if_pos hmax, ← hstored, Function.update_eq_self]
    · rw [he, counterAfter, hlookup, counted, if_neg hmax]
    · rw [he, counterAfter, hlookup, counted, if_neg hmax]

end RunCounter

end TowerRateLimiter
