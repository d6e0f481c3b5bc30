import TowerRateLimiter.Store.Redis
import Mathlib.Data.List.Induction

/-!
# Runs of Redis increments

Clients send increments to one server, which runs them one after another: a run is a list of
`Call`s, in the order in which the server executes them. Nothing is assumed about the clock readings
here.

Main results:

* `expires_iff_armed`: a run leaves every counter with a deadline exactly when each of its
  increments found its key live or asked for a window that the server accepts.
* `implementations_agree_iff`: the script and the transaction leave the same keyspace, and answer
  the same exactly when the transaction's `SET` is not refused on a live key.
-/

namespace TowerRateLimiter

open Rust Redis

/-- One increment of a run: the client's store and implementation, what becomes of the request, the
arguments and the server's clock reading. -/
structure Call where
  store : RedisStore
  implementation : Implementation
  delivery : Delivery
  key : String
  window : Duration
  now : ℕ

namespace Call

/-- The key in the database. -/
def redisKey (c : Call) : String := c.store.redisKey c.key

/-- The increment, on a keyspace. -/
def run (backend : Backend) (ks : Keyspace String) (c : Call) :
    Except RateLimitError Usage × Keyspace String :=
  c.store.increment backend c.implementation c.delivery c.now c.key c.window ks

/-- The call reaches the server with the window `windowMillis`. -/
def Sends (c : Call) (windowMillis : ℕ) : Prop :=
  checkedWindowMillis c.window = .ok windowMillis ∧ c.delivery ≠ .requestLost

end Call

/-- The keyspace after a run. -/
def keyspaceAfter (backend : Backend) (ks : Keyspace String) (calls : List Call) : Keyspace String :=
  calls.foldl (fun ks c => (c.run backend ks).2) ks

/-- What the calls of a run return. -/
def callResults (backend : Backend) : Keyspace String → List Call → List (Except RateLimitError Usage)
  | _, [] => []
  | ks, c :: calls => (c.run backend ks).1 :: callResults backend (c.run backend ks).2 calls

variable {backend : Backend} {ks : Keyspace String}

@[simp] theorem keyspaceAfter_cons (c : Call) (calls : List Call) :
    keyspaceAfter backend ks (c :: calls) = keyspaceAfter backend (c.run backend ks).2 calls := rfl

theorem keyspaceAfter_concat (calls : List Call) (c : Call) :
    keyspaceAfter backend ks (calls ++ [c]) = (c.run backend (keyspaceAfter backend ks calls)).2 := by
  simp only [keyspaceAfter, List.foldl_append, List.foldl_cons, List.foldl_nil]

/-! ## One call -/

theorem checkedWindowMillis_eq_ok {window : Duration} {windowMillis : ℕ}
    (h : checkedWindowMillis window = .ok windowMillis) :
    window.asMillis = windowMillis ∧ 0 < windowMillis := by
  unfold checkedWindowMillis at h
  split at h
  next => exact absurd h (by simp)
  next hzero =>
    split at h
    next => exact absurd h (by simp)
    next =>
      obtain rfl := Except.ok.inj h
      exact ⟨rfl, Nat.pos_of_ne_zero hzero⟩

/-- A call that reaches the server has the effect of its increment. -/
theorem Call.run_of_sends (hks : Positive ks) {c : Call} {windowMillis : ℕ}
    (h : c.Sends windowMillis) :
    (c.run backend ks).2 = counterAfter c.now c.redisKey windowMillis ks := by
  have hpos := (checkedWindowMillis_eq_ok h.1).2
  rw [← runCounter_keyspace backend c.implementation hks hpos]
  simp only [run, RedisStore.increment, h.1, incrementCounter, redisKey]
  cases hdelivery : c.delivery with
  | answered => rfl
  | requestLost => exact absurd hdelivery h.2
  | replyLost => rfl

/-- A call that does not reach the server changes nothing. -/
theorem Call.run_of_not_sends {c : Call} (h : ∀ windowMillis, ¬ c.Sends windowMillis) :
    (c.run backend ks).2 = ks := by
  simp only [run, RedisStore.increment]
  cases hwindow : checkedWindowMillis c.window with
  | error e => rfl
  | ok windowMillis =>
    have hlost : c.delivery = .requestLost := by
      by_contra hdelivery
      exact h windowMillis ⟨hwindow, hdelivery⟩
    simp only [hlost, incrementCounter]

/-- What a call makes of the server's answer. -/
def usageOf (backend : Backend) (answer : Except ClientError (ℤ × ℤ)) :
    Except RateLimitError Usage :=
  ((answer.mapError (.ofClientError backend)).bind usageFromIncrementResult).mapError
    (·.toRateLimitError)

/-- An answered call with an accepted window. -/
theorem Call.run_answered {c : Call} {windowMillis : ℕ}
    (hwindow : checkedWindowMillis c.window = .ok windowMillis) (hdelivery : c.delivery = .answered) :
    c.run backend ks =
      (usageOf backend
          (runCounter backend c.implementation c.now c.redisKey windowMillis ks).1,
        (runCounter backend c.implementation c.now c.redisKey windowMillis ks).2) := by
  simp only [run, RedisStore.increment, hwindow, hdelivery, incrementCounter]
  rfl

/-- A call that is not answered, or not sent, fails. -/
theorem Call.run_unanswered (backend : Backend) (ks : Keyspace String) {c : Call}
    (h : ¬ (c.delivery = .answered ∧ ∃ windowMillis, checkedWindowMillis c.window = .ok windowMillis)) :
    ∃ e, (c.run backend ks).1 = .error e := by
  simp only [run, RedisStore.increment]
  cases hwindow : checkedWindowMillis c.window with
  | error e => exact ⟨_, rfl⟩
  | ok windowMillis =>
    cases hdelivery : c.delivery with
    | answered => exact absurd ⟨hdelivery, windowMillis, hwindow⟩ h
    | requestLost => exact ⟨_, rfl⟩
    | replyLost => exact ⟨_, rfl⟩

/-- A call either changes nothing or has the effect of its increment. -/
theorem Call.run_cases (backend : Backend) (hks : Positive ks) (c : Call) :
    ((∀ windowMillis, ¬ c.Sends windowMillis) ∧ (c.run backend ks).2 = ks) ∨
      ∃ windowMillis, c.Sends windowMillis ∧
        (c.run backend ks).2 = counterAfter c.now c.redisKey windowMillis ks := by
  by_cases h : ∃ windowMillis, c.Sends windowMillis
  · obtain ⟨windowMillis, hsends⟩ := h
    exact Or.inr ⟨windowMillis, hsends, Call.run_of_sends hks hsends⟩
  · have hsends := not_exists.mp h
    exact Or.inl ⟨hsends, Call.run_of_not_sends hsends⟩

/-! ## Counters are positive -/

/-- A property of all counters survives an increment that gives its key a counter with it. -/
theorem forall_counterAfter {P : Counter → Prop} (hks : ∀ key c, ks key = some c → P c) {now : ℕ}
    {key : String} {windowMillis : ℕ} (h : P (counted now windowMillis (ks.lookup now key))) :
    ∀ k c, counterAfter now key windowMillis ks k = some c → P c := by
  intro k c hc
  by_cases hk : k = key
  · rw [counterAfter, hk, Function.update_self] at hc
    exact Option.some.inj hc ▸ h
  · rw [counterAfter, Function.update_of_ne hk] at hc
    exact hks k c hc

theorem one_le_value_counted {shown : Option Counter} (h : ∀ c ∈ shown, 1 ≤ c.value)
    (now windowMillis : ℕ) : 1 ≤ (counted now windowMillis shown).value := by
  cases shown with
  | none => exact le_refl _
  | some c =>
    have hc : 1 ≤ c.value := h c rfl
    simp only [counted]
    split
    · exact hc
    · exact hc.trans (Int.le_add_one (le_refl _))

/-- A call, also a failing one, keeps every counter positive. -/
theorem Positive.run (hks : Positive ks) (backend : Backend) (c : Call) :
    Positive (c.run backend ks).2 := by
  rcases c.run_cases backend hks with ⟨-, hsame⟩ | ⟨windowMillis, -, hafter⟩
  · rwa [hsame]
  · rw [hafter]
    apply forall_counterAfter hks
    exact one_le_value_counted (fun c hc => hks _ c (Keyspace.lookup_eq_some.mp hc).1) _ _

/-- Every counter of a run is positive. -/
theorem positive_after (backend : Backend) (calls : List Call) :
    Positive (keyspaceAfter backend .empty calls) := by
  induction calls using List.reverseRecOn with
  | nil => exact fun _ _ h => absurd h (by simp [keyspaceAfter, Keyspace.empty])
  | append_singleton calls c ih =>
    rw [keyspaceAfter_concat]
    exact ih.run backend c

/-! ## Deadlines -/

/-- Every counter has a deadline. -/
def Expires (ks : Keyspace String) : Prop := ∀ key c, ks key = some c → c.deadline ≠ none

/-- The server finds the key of the call live, or accepts the deadline the call asks for. -/
def Call.Armed (ks : Keyspace String) (c : Call) : Prop :=
  ∀ windowMillis, c.Sends windowMillis →
    ks.lookup c.now c.redisKey ≠ none ∨ ¬ ExpiryRefused c.now windowMillis

/-- A counter without a deadline is live at every clock reading. -/
theorem lookup_of_permanent {key : String} {c : Counter} (h : ks key = some c)
    (hdeadline : c.deadline = none) (now : ℕ) : ks.lookup now key = some c :=
  Keyspace.lookup_eq_some.mpr ⟨h, by simp [Counter.Live, hdeadline]⟩

/-- An increment of a live key keeps the key's deadline. -/
theorem deadline_counted_some (now windowMillis : ℕ) (c : Counter) :
    (counted now windowMillis (some c)).deadline = c.deadline := by
  simp only [counted]
  split <;> rfl

/-- One call leaves every counter with a deadline exactly when it found every counter with one and
was armed. -/
theorem expires_run_iff (hks : Positive ks) (c : Call) :
    Expires (c.run backend ks).2 ↔ Expires ks ∧ c.Armed ks := by
  rcases c.run_cases backend hks with ⟨hsends, hsame⟩ | ⟨windowMillis, hsends, hafter⟩
  · rw [hsame]
    exact ⟨fun h => ⟨h, fun w hw => absurd hw (hsends w)⟩, And.left⟩
  · rw [hafter]
    constructor
    · intro hexpires
      have hself := hexpires c.redisKey _ (Function.update_self ..)
      refine ⟨fun k v hv => ?_, fun w hw => ?_⟩
      · -- a counter that had no deadline still has none
        intro hnone
        by_cases hk : k = c.redisKey
        · subst hk
          rw [lookup_of_permanent hv hnone, deadline_counted_some] at hself
          exact hself hnone
        · exact hexpires k v ((Function.update_of_ne hk ..).trans hv) hnone
      · -- a free key and a refused deadline would leave the new counter without one
        obtain rfl : windowMillis = w := Except.ok.inj (hsends.1.symm.trans hw.1)
        by_contra hnot
        rw [not_or, not_not, not_not] at hnot
        rw [hnot.1, counted, if_pos hnot.2] at hself
        exact hself rfl
    · rintro ⟨hexpires, harmed⟩
      apply forall_counterAfter hexpires
      cases hlookup : ks.lookup c.now c.redisKey with
      | none =>
        have haccepted := (harmed windowMillis hsends).resolve_left (not_not.mpr hlookup)
        rw [counted, if_neg haccepted]
        exact Option.some_ne_none _
      | some v =>
        rw [deadline_counted_some]
        exact hexpires _ v (Keyspace.lookup_eq_some.mp hlookup).1

/-- Every call of a run meets `P` in the keyspace it is executed in. -/
def AllCalls (backend : Backend) (P : Keyspace String → Call → Prop) :
    Keyspace String → List Call → Prop
  | _, [] => True
  | ks, c :: calls => P ks c ∧ AllCalls backend P (c.run backend ks).2 calls

theorem allCalls_concat {P : Keyspace String → Call → Prop} {calls : List Call} {c : Call} :
    AllCalls backend P ks (calls ++ [c]) ↔
      AllCalls backend P ks calls ∧ P (keyspaceAfter backend ks calls) c := by
  induction calls generalizing ks with
  | nil => simp [AllCalls, keyspaceAfter]
  | cons d calls ih => rw [List.cons_append, AllCalls, AllCalls, ih, and_assoc, keyspaceAfter_cons]

/-- What follows for one call with positive counters follows along a run. -/
theorem AllCalls.imp {P Q : Keyspace String → Call → Prop} {calls : List Call} (hks : Positive ks)
    (himp : ∀ ks c, Positive ks → P ks c → Q ks c) (h : AllCalls backend P ks calls) :
    AllCalls backend Q ks calls := by
  induction calls generalizing ks with
  | nil => trivial
  | cons c calls ih => exact ⟨himp ks c hks h.1, ih (hks.run backend c) h.2⟩

/-- **No counter is left without a deadline exactly when every increment is armed.** A run leaves
every counter with a deadline if and only if each of its increments that reached the server found
its key live or asked for a deadline within `i64`. -/
theorem expires_iff_armed (backend : Backend) (calls : List Call) :
    Expires (keyspaceAfter backend .empty calls) ↔ AllCalls backend Call.Armed .empty calls := by
  induction calls using List.reverseRecOn with
  | nil => exact iff_of_true (fun _ _ h => absurd h (by simp [keyspaceAfter, Keyspace.empty])) trivial
  | append_singleton calls c ih =>
    rw [keyspaceAfter_concat, allCalls_concat, expires_run_iff (positive_after backend calls), ih]

/-- A call with the largest accepted window, at the clock reading `1`. -/
def refusedCall (implementation : Implementation) : Call where
  store := .new
  implementation := implementation
  delivery := .answered
  key := "k"
  window := ⟨(2 ^ 63 - 1) * 10 ^ 6, by decide⟩
  now := 1

/-- A later call on the same key, with a window of one second. -/
def laterCall (implementation : Implementation) : Call :=
  { refusedCall implementation with window := ⟨10 ^ 9, by decide⟩, now := 2 }

/-- Either implementation leaves the key of a refused call without a deadline, and the next call on
the key fails. -/
theorem refusedCall_permanent :
    checkedWindowMillis (refusedCall .lua).window = .ok (2 ^ 63 - 1) ∧
      ¬ Expires (keyspaceAfter (.exact true) .empty [refusedCall .lua]) ∧
      ¬ Expires (keyspaceAfter (.exact true) .empty [refusedCall .multiExec]) ∧
      callResults (.exact true) .empty [refusedCall .lua, laterCall .multiExec] =
        [.error (RedisStoreError.commandFailed "ERR invalid expire time").toRateLimitError,
          .error (RedisStoreError.invalidResetAfter (-1)).toRateLimitError] :=
  ⟨rfl, fun h => h (refusedCall .lua).redisKey ⟨1, none⟩ rfl rfl,
    fun h => h (refusedCall .lua).redisKey ⟨1, none⟩ rfl rfl, rfl⟩

/-! ## A counter without a deadline -/

/-- A usage needs a positive `PTTL`. -/
theorem usageFromIncrementResult_nonpos (used : ℤ) {ttl : ℤ} (h : ttl ≤ 0) :
    ∃ e, usageFromIncrementResult (used, ttl) = .error e := by
  by_cases hused : used < 1
  · exact ⟨_, if_pos hused⟩
  · exact ⟨_, (if_neg hused).trans (if_pos h)⟩

variable {c : Call} {counter : Counter}

/-- Every call on a counter without a deadline fails. -/
theorem Call.run_of_permanent (backend : Backend) (hks : Positive ks)
    (h : ks c.redisKey = some counter) (hnone : counter.deadline = none) :
    ∃ e, (c.run backend ks).1 = .error e := by
  by_cases hanswered : c.delivery = .answered ∧
      ∃ windowMillis, checkedWindowMillis c.window = .ok windowMillis
  · obtain ⟨hdelivery, windowMillis, hwindow⟩ := hanswered
    have hpos := (checkedWindowMillis_eq_ok hwindow).2
    have httl : counter.ttl c.now = -1 := by rw [Counter.ttl, hnone]
    have hone : c.implementation.shown backend (-1) = -1 :=
      Implementation.shown_exact _ (by decide)
    rw [run_answered hwindow hdelivery]
    rcases runCounter_live_cases backend c.implementation (lookup_of_permanent h hnone c.now) hpos
        (hks _ _ h) with ⟨-, e, he⟩ | ⟨-, -, -, -, he⟩ | ⟨-, -, he⟩
    · rw [he]
      exact ⟨_, rfl⟩
    · rw [he]
      exact ⟨_, rfl⟩
    · obtain ⟨e, hfail⟩ := usageFromIncrementResult_nonpos
        (c.implementation.shown backend (counter.value + 1)) (show (-1 : ℤ) ≤ 0 by decide)
      refine ⟨e.toRateLimitError, ?_⟩
      rw [he, httl, hone]
      simp only [usageOf, Except.mapError, Except.bind, hfail]
  · exact run_unanswered backend ks hanswered

/-- A counter without a deadline never gets one. -/
theorem permanent_run {key : String} (hks : Positive ks) (h : ks key = some counter)
    (hnone : counter.deadline = none) (c : Call) :
    ∃ counter', (c.run backend ks).2 key = some counter' ∧ counter'.deadline = none := by
  rcases c.run_cases backend hks with ⟨-, hsame⟩ | ⟨windowMillis, -, hafter⟩
  · exact ⟨counter, by rwa [hsame], hnone⟩
  · rw [hafter, counterAfter]
    by_cases hk : key = c.redisKey
    · subst hk
      refine ⟨_, Function.update_self .., ?_⟩
      rw [lookup_of_permanent h hnone, deadline_counted_some, hnone]
    · exact ⟨counter, by rwa [Function.update_of_ne hk], hnone⟩

/-- **A counter without a deadline locks its key**: whatever happens in between, every later call on
the key fails. -/
theorem later_calls_fail (backend : Backend) (calls later : List Call)
    (h : keyspaceAfter backend .empty calls c.redisKey = some counter)
    (hnone : counter.deadline = none) :
    ∃ e, (c.run backend (keyspaceAfter backend .empty (calls ++ later))).1 = .error e := by
  have hpermanent : ∃ counter',
      keyspaceAfter backend .empty (calls ++ later) c.redisKey = some counter' ∧
        counter'.deadline = none := by
    induction later using List.reverseRecOn with
    | nil => exact ⟨counter, by rwa [List.append_nil], hnone⟩
    | append_singleton later d ih =>
      obtain ⟨counter', hcounter', hnone'⟩ := ih
      rw [← List.append_assoc, keyspaceAfter_concat]
      exact permanent_run (positive_after backend _) hcounter' hnone' d
  obtain ⟨counter', hcounter', hnone'⟩ := hpermanent
  exact Call.run_of_permanent backend (positive_after backend _) hcounter' hnone'

/-! ## The two implementations -/

/-- The call, made with the other implementation. -/
def Call.through (c : Call) (implementation : Implementation) : Call :=
  { c with implementation := implementation }

/-- The second run makes the calls of the first, each with an implementation of its own. -/
def SameRequests (calls calls' : List Call) : Prop :=
  List.Forall₂ (fun c c' => c' = c.through c'.implementation) calls calls'

/-- The effect of a call does not depend on the implementation. -/
theorem Call.run_through (backend : Backend) (hks : Positive ks) (c : Call)
    (implementation : Implementation) :
    ((c.through implementation).run backend ks).2 = (c.run backend ks).2 := by
  rcases c.run_cases backend hks with ⟨hsends, hsame⟩ | ⟨windowMillis, hsends, hafter⟩
  · rw [hsame]
    exact run_of_not_sends hsends
  · rw [hafter]
    exact run_of_sends hks hsends

/-- The script and the transaction answer an increment alike: on a live key the transaction's `SET`
is not refused, and the remaining time is exact as a Lua number. -/
def Uniform (backend : Backend) (now : ℕ) (key : String) (windowMillis : ℕ)
    (ks : Keyspace String) : Prop :=
  ∀ counter, ks.lookup now key = some counter →
    (backend.expiryFirst → ¬ ExpiryRefused now windowMillis) ∧
      backend.luaNumber (counter.ttl now) = counter.ttl now

/-- The answers agree: both fail, or both are the same pair. -/
def SameAnswer (answer answer' : Except RedisStoreError (ℤ × ℤ)) : Prop :=
  answer.toOption = answer'.toOption

instance (answer answer' : Except RedisStoreError (ℤ × ℤ)) :
    Decidable (SameAnswer answer answer') :=
  inferInstanceAs (Decidable (_ = _))

/-- The window and the counter that a call meets are exact as Lua numbers. -/
def Call.Small (ks : Keyspace String) (c : Call) : Prop :=
  (∀ windowMillis, checkedWindowMillis c.window = .ok windowMillis → windowMillis < 2 ^ 53) ∧
    ∀ counter, ks.lookup c.now c.redisKey = some counter → counter.value < 2 ^ 53

theorem toOption_mapError {ε δ α : Type} (f : ε → δ) (x : Except ε α) :
    (x.mapError f).toOption = x.toOption := by
  cases x <;> rfl

/-- One increment answers the same by script and by transaction exactly when it is uniform. -/
theorem sameAnswer_iff_uniform {now windowMillis : ℕ} {key : String} (hks : Positive ks)
    (hpos : 0 < windowMillis) (hwindow : windowMillis < 2 ^ 53)
    (hcount : ∀ counter, ks.lookup now key = some counter → counter.value < 2 ^ 53) :
    SameAnswer (incrementCounter backend .lua .answered now key windowMillis ks).1
        (incrementCounter backend .multiExec .answered now key windowMillis ks).1 ↔
      Uniform backend now key windowMillis ks := by
  simp only [SameAnswer, incrementCounter, toOption_mapError, Uniform]
  cases hlookup : ks.lookup now key with
  | none =>
    -- both refuse the same deadlines of a free key
    refine iff_of_true ?_ (fun _ h => absurd h (by simp))
    by_cases hrefused : ExpiryRefused now windowMillis
    · rw [runCounter_refused backend _ hlookup hpos hrefused,
        runCounter_refused backend _ hlookup hpos hrefused]
    · have hexact : |(windowMillis : ℤ)| ≤ 2 ^ 53 := by
        rw [abs_of_nonneg (by omega)]
        omega
      rw [runCounter_opened backend _ hlookup hpos hrefused,
        runCounter_opened backend _ hlookup hpos hrefused, Implementation.shown_exact _ hexact,
        Implementation.shown_exact _ hexact]
  | some counter =>
    have hvalue : 1 ≤ counter.value := hks key counter (Keyspace.lookup_eq_some.mp hlookup).1
    have hsmall := hcount counter hlookup
    have hmax : counter.value ≠ i64Max := by
      simp only [i64Max]
      omega
    have hlua := runCounter_counted backend .lua hlookup hpos hvalue hmax (fun h => nomatch h)
    have hexact : backend.luaNumber (counter.value + 1) = counter.value + 1 := by
      apply backend.luaNumber_exact
      rw [abs_of_nonneg (by omega)]
      omega
    simp only [Option.some.injEq, forall_eq', hlua, Implementation.shown, hexact]
    by_cases hrejected : backend.expiryFirst ∧ ExpiryRefused now windowMillis
    · -- the script never sends the window for a live key, the transaction always does
      rw [runCounter_rejected backend hlookup hmax hrejected.1 hrejected.2]
      refine iff_of_false (fun h => nomatch h) (fun h => h.1 hrejected.1 hrejected.2)
    · have haccepted := not_and.mp hrejected
      rw [runCounter_counted backend .multiExec hlookup hpos hvalue hmax (fun _ => haccepted)]
      simp only [Except.toOption, Implementation.shown, Option.some.injEq, Prod.mk.injEq, true_and]
      exact ⟨fun h => ⟨haccepted, h⟩, And.right⟩

/-- The result of a call, by the pair that the server answers. -/
theorem toOption_usageOf (backend : Backend) (answer : Except ClientError (ℤ × ℤ)) :
    (usageOf backend answer).toOption =
      answer.toOption.bind fun pair => (usageFromIncrementResult pair).toOption := by
  cases answer with
  | error e => rfl
  | ok pair => exact toOption_mapError _ _

/-- A call is uniform with the window it sends. -/
def Call.Uniform (backend : Backend) (ks : Keyspace String) (c : Call) : Prop :=
  ∀ windowMillis, checkedWindowMillis c.window = .ok windowMillis →
    TowerRateLimiter.Uniform backend c.now c.redisKey windowMillis ks

/-- A uniform call returns the same with every implementation. -/
theorem Call.run_through_result (hks : Positive ks) {c : Call} (hsmall : c.Small ks)
    (huniform : c.Uniform backend ks) (implementation : Implementation) :
    ((c.through implementation).run backend ks).1.toOption = (c.run backend ks).1.toOption := by
  by_cases hanswered : c.delivery = .answered ∧
      ∃ windowMillis, checkedWindowMillis c.window = .ok windowMillis
  · obtain ⟨hdelivery, windowMillis, hwindow⟩ := hanswered
    have hpos := (checkedWindowMillis_eq_ok hwindow).2
    have hsame := (sameAnswer_iff_uniform hks hpos (hsmall.1 _ hwindow) hsmall.2).mpr
      (huniform _ hwindow)
    simp only [SameAnswer, incrementCounter, toOption_mapError] at hsame
    rw [run_answered hwindow hdelivery, run_answered (c := c.through implementation) hwindow hdelivery,
      toOption_usageOf, toOption_usageOf]
    have hany : ∀ i j : Implementation,
        (runCounter backend i c.now c.redisKey windowMillis ks).1.toOption =
          (runCounter backend j c.now c.redisKey windowMillis ks).1.toOption := by
      rintro (_ | _) (_ | _)
      exacts [rfl, hsame, hsame.symm, rfl]
    exact congrArg (Option.bind · _) (hany implementation c.implementation)
  · obtain ⟨e, he⟩ := run_unanswered backend ks hanswered
    obtain ⟨e', he'⟩ := run_unanswered backend ks (c := c.through implementation) hanswered
    rw [he, he']
    rfl

/-- Runs of the same requests leave the same keyspace, and return the same where every call is
uniform. -/
theorem sameRequests_run {calls calls' : List Call} (hks : Positive ks)
    (h : SameRequests calls calls') :
    keyspaceAfter backend ks calls' = keyspaceAfter backend ks calls ∧
      (AllCalls backend Call.Small ks calls → AllCalls backend (Call.Uniform backend) ks calls →
        (callResults backend ks calls').map (·.toOption) =
          (callResults backend ks calls).map (·.toOption)) := by
  induction h generalizing ks with
  | nil => exact ⟨rfl, fun _ _ => rfl⟩
  | @cons c c' calls calls' hc _ ih =>
    have hkeyspace : (c'.run backend ks).2 = (c.run backend ks).2 := by
      rw [hc]
      exact c.run_through backend hks _
    obtain ⟨hafter, hresults⟩ := ih (hks.run backend c)
    refine ⟨?_, fun hsmall huniform => ?_⟩
    · rw [keyspaceAfter_cons, keyspaceAfter_cons, hkeyspace, hafter]
    · have hresult : (c'.run backend ks).1.toOption = (c.run backend ks).1.toOption := by
        rw [hc]
        exact Call.run_through_result hks hsmall.1 huniform.1 _
      simp only [callResults, List.map_cons, hresult, hkeyspace,
        hresults hsmall.2 huniform.2]

/-- **The script and the transaction are interchangeable where every increment is uniform.** At
every call of a run with windows and counters below `2 ^ 53` both implementations leave the same
keyspace, and they answer the same if and only if the key is not live, or the `SET` is not refused
(and the remaining time exact as a Lua number). Exchanging implementations along a run never changes
its keyspaces, nor its results when all calls are uniform. -/
theorem implementations_agree_iff (backend : Backend) (calls : List Call)
    (hsmall : AllCalls backend Call.Small .empty calls) :
    AllCalls backend (fun ks c => ∀ windowMillis, checkedWindowMillis c.window = .ok windowMillis →
        (incrementCounter backend .lua .answered c.now c.redisKey windowMillis ks).2 =
            (incrementCounter backend .multiExec .answered c.now c.redisKey windowMillis ks).2 ∧
          (SameAnswer (incrementCounter backend .lua .answered c.now c.redisKey windowMillis ks).1
              (incrementCounter backend .multiExec .answered c.now c.redisKey windowMillis ks).1 ↔
            Uniform backend c.now c.redisKey windowMillis ks)) .empty calls ∧
      ∀ calls', SameRequests calls calls' →
        keyspaceAfter backend .empty calls' = keyspaceAfter backend .empty calls ∧
          (AllCalls backend (Call.Uniform backend) .empty calls →
            (callResults backend .empty calls').map (·.toOption) =
              (callResults backend .empty calls).map (·.toOption)) := by
  have hempty : Positive Keyspace.empty := positive_after backend []
  refine ⟨hsmall.imp hempty fun ks c hks hc windowMillis hwindow => ?_, fun calls' hsame => ?_⟩
  · have hpos := (checkedWindowMillis_eq_ok hwindow).2
    refine ⟨?_, sameAnswer_iff_uniform hks hpos (hc.1 _ hwindow) hc.2⟩
    simp only [incrementCounter, runCounter_keyspace backend _ hks hpos]
  · obtain ⟨hafter, hresults⟩ := sameRequests_run hempty hsame
    exact ⟨hafter, hresults hsmall⟩

/-- A window of ten milliseconds. -/
def tenMillis : Duration := ⟨10 * 10 ^ 6, by decide⟩

theorem checkedWindowMillis_tenMillis : checkedWindowMillis tenMillis = .ok 10 := rfl

/-- A call with that window. -/
def callAt (implementation : Implementation) (now : ℕ) : Call :=
  ⟨.new, implementation, .answered, "k", tenMillis, now⟩

theorem small_callAt {ks : Keyspace String} {implementation : Implementation} {now : ℕ}
    {shown : Option Counter} (hks : ks (callAt implementation now).redisKey = shown)
    (h : ∀ counter ∈ shown, counter.value < 2 ^ 53) : (callAt implementation now).Small ks := by
  refine ⟨fun windowMillis hwindow => ?_, fun counter hcounter => h counter ?_⟩
  · have hten := Except.ok.inj (checkedWindowMillis_tenMillis.symm.trans hwindow)
    omega
  · rw [← hks]
    exact (Keyspace.lookup_eq_some.mp hcounter).1

/-- Exchanging the implementations of two calls in one window. -/
theorem implementations_agree_iff_exchanged :
    AllCalls (.exact true) Call.Small .empty [callAt .lua 5, callAt .multiExec 7] ∧
      (callResults (.exact true) .empty [callAt .multiExec 5, callAt .lua 7]).map (·.toOption) =
        (callResults (.exact true) .empty [callAt .lua 5, callAt .multiExec 7]).map (·.toOption) := by
  have hsmall : AllCalls (.exact true) Call.Small .empty [callAt .lua 5, callAt .multiExec 7] :=
    ⟨small_callAt rfl (by decide), small_callAt rfl (by decide), trivial⟩
  refine ⟨hsmall, ((implementations_agree_iff _ _ hsmall).2 _ ?_).2 ?_⟩
  · exact .cons rfl (.cons rfl .nil)
  · refine ⟨fun windowMillis _ counter hcounter => ?_, fun windowMillis hwindow counter _ => ?_, trivial⟩
    · exact absurd hcounter (by simp [Keyspace.lookup, Keyspace.empty])
    · obtain rfl := Except.ok.inj (checkedWindowMillis_tenMillis.symm.trans hwindow)
      exact ⟨fun _ => by decide, rfl⟩

/-- Five milliseconds before the end of the clock's range the script counts in a live window of ten
milliseconds and the transaction fails. -/
theorem implementations_differ_late :
    AllCalls (.exact true) Call.Small .empty
        [callAt .lua (2 ^ 63 - 11), callAt .lua (2 ^ 63 - 6)] ∧
      ¬ SameAnswer
        (incrementCounter (.exact true) .lua .answered (2 ^ 63 - 6) "rl:k" 10
          (keyspaceAfter (.exact true) .empty [callAt .lua (2 ^ 63 - 11)])).1
        (incrementCounter (.exact true) .multiExec .answered (2 ^ 63 - 6) "rl:k" 10
          (keyspaceAfter (.exact true) .empty [callAt .lua (2 ^ 63 - 11)])).1 :=
  ⟨⟨small_callAt rfl (by decide), small_callAt rfl (by decide), trivial⟩, by decide⟩

end TowerRateLimiter
