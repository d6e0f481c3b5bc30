import TowerRateLimiter.Common.FixedWindow
import TowerRateLimiter.Store.RedisKeyspace

/-!
# The Redis store is a fixed-window counter

On a healthy server (every request answered, every deadline within range, the clock never going
back) the counters of the keyspace are the windows of the fixed-window reference. A key with
deadline `d` is still live at `d`, so a window of `w` milliseconds opened at `t` takes charges at
`t, t + 1, …, t + w`: the reference runs with windows one millisecond longer than asked for.

The store reports what the reference counts, except in that last millisecond: there `PTTL` is `0`,
which `usage_from_increment_result` refuses.
-/

namespace TowerRateLimiter

open Rust Redis FixedWindow

/-- The charge that a call makes on the reference. -/
def Call.charge (c : Call) : Charge String := ⟨c.redisKey, c.now, c.window.asMillis + 1⟩

/-- The window that a call lands in. -/
def Call.lands (c : Call) (book : Book String) : Window :=
  land (book c.redisKey) c.now (c.window.asMillis + 1)

/-- The call is answered, its window accepted and below `2 ^ 53` milliseconds, its deadline within
the server's range and the counter it meets below `2 ^ 53`. -/
structure Call.Healthy (ks : Keyspace String) (c : Call) : Prop where
  answered : c.delivery = .answered
  accepted : checkedWindowMillis c.window = .ok c.window.asMillis
  window : c.window.asMillis < 2 ^ 53
  inRange : (c.now : ℤ) + c.window.asMillis ≤ i64Max
  counter : ∀ counter, ks.lookup c.now c.redisKey = some counter → counter.value < 2 ^ 53

/-! ## The simulation -/

/-- The counter that stands for a window. -/
def counterOf (w : Window) : Counter := ⟨w.count, some (w.closes - 1)⟩

theorem counterOf_value (w : Window) : (counterOf w).value = w.count := rfl

/-- The keyspace holds the windows of the reference, all of which end at most `2 ^ 53` milliseconds
after the last clock reading. -/
structure RedisTracks (ks : Keyspace String) (clock : ℕ) (book : Book String) : Prop where
  counters : ∀ k, ks k = (book k).map counterOf
  nonempty : ∀ k w, book k = some w → 0 < w.closes
  near : ∀ k w, book k = some w → w.closes ≤ clock + 2 ^ 53

variable {backend : Backend} {ks : Keyspace String} {clock : ℕ} {book : Book String} {c : Call}

theorem redisTracks_empty (clock : ℕ) : RedisTracks .empty clock Book.empty where
  counters _ := rfl
  nonempty _ _ h := absurd h (by simp [Book.empty])
  near _ _ h := absurd h (by simp [Book.empty])

theorem RedisTracks.mono (h : RedisTracks ks clock book) {clock' : ℕ} (hle : clock ≤ clock') :
    RedisTracks ks clock' book where
  counters := h.counters
  nonempty := h.nonempty
  near k w hw := (h.near k w hw).trans (Nat.add_le_add_right hle _)

/-- The server finds a key live exactly while the reference has an active window. -/
theorem RedisTracks.lookup_of_opens (h : RedisTracks ks clock book) {now : ℕ} {key : String}
    (hopens : Opens (book key) now) : ks.lookup now key = none := by
  rw [Keyspace.lookup, h.counters key]
  cases hw : book key with
  | none => rfl
  | some w =>
    have hpos := h.nonempty key w hw
    have hclosed := hopens w hw
    simp only [Option.map_some, counterOf, Option.filter_some, Counter.live_some]
    rw [if_neg]
    simp only [decide_eq_true_eq]
    omega

theorem RedisTracks.lookup_of_active (h : RedisTracks ks clock book) {now : ℕ} {key : String}
    {w : Window} (hw : book key = some w) (hactive : now < w.closes) :
    ks.lookup now key = some (counterOf w) := by
  rw [Keyspace.lookup_eq_some, h.counters key, hw]
  refine ⟨rfl, ?_⟩
  rw [counterOf, Counter.live_some]
  omega

/-- The window that a call lands in takes the call, and ends within `2 ^ 53` milliseconds. -/
theorem RedisTracks.land_closes (h : RedisTracks ks c.now book) (hc : c.window.asMillis < 2 ^ 53) :
    c.now < (c.lands book).closes ∧
      (c.lands book).closes ≤ c.now + 2 ^ 53 := by
  unfold Call.lands
  by_cases hopens : Opens (book c.redisKey) c.now
  · rw [(land_of_opens hopens _).2.1]
    omega
  · obtain ⟨w, hw, hactive⟩ := exists_active_of_not_opens hopens
    rw [hw, land_of_active hactive]
    exact ⟨hactive, h.near _ w hw⟩

/-- Recording the charge's window keeps the simulation. -/
theorem RedisTracks.charge (h : RedisTracks ks c.now book) (hc : c.window.asMillis < 2 ^ 53) :
    RedisTracks (Function.update ks c.redisKey
        (some (counterOf (c.lands book))))
      c.now (book.charge c.charge) := by
  obtain ⟨hlt, hle⟩ := h.land_closes hc
  have hself : book.charge c.charge c.redisKey = some _ := Book.charge_self book c.charge
  have hother : ∀ k, k ≠ c.redisKey → book.charge c.charge k = book k :=
    fun k hk => Book.charge_of_ne book hk
  refine ⟨fun k => ?_, fun k w hw => ?_, fun k w hw => ?_⟩ <;> by_cases hk : k = c.redisKey
  · rw [hk, Function.update_self, hself]
    rfl
  · rw [Function.update_of_ne hk, hother k hk]
    exact h.counters k
  · rw [hk, hself] at hw
    exact Option.some.inj hw ▸ Nat.zero_lt_of_lt hlt
  · rw [hother k hk] at hw
    exact h.nonempty k w hw
  · rw [hk, hself] at hw
    exact Option.some.inj hw ▸ hle
  · rw [hother k hk] at hw
    exact h.near k w hw

/-- The pair that the server answers for a charge in window `w`: its number and the milliseconds to
the window's last. -/
def windowAnswer (w : Window) (now : ℕ) : ℤ × ℤ := (w.count, w.closes - 1 - now)

/-- **One answered call is one charge of the reference**, by either implementation. -/
theorem RedisTracks.runCounter (h : RedisTracks ks c.now book) (hks : Positive ks)
    (hc : c.Healthy ks) :
    runCounter backend c.implementation c.now c.redisKey c.window.asMillis ks =
      (.ok (windowAnswer (c.lands book) c.now),
        Function.update ks c.redisKey
          (some (counterOf (c.lands book)))) := by
  have hpos := (checkedWindowMillis_eq_ok hc.accepted).2
  have haccepted : ¬ ExpiryRefused c.now c.window.asMillis := Int.not_lt.mpr hc.inRange
  unfold Call.lands
  by_cases hopens : Opens (book c.redisKey) c.now
  · obtain ⟨-, hcloses, hcount⟩ := land_of_opens hopens (c.window.asMillis + 1)
    have hexact : c.implementation.shown backend c.window.asMillis = c.window.asMillis := by
      apply Implementation.shown_exact
      have := hc.window
      rw [abs_of_nonneg (by omega)]
      omega
    rw [runCounter_opened backend _ (h.lookup_of_opens hopens) hpos haccepted, hexact, windowAnswer,
      counterOf, hcloses, hcount]
    congr 3
    push_cast
    ring
  · obtain ⟨w, hw, hactive⟩ := exists_active_of_not_opens hopens
    have hlookup := h.lookup_of_active hw hactive
    have hvalue : (1 : ℤ) ≤ w.count := hks _ _ (Keyspace.lookup_eq_some.mp hlookup).1
    have hsmall := hc.counter _ hlookup
    rw [counterOf_value] at hsmall
    have hmax : (w.count : ℤ) ≠ i64Max := by
      simp only [i64Max]
      omega
    have httl : (counterOf w).ttl c.now = (w.closes : ℤ) - 1 - c.now := by
      simp only [counterOf, Counter.ttl]
      omega
    -- the window's end is near, so that a script reads the remaining time exactly
    have hnear := h.near _ w hw
    have hexact : ∀ n : ℤ, 0 ≤ n → n ≤ 2 ^ 53 → c.implementation.shown backend n = n :=
      fun n hn hle => Implementation.shown_exact _ (by rwa [abs_of_nonneg hn])
    have hcount : c.implementation.shown backend ((w.count : ℤ) + 1) = w.count + 1 :=
      hexact _ (by omega) (by omega)
    have hreset : c.implementation.shown backend ((w.closes : ℤ) - 1 - c.now) = w.closes - 1 - c.now :=
      hexact _ (by omega) (by omega)
    rw [runCounter_counted backend c.implementation hlookup hpos hvalue hmax (fun _ _ => haccepted),
      httl, hreset, hw, land_of_active hactive]
    simp only [windowAnswer, counterOf, hcount, Nat.cast_add, Nat.cast_one]

/-- A healthy call returns what its window gives, and keeps the simulation. -/
theorem RedisTracks.run (h : RedisTracks ks c.now book) (hks : Positive ks) (hc : c.Healthy ks) :
    (c.run backend ks).1 = usageOf backend
        (.ok (windowAnswer (c.lands book) c.now)) ∧
      RedisTracks (c.run backend ks).2 c.now (book.charge c.charge) := by
  rw [Call.run_answered hc.accepted hc.answered, h.runCounter hks hc]
  exact ⟨rfl, h.charge hc.window⟩

/-- The last call of a run has the last clock reading. -/
theorem pairwise_now_concat {calls : List Call}
    (h : ((calls ++ [c]).map Call.now).Pairwise (· ≤ ·)) :
    (calls.map Call.now).Pairwise (· ≤ ·) ∧ ∀ d ∈ calls, d.now ≤ c.now := by
  rw [List.map_append, List.map_singleton, List.pairwise_append] at h
  exact ⟨h.1, fun d hd => h.2.2 _ (List.mem_map_of_mem hd) _ (List.mem_singleton_self _)⟩

/-- Every prefix of a healthy run tracks the reference. -/
theorem redisTracks_after (calls : List Call) (hhealthy : AllCalls backend Call.Healthy .empty calls)
    (hclock : (calls.map Call.now).Pairwise (· ≤ ·)) (hlast : ∀ c ∈ calls, c.now ≤ clock) :
    RedisTracks (keyspaceAfter backend .empty calls) clock
      (Book.empty.after (calls.map Call.charge)) := by
  induction calls using List.reverseRecOn generalizing clock with
  | nil => exact redisTracks_empty clock
  | append_singleton calls c ih =>
    rw [allCalls_concat] at hhealthy
    obtain ⟨hsorted, hbefore⟩ := pairwise_now_concat hclock
    have htracks := ih hhealthy.1 hsorted hbefore
    rw [keyspaceAfter_concat, List.map_append, Book.after_append]
    exact (htracks.run (positive_after backend calls) hhealthy.2).2.mono (hlast c (by simp))

/-! ## What a healthy call returns -/

/-- The usage of a charge in window `w`: its number and the time to the window's last
millisecond. -/
def windowUsage (w : Window) (now : ℕ) : Usage where
  used := UInt64.ofNat w.count
  resetAfter := .ofMillis (UInt64.ofNat (w.closes - 1 - now))

section WindowUsage

variable {w : Window} {now : ℕ}

/-- Before its last millisecond a window gives its usage. -/
theorem usageOf_windowAnswer (backend : Backend) (hpos : 1 ≤ w.count) (hactive : now + 1 < w.closes) :
    usageOf backend (.ok (windowAnswer w now)) = .ok (windowUsage w now) := by
  have hused : ¬ (w.count : ℤ) < 1 := by omega
  have hreset : ¬ (w.closes : ℤ) - 1 - now ≤ 0 := by omega
  have hmillis : ((w.closes : ℤ) - 1 - now).toNat = w.closes - 1 - now := by omega
  simp only [usageOf, windowAnswer, Except.mapError, Except.bind, usageFromIncrementResult,
    if_neg hused, if_neg hreset, hmillis, Int.toNat_natCast, windowUsage]

/-- In its last millisecond a window gives an error. -/
theorem usageOf_windowAnswer_last (backend : Backend) (hpos : 1 ≤ w.count)
    (hlast : now + 1 = w.closes) :
    usageOf backend (.ok (windowAnswer w now)) =
      .error (RedisStoreError.invalidResetAfter 0).toRateLimitError := by
  have hused : ¬ (w.count : ℤ) < 1 := by omega
  have hreset : (w.closes : ℤ) - 1 - now = 0 := by omega
  simp only [usageOf, windowAnswer, Except.mapError, Except.bind, usageFromIncrementResult,
    if_neg hused, hreset, le_refl, if_true]

theorem windowUsage_used (hcount : w.count ≤ 2 ^ 53) :
    (windowUsage w now).used.toNat = w.count := by
  rw [windowUsage, UInt64.toNat_ofNat', Nat.mod_eq_of_lt (by omega)]

theorem windowUsage_resetAfter (hnear : w.closes ≤ now + 2 ^ 53) :
    (windowUsage w now).resetAfter.nanos = (w.closes - 1 - now) * nanosPerMilli := by
  have hmillis : w.closes - 1 - now < 2 ^ 64 := by omega
  simp only [windowUsage, Duration.ofMillis]
  rw [UInt64.toNat_ofNat', Nat.mod_eq_of_lt hmillis]

end WindowUsage

/-- The number of a charge is positive and at most `2 ^ 53`. -/
theorem RedisTracks.land_count (h : RedisTracks ks c.now book) (hc : c.Healthy ks) :
    1 ≤ (c.lands book).count ∧
      (c.lands book).count ≤ 2 ^ 53 := by
  unfold Call.lands
  by_cases hopens : Opens (book c.redisKey) c.now
  · rw [(land_of_opens hopens _).2.2]
    omega
  · obtain ⟨w, hw, hactive⟩ := exists_active_of_not_opens hopens
    have hsmall := hc.counter _ (h.lookup_of_active hw hactive)
    rw [counterOf_value] at hsmall
    rw [hw, land_of_active hactive]
    show 1 ≤ w.count + 1 ∧ w.count + 1 ≤ 2 ^ 53
    omega

/-- The window that a call lands in after the calls `pre`. -/
def windowOf (pre : List Call) (c : Call) : Window :=
  c.lands (Book.empty.after (pre.map Call.charge))

/-- The calls of `pre` in the window that `c` lands in. -/
def earlierInWindow (pre : List Call) (c : Call) : List (Call × Window) :=
  members Call.charge pre c.redisKey (windowOf pre c).serial

/-- **A healthy server makes the store fail only in the last millisecond of a window.** In every run
on a healthy server, by any mix of implementations, each call lands in a window that one of the
calls so far has opened and that is live through its deadline. Before the deadline the call returns
one more than the calls before it in the window, with a reset time above zero and at most the
milliseconds of the window; at the deadline it returns `InvalidResetAfter(0)`. -/
theorem healthy_increment (backend : Backend) (pre : List Call) (c : Call)
    (hhealthy : AllCalls backend Call.Healthy .empty (pre ++ [c]))
    (hclock : ((pre ++ [c]).map Call.now).Pairwise (· ≤ ·)) :
    ∃ opener ∈ pre ++ [c], opener.redisKey = c.redisKey ∧
      (windowOf pre c).opens = opener.now ∧
      (windowOf pre c).closes = opener.now + opener.window.asMillis + 1 ∧
      c.now ≤ opener.now + opener.window.asMillis ∧
      (c.now < opener.now + opener.window.asMillis →
        ∃ usage, (c.run backend (keyspaceAfter backend .empty pre)).1 = .ok usage ∧
          usage.used.toNat = 1 + (earlierInWindow pre c).length ∧
          0 < usage.resetAfter.nanos ∧
          usage.resetAfter.nanos ≤ opener.window.asMillis * nanosPerMilli) ∧
      (c.now = opener.now + opener.window.asMillis →
        (c.run backend (keyspaceAfter backend .empty pre)).1 =
          .error (RedisStoreError.invalidResetAfter 0).toRateLimitError) := by
  rw [allCalls_concat] at hhealthy
  obtain ⟨hsorted, hbefore⟩ := pairwise_now_concat hclock
  have htracks := redisTracks_after pre hhealthy.1 hsorted hbefore
  obtain ⟨hresult, -⟩ := htracks.run (positive_after backend pre) hhealthy.2
  obtain ⟨hlt, hnear⟩ := htracks.land_closes hhealthy.2.window
  obtain ⟨hpos, hcount⟩ := htracks.land_count hhealthy.2
  obtain ⟨opener, hmem, hkey, hopens, hcloses⟩ :
      ∃ opener ∈ pre ++ [c], opener.redisKey = c.redisKey ∧ (windowOf pre c).opens = opener.now ∧
        (windowOf pre c).closes = opener.now + (opener.window.asMillis + 1) :=
    exists_opener Call.charge (pre ++ [c]) (after_concat_self Call.charge _ pre c)
  have hnumber : (windowOf pre c).count = (earlierInWindow pre c).length + 1 :=
    count_land Call.charge pre c
  have hopened : opener.now ≤ c.now := by
    rcases List.mem_append.mp hmem with hmem | hmem
    · exact hbefore opener hmem
    · rw [List.mem_singleton.mp hmem]
  rw [← windowOf] at hresult hlt hnear hpos hcount
  refine ⟨opener, hmem, hkey, hopens, hcloses, by omega, fun hbefore => ?_, fun hlast => ?_⟩
  · -- `PTTL` is positive
    refine ⟨windowUsage (windowOf pre c) c.now, ?_, ?_, ?_, ?_⟩
    · rw [hresult, usageOf_windowAnswer backend hpos (by omega)]
    · rw [windowUsage_used hcount, hnumber, Nat.add_comm]
    · rw [windowUsage_resetAfter hnear]
      exact Nat.mul_pos (by omega) (by decide)
    · rw [windowUsage_resetAfter hnear]
      exact Nat.mul_le_mul_right _ (by omega)
  · -- the key is still live, with a `PTTL` of zero
    rw [hresult, usageOf_windowAnswer_last backend hpos (by omega)]

theorem healthy_callAt {ks : Keyspace String} {implementation : Implementation} {now : ℕ}
    {shown : Option Counter} (hks : ks (callAt implementation now).redisKey = shown)
    (h : ∀ counter ∈ shown, counter.value < 2 ^ 53) (hnow : (now : ℤ) + 10 ≤ i64Max) :
    (callAt implementation now).Healthy ks := by
  have hten : (callAt implementation now).window.asMillis = 10 :=
    (checkedWindowMillis_eq_ok checkedWindowMillis_tenMillis).1
  refine ⟨rfl, ?_, ?_, ?_, (small_callAt hks h).2⟩
  · rw [hten]
    exact checkedWindowMillis_tenMillis
  · rw [hten]
    decide
  · rw [hten]
    exact hnow

/-- The second call in a window of ten milliseconds, two milliseconds after the first. -/
theorem healthy_increment_second :
    AllCalls (.exact true) Call.Healthy .empty [callAt .lua 5, callAt .multiExec 7] ∧
      ∃ usage, ((callAt .multiExec 7).run (.exact true)
          (keyspaceAfter (.exact true) .empty [callAt .lua 5])).1 = .ok usage ∧
        usage.used.toNat = 2 ∧ 0 < usage.resetAfter.nanos := by
  have hhealthy : AllCalls (.exact true) Call.Healthy .empty
      ([callAt .lua 5] ++ [callAt .multiExec 7]) :=
    ⟨healthy_callAt rfl (by decide) (by decide), healthy_callAt rfl (by decide) (by decide), trivial⟩
  obtain ⟨opener, hmem, -, -, -, -, hok, -⟩ :=
    healthy_increment (.exact true) [callAt .lua 5] (callAt .multiExec 7) hhealthy (by decide)
  have hlive : (callAt .multiExec 7).now < opener.now + opener.window.asMillis := by
    rcases List.mem_append.mp hmem with hmem | hmem <;>
    · rw [List.mem_singleton.mp hmem]
      decide
  obtain ⟨usage, hresult, hused, hreset, -⟩ := hok hlive
  exact ⟨hhealthy, usage, hresult, hused.trans (by decide), hreset⟩

/-- A call exactly at the deadline of a live window fails on a healthy server. -/
theorem deadline_increment_fails :
    AllCalls (.exact true) Call.Healthy .empty [callAt .lua 5, callAt .multiExec 15] ∧
      ([callAt .lua 5, callAt .multiExec 15].map Call.now).Pairwise (· ≤ ·) ∧
      ((callAt .multiExec 15).run (.exact true)
          (keyspaceAfter (.exact true) .empty [callAt .lua 5])).1 =
        .error (RedisStoreError.invalidResetAfter 0).toRateLimitError :=
  ⟨⟨healthy_callAt rfl (by decide) (by decide), healthy_callAt rfl (by decide) (by decide), trivial⟩,
    by decide, rfl⟩

end TowerRateLimiter
