import TowerRateLimiter.Store.MemoryReference
import TowerRateLimiter.Store.RedisReference

/-!
# Both stores are the same counter

A sequence of increments at whole milliseconds, made on a `MemoryStore` and on a `RedisStore`. The
two keep time differently: the first on the nanosecond clock of its process, where a window is over
at its end, the second on the server's millisecond clock, where a key outlives its deadline by that
one reading. One fixed-window reference in milliseconds stands between them, and `SameCounters` says
that the memory store holds its windows on the nanosecond clock and the keyspace holds them one
millisecond longer.
-/

namespace TowerRateLimiter

open Rust Redis ExpiringCache FixedWindow

/-- One increment made on both stores: its arguments, the time in milliseconds, how the Redis store
is compiled and what the in-memory store's cache does. -/
structure Increment where
  key : String
  window : Duration
  now : ℕ
  implementation : Implementation
  access : Access

/-- A step: an increment, or an entry removed by the in-memory store's cache. -/
inductive PairedStep where
  | increment (i : Increment)
  | evict (key : String) (at' : Instant)

namespace PairedStep

/-- The step as an event of the in-memory store. -/
def event : PairedStep → MemoryStore.StoreEvent
  | .increment i => .compute 0 i.key i.window i.access
  | .evict key at' => .evict key at'

end PairedStep

/-- What the increments return on a `MemoryStore` that is read out at the closure's clock
reading. -/
def memoryResults : MemoryStore → List PairedStep → List (Except MemoryStoreError Usage)
  | _, [] => []
  | memory, .increment i :: steps =>
      let (result, memory') := memory.incrementUsage i.key i.window i.access i.access.now
      result :: memoryResults memory' steps
  | memory, .evict key _ :: steps => memoryResults (ExpiringCache.evict memory key) steps

/-- The increment as a call of the Redis store. -/
def Increment.call (i : Increment) (store : RedisStore) : Call :=
  ⟨store, i.implementation, .answered, i.key, i.window, i.now⟩

/-- What the increments return on a `RedisStore`. -/
def redisResults (backend : Backend) (store : RedisStore) :
    Keyspace String → List PairedStep → List (Except RateLimitError Usage)
  | _, [] => []
  | ks, .increment i :: steps =>
      let (result, ks') := (i.call store).run backend ks
      result :: redisResults backend store ks' steps
  | ks, .evict _ _ :: steps => redisResults backend store ks steps

/-- The charge of an increment on the reference in milliseconds. -/
def Increment.charge (i : Increment) : Charge String := ⟨i.key, i.now, i.window.asMillis⟩

/-- An increment that both stores can make: its window is a positive whole number of milliseconds
below `2 ^ 53`, its deadline is within the range of both clocks, it does not fall on the deadline of
its key's window and its count is below `2 ^ 53`. `origin` is the reading of the process clock at
the server's epoch. -/
structure Increment.Comparable (origin : ℕ) (book : Book String) (i : Increment) : Prop where
  clock : i.access.now.nanos = origin + i.now * nanosPerMilli
  whole : i.window.nanos = i.window.asMillis * nanosPerMilli
  positive : 0 < i.window.asMillis
  window : i.window.asMillis < 2 ^ 53
  inRange : (i.now : ℤ) + i.window.asMillis ≤ i64Max
  instant : origin + (i.now + i.window.asMillis) * nanosPerMilli < instantEnd
  offDeadline : ∀ w, book i.key = some w → i.now ≠ w.closes
  count : (land (book i.key) i.now i.window.asMillis).count < 2 ^ 53

/-- Every increment of a sequence is comparable, and their times never decrease. -/
def Comparable (origin : ℕ) : ℕ → Book String → List PairedStep → Prop
  | _, _, [] => True
  | clock, book, .increment i :: steps =>
      clock ≤ i.now ∧ i.Comparable origin book ∧ Comparable origin i.now (book.charge i.charge) steps
  | clock, book, .evict _ _ :: steps => Comparable origin clock book steps

/-! ## Keys -/

/-- A store gives different keys different names in the database. -/
theorem RedisStore.redisKey_injective (store : RedisStore) : Function.Injective store.redisKey := by
  intro k k' h
  unfold redisKey formatRedisKey at h
  split at h
  · exact (String.append_right_inj _).mp h
  · exact (String.append_right_inj _).mp h

/-! ## The simulation -/

/-- A window in milliseconds on the process clock. -/
def onInstants (origin : ℕ) : Window → Window :=
  Window.reindex (fun t => origin + t * nanosPerMilli) (fun t => origin + t * nanosPerMilli)

/-- The reference's book on the process clock. -/
def instantBook (origin : ℕ) (book : Book String) : Book String :=
  fun k => (book k).map (onInstants origin)

theorem onInstants_count (origin : ℕ) (w : Window) : (onInstants origin w).count = w.count :=
  Window.reindex_count _ _ w

/-- A window whose last charge may come at its end. -/
def outliving : Window → Window := Window.reindex id (· + 1)

variable {origin clock : ℕ} {book : Book String} {i : Increment} {backend : Backend}
  {store : RedisStore} {memory : MemoryStore} {clocks : String → ℕ} {ks : Keyspace String}

/-- The process clock charges the reference's window. -/
theorem Increment.Comparable.land_onInstants (h : i.Comparable origin book) :
    land (instantBook origin book i.key) i.access.now.nanos i.window.nanos =
      onInstants origin (land (book i.key) i.now i.window.asMillis) := by
  apply land_reindex
  · exact h.clock.symm
  · rw [h.clock, h.whole]
    ring
  · intro w _
    rw [h.clock, Nat.add_lt_add_iff_left]
    exact Nat.mul_lt_mul_right (by decide)

/-- The server charges the reference's window, since no increment falls on a deadline. -/
theorem Increment.Comparable.land_outliving (h : i.Comparable origin book) :
    land ((book i.key).map outliving) i.now (i.window.asMillis + 1) =
      outliving (land (book i.key) i.now i.window.asMillis) := by
  apply land_reindex
  · rfl
  · rfl
  · intro w hw
    have hoff := h.offDeadline w hw
    omega

/-- The window that an increment lands in takes it, and ends within `2 ^ 53` milliseconds when the
windows before it do. -/
theorem Increment.Comparable.now_lt_closes (h : i.Comparable origin book) :
    i.now < (land (book i.key) i.now i.window.asMillis).closes := by
  have hpos := h.positive
  by_cases hopens : Opens (book i.key) i.now
  · rw [(land_of_opens hopens _).2.1]
    omega
  · obtain ⟨w, hw, hactive⟩ := exists_active_of_not_opens hopens
    rw [hw, land_of_active hactive]
    exact hactive

/-- The in-memory store holds the windows of the reference on the process clock, and the keyspace
holds them one millisecond longer. -/
structure SameCounters (origin : ℕ) (store : RedisStore) (memory : MemoryStore)
    (clocks : String → ℕ) (ks : Keyspace String) (clock : ℕ) (book : Book String) : Prop where
  memory : MemoryStore.Tracks memory clocks (instantBook origin book)
  positive : Positive ks
  redis : ∃ keys, RedisTracks ks clock keys ∧ ∀ k, keys (store.redisKey k) = (book k).map outliving

theorem sameCounters_empty (origin : ℕ) (store : RedisStore) (clocks : String → ℕ) :
    SameCounters origin store .new clocks .empty 0 Book.empty where
  memory := MemoryStore.tracks_new
  positive := fun _ _ h => absurd h (by simp [Keyspace.empty])
  redis := ⟨Book.empty, redisTracks_empty 0, fun _ => rfl⟩

/-- Reading out an entry on the process clock gives the usage that the server's window gives. -/
theorem readOut_eq_windowUsage {w : Window} {now : ℕ} {entry : Entry} {at' : Instant}
    (hused : entry.used.toNat = min w.count u64Max)
    (hend : entry.expiresAt.nanos = (onInstants origin w).closes)
    (hat : at'.nanos = origin + now * nanosPerMilli) (hcount : (outliving w).count ≤ 2 ^ 53)
    (hnear : (outliving w).closes ≤ now + 2 ^ 53) :
    MemoryStore.readOut entry at' = windowUsage (outliving w) now := by
  apply Usage.ext
  · apply UInt64.toNat_inj.mp
    have hmin : min w.count u64Max = w.count := Nat.min_eq_left (hcount.trans (by decide))
    rw [windowUsage_used hcount]
    exact hused.trans hmin
  · apply Duration.ext
    have hcloses : (outliving w).closes - 1 - now = w.closes - now := rfl
    rw [windowUsage_resetAfter hnear, hcloses, MemoryStore.readOut,
      Instant.nanos_saturatingDurationSince, hend, hat, Nat.sub_mul]
    exact Nat.add_sub_add_left ..

section Redis

variable {keys : Book String} (hkeys : RedisTracks ks i.now keys)
  (hnames : ∀ k, keys (store.redisKey k) = (book k).map outliving) (h : i.Comparable origin book)

include hnames h in
/-- The server charges the reference's window. -/
theorem lands_call :
    (i.call store).lands keys = outliving (land (book i.key) i.now i.window.asMillis) := by
  rw [← h.land_outliving, ← hnames]
  rfl

include hnames h in
/-- The server's windows after the increment are the reference's. -/
theorem charge_call (k : String) :
    keys.charge (i.call store).charge (store.redisKey k) =
      ((book.charge i.charge) k).map outliving := by
  by_cases hk : k = i.key
  · subst hk
    have hself : book.charge i.charge i.key = some _ := Book.charge_self book i.charge
    rw [hself, Option.map_some]
    exact (Book.charge_self keys (i.call store).charge).trans
      (congrArg some (lands_call hnames h))
  · have hname : store.redisKey k ≠ (i.call store).charge.key :=
      store.redisKey_injective.ne hk
    rw [Book.charge_of_ne keys hname, Book.charge_of_ne book (by exact hk), hnames]

include hkeys hnames h in
/-- A comparable increment is a healthy call. -/
theorem healthy_call : (i.call store).Healthy ks where
  answered := rfl
  accepted := by
    have hpos := h.positive
    have hwindow := h.window
    show checkedWindowMillis i.window = .ok i.window.asMillis
    rw [checkedWindowMillis, if_neg (by omega), if_neg (by simp only [i64Max]; omega)]
  window := h.window
  inRange := h.inRange
  counter := by
    intro counter hcounter
    by_cases hopens : Opens (keys (store.redisKey i.key)) i.now
    · exact absurd (hcounter.symm.trans (hkeys.lookup_of_opens hopens)) (by simp)
    · obtain ⟨w, hw, hactive⟩ := exists_active_of_not_opens hopens
      obtain rfl := Option.some.inj (hcounter.symm.trans (hkeys.lookup_of_active hw hactive))
      -- the increment is the next of the counter's window
      have hlands : (i.call store).lands keys = { w with count := w.count + 1 } := by
        rw [← land_of_active hactive (i.window.asMillis + 1), ← hw]
        rfl
      have hcount : w.count + 1 = (land (book i.key) i.now i.window.asMillis).count :=
        congrArg Window.count (hlands.symm.trans (lands_call hnames h))
      have hsmall := h.count
      rw [counterOf_value]
      omega

end Redis

/-- The in-memory store charges the reference's window. -/
theorem charge_onInstants (h : i.Comparable origin book) :
    (instantBook origin book).charge (MemoryStore.chargeOf i.key i.window i.access.now) =
      instantBook origin (book.charge i.charge) := by
  funext k
  by_cases hk : k = i.key
  · subst hk
    have hself : book.charge i.charge i.key = some _ := Book.charge_self book i.charge
    rw [instantBook, hself, Option.map_some]
    exact (Book.charge_self _ (MemoryStore.chargeOf i.key i.window i.access.now)).trans
      (congrArg some h.land_onInstants)
  · rw [Book.charge_of_ne _ (by exact hk), instantBook, instantBook,
      Book.charge_of_ne book (by exact hk)]

/-- An in-memory increment returns the usage of the reference's window. -/
theorem SameCounters.memory_increment (h : SameCounters origin store memory clocks ks clock book)
    (hc : i.Comparable origin book) (hclocks : clocks i.key ≤ i.access.now.nanos)
    (hlawful : i.access.Lawful (memory i.key)) :
    ∃ entry, memory.compute i.key i.window i.access =
        (.ok entry, (memory.compute i.key i.window i.access).2) ∧
      entry.used.toNat = min (land (book i.key) i.now i.window.asMillis).count u64Max ∧
      entry.expiresAt.nanos = (onInstants origin (land (book i.key) i.now i.window.asMillis)).closes ∧
      MemoryStore.Tracks (memory.compute i.key i.window i.access).2
        (Function.update clocks i.key i.access.now.nanos)
        (instantBook origin (book.charge i.charge)) := by
  rcases h.memory.compute i.window hclocks hlawful with
    ⟨hout, -, -⟩ | ⟨-, entry, memory', hcompute, hused, hend, htracks⟩
  · -- the end of the window is within the range of the clock
    have hend := hout.2
    rw [hc.clock, hc.whole, Nat.add_assoc, ← Nat.add_mul] at hend
    exact absurd hc.instant (Nat.not_lt.mpr hend)
  · rw [hc.land_onInstants] at hused hend
    rw [onInstants_count] at hused
    rw [charge_onInstants hc] at htracks
    rw [hcompute]
    exact ⟨entry, rfl, hused, hend, htracks⟩

/-- One increment on both stores: both return the usage of the reference's window. -/
theorem SameCounters.increment (h : SameCounters origin store memory clocks ks clock book)
    (backend : Backend) (hclock : clock ≤ i.now) (hc : i.Comparable origin book)
    (hclocks : clocks i.key ≤ i.access.now.nanos) (hlawful : i.access.Lawful (memory i.key)) :
    ∃ usage, memory.incrementUsage i.key i.window i.access i.access.now =
        (.ok usage, (memory.compute i.key i.window i.access).2) ∧
      ((i.call store).run backend ks).1 = .ok usage ∧
      SameCounters origin store (memory.compute i.key i.window i.access).2
        (Function.update clocks i.key i.access.now.nanos) ((i.call store).run backend ks).2 i.now
        (book.charge i.charge) := by
  obtain ⟨keys, hkeys, hnames⟩ := h.redis
  have hkeys : RedisTracks ks (i.call store).now keys := hkeys.mono hclock
  have hhealthy := healthy_call hkeys hnames hc
  obtain ⟨hresult, htracks⟩ : ((i.call store).run backend ks).1 = _ ∧
      RedisTracks ((i.call store).run backend ks).2 _ _ := hkeys.run h.positive hhealthy
  obtain ⟨-, hnear⟩ := hkeys.land_closes hhealthy.window
  obtain ⟨hpos, hcount⟩ := hkeys.land_count hhealthy
  rw [lands_call hnames hc] at hresult hnear hpos hcount
  obtain ⟨entry, hcompute, hused, hend, hmemory⟩ := h.memory_increment hc hclocks hlawful
  have hactive := hc.now_lt_closes
  refine ⟨windowUsage (outliving (land (book i.key) i.now i.window.asMillis)) i.now, ?_, ?_,
    hmemory, h.positive.run backend _, _, htracks, charge_call hnames hc⟩
  · rw [← readOut_eq_windowUsage hused hend hc.clock hcount hnear, MemoryStore.incrementUsage,
      hcompute]
    rfl
  · rw [hresult]
    exact usageOf_windowAnswer backend hpos (Nat.succ_lt_succ hactive)

/-- A whole sequence on both stores. -/
theorem SameCounters.results (backend : Backend) {steps : List PairedStep}
    (h : SameCounters origin store memory clocks ks clock book)
    (hcomparable : Comparable origin clock book steps)
    (hlawful : MemoryStore.Lawful memory clocks (steps.map PairedStep.event)) :
    ∃ usages : List Usage, memoryResults memory steps = usages.map .ok ∧
      redisResults backend store ks steps = usages.map .ok := by
  induction steps generalizing memory clocks ks clock book with
  | nil => exact ⟨[], rfl, rfl⟩
  | cons step steps ih =>
    cases step with
    | increment i =>
      obtain ⟨hclock, hc, hrest⟩ := hcomparable
      obtain ⟨hclocks, haccess, hlater⟩ := hlawful
      obtain ⟨usage, hmemory, hredis, hsame⟩ := h.increment backend hclock hc hclocks haccess
      obtain ⟨usages, hmemories, hredises⟩ := ih hsame hrest hlater
      refine ⟨usage :: usages, ?_, ?_⟩
      · simp only [memoryResults, hmemory, hmemories, List.map_cons]
      · simp only [redisResults, hredis, hredises, List.map_cons]
    | evict key at' =>
      exact ih ⟨h.memory.evict hlawful.1, h.positive, h.redis⟩ hcomparable hlawful.2

/-- **Both stores are the same fixed-window counter.** On every sequence of comparable increments at
non-decreasing whole milliseconds, with any lawful behaviour of the in-memory store's cache and by
any mix of Redis implementations, every increment succeeds on both stores and returns the same
`used` and the same `reset_after`. -/
theorem stores_agree (backend : Backend) (store : RedisStore) (origin : ℕ) (steps : List PairedStep)
    (hcomparable : Comparable origin 0 Book.empty steps)
    (hlawful : MemoryStore.Lawful .new (fun _ => 0) (steps.map PairedStep.event)) :
    ∃ usages : List Usage, memoryResults .new steps = usages.map .ok ∧
      redisResults backend store .empty steps = usages.map .ok := by
  exact (sameCounters_empty origin store _).results backend hcomparable hlawful

/-- Two increments of one window with different arguments, the removal of its entry at the window's
end, and the increment that opens the next window. -/
def pairedRun : List PairedStep :=
  [.increment ⟨"k", .ofMillis 10, 5, .lua, MemoryStore.accessAt true (.ofMillis 5)⟩,
   .increment ⟨"k", .ofMillis 20, 7, .multiExec, MemoryStore.accessAt false (.ofMillis 7)⟩,
   .evict "k" (.ofMillis 15),
   .increment ⟨"k", .ofMillis 10, 16, .lua, MemoryStore.accessAt true (.ofMillis 16)⟩]

theorem stores_agree_pairedRun :
    Comparable 0 0 Book.empty pairedRun ∧
      MemoryStore.Lawful .new (fun _ => 0) (pairedRun.map PairedStep.event) ∧
      ∃ usages : List Usage, memoryResults .new pairedRun = usages.map .ok ∧
        redisResults (.exact true) .new .empty pairedRun = usages.map .ok := by
  have hcomparable : Comparable 0 0 Book.empty pairedRun := by
    refine ⟨by decide, ⟨rfl, rfl, by decide, by decide, by decide, by decide, ?_, by decide⟩,
      by decide, ⟨rfl, rfl, by decide, by decide, by decide, by decide, ?_, by decide⟩,
      by decide, ⟨rfl, rfl, by decide, by decide, by decide, by decide, ?_, by decide⟩, trivial⟩
    · exact fun w hw => absurd hw (by simp [Book.empty])
    · intro w hw
      have hlast : some (⟨0, 5, 15, 1⟩ : Window) = some w := hw
      obtain rfl := Option.some.inj hlast
      decide
    · intro w hw
      have hlast : some (⟨0, 5, 15, 2⟩ : Window) = some w := hw
      obtain rfl := Option.some.inj hlast
      decide
  have hlawful : MemoryStore.Lawful .new (fun _ => 0) (pairedRun.map PairedStep.event) := by
    refine ⟨by decide, ⟨fun _ s hs => absurd hs (by simp [MemoryStore.new]), by decide⟩,
      by decide, ⟨by simp [MemoryStore.accessAt], by decide⟩, ⟨_, rfl, 15 * 10 ^ 6, rfl, by decide⟩,
      by decide, ⟨fun _ s hs => absurd hs (by simp [ExpiringCache.evict]), by decide⟩, trivial⟩
  exact ⟨hcomparable, hlawful, stores_agree (.exact true) .new 0 pairedRun hcomparable hlawful⟩

end TowerRateLimiter
