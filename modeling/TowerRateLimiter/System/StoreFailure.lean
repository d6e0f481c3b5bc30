import TowerRateLimiter.Store.MemoryReference
import TowerRateLimiter.System.Memory

/-!
# Failing increments of the in-memory store

An increment fails only where it would have to open a window whose end the clock cannot represent.
It leaves the store as it found it, so that deleting it from a run changes nothing for the other
increments (`SameExcept`), and its error reaches the limiter as a store error, where the failure
mode decides.

Main result: `failing_increment_harmless`.
-/

namespace TowerRateLimiter

open Rust ExpiringCache FixedWindow

namespace MemoryStore

/-- No window of the key is active at `now`: it has no entry, its entry is gone or its window is
over. -/
def NoActiveWindow (store : MemoryStore) (key : String) (now : Instant) : Prop :=
  ∀ s, store key = some s → s.value.expiresAt ≤ now

variable {store : MemoryStore} {clock : String → ℕ} {book : Book String} {key : String}

/-! ## When an increment fails -/

/-- The store has no active window exactly where the reference would open one. -/
theorem Tracks.noActiveWindow_iff (h : Tracks store clock book) {now : Instant}
    (hclock : clock key ≤ now.nanos) :
    NoActiveWindow store key now ↔ Opens (book key) now.nanos := by
  cases hw : book key with
  | none =>
    have habsent := h.absent key hw
    exact ⟨fun _ w hw => absurd hw (by simp), fun _ s hs => absurd hs (by simp [habsent])⟩
  | some w =>
    cases hs : store key with
    | none =>
      -- the entry went no earlier than its window
      have hover := h.evicted key w hw hs
      refine ⟨fun _ v hv => ?_, fun _ s hs' => absurd hs' (by simp [hs])⟩
      rw [← Option.some.inj hv]
      exact hover.trans hclock
    | some s =>
      have hend := (h.present key w s hw hs).expiresAt
      refine ⟨fun hno v hv => ?_, fun hopens t ht => ?_⟩
      · rw [← Option.some.inj hv, ← hend]
        exact hno s hs
      · obtain rfl := Option.some.inj (hs.symm.trans ht)
        rw [Instant.le_def, hend]
        exact hopens w rfl

/-- **An increment fails exactly where no window is active and a new one would be out of range**,
and then changes nothing. -/
theorem Tracks.incrementUsage_cases (h : Tracks store clock book) (window : Duration) {a : Access}
    (readAt : Instant) (hclock : clock key ≤ a.now.nanos) (hlawful : a.Lawful (store key)) :
    ((NoActiveWindow store key a.now ∧ instantEnd ≤ a.now.nanos + window.nanos) ∧
        store.compute key window a = (.error .instantOutOfRange, store) ∧
        store.incrementUsage key window a readAt = (.error .instantOutOfRange, store)) ∨
      (¬ (NoActiveWindow store key a.now ∧ instantEnd ≤ a.now.nanos + window.nanos) ∧
        ∃ usage, (store.incrementUsage key window a readAt).1 = .ok usage) := by
  rw [h.noActiveWindow_iff hclock]
  rcases h.compute window hclock hlawful with ⟨hout, hcompute, -⟩ | ⟨hin, entry, _, hcompute, -⟩
  · refine Or.inl ⟨hout, hcompute, ?_⟩
    simp only [incrementUsage, hcompute, Except.map]
  · refine Or.inr ⟨hin, readOut entry readAt, ?_⟩
    simp only [incrementUsage, hcompute, Except.map]

/-! ## Deleting a failing increment -/

/-- Two runs over one store that differ in what became of one call. -/
structure SameExcept (call : ℕ) (r r' : StoreRun) : Prop where
  store : r.store = r'.store
  waiting : ∀ c, c ≠ call → r.waiting c = r'.waiting c
  results : r.results.filter (·.1 ≠ call) = r'.results.filter (·.1 ≠ call)

variable {call : ℕ} {r r' : StoreRun}

/-- Starting an increment with the same outcome keeps the runs together. -/
theorem SameExcept.update_waiting (h : SameExcept call r r') (c : ℕ)
    (result : Option (Except MemoryStoreError Entry)) :
    ∀ d, d ≠ call →
      Function.update r.waiting c result d = Function.update r'.waiting c result d := by
  intro d hd
  by_cases hc : d = c
  · rw [hc, Function.update_self, Function.update_self]
  · rw [Function.update_of_ne hc, Function.update_of_ne hc]
    exact h.waiting d hd

/-- Reading out another call gives the same result in both runs. -/
theorem SameExcept.readOut (h : SameExcept call r r') {c : ℕ} (now : Instant) (hc : c ≠ call) :
    SameExcept call (r.step (.readOut c now)) (r'.step (.readOut c now)) := by
  have hwaiting := h.waiting c hc
  cases hr : r.waiting c with
  | none => simpa only [StoreRun.step, ← hwaiting, hr] using h
  | some result =>
    simp only [StoreRun.step, ← hwaiting, hr]
    refine ⟨h.store, h.update_waiting c none, ?_⟩
    rw [List.filter_append, List.filter_append, h.results]

/-- Reading out the call itself changes nothing for the others. -/
theorem sameExcept_readOut (r : StoreRun) (call : ℕ) (now : Instant) :
    SameExcept call (r.step (.readOut call now)) r := by
  simp only [StoreRun.step]
  split
  · refine ⟨rfl, fun c hc => Function.update_of_ne hc .., ?_⟩
    rw [List.filter_append, List.filter_cons_of_neg (by simp), List.filter_nil, List.append_nil]
  · exact ⟨rfl, fun _ _ => rfl, rfl⟩

theorem SameExcept.symm (h : SameExcept call r r') : SameExcept call r' r :=
  ⟨h.store.symm, fun c hc => (h.waiting c hc).symm, h.results.symm⟩

theorem SameExcept.trans {r'' : StoreRun} (h : SameExcept call r r') (h' : SameExcept call r' r'') :
    SameExcept call r r'' :=
  ⟨h.store.trans h'.store, fun c hc => (h.waiting c hc).trans (h'.waiting c hc),
    h.results.trans h'.results⟩

/-- One more step of both runs. -/
theorem SameExcept.step (h : SameExcept call r r') (event : StoreEvent) :
    SameExcept call (r.step event) (r'.step event) := by
  cases event with
  | compute c key window a =>
    simp only [StoreRun.step, h.store]
    exact ⟨rfl, h.update_waiting c _, h.results⟩
  | readOut c now =>
    by_cases hc : c = call
    · subst hc
      exact ((sameExcept_readOut r c now).trans h).trans (sameExcept_readOut r' c now).symm
    · exact h.readOut now hc
  | evict key at' =>
    simp only [StoreRun.step, h.store]
    exact ⟨rfl, h.waiting, h.results⟩

/-- Every continuation of both runs. -/
theorem SameExcept.after (h : SameExcept call r r') (events : List StoreEvent) :
    SameExcept call (r.after events) (r'.after events) := by
  induction events generalizing r r' with
  | nil => exact h
  | cons event events ih => exact ih (h.step event)

/-- An atomic part that leaves the store alone only matters to its own call. -/
theorem sameExcept_compute {window : Duration} {a : Access}
    (h : (r.store.compute key window a).2 = r.store) :
    SameExcept call (r.step (.compute call key window a)) r :=
  ⟨h, fun _ hc => Function.update_of_ne hc .., rfl⟩

/-- A run is lawful for earlier clock readings as well. -/
theorem Lawful.mono {clock' : String → ℕ} {events : List StoreEvent}
    (h : Lawful store clock events) (hle : ∀ k, clock' k ≤ clock k) :
    Lawful store clock' events := by
  induction events generalizing store clock clock' with
  | nil => trivial
  | cons event events ih =>
    cases event with
    | compute call key window a =>
      obtain ⟨hclock, haccess, hrest⟩ := h
      refine ⟨(hle key).trans hclock, haccess, ih hrest fun k => ?_⟩
      by_cases hk : k = key
      · rw [hk, Function.update_self, Function.update_self]
      · rw [Function.update_of_ne hk, Function.update_of_ne hk]
        exact hle k
    | readOut call now => exact ih h hle
    | evict key at' =>
      refine ⟨h.1, ih h.2 fun k => ?_⟩
      by_cases hk : k = key
      · rw [hk, Function.update_self, Function.update_self]
        exact max_le_max_right _ (hle key)
      · rw [Function.update_of_ne hk, Function.update_of_ne hk]
        exact hle k

/-- A run stays lawful without an atomic part that leaves the store alone. -/
theorem Lawful.delete {window : Duration} {a : Access} {before later : List StoreEvent}
    (h : Lawful r.store clock (before ++ .compute call key window a :: later))
    (hstore : ((r.after before).store.compute key window a).2 = (r.after before).store) :
    Lawful r.store clock (before ++ later) := by
  induction before generalizing r clock with
  | nil =>
    obtain ⟨hclock, -, hrest⟩ := h
    rw [show (r.store.compute key window a).2 = r.store from hstore] at hrest
    refine hrest.mono fun k => ?_
    by_cases hk : k = key
    · rwa [hk, Function.update_self]
    · rw [Function.update_of_ne hk]
  | cons event before ih =>
    have hnext : ∀ clock', Lawful (r.step event).store clock'
        (before ++ .compute call key window a :: later) →
        Lawful (r.step event).store clock' (before ++ later) := fun clock' h => ih h hstore
    cases event with
    | compute _ key' window' a' => exact ⟨h.1, h.2.1, hnext _ h.2.2⟩
    | readOut c now =>
      have hsame : (r.step (.readOut c now)).store = r.store := (sameExcept_readOut r c now).store
      rw [hsame] at hnext
      exact hnext clock h
    | evict key' at' => exact ⟨h.1, hnext _ h.2⟩

end MemoryStore

/-! ## What the limiter makes of the error -/

section Limiter

variable {Head ReqBody ResBody E : Type}
  {Inner : Service (World memory Head ReqBody ResBody E) (Request Head ReqBody) (Response ResBody) E}
  {P : LimitProvider (World memory Head ReqBody ResBody E) Head ReqBody}

/-- A response future whose store future has failed goes on as its failure mode says: it is about to
answer with the error, or has passed the request on as it came. -/
def FollowsFailureMode
    (this : ResponseFuture Inner (World.sharedStore memory Head ReqBody ResBody E) P)
    (request : Request Head ReqBody) (error : RateLimitError)
    (w : World memory Head ReqBody ResBody E) : Prop :=
  ResponseFuture.step (this, w) =
    match this.config.storeFailureMode with
    | .reject => .ok none ({ this with state := .ready (.error request error) }, w)
    | .allow =>
        match Inner.call request (this.inner, w) with
        | .error p (inner, w) => .error p ({ this with inner, state := .done }, w)
        | .ok future (inner, w) => .ok none ({ this with inner, state := .inner future none }, w)

/-- Every failed store future is handled by the failure mode. -/
theorem followsFailureMode
    {this : ResponseFuture Inner (World.sharedStore memory Head ReqBody ResBody E) P}
    {request : Request Head ReqBody} {limit : UInt64} {error : RateLimitError}
    (hs : this.state = .store ⟨some (.error error)⟩ request limit)
    (w : World memory Head ReqBody ResBody E) : FollowsFailureMode this request error w := by
  have hpoll : (World.sharedStore memory Head ReqBody ResBody E).poll (⟨some (.error error)⟩, w) =
      .ok (.ready (.error error)) (⟨none⟩, w) := by
    show EStateM.Result.ok _ (_, w.note []) = _
    rw [World.note_nil]
    rfl
  have hpolicy : ResponseFuture.chargedPolicy this.config limit (.error error) = .error error := rfl
  have hafter := ResponseFuture.afterStore_error this request w hpolicy
  unfold FollowsFailureMode
  rw [ResponseFuture.step_store hs]
  simp only [hpoll, hafter]
  cases this.config.storeFailureMode with
  | reject => rfl
  | allow =>
    rcases Inner.call request (this.inner, w) with ⟨future, inner, w₁⟩ | ⟨p, inner, w₁⟩ <;> rfl

end Limiter

namespace MemoryStore

section Harmless

variable {Head ReqBody ResBody E : Type}
  (Inner : Service (World memory Head ReqBody ResBody E) (Request Head ReqBody) (Response ResBody) E)
  (P : LimitProvider (World memory Head ReqBody ResBody E) Head ReqBody)

/-- The error of a failing increment, as the limiter gets it. -/
def instantError : RateLimitError := .store "memory_store_error" "instant is out of range"

/-- **A failing increment is exact and harmless.** In every reachable state of the store an
increment fails if and only if its key has no active window and a window that starts now would end
past the range of the clock; in an active window it succeeds for every window argument. Every
continuation of the run then goes on as if the failing call had not been made: the same store, the
same outcomes of all other calls, and what was lawful is lawful without it. The limiter gets a store
error, which its failure mode handles, over any inner service and limit provider. -/
theorem failing_increment_harmless (before : List StoreEvent) (call : ℕ) (key : String)
    (window : Duration) (a : Access) (readAt : Instant)
    (hlawful : Lawful new (fun _ => 0) (before ++ [.compute call key window a])) :
    let r := StoreRun.start.after before
    ((∃ e, (r.store.incrementUsage key window a readAt).1 = .error e) ↔
      NoActiveWindow r.store key a.now ∧ instantEnd ≤ a.now.nanos + window.nanos) ∧
    (¬ NoActiveWindow r.store key a.now →
      ∀ window', ∃ usage, (r.store.incrementUsage key window' a readAt).1 = .ok usage) ∧
    ∀ e, (r.store.incrementUsage key window a readAt).1 = .error e →
      (∀ later,
        SameExcept call ((r.step (.compute call key window a)).after later) (r.after later) ∧
        (Lawful new (fun _ => 0) (before ++ .compute call key window a :: later) →
          Lawful new (fun _ => 0) (before ++ later))) ∧
      (∀ w : World memory Head ReqBody ResBody E,
        w.store = r.store → w.turn.store.access = a → w.turn.store.readAt = readAt →
        ∃ w', (World.sharedStore memory Head ReqBody ResBody E).increment () key window w =
            .ok ⟨some (.error instantError)⟩ w' ∧ w'.store = r.store) ∧
      ∀ (this : ResponseFuture Inner (World.sharedStore memory Head ReqBody ResBody E) P)
        request limit w,
        this.state = .store ⟨some (.error instantError)⟩ request limit →
        FollowsFailureMode this request instantError w := by
  intro r
  obtain ⟨clock, hsim, hclock, haccess, -⟩ :=
    simulates_start before [.compute call key window a] hlawful
  have hactive : ¬ NoActiveWindow r.store key a.now →
      ∀ window', ∃ usage, (r.store.incrementUsage key window' a readAt).1 = .ok usage := by
    intro hno window'
    rcases hsim.tracks.incrementUsage_cases window' readAt hclock haccess with
      ⟨hfails, -, -⟩ | ⟨-, hok⟩
    · exact absurd hfails.1 hno
    · exact hok
  rcases hsim.tracks.incrementUsage_cases window readAt hclock haccess with
    ⟨hfails, hcompute, hincrement⟩ | ⟨hin, usage, hok⟩
  · refine ⟨⟨fun _ => hfails, fun _ => ⟨_, congrArg Prod.fst hincrement⟩⟩, hactive, fun e he => ?_⟩
    have hsame : (r.store.compute key window a).2 = r.store := congrArg Prod.snd hcompute
    refine ⟨fun later => ⟨(sameExcept_compute hsame).after later, fun h => ?_⟩, ?_, ?_⟩
    · exact Lawful.delete (r := .start) h hsame
    · intro w hstore ha hreadAt
      simp only [World.sharedStore, hstore, ha, hreadAt]
      rw [hincrement]
      exact ⟨_, rfl, rfl⟩
    · intro this request limit w hs
      exact followsFailureMode hs w
  · have hnone : ∀ e, (r.store.incrementUsage key window a readAt).1 ≠ .error e := by
      intro e he
      exact absurd (hok.symm.trans he) (by simp)
    refine ⟨⟨?_, fun h => absurd h hin⟩, hactive, fun e he => absurd he (hnone e)⟩
    rintro ⟨e, he⟩
    exact absurd he (hnone e)

end Harmless

/-- The window of ten milliseconds that is over when the failing increment comes. -/
def openedWindow : List StoreEvent :=
  [.compute 0 "k" (.ofMillis 10) (accessAt true (.ofMillis 5))]

/-- The longest duration there is. -/
def longestWindow : Duration := ⟨2 ^ 64 * nanosPerSec - 1, by decide⟩

/-- An increment of an expired key with the longest window fails, and the next increment of the key
does not notice. -/
theorem failing_increment_harmless_longest :
    Lawful new (fun _ => 0)
        (openedWindow ++ [.compute 1 "k" longestWindow (accessAt true (.ofMillis 20))]) ∧
      ((StoreRun.start.after openedWindow).store.incrementUsage "k" longestWindow
        (accessAt true (.ofMillis 20)) (.ofMillis 20)).1 = .error .instantOutOfRange ∧
      SameExcept 1
        (((StoreRun.start.after openedWindow).step
            (.compute 1 "k" longestWindow (accessAt true (.ofMillis 20)))).after
          [.compute 2 "k" (.ofMillis 10) (accessAt true (.ofMillis 21))])
        ((StoreRun.start.after openedWindow).after
          [.compute 2 "k" (.ofMillis 10) (accessAt true (.ofMillis 21))]) := by
  have hlawful : Lawful new (fun _ => 0)
      (openedWindow ++ [.compute 1 "k" longestWindow (accessAt true (.ofMillis 20))]) :=
    ⟨by decide, ⟨fun _ s hs => absurd hs (by simp [new]), by decide⟩, by decide,
      ⟨fun _ s hs => ⟨⟨15 * 10 ^ 6, by rw [← Option.some.inj hs]; rfl, by decide⟩, by decide⟩,
        by decide⟩, trivial⟩
  have hfails : ((StoreRun.start.after openedWindow).store.incrementUsage "k" longestWindow
      (accessAt true (.ofMillis 20)) (.ofMillis 20)).1 = .error .instantOutOfRange := by decide
  obtain ⟨-, -, hharmless⟩ := failing_increment_harmless (World.inner memory Unit Unit Unit Unit)
    (World.provider memory Unit Unit Unit Unit) openedWindow 1 "k" longestWindow
    (accessAt true (.ofMillis 20)) (.ofMillis 20) hlawful
  exact ⟨hlawful, hfails, ((hharmless _ hfails).1 _).1⟩

end MemoryStore

end TowerRateLimiter
