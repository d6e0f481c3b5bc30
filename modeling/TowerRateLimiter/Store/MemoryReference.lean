import TowerRateLimiter.Store.Memory

/-!
# The in-memory store is a fixed-window counter

Increments run concurrently. Each is an atomic step on its key at the closure's clock reading and a
later read-out; between them any steps of other increments may happen, and the cache may hide or
remove entries past their deadline. `StoreRun` interleaves these steps, `ReferenceRun` runs the
fixed-window counter on the same events, charging at the closure's clock reading.

`Tracks` is the simulation between the two. The cache's deadline is never before the window's end,
so an entry that the cache drops early enough to matter would have been restarted by the closure's
own comparison anyway.
-/

namespace TowerRateLimiter

open Rust ExpiringCache FixedWindow

namespace MemoryStore

/-- The charge an increment makes, with its clock reading in nanoseconds. -/
def chargeOf (key : String) (window : Duration) (now : Instant) : Charge String :=
  ⟨key, now.nanos, window.nanos⟩

/-- `used` and `reset_after` of a usage as numbers. -/
def view (usage : Usage) : ℕ × ℕ := (usage.used.toNat, usage.resetAfter.nanos)

/-- What a charge that landed in window `w` reports at the read-out. -/
def windowView (w : Window) (readAt : Instant) : ℕ × ℕ :=
  (min w.count u64Max, w.closes - readAt.nanos)

/-- A new window would end past the range of the clock. -/
def OutOfRange (book : Book String) (key : String) (window : Duration) (now : Instant) : Prop :=
  Opens (book key) now.nanos ∧ instantEnd ≤ now.nanos + window.nanos

instance (book : Book String) (key : String) (window : Duration) (now : Instant) :
    Decidable (OutOfRange book key window now) := inferInstanceAs (Decidable (_ ∧ _))

/-! ## The simulation -/

/-- An entry holds the count and the end of window `w`, and its slot does not expire earlier. -/
structure Holds (s : Slot Entry) (w : Window) : Prop where
  used : s.value.used.toNat = min w.count u64Max
  expiresAt : s.value.expiresAt.nanos = w.closes
  deadline : ∃ d, s.deadline = some d ∧ w.closes ≤ d

/-- The store tracks the reference book: a cached entry holds its key's last window, and a window
whose entry is gone was over at the key's last clock reading. -/
structure Tracks (store : MemoryStore) (clock : String → ℕ) (book : Book String) : Prop where
  absent : ∀ k, book k = none → store k = none
  present : ∀ k w s, book k = some w → store k = some s → Holds s w
  evicted : ∀ k w, book k = some w → store k = none → w.closes ≤ clock k

variable {store : MemoryStore} {clock : String → ℕ} {book : Book String}

theorem tracks_new : Tracks new clock Book.empty where
  absent _ _ := rfl
  present _ _ _ h _ := absurd h (by simp [Book.empty])
  evicted _ _ h _ := absurd h (by simp [Book.empty])

/-- A put never expires before the window of its entry. -/
theorem holds_slot (a : Access) {entry : Entry} {w : Window}
    (hused : entry.used.toNat = min w.count u64Max) (hend : entry.expiresAt.nanos = w.closes) :
    Holds (a.slot entryExpiry entry) w where
  used := hused
  expiresAt := hend
  deadline := by
    refine ⟨a.putAt.nanos + (entry.expiresAt.nanos - a.putAt.nanos), ?_, by omega⟩
    simp only [Access.slot, entryExpiry]
    split <;> rfl

variable {key : String} {window : Duration} {a : Access}

/-- Later clock readings keep the simulation. -/
theorem Tracks.tick (h : Tracks store clock book) {t : ℕ} (ht : clock key ≤ t) :
    Tracks store (Function.update clock key t) book where
  absent := h.absent
  present := h.present
  evicted k w hw hk := by
    have hold := h.evicted k w hw hk
    by_cases hkey : k = key
    · subst hkey
      rw [Function.update_self]
      exact hold.trans ht
    · rwa [Function.update_of_ne hkey]

/-- A put of the charge's window keeps the simulation. -/
theorem Tracks.put (h : Tracks store clock book) {entry : Entry} {t : ℕ}
    (hused : entry.used.toNat = min (land (book key) a.now.nanos window.nanos).count u64Max)
    (hend : entry.expiresAt.nanos = (land (book key) a.now.nanos window.nanos).closes) :
    Tracks (Function.update store key (some (a.slot entryExpiry entry)))
      (Function.update clock key t) (book.charge (chargeOf key window a.now)) := by
  refine ⟨fun k hk => ?_, fun k w s hw hs => ?_, fun k w hw hk => ?_⟩ <;> by_cases hkey : k = key
  · subst hkey
    exact absurd hk (by simp [Book.charge, chargeOf])
  · rw [Book.charge_of_ne _ (by exact hkey)] at hk
    rw [Function.update_of_ne hkey]
    exact h.absent k hk
  · subst hkey
    rw [Function.update_self] at hs
    have hw' := (Book.charge_self book (chargeOf k window a.now)).symm.trans hw
    rw [← Option.some.inj hs, ← Option.some.inj hw']
    exact holds_slot a hused hend
  · rw [Book.charge_of_ne _ (by exact hkey)] at hw
    rw [Function.update_of_ne hkey] at hs
    exact h.present k w s hw hs
  · subst hkey
    exact absurd hk (by simp)
  · rw [Book.charge_of_ne _ (by exact hkey)] at hw
    rw [Function.update_of_ne hkey] at hk ⊢
    exact h.evicted k w hw hk

/-- An eviction past the deadline keeps the simulation. -/
theorem Tracks.evict (h : Tracks store clock book) {t : ℕ}
    (hgone : ∃ s, store key = some s ∧ s.MayBeGone t) :
    Tracks (ExpiringCache.evict store key) (Function.update clock key (max (clock key) t)) book := by
  obtain ⟨s, hs, d, hd, hle⟩ := hgone
  have hother : ∀ k, k ≠ key → ExpiringCache.evict store key k = store k :=
    fun k hk => Function.update_of_ne hk ..
  have hself : ExpiringCache.evict store key key = none := Function.update_self ..
  refine ⟨fun k hk => ?_, fun k w s' hw hs' => ?_, fun k w hw hk => ?_⟩ <;> by_cases hkey : k = key
  · rw [hkey, hself]
  · rw [hother k hkey]
    exact h.absent k hk
  · rw [hkey, hself] at hs'
    exact absurd hs' (by simp)
  · rw [hother k hkey] at hs'
    exact h.present k w s' hw hs'
  · -- the slot's deadline is not before the end of its window
    subst hkey
    obtain ⟨d', hd', hle'⟩ := (h.present k w s hw hs).deadline
    rw [hd] at hd'
    rw [Function.update_self]
    exact (hle'.trans (Option.some.inj hd' ▸ hle)).trans (Nat.le_max_right _ _)
  · rw [hother k hkey] at hk
    rw [Function.update_of_ne hkey]
    exact h.evicted k w hw hk

/-- Where the reference opens a window, the closure is shown no active entry. -/
theorem Tracks.shown_expired (h : Tracks store clock book) (hopens : Opens (book key) a.now.nanos) :
    ∀ entry, a.shown (store key) = some entry → entry.expiresAt ≤ a.now := by
  intro entry hentry
  unfold Access.shown at hentry
  split at hentry
  · exact absurd hentry (by simp)
  · obtain ⟨s, hs, rfl⟩ := Option.map_eq_some_iff.mp hentry
    cases hw : book key with
    | none => exact absurd hs (by simp [h.absent key hw])
    | some w =>
      rw [Instant.le_def, (h.present key w s hw hs).expiresAt]
      exact hopens w hw

/-- Where the reference finds an active window, the closure is shown its entry: the cache could
neither have removed nor hidden it. -/
theorem Tracks.shown_active (h : Tracks store clock book) (hclock : clock key ≤ a.now.nanos)
    (hlawful : a.Lawful (store key)) {w : Window} (hw : book key = some w)
    (hactive : a.now.nanos < w.closes) :
    ∃ s, Holds s w ∧ a.shown (store key) = some s.value := by
  cases hs : store key with
  | none =>
    have := h.evicted key w hw hs
    omega
  | some s =>
    have hholds := h.present key w s hw hs
    refine ⟨s, hholds, ?_⟩
    -- a hidden entry would be past a deadline that is not before the end of the active window
    have hvisible : a.hidden = false := by
      by_contra hhidden
      obtain ⟨⟨d, hd, hle⟩, hlookup⟩ := hlawful.hidden (by simpa using hhidden) s hs
      obtain ⟨d', hd', hle'⟩ := hholds.deadline
      rw [hd] at hd'
      have := Option.some.inj hd'
      rw [Instant.le_def] at hlookup
      omega
    simp [Access.shown, hvisible]

/-- **One atomic step of the store is one charge of the reference**, which fails in the same
cases. -/
theorem Tracks.compute (h : Tracks store clock book) (window : Duration)
    (hclock : clock key ≤ a.now.nanos) (hlawful : a.Lawful (store key)) :
    (OutOfRange book key window a.now ∧
        store.compute key window a = (.error .instantOutOfRange, store) ∧
        Tracks store (Function.update clock key a.now.nanos) book) ∨
      (¬ OutOfRange book key window a.now ∧ ∃ entry store',
        store.compute key window a = (.ok entry, store') ∧
        entry.used.toNat = min (land (book key) a.now.nanos window.nanos).count u64Max ∧
        entry.expiresAt.nanos = (land (book key) a.now.nanos window.nanos).closes ∧
        Tracks store' (Function.update clock key a.now.nanos)
          (book.charge (chargeOf key window a.now))) := by
  by_cases hopens : Opens (book key) a.now.nanos
  · have hshown := h.shown_expired hopens
    obtain ⟨-, hcloses, hcount⟩ := land_of_opens hopens window.nanos
    by_cases hrange : a.now.nanos + window.nanos < instantEnd
    · refine Or.inr ⟨fun hout => Nat.not_le.mpr hrange hout.2, _, _, compute_fresh hshown hrange,
        ?_, hcloses.symm, h.put ?_ hcloses.symm⟩ <;>
      · rw [hcount]
        rfl
    · exact Or.inl ⟨⟨hopens, Nat.not_lt.mp hrange⟩,
        compute_outOfRange hshown (Nat.not_lt.mp hrange), h.tick hclock⟩
  · obtain ⟨w, hw, hactive⟩ := exists_active_of_not_opens hopens
    obtain ⟨s, hholds, hshown⟩ := h.shown_active hclock hlawful hw hactive
    have hland : land (book key) a.now.nanos window.nanos = { w with count := w.count + 1 } := by
      rw [hw, land_of_active hactive]
    have hused : (saturatingAdd s.value.used 1).toNat = min (w.count + 1) u64Max := by
      rw [toNat_saturatingAdd, hholds.used, UInt64.toNat_one]
      omega
    have hactive' : a.now < s.value.expiresAt := by
      show a.now.nanos < s.value.expiresAt.nanos
      rwa [hholds.expiresAt]
    refine Or.inr ⟨fun hout => hopens hout.1, _, _, compute_active hshown hactive', ?_, ?_,
      h.put ?_ ?_⟩
    · rw [hland]; exact hused
    · rw [hland]; exact hholds.expiresAt
    · rw [hland]; exact hused
    · rw [hland]; exact hholds.expiresAt

/-! ## Interleaved increments -/

/-- A step of a run: the atomic part of one increment, its read-out, or an entry removed by the
cache. `call` names the increment. -/
inductive StoreEvent where
  | compute (call : ℕ) (key : String) (window : Duration) (a : Access)
  | readOut (call : ℕ) (now : Instant)
  | evict (key : String) (at' : Instant)

/-- The store, the increments between their two steps and the results returned so far. -/
structure StoreRun where
  store : MemoryStore
  waiting : ℕ → Option (Except MemoryStoreError Entry)
  results : List (ℕ × Except MemoryStoreError Usage)

namespace StoreRun

/-- An empty store without increments. -/
def start : StoreRun := ⟨new, fun _ => none, []⟩

/-- One step. -/
def step (r : StoreRun) : StoreEvent → StoreRun
  | .compute call key window a =>
      { r with
        store := (r.store.compute key window a).2
        waiting := Function.update r.waiting call (some (r.store.compute key window a).1) }
  | .readOut call now =>
      match r.waiting call with
      | some result =>
          { r with
            waiting := Function.update r.waiting call none
            results := r.results ++ [(call, result.map (MemoryStore.readOut · now))] }
      | none => r
  | .evict key _ => { r with store := ExpiringCache.evict r.store key }

/-- A whole run. -/
def after (r : StoreRun) (events : List StoreEvent) : StoreRun := events.foldl step r

/-- A read-out takes the waiting outcome of its call, if there is one. -/
theorem step_readOut (r : StoreRun) (call : ℕ) (now : Instant) :
    r.step (.readOut call now) =
      { r with
        waiting := Function.update r.waiting call none
        results := r.results ++ (r.waiting call).toList.map fun result =>
          (call, result.map (MemoryStore.readOut · now)) } := by
  cases hr : r.waiting call with
  | none =>
    have hsame : Function.update r.waiting call none = r.waiting := by
      rw [← hr, Function.update_eq_self]
    simp only [step, hr, hsame, Option.toList_none, List.map_nil, List.append_nil]
  | some result => simp only [step, hr, Option.toList_some, List.map_singleton]

end StoreRun

/-- The reference on the same events: its windows, the charges waiting for their read-out and the
results. A charge that fails changes nothing. -/
structure ReferenceRun where
  book : Book String
  waiting : ℕ → Option (Option Window)
  results : List (ℕ × Option (ℕ × ℕ))

namespace ReferenceRun

/-- No windows and no charges. -/
def start : ReferenceRun := ⟨Book.empty, fun _ => none, []⟩

/-- One step: the charge happens at the closure's clock reading. -/
def step (r : ReferenceRun) : StoreEvent → ReferenceRun
  | .compute call key window a =>
      if OutOfRange r.book key window a.now then
        { r with waiting := Function.update r.waiting call (some none) }
      else
        { r with
          book := r.book.charge (chargeOf key window a.now)
          waiting := Function.update r.waiting call
            (some (some (land (r.book key) a.now.nanos window.nanos))) }
  | .readOut call now =>
      match r.waiting call with
      | some result =>
          { r with
            waiting := Function.update r.waiting call none
            results := r.results ++ [(call, result.map (windowView · now))] }
      | none => r
  | .evict _ _ => r

/-- A whole run. -/
def after (r : ReferenceRun) (events : List StoreEvent) : ReferenceRun := events.foldl step r

end ReferenceRun

/-- What the cache and the clocks may do along a run: `clock` is the last clock reading of each
key, which later closures on the key do not undercut. -/
def Lawful (store : MemoryStore) (clock : String → ℕ) : List StoreEvent → Prop
  | [] => True
  | .compute _ key window a :: events =>
      clock key ≤ a.now.nanos ∧ a.Lawful (store key) ∧
        Lawful (store.compute key window a).2 (Function.update clock key a.now.nanos) events
  | .readOut _ _ :: events => Lawful store clock events
  | .evict key at' :: events =>
      (∃ s, store key = some s ∧ s.MayBeGone at'.nanos) ∧
        Lawful (ExpiringCache.evict store key)
          (Function.update clock key (max (clock key) at'.nanos)) events

/-- The result of an atomic part, as the reference sees it. -/
def entryView : Except MemoryStoreError Entry → Option (ℕ × ℕ)
  | .ok entry => some (entry.used.toNat, entry.expiresAt.nanos)
  | .error _ => none

/-- A window, as the store's entry for it reads. -/
def windowEntryView (w : Window) : ℕ × ℕ := (min w.count u64Max, w.closes)

/-- A run of the store and the run of the reference on the same events. -/
structure Simulates (r : StoreRun) (clock : String → ℕ) (q : ReferenceRun) : Prop where
  tracks : Tracks r.store clock q.book
  waiting : ∀ call, (r.waiting call).map entryView = (q.waiting call).map (·.map windowEntryView)
  results : r.results.map (fun x => (x.1, x.2.toOption.map view)) = q.results

/-- Reading an entry out and reading its window out give the same numbers. -/
theorem view_readOut {result : Except MemoryStoreError Entry} {w : Option Window}
    (h : entryView result = w.map windowEntryView) (now : Instant) :
    (result.map (MemoryStore.readOut · now)).toOption.map view = w.map (windowView · now) := by
  cases result with
  | error e =>
    cases w with
    | none => rfl
    | some w => exact absurd h (by simp [entryView])
  | ok entry =>
    cases w with
    | none => exact absurd h (by simp [entryView])
    | some w =>
      simp only [entryView, windowEntryView, Option.map_some, Option.some.injEq,
        Prod.mk.injEq] at h
      simp only [Except.map, Except.toOption, Option.map_some, view, MemoryStore.readOut,
        Instant.nanos_saturatingDurationSince, windowView, h.1, h.2]

variable {r : StoreRun} {q : ReferenceRun}

/-- The atomic part of an increment keeps the simulation. -/
theorem Simulates.compute (h : Simulates r clock q) (call : ℕ)
    (hclock : clock key ≤ a.now.nanos) (hlawful : a.Lawful (r.store key)) :
    Simulates (r.step (.compute call key window a)) (Function.update clock key a.now.nanos)
      (q.step (.compute call key window a)) := by
  have hwaiting : ∀ (result : Except MemoryStoreError Entry) (w : Option Window),
      entryView result = w.map windowEntryView → ∀ c,
      (Function.update r.waiting call (some result) c).map entryView =
        (Function.update q.waiting call (some w) c).map (·.map windowEntryView) := by
    intro result w hview c
    by_cases hc : c = call
    · subst hc
      simp [hview]
    · rw [Function.update_of_ne hc, Function.update_of_ne hc]
      exact h.waiting c
  rcases h.tracks.compute window hclock hlawful with
    ⟨hout, hcompute, htracks⟩ | ⟨hin, entry, store', hcompute, hused, hend, htracks⟩
  · simp only [StoreRun.step, ReferenceRun.step, hcompute, if_pos hout]
    exact ⟨htracks, hwaiting _ _ rfl, h.results⟩
  · simp only [StoreRun.step, ReferenceRun.step, hcompute, if_neg hin]
    refine ⟨htracks, hwaiting _ _ ?_, h.results⟩
    simp only [entryView, windowEntryView, Option.map_some, hused, hend]

/-- The read-out of an increment keeps the simulation. -/
theorem Simulates.readOut (h : Simulates r clock q) (call : ℕ) (now : Instant) :
    Simulates (r.step (.readOut call now)) clock (q.step (.readOut call now)) := by
  have hcall := h.waiting call
  cases hr : r.waiting call with
  | none =>
    have hq : q.waiting call = none := by simpa [hr] using hcall.symm
    simpa only [StoreRun.step, ReferenceRun.step, hr, hq] using h
  | some result =>
    obtain ⟨w, hq, hview⟩ : ∃ w, q.waiting call = some w ∧
        entryView result = w.map windowEntryView := by
      rw [hr, Option.map_some] at hcall
      obtain ⟨w, hw, hview⟩ := Option.map_eq_some_iff.mp hcall.symm
      exact ⟨w, hw, hview.symm⟩
    simp only [StoreRun.step, ReferenceRun.step, hr, hq]
    refine ⟨h.tracks, fun c => ?_, ?_⟩
    · by_cases hc : c = call
      · subst hc
        simp
      · simp only [Function.update_of_ne hc]
        exact h.waiting c
    · rw [List.map_append, h.results, List.map_singleton, view_readOut hview]

/-- The whole run keeps the simulation, and what may follow it stays lawful. -/
theorem Simulates.after (events later : List StoreEvent) (h : Simulates r clock q)
    (hlawful : Lawful r.store clock (events ++ later)) :
    ∃ clock', Simulates (r.after events) clock' (q.after events) ∧
      Lawful (r.after events).store clock' later := by
  induction events generalizing r clock q with
  | nil => exact ⟨clock, h, hlawful⟩
  | cons event events ih =>
    cases event with
    | compute call key window a =>
      obtain ⟨hclock, haccess, hrest⟩ := hlawful
      exact ih (h.compute call hclock haccess) hrest
    | readOut call now =>
      refine ih (h.readOut call now) ?_
      rw [StoreRun.step_readOut]
      exact hlawful
    | evict key at' =>
      exact ih ⟨h.tracks.evict hlawful.1, h.waiting, h.results⟩ hlawful.2

/-- Every lawful run simulates the reference from the empty store on. -/
theorem simulates_start (events later : List StoreEvent)
    (hlawful : Lawful new (fun _ => 0) (events ++ later)) :
    ∃ clock, Simulates (StoreRun.start.after events) clock (ReferenceRun.start.after events) ∧
      Lawful (StoreRun.start.after events).store clock later := by
  have hstart : Simulates StoreRun.start (fun _ => 0) ReferenceRun.start :=
    ⟨tracks_new, fun _ => rfl, rfl⟩
  exact hstart.after events later hlawful

/-- **The in-memory store linearizes to the fixed-window counter.** Along every interleaving of
increments and every lawful choice of the cache, each increment returns what the reference returns
when it is charged at the closure's clock reading: the window's count, saturated at `u64::MAX`, and
the time from the read-out to the window's end. An increment fails exactly where the reference
cannot represent the end of the window it would open. -/
theorem increments_linearize (events : List StoreEvent)
    (hlawful : Lawful new (fun _ => 0) events) :
    (StoreRun.start.after events).results.map (fun x => (x.1, x.2.toOption.map view)) =
      (ReferenceRun.start.after events).results := by
  obtain ⟨clock, hsim, -⟩ := simulates_start events [] (by rwa [List.append_nil])
  exact hsim.results

/-- An access at one instant, which creates the entry if it is presented as absent and updates it
otherwise. -/
def accessAt (hidden : Bool) (now : Instant) : Access := ⟨hidden, now, now, now, !hidden⟩

/-- Two overlapping increments of one window with different window arguments, the removal of its
entry at the very end of the window, and the increment at that instant. -/
def boundaryRun : List StoreEvent :=
  [.compute 0 "k" (.ofMillis 10) ⟨true, .ofMillis 5, .ofMillis 5, .ofMillis 6, false⟩,
   .compute 1 "k" (.ofMillis 99) (accessAt false (.ofMillis 9)),
   .readOut 1 (.ofMillis 9),
   .evict "k" (.ofMillis 15),
   .compute 2 "k" (.ofMillis 10) (accessAt true (.ofMillis 15)),
   .readOut 0 (.ofMillis 20),
   .readOut 2 (.ofMillis 16)]

theorem increments_linearize_boundary :
    Lawful new (fun _ => 0) boundaryRun ∧
      (StoreRun.start.after boundaryRun).results.map (fun x => (x.1, x.2.toOption.map view)) =
        [(1, some (2, 6 * 10 ^ 6)), (0, some (1, 0)), (2, some (1, 9 * 10 ^ 6))] := by
  have hlawful : Lawful new (fun _ => 0) boundaryRun := by
    refine ⟨by decide, ⟨fun _ s hs => absurd hs (by simp [new]), by decide⟩,
      by decide, ⟨by simp [accessAt], by decide⟩, ?_⟩
    refine
      ⟨⟨_, rfl, 15 * 10 ^ 6, rfl, by decide⟩, by decide, ⟨fun _ s hs => ?_, by decide⟩, trivial⟩
    exact absurd hs (by simp [ExpiringCache.evict])
  exact ⟨hlawful, (increments_linearize boundaryRun hlawful).trans (by decide)⟩

end MemoryStore

end TowerRateLimiter
