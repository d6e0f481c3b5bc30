import TowerRateLimiter.Limiter.Response
import TowerRateLimiter.Store.MemoryReference

/-!
# What clients of the in-memory store are told

A `Journal` runs the store on the events of a run and keeps beside it the successful increments in
charge order and the read-outs, each with the increment it belongs to. Every increment carries the
count and the end of its window in the reference (`Accounted.entries`), so what a response says
about the window can be held against the later charges of the key.

Main result: `retryAfter_sound_and_tight`.
-/

namespace TowerRateLimiter

open Rust ExpiringCache FixedWindow

namespace MemoryStore

/-! ## The increments of a run and their read-outs -/

/-- A successful increment: its call, its key and window argument, the closure's clock reading and
the entry that the atomic part returned. -/
structure Landing where
  call : ℕ
  key : String
  window : Duration
  now : Instant
  entry : Entry
deriving DecidableEq

namespace Landing

/-- The increment as the fixed-window counter sees it. -/
def charge (x : Landing) : Charge String := chargeOf x.key x.window x.now

/-- What the increment returns when it is read out at `t`. -/
def usage (x : Landing) (t : Instant) : Usage := MemoryStore.readOut x.entry t

end Landing

/-- The increment of an event, if it makes one that succeeds. -/
def landing (store : MemoryStore) : StoreEvent → Option Landing
  | .compute call key window a =>
      (store.compute key window a).1.toOption.map fun entry => ⟨call, key, window, a.now, entry⟩
  | _ => none

/-- A run of the store, the increments between their two steps, all increments in charge order and
the read-outs in the order in which they happened. -/
structure Journal where
  run : StoreRun
  pending : ℕ → Option Landing
  landings : List Landing
  readings : List (Landing × Instant)

namespace Journal

/-- An empty store without increments. -/
def start : Journal := ⟨.start, fun _ => none, [], []⟩

/-- One step of the run. -/
def step (j : Journal) (event : StoreEvent) : Journal :=
  match event with
  | .compute call _ _ _ =>
      { j with
        run := j.run.step event
        pending := Function.update j.pending call (landing j.run.store event)
        landings := j.landings ++ (landing j.run.store event).toList }
  | .readOut call now =>
      { j with
        run := j.run.step event
        pending := Function.update j.pending call none
        readings := j.readings ++ (j.pending call).toList.map (·, now) }
  | .evict _ _ => { j with run := j.run.step event }

/-- A whole run. -/
def after (j : Journal) (events : List StoreEvent) : Journal := events.foldl step j

/-- Keeping a journal does not change the run. -/
theorem run_after (j : Journal) (events : List StoreEvent) :
    (j.after events).run = j.run.after events := by
  induction events generalizing j with
  | nil => rfl
  | cons event events ih =>
    have hstep : (j.step event).run = j.run.step event := by
      cases event <;> rfl
    show ((j.step event).after events).run = (j.run.step event).after events
    rw [ih, hstep]

/-- The successful results of the run. -/
def successes (j : Journal) : List (ℕ × Usage) :=
  j.run.results.filterMap fun x => x.2.toOption.map (x.1, ·)

end Journal

/-! ## Every increment knows its window -/

/-- The store tracks the reference on the increments so far, each of which was answered with the
count and the end of its window, and the increments of a key are in the order of their clock
readings. -/
structure Booked (store : MemoryStore) (clock : String → ℕ) (landings : List Landing) : Prop where
  tracks : Tracks store clock (Book.empty.after (landings.map Landing.charge))
  entries : ∀ x ∈ assign Landing.charge Book.empty landings,
    x.1.entry.used.toNat = min x.2.count u64Max ∧ x.1.entry.expiresAt.nanos = x.2.closes
  ordered : InOrder Landing.charge landings
  reached : ∀ x ∈ landings, x.now.nanos ≤ clock x.key

variable {store : MemoryStore} {landings : List Landing} {clock : String → ℕ} {key : String}
  {a : Access}

/-- Later clock readings. -/
theorem Booked.reached_update (h : Booked store clock landings) {t : ℕ} (ht : clock key ≤ t) :
    ∀ x ∈ landings, x.now.nanos ≤ Function.update clock key t x.key := by
  intro x hx
  have hold := h.reached x hx
  by_cases hkey : x.key = key
  · rw [hkey, Function.update_self]
    exact (hkey ▸ hold).trans ht
  · rwa [Function.update_of_ne hkey]

/-- An increment is booked if it succeeds. -/
theorem Booked.compute (h : Booked store clock landings) (call : ℕ) (window : Duration)
    (hclock : clock key ≤ a.now.nanos) (hlawful : a.Lawful (store key)) :
    Booked (store.compute key window a).2 (Function.update clock key a.now.nanos)
      (landings ++ (landing store (.compute call key window a)).toList) := by
  have hreached := h.reached_update hclock
  rcases h.tracks.compute window hclock hlawful with
    ⟨-, hcompute, htracks⟩ | ⟨-, entry, store', hcompute, hused, hend, htracks⟩
  · have hlanding : landing store (.compute call key window a) = none := by
      simp only [landing, hcompute, Except.toOption, Option.map_none]
    rw [hlanding, Option.toList_none, List.append_nil, hcompute]
    exact ⟨htracks, h.entries, h.ordered, hreached⟩
  · -- the increment is the last of the history, and its window the last of its key
    have hlanding : landing store (.compute call key window a) =
        some ⟨call, key, window, a.now, entry⟩ := by
      simp only [landing, hcompute, Except.toOption, Option.map_some]
    rw [hlanding, Option.toList_some, hcompute]
    refine ⟨?_, ?_, ?_, ?_⟩
    · rw [List.map_append, Book.after_append]
      exact htracks
    · rw [assign_concat]
      intro x hx
      rcases List.mem_append.mp hx with hx | hx
      · exact h.entries x hx
      · obtain rfl := List.mem_singleton.mp hx
        exact ⟨hused, hend⟩
    · refine List.pairwise_append.mpr ⟨h.ordered, List.pairwise_singleton _ _, ?_⟩
      intro x hx y hy hkey
      obtain rfl := List.mem_singleton.mp hy
      have hold := hreached x hx
      rwa [show x.key = key from hkey, Function.update_self] at hold
    · intro x hx
      rcases List.mem_append.mp hx with hx | hx
      · exact hreached x hx
      · obtain rfl := List.mem_singleton.mp hx
        rw [Function.update_self]

/-- A journal whose increments are booked, whose pending increments are those the run has waiting
and whose read-outs are the successful results. -/
structure Accounted (j : Journal) (clock : String → ℕ) : Prop where
  booked : Booked j.run.store clock j.landings
  pending : ∀ call x, j.pending call = some x → x.call = call ∧ x ∈ j.landings
  waiting : ∀ call, (j.run.waiting call).bind Except.toOption = (j.pending call).map Landing.entry
  readings : ∀ x ∈ j.readings, x.1 ∈ j.landings
  successes : j.successes = j.readings.map fun x => (x.1.call, x.1.usage x.2)

theorem accounted_start : Accounted .start (fun _ => 0) where
  booked :=
    { tracks := tracks_new
      entries := fun _ hx => absurd hx (by simp [Journal.start, assign])
      ordered := List.Pairwise.nil
      reached := fun _ hx => absurd hx (by simp [Journal.start]) }
  pending _ _ h := absurd h (by simp [Journal.start])
  waiting _ := rfl
  readings _ hx := absurd hx (by simp [Journal.start])
  successes := rfl

variable {j : Journal}

/-- The atomic part of an increment keeps the account. -/
theorem Accounted.compute (h : Accounted j clock) (call : ℕ) (window : Duration)
    (hclock : clock key ≤ a.now.nanos) (hlawful : a.Lawful (j.run.store key)) :
    Accounted (j.step (.compute call key window a)) (Function.update clock key a.now.nanos) := by
  refine ⟨h.booked.compute call window hclock hlawful, fun c x hx => ?_, fun c => ?_,
    fun x hx => List.mem_append_left _ (h.readings x hx), h.successes⟩
  · simp only [Journal.step] at hx ⊢
    by_cases hc : c = call
    · rw [hc, Function.update_self] at hx
      refine ⟨?_, List.mem_append_right _ (by simp [hx])⟩
      obtain ⟨entry, -, rfl⟩ := Option.map_eq_some_iff.mp hx
      exact hc.symm
    · rw [Function.update_of_ne hc] at hx
      obtain ⟨hcall, hmem⟩ := h.pending c x hx
      exact ⟨hcall, List.mem_append_left _ hmem⟩
  · simp only [Journal.step, StoreRun.step]
    by_cases hc : c = call
    · rw [hc, Function.update_self, Function.update_self, landing, Option.map_map]
      exact Option.map_id'.symm
    · rw [Function.update_of_ne hc, Function.update_of_ne hc]
      exact h.waiting c

/-- Reading out a pending increment returns its usage. -/
theorem filterMap_readOut {result : Option (Except MemoryStoreError Entry)} {x : Option Landing}
    {call : ℕ} (hcall : ∀ y ∈ x, y.call = call)
    (h : result.bind Except.toOption = x.map Landing.entry) (now : Instant) :
    (result.toList.map fun result => (call, result.map (MemoryStore.readOut · now))).filterMap
        (fun r => r.2.toOption.map (r.1, ·)) =
      (x.toList.map (·, now)).map fun r => (r.1.call, r.1.usage r.2) := by
  rcases result with _ | _ | entry
  · obtain rfl : x = none := Option.map_eq_none_iff.mp h.symm
    rfl
  · obtain rfl : x = none := Option.map_eq_none_iff.mp h.symm
    rfl
  · obtain ⟨y, rfl, rfl⟩ := Option.map_eq_some_iff.mp h.symm
    rw [← hcall y rfl]
    rfl

/-- A read-out keeps the account. -/
theorem Accounted.readOut (h : Accounted j clock) (call : ℕ) (now : Instant) :
    Accounted (j.step (.readOut call now)) clock := by
  simp only [Journal.step, StoreRun.step_readOut]
  refine ⟨h.booked, fun c x hx => ?_, fun c => ?_, fun x hx => ?_, ?_⟩
  · by_cases hc : c = call
    · exact absurd hx (by simp [hc])
    · exact h.pending c x (by rwa [← Function.update_of_ne hc none j.pending])
  · by_cases hc : c = call
    · simp [hc]
    · simp only [Function.update_of_ne hc]
      exact h.waiting c
  · rcases List.mem_append.mp hx with hx | hx
    · exact h.readings x hx
    · obtain ⟨y, hy, rfl⟩ := List.mem_map.mp hx
      exact (h.pending call y (Option.mem_toList.mp hy)).2
  · have hread := filterMap_readOut (fun y hy => (h.pending call y hy).1) (h.waiting call) now
    have hsuccesses := h.successes
    simp only [Journal.successes] at hsuccesses ⊢
    rw [List.filterMap_append, hsuccesses, hread, List.map_append]

/-- Every lawful run keeps the account. -/
theorem Accounted.after (events : List StoreEvent) (h : Accounted j clock)
    (hlawful : Lawful j.run.store clock events) : ∃ clock', Accounted (j.after events) clock' := by
  induction events generalizing j clock with
  | nil => exact ⟨clock, h⟩
  | cons event events ih =>
    cases event with
    | compute call key window a =>
      obtain ⟨hclock, haccess, hrest⟩ := hlawful
      exact ih (h.compute call window hclock haccess) hrest
    | readOut call now =>
      refine ih (h.readOut call now) ?_
      simp only [Journal.step, StoreRun.step_readOut]
      exact hlawful
    | evict key at' =>
      obtain ⟨hbooked, hpending, hwaiting, hreadings, hsuccesses⟩ := h
      refine ih ⟨⟨hbooked.tracks.evict hlawful.1, hbooked.entries, hbooked.ordered, ?_⟩, hpending,
        hwaiting, hreadings, hsuccesses⟩ hlawful.2
      exact hbooked.reached_update (Nat.le_max_left _ _)

/-! ## Retry-After -/

/-- The window of every increment that was read out. -/
theorem Accounted.exists_window (h : Accounted j clock) {x : Landing} {t : Instant}
    (hread : (x, t) ∈ j.readings) : ∃ w, (x, w) ∈ assign Landing.charge Book.empty j.landings := by
  have hmem := h.readings _ hread
  rw [← map_fst_assign Landing.charge Book.empty j.landings] at hmem
  obtain ⟨y, hy, rfl⟩ := List.mem_map.mp hmem
  exact ⟨y.2, hy⟩

/-- A read-out reports the time to the end of the increment's window. -/
theorem Booked.resetAfter_usage (h : Booked store clock landings) {x : Landing} {w : Window}
    (hw : (x, w) ∈ assign Landing.charge Book.empty landings) (t : Instant) :
    (x.usage t).resetAfter.nanos = w.closes - t.nanos := by
  rw [Landing.usage, MemoryStore.readOut, Instant.nanos_saturatingDurationSince, (h.entries _ hw).2]

/-- The first increment of a window is told that it is the first. -/
theorem Booked.used_of_head (h : Booked store clock landings) {serial : ℕ} {x : Landing × Window}
    (hx : (members Landing.charge landings key serial).head? = some x) : x.1.entry.used = 1 := by
  have hmem : x ∈ assign Landing.charge Book.empty landings :=
    List.mem_of_mem_filter (List.mem_of_mem_head? hx)
  have hused := (h.entries x hmem).1
  rw [count_of_head_members _ _ hx] at hused
  exact UInt64.toNat_inj.mp hused

/-- An increment at or after the end of an earlier one's window is in a later window. -/
theorem serial_lt_of_closes_le {x y : Landing} {w v : Window}
    {before later : List (Landing × Window)}
    (hsplit : assign Landing.charge Book.empty landings = before ++ (x, w) :: later)
    (hy : (y, v) ∈ later) (hkey : y.key = x.key) (hover : w.closes ≤ y.now.nanos) :
    w.serial < v.serial := by
  have hfollows := assign_follows Landing.charge landings
  rw [hsplit, List.pairwise_append, List.pairwise_cons] at hfollows
  rcases hfollows.2.1.1 (y, v) hy hkey.symm with hlt | ⟨-, -, -, -, hactive⟩
  · exact hlt
  · exact absurd hactive (Nat.not_lt.mpr hover)

variable {Body : Type}

/-- **`Retry-After` is sound and tight.** In every run, take an increment that was read out at `t`
and rejected with whatever limit, and the seconds that its response's `Retry-After` gives. A later
increment of the key at least that many seconds after `t` is in a later window than the rejected
one, and the first increment of that window is told `used = 1`; one second less is too early, unless
a second is all there is: the rejecting window is still active then. -/
theorem retryAfter_sound_and_tight (events : List StoreEvent)
    (hlawful : Lawful new (fun _ => 0) events) :
    let j := Journal.start.after events
    let windows := assign Landing.charge Book.empty j.landings
    j.run = StoreRun.start.after events ∧
    j.successes = j.readings.map (fun x => (x.1.call, x.1.usage x.2)) ∧
    ∀ x t, (x, t) ∈ j.readings → ∀ (name : String) (limit : UInt64) (policy : Policy)
      (fields : RateLimitFields) (response : Response Body),
      Policy.fromUsage name x.window limit (x.usage t) = .ok policy → policy.isRateLimited = true →
      let seconds := ceilSeconds policy.resetAfter
      (HeaderMap.getAll (appendRateLimitedResponseHeaders response ⟨policy, fields⟩).headers
          retryAfter).map HeaderValue.text =
        (HeaderMap.getAll response.headers retryAfter).map HeaderValue.text ++ [toString seconds] ∧
      1 ≤ seconds.toNat ∧ (∃ w, (x, w) ∈ windows) ∧
      ∀ before w later, windows = before ++ (x, w) :: later →
        (∀ y v, (y, v) ∈ later → y.key = x.key →
          t.nanos + seconds.toNat * nanosPerSec ≤ y.now.nanos →
          w.serial < v.serial ∧
            ((members Landing.charge j.landings y.key v.serial).head? = some (y, v) →
              ∀ t', (y.usage t').used = 1)) ∧
        (seconds.toNat = 1 ∨ t.nanos + (seconds.toNat - 1) * nanosPerSec < w.closes) := by
  intro j windows
  obtain ⟨clock, haccount⟩ := accounted_start.after events hlawful
  refine ⟨Journal.run_after _ events, haccount.successes, ?_⟩
  intro x t hread name limit policy fields response hpolicy hlimited seconds
  have hreset : policy.resetAfter = (x.usage t).resetAfter := by
    rw [Policy.fromUsage_eq_ok hpolicy]
  refine ⟨getAll_retryAfter_rateLimited response _, one_le_ceilSeconds _,
    haccount.exists_window hread, fun before w later hsplit => ?_⟩
  have hw : (x, w) ∈ windows := by
    rw [hsplit]
    exact List.mem_append_right _ List.mem_cons_self
  -- what the response says covers the time to the end of the window
  have hnanos : policy.resetAfter.nanos = w.closes - t.nanos :=
    hreset ▸ haccount.booked.resetAfter_usage hw t
  have hrange : policy.resetAfter.nanos < instantEnd := by
    have hcloses : x.entry.expiresAt.nanos = w.closes := (haccount.booked.entries _ hw).2
    have hend := x.entry.expiresAt.inRange
    omega
  obtain ⟨hcovers, htight⟩ : _ ≤ seconds.toNat * nanosPerSec ∧
      (seconds.toNat = 1 ∨ (seconds.toNat - 1) * nanosPerSec < _) := ceilSeconds_tight hrange
  refine ⟨fun y v hy hkey hlate => ⟨?_, fun hhead t' => haccount.booked.used_of_head hhead⟩, ?_⟩
  · exact serial_lt_of_closes_le hsplit hy hkey (by omega)
  · rcases htight with hone | hlt
    · exact Or.inl hone
    · exact Or.inr (by omega)

/-- Two increments in a window of a second and a half, the second of which is read out at once, and
one two seconds later. -/
def retryRun : List StoreEvent :=
  [.compute 0 "k" (.ofMillis 1500) (accessAt true (.ofMillis 5)),
   .compute 1 "k" (.ofMillis 1500) (accessAt false (.ofMillis 6)),
   .readOut 1 (.ofMillis 6),
   .compute 2 "k" (.ofMillis 1500) (accessAt true (.ofMillis 2006))]

theorem lawful_retryRun : Lawful new (fun _ => 0) retryRun :=
  ⟨by decide, ⟨fun _ s hs => absurd hs (by simp [new]), by decide⟩,
    by decide, ⟨by simp [accessAt], by decide⟩,
    by decide, ⟨fun _ s hs => ⟨⟨1505 * 10 ^ 6, by rw [← Option.some.inj hs]; rfl, by decide⟩,
      by decide⟩, by decide⟩, trivial⟩

/-- The second increment of `retryRun`. -/
def secondLanding : Landing :=
  ⟨1, "k", .ofMillis 1500, .ofMillis 6, ⟨2, .ofMillis 1505⟩⟩

/-- The third increment of `retryRun`. -/
def thirdLanding : Landing :=
  ⟨2, "k", .ofMillis 1500, .ofMillis 2006, ⟨1, .ofMillis 3506⟩⟩

/-- With a limit of one the second increment is rejected for two seconds, and the third is in the
next window. -/
theorem retryAfter_sound_and_tight_rejected :
    Lawful new (fun _ => 0) retryRun ∧
      (secondLanding, .ofMillis 6) ∈ (Journal.start.after retryRun).readings ∧
      ∃ w v, (secondLanding, w) ∈
          assign Landing.charge Book.empty (Journal.start.after retryRun).landings ∧
        (thirdLanding, v) ∈
          assign Landing.charge Book.empty (Journal.start.after retryRun).landings ∧
        w.serial < v.serial ∧ thirdLanding.entry.used = 1 := by
  have hread : (secondLanding, .ofMillis 6) ∈ (Journal.start.after retryRun).readings := by
    decide
  have hsplit : assign Landing.charge Book.empty (Journal.start.after retryRun).landings =
      [(⟨0, "k", .ofMillis 1500, .ofMillis 5, ⟨1, .ofMillis 1505⟩⟩,
          ⟨0, 5 * 10 ^ 6, 1505 * 10 ^ 6, 1⟩)] ++
        (secondLanding, ⟨0, 5 * 10 ^ 6, 1505 * 10 ^ 6, 2⟩) ::
          [(thirdLanding, ⟨1, 2006 * 10 ^ 6, 3506 * 10 ^ 6, 1⟩)] := by
    decide
  have hpolicy : Policy.fromUsage "p" secondLanding.window 1
      (secondLanding.usage (.ofMillis 6)) = .ok ⟨"p", 1, secondLanding.window, 2,
        (secondLanding.usage (.ofMillis 6)).resetAfter⟩ := rfl
  obtain ⟨-, -, -, hwindows⟩ := (retryAfter_sound_and_tight retryRun lawful_retryRun).2.2
    secondLanding (.ofMillis 6) hread "p" 1 _ .disabled (⟨429, [], ()⟩ : Response Unit) hpolicy
    (by decide)
  obtain ⟨hlater, hfirst⟩ := (hwindows _ _ _ hsplit).1 thirdLanding _ List.mem_cons_self rfl
    (by decide)
  rw [hsplit]
  exact ⟨lawful_retryRun, hread, _, _, by simp, by simp, hlater,
    hfirst (by decide) (.ofMillis 2006)⟩

end MemoryStore

end TowerRateLimiter
