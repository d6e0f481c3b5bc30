import TowerRateLimiter.Limiter.Advertised
import TowerRateLimiter.Store.MemoryHistory
import TowerRateLimiter.Store.RedisReference

/-!
# Both stores advertise coherently

The reports of a run over either store obey `WindowLaws`, so everything advertised along the run is
coherent. In memory the window of a charge is its number in the reference; in Redis it is the
counter's deadline, which grows whenever a new counter takes a key over.

A script reads the remaining time as a Lua number. Where that rounds up past the window, the reset
is advertised beyond it (`reset_beyond_window`), so the calls by script have to read exact numbers.
-/

namespace TowerRateLimiter

open Rust Redis ExpiringCache FixedWindow

/-! ## The in-memory store -/

namespace MemoryStore

/-- The report of an increment in window `w` that is read out at `t`. -/
def Landing.report (x : Landing) (w : Window) (t : Instant) : Report ℕ where
  key := x.key
  window := x.window
  windowId := w.serial
  readAt := t.nanos
  usage := x.usage t

/-- The reports of all read-outs, in charge order. -/
def Journal.reports (j : Journal) : List (Report ℕ) :=
  (assign Landing.charge Book.empty j.landings).flatMap fun x =>
    (j.readings.filter (·.1 = x.1)).map fun y => x.1.report x.2 y.2

theorem Journal.mem_reports {j : Journal} {r : Report ℕ} :
    r ∈ j.reports ↔ ∃ x w t, (x, w) ∈ assign Landing.charge Book.empty j.landings ∧
      (x, t) ∈ j.readings ∧ r = x.report w t := by
  simp only [reports, List.mem_flatMap, List.mem_map, List.mem_filter, decide_eq_true_eq]
  constructor
  · rintro ⟨⟨x, w⟩, hw, ⟨y, t⟩, ⟨hread, rfl⟩, rfl⟩
    exact ⟨y, w, t, hw, hread, rfl⟩
  · rintro ⟨x, w, t, hw, hread, rfl⟩
    exact ⟨(x, w), hw, (x, t), ⟨hread, rfl⟩, rfl⟩

variable {store : MemoryStore} {clock : String → ℕ} {landings : List Landing} {j : Journal}

/-- When the increments of a key ask for one window, an increment is counted in a window that it
ends no later than that window after it. -/
theorem Booked.closes_le (h : Booked store clock landings)
    (hsame : ∀ x ∈ landings, ∀ y ∈ landings, x.key = y.key → x.window = y.window)
    {x : Landing} {w : Window} (hw : (x, w) ∈ assign Landing.charge Book.empty landings) :
    w.closes ≤ x.now.nanos + x.window.nanos := by
  obtain ⟨before, after, hlandings, opener, hmem, hkey, -, hcloses⟩ :=
    exists_opener_of_mem_assign Landing.charge hw
  have hordered := h.ordered
  have hx : x ∈ landings := by simp [hlandings]
  have hopener : opener ∈ landings := by
    rw [hlandings]
    rcases List.mem_append.mp hmem with hmem | hmem
    · exact List.mem_append_left _ hmem
    · rw [List.mem_singleton.mp hmem]
      exact List.mem_append_right _ List.mem_cons_self
  -- the opener charged first, and asked for the same window
  have hnow : opener.now.nanos ≤ x.now.nanos := by
    rcases List.mem_append.mp hmem with hmem | hmem
    · rw [hlandings] at hordered
      exact (List.pairwise_append.mp hordered).2.2 opener hmem x List.mem_cons_self hkey
    · rw [List.mem_singleton.mp hmem]
  have hwindow : opener.window = x.window := hsame opener hopener x hx hkey
  have hend : w.closes = opener.now.nanos + opener.window.nanos := hcloses
  rw [hend, hwindow]
  exact Nat.add_le_add_right hnow _

/-- Two increments of one window know the same end. -/
theorem closes_eq_of_serial_eq {x y : Landing} {w v : Window}
    (hw : (x, w) ∈ assign Landing.charge Book.empty landings)
    (hv : (y, v) ∈ assign Landing.charge Book.empty landings)
    (hkey : x.key = y.key) (hserial : w.serial = v.serial) : w.closes = v.closes := by
  have hpairs : (assign Landing.charge Book.empty landings).Pairwise fun a b =>
      a.1.key = b.1.key → a.2.serial = b.2.serial → a.2.closes = b.2.closes := by
    refine (assign_follows Landing.charge landings).imp fun {a b} hfollows hkey hserial => ?_
    rcases hfollows hkey with hlt | ⟨-, -, hcloses, -⟩
    · omega
    · exact hcloses
  refine hpairs.forall_of_forall_of_flip (fun _ _ _ _ => rfl) (hpairs.imp ?_) hw hv hkey hserial
  intro a b h hkey hserial
  exact (h hkey.symm hserial.symm).symm

/-- **The in-memory store obeys the window laws** when the increments of a key ask for one window
and no second clock reading is before the first. -/
theorem Accounted.windowLaws (h : Accounted j clock)
    (hsame : ∀ x ∈ j.landings, ∀ y ∈ j.landings, x.key = y.key → x.window = y.window)
    (hclock : ∀ x ∈ j.readings, x.1.now ≤ x.2) : WindowLaws j.reports where
  inside := by
    intro r hr
    obtain ⟨x, w, t, hw, hread, rfl⟩ := Journal.mem_reports.mp hr
    have hcloses := h.booked.closes_le hsame hw
    have hnow : x.now.nanos ≤ t.nanos := hclock _ hread
    show (x.usage t).resetAfter.nanos ≤ x.window.nanos
    rw [h.booked.resetAfter_usage hw]
    omega
  counts := by
    refine List.pairwise_flatMap.mpr ⟨fun x hx => ?_, ?_⟩
    · -- the read-outs of one increment carry one count
      refine List.pairwise_map.mpr (List.pairwise_of_forall_mem_list ?_)
      exact fun _ _ _ _ _ => Nat.le_refl _
    · refine (List.Pairwise.and_mem.mp (assign_follows Landing.charge j.landings)).imp ?_
      rintro ⟨x, w⟩ ⟨y, v⟩ ⟨hw, hv, hfollows⟩ r hr r' hr' ⟨hkey, hserial⟩
      obtain ⟨_, -, rfl⟩ := List.mem_map.mp hr
      obtain ⟨_, -, rfl⟩ := List.mem_map.mp hr'
      have hserial : w.serial = v.serial := hserial
      show x.entry.used.toNat ≤ y.entry.used.toNat
      rw [(h.booked.entries _ hw).1, (h.booked.entries _ hv).1]
      rcases hfollows hkey with hlt | ⟨-, -, -, hcount, -⟩
      · exact absurd hlt (Nat.not_lt.mpr hserial.ge)
      · exact min_le_min_right _ hcount.le
  elapses := by
    intro r hr r' hr' hwindow hread
    obtain ⟨x, w, t, hw, -, rfl⟩ := Journal.mem_reports.mp hr
    obtain ⟨y, v, t', hv, -, rfl⟩ := Journal.mem_reports.mp hr'
    have hcloses := closes_eq_of_serial_eq hw hv hwindow.1 hwindow.2
    have hle : t.nanos ≤ t'.nanos := hread
    show (y.usage t').resetAfter.nanos ≤ (x.usage t).resetAfter.nanos
    rw [h.booked.resetAfter_usage hw, h.booked.resetAfter_usage hv, hcloses]
    omega

end MemoryStore

/-! ## The Redis store -/

/-- The numbers that the call's script reads, if it is executed, are exact as Lua numbers. -/
def Call.ReadsExactly (backend : Backend) (ks : Keyspace String) (c : Call) : Prop :=
  ∀ windowMillis, c.Sends windowMillis → c.implementation = .lua →
    match ks.lookup c.now c.redisKey with
    | none => backend.luaNumber windowMillis = windowMillis
    | some counter =>
        backend.luaNumber (counter.value + 1) = counter.value + 1 ∧
          backend.luaNumber (counter.ttl c.now) = counter.ttl c.now

/-- The report of a call, if it succeeds. -/
def Call.report (backend : Backend) (ks : Keyspace String) (c : Call) :
    Option (Report (Option ℕ)) :=
  (c.run backend ks).1.toOption.map fun usage =>
    { key := c.redisKey
      window := c.window
      windowId := ((c.run backend ks).2 c.redisKey).bind Counter.deadline
      readAt := c.now
      usage := usage }

/-- The reports of a run, in charge order. -/
def redisReports (backend : Backend) : Keyspace String → List Call → List (Report (Option ℕ))
  | _, [] => []
  | ks, c :: calls =>
      (c.report backend ks).toList ++ redisReports backend (c.run backend ks).2 calls

variable {backend : Backend} {ks : Keyspace String} {clock : ℕ} {calls : List Call} {c : Call}

theorem redisReports_concat (calls : List Call) (c : Call) :
    redisReports backend ks (calls ++ [c]) = redisReports backend ks calls ++
      (c.report backend (keyspaceAfter backend ks calls)).toList := by
  induction calls generalizing ks with
  | nil => simp [redisReports, keyspaceAfter]
  | cons d calls ih =>
    rw [List.cons_append, redisReports, redisReports, ih, List.append_assoc, keyspaceAfter_cons]

/-- Counters and deadlines are within the server's range. -/
def InRange (ks : Keyspace String) : Prop :=
  ∀ k counter, ks k = some counter → (1 ≤ counter.value ∧ counter.value ≤ i64Max) ∧
    ∀ d, counter.deadline = some d → (d : ℤ) ≤ i64Max

theorem InRange.positive (h : InRange ks) : Positive ks := fun k counter hk => (h k counter hk).1.1

theorem InRange.run (h : InRange ks) (backend : Backend) (c : Call) :
    InRange (c.run backend ks).2 := by
  rcases c.run_cases backend h.positive with ⟨-, hsame⟩ | ⟨windowMillis, -, hafter⟩
  · rwa [hsame]
  · rw [hafter]
    refine forall_counterAfter (P := fun counter => (1 ≤ counter.value ∧ counter.value ≤ i64Max) ∧
      ∀ d, counter.deadline = some d → (d : ℤ) ≤ i64Max) h ?_
    cases hlookup : ks.lookup c.now c.redisKey with
    | none =>
      refine ⟨⟨le_refl _, show (1 : ℤ) ≤ i64Max by decide⟩, fun d hd => ?_⟩
      simp only [counted] at hd
      split at hd
      · exact absurd hd (by simp)
      next haccepted =>
        rw [← Option.some.inj hd]
        exact Int.not_lt.mp haccepted
    | some counter =>
      obtain ⟨⟨hlow, hhigh⟩, hdeadline⟩ := h _ counter (Keyspace.lookup_eq_some.mp hlookup).1
      simp only [counted]
      split
      · exact ⟨⟨hlow, hhigh⟩, hdeadline⟩
      next hmax => exact ⟨⟨by show 1 ≤ counter.value + 1; omega, by
        show counter.value + 1 ≤ i64Max; omega⟩, hdeadline⟩

/-- A counter that stands for the window with deadline `d` after `used` charges, or for a later
one. -/
def Reaches (counter : Counter) (d used : ℕ) : Prop :=
  ∀ d', counter.deadline = some d' → d < d' ∨ (d = d' ∧ used ≤ counter.value.toNat)

/-- A stored counter that is not found is past its deadline. -/
theorem exists_deadline_of_lookup {now : ℕ} {k : String} {counter : Counter}
    (hk : ks k = some counter) (hlookup : ks.lookup now k = none) :
    ∃ d, counter.deadline = some d ∧ d < now := by
  have hdead : ¬ counter.Live now := fun hlive =>
    absurd (hlookup.symm.trans (Keyspace.lookup_eq_some.mpr ⟨hk, hlive⟩)) (by simp)
  simpa [Counter.Live] using hdead

/-- The counter that an increment leaves stands for the same window or a later one. -/
theorem reaches_counted {now windowMillis : ℕ} {k : String} {counter : Counter} {d used : ℕ}
    (hk : ks k = some counter) (h : Reaches counter d used) :
    Reaches (counted now windowMillis (ks.lookup now k)) d used := by
  intro d' hd'
  cases hlookup : ks.lookup now k with
  | none =>
    -- the old counter was past its deadline when the new one took its place
    obtain ⟨dead, hdead, hlt⟩ := exists_deadline_of_lookup hk hlookup
    rw [hlookup] at hd'
    simp only [counted] at hd'
    split at hd'
    · exact absurd hd' (by simp)
    · have hnew := Option.some.inj hd'
      rcases h dead hdead with hbefore | ⟨hsame, -⟩ <;> exact Or.inl (by omega)
  | some live =>
    obtain rfl : counter = live :=
      Option.some.inj (hk.symm.trans (Keyspace.lookup_eq_some.mp hlookup).1)
    rw [hlookup, deadline_counted_some] at hd'
    rcases h d' hd' with hbefore | ⟨hsame, hused⟩
    · exact Or.inl hbefore
    · refine Or.inr ⟨hsame, hused.trans ?_⟩
      simp only [counted]
      split
      · exact Nat.le_refl _
      · exact Int.toNat_le_toNat (by show counter.value ≤ counter.value + 1; omega)

/-- A key's counter only moves forward. -/
theorem reaches_run (hks : InRange ks) (backend : Backend) (c : Call) {k : String} {d used : ℕ}
    (h : ∃ counter, ks k = some counter ∧ Reaches counter d used) :
    ∃ counter, (c.run backend ks).2 k = some counter ∧ Reaches counter d used := by
  obtain ⟨counter, hk, hreaches⟩ := h
  rcases c.run_cases backend hks.positive with ⟨-, hsame⟩ | ⟨windowMillis, -, hafter⟩
  · rw [hsame]
    exact ⟨counter, hk, hreaches⟩
  · rw [hafter, counterAfter]
    by_cases hkey : k = c.redisKey
    · subst hkey
      rw [Function.update_self]
      exact ⟨_, rfl, reaches_counted hk hreaches⟩
    · rw [Function.update_of_ne hkey]
      exact ⟨counter, hk, hreaches⟩

/-- Every deadline was set by a call that opened a window then. -/
def Dated (ks : Keyspace String) (clock : ℕ) (calls : List Call) : Prop :=
  ∀ k counter d, ks k = some counter → counter.deadline = some d →
    ∃ opener ∈ calls, opener.redisKey = k ∧ opener.now ≤ clock ∧
      d = opener.now + opener.window.asMillis

theorem Dated.run (h : Dated ks c.now calls) (hks : InRange ks) (backend : Backend) :
    Dated (c.run backend ks).2 c.now (calls ++ [c]) := by
  have hold : Dated ks c.now (calls ++ [c]) := by
    intro k counter d hk hd
    obtain ⟨opener, hmem, hopener⟩ := h k counter d hk hd
    exact ⟨opener, List.mem_append_left _ hmem, hopener⟩
  rcases c.run_cases backend hks.positive with ⟨-, hsame⟩ | ⟨windowMillis, hsends, hafter⟩
  · rwa [hsame]
  · rw [hafter]
    intro k counter d hk hd
    by_cases hkey : k = c.redisKey
    · subst hkey
      rw [counterAfter, Function.update_self] at hk
      rw [← Option.some.inj hk] at hd
      cases hlookup : ks.lookup c.now c.redisKey with
      | none =>
        rw [hlookup] at hd
        simp only [counted] at hd
        split at hd
        · exact absurd hd (by simp)
        · refine ⟨c, by simp, rfl, Nat.le_refl _, ?_⟩
          rw [← Option.some.inj hd, (checkedWindowMillis_eq_ok hsends.1).1]
      | some live =>
        rw [hlookup, deadline_counted_some] at hd
        exact hold _ live d (Keyspace.lookup_eq_some.mp hlookup).1 hd
    · rw [counterAfter, Function.update_of_ne hkey] at hk
      exact hold k counter d hk hd

/-! ### Successful calls -/

/-- A pair that gives a usage. -/
theorem usageOf_eq_ok {count ttl : ℤ} {usage : Usage}
    (h : usageOf backend (.ok (count, ttl)) = .ok usage) :
    0 < ttl ∧ usage = ⟨UInt64.ofNat count.toNat, .ofMillis (UInt64.ofNat ttl.toNat)⟩ := by
  simp only [usageOf, Except.mapError, Except.bind, usageFromIncrementResult] at h
  by_cases hcount : count < 1
  · rw [if_pos hcount] at h
    exact absurd h (by simp)
  · by_cases httl : ttl ≤ 0
    · rw [if_neg hcount, if_pos httl] at h
      exact absurd h (by simp)
    · rw [if_neg hcount, if_neg httl] at h
      exact ⟨Int.not_le.mp httl, (Except.ok.inj h).symm⟩

/-- The numbers of such a usage, within the server's range. -/
theorem usage_numbers {count ttl : ℤ} (hcount : count ≤ i64Max) (httl : ttl ≤ i64Max) :
    (UInt64.ofNat count.toNat).toNat = count.toNat ∧
      (Duration.ofMillis (UInt64.ofNat ttl.toNat)).nanos = ttl.toNat * nanosPerMilli := by
  simp only [i64Max] at hcount httl
  refine ⟨?_, ?_⟩
  · rw [UInt64.toNat_ofNat', Nat.mod_eq_of_lt (by omega)]
  · have hmillis : ttl.toNat < 2 ^ 64 := by omega
    simp only [Duration.ofMillis]
    rw [UInt64.toNat_ofNat', Nat.mod_eq_of_lt hmillis]

/-- What a successful call reads is its window: the counter it leaves, with the deadline `d`, was
opened by it or was live before and counts one more. -/
theorem Call.run_ok (hks : InRange ks) (hexact : c.ReadsExactly backend ks) {usage : Usage}
    (h : (c.run backend ks).1 = .ok usage) :
    ∃ counter d, (c.run backend ks).2 c.redisKey = some counter ∧ counter.deadline = some d ∧
      usage.used.toNat = counter.value.toNat ∧
      usage.resetAfter.nanos = (d - c.now) * nanosPerMilli ∧
      ((ks.lookup c.now c.redisKey = none ∧ d = c.now + c.window.asMillis) ∨
        ∃ old, ks.lookup c.now c.redisKey = some old ∧ old.deadline = some d ∧
          old.value.toNat ≤ counter.value.toNat) := by
  have hanswered : c.delivery = .answered ∧
      ∃ windowMillis, checkedWindowMillis c.window = .ok windowMillis := by
    by_contra hno
    obtain ⟨e, he⟩ := run_unanswered backend ks hno
    exact absurd (h.symm.trans he) (by simp)
  obtain ⟨hdelivery, windowMillis, hwindow⟩ := hanswered
  have hexact := hexact windowMillis ⟨hwindow, by simp [hdelivery]⟩
  obtain ⟨rfl, hpos⟩ := checkedWindowMillis_eq_ok hwindow
  rw [run_answered hwindow hdelivery] at h ⊢
  have hshown : ∀ n : ℤ, (c.implementation = .lua → backend.luaNumber n = n) →
      c.implementation.shown backend n = n := by
    intro n hn
    cases himpl : c.implementation with
    | lua => exact hn himpl
    | multiExec => rfl
  cases hlookup : ks.lookup c.now c.redisKey with
  | none =>
    simp only [hlookup] at hexact
    by_cases hrefused : ExpiryRefused c.now c.window.asMillis
    · rw [runCounter_refused backend c.implementation hlookup hpos hrefused] at h
      exact absurd h (by simp [usageOf, Except.mapError, Except.bind])
    · rw [runCounter_opened backend c.implementation hlookup hpos hrefused, hshown _ hexact] at h ⊢
      obtain ⟨-, rfl⟩ := usageOf_eq_ok h
      have hrange := Int.not_lt.mp hrefused
      obtain ⟨hused, hreset⟩ := usage_numbers (show (1 : ℤ) ≤ i64Max by decide)
        (show (c.window.asMillis : ℤ) ≤ i64Max by omega)
      refine ⟨_, c.now + c.window.asMillis, Function.update_self .., rfl, hused, ?_,
        Or.inl ⟨rfl, rfl⟩⟩
      rw [hreset, Int.toNat_natCast, Nat.add_sub_cancel_left]
  | some old =>
    obtain ⟨hstored, hlive⟩ := Keyspace.lookup_eq_some.mp hlookup
    obtain ⟨⟨hlow, hhigh⟩, hdeadline⟩ := hks _ old hstored
    simp only [hlookup] at hexact
    rcases runCounter_live_cases backend c.implementation hlookup hpos hlow with
      ⟨-, e, he⟩ | ⟨-, -, -, -, he⟩ | ⟨hmax, -, he⟩
    · rw [he] at h
      exact absurd h (by simp [usageOf, Except.mapError, Except.bind])
    · rw [he] at h
      exact absurd h (by simp [usageOf, Except.mapError, Except.bind])
    · rw [he, hshown _ fun hlua => (hexact hlua).1, hshown _ fun hlua => (hexact hlua).2] at h ⊢
      obtain ⟨httl, rfl⟩ := usageOf_eq_ok h
      -- only a counter with a deadline has time left
      cases hd : old.deadline with
      | none =>
        simp [Counter.ttl, hd] at httl
      | some d =>
        have hleft : old.ttl c.now = (d : ℤ) - c.now := by rw [Counter.ttl, hd]
        have hbound := hdeadline d hd
        obtain ⟨hused, hreset⟩ := usage_numbers (show old.value + 1 ≤ i64Max by omega)
          (show old.ttl c.now ≤ i64Max by omega)
        refine ⟨_, d, Function.update_self .., rfl, hused, ?_, Or.inr ⟨old, rfl, hd, ?_⟩⟩
        · rw [hreset, hleft]
          congr 1
          omega
        · exact Int.toNat_le_toNat (by show old.value ≤ old.value + 1; omega)

/-! ### Runs -/

/-- The reports of a run so far, against the counters that it has left: a report tells the time to
the deadline of its window, and its key's counter has not fallen behind it. -/
structure RedisBooked (ks : Keyspace String) (clock : ℕ) (calls : List Call)
    (reports : List (Report (Option ℕ))) : Prop where
  range : InRange ks
  dated : Dated ks clock calls
  timed : ∀ r ∈ reports, ∃ d, r.windowId = some d ∧
    r.usage.resetAfter.nanos = (d - r.readAt) * nanosPerMilli ∧
    ∃ counter, ks r.key = some counter ∧ Reaches counter d r.usage.used.toNat
  inside : ∀ r ∈ reports, r.usage.resetAfter.nanos ≤ r.window.nanos
  counts : reports.Pairwise fun r r' =>
    r.SameWindow r' → r.usage.used.toNat ≤ r'.usage.used.toNat

theorem redisBooked_empty (clock : ℕ) : RedisBooked .empty clock [] [] where
  range _ _ h := absurd h (by simp [Keyspace.empty])
  dated _ _ _ h := absurd h (by simp [Keyspace.empty])
  timed _ h := absurd h (by simp)
  inside _ h := absurd h (by simp)
  counts := List.Pairwise.nil

variable {reports : List (Report (Option ℕ))}

theorem RedisBooked.mono (h : RedisBooked ks clock calls reports) {clock' : ℕ}
    (hle : clock ≤ clock') : RedisBooked ks clock' calls reports := by
  refine ⟨h.range, fun k counter d hk hd => ?_, h.timed, h.inside, h.counts⟩
  obtain ⟨opener, hmem, hkey, hnow, hdeadline⟩ := h.dated k counter d hk hd
  exact ⟨opener, hmem, hkey, hnow.trans hle, hdeadline⟩

/-- The next call keeps the books, whatever becomes of it. -/
theorem RedisBooked.run (h : RedisBooked ks c.now calls reports)
    (hexact : c.ReadsExactly backend ks)
    (hsame : ∀ d ∈ calls, d.redisKey = c.redisKey → d.window = c.window) :
    RedisBooked (c.run backend ks).2 c.now (calls ++ [c])
      (reports ++ (c.report backend ks).toList) := by
  have hrange := h.range.run backend c
  have hdated := h.dated.run h.range backend
  have htimed : ∀ r ∈ reports, ∃ d, r.windowId = some d ∧
      r.usage.resetAfter.nanos = (d - r.readAt) * nanosPerMilli ∧
      ∃ counter, (c.run backend ks).2 r.key = some counter ∧
        Reaches counter d r.usage.used.toNat := by
    intro r hr
    obtain ⟨d, hid, hreset, hcounter⟩ := h.timed r hr
    exact ⟨d, hid, hreset, reaches_run h.range backend c hcounter⟩
  cases hresult : (c.run backend ks).1 with
  | error e =>
    have hreport : c.report backend ks = none := by
      rw [Call.report, hresult]
      rfl
    rw [hreport, Option.toList_none, List.append_nil]
    exact ⟨hrange, hdated, htimed, h.inside, h.counts⟩
  | ok usage =>
    obtain ⟨counter, d, hcounter, hd, hused, hreset, hopened⟩ := c.run_ok h.range hexact hresult
    have hreport : c.report backend ks =
        some ⟨c.redisKey, c.window, some d, c.now, usage⟩ := by
      rw [Call.report, hresult, hcounter]
      exact congrArg some (by simp [hd])
    rw [hreport, Option.toList_some]
    refine ⟨hrange, hdated, fun r hr => ?_, fun r hr => ?_, ?_⟩
    · rcases List.mem_append.mp hr with hr | hr
      · exact htimed r hr
      · obtain rfl := List.mem_singleton.mp hr
        refine ⟨d, rfl, hreset, counter, hcounter, fun d' hd' => ?_⟩
        exact Or.inr ⟨Option.some.inj (hd.symm.trans hd'), hused.le⟩
    · rcases List.mem_append.mp hr with hr | hr
      · exact h.inside r hr
      · -- the window was opened no later than now, with the same argument
        obtain rfl := List.mem_singleton.mp hr
        obtain ⟨opener, hmem, hkey, hnow, hdeadline⟩ := hdated _ _ _ hcounter hd
        have hwindow : opener.window = c.window := by
          rcases List.mem_append.mp hmem with hmem | hmem
          · exact hsame opener hmem hkey
          · rw [List.mem_singleton.mp hmem]
        rw [hwindow] at hdeadline
        show usage.resetAfter.nanos ≤ c.window.nanos
        rw [hreset]
        calc (d - c.now) * nanosPerMilli ≤ c.window.asMillis * nanosPerMilli :=
              Nat.mul_le_mul_right _ (by omega)
          _ ≤ c.window.nanos := Nat.div_mul_le_self _ _
    · refine List.pairwise_append.mpr ⟨h.counts, List.pairwise_singleton _ _, fun r hr r' hr' => ?_⟩
      obtain rfl := List.mem_singleton.mp hr'
      rintro ⟨hkey, hid⟩
      obtain ⟨d', hid', -, old, hold, hreaches⟩ := h.timed r hr
      have hdd : d' = d := Option.some.inj (hid'.symm.trans hid)
      rw [show r.key = c.redisKey from hkey] at hold
      show r.usage.used.toNat ≤ usage.used.toNat
      rcases hopened with ⟨hfree, hnew⟩ | ⟨live, hlive, hlived, hle⟩
      · -- a window opened now is none of the earlier ones
        obtain ⟨dead, hdead, hlt⟩ := exists_deadline_of_lookup hold hfree
        rcases hreaches dead hdead with hbefore | ⟨hsame, -⟩ <;> omega
      · obtain rfl : old = live :=
          Option.some.inj (hold.symm.trans (Keyspace.lookup_eq_some.mp hlive).1)
        rcases hreaches d hlived with hbefore | ⟨-, hcount⟩ <;> omega

/-- Every run keeps the books. -/
theorem redisBooked_after (calls : List Call)
    (hexact : AllCalls backend (Call.ReadsExactly backend) .empty calls)
    (hclock : (calls.map Call.now).Pairwise (· ≤ ·))
    (hsame : ∀ c ∈ calls, ∀ d ∈ calls, c.redisKey = d.redisKey → c.window = d.window)
    (hlast : ∀ c ∈ calls, c.now ≤ clock) :
    RedisBooked (keyspaceAfter backend .empty calls) clock calls
      (redisReports backend .empty calls) := by
  induction calls using List.reverseRecOn generalizing clock with
  | nil => exact redisBooked_empty clock
  | append_singleton calls c ih =>
    rw [allCalls_concat] at hexact
    obtain ⟨hsorted, hbefore⟩ := pairwise_now_concat hclock
    have hbooked := ih hexact.1 hsorted
      (fun d hd e he => hsame d (List.mem_append_left _ hd) e (List.mem_append_left _ he)) hbefore
    rw [keyspaceAfter_concat, redisReports_concat]
    refine (hbooked.run hexact.2 fun d hd => ?_).mono (hlast c (by simp))
    exact hsame d (List.mem_append_left _ hd) c (by simp)

/-- **The Redis store obeys the window laws** when the clock does not go back, the calls on a key
ask for one window and the scripts read exact numbers. -/
theorem RedisBooked.windowLaws (h : RedisBooked ks clock calls reports) : WindowLaws reports where
  inside := h.inside
  counts := h.counts
  elapses := by
    intro r hr r' hr' hsame hread
    obtain ⟨d, hid, hreset, -⟩ := h.timed r hr
    obtain ⟨d', hid', hreset', -⟩ := h.timed r' hr'
    obtain rfl : d = d' := Option.some.inj (hid.symm.trans (hsame.2.trans hid'))
    rw [hreset, hreset']
    exact Nat.mul_le_mul_right _ (by omega)

/-! ## Both stores -/

/-- The increments of a run on one of the stores: the steps of an interleaving in memory, or the
calls that reach a server, by any mix of implementations and with lost and refused calls among
them. -/
inductive StoreHistory where
  | memory (events : List MemoryStore.StoreEvent)
  | redis (backend : Backend) (calls : List Call)

namespace StoreHistory

/-- Clocks do not go back and the increments of a key ask for one window. -/
def Regular : StoreHistory → Prop
  | .memory events =>
      let j := MemoryStore.Journal.start.after events
      MemoryStore.Lawful .new (fun _ => 0) events ∧
        (∀ x ∈ j.landings, ∀ y ∈ j.landings, x.key = y.key → x.window = y.window) ∧
        ∀ x ∈ j.readings, x.1.now ≤ x.2
  | .redis _ calls =>
      (calls.map Call.now).Pairwise (· ≤ ·) ∧
        ∀ c ∈ calls, ∀ d ∈ calls, c.redisKey = d.redisKey → c.window = d.window

/-- Scripts read numbers that are exact as Lua numbers. -/
def ReadsExactly : StoreHistory → Prop
  | .memory _ => True
  | .redis backend calls => AllCalls backend (Call.ReadsExactly backend) .empty calls

/-- What is advertised along the run is coherent. In memory the journal is that of the run itself,
with a report for each of its successes. -/
def Coherent : StoreHistory → Prop
  | .memory events =>
      let j := MemoryStore.Journal.start.after events
      j.run = MemoryStore.StoreRun.start.after events ∧
        j.successes = j.readings.map (fun x => (x.1.call, x.1.usage x.2)) ∧ CoherentRun j.reports
  | .redis backend calls => CoherentRun (redisReports backend .empty calls)

end StoreHistory

/-- **What is advertised along a regular run is coherent, over either store**, if the scripts in it
read exact numbers. -/
theorem advertised_coherent (history : StoreHistory) (hregular : history.Regular)
    (hexact : history.ReadsExactly) : history.Coherent := by
  cases history with
  | memory events =>
    obtain ⟨hlawful, hsame, hclock⟩ := hregular
    obtain ⟨clock, haccount⟩ := MemoryStore.accounted_start.after events hlawful
    exact ⟨MemoryStore.Journal.run_after _ events, haccount.successes,
      (haccount.windowLaws hsame hclock).coherent⟩
  | redis backend calls =>
    obtain ⟨hclock, hsame⟩ := hregular
    rcases calls.eq_nil_or_concat' with rfl | ⟨before, c, rfl⟩
    · exact (redisBooked_empty 0).windowLaws.coherent
    · have hlast : ∀ d ∈ before ++ [c], d.now ≤ c.now := by
        intro d hd
        rcases List.mem_append.mp hd with hd | hd
        · exact (pairwise_now_concat hclock).2 d hd
        · rw [List.mem_singleton.mp hd]
      exact (redisBooked_after _ hexact hclock hsame hlast).windowLaws.coherent

/-- A run in memory with a rejected increment, and a run of both Redis implementations. -/
theorem advertised_coherent_twice :
    (StoreHistory.memory MemoryStore.retryRun).Coherent ∧
      (StoreHistory.redis (.double true) [callAt .lua 5, callAt .multiExec 7]).Coherent := by
  have hexact : AllCalls (.double true) (Call.ReadsExactly (.double true)) .empty
      [callAt .lua 5, callAt .multiExec 7] := by
    refine ⟨fun windowMillis hsends _ => ?_, fun _ _ h => absurd h (by decide), trivial⟩
    obtain rfl := Except.ok.inj (checkedWindowMillis_tenMillis.symm.trans hsends.1)
    exact (Backend.double true).luaNumber_exact 10 (by decide)
  constructor
  · exact advertised_coherent (.memory _) ⟨MemoryStore.lawful_retryRun, by decide, by decide⟩
      trivial
  · exact advertised_coherent (.redis _ _) ⟨by decide, by decide⟩ hexact

/-- A window of nine quadrillion seconds and one. -/
def hugeWindow : Duration := ⟨9000000000000001 * nanosPerSec, by decide⟩

/-- The increment of a free key by script with the huge window. -/
def hugeCall : Call := ⟨.new, .lua, .answered, "k", hugeWindow, 5⟩

/-- The script reads the remaining time as a double, which rounds it up by 24 milliseconds, and the
response advertises a reset one second after the window. -/
theorem reset_beyond_window :
    (StoreHistory.redis (.double true) [hugeCall]).Regular ∧
      ¬ (StoreHistory.redis (.double true) [hugeCall]).Coherent ∧
      ∃ r, redisReports (.double true) .empty [hugeCall] = [r] ∧
        (ceilSeconds r.window).toNat = 9000000000000001 ∧
        (ceilSeconds r.usage.resetAfter).toNat = 9000000000000002 := by
  have hreports : redisReports (.double true) .empty [hugeCall] =
      [⟨"rl:k", hugeWindow, some 9000000000000001005,
        5, ⟨1, ⟨9000000000000001024 * nanosPerMilli, by decide⟩⟩⟩] := by
    rfl
  refine ⟨⟨by decide, by decide⟩, fun hcoherent => ?_, _, hreports, by decide, by decide⟩
  have hrun : CoherentRun (redisReports (.double true) .empty [hugeCall]) := hcoherent
  rw [hreports] at hrun
  have hle := (hrun.each _ List.mem_cons_self "p" 1 _ rfl).reset_le_window
  exact absurd hle (by decide)

end TowerRateLimiter
