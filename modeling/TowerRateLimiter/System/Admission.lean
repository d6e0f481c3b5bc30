import TowerRateLimiter.Store.MemoryReference
import TowerRateLimiter.System.Memory
import Mathlib.Data.List.Nodup

/-!
# Admission over a shared store

The successful charges of a run, in the order of their atomic steps, are the history of the
fixed-window counter: the store tracks it and every charge got its number in its window (`Counts`).
With the stories of the requests, the numbers decide who reaches the inner service
(`exact_admission`), and the spacing of windows bounds bursts (`burst_bound`).
-/

namespace TowerRateLimiter

open Rust ExpiringCache FixedWindow

variable {Head ReqBody ResBody E : Type}

/-! ## The charges of a run -/

/-- A successful charge: the request, its stored key and window, the clock reading of the atomic
step and the usage. -/
structure Charged where
  id : ℕ
  key : String
  window : Duration
  now : Instant
  usage : Usage

/-- The charge as the fixed-window counter sees it. -/
def Charged.view (c : Charged) : Charge String := MemoryStore.chargeOf c.key c.window c.now

/-- An act that is a successful charge. -/
def charged? : ℕ × Act memory Head ReqBody → Option Charged
  | (id, .charge ⟨key, window, now, .ok usage⟩) => some ⟨id, key, window, now, usage⟩
  | _ => none

theorem charged?_of_ne (id : ℕ) {act : Act memory Head ReqBody}
    (h : ∀ charge, act ≠ .charge charge) : charged? (id, act) = none := by
  cases act with
  | charge charge => exact absurd rfl (h charge)
  | _ => rfl

namespace Job

variable (job : Job memory Head ReqBody ResBody)

/-- The stored key that an iteration charges, if it makes a charge. -/
def chargeKey (turn : Turn memory ResBody E) : RunState memory Head ReqBody → Option String
  | .limit _ _ key =>
      match turn.limit with
      | .ready (.ok _) => some (job.limiter.storedKey key)
      | _ => none
  | _ => none

/-- A step that makes no charge. -/
def Quiet (store : MemoryStore) (o : Outcome memory Head ReqBody ResBody E) : Prop :=
  o.store = store ∧ ∀ charge, Act.charge charge ∉ o.acts

theorem send_quiet (store : MemoryStore) : Quiet store (job.send (E := E) store) :=
  ⟨job.store_send store, job.charge_notMem_send store⟩

/-- An iteration makes no charge, or charges the store and notes it. -/
theorem iterate_charge (id : ℕ) (store : MemoryStore) (turn : Turn memory ResBody E)
    (state : RunState memory Head ReqBody) :
    (job.chargeKey turn state = none ∧ Quiet store (job.iterate id store turn state)) ∨
      ∃ future request key limit, state = .limit future request key ∧
        job.chargeKey turn state = some (job.limiter.storedKey key) ∧
        (job.iterate id store turn state).store = (job.charge store key turn.store).2 ∧
        (job.iterate id store turn state).acts =
          [.limit limit, .charge ⟨job.limiter.storedKey key, job.limiter.window,
            turn.store.access.now, (job.charge store key turn.store).1⟩] := by
  cases state with
  | limit future request key =>
    -- the only state that charges, once the limit is there
    unfold iterate chargeKey
    rcases turn.limit with _ | ⟨_ | limit⟩
    · exact .inl ⟨rfl, rfl, by simp⟩
    · exact .inl ⟨rfl, rfl, by simp⟩
    · exact .inr ⟨future, request, key, limit, rfl, rfl, rfl, rfl⟩
  | store future request limit =>
    obtain ⟨_ | result⟩ := future
    · exact .inl ⟨rfl, rfl, by simp [iterate, Ready.poll]⟩
    · exact .inl ⟨rfl, rfl, job.charge_notMem_settle request limit result⟩
  | inner future metadata =>
    refine .inl ⟨rfl, ?_⟩
    simp only [iterate]
    split <;> exact ⟨rfl, by simp⟩
  | ready response => cases response <;> exact .inl ⟨rfl, rfl, by simp [iterate, respond]⟩
  | done => exact .inl ⟨rfl, rfl, by simp [iterate]⟩

end Job

namespace System

variable {jobs : ℕ → Job memory Head ReqBody ResBody} {s : System memory Head ReqBody ResBody E}
  {clock : String → ℕ}

/-- The successful charges so far, in the order of their atomic steps. -/
def charges (s : System memory Head ReqBody ResBody E) : List Charged :=
  s.history.filterMap charged?

/-- What the cache and the clocks may do in a step: a charge does not undercut the last clock
reading of its key, its cache access is lawful, and only entries past their deadline are removed. -/
def LawfulEvent (jobs : ℕ → Job memory Head ReqBody ResBody)
    (s : System memory Head ReqBody ResBody E) (clock : String → ℕ) : Event memory ResBody E → Prop
  | .poll id turn => ∀ future key, s.phases id = .live future →
      (jobs id).chargeKey turn future.state = some key →
      clock key ≤ turn.store.access.now.nanos ∧ turn.store.access.Lawful (s.store key)
  | .evict key at' => ∃ slot, s.store key = some slot ∧ slot.MayBeGone at'.nanos
  | _ => True

/-- The last clock reading of each key after a step. -/
def tick (jobs : ℕ → Job memory Head ReqBody ResBody) (s : System memory Head ReqBody ResBody E)
    (clock : String → ℕ) : Event memory ResBody E → String → ℕ
  | .poll id turn =>
      match s.phases id with
      | .live future =>
          match (jobs id).chargeKey turn future.state with
          | some key => Function.update clock key turn.store.access.now.nanos
          | none => clock
      | _ => clock
  | .evict key at' => Function.update clock key (max (clock key) at'.nanos)
  | _ => clock

/-- The cache and the clocks are lawful along a run. -/
def Lawful (jobs : ℕ → Job memory Head ReqBody ResBody) :
    System memory Head ReqBody ResBody E → (String → ℕ) → List (Event memory ResBody E) → Prop
  | _, _, [] => True
  | s, clock, event :: events =>
      s.LawfulEvent jobs clock event ∧
        Lawful jobs (s.step jobs event) (s.tick jobs clock event) events

/-- The store tracks the fixed-window counter on the charges so far, each of which got its number in
its window, and the charges of a key are in the order of their clock readings. -/
structure Counts (s : System memory Head ReqBody ResBody E) (clock : String → ℕ) : Prop where
  tracks : MemoryStore.Tracks s.store clock (Book.empty.after (s.charges.map Charged.view))
  used : ∀ x ∈ assign Charged.view Book.empty s.charges,
    x.1.usage.used.toNat = min x.2.count u64Max
  ordered : InOrder Charged.view s.charges
  reached : ∀ c ∈ s.charges, c.now.nanos ≤ clock c.key

theorem counts_start : (start : System memory Head ReqBody ResBody E).Counts (fun _ => 0) where
  tracks := MemoryStore.tracks_new
  used _ hx := absurd hx (by simp [charges, start, assign])
  ordered := List.Pairwise.nil
  reached _ hc := absurd hc (by simp [charges, start])

theorem charges_commit_quiet (id : ℕ) {o : Outcome memory Head ReqBody ResBody E}
    {store : MemoryStore} (h : Job.Quiet store o) : (s.commit id o).charges = s.charges := by
  have hnil : (o.acts.map (id, ·)).filterMap charged? = [] := by
    rw [List.filterMap_map, List.filterMap_eq_nil_iff]
    exact fun act hact => charged?_of_ne id fun charge hcharge => h.2 charge (hcharge ▸ hact)
  simp only [charges, commit, List.filterMap_append, hnil, List.append_nil]

/-- A step that makes no charge keeps the counts. -/
theorem Counts.quiet (h : s.Counts clock) {id : ℕ} {o : Outcome memory Head ReqBody ResBody E}
    (ho : Job.Quiet s.store o) : (s.commit id o).Counts clock := by
  have hcharges := charges_commit_quiet (s := s) id ho
  refine ⟨?_, ?_, ?_, ?_⟩
  · rw [hcharges]
    simpa only [commit, ho.1] using h.tracks
  · rw [hcharges]
    exact h.used
  · rw [hcharges]
    exact h.ordered
  · rw [hcharges]
    exact h.reached

/-- A charge keeps the counts. -/
theorem Counts.charge (h : s.Counts clock) {id : ℕ} {key : String} {limit : UInt64}
    {turn : Turn memory ResBody E} {o : Outcome memory Head ReqBody ResBody E}
    (hclock : clock ((jobs id).limiter.storedKey key) ≤ turn.store.access.now.nanos)
    (hlawful : turn.store.access.Lawful (s.store ((jobs id).limiter.storedKey key)))
    (hstore : o.store = ((jobs id).charge s.store key turn.store).2)
    (hacts : o.acts = [.limit limit, .charge ⟨(jobs id).limiter.storedKey key,
      (jobs id).limiter.window, turn.store.access.now,
      ((jobs id).charge s.store key turn.store).1⟩]) :
    (s.commit id o).Counts
      (Function.update clock ((jobs id).limiter.storedKey key) turn.store.access.now.nanos) := by
  have hreached : ∀ c ∈ s.charges, c.now.nanos ≤
      Function.update clock ((jobs id).limiter.storedKey key) turn.store.access.now.nanos c.key := by
    intro c hc
    have hold := h.reached c hc
    by_cases hkey : c.key = (jobs id).limiter.storedKey key
    · rw [hkey, Function.update_self]
      exact (hkey ▸ hold).trans hclock
    · rwa [Function.update_of_ne hkey]
  rcases h.tracks.compute (jobs id).limiter.window hclock hlawful with
    ⟨-, hcompute, htracks⟩ | ⟨-, entry, store', hcompute, hused, hend, htracks⟩
  · -- the charge failed: nothing changes but the clock
    have hcharge : (jobs id).charge s.store key turn.store =
        (.error (MemoryStoreError.toRateLimitError .instantOutOfRange), s.store) := by
      simp only [Job.charge, MemoryStore.incrementUsage, hcompute, Except.map, Except.mapError]
    have hcharges : (s.commit id o).charges = s.charges := by
      simp only [charges, commit, hacts, hcharge, List.filterMap_append]
      simp [charged?]
    refine ⟨?_, ?_, ?_, ?_⟩
    · rw [hcharges]
      simpa only [commit, hstore, hcharge] using htracks
    · rw [hcharges]
      exact h.used
    · rw [hcharges]
      exact h.ordered
    · rw [hcharges]
      exact hreached
  · -- the charge is the last of the history, and its window the last of its key
    have hcharge : (jobs id).charge s.store key turn.store =
        (.ok (MemoryStore.readOut entry turn.store.readAt), store') := by
      simp only [Job.charge, MemoryStore.incrementUsage, hcompute, Except.map, Except.mapError]
    have hcharges : (s.commit id o).charges = s.charges ++
        [⟨id, (jobs id).limiter.storedKey key, (jobs id).limiter.window, turn.store.access.now,
          MemoryStore.readOut entry turn.store.readAt⟩] := by
      simp only [charges, commit, hacts, hcharge, List.filterMap_append]
      rfl
    refine ⟨?_, ?_, ?_, ?_⟩
    · rw [hcharges, List.map_append, Book.after_append]
      simp only [commit, hstore, hcharge]
      exact htracks
    · rw [hcharges, assign_concat]
      intro x hx
      rcases List.mem_append.mp hx with hx | hx
      · exact h.used x hx
      · obtain rfl := List.mem_singleton.mp hx
        exact hused
    · rw [hcharges]
      refine List.pairwise_append.mpr
        ⟨h.ordered, List.pairwise_singleton _ _, fun c hc d hd hkey => ?_⟩
      obtain rfl := List.mem_singleton.mp hd
      have hold := hreached c hc
      rwa [show c.key = (jobs id).limiter.storedKey key from hkey, Function.update_self] at hold
    · rw [hcharges]
      intro c hc
      rcases List.mem_append.mp hc with hc | hc
      · exact hreached c hc
      · obtain rfl := List.mem_singleton.mp hc
        rw [Function.update_self]

/-- A lawful step keeps the counts. -/
theorem Counts.step (h : s.Counts clock) (htold : s.Told jobs) {event : Event memory ResBody E}
    (hlawful : s.LawfulEvent jobs clock event) :
    (s.step jobs event).Counts (s.tick jobs clock event) := by
  cases event with
  | call id =>
    rcases hphase : s.phases id with _ | _ | _ | _ | _
    · rw [step_call hphase]
      exact h.quiet ((jobs id).send_quiet s.store)
    all_goals
      simp only [System.step, hphase]
      exact h
  | poll id turn =>
    rcases hphase : s.phases id with _ | future | _ | _ | _
    case live =>
      obtain ⟨state, hstate, -⟩ := htold.live hphase
      have hkeys := hlawful ((jobs id).future state)
      simp only [tick, hstate]
      rw [step_poll hstate]
      rcases (jobs id).iterate_charge id s.store turn state with
        ⟨hkey, hquiet⟩ | ⟨_, _, key, limit, -, hkey, hstore, hacts⟩
      · simp only [Job.future, hkey]
        exact h.quiet hquiet
      · obtain ⟨hclock, haccess⟩ := hkeys _ hstate hkey
        simp only [Job.future, hkey]
        exact h.charge hclock haccess hstore hacts
    all_goals
      simp only [System.step, tick, hphase]
      exact h
  | drop id =>
    rcases hphase : s.phases id with _ | _ | _ | _ | _ <;>
    · simp only [System.step, hphase]
      exact ⟨h.tracks, h.used, h.ordered, h.reached⟩
  | move removal =>
    obtain ⟨key, at'⟩ := removal
    refine ⟨h.tracks.evict hlawful, h.used, h.ordered, fun c hc => ?_⟩
    have hold := h.reached c hc
    by_cases hkey : c.key = key
    · subst hkey
      simp only [tick, Function.update_self]
      exact hold.trans (Nat.le_max_left _ _)
    · simpa only [tick, Function.update_of_ne hkey] using hold

/-- Lawful runs keep the stories and the counts. -/
theorem Counts.after (events : List (Event memory ResBody E)) (h : s.Counts clock)
    (htold : s.Told jobs) (hlawful : Lawful jobs s clock events) :
    ∃ clock', (s.after jobs events).Counts clock' := by
  induction events generalizing s clock with
  | nil => exact ⟨clock, h⟩
  | cons event events ih => exact ih (h.step htold hlawful.1) (htold.step event) hlawful.2

end System

/-! ## Who reaches the inner service -/

namespace System

variable {jobs : ℕ → Job memory Head ReqBody ResBody} {s : System memory Head ReqBody ResBody E}

/-- A successful charge is one of the acts of its request. -/
theorem mem_acts_of_mem_charges {c : Charged} (h : c ∈ s.charges) :
    Act.charge (S := memory) ⟨c.key, c.window, c.now, .ok c.usage⟩ ∈ s.acts c.id := by
  obtain ⟨⟨id, act⟩, hmem, hc⟩ := List.mem_filterMap.mp h
  rw [mem_acts]
  unfold charged? at hc
  split at hc
  · obtain rfl := Option.some.inj hc
    simp_all
  · exact absurd hc (by simp)

theorem charged?_isSome (x : ℕ × Act memory Head ReqBody) : (charged? x).isSome = x.2.isCharge := by
  obtain ⟨id, act⟩ := x
  cases act with
  | charge charge =>
    obtain ⟨key, window, now, result⟩ := charge
    cases result <;> rfl
  | _ => rfl

theorem charged?_id {x : ℕ × Act memory Head ReqBody} {c : Charged} (h : charged? x = some c) :
    c.id = x.1 := by
  unfold charged? at h
  split at h
  · obtain rfl := Option.some.inj h
    rfl
  · exact absurd h (by simp)

/-- The charges of one request are its acts that are charges. -/
theorem count_charges (id : ℕ) :
    (s.charges.map Charged.id).count id = (s.acts id).countP Act.isCharge := by
  unfold charges acts
  induction s.history with
  | nil => rfl
  | cons x history ih =>
    cases hx : charged? x with
    | none =>
      have hcharge : x.2.isCharge = false := by simp [← charged?_isSome, hx]
      rw [List.filterMap_cons_none hx, ih]
      by_cases hid : x.1 = id <;> simp [hid, hcharge]
    | some c =>
      have hcharge : x.2.isCharge = true := by simp [← charged?_isSome, hx]
      rw [List.filterMap_cons_some hx, List.map_cons, List.count_cons, ih, charged?_id hx]
      by_cases hid : x.1 = id <;> simp [hid, hcharge]

/-- No request is charged twice. -/
theorem Told.nodup_charges (h : s.Told jobs) : (s.charges.map Charged.id).Nodup := by
  rw [List.nodup_iff_count_le_one]
  intro id
  rw [count_charges]
  exact (h id).course.countP_isCharge_le

/-- A request in place `j` of a window, counted from zero, has number `j + 1` and the usage of
it. -/
theorem Counts.used_of_getElem? {clock : String → ℕ} (h : s.Counts clock) {key : String}
    {serial j : ℕ} {x : Charged × Window}
    (hx : (members Charged.view s.charges key serial)[j]? = some x) :
    x.2.count = j + 1 ∧ x.1.usage.used.toNat = min (j + 1) u64Max := by
  have hcount : x.2.count = j + 1 := by
    have hnumbers := congrArg (·[j]?) (counts_eq_range' Charged.view s.charges key serial)
    obtain ⟨hlt, -⟩ := List.getElem?_eq_some_iff.mp hx
    simp only [List.getElem?_map, hx, Option.map_some] at hnumbers
    rw [List.getElem?_range' hlt] at hnumbers
    have := Option.some.inj hnumbers
    omega
  have hmem : x ∈ assign Charged.view Book.empty s.charges :=
    List.mem_of_mem_filter (List.mem_of_getElem? hx)
  exact ⟨hcount, hcount ▸ h.used x hmem⟩

theorem Counts.decides {clock : String → ℕ} (h : s.Counts clock) (htold : s.Told jobs)
    {key : String} {serial j : ℕ} {x : Charged × Window}
    (hx : (members Charged.view s.charges key serial)[j]? = some x) :
    ∃ limit, (∀ l, (x.1.id, Act.limit l) ∈ s.history ↔ l = limit) ∧
      (limit.toNat < u64Max → s.Decided x.1.id (j + 1) limit) := by
  obtain ⟨-, hused⟩ := h.used_of_getElem? hx
  have hmem : x.1 ∈ s.charges := by
    rw [← map_fst_assign Charged.view Book.empty s.charges]
    exact List.mem_map_of_mem (List.mem_of_mem_filter (List.mem_of_getElem? hx))
  have hzero : x.1.usage.used ≠ 0 := by
    intro h0
    have hnat : (0 : UInt64).toNat = 0 := rfl
    rw [h0, hnat, u64Max] at hused
    omega
  obtain ⟨-, limit, hlimit, hdecides⟩ := htold.decides (mem_acts_of_mem_charges hmem) rfl hzero
  refine ⟨limit, hlimit, fun hmax => hdecides (j + 1) ?_⟩
  rw [gt_iff_lt, UInt64.lt_iff_toNat_lt, hused]
  omega

/-- **Exact admission.** However the requests interleave, are pending or are dropped: a request is
charged at most once; the request with number `i` in its window is told `min i u64::MAX`, reaches
the inner service at most once and only if `i` is within its own limit, exactly once if it is
answered, and is answered as rate limited otherwise; and no request reaches the inner service
uncharged. Of `n` answered requests in a window with one limit, exactly `min n limit` reach it. -/
theorem exact_admission (jobs : ℕ → Job memory Head ReqBody ResBody)
    (hskip : ∀ id, (jobs id).limiter.skips (jobs id).request = false)
    (hmode : ∀ id, (jobs id).limiter.storeFailureMode = .reject)
    (events : List (Event memory ResBody E)) (hlawful : Lawful jobs start (fun _ => 0) events) :
    let s := start.after jobs events
    (s.charges.map Charged.id).Nodup ∧
    (∀ key serial j x, (members Charged.view s.charges key serial)[j]? = some x →
      x.1.usage.used.toNat = min (j + 1) u64Max ∧
      ∃ limit, (∀ l, (x.1.id, Act.limit l) ∈ s.history ↔ l = limit) ∧
        (limit.toNat < u64Max → s.Decided x.1.id (j + 1) limit)) ∧
    (∀ id, 0 < s.calls id → ∃ c ∈ s.charges, c.id = id) ∧
    ∀ key serial (limit : UInt64), limit.toNat < u64Max →
      (∀ x ∈ members Charged.view s.charges key serial, (x.1.id, Act.limit limit) ∈ s.history ∧
        ∃ result, s.phases x.1.id = .finished result) →
      (members Charged.view s.charges key serial).countP (fun x => 0 < s.calls x.1.id) =
        min (members Charged.view s.charges key serial).length limit.toNat := by
  intro s
  have htold : s.Told jobs := told_start.after events
  obtain ⟨clock, hcounts⟩ := counts_start.after events told_start hlawful
  refine ⟨htold.nodup_charges, fun key serial j x hx =>
    ⟨(hcounts.used_of_getElem? hx).2, hcounts.decides htold hx⟩, fun id hid => ?_,
    fun key serial limit hlimit hall => ?_⟩
  · rcases ((htold id).course.of_call hid).2 with
      ⟨hskips, -⟩ | ⟨hallows, -⟩ | ⟨limit, ⟨key, window, now, result⟩, u, -, hmem, hu, -⟩
    · exact absurd (hskips.symm.trans (hskip id)) (by decide)
    · exact absurd (hallows.symm.trans (hmode id)) (by decide)
    · obtain rfl : result = .ok u := hu
      exact ⟨⟨id, key, window, now, u⟩, List.mem_filterMap.mpr ⟨_, mem_acts.mp hmem, rfl⟩, rfl⟩
  · -- the calls of a window are its first `limit` numbers
    rw [← countP_members]
    refine List.countP_congr fun x hx => ?_
    obtain ⟨j, hj⟩ := List.mem_iff_getElem?.mp hx
    obtain ⟨limit', hlimit', hdecides⟩ := hcounts.decides htold hj
    obtain ⟨hmem, result, hresult⟩ := hall x hx
    obtain rfl := (hlimit' limit).mp hmem
    rw [decide_eq_true_iff, decide_eq_true_iff, (hcounts.used_of_getElem? hj).1]
    exact (hdecides hlimit).calls_pos_iff hresult

/-- A run in which the cache presents every entry, removes none, and the clock readings from `t` on
do not decrease. -/
def Visible (t : ℕ) : List (Event memory ResBody E) → Prop
  | [] => True
  | .poll _ turn :: events =>
      turn.store.access.hidden = false ∧ t ≤ turn.store.access.now.nanos ∧
        turn.store.access.now ≤ turn.store.access.putAt ∧ Visible turn.store.access.now.nanos events
  | .evict _ _ :: _ => False
  | _ :: events => Visible t events

instance decidableVisible (t : ℕ) :
    (events : List (Event memory ResBody E)) → Decidable (Visible t events)
  | [] => isTrue trivial
  | .poll _ turn :: events =>
      have := decidableVisible turn.store.access.now.nanos events
      inferInstanceAs (Decidable (_ ∧ _ ∧ _ ∧ _))
  | .evict _ _ :: _ => isFalse id
  | .call _ :: events => decidableVisible t events
  | .drop _ :: events => decidableVisible t events

/-- Such a run is lawful. -/
theorem lawful_of_visible {s : System memory Head ReqBody ResBody E} {clock : String → ℕ} {t : ℕ}
    (events : List (Event memory ResBody E)) (hclock : ∀ key, clock key ≤ t)
    (h : Visible t events) : Lawful jobs s clock events := by
  induction events generalizing s clock t with
  | nil => trivial
  | cons event events ih =>
    cases event with
    | call id => exact ⟨trivial, ih hclock h⟩
    | drop id => exact ⟨trivial, ih hclock h⟩
    | move removal => exact False.elim h
    | poll id turn =>
      obtain ⟨hhidden, hnow, hput, hrest⟩ := h
      refine ⟨fun _ key _ _ => ⟨(hclock key).trans hnow, by simp [hhidden], hput⟩, ih ?_ hrest⟩
      intro key
      have hold := (hclock key).trans hnow
      have htick : s.tick jobs clock (.poll id turn) = clock ∨
          ∃ k, s.tick jobs clock (.poll id turn) =
            Function.update clock k turn.store.access.now.nanos := by
        simp only [tick]
        split
        · split
          next k _ => exact .inr ⟨k, rfl⟩
          next => exact .inl rfl
        · exact .inl rfl
      rcases htick with heq | ⟨k, heq⟩ <;> rw [heq]
      · exact hold
      · by_cases hk : key = k
        · rw [hk, Function.update_self]
        · rwa [Function.update_of_ne hk]

/-- A limiter of one request per window. -/
def oneJob : Job memory Unit Unit Unit where
  limiter :=
    { policyName := "p", window := Duration.ofMillis 10, storeFailureMode := .reject
      rateLimitFields := .disabled, skip := none, extract := fun _ => .ok "c", encode := none
      build := fun _ reason => ⟨reason.statusCode, [], ()⟩ }
  store := ()
  request := ⟨(), none, ()⟩

/-- A turn at millisecond `t` in which the limit resolves to one and the inner service answers; a
charge creates the entry or updates it. -/
def oneTurn (t : UInt64) (asUpdate : Bool) : Turn memory Unit Unit where
  limit := .ready (.ok 1)
  inner := .ready (.ok ⟨200, [], ()⟩)
  store := ⟨⟨false, .ofMillis t, .ofMillis t, .ofMillis t, asUpdate⟩, .ofMillis t⟩

/-- Two requests that are charged in one window, the second before the first goes on. -/
def twoRequests : List (Event memory Unit Unit) :=
  [.call 0, .call 1, .poll 0 (oneTurn 5 false), .poll 1 (oneTurn 6 true),
    .poll 0 (oneTurn 7 true), .poll 1 (oneTurn 7 true), .poll 1 (oneTurn 8 true),
    .poll 0 (oneTurn 9 true)]

theorem lawful_twoRequests : Lawful (fun _ => oneJob) start (fun _ => 0) twoRequests := by
  have hvisible : Visible 0 twoRequests := by decide
  exact lawful_of_visible twoRequests (fun _ => Nat.le_refl 0) hvisible

/-- The second of two requests in a window is told so, and its limit of one decides. -/
theorem exact_admission_twoRequests :
    Lawful (fun _ => oneJob) start (fun _ => 0) twoRequests ∧
      ∃ x, (members Charged.view (start.after (fun _ => oneJob) twoRequests).charges "p:c" 0)[1]? =
        some x ∧ x.1.id = 1 ∧ x.1.usage.used.toNat = min 2 u64Max := by
  refine ⟨lawful_twoRequests, _, rfl, rfl, ?_⟩
  exact ((exact_admission (fun _ => oneJob) (fun _ => rfl) (fun _ => rfl) twoRequests
    lawful_twoRequests).2.1 "p:c" 0 1 _ rfl).1

/-! ## Bursts -/

/-- **The burst bound.** With one window length and one limit, an interval of length `span` admits
at most `⌈span / length⌉ + 1` times the limit for each key, and one of the window's length at most
twice the limit. -/
theorem burst_bound (jobs : ℕ → Job memory Head ReqBody ResBody) (length : Duration)
    (hlength : 0 < length.nanos) (hwindow : ∀ id, (jobs id).limiter.window = length)
    (events : List (Event memory ResBody E)) (hlawful : Lawful jobs start (fun _ => 0) events)
    (limit : UInt64) (hlimit : limit.toNat < u64Max)
    (hlimits : ∀ id l, (id, Act.limit l) ∈ (start.after jobs events).history → l = limit)
    (key : String) (a : ℕ) :
    let s := start.after jobs events
    let admitted (span : ℕ) : ℕ := s.charges.countP fun c =>
      (c.key = key ∧ a ≤ c.now.nanos ∧ c.now.nanos < a + span) && decide (0 < s.calls c.id)
    (s.charges.map Charged.id).Nodup ∧
      (∀ span, admitted span ≤ ((span + length.nanos - 1) / length.nanos + 1) * limit.toNat) ∧
      admitted length.nanos ≤ 2 * limit.toNat := by
  intro s admitted
  have htold : s.Told jobs := told_start.after events
  obtain ⟨clock, hcounts⟩ := counts_start.after events told_start hlawful
  have hlen : ∀ c ∈ s.charges, c.view.length = length.nanos := by
    intro c hc
    obtain ⟨key, -, -, hmine⟩ := (htold c.id).charges (mem_acts_of_mem_charges hc)
    have hmine : c.window = (jobs c.id).limiter.window := hmine
    rw [Charged.view, MemoryStore.chargeOf, hmine, hwindow]
  have hbound : ∀ span,
      admitted span ≤ ((span + length.nanos - 1) / length.nanos + 1) * limit.toNat := by
    intro span
    have hinterval := countP_interval_le Charged.view hlength s.charges hlen hcounts.ordered key a
      span (fun x => 0 < s.calls x.1.id) limit.toNat ?_
    · have hadmitted : admitted span = (assign Charged.view Book.empty s.charges).countP
          (inInterval Charged.view key a span fun x => 0 < s.calls x.1.id) := by
        show List.countP _ s.charges = _
        conv_lhs => rw [← map_fst_assign Charged.view Book.empty s.charges]
        rw [List.countP_map]
        rfl
      rw [hadmitted]
      exact hinterval
    · -- a window admits only requests numbered up to the limit
      intro serial
      refine le_trans (List.countP_mono_left fun x hx hcalls => ?_)
        ((countP_members Charged.view s.charges key serial limit.toNat).trans_le (min_le_right _ _))
      obtain ⟨j, hj⟩ := List.mem_iff_getElem?.mp hx
      obtain ⟨limit', hlimit', hdecides⟩ := hcounts.decides htold hj
      obtain rfl := hlimits _ _ ((hlimit' limit').mpr rfl)
      have hle := (hdecides hlimit).1
      rw [decide_eq_true_iff] at hcalls ⊢
      rw [(hcounts.used_of_getElem? hj).1]
      by_contra hover
      rw [if_neg hover] at hle
      exact absurd hcalls (Nat.not_lt.mpr hle)
  refine ⟨htold.nodup_charges, hbound, ?_⟩
  have hwindow := hbound length.nanos
  have hdiv : (length.nanos + length.nanos - 1) / length.nanos = 1 :=
    Nat.div_eq_of_lt_le (by omega) (by omega)
  rwa [hdiv] at hwindow

theorem burst_bound_twoRequests :
    Lawful (fun _ => oneJob) start (fun _ => 0) twoRequests ∧
      ((start.after (fun _ => oneJob) twoRequests).charges.countP fun c =>
        (c.key = "p:c" ∧ 0 ≤ c.now.nanos ∧ c.now.nanos < 0 + 10 * 10 ^ 6) &&
          decide (0 < (start.after (fun _ => oneJob) twoRequests).calls c.id)) ≤ 2 := by
  refine ⟨lawful_twoRequests, ?_⟩
  have hlimits : ∀ id l, (id, Act.limit l) ∈ (start.after (fun _ => oneJob) twoRequests).history →
      l = 1 := by
    intro id l hmem
    have hone : ((start.after (fun _ => oneJob) twoRequests).history.all
          fun x => x.2.limit?.all (· = 1)) = true := by decide
    simpa [Act.limit?] using List.all_eq_true.mp hone _ hmem
  exact (burst_bound (fun _ => oneJob) (Duration.ofMillis 10) (by decide) (fun _ => rfl) twoRequests
    lawful_twoRequests 1 (by decide) hlimits "p:c" 0).2.2

end System

end TowerRateLimiter
