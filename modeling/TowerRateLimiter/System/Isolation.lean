import TowerRateLimiter.System.Admission
import TowerRateLimiter.Limiter.ScopedKey

/-!
# Isolation between policies and clients

Two requests share a counter if and only if they have the same policy name and the same client key.
For one such pair, a run over the shared store and the run in which all other requests are left out
agree on everything its requests do and get (`isolation`). `Agrees` is the relation between the two
runs: the same futures for the pair's requests and the same entry under the pair's stored key.
-/

namespace TowerRateLimiter

open Rust ExpiringCache

variable {Head ReqBody ResBody E : Type}

namespace Job

variable (job : Job memory Head ReqBody ResBody)

/-- The policy name and the client key of a request, if its key can be extracted. -/
def pair : Option (String × String) :=
  match job.limiter.extract job.request with
  | .ok clientKey => some (job.limiter.policyName, clientKey)
  | .error _ => none

variable {job}

theorem pair_of_extract {key : String} (h : job.limiter.extract job.request = .ok key) :
    job.pair = some (job.limiter.policyName, key) := by
  rw [pair, h]

theorem storedKey_of_encode (h : job.limiter.encode = none) (key : String) :
    job.limiter.storedKey key = makeKey job.limiter.policyName key := by
  rw [Limiter.storedKey, h]

/-! ## What a step depends on -/

theorem send_store_eq (store store' : MemoryStore) :
    job.send (E := E) store = { job.send store' with store := store } := by
  unfold send
  split
  · rfl
  · split <;> rfl

/-- An iteration depends on the store only through the key it charges. -/
theorem iterate_congr (id : ℕ) {store store' : MemoryStore} {turn : Turn memory ResBody E}
    {state : RunState memory Head ReqBody}
    (h : ∀ key, job.chargeKey turn state = some key → store key = store' key) :
    (job.iterate id store turn state).phase = (job.iterate id store' turn state).phase ∧
      (job.iterate id store turn state).acts = (job.iterate id store' turn state).acts ∧
      ∀ key, job.chargeKey turn state = some key →
        (job.iterate id store turn state).store key =
          (job.iterate id store' turn state).store key := by
  cases state with
  | limit future request key =>
    rcases hlimit : turn.limit with _ | ⟨_ | limit⟩
    · simp [iterate, chargeKey, hlimit]
    · simp [iterate, chargeKey, hlimit]
    · have hkey : job.chargeKey turn (.limit future request key) =
          some (job.limiter.storedKey key) := by
        simp only [chargeKey, hlimit]
      obtain ⟨hresult, hentry⟩ := MemoryStore.incrementUsage_congr job.limiter.window
        turn.store.access turn.store.readAt (h _ hkey)
      simp only [iterate, increment, hlimit, hresult, hkey]
      refine ⟨trivial, trivial, fun key' hkey' => ?_⟩
      obtain rfl := Option.some.inj hkey'
      exact hentry
  | store future request limit =>
    obtain ⟨_ | result⟩ := future <;> exact ⟨rfl, rfl, by simp [chargeKey]⟩
  | inner future metadata =>
    simp only [iterate]
    split <;> exact ⟨rfl, rfl, by simp [chargeKey]⟩
  | ready response => cases response <;> exact ⟨rfl, rfl, by simp [chargeKey]⟩
  | done => exact ⟨rfl, rfl, by simp [chargeKey]⟩

/-- An iteration leaves the counters of other keys alone. -/
theorem iterate_of_ne (id : ℕ) {store : MemoryStore} {turn : Turn memory ResBody E}
    {state : RunState memory Head ReqBody} {key : String}
    (h : job.chargeKey turn state ≠ some key) :
    (job.iterate id store turn state).store key = store key := by
  rcases job.iterate_charge id store turn state with
    ⟨-, hquiet⟩ | ⟨_, _, key', limit, -, hkey, hstore, -⟩
  · rw [hquiet.1]
  · rw [hstore]
    refine MemoryStore.incrementUsage_of_ne job.limiter.window turn.store.access turn.store.readAt
      fun heq => h ?_
    rw [hkey, heq]

end Job

namespace System

variable {jobs : ℕ → Job memory Head ReqBody ResBody} {s s' : System memory Head ReqBody ResBody E}
  {p c : String}

/-- The request belongs to the pair. -/
def mine (jobs : ℕ → Job memory Head ReqBody ResBody) (p c : String) (id : ℕ) : Bool :=
  (jobs id).pair = some (p, c)

/-- The events of the requests of a pair, and what the cache does to its counter. -/
def keep (jobs : ℕ → Job memory Head ReqBody ResBody) (p c : String) : Event memory ResBody E → Bool
  | .call id | .poll id _ | .drop id => mine jobs p c id
  | .evict key _ => key = makeKey p c

/-- The whole run and the run of the pair alone agree on the pair. -/
structure Agrees (jobs : ℕ → Job memory Head ReqBody ResBody) (p c : String)
    (s s' : System memory Head ReqBody ResBody E) : Prop where
  phases : ∀ id, mine jobs p c id = true → s.phases id = s'.phases id
  store : s.store (makeKey p c) = s'.store (makeKey p c)
  history : s.history.filter (fun x => mine jobs p c x.1) = s'.history

/-- A step of a request of the pair keeps the agreement. -/
theorem Agrees.commit (h : Agrees jobs p c s s') {id : ℕ} (hid : mine jobs p c id = true)
    {o o' : Outcome memory Head ReqBody ResBody E} (hphase : o.phase = o'.phase)
    (hacts : o.acts = o'.acts) (hstore : o.store (makeKey p c) = o'.store (makeKey p c)) :
    Agrees jobs p c (s.commit id o) (s'.commit id o') where
  phases id' hid' := by
    simp only [System.commit, Function.update_apply, hphase, h.phases id' hid']
  store := hstore
  history := by
    have hown : (o.acts.map (id, ·)).filter (fun x => mine jobs p c x.1) = o.acts.map (id, ·) :=
      List.filter_eq_self.mpr (by simp [hid])
    simp only [System.commit, List.filter_append, h.history, hown]
    rw [hacts]

/-- A step of another request keeps the agreement if it leaves the pair's counter alone. -/
theorem Agrees.commit_other (h : Agrees jobs p c s s') {id : ℕ} (hid : mine jobs p c id = false)
    {o : Outcome memory Head ReqBody ResBody E}
    (hstore : o.store (makeKey p c) = s.store (makeKey p c)) :
    Agrees jobs p c (s.commit id o) s' where
  phases id' hid' := by
    have hne : id' ≠ id := fun heq => by simp [heq, hid] at hid'
    simp only [System.commit, Function.update_of_ne hne, h.phases id' hid']
  store := hstore.trans h.store
  history := by
    have hnone : (o.acts.map (id, ·)).filter (fun x => mine jobs p c x.1) = [] :=
      List.filter_eq_nil_iff.mpr (by simp [hid])
    simp only [System.commit, List.filter_append, h.history, hnone, List.append_nil]

section Step

variable (hencode : ∀ id, (jobs id).limiter.encode = none)

include hencode

/-- A request charges the pair's counter if and only if it belongs to the pair. -/
theorem chargeKey_eq_iff {id : ℕ} {turn : Turn memory ResBody E}
    {state : RunState memory Head ReqBody} {acts : List (Act memory Head ReqBody)}
    (hlive : (jobs id).LiveStory state acts) {key : String}
    (hkey : (jobs id).chargeKey turn state = some key) :
    key = makeKey p c ↔ mine jobs p c id = true := by
  cases hlive with
  | limiting clientKey hextract =>
    have hstored : key = makeKey (jobs id).limiter.policyName clientKey := by
      simp only [Job.chargeKey] at hkey
      split at hkey
      · rw [← Option.some.inj hkey, Job.storedKey_of_encode (hencode id)]
      · exact absurd hkey (by simp)
    rw [hstored, makeKey_inj, mine, Job.pair_of_extract hextract]
    simp
  -- no other state charges
  | _ => exact absurd hkey (by simp [Job.chargeKey])

/-- An event of the pair keeps the agreement. -/
theorem Agrees.step_keep (h : Agrees jobs p c s s') (htold : s.Told jobs)
    {event : Event memory ResBody E} (hkeep : keep jobs p c event = true) :
    Agrees jobs p c (s.step jobs event) (s'.step jobs event) := by
  cases event with
  | call id =>
    have hphases := h.phases id hkeep
    rcases hphase : s.phases id with _ | _ | _ | _ | _
    case unused =>
      rw [step_call hphase, step_call (hphases ▸ hphase)]
      refine h.commit hkeep ?_ ?_ ?_
      · rw [Job.send_store_eq s.store s'.store]
      · rw [Job.send_store_eq s.store s'.store]
      · rw [((jobs id).send_quiet s.store).1, ((jobs id).send_quiet s'.store).1]
        exact h.store
    all_goals
      simp only [System.step, hphase, hphases ▸ hphase]
      exact h
  | poll id turn =>
    have hphases := h.phases id hkeep
    rcases hphase : s.phases id with _ | future | _ | _ | _
    case live =>
      obtain ⟨state, hstate, hlive⟩ := htold.live hphase
      rw [step_poll hstate, step_poll (hphases ▸ hstate)]
      -- an iteration depends on the counter it charges only, and here that is the pair's
      have hown : ∀ key, (jobs id).chargeKey turn state = some key → s.store key = s'.store key := by
        intro key hkey
        rw [(chargeKey_eq_iff hencode hlive hkey).mpr hkeep]
        exact h.store
      obtain ⟨hphase', hacts, hstore⟩ := Job.iterate_congr id hown
      refine h.commit hkeep hphase' hacts ?_
      by_cases hkey : (jobs id).chargeKey turn state = some (makeKey p c)
      · exact hstore _ hkey
      · rw [Job.iterate_of_ne id hkey, Job.iterate_of_ne id hkey]
        exact h.store
    all_goals
      simp only [System.step, hphase, hphases ▸ hphase]
      exact h
  | drop id =>
    have hphases := h.phases id hkeep
    rcases hphase : s.phases id with _ | future | _ | _ | _
    case live =>
      simp only [System.step, hphase, hphases ▸ hphase]
      refine ⟨fun id' hid' => ?_, h.store, h.history⟩
      simp only [Function.update_apply, h.phases id' hid']
    all_goals
      simp only [System.step, hphase, hphases ▸ hphase]
      exact h
  | move removal =>
    obtain ⟨key, at'⟩ := removal
    obtain rfl : key = makeKey p c := by simpa [keep] using hkeep
    refine ⟨h.phases, ?_, h.history⟩
    simp only [System.step, ExpiringCache.evict, Function.update_self]

/-- Any other event keeps the agreement without the pair's run taking a step. -/
theorem Agrees.step_other (h : Agrees jobs p c s s') (htold : s.Told jobs)
    {event : Event memory ResBody E} (hkeep : keep jobs p c event = false) :
    Agrees jobs p c (s.step jobs event) s' := by
  rcases step_cases htold event with heq | ⟨id, rfl, -, heq⟩ | ⟨id, turn, state, rfl, -, hlive, heq⟩ |
    ⟨id, state, rfl, -, -, heq⟩ | ⟨⟨key, at'⟩, rfl, heq⟩ <;> rw [heq]
  · exact h
  · refine h.commit_other hkeep ?_
    rw [((jobs id).send_quiet s.store).1]
  · refine h.commit_other hkeep (Job.iterate_of_ne id fun hkey => ?_)
    -- charging the pair's counter would make the request one of the pair
    have hmine := (chargeKey_eq_iff hencode hlive hkey).mp rfl
    exact absurd (hmine.symm.trans hkeep) (by simp)
  · refine ⟨fun id' hid' => ?_, h.store, h.history⟩
    have hne : id' ≠ id := fun heq => by
      rw [heq] at hid'
      exact absurd (hid'.symm.trans hkeep) (by simp)
    simp only [Function.update_of_ne hne, h.phases id' hid']
  · refine ⟨h.phases, ?_, h.history⟩
    have hne : makeKey p c ≠ key := fun heq => by simp [keep, heq] at hkeep
    simp only [ExpiringCache.evict, Function.update_of_ne hne, h.store]

/-- The whole run and the pair's run agree to the end. -/
theorem Agrees.after (events : List (Event memory ResBody E)) (h : Agrees jobs p c s s')
    (htold : s.Told jobs) :
    Agrees jobs p c (s.after jobs events) (s'.after jobs (events.filter (keep jobs p c))) := by
  induction events generalizing s s' with
  | nil => exact h
  | cons event events ih =>
    by_cases hkeep : keep jobs p c event = true
    · rw [List.filter_cons_of_pos hkeep]
      exact ih (h.step_keep hencode htold hkeep) (htold.step event)
    · rw [List.filter_cons_of_neg hkeep]
      exact ih (h.step_other hencode htold (by simpa using hkeep)) (htold.step event)

end Step

/-- **Counter isolation.** For any policy name and client key, all requests with that pair do and
get the same as in the run without any other request, and a charge is made under the pair's stored
key if and only if its request has that pair: no other string reaches its counter, and all its
requests share it. -/
theorem isolation (jobs : ℕ → Job memory Head ReqBody ResBody)
    (hencode : ∀ id, (jobs id).limiter.encode = none) (events : List (Event memory ResBody E))
    (p c : String) :
    let s := start.after jobs events
    let s' := start.after jobs (events.filter (keep jobs p c))
    s.history.filter (fun x => mine jobs p c x.1) = s'.history ∧
      (∀ id, mine jobs p c id = true → s.phases id = s'.phases id) ∧
      ∀ id charge, (id, Act.charge charge) ∈ s.history →
        (charge.key = makeKey p c ↔ mine jobs p c id = true) := by
  intro s s'
  have hstart : Agrees jobs p c (start : System memory Head ReqBody ResBody E) start :=
    ⟨fun _ _ => rfl, rfl, rfl⟩
  obtain ⟨hphases, -, hhistory⟩ := hstart.after hencode events told_start
  refine ⟨hhistory, hphases, fun id charge hmem => ?_⟩
  obtain ⟨clientKey, hextract, hkey, -⟩ := (told_start.after events).charges hmem
  rw [hkey, Job.storedKey_of_encode (hencode id), makeKey_inj, mine, Job.pair_of_extract hextract]
  simp

/-- Requests of two limiters whose unescaped keys would collide. -/
def crossed (id : ℕ) : Job memory Unit Unit Unit :=
  let (policyName, clientKey) := if id = 0 then ("a:b", "c") else ("a", "b:c")
  { oneJob with limiter := { oneJob.limiter with policyName, extract := fun _ => .ok clientKey } }

/-- The two requests are charged one after the other, each of them the first of its key. -/
def crossedRequests : List (Event memory Unit Unit) :=
  [.call 0, .call 1, .poll 0 (oneTurn 5 false), .poll 1 (oneTurn 6 false), .poll 1 (oneTurn 7 true),
    .poll 0 (oneTurn 8 true)]

theorem isolation_crossed :
    (∀ id, (crossed id).limiter.encode = none) ∧
      (start.after crossed crossedRequests).history.filter (fun x => mine crossed "a" "b:c" x.1) =
        (start.after crossed (crossedRequests.filter (keep crossed "a" "b:c"))).history :=
  ⟨fun _ => rfl, (isolation crossed (fun _ => rfl) crossedRequests "a" "b:c").1⟩

end System

end TowerRateLimiter
