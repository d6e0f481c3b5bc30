import TowerRateLimiter.Store.Namespaces
import TowerRateLimiter.System.ReplicaAdmission

/-!
# Replicas do not meet under different keys

The replicas of a run share one database, and each request reads and writes one key of it. So the
commands of a key have a linear history of their own, whatever the server executes in between
(`Sound.ran_under`).

The key is made from the namespace of the request's store, the policy of its limiter and its client.
Without a key encoder it determines all three, so that no two of them share a counter by accident.

Main result: `replicas_isolated`.
-/

namespace TowerRateLimiter

open Rust Redis

variable {Head ReqBody ResBody E : Type} {backend : Backend}

/-- Transport keys of scoped keys that are equal have the same namespace and the same scoped key. -/
theorem scoped_of_transport {n m : Option String} {p q c d : String}
    (h : formatRedisKey n (makeKey p c) = formatRedisKey m (makeKey q d)) :
    effective n = effective m ∧ makeKey p c = makeKey q d := by
  have hlist := congrArg String.toList h
  rw [toList_formatRedisKey, toList_formatRedisKey] at hlist
  have hmarker : transportMarker n = transportMarker m := by
    -- the last two colons are those of the scoped key and before it
    have hparts : (transportMarker n ++ ':' :: (escapeKeyPart p).toList) ++
        ':' :: (escapeKeyPart c).toList = (transportMarker m ++ ':' :: (escapeKeyPart q).toList) ++
        ':' :: (escapeKeyPart d).toList := by
      simpa [makeKey] using hlist
    have hfirst := (append_colon_inj (colon_notMem_escapeKeyPart c) (colon_notMem_escapeKeyPart d)
      hparts).1
    exact (append_colon_inj (colon_notMem_escapeKeyPart p) (colon_notMem_escapeKeyPart q) hfirst).1
  rw [hmarker] at hlist
  exact ⟨transportMarker_inj.mp hmarker,
    String.toList_inj.mp (List.cons.inj (List.append_cancel_left hlist)).2⟩

namespace Job

variable (job : Job (redis backend) Head ReqBody ResBody)

/-- The Redis key that the request is charged under. -/
def redisKey : String := job.store.redisKey job.storeKey

/-- The request is one of a client under a policy, through a store of a namespace. -/
def Under (policy client : String) (nameSpace : Option String) : Prop :=
  job.limiter.policyName = policy ∧ (job.limiter.extract job.request).toOption = some client ∧
    effective job.store.nameSpace = effective nameSpace

instance (policy client : String) (nameSpace : Option String) :
    Decidable (job.Under policy client nameSpace) :=
  inferInstanceAs (Decidable (_ ∧ _ ∧ _))

variable {job}

/-- **The key determines the policy, the client and the namespace.** -/
theorem redisKey_eq_iff (hencode : job.limiter.encode = none)
    (hkeyed : ∃ key, job.limiter.extract job.request = .ok key) (policy client : String)
    (nameSpace : Option String) :
    job.redisKey = formatRedisKey nameSpace (makeKey policy client) ↔
      job.Under policy client nameSpace := by
  obtain ⟨key, hkey⟩ := hkeyed
  have hredisKey : job.redisKey =
      formatRedisKey job.store.nameSpace (makeKey job.limiter.policyName key) := by
    simp only [redisKey, storeKey, hkey, Limiter.storedKey, hencode, RedisStore.redisKey]
  simp only [hredisKey, Under, hkey, Except.toOption, Option.some_inj]
  constructor
  · intro h
    obtain ⟨hnameSpace, hscoped⟩ := scoped_of_transport h
    obtain ⟨hpolicy, hclient⟩ := makeKey_inj.mp hscoped
    exact ⟨hpolicy, hclient, hnameSpace⟩
  · rintro ⟨rfl, rfl, hnameSpace⟩
    refine String.toList_inj.mp ?_
    rw [toList_formatRedisKey, toList_formatRedisKey, transportMarker_inj.mpr hnameSpace]

end Job

namespace System

variable {jobs : ℕ → Job (redis backend) Head ReqBody ResBody}
  {s : System (redis backend) Head ReqBody ResBody E}

/-- A command is executed under its request's key. -/
theorem Sound.redisKey_command (h : s.Sound jobs) {x : Executed} (hx : x ∈ s.store.executed) :
    x.command.redisKey = (jobs x.command.id).redisKey :=
  (h.carries hx 0).redisKey

/-- The executed commands of a key are a run of increments by themselves. -/
theorem Sound.ran_under (h : s.Sound jobs) (k : String) :
    let mine := s.store.executed.filter fun x => (jobs x.command.id).redisKey = k
    let increments := mine.map fun x => (jobs x.command.id).increments x.reading
    mine.map (fun x => usageOf backend x.answer) = callResults backend .empty increments ∧
      s.store.state k = keyspaceAfter backend .empty increments k := by
  intro mine increments
  have hmine : s.store.executed.filter (fun x => x.command.redisKey = k) = mine := by
    refine List.filter_congr fun x hx => ?_
    rw [h.redisKey_command hx]
  have hlocal : ∀ (m : Message) now, LocalTo m.redisKey fun ks => m.run backend ks now :=
    fun m now => runCounter_local backend m.implementation now m.redisKey m.windowMillis
  obtain ⟨hanswers, hstate⟩ := h.linear.restrict (fun ks m now _ hk => (hlocal m now).other ks hk)
    (fun _ _ m now hks => (hlocal m now).congr hks) k
  rw [hmine] at hanswers hstate
  have hcarries : ∀ y ∈ mine.map fun x => (x.command, x.reading),
      y.1.Carries ((jobs y.1.id).increments y.2) := by
    intro y hy
    obtain ⟨x, hx, rfl⟩ := List.mem_map.mp hy
    exact h.carries (List.mem_of_mem_filter hx) _
  obtain ⟨hafter, hresults⟩ := replay_carried backend (fun id now => (jobs id).increments now)
    (fun _ _ => rfl) hcarries .empty
  rw [List.map_map] at hafter hresults
  constructor
  · rw [← hanswers, List.map_map] at hresults
    exact hresults
  · rw [hstate, hafter]
    rfl

/-- **Replicas are isolated by policy, client and namespace.** Without key encoders, what the server
answers to the requests of a client under a policy and a namespace, and the counter that it keeps for
them, are those of a database that nobody else uses. And this is what the requests are told, unless
their window is refused or their connection fails. -/
theorem replicas_isolated (jobs : ℕ → Job (redis backend) Head ReqBody ResBody)
    (hencode : ∀ id, (jobs id).limiter.encode = none)
    (events : List (Event (redis backend) ResBody E)) (policy client : String)
    (nameSpace : Option String) :
    let s := start.after jobs events
    let mine := s.store.executed.filter fun x =>
      (jobs x.command.id).Under policy client nameSpace
    let increments := mine.map fun x => (jobs x.command.id).increments x.reading
    let k := formatRedisKey nameSpace (makeKey policy client)
    mine.map (fun x => usageOf backend x.answer) = callResults backend .empty increments ∧
      s.store.state k = keyspaceAfter backend .empty increments k ∧
      ∀ id result, (id, Act.answer result) ∈ s.history → (jobs id).Under policy client nameSpace →
        (∃ e, checkedWindowMillis (jobs id).limiter.window = .error e ∧
          result = .error e.toRateLimitError) ∨
        (∃ e, Disconnected id events e ∧ result = usageOf backend (.error e)) ∨
        ∃ x ∈ mine, x.command.id = id ∧ result = usageOf backend x.answer := by
  intro s mine increments k
  have hsound : s.Sound jobs := sound_start.after events
  have hmine : s.store.executed.filter (fun x => (jobs x.command.id).redisKey = k) = mine := by
    refine List.filter_congr fun x hx => ?_
    have hkeyed := (hsound.commands _ (hsound.linear.mem_sent hx)).keyed
    exact decide_eq_decide.mpr (Job.redisKey_eq_iff (hencode _) hkeyed policy client nameSpace)
  obtain ⟨hanswers, hstate⟩ := hsound.ran_under k
  rw [hmine] at hanswers hstate
  refine ⟨hanswers, hstate, fun id result hresult hunder => ?_⟩
  have hanswered : (jobs id).Answered id (Disconnected id events) s.store result :=
    answered_after jobs events (mem_acts.mpr hresult)
  cases hanswered with
  | refused e he => exact .inl ⟨e, he, rfl⟩
  | lost e he => exact .inr (.inl ⟨e, he, rfl⟩)
  | executed x hx hid =>
    refine .inr (.inr ⟨x, List.mem_filter.mpr ⟨hx, ?_⟩, hid, rfl⟩)
    rw [hid]
    exact decide_eq_true hunder

/-- Two replicas of one policy and one of another, for the same client. -/
def threeJobs : ℕ → Job (redis (.exact true)) Unit Unit Unit
  | 1 => { replica .lua with limiter := { (replica .lua).limiter with policyName := "q" } }
  | _ => replica .lua

/-- The request of the other policy is executed between the two of the first, which are told that
they are the first and the second. -/
theorem replicas_isolated_three :
    let events : List (Event (redis (.exact true)) Unit Unit) :=
      [.call 0, .call 1, .call 2, .poll 0 readyTurn, .poll 1 readyTurn, .poll 2 readyTurn,
        .poll 0 readyTurn, .poll 1 readyTurn, .poll 2 readyTurn, .serve 0 5, .serve 1 6, .serve 2 7]
    let s := start.after threeJobs events
    let mine := s.store.executed.filter fun x => (threeJobs x.command.id).Under "p" "c" none
    s.executedIds = [0, 1, 2] ∧ mine.map (fun x => x.command.id) = [0, 2] ∧
      mine.map (fun x => usageOf (.exact true) x.answer) =
        callResults (.exact true) .empty
          [(replica .lua).increments 5, (replica .lua).increments 7] := by
  intro events s mine
  have hencode : ∀ id, (threeJobs id).limiter.encode = none := by
    intro id
    unfold threeJobs
    split <;> rfl
  exact ⟨by decide, by decide,
    (replicas_isolated threeJobs hencode events "p" "c" none).1⟩

end System

end TowerRateLimiter
