import TowerRateLimiter.Limiter.Response
import TowerRateLimiter.System.ReplicaAdmission

/-!
# Windows over replicas

Two things that one replica tells or does to the clients of all others.

* `replicas_retryAfter`: what a response says in `Retry-After` holds for the next request of the
  client at any replica. The server's clock decides: a request executed later than that is in a
  later window, and one executed at the last millisecond of the old window is answered with an error.
* `locked_out`: once a counter has lost its deadline, no replica ever tells a usage for its key
  again. The requests of the key are all rejected by replicas that reject when the store fails, and
  none of them is limited by replicas that allow.
-/

namespace TowerRateLimiter

open Rust Redis FixedWindow

variable {Head ReqBody ResBody E : Type} {backend : Backend}

namespace System

variable {jobs : ℕ → Job (redis backend) Head ReqBody ResBody}
  {s : System (redis backend) Head ReqBody ResBody E}

/-! ## Retry-After -/

/-- Of two increments of one key, the one that the server executed at a later time comes after the
other. -/
theorem Healthy.follows (h : s.Healthy jobs) {x y : Executed × Window}
    (hx : x ∈ assign (view jobs) Book.empty s.store.executed)
    (hy : y ∈ assign (view jobs) Book.empty s.store.executed)
    (hkey : (view jobs x.1).key = (view jobs y.1).key) (hlt : x.1.reading < y.1.reading) :
    Follows y.1.reading x.2 y.2 := by
  have hclock : (assign (view jobs) Book.empty s.store.executed).Pairwise
      fun x y => x.1.reading ≤ y.1.reading := by
    have hreadings := h.clock
    rw [← map_fst_assign (view jobs) Book.empty s.store.executed, List.map_map,
      List.pairwise_map] at hreadings
    exact hreadings
  have hfollows := assign_follows (view jobs) s.store.executed
  obtain ⟨before, later, hsplit⟩ := List.append_of_mem hx
  rw [hsplit] at hy hclock hfollows
  -- nothing before `x` was executed at a later time
  rcases List.mem_append.mp hy with hy | hy
  · have hle := (List.pairwise_append.mp hclock).2.2 y hy x List.mem_cons_self
    exact absurd hlt (Nat.not_lt.mpr hle)
  · rcases List.mem_cons.mp hy with rfl | hy
    · exact absurd hlt (Nat.lt_irrefl _)
    · exact (List.pairwise_cons.mp (List.pairwise_append.mp hfollows).2.1).1 y hy hkey

/-- The reset time that a request is told, in milliseconds. -/
theorem Healthy.resetAfter_eq (h : s.Healthy jobs) (hsound : s.Sound jobs) {x : Executed × Window}
    (hx : x ∈ assign (view jobs) Book.empty s.store.executed) {u : Usage}
    (hu : Act.answer (.ok u) ∈ s.acts x.1.command.id) :
    u.resetAfter.nanos = (x.2.closes - 1 - x.1.reading) * nanosPerMilli := by
  obtain ⟨-, -, -, -, hnear⟩ := h.answer_eq hsound hx
  rw [(h.usage_eq hsound hx hu).2, windowUsage_resetAfter hnear]

/-- **`Retry-After` holds at every replica.** On a healthy server, take a request that was told a
usage, and the seconds that a response to it gives in `Retry-After`. A request of the same key that
the server executes more than that many seconds later, for whichever replica, is in a later window,
and the first of that window is told `1`. One that it executes exactly that many seconds later is in
a later window too, or in the last millisecond of the old one, where it gets an error. One second
less is too early, unless a second is all there is. -/
theorem replicas_retryAfter (jobs : ℕ → Job (redis backend) Head ReqBody ResBody)
    (events : List (Event (redis backend) ResBody E))
    (hhealthy : (start.after jobs events).Healthy jobs) :
    let s := start.after jobs events
    let windows := assign (view jobs) Book.empty s.store.executed
    ∀ x u, x ∈ windows → (x.1.command.id, Act.answer (.ok u)) ∈ s.history →
      let seconds := (ceilSeconds u.resetAfter).toNat
      (∀ y ∈ windows, (view jobs y.1).key = (view jobs x.1).key →
        (x.1.reading + seconds * 1000 < y.1.reading → x.2.serial < y.2.serial ∧
          ((s.inWindow jobs (view jobs y.1).key y.2.serial).head? = some y →
            ∀ u', (y.1.command.id, Act.answer (.ok u')) ∈ s.history → u'.used.toNat = 1)) ∧
        (x.1.reading + seconds * 1000 = y.1.reading → x.2.serial < y.2.serial ∨
          (y.2.serial = x.2.serial ∧
            usageOf backend y.1.answer =
              .error (RedisStoreError.invalidResetAfter 0).toRateLimitError))) ∧
      (seconds = 1 ∨ x.1.reading + (seconds - 1) * 1000 + 1 < x.2.closes) := by
  intro s windows x u hx hu seconds
  have hsound : s.Sound jobs := sound_start.after events
  have hreset := hhealthy.resetAfter_eq hsound hx (mem_acts.mpr hu)
  obtain ⟨hbefore, -⟩ := hhealthy.usage_eq hsound hx (mem_acts.mpr hu)
  obtain ⟨-, -, -, -, hnear⟩ := hhealthy.answer_eq hsound hx
  have hone : 1 ≤ seconds := one_le_ceilSeconds _
  -- the seconds cover the time to the last millisecond of the window, and no second is too many
  have hrange : u.resetAfter.nanos < instantEnd := by
    rw [hreset]
    simp only [instantEnd, nanosPerMilli, nanosPerSec]
    omega
  obtain ⟨hcovers, htight⟩ : _ ≤ seconds * nanosPerSec ∧
      (seconds = 1 ∨ (seconds - 1) * nanosPerSec < _) := ceilSeconds_tight hrange
  rw [hreset] at hcovers htight
  simp only [nanosPerMilli, nanosPerSec] at hcovers htight
  refine ⟨fun y hy hkey => ⟨fun hlate => ⟨?_, fun hhead u' hu' => ?_⟩, fun hat => ?_⟩, by omega⟩
  · rcases hhealthy.follows hx hy hkey.symm (by omega) with hserial | ⟨-, -, -, -, hactive⟩
    · exact hserial
    · omega
  · rw [(hhealthy.used_eq hsound hy (mem_acts.mpr hu')).1]
    exact count_of_head_members _ _ hhead
  · rcases hhealthy.follows hx hy hkey.symm (by omega) with hserial | ⟨hserial, -, hcloses, -, hactive⟩
    · exact .inl hserial
    · -- the window is the same and its last millisecond has come
      obtain ⟨heq, hpos, -, hlt, -⟩ := hhealthy.answer_eq hsound hy
      refine .inr ⟨hserial.symm, ?_⟩
      rw [heq, usageOf_windowAnswer_last backend hpos (by omega)]

/-- A replica with a window of two seconds. -/
def slowReplica : Job (redis (.exact true)) Unit Unit Unit :=
  { replica .lua with limiter := { (replica .lua).limiter with window := Duration.ofMillis 2000 } }

/-- Requests to `slowReplica`: two at once, one after exactly two seconds and one a millisecond
later. -/
def retries : List (Event (redis (.exact true)) Unit Unit) :=
  [.call 0, .poll 0 readyTurn, .poll 0 readyTurn, .serve 0 5, .call 1, .poll 1 readyTurn,
    .poll 1 readyTurn, .serve 1 5, .poll 1 readyTurn, .call 2, .poll 2 readyTurn, .poll 2 readyTurn,
    .serve 2 2005, .call 3, .poll 3 readyTurn, .poll 3 readyTurn, .serve 3 2006]

theorem healthy_retries :
    (start.after (fun _ => slowReplica) retries).Healthy fun _ => slowReplica where
  clock := by decide
  window := by decide
  range := by decide
  few := by decide

/-- The second request is told to wait two seconds. The third waits for exactly that and gets an
error, the fourth a millisecond longer and is in the next window. -/
theorem replicas_retryAfter_retries :
    let s := (start.after (fun _ => slowReplica) retries)
    let windows := assign (view fun _ => slowReplica) Book.empty s.store.executed
    s.Healthy (fun _ => slowReplica) ∧ ∃ x y z, windows[1]? = some x ∧ windows[2]? = some y ∧
      windows[3]? = some z ∧ (1, Act.answer (.ok ⟨2, Duration.ofMillis 2000⟩)) ∈ s.history ∧
      usageOf (.exact true) y.1.answer =
        .error (RedisStoreError.invalidResetAfter 0).toRateLimitError ∧
      x.2.serial < z.2.serial := by
  intro s windows
  have htold : (1, Act.answer (.ok ⟨2, Duration.ofMillis 2000⟩)) ∈ s.history :=
    List.mem_of_getElem? (i := 2) rfl
  have hretry := replicas_retryAfter (fun _ => slowReplica) retries healthy_retries _ _
    (List.mem_of_getElem? (i := 1) rfl) htold
  refine ⟨healthy_retries, _, _, _, rfl, rfl, rfl, htold, ?_, ?_⟩
  · have hat := (hretry.1 _ (List.mem_of_getElem? (i := 2) rfl) rfl).2 rfl
    exact (hat.resolve_left (by decide)).2
  · exact ((hretry.1 _ (List.mem_of_getElem? (i := 3) rfl) rfl).1 (by decide)).1

/-! ## Locked keys -/

/-- **A counter without a deadline locks its key at every replica.** Once the database holds one,
whatever happens later: no request that is executed then is told a usage for the key, so none of
them passes a replica that rejects when the store fails. -/
theorem locked_out (jobs : ℕ → Job (redis backend) Head ReqBody ResBody)
    (before later : List (Event (redis backend) ResBody E)) {k : String} {counter : Counter}
    (hcounter : (start.after jobs before).store.state k = some counter)
    (hnone : counter.deadline = none) :
    let s₀ := start.after jobs before
    let s := s₀.after jobs later
    ∀ id, (jobs id).store.redisKey (jobs id).storeKey = k → id ∉ s₀.executedIds →
      (∀ u, (id, Act.answer (.ok u)) ∉ s.history) ∧
      (0 < s.calls id →
        (jobs id).limiter.skips (jobs id).request = true ∨ s.failedOpen jobs id = true) := by
  intro s₀ s id hkey hnew
  have hsound₀ : s₀.Sound jobs := sound_start.after before
  have hsound : s.Sound jobs := hsound₀.after later
  have hfails : ∀ u, (id, Act.answer (.ok u)) ∉ s.history := by
    intro u hu
    obtain ⟨x, hx, hid, husage⟩ := hsound.executed_of_usage (mem_acts.mpr hu)
    obtain ⟨rest, hrest⟩ := hsound₀.prefix_after later
    have hx' : x ∈ s₀.store.executed ++ rest := hrest ▸ hx
    rcases List.mem_append.mp hx' with hold | hlater
    · exact hnew (List.mem_map.mpr ⟨x, hold, hid⟩)
    · -- the request was executed after the counter had lost its deadline
      obtain ⟨between, rest', rfl⟩ := List.append_of_mem hlater
      have hanswer := hsound.answer_run
        (show s.store.executed = (s₀.store.executed ++ between) ++ x :: rest' by
          rw [List.append_assoc]
          exact hrest.symm)
      have hredisKey : ((jobs x.command.id).increments x.reading).redisKey = k := by
        rw [hid]
        exact hkey
      have hkeyspace : keyspaceAfter backend .empty (s₀.increments jobs)
          ((jobs x.command.id).increments x.reading).redisKey = some counter := by
        rw [hredisKey, ← hsound₀.ran.1]
        exact hcounter
      obtain ⟨e, he⟩ := later_calls_fail backend (s₀.increments jobs)
        (between.map fun y => (jobs y.command.id).increments y.reading) hkeyspace hnone
      rw [husage, List.map_append, ← System.increments, he] at hanswer
      exact absurd hanswer (by simp)
  refine ⟨hfails, fun hcalls => ?_⟩
  rcases ((hsound.told id).course.of_call hcalls).2 with
    ⟨hskip, -⟩ | ⟨hmode, hfailure⟩ | ⟨limit, _, u, -, hu, rfl, -⟩
  · exact .inl hskip
  · refine .inr ?_
    rw [failedOpen, hfailure, hmode]
    rfl
  · exact absurd (mem_acts.mp hu) (hfails u)

/-- The first request is one of a replica whose window the server refuses as an expiry time. -/
def lockingJobs : ℕ → Job (redis (.exact true)) Unit Unit Unit
  | 0 => { replica .lua with
      limiter := { (replica .lua).limiter with window := Duration.ofMillis 9223372036854775807 } }
  | _ => replica .lua

/-- The first request loses the deadline of the counter, and a second one is executed. -/
theorem locked_out_second :
    let before : List (Event (redis (.exact true)) Unit Unit) :=
      [.call 0, .poll 0 readyTurn, .poll 0 readyTurn, .serve 0 1]
    let later : List (Event (redis (.exact true)) Unit Unit) :=
      [.call 1, .poll 1 readyTurn, .poll 1 readyTurn, .serve 1 2, .poll 1 readyTurn,
        .poll 1 readyTurn]
    let s₀ := start.after lockingJobs before
    let s := s₀.after lockingJobs later
    s₀.store.state "rl:p:c" = some ⟨1, none⟩ ∧ s.executedIds = [0, 1] ∧
      (∀ u, (1, Act.answer (.ok u)) ∉ s.history) ∧ s.calls 1 = 0 := by
  intro before later s₀ s
  have hlocked := locked_out lockingJobs before later (k := "rl:p:c") (by rfl)
    (by rfl) 1 rfl (by decide)
  refine ⟨rfl, by decide, hlocked.1, ?_⟩
  by_contra hcalls
  rcases hlocked.2 (Nat.pos_of_ne_zero hcalls) with hskip | hfailedOpen
  · exact absurd hskip (by decide)
  · exact absurd hfailedOpen (by decide)

end System

end TowerRateLimiter
